import SqlEdit.Proofs.Nesting.Pieces

namespace SqlEdit

open Nesting (Free)
open Text (Closed)

namespace Nesting

variable {p : Char → Bool} {n : Nesting} {t inside rest : Text}

theorem free_iff_forall :
    Free p n t ↔ ∀ front c back, t = front ++ c :: back → p c → (n.after front).isTop = false := by
  induction t generalizing n with
  | nil => simp
  | cons c t ih =>
      rw [free_cons, ih]
      constructor
      · rintro ⟨hc, ht⟩ front d back he hd
        cases front with
        | nil =>
            obtain ⟨rfl, rfl⟩ := List.cons.inj he
            simpa [hd] using hc
        | cons _ front =>
            obtain ⟨rfl, rfl⟩ := List.cons.inj he
            exact ht front d back rfl hd
      · intro h
        refine ⟨?_, fun front d back he hd => h (c :: front) d back (by rw [he]; rfl) hd⟩
        cases hc : p c with
        | false => rw [Bool.and_false]
        | true => rw [Bool.and_true, ← h [] c t rfl hc, after_nil]

def inner (n : Nesting) : Nesting :=
  ⟨n.quote, n.depth + 1⟩

theorem inner_eq_iff : n.inner = ⟨none, 1⟩ ↔ n = top := by
  obtain ⟨q, d⟩ := n
  simp [inner, top]

theorem step_inner {c : Char} (h : ¬ (n = top ∧ c = ')')) : n.inner.step c = (n.step c).inner := by
  obtain ⟨_ | q, d⟩ := n
  · simp only [step, inner]
    split
    · rfl
    split
    next hc =>
      have hd : d ≠ 0 := by
        rintro rfl
        exact h ⟨rfl, hc⟩
      simp only [Nesting.mk.injEq, true_and]
      omega
    · rfl
  · simp only [step, inner]
    split <;> rfl

theorem after_inner (h : Free (· == ')') n t) : n.inner.after t = (n.after t).inner := by
  induction t generalizing n with
  | nil => rfl
  | cons c t ih =>
      obtain ⟨hc, ht⟩ := free_cons.1 h
      have hc : ¬ (n = top ∧ c = ')') := by
        rintro ⟨rfl, rfl⟩
        cases hc
      rw [after_cons, step_inner hc, ih ht, after_cons]

/-- A group goes on to the first parenthesis that closes nothing inside it. -/
theorem closeGroup?_eq_some_iff :
    n.inner.closeGroup? t = some (inside, rest) ↔
      t = inside ++ ')' :: rest ∧ Free (· == ')') n inside ∧ n.after inside = top := by
  -- One more parenthesis is open for the reader than for the text inside the group.
  induction t generalizing n inside with
  | nil => simp [closeGroup?]
  | cons c t ih =>
      simp only [closeGroup?, inner_eq_iff]
      by_cases hc : n = top ∧ c = ')'
      · rw [if_pos hc]
        obtain ⟨rfl, rfl⟩ := hc
        cases inside with
        | nil => simp [eq_comm]
        | cons d inside =>
            simp only [Option.some.injEq, Prod.mk.injEq, List.cons_append, List.cons.injEq, free_cons]
            constructor
            · rintro ⟨h, -⟩
              simp at h
            · rintro ⟨⟨rfl, -⟩, h, -⟩
              simp [isTop, top] at h
      · have hfree : (n.isTop && c == ')') = false := by
          rw [Bool.and_eq_false_iff, beq_eq_false_iff_ne, ← Bool.not_eq_true, isTop_iff]
          exact not_and_or.1 hc
        rw [if_neg hc, step_inner hc, Option.map_eq_some_iff]
        constructor
        · rintro ⟨⟨g, r⟩, hg, he⟩
          obtain ⟨rfl, rfl⟩ := Prod.mk.inj he
          obtain ⟨rfl, hf, ha⟩ := ih.1 hg
          exact ⟨rfl, free_cons.2 ⟨hfree, hf⟩, ha⟩
        · rintro ⟨he, hf, ha⟩
          cases inside with
          | nil =>
              obtain ⟨rfl, -⟩ := List.cons.inj he
              exact absurd ⟨ha, rfl⟩ hc
          | cons d g =>
              obtain ⟨rfl, rfl⟩ := List.cons.inj he
              exact ⟨(g, rest), ih.2 ⟨rfl, (free_cons.1 hf).2, ha⟩, rfl⟩

end Nesting

namespace Text

variable {t inside rest : Text}

/-- Whether a text closes all that it opens and nothing else. -/
structure Balanced (t : Text) : Prop where
  opened : ∀ front back, t = front ++ ')' :: back → (Nesting.top.after front).isTop = false
  closed : Nesting.top.after t = .top

theorem balanced_iff : Balanced t ↔ Free (· == ')') .top t ∧ Closed t := by
  rw [Nesting.free_iff_forall]
  constructor
  · rintro ⟨ho, hc⟩
    refine ⟨fun front c back he hp => ?_, hc⟩
    obtain rfl := eq_of_beq hp
    exact ho front back he
  · rintro ⟨ho, hc⟩
    exact ⟨fun front back he => ho front ')' back he rfl, hc⟩

instance (t : Text) : Decidable (Balanced t) :=
  decidable_of_iff' _ balanced_iff

theorem takeGroup?_eq_some_iff :
    takeGroup? t = some (inside, rest) ↔ t = '(' :: inside ++ ')' :: rest ∧ Balanced inside := by
  have hg (u : Text) : Nesting.closeGroup? ⟨none, 1⟩ u = some (inside, rest) ↔
      u = inside ++ ')' :: rest ∧ Balanced inside := by
    rw [balanced_iff]
    exact Nesting.closeGroup?_eq_some_iff (n := .top)
  unfold takeGroup?
  split
  next u => rw [hg, List.cons_append, List.cons.injEq, and_iff_right rfl]
  next hne =>
    refine iff_of_false (by simp) ?_
    rintro ⟨he, -⟩
    exact hne _ he

theorem closed_of_takeGroup? (h : takeGroup? t = some (inside, rest)) : Closed t ↔ Closed rest := by
  obtain ⟨rfl, hb⟩ := takeGroup?_eq_some_iff.1 h
  obtain ⟨hf, hc⟩ := balanced_iff.1 hb
  have ho : Nesting.top.step '(' = Nesting.top.inner := by decide
  have hr : Nesting.top.inner.step ')' = .top := by decide
  rw [Closed, List.cons_append, Nesting.after_cons, ho, Nesting.after_append,
    Nesting.after_inner hf, hc, Nesting.after_cons, hr, Closed]

/-- A group is taken off a text exactly if one stands in front of it, and what it holds is
balanced. -/
theorem takeGroup?_iff_balanced (t : Text) :
    (∀ inside rest, takeGroup? t = some (inside, rest) ↔
        t = '(' :: inside ++ ')' :: rest ∧ Balanced inside) ∧
      (takeGroup? t = none ↔
        ¬ ∃ inside rest, t = '(' :: inside ++ ')' :: rest ∧ Balanced inside) := by
  refine ⟨fun inside rest => takeGroup?_eq_some_iff, ?_⟩
  simp only [← takeGroup?_eq_some_iff, Option.eq_none_iff_forall_ne_some, Prod.forall, not_exists]

example : takeGroup? "(a, (b), ')') VALUES".toList =
    some ("a, (b), ')'".toList, " VALUES".toList) := by decide

end Text

end SqlEdit
