import Mathlib.Data.List.Forall2
import SqlEdit.Proofs.Nesting.Count
import SqlEdit.Statement.Parser
import SqlEdit.Statement.Render

namespace SqlEdit

open Nesting (Pieces Free)
open Text (Closed Solid Countable)

theorem mapM_eq_some_iff {α β : Type} {f : α → Option β} {as : List α} {bs : List β} :
    as.mapM f = some bs ↔ List.Forall₂ (fun a b => f a = some b) as bs := by
  induction as generalizing bs with
  | nil => cases bs <;> simp
  | cons a as ih =>
      rw [List.mapM_cons, Option.bind_eq_bind, Option.bind_eq_some_iff]
      cases bs with
      | nil => simp [Option.bind_eq_some_iff]
      | cons b bs =>
          rw [List.forall₂_cons, ← ih]
          simp [Option.bind_eq_some_iff]

theorem bind_eq_ok_iff {ε α β : Type} {x : Except ε α} {f : α → Except ε β} {b : β} :
    x >>= f = .ok b ↔ ∃ a, x = .ok a ∧ f a = .ok b := by
  cases x <;> simp [bind, Except.bind]

theorem mapM_eq_ok_iff {ε α β : Type} {f : α → Except ε β} {as : List α} {bs : List β} :
    as.mapM f = .ok bs ↔ List.Forall₂ (fun a b => f a = .ok b) as bs := by
  induction as generalizing bs with
  | nil => cases bs <;> simp [pure, Except.pure]
  | cons a as ih =>
      rw [List.mapM_cons, bind_eq_ok_iff]
      cases bs with
      | nil => simp [bind_eq_ok_iff, pure, Except.pure]
      | cons b bs =>
          rw [List.forall₂_cons, ← ih]
          simp [bind_eq_ok_iff, pure, Except.pure]

theorem bind_eq_error_iff {ε α β : Type} {x : Except ε α} {f : α → Except ε β} {e : ε} :
    x >>= f = .error e ↔ x = .error e ∨ ∃ a, x = .ok a ∧ f a = .error e := by
  cases x <;> simp [bind, Except.bind]

theorem mapM_eq_error_iff {ε α β : Type} {f : α → Except ε β} {as : List α} {e : ε} :
    as.mapM f = .error e ↔ ∃ front a back, as = front ++ a :: back ∧
      (∀ b ∈ front, (f b).toOption.isSome) ∧ f a = .error e := by
  induction as with
  | nil => simp [pure, Except.pure]
  | cons a as ih =>
      rw [List.mapM_cons, bind_eq_error_iff]
      constructor
      · rintro (h | ⟨b, hb, h⟩)
        · exact ⟨[], a, as, rfl, by simp, h⟩
        · obtain h | ⟨bs, -, h⟩ := bind_eq_error_iff.1 h
          · obtain ⟨front, a', back, rfl, hf, he⟩ := ih.1 h
            refine ⟨a :: front, a', back, rfl, List.forall_mem_cons.2 ⟨?_, hf⟩, he⟩
            rw [hb]
            rfl
          · cases h
      · rintro ⟨front, a', back, he, hf, h⟩
        cases front with
        | nil =>
            obtain ⟨rfl, -⟩ := List.cons.inj he
            exact .inl h
        | cons c front =>
            obtain ⟨rfl, rfl⟩ := List.cons.inj he
            obtain ⟨hc, hf⟩ := List.forall_mem_cons.1 hf
            cases hfa : f a with
            | error => simp [hfa, Except.toOption] at hc
            | ok b =>
                have hm := ih.2 ⟨front, a', back, rfl, hf, h⟩
                exact .inr ⟨b, rfl, bind_eq_error_iff.2 (.inl hm)⟩

theorem exists_of_forall₂ {α β : Type} {r : α → β → Prop} {as : List α} {bs : List β}
    (h : List.Forall₂ r as bs) {b : β} (hb : b ∈ bs) : ∃ a ∈ as, r a b := by
  induction h with
  | nil => simp at hb
  | cons hr h ih => grind

/-- Texts that are free and closed wherever others are keep their borders like these. -/
theorem Nesting.Pieces.forall₂ {p : Char → Bool} {ts us : List Text} (h : Pieces p ts)
    (hr : List.Forall₂ (fun t u => (Free p .top t → Free p .top u) ∧ (Closed t → Closed u)) ts us) :
    Pieces p us := by
  induction hr with
  | nil => exact h
  | cons hr hrs ih =>
      obtain ⟨hf, hc, h⟩ := pieces_cons.1 h
      refine pieces_cons.2 ⟨hr.1 hf, fun hne => hr.2 (hc ?_), ih h⟩
      rintro rfl
      exact hne (List.forall₂_nil_left_iff.1 hrs)

namespace Text

variable {ts : List Text} {t : Text}

theorem isPlain_comma : Nesting.isPlain ',' := by decide

theorem commaList_cons_cons (s t : Text) (ts : List Text) :
    commaList (s :: t :: ts) = s ++ ',' :: ' ' :: commaList (t :: ts) := by
  rw [commaList, join_cons_cons, List.append_assoc]
  rfl

theorem commaList_singleton (t : Text) : commaList [t] = t := by
  simp [commaList, join]

theorem solid_commaList (hne : ts ≠ []) (h : ∀ t ∈ ts, Solid t) : Solid (commaList ts) := by
  induction ts with
  | nil => exact absurd rfl hne
  | cons t ts ih =>
      cases ts with
      | nil => rw [commaList_singleton]; exact h t (by simp)
      | cons u us =>
          have hu := ih (List.cons_ne_nil _ _) fun v hv => h v (List.mem_cons_of_mem _ hv)
          have hs := (h t (by simp)).append hu ", ".toList
          rw [commaList_cons_cons]
          simpa using hs

theorem splitItems_commaList (h : Pieces (· == ',') ts) (hne : ts ≠ []) (hs : ∀ t ∈ ts, Solid t) :
    (commaList ts).splitItems ',' = ts :=
  splitItems_join isPlain_comma (by decide) h (fun t ht => (hs t ht).trim_eq)
    (solid_commaList hne hs).not_isBlank

theorem closed_commaList (h : ∀ t ∈ ts, Closed t) : Closed (commaList ts) :=
  closed_join rfl h

theorem free_commaList {q : Char → Bool} (hc : q ',' = false) (hs : q ' ' = false)
    (h : Pieces q ts) : Free q .top (commaList ts) :=
  free_join rfl (Nesting.free_of_forall (by simp [hc, hs])) h

theorem closed_of_mem_splitItems {u : Text} (hc : Closed t) (hu : u ∈ t.splitItems ',') :
    Closed u := by
  obtain ⟨v, hv, rfl⟩ := exists_of_mem_splitItems hu
  exact closed_trim.2 ((Nesting.of_mem_cut (q := isSpace) (forall_of_beq isPlain_comma) hv).2 hc)

theorem solid_of_mem_splitItems {u : Text} (hu : u ∈ t.splitItems ',') (hne : u ≠ []) : Solid u :=
  solid_iff.2 ⟨hne, trim_of_mem_splitItems hu⟩

theorem countP_commaList_le {p : Char → Bool} {ss ts : List Text}
    (h : List.Forall₂ (fun s t => t.countP p ≤ s.countP p) ss ts) :
    (commaList ts).countP p ≤ (commaList ss).countP p := by
  induction h with
  | nil => exact Nat.le_refl _
  | cons hst h ih =>
      cases h with
      | nil => simpa only [commaList_singleton] using hst
      | cons huv h =>
          rw [commaList_cons_cons, commaList_cons_cons, List.countP_append, List.countP_append,
            List.countP_cons, List.countP_cons, List.countP_cons, List.countP_cons]
          omega

theorem squash_commaList_splitItems (t : Text) :
    squash (commaList (t.splitItems ',')) = squash t :=
  squash_join_splitItems ',' t

theorem countP_commaList_splitItems {p : Char → Bool} (hp : Countable p) (t : Text) :
    (commaList (t.splitItems ',')).countP p = t.countP p :=
  countP_eq_of_squash hp (squash_commaList_splitItems t)

end Text

end SqlEdit
