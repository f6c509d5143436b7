import SqlEdit.Proofs.Keyword.Hidden

namespace SqlEdit

open Nesting (Free)
open Text (Closed Solid)
open Keyword (Apart Absent)

namespace Nesting

variable {n : Nesting} {q : Quote} {d : Nat} {c : Char} {t : Text}

theorem step_of_ne_mark (h : c ≠ q.mark) : step ⟨some q, d⟩ c = ⟨some q, d⟩ :=
  if_neg h

theorem after_of_mark_not_mem (h : q.mark ∉ t) : after ⟨some q, d⟩ t = ⟨some q, d⟩ := by
  induction t with
  | nil => rfl
  | cons c t ih =>
      rw [List.mem_cons, not_or] at h
      rw [after_cons, step_of_ne_mark (Ne.symm h.1), ih h.2]

theorem free_of_mark_not_mem {p : Char → Bool} (h : q.mark ∉ t) : Free p ⟨some q, d⟩ t := by
  induction t with
  | nil => exact free_nil
  | cons c t ih =>
      rw [List.mem_cons, not_or] at h
      refine free_cons.2 ⟨rfl, ?_⟩
      rw [step_of_ne_mark (Ne.symm h.1)]
      exact ih h.2

/-- No double quote is open that does not stand in the text. -/
theorem quote_after_ne_double (hn : n.quote ≠ some .double) (h : '"' ∉ t) :
    (n.after t).quote ≠ some .double := by
  induction t generalizing n with
  | nil => exact hn
  | cons c t ih =>
      rw [List.mem_cons, not_or] at h
      refine ih ?_ h.2
      unfold step Quote.opened?
      grind

end Nesting

namespace Text

def quoted (name : Text) : Text :=
  '"' :: (name ++ ['"'])

variable {name : Text}

theorem solid_quoted (name : Text) : Solid (quoted name) :=
  solid_of_ends (s := ['"']) (t := ['"']) rfl rfl (by decide) (by decide) name

theorem closed_quoted (h : '"' ∉ name) : Closed (quoted name) := by
  have hq : Nesting.top.step '"' = ⟨some .double, 0⟩ := by decide
  rw [Closed, quoted, Nesting.after_cons, hq, Nesting.after_append,
    Nesting.after_of_mark_not_mem (q := .double) h]
  rfl

theorem free_quoted {p : Char → Bool} (hp : p '"' = false) (h : '"' ∉ name) :
    Free p .top (quoted name) := by
  have hq : Nesting.top.step '"' = ⟨some .double, 0⟩ := by decide
  refine Nesting.free_cons.2 ⟨by simp [hp], ?_⟩
  rw [hq, Nesting.free_append]
  exact ⟨Nesting.free_of_mark_not_mem h, Nesting.free_of_forall (by simpa using hp)⟩

theorem absent_quoted {ks : List Keyword} (ha : Apart ks) (h : '"' ∉ name) :
    Absent ks (quoted name) :=
  Keyword.absent_of_free ha (free_quoted (by decide) h)

end Text

end SqlEdit
