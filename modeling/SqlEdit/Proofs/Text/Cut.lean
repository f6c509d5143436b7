import Mathlib.Data.List.Basic
import Mathlib.Tactic.Common
import SqlEdit.Text.Basic

namespace SqlEdit.Text

variable {p : Char → Bool} {s t u : Text} {c : Char}

theorem subset_of_mem_cut (hu : u ∈ cut p t) : u ⊆ t := by
  induction t generalizing u with
  | nil =>
      rw [cut, List.mem_singleton] at hu
      subst hu
      exact List.nil_subset _
  | cons d t ih =>
      rw [cut] at hu
      split at hu
      · rcases List.mem_cons.1 hu with rfl | hu
        · exact List.nil_subset _
        · exact List.subset_cons_of_subset _ (ih hu)
      · obtain ⟨v, vs, hv⟩ := List.exists_cons_of_ne_nil (cut_ne_nil p t)
        rw [hv, List.modifyHead_cons, List.mem_cons] at hu
        rcases hu with rfl | hu
        · exact List.cons_subset_cons d (ih (hv ▸ List.mem_cons_self))
        · exact List.subset_cons_of_subset _ (ih (hv ▸ List.mem_cons_of_mem _ hu))

theorem exists_mem_cut (hc : c ∈ t) : p c ∨ ∃ u ∈ cut p t, c ∈ u := by
  induction t with
  | nil => exact absurd hc List.not_mem_nil
  | cons d t ih =>
      obtain ⟨v, vs, hv⟩ := List.exists_cons_of_ne_nil (cut_ne_nil p t)
      rw [hv] at ih
      rw [cut, hv, List.modifyHead_cons]
      rcases List.mem_cons.1 hc with rfl | hc
      · split <;> simp_all
      · split <;> grind

theorem not_of_mem_cut (hu : u ∈ cut p t) (hc : c ∈ u) : p c = false := by
  induction t generalizing u with
  | nil =>
      rw [cut, List.mem_singleton] at hu
      exact absurd (hu ▸ hc) List.not_mem_nil
  | cons d t ih =>
      rw [cut] at hu
      split at hu
      · rcases List.mem_cons.1 hu with rfl | hu
        · exact absurd hc List.not_mem_nil
        · exact ih hu hc
      next hd =>
        obtain ⟨v, vs, hv⟩ := List.exists_cons_of_ne_nil (cut_ne_nil p t)
        rw [hv] at ih
        rw [hv, List.modifyHead_cons, List.mem_cons] at hu
        rcases hu with rfl | hu
        · rcases List.mem_cons.1 hc with rfl | hc
          · exact Bool.eq_false_iff.2 hd
          · exact ih List.mem_cons_self hc
        · exact ih (List.mem_cons_of_mem _ hu) hc

/-- A text and its first stretch begin with the same character unless that is a separator. -/
theorem any_head?_of_cut {q : Char → Bool} {us : List Text} (h : cut p t = u :: us)
    (hq : ∀ c, p c → q c = false) : t.head?.any q = u.head?.any q := by
  cases t with
  | nil => rw [← (List.cons.inj h).1]
  | cons d t =>
      rw [cut] at h
      split at h
      next hd => rw [← (List.cons.inj h).1, List.head?_cons, Option.any_some, hq d hd]; rfl
      next =>
        obtain ⟨v, vs, hv⟩ := List.exists_cons_of_ne_nil (cut_ne_nil p t)
        rw [hv, List.modifyHead_cons] at h
        rw [← (List.cons.inj h).1]
        rfl

theorem cut_eq_singleton (h : ∀ c ∈ t, p c = false) : cut p t = [t] := by
  induction t with
  | nil => rfl
  | cons c t ih =>
      obtain ⟨hc, ht⟩ := List.forall_mem_cons.1 h
      rw [cut, hc, ih ht]
      rfl

theorem cut_append (hs : ∀ c ∈ s, p c = false) (t : Text) :
    cut p (s ++ t) = (cut p t).modifyHead (s ++ ·) := by
  induction s with
  | nil =>
      obtain ⟨u, us, hu⟩ := List.exists_cons_of_ne_nil (cut_ne_nil p t)
      simp [hu]
  | cons c s ih =>
      obtain ⟨hc, hs⟩ := List.forall_mem_cons.1 hs
      rw [List.cons_append, cut, if_neg (by simp [hc]), ih hs, List.modifyHead_modifyHead]
      rfl

theorem cut_append_cons (hc : p c) (s t : Text) : cut p (s ++ c :: t) = cut p s ++ cut p t := by
  induction s with
  | nil => exact if_pos hc
  | cons d s ih =>
      obtain ⟨v, vs, hv⟩ := List.exists_cons_of_ne_nil (cut_ne_nil p s)
      rw [List.cons_append, cut, ih, cut, hv]
      split
      · rfl
      · rfl

end SqlEdit.Text
