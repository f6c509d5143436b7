import SqlEdit.Proofs.Text.Case
import SqlEdit.Text.Blank
import Mathlib.Tactic.Common

namespace SqlEdit

theorem isBlank_of_isAlpha {c : Char} (h : c.isAlpha) : isBlank c = false := by
  have hn := toNat_of_isAlpha h
  simp only [isBlank, Bool.or_eq_false_iff, Bool.and_eq_false_iff, decide_eq_false_iff_not,
    beq_eq_false_iff_ne]
  omega

namespace Text

structure Solid (t : Text) : Prop where
  head : t.head?.any (!SqlEdit.isBlank ·)
  last : t.getLast?.any (!SqlEdit.isBlank ·)

instance (t : Text) : Decidable (Solid t) :=
  decidable_of_iff (t.head?.any (!SqlEdit.isBlank ·) ∧ t.getLast?.any (!SqlEdit.isBlank ·))
    ⟨fun h => ⟨h.1, h.2⟩, fun h => ⟨h.head, h.last⟩⟩

theorem Solid.ne_nil {t : Text} (h : Solid t) : t ≠ [] := by
  rintro rfl
  exact absurd h.head (by decide)

theorem Solid.cons {t : Text} (h : Solid t) :
    ∃ c u, t = c :: u ∧ SqlEdit.isBlank c = false := by
  obtain ⟨c, u, rfl⟩ := List.exists_cons_of_ne_nil h.ne_nil
  exact ⟨c, u, rfl, by simpa using h.head⟩

theorem Solid.concat {t : Text} (h : Solid t) :
    ∃ u c, t = u ++ [c] ∧ SqlEdit.isBlank c = false := by
  obtain ⟨u, c, rfl⟩ : ∃ u c, t = u ++ [c] := ⟨_, _, (List.dropLast_concat_getLast h.ne_nil).symm⟩
  exact ⟨u, c, rfl, by simpa using h.last⟩

theorem solid_of_all {t : Text} (hne : t ≠ []) (h : t.all (!SqlEdit.isBlank ·)) : Solid t := by
  have hb := List.all_eq_true.1 h
  constructor
  · obtain ⟨c, u, rfl⟩ := List.exists_cons_of_ne_nil hne
    exact hb c List.mem_cons_self
  · rw [List.getLast?_eq_some_getLast hne]
    exact hb _ (List.getLast_mem hne)

theorem solid_of_ends {c d : Char} {s t : Text} (hs : s.head? = some c) (ht : t.getLast? = some d)
    (hc : SqlEdit.isBlank c = false) (hd : SqlEdit.isBlank d = false) (m : Text) :
    Solid (s ++ m ++ t) := by
  constructor
  · simp [List.head?_append, hs, hc]
  · simp [List.getLast?_append, ht, hd]

theorem Solid.append {s t : Text} (hs : Solid s) (ht : Solid t) (m : Text) :
    Solid (s ++ m ++ t) := by
  obtain ⟨c, u, rfl, hc⟩ := hs.cons
  obtain ⟨v, d, rfl, hd⟩ := ht.concat
  exact solid_of_ends rfl (by simp) hc hd m

theorem isBlank_append {s t : Text} : isBlank (s ++ t) ↔ isBlank s ∧ isBlank t := by
  simp [isBlank]

theorem Solid.not_isBlank {t : Text} (h : Solid t) : ¬ isBlank t := by
  obtain ⟨c, u, rfl, hc⟩ := h.cons
  simp [isBlank, hc]

theorem trimStart_append {s t : Text} (hs : isBlank s) : trimStart (s ++ t) = trimStart t := by
  rw [isBlank, List.all_eq_true] at hs
  exact List.dropWhile_append_of_pos hs

theorem trimEnd_append {s t : Text} (ht : isBlank t) : trimEnd (s ++ t) = trimEnd s := by
  rw [isBlank, List.all_eq_true] at ht
  rw [trimEnd, List.reverse_append, List.dropWhile_append_of_pos (by simpa using ht), trimEnd]

theorem trimStart_cons {c : Char} (hc : SqlEdit.isBlank c = false) (t : Text) :
    trimStart (c :: t) = c :: t := by
  rw [trimStart, List.dropWhile_cons_of_neg (by simp [hc])]

theorem trimStart_space (t : Text) : trimStart (' ' :: t) = trimStart t :=
  trimStart_append (s := [' ']) (by decide)

theorem trimEnd_concat {c : Char} (hc : SqlEdit.isBlank c = false) (t : Text) :
    trimEnd (t ++ [c]) = t ++ [c] := by
  rw [trimEnd, List.reverse_append, List.reverse_singleton, List.singleton_append,
    List.dropWhile_cons_of_neg (by simp [hc]), List.reverse_cons, List.reverse_reverse]

theorem Solid.trimStart_append {s : Text} (h : Solid s) (t : Text) :
    trimStart (s ++ t) = s ++ t := by
  obtain ⟨c, u, rfl, hc⟩ := h.cons
  exact trimStart_cons hc _

@[simp]
theorem Solid.trimStart_eq {t : Text} (h : Solid t) : trimStart t = t := by
  simpa using h.trimStart_append []

@[simp]
theorem Solid.trimEnd_eq {t : Text} (h : Solid t) : trimEnd t = t := by
  obtain ⟨u, c, rfl, hc⟩ := h.concat
  exact trimEnd_concat hc u

@[simp]
theorem Solid.trim_eq {t : Text} (h : Solid t) : trim t = t := by
  rw [trim, h.trimStart_eq, h.trimEnd_eq]

theorem trim_append_left {s t : Text} (hs : isBlank s) : trim (s ++ t) = trim t := by
  rw [trim, trimStart_append hs, trim]

theorem trim_append_right {s t : Text} (ht : isBlank t) : trim (s ++ t) = trim s := by
  by_cases hs : isBlank s
  · rw [trim_eq_nil_iff.2 hs, trim_eq_nil_iff.2 (isBlank_append.2 ⟨hs, ht⟩)]
  · have hne : trimStart s ≠ [] := by
      intro he
      exact hs (trim_eq_nil_iff.1 (by rw [trim, he]; rfl))
    have h : trimStart (s ++ t) = trimStart s ++ t := by
      rw [trimStart, List.dropWhile_append, if_neg (by simpa [trimStart] using hne), trimStart]
    rw [trim, h, trimEnd_append ht, trim]

theorem trim_concat {c : Char} (hc : SqlEdit.isBlank c = false) (t : Text) :
    trim (t ++ [c]) = trimStart t ++ [c] := by
  have h : trimStart (t ++ [c]) = trimStart t ++ [c] := by
    rw [trimStart, trimStart, List.dropWhile_append]
    split
    · next he => rw [List.isEmpty_iff.1 he, List.dropWhile_cons_of_neg (by simp [hc]), List.nil_append]
    · rfl
  rw [trim, h, trimEnd_concat hc]

theorem trim_space (t : Text) : trim (' ' :: t) = trim t :=
  trim_append_left (s := [' ']) (by decide)

theorem exists_eq_trimStart (t : Text) : ∃ s, isBlank s ∧ t = s ++ trimStart t :=
  ⟨t.takeWhile SqlEdit.isBlank, List.all_takeWhile, List.takeWhile_append_dropWhile.symm⟩

theorem exists_eq_trimEnd (t : Text) : ∃ s, isBlank s ∧ t = trimEnd t ++ s := by
  refine ⟨(t.reverse.takeWhile SqlEdit.isBlank).reverse, ?_, ?_⟩
  · exact List.all_reverse.trans List.all_takeWhile
  · rw [trimEnd, ← List.reverse_append, List.takeWhile_append_dropWhile, List.reverse_reverse]

theorem length_trimEnd_le (t : Text) : (trimEnd t).length ≤ t.length := by
  rw [trimEnd, List.length_reverse]
  exact Nat.le_trans (List.dropWhile_sublist _).length_le (Nat.le_of_eq List.length_reverse)

theorem length_trim_le (t : Text) : (trim t).length ≤ t.length :=
  Nat.le_trans (length_trimEnd_le _) (List.dropWhile_sublist _).length_le

theorem head?_trimStart {t : Text} (h : ¬ isBlank t) :
    (trimStart t).head?.any (!SqlEdit.isBlank ·) := by
  induction t with
  | nil => exact absurd rfl h
  | cons c t ih =>
      cases hc : SqlEdit.isBlank c with
      | false =>
          rw [trimStart_cons hc]
          simp [hc]
      | true =>
          have ht : ¬ isBlank t := fun ht => h (by simp_all [isBlank])
          have he : trimStart (c :: t) = trimStart t := List.dropWhile_cons_of_pos hc
          rw [he]
          exact ih ht

theorem getLast?_trimEnd {t : Text} (h : ¬ isBlank t) :
    (trimEnd t).getLast?.any (!SqlEdit.isBlank ·) := by
  have hr : ¬ isBlank t.reverse := by simpa [isBlank] using h
  rw [trimEnd, List.getLast?_reverse]
  exact head?_trimStart hr

theorem head?_trimEnd {t : Text} (h : t.head?.any (!SqlEdit.isBlank ·)) :
    (trimEnd t).head?.any (!SqlEdit.isBlank ·) := by
  obtain ⟨s, hs, he⟩ := exists_eq_trimEnd t
  cases ht : trimEnd t with
  | nil =>
      rw [ht, List.nil_append] at he
      subst he
      cases t with
      | nil => simp at h
      | cons c t => simp_all [isBlank]
  | cons c u =>
      rw [ht] at he
      rw [he] at h
      exact h

theorem solid_trim {t : Text} (h : ¬ isBlank t) : Solid (trim t) := by
  have hs := head?_trimStart h
  have hn : ¬ isBlank (trimStart t) := by
    intro hb
    cases ht : trimStart t with
    | nil => simp [ht] at hs
    | cons c u => simp_all [isBlank]
  exact ⟨head?_trimEnd hs, getLast?_trimEnd hn⟩

theorem solid_iff {t : Text} : Solid t ↔ t ≠ [] ∧ trim t = t := by
  constructor
  · exact fun h => ⟨h.ne_nil, h.trim_eq⟩
  · rintro ⟨hne, he⟩
    rw [← he]
    exact solid_trim fun hb => hne (by rw [← he, trim_eq_nil_iff.2 hb])

end Text

end SqlEdit
