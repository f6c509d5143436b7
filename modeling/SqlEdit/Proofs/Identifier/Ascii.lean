import SqlEdit.Proofs.Identifier.Style
import SqlEdit.Proofs.Text.Case

namespace SqlEdit

open Unicode (lower upper isUppercase)

variable {c d : Char} {s t : Text}

namespace Text

def IsAscii (t : Text) : Prop :=
  ∀ c ∈ t, c.toNat < 128

instance (t : Text) : Decidable t.IsAscii :=
  List.decidableBAll _ t

theorem IsAscii.subset (h : IsAscii t) (hs : s ⊆ t) : IsAscii s :=
  fun c hc => h c (hs hc)

theorem foldCase_eq_self_iff : t.foldCase = t ↔ ∀ c ∈ t, c.isUpper = false := by
  simp only [← toLower_eq_self_iff]
  conv_lhs => rw [foldCase, ← List.map_id t, List.map_map]
  exact List.map_inj_left

theorem IsAscii.foldCase (h : t.IsAscii) : t.foldCase.IsAscii :=
  List.forall_mem_map.2 fun c hc => toLower_lt (h c hc)

theorem isUpper_of_mem_foldCase (t : Text) : ∀ c ∈ t.foldCase, c.isUpper = false :=
  List.forall_mem_map.2 fun c _ => isUpper_toLower c

end Text

namespace Unicode

theorem eq_of_toLower_eq (hd : d.isAlpha = false) (h : c.toLower = d) : c = d := by
  rw [← h, isAlpha_toLower] at hd
  rwa [toLower_of_not_isAlpha hd] at h

theorem eq_of_toUpper_eq (hd : d.isAlpha = false) (h : c.toUpper = d) : c = d := by
  rw [← h, isAlpha_toUpper] at hd
  rwa [toUpper_of_isLower_eq_false (Bool.or_eq_false_iff.1 hd).2] at h

end Unicode

namespace Style

def snakeTail (t : Text) : Text :=
  t.flatMap fun d => if isUppercase d then '_' :: lower d else lower d

theorem snakeTail_cons (c : Char) (t : Text) :
    snakeTail (c :: t) = (if isUppercase c then '_' :: lower c else lower c) ++ snakeTail t :=
  List.flatMap_cons

theorem toSnake_cons (c : Char) (t : Text) : toSnake (c :: t) = lower c ++ snakeTail t := rfl

section Ascii

variable (h : t.IsAscii)

include h

theorem lower_of_mem (hc : c ∈ t) : lower c = [c.toLower] :=
  Unicode.lower_of_lt (h c hc)

theorem upper_of_mem (hc : c ∈ t) : upper c = [c.toUpper] :=
  Unicode.upper_of_lt (h c hc)

theorem isUppercase_of_mem (hc : c ∈ t) : isUppercase c = c.isUpper :=
  Unicode.isUppercase_of_lt (h c hc)

theorem flatMap_lower : t.flatMap lower = t.foldCase := by
  rw [List.flatMap_congr fun c hc => lower_of_mem h hc, Text.foldCase, List.map_eq_flatMap]

theorem isAscii_toSnake : (toSnake t).IsAscii := by
  intro d hd
  rcases exists_of_mem_toSnake hd with rfl | ⟨c, hc, hd⟩
  · decide
  · rw [lower_of_mem h hc, List.mem_singleton] at hd
    exact hd ▸ toLower_lt (h c hc)

theorem isAscii_toCamel : (toCamel t).IsAscii := by
  intro d hd
  obtain ⟨c, hc, -, hd⟩ := exists_of_mem_toCamel hd
  rw [lower_of_mem h hc, upper_of_mem h hc, List.mem_singleton, List.mem_singleton] at hd
  rcases hd with rfl | rfl
  · exact toLower_lt (h c hc)
  · exact toUpper_lt (h c hc)

theorem isUpper_of_mem_toSnake (hd : d ∈ toSnake t) : d.isUpper = false := by
  rcases exists_of_mem_toSnake hd with rfl | ⟨c, hc, hd⟩
  · decide
  · rw [lower_of_mem h hc, List.mem_singleton] at hd
    rw [hd, isUpper_toLower]

theorem head?_toSnake_ne (hu : '_' ∉ t) : (toSnake t).head? ≠ some '_' := by
  cases t with
  | nil => exact nofun
  | cons c t =>
      rw [toSnake_cons, lower_of_mem h List.mem_cons_self, List.singleton_append, List.head?_cons]
      intro he
      have hc : c = '_' := Unicode.eq_of_toLower_eq (by decide) (Option.some.inj he)
      exact hu (hc ▸ List.mem_cons_self)

theorem snakeTail_eq_self (hu : ∀ c ∈ t, c.isUpper = false) : snakeTail t = t := by
  refine (List.flatMap_congr fun c hc => ?_).trans (List.flatMap_singleton' t)
  rw [isUppercase_of_mem h hc, hu c hc, if_neg Bool.false_ne_true, lower_of_mem h hc,
    toLower_eq_self_iff.2 (hu c hc)]

theorem toSnake_eq_self_iff : toSnake t = t ↔ t.foldCase = t := by
  rw [Text.foldCase_eq_self_iff]
  constructor
  · intro hs c hc
    exact isUpper_of_mem_toSnake h (hs.symm ▸ hc)
  · intro hu
    cases t with
    | nil => rfl
    | cons c t =>
        have hc : lower c = [c] := by
          rw [lower_of_mem h List.mem_cons_self,
            toLower_eq_self_iff.2 (hu c List.mem_cons_self)]
        have ht : snakeTail t = t :=
          snakeTail_eq_self (h.subset (List.subset_cons_self c t))
            fun d hd => hu d (List.mem_cons_of_mem c hd)
        rw [toSnake_cons, hc, ht, List.singleton_append]

theorem toSnake_toSnake : toSnake (toSnake t) = toSnake t :=
  (toSnake_eq_self_iff (isAscii_toSnake h)).2
    (Text.foldCase_eq_self_iff.2 fun _ hd => isUpper_of_mem_toSnake h hd)

theorem snakeTail_of_not_mem (hu : '_' ∉ snakeTail t) : snakeTail t = t.foldCase := by
  induction t with
  | nil => rfl
  | cons c t ih =>
      obtain ⟨hc, ht⟩ := List.forall_mem_cons.1 h
      rw [snakeTail_cons, Unicode.isUppercase_of_lt hc, Unicode.lower_of_lt hc] at hu ⊢
      rw [List.mem_append, not_or] at hu
      cases hup : c.isUpper with
      | true =>
          rw [hup, if_pos rfl] at hu
          exact absurd List.mem_cons_self hu.1
      | false =>
          rw [if_neg Bool.false_ne_true, ih ht hu.2]
          rfl

theorem toSnake_of_not_mem (hu : '_' ∉ toSnake t) : toSnake t = t.foldCase := by
  cases t with
  | nil => rfl
  | cons c t =>
      obtain ⟨hc, ht⟩ := List.forall_mem_cons.1 h
      rw [toSnake_cons, List.mem_append, not_or] at hu
      rw [toSnake_cons, snakeTail_of_not_mem ht hu.2, Unicode.lower_of_lt hc]
      rfl

theorem not_mem_toCamel : '_' ∉ toCamel t := by
  intro hd
  obtain ⟨c, hc, hne, hd⟩ := exists_of_mem_toCamel hd
  rw [lower_of_mem h hc, upper_of_mem h hc, List.mem_singleton, List.mem_singleton] at hd
  rcases hd with he | he
  · exact hne (Unicode.eq_of_toLower_eq (by decide) he.symm)
  · exact hne (Unicode.eq_of_toUpper_eq (by decide) he.symm)

theorem toCamel_of_not_mem (hu : '_' ∉ t) : toCamel t = t.foldCase := by
  have hcut : t.cut (· == '_') = [t] := Text.cut_eq_singleton fun c hc =>
    beq_eq_false_iff_ne.2 fun he => hu (he ▸ hc)
  rw [toCamel, hcut]
  exact (List.append_nil _).trans (flatMap_lower h)

/-- Camel case leaves a text exactly if it has neither a letter in upper case nor an underscore. -/
theorem toCamel_eq_self_iff : toCamel t = t ↔ t.foldCase = t ∧ '_' ∉ t := by
  constructor
  · intro he
    have hu : '_' ∉ t := he ▸ not_mem_toCamel h
    exact ⟨(toCamel_of_not_mem h hu).symm.trans he, hu⟩
  · rintro ⟨hf, hu⟩
    rw [toCamel_of_not_mem h hu, hf]

end Ascii

end Style

end SqlEdit
