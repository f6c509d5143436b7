import Mathlib.Algebra.Order.BigOperators.Group.List
import Mathlib.Algebra.Order.Group.Nat
import SqlEdit.Proofs.Identifier.Ascii
import SqlEdit.Proofs.Nesting.Pieces

namespace SqlEdit

open Unicode (lower upper isUppercase)

variable {c : Char} {t u w : Text} {us : List Text}

theorem forall_eq_of_flatMap_eq {α : Type} {f g : α → Text} {l : List α}
    (hle : ∀ a ∈ l, (f a).length ≤ (g a).length) (h : l.flatMap f = l.flatMap g) :
    ∀ a ∈ l, f a = g a := by
  induction l with
  | nil => exact nofun
  | cons a l ih =>
      obtain ⟨ha, hl⟩ := List.forall_mem_cons.1 hle
      rw [List.flatMap_cons, List.flatMap_cons] at h
      have hs : (l.flatMap f).length ≤ (l.flatMap g).length := by
        rw [List.length_flatMap, List.length_flatMap]
        exact List.sum_le_sum hl
      have hlen := congrArg List.length h
      rw [List.length_append, List.length_append] at hlen
      obtain ⟨he, hr⟩ := List.append_inj h (by omega)
      exact List.forall_mem_cons.2 ⟨he, ih hl hr⟩

namespace Text

theorem eq_of_cut (h : t.cut (· == c) = u :: us) : t = u ++ us.flatMap (c :: ·) := by
  rw [← join_cut c t, h, join_cons]
  rfl

theorem forall_mem_iff_of_cut {p : Char → Prop} (hc : p c) :
    (∀ d ∈ t, p d) ↔ ∀ w ∈ t.cut (· == c), ∀ d ∈ w, p d := by
  constructor
  · intro h w hw d hd
    exact h d (subset_of_mem_cut hw hd)
  · intro h d hd
    rcases exists_mem_cut (p := (· == c)) hd with hd | ⟨w, hw, hd⟩
    · exact eq_of_beq hd ▸ hc
    · exact h w hw d hd

end Text

namespace Style

theorem toCamel_of_cut (h : t.cut (· == '_') = u :: us) :
    toCamel t = u.flatMap lower ++ us.flatMap capitalize := by
  rw [toCamel, h]

theorem toCamel_cons (hc : c ≠ '_') (t : Text) : toCamel (c :: t) = lower c ++ toCamel t := by
  obtain ⟨u, us, hu⟩ := List.exists_cons_of_ne_nil (Text.cut_ne_nil (· == '_') t)
  have hcut : Text.cut (· == '_') (c :: t) = (c :: u) :: us := by
    rw [Text.cut, if_neg (by simpa using hc), hu, List.modifyHead_cons]
  rw [toCamel_of_cut hcut, toCamel_of_cut hu, List.flatMap_cons, List.append_assoc]

theorem toCamel_underscore_cons (hc : c ≠ '_') (t : Text) :
    toCamel ('_' :: c :: t) = upper c ++ toCamel t := by
  obtain ⟨u, us, hu⟩ := List.exists_cons_of_ne_nil (Text.cut_ne_nil (· == '_') t)
  have hcut : Text.cut (· == '_') ('_' :: c :: t) = [] :: (c :: u) :: us := by
    rw [Text.cut, if_pos (beq_self_eq_true _), Text.cut, if_neg (by simpa using hc), hu,
      List.modifyHead_cons]
  rw [toCamel_of_cut hcut, toCamel_of_cut hu, List.flatMap_nil, List.nil_append, List.flatMap_cons,
    capitalize, List.append_assoc]

theorem snakeTail_append (s t : Text) : snakeTail (s ++ t) = snakeTail s ++ snakeTail t :=
  List.flatMap_append

theorem snakeTail_flatMap (f : Text → Text) (us : List Text) :
    snakeTail (us.flatMap f) = us.flatMap fun w => snakeTail (f w) :=
  List.flatMap_assoc

section Ascii

variable (h : t.IsAscii)

include h

theorem snakeTail_capitalize :
    snakeTail (capitalize t) =
      if t.head?.any Char.isAlpha then '_' :: t.foldCase else t.foldCase := by
  cases t with
  | nil => rfl
  | cons c t =>
      have hc : c.toNat < 128 := h c List.mem_cons_self
      have ht : Text.IsAscii t := h.subset (List.subset_cons_self c t)
      have hs : snakeTail (Text.foldCase t) = Text.foldCase t :=
        snakeTail_eq_self ht.foldCase (Text.isUpper_of_mem_foldCase t)
      have hu : upper c = [c.toUpper] := Unicode.upper_of_lt hc
      have hl : lower c.toUpper = [c.toLower] := by
        rw [Unicode.lower_of_lt (toUpper_lt hc), toLower_toUpper]
      rw [capitalize, hu, flatMap_lower ht, List.singleton_append, snakeTail_cons, hs, hl,
        Unicode.isUppercase_of_lt (toUpper_lt hc), isUpper_toUpper,
        List.head?_cons, Option.any_some]
      cases c.isAlpha <;> rfl

theorem length_snakeTail_capitalize : (snakeTail (capitalize t)).length ≤ t.length + 1 := by
  rw [snakeTail_capitalize h]
  split
  · rw [List.length_cons, Text.length_foldCase]
  · rw [Text.length_foldCase]
    exact Nat.le_succ _

theorem snakeTail_capitalize_eq_iff :
    snakeTail (capitalize t) = '_' :: t ↔
      t.head?.any Char.isLower ∧ ∀ c ∈ t, c.isUpper = false := by
  rw [snakeTail_capitalize h, ← Text.foldCase_eq_self_iff]
  constructor
  · intro he
    cases ha : t.head?.any Char.isAlpha with
    | true =>
        rw [ha, if_pos rfl] at he
        have hf : t.foldCase = t := (List.cons.inj he).2
        refine ⟨?_, hf⟩
        cases t with
        | nil => exact ha
        | cons c t =>
            have hc := Text.foldCase_eq_self_iff.1 hf c List.mem_cons_self
            rwa [List.head?_cons, Option.any_some, isAlpha_eq, hc, Bool.false_or] at ha
    | false =>
        rw [ha, if_neg Bool.false_ne_true] at he
        have hl := congrArg List.length he
        rw [Text.length_foldCase, List.length_cons] at hl
        omega
  · rintro ⟨hl, hf⟩
    have ha : t.head?.any Char.isAlpha := by
      cases t with
      | nil => exact hl
      | cons c t => exact Bool.or_eq_true_iff.2 (.inr hl)
    rw [if_pos ha, hf]

theorem toSnake_toCamel_of_cut (hcut : t.cut (· == '_') = (c :: u) :: us) :
    toSnake (toCamel t) =
      Text.foldCase (c :: u) ++ us.flatMap fun w => snakeTail (capitalize w) := by
  have hu : Text.IsAscii (c :: u) := h.subset (Text.subset_of_mem_cut (hcut ▸ List.mem_cons_self))
  have hf : (u.foldCase).IsAscii := (hu.subset (List.subset_cons_self c u)).foldCase
  have hc : lower c.toLower = [c.toLower] := by
    rw [Unicode.lower_of_lt (toLower_lt (hu c List.mem_cons_self)), toLower_toLower]
  have hs := snakeTail_eq_self hf (Text.isUpper_of_mem_foldCase u)
  rw [toCamel_of_cut hcut, flatMap_lower hu]
  change toSnake (c.toLower :: (u.foldCase ++ us.flatMap capitalize)) = _
  rw [toSnake_cons, hc, snakeTail_append, hs, snakeTail_flatMap]
  rfl

theorem toSnake_toCamel_iff_of_cut (hcut : t.cut (· == '_') = (c :: u) :: us) :
    toSnake (toCamel t) = t ↔
      Text.foldCase (c :: u) = c :: u ∧ ∀ w ∈ us, snakeTail (capitalize w) = '_' :: w := by
  have ht := Text.eq_of_cut hcut
  rw [toSnake_toCamel_of_cut h hcut]
  constructor
  · intro he
    obtain ⟨hu, he⟩ := List.append_inj (he.trans ht) (Text.length_foldCase _)
    refine ⟨hu, forall_eq_of_flatMap_eq (fun w hw => length_snakeTail_capitalize ?_) he⟩
    exact h.subset (Text.subset_of_mem_cut (hcut ▸ List.mem_cons_of_mem _ hw))
  · rintro ⟨hu, he⟩
    rw [hu, List.flatMap_congr he, ← ht]

/-- Snake case undoes camel case exactly on the texts without upper-case letters in which every
underscore stands behind something and before a letter. -/
theorem toSnake_toCamel_iff :
    toSnake (toCamel t) = t ↔
      (∀ c ∈ t, c.isUpper = false) ∧
        ('_' ∉ t ∨ (t.cut (· == '_')).head? ≠ some [] ∧
          ∀ w ∈ (t.cut (· == '_')).tail, w.head?.any Char.isLower) := by
  by_cases hm : '_' ∈ t
  · obtain ⟨u, us, hcut⟩ := List.exists_cons_of_ne_nil (Text.cut_ne_nil (· == '_') t)
    rw [or_iff_right (not_not_intro hm), Text.forall_mem_iff_of_cut (c := '_') (by decide), hcut,
      List.forall_mem_cons, List.head?_cons, List.tail_cons]
    cases u with
    | nil =>
        refine iff_of_false (fun he => ?_) fun hr => hr.2.1 rfl
        apply head?_toSnake_ne (isAscii_toCamel h) (not_mem_toCamel h)
        have ht := Text.eq_of_cut hcut
        rw [he, ht]
        cases us with
        | nil => exact absurd (ht ▸ hm) List.not_mem_nil
        | cons v us => rfl
    | cons c u =>
        have hne : some (c :: u) ≠ some [] := by simp
        rw [toSnake_toCamel_iff_of_cut h hcut, Text.foldCase_eq_self_iff, and_iff_right hne,
          and_assoc, ← forall₂_and]
        refine and_congr_right fun _ => forall₂_congr fun w hw => ?_
        have hwa : w.IsAscii :=
          h.subset (Text.subset_of_mem_cut (hcut ▸ List.mem_cons_of_mem _ hw))
        exact (snakeTail_capitalize_eq_iff hwa).trans and_comm
  · have hc : toCamel t = t.foldCase := toCamel_of_not_mem h hm
    have hs : toSnake t.foldCase = t.foldCase :=
      (toSnake_eq_self_iff h.foldCase).2
        (Text.foldCase_eq_self_iff.2 (Text.isUpper_of_mem_foldCase t))
    rw [hc, hs, Text.foldCase_eq_self_iff, and_iff_left (.inl hm)]

theorem toCamel_snakeTail (hm : '_' ∉ t) : toCamel (snakeTail t) = t := by
  induction t with
  | nil => rfl
  | cons c t ih =>
      obtain ⟨hc, ht⟩ := List.forall_mem_cons.1 h
      rw [List.mem_cons, not_or] at hm
      have hne : c.toLower ≠ '_' := fun he => hm.1 (Unicode.eq_of_toLower_eq (by decide) he).symm
      have ih := ih ht hm.2
      rw [snakeTail_cons, Unicode.isUppercase_of_lt hc, Unicode.lower_of_lt hc]
      cases hu : c.isUpper with
      | true =>
          have hl : c.isLower = false := isLower_eq_false_of_isUpper hu
          rw [if_pos rfl, List.cons_append, List.singleton_append, toCamel_underscore_cons hne,
            Unicode.upper_of_lt (toLower_lt hc), toUpper_toLower, ih,
            toUpper_of_isLower_eq_false hl, List.singleton_append]
      | false =>
          rw [if_neg Bool.false_ne_true, List.singleton_append, toCamel_cons hne,
            Unicode.lower_of_lt (toLower_lt hc), toLower_toLower, ih,
            toLower_eq_self_iff.2 hu, List.singleton_append]

/-- Camel case undoes snake case exactly on the texts without underscores that do not begin with an
upper-case letter. -/
theorem toCamel_toSnake_iff :
    toCamel (toSnake t) = t ↔ '_' ∉ t ∧ t.head?.any Char.isUpper = false := by
  cases t with
  | nil => exact iff_of_true rfl ⟨List.not_mem_nil, rfl⟩
  | cons c t =>
      obtain ⟨hc, ht⟩ := List.forall_mem_cons.1 h
      rw [List.head?_cons, Option.any_some]
      by_cases hm : '_' ∈ c :: t
      · refine iff_of_false (fun he => ?_) fun hr => hr.1 hm
        exact not_mem_toCamel (isAscii_toSnake h) (he.symm ▸ hm)
      · have hne : c.toLower ≠ '_' := fun he =>
          hm (Unicode.eq_of_toLower_eq (by decide) he ▸ List.mem_cons_self)
        have hs : toCamel (toSnake (c :: t)) = c.toLower :: t := by
          have hl := toCamel_snakeTail ht fun hu => hm (List.mem_cons_of_mem c hu)
          rw [toSnake_cons, Unicode.lower_of_lt hc, List.singleton_append, toCamel_cons hne,
            Unicode.lower_of_lt (toLower_lt hc), toLower_toLower, hl,
            List.singleton_append]
        rw [hs, and_iff_right hm, List.cons_eq_cons, and_iff_left rfl, toLower_eq_self_iff]

end Ascii

/-- The texts in ASCII that each of the two ways around restores. -/
theorem restores_iff (h : t.IsAscii) :
    (toSnake (toCamel t) = t ↔
      (∀ c ∈ t, c.isUpper = false) ∧
        ('_' ∉ t ∨ (t.cut (· == '_')).head? ≠ some [] ∧
          ∀ w ∈ (t.cut (· == '_')).tail, w.head?.any Char.isLower)) ∧
      (toCamel (toSnake t) = t ↔ '_' ∉ t ∧ t.head?.any Char.isUpper = false) :=
  ⟨toSnake_toCamel_iff h, toCamel_toSnake_iff h⟩

theorem restores_of_user_id :
    Text.IsAscii "user_id2".toList ∧ Text.IsAscii "userId2".toList ∧
      toSnake (toCamel "user_id2".toList) = "user_id2".toList ∧
      toCamel (toSnake "userId2".toList) = "userId2".toList := by
  have hs : Text.IsAscii "user_id2".toList := by decide +kernel
  have hc : Text.IsAscii "userId2".toList := by decide +kernel
  refine ⟨hs, hc, (restores_iff hs).1.2 ⟨?_, .inr ?_⟩, (restores_iff hc).2.2 (by decide +kernel)⟩
  · exact Text.foldCase_eq_self_iff.1 (by decide +kernel)
  · decide +kernel

end Style

end SqlEdit
