import SqlEdit.Proofs.Identifier.Style
import SqlEdit.Proofs.Text.Trim
import SqlEdit.Statement.Convert

namespace SqlEdit

open Identifier (isPart isStart isSegment isPlain lastSegment IsParts)
open Unicode (lower upper Shift upperShifts upperExpansions)

variable {c : Char} {s t q : Text}

namespace Unicode

theorem upper_ne_nil (c : Char) : upper c ≠ [] := by
  have hu : upperExpansions.all fun p => !p.2.isEmpty := by decide
  rw [upper]
  split
  next => exact List.cons_ne_nil _ _
  next =>
    split
    next image hl =>
      obtain ⟨l₁, l₂, he, -⟩ := List.lookup_eq_some_iff.1 hl
      have hp := List.all_eq_true.1 hu (c.toNat, image) (by simp [he])
      simpa using hp
    next => exact List.cons_ne_nil _ _

end Unicode

namespace Identifier

theorem lt_of_isStart (h : isStart c) : c.toNat < 128 := by
  rw [isStart, Bool.or_eq_true, beq_iff_eq] at h
  rcases h with h | rfl
  · exact lt_of_isAlpha h
  · decide

theorem isSegment_iff : isSegment s ↔ s.head?.any isStart ∧ IsParts s := by
  rw [isSegment, Bool.and_eq_true, List.all_eq_true, IsParts]

theorem isPlain_append_dot (q s : Text) : isPlain (q ++ '.' :: s) ↔ isPlain q ∧ isPlain s := by
  rw [isPlain, Text.cut_append_cons (by decide), List.all_append, Bool.and_eq_true, isPlain, isPlain]

theorem isPlain_iff_isSegment (h : '.' ∉ s) : isPlain s ↔ isSegment s := by
  have hd : ∀ c ∈ s, (c == '.') = false := by
    intro c hc
    rw [beq_eq_false_iff_ne]
    rintro rfl
    exact h hc
  rw [isPlain, Text.cut_eq_singleton hd, List.all_cons, List.all_nil, Bool.and_true]

theorem isPlain_of_isParts (hp : IsParts s) (hs : s.head?.any isStart) : isPlain s :=
  (isPlain_iff_isSegment hp.dot_not_mem).2 (isSegment_iff.2 ⟨hs, hp⟩)

theorem exists_of_isPlain (h : isPlain t) :
    (t.cutLast? '.' = none ∧ lastSegment t = t ∧ isSegment t) ∨
      ∃ q s, t.cutLast? '.' = some (q, s) ∧ lastSegment t = s ∧ isPlain q ∧ isSegment s := by
  rw [lastSegment]
  cases hc : t.cutLast? '.' with
  | none =>
      exact .inl ⟨rfl, rfl, (isPlain_iff_isSegment (Text.cutLast?_eq_none_iff.1 hc)).1 h⟩
  | some p =>
      obtain ⟨q, s⟩ := p
      obtain ⟨rfl, hd⟩ := Text.eq_of_cutLast? hc
      obtain ⟨hq, hs⟩ := (isPlain_append_dot q s).1 h
      exact .inr ⟨q, s, rfl, rfl, hq, (isPlain_iff_isSegment hd).1 hs⟩

end Identifier

theorem Text.cutLast?_append_cons (h : c ∉ s) (q : Text) : cutLast? c (q ++ c :: s) = some (q, s) := by
  induction q with
  | nil => rw [List.nil_append, cutLast?, cutLast?_eq_none_iff.2 h, if_pos rfl]
  | cons d q ih => rw [List.cons_append, cutLast?, ih]

namespace Style

variable (style : Style)

theorem head?_lower_append (h : isStart c) (t : Text) : (lower c ++ t).head?.any isStart := by
  have hl := Unicode.lower_of_lt (Identifier.lt_of_isStart h)
  rw [isStart, Bool.or_eq_true, beq_iff_eq] at h
  rw [hl, List.singleton_append, List.head?_cons, Option.any_some]
  rcases h with h | rfl
  · rw [isStart, isAlpha_toLower, h, Bool.true_or]
  · decide

theorem head?_append_of_ne_nil (h : s ≠ []) (t : Text) : (s ++ t).head? = s.head? := by
  obtain ⟨c, s, rfl⟩ := List.exists_cons_of_ne_nil h
  rfl

/-- Behind an underscore, camel case begins with the first character that is none. -/
theorem head?_flatMap_capitalize (t : Text) :
    ((t.cut (· == '_')).flatMap capitalize).head? =
      (t.dropWhile (· == '_')).head?.bind fun c => (upper c).head? := by
  induction t with
  | nil => rfl
  | cons c t ih =>
      rw [Text.cut]
      cases hc : c == '_' with
      | true =>
          rw [if_pos rfl, List.flatMap_cons, capitalize, List.nil_append, ih,
            List.dropWhile_cons_of_pos (p := (· == '_')) hc]
      | false =>
          obtain ⟨u, us, hu⟩ := List.exists_cons_of_ne_nil (Text.cut_ne_nil (· == '_') t)
          rw [if_neg Bool.false_ne_true, hu, List.modifyHead_cons, List.flatMap_cons, capitalize,
            List.append_assoc, head?_append_of_ne_nil (Unicode.upper_ne_nil c),
            List.dropWhile_cons_of_neg (by simp [hc])]
          rfl

/-- Whether a segment is a segment again in camel case: it begins with a letter, or its first
character other than an underscore begins a segment in upper case. -/
def StaysSegment (s : Text) : Prop :=
  s.head? ≠ some '_' ∨
    ((s.dropWhile (· == '_')).head?.bind fun c => (upper c).head?).any isStart

instance (s : Text) : Decidable (StaysSegment s) :=
  inferInstanceAs (Decidable (_ ∨ _))

theorem isSegment_toCamel_iff (h : isSegment s) : isSegment (toCamel s) ↔ StaysSegment s := by
  obtain ⟨hs, hp⟩ := Identifier.isSegment_iff.1 h
  rw [Identifier.isSegment_iff, and_iff_left hp.toCamel, StaysSegment]
  cases s with
  | nil => exact absurd hs Bool.false_ne_true
  | cons c t =>
      rw [toCamel, Text.cut]
      cases hc : c == '_' with
      | true =>
          have hn : ¬ (c :: t).head? ≠ some '_' := by simpa using hc
          rw [if_pos rfl, or_iff_right hn, List.dropWhile_cons_of_pos (p := (· == '_')) hc,
            ← head?_flatMap_capitalize]
          rfl
      | false =>
          obtain ⟨u, us, hu⟩ := List.exists_cons_of_ne_nil (Text.cut_ne_nil (· == '_') t)
          refine iff_of_true ?_ (.inl (by simpa using hc))
          rw [if_neg Bool.false_ne_true, hu]
          simp only [List.modifyHead_cons, List.flatMap_cons, List.append_assoc]
          exact head?_lower_append hs _

theorem isSegment_toSnake (h : isSegment s) : isSegment (toSnake s) := by
  obtain ⟨hs, hp⟩ := Identifier.isSegment_iff.1 h
  refine Identifier.isSegment_iff.2 ⟨?_, hp.toSnake⟩
  cases s with
  | nil => exact absurd hs Bool.false_ne_true
  | cons c t => exact head?_lower_append hs _

theorem isSegment_apply_iff (h : isSegment s) :
    isSegment (style.apply s) ↔ style = .snake ∨ StaysSegment s := by
  cases style with
  | camel => exact (isSegment_toCamel_iff h).trans (or_iff_right nofun).symm
  | snake => exact iff_of_true (isSegment_toSnake h) (.inl rfl)

theorem cutLast?_convert (h : isPlain t) :
    (style.convert t).cutLast? '.' = (t.cutLast? '.').map fun (q, s) => (q, style.apply s) := by
  obtain ⟨hc, -, hs⟩ | ⟨q, s, hc, -, -, hs⟩ := Identifier.exists_of_isPlain h
  · have hp := ((Identifier.isSegment_iff.1 hs).2.apply style).dot_not_mem
    rw [convert, hc, Option.map_none, Text.cutLast?_eq_none_iff]
    exact hp
  · have hp := ((Identifier.isSegment_iff.1 hs).2.apply style).dot_not_mem
    rw [convert, hc, Option.map_some]
    exact Text.cutLast?_append_cons hp q

/-- A converted identifier has the qualifiers it had, in a projection as elsewhere. It is plain
exactly if its last segment is not converted to camel case or stays a segment there. -/
theorem isPlain_convert_iff (h : isPlain t) (alias? : Option Text) :
    (style.convert t).cutLast? '.' = ((t.cutLast? '.').map fun (q, s) => (q, style.apply s)) ∧
      style.convertName t = style.convert t ∧
      (Field.convert style ⟨t, alias?⟩).expression = style.convert t ∧
      (isPlain (style.convert t) ↔ style = .snake ∨ StaysSegment (lastSegment t)) := by
  refine ⟨cutLast?_convert style h, if_pos h, if_pos h, ?_⟩
  obtain ⟨hc, hl, hs⟩ | ⟨q, s, hc, hl, hq, hs⟩ := Identifier.exists_of_isPlain h
  · have hp := ((Identifier.isSegment_iff.1 hs).2.apply style).dot_not_mem
    rw [convert, hc, Identifier.isPlain_iff_isSegment hp, hl, isSegment_apply_iff style hs]
  · have hp := ((Identifier.isSegment_iff.1 hs).2.apply style).dot_not_mem
    rw [convert, hc, Identifier.isPlain_append_dot, and_iff_right hq,
      Identifier.isPlain_iff_isSegment hp, hl, isSegment_apply_iff style hs]

/-- The sharp s behind the underscores has an upper-case mapping to two letters of ASCII. -/
theorem isPlain_convert_of_sharp :
    isPlain "db.u.__ß_x".toList ∧ Style.camel.convert "db.u.__ß_x".toList = "db.u.SSX".toList ∧
      isPlain (Style.camel.convert "db.u.__ß_x".toList) := by
  have h : isPlain "db.u.__ß_x".toList := by decide +kernel
  exact ⟨h, by decide +kernel, (isPlain_convert_iff .camel h none).2.2.2.2 (.inr (by decide +kernel))⟩

/-- Camel case leaves nothing of underscores, and a digit behind them begins no identifier. -/
theorem not_isPlain_convert_of_underscore :
    isPlain "_".toList ∧ Style.camel.convert "_".toList = [] ∧
      ¬ isPlain (Style.camel.convert "_".toList) ∧
      isPlain "u._1".toList ∧ Style.camel.convert "u._1".toList = "u.1".toList ∧
      ¬ isPlain (Style.camel.convert "u._1".toList) := by
  decide +kernel

end Style

end SqlEdit
