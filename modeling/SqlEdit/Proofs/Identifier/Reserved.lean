import SqlEdit.Proofs.Identifier.Ascii
import SqlEdit.Proofs.Identifier.Plain
import SqlEdit.Proofs.Identifier.Token
import SqlEdit.Proofs.Nesting.Squash

namespace SqlEdit

open Identifier (isPart isStart isSegment isPlain isReserved reservedWords lastSegment)

variable {c : Char} {t x : Text}

theorem Identifier.head?_of_cut {u : Text} {us : List Text} (h : t.cut (· == '.') = u :: us) :
    t.head?.any isStart = u.head?.any isStart := by
  refine Text.any_head?_of_cut h fun c hc => ?_
  rw [eq_of_beq hc]
  rfl

namespace Lexeme

theorem unbroken_iff_of_cut {u : Text} {us : List Text} (h : t.cut (· == '.') = u :: us) :
    Unbroken t ↔ u.all isPart ∧ us.all isSegment := by
  induction t generalizing u us with
  | nil =>
      obtain ⟨rfl, rfl⟩ := List.cons.inj h
      exact iff_of_true trivial ⟨rfl, rfl⟩
  | cons c t ih =>
      obtain ⟨v, vs, hv⟩ := List.exists_cons_of_ne_nil (Text.cut_ne_nil (· == '.') t)
      rw [Text.cut, hv] at h
      rw [Unbroken, ih hv, continues, Identifier.head?_of_cut hv]
      cases hc : c == '.' with
      | true =>
          have hp : isPart c = false := by
            rw [eq_of_beq hc]
            rfl
          rw [hc, if_pos rfl] at h
          obtain ⟨rfl, rfl⟩ := List.cons.inj h
          rw [hp, Bool.false_or, Bool.true_and, List.all_cons, Bool.and_eq_true, isSegment,
            Bool.and_eq_true, ← and_assoc]
          exact (and_iff_right rfl).symm
      | false =>
          rw [hc, if_neg Bool.false_ne_true, List.modifyHead_cons] at h
          obtain ⟨rfl, rfl⟩ := List.cons.inj h
          rw [Bool.false_and, Bool.or_false, List.all_cons, Bool.and_eq_true, and_assoc]

/-- Plain identifiers are the tokens that begin with a letter or an underscore. -/
theorem isPlain_iff : isPlain x ↔ x.head?.any isStart ∧ Unbroken x := by
  obtain ⟨u, us, hu⟩ := List.exists_cons_of_ne_nil (Text.cut_ne_nil (· == '.') x)
  rw [isPlain, hu, List.all_cons, Bool.and_eq_true, isSegment, Bool.and_eq_true,
    Identifier.head?_of_cut hu, unbroken_iff_of_cut hu, and_assoc]

theorem ofText_of_isPlain (h : isPlain x) : ofText x = [token x] := by
  obtain ⟨hs, hu⟩ := isPlain_iff.1 h
  cases x with
  | nil => exact absurd hs Bool.false_ne_true
  | cons c t =>
      have hc : isPart c := Identifier.isPart_of_isStart hs
      have ht := hu.2.splitToken_eq (t := []) trivial
      rw [List.append_nil] at ht
      rw [ofText, after_token rfl (by rw [inToken, hc, Bool.true_or]), ht]
      rfl

end Lexeme

theorem Fragment.convert_of_isPlain (style : Style) (h : isPlain x) :
    convert style x = if isReserved x then x else style.convert x := by
  have hn : namesColumn none x [] = !isReserved x := by
    rw [namesColumn, (Lexeme.isPlain_iff.1 h).1]
    rfl
  rw [convert, Lexeme.ofText_of_isPlain h, convertLexemes, hn]
  cases isReserved x <;> exact List.append_nil _

theorem Field.expression_convert_of_isPlain (style : Style) (h : isPlain x) (alias? : Option Text) :
    (convert style ⟨x, alias?⟩).expression = style.convert x :=
  if_pos h

namespace Identifier

theorem isStart_toLower (c : Char) : isStart c.toLower = isStart c := by
  cases hc : c.isAlpha with
  | true => rw [isStart, isStart, isAlpha_toLower, hc, Bool.true_or, Bool.true_or]
  | false => rw [toLower_of_not_isAlpha hc]

theorem isStart_of_isReserved (h : isReserved x) : ∀ c ∈ x, isStart c := by
  have hw : reservedWords.all fun w => w.foldCase.all isStart := by decide +kernel
  obtain ⟨w, hm, he⟩ := List.any_eq_true.1 h
  intro c hc
  rw [← isStart_toLower]
  refine List.all_eq_true.1 (List.all_eq_true.1 hw w hm) c.toLower ?_
  rw [← eq_of_beq he]
  exact List.mem_map_of_mem hc

theorem isAscii_of_isReserved (h : isReserved x) : x.IsAscii :=
  fun c hc => lt_of_isStart (isStart_of_isReserved h c hc)

theorem not_mem_of_isReserved (h : isReserved x) : '.' ∉ x :=
  fun hd => absurd (isStart_of_isReserved h '.' hd) Bool.false_ne_true

theorem isPlain_of_isReserved (h : isReserved x) : isPlain x := by
  have hs := isStart_of_isReserved h
  refine isPlain_of_isParts (fun c hc => isPart_of_isStart (hs c hc)) ?_
  cases x with
  | nil => exact absurd h (by decide +kernel)
  | cons c t => exact hs c List.mem_cons_self

end Identifier

namespace Style

def Written (style : Style) (t : Text) : Prop :=
  t.foldCase = t ∧ (style = .camel → '_' ∉ t)

instance (style : Style) (t : Text) : Decidable (style.Written t) :=
  inferInstanceAs (Decidable (_ ∧ _))

theorem apply_eq_self_iff (style : Style) (h : x.IsAscii) : style.apply x = x ↔ style.Written x := by
  cases style with
  | camel =>
      rw [apply, toCamel_eq_self_iff h, Written]
      exact and_congr_right' ⟨fun hu _ => hu, fun hu => hu rfl⟩
  | snake =>
      rw [apply, toSnake_eq_self_iff h, Written]
      exact (and_iff_left nofun).symm

end Style

theorem Style.convert_eq_self_iff (style : Style) (h : isReserved x) :
    style.convert x = x ↔ style.Written x := by
  rw [convert_of_not_mem style (Identifier.not_mem_of_isReserved h)]
  exact apply_eq_self_iff style (Identifier.isAscii_of_isReserved h)

theorem Field.addAlias_eq_self_iff {f : Field} (h : isReserved f.expression) :
    f.addAlias = f ↔ (f.alias? = none → Style.camel.Written f.expression) := by
  have hl : lastSegment f.expression = f.expression := by
    rw [lastSegment, Text.cutLast?_eq_none_iff.2 (Identifier.not_mem_of_isReserved h)]
  have hw := Style.apply_eq_self_iff .camel (Identifier.isAscii_of_isReserved h)
  rw [addAlias, Identifier.isPlain_of_isReserved h, Bool.and_true, hl, ← hw]
  obtain ⟨e, alias?⟩ := f
  cases alias? with
  | some a => exact iff_of_true rfl fun h => absurd h (Option.some_ne_none a)
  | none =>
      rw [forall_prop_of_true rfl, Style.apply]
      by_cases he : Style.toCamel e = e
      · simp [he]
      · simp [he]

namespace Select

/-- A plain identifier becomes the same in a projection and in a fragment unless it is a reserved
word that is not written in the style. Injection leaves the reserved words of a projection alone
unless one of them has no alias and is not written in camel case. -/
theorem spares_reserved_iff (style : Style) (h : isPlain x) (alias? : Option Text) (s : Select) :
    ((Field.convert style ⟨x, alias?⟩).expression = Fragment.convert style x ↔
        (isReserved x → style.Written x)) ∧
      ((∀ (i : Nat) (f : Field), s.fields[i]? = some f → isReserved f.expression →
          s.addAliases.fields[i]? = some f) ↔
        ∀ f ∈ s.fields, isReserved f.expression → f.alias? = none →
          Style.camel.Written f.expression) := by
  constructor
  · rw [Field.expression_convert_of_isPlain style h, Fragment.convert_of_isPlain style h]
    cases hr : isReserved x with
    | true => rw [if_pos rfl, Style.convert_eq_self_iff style hr, forall_prop_of_true rfl]
    | false => exact iff_of_true rfl nofun
  · have hf (i : Nat) (f : Field) (hi : s.fields[i]? = some f) :
        s.addAliases.fields[i]? = some f ↔ f.addAlias = f := by
      rw [addAliases, List.getElem?_map, hi, Option.map_some, Option.some.injEq]
    constructor
    · intro ha f hm hr
      obtain ⟨i, hi⟩ := List.getElem?_of_mem hm
      exact (Field.addAlias_eq_self_iff hr).1 ((hf i f hi).1 (ha i f hi hr))
    · intro hw i f hi hr
      exact (hf i f hi).2 ((Field.addAlias_eq_self_iff hr).2 (hw f (List.mem_of_getElem? hi) hr))

theorem spares_reserved_of_null :
    let s : Select := ⟨false, [⟨"null".toList, none⟩, ⟨"user_id".toList, none⟩,
      ⟨"CASE".toList, some "c".toList⟩], [], none, none, none, none, none⟩
    isPlain "u.user_id".toList ∧
      (Field.convert .camel ⟨"u.user_id".toList, none⟩).expression =
        Fragment.convert .camel "u.user_id".toList ∧
      s.fields.map (isReserved ·.expression) = [true, false, true] ∧
      (∀ (i : Nat) (f : Field), s.fields[i]? = some f → isReserved f.expression →
        s.addAliases.fields[i]? = some f) := by
  intro s
  have hp : isPlain "u.user_id".toList := by decide +kernel
  obtain ⟨hc, ha⟩ := spares_reserved_iff .camel hp none s
  refine ⟨hp, hc.2 ?_, by decide +kernel, ha.2 ?_⟩
  · decide +kernel
  · decide +kernel

/-- The constant NULL becomes `n_u_l_l` in a projection but not in a condition, and it gets the
alias `null`. -/
theorem not_spares_reserved_of_null :
    let f : Field := ⟨"NULL".toList, none⟩
    isPlain f.expression ∧ isReserved f.expression ∧
      (Field.convert .snake f).expression = "n_u_l_l".toList ∧
      Fragment.convert .snake f.expression = "NULL".toList ∧
      f.addAlias = ⟨"NULL".toList, some "null".toList⟩ := by
  decide +kernel

end Select

end SqlEdit
