import SqlEdit.Proofs.Identifier.Style
import SqlEdit.Proofs.Keyword.Hidden
import SqlEdit.Proofs.Statement.WellFormed
import SqlEdit.Sample.Basic

namespace SqlEdit.Sample

open Nesting (Free isPlain)
open Text (Closed Solid)
open Keyword (Apart Absent)
variable {i : Ident} {t : Text} {p : Char → Bool}

def isSegment : Text → Bool
  | [] => false
  | c :: t => c.isLower && t.all fun d => d.isLower || d.isDigit

def IsIdent (i : Ident) : Prop :=
  ∀ w ∈ i.cut (· == '_'), isSegment w

instance (i : Ident) : Decidable (IsIdent i) :=
  inferInstanceAs (Decidable (∀ w ∈ i.cut (· == '_'), _))

def isIdentChar (c : Char) : Bool :=
  c.isLower || c.isDigit || c == '_'

theorem lt_of_isIdentChar (c : Char) (h : isIdentChar c) : c.toNat < 128 := by
  rw [isIdentChar, Bool.or_eq_true, Bool.or_eq_true, beq_iff_eq] at h
  rcases h with (h | h) | rfl
  · exact lt_of_isAlpha (isAlpha_iff.2 (.inr h))
  · exact Nat.lt_of_le_of_lt (Char.isDigit_iff_toNat.1 h).2 (by decide)
  · decide

theorem all_of_isSegment (h : isSegment t) : t.all fun c => c.isLower || c.isDigit := by
  cases t with
  | nil => rfl
  | cons c t =>
      obtain ⟨hc, ht⟩ := Bool.and_eq_true_iff.1 h
      rw [List.all_cons, hc, Bool.true_or, Bool.true_and, ht]

theorem IsIdent.all (h : IsIdent i) : i.all isIdentChar := by
  refine List.all_eq_true.2 fun c hc => ?_
  rcases Text.exists_mem_cut (p := (· == '_')) hc with hu | ⟨w, hw, hc⟩
  · rw [isIdentChar, hu, Bool.or_true]
  · rw [isIdentChar, List.all_eq_true.1 (all_of_isSegment (h w hw)) c hc, Bool.true_or]

def nameChars : List Char :=
  ['a', 'b', 'c', 'd', 'e', 'f', 'g', 'h', 'i', 'j', 'k', 'l', 'm', 'n', 'o', 'p', 'q', 'r', 's',
    't', 'u', 'v', 'w', 'x', 'y', 'z', '0', '1', '2', '3', '4', '5', '6', '7', '8', '9', '_']

theorem of_nameChars {c : Char} (hp : nameChars.all p) (hc : isIdentChar c) : p c := by
  have hm := of_ascii (p := fun c => isIdentChar c → nameChars.contains c) (by decide)
    (lt_of_isIdentChar c hc) hc
  exact List.all_eq_true.1 hp c (List.contains_iff_mem.1 hm)

structure IsName (t : Text) : Prop where
  ne_nil : t ≠ []
  all : t.all isIdentChar

theorem IsIdent.isName_columnName (h : IsIdent i) : IsName (columnName i) :=
  ⟨by simp [columnName], by rw [columnName, List.all_append, h.all]; decide⟩

theorem IsIdent.isName_tableName (h : IsIdent i) : IsName (tableName i) :=
  ⟨by simp [tableName], by rw [tableName, List.all_append, h.all]; decide⟩

namespace IsName

theorem all_of_nameChars (h : IsName t) (hp : nameChars.all p) : t.all p :=
  List.all_eq_true.2 fun c hc => of_nameChars hp (List.all_eq_true.1 h.all c hc)

theorem free (h : IsName t) (hp : nameChars.all (!p ·)) : Free p .top t := by
  refine Nesting.free_of_forall fun c hc => ?_
  have hn := List.all_eq_true.1 (h.all_of_nameChars hp) c hc
  simpa using hn

theorem closed (h : IsName t) : Closed t :=
  Text.closed_of_isPlain (h.all_of_nameChars (by decide))

theorem solid (h : IsName t) : Solid t :=
  Text.solid_of_all h.ne_nil (h.all_of_nameChars (by decide))

theorem isClean (h : IsName t) : t.IsClean := by
  have hb : t.all (!isBlank ·) := h.all_of_nameChars (by decide)
  have hs : t.all (!isSpace ·) := h.all_of_nameChars (by decide)
  refine ⟨h.ne_nil, fun c hc hbl => ?_, ?_, ?_, h.closed⟩
  · simpa [hbl] using List.all_eq_true.1 hb c hc
  · rw [Option.any_eq_false]
    exact fun c hc => by simpa using List.all_eq_true.1 hs c (List.mem_of_head? hc)
  · rw [Option.any_eq_false]
    exact fun c hc => by simpa using List.all_eq_true.1 hs c (List.mem_of_getLast? hc)

theorem splitWords_eq (h : IsName t) : t.splitWords = [t] :=
  Text.splitWords_of_free h.ne_nil (h.free (by decide))

theorem absent {ks : List Keyword} (ha : Apart ks) (h : IsName t)
    (hl : ∀ k ∈ ks, Text.lead? t ≠ k.lead?) : Absent ks t :=
  Keyword.absent_of_word ha (h.all_of_nameChars (by decide)) hl

theorem getLast?_ne (h : IsName t) : t.getLast? ≠ some ';' := by
  intro hl
  have hc := List.all_eq_true.1 h.all _ (List.mem_of_getLast? hl)
  exact absurd hc (by decide)

end IsName

def isNumberChar (c : Char) : Bool :=
  c.isDigit || c == '-'

theorem lt_of_isNumberChar (c : Char) (h : isNumberChar c) : c.toNat < 128 := by
  simp only [isNumberChar, Bool.or_eq_true, beq_iff_eq] at h
  rcases h with h | rfl
  · exact lt_of_isIdentChar c (by simp [isIdentChar, h])
  · decide

theorem all_decimal (n : Int) : (decimal n).all isNumberChar := by
  have hd : (Nat.toDigits 10 n.natAbs).all isNumberChar := by
    refine List.all_eq_true.2 fun c hc => ?_
    rw [isNumberChar, Nat.isDigit_of_mem_toDigits (by decide) (by decide) hc, Bool.true_or]
  rw [decimal]
  split
  · exact hd
  · exact hd

theorem decimal_ne_nil (n : Int) : decimal n ≠ [] := by
  rw [decimal]
  split
  · exact List.cons_ne_nil _ _
  · exact Nat.toDigits_ne_nil

def numberChars : List Char :=
  ['0', '1', '2', '3', '4', '5', '6', '7', '8', '9', '-']

theorem all_decimal_of_numberChars (hp : numberChars.all p) (n : Int) : (decimal n).all p := by
  refine List.all_eq_true.2 fun c hc => ?_
  have hd := List.all_eq_true.1 (all_decimal n) c hc
  have hm := of_ascii (p := fun c => isNumberChar c → numberChars.contains c) (by decide)
    (lt_of_isNumberChar c hd) hd
  exact List.all_eq_true.1 hp c (List.contains_iff_mem.1 hm)

theorem solid_decimal (n : Int) : Solid (decimal n) :=
  Text.solid_of_all (decimal_ne_nil n) (all_decimal_of_numberChars (by decide) n)

theorem closed_decimal (n : Int) : Closed (decimal n) :=
  Text.closed_of_isPlain (all_decimal_of_numberChars (by decide) n)

theorem free_decimal (hp : numberChars.all (!p ·)) (n : Int) : Free p .top (decimal n) := by
  refine Nesting.free_of_forall fun c hc => ?_
  have hn := List.all_eq_true.1 (all_decimal_of_numberChars hp n) c hc
  simpa using hn

theorem getLast?_decimal_ne (n : Int) : (decimal n).getLast? ≠ some ';' := by
  intro hl
  have hc := List.all_eq_true.1 (all_decimal n) _ (List.mem_of_getLast? hl)
  exact absurd hc (by decide)

theorem quoted (hq : p '\'' = false) (t : Text) :
    let u := t.flatMap fun c => if c = '\'' then ['\'', '\''] else [c]
    Free p ⟨some .single, 0⟩ u ∧ Nesting.after ⟨some .single, 0⟩ u = ⟨some .single, 0⟩ := by
  induction t with
  | nil => exact ⟨Nesting.free_nil, rfl⟩
  | cons c t ih =>
      simp only [List.flatMap_cons]
      by_cases hc : c = '\''
      · subst hc
        have hstep : (Nesting.step ⟨some .single, 0⟩ '\'').step '\'' = ⟨some .single, 0⟩ := rfl
        simp only [if_true, List.cons_append, List.nil_append, Nesting.free_cons, hstep,
          Nesting.after_cons, hq, Bool.and_false, true_and]
        exact ih
      · have hstep : Nesting.step ⟨some .single, 0⟩ c = ⟨some .single, 0⟩ := if_neg hc
        have htop : Nesting.isTop ⟨some .single, 0⟩ = false := rfl
        simp only [if_neg hc, List.cons_append, List.nil_append, Nesting.free_cons, hstep,
          Nesting.after_cons, htop, Bool.false_and, true_and]
        exact ih

namespace Value

variable (v : Value)

/-- Only the ends of a quoted text are seen at top level. -/
theorem free_render (hq : p '\'' = false) (hp : numberChars.all (!p ·)) :
    Free p .top v.render := by
  cases v with
  | integer n => exact free_decimal hp _
  | text t =>
      obtain ⟨hf, ha⟩ := quoted hq t
      have hstep : Nesting.top.step '\'' = ⟨some .single, 0⟩ := rfl
      rw [render, List.cons_append, Nesting.free_cons, Nesting.free_append, hstep, ha, hq]
      exact ⟨Bool.and_false _, hf, Nesting.free_cons.2 ⟨rfl, Nesting.free_nil⟩⟩

theorem closed_render : Closed v.render := by
  cases v with
  | integer n => exact closed_decimal _
  | text t =>
      obtain ⟨-, ha⟩ := quoted (p := fun _ => false) rfl t
      have hstep : Nesting.top.step '\'' = ⟨some .single, 0⟩ := rfl
      rw [render, Closed, List.cons_append, Nesting.after_cons, Nesting.after_append, hstep, ha]
      rfl

theorem solid_render : Solid v.render := by
  cases v with
  | integer n => exact solid_decimal _
  | text t =>
      refine ⟨rfl, ?_⟩
      rw [render, List.getLast?_concat]
      rfl

theorem getLast?_render_ne : v.render.getLast? ≠ some ';' := by
  cases v with
  | integer n => exact getLast?_decimal_ne _
  | text t =>
      rw [render, List.getLast?_concat]
      decide

end Value

end SqlEdit.Sample
