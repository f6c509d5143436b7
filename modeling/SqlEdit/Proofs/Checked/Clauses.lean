import Mathlib.Order.MinMax
import SqlEdit.Proofs.Checked.Keyword

namespace SqlEdit

namespace Checked

def nextOffset (t : Text) (starts : List Nat) (place : Nat) : Nat :=
  (starts.filter (place ≤ ·)).min?.getD t.utf8.length

def clauseBody (t : Text) (starts : List Nat) : Option Span → Checked (Option Text)
  | none => .ok none
  | some span => do
    let body := Text.trim (← slice t span.stop (nextOffset t starts span.stop))
    return if body = [] then none else some body

def splitClauses (t : Text) (keywords : List Keyword) : Checked Clauses := do
  let spans ← keywords.mapM fun k => findKeyword t k 0
  let starts := (spans.filterMap id).map (·.start)
  let bodies ← spans.mapM (clauseBody t starts)
  return { head := Text.trim (← sliceTo t (nextOffset t starts 0)), bodies }

end Checked

variable {t : Text} {i j place : Nat} {starts : List Nat}

namespace Text

def offset (t : Text) (i : Nat) : Nat :=
  byteSize (t.take i)

theorem offset_length (t : Text) : offset t t.length = byteSize t := by
  rw [offset, List.take_length]

theorem offset_add (t : Text) (i j : Nat) :
    offset t (i + j) = offset t i + byteSize ((t.drop i).take j) := by
  rw [offset, List.take_add, byteSize_append, offset]

theorem offset_monotone (t : Text) : Monotone (offset t) := by
  intro i j h
  obtain ⟨d, rfl⟩ := Nat.exists_eq_add_of_le h
  rw [offset_add]
  exact Nat.le_add_right _ _

theorem offset_lt (h : i < j) (hi : i < t.length) : offset t i < offset t j := by
  obtain ⟨d, rfl⟩ := Nat.exists_eq_add_of_lt h
  rw [Nat.add_assoc, offset_add, List.drop_eq_getElem_cons hi, List.take_succ_cons, byteSize]
  have := t[i].utf8Size_pos
  omega

theorem offset_le_iff (hi : i ≤ t.length) : offset t i ≤ offset t j ↔ i ≤ j := by
  constructor
  · intro h
    by_contra hlt
    have hlt := Nat.lt_of_not_le hlt
    have := offset_lt hlt (Nat.lt_of_lt_of_le hlt hi)
    omega
  · exact fun h => offset_monotone t h

end Text

namespace Checked

open Text (offset offset_monotone offset_le_iff offset_length offset_add)

theorem min?_map_offset (t : Text) (starts : List Nat) :
    (starts.map (offset t)).min? = starts.min?.map (offset t) := by
  cases starts with
  | nil => rfl
  | cons x xs =>
      rw [List.map_cons, List.min?_cons', List.min?_cons', Option.map_some, Option.some.injEq]
      induction xs generalizing x with
      | nil => rfl
      | cons y ys ih => rw [List.map_cons, List.foldl_cons, List.foldl_cons,
          ← (offset_monotone t).map_min, ih]

theorem nextOffset_eq (hp : place ≤ t.length) :
    nextOffset t (starts.map (offset t)) (offset t place) =
      offset t (Clauses.nextStart starts place t.length) := by
  have hf : (starts.map (offset t)).filter (offset t place ≤ ·) =
      (starts.filter (place ≤ ·)).map (offset t) := by
    rw [List.filter_map]
    refine congrArg (List.map _) (List.filter_congr fun x _ => ?_)
    exact decide_eq_decide.2 (offset_le_iff hp)
  rw [nextOffset, hf, min?_map_offset, Clauses.nextStart, Text.length_utf8, ← offset_length]
  cases (starts.filter (place ≤ ·)).min? <;> rfl

theorem slice_offset (t : Text) (hij : i ≤ j) :
    slice t (offset t i) (offset t j) = .ok ((t.take j).drop i) := by
  have hm : (t.take j).take i = t.take i := by rw [List.take_take, Nat.min_eq_left hij]
  have ht : t = t.take i ++ (t.take j).drop i ++ t.drop j := by
    rw [← hm, List.take_append_drop, List.take_append_drop]
  refine slice_of_append ht rfl ?_
  rw [offset, ← Text.byteSize_append, ← hm, List.take_append_drop]

theorem le_nextStart (hp : place ≤ t.length) :
    place ≤ Clauses.nextStart starts place t.length := by
  rw [Clauses.nextStart]
  cases hm : (starts.filter (place ≤ ·)).min? with
  | none => exact hp
  | some x => simpa using (List.mem_filter.1 (List.min?_mem hm)).2

variable {o : Occurrence}

theorem span_le (h : o.text = t) : o.span.start ≤ o.span.stop ∧ o.span.stop ≤ t.length := by
  rw [← h, Occurrence.span, Occurrence.text, List.length_append, List.length_append]
  exact ⟨Nat.le_add_right _ _, Nat.le_add_right _ _⟩

theorem byteSpan_eq (h : o.text = t) :
    o.byteSpan = ⟨offset t o.span.start, offset t o.span.stop⟩ := by
  have hs : t.take o.before.length = o.before := by
    rw [← h, Occurrence.text, List.append_assoc, List.take_left]
  have hm : t.take (o.before.length + o.matched.length) = o.before ++ o.matched := by
    rw [← h, Occurrence.text, ← List.length_append, List.take_left]
  rw [Occurrence.byteSpan, Occurrence.span, offset, offset, hs, hm, Text.byteSize_append,
    Occurrence.stop, Occurrence.start]

def byteSpanOf (t : Text) (span : Span) : Span :=
  ⟨offset t span.start, offset t span.stop⟩

theorem findKeyword_first (t : Text) (k : Keyword) :
    findKeyword t k 0 = .ok (((k.find? t).map (·.span)).map (byteSpanOf t)) := by
  rw [findKeyword_eq, Keyword.findFrom?_zero]
  cases ho : k.find? t with
  | none => rfl
  | some o => rw [Option.map_some, byteSpan_eq (Keyword.text_of_find? ho)]; rfl

theorem of_mem_spans {keywords : List Keyword} {span : Span}
    (h : some span ∈ Clauses.spans keywords t) :
    span.start ≤ span.stop ∧ span.stop ≤ t.length := by
  obtain ⟨k, -, hk⟩ := List.mem_map.1 h
  obtain ⟨o, ho, rfl⟩ := Option.map_eq_some_iff.1 hk
  exact span_le (Keyword.text_of_find? ho)

theorem clauseBody_eq (starts : List Nat) {span? : Option Span}
    (h : ∀ span, span? = some span → span.stop ≤ t.length) :
    clauseBody t (starts.map (offset t)) (span?.map (byteSpanOf t)) =
      .ok (span?.bind fun span =>
        Clauses.slice? t span.stop (Clauses.nextStart starts span.stop t.length)) := by
  cases span? with
  | none => rfl
  | some span =>
      have hstop := h span rfl
      rw [Option.map_some, clauseBody, byteSpanOf, nextOffset_eq hstop,
        slice_offset t (le_nextStart hstop), ok_bind, Option.bind_some,
        Clauses.slice?]
      rfl

theorem starts_byteSpans (t : Text) (spans : List (Option Span)) :
    ((spans.map (·.map (byteSpanOf t))).filterMap id).map (·.start) =
      ((spans.filterMap id).map (·.start)).map (offset t) := by
  induction spans with
  | nil => rfl
  | cons span? spans ih =>
      cases span? with
      | none => exact ih
      | some span => exact congrArg (offset t span.start :: ·) ih

theorem splitClauses_eq (t : Text) (keywords : List Keyword) :
    splitClauses t keywords = .ok (Clauses.split keywords t) := by
  have hspans : keywords.mapM (fun k => findKeyword t k 0) =
      .ok ((Clauses.spans keywords t).map (·.map (byteSpanOf t))) := by
    rw [mapM_eq_ok fun k _ => findKeyword_first t k, Clauses.spans, List.map_map]
    rfl
  have hbodies (starts : List Nat) :
      ((Clauses.spans keywords t).map (·.map (byteSpanOf t))).mapM
        (clauseBody t (starts.map (offset t))) =
      .ok ((Clauses.spans keywords t).map fun span? => span?.bind fun span =>
        Clauses.slice? t span.stop (Clauses.nextStart starts span.stop t.length)) := by
    rw [List.mapM_map]
    refine mapM_eq_ok fun span? hm => clauseBody_eq starts fun span hspan => ?_
    subst hspan
    exact (of_mem_spans hm).2
  have hhead (starts : List Nat) : sliceTo t (nextOffset t (starts.map (offset t)) 0) =
      .ok (t.take (Clauses.nextStart starts 0 t.length)) := by
    have h : nextOffset t (starts.map (offset t)) (offset t 0) = _ :=
      nextOffset_eq (Nat.zero_le t.length)
    rw [sliceTo]
    exact h ▸ slice_offset t (Nat.zero_le _)
  simp only [splitClauses, hspans, ok_bind, starts_byteSpans, hbodies, hhead, Clauses.split]
  rfl

end Checked

end SqlEdit
