import SqlEdit.Proofs.Checked.Cut
import SqlEdit.Proofs.Statement.Field

namespace SqlEdit.Checked

open Keyword (Apart occurrences_around mem_occurrences_iff ne_nil_of_read?)
open Text (Solid)

/-- The last stretch of a keyword that begins at an offset or behind it, given the last one before.
Every search has to begin behind the one before. -/
def findLastFrom (t : Text) (k : Keyword) (start : Nat) (last : Option Span) :
    Checked (Option Span) := do
  match ← findKeyword t k start with
  | none => return last
  | some span =>
    if start < span.stop ∧ span.stop ≤ t.utf8.length then findLastFrom t k span.stop (some span)
    else .error .stalled
termination_by t.utf8.length - start
decreasing_by omega

def splitAs (t : Text) : Checked (Option Field) := do
  match ← findLastFrom t .asAlias 0 none with
  | none => return none
  | some span =>
    let expression := Text.trimEnd (← sliceTo t span.start)
    let name := Text.trim (← sliceFrom t span.stop)
    return if expression = [] ∨ name = [] then none else some ⟨expression, some name⟩

def splitBare (t : Text) : Checked (Option Field) := do
  match (← splitWords t).reverse with
  | name :: operand :: _ =>
    if Field.isAliasWord name && Field.endsOperand operand then
      let stop ← sub t.utf8.length name.utf8.length
      return some ⟨Text.trimEnd (← sliceTo t stop), some name⟩
    else return none
  | _ => return none

def readField (t : Text) : Checked (Option Field) := do
  if t = [] then return none
  match ← splitAs t with
  | some f => return some f
  | none => return some ((← splitBare t).getD ⟨t, none⟩)

variable {ks : List Keyword} {k : Keyword} {t : Text} {o : Occurrence}

theorem start_lt_stop (hk : k.isLettered) (ho : o ∈ k.occurrences t) : o.start < o.stop := by
  obtain ⟨-, hat⟩ := (mem_occurrences_iff hk).1 ho
  obtain ⟨c, m, hm⟩ := List.exists_cons_of_ne_nil (ne_nil_of_read? hk hat.read)
  have := c.utf8Size_pos
  rw [Occurrence.stop, hm, Text.byteSize]
  omega

theorem stop_le (ho : o ∈ k.occurrences t) : o.stop ≤ t.byteSize := by
  rw [← (Keyword.of_mem_occurrences ho).1, Occurrence.text, Text.byteSize_append,
    Text.byteSize_append, Occurrence.stop, Occurrence.start]
  exact Nat.le_add_right _ _

/-- Behind an occurrence the same ones are left as behind any place before it. -/
theorem getLast?_filter_stop (ha : Apart ks) (hk : k ∈ ks) (ho : o ∈ k.occurrences t) {start : Nat}
    (hs : start ≤ o.start) :
    ((k.occurrences t).filter (start ≤ ·.start)).getLast? =
      ((k.occurrences t).filter (o.stop ≤ ·.start)).getLast?.or (some o) := by
  have hlt := start_lt_stop (ha.lettered k hk) ho
  have hbehind (p : Occurrence) :
      (Occurrence.behind (o.before ++ o.matched) p).start = o.stop + p.start := by
    rw [Occurrence.behind, Occurrence.start, Text.byteSize_append, Text.byteSize_append]
    rfl
  have hbefore : ∀ p ∈ (k.occurrences o.before).map (Occurrence.extend (o.matched ++ o.after)),
      p.start ≤ o.start := by
    intro p hp
    obtain ⟨q, hq, rfl⟩ := List.mem_map.1 hp
    have hle := stop_le hq
    exact Nat.le_trans (Nat.le_add_right _ _) hle
  have hall {s : Nat} (hs : s ≤ o.stop) :
      ((k.occurrences o.after).map (Occurrence.behind (o.before ++ o.matched))).filter
        (s ≤ ·.start) = (k.occurrences o.after).map (Occurrence.behind (o.before ++ o.matched)) := by
    refine List.filter_eq_self.2 fun p hp => decide_eq_true ?_
    obtain ⟨q, -, rfl⟩ := List.mem_map.1 hp
    rw [hbehind]
    exact Nat.le_add_right_of_le hs
  have hnone : ((k.occurrences o.before).map
      (Occurrence.extend (o.matched ++ o.after))).filter (o.stop ≤ ·.start) = [] :=
    List.filter_eq_nil_iff.2 fun p hp => by
      have := hbefore p hp
      simp only [decide_eq_true_eq]
      omega
  rw [occurrences_around ha hk hk ho, if_pos rfl, List.filter_append, List.filter_append,
    List.filter_append, List.filter_append, hall (by omega), hall (Nat.le_refl _), hnone,
    List.filter_singleton, List.filter_singleton, decide_eq_true hs,
    decide_eq_false (Nat.not_le.2 hlt), cond_true, cond_false, List.nil_append, List.nil_append,
    List.getLast?_append, List.getLast?_append, List.getLast?_singleton]
  cases ((k.occurrences o.after).map (Occurrence.behind (o.before ++ o.matched))).getLast? <;> rfl

theorem findLastFrom_eq (ha : Apart ks) (hk : k ∈ ks) (t : Text) (start : Nat)
    (last : Option Span) : findLastFrom t k start last =
      .ok ((((k.occurrences t).filter (start ≤ ·.start)).getLast?.map (·.byteSpan)).or last) := by
  -- Every occurrence that is found leaves less of the text.
  induction hn : t.byteSize - start using Nat.strong_induction_on generalizing start last with
  | _ n ih =>
      have hfind : (k.occurrences t).find? (start ≤ ·.start) =
          ((k.occurrences t).filter (start ≤ ·.start)).head? := List.head?_filter.symm
      rw [findLastFrom, findKeyword_eq, ok_bind, Keyword.findFrom?, hfind]
      cases ho : ((k.occurrences t).filter (start ≤ ·.start)).head? with
      | none =>
          rw [List.head?_eq_none_iff.1 ho]
          rfl
      | some o =>
          obtain ⟨hm, hs⟩ := List.mem_filter.1 (List.mem_of_head? ho)
          have hs := of_decide_eq_true hs
          have hlt := start_lt_stop (ha.lettered k hk) hm
          have hle := stop_le hm
          have hnext := ih (t.byteSize - o.stop) (by omega) o.stop (some o.byteSpan) rfl
          have hguard : start < o.stop ∧ o.stop ≤ t.utf8.length := by
            rw [Text.length_utf8]
            omega
          simp only [Option.map_some, Occurrence.byteSpan] at hnext ⊢
          rw [if_pos hguard, hnext, getLast?_filter_stop ha hk hm hs]
          cases ((k.occurrences t).filter (o.stop ≤ ·.start)).getLast? <;> rfl

theorem findLastFrom_asAlias (t : Text) : findLastFrom t .asAlias 0 none =
    .ok ((Keyword.asAlias.findLast? t).map (·.byteSpan)) := by
  have hall : (Keyword.asAlias.occurrences t).filter (0 ≤ ·.start) =
      Keyword.asAlias.occurrences t :=
    List.filter_eq_self.2 fun o _ => decide_eq_true (Nat.zero_le o.start)
  rw [findLastFrom_eq Field.apart List.mem_cons_self, hall, Option.or_none]
  rfl

theorem splitAs_eq (t : Text) : splitAs t = .ok (Field.splitAs? t) := by
  rw [splitAs, findLastFrom_asAlias, ok_bind, Field.splitAs?]
  cases ho : Keyword.asAlias.findLast? t with
  | none => rfl
  | some o =>
      have ht := (Keyword.of_mem_occurrences (List.mem_of_getLast? ho)).1
      obtain ⟨hbefore, hafter⟩ := slice_of_text ht
      simp only [Option.map_some, Occurrence.byteSpan, hbefore, hafter, ok_bind]
      rfl

/-- A bare alias ends its field, so that the rest of the field ends at a border. -/
theorem splitBare_eq (ht : Solid t) : splitBare t = .ok (Field.splitBare? t) := by
  rw [splitBare, splitWords_eq, ok_bind, Field.splitBare?]
  rcases hw : t.splitWords.reverse with _ | ⟨name, _ | ⟨operand, ws⟩⟩
  · rfl
  · rfl
  · obtain ⟨u, c, -, htu, -⟩ := Field.exists_of_splitWords ht hw
    have hsize : t.utf8.length = Text.byteSize (u ++ [c]) + name.utf8.length := by
      rw [Text.length_utf8, htu, Text.byteSize_append, Text.length_utf8]
    have hfront : t.take (t.length - name.length) = u ++ [c] := by
      rw [htu, List.length_append, Nat.add_sub_cancel, List.take_left]
    have hslice : sliceTo t (t.utf8.length - name.utf8.length) = .ok (u ++ [c]) :=
      sliceTo_of_append htu (by rw [hsize, Nat.add_sub_cancel])
    have hsub := sub_of_le (m := t.utf8.length) (n := name.utf8.length) (by omega)
    simp only [hsub, ok_bind, hslice, hfront]
    split <;> rfl

theorem readField_eq (ht : Text.trim t = t) : readField t = .ok (Field.ofText? t) := by
  rw [readField, Field.ofText?]
  by_cases hne : t = []
  · rw [if_pos hne, if_pos hne]
    rfl
  · have hs : Solid t := Text.solid_iff.2 ⟨hne, ht⟩
    rw [if_neg hne, if_neg hne, splitAs_eq, ok_bind, splitBare_eq hs]
    cases Field.splitAs? t <;> rfl

end SqlEdit.Checked
