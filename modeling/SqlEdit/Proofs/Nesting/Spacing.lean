import SqlEdit.Proofs.Nesting.Stretches
import SqlEdit.Proofs.Nesting.Words

namespace SqlEdit

namespace Nesting

variable {n : Nesting} {c : Char} {gap : Text}

def IsGap (n : Nesting) (gap : Text) : Prop :=
  ∀ i < gap.length, i ∈ places isSpace n gap

theorem isGap_nil : IsGap n [] :=
  fun _ h => absurd h (Nat.not_lt_zero _)

theorem isGap_cons : IsGap n (c :: gap) ↔ (n = top ∧ isSpace c) ∧ IsGap top gap := by
  have hzero : 0 ∈ places isSpace n (c :: gap) ↔ n = top ∧ isSpace c := by
    rw [places_cons, ← isTop_iff, ← Bool.and_eq_true]
    cases n.isTop && isSpace c <;> simp
  have hsucc (i : Nat) :
      i + 1 ∈ places isSpace n (c :: gap) ↔ i ∈ places isSpace (n.step c) gap := by
    rw [places_cons]
    cases n.isTop && isSpace c <;> simp
  have hiff : IsGap n (c :: gap) ↔ (n = top ∧ isSpace c) ∧ IsGap (n.step c) gap := by
    simp only [IsGap, List.length_cons, Nat.forall_lt_succ_left, hzero, hsucc]
  rw [hiff]
  refine and_congr_right fun ⟨hn, hc⟩ => ?_
  rw [hn, step_of_isPlain (isPlain_of_isSpace hc)]

theorem IsGap.closed (h : IsGap top gap) : Text.Closed gap := by
  induction gap with
  | nil => rfl
  | cons c gap ih =>
      obtain ⟨⟨-, hc⟩, hg⟩ := isGap_cons.1 h
      exact .cons (isPlain_of_isSpace hc) (ih hg)

end Nesting

namespace Text

open Nesting (IsGap isGap_nil isGap_cons places places_eq_nil_iff)

variable {n : Nesting} {gap t : Text} {ws : List Text}

theorem splitWords_gap_append (h : IsGap .top gap) (t : Text) :
    (gap ++ t).splitWords = t.splitWords := by
  induction gap with
  | nil => rfl
  | cons c gap ih =>
      obtain ⟨⟨-, hc⟩, hg⟩ := isGap_cons.1 h
      exact (splitWords_append_cons (s := []) rfl hc _).trans (ih hg)

/-- Whether a text, where `n` is open in front, is made of words with a run of top-level spaces behind
each. Only the last run may be empty. -/
inductive SpacedOut : Nesting → List Text → Text → Prop
  | nil (n : Nesting) : SpacedOut n [] []
  | cons {n : Nesting} {w gap t : Text} {ws : List Text} : w ≠ [] → places isSpace .top w = [] →
      IsGap (n.after w) gap → (ws ≠ [] → gap ≠ []) → SpacedOut (n.after (w ++ gap)) ws t →
      SpacedOut n (w :: ws) (w ++ gap ++ t)

theorem SpacedOut.splitWords_eq (h : SpacedOut n ws t) (hn : n = .top) : t.splitWords = ws := by
  induction h with
  | nil => rfl
  | @cons n w gap t ws hne hfree hgap hapart hrest ih =>
      subst hn
      have hw : w.splitWords = [w] := splitWords_of_free hne (places_eq_nil_iff.1 hfree)
      cases gap with
      | nil =>
          have hws : ws = [] := by_contra fun h => hapart h rfl
          subst hws
          cases hrest
          rw [List.append_nil, List.append_nil, hw]
      | cons c gap =>
          obtain ⟨⟨hcl, hc⟩, hg⟩ := isGap_cons.1 hgap
          have hrun : IsGap .top (c :: gap) := isGap_cons.2 ⟨⟨rfl, hc⟩, hg⟩
          rw [List.append_assoc, List.cons_append, splitWords_append_cons hcl hc,
            splitWords_gap_append hg, hw, ih (Closed.append hcl hrun.closed), List.singleton_append]

theorem exists_spacedOut (t : Text) :
    ∃ gap rest, t = gap ++ rest ∧ IsGap .top gap ∧ SpacedOut .top t.splitWords rest := by
  -- By the stretches of the cut. An empty one adds its space to the run in front of the next word.
  induction hl : Nesting.top.cut isSpace t generalizing t with
  | nil => exact absurd hl (Nesting.cut_ne_nil isSpace .top t)
  | cons w ws ih =>
      cases ws with
      | nil =>
          obtain rfl := Nesting.eq_of_cut_singleton hl
          by_cases hne : t = []
          · subst hne
            exact ⟨[], [], rfl, isGap_nil, .nil _⟩
          · rw [splitWords_of_free hne hl]
            refine ⟨[], t ++ [] ++ [], by simp, isGap_nil, ?_⟩
            exact .cons hne (places_eq_nil_iff.2 hl) isGap_nil nofun (.nil _)
      | cons v vs =>
          obtain ⟨hf, hcl, c, r, hc, rfl, hr⟩ :=
            Nesting.exists_of_cut_cons_cons (fun _ => isPlain_of_isSpace) hl
          obtain ⟨gap, rest, rfl, hg, hrest⟩ := ih r hr
          have hrun : IsGap .top (c :: gap) := isGap_cons.2 ⟨⟨rfl, hc⟩, hg⟩
          rw [splitWords_append_cons hcl hc]
          by_cases hne : w = []
          · subst hne
            exact ⟨c :: gap, rest, rfl, hrun, hrest⟩
          · have hclosed : Closed (w ++ c :: gap) := Closed.append hcl hrun.closed
            rw [splitWords_of_free hne hf]
            refine ⟨[], w ++ (c :: gap) ++ rest, by simp, isGap_nil, ?_⟩
            exact .cons hne (places_eq_nil_iff.2 hf) (hcl.symm ▸ hrun) nofun (hclosed.symm ▸ hrest)

/-- The words of a text are the only ones of which it is made, with runs of top-level spaces between
any two of them and perhaps before the first and after the last, so that none is empty and none has a
top-level space when it stands alone. With one space between any two they are read back, whatever the
last of them leaves open. -/
theorem splitWords_exact (t : Text) :
    (∀ ws, t.splitWords = ws ↔ ∃ gap rest, t = gap ++ rest ∧ IsGap .top gap ∧
      SpacedOut (Nesting.top.after gap) ws rest) ∧
    (joinWords t.splitWords).splitWords = t.splitWords := by
  refine ⟨fun ws => ⟨?_, ?_⟩, ?_⟩
  · rintro rfl
    obtain ⟨gap, rest, ht, hgap, hrest⟩ := exists_spacedOut t
    exact ⟨gap, rest, ht, hgap, hgap.closed.symm ▸ hrest⟩
  · rintro ⟨gap, rest, rfl, hgap, hrest⟩
    rw [splitWords_gap_append hgap, hrest.splitWords_eq hgap.closed]
  · exact splitWords_join (pieces_splitWords t) fun w => ne_nil_of_mem_splitWords

example : splitWords "  (SELECT a FROM b)  t ON 'x y' = z ".toList =
    ["(SELECT a FROM b)", "t", "ON", "'x y'", "=", "z"].map String.toList := by decide

end Text

end SqlEdit
