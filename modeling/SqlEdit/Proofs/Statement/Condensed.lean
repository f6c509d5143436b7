import SqlEdit.Proofs.Nesting.Count
import SqlEdit.Proofs.Nesting.Words

namespace SqlEdit

open Nesting (Pieces Free)
open Text (Closed SolidWords Countable)

def Constraint.keywords : List Text :=
  ["ON".toList, "USING".toList]

/-- The second words are the first ones without some AS before other words, and with keywords of
constraints in upper case. -/
inductive Condensed : List Text → List Text → Prop
  | nil : Condensed [] []
  | keep (w : Text) {ws cs : List Text} : Condensed ws cs → Condensed (w :: ws) (w :: cs)
  | upper {w k : Text} {ws cs : List Text} : k ∈ Constraint.keywords → w.sameWord k →
      Condensed ws cs → Condensed (w :: ws) (k :: cs)
  | skip {w : Text} {ws : List Text} {c : Text} {cs : List Text} : w.sameWord "AS".toList →
      Condensed ws (c :: cs) → Condensed (w :: ws) (c :: cs)

namespace Condensed

variable {ws cs vs ds : List Text} {p : Char → Bool}

theorem refl (ws : List Text) : Condensed ws ws := by
  induction ws with
  | nil => exact .nil
  | cons w ws ih => exact .keep w ih

theorem append (h : Condensed ws cs) (hv : Condensed vs ds) : Condensed (ws ++ vs) (cs ++ ds) := by
  induction h with
  | nil => exact hv
  | keep w _ ih => exact .keep w ih
  | upper hk hw _ ih => exact .upper hk hw ih
  | skip hw _ ih => exact .skip hw ih

theorem length_le (h : Condensed ws cs) : cs.length ≤ ws.length := by
  induction h with
  | nil => exact Nat.le_refl _
  | keep w _ ih => exact Nat.succ_le_succ ih
  | upper _ _ _ ih => exact Nat.succ_le_succ ih
  | skip _ _ ih => exact Nat.le_succ_of_le ih

theorem eq_nil (h : Condensed ws []) : ws = [] := by
  cases h
  rfl

theorem forall_mem {q : Text → Prop} (h : Condensed ws cs) (hk : ∀ k ∈ Constraint.keywords, q k)
    (hw : ∀ w ∈ ws, q w) : ∀ c ∈ cs, q c := by
  induction h with
  | nil => exact hw
  | keep w _ ih =>
      exact List.forall_mem_cons.2 ⟨hw w (by simp), ih fun v hv => hw v (by simp [hv])⟩
  | upper hm _ _ ih =>
      exact List.forall_mem_cons.2 ⟨hk _ hm, ih fun v hv => hw v (by simp [hv])⟩
  | skip _ _ ih => exact ih fun v hv => hw v (by simp [hv])

theorem ne_nil (h : Condensed ws cs) (hw : ∀ w ∈ ws, w ≠ []) : ∀ c ∈ cs, c ≠ [] :=
  h.forall_mem (by decide) hw

theorem closed (h : Condensed ws cs) (hw : ∀ w ∈ ws, Closed w) : ∀ c ∈ cs, Closed c :=
  h.forall_mem (by decide) hw

theorem pieces (h : Condensed ws cs) (hk : ∀ k ∈ Constraint.keywords, Free p .top k)
    (hw : Pieces p ws) : Pieces p cs := by
  induction h with
  | nil => exact hw
  | keep w h ih =>
      obtain ⟨hf, hc, hw⟩ := Nesting.pieces_cons.1 hw
      refine Nesting.pieces_cons.2 ⟨hf, fun hne => hc ?_, ih hw⟩
      rintro rfl
      cases h
      exact hne rfl
  | upper hm _ h ih =>
      have hc : ∀ k ∈ Constraint.keywords, Closed k := by decide
      obtain ⟨-, -, hw⟩ := Nesting.pieces_cons.1 hw
      exact Nesting.pieces_cons.2 ⟨hk _ hm, fun _ => hc _ hm, ih hw⟩
  | skip _ _ ih => exact ih (Nesting.pieces_cons.1 hw).2.2

theorem sum_countP_le (hp : Countable p) (h : Condensed ws cs) :
    (cs.map (·.countP p)).sum ≤ (ws.map (·.countP p)).sum := by
  induction h with
  | nil => exact Nat.le_refl _
  | keep w _ ih => simpa using ih
  | upper _ hs _ ih =>
      rw [List.map_cons, List.map_cons, List.sum_cons, List.sum_cons,
        Text.countP_of_sameWord hp hs]
      exact Nat.add_le_add_left ih _
  | skip _ _ ih =>
      simp only [List.map_cons, List.sum_cons] at ih ⊢
      omega

/-- The last word is never left out. -/
theorem last (h : Condensed ws cs)
    (hl : (ws.getLast?.bind List.getLast?).any (!isBlank ·)) :
    (cs.getLast?.bind List.getLast?).any (!isBlank ·) := by
  induction h with
  | nil => exact hl
  | keep w h ih =>
      cases h with
      | nil => exact hl
      | _ => exact ih (by simpa using hl)
  | upper hm _ h ih =>
      have hk : ∀ k ∈ Constraint.keywords, (k.getLast?.any (!isBlank ·)) = true := by decide
      cases h with
      | nil => exact hk _ hm
      | _ => exact ih (by simpa using hl)
  | skip _ h ih =>
      exact ih (by cases h <;> simpa using hl)

theorem solidWords (h : Condensed ws cs) (he : ws.head? = cs.head?) (hs : SolidWords ws) :
    SolidWords cs :=
  ⟨he ▸ hs.head, h.last hs.last⟩

end Condensed

end SqlEdit
