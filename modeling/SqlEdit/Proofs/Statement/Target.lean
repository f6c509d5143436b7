import SqlEdit.Proofs.Nesting.Count
import SqlEdit.Statement.Render

namespace SqlEdit.Table

open Nesting (Pieces Free)
open Text (Closed Solid SolidWords Countable)

def ownWords (t : Table) : List Text :=
  t.name :: t.alias?.toList

theorem render_eq (t : Table) : t.render = Text.joinWords t.ownWords := by
  rw [render, ownWords, Text.joinWords_cons]
  cases t.alias? <;> simp

structure IsTarget (t : Table) : Prop where
  unjoined : t.join = none
  pieces : Pieces isSpace t.ownWords
  ne_nil : ∀ w ∈ t.ownWords, w ≠ []
  solid : Solid t.render

def isAliasAs (t : Table) : Bool :=
  t.alias?.any (·.sameWord "AS".toList)

variable {text : Text} {t : Table}

theorem readTarget?_eq_some_iff :
    readTarget? text = some t ↔ t.join = none ∧
      (text.splitWords = t.ownWords ∧ t.isAliasAs = false ∨
        ∃ w a, t.alias? = some a ∧ text.splitWords = [t.name, w, a] ∧
          w.sameWord "AS".toList) := by
  obtain ⟨name, alias?, join⟩ := t
  simp only [ownWords, isAliasAs, readTarget?, named]
  split <;> cases alias? <;>
    simp only [Option.toList_none, Option.toList_some, Option.any_none, Option.any_some] <;> grind

theorem isTarget_of_readTarget? (ht : Text.trim text = text) (h : readTarget? text = some t) :
    t.IsTarget := by
  have ht : Solid text := by
    refine Text.solid_iff.2 ⟨?_, ht⟩
    rintro rfl
    simp [readTarget?, Text.splitWords, Nesting.cut] at h
  have hp := Text.pieces_splitWords text
  have hs := Text.solidWords_splitWords ht
  have hne : ∀ w ∈ text.splitWords, w ≠ [] := fun w hw => Text.ne_nil_of_mem_splitWords hw
  obtain ⟨hj, ⟨hw, -⟩ | ⟨w, a, ha, hw, -⟩⟩ := readTarget?_eq_some_iff.1 h
  · rw [hw] at hp hs hne
    exact ⟨hj, hp, hne, render_eq t ▸ (Text.solid_joinWords_iff hne).2 hs⟩
  · have ho : t.ownWords = [t.name, a] := by rw [ownWords, ha, Option.toList_some]
    rw [hw] at hp hs hne
    have hne : ∀ v ∈ t.ownWords, v ≠ [] := by
      intro v hv
      rw [ho] at hv
      exact hne v (by grind)
    refine ⟨hj, ?_, hne, ?_⟩
    · rw [ho]
      exact hp.sublist (by grind)
    · rw [render_eq, Text.solid_joinWords_iff hne, ho]
      exact ⟨hs.head, hs.last⟩

theorem closed_of_readTarget? (hc : Closed text) (h : readTarget? text = some t) :
    Closed t.render := by
  have hw : ∀ w ∈ text.splitWords, Closed w := fun w hw => Text.closed_of_mem_splitWords hc hw
  rw [render_eq]
  refine Text.closed_joinWords fun v hv => hw v ?_
  obtain ⟨-, ⟨he, -⟩ | ⟨w, a, ha, he, -⟩⟩ := readTarget?_eq_some_iff.1 h
  · rwa [he]
  · rw [ownWords, ha, Option.toList_some] at hv
    rw [he]
    grind

theorem countP_render_le {p : Char → Bool} (hp : Countable p) (h : readTarget? text = some t) :
    t.render.countP p ≤ text.countP p := by
  rw [render_eq, Text.countP_joinWords hp, ← Text.sum_countP_splitWords hp text]
  obtain ⟨-, ⟨he, -⟩ | ⟨w, a, ha, he, -⟩⟩ := readTarget?_eq_some_iff.1 h
  · exact Nat.le_of_eq (by rw [he])
  · rw [ownWords, ha, Option.toList_some, he]
    simp only [List.map_cons, List.map_nil, List.sum_cons, List.sum_nil]
    omega

/-- A target is read back unless its alias is the word AS. -/
theorem readTarget?_render (h : t.IsTarget) : readTarget? t.render = some t ↔ t.isAliasAs = false := by
  have hw : t.render.splitWords = t.ownWords := by
    rw [render_eq]
    exact Text.splitWords_join h.pieces h.ne_nil
  rw [readTarget?_eq_some_iff, hw]
  constructor
  · rintro ⟨-, ⟨-, ha⟩ | ⟨w, a, ha, he, -⟩⟩
    · exact ha
    · simp [ownWords, ha] at he
  · exact fun ha => ⟨h.unjoined, .inl ⟨rfl, ha⟩⟩

end SqlEdit.Table
