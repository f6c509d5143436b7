import Mathlib.Data.List.Basic
import Mathlib.Data.List.Induction
import SqlEdit.Proofs.Nesting.Pieces
import SqlEdit.Statement.Chain

namespace SqlEdit

open Nesting (Free Pieces isPlain)

namespace Text

theorem joinWords_cons (w : Text) (ws : List Text) :
    joinWords (w :: ws) = w ++ ws.flatMap (' ' :: ·) :=
  join_cons ..

theorem joinWords_append {ws : List Text} (hws : ws ≠ []) (vs : List Text) :
    joinWords (ws ++ vs) = joinWords ws ++ vs.flatMap (' ' :: ·) := by
  obtain ⟨w, ws, rfl⟩ := List.exists_cons_of_ne_nil hws
  rw [List.cons_append, joinWords_cons, joinWords_cons, List.flatMap_append, List.append_assoc]

theorem flatMap_cons_space {ws : List Text} (hws : ws ≠ []) :
    ws.flatMap (' ' :: ·) = ' ' :: joinWords ws := by
  obtain ⟨w, ws, rfl⟩ := List.exists_cons_of_ne_nil hws
  rw [joinWords_cons, List.flatMap_cons, List.cons_append]

structure SolidWords (ws : List Text) : Prop where
  head : (ws.head?.bind List.head?).any (!SqlEdit.isBlank ·)
  last : (ws.getLast?.bind List.getLast?).any (!SqlEdit.isBlank ·)

theorem head?_joinWords {ws : List Text} (hne : ∀ w ∈ ws, w ≠ []) :
    (joinWords ws).head? = ws.head?.bind List.head? := by
  cases ws with
  | nil => rfl
  | cons w ws =>
      obtain ⟨c, u, rfl⟩ := List.exists_cons_of_ne_nil (hne w (by simp))
      rw [joinWords_cons]
      rfl

theorem getLast?_joinWords {ws : List Text} (hne : ∀ w ∈ ws, w ≠ []) :
    (joinWords ws).getLast? = ws.getLast?.bind List.getLast? := by
  induction ws using List.reverseRecOn with
  | nil => rfl
  | append_singleton ws w _ =>
      have hw : w ≠ [] := hne w (by simp)
      cases ws with
      | nil => simp [joinWords_cons]
      | cons v vs =>
          have hne : [w].flatMap (' ' :: ·) = [' '] ++ w := by simp
          rw [joinWords_append (List.cons_ne_nil _ _), hne, List.getLast?_append_of_ne_nil _ (by simp),
            List.getLast?_append_of_ne_nil _ hw, List.getLast?_concat]
          rfl

theorem solid_joinWords_iff {ws : List Text} (hne : ∀ w ∈ ws, w ≠ []) :
    Solid (joinWords ws) ↔ SolidWords ws := by
  constructor
  · intro h
    exact ⟨head?_joinWords hne ▸ h.head, getLast?_joinWords hne ▸ h.last⟩
  · intro h
    exact ⟨(head?_joinWords hne).symm ▸ h.head, (getLast?_joinWords hne).symm ▸ h.last⟩

end Text

namespace Nesting

variable {p q : Char → Bool} {n : Nesting}

theorem head?_cut {c : Char} {t : Text} (hc : p c = false) :
    ((n.cut p (c :: t)).head?.bind List.head?) = some c := by
  obtain ⟨s, ss, hs⟩ := List.exists_cons_of_ne_nil (cut_ne_nil p (n.step c) t)
  rw [cut, if_neg (by simp [hc]), hs]
  rfl

theorem getLast?_cut {t : Text} {d : Char} (hd : p d = false) :
    ((n.cut p (t ++ [d])).getLast?.bind List.getLast?) = some d := by
  induction t generalizing n with
  | nil => simp [cut, hd]
  | cons c t ih =>
      obtain ⟨s, ss, hs⟩ := List.exists_cons_of_ne_nil (cut_ne_nil p (n.step c) (t ++ [d]))
      have ih := ih (n := n.step c)
      rw [hs] at ih
      rw [List.cons_append, cut, hs]
      split
      · simpa using ih
      · cases ss with
        | nil => 
            simp only [List.getLast?_singleton, Option.bind_some] at ih
            simp [List.getLast?_cons, ih]
        | cons u us => simpa using ih

theorem subset_of_mem_cut {t u : Text} (hu : u ∈ n.cut p t) : u ⊆ t := by
  induction t generalizing n u with
  | nil =>
      rw [cut, List.mem_singleton] at hu
      subst hu
      exact List.nil_subset _
  | cons c t ih =>
      rw [cut] at hu
      split at hu
      · rcases List.mem_cons.1 hu with rfl | hu
        · exact List.nil_subset _
        · exact List.subset_cons_of_subset _ (ih hu)
      · obtain ⟨s, ss, hs⟩ := List.exists_cons_of_ne_nil (cut_ne_nil p (n.step c) t)
        rw [hs, List.modifyHead_cons, List.mem_cons] at hu
        rcases hu with rfl | hu
        · exact List.cons_subset_cons c (ih (hs ▸ List.mem_cons_self))
        · exact List.subset_cons_of_subset _ (ih (hs ▸ List.mem_cons_of_mem _ hu))

theorem of_mem_cut (hp : ∀ c, p c → isPlain c) {t u : Text} (hu : u ∈ top.cut p t) :
    (Free q top t → Free q top u) ∧ (Text.Closed t → Text.Closed u) := by
  induction hl : top.cut p t generalizing t with
  | nil => exact absurd hl (cut_ne_nil p top t)
  | cons s ss ih =>
      cases ss with
      | nil =>
          have ht := eq_of_cut_singleton hl
          rw [hl, List.mem_singleton] at hu
          subst ht hu
          exact ⟨id, id⟩
      | cons v vs =>
          obtain ⟨hf, hc, c, r, hpc, rfl, hr⟩ := exists_of_cut_cons_cons hp hl
          rw [hl] at hu
          rw [free_append, hc, free_cons, step_of_isPlain (hp c hpc),
            Text.Closed.append_iff hc, ← List.singleton_append,
            Text.Closed.append_iff (Text.closed_of_isPlain (by simp [hp c hpc]))]
          rcases List.mem_cons.1 hu with rfl | hu
          · exact ⟨fun h => h.1, fun _ => hc⟩
          · obtain ⟨h₁, h₂⟩ := ih (hr ▸ hu) hr
            exact ⟨fun h => h₁ h.2.2, h₂⟩

end Nesting

namespace Text

theorem getLast?_filter_ne_nil {ws : List Text} {d : Char}
    (h : (ws.getLast?.bind List.getLast?) = some d) :
    ((ws.filter (· ≠ [])).getLast?.bind List.getLast?) = some d := by
  induction ws using List.reverseRecOn with
  | nil => exact h
  | append_singleton ws w _ =>
      have hw : w ≠ [] := by
        rintro rfl
        simp at h
      simpa [List.filter_append, hw] using h

theorem solidWords_splitWords {t : Text} (h : Solid t) : SolidWords t.splitWords := by
  have hs {c : Char} (hc : SqlEdit.isBlank c = false) : isSpace c = false := by
    cases hsp : isSpace c with
    | false => rfl
    | true => rwa [isBlank_of_isSpace hsp] at hc
  constructor
  · obtain ⟨c, u, rfl, hc⟩ := h.cons
    have hh := Nesting.head?_cut (n := .top) (t := u) (hs hc)
    rw [splitWords]
    cases hcut : Nesting.top.cut isSpace (c :: u) with
    | nil => simp [hcut] at hh
    | cons s ss =>
        have hne : s ≠ [] := by
          rintro rfl
          simp [hcut] at hh
        rw [hcut, List.head?_cons, Option.bind_some] at hh
        rw [List.filter_cons_of_pos (by simpa using hne), List.head?_cons, Option.bind_some, hh]
        simp [hc]
  · obtain ⟨u, d, rfl, hd⟩ := h.concat
    rw [splitWords, getLast?_filter_ne_nil (Nesting.getLast?_cut (hs hd))]
    simp [hd]

theorem free_of_mem_splitWords {q : Char → Bool} {t w : Text} (h : Free q .top t)
    (hw : w ∈ t.splitWords) : Free q .top w :=
  (Nesting.of_mem_cut (fun _ => isPlain_of_isSpace) (List.mem_filter.1 hw).1).1 h

theorem closed_of_mem_splitWords {t w : Text} (h : Closed t) (hw : w ∈ t.splitWords) : Closed w :=
  (Nesting.of_mem_cut (q := isSpace) (fun _ => isPlain_of_isSpace) (List.mem_filter.1 hw).1).2 h

theorem closed_joinWords {ws : List Text} (h : ∀ w ∈ ws, Closed w) : Closed (joinWords ws) :=
  closed_join rfl h

theorem free_joinWords {q : Char → Bool} (hq : q ' ' = false) {ws : List Text}
    (h : Pieces q ws) : Free q .top (joinWords ws) :=
  free_join rfl (Nesting.free_of_forall (by simp [hq])) h

end Text

end SqlEdit
