import SqlEdit.Proofs.Keyword.Append
import SqlEdit.Proofs.Statement.Target

namespace SqlEdit

open Nesting (Pieces)

theorem Text.sameWord_congr {w k : Text} (h : sameWord w k) (l : Text) :
    sameWord w l = sameWord k l := by
  rw [sameWord, sameWord, eq_of_beq h]

theorem Text.sameWord_comm {w k : Text} (h : sameWord w k) : sameWord k w :=
  (sameWord_congr h w).symm.trans (beq_self_eq_true _)

namespace Join

def isJoin (w : Text) : Bool :=
  w.sameWord "JOIN".toList

def isModifier (w : Text) : Bool :=
  modifiers.any (w.sameWord ·)

def IsOperator (ws : List Text) : Prop :=
  splitOperator? ws = some (ws, [])

instance (ws : List Text) : Decidable (IsOperator ws) :=
  inferInstanceAs (Decidable (_ = _))

theorem splitOperator?_cons (w : Text) (ws : List Text) :
    splitOperator? (w :: ws) =
      if isJoin w then some ([w], ws)
      else if isModifier w then (splitOperator? ws).map fun (operator, rest) => (w :: operator, rest)
      else none := rfl

/-- What is split off is JOIN, or a modifier before what is split off behind it. -/
theorem splitOperator?_cons_eq_some_iff {w : Text} {ws operator rest : List Text} :
    splitOperator? (w :: ws) = some (operator, rest) ↔
      (isJoin w ∧ operator = [w] ∧ rest = ws) ∨
        isJoin w = false ∧ isModifier w ∧
          ∃ more, splitOperator? ws = some (more, rest) ∧ operator = w :: more := by
  rw [splitOperator?_cons]
  cases isJoin w with
  | true =>
      rw [if_pos rfl, Option.some.injEq, Prod.mk.injEq, eq_comm, eq_comm (a := ws)]
      simp
  | false =>
      rw [if_neg Bool.false_ne_true]
      cases isModifier w with
      | true => simp [eq_comm (b := operator), and_comm]
      | false => simp

@[simp]
theorem begins_nil : begins [] = false := rfl

theorem begins_cons (w : Text) (ws : List Text) :
    begins (w :: ws) = (isJoin w || (isModifier w && begins ws)) := by
  rw [begins, splitOperator?_cons, begins]
  split
  · next h => simp [h]
  split
  · next h₁ h₂ => cases splitOperator? ws <;> simp [h₁, h₂]
  · next h₁ h₂ => simp [h₁, h₂]

theorem begins_eq_false {w : Text} (h : ∀ v ∈ "JOIN".toList :: modifiers, w.sameWord v = false)
    (ws : List Text) : begins (w :: ws) = false := by
  have hm : isModifier w = false :=
    List.any_eq_false.2 fun v hv => Bool.eq_false_iff.1 (h v (List.mem_cons_of_mem _ hv))
  rw [begins_cons, isJoin, h _ List.mem_cons_self, hm]
  rfl

theorem eq_of_splitOperator? {ws operator rest : List Text}
    (h : splitOperator? ws = some (operator, rest)) : ws = operator ++ rest ∧ IsOperator operator := by
  induction ws generalizing operator with
  | nil => simp [splitOperator?] at h
  | cons w ws ih =>
      obtain ⟨hj, rfl, rfl⟩ | ⟨hj, hm, more, hs, rfl⟩ := splitOperator?_cons_eq_some_iff.1 h
      · exact ⟨rfl, splitOperator?_cons_eq_some_iff.2 (.inl ⟨hj, rfl, rfl⟩)⟩
      · obtain ⟨rfl, ho⟩ := ih hs
        exact ⟨rfl, splitOperator?_cons_eq_some_iff.2 (.inr ⟨hj, hm, more, ho, rfl⟩)⟩

theorem IsOperator.ne_nil {ws : List Text} (h : IsOperator ws) : ws ≠ [] := by
  rintro rfl
  simp [IsOperator, splitOperator?] at h

theorem IsOperator.begins {ws : List Text} (h : IsOperator ws) : begins ws := by
  rw [Join.begins, h]
  rfl

theorem isAlpha_of_splitOperator? {ws operator rest : List Text}
    (h : splitOperator? ws = some (operator, rest)) : ∀ w ∈ operator, w.all Char.isAlpha := by
  have hv : ∀ v ∈ "JOIN".toList :: modifiers, v.all Char.isAlpha := by decide
  have hw {w v : Text} (hs : w.sameWord v) (hm : v ∈ "JOIN".toList :: modifiers) :
      w.all Char.isAlpha :=
    Text.isAlpha_of_sameWord (Text.sameWord_comm hs) (hv v hm)
  induction ws generalizing operator with
  | nil => simp [splitOperator?] at h
  | cons w ws ih =>
      obtain ⟨hj, rfl, rfl⟩ | ⟨-, hm, more, hs, rfl⟩ := splitOperator?_cons_eq_some_iff.1 h
      · exact List.forall_mem_singleton.2 (hw hj List.mem_cons_self)
      · obtain ⟨v, hmv, hwv⟩ := List.any_eq_true.1 hm
        exact List.forall_mem_cons.2 ⟨hw hwv (List.mem_cons_of_mem _ hmv), ih hs⟩

theorem splitOperator?_append {ws operator rest : List Text} (vs : List Text)
    (h : splitOperator? ws = some (operator, rest)) :
    splitOperator? (ws ++ vs) = some (operator, rest ++ vs) := by
  induction ws generalizing operator with
  | nil => simp [splitOperator?] at h
  | cons w ws ih =>
      obtain ⟨hj, rfl, rfl⟩ | ⟨hj, hm, more, hs, rfl⟩ := splitOperator?_cons_eq_some_iff.1 h
      · exact splitOperator?_cons_eq_some_iff.2 (.inl ⟨hj, rfl, rfl⟩)
      · exact splitOperator?_cons_eq_some_iff.2 (.inr ⟨hj, hm, more, ih hs, rfl⟩)

theorem IsOperator.splitOperator?_append {operator : List Text} (h : IsOperator operator)
    (ws : List Text) : splitOperator? (operator ++ ws) = some (operator, ws) :=
  Join.splitOperator?_append ws h

/-- What comes behind an operator has no say in whether one begins before it. -/
theorem begins_append {operator : List Text} (h : IsOperator operator) (ws rest : List Text) :
    begins (ws ++ (operator ++ rest)) = begins (ws ++ operator) := by
  induction ws with
  | nil =>
      rw [List.nil_append, List.nil_append, Join.begins, h.splitOperator?_append, h.begins]
      rfl
  | cons w ws ih => rw [List.cons_append, begins_cons, ih, List.cons_append, begins_cons]

theorem untilOperator_cons (w : Text) (ws : List Text) :
    untilOperator (w :: ws) =
      if begins (w :: ws) then ([], w :: ws) else ((w :: (untilOperator ws).1), (untilOperator ws).2) :=
  rfl

theorem eq_of_untilOperator (ws : List Text) :
    ws = (untilOperator ws).1 ++ (untilOperator ws).2 := by
  induction ws with
  | nil => rfl
  | cons w ws ih =>
      rw [untilOperator_cons]
      split
      · rfl
      · rw [List.cons_append, ← ih]

theorem untilOperator_operator {operator : List Text} (h : IsOperator operator) (rest : List Text) :
    untilOperator (operator ++ rest) = ([], operator ++ rest) := by
  have hb := begins_append h [] rest
  obtain ⟨w, ws, rfl⟩ := List.exists_cons_of_ne_nil h.ne_nil
  rw [List.nil_append, List.nil_append, h.begins] at hb
  rw [List.cons_append] at hb ⊢
  rw [untilOperator_cons, if_pos hb]

theorem untilOperator_append_iff {operator : List Text} (h : IsOperator operator)
    (body rest : List Text) :
    untilOperator (body ++ (operator ++ rest)) = (body, operator ++ rest) ↔
      untilOperator (body ++ operator) = (body, operator) := by
  induction body with
  | nil =>
      have ho := untilOperator_operator h []
      rw [List.append_nil] at ho
      rw [List.nil_append, List.nil_append, untilOperator_operator h, ho]
      simp
  | cons w body ih =>
      have hb := begins_append h (w :: body) rest
      rw [List.cons_append, List.cons_append] at hb
      rw [List.cons_append, List.cons_append, untilOperator_cons, untilOperator_cons, hb]
      split
      · simp
      · rw [Prod.ext_iff, Prod.ext_iff] at ih ⊢
        simpa using ih

end Join

end SqlEdit
