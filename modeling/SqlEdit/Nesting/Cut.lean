import SqlEdit.Nesting
import SqlEdit.Text.Blank

namespace SqlEdit

namespace Nesting

def cut (p : Char → Bool) (n : Nesting) : Text → List Text
  | [] => [[]]
  | c :: t =>
    if n.isTop && p c then [] :: cut p (n.step c) t
    else (cut p (n.step c) t).modifyHead (c :: ·)

def closeGroup? (n : Nesting) : Text → Option (Text × Text)
  | [] => none
  | c :: t =>
    if n = ⟨none, 1⟩ ∧ c = ')' then some ([], t)
    else (closeGroup? (n.step c) t).map fun (inside, rest) => (c :: inside, rest)

theorem cut_ne_nil (p : Char → Bool) (n : Nesting) (t : Text) : n.cut p t ≠ [] := by
  induction t generalizing n with
  | nil => exact List.cons_ne_nil _ _
  | cons c t ih =>
    rw [cut]
    split
    · exact List.cons_ne_nil _ _
    · exact Text.modifyHead_ne_nil _ (ih _)

theorem join_cut (c : Char) (n : Nesting) (t : Text) : Text.join [c] (n.cut (· == c) t) = t := by
  induction t generalizing n with
  | nil => rfl
  | cons d t ih =>
    rw [cut]
    split
    · next h =>
      rw [Text.join_nil_cons _ (cut_ne_nil _ _ t), ih, eq_of_beq (Bool.and_eq_true_iff.1 h).2,
        List.singleton_append]
    · rw [Text.join_modifyHead_cons _ _ (cut_ne_nil _ _ t), ih]

theorem eq_of_closeGroup? {n : Nesting} {t inside rest : Text}
    (h : n.closeGroup? t = some (inside, rest)) : t = inside ++ ')' :: rest := by
  induction t generalizing n inside with
  | nil => simp [closeGroup?] at h
  | cons c t ih =>
    rw [closeGroup?] at h
    split at h
    · next hc =>
      obtain ⟨rfl, rfl⟩ := Prod.mk.inj (Option.some.inj h)
      rw [hc.2, List.nil_append]
    · obtain ⟨⟨inside', rest'⟩, hs, he⟩ := Option.map_eq_some_iff.1 h
      obtain ⟨rfl, rfl⟩ := Prod.mk.inj he
      rw [ih hs, List.cons_append]

end Nesting

namespace Text

/-- The trimmed stretches between top-level separators. An empty stretch is kept, but a blank text
has none at all. -/
def splitItems (separator : Char) (t : Text) : List Text :=
  if t.isBlank then [] else (Nesting.top.cut (· == separator) t).map trim

def splitWords (t : Text) : List Text :=
  (Nesting.top.cut isSpace t).filter (· ≠ [])

/-- Splits a leading group off a text: what its parentheses hold, and what follows them. -/
def takeGroup? : Text → Option (Text × Text)
  | '(' :: t => Nesting.closeGroup? ⟨none, 1⟩ t
  | _ => none

theorem eq_of_takeGroup? {t inside rest : Text} (h : takeGroup? t = some (inside, rest)) :
    t = '(' :: inside ++ ')' :: rest := by
  unfold takeGroup? at h
  split at h
  · rw [Nesting.eq_of_closeGroup? h, List.cons_append]
  · simp at h

end Text

end SqlEdit
