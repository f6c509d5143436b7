import SqlEdit.Nesting.Cut
import SqlEdit.Statement.Basic

namespace SqlEdit

def Join.modifiers : List Text :=
  ["LEFT", "RIGHT", "FULL", "INNER", "OUTER", "CROSS", "NATURAL"].map String.toList

/-- Splits a join operator, a run of modifiers and JOIN, off the front of the words. -/
def Join.splitOperator? : List Text → Option (List Text × List Text)
  | [] => none
  | w :: ws =>
    if w.sameWord "JOIN".toList then some ([w], ws)
    else if modifiers.any (w.sameWord ·) then
      (splitOperator? ws).map fun (operator, rest) => (w :: operator, rest)
    else none

def Join.begins (ws : List Text) : Bool :=
  (splitOperator? ws).isSome

def Join.untilOperator : List Text → List Text × List Text
  | [] => ([], [])
  | w :: ws =>
    if Join.begins (w :: ws) then ([], w :: ws)
    else
      let (front, rest) := untilOperator ws
      (w :: front, rest)

def Text.joinWords (ws : List Text) : Text :=
  Text.join [' '] ws

namespace Constraint

def begins (w : Text) : Bool :=
  w.sameWord "ON".toList || w.sameWord "USING".toList

def ofWords (keyword : Text) (body : List Text) : Constraint :=
  if keyword.sameWord "ON".toList then onCondition (Text.joinWords body)
  else usingColumns (Text.joinWords body)

def read? : List Text → Option (Option Constraint × List Text)
  | [] => some (none, [])
  | w :: ws =>
    if begins w then
      let (body, rest) := Join.untilOperator ws
      if body = [] then none else some (some (ofWords w body), rest)
    else some (none, w :: ws)

end Constraint

namespace Table

def readAlias? : List Text → Option (Option Text × List Text)
  | [] => some (none, [])
  | w :: ws =>
    if w.sameWord "AS".toList then
      match ws with
      | [] => none
      | a :: rest => some (some a, rest)
    else if Constraint.begins w || Join.begins (w :: ws) then some (none, w :: ws)
    else some (some w, ws)

def read? (operator : Option Text) : List Text → Option (Table × List Text)
  | [] => none
  | name :: ws =>
    if Constraint.begins name || Join.begins (name :: ws) then none
    else do
      let (alias?, ws) ← readAlias? ws
      let (constraint, ws) ← Constraint.read? ws
      match operator, constraint with
      | some operator, constraint => some (⟨name, alias?, some ⟨operator, constraint⟩⟩, ws)
      | none, none => some (named name alias?, ws)
      | none, some _ => none

end Table

theorem Join.length_of_splitOperator? {ws operator rest : List Text}
    (h : splitOperator? ws = some (operator, rest)) : rest.length < ws.length := by
  induction ws generalizing operator with
  | nil => simp [splitOperator?] at h
  | cons w ws ih =>
    rw [splitOperator?] at h
    split at h
    · simp_all
    · split at h
      · obtain ⟨⟨operator', rest'⟩, hs, he⟩ := Option.map_eq_some_iff.1 h
        obtain ⟨rfl, rfl⟩ := Prod.mk.injEq .. ▸ he
        exact Nat.lt_succ_of_lt (ih hs)
      · simp at h

theorem Join.length_untilOperator (ws : List Text) :
    (untilOperator ws).2.length ≤ ws.length := by
  induction ws with
  | nil => exact Nat.le_refl _
  | cons w ws ih =>
    rw [untilOperator]
    split
    · exact Nat.le_refl _
    · exact Nat.le_succ_of_le ih

theorem Constraint.length_of_read? {ws rest : List Text} {c : Option Constraint}
    (h : read? ws = some (c, rest)) : rest.length ≤ ws.length := by
  cases ws with
  | nil => simp_all [read?]
  | cons w ws =>
    rw [read?] at h
    have := Join.length_untilOperator ws
    grind

theorem Table.length_of_readAlias? {ws rest : List Text} {a : Option Text}
    (h : readAlias? ws = some (a, rest)) : rest.length ≤ ws.length := by
  rw [readAlias?.eq_def] at h
  grind

theorem Table.length_of_read? {operator : Option Text} {ws rest : List Text} {t : Table}
    (h : read? operator ws = some (t, rest)) : rest.length < ws.length := by
  cases ws with
  | nil => simp [read?] at h
  | cons name ws =>
    rw [read?] at h
    split at h
    · simp at h
    · obtain ⟨⟨a, ws₁⟩, h₁, h⟩ := Option.bind_eq_some_iff.1 h
      obtain ⟨⟨c, ws₂⟩, h₂, h⟩ := Option.bind_eq_some_iff.1 h
      have := length_of_readAlias? h₁
      have := Constraint.length_of_read? h₂
      have : rest = ws₂ := by grind
      subst this
      simp only [List.length_cons]
      omega

namespace Table

def readChain? (operator : Option Text) (ws : List Text) : Option (List Table) :=
  match _h : read? operator ws with
  | none => none
  | some (table, []) => some [table]
  | some (table, w :: rest) =>
    match _h' : Join.splitOperator? (w :: rest) with
    | none => none
    | some (next, rest) =>
      (readChain? (some (Text.joinWords next)) rest).map (table :: ·)
termination_by ws.length
decreasing_by
  have := length_of_read? _h
  have := Join.length_of_splitOperator? _h'
  omega

def readList (region : Text) : Except ParseError (List Table) :=
  if region = [] then .error .emptyTableList
  else do
    let chains ← (region.splitItems ',').mapM fun group =>
      match readChain? none group.splitWords with
      | some chain => .ok chain
      | none => .error (.malformedTableList group)
    return chains.flatten

/-- Reads the target of a statement: `name`, `name alias` or `name AS alias`. -/
def readTarget? (text : Text) : Option Table :=
  match text.splitWords with
  | [name] => some (named name none)
  | [name, a] => if a.sameWord "AS".toList then none else some (named name (some a))
  | [name, w, a] => if w.sameWord "AS".toList then some (named name (some a)) else none
  | _ => none

end Table

end SqlEdit
