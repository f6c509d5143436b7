import SqlEdit.Proofs.Checked.Cut
import SqlEdit.Proofs.Statement.Chain

namespace SqlEdit

def indexOf (ws rest : List Text) : Nat :=
  ws.length - rest.length

namespace Checked

def operatorFrom (ws : List Text) (start length : Nat) : Option Nat :=
  match h : ws[start + length]? with
  | none => none
  | some w =>
    if w.sameWord "JOIN".toList then some (length + 1)
    else if Join.modifiers.any (w.sameWord ·) then operatorFrom ws start (length + 1)
    else none
termination_by ws.length - (start + length)
decreasing_by
  obtain ⟨hlt, -⟩ := List.getElem?_eq_some_iff.1 h
  omega

def operatorLength (ws : List Text) (start : Nat) : Option Nat :=
  operatorFrom ws start 0

def constraintEnd (ws : List Text) (stop : Nat) : Nat :=
  if stop < ws.length ∧ (operatorLength ws stop).isNone then constraintEnd ws (stop + 1) else stop
termination_by ws.length - stop

def readAlias (ws : List Text) (i : Nat) : Option (Option Text × Nat) :=
  match ws[i]? with
  | none => some (none, i)
  | some w =>
    if w.sameWord "AS".toList then ws[i + 1]?.map fun a => (some a, i + 2)
    else if Constraint.begins w || (operatorLength ws i).isSome then some (none, i)
    else some (some w, i + 1)

def readConstraint (ws : List Text) (i : Nat) : Checked (Option (Option Constraint × Nat)) := do
  match ws[i]? with
  | none => return some (none, i)
  | some w =>
    if Constraint.begins w then
      let stop := constraintEnd ws (i + 1)
      if stop = i + 1 then return none
      let body ← between ws (i + 1) stop
      return some (some (Constraint.ofWords w body), stop)
    else return some (none, i)

def readTable (ws : List Text) (operator : Option Text) (i : Nat) :
    Checked (Option (Table × Nat)) := do
  match ws[i]? with
  | none => return none
  | some name =>
    if Constraint.begins name || (operatorLength ws i).isSome then return none
    match readAlias ws (i + 1) with
    | none => return none
    | some (alias?, i) =>
      match ← readConstraint ws i with
      | none => return none
      | some (constraint, i) =>
        match operator, constraint with
        | some operator, constraint => return some (⟨name, alias?, some ⟨operator, constraint⟩⟩, i)
        | none, none => return some (.named name alias?, i)
        | none, some _ => return none

/-- Reads the tables of a chain, given those before them. Every table has to take some words. -/
def readChain (ws : List Text) (operator : Option Text) (i : Nat) (tables : List Table) :
    Checked (Option (List Table)) := do
  match ← readTable ws operator i with
  | none => return none
  | some (table, next) =>
    if next = ws.length then return some (tables ++ [table])
    match operatorLength ws next with
    | none => return none
    | some length =>
      let words ← between ws next (next + length)
      if i < next + length ∧ next + length ≤ ws.length then
        readChain ws (some (Text.joinWords words)) (next + length) (tables ++ [table])
      else .error .stalled
termination_by ws.length - i
decreasing_by omega

def readGroups : List Text → List Table → Checked (Except ParseError (List Table))
  | [], tables => return .ok tables
  | group :: groups, tables => do
    match ← readChain (← splitWords group) none 0 tables with
    | none => return .error (.malformedTableList group)
    | some tables => readGroups groups tables

def readTables (region : Text) : Checked (Except ParseError (List Table)) := do
  if region = [] then return .error .emptyTableList
  readGroups (← splitItems region ','.toUInt8) []

variable {ws rest front : List Text} {w : Text} {operator : Option Text} {start length : Nat}

theorem indexOf_append (front rest : List Text) : indexOf (front ++ rest) rest = front.length := by
  rw [indexOf, List.length_append, Nat.add_sub_cancel]

theorem indexOf_add (front : List Text) (h : front ++ rest <:+ ws) :
    indexOf ws (front ++ rest) + front.length = indexOf ws rest := by
  obtain ⟨pre, rfl⟩ := h
  rw [indexOf_append, ← List.append_assoc, indexOf_append, List.length_append]

theorem indexOf_cons (h : w :: rest <:+ ws) : indexOf ws (w :: rest) + 1 = indexOf ws rest :=
  indexOf_add [w] h

theorem getElem?_indexOf (h : rest <:+ ws) : ws[indexOf ws rest]? = rest.head? := by
  obtain ⟨pre, rfl⟩ := h
  rw [indexOf_append, List.getElem?_append_right (Nat.le_refl _), Nat.sub_self,
    List.head?_eq_getElem?]

theorem indexOf_eq_length_iff (h : rest <:+ ws) : indexOf ws rest = ws.length ↔ rest = [] := by
  obtain ⟨pre, rfl⟩ := h
  rw [indexOf_append, List.length_append, ← List.length_eq_zero_iff]
  omega

theorem indexOf_le (ws rest : List Text) : indexOf ws rest ≤ ws.length :=
  Nat.sub_le _ _

theorem between_indexOf (h : front ++ rest <:+ ws) :
    between ws (indexOf ws (front ++ rest)) (indexOf ws rest) = .ok front := by
  rw [← indexOf_add front h]
  obtain ⟨pre, rfl⟩ := h
  rw [indexOf_append, ← List.append_assoc]
  exact between_of_append rfl rfl

theorem operatorFrom_eq (h : rest <:+ ws) (hi : start + length = indexOf ws rest) :
    operatorFrom ws start length =
      (Join.splitOperator? rest).map fun (operator, _) => length + operator.length := by
  induction rest generalizing length with
  | nil => rw [operatorFrom, hi, getElem?_indexOf h]; rfl
  | cons w rest ih =>
      have hi' : start + (length + 1) = indexOf ws rest := by
        rw [← indexOf_cons h, ← hi, Nat.add_assoc]
      have hnext := ih ((List.suffix_cons w rest).trans h) hi'
      rw [operatorFrom, hi, getElem?_indexOf h, Join.splitOperator?, hnext]
      simp only [List.head?_cons]
      by_cases hj : w.sameWord "JOIN".toList
      · rw [if_pos hj, if_pos hj]
        rfl
      · rw [if_neg hj, if_neg hj]
        split
        · cases Join.splitOperator? rest with
          | none => rfl
          | some p => simp [Nat.add_assoc, Nat.add_comm 1]
        · rfl

theorem operatorLength_eq (h : rest <:+ ws) : operatorLength ws (indexOf ws rest) =
    (Join.splitOperator? rest).map fun (operator, _) => operator.length := by
  rw [operatorLength, operatorFrom_eq h rfl]
  simp only [Nat.zero_add]

theorem isSome_operatorLength (h : rest <:+ ws) :
    (operatorLength ws (indexOf ws rest)).isSome = Join.begins rest := by
  rw [operatorLength_eq h, Option.isSome_map, Join.begins]

theorem constraintEnd_eq (h : rest <:+ ws) :
    constraintEnd ws (indexOf ws rest) = indexOf ws (Join.untilOperator rest).2 := by
  induction rest with
  | nil =>
      have hl := (indexOf_eq_length_iff h).2 rfl
      rw [constraintEnd, if_neg fun hlt => absurd hlt.1 (by omega)]
      rfl
  | cons w rest ih =>
      have hlt : indexOf ws (w :: rest) < ws.length := by
        have := indexOf_cons h
        have := indexOf_le ws rest
        omega
      have hnone := isSome_operatorLength h
      rw [← Option.not_isNone, Bool.not_eq_eq_eq_not] at hnone
      rw [constraintEnd, hnone, indexOf_cons h, ih ((List.suffix_cons w rest).trans h),
        Join.untilOperator_cons]
      cases Join.begins (w :: rest) with
      | true => rw [if_neg (by simp), if_pos rfl]
      | false => rw [if_pos ⟨hlt, rfl⟩, if_neg Bool.false_ne_true]

theorem readAlias_eq (h : rest <:+ ws) : readAlias ws (indexOf ws rest) =
    (Table.readAlias? rest).map fun (a?, rest) => (a?, indexOf ws rest) := by
  rw [readAlias, getElem?_indexOf h]
  cases rest with
  | nil => rfl
  | cons w rest =>
      have hrest := (List.suffix_cons w rest).trans h
      rw [Table.readAlias?.eq_def]
      simp only [List.head?_cons, isSome_operatorLength h]
      split
      · rw [indexOf_cons h, getElem?_indexOf hrest]
        cases rest with
        | nil => rfl
        | cons a rest =>
            have hi : indexOf ws (w :: a :: rest) + 2 = indexOf ws rest :=
              indexOf_add [w, a] h
            simp [hi]
      · split
        · rfl
        · rw [indexOf_cons h]
          rfl

theorem readConstraint_eq (h : rest <:+ ws) : readConstraint ws (indexOf ws rest) =
    .ok ((Constraint.read? rest).map fun (c?, rest) => (c?, indexOf ws rest)) := by
  rw [readConstraint, getElem?_indexOf h]
  cases rest with
  | nil => rfl
  | cons w rest =>
      have hrest := (List.suffix_cons w rest).trans h
      have hu := Join.eq_of_untilOperator rest
      have hbody : between ws (indexOf ws rest) (indexOf ws (Join.untilOperator rest).2) =
          .ok (Join.untilOperator rest).1 := by
        have hb := between_indexOf (hu ▸ hrest)
        rwa [← hu] at hb
      have hempty : indexOf ws (Join.untilOperator rest).2 = indexOf ws rest ↔
          (Join.untilOperator rest).1 = [] := by
        have ha := indexOf_add _ (hu ▸ hrest)
        rw [← hu] at ha
        rw [← List.length_eq_zero_iff]
        omega
      simp only [List.head?_cons, indexOf_cons h, constraintEnd_eq hrest, hempty, hbody, ok_bind,
        Constraint.read?]
      split
      · split <;> rfl
      · rfl

theorem readTable_eq (h : rest <:+ ws) (operator : Option Text) :
    readTable ws operator (indexOf ws rest) =
      .ok ((Table.read? operator rest).map fun (t, rest) => (t, indexOf ws rest)) := by
  rw [readTable, getElem?_indexOf h]
  cases rest with
  | nil => rfl
  | cons name rest =>
      have hrest := (List.suffix_cons name rest).trans h
      simp only [List.head?_cons, isSome_operatorLength h, indexOf_cons h, readAlias_eq hrest,
        Table.read?]
      split
      · rfl
      · cases ha : Table.readAlias? rest with
        | none => rfl
        | some p =>
            obtain ⟨a?, rest₁⟩ := p
            have hsuff : rest₁ <:+ ws := by
              obtain ⟨front, rfl, -⟩ := Table.condensed_of_readAlias? ha
              exact (List.suffix_append front rest₁).trans hrest
            simp only [Option.map_some, readConstraint_eq hsuff, ok_bind, Option.bind_eq_bind,
              Option.bind_some]
            cases Constraint.read? rest₁ with
            | none => rfl
            | some q =>
                obtain ⟨c?, rest₂⟩ := q
                cases operator <;> cases c? <;> rfl

theorem readChain?_of_read? {table : Table} {rest' : List Text}
    (h : Table.read? operator rest = some (table, rest')) :
    Table.readChain? operator rest =
      if rest' = [] then some [table]
      else (Join.splitOperator? rest').bind fun (next, rest) =>
        (Table.readChain? (some (Text.joinWords next)) rest).map (table :: ·) := by
  rw [Table.readChain?]
  split
  next hn => cases hn.symm.trans h
  next ht =>
    obtain ⟨rfl, rfl⟩ := Prod.mk.inj (Option.some.inj (ht.symm.trans h))
    rfl
  next ht =>
    obtain ⟨rfl, rfl⟩ := Prod.mk.inj (Option.some.inj (ht.symm.trans h))
    rw [if_neg (List.cons_ne_nil _ _)]
    split
    next ho => rw [ho]; rfl
    next ho => rw [ho]; rfl

theorem readChain_eq (h : rest <:+ ws) (operator : Option Text) (tables : List Table) :
    readChain ws operator (indexOf ws rest) tables =
      .ok ((Table.readChain? operator rest).map (tables ++ ·)) := by
  induction hn : rest.length using Nat.strong_induction_on generalizing rest operator tables with
  | _ n ih =>
      rw [readChain, readTable_eq h, ok_bind]
      cases ht : Table.read? operator rest with
      | none => rw [Table.readChain?, ht]; rfl
      | some p =>
          obtain ⟨table, rest₁⟩ := p
          have hs := (Table.suffix_of_read? ht).trans h
          have hlt := Table.length_of_read? ht
          rw [readChain?_of_read? ht]
          simp only [Option.map_some, indexOf_eq_length_iff hs, operatorLength_eq hs]
          split
          · rfl
          · cases ho : Join.splitOperator? rest₁ with
              | none => rfl
              | some q =>
                  obtain ⟨next, rest₂⟩ := q
                  obtain ⟨he, -⟩ := Join.eq_of_splitOperator? ho
                  have hl := Join.length_of_splitOperator? ho
                  have hs₂ : rest₂ <:+ ws := (he ▸ List.suffix_append next rest₂).trans hs
                  have hwords := between_indexOf (he ▸ hs)
                  have hnext := indexOf_add next (he ▸ hs)
                  rw [← he] at hwords hnext
                  have hguard : indexOf ws rest < indexOf ws rest₂ ∧
                      indexOf ws rest₂ ≤ ws.length := by
                    refine ⟨?_, indexOf_le ws rest₂⟩
                    have := h.length_le
                    rw [indexOf, indexOf]
                    omega
                  have hchain := ih rest₂.length (by omega) hs₂ (some (Text.joinWords next))
                    (tables ++ [table]) rfl
                  simp only [Option.map_some, hnext, hwords, ok_bind, if_pos hguard, hchain,
                    Option.bind_some]
                  cases Table.readChain? (some (Text.joinWords next)) rest₂ with
                  | none => rfl
                  | some ts => simp

def chainOf (group : Text) : Except ParseError (List Table) :=
  match Table.readChain? none group.splitWords with
  | some chain => .ok chain
  | none => .error (.malformedTableList group)

theorem readGroups_eq (groups : List Text) (tables : List Table) :
    readGroups groups tables = .ok ((groups.mapM chainOf).map (tables ++ ·.flatten)) := by
  induction groups generalizing tables with
  | nil => rw [readGroups, List.mapM_nil]; simp [Except.map, pure, Except.pure]
  | cons group groups ih =>
      have hc := readChain_eq (List.suffix_refl group.splitWords) none tables
      rw [indexOf, Nat.sub_self] at hc
      rw [readGroups, splitWords_eq, ok_bind, hc, ok_bind, List.mapM_cons, chainOf]
      cases Table.readChain? none group.splitWords with
      | none => rfl
      | some chain =>
          simp only [Option.map_some, ih]
          cases groups.mapM chainOf with
          | error e => rfl
          | ok chains => simp [Except.map, bind, Except.bind, pure, Except.pure]

theorem readTables_eq (region : Text) : readTables region = .ok (Table.readList region) := by
  rw [readTables, Table.readList]
  split
  · rfl
  · rw [splitItems_comma, ok_bind, readGroups_eq]
    change _ = Except.ok
      (((region.splitItems ',').mapM chainOf) >>= fun chains => pure chains.flatten)
    cases (region.splitItems ',').mapM chainOf <;> rfl

end Checked

end SqlEdit
