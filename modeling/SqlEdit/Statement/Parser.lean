import SqlEdit.Clauses
import SqlEdit.Log
import SqlEdit.Statement.Chain
import SqlEdit.Statement.Field

namespace SqlEdit

namespace Select

def readProjection? (t : Text) : Option (Bool × List Field) :=
  let t := t.trim
  let (distinct, items) :=
    match Keyword.distinct.strip? t with
    | some rest => (true, rest.trimStart)
    | none => (false, t)
  match (items.splitItems ',').mapM Field.ofText? with
  | none | some [] => none
  | some fields => some (distinct, fields)

def clauseKeywords : List Keyword :=
  [.condition, .groupBy, .having, .orderBy, .limit]

def read (t : Text) : Except ParseError Select :=
  match Keyword.fromTables.find? t with
  | none => .error .missingFrom
  | some o =>
    match readProjection? o.before with
    | none => .error .emptyFieldList
    | some (distinct, fields) => do
      let clauses := Clauses.split clauseKeywords o.after
      let tables ← Table.readList clauses.head
      return {
        distinct, fields, tables
        condition := clauses.body? 0
        groupBy := clauses.body? 1
        having := clauses.body? 2
        orderBy := clauses.body? 3
        limit := clauses.body? 4 }

end Select

namespace Insert

def readItems? (t : Text) : Option (List Text) :=
  let items := t.splitItems ','
  if items = [] ∨ [] ∈ items then none else some items

def isNameChar (c : Char) : Bool :=
  !isBlank c && c != '('

def read? (t : Text) : Option Insert := do
  let t ← Keyword.intoTable.strip? t.trimStart
  let (name, t) := t.trimStart.span isNameChar
  let (fields, t) ← Text.takeGroup? (Text.trimStart t)
  let t ← Keyword.values.strip? t.trimStart
  let (values, t) ← Text.takeGroup? t.trimStart
  let fields ← readItems? fields
  let values ← readItems? values
  if name ≠ [] ∧ t.isBlank ∧ fields.length = values.length then
    some ⟨.named name none, fields, values⟩
  else none

end Insert

namespace Update

def readAssignment? (t : Text) : Option (Text × Text) := do
  let o ← (Text.occurrences ['='] t).head?
  let field := o.before.trim
  let value := o.after.trim
  if field = [] ∨ value = [] then none else some (field, value)

def conditionFirst (t : Text) (set : Occurrence) : Bool :=
  (Keyword.condition.find? t).any fun o => o.before.length < set.before.length

def read? (t : Text) : Option Update := do
  let set ← Keyword.setFields.find? t
  if conditionFirst t set then none
  else
    let clauses := Clauses.split [.setFields, .condition] t
    let table ← Table.readTarget? clauses.head
    let entries ← ((← clauses.body? 0).splitItems ',').mapM readAssignment?
    let assignments ← Assignments.ofEntries? entries
    some ⟨table, assignments, clauses.body? 1⟩

end Update

def Delete.read? (t : Text) : Option Delete := do
  let clauses := Clauses.split [.condition] (← Keyword.fromTables.strip? t.trimStart)
  let table ← Table.readTarget? clauses.head
  some ⟨table, clauses.body? 0⟩

namespace Statement

/-- The text of a statement without outer white space and without one final semicolon. -/
def body (sql : Text) : Text :=
  let t := sql.trim
  if t.getLast? = some ';' then Text.trimEnd t.dropLast else t

def readBody (kind : Kind) (t : Text) : Except ParseError Statement :=
  match kind with
  | .select => (Select.read t).map .select
  | .insert => ((Insert.read? t).map .insert).elim (.error .malformedInsert) .ok
  | .update => ((Update.read? t).map .update).elim (.error .malformedUpdate) .ok
  | .delete => ((Delete.read? t).map .delete).elim (.error .malformedDelete) .ok

def parseLogged (sql : Text) : Logged (Except ParseError Statement) :=
  let t := body sql
  if t = [] then .quiet (.error .emptyStatement)
  else
    match Kind.detect? t with
    | none => .quiet (.error (.unsupportedKind t.firstWord))
    | some (kind, rest) =>
      match readBody kind rest with
      | .ok s => .quiet (.ok s)
      | .error reason =>
        if reason.isDegradable then
          ⟨.ok (.degraded ⟨kind, sql, reason⟩), [.keptVerbatim kind reason]⟩
        else .quiet (.error reason)

def parse (sql : Text) : Except ParseError Statement :=
  (parseLogged sql).value

end Statement

end SqlEdit
