import SqlEdit.Json.Basic
import SqlEdit.Renames
import SqlEdit.Statement.Basic

namespace SqlEdit

open Json (ofText ofOption text? required? optional? isBare)

namespace Kind

def tag : Kind → String
  | select => "Select"
  | insert => "Insert"
  | update => "Update"
  | delete => "Delete"

def toJson (k : Kind) : Json :=
  ofText k.tag.toList

def ofJson? (j : Json) : Option Kind := do
  let (tag, content) ← j.alternative?
  if isBare content then all.find? fun k => k.tag.toList = tag else none

end Kind

namespace ParseError

def tag : ParseError → String
  | emptyStatement => "EmptyStatement"
  | unsupportedKind _ => "UnsupportedStatementKind"
  | missingFrom => "MissingFrom"
  | emptyFieldList => "EmptyFieldList"
  | emptyTableList => "EmptyTableList"
  | malformedTableList _ => "MalformedTableList"
  | malformedInsert => "MalformedInsert"
  | malformedUpdate => "MalformedUpdate"
  | malformedDelete => "MalformedDelete"

def bare : List ParseError :=
  [emptyStatement, missingFrom, emptyFieldList, emptyTableList, malformedInsert, malformedUpdate,
    malformedDelete]

def toJson (e : ParseError) : Json :=
  match e with
  | unsupportedKind word => .tagged e.tag (ofText word)
  | malformedTableList group => .tagged e.tag (ofText group)
  | _ => ofText e.tag.toList

def ofJson? (j : Json) : Option ParseError := do
  let (tag, content) ← j.alternative?
  if tag = "UnsupportedStatementKind".toList then (content.bind text?).map unsupportedKind
  else if tag = "MalformedTableList".toList then (content.bind text?).map malformedTableList
  else if isBare content then bare.find? fun e => e.tag.toList = tag
  else none

end ParseError

namespace Field

def toJson (f : Field) : Json :=
  .record [("expression", ofText f.expression), ("alias", ofOption ofText f.alias?)]

def ofJson? (j : Json) : Option Field := do
  match ← j.fields? ["expression", "alias"] with
  | [expression, alias?] => some ⟨← required? text? expression, ← optional? text? alias?⟩
  | _ => none

end Field

namespace Constraint

def toJson : Constraint → Json
  | onCondition condition => .tagged "On" (ofText condition)
  | usingColumns columns => .tagged "Using" (ofText columns)

def ofJson? (j : Json) : Option Constraint := do
  let (tag, content) ← j.alternative?
  if tag = "On".toList then (content.bind text?).map onCondition
  else if tag = "Using".toList then (content.bind text?).map usingColumns
  else none

end Constraint

namespace Join

def toJson (j : Join) : Json :=
  .record [("operator", ofText j.operator), ("constraint", ofOption Constraint.toJson j.constraint)]

def ofJson? (j : Json) : Option Join := do
  match ← j.fields? ["operator", "constraint"] with
  | [operator, constraint] =>
    some ⟨← required? text? operator, ← optional? Constraint.ofJson? constraint⟩
  | _ => none

end Join

namespace Table

def toJson (t : Table) : Json :=
  .record [("name", ofText t.name), ("alias", ofOption ofText t.alias?),
    ("join", ofOption Join.toJson t.join)]

def ofJson? (j : Json) : Option Table := do
  match ← j.fields? ["name", "alias", "join"] with
  | [name, alias?, join] =>
    some ⟨← required? text? name, ← optional? text? alias?, ← optional? Join.ofJson? join⟩
  | _ => none

end Table

namespace Assignments

def toJson (a : Assignments) : Json :=
  .object (a.entries.map fun (field, value) => (some field, ofText value))

/-- Of several values for one field the last counts. -/
def ofJson? (j : Json) : Option Assignments :=
  (j.members? text?).map ofList

end Assignments

namespace Select

def toJson (s : Select) : Json :=
  .record [("distinct", .bool s.distinct), ("fields", .ofList Field.toJson s.fields),
    ("tables", .ofList Table.toJson s.tables), ("where_clause", ofOption ofText s.condition),
    ("group_by", ofOption ofText s.groupBy), ("having", ofOption ofText s.having),
    ("order_by", ofOption ofText s.orderBy), ("limit", ofOption ofText s.limit)]

def ofJson? (j : Json) : Option Select := do
  match ← j.fields?
      ["distinct", "fields", "tables", "where_clause", "group_by", "having", "order_by", "limit"] with
  | [distinct, fields, tables, condition, groupBy, having, orderBy, limit] =>
    some {
      distinct := ← required? Json.bool? distinct
      fields := ← required? (Json.list? Field.ofJson?) fields
      tables := ← required? (Json.list? Table.ofJson?) tables
      condition := ← optional? text? condition
      groupBy := ← optional? text? groupBy
      having := ← optional? text? having
      orderBy := ← optional? text? orderBy
      limit := ← optional? text? limit }
  | _ => none

end Select

namespace Insert

def toJson (i : Insert) : Json :=
  .record [("table", i.table.toJson), ("fields", .ofList ofText i.fields),
    ("values", .ofList ofText i.values)]

def ofJson? (j : Json) : Option Insert := do
  match ← j.fields? ["table", "fields", "values"] with
  | [table, fields, values] =>
    some ⟨← required? Table.ofJson? table, ← required? (Json.list? text?) fields,
      ← required? (Json.list? text?) values⟩
  | _ => none

end Insert

namespace Update

def toJson (u : Update) : Json :=
  .record [("table", u.table.toJson), ("assignments", u.assignments.toJson),
    ("where_clause", ofOption ofText u.condition)]

def ofJson? (j : Json) : Option Update := do
  match ← j.fields? ["table", "assignments", "where_clause"] with
  | [table, assignments, condition] =>
    some ⟨← required? Table.ofJson? table, ← required? Assignments.ofJson? assignments,
      ← optional? text? condition⟩
  | _ => none

end Update

namespace Delete

def toJson (d : Delete) : Json :=
  .record [("table", d.table.toJson), ("where_clause", ofOption ofText d.condition)]

def ofJson? (j : Json) : Option Delete := do
  match ← j.fields? ["table", "where_clause"] with
  | [table, condition] => some ⟨← required? Table.ofJson? table, ← optional? text? condition⟩
  | _ => none

end Delete

namespace Degraded

def toJson (d : Degraded) : Json :=
  .record [("kind", d.kind.toJson), ("original", ofText d.verbatim), ("reason", d.reason.toJson)]

def ofJson? (j : Json) : Option Degraded := do
  match ← j.fields? ["kind", "original", "reason"] with
  | [kind, verbatim, reason] =>
    some ⟨← required? Kind.ofJson? kind, ← required? text? verbatim,
      ← required? ParseError.ofJson? reason⟩
  | _ => none

end Degraded

namespace Statement

def toJson : Statement → Json
  | select s => .tagged "Select" s.toJson
  | insert i => .tagged "Insert" i.toJson
  | update u => .tagged "Update" u.toJson
  | delete d => .tagged "Delete" d.toJson
  | degraded d => .tagged "Degraded" d.toJson

def ofJson? (j : Json) : Option Statement := do
  let (tag, content) ← j.alternative?
  let content ← content
  if tag = "Select".toList then (Select.ofJson? content).map select
  else if tag = "Insert".toList then (Insert.ofJson? content).map insert
  else if tag = "Update".toList then (Update.ofJson? content).map update
  else if tag = "Delete".toList then (Delete.ofJson? content).map delete
  else if tag = "Degraded".toList then (Degraded.ofJson? content).map degraded
  else none

end Statement

namespace Renames

def toJson (r : Renames) : Json :=
  .object (r.entries.map fun (old, new) => (some old, ofText new))

/-- Reads an object of names. Its keys are lowered like all old names. -/
def ofJson? (j : Json) : Option Renames :=
  (j.members? text?).map ofList

end Renames

end SqlEdit
