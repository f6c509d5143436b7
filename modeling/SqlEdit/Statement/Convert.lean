import SqlEdit.Fragment
import SqlEdit.Log
import SqlEdit.Statement.Basic

namespace SqlEdit

def Style.convertName (style : Style) (name : Text) : Text :=
  if Identifier.isPlain name then style.convert name else name

namespace Field

def convert (style : Style) (f : Field) : Field :=
  { f with
    expression :=
      if Identifier.isPlain f.expression then style.convert f.expression
      else Fragment.convert style f.expression }

/-- Gives a plain column without alias its name in camel case as alias, if that is another name. -/
def addAlias (f : Field) : Field :=
  if f.alias?.isNone && Identifier.isPlain f.expression then
    let column := Identifier.lastSegment f.expression
    let camel := Style.toCamel column
    if camel = column then f else { f with alias? := some camel }
  else f

end Field

def Constraint.convert (style : Style) : Constraint → Constraint
  | onCondition condition => onCondition (Fragment.convert style condition)
  | usingColumns columns => usingColumns (Fragment.convert style columns)

def Join.convert (style : Style) (j : Join) : Join :=
  { j with constraint := j.constraint.map (Constraint.convert style) }

def Table.convert (style : Style) (t : Table) : Table :=
  { t with join := t.join.map (Join.convert style) }

namespace Select

def convert (style : Style) (s : Select) : Select :=
  { s with
    fields := s.fields.map (Field.convert style)
    tables := s.tables.map (Table.convert style)
    condition := s.condition.map (Fragment.convert style)
    groupBy := s.groupBy.map (Fragment.convert style)
    having := s.having.map (Fragment.convert style)
    orderBy := s.orderBy.map (Fragment.convert style) }

def addAliases (s : Select) : Select :=
  { s with fields := s.fields.map Field.addAlias }

end Select

def Insert.convert (style : Style) (i : Insert) : Insert :=
  { i with fields := i.fields.map style.convertName }

/-- Sets the converted fields one after another. If an assignment is lost on the way, two fields
would become one, and there is no result. -/
def Assignments.convert? (style : Style) (a : Assignments) : Option Assignments :=
  let converted := ofList (a.entries.map fun (field, value) => (style.convertName field, value))
  if converted.entries.length = a.entries.length then some converted else none

theorem Assignments.convert?_eq (style : Style) (a : Assignments) :
    a.convert? style =
      ofEntries? (a.entries.map fun (field, value) => (style.convertName field, value)) := by
  have hl := length_ofList_eq_iff (a.entries.map fun (field, value) => (style.convertName field, value))
  rw [List.length_map] at hl
  rw [convert?, ofEntries?]
  by_cases h : ((a.entries.map fun (field, value) => (style.convertName field, value)).map
      Prod.fst).Nodup
  · rw [dif_pos h, if_pos (hl.2 h), ofList_eq h]
  · rw [dif_neg h, if_neg (mt hl.1 h)]

def Update.convert (style : Style) (u : Update) : Logged Update :=
  let condition := u.condition.map (Fragment.convert style)
  match u.assignments.convert? style with
  | some assignments => .quiet { u with assignments, condition }
  | none => ⟨{ u with condition }, [.keysCollide u.table.name]⟩

theorem Update.convert_of_some {style : Style} {u : Update} {a : Assignments}
    (h : u.assignments.convert? style = some a) :
    u.convert style = .quiet ⟨u.table, a, u.condition.map (Fragment.convert style)⟩ := by
  rw [convert, h]

theorem Update.convert_of_none {style : Style} {u : Update}
    (h : u.assignments.convert? style = none) :
    u.convert style = ⟨⟨u.table, u.assignments, u.condition.map (Fragment.convert style)⟩,
      [.keysCollide u.table.name]⟩ := by
  rw [convert, h]

@[simp]
theorem Update.table_convert (style : Style) (u : Update) : (u.convert style).value.table = u.table := by
  rw [convert]
  cases u.assignments.convert? style <;> rfl

@[simp]
theorem Update.condition_convert (style : Style) (u : Update) :
    (u.convert style).value.condition = u.condition.map (Fragment.convert style) := by
  rw [convert]
  cases u.assignments.convert? style <;> rfl

theorem Update.entries_convert (style : Style) (u : Update) :
    (u.convert style).value.assignments.entries =
        (u.assignments.entries.map fun (field, value) => (style.convertName field, value)) ∨
      (u.convert style).value.assignments.entries = u.assignments.entries := by
  cases ha : u.assignments.convert? style with
  | none => exact .inr (by rw [convert_of_none ha])
  | some a =>
    rw [convert_of_some ha]
    rw [Assignments.convert?_eq] at ha
    exact .inl (Assignments.ofEntries?_eq_some_iff.1 ha).symm

def Delete.convert (style : Style) (d : Delete) : Delete :=
  { d with condition := d.condition.map (Fragment.convert style) }

namespace Statement

def convert (style : Style) : Statement → Logged Statement
  | select s => .quiet (.select (s.convert style))
  | insert i => .quiet (.insert (i.convert style))
  | update u => (u.convert style).map .update
  | delete d => .quiet (.delete (d.convert style))
  | degraded d => ⟨.degraded d, [.conversionSkipped d.kind]⟩

def addAliases : Statement → Statement
  | select s => .select s.addAliases
  | s => s

end Statement

end SqlEdit
