import SqlEdit.Assignments
import SqlEdit.ParseError

namespace SqlEdit

structure Field where
  expression : Text
  alias? : Option Text
  deriving DecidableEq

def Field.texts (f : Field) : List Text :=
  f.expression :: f.alias?.toList

inductive Constraint where
  | onCondition (condition : Text)
  | usingColumns (columns : Text)
  deriving DecidableEq

def Constraint.texts : Constraint → List Text
  | onCondition condition => [condition]
  | usingColumns columns => [columns]

structure Join where
  operator : Text
  constraint : Option Constraint
  deriving DecidableEq

def Join.texts (j : Join) : List Text :=
  j.operator :: j.constraint.toList.flatMap Constraint.texts

/-- A table with its alias. A table without a join comes first or behind a comma. -/
structure Table where
  name : Text
  alias? : Option Text
  join : Option Join
  deriving DecidableEq

def Table.named (name : Text) (alias? : Option Text) : Table :=
  ⟨name, alias?, none⟩

def Table.texts (t : Table) : List Text :=
  t.name :: t.alias?.toList ++ t.join.toList.flatMap Join.texts

structure Select where
  distinct : Bool
  fields : List Field
  tables : List Table
  condition : Option Text
  groupBy : Option Text
  having : Option Text
  orderBy : Option Text
  limit : Option Text
  deriving DecidableEq

def Select.texts (s : Select) : List Text :=
  s.fields.flatMap Field.texts ++ s.tables.flatMap Table.texts ++
    [s.condition, s.groupBy, s.having, s.orderBy, s.limit].flatMap Option.toList

structure Insert where
  table : Table
  fields : List Text
  values : List Text
  deriving DecidableEq

def Insert.texts (i : Insert) : List Text :=
  i.table.texts ++ i.fields ++ i.values

structure Update where
  table : Table
  assignments : Assignments
  condition : Option Text
  deriving DecidableEq

def Update.texts (u : Update) : List Text :=
  u.table.texts ++ u.assignments.keys ++ u.assignments.values ++ u.condition.toList

structure Delete where
  table : Table
  condition : Option Text
  deriving DecidableEq

def Delete.texts (d : Delete) : List Text :=
  d.table.texts ++ d.condition.toList

/-- A statement whose structure could not be read. Its text is kept, and no edit changes it. -/
structure Degraded where
  kind : Kind
  verbatim : Text
  reason : ParseError
  deriving DecidableEq

inductive Statement where
  | select (s : Select)
  | insert (i : Insert)
  | update (u : Update)
  | delete (d : Delete)
  | degraded (d : Degraded)
  deriving DecidableEq

namespace Statement

def kind : Statement → Kind
  | select _ => .select
  | insert _ => .insert
  | update _ => .update
  | delete _ => .delete
  | degraded d => d.kind

def isDegraded : Statement → Bool
  | degraded _ => true
  | _ => false

def degradedReason? : Statement → Option ParseError
  | degraded d => some d.reason
  | _ => none

def tables : Statement → List Table
  | select s => s.tables
  | insert i => [i.table]
  | update u => [u.table]
  | delete d => [d.table]
  | degraded _ => []

def condition? : Statement → Option Text
  | select s => s.condition
  | update u => u.condition
  | delete d => d.condition
  | insert _ | degraded _ => none

def texts : Statement → List Text
  | select s => s.texts
  | insert i => i.texts
  | update u => u.texts
  | delete d => d.texts
  | degraded d => [d.verbatim]

/-- Whether two statements are equal, where the order of assignments does not matter. -/
def same : Statement → Statement → Bool
  | update u, update v =>
    u.table = v.table && u.assignments.same v.assignments && u.condition = v.condition
  | s, t => s = t

end Statement

end SqlEdit
