import SqlEdit.Statement.Basic

namespace SqlEdit

def Text.commaList (ts : List Text) : Text :=
  Text.join ", ".toList ts

def Keyword.renderClause (k : Keyword) : Option Text → Text
  | some body => ' ' :: k.text ++ ' ' :: body
  | none => []

def Field.render (f : Field) : Text :=
  match f.alias? with
  | some a => f.expression ++ " AS ".toList ++ a
  | none => f.expression

def Table.render (t : Table) : Text :=
  match t.alias? with
  | some a => t.name ++ ' ' :: a
  | none => t.name

def Constraint.render : Constraint → Text
  | onCondition condition => "ON ".toList ++ condition
  | usingColumns columns => "USING ".toList ++ columns

namespace Table

def constraint? (t : Table) : Option Constraint :=
  t.join.bind (·.constraint)

def renderJoined (t : Table) : Text :=
  match t.constraint? with
  | some c => t.render ++ ' ' :: c.render
  | none => t.render

/-- What stands between a table and what comes before it; `isFirst` if that is no other table. -/
def link (isFirst : Bool) (t : Table) : Text :=
  match t.join with
  | some j => ' ' :: j.operator ++ [' ']
  | none => if isFirst then [] else ", ".toList

def renderList : List Table → Text
  | [] => []
  | t :: ts => t.link true ++ t.renderJoined ++ ts.flatMap fun u => u.link false ++ u.renderJoined

end Table

namespace Select

def clauses (s : Select) : List (Keyword × Option Text) :=
  [(.condition, s.condition), (.groupBy, s.groupBy), (.having, s.having), (.orderBy, s.orderBy),
    (.limit, s.limit)]

def render (s : Select) : Text :=
  "SELECT ".toList ++ (if s.distinct then "DISTINCT ".toList else []) ++
    Text.commaList (s.fields.map Field.render) ++ " FROM ".toList ++ Table.renderList s.tables ++
    s.clauses.flatMap fun (k, body) => k.renderClause body

end Select

def Insert.render (i : Insert) : Text :=
  "INSERT INTO ".toList ++ i.table.render ++ " (".toList ++ Text.commaList i.fields ++
    ") VALUES (".toList ++ Text.commaList i.values ++ [')']

def Update.render (u : Update) : Text :=
  "UPDATE ".toList ++ u.table.render ++ " SET ".toList ++
    Text.commaList (u.assignments.entries.map fun (field, value) => field ++ " = ".toList ++ value) ++
    Keyword.condition.renderClause u.condition

def Delete.render (d : Delete) : Text :=
  "DELETE FROM ".toList ++ d.table.render ++ Keyword.condition.renderClause d.condition

/-- The text of a statement; that of a degraded statement is the text it was read from. -/
def Statement.render : Statement → Text
  | select s => s.render
  | insert i => i.render
  | update u => u.render
  | delete d => d.render
  | degraded d => d.verbatim

end SqlEdit
