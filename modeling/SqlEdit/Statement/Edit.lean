import SqlEdit.Renames
import SqlEdit.Statement.Convert
import SqlEdit.Statement.Parser

namespace SqlEdit

open Unicode (lowerText)

def Table.isNamed (t : Table) (name : Text) : Bool :=
  lowerText t.name == lowerText name

def Table.renameBy (newName? : Text → Option Text) (t : Table) : Logged Table :=
  match newName? t.name with
  | some new => ⟨{ t with name := new }, [.tableRenamed t.name new]⟩
  | none => .quiet t

namespace Statement

def mapTables (f : Table → Logged Table) : Statement → Logged Statement
  | select s => (Logged.mapList f s.tables).map fun tables => .select { s with tables }
  | insert i => (f i.table).map fun table => .insert { i with table }
  | update u => (f u.table).map fun table => .update { u with table }
  | delete d => (f d.table).map fun table => .delete { d with table }
  | degraded d => .quiet (.degraded d)

def renameBy (newName? : Text → Option Text) (s : Statement) : Logged (Statement × Bool) :=
  (s.mapTables (Table.renameBy newName?)).map fun renamed =>
    (renamed, s.tables.any fun t => (newName? t.name).isSome)

def renameTable (old new : Text) : Statement → Logged (Statement × Bool) :=
  renameBy fun name => if lowerText name = lowerText old then some new else none

/-- Renames every table that has a new name. Renames do not chain. -/
def applyRenames (r : Renames) : Statement → Logged (Statement × Bool) :=
  renameBy r.get?

/-- Sets or drops the condition, and tells whether the statement can have one. A blank condition
is none. -/
def setCondition (condition : Option Text) : Statement → Statement × Bool
  | select s => (.select { s with condition := condition.filter (!Text.isBlank ·) }, true)
  | update u => (.update { u with condition := condition.filter (!Text.isBlank ·) }, true)
  | delete d => (.delete { d with condition := condition.filter (!Text.isBlank ·) }, true)
  | s => (s, false)

def parseWith (r : Renames) (sql : Text) : Logged (Except ParseError Statement) :=
  let parsed := parseLogged sql
  match parsed.value with
  | .error e => ⟨.error e, parsed.events⟩
  | .ok s =>
    let renamed := s.applyRenames r
    ⟨.ok renamed.value.1, parsed.events ++ renamed.events⟩

end Statement

inductive Edit where
  | convert (style : Style)
  | addAliases
  | renameTable (old new : Text)
  | applyRenames (r : Renames)
  | setCondition (condition : Option Text)
  deriving DecidableEq

namespace Edit

def run : Edit → Statement → Logged (Statement × Option Bool)
  | convert style, s => (s.convert style).map (·, none)
  | addAliases, s => .quiet (s.addAliases, none)
  | renameTable old new, s => (s.renameTable old new).map fun (t, done) => (t, some done)
  | applyRenames r, s => (s.applyRenames r).map fun (t, done) => (t, some done)
  | setCondition condition, s =>
    let (t, done) := s.setCondition condition
    .quiet (t, some done)

def apply (e : Edit) (s : Statement) : Statement :=
  (e.run s).value.1

def applyAll (es : List Edit) (s : Statement) : Statement :=
  es.foldl (fun s e => e.apply s) s

end Edit

end SqlEdit
