import SqlEdit.Statement.Edit
import SqlEdit.Statement.Render

namespace SqlEdit

structure Session where
  renames : Renames
  current : Option Statement
  deriving DecidableEq

namespace Session

def start (renames : Renames) : Session := ⟨renames, none⟩

def load (s : Session) (sql : Text) : Session × Except ParseError Statement :=
  let loaded := (Statement.parseWith s.renames sql).value
  (⟨s.renames, loaded.toOption⟩, loaded)

def edit (s : Session) (e : Edit) : Session × Option Bool :=
  match s.current with
  | some t =>
    let (t, done) := (e.run t).value
    (⟨s.renames, some t⟩, done)
  | none => (s, none)

/-- Registers a rename and applies all renames to the statement. -/
def addRename (s : Session) (old new : Text) : Session :=
  let renames := s.renames.insert old new
  ⟨renames, s.current.map (Edit.applyRenames renames).apply⟩

def take (s : Session) : Session × Option Statement :=
  (⟨s.renames, none⟩, s.current)

def render (s : Session) : Text :=
  (s.current.map Statement.render).getD []

end Session

end SqlEdit
