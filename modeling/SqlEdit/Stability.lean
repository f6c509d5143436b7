import SqlEdit.Statement.Parser
import SqlEdit.Statement.Render

namespace SqlEdit

def Statement.reparse (s : Statement) : Logged (Except ParseError Statement) :=
  parseLogged s.render

def Statement.isStable (s : Statement) : Bool :=
  match s.reparse.value with
  | .ok t => t.same s
  | .error _ => false

/-- Whether a text is refused, kept verbatim, or stable as a statement. -/
def Text.isStable (sql : Text) : Bool :=
  match Statement.parse sql with
  | .ok (.degraded d) => d.verbatim = sql
  | .ok s => s.isStable
  | .error _ => true

def isStableUtf8 (bytes : ByteArray) : Bool :=
  match String.fromUTF8? bytes with
  | some s => Text.isStable s.toList
  | none => true

end SqlEdit
