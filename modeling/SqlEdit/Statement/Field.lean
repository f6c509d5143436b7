import SqlEdit.Identifier.Basic
import SqlEdit.Keyword.Names
import SqlEdit.Nesting.Cut
import SqlEdit.Statement.Basic

namespace SqlEdit.Field

def expressionEnds : List Text :=
  ["END", "NULL", "TRUE", "FALSE", "CURRENT_DATE", "CURRENT_TIME", "CURRENT_TIMESTAMP", "BINARY",
    "NOCASE", "RTRIM"].map String.toList

def isQuotedName (w : Text) : Bool :=
  2 ≤ w.length && w.head? == some '"' && w.getLast? == some '"'

def isAliasWord (w : Text) : Bool :=
  isQuotedName w || (Identifier.isPlain w && !w.contains '.' && !Identifier.isReserved w)

def endsOperand (w : Text) : Bool :=
  w.getLast?.any (fun c => Identifier.isPart c || c == ')' || c == '\'' || c == '"') &&
    (!Identifier.isReserved w || expressionEnds.any (Text.sameWord w))

/-- Splits a field at its last AS, if there is an expression before it and an alias behind it. -/
def splitAs? (t : Text) : Option Field := do
  let o ← Keyword.asAlias.findLast? t
  let expression := o.before.trimEnd
  let name := o.after.trim
  if expression = [] ∨ name = [] then none else some ⟨expression, some name⟩

def splitBare? (t : Text) : Option Field :=
  match t.splitWords.reverse with
  | name :: operand :: _ =>
    if isAliasWord name && endsOperand operand then
      some ⟨Text.trimEnd (t.take (t.length - name.length)), some name⟩
    else none
  | _ => none

def ofText? (t : Text) : Option Field :=
  if t = [] then none else some (((splitAs? t).or (splitBare? t)).getD ⟨t, none⟩)

end SqlEdit.Field
