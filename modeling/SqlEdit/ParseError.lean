import SqlEdit.Keyword.Names

namespace SqlEdit

inductive Kind where
  | select
  | insert
  | update
  | delete
  deriving DecidableEq

namespace Kind

def all : List Kind :=
  [select, insert, update, delete]

def keyword : Kind → Keyword
  | select => .select
  | insert => .insert
  | update => .update
  | delete => .delete

def detect? (t : Text) : Option (Kind × Text) :=
  all.findSome? fun kind => (kind.keyword.strip? t).map (kind, ·)

end Kind

inductive ParseError where
  | emptyStatement
  | unsupportedKind (word : Text)
  | missingFrom
  | emptyFieldList
  | emptyTableList
  | malformedTableList (group : Text)
  | malformedInsert
  | malformedUpdate
  | malformedDelete
  deriving DecidableEq

namespace ParseError

def message : ParseError → Text
  | emptyStatement => "Empty SQL statement".toList
  | unsupportedKind word => "Unsupported statement kind: '".toList ++ word ++ ['\'']
  | missingFrom => "Invalid SELECT statement: missing FROM".toList
  | emptyFieldList => "Invalid SELECT statement: empty field list".toList
  | emptyTableList => "Invalid SELECT statement: empty table list".toList
  | malformedTableList group =>
    "Unsupported table expression in FROM clause: '".toList ++ group ++ ['\'']
  | malformedInsert => "Unable to parse INSERT statement".toList
  | malformedUpdate => "Unable to parse UPDATE statement".toList
  | malformedDelete => "Unable to parse DELETE statement".toList

/-- Whether the text is kept verbatim instead of being refused. -/
def isDegradable : ParseError → Bool
  | malformedInsert | malformedUpdate | malformedDelete => true
  | _ => false

end ParseError

end SqlEdit
