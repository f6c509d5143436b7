import SqlEdit.Text.Basic

namespace SqlEdit.Identifier

def isStart (c : Char) : Bool :=
  c.isAlpha || c == '_'

/-- The characters of identifiers; every character beyond ASCII is one. -/
def isPart (c : Char) : Bool :=
  c.isAlphanum || c == '_' || 128 ≤ c.toNat

def isSegment (t : Text) : Bool :=
  t.head?.any isStart && t.all isPart

def isPlain (t : Text) : Bool :=
  (t.cut (· == '.')).all isSegment

def reservedWords : List Text :=
  ["ALL", "AND", "ANY", "AS", "ASC", "BETWEEN", "BIGINT", "BINARY", "BLOB", "BOOLEAN", "BY", "CASE",
    "CAST", "CHAR", "COLLATE", "CROSS", "CURRENT_DATE", "CURRENT_TIME", "CURRENT_TIMESTAMP", "DATE",
    "DECIMAL", "DESC", "DISTINCT", "DOUBLE", "ELSE", "END", "ESCAPE", "EXCEPT", "EXISTS", "FALSE",
    "FIRST", "FLOAT", "FROM", "FULL", "GLOB", "GROUP", "HAVING", "ILIKE", "IN", "INNER", "INT",
    "INTEGER", "INTERSECT", "INTERVAL", "IS", "ISNULL", "JOIN", "LAST", "LEFT", "LIKE", "LIMIT",
    "MATCH", "NATURAL", "NOCASE", "NOT", "NOTNULL", "NULL", "NULLS", "NUMERIC", "OFFSET", "ON", "OR",
    "ORDER", "OUTER", "REAL", "REGEXP", "RIGHT", "RTRIM", "SELECT", "SMALLINT", "SOME", "TEXT",
    "THEN", "TIMESTAMP", "TRUE", "UNION", "USING", "VARCHAR", "WHEN", "WHERE"].map String.toList

def isReserved (word : Text) : Bool :=
  reservedWords.any (Text.sameWord word)

def lastSegment (t : Text) : Text :=
  match t.cutLast? '.' with
  | some (_, segment) => segment
  | none => t

end SqlEdit.Identifier
