import SqlEdit.Statement.Render

namespace SqlEdit.Sample

def decimal (n : Int) : Text :=
  if n < 0 then '-' :: Nat.toDigits 10 n.natAbs else Nat.toDigits 10 n.natAbs

inductive Value where
  | integer (n : Int64)
  | text (t : Text)
  deriving DecidableEq

def Value.render : Value → Text
  | integer n => decimal n.toInt
  | text t => '\'' :: t.flatMap (fun c => if c = '\'' then ['\'', '\''] else [c]) ++ ['\'']

abbrev Ident := Text

def columnName (i : Ident) : Text :=
  "c_".toList ++ i

def tableName (i : Ident) : Text :=
  "t_".toList ++ i

/-- A column with a value: an entry of a row, or the condition that they are equal. -/
abbrev Cell := Ident × Value

def renderEqual : Cell → Text
  | (i, v) => columnName i ++ " = ".toList ++ v.render

inductive Query where
  | select (table : Ident) (columns : List Ident) (filter : Option Cell) (limit : Option UInt8)
  | insert (table : Ident) (row : List Cell)
  | update (table : Ident) (row : List Cell) (filter : Option Cell)
  | delete (table : Ident) (filter : Option Cell)
  deriving DecidableEq

namespace Query

def table : Query → Ident
  | select t .. | insert t .. | update t .. | delete t .. => t

def filter? : Query → Option Cell
  | select _ _ filter _ | update _ _ filter | delete _ filter => filter
  | insert .. => none

/-- The columns that a query reads or writes beside those of its condition. -/
def mentioned : Query → List Ident
  | select _ columns .. => columns
  | insert _ row | update _ row _ => row.map Prod.fst
  | delete .. => []

def columns (q : Query) : List Text :=
  ((q.mentioned ++ q.filter?.toList.map Prod.fst).map columnName).eraseDups

def schema (q : Query) : Text :=
  let columns := if q.columns = [] then ["id".toList] else q.columns
  "CREATE TABLE ".toList ++ tableName q.table ++ " (".toList ++ Text.commaList columns ++
    ");".toList

def renderCondition (q : Query) : Text :=
  Keyword.condition.renderClause (q.filter?.map renderEqual)

def render (q : Query) : Text :=
  match q with
  | select t columns _ limit =>
    "SELECT ".toList ++ Text.commaList (columns.map columnName) ++ " FROM ".toList ++ tableName t ++
      q.renderCondition ++ Keyword.limit.renderClause (limit.map fun n => decimal n.toNat)
  | insert t row =>
    "INSERT INTO ".toList ++ tableName t ++ " (".toList ++
      Text.commaList (row.map fun (i, _) => columnName i) ++ ") VALUES (".toList ++
      Text.commaList (row.map fun (_, v) => v.render) ++ [')']
  | update t row _ =>
    "UPDATE ".toList ++ tableName t ++ " SET ".toList ++ Text.commaList (row.map renderEqual) ++
      q.renderCondition
  | delete t _ => "DELETE FROM ".toList ++ tableName t ++ q.renderCondition

end Query

end SqlEdit.Sample
