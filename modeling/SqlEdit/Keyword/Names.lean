import SqlEdit.Keyword

namespace SqlEdit.Keyword

def ofString (s : String) : Keyword :=
  ofText s.toList

def select : Keyword := ofString "SELECT"
def insert : Keyword := ofString "INSERT"
def update : Keyword := ofString "UPDATE"
def delete : Keyword := ofString "DELETE"

def distinct : Keyword := ofString "DISTINCT"
def fromTables : Keyword := ofString "FROM"
def asAlias : Keyword := ofString "AS"
def intoTable : Keyword := ofString "INTO"
def values : Keyword := ofString "VALUES"
def setFields : Keyword := ofString "SET"

def condition : Keyword := ofString "WHERE"
def groupBy : Keyword := ofString "GROUP BY"
def having : Keyword := ofString "HAVING"
def orderBy : Keyword := ofString "ORDER BY"
def limit : Keyword := ofString "LIMIT"

def text (k : Keyword) : Text :=
  Text.join [' '] k.words

end SqlEdit.Keyword
