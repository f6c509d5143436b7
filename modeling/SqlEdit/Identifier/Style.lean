import SqlEdit.Identifier.Basic
import SqlEdit.Unicode.Lower
import SqlEdit.Unicode.Upper
import SqlEdit.Unicode.Uppercase

namespace SqlEdit

open Unicode (lower upper isUppercase)

inductive Style where
  | camel
  | snake
  deriving DecidableEq

namespace Style

def capitalize : Text → Text
  | [] => []
  | c :: t => upper c ++ t.flatMap lower

/-- Joins the words between underscores. The first is lowered, the others are capitalized; empty
words leave nothing. -/
def toCamel (segment : Text) : Text :=
  match segment.cut (· == '_') with
  | [] => []
  | first :: others => first.flatMap lower ++ others.flatMap capitalize

/-- Lowers every character, with an underscore before each upper-case one but the first. -/
def toSnake : Text → Text
  | [] => []
  | c :: t => lower c ++ t.flatMap fun d => if isUppercase d then '_' :: lower d else lower d

def apply : Style → Text → Text
  | camel => toCamel
  | snake => toSnake

def convert (style : Style) (identifier : Text) : Text :=
  match identifier.cutLast? '.' with
  | some (qualifier, segment) => qualifier ++ '.' :: style.apply segment
  | none => style.apply identifier

end Style

end SqlEdit
