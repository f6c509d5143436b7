import SqlEdit.Identifier.Lexeme
import SqlEdit.Identifier.Style

namespace SqlEdit.Fragment

/-- Whether a token names a column, given the character before it and the lexemes behind it. Bind
parameters, variables, casts, names of functions, qualifiers and reserved words do not. -/
def namesColumn (before : Option Char) (name : Text) (rest : List Lexeme) : Bool :=
  name.head?.any Identifier.isStart &&
    !before.any [':', '@', '$', '#'].contains &&
    (rest.dropWhile Lexeme.isSpace).head? != some (.mark '(') &&
    rest.head? != some (.mark '.') &&
    !Identifier.isReserved name

def isAs (name : Text) : Bool :=
  name.sameWord ['a', 's']

def convertLexemes (style : Style) (before : Option Char) (afterAs : Bool) : List Lexeme → Text
  | [] => []
  | .mark c :: rest => c :: convertLexemes style (some c) afterAs rest
  | .token name :: rest =>
    (if !afterAs && namesColumn before name rest then style.convert name else name) ++
      convertLexemes style name.getLast? (isAs name) rest

def convert (style : Style) (fragment : Text) : Text :=
  convertLexemes style none false (Lexeme.ofText fragment)

end SqlEdit.Fragment
