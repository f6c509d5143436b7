import SqlEdit.Identifier.Basic
import SqlEdit.Nesting
import SqlEdit.Text.Blank

namespace SqlEdit

/-- A token is a run of identifier characters, with dots between its segments, that lies outside
literals. A mark is any other character. -/
inductive Lexeme where
  | token (name : Text)
  | mark (c : Char)
  deriving DecidableEq

namespace Lexeme

def text : Lexeme → Text
  | token name => name
  | mark c => [c]

def isSpace : Lexeme → Bool
  | token _ => false
  | mark c => SqlEdit.isSpace c

def extend (c : Char) : List Lexeme → List Lexeme
  | token name :: rest => token (c :: name) :: rest
  | rest => token [c] :: rest

/-- Whether a character belongs to a token: it is an identifier character, or a dot that follows
one and has the start of a segment behind it. -/
def inToken (before : Option Char) (c : Char) (rest : Text) : Bool :=
  Identifier.isPart c ||
    (c == '.' && before.any Identifier.isPart && rest.head?.any Identifier.isStart)

def after (before : Option Char) (n : Nesting) : Text → List Lexeme
  | [] => []
  | c :: t =>
    let rest := after (some c) (n.step c) t
    if !n.isQuoted && inToken before c t then extend c rest else mark c :: rest

def ofText (t : Text) : List Lexeme :=
  after none .top t

theorem flatMap_text_extend (c : Char) (ls : List Lexeme) :
    (extend c ls).flatMap text = c :: ls.flatMap text := by
  rcases ls with _ | ⟨_ | _, _⟩ <;> rfl

theorem flatMap_text_after (before : Option Char) (n : Nesting) (t : Text) :
    (after before n t).flatMap text = t := by
  induction t generalizing before n with
  | nil => rfl
  | cons c t ih =>
    rw [after]
    split
    · rw [flatMap_text_extend, ih]
    · rw [List.flatMap_cons, ih]
      rfl

theorem flatMap_text_ofText (t : Text) : (ofText t).flatMap text = t :=
  flatMap_text_after none .top t

end Lexeme

end SqlEdit
