import SqlEdit.Json.Basic

namespace SqlEdit.Json

def isJsonSpace (c : Char) : Bool :=
  c == ' ' || c == '\n' || c == '\r' || c == '\t'

def skipSpace (t : Text) : Text :=
  t.dropWhile isJsonSpace

def readExactly? (word t : Text) : Option Text :=
  if word.isPrefixOf t then some (t.drop word.length) else none

def hexValue? (c : Char) : Option Nat :=
  if c.isDigit then some (c.toNat - 48)
  else if 'a' ≤ c ∧ c ≤ 'f' then some (c.toNat - 87)
  else if 'A' ≤ c ∧ c ≤ 'F' then some (c.toNat - 55)
  else none

def readUnit? (a b c d : Char) : Option Nat := do
  some (((← hexValue? a) * 16 + (← hexValue? b)) * 256 + (← hexValue? c) * 16 + (← hexValue? d))

def unescape? (c : Char) : Option Nat :=
  if c = '"' ∨ c = '\\' ∨ c = '/' then some c.toNat
  else if c = 'b' then some 0x08
  else if c = 'f' then some 0x0C
  else if c = 'n' then some 0x0A
  else if c = 'r' then some 0x0D
  else if c = 't' then some 0x09
  else none

/-- Reads a string behind its opening quote. A character gives its code point, an escape the code
unit that it names. -/
def readUnits? : Text → Option (List Nat × Text)
  | [] => none
  | '"' :: t => some ([], t)
  | '\\' :: 'u' :: a :: b :: c :: d :: t => do
    let unit ← readUnit? a b c d
    let (units, rest) ← readUnits? t
    some (unit :: units, rest)
  | '\\' :: c :: t => do
    let unit ← unescape? c
    let (units, rest) ← readUnits? t
    some (unit :: units, rest)
  | c :: t =>
    if c = '\\' ∨ c.toNat < 0x20 then none
    else (readUnits? t).map fun (units, rest) => (c.toNat :: units, rest)

def isHighSurrogate (n : Nat) : Bool :=
  0xD800 ≤ n && n < 0xDC00

def isLowSurrogate (n : Nat) : Bool :=
  0xDC00 ≤ n && n < 0xE000

def textOfUnits? : List Nat → Option Text
  | [] => some []
  | [u] => if isHighSurrogate u || isLowSurrogate u then none else some [Char.ofNat u]
  | u :: v :: rest =>
    if isHighSurrogate u && isLowSurrogate v then
      (textOfUnits? rest).map (Char.ofNat (0x10000 + (u - 0xD800) * 0x400 + (v - 0xDC00)) :: ·)
    else if isHighSurrogate u || isLowSurrogate u then none
    else (textOfUnits? (v :: rest)).map (Char.ofNat u :: ·)

def readString? (t : Text) : Option (Option Text × Text) :=
  (readUnits? t).map fun (units, rest) => (textOfUnits? units, rest)

def readDigits? (t : Text) : Option (Text × Text) :=
  let (digits, rest) := t.span Char.isDigit
  if digits = [] then none else some (digits, rest)

def readSign (allowed : List Char) : Text → Text × Text
  | c :: t => if allowed.contains c then ([c], t) else ([], c :: t)
  | [] => ([], [])

def readInteger? : Text → Option (Text × Text)
  | '0' :: t => some (['0'], t)
  | t => readDigits? t

def readFraction? : Text → Option (Text × Text)
  | '.' :: t => (readDigits? t).map fun (digits, rest) => ('.' :: digits, rest)
  | t => some ([], t)

def readExponent? : Text → Option (Text × Text)
  | [] => some ([], [])
  | c :: t =>
    if c = 'e' ∨ c = 'E' then
      let (sign, t) := readSign ['+', '-'] t
      (readDigits? t).map fun (digits, rest) => (c :: sign ++ digits, rest)
    else some ([], c :: t)

def readNumber? (t : Text) : Option (Text × Text) := do
  let (sign, t) := readSign ['-'] t
  let (integer, t) ← readInteger? t
  let (fraction, t) ← readFraction? t
  let (exponent, t) ← readExponent? t
  some (sign ++ integer ++ fraction ++ exponent, t)

def readAtom? (t : Text) : Option (Json × Text) :=
  ((readExactly? "null".toList t).map (null, ·)).or <|
    ((readExactly? "true".toList t).map (bool true, ·)).or <|
      ((readExactly? "false".toList t).map (bool false, ·)).or <|
        (readNumber? t).map fun (literal, rest) => (number literal, rest)

mutual

/-- Reads a value with whatever space stands before it. The fuel bounds how deep the calls of the
three readers stand in one another. -/
def readValue? : Nat → Text → Option (Json × Text)
  | 0, _ => none
  | fuel + 1, t =>
    match skipSpace t with
    | '"' :: t => (readString? t).map fun (s, rest) => (string s, rest)
    | '[' :: t =>
      match skipSpace t with
      | ']' :: rest => some (array [], rest)
      | _ => (readItems? fuel t).map fun (items, rest) => (array items, rest)
    | '{' :: t =>
      match skipSpace t with
      | '}' :: rest => some (object [], rest)
      | _ => (readMembers? fuel t).map fun (members, rest) => (object members, rest)
    | t => readAtom? t

def readItems? : Nat → Text → Option (List Json × Text)
  | 0, _ => none
  | fuel + 1, t => do
    let (j, t) ← readValue? fuel t
    match skipSpace t with
    | ',' :: t => (readItems? fuel t).map fun (items, rest) => (j :: items, rest)
    | ']' :: rest => some ([j], rest)
    | _ => none

def readMembers? : Nat → Text → Option (List (Option Text × Json) × Text)
  | 0, _ => none
  | fuel + 1, t =>
    match skipSpace t with
    | '"' :: t => do
      let (key, t) ← readString? t
      match skipSpace t with
      | ':' :: t => do
        let (j, t) ← readValue? fuel t
        match skipSpace t with
        | ',' :: t => (readMembers? fuel t).map fun (members, rest) => ((key, j) :: members, rest)
        | '}' :: rest => some ([(key, j)], rest)
        | _ => none
      | _ => none
    | _ => none

end

/-- Reads a text that holds one value and, around it, nothing but space. Of any two calls that
stand in one another, the outer has read a character, so the length of the text bounds the fuel. -/
def parse? (t : Text) : Option Json := do
  let (j, rest) ← readValue? (2 * t.length + 1) t
  if skipSpace rest = [] then some j else none

end SqlEdit.Json
