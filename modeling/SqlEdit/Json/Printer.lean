import SqlEdit.Json.Basic

namespace SqlEdit.Json

def hexDigit (n : Nat) : Char :=
  if n < 10 then Char.ofNat (48 + n) else Char.ofNat (87 + n)

def escape (c : Char) : Text :=
  if c = '"' then ['\\', '"']
  else if c = '\\' then ['\\', '\\']
  else if c = '\x08' then ['\\', 'b']
  else if c = '\x0c' then ['\\', 'f']
  else if c = '\n' then ['\\', 'n']
  else if c = '\r' then ['\\', 'r']
  else if c = '\t' then ['\\', 't']
  else if c.toNat < 0x20 then
    ['\\', 'u', '0', '0', hexDigit (c.toNat / 16), hexDigit (c.toNat % 16)]
  else [c]

def quote (t : Text) : Text :=
  '"' :: t.flatMap escape ++ ['"']

mutual

def render : Json → Text
  | null => "null".toList
  | bool true => "true".toList
  | bool false => "false".toList
  | number literal => literal
  | string s => quote (s.getD [])
  | array items => '[' :: renderItems items ++ [']']
  | object members => '{' :: renderMembers members ++ ['}']

def renderItems : List Json → Text
  | [] => []
  | [j] => render j
  | j :: js => render j ++ ',' :: renderItems js

def renderMembers : List (Option Text × Json) → Text
  | [] => []
  | [(key, j)] => quote (key.getD []) ++ ':' :: render j
  | (key, j) :: ms => quote (key.getD []) ++ ':' :: render j ++ ',' :: renderMembers ms

end

end SqlEdit.Json
