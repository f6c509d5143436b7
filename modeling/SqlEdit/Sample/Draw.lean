import SqlEdit.Sample.Basic

namespace SqlEdit.Sample

/-- A value that is made from bytes, with the bytes that are left. -/
abbrev Draw (α : Type) := StateM (List UInt8) α

namespace Draw

def byte : Draw UInt8
  | [] => (0, [])
  | b :: bs => (b, bs)

def below (low count : Nat) : Draw Nat := do
  return low + (← byte).toNat % count

def bool : Draw Bool := do
  return (← byte).toNat % 2 == 1

def choose (choices : Text) : Draw Char := do
  return choices.getD (← below 0 choices.length) ' '

def int64 : Draw Int64 := fun bs =>
  (Int64.ofNat ((bs.take 8).foldr (fun b n => b.toNat + 256 * n) 0), bs.drop 8)

def times {α : Type} (draw : Draw α) : Nat → Draw (List α)
  | 0 => return []
  | n + 1 => do
    let a ← draw
    let as ← times draw n
    return a :: as

def option {α : Type} (draw : Draw α) : Draw (Option α) := do
  if ← bool then return some (← draw) else return none

def letters : Text :=
  "abcdefghijklmnopqrstuvwxyz".toList

def digits : Text :=
  "0123456789".toList

def segment : Draw Text := do
  let first ← choose letters
  let rest ← times (choose (letters ++ digits)) (← below 0 5)
  return first :: rest

def ident : Draw Ident := do
  return Text.join ['_'] (← times segment (← below 1 3))

def value : Draw Value := do
  if ← bool then return .integer (← int64)
  else return .text (← times (choose "ab_ ,=()'%;".toList) (← below 0 9))

def cell : Draw Cell := do
  let i ← ident
  let v ← value
  return (i, v)

def idents : Draw (List Ident) := do
  return (← times ident (← below 1 4)).eraseDups

def valuesFor : List Ident → Draw (List Cell)
  | [] => return []
  | i :: is => do
    let v ← value
    let cells ← valuesFor is
    return (i, v) :: cells

def row : Draw (List Cell) := do
  valuesFor (← idents)

def query : Draw Query := do
  let table ← ident
  match ← below 0 4 with
  | 0 => return .select table (← idents) (← option cell) (← option byte)
  | 1 => return .insert table (← row)
  | 2 => return .update table (← row) (← option cell)
  | _ => return .delete table (← option cell)

end Draw

/-- The query that bytes give. -/
def Query.ofBytes (bytes : List UInt8) : Query :=
  (Draw.query bytes).1

end SqlEdit.Sample
