namespace SqlEdit.Unicode

structure Run where
  first : Nat
  last : Nat
  step : Nat

def Run.contains (r : Run) (n : Nat) : Bool :=
  r.first ≤ n && n ≤ r.last && (n - r.first) % r.step == 0

def Run.covers (rs : List Run) (c : Char) : Bool :=
  rs.any (·.contains c.toNat)

/-- A run whose code points a mapping moves by one distance. -/
structure Shift where
  run : Run
  distance : Int

def Shift.move (ss : List Shift) (c : Char) : Char :=
  match ss.find? (·.run.contains c.toNat) with
  | some s => Char.ofNat (c.toNat + s.distance).toNat
  | none => c

end SqlEdit.Unicode
