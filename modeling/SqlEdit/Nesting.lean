import SqlEdit.Text.Basic

namespace SqlEdit

inductive Quote where
  | single
  | double
  deriving DecidableEq

def Quote.mark : Quote → Char
  | .single => '\''
  | .double => '"'

def Quote.opened? (c : Char) : Option Quote :=
  if c = '\'' then some .single else if c = '"' then some .double else none

structure Nesting where
  quote : Option Quote
  depth : Nat
  deriving DecidableEq

namespace Nesting

def top : Nesting := ⟨none, 0⟩

def isQuoted (n : Nesting) : Bool :=
  n.quote.isSome

def isTop (n : Nesting) : Bool :=
  n.quote.isNone && n.depth == 0

/-- What is open after one more character. A closing parenthesis that closes nothing is ignored. -/
def step (n : Nesting) (c : Char) : Nesting :=
  match n.quote with
  | some q => if c = q.mark then { n with quote := none } else n
  | none =>
    if c = '(' then { n with depth := n.depth + 1 }
    else if c = ')' then { n with depth := n.depth - 1 }
    else { n with quote := Quote.opened? c }

def after (n : Nesting) (t : Text) : Nesting :=
  t.foldl step n

def bytewise (n : Nesting) : Text → List Nesting
  | [] => []
  | c :: t => List.replicate c.utf8Size n ++ bytewise (n.step c) t

def isTopAt (t : Text) (offset : Nat) : Bool :=
  (top.bytewise t)[offset]?.any isTop

@[simp]
theorem after_nil (n : Nesting) : n.after [] = n := rfl

@[simp]
theorem after_cons (n : Nesting) (c : Char) (t : Text) : n.after (c :: t) = (n.step c).after t := rfl

theorem after_append (n : Nesting) (s t : Text) : n.after (s ++ t) = (n.after s).after t :=
  List.foldl_append ..

theorem isTop_iff {n : Nesting} : n.isTop ↔ n = top := by
  obtain ⟨q, d⟩ := n
  cases q <;> simp [isTop, top]

theorem step_of_plain {n : Nesting} {c : Char} (h : c ≠ '\'' ∧ c ≠ '"' ∧ c ≠ '(' ∧ c ≠ ')') :
    n.step c = n := by
  obtain ⟨q, d⟩ := n
  cases q with
  | none => simp [step, Quote.opened?, h]
  | some q => cases q <;> simp [step, Quote.mark, h]

theorem length_bytewise (n : Nesting) (t : Text) : (n.bytewise t).length = t.byteSize := by
  induction t generalizing n with
  | nil => rfl
  | cons c t ih => simp_all [bytewise, Text.byteSize]

end Nesting

end SqlEdit
