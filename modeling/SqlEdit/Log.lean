import SqlEdit.ParseError

namespace SqlEdit

inductive Event where
  | keptVerbatim (kind : Kind) (reason : ParseError)
  | tableRenamed (old new : Text)
  | conversionSkipped (kind : Kind)
  | keysCollide (table : Text)
  deriving DecidableEq

namespace Event

inductive Level where
  | debug
  | warn
  deriving DecidableEq

def level : Event → Level
  | keysCollide _ => .warn
  | _ => .debug

def message : Event → Text
  | keptVerbatim .. => "keeping original text of unparsable statement".toList
  | tableRenamed .. => "renaming table".toList
  | conversionSkipped _ => "skipping identifier conversion of degraded statement".toList
  | keysCollide _ => "assignment keys collide after conversion, keeping them unchanged".toList

end Event

structure Logged (α : Type) where
  value : α
  events : List Event
  deriving DecidableEq

namespace Logged

variable {α β : Type}

def quiet (a : α) : Logged α := ⟨a, []⟩

def map (f : α → β) (l : Logged α) : Logged β := ⟨f l.value, l.events⟩

def mapList (f : α → Logged β) (as : List α) : Logged (List β) :=
  ⟨as.map fun a => (f a).value, as.flatMap fun a => (f a).events⟩

@[simp]
theorem value_quiet (a : α) : (quiet a).value = a := rfl

@[simp]
theorem events_quiet (a : α) : (quiet a).events = [] := rfl

@[simp]
theorem value_map (f : α → β) (l : Logged α) : (l.map f).value = f l.value := rfl

@[simp]
theorem events_map (f : α → β) (l : Logged α) : (l.map f).events = l.events := rfl

end Logged

end SqlEdit
