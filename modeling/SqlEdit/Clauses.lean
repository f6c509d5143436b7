import SqlEdit.Keyword

namespace SqlEdit

structure Clauses where
  head : Text
  bodies : List (Option Text)

structure Span where
  start : Nat
  stop : Nat

def Occurrence.span (o : Occurrence) : Span :=
  ⟨o.before.length, o.before.length + o.matched.length⟩

namespace Clauses

def body? (c : Clauses) (i : Nat) : Option Text :=
  c.bodies[i]?.join

def spans (keywords : List Keyword) (t : Text) : List (Option Span) :=
  keywords.map fun k => (k.find? t).map (·.span)

def nextStart (starts : List Nat) (place length : Nat) : Nat :=
  (starts.filter (place ≤ ·)).min?.getD length

def slice? (t : Text) (start stop : Nat) : Option Text :=
  let body := Text.trim ((t.take stop).drop start)
  if body = [] then none else some body

/-- A clause runs from the end of its keyword to the nearest keyword behind it. -/
def split (keywords : List Keyword) (t : Text) : Clauses :=
  let spans := spans keywords t
  let starts := (spans.filterMap id).map (·.start)
  { head := Text.trim (t.take (nextStart starts 0 t.length))
    bodies := spans.map fun span? =>
      span?.bind fun span => slice? t span.stop (nextStart starts span.stop t.length) }

theorem length_bodies_split (keywords : List Keyword) (t : Text) :
    (split keywords t).bodies.length = keywords.length := by
  simp [split, spans]

end Clauses

end SqlEdit
