import SqlEdit.Nesting

namespace SqlEdit

/-- A place in a text before one of its characters. What stands before it is listed backwards, so
that the nearest character comes first. -/
structure Site where
  before : Text
  nesting : Nesting
  after : Text

structure Occurrence where
  before : Text
  matched : Text
  after : Text
  deriving DecidableEq

namespace Site

def front (t : Text) : Site := ⟨[], .top, t⟩

def read? (s : Site) (reader : Text → Option (Text × Text)) : Option Occurrence :=
  (reader s.after).map fun (matched, rest) => ⟨s.before.reverse, matched, rest⟩

end Site

def sitesAfter (before : Text) (n : Nesting) : Text → List Site
  | [] => []
  | c :: t => ⟨before, n, c :: t⟩ :: sitesAfter (c :: before) (n.step c) t

def topSites (t : Text) : List Site :=
  (sitesAfter [] .top t).filter (·.nesting.isTop)

namespace Occurrence

def text (o : Occurrence) : Text :=
  o.before ++ o.matched ++ o.after

def start (o : Occurrence) : Nat :=
  o.before.byteSize

def stop (o : Occurrence) : Nat :=
  o.start + o.matched.byteSize

end Occurrence

/-- A place splits the text, and what is open there is what is open after what stands before. -/
theorem of_mem_sitesAfter {before t : Text} {n : Nesting} {s : Site}
    (h : s ∈ sitesAfter before n t) :
    ∃ front, s.before = front.reverse ++ before ∧ t = front ++ s.after ∧ s.nesting = n.after front := by
  induction t generalizing before n with
  | nil => simp [sitesAfter] at h
  | cons c t ih =>
    rw [sitesAfter, List.mem_cons] at h
    rcases h with rfl | h
    · exact ⟨[], rfl, rfl, rfl⟩
    · obtain ⟨front, hb, ht, hn⟩ := ih h
      exact ⟨c :: front, by simp [hb], by rw [ht, List.cons_append], hn⟩

theorem of_mem_topSites {t : Text} {s : Site} (h : s ∈ topSites t) :
    t = s.before.reverse ++ s.after ∧ Nesting.top.after s.before.reverse = .top := by
  obtain ⟨hs, htop⟩ := List.mem_filter.1 h
  obtain ⟨front, hb, ht, hn⟩ := of_mem_sitesAfter hs
  rw [hb, List.append_nil, List.reverse_reverse]
  exact ⟨ht, hn ▸ Nesting.isTop_iff.1 htop⟩

def Text.occurrences (token t : Text) : List Occurrence :=
  if token = [] then [] else (topSites t).filterMap (·.read? (Text.readWord? token))

def Text.findFrom? (token : Text) (offset : Nat) (t : Text) : Option Occurrence :=
  (occurrences token t).find? (offset ≤ ·.start)

end SqlEdit
