import SqlEdit.Site
import SqlEdit.Text.Blank

namespace SqlEdit

/-- The characters that glue a keyword to its neighbours. A closing quote does not. -/
def isWordChar (c : Char) : Bool :=
  c.isAlphanum || 128 ≤ c.toNat || c == '_' || c == '$' || c == '.' || c == '\x60'

structure Keyword where
  words : List Text

namespace Keyword

def ofText (t : Text) : Keyword := ⟨t.spacedWords⟩

def readSpaced? : List Text → Text → Option (Text × Text)
  | [], t => some ([], t)
  | w :: ws, t =>
    let gap := t.takeWhile isSpace
    if gap = [] then none
    else do
      let (front, rest) ← Text.readWord? w (t.dropWhile isSpace)
      let (more, rest) ← readSpaced? ws rest
      some (gap ++ front ++ more, rest)

def read? (k : Keyword) (t : Text) : Option (Text × Text) :=
  match k.words with
  | [] => some ([], t)
  | w :: ws => do
    let (front, rest) ← Text.readWord? w t
    let (more, rest) ← readSpaced? ws rest
    some (front ++ more, rest)

variable {k : Keyword} {w t matched rest : Text} {ws : List Text}

theorem readSpaced?_cons_eq_some_iff : readSpaced? (w :: ws) t = some (matched, rest) ↔
    ∃ front r more, t.takeWhile isSpace ≠ [] ∧
      Text.readWord? w (t.dropWhile isSpace) = some (front, r) ∧
      readSpaced? ws r = some (more, rest) ∧ matched = t.takeWhile isSpace ++ front ++ more := by
  simp only [readSpaced?, Option.ite_none_left_eq_some, Option.bind_eq_bind,
    Option.bind_eq_some_iff, Prod.exists, Option.some.injEq, Prod.mk.injEq]
  constructor
  · rintro ⟨hg, front, r, h₁, more, rest, h₂, rfl, rfl⟩
    exact ⟨front, r, more, hg, h₁, h₂, rfl⟩
  · rintro ⟨front, r, more, hg, h₁, h₂, rfl⟩
    exact ⟨hg, front, r, h₁, more, rest, h₂, rfl, rfl⟩

theorem eq_of_readSpaced? (h : readSpaced? ws t = some (matched, rest)) : t = matched ++ rest := by
  induction ws generalizing t matched with
  | nil =>
    obtain ⟨rfl, rfl⟩ := Prod.mk.inj (Option.some.inj h)
    rfl
  | cons w ws ih =>
    obtain ⟨front, r, more, -, h₁, h₂, rfl⟩ := readSpaced?_cons_eq_some_iff.1 h
    rw [List.append_assoc, List.append_assoc, ← ih h₂, ← (Text.readWord?_eq_some_iff.1 h₁).1,
      List.takeWhile_append_dropWhile]

theorem read?_eq_some_iff_of_words (hk : k.words = w :: ws) : k.read? t = some (matched, rest) ↔
    ∃ front r more, Text.readWord? w t = some (front, r) ∧
      readSpaced? ws r = some (more, rest) ∧ matched = front ++ more := by
  simp only [read?, hk, Option.bind_eq_bind, Option.bind_eq_some_iff, Prod.exists,
    Option.some.injEq, Prod.mk.injEq]
  constructor
  · rintro ⟨front, r, h₁, more, rest, h₂, rfl, rfl⟩
    exact ⟨front, r, more, h₁, h₂, rfl⟩
  · rintro ⟨front, r, more, h₁, h₂, rfl⟩
    exact ⟨front, r, h₁, more, rest, h₂, rfl, rfl⟩

theorem eq_of_read? (h : k.read? t = some (matched, rest)) : t = matched ++ rest := by
  cases hk : k.words with
  | nil =>
    rw [read?, hk] at h
    obtain ⟨rfl, rfl⟩ := Prod.mk.inj (Option.some.inj h)
    rfl
  | cons w ws =>
    obtain ⟨front, r, more, h₁, h₂, rfl⟩ := (read?_eq_some_iff_of_words hk).1 h
    rw [List.append_assoc, ← eq_of_readSpaced? h₂, ← (Text.readWord?_eq_some_iff.1 h₁).1]

def at? (k : Keyword) (s : Site) : Option Occurrence :=
  if s.before.head?.any isWordChar then none
  else (s.read? k.read?).filter fun o => !o.after.head?.any isWordChar

theorem at?_eq_some_iff {s : Site} {o : Occurrence} : k.at? s = some o ↔
    s.before.head?.any isWordChar = false ∧ s.before.reverse = o.before ∧
      k.read? s.after = some (o.matched, o.after) ∧ o.after.head?.any isWordChar = false := by
  obtain ⟨before, matched, after⟩ := o
  simp only [at?, Site.read?, Option.ite_none_left_eq_some, Option.filter_eq_some_iff,
    Option.map_eq_some_iff, Prod.exists, Occurrence.mk.injEq, Bool.not_eq_true, Bool.not_eq_eq_eq_not,
    Bool.not_true]
  constructor
  · rintro ⟨hb, ⟨m, r, hr, rfl, rfl, rfl⟩, ha⟩
    exact ⟨hb, rfl, hr, ha⟩
  · rintro ⟨hb, rfl, hr, ha⟩
    exact ⟨hb, ⟨matched, after, hr, rfl, rfl, rfl⟩, ha⟩

def occurrences (k : Keyword) (t : Text) : List Occurrence :=
  (topSites t).filterMap k.at?

/-- An occurrence splits the text in which it was found, at a top-level place. -/
theorem of_mem_occurrences {o : Occurrence} (h : o ∈ k.occurrences t) :
    o.text = t ∧ Nesting.top.after o.before = .top := by
  obtain ⟨s, hs, ho⟩ := List.mem_filterMap.1 h
  obtain ⟨ht, htop⟩ := of_mem_topSites hs
  obtain ⟨-, hb, hr, -⟩ := at?_eq_some_iff.1 ho
  rw [Occurrence.text, ← hb, List.append_assoc, ← eq_of_read? hr]
  exact ⟨ht.symm, htop⟩

def find? (k : Keyword) (t : Text) : Option Occurrence :=
  (k.occurrences t).head?

theorem text_of_find? {o : Occurrence} (h : k.find? t = some o) : o.text = t :=
  (of_mem_occurrences (List.mem_of_head? h)).1

def findFrom? (k : Keyword) (offset : Nat) (t : Text) : Option Occurrence :=
  (k.occurrences t).find? (offset ≤ ·.start)

def findLast? (k : Keyword) (t : Text) : Option Occurrence :=
  (k.occurrences t).getLast?

theorem findFrom?_zero (k : Keyword) (t : Text) : k.findFrom? 0 t = k.find? t := by
  rw [findFrom?, find?]
  cases k.occurrences t <;> simp

def strip? (k : Keyword) (t : Text) : Option Text :=
  (k.at? (.front t)).map (·.after)

theorem strip?_eq_some_iff_read? : k.strip? t = some rest ↔
    ∃ matched, k.read? t = some (matched, rest) ∧ rest.head?.any isWordChar = false := by
  simp only [strip?, Option.map_eq_some_iff, at?_eq_some_iff, Site.front]
  constructor
  · rintro ⟨o, ⟨-, -, hr, ha⟩, rfl⟩
    exact ⟨o.matched, hr, ha⟩
  · rintro ⟨matched, hr, ha⟩
    exact ⟨⟨[], matched, rest⟩, ⟨rfl, rfl, hr, ha⟩, rfl⟩

end Keyword

end SqlEdit
