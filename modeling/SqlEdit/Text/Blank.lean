import SqlEdit.Text.Basic

namespace SqlEdit

def isBlank (c : Char) : Bool :=
  let n := c.toNat
  (9 ≤ n && n ≤ 13) || n == 0x20 || n == 0x85 || n == 0xA0 || n == 0x1680 ||
    (0x2000 ≤ n && n ≤ 0x200A) || n == 0x2028 || n == 0x2029 || n == 0x202F || n == 0x205F ||
    n == 0x3000

/-- Space, tab, line feed, form feed and carriage return. The vertical tab is not among them. -/
def isSpace (c : Char) : Bool :=
  c == ' ' || c == '\t' || c == '\n' || c == '\x0c' || c == '\r'

theorem isBlank_of_isSpace {c : Char} (h : isSpace c) : isBlank c := by
  simp only [isSpace, Bool.or_eq_true, beq_iff_eq] at h
  rcases h with (((rfl | rfl) | rfl) | rfl) | rfl <;> decide

namespace Text

def isBlank (t : Text) : Bool :=
  t.all SqlEdit.isBlank

def trimStart (t : Text) : Text :=
  t.dropWhile SqlEdit.isBlank

def trimEnd (t : Text) : Text :=
  (t.reverse.dropWhile SqlEdit.isBlank).reverse

def trim (t : Text) : Text :=
  trimEnd (trimStart t)

theorem exists_eq_trim (t : Text) :
    ∃ front back, isBlank front ∧ isBlank back ∧ t = front ++ trim t ++ back := by
  refine ⟨t.takeWhile SqlEdit.isBlank,
    ((trimStart t).reverse.takeWhile SqlEdit.isBlank).reverse, ?_, ?_, ?_⟩
  · exact List.all_takeWhile
  · exact List.all_reverse.trans List.all_takeWhile
  · rw [trim, trimEnd, List.append_assoc, ← List.reverse_append, List.takeWhile_append_dropWhile,
      List.reverse_reverse, trimStart, List.takeWhile_append_dropWhile]

theorem trim_eq_nil_iff {t : Text} : trim t = [] ↔ isBlank t := by
  constructor
  · intro h
    obtain ⟨front, back, hf, hb, ht⟩ := exists_eq_trim t
    rw [h, List.append_nil] at ht
    rw [ht, isBlank, List.all_append, Bool.and_eq_true]
    exact ⟨hf, hb⟩
  · intro h
    have hs : trimStart t = [] := by
      induction t with
      | nil => rfl
      | cons c t ih =>
        rw [isBlank, List.all_cons, Bool.and_eq_true] at h
        obtain ⟨hc, ht⟩ := h
        rw [trimStart, List.dropWhile_cons_of_pos hc]
        exact ih ht
    rw [trim, hs]
    rfl

def firstWord (t : Text) : Text :=
  (trimStart t).takeWhile (!SqlEdit.isBlank ·)

def spacedWords (t : Text) : List Text :=
  (cut isSpace t).filter (· ≠ [])

end Text

end SqlEdit
