namespace SqlEdit

abbrev Text := List Char

namespace Text

/-- The text with its ASCII letters in lower case and all else as it is. -/
def foldCase (t : Text) : Text :=
  t.map Char.toLower

def sameWord (s t : Text) : Bool :=
  foldCase s == foldCase t

def byteSize : Text → Nat
  | [] => 0
  | c :: t => c.utf8Size + byteSize t

def join (separator : Text) (ts : List Text) : Text :=
  separator.intercalate ts

def cut (p : Char → Bool) : Text → List Text
  | [] => [[]]
  | c :: t => if p c then [] :: cut p t else (cut p t).modifyHead (c :: ·)

def cutLast? (separator : Char) : Text → Option (Text × Text)
  | [] => none
  | c :: t =>
    match cutLast? separator t with
    | some (front, last) => some (c :: front, last)
    | none => if c = separator then some ([], t) else none

def readWord? (word t : Text) : Option (Text × Text) :=
  let front := t.take word.length
  if sameWord word front then some (front, t.drop word.length) else none

theorem byteSize_append (s t : Text) : byteSize (s ++ t) = byteSize s + byteSize t := by
  induction s with
  | nil => exact (Nat.zero_add _).symm
  | cons c s ih => rw [List.cons_append, byteSize, ih, byteSize, Nat.add_assoc]

@[simp]
theorem length_foldCase (t : Text) : (foldCase t).length = t.length :=
  List.length_map ..

theorem length_eq_of_sameWord {s t : Text} (h : sameWord s t) : s.length = t.length := by
  rw [← length_foldCase s, eq_of_beq h, length_foldCase]

theorem join_nil_cons (separator : Text) {ts : List Text} (h : ts ≠ []) :
    join separator ([] :: ts) = separator ++ join separator ts := by
  obtain ⟨t, ts, rfl⟩ := List.exists_cons_of_ne_nil h
  rw [join, List.intercalate_cons_cons, List.nil_append, join]

theorem join_modifyHead_cons (separator : Text) (c : Char) {ts : List Text} (h : ts ≠ []) :
    join separator (ts.modifyHead (c :: ·)) = c :: join separator ts := by
  obtain ⟨t, ts, rfl⟩ := List.exists_cons_of_ne_nil h
  cases ts with
  | nil => rfl
  | cons u ts =>
    rw [List.modifyHead_cons, join, join, List.intercalate_cons_cons, List.intercalate_cons_cons]
    rfl

theorem modifyHead_ne_nil (f : Text → Text) {ts : List Text} (h : ts ≠ []) :
    ts.modifyHead f ≠ [] := by
  obtain ⟨t, ts, rfl⟩ := List.exists_cons_of_ne_nil h
  exact List.cons_ne_nil _ _

theorem cut_ne_nil (p : Char → Bool) (t : Text) : cut p t ≠ [] := by
  induction t with
  | nil => exact List.cons_ne_nil _ _
  | cons c t ih =>
    rw [cut]
    split
    · exact List.cons_ne_nil _ _
    · exact modifyHead_ne_nil _ ih

theorem join_cut (c : Char) (t : Text) : join [c] (cut (· == c) t) = t := by
  induction t with
  | nil => rfl
  | cons d t ih =>
    rw [cut]
    split
    · next h => rw [join_nil_cons _ (cut_ne_nil _ t), ih, eq_of_beq h, List.singleton_append]
    · rw [join_modifyHead_cons _ _ (cut_ne_nil _ t), ih]

theorem cutLast?_eq_none_iff {c : Char} {t : Text} : cutLast? c t = none ↔ c ∉ t := by
  induction t with
  | nil => simp [cutLast?]
  | cons d t ih =>
    rw [cutLast?, List.mem_cons, not_or, ← ih]
    cases cutLast? c t with
    | none => simp [eq_comm]
    | some p => simp

theorem eq_of_cutLast? {c : Char} {t front last : Text} (h : cutLast? c t = some (front, last)) :
    t = front ++ c :: last ∧ c ∉ last := by
  induction t generalizing front with
  | nil => simp [cutLast?] at h
  | cons d t ih =>
    rw [cutLast?] at h
    split at h
    · next front' last' hs =>
      obtain ⟨rfl, rfl⟩ := Prod.mk.inj (Option.some.inj h)
      exact ⟨congrArg (d :: ·) (ih hs).1, (ih hs).2⟩
    · next hs =>
      split at h
      · next hd =>
        obtain ⟨rfl, rfl⟩ := Prod.mk.inj (Option.some.inj h)
        exact ⟨congrArg (· :: t) hd, cutLast?_eq_none_iff.1 hs⟩
      · simp at h

theorem readWord?_eq_some_iff {word t front rest : Text} :
    readWord? word t = some (front, rest) ↔ t = front ++ rest ∧ sameWord word front := by
  rw [readWord?]
  constructor
  · intro h
    split at h
    · next hw =>
      obtain ⟨rfl, rfl⟩ := Prod.mk.inj (Option.some.inj h)
      exact ⟨(List.take_append_drop ..).symm, hw⟩
    · simp at h
  · rintro ⟨rfl, hw⟩
    have hl := length_eq_of_sameWord hw
    rw [hl, List.take_left, List.drop_left, if_pos hw]

end Text

end SqlEdit
