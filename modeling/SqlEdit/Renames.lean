import SqlEdit.Unicode.Lower

namespace SqlEdit

open Unicode (lowerText)

structure Renames where
  entries : List (Text × Text)
  sorted : entries.Pairwise fun a b => a.1 < b.1
  deriving DecidableEq

namespace Renames

def insertEntry (key new : Text) : List (Text × Text) → List (Text × Text)
  | [] => [(key, new)]
  | (k, v) :: rest =>
    if key < k then (key, new) :: (k, v) :: rest
    else if key = k then (key, new) :: rest
    else (k, v) :: insertEntry key new rest

theorem mem_insertEntry {key new : Text} {es : List (Text × Text)} {e : Text × Text}
    (h : e ∈ insertEntry key new es) : e = (key, new) ∨ e ∈ es := by
  induction es with
  | nil => exact .inl (List.mem_singleton.1 h)
  | cons a es ih => grind [insertEntry]

theorem sorted_insertEntry {key new : Text} {es : List (Text × Text)}
    (h : es.Pairwise fun a b => a.1 < b.1) :
    (insertEntry key new es).Pairwise fun a b => a.1 < b.1 := by
  induction es with
  | nil => exact List.pairwise_singleton ..
  | cons e es ih =>
    obtain ⟨k, v⟩ := e
    obtain ⟨hk, hes⟩ := List.pairwise_cons.1 h
    rw [insertEntry]
    split
    · next hlt =>
      refine List.pairwise_cons.2 ⟨fun a ha => ?_, h⟩
      rcases List.mem_cons.1 ha with rfl | ha
      · exact hlt
      · exact List.lt_trans hlt (hk a ha)
    · split
      · next heq =>
        subst heq
        exact List.pairwise_cons.2 ⟨hk, hes⟩
      · next hnlt hne =>
        have hlt : k < key := by
          rcases Std.lt_trichotomy k key with h | h | h
          · exact h
          · exact absurd h.symm hne
          · exact absurd h hnlt
        refine List.pairwise_cons.2 ⟨fun a ha => ?_, ih hes⟩
        rcases mem_insertEntry ha with rfl | ha
        · exact hlt
        · exact hk a ha

def empty : Renames := ⟨[], .nil⟩

/-- The new name of a table, whatever the case of its old name. -/
def get? (r : Renames) (name : Text) : Option Text :=
  r.entries.lookup (lowerText name)

def insert (r : Renames) (old new : Text) : Renames :=
  ⟨insertEntry (lowerText old) new r.entries, sorted_insertEntry r.sorted⟩

def erase (r : Renames) (old : Text) : Renames :=
  ⟨r.entries.filter (·.1 ≠ lowerText old), r.sorted.filter _⟩

theorem lookup_cons (k v x : Text) (es : List (Text × Text)) :
    ((k, v) :: es).lookup x = if x = k then some v else es.lookup x := by
  rw [List.lookup_cons]
  by_cases h : x = k
  · rw [if_pos h, beq_iff_eq.2 h]
  · rw [if_neg h, beq_false_of_ne h]

theorem lookup_insertEntry (key new x : Text) (es : List (Text × Text)) :
    (insertEntry key new es).lookup x = if x = key then some new else es.lookup x := by
  induction es with
  | nil => exact lookup_cons ..
  | cons e es ih =>
    obtain ⟨k, v⟩ := e
    rw [insertEntry]
    split
    · exact lookup_cons ..
    · split
      · next h =>
        subst h
        rw [lookup_cons, lookup_cons]
        split <;> rfl
      · next h =>
        rw [lookup_cons, lookup_cons, ih]
        split
        · next hx => rw [if_neg (hx ▸ Ne.symm h)]
        · rfl

theorem lookup_filter_ne (key x : Text) (es : List (Text × Text)) :
    (es.filter (·.1 ≠ key)).lookup x = if x = key then none else es.lookup x := by
  induction es with
  | nil => simp
  | cons e es ih =>
    obtain ⟨k, v⟩ := e
    rw [List.filter_cons]
    split
    · next h =>
      rw [lookup_cons, lookup_cons, ih]
      split
      · next hx => rw [if_neg (hx ▸ of_decide_eq_true h)]
      · rfl
    · next h =>
      obtain rfl : k = key := by simpa using h
      rw [ih, lookup_cons]
      split <;> rfl

theorem get?_congr {r : Renames} {name other : Text} (h : lowerText name = lowerText other) :
    r.get? name = r.get? other := by
  rw [get?, h, get?]

/-- The latest rename of a name wins, and no other name is touched. -/
theorem get?_insert (r : Renames) (old new name : Text) :
    (r.insert old new).get? name = if lowerText name = lowerText old then some new else r.get? name :=
  lookup_insertEntry ..

theorem get?_erase (r : Renames) (old name : Text) :
    (r.erase old).get? name = if lowerText name = lowerText old then none else r.get? name :=
  lookup_filter_ne ..

def getThenInsert? (r : Renames) (old new : Text) : Option Text × Renames :=
  (r.get? old, r.insert old new)

def getThenErase? (r : Renames) (old : Text) : Option Text × Renames :=
  (r.get? old, r.erase old)

def size (r : Renames) : Nat :=
  r.entries.length

def isEmpty (r : Renames) : Bool :=
  r.entries.isEmpty

def insertList (r : Renames) (pairs : List (Text × Text)) : Renames :=
  pairs.foldl (fun r (old, new) => r.insert old new) r

def ofList (pairs : List (Text × Text)) : Renames :=
  empty.insertList pairs

def render (r : Renames) : Text :=
  Text.join ", ".toList (r.entries.map fun (old, new) => old ++ " -> ".toList ++ new)

end Renames

end SqlEdit
