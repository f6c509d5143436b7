import SqlEdit.Text.Basic

namespace SqlEdit

structure Assignments where
  entries : List (Text × Text)
  nodup : (entries.map Prod.fst).Nodup
  deriving DecidableEq

namespace Assignments

def empty : Assignments := ⟨[], .nil⟩

def keys (a : Assignments) : List Text :=
  a.entries.map Prod.fst

def values (a : Assignments) : List Text :=
  a.entries.map Prod.snd

def ofEntries? (entries : List (Text × Text)) : Option Assignments :=
  if h : (entries.map Prod.fst).Nodup then some ⟨entries, h⟩ else none

theorem ofEntries?_eq_some_iff {es : List (Text × Text)} {a : Assignments} :
    ofEntries? es = some a ↔ es = a.entries := by
  obtain ⟨entries, hn⟩ := a
  rw [ofEntries?]
  constructor
  · intro h
    split at h
    · exact congrArg Assignments.entries (Option.some.inj h)
    · simp at h
  · rintro rfl
    rw [dif_pos hn]

/-- Gives a field a value. A field that is there keeps its place, a new one comes last. -/
def setEntry (key value : Text) : List (Text × Text) → List (Text × Text)
  | [] => [(key, value)]
  | (k, v) :: rest => if k = key then (key, value) :: rest else (k, v) :: setEntry key value rest

theorem mem_map_fst_setEntry {key value : Text} {es : List (Text × Text)} {x : Text} :
    x ∈ (setEntry key value es).map Prod.fst ↔ x = key ∨ x ∈ es.map Prod.fst := by
  induction es with
  | nil => simp [setEntry]
  | cons e es ih =>
    obtain ⟨k, v⟩ := e
    rw [setEntry]
    split
    · next h => simp [h]
    · rw [List.map_cons, List.mem_cons, ih, List.map_cons, List.mem_cons, or_left_comm]

theorem nodup_setEntry {key value : Text} {es : List (Text × Text)}
    (h : (es.map Prod.fst).Nodup) : ((setEntry key value es).map Prod.fst).Nodup := by
  induction es with
  | nil => simp [setEntry]
  | cons e es ih =>
    obtain ⟨k, v⟩ := e
    rw [List.map_cons, List.nodup_cons] at h
    rw [setEntry]
    split
    · next hk =>
      subst hk
      rw [List.map_cons, List.nodup_cons]
      exact h
    · next hk =>
      rw [List.map_cons, List.nodup_cons, mem_map_fst_setEntry, not_or]
      exact ⟨⟨hk, h.1⟩, ih h.2⟩

theorem setEntry_of_not_mem {key value : Text} {es : List (Text × Text)} (h : key ∉ es.map Prod.fst) :
    setEntry key value es = es ++ [(key, value)] := by
  induction es with
  | nil => rfl
  | cons e es ih =>
    obtain ⟨k, v⟩ := e
    rw [List.map_cons, List.mem_cons, not_or] at h
    rw [setEntry, if_neg (Ne.symm h.1), ih h.2, List.cons_append]

def set (a : Assignments) (key value : Text) : Assignments :=
  ⟨setEntry key value a.entries, nodup_setEntry a.nodup⟩

def ofList (entries : List (Text × Text)) : Assignments :=
  entries.foldl (fun a (key, value) => a.set key value) empty

theorem foldl_set_cons (a : Assignments) (k v : Text) (es : List (Text × Text)) :
    ((k, v) :: es).foldl (fun a (key, value) => a.set key value) a =
      es.foldl (fun a (key, value) => a.set key value) (a.set k v) := rfl

theorem length_setEntry_of_mem {key value : Text} {es : List (Text × Text)}
    (h : key ∈ es.map Prod.fst) : (setEntry key value es).length = es.length := by
  induction es with
  | nil => exact absurd h List.not_mem_nil
  | cons e es ih =>
    obtain ⟨k, v⟩ := e
    rw [setEntry]
    split
    · rfl
    · next hk =>
      rw [List.map_cons, List.mem_cons] at h
      rw [List.length_cons, ih (h.resolve_left (Ne.symm hk)), List.length_cons]

theorem entries_foldl_set (a : Assignments) {es : List (Text × Text)}
    (h : ((a.entries ++ es).map Prod.fst).Nodup) :
    (es.foldl (fun a (key, value) => a.set key value) a).entries = a.entries ++ es := by
  induction es generalizing a with
  | nil => rw [List.foldl_nil, List.append_nil]
  | cons e es ih =>
    obtain ⟨k, v⟩ := e
    have hk : k ∉ a.entries.map Prod.fst := by
      rw [List.map_append, List.map_cons, List.nodup_append] at h
      exact fun hm => h.2.2 k hm k List.mem_cons_self rfl
    have he : (a.set k v).entries = a.entries ++ [(k, v)] := setEntry_of_not_mem hk
    rw [foldl_set_cons, ih, he, List.append_assoc, List.singleton_append]
    rwa [he, List.append_assoc, List.singleton_append]

theorem length_foldl_set_le (a : Assignments) (es : List (Text × Text)) :
    (es.foldl (fun a (key, value) => a.set key value) a).entries.length ≤
      a.entries.length + es.length := by
  induction es generalizing a with
  | nil => exact Nat.le_refl _
  | cons e es ih =>
    obtain ⟨k, v⟩ := e
    have hs : (a.set k v).entries.length ≤ a.entries.length + 1 := by
      by_cases hk : k ∈ a.entries.map Prod.fst
      · exact Nat.le_succ_of_le (Nat.le_of_eq (length_setEntry_of_mem hk))
      · exact Nat.le_of_eq ((congrArg List.length (setEntry_of_not_mem hk)).trans List.length_append)
    have hi := ih (a.set k v)
    rw [foldl_set_cons, List.length_cons]
    omega

theorem nodup_of_length_foldl_set (a : Assignments) (es : List (Text × Text))
    (h : (es.foldl (fun a (key, value) => a.set key value) a).entries.length =
      a.entries.length + es.length) : ((a.entries ++ es).map Prod.fst).Nodup := by
  induction es generalizing a with
  | nil => rw [List.append_nil]; exact a.nodup
  | cons e es ih =>
    obtain ⟨k, v⟩ := e
    rw [foldl_set_cons, List.length_cons] at h
    by_cases hk : k ∈ a.entries.map Prod.fst
    · have hs : (a.set k v).entries.length = a.entries.length := length_setEntry_of_mem hk
      have hle := length_foldl_set_le (a.set k v) es
      omega
    · have he : (a.set k v).entries = a.entries ++ [(k, v)] := setEntry_of_not_mem hk
      have hl : (a.set k v).entries.length = a.entries.length + 1 := by
        rw [he, List.length_append, List.length_singleton]
      have hi := ih (a.set k v) (by omega)
      rwa [he, List.append_assoc, List.singleton_append] at hi

theorem ofList_eq {es : List (Text × Text)} (h : (es.map Prod.fst).Nodup) : ofList es = ⟨es, h⟩ := by
  have he : (ofList es).entries = es := entries_foldl_set empty h
  exact mk.injEq .. ▸ he

/-- No assignment is lost exactly if the fields differ from one another. -/
theorem length_ofList_eq_iff (es : List (Text × Text)) :
    (ofList es).entries.length = es.length ↔ (es.map Prod.fst).Nodup := by
  constructor
  · intro h
    refine nodup_of_length_foldl_set empty es (h.trans ?_)
    exact (Nat.zero_add es.length).symm
  · intro h
    rw [ofList_eq h]

/-- Whether two lists of assignments give the same fields the same values, in whatever order. -/
def same (a b : Assignments) : Bool :=
  a.entries.isPerm b.entries

end Assignments

end SqlEdit
