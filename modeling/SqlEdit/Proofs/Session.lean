import Mathlib.Control.Monad.Basic
import SqlEdit.Session

namespace SqlEdit

open Unicode (lowerText)

namespace Renames

variable {r : Renames} {pairs before after : List (Text × Text)} {old new name other : Text}

def rename (r : Renames) (name : Text) : Text :=
  (r.get? name).getD name

structure Fresh (r : Renames) (pairs : List (Text × Text)) : Prop where
  nodup : (pairs.map fun p => lowerText p.1).Nodup
  absent : ∀ p ∈ pairs, r.get? p.1 = none

theorem rename_of_get? (h : r.get? name = some new) : r.rename name = new := by
  rw [rename, h, Option.getD_some]

theorem rename_of_get?_eq_none (h : r.get? name = none) : r.rename name = name := by
  rw [rename, h, Option.getD_none]

theorem insertList_append (r : Renames) (before after : List (Text × Text)) :
    r.insertList (before ++ after) = (r.insertList before).insertList after :=
  List.foldl_append

theorem get?_insert_of_absent (ho : r.get? old = none) (h : r.get? name = some other) :
    (r.insert old new).get? name = some other := by
  rw [get?_insert, if_neg, h]
  intro hn
  rw [get?_congr hn, ho] at h
  cases h

namespace Fresh

theorem cons (h : r.Fresh ((old, new) :: pairs)) :
    r.get? old = none ∧ (r.insert old new).Fresh pairs := by
  obtain ⟨hn, ha⟩ := h
  obtain ⟨hn, hd⟩ := List.nodup_cons.1 hn
  obtain ⟨ho, ha⟩ := List.forall_mem_cons.1 ha
  refine ⟨ho, hd, fun p hp => ?_⟩
  rw [get?_insert, if_neg, ha p hp]
  exact fun he => hn (List.mem_map.2 ⟨p, hp, he⟩)

theorem sublist (h : r.Fresh pairs) (hs : before.Sublist pairs) : r.Fresh before :=
  ⟨h.nodup.sublist (hs.map _), fun p hp => h.absent p (hs.subset hp)⟩

theorem append (h : r.Fresh (before ++ after)) : (r.insertList before).Fresh after := by
  induction before generalizing r with
  | nil => exact h
  | cons p before ih => exact ih h.cons.2

theorem get?_insertList (h : r.Fresh pairs) (hn : r.get? name = some new) :
    (r.insertList pairs).get? name = some new := by
  induction pairs generalizing r with
  | nil => exact hn
  | cons p pairs ih =>
      obtain ⟨ho, h⟩ := h.cons
      exact ih h (get?_insert_of_absent ho hn)

end Fresh

/-- The name that a table ends with if all renames are applied after each registration. -/
def renameOn (r : Renames) : List (Text × Text) → Text → Text
  | [], name => name
  | (old, new) :: pairs, name => (r.insert old new).renameOn pairs ((r.insert old new).rename name)

/-- Whether the renames, when all are registered, lead nowhere from the new name that a table had
before the last of them. -/
def Settles (r : Renames) (pairs : List (Text × Text)) (name : Text) : Prop :=
  pairs ≠ [] → ∀ new ∈ (r.insertList pairs.dropLast).get? name, (r.insertList pairs).rename new = new

instance (r : Renames) (pairs : List (Text × Text)) (name : Text) : Decidable (r.Settles pairs name) :=
  inferInstanceAs (Decidable (_ → _))

theorem Settles.append (h : r.Settles (before ++ after) name) :
    (r.insertList before).Settles after name := by
  intro hne
  have h := h (List.append_ne_nil_of_right_ne_nil before hne)
  rwa [List.dropLast_append_of_ne_nil hne, insertList_append, insertList_append] at h

theorem rename_rename_insert (hf : r.Fresh ((old, new) :: pairs))
    (hs : r.Settles ((old, new) :: pairs) name) :
    (r.insert old new).rename (r.rename name) = (r.insert old new).rename name := by
  cases hn : r.get? name with
  | none => rw [rename_of_get?_eq_none hn]
  | some given =>
      obtain ⟨ho, hf'⟩ := hf.cons
      have hd := hf.sublist (List.dropLast_sublist _)
      have he := hs (List.cons_ne_nil _ _) given (hd.get?_insertList hn)
      rw [rename_of_get? hn, rename_of_get? (get?_insert_of_absent ho hn)]
      cases hg : (r.insert old new).get? given with
      | none => exact rename_of_get?_eq_none hg
      | some next =>
          -- The renames that are still to come keep this one, and so it leads nowhere.
          rw [rename_of_get? hg]
          exact (rename_of_get? (hf'.get?_insertList hg)).symm.trans he

theorem renameOn_rename (hf : r.Fresh pairs) (hs : r.Settles pairs name) :
    r.renameOn pairs (r.rename name) = (r.insertList pairs).rename name := by
  induction pairs generalizing r with
  | nil => rfl
  | cons p pairs ih =>
      obtain ⟨old, new⟩ := p
      rw [renameOn, rename_rename_insert hf hs]
      have hs' : r.Settles ([(old, new)] ++ pairs) name := hs
      exact ih hf.cons.2 hs'.append

theorem settles_of_renameOn {last : Text × Text} (hf : r.Fresh (before ++ [last]))
    (h : (r.insertList before).renameOn [last] ((r.insertList before).rename name) =
      (r.insertList (before ++ [last])).rename name) :
    r.Settles (before ++ [last]) name := by
  intro _ new hn
  rw [List.dropLast_concat] at hn
  have hl : (r.insertList (before ++ [last])).get? name = some new := by
    rw [insertList_append]
    exact hf.append.get?_insertList hn
  rw [rename_of_get? hn, rename_of_get? hl] at h
  rw [insertList_append]
  exact h

end Renames

def Table.mapName (f : Text → Text) (t : Table) : Table :=
  { t with name := f t.name }

namespace Statement

variable {f g : Text → Text} {sql : Text} {s : Statement}

def mapNames (f : Text → Text) : Statement → Statement
  | select s => .select { s with tables := s.tables.map (Table.mapName f) }
  | insert i => .insert { i with table := i.table.mapName f }
  | update u => .update { u with table := u.table.mapName f }
  | delete d => .delete { d with table := d.table.mapName f }
  | degraded d => .degraded d

theorem mapNames_mapNames (f g : Text → Text) (s : Statement) :
    (s.mapNames f).mapNames g = s.mapNames (g ∘ f) := by
  cases s with
  | select s =>
      simp only [mapNames, List.map_map]
      rfl
  | insert _ | update _ | delete _ | degraded _ => rfl

theorem mapNames_id (s : Statement) : s.mapNames id = s := by
  cases s with
  | select s => exact congrArg (fun tables => select { s with tables }) (List.map_id' s.tables)
  | insert _ | update _ | delete _ | degraded _ => rfl

theorem mapNames_eq_iff : s.mapNames f = s.mapNames g ↔ ∀ t ∈ s.tables, f t.name = g t.name := by
  have ht (t : Table) : t.mapName f = t.mapName g ↔ f t.name = g t.name := by
    simp [Table.mapName]
  cases s with
  | select _ | insert _ | update _ | delete _ => simp [mapNames, tables, ht]
  | degraded _ => simp [mapNames, tables]

theorem mapNames_eq_self_iff : s.mapNames f = s ↔ ∀ t ∈ s.tables, f t.name = t.name := by
  have h := mapNames_eq_iff (s := s) (f := f) (g := id)
  rwa [mapNames_id] at h

theorem value_renameBy (f : Text → Option Text) (s : Statement) :
    (s.renameBy f).value =
      (s.mapNames fun name => (f name).getD name, s.tables.any fun t => (f t.name).isSome) := by
  have ht (t : Table) : (t.renameBy f).value = t.mapName fun name => (f name).getD name := by
    rw [Table.renameBy, Table.mapName]
    cases f t.name <;> rfl
  refine Prod.ext ?_ rfl
  cases s with
  | select s => exact congrArg (fun tables => select { s with tables }) (List.map_congr_left fun t _ => ht t)
  | insert i => exact congrArg (fun table => insert { i with table }) (ht i.table)
  | update u => exact congrArg (fun table => update { u with table }) (ht u.table)
  | delete d => exact congrArg (fun table => delete { d with table }) (ht d.table)
  | degraded d => rfl

theorem apply_applyRenames (r : Renames) (s : Statement) :
    (Edit.applyRenames r).apply s = s.mapNames r.rename :=
  congrArg Prod.fst (value_renameBy r.get? s)

end Statement

namespace Session

open Statement (mapNames)

variable {sql : Text} {s : Statement} {r : Renames} {pairs before after : List (Text × Text)}

def addRenames (σ : Session) (pairs : List (Text × Text)) : Session :=
  pairs.foldl (fun σ (old, new) => σ.addRename old new) σ

theorem current_addRename (σ : Session) (old new : Text) :
    (σ.addRename old new).current = σ.current.map (mapNames (σ.renames.insert old new).rename) :=
  Option.map_congr fun s _ => s.apply_applyRenames _

theorem addRenames_eq (σ : Session) (pairs : List (Text × Text)) :
    σ.addRenames pairs =
      ⟨σ.renames.insertList pairs, σ.current.map (mapNames (σ.renames.renameOn pairs))⟩ := by
  induction pairs generalizing σ with
  | nil =>
      have hid : mapNames (σ.renames.renameOn []) = id := funext Statement.mapNames_id
      rw [hid, Option.map_id]
      rfl
  | cons p pairs ih =>
      obtain ⟨old, new⟩ := p
      refine (ih (σ.addRename old new)).trans ?_
      rw [current_addRename, Option.map_map]
      congr 1
      exact Option.map_congr fun s _ => s.mapNames_mapNames _ _

theorem load_of_parse (h : Statement.parse sql = .ok s) (σ : Session) :
    (σ.load sql).1 = ⟨σ.renames, some (s.mapNames σ.renames.rename)⟩ := by
  have hp : (Statement.parseWith σ.renames sql).value = .ok ((Edit.applyRenames σ.renames).apply s) := by
    rw [Statement.parse] at h
    rw [Statement.parseWith, h]
    rfl
  rw [load, hp, s.apply_applyRenames]
  rfl

theorem current_addRenames_load (h : Statement.parse sql = .ok s) (r : Renames)
    (pairs : List (Text × Text)) :
    (((start r).addRenames pairs).load sql).1.current =
      some (s.mapNames (r.insertList pairs).rename) := by
  rw [addRenames_eq, load_of_parse h]
  rfl

theorem current_load_addRenames (h : Statement.parse sql = .ok s) (r : Renames)
    (before after : List (Text × Text)) :
    ((((start r).addRenames before).load sql).1.addRenames after).current =
      some (s.mapNames fun name =>
        (r.insertList before).renameOn after ((r.insertList before).rename name)) := by
  rw [addRenames_eq, load_of_parse h, addRenames_eq]
  exact congrArg some (s.mapNames_mapNames _ _)

/-- Whether a session ends with the same statement wherever among the renames it loads a text. -/
def LoadsAnywhere (r : Renames) (pairs : List (Text × Text)) (sql : Text) : Prop :=
  ∀ before after, before ++ after = pairs →
    ((((start r).addRenames before).load sql).1.addRenames after).current =
      (((start r).addRenames pairs).load sql).1.current

theorem loadsAnywhere_iff_settles (h : Statement.parse sql = .ok s) (hf : r.Fresh pairs) :
    LoadsAnywhere r pairs sql ↔ ∀ t ∈ s.tables, r.Settles pairs t.name := by
  simp only [LoadsAnywhere, current_load_addRenames h, current_addRenames_load h, Option.some_inj,
    Statement.mapNames_eq_iff]
  constructor
  · -- It is enough to load the text just before the last rename.
    intro hl t ht hne
    obtain ⟨before, last, rfl⟩ : ∃ before last, pairs = before ++ [last] :=
      ⟨_, _, (List.dropLast_concat_getLast hne).symm⟩
    exact Renames.settles_of_renameOn hf (hl before [last] rfl t ht) hne
  · rintro hs before after rfl t ht
    rw [Renames.insertList_append]
    exact Renames.renameOn_rename hf.append (hs t ht).append

/-- A rename that means no table of a statement acts on those that another means. -/
theorem current_addRename_iff {σ : Session} {u : Statement} {old new : Text} (hu : σ.current = some u)
    (ho : ∀ t ∈ u.tables, t.isNamed old = false) :
    (σ.addRename old new).current = σ.current ↔
      ∀ t ∈ u.tables, ∀ n ∈ σ.renames.get? t.name, n = t.name := by
  have hn : ∀ t ∈ u.tables, (σ.renames.insert old new).get? t.name = σ.renames.get? t.name := by
    intro t ht
    rw [Renames.get?_insert, if_neg (by simpa [Table.isNamed] using ho t ht)]
  rw [current_addRename, hu, Option.map_some, Option.some_inj,
    Statement.mapNames_eq_self_iff]
  refine forall₂_congr fun t ht => ?_
  rw [Renames.rename, hn t ht]
  cases σ.renames.get? t.name <;> simp

/-- Fresh renames may be registered before or after a text is loaded exactly if, once all are
registered, they lead nowhere from the names that the tables of the text had before the last of
them. A rename that means no table leaves the statement as it is exactly if no other renames a table
of it. -/
theorem loadsAnywhere_iff (h : Statement.parse sql = .ok s) (hf : r.Fresh pairs) :
    (LoadsAnywhere r pairs sql ↔ ∀ t ∈ s.tables, r.Settles pairs t.name) ∧
      ∀ (σ : Session) (u : Statement) (old new : Text), σ.current = some u →
        (∀ t ∈ u.tables, t.isNamed old = false) →
        ((σ.addRename old new).current = σ.current ↔
          ∀ t ∈ u.tables, ∀ n ∈ σ.renames.get? t.name, n = t.name) :=
  ⟨loadsAnywhere_iff_settles h hf, fun _ _ _ _ hu ho => current_addRename_iff hu ho⟩

theorem loadsAnywhere_of_join :
    let r := Renames.ofList [("user_info".toList, "t_user".toList)]
    let pairs := [("t_order".toList, "t_log".toList), ("orders".toList, "t_order".toList)]
    let sql := "SELECT id FROM USER_INFO JOIN orders USING (id)".toList
    let s := Statement.select ⟨false, [⟨"id".toList, none⟩],
      [⟨"USER_INFO".toList, none, none⟩, ⟨"orders".toList, none,
        some ⟨"JOIN".toList, some (.usingColumns "(id)".toList)⟩⟩], none, none, none, none, none⟩
    let σ := ((start r).load sql).1
    Statement.parse sql = .ok s ∧ r.Fresh pairs ∧ LoadsAnywhere r pairs sql ∧
      (σ.addRename "t_order".toList "t_log".toList).current = σ.current := by
  intro r pairs sql s σ
  have hs : Statement.parse sql = .ok s := by decide +kernel
  have hf : r.Fresh pairs := ⟨by decide +kernel, by decide +kernel⟩
  have hc : σ.current = some (s.mapNames r.rename) := congrArg current (load_of_parse hs (start r))
  obtain ⟨hl, ha⟩ := loadsAnywhere_iff hs hf
  exact ⟨hs, hf, hl.2 (by decide +kernel), (ha σ _ _ _ hc (by decide +kernel)).2 (by decide +kernel)⟩

/-- A rename that means no table makes the others lead on. -/
theorem not_loadsAnywhere_of_chain :
    let r := Renames.ofList [("a".toList, "b".toList), ("b".toList, "c".toList)]
    let sql := "DELETE FROM a".toList
    let σ := ((start r).load sql).1
    let deleteFrom (name : Text) := Statement.delete ⟨.named name none, none⟩
    Statement.parse sql = .ok (deleteFrom "a".toList) ∧ r.Fresh [("x".toList, "y".toList)] ∧
      σ.current = some (deleteFrom "b".toList) ∧
      (σ.addRename "x".toList "y".toList).current = some (deleteFrom "c".toList) ∧
      ¬ LoadsAnywhere r [("x".toList, "y".toList)] sql := by
  refine ⟨by decide +kernel, ⟨by decide +kernel, by decide +kernel⟩, by decide +kernel,
    by decide +kernel, fun h => ?_⟩
  exact absurd (h [] _ rfl) (by decide +kernel)

end Session

end SqlEdit
