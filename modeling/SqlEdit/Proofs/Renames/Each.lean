import SqlEdit.Proofs.Renames.Lowered
import SqlEdit.Proofs.Session

namespace SqlEdit

open Unicode (lowerText)

def Renames.IsUnchained (r : Renames) : Prop :=
  ∀ e ∈ r.entries, lowerText e.2 ∉ r.entries.map Prod.fst

instance (r : Renames) : Decidable r.IsUnchained :=
  inferInstanceAs (Decidable (∀ e ∈ r.entries, _))

namespace Statement

variable {f g : Text → Option Text} {s : Statement} {es : List (Text × Text)} {r : Renames}

def renameEach : List (Text × Text) → Statement → Statement × Bool
  | [], s => (s, false)
  | (old, new) :: pairs, s =>
      let renamed := (s.renameTable old new).value
      let rest := renameEach pairs renamed.1
      (rest.1, renamed.2 || rest.2)

def findTwice (f g : Text → Option Text) (name : Text) : Option Text :=
  match f name with
  | some new => some ((g new).getD new)
  | none => g name

theorem tables_mapNames (f : Text → Text) (s : Statement) :
    (s.mapNames f).tables = s.tables.map (Table.mapName f) := by
  cases s <;> rfl

theorem renameBy_renameBy (f g : Text → Option Text) (s : Statement) :
    (((s.renameBy f).value.1.renameBy g).value.1,
      (s.renameBy f).value.2 || ((s.renameBy f).value.1.renameBy g).value.2) =
      (s.renameBy (findTwice f g)).value := by
  simp only [value_renameBy, mapNames_mapNames, tables_mapNames, List.any_map]
  refine Prod.ext (congrArg (mapNames · s) ?_) ?_
  · funext name
    rw [Function.comp_apply, findTwice]
    cases f name <;> rfl
  · rw [Bool.eq_iff_iff]
    simp only [Bool.or_eq_true, List.any_eq_true, ← exists_or, ← and_or_left]
    refine exists_congr fun t => and_congr_right fun _ => ?_
    rw [Function.comp_apply, Table.mapName, findTwice]
    cases f t.name <;> simp

theorem mapTables_of_forall {h : Table → Logged Table} (ht : ∀ t ∈ s.tables, h t = .quiet t) :
    s.mapTables h = .quiet s := by
  cases s with
  | select s =>
      have hv : s.tables.map (fun t => (h t).value) = s.tables.map id :=
        List.map_congr_left fun t hm => by rw [ht t hm]; rfl
      have he : s.tables.flatMap (fun t => (h t).events) = [] :=
        List.flatMap_eq_nil_iff.2 fun t hm => by rw [ht t hm]; rfl
      rw [mapTables, Logged.mapList, hv, he, List.map_id]
      rfl
  | insert _ | update _ | delete _ =>
      rw [mapTables, ht _ (List.mem_singleton_self _)]
      rfl
  | degraded _ => rfl

theorem renameBy_of_forall (h : ∀ t ∈ s.tables, f t.name = none) :
    s.renameBy f = .quiet (s, false) := by
  have ht : ∀ t ∈ s.tables, t.renameBy f = .quiet t := by
    intro t hm
    rw [Table.renameBy, h t hm]
  have hb : (s.tables.any fun t => (f t.name).isSome) = false := by
    simpa using h
  rw [renameBy, mapTables_of_forall ht, hb]
  rfl

theorem renameEach_eq (hl : ∀ e ∈ es, lowerText e.1 = e.1)
    (hu : ∀ e ∈ es, lowerText e.2 ∉ es.map Prod.fst) (s : Statement) :
    s.renameEach es = (s.renameBy fun name => es.lookup (lowerText name)).value := by
  induction es generalizing s with
  | nil =>
      rw [renameBy_of_forall fun _ _ => rfl]
      rfl
  | cons e es ih =>
      obtain ⟨old, new⟩ := e
      have ho : lowerText old = old := hl _ List.mem_cons_self
      have hu : ∀ e ∈ (old, new) :: es, lowerText e.2 ∉ es.map Prod.fst :=
        fun e he hm => hu e he (List.mem_cons_of_mem _ hm)
      have hn : es.lookup (lowerText new) = none := Renames.lookup_eq_none (hu _ List.mem_cons_self)
      have hf : findTwice (fun name => if lowerText name = lowerText old then some new else none)
          (fun name => es.lookup (lowerText name)) =
          fun name => ((old, new) :: es).lookup (lowerText name) := by
        funext name
        rw [findTwice, ho, Renames.lookup_cons]
        by_cases h : lowerText name = old
        · rw [if_pos h, if_pos h]
          exact congrArg (some <| ·.getD new) hn
        · rw [if_neg h, if_neg h]
      rw [← hf, ← renameBy_renameBy, ← ih (fun e he => hl e (List.mem_cons_of_mem _ he))
        fun e he => hu e (List.mem_cons_of_mem _ he)]
      rfl

theorem renameEach_of_perm (hl : r.IsLowered) (hu : r.IsUnchained) (hp : es.Perm r.entries)
    (s : Statement) : s.renameEach es = (s.applyRenames r).value := by
  have hle : ∀ e ∈ es, lowerText e.1 = e.1 := fun e he => hl e (hp.mem_iff.1 he)
  have hue : ∀ e ∈ es, lowerText e.2 ∉ es.map Prod.fst := by
    intro e he
    rw [(hp.map Prod.fst).mem_iff]
    exact hu e (hp.mem_iff.1 he)
  rw [renameEach_eq hle hue, applyRenames]
  simp only [Renames.lookup_perm hp r.nodup_keys]
  rfl

/-- Renames find nothing among the tables that they left behind. -/
theorem applyRenames_applyRenames (hu : r.IsUnchained) (s : Statement) :
    (s.applyRenames r).value.1.applyRenames r = .quiet ((s.applyRenames r).value.1, false) := by
  have hnone (name : Text) : r.get? ((r.get? name).getD name) = none := by
    cases h : r.get? name with
    | none => exact h
    | some new =>
        exact Renames.lookup_eq_none (hu _ ((Renames.lookup_eq_some_iff r.nodup_keys).1 h))
  refine renameBy_of_forall fun t ht => ?_
  rw [applyRenames, value_renameBy, tables_mapNames] at ht
  obtain ⟨u, -, rfl⟩ := List.mem_map.1 ht
  exact hnone u.name

theorem renameTable_eq (s : Statement) (old new : Text) :
    s.renameTable old new = s.applyRenames (.ofList [(old, new)]) := by
  refine congrArg (renameBy · s) (funext fun name => ?_)
  rw [Renames.ofList, Renames.insertList, List.foldl_cons, List.foldl_nil, Renames.get?_insert]
  rfl

/-- Renames that do not lead on from one another can be applied at once or one by one, in any order,
and only once. -/
theorem renameEach_eq_applyRenames (s : Statement) :
    (∀ r : Renames, r.IsLowered → r.IsUnchained →
      (∀ es, es.Perm r.entries → s.renameEach es = (s.applyRenames r).value) ∧
        (s.applyRenames r).value.1.applyRenames r = .quiet ((s.applyRenames r).value.1, false)) ∧
      ∀ old new, s.renameTable old new = s.applyRenames (.ofList [(old, new)]) :=
  ⟨fun _ hl hu => ⟨fun _ hp => renameEach_of_perm hl hu hp s, applyRenames_applyRenames hu s⟩,
    s.renameTable_eq⟩

theorem renameEach_eq_applyRenames_of_delete :
    let r := Renames.ofList [("Users".toList, "t_user".toList), ("ORDERS".toList, "Σ".toList)]
    let es := [("users".toList, "t_user".toList), ("orders".toList, "Σ".toList)]
    let s := delete ⟨.named "USERS".toList none, none⟩
    r.IsLowered ∧ r.IsUnchained ∧ es.Perm r.entries ∧ es ≠ r.entries ∧
      s.renameEach es = (s.applyRenames r).value ∧ (s.applyRenames r).value.2 = true := by
  intro r es s
  have hl : r.IsLowered := by decide +kernel
  have hu : r.IsUnchained := by decide +kernel
  have hp : es.Perm r.entries := by decide +kernel
  exact ⟨hl, hu, hp, by decide +kernel, ((renameEach_eq_applyRenames s).1 r hl hu).1 es hp,
    by decide +kernel⟩

end Statement

end SqlEdit
