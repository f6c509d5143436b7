import Mathlib.Data.Set.Card
import SqlEdit.Proofs.Renames.Lowered
import SqlEdit.Proofs.Statement.Json

namespace SqlEdit.Renames

open Unicode (lowerText lowerText_lowerText)

inductive Op where
  | insert (old new : Text)
  | erase (old : Text)
  | extend (pairs : List (Text × Text))
  | construct (pairs : List (Text × Text))

namespace Op

def run (r : Renames) : Op → Option Text × Renames
  | insert old new => r.getThenInsert? old new
  | erase old => r.getThenErase? old
  | extend pairs => (none, r.insertList pairs)
  | construct pairs => (none, ofList pairs)

def name? : Op → Option Text
  | insert old _ | erase old => some old
  | extend _ | construct _ => none

end Op

def run (r : Renames) : List Op → List (Option Text) × Renames
  | [] => ([], r)
  | op :: ops =>
      let rest := run (op.run r).2 ops
      ((op.run r).1 :: rest.1, rest.2)

inductive Change where
  | put (old new : Text)
  | drop (old : Text)
  | clear

namespace Change

def apply (r : Renames) : Change → Renames
  | put old new => r.insert old new
  | drop old => r.erase old
  | clear => empty

def Gives (c : Change) (key new : Text) : Prop :=
  ∃ old, c = put old new ∧ lowerText old = key

def Spares (key : Text) : Change → Prop
  | put old _ | drop old => lowerText old ≠ key
  | clear => False

end Change

def Op.changes : Op → List Change
  | insert old new => [.put old new]
  | erase old => [.drop old]
  | extend pairs => pairs.map fun (old, new) => .put old new
  | construct pairs => .clear :: pairs.map fun (old, new) => .put old new

def history (ops : List Op) : List Change :=
  ops.flatMap Op.changes

/-- Whether a new name is the one that was registered last for a lower-cased name, and was not
dropped since. -/
def Live (h : List Change) (key new : Text) : Prop :=
  ∃ before c after, h = before ++ c :: after ∧ c.Gives key new ∧ ∀ d ∈ after, d.Spares key

variable {r : Renames} {h : List Change} {c : Change} {key name new : Text}
  {es pairs : List (Text × Text)}

theorem live_concat : Live (h ++ [c]) key new ↔ c.Gives key new ∨ c.Spares key ∧ Live h key new := by
  constructor
  · rintro ⟨before, d, after, he, hg, hs⟩
    induction after using List.reverseRecOn with
    | nil =>
        obtain ⟨-, hcd⟩ := List.append_inj' he rfl
        obtain ⟨rfl, -⟩ := List.cons.inj hcd
        exact .inl hg
    | append_singleton after e _ =>
        rw [← List.cons_append, ← List.append_assoc] at he
        obtain ⟨rfl, hce⟩ := List.append_inj' he rfl
        obtain ⟨rfl, -⟩ := List.cons.inj hce
        obtain ⟨hs, hc⟩ := List.forall_mem_append.1 hs
        exact .inr ⟨hc c (List.mem_singleton_self c), before, d, after, rfl, hg, hs⟩
  · rintro (hg | ⟨hc, before, d, after, rfl, hg, hs⟩)
    · exact ⟨h, c, [], rfl, hg, by simp⟩
    · refine ⟨before, d, after ++ [c], by simp, hg, ?_⟩
      exact List.forall_mem_append.2 ⟨hs, List.forall_mem_singleton.2 hc⟩

theorem get?_apply : (c.apply r).get? name = some new ↔
    c.Gives (lowerText name) new ∨ c.Spares (lowerText name) ∧ r.get? name = some new := by
  cases c with
  | put old new' =>
      rw [Change.apply, get?_insert]
      by_cases hk : lowerText name = lowerText old
      · simp [Change.Gives, Change.Spares, hk]
      · simp [Change.Gives, Change.Spares, hk, Ne.symm hk]
  | drop old =>
      rw [Change.apply, get?_erase]
      by_cases hk : lowerText name = lowerText old
      · simp [Change.Gives, Change.Spares, hk]
      · simp [Change.Gives, Change.Spares, hk, Ne.symm hk]
  | clear => simp [Change.apply, Change.Gives, Change.Spares, empty, get?]

theorem IsLowered.apply (hr : r.IsLowered) (c : Change) : (c.apply r).IsLowered := by
  cases c with
  | put old new => exact hr.insert old new
  | drop old => exact hr.erase old
  | clear => exact isLowered_empty

def ofHistory (h : List Change) : Renames :=
  h.foldl Change.apply empty

theorem ofHistory_concat (h : List Change) (c : Change) :
    ofHistory (h ++ [c]) = c.apply (ofHistory h) :=
  List.foldl_concat ..

theorem get?_ofHistory : (ofHistory h).get? name = some new ↔ Live h (lowerText name) new := by
  induction h using List.reverseRecOn with
  | nil => simp [ofHistory, Live, empty, get?]
  | append_singleton h c ih => rw [ofHistory_concat, get?_apply, ih, live_concat]

theorem Live.lowerText_key (hl : Live h key new) : lowerText key = key := by
  obtain ⟨_, _, _, -, ⟨old, -, rfl⟩, -⟩ := hl
  exact lowerText_lowerText old

theorem isLowered_ofHistory (h : List Change) : (ofHistory h).IsLowered := by
  induction h using List.reverseRecOn with
  | nil => exact isLowered_empty
  | append_singleton h c ih => exact ofHistory_concat h c ▸ ih.apply c

theorem run_snd (ops : List Op) (r : Renames) :
    (run r ops).2 = (history ops).foldl Change.apply r := by
  have hp (pairs : List (Text × Text)) (r : Renames) :
      (pairs.map fun (old, new) => Change.put old new).foldl Change.apply r = r.insertList pairs := by
    rw [List.foldl_map, insertList]
    rfl
  induction ops generalizing r with
  | nil => rfl
  | cons op ops ih =>
      rw [run, history, List.flatMap_cons, List.foldl_append, ← history, ih]
      congr 1
      cases op with
      | insert _ _ | erase _ => rfl
      | extend pairs => exact (hp pairs r).symm
      | construct pairs => exact (hp pairs empty).symm

theorem fst_run (op : Op) (r : Renames) : (op.run r).1 = op.name?.bind r.get? := by
  cases op <;> rfl

theorem length_run (ops : List Op) (r : Renames) : (run r ops).1.length = ops.length := by
  induction ops generalizing r with
  | nil => rfl
  | cons op ops ih => rw [run, List.length_cons, ih, List.length_cons]

theorem getElem?_run (ops : List Op) (r : Renames) (i : Nat) :
    (run r ops).1[i]? = ops[i]?.map fun op => op.name?.bind (run r (ops.take i)).2.get? := by
  induction ops generalizing r i with
  | nil => rfl
  | cons op ops ih =>
      cases i with
      | zero => exact congrArg some (fst_run op r)
      | succ i => exact ih (op.run r).2 i

/-- The size is the number of lower-cased names for which something is registered. -/
theorem IsLowered.encard_keys (hr : r.IsLowered) :
    {key | lowerText key = key ∧ (r.get? key).isSome}.encard = r.size := by
  have hk : {key | lowerText key = key ∧ (r.get? key).isSome} =
      ((r.entries.map Prod.fst).toFinset : Set Text) := by
    ext key
    simp only [Set.mem_ofPred_eq, Option.isSome_iff_exists, ← exists_and_left, ← hr.mem_iff,
      List.coe_toFinset, List.mem_map, Prod.exists, exists_eq_right, exists_and_right]
  rw [hk, Set.encard_coe_eq_coe_finsetCard, List.toFinset_card_of_nodup r.nodup_keys,
    List.length_map, size]

def toObject (es : List (Text × Text)) : Json :=
  .object (es.map fun (old, new) => (some old, .ofText new))

theorem IsLowered.ofJson?_parse (hr : r.IsLowered) (hp : es.Perm r.entries) :
    (Json.parse? (toObject es).render).bind ofJson? = some r := by
  have ht : (toObject es).IsTextual :=
    .object (List.forall_mem_map.2 fun _ _ => rfl) (List.forall_mem_map.2 fun _ _ => .text _)
  have hm : (toObject es).members? Json.text? = some es := by
    refine mapM_eq_some_iff.2 (List.forall₂_map_left_iff.2 (List.forall₂_same.2 fun e _ => ?_))
    rfl
  rw [ht.parse?_render, Option.bind_some, ofJson?, hm, Option.map_some, hr.ofList_perm hp]

/-- Renames are a map on lower-cased names in which the latest registration wins. -/
theorem run_keepsLatest (ops : List Op) :
    (∀ name new, (run empty ops).2.get? name = some new ↔
        Live (history ops) (lowerText name) new) ∧
      (run empty ops).1.length = ops.length ∧
      (∀ i new, (run empty ops).1[i]? = some (some new) ↔
        ∃ old ∈ ops[i]?.bind Op.name?, Live (history (ops.take i)) (lowerText old) new) ∧
      {key | ∃ new, Live (history ops) key new}.encard = (run empty ops).2.size ∧
      (∀ e ∈ (run empty ops).2.entries, lowerText e.1 = e.1) ∧
      ∀ es, es.Perm (run empty ops).2.entries →
        (Json.parse? (toObject es).render).bind ofJson? = some (run empty ops).2 := by
  have hr (ops : List Op) : (run empty ops).2 = ofHistory (history ops) := run_snd ops empty
  have hg (ops : List Op) (name new : Text) : (run empty ops).2.get? name = some new ↔
      Live (history ops) (lowerText name) new := by
    rw [hr, get?_ofHistory]
  have hl : (run empty ops).2.IsLowered := hr ops ▸ isLowered_ofHistory _
  have hk : {key | ∃ new, Live (history ops) key new} =
      {key | lowerText key = key ∧ ((run empty ops).2.get? key).isSome} := by
    ext key
    simp only [Set.mem_ofPred_eq, Option.isSome_iff_exists, hg, ← exists_and_left]
    refine exists_congr fun new => ⟨fun h => ?_, fun h => h.1 ▸ h.2⟩
    have hkey := h.lowerText_key
    exact ⟨hkey, hkey.symm ▸ h⟩
  refine ⟨hg ops, length_run ops empty, fun i new => ?_, hk ▸ hl.encard_keys, hl,
    fun es => hl.ofJson?_parse⟩
  rw [getElem?_run]
  cases ops[i]? with
  | none => simp
  | some op => simp [Option.bind_eq_some_iff, hg]

/-- Two spellings of one name that end with different small sigmas are one key. -/
theorem run_keepsLatest_of_sigma :
    let ops := [Op.insert "ΟΔΟΣ".toList "a".toList, .extend [("Users".toList, "b".toList)],
      .insert "οδοΣ".toList "c".toList, .erase "USERS".toList, .insert "users".toList "d".toList]
    let es := [("οδος".toList, "c".toList), ("users".toList, "d".toList)]
    es.Perm (run empty ops).2.entries ∧ es ≠ (run empty ops).2.entries ∧
      (run empty ops).1 = [none, none, some "a".toList, some "b".toList, none] ∧
      (Json.parse? (toObject es).render).bind ofJson? = some (run empty ops).2 := by
  intro ops es
  have hp : es.Perm (run empty ops).2.entries := by decide +kernel
  exact ⟨hp, by decide +kernel, by decide +kernel, (run_keepsLatest ops).2.2.2.2.2 es hp⟩

end SqlEdit.Renames
