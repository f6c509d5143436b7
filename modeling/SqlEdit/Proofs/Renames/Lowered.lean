import Mathlib.Data.List.Nodup
import SqlEdit.Proofs.Unicode.Lower
import SqlEdit.Renames

namespace SqlEdit.Renames

open Unicode (lowerText lowerText_lowerText)

variable {r s : Renames} {es fs pairs : List (Text × Text)} {old new name : Text}

theorem lookup_eq_some_iff (hn : (es.map Prod.fst).Nodup) :
    es.lookup old = some new ↔ (old, new) ∈ es := by
  induction es with
  | nil => simp
  | cons e es ih =>
      obtain ⟨k, v⟩ := e
      obtain ⟨hk, hn⟩ := List.nodup_cons.1 hn
      rw [lookup_cons, List.mem_cons, Prod.mk.injEq]
      by_cases h : old = k
      · subst h
        have hm : (old, new) ∉ es := fun hm => hk (List.mem_map.2 ⟨_, hm, rfl⟩)
        simp [hm, eq_comm]
      · simp [h, ih hn]

theorem lookup_eq_none (h : name ∉ es.map Prod.fst) : es.lookup name = none := by
  refine List.lookup_eq_none_iff.2 fun e he => bne_iff_ne.2 ?_
  rintro rfl
  exact h (List.mem_map_of_mem he)

theorem lookup_perm (hp : es.Perm fs) (hn : (fs.map Prod.fst).Nodup) (name : Text) :
    es.lookup name = fs.lookup name := by
  have hn' := (hp.map Prod.fst).nodup_iff.2 hn
  ext new
  rw [lookup_eq_some_iff hn', lookup_eq_some_iff hn, hp.mem_iff]

theorem nodup_keys (r : Renames) : (r.entries.map Prod.fst).Nodup := by
  refine List.pairwise_map.2 (r.sorted.imp fun {a b} h he => ?_)
  rw [he] at h
  exact List.lt_irrefl _ h

theorem nodup_entries (r : Renames) : r.entries.Nodup :=
  List.Nodup.of_map Prod.fst r.nodup_keys

def IsLowered (r : Renames) : Prop :=
  ∀ e ∈ r.entries, lowerText e.1 = e.1

instance (r : Renames) : Decidable r.IsLowered :=
  inferInstanceAs (Decidable (∀ e ∈ r.entries, _))

theorem isLowered_empty : empty.IsLowered := by
  simp [IsLowered, empty]

theorem IsLowered.insert (h : r.IsLowered) (old new : Text) : (r.insert old new).IsLowered := by
  intro e he
  obtain rfl | he := mem_insertEntry he
  · exact lowerText_lowerText old
  · exact h e he

theorem IsLowered.erase (h : r.IsLowered) (old : Text) : (r.erase old).IsLowered :=
  fun e he => h e (List.mem_filter.1 he).1

theorem IsLowered.insertList (h : r.IsLowered) (pairs : List (Text × Text)) :
    (r.insertList pairs).IsLowered := by
  induction pairs generalizing r with
  | nil => exact h
  | cons p pairs ih => exact ih (h.insert p.1 p.2)

theorem isLowered_ofList (pairs : List (Text × Text)) : (ofList pairs).IsLowered :=
  isLowered_empty.insertList pairs

theorem IsLowered.mem_iff (h : r.IsLowered) :
    (old, new) ∈ r.entries ↔ lowerText old = old ∧ r.get? old = some new := by
  rw [get?, ← lookup_eq_some_iff r.nodup_keys]
  constructor
  · intro hl
    have hk := h _ ((lookup_eq_some_iff r.nodup_keys).1 hl)
    exact ⟨hk, hk.symm ▸ hl⟩
  · rintro ⟨hk, hl⟩
    rwa [hk] at hl

theorem IsLowered.ext (hr : r.IsLowered) (hs : s.IsLowered) (h : ∀ name, r.get? name = s.get? name) :
    r = s := by
  have hp : r.entries.Perm s.entries := by
    refine (List.perm_ext_iff_of_nodup r.nodup_entries s.nodup_entries).2 fun e => ?_
    rw [hr.mem_iff, hs.mem_iff, h]
  have he : r.entries = s.entries :=
    hp.eq_of_pairwise (fun _ _ _ _ hab hba => absurd (List.lt_trans hab hba) (List.lt_irrefl _))
      r.sorted s.sorted
  obtain ⟨_, _⟩ := r
  obtain ⟨_, _⟩ := s
  congr

theorem get?_insertList (hl : ∀ p ∈ pairs, lowerText p.1 = p.1) (hn : (pairs.map Prod.fst).Nodup)
    (r : Renames) (name : Text) :
    (r.insertList pairs).get? name = (pairs.lookup (lowerText name)).or (r.get? name) := by
  induction pairs generalizing r with
  | nil => rfl
  | cons p pairs ih =>
      obtain ⟨old, new⟩ := p
      obtain ⟨ho, hl⟩ := List.forall_mem_cons.1 hl
      obtain ⟨hk, hn⟩ := List.nodup_cons.1 hn
      have hi := ih hl hn (r.insert old new)
      rw [get?_insert, ho] at hi
      refine hi.trans ?_
      rw [lookup_cons]
      by_cases h : lowerText name = old
      · have hno : pairs.lookup (lowerText name) = none := by
          refine Option.eq_none_iff_forall_ne_some.2 fun v hv => hk ?_
          exact List.mem_map.2 ⟨_, (lookup_eq_some_iff hn).1 hv, h⟩
        rw [if_pos h, if_pos h, hno]
        rfl
      · rw [if_neg h, if_neg h]

/-- A map can be made of its entries in any order. -/
theorem IsLowered.ofList_perm (h : r.IsLowered) (hp : es.Perm r.entries) : ofList es = r := by
  refine (isLowered_ofList es).ext h fun name => ?_
  have hn := (hp.map Prod.fst).nodup_iff.2 r.nodup_keys
  rw [ofList, get?_insertList (fun e he => h e (hp.mem_iff.1 he)) hn, lookup_perm hp r.nodup_keys]
  exact Option.or_none

theorem isLowered_iff : r.IsLowered ↔ ∃ pairs, r = ofList pairs := by
  constructor
  · exact fun h => ⟨r.entries, (h.ofList_perm (.refl _)).symm⟩
  · rintro ⟨pairs, rfl⟩
    exact isLowered_ofList pairs

end SqlEdit.Renames
