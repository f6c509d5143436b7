import Mathlib.Data.List.Induction
import Mathlib.Data.List.Pairwise
import SqlEdit.Proofs.Renames.Lowered
import SqlEdit.Statement.Json

namespace SqlEdit

open Unicode (lowerText)

namespace Renames

variable {es fs : List (Text × Text)} {name new : Text}

theorem ofList_concat (es : List (Text × Text)) (e : Text × Text) :
    ofList (es ++ [e]) = (ofList es).insert e.1 e.2 := by
  rw [ofList, insertList, List.foldl_concat]
  rfl

theorem get?_ofList_append (es fs : List (Text × Text)) (name : Text) :
    (ofList (es ++ fs)).get? name = ((ofList fs).get? name).or ((ofList es).get? name) := by
  induction fs using List.reverseRecOn with
  | nil =>
      rw [List.append_nil]
      rfl
  | append_singleton fs e ih =>
      rw [← List.append_assoc, ofList_concat, ofList_concat, get?_insert, get?_insert, ih]
      split <;> rfl

theorem exists_of_get?_ofList (h : (ofList es).get? name = some new) :
    ∃ e ∈ es, lowerText e.1 = lowerText name ∧ e.2 = new := by
  induction es using List.reverseRecOn with
  | nil => simp [ofList, insertList, empty, get?] at h
  | append_singleton es e ih =>
      rw [ofList_concat, get?_insert] at h
      split at h
      next hk => exact ⟨e, by simp, hk.symm, Option.some.inj h⟩
      next =>
        obtain ⟨d, hd, hkd⟩ := ih h
        exact ⟨d, List.mem_append_left _ hd, hkd⟩

theorem isSome_get?_ofList {e : Text × Text} (he : e ∈ es) : ((ofList es).get? e.1).isSome := by
  induction es using List.reverseRecOn with
  | nil => simp at he
  | append_singleton es d ih =>
      rw [ofList_concat, get?_insert]
      split
      · rfl
      next hk =>
        rcases List.mem_append.1 he with he | he
        · exact ih he
        · rw [List.mem_singleton.1 he] at hk
          exact absurd rfl hk

end Renames

structure PlainMap where
  entries : List (Text × Text)
  nodup_keys : (entries.map Prod.fst).Nodup

namespace PlainMap

open Renames (get?_congr ofList_concat get?_ofList_append exists_of_get?_ofList isSome_get?_ofList)

def Enumerates (m : PlainMap) (es : List (Text × Text)) : Prop :=
  es.Perm m.entries

instance (m : PlainMap) (es : List (Text × Text)) : Decidable (m.Enumerates es) :=
  inferInstanceAs (Decidable (es.Perm _))

/-- Whether renames can be made of a map, by enumerating it in some order. -/
def Yields (m : PlainMap) (r : Renames) : Prop :=
  ∃ es, m.Enumerates es ∧ Renames.ofList es = r

/-- Renames that have, for all names of a map that are the same in lower case, the new name of one of
them. -/
structure Selects (m : PlainMap) (r : Renames) : Prop where
  lowered : r.IsLowered
  found : ∀ e ∈ m.entries, (r.get? e.1).isSome
  selected : ∀ name new, r.get? name = some new →
    ∃ e ∈ m.entries, lowerText e.1 = lowerText name ∧ e.2 = new

variable {m : PlainMap} {r : Renames} {es fs : List (Text × Text)}

theorem Enumerates.selects (h : m.Enumerates es) : m.Selects (.ofList es) where
  lowered := Renames.isLowered_ofList es
  found e he := isSome_get?_ofList (h.mem_iff.2 he)
  selected name new hn := by
    obtain ⟨e, he, hk⟩ := exists_of_get?_ofList hn
    exact ⟨e, h.mem_iff.1 he, hk⟩

/-- A selection comes out if what it selects is enumerated last. -/
theorem Selects.yields (h : m.Selects r) : m.Yields r := by
  let last (e : Text × Text) : Bool := r.get? e.1 = some e.2
  have hs : m.Enumerates (m.entries.filter (!last ·) ++ m.entries.filter last) :=
    List.perm_append_comm.trans (List.filter_append_perm last m.entries)
  refine ⟨_, hs, hs.selects.lowered.ext h.lowered fun name => ?_⟩
  rw [get?_ofList_append]
  cases hn : r.get? name with
  | some new =>
      obtain ⟨e, he, hke, rfl⟩ := h.selected name new hn
      have hl : e ∈ m.entries.filter last :=
        List.mem_filter.2 ⟨he, decide_eq_true ((get?_congr hke).trans hn)⟩
      obtain ⟨new, hf⟩ := Option.isSome_iff_exists.1 (isSome_get?_ofList hl)
      rw [get?_congr hke] at hf
      obtain ⟨d, hd, hkd, rfl⟩ := exists_of_get?_ofList hf
      have hdn := of_decide_eq_true (List.mem_filter.1 hd).2
      rw [get?_congr hkd, hn] at hdn
      rw [hf, Option.some_or, hdn]
  | none =>
      refine Option.eq_none_iff_forall_ne_some.2 fun new hnew => ?_
      rw [← get?_ofList_append] at hnew
      obtain ⟨e, he, hke⟩ := exists_of_get?_ofList hnew
      have hf := h.found e (hs.mem_iff.1 he)
      rw [get?_congr hke.1, hn] at hf
      exact Bool.false_ne_true hf

theorem enumerates_concat {e : Text × Text} (he : e ∈ m.entries) :
    m.Enumerates (m.entries.erase e ++ [e]) :=
  (List.perm_append_singleton ..).trans (List.perm_cons_erase he).symm

/-- All orders of a map make the same renames exactly if names that are the same in lower case have
the same new name in it. Whatever selects one of them each time can come out of some order. -/
theorem yields_same_iff (m : PlainMap) :
    ((∀ es fs, m.Enumerates es → m.Enumerates fs → Renames.ofList es = Renames.ofList fs) ↔
        ∀ a ∈ m.entries, ∀ b ∈ m.entries, lowerText a.1 = lowerText b.1 → a.2 = b.2) ∧
      ∀ r, m.Yields r ↔ m.Selects r := by
  refine ⟨⟨fun h a ha b hb hk => ?_, fun h es fs hes hfs => ?_⟩, fun r => ⟨?_, Selects.yields⟩⟩
  · have hr := congrArg (·.get? a.1) (h _ _ (enumerates_concat ha) (enumerates_concat hb))
    simpa [ofList_concat, Renames.get?_insert, hk] using hr
  · refine hes.selects.lowered.ext hfs.selects.lowered fun name => Option.ext fun new => ?_
    have hsub {es fs : List (Text × Text)} (hes : m.Enumerates es) (hfs : m.Enumerates fs)
        (hn : (Renames.ofList es).get? name = some new) :
        (Renames.ofList fs).get? name = some new := by
      obtain ⟨a, ha, hka, rfl⟩ := hes.selects.selected name new hn
      obtain ⟨new, hf⟩ := Option.isSome_iff_exists.1 (hfs.selects.found a ha)
      obtain ⟨b, hb, hkb, rfl⟩ := hfs.selects.selected a.1 new hf
      rw [h a ha b hb hkb.symm, ← hf, get?_congr hka]
    exact ⟨hsub hes hfs, hsub hfs hes⟩
  · rintro ⟨es, hes, rfl⟩
    exact hes.selects

/-- Two spellings of one name with different new names. -/
theorem not_yields_same_of_spellings :
    ¬ ∀ (m : PlainMap) es fs, m.Enumerates es → m.Enumerates fs →
      Renames.ofList es = Renames.ofList fs := by
  intro h
  let es := [("Users".toList, "t_user".toList), ("users".toList, "t_member".toList)]
  have hr := h ⟨es, by decide⟩ es es.reverse (.refl es) (List.reverse_perm es)
  exact absurd hr (by decide +kernel)

def lastOfEach (es : List (Text × Text)) : List (Text × Text) :=
  es.pwFilter (·.1 ≠ ·.1)

def ofPairs (es : List (Text × Text)) : PlainMap where
  entries := lastOfEach es
  nodup_keys := List.pairwise_map.2 (List.pairwise_pwFilter es)

theorem get?_ofList_lastOfEach (es : List (Text × Text)) (name : Text) :
    (Renames.ofList (lastOfEach es)).get? name = (Renames.ofList es).get? name := by
  induction es with
  | nil => rfl
  | cons e es ih =>
      have hc (fs : List (Text × Text)) : (Renames.ofList (e :: fs)).get? name =
          ((Renames.ofList fs).get? name).or ((Renames.ofList [e]).get? name) :=
        get?_ofList_append [e] fs name
      rw [lastOfEach] at ih ⊢
      by_cases h : ∀ d ∈ es.pwFilter (·.1 ≠ ·.1), e.1 ≠ d.1
      · rw [List.pwFilter_cons_of_pos h, hc, ih, hc es]
      · rw [List.pwFilter_cons_of_neg h, ih, hc es]
        simp only [not_forall, not_not] at h
        obtain ⟨d, hd, hde⟩ := h
        cases hn : (Renames.ofList [e]).get? name with
        | none => rw [Option.or_none]
        | some new =>
            obtain ⟨_, hm, hk, -⟩ := exists_of_get?_ofList hn
            have hs := isSome_get?_ofList (List.pwFilter_subset es hd)
            rw [← hde, ← List.mem_singleton.1 hm, get?_congr hk] at hs
            rw [Option.or_of_isSome hs]

/-- What is read from a JSON object comes out of the map that the object gives. -/
theorem yields_of_ofJson? {j : Json} (h : Renames.ofJson? j = some r) :
    ∃ es, j.members? Json.text? = some es ∧ (ofPairs es).Yields r := by
  obtain ⟨es, hes, rfl⟩ := Option.map_eq_some_iff.1 h
  refine ⟨es, hes, lastOfEach es, .refl _, ?_⟩
  exact (Renames.isLowered_ofList _).ext (Renames.isLowered_ofList es) (get?_ofList_lastOfEach es)

end PlainMap

end SqlEdit
