import SqlEdit.Proofs.Identifier.Settled

namespace SqlEdit

open Identifier (isPlain lastSegment)

variable {style : Style} {a b : Text}

namespace Style

/-- Whether conversion makes two names equal: identifiers with the same qualifiers whose last
segments are spelled alike in the style, or an identifier that camel case turns into the other name,
which is none. -/
def Merges (style : Style) (a b : Text) : Prop :=
  match isPlain a, isPlain b with
  | true, true =>
    (a.cutLast? '.').map Prod.fst = (b.cutLast? '.').map Prod.fst ∧
      style.apply (lastSegment a) = style.apply (lastSegment b)
  | true, false => style = .camel ∧ style.convert a = b
  | false, true => style = .camel ∧ style.convert b = a
  | false, false => False

theorem convert_eq_convert_iff (style : Style) (ha : isPlain a) (hb : isPlain b) :
    style.convert a = style.convert b ↔
      (a.cutLast? '.').map Prod.fst = (b.cutLast? '.').map Prod.fst ∧
        style.apply (lastSegment a) = style.apply (lastSegment b) := by
  have hcut (he : style.convert a = style.convert b) := congrArg (Text.cutLast? '.') he
  rw [cutLast?_convert style ha, cutLast?_convert style hb] at hcut
  obtain ⟨hca, hla, -⟩ | ⟨q, s, hca, hla, -, -⟩ := Identifier.exists_of_isPlain ha <;>
    obtain ⟨hcb, hlb, -⟩ | ⟨r, u, hcb, hlb, -, -⟩ := Identifier.exists_of_isPlain hb <;>
    rw [hca, hcb] at hcut ⊢
  · rw [convert, convert, hca, hcb, hla, hlb]
    exact (and_iff_right rfl).symm
  · refine iff_of_false (fun he => ?_) fun h => Option.some_ne_none _ h.1.symm
    exact Option.some_ne_none _ (hcut he).symm
  · refine iff_of_false (fun he => ?_) fun h => Option.some_ne_none _ h.1
    exact Option.some_ne_none _ (hcut he)
  · rw [hla, hlb]
    constructor
    · intro he
      have hp := Prod.mk.inj (Option.some.inj (hcut he))
      exact ⟨congrArg some hp.1, hp.2⟩
    · rintro ⟨hq, hs⟩
      have hq : q = r := Option.some.inj hq
      rw [convert, convert, hca, hcb, hq]
      exact congrArg (r ++ '.' :: ·) hs

theorem eq_camel_of_convert (ha : isPlain a) (hb : isPlain b = false) (h : style.convert a = b) :
    style = .camel := by
  cases style with
  | camel => rfl
  | snake =>
      rw [← h, isPlain_snake ha] at hb
      cases hb

theorem convertName_eq_iff (h : a ≠ b) :
    style.convertName a = style.convertName b ↔ style.Merges a b := by
  rw [convertName, convertName, Merges]
  cases ha : isPlain a <;> cases hb : isPlain b
  · exact iff_of_false h id
  · rw [if_neg Bool.false_ne_true, if_pos rfl, eq_comm]
    exact ⟨fun he => ⟨eq_camel_of_convert hb ha he, he⟩, And.right⟩
  · rw [if_neg Bool.false_ne_true, if_pos rfl]
    exact ⟨fun he => ⟨eq_camel_of_convert ha hb he, he⟩, And.right⟩
  · rw [if_pos rfl, if_pos rfl]
    exact convert_eq_convert_iff style ha hb

theorem nodup_map_convertName_iff (style : Style) (names : List Text) :
    (names.map style.convertName).Nodup ↔
      names.Nodup ∧ names.Pairwise fun a b => ¬ style.Merges a b := by
  rw [List.nodup_iff_pairwise_ne, List.pairwise_map, List.nodup_iff_pairwise_ne,
    ← List.pairwise_and_iff]
  refine List.Pairwise.iff fun a b => ?_
  constructor
  · intro hne
    have hab : a ≠ b := fun he => hne (congrArg _ he)
    exact ⟨hab, mt (convertName_eq_iff hab).2 hne⟩
  · rintro ⟨hab, hm⟩
    exact mt (convertName_eq_iff hab).1 hm

end Style

namespace Assignments

theorem map_entries (as : Assignments) (f : Text → Text) :
    (as.entries.map fun (field, value) => (f field, value)) = (as.keys.map f).zip as.values := by
  rw [keys, values, List.map_map, List.zip_map']
  rfl

theorem length_map_keys (as : Assignments) (f : Text → Text) :
    (as.keys.map f).length = as.values.length := by
  rw [List.length_map, keys, values, List.length_map, List.length_map]

theorem convert?_of_nodup {as : Assignments} (h : (as.keys.map style.convertName).Nodup) :
    ∃ bs, as.convert? style = some bs ∧
      bs.entries = (as.keys.map style.convertName).zip as.values ∧ bs.values = as.values := by
  have hl := as.length_map_keys style.convertName
  have hk : (((as.keys.map style.convertName).zip as.values).map Prod.fst).Nodup := by
    rwa [List.map_fst_zip hl.le]
  refine ⟨⟨_, hk⟩, ?_, rfl, List.map_snd_zip hl.ge⟩
  rw [convert?_eq, map_entries, ofEntries?_eq_some_iff]

theorem convert?_of_not_nodup {as : Assignments} (h : ¬ (as.keys.map style.convertName).Nodup) :
    as.convert? style = none := by
  rw [convert?_eq, map_entries, ofEntries?, dif_neg]
  rwa [List.map_fst_zip (as.length_map_keys style.convertName).le]

end Assignments

namespace Update

/-- The keys are converted if they stay different, without a word. Otherwise each of them is kept,
and one collision is reported. The values and their order stay, and the condition is converted. -/
theorem convert_eq_of_keys (style : Style) (u : Update) :
    let keys := u.assignments.keys.map style.convertName
    let v := (u.convert style).value
    v.assignments.entries =
        (if keys.Nodup then keys.zip u.assignments.values else u.assignments.entries) ∧
      (u.convert style).events =
        (if keys.Nodup then [] else [.keysCollide u.table.name]) ∧
      v.assignments.values = u.assignments.values ∧
      v.assignments.entries.length = u.assignments.entries.length ∧
      v.condition = u.condition.map (Fragment.convert style) ∧ v.table = u.table := by
  intro keys v
  by_cases h : keys.Nodup
  · obtain ⟨bs, hbs, he, hvalues⟩ := Assignments.convert?_of_nodup h
    have hl : bs.entries.length = u.assignments.entries.length := by
      simpa only [Assignments.values, List.length_map] using congrArg List.length hvalues
    have hc := convert_of_some hbs
    have hv : v = ⟨u.table, bs, _⟩ := congrArg Logged.value hc
    rw [if_pos h, if_pos h, hv]
    exact ⟨he, congrArg Logged.events hc, hvalues, hl, rfl, rfl⟩
  · have hc := convert_of_none (Assignments.convert?_of_not_nodup h)
    have hv : v = ⟨u.table, u.assignments, _⟩ := congrArg Logged.value hc
    rw [if_neg h, if_neg h, hv]
    exact ⟨rfl, congrArg Logged.events hc, rfl, rfl, rfl, rfl⟩

end Update

namespace Insert

/-- The columns differ behind conversion exactly if they did and no two of them merge. -/
theorem nodup_convert_iff (style : Style) (i : Insert) :
    (i.convert style).fields.Nodup ↔
      i.fields.Nodup ∧ i.fields.Pairwise fun a b => ¬ style.Merges a b :=
  Style.nodup_map_convertName_iff style i.fields

/-- The same column in two styles, two underscores that are lost like one, and a name in camel case
that is the number beside it. -/
theorem not_nodup_convert_of_user_id :
    let insert (a b : String) : Insert :=
      ⟨.named "t".toList none, [a.toList, b.toList], ["1".toList, "2".toList]⟩
    let i := insert "userId" "user_id"
    let j := insert "a_b" "a__b"
    let k := insert "_1" "1"
    i.fields.Nodup ∧ ¬ (i.convert .snake).fields.Nodup ∧
      j.fields.Nodup ∧ ¬ (j.convert .camel).fields.Nodup ∧
      k.fields.Nodup ∧ ¬ (k.convert .camel).fields.Nodup := by
  decide +kernel

end Insert

end SqlEdit
