import SqlEdit.Proofs.Statement.Delete
import SqlEdit.Proofs.Statement.Insert
import SqlEdit.Proofs.Statement.Respelled
import SqlEdit.Proofs.Statement.Select
import SqlEdit.Proofs.Statement.Update

namespace SqlEdit

open Nesting (Free Pieces)
open Text (Closed Solid)
open Clauses (Placed present)
open Keyword (Absent)

namespace Insert

def Legible (i : Insert) : Prop :=
  ∀ f ∈ i.fields, Solid f

instance (i : Insert) : Decidable i.Legible :=
  inferInstanceAs (Decidable (∀ f ∈ i.fields, _))

variable {i j : Insert} {ss ts : List Text}

theorem IsList.of_skeleton (h : IsList ss) (he : ts.map Text.skeleton = ss.map Text.skeleton)
    (hs : ∀ t ∈ ts, Solid t) : IsList ts := by
  have hm {t : Text} (ht : t ∈ ts) : ∃ s ∈ ss, s.skeleton = t.skeleton :=
    List.mem_map.1 (he ▸ List.mem_map_of_mem ht)
  refine ⟨?_, hs, fun t ht => ?_, fun t ht => ?_, fun t ht => ?_⟩
  · rintro rfl
    exact h.ne_nil (List.map_eq_nil_iff.1 he.symm)
  all_goals obtain ⟨s, hm, hst⟩ := hm ht
  · exact (Text.closed_iff_of_skeleton hst).1 (h.closed s hm)
  · exact (Nesting.free_iff_of_skeleton (by decide) hst).1 (h.comma s hm)
  · exact (Nesting.free_iff_of_skeleton (by decide) hst).1 (h.parenthesis s hm)

theorem shaped_of_skeleton (h : i.Shaped) (he : j.skeleton = i.skeleton) (hl : j.Legible) :
    j.Shaped := by
  obtain ⟨ht, hf, hv⟩ := Insert.mk.inj he
  have hlen := congrArg List.length hf
  rw [List.length_map, List.length_map] at hlen
  refine ⟨ht ▸ h.table, ht ▸ h.name, h.fields.of_skeleton hf hl, hv ▸ h.values, ?_⟩
  rw [hlen, hv, h.length]

theorem shaped_iff (h : i.Shaped) (he : j.skeleton = i.skeleton) : j.Shaped ↔ j.Legible :=
  ⟨fun hj => hj.fields.solid, shaped_of_skeleton h he⟩

end Insert

namespace Delete

def Legible (d : Delete) : Prop :=
  (∀ c ∈ d.condition, Solid c) ∧ d.render.getLast? ≠ some ';'

instance (d : Delete) : Decidable d.Legible :=
  inferInstanceAs (Decidable ((∀ c ∈ d.condition, _) ∧ _))

variable {d e : Delete}

theorem shaped_and_unambiguous_iff (h : d.Shaped) (hu : d.Unambiguous) (he : e.skeleton = d.skeleton) :
    e.Shaped ∧ e.Unambiguous ↔ e.Legible := by
  obtain ⟨ht, hc⟩ := Delete.mk.inj he
  have hs := congrArg Option.isSome hc
  rw [Option.isSome_map, Option.isSome_map] at hs
  constructor
  · rintro ⟨hs, hu⟩
    exact ⟨hs.condition, hu.2.2⟩
  · rintro ⟨hc, hl⟩
    rw [Unambiguous, ht]
    refine ⟨⟨ht ▸ h.target, hc, fun hd => ?_⟩, hu.1, hu.2.1, hl⟩
    rw [ht]
    exact h.closed (hs ▸ hd)

end Delete

namespace Update

def Legible (u : Update) : Prop :=
  (∀ e ∈ u.assignments.entries, Solid e.1) ∧ (∀ c ∈ u.condition, Solid c) ∧
    Absent [.condition] u.listText ∧ u.render.getLast? ≠ some ';'

instance (u : Update) : Decidable u.Legible :=
  inferInstanceAs (Decidable ((∀ e ∈ u.assignments.entries, _) ∧ (∀ c ∈ u.condition, _) ∧ _ ∧ _))

variable {u v : Update}

theorem map_skeleton_assignmentText (u : Update) :
    (u.assignments.entries.map assignmentText).map Text.skeleton =
      u.skeletonEntries.map fun e => e.1 ++ Text.skeleton " = ".toList ++ e.2.skeleton := by
  rw [skeletonEntries, List.map_map, List.map_map]
  refine List.map_congr_left fun e _ => ?_
  simp only [Function.comp_apply, assignmentText, Text.skeleton_append]

theorem skeleton_listText (he : v.skeletonEntries = u.skeletonEntries) :
    v.listText.skeleton = u.listText.skeleton := by
  simp only [listText, Text.commaList, Text.skeleton_join, map_skeleton_assignmentText, he]

theorem isAssignment_of_skeleton (h : ∀ e ∈ u.assignments.entries, IsAssignment e)
    (he : v.skeletonEntries = u.skeletonEntries) (hs : ∀ e ∈ v.assignments.entries, Solid e.1) :
    ∀ e ∈ v.assignments.entries, IsAssignment e := by
  intro e hm
  have hm' : (e.1.skeleton, e.2) ∈ u.skeletonEntries := he ▸ List.mem_map_of_mem hm
  obtain ⟨e', hu, hee⟩ := List.mem_map.1 hm'
  obtain ⟨h₁, h₂⟩ := Prod.mk.inj hee
  have hu := h e' hu
  refine ⟨hs e hm, h₂ ▸ hu.value, ?_, ?_⟩
  · exact (Nesting.free_iff_of_skeleton (by decide) h₁).1 hu.free
  · exact (Text.closed_iff_of_skeleton h₁).1 hu.closed

theorem shaped_and_unambiguous_iff (h : u.Shaped) (hu : u.Unambiguous) (ht : v.table = u.table)
    (he : v.skeletonEntries = u.skeletonEntries)
    (hc : v.condition.map Text.skeleton = u.condition.map Text.skeleton) :
    v.Shaped ∧ v.Unambiguous ↔ v.Legible := by
  have hsome := congrArg Option.isSome hc
  rw [Option.isSome_map, Option.isSome_map] at hsome
  constructor
  · rintro ⟨hs, hu⟩
    exact ⟨fun e hm => (hs.entries e hm).field, hs.condition, hu.2.2.1, hu.2.2.2⟩
  · rintro ⟨hf, hc, ha, hl⟩
    rw [Unambiguous, ht]
    refine ⟨⟨ht ▸ h.target, ht ▸ h.closed, ?_, isAssignment_of_skeleton h.entries he hf, ?_, hc, ?_⟩,
      hu.1, hu.2.1, ha, hl⟩
    · intro hn
      rw [skeletonEntries, hn] at he
      exact h.ne_nil (List.map_eq_nil_iff.1 he.symm)
    · refine h.pieces.of_skeleton (by decide) ?_
      rw [map_skeleton_assignmentText, he, map_skeleton_assignmentText]
    · intro hv
      exact (Text.closed_iff_of_skeleton (skeleton_listText he)).2 (h.closed_list (hsome ▸ hv))

end Update

namespace Field

@[mk_iff]
structure Legible (f : Field) : Prop where
  expression : Solid f.expression
  name : ∀ a ∈ f.alias?, Solid a ∧ Absent [.asAlias] a
  plain : f.alias? = none → ofText? f.expression = some f
  source : Absent [.fromTables] f.render

instance (f : Field) : Decidable f.Legible :=
  decidable_of_iff' _ (legible_iff f)

variable {f g : Field}

/-- An alias is an identifier, or there was one with its skeleton. -/
theorem exists_alias_of_skeleton (he : g.skeleton = f.skeleton) {a : Text} (ha : g.alias? = some a) :
    ∃ b : Text, b.skeleton = a.skeleton ∧ (b = [] ∨ f.alias? = some b) := by
  by_cases hs : a.skeleton = []
  · exact ⟨[], hs.symm, .inl rfl⟩
  · have hf := (Field.mk.inj he).2
    rw [ha, Option.map_some, Option.filter_some, if_pos (by simpa using hs), eq_comm,
      Option.filter_eq_some_iff, Option.map_eq_some_iff] at hf
    obtain ⟨⟨b, hb, hba⟩, -⟩ := hf
    exact ⟨b, hba, .inr hb⟩

theorem free_render_iff (h : Closed f.expression) :
    Free (· == ',') .top f.render ↔
      Free (· == ',') .top f.expression ∧ ∀ a ∈ f.alias?, Free (· == ',') .top a := by
  cases ha : f.alias? with
  | none => simp [render_none ha]
  | some a =>
      have has : Closed " AS ".toList := by decide
      have hf : Free (· == ',') .top " AS ".toList := by decide
      rw [render_some ha, Nesting.free_append, Nesting.free_append, Nesting.after_append, h, has,
        and_iff_left hf]
      simp

theorem shaped_of_skeleton (h : f.Shaped) (he : g.skeleton = f.skeleton) (hl : g.Legible) :
    g.Shaped := by
  have hs : f.expression.skeleton = g.expression.skeleton := (Field.mk.inj he).1.symm
  have hc := (Text.closed_iff_of_skeleton hs).1 h.closed
  obtain ⟨hfe, hfa⟩ := (free_render_iff h.closed).1 h.comma
  have hname {a : Text} (ha : g.alias? = some a) : Closed a ∧ Free (· == ',') .top a := by
    obtain ⟨b, hba, hb⟩ := exists_alias_of_skeleton he ha
    rw [← Text.closed_iff_of_skeleton hba, ← Nesting.free_iff_of_skeleton (by decide) hba]
    rcases hb with rfl | hb
    · exact ⟨rfl, Nesting.free_nil⟩
    · exact ⟨(h.name b hb).2, hfa b hb⟩
  refine ⟨hl.expression, hc, fun a ha => ⟨(hl.name a ha).1, (hname ha).1⟩, ?_, hl.plain⟩
  refine (free_render_iff hc).2 ⟨?_, fun a ha => (hname ha).2⟩
  exact (Nesting.free_iff_of_skeleton (by decide) hs).1 hfe

end Field

namespace Select

@[mk_iff]
structure Legible (s : Select) : Prop where
  fields : ∀ f ∈ s.fields, f.Legible
  distinct : s.distinct = false → ∀ f ∈ s.fields.head?, Keyword.distinct.strip? f.render = none
  constraints : Table.AreClear s.tables
  bodies : ∀ c ∈ present s.clauses, Solid c.2
  clauses : Placed clauseKeywords (Table.renderList s.tables) (present s.clauses)
  semicolon : s.render.getLast? ≠ some ';'

instance (s : Select) : Decidable s.Legible :=
  decidable_of_iff' _ (legible_iff s)

variable {s t : Select}

theorem forall₂_respelled (he : t.skeleton = s.skeleton) :
    List.Forall₂ Table.Respelled s.tables t.tables := by
  have ht : t.tables.map Table.skeleton = s.tables.map Table.skeleton := congrArg Select.tables he
  rw [← List.forall₂_eq_eq_eq, List.forall₂_map_left_iff, List.forall₂_map_right_iff] at ht
  exact ht.flip

theorem fields_shaped_of_skeleton (h : s.Shaped) (he : t.skeleton = s.skeleton)
    (hl : ∀ f ∈ t.fields, f.Legible) : t.fields ≠ [] ∧ ∀ f ∈ t.fields, f.Shaped := by
  have hf : t.fields.map Field.skeleton = s.fields.map Field.skeleton := congrArg Select.fields he
  constructor
  · intro hn
    rw [hn] at hf
    exact h.ne_nil (List.map_eq_nil_iff.1 hf.symm)
  · intro f hm
    obtain ⟨g, hg, hgf⟩ := List.mem_map.1 (hf ▸ List.mem_map_of_mem hm)
    exact Field.shaped_of_skeleton (h.fields g hg) hgf.symm (hl f hm)

theorem shaped_and_unambiguous_iff (h : s.Shaped) (hu : s.Unambiguous)
    (he : t.skeleton = s.skeleton) : t.Shaped ∧ t.Unambiguous ↔ t.Legible := by
  have hr := forall₂_respelled he
  constructor
  · rintro ⟨hs, ha⟩
    refine ⟨fun f hm => ?_, ha.distinct, ?_, hs.clauses, ha.clauses, ha.semicolon⟩
    · have hf := hs.fields f hm
      exact ⟨hf.expression, fun a hfa => ⟨(hf.name a hfa).1, ha.aliases f hm a hfa⟩, hf.plain,
        ha.fields f hm⟩
    · exact (Table.exists_areChains_iff hr h.tables).1 hs.tables
  · intro hl
    obtain ⟨hne, hf⟩ := fields_shaped_of_skeleton h he hl.fields
    refine ⟨⟨hne, hf, ?_, hl.bodies, fun hp => ?_⟩, ?_, ?_, hl.distinct, ?_, hl.clauses, hl.semicolon⟩
    · exact (Table.exists_areChains_iff hr h.tables).2 hl.constraints
    · obtain ⟨c, cs, hcs⟩ := List.exists_cons_of_ne_nil hp
      have hc := hl.clauses
      rw [hcs, Placed] at hc
      exact hc.2.1
    · exact fun f hm a ha => ((hl.fields f hm).name a ha).2
    · exact fun f hm => (hl.fields f hm).source
    · exact Table.aliasesFit_of_respelled hr hu.tables

end Select

end SqlEdit
