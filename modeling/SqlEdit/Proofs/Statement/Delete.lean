import Mathlib.Data.List.Nodup
import SqlEdit.Proofs.Statement.Parse
import SqlEdit.Proofs.Statement.Target

namespace SqlEdit

open Text (Closed Solid Countable)
open Clauses (Placed present write)
open Keyword (Apart Absent)

namespace Delete

def clauses (d : Delete) : List (Keyword × Option Text) :=
  [(.condition, d.condition)]

structure Shaped (d : Delete) : Prop where
  target : d.table.IsTarget
  condition : ∀ c ∈ d.condition, Solid c
  closed : d.condition.isSome → Closed d.table.render

def Unambiguous (d : Delete) : Prop :=
  d.table.isAliasAs = false ∧ Absent [.condition] d.table.render ∧ d.render.getLast? ≠ some ';'

instance (d : Delete) : Decidable d.Unambiguous :=
  inferInstanceAs (Decidable (_ ∧ _ ∧ _))

theorem apart : Apart [.condition] := by decide

variable {d : Delete} {t : Text}

theorem read?_eq_some_iff :
    read? t = some d ↔ ∃ rest, Keyword.fromTables.strip? t.trimStart = some rest ∧
      Table.readTarget? (Clauses.split [.condition] rest).head = some d.table ∧
      Clauses.bodyOf? [.condition] rest .condition = d.condition := by
  obtain ⟨table, condition⟩ := d
  simp only [read?, Option.bind_eq_bind, Option.bind_eq_some_iff, Option.some.injEq,
    Delete.mk.injEq, Clauses.body?_split [.condition] (i := 0) rfl]
  grind

theorem shaped_of_read? (h : read? t = some d) : d.Shaped := by
  obtain ⟨rest, -, ht, hc⟩ := read?_eq_some_iff.1 h
  refine ⟨Table.isTarget_of_readTarget? (Clauses.trim_head_split ..) ht, fun c hd => ?_,
    fun hd => ?_⟩
  · rw [hd] at hc
    exact Clauses.solid_of_bodyOf? hc
  · obtain ⟨c, hd⟩ := Option.isSome_iff_exists.1 hd
    rw [hd] at hc
    exact Table.closed_of_readTarget? (Clauses.closed_head apart (by simp) hc) ht

theorem render_eq (d : Delete) :
    d.render = Keyword.delete.text ++ ' ' :: (Keyword.fromTables.text ++ ' ' ::
      (d.table.render ++ write (present d.clauses))) := by
  have he : "DELETE FROM ".toList =
      Keyword.delete.text ++ ' ' :: (Keyword.fromTables.text ++ [' ']) := by decide
  unfold render
  rw [Clauses.write_present, clauses, List.flatMap_singleton, he]
  simp only [List.append_assoc, List.cons_append, List.nil_append]

theorem countP_render_le (h : read? t = some d) :
    d.render.countP (· == ';') ≤ t.countP (· == ';') := by
  obtain ⟨rest, hr, ht, hc⟩ := read?_eq_some_iff.1 h
  have hs := Clauses.countP_split Text.countable_semicolon apart (by decide) rest
  have ht := Table.countP_render_le Text.countable_semicolon ht
  have hr := Keyword.countP_strip? (p := (· == ';')) hr
  have hw := Clauses.countP_write_present d.clauses (by simp [clauses]; decide)
  have hd := Keyword.countP_text (k := .delete) (by decide)
  have hf := Keyword.countP_text (k := .fromTables) (by decide)
  rw [Text.countP_trimStart Text.countable_semicolon] at hr
  simp only [List.map_singleton, List.sum_singleton, hc, clauses] at hs hw
  rw [render_eq, clauses]
  simp only [List.countP_append, List.countP_cons, hd, hf, hw]
  simp
  omega

variable (h : d.Shaped)

include h in
theorem closed_of_present (hne : present d.clauses ≠ []) : Closed d.table.render := by
  refine h.closed ?_
  cases hc : d.condition with
  | none => simp [clauses, hc, present] at hne
  | some c => rfl

include h in
theorem solid_of_mem_present : ∀ c ∈ present d.clauses, Solid c.2 := by
  intro c hc
  have hc := Clauses.mem_present.1 hc
  rw [clauses, List.mem_singleton, Prod.mk.injEq] at hc
  exact h.condition c.2 hc.2.symm

theorem mem_of_mem_present : ∀ c ∈ present d.clauses, c.1 ∈ [Keyword.condition] := by
  intro c hc
  have hc := Clauses.mem_present.1 hc
  rw [clauses, List.mem_singleton, Prod.mk.injEq] at hc
  exact List.mem_singleton.2 hc.1

theorem nodup_clauses : (d.clauses.map Prod.fst).Nodup :=
  List.nodup_singleton _

include h in
theorem placed_iff :
    Placed [.condition] d.table.render (present d.clauses) ↔ Absent [.condition] d.table.render := by
  rw [clauses]
  cases hc : d.condition with
  | none =>
      rw [Clauses.present_cons_none]
      rfl
  | some c =>
      have hf := h.closed (by rw [hc]; rfl)
      rw [Clauses.present_cons_some, Placed]
      exact ⟨fun hp => hp.1, fun ha => ⟨ha, hf, fun k hk => by simp at hk⟩⟩

include h in
theorem solid_render : Solid d.render := by
  have hk : Solid Keyword.delete.text := ⟨by decide, by decide⟩
  have hw := Clauses.solid_append_write h.target.solid (solid_of_mem_present h)
  have hs := hk.append hw (' ' :: (Keyword.fromTables.text ++ [' ']))
  rw [render_eq]
  simpa using hs

include h in
/-- A DELETE is read back from the text behind the first keyword, but for its alias and a keyword
in its target. -/
theorem read?_render_iff :
    read? (' ' :: (Keyword.fromTables.text ++ ' ' :: (d.table.render ++ write (present d.clauses)))) =
        some d ↔ d.table.isAliasAs = false ∧ Absent [.condition] d.table.render := by
  have hs := Clauses.split_write_iff apart h.target.solid mem_of_mem_present
    (solid_of_mem_present h) (nodup_clauses.sublist (Clauses.map_fst_present _))
  rw [placed_iff h] at hs
  have hb : (present d.clauses).lookup .condition = d.condition :=
    Clauses.lookup_present nodup_clauses (List.mem_singleton_self _)
  rw [read?_eq_some_iff, Keyword.strip?_trimStart_text (by decide)]
  constructor
  · rintro ⟨rest, he, ht, -⟩
    obtain rfl := Option.some.inj he
    have hab := Clauses.absent_of_head apart mem_of_mem_present (closed_of_present h)
      (Table.countP_render_le Text.countable_not_isBlank ht)
    rw [← List.cons_append, (hs.2 hab).head, Table.readTarget?_render h.target] at ht
    exact ⟨ht, hab⟩
  · rintro ⟨ha, hab⟩
    obtain ⟨hh, hbs⟩ := hs.2 hab
    rw [List.cons_append] at hh hbs
    refine ⟨_, rfl, ?_, ?_⟩
    · rw [hh, Table.readTarget?_render h.target, ha]
    · rw [hbs _ (by simp), hb]

include h in
theorem parse_render_iff : Statement.parse d.render = .ok (.delete d) ↔ d.Unambiguous := by
  have hp := Statement.parse_render_iff (s := .delete d) .delete rfl (render_eq d)
    (solid_render h) fun k t hr => countP_render_le (Statement.readBody_delete_iff.1 hr).2
  rw [Statement.readBody_delete_iff, read?_render_iff h] at hp
  exact hp.trans ⟨fun ⟨hl, _, ha, hab⟩ => ⟨ha, hab, hl⟩, fun ⟨ha, hab, hl⟩ => ⟨hl, rfl, ha, hab⟩⟩

end Delete

end SqlEdit
