import SqlEdit.Proofs.Clauses.Pieces
import SqlEdit.Proofs.Statement.Projection
import SqlEdit.Proofs.Statement.Tables

namespace SqlEdit

open Text (Closed Solid Countable)
open Clauses (Placed present write bodyOf?)
open Keyword (Apart Absent First)

namespace Select

structure Shaped (s : Select) : Prop where
  ne_nil : s.fields ≠ []
  fields : ∀ f ∈ s.fields, f.Shaped
  tables : ∃ cs, s.tables = cs.flatten ∧ Table.AreChains cs
  clauses : ∀ c ∈ present s.clauses, Solid c.2
  closed : present s.clauses ≠ [] → Closed (Table.renderList s.tables)

@[mk_iff]
structure Unambiguous (s : Select) : Prop where
  aliases : ∀ f ∈ s.fields, f.HasPlainAlias
  fields : ∀ f ∈ s.fields, Absent [.fromTables] f.render
  distinct : s.distinct = false → ∀ f ∈ s.fields.head?, Keyword.distinct.strip? f.render = none
  tables : Table.AliasesFit s.tables
  clauses : Placed clauseKeywords (Table.renderList s.tables) (present s.clauses)
  semicolon : s.render.getLast? ≠ some ';'

instance (s : Select) : Decidable s.Unambiguous :=
  decidable_of_iff' _ (unambiguous_iff s)

theorem apart : Apart clauseKeywords := by decide

theorem apart_from : Apart [.fromTables] := by decide

theorem nodup_clauseKeywords : clauseKeywords.Nodup := by decide

variable {s : Select} {t : Text}

theorem map_fst_clauses (s : Select) : s.clauses.map Prod.fst = clauseKeywords := rfl

theorem read_eq_ok_iff_of_first {o : Occurrence} (h : First [.fromTables] t .fromTables o) :
    read t = .ok s ↔ readProjection? o.before = some (s.distinct, s.fields) ∧
      Table.readList (Clauses.split clauseKeywords o.after).head = .ok s.tables ∧
      ∀ c ∈ s.clauses, bodyOf? clauseKeywords o.after c.1 = c.2 := by
  obtain ⟨distinct, fields, tables, condition, groupBy, having, orderBy, limit⟩ := s
  have hb (i : Nat) (k : Keyword) (h : clauseKeywords[i]? = some k) (t : Text) :=
    Clauses.body?_split clauseKeywords h t
  rw [read, h.find?_self apart_from]
  simp only [clauses, List.forall_mem_cons]
  cases readProjection? o.before with
  | none => simp
  | some p =>
      obtain ⟨distinct', fields'⟩ := p
      cases hl : Table.readList (Clauses.split clauseKeywords o.after).head with
      | error e => simp [bind, Except.bind]
      | ok ts =>
          simp [bind, Except.bind, pure, Except.pure, hb 0 _ rfl, hb 1 _ rfl, hb 2 _ rfl,
            hb 3 _ rfl, hb 4 _ rfl, and_assoc]

theorem read_eq_ok_iff :
    read t = .ok s ↔ ∃ o, First [.fromTables] t .fromTables o ∧
      readProjection? o.before = some (s.distinct, s.fields) ∧
      Table.readList (Clauses.split clauseKeywords o.after).head = .ok s.tables ∧
      ∀ c ∈ s.clauses, bodyOf? clauseKeywords o.after c.1 = c.2 := by
  constructor
  · intro h
    obtain hn | ⟨k, o, hf⟩ := Keyword.absent_or_exists_first apart_from t
    · have hfn : Keyword.fromTables.find? t = none := by
        rw [Keyword.find?, hn _ (by simp)]
        rfl
      simp [read, hfn] at h
    · obtain rfl := List.mem_singleton.1 hf.mem
      exact ⟨o, hf, (read_eq_ok_iff_of_first hf).1 h⟩
  · rintro ⟨o, hf, h⟩
    exact (read_eq_ok_iff_of_first hf).2 h

theorem render_eq (s : Select) :
    s.render = Keyword.select.text ++ ' ' :: (projection s.distinct s.fields ++
      write [(.fromTables, Table.renderList s.tables ++ write (present s.clauses))]) := by
  have hs : "SELECT ".toList = Keyword.select.text ++ [' '] := by decide
  have hf : " FROM ".toList = ' ' :: Keyword.fromTables.text ++ [' '] := by decide
  unfold render
  rw [projection, write, List.flatMap_singleton, Clauses.write_present, hs, hf]
  simp only [List.append_assoc, List.cons_append, List.nil_append]

theorem shaped_of_read (h : read t = .ok s) : s.Shaped := by
  obtain ⟨o, ho, hp, hl, hb⟩ := read_eq_ok_iff.1 h
  have ht := Clauses.trim_head_split clauseKeywords o.after
  have hc (c) (hm : c ∈ present s.clauses) : bodyOf? clauseKeywords o.after c.1 = some c.2 :=
    hb _ (Clauses.mem_present.1 hm)
  obtain ⟨cs, he, hcs, -⟩ := Table.exists_of_readList ht hl
  refine ⟨(readProjection?_eq_some_iff.1 hp).1, shaped_of_readProjection? ho.closed hp, ⟨cs, he, hcs⟩,
    fun c hm => Clauses.solid_of_bodyOf? (hc c hm), fun hne => ?_⟩
  obtain ⟨c, hm⟩ := List.exists_mem_of_ne_nil _ hne
  have hk : c.1 ∈ clauseKeywords :=
    map_fst_clauses s ▸ (Clauses.map_fst_present s.clauses).subset (List.mem_map_of_mem hm)
  exact Table.closed_renderList ht (Clauses.closed_head apart hk (hc c hm)) hl

theorem countP_render_le (h : read t = .ok s) :
    s.render.countP (· == ';') ≤ t.countP (· == ';') := by
  have hcs := Text.countable_semicolon
  obtain ⟨o, ho, hp, hl, hb⟩ := read_eq_ok_iff.1 h
  have hp := countP_projection_le hp
  have ht := Table.countP_renderList_le hcs (Clauses.trim_head_split clauseKeywords o.after) hl
  have hs := Clauses.countP_split hcs apart nodup_clauseKeywords o.after
  have hw := Clauses.countP_write_present s.clauses (by simp [clauses]; decide)
  have hm : (s.clauses.map fun c => (c.2.getD []).countP (· == ';')) =
      clauseKeywords.map fun k => ((bodyOf? clauseKeywords o.after k).getD []).countP (· == ';') := by
    rw [← map_fst_clauses s, List.map_map, map_fst_clauses]
    exact List.map_congr_left fun c hc => by rw [Function.comp_apply, hb c hc]
  have he : t.countP (· == ';') = o.before.countP (· == ';') + o.matched.countP (· == ';') +
      o.after.countP (· == ';') := by
    rw [← ho.text_eq, Occurrence.text, List.countP_append, List.countP_append]
  have hks := Keyword.countP_text (k := .select) (by decide)
  have hkf := Keyword.countP_text (k := .fromTables) (by decide)
  rw [hm] at hw
  rw [render_eq, write, List.flatMap_singleton]
  simp only [List.countP_append, List.countP_cons, hks, hkf, hw]
  simp
  omega

variable (h : s.Shaped)

include h in
theorem solid_renderList : Solid (Table.renderList s.tables) := by
  obtain ⟨cs, he, hcs⟩ := h.tables
  rw [he]
  exact Table.solid_renderList hcs

include h in
theorem solid_render : Solid s.render := by
  have hk : Solid Keyword.select.text := ⟨by decide, by decide⟩
  have hb := Clauses.solid_append_write (solid_renderList h) h.clauses
  have hp := solid_projection h.ne_nil h.fields s.distinct
  have hw : Solid (projection s.distinct s.fields ++
      write [(.fromTables, Table.renderList s.tables ++ write (present s.clauses))]) :=
    Clauses.solid_append_write hp (List.forall_mem_singleton.2 hb)
  rw [render_eq]
  simpa using hk.append hw [' ']

theorem lookup_clauses_iff {body? : Keyword → Option Text} :
    (∀ c ∈ s.clauses, body? c.1 = c.2) ↔
      ∀ k ∈ clauseKeywords, body? k = (present s.clauses).lookup k := by
  have hl (c) (hc : c ∈ s.clauses) : (present s.clauses).lookup c.1 = c.2 :=
    Clauses.lookup_present (map_fst_clauses s ▸ nodup_clauseKeywords) hc
  rw [← map_fst_clauses s, List.forall_mem_map]
  exact forall₂_congr fun c hc => by rw [hl c hc]

include h in
/-- The tables and the clauses are read back from the text behind FROM. -/
theorem read_tables_iff :
    Table.readList (Clauses.split clauseKeywords
        (' ' :: Table.renderList s.tables ++ write (present s.clauses))).head = .ok s.tables ∧
      (∀ c ∈ s.clauses, bodyOf? clauseKeywords
        (' ' :: Table.renderList s.tables ++ write (present s.clauses)) c.1 = c.2) ↔
    Table.AliasesFit s.tables ∧
      Placed clauseKeywords (Table.renderList s.tables) (present s.clauses) := by
  have hs := solid_renderList h
  have hf := map_fst_clauses s ▸ Clauses.map_fst_present s.clauses
  have hk : ∀ c ∈ present s.clauses, c.1 ∈ clauseKeywords := fun c hc =>
    hf.subset (List.mem_map_of_mem hc)
  have hn := nodup_clauseKeywords.sublist hf
  have hiff := Clauses.split_write_iff apart hs hk h.clauses hn
  have ht : Table.readList (Table.renderList s.tables) = .ok s.tables ↔
      Table.AliasesFit s.tables := by
    obtain ⟨cs, he, hcs⟩ := h.tables
    rw [he]
    exact Table.readList_renderList_iff hcs
  rw [lookup_clauses_iff]
  constructor
  · rintro ⟨hl, hb⟩
    have hw := Table.countP_renderList_le Text.countable_not_isBlank
      (Clauses.trim_head_split ..) hl
    have hp := Clauses.placed_of_head apart hs hk h.clauses hn h.closed hw hb
    rw [(hiff.2 hp).head, ht] at hl
    exact ⟨hl, hp⟩
  · rintro ⟨ha, hp⟩
    obtain ⟨hh, hb⟩ := hiff.2 hp
    rw [hh, ht]
    exact ⟨ha, hb⟩

include h in
theorem absent_projection_iff :
    Absent [.fromTables] (projection s.distinct s.fields) ↔
      ∀ f ∈ s.fields, Absent [.fromTables] f.render := by
  have hl := Keyword.absent_commaList_iff apart_from (by decide) (pieces_render h.fields)
  rw [List.forall_mem_map] at hl
  rw [← hl, projection]
  cases s.distinct with
  | false => rfl
  | true =>
      have hd : "DISTINCT ".toList = "DISTINCT".toList ++ [' '] := by decide
      have ha : Absent [.fromTables] "DISTINCT".toList := by decide
      rw [if_pos rfl, hd, List.append_assoc, List.singleton_append,
        Keyword.absent_append_cons_iff apart_from (by decide) (by decide) (by decide) (by decide)]
      exact and_iff_right ha

include h in
/-- No FROM stands in a projection that is read back. -/
theorem absent_of_read {body : Text}
    (hr : read (' ' :: projection s.distinct s.fields ++ write [(.fromTables, body)]) = .ok s) :
    Absent [.fromTables] (projection s.distinct s.fields) := by
  obtain hn | ⟨k, p, hp⟩ :=
    Keyword.absent_or_exists_first apart_from (projection s.distinct s.fields)
  · exact hn
  · obtain rfl := List.mem_singleton.1 hp.mem
    have hc := closed_projection h.fields s.distinct
    have hf : First [.fromTables]
        (' ' :: projection s.distinct s.fields ++ write [(.fromTables, body)])
        .fromTables ((p.behind [' ']).extend (write [(.fromTables, body)])) :=
      Clauses.first_write apart_from (by simp) (fun _ => hc) hp
    have hre : readProjection? p.before = some (s.distinct, s.fields) :=
      ((read_eq_ok_iff_of_first hf).1 hr).1
    have hat := ((Keyword.mem_occurrences_iff (by decide)).1 hp.occurs).2
    have hl : p.matched.length = "FROM".toList.length := Keyword.length_of_read? rfl hat.read
    have he : p.before ++ (p.matched ++ p.after) = projection s.distinct s.fields := by
      rw [← hp.text_eq, Occurrence.text, List.append_assoc]
    refine absurd hre (readProjection?_ne h.ne_nil h.fields he ?_)
    rw [List.length_append, hl]
    exact Nat.le_add_right ..

include h in
theorem read_render_iff :
    read (' ' :: projection s.distinct s.fields ++
      write [(.fromTables, Table.renderList s.tables ++ write (present s.clauses))]) = .ok s ↔
    (∀ f ∈ s.fields, f.HasPlainAlias) ∧
      (∀ f ∈ s.fields, Absent [.fromTables] f.render) ∧
      (s.distinct = false → ∀ f ∈ s.fields.head?, Keyword.distinct.strip? f.render = none) ∧
      Table.AliasesFit s.tables ∧
      Placed clauseKeywords (Table.renderList s.tables) (present s.clauses) := by
  have hs := solid_projection h.ne_nil h.fields s.distinct
  have hc := closed_projection h.fields s.distinct
  have hab := absent_projection_iff h
  by_cases ha : Absent [.fromTables] (projection s.distinct s.fields)
  · have hf := Clauses.first_place apart_from (List.mem_singleton_self _) ha hc
      (Table.renderList s.tables ++ write (present s.clauses)) []
    have ht : Text.trim (' ' :: projection s.distinct s.fields ++ [' ']) =
        projection s.distinct s.fields := by
      rw [Text.trim_append_right (by decide), Text.trim_space, hs.trim_eq]
    have hwn : ' ' :: (Table.renderList s.tables ++ write (present s.clauses)) ++ write [] =
        ' ' :: Table.renderList s.tables ++ write (present s.clauses) := by
      simp [write]
    have hr := readProjection?_iff h.ne_nil h.fields ht
    have hti := read_tables_iff h
    rw [read_eq_ok_iff_of_first hf, Clauses.place]
    simp only [hwn]
    rw [hr, hti]
    grind
  · exact iff_of_false (fun hr => ha (absent_of_read h hr)) fun hx => ha (hab.2 hx.2.1)

include h in
theorem parse_render_iff : Statement.parse s.render = .ok (.select s) ↔ s.Unambiguous := by
  have hp := Statement.parse_render_iff (s := .select s) .select rfl (render_eq s)
    (solid_render h) fun k t hr => countP_render_le (Statement.readBody_select_iff.1 hr).2
  have hr := read_render_iff h
  rw [List.cons_append] at hr
  rw [Statement.readBody_select_iff, hr] at hp
  exact hp.trans ⟨fun ⟨hl, _, hf, ha, hd, ht, hc⟩ => ⟨hf, ha, hd, ht, hc, hl⟩,
    fun ⟨hf, ha, hd, ht, hc, hl⟩ => ⟨hl, rfl, hf, ha, hd, ht, hc⟩⟩

end Select

end SqlEdit
