import SqlEdit.Proofs.Sample.Words
import SqlEdit.Proofs.Statement.Delete
import SqlEdit.Proofs.Statement.Insert
import SqlEdit.Proofs.Statement.Update

namespace SqlEdit

open Text (Solid)

theorem Text.getLast?_commaList {ts : List Text} (h : ∀ t ∈ ts, t ≠ []) :
    (commaList ts).getLast? = ts.getLast?.bind List.getLast? := by
  induction ts with
  | nil => rfl
  | cons t ts ih =>
      have ih := ih fun u hu => h u (List.mem_cons_of_mem _ hu)
      cases ts with
      | nil => simp [commaList_singleton]
      | cons u us =>
          have hne : commaList (u :: us) ≠ [] := by
            intro hn
            have hl := List.getLast?_eq_some_getLast (List.cons_ne_nil u us)
            rw [hn, hl, Option.bind_some] at ih
            exact h _ (List.mem_cons_of_mem _ (List.getLast_mem _)) (List.getLast?_eq_none_iff.1 ih.symm)
          rw [commaList_cons_cons, List.getLast?_append_of_ne_nil _ (List.cons_ne_nil _ _),
            List.getLast?_cons_cons, List.getLast?_cons_of_ne_nil hne, ih, List.getLast?_cons_cons]

theorem Clauses.getLast?_append_write {front : Text} {cs : List (Keyword × Text)} {d : Char}
    (hf : front.getLast? ≠ some d) (hc : ∀ c ∈ cs, c.2 ≠ [] ∧ c.2.getLast? ≠ some d) :
    (front ++ write cs).getLast? ≠ some d := by
  induction cs generalizing front with
  | nil => simpa [write] using hf
  | cons c cs ih =>
      obtain ⟨⟨hne, hl⟩, hcs⟩ := List.forall_mem_cons.1 hc
      have hw : front ++ write (c :: cs) = (front ++ (' ' :: c.1.text ++ [' ']) ++ c.2) ++ write cs := by
        simp [write]
      rw [hw]
      refine ih ?_ hcs
      rwa [List.getLast?_append_of_ne_nil _ hne]

theorem Clauses.forall_mem_present {P : Text → Prop} {cs : List (Keyword × Option Text)}
    (h : ∀ c ∈ cs, ∀ b ∈ c.2, P b) : ∀ c ∈ present cs, P c.2 :=
  fun c hc => h (c.1, some c.2) (mem_present.1 hc) c.2 rfl

namespace Sample

open Keyword (Apart Absent)
open Text (Closed)
open Nesting (Free)
open Clauses (present write)

variable {i : Ident} {c : Cell} {row : List Cell}

theorem columnName_injective : Function.Injective columnName :=
  fun _ _ h => List.append_cancel_left h

def entries (row : List Cell) : List (Text × Text) :=
  row.map fun (i, v) => (columnName i, v.render)

theorem nodup_entries (h : (row.map Prod.fst).Nodup) : ((entries row).map Prod.fst).Nodup := by
  have hm : (entries row).map Prod.fst = (row.map Prod.fst).map columnName := by
    simp [entries, Function.comp_def]
  rw [hm]
  exact h.map columnName_injective

namespace Query

/-- Whether a query has the columns it needs, and gives none of them two values. -/
def IsFilled : Query → Prop
  | select _ columns .. => columns ≠ []
  | insert _ row | update _ row _ => row ≠ [] ∧ (row.map Prod.fst).Nodup
  | delete .. => True

instance : DecidablePred IsFilled
  | select _ columns .. => inferInstanceAs (Decidable (columns ≠ []))
  | insert _ row | update _ row _ => inferInstanceAs (Decidable (row ≠ [] ∧ _))
  | delete .. => inferInstanceAs (Decidable True)

@[mk_iff]
structure WellFormed (q : Query) : Prop where
  table : IsIdent q.table
  mentioned : ∀ i ∈ q.mentioned, IsIdent i
  filter : ∀ c ∈ q.filter?, IsIdent c.1
  filled : q.IsFilled

instance (q : Query) : Decidable q.WellFormed :=
  decidable_of_iff' _ (wellFormed_iff q)

section Statements

variable (t : Ident) (columns : List Ident) (row : List Cell) (filter : Option Cell)

def selectOf (limit : Option UInt8) : Select where
  distinct := false
  fields := columns.map fun i => ⟨columnName i, none⟩
  tables := [.named (tableName t) none]
  condition := filter.map renderEqual
  groupBy := none
  having := none
  orderBy := none
  limit := limit.map fun n => decimal n.toNat

def insertOf : Insert where
  table := .named (tableName t) none
  fields := row.map fun (i, _) => columnName i
  values := row.map fun (_, v) => v.render

def updateOf (h : (row.map Prod.fst).Nodup) : Update where
  table := .named (tableName t) none
  assignments := ⟨entries row, nodup_entries h⟩
  condition := filter.map renderEqual

def deleteOf : Delete where
  table := .named (tableName t) none
  condition := filter.map renderEqual

end Statements

def statement : (q : Query) → q.WellFormed → Statement
  | select t columns filter limit, _ => .select (selectOf t columns filter limit)
  | insert t row, _ => .insert (insertOf t row)
  | update t row filter, h => .update (updateOf t row filter h.filled.2)
  | delete t filter, _ => .delete (deleteOf t filter)

theorem render_statement (q : Query) (h : q.WellFormed) : (q.statement h).render = q.render := by
  cases q with
  | select t columns filter limit =>
      have hf : (selectOf t columns filter limit).fields.map Field.render =
          columns.map columnName := List.map_map
      have ht : Table.renderList (selectOf t columns filter limit).tables = tableName t :=
        List.append_nil _
      change Select.render _ = _
      unfold Select.render render renderCondition
      rw [hf, ht]
      simp only [Select.clauses, selectOf, Keyword.renderClause, filter?, List.flatMap_cons,
        List.flatMap_nil, Bool.false_eq_true, if_false, List.append_nil, List.nil_append,
        List.append_assoc]
  | insert t row => rfl
  | update t row filter =>
      have he : (entries row).map Update.assignmentText = row.map renderEqual := List.map_map
      change "UPDATE ".toList ++ _ ++ " SET ".toList ++
        Text.commaList ((entries row).map Update.assignmentText) ++ _ = _
      rw [he]
      rfl
  | delete t filter => rfl

end Query

section Names

variable {ks : List Keyword} (ha : Apart ks) (h : IsIdent i)

include ha h

/-- Names of columns hold no keyword, since none begins like them. -/
theorem absent_columnName (hl : ∀ k ∈ ks, k.lead? ≠ some 'c') : Absent ks (columnName i) :=
  h.isName_columnName.absent ha fun k hk => (hl k hk).symm

theorem absent_tableName (hl : ∀ k ∈ ks, k.lead? ≠ some 't') : Absent ks (tableName i) :=
  h.isName_tableName.absent ha fun k hk => (hl k hk).symm

end Names

structure IsBody (t : Text) : Prop where
  solid : Solid t
  closed : Closed t
  last : t.getLast? ≠ some ';'

theorem isBody_decimal (n : Int) : IsBody (decimal n) :=
  ⟨solid_decimal n, closed_decimal n, getLast?_decimal_ne n⟩

section Cells

variable (h : IsIdent c.1)

include h

theorem isAssignment_cell : Update.IsAssignment (columnName c.1, c.2.render) where
  field := h.isName_columnName.solid
  value := c.2.solid_render
  free := h.isName_columnName.free (by decide)
  closed := h.isName_columnName.closed

theorem isBody_renderEqual : IsBody (renderEqual c) := by
  refine ⟨Update.solid_assignmentText (isAssignment_cell h), ?_, ?_⟩
  · exact (Update.closed_assignmentText (isAssignment_cell h)).2 c.2.closed_render
  · rw [renderEqual, List.getLast?_append_of_ne_nil _ c.2.solid_render.ne_nil]
    exact c.2.getLast?_render_ne

theorem comma_renderEqual : Free (· == ',') .top (renderEqual c) := by
  have hc := h.isName_columnName.closed
  rw [renderEqual, Nesting.free_append, Nesting.free_append, Nesting.after_append, hc]
  refine ⟨⟨h.isName_columnName.free (by decide), by decide⟩, ?_⟩
  exact c.2.free_render (by decide) (by decide)

theorem absent_renderEqual {ks : List Keyword} (ha : Apart ks) (hl : ∀ k ∈ ks, k.lead? ≠ some 'c') :
    Absent ks (renderEqual c) := by
  have hv : Absent ks (' ' :: '=' :: ' ' :: c.2.render) := by
    rw [Keyword.absent_space_append ha, Keyword.absent_cons_iff ha (by decide) (by decide),
      Keyword.absent_space_append ha]
    exact Keyword.absent_of_free ha (c.2.free_render (by decide) (by decide))
  have he : renderEqual c = columnName c.1 ++ ' ' :: '=' :: ' ' :: c.2.render := by
    simp [renderEqual]
  rw [he]
  exact Keyword.absent_append ha h.isName_columnName.closed (border_of_head rfl) rfl
    (absent_columnName ha h hl) hv

end Cells

section Tables

theorem sameWord_eq_false {s t : Text} (h : Text.lead? s ≠ Text.lead? t) :
    Text.sameWord s t = false := by
  rw [← Bool.not_eq_true]
  intro hs
  refine h ?_
  rw [Text.lead?, Text.lead?, ← List.head?_map, ← List.head?_map]
  exact congrArg List.head? (eq_of_beq hs)

theorem isGrammarWord_tableName (i : Ident) : Table.isGrammarWord (tableName i) = false := by
  have hl (w : Text) (hw : Text.lead? w ≠ some 't') : (tableName i).sameWord w = false :=
    sameWord_eq_false hw.symm
  have hm : ∀ w ∈ Join.modifiers, Text.lead? w ≠ some 't' := by decide
  rw [Table.isGrammarWord, Constraint.begins, hl _ (by decide), hl _ (by decide), Join.isJoin,
    hl _ (by decide), Join.isModifier]
  simpa using fun w hw => hl w (hm w hw)

variable (h : IsIdent i)

include h

theorem areWellFormed_table : Table.AreWellFormed [.named (tableName i) none] := by
  have hn := h.isName_tableName
  refine ⟨⟨?_, ?_, ?_, ?_, rfl, nofun, nofun⟩, trivial⟩
  · exact List.forall_mem_singleton.2 hn.isClean
  · exact List.forall_mem_singleton.2 hn.splitWords_eq
  · exact List.forall_mem_singleton.2 (hn.free (by decide))
  · exact List.forall_mem_singleton.2 (isGrammarWord_tableName i)

theorem isTarget_table : (Table.named (tableName i) none).IsTarget := by
  have hn := h.isName_tableName
  refine ⟨rfl, Nesting.pieces_singleton.2 (hn.free (by decide)), ?_, hn.solid⟩
  exact List.forall_mem_singleton.2 hn.ne_nil

theorem getLast?_clauses_ne {cs : List (Keyword × Option Text)} {r : Text} (front : Text)
    (hb : ∀ c ∈ cs, ∀ b ∈ c.2, IsBody b) (he : r = front ++ tableName i ++ write (present cs)) :
    r.getLast? ≠ some ';' := by
  rw [he]
  refine Clauses.getLast?_append_write ?_ fun c hc => ?_
  · rw [List.getLast?_append_of_ne_nil _ h.isName_tableName.ne_nil]
    exact h.isName_tableName.getLast?_ne
  · have hc := Clauses.forall_mem_present hb c hc
    exact ⟨hc.solid.ne_nil, hc.last⟩

end Tables

theorem wellFormed_field (h : IsIdent i) : (⟨columnName i, none⟩ : Field).WellFormed := by
  have hn := h.isName_columnName
  refine ⟨?_, ?_, ?_, nofun, fun _ => ⟨hn.splitWords_eq, ?_⟩⟩
  · exact List.forall_mem_singleton.2 hn.isClean
  · exact List.forall_mem_singleton.2 (hn.free (by decide))
  · exact List.forall_mem_singleton.2 (absent_columnName Select.apart_from h (by decide))
  · exact absent_columnName Field.apart h (by decide)

namespace Query

variable {t : Ident} {columns : List Ident} {row : List Cell} {filter : Option Cell}
  {limit : Option UInt8}

theorem isBody_condition (h : ∀ c ∈ filter, IsIdent c.1) :
    ∀ b ∈ filter.map renderEqual, IsBody b := by
  intro b hb
  obtain ⟨c, hc, rfl⟩ := Option.map_eq_some_iff.1 hb
  exact isBody_renderEqual (h c hc)

theorem parse_deleteOf (ht : IsIdent t) (hf : ∀ c ∈ filter, IsIdent c.1) :
    Statement.parse (deleteOf t filter).render = .ok (.delete (deleteOf t filter)) := by
  have hb := isBody_condition hf
  have hs : (deleteOf t filter).Shaped :=
    ⟨isTarget_table ht, fun b hm => (hb b hm).solid, fun _ => ht.isName_tableName.closed⟩
  have hl : (deleteOf t filter).render.getLast? ≠ some ';' := by
    have hc : ∀ c ∈ (deleteOf t filter).clauses, ∀ b ∈ c.2, IsBody b :=
      List.forall_mem_singleton.2 hb
    refine getLast?_clauses_ne ht (Keyword.delete.text ++
      ' ' :: (Keyword.fromTables.text ++ [' '])) hc ?_
    rw [Delete.render_eq, List.append_assoc, List.append_assoc, List.cons_append, List.append_assoc]
    rfl
  exact (Delete.parse_render_iff hs).2 ⟨rfl, absent_tableName Delete.apart ht (by decide), hl⟩

theorem parse_insertOf (ht : IsIdent t) (hne : row ≠ []) (hi : ∀ c ∈ row, IsIdent c.1) :
    Statement.parse (insertOf t row).render = .ok (.insert (insertOf t row)) := by
  have hn := ht.isName_tableName
  refine Insert.parse_render_of_shaped
    ⟨rfl, ⟨hn.ne_nil, hn.all_of_nameChars (by decide)⟩, ?_, ?_, ?_⟩
  · have hm (P : Text → Prop) (hp : ∀ c ∈ row, P (columnName c.1)) :
        ∀ u ∈ (insertOf t row).fields, P u := List.forall_mem_map.2 hp
    refine ⟨by simpa [insertOf] using hne, hm _ fun c hc => ?_, hm _ fun c hc => ?_,
      hm _ fun c hc => ?_, hm _ fun c hc => ?_⟩
    · exact (hi c hc).isName_columnName.solid
    · exact (hi c hc).isName_columnName.closed
    · exact (hi c hc).isName_columnName.free (by decide)
    · exact (hi c hc).isName_columnName.free (by decide)
  · have hm (P : Text → Prop) (hp : ∀ c ∈ row, P c.2.render) :
        ∀ u ∈ (insertOf t row).values, P u := List.forall_mem_map.2 hp
    refine ⟨by simpa [insertOf] using hne, hm _ fun c _ => c.2.solid_render,
      hm _ fun c _ => c.2.closed_render, hm _ fun c _ => ?_, hm _ fun c _ => ?_⟩
    · exact c.2.free_render (by decide) (by decide)
    · exact c.2.free_render (by decide) (by decide)
  · simp [insertOf]

theorem isBody_row (hne : row ≠ []) (h : ∀ c ∈ row, IsIdent c.1) :
    IsBody (Text.commaList (row.map renderEqual)) := by
  have hb : ∀ t ∈ row.map renderEqual, IsBody t :=
    List.forall_mem_map.2 fun c hc => isBody_renderEqual (h c hc)
  have hn : row.map renderEqual ≠ [] := by simpa using hne
  refine ⟨Text.solid_commaList hn fun t ht => (hb t ht).solid,
    Text.closed_commaList fun t ht => (hb t ht).closed, ?_⟩
  rw [Text.getLast?_commaList fun t ht => (hb t ht).solid.ne_nil,
    List.getLast?_eq_some_getLast hn, Option.bind_some]
  exact (hb _ (List.getLast_mem hn)).last

theorem pieces_row (h : ∀ c ∈ row, IsIdent c.1) : Nesting.Pieces (· == ',') (row.map renderEqual) :=
  ⟨List.forall_mem_map.2 fun c hc => comma_renderEqual (h c hc), fun t ht =>
    List.forall_mem_map.2 (fun c hc => (isBody_renderEqual (h c hc)).closed) t
      (List.mem_of_mem_dropLast ht)⟩

theorem parse_updateOf (ht : IsIdent t) (hne : row ≠ []) (hi : ∀ c ∈ row, IsIdent c.1)
    (hd : (row.map Prod.fst).Nodup) (hf : ∀ c ∈ filter, IsIdent c.1) :
    Statement.parse (updateOf t row filter hd).render = .ok (.update (updateOf t row filter hd)) := by
  have hb := isBody_condition hf
  have he : (updateOf t row filter hd).listText = Text.commaList (row.map renderEqual) :=
    congrArg Text.commaList List.map_map
  have hr := isBody_row hne hi
  have hp := pieces_row hi
  have hs : (updateOf t row filter hd).Shaped := by
    refine ⟨isTarget_table ht, ht.isName_tableName.closed, ?_, ?_, ?_, fun b hm => (hb b hm).solid,
      fun _ => he ▸ hr.closed⟩
    · simpa [updateOf, entries] using hne
    · exact List.forall_mem_map.2 fun c hc => isAssignment_cell (hi c hc)
    · rwa [show (updateOf t row filter hd).assignments.entries.map Update.assignmentText =
        row.map renderEqual from List.map_map]
  have hl : (updateOf t row filter hd).render.getLast? ≠ some ';' := by
    have hc : ∀ c ∈ (updateOf t row filter hd).clauses, ∀ b ∈ c.2, IsBody b := by
      refine List.forall_mem_cons.2 ⟨?_, List.forall_mem_singleton.2 hb⟩
      rintro b ⟨rfl⟩
      exact he ▸ hr
    refine getLast?_clauses_ne ht (Keyword.update.text ++ [' ']) hc ?_
    rw [Update.render_eq, List.append_assoc, List.append_assoc]
    rfl
  refine (Update.parse_render_iff hs).2 ⟨rfl, absent_tableName Update.apart ht (by decide), ?_, hl⟩
  rw [he, Keyword.absent_commaList_iff Delete.apart (by decide) hp]
  exact List.forall_mem_map.2 fun c hc => absent_renderEqual (hi c hc) Delete.apart (by decide)

theorem isBody_clauses (hf : ∀ c ∈ filter, IsIdent c.1) :
    ∀ c ∈ (selectOf t columns filter limit).clauses, ∀ b ∈ c.2,
      IsBody b ∧ Absent Select.clauseKeywords b := by
  simp only [Select.clauses, List.forall_mem_cons, List.not_mem_nil, false_imp_iff,
    implies_true, and_true]
  refine ⟨fun b hm => ?_, by rintro b ⟨⟩, by rintro b ⟨⟩, by rintro b ⟨⟩, fun b hm => ?_⟩
  · obtain ⟨c, hc, rfl⟩ := Option.map_eq_some_iff.1 hm
    exact ⟨isBody_renderEqual (hf c hc), absent_renderEqual (hf c hc) Select.apart (by decide)⟩
  · obtain ⟨n, -, rfl⟩ := Option.map_eq_some_iff.1 hm
    exact ⟨isBody_decimal _, Keyword.absent_of_free Select.apart (free_decimal (by decide) _)⟩

theorem parse_selectOf (ht : IsIdent t) (hne : columns ≠ []) (hi : ∀ i ∈ columns, IsIdent i)
    (hf : ∀ c ∈ filter, IsIdent c.1) :
    Statement.parse (selectOf t columns filter limit).render =
      .ok (.select (selectOf t columns filter limit)) := by
  have hn := ht.isName_tableName
  have hfs : ∀ f ∈ (selectOf t columns filter limit).fields, f.WellFormed :=
    List.forall_mem_map.2 fun i hm => wellFormed_field (hi i hm)
  have hts := areWellFormed_table ht
  have he : Table.renderList (selectOf t columns filter limit).tables = tableName t :=
    List.append_nil _
  have hb : ∀ c ∈ (selectOf t columns filter limit).clauses, ∀ b ∈ c.2,
      IsBody b ∧ Absent Select.clauseKeywords b := isBody_clauses hf
  have hp := Clauses.forall_mem_present hb
  have hs : (selectOf t columns filter limit).Shaped := by
    refine ⟨by simpa [selectOf] using hne, fun f hm => (hfs f hm).shaped, ?_,
      fun c hc => (hp c hc).1.solid, fun _ => he ▸ hn.closed⟩
    exact Table.areChains_of_areWellFormed (List.cons_ne_nil _ _) (by rintro u ⟨rfl⟩; rfl) hts
  have hl : (selectOf t columns filter limit).render.getLast? ≠ some ';' := by
    refine getLast?_clauses_ne ht (Keyword.select.text ++ ' ' ::
      (Select.projection false (selectOf t columns filter limit).fields ++
        ' ' :: Keyword.fromTables.text ++ [' '])) (fun c hc b hm => (hb c hc b hm).1) ?_
    rw [Select.render_eq, he]
    simp [Clauses.write, selectOf]
  refine (Select.parse_render_iff hs).2 ⟨fun f hm => (hfs f hm).name,
    fun f hm => (hfs f hm).absent_from, fun _ f hm => ?_, Table.aliasesFit_of_areWellFormed hts, ?_, hl⟩
  · obtain ⟨i, -, rfl⟩ := List.mem_map.1 (List.mem_of_mem_head? hm)
    exact Keyword.strip?_eq_none (by decide) (show some 'c' ≠ Keyword.distinct.lead? by decide)
  · rw [he]
    exact Clauses.placed_of_absent (absent_tableName Select.apart ht (by decide)) hn.closed
      fun c hc => ⟨(hp c hc).2, (hp c hc).1.closed⟩

theorem parse_eq_statement (q : Query) (h : q.WellFormed) :
    Statement.parse q.render = .ok (q.statement h) := by
  have hr (row : List Cell) (hi : ∀ i ∈ row.map Prod.fst, IsIdent i) : ∀ c ∈ row, IsIdent c.1 :=
    List.forall_mem_map.1 hi
  rw [← render_statement q h]
  cases q with
  | select t columns filter limit =>
      exact parse_selectOf h.table h.filled h.mentioned h.filter
  | insert t row => exact parse_insertOf h.table h.filled.1 (hr row h.mentioned)
  | update t row filter =>
      exact parse_updateOf h.table h.filled.1 (hr row h.mentioned) h.filled.2 h.filter
  | delete t filter => exact parse_deleteOf h.table h.filter

/-- A sample query is read back as the statement that it describes, whatever its values hold. -/
theorem parse_render (q : Query) (h : q.WellFormed) :
    Statement.parse q.render = .ok (q.statement h) ∧ (q.statement h).isDegraded = false ∧
      (q.statement h).render = q.render := by
  refine ⟨parse_eq_statement q h, ?_, render_statement q h⟩
  cases q <;> rfl

theorem parse_render_of_quotes :
    let q : Query := .update "a_b1".toList
      [("x".toList, .text "it's, (c = 'd';\n WHERE e".toList), ("y_z2".toList, .integer (-5))]
      (some ("x".toList, .text "' LIMIT 1".toList))
    q.render = ("UPDATE t_a_b1 SET c_x = 'it''s, (c = ''d'';\n WHERE e', c_y_z2 = -5 " ++
        "WHERE c_x = ''' LIMIT 1'").toList ∧
      ∃ h : q.WellFormed, Statement.parse q.render = .ok (q.statement h) ∧
        (q.statement h).isDegraded = false ∧ (q.statement h).render = q.render := by
  intro q
  have h : q.WellFormed := by decide
  exact ⟨by decide +kernel, h, parse_render q h⟩

end Query

end Sample

end SqlEdit
