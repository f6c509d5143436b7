import SqlEdit.Proofs.Checked.Fragment
import SqlEdit.Proofs.Checked.Statement
import SqlEdit.Statement.Edit
import SqlEdit.Statement.Render

namespace SqlEdit.Checked

def convertField (style : Style) (f : Field) : Checked Field := do
  if Identifier.isPlain f.expression then
    return { f with expression := style.convert f.expression }
  return { f with expression := ← rewrite style f.expression }

def convertConstraint (style : Style) : Constraint → Checked Constraint
  | .onCondition condition => return .onCondition (← rewrite style condition)
  | .usingColumns columns => return .usingColumns (← rewrite style columns)

def convertJoin (style : Style) (j : Join) : Checked Join :=
  return { j with constraint := ← j.constraint.mapM (convertConstraint style) }

def convertTable (style : Style) (t : Table) : Checked Table :=
  return { t with join := ← t.join.mapM (convertJoin style) }

def convertSelect (style : Style) (s : Select) : Checked Select :=
  return { s with
    fields := ← s.fields.mapM (convertField style)
    tables := ← s.tables.mapM (convertTable style)
    condition := ← s.condition.mapM (rewrite style)
    groupBy := ← s.groupBy.mapM (rewrite style)
    having := ← s.having.mapM (rewrite style)
    orderBy := ← s.orderBy.mapM (rewrite style) }

def convertUpdate (style : Style) (u : Update) : Checked (Logged Update) := do
  let condition ← u.condition.mapM (rewrite style)
  match u.assignments.convert? style with
  | some assignments => return .quiet { u with assignments, condition }
  | none => return ⟨{ u with condition }, [.keysCollide u.table.name]⟩

def convertStatement (style : Style) : Statement → Checked (Logged Statement)
  | .select s => return .quiet (.select (← convertSelect style s))
  | .insert i => return .quiet (.insert (i.convert style))
  | .update u => return (← convertUpdate style u).map .update
  | .delete d =>
    return .quiet (.delete { d with condition := ← d.condition.mapM (rewrite style) })
  | .degraded d => return ⟨.degraded d, [.conversionSkipped d.kind]⟩

def runEdit : Edit → Statement → Checked (Logged (Statement × Option Bool))
  | .convert style, s => return (← convertStatement style s).map (·, none)
  | e, s => return e.run s

def clausesOf (s : Select) : Checked (List (Keyword × Option Text)) :=
  return [(← get Select.clauseKeywords 0, s.condition), (← get Select.clauseKeywords 1, s.groupBy),
    (← get Select.clauseKeywords 2, s.having), (← get Select.clauseKeywords 3, s.orderBy),
    (← get Select.clauseKeywords 4, s.limit)]

def render : Statement → Checked Text
  | .select s => do
    let clauses ← clausesOf s
    return "SELECT ".toList ++ (if s.distinct then "DISTINCT ".toList else []) ++
      Text.commaList (s.fields.map Field.render) ++ " FROM ".toList ++ Table.renderList s.tables ++
      clauses.flatMap fun (k, body) => k.renderClause body
  | s => return s.render

theorem convertField_eq (style : Style) (f : Field) :
    convertField style f = .ok (f.convert style) := by
  rw [convertField, Field.convert, rewrite_eq]
  split <;> rfl

theorem convertConstraint_eq (style : Style) (c : Constraint) :
    convertConstraint style c = .ok (c.convert style) := by
  cases c <;> rw [convertConstraint, rewrite_eq] <;> rfl

theorem convertJoin_eq (style : Style) (j : Join) :
    convertJoin style j = .ok (j.convert style) := by
  rw [convertJoin, option_mapM_eq_ok (convertConstraint_eq style)]
  rfl

theorem convertTable_eq (style : Style) (t : Table) :
    convertTable style t = .ok (t.convert style) := by
  rw [convertTable, option_mapM_eq_ok (convertJoin_eq style)]
  rfl

theorem convertSelect_eq (style : Style) (s : Select) :
    convertSelect style s = .ok (s.convert style) := by
  rw [convertSelect, mapM_eq_ok fun f _ => convertField_eq style f,
    mapM_eq_ok fun t _ => convertTable_eq style t]
  simp only [option_mapM_eq_ok (rewrite_eq style), ok_bind]
  rfl

theorem convertUpdate_eq (style : Style) (u : Update) :
    convertUpdate style u = .ok (u.convert style) := by
  rw [convertUpdate, option_mapM_eq_ok (rewrite_eq style), ok_bind, Update.convert]
  cases u.assignments.convert? style <;> rfl

theorem convertStatement_eq (style : Style) (s : Statement) :
    convertStatement style s = .ok (s.convert style) := by
  cases s with
  | select s => rw [convertStatement, convertSelect_eq]; rfl
  | insert i => rfl
  | update u => rw [convertStatement, convertUpdate_eq]; rfl
  | delete d => rw [convertStatement, option_mapM_eq_ok (rewrite_eq style)]; rfl
  | degraded d => rfl

theorem runEdit_eq (e : Edit) (s : Statement) : runEdit e s = .ok (e.run s) := by
  cases e with
  | convert style => rw [runEdit, convertStatement_eq]; rfl
  | addAliases => rfl
  | renameTable old new => rfl
  | applyRenames r => rfl
  | setCondition condition => rfl

theorem render_eq (s : Statement) : render s = .ok s.render := by
  cases s <;> rfl

theorem of_find?_start {os : List Occurrence} {o : Occurrence} {start : Nat}
    (h : os.find? (start ≤ ·.start) = some o) : o ∈ os ∧ start ≤ o.start :=
  ⟨List.mem_of_find?_eq_some h, by simpa using List.find?_some h⟩

theorem border_of_findKeyword {t : Text} {k : Keyword} {start : Nat} {span : Span}
    (h : findKeyword t k start = .ok (some span)) :
    start ≤ span.start ∧ span.start ≤ span.stop ∧ span.stop ≤ t.utf8.length ∧
      t.isBorder span.start ∧ t.isBorder span.stop := by
  rw [findKeyword_eq, Except.ok.injEq] at h
  obtain ⟨o, ho, rfl⟩ := Option.map_eq_some_iff.1 h
  obtain ⟨hm, hs⟩ := of_find?_start ho
  have ht := (Keyword.of_mem_occurrences hm).1
  have hle := stop_le hm
  have hstart := Text.isBorder_append o.before (o.matched ++ o.after)
  have hstop := Text.isBorder_append (o.before ++ o.matched) o.after
  rw [← List.append_assoc, ← Occurrence.text, ht] at hstart
  rw [← Occurrence.text, ht, Text.byteSize_append] at hstop
  rw [Text.length_utf8]
  exact ⟨hs, Nat.le_add_right _ _, hle, hstart, hstop⟩

theorem border_of_findTopLevel {t token : Text} {start i : Nat}
    (h : findTopLevel t token start = .ok (some i)) :
    start ≤ i ∧ i + token.utf8.length ≤ t.utf8.length ∧ t.isBorder i := by
  rw [findTopLevel_eq, Except.ok.injEq] at h
  obtain ⟨o, ho, rfl⟩ := Option.map_eq_some_iff.1 h
  obtain ⟨hm, hs⟩ := of_find?_start ho
  obtain ⟨ht, hw⟩ := of_mem_occurrences hm
  have hstart := Text.isBorder_append o.before (o.matched ++ o.after)
  rw [← List.append_assoc, ← Occurrence.text, ht] at hstart
  refine ⟨hs, ?_, hstart⟩
  rw [Text.length_utf8, Text.length_utf8, Text.byteSize_of_sameWord hw, ← ht, Occurrence.text,
    Text.byteSize_append, Text.byteSize_append]
  exact Nat.le_add_right _ _

/-- Reading, editing and writing a statement, and every search and every cut of a text, give their
results without a fault: whatever the texts, the words of a keyword and the offsets are, no index is
out of range, no text is cut inside a character or with its ends crossed, and no loop stalls. Only a
separator has to be in ASCII. What is found lies between characters of the text. -/
theorem never_faults {separator : UInt8} (hsep : separator.toNat < 128) (sql t token : Text)
    (s : Statement) (e : Edit) (k : Keyword) (keywords : List Keyword) (start : Nat)
    (style : Style) :
    parse sql = .ok (Statement.parseLogged sql) ∧
      runEdit e s = .ok (e.run s) ∧
      render s = .ok s.render ∧
      isTopAt t start = Nesting.isTopAt t start ∧
      findTopLevel t token start = .ok ((Text.findFrom? token start t).map (·.start)) ∧
      (∀ i, findTopLevel t token start = .ok (some i) →
        start ≤ i ∧ i + token.utf8.length ≤ t.utf8.length ∧ t.isBorder i) ∧
      findKeyword t k start = .ok ((k.findFrom? start t).map (·.byteSpan)) ∧
      (∀ span, findKeyword t k start = .ok (some span) →
        start ≤ span.start ∧ span.start ≤ span.stop ∧ span.stop ≤ t.utf8.length ∧
          t.isBorder span.start ∧ t.isBorder span.stop) ∧
      stripKeyword t k = .ok (k.strip? t) ∧
      splitItems t separator = .ok (t.splitItems (byteChar separator)) ∧
      splitWords t = .ok t.splitWords ∧
      takeGroup t = .ok t.takeGroup? ∧
      splitClauses t keywords = .ok (Clauses.split keywords t) ∧
      rewrite style t = .ok (Fragment.convert style t) :=
  ⟨parse_eq sql, runEdit_eq e s, render_eq s, isTopAt_eq t start, findTopLevel_eq t token start,
    fun _ => border_of_findTopLevel, findKeyword_eq t k start, fun _ => border_of_findKeyword,
    stripKeyword_eq t k, splitItems_eq hsep t, splitWords_eq t, takeGroup_eq t,
    splitClauses_eq t keywords, rewrite_eq style t⟩

/-- A comma separates texts that are not in ASCII. -/
theorem never_faults_comma : ','.toUInt8.toNat < 128 ∧
    splitItems "é, 'ä,', b".toList ','.toUInt8 =
      .ok ["é".toList, "'ä,'".toList, "b".toList] := by
  have hsep : ','.toUInt8.toNat < 128 := by decide
  obtain ⟨-, -, -, -, -, -, -, -, -, h, -⟩ := never_faults hsep [] "é, 'ä,', b".toList []
    (.delete ⟨.named [] none, none⟩) .addAliases .asAlias [] 0 .camel
  exact ⟨hsep, h.trans (congrArg _ (by decide +kernel))⟩

end SqlEdit.Checked
