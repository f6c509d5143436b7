import SqlEdit.Proofs.Checked.Chain
import SqlEdit.Proofs.Checked.Clauses
import SqlEdit.Proofs.Checked.Field
import SqlEdit.Proofs.Statement.Update
import SqlEdit.Statement.Parser

namespace SqlEdit.Checked

def readProjection (t : Text) : Checked (Option (Bool × List Field)) := do
  let rest? ← stripKeyword t.trim .distinct
  let items := rest?.elim t.trim Text.trimStart
  match ← collect readField (← splitItems items ','.toUInt8) with
  | none | some [] => return none
  | some fields => return some (rest?.isSome, fields)

def readSelect (t : Text) : Checked (Except ParseError Select) := do
  match ← findKeyword t .fromTables 0 with
  | none => return .error .missingFrom
  | some span =>
    match ← readProjection (← sliceTo t span.start) with
    | none => return .error .emptyFieldList
    | some (distinct, fields) =>
      let clauses ← splitClauses (← sliceFrom t span.stop) Select.clauseKeywords
      match ← readTables clauses.head with
      | .error e => return .error e
      | .ok tables =>
        return .ok {
          distinct, fields, tables
          condition := clauses.body? 0
          groupBy := clauses.body? 1
          having := clauses.body? 2
          orderBy := clauses.body? 3
          limit := clauses.body? 4 }

def readItems (t : Text) : Checked (Option (List Text)) := do
  let items ← splitItems t ','.toUInt8
  return if items.isEmpty || items.any List.isEmpty then none else some items

def splitName (t : Text) : Checked (Text × Text) := do
  let stop := Text.byteSize (t.takeWhile Insert.isNameChar)
  return (← sliceTo t stop, ← sliceFrom t stop)

def readLists (t : Text) : Checked (Option (List Text × List Text)) :=
  andThen (takeGroup t.trimStart) fun (fields, t) =>
  andThen (stripKeyword t.trimStart .values) fun t =>
  andThen (takeGroup t.trimStart) fun (values, t) =>
    if ¬ t.isBlank then .ok none
    else andThen (readItems fields) fun fields => andThen (readItems values) fun values =>
      .ok (if fields.length = values.length then some (fields, values) else none)

def readInsert (t : Text) : Checked (Option Insert) :=
  andThen (stripKeyword t.trimStart .intoTable) fun t => do
    let (name, t) ← splitName t.trimStart
    if name = [] then return none
    return (← readLists t).map fun (fields, values) => ⟨.named name none, fields, values⟩

def readTarget (t : Text) : Checked (Option Table) := do
  match ← splitWords t with
  | [name] => return some (.named name none)
  | [name, a] => return if a.sameWord "AS".toList then none else some (.named name (some a))
  | [name, w, a] => return if w.sameWord "AS".toList then some (.named name (some a)) else none
  | _ => return none

def readAssignment (t : Text) : Checked (Option (Text × Text)) :=
  andThen (findTopLevel t ['='] 0) fun equals => do
    let field := Text.trim (← sliceTo t equals)
    let value := Text.trim (← sliceFrom t (equals + 1))
    return if field = [] ∨ value = [] then none else some (field, value)

def readAssignments : List Text → Assignments → Checked (Option Assignments)
  | [], a => return some a
  | item :: items, a =>
    andThen (readAssignment item) fun (field, value) =>
      if a.keys.contains field then .ok none else readAssignments items (a.set field value)

def readUpdate (t : Text) : Checked (Option Update) :=
  andThen (findKeyword t .setFields 0) fun set => do
    if (← findKeyword t .condition 0).any fun span => span.start < set.start then return none
    let clauses ← splitClauses t [.setFields, .condition]
    andThen (readTarget clauses.head) fun table =>
    andThen (.ok (clauses.body? 0)) fun body => do
      return (← readAssignments (← splitItems body ','.toUInt8) .empty).map
        fun assignments => ⟨table, assignments, clauses.body? 1⟩

def readDelete (t : Text) : Checked (Option Delete) :=
  andThen (stripKeyword t.trimStart .fromTables) fun t => do
    let clauses ← splitClauses t [.condition]
    return (← readTarget clauses.head).map fun table => ⟨table, clauses.body? 0⟩

def detect (t : Text) : List Kind → Checked (Option (Kind × Text))
  | [] => return none
  | kind :: kinds => do
    match ← stripKeyword t kind.keyword with
    | some rest => return some (kind, rest)
    | none => detect t kinds

def readBody (kind : Kind) (t : Text) : Checked (Except ParseError Statement) := do
  match kind with
  | .select => return (← readSelect t).map .select
  | .insert => return ((← readInsert t).map .insert).elim (.error .malformedInsert) .ok
  | .update => return ((← readUpdate t).map .update).elim (.error .malformedUpdate) .ok
  | .delete => return ((← readDelete t).map .delete).elim (.error .malformedDelete) .ok

def parse (sql : Text) : Checked (Logged (Except ParseError Statement)) := do
  let t := Statement.body sql
  if t = [] then return .quiet (.error .emptyStatement)
  match ← detect t Kind.all with
  | none => return .quiet (.error (.unsupportedKind t.firstWord))
  | some (kind, rest) =>
    match ← readBody kind rest with
    | .ok s => return .quiet (.ok s)
    | .error reason =>
      return if reason.isDegradable then
        ⟨.ok (.degraded ⟨kind, sql, reason⟩), [.keptVerbatim kind reason]⟩
      else .quiet (.error reason)

variable {o p : Occurrence} {t : Text}

theorem readProjection_eq (t : Text) : readProjection t = .ok (Select.readProjection? t) := by
  have hfields (items : Text) : collect readField (items.splitItems ',') =
      .ok ((items.splitItems ',').mapM Field.ofText?) :=
    collect_eq fun u hu => readField_eq (Text.trim_of_mem_splitItems hu)
  rw [readProjection, stripKeyword_eq, ok_bind, Select.readProjection?]
  cases Keyword.distinct.strip? t.trim with
  | none =>
      simp only [Option.elim_none, splitItems_comma, ok_bind, hfields]
      rcases (t.trim.splitItems ',').mapM Field.ofText? with _ | _ | _ <;> rfl
  | some rest =>
      simp only [Option.elim_some, splitItems_comma, ok_bind, hfields]
      rcases (rest.trimStart.splitItems ',').mapM Field.ofText? with _ | _ | _ <;> rfl

theorem readSelect_eq (t : Text) : readSelect t = .ok (Select.read t) := by
  rw [readSelect, findKeyword_eq, ok_bind, Keyword.findFrom?_zero, Select.read]
  cases ho : Keyword.fromTables.find? t with
  | none => rfl
  | some o =>
      obtain ⟨hbefore, hafter⟩ := slice_of_text (Keyword.text_of_find? ho)
      simp only [Option.map_some, Occurrence.byteSpan, hbefore, hafter, ok_bind,
        readProjection_eq, splitClauses_eq, readTables_eq]
      cases Select.readProjection? o.before with
      | none => rfl
      | some p => cases Table.readList (Clauses.split Select.clauseKeywords o.after).head <;> rfl

theorem readItems_eq (t : Text) : readItems t = .ok (Insert.readItems? t) := by
  have hany (items : List Text) : items.isEmpty || items.any List.isEmpty ↔
      items = [] ∨ [] ∈ items := by
    simp [List.any_eq_true, List.isEmpty_iff]
  rw [readItems, splitItems_comma, ok_bind, Insert.readItems?]
  exact congrArg Except.ok (if_congr (hany _) rfl rfl)

theorem splitName_eq (t : Text) : splitName t = .ok (t.span Insert.isNameChar) := by
  have ht := (t.takeWhile_append_dropWhile (p := Insert.isNameChar)).symm
  rw [splitName, sliceTo_of_append ht rfl, sliceFrom_of_append ht rfl,
    List.span_eq_takeWhile_dropWhile]
  rfl

def lists? (t : Text) : Option (List Text × List Text) := do
  let (fields, t) ← Text.takeGroup? (Text.trimStart t)
  let t ← Keyword.values.strip? t.trimStart
  let (values, t) ← Text.takeGroup? t.trimStart
  if ¬ t.isBlank then none
  else do
    let fields ← Insert.readItems? fields
    let values ← Insert.readItems? values
    if fields.length = values.length then some (fields, values) else none

theorem readLists_eq (t : Text) : readLists t = .ok (lists? t) := by
  refine andThen_eq (takeGroup_eq _) fun (fields, t) => ?_
  refine andThen_eq (stripKeyword_eq _ _) fun t => ?_
  refine andThen_eq (takeGroup_eq _) fun (values, t) => ?_
  dsimp only
  split
  · rfl
  · exact andThen_eq (readItems_eq fields) fun fields =>
      andThen_eq (readItems_eq values) fun values => rfl

/-- The name of the table may as well be looked at before the lists are. -/
theorem insert_read?_eq (t : Text) : Insert.read? t =
    (Keyword.intoTable.strip? t.trimStart).bind fun t =>
      let (name, t) := t.trimStart.span Insert.isNameChar
      if name = [] then none
      else (lists? t).map fun (fields, values) => ⟨.named name none, fields, values⟩ := by
  rw [Insert.read?]
  refine congrArg _ (funext fun t => ?_)
  obtain ⟨name, t⟩ := t.trimStart.span Insert.isNameChar
  by_cases hn : name = []
  · simp [hn]
  · rcases hf : Text.takeGroup? (Text.trimStart t) with _ | ⟨fields, r⟩
    · simp [lists?, hf]
    rcases hk : Keyword.values.strip? r.trimStart with _ | r'
    · simp [lists?, hf, hk]
    rcases hv : Text.takeGroup? r'.trimStart with _ | ⟨values, r''⟩
    · simp [lists?, hf, hk, hv]
    simp only [lists?, hf, hk, hv, hn, Option.bind_eq_bind, Option.bind_some, if_false]
    by_cases hb : r''.isBlank
    · simp only [hb, not_true, if_false]
      cases Insert.readItems? fields with
      | none => rfl
      | some fields =>
          cases Insert.readItems? values with
          | none => rfl
          | some values => simp [hn, apply_ite (Option.map _)]
    · simp [hb]

theorem readInsert_eq (t : Text) : readInsert t = .ok (Insert.read? t) := by
  rw [insert_read?_eq]
  refine andThen_eq (stripKeyword_eq _ _) fun t => ?_
  simp only [splitName_eq, ok_bind, readLists_eq]
  split <;> rfl

theorem readTarget_eq (t : Text) : readTarget t = .ok (Table.readTarget? t) := by
  rw [readTarget, splitWords_eq, ok_bind, Table.readTarget?]
  rcases t.splitWords with _ | ⟨a, _ | ⟨b, _ | ⟨c, _ | ⟨d, ws⟩⟩⟩⟩ <;> rfl

theorem of_mem_occurrences {token : Text} (h : o ∈ Text.occurrences token t) :
    o.text = t ∧ token.sameWord o.matched := by
  rw [Text.occurrences] at h
  split at h
  · exact absurd h List.not_mem_nil
  · obtain ⟨place, hp, ho⟩ := List.mem_filterMap.1 h
    obtain ⟨⟨front, rest⟩, hr, rfl⟩ := Option.map_eq_some_iff.1 ho
    obtain ⟨he, hw⟩ := Text.readWord?_eq_some_iff.1 hr
    refine ⟨?_, hw⟩
    rw [Occurrence.text, List.append_assoc, ← he, (of_mem_topSites hp).1]

theorem readAssignment_eq (t : Text) : readAssignment t = .ok (Update.readAssignment? t) := by
  have hfind : Text.findFrom? ['='] 0 t = (Text.occurrences ['='] t).head? := by
    rw [Text.findFrom?, ← List.head?_filter, List.filter_eq_self.2]
    exact fun o _ => decide_eq_true (Nat.zero_le o.start)
  rw [readAssignment, findTopLevel_eq, hfind, Update.readAssignment?, andThen, ok_bind]
  cases ho : (Text.occurrences ['='] t).head? with
  | none => rfl
  | some o =>
      obtain ⟨ht, hw⟩ := of_mem_occurrences (List.mem_of_head? ho)
      obtain ⟨hbefore, hafter⟩ := slice_of_text ht
      have hstop : o.stop = o.start + 1 := by
        rw [Occurrence.stop, ← Text.byteSize_of_sameWord hw]
        rfl
      rw [hstop] at hafter
      simp only [Option.map_some, hbefore, hafter, ok_bind]
      rfl

theorem ofEntries?_of_mem {key value : Text} {es us : List (Text × Text)}
    (h : key ∈ es.map Prod.fst) : Assignments.ofEntries? (es ++ (key, value) :: us) = none := by
  refine dif_neg fun hn => ?_
  rw [List.map_append, List.map_cons] at hn
  exact (List.nodup_append.1 hn).2.2 key h key List.mem_cons_self rfl

/-- The fields are looked at one by one, or all of them together. -/
theorem readAssignments_eq (items : List Text) (a : Assignments) : readAssignments items a =
    .ok ((items.mapM Update.readAssignment?).bind fun es =>
      Assignments.ofEntries? (a.entries ++ es)) := by
  induction items generalizing a with
  | nil =>
      rw [readAssignments, List.mapM_nil]
      simp [Assignments.ofEntries?_eq_some_iff.2 (rfl : a.entries = a.entries)]
  | cons item items ih =>
      rw [readAssignments, List.mapM_cons]
      refine (andThen_eq (readAssignment_eq item) (g := fun e => (items.mapM
        Update.readAssignment?).bind fun es => Assignments.ofEntries? (a.entries ++ e :: es))
        fun (field, value) => ?_).trans ?_
      · by_cases hf : field ∈ a.keys
        · have hnone (es : List (Text × Text)) :
              Assignments.ofEntries? (a.entries ++ (field, value) :: es) = none :=
            ofEntries?_of_mem hf
          simp [hf, hnone]
        · have hset : (a.set field value).entries = a.entries ++ [(field, value)] :=
            Assignments.setEntry_of_not_mem hf
          simp [hf, ih, hset]
      · simp [Option.bind_assoc]

theorem start_lt_start_iff (ho : o.text = t) (hp : p.text = t) :
    p.start < o.start ↔ p.before.length < o.before.length := by
  have hos : o.start = Text.offset t o.before.length := congrArg Span.start (byteSpan_eq ho)
  have hps : p.start = Text.offset t p.before.length := congrArg Span.start (byteSpan_eq hp)
  have hle : o.before.length ≤ t.length := (span_le ho).1.trans (span_le ho).2
  rw [hos, hps, ← Nat.not_le, Text.offset_le_iff hle, Nat.not_le]

theorem readUpdate_eq (t : Text) : readUpdate t = .ok (Update.read? t) := by
  rw [readUpdate, findKeyword_eq, Keyword.findFrom?_zero, Update.read?, andThen, ok_bind]
  cases ho : Keyword.setFields.find? t with
  | none => rfl
  | some o =>
      have hfirst : (((Keyword.condition.find? t).map (·.byteSpan)).any
          fun span => span.start < o.byteSpan.start) = Update.conditionFirst t o := by
        rw [Update.conditionFirst, Option.any_map]
        cases hp : Keyword.condition.find? t with
        | none => rfl
        | some p =>
            exact decide_eq_decide.2 (start_lt_start_iff (Keyword.text_of_find? ho) (Keyword.text_of_find? hp))
      simp only [Option.map_some, findKeyword_eq, Keyword.findFrom?_zero, ok_bind, hfirst,
        splitClauses_eq, Option.bind_eq_bind, Option.bind_some]
      split
      · rfl
      · refine andThen_eq (readTarget_eq _) fun table => andThen_eq rfl fun body => ?_
        rw [splitItems_comma, ok_bind, readAssignments_eq, ok_bind]
        cases (body.splitItems ',').mapM Update.readAssignment? with
        | none => rfl
        | some entries =>
            have hempty : Assignments.empty.entries ++ entries = entries := rfl
            simp only [Option.bind_some, hempty]
            cases Assignments.ofEntries? entries <;> rfl

theorem readDelete_eq (t : Text) : readDelete t = .ok (Delete.read? t) := by
  refine andThen_eq (stripKeyword_eq _ _) fun t => ?_
  rw [splitClauses_eq, ok_bind, readTarget_eq, ok_bind]
  dsimp only
  cases Table.readTarget? (Clauses.split [.condition] t).head <;> rfl

theorem detect_eq (t : Text) (kinds : List Kind) : detect t kinds =
    .ok (kinds.findSome? fun kind => (kind.keyword.strip? t).map (kind, ·)) := by
  induction kinds with
  | nil => rfl
  | cons kind kinds ih =>
      rw [detect, stripKeyword_eq, ok_bind, List.findSome?_cons, ih]
      cases kind.keyword.strip? t <;> rfl

theorem readBody_eq (kind : Kind) (t : Text) :
    readBody kind t = .ok (Statement.readBody kind t) := by
  cases kind with
  | select => rw [readBody, readSelect_eq]; rfl
  | insert => rw [readBody, readInsert_eq]; rfl
  | update => rw [readBody, readUpdate_eq]; rfl
  | delete => rw [readBody, readDelete_eq]; rfl

theorem parse_eq (sql : Text) : parse sql = .ok (Statement.parseLogged sql) := by
  rw [parse, Statement.parseLogged, detect_eq, ← Kind.detect?]
  simp only [ok_bind]
  split
  · rfl
  · cases Kind.detect? (Statement.body sql) with
    | none => rfl
    | some p =>
        obtain ⟨kind, rest⟩ := p
        simp only [readBody_eq, ok_bind]
        cases Statement.readBody kind rest with
        | ok s => rfl
        | error reason => cases reason.isDegradable <;> rfl

end SqlEdit.Checked
