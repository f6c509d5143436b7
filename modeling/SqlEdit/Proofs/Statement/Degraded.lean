import Mathlib.Logic.ExistsUnique
import SqlEdit.Proofs.Statement.Parse
import SqlEdit.Proofs.Statement.Skeleton
import SqlEdit.Proofs.Statement.Tables

namespace SqlEdit

def Kind.IsAnnounced (kind : Kind) (sql : Text) : Prop :=
  ∃ word rest, Statement.body sql = word ++ rest ∧ Text.sameWord kind.keyword.text word ∧
    rest.head?.any isWordChar = false

theorem Kind.words_keyword (kind : Kind) : kind.keyword.words = [kind.keyword.text] := by
  cases kind <;> decide

theorem Keyword.exists_of_strip? {k : Keyword} {t rest : Text} (hk : k.words = [k.text])
    (h : k.strip? t = some rest) :
    ∃ word, t = word ++ rest ∧ Text.sameWord k.text word ∧ rest.head?.any isWordChar = false := by
  obtain ⟨matched, hr, hf⟩ := strip?_eq_some_iff_read?.1 h
  refine ⟨matched, eq_of_read? hr, ?_, hf⟩
  obtain ⟨front, r, more, h₁, h₂, rfl⟩ := (read?_eq_some_iff_of_words hk).1 hr
  obtain ⟨rfl, rfl⟩ := Prod.mk.inj (Option.some.inj h₂)
  rw [List.append_nil]
  exact (Text.readWord?_eq_some_iff.1 h₁).2

theorem Kind.isAnnounced_of_detect? {kind : Kind} {sql rest : Text}
    (h : detect? (Statement.body sql) = some (kind, rest)) : kind.IsAnnounced sql := by
  obtain ⟨other, -, hk⟩ := List.exists_of_findSome?_eq_some h
  obtain ⟨r, hr, he⟩ := Option.map_eq_some_iff.1 hk
  obtain ⟨rfl, rfl⟩ := Prod.mk.inj he
  obtain ⟨word, hb, hw⟩ := Keyword.exists_of_strip? other.words_keyword hr
  exact ⟨word, r, hb, hw⟩

def Kind.malformed? : Kind → Option ParseError
  | select => none
  | insert => some .malformedInsert
  | update => some .malformedUpdate
  | delete => some .malformedDelete

theorem Table.isDegradable_of_readList {region : Text} {e : ParseError}
    (h : readList region = .error e) : e.isDegradable = false := by
  obtain ⟨-, rfl⟩ | ⟨-, front, g, back, -, -, -, rfl⟩ := readList_eq_error_iff.1 h <;> rfl

theorem Select.isDegradable_of_read {t : Text} {e : ParseError} (h : read t = .error e) :
    e.isDegradable = false := by
  rw [read] at h
  split at h
  · cases h
    rfl
  split at h
  · cases h
    rfl
  obtain h | ⟨ts, -, h⟩ := bind_eq_error_iff.1 h
  · exact Table.isDegradable_of_readList h
  · cases h

namespace Statement

variable {kind : Kind} {sql t : Text} {s : Statement} {d : Degraded} {e : ParseError}

theorem readBody_ne_degraded (d : Degraded) : readBody kind t ≠ .ok (.degraded d) := by
  intro h
  cases kind with
  | select => cases hr : Select.read t <;> simp [readBody, hr, Except.map] at h
  | insert => cases hr : Insert.read? t <;> simp [readBody, hr] at h
  | update => cases hr : Update.read? t <;> simp [readBody, hr] at h
  | delete => cases hr : Delete.read? t <;> simp [readBody, hr] at h

theorem kind_of_readBody (h : readBody kind t = .ok s) : s.isDegraded = false ∧ s.kind = kind := by
  cases s with
  | select s => exact ⟨rfl, (readBody_select_iff.1 h).1.symm⟩
  | insert i => exact ⟨rfl, (readBody_insert_iff.1 h).1.symm⟩
  | update u => exact ⟨rfl, (readBody_update_iff.1 h).1.symm⟩
  | delete d => exact ⟨rfl, (readBody_delete_iff.1 h).1.symm⟩
  | degraded d => exact absurd h (readBody_ne_degraded d)

theorem eq_of_elim_eq_error {ε α : Type} {e e' : ε} {a? : Option α}
    (h : a?.elim (.error e) Except.ok = .error e') : e' = e := by
  cases a? <;> cases h
  rfl

/-- A statement is kept verbatim for the error of its kind and for no other. -/
theorem malformed?_of_readBody (h : readBody kind t = .error e) :
    e.isDegradable = false ∨ e.isDegradable ∧ kind.malformed? = some e := by
  cases kind with
  | select =>
      cases hr : Select.read t with
      | ok s => simp [readBody, hr, Except.map] at h
      | error e' =>
          obtain rfl : e' = e := by simpa [readBody, hr, Except.map] using h
          exact .inl (Select.isDegradable_of_read hr)
  | insert | update | delete =>
      obtain rfl := eq_of_elim_eq_error h
      exact .inr ⟨rfl, rfl⟩

inductive Outcome where
  | refused
  | structured
  | keptVerbatim
  deriving DecidableEq

/-- Whether reading a text has an outcome: an error that is reported, a statement of the announced
kind, or that text as it is, with the error of the announced kind and one event about it. -/
def Outcome.IsOf : Outcome → Text → Prop
  | refused, sql => ∃ e, parse sql = .error e ∧ e.isDegradable = false ∧ (parseLogged sql).events = []
  | structured, sql => ∃ s, parse sql = .ok s ∧ s.isDegraded = false ∧ s.kind.IsAnnounced sql ∧
      (parseLogged sql).events = []
  | keptVerbatim, sql => ∃ kind reason event, parse sql = .ok (.degraded ⟨kind, sql, reason⟩) ∧
      kind.IsAnnounced sql ∧ kind.malformed? = some reason ∧ (parseLogged sql).events = [event] ∧
      event = .keptVerbatim kind reason ∧ event.level = .debug

theorem exists_isOf (sql : Text) : ∃ o : Outcome, o.IsOf sql := by
  by_cases hb : body sql = []
  · have hp : parseLogged sql = .quiet (.error .emptyStatement) := if_pos hb
    exact ⟨.refused, _, by rw [parse, hp]; rfl, rfl, by rw [hp]; rfl⟩
  cases hd : Kind.detect? (body sql) with
  | none =>
      have hp : parseLogged sql = .quiet (.error (.unsupportedKind (body sql).firstWord)) := by
        simp only [parseLogged, if_neg hb, hd]
      exact ⟨.refused, _, by rw [parse, hp]; rfl, rfl, by rw [hp]; rfl⟩
  | some p =>
      obtain ⟨kind, rest⟩ := p
      have ha := Kind.isAnnounced_of_detect? hd
      cases hr : readBody kind rest with
      | ok s =>
          have hp : parseLogged sql = .quiet (.ok s) := by
            simp only [parseLogged, if_neg hb, hd, hr]
          obtain ⟨hs, rfl⟩ := kind_of_readBody hr
          exact ⟨.structured, s, by rw [parse, hp]; rfl, hs, ha, by rw [hp]; rfl⟩
      | error e =>
          obtain he | ⟨he, hm⟩ := malformed?_of_readBody hr
          · have hp : parseLogged sql = .quiet (.error e) := by
              simp only [parseLogged, if_neg hb, hd, hr, he, if_neg Bool.false_ne_true]
            exact ⟨.refused, e, by rw [parse, hp]; rfl, he, by rw [hp]; rfl⟩
          · have hp : parseLogged sql = ⟨.ok (.degraded ⟨kind, sql, e⟩), [.keptVerbatim kind e]⟩ := by
              simp only [parseLogged, if_neg hb, hd, hr, if_pos he]
            exact ⟨.keptVerbatim, kind, e, _, by rw [parse, hp], ha, hm, by rw [hp], rfl, rfl⟩

def Outcome.ofResult : Except ParseError Statement → Outcome
  | .error _ => refused
  | .ok (degraded _) => keptVerbatim
  | .ok _ => structured

theorem eq_ofResult_of_isOf {o : Outcome} (h : o.IsOf sql) : o = .ofResult (parse sql) := by
  cases o with
  | refused =>
      obtain ⟨e, hp, -⟩ := h
      rw [hp]
      rfl
  | structured =>
      obtain ⟨s, hp, hd, -⟩ := h
      rw [hp]
      cases s with
      | degraded d => cases hd
      | select _ | insert _ | update _ | delete _ => rfl
  | keptVerbatim =>
      obtain ⟨kind, reason, event, hp, -⟩ := h
      rw [hp]
      rfl

theorem verbatim_of_parse (h : parse sql = .ok (.degraded d)) : d.verbatim = sql := by
  obtain ⟨o, ho⟩ := exists_isOf sql
  obtain rfl : o = .keptVerbatim := by
    rw [eq_ofResult_of_isOf ho, h]
    rfl
  obtain ⟨kind, reason, event, hp, -⟩ := ho
  obtain rfl := degraded.inj (Except.ok.inj (h.symm.trans hp))
  rfl

end Statement

namespace Edit

variable (d : Degraded)

theorem apply_degraded (e : Edit) : e.apply (.degraded d) = .degraded d := by
  cases e <;> rfl

theorem applyAll_degraded (es : List Edit) : applyAll es (.degraded d) = .degraded d := by
  induction es with
  | nil => rfl
  | cons e es ih =>
      rw [applyAll, List.foldl_cons, apply_degraded]
      exact ih

theorem run_degraded {e : Edit} (h : e.isRespelling = false) :
    (e.run (.degraded d)).value = (.degraded d, some false) := by
  cases e with
  | convert _ | addAliases => cases h
  | renameTable _ _ | applyRenames _ | setCondition _ => rfl

end Edit

namespace Statement

/-- Reading a text has exactly one outcome. A statement that is kept verbatim stays as it is under
all edits, those that can fail do, it has no tables, and its text is the one that was read and is
read as the same statement. -/
theorem existsUnique_outcome (sql : Text) :
    (∃! o : Outcome, o.IsOf sql) ∧
      ∀ s, parse sql = .ok s → s.isDegraded → ∀ es : List Edit,
        let t := Edit.applyAll es s
        t = s ∧ t.tables = [] ∧ t.render = sql ∧ parse t.render = .ok t ∧
          ∀ e : Edit, e.isRespelling = false → (e.run t).value = (t, some false) := by
  obtain ⟨o, ho⟩ := exists_isOf sql
  refine ⟨⟨o, ho, fun o' ho' => ?_⟩, fun s hs hd es => ?_⟩
  · exact (eq_ofResult_of_isOf ho').trans (eq_ofResult_of_isOf ho).symm
  · cases s with
    | degraded d =>
        have hr : render (degraded d) = sql := verbatim_of_parse hs
        simp only [Edit.applyAll_degraded, hr]
        exact ⟨trivial, rfl, trivial, hs, fun e he => Edit.run_degraded d he⟩
    | select _ | insert _ | update _ | delete _ => cases hd

theorem existsUnique_outcome_of_update :
    let sql := " update t ;\n".toList
    let s := degraded ⟨.update, sql, .malformedUpdate⟩
    let es : List Edit := [.convert .camel, .renameTable "t".toList "u".toList]
    parse sql = .ok s ∧ s.isDegraded ∧ (Edit.applyAll es s).render = sql ∧
      ((Edit.setCondition none).run (Edit.applyAll es s)).value = (Edit.applyAll es s, some false) := by
  have hs : parse " update t ;\n".toList =
      .ok (degraded ⟨.update, " update t ;\n".toList, .malformedUpdate⟩) := by
    decide +kernel
  obtain ⟨-, -, hr, -, he⟩ := (existsUnique_outcome " update t ;\n".toList).2 _ hs rfl
    [.convert .camel, .renameTable "t".toList "u".toList]
  exact ⟨hs, rfl, hr, he (.setCondition none) rfl⟩

end Statement

end SqlEdit
