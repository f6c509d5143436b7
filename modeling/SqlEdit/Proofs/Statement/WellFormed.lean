import SqlEdit.Proofs.Statement.Select

namespace SqlEdit

open Nesting (Pieces Free)
open Text (Closed Solid SolidWords)
open Clauses (Placed present write)
open Keyword (Absent)

namespace Text

/-- A text that can stand alone: its white space is ASCII and not at its ends, and it leaves no
quote and no parenthesis open. -/
@[mk_iff]
structure IsClean (t : Text) : Prop where
  ne_nil : t ≠ []
  blanks : ∀ c ∈ t, SqlEdit.isBlank c → isSpace c
  head : t.head?.any isSpace = false
  last : t.getLast?.any isSpace = false
  closed : Closed t

instance (t : Text) : Decidable t.IsClean :=
  have hb : (t.all fun c => !SqlEdit.isBlank c || isSpace c) ↔
      ∀ c ∈ t, SqlEdit.isBlank c → isSpace c := by
    simp [← Bool.not_eq_true, imp_iff_not_or]
  decidable_of_iff' _ ((isClean_iff t).trans (by rw [← hb]))

variable {t w : Text}

theorem solid_of_ends_not_space (hne : t ≠ []) (hb : ∀ c ∈ t, SqlEdit.isBlank c → isSpace c)
    (hh : t.head?.any isSpace = false) (hl : t.getLast?.any isSpace = false) : Solid t := by
  have hc (c : Char) (hm : c ∈ t) (hs : isSpace c = false) : SqlEdit.isBlank c = false := by
    cases h : SqlEdit.isBlank c with
    | false => rfl
    | true => rw [hb c hm h] at hs; exact hs
  constructor
  · obtain ⟨c, u, rfl⟩ := List.exists_cons_of_ne_nil hne
    simpa using hc c List.mem_cons_self (by simpa using hh)
  · obtain ⟨u, d, rfl⟩ : ∃ u d, t = u ++ [d] := ⟨_, _, (List.dropLast_append_getLast hne).symm⟩
    rw [List.getLast?_concat, Option.any_some] at hl ⊢
    simpa using hc d (by simp) hl

theorem IsClean.solid (h : t.IsClean) : Solid t :=
  solid_of_ends_not_space h.ne_nil h.blanks h.head h.last

theorem solid_of_free (hne : w ≠ []) (hb : ∀ c ∈ w, SqlEdit.isBlank c → isSpace c)
    (hf : Free isSpace .top w) (hc : Closed w) : Solid w := by
  refine solid_of_ends_not_space hne hb ?_ ?_
  · obtain ⟨c, u, rfl⟩ := List.exists_cons_of_ne_nil hne
    simpa [Nesting.isTop, Nesting.top] using (Nesting.free_cons.1 hf).1
  · obtain ⟨u, c, rfl⟩ : ∃ u c, w = u ++ [c] :=
      ⟨_, _, (List.dropLast_append_getLast hne).symm⟩
    rw [List.getLast?_concat, Option.any_some]
    cases hs : isSpace c with
    | false => rfl
    | true =>
        have hu : Closed u := by
          have hp := closed_append_blank (s := u) (t := [c]) (by simp [isBlank, isBlank_of_isSpace hs])
          exact hp.1 hc
        have hfc := (Nesting.free_cons.1 ((Nesting.free_append.1 hf).2)).1
        rw [hu, hs] at hfc
        exact hfc

theorem IsClean.solid_of_mem_splitWords (h : t.IsClean) (hw : w ∈ t.splitWords) : Solid w := by
  refine solid_of_free (ne_nil_of_mem_splitWords hw) (fun c hc => h.blanks c ?_)
    ((pieces_splitWords t).free w hw) (closed_of_mem_splitWords h.closed hw)
  exact Nesting.subset_of_mem_cut (List.mem_filter.1 hw).1 hc

theorem solidWords_of_forall {ws : List Text} (hne : ws ≠ []) (h : ∀ w ∈ ws, Solid w) :
    SolidWords ws := by
  constructor
  · obtain ⟨w, us, rfl⟩ := List.exists_cons_of_ne_nil hne
    exact (h w List.mem_cons_self).head
  · obtain ⟨us, w, rfl⟩ : ∃ us w, ws = us ++ [w] := ⟨_, _, (List.dropLast_append_getLast hne).symm⟩
    rw [List.getLast?_concat]
    exact (h w (by simp)).last

end Text

namespace Field

/-- A field in whose parts no comma, FROM or AS can be mistaken for one of the statement. -/
@[mk_iff]
structure WellFormed (f : Field) : Prop where
  clean : ∀ t ∈ f.texts, t.IsClean
  comma : ∀ t ∈ f.texts, Free (· == ',') .top t
  fromTables : ∀ t ∈ f.texts, Absent [.fromTables] t
  name : f.HasPlainAlias
  single : f.alias? = none →
    f.expression.splitWords = [f.expression] ∧ Absent [.asAlias] f.expression

instance (f : Field) : Decidable f.WellFormed :=
  decidable_of_iff' _ (wellFormed_iff f)

variable {f : Field}

theorem ofText?_of_single (hne : f.expression ≠ []) (ha : f.alias? = none)
    (hw : f.expression.splitWords = [f.expression]) (has : Absent [.asAlias] f.expression) :
    ofText? f.expression = some f := by
  have hs : splitAs? f.expression = none := by
    rw [splitAs?, Keyword.findLast?, has _ (List.mem_singleton_self _)]
    rfl
  have hb : splitBare? f.expression = none := by
    rw [splitBare?, hw]
    rfl
  refine (ofText?_eq_some_iff hne).2 (.inr (.inr ⟨hs, hb, ?_⟩))
  rw [← ha]

theorem WellFormed.shaped (h : f.WellFormed) : f.Shaped := by
  have he := h.clean f.expression List.mem_cons_self
  have ha {a : Text} (hm : a ∈ f.alias?) : a ∈ f.texts := by
    simpa [texts] using .inr hm
  refine ⟨he.solid, he.closed, fun a hm => ?_, ?_, fun hn => ?_⟩
  · exact ⟨(h.clean a (ha hm)).solid, (h.clean a (ha hm)).closed⟩
  · have hf := h.comma f.expression List.mem_cons_self
    cases hal : f.alias? with
    | none => rwa [render_none hal]
    | some a =>
        rw [render_some hal, Nesting.free_append, Nesting.free_append, Nesting.after_append, he.closed]
        exact ⟨⟨hf, by decide⟩, h.comma a (ha hal)⟩
  · exact ofText?_of_single he.ne_nil hn (h.single hn).1 (h.single hn).2

theorem WellFormed.absent_from (h : f.WellFormed) : Absent [.fromTables] f.render := by
  have he := h.fromTables f.expression List.mem_cons_self
  cases hal : f.alias? with
  | none => rwa [render_none hal]
  | some a =>
      have ha := h.fromTables a (by simp [texts, hal])
      have hr : f.render = f.expression ++ ' ' :: ("AS".toList ++ ' ' :: a) := by
        simp [render_some hal]
      have hap := Select.apart_from
      rw [hr, Keyword.absent_append_cons_iff hap (by decide) (h.clean _ List.mem_cons_self).closed
        (by decide) (by decide), Keyword.absent_append_cons_iff hap (by decide) (by decide)
        (by decide) (by decide)]
      exact ⟨he, by decide, ha⟩

end Field

namespace Table

def isGrammarWord (w : Text) : Bool :=
  Constraint.begins w || Join.isJoin w || Join.isModifier w

/-- A table, in front of others, whose name and alias are words of their own. -/
@[mk_iff]
structure WellFormed (t : Table) (ts : List Table) : Prop where
  clean : ∀ w ∈ t.ownWords, w.IsClean
  single : ∀ w ∈ t.ownWords, w.splitWords = [w]
  comma : ∀ w ∈ t.ownWords, Free (· == ',') .top w
  plain : ∀ w ∈ t.ownWords, isGrammarWord w = false
  notAs : t.isAliasAs = false
  operator : ∀ j ∈ t.join, IsWrittenOperator j.operator
  constraint : ∀ c ∈ t.constraint?, c.text.IsClean ∧ Free (· == ',') .top c.text ∧
    c.IsWritten (nextWords ts)

instance (t : Table) (ts : List Table) : Decidable (t.WellFormed ts) :=
  decidable_of_iff' _ (wellFormed_iff t ts)

def AreWellFormed (ts : List Table) : Prop :=
  Each WellFormed ts

instance (ts : List Table) : Decidable (AreWellFormed ts) :=
  inferInstanceAs (Decidable (Each WellFormed ts))

variable {t : Table} {ts : List Table}

theorem of_isGrammarWord {w : Text} (h : isGrammarWord w = false) :
    Constraint.begins w = false ∧ Join.isJoin w = false ∧ Join.isModifier w = false := by
  simpa [isGrammarWord, and_assoc] using h

theorem WellFormed.tidy (h : t.WellFormed ts) : t.Tidy ts := by
  obtain ⟨hc, hj, hm⟩ := of_isGrammarWord (h.plain t.name List.mem_cons_self)
  refine ⟨⟨hc, hj, fun hx => ?_⟩, h.operator, fun c hc => (h.constraint c hc).2.2⟩
  rw [hm] at hx
  exact Bool.false_ne_true hx.1

theorem WellFormed.aliasFits (h : t.WellFormed ts) : t.AliasFits ts := by
  intro a ha
  obtain ⟨hc, hj, hm⟩ := of_isGrammarWord (h.plain a (by simpa [ownWords] using .inr ha))
  refine ⟨?_, hc, hj, fun hx => ?_⟩
  · have hn := h.notAs
    rwa [isAliasAs, ha, Option.any_some] at hn
  · rw [hm] at hx
    exact Bool.false_ne_true hx.1

structure IsWord (w : Text) : Prop where
  solid : Solid w
  closed : Closed w
  space : Free isSpace .top w
  comma : Free (· == ',') .top w

theorem isWord_of_mem_splitWords {u w : Text} (hu : u.IsClean) (hc : Free (· == ',') .top u)
    (hw : w ∈ u.splitWords) : IsWord w :=
  ⟨hu.solid_of_mem_splitWords hw, Text.closed_of_mem_splitWords hu.closed hw,
    (Text.pieces_splitWords u).free w hw, Text.free_of_mem_splitWords hc hw⟩

theorem isWord_of_isAlpha {w : Text} (hne : w ≠ []) (ha : w.all Char.isAlpha) : IsWord w := by
  have ha (c : Char) (hc : c ∈ w) : c.isAlpha := List.all_eq_true.1 ha c hc
  have hb (c : Char) (hc : c ∈ w) : isBlank c = false := isBlank_of_isAlpha (ha c hc)
  have hs (c : Char) (hc : c ∈ w) : isSpace c = false := by
    cases h : isSpace c with
    | false => rfl
    | true => exact absurd (isBlank_of_isSpace h) (by simp [hb c hc])
  have hcl : Closed w :=
    Text.closed_of_isPlain (List.all_eq_true.2 fun c hc => Keyword.isPlain_of_isAlpha (ha c hc))
  have hf : Free isSpace .top w := Nesting.free_of_forall hs
  refine ⟨Text.solid_of_free hne (fun c hc h => ?_) hf hcl, hcl, hf, Nesting.free_of_forall fun c hc => ?_⟩
  · rw [hb c hc] at h
    exact absurd h Bool.false_ne_true
  · rw [beq_eq_false_iff_ne]
    rintro rfl
    exact absurd (ha ',' hc) (by decide)

theorem WellFormed.isWord (h : t.WellFormed ts) : ∀ w ∈ t.operatorWords ++ t.words, IsWord w := by
  intro w hw
  rcases List.mem_append.1 hw with hw | hw
  · rw [operatorWords] at hw
    cases hj : t.join with
    | none => simp [hj] at hw
    | some j =>
        rw [hj, Option.elim_some] at hw
        exact isWord_of_isAlpha (Text.ne_nil_of_mem_splitWords hw)
          (Join.isAlpha_of_splitOperator? (h.operator j hj).2 w hw)
  rcases List.mem_append.1 hw with hw | hw
  · exact isWord_of_mem_splitWords (h.clean w hw) (h.comma w hw) (h.single w hw ▸ List.mem_singleton_self w)
  · cases hc : t.constraint? with
    | none => simp [hc] at hw
    | some c =>
        rw [hc, Option.elim_some] at hw
        rcases List.mem_cons.1 hw with rfl | hw
        · have hk : ∀ k ∈ Constraint.keywords, k ≠ [] ∧ k.all Char.isAlpha := by decide
          obtain ⟨hne, hal⟩ := hk _ c.keyword_mem
          exact isWord_of_isAlpha hne hal
        · obtain ⟨hcl, hco, -⟩ := h.constraint c hc
          exact isWord_of_mem_splitWords hcl hco hw

theorem exists_flatten (ts : List Table) : ∃ (js : List Table) (cs : List (List Table)),
    ts = js ++ cs.flatten ∧ (∀ j ∈ js, j.isJoined) ∧
      ∀ c ∈ cs, ∃ t us, c = t :: us ∧ t.join = none ∧ ∀ u ∈ us, u.isJoined := by
  induction ts with
  | nil => exact ⟨[], [], rfl, by simp, by simp⟩
  | cons t ts ih =>
      obtain ⟨js, cs, rfl, hj, hc⟩ := ih
      cases ht : t.join with
      | none =>
          refine ⟨[], (t :: js) :: cs, rfl, by simp, List.forall_mem_cons.2 ⟨?_, hc⟩⟩
          exact ⟨t, js, rfl, ht, hj⟩
      | some j =>
          have hjt : t.isJoined := by simp [isJoined, ht]
          exact ⟨t :: js, cs, rfl, List.forall_mem_cons.2 ⟨hjt, hj⟩, hc⟩

theorem isWord_of_mem_chainWords (h : AreWellFormed ts) : ∀ w ∈ chainWords ts, IsWord w := by
  induction ts with
  | nil => simp [chainWords]
  | cons t ts ih =>
      intro w hw
      rw [chainWords_cons, ← List.append_assoc] at hw
      rcases List.mem_append.1 hw with hw | hw
      · exact h.1.isWord w hw
      · exact ih h.2 w hw

theorem aliasesFit_of_areWellFormed (h : AreWellFormed ts) : AliasesFit ts :=
  h.imp fun _ _ ht => ht.aliasFits

theorem tidies_of_areWellFormed (h : AreWellFormed ts) : Tidies ts :=
  h.imp fun _ _ ht => ht.tidy

theorem isChain_of_areWellFormed {c : List Table} (h : AreWellFormed c)
    (hj : ∃ t us, c = t :: us ∧ t.join = none ∧ ∀ u ∈ us, u.isJoined) : IsChain c := by
  have hw := isWord_of_mem_chainWords h
  have hne : ∀ w ∈ chainWords c, w ≠ [] := fun w hm => (hw w hm).solid.ne_nil
  have hp : Pieces isSpace (chainWords c) :=
    ⟨fun w hm => (hw w hm).space, fun w hm => (hw w (List.mem_of_mem_dropLast hm)).closed⟩
  refine ⟨hj, tidies_of_areWellFormed h, hp, hne, (Text.solid_joinWords_iff hne).2 ?_⟩
  refine Text.solidWords_of_forall ?_ fun w hm => (hw w hm).solid
  obtain ⟨t, us, rfl, hn, -⟩ := hj
  rw [chainWords_of_unjoined hn, words, ownWords]
  exact List.cons_ne_nil _ _

theorem isChain_of_mem {cs : List (List Table)} (h : AreWellFormed cs.flatten)
    (hj : ∀ c ∈ cs, ∃ t us, c = t :: us ∧ t.join = none ∧ ∀ u ∈ us, u.isJoined) :
    ∀ c ∈ cs, IsChain c := by
  have hf : Each WellFormed cs.flatten ↔ ∀ c ∈ cs, Each WellFormed c := by
    refine each_flatten (fun t ts us hn => ?_) hj
    rw [wellFormed_iff, wellFormed_iff, nextWords_append hn]
  exact fun c hc => isChain_of_areWellFormed (hf.1 h c hc) (hj c hc)

theorem areChains_of_areWellFormed (hne : ts ≠ []) (hj : ∀ t ∈ ts.head?, t.join = none)
    (h : AreWellFormed ts) : ∃ cs, ts = cs.flatten ∧ AreChains cs := by
  obtain ⟨js, cs, rfl, hjs, hcs⟩ := exists_flatten ts
  obtain rfl : js = [] := by
    rcases js with _ | ⟨t, js⟩
    · rfl
    · have ht := hjs t List.mem_cons_self
      simp [isJoined, hj t rfl] at ht
  refine ⟨cs, rfl, ?_, isChain_of_mem h hcs, ?_, ?_⟩
  · rintro rfl
    exact hne rfl
  all_goals
    have hw (c) (hc : c ∈ cs) (w) (hm : w ∈ chainWords c) : IsWord w := by
      refine isWord_of_mem_chainWords h w ?_
      rw [List.nil_append, chainWords_flatten]
      exact List.mem_flatMap.2 ⟨c, hc, hm⟩
    intro t ht
  · obtain ⟨c, hc, rfl⟩ := List.mem_map.1 ht
    exact Text.free_joinWords (by decide) ⟨fun w hm => (hw c hc w hm).comma,
      fun w hm => (hw c hc w (List.mem_of_mem_dropLast hm)).closed⟩
  · obtain ⟨c, hc, rfl⟩ := List.mem_map.1 (List.mem_of_mem_dropLast ht)
    exact Text.closed_joinWords fun w hm => (hw c hc w hm).closed

theorem closed_renderList_of_areWellFormed (hne : ts ≠ []) (hj : ∀ t ∈ ts.head?, t.join = none)
    (h : AreWellFormed ts) : Closed (renderList ts) := by
  obtain ⟨cs, rfl, hcs⟩ := areChains_of_areWellFormed hne hj h
  rw [renderList_flatten hcs]
  refine Text.closed_commaList fun t ht => ?_
  obtain ⟨c, hc, rfl⟩ := List.mem_map.1 ht
  refine Text.closed_joinWords fun w hm => (isWord_of_mem_chainWords h w ?_).closed
  rw [chainWords_flatten]
  exact List.mem_flatMap.2 ⟨c, hc, hm⟩

end Table

namespace Select

/-- A SELECT of which each part stands alone and no part holds a keyword that a clause behind it
could be mistaken for. -/
@[mk_iff]
structure WellFormed (s : Select) : Prop where
  fields_ne_nil : s.fields ≠ []
  fields : ∀ f ∈ s.fields, f.WellFormed
  distinct : s.distinct = false → ∀ f ∈ s.fields.head?, Keyword.distinct.strip? f.render = none
  tables_ne_nil : s.tables ≠ []
  first : ∀ t ∈ s.tables.head?, t.join = none
  tables : Table.AreWellFormed s.tables
  bodies : ∀ c ∈ present s.clauses, c.2.IsClean
  keywords : Placed clauseKeywords (Table.renderList s.tables) (present s.clauses)
  semicolon : s.render.getLast? ≠ some ';'

instance (s : Select) : Decidable s.WellFormed :=
  decidable_of_iff' _ (wellFormed_iff s)

variable {s : Select}

theorem WellFormed.shaped (h : s.WellFormed) : s.Shaped :=
  ⟨h.fields_ne_nil, fun f hf => (h.fields f hf).shaped,
    Table.areChains_of_areWellFormed h.tables_ne_nil h.first h.tables,
    fun c hc => (h.bodies c hc).solid,
    fun _ => Table.closed_renderList_of_areWellFormed h.tables_ne_nil h.first h.tables⟩

theorem WellFormed.unambiguous (h : s.WellFormed) : s.Unambiguous :=
  ⟨fun f hf => (h.fields f hf).name, fun f hf => (h.fields f hf).absent_from, h.distinct,
    Table.aliasesFit_of_areWellFormed h.tables, h.keywords, h.semicolon⟩

/-- A well-formed SELECT is read back from its text, whether it was read or built by hand. -/
theorem parse_render_of_wellFormed (h : s.WellFormed) :
    Statement.parse s.render = .ok (.select s) :=
  (parse_render_iff h.shaped).2 h.unambiguous

theorem parse_render_of_wellFormed_join :
    let s : Select := ⟨false, [⟨"a + (from)".toList, some "x".toList⟩, ⟨"f(b, c)".toList, none⟩],
      [⟨"t".toList, some "u".toList, none⟩,
        ⟨"v".toList, none, some ⟨"left outer JOIN".toList, some (.onCondition "u.a = 'on'".toList)⟩⟩,
        ⟨"w".toList, none, none⟩],
      some "c > 'where'".toList, none, none, some "a DESC".toList, some "3".toList⟩
    s.WellFormed ∧ Statement.parse s.render = .ok (.select s) :=
  have h : Select.WellFormed _ := by decide +kernel
  ⟨h, parse_render_of_wellFormed h⟩

end Select

end SqlEdit
