import SqlEdit.Proofs.Statement.Tables

namespace SqlEdit

open Nesting (Pieces)

namespace Join

theorem untilOperator_append_iff_of_begins {next : List Text} (hn : next = [] ∨ begins next)
    (body : List Text) :
    untilOperator (body ++ next) = (body, next) ↔
      ∀ rest, rest <:+ body → rest ≠ [] → begins (rest ++ next) = false := by
  induction body with
  | nil =>
      have hu : untilOperator next = ([], next) := by
        cases next with
        | nil => rfl
        | cons w ws => rw [untilOperator_cons, if_pos (hn.resolve_left (List.cons_ne_nil _ _))]
      simp [hu]
  | cons w body ih =>
      simp only [List.suffix_cons_iff, or_imp, forall_and, forall_eq]
      rw [List.cons_append, untilOperator_cons, ← ih]
      split
      · next h => simp [h]
      · next h => simp [h, Prod.ext_iff]

end Join

namespace Constraint

theorem isSome_of_read? {w : Text} {ws rest : List Text} {c? : Option Constraint} (hw : begins w)
    (h : read? (w :: ws) = some (c?, rest)) : c?.isSome := by
  rw [read?, if_pos hw] at h
  split at h
  split at h
  · simp at h
  · obtain ⟨rfl, -⟩ := Prod.mk.inj (Option.some.inj h)
    rfl

end Constraint

namespace Table

/-- A table of a chain word by word: its operator, its name, its alias with the AS before it, and
its constraint with the ON or USING before it. -/
structure Phrase where
  operator : List Text
  name : Text
  alias? : Option (Option Text × Text)
  constraint? : Option (Text × List Text)
  deriving DecidableEq

namespace Phrase

def aliasWords (alias? : Option (Option Text × Text)) : List Text :=
  alias?.elim [] fun (mark?, a) => mark?.toList ++ [a]

def constraintWords (constraint? : Option (Text × List Text)) : List Text :=
  constraint?.elim [] fun (keyword, body) => keyword :: body

def constraintOf? (constraint? : Option (Text × List Text)) : Option Constraint :=
  constraint?.map fun (keyword, body) => Constraint.ofWords keyword body

def operatorText? (operator : List Text) : Option Text :=
  if operator = [] then none else some (Text.joinWords operator)

def ownWords (p : Phrase) : List Text :=
  p.name :: (aliasWords p.alias? ++ constraintWords p.constraint?)

def words (p : Phrase) : List Text :=
  p.operator ++ p.ownWords

def written (p : Phrase) : List Text :=
  p.operator ++ p.name :: ((p.alias?.map Prod.snd).toList ++
    p.constraint?.elim [] fun (keyword, body) => (Constraint.ofWords keyword body).keyword :: body)

def table (p : Phrase) : Table where
  name := p.name
  alias? := p.alias?.map Prod.snd
  join := (operatorText? p.operator).map fun operator => ⟨operator, constraintOf? p.constraint?⟩

/-- Whether a phrase is read as such in front of other words. Its name is not ON or USING and
begins no join operator, nor does an alias without AS, which is not AS either. A constraint stands
only behind an operator; it has words, and no join operator begins inside it. -/
structure Fits (p : Phrase) (next : List Text) : Prop where
  name : Constraint.begins p.name = false ∧ Join.begins (p.ownWords ++ next) = false
  marked : ∀ mark a, p.alias? = some (some mark, a) → mark.sameWord "AS".toList
  bare : ∀ a, p.alias? = some (none, a) → a.sameWord "AS".toList = false ∧
    Constraint.begins a = false ∧ Join.begins (a :: (constraintWords p.constraint? ++ next)) = false
  constraint : ∀ keyword body, p.constraint? = some (keyword, body) →
    Constraint.begins keyword ∧ body ≠ [] ∧
      ∀ rest, rest <:+ body → rest ≠ [] → Join.begins (rest ++ next) = false
  joined : p.operator = [] → p.constraint? = none

def Follow : List Phrase → Prop
  | [] => True
  | p :: ps => Join.IsOperator p.operator ∧ p.Fits (ps.flatMap words) ∧ Follow ps

def MakeChain : List Phrase → Prop
  | [] => False
  | p :: ps => p.operator = [] ∧ p.Fits (ps.flatMap words) ∧ Follow ps

variable {p : Phrase} {ps : List Phrase} {operator next : List Text}

theorem ownWords_append (p : Phrase) (next : List Text) : p.ownWords ++ next =
    p.name :: (aliasWords p.alias? ++ (constraintWords p.constraint? ++ next)) := by
  rw [ownWords, List.cons_append, List.append_assoc]

theorem flatMap_words_cons (p : Phrase) (ps : List Phrase) :
    (p :: ps).flatMap words = p.operator ++ (p.ownWords ++ ps.flatMap words) := by
  rw [List.flatMap_cons, words, List.append_assoc]

theorem operatorText?_of_isOperator (h : Join.IsOperator operator) :
    operatorText? operator = some (Text.joinWords operator) :=
  if_neg h.ne_nil

theorem Fits.constraint?_table (h : p.Fits next) : p.table.constraint? = constraintOf? p.constraint? := by
  rw [Table.constraint?, table, operatorText?]
  split
  · next ho => rw [h.joined ho]; rfl
  · rfl

theorem Follow.begins (h : Follow ps) : ps.flatMap words = [] ∨ Join.begins (ps.flatMap words) := by
  cases ps with
  | nil => exact .inl rfl
  | cons p ps =>
      refine .inr ?_
      rw [flatMap_words_cons, Join.begins, h.1.splitOperator?_append]
      rfl

end Phrase

open Phrase (aliasWords constraintWords constraintOf? operatorText?)

variable {p : Phrase} {ps : List Phrase} {t : Table} {ts : List Table}
  {operator ws next rest : List Text} {a? : Option Text} {c? : Option Constraint}

theorem exists_aliasWords (h : readAlias? ws = some (a?, rest)) :
    ∃ alias? : Option (Option Text × Text), a? = alias?.map Prod.snd ∧
      ws = aliasWords alias? ++ rest ∧
      (∀ mark a, alias? = some (some mark, a) → mark.sameWord "AS".toList) ∧
      ∀ a, alias? = some (none, a) → a.sameWord "AS".toList = false ∧
        Constraint.begins a = false ∧ Join.begins (a :: rest) = false := by
  obtain ⟨rfl, rfl⟩ | ⟨mark, a, rfl, rfl, hm⟩ | ⟨a, rfl, rfl, ha⟩ := exists_of_readAlias? h
  · exact ⟨none, rfl, rfl, by simp, by simp⟩
  · exact ⟨some (some mark, a), rfl, rfl, by simpa using hm, by simp⟩
  · exact ⟨some (none, a), rfl, rfl, by simp, by simpa using ha⟩

theorem exists_constraintWords (hn : rest = [] ∨ Join.begins rest)
    (h : Constraint.read? ws = some (c?, rest)) :
    ∃ constraint? : Option (Text × List Text), c? = constraintOf? constraint? ∧
      ws = constraintWords constraint? ++ rest ∧
      ∀ keyword body, constraint? = some (keyword, body) → Constraint.begins keyword ∧ body ≠ [] ∧
        ∀ words, words <:+ body → words ≠ [] → Join.begins (words ++ rest) = false := by
  obtain ⟨rfl, rfl⟩ | ⟨keyword, body, hk, rfl, hne, hu, rfl⟩ := Constraint.eq_or_exists_of_read? h
  · exact ⟨none, rfl, rfl, by simp⟩
  · refine ⟨some (keyword, body), rfl, rfl, ?_⟩
    rintro _ _ ⟨rfl⟩
    exact ⟨hk, hne, (Join.untilOperator_append_iff_of_begins hn body).1 hu⟩

theorem readConstraint_constraintWords (h : p.Fits next) (hn : next = [] ∨ Join.begins next) :
    Constraint.read? (constraintWords p.constraint? ++ next) =
      some (constraintOf? p.constraint?, next) := by
  rcases hc : p.constraint? with _ | ⟨keyword, body⟩
  · refine Constraint.read?_of_not_begins ?_
    rcases next with _ | ⟨w, ws⟩
    · rfl
    · -- No word begins both an operator and a constraint.
      have hb := hn.resolve_left (List.cons_ne_nil _ _)
      refine Bool.eq_false_iff.2 fun hw => ?_
      rw [Constraint.begins_operator_of_begins hw] at hb
      exact Bool.false_ne_true hb
  · obtain ⟨hk, hne, hb⟩ := h.constraint keyword body hc
    have hu := (Join.untilOperator_append_iff_of_begins hn body).2 hb
    simp [constraintWords, constraintOf?, Constraint.read?, hk, hu, hne]

theorem readAlias?_aliasWords (h : p.Fits next) (hn : next = [] ∨ Join.begins next) :
    readAlias? (aliasWords p.alias? ++ (constraintWords p.constraint? ++ next)) =
      some (p.alias?.map Prod.snd, constraintWords p.constraint? ++ next) := by
  rcases ha : p.alias? with _ | ⟨_ | mark, a⟩
  · refine readAlias?_of_begins ?_
    rcases hc : p.constraint? with _ | ⟨keyword, body⟩
    · exact hn.imp_right .inr
    · exact .inr (.inl (h.constraint keyword body hc).1)
  · obtain ⟨has, hac, hab⟩ := h.bare a ha
    exact readAlias?_of_some has hac hab
  · have hm := h.marked mark a ha
    show readAlias? (mark :: a :: (constraintWords p.constraint? ++ next)) = _
    rw [readAlias?, if_pos hm]
    rfl

/-- A table is read from the words of a phrase that fits, and from no others. -/
theorem read?_eq_some_iff_phrase (hn : rest = [] ∨ Join.begins rest) :
    read? (operatorText? operator) ws = some (t, rest) ↔
      ∃ p : Phrase, p.operator = operator ∧ p.Fits rest ∧ p.ownWords ++ rest = ws ∧ p.table = t := by
  rw [read?_eq_some_iff]
  constructor
  · rintro ⟨ws₁, ws₂, rfl, hcn, hjn, ha, hc, hj⟩
    obtain ⟨constraint?, hct, rfl, hcf⟩ := exists_constraintWords hn hc
    obtain ⟨alias?, hat, rfl, hmf, hbf⟩ := exists_aliasWords ha
    refine ⟨⟨operator, t.name, alias?, constraint?⟩, rfl, ⟨⟨hcn, ?_⟩, hmf, hbf, hcf, ?_⟩, ?_, ?_⟩
    · rw [Phrase.ownWords_append]
      exact hjn
    · rintro (rfl : operator = [])
      have hjn : t.constraint? = none := by
        rw [Table.constraint?, hj]
        rfl
      rw [hjn] at hct
      exact Option.map_eq_none_iff.1 hct.symm
    · exact Phrase.ownWords_append ..
    · rw [Phrase.table, ← hat, ← hct, ← hj]
  · rintro ⟨p, rfl, hf, rfl, rfl⟩
    refine ⟨_, _, p.ownWords_append rest, hf.name.1, hf.name.2, readAlias?_aliasWords hf hn, ?_, ?_⟩
    · rw [hf.constraint?_table]
      exact readConstraint_constraintWords hf hn
    · rw [hf.constraint?_table]
      rfl

theorem readChain?_eq_some_iff_phrase :
    readChain? (operatorText? operator) ws = some ts ↔ ∃ p ps, p.operator = operator ∧
      p.Fits (ps.flatMap Phrase.words) ∧ Phrase.Follow ps ∧
      p.ownWords ++ ps.flatMap Phrase.words = ws ∧ (p :: ps).map Phrase.table = ts := by
  induction ts generalizing operator ws with
  | nil => rw [readChain?_eq_some_iff]; simp
  | cons t ts ih =>
      rw [readChain?_eq_some_iff]
      constructor
      · rintro ⟨t', rest, hr, ⟨rfl, he⟩ | ⟨next, rest', ts', hs, hr', he⟩⟩
        · obtain ⟨rfl, rfl⟩ := List.cons.inj he
          obtain ⟨p, rfl, hf, rfl, rfl⟩ := (read?_eq_some_iff_phrase (.inl rfl)).1 hr
          exact ⟨p, [], rfl, hf, trivial, rfl, rfl⟩
        · obtain ⟨rfl, rfl⟩ := List.cons.inj he
          obtain ⟨rfl, ho⟩ := Join.eq_of_splitOperator? hs
          rw [← Phrase.operatorText?_of_isOperator ho] at hr'
          obtain ⟨q, qs, rfl, hfq, hqs, rfl, rfl⟩ := ih.1 hr'
          have hqs : Phrase.Follow (q :: qs) := ⟨ho, hfq, hqs⟩
          rw [← Phrase.flatMap_words_cons] at hr
          obtain ⟨p, rfl, hf, rfl, rfl⟩ := (read?_eq_some_iff_phrase hqs.begins).1 hr
          exact ⟨p, q :: qs, rfl, hf, hqs, rfl, rfl⟩
      · rintro ⟨p, ps, rfl, hf, hps, rfl, he⟩
        obtain ⟨rfl, rfl⟩ := List.cons.inj he
        refine ⟨p.table, _, (read?_eq_some_iff_phrase hps.begins).2 ⟨p, rfl, hf, rfl, rfl⟩, ?_⟩
        cases ps with
        | nil => exact .inl ⟨rfl, rfl⟩
        | cons q qs =>
            refine .inr ⟨q.operator, q.ownWords ++ qs.flatMap Phrase.words, _, ?_, ?_, rfl⟩
            · rw [Phrase.flatMap_words_cons, hps.1.splitOperator?_append]
            · rw [← Phrase.operatorText?_of_isOperator hps.1]
              exact ih.2 ⟨q, qs, rfl, hps.2.1, hps.2.2, rfl, rfl⟩

theorem readChain?_none_iff :
    readChain? none ws = some ts ↔ ∃ ps, Phrase.MakeChain ps ∧ ps.flatMap Phrase.words = ws ∧
      ps.map Phrase.table = ts := by
  have hn : operatorText? [] = none := if_pos rfl
  rw [← hn, readChain?_eq_some_iff_phrase]
  constructor
  · rintro ⟨p, ps, ho, hf, hps, rfl, rfl⟩
    exact ⟨p :: ps, ⟨ho, hf, hps⟩, by rw [Phrase.flatMap_words_cons, ho, List.nil_append], rfl⟩
  · rintro ⟨_ | ⟨p, ps⟩, hc, rfl, rfl⟩
    · exact hc.elim
    · obtain ⟨ho, hf, hps⟩ := hc
      refine ⟨p, ps, ho, hf, hps, ?_, rfl⟩
      rw [Phrase.flatMap_words_cons, ho, List.nil_append]

theorem Phrase.Follow.forall_mem (h : Follow ps) :
    ∀ p ∈ ps, Join.IsOperator p.operator ∧ ∃ next, p.Fits next := by
  induction ps with
  | nil => simp
  | cons q qs ih => exact List.forall_mem_cons.2 ⟨⟨h.1, _, h.2.1⟩, ih h.2.2⟩

theorem Phrase.MakeChain.exists_fits (h : MakeChain ps) : ∀ p ∈ ps, ∃ next, p.Fits next := by
  cases ps with
  | nil => exact h.elim
  | cons q qs => exact List.forall_mem_cons.2 ⟨⟨_, h.2.1⟩, fun p hp => (h.2.2.forall_mem p hp).2⟩

theorem Phrase.MakeChain.joined (h : MakeChain ps) :
    ∃ t ts, ps.map table = t :: ts ∧ t.join = none ∧ ∀ u ∈ ts, u.isJoined := by
  cases ps with
  | nil => exact h.elim
  | cons p ps =>
      obtain ⟨ho, -, hps⟩ := h
      refine ⟨p.table, ps.map table, rfl, ?_, List.forall_mem_map.2 fun q hq => ?_⟩
      · rw [table, operatorText?, if_pos ho]
        rfl
      · rw [isJoined, table, operatorText?_of_isOperator (hps.forall_mem q hq).1]
        rfl

theorem words_table (hf : p.Fits next) (hp : Pieces isSpace p.words) (hne : ∀ w ∈ p.words, w ≠ []) :
    p.table.operatorWords ++ p.table.words = p.written := by
  have hs {ws : List Text} (h : ws.Sublist p.words) : (Text.joinWords ws).splitWords = ws :=
    Text.splitWords_join (hp.sublist h) fun w hw => hne w (h.subset hw)
  have ho : p.table.operatorWords = p.operator := by
    rw [operatorWords, Phrase.table, operatorText?]
    split
    · next h => exact h.symm
    · exact hs (List.sublist_append_left ..)
  have hc : p.table.constraint?.elim [] Constraint.words = p.constraint?.elim [] fun (keyword, body) =>
      (Constraint.ofWords keyword body).keyword :: body := by
    rw [hf.constraint?_table]
    rcases he : p.constraint? with _ | ⟨keyword, body⟩
    · rfl
    · have hb : body <:+ p.words :=
        ⟨p.operator ++ p.name :: (aliasWords p.alias? ++ [keyword]), by
          simp [Phrase.words, Phrase.ownWords, he, constraintWords]⟩
      rw [constraintOf?, Option.map_some, Option.elim_some, Constraint.words, Constraint.text_ofWords,
        hs hb.sublist, Option.elim_some]
  rw [ho, words, hc, Phrase.written, ownWords]
  rfl

theorem chainWords_map_table (hf : ∀ p ∈ ps, ∃ next, p.Fits next)
    (hp : Pieces isSpace (ps.flatMap Phrase.words)) (hne : ∀ w ∈ ps.flatMap Phrase.words, w ≠ []) :
    chainWords (ps.map Phrase.table) = ps.flatMap Phrase.written := by
  induction ps with
  | nil => rfl
  | cons p ps ih =>
      obtain ⟨⟨next, hfp⟩, hfs⟩ := List.forall_mem_cons.1 hf
      rw [List.flatMap_cons] at hp hne
      have hps := hp.sublist (List.sublist_append_right ..)
      have hpp := hp.sublist (List.sublist_append_left ..)
      rw [List.map_cons, chainWords, List.flatMap_cons, ← chainWords,
        words_table hfp hpp fun w hw => hne w (List.mem_append_left _ hw),
        ih hfs hps fun w hw => hne w (List.mem_append_right _ hw), List.flatMap_cons]

inductive IsLone : List Text → Prop
  | name (name : Text) : IsLone [name]
  | bare (name : Text) {a : Text} : a.sameWord "AS".toList = false → IsLone [name, a]
  | marked (name : Text) {mark : Text} (a : Text) : mark.sameWord "AS".toList → IsLone [name, mark, a]

theorem read?_eq_none_of_begins {w : Text} (name : Text) (hw : Constraint.begins w)
    (ha : readAlias? ws = some (a?, w :: rest)) : read? none (name :: ws) = none := by
  refine Option.eq_none_iff_forall_ne_some.2 fun ⟨t, rest'⟩ hr => ?_
  obtain ⟨_, ws₂, he, -, -, ha', hc, hj⟩ := read?_eq_some_iff.1 hr
  obtain ⟨-, rfl⟩ := List.cons.inj he
  obtain ⟨-, rfl⟩ := Prod.mk.inj (Option.some.inj (ha.symm.trans ha'))
  have hs := Constraint.isSome_of_read? hw hc
  rw [constraint?, hj] at hs
  exact Bool.false_ne_true hs

theorem readChain?_eq_none {operator : Option Text} (h : read? operator ws = none) :
    readChain? operator ws = none := by
  refine Option.eq_none_iff_forall_ne_some.2 fun ts hr => ?_
  obtain ⟨t, rest, hr, -⟩ := readChain?_eq_some_iff.1 hr
  rw [h] at hr
  cases hr

/-- ON and USING are no names of tables behind an operator. -/
theorem readChain?_of_begins_operator {a w : Text} (name : Text) (hac : ¬ Constraint.begins a)
    (hab : Join.begins (a :: w :: rest)) (hw : Constraint.begins w) :
    readChain? none (name :: a :: w :: rest) = none := by
  refine Option.eq_none_iff_forall_ne_some.2 fun ts hr => ?_
  obtain ⟨t, rest', hr, hl⟩ := readChain?_eq_some_iff.1 hr
  obtain ⟨_, ws₂, he, -, -, ha, hc, -⟩ := read?_eq_some_iff.1 hr
  obtain ⟨-, rfl⟩ := List.cons.inj he
  obtain ⟨-, rfl⟩ := Prod.mk.inj (Option.some.inj
    ((readAlias?_of_begins (.inr (.inr hab))).symm.trans ha))
  have hno : (a :: w :: rest).head?.any Constraint.begins = false := Bool.eq_false_iff.2 hac
  rw [Constraint.read?_of_not_begins hno] at hc
  obtain ⟨-, rfl⟩ := Prod.mk.inj (Option.some.inj hc)
  rw [Join.begins_cons, Constraint.begins_operator_of_begins hw, Bool.and_false, Bool.or_false] at hab
  obtain ⟨he, -⟩ | ⟨next, rest'', us, hs, hr, -⟩ := hl
  · exact List.cons_ne_nil _ _ he
  · rw [Join.splitOperator?_cons, if_pos hab] at hs
    obtain ⟨-, rfl⟩ := Prod.mk.inj (Option.some.inj hs)
    have hn : read? (some (Text.joinWords next)) (w :: rest) = none := by
      rw [read?, if_pos (by simp [hw])]
    rw [readChain?_eq_none hn] at hr
    cases hr

theorem readChain?_of_begins {w : Text} (name : Text) (hw : Constraint.begins w) (rest : List Text) :
    readChain? none (name :: w :: rest) = none :=
  readChain?_eq_none (read?_eq_none_of_begins name hw (readAlias?_of_begins (.inr (.inl hw))))

theorem readChain?_of_isLone {front : List Text} {w : Text} (hl : IsLone front)
    (hw : Constraint.begins w) (rest : List Text) : readChain? none (front ++ w :: rest) = none := by
  cases hl with
  | name name => exact readChain?_of_begins name hw rest
  | @bare name a has =>
      by_cases hac : Constraint.begins a
      · exact readChain?_of_begins name hac (w :: rest)
      by_cases hab : Join.begins (a :: w :: rest)
      · exact readChain?_of_begins_operator name hac hab hw
      · have ha := readAlias?_of_some has (Bool.eq_false_iff.2 hac) (Bool.eq_false_iff.2 hab)
        exact readChain?_eq_none (read?_eq_none_of_begins name hw ha)
  | @marked name mark a hm =>
      have ha : readAlias? (mark :: a :: w :: rest) = some (some a, w :: rest) := by
        rw [readAlias?, if_pos hm]
      exact readChain?_eq_none (read?_eq_none_of_begins name hw ha)

/-- Whether a FROM clause is read as the chains of its groups, or fails with the first group that
is no chain. -/
def ReadsGroups (region : Text) : Prop :=
  (∃ cs, List.Forall₂ (fun g c => readChain? none g.splitWords = some c) (region.splitItems ',') cs ∧
    readList region = .ok cs.flatten) ∨
  ∃ front g back, region.splitItems ',' = front ++ g :: back ∧
    (∀ f ∈ front, (readChain? none f.splitWords).isSome) ∧
    readChain? none g.splitWords = none ∧ readList region = .error (.malformedTableList g)

theorem readsGroups_of_ne_nil {region : Text} (h : region ≠ []) : ReadsGroups region := by
  cases hr : readList region with
  | ok ts =>
      obtain ⟨-, cs, rfl, hcs⟩ := readList_eq_ok_iff.1 hr
      exact .inl ⟨cs, hcs, hr⟩
  | error e =>
      obtain ⟨rfl, -⟩ | ⟨-, front, g, back, hs, hf, hg, rfl⟩ := readList_eq_error_iff.1 hr
      · exact absurd rfl h
      · exact .inr ⟨front, g, back, hs, hf, hg, hr⟩

/-- A clause without groups is an error of its own, and is not read as no tables. -/
theorem not_readsGroups_nil : ¬ ReadsGroups [] := by
  have hr : readList [] = .error .emptyTableList := rfl
  have hs : Text.splitItems ',' [] = [] := rfl
  rintro (⟨cs, -, h⟩ | ⟨front, g, back, h, -⟩)
  · rw [hr] at h
    cases h
  · rw [hs] at h
    simp at h

/-- The tables of a FROM clause word by word. Words are read as a chain exactly if they are those of
phrases that make one; the words of its tables are the words read, without the AS before an alias
and with ON and USING in upper case. Only the first table has no join, and it has no constraint. A
FROM clause that is not empty is read as the chains of its groups in their order, or fails with the
first group that is no chain. -/
theorem readChain?_phrases :
    (∀ ws ts, readChain? none ws = some ts ↔ ∃ ps, Phrase.MakeChain ps ∧
      ps.flatMap Phrase.words = ws ∧ ps.map Phrase.table = ts) ∧
    (∀ g ps, Phrase.MakeChain ps → ps.flatMap Phrase.words = Text.splitWords g →
      chainWords (ps.map Phrase.table) = ps.flatMap Phrase.written) ∧
    (∀ ws ts, readChain? none ws = some ts →
      ∃ u us, ts = u :: us ∧ u.join = none ∧ ∀ v ∈ us, v.isJoined) ∧
    (∀ front w rest, IsLone front → Constraint.begins w →
      readChain? none (front ++ w :: rest) = none) ∧
    readList [] = .error .emptyTableList ∧ ∀ region, region ≠ [] → ReadsGroups region := by
  refine ⟨fun _ _ => readChain?_none_iff, fun g ps hc he => ?_, fun ws ts hr => ?_,
    fun _ _ rest hl hw => readChain?_of_isLone hl hw rest, rfl, fun _ => readsGroups_of_ne_nil⟩
  · refine chainWords_map_table hc.exists_fits (he ▸ Text.pieces_splitWords g) fun w hw => ?_
    exact Text.ne_nil_of_mem_splitWords (he ▸ hw)
  · obtain ⟨ps, hc, -, rfl⟩ := readChain?_none_iff.1 hr
    exact hc.joined

theorem readChain?_phrases_of_join :
    (∃ ps, Phrase.MakeChain ps ∧
      ps.flatMap Phrase.words = Text.splitWords "t AS x LEFT  JOIN u on a = b".toList ∧
      chainWords (ps.map Phrase.table) = ps.flatMap Phrase.written ∧
      ∃ u us, ps.map Phrase.table = u :: us ∧ u.join = none ∧ ∀ v ∈ us, v.isJoined) ∧
    readChain? none ["t".toList, "using".toList, "(id)".toList] = none ∧
    ReadsGroups "t, u v w".toList := by
  obtain ⟨hread, hwritten, hjoined, hlone, -, hgroups⟩ := readChain?_phrases
  have hr : readChain? none (Text.splitWords "t AS x LEFT  JOIN u on a = b".toList) =
      some [⟨"t".toList, some "x".toList, none⟩,
        ⟨"u".toList, none, some ⟨"LEFT JOIN".toList, some (.onCondition "a = b".toList)⟩⟩] := by
    decide +kernel
  obtain ⟨ps, hc, hw, ht⟩ := (hread _ _).1 hr
  exact ⟨⟨ps, hc, hw, hwritten _ ps hc hw, ht ▸ hjoined _ _ hr⟩,
    hlone ["t".toList] "using".toList ["(id)".toList] (.name _) (by decide), hgroups _ (by decide)⟩

end Table

end SqlEdit
