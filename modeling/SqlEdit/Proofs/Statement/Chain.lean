import SqlEdit.Proofs.Statement.Condensed
import SqlEdit.Proofs.Statement.Operator

namespace SqlEdit

open Nesting (Pieces Free)

namespace Constraint

def keyword : Constraint → Text
  | onCondition _ => "ON".toList
  | usingColumns _ => "USING".toList

def text : Constraint → Text
  | onCondition condition => condition
  | usingColumns columns => columns

def words (c : Constraint) : List Text :=
  c.keyword :: c.text.splitWords

@[mk_iff]
structure IsWritten (c : Constraint) (next : List Text) : Prop where
  text : c.text = Text.joinWords c.text.splitWords
  ne_nil : c.text.splitWords ≠ []
  next : Join.untilOperator (c.text.splitWords ++ next) = (c.text.splitWords, next)

instance (c : Constraint) (next : List Text) : Decidable (c.IsWritten next) :=
  decidable_of_iff' _ (isWritten_iff c next)

theorem render_eq (c : Constraint) : c.render = c.keyword ++ ' ' :: c.text := by
  cases c <;> rfl

theorem keyword_mem (c : Constraint) : c.keyword ∈ keywords := by
  cases c
  · exact List.mem_cons_self
  · exact List.mem_cons_of_mem _ List.mem_cons_self

theorem begins_iff {w : Text} : begins w ↔ ∃ k ∈ keywords, w.sameWord k := by
  simp [begins, keywords]

theorem begins_keyword (c : Constraint) : begins c.keyword :=
  begins_iff.2 ⟨_, c.keyword_mem, beq_self_eq_true _⟩

variable {w : Text} {ws body rest : List Text} {c : Constraint} {c? : Option Constraint}

theorem sameWord_keyword_ofWords (h : begins w) (body : List Text) :
    w.sameWord (ofWords w body).keyword := by
  rw [ofWords]
  split
  · next hon => exact hon
  · next hon => exact (Bool.or_eq_true_iff.1 h).resolve_left hon

theorem text_ofWords (w : Text) (body : List Text) : (ofWords w body).text = Text.joinWords body := by
  rw [ofWords]
  split <;> rfl

theorem ofWords_keyword (c : Constraint) (h : c.text = Text.joinWords body) :
    ofWords c.keyword body = c := by
  have hon : Text.sameWord "ON".toList "ON".toList := by decide
  have hu : ¬ Text.sameWord "USING".toList "ON".toList := by decide
  cases c with
  | onCondition condition => rw [ofWords, keyword, if_pos hon, ← h, text]
  | usingColumns columns => rw [ofWords, keyword, if_neg hu, ← h, text]

theorem begins_operator_of_begins (h : begins w) (ws : List Text) : Join.begins (w :: ws) = false := by
  obtain ⟨k, hk, hw⟩ := begins_iff.1 h
  have hkv : ∀ k ∈ keywords, ∀ v ∈ "JOIN".toList :: Join.modifiers, Text.sameWord k v = false := by
    decide
  exact Join.begins_eq_false (fun v hv => (Text.sameWord_congr hw v).trans (hkv k hk v hv)) ws

theorem read?_of_not_begins (h : ws.head?.any begins = false) : read? ws = some (none, ws) := by
  cases ws with
  | nil => rfl
  | cons w ws =>
      rw [List.head?_cons, Option.any_some] at h
      rw [read?, if_neg (by simp [h])]

theorem eq_or_exists_of_read? (h : read? ws = some (c?, rest)) :
    (c? = none ∧ rest = ws) ∨ ∃ w body, begins w ∧ ws = w :: (body ++ rest) ∧ body ≠ [] ∧
      Join.untilOperator (body ++ rest) = (body, rest) ∧ c? = some (ofWords w body) := by
  cases ws with
  | nil =>
      obtain ⟨rfl, rfl⟩ := Prod.mk.inj (Option.some.inj h)
      exact .inl ⟨rfl, rfl⟩
  | cons w ws =>
      rw [read?] at h
      split at h
      next hw =>
        have he := Join.eq_of_untilOperator ws
        obtain ⟨body, rest', hu⟩ : ∃ body rest', Join.untilOperator ws = (body, rest') := ⟨_, _, rfl⟩
        simp only [hu] at h he
        split at h
        · simp at h
        next hne =>
          obtain ⟨rfl, rfl⟩ := Prod.mk.inj (Option.some.inj h)
          exact .inr ⟨w, body, hw, by rw [← he], hne, by rw [← he, hu], rfl⟩
      next hw =>
        obtain ⟨rfl, rfl⟩ := Prod.mk.inj (Option.some.inj h)
        exact .inl ⟨rfl, rfl⟩

theorem begins_of_read? (h : read? ws = some (c?, rest)) :
    Join.begins ws = (c?.isNone && Join.begins rest) := by
  obtain ⟨rfl, rfl⟩ | ⟨w, body, hw, rfl, -, -, rfl⟩ := eq_or_exists_of_read? h
  · rfl
  · rw [begins_operator_of_begins hw]
    rfl

theorem read?_words (h : c.IsWritten rest) : read? (c.words ++ rest) = some (some c, rest) := by
  rw [words, List.cons_append, read?, if_pos c.begins_keyword, h.next]
  simp only
  rw [if_neg h.ne_nil, ofWords_keyword c h.text]

theorem condensed_of_read? (hp : Pieces isSpace ws) (hne : ∀ w ∈ ws, w ≠ [])
    (h : read? ws = some (c?, rest)) :
    (∀ c ∈ c?, c.IsWritten rest) ∧ ∃ front, ws = front ++ rest ∧
      Condensed front (c?.elim [] words) := by
  obtain ⟨rfl, rfl⟩ | ⟨w, body, hw, rfl, hb, hu, rfl⟩ := eq_or_exists_of_read? h
  · exact ⟨by simp, [], rfl, .nil⟩
  · have hs : (body.Sublist (w :: (body ++ rest))) :=
      ((List.sublist_append_left body rest).cons w)
    have ht : (ofWords w body).text.splitWords = body := by
      rw [text_ofWords]
      exact Text.splitWords_join (hp.sublist hs) fun v hv => hne v (hs.subset hv)
    refine ⟨?_, w :: body, rfl, ?_⟩
    · rintro c ⟨rfl⟩
      exact ⟨by rw [ht, text_ofWords], by rwa [ht], by rwa [ht]⟩
    · rw [Option.elim_some, words, ht]
      exact .upper (keyword_mem _) (sameWord_keyword_ofWords hw body) (.refl body)

end Constraint

namespace Table

def isJoined (t : Table) : Bool :=
  t.join.isSome

def nextJoined (ts : List Table) : Bool :=
  ts.head?.any isJoined

def operatorWords (t : Table) : List Text :=
  t.join.elim [] (·.operator.splitWords)

def nextWords (ts : List Table) : List Text :=
  ts.head?.elim [] operatorWords

def words (t : Table) : List Text :=
  t.ownWords ++ t.constraint?.elim [] Constraint.words

def chainWords (ts : List Table) : List Text :=
  ts.flatMap fun t => t.operatorWords ++ t.words

def IsWrittenOperator (operator : Text) : Prop :=
  operator = Text.joinWords operator.splitWords ∧ Join.IsOperator operator.splitWords

instance (operator : Text) : Decidable (IsWrittenOperator operator) :=
  inferInstanceAs (Decidable (_ ∧ _))

/-- A table as it is read in front of others. -/
structure Tidy (t : Table) (ts : List Table) : Prop where
  name : Constraint.begins t.name = false ∧ Join.isJoin t.name = false ∧
    ¬ (Join.isModifier t.name ∧ t.alias? = none ∧ t.constraint? = none ∧ nextJoined ts)
  operator : ∀ j ∈ t.join, IsWrittenOperator j.operator
  constraint : ∀ c ∈ t.constraint?, c.IsWritten (nextWords ts)

/-- Whether the alias of a table is read as one without AS: it is none of AS, ON, USING and JOIN,
and does not begin a join operator together with the words behind it. -/
def AliasFits (t : Table) (ts : List Table) : Prop :=
  ∀ a ∈ t.alias?, a.sameWord "AS".toList = false ∧ Constraint.begins a = false ∧
    Join.isJoin a = false ∧ ¬ (Join.isModifier a ∧ t.constraint? = none ∧ nextJoined ts)

instance (t : Table) (ts : List Table) : Decidable (t.AliasFits ts) :=
  inferInstanceAs (Decidable (∀ _ ∈ t.alias?, _))

def Each (P : Table → List Table → Prop) : List Table → Prop
  | [] => True
  | t :: ts => P t ts ∧ Each P ts

instance decidableEach (P : Table → List Table → Prop) [∀ t ts, Decidable (P t ts)] :
    ∀ ts, Decidable (Each P ts)
  | [] => inferInstanceAs (Decidable True)
  | _ :: ts =>
      have := decidableEach P ts
      inferInstanceAs (Decidable (_ ∧ _))

def Tidies (ts : List Table) : Prop :=
  Each Tidy ts

def AliasesFit (ts : List Table) : Prop :=
  Each AliasFits ts

instance (ts : List Table) : Decidable (AliasesFit ts) :=
  inferInstanceAs (Decidable (Each AliasFits ts))

variable {t : Table} {ts l : List Table} {operator a? : Option Text} {ws rest : List Text}

theorem chainWords_cons (t : Table) (ts : List Table) :
    chainWords (t :: ts) = t.operatorWords ++ (t.words ++ chainWords ts) := by
  rw [chainWords, List.flatMap_cons, List.append_assoc]
  rfl

theorem Each.imp {P Q : Table → List Table → Prop} (h : ∀ t ts, P t ts → Q t ts) (hp : Each P ts) :
    Each Q ts := by
  induction ts with
  | nil => trivial
  | cons t ts ih => exact ⟨h t ts hp.1, ih hp.2⟩

/-- What is told of each table can be told of two lists apart if it does not reach from one to the
other. -/
theorem each_append {P : Table → List Table → Prop} {us : List Table}
    (h : ∀ t ts, P t (ts ++ us) ↔ P t ts) : Each P (ts ++ us) ↔ Each P ts ∧ Each P us := by
  induction ts with
  | nil => simp [Each]
  | cons t ts ih => rw [List.cons_append, Each, Each, h, ih, and_assoc]

theorem nextJoined_append {us : List Table} (h : nextJoined us = false) :
    nextJoined (ts ++ us) = nextJoined ts := by
  cases ts with
  | nil => exact h
  | cons u ts => rfl

theorem nextWords_append {us : List Table} (h : nextJoined us = false) :
    nextWords (ts ++ us) = nextWords ts := by
  rcases ts with _ | ⟨u, ts⟩
  · rcases us with _ | ⟨u, us⟩
    · rfl
    · rw [nextJoined, List.head?_cons, Option.any_some, isJoined, Option.isSome_eq_false_iff,
        Option.isNone_iff_eq_none] at h
      rw [List.nil_append, nextWords, List.head?_cons, Option.elim_some, operatorWords, h]
      rfl
  · rfl

theorem begins_of_sameWord_as {w : Text} (h : w.sameWord "AS".toList) (ws : List Text) :
    Constraint.begins w = false ∧ Join.begins (w :: ws) = false := by
  have hk : ∀ k ∈ Constraint.keywords, Text.sameWord "AS".toList k = false := by decide
  have hv : ∀ v ∈ "JOIN".toList :: Join.modifiers, Text.sameWord "AS".toList v = false := by decide
  constructor
  · rw [Bool.eq_false_iff, Ne, Constraint.begins_iff]
    rintro ⟨k, hm, hw⟩
    rw [Text.sameWord_congr h k, hk k hm] at hw
    exact Bool.false_ne_true hw
  · exact Join.begins_eq_false (fun v hm => (Text.sameWord_congr h v).trans (hv v hm)) ws

theorem readAlias?_of_begins (h : ws = [] ∨ ws.head?.any Constraint.begins ∨ Join.begins ws) :
    readAlias? ws = some (none, ws) := by
  cases ws with
  | nil => rfl
  | cons w ws =>
      have h := h.resolve_left (List.cons_ne_nil _ _)
      rw [List.head?_cons, Option.any_some] at h
      rw [readAlias?.eq_def]
      simp only
      rw [if_neg, if_pos (by simpa using h)]
      intro hw
      have hb := begins_of_sameWord_as hw ws
      simp [hb.1, hb.2] at h

theorem readAlias?_of_some {a : Text} (ha : a.sameWord "AS".toList = false)
    (hc : Constraint.begins a = false) (hb : Join.begins (a :: ws) = false) :
    readAlias? (a :: ws) = some (some a, ws) := by
  rw [readAlias?.eq_def]
  simp only
  rw [if_neg (Bool.eq_false_iff.1 ha), if_neg (by simp [hc, hb])]

theorem exists_of_readAlias? (h : readAlias? ws = some (a?, rest)) :
    (a? = none ∧ ws = rest) ∨
      (∃ w a, ws = w :: a :: rest ∧ a? = some a ∧ w.sameWord "AS".toList) ∨
      ∃ a, ws = a :: rest ∧ a? = some a ∧ a.sameWord "AS".toList = false ∧
        Constraint.begins a = false ∧ Join.begins ws = false := by
  rw [readAlias?.eq_def] at h
  split at h
  next => grind
  next w ws =>
    split at h
    next hw => split at h <;> grind
    next hw =>
      split at h
      next hb => grind
      next hb =>
        obtain ⟨rfl, rfl⟩ := Prod.mk.inj (Option.some.inj h)
        simp only [Bool.or_eq_true, not_or, Bool.not_eq_true] at hw hb
        exact .inr (.inr ⟨w, rfl, rfl, hw, hb.1, hb.2⟩)

theorem read?_eq_some_iff :
    read? operator ws = some (t, rest) ↔ ∃ ws₁ ws₂, ws = t.name :: ws₁ ∧
      Constraint.begins t.name = false ∧ Join.begins ws = false ∧
      readAlias? ws₁ = some (t.alias?, ws₂) ∧ Constraint.read? ws₂ = some (t.constraint?, rest) ∧
      t.join = operator.map fun o => ⟨o, t.constraint?⟩ := by
  cases ws with
  | nil => simp [read?]
  | cons w ws =>
      simp only [read?, List.cons.injEq]
      by_cases hb : Constraint.begins w || Join.begins (w :: ws)
      · rw [if_pos hb]
        grind
      · rw [if_neg hb]
        simp only [Option.bind_eq_bind, Option.bind_eq_some_iff]
        obtain ⟨name, alias?, join⟩ := t
        constructor
        · rintro ⟨⟨a?, ws₁⟩, ha, ⟨c?, ws₂⟩, hc, h⟩
          split at h <;> cases h <;> grind [named, constraint?]
        · rintro ⟨_, ws₂, ⟨rfl, rfl⟩, -, -, ha, hc, h⟩
          refine ⟨_, ha, _, hc, ?_⟩
          cases operator with
          | none =>
              obtain rfl : join = none := h
              rfl
          | some o =>
              obtain ⟨⟨o', c?⟩, rfl⟩ : ∃ j, join = some j := ⟨_, h⟩
              obtain ⟨rfl, -⟩ := Join.mk.inj (Option.some.inj h)
              rfl

def LeadsTo (rest : List Text) (ts : List Table) : Prop :=
  nextJoined ts = false ∧ nextWords ts = [] ∧ rest = [] ∨
    nextJoined ts ∧ Join.IsOperator (nextWords ts) ∧ ∃ rest', rest = nextWords ts ++ rest'

theorem LeadsTo.begins_eq (h : LeadsTo rest ts) : Join.begins rest = nextJoined ts := by
  obtain ⟨hj, -, rfl⟩ | ⟨hj, ho, rest', rfl⟩ := h
  · rw [hj, Join.begins_nil]
  · have hb := Join.begins_append ho [] rest'
    rw [List.nil_append, List.nil_append, ho.begins] at hb
    rw [hb, hj]

theorem LeadsTo.isWritten_iff (h : LeadsTo rest ts) {c : Constraint} :
    c.IsWritten rest ↔ c.IsWritten (nextWords ts) := by
  obtain ⟨-, he, rfl⟩ | ⟨-, ho, rest', rfl⟩ := h
  · rw [he]
  · have hu := Join.untilOperator_append_iff ho c.text.splitWords rest'
    exact ⟨fun hc => ⟨hc.text, hc.ne_nil, hu.1 hc.next⟩, fun hc => ⟨hc.text, hc.ne_nil, hu.2 hc.next⟩⟩

theorem leadsTo_chainWords (hj : ∀ u ∈ ts, u.isJoined) (ht : Tidies ts) :
    LeadsTo (chainWords ts) ts := by
  cases ts with
  | nil => exact .inl ⟨rfl, rfl, rfl⟩
  | cons u us =>
      obtain ⟨j, hu⟩ := Option.isSome_iff_exists.1 (hj u List.mem_cons_self)
      have he : nextWords (u :: us) = j.operator.splitWords := by
        rw [nextWords, List.head?_cons, Option.elim_some, operatorWords, hu, Option.elim_some]
      refine .inr ⟨?_, ?_, u.words ++ chainWords us, chainWords_cons u us⟩
      · simp [nextJoined, isJoined, hu]
      · rw [he]
        exact (ht.1.operator j hu).2

theorem LeadsTo.not_begins (h : LeadsTo rest ts) : rest.head?.any Constraint.begins = false := by
  obtain ⟨-, -, rfl⟩ | ⟨hj, -⟩ := id h
  · rfl
  · cases rest with
    | nil => rfl
    | cons w ws =>
        rw [← h.begins_eq] at hj
        rw [Bool.eq_false_iff, List.head?_cons, Option.any_some]
        intro hw
        rw [Constraint.begins_operator_of_begins hw] at hj
        exact Bool.false_ne_true hj

theorem readConstraint_words (ht : t.Tidy ts) (hl : LeadsTo rest ts) :
    Constraint.read? (t.constraint?.elim [] Constraint.words ++ rest) = some (t.constraint?, rest) := by
  cases hc : t.constraint? with
  | some c => exact Constraint.read?_words (hl.isWritten_iff.2 (ht.constraint c hc))
  | none => exact Constraint.read?_of_not_begins hl.not_begins

theorem readAlias?_words (hf : t.AliasFits ts) (hl : LeadsTo rest ts)
    (hc : Constraint.read? ws = some (t.constraint?, rest)) :
    readAlias? (t.alias?.toList ++ ws) = some (t.alias?, ws) := by
  have hb := hl.begins_eq ▸ Constraint.begins_of_read? hc
  cases ha : t.alias? with
  | some a =>
      obtain ⟨has, hcs, hj, hm⟩ := hf a ha
      rw [Option.toList_some, List.singleton_append]
      refine readAlias?_of_some has hcs ?_
      rw [Join.begins_cons, hj, hb]
      simpa using hm
  | none =>
      refine readAlias?_of_begins ?_
      obtain ⟨he, rfl⟩ | ⟨w, body, hw, rfl, -⟩ := Constraint.eq_or_exists_of_read? hc
      · obtain ⟨-, -, rfl⟩ | ⟨hj, -⟩ := id hl
        · exact .inl rfl
        · exact .inr (.inr (hl.begins_eq.trans hj))
      · exact .inr (.inl hw)

theorem read?_words (ht : t.Tidy ts) (hf : t.AliasFits ts) (hl : LeadsTo rest ts) :
    read? (t.join.map (·.operator)) (t.words ++ rest) = some (t, rest) := by
  have hr := readConstraint_words ht hl
  have hb := hl.begins_eq ▸ Constraint.begins_of_read? hr
  have ha := readAlias?_words hf hl hr
  obtain ⟨hc, hj, hm⟩ := ht.name
  refine read?_eq_some_iff.2 ⟨_, _, ?_, hc, ?_, ha, hr, ?_⟩
  · simp [words, ownWords]
  · rw [words, ownWords, List.cons_append, List.cons_append, Join.begins_cons, hj]
    cases hal : t.alias? with
    | none =>
        rw [Option.toList_none, List.nil_append, hb]
        simpa [hal] using hm
    | some a =>
        obtain ⟨-, -, hja, hma⟩ := hf a hal
        rw [Option.toList_some, List.append_assoc, List.singleton_append, Join.begins_cons, hja, hb]
        simp only [Bool.false_or, Bool.and_eq_false_imp, Option.isNone_iff_eq_none]
        grind
  · simp only [constraint?]
    cases t.join <;> rfl

theorem readChain?_eq_some_iff :
    readChain? operator ws = some l ↔ ∃ t rest, read? operator ws = some (t, rest) ∧
      (rest = [] ∧ l = [t] ∨ ∃ next rest' ts, Join.splitOperator? rest = some (next, rest') ∧
        readChain? (some (Text.joinWords next)) rest' = some ts ∧ l = t :: ts) := by
  rw [readChain?]
  split
  next h => simp [h]
  next u h => simp [h, Join.splitOperator?, eq_comm]
  next u w rest h =>
    simp only [h, Option.some.injEq, Prod.mk.injEq]
    split
    next hs => simp [hs]
    next next rest' hs =>
      rw [Option.map_eq_some_iff]
      constructor
      · rintro ⟨ts, hr, rfl⟩
        exact ⟨u, w :: rest, ⟨rfl, rfl⟩, .inr ⟨next, rest', ts, hs, hr, rfl⟩⟩
      · rintro ⟨_, _, ⟨rfl, rfl⟩, ⟨he, -⟩ | ⟨next', rest'', ts, hs', hr, rfl⟩⟩
        · simp at he
        · obtain ⟨rfl, rfl⟩ := Prod.mk.inj (Option.some.inj (hs.symm.trans hs'))
          exact ⟨ts, hr, rfl⟩

/-- A chain is read back from its words. -/
theorem readChain?_words (hj : ∀ u ∈ ts, u.isJoined) (ht : Tidies (t :: ts))
    (hf : AliasesFit (t :: ts)) :
    readChain? (t.join.map (·.operator)) (t.words ++ chainWords ts) = some (t :: ts) := by
  induction ts generalizing t with
  | nil =>
      have hr := read?_words ht.1 hf.1 (leadsTo_chainWords hj ht.2)
      exact readChain?_eq_some_iff.2 ⟨t, [], hr, .inl ⟨rfl, rfl⟩⟩
  | cons u us ih =>
      have hr := read?_words ht.1 hf.1 (leadsTo_chainWords hj ht.2)
      obtain ⟨j, hu⟩ := Option.isSome_iff_exists.1 (hj u List.mem_cons_self)
      obtain ⟨hw, ho⟩ := ht.2.1.operator j hu
      have ih := ih (fun v hv => hj v (List.mem_cons_of_mem _ hv)) ht.2 hf.2
      rw [hu, Option.map_some, hw] at ih
      refine readChain?_eq_some_iff.2 ⟨t, _, hr, .inr ⟨_, _, u :: us, ?_, ih, rfl⟩⟩
      rw [chainWords_cons, operatorWords, hu, Option.elim_some, ho.splitOperator?_append]

theorem condensed_of_readAlias? (h : readAlias? ws = some (a?, rest)) :
    ∃ front, ws = front ++ rest ∧ Condensed front a?.toList ∧
      (front.length ≤ a?.toList.length → ∀ a ∈ a?, a.sameWord "AS".toList = false ∧
        Constraint.begins a = false ∧ Join.begins (a :: rest) = false) := by
  obtain ⟨rfl, rfl⟩ | ⟨w, a, rfl, rfl, hw⟩ | ⟨a, rfl, rfl, has, hc, hb⟩ := exists_of_readAlias? h
  · exact ⟨[], rfl, .nil, by simp⟩
  · exact ⟨[w, a], rfl, .skip hw (.refl [a]), by simp⟩
  · refine ⟨[a], rfl, .refl [a], ?_⟩
    rintro - b ⟨rfl⟩
    exact ⟨has, hc, hb⟩

theorem condensed_of_read? (hp : Pieces isSpace ws) (hne : ∀ w ∈ ws, w ≠ [])
    (ho : ∀ o ∈ operator, IsWrittenOperator o) (hl : LeadsTo rest ts)
    (h : read? operator ws = some (t, rest)) :
    t.Tidy ts ∧ t.join.map (·.operator) = operator ∧ ∃ front, ws = t.name :: front ++ rest ∧
      Condensed (t.name :: front) t.words ∧
      (front.length < t.words.length → t.AliasFits ts) := by
  obtain ⟨ws₁, ws₂, rfl, hcn, hjn, ha, hc, hj⟩ := read?_eq_some_iff.1 h
  have hb := hl.begins_eq ▸ Constraint.begins_of_read? hc
  obtain ⟨front₁, rfl, hca, hfa⟩ := condensed_of_readAlias? ha
  have hs : ws₂.Sublist (t.name :: (front₁ ++ ws₂)) := (List.sublist_append_right _ _).cons _
  obtain ⟨hcw, front₂, rfl, hcc⟩ :=
    Constraint.condensed_of_read? (hp.sublist hs) (fun w hw => hne w (hs.subset hw)) hc
  have hjo : t.join.map (·.operator) = operator := by
    rw [hj]
    cases operator <;> rfl
  rw [Join.begins_cons, Bool.or_eq_false_iff] at hjn
  refine ⟨⟨⟨hcn, hjn.1, ?_⟩, ?_, fun c hm => hl.isWritten_iff.1 (hcw c hm)⟩, hjo, front₁ ++ front₂,
    by simp, .keep _ (hca.append hcc), fun hle a hm => ?_⟩
  · rintro ⟨hm, hal, hco, hnj⟩
    rw [hal] at hca
    rw [hca.eq_nil, List.nil_append, hb, hm, hco, hnj] at hjn
    simp at hjn
  · intro j hm
    exact ho _ (by rw [← hjo, hm]; rfl)
  · have hlc := hcc.length_le
    have hle : front₁.length ≤ t.alias?.toList.length := by
      simp only [words, ownWords, List.length_append, List.length_cons] at hle
      omega
    obtain ⟨has, hac, hab⟩ := hfa hle a hm
    rw [Join.begins_cons, Bool.or_eq_false_iff, hb] at hab
    refine ⟨has, hac, hab.1, ?_⟩
    rintro ⟨hma, hco, hnj⟩
    simp [hma, hco, hnj] at hab

theorem suffix_of_read? (h : read? operator ws = some (t, rest)) : rest <:+ ws := by
  obtain ⟨ws₁, ws₂, rfl, -, -, ha, hc, -⟩ := read?_eq_some_iff.1 h
  obtain ⟨front, rfl, -⟩ := condensed_of_readAlias? ha
  have hs : rest <:+ ws₂ := by
    obtain ⟨-, rfl⟩ | ⟨w, body, -, rfl, -⟩ := Constraint.eq_or_exists_of_read? hc
    · exact List.suffix_refl _
    · exact List.suffix_append (w :: body) rest
  exact (hs.trans (List.suffix_append ..)).trans (List.suffix_cons ..)

/-- A chain that is read is written in order, with some AS left out. -/
theorem condensed_of_readChain? (hp : Pieces isSpace ws) (hne : ∀ w ∈ ws, w ≠ [])
    (ho : ∀ o ∈ operator, IsWrittenOperator o) (h : readChain? operator ws = some l) :
    ∃ t ts, l = t :: ts ∧ t.join.map (·.operator) = operator ∧ (∀ u ∈ ts, u.isJoined) ∧
      Tidies l ∧ ws.head? = some t.name ∧ Condensed ws (t.words ++ chainWords ts) ∧
      (ws.length ≤ (t.words ++ chainWords ts).length → AliasesFit l) := by
  induction l generalizing operator ws with
  | nil =>
      obtain ⟨t, rest, -, ⟨-, h⟩ | ⟨next, rest', ts, -, -, h⟩⟩ := readChain?_eq_some_iff.1 h <;> cases h
  | cons t ts ih =>
      obtain ⟨t', rest, hr, ⟨rfl, hl⟩ | ⟨next, rest', ts', hs, hn, hl⟩⟩ := readChain?_eq_some_iff.1 h
      · obtain ⟨rfl, rfl⟩ := List.cons.inj hl
        have hl : LeadsTo [] [] := leadsTo_chainWords (by simp) trivial
        obtain ⟨ht, hj, front, rfl, hc, hf⟩ := condensed_of_read? hp hne ho hl hr
        refine ⟨t, [], rfl, hj, by simp, ⟨ht, trivial⟩, rfl, ?_, fun hle => ⟨hf ?_, trivial⟩⟩
        · exact hc.append .nil
        · exact Nat.lt_of_succ_le (by simpa [chainWords] using hle)
      · obtain ⟨rfl, rfl⟩ := List.cons.inj hl
        obtain ⟨rfl, hop⟩ := Join.eq_of_splitOperator? hs
        have hsr : rest'.Sublist ws :=
          (List.sublist_append_right ..).trans (suffix_of_read? hr).sublist
        have hsn : next.Sublist ws :=
          (List.sublist_append_left ..).trans (suffix_of_read? hr).sublist
        have hw : (Text.joinWords next).splitWords = next :=
          Text.splitWords_join (hp.sublist hsn) fun w hw => hne w (hsn.subset hw)
        obtain ⟨u, us, rfl, hju, hjs, hts, -, hcd, hfu⟩ :=
          ih (hp.sublist hsr) (fun w hw => hne w (hsr.subset hw))
            (by rintro o ⟨rfl⟩; exact ⟨by rw [hw], by rwa [hw]⟩) hn
        obtain ⟨j, hj, hjo⟩ := Option.map_eq_some_iff.1 hju
        have huw : u.operatorWords = next := by
          rw [operatorWords, hj, Option.elim_some, hjo, hw]
        have hl : LeadsTo (next ++ rest') (u :: us) := by
          refine .inr ⟨?_, ?_, rest', ?_⟩
          · simp [nextJoined, isJoined, hj]
          · simpa [nextWords, huw] using hop
          · simp [nextWords, huw]
        obtain ⟨ht, htj, front, rfl, hc, hf⟩ := condensed_of_read? hp hne ho hl hr
        refine ⟨t, u :: us, rfl, htj, ?_, ⟨ht, hts⟩, rfl, ?_, fun hle => ?_⟩
        · exact List.forall_mem_cons.2 ⟨by simp [isJoined, hj], hjs⟩
        · rw [chainWords_cons, huw]
          exact hc.append ((Condensed.refl next).append hcd)
        · have hlt := hc.length_le
          have hlu := hcd.length_le
          rw [chainWords_cons, huw] at hle
          simp only [List.length_append, List.length_cons] at hle hlt hlu hfu
          exact ⟨hf (by omega), hfu (by omega)⟩

end Table

end SqlEdit
