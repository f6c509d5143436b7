import SqlEdit.Proofs.Clauses.Reads
import SqlEdit.Statement.Parser
import SqlEdit.Statement.Render

namespace SqlEdit

open Text (Closed Solid Countable)

namespace Clauses

def present (cs : List (Keyword × Option Text)) : List (Keyword × Text) :=
  cs.filterMap fun (k, body) => body.map (k, ·)

theorem write_present (cs : List (Keyword × Option Text)) :
    write (present cs) = cs.flatMap fun (k, body) => k.renderClause body := by
  induction cs with
  | nil => rfl
  | cons c cs ih =>
      obtain ⟨k, body⟩ := c
      rw [List.flatMap_cons, ← ih]
      cases body <;> simp [present, write, Keyword.renderClause]

theorem mem_present {cs : List (Keyword × Option Text)} {k : Keyword} {body : Text} :
    (k, body) ∈ present cs ↔ (k, some body) ∈ cs := by
  simp [present, List.mem_filterMap]

theorem present_cons_some (k : Keyword) (body : Text) (cs : List (Keyword × Option Text)) :
    present ((k, some body) :: cs) = (k, body) :: present cs := rfl

theorem present_cons_none (k : Keyword) (cs : List (Keyword × Option Text)) :
    present ((k, none) :: cs) = present cs := rfl

theorem map_fst_present (cs : List (Keyword × Option Text)) :
    ((present cs).map Prod.fst).Sublist (cs.map Prod.fst) := by
  induction cs with
  | nil => exact .slnil
  | cons c cs ih =>
      obtain ⟨k, _ | body⟩ := c
      · exact ih.cons k
      · exact ih.cons_cons k

theorem lookup_present {cs : List (Keyword × Option Text)} (hn : (cs.map Prod.fst).Nodup)
    {k : Keyword} {body : Option Text} (h : (k, body) ∈ cs) : (present cs).lookup k = body := by
  induction cs with
  | nil => simp at h
  | cons c cs ih =>
      obtain ⟨l, b⟩ := c
      obtain ⟨hl, hn'⟩ := List.nodup_cons.1 hn
      rcases List.mem_cons.1 h with he | h'
      · obtain ⟨rfl, rfl⟩ := Prod.mk.inj he
        cases body with
        | none =>
            rw [present_cons_none, List.lookup_eq_none_iff]
            intro c hc
            refine bne_iff_ne.2 fun he => hl ?_
            exact (map_fst_present cs).subset (List.mem_map.2 ⟨c, hc, he.symm⟩)
        | some b => rw [present_cons_some, List.lookup_cons_self]
      · have hne : k ≠ l := by
          rintro rfl
          exact hl (List.mem_map.2 ⟨_, h', rfl⟩)
        cases b with
        | none => exact ih hn' h'
        | some b =>
            rw [present_cons_some, List.lookup_cons, beq_false_of_ne hne]
            exact ih hn' h'

end Clauses

namespace Keyword

variable {k : Keyword}

theorem countP_text (hk : k.isLettered) : k.text.countP (· == ';') = 0 := by
  obtain ⟨w, ws, he, hw⟩ := of_isLettered hk
  have hz (v : Text) (hv : v.all Char.isAlpha) : v.countP (· == ';') = 0 := by
    refine List.countP_eq_zero.2 fun c hc h => ?_
    have hca := List.all_eq_true.1 hv c hc
    rw [eq_of_beq h] at hca
    exact absurd hca (by decide)
  have hs : (k.words.map (List.countP (· == ';'))).sum = 0 := by
    refine List.sum_eq_zero fun n hn => ?_
    obtain ⟨v, hv, rfl⟩ := List.mem_map.1 hn
    exact hz v (hw v (he ▸ hv)).2
  rw [← hs]
  exact Text.countP_joinWords Text.countable_semicolon k.words

theorem strip?_text (hk : k.isLettered) (t : Text) :
    k.strip? (k.text ++ ' ' :: t) = some (' ' :: t) :=
  strip?_eq_some_iff_read?.2 ⟨k.text, read?_text hk _, rfl⟩

theorem strip?_trimStart_text (hk : k.isLettered) (t : Text) :
    k.strip? (Text.trimStart (' ' :: (k.text ++ ' ' :: t))) = some (' ' :: t) := by
  obtain ⟨c, u, he, hc⟩ := exists_text_eq_cons hk
  rw [Text.trimStart_space, he, List.cons_append, Text.trimStart_cons (isBlank_of_isAlpha hc),
    ← List.cons_append, ← he, strip?_text hk]

theorem strip?_eq_none (hk : k.isLettered) {t : Text} (h : Text.lead? t ≠ k.lead?) :
    k.strip? t = none := by
  rw [strip?, at?_eq_none_of_lead? hk (by exact h), Option.map_none]

theorem countP_strip? {p : Char → Bool} {t rest : Text} (h : k.strip? t = some rest) :
    rest.countP p ≤ t.countP p := by
  obtain ⟨matched, hr, -⟩ := strip?_eq_some_iff_read?.1 h
  rw [eq_of_read? hr, List.countP_append]
  exact Nat.le_add_left ..

theorem length_of_read? {w t matched rest : Text} (hk : k.words = [w])
    (h : k.read? t = some (matched, rest)) : matched.length = w.length := by
  obtain ⟨front, r, more, h₁, h₂, rfl⟩ := (read?_eq_some_iff_of_words hk).1 h
  obtain ⟨rfl, rfl⟩ := Prod.mk.inj (Option.some.inj h₂)
  rw [List.append_nil, Text.length_eq_of_sameWord (Text.readWord?_eq_some_iff.1 h₁).2]

end Keyword

theorem Clauses.countP_write_present (cs : List (Keyword × Option Text))
    (hk : ∀ c ∈ cs, c.1.isLettered) : (write (present cs)).countP (· == ';') =
      (cs.map fun c => (c.2.getD []).countP (· == ';')).sum := by
  induction cs with
  | nil => rfl
  | cons c cs ih =>
      obtain ⟨k, body⟩ := c
      have hkl := Keyword.countP_text (hk (k, body) (by simp))
      have ih := ih fun c hc => hk c (List.mem_cons_of_mem _ hc)
      rw [List.map_cons, List.sum_cons, ← ih]
      cases body with
      | none => rw [present_cons_none]; simp
      | some b => simp [present_cons_some, write, hkl]

theorem Kind.isLettered_keyword (kind : Kind) : kind.keyword.isLettered := by
  cases kind <;> decide

theorem Kind.detect?_text (kind : Kind) (t : Text) :
    detect? (kind.keyword.text ++ ' ' :: t) = some (kind, ' ' :: t) := by
  have hs := Keyword.strip?_text kind.isLettered_keyword t
  have hn (other : Kind) (h : other ≠ kind) :
      other.keyword.strip? (kind.keyword.text ++ ' ' :: t) = none := by
    refine Keyword.strip?_eq_none other.isLettered_keyword ?_
    have hr := Keyword.read?_text kind.isLettered_keyword (' ' :: t)
    rw [Keyword.lead?_of_read? kind.isLettered_keyword hr]
    revert h
    cases kind <;> cases other <;> decide
  rw [detect?, all]
  cases kind <;> simp [hs, hn]

theorem Kind.countP_detect? {p : Char → Bool} {t rest : Text} {kind : Kind}
    (h : detect? t = some (kind, rest)) : rest.countP p ≤ t.countP p := by
  obtain ⟨other, -, hk⟩ := List.exists_of_findSome?_eq_some h
  obtain ⟨r, hr, he⟩ := Option.map_eq_some_iff.1 hk
  rw [← (Prod.mk.inj he).2]
  exact Keyword.countP_strip? hr

namespace Statement

theorem exists_of_parse {sql : Text} {s : Statement} (h : parse sql = .ok s)
    (hs : s.isDegraded = false) :
    ∃ kind rest, Kind.detect? (body sql) = some (kind, rest) ∧ readBody kind rest = .ok s := by
  rw [parse, parseLogged] at h
  split at h
  · simp at h
  split at h
  · simp at h
  next kind rest hk =>
    refine ⟨kind, rest, hk, ?_⟩
    split at h
    next t hr =>
      rw [hr]
      simpa using h
    next reason hr =>
      split at h
      · simp only [Except.ok.injEq] at h
        subst h
        simp [isDegraded] at hs
      · simp at h

theorem parse_of_body {sql rest : Text} {kind : Kind} {s : Statement}
    (hd : Kind.detect? (body sql) = some (kind, rest)) (hn : body sql ≠ [])
    (h : readBody kind rest = .ok s) : parse sql = .ok s := by
  rw [parse, parseLogged]
  simp only [if_neg hn, hd, h]
  rfl

theorem body_of_solid {t : Text} (ht : Solid t) (hl : t.getLast? ≠ some ';') : body t = t := by
  rw [body, ht.trim_eq]
  exact if_neg hl

theorem parse_iff_readBody (kind : Kind) {r : Text} {s : Statement}
    (ht : Solid (kind.keyword.text ++ ' ' :: r))
    (hl : (kind.keyword.text ++ ' ' :: r).getLast? ≠ some ';') (hs : s.isDegraded = false) :
    parse (kind.keyword.text ++ ' ' :: r) = .ok s ↔ readBody kind (' ' :: r) = .ok s := by
  have hb := body_of_solid ht hl
  have hd := kind.detect?_text r
  constructor
  · intro h
    obtain ⟨k, rest, hk, hr⟩ := exists_of_parse h hs
    rw [hb, hd] at hk
    obtain ⟨rfl, rfl⟩ := Prod.mk.inj (Option.some.inj hk)
    exact hr
  · exact parse_of_body (hb.symm ▸ hd) (hb.symm ▸ ht.ne_nil)

/-- The final semicolon of a text is not seen by the reader of the kind. -/
theorem exists_of_parse_of_semicolon {sql : Text} {s : Statement} (h : parse sql = .ok s)
    (hs : s.isDegraded = false) (hl : sql.getLast? = some ';') :
    ∃ kind rest, readBody kind rest = .ok s ∧ rest.countP (· == ';') < sql.countP (· == ';') := by
  obtain ⟨kind, rest, hd, hr⟩ := exists_of_parse h hs
  refine ⟨kind, rest, hr, Nat.lt_of_le_of_lt (Kind.countP_detect? hd) ?_⟩
  obtain ⟨u, rfl⟩ : ∃ u, sql = u ++ [';'] := by
    obtain ⟨u, rfl⟩ := List.getLast?_eq_some_iff.1 hl
    exact ⟨u, rfl⟩
  have hc := Text.countable_semicolon
  rw [body, Text.trim_concat (by decide), if_pos List.getLast?_concat, List.dropLast_concat,
    Text.countP_trimEnd hc, Text.countP_trimStart hc, List.countP_append]
  exact Nat.lt_succ_self _

section

variable {kind : Kind} {t : Text}

theorem readBody_select_iff {s : Select} :
    readBody kind t = .ok (.select s) ↔ kind = .select ∧ Select.read t = .ok s := by
  cases kind with
  | select => cases h : Select.read t <;> simp [readBody, h, Except.map]
  | insert => cases h : Insert.read? t <;> simp [readBody, h]
  | update => cases h : Update.read? t <;> simp [readBody, h]
  | delete => cases h : Delete.read? t <;> simp [readBody, h]

theorem readBody_insert_iff {i : Insert} :
    readBody kind t = .ok (.insert i) ↔ kind = .insert ∧ Insert.read? t = some i := by
  cases kind with
  | select => cases h : Select.read t <;> simp [readBody, h, Except.map]
  | insert => cases h : Insert.read? t <;> simp [readBody, h]
  | update => cases h : Update.read? t <;> simp [readBody, h]
  | delete => cases h : Delete.read? t <;> simp [readBody, h]

theorem readBody_update_iff {u : Update} :
    readBody kind t = .ok (.update u) ↔ kind = .update ∧ Update.read? t = some u := by
  cases kind with
  | select => cases h : Select.read t <;> simp [readBody, h, Except.map]
  | insert => cases h : Insert.read? t <;> simp [readBody, h]
  | update => cases h : Update.read? t <;> simp [readBody, h]
  | delete => cases h : Delete.read? t <;> simp [readBody, h]

theorem readBody_delete_iff {d : Delete} :
    readBody kind t = .ok (.delete d) ↔ kind = .delete ∧ Delete.read? t = some d := by
  cases kind with
  | select => cases h : Select.read t <;> simp [readBody, h, Except.map]
  | insert => cases h : Insert.read? t <;> simp [readBody, h]
  | update => cases h : Update.read? t <;> simp [readBody, h]
  | delete => cases h : Delete.read? t <;> simp [readBody, h]

end

/-- A rendered statement is read back if it does not end with a semicolon and the reader of its
kind reads it back. -/
theorem parse_render_iff {s : Statement} (kind : Kind) {r : Text} (hd : s.isDegraded = false)
    (he : s.render = kind.keyword.text ++ ' ' :: r) (hs : Solid s.render)
    (hw : ∀ k t, readBody k t = .ok s → s.render.countP (· == ';') ≤ t.countP (· == ';')) :
    parse s.render = .ok s ↔ s.render.getLast? ≠ some ';' ∧ readBody kind (' ' :: r) = .ok s := by
  have hl (hp : parse s.render = .ok s) : s.render.getLast? ≠ some ';' := by
    intro hl
    obtain ⟨k, t, hr, hlt⟩ := exists_of_parse_of_semicolon hp hd hl
    exact absurd (hw k t hr) (Nat.not_le.2 hlt)
  rw [he] at hs hl ⊢
  constructor
  · exact fun hp => ⟨hl hp, (parse_iff_readBody kind hs (hl hp) hd).1 hp⟩
  · exact fun h => (parse_iff_readBody kind hs h.1 hd).2 h.2

end Statement

end SqlEdit
