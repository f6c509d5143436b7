import SqlEdit.Proofs.Statement.Items
import SqlEdit.Proofs.Statement.Parse
import SqlEdit.Proofs.Statement.Target

namespace SqlEdit

open Nesting (Pieces Free isPlain)
open Text (Closed Solid squash squash_append squash_cons squash_trim)
open Clauses (Placed present write bodyOf?)
open Keyword (Apart Absent First)

namespace Text

variable {c : Char}

theorem readWord?_mark (c : Char) (t : Text) : readWord? [c] (c :: t) = some ([c], t) :=
  readWord?_eq_some_iff.2 ⟨rfl, Keyword.sameWord_self _⟩

theorem readWord?_mark_eq_none (hc : c.isAlpha = false) {t : Text} (ht : t.head? ≠ some c) :
    readWord? [c] t = none := by
  cases t with
  | nil => exact readWord?_nil (by simp)
  | cons d t =>
      refine readWord?_cons (fun he => ht ?_) ..
      rw [toLower_of_not_isAlpha hc] at he
      have hd : d.isAlpha = false := by rw [← isAlpha_toLower, ← he, hc]
      rw [he, toLower_of_not_isAlpha hd, List.head?_cons]

theorem filterMap_readWord?_eq_nil (hc : c.isAlpha = false) {t r : Text}
    (h : Free (· == c) .top t) :
    (topSites t).filterMap ((·.read? (readWord? [c])) ∘ Site.extend r) = [] := by
  refine List.filterMap_eq_nil_iff.2 fun place hp => ?_
  obtain ⟨hp, htop⟩ := List.mem_filter.1 hp
  have hne := ne_nil_of_mem_sitesAfter hp
  have hh : (place.after ++ r).head? ≠ some c := by
    obtain ⟨d, u, hdu⟩ := List.exists_cons_of_ne_nil hne
    have hn := Nesting.head?_of_free h place hp htop
    rw [hdu] at hn ⊢
    simpa using hn
  rw [Function.comp_apply, Site.read?, Site.extend, readWord?_mark_eq_none hc hh, Option.map_none]

theorem occurrences_eq_nil (hc : c.isAlpha = false) {t : Text} (h : Free (· == c) .top t) :
    occurrences [c] t = [] := by
  have hn := filterMap_readWord?_eq_nil (r := []) hc h
  rw [occurrences, if_neg (List.cons_ne_nil _ _)]
  simpa [Function.comp_def, Site.extend] using hn

theorem head?_occurrences (hc : c.isAlpha = false) {s : Text} (h : Free (· == c) .top s)
    (hs : Closed s) (r : Text) :
    (occurrences [c] (s ++ c :: r)).head? = some ⟨s, [c], r⟩ := by
  rw [occurrences, if_neg (List.cons_ne_nil _ _), topSites_append hs, List.filterMap_append,
    List.filterMap_map, filterMap_readWord?_eq_nil hc h, List.nil_append, topSites, sitesAfter,
    List.filter_cons_of_pos (by rfl), List.map_cons, List.filterMap_cons]
  simp [Site.read?, Site.behind, readWord?_mark]

end Text

namespace Update

def assignmentText (e : Text × Text) : Text :=
  e.1 ++ " = ".toList ++ e.2

structure IsAssignment (e : Text × Text) : Prop where
  field : Solid e.1
  value : Solid e.2
  free : Free (· == '=') .top e.1
  closed : Closed e.1

theorem readAssignment?_eq_some_iff {t : Text} {e : Text × Text} :
    readAssignment? t = some e ↔ ∃ s r, Free (· == '=') .top s ∧ Closed s ∧ t = s ++ '=' :: r ∧
      Text.trim s = e.1 ∧ Text.trim r = e.2 ∧ e.1 ≠ [] ∧ e.2 ≠ [] := by
  have hp : ∀ c, (c == '=') = true → isPlain c = true := forall_of_beq (by decide)
  constructor
  · intro h
    obtain ⟨o, ho, h⟩ := Option.bind_eq_some_iff.1 h
    obtain ⟨u, us, hu⟩ := List.exists_cons_of_ne_nil (Nesting.cut_ne_nil (· == '=') .top t)
    cases us with
    | nil =>
        have hf : Free (· == '=') .top t := by
          rw [Free, hu, Nesting.eq_of_cut_singleton hu]
        rw [Text.occurrences_eq_nil (by decide) hf] at ho
        simp at ho
    | cons v vs =>
        obtain ⟨hf, hcl, c, r, hc, rfl, -⟩ := Nesting.exists_of_cut_cons_cons hp hu
        obtain rfl := eq_of_beq hc
        rw [Text.head?_occurrences (by decide) hf hcl, Option.some.injEq] at ho
        subst ho
        simp only at h
        split at h
        · simp at h
        next hne =>
          rw [not_or] at hne
          obtain rfl := Option.some.inj h
          exact ⟨u, r, hf, hcl, rfl, rfl, rfl, hne.1, hne.2⟩
  · rintro ⟨s, r, hf, hcl, rfl, hs, hr, hne⟩
    rw [readAssignment?, Text.head?_occurrences (by decide) hf hcl]
    simp only [Option.bind_eq_bind, Option.bind_some, hs, hr]
    rw [if_neg (by simpa using hne)]

theorem isAssignment_of_readAssignment? {t : Text} {e : Text × Text}
    (h : readAssignment? t = some e) : IsAssignment e := by
  obtain ⟨s, r, hf, hc, -, hs, hr, hne⟩ := readAssignment?_eq_some_iff.1 h
  have hb : ∀ c, (c == '=') = true → isBlank c = false := forall_of_beq (by decide)
  refine ⟨?_, ?_, ?_, ?_⟩
  · exact Text.solid_iff.2 ⟨hne.1, hs ▸ Text.trim_trim s⟩
  · exact Text.solid_iff.2 ⟨hne.2, hr ▸ Text.trim_trim r⟩
  · exact hs ▸ (Nesting.free_trim hb).2 hf
  · exact hs ▸ Text.closed_trim.2 hc

theorem readAssignment?_assignmentText {e : Text × Text} (h : IsAssignment e) :
    readAssignment? (assignmentText e) = some e := by
  refine readAssignment?_eq_some_iff.2 ⟨e.1 ++ [' '], ' ' :: e.2, ?_, ?_, ?_, ?_, ?_, ?_⟩
  · rw [Nesting.free_append, h.closed]
    exact ⟨h.free, by decide⟩
  · exact (Text.closed_append_blank (by decide)).2 h.closed
  · simp [assignmentText]
  · rw [Text.trim_append_right (by decide), h.field.trim_eq]
  · rw [Text.trim_space, h.value.trim_eq]
  · exact ⟨h.field.ne_nil, h.value.ne_nil⟩

theorem solid_assignmentText {e : Text × Text} (h : IsAssignment e) : Solid (assignmentText e) :=
  h.field.append h.value _

theorem closed_assignmentText {e : Text × Text} (h : IsAssignment e) :
    Closed (assignmentText e) ↔ Closed e.2 := by
  have hc : Closed (e.1 ++ " = ".toList) := h.closed.append (by decide)
  rw [assignmentText, hc.append_iff]

theorem free_assignmentText {t : Text} {e : Text × Text} (h : readAssignment? t = some e) :
    (Free (· == ',') .top t → Free (· == ',') .top (assignmentText e)) ∧
      (Closed t → Closed (assignmentText e)) := by
  have he := isAssignment_of_readAssignment? h
  obtain ⟨s, r, -, hc, rfl, hs, hr, -⟩ := readAssignment?_eq_some_iff.1 h
  have hb : ∀ c, (c == ',') = true → isBlank c = false := forall_of_beq (by decide)
  constructor
  · intro hf
    rw [Nesting.free_append, hc, Nesting.free_cons] at hf
    have hf₁ := hs ▸ (Nesting.free_trim hb).2 hf.1
    have hf₂ := hr ▸ (Nesting.free_trim hb).2 hf.2.2
    rw [assignmentText, Nesting.free_append, Nesting.free_append, he.closed,
      Nesting.after_append, he.closed]
    exact ⟨⟨hf₁, by decide⟩, hf₂⟩
  · intro hcl
    rw [closed_assignmentText he, ← hr, Text.closed_trim]
    rw [hc.append_iff, ← List.singleton_append, Closed.append_iff (by decide)] at hcl
    exact hcl

theorem squash_assignmentText {t : Text} {e : Text × Text} (h : readAssignment? t = some e) :
    squash (assignmentText e) = squash t := by
  obtain ⟨s, r, -, -, rfl, hs, hr, -⟩ := readAssignment?_eq_some_iff.1 h
  have he : squash " = ".toList = squash ['='] := by decide
  rw [assignmentText, ← hs, ← hr, squash_append, squash_append, squash_append, squash_cons '=',
    he, squash_trim, squash_trim, List.append_assoc]

def listText (u : Update) : Text :=
  Text.commaList (u.assignments.entries.map assignmentText)

def clauses (u : Update) : List (Keyword × Option Text) :=
  [(.setFields, some u.listText), (.condition, u.condition)]

structure Shaped (u : Update) : Prop where
  target : u.table.IsTarget
  closed : Closed u.table.render
  ne_nil : u.assignments.entries ≠ []
  entries : ∀ e ∈ u.assignments.entries, IsAssignment e
  pieces : Pieces (· == ',') (u.assignments.entries.map assignmentText)
  condition : ∀ c ∈ u.condition, Solid c
  closed_list : u.condition.isSome → Closed u.listText

def Unambiguous (u : Update) : Prop :=
  u.table.isAliasAs = false ∧ Absent [.setFields, .condition] u.table.render ∧
    Absent [.condition] u.listText ∧ u.render.getLast? ≠ some ';'

instance (u : Update) : Decidable u.Unambiguous :=
  inferInstanceAs (Decidable (_ ∧ _ ∧ _ ∧ _))

theorem apart : Apart [.setFields, .condition] := by decide

variable {u : Update} {t : Text}

/-- The condition does not come first exactly if SET does. -/
theorem first_setFields_iff {o : Occurrence} :
    First [.setFields, .condition] t .setFields o ↔
      Keyword.setFields.find? t = some o ∧ conditionFirst t o = false := by
  constructor
  · intro h
    refine ⟨h.find?_self apart, ?_⟩
    rw [conditionFirst, h.find?_other apart (l := .condition) (by simp) (by decide)]
    cases Keyword.condition.find? o.after with
    | none => rfl
    | some p => simp [Occurrence.behind]
  · rintro ⟨hf, hc⟩
    obtain hab | ⟨k, p, h⟩ := Keyword.absent_or_exists_first apart t
    · rw [Keyword.find?, hab _ (by simp)] at hf
      simp at hf
    · have hk := h.mem
      simp only [List.mem_cons, List.not_mem_nil, or_false] at hk
      rcases hk with rfl | rfl
      · rw [h.find?_self apart] at hf
        exact Option.some.inj hf ▸ h
      · have hl : Keyword.condition.isLettered := by decide
        have hat := ((Keyword.mem_occurrences_iff hl).1 h.occurs).2
        have hm := List.length_pos_iff.2 (Keyword.ne_nil_of_read? hl hat.read)
        rw [h.find?_other apart (l := .setFields) (by simp) (by decide)] at hf
        obtain ⟨q, -, rfl⟩ := Option.map_eq_some_iff.1 hf
        rw [conditionFirst, h.find?_self apart] at hc
        simp only [Option.any_some, Occurrence.behind, List.length_append, decide_eq_false_iff_not] at hc
        omega

theorem read?_eq_some_iff :
    read? t = some u ↔ ∃ o body, First [.setFields, .condition] t .setFields o ∧
      Table.readTarget? (Clauses.split [.setFields, .condition] t).head = some u.table ∧
      bodyOf? [.setFields, .condition] t .setFields = some body ∧
      (body.splitItems ',').mapM readAssignment? = some u.assignments.entries ∧
      bodyOf? [.setFields, .condition] t .condition = u.condition := by
  obtain ⟨table, assignments, condition⟩ := u
  have h₀ := Clauses.body?_split [.setFields, .condition] (i := 0) rfl t
  have h₁ := Clauses.body?_split [.setFields, .condition] (i := 1) rfl t
  simp only [first_setFields_iff]
  constructor
  · intro h
    obtain ⟨o, ho, h⟩ := Option.bind_eq_some_iff.1 h
    split at h
    · simp at h
    next hc =>
      obtain ⟨table', ht, h⟩ := Option.bind_eq_some_iff.1 h
      obtain ⟨body, hb, h⟩ := Option.bind_eq_some_iff.1 h
      obtain ⟨entries, he, h⟩ := Option.bind_eq_some_iff.1 h
      obtain ⟨a, ha, h⟩ := Option.bind_eq_some_iff.1 h
      obtain ⟨rfl, rfl, rfl⟩ := Update.mk.injEq .. ▸ Option.some.inj h
      rw [Assignments.ofEntries?_eq_some_iff.1 ha] at he
      exact ⟨o, body, ⟨ho, by simpa using hc⟩, ht, h₀ ▸ hb, he, h₁.symm⟩
  · rintro ⟨o, body, ⟨ho, hc⟩, ht, hb, he, hcond⟩
    rw [read?, ho]
    simp only [Option.bind_eq_bind, Option.bind_some, hc, Bool.false_eq_true, if_false, ht, h₀, hb,
      he, Assignments.ofEntries?_eq_some_iff.2 rfl, h₁, hcond]

theorem filter_ne_setFields :
    [Keyword.setFields, .condition].filter (· ≠ .setFields) = [.condition] := by decide

theorem shaped_of_read? (h : read? t = some u) : u.Shaped := by
  obtain ⟨o, body, hf, ht, hb, he, hc⟩ := read?_eq_some_iff.1 h
  have he := mapM_eq_some_iff.1 he
  have hbs := Clauses.solid_of_bodyOf? hb
  have hp : Pieces (· == ',') (body.splitItems ',') :=
    Text.pieces_splitItems Text.isPlain_comma body
  have ht' := Table.isTarget_of_readTarget? (Clauses.trim_head_split ..) ht
  have hne : body.splitItems ',' ≠ [] := by
    rw [Text.splitItems, if_neg hbs.not_isBlank]
    simpa using Nesting.cut_ne_nil _ _ _
  refine ⟨ht', ?_, ?_, ?_, ?_, ?_, ?_⟩
  · exact Table.closed_of_readTarget? (Clauses.closed_head apart (by simp) hb) ht
  · intro hn
    rw [hn, List.forall₂_nil_right_iff] at he
    exact hne he
  · intro e hmem
    obtain ⟨item, -, hi⟩ := exists_of_forall₂ he hmem
    exact isAssignment_of_readAssignment? hi
  · refine hp.forall₂ ?_
    rw [List.forall₂_map_right_iff]
    exact he.imp fun _ _ hi => free_assignmentText hi
  · intro c hd
    rw [hd] at hc
    exact Clauses.solid_of_bodyOf? hc
  · intro hd
    obtain ⟨c, hd⟩ := Option.isSome_iff_exists.1 hd
    rw [hd, Clauses.bodyOf?_other apart hf (by simp) (by decide), filter_ne_setFields] at hc
    rw [Clauses.bodyOf?_first apart hf, filter_ne_setFields] at hb
    have hcl := Clauses.closed_head (by decide) (by simp) hc
    rw [(Clauses.nonempty?_eq_some_iff.1 hb).1] at hcl
    refine Text.closed_commaList fun v hv => ?_
    obtain ⟨e, hmem, rfl⟩ := List.mem_map.1 hv
    obtain ⟨item, hitem, hi⟩ := exists_of_forall₂ he hmem
    exact (free_assignmentText hi).2 (Text.closed_of_mem_splitItems hcl hitem)

theorem render_eq (u : Update) :
    u.render = Keyword.update.text ++ ' ' :: (u.table.render ++ write (present u.clauses)) := by
  have hu : "UPDATE ".toList = Keyword.update.text ++ [' '] := by decide
  have hs : " SET ".toList = ' ' :: Keyword.setFields.text ++ [' '] := by decide
  change "UPDATE ".toList ++ u.table.render ++ " SET ".toList ++ u.listText ++
    Keyword.condition.renderClause u.condition = _
  rw [Clauses.write_present, clauses, hu, hs]
  simp [Keyword.renderClause]

theorem squash_listText {body : Text}
    (h : (body.splitItems ',').mapM readAssignment? = some u.assignments.entries) :
    squash u.listText = squash body := by
  have he : (body.splitItems ',').map squash =
      (u.assignments.entries.map assignmentText).map squash := by
    rw [← List.forall₂_eq_eq_eq, List.forall₂_map_left_iff, List.map_map,
      List.forall₂_map_right_iff]
    exact (mapM_eq_some_iff.1 h).imp fun _ _ hi => (squash_assignmentText hi).symm
  rw [← Text.squash_commaList_splitItems body, listText, Text.commaList, Text.commaList,
    Text.squash_join, Text.squash_join, he]

theorem countP_render_le (h : read? t = some u) :
    u.render.countP (· == ';') ≤ t.countP (· == ';') := by
  obtain ⟨o, body, hf, ht, hb, he, hc⟩ := read?_eq_some_iff.1 h
  have hp := Text.countable_semicolon
  have hs := Clauses.countP_split hp apart (by decide) t
  have ht := Table.countP_render_le hp ht
  have hk : ∀ c ∈ u.clauses, c.1.isLettered := fun c hc =>
    apart.lettered c.1 (by simpa [clauses] using List.mem_map_of_mem (f := Prod.fst) hc)
  have hw := Clauses.countP_write_present u.clauses hk
  have hu := Keyword.countP_text (k := .update) (by decide)
  have hl := Text.countP_eq_of_squash hp (squash_listText he)
  simp only [clauses, List.map_cons, List.map_nil, List.sum_cons, List.sum_nil, hb, hc,
    Option.getD_some] at hs hw
  rw [render_eq, clauses]
  simp only [List.countP_append, List.countP_cons, hu, hw]
  simp
  omega

variable (h : u.Shaped)

include h in
theorem solid_listText : Solid u.listText := by
  refine Text.solid_commaList (by simpa using h.ne_nil) fun t ht => ?_
  obtain ⟨e, he, rfl⟩ := List.mem_map.1 ht
  exact solid_assignmentText (h.entries e he)

include h in
theorem solid_of_mem_present : ∀ c ∈ present u.clauses, Solid c.2 := by
  intro c hc
  have hc := Clauses.mem_present.1 hc
  simp only [clauses, List.mem_cons, List.not_mem_nil, or_false, Prod.mk.injEq] at hc
  rcases hc with ⟨-, hc⟩ | ⟨-, hc⟩
  · exact Option.some.inj hc ▸ solid_listText h
  · exact h.condition c.2 hc.symm

theorem mem_of_mem_present :
    ∀ c ∈ present u.clauses, c.1 ∈ [Keyword.setFields, .condition] := by
  intro c hc
  have hc := List.mem_map_of_mem (f := Prod.fst) (Clauses.mem_present.1 hc)
  simpa [clauses] using hc

theorem nodup_clauses : (u.clauses.map Prod.fst).Nodup := by
  have hn : [Keyword.setFields, .condition].Nodup := by decide
  simpa [clauses] using hn

include h in
theorem solid_render : Solid u.render := by
  have hk : Solid Keyword.update.text := ⟨by decide, by decide⟩
  have hw := Clauses.solid_append_write h.target.solid (solid_of_mem_present h)
  have hs := hk.append hw [' ']
  rw [render_eq]
  simpa using hs

include h in
theorem placed_iff :
    Placed [.setFields, .condition] u.table.render (present u.clauses) ↔
      Absent [.setFields, .condition] u.table.render ∧ Absent [.condition] u.listText := by
  rw [clauses, Clauses.present_cons_some, Placed, filter_ne_setFields]
  cases hc : u.condition with
  | none =>
      rw [Clauses.present_cons_none]
      exact ⟨fun hp => ⟨hp.1, hp.2.2⟩, fun ha => ⟨ha.1, h.closed, ha.2⟩⟩
  | some c =>
      have hl := h.closed_list (by rw [hc]; rfl)
      rw [Clauses.present_cons_some, Placed]
      exact ⟨fun hp => ⟨hp.1, hp.2.2.1⟩,
        fun ha => ⟨ha.1, h.closed, ha.2, hl, fun k hk => by simp at hk⟩⟩

include h in
theorem mapM_readAssignment?_listText :
    (u.listText.splitItems ',').mapM readAssignment? = some u.assignments.entries := by
  rw [listText, Text.splitItems_commaList h.pieces (by simpa using h.ne_nil), mapM_eq_some_iff,
    List.forall₂_map_left_iff, List.forall₂_same]
  · exact fun e he => readAssignment?_assignmentText (h.entries e he)
  · intro t ht
    obtain ⟨e, he, rfl⟩ := List.mem_map.1 ht
    exact solid_assignmentText (h.entries e he)

include h in
theorem read?_render_iff :
    read? (' ' :: (u.table.render ++ write (present u.clauses))) = some u ↔
      u.table.isAliasAs = false ∧ Absent [.setFields, .condition] u.table.render ∧
        Absent [.condition] u.listText := by
  have hsplit := Clauses.split_write_iff apart h.target.solid mem_of_mem_present
    (solid_of_mem_present h) (nodup_clauses.sublist (Clauses.map_fst_present _))
  rw [placed_iff h] at hsplit
  have hset : (present u.clauses).lookup .setFields = some u.listText := rfl
  have hcond : (present u.clauses).lookup .condition = u.condition :=
    Clauses.lookup_present nodup_clauses (by simp [clauses])
  rw [read?_eq_some_iff]
  constructor
  · rintro ⟨-, body, -, ht, hb, he, -⟩
    have hcount := Text.countable_not_isBlank
    rw [← List.cons_append] at ht hb
    have hab := Clauses.absent_of_head apart mem_of_mem_present (fun _ => h.closed)
      (Table.countP_render_le hcount ht)
    have hf := Clauses.first_place (k := .setFields) apart (by simp) hab h.closed u.listText
      (present [(.condition, u.condition)])
    rw [clauses, Clauses.present_cons_some, Clauses.bodyOf?_first apart hf,
      filter_ne_setFields] at hb
    have hle := (Text.countP_eq_of_squash hcount (squash_listText he)).le
    rw [← (Clauses.nonempty?_eq_some_iff.1 hb).1] at hle
    have hal : Absent [.condition] u.listText := by
      refine Clauses.absent_of_head (by decide) ?_ (fun hne => h.closed_list ?_) hle
      · intro c hc
        have hc := List.mem_map_of_mem (f := Prod.fst) (Clauses.mem_present.1 hc)
        simpa using hc
      · cases hc : u.condition with
        | none => rw [hc] at hne; exact absurd rfl hne
        | some c => rfl
    rw [(hsplit.2 ⟨hab, hal⟩).head, Table.readTarget?_render h.target] at ht
    exact ⟨ht, hab, hal⟩
  · rintro ⟨ha, hab⟩
    obtain ⟨hh, hbs⟩ := hsplit.2 hab
    have hf := Clauses.first_place (k := .setFields) apart (by simp) hab.1 h.closed u.listText
      (present [(.condition, u.condition)])
    refine ⟨_, u.listText, hf, ?_, ?_, mapM_readAssignment?_listText h, ?_⟩
    · rw [← List.cons_append, hh, Table.readTarget?_render h.target, ha]
    · rw [← List.cons_append, hbs _ (by simp), hset]
    · rw [← List.cons_append, hbs _ (by simp), hcond]

include h in
/-- An UPDATE is read back but for its alias, keywords in its parts and a final semicolon. -/
theorem parse_render_iff : Statement.parse u.render = .ok (.update u) ↔ u.Unambiguous := by
  have hp := Statement.parse_render_iff (s := .update u) .update rfl (render_eq u)
    (solid_render h) fun k t hr => countP_render_le (Statement.readBody_update_iff.1 hr).2
  rw [Statement.readBody_update_iff, read?_render_iff h] at hp
  exact hp.trans ⟨fun ⟨hl, _, ha, hab⟩ => ⟨ha, hab.1, hab.2, hl⟩,
    fun ⟨ha, hab, hal, hl⟩ => ⟨hl, rfl, ha, hab, hal⟩⟩

end Update

end SqlEdit
