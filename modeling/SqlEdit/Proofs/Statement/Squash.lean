import SqlEdit.Proofs.Statement.Delete
import SqlEdit.Proofs.Statement.Insert
import SqlEdit.Proofs.Statement.Update

namespace SqlEdit

open Text (squash squash_append squash_cons squash_space squash_trim squash_trimStart)
open Keyword (Apart Absent First)
open Clauses (bodyOf? nonempty? nonempty?_eq_some_iff present write)

theorem Keyword.squash_strip? {k : Keyword} {t rest : Text} (h : k.strip? t = some rest) :
    squash t = squash k.text ++ squash rest := by
  obtain ⟨matched, hr, -⟩ := strip?_eq_some_iff_read?.1 h
  rw [eq_of_read? hr, squash_append, squash_of_read? hr]

theorem Keyword.squash_renderClause (k : Keyword) (body : Text) :
    squash (k.renderClause (some body)) = squash k.text ++ squash body := by
  rw [renderClause, List.cons_append, squash_space, squash_append, squash_space]

theorem Keyword.First.squash_text {ks : List Keyword} {k : Keyword} {t : Text} {o : Occurrence}
    (ha : Apart ks) (h : First ks t k o) :
    squash t = squash o.before ++ (squash k.text ++ squash o.after) := by
  have hat := ((mem_occurrences_iff (ha.lettered k h.mem)).1 h.occurs).2
  rw [← h.text_eq, Occurrence.text, squash_append, squash_append, squash_of_read? hat.read,
    List.append_assoc]

theorem Kind.squash_detect? {t rest : Text} {kind : Kind} (h : detect? t = some (kind, rest)) :
    squash t = squash kind.keyword.text ++ squash rest := by
  obtain ⟨other, -, hk⟩ := List.exists_of_findSome?_eq_some h
  obtain ⟨r, hr, he⟩ := Option.map_eq_some_iff.1 hk
  obtain ⟨rfl, rfl⟩ := Prod.mk.inj he
  exact Keyword.squash_strip? hr

theorem Table.squash_render (t : Table) :
    squash t.render = squash t.name ++ squash (t.alias?.getD []) := by
  rw [render]
  cases t.alias? with
  | none => exact (List.append_nil _).symm
  | some a => rw [squash_append, squash_space, Option.getD_some]

theorem Table.squash_of_readTarget? {text : Text} {t : Table} (h : readTarget? text = some t) :
    ∃ link, (link = [] ∨ link = "as".toList ∧ t.alias?.isSome) ∧
      squash text = squash t.name ++ link ++ squash (t.alias?.getD []) := by
  rw [← Text.flatMap_squash_splitWords text]
  obtain ⟨-, ⟨hw, -⟩ | ⟨w, a, ha, hw, has⟩⟩ := readTarget?_eq_some_iff.1 h
  · refine ⟨[], .inl rfl, ?_⟩
    rw [hw, ← Text.squash_joinWords, ← render_eq, squash_render, List.append_nil]
  · have hs : squash "AS".toList = "as".toList := by decide
    refine ⟨"as".toList, .inr ⟨rfl, by rw [ha]; rfl⟩, ?_⟩
    rw [hw, ha, ← hs, ← Text.squash_of_sameWord has]
    simp

/-- The head of a text and its only clause hold all of it but the keyword of a blank clause. -/
theorem Clauses.squash_split {k : Keyword} (ha : Apart [k]) (t : Text) :
    ∃ tail, (tail = [] ∨ tail = squash k.text ∧ bodyOf? [k] t k = none) ∧
      squash t = squash (split [k] t).head ++ squash (k.renderClause (bodyOf? [k] t k)) ++ tail := by
  obtain hab | ⟨l, o, hf⟩ := Keyword.absent_or_exists_first ha t
  · refine ⟨[], .inl rfl, ?_⟩
    rw [head_split_of_absent hab, bodyOf?_of_absent hab (by simp), squash_trim]
    simp [Keyword.renderClause]
  · obtain rfl := List.mem_singleton.1 hf.mem
    have hn : Absent ([l].filter (· ≠ l)) o.after := by simp [Absent]
    rw [head_split_of_first ha hf, bodyOf?_first ha hf, head_split_of_absent hn, squash_trim,
      hf.squash_text ha]
    by_cases hb : Text.trim o.after = []
    · refine ⟨squash l.text, .inr ⟨rfl, by rw [hb]; rfl⟩, ?_⟩
      rw [← squash_trim o.after, hb]
      simp [nonempty?, Keyword.renderClause]
    · refine ⟨[], .inl rfl, ?_⟩
      rw [nonempty?, if_neg hb, Keyword.squash_renderClause, squash_trim, List.append_nil]

theorem Insert.squash_readItems? {t : Text} {ts : List Text} (h : readItems? t = some ts) :
    squash (Text.commaList ts) = squash t := by
  rw [readItems?] at h
  split at h
  · simp at h
  · rw [← Option.some.inj h, Text.squash_commaList_splitItems]

theorem Text.squash_takeGroup? {t inside rest : Text}
    (h : takeGroup? t.trimStart = some (inside, rest)) :
    squash t = squash ['('] ++ squash inside ++ squash [')'] ++ squash rest := by
  rw [← squash_trimStart, eq_of_takeGroup? h, List.cons_append, squash_cons, squash_append,
    squash_cons ')']
  simp only [List.append_assoc]

theorem Insert.squash_render {t : Text} {i : Insert} (h : read? t = some i) :
    squash i.render = squash Keyword.insert.text ++ squash t := by
  obtain ⟨t₁, fields, t₂, t₃, values, t₄, h₁, hn, hf, h₃, hv, hfs, hvs, -, hb, -⟩ :=
    exists_of_read? h
  have ht : squash t = squash Keyword.intoTable.text ++ squash t₁ := by
    rw [← squash_trimStart, Keyword.squash_strip? h₁]
  have ht₁ : squash t₁ = squash i.table.name ++ (squash ['('] ++ squash fields ++ squash [')'] ++
      squash t₂) := by
    rw [← Text.squash_takeGroup? hf, hn, ← squash_trimStart, ← squash_append]
    exact congrArg squash List.takeWhile_append_dropWhile.symm
  have ht₂ : squash t₂ = squash Keyword.values.text ++ (squash ['('] ++ squash values ++
      squash [')']) := by
    rw [← squash_trimStart, Keyword.squash_strip? h₃, Text.squash_takeGroup? hv,
      Text.squash_of_isBlank hb, List.append_nil]
  have hi : squash "INSERT INTO ".toList =
      squash Keyword.insert.text ++ squash Keyword.intoTable.text := by decide
  have hw : squash ") VALUES (".toList =
      squash [')'] ++ squash Keyword.values.text ++ squash ['('] := by decide
  have hp : squash " (".toList = squash ['('] := by decide
  have hr : i.table.render = i.table.name := by rw [hn]; rfl
  unfold render
  rw [ht, ht₁, ht₂, ← squash_readItems? hfs, ← squash_readItems? hvs, hr]
  simp only [squash_append, hi, hw, hp, List.append_assoc]

def Kind.opening : Kind → Text
  | select => "SELECT ".toList
  | insert => "INSERT INTO ".toList
  | update => "UPDATE ".toList
  | delete => "DELETE FROM ".toList

/-- Whether a source is written in full, but for two words at most: AS between the name and the
alias of a table, and WHERE at the end if there is no condition. -/
def Kept (opening : Text) (t : Table) (condition : Option Text) (source written : Text) : Prop :=
  ∃ back link tail : Text, (link = [] ∨ link = "as".toList ∧ t.alias?.isSome) ∧
    (tail = [] ∨ tail = "where".toList ∧ condition = none) ∧
    squash written = squash (opening ++ t.name) ++ squash (t.alias?.getD [] ++ back) ∧
    squash source = squash (opening ++ t.name) ++ link ++ squash (t.alias?.getD [] ++ back) ++ tail

section Kept

variable {source t : Text}

theorem Insert.kept {i : Insert} (h : read? t = some i)
    (hs : squash source = squash Keyword.insert.text ++ squash t) :
    Kept Kind.insert.opening i.table none source i.render := by
  have ha : i.table.alias? = none := by rw [(shaped_of_read? h).table]; rfl
  obtain ⟨back, hw⟩ : ∃ back, i.render = Kind.insert.opening ++ i.table.name ++ back := by
    refine ⟨" (".toList ++ Text.commaList i.fields ++ ") VALUES (".toList ++
      Text.commaList i.values ++ [')'], ?_⟩
    have hn : i.table.name = i.table.render := by rw [Table.render, ha]
    rw [hn]
    unfold render Kind.opening
    simp only [List.append_assoc]
  rw [← squash_render h, hw, squash_append] at hs
  refine ⟨back, [], [], .inl rfl, .inl rfl, ?_, ?_⟩
  · rw [hw, squash_append, ha]
    rfl
  · rw [hs, List.append_nil, List.append_nil, ha]
    rfl

theorem Delete.kept {d : Delete} (h : read? t = some d)
    (hs : squash source = squash Keyword.delete.text ++ squash t) :
    Kept Kind.delete.opening d.table d.condition source d.render := by
  have ho : squash Kind.delete.opening =
      squash Keyword.delete.text ++ squash Keyword.fromTables.text := by decide
  have hw : Keyword.condition.renderClause d.condition = write (present d.clauses) := by
    rw [Clauses.write_present, clauses, List.flatMap_singleton]
  obtain ⟨rest, hr, ht, hc⟩ := read?_eq_some_iff.1 h
  obtain ⟨link, hl, hh⟩ := Table.squash_of_readTarget? ht
  obtain ⟨tail, htl, hsp⟩ := Clauses.squash_split apart rest
  rw [hc] at hsp htl
  refine ⟨write (present d.clauses), link, tail, hl, htl, ?_, ?_⟩
  · rw [render_eq]
    simp only [squash_append, squash_space, Table.squash_render, ho, List.append_assoc]
  · rw [hs, ← squash_trimStart t, Keyword.squash_strip? hr, hsp, hh, hw]
    simp only [squash_append, ho, List.append_assoc]

theorem Update.kept {u : Update} (h : read? t = some u)
    (hs : squash source = squash Keyword.update.text ++ squash t) :
    Kept Kind.update.opening u.table u.condition source u.render := by
  have ho : squash Kind.update.opening = squash Keyword.update.text := by decide
  have hw : write (present u.clauses) = Keyword.setFields.renderClause (some u.listText) ++
      Keyword.condition.renderClause u.condition := by
    rw [Clauses.write_present, clauses, List.flatMap_cons, List.flatMap_singleton]
  obtain ⟨o, body, hf, ht, hb, he, hc⟩ := read?_eq_some_iff.1 h
  -- SET comes first, so behind it only the condition can end its clause.
  rw [Clauses.head_split_of_first apart hf] at ht
  rw [Clauses.bodyOf?_first apart hf, filter_ne_setFields] at hb
  rw [Clauses.bodyOf?_other apart hf (by simp) (by decide), filter_ne_setFields] at hc
  obtain ⟨link, hl, hh⟩ := Table.squash_of_readTarget? ht
  obtain ⟨tail, htl, hsp⟩ := Clauses.squash_split (k := .condition) (by decide) o.after
  rw [hc, (nonempty?_eq_some_iff.1 hb).1, ← squash_listText he] at hsp
  rw [hc] at htl
  refine ⟨write (present u.clauses), link, tail, hl, htl, ?_, ?_⟩
  · rw [render_eq]
    simp only [squash_append, squash_space, Table.squash_render, ho, List.append_assoc]
  · rw [hs, hf.squash_text apart, ← squash_trim o.before, hh, hsp, hw]
    simp only [squash_append, Keyword.squash_renderClause, ho, List.append_assoc]

end Kept

namespace Statement

/-- Every text that is read as an INSERT, UPDATE or DELETE is written again in full, but for AS
between the name and the alias of the target and WHERE without a condition at the end. -/
theorem squash_body {sql : Text} {s : Statement} (h : parse sql = .ok s)
    (hd : s.isDegraded = false) (hk : s.kind ≠ .select) :
    ∃ t, s.tables = [t] ∧ Kept s.kind.opening t s.condition? (body sql) s.render := by
  obtain ⟨kind, rest, hdet, hr⟩ := exists_of_parse h hd
  have hb := Kind.squash_detect? hdet
  cases s with
  | select s => exact absurd rfl hk
  | degraded d => simp [isDegraded] at hd
  | insert i =>
      obtain ⟨rfl, hi⟩ := readBody_insert_iff.1 hr
      exact ⟨i.table, rfl, Insert.kept hi hb⟩
  | update u =>
      obtain ⟨rfl, hu⟩ := readBody_update_iff.1 hr
      exact ⟨u.table, rfl, Update.kept hu hb⟩
  | delete d =>
      obtain ⟨rfl, hread⟩ := readBody_delete_iff.1 hr
      exact ⟨d.table, rfl, Delete.kept hread hb⟩

theorem squash_body_of_blank_condition :
    let sql := " update Tab\tAS u set A='X y' ,b = (1, 2)Where ; ".toList
    let s := update ⟨.named "Tab".toList (some "u".toList),
      ⟨[("A".toList, "'X y'".toList), ("b".toList, "(1, 2)".toList)], by decide⟩, none⟩
    parse sql = .ok s ∧ s.isDegraded = false ∧ s.kind ≠ .select ∧
      squash s.render = "updatetabuseta='xy',b=(1,2)".toList ∧
      squash (body sql) = "updatetabasuseta='xy',b=(1,2)where".toList ∧
      ∃ t, s.tables = [t] ∧ Kept s.kind.opening t s.condition? (body sql) s.render := by
  intro sql s
  have hp : parse sql = .ok s := by decide +kernel
  exact ⟨hp, rfl, by decide, by decide, by decide, squash_body hp rfl (by decide)⟩

end Statement

end SqlEdit
