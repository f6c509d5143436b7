import SqlEdit.Proofs.Nesting.Quoted
import SqlEdit.Proofs.Statement.Delete
import SqlEdit.Proofs.Statement.Insert
import SqlEdit.Proofs.Statement.Select
import SqlEdit.Proofs.Statement.Update

namespace SqlEdit

open Nesting (Free Pieces)
open Text (Closed Solid quoted solid_quoted closed_quoted free_quoted absent_quoted)
open Keyword (Absent)

namespace Insert

theorem closed_of_read? {t : Text} {i : Insert} (h : read? t = some i) :
    ∃ rest, Keyword.intoTable.strip? t.trimStart = some rest ∧
      Closed (rest.trimStart.dropWhile isNameChar) := by
  obtain ⟨t₁, fields, t₂, t₃, values, t₄, h₁, -, hf, h₃, hv, -, -, -, hb, -⟩ := exists_of_read? h
  obtain ⟨matched, hr, -⟩ := Keyword.strip?_eq_some_iff_read?.1 h₃
  have hm : Closed matched := Keyword.closed_of_read? (by decide) hr
  refine ⟨t₁, h₁, ?_⟩
  rw [← Text.closed_trimStart, Text.closed_of_takeGroup? hf, ← Text.closed_trimStart,
    Keyword.eq_of_read? hr, hm.append_iff, ← Text.closed_trimStart, Text.closed_of_takeGroup? hv]
  exact Text.closed_of_isBlank hb

/-- A name in quotes that is cut leaves its last quote open. -/
theorem not_closed_of_quote {name rest : Text} (hn : '"' ∉ name) (hr : '\'' ∉ rest ∧ '"' ∉ rest) :
    ¬ Closed (name ++ '"' :: rest) := by
  have hq : (Nesting.top.after name).quote ≠ some .double :=
    Nesting.quote_after_ne_double (by decide) hn
  obtain ⟨q, d, hs⟩ : ∃ q d, (Nesting.top.after name).step '"' = ⟨some q, d⟩ := by
    generalize Nesting.top.after name = n at hq
    obtain ⟨_ | _ | _, d⟩ := n
    · exact ⟨.double, d, rfl⟩
    · exact ⟨.single, d, rfl⟩
    · exact absurd rfl hq
  have hm : q.mark ∉ rest := by
    cases q with
    | single => exact hr.1
    | double => exact hr.2
  rw [Closed, Nesting.after_append, Nesting.after_cons, hs, Nesting.after_of_mark_not_mem hm]
  simp [Nesting.top]

theorem dropWhile_quoted {name : Text} (hn : ¬ name.all isNameChar) (t : Text) :
    (quoted name ++ t).dropWhile isNameChar = name.dropWhile isNameChar ++ '"' :: t := by
  have hq : isNameChar '"' = true := by decide
  have hne : name.dropWhile isNameChar ≠ [] := fun h => hn (List.all_eq_true.2
    (List.dropWhile_eq_nil_iff.1 h))
  simp [quoted, hq, List.dropWhile_append, hne]

theorem read?_quoted {name rest : Text} (h : '"' ∉ name) (hn : ¬ name.all isNameChar)
    (hr : '\'' ∉ rest ∧ '"' ∉ rest) :
    read? (' ' :: (Keyword.intoTable.text ++ ' ' :: (quoted name ++ rest))) = none := by
  refine Option.eq_none_iff_forall_ne_some.2 fun i hi => ?_
  obtain ⟨t, ht, hc⟩ := closed_of_read? hi
  rw [Keyword.strip?_trimStart_text (by decide)] at ht
  obtain rfl := Option.some.inj ht
  rw [Text.trimStart_space, (solid_quoted name).trimStart_append, dropWhile_quoted hn] at hc
  exact not_closed_of_quote (fun hm => h ((List.dropWhile_sublist _).subset hm)) hr hc

end Insert

theorem Statement.parse_of_malformed {sql rest : Text} {kind : Kind} {e : ParseError}
    (hd : Kind.detect? (body sql) = some (kind, rest)) (hne : body sql ≠ [])
    (hr : readBody kind rest = .error e) (he : e.isDegradable) :
    parse sql = .ok (.degraded ⟨kind, sql, e⟩) := by
  rw [parse, parseLogged]
  simp only [if_neg hne, hd, hr, if_pos he]

namespace Kind

def textOn (q : Text) : Kind → Text
  | select => "SELECT a FROM ".toList ++ q
  | insert => "INSERT INTO ".toList ++ q ++ " (a) VALUES (1)".toList
  | update => "UPDATE ".toList ++ q ++ " SET a = 1".toList
  | delete => "DELETE FROM ".toList ++ q

def statementOn (q : Text) : Kind → Statement
  | select => .select ⟨false, [⟨"a".toList, none⟩], [.named q none], none, none, none, none, none⟩
  | insert => .insert ⟨.named q none, ["a".toList], ["1".toList]⟩
  | update => .update ⟨.named q none, ⟨[("a".toList, "1".toList)], by decide⟩, none⟩
  | delete => .delete ⟨.named q none, none⟩

/-- Whether the statement on one table is read and names that table without an alias. -/
def Reads (kind : Kind) (q : Text) : Prop :=
  ∃ s, Statement.parse (kind.textOn q) = .ok s ∧ s.isDegraded = false ∧ s.tables = [.named q none]

theorem render_statementOn (kind : Kind) (q : Text) :
    (kind.statementOn q).render = kind.textOn q := by
  cases kind with
  | select =>
      have h : "SELECT ".toList ++ [] ++ Text.commaList ["a".toList] ++ " FROM ".toList =
          "SELECT a FROM ".toList := by decide
      exact (List.append_nil _).trans (congrArg₂ _ h (List.append_nil q))
  | insert =>
      have h : " (".toList ++ (Text.commaList ["a".toList] ++ (") VALUES (".toList ++
          (Text.commaList ["1".toList] ++ [')']))) = " (a) VALUES (1)".toList := by decide
      refine Eq.trans ?_ (congrArg ("INSERT INTO ".toList ++ q ++ ·) h)
      change Insert.render ⟨.named q none, ["a".toList], ["1".toList]⟩ = _
      unfold Insert.render
      simp only [List.append_assoc]
      rfl
  | update =>
      have h : " SET ".toList ++ "a = 1".toList = " SET a = 1".toList := by decide
      refine Eq.trans ?_ (congrArg ("UPDATE ".toList ++ q ++ ·) h)
      exact (List.append_nil _).trans (List.append_assoc ..)
  | delete => exact List.append_nil _

end Kind

variable {name : Text}

theorem Table.isTarget_quoted (h : '"' ∉ name) : IsTarget (.named (quoted name) none) where
  unjoined := rfl
  pieces := Nesting.pieces_singleton.2 (free_quoted (by decide) h)
  ne_nil := List.forall_mem_singleton.2 (solid_quoted name).ne_nil
  solid := solid_quoted name

theorem Table.areChains_quoted (h : '"' ∉ name) : AreChains [[.named (quoted name) none]] := by
  have hw : chainWords [.named (quoted name) none] = [quoted name] := rfl
  have hn := (solid_quoted name).ne_nil
  have ht : chainText [.named (quoted name) none] = quoted name := by
    rw [chainText, hw, Text.joinWords_cons, List.flatMap_nil, List.append_nil]
  have hp {p : Char → Bool} (hq : p '"' = false) : Pieces p [quoted name] :=
    Nesting.pieces_singleton.2 (free_quoted hq h)
  refine ⟨by simp, List.forall_mem_singleton.2 ⟨⟨_, [], rfl, rfl, by simp⟩, ?_, ?_, ?_, ?_⟩, ?_⟩
  · refine ⟨⟨⟨rfl, rfl, ?_⟩, by simp [named], by simp [named, constraint?]⟩, trivial⟩
    rintro ⟨-, -, -, hj⟩
    cases hj
  · exact hw ▸ hp (by decide)
  · exact hw ▸ List.forall_mem_singleton.2 hn
  · exact ht.symm ▸ solid_quoted name
  · rw [List.map_singleton, ht]
    exact hp (by decide)

namespace Kind

theorem getLast?_textOn (kind : Kind) (name : Text) :
    (kind.textOn (quoted name)).getLast? ≠ some ';' := by
  have hl (s : Text) {t : Text} (ht : t ≠ [] ∧ t.getLast? ≠ some ';') :
      (s ++ t).getLast? ≠ some ';' := by
    rw [List.getLast?_append_of_ne_nil _ ht.1]
    exact ht.2
  have hq : quoted name ≠ [] ∧ (quoted name).getLast? ≠ some ';' := by
    refine ⟨(solid_quoted name).ne_nil, ?_⟩
    rw [quoted, ← List.cons_append, List.getLast?_concat]
    decide
  cases kind with
  | select | delete => exact hl _ hq
  | insert => exact hl _ (t := " (a) VALUES (1)".toList) (by decide)
  | update => exact hl _ (t := " SET a = 1".toList) (by decide)

theorem getLast?_render_statementOn (kind : Kind) (name : Text) :
    (kind.statementOn (quoted name)).render.getLast? ≠ some ';' :=
  render_statementOn kind _ ▸ getLast?_textOn kind name

theorem parse_select_quoted (h : '"' ∉ name) :
    Statement.parse (select.textOn (quoted name)) = .ok (select.statementOn (quoted name)) := by
  have hr : Table.renderList [.named (quoted name) none] = quoted name := List.append_nil _
  have hs : Select.Shaped ⟨false, [⟨"a".toList, none⟩], [.named (quoted name) none], none, none, none,
      none, none⟩ := by
    refine ⟨by simp, ?_, ⟨_, rfl, Table.areChains_quoted h⟩, ?_, ?_⟩
    · exact List.forall_mem_singleton.2 ⟨by decide, by decide, by simp, by decide, fun _ => by decide⟩
    · simp [Select.clauses, Clauses.present]
    · simp [Select.clauses, Clauses.present]
  rw [← render_statementOn]
  refine (Select.parse_render_iff hs).2 ⟨?_, ?_, ?_, ?_, ?_, getLast?_render_statementOn select name⟩
  · simp [Field.HasPlainAlias]
  · exact List.forall_mem_singleton.2 (by decide)
  · intro _ f hf
    obtain rfl := Option.some.inj hf
    decide
  · exact ⟨by simp [Table.AliasFits, Table.named], trivial⟩
  · rw [hr]
    exact absent_quoted Select.apart h

theorem parse_insert_quoted (hn : name.all Insert.isNameChar) :
    Statement.parse (insert.textOn (quoted name)) = .ok (insert.statementOn (quoted name)) := by
  have hi (t : Text) (ht : Solid t ∧ Closed t ∧ Free (· == ',') .top t ∧ Free (· == ')') .top t) :
      Insert.IsList [t] :=
    ⟨by simp, by simpa using ht.1, by simpa using ht.2.1, by simpa using ht.2.2.1,
      by simpa using ht.2.2.2⟩
  have hq : (quoted name).all Insert.isNameChar := by
    simp [quoted, hn]
    decide
  rw [← render_statementOn]
  exact Insert.parse_render_of_shaped
    ⟨rfl, ⟨(solid_quoted name).ne_nil, hq⟩, hi _ (by decide), hi _ (by decide), rfl⟩

theorem parse_update_quoted (h : '"' ∉ name) :
    Statement.parse (update.textOn (quoted name)) = .ok (update.statementOn (quoted name)) := by
  have hs : Update.Shaped ⟨.named (quoted name) none, ⟨[("a".toList, "1".toList)], by decide⟩,
      none⟩ := by
    refine ⟨Table.isTarget_quoted h, closed_quoted h, by simp, ?_, ?_, by simp, by simp⟩
    · exact List.forall_mem_singleton.2 ⟨by decide, by decide, by decide, by decide⟩
    · exact Nesting.pieces_singleton.2 (by decide)
  have ha : Absent [.condition] "a = 1".toList := by decide
  rw [← render_statementOn]
  exact (Update.parse_render_iff hs).2
    ⟨rfl, absent_quoted Update.apart h, ha, getLast?_render_statementOn update name⟩

theorem parse_delete_quoted (h : '"' ∉ name) :
    Statement.parse (delete.textOn (quoted name)) = .ok (delete.statementOn (quoted name)) := by
  have hs : Delete.Shaped ⟨.named (quoted name) none, none⟩ :=
    ⟨Table.isTarget_quoted h, by simp, by simp⟩
  rw [← render_statementOn]
  exact (Delete.parse_render_iff hs).2
    ⟨rfl, absent_quoted Delete.apart h, getLast?_render_statementOn delete name⟩

theorem parse_textOn_quoted (h : '"' ∉ name) (kind : Kind)
    (hk : kind = .insert → name.all Insert.isNameChar) :
    Statement.parse (kind.textOn (quoted name)) = .ok (kind.statementOn (quoted name)) := by
  cases kind with
  | select => exact parse_select_quoted h
  | insert => exact parse_insert_quoted (hk rfl)
  | update => exact parse_update_quoted h
  | delete => exact parse_delete_quoted h

theorem parse_insert_quoted_of_cut (h : '"' ∉ name) (hn : ¬ name.all Insert.isNameChar) :
    Statement.parse (insert.textOn (quoted name)) =
      .ok (.degraded ⟨.insert, insert.textOn (quoted name), .malformedInsert⟩) := by
  have ht : insert.textOn (quoted name) = insert.keyword.text ++ ' ' :: (Keyword.intoTable.text ++
      ' ' :: (quoted name ++ " (a) VALUES (1)".toList)) := by
    have hw : "INSERT INTO ".toList = insert.keyword.text ++ ' ' :: (Keyword.intoTable.text ++ [' ']) :=
      by decide
    refine (congrArg (· ++ quoted name ++ " (a) VALUES (1)".toList) hw).trans ?_
    simp
  have hs : Solid (insert.textOn (quoted name)) :=
    Text.solid_of_ends (s := "INSERT INTO ".toList) (t := " (a) VALUES (1)".toList) rfl rfl
      (by decide) (by decide) _
  have hb := Statement.body_of_solid hs (getLast?_textOn insert name)
  have hd := congrArg detect? (hb.trans ht)
  rw [detect?_text] at hd
  refine Statement.parse_of_malformed hd (hb.symm ▸ hs.ne_nil) ?_ rfl
  rw [Statement.readBody, Insert.read?_quoted h hn (by decide)]
  rfl

/-- Every name in double quotes is read by each kind, except that an INSERT reads none with white
space or an opening parenthesis, and is kept verbatim then. -/
theorem reads_quoted_iff (h : '"' ∉ name) (kind : Kind) :
    (kind.Reads (quoted name) ↔
      (kind = .insert → ∀ c ∈ name, isBlank c = false ∧ c ≠ '(')) ∧
    (¬ kind.Reads (quoted name) → Statement.parse (kind.textOn (quoted name)) =
      .ok (.degraded ⟨.insert, kind.textOn (quoted name), .malformedInsert⟩)) := by
  have hname : name.all Insert.isNameChar ↔ ∀ c ∈ name, isBlank c = false ∧ c ≠ '(' := by
    simp [Insert.isNameChar]
  rw [← hname]
  by_cases hk : kind = .insert → name.all Insert.isNameChar
  · have hr : kind.Reads (quoted name) := by
      refine ⟨_, parse_textOn_quoted h kind hk, ?_, ?_⟩ <;> cases kind <;> rfl
    exact ⟨iff_of_true hr hk, fun hn => absurd hr hn⟩
  · obtain ⟨rfl, hn⟩ := Classical.not_imp.1 hk
    have hp := parse_insert_quoted_of_cut h hn
    refine ⟨iff_of_false ?_ hk, fun _ => hp⟩
    rintro ⟨s, hs, hd, -⟩
    obtain rfl := Except.ok.inj (hs.symm.trans hp)
    cases hd

theorem reads_quoted_of_comma :
    '"' ∉ "a,where".toList ∧ ∀ kind : Kind, kind.Reads "\"a,where\"".toList := by
  have h : '"' ∉ "a,where".toList := by decide
  have hc : ∀ c ∈ "a,where".toList, isBlank c = false ∧ c ≠ '(' := by simp [isBlank]
  exact ⟨h, fun kind => (reads_quoted_iff h kind).1.2 fun _ => hc⟩

/-- An INSERT does not read a name with a space, an UPDATE of the same table does. -/
theorem not_reads_quoted_of_space :
    Statement.parse "INSERT INTO \"a b\" (a) VALUES (1)".toList =
        .ok (.degraded ⟨.insert, "INSERT INTO \"a b\" (a) VALUES (1)".toList, .malformedInsert⟩) ∧
      ¬ insert.Reads (quoted "a b".toList) ∧ update.Reads (quoted "a b".toList) := by
  have hp : Statement.parse (insert.textOn (quoted "a b".toList)) =
      .ok (.degraded ⟨.insert, insert.textOn (quoted "a b".toList), .malformedInsert⟩) := by
    decide +kernel
  refine ⟨by decide +kernel, ?_, ⟨_, parse_textOn_quoted (by decide) update (by simp), rfl, rfl⟩⟩
  rintro ⟨s, hs, hd, -⟩
  obtain rfl := Except.ok.inj (hs.symm.trans hp)
  cases hd

end Kind

end SqlEdit
