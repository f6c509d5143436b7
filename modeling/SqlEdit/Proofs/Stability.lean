import Mathlib.Control.Monad.Basic
import SqlEdit.Proofs.Statement.Ascii
import SqlEdit.Proofs.Statement.Insert
import SqlEdit.Proofs.Statement.Select

namespace SqlEdit.Statement

open Text (HasAsciiBlanks)

def Shaped : Statement → Prop
  | select s => s.Shaped
  | insert i => i.Shaped
  | update u => u.Shaped
  | delete d => d.Shaped
  | degraded _ => False

/-- What must hold of a statement that was read for it to be read back. -/
def Unambiguous : Statement → Prop
  | select s => s.Unambiguous
  | insert _ => True
  | update u => u.Unambiguous
  | delete d => d.Unambiguous
  | degraded _ => False

instance : ∀ s : Statement, Decidable s.Unambiguous
  | select s => inferInstanceAs (Decidable s.Unambiguous)
  | insert _ => inferInstanceAs (Decidable True)
  | update u => inferInstanceAs (Decidable u.Unambiguous)
  | delete d => inferInstanceAs (Decidable d.Unambiguous)
  | degraded _ => inferInstanceAs (Decidable False)

variable {sql : Text} {s : Statement}

theorem exists_readBody_of_parse (h : parse sql = .ok s) (hd : s.isDegraded = false) :
    ∃ kind t, t ⊆ sql ∧ readBody kind t = .ok s := by
  obtain ⟨kind, rest, hk, hr⟩ := exists_of_parse h hd
  exact ⟨kind, rest, List.Subset.trans (Kind.subset_of_detect? hk) (body_subset sql), hr⟩

theorem shaped_of_parse (h : parse sql = .ok s) (hd : s.isDegraded = false) : s.Shaped := by
  obtain ⟨kind, t, -, hr⟩ := exists_readBody_of_parse h hd
  cases s with
  | select s => exact Select.shaped_of_read (readBody_select_iff.1 hr).2
  | insert i => exact Insert.shaped_of_read? (readBody_insert_iff.1 hr).2
  | update u => exact Update.shaped_of_read? (readBody_update_iff.1 hr).2
  | delete d => exact Delete.shaped_of_read? (readBody_delete_iff.1 hr).2
  | degraded d => simp [isDegraded] at hd

theorem Shaped.parse_render_iff (h : s.Shaped) : parse s.render = .ok s ↔ s.Unambiguous := by
  cases s with
  | select s => exact Select.parse_render_iff h
  | insert i => exact iff_of_true (Insert.parse_render_of_shaped h) trivial
  | update u => exact Update.parse_render_iff h
  | delete d => exact Delete.parse_render_iff h
  | degraded d => exact h.elim

/-- A statement that was read is read back from its text exactly if nothing in it is ambiguous. -/
theorem parse_render_iff_unambiguous (h : parse sql = .ok s) (hd : s.isDegraded = false) :
    parse s.render = .ok s ↔ s.Unambiguous :=
  (shaped_of_parse h hd).parse_render_iff

theorem parse_render_of_join :
    let sql := "select distinct a b, count(*) from t as x left join u using (id) order by b".toList
    let s := select ⟨true, [⟨"a".toList, some "b".toList⟩, ⟨"count(*)".toList, none⟩],
      [⟨"t".toList, some "x".toList, none⟩,
        ⟨"u".toList, none, some ⟨"left join".toList, some (.usingColumns "(id)".toList)⟩⟩],
      none, none, none, some "b".toList, none⟩
    parse sql = .ok s ∧ s.render ≠ sql ∧ parse s.render = .ok s := by
  have h : parse "select distinct a b, count(*) from t as x left join u using (id) order by b".toList =
      .ok (select ⟨true, [⟨"a".toList, some "b".toList⟩, ⟨"count(*)".toList, none⟩],
        [⟨"t".toList, some "x".toList, none⟩,
          ⟨"u".toList, none, some ⟨"left join".toList, some (.usingColumns "(id)".toList)⟩⟩],
        none, none, none, some "b".toList, none⟩) := by
    decide +kernel
  exact ⟨h, by decide +kernel, (parse_render_iff_unambiguous h rfl).2 (by decide +kernel)⟩

/-- Without its AS the alias of this target is taken for one. -/
theorem parse_render_ne_of_alias_as :
    ∃ s, parse "DELETE FROM t AS AS".toList = .ok s ∧ s.isDegraded = false ∧
      parse s.render ≠ .ok s :=
  ⟨delete ⟨.named "t".toList (some "AS".toList), none⟩, by decide +kernel, rfl, by decide +kernel⟩

/-- The boundary of stability for statements that change data. An INSERT is always read back. An
UPDATE or DELETE from a text without white space beyond ASCII is read back, its assignments in
order, unless the alias of its target is the word AS or a semicolon ends its text. -/
theorem parse_render_of_change (sql : Text) :
    (∀ i, parse sql = .ok (.insert i) → parse (insert i).render = .ok (.insert i)) ∧
      (HasAsciiBlanks sql →
        (∀ u, parse sql = .ok (.update u) →
          (parse (update u).render = .ok (.update u) ↔
            u.table.isAliasAs = false ∧ (update u).render.getLast? ≠ some ';')) ∧
        ∀ d, parse sql = .ok (.delete d) →
          (parse (delete d).render = .ok (.delete d) ↔
            d.table.isAliasAs = false ∧ (delete d).render.getLast? ≠ some ';')) := by
  refine ⟨fun i hi => ?_, fun hb => ⟨fun u hu => ?_, fun d hd => ?_⟩⟩
  · exact (shaped_of_parse hi rfl).parse_render_iff.2 trivial
  · obtain ⟨kind, t, ht, hr⟩ := exists_readBody_of_parse hu rfl
    obtain ⟨hab, hal⟩ := Update.absent_of_read? (hb.subset ht) (readBody_update_iff.1 hr).2
    refine (shaped_of_parse hu rfl).parse_render_iff.trans ?_
    exact ⟨fun h => ⟨h.1, h.2.2.2⟩, fun h => ⟨h.1, hab, hal, h.2⟩⟩
  · obtain ⟨kind, t, ht, hr⟩ := exists_readBody_of_parse hd rfl
    have hab := Delete.absent_of_read? (hb.subset ht) (readBody_delete_iff.1 hr).2
    refine (shaped_of_parse hd rfl).parse_render_iff.trans ?_
    exact ⟨fun h => ⟨h.1, h.2.2⟩, fun h => ⟨h.1, hab, h.2⟩⟩

theorem parse_render_of_change_samples :
    let i := insert ⟨.named "t".toList none, ["a".toList], ["1".toList]⟩
    let u := update ⟨.named "t".toList (some "x".toList),
      ⟨[("b".toList, "1".toList), ("a".toList, "2".toList)], by decide⟩, some "c = 3".toList⟩
    let d := delete ⟨.named "t".toList (some "as".toList), none⟩
    parse i.render = .ok i ∧ parse u.render = .ok u ∧ parse d.render ≠ .ok d := by
  have hi := (parse_render_of_change "INSERT INTO t (a) VALUES (1);".toList).1
    ⟨.named "t".toList none, ["a".toList], ["1".toList]⟩ (by decide +kernel)
  have hu := ((parse_render_of_change "UPDATE t AS x SET b=1, a=2 WHERE c = 3".toList).2
    (by decide +kernel)).1 ⟨.named "t".toList (some "x".toList),
      ⟨[("b".toList, "1".toList), ("a".toList, "2".toList)], by decide⟩, some "c = 3".toList⟩
    (by decide +kernel)
  have hd := ((parse_render_of_change "DELETE FROM t AS as".toList).2 (by decide +kernel)).2
    ⟨.named "t".toList (some "as".toList), none⟩ (by decide +kernel)
  exact ⟨hi, hu.2 (by decide +kernel), fun h => absurd (hd.1 h).1 (by decide +kernel)⟩

end SqlEdit.Statement
