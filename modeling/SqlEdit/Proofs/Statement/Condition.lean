import SqlEdit.Proofs.Statement.Degraded
import SqlEdit.Proofs.Statement.Delete
import SqlEdit.Proofs.Statement.Update

namespace SqlEdit

open Text (Closed)
open Keyword (Apart Absent)
open Clauses (bodyOf? nonempty? nonempty?_eq_some_iff)

namespace Keyword

variable {k l : Keyword} {t rest : Text}

/-- Between white space and the end of a word no keyword occurs that begins with another letter. -/
theorem occurrences_blank_append_word (hk : k.isLettered) {blank word : Text}
    (hb : Text.isBlank blank) (hw : word.all Char.isAlpha) (hl : Text.lead? word ≠ k.lead?) :
    k.occurrences (blank ++ word) = [] := by
  refine List.filterMap_eq_nil_iff.2 fun place hplace => ?_
  obtain ⟨p, hp, rfl⟩ | hp := mem_sitesAfter_append (List.mem_filter.1 hplace).1
  · obtain ⟨front, -, he, -⟩ := of_mem_sitesAfter hp
    obtain ⟨c, u, hcu⟩ := List.exists_cons_of_ne_nil (ne_nil_of_mem_sitesAfter hp)
    have hc : isBlank c := List.all_eq_true.1 hb c (by simp [he, hcu])
    refine at?_eq_none hk ?_
    rw [Site.extend, hcu, List.cons_append, List.head?_cons, Option.any_some]
    cases ha : c.isAlpha with
    | false => rfl
    | true => rw [isBlank_of_isAlpha ha] at hc; cases hc
  · cases word with
    | nil => simp [sitesAfter] at hp
    | cons c u =>
        obtain ⟨hc, hu⟩ := Bool.and_eq_true_iff.1 hw
        rw [sitesAfter, List.mem_cons] at hp
        rcases hp with rfl | hp
        · exact at?_eq_none_of_lead? hk hl
        · have hb : (c :: (blank.reverse ++ [])).head?.any isWordChar := isWordChar_of_isAlpha hc
          have hn := at?_eq_none_of_word (k := k) (r := []) hb (all_isWordChar hu) place hp
          rwa [Site.extend, List.append_nil] at hn

theorem exists_find?_of_strip? (hk : k.isLettered) (h₁ : k.words.tail = []) (hl : l.isLettered)
    (hlw : l.words = [l.text]) (hne : k.lead? ≠ l.lead?) (h : l.strip? t.trimStart = some rest) :
    ∃ front, k.find? t = (k.find? rest).map (Occurrence.behind front) := by
  obtain ⟨matched, hr, -⟩ := strip?_eq_some_iff_read?.1 h
  obtain ⟨word, he, hw, hh⟩ := exists_of_strip? hlw h
  obtain rfl : matched = word := List.append_cancel_right ((eq_of_read? hr).symm.trans he)
  obtain ⟨blank, hb, ht⟩ := Text.exists_eq_trimStart t
  have hwa : matched.all Char.isAlpha := by
    obtain ⟨w, ws, hws, ha⟩ := of_isLettered hl
    obtain ⟨rfl, -⟩ := List.cons.inj (hlw.symm.trans hws)
    exact Text.isAlpha_of_sameWord hw (ha l.text List.mem_cons_self).2
  have hlead : Text.lead? matched ≠ k.lead? := by
    rw [← Text.lead?_append (t := rest) (ne_nil_of_read? hl hr), ← eq_of_read? hr,
      lead?_of_read? hl hr]
    exact hne.symm
  have hc : Closed (blank ++ matched) :=
    (Text.closed_of_isBlank hb).append (closed_of_read? hl hr)
  have hnil := occurrences_blank_append_word hk hb hwa hlead
  refine ⟨blank ++ matched, ?_⟩
  rw [ht, he, ← List.append_assoc, find?, occurrences_append hk hc (border_of_head hh) (by simp [h₁]),
    hnil, List.map_nil, List.nil_append, List.head?_map, find?]

theorem mem_occurrences_renderClause (hk : k.isLettered) {front : Text} (hf : Closed front)
    (body : Text) :
    ⟨front ++ [' '], k.text, ' ' :: body⟩ ∈ k.occurrences (front ++ k.renderClause (some body)) := by
  refine (mem_occurrences_iff hk).2 ⟨?_, ?_, ?_, read?_text hk _, by rfl⟩
  · simp [Occurrence.text, renderClause]
  · exact (Text.closed_append_blank (by decide)).2 hf
  · rw [List.getLast?_concat]
    rfl

end Keyword

theorem Clauses.bodyOf?_single {k : Keyword} (ha : Apart [k]) (t : Text) :
    bodyOf? [k] t k = (k.find? t).bind fun o => nonempty? o.after.trim := by
  obtain hn | ⟨l, o, hf⟩ := Keyword.absent_or_exists_first ha t
  · rw [bodyOf?_of_absent hn List.mem_cons_self, Keyword.find?, hn k List.mem_cons_self]
    rfl
  · obtain rfl := List.mem_singleton.1 hf.mem
    have hr : Absent ([l].filter (· ≠ l)) o.after := by simp [Absent]
    rw [bodyOf?_first ha hf, head_split_of_absent hr, hf.find?_self ha, Option.bind_some]

section

variable {t : Text}

theorem Delete.condition_eq {d : Delete} (h : read? t = some d) :
    d.condition = (Keyword.condition.find? t).bind fun o => nonempty? o.after.trim := by
  obtain ⟨rest, hr, -, hc⟩ := read?_eq_some_iff.1 h
  obtain ⟨front, hf⟩ := Keyword.exists_find?_of_strip? (k := .condition) (by decide) (by decide)
    (by decide) (by decide) (by decide) hr
  rw [← hc, Clauses.bodyOf?_single apart, hf, Option.bind_map]
  rfl

theorem Update.condition_eq {u : Update} (h : read? t = some u) :
    u.condition = (Keyword.condition.find? t).bind fun o => nonempty? o.after.trim := by
  obtain ⟨o, -, hf, -, -, -, hc⟩ := read?_eq_some_iff.1 h
  rw [Clauses.bodyOf?_other apart hf (by simp) (by decide), filter_ne_setFields,
    Clauses.bodyOf?_single (by decide)] at hc
  rw [← hc, hf.find?_other apart (by simp) (by decide), Option.bind_map]
  rfl

end

namespace Statement

variable {sql : Text} {s : Statement}

def behindWhere? (sql : Text) : Option Text :=
  (Kind.detect? (body sql)).bind fun (_, t) => (Keyword.condition.find? t).map (·.after)

/-- Whether a statement that has WHERE at top level is read with a condition, and that condition is
rendered behind WHERE at top level. -/
def KeepsWhere (sql : Text) (s : Statement) : Prop :=
  (behindWhere? sql).isSome →
    ∃ c ∈ s.condition?, ∃ o ∈ Keyword.condition.occurrences s.render, o.after = ' ' :: c

theorem condition?_of_parse (h : parse sql = .ok s) (hd : s.isDegraded = false)
    (hk : s.kind = .update ∨ s.kind = .delete) :
    s.condition? = (behindWhere? sql).bind fun t => nonempty? t.trim := by
  obtain ⟨kind, t, hdet, hr⟩ := exists_of_parse h hd
  have he : ((behindWhere? sql).bind fun t => nonempty? t.trim) =
      (Keyword.condition.find? t).bind fun o => nonempty? o.after.trim := by
    rw [behindWhere?, hdet, Option.bind_some, Option.bind_map]
    rfl
  rw [he]
  cases s with
  | update u => exact Update.condition_eq (readBody_update_iff.1 hr).2
  | delete d => exact Delete.condition_eq (readBody_delete_iff.1 hr).2
  | select _ | insert _ => simp [Statement.kind] at hk
  | degraded d => cases hd

theorem exists_occurrence_render (h : parse sql = .ok s) (hd : s.isDegraded = false)
    (hk : s.kind = .update ∨ s.kind = .delete) {c : Text} (hc : s.condition? = some c) :
    ∃ o ∈ Keyword.condition.occurrences s.render, o.after = ' ' :: c := by
  obtain ⟨kind, t, -, hr⟩ := exists_of_parse h hd
  cases s with
  | update u =>
      have hs := Update.shaped_of_read? (readBody_update_iff.1 hr).2
      have hc : u.condition = some c := hc
      have hset : Closed " SET ".toList := by decide
      have hf : Closed ("UPDATE ".toList ++ u.table.render ++ " SET ".toList ++ u.listText) :=
        ((Closed.append (by decide) hs.closed).append hset).append (hs.closed_list (by rw [hc]; rfl))
      have ho := Keyword.mem_occurrences_renderClause (k := .condition) (by decide) hf c
      rw [← hc] at ho
      exact ⟨_, ho, rfl⟩
  | delete d =>
      have hs := Delete.shaped_of_read? (readBody_delete_iff.1 hr).2
      have hc : d.condition = some c := hc
      have hf : Closed ("DELETE FROM ".toList ++ d.table.render) :=
        Closed.append (by decide) (hs.closed (by rw [hc]; rfl))
      have ho := Keyword.mem_occurrences_renderClause (k := .condition) (by decide) hf c
      rw [← hc] at ho
      exact ⟨_, ho, rfl⟩
  | select _ | insert _ => simp [Statement.kind] at hk
  | degraded d => cases hd

/-- The condition of an UPDATE or DELETE is what stands behind the first WHERE, without the white
space at its ends; it is kept exactly if there is something else. -/
theorem keepsWhere_iff (h : parse sql = .ok s) (hd : s.isDegraded = false)
    (hk : s.kind = .update ∨ s.kind = .delete) :
    (∀ c, s.condition? = some c ↔ ∃ t ∈ behindWhere? sql, t.trim = c ∧ c ≠ []) ∧
      (KeepsWhere sql s ↔ ∀ t ∈ behindWhere? sql, ¬ t.isBlank) := by
  have hc (c : Text) : s.condition? = some c ↔ ∃ t ∈ behindWhere? sql, t.trim = c ∧ c ≠ [] := by
    simp only [condition?_of_parse h hd hk, Option.bind_eq_some_iff, nonempty?_eq_some_iff,
      Option.mem_def]
  refine ⟨hc, fun hkeep t ht => ?_, fun hb hw => ?_⟩
  · obtain ⟨c, hcs, -⟩ := hkeep (Option.isSome_of_mem ht)
    obtain ⟨u, hu, rfl, hne⟩ := (hc c).1 hcs
    obtain rfl := Option.mem_unique ht hu
    exact fun hblank => hne (Text.trim_eq_nil_iff.2 hblank)
  · obtain ⟨t, ht⟩ := Option.isSome_iff_exists.1 hw
    have hcs := (hc t.trim).2 ⟨t, ht, rfl, fun hn => hb t ht (Text.trim_eq_nil_iff.1 hn)⟩
    exact ⟨t.trim, hcs, exists_occurrence_render h hd hk hcs⟩

/-- Neither the WHERE in a literal nor the one behind the first counts. -/
theorem keepsWhere_of_update :
    let sql := "update t set a = 'where' Where b\n= (c) WHERE ;".toList
    let s := update ⟨.named "t".toList none, ⟨[("a".toList, "'where'".toList)], by decide⟩,
      some "b\n= (c) WHERE".toList⟩
    parse sql = .ok s ∧ s.isDegraded = false ∧ (s.kind = .update ∨ s.kind = .delete) ∧
      behindWhere? sql = some " b\n= (c) WHERE".toList ∧ KeepsWhere sql s := by
  intro sql s
  have hp : parse sql = .ok s := by decide +kernel
  have hw : behindWhere? sql = some " b\n= (c) WHERE".toList := by decide +kernel
  refine ⟨hp, rfl, .inl rfl, hw, (keepsWhere_iff hp rfl (.inl rfl)).2.2 fun t ht => ?_⟩
  obtain rfl := Option.mem_unique hw ht
  decide

/-- A DELETE with WHERE and nothing behind it becomes one of all rows. -/
theorem not_keepsWhere_of_blank :
    let sql := "DELETE FROM t WHERE".toList
    let s := delete ⟨.named "t".toList none, none⟩
    parse sql = .ok s ∧ behindWhere? sql = some [] ∧ s.render = "DELETE FROM t".toList ∧
      ¬ KeepsWhere sql s := by
  have hw : behindWhere? "DELETE FROM t WHERE".toList = some [] := by decide +kernel
  refine ⟨by decide +kernel, hw, by decide, fun hk => ?_⟩
  obtain ⟨c, hc, -⟩ := hk (by rw [hw]; rfl)
  cases hc

end Statement

end SqlEdit
