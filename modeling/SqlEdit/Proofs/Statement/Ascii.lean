import SqlEdit.Proofs.Clauses.Pieces
import SqlEdit.Proofs.Statement.Delete
import SqlEdit.Proofs.Statement.Update

namespace SqlEdit

open Keyword (Apart Absent First areSingle)
open Text (Closed)

theorem Keyword.subset_of_strip? {k : Keyword} {t rest : Text} (h : k.strip? t = some rest) :
    rest ⊆ t := by
  obtain ⟨matched, hr, -⟩ := strip?_eq_some_iff_read?.1 h
  rw [eq_of_read? hr]
  exact List.subset_append_right ..

theorem Text.trimStart_subset (t : Text) : trimStart t ⊆ t :=
  (List.dropWhile_sublist _).subset

theorem Text.trimEnd_subset (t : Text) : trimEnd t ⊆ t := by
  obtain ⟨s, -, he⟩ := exists_eq_trimEnd t
  conv => rhs; rw [he]
  exact List.subset_append_left ..

theorem Text.subset_of_mem_splitItems {t u : Text} (hu : u ∈ t.splitItems ',') : u ⊆ t := by
  obtain ⟨v, hv, rfl⟩ := exists_of_mem_splitItems hu
  exact List.Subset.trans (Keyword.trim_subset v) (Nesting.subset_of_mem_cut hv)

theorem Clauses.head_subset (ks : List Keyword) (t : Text) : (split ks t).head ⊆ t := by
  rw [split_eq]
  exact List.Subset.trans (Keyword.trim_subset _) (List.take_subset ..)

theorem Statement.body_subset (sql : Text) : body sql ⊆ sql := by
  rw [body]
  split
  · refine List.Subset.trans (Text.trimEnd_subset _) ?_
    exact List.Subset.trans (List.dropLast_subset _) (Keyword.trim_subset sql)
  · exact Keyword.trim_subset sql

theorem Kind.subset_of_detect? {t rest : Text} {kind : Kind} (h : detect? t = some (kind, rest)) :
    rest ⊆ t := by
  obtain ⟨other, -, hk⟩ := List.exists_of_findSome?_eq_some h
  obtain ⟨r, hr, he⟩ := Option.map_eq_some_iff.1 hk
  rw [← (Prod.mk.inj he).2]
  exact Keyword.subset_of_strip? hr

theorem Table.absent_of_readTarget? {ks : List Keyword} {text : Text} {t : Table}
    (ha : Apart ks) (h₁ : areSingle ks) (ht : Text.trim text = text) (h : Absent ks text)
    (hr : readTarget? text = some t) : Absent ks t.render := by
  rw [render_eq]
  refine (Keyword.absent_joinWords_iff ha h₁ (isTarget_of_readTarget? ht hr).pieces).2 fun v hv => ?_
  have hw {w : Text} (hw : w ∈ text.splitWords) := Keyword.absent_of_mem_splitWords ha h₁ h hw
  obtain ⟨-, ⟨he, -⟩ | ⟨w, a, hal, he, -⟩⟩ := readTarget?_eq_some_iff.1 hr
  · exact hw (he ▸ hv)
  · rw [ownWords, hal, Option.toList_some] at hv
    refine hw ?_
    rw [he]
    grind

theorem Delete.absent_of_read? {t : Text} {d : Delete} (hb : t.HasAsciiBlanks)
    (h : read? t = some d) : Absent [.condition] d.table.render := by
  obtain ⟨rest, hr, ht, -⟩ := read?_eq_some_iff.1 h
  have hs := List.Subset.trans (Keyword.subset_of_strip? hr) (Text.trimStart_subset t)
  exact Table.absent_of_readTarget? apart (by decide) (Clauses.trim_head_split ..)
    (Clauses.absent_head apart (hb.subset hs)) ht

theorem Update.absent_assignmentText {ks : List Keyword} {t : Text} {e : Text × Text}
    (ha : Apart ks) (h₁ : areSingle ks) (hb : t.HasAsciiBlanks) (h : Absent ks t)
    (hr : readAssignment? t = some e) : Absent ks (assignmentText e) := by
  have he := isAssignment_of_readAssignment? hr
  obtain ⟨s, r, -, hc, rfl, hs, hv, -⟩ := readAssignment?_eq_some_iff.1 hr
  rw [Keyword.absent_append_cons_iff ha h₁ hc (by decide) (by decide)] at h
  have hf := Keyword.absent_trim ha (hb.subset (List.subset_append_left ..)) h.1
  have hl := Keyword.absent_trim ha (hb.subset (by simp)) h.2
  rw [hs] at hf
  rw [hv] at hl
  have ht : assignmentText e = e.1 ++ ' ' :: '=' :: ' ' :: e.2 := by simp [assignmentText]
  rw [ht, Keyword.absent_append_cons_iff ha h₁ he.closed (by decide) (by decide),
    Keyword.absent_cons_iff ha (by decide) (by decide), Keyword.absent_space_append ha]
  exact ⟨hf, hl⟩

theorem Update.absent_of_read? {t : Text} {u : Update} (hb : t.HasAsciiBlanks)
    (h : read? t = some u) :
    Absent [.setFields, .condition] u.table.render ∧ Absent [.condition] u.listText := by
  have hu := shaped_of_read? h
  obtain ⟨o, body, hf, ht, hbody, he, -⟩ := read?_eq_some_iff.1 h
  have ha : Apart [.condition] := by decide
  have h₁ : areSingle [.condition] := by decide
  constructor
  · exact Table.absent_of_readTarget? apart (by decide) (Clauses.trim_head_split ..)
      (Clauses.absent_head apart hb) ht
  · rw [Clauses.bodyOf?_first apart hf, filter_ne_setFields] at hbody
    have hsub : o.after ⊆ t := hf.text_eq ▸ o.after_subset
    have hab := Clauses.absent_head ha (hb.subset hsub)
    have hasc := hb.subset (List.Subset.trans (Clauses.head_subset [.condition] _) hsub)
    rw [(Clauses.nonempty?_eq_some_iff.1 hbody).1] at hab hasc
    refine (Keyword.absent_commaList_iff ha h₁ hu.pieces).2 fun v hv => ?_
    obtain ⟨e, hmem, rfl⟩ := List.mem_map.1 hv
    obtain ⟨item, hitem, hi⟩ := exists_of_forall₂ (mapM_eq_some_iff.1 he) hmem
    have hai := Keyword.absent_of_mem_splitItems ha h₁ hasc hab hitem
    exact absent_assignmentText ha h₁ (hasc.subset (Text.subset_of_mem_splitItems hitem)) hai hi

end SqlEdit
