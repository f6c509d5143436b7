import SqlEdit.Proofs.Clauses.Pieces
import SqlEdit.Proofs.Identifier.Plain
import SqlEdit.Proofs.Statement.Field

namespace SqlEdit

open Keyword (Apart Absent)
open Text (Closed Solid HasAsciiBlanks)

namespace Keyword

variable {k : Keyword} {ks : List Keyword} {s t : Text} {o : Occurrence}

theorem occurrences_after_findLast? (ha : Apart ks) (hk : k ∈ ks) (h : k.findLast? t = some o) :
    k.occurrences o.after = [] := by
  by_contra hne
  have ho := List.mem_of_getLast? h
  obtain ⟨-, hat⟩ := (mem_occurrences_iff (ha.lettered k hk)).1 ho
  have hm := List.length_pos_iff.2 (ne_nil_of_read? (ha.lettered k hk) hat.read)
  rw [findLast?, occurrences_around ha hk hk ho, ← List.append_assoc,
    List.getLast?_append_of_ne_nil _ (by simpa using hne), List.getLast?_map] at h
  obtain ⟨p, -, he⟩ := Option.map_eq_some_iff.1 h
  have hl := congrArg (·.before.length) he
  simp only [Occurrence.behind, List.length_append] at hl
  omega

theorem findLast?_append (hk : k.isLettered) (hs : Closed s) (hb : Border s t)
    (ht : ∀ w ∈ k.words.tail, Text.readWord? w (t.dropWhile isSpace) = none)
    (h : k.findLast? t = some o) : k.findLast? (s ++ t) = some (o.behind s) := by
  have hne : k.occurrences t ≠ [] := List.ne_nil_of_mem (List.mem_of_getLast? h)
  rw [findLast?, occurrences_append hk hs hb ht,
    List.getLast?_append_of_ne_nil _ (by simpa using hne), List.getLast?_map, ← findLast?, h]
  rfl

/-- A keyword that occurs in a word is the whole word. -/
theorem text_eq_of_word (hk : k.isLettered) (ht : t.all isWordChar) (h : o ∈ k.occurrences t) :
    t = o.matched := by
  obtain ⟨rfl, hat⟩ := (mem_occurrences_iff hk).1 h
  have hword (c : Char) (hc : c ∈ o.text) : isWordChar c := List.all_eq_true.1 ht c hc
  have hbefore : o.before = [] := by
    by_contra hne
    have hl := List.getLast?_eq_some_getLast hne
    have hc := hword _ (o.before_subset (List.getLast_mem hne))
    have hb := hat.border_before
    rw [hl, Option.any_some, hc] at hb
    cases hb
  have hafter : o.after = [] := by
    by_contra hne
    obtain ⟨c, u, hu⟩ := List.exists_cons_of_ne_nil hne
    have hc := hword c (o.after_subset (hu ▸ List.mem_cons_self))
    have hb := hat.border_after
    rw [hu, List.head?_cons, Option.any_some, hc] at hb
    cases hb
  rw [Occurrence.text, hbefore, hafter, List.nil_append, List.append_nil]

end Keyword

namespace Field

variable {t u w : Text} {f : Field} {o : Occurrence}

theorem sameWord_of_asAlias (h : o ∈ Keyword.asAlias.occurrences t) :
    Text.sameWord "AS".toList o.matched := by
  obtain ⟨-, hat⟩ := (Keyword.mem_occurrences_iff isLettered_asAlias).1 h
  obtain ⟨⟨front, rest⟩, hr, hs⟩ := Option.bind_eq_some_iff.1 hat.read
  obtain ⟨hm, -⟩ := Prod.mk.inj (Option.some.inj hs)
  rw [List.append_nil] at hm
  exact hm ▸ (Text.readWord?_eq_some_iff.1 hr).2

theorem solid_after_of_isAliasWord (hw : isAliasWord w) (h : o ∈ Keyword.asAlias.occurrences w) :
    Text.trim o.after ≠ [] := by
  obtain ⟨rfl, hat⟩ := (Keyword.mem_occurrences_iff isLettered_asAlias).1 h
  rw [isAliasWord, Bool.or_eq_true] at hw
  rcases hw with hq | hp
  · simp only [isQuotedName, Bool.and_eq_true, beq_iff_eq] at hq
    have hlast := hq.2
    have hne : o.after ≠ [] := by
      intro hn
      have hl := Keyword.isAlpha_getLast?_of_read? isLettered_asAlias hat.read
      have hm := Keyword.ne_nil_of_read? isLettered_asAlias hat.read
      rw [Occurrence.text, hn, List.append_nil, List.getLast?_append_of_ne_nil _ hm] at hlast
      rw [hlast] at hl
      cases hl
    rw [Occurrence.text, List.getLast?_append_of_ne_nil _ hne] at hlast
    rw [Ne, Text.trim_eq_nil_iff]
    intro hb
    have hm := List.all_eq_true.1 hb _ (List.mem_of_getLast? hlast)
    cases hm
  · -- A plain word in which AS occurs is AS, and that is reserved.
    simp only [Bool.and_eq_true, Bool.not_eq_true'] at hp
    obtain ⟨⟨hp, hdot⟩, hres⟩ := hp
    have hdot : '.' ∉ o.text := by simpa using hdot
    have hparts := (Bool.and_eq_true_iff.1 ((Identifier.isPlain_iff_isSegment hdot).1 hp)).2
    have hword : o.text.all isWordChar := by
      refine List.all_eq_true.2 fun c hc => ?_
      have hpart := List.all_eq_true.1 hparts c hc
      simp only [Identifier.isPart, Bool.or_eq_true] at hpart
      simp only [isWordChar, Bool.or_eq_true]
      tauto
    have he := Keyword.text_eq_of_word isLettered_asAlias hword h
    have hs := sameWord_of_asAlias h
    rw [← he] at hs
    have hr : Identifier.isReserved o.text := by
      rw [Identifier.isReserved, List.any_eq_true]
      refine ⟨"AS".toList, by decide, ?_⟩
      rw [Text.sameWord, beq_iff_eq] at hs ⊢
      exact hs.symm
    rw [hr] at hres
    cases hres

/-- If no AS splits a field, its last word holds none. -/
theorem absent_of_isAliasWord {c : Char} (hu : Closed u) (hc : isSpace c)
    (hne : Text.trimEnd (u ++ [c]) ≠ []) (hw : isAliasWord w) (h : splitAs? (u ++ [c] ++ w) = none) :
    Absent [.asAlias] w := by
  by_contra hab
  simp only [Absent, List.forall_mem_singleton] at hab
  obtain ⟨o, ho⟩ : ∃ o, Keyword.asAlias.findLast? w = some o :=
    ⟨_, List.getLast?_eq_some_getLast hab⟩
  have hb : Border (u ++ [c]) w := by
    refine border_of_last ?_
    rw [List.getLast?_concat]
    exact isWordChar_of_isSpace hc
  have hcl : Closed (u ++ [c]) := hu.append (Closed.cons (isPlain_of_isSpace hc) rfl)
  have hl := Keyword.findLast?_append isLettered_asAlias hcl hb (List.forall_mem_nil _) ho
  have hn := solid_after_of_isAliasWord hw (List.mem_of_getLast? ho)
  -- The last AS of the word would be the last of the field, with text on both sides.
  have hs : splitAs? (u ++ [c] ++ w) =
      some ⟨Text.trimEnd (u ++ [c] ++ o.before), some (Text.trim o.after)⟩ := by
    refine splitAs?_eq_some_iff.2 ⟨_, hl, rfl, rfl, ?_, hn⟩
    rw [Ne, Text.trimEnd_eq_nil_iff] at hne ⊢
    exact fun hbl => hne (Text.isBlank_append.1 hbl).1
  rw [h] at hs
  cases hs

theorem hasPlainAlias_of_splitAs? (hb : t.HasAsciiBlanks) (h : splitAs? t = some f) :
    f.HasPlainAlias := by
  obtain ⟨o, ho, -, ha, -, -⟩ := splitAs?_eq_some_iff.1 h
  obtain ⟨rfl, -⟩ := Keyword.of_mem_occurrences (List.mem_of_getLast? ho)
  intro a hm
  rw [ha] at hm
  obtain rfl := Option.some.inj hm
  refine Keyword.absent_trim apart (hb.subset o.after_subset) ?_
  rw [Absent, List.forall_mem_singleton]
  exact Keyword.occurrences_after_findLast? apart (List.mem_singleton_self _) ho

theorem hasPlainAlias_of_ofText?_eq (ht : Solid t) (hb : t.HasAsciiBlanks) (h : ofText? t = some f) :
    f.HasPlainAlias := by
  obtain has | ⟨has, hbare⟩ | ⟨-, -, rfl⟩ := (ofText?_eq_some_iff ht.ne_nil).1 h
  · exact hasPlainAlias_of_splitAs? hb has
  · obtain ⟨front, m, back, -, -, -, -, hp, he, -⟩ := parted_of_splitBare? ht hbare
    obtain ⟨u, c, name, hc, rfl, hu, hw, -, rfl⟩ := exists_of_splitBare? ht hbare
    have hne : Text.trimEnd (u ++ [c]) ≠ [] := (Field.mk.inj hp).1 ▸ he.ne_nil
    rintro a ⟨rfl⟩
    exact absent_of_isAliasWord hu hc hne hw has
  · exact nofun

/-- A field is written so that it is read back, with the same border between expression and alias.
This holds of every text, also of one that leaves a quote or a group open. -/
theorem ofText?_render_stable (hne : t ≠ []) (ht : t.trim = t) (hb : t.HasAsciiBlanks) :
    ∃ f, ofText? t = some f ∧ f.render ≠ [] ∧ f.render.trim = f.render ∧
      ofText? f.render = some f := by
  have hst : Solid t := Text.solid_iff.2 ⟨hne, ht⟩
  obtain ⟨f, hf⟩ : ∃ f, ofText? t = some f := ⟨_, if_neg hne⟩
  have hp := hasPlainAlias_of_ofText?_eq hst hb hf
  refine ⟨f, hf, ?_⟩
  obtain rfl | ⟨front, m, back, -, hc, -, -, rfl, he, ha⟩ := eq_or_parted_of_ofText? hst hf
  · exact ⟨hne, ht, hf⟩
  · have hr : Solid (render ⟨Text.trimEnd front, some (Text.trim back)⟩) := by
      rw [render_some rfl]
      exact he.append ha _
    exact ⟨hr.ne_nil, hr.trim_eq, ofText?_render_of_alias rfl he (Text.closed_trimEnd.2 hc) ha hp⟩

theorem ofText?_render_stable_of_unbalanced :
    let t : Text := "as price) total".toList
    (t ≠ [] ∧ t.trim = t ∧ t.HasAsciiBlanks) ∧
      ofText? t = some ⟨"as price)".toList, some "total".toList⟩ ∧
      ∃ f, ofText? t = some f ∧ f.render ≠ [] ∧ f.render.trim = f.render ∧
        ofText? f.render = some f := by
  have hb : Text.HasAsciiBlanks "as price) total".toList := by decide
  exact ⟨⟨by decide, by decide, hb⟩, by decide +kernel,
    ofText?_render_stable (by decide) (by decide) hb⟩

end Field

end SqlEdit
