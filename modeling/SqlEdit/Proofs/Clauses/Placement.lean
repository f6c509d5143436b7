import SqlEdit.Proofs.Clauses.First
import SqlEdit.Statement.Render

namespace SqlEdit

open Text (Closed Solid)

namespace Keyword

variable {ks : List Keyword} {k : Keyword} {s t : Text}

theorem at?_eq_none_of_marks (hk : k.isLettered) {before r : Text} {n : Nesting}
    (hs : s.all (!isWordChar ·)) :
    ∀ place ∈ sitesAfter before n s, k.at? (place.extend r) = none := by
  refine at?_eq_none_of_no_letter hk fun c hc => Bool.eq_false_iff.2 fun ha => ?_
  simpa [isWordChar_of_isAlpha ha] using List.all_eq_true.1 hs c hc

theorem occurrences_marks_append (hk : k.isLettered) (hs : s.all (!isWordChar ·)) (hc : Closed s) :
    k.occurrences (s ++ t) = (k.occurrences t).map (Occurrence.behind s) := by
  have hb : Border s t := by
    refine border_of_last ?_
    cases s using List.reverseRecOn with
    | nil => rfl
    | append_singleton s c => simpa using (List.all_eq_true.1 hs) c (by simp)
  have hn : ((topSites s).map (Site.extend t)).filterMap k.at? = [] := by
    rw [List.filterMap_map]
    refine List.filterMap_eq_nil_iff.2 fun place hp => ?_
    exact at?_eq_none_of_marks hk hs place (List.mem_filter.1 hp).1
  rw [occurrences, topSites_append hc, List.filterMap_append, hn, List.nil_append,
    List.filterMap_map, occurrences, List.map_filterMap]
  refine List.filterMap_congr fun place hp => at?_behind hk fun hn => ?_
  obtain ⟨he, -⟩ := of_mem_topSites hp
  rw [hn, List.reverse_nil, List.nil_append] at he
  exact he ▸ hb

theorem occurrences_append_marks (hk : k.isLettered) (hs : s.all (!isWordChar ·)) :
    k.occurrences (t ++ s) = (k.occurrences t).map (Occurrence.extend s) := by
  have hh : s.head?.any isWordChar = false := by
    cases s with
    | nil => rfl
    | cons c s => simpa using (List.all_eq_true.1 hs) c (by simp)
  have hw : ∀ w ∈ k.words.tail, Text.readWord? w (s.dropWhile isSpace) = none := by
    obtain ⟨v, vs, he, hv⟩ := of_isLettered hk
    intro w hw
    rw [he, List.tail_cons] at hw
    obtain ⟨hwn, hwa⟩ := hv w (List.mem_cons_of_mem _ hw)
    refine Text.readWord?_eq_none hwn hwa (isAlpha_of_not_isWordChar ?_)
    cases hd : s.dropWhile isSpace with
    | nil => rfl
    | cons c u =>
        have hc : c ∈ s := (List.dropWhile_sublist isSpace).subset (hd ▸ List.mem_cons_self)
        simpa using (List.all_eq_true.1 hs) c hc
  have hn : ((sitesAfter (t.reverse ++ []) (Nesting.top.after t) s).filter
      (·.nesting.isTop)).filterMap k.at? = [] := by
    refine List.filterMap_eq_nil_iff.2 fun place hp => ?_
    have h := at?_eq_none_of_marks (r := []) hk hs place (List.mem_filter.1 hp).1
    rwa [Site.extend, List.append_nil] at h
  rw [occurrences, topSites, sitesAfter_append, List.filter_append, List.filterMap_append, hn,
    List.append_nil, List.filter_map, List.filterMap_map, occurrences, List.map_filterMap]
  refine List.filterMap_congr fun place hp => ?_
  exact at?_extend hk (ne_nil_of_mem_topSites hp) (border_of_head hh) hw

theorem exists_text_eq_cons (hk : k.isLettered) : ∃ c u, k.text = c :: u ∧ c.isAlpha := by
  have ha := isAlpha_head?_of_read? hk (read?_text hk [])
  rw [List.append_nil] at ha
  obtain ⟨c, hc, hca⟩ := (Option.any_eq_true ..).1 ha
  exact ⟨c, _, List.eq_cons_of_mem_head? hc, hca⟩

theorem absent_space_append (ha : Apart ks) : Absent ks (' ' :: t) ↔ Absent ks t := by
  refine forall₂_congr fun k hk => ?_
  rw [← List.singleton_append, occurrences_marks_append (ha.lettered k hk) (by decide) (by decide)]
  exact List.map_eq_nil_iff

theorem absent_append_space (ha : Apart ks) : Absent ks (t ++ [' ']) ↔ Absent ks t := by
  refine forall₂_congr fun k hk => ?_
  rw [occurrences_append_marks (ha.lettered k hk) (by decide)]
  exact List.map_eq_nil_iff

end Keyword

namespace Clauses

open Keyword (Apart Absent First)

def write (cs : List (Keyword × Text)) : Text :=
  cs.flatMap fun (k, body) => ' ' :: k.text ++ ' ' :: body

/-- Whether each keyword that may still come is absent from the text before the next clause, and
that text is closed. -/
def Placed : List Keyword → Text → List (Keyword × Text) → Prop
  | ks, front, [] => Absent ks front
  | ks, front, (k, body) :: cs =>
      Absent ks front ∧ Closed front ∧ Placed (ks.filter (· ≠ k)) body cs

instance decidablePlaced : ∀ ks front cs, Decidable (Placed ks front cs)
  | ks, front, [] => inferInstanceAs (Decidable (Absent ks front))
  | ks, _, (k, body) :: cs =>
      have := decidablePlaced (ks.filter (· ≠ k)) body cs
      inferInstanceAs (Decidable (_ ∧ _ ∧ _))

theorem exists_of_trim_eq {f s r rest : Text} (hf : Solid f) (hs : Text.trim s = f)
    (h : s ++ r = ' ' :: f ++ rest) : ∃ v, Text.isBlank v ∧ s = ' ' :: f ++ v ∧ rest = v ++ r := by
  obtain ⟨a, b, ha, hb, he⟩ := Text.exists_eq_trim s
  rw [hs] at he
  subst he
  obtain ⟨c, u, rfl, hc⟩ := hf.cons
  have hr : b ++ r = rest := by
    have hl : Text.trimStart (a ++ (c :: (u ++ (b ++ r)))) = c :: (u ++ (b ++ r)) := by
      rw [Text.trimStart_append ha, Text.trimStart_cons hc]
    have hr : Text.trimStart (' ' :: c :: (u ++ rest)) = c :: (u ++ rest) := by
      rw [Text.trimStart_space, Text.trimStart_cons hc]
    have he := congrArg Text.trimStart h
    simp only [List.append_assoc, List.cons_append] at he
    rw [hl, hr] at he
    exact List.append_cancel_left (List.cons.inj he).2
  subst hr
  refine ⟨b, hb, ?_, rfl⟩
  have ha' : a ++ (c :: u ++ (b ++ r)) = [' '] ++ (c :: u ++ (b ++ r)) := by simpa using h
  rw [List.append_cancel_right ha']
  rfl

variable {ks : List Keyword} {k l : Keyword} {front body : Text} {cs : List (Keyword × Text)}

def place (front : Text) (k : Keyword) (body : Text) (cs : List (Keyword × Text)) : Occurrence :=
  ⟨' ' :: front ++ [' '], k.text, ' ' :: body ++ write cs⟩

theorem text_place (front : Text) (k : Keyword) (body : Text) (cs : List (Keyword × Text)) :
    (place front k body cs).text = ' ' :: front ++ write ((k, body) :: cs) := by
  simp [place, Occurrence.text, write]

theorem occursAt_place (hk : k.isLettered) (hc : Closed front) :
    k.OccursAt (place front k body cs) := by
  refine ⟨?_, ?_, ?_, by rfl⟩
  · refine (Text.closed_append_blank (by decide)).2 ?_
    exact Closed.cons (by decide) hc
  · rw [place, List.getLast?_append]
    rfl
  · exact Keyword.read?_text hk _

theorem first_place (ha : Apart ks) (hk : k ∈ ks) (hf : Absent ks front) (hc : Closed front)
    (body : Text) (cs : List (Keyword × Text)) :
    First ks (' ' :: front ++ write ((k, body) :: cs)) k (place front k body cs) where
  mem := hk
  occurs := by
    refine (Keyword.mem_occurrences_iff (ha.lettered k hk)).2 ⟨text_place .., ?_⟩
    exact occursAt_place (ha.lettered k hk) hc
  absent := (Keyword.absent_append_space ha).2 ((Keyword.absent_space_append ha).2 hf)

theorem eq_space_of_isBlank {v s t : Text} (hv : Text.isBlank v) (hs : s.head?.any Char.isAlpha)
    (ht : t.head?.any Char.isAlpha) (h : ' ' :: s = v ++ t) : v = [' '] ∧ s = t := by
  rcases v with _ | ⟨d, v⟩
  · rw [List.nil_append] at h
    rw [← h, List.head?_cons] at ht
    exact absurd ht (by decide)
  rw [List.cons_append] at h
  obtain ⟨rfl, he⟩ := List.cons.inj h
  rcases v with _ | ⟨e, v⟩
  · exact ⟨rfl, he⟩
  · rw [he, List.cons_append, List.head?_cons, Option.any_some] at hs
    simp only [Text.isBlank, List.all_cons, Bool.and_eq_true, isBlank_of_isAlpha hs] at hv
    exact absurd hv.2.1 (by decide)

/-- If the first keyword leaves the text in front of the clauses whole, it is that of the first
clause. -/
theorem eq_place (ha : Apart ks) (hk : k ∈ ks) (hf : Solid front) {o : Occurrence}
    (h : First ks (' ' :: front ++ write ((k, body) :: cs)) l o)
    (ho : Text.trim o.before = front) :
    l = k ∧ o = place front k body cs ∧ Absent ks front ∧ Closed front := by
  have hkl := ha.lettered k hk
  have hll := ha.lettered l h.mem
  have hat := ((Keyword.mem_occurrences_iff hll).1 h.occurs).2
  have hr (t : Text) := Keyword.read?_text hkl t
  have ht := h.text_eq
  rw [Occurrence.text, List.append_assoc] at ht
  obtain ⟨v, hv, hb, hw⟩ := exists_of_trim_eq hf ho ht
  have hw : ' ' :: (k.text ++ (' ' :: body ++ write cs)) = v ++ (o.matched ++ o.after) := by
    simpa [write] using hw
  -- The keyword begins behind the space, as no keyword begins with a space.
  obtain ⟨rfl, he⟩ := eq_space_of_isBlank hv (Keyword.isAlpha_head?_of_read? hkl (hr _))
    (Keyword.isAlpha_head?_of_read? hll hat.read) hw
  have hlk : l = k := by
    refine (ha.leads l h.mem k hk).2 ?_
    rw [← Keyword.lead?_of_read? hll hat.read, ← he, Keyword.lead?_of_read? hkl (hr _)]
  subst hlk
  have hm := hat.read
  rw [← he, hr, Option.some.injEq, Prod.mk.injEq] at hm
  refine ⟨rfl, ?_, ?_, ?_⟩
  · obtain ⟨before, matched, after⟩ := o
    simp only at hb hm
    rw [hb, ← hm.1, ← hm.2, place]
  · have hab := h.absent
    rw [hb, Keyword.absent_append_space ha] at hab
    exact (Keyword.absent_space_append ha).1 hab
  · have hc := h.closed
    rw [hb, Text.closed_append_blank (by decide), ← List.singleton_append,
      Text.Closed.append_iff (by decide)] at hc
    exact hc

theorem not_isBlank_write (hk : k.isLettered) : ¬ Text.isBlank (write ((k, body) :: cs)) := by
  obtain ⟨c, u, hcu, hca⟩ := Keyword.exists_text_eq_cons hk
  simp [write, hcu, Text.isBlank, isBlank_of_isAlpha hca]

theorem mem_filter_ne {ks : List Keyword} : l ∈ ks.filter (· ≠ k) ↔ l ∈ ks ∧ l ≠ k := by
  simp

structure ToldApart (ks : List Keyword) (front : Text) (cs : List (Keyword × Text)) : Prop where
  head : (split ks (' ' :: front ++ write cs)).head = front
  body : ∀ k ∈ ks, bodyOf? ks (' ' :: front ++ write cs) k = cs.lookup k

theorem toldApart_nil_iff (ha : Apart ks) (hf : Solid front) :
    ToldApart ks front [] ↔ Absent ks front := by
  have hw : ' ' :: front ++ write [] = ' ' :: front := List.append_nil _
  rw [← Keyword.absent_space_append ha]
  constructor
  · rintro ⟨hh, -⟩
    rw [hw] at hh
    obtain h | ⟨l, o, h⟩ := Keyword.absent_or_exists_first ha (' ' :: front)
    · exact h
    · -- The head would end before the keyword, and so not hold the whole text.
      have ht := h.text_eq
      rw [Occurrence.text, List.append_assoc, ← List.append_nil (' ' :: front)] at ht
      rw [head_split_of_first ha h] at hh
      obtain ⟨v, -, -, hw⟩ := exists_of_trim_eq hf hh ht
      have hat := ((Keyword.mem_occurrences_iff (ha.lettered l h.mem)).1 h.occurs).2
      have hm := Keyword.ne_nil_of_read? (ha.lettered l h.mem) hat.read
      simp [hm] at hw
  · intro h
    refine ⟨?_, fun k hk => ?_⟩
    · rw [hw, head_split_of_absent h, Text.trim_space, hf.trim_eq]
    · rw [hw, bodyOf?_of_absent h hk, List.lookup_nil]

/-- The first clause is told from the text if no keyword hides or spoils its own, and the others
are then told from its body. -/
theorem toldApart_cons_iff (ha : Apart ks) (hk : k ∈ ks) (hf : Solid front) (hb : Solid body) :
    ToldApart ks front ((k, body) :: cs) ↔
      Absent ks front ∧ Closed front ∧ ToldApart (ks.filter (· ≠ k)) body cs := by
  constructor
  · rintro ⟨hh, hbs⟩
    obtain h | ⟨l, o, h⟩ :=
      Keyword.absent_or_exists_first ha (' ' :: front ++ write ((k, body) :: cs))
    · rw [head_split_of_absent h] at hh
      obtain ⟨v, hv, -, hw⟩ := exists_of_trim_eq hf hh (List.append_nil _)
      rw [List.append_nil] at hw
      exact absurd (hw ▸ hv) (not_isBlank_write (ha.lettered k hk))
    · rw [head_split_of_first ha h] at hh
      obtain ⟨rfl, rfl, hab, hc⟩ := eq_place ha hk hf h hh
      refine ⟨hab, hc, ?_, fun m hm => ?_⟩
      · have hs := hbs l hk
        rw [bodyOf?_first ha h, List.lookup_cons_self] at hs
        exact (nonempty?_eq_some_iff.1 hs).1
      · obtain ⟨hm, hne⟩ := mem_filter_ne.1 hm
        have hs := hbs m hm
        rwa [bodyOf?_other ha h hm hne, List.lookup_cons, beq_false_of_ne hne] at hs
  · rintro ⟨hab, hc, hh, hbs⟩
    have h := first_place ha hk hab hc body cs
    refine ⟨?_, fun m hm => ?_⟩
    · rw [head_split_of_first ha h, place, Text.trim_append_right (by decide), Text.trim_space,
        hf.trim_eq]
    · by_cases hne : m = k
      · rw [hne, bodyOf?_first ha h, List.lookup_cons_self]
        exact nonempty?_eq_some_iff.2 ⟨hh, hb.ne_nil⟩
      · rw [bodyOf?_other ha h hm hne, List.lookup_cons, beq_false_of_ne hne]
        exact hbs m (mem_filter_ne.2 ⟨hm, hne⟩)

/-- Clauses are read back exactly if they are placed well. -/
theorem split_write_iff (ha : Apart ks) (hf : Solid front) (hk : ∀ c ∈ cs, c.1 ∈ ks)
    (hb : ∀ c ∈ cs, Solid c.2) (hn : (cs.map Prod.fst).Nodup) :
    ToldApart ks front cs ↔ Placed ks front cs := by
  induction cs generalizing ks front with
  | nil => exact toldApart_nil_iff ha hf
  | cons c cs ih =>
      obtain ⟨k, b⟩ := c
      obtain ⟨hkk, hks⟩ := List.forall_mem_cons.1 hk
      obtain ⟨hbb, hbs⟩ := List.forall_mem_cons.1 hb
      obtain ⟨hkn, hn⟩ := List.nodup_cons.1 hn
      have hmem : ∀ c ∈ cs, c.1 ∈ ks.filter (· ≠ k) := by
        refine fun c hc => mem_filter_ne.2 ⟨hks c hc, ?_⟩
        intro he
        exact hkn (List.mem_map.2 ⟨c, hc, he⟩)
      rw [Placed, ← ih (ha.subset (List.filter_subset_self ks)) hbb hmem hbs hn]
      exact toldApart_cons_iff ha hkk hf hbb

end Clauses

end SqlEdit
