import Mathlib.Algebra.BigOperators.Group.List.Basic
import SqlEdit.Proofs.Clauses.Placement
import SqlEdit.Proofs.Nesting.Count

namespace SqlEdit

open Text (Closed Solid Countable)

namespace Clauses

open Keyword (Apart Absent First)

variable {ks : List Keyword} {k l : Keyword} {t : Text} {o : Occurrence}

theorem trim_head_split (ks : List Keyword) (t : Text) :
    Text.trim (split ks t).head = (split ks t).head := by
  rw [split_eq, Text.trim_trim]

theorem body?_split (ks : List Keyword) {i : Nat} (h : ks[i]? = some k) (t : Text) :
    (split ks t).body? i = bodyOf? ks t k := by
  rw [body?, split_eq, List.getElem?_map, h]
  rfl

theorem solid_of_bodyOf? {body : Text} (h : bodyOf? ks t k = some body) : Solid body := by
  obtain ⟨o, -, hs⟩ := Option.bind_eq_some_iff.1 h
  rw [slice?] at hs
  split at hs
  · simp at hs
  next hne =>
    rw [← Option.some.inj hs]
    exact Text.solid_trim fun hb => hne (Text.trim_eq_nil_iff.2 hb)

/-- If there is a clause, the head ends before a keyword at top level. -/
theorem closed_head (ha : Apart ks) (hk : k ∈ ks) {body : Text} (h : bodyOf? ks t k = some body) :
    Closed (split ks t).head := by
  obtain hn | ⟨l, o, hf⟩ := Keyword.absent_or_exists_first ha t
  · rw [bodyOf?_of_absent hn hk] at h
    simp at h
  · rw [head_split_of_first ha hf]
    exact Text.closed_trim.2 hf.closed

variable {p : Char → Bool}

theorem countP_split (hp : Countable p) (ha : Apart ks) (hn : ks.Nodup) (t : Text) :
    (split ks t).head.countP p + (ks.map fun k => ((bodyOf? ks t k).getD []).countP p).sum ≤
      t.countP p := by
  induction hl : ks.length using Nat.strong_induction_on generalizing ks t with
  | _ n ih =>
      obtain hab | ⟨k, o, h⟩ := Keyword.absent_or_exists_first ha t
      · have hz : ks.map (fun k => ((bodyOf? ks t k).getD []).countP p) = ks.map fun _ => 0 :=
          List.map_congr_left fun k hk => by rw [bodyOf?_of_absent hab hk]; rfl
        rw [head_split_of_absent hab, Text.countP_trim hp, hz]
        simp
      · have he : ks.filter (· ≠ k) = ks.erase k := by
          rw [hn.erase_eq_filter]
          exact List.filter_congr fun l _ => by simp [bne, beq_eq_decide]
        have hlt : (ks.erase k).length < n := by
          rw [List.length_erase_of_mem h.mem, ← hl]
          exact Nat.pred_lt (List.length_pos_of_mem h.mem).ne'
        have ih := ih _ hlt (ha.subset (List.erase_subset)) (hn.erase k) o.after rfl
        have hk : ((bodyOf? ks t k).getD []).countP p =
            (split (ks.erase k) o.after).head.countP p := by
          rw [bodyOf?_first ha h, nonempty?, he]
          split
          · next hnil => rw [hnil]; rfl
          · rfl
        have hs : (ks.erase k).map (fun l => ((bodyOf? ks t l).getD []).countP p) =
            (ks.erase k).map fun l => ((bodyOf? (ks.erase k) o.after l).getD []).countP p := by
          refine List.map_congr_left fun l hl => ?_
          obtain ⟨hne, hl⟩ := hn.mem_erase_iff.1 hl
          rw [bodyOf?_other ha h hl hne, he]
        have ht : t.countP p = o.before.countP p + o.matched.countP p + o.after.countP p := by
          rw [← h.text_eq, Occurrence.text, List.countP_append, List.countP_append]
        rw [head_split_of_first ha h, Text.countP_trim hp, ← List.sum_map_erase _ h.mem, hk, hs, ht]
        omega

variable {front : Text} {cs : List (Keyword × Text)}

theorem solid_append_write (hf : Solid front) (hb : ∀ c ∈ cs, Solid c.2) :
    Solid (front ++ write cs) := by
  induction cs using List.reverseRecOn with
  | nil => simpa [write] using hf
  | append_singleton cs c _ =>
      have hs := hf.append (hb c (by simp)) (write cs ++ ' ' :: c.1.text ++ [' '])
      simpa [write] using hs

theorem readWord?_write (ha : Apart ks) (hk : k ∈ ks) (hcs : ∀ c ∈ cs, c.1 ∈ ks) {w : Text}
    (hw : w ∈ k.words.tail) : Text.readWord? w ((write cs).dropWhile isSpace) = none := by
  obtain ⟨v, vs, he, hv⟩ := Keyword.of_isLettered (ha.lettered k hk)
  have hwn : w ≠ [] := by
    rw [he, List.tail_cons] at hw
    exact (hv w (List.mem_cons_of_mem _ hw)).1
  rcases cs with _ | ⟨⟨l, b⟩, cs⟩
  · exact Text.readWord?_nil hwn
  · have hl : l ∈ ks := hcs (l, b) (by simp)
    have hr := Keyword.read?_text (ha.lettered l hl) (' ' :: b ++ write cs)
    have hd : (write ((l, b) :: cs)).dropWhile isSpace = l.text ++ (' ' :: b ++ write cs) := by
      have hw : write ((l, b) :: cs) = ' ' :: (l.text ++ (' ' :: b ++ write cs)) := by
        simp [write]
      rw [hw, List.dropWhile_cons_of_pos Keyword.isSpace_space,
        Keyword.dropWhile_isSpace_of_isAlpha
          (Keyword.isAlpha_head?_of_read? (ha.lettered l hl) hr)]
    rw [hd]
    refine Keyword.readWord?_eq_none_of_lead? hwn fun hlead => ?_
    rw [Keyword.lead?_of_read? (ha.lettered l hl) hr] at hlead
    exact (ha.leads l hl k hk).1 (List.mem_map.2 ⟨w, hw, hlead.symm⟩)

theorem occurrences_write (ha : Apart ks) (hk : k ∈ ks) (hcs : ∀ c ∈ cs, c.1 ∈ ks)
    (hc : cs ≠ [] → Closed front) {o : Occurrence} (ho : o ∈ k.occurrences front) :
    (o.behind [' ']).extend (write cs) ∈ k.occurrences (' ' :: front ++ write cs) := by
  have hkl := ha.lettered k hk
  have hs : o.behind [' '] ∈ k.occurrences (' ' :: front) := by
    rw [← List.singleton_append, Keyword.occurrences_marks_append hkl (by decide) (by decide)]
    exact List.mem_map_of_mem ho
  by_cases hn : cs = []
  · subst hn
    simpa [write, Occurrence.extend] using hs
  · have hb : Border (' ' :: front) (write cs) := by
      obtain ⟨⟨l, b⟩, cs, rfl⟩ := List.exists_cons_of_ne_nil hn
      exact border_of_head rfl
    rw [Keyword.occurrences_append hkl (Closed.cons (by decide) (hc hn)) hb
      fun w hw => readWord?_write ha hk hcs hw, List.mem_append]
    exact .inl (List.mem_map_of_mem hs)

theorem first_write (ha : Apart ks) (hcs : ∀ c ∈ cs, c.1 ∈ ks) (hc : cs ≠ [] → Closed front)
    (h : First ks front k o) :
    First ks (' ' :: front ++ write cs) k ((o.behind [' ']).extend (write cs)) :=
  ⟨h.mem, occurrences_write ha h.mem hcs hc h.occurs, (Keyword.absent_space_append ha).2 h.absent⟩

theorem absent_of_head (ha : Apart ks) (hcs : ∀ c ∈ cs, c.1 ∈ ks) (hc : cs ≠ [] → Closed front)
    (hw : front.countP (!isBlank ·) ≤
      (split ks (' ' :: front ++ write cs)).head.countP (!isBlank ·)) : Absent ks front := by
  obtain h | ⟨k, o, h⟩ := Keyword.absent_or_exists_first ha front
  · exact h
  · have hkl := ha.lettered k h.mem
    have hat := ((Keyword.mem_occurrences_iff hkl).1 h.occurs).2
    have hf := first_write ha hcs hc h
    have hm : 0 < o.matched.countP (!isBlank ·) := by
      obtain ⟨c, hl, hca⟩ := (Option.any_eq_true ..).1 (Keyword.isAlpha_getLast?_of_read? hkl hat.read)
      refine List.countP_pos_iff.2 ⟨c, List.mem_of_getLast? hl, ?_⟩
      simp [isBlank_of_isAlpha hca]
    have hlt : o.before.countP (!isBlank ·) + o.matched.countP (!isBlank ·) ≤
        front.countP (!isBlank ·) := by
      rw [← h.text_eq, Occurrence.text, List.countP_append, List.countP_append]
      exact Nat.le_add_right ..
    have hb : (' ' :: o.before).countP (!isBlank ·) = o.before.countP (!isBlank ·) :=
      List.countP_cons_of_neg (by decide)
    rw [head_split_of_first ha hf, Text.countP_trim Text.countable_not_isBlank] at hw
    simp only [Occurrence.extend, Occurrence.behind, List.singleton_append, hb] at hw
    omega

/-- Clauses are placed well if their bodies are read back and the head holds all of the text in
front of them. -/
theorem placed_of_head (ha : Apart ks) (hf : Solid front) (hk : ∀ c ∈ cs, c.1 ∈ ks)
    (hb : ∀ c ∈ cs, Solid c.2) (hn : (cs.map Prod.fst).Nodup) (hc : cs ≠ [] → Closed front)
    (hw : front.countP (!isBlank ·) ≤
      (split ks (' ' :: front ++ write cs)).head.countP (!isBlank ·))
    (hbs : ∀ k ∈ ks, bodyOf? ks (' ' :: front ++ write cs) k = cs.lookup k) :
    Placed ks front cs := by
  have hab := absent_of_head ha hk hc hw
  rcases cs with _ | ⟨⟨k, b⟩, cs⟩
  · exact hab
  · refine (split_write_iff ha hf hk hb hn).1 ⟨?_, hbs⟩
    have hkk : k ∈ ks := hk (k, b) (by simp)
    rw [head_split_of_first ha (first_place ha hkk hab (hc (List.cons_ne_nil _ _)) b cs), place,
      Text.trim_append_right (by decide), Text.trim_space, hf.trim_eq]

end Clauses

end SqlEdit
