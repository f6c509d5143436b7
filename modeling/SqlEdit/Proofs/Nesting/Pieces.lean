import SqlEdit.Proofs.Nesting.Closed

namespace SqlEdit

open Text (Closed)

namespace Nesting

variable {p : Char → Bool} {n : Nesting}

def Free (p : Char → Bool) (n : Nesting) (t : Text) : Prop :=
  n.cut p t = [t]

instance (p : Char → Bool) (n : Nesting) (t : Text) : Decidable (Free p n t) :=
  inferInstanceAs (Decidable (_ = _))

@[simp]
theorem free_nil : Free p n [] := rfl

theorem free_cons {c : Char} {t : Text} :
    Free p n (c :: t) ↔ (n.isTop && p c) = false ∧ Free p (n.step c) t := by
  rw [Free, cut]
  obtain ⟨s, ss, hs⟩ := List.exists_cons_of_ne_nil (cut_ne_nil p (n.step c) t)
  cases h : n.isTop && p c with
  | true => simp
  | false => simp [Free, hs]

theorem free_append {s t : Text} : Free p n (s ++ t) ↔ Free p n s ∧ Free p (n.after s) t := by
  induction s generalizing n with
  | nil => simp
  | cons c s ih => rw [List.cons_append, free_cons, free_cons, ih, after_cons, and_assoc]

/-- A separator behind a text that leaves nothing open parts the stretches before and after it. -/
theorem cut_append_cons {s : Text} {c : Char} (hs : n.after s = top) (hc : p c) (hp : isPlain c)
    (t : Text) : n.cut p (s ++ c :: t) = n.cut p s ++ top.cut p t := by
  induction s generalizing n with
  | nil =>
      obtain rfl : n = top := hs
      have hsep : top.isTop && p c := Bool.and_eq_true_iff.2 ⟨rfl, hc⟩
      rw [List.nil_append, cut, cut, if_pos hsep, step_of_isPlain hp]
      rfl
  | cons d s ih =>
      rw [List.cons_append, cut, cut, ih hs]
      split
      · rfl
      · obtain ⟨u, us, hu⟩ := List.exists_cons_of_ne_nil (cut_ne_nil p (n.step d) s)
        rw [hu]
        rfl

theorem cut_append_separator {s t : Text} {c : Char} (hs : Free p n s) (ht : n.after s = top)
    (hc : p c) (hp : isPlain c) : n.cut p (s ++ c :: t) = s :: top.cut p t := by
  rw [cut_append_cons ht hc hp, hs, List.singleton_append]

theorem eq_of_cut_singleton {s t : Text} (h : n.cut p t = [s]) : t = s := by
  induction t generalizing n s with
  | nil => simpa [cut] using h
  | cons c t ih =>
      rw [cut] at h
      obtain ⟨v, vs, hv⟩ := List.exists_cons_of_ne_nil (cut_ne_nil p (n.step c) t)
      split at h
      · simp [hv] at h
      · rw [hv, List.modifyHead_cons] at h
        obtain ⟨rfl, rfl⟩ := List.cons.inj h
        rw [ih hv]

theorem exists_of_cut_cons_cons (hp : ∀ c, p c → isPlain c) {t s u : Text} {us : List Text}
    (h : n.cut p t = s :: u :: us) :
    Free p n s ∧ n.after s = top ∧ ∃ c r, p c ∧ t = s ++ c :: r ∧ top.cut p r = u :: us := by
  induction t generalizing n s with
  | nil => simp [cut] at h
  | cons c t ih =>
      rw [cut] at h
      cases hc : n.isTop && p c with
      | true =>
          obtain ⟨hn, hpc⟩ := Bool.and_eq_true_iff.1 hc
          rw [hc, if_pos rfl] at h
          obtain ⟨rfl, hr⟩ := List.cons.inj h
          rw [step_of_isPlain (hp c hpc), isTop_iff.1 hn] at hr
          exact ⟨free_nil, isTop_iff.1 hn, c, t, hpc, rfl, hr⟩
      | false =>
          obtain ⟨v, vs, hv⟩ := List.exists_cons_of_ne_nil (cut_ne_nil p (n.step c) t)
          rw [hc, if_neg Bool.false_ne_true, hv, List.modifyHead_cons] at h
          obtain ⟨rfl, rfl⟩ := List.cons.inj h
          obtain ⟨hf, ha, d, r, hd, rfl, hr⟩ := ih hv
          exact ⟨free_cons.2 ⟨hc, hf⟩, ha, d, r, hd, rfl, hr⟩

/-- Texts that keep their borders when they stand one behind another with separators between
them. -/
structure Pieces (p : Char → Bool) (ts : List Text) : Prop where
  free : ∀ t ∈ ts, Free p top t
  closed : ∀ t ∈ ts.dropLast, Closed t

theorem pieces_nil : Pieces p [] :=
  ⟨by simp, by simp⟩

theorem pieces_singleton {t : Text} : Pieces p [t] ↔ Free p top t :=
  ⟨fun h => h.free t (by simp), fun h => ⟨by simpa using h, by simp⟩⟩

theorem pieces_cons {s : Text} {ts : List Text} :
    Pieces p (s :: ts) ↔ Free p top s ∧ (ts ≠ [] → Closed s) ∧ Pieces p ts := by
  cases ts with
  | nil => simp [pieces_singleton, pieces_nil]
  | cons t ts =>
      constructor
      · intro h
        refine ⟨h.free s (by simp), fun _ => h.closed s (by simp), ?_, ?_⟩
        · exact fun u hu => h.free u (List.mem_cons_of_mem _ hu)
        · exact fun u hu => h.closed u (List.mem_cons_of_mem _ hu)
      · rintro ⟨hf, hc, h⟩
        constructor
        · intro u hu
          rcases List.mem_cons.1 hu with rfl | hu
          · exact hf
          · exact h.free u hu
        · intro u hu
          rw [List.dropLast_cons_cons, List.mem_cons] at hu
          rcases hu with rfl | hu
          · exact hc (List.cons_ne_nil _ _)
          · exact h.closed u hu

theorem pieces_append {ss ts : List Text} :
    Pieces p (ss ++ ts) ↔ Pieces p ss ∧ Pieces p ts ∧ (ts ≠ [] → ∀ s ∈ ss, Closed s) := by
  induction ss with
  | nil => simp [pieces_nil]
  | cons s ss ih =>
      rw [List.cons_append, pieces_cons, ih, pieces_cons]
      simp only [List.forall_mem_cons, List.append_eq_nil_iff, ne_eq, not_and]
      grind

theorem dropLast_sublist_dropLast {α : Type} {as bs : List α} (h : as.Sublist bs) :
    as.dropLast.Sublist bs.dropLast := by
  rw [← List.reverse_sublist, ← List.tail_reverse, ← List.tail_reverse]
  exact h.reverse.tail

theorem Pieces.sublist {ss ts : List Text} (h : Pieces p ts) (hs : ss.Sublist ts) :
    Pieces p ss :=
  ⟨fun t ht => h.free t (hs.subset ht),
    fun t ht => h.closed t ((dropLast_sublist_dropLast hs).subset ht)⟩

/-- Changing the pieces one by one keeps the borders if each stays free and closed. -/
theorem Pieces.map {ts : List Text} (h : Pieces p ts) {f : Text → Text}
    (hf : ∀ t ∈ ts, Free p top t → Free p top (f t)) (hc : ∀ t ∈ ts, Closed t → Closed (f t)) :
    Pieces p (ts.map f) := by
  constructor
  · intro u hu
    obtain ⟨t, ht, rfl⟩ := List.mem_map.1 hu
    exact hf t ht (h.free t ht)
  · intro u hu
    rw [← List.map_dropLast] at hu
    obtain ⟨t, ht, rfl⟩ := List.mem_map.1 hu
    exact hc t (List.dropLast_subset _ ht) (h.closed t ht)

theorem pieces_cut (hp : ∀ c, p c → isPlain c) (t : Text) : Pieces p (top.cut p t) := by
  induction hl : top.cut p t generalizing t with
  | nil => exact absurd hl (cut_ne_nil p top t)
  | cons s ss ih =>
      cases ss with
      | nil =>
          have ht := eq_of_cut_singleton hl
          subst ht
          exact pieces_singleton.2 hl
      | cons u us =>
          obtain ⟨hf, hc, c, r, -, -, hr⟩ := exists_of_cut_cons_cons hp hl
          exact pieces_cons.2 ⟨hf, fun _ => hc, hr ▸ ih r hr⟩

theorem cut_join {c : Char} {ts : List Text} (hc : p c) (hp : isPlain c) (hne : ts ≠ [])
    (h : Pieces p ts) : top.cut p (Text.join [c] ts) = ts := by
  induction ts with
  | nil => exact absurd rfl hne
  | cons t ts ih =>
      cases ts with
      | nil => rw [Text.join, List.intercalate_singleton]; exact pieces_singleton.1 h
      | cons u us =>
          obtain ⟨hf, hcl, h⟩ := pieces_cons.1 h
          rw [Text.join, List.intercalate_cons_cons, List.append_assoc, List.singleton_append,
            cut_append_separator hf (hcl (List.cons_ne_nil _ _)) hc hp, ← Text.join, ih (List.cons_ne_nil _ _) h]

theorem free_of_forall {t : Text} (h : ∀ c ∈ t, p c = false) : Free p n t := by
  induction t generalizing n with
  | nil => exact free_nil
  | cons c t ih =>
      obtain ⟨hc, ht⟩ := List.forall_mem_cons.1 h
      exact free_cons.2 ⟨by simp [hc], ih ht⟩

theorem free_of_isBlank {t : Text} (h : Text.isBlank t) (hp : ∀ c, p c → isBlank c = false) :
    Free p n t := by
  refine free_of_forall fun c hm => ?_
  cases hc : p c with
  | false => rfl
  | true => exact absurd (List.all_eq_true.1 h c hm) (by simp [hp c hc])

theorem free_trim (hp : ∀ c, p c → isBlank c = false) {t : Text} :
    Free p top (Text.trim t) ↔ Free p top t := by
  obtain ⟨front, back, hf, hb, he⟩ := Text.exists_eq_trim t
  have h : Free p top t ↔ Free p top (front ++ Text.trim t ++ back) := by rw [← he]
  rw [h, free_append, free_append, after_of_isBlank hf]
  simp [free_of_isBlank hf hp, free_of_isBlank hb hp]

theorem free_trimEnd (hp : ∀ c, p c → isBlank c = false) {t : Text} :
    Free p top (Text.trimEnd t) ↔ Free p top t := by
  obtain ⟨back, hb, he⟩ := Text.exists_eq_trimEnd t
  have h : Free p top t ↔ Free p top (Text.trimEnd t ++ back) := by rw [← he]
  rw [h, free_append]
  simp [free_of_isBlank hb hp]

theorem Free.trim {t : Text} (h : Free p top t) : Free p top (Text.trim t) := by
  obtain ⟨front, back, hf, -, he⟩ := Text.exists_eq_trim t
  rw [he, free_append, free_append, after_of_isBlank hf] at h
  exact h.1.2

theorem Pieces.trim {ts : List Text} (h : Pieces p ts) : Pieces p (ts.map Text.trim) :=
  h.map (fun _ _ => Free.trim) (fun _ _ => Text.closed_trim.2)

end Nesting

namespace Text

open Nesting (Free Pieces isPlain)

theorem join_cons_cons (separator s t : Text) (ts : List Text) :
    join separator (s :: t :: ts) = s ++ separator ++ join separator (t :: ts) := by
  rw [join, List.intercalate_cons_cons, join]

theorem join_cons (separator t : Text) (ts : List Text) :
    join separator (t :: ts) = t ++ ts.flatMap (separator ++ ·) := by
  induction ts generalizing t with
  | nil => simp [join]
  | cons u us ih => rw [join_cons_cons, ih, List.flatMap_cons, List.append_assoc, List.append_assoc]

theorem closed_join {separator : Text} {ts : List Text} (hs : Closed separator)
    (h : ∀ t ∈ ts, Closed t) : Closed (join separator ts) := by
  induction ts with
  | nil => rfl
  | cons t ts ih =>
      obtain ⟨ht, hts⟩ := List.forall_mem_cons.1 h
      cases ts with
      | nil => rwa [join, List.intercalate_singleton]
      | cons u us =>
          rw [join_cons_cons]
          exact (ht.append hs).append (ih hts)

theorem free_join {q : Char → Bool} {separator : Text} {ts : List Text} (hs : Closed separator)
    (hq : Free q .top separator) (h : Pieces q ts) : Free q .top (join separator ts) := by
  induction ts with
  | nil => exact Nesting.free_nil
  | cons t ts ih =>
      obtain ⟨hf, hc, h⟩ := Nesting.pieces_cons.1 h
      cases ts with
      | nil => rwa [join, List.intercalate_singleton]
      | cons u us =>
          have hc := hc (List.cons_ne_nil _ _)
          rw [join_cons_cons, Nesting.free_append, Nesting.free_append, hc.append hs, hc]
          exact ⟨⟨hf, hq⟩, ih h⟩

theorem join_pair (c d : Char) (t : Text) (ts : List Text) :
    join [c, d] (t :: ts) = join [c] (t :: ts.map (d :: ·)) := by
  induction ts generalizing t with
  | nil => simp [join]
  | cons u us ih =>
      rw [join_cons_cons, List.map_cons, join_cons_cons, ih]
      cases us with
      | nil => simp [join]
      | cons v vs => simp [join_cons_cons]

theorem pieces_splitItems {c : Char} (hc : isPlain c) (t : Text) :
    Pieces (· == c) (t.splitItems c) := by
  rw [splitItems]
  split
  · exact Nesting.pieces_nil
  · exact (Nesting.pieces_cut (forall_of_beq hc) t).trim

theorem trim_trim (t : Text) : trim (trim t) = trim t := by
  by_cases h : isBlank t
  · rw [trim_eq_nil_iff.2 h]; rfl
  · exact (solid_trim h).trim_eq

theorem exists_of_mem_splitItems {c : Char} {t u : Text} (h : u ∈ t.splitItems c) :
    ∃ v ∈ Nesting.top.cut (· == c) t, trim v = u := by
  rw [splitItems] at h
  split at h
  · exact absurd h List.not_mem_nil
  · exact List.mem_map.1 h

theorem trim_of_mem_splitItems {c : Char} {t u : Text} (h : u ∈ t.splitItems c) :
    trim u = u := by
  obtain ⟨v, -, rfl⟩ := exists_of_mem_splitItems h
  exact trim_trim v

/-- Texts with separators and spaces between them are read back, unless they are all blank. -/
theorem splitItems_join {c : Char} {ts : List Text} (hc : isPlain c) (hne : c ≠ ' ')
    (h : Pieces (· == c) ts) (ht : ∀ t ∈ ts, trim t = t)
    (hj : ¬ isBlank (join [c, ' '] ts)) : (join [c, ' '] ts).splitItems c = ts := by
  cases ts with
  | nil => exact absurd rfl hj
  | cons t ts =>
      have hs : (' ' == c) = false := beq_eq_false_iff_ne.2 hne.symm
      have hp : Pieces (· == c) (t :: ts.map (' ' :: ·)) := by
        obtain ⟨hf, hcl, h⟩ := Nesting.pieces_cons.1 h
        refine Nesting.pieces_cons.2 ⟨hf, fun he => hcl (by simpa using he), ?_⟩
        refine h.map (fun u _ hu => ?_) (fun u _ => Closed.cons (by decide))
        exact Nesting.free_cons.2 ⟨by simp [hs], hu⟩
      rw [splitItems, if_neg hj, join_pair, Nesting.cut_join (by simp) hc (List.cons_ne_nil _ _) hp]
      rw [List.map_cons, List.map_map, ht t (by simp)]
      refine congrArg (t :: ·) ?_
      conv => rhs; rw [← List.map_id ts]
      refine List.map_congr_left fun u hu => ?_
      exact (trim_space u).trans (ht u (List.mem_cons_of_mem _ hu))

theorem pieces_splitWords (t : Text) : Pieces isSpace t.splitWords :=
  (Nesting.pieces_cut (fun _ => isPlain_of_isSpace) t).sublist List.filter_sublist

theorem ne_nil_of_mem_splitWords {t w : Text} (h : w ∈ t.splitWords) : w ≠ [] := by
  simpa using (List.mem_filter.1 h).2

theorem splitWords_of_free {w : Text} (hne : w ≠ []) (h : Nesting.Free isSpace .top w) :
    w.splitWords = [w] := by
  rw [splitWords, h, List.filter_cons_of_pos (by simpa using hne), List.filter_nil]

theorem splitWords_append_cons {s : Text} {c : Char} (hs : Closed s) (hc : isSpace c) (t : Text) :
    (s ++ c :: t).splitWords = s.splitWords ++ t.splitWords := by
  rw [splitWords, Nesting.cut_append_cons hs hc (isPlain_of_isSpace hc), List.filter_append]
  rfl

theorem splitWords_join {ws : List Text} (h : Pieces isSpace ws) (hne : ∀ w ∈ ws, w ≠ []) :
    (join [' '] ws).splitWords = ws := by
  cases ws with
  | nil => rfl
  | cons w ws =>
      rw [splitWords, Nesting.cut_join (by decide) (by decide) (List.cons_ne_nil _ _) h]
      exact List.filter_eq_self.2 (by simpa using hne)

end Text

end SqlEdit
