import SqlEdit.Proofs.Statement.Select
import SqlEdit.Proofs.Statement.Update

namespace SqlEdit

namespace Keyword

variable {k : Keyword} {t : Text} {o : Occurrence}

def hasWord (k : Keyword) : Bool :=
  k.words.any (· ≠ [])

theorem eq_nil_or_ne_nil_of_readSpaced? {ws : List Text} {matched rest : Text}
    (h : readSpaced? ws t = some (matched, rest)) : ws = [] ∨ matched ≠ [] := by
  cases ws with
  | nil => exact .inl rfl
  | cons w ws =>
      obtain ⟨front, r, more, hg, -, -, rfl⟩ := readSpaced?_cons_eq_some_iff.1 h
      exact .inr (by simp [hg])

theorem ne_nil_of_hasWord (hk : k.hasWord) {matched rest : Text}
    (h : k.read? t = some (matched, rest)) : matched ≠ [] := by
  cases hw : k.words with
  | nil => simp [hasWord, hw] at hk
  | cons w ws =>
      obtain ⟨front, r, more, h₁, h₂, rfl⟩ := (read?_eq_some_iff_of_words hw).1 h
      by_cases hn : w = []
      · have hne : ws ≠ [] := by
          rintro rfl
          simp [hasWord, hw, hn] at hk
        simp [(eq_nil_or_ne_nil_of_readSpaced? h₂).resolve_left hne]
      · simp [Text.ne_nil_of_readWord? hn h₁]

theorem ne_nil_of_find? (hk : k.hasWord) (h : k.find? t = some o) : o.matched ≠ [] := by
  obtain ⟨s, -, ho⟩ := List.mem_filterMap.1 (List.mem_of_head? h)
  exact ne_nil_of_hasWord hk (at?_eq_some_iff.1 ho).2.2.1

end Keyword

theorem Occurrence.start_lt_stop_span {k : Keyword} {t : Text} {o : Occurrence} (hk : k.hasWord)
    (h : k.find? t = some o) : o.span.start < o.span.stop :=
  Nat.lt_add_of_pos_right (List.length_pos_iff.2 (Keyword.ne_nil_of_find? hk h))

def Span.Disjoint (a b : Span) : Prop :=
  a.stop ≤ b.start ∨ b.stop ≤ a.start

instance (a b : Span) : Decidable (a.Disjoint b) :=
  inferInstanceAs (Decidable (_ ∨ _))

namespace Clauses

def Disjoint (ks : List Keyword) (t : Text) : Prop :=
  ((spans ks t).filterMap id).Pairwise Span.Disjoint

instance (ks : List Keyword) (t : Text) : Decidable (Disjoint ks t) :=
  inferInstanceAs (Decidable (List.Pairwise ..))

def found (ks : List Keyword) (t : Text) : List (Occurrence × Nat) :=
  ks.zipIdx.filterMap fun (k, i) => (k.find? t).map (·, i)

def Ordered (os : List (Occurrence × Nat)) : Prop :=
  os.Pairwise fun p q => p.1.span.stop ≤ q.1.span.start

def firstStart (length : Nat) (os : List (Occurrence × Nat)) : Nat :=
  (os.head?.map (·.1.span.start)).getD length

variable {ks : List Keyword} {t : Text} {os pre post : List (Occurrence × Nat)}
  {p : Occurrence × Nat}

theorem mem_found_iff : p ∈ found ks t ↔ ∃ k, ks[p.2]? = some k ∧ k.find? t = some p.1 := by
  obtain ⟨o, i⟩ := p
  simp only [found, List.mem_filterMap, Prod.exists, List.mk_mem_zipIdx_iff_getElem?,
    Option.map_eq_some_iff, Prod.mk.injEq]
  grind

theorem map_span_found (ks : List Keyword) (t : Text) :
    (found ks t).map (·.1.span) = (spans ks t).filterMap id := by
  have hs : (spans ks t).filterMap id = ks.filterMap fun k => (k.find? t).map (·.span) := by
    rw [spans, List.filterMap_map]
    rfl
  conv at hs => rhs; rw [← List.zipIdx_map_fst 0 ks, List.filterMap_map]
  rw [hs, found, List.map_filterMap]
  refine List.filterMap_congr fun p _ => ?_
  simp only [Function.comp_apply, Option.map_map]
  rfl

theorem mem_starts_iff {n : Nat} : n ∈ starts ks t ↔ ∃ p ∈ found ks t, p.1.span.start = n := by
  rw [← starts_eq, ← map_span_found, List.map_map, List.mem_map]
  rfl

/-- Keywords that do not overlap can be put into the order of the text. -/
theorem exists_ordered (hk : ∀ k ∈ ks, k.hasWord) (hd : Disjoint ks t) :
    ∃ os, os.Perm (found ks t) ∧ Ordered os := by
  let le (p q : Occurrence × Nat) : Bool := p.1.span.start ≤ q.1.span.start
  refine ⟨(found ks t).mergeSort le, List.mergeSort_perm .., ?_⟩
  have hs : ((found ks t).mergeSort le).Pairwise fun p q => le p q := by
    refine List.pairwise_mergeSort (fun p q r hpq hqr => ?_) (fun p q => ?_) _
    · simp only [le, decide_eq_true_eq] at *
      omega
    · simp only [le, Bool.or_eq_true, decide_eq_true_eq]
      omega
  have hf : (found ks t).Pairwise fun p q => p.1.span.Disjoint q.1.span := by
    refine List.pairwise_map.1 (?_ : List.Pairwise Span.Disjoint _)
    rw [map_span_found]
    exact hd
  have hd := ((List.mergeSort_perm (found ks t) le).pairwise_iff Or.symm).2 hf
  refine (hs.and hd).imp_of_mem fun {p q} _ hq ⟨hle, h⟩ => ?_
  obtain ⟨k, hki, hf⟩ := mem_found_iff.1 ((List.mergeSort_perm _ le).mem_iff.1 hq)
  have hlt := Occurrence.start_lt_stop_span (hk k (List.mem_of_getElem? hki)) hf
  have hle := of_decide_eq_true hle
  rcases h with h | h
  · exact h
  · omega

theorem nextStart_eq_firstStart (pre post : List (Occurrence × Nat)) {starts : List Nat}
    {place length : Nat}
    (hs : ∀ n, n ∈ starts ↔ ∃ p ∈ pre ++ post, p.1.span.start = n)
    (hpre : ∀ p ∈ pre, p.1.span.start < place) (hpost : ∀ p ∈ post, place ≤ p.1.span.start)
    (ho : post.Pairwise fun p q => p.1.span.start ≤ q.1.span.start) :
    nextStart starts place length = firstStart length post := by
  have hm (n : Nat) : n ∈ starts.filter (place ≤ ·) ↔ ∃ p ∈ post, p.1.span.start = n := by
    rw [List.mem_filter, hs, decide_eq_true_eq]
    constructor
    · rintro ⟨⟨p, hp, rfl⟩, hle⟩
      rcases List.mem_append.1 hp with hp | hp
      · exact absurd (hpre p hp) (Nat.not_lt.2 hle)
      · exact ⟨p, hp, rfl⟩
    · rintro ⟨p, hp, rfl⟩
      exact ⟨⟨p, List.mem_append_right _ hp, rfl⟩, hpost p hp⟩
  rw [nextStart, firstStart]
  congr 1
  cases post with
  | nil =>
      rw [List.head?_nil, Option.map_none, List.min?_eq_none_iff]
      refine List.eq_nil_iff_forall_not_mem.2 fun n hn => ?_
      obtain ⟨p, hp, -⟩ := (hm n).1 hn
      exact List.not_mem_nil hp
  | cons q post =>
      rw [List.head?_cons, Option.map_some, List.min?_eq_some_iff]
      refine ⟨(hm _).2 ⟨q, List.mem_cons_self, rfl⟩, fun n hn => ?_⟩
      obtain ⟨p, hp, rfl⟩ := (hm n).1 hn
      rcases List.mem_cons.1 hp with rfl | hp
      · exact Nat.le_refl _
      · exact (List.pairwise_cons.1 ho).1 p hp

/-- A keyword in a text and what follows it up to the next one. The keyword is known by its number
among those asked for. -/
structure Tile where
  index : Nat
  matched : Text
  gap : Text

def Tile.text (τ : Tile) : Text :=
  τ.matched ++ τ.gap

/-- Whether tiles follow one another to the end of a text, behind what stands in front of them and
each at the first occurrence of its keyword. -/
def Laid (ks : List Keyword) (t : Text) : Text → List Tile → Prop
  | front, [] => front = t
  | front, τ :: tiles =>
    (∃ k after, ks[τ.index]? = some k ∧ k.find? t = some ⟨front, τ.matched, after⟩) ∧
      Laid ks t (front ++ τ.text) tiles

structure Tiling (ks : List Keyword) (t front : Text) (tiles : List Tile) : Prop where
  text : front ++ tiles.flatMap Tile.text = t
  laid : Laid ks t front tiles
  complete : ∀ i k, ks[i]? = some k → (k.find? t).isSome → i ∈ tiles.map Tile.index
  once : (tiles.map Tile.index).Nodup

theorem Laid.text_eq {front : Text} {tiles : List Tile} (h : Laid ks t front tiles) :
    front ++ tiles.flatMap Tile.text = t := by
  induction tiles generalizing front with
  | nil => rwa [List.flatMap_nil, List.append_nil]
  | cons τ tiles ih => rw [List.flatMap_cons, ← List.append_assoc, ih h.2]

def tilesOf (length : Nat) : List (Occurrence × Nat) → List Tile
  | [] => []
  | (o, i) :: os =>
    ⟨i, o.matched, o.after.take (firstStart length os - o.span.stop)⟩ :: tilesOf length os

theorem map_index_tilesOf (length : Nat) (os : List (Occurrence × Nat)) :
    (tilesOf length os).map Tile.index = os.map Prod.snd := by
  induction os with
  | nil => rfl
  | cons p os ih => rw [tilesOf, List.map_cons, ih, List.map_cons]

theorem of_mem_tilesOf {length : Nat} {τ : Tile} (h : τ ∈ tilesOf length os) :
    ∃ pre o post, os = pre ++ (o, τ.index) :: post ∧
      τ.gap = o.after.take (firstStart length post - o.span.stop) := by
  induction os with
  | nil => simp [tilesOf] at h
  | cons p os ih =>
      rw [tilesOf, List.mem_cons] at h
      rcases h with rfl | h
      · exact ⟨[], p.1, os, rfl, rfl⟩
      · obtain ⟨pre, o, post, rfl, hg⟩ := ih h
        exact ⟨p :: pre, o, post, rfl, hg⟩

theorem stop_le_firstStart {o : Occurrence} {i : Nat} (ho : Ordered ((o, i) :: os))
    (ht : o.text = t) : o.span.stop ≤ firstStart t.length os := by
  cases os with
  | nil =>
      rw [← ht, Occurrence.text, firstStart, List.length_append, List.length_append]
      exact Nat.le_add_right ..
  | cons q os => exact (List.pairwise_cons.1 ho).1 q List.mem_cons_self

theorem take_firstStart {o : Occurrence} {i : Nat} (ho : Ordered ((o, i) :: os)) (ht : o.text = t) :
    t.take (firstStart t.length os) =
      o.before ++ o.matched ++ o.after.take (firstStart t.length os - o.span.stop) := by
  have hle := stop_le_firstStart ho ht
  generalize firstStart t.length os = n at hle ⊢
  rw [Occurrence.span, ← List.length_append] at hle
  rw [← ht, Occurrence.text, List.take_append, List.take_of_length_le hle, Occurrence.span,
    List.length_append]

theorem laid_tilesOf (ho : Ordered os) (hf : ∀ p ∈ os, p ∈ found ks t) :
    Laid ks t (t.take (firstStart t.length os)) (tilesOf t.length os) := by
  induction os with
  | nil => exact List.take_length
  | cons p os ih =>
      obtain ⟨o, i⟩ := p
      obtain ⟨k, hk, hkf⟩ := mem_found_iff.1 (hf (o, i) List.mem_cons_self)
      have ht := Keyword.text_of_find? hkf
      have hb : t.take (firstStart t.length ((o, i) :: os)) = o.before := by
        conv_lhs => rw [← ht]
        rw [Occurrence.text, List.append_assoc]
        exact List.take_left
      rw [hb, tilesOf]
      refine ⟨⟨k, o.after, hk, hkf⟩, ?_⟩
      rw [Tile.text, ← List.append_assoc, ← take_firstStart ho ht]
      exact ih (List.pairwise_cons.1 ho).2 fun q hq => hf q (List.mem_cons_of_mem _ hq)

theorem Ordered.starts (hk : ∀ k ∈ ks, k.hasWord) (ho : Ordered os) (hf : ∀ p ∈ os, p ∈ found ks t) :
    os.Pairwise fun p q => p.1.span.start ≤ q.1.span.start := by
  refine List.Pairwise.imp_of_mem (fun {p q} hp _ hle => ?_) ho
  obtain ⟨k, hki, hkf⟩ := mem_found_iff.1 (hf p hp)
  exact (Occurrence.start_lt_stop_span (hk k (List.mem_of_getElem? hki)) hkf).le.trans hle

/-- The clause of a keyword is the gap behind it. -/
theorem bodyOf?_of_ordered (hk : ∀ k ∈ ks, k.hasWord) (ho : Ordered os)
    (hp : os.Perm (found ks t)) {o : Occurrence} {i : Nat} (he : os = pre ++ (o, i) :: post)
    {k : Keyword} (hki : ks[i]? = some k) :
    bodyOf? ks t k = nonempty? (Text.trim (o.after.take (firstStart t.length post - o.span.stop))) := by
  subst he
  have hmem : (o, i) ∈ found ks t := hp.mem_iff.1 (by simp)
  obtain ⟨k', hki', hkf⟩ := mem_found_iff.1 hmem
  obtain rfl : k = k' := Option.some.inj (hki.symm.trans hki')
  have ht := Keyword.text_of_find? hkf
  have hlt := Occurrence.start_lt_stop_span (hk k (List.mem_of_getElem? hki)) hkf
  obtain ⟨hpre, hpost, hcross⟩ := List.pairwise_append.1 ho
  have hst := ho.starts hk fun p hm => hp.mem_iff.1 hm
  have hn : nextStart (starts ks t) o.span.stop t.length = firstStart t.length post := by
    refine nextStart_eq_firstStart (pre ++ [(o, i)]) post (fun n => ?_) (fun p hm => ?_)
      (List.pairwise_cons.1 hpost).1 (List.pairwise_cons.1 (List.pairwise_append.1 hst).2.1).2
    · rw [mem_starts_iff, List.append_assoc, List.singleton_append]
      simp only [hp.mem_iff]
    · rcases List.mem_append.1 hm with hm | hm
      · exact ((List.pairwise_append.1 hst).2.2 p hm (o, i) List.mem_cons_self).trans_lt hlt
      · rw [List.mem_singleton.1 hm]
        exact hlt
  have hdrop (gap : Text) : (o.before ++ o.matched ++ gap).drop o.span.stop = gap :=
    List.drop_left' List.length_append
  rw [bodyOf?, hkf, Option.bind_some, hn, slice?, take_firstStart hpost ht, hdrop, nonempty?]

theorem disjoint_of_apart (ha : Keyword.Apart ks) (hn : ks.Nodup) (t : Text) : Disjoint ks t := by
  rw [Disjoint, spans, List.filterMap_map, List.pairwise_filterMap]
  refine hn.imp_of_mem fun {k l} hk hl hne a hka b hlb => ?_
  obtain ⟨o, ho, rfl⟩ := Option.map_eq_some_iff.1 hka
  obtain ⟨p, hp, rfl⟩ := Option.map_eq_some_iff.1 hlb
  have hm := List.mem_of_head? ho
  rw [Keyword.occurrences_around ha hk hl (List.mem_of_head? hp), if_neg hne, List.nil_append,
    List.mem_append] at hm
  rcases hm with hm | hm
  · obtain ⟨q, hq, rfl⟩ := List.mem_map.1 hm
    refine .inl ?_
    have hle := congrArg List.length (Keyword.of_mem_occurrences hq).1
    rw [Occurrence.text, List.length_append, List.length_append] at hle
    simp only [Occurrence.span, Occurrence.extend]
    omega
  · obtain ⟨q, -, rfl⟩ := List.mem_map.1 hm
    refine .inr ?_
    simp only [Occurrence.span, Occurrence.behind, List.length_append]
    omega

theorem nodup_map_snd_found (ks : List Keyword) (t : Text) : ((found ks t).map Prod.snd).Nodup := by
  have hn : (ks.zipIdx.map Prod.snd).Nodup := by
    rw [List.zipIdx_map_snd]
    exact List.nodup_range' 1
  rw [List.Nodup, List.pairwise_map] at hn ⊢
  rw [found, List.pairwise_filterMap]
  refine hn.imp fun hne p hp q hq => ?_
  obtain ⟨o, -, rfl⟩ := Option.map_eq_some_iff.1 hp
  obtain ⟨o', -, rfl⟩ := Option.map_eq_some_iff.1 hq
  exact hne

theorem tiling_tilesOf (hp : os.Perm (found ks t)) (ho : Ordered os) :
    Tiling ks t (t.take (firstStart t.length os)) (tilesOf t.length os) := by
  have hl := laid_tilesOf ho fun p hm => hp.mem_iff.1 hm
  refine ⟨hl.text_eq, hl, fun i k hki hf => ?_, ?_⟩
  · obtain ⟨o, hf⟩ := Option.isSome_iff_exists.1 hf
    rw [map_index_tilesOf]
    exact List.mem_map.2 ⟨(o, i), hp.mem_iff.2 (mem_found_iff.2 ⟨k, hki, hf⟩), rfl⟩
  · rw [map_index_tilesOf, (hp.map Prod.snd).nodup_iff]
    exact nodup_map_snd_found ks t

/-- Clauses tile a text. Keywords that do not overlap are put into the order of the text: what
stands before the first is the head, what stands between one and the next is the clause of the
former, and a keyword that is not found has none. The keywords of a query and those of an update
never overlap. -/
theorem split_tiles :
    (∀ ks t, (∀ k ∈ ks, k.hasWord) → Disjoint ks t → ∃ front tiles, Tiling ks t front tiles ∧
      (split ks t).head = Text.trim front ∧
      (∀ τ ∈ tiles, (split ks t).bodies[τ.index]? = some (nonempty? (Text.trim τ.gap))) ∧
      ∀ i < ks.length, i ∉ tiles.map Tile.index → (split ks t).bodies[i]? = some none) ∧
    (∀ t, Disjoint Select.clauseKeywords t) ∧ ∀ t, Disjoint [.setFields, .condition] t := by
  refine ⟨fun ks t hk hd => ?_, disjoint_of_apart Select.apart Select.nodup_clauseKeywords,
    disjoint_of_apart Update.apart (by decide)⟩
  obtain ⟨os, hp, ho⟩ := exists_ordered hk hd
  have htile := tiling_tilesOf hp ho
  refine ⟨_, _, htile, ?_, fun τ hτ => ?_, fun i hi hn => ?_⟩
  · rw [split_eq, nextStart_eq_firstStart [] os]
    · intro n
      rw [mem_starts_iff]
      simp only [List.nil_append, hp.mem_iff]
    · exact fun _ h => absurd h List.not_mem_nil
    · exact fun p _ => Nat.zero_le _
    · exact ho.starts hk fun p hm => hp.mem_iff.1 hm
  · obtain ⟨pre, o, post, he, hg⟩ := of_mem_tilesOf hτ
    have hmem : (o, τ.index) ∈ found ks t := hp.mem_iff.1 (by simp [he])
    obtain ⟨k, hki, -⟩ := mem_found_iff.1 hmem
    rw [split_eq, List.getElem?_map, hki, Option.map_some, bodyOf?_of_ordered hk ho hp he hki, hg]
  · have hki := List.getElem?_eq_getElem hi
    have hf : ks[i].find? t = none :=
      Option.not_isSome_iff_eq_none.1 fun h => hn (htile.complete i _ hki h)
    rw [split_eq, List.getElem?_map, hki, Option.map_some, bodyOf?, hf, Option.bind_none]

theorem split_tiles_of_order_first :
    (∀ k ∈ [Keyword.condition, .orderBy, .limit], k.hasWord) ∧
      Disjoint [.condition, .orderBy, .limit] "t ORDER  BY x WHERE".toList ∧
      ∃ front tiles,
        Tiling [.condition, .orderBy, .limit] "t ORDER  BY x WHERE".toList front tiles ∧
        (split [.condition, .orderBy, .limit] "t ORDER  BY x WHERE".toList).head =
          Text.trim front := by
  have hd : Disjoint [.condition, .orderBy, .limit] "t ORDER  BY x WHERE".toList := by decide
  obtain ⟨front, tiles, htile, hhead, -⟩ := split_tiles.1 _ _ (by decide) hd
  exact ⟨by decide, hd, front, tiles, htile, hhead⟩

end Clauses

end SqlEdit
