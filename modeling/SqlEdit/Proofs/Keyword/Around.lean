import SqlEdit.Proofs.Keyword.Append
import SqlEdit.Proofs.Nesting.Pieces

namespace SqlEdit

open Text (Closed)

deriving instance DecidableEq for Keyword

def Text.lead? (w : Text) : Option Char :=
  w.head?.map Char.toLower

theorem Text.lead?_append {s t : Text} (hs : s ≠ []) : lead? (s ++ t) = lead? s := by
  obtain ⟨c, u, rfl⟩ := List.exists_cons_of_ne_nil hs
  rfl

theorem Text.lead?_of_readWord? {w t front rest : Text} (hw : w ≠ [])
    (h : readWord? w t = some (front, rest)) : lead? t = lead? w := by
  obtain ⟨rfl, hf⟩ := readWord?_eq_some_iff.1 h
  rw [lead?_append (ne_nil_of_readWord? hw h), lead?, lead?, ← List.head?_map, ← List.head?_map]
  exact congrArg List.head? (eq_of_beq hf).symm

theorem Nesting.head?_of_free {p : Char → Bool} {before t : Text} {n : Nesting} (h : Free p n t) :
    ∀ place ∈ sitesAfter before n t, place.nesting.isTop → place.after.head?.any p = false := by
  induction t generalizing before n with
  | nil => simp [sitesAfter]
  | cons c t ih =>
      obtain ⟨hc, ht⟩ := free_cons.1 h
      intro place hp htop
      rw [sitesAfter, List.mem_cons] at hp
      rcases hp with rfl | hp
      · simpa [htop] using hc
      · exact ih ht place hp htop

namespace Keyword

def lead? (k : Keyword) : Option Char :=
  k.words.head?.bind Text.lead?

def laterLeads (k : Keyword) : List (Option Char) :=
  k.words.tail.map Text.lead?

/-- Keywords of which none overlaps another or itself. -/
structure Apart (ks : List Keyword) : Prop where
  lettered : ∀ k ∈ ks, k.isLettered
  leads : ∀ k ∈ ks, ∀ l ∈ ks, k.lead? ∉ l.laterLeads ∧ (k.lead? = l.lead? → k = l)

theorem apart_iff {ks : List Keyword} :
    Apart ks ↔ (∀ k ∈ ks, k.isLettered) ∧
      ∀ k ∈ ks, ∀ l ∈ ks, k.lead? ∉ l.laterLeads ∧ (k.lead? = l.lead? → k = l) :=
  ⟨fun h => ⟨h.lettered, h.leads⟩, fun h => ⟨h.1, h.2⟩⟩

instance (ks : List Keyword) : Decidable (Apart ks) :=
  decidable_of_iff' _ apart_iff

theorem Apart.subset {ks ls : List Keyword} (h : Apart ks) (hs : ls ⊆ ks) : Apart ls :=
  ⟨fun k hk => h.lettered k (hs hk), fun k hk l hl => h.leads k (hs hk) l (hs hl)⟩

variable {k l : Keyword} {ks : List Keyword} {s t : Text}

theorem lead?_of_read? (hk : k.isLettered) {matched rest : Text}
    (h : k.read? t = some (matched, rest)) : Text.lead? t = k.lead? := by
  obtain ⟨w, ws, he, hw⟩ := of_isLettered hk
  obtain ⟨front, r, more, h₁, -, -⟩ := (read?_eq_some_iff_of_words he).1 h
  rw [Text.lead?_of_readWord? (hw w (by simp)).1 h₁, lead?, he]
  rfl

theorem read?_eq_none_of_lead? (hk : k.isLettered) (h : Text.lead? t ≠ k.lead?) :
    k.read? t = none := by
  cases hr : k.read? t with
  | none => rfl
  | some p => exact absurd (lead?_of_read? hk hr) h

theorem ne_nil_of_read? (hk : k.isLettered) {matched rest : Text}
    (h : k.read? t = some (matched, rest)) : matched ≠ [] := by
  rintro rfl
  exact absurd (isAlpha_getLast?_of_read? hk h) (by decide)

structure OccursAt (k : Keyword) (o : Occurrence) : Prop where
  closed : Closed o.before
  border_before : o.before.getLast?.any isWordChar = false
  read : k.read? (o.matched ++ o.after) = some (o.matched, o.after)
  border_after : o.after.head?.any isWordChar = false

theorem mem_topSites {before after : Text} (hb : Closed before) (ha : after ≠ []) :
    ⟨before.reverse, .top, after⟩ ∈ topSites (before ++ after) := by
  obtain ⟨c, u, rfl⟩ := List.exists_cons_of_ne_nil ha
  rw [topSites_append hb, List.mem_append]
  refine .inr (List.mem_map.2 ⟨⟨[], .top, c :: u⟩, ?_, rfl⟩)
  rw [topSites, sitesAfter, List.filter_cons_of_pos (by rfl)]
  exact List.mem_cons_self

theorem mem_occurrences_iff (hk : k.isLettered) {o : Occurrence} :
    o ∈ k.occurrences t ↔ o.text = t ∧ k.OccursAt o := by
  constructor
  · intro h
    obtain ⟨site, hs, ho⟩ := List.mem_filterMap.1 h
    obtain ⟨rfl, hc⟩ := of_mem_occurrences h
    obtain ⟨hb, he, hr, ha⟩ := at?_eq_some_iff.1 ho
    refine ⟨rfl, hc, ?_, ?_, ha⟩
    · rwa [← he, List.getLast?_reverse]
    · rwa [← eq_of_read? hr]
  · rintro ⟨rfl, h⟩
    have hne : o.matched ++ o.after ≠ [] := by simp [ne_nil_of_read? hk h.read]
    rw [Occurrence.text, List.append_assoc]
    refine List.mem_filterMap.2 ⟨_, mem_topSites h.closed hne, at?_eq_some_iff.2 ?_⟩
    exact ⟨by rw [List.head?_reverse, h.border_before], List.reverse_reverse _, h.read, h.border_after⟩

theorem at?_eq_none_of_word {before r : Text} {n : Nesting} (hb : before.head?.any isWordChar)
    (ht : t.all isWordChar) : ∀ place ∈ sitesAfter before n t, k.at? (place.extend r) = none := by
  induction t generalizing before n with
  | nil => simp [sitesAfter]
  | cons c t ih =>
      obtain ⟨hc, ht⟩ := Bool.and_eq_true_iff.1 ht
      intro place hp
      rw [sitesAfter, List.mem_cons] at hp
      rcases hp with rfl | hp
      · rw [at?, if_pos (by exact hb)]
      · have hb : (c :: before).head?.any isWordChar := hc
        exact ih hb ht place hp

theorem all_isWordChar (h : t.all Char.isAlpha) : t.all isWordChar :=
  List.all_eq_true.2 fun c hc => isWordChar_of_isAlpha (List.all_eq_true.1 h c hc)

theorem isAlpha_of_isSpace {c : Char} (h : isSpace c) : c.isAlpha = false := by
  simp only [isSpace, Bool.or_eq_true, beq_iff_eq] at h
  rcases h with (((rfl | rfl) | rfl) | rfl) | rfl <;> decide

theorem at?_eq_none_of_no_letter {before r : Text} {n : Nesting} (hk : k.isLettered)
    (ht : ∀ c ∈ t, c.isAlpha = false) :
    ∀ place ∈ sitesAfter before n t, k.at? (place.extend r) = none := by
  induction t generalizing before n with
  | nil => simp [sitesAfter]
  | cons c t ih =>
      obtain ⟨hc, ht⟩ := List.forall_mem_cons.1 ht
      intro place hp
      rw [sitesAfter, List.mem_cons] at hp
      rcases hp with rfl | hp
      · exact at?_eq_none hk (by simpa [Site.extend] using hc)
      · exact ih ht place hp

theorem mem_sitesAfter_append {before s t : Text} {n : Nesting} {place : Site}
    (h : place ∈ sitesAfter before n (s ++ t)) :
    (∃ p ∈ sitesAfter before n s, place = p.extend t) ∨
      place ∈ sitesAfter (s.reverse ++ before) (n.after s) t := by
  rw [sitesAfter_append, List.mem_append, List.mem_map] at h
  exact h.imp_left fun ⟨p, hp, he⟩ => ⟨p, hp, he.symm⟩

theorem extend_extend (p : Site) (s t : Text) : (p.extend s).extend t = p.extend (s ++ t) := by
  simp [Site.extend]

theorem at?_eq_none_of_lead? (hk : k.isLettered) {place : Site}
    (h : Text.lead? place.after ≠ k.lead?) : k.at? place = none := by
  rw [at?, Site.read?, read?_eq_none_of_lead? hk h]
  simp

/-- No keyword begins inside the later words of one that stands apart from it. -/
theorem at?_eq_none_of_words (hk : k.isLettered) {ws : List Text} {matched r before : Text}
    {n : Nesting} (hw : ∀ w ∈ ws, w ≠ [] ∧ w.all Char.isAlpha)
    (hl : k.lead? ∉ ws.map Text.lead?) (hb : before.head?.any isWordChar)
    (h : readSpaced? ws t = some (matched, r)) :
    ∀ place ∈ sitesAfter before n matched, k.at? (place.extend r) = none := by
  induction ws generalizing t matched before n with
  | nil =>
      obtain ⟨rfl, rfl⟩ := Prod.mk.inj (Option.some.inj h)
      simp [sitesAfter]
  | cons w ws ih =>
      obtain ⟨front, rest₁, more, -, h₁, h₂, rfl⟩ := readSpaced?_cons_eq_some_iff.1 h
      obtain ⟨hwn, hwa⟩ := hw w (by simp)
      have hfa := Text.isAlpha_of_sameWord (Text.readWord?_eq_some_iff.1 h₁).2 hwa
      rw [List.map_cons, List.mem_cons, not_or] at hl
      obtain ⟨c, f, rfl⟩ := List.exists_cons_of_ne_nil (Text.ne_nil_of_readWord? hwn h₁)
      obtain ⟨hca, hfa⟩ := Bool.and_eq_true_iff.1 hfa
      intro place hp
      -- The place is among the spaces, at the first letter of the word, inside it or behind it.
      obtain ⟨p, hp', rfl⟩ | hp := mem_sitesAfter_append hp
      · rw [extend_extend]
        obtain ⟨q, hq, rfl⟩ | hp := mem_sitesAfter_append hp'
        · rw [extend_extend]
          refine at?_eq_none_of_no_letter hk (fun c hc => isAlpha_of_isSpace ?_) q hq
          exact List.all_eq_true.1 List.all_takeWhile c hc
        rw [sitesAfter, List.mem_cons] at hp
        rcases hp with rfl | hp
        · refine at?_eq_none_of_lead? hk fun he => hl.1 ?_
          rw [← he, ← Text.lead?_of_readWord? hwn h₁, (Text.readWord?_eq_some_iff.1 h₁).1]
          rfl
        · exact at?_eq_none_of_word (by simpa using isWordChar_of_isAlpha hca) (all_isWordChar hfa) p hp
      · refine ih (fun v hv => hw v (List.mem_cons_of_mem _ hv)) hl.2 ?_ h₂ place hp
        have hlast := Text.isAlpha_getLast?_of_readWord? hwn hwa h₁
        obtain ⟨d, hd, hda⟩ := (Option.any_eq_true ..).1 hlast
        rw [List.reverse_append, List.append_assoc, List.head?_append, List.head?_reverse, hd]
        exact isWordChar_of_isAlpha hda

theorem isPlain_of_isAlpha {c : Char} (h : c.isAlpha) : Nesting.isPlain c :=
  Nesting.isPlain_of_class h (by decide)

theorem isPlain_of_readWord? {w front rest : Text} (hw : w.all Char.isAlpha)
    (h : Text.readWord? w t = some (front, rest)) : front.all Nesting.isPlain := by
  have hf := Text.isAlpha_of_sameWord (Text.readWord?_eq_some_iff.1 h).2 hw
  exact List.all_eq_true.2 fun c hc => isPlain_of_isAlpha (List.all_eq_true.1 hf c hc)

theorem isPlain_of_readSpaced? {ws : List Text} (hw : ∀ w ∈ ws, w ≠ [] ∧ w.all Char.isAlpha)
    {matched rest : Text} (h : readSpaced? ws t = some (matched, rest)) :
    matched.all Nesting.isPlain := by
  induction ws generalizing t matched with
  | nil =>
      obtain ⟨rfl, rfl⟩ := Prod.mk.inj (Option.some.inj h)
      rfl
  | cons w ws ih =>
      obtain ⟨front, rest₁, more, -, h₁, h₂, rfl⟩ := readSpaced?_cons_eq_some_iff.1 h
      have hg : (t.takeWhile isSpace).all Nesting.isPlain := by
        refine List.all_eq_true.2 fun c hc => isPlain_of_isSpace ?_
        exact List.all_eq_true.1 (List.all_takeWhile (l := t) (p := isSpace)) c hc
      have hf := isPlain_of_readWord? (hw w (by simp)).2 h₁
      have hm := ih (fun v hv => hw v (List.mem_cons_of_mem _ hv)) h₂
      simp only [List.all_append, Bool.and_eq_true]
      exact ⟨⟨hg, hf⟩, hm⟩

theorem isPlain_of_read? (hk : k.isLettered) {matched rest : Text}
    (h : k.read? t = some (matched, rest)) : matched.all Nesting.isPlain := by
  obtain ⟨w, ws, he, hw⟩ := of_isLettered hk
  obtain ⟨front, r, more, h₁, h₂, rfl⟩ := (read?_eq_some_iff_of_words he).1 h
  have hf := isPlain_of_readWord? (hw w (by simp)).2 h₁
  have hm := isPlain_of_readSpaced? (fun v hv => hw v (List.mem_cons_of_mem _ hv)) h₂
  rw [List.all_append, hf, hm]
  rfl

theorem closed_of_read? (hk : k.isLettered) {matched rest : Text}
    (h : k.read? t = some (matched, rest)) : Closed matched :=
  Text.closed_of_isPlain (isPlain_of_read? hk h)

theorem at?_eq_none_of_read? (hk : k.isLettered) (hl : l.isLettered)
    (h : k.lead? ∉ l.laterLeads) {c : Char} {u r : Text} {n : Nesting}
    (hr : l.read? t = some (c :: u, r)) :
    ∀ place ∈ sitesAfter [c] n u, k.at? (place.extend r) = none := by
  obtain ⟨w, ws, he, hw⟩ := of_isLettered hl
  obtain ⟨front, rest₁, more, h₁, h₂, hm⟩ := (read?_eq_some_iff_of_words he).1 hr
  obtain ⟨hwn, hwa⟩ := hw w (by simp)
  have hfa := Text.isAlpha_of_sameWord (Text.readWord?_eq_some_iff.1 h₁).2 hwa
  have hlast := Text.isAlpha_getLast?_of_readWord? hwn hwa h₁
  obtain ⟨d, f, rfl⟩ := List.exists_cons_of_ne_nil (Text.ne_nil_of_readWord? hwn h₁)
  obtain ⟨rfl, rfl⟩ := List.cons.inj hm
  obtain ⟨hda, hfa⟩ := Bool.and_eq_true_iff.1 hfa
  intro place hp
  obtain ⟨p, hp', rfl⟩ | hp := mem_sitesAfter_append hp
  · rw [extend_extend]
    exact at?_eq_none_of_word (by simpa using isWordChar_of_isAlpha hda) (all_isWordChar hfa) p hp'
  · rw [laterLeads, he, List.tail_cons] at h
    refine at?_eq_none_of_words hk (fun v hv => hw v (List.mem_cons_of_mem _ hv)) h ?_ h₂ place hp
    obtain ⟨e, he, hea⟩ := (Option.any_eq_true ..).1 hlast
    rw [← List.head?_reverse, List.reverse_cons] at he
    rw [he]
    exact isWordChar_of_isAlpha hea

/-- Where a keyword is read, it is the only one that begins before its end. -/
theorem occurrences_matched (ha : Apart ks) (hk : k ∈ ks) (hl : l ∈ ks) {matched r : Text}
    (h : l.read? (matched ++ r) = some (matched, r)) (hr : r.head?.any isWordChar = false) :
    k.occurrences (matched ++ r) =
      (if k = l then [⟨[], matched, r⟩] else []) ++
        (k.occurrences r).map (Occurrence.behind matched) := by
  have hkl := ha.lettered k hk
  have hll := ha.lettered l hl
  obtain ⟨hne, hinj⟩ := ha.leads k hk l hl
  have hlead := lead?_of_read? hll h
  obtain ⟨c, u, rfl⟩ := List.exists_cons_of_ne_nil (ne_nil_of_read? hll h)
  have hc := closed_of_read? hll h
  rw [occurrences, topSites_append hc, List.filterMap_append, List.filterMap_map,
    List.filterMap_map, occurrences, List.map_filterMap]
  refine congrArg₂ (· ++ ·) ?_ ?_
  · have hrest : ((sitesAfter [c] (Nesting.top.step c) u).filter (·.nesting.isTop)).filterMap
        (k.at? ∘ Site.extend r) = [] := by
      refine List.filterMap_eq_nil_iff.2 fun place hp => ?_
      exact at?_eq_none_of_read? hkl hll hne h place (List.mem_filter.1 hp).1
    rw [topSites, sitesAfter, List.filter_cons_of_pos (by rfl), List.filterMap_cons, hrest]
    by_cases he : k = l
    · subst he
      have hat : k.at? ⟨[], .top, c :: u ++ r⟩ = some ⟨[], c :: u, r⟩ :=
        at?_eq_some_iff.2 ⟨rfl, rfl, h, hr⟩
      rw [if_pos rfl]
      simp only [Function.comp_apply, Site.extend, hat]
    · have hat : k.at? ⟨[], .top, c :: u ++ r⟩ = none :=
        at?_eq_none_of_lead? hkl fun h => he (hinj (h ▸ hlead))
      rw [if_neg he]
      simp only [Function.comp_apply, Site.extend, hat]
  · refine List.filterMap_congr fun place hp => at?_behind hkl fun hn => ?_
    obtain ⟨he, -⟩ := of_mem_topSites hp
    rw [hn, List.reverse_nil, List.nil_append] at he
    exact border_of_head (he ▸ hr)

theorem readWord?_eq_none_of_lead? {w : Text} (hw : w ≠ []) (h : Text.lead? t ≠ Text.lead? w) :
    Text.readWord? w t = none := by
  cases hr : Text.readWord? w t with
  | none => rfl
  | some p => exact absurd (Text.lead?_of_readWord? hw hr) h

theorem dropWhile_isSpace_of_isAlpha (h : t.head?.any Char.isAlpha) : t.dropWhile isSpace = t := by
  cases t with
  | nil => rfl
  | cons c t =>
      refine List.dropWhile_cons_of_neg fun hc => ?_
      rw [List.head?_cons, Option.any_some, isAlpha_of_isSpace hc] at h
      exact absurd h (by decide)

theorem isAlpha_head?_of_read? (hk : k.isLettered) {matched rest : Text}
    (h : k.read? t = some (matched, rest)) : t.head?.any Char.isAlpha := by
  cases ha : t.head?.any Char.isAlpha with
  | true => rfl
  | false => simp [read?_eq_none hk ha] at h

/-- An occurrence of one of several keywords that stand apart parts the occurrences of each. -/
theorem occurrences_around (ha : Apart ks) (hk : k ∈ ks) (hl : l ∈ ks) {o : Occurrence}
    (ho : o ∈ l.occurrences t) :
    k.occurrences t =
      (k.occurrences o.before).map (Occurrence.extend (o.matched ++ o.after)) ++
        ((if k = l then [o] else []) ++
          (k.occurrences o.after).map (Occurrence.behind (o.before ++ o.matched))) := by
  have hkl := ha.lettered k hk
  have hll := ha.lettered l hl
  obtain ⟨rfl, hat⟩ := (mem_occurrences_iff hll).1 ho
  -- No keyword begins before the occurrence and goes on into it: that would take a later word with
  -- the first letter of a keyword.
  have hw : ∀ w ∈ k.words.tail,
      Text.readWord? w ((o.matched ++ o.after).dropWhile isSpace) = none := by
    intro w hw
    obtain ⟨v, vs, he, hv⟩ := of_isLettered hkl
    rw [dropWhile_isSpace_of_isAlpha (isAlpha_head?_of_read? hll hat.read)]
    refine readWord?_eq_none_of_lead? (hv w ?_).1 fun hlead => ?_
    · rw [he, List.tail_cons] at hw
      exact List.mem_cons_of_mem _ hw
    · rw [lead?_of_read? hll hat.read] at hlead
      exact (ha.leads l hl k hk).1 (List.mem_map.2 ⟨w, hw, hlead.symm⟩)
  rw [Occurrence.text, List.append_assoc,
    occurrences_append hkl hat.closed (border_of_last hat.border_before) hw,
    occurrences_matched ha hk hl hat.read hat.border_after, List.map_append, List.map_map]
  refine congrArg₂ (· ++ ·) rfl (congrArg₂ (· ++ ·) ?_ ?_)
  · split
    · simp [Occurrence.behind]
    · rfl
  · refine List.map_congr_left fun p _ => ?_
    simp [Occurrence.behind]

theorem isSpace_space : isSpace ' ' = true := rfl

theorem sameWord_self (w : Text) : Text.sameWord w w :=
  beq_self_eq_true _

theorem readSpaced?_flatMap {ws : List Text} (hw : ∀ w ∈ ws, w ≠ [] ∧ w.all Char.isAlpha)
    (t : Text) :
    readSpaced? ws (ws.flatMap (' ' :: ·) ++ t) = some (ws.flatMap (' ' :: ·), t) := by
  induction ws with
  | nil => rfl
  | cons w ws ih =>
      obtain ⟨hwn, hwa⟩ := hw w (by simp)
      obtain ⟨c, w, rfl⟩ := List.exists_cons_of_ne_nil hwn
      have hc : isSpace c = false := by
        cases hc : isSpace c with
        | false => rfl
        | true => simp [isAlpha_of_isSpace hc] at hwa
      have hr (u : Text) : Text.readWord? (c :: w) (c :: w ++ u) = some (c :: w, u) :=
        Text.readWord?_eq_some_iff.2 ⟨rfl, sameWord_self _⟩
      have hg (u : Text) : (' ' :: (c :: w ++ u)).takeWhile isSpace = [' '] := by
        simp [List.takeWhile_cons, isSpace_space, hc]
      have hd (u : Text) : (' ' :: (c :: w ++ u)).dropWhile isSpace = c :: w ++ u := by
        simp [List.dropWhile_cons, isSpace_space, hc]
      have ih := ih fun v hv => hw v (List.mem_cons_of_mem _ hv)
      rw [List.flatMap_cons, List.append_assoc, List.cons_append, readSpaced?, hg, hd, hr]
      simp [ih]

theorem read?_text (hk : k.isLettered) (t : Text) : k.read? (k.text ++ t) = some (k.text, t) := by
  obtain ⟨w, ws, he, hw⟩ := of_isLettered hk
  have hr (u : Text) : Text.readWord? w (w ++ u) = some (w, u) :=
    Text.readWord?_eq_some_iff.2 ⟨rfl, sameWord_self w⟩
  have hs := readSpaced?_flatMap (fun v hv => hw v (List.mem_cons_of_mem _ hv)) t
  simp only [text, he, Text.join_cons, List.singleton_append, List.append_assoc, read?, hr,
    Option.bind_eq_bind, Option.bind_some, hs]

end Keyword

end SqlEdit
