import Mathlib.Data.List.Basic
import Mathlib.Data.List.Induction
import Mathlib.Data.List.TakeWhile
import SqlEdit.Keyword.Names
import SqlEdit.Proofs.Nesting.Closed

namespace SqlEdit

open Text (Closed)

def Site.extend (t : Text) (s : Site) : Site :=
  { s with after := s.after ++ t }

def Site.behind (t : Text) (s : Site) : Site :=
  { s with before := s.before ++ t.reverse }

def Occurrence.extend (t : Text) (o : Occurrence) : Occurrence :=
  { o with after := o.after ++ t }

def Occurrence.behind (t : Text) (o : Occurrence) : Occurrence :=
  { o with before := t ++ o.before }

theorem sitesAfter_append (before s t : Text) (n : Nesting) :
    sitesAfter before n (s ++ t) =
      (sitesAfter before n s).map (Site.extend t) ++
        sitesAfter (s.reverse ++ before) (n.after s) t := by
  induction s generalizing before n with
  | nil => rfl
  | cons c s ih =>
      rw [List.cons_append, sitesAfter, ih, sitesAfter, List.map_cons, List.cons_append,
        List.reverse_cons, List.append_assoc, List.singleton_append, Nesting.after_cons]
      rfl

theorem sitesAfter_behind (before s t : Text) (n : Nesting) :
    sitesAfter (before ++ s.reverse) n t = (sitesAfter before n t).map (Site.behind s) := by
  induction t generalizing before n with
  | nil => rfl
  | cons c t ih =>
      rw [sitesAfter, sitesAfter, List.map_cons, ← ih, List.cons_append]
      rfl

theorem topSites_append {s : Text} (hs : Closed s) (t : Text) :
    topSites (s ++ t) = (topSites s).map (Site.extend t) ++ (topSites t).map (Site.behind s) := by
  have h := sitesAfter_behind [] s t .top
  rw [List.nil_append] at h
  rw [topSites, sitesAfter_append, hs, List.append_nil, h, List.filter_append, List.filter_map,
    List.filter_map]
  rfl

theorem ne_nil_of_mem_sitesAfter {before t : Text} {n : Nesting} {s : Site}
    (h : s ∈ sitesAfter before n t) : s.after ≠ [] := by
  induction t generalizing before n with
  | nil => simp [sitesAfter] at h
  | cons c t ih =>
      rw [sitesAfter, List.mem_cons] at h
      rcases h with rfl | h
      · exact List.cons_ne_nil _ _
      · exact ih h

theorem ne_nil_of_mem_topSites {t : Text} {s : Site} (h : s ∈ topSites t) : s.after ≠ [] :=
  ne_nil_of_mem_sitesAfter (List.mem_filter.1 h).1

/-- Whether no run of word characters goes from one text on into another. -/
def Border (s t : Text) : Prop :=
  (s.getLast?.any isWordChar && t.head?.any isWordChar) = false

theorem border_of_last {s t : Text} (h : s.getLast?.any isWordChar = false) : Border s t := by
  rw [Border, h, Bool.false_and]

theorem border_of_head {s t : Text} (h : t.head?.any isWordChar = false) : Border s t := by
  rw [Border, h, Bool.and_false]

theorem Border.of_append {r s t : Text} (h : Border (r ++ s) t) : Border s t := by
  cases s using List.reverseRecOn with
  | nil => exact border_of_last rfl
  | append_singleton s c => simpa [Border, List.getLast?_append] using h

theorem isWordChar_of_isAlpha {c : Char} (h : c.isAlpha) : isWordChar c := by
  rw [isWordChar, Char.isAlphanum, h]
  rfl

theorem isAlpha_of_not_isWordChar {c? : Option Char} (h : c?.any isWordChar = false) :
    c?.any Char.isAlpha = false := by
  rw [Option.any_eq_false] at h ⊢
  intro c hc
  have hw := h c hc
  cases ha : c.isAlpha with
  | false => rfl
  | true => rwa [isWordChar_of_isAlpha ha] at hw

namespace Text

theorem isAlpha_of_sameWord {w t : Text} (h : sameWord w t) (hw : w.all Char.isAlpha) :
    t.all Char.isAlpha := by
  have ha (u : Text) : (foldCase u).all Char.isAlpha = u.all Char.isAlpha := by
    simp [foldCase, List.all_map, Function.comp_def]
  rw [← ha, ← eq_of_beq h, ha, hw]

theorem not_border_of_isAlpha {s t : Text} {c : Char} (hs : s ≠ []) (hsa : s.all Char.isAlpha)
    (hc : c.isAlpha) : ¬ Border s (c :: t) := by
  cases s using List.reverseRecOn with
  | nil => exact absurd rfl hs
  | append_singleton s d =>
      have hd : d.isAlpha := List.all_eq_true.1 hsa d (by simp)
      simp [Border, isWordChar_of_isAlpha hc, isWordChar_of_isAlpha hd]

theorem readWord?_append {w s t : Text} (hw : w.all Char.isAlpha) (hs : s ≠ [])
    (h : Border s t) :
    readWord? w (s ++ t) = (readWord? w s).map fun (front, rest) => (front, rest ++ t) := by
  apply Option.ext
  rintro ⟨front, rest⟩
  rw [readWord?_eq_some_iff, Option.map_eq_some_iff]
  constructor
  · rintro ⟨he, hr⟩
    obtain ⟨v, rfl, hv⟩ | ⟨v, rfl, rfl⟩ := List.append_eq_append_iff.1 he
    · cases v with
      | nil =>
          rw [List.append_nil, List.nil_append] at *
          exact ⟨(s, []), readWord?_eq_some_iff.2 ⟨by simp, hr⟩, by simp [hv]⟩
      | cons c v =>
          have hc := isAlpha_of_sameWord hr hw
          simp only [List.all_append, List.all_cons, Bool.and_eq_true] at hc
          rw [hv] at h
          exact absurd h (not_border_of_isAlpha hs hc.1 hc.2.1)
    · exact ⟨(front, v), readWord?_eq_some_iff.2 ⟨rfl, hr⟩, rfl⟩
  · rintro ⟨⟨front', rest'⟩, hr, he⟩
    obtain ⟨rfl, rfl⟩ := Prod.mk.inj he
    obtain ⟨rfl, hw'⟩ := readWord?_eq_some_iff.1 hr
    exact ⟨List.append_assoc .., hw'⟩

theorem ne_nil_of_readWord? {w t front rest : Text} (hw : w ≠ [])
    (h : readWord? w t = some (front, rest)) : front ≠ [] := by
  have hl := length_eq_of_sameWord (readWord?_eq_some_iff.1 h).2
  exact fun he => hw (List.eq_nil_of_length_eq_zero (by rw [hl, he]; rfl))

theorem isAlpha_getLast?_of_readWord? {w t front rest : Text} (hw : w ≠ [])
    (ha : w.all Char.isAlpha) (h : readWord? w t = some (front, rest)) :
    front.getLast?.any Char.isAlpha := by
  have hf := isAlpha_of_sameWord (readWord?_eq_some_iff.1 h).2 ha
  rw [List.getLast?_eq_some_getLast (ne_nil_of_readWord? hw h)]
  exact List.all_eq_true.1 hf _ (List.getLast_mem _)

theorem readWord?_nil {w : Text} (hw : w ≠ []) : readWord? w [] = none := by
  rw [readWord?, if_neg]
  intro h
  exact hw (List.eq_nil_of_length_eq_zero (by simpa using length_eq_of_sameWord h))

theorem readWord?_cons {c d : Char} (h : c.toLower ≠ d.toLower) (w t : Text) :
    readWord? (c :: w) (d :: t) = none := by
  rw [readWord?, List.length_cons, List.take_succ_cons, if_neg]
  simp [sameWord, foldCase, h]

theorem readWord?_eq_none {w t : Text} (hw : w ≠ []) (ha : w.all Char.isAlpha)
    (ht : t.head?.any Char.isAlpha = false) : readWord? w t = none := by
  cases t with
  | nil => exact readWord?_nil hw
  | cons d t =>
      obtain ⟨c, w, rfl⟩ := List.exists_cons_of_ne_nil hw
      apply readWord?_cons
      intro he
      have hc : c.isAlpha := (Bool.and_eq_true_iff.1 ha).1
      rw [← isAlpha_toLower, he, isAlpha_toLower] at hc
      simp [hc] at ht

end Text

namespace Keyword

def isLettered (k : Keyword) : Bool :=
  k.words ≠ [] && k.words.all fun w => w ≠ [] && w.all Char.isAlpha

theorem of_isLettered {k : Keyword} (h : k.isLettered) :
    ∃ w ws, k.words = w :: ws ∧ ∀ v ∈ w :: ws, v ≠ [] ∧ v.all Char.isAlpha := by
  simp only [isLettered, Bool.and_eq_true, decide_eq_true_eq] at h
  obtain ⟨w, ws, hw⟩ := List.exists_cons_of_ne_nil h.1
  refine ⟨w, ws, hw, fun v hv => ?_⟩
  simpa using List.all_eq_true.1 h.2 v (hw ▸ hv)

variable {k : Keyword} {s t : Text}

theorem readSpaced?_append {ws : List Text} (hw : ∀ w ∈ ws, w ≠ [] ∧ w.all Char.isAlpha)
    (hb : Border s t) (ht : ∀ w ∈ ws, Text.readWord? w (t.dropWhile isSpace) = none) :
    readSpaced? ws (s ++ t) =
      (readSpaced? ws s).map fun (matched, rest) => (matched, rest ++ t) := by
  induction ws generalizing s with
  | nil => rfl
  | cons w ws ih =>
      obtain ⟨hwn, hwa⟩ := hw w (by simp)
      by_cases hs : s.all isSpace
      · have hd : (s ++ t).dropWhile isSpace = t.dropWhile isSpace :=
          List.dropWhile_append_of_pos (List.all_eq_true.1 hs)
        have hd' : s.dropWhile isSpace = [] := List.dropWhile_eq_nil_iff.2 (List.all_eq_true.1 hs)
        rw [readSpaced?, readSpaced?, hd, ht w (by simp), hd', Text.readWord?_nil hwn]
        simp
      · have hne : s.dropWhile isSpace ≠ [] := by simpa using hs
        have hd : (s ++ t).dropWhile isSpace = s.dropWhile isSpace ++ t := by
          rw [List.dropWhile_append, if_neg (by simpa using hne)]
        have hg : (s ++ t).takeWhile isSpace = s.takeWhile isSpace := by
          have hlt : (s.takeWhile isSpace).length ≠ s.length := by
            intro he
            have hp := (List.takeWhile_prefix (l := s) isSpace).eq_of_length he
            exact hs (by rw [← hp]; exact List.all_takeWhile)
          rw [List.takeWhile_append, if_neg hlt]
        have hbd : Border (s.dropWhile isSpace) t :=
          Border.of_append (r := s.takeWhile isSpace)
            (by rw [List.takeWhile_append_dropWhile]; exact hb)
        simp only [readSpaced?, hd, hg, Text.readWord?_append hwa hne hbd]
        split
        · rfl
        · cases hr : Text.readWord? w (s.dropWhile isSpace) with
          | none => rfl
          | some p =>
              obtain ⟨front, rest⟩ := p
              have hrest : Border rest t :=
                Border.of_append (r := front) ((Text.readWord?_eq_some_iff.1 hr).1 ▸ hbd)
              have ih := ih (fun v hv => hw v (List.mem_cons_of_mem _ hv)) hrest
                (fun v hv => ht v (List.mem_cons_of_mem _ hv))
              simp only [Option.map_some, Option.bind_eq_bind, Option.bind_some, ih]
              cases readSpaced? ws rest <;> rfl

theorem read?_append (hk : k.isLettered) (hs : s ≠ []) (hb : Border s t)
    (ht : ∀ w ∈ k.words.tail, Text.readWord? w (t.dropWhile isSpace) = none) :
    k.read? (s ++ t) = (k.read? s).map fun (matched, rest) => (matched, rest ++ t) := by
  obtain ⟨w, ws, he, hw⟩ := of_isLettered hk
  rw [he, List.tail_cons] at ht
  simp only [read?, he, Text.readWord?_append (hw w (by simp)).2 hs hb]
  cases hr : Text.readWord? w s with
  | none => rfl
  | some p =>
      obtain ⟨front, rest⟩ := p
      have hrest : Border rest t :=
        Border.of_append (r := front) ((Text.readWord?_eq_some_iff.1 hr).1 ▸ hb)
      have h := readSpaced?_append (fun v hv => hw v (List.mem_cons_of_mem _ hv)) hrest ht
      simp only [Option.map_some, Option.bind_eq_bind, Option.bind_some, h]
      cases readSpaced? ws rest <;> rfl

theorem read?_eq_none (hk : k.isLettered) (ht : t.head?.any Char.isAlpha = false) :
    k.read? t = none := by
  obtain ⟨w, ws, he, hw⟩ := of_isLettered hk
  obtain ⟨hwn, hwa⟩ := hw w (by simp)
  simp only [read?, he, Text.readWord?_eq_none hwn hwa ht]
  rfl

theorem isAlpha_getLast?_append {ws : List Text} (hw : ∀ w ∈ ws, w ≠ [] ∧ w.all Char.isAlpha)
    {matched rest u : Text} (h : readSpaced? ws t = some (matched, rest))
    (hu : u.getLast?.any Char.isAlpha) : (u ++ matched).getLast?.any Char.isAlpha := by
  induction ws generalizing t matched u with
  | nil =>
      obtain ⟨rfl, rfl⟩ := Prod.mk.inj (Option.some.inj h)
      rwa [List.append_nil]
  | cons w ws ih =>
      obtain ⟨front, r, more, -, h₁, h₂, rfl⟩ := readSpaced?_cons_eq_some_iff.1 h
      obtain ⟨hwn, hwa⟩ := hw w (by simp)
      have hf : (u ++ t.takeWhile isSpace ++ front).getLast?.any Char.isAlpha := by
        rw [List.getLast?_append_of_ne_nil _ (Text.ne_nil_of_readWord? hwn h₁)]
        exact Text.isAlpha_getLast?_of_readWord? hwn hwa h₁
      simpa using ih (fun v hv => hw v (List.mem_cons_of_mem _ hv)) h₂ hf

theorem isAlpha_getLast?_of_read? (hk : k.isLettered) {matched rest : Text}
    (h : k.read? t = some (matched, rest)) : matched.getLast?.any Char.isAlpha := by
  obtain ⟨w, ws, he, hw⟩ := of_isLettered hk
  obtain ⟨hwn, hwa⟩ := hw w (by simp)
  obtain ⟨front, r, more, h₁, h₂, rfl⟩ := (read?_eq_some_iff_of_words he).1 h
  exact isAlpha_getLast?_append (fun v hv => hw v (List.mem_cons_of_mem _ hv)) h₂
    (Text.isAlpha_getLast?_of_readWord? hwn hwa h₁)

theorem at?_eq_none (hk : k.isLettered) {s : Site} (hs : s.after.head?.any Char.isAlpha = false) :
    k.at? s = none := by
  rw [at?, Site.read?, read?_eq_none hk hs]
  simp

/-- Text behind a place does not matter as long as the keyword ends before it. -/
theorem at?_extend (hk : k.isLettered) {s : Site} (hs : s.after ≠ []) (hb : Border s.after t)
    (ht : ∀ w ∈ k.words.tail, Text.readWord? w (t.dropWhile isSpace) = none) :
    k.at? (s.extend t) = (k.at? s).map (Occurrence.extend t) := by
  rw [at?, at?, Site.read?, Site.read?]
  simp only [Site.extend, read?_append hk hs hb ht]
  split
  · rfl
  · cases hr : k.read? s.after with
    | none => rfl
    | some p =>
        obtain ⟨matched, rest⟩ := p
        have hrest : (rest.head?.or t.head?).any isWordChar = rest.head?.any isWordChar := by
          cases rest with
          | cons c rest => rfl
          | nil =>
              have hl := isAlpha_getLast?_of_read? hk hr
              have he := eq_of_read? hr
              rw [List.append_nil] at he
              rw [← he] at hl
              obtain ⟨c, hc, hca⟩ := (Option.any_eq_true ..).1 hl
              rw [Border, hc, Option.any_some, isWordChar_of_isAlpha hca, Bool.true_and] at hb
              exact hb
        by_cases hc : rest.head?.any isWordChar <;>
          simp [Option.filter, hrest, hc, Occurrence.extend]

theorem at?_behind_of_ne_nil {s : Site} (hs : s.before ≠ []) :
    k.at? (s.behind t) = (k.at? s).map (Occurrence.behind t) := by
  obtain ⟨c, u, hu⟩ := List.exists_cons_of_ne_nil hs
  rw [at?, at?, Site.read?, Site.read?]
  simp only [Site.behind, hu, List.cons_append, List.head?_cons]
  split
  · rfl
  · cases k.read? s.after with
    | none => rfl
    | some p =>
        by_cases hc : p.2.head?.any isWordChar <;>
          simp [Option.filter, hc, Occurrence.behind]

/-- Text before a place does not matter if it does not run on into what stands there. -/
theorem at?_behind (hk : k.isLettered) {s : Site} (hb : s.before = [] → Border t s.after) :
    k.at? (s.behind t) = (k.at? s).map (Occurrence.behind t) := by
  by_cases hs : s.before = []
  · cases ht : t.getLast?.any isWordChar with
    | false =>
        rw [at?, at?, Site.read?, Site.read?]
        simp only [Site.behind, hs, List.nil_append, List.head?_reverse, ht]
        cases k.read? s.after with
        | none => rfl
        | some p =>
            by_cases hc : p.2.head?.any isWordChar <;>
              simp [Option.filter, hc, Occurrence.behind]
    | true =>
        have hb := hb hs
        rw [Border, ht, Bool.true_and] at hb
        have ha : s.after.head?.any Char.isAlpha = false := isAlpha_of_not_isWordChar hb
        rw [at?_eq_none hk ha, at?_eq_none hk (s := s.behind t) ha, Option.map_none]
  · exact at?_behind_of_ne_nil hs

theorem occurrences_append (hk : k.isLettered) (hs : Closed s) (hb : Border s t)
    (ht : ∀ w ∈ k.words.tail, Text.readWord? w (t.dropWhile isSpace) = none) :
    k.occurrences (s ++ t) =
      (k.occurrences s).map (Occurrence.extend t) ++ (k.occurrences t).map (Occurrence.behind s) := by
  rw [occurrences, topSites_append hs, List.filterMap_append, List.filterMap_map,
    List.filterMap_map, occurrences, occurrences, List.map_filterMap, List.map_filterMap]
  refine congrArg₂ (· ++ ·) ?_ ?_
  · refine List.filterMap_congr fun place hp => ?_
    obtain ⟨he, -⟩ := of_mem_topSites hp
    refine at?_extend hk (ne_nil_of_mem_topSites hp) ?_ ht
    exact Border.of_append (r := place.before.reverse) (he ▸ hb)
  · refine List.filterMap_congr fun place hp => ?_
    obtain ⟨he, -⟩ := of_mem_topSites hp
    refine at?_behind hk fun hn => ?_
    rw [hn, List.reverse_nil, List.nil_append] at he
    exact he ▸ hb

end Keyword

end SqlEdit
