import SqlEdit.Proofs.Checked.Keyword
import SqlEdit.Proofs.Keyword.Around

namespace SqlEdit

open Checked (sameBytes matchAt)

def isWordByte (b : UInt8) : Bool :=
  isWordChar (byteChar b)

namespace Keyword

/-- Bytes that spell words in order, up to the case of ASCII letters, with a run of spaces and nothing
else between any two words. -/
inductive Spelled : List Text → List UInt8 → Prop
  | word {w : Text} {as : List UInt8} : sameBytes as w.utf8 → Spelled [w] as
  | cons {w : Text} {ws : List Text} {as gap bs : List UInt8} : sameBytes as w.utf8 → gap ≠ [] →
      (gap.all fun b => isSpace (byteChar b)) → Spelled ws bs → Spelled (w :: ws) (as ++ gap ++ bs)

structure StandsAt (k : Keyword) (t : Text) (s : Span) : Prop where
  isTop : Nesting.isTopAt t s.start
  before : ∀ i, i + 1 = s.start → t.utf8[i]?.any isWordByte = false
  spelled : ∃ bs, Spelled k.words bs ∧ bs <+: t.utf8.drop s.start ∧ s.start + bs.length = s.stop
  after : t.utf8[s.stop]?.any isWordByte = false

end Keyword

namespace Nesting

theorem bytewise_append (n : Nesting) (s t : Text) :
    n.bytewise (s ++ t) = n.bytewise s ++ (n.after s).bytewise t := by
  induction s generalizing n with
  | nil => rfl
  | cons c s ih => rw [List.cons_append, bytewise, ih, bytewise, List.append_assoc, after_cons]

theorem lt_of_isTopAt {t : Text} {i : Nat} (h : isTopAt t i) : i < t.utf8.length := by
  rw [isTopAt, Option.any_eq_true] at h
  obtain ⟨n, hn, -⟩ := h
  rw [Text.length_utf8, ← length_bytewise .top]
  exact (List.getElem?_eq_some_iff.1 hn).1

theorem bytewise_of_isPlain {t : Text} (h : t.all isPlain) (n : Nesting) :
    n.bytewise t = List.replicate t.byteSize n := by
  induction t with
  | nil => rfl
  | cons c t ih =>
      obtain ⟨hc, ht⟩ := Bool.and_eq_true_iff.1 h
      rw [bytewise, step_of_isPlain hc, ih ht, List.replicate_append_replicate, Text.byteSize]

theorem isTopAt_of_isPlain {s m : Text} {i : Nat} (hs : Text.Closed s) (hm : m.all isPlain) (r : Text)
    (hl : s.byteSize ≤ i) (hi : i < s.byteSize + m.byteSize) : isTopAt (s ++ m ++ r) i := by
  have hn : i - s.byteSize < (List.replicate m.byteSize top).length := by
    rw [List.length_replicate]
    omega
  rw [isTopAt, List.append_assoc, bytewise_append, bytewise_append, bytewise_of_isPlain hm,
    List.getElem?_append_right (by rwa [length_bytewise]), length_bytewise, hs,
    List.getElem?_append_left hn, List.getElem?_eq_getElem hn, List.getElem_replicate]
  rfl

end Nesting

namespace Checked

variable {as bs cs : List UInt8} {w v : Text} {ws : List Text} {k : Keyword} {stop : Nat}

theorem length_eq_of_sameBytes (h : sameBytes as bs) : as.length = bs.length := by
  have hl := Text.length_eq_of_sameWord h
  rwa [List.length_map, List.length_map] at hl

theorem exists_of_sameBytes (hw : w ≠ [] ∧ w.all Char.isAlpha) (h : sameBytes as w.utf8) :
    ∃ b bs, as = b :: bs ∧ isSpace (byteChar b) = false := by
  obtain ⟨c, w, rfl⟩ := List.exists_cons_of_ne_nil hw.1
  have hc : c.isAlpha := (Bool.and_eq_true_iff.1 hw.2).1
  obtain ⟨d, hd, rfl⟩ := exists_of_lt (lt_of_isAlpha hc)
  rw [Text.utf8_cons, hd, List.singleton_append] at h
  cases as with
  | nil => cases length_eq_of_sameBytes h
  | cons b bs =>
      have hl := (List.cons.inj (eq_of_beq h)).1
      refine ⟨b, bs, rfl, ?_⟩
      by_contra hs
      have hb := Keyword.isAlpha_of_isSpace (Bool.of_not_eq_false hs)
      rw [← isAlpha_toLower, hl, isAlpha_toLower, hc] at hb
      cases hb

theorem wordAt?_eq_some_iff : wordAt? (as ++ cs) w as.length = some stop ↔
    ∃ word rest, cs = word ++ rest ∧ sameBytes word w.utf8 ∧ as.length + word.length = stop := by
  rw [wordAt?, List.drop_left, List.length_append]
  simp only [Nat.add_le_add_iff_left]
  constructor
  · intro h
    split at h
    next hw =>
      refine ⟨_, _, (List.take_append_drop w.utf8.length cs).symm, hw.2, ?_⟩
      rw [List.length_take, Nat.min_eq_left hw.1]
      exact Option.some.inj h
    · cases h
  · rintro ⟨word, rest, rfl, hw, rfl⟩
    have hl := length_eq_of_sameBytes hw
    rw [← hl, List.take_left, if_pos ⟨by simp, hw⟩]

theorem wordsAt_cons_iff : wordsAt (as ++ cs) ⟨w :: ws⟩ as.length = .ok (some stop) ↔
    ∃ word rest, cs = word ++ rest ∧ sameBytes word w.utf8 ∧
      spacedAt (as ++ word ++ rest) ws (as ++ word).length = .ok (some stop) := by
  constructor
  · intro h
    rw [wordsAt] at h
    cases hw : wordAt? (as ++ cs) w as.length with
    | none =>
        simp only [hw] at h
        cases h
    | some pos =>
        obtain ⟨word, rest, rfl, hs, rfl⟩ := wordAt?_eq_some_iff.1 hw
        simp only [hw] at h
        exact ⟨word, rest, rfl, hs, by rwa [List.append_assoc, List.length_append]⟩
  · rintro ⟨word, rest, rfl, hs, h⟩
    rw [List.append_assoc, List.length_append] at h
    rw [wordsAt]
    simpa only [wordAt?_eq_some_iff.2 ⟨word, rest, rfl, hs, rfl⟩] using h

/-- The words behind the first are read like a keyword that stands behind a run of spaces. -/
theorem spacedAt_cons (v : Text) (ws : List Text) :
    spacedAt (as ++ cs) (v :: ws) as.length =
      let gap := cs.takeWhile fun b => isSpace (byteChar b)
      if gap = [] then .ok none else wordsAt (as ++ cs) ⟨v :: ws⟩ (as.length + gap.length) := by
  rw [spacedAt, between_append_right, ok_bind]
  simp only [List.length_eq_zero_iff]
  rfl

theorem spelled_singleton_iff : Keyword.Spelled [w] as ↔ sameBytes as w.utf8 := by
  constructor
  · intro h
    cases h with
    | word h => exact h
    | cons _ _ _ h => cases h
  · exact .word

theorem exists_of_spelled (hv : v ≠ [] ∧ v.all Char.isAlpha) (h : Keyword.Spelled (v :: ws) cs) :
    ∃ b bs, cs = b :: bs ∧ isSpace (byteChar b) = false := by
  cases h with
  | word h => exact exists_of_sameBytes hv h
  | cons h =>
      obtain ⟨b, bs, rfl, hb⟩ := exists_of_sameBytes hv h
      exact ⟨b, _, rfl, hb⟩

/-- Reading a keyword is finding the bytes that spell it. -/
theorem wordsAt_eq_some_iff (hw : ∀ v ∈ w :: ws, v ≠ [] ∧ v.all Char.isAlpha) :
    wordsAt (as ++ cs) ⟨w :: ws⟩ as.length = .ok (some stop) ↔
      ∃ m rest, cs = m ++ rest ∧ Keyword.Spelled (w :: ws) m ∧ as.length + m.length = stop := by
  induction ws generalizing w as cs with
  | nil =>
      rw [wordsAt_cons_iff]
      refine exists₂_congr fun m rest => and_congr_right fun _ => ?_
      rw [spelled_singleton_iff, spacedAt, List.length_append]
      simp
  | cons v ws ih =>
      obtain ⟨-, hws⟩ := List.forall_mem_cons.1 hw
      rw [wordsAt_cons_iff]
      constructor
      · rintro ⟨word, rest, rfl, hs, h⟩
        rw [spacedAt_cons] at h
        simp only [] at h
        split at h
        · cases h
        next hne =>
          obtain ⟨gap, bs, hg, hb⟩ : ∃ gap bs, gap = rest.takeWhile (fun b => isSpace (byteChar b)) ∧
              rest = gap ++ bs := ⟨_, _, rfl, List.takeWhile_append_dropWhile.symm⟩
          have hall : gap.all fun b => isSpace (byteChar b) := hg ▸ List.all_takeWhile
          rw [← hg] at h hne
          subst hb
          rw [← List.append_assoc, ← List.length_append] at h
          obtain ⟨m, rest, rfl, hm, hl⟩ := (ih hws).1 h
          refine ⟨word ++ gap ++ m, rest, by simp, .cons hs hne hall hm, ?_⟩
          simpa [Nat.add_assoc] using hl
      · rintro ⟨m, rest, rfl, hm, rfl⟩
        cases hm with
        | @cons _ _ word gap bs hs hne hall hm =>
            obtain ⟨b, u, hu, hb⟩ := exists_of_spelled (hws v List.mem_cons_self) hm
            have hg : (gap ++ (bs ++ rest)).takeWhile (fun b => isSpace (byteChar b)) = gap := by
              rw [List.takeWhile_append_of_pos (List.all_eq_true.1 hall), hu, List.cons_append,
                List.takeWhile_cons_of_neg (by simp [hb]), List.append_nil]
            refine ⟨word, gap ++ (bs ++ rest), by simp, hs, ?_⟩
            rw [spacedAt_cons]
            simp only [hg, if_neg hne]
            rw [← List.append_assoc, ← List.length_append]
            exact (ih hws).2 ⟨bs, rest, rfl, hm, by simp [Nat.add_assoc]⟩

theorem precededBy_eq_false_iff {p : Char → Bool} :
    precededBy p (as ++ cs) as.length = .ok false ↔
      ∀ i, i + 1 = as.length → ((as ++ cs)[i]?.any fun b => p (byteChar b)) = false := by
  rw [precededBy]
  by_cases has : as = []
  · subst has
    simp
  · obtain ⟨n, hn⟩ := Nat.exists_eq_add_one_of_ne_zero (List.length_pos_iff.2 has).ne'
    have hlt : n < (as ++ cs).length := by
      rw [List.length_append]
      omega
    rw [if_pos (List.length_pos_iff.2 has), hn, Nat.add_sub_cancel, get,
      List.getElem?_eq_getElem hlt, ok_bind]
    simp only [Nat.add_right_cancel_iff, forall_eq, List.getElem?_eq_getElem hlt, Option.any_some]
    simp

theorem matchAt_eq_some_iff {start : Nat} : matchAt bs k start = .ok (some stop) ↔
    precededBy isWordChar bs start = .ok false ∧ wordsAt bs k start = .ok (some stop) ∧
      bs[stop]?.any isWordByte = false := by
  rw [matchAt]
  rcases precededBy isWordChar bs start with e | (_ | _)
  · simp [bind, Except.bind]
  · simp only [ok_bind]
    rcases wordsAt bs k start with e | (_ | pos)
    · simp [bind, Except.bind]
    · simp
    · have hp : bs[pos]?.any isWordByte = bs[pos]?.any fun b => isWordChar (byteChar b) := rfl
      simp only [ok_bind, pure_eq, Bool.false_eq_true, if_false, Except.ok.injEq, true_and,
        Option.some.injEq, Option.filter_some, ← hp]
      constructor
      · intro h
        split at h
        next hb =>
          obtain rfl := Option.some.inj h
          exact ⟨rfl, by simpa using hb⟩
        · cases h
      · rintro ⟨rfl, hb⟩
        rw [hb]
        rfl
  · simp

theorem matchAt_append_iff (hk : k.isLettered) (as cs : List UInt8) (stop : Nat) :
    matchAt (as ++ cs) k as.length = .ok (some stop) ↔
      (∀ i, i + 1 = as.length → (as ++ cs)[i]?.any isWordByte = false) ∧
        (∃ m, Keyword.Spelled k.words m ∧ m <+: cs ∧ as.length + m.length = stop) ∧
          (as ++ cs)[stop]?.any isWordByte = false := by
  obtain ⟨ws⟩ := k
  obtain ⟨w, ws, rfl, hw⟩ := Keyword.of_isLettered hk
  rw [matchAt_eq_some_iff, wordsAt_eq_some_iff hw, precededBy_eq_false_iff]
  refine and_congr_right fun _ => and_congr_left fun _ => exists_congr fun m => ?_
  constructor
  · rintro ⟨rest, rfl, hm, hl⟩
    exact ⟨hm, List.prefix_append _ _, hl⟩
  · rintro ⟨hm, ⟨rest, rfl⟩, hl⟩
    exact ⟨rest, rfl, hm, hl⟩

variable {t : Text} {s : Span} {p : Position} {i start : Nat} {stopAt : Nat → Checked (Option Nat)}

theorem map_offset_scanFrom (i : Nat) (n : Nesting) (as : List UInt8) :
    (scanFrom i n as).map (·.offset) = List.range' i as.length := by
  induction as generalizing i n with
  | nil => rfl
  | cons a as ih => rw [scanFrom, List.map_cons, ih, List.length_cons, List.range'_succ]

theorem offset_of_getElem? (h : (scan t)[i]? = some p) : p.offset = i := by
  have ho : ((scan t).map (·.offset))[i]? = some p.offset := by
    rw [List.getElem?_map, h, Option.map_some]
  rw [scan, map_offset_scanFrom] at ho
  obtain ⟨hi, ho⟩ := List.getElem?_eq_some_iff.1 ho
  rw [List.getElem_range'] at ho
  omega

theorem isTopAt_iff_mem_scan :
    Nesting.isTopAt t i ↔ ∃ p ∈ scan t, p.offset = i ∧ p.nesting.isTop := by
  rw [← isTopAt_eq, isTopAt, Option.any_eq_true]
  constructor
  · rintro ⟨p, hp, ht⟩
    exact ⟨p, List.mem_of_getElem? hp, offset_of_getElem? hp, ht⟩
  · rintro ⟨p, hp, rfl, ht⟩
    obtain ⟨j, hj⟩ := List.mem_iff_getElem?.1 hp
    exact ⟨p, by rwa [offset_of_getElem? hj], ht⟩

theorem pairwise_offset_scan (t : Text) : (scan t).Pairwise (·.offset < ·.offset) := by
  rw [← List.pairwise_map, scan, map_offset_scanFrom]
  exact List.pairwise_lt_range'

theorem of_findSomeM?_none {α β : Type} {f : α → Checked (Option β)} {as : List α}
    (h : as.findSomeM? f = .ok none) : ∀ a ∈ as, f a = .ok none := by
  induction as with
  | nil => exact List.forall_mem_nil _
  | cons a as ih =>
      rw [List.findSomeM?] at h
      rcases ha : f a with e | (_ | b) <;> rw [ha] at h
      · cases h
      · exact List.forall_mem_cons.2 ⟨ha, ih h⟩
      · cases h

theorem of_findSomeM?_some {α β : Type} {f : α → Checked (Option β)} {as : List α} {b : β}
    (h : as.findSomeM? f = .ok (some b)) :
    ∃ front a rest, as = front ++ a :: rest ∧ f a = .ok (some b) ∧ ∀ d ∈ front, f d = .ok none := by
  induction as with
  | nil => cases h
  | cons a as ih =>
      rw [List.findSomeM?] at h
      rcases ha : f a with e | (_ | d) <;> rw [ha] at h
      · cases h
      · obtain ⟨front, a', rest, rfl, hb, hf⟩ := ih h
        exact ⟨a :: front, a', rest, rfl, hb, List.forall_mem_cons.2 ⟨ha, hf⟩⟩
      · cases h
        exact ⟨[], a, as, rfl, ha, List.forall_mem_nil _⟩

theorem spanAt_eq_some_iff : spanAt stopAt p = .ok (some s) ↔
    p.offset = s.start ∧ stopAt p.offset = .ok (some s.stop) := by
  obtain ⟨start, stop⟩ := s
  rw [spanAt]
  rcases stopAt p.offset with e | (_ | pos) <;> simp [bind, Except.bind]

theorem of_spanAt_none (h : spanAt stopAt p = .ok none) : stopAt p.offset = .ok none := by
  rw [spanAt] at h
  rcases hs : stopAt p.offset with e | (_ | pos)
  · rw [hs] at h
    cases h
  · rfl
  · rw [hs] at h
    cases h

theorem mem_candidates_iff : p ∈ ((scan t).drop start).filter (·.nesting.isTop) ↔
    (p ∈ scan t ∧ start ≤ p.offset) ∧ p.nesting.isTop := by
  rw [drop_scan, List.mem_filter, List.mem_filter, decide_eq_true_eq]

theorem of_findFirst_none (h : findFirst t start stopAt = .ok none) (hi : Nesting.isTopAt t i)
    (hs : start ≤ i) : stopAt i = .ok none := by
  obtain ⟨p, hp, rfl, ht⟩ := isTopAt_iff_mem_scan.1 hi
  exact of_spanAt_none (of_findSomeM?_none h p (mem_candidates_iff.2 ⟨⟨hp, hs⟩, ht⟩))

theorem of_findFirst_some (h : findFirst t start stopAt = .ok (some s)) :
    Nesting.isTopAt t s.start ∧ start ≤ s.start ∧ stopAt s.start = .ok (some s.stop) ∧
      ∀ i, Nesting.isTopAt t i → start ≤ i → i < s.start → stopAt i = .ok none := by
  obtain ⟨front, p, rest, he, hp, hf⟩ := of_findSomeM?_some h
  have hm (q : Position) : q ∈ front ++ p :: rest ↔
      (q ∈ scan t ∧ start ≤ q.offset) ∧ q.nesting.isTop := he ▸ mem_candidates_iff
  have hpw := (pairwise_offset_scan t).drop (i := start) |>.filter (·.nesting.isTop)
  rw [he, List.pairwise_append, List.pairwise_cons] at hpw
  obtain ⟨ho, hstop⟩ := spanAt_eq_some_iff.1 hp
  obtain ⟨⟨hps, hle⟩, htop⟩ := (hm p).1 (by simp)
  rw [ho] at hstop hle
  refine ⟨isTopAt_iff_mem_scan.2 ⟨p, hps, ho, htop⟩, hle, hstop, fun i hi hs hlt => ?_⟩
  obtain ⟨q, hq, rfl, hqt⟩ := isTopAt_iff_mem_scan.1 hi
  have hqm := (hm q).2 ⟨⟨hq, hs⟩, hqt⟩
  rw [List.mem_append, List.mem_cons] at hqm
  rcases hqm with hqf | rfl | hqr
  · exact of_spanAt_none (hf q hqf)
  · omega
  · have hl := hpw.2.1.1 q hqr
    omega

end Checked

namespace Keyword

variable {k : Keyword} {t : Text} {s : Span} {o : Occurrence} {i start : Nat}

theorem standsAt_iff (hk : k.isLettered) : k.StandsAt t s ↔
    Nesting.isTopAt t s.start ∧ matchAt t.utf8 k s.start = .ok (some s.stop) := by
  have hm (htop : Nesting.isTopAt t s.start) :
      matchAt t.utf8 k s.start = .ok (some s.stop) ↔
        (∀ i, i + 1 = s.start → t.utf8[i]?.any isWordByte = false) ∧
          (∃ bs, Spelled k.words bs ∧ bs <+: t.utf8.drop s.start ∧ s.start + bs.length = s.stop) ∧
            t.utf8[s.stop]?.any isWordByte = false := by
    have h := Checked.matchAt_append_iff hk (t.utf8.take s.start) (t.utf8.drop s.start) s.stop
    rwa [List.take_append_drop, List.length_take_of_le (Nesting.lt_of_isTopAt htop).le] at h
  constructor
  · intro h
    exact ⟨h.isTop, (hm h.isTop).2 ⟨h.before, h.spelled, h.after⟩⟩
  · rintro ⟨htop, h⟩
    obtain ⟨hb, hs, ha⟩ := (hm htop).1 h
    exact ⟨htop, hb, hs, ha⟩

theorem StandsAt.eq {p : Span} (hk : k.isLettered) (hs : k.StandsAt t s) (hp : k.StandsAt t p)
    (h : s.start = p.start) : s = p := by
  have hs := ((standsAt_iff hk).1 hs).2
  have hp := ((standsAt_iff hk).1 hp).2
  rw [h, hp] at hs
  obtain ⟨start, stop⟩ := s
  obtain ⟨start', stop'⟩ := p
  simp_all

theorem isTopAt_of_mem_occurrences (hk : k.isLettered) (ho : o ∈ k.occurrences t)
    (hl : o.start ≤ i) (hi : i < o.stop) : Nesting.isTopAt t i := by
  obtain ⟨rfl, hat⟩ := (mem_occurrences_iff hk).1 ho
  exact Nesting.isTopAt_of_isPlain hat.closed (isPlain_of_read? hk hat.read) _ hl hi

theorem of_findFrom?_some (hk : k.isLettered)
    (h : (k.findFrom? start t).map (·.byteSpan) = some s) : k.StandsAt t s ∧ start ≤ s.start ∧
      ∀ p, k.StandsAt t p → start ≤ p.start → s.start ≤ p.start := by
  have hf := Checked.findKeyword_eq t k start
  rw [h] at hf
  obtain ⟨htop, hle, hm, hn⟩ := Checked.of_findFirst_some hf
  refine ⟨(standsAt_iff hk).2 ⟨htop, hm⟩, hle, fun p hp hs => ?_⟩
  by_contra hlt
  obtain ⟨hpt, hpm⟩ := (standsAt_iff hk).1 hp
  rw [hn p.start hpt hs (Nat.lt_of_not_le hlt)] at hpm
  cases hpm

theorem of_findFrom?_none (hk : k.isLettered) (h : k.findFrom? start t = none) {p : Span}
    (hp : k.StandsAt t p) : p.start < start := by
  have hf := Checked.findKeyword_eq t k start
  rw [h] at hf
  by_contra hlt
  obtain ⟨hpt, hpm⟩ := (standsAt_iff hk).1 hp
  rw [Checked.of_findFirst_none hf hpt (Nat.le_of_not_lt hlt)] at hpm
  cases hpm

theorem findFrom?_eq_some_iff (hk : k.isLettered) :
    (k.findFrom? start t).map (·.byteSpan) = some s ↔ k.StandsAt t s ∧ start ≤ s.start ∧
      ∀ p, k.StandsAt t p → start ≤ p.start → s.start ≤ p.start := by
  refine ⟨of_findFrom?_some hk, fun ⟨hs, hle, hleast⟩ => ?_⟩
  cases h : k.findFrom? start t with
  | none => exact absurd (of_findFrom?_none hk h hs) (Nat.not_lt.2 hle)
  | some o =>
      obtain ⟨ho, hol, holeast⟩ := of_findFrom?_some (s := o.byteSpan) hk (by rw [h, Option.map_some])
      have he := Nat.le_antisymm (holeast s hs hle) (hleast _ ho hol)
      rw [Option.map_some, ho.eq hk hs he]

theorem findFrom?_eq_none_iff (hk : k.isLettered) :
    k.findFrom? start t = none ↔ ∀ p, k.StandsAt t p → p.start < start := by
  refine ⟨fun h p => of_findFrom?_none hk h, fun h => ?_⟩
  cases ho : k.findFrom? start t with
  | none => rfl
  | some o =>
      obtain ⟨hs, hle, -⟩ := of_findFrom?_some (s := o.byteSpan) hk (by rw [ho, Option.map_some])
      exact absurd (h _ hs) (Nat.not_lt.2 hle)

theorem findFrom?_front_iff (hk : k.isLettered) {stop : Nat} :
    (k.findFrom? 0 t).map (·.byteSpan) = some ⟨0, stop⟩ ↔
      (k.at? (.front t)).map (·.stop) = some stop := by
  have hm := Checked.matchAt_eq k [] t .top
  rw [List.nil_append, Text.byteSize, List.reverse_nil, ← Site.front] at hm
  rw [findFrom?_eq_some_iff hk, standsAt_iff hk, hm, Except.ok.injEq]
  refine ⟨fun h => h.1.2, fun h => ⟨⟨?_, h⟩, Nat.zero_le _, fun _ _ _ => Nat.zero_le _⟩⟩
  obtain ⟨o, ho, -⟩ := Option.map_eq_some_iff.1 h
  obtain ⟨m, r, hr⟩ : ∃ m r, k.read? t = some (m, r) := ⟨_, _, (at?_eq_some_iff.1 ho).2.2.1⟩
  obtain rfl := eq_of_read? hr
  have hm := isPlain_of_read? hk hr
  obtain ⟨c, m, rfl⟩ := List.exists_cons_of_ne_nil (ne_nil_of_read? hk hr)
  have hpos : 0 < Text.byteSize (c :: m) := Nat.add_pos_left c.utf8Size_pos _
  refine Nesting.isTopAt_of_isPlain (s := []) rfl hm r (Nat.zero_le _) ?_
  rwa [Text.byteSize, Nat.zero_add]

/-- What follows a keyword at the front is what follows its first occurrence, if that is there. -/
theorem strip?_eq_some_iff (hk : k.isLettered) {rest : Text} : k.strip? t = some rest ↔
    ∃ front, t = front ++ rest ∧ (k.findFrom? 0 t).map (·.byteSpan) = some ⟨0, front.byteSize⟩ := by
  simp only [findFrom?_front_iff hk, strip?, Option.map_eq_some_iff]
  have hat (o : Occurrence) (ho : k.at? (.front t) = some o) :
      t = o.matched ++ o.after ∧ o.stop = o.matched.byteSize := by
    obtain ⟨hb, ht⟩ := Checked.of_at? ho
    refine ⟨ht, ?_⟩
    rw [Occurrence.stop, Occurrence.start, hb]
    exact Nat.zero_add _
  constructor
  · rintro ⟨o, ho, rfl⟩
    exact ⟨o.matched, (hat o ho).1, o, ho, (hat o ho).2⟩
  · rintro ⟨front, rfl, o, ho, hs⟩
    obtain ⟨ht, hstop⟩ := hat o ho
    have he : front = o.matched := by
      rw [← Text.takeBytes_append front rest, ht, ← hs, hstop, Text.takeBytes_append]
    rw [he] at ht
    exact ⟨o, ho, (List.append_cancel_left ht).symm⟩

/-- The search for a keyword gives the first place where it stands, at or behind the offset, and
nothing if there is none. No byte of what it gives is inside a literal or a group, and a keyword is
cut off the front of a text exactly if the search finds it there. -/
theorem search_exact (hk : k.isLettered) (t : Text) (start : Nat) :
    (∀ s, (k.findFrom? start t).map (·.byteSpan) = some s ↔
        k.StandsAt t s ∧ start ≤ s.start ∧
          ∀ p, k.StandsAt t p → start ≤ p.start → s.start ≤ p.start) ∧
      (k.findFrom? start t = none ↔ ∀ p, k.StandsAt t p → p.start < start) ∧
      (∀ o, k.findFrom? start t = some o → ∀ i, o.start ≤ i → i < o.stop → Nesting.isTopAt t i) ∧
      ∀ rest, k.strip? t = some rest ↔
        ∃ front, t = front ++ rest ∧
          (k.findFrom? 0 t).map (·.byteSpan) = some ⟨0, front.byteSize⟩ := by
  refine ⟨fun s => findFrom?_eq_some_iff hk, findFrom?_eq_none_iff hk, fun o ho i => ?_,
    fun rest => strip?_eq_some_iff hk⟩
  exact isTopAt_of_mem_occurrences hk (List.mem_of_find?_eq_some ho)

theorem search_exact_of_group_by :
    let k := ofString "GROUP BY"
    let t : Text := "f(group by) 'GROUP BY' é group \n By x".toList
    k.isLettered ∧ (k.findFrom? 3 t).map (·.byteSpan) = some ⟨26, 36⟩ ∧ k.StandsAt t ⟨26, 36⟩ := by
  have hk : (ofString "GROUP BY").isLettered := by decide
  obtain ⟨hs, -⟩ := search_exact hk "f(group by) 'GROUP BY' é group \n By x".toList 3
  have hf : ((ofString "GROUP BY").findFrom? 3 "f(group by) 'GROUP BY' é group \n By x".toList).map
      (·.byteSpan) = some ⟨26, 36⟩ := by rfl
  exact ⟨hk, hf, ((hs _).1 hf).1⟩

end Keyword

end SqlEdit
