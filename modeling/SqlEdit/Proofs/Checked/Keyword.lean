import SqlEdit.Clauses
import SqlEdit.Proofs.Checked.Scan
import SqlEdit.Proofs.Identifier.Ascii

namespace SqlEdit

def Occurrence.byteSpan (o : Occurrence) : Span :=
  ⟨o.start, o.stop⟩

namespace Checked

def sameBytes (as bs : List UInt8) : Bool :=
  Text.sameWord (as.map byteChar) (bs.map byteChar)

def wordAt? (bs : List UInt8) (w : Text) (pos : Nat) : Option Nat :=
  if pos + w.utf8.length ≤ bs.length ∧ sameBytes ((bs.drop pos).take w.utf8.length) w.utf8 then
    some (pos + w.utf8.length)
  else none

def spacedAt (bs : List UInt8) : List Text → Nat → Checked (Option Nat)
  | [], pos => .ok (some pos)
  | w :: ws, pos => do
    let gap := ((← between bs pos bs.length).takeWhile fun b => isSpace (byteChar b)).length
    if gap = 0 then return none
    match wordAt? bs w (pos + gap) with
    | none => return none
    | some pos => spacedAt bs ws pos

def precededBy (p : Char → Bool) (bs : List UInt8) (start : Nat) : Checked Bool :=
  if 0 < start then return p (byteChar (← get bs (start - 1))) else return false

def wordsAt (bs : List UInt8) (k : Keyword) (start : Nat) : Checked (Option Nat) :=
  match k.words with
  | [] => .ok (some start)
  | w :: ws =>
    match wordAt? bs w start with
    | none => .ok none
    | some pos => spacedAt bs ws pos

def matchAt (bs : List UInt8) (k : Keyword) (start : Nat) : Checked (Option Nat) := do
  if ← precededBy isWordChar bs start then return none
  let stop? ← wordsAt bs k start
  return stop?.filter fun pos => !bs[pos]?.any fun b => isWordChar (byteChar b)

def spanAt (stopAt : Nat → Checked (Option Nat)) (p : Position) : Checked (Option Span) := do
  return (← stopAt p.offset).map (Span.mk p.offset)

def findFirst (t : Text) (start : Nat) (stopAt : Nat → Checked (Option Nat)) :
    Checked (Option Span) :=
  (((scan t).drop start).filter (·.nesting.isTop)).findSomeM? (spanAt stopAt)

def findKeyword (t : Text) (k : Keyword) (start : Nat) : Checked (Option Span) :=
  findFirst t start (matchAt t.utf8 k)

def stripKeyword (t : Text) (k : Keyword) : Checked (Option Text) := do
  match ← matchAt t.utf8 k 0 with
  | none => return none
  | some stop => return some (← sliceFrom t stop)

def findTopLevel (t token : Text) (start : Nat) : Checked (Option Nat) :=
  if token.utf8 = [] then .ok none
  else do
    return (← findFirst t start fun pos => .ok (wordAt? t.utf8 token pos)).map (·.start)

end Checked

variable {b : UInt8} {c d : Char} {s t w : Text}

namespace Text

theorem eq_of_utf8_prefix {as bs : List UInt8}
    (h : String.utf8EncodeChar c ++ as = String.utf8EncodeChar d ++ bs) : c = d := by
  have hc := ByteArray.utf8DecodeChar?_utf8EncodeChar_append (b := as.toByteArray) (c := c)
  have hd := ByteArray.utf8DecodeChar?_utf8EncodeChar_append (b := bs.toByteArray) (c := d)
  rw [← List.toByteArray_append, h, List.toByteArray_append, hd] at hc
  exact (Option.some.inj hc).symm

@[simp]
theorem utf8_nil : utf8 [] = [] := rfl

theorem utf8_prefix_iff : s.utf8 <+: t.utf8 ↔ s <+: t := by
  constructor
  · intro h
    induction s generalizing t with
    | nil => exact List.nil_prefix
    | cons c s ih =>
        cases t with
        | nil =>
            rw [utf8_cons, utf8_nil, List.prefix_nil, List.append_eq_nil_iff] at h
            exact absurd h.1 String.utf8EncodeChar_ne_nil
        | cons d t =>
            rw [utf8_cons, utf8_cons] at h
            obtain ⟨r, hr⟩ := h
            rw [List.append_assoc] at hr
            obtain rfl := eq_of_utf8_prefix hr
            rw [List.append_cancel_left_eq] at hr
            exact List.cons_prefix_cons.2 ⟨rfl, ih ⟨r, hr⟩⟩
  · rintro ⟨r, rfl⟩
    exact ⟨utf8 r, (utf8_append s r).symm⟩

theorem byteChar_injective : Function.Injective byteChar := by
  intro a b h
  have hn := congrArg Char.toNat h
  rw [toNat_byteChar, toNat_byteChar] at hn
  exact UInt8.toNat_inj.1 hn

theorem toLower_of_le (hc : 128 ≤ c.toNat) : c.toLower = c :=
  toLower_of_not_isAlpha (isAlpha_of_le hc)

theorem foldCase_append (s t : Text) : foldCase (s ++ t) = foldCase s ++ foldCase t :=
  List.map_append

theorem foldCase_utf8 (t : Text) :
    foldCase (t.utf8.map byteChar) = (foldCase t).utf8.map byteChar := by
  induction t with
  | nil => rfl
  | cons c t ih =>
      have hc : foldCase ((String.utf8EncodeChar c).map byteChar) =
          (String.utf8EncodeChar c.toLower).map byteChar := by
        by_cases hc : c.toNat < 128
        · obtain ⟨b, hb, he⟩ := exists_of_lt hc
          obtain ⟨b', hb', he'⟩ := exists_of_lt (toLower_lt hc)
          rw [hb, hb', List.map_singleton, List.map_singleton, he, he']
          rfl
        · have hc := Nat.le_of_not_lt hc
          rw [toLower_of_le hc, foldCase, List.map_map]
          exact List.map_congr_left fun b hb => toLower_of_le (le_byteChar hc hb)
      have hf : foldCase (c :: t) = c.toLower :: foldCase t := rfl
      rw [hf, utf8_cons, utf8_cons, List.map_append, List.map_append, foldCase_append, hc, ih]

theorem byteSize_foldCase (t : Text) : (foldCase t).byteSize = t.byteSize := by
  have h := congrArg List.length (foldCase_utf8 t)
  rwa [length_foldCase, List.length_map, List.length_map, length_utf8, length_utf8, eq_comm] at h

theorem byteSize_of_sameWord (h : sameWord s t) : s.byteSize = t.byteSize := by
  rw [← byteSize_foldCase s, eq_of_beq h, byteSize_foldCase]

theorem readWord?_eq_some_of_prefix (h : foldCase w <+: foldCase t) :
    ∃ front rest, readWord? w t = some (front, rest) := by
  have hp := List.prefix_iff_eq_take.1 h
  rw [length_foldCase, foldCase, foldCase, ← List.map_take] at hp
  exact ⟨_, _, if_pos (beq_iff_eq.2 hp)⟩

theorem prefix_of_readWord? {front rest : Text} (h : readWord? w t = some (front, rest)) :
    foldCase w <+: foldCase t := by
  obtain ⟨rfl, hw⟩ := readWord?_eq_some_iff.1 h
  rw [foldCase_append, eq_of_beq hw]
  exact List.prefix_append _ _

end Text

namespace Checked

theorem sameBytes_iff {as bs : List UInt8} :
    (bs.length ≤ as.length ∧ sameBytes (as.take bs.length) bs) ↔
      Text.foldCase (bs.map byteChar) <+: Text.foldCase (as.map byteChar) := by
  rw [List.prefix_iff_eq_take, Text.length_foldCase, List.length_map, sameBytes, Text.sameWord,
    beq_iff_eq, Text.foldCase, Text.foldCase, Text.foldCase, ← List.map_take, ← List.map_take,
    eq_comm]
  constructor
  · exact And.right
  · intro h
    have hl := congrArg List.length h
    simp only [List.length_map, List.length_take] at hl
    exact ⟨by omega, h⟩

theorem drop_utf8 (s t : Text) : (Text.utf8 (s ++ t)).drop s.byteSize = t.utf8 := by
  rw [Text.utf8_append, ← Text.length_utf8, List.drop_left]

theorem wordAt?_eq (s t w : Text) : wordAt? (Text.utf8 (s ++ t)) w s.byteSize =
    (Text.readWord? w t).map fun (front, _) => s.byteSize + front.byteSize := by
  have hiff : (s.byteSize + w.utf8.length ≤ (Text.utf8 (s ++ t)).length ∧
      sameBytes (t.utf8.take w.utf8.length) w.utf8) ↔ Text.foldCase w <+: Text.foldCase t := by
    rw [Text.utf8_append, List.length_append, Text.length_utf8 s, Nat.add_le_add_iff_left,
      sameBytes_iff, Text.foldCase_utf8, Text.foldCase_utf8,
      List.prefix_map_iff_of_injective Text.byteChar_injective, Text.utf8_prefix_iff]
  rw [wordAt?, drop_utf8]
  by_cases hp : Text.foldCase w <+: Text.foldCase t
  · obtain ⟨front, rest, hr⟩ := Text.readWord?_eq_some_of_prefix hp
    have hw := Text.byteSize_of_sameWord (Text.readWord?_eq_some_iff.1 hr).2
    rw [if_pos (hiff.2 hp), hr, Text.length_utf8, hw]
    rfl
  · rw [if_neg (fun h => hp (hiff.1 h))]
    cases hr : Text.readWord? w t with
    | none => rfl
    | some p => exact absurd (Text.prefix_of_readWord? hr) hp

theorem takeWhile_utf8 {p : Char → Bool} (hp : ByteClass p) (t : Text) :
    (t.utf8.takeWhile fun b => p (byteChar b)) = Text.utf8 (t.takeWhile p) := by
  induction t with
  | nil => rfl
  | cons c t ih =>
      have hb : ∀ b ∈ String.utf8EncodeChar c, p (byteChar b) = p c := fun b hb => hp.byteChar hb
      rw [Text.utf8_cons]
      cases hc : p c with
      | true =>
          rw [List.takeWhile_append_of_pos (fun b hm => (hb b hm).trans hc), ih,
            List.takeWhile_cons_of_pos hc, Text.utf8_cons]
      | false =>
          obtain ⟨a, as, ha⟩ := List.exists_cons_of_ne_nil (String.utf8EncodeChar_ne_nil (c := c))
          rw [List.takeWhile_cons_of_neg (by simp [hc]), ha, List.cons_append,
            List.takeWhile_cons_of_neg]
          · rfl
          · rw [hb a (by simp [ha]), hc]
            exact Bool.false_ne_true

theorem head?_utf8 {p : Char → Bool} (hp : ByteClass p) (s t : Text) :
    ((Text.utf8 (s ++ t))[s.byteSize]?.any fun b => p (byteChar b)) = t.head?.any p := by
  cases t with
  | nil =>
      rw [List.append_nil, List.getElem?_eq_none (Nat.le_of_eq (Text.length_utf8 s))]
      rfl
  | cons c t =>
      obtain ⟨b, hb, he⟩ := getElem?_utf8 c.utf8Size_pos s t
      rw [Nat.add_zero] at he
      rw [he]
      exact hp.byteChar hb

theorem spacedAt_eq (ws : List Text) (s t : Text) :
    spacedAt (Text.utf8 (s ++ t)) ws s.byteSize =
      .ok ((Keyword.readSpaced? ws t).map fun (matched, _) => s.byteSize + matched.byteSize) := by
  induction ws generalizing s t with
  | nil => rfl
  | cons w ws ih =>
      have hb : between (Text.utf8 (s ++ t)) s.byteSize (Text.utf8 (s ++ t)).length =
          .ok t.utf8 := by
        rw [Text.utf8_append, ← Text.length_utf8]
        exact between_append_right s.utf8 t.utf8
      rw [spacedAt, hb, ok_bind, takeWhile_utf8 byteClass_isSpace, Text.length_utf8,
        Keyword.readSpaced?]
      by_cases hg : t.takeWhile isSpace = []
      · rw [hg]
        rfl
      · have hpos : (Text.byteSize (t.takeWhile isSpace)) ≠ 0 := by
          obtain ⟨c, u, hc⟩ := List.exists_cons_of_ne_nil hg
          have := c.utf8Size_pos
          rw [hc, Text.byteSize]
          omega
        have ht : s ++ t = (s ++ t.takeWhile isSpace) ++ t.dropWhile isSpace := by
          rw [List.append_assoc, List.takeWhile_append_dropWhile]
        rw [if_neg hpos, ht, ← Text.byteSize_append, wordAt?_eq]
        simp only [if_neg hg]
        cases hr : Text.readWord? w (t.dropWhile isSpace) with
        | none => rfl
        | some p =>
            obtain ⟨front, rest⟩ := p
            have hd := (Text.readWord?_eq_some_iff.1 hr).1
            have hs := ih (s ++ t.takeWhile isSpace ++ front) rest
            rw [List.append_assoc _ front, ← hd, Text.byteSize_append _ front] at hs
            refine hs.trans ?_
            simp only [Option.bind_eq_bind, Option.bind_some]
            cases Keyword.readSpaced? ws rest with
            | none => rfl
            | some q => simp [Text.byteSize_append, Nat.add_assoc]

theorem precededBy_eq {p : Char → Bool} (hp : ByteClass p) (s t : Text) :
    precededBy p (Text.utf8 (s ++ t)) s.byteSize = .ok (s.getLast?.any p) := by
  rcases s.eq_nil_or_concat' with rfl | ⟨u, c, rfl⟩
  · rfl
  · have hc := c.utf8Size_pos
    obtain ⟨b, hb, hpb⟩ := get_utf8 (c := c) (i := c.utf8Size - 1) (by omega) u t
    rw [precededBy, Text.byteSize_concat, ← List.append_cons, if_pos (Nat.add_pos_right _ hc),
      Nat.add_sub_assoc hc, hb, ok_bind, hpb _ hp, List.getLast?_concat]
    rfl

/-- No keyword stands inside a character. -/
theorem matchAt_inside {i : Nat} (h₀ : 0 < i) (hi : i < c.utf8Size) (s t : Text) (k : Keyword) :
    matchAt (Text.utf8 (s ++ c :: t)) k (s.byteSize + i) = .ok none := by
  obtain ⟨b, hb, hp⟩ := get_utf8 (c := c) (i := i - 1) (by omega) s t
  have hglued : precededBy isWordChar (Text.utf8 (s ++ c :: t)) (s.byteSize + i) = .ok true := by
    rw [precededBy, if_pos (Nat.add_pos_right _ h₀), Nat.add_sub_assoc h₀, hb, ok_bind,
      hp _ byteClass_isWordChar, isWordChar_of_le (le_of_utf8Size (by omega))]
    rfl
  rw [matchAt, hglued]
  rfl

theorem wordsAt_eq (k : Keyword) (s t : Text) :
    wordsAt (Text.utf8 (s ++ t)) k s.byteSize =
      .ok ((k.read? t).map fun (matched, _) => s.byteSize + matched.byteSize) := by
  rw [wordsAt, Keyword.read?]
  cases k.words with
  | nil => rfl
  | cons w ws =>
      simp only [wordAt?_eq]
      cases hr : Text.readWord? w t with
      | none => rfl
      | some p =>
          obtain ⟨front, rest⟩ := p
          obtain ⟨rfl, -⟩ := Text.readWord?_eq_some_iff.1 hr
          have hs := spacedAt_eq ws (s ++ front) rest
          rw [List.append_assoc, Text.byteSize_append] at hs
          refine hs.trans ?_
          simp only [Option.bind_eq_bind, Option.bind_some]
          cases Keyword.readSpaced? ws rest with
          | none => rfl
          | some q => simp [Text.byteSize_append, Nat.add_assoc]

theorem matchAt_eq (k : Keyword) (s t : Text) (n : Nesting) :
    matchAt (Text.utf8 (s ++ t)) k s.byteSize =
      .ok ((k.at? ⟨s.reverse, n, t⟩).map (·.stop)) := by
  rw [matchAt, precededBy_eq byteClass_isWordChar, ok_bind, Keyword.at?, List.head?_reverse]
  cases s.getLast?.any isWordChar with
  | true => rfl
  | false =>
      rw [if_neg Bool.false_ne_true, if_neg Bool.false_ne_true, wordsAt_eq, ok_bind, Site.read?]
      cases hr : k.read? t with
      | none => rfl
      | some p =>
          obtain ⟨m, r⟩ := p
          obtain rfl := Keyword.eq_of_read? hr
          have hh := head?_utf8 byteClass_isWordChar (s ++ m) r
          rw [List.append_assoc, Text.byteSize_append] at hh
          simp only [Option.map_some, Option.filter_some, hh, List.reverse_reverse]
          cases r.head?.any isWordChar <;> rfl

theorem findSomeM?_cons {stopAt : Nat → Checked (Option Nat)} {o? : Option Occurrence}
    {found : List Occurrence} {ps : List Position} {k start : Nat} {n : Nesting}
    (hk : stopAt k = .ok (o?.map (·.stop))) (ho : ∀ o, o? = some o → o.start = k)
    (h : ((ps.filter (start ≤ ·.offset)).filter (·.nesting.isTop)).findSomeM? (spanAt stopAt) =
      .ok ((found.find? (start ≤ ·.start)).map (·.byteSpan))) :
    (((⟨k, n⟩ :: ps).filter (start ≤ ·.offset)).filter (·.nesting.isTop)).findSomeM?
        (spanAt stopAt) =
      .ok (((if n.isTop then o?.toList ++ found else found).find? (start ≤ ·.start)).map
        (·.byteSpan)) := by
  rw [List.filter_cons]
  by_cases hstart : start ≤ k
  · rw [if_pos (decide_eq_true hstart), List.filter_cons]
    cases n.isTop with
    | false => exact h
    | true =>
        rw [if_pos rfl, if_pos rfl, List.findSomeM?, spanAt, hk, ok_bind]
        cases o? with
        | none => exact h
        | some o =>
            have hs := ho o rfl
            rw [Option.toList_some, List.singleton_append,
              List.find?_cons_of_pos (by simpa [hs] using hstart), Option.map_some,
              Option.map_some, Option.map_some, Occurrence.byteSpan, hs]
            rfl
  · rw [if_neg (by simpa using hstart), h]
    cases n.isTop with
    | false => rfl
    | true =>
        cases o? with
        | none => rfl
        | some o =>
            rw [if_pos rfl, Option.toList_some, List.singleton_append,
              List.find?_cons_of_neg (by simpa [ho o rfl] using hstart)]

/-- What is found at the borders of the rest of a text is all that is found in its bytes. -/
theorem findSomeM?_scanFrom {stopAt : Nat → Checked (Option Nat)} {find : Site → Option Occurrence}
    (hf : ∀ p o, find p = some o → o.before = p.before.reverse) (start : Nat) (s t : Text)
    (n : Nesting)
    (hat : ∀ u r m, s ++ t = u ++ r →
      stopAt (Text.byteSize u) = .ok ((find ⟨u.reverse, m, r⟩).map (·.stop)))
    (hin : ∀ u c r i, s ++ t = u ++ c :: r → 0 < i → i < c.utf8Size →
      stopAt (Text.byteSize u + i) = .ok none) :
    (((scanFrom s.byteSize n t.utf8).filter (start ≤ ·.offset)).filter
        (·.nesting.isTop)).findSomeM? (spanAt stopAt) =
      .ok (((((sitesAfter s.reverse n t).filter (·.nesting.isTop)).filterMap find).find?
        (start ≤ ·.start)).map (·.byteSpan)) := by
  induction t generalizing s n with
  | nil => rfl
  | cons c t ih =>
      obtain ⟨inner, hs, -, hi⟩ := scanFrom_cons s.byteSize n c t
      have hins : ∀ p ∈ (inner.filter (start ≤ ·.offset)).filter (·.nesting.isTop),
          spanAt stopAt p = .ok none := by
        intro p hp
        obtain ⟨-, -, i, h₀, hlt, he⟩ := hi p (List.mem_of_mem_filter (List.mem_of_mem_filter hp))
        rw [spanAt, he, hin s c t i rfl h₀ hlt]
        rfl
      have hst := List.append_cons s c t
      have hrest := ih (s ++ [c]) (n.step c) (hst ▸ hat) (hst ▸ hin)
      rw [Text.byteSize_concat, List.reverse_append, List.reverse_singleton,
        List.singleton_append] at hrest
      have hskip := (findSomeM?_skip hins _).trans hrest
      rw [← List.filter_append, ← List.filter_append] at hskip
      have hstart : ∀ o, find ⟨s.reverse, n, c :: t⟩ = some o → o.start = s.byteSize := by
        intro o ho
        rw [Occurrence.start, hf _ _ ho, List.reverse_reverse]
      rw [hs, List.cons_append, findSomeM?_cons (hat s (c :: t) n rfl) hstart hskip, sitesAfter,
        List.filter_cons]
      cases n.isTop with
      | false => rfl
      | true =>
          rw [if_pos rfl, if_pos rfl, List.filterMap_cons]
          cases find ⟨s.reverse, n, c :: t⟩ <;> rfl

theorem findFirst_eq {stopAt : Nat → Checked (Option Nat)} {find : Site → Option Occurrence}
    (hf : ∀ p o, find p = some o → o.before = p.before.reverse) (t : Text) (start : Nat)
    (hat : ∀ u r m, t = u ++ r →
      stopAt (Text.byteSize u) = .ok ((find ⟨u.reverse, m, r⟩).map (·.stop)))
    (hin : ∀ u c r i, t = u ++ c :: r → 0 < i → i < c.utf8Size →
      stopAt (Text.byteSize u + i) = .ok none) :
    findFirst t start stopAt =
      .ok ((((topSites t).filterMap find).find? (start ≤ ·.start)).map (·.byteSpan)) := by
  have h := findSomeM?_scanFrom hf start [] t .top hat hin
  rwa [Text.byteSize, ← scan, ← drop_scan] at h

theorem of_at? {k : Keyword} {p : Site} {o : Occurrence} (h : k.at? p = some o) :
    o.before = p.before.reverse ∧ p.after = o.matched ++ o.after := by
  obtain ⟨-, hb, hr, -⟩ := Keyword.at?_eq_some_iff.1 h
  exact ⟨hb.symm, Keyword.eq_of_read? hr⟩

theorem slice_of_text {o : Occurrence} (h : o.text = t) :
    sliceTo t o.start = .ok o.before ∧ sliceFrom t o.stop = .ok o.after := by
  refine ⟨sliceTo_of_append (by rw [← h, Occurrence.text, List.append_assoc]) rfl, ?_⟩
  exact sliceFrom_of_append h.symm (Text.byteSize_append ..).symm

theorem findKeyword_eq (t : Text) (k : Keyword) (start : Nat) :
    findKeyword t k start = .ok ((k.findFrom? start t).map (·.byteSpan)) := by
  refine findFirst_eq (fun p o h => (of_at? h).1) t start ?_ ?_
  · rintro u r m rfl
    exact matchAt_eq k u r m
  · rintro u c r i rfl h₀ hi
    exact matchAt_inside h₀ hi u r k

theorem stripKeyword_eq (t : Text) (k : Keyword) : stripKeyword t k = .ok (k.strip? t) := by
  have h := matchAt_eq k [] t .top
  rw [List.nil_append, Text.byteSize, List.reverse_nil] at h
  rw [stripKeyword, h, ok_bind, Keyword.strip?, Site.front]
  cases ho : k.at? ⟨[], .top, t⟩ with
  | none => rfl
  | some o =>
      obtain ⟨hb, ht⟩ := of_at? ho
      have hstop : o.stop = Text.byteSize o.matched := by
        rw [Occurrence.stop, Occurrence.start, hb, List.reverse_nil, Text.byteSize, Nat.zero_add]
      simp only [Option.map_some, sliceFrom_of_append ht hstop, ok_bind]
      rfl

/-- No token begins inside a character: its first byte is the first byte of a character. -/
theorem wordAt?_inside {i : Nat} (h₀ : 0 < i) (hi : i < c.utf8Size) (hw : w ≠ []) (s t : Text) :
    wordAt? (Text.utf8 (s ++ c :: t)) w (s.byteSize + i) = none := by
  obtain ⟨d, w', rfl⟩ := List.exists_cons_of_ne_nil hw
  have hd : 0 < (String.utf8EncodeChar d).length := by
    rw [String.length_utf8EncodeChar]
    exact d.utf8Size_pos
  have hc : i < (String.utf8EncodeChar c).length := by rwa [String.length_utf8EncodeChar]
  have hle := le_of_utf8Size (Nat.lt_of_le_of_lt h₀ hi)
  obtain ⟨as, ha⟩ : ∃ as, (Text.utf8 (s ++ c :: t)).drop (s.byteSize + i) =
      (String.utf8EncodeChar c)[i] :: as := by
    rw [← List.drop_drop, drop_utf8, Text.utf8_cons,
      List.drop_append_of_le_length (Nat.le_of_lt hc), List.drop_eq_getElem_cons hc]
    exact ⟨_, rfl⟩
  obtain ⟨bs, hb⟩ : ∃ bs, Text.utf8 (d :: w') = (String.utf8EncodeChar d)[0] :: bs := by
    obtain ⟨e, es, he⟩ := List.exists_cons_of_ne_nil (String.utf8EncodeChar_ne_nil (c := d))
    simp only [Text.utf8_cons, he]
    exact ⟨_, rfl⟩
  rw [wordAt?, ha, hb, List.length_cons, List.take_succ_cons, if_neg]
  rintro ⟨-, hs⟩
  have hl := (List.cons.inj (eq_of_beq hs)).1
  rw [Text.toLower_of_le (le_byteChar hle (List.getElem_mem hc))] at hl
  have hne : 128 ≤ (byteChar (String.utf8EncodeChar d)[0]).toNat := by
    by_contra h
    have hlt := toLower_lt (Nat.lt_of_not_le h)
    rw [← hl] at hlt
    exact absurd (le_byteChar hle (List.getElem_mem hc)) (Nat.not_le.2 hlt)
  rw [Text.toLower_of_le hne] at hl
  have he := Text.byteChar_injective hl
  have hfirst : (String.utf8EncodeChar d)[0].IsUTF8FirstByte :=
    UInt8.isUTF8FirstByte_getElem_utf8EncodeChar.2 rfl
  rw [← he] at hfirst
  exact absurd (UInt8.isUTF8FirstByte_getElem_utf8EncodeChar.1 hfirst) (Nat.ne_of_gt h₀)

theorem findTopLevel_eq (t token : Text) (start : Nat) :
    findTopLevel t token start = .ok ((Text.findFrom? token start t).map (·.start)) := by
  rw [findTopLevel, Text.findFrom?, Text.occurrences]
  by_cases hw : token = []
  · rw [hw]
    rfl
  · have hne : token.utf8 ≠ [] := by
      obtain ⟨d, w', rfl⟩ := List.exists_cons_of_ne_nil hw
      rw [Text.utf8_cons]
      exact List.append_ne_nil_of_left_ne_nil String.utf8EncodeChar_ne_nil _
    have h : findFirst t start (fun pos => .ok (wordAt? t.utf8 token pos)) =
        .ok ((((topSites t).filterMap (·.read? (Text.readWord? token))).find?
          (start ≤ ·.start)).map (·.byteSpan)) := by
      refine findFirst_eq (fun p o h => ?_) t start ?_ ?_
      · obtain ⟨q, -, rfl⟩ := Option.map_eq_some_iff.1 h
        rfl
      · rintro u r m rfl
        rw [wordAt?_eq, Site.read?]
        cases Text.readWord? token r with
        | none => rfl
        | some q => simp [Occurrence.stop, Occurrence.start]
      · rintro u c r i rfl h₀ hi
        rw [wordAt?_inside h₀ hi hw]
    rw [if_neg hne, if_neg hw, h, ok_bind]
    cases ((topSites t).filterMap (·.read? (Text.readWord? token))).find? (start ≤ ·.start) <;> rfl

end Checked

end SqlEdit
