import SqlEdit.Keyword
import SqlEdit.Proofs.Checked.Slice

namespace SqlEdit

def byteChar (b : UInt8) : Char :=
  Char.ofNat b.toNat

structure Position where
  offset : Nat
  nesting : Nesting

namespace Checked

def scanFrom (offset : Nat) (n : Nesting) : List UInt8 → List Position
  | [] => []
  | b :: bs => ⟨offset, n⟩ :: scanFrom (offset + 1) (n.step (byteChar b)) bs

def scan (t : Text) : List Position :=
  scanFrom 0 .top t.utf8

def isTopAt (t : Text) (offset : Nat) : Bool :=
  (scan t)[offset]?.any (·.nesting.isTop)

end Checked

variable {b : UInt8} {c d : Char} {n : Nesting} {k : Nat} {s t : Text}

theorem toNat_byteChar (b : UInt8) : (byteChar b).toNat = b.toNat := by
  have hv : b.toNat.isValidChar := .inl (by have := b.toNat_lt; omega)
  rw [byteChar, Char.ofNat, dif_pos hv]
  rfl

theorem exists_of_lt (hc : c.toNat < 128) :
    ∃ b, String.utf8EncodeChar c = [b] ∧ byteChar b = c :=
  Identifier.exists_utf8_of_lt hc

theorem le_byteChar (hc : 128 ≤ c.toNat) (hb : b ∈ String.utf8EncodeChar c) :
    128 ≤ (byteChar b).toNat := by
  rw [toNat_byteChar]
  exact Identifier.le_of_mem_utf8 hc hb

theorem utf8Size_of_lt (hc : c.toNat < 128) : c.utf8Size = 1 := by
  obtain ⟨b, hb, -⟩ := exists_of_lt hc
  rw [← String.length_utf8EncodeChar, hb]
  rfl

theorem le_of_utf8Size (hc : 1 < c.utf8Size) : 128 ≤ c.toNat := by
  by_contra h
  rw [utf8Size_of_lt (by omega)] at hc
  omega

theorem ne_of_le (hc : 128 ≤ c.toNat) (hd : d.toNat < 128) : c ≠ d := by
  rintro rfl
  omega

/-- A class of characters that holds all characters beyond ASCII or none of them. -/
structure ByteClass (p : Char → Bool) : Prop where
  uniform : ∀ {c d}, 128 ≤ c.toNat → 128 ≤ d.toNat → p c = p d

theorem ByteClass.byteChar {p : Char → Bool} (hp : ByteClass p)
    (hb : b ∈ String.utf8EncodeChar c) : p (byteChar b) = p c := by
  by_cases hc : c.toNat < 128
  · obtain ⟨d, hd, he⟩ := exists_of_lt hc
    rw [hd, List.mem_singleton] at hb
    rw [hb, he]
  · have hc := Nat.le_of_not_lt hc
    exact hp.uniform (le_byteChar hc hb) hc

theorem isWordChar_of_le (hc : 128 ≤ c.toNat) : isWordChar c := by
  simp [isWordChar, hc]

theorem byteClass_isWordChar : ByteClass isWordChar :=
  ⟨fun hc hd => by rw [isWordChar_of_le hc, isWordChar_of_le hd]⟩

theorem byteClass_isPart : ByteClass Identifier.isPart :=
  ⟨fun hc hd => by rw [Unicode.isPart_of_le hc, Unicode.isPart_of_le hd]⟩

theorem beq_of_le (hc : 128 ≤ c.toNat) (hd : d.toNat < 128) : (c == d) = false :=
  beq_eq_false_iff_ne.2 (ne_of_le hc hd)

theorem byteClass_beq (hd : d.toNat < 128) : ByteClass (· == d) :=
  ⟨fun hc hc' => by rw [beq_of_le hc hd, beq_of_le hc' hd]⟩

theorem isSpace_of_le (hc : 128 ≤ c.toNat) : isSpace c = false := by
  simp only [isSpace, Bool.or_eq_false_iff]
  exact ⟨⟨⟨⟨beq_of_le hc (by decide), beq_of_le hc (by decide)⟩, beq_of_le hc (by decide)⟩,
    beq_of_le hc (by decide)⟩, beq_of_le hc (by decide)⟩

theorem byteClass_isSpace : ByteClass isSpace :=
  ⟨fun hc hd => by rw [isSpace_of_le hc, isSpace_of_le hd]⟩

theorem isAlpha_of_le (hc : 128 ≤ c.toNat) : c.isAlpha = false :=
  Bool.eq_false_iff.2 fun h => absurd (lt_of_isAlpha h) (Nat.not_lt.2 hc)

theorem byteClass_isStart : ByteClass Identifier.isStart := by
  constructor
  intro c d hc hd
  rw [Identifier.isStart, Identifier.isStart, isAlpha_of_le hc, isAlpha_of_le hd,
    beq_of_le hc (by decide), beq_of_le hd (by decide)]

theorem isPlain_of_le (hc : 128 ≤ c.toNat) : Nesting.isPlain c :=
  Nesting.isPlain_of_class (p := fun c => decide (128 ≤ c.toNat)) (decide_eq_true hc) (by decide)

namespace Checked

theorem getElem?_utf8 {i : Nat} (hi : i < c.utf8Size) (s t : Text) :
    ∃ b ∈ String.utf8EncodeChar c, (Text.utf8 (s ++ c :: t))[s.byteSize + i]? = some b := by
  have hl : i < (String.utf8EncodeChar c).length := by rwa [String.length_utf8EncodeChar]
  refine ⟨(String.utf8EncodeChar c)[i], List.getElem_mem hl, ?_⟩
  rw [Text.utf8_append, Text.utf8_cons, ← Text.length_utf8,
    List.getElem?_append_right (Nat.le_add_right _ _), Nat.add_sub_cancel_left,
    List.getElem?_append_left hl, List.getElem?_eq_getElem hl]

theorem get_utf8 {i : Nat} (hi : i < c.utf8Size) (s t : Text) :
    ∃ b, get (Text.utf8 (s ++ c :: t)) (s.byteSize + i) = .ok b ∧
      ∀ p, ByteClass p → p (byteChar b) = p c := by
  obtain ⟨b, hb, he⟩ := getElem?_utf8 hi s t
  exact ⟨b, by rw [get, he], fun p hp => hp.byteChar hb⟩

theorem scanFrom_append (k : Nat) (n : Nesting) (as bs : List UInt8) :
    scanFrom k n (as ++ bs) = scanFrom k n as ++
      scanFrom (k + as.length) (n.after (as.map byteChar)) bs := by
  induction as generalizing k n with
  | nil => rfl
  | cons a as ih =>
      rw [List.cons_append, scanFrom, ih, scanFrom, List.cons_append, List.length_cons,
        List.map_cons, Nesting.after_cons, Nat.add_assoc, Nat.add_comm 1]

theorem of_mem_scanFrom {as : List UInt8} {p : Position} (h : p ∈ scanFrom k n as)
    (ha : ∀ a ∈ as, Nesting.isPlain (byteChar a)) :
    p.nesting = n ∧ k ≤ p.offset ∧ p.offset < k + as.length := by
  induction as generalizing k with
  | nil => exact absurd h List.not_mem_nil
  | cons a as ih =>
      obtain ⟨hp, hps⟩ := List.forall_mem_cons.1 ha
      rw [scanFrom, Nesting.step_of_isPlain hp, List.mem_cons] at h
      rw [List.length_cons]
      rcases h with rfl | h
      · exact ⟨rfl, Nat.le_refl k, Nat.lt_add_of_pos_right (Nat.succ_pos _)⟩
      · obtain ⟨hn, hl, hr⟩ := ih h hps
        exact ⟨hn, by omega, by omega⟩

theorem after_bytes (n : Nesting) (c : Char) :
    n.after ((String.utf8EncodeChar c).map byteChar) = n.step c := by
  by_cases hc : c.toNat < 128
  · obtain ⟨b, hb, he⟩ := exists_of_lt hc
    rw [hb, List.map_singleton, he]
    rfl
  · have hc := Nat.le_of_not_lt hc
    rw [Nesting.step_of_isPlain (isPlain_of_le hc), Nesting.after_of_isPlain]
    rw [List.all_map, List.all_eq_true]
    exact fun b hb => isPlain_of_le (le_byteChar hc hb)

theorem length_scanFrom (k : Nat) (n : Nesting) (as : List UInt8) :
    (scanFrom k n as).length = as.length := by
  induction as generalizing k n with
  | nil => rfl
  | cons a as ih => rw [scanFrom, List.length_cons, ih, List.length_cons]

/-- The positions of a character: one before it, and those inside it if it is not in ASCII. -/
theorem scanFrom_cons (k : Nat) (n : Nesting) (c : Char) (t : Text) :
    ∃ inner, scanFrom k n (Text.utf8 (c :: t)) = ⟨k, n⟩ :: inner ++
        scanFrom (k + c.utf8Size) (n.step c) t.utf8 ∧ inner.length + 1 = c.utf8Size ∧
      ∀ p ∈ inner, p.nesting = n ∧ 128 ≤ c.toNat ∧
        ∃ i, 0 < i ∧ i < c.utf8Size ∧ p.offset = k + i := by
  obtain ⟨b, bs, hbs⟩ := List.exists_cons_of_ne_nil (String.utf8EncodeChar_ne_nil (c := c))
  have hl : (String.utf8EncodeChar c).length = bs.length + 1 := by rw [hbs, List.length_cons]
  rw [String.length_utf8EncodeChar] at hl
  refine ⟨scanFrom (k + 1) (n.step (byteChar b)) bs, ?_, ?_, ?_⟩
  · rw [Text.utf8_cons, scanFrom_append, after_bytes, String.length_utf8EncodeChar, hbs, scanFrom]
  · rw [length_scanFrom, hl]
  · intro p hp
    have hc : 128 ≤ c.toNat := by
      refine le_of_utf8Size ?_
      cases bs with
      | nil => exact absurd hp List.not_mem_nil
      | cons b' bs => simp [hl]
    have hplain : ∀ a ∈ b :: bs, Nesting.isPlain (byteChar a) := fun a ha =>
      isPlain_of_le (le_byteChar hc (hbs ▸ ha))
    obtain ⟨hb, hb'⟩ := List.forall_mem_cons.1 hplain
    rw [Nesting.step_of_isPlain hb] at hp
    obtain ⟨hn, hle, hlt⟩ := of_mem_scanFrom hp hb'
    exact ⟨hn, hc, p.offset - k, by omega, by omega, by omega⟩

theorem map_nesting_scanFrom (k : Nat) (n : Nesting) (t : Text) :
    (scanFrom k n t.utf8).map (·.nesting) = n.bytewise t := by
  induction t generalizing k n with
  | nil => rfl
  | cons c t ih =>
      obtain ⟨inner, hs, hl, hi⟩ := scanFrom_cons k n c t
      have hm : inner.map (·.nesting) = List.replicate inner.length n :=
        List.eq_replicate_iff.2 ⟨List.length_map .., fun m hm => by
          obtain ⟨p, hp, rfl⟩ := List.mem_map.1 hm
          exact (hi p hp).1⟩
      rw [hs, List.map_append, List.map_cons, hm, ih, Nesting.bytewise, ← hl, List.replicate_succ]

theorem isTopAt_eq (t : Text) (offset : Nat) : isTopAt t offset = Nesting.isTopAt t offset := by
  rw [isTopAt, Nesting.isTopAt, ← map_nesting_scanFrom 0, List.getElem?_map, Option.any_map]
  rfl

variable {σ β : Type}

theorem foldlM_skip {f : σ → Position → Checked σ} {a : σ} {ps : List Position}
    (h : ∀ p ∈ ps, f a p = .ok a) (qs : List Position) :
    (ps ++ qs).foldlM f a = qs.foldlM f a := by
  induction ps with
  | nil => rfl
  | cons p ps ih =>
      obtain ⟨hp, hps⟩ := List.forall_mem_cons.1 h
      rw [List.cons_append, List.foldlM_cons, hp, ok_bind, ih hps]

theorem findSomeM?_skip {f : Position → Checked (Option β)} {ps : List Position}
    (h : ∀ p ∈ ps, f p = .ok none) (qs : List Position) :
    (ps ++ qs).findSomeM? f = qs.findSomeM? f := by
  induction ps with
  | nil => rfl
  | cons p ps ih =>
      obtain ⟨hp, hps⟩ := List.forall_mem_cons.1 h
      rw [List.cons_append, List.findSomeM?, hp, ok_bind, ih hps]

theorem findM?_skip {f : Position → Checked Bool} {ps : List Position}
    (h : ∀ p ∈ ps, f p = .ok false) (qs : List Position) : (ps ++ qs).findM? f = qs.findM? f := by
  induction ps with
  | nil => rfl
  | cons p ps ih =>
      obtain ⟨hp, hps⟩ := List.forall_mem_cons.1 h
      rw [List.cons_append, List.findM?, hp, ok_bind, ih hps]

theorem le_offset_of_mem {as : List UInt8} {p : Position} (h : p ∈ scanFrom k n as) :
    k ≤ p.offset := by
  induction as generalizing k n with
  | nil => exact absurd h List.not_mem_nil
  | cons a as ih =>
      rcases List.mem_cons.1 h with rfl | h
      · exact Nat.le_refl k
      · exact Nat.le_of_succ_le (ih h)

theorem drop_scanFrom (m k : Nat) (n : Nesting) (as : List UInt8) :
    (scanFrom k n as).drop m = (scanFrom k n as).filter (k + m ≤ ·.offset) := by
  induction as generalizing m k n with
  | nil => rw [scanFrom, List.drop_nil, List.filter_nil]
  | cons a as ih =>
      cases m with
      | zero =>
          refine (List.filter_eq_self.2 fun p hp => ?_).symm
          exact decide_eq_true (le_offset_of_mem hp)
      | succ m =>
          have hk : decide (k + (m + 1) ≤ k) = false := decide_eq_false (by omega)
          rw [scanFrom, List.drop_succ_cons, ih, List.filter_cons, hk, if_neg Bool.false_ne_true,
            Nat.add_assoc, Nat.add_comm 1]

theorem drop_scan (m : Nat) (t : Text) : (scan t).drop m = (scan t).filter (m ≤ ·.offset) := by
  rw [scan, drop_scanFrom, Nat.zero_add]

end Checked

end SqlEdit
