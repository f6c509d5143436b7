import Mathlib.Data.List.GetD
import Mathlib.Data.List.Perm.Subperm
import SqlEdit.Proofs.Sample.Words
import SqlEdit.Sample.Draw

namespace SqlEdit

theorem Text.cut_join {c : Char} {ts : List Text} (hne : ts ≠ [])
    (h : ∀ t ∈ ts, ∀ d ∈ t, (d == c) = false) : cut (· == c) (join [c] ts) = ts := by
  induction ts with
  | nil => exact absurd rfl hne
  | cons t ts ih =>
      obtain ⟨ht, hts⟩ := List.forall_mem_cons.1 h
      cases ts with
      | nil => rw [join, List.intercalate_singleton, cut_eq_singleton ht]
      | cons u us =>
          rw [join_cons_cons, List.append_assoc, cut_append ht, List.singleton_append, cut,
            if_pos (by simp), ih (List.cons_ne_nil _ _) hts, List.modifyHead_cons, List.append_nil]

section EraseDups

variable {α : Type} [BEq α] [LawfulBEq α] {as : List α}

theorem nodup_eraseDups (as : List α) : as.eraseDups.Nodup := by
  induction hn : as.length using Nat.strong_induction_on generalizing as with
  | _ n ih =>
      cases as with
      | nil => exact List.nodup_nil
      | cons a as =>
          have hl := List.length_filter_le (fun b => !b == a) as
          rw [List.eraseDups_cons, List.nodup_cons]
          refine ⟨by simp, ih _ ?_ _ rfl⟩
          rw [← hn, List.length_cons]
          exact Nat.lt_succ_of_le hl

theorem length_eraseDups_le (as : List α) : as.eraseDups.length ≤ as.length :=
  ((nodup_eraseDups as).subperm fun _ ha => List.mem_eraseDups.1 ha).length_le

theorem eraseDups_of_nodup (h : as.Nodup) : as.eraseDups = as := by
  induction as with
  | nil => rfl
  | cons a as ih =>
      obtain ⟨ha, has⟩ := List.nodup_cons.1 h
      have hf : as.filter (fun b => !b == a) = as := by
        refine List.filter_eq_self.2 fun b hb => ?_
        simp only [Bool.not_eq_true', beq_eq_false_iff_ne]
        rintro rfl
        exact ha hb
      rw [List.eraseDups_cons, hf, ih has]

end EraseDups

namespace Sample

@[mk_iff]
structure IsShortIdent (i : Ident) : Prop where
  isIdent : IsIdent i
  few : (i.cut (· == '_')).length ≤ 3
  short : ∀ w ∈ i.cut (· == '_'), w.length ≤ 5

instance (i : Ident) : Decidable (IsShortIdent i) :=
  decidable_of_iff' _ (isShortIdent_iff i)

@[mk_iff]
structure AreColumns (is : List Ident) : Prop where
  ne_nil : is ≠ []
  few : is.length ≤ 4
  distinct : is.Nodup
  short : ∀ i ∈ is, IsShortIdent i

instance (is : List Ident) : Decidable (AreColumns is) :=
  decidable_of_iff' _ (areColumns_iff is)

/-- Any number, or a text of up to eight characters out of some that matter to a scanner. -/
def Value.IsShort : Value → Prop
  | integer _ => True
  | text t => t.length ≤ 8 ∧ ∀ c ∈ t, c ∈ "ab_ ,=()'%;".toList

instance : DecidablePred Value.IsShort
  | .integer _ => inferInstanceAs (Decidable True)
  | .text t => inferInstanceAs (Decidable (t.length ≤ 8 ∧ _))

def IsShortCell (c : Cell) : Prop :=
  IsShortIdent c.1 ∧ c.2.IsShort

instance (c : Cell) : Decidable (IsShortCell c) :=
  inferInstanceAs (Decidable (IsShortIdent c.1 ∧ _))

def IsShortRow (row : List Cell) : Prop :=
  AreColumns (row.map Prod.fst) ∧ ∀ c ∈ row, c.2.IsShort

instance (row : List Cell) : Decidable (IsShortRow row) :=
  inferInstanceAs (Decidable (AreColumns _ ∧ _))

def Query.IsSmall : Query → Prop
  | select t columns filter _ => IsShortIdent t ∧ AreColumns columns ∧ ∀ c ∈ filter, IsShortCell c
  | insert t row => IsShortIdent t ∧ IsShortRow row
  | update t row filter => IsShortIdent t ∧ IsShortRow row ∧ ∀ c ∈ filter, IsShortCell c
  | delete t filter => IsShortIdent t ∧ ∀ c ∈ filter, IsShortCell c

instance : DecidablePred Query.IsSmall
  | .select t columns filter _ =>
    inferInstanceAs (Decidable (IsShortIdent t ∧ AreColumns columns ∧ ∀ c ∈ filter, _))
  | .insert t row => inferInstanceAs (Decidable (IsShortIdent t ∧ IsShortRow row))
  | .update t row filter =>
    inferInstanceAs (Decidable (IsShortIdent t ∧ IsShortRow row ∧ ∀ c ∈ filter, _))
  | .delete t filter => inferInstanceAs (Decidable (IsShortIdent t ∧ ∀ c ∈ filter, _))

example : ¬ (Query.delete "user_2fa".toList none).IsSmall := by decide

namespace Draw

variable {α β : Type} {d : Draw α} {P R : α → Prop} {Q : α → β → Prop} {a : α} {b : β}

def Ensures (d : Draw α) (P : α → Prop) : Prop :=
  ∀ bytes, P (d.run bytes).1

def Gives (d : Draw α) (a : α) : Prop :=
  ∃ bytes, ∀ rest, d.run (bytes ++ rest) = (a, rest)

/-- Whether the values with a property are those that are drawn. -/
structure Exactly (d : Draw α) (P : α → Prop) : Prop where
  ensures : Ensures d P
  gives : ∀ a, P a → Gives d a

theorem Ensures.bind {f : α → Draw β} {Q : β → Prop} (hd : Ensures d P)
    (hf : ∀ a, P a → Ensures (f a) Q) : Ensures (d >>= f) Q :=
  fun bytes => hf _ (hd bytes) _

theorem Gives.bind {f : α → Draw β} (hd : Gives d a) (hf : Gives (f a) b) : Gives (d >>= f) b := by
  obtain ⟨as, ha⟩ := hd
  obtain ⟨bs, hb⟩ := hf
  refine ⟨as ++ bs, fun rest => ?_⟩
  rw [List.append_assoc, StateT.run_bind, ha]
  exact hb rest

theorem ensures_pure {P : α → Prop} (h : P a) : Ensures (pure a) P :=
  fun _ => h

theorem gives_pure (a : α) : Gives (pure a) a :=
  ⟨[], fun _ => rfl⟩

theorem exactly_pure (a : α) : Exactly (pure a) (· = a) :=
  ⟨ensures_pure rfl, fun _ h => h ▸ gives_pure a⟩

theorem Exactly.bind {f : α → Draw β} (hd : Exactly d P) (hf : ∀ a, P a → Exactly (f a) (Q a)) :
    Exactly (d >>= f) fun b => ∃ a, P a ∧ Q a b where
  ensures bytes := ⟨_, hd.ensures bytes, (hf _ (hd.ensures bytes)).ensures _⟩
  gives := fun b ⟨a, ha, hb⟩ => (hd.gives a ha).bind ((hf a ha).gives b hb)

theorem Exactly.congr (hd : Exactly d P) (h : ∀ a, P a ↔ R a) : Exactly d R :=
  funext (fun a => propext (h a)) ▸ hd

theorem Exactly.times (h : Exactly d P) (n : Nat) :
    Exactly (Draw.times d n) fun as => as.length = n ∧ ∀ a ∈ as, P a := by
  induction n with
  | zero =>
      refine (exactly_pure []).congr fun as => ?_
      rw [List.length_eq_zero_iff]
      exact ⟨fun h => ⟨h, h ▸ List.forall_mem_nil _⟩, And.left⟩
  | succ n ih =>
      refine (h.bind fun a _ => ih.bind fun as _ => exactly_pure (a :: as)).congr fun as => ?_
      cases as with
      | nil => simp
      | cons a as => simp; tauto

theorem exactly_byte : Exactly byte fun _ => True :=
  ⟨fun _ => trivial, fun b _ => ⟨[b], fun _ => rfl⟩⟩

theorem exactly_bool : Exactly bool fun _ => True := by
  refine ⟨fun _ => trivial, fun b _ => ?_⟩
  cases b with
  | false => exact (exactly_byte.gives 0 trivial).bind (gives_pure _)
  | true => exact (exactly_byte.gives 1 trivial).bind (gives_pure _)

theorem Exactly.ite {x y : Draw α} (hx : Exactly x P) (hy : Exactly y R) :
    Exactly (do if ← bool then x else y) fun a => P a ∨ R a := by
  constructor
  · refine exactly_bool.ensures.bind fun b _ => ?_
    cases b with
    | false => exact fun bytes => .inr (hy.ensures bytes)
    | true => exact fun bytes => .inl (hx.ensures bytes)
  · rintro a (h | h)
    · exact (exactly_bool.gives true trivial).bind (hx.gives a h)
    · exact (exactly_bool.gives false trivial).bind (hy.gives a h)

theorem Exactly.option (h : Exactly d P) : Exactly (Draw.option d) fun a? => ∀ a ∈ a?, P a := by
  refine ((h.bind fun a _ => exactly_pure (some a)).ite (exactly_pure none)).congr fun a? => ?_
  cases a? <;> simp

/-- A byte gives every number of a range that is no longer than there are bytes. -/
theorem exactly_below (low : Nat) {count : Nat} (hc : 0 < count) (hb : count ≤ 256) :
    Exactly (below low count) fun n => low ≤ n ∧ n < low + count := by
  refine (exactly_byte.bind fun b _ => exactly_pure (low + b.toNat % count)).congr fun n => ?_
  constructor
  · rintro ⟨b, -, rfl⟩
    exact ⟨Nat.le_add_right .., Nat.add_lt_add_left (Nat.mod_lt _ hc) _⟩
  · rintro ⟨hl, hu⟩
    refine ⟨UInt8.ofNat (n - low), trivial, ?_⟩
    rw [UInt8.toNat_ofNat', Nat.mod_eq_of_lt (by omega), Nat.mod_eq_of_lt (by omega)]
    omega

theorem exactly_choose {choices : Text} (hne : choices ≠ []) (hl : choices.length ≤ 256) :
    Exactly (choose choices) (· ∈ choices) := by
  have hb := exactly_below 0 (List.length_pos_iff.2 hne) hl
  refine (hb.bind fun n _ => exactly_pure (choices.getD n ' ')).congr fun c => ?_
  rw [List.mem_iff_getElem]
  constructor
  · rintro ⟨n, ⟨-, hn⟩, rfl⟩
    rw [Nat.zero_add] at hn
    exact ⟨n, hn, (List.getD_eq_getElem _ _ hn).symm⟩
  · rintro ⟨n, hn, rfl⟩
    exact ⟨n, ⟨Nat.zero_le n, by rwa [Nat.zero_add]⟩, (List.getD_eq_getElem _ _ hn).symm⟩

def lowBytes : Nat → Nat → List UInt8
  | 0, _ => []
  | k + 1, n => UInt8.ofNat n :: lowBytes k (n / 256)

theorem length_lowBytes (k n : Nat) : (lowBytes k n).length = k := by
  induction k generalizing n with
  | zero => rfl
  | succ k ih => rw [lowBytes, List.length_cons, ih]

theorem foldr_lowBytes (k n : Nat) :
    (lowBytes k n).foldr (fun b m => b.toNat + 256 * m) 0 = n % 256 ^ k := by
  induction k generalizing n with
  | zero => rw [Nat.pow_zero, Nat.mod_one, lowBytes, List.foldr_nil]
  | succ k ih =>
      have hm : n % (256 * 256 ^ k) = n % 2 ^ 8 + 256 * (n / 256 % 256 ^ k) := Nat.mod_mul
      rw [lowBytes, List.foldr_cons, ih, UInt8.toNat_ofNat', ← hm, Nat.mul_comm, Nat.pow_succ]

theorem exactly_int64 : Exactly int64 fun _ => True := by
  refine ⟨fun _ => trivial, fun n _ => ⟨lowBytes 8 n.toBitVec.toNat, fun rest => ?_⟩⟩
  have hl := length_lowBytes 8 n.toBitVec.toNat
  have hf := foldr_lowBytes 8 n.toBitVec.toNat
  rw [Nat.mod_eq_of_lt (show _ < 256 ^ 8 from n.toBitVec.isLt)] at hf
  have hn : Int64.ofNat n.toBitVec.toNat = n := Int64.toBitVec_inj.1 (by simp)
  change (_, _) = _
  rw [List.take_left' hl, List.drop_left' hl, hf, hn]

theorem mem_letters_iff {c : Char} : c ∈ letters ↔ c.isLower := by
  have hl : letters.all Char.isLower := by decide
  refine ⟨List.all_eq_true.1 hl c, fun h => ?_⟩
  have ha : c.toNat < 128 := lt_of_isAlpha (isAlpha_iff.2 (.inr h))
  exact of_ascii (p := fun c => c.isLower → c ∈ letters) (by decide) ha h

theorem mem_letters_append_digits_iff {c : Char} :
    c ∈ letters ++ digits ↔ c.isLower || c.isDigit := by
  have hl : (letters ++ digits).all fun c => c.isLower || c.isDigit := by decide
  refine ⟨List.all_eq_true.1 hl c, fun h => ?_⟩
  have ha : c.toNat < 128 := lt_of_isIdentChar c (by simp_all [isIdentChar])
  exact of_ascii (p := fun c => c.isLower || c.isDigit → c ∈ letters ++ digits) (by decide) ha h

theorem exactly_segment : Exactly segment fun s => isSegment s ∧ s.length ≤ 5 := by
  have hc : Exactly (choose letters) (· ∈ letters) := exactly_choose (by decide) (by decide)
  have hd : Exactly (choose (letters ++ digits)) (· ∈ letters ++ digits) :=
    exactly_choose (by decide) (by decide)
  refine (hc.bind fun c _ => (exactly_below 0 (by decide) (by decide)).bind fun n _ =>
    (hd.times n).bind fun t _ => exactly_pure (c :: t)).congr fun s => ?_
  simp only [mem_letters_iff, mem_letters_append_digits_iff]
  constructor
  · rintro ⟨c, hc, n, ⟨-, hn⟩, t, ⟨rfl, ht⟩, rfl⟩
    exact ⟨Bool.and_eq_true_iff.2 ⟨hc, List.all_eq_true.2 ht⟩, by rw [List.length_cons]; omega⟩
  · rintro ⟨hs, hl⟩
    cases s with
    | nil => cases hs
    | cons c t =>
        obtain ⟨hc, ht⟩ := Bool.and_eq_true_iff.1 hs
        rw [List.length_cons] at hl
        exact ⟨c, hc, _, ⟨Nat.zero_le _, by omega⟩, t, ⟨rfl, List.all_eq_true.1 ht⟩, rfl⟩

theorem exactly_ident : Exactly ident IsShortIdent := by
  refine ((exactly_below 1 (by decide) (by decide)).bind fun n _ => (exactly_segment.times n).bind
    fun ts _ => exactly_pure (Text.join ['_'] ts)).congr fun i => ?_
  constructor
  · rintro ⟨n, hn, ts, ⟨rfl, hts⟩, rfl⟩
    have hu (t : Text) (ht : t ∈ ts) (c : Char) (hc : c ∈ t) : (c == '_') = false := by
      rw [beq_eq_false_iff_ne]
      rintro rfl
      exact absurd (List.all_eq_true.1 (all_of_isSegment (hts t ht).1) '_' hc) (by decide)
    have hcut := Text.cut_join (List.length_pos_iff.1 hn.1) hu
    exact ⟨by rw [IsIdent, hcut]; exact fun t ht => (hts t ht).1, by rw [hcut]; omega,
      by rw [hcut]; exact fun t ht => (hts t ht).2⟩
  · intro h
    have hpos := List.length_pos_iff.2 (Text.cut_ne_nil (· == '_') i)
    refine ⟨_, ⟨hpos, ?_⟩, i.cut (· == '_'), ⟨rfl, fun w hw => ⟨h.isIdent w hw, h.short w hw⟩⟩, ?_⟩
    · exact Nat.lt_of_le_of_lt h.few (by decide)
    · rw [Text.join_cut]

theorem exactly_value : Exactly value Value.IsShort := by
  have hc : Exactly (choose "ab_ ,=()'%;".toList) (· ∈ "ab_ ,=()'%;".toList) :=
    exactly_choose (by decide) (by decide)
  refine ((exactly_int64.bind fun n _ => exactly_pure (Value.integer n)).ite
    ((exactly_below 0 (by decide) (by decide)).bind fun n _ =>
      (hc.times n).bind fun t _ => exactly_pure (Value.text t))).congr fun v => ?_
  cases v with
  | integer n => simp [Value.IsShort]
  | text t =>
      constructor
      · rintro (⟨n, -, h⟩ | ⟨n, ⟨-, hn⟩, t, ⟨rfl, ht⟩, ⟨⟩⟩)
        · cases h
        · exact ⟨Nat.le_of_lt_succ (by rwa [Nat.zero_add] at hn), ht⟩
      · rintro ⟨hl, ht⟩
        exact .inr ⟨_, ⟨Nat.zero_le _, by omega⟩, t, ⟨rfl, ht⟩, rfl⟩

theorem exactly_cell : Exactly cell IsShortCell := by
  refine (exactly_ident.bind fun i _ => exactly_value.bind fun v _ => exactly_pure (i, v)).congr
    fun c => ?_
  obtain ⟨i, v⟩ := c
  simp [IsShortCell]

theorem exactly_idents : Exactly idents AreColumns := by
  refine ((exactly_below 1 (by decide) (by decide)).bind fun n _ => (exactly_ident.times n).bind
    fun is _ => exactly_pure is.eraseDups).congr fun is => ?_
  constructor
  · rintro ⟨n, hn, is, ⟨rfl, his⟩, rfl⟩
    refine ⟨?_, ?_, nodup_eraseDups is, fun i hi => his i (List.mem_eraseDups.1 hi)⟩
    · obtain ⟨i, js, rfl⟩ := List.exists_cons_of_ne_nil (List.length_pos_iff.1 hn.1)
      rw [List.eraseDups_cons]
      exact List.cons_ne_nil _ _
    · have hl := length_eraseDups_le is
      omega
  · intro h
    have hpos := List.length_pos_iff.2 h.ne_nil
    exact ⟨_, ⟨hpos, Nat.lt_succ_of_le h.few⟩, is, ⟨rfl, h.short⟩, (eraseDups_of_nodup h.distinct).symm⟩

theorem exactly_valuesFor (is : List Ident) :
    Exactly (valuesFor is) fun row => row.map Prod.fst = is ∧ ∀ c ∈ row, c.2.IsShort := by
  induction is with
  | nil =>
      refine (exactly_pure []).congr fun row => ?_
      cases row <;> simp
  | cons i is ih =>
      refine (exactly_value.bind fun v _ => ih.bind fun row _ => exactly_pure ((i, v) :: row)).congr
        fun row => ?_
      constructor
      · rintro ⟨v, hv, row, ⟨rfl, hr⟩, rfl⟩
        exact ⟨rfl, List.forall_mem_cons.2 ⟨hv, hr⟩⟩
      · rintro ⟨hi, hr⟩
        obtain ⟨⟨j, v⟩, row, rfl, rfl, rfl⟩ := List.map_eq_cons_iff.1 hi
        obtain ⟨hv, hr⟩ := List.forall_mem_cons.1 hr
        exact ⟨v, hv, row, ⟨rfl, hr⟩, rfl⟩

theorem exactly_row : Exactly row IsShortRow := by
  refine (exactly_idents.bind fun is _ => exactly_valuesFor is).congr fun row => ?_
  constructor
  · rintro ⟨is, his, rfl, hr⟩
    exact ⟨his, hr⟩
  · rintro ⟨his, hr⟩
    exact ⟨_, his, rfl, hr⟩

theorem exactly_query : Exactly query Query.IsSmall := by
  have hkind : Exactly (below 0 4) fun n => 0 ≤ n ∧ n < 0 + 4 := exactly_below 0 (by decide) (by decide)
  constructor
  · refine exactly_ident.ensures.bind fun t ht => hkind.ensures.bind fun n _ => ?_
    split
    · exact exactly_idents.ensures.bind fun is his => exactly_cell.option.ensures.bind fun filter hf =>
        exactly_byte.option.ensures.bind fun limit _ => ensures_pure ⟨ht, his, hf⟩
    · exact exactly_row.ensures.bind fun row hr => ensures_pure ⟨ht, hr⟩
    · exact exactly_row.ensures.bind fun row hr => exactly_cell.option.ensures.bind fun filter hf =>
        ensures_pure ⟨ht, hr, hf⟩
    · exact exactly_cell.option.ensures.bind fun filter hf => ensures_pure ⟨ht, hf⟩
  · intro q hq
    cases q with
    | select t columns filter limit =>
        obtain ⟨ht, hc, hf⟩ := hq
        refine (exactly_ident.gives t ht).bind ((hkind.gives 0 (by decide)).bind ?_)
        exact (exactly_idents.gives columns hc).bind <| (exactly_cell.option.gives filter hf).bind <|
          (exactly_byte.option.gives limit fun _ _ => trivial).bind (gives_pure _)
    | insert t row =>
        obtain ⟨ht, hr⟩ := hq
        refine (exactly_ident.gives t ht).bind ((hkind.gives 1 (by decide)).bind ?_)
        exact (exactly_row.gives row hr).bind (gives_pure _)
    | update t row filter =>
        obtain ⟨ht, hr, hf⟩ := hq
        refine (exactly_ident.gives t ht).bind ((hkind.gives 2 (by decide)).bind ?_)
        exact (exactly_row.gives row hr).bind ((exactly_cell.option.gives filter hf).bind (gives_pure _))
    | delete t filter =>
        obtain ⟨ht, hf⟩ := hq
        refine (exactly_ident.gives t ht).bind ((hkind.gives 3 (by decide)).bind ?_)
        exact (exactly_cell.option.gives filter hf).bind (gives_pure _)

end Draw

/-- The queries that bytes give are exactly the small ones. -/
theorem Query.exists_ofBytes_eq_iff (q : Query) : (∃ bytes, ofBytes bytes = q) ↔ q.IsSmall := by
  constructor
  · rintro ⟨bytes, rfl⟩
    exact Draw.exactly_query.ensures bytes
  · intro h
    obtain ⟨bytes, hb⟩ := Draw.exactly_query.gives q h
    exact ⟨bytes ++ [], congrArg Prod.fst (hb [])⟩

end Sample

end SqlEdit
