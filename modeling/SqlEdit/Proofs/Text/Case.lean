namespace SqlEdit

variable {c : Char}

/-- What is told of a character of ASCII can be told from its code point. -/
theorem of_ascii {p : Char → Prop} (h : ∀ n < 128, p (Char.ofNat n)) (hc : c.toNat < 128) : p c := by
  have hn := h c.toNat hc
  rwa [Char.ofNat_toNat] at hn

theorem isUpper_iff : c.isUpper ↔ 65 ≤ c.toNat ∧ c.toNat ≤ 90 :=
  decide_eq_true_iff.trans (and_congr UInt32.le_iff_toNat_le UInt32.le_iff_toNat_le)

theorem isLower_iff : c.isLower ↔ 97 ≤ c.toNat ∧ c.toNat ≤ 122 :=
  Bool.and_eq_true_iff.trans (and_congr (decide_eq_true_iff.trans UInt32.le_iff_toNat_le)
    (decide_eq_true_iff.trans UInt32.le_iff_toNat_le))

theorem isAlpha_eq (c : Char) : c.isAlpha = (c.isUpper || c.isLower) := rfl

theorem isAlpha_iff : c.isAlpha ↔ c.isUpper ∨ c.isLower :=
  Bool.or_eq_true_iff

theorem toNat_of_isAlpha (h : c.isAlpha) :
    65 ≤ c.toNat ∧ c.toNat ≤ 90 ∨ 97 ≤ c.toNat ∧ c.toNat ≤ 122 :=
  (isAlpha_iff.1 h).imp isUpper_iff.1 isLower_iff.1

theorem lt_of_isAlpha (h : c.isAlpha) : c.toNat < 128 := by
  have hn := toNat_of_isAlpha h
  omega

theorem toLower_of_isUpper_eq_false (h : c.isUpper = false) : c.toLower = c :=
  dif_neg (of_decide_eq_false h)

theorem toUpper_of_isLower_eq_false (h : c.isLower = false) : c.toUpper = c :=
  dif_neg fun hl => Bool.eq_false_iff.1 h
    (Bool.and_eq_true_iff.2 ⟨decide_eq_true hl.1, decide_eq_true hl.2⟩)

theorem toLower_of_not_isAlpha (h : c.isAlpha = false) : c.toLower = c :=
  toLower_of_isUpper_eq_false (Bool.or_eq_false_iff.1 h).1

theorem toNat_toLower (h : c.isUpper) : c.toLower.toNat = c.toNat + 32 :=
  of_ascii (p := fun c => c.isUpper → c.toLower.toNat = c.toNat + 32) (by decide)
    (lt_of_isAlpha (isAlpha_iff.2 (.inl h))) h

theorem toNat_toUpper (h : c.isLower) : c.toUpper.toNat + 32 = c.toNat :=
  of_ascii (p := fun c => c.isLower → c.toUpper.toNat + 32 = c.toNat) (by decide)
    (lt_of_isAlpha (isAlpha_iff.2 (.inr h))) h

@[simp]
theorem isUpper_toLower (c : Char) : c.toLower.isUpper = false := by
  cases h : c.isUpper with
  | false => rwa [toLower_of_isUpper_eq_false h]
  | true =>
      have hn := isUpper_iff.1 h
      rw [Bool.eq_false_iff, Ne, isUpper_iff, toNat_toLower h]
      omega

@[simp]
theorem isLower_toUpper (c : Char) : c.toUpper.isLower = false := by
  cases h : c.isLower with
  | false => rwa [toUpper_of_isLower_eq_false h]
  | true =>
      have hn := isLower_iff.1 h
      have hu := toNat_toUpper h
      rw [Bool.eq_false_iff, Ne, isLower_iff]
      omega

@[simp]
theorem isLower_toLower (c : Char) : c.toLower.isLower = c.isAlpha := by
  cases h : c.isUpper with
  | false => rw [toLower_of_isUpper_eq_false h, isAlpha_eq, h, Bool.false_or]
  | true =>
      have hn := isUpper_iff.1 h
      rw [isAlpha_iff.2 (.inl h), isLower_iff, toNat_toLower h]
      omega

@[simp]
theorem isUpper_toUpper (c : Char) : c.toUpper.isUpper = c.isAlpha := by
  cases h : c.isLower with
  | false => rw [toUpper_of_isLower_eq_false h, isAlpha_eq, h, Bool.or_false]
  | true =>
      have hn := isLower_iff.1 h
      have hu := toNat_toUpper h
      rw [isAlpha_iff.2 (.inr h), isUpper_iff]
      omega

@[simp]
theorem isAlpha_toLower (c : Char) : c.toLower.isAlpha = c.isAlpha := by
  rw [isAlpha_eq, isUpper_toLower, isLower_toLower, Bool.false_or]

@[simp]
theorem isAlpha_toUpper (c : Char) : c.toUpper.isAlpha = c.isAlpha := by
  rw [isAlpha_eq, isLower_toUpper, isUpper_toUpper, Bool.or_false]

theorem toLower_eq_self_iff : c.toLower = c ↔ c.isUpper = false :=
  ⟨fun h => h ▸ isUpper_toLower c, toLower_of_isUpper_eq_false⟩

@[simp]
theorem toLower_toLower (c : Char) : c.toLower.toLower = c.toLower :=
  toLower_eq_self_iff.2 (isUpper_toLower c)

theorem isLower_eq_false_of_isUpper (h : c.isUpper) : c.isLower = false := by
  have hn := isUpper_iff.1 h
  rw [Bool.eq_false_iff, Ne, isLower_iff]
  omega

@[simp]
theorem toLower_toUpper (c : Char) : c.toUpper.toLower = c.toLower := by
  cases h : c.isLower with
  | false => rw [toUpper_of_isLower_eq_false h]
  | true =>
      have hu : c.isUpper = false := Bool.eq_false_iff.2 fun hu =>
        Bool.eq_false_iff.1 (isLower_eq_false_of_isUpper hu) h
      have hc : c.toUpper.isUpper := (isUpper_toUpper c).trans (isAlpha_iff.2 (.inr h))
      rw [toLower_of_isUpper_eq_false hu, ← Char.toNat_inj, toNat_toLower hc, toNat_toUpper h]

@[simp]
theorem toUpper_toLower (c : Char) : c.toLower.toUpper = c.toUpper := by
  cases h : c.isUpper with
  | false => rw [toLower_of_isUpper_eq_false h]
  | true =>
      have hc : c.toLower.isLower := (isLower_toLower c).trans (isAlpha_iff.2 (.inl h))
      have hn := toNat_toUpper hc
      rw [toNat_toLower h] at hn
      rw [toUpper_of_isLower_eq_false (isLower_eq_false_of_isUpper h), ← Char.toNat_inj]
      exact Nat.add_right_cancel hn

theorem toLower_lt (hc : c.toNat < 128) : c.toLower.toNat < 128 := by
  cases h : c.isUpper with
  | false => rwa [toLower_of_isUpper_eq_false h]
  | true =>
      have hn := isUpper_iff.1 h
      rw [toNat_toLower h]
      omega

theorem toUpper_lt (hc : c.toNat < 128) : c.toUpper.toNat < 128 := by
  cases h : c.isLower with
  | false => rwa [toUpper_of_isLower_eq_false h]
  | true =>
      have hn := toNat_toUpper h
      omega

end SqlEdit
