import SqlEdit.Proofs.Text.Case
import SqlEdit.Unicode.Lower

namespace SqlEdit.Unicode

def capitalRuns : List Run :=
  ⟨'A'.toNat, 'Z'.toNat, 1⟩ :: ⟨'İ'.toNat, 'İ'.toNat, 1⟩ :: lowerShifts.map (·.run)

def isCapital (c : Char) : Bool :=
  Run.covers capitalRuns c

/-- Whether a run has no code point in common with others: each lies before it or behind it, or the
two alternate. -/
def Run.misses (rs : List Run) : Run → Bool
  | ⟨first, last, step⟩ => rs.all fun r =>
      -- `Nat.blt` keeps the check of all pairs of runs fast.
      last.blt r.first || r.last.blt first ||
        (step == 2 || first == last) && r.step == 2 && (first + r.first) % 2 == 1

def Shift.image (s : Shift) : Run :=
  ⟨(s.run.first + s.distance).toNat, (s.run.last + s.distance).toNat, s.run.step⟩

theorem Run.not_contains_of_misses {rs : List Run} {r s : Run} {n : Nat} (h : s.misses rs)
    (hs : s.contains n) (hr : r ∈ rs) : r.contains n = false := by
  have h := List.all_eq_true.1 h r hr
  cases hn : r.contains n with
  | false => rfl
  | true =>
      simp only [contains, Bool.or_eq_true, Bool.and_eq_true, decide_eq_true_eq, beq_iff_eq,
        Nat.blt_eq] at h hn hs
      obtain (h | h) | ⟨⟨he | he, ht⟩, h⟩ := h
      · omega
      · omega
      · rw [he] at hs
        rw [ht] at hn
        omega
      · rw [ht] at hn
        omega

theorem Shift.contains_image {s : Shift} {n : Nat} (h : 0 ≤ s.run.first + s.distance)
    (hn : s.run.contains n) : s.image.contains (n + s.distance).toNat := by
  simp only [image, Run.contains, Bool.and_eq_true, decide_eq_true_eq, beq_iff_eq] at hn ⊢
  have he : (n + s.distance).toNat - (s.run.first + s.distance).toNat = n - s.run.first := by omega
  rw [he]
  exact ⟨⟨decide_eq_true (by omega), decide_eq_true (by omega)⟩, hn.2⟩

variable {c d : Char} {t before : Text}

theorem isCapital_ofNat {n : Nat} (h : ∀ r ∈ capitalRuns, r.contains n = false) :
    isCapital (Char.ofNat n) = false := by
  by_cases hn : n.isValidChar
  · rw [Char.ofNat, dif_pos hn]
    exact List.any_eq_false.2 fun r hr => Bool.eq_false_iff.1 (h r hr)
  · rw [Char.ofNat, dif_neg hn]
    decide

theorem isCapital_move (hc : ∃ s ∈ lowerShifts, s.run.contains c.toNat) :
    isCapital (Shift.move lowerShifts c) = false := by
  have hf : lowerShifts.all fun s => 0 ≤ s.run.first + s.distance := by decide
  have hm : lowerShifts.all fun s => s.image.misses capitalRuns := by decide +kernel
  obtain ⟨s, hs⟩ := Option.isSome_iff_exists.1 (List.find?_isSome.2 hc)
  have hmem := List.mem_of_find?_eq_some hs
  have hi := Shift.contains_image (of_decide_eq_true (List.all_eq_true.1 hf s hmem))
    (by simpa using List.find?_some hs)
  rw [Shift.move, hs]
  exact isCapital_ofNat fun r hr =>
    Run.not_contains_of_misses (List.all_eq_true.1 hm s hmem) hi hr

theorem isCapital_iff : isCapital c ↔ ('A'.toNat ≤ c.toNat ∧ c.toNat ≤ 'Z'.toNat) ∨ c = 'İ' ∨
    ∃ s ∈ lowerShifts, s.run.contains c.toNat := by
  have hi : c = 'İ' ↔ c.toNat = 'İ'.toNat := ⟨congrArg _, Char.toNat_inj.1⟩
  have hone {a b n : Nat} : (⟨a, b, 1⟩ : Run).contains n ↔ a ≤ n ∧ n ≤ b := by
    simp [Run.contains, Nat.mod_one]
  rw [isCapital, Run.covers, capitalRuns, List.any_cons, List.any_cons, Bool.or_eq_true,
    Bool.or_eq_true, hone, hone, hi, List.any_map, List.any_eq_true]
  exact or_congr_right (or_congr_left ⟨fun h => Nat.le_antisymm h.2 h.1,
    fun h => ⟨Nat.le_of_eq h.symm, Nat.le_of_eq h⟩⟩)

theorem move_of_not_exists (h : ¬ ∃ s ∈ lowerShifts, s.run.contains c.toNat) :
    Shift.move lowerShifts c = c := by
  rw [Shift.move, List.find?_eq_none.2 fun s hs hc => h ⟨s, hs, hc⟩]

theorem isCapital_iff_of_lt (h : c.toNat < 128) :
    isCapital c ↔ 'A'.toNat ≤ c.toNat ∧ c.toNat ≤ 'Z'.toNat := by
  have hf : lowerShifts.all fun s => 128 ≤ s.run.first := by decide
  rw [isCapital_iff, or_iff_left_iff_imp]
  rintro (rfl | ⟨s, hs, hc⟩)
  · exact absurd h (by decide)
  · have hs := of_decide_eq_true (List.all_eq_true.1 hf s hs)
    simp only [Run.contains, Bool.and_eq_true, decide_eq_true_eq] at hc
    omega

theorem lower_of_not_isCapital (h : isCapital c = false) : c ≠ 'Σ' ∧ lower c = [c] := by
  have hn : ¬ isCapital c := by simp [h]
  rw [isCapital_iff, not_or, not_or] at hn
  refine ⟨?_, ?_⟩
  · rintro rfl
    exact absurd h (by decide)
  · by_cases hc : c.toNat < 128
    · have hu : c.isUpper = false := Bool.eq_false_iff.2 fun hu => hn.1 (isUpper_iff.1 hu)
      rw [lower_of_lt hc, toLower_of_isUpper_eq_false hu]
    · rw [lower, if_neg hc, if_neg hn.2.1, move_of_not_exists hn.2.2]

theorem isCapital_of_mem_lower (hd : d ∈ lower c) : isCapital d = false := by
  by_cases h : c.toNat < 128
  · rw [lower_of_lt h, List.mem_singleton] at hd
    rw [hd, ← Bool.not_eq_true, isCapital_iff_of_lt (toLower_lt h)]
    exact fun hu => Bool.eq_false_iff.1 (isUpper_toLower c) (isUpper_iff.2 hu)
  · rw [lower, if_neg h] at hd
    split at hd
    · have hi : ['i', '\u0307'].all fun d => isCapital d = false := by decide
      exact of_decide_eq_true (List.all_eq_true.1 hi d hd)
    next hne =>
      rw [List.mem_singleton] at hd
      subst hd
      by_cases hs : ∃ s ∈ lowerShifts, s.run.contains c.toNat
      · exact isCapital_move hs
      · rw [move_of_not_exists hs, ← Bool.not_eq_true, isCapital_iff]
        rintro (⟨-, hz⟩ | hi | hs')
        · exact h (Nat.lt_of_le_of_lt hz (by decide))
        · exact hne hi
        · exact hs hs'

theorem lowerAfter_of_not_isCapital (h : ∀ c ∈ t, isCapital c = false) : lowerAfter before t = t := by
  induction t generalizing before with
  | nil => rfl
  | cons c t ih =>
      obtain ⟨hc, ht⟩ := List.forall_mem_cons.1 h
      obtain ⟨hs, hl⟩ := lower_of_not_isCapital hc
      simp only [lowerAfter, if_neg hs, hl, ih ht, List.singleton_append]

theorem isCapital_of_mem_lowerAfter (h : c ∈ lowerAfter before t) : isCapital c = false := by
  induction t generalizing before with
  | nil => cases h
  | cons d t ih =>
      rw [lowerAfter, List.mem_append] at h
      obtain h | h := h
      · split at h
        · have hs : isCapital 'ς' = false ∧ isCapital 'σ' = false := by decide
          rw [List.mem_singleton] at h
          split at h
          · exact h ▸ hs.1
          · exact h ▸ hs.2
        next => exact isCapital_of_mem_lower h
      · exact ih h

theorem lowerText_lowerText (t : Text) : lowerText (lowerText t) = lowerText t :=
  lowerAfter_of_not_isCapital fun _ hc => isCapital_of_mem_lowerAfter hc

end SqlEdit.Unicode
