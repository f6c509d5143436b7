import Mathlib.Data.List.Basic
import SqlEdit.Proofs.Identifier.Style
import SqlEdit.Proofs.Nesting.Closed

namespace SqlEdit

open Identifier (isPart)

def Text.utf8 (t : Text) : List UInt8 :=
  t.flatMap String.utf8EncodeChar

def Identifier.isPartByte (b : UInt8) : Bool :=
  isPart (Char.ofNat b.toNat)

open Identifier (isPartByte)

/-- The bytes that are quoted or belong to no identifier, each with whether it is quoted and the
number of parentheses that are open before it. -/
def Nesting.outline (n : Nesting) (t : Text) : List (UInt8 × Bool × Nat) :=
  (t.utf8.zip (n.bytewise t)).filterMap fun (b, m) =>
    if m.isQuoted || !isPartByte b then some (b, m.isQuoted, m.depth) else none

theorem Identifier.le_of_mem_utf8 {c : Char} {b : UInt8} (hc : 128 ≤ c.toNat)
    (h : b ∈ String.utf8EncodeChar c) : 128 ≤ b.toNat := by
  have hv : c.val.toNat = c.toNat := rfl
  simp only [String.utf8EncodeChar, hv] at h
  rw [if_neg (by omega)] at h
  have hb (m k : Nat) (hm : 128 ≤ m) (hk : m + k < 256) (x : Nat) (hx : x ≤ k) :
      128 ≤ (UInt8.ofNat (x + m)).toNat := by
    rw [UInt8.toNat_ofNat', Nat.mod_eq_of_lt (by omega)]
    omega
  split at h
  · simp only [List.mem_cons, List.not_mem_nil, or_false] at h
    rcases h with rfl | rfl
    · exact hb 192 31 (by omega) (by omega) _ (by omega)
    · exact hb 128 63 (by omega) (by omega) _ (by omega)
  split at h
  · simp only [List.mem_cons, List.not_mem_nil, or_false] at h
    rcases h with rfl | rfl | rfl
    · exact hb 224 15 (by omega) (by omega) _ (by omega)
    · exact hb 128 63 (by omega) (by omega) _ (by omega)
    · exact hb 128 63 (by omega) (by omega) _ (by omega)
  · simp only [List.mem_cons, List.not_mem_nil, or_false] at h
    rcases h with rfl | rfl | rfl | rfl
    · exact hb 240 7 (by omega) (by omega) _ (by omega)
    · exact hb 128 63 (by omega) (by omega) _ (by omega)
    · exact hb 128 63 (by omega) (by omega) _ (by omega)
    · exact hb 128 63 (by omega) (by omega) _ (by omega)

theorem Identifier.exists_utf8_of_lt {c : Char} (hc : c.toNat < 128) :
    ∃ b, String.utf8EncodeChar c = [b] ∧ Char.ofNat b.toNat = c := by
  have hv : c.val.toNat = c.toNat := rfl
  have hl : c.val ≤ 127 := UInt32.le_iff_toNat_le.2 (Nat.le_of_lt_succ hc)
  refine ⟨c.val.toUInt8, String.utf8EncodeChar_eq_singleton (Char.utf8Size_eq_one_iff.2 hl), ?_⟩
  rw [UInt32.toNat_toUInt8, hv, Nat.mod_eq_of_lt (by omega), Char.ofNat_toNat]

theorem Identifier.isPartByte_of_mem_utf8 {c : Char} {b : UInt8}
    (h : b ∈ String.utf8EncodeChar c) : isPartByte b = isPart c := by
  by_cases hc : 128 ≤ c.toNat
  · have hv : b.toNat.isValidChar := .inl (by have := b.toNat_lt; omega)
    rw [Unicode.isPart_of_le hc, isPartByte, Unicode.isPart_ofNat (le_of_mem_utf8 hc h) hv]
  · obtain ⟨d, hd, he⟩ := exists_utf8_of_lt (Nat.lt_of_not_le hc)
    rw [hd, List.mem_singleton] at h
    rw [isPartByte, h, he]

namespace Nesting

variable {n : Nesting} {s t : Text}

theorem zip_replicate (bs : List UInt8) (n : Nesting) :
    bs.zip (List.replicate bs.length n) = bs.map (·, n) := by
  induction bs with
  | nil => rfl
  | cons b bs ih => rw [List.length_cons, List.replicate_succ, List.zip_cons_cons, ih, List.map_cons]

/-- All bytes of a character stand in the outline, or none does. -/
theorem outline_cons (n : Nesting) (c : Char) (t : Text) :
    n.outline (c :: t) = (if n.isQuoted || !isPart c then
      (String.utf8EncodeChar c).map (·, n.isQuoted, n.depth) else []) ++ (n.step c).outline t := by
  have hl : (String.utf8EncodeChar c).length = (List.replicate c.utf8Size n).length := by
    rw [String.length_utf8EncodeChar, List.length_replicate]
  rw [outline, Text.utf8, List.flatMap_cons, bytewise, List.zip_append hl, List.filterMap_append,
    ← String.length_utf8EncodeChar, zip_replicate, List.filterMap_map]
  refine congrArg (· ++ _) ?_
  split
  next h =>
    refine List.filterMap_eq_map_iff_forall_eq_some.2 fun b hb => ?_
    simp only [Function.comp_apply, Identifier.isPartByte_of_mem_utf8 hb, h, if_true]
  next h =>
    refine List.filterMap_eq_nil_iff.2 fun b hb => ?_
    simp only [Function.comp_apply, Identifier.isPartByte_of_mem_utf8 hb, h, if_false,
      Bool.false_eq_true]

theorem outline_append (n : Nesting) (s t : Text) :
    n.outline (s ++ t) = n.outline s ++ (n.after s).outline t := by
  induction s generalizing n with
  | nil => rfl
  | cons c s ih => rw [List.cons_append, outline_cons, outline_cons, ih, after_cons, List.append_assoc]

end Nesting

end SqlEdit
