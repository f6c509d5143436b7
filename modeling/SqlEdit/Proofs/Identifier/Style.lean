import Mathlib.Tactic.Common
import SqlEdit.Identifier.Style
import SqlEdit.Proofs.Text.Case
import SqlEdit.Proofs.Text.Cut

namespace SqlEdit

open Identifier (isPart isStart)
open Unicode (lower upper Shift lowerShifts upperShifts upperExpansions)

namespace Unicode

def Shift.keepsParts (s : Shift) : Bool :=
  let first := s.run.first + s.distance
  let last := s.run.last + s.distance
  (128 ≤ first && (last < 0xD800 || (0xDFFF < first && last < 0x110000))) ||
    (s.run.first == s.run.last && isPart (Char.ofNat first.toNat))

variable {c d : Char}

theorem isPart_of_le (h : 128 ≤ c.toNat) : isPart c := by
  simp [isPart, h]

theorem isPart_ofNat {n : Nat} (h : 128 ≤ n) (hv : n.isValidChar) : isPart (Char.ofNat n) := by
  apply isPart_of_le
  rw [Char.ofNat, dif_pos hv]
  exact h

theorem isPart_move {ss : List Shift} (h : ss.all Shift.keepsParts) (hc : isPart c) :
    isPart (Shift.move ss c) := by
  rw [Shift.move]
  split
  next s hs =>
    have hr := List.find?_some hs
    have hk := List.all_eq_true.1 h s (List.mem_of_find?_eq_some hs)
    simp only [Run.contains, Bool.and_eq_true, decide_eq_true_eq] at hr
    simp only [Shift.keepsParts, Bool.or_eq_true, Bool.and_eq_true, decide_eq_true_eq,
      beq_iff_eq] at hk
    rcases hk with ⟨hf, hl⟩ | ⟨he, hp⟩
    · apply isPart_ofNat
      · omega
      · simp only [Nat.isValidChar]
        omega
    · have hn : c.toNat = s.run.first := by omega
      rwa [hn]
  next => exact hc

theorem isPart_of_mem_lower (hc : isPart c) (hd : d ∈ lower c) : isPart d := by
  have hs : lowerShifts.all Shift.keepsParts := by decide
  have hi : ['i', '\u0307'].all isPart := by decide
  by_cases h : c.toNat < 128
  · rw [lower_of_lt h, List.mem_singleton] at hd
    exact hd ▸ of_ascii (p := fun c => isPart c → isPart c.toLower) (by decide) h hc
  · rw [lower, if_neg h] at hd
    split at hd
    · exact List.all_eq_true.1 hi d hd
    · rw [List.mem_singleton] at hd
      exact hd ▸ isPart_move hs hc

theorem isPart_of_mem_upper (hc : isPart c) (hd : d ∈ upper c) : isPart d := by
  have hs : upperShifts.all Shift.keepsParts := by decide
  have he : upperExpansions.all fun p => p.2.all fun n => isPart (Char.ofNat n) := by
    decide
  by_cases h : c.toNat < 128
  · rw [upper_of_lt h, List.mem_singleton] at hd
    exact hd ▸ of_ascii (p := fun c => isPart c → isPart c.toUpper) (by decide) h hc
  · rw [upper, if_neg h] at hd
    split at hd
    next image hl =>
      obtain ⟨n, hn, rfl⟩ := List.mem_map.1 hd
      obtain ⟨l₁, l₂, hu, -⟩ := List.lookup_eq_some_iff.1 hl
      have hp := List.all_eq_true.1 he (c.toNat, image) (by simp [hu])
      exact List.all_eq_true.1 hp n hn
    next =>
      rw [List.mem_singleton] at hd
      exact hd ▸ isPart_move hs hc

end Unicode

variable {s t u : Text} {c d : Char}

namespace Style

theorem exists_of_mem_capitalize (h : d ∈ capitalize t) :
    ∃ c ∈ t, d ∈ lower c ∨ d ∈ upper c := by
  cases t with
  | nil => exact absurd h List.not_mem_nil
  | cons c t =>
      rcases List.mem_append.1 h with h | h
      · exact ⟨c, List.mem_cons_self, .inr h⟩
      · obtain ⟨e, he, hd⟩ := List.mem_flatMap.1 h
        exact ⟨e, List.mem_cons_of_mem c he, .inl hd⟩

theorem exists_of_mem_toCamel (h : d ∈ toCamel t) :
    ∃ c ∈ t, c ≠ '_' ∧ (d ∈ lower c ∨ d ∈ upper c) := by
  have hcut {w : Text} {c : Char} (hw : w ∈ t.cut (· == '_')) (hc : c ∈ w) : c ∈ t ∧ c ≠ '_' :=
    ⟨Text.subset_of_mem_cut hw hc,
      beq_eq_false_iff_ne.1 (Text.not_of_mem_cut (p := (· == '_')) hw hc)⟩
  unfold toCamel at h
  split at h
  next => exact absurd h List.not_mem_nil
  next first others hs =>
    rw [hs] at hcut
    rcases List.mem_append.1 h with h | h
    · obtain ⟨c, hc, hd⟩ := List.mem_flatMap.1 h
      obtain ⟨ht, hne⟩ := hcut List.mem_cons_self hc
      exact ⟨c, ht, hne, .inl hd⟩
    · obtain ⟨w, hw, hd⟩ := List.mem_flatMap.1 h
      obtain ⟨c, hc, hd⟩ := exists_of_mem_capitalize hd
      obtain ⟨ht, hne⟩ := hcut (List.mem_cons_of_mem first hw) hc
      exact ⟨c, ht, hne, hd⟩

theorem exists_of_mem_toSnake (h : d ∈ toSnake t) : d = '_' ∨ ∃ c ∈ t, d ∈ lower c := by
  cases t with
  | nil => exact absurd h List.not_mem_nil
  | cons c t =>
      rcases List.mem_append.1 h with h | h
      · exact .inr ⟨c, List.mem_cons_self, h⟩
      · obtain ⟨e, he, hd⟩ := List.mem_flatMap.1 h
        have he := List.mem_cons_of_mem c he
        split at hd
        · exact (List.mem_cons.1 hd).imp_right fun hd => ⟨e, he, hd⟩
        · exact .inr ⟨e, he, hd⟩

theorem convert_of_not_mem (style : Style) (h : '.' ∉ t) : style.convert t = style.apply t := by
  rw [convert, Text.cutLast?_eq_none_iff.2 h]

end Style

namespace Identifier

theorem isPart_of_isStart (h : isStart c) : isPart c := by
  rw [isStart, Bool.or_eq_true] at h
  rw [isPart, Char.isAlphanum]
  rcases h with h | h <;> simp [h]

def isTokenChar (c : Char) : Bool :=
  isPart c || c == '.'

def IsParts (t : Text) : Prop :=
  ∀ c ∈ t, isPart c

def IsToken (t : Text) : Prop :=
  ∀ c ∈ t, isTokenChar c

namespace IsParts

theorem subset (h : IsParts t) (hs : s ⊆ t) : IsParts s :=
  fun c hc => h c (hs hc)

theorem append (hs : IsParts s) (ht : IsParts t) : IsParts (s ++ t) :=
  fun c hc => (List.mem_append.1 hc).elim (hs c) (ht c)

theorem isToken (h : IsParts t) : IsToken t := by
  intro c hc
  rw [isTokenChar, h c hc, Bool.true_or]

theorem dot_not_mem (h : IsParts t) : '.' ∉ t := by
  intro hd
  exact absurd (h '.' hd) (by decide)

theorem toCamel (h : IsParts t) : IsParts (Style.toCamel t) := by
  intro d hd
  obtain ⟨c, hc, -, hd⟩ := Style.exists_of_mem_toCamel hd
  exact hd.elim (Unicode.isPart_of_mem_lower (h c hc)) (Unicode.isPart_of_mem_upper (h c hc))

theorem toSnake (h : IsParts t) : IsParts (Style.toSnake t) := by
  intro d hd
  rcases Style.exists_of_mem_toSnake hd with rfl | ⟨c, hc, hd⟩
  · decide
  · exact Unicode.isPart_of_mem_lower (h c hc) hd

theorem apply (h : IsParts t) (style : Style) : IsParts (style.apply t) := by
  cases style with
  | camel => exact h.toCamel
  | snake => exact h.toSnake

end IsParts

theorem isToken_of_isPlain (h : isPlain t) : IsToken t := by
  intro c hc
  obtain hd | ⟨u, hu, hm⟩ := Text.exists_mem_cut (p := (· == '.')) hc
  · rw [isTokenChar, hd, Bool.or_true]
  · have hs := List.all_eq_true.1 h u hu
    rw [isSegment, Bool.and_eq_true] at hs
    rw [isTokenChar, List.all_eq_true.1 hs.2 c hm, Bool.true_or]

namespace IsToken

theorem subset (h : IsToken t) (hs : s ⊆ t) : IsToken s :=
  fun c hc => h c (hs hc)

theorem append (hs : IsToken s) (ht : IsToken t) : IsToken (s ++ t) :=
  fun c hc => (List.mem_append.1 hc).elim (hs c) (ht c)

theorem isParts (h : IsToken t) (hd : '.' ∉ t) : IsParts t := by
  intro c hc
  have hp := h c hc
  rw [isTokenChar, Bool.or_eq_true, beq_iff_eq] at hp
  rcases hp with hp | rfl
  · exact hp
  · exact absurd hc hd

theorem isParts_lastSegment (h : IsToken t) : IsParts (lastSegment t) := by
  unfold lastSegment
  split
  next front segment hs =>
    obtain ⟨he, hd⟩ := Text.eq_of_cutLast? hs
    exact (h.subset (by simp [he])).isParts hd
  next hs => exact h.isParts (Text.cutLast?_eq_none_iff.1 hs)

/-- A token is one segment, or a qualifier with a dot and a last segment behind it; conversion
gives a token of the same form. -/
theorem convert_eq (h : IsToken t) (style : Style) :
    (IsParts t ∧ style.convert t = style.apply t) ∨ ∃ qualifier segment, IsToken qualifier ∧
      IsParts segment ∧ t = qualifier ++ '.' :: segment ∧
        style.convert t = qualifier ++ '.' :: style.apply segment := by
  rw [Style.convert]
  split
  next qualifier segment hs =>
    obtain ⟨he, hd⟩ := Text.eq_of_cutLast? hs
    exact .inr ⟨qualifier, segment, h.subset (by simp [he]), (h.subset (by simp [he])).isParts hd,
      he, rfl⟩
  next hs => exact .inl ⟨h.isParts (Text.cutLast?_eq_none_iff.1 hs), rfl⟩

theorem convert (h : IsToken t) (style : Style) : IsToken (style.convert t) := by
  obtain ⟨hp, he⟩ | ⟨qualifier, segment, hq, hs, -, he⟩ := h.convert_eq style
  · exact he ▸ (hp.apply style).isToken
  · rw [he, ← List.singleton_append]
    apply hq.append
    apply append
    · exact fun c hc => List.mem_singleton.1 hc ▸ rfl
    · exact (hs.apply style).isToken

theorem count_dot_convert (h : IsToken t) (style : Style) :
    (style.convert t).count '.' = t.count '.' := by
  have hz {u : Text} (hu : IsParts u) : u.count '.' = 0 := List.count_eq_zero.2 hu.dot_not_mem
  obtain ⟨hp, he⟩ | ⟨qualifier, segment, -, hs, ht, he⟩ := h.convert_eq style
  · rw [he, hz hp, hz (hp.apply style)]
  · rw [he, ht, List.count_append, List.count_append, List.count_cons_self, List.count_cons_self,
      hz hs, hz (hs.apply style)]

end IsToken

end Identifier

end SqlEdit
