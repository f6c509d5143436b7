import SqlEdit.Proofs.Nesting.Pieces

namespace SqlEdit

open Nesting (Free Pieces isPlain)

namespace Nesting

variable {p : Char → Bool} {n : Nesting} {t : Text}

def places (p : Char → Bool) (n : Nesting) (t : Text) : List Nat :=
  (List.range t.length).filter fun i => (n.after (t.take i)).isTop && t[i]?.any p

theorem places_cons (c : Char) (t : Text) :
    places p n (c :: t) =
      (if n.isTop && p c then [0] else []) ++ (places p (n.step c) t).map (· + 1) := by
  have hrest : ((List.range t.length).map (· + 1)).filter
      (fun i => (n.after ((c :: t).take i)).isTop && (c :: t)[i]?.any p) =
        (places p (n.step c) t).map (· + 1) := by
    rw [List.filter_map]
    rfl
  rw [places, List.length_cons, List.range_succ_eq_map, List.filter_cons, hrest]
  by_cases h : n.isTop && p c
  · rw [if_pos h, if_pos (by simpa using h)]
    rfl
  · rw [if_neg h, if_neg (by simpa using h)]
    rfl

theorem places_eq_nil_iff : places p n t = [] ↔ Free p n t := by
  induction t generalizing n with
  | nil => simp [places]
  | cons c t ih =>
      rw [places_cons, free_cons, ← ih]
      cases n.isTop && p c <;> simp

end Nesting

namespace Text

variable {c : Char} {t : Text}

def stretches (t : Text) (places : List Nat) : List Text :=
  List.zipWith (fun start stop => (t.take stop).drop start) (0 :: places.map (· + 1))
    (places ++ [t.length])

theorem length_stretches (t : Text) (places : List Nat) :
    (t.stretches places).length = places.length + 1 := by
  simp [stretches]

theorem map_succ_append_length (c : Char) (t : Text) (places : List Nat) :
    places.map (· + 1) ++ [(c :: t).length] = (places ++ [t.length]).map (· + 1) := by
  simp

theorem stretches_zero (c : Char) (t : Text) (places : List Nat) :
    stretches (c :: t) (0 :: places.map (· + 1)) = [] :: t.stretches places := by
  rw [stretches, List.cons_append, map_succ_append_length, List.map_cons, List.zipWith_cons_cons]
  change [] :: List.zipWith (fun start stop => ((c :: t).take stop).drop start)
    ((0 :: places.map (· + 1)).map (· + 1)) ((places ++ [t.length]).map (· + 1)) = _
  rw [List.zipWith_map]
  rfl

theorem stretches_succ (c : Char) (t : Text) (places : List Nat) :
    stretches (c :: t) (places.map (· + 1)) = (t.stretches places).modifyHead (c :: ·) := by
  rw [stretches, stretches, map_succ_append_length]
  cases hs : places ++ [t.length] with
  | nil => simp at hs
  | cons q qs =>
      rw [List.map_cons, List.zipWith_cons_cons, List.zipWith_cons_cons, List.modifyHead_cons,
        List.zipWith_map]
      rfl

theorem cut_eq_stretches (p : Char → Bool) (n : Nesting) (t : Text) :
    n.cut p t = t.stretches (Nesting.places p n t) := by
  induction t generalizing n with
  | nil => rfl
  | cons c t ih =>
      rw [Nesting.cut, Nesting.places_cons, ih]
      split
      · rw [List.singleton_append, stretches_zero]
      · rw [List.nil_append, stretches_succ]

theorem isBlank_trim : isBlank (trim t) ↔ isBlank t := by
  rw [← trim_eq_nil_iff, trim_trim, trim_eq_nil_iff]

theorem isBlank_join_cons {separator : Text} {ts : List Text} :
    isBlank (join separator (t :: ts)) ↔ isBlank t ∧ ∀ u ∈ ts, isBlank separator ∧ isBlank u := by
  rw [join_cons, isBlank_append]
  simp [isBlank]

theorem isBlank_join_splitItems : isBlank (join [c, ' '] (t.splitItems c)) ↔ isBlank t := by
  by_cases ht : isBlank t
  · rw [splitItems, if_pos ht]
    exact iff_of_true rfl ht
  · have hc : isBlank [c, ' '] ↔ isBlank [c] := by
      simp [isBlank, show SqlEdit.isBlank ' ' = true from rfl]
    have hj := Nesting.join_cut c .top t
    obtain ⟨u, us, hu⟩ := List.exists_cons_of_ne_nil (Nesting.cut_ne_nil (· == c) .top t)
    rw [hu] at hj
    rw [splitItems, if_neg ht, hu, List.map_cons, isBlank_join_cons, isBlank_trim, hc]
    conv_rhs => rw [← hj, isBlank_join_cons]
    simp [isBlank_trim]

/-- A text is cut into items exactly at the separators that stand at top level, no item holds one, and
the items with a separator and a space between any two are read back, whatever is left open in the
text. A separator is any character but a quote, a parenthesis and the space. -/
theorem splitItems_exact (hc : isPlain c) (hs : c ≠ ' ') (t : Text) :
    (isBlank t → t.splitItems c = []) ∧
      (¬ isBlank t →
        t.splitItems c = (t.stretches (Nesting.places (· == c) .top t)).map trim ∧
          (t.splitItems c).length = (Nesting.places (· == c) .top t).length + 1) ∧
      (∀ u ∈ t.splitItems c, Nesting.places (· == c) .top u = []) ∧
      (join [c, ' '] (t.splitItems c)).splitItems c = t.splitItems c := by
  refine ⟨fun hb => if_pos hb, fun hb => ?_, fun u hu => ?_, ?_⟩
  · have h : t.splitItems c = (t.stretches (Nesting.places (· == c) .top t)).map trim := by
      rw [splitItems, if_neg hb, cut_eq_stretches]
    exact ⟨h, by rw [h, List.length_map, length_stretches]⟩
  · exact Nesting.places_eq_nil_iff.2 ((pieces_splitItems hc t).free u hu)
  · by_cases hb : isBlank t
    · rw [show t.splitItems c = [] from if_pos hb]
      rfl
    · apply splitItems_join hc hs (pieces_splitItems hc t) fun u => trim_of_mem_splitItems
      rwa [isBlank_join_splitItems]

theorem splitItems_exact_of_open :
    isPlain ',' ∧ ',' ≠ ' ' ∧
      splitItems ',' ", (a, b)) ,'c, d".toList = ["".toList, "(a, b))".toList, "'c, d".toList] ∧
      splitItems ',' (join [',', ' '] (splitItems ',' ", (a, b)) ,'c, d".toList)) =
        splitItems ',' ", (a, b)) ,'c, d".toList := by
  have hc : isPlain ',' := by decide
  have hs : ',' ≠ ' ' := by decide
  obtain ⟨-, -, -, h⟩ := splitItems_exact hc hs ", (a, b)) ,'c, d".toList
  exact ⟨hc, hs, by decide, h⟩

end Text

end SqlEdit
