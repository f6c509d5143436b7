import Mathlib.Algebra.GroupWithZero.Nat
import SqlEdit.Proofs.Nesting.Squash

namespace SqlEdit

namespace Text

structure Countable (p : Char → Bool) : Prop where
  blank : ∀ c, SqlEdit.isBlank c → p c = false
  lower : ∀ c, p c.toLower = p c

variable {p : Char → Bool}

theorem countP_squash (hp : Countable p) (t : Text) : (squash t).countP p = t.countP p := by
  rw [squash, foldCase, List.countP_map, List.countP_filter]
  refine List.countP_congr fun c _ => ?_
  rw [Function.comp_apply, hp.lower, Bool.and_eq_true]
  refine and_iff_left_of_imp fun hc => ?_
  cases hb : SqlEdit.isBlank c with
  | false => rfl
  | true => rw [hp.blank c hb] at hc; exact absurd hc Bool.false_ne_true

theorem countP_eq_of_squash (hp : Countable p) {s t : Text} (h : squash s = squash t) :
    s.countP p = t.countP p := by
  rw [← countP_squash hp, h, countP_squash hp]

theorem countP_flatMap_squash (hp : Countable p) (ws : List Text) :
    (ws.flatMap squash).countP p = (ws.map (List.countP p)).sum := by
  rw [List.countP_flatMap]
  exact congrArg List.sum (List.map_congr_left fun w _ => countP_squash hp w)

theorem countP_trim (hp : Countable p) (t : Text) : (trim t).countP p = t.countP p :=
  countP_eq_of_squash hp (squash_trim t)

theorem countP_trimEnd (hp : Countable p) (t : Text) : (trimEnd t).countP p = t.countP p :=
  countP_eq_of_squash hp (squash_trimEnd t)

theorem countP_trimStart (hp : Countable p) (t : Text) : (trimStart t).countP p = t.countP p :=
  countP_eq_of_squash hp (squash_trimStart t)

theorem countP_of_sameWord (hp : Countable p) {s t : Text} (h : sameWord s t) :
    s.countP p = t.countP p :=
  countP_eq_of_squash hp (squash_of_sameWord h)

theorem countP_joinWords (hp : Countable p) (ws : List Text) :
    (joinWords ws).countP p = (ws.map (List.countP p)).sum := by
  rw [← countP_squash hp, squash_joinWords, countP_flatMap_squash hp]

theorem sum_countP_splitWords (hp : Countable p) (t : Text) :
    (t.splitWords.map (List.countP p)).sum = t.countP p := by
  rw [← countP_flatMap_squash hp, flatMap_squash_splitWords, countP_squash hp]

theorem countable_of_isAlpha (hb : ∀ c, SqlEdit.isBlank c → p c = false)
    (ha : ∀ c d : Char, c.isAlpha → d.isAlpha → p c = p d) : Countable p where
  blank := hb
  lower c := by
    by_cases hc : c.isAlpha
    · exact ha _ _ (by rwa [isAlpha_toLower]) hc
    · rw [toLower_of_not_isAlpha (Bool.eq_false_iff.2 hc)]

theorem countable_not_isBlank : Countable (!SqlEdit.isBlank ·) where
  blank c hc := by rw [hc, Bool.not_true]
  lower c := by rw [isBlank_toLower]

theorem countable_semicolon : Countable (· == ';') := by
  refine countable_of_isAlpha (fun c h => ?_) fun c d hc hd => ?_
  · rw [beq_eq_false_iff_ne]
    rintro rfl
    exact absurd h (by decide)
  · have hne (e : Char) (he : e.isAlpha) : (e == ';') = false := by
      rw [beq_eq_false_iff_ne]
      rintro rfl
      exact absurd he (by decide)
    rw [hne c hc, hne d hd]

end Text

end SqlEdit
