import SqlEdit.Proofs.Identifier.Skeleton

namespace SqlEdit

open Identifier (isPart isStart isSegment isPlain isTokenChar IsToken)

variable {before : Option Char} {n : Nesting} {c d : Char} {s t u name : Text}

namespace Lexeme

def continues (c : Char) (t : Text) : Bool :=
  isPart c || (c == '.' && t.head?.any isStart)

def splitToken : Text → Text × Text
  | [] => ([], [])
  | c :: t => if continues c t then ((splitToken t).1.cons c, (splitToken t).2) else ([], c :: t)

def Ended : Text → Prop
  | [] => True
  | c :: t => continues c t = false

def Unbroken : Text → Prop
  | [] => True
  | c :: t => continues c t ∧ Unbroken t

theorem splitToken_append (t : Text) : (splitToken t).1 ++ (splitToken t).2 = t := by
  induction t with
  | nil => rfl
  | cons c t ih =>
      rw [splitToken]
      split
      · exact congrArg (c :: ·) ih
      · rfl

theorem cons_splitToken (c : Char) (t : Text) :
    (c :: (splitToken t).1) ++ (splitToken t).2 = c :: t := by
  rw [List.cons_append, splitToken_append]

theorem length_splitToken (t : Text) : (splitToken t).2.length ≤ t.length := by
  conv => rhs; rw [← splitToken_append t, List.length_append]
  exact Nat.le_add_left _ _

theorem ended_splitToken (t : Text) : Ended (splitToken t).2 := by
  induction t with
  | nil => trivial
  | cons c t ih =>
      rw [splitToken]
      split
      next => exact ih
      next h => exact Bool.eq_false_iff.2 h

theorem continues_append (h : continues c s) (t : Text) : continues c (s ++ t) := by
  rw [continues, Bool.or_eq_true, Bool.and_eq_true] at h ⊢
  refine h.imp_right fun ⟨hd, hs⟩ => ⟨hd, ?_⟩
  cases s with
  | nil => exact absurd hs Bool.false_ne_true
  | cons d s => exact hs

theorem unbroken_splitToken (t : Text) : Unbroken (splitToken t).1 := by
  induction t with
  | nil => trivial
  | cons c t ih =>
      rw [splitToken]
      split
      next h =>
        refine ⟨?_, ih⟩
        rw [continues, Bool.or_eq_true, Bool.and_eq_true] at h ⊢
        refine h.imp_right fun ⟨hd, hs⟩ => ⟨hd, ?_⟩
        cases t with
        | nil => exact hs
        | cons d t =>
            have hp : continues d t := Bool.or_eq_true_iff.2 (.inl (Identifier.isPart_of_isStart hs))
            rwa [splitToken, if_pos hp]
      next => trivial

theorem Unbroken.of_append (h : Unbroken (s ++ t)) : Unbroken t := by
  induction s with
  | nil => exact h
  | cons c s ih => exact ih h.2

theorem Unbroken.splitToken_eq (h : Unbroken s) (ht : Ended t) : splitToken (s ++ t) = (s, t) := by
  induction s with
  | nil =>
      cases t with
      | nil => rfl
      | cons c t => rw [List.nil_append, splitToken, if_neg (Bool.eq_false_iff.1 ht)]
  | cons c s ih => rw [List.cons_append, splitToken, if_pos (continues_append h.1 t), ih h.2]

theorem isTokenChar_of_continues (h : continues c t) : isTokenChar c := by
  rw [continues, Bool.or_eq_true, Bool.and_eq_true] at h
  rw [isTokenChar, Bool.or_eq_true]
  exact h.imp_right And.left

theorem isToken_splitToken (t : Text) : IsToken (splitToken t).1 := by
  induction t with
  | nil => exact fun c hc => absurd hc List.not_mem_nil
  | cons c t ih =>
      rw [splitToken]
      split
      next h => exact List.forall_mem_cons.2 ⟨isTokenChar_of_continues h, ih⟩
      next => exact fun c hc => absurd hc List.not_mem_nil

theorem not_isStart_dot : isStart '.' = false := rfl

/-- Inside a token the character before does not matter: it is no dot in front of a dot. -/
theorem inToken_of_continues (hc : inToken before c (d :: t)) (hd : continues d t) :
    inToken (some c) d t := by
  rw [continues, Bool.or_eq_true] at hd
  rw [inToken, Bool.or_eq_true]
  refine hd.imp_right fun hd => ?_
  rw [Bool.and_eq_true, beq_iff_eq] at hd
  obtain ⟨rfl, hs⟩ := hd
  rw [inToken, List.head?_cons, Option.any_some, not_isStart_dot, Bool.and_false, Bool.or_false] at hc
  rw [Option.any_some, hc, hs]
  rfl

theorem continues_of_inToken (h : inToken before c t) : continues c t := by
  rw [inToken, Bool.or_eq_true, Bool.and_eq_true, Bool.and_eq_true] at h
  rw [continues, Bool.or_eq_true, Bool.and_eq_true]
  exact h.imp_right fun h => ⟨h.1.1, h.2⟩

theorem after_mark (h : n.isQuoted ∨ inToken before c t = false) :
    after before n (c :: t) = mark c :: after (some c) (n.step c) t := by
  rw [after, if_neg]
  rw [Bool.and_eq_true, Bool.not_eq_true']
  rintro ⟨hn, hc⟩
  rcases h with h | h
  · exact Bool.false_ne_true (hn.symm.trans h)
  · exact Bool.false_ne_true (h.symm.trans hc)

theorem after_of_inToken (hn : n.isQuoted = false) (hc : inToken before c t) :
    after before n (c :: t) = extend c (after (some c) n t) := by
  have hstep : n.step c = n :=
    Nesting.step_of_isPlain (isPlain_of_isTokenChar (isTokenChar_of_inToken hc))
  rw [after, hn, hc, hstep]
  rfl

theorem after_token (hn : n.isQuoted = false) (hc : inToken before c t) :
    after before n (c :: t) =
      token (c :: (splitToken t).1) ::
        after (c :: (splitToken t).1).getLast? n (splitToken t).2 := by
  rw [after_of_inToken hn hc]
  induction t generalizing before c with
  | nil => rfl
  | cons d t ih =>
      rw [splitToken]
      cases hd : continues d t with
      | true =>
          have hin := inToken_of_continues hc hd
          rw [after_of_inToken hn hin, ih hin, if_pos rfl]
          simp only [List.getLast?_cons_cons]
          rfl
      | false =>
          have hout : inToken (some c) d t = false := by
            rw [← Bool.not_eq_true]
            exact fun h => Bool.false_ne_true (hd.symm.trans (continues_of_inToken h))
          rw [if_neg Bool.false_ne_true, List.getLast?_singleton, after_mark (.inr hout)]
          rfl

/-- Where tokens have not begun a dot begins none: the character before it belongs to no token. -/
def Fresh (before : Option Char) (n : Nesting) : Text → Prop
  | [] => True
  | c :: t => n.isQuoted = false → inToken before c t → isPart c

theorem fresh_of_not_isPart (h : before.any isPart = false) (n : Nesting) (t : Text) :
    Fresh before n t := by
  cases t with
  | nil => trivial
  | cons c t =>
      intro _ hc
      rw [inToken, h, Bool.and_false, Bool.false_and, Bool.or_false] at hc
      exact hc

theorem fresh_of_ended (h : Ended t) (before : Option Char) (n : Nesting) : Fresh before n t := by
  cases t with
  | nil => trivial
  | cons c t =>
      intro _ hc
      exact absurd (continues_of_inToken hc) (by rw [h]; exact Bool.false_ne_true)

/-- Behind a mark no token has begun: an identifier character that is a mark is quoted, and so is
what follows it. -/
theorem fresh_of_mark (h : n.isQuoted ∨ isPart c = false) (t : Text) :
    Fresh (some c) (n.step c) t := by
  cases hc : isPart c with
  | false => exact fresh_of_not_isPart (by rw [Option.any_some, hc]) _ t
  | true =>
      have hq : n.isQuoted := h.resolve_right (by rw [hc]; exact Bool.noConfusion)
      have hstep : n.step c = n :=
        Nesting.step_of_isPlain (isPlain_of_isTokenChar (by rw [isTokenChar, hc, Bool.true_or]))
      cases t with
      | nil => trivial
      | cons d t =>
          intro hn
          rw [hstep, hq] at hn
          cases hn

end Lexeme

end SqlEdit
