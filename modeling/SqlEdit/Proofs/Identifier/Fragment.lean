import SqlEdit.Proofs.Identifier.Skeleton

namespace SqlEdit

open Identifier (isPart isStart isTokenChar isReserved IsParts)
open Nesting (Free)

variable {c : Char} {t : Text} {n : Nesting} {ls : List Lexeme}

namespace Lexeme

theorem mem_extend {name : Text} (h : token name ∈ extend c ls) :
    name.head? = some c ∨ token name ∈ ls := by
  rcases ls with _ | ⟨⟨word⟩ | d, ls⟩
  · simp only [extend, List.mem_singleton, token.injEq] at h
    exact .inl (h ▸ rfl)
  · rcases List.mem_cons.1 h with h | h
    · exact .inl (token.inj h ▸ rfl)
    · exact .inr (List.mem_cons_of_mem _ h)
  · rcases List.mem_cons.1 h with h | h
    · exact .inl (token.inj h ▸ rfl)
    · exact .inr h

theorem after_word {word : Text} (before : Option Char) (hne : word ≠ []) (hw : IsParts word)
    (hc : isTokenChar c = false) (t : Text) :
    after before .top (word ++ c :: t) = token word :: after word.getLast? .top (c :: t) := by
  induction word generalizing before with
  | nil => exact absurd rfl hne
  | cons d word ih =>
      obtain ⟨hd, hw⟩ := List.forall_mem_cons.1 hw
      have hstep : Nesting.top.step d = .top :=
        Nesting.step_of_isPlain (isPlain_of_isTokenChar (by rw [isTokenChar, hd, Bool.true_or]))
      have hin (r : Text) : inToken before d r := by rw [inToken, hd, Bool.true_or]
      cases word with
      | nil =>
          have hout : inToken (some d) c t = false := by
            rw [← Bool.not_eq_true]
            intro h
            exact Bool.false_ne_true (hc.symm.trans (isTokenChar_of_inToken h))
          have hr : after (some d) .top (c :: t) = mark c :: after (some c) (Nesting.top.step c) t := by
            rw [after, hout]
            rfl
          rw [List.singleton_append, after, hstep, hin]
          simp only [List.getLast?_singleton, hr]
          rfl
      | cons e word =>
          rw [List.cons_append, after, hstep, hin, ih _ (List.cons_ne_nil _ _) hw,
            List.getLast?_cons_cons]
          rfl

end Lexeme

namespace Fragment

def isOpening (c : Char) : Bool :=
  isStart c || c == '('

theorem head?_of_mem_after (before : Option Char) (hd : n.depth = 0) (h : Free isOpening n t) :
    ∀ name, .token name ∈ Lexeme.after before n t → name.head?.any isStart = false := by
  induction t generalizing before n with
  | nil => simp [Lexeme.after]
  | cons c t ih =>
      obtain ⟨hc, ht⟩ := Nesting.free_cons.1 h
      have hopen (hq : n.quote = none) : isStart c = false ∧ c ≠ '(' := by
        simpa [Nesting.isTop, hq, hd, isOpening] using hc
      have hstep : (n.step c).depth = 0 := by
        rw [Nesting.step]
        cases hq : n.quote with
        | some q => grind
        | none => grind
      intro name hm
      rw [Lexeme.after] at hm
      split at hm
      next hin =>
        have hq : n.quote = none := by
          simpa [Nesting.isQuoted] using (Bool.and_eq_true_iff.1 hin).1
        rcases Lexeme.mem_extend hm with he | hm
        · rw [he, Option.any_some, (hopen hq).1]
        · exact ih _ hstep ht name hm
      next =>
        rcases List.mem_cons.1 hm with he | hm
        · cases he
        · exact ih _ hstep ht name hm

/-- Where no name begins nothing is converted. -/
theorem convertLexemes_eq (style : Style) (before : Option Char) (afterAs : Bool)
    (h : ∀ name, .token name ∈ ls → name.head?.any isStart = false) :
    convertLexemes style before afterAs ls = ls.flatMap Lexeme.text := by
  induction ls generalizing before afterAs with
  | nil => rfl
  | cons l ls ih =>
      have hls : ∀ name, .token name ∈ ls → name.head?.any isStart = false :=
        fun name hm => h name (List.mem_cons_of_mem _ hm)
      cases l with
      | mark c => rw [convertLexemes, ih _ _ hls]; rfl
      | token name =>
          have hn : namesColumn before name ls = false := by
            rw [namesColumn, h name List.mem_cons_self]
            rfl
          rw [convertLexemes, ih _ _ hls, hn, Bool.and_false, if_neg Bool.false_ne_true]
          rfl

theorem convert_equal (style : Style) {name : Text} (hs : name.head?.any isStart)
    (hp : IsParts name) (h : Free isOpening .top t) :
    convert style (name ++ ' ' :: '=' :: ' ' :: t) =
      (if isReserved name then name else style.convert name) ++ ' ' :: '=' :: ' ' :: t := by
  have hne : name ≠ [] := by
    rintro rfl
    exact absurd hs (by decide)
  have hm (before : Option Char) : Lexeme.after before .top (' ' :: '=' :: ' ' :: t) =
      .mark ' ' :: .mark '=' :: .mark ' ' :: Lexeme.after (some ' ') .top t := rfl
  have ht := convertLexemes_eq style (some ' ') (isAs name)
    (head?_of_mem_after (some ' ') rfl h)
  rw [Lexeme.flatMap_text_after] at ht
  rw [convert, Lexeme.ofText, Lexeme.after_word none hne hp (by decide), hm, convertLexemes,
    convertLexemes, convertLexemes, convertLexemes, ht]
  have hn : namesColumn none name (.mark ' ' :: .mark '=' :: .mark ' ' ::
      Lexeme.after (some ' ') .top t) = !isReserved name := by
    rw [namesColumn, hs]
    rfl
  rw [hn]
  cases isReserved name <;> rfl

end Fragment

end SqlEdit
