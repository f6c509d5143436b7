import SqlEdit.Proofs.Identifier.Skeleton
import SqlEdit.Proofs.Nesting.Outline

namespace SqlEdit

open Identifier (isPart isTokenChar IsToken)

variable {n m : Nesting} {s t : Text} {name : Text} {style : Style}

namespace Nesting

theorem after_of_isToken (n : Nesting) (h : IsToken t) : n.after t = n :=
  after_of_isPlain (List.all_eq_true.2 fun c hc => isPlain_of_isTokenChar (h c hc))

theorem outline_of_isToken (hn : n.isQuoted = false) (h : IsToken t) :
    n.outline t = List.replicate (t.count '.') ('.'.toUInt8, false, n.depth) := by
  induction t with
  | nil => rfl
  | cons c t ih =>
      obtain ⟨hc, ht⟩ := List.forall_mem_cons.1 h
      rw [outline_cons, step_of_isPlain (isPlain_of_isTokenChar hc), ih ht, hn, Bool.false_or]
      rw [isTokenChar, Bool.or_eq_true, beq_iff_eq] at hc
      rcases hc with hc | rfl
      · have hd : c ≠ '.' := by
          rintro rfl
          exact absurd hc (by decide)
        rw [hc, if_neg (by decide), List.nil_append, List.count_cons_of_ne hd]
      · rw [if_pos (by decide), List.count_cons_self, List.replicate_succ]
        rfl

theorem quote_step (h : n.quote = m.quote) (c : Char) : (n.step c).quote = (m.step c).quote := by
  rw [step, step]
  grind

end Nesting

namespace Lexeme

def AreOutside (n : Nesting) : List Lexeme → Prop
  | [] => True
  | mark c :: ls => AreOutside (n.step c) ls
  | token name :: ls => n.isQuoted = false ∧ IsToken name ∧ AreOutside n ls

theorem areOutside_extend {c : Char} {ls : List Lexeme} (hn : n.isQuoted = false)
    (hc : isTokenChar c) (h : AreOutside n ls) : AreOutside n (extend c ls) := by
  have hcons {t : Text} (ht : IsToken t) : IsToken (c :: t) := List.forall_mem_cons.2 ⟨hc, ht⟩
  have hnil : IsToken [] := fun d hd => absurd hd List.not_mem_nil
  rcases ls with _ | ⟨⟨name⟩ | d, ls⟩
  · exact ⟨hn, hcons hnil, trivial⟩
  · exact ⟨hn, hcons h.2.1, h.2.2⟩
  · exact ⟨hn, hcons hnil, h⟩

/-- Open parentheses do not matter for what is a token. -/
theorem areOutside_after (before : Option Char) (h : n.quote = m.quote) (t : Text) :
    AreOutside n (after before m t) := by
  induction t generalizing before n m with
  | nil => trivial
  | cons c t ih =>
      have hq : n.isQuoted = m.isQuoted := congrArg Option.isSome h
      rw [after]
      split
      next hc =>
        rw [Bool.and_eq_true, Bool.not_eq_true'] at hc
        have ht := isTokenChar_of_inToken hc.2
        have hp := isPlain_of_isTokenChar ht
        refine areOutside_extend (hq.trans hc.1) ht (ih _ ?_)
        rwa [Nesting.step_of_isPlain hp]
      next => exact ih _ (Nesting.quote_step h c)

end Lexeme

namespace Fragment

theorem outline_convertLexemes (style : Style) (before : Option Char) (afterAs : Bool)
    {ls : List Lexeme} (h : Lexeme.AreOutside n ls) :
    n.outline (convertLexemes style before afterAs ls) = n.outline (ls.flatMap Lexeme.text) := by
  induction ls generalizing n before afterAs with
  | nil => rfl
  | cons l ls ih =>
      cases l with
      | mark c =>
          have hc := ih (n := n.step c) (some c) afterAs h
          rw [convertLexemes, List.flatMap_cons, Lexeme.text, List.singleton_append,
            Nesting.outline_cons, Nesting.outline_cons, hc]
      | token name =>
          obtain ⟨hn, ht, hls⟩ := h
          -- Whatever token stands here, only its dots count, and nothing is opened by it.
          have hf (u : Text) (hu : IsToken u) (hd : u.count '.' = name.count '.') :
              n.outline u = n.outline name ∧ n.after u = n := by
            rw [Nesting.outline_of_isToken hn hu, Nesting.outline_of_isToken hn ht, hd]
            exact ⟨rfl, Nesting.after_of_isToken n hu⟩
          have hi := ih name.getLast? (isAs name) hls
          rw [convertLexemes, List.flatMap_cons, Lexeme.text, Nesting.outline_append,
            Nesting.outline_append, (hf name ht rfl).2, ← hi]
          split
          · obtain ⟨ho, ha⟩ := hf _ (ht.convert style) (ht.count_dot_convert style)
            rw [ho, ha]
          · rw [(hf name ht rfl).2]

theorem outline_convert (hn : n.isQuoted = false) (style : Style) (t : Text) :
    n.outline (convert style t) = n.outline t := by
  have hq : n.quote = Nesting.top.quote :=
    Option.isNone_iff_eq_none.1 (by simpa [Nesting.isQuoted] using hn)
  have ho := outline_convertLexemes style none false (Lexeme.areOutside_after none hq t)
  rw [Lexeme.flatMap_text_after] at ho
  exact ho

end Fragment

structure Text.Alike (s t : Text) : Prop where
  after : ∀ n : Nesting, n.after t = n.after s
  outline : ∀ n : Nesting, n.isQuoted = false → n.outline t = n.outline s

theorem Text.Alike.rfl {t : Text} : Text.Alike t t :=
  ⟨fun _ => Eq.refl _, fun _ _ => Eq.refl _⟩

theorem Nesting.after_of_skeleton (h : t.skeleton = s.skeleton) (n : Nesting) :
    n.after t = n.after s := by
  rw [← after_skeleton, h, after_skeleton]

theorem Fragment.alike_convert (style : Style) (t : Text) : Text.Alike t (convert style t) :=
  ⟨Nesting.after_of_skeleton (skeleton_convert style t), fun _ hn => outline_convert hn style t⟩

theorem Style.alike_convert (style : Style) (h : Identifier.isPlain t) :
    Text.Alike t (style.convert t) := by
  have ht := Identifier.isToken_of_isPlain h
  refine ⟨fun n => ?_, fun n hn => ?_⟩
  · rw [Nesting.after_of_isToken n ht, Nesting.after_of_isToken n (ht.convert style)]
  · rw [Nesting.outline_of_isToken hn ht, Nesting.outline_of_isToken hn (ht.convert style),
      ht.count_dot_convert]

theorem Style.alike_convertName (style : Style) (name : Text) :
    Text.Alike name (style.convertName name) := by
  rw [convertName]
  split
  next h => exact style.alike_convert h
  next => exact .rfl

theorem Field.alike_convert (style : Style) (f : Field) :
    Text.Alike f.expression (f.convert style).expression := by
  rw [convert]
  split
  next h => exact style.alike_convert h
  next => exact Fragment.alike_convert style f.expression

end SqlEdit
