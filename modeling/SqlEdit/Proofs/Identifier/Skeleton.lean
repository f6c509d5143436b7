import SqlEdit.Proofs.Identifier.Style
import SqlEdit.Proofs.Nesting.Pieces
import SqlEdit.Statement.Convert

namespace SqlEdit

open Identifier (isTokenChar IsToken)
open Nesting (Free isPlain)
open Text (Closed)

def Text.skeleton (t : Text) : Text :=
  t.filter (!isTokenChar ·)

variable {s t u : Text} {c : Char} {p : Char → Bool} {n : Nesting}

theorem Text.skeleton_append (s t : Text) : skeleton (s ++ t) = skeleton s ++ skeleton t :=
  List.filter_append ..

theorem Text.skeleton_space (t : Text) : skeleton (' ' :: t) = ' ' :: skeleton t := rfl

theorem Text.skeleton_of_isToken (h : IsToken t) : skeleton t = [] :=
  List.filter_eq_nil_iff.2 fun c hc => by simp [h c hc]

theorem Text.skeleton_flatMap {α : Type} (f : α → Text) (as : List α) :
    skeleton (as.flatMap f) = as.flatMap fun a => skeleton (f a) :=
  List.filter_flatMap

theorem Text.skeleton_join (separator : Text) (ts : List Text) :
    skeleton (join separator ts) = join separator.skeleton (ts.map skeleton) := by
  cases ts with
  | nil => rfl
  | cons t ts =>
      rw [join_cons, List.map_cons, join_cons, skeleton_append, skeleton_flatMap, List.flatMap_map]
      simp only [skeleton_append]

theorem isPlain_of_isTokenChar (h : isTokenChar c) : isPlain c :=
  Nesting.isPlain_of_class h (by decide)

theorem Nesting.after_skeleton (n : Nesting) (t : Text) : n.after t.skeleton = n.after t := by
  induction t generalizing n with
  | nil => rfl
  | cons c t ih =>
      by_cases hc : isTokenChar c
      · rw [Text.skeleton, List.filter_cons_of_neg (by simp [hc]), ← Text.skeleton, ih, after_cons,
          step_of_isPlain (isPlain_of_isTokenChar hc)]
      · rw [Text.skeleton, List.filter_cons_of_pos (by simp [hc]), ← Text.skeleton, after_cons, ih,
          after_cons]

theorem Nesting.free_skeleton (hp : ∀ c, p c → isTokenChar c = false) :
    Free p n t.skeleton ↔ Free p n t := by
  induction t generalizing n with
  | nil => rfl
  | cons c t ih =>
      rw [free_cons]
      by_cases hc : isTokenChar c
      · have hpc : p c = false := by
          by_contra h
          exact Bool.false_ne_true ((hp c (by simpa using h)).symm.trans hc)
        rw [Text.skeleton, List.filter_cons_of_neg (by simp [hc]), ← Text.skeleton, ih,
          step_of_isPlain (isPlain_of_isTokenChar hc), hpc, Bool.and_false]
        exact (and_iff_right rfl).symm
      · rw [Text.skeleton, List.filter_cons_of_pos (by simp [hc]), ← Text.skeleton, free_cons, ih]

theorem Text.closed_iff_of_skeleton (h : s.skeleton = t.skeleton) : Closed s ↔ Closed t := by
  rw [Closed, Closed, ← Nesting.after_skeleton, h, Nesting.after_skeleton]

theorem Nesting.free_iff_of_skeleton (hp : isTokenChar c = false) (h : s.skeleton = t.skeleton) :
    Free (· == c) .top s ↔ Free (· == c) .top t := by
  have hp : ∀ d, (d == c) = true → isTokenChar d = false := forall_of_beq hp
  rw [← free_skeleton hp, h, free_skeleton hp]

/-- The borders between pieces are told by their skeletons. -/
theorem Nesting.Pieces.of_skeleton (hp : isTokenChar c = false) {ss ts : List Text}
    (h : Pieces (· == c) ss) (he : ts.map Text.skeleton = ss.map Text.skeleton) :
    Pieces (· == c) ts := by
  constructor
  · intro t ht
    obtain ⟨s, hs, hst⟩ := List.mem_map.1 (he ▸ List.mem_map_of_mem ht)
    exact (free_iff_of_skeleton hp hst).1 (h.free s hs)
  · intro t ht
    have hm : t.skeleton ∈ (ss.map Text.skeleton).dropLast := by
      rw [← he, ← List.map_dropLast]
      exact List.mem_map_of_mem ht
    rw [← List.map_dropLast] at hm
    obtain ⟨s, hs, hst⟩ := List.mem_map.1 hm
    exact (Text.closed_iff_of_skeleton hst).1 (h.closed s hs)

namespace Lexeme

variable {name : Text}

theorem isToken_of_mem_extend {ls : List Lexeme} (hc : isTokenChar c)
    (h : ∀ name, token name ∈ ls → IsToken name) (hm : token name ∈ extend c ls) : IsToken name := by
  have hcons {t : Text} (ht : IsToken t) : IsToken (c :: t) := List.forall_mem_cons.2 ⟨hc, ht⟩
  have hnil : IsToken [] := fun d hd => absurd hd List.not_mem_nil
  rcases ls with _ | ⟨⟨name'⟩ | d, ls⟩
  · obtain rfl := token.inj (List.mem_singleton.1 hm)
    exact hcons hnil
  · rcases List.mem_cons.1 hm with he | hm
    · obtain rfl := token.inj he
      exact hcons (h name' List.mem_cons_self)
    · exact h name (List.mem_cons_of_mem _ hm)
  · rcases List.mem_cons.1 hm with he | hm
    · obtain rfl := token.inj he
      exact hcons hnil
    · exact h name hm

theorem isTokenChar_of_inToken {before : Option Char} (h : inToken before c t) : isTokenChar c := by
  rw [inToken, Bool.or_eq_true, Bool.and_eq_true, Bool.and_eq_true] at h
  rw [isTokenChar, Bool.or_eq_true]
  exact h.imp id fun hd => hd.1.1

theorem isToken_of_mem_after {before : Option Char} (hm : token name ∈ after before n t) :
    IsToken name := by
  induction t generalizing before n name with
  | nil => exact absurd hm List.not_mem_nil
  | cons c t ih =>
      rw [after] at hm
      split at hm
      next hc =>
        have ht := isTokenChar_of_inToken (Bool.and_eq_true_iff.1 hc).2
        exact isToken_of_mem_extend ht (fun name hm => ih hm) hm
      next =>
        rcases List.mem_cons.1 hm with he | hm
        · cases he
        · exact ih hm

end Lexeme

namespace Fragment

theorem skeleton_convertLexemes (style : Style) (before : Option Char) (afterAs : Bool)
    {ls : List Lexeme} (h : ∀ name, .token name ∈ ls → IsToken name) :
    (convertLexemes style before afterAs ls).skeleton =
      Text.skeleton (ls.flatMap Lexeme.text) := by
  induction ls generalizing before afterAs with
  | nil => rfl
  | cons l ls ih =>
      have hls : ∀ name, .token name ∈ ls → IsToken name := fun name hm =>
        h name (List.mem_cons_of_mem l hm)
      cases l with
      | mark c =>
          rw [convertLexemes, ← List.singleton_append, Text.skeleton_append, ih _ _ hls,
            ← Text.skeleton_append]
          rfl
      | token name =>
          have hn : IsToken name := h name List.mem_cons_self
          rw [convertLexemes, Text.skeleton_append, ih _ _ hls, List.flatMap_cons,
            Text.skeleton_append, Lexeme.text, Text.skeleton_of_isToken hn]
          split
          · rw [Text.skeleton_of_isToken (hn.convert style)]
          · rw [Text.skeleton_of_isToken hn]

theorem skeleton_convert (style : Style) (t : Text) : (convert style t).skeleton = t.skeleton := by
  have h : ∀ name, .token name ∈ Lexeme.ofText t → IsToken name := fun name hm =>
    Lexeme.isToken_of_mem_after hm
  rw [convert, skeleton_convertLexemes style none false h, Lexeme.flatMap_text_ofText]

end Fragment

theorem Style.skeleton_convertName (style : Style) (name : Text) :
    (style.convertName name).skeleton = name.skeleton := by
  rw [convertName]
  split
  next h =>
    have hn := Identifier.isToken_of_isPlain h
    rw [Text.skeleton_of_isToken hn, Text.skeleton_of_isToken (hn.convert style)]
  next => rfl

end SqlEdit
