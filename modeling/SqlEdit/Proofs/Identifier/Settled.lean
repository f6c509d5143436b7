import SqlEdit.Proofs.Identifier.Columns
import SqlEdit.Proofs.Identifier.Reserved

namespace SqlEdit

open Identifier (isPart isStart isPlain isReserved isTokenChar IsToken)

variable {bf bf' s t name : Text} {c : Char} {o : Occurrence}

namespace Style

theorem isPlain_snake (h : isPlain t) : isPlain (snake.convert t) := by
  have hp {s : Text} (hs : Identifier.isSegment s) : isPlain (toSnake s) := by
    obtain ⟨hh, hp⟩ := Identifier.isSegment_iff.1 (isSegment_toSnake hs)
    exact Identifier.isPlain_of_isParts hp hh
  obtain ⟨hc, -, hs⟩ | ⟨q, s, hc, -, hq, hs⟩ := Identifier.exists_of_isPlain h
  · rw [convert, hc]
    exact hp hs
  · rw [convert, hc]
    exact (Identifier.isPlain_append_dot q _).2 ⟨hq, hp hs⟩

theorem dot_not_mem_toSnake (h : t.IsAscii) (hd : '.' ∉ t) : '.' ∉ toSnake t := by
  intro hm
  rcases exists_of_mem_toSnake hm with he | ⟨c, hc, hm⟩
  · cases he
  · rw [lower_of_mem h hc, List.mem_singleton] at hm
    exact hd (Unicode.eq_of_toLower_eq (by decide) hm.symm ▸ hc)

theorem snake_snake (h : t.IsAscii) : snake.convert (snake.convert t) = snake.convert t := by
  cases hc : t.cutLast? '.' with
  | none =>
      have hd : '.' ∉ t := Text.cutLast?_eq_none_iff.1 hc
      rw [convert_of_not_mem snake hd, apply,
        convert_of_not_mem snake (dot_not_mem_toSnake h hd), apply, toSnake_toSnake h]
  | some p =>
      obtain ⟨q, s⟩ := p
      obtain ⟨rfl, hd⟩ := Text.eq_of_cutLast? hc
      have hs : Text.IsAscii s := h.subset (by simp)
      have he (u : Text) (hu : '.' ∉ u) : snake.convert (q ++ '.' :: u) = q ++ '.' :: toSnake u := by
        rw [convert, Text.cutLast?_append_cons hu]
        rfl
      rw [he s hd, he _ (dot_not_mem_toSnake hs hd), toSnake_toSnake hs]

theorem dot_mem_convert (style : Style) (h : '.' ∈ t) : '.' ∈ style.convert t := by
  rw [convert]
  split
  next => exact List.mem_append_right _ List.mem_cons_self
  next hc => exact absurd h (Text.cutLast?_eq_none_iff.1 hc)

end Style

namespace Fragment

theorem isReserved_of_isAs (h : isAs name) : isReserved name :=
  List.any_eq_true.2 ⟨"AS".toList, by decide +kernel, h⟩

theorem isAs_of_isAs_snake (h : name.IsAscii) (ha : isAs (Style.snake.convert name)) :
    isAs name := by
  have hf : Text.foldCase (Style.snake.convert name) = ['a', 's'] := eq_of_beq ha
  have hm {c : Char} (hc : c ∈ Style.snake.convert name) : c.toLower ∈ ['a', 's'] :=
    hf ▸ List.mem_map_of_mem hc
  -- No dot and no underscore has been written, so the word has at most lost its capitals.
  have hd : '.' ∉ name := fun hd => absurd (hm (Style.dot_mem_convert .snake hd)) (by decide)
  rw [Style.convert_of_not_mem _ hd, Style.apply] at hf hm
  have hu : '_' ∉ Style.toSnake name := fun hu => absurd (hm hu) (by decide)
  rw [Style.toSnake_of_not_mem h hu,
    Text.foldCase_eq_self_iff.2 (Text.isUpper_of_mem_foldCase name)] at hf
  exact beq_iff_eq.2 hf

def settle (afterAs : Bool) (o : Occurrence) : Text :=
  if !afterAs && isColumn o then Style.snake.convert o.matched else o.matched

structure IsName (name : Text) : Prop where
  head : name.head?.any isPart
  unbroken : Lexeme.Unbroken name

theorem IsName.ne_nil (h : IsName name) : name ≠ [] := by
  rintro rfl
  exact absurd h.head Bool.false_ne_true

theorem IsName.isToken (h : IsName name) : IsToken name := by
  have hs := h.unbroken.splitToken_eq (t := []) trivial
  have ht := Lexeme.isToken_splitToken name
  rw [List.append_nil] at hs
  rwa [hs] at ht

theorem isName_of_isPlain (h : isPlain name) : IsName name := by
  obtain ⟨hs, hu⟩ := Lexeme.isPlain_iff.1 h
  refine ⟨?_, hu⟩
  cases name with
  | nil => exact hs
  | cons c t => exact Identifier.isPart_of_isStart hs

theorem isName_token (hc : isPart c) (t : Text) : IsName (c :: (Lexeme.splitToken t).1) :=
  ⟨hc, Bool.or_eq_true_iff.2 (.inl hc), Lexeme.unbroken_splitToken t⟩

theorem isPlain_of_isColumn (hn : IsName o.matched) (h : isColumn o) : isPlain o.matched := by
  simp only [isColumn, Bool.and_eq_true] at h
  exact Lexeme.isPlain_iff.2 ⟨h.1.1.1.1, hn.unbroken⟩

theorem isName_settle (afterAs : Bool) (hn : IsName o.matched) : IsName (settle afterAs o) := by
  rw [settle]
  split
  next h =>
    rw [Bool.and_eq_true] at h
    exact isName_of_isPlain (Style.isPlain_snake (isPlain_of_isColumn hn h.2))
  next => exact hn

def settleFrom (afterAs : Bool) (bf t : Text) : Text :=
  convertPieces .snake afterAs (piecesFrom bf t)

theorem settleFrom_nil (afterAs : Bool) (bf : Text) : settleFrom afterAs bf [] = [] := by
  rw [settleFrom, piecesFrom]
  rfl

theorem settleFrom_mark (hc : ¬ ((Nesting.top.after bf).isQuoted = false ∧ isPart c))
    (afterAs : Bool) (t : Text) :
    settleFrom afterAs bf (c :: t) = c :: settleFrom afterAs (bf ++ [c]) t := by
  rw [settleFrom, piecesFrom, if_neg hc, convertPieces, settleFrom]

theorem settleFrom_of_not_isPart (hc : isPart c = false) (afterAs : Bool) (bf t : Text) :
    settleFrom afterAs bf (c :: t) = c :: settleFrom afterAs (bf ++ [c]) t :=
  settleFrom_mark (by simp [hc]) afterAs t

theorem settleFrom_append (hq : (Nesting.top.after bf).isQuoted = false) (hn : IsName name)
    (ht : Lexeme.Ended t) (afterAs : Bool) :
    settleFrom afterAs bf (name ++ t) =
      settle afterAs ⟨bf, name, t⟩ ++ settleFrom (isAs name) (bf ++ name) t := by
  obtain ⟨c, name, rfl⟩ := List.exists_cons_of_ne_nil hn.ne_nil
  rw [settleFrom, List.cons_append, piecesFrom, if_pos ⟨hq, hn.head⟩,
    hn.unbroken.2.splitToken_eq ht,
    convertPieces]
  rfl

theorem head?_settleFrom (afterAs : Bool) (bf t : Text) :
    (settleFrom afterAs bf t).head? = t.head? ∨
      (settleFrom afterAs bf t).head?.any isStart ∧ t.head?.any isStart := by
  cases t with
  | nil => rw [settleFrom_nil]; exact .inl rfl
  | cons c t =>
      rw [settleFrom, piecesFrom]
      split
      next hc =>
        rw [convertPieces]
        split
        next h =>
          rw [Bool.and_eq_true] at h
          have hp := isPlain_of_isColumn (isName_token hc.2 t) h.2
          have hs := Style.isPlain_snake hp
          rw [Style.head?_append_of_ne_nil (isName_of_isPlain hs).ne_nil]
          exact .inr ⟨(Lexeme.isPlain_iff.1 hs).1, (Lexeme.isPlain_iff.1 hp).1⟩
        next => exact .inl rfl
      next => exact .inl rfl

theorem any_head?_settleFrom (afterAs : Bool) (bf t : Text) :
    (settleFrom afterAs bf t).head?.any isStart = t.head?.any isStart := by
  rcases head?_settleFrom afterAs bf t with h | ⟨h, h'⟩
  · rw [h]
  · rw [h, h']

theorem head?_settleFrom_iff (hc : isStart c = false) (afterAs : Bool) (bf t : Text) :
    (settleFrom afterAs bf t).head? = some c ↔ t.head? = some c := by
  rcases head?_settleFrom afterAs bf t with h | ⟨h, h'⟩
  · rw [h]
  · refine iff_of_false (fun he => ?_) fun he => ?_
    · rw [he, Option.any_some, hc] at h
      exact absurd h Bool.false_ne_true
    · rw [he, Option.any_some, hc] at h'
      exact absurd h' Bool.false_ne_true

theorem ended_settleFrom (h : Lexeme.Ended t) (afterAs : Bool) (bf : Text) :
    Lexeme.Ended (settleFrom afterAs bf t) := by
  cases t with
  | nil => rw [settleFrom_nil]; trivial
  | cons c t =>
      have hc : Lexeme.continues c t = false := h
      rw [settleFrom_of_not_isPart (Bool.or_eq_false_iff.1 hc).1, Lexeme.Ended, Lexeme.continues,
        any_head?_settleFrom]
      exact hc

theorem isSpace_of_isPart (h : isPart c) : isSpace c = false := by
  rw [← Bool.not_eq_true]
  intro hs
  exact Bool.false_ne_true ((isPart_of_isSpace hs).symm.trans h)

theorem dropWhile_of_head? {p : Char → Bool} (h : t.head?.any p = false) : t.dropWhile p = t := by
  cases t with
  | nil => rfl
  | cons c t => exact List.dropWhile_cons_of_neg (Bool.eq_false_iff.1 h)

theorem head?_dropWhile_settleFrom (afterAs : Bool) (bf t : Text) :
    ((settleFrom afterAs bf t).dropWhile isSpace).head? = some '(' ↔
      (t.dropWhile isSpace).head? = some '(' := by
  induction t generalizing bf with
  | nil => rw [settleFrom_nil]
  | cons c t ih =>
      cases hs : isSpace c with
      | true =>
          rw [settleFrom_of_not_isPart (isPart_of_isSpace hs), List.dropWhile_cons_of_pos hs,
            List.dropWhile_cons_of_pos hs, ih]
      | false =>
          have hd : (settleFrom afterAs bf (c :: t)).head?.any isSpace = false := by
            rcases head?_settleFrom afterAs bf (c :: t) with h | ⟨h, -⟩
            · rw [h, List.head?_cons, Option.any_some, hs]
            · obtain ⟨d, hd, hs⟩ := (Option.any_eq_true ..).1 h
              rw [hd, Option.any_some, isSpace_of_isPart (Identifier.isPart_of_isStart hs)]
          rw [dropWhile_of_head? hd, List.dropWhile_cons_of_neg (by simp [hs]),
            head?_settleFrom_iff (by decide)]

/-- Whether tokens are judged alike behind two texts: both leave the same open, and a sigil stands at
the end of both or of none. -/
structure AlikeBefore (bf bf' : Text) : Prop where
  after : Nesting.top.after bf' = Nesting.top.after bf
  sigil : bf'.getLast?.any [':', '@', '$', '#'].contains =
    bf.getLast?.any [':', '@', '$', '#'].contains

namespace AlikeBefore

theorem concat (h : AlikeBefore bf bf') (c : Char) : AlikeBefore (bf ++ [c]) (bf' ++ [c]) := by
  constructor
  · rw [Nesting.after_append, Nesting.after_append, h.after]
  · rw [List.getLast?_concat, List.getLast?_concat]

theorem sigil_name (hn : IsName name) (bf : Text) :
    (bf ++ name).getLast?.any [':', '@', '$', '#'].contains = false := by
  have hs : ∀ c, isTokenChar c → [':', '@', '$', '#'].contains c = false := by
    intro c hc
    rw [← Bool.not_eq_true]
    intro hs
    simp only [List.contains_cons, List.contains_nil, Bool.or_eq_true, beq_iff_eq,
      Bool.false_eq_true, or_false] at hs
    rcases hs with rfl | rfl | rfl | rfl <;> exact absurd hc (by decide)
  rw [List.getLast?_append_of_ne_nil _ hn.ne_nil, List.getLast?_eq_some_getLast hn.ne_nil,
    Option.any_some, hs _ (hn.isToken _ (List.getLast_mem hn.ne_nil))]

theorem append (h : AlikeBefore bf bf') (hs : IsName s) (ht : IsName t) :
    AlikeBefore (bf ++ s) (bf' ++ t) := by
  constructor
  · rw [Nesting.after_append, Nesting.after_append, h.after, after_of_isToken hs.isToken,
      after_of_isToken ht.isToken]
  · rw [sigil_name hs, sigil_name ht]

end AlikeBefore

theorem isColumn_settleFrom (h : AlikeBefore bf bf') (afterAs : Bool) (bf₁ name t : Text) :
    isColumn ⟨bf', name, settleFrom afterAs bf₁ t⟩ = isColumn ⟨bf, name, t⟩ := by
  have hd : ((settleFrom afterAs bf₁ t).head? != some '.') = (t.head? != some '.') := by
    rw [Bool.eq_iff_iff, bne_iff_ne, bne_iff_ne]
    exact not_congr (head?_settleFrom_iff (by decide) afterAs bf₁ t)
  have hp : (((settleFrom afterAs bf₁ t).dropWhile isSpace).head? != some '(') =
      ((t.dropWhile isSpace).head? != some '(') := by
    rw [Bool.eq_iff_iff, bne_iff_ne, bne_iff_ne]
    exact not_congr (head?_dropWhile_settleFrom afterAs bf₁ t)
  rw [isColumn, isColumn, h.sigil, hd, hp]

theorem isAs_settle (h : o.matched.IsAscii) (afterAs : Bool) :
    isAs (settle afterAs o) = isAs o.matched := by
  rw [settle]
  split
  next hc =>
    have hr : isReserved o.matched = false := by
      simp only [isColumn, Bool.and_eq_true, Bool.not_eq_true'] at hc
      exact hc.2.2
    have ha : isAs o.matched = false :=
      Bool.eq_false_iff.2 fun ha => Bool.eq_false_iff.1 hr (isReserved_of_isAs ha)
    rw [ha]
    exact Bool.eq_false_iff.2 fun hs => Bool.eq_false_iff.1 ha (isAs_of_isAs_snake h hs)
  next => rfl

theorem settle_settle (hb : AlikeBefore bf bf') (h : name.IsAscii) (afterAs b : Bool)
    (bf₁ t : Text) :
    settle afterAs ⟨bf', settle afterAs ⟨bf, name, t⟩, settleFrom b bf₁ t⟩ =
      settle afterAs ⟨bf, name, t⟩ := by
  cases hc : !afterAs && isColumn ⟨bf, name, t⟩ with
  | true =>
      have hs : settle afterAs ⟨bf, name, t⟩ = Style.snake.convert name := if_pos hc
      -- Whatever the second pass takes the converted token for, it is in snake case.
      rw [hs, settle]
      split
      next => exact Style.snake_snake h
      next => rfl
  | false =>
      have hs : settle afterAs ⟨bf, name, t⟩ = name := if_neg (Bool.eq_false_iff.1 hc)
      rw [hs, settle, isColumn_settleFrom hb, hc, if_neg Bool.false_ne_true]

theorem settleFrom_settleFrom (h : t.IsAscii) (hb : AlikeBefore bf bf') (afterAs : Bool) :
    settleFrom afterAs bf' (settleFrom afterAs bf t) = settleFrom afterAs bf t := by
  -- By the pieces of the first pass; the second one has other tokens before each of them.
  induction bf, t using piecesFrom.induct generalizing bf' afterAs with
  | case1 bf => rw [settleFrom_nil, settleFrom_nil]
  | case2 bf c t hc ih =>
      have hn := isName_token hc.2 t
      have he := Lexeme.ended_splitToken t
      rw [← Lexeme.cons_splitToken] at h ⊢
      have ha := h.subset (List.subset_append_left ..)
      have hr := h.subset (List.subset_append_right ..)
      have hv := isName_settle afterAs (o := ⟨bf, _, (Lexeme.splitToken t).2⟩) hn
      rw [settleFrom_append hc.1 hn he,
        settleFrom_append (hb.after ▸ hc.1) hv (ended_settleFrom he _ _), settle_settle hb ha,
        isAs_settle ha, ih hr (hb.append hn hv)]
  | case3 bf c t hc ih =>
      have ht : Text.IsAscii t := h.subset (List.subset_cons_self c t)
      rw [settleFrom_mark hc, settleFrom_mark (hb.after ▸ hc), ih ht (hb.concat c)]

theorem convert_snake_eq (t : Text) : convert .snake t = settleFrom false [] t := by
  have hf : Lexeme.Fresh (([] : Text).getLast?) (Nesting.top.after []) t :=
    Lexeme.fresh_of_not_isPart rfl _ t
  exact convertLexemes_eq_convertPieces .snake false hf

/-- Converting a fragment to snake case twice is converting it once. -/
theorem snake_snake (h : t.IsAscii) : convert .snake (convert .snake t) = convert .snake t := by
  rw [convert_snake_eq, convert_snake_eq]
  exact settleFrom_settleFrom h ⟨rfl, rfl⟩ false

/-- No fragment becomes a plain identifier. -/
theorem isPlain_of_isPlain_snake (h : isPlain (convert .snake t)) : isPlain t := by
  rw [convert_snake_eq] at h
  obtain ⟨hs, hu⟩ := Lexeme.isPlain_iff.1 h
  rw [any_head?_settleFrom] at hs
  cases t with
  | nil => exact absurd hs Bool.false_ne_true
  | cons c t =>
      have hn := isName_token (Identifier.isPart_of_isStart hs) t
      have he := Lexeme.ended_splitToken t
      have ht := Lexeme.cons_splitToken c t
      generalize (Lexeme.splitToken t).2 = rest at he ht
      rw [← ht, settleFrom_append rfl hn he] at hu
      have hr : rest = [] := by
        have hu := hu.of_append
        cases rest with
        | nil => rfl
        | cons d rest =>
            have hd := ended_settleFrom he (isAs (c :: (Lexeme.splitToken t).1))
              ([] ++ c :: (Lexeme.splitToken t).1)
            rw [settleFrom_of_not_isPart (Bool.or_eq_false_iff.1 he).1] at hu hd
            exact absurd hu.1 (Bool.eq_false_iff.1 hd)
      rw [hr, List.append_nil] at ht
      rw [← ht] at hs ⊢
      exact Lexeme.isPlain_iff.2 ⟨hs, hn.unbroken⟩

end Fragment

end SqlEdit
