import Mathlib.Data.List.Infix
import SqlEdit.Proofs.Identifier.Token

namespace SqlEdit

open Identifier (isPart isStart isReserved isTokenChar IsToken IsParts)

namespace Fragment

inductive Piece where
  | token (o : Occurrence)
  | mark (c : Char)

def Piece.token? : Piece → Option Occurrence
  | token o => some o
  | mark _ => none

def Piece.text (f : Occurrence → Text) : Piece → Text
  | token o => f o
  | mark c => [c]

/-- The pieces of the rest of a text, given what stands before it. A token begins at the first
identifier character outside literals that is in none before it. -/
def piecesFrom (bf t : Text) : List Piece :=
  match t with
  | [] => []
  | c :: t =>
    if (Nesting.top.after bf).isQuoted = false ∧ isPart c then
      .token ⟨bf, c :: (Lexeme.splitToken t).1, (Lexeme.splitToken t).2⟩ ::
        piecesFrom (bf ++ c :: (Lexeme.splitToken t).1) (Lexeme.splitToken t).2
    else .mark c :: piecesFrom (bf ++ [c]) t
termination_by t.length
decreasing_by
  · exact Nat.lt_succ_of_le (Lexeme.length_splitToken t)
  · exact Nat.lt_succ_self _

def tokensFrom (bf t : Text) : List Occurrence :=
  (piecesFrom bf t).filterMap Piece.token?

def tokens (t : Text) : List Occurrence :=
  tokensFrom [] t

def replace (f : Occurrence → Text) (t : Text) : Text :=
  (piecesFrom [] t).flatMap (Piece.text f)

/-- Whether a token is written like a column: it begins with a letter or an underscore, it is no
parameter, variable or cast, no qualifier, no name of a function and no reserved word. -/
def isColumn (o : Occurrence) : Bool :=
  o.matched.head?.any isStart && !o.before.getLast?.any [':', '@', '$', '#'].contains &&
    o.after.head? != some '.' && (o.after.dropWhile isSpace).head? != some '(' &&
    !isReserved o.matched

def Spaced (a o : Occurrence) : Prop :=
  ∃ gap : Text, gap.all isSpace ∧ o.before = a.before ++ a.matched ++ gap

instance (a o : Occurrence) : Decidable (Spaced a o) :=
  decidable_of_iff ((a.before ++ a.matched) <+: o.before ∧
      (o.before.drop (a.before ++ a.matched).length).all isSpace) <| by
    constructor
    · rintro ⟨⟨gap, he⟩, hs⟩
      rw [← he, List.drop_left] at hs
      exact ⟨gap, hs, he.symm⟩
    · rintro ⟨gap, hs, he⟩
      rw [he, List.drop_left]
      exact ⟨List.prefix_append .., hs⟩

variable (os : List Occurrence) (o : Occurrence)

def FollowsAs : Prop :=
  ∃ a ∈ os, isAs a.matched ∧ Spaced a o

instance : Decidable (FollowsAs os o) :=
  inferInstanceAs (Decidable (∃ a ∈ os, _))

/-- Whether the token before `o` is the word AS, whatever stands between them. -/
def AfterAs : Prop :=
  ∃ a ∈ os, isAs a.matched ∧ [a, o] <:+: os

instance : Decidable (AfterAs os o) :=
  inferInstanceAs (Decidable (∃ a ∈ os, _))

def convertPieces (style : Style) : Bool → List Piece → Text
  | _, [] => []
  | afterAs, .mark c :: ps => c :: convertPieces style afterAs ps
  | afterAs, .token o :: ps =>
    (if !afterAs && isColumn o then style.convert o.matched else o.matched) ++
      convertPieces style (isAs o.matched) ps

end Fragment

variable {bf t name : Text} {c : Char} {n : Nesting} {o a : Occurrence} {os ts : List Occurrence}

theorem isTokenChar_of_isSpace (h : isSpace c) : isTokenChar c = false := by
  simp only [isSpace, Bool.or_eq_true, beq_iff_eq] at h
  rcases h with (((rfl | rfl) | rfl) | rfl) | rfl <;> decide

theorem isPart_of_isSpace (h : isSpace c) : isPart c = false :=
  (Bool.or_eq_false_iff.1 (isTokenChar_of_isSpace h)).1

namespace Fragment

theorem text_piecesFrom (bf t : Text) : (piecesFrom bf t).flatMap (Piece.text (·.matched)) = t := by
  induction bf, t using piecesFrom.induct with
  | case1 bf => rw [piecesFrom]; rfl
  | case2 bf c t h ih =>
      rw [piecesFrom, if_pos h, List.flatMap_cons, ih, Piece.text, List.cons_append,
        Lexeme.splitToken_append]
  | case3 bf c t h ih => rw [piecesFrom, if_neg h, List.flatMap_cons, ih]; rfl

theorem tokensFrom_nil (bf : Text) : tokensFrom bf [] = [] := by
  rw [tokensFrom, piecesFrom]
  rfl

theorem tokensFrom_token (h : (Nesting.top.after bf).isQuoted = false ∧ isPart c) :
    tokensFrom bf (c :: t) = ⟨bf, c :: (Lexeme.splitToken t).1, (Lexeme.splitToken t).2⟩ ::
      tokensFrom (bf ++ c :: (Lexeme.splitToken t).1) (Lexeme.splitToken t).2 := by
  rw [tokensFrom, piecesFrom, if_pos h]
  rfl

theorem tokensFrom_mark (h : ¬ ((Nesting.top.after bf).isQuoted = false ∧ isPart c)) :
    tokensFrom bf (c :: t) = tokensFrom (bf ++ [c]) t := by
  rw [tokensFrom, piecesFrom, if_neg h]
  rfl

theorem of_mem_tokensFrom (h : o ∈ tokensFrom bf t) :
    o.text = bf ++ t ∧ ∃ gap, o.before = bf ++ gap := by
  induction bf, t using piecesFrom.induct with
  | case1 bf => rw [tokensFrom_nil] at h; exact absurd h List.not_mem_nil
  | case2 bf c t hc ih =>
      have hs := Lexeme.splitToken_append t
      rw [tokensFrom_token hc] at h
      rcases List.mem_cons.1 h with rfl | h
      · exact ⟨by simp [Occurrence.text, hs], [], (List.append_nil _).symm⟩
      · obtain ⟨ht, gap, hg⟩ := ih h
        exact ⟨by simp [ht, hs], c :: (Lexeme.splitToken t).1 ++ gap, by simp [hg]⟩
  | case3 bf c t hc ih =>
      rw [tokensFrom_mark hc] at h
      obtain ⟨ht, gap, hg⟩ := ih h
      exact ⟨by simp [ht], c :: gap, by simp [hg]⟩

theorem length_le_of_mem_tokensFrom (h : o ∈ tokensFrom bf t) : bf.length ≤ o.before.length := by
  obtain ⟨-, gap, hg⟩ := of_mem_tokensFrom h
  rw [hg, List.length_append]
  exact Nat.le_add_right _ _

theorem pairwise_tokensFrom (bf t : Text) : (tokensFrom bf t).Pairwise fun a o =>
    a.before.length + a.matched.length ≤ o.before.length := by
  induction bf, t using piecesFrom.induct with
  | case1 bf => rw [tokensFrom_nil]; exact .nil
  | case2 bf c t hc ih =>
      rw [tokensFrom_token hc]
      refine List.pairwise_cons.2 ⟨fun o ho => ?_, ih⟩
      have hl := length_le_of_mem_tokensFrom ho
      rwa [List.length_append] at hl
  | case3 bf c t hc ih => rwa [tokensFrom_mark hc]

theorem length_matched_pos (h : o ∈ tokensFrom bf t) : 0 < o.matched.length := by
  induction bf, t using piecesFrom.induct with
  | case1 bf => rw [tokensFrom_nil] at h; exact absurd h List.not_mem_nil
  | case2 bf c t hc ih =>
      rw [tokensFrom_token hc] at h
      rcases List.mem_cons.1 h with rfl | h
      · exact Nat.succ_pos _
      · exact ih h
  | case3 bf c t hc ih => rw [tokensFrom_mark hc] at h; exact ih h

theorem nodup_tokensFrom (bf t : Text) : (tokensFrom bf t).Nodup := by
  refine List.Pairwise.imp_of_mem (fun {a o} ha _ h => ?_) (pairwise_tokensFrom bf t)
  rintro rfl
  have := length_matched_pos ha
  omega

theorem exists_cons_of_spaces {gap : Text} (h : o ∈ tokensFrom bf t) (hs : gap.all isSpace)
    (he : o.before = bf ++ gap) : ∃ ts, tokensFrom bf t = o :: ts := by
  induction gap generalizing bf t with
  | nil =>
      rw [List.append_nil] at he
      cases t with
      | nil => rw [tokensFrom_nil] at h; exact absurd h List.not_mem_nil
      | cons c t =>
          by_cases hc : (Nesting.top.after bf).isQuoted = false ∧ isPart c
          · rw [tokensFrom_token hc] at h ⊢
            rcases List.mem_cons.1 h with rfl | h
            · exact ⟨_, rfl⟩
            · have hl := length_le_of_mem_tokensFrom h
              rw [he, List.length_append, List.length_cons] at hl
              omega
          · rw [tokensFrom_mark hc] at h
            have hl := length_le_of_mem_tokensFrom h
            rw [he, List.length_append, List.length_singleton] at hl
            omega
  | cons g gap ih =>
      rw [List.all_cons, Bool.and_eq_true] at hs
      obtain ⟨r, rfl⟩ : ∃ r, t = g :: r := by
        have ht := (of_mem_tokensFrom h).1
        rw [Occurrence.text, he, List.append_assoc, List.append_assoc,
          List.append_cancel_left_eq] at ht
        exact ⟨_, ht.symm⟩
      have hg : ¬ ((Nesting.top.after bf).isQuoted = false ∧ isPart g) := fun hg =>
        absurd (isPart_of_isSpace hs.1) (by simp [hg.2])
      rw [tokensFrom_mark hg] at h ⊢
      exact ih h hs.2 (by rw [he, List.append_assoc, List.singleton_append])

theorem adjacent_of_spaced (ha : a ∈ tokensFrom bf t) (ho : o ∈ tokensFrom bf t) (h : Spaced a o) :
    [a, o] <:+: tokensFrom bf t := by
  obtain ⟨gap, hs, he⟩ := h
  induction bf, t using piecesFrom.induct with
  | case1 bf => rw [tokensFrom_nil] at ha; exact absurd ha List.not_mem_nil
  | case2 bf c t hc ih =>
      have hp := pairwise_tokensFrom bf (c :: t)
      have hm := length_matched_pos ha
      have hl : o.before.length = a.before.length + a.matched.length + gap.length := by
        rw [he, List.length_append, List.length_append]
      rw [tokensFrom_token hc] at ha ho hp ⊢
      obtain ⟨hx, -⟩ := List.pairwise_cons.1 hp
      rcases List.mem_cons.1 ha with rfl | ha <;> rcases List.mem_cons.1 ho with rfl | ho
      · omega
      · obtain ⟨ts, hts⟩ := exists_cons_of_spaces ho hs he
        rw [hts]
        exact ⟨[], ts, rfl⟩
      · have := hx a ha
        omega
      · exact List.infix_cons (ih ha ho)
  | case3 bf c t hc ih =>
      rw [tokensFrom_mark hc] at ha ho ⊢
      exact ih ha ho

theorem FollowsAs.afterAs (h : FollowsAs (tokens t) o) (ho : o ∈ tokens t) :
    AfterAs (tokens t) o := by
  obtain ⟨a, ha, has, hs⟩ := h
  exact ⟨a, ha, has, adjacent_of_spaced ha ho hs⟩

theorem eq_of_adjacent {a' : Occurrence} (h : os.Nodup) (ha : [a, o] <:+: os) (ha' : [a', o] <:+: os) :
    a = a' := by
  obtain ⟨l, r, rfl⟩ := ha
  obtain ⟨l', r', he⟩ := ha'
  rw [List.append_assoc, List.nodup_append] at h
  obtain ⟨-, hn, hd⟩ := h
  simp only [List.cons_append, List.nil_append, List.nodup_cons, List.mem_cons, not_or] at hn
  have ho : o ∉ l ++ [a] := by
    simp only [List.mem_append, List.mem_singleton, not_or]
    exact ⟨fun ho => hd o ho o (by simp) rfl, fun ho => hn.1.1 ho.symm⟩
  have he : (l ++ [a]) ++ o :: r = (l' ++ [a']) ++ o :: r' := by simpa using he.symm
  have hl := ((List.append_cons_inj_of_notMem ho hn.2.1).1 he).1
  exact List.head_eq_of_cons_eq (List.append_inj_right' hl rfl)

theorem afterAs_iff (h : (os ++ o :: ts).Nodup) :
    AfterAs (os ++ o :: ts) o ↔ os.getLast?.any (isAs ·.matched) := by
  obtain ⟨-, hn, hd⟩ := List.nodup_append.1 h
  have hos : o ∉ os := fun ho => hd o ho o List.mem_cons_self rfl
  constructor
  · rintro ⟨a, -, has, l, r, he⟩
    have he : os ++ o :: ts = (l ++ [a]) ++ o :: r := by simp [← he]
    obtain ⟨rfl, -⟩ := (List.append_cons_inj_of_notMem hos (List.nodup_cons.1 hn).1).1 he
    rwa [List.getLast?_concat]
  · intro has
    obtain ⟨a, hl, has⟩ := (Option.any_eq_true ..).1 has
    have hos := List.dropLast_append_getLast? a hl
    refine ⟨a, ?_, has, os.dropLast, ts, ?_⟩
    · exact List.mem_append_left _ (List.mem_of_getLast? hl)
    · conv => rhs; rw [← hos]
      simp

theorem head?_after (h : Lexeme.Ended t) (before : Option Char) (n : Nesting) :
    (Lexeme.after before n t).head? = t.head?.map .mark := by
  cases t with
  | nil => rfl
  | cons c t =>
      have hc : Lexeme.inToken before c t = false := by
        rw [← Bool.not_eq_true]
        intro hc
        exact Bool.false_ne_true (h.symm.trans (Lexeme.continues_of_inToken hc))
      rw [Lexeme.after_mark (.inr hc)]
      rfl

/-- Behind spaces an opening parenthesis is the same as a character and as a lexeme. -/
theorem head?_dropWhile_after (hn : n.isQuoted = false) (before : Option Char) :
    ((Lexeme.after before n t).dropWhile Lexeme.isSpace).head? = some (.mark '(') ↔
      (t.dropWhile isSpace).head? = some '(' := by
  induction t generalizing before with
  | nil => exact iff_of_false nofun nofun
  | cons c t ih =>
      by_cases hc : Lexeme.inToken before c t
      · have hs : isSpace c = false := by
          rw [← Bool.not_eq_true]
          intro hs
          exact Bool.false_ne_true
            ((isTokenChar_of_isSpace hs).symm.trans (Lexeme.isTokenChar_of_inToken hc))
        have hp : c ≠ '(' := by
          rintro rfl
          exact absurd (Lexeme.isTokenChar_of_inToken hc) (by decide)
        rw [Lexeme.after_token hn hc, List.dropWhile_cons_of_neg (by simp [Lexeme.isSpace]),
          List.dropWhile_cons_of_neg (by simp [hs])]
        exact iff_of_false nofun fun he => hp (Option.some.inj he)
      · rw [Lexeme.after_mark (.inr (Bool.eq_false_iff.2 hc))]
        cases hs : isSpace c with
        | true =>
            have hstep : n.step c = n := Nesting.step_of_isPlain (isPlain_of_isSpace hs)
            rw [List.dropWhile_cons_of_pos (by exact hs), List.dropWhile_cons_of_pos hs, hstep, ih]
        | false =>
            rw [List.dropWhile_cons_of_neg (by simp [Lexeme.isSpace, hs]),
              List.dropWhile_cons_of_neg (by simp [hs]), List.head?_cons, List.head?_cons,
              Option.some.injEq, Option.some.injEq, Lexeme.mark.injEq]

theorem namesColumn_eq (hn : n.isQuoted = false) (ht : Lexeme.Ended t) (before : Option Char)
    (name : Text) :
    namesColumn bf.getLast? name (Lexeme.after before n t) = isColumn ⟨bf, name, t⟩ := by
  have hd : ((Lexeme.after before n t).head? != some (.mark '.')) = (t.head? != some '.') := by
    rw [head?_after ht]
    cases t.head? with
    | none => rfl
    | some c => simp [bne]
  have hp : (((Lexeme.after before n t).dropWhile Lexeme.isSpace).head? != some (.mark '(')) =
      ((t.dropWhile isSpace).head? != some '(') := by
    rw [Bool.eq_iff_iff, bne_iff_ne, bne_iff_ne]
    exact not_congr (head?_dropWhile_after hn before)
  rw [namesColumn, isColumn, hd, hp]
  simp only [Bool.and_right_comm]

theorem after_of_isToken (h : IsToken t) (n : Nesting) : n.after t = n := by
  rw [← Nesting.after_skeleton, Text.skeleton_of_isToken h, Nesting.after_nil]

theorem isToken_of_token (hc : isPart c) (t : Text) : IsToken (c :: (Lexeme.splitToken t).1) :=
  List.forall_mem_cons.2 ⟨by rw [isTokenChar, hc, Bool.true_or], Lexeme.isToken_splitToken t⟩

theorem convertLexemes_eq_convertPieces (style : Style) (afterAs : Bool)
    (h : Lexeme.Fresh bf.getLast? (Nesting.top.after bf) t) :
    convertLexemes style bf.getLast? afterAs (Lexeme.after bf.getLast? (Nesting.top.after bf) t) =
      convertPieces style afterAs (piecesFrom bf t) := by
  induction bf, t using piecesFrom.induct generalizing afterAs with
  | case1 bf => rw [piecesFrom]; rfl
  | case2 bf c t hc ih =>
      have hn : Nesting.top.after (bf ++ c :: (Lexeme.splitToken t).1) = Nesting.top.after bf := by
        rw [Nesting.after_append, after_of_isToken (isToken_of_token hc.2 t)]
      have hl : (bf ++ c :: (Lexeme.splitToken t).1).getLast? =
          (c :: (Lexeme.splitToken t).1).getLast? :=
        List.getLast?_append_of_ne_nil _ (List.cons_ne_nil _ _)
      rw [hn, hl] at ih
      rw [Lexeme.after_token hc.1 (by rw [Lexeme.inToken, hc.2, Bool.true_or]), convertLexemes,
        namesColumn_eq hc.1 (Lexeme.ended_splitToken t), piecesFrom, if_pos hc, convertPieces,
        ih _ (Lexeme.fresh_of_ended (Lexeme.ended_splitToken t) _ _)]
  | case3 bf c t hc ih =>
      have hn : (Nesting.top.after bf).step c = Nesting.top.after (bf ++ [c]) := by
        rw [Nesting.after_append]
        rfl
      have hq : (Nesting.top.after bf).isQuoted ∨ isPart c = false := by
        rw [Decidable.not_and_iff_not_or_not, Bool.not_eq_false, Bool.not_eq_true] at hc
        exact hc
      have hout : (Nesting.top.after bf).isQuoted ∨ Lexeme.inToken bf.getLast? c t = false := by
        by_contra hno
        rw [not_or, Bool.not_eq_true, Bool.not_eq_false] at hno
        exact hc ⟨hno.1, h hno.1 hno.2⟩
      have hf := Lexeme.fresh_of_mark hq t
      rw [hn] at hf
      rw [List.getLast?_concat] at ih
      rw [Lexeme.after_mark hout, convertLexemes, hn, ih _ hf, piecesFrom, if_neg hc, convertPieces]

/-- The flag of the walk tells whether the token before is AS. -/
theorem convertPieces_eq_flatMap (style : Style) (os : List Occurrence) (ps : List Piece)
    (h : (os ++ ps.filterMap Piece.token?).Nodup) :
    convertPieces style (os.getLast?.any (isAs ·.matched)) ps = ps.flatMap (Piece.text fun o =>
      if isColumn o ∧ ¬ AfterAs (os ++ ps.filterMap Piece.token?) o then style.convert o.matched
      else o.matched) := by
  induction ps generalizing os with
  | nil => rfl
  | cons p ps ih =>
      cases p with
      | mark c =>
          rw [List.filterMap_cons_none rfl] at h ⊢
          rw [convertPieces, ih os h]
          rfl
      | token o =>
          have hts : (Piece.token o :: ps).filterMap Piece.token? =
              o :: ps.filterMap Piece.token? := rfl
          rw [hts] at h ⊢
          have hf : os ++ o :: ps.filterMap Piece.token? =
              (os ++ [o]) ++ ps.filterMap Piece.token? := by simp
          have ho := afterAs_iff h
          rw [hf] at h ho ⊢
          have hps := ih (os ++ [o]) h
          rw [List.getLast?_concat, Option.any_some] at hps
          rw [convertPieces, hps, List.flatMap_cons, Piece.text]
          refine congrArg (· ++ _) (if_congr ?_ rfl rfl)
          rw [ho, Bool.and_eq_true, Bool.not_eq_true', Bool.not_eq_true, and_comm]

/-- A column is converted unless the token before it is AS. -/
theorem convert_eq_replace (style : Style) (t : Text) :
    convert style t = replace (fun o =>
      if isColumn o ∧ ¬ AfterAs (tokens t) o then style.convert o.matched else o.matched) t := by
  have hf : Lexeme.Fresh (([] : Text).getLast?) (Nesting.top.after []) t :=
    Lexeme.fresh_of_not_isPart rfl _ t
  have hc := convertLexemes_eq_convertPieces style false hf
  have hd : ([] ++ (piecesFrom [] t).filterMap Piece.token?).Nodup := nodup_tokensFrom [] t
  exact hc.trans (convertPieces_eq_flatMap style [] _ hd)

variable {f g : Occurrence → Text}

theorem head?_flatMap_text (h : t.head?.any isPart = false) (bf : Text) (f : Occurrence → Text) :
    ((piecesFrom bf t).flatMap (Piece.text f)).head? = t.head? := by
  cases t with
  | nil => rw [piecesFrom]; rfl
  | cons c t =>
      rw [List.head?_cons, Option.any_some] at h
      rw [piecesFrom, if_neg (by simp [h])]
      rfl

theorem takeWhile_append_of_parts {u v : Text} (hu : IsParts u) (hv : v.head?.any isPart = false) :
    (u ++ v).takeWhile isPart = u := by
  rw [List.takeWhile_append_of_pos hu]
  cases v with
  | nil => exact List.append_nil u
  | cons c v =>
      rw [List.takeWhile_cons_of_neg (by simpa using hv), List.append_nil]

theorem eq_of_append_eq {u u' v v' : Text} {style : Style} (h : IsToken name)
    (hu : u = name ∨ u = style.convert name) (hu' : u' = name ∨ u' = style.convert name)
    (hv : v.head?.any isPart = false) (hv' : v'.head?.any isPart = false)
    (he : u ++ v = u' ++ v') : u = u' := by
  obtain ⟨q, s, s', hs, hs', hn, hc⟩ : ∃ q s s', IsParts s ∧ IsParts s' ∧ name = q ++ s ∧
      style.convert name = q ++ s' := by
    obtain ⟨hp, he⟩ | ⟨q, s, -, hs, hn, he⟩ := h.convert_eq style
    · exact ⟨[], name, _, hp, hp.apply style, rfl, he⟩
    · exact ⟨q ++ ['.'], s, _, hs, hs.apply style, by simp [hn], by simp [he]⟩
  have hq {w : Text} (hw : w = name ∨ w = style.convert name) : ∃ r, IsParts r ∧ w = q ++ r := by
    rcases hw with rfl | rfl
    · exact ⟨s, hs, hn⟩
    · exact ⟨s', hs', hc⟩
  obtain ⟨r, hr, rfl⟩ := hq hu
  obtain ⟨r', hr', rfl⟩ := hq hu'
  rw [List.append_assoc, List.append_assoc, List.append_cancel_left_eq] at he
  rw [← takeWhile_append_of_parts hr hv, he, takeWhile_append_of_parts hr' hv']

theorem head?_of_ended (h : Lexeme.Ended t) : t.head?.any isPart = false := by
  cases t with
  | nil => rfl
  | cons c t => exact (Bool.or_eq_false_iff.1 h).1

theorem flatMap_text_eq_iff (style : Style)
    (hf : ∀ o, f o = o.matched ∨ f o = style.convert o.matched)
    (hg : ∀ o, g o = o.matched ∨ g o = style.convert o.matched) (bf t : Text) :
    (piecesFrom bf t).flatMap (Piece.text f) = (piecesFrom bf t).flatMap (Piece.text g) ↔
      ∀ o ∈ tokensFrom bf t, f o = g o := by
  induction bf, t using piecesFrom.induct with
  | case1 bf => rw [tokensFrom_nil, piecesFrom]; exact iff_of_true rfl nofun
  | case2 bf c t hc ih =>
      have hr := head?_of_ended (Lexeme.ended_splitToken t)
      have hv (k : Occurrence → Text) := head?_flatMap_text hr (bf ++ c :: (Lexeme.splitToken t).1) k
      rw [tokensFrom_token hc, List.forall_mem_cons, ← ih, piecesFrom, if_pos hc]
      simp only [List.flatMap_cons, Piece.text]
      constructor
      · intro he
        have ho := eq_of_append_eq (isToken_of_token hc.2 t) (hf _) (hg _)
          (by rw [hv f, hr]) (by rw [hv g, hr]) he
        rw [ho, List.append_cancel_left_eq] at he
        exact ⟨ho, he⟩
      · rintro ⟨ho, he⟩
        rw [ho, he]
  | case3 bf c t hc ih =>
      rw [tokensFrom_mark hc, ← ih, piecesFrom, if_neg hc]
      simp only [List.flatMap_cons, Piece.text, List.append_cancel_left_eq]

/-- Everything but tokens is copied, and a column is converted unless the token before it is AS. So
the word directly behind AS is the only column that is left, unless something else than spaces stands
between AS and a column that the style would change. -/
theorem convert_eq_replace_iff (style : Style) (t : Text) :
    replace (·.matched) t = t ∧
      convert style t = replace (fun o =>
        if isColumn o ∧ ¬ AfterAs (tokens t) o then style.convert o.matched else o.matched) t ∧
      (convert style t = replace (fun o =>
          if isColumn o ∧ ¬ FollowsAs (tokens t) o then style.convert o.matched else o.matched) t ↔
        ∀ a o, [a, o] <:+: tokens t → isAs a.matched → isColumn o →
          style.convert o.matched ≠ o.matched → Spaced a o) := by
  refine ⟨text_piecesFrom [] t, convert_eq_replace style t, ?_⟩
  have hrule (p : Occurrence → Prop) [DecidablePred p] (o : Occurrence) :
      (if p o then style.convert o.matched else o.matched) = o.matched ∨
        (if p o then style.convert o.matched else o.matched) = style.convert o.matched := by
    by_cases hp : p o
    · exact .inr (if_pos hp)
    · exact .inl (if_neg hp)
  rw [convert_eq_replace, replace, replace, flatMap_text_eq_iff style (hrule _) (hrule _)]
  constructor
  · intro h a o ho has hcol hne
    have hm : o ∈ tokens t := ho.subset (by simp)
    have hafter : AfterAs (tokens t) o := ⟨a, ho.subset (by simp), has, ho⟩
    have he := h o hm
    rw [if_neg fun hp => hp.2 hafter] at he
    by_cases hfol : FollowsAs (tokens t) o
    · obtain ⟨a', ha', -, hs⟩ := hfol
      rwa [eq_of_adjacent (nodup_tokensFrom [] t) ho (adjacent_of_spaced ha' hm hs)]
    · rw [if_pos ⟨hcol, hfol⟩] at he
      exact absurd he.symm hne
  · intro h o ho
    by_cases hafter : AfterAs (tokens t) o
    · rw [if_neg fun hp => hp.2 hafter]
      by_cases hfol : isColumn o ∧ ¬ FollowsAs (tokens t) o
      · rw [if_pos hfol]
        obtain ⟨a, ha, has, hi⟩ := hafter
        by_contra hne
        exact hfol.2 ⟨a, ha, has, h a o hi has hfol.1 (Ne.symm hne)⟩
      · rw [if_neg hfol]
    · have hfol : ¬ FollowsAs (tokens t) o := fun hfol => hafter (hfol.afterAs ho)
      exact if_congr (by rw [and_iff_left hafter, and_iff_left hfol]) rfl rfl

/-- A quoted name behind AS is no token, so the column behind it is taken for the name of a type. -/
theorem convert_ne_replace_of_quoted :
    let t := "CAST(a AS \"t\") = user_id".toList
    (tokens t).map (·.matched) =
        ["CAST".toList, "a".toList, "AS".toList, "user_id".toList] ∧
      convert .camel t = t ∧
      replace (fun o => if isColumn o ∧ ¬ FollowsAs (tokens t) o then
        Style.camel.convert o.matched else o.matched) t = "CAST(a AS \"t\") = userId".toList := by
  decide +kernel

end Fragment

end SqlEdit
