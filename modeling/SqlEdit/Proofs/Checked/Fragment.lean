import SqlEdit.Proofs.Checked.Keyword
import SqlEdit.Proofs.Identifier.Columns

namespace SqlEdit

open Identifier (isPart isStart isReserved reservedWords IsToken)

namespace Checked

def tokenEnd (bs : List UInt8) (stop : Nat) : Checked Nat :=
  if stop < bs.length then do
    let b ← get bs stop
    if isPart (byteChar b) then tokenEnd bs (stop + 1)
    else if byteChar b == '.' && bs[stop + 1]?.any (fun b => isStart (byteChar b)) then
      tokenEnd bs (stop + 1)
    else return stop
  else return stop
termination_by bs.length - stop

def isColumnAt (bs : List UInt8) (start stop : Nat) : Checked Bool := do
  if !isStart (byteChar (← get bs start)) then return false
  if ← precededBy [':', '@', '$', '#'].contains bs start then return false
  let behind ← between bs stop bs.length
  if (behind.dropWhile fun b => isSpace (byteChar b)).head?.any (byteChar · == '(') ||
    bs[stop]?.any (byteChar · == '.') then return false
  let name ← between bs start stop
  return !reservedWords.any fun w => sameBytes name w.utf8

/-- Converts the tokens from some positions on, given the offset up to which the text is copied,
whether the last token was AS, and what is written. -/
def rewriteFrom (style : Style) (t : Text) :
    List Position → Nat → Bool → Text → Checked Text
  | [], copied, _, written => do return written ++ (← sliceFrom t copied)
  | p :: ps, copied, afterAs, written => do
    if p.nesting.isQuoted then rewriteFrom style t ps copied afterAs written
    else if !isPart (byteChar (← get t.utf8 p.offset)) then
      rewriteFrom style t ps copied afterAs written
    else
      let stop ← tokenEnd t.utf8 p.offset
      let name ← slice t p.offset stop
      let column ← if afterAs then pure false else isColumnAt t.utf8 p.offset stop
      if column then
        let kept ← slice t copied p.offset
        rewriteFrom style t (ps.dropWhile (·.offset < stop)) stop (Fragment.isAs name)
          (written ++ kept ++ style.convert name)
      else
        rewriteFrom style t (ps.dropWhile (·.offset < stop)) copied (Fragment.isAs name) written
termination_by ps => ps.length
decreasing_by
  all_goals
    first
    | exact Nat.lt_succ_self _
    | exact Nat.lt_succ_of_le (List.dropWhile_sublist _).length_le

def rewrite (style : Style) (t : Text) : Checked Text :=
  rewriteFrom style t (scan t) 0 false []

end Checked

variable {c : Char} {s t u : Text} {o : Occurrence} {n : Nesting}

namespace Text

theorem utf8_injective : Function.Injective utf8 := by
  intro s t h
  have hst := utf8_prefix_iff.1 (h ▸ List.prefix_rfl : s.utf8 <+: t.utf8)
  have hts := utf8_prefix_iff.1 (h ▸ List.prefix_rfl : t.utf8 <+: s.utf8)
  exact hst.eq_of_length_le hts.length_le

end Text

namespace Checked

theorem sameBytes_utf8 (s t : Text) : sameBytes s.utf8 t.utf8 = s.sameWord t := by
  rw [sameBytes, Text.sameWord, Text.foldCase_utf8, Text.foldCase_utf8, Text.sameWord,
    Bool.eq_iff_iff, beq_iff_eq, beq_iff_eq]
  exact (List.map_injective_iff.2 Text.byteChar_injective).eq_iff.trans
    Text.utf8_injective.eq_iff

theorem dropWhile_utf8 {p : Char → Bool} (hp : ByteClass p) (t : Text) :
    (t.utf8.dropWhile fun b => p (byteChar b)) = Text.utf8 (t.dropWhile p) := by
  have h := congrArg Text.utf8 (t.takeWhile_append_dropWhile (p := p))
  rw [Text.utf8_append, ← takeWhile_utf8 hp] at h
  have h' := t.utf8.takeWhile_append_dropWhile (p := fun b => p (byteChar b))
  exact List.append_cancel_left (h'.trans h.symm)

theorem byteClass_sigil : ByteClass [':', '@', '$', '#'].contains := by
  have h {c : Char} (hc : 128 ≤ c.toNat) : [':', '@', '$', '#'].contains c = false := by
    simp only [List.contains_cons, List.contains_nil, Bool.or_false, Bool.or_eq_false_iff]
    exact ⟨beq_of_le hc (by decide), beq_of_le hc (by decide), beq_of_le hc (by decide),
      beq_of_le hc (by decide)⟩
  exact ⟨fun hc hc' => by rw [h hc, h hc']⟩

theorem tokenEnd_part (hc : isPart c) (s t : Text) {i : Nat} (hi : i ≤ c.utf8Size) :
    tokenEnd (Text.utf8 (s ++ c :: t)) (s.byteSize + i) =
      tokenEnd (Text.utf8 (s ++ c :: t)) (s.byteSize + c.utf8Size) := by
  induction hd : c.utf8Size - i generalizing i with
  | zero => rw [Nat.le_antisymm hi (Nat.sub_eq_zero_iff_le.1 hd)]
  | succ d ih =>
      have hlt : i < c.utf8Size := by omega
      obtain ⟨b, hb, hp⟩ := get_utf8 hlt s t
      have hl : s.byteSize + i < (Text.utf8 (s ++ c :: t)).length := by
        rw [Text.length_utf8, Text.byteSize_append, Text.byteSize]
        omega
      rw [tokenEnd, if_pos hl, hb, ok_bind, hp _ byteClass_isPart, if_pos hc, Nat.add_assoc,
        ih hlt (by omega)]

theorem tokenEnd_eq (s t : Text) : tokenEnd (Text.utf8 (s ++ t)) s.byteSize =
    .ok (Text.byteSize (s ++ (Lexeme.splitToken t).1)) := by
  induction t generalizing s with
  | nil =>
      rw [List.append_nil, tokenEnd, if_neg (by simp), Lexeme.splitToken, List.append_nil]
      rfl
  | cons c t ih =>
      have hs := List.append_cons s c t
      have hrest := ih (s ++ [c])
      rw [← hs, Text.byteSize_concat, ← List.append_cons] at hrest
      rw [Lexeme.splitToken, Lexeme.continues]
      cases hc : isPart c with
      | true =>
          have hp := tokenEnd_part hc s t (Nat.zero_le _)
          rw [Nat.add_zero] at hp
          rw [hp, hrest]
          rfl
      | false =>
          obtain ⟨b, hb, hp⟩ := get_utf8 c.utf8Size_pos s t
          have hl : s.byteSize < (Text.utf8 (s ++ c :: t)).length := by
            have := c.utf8Size_pos
            rw [Text.length_utf8, Text.byteSize_append, Text.byteSize]
            omega
          rw [Nat.add_zero] at hb
          rw [tokenEnd, if_pos hl, hb, ok_bind, hp _ byteClass_isPart, hc,
            if_neg Bool.false_ne_true, hp _ (byteClass_beq (d := '.') (by decide))]
          by_cases hd : c = '.'
          · subst hd
            have hh := head?_utf8 byteClass_isStart (s ++ ['.']) t
            rw [← hs, Text.byteSize_append] at hh
            have hdot : Text.byteSize ['.'] = 1 := rfl
            have hsize : '.'.utf8Size = 1 := rfl
            rw [hdot] at hh
            rw [hsize] at hrest
            rw [hh, hrest]
            cases t.head?.any isStart with
            | true => rfl
            | false => simp
          · simp [beq_false_of_ne hd]

theorem head?_utf8_nil {p : Char → Bool} (hp : ByteClass p) (t : Text) :
    (t.utf8.head?.any fun b => p (byteChar b)) = t.head?.any p := by
  rw [List.head?_eq_getElem?]
  exact head?_utf8 hp [] t

theorem isColumnAt_eq (ho : o.matched ≠ []) :
    isColumnAt o.text.utf8 o.start o.stop = .ok (Fragment.isColumn o) := by
  obtain ⟨bf, name, af⟩ := o
  obtain ⟨c, m, rfl⟩ := List.exists_cons_of_ne_nil ho
  change isColumnAt (Text.utf8 (bf ++ c :: m ++ af)) bf.byteSize
    (bf.byteSize + Text.byteSize (c :: m)) = _
  have ht : bf ++ c :: m ++ af = bf ++ (c :: m ++ af) := List.append_assoc ..
  obtain ⟨b, hb, hp⟩ := get_utf8 c.utf8Size_pos bf (m ++ af)
  rw [Nat.add_zero, ← List.cons_append, ← ht] at hb
  have hbefore := precededBy_eq byteClass_sigil bf (c :: m ++ af)
  rw [← ht] at hbefore
  have hstop : bf.byteSize + Text.byteSize (c :: m) = (Text.utf8 (bf ++ c :: m)).length := by
    rw [Text.length_utf8, Text.byteSize_append]
  have hafter : between (Text.utf8 (bf ++ c :: m ++ af)) (bf.byteSize + Text.byteSize (c :: m))
      (Text.utf8 (bf ++ c :: m ++ af)).length = .ok af.utf8 := by
    rw [hstop, Text.utf8_append]
    exact between_append_right _ _
  have hname : between (Text.utf8 (bf ++ c :: m ++ af)) bf.byteSize
      (bf.byteSize + Text.byteSize (c :: m)) = .ok (Text.utf8 (c :: m)) := by
    rw [Text.utf8_append, Text.utf8_append]
    exact between_of_append (Text.length_utf8 bf).symm (by rw [Text.length_utf8, Text.length_utf8])
  have hdot := head?_utf8 (byteClass_beq (d := '.') (by decide)) (bf ++ c :: m) af
  rw [Text.byteSize_append] at hdot
  rw [isColumnAt, hb, ok_bind, hp _ byteClass_isStart, hbefore, ok_bind, hafter, ok_bind,
    dropWhile_utf8 byteClass_isSpace, head?_utf8_nil (byteClass_beq (d := '(') (by decide)), hdot,
    hname, ok_bind, Fragment.isColumn, isReserved]
  simp only [sameBytes_utf8, List.head?_cons, Option.any_some]
  have hany (d : Char) (x : Option Char) : (x != some d) = !x.any (· == d) := by
    cases x <;> rfl
  rw [hany, hany]
  cases isStart c with
  | false => rfl
  | true =>
      cases bf.getLast?.any [':', '@', '$', '#'].contains with
      | true => rfl
      | false =>
          cases (af.dropWhile isSpace).head?.any (· == '(') <;>
            cases af.head?.any (· == '.') <;> rfl

theorem after_utf8 (n : Nesting) (t : Text) : n.after (t.utf8.map byteChar) = n.after t := by
  induction t generalizing n with
  | nil => rfl
  | cons c t ih =>
      rw [Text.utf8_cons, List.map_append, Nesting.after_append, after_bytes, ih,
        Nesting.after_cons]

theorem dropWhile_scanFrom (k : Nat) (n : Nesting) (as bs : List UInt8) :
    (scanFrom k n (as ++ bs)).dropWhile (·.offset < k + as.length) =
      scanFrom (k + as.length) (n.after (as.map byteChar)) bs := by
  induction as generalizing k n with
  | nil => cases bs <;> simp [scanFrom, Nesting.after_nil]
  | cons a as ih =>
      have hk : k < k + (a :: as).length := Nat.lt_add_of_pos_right (Nat.succ_pos _)
      have hl : k + (a :: as).length = k + 1 + as.length := by rw [List.length_cons]; omega
      rw [List.cons_append, scanFrom, List.dropWhile_cons, if_pos (decide_eq_true hk), hl, ih,
        List.map_cons, Nesting.after_cons]

variable {pre copy rest : Text} {style : Style}

theorem rewriteFrom_skip {ps : List Position} (h : ∀ p ∈ ps, p.nesting.isQuoted)
    (qs : List Position) (copied : Nat) (afterAs : Bool) (written : Text) :
    rewriteFrom style t (ps ++ qs) copied afterAs written =
      rewriteFrom style t qs copied afterAs written := by
  induction ps with
  | nil => rfl
  | cons p ps ih =>
      obtain ⟨hp, hps⟩ := List.forall_mem_cons.1 h
      rw [List.cons_append, rewriteFrom, if_pos hp, ih hps]

theorem rewriteFrom_mark (ht : t = s ++ c :: rest) (h : ¬ (n.isQuoted = false ∧ isPart c))
    (copied : Nat) (afterAs : Bool) (written : Text) :
    rewriteFrom style t (scanFrom s.byteSize n (Text.utf8 (c :: rest))) copied afterAs written =
      rewriteFrom style t (scanFrom (Text.byteSize (s ++ [c])) (n.step c) rest.utf8) copied afterAs
        written := by
  obtain ⟨inner, hs, -, hi⟩ := scanFrom_cons s.byteSize n c rest
  obtain ⟨b, hb, hp⟩ := get_utf8 c.utf8Size_pos s rest
  rw [Nat.add_zero, ← ht] at hb
  have hins : ∀ p ∈ inner, p.nesting.isQuoted := by
    intro p hm
    obtain ⟨hn, hc, -⟩ := hi p hm
    rw [hn, ← Bool.not_eq_false]
    exact fun hq => h ⟨hq, Unicode.isPart_of_le hc⟩
  rw [hs, List.cons_append, rewriteFrom, hb, ok_bind, hp _ byteClass_isPart,
    rewriteFrom_skip hins, Text.byteSize_concat]
  by_cases hq : n.isQuoted
  · rw [if_pos hq]
  · have hc : isPart c = false := by
      rw [← Bool.not_eq_true]
      exact fun hc => h ⟨by simpa using hq, hc⟩
    rw [if_neg hq, hc, Bool.not_false, if_pos rfl]

theorem dropWhile_token (s : Text) (n : Nesting) (hc : isPart c) (rest : Text) :
    (scanFrom s.byteSize n (Text.utf8 (c :: rest))).dropWhile
        (·.offset < Text.byteSize (s ++ c :: (Lexeme.splitToken rest).1)) =
      scanFrom (Text.byteSize (s ++ c :: (Lexeme.splitToken rest).1)) n
        (Lexeme.splitToken rest).2.utf8 := by
  have h := dropWhile_scanFrom s.byteSize n (Text.utf8 (c :: (Lexeme.splitToken rest).1))
    (Lexeme.splitToken rest).2.utf8
  rwa [← Text.utf8_append, List.cons_append, Lexeme.splitToken_append, Text.length_utf8,
    ← Text.byteSize_append, after_utf8,
    Fragment.after_of_isToken (Fragment.isToken_of_token hc rest)] at h

/-- A token is converted, and what stands before it is copied, or it is left to be copied. -/
theorem rewriteFrom_token (style : Style) (ht : t = pre ++ copy ++ c :: rest)
    (hn : n.isQuoted = false) (hc : isPart c) (afterAs : Bool) (written : Text) :
    let name : Text := c :: (Lexeme.splitToken rest).1
    let ps := scanFrom (Text.byteSize (pre ++ copy ++ name)) n (Lexeme.splitToken rest).2.utf8
    rewriteFrom style t (scanFrom (Text.byteSize (pre ++ copy)) n (Text.utf8 (c :: rest)))
        pre.byteSize afterAs written =
      if !afterAs && Fragment.isColumn ⟨pre ++ copy, name, (Lexeme.splitToken rest).2⟩ then
        rewriteFrom style t ps (Text.byteSize (pre ++ copy ++ name)) (Fragment.isAs name)
          (written ++ copy ++ style.convert name)
      else rewriteFrom style t ps pre.byteSize (Fragment.isAs name) written := by
  intro name ps
  have hname : Lexeme.splitToken (c :: rest) = (name, (Lexeme.splitToken rest).2) := by
    rw [Lexeme.splitToken, Lexeme.continues, hc, Bool.true_or, if_pos rfl]
  have hsplit : c :: rest = name ++ (Lexeme.splitToken rest).2 := by
    rw [List.cons_append, Lexeme.splitToken_append]
  have htext : pre ++ copy ++ name ++ (Lexeme.splitToken rest).2 = t := by
    rw [ht, hsplit, List.append_assoc (pre ++ copy)]
  have hstop := tokenEnd_eq (pre ++ copy) (c :: rest)
  rw [← ht, hname] at hstop
  obtain ⟨b, hb, hp⟩ := get_utf8 c.utf8Size_pos (pre ++ copy) rest
  rw [Nat.add_zero, ← ht] at hb
  have hsl : slice t (Text.byteSize (pre ++ copy)) (Text.byteSize (pre ++ copy ++ name)) =
      .ok name :=
    slice_of_append htext.symm rfl (Text.byteSize_append ..)
  have hkept : slice t pre.byteSize (Text.byteSize (pre ++ copy)) = .ok copy :=
    slice_of_append ht rfl (Text.byteSize_append ..)
  have hcol := isColumnAt_eq (o := ⟨pre ++ copy, name, (Lexeme.splitToken rest).2⟩)
    (List.cons_ne_nil _ _)
  rw [Occurrence.text, Occurrence.stop, Occurrence.start, htext, ← Text.byteSize_append] at hcol
  obtain ⟨inner, hs, -, -⟩ := scanFrom_cons (Text.byteSize (pre ++ copy)) n c rest
  have hps : (inner ++ scanFrom (Text.byteSize (pre ++ copy) + c.utf8Size) (n.step c)
      rest.utf8).dropWhile (·.offset < Text.byteSize (pre ++ copy ++ name)) = ps := by
    have hd := dropWhile_token (pre ++ copy) n hc rest
    have hlt : Text.byteSize (pre ++ copy) < Text.byteSize (pre ++ copy ++ name) := by
      have := c.utf8Size_pos
      rw [Text.byteSize_append _ name, Text.byteSize]
      omega
    rwa [hs, List.cons_append, List.dropWhile_cons, if_pos (decide_eq_true hlt)] at hd
  rw [hs, List.cons_append, rewriteFrom]
  simp only [hn, hb, ok_bind, hp _ byteClass_isPart, hc, hstop, hsl, hkept, hcol, hps]
  cases afterAs <;> rfl

theorem rewriteFrom_eq (style : Style) {bf : Text} (hbf : bf = pre ++ copy) (ht : t = bf ++ rest)
    (afterAs : Bool) (written : Text) :
    rewriteFrom style t (scanFrom bf.byteSize (Nesting.top.after bf) rest.utf8) pre.byteSize afterAs
        written =
      .ok (written ++ copy ++
        Fragment.convertPieces style afterAs (Fragment.piecesFrom bf rest)) := by
  induction bf, rest using Fragment.piecesFrom.induct generalizing pre copy afterAs written with
  | case1 bf =>
      have hcopy : sliceFrom t pre.byteSize = .ok copy :=
        sliceFrom_of_append (by rw [ht, hbf, List.append_nil]) rfl
      rw [Text.utf8_nil, scanFrom, rewriteFrom, hcopy, Fragment.piecesFrom, Fragment.convertPieces,
        List.append_nil]
      rfl
  | case2 bf c rest hc ih =>
      have hn : Nesting.top.after (bf ++ c :: (Lexeme.splitToken rest).1) =
          Nesting.top.after bf := by
        rw [Nesting.after_append, Fragment.after_of_isToken (Fragment.isToken_of_token hc.2 rest)]
      have ht' : t = bf ++ c :: (Lexeme.splitToken rest).1 ++ (Lexeme.splitToken rest).2 := by
        rw [ht, List.append_assoc, List.cons_append, Lexeme.splitToken_append]
      have hbf' : bf ++ c :: (Lexeme.splitToken rest).1 =
          pre ++ (copy ++ c :: (Lexeme.splitToken rest).1) := by
        rw [hbf, List.append_assoc]
      have hconv := ih (List.append_nil _).symm ht'
      have hcopy := ih hbf' ht'
      have htok := rewriteFrom_token style (hbf ▸ ht) hc.1 hc.2 afterAs written
      rw [← hbf] at htok
      rw [hn] at hconv hcopy
      rw [htok, Fragment.piecesFrom, if_pos hc, Fragment.convertPieces, hconv, hcopy]
      cases !afterAs && Fragment.isColumn _ <;> simp
  | case3 bf c rest hc ih =>
      have hn : (Nesting.top.after bf).step c = Nesting.top.after (bf ++ [c]) := by
        rw [Nesting.after_append]
        rfl
      have hbf' : bf ++ [c] = pre ++ (copy ++ [c]) := by rw [hbf, List.append_assoc]
      have h := ih hbf' (ht.trans (List.append_cons bf c rest)) afterAs written
      rw [rewriteFrom_mark ht hc, hn, h, Fragment.piecesFrom, if_neg hc, Fragment.convertPieces]
      simp

theorem rewrite_eq (style : Style) (t : Text) :
    rewrite style t = .ok (Fragment.convert style t) := by
  have hf : Lexeme.Fresh (([] : Text).getLast?) (Nesting.top.after []) t :=
    Lexeme.fresh_of_not_isPart rfl _ t
  have hc := Fragment.convertLexemes_eq_convertPieces style false hf
  have h := rewriteFrom_eq style (List.nil_append []).symm (List.nil_append t).symm false []
  rw [← hc] at h
  exact h

end Checked

end SqlEdit
