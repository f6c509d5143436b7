import SqlEdit.Nesting.Cut
import SqlEdit.Proofs.Checked.Keyword

namespace SqlEdit.Checked

def splitStep (t : Text) (separator : UInt8) (state : Nat × List Text) (p : Position) :
    Checked (Nat × List Text) := do
  if p.nesting.isTop then
    if (← get t.utf8 p.offset) = separator then
      return (p.offset + 1, state.2 ++ [Text.trim (← slice t state.1 p.offset)])
    else return state
  else return state

def endSplit (t : Text) (state : Nat × List Text) : Checked (List Text) := do
  return state.2 ++ [Text.trim (← sliceFrom t state.1)]

def splitItems (t : Text) (separator : UInt8) : Checked (List Text) :=
  if t.trim = [] then .ok []
  else do endSplit t (← (scan t).foldlM (splitStep t separator) (0, []))

def separatesAt (t : Text) (p : Position) : Checked Bool := do
  if p.nesting.isTop then return isSpace (byteChar (← get t.utf8 p.offset)) else return false

def wordStep (t : Text) (state : Option Nat × List Text) (p : Position) :
    Checked (Option Nat × List Text) := do
  match ← separatesAt t p, state.1 with
  | true, some start => return (none, state.2 ++ [← slice t start p.offset])
  | false, none => return (some p.offset, state.2)
  | _, _ => return state

def endWord (t : Text) (state : Option Nat × List Text) : Checked (List Text) := do
  match state.1 with
  | some start => return state.2 ++ [← sliceFrom t start]
  | none => return state.2

def splitWords (t : Text) : Checked (List Text) := do
  endWord t (← (scan t).foldlM (wordStep t) (none, []))

def closesAt (t : Text) (p : Position) : Checked Bool := do
  if !p.nesting.isQuoted && p.nesting.depth == 1 then
    return byteChar (← get t.utf8 p.offset) == ')'
  else return false

def takeGroup (t : Text) : Checked (Option (Text × Text)) :=
  if t.head? = some '(' then do
    match ← (scan t).findM? (closesAt t) with
    | none => return none
    | some p => return some (← slice t 1 p.offset, ← sliceFrom t (p.offset + 1))
  else .ok none

variable {c : Char} {n : Nesting} {r s t u : Text} {separator : UInt8}

theorem modifyHead_nil_append (us : List Text) : us.modifyHead ([] ++ ·) = us := by
  cases us <;> rfl

section Items

variable (hsep : separator.toNat < 128)

include hsep

theorem splitStep_inside (ht : t = s ++ c :: r) (hc : 128 ≤ c.toNat) {i : Nat}
    (hi : i < c.utf8Size) (state : Nat × List Text) :
    splitStep t separator state ⟨s.byteSize + i, n⟩ = .ok state := by
  obtain ⟨b, hb, hp⟩ := get_utf8 hi s r
  have hne : b ≠ separator := by
    rintro rfl
    have h := hp _ (byteClass_beq (d := byteChar b) (by rwa [toNat_byteChar]))
    rw [beq_self_eq_true, beq_of_le hc (by rwa [toNat_byteChar])] at h
    cases h
  rw [← ht] at hb
  rw [splitStep, hb, ok_bind, if_neg hne, ite_self]
  rfl

/-- A character ends a piece, or it belongs to the piece. -/
theorem splitStep_border (ht : t = s ++ u ++ c :: r) (ps : List Text) :
    splitStep t separator (s.byteSize, ps) ⟨Text.byteSize (s ++ u), n⟩ =
      .ok (if n.isTop && c == byteChar separator then
        (Text.byteSize (s ++ u) + 1, ps ++ [u.trim]) else (s.byteSize, ps)) := by
  obtain ⟨b, hb, hp⟩ := get_utf8 c.utf8Size_pos (s ++ u) r
  rw [Nat.add_zero, ← ht] at hb
  have hiff : b = separator ↔ c = byteChar separator := by
    have h := hp _ (byteClass_beq (d := byteChar separator) (by rwa [toNat_byteChar]))
    rw [← beq_iff_eq (a := c), ← h, beq_iff_eq]
    exact ⟨congrArg _, fun he => Text.byteChar_injective he⟩
  have hu : slice t s.byteSize (Text.byteSize (s ++ u)) = .ok u :=
    slice_of_append ht rfl (Text.byteSize_append s u)
  rw [splitStep, hb, hu, ok_bind, ok_bind]
  cases n.isTop with
  | false => rfl
  | true =>
      by_cases hc : c = byteChar separator
      · rw [if_pos rfl, if_pos (hiff.2 hc), hc, beq_self_eq_true]
        rfl
      · rw [if_pos rfl, if_neg (mt hiff.1 hc), beq_false_of_ne hc]
        rfl

omit hsep in
theorem endSplit_eq (ht : t = s ++ u) (ps : List Text) :
    endSplit t (s.byteSize, ps) = .ok (ps ++ [u.trim]) := by
  rw [endSplit, sliceFrom_of_append ht rfl]
  rfl

theorem foldlM_splitStep (ht : t = s ++ u ++ r) (n : Nesting) (ps : List Text) :
    ((scanFrom (Text.byteSize (s ++ u)) n r.utf8).foldlM (splitStep t separator)
      (s.byteSize, ps) >>= endSplit t) =
    .ok (ps ++ ((n.cut (· == byteChar separator) r).modifyHead (u ++ ·)).map Text.trim) := by
  induction r generalizing s u n ps with
  | nil =>
      rw [List.append_nil] at ht
      refine (endSplit_eq ht ps).trans ?_
      simp [Nesting.cut]
  | cons c r ih =>
      obtain ⟨inner, hs, hl, hi⟩ := scanFrom_cons (Text.byteSize (s ++ u)) n c r
      have hins (state : Nat × List Text) :
          ∀ p ∈ inner, splitStep t separator state p = .ok state := by
        rintro ⟨k, m⟩ hp
        obtain ⟨-, hc, i, -, hlt, rfl⟩ := hi _ hp
        exact splitStep_inside hsep ht hc hlt state
      rw [hs, List.cons_append, List.foldlM_cons, splitStep_border hsep ht, ok_bind,
        foldlM_skip (hins _), Nesting.cut]
      cases hc : n.isTop && c == byteChar separator with
      | true =>
          obtain rfl := eq_of_beq (Bool.and_eq_true_iff.1 hc).2
          have hsize : (byteChar separator).utf8Size = 1 :=
            utf8Size_of_lt (by rwa [toNat_byteChar])
          have ht : t = (s ++ u ++ [byteChar separator]) ++ [] ++ r := by simp [ht]
          have h := ih ht (n.step (byteChar separator)) (ps ++ [u.trim])
          rw [List.append_nil, Text.byteSize_concat, hsize, modifyHead_nil_append] at h
          rw [if_pos rfl, if_pos rfl, hsize, h]
          simp
      | false =>
          have ht : t = s ++ (u ++ [c]) ++ r := by simp [ht]
          have h := ih ht (n.step c) ps
          rw [← List.append_assoc, Text.byteSize_concat] at h
          rw [if_neg Bool.false_ne_true, if_neg Bool.false_ne_true, h, List.modifyHead_modifyHead]
          simp [Function.comp_def]

theorem splitItems_eq (t : Text) :
    splitItems t separator = .ok (t.splitItems (byteChar separator)) := by
  have h := foldlM_splitStep hsep (t := t) (s := []) (u := []) (r := t) rfl .top []
  rw [splitItems, Text.splitItems]
  by_cases ht : t.isBlank
  · rw [if_pos (Text.trim_eq_nil_iff.2 ht), if_pos ht]
  · rw [modifyHead_nil_append, List.nil_append] at h
    rw [if_neg (mt Text.trim_eq_nil_iff.1 ht), if_neg ht]
    exact h

end Items

theorem splitItems_comma (t : Text) : splitItems t ','.toUInt8 = .ok (t.splitItems ',') := by
  have h : byteChar ','.toUInt8 = ',' := by decide
  rw [splitItems_eq (by decide), h]

section Words

theorem separatesAt_eq (ht : t = s ++ c :: r) {i : Nat} (hi : i < c.utf8Size) :
    separatesAt t ⟨s.byteSize + i, n⟩ = .ok (n.isTop && isSpace c) := by
  obtain ⟨b, hb, hp⟩ := get_utf8 hi s r
  rw [← ht] at hb
  rw [separatesAt, hb, ok_bind, hp _ byteClass_isSpace]
  cases n.isTop <;> rfl

def wordStart (s u : Text) : Option Nat :=
  if u = [] then none else some s.byteSize

theorem wordStart_concat (s u : Text) (c : Char) : wordStart s (u ++ [c]) = some s.byteSize :=
  if_neg (List.append_ne_nil_of_right_ne_nil u (List.cons_ne_nil c []))

theorem wordStep_border (ht : t = s ++ u ++ c :: r) (ws : List Text) :
    wordStep t (wordStart s u, ws) ⟨Text.byteSize (s ++ u), n⟩ =
      .ok (if n.isTop && isSpace c then (none, ws ++ [u].filter (· ≠ []))
        else (some s.byteSize, ws)) := by
  have hsep := separatesAt_eq (n := n) ht c.utf8Size_pos
  rw [Nat.add_zero] at hsep
  have hu : slice t s.byteSize (Text.byteSize (s ++ u)) = .ok u :=
    slice_of_append ht rfl (Text.byteSize_append s u)
  rw [wordStep, hsep, ok_bind, wordStart]
  cases n.isTop && isSpace c with
  | true =>
      by_cases he : u = []
      · simp [he]
      · simp [he, hu]
  | false =>
      by_cases he : u = []
      · simp [he]
      · simp [he]

theorem wordStep_inside (ht : t = s ++ c :: r) (hc : 128 ≤ c.toNat) {i : Nat} (hi : i < c.utf8Size)
    (k : Nat) (ws : List Text) :
    wordStep t (some k, ws) ⟨s.byteSize + i, n⟩ = .ok (some k, ws) := by
  rw [wordStep, separatesAt_eq ht hi, ok_bind, isSpace_of_le hc, Bool.and_false]
  rfl

theorem endWord_eq (ht : t = s ++ u) (ws : List Text) :
    endWord t (wordStart s u, ws) = .ok (ws ++ [u].filter (· ≠ [])) := by
  rw [endWord, wordStart]
  by_cases hu : u = []
  · simp [hu]
  · simp [hu, sliceFrom_of_append ht rfl]

theorem foldlM_wordStep (ht : t = s ++ u ++ r) (n : Nesting) (ws : List Text) :
    ((scanFrom (Text.byteSize (s ++ u)) n r.utf8).foldlM (wordStep t)
      (wordStart s u, ws) >>= endWord t) =
    .ok (ws ++ ((n.cut isSpace r).modifyHead (u ++ ·)).filter (· ≠ [])) := by
  induction r generalizing s u n ws with
  | nil =>
      rw [List.append_nil] at ht
      refine (endWord_eq ht ws).trans ?_
      simp [Nesting.cut]
  | cons c r ih =>
      obtain ⟨inner, hs, hl, hi⟩ := scanFrom_cons (Text.byteSize (s ++ u)) n c r
      rw [hs, List.cons_append, List.foldlM_cons, wordStep_border ht, ok_bind, Nesting.cut]
      cases hc : n.isTop && isSpace c with
      | true =>
          have hlt : c.toNat < 128 := by
            by_contra h
            rw [isSpace_of_le (Nat.le_of_not_lt h), Bool.and_false] at hc
            cases hc
          have hin : inner = [] := by
            rw [utf8Size_of_lt hlt] at hl
            exact List.eq_nil_of_length_eq_zero (Nat.succ.inj hl)
          have ht : t = (s ++ u ++ [c]) ++ [] ++ r := by simp [ht]
          have h := ih ht (n.step c) (ws ++ [u].filter (· ≠ []))
          rw [List.append_nil, Text.byteSize_concat, modifyHead_nil_append] at h
          rw [if_pos rfl, if_pos rfl, hin, List.nil_append]
          refine h.trans ?_
          rw [List.modifyHead_cons, List.append_nil, List.append_assoc, ← List.filter_append]
          rfl
      | false =>
          have hins : ∀ p ∈ inner, wordStep t (some s.byteSize, ws) p =
              .ok (some s.byteSize, ws) := by
            rintro ⟨k, m⟩ hp
            obtain ⟨-, hc, i, -, hlt, rfl⟩ := hi _ hp
            exact wordStep_inside ht hc hlt _ ws
          have ht : t = s ++ (u ++ [c]) ++ r := by simp [ht]
          have h := ih ht (n.step c) ws
          rw [← List.append_assoc, Text.byteSize_concat, wordStart_concat] at h
          rw [if_neg Bool.false_ne_true, if_neg Bool.false_ne_true, foldlM_skip hins, h,
            List.modifyHead_modifyHead]
          simp [Function.comp_def]

theorem splitWords_eq (t : Text) : splitWords t = .ok t.splitWords := by
  have h := foldlM_wordStep (t := t) (s := []) (u := []) (r := t) rfl .top []
  rw [modifyHead_nil_append, List.nil_append] at h
  exact h

end Words

section Group

theorem closesAt_eq (ht : t = s ++ c :: r) {i : Nat} (hi : i < c.utf8Size) :
    closesAt t ⟨s.byteSize + i, n⟩ = .ok (decide (n = ⟨none, 1⟩ ∧ c = ')')) := by
  obtain ⟨b, hb, hp⟩ := get_utf8 hi s r
  rw [← ht] at hb
  have hn : (!n.isQuoted && n.depth == 1) = decide (n = ⟨none, 1⟩) := by
    obtain ⟨q, d⟩ := n
    cases q with
    | none => simp [Nesting.isQuoted, beq_eq_decide]
    | some q => simp [Nesting.isQuoted]
  rw [closesAt, hb, ok_bind, hp _ (byteClass_beq (d := ')') (by decide)), hn]
  by_cases h : n = ⟨none, 1⟩
  · simp [h, beq_eq_decide]
  · simp [h]

theorem findM?_closesAt (ht : t = s ++ r) (n : Nesting) :
    (scanFrom s.byteSize n r.utf8).findM? (closesAt t) =
      .ok ((n.closeGroup? r).map fun (inside, _) =>
        ⟨Text.byteSize (s ++ inside), ⟨none, 1⟩⟩) := by
  induction r generalizing s n with
  | nil => rfl
  | cons c r ih =>
      obtain ⟨inner, hs, -, hi⟩ := scanFrom_cons s.byteSize n c r
      have hc := closesAt_eq (n := n) ht c.utf8Size_pos
      rw [Nat.add_zero] at hc
      rw [hs, List.cons_append, List.findM?, hc, ok_bind, Nesting.closeGroup?]
      by_cases h : n = ⟨none, 1⟩ ∧ c = ')'
      · rw [decide_eq_true h, if_pos h, h.1]
        simp
      · have hins : ∀ p ∈ inner, closesAt t p = .ok false := by
          rintro ⟨k, m⟩ hp
          obtain ⟨-, hc, i, -, hlt, rfl⟩ := hi _ hp
          rw [closesAt_eq ht hlt, decide_eq_false fun h => ne_of_le hc (by decide) h.2]
        have ht : t = (s ++ [c]) ++ r := ht.trans (List.append_cons s c r)
        have h' := ih ht (n.step c)
        rw [Text.byteSize_concat] at h'
        rw [decide_eq_false h, if_neg h, findM?_skip hins, h']
        cases (n.step c).closeGroup? r with
        | none => rfl
        | some p => simp

theorem takeGroup_eq (t : Text) : takeGroup t = .ok t.takeGroup? := by
  rw [takeGroup]
  cases t with
  | nil => rfl
  | cons c r =>
      by_cases hc : c = '('
      · subst hc
        have h := findM?_closesAt (t := '(' :: r) (s := []) rfl .top
        rw [Text.byteSize, ← scan] at h
        have hstep : Nesting.top.step '(' = ⟨none, 1⟩ := rfl
        rw [Nesting.closeGroup?, if_neg (by decide), hstep] at h
        rw [List.head?_cons, if_pos rfl, h, ok_bind, Text.takeGroup?]
        cases hg : Nesting.closeGroup? ⟨none, 1⟩ r with
        | none => rfl
        | some p =>
            obtain ⟨inside, rest⟩ := p
            have ht : '(' :: r = ['('] ++ inside ++ ')' :: rest := by
              rw [Nesting.eq_of_closeGroup? hg]
              rfl
            have hin : slice ('(' :: r) 1 (Text.byteSize ('(' :: inside)) = .ok inside :=
              slice_of_append ht rfl (by rw [← Text.byteSize_append]; rfl)
            have hrest : sliceFrom ('(' :: r) (Text.byteSize ('(' :: inside) + 1) = .ok rest := by
              refine sliceFrom_of_append (s := '(' :: inside ++ [')']) (by simp [ht]) ?_
              rw [Text.byteSize_concat]
              rfl
            simp [hin, hrest]
      · rw [if_neg (by simpa using hc), Text.takeGroup?]
        rintro u hu
        exact hc (List.cons.inj hu).1

end Group

end SqlEdit.Checked
