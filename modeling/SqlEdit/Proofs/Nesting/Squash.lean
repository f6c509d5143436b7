import SqlEdit.Keyword.Names
import SqlEdit.Proofs.Nesting.Words

namespace SqlEdit

namespace Text

def squash (t : Text) : Text :=
  foldCase (t.filter (!SqlEdit.isBlank ·))

@[simp]
theorem squash_nil : squash [] = [] := rfl

theorem squash_append (s t : Text) : squash (s ++ t) = squash s ++ squash t := by
  rw [squash, List.filter_append, foldCase, List.map_append]
  rfl

theorem squash_cons (c : Char) (t : Text) : squash (c :: t) = squash [c] ++ squash t :=
  squash_append [c] t

theorem squash_of_isBlank {t : Text} (h : isBlank t) : squash t = [] := by
  have hf : t.filter (!SqlEdit.isBlank ·) = [] := by
    rw [List.filter_eq_nil_iff]
    intro c hc
    simp [List.all_eq_true.1 h c hc]
  rw [squash, hf]
  rfl

theorem squash_space (t : Text) : squash (' ' :: t) = squash t :=
  squash_cons ' ' t

theorem squash_trim (t : Text) : squash (trim t) = squash t := by
  obtain ⟨a, b, ha, hb, he⟩ := exists_eq_trim t
  conv => rhs; rw [he]
  rw [squash_append, squash_append, squash_of_isBlank ha, squash_of_isBlank hb, List.nil_append,
    List.append_nil]

theorem squash_trimStart (t : Text) : squash (trimStart t) = squash t := by
  obtain ⟨a, ha, he⟩ := exists_eq_trimStart t
  conv => rhs; rw [he]
  rw [squash_append, squash_of_isBlank ha, List.nil_append]

theorem squash_trimEnd (t : Text) : squash (trimEnd t) = squash t := by
  obtain ⟨b, hb, he⟩ := exists_eq_trimEnd t
  conv => rhs; rw [he]
  rw [squash_append, squash_of_isBlank hb, List.append_nil]

theorem isBlank_toLower (c : Char) : SqlEdit.isBlank c.toLower = SqlEdit.isBlank c := by
  by_cases hc : c.isAlpha
  · have hl : c.toLower.isAlpha := by rwa [isAlpha_toLower]
    rw [isBlank_of_isAlpha hc, isBlank_of_isAlpha hl]
  · rw [toLower_of_not_isAlpha (Bool.eq_false_iff.2 hc)]

theorem squash_eq_filter (t : Text) : squash t = (foldCase t).filter (!SqlEdit.isBlank ·) := by
  rw [squash, foldCase, foldCase, List.filter_map]
  refine congrArg _ (List.filter_congr fun c _ => ?_)
  rw [Function.comp_apply, isBlank_toLower]

theorem squash_of_sameWord {s t : Text} (h : sameWord s t) : squash s = squash t := by
  rw [squash_eq_filter, squash_eq_filter, eq_of_beq h]

theorem squash_join (separator : Text) (ts : List Text) :
    squash (join separator ts) = join (squash separator) (ts.map squash) := by
  cases ts with
  | nil => rfl
  | cons t ts =>
      rw [List.map_cons, join_cons, join_cons, squash_append]
      refine congrArg _ ?_
      induction ts with
      | nil => rfl
      | cons u us ih =>
          rw [List.flatMap_cons, squash_append, squash_append, ih, List.map_cons, List.flatMap_cons]

theorem squash_joinWords (ws : List Text) : squash (joinWords ws) = ws.flatMap squash := by
  cases ws with
  | nil => rfl
  | cons w ws =>
      rw [joinWords_cons, squash_append, List.flatMap_cons]
      refine congrArg _ ?_
      induction ws with
      | nil => rfl
      | cons v vs ih => rw [List.flatMap_cons, squash_append, squash_space, ih, List.flatMap_cons]

theorem flatMap_squash_cut {p : Char → Bool} (hp : ∀ c, p c → SqlEdit.isBlank c) (n : Nesting)
    (t : Text) : (n.cut p t).flatMap squash = squash t := by
  induction t generalizing n with
  | nil => rfl
  | cons c t ih =>
      rw [Nesting.cut, squash_cons, ← ih (n.step c)]
      split
      next h =>
        have hc : isBlank [c] := by simp [isBlank, hp c (Bool.and_eq_true_iff.1 h).2]
        rw [squash_of_isBlank hc, List.flatMap_cons, squash_nil]
      next =>
        obtain ⟨s, ss, hs⟩ := List.exists_cons_of_ne_nil (Nesting.cut_ne_nil p (n.step c) t)
        rw [hs, List.modifyHead_cons, List.flatMap_cons, squash_cons, List.flatMap_cons,
          List.append_assoc]

/-- The words of a text hold all of it but white space. -/
theorem flatMap_squash_splitWords (t : Text) : t.splitWords.flatMap squash = squash t := by
  rw [← flatMap_squash_cut (fun _ => isBlank_of_isSpace) .top t, splitWords]
  induction Nesting.top.cut isSpace t with
  | nil => rfl
  | cons w ws ih =>
      by_cases hw : w = []
      · rw [List.filter_cons_of_neg (by simpa using hw), ih, hw, List.flatMap_cons, squash_nil,
          List.nil_append]
      · rw [List.filter_cons_of_pos (by simpa using hw), List.flatMap_cons, ih, List.flatMap_cons]

theorem squash_join_splitItems (c : Char) (t : Text) :
    squash (join [c, ' '] (t.splitItems c)) = squash t := by
  rw [splitItems]
  split
  next h => rw [squash_of_isBlank h]; rfl
  next =>
    have ht : squash ∘ trim = squash := funext squash_trim
    have hs : squash [c, ' '] = squash [c] := by
      rw [squash_cons]
      exact List.append_nil _
    rw [squash_join, List.map_map, ht, hs, ← squash_join, Nesting.join_cut]

end Text

namespace Keyword

open Text (squash squash_append squash_joinWords squash_of_isBlank squash_of_sameWord)

theorem squash_of_readSpaced? {ws : List Text} {t matched rest : Text}
    (h : readSpaced? ws t = some (matched, rest)) : squash matched = ws.flatMap squash := by
  induction ws generalizing t matched with
  | nil =>
      obtain ⟨rfl, rfl⟩ := Prod.mk.inj (Option.some.inj h)
      rfl
  | cons w ws ih =>
      obtain ⟨front, r, more, -, h₁, h₂, rfl⟩ := readSpaced?_cons_eq_some_iff.1 h
      have hg : Text.isBlank (t.takeWhile isSpace) := List.all_eq_true.2 fun c hc =>
        isBlank_of_isSpace (List.all_eq_true.1 List.all_takeWhile c hc)
      rw [squash_append, squash_append, squash_of_isBlank hg, ih h₂, List.flatMap_cons,
        squash_of_sameWord (Text.readWord?_eq_some_iff.1 h₁).2, List.nil_append]

theorem squash_of_read? {k : Keyword} {t matched rest : Text}
    (h : k.read? t = some (matched, rest)) : squash matched = squash k.text := by
  have hk : squash k.text = k.words.flatMap squash := squash_joinWords k.words
  rw [hk]
  cases hw : k.words with
  | nil =>
      rw [read?, hw] at h
      obtain ⟨rfl, rfl⟩ := Prod.mk.inj (Option.some.inj h)
      rfl
  | cons w ws =>
      obtain ⟨front, r, more, h₁, h₂, rfl⟩ := (read?_eq_some_iff_of_words hw).1 h
      rw [squash_append, squash_of_readSpaced? h₂, List.flatMap_cons,
        squash_of_sameWord (Text.readWord?_eq_some_iff.1 h₁).2]

end Keyword

end SqlEdit
