import SqlEdit.Proofs.Clauses.Placement
import SqlEdit.Proofs.Nesting.Count
import SqlEdit.Statement.Field
import SqlEdit.Statement.Render

namespace SqlEdit

open Nesting (Free isPlain)
open Text (Closed Solid Countable)
open Keyword (Apart Absent)

theorem Nesting.exists_of_cut_concat {p : Char → Bool} (hp : ∀ c, p c → isPlain c) {t last : Text}
    {ss : List Text} (hne : ss ≠ []) (h : Nesting.top.cut p t = ss ++ [last]) :
    ∃ u c, p c ∧ t = u ++ [c] ++ last ∧ Closed u := by
  induction ss generalizing t with
  | nil => exact absurd rfl hne
  | cons s ss ih =>
      obtain ⟨v, vs, hv⟩ : ∃ v vs, ss ++ [last] = v :: vs :=
        List.exists_cons_of_ne_nil (by simp)
      rw [List.cons_append, hv] at h
      obtain ⟨-, hc, c, r, hpc, rfl, hr⟩ := exists_of_cut_cons_cons hp h
      by_cases hss : ss = []
      · subst hss
        obtain ⟨rfl, rfl⟩ := List.cons.inj hv
        refine ⟨s, c, hpc, ?_, hc⟩
        rw [eq_of_cut_singleton hr]
        simp
      · obtain ⟨u, d, hd, rfl, hu⟩ := ih hss (hr.trans hv.symm)
        refine ⟨s ++ c :: u, d, hd, by simp, ?_⟩
        exact Closed.append hc (Closed.cons (hp c hpc) hu)

theorem Text.trimEnd_append_ne (s v : Text) (c : Char) {d : Char} (hd : SqlEdit.isBlank d = false) :
    trimEnd (s ++ c :: d :: v) ≠ s := by
  intro h
  obtain ⟨b, hb, he⟩ := exists_eq_trimEnd (s ++ c :: d :: v)
  rw [h] at he
  rw [← List.append_cancel_left he] at hb
  simp [isBlank, hd] at hb

theorem Text.trimEnd_eq_nil_iff {t : Text} : trimEnd t = [] ↔ isBlank t := by
  obtain ⟨b, hb, he⟩ := exists_eq_trimEnd t
  constructor
  · intro h
    rw [h, List.nil_append] at he
    rwa [he]
  · exact fun h => trimEnd_append (s := []) h

theorem Text.Solid.trimEnd_left {s t : Text} (h : Solid (s ++ t)) (hne : trimEnd s ≠ []) :
    Solid (trimEnd s) := by
  have hs : s ≠ [] := by
    rintro rfl
    exact hne rfl
  obtain ⟨d, u, rfl⟩ := List.exists_cons_of_ne_nil hs
  have hh : (d :: u).head?.any (!SqlEdit.isBlank ·) := h.head
  have hnb : ¬ isBlank (d :: u) := by
    simp only [List.head?_cons, Option.any_some, Bool.not_eq_true'] at hh
    simp [isBlank, hh]
  exact ⟨head?_trimEnd hh, getLast?_trimEnd hnb⟩

namespace Field

/-- A field as it is read: solid and closed in its parts, without a top-level comma, and without
an alias only if none can be read. -/
structure Shaped (f : Field) : Prop where
  expression : Solid f.expression
  closed : Closed f.expression
  name : ∀ a ∈ f.alias?, Solid a ∧ Closed a
  comma : Free (· == ',') .top f.render
  plain : f.alias? = none → ofText? f.expression = some f

def HasPlainAlias (f : Field) : Prop :=
  ∀ a ∈ f.alias?, Absent [.asAlias] a

instance (f : Field) : Decidable f.HasPlainAlias :=
  inferInstanceAs (Decidable (∀ a ∈ f.alias?, _))

theorem render_some {f : Field} {a : Text} (h : f.alias? = some a) :
    f.render = f.expression ++ " AS ".toList ++ a := by
  rw [render, h]

theorem render_none {f : Field} (h : f.alias? = none) : f.render = f.expression := by
  rw [render, h]

theorem Shaped.solid_render {f : Field} (h : f.Shaped) : Solid f.render := by
  cases ha : f.alias? with
  | none => rw [render_none ha]; exact h.expression
  | some a => rw [render_some ha]; exact h.expression.append (h.name a ha).1 _

theorem Shaped.closed_render {f : Field} (h : f.Shaped) : Closed f.render := by
  cases ha : f.alias? with
  | none => rw [render_none ha]; exact h.closed
  | some a =>
      rw [render_some ha]
      exact (h.closed.append (by decide)).append (h.name a ha).2

theorem apart : Apart [.asAlias] := by decide

theorem isLettered_asAlias : Keyword.asAlias.isLettered := by decide

variable {t : Text} {f : Field}

theorem splitAs?_eq_some_iff :
    splitAs? t = some f ↔ ∃ o, Keyword.asAlias.findLast? t = some o ∧
      Text.trimEnd o.before = f.expression ∧ f.alias? = some (Text.trim o.after) ∧
      f.expression ≠ [] ∧ Text.trim o.after ≠ [] := by
  obtain ⟨expression, alias?⟩ := f
  rw [splitAs?, Option.bind_eq_bind, Option.bind_eq_some_iff]
  refine exists_congr fun o => and_congr_right fun _ => ?_
  grind

theorem exists_of_splitWords {ws : List Text} {name operand : Text} (ht : Solid t)
    (h : t.splitWords.reverse = name :: operand :: ws) :
    ∃ u c, isSpace c ∧ t = u ++ [c] ++ name ∧ Closed u ∧ name.getLast? = t.getLast? := by
  obtain ⟨v, d, rfl, hd⟩ := ht.concat
  have hsp : isSpace d = false := by
    cases hs : isSpace d with
    | false => rfl
    | true => rwa [isBlank_of_isSpace hs] at hd
  have hlast := Nesting.getLast?_cut (n := .top) (t := v) hsp
  obtain ⟨ss, last, hcut⟩ : ∃ ss last, Nesting.top.cut isSpace (v ++ [d]) = ss ++ [last] :=
    ⟨_, _, (List.dropLast_concat_getLast (Nesting.cut_ne_nil isSpace .top (v ++ [d]))).symm⟩
  rw [hcut, List.getLast?_concat, Option.bind_some] at hlast
  have hne : last ≠ [] := by
    rintro rfl
    simp at hlast
  rw [Text.splitWords, hcut, List.filter_append, List.filter_singleton, decide_eq_true hne,
    cond_true, List.reverse_append, List.reverse_singleton, List.singleton_append] at h
  obtain ⟨rfl, h⟩ := List.cons.inj h
  have hss : ss ≠ [] := by
    rintro rfl
    simp at h
  obtain ⟨u, c, hc, htu, hu⟩ := Nesting.exists_of_cut_concat (fun _ => isPlain_of_isSpace) hss hcut
  exact ⟨u, c, hc, htu, hu, by rw [hlast, List.getLast?_concat]⟩

theorem not_isBlank_head_of_isAliasWord {w : Text} (h : isAliasWord w) :
    w.head?.any (!isBlank ·) := by
  rw [isAliasWord, Bool.or_eq_true] at h
  rcases h with h | h
  · simp only [isQuotedName, Bool.and_eq_true, beq_iff_eq] at h
    rw [h.1.2]
    decide
  · simp only [Bool.and_eq_true] at h
    have hp := h.1.1
    rw [Identifier.isPlain] at hp
    cases w with
    | nil => simp [Text.cut, Identifier.isSegment] at hp
    | cons c w =>
        rw [Text.cut] at hp
        split at hp
        · simp [Identifier.isSegment] at hp
        · obtain ⟨s, ss, hs⟩ := List.exists_cons_of_ne_nil (Text.cut_ne_nil (· == '.') w)
          simp only [hs, List.modifyHead_cons, List.all_cons, Identifier.isSegment, List.head?_cons,
            Option.any_some, Bool.and_eq_true, Identifier.isStart, Bool.or_eq_true, beq_iff_eq] at hp
          rcases hp.1.1 with hc | rfl
          · simp [isBlank_of_isAlpha hc]
          · rfl

theorem exists_of_splitBare? (ht : Solid t) (h : splitBare? t = some f) :
    ∃ u c name, isSpace c ∧ t = u ++ [c] ++ name ∧ Closed u ∧ isAliasWord name ∧ Solid name ∧
      f = ⟨Text.trimEnd (u ++ [c]), some name⟩ := by
  rw [splitBare?] at h
  split at h
  next name operand ws hw =>
    split at h
    next hc =>
      obtain rfl := Option.some.inj h
      obtain ⟨u, c, hcs, htu, hu, hl⟩ := exists_of_splitWords ht hw
      have ha := (Bool.and_eq_true_iff.1 hc).1
      have hn : Solid name := ⟨not_isBlank_head_of_isAliasWord ha, hl ▸ ht.last⟩
      refine ⟨u, c, name, hcs, htu, hu, ha, hn, ?_⟩
      have hl : (u ++ [c] ++ name).length - name.length = (u ++ [c]).length := by
        rw [List.length_append, Nat.add_sub_cancel]
      rw [htu, hl, List.take_left]
    · simp at h
  · simp at h

/-- A field is split at an AS, otherwise before its last word, otherwise not at all. -/
theorem ofText?_eq_some_iff (hne : t ≠ []) : ofText? t = some f ↔
    splitAs? t = some f ∨ splitAs? t = none ∧ splitBare? t = some f ∨
      splitAs? t = none ∧ splitBare? t = none ∧ f = ⟨t, none⟩ := by
  rw [ofText?, if_neg hne, Option.some.injEq]
  cases splitAs? t with
  | some g => simp
  | none => cases splitBare? t <;> simp [eq_comm]

def Parted (t : Text) (f : Field) : Prop :=
  ∃ front m back, t = front ++ m ++ back ∧ Closed front ∧ Closed m ∧ m ≠ [] ∧
    f = ⟨Text.trimEnd front, some (Text.trim back)⟩ ∧ Solid (Text.trimEnd front) ∧
      Solid (Text.trim back)

theorem parted_of_splitAs? (ht : Solid t) (h : splitAs? t = some f) : Parted t f := by
  obtain ⟨o, ho, he, ha, hne, hnn⟩ := splitAs?_eq_some_iff.1 h
  obtain ⟨rfl, hat⟩ := (Keyword.mem_occurrences_iff isLettered_asAlias).1 (List.mem_of_getLast? ho)
  rw [← he] at hne
  refine ⟨o.before, o.matched, o.after, rfl, hat.closed, ?_, ?_, ?_, ?_, ?_⟩
  · exact Keyword.closed_of_read? isLettered_asAlias hat.read
  · exact Keyword.ne_nil_of_read? isLettered_asAlias hat.read
  · obtain ⟨expression, alias?⟩ := f
    rw [he, ← ha]
  · rw [Occurrence.text, List.append_assoc] at ht
    exact ht.trimEnd_left hne
  · exact Text.solid_trim fun hbl => hnn (Text.trim_eq_nil_iff.2 hbl)

theorem parted_of_splitBare? (ht : Solid t) (h : splitBare? t = some f) : Parted t f := by
  obtain ⟨u, c, name, hcs, rfl, hu, -, hn, rfl⟩ := exists_of_splitBare? ht h
  have hblank : Text.isBlank [c] := by simp [Text.isBlank, isBlank_of_isSpace hcs]
  -- Otherwise the whole text would be blank in front of the name, and so be the name alone.
  have hsu : ¬ Text.isBlank u := by
    intro hbl
    have hbl := Text.isBlank_append.2 ⟨hbl, hblank⟩
    have htr := Text.trimStart_append (t := name) hbl
    rw [ht.trimStart_eq, hn.trimStart_eq] at htr
    have hlen := congrArg List.length htr
    simp only [List.length_append, List.length_singleton] at hlen
    omega
  refine ⟨u, [c], name, rfl, hu, ?_, List.cons_ne_nil _ _, ?_, ?_, ?_⟩
  · exact Text.closed_of_isBlank hblank
  · rw [Text.trimEnd_append hblank, hn.trim_eq]
  · rw [List.append_assoc] at ht
    exact ht.trimEnd_left fun he => hsu (Text.trimEnd_eq_nil_iff.1 he)
  · rwa [hn.trim_eq]

theorem eq_or_parted_of_ofText? (ht : Solid t) (h : ofText? t = some f) :
    f = ⟨t, none⟩ ∨ Parted t f := by
  obtain h | ⟨-, h⟩ | ⟨-, -, h⟩ := (ofText?_eq_some_iff ht.ne_nil).1 h
  · exact .inr (parted_of_splitAs? ht h)
  · exact .inr (parted_of_splitBare? ht h)
  · exact .inl h

theorem shaped_of_ofText? (ht : Solid t) (hc : Closed t) (hf : Free (· == ',') .top t)
    (h : ofText? t = some f) : f.Shaped := by
  have hb : ∀ c, (c == ',') = true → isBlank c = false := forall_of_beq (by decide)
  obtain rfl | ⟨front, m, back, rfl, hfc, hmc, -, rfl, hfn, hbn⟩ := eq_or_parted_of_ofText? ht h
  · exact ⟨ht, hc, by simp, hf, fun _ => h⟩
  · rw [Nesting.free_append, Nesting.free_append, Nesting.after_append, hfc, hmc] at hf
    rw [(Closed.append hfc hmc).append_iff] at hc
    have hec : Closed (Text.trimEnd front) := Text.closed_trimEnd.2 hfc
    refine ⟨hfn, hec, ?_, ?_, by simp⟩
    · rintro a ⟨rfl⟩
      exact ⟨hbn, Text.closed_trim.2 hc⟩
    · rw [render_some rfl, Nesting.free_append, Nesting.free_append, Nesting.after_append, hec]
      exact ⟨⟨(Nesting.free_trimEnd hb).2 hf.1.1, by decide⟩, (Nesting.free_trim hb).2 hf.2⟩

theorem length_render_le (ht : Solid t) (h : ofText? t = some f) :
    f.render.length ≤ t.length + 3 := by
  obtain rfl | ⟨front, m, back, rfl, -, -, hm, rfl, -, -⟩ := eq_or_parted_of_ofText? ht h
  · exact Nat.le_add_right ..
  · have hm := List.length_pos_iff.2 hm
    have hf := Text.length_trimEnd_le front
    have hb := Text.length_trim_le back
    simp [render]
    omega

theorem countP_render_le (ht : Solid t) (h : ofText? t = some f) :
    f.render.countP (· == ';') ≤ t.countP (· == ';') := by
  have hc := Text.countable_semicolon
  obtain rfl | ⟨front, m, back, rfl, -, -, hm, rfl, -, -⟩ := eq_or_parted_of_ofText? ht h
  · exact Nat.le_refl _
  · simp [render, Text.countP_trimEnd hc, Text.countP_trim hc, List.countP_append]

theorem occurrences_asAlias (h : Closed f.expression) (a : Text) :
    Keyword.asAlias.occurrences (f.expression ++ " AS ".toList ++ a) =
      (Keyword.asAlias.occurrences (f.expression ++ [' '])).map
          (Occurrence.extend ("AS".toList ++ ' ' :: a)) ++
        ([⟨f.expression ++ [' '], "AS".toList, ' ' :: a⟩] ++
          (Keyword.asAlias.occurrences (' ' :: a)).map
            (Occurrence.behind (f.expression ++ " AS".toList))) := by
  have ho : ⟨f.expression ++ [' '], "AS".toList, ' ' :: a⟩ ∈
      Keyword.asAlias.occurrences (f.expression ++ " AS ".toList ++ a) := by
    refine (Keyword.mem_occurrences_iff isLettered_asAlias).2 ⟨by simp [Occurrence.text], ?_, ?_, ?_, rfl⟩
    · exact (Text.closed_append_blank (by decide)).2 h
    · rw [List.getLast?_concat]
      rfl
    · exact Keyword.read?_text isLettered_asAlias _
  rw [Keyword.occurrences_around apart (by simp) (by simp) ho, if_pos rfl]
  simp

theorem hasPlainAlias_iff {a : Text} (ha : f.alias? = some a) :
    f.HasPlainAlias ↔ Keyword.asAlias.occurrences (' ' :: a) = [] := by
  have hs : Absent [.asAlias] (' ' :: a) ↔ Absent [.asAlias] a :=
    Keyword.absent_space_append apart
  simp only [Absent, List.forall_mem_singleton] at hs
  rw [hs]
  simp [HasPlainAlias, ha, Absent]

/-- An AS in the alias would be taken for the one before the alias. -/
theorem hasPlainAlias_of_ofText? (hs : Solid f.render) (hc : Closed f.expression)
    (h : ofText? f.render = some f) : f.HasPlainAlias := by
  cases ha : f.alias? with
  | none => simp [HasPlainAlias, ha]
  | some a =>
      rw [hasPlainAlias_iff ha]
      by_contra hne
      have hr := render_some ha
      obtain has | ⟨-, hb⟩ | ⟨-, -, h⟩ := (ofText?_eq_some_iff hs.ne_nil).1 h
      · obtain ⟨o, ho, he, -⟩ := splitAs?_eq_some_iff.1 has
        rw [Keyword.findLast?, hr, occurrences_asAlias hc, ← List.append_assoc,
          List.getLast?_append_of_ne_nil _ (by simpa using hne), List.getLast?_map] at ho
        obtain ⟨p, -, rfl⟩ := Option.map_eq_some_iff.1 ho
        refine Text.trimEnd_append_ne f.expression ('S' :: p.before) ' ' (d := 'A') (by decide) ?_
        simpa [Occurrence.behind] using he
      · obtain ⟨u, c, name, -, ht, -, -, -, hg⟩ := exists_of_splitBare? hs hb
        obtain rfl : name = a := by
          rw [hg] at ha
          exact Option.some.inj ha
        rw [hr] at ht
        have he : Text.trimEnd (u ++ [c]) = f.expression := congrArg Field.expression hg.symm
        rw [← List.append_cancel_right ht] at he
        exact Text.trimEnd_append_ne f.expression "S ".toList ' ' (d := 'A') (by decide) he
      · rw [h] at ha
        cases ha

theorem ofText?_render_of_alias {a : Text} (ha : f.alias? = some a) (he : Solid f.expression)
    (hc : Closed f.expression) (hsa : Solid a) (hp : f.HasPlainAlias) :
    ofText? f.render = some f := by
  rw [hasPlainAlias_iff ha] at hp
  have hne : f.render ≠ [] := by simp [render_some ha]
  have has : splitAs? f.render = some f := by
    refine splitAs?_eq_some_iff.2 ⟨⟨f.expression ++ [' '], "AS".toList, ' ' :: a⟩, ?_, ?_, ?_,
      he.ne_nil, ?_⟩
    · rw [Keyword.findLast?, render_some ha, occurrences_asAlias hc, hp]
      simp
    · rw [Text.trimEnd_append (by decide), he.trimEnd_eq]
    · rw [Text.trim_space, hsa.trim_eq, ha]
    · rw [Text.trim_space, hsa.trim_eq]
      exact hsa.ne_nil
  exact (ofText?_eq_some_iff hne).2 (.inl has)

/-- A field is read back exactly if no AS stands in its alias. -/
theorem ofText?_render_iff (h : f.Shaped) : ofText? f.render = some f ↔ f.HasPlainAlias := by
  refine ⟨hasPlainAlias_of_ofText? h.solid_render h.closed, fun hp => ?_⟩
  cases ha : f.alias? with
  | none => rw [render_none ha, h.plain ha]
  | some a => exact ofText?_render_of_alias ha h.expression h.closed (h.name a ha).1 hp

end Field

end SqlEdit
