import SqlEdit.Clauses
import SqlEdit.Proofs.Keyword.Around

namespace SqlEdit

open Text (Closed)

namespace Keyword

def Absent (ks : List Keyword) (t : Text) : Prop :=
  ∀ k ∈ ks, k.occurrences t = []

instance (ks : List Keyword) (t : Text) : Decidable (Absent ks t) :=
  inferInstanceAs (Decidable (∀ k ∈ ks, _))

structure First (ks : List Keyword) (t : Text) (k : Keyword) (o : Occurrence) : Prop where
  mem : k ∈ ks
  occurs : o ∈ k.occurrences t
  absent : Absent ks o.before

variable {ks : List Keyword} {k l : Keyword} {t : Text} {o : Occurrence}

theorem exists_first_of_mem (ha : Apart ks) (hk : k ∈ ks) (ho : o ∈ k.occurrences t) :
    ∃ k o, First ks t k o := by
  -- An occurrence of any of the keywords before this one has less text before it.
  induction hn : o.before.length using Nat.strong_induction_on generalizing k o with
  | _ n ih =>
      by_cases hf : Absent ks o.before
      · exact ⟨k, o, hk, ho, hf⟩
      · simp only [Absent, not_forall] at hf
        obtain ⟨l, hl, hne⟩ := hf
        obtain ⟨p, hp⟩ := List.exists_mem_of_ne_nil _ hne
        obtain ⟨ht, hat⟩ := (mem_occurrences_iff (ha.lettered l hl)).1 hp
        have hlt : p.before.length < o.before.length := by
          have hm := List.length_pos_iff.2 (ne_nil_of_read? (ha.lettered l hl) hat.read)
          rw [← ht, Occurrence.text, List.length_append, List.length_append]
          omega
        refine ih _ (hn ▸ hlt) hl (o := p.extend (o.matched ++ o.after)) ?_ rfl
        rw [occurrences_around ha hl hk ho, List.mem_append]
        exact .inl (List.mem_map_of_mem hp)

theorem absent_or_exists_first (ha : Apart ks) (t : Text) :
    Absent ks t ∨ ∃ k o, First ks t k o := by
  by_cases hf : Absent ks t
  · exact .inl hf
  · simp only [Absent, not_forall] at hf
    obtain ⟨k, hk, hne⟩ := hf
    obtain ⟨o, ho⟩ := List.exists_mem_of_ne_nil _ hne
    exact .inr (exists_first_of_mem ha hk ho)

namespace First

theorem text_eq (h : First ks t k o) : o.text = t :=
  (of_mem_occurrences h.occurs).1

theorem closed (h : First ks t k o) : Closed o.before :=
  (of_mem_occurrences h.occurs).2

theorem find?_self (ha : Apart ks) (h : First ks t k o) : k.find? t = some o := by
  rw [find?, occurrences_around ha h.mem h.mem h.occurs, h.absent k h.mem]
  simp

theorem find?_other (ha : Apart ks) (h : First ks t k o) (hl : l ∈ ks) (hne : l ≠ k) :
    l.find? t = (l.find? o.after).map (Occurrence.behind (o.before ++ o.matched)) := by
  rw [find?, occurrences_around ha hl h.mem h.occurs, h.absent l hl, if_neg hne, find?]
  simp

end First

end Keyword

namespace Clauses

open Keyword (Apart Absent First)

def starts (ks : List Keyword) (t : Text) : List Nat :=
  ks.filterMap fun k => (k.find? t).map (·.before.length)

def bodyOf? (ks : List Keyword) (t : Text) (k : Keyword) : Option Text :=
  (k.find? t).bind fun o =>
    slice? t o.span.stop (nextStart (starts ks t) o.span.stop t.length)

def nonempty? (t : Text) : Option Text :=
  if t = [] then none else some t

theorem nonempty?_eq_some_iff {s t : Text} : nonempty? s = some t ↔ s = t ∧ t ≠ [] := by
  rw [nonempty?]
  split <;> grind

theorem starts_eq (ks : List Keyword) (t : Text) :
    ((spans ks t).filterMap id).map (·.start) = starts ks t := by
  induction ks with
  | nil => rfl
  | cons k ks ih =>
      rw [spans, starts] at *
      cases hf : k.find? t with
      | none => simpa [hf] using ih
      | some o => simpa [hf, Occurrence.span] using ih

theorem split_eq (ks : List Keyword) (t : Text) :
    split ks t = ⟨Text.trim (t.take (nextStart (starts ks t) 0 t.length)),
      ks.map (bodyOf? ks t)⟩ := by
  simp only [split, starts_eq]
  refine congrArg (Clauses.mk _) ?_
  rw [spans, List.map_map]
  refine List.map_congr_left fun k _ => ?_
  simp only [Function.comp_apply, bodyOf?]
  cases k.find? t <;> rfl

theorem nextStart_shift (starts : List Nat) (place length n : Nat) :
    nextStart (starts.map (· + n)) (place + n) (length + n) = nextStart starts place length + n := by
  have hf : (starts.map (· + n)).filter (place + n ≤ ·) =
      (starts.filter (place ≤ ·)).map (· + n) := by
    rw [List.filter_map]
    refine congrArg (List.map _) (List.filter_congr fun s _ => ?_)
    simp
  have hm (l : List Nat) : (l.map (· + n)).min? = l.min?.map (· + n) := by
    induction l with
    | nil => rfl
    | cons a l ih =>
        rw [List.map_cons, List.min?_cons, List.min?_cons, ih]
        cases l.min? with
        | none => rfl
        | some b => simp [Nat.add_min_add_right]
  rw [nextStart, hf, hm, nextStart]
  cases (starts.filter (place ≤ ·)).min? <;> rfl

/-- Behind the first keyword the starts are those of the others in the rest of the text. -/
theorem filter_starts {ks : List Keyword} {k : Keyword} {t : Text} {o : Occurrence}
    (ha : Apart ks) (h : First ks t k o) {place : Nat} (hp : o.before.length < place) :
    (starts ks t).filter (place ≤ ·) =
      ((starts (ks.filter (· ≠ k)) o.after).map (· + (o.before ++ o.matched).length)).filter
        (place ≤ ·) := by
  rw [starts, starts, List.filter_filterMap, List.map_filterMap, List.filter_filterMap,
    List.filterMap_filter]
  refine List.filterMap_congr fun l hl => ?_
  by_cases he : l = k
  · subst he
    simp [h.find?_self ha, Option.filter, hp]
  · rw [h.find?_other ha hl he]
    cases l.find? o.after <;> simp [he, Occurrence.behind, Nat.add_comm, Nat.add_left_comm]

variable {ks : List Keyword} {k l : Keyword} {t : Text} {o : Occurrence}

theorem nextStart_first (ha : Apart ks) (h : First ks t k o) (place : Nat) :
    nextStart (starts ks t) (place + (o.before ++ o.matched).length) t.length =
      nextStart (starts (ks.filter (· ≠ k)) o.after) place o.after.length +
        (o.before ++ o.matched).length := by
  have hlt : o.before.length < place + (o.before ++ o.matched).length := by
    have hat := ((Keyword.mem_occurrences_iff (ha.lettered k h.mem)).1 h.occurs).2
    have hm := List.length_pos_iff.2 (Keyword.ne_nil_of_read? (ha.lettered k h.mem) hat.read)
    rw [List.length_append]
    omega
  have hl : t.length = o.after.length + (o.before ++ o.matched).length := by
    rw [← h.text_eq, Occurrence.text, List.length_append, Nat.add_comm]
  rw [nextStart, filter_starts ha h hlt, hl, ← nextStart_shift, nextStart]

theorem slice?_behind (s t : Text) (start stop : Nat) :
    slice? (s ++ t) (start + s.length) (stop + s.length) = slice? t start stop := by
  rw [slice?, slice?, Nat.add_comm stop, List.take_length_add_append, Nat.add_comm start,
    List.drop_length_add_append]

theorem head_split_of_first (ha : Apart ks) (h : First ks t k o) :
    (split ks t).head = Text.trim o.before := by
  have hm : (starts ks t).min? = some o.before.length := by
    refine List.min?_eq_some_iff.2 ⟨?_, fun n hn => ?_⟩
    · exact List.mem_filterMap.2 ⟨k, h.mem, by rw [h.find?_self ha]; rfl⟩
    · obtain ⟨l, hl, hf⟩ := List.mem_filterMap.1 hn
      by_cases he : l = k
      · rw [he, h.find?_self ha, Option.map_some, Option.some.injEq] at hf
        exact Nat.le_of_eq hf
      · rw [h.find?_other ha hl he, Option.map_map] at hf
        obtain ⟨p, -, rfl⟩ := Option.map_eq_some_iff.1 hf
        simp only [Function.comp_apply, Occurrence.behind, List.length_append]
        omega
  have hn : nextStart (starts ks t) 0 t.length = o.before.length := by
    rw [nextStart, List.filter_eq_self.2 (by simp), hm, Option.getD_some]
  rw [split_eq, hn, ← h.text_eq, Occurrence.text, List.append_assoc, List.take_left]

theorem head_split_of_absent (h : Absent ks t) : (split ks t).head = Text.trim t := by
  have hs : starts ks t = [] := by
    refine List.filterMap_eq_nil_iff.2 fun k hk => ?_
    rw [Keyword.find?, h k hk]
    rfl
  rw [split_eq, hs, nextStart, List.filter_nil, List.min?_nil, Option.getD_none, List.take_length]

theorem bodyOf?_of_absent (h : Absent ks t) (hk : k ∈ ks) : bodyOf? ks t k = none := by
  rw [bodyOf?, Keyword.find?, h k hk]
  rfl

/-- The clause of the first keyword goes on to the next of the others. -/
theorem bodyOf?_first (ha : Apart ks) (h : First ks t k o) :
    bodyOf? ks t k = nonempty? (split (ks.filter (· ≠ k)) o.after).head := by
  have hn := nextStart_first ha h 0
  rw [Nat.zero_add] at hn
  have hs := slice?_behind (o.before ++ o.matched) o.after 0
  simp only [Nat.zero_add] at hs
  rw [bodyOf?, h.find?_self ha, Option.bind_some, Occurrence.span, ← List.length_append, hn]
  conv => lhs; rw [← h.text_eq]
  rw [Occurrence.text, hs, split_eq]
  rfl

/-- The clauses of the other keywords are those of the rest of the text. -/
theorem bodyOf?_other (ha : Apart ks) (h : First ks t k o) (hl : l ∈ ks) (hne : l ≠ k) :
    bodyOf? ks t l = bodyOf? (ks.filter (· ≠ k)) o.after l := by
  rw [bodyOf?, h.find?_other ha hl hne, bodyOf?, Option.bind_map]
  refine congrArg (Option.bind _) (funext fun p => ?_)
  have hs : (p.behind (o.before ++ o.matched)).span.stop =
      p.span.stop + (o.before ++ o.matched).length := by
    simp only [Occurrence.span, Occurrence.behind, List.length_append]
    omega
  rw [Function.comp_apply, hs, nextStart_first ha h]
  conv => lhs; rw [← h.text_eq]
  rw [Occurrence.text, slice?_behind]

end Clauses

end SqlEdit
