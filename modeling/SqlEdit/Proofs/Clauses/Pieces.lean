import SqlEdit.Proofs.Clauses.Reads
import SqlEdit.Proofs.Statement.Items

namespace SqlEdit

open Nesting (Pieces Free isPlain)
open Text (Closed Solid)

namespace Keyword

def areSingle (ks : List Keyword) : Bool :=
  ks.all (·.words.tail.isEmpty)

variable {ks : List Keyword} {s t : Text}

theorem absent_append_iff (ha : Apart ks) (h₁ : areSingle ks) (hs : Closed s) (hb : Border s t) :
    Absent ks (s ++ t) ↔ Absent ks s ∧ Absent ks t := by
  simp only [Absent, ← forall_and]
  refine forall₂_congr fun k hk => ?_
  have hw : k.words.tail = [] := by simpa using List.all_eq_true.1 h₁ k hk
  rw [occurrences_append (ha.lettered k hk) hs hb (by simp [hw])]
  simp

theorem absent_cons_iff (ha : Apart ks) {c : Char} (hc : isWordChar c = false) (hp : isPlain c) :
    Absent ks (c :: t) ↔ Absent ks t := by
  refine forall₂_congr fun k hk => ?_
  rw [← List.singleton_append, occurrences_marks_append (ha.lettered k hk) (by simp [hc])
    (Text.closed_of_isPlain (by simp [hp]))]
  exact List.map_eq_nil_iff

theorem absent_append_cons_iff (ha : Apart ks) (h₁ : areSingle ks) (hs : Closed s) {c : Char}
    (hc : isWordChar c = false) (hp : isPlain c) :
    Absent ks (s ++ c :: t) ↔ Absent ks s ∧ Absent ks t := by
  rw [absent_append_iff ha h₁ hs (border_of_head (by simp [hc])), absent_cons_iff ha hc hp]

theorem absent_of_mem_cut (ha : Apart ks) (h₁ : areSingle ks) {p : Char → Bool}
    (hp : ∀ c, p c → isPlain c ∧ isWordChar c = false) (h : Absent ks t) {u : Text}
    (hu : u ∈ Nesting.top.cut p t) : Absent ks u := by
  induction hl : Nesting.top.cut p t generalizing t with
  | nil => exact absurd hl (Nesting.cut_ne_nil p .top t)
  | cons s ss ih =>
      cases ss with
      | nil =>
          have ht := Nesting.eq_of_cut_singleton hl
          rw [hl, List.mem_singleton] at hu
          subst ht hu
          exact h
      | cons v vs =>
          obtain ⟨-, hc, c, r, hpc, rfl, hr⟩ :=
            Nesting.exists_of_cut_cons_cons (fun c hc => (hp c hc).1) hl
          rw [absent_append_cons_iff ha h₁ hc (hp c hpc).2 (hp c hpc).1] at h
          rw [hl] at hu
          rcases List.mem_cons.1 hu with rfl | hu
          · exact h.1
          · exact ih h.2 (hr ▸ hu) hr

/-- Texts that are joined by a mark, and something behind it that adds no keyword, hold none if
none of them does. -/
theorem absent_join_iff (ha : Apart ks) (h₁ : areSingle ks) {p : Char → Bool} {ts : List Text}
    (hts : Pieces p ts) {c : Char} (hc : isWordChar c = false) (hp : isPlain c) {gap : Text}
    (hg : ∀ t, Absent ks (gap ++ t) ↔ Absent ks t) :
    Absent ks (Text.join (c :: gap) ts) ↔ ∀ t ∈ ts, Absent ks t := by
  induction ts with
  | nil => exact iff_of_true (fun _ _ => rfl) (List.forall_mem_nil _)
  | cons t ts ih =>
      obtain ⟨-, ht, hts⟩ := Nesting.pieces_cons.1 hts
      rw [List.forall_mem_cons]
      cases ts with
      | nil => simp [Text.join]
      | cons u us =>
          rw [Text.join_cons_cons, List.append_assoc, List.cons_append,
            absent_append_cons_iff ha h₁ (ht (List.cons_ne_nil _ _)) hc hp, hg, ih hts]

theorem absent_commaList_iff (ha : Apart ks) (h₁ : areSingle ks) {ts : List Text}
    (hp : Pieces (· == ',') ts) : Absent ks (Text.commaList ts) ↔ ∀ t ∈ ts, Absent ks t :=
  absent_join_iff ha h₁ hp (by decide) (by decide) fun _ => absent_space_append ha

theorem absent_joinWords_iff (ha : Apart ks) (h₁ : areSingle ks) {ws : List Text}
    (hp : Pieces isSpace ws) : Absent ks (Text.joinWords ws) ↔ ∀ w ∈ ws, Absent ks w :=
  absent_join_iff ha h₁ hp (by decide) (by decide) fun _ => Iff.rfl

end Keyword

def Text.HasAsciiBlanks (t : Text) : Prop :=
  ∀ c ∈ t, SqlEdit.isBlank c → c.toNat < 128

instance (t : Text) : Decidable t.HasAsciiBlanks :=
  decidable_of_iff (t.all fun c => !isBlank c || c.toNat < 128) (by
    simp [Text.HasAsciiBlanks, ← Bool.not_eq_true, imp_iff_not_or])

theorem Text.HasAsciiBlanks.subset {s t : Text} (h : HasAsciiBlanks t) (hs : s ⊆ t) :
    HasAsciiBlanks s :=
  fun c hc => h c (hs hc)

/-- White space beyond ASCII would hide a keyword that it touches. -/
theorem isWordChar_of_isBlank {c : Char} (hb : isBlank c) (hc : c.toNat < 128) :
    isWordChar c = false :=
  of_ascii (p := fun c => isBlank c → isWordChar c = false) (by decide) hc hb

theorem isWordChar_of_isSpace {c : Char} (h : isSpace c) : isWordChar c = false := by
  simp only [isSpace, Bool.or_eq_true, beq_iff_eq] at h
  rcases h with (((rfl | rfl) | rfl) | rfl) | rfl <;> decide

namespace Keyword

variable {ks : List Keyword} {s t : Text}

theorem absent_trim (ha : Apart ks) (hb : t.HasAsciiBlanks) (h : Absent ks t) :
    Absent ks (Text.trim t) := by
  obtain ⟨a, b, hab, hbb, he⟩ := Text.exists_eq_trim t
  have hm {u : Text} (hu : Text.isBlank u) (hs : u ⊆ t) : u.all (!isWordChar ·) := by
    refine List.all_eq_true.2 fun c hc => ?_
    have hbc := List.all_eq_true.1 hu c hc
    simp [isWordChar_of_isBlank hbc (hb c (hs hc) hbc)]
  have hsa : a ⊆ t := by rw [he]; simp
  have hsb : b ⊆ t := by rw [he]; simp
  intro k hk
  have hk' := h k hk
  rw [he, occurrences_append_marks (ha.lettered k hk) (hm hbb hsb),
    occurrences_marks_append (ha.lettered k hk) (hm hab hsa) (Text.closed_of_isBlank hab)] at hk'
  simpa using hk'

theorem trim_subset (t : Text) : Text.trim t ⊆ t := by
  obtain ⟨a, b, -, -, he⟩ := Text.exists_eq_trim t
  conv => rhs; rw [he]
  simp

theorem absent_of_mem_splitWords (ha : Apart ks) (h₁ : areSingle ks) (h : Absent ks t) {w : Text}
    (hw : w ∈ t.splitWords) : Absent ks w := by
  exact absent_of_mem_cut ha h₁ (fun c hc => ⟨isPlain_of_isSpace hc, isWordChar_of_isSpace hc⟩) h
    (List.mem_filter.1 hw).1

theorem absent_of_mem_splitItems (ha : Apart ks) (h₁ : areSingle ks) (hb : t.HasAsciiBlanks)
    (h : Absent ks t) {u : Text} (hu : u ∈ t.splitItems ',') : Absent ks u := by
  obtain ⟨v, hv, rfl⟩ := Text.exists_of_mem_splitItems hu
  refine absent_trim ha (hb.subset (Nesting.subset_of_mem_cut hv)) ?_
  exact absent_of_mem_cut ha h₁ (forall_of_beq (by decide)) h hv

end Keyword

theorem Occurrence.before_subset (o : Occurrence) : o.before ⊆ o.text := by
  simp [text]

theorem Occurrence.after_subset (o : Occurrence) : o.after ⊆ o.text := by
  simp [text]

theorem Clauses.absent_head {ks : List Keyword} {t : Text} (ha : Keyword.Apart ks)
    (hb : t.HasAsciiBlanks) : Keyword.Absent ks (split ks t).head := by
  obtain h | ⟨k, o, h⟩ := Keyword.absent_or_exists_first ha t
  · rw [head_split_of_absent h]
    exact Keyword.absent_trim ha hb h
  · rw [head_split_of_first ha h]
    have hs : o.before ⊆ t := h.text_eq ▸ o.before_subset
    exact Keyword.absent_trim ha (hb.subset hs) h.absent

end SqlEdit
