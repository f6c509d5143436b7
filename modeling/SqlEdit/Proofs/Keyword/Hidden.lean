import SqlEdit.Proofs.Clauses.Pieces

namespace SqlEdit

open Nesting (Free)
open Text (Closed)

namespace Keyword

variable {ks ls : List Keyword} {s t : Text}

theorem Absent.subset (h : Absent ks t) (hs : ls ⊆ ks) : Absent ls t :=
  fun k hk => h k (hs hk)

theorem absent_of_free (ha : Apart ks) (h : Free Char.isAlpha .top t) : Absent ks t := by
  refine fun k hk => List.filterMap_eq_nil_iff.2 fun place hp => ?_
  obtain ⟨hp, htop⟩ := List.mem_filter.1 hp
  exact at?_eq_none (ha.lettered k hk) (Nesting.head?_of_free h place hp htop)

theorem absent_of_word (ha : Apart ks) (ht : t.all isWordChar)
    (hl : ∀ k ∈ ks, Text.lead? t ≠ k.lead?) : Absent ks t := by
  refine fun k hk => List.filterMap_eq_nil_iff.2 fun place hp => ?_
  have hp := (List.mem_filter.1 hp).1
  cases t with
  | nil => simp [sitesAfter] at hp
  | cons c t =>
      obtain ⟨hc, ht⟩ := Bool.and_eq_true_iff.1 ht
      rw [sitesAfter, List.mem_cons] at hp
      rcases hp with rfl | hp
      · exact at?_eq_none_of_lead? (ha.lettered k hk) (hl k hk)
      · have hb : [c].head?.any isWordChar := hc
        have hn := at?_eq_none_of_word (k := k) (r := []) hb ht place hp
        simpa [Site.extend] using hn

/-- The words of a keyword stand on one side of a mark. -/
theorem absent_append (ha : Apart ks) (hs : Closed s) (hb : Border s t)
    (ht : (t.dropWhile isSpace).head?.any Char.isAlpha = false) (h₁ : Absent ks s)
    (h₂ : Absent ks t) : Absent ks (s ++ t) := by
  intro k hk
  obtain ⟨w, ws, he, hw⟩ := of_isLettered (ha.lettered k hk)
  rw [occurrences_append (ha.lettered k hk) hs hb, h₁ k hk, h₂ k hk]
  · rfl
  · intro v hv
    rw [he, List.tail_cons] at hv
    obtain ⟨hne, hal⟩ := hw v (List.mem_cons_of_mem _ hv)
    exact Text.readWord?_eq_none hne hal ht

end Keyword

namespace Clauses

variable {ks : List Keyword} {front : Text} {cs : List (Keyword × Text)}

theorem placed_of_absent (h : Keyword.Absent ks front) (hf : Closed front)
    (hc : ∀ c ∈ cs, Keyword.Absent ks c.2 ∧ Closed c.2) : Placed ks front cs := by
  induction cs generalizing ks front with
  | nil => exact h
  | cons c cs ih =>
      obtain ⟨⟨hb, hbc⟩, hcs⟩ := List.forall_mem_cons.1 hc
      have hs := List.filter_subset_self (p := fun l => decide (l ≠ c.1)) ks
      exact ⟨h, hf, ih (hb.subset hs) hbc fun d hd => ⟨(hcs d hd).1.subset hs, (hcs d hd).2⟩⟩

end Clauses

end SqlEdit
