import SqlEdit.Proofs.Statement.Chain
import SqlEdit.Proofs.Statement.Items

namespace SqlEdit.Table

open Nesting (Pieces Free)
open Text (Closed Solid SolidWords Countable)

def chainText (c : List Table) : Text :=
  Text.joinWords (chainWords c)

structure IsChain (c : List Table) : Prop where
  joined : ∃ t ts, c = t :: ts ∧ t.join = none ∧ ∀ u ∈ ts, u.isJoined
  tidies : Tidies c
  pieces : Pieces isSpace (chainWords c)
  ne_nil : ∀ w ∈ chainWords c, w ≠ []
  solid : Solid (chainText c)

structure AreChains (cs : List (List Table)) : Prop where
  ne_nil : cs ≠ []
  chains : ∀ c ∈ cs, IsChain c
  pieces : Pieces (· == ',') (cs.map chainText)

variable {c : List Table} {cs : List (List Table)} {g region : Text} {ts : List Table}

theorem chainWords_of_unjoined {t : Table} (h : t.join = none) (ts : List Table) :
    chainWords (t :: ts) = t.words ++ chainWords ts := by
  rw [chainWords_cons, operatorWords, h]
  rfl

theorem splitWords_chainText (h : IsChain c) : (chainText c).splitWords = chainWords c :=
  Text.splitWords_join h.pieces h.ne_nil

theorem isChain_of_readChain? (hg : Text.trim g = g) (h : readChain? none g.splitWords = some c) :
    IsChain c ∧ Condensed g.splitWords (chainWords c) ∧
      (g.splitWords.length ≤ (chainWords c).length → AliasesFit c) := by
  have hp := Text.pieces_splitWords g
  have hne : ∀ w ∈ g.splitWords, w ≠ [] := fun w hw => Text.ne_nil_of_mem_splitWords hw
  obtain ⟨t, ts, rfl, hj, hjs, ht, hh, hc, hf⟩ := condensed_of_readChain? hp hne (by simp) h
  rw [Option.map_eq_none_iff] at hj
  have hw := chainWords_of_unjoined hj ts
  have hs : Solid g := by
    refine Text.solid_iff.2 ⟨?_, hg⟩
    rintro rfl
    simp [Text.splitWords, Nesting.cut] at hh
  rw [← hw] at hc hf
  have hcn := hc.ne_nil hne
  refine ⟨⟨⟨t, ts, rfl, hj, hjs⟩, ht, hc.pieces (by decide) hp, hcn, ?_⟩, hc, hf⟩
  refine (Text.solid_joinWords_iff hcn).2 (hc.solidWords ?_ (Text.solidWords_splitWords hs))
  rw [hh, hw]
  rfl

theorem readChain?_chainWords (h : IsChain c) (hf : AliasesFit c) :
    readChain? none (chainWords c) = some c := by
  obtain ⟨t, ts, rfl, hj, hjs⟩ := h.joined
  have hr := readChain?_words hjs h.tidies hf
  rwa [hj, ← chainWords_of_unjoined hj] at hr

theorem renderJoined_eq {t : Table} (h : t.Tidy ts) : t.renderJoined = Text.joinWords t.words := by
  rw [renderJoined, words, render_eq]
  cases hc : t.constraint? with
  | none => simp
  | some c =>
      have hw := h.constraint c hc
      have ho : t.ownWords ≠ [] := List.cons_ne_nil _ _
      have hk : c.words ≠ [] := List.cons_ne_nil _ _
      rw [Option.elim_some, Text.joinWords_append ho, Text.flatMap_cons_space hk, Constraint.words,
        Text.joinWords_cons, Text.flatMap_cons_space hw.ne_nil, ← hw.text, ← Constraint.render_eq]

theorem link_joined {t : Table} (h : t.Tidy ts) (hj : t.isJoined) :
    t.link false ++ t.renderJoined = (t.operatorWords ++ t.words).flatMap (' ' :: ·) := by
  obtain ⟨j, hj⟩ := Option.isSome_iff_exists.1 hj
  obtain ⟨hw, ho⟩ := h.operator j hj
  have hne : t.words ≠ [] := List.cons_ne_nil _ _
  rw [link, hj, operatorWords, hj, Option.elim_some, List.flatMap_append,
    Text.flatMap_cons_space ho.ne_nil, ← hw, Text.flatMap_cons_space hne, renderJoined_eq h]
  simp

theorem flatMap_link_joined (ht : Tidies ts) (hj : ∀ t ∈ ts, t.isJoined) :
    (ts.flatMap fun u => u.link false ++ u.renderJoined) = (chainWords ts).flatMap (' ' :: ·) := by
  induction ts with
  | nil => rfl
  | cons t ts ih =>
      rw [List.flatMap_cons, link_joined ht.1 (hj t List.mem_cons_self),
        ih ht.2 fun u hu => hj u (List.mem_cons_of_mem _ hu), chainWords_cons]
      simp only [List.flatMap_append, List.append_assoc]

theorem renderJoined_chain (h : IsChain c) :
    ∃ t ts, c = t :: ts ∧ t.join = none ∧
      t.renderJoined ++ (ts.flatMap fun u => u.link false ++ u.renderJoined) = chainText c := by
  obtain ⟨t, ts, rfl, hj, hjs⟩ := h.joined
  have hne : t.words ≠ [] := List.cons_ne_nil _ _
  refine ⟨t, ts, rfl, hj, ?_⟩
  rw [renderJoined_eq h.tidies.1, flatMap_link_joined h.tidies.2 hjs, chainText,
    chainWords_of_unjoined hj, Text.joinWords_append hne]

theorem flatMap_link_flatten (h : ∀ c ∈ cs, IsChain c) :
    (cs.flatten.flatMap fun u => u.link false ++ u.renderJoined) =
      cs.flatMap fun c => ", ".toList ++ chainText c := by
  induction cs with
  | nil => rfl
  | cons c cs ih =>
      obtain ⟨t, ts, rfl, hj, he⟩ := renderJoined_chain (h c List.mem_cons_self)
      rw [List.flatten_cons, List.flatMap_append, ih fun d hd => h d (List.mem_cons_of_mem _ hd),
        List.flatMap_cons, List.flatMap_cons, ← he, link, hj]
      simp

theorem renderList_flatten (h : AreChains cs) :
    renderList cs.flatten = Text.commaList (cs.map chainText) := by
  obtain ⟨c, cs, rfl⟩ := List.exists_cons_of_ne_nil h.ne_nil
  obtain ⟨t, ts, rfl, hj, he⟩ := renderJoined_chain (h.chains c List.mem_cons_self)
  rw [List.flatten_cons, List.cons_append, renderList, link, hj, List.flatMap_append,
    flatMap_link_flatten fun d hd => h.chains d (List.mem_cons_of_mem _ hd), List.map_cons,
    Text.commaList, Text.join_cons, ← he, List.flatMap_map]
  simp

theorem solid_renderList (h : AreChains cs) : Solid (renderList cs.flatten) := by
  rw [renderList_flatten h]
  refine Text.solid_commaList (by simpa using h.ne_nil) fun t ht => ?_
  obtain ⟨c, hc, rfl⟩ := List.mem_map.1 ht
  exact (h.chains c hc).solid

theorem splitItems_renderList (h : AreChains cs) :
    (renderList cs.flatten).splitItems ',' = cs.map chainText := by
  rw [renderList_flatten h]
  refine Text.splitItems_commaList h.pieces (by simpa using h.ne_nil) fun t ht => ?_
  obtain ⟨c, hc, rfl⟩ := List.mem_map.1 ht
  exact (h.chains c hc).solid

theorem readList_eq_ok_iff :
    readList region = .ok ts ↔ region ≠ [] ∧ ∃ cs, ts = cs.flatten ∧
      List.Forall₂ (fun g c => readChain? none g.splitWords = some c) (region.splitItems ',') cs := by
  rw [readList]
  split
  · next h => simp [h]
  · next h =>
      rw [bind_eq_ok_iff]
      simp only [mapM_eq_ok_iff, h, pure, Except.pure, Except.ok.injEq, ne_eq, not_false_eq_true,
        true_and]
      constructor
      · rintro ⟨cs, hr, rfl⟩
        refine ⟨cs, rfl, hr.imp fun g c hc => ?_⟩
        cases hg : readChain? none g.splitWords with
        | none => simp [hg] at hc
        | some _ => simpa [hg] using hc
      · rintro ⟨cs, rfl, hr⟩
        exact ⟨cs, hr.imp fun g c hc => by simp [hc], rfl⟩

/-- No tables at all are an error of their own. Otherwise the first group that is no chain is
reported. -/
theorem readList_eq_error_iff {e : ParseError} :
    readList region = .error e ↔ region = [] ∧ e = .emptyTableList ∨
      region ≠ [] ∧ ∃ front g back, region.splitItems ',' = front ++ g :: back ∧
        (∀ f ∈ front, (readChain? none f.splitWords).isSome) ∧
        readChain? none g.splitWords = none ∧ e = .malformedTableList g := by
  rw [readList]
  split
  · next h => simp [h, @eq_comm _ e]
  · next h =>
      rw [bind_eq_error_iff, mapM_eq_error_iff]
      simp only [h, pure, Except.pure, reduceCtorEq, and_false, exists_false, or_false, false_and,
        false_or, ne_eq, not_false_eq_true, true_and]
      refine exists_congr fun front => exists_congr fun g => exists_congr fun back =>
        and_congr_right fun _ => and_congr (forall₂_congr fun f _ => ?_) ?_
      · cases readChain? none f.splitWords <;> rfl
      · cases readChain? none g.splitWords <;> simp [@eq_comm _ e]

theorem chainWords_append (ts us : List Table) : chainWords (ts ++ us) = chainWords ts ++ chainWords us :=
  List.flatMap_append

theorem chainWords_flatten (cs : List (List Table)) :
    chainWords cs.flatten = cs.flatMap chainWords := by
  induction cs with
  | nil => rfl
  | cons c cs ih => rw [List.flatten_cons, chainWords_append, ih, List.flatMap_cons]

/-- Chains one after another are told apart, as no chain begins with a join. -/
theorem each_flatten {P : Table → List Table → Prop}
    (hp : ∀ t ts us, nextJoined us = false → (P t (ts ++ us) ↔ P t ts))
    (h : ∀ c ∈ cs, ∃ t ts, c = t :: ts ∧ t.join = none ∧ ∀ u ∈ ts, u.isJoined) :
    Each P cs.flatten ↔ ∀ c ∈ cs, Each P c := by
  induction cs with
  | nil => simp [Each]
  | cons c cs ih =>
      have hcs := (List.forall_mem_cons.1 h).2
      have hn : nextJoined cs.flatten = false := by
        cases cs with
        | nil => rfl
        | cons d ds =>
            obtain ⟨t, ts, rfl, hj, -⟩ := hcs d List.mem_cons_self
            simp [nextJoined, isJoined, hj]
      rw [List.flatten_cons, each_append fun t ts => hp t ts _ hn, ih hcs, List.forall_mem_cons]

theorem aliasesFit_flatten (h : ∀ c ∈ cs, IsChain c) :
    AliasesFit cs.flatten ↔ ∀ c ∈ cs, AliasesFit c := by
  refine each_flatten (fun t ts us hn => ?_) fun c hc => (h c hc).joined
  rw [AliasFits, AliasFits, nextJoined_append hn]

/-- What is left of each chain and, if nothing was left out, that its aliases fit. -/
def IsRead (g : Text) (c : List Table) : Prop :=
  IsChain c ∧ Condensed g.splitWords (chainWords c) ∧
    (g.splitWords.length ≤ (chainWords c).length → AliasesFit c)

theorem IsRead.closed (h : IsRead g c) (hg : Closed g) : Closed (chainText c) :=
  Text.closed_joinWords (h.2.1.closed fun _ hw => Text.closed_of_mem_splitWords hg hw)

theorem IsRead.free (h : IsRead g c) (hg : Free (· == ',') .top g) :
    Free (· == ',') .top (chainText c) := by
  have hp : Pieces (· == ',') g.splitWords :=
    ⟨fun _ hw => Text.free_of_mem_splitWords hg hw, (Text.pieces_splitWords g).closed⟩
  exact Text.free_joinWords (by decide) (h.2.1.pieces (by decide) hp)

theorem condensed_of_isRead {gs : List Text} (h : List.Forall₂ IsRead gs cs) :
    Condensed (gs.flatMap Text.splitWords) (chainWords cs.flatten) := by
  induction h with
  | nil => exact .nil
  | cons hr _ ih =>
      rw [List.flatMap_cons, List.flatten_cons, chainWords_append]
      exact hr.2.1.append ih

theorem aliasesFit_of_isRead {gs : List Text} (h : List.Forall₂ IsRead gs cs)
    (hl : (gs.flatMap Text.splitWords).length ≤ (chainWords cs.flatten).length) :
    ∀ c ∈ cs, AliasesFit c := by
  induction h with
  | nil => simp
  | cons hr h ih =>
      have hg := hr.2.1.length_le
      have hgs := (condensed_of_isRead h).length_le
      rw [List.flatMap_cons, List.flatten_cons, chainWords_append, List.length_append,
        List.length_append] at hl
      exact List.forall_mem_cons.2 ⟨hr.2.2 (by omega), ih (by omega)⟩

theorem exists_of_readList (ht : Text.trim region = region) (h : readList region = .ok ts) :
    ∃ cs, ts = cs.flatten ∧ AreChains cs ∧ List.Forall₂ IsRead (region.splitItems ',') cs := by
  obtain ⟨hne, cs, rfl, hr⟩ := readList_eq_ok_iff.1 h
  have hg : ∀ g ∈ region.splitItems ',', Text.trim g = g := fun g hg => Text.trim_of_mem_splitItems hg
  have hi : List.Forall₂ IsRead (region.splitItems ',') cs :=
    ((List.forall₂_and_left _ _).2 ⟨hg, hr⟩).imp fun g c hgc => isChain_of_readChain? hgc.1 hgc.2
  have hp : Pieces (· == ',') (region.splitItems ',') :=
    Text.pieces_splitItems Text.isPlain_comma region
  refine ⟨cs, rfl, ⟨?_, fun c hc => ?_, hp.forall₂ ?_⟩, hi⟩
  · rintro rfl
    have hn := List.forall₂_nil_right_iff.1 hi
    rw [Text.splitItems, if_neg (Text.solid_iff.2 ⟨hne, ht⟩).not_isBlank, List.map_eq_nil_iff] at hn
    exact Nesting.cut_ne_nil _ _ _ hn
  · obtain ⟨g, -, hgc⟩ := exists_of_forall₂ hi hc
    exact hgc.1
  · exact List.forall₂_map_right_iff.2 (hi.imp fun g c hgc => ⟨hgc.free, hgc.closed⟩)

theorem closed_renderList (ht : Text.trim region = region) (hc : Closed region)
    (h : readList region = .ok ts) : Closed (renderList ts) := by
  obtain ⟨cs, rfl, hcs, hi⟩ := exists_of_readList ht h
  rw [renderList_flatten hcs]
  refine Text.closed_commaList fun t ht => ?_
  obtain ⟨c, hm, rfl⟩ := List.mem_map.1 ht
  obtain ⟨g, hg, hgc⟩ := exists_of_forall₂ hi hm
  exact hgc.closed (Text.closed_of_mem_splitItems hc hg)

theorem countP_renderList_le {p : Char → Bool} (hp : Countable p) (ht : Text.trim region = region)
    (h : readList region = .ok ts) : (renderList ts).countP p ≤ region.countP p := by
  obtain ⟨cs, rfl, hcs, hi⟩ := exists_of_readList ht h
  rw [renderList_flatten hcs, ← Text.countP_commaList_splitItems hp region]
  refine Text.countP_commaList_le (List.forall₂_map_right_iff.2 (hi.imp fun g c hgc => ?_))
  rw [chainText, Text.countP_joinWords hp, ← Text.sum_countP_splitWords hp g]
  exact hgc.2.1.sum_countP_le hp

/-- Chains are read back from their text exactly if the alias of each table fits. -/
theorem readList_renderList_iff (h : AreChains cs) :
    readList (renderList cs.flatten) = .ok cs.flatten ↔ AliasesFit cs.flatten := by
  have hi := splitItems_renderList h
  constructor
  · intro hr
    obtain ⟨ds, he, hds, hr⟩ := exists_of_readList (solid_renderList h).trim_eq hr
    have hw : (cs.map chainText).flatMap Text.splitWords = chainWords cs.flatten := by
      rw [chainWords_flatten, List.flatMap_map]
      exact List.flatMap_congr fun c hc => splitWords_chainText (h.chains c hc)
    rw [hi] at hr
    rw [he, aliasesFit_flatten hds.chains]
    exact aliasesFit_of_isRead hr (by rw [hw, he])
  · intro hf
    refine readList_eq_ok_iff.2 ⟨(solid_renderList h).ne_nil, cs, rfl, ?_⟩
    rw [hi, List.forall₂_map_left_iff, List.forall₂_same]
    intro c hc
    have hc' := h.chains c hc
    rw [splitWords_chainText hc', readChain?_chainWords hc' ((aliasesFit_flatten h.chains).1 hf c hc)]

end SqlEdit.Table
