import SqlEdit.Proofs.Statement.Skeleton
import SqlEdit.Proofs.Statement.Tables

namespace SqlEdit

open Nesting (Pieces Free)
open Text (Closed Solid SolidWords)

theorem forall₂_flatten {α β : Type} {R : α → β → Prop} {as : List (List α)} {bs : List β}
    (h : List.Forall₂ R as.flatten bs) :
    ∃ bss, bs = bss.flatten ∧ List.Forall₂ (List.Forall₂ R) as bss := by
  induction as generalizing bs with
  | nil =>
      obtain rfl := List.forall₂_nil_left_iff.1 h
      exact ⟨[], rfl, .nil⟩
  | cons a as ih =>
      have h := h.flip
      obtain ⟨bss, he, hb⟩ := ih (List.forall₂_drop_append _ _ _ h).flip
      refine ⟨bs.take a.length :: bss, ?_, .cons (List.forall₂_take_append _ _ _ h).flip hb⟩
      rw [List.flatten_cons, ← he, List.take_append_drop]

namespace Constraint

variable {c d : Constraint} {next : List Text}

theorem pieces_words (c : Constraint) : Pieces isSpace c.words := by
  have hk : ∀ k ∈ keywords, Free isSpace .top k ∧ Closed k := by decide
  obtain ⟨hf, hc⟩ := hk _ c.keyword_mem
  exact Nesting.pieces_cons.2 ⟨hf, fun _ => hc, Text.pieces_splitWords _⟩

theorem closed_words_iff (h : c.IsWritten next) : (∀ w ∈ c.words, Closed w) ↔ Closed c.text := by
  have hk : ∀ k ∈ keywords, Closed k := by decide
  rw [words, List.forall_mem_cons, and_iff_right (hk _ c.keyword_mem)]
  constructor
  · intro hw
    rw [h.text]
    exact Text.closed_joinWords hw
  · exact fun hc w hw => Text.closed_of_mem_splitWords hc hw

theorem skeleton_text (c : Constraint) : c.skeleton.text = c.text.skeleton := by
  cases c <;> rfl

theorem skeleton_render (c : Constraint) :
    c.render.skeleton = c.keyword.skeleton ++ ' ' :: c.skeleton.text := by
  rw [render_eq, skeleton_text, Text.skeleton_append]
  rfl

theorem keyword_skeleton (c : Constraint) : c.skeleton.keyword = c.keyword := by
  cases c <;> rfl

end Constraint

namespace Table

def Respelled (t u : Table) : Prop :=
  u.skeleton = t.skeleton

def IsClear (t : Table) (ts : List Table) : Prop :=
  ∀ c ∈ t.constraint?, c.IsWritten (nextWords ts) ∧
    (nextJoined ts = false → c.text.getLast?.any (!isBlank ·))

instance (t : Table) (ts : List Table) : Decidable (t.IsClear ts) :=
  inferInstanceAs (Decidable (∀ _ ∈ t.constraint?, _))

def AreClear (ts : List Table) : Prop :=
  Each IsClear ts

instance (ts : List Table) : Decidable (AreClear ts) :=
  inferInstanceAs (Decidable (Each IsClear ts))

namespace Respelled

variable {t u : Table}

theorem name_eq (h : Respelled t u) : u.name = t.name :=
  (Table.mk.inj h).1

theorem alias_eq (h : Respelled t u) : u.alias? = t.alias? :=
  (Table.mk.inj h).2.1

theorem ownWords_eq (h : Respelled t u) : u.ownWords = t.ownWords := by
  rw [ownWords, ownWords, h.name_eq, h.alias_eq]

theorem join_eq (h : Respelled t u) : u.join.map Join.skeleton = t.join.map Join.skeleton :=
  (Table.mk.inj h).2.2

theorem operator_eq (h : Respelled t u) :
    u.join.map (·.operator) = t.join.map (·.operator) := by
  have hj := congrArg (Option.map (·.operator)) h.join_eq
  rwa [Option.map_map, Option.map_map] at hj

theorem constraint_eq (h : Respelled t u) :
    (t.constraint? = none ∧ u.constraint? = none) ∨ ∃ c d, t.constraint? = some c ∧
      u.constraint? = some d ∧ d.skeleton = c.skeleton := by
  have hj := congrArg (fun j? => Option.bind j? Join.constraint) h.join_eq
  simp only [Option.bind_map] at hj
  have hc : u.constraint?.map Constraint.skeleton = t.constraint?.map Constraint.skeleton := by
    rw [constraint?, constraint?, Option.map_bind, Option.map_bind]
    exact hj
  cases ht : t.constraint? with
  | none =>
      rw [ht, Option.map_none, Option.map_eq_none_iff] at hc
      exact .inl ⟨rfl, hc⟩
  | some c =>
      rw [ht, Option.map_some, Option.map_eq_some_iff] at hc
      obtain ⟨d, hd, he⟩ := hc
      exact .inr ⟨c, d, rfl, hd, he⟩

theorem constraint_eq_none_iff (h : Respelled t u) :
    u.constraint? = none ↔ t.constraint? = none := by
  obtain ⟨ht, hu⟩ | ⟨c, d, ht, hu, -⟩ := h.constraint_eq
  · rw [ht, hu]
  · simp [ht, hu]

theorem isJoined_eq (h : Respelled t u) : u.isJoined = t.isJoined := by
  have hj := congrArg Option.isSome h.operator_eq
  rwa [Option.isSome_map, Option.isSome_map] at hj

theorem operatorWords_eq (h : Respelled t u) : u.operatorWords = t.operatorWords := by
  have hj := congrArg (Option.elim · [] Text.splitWords) h.operator_eq
  simp only [Option.elim_map] at hj
  exact hj

theorem link_eq (h : Respelled t u) (isFirst : Bool) : u.link isFirst = t.link isFirst := by
  have hj := h.operator_eq
  rw [link, link]
  cases hu : u.join <;> cases ht : t.join <;> simp_all

theorem skeleton_renderJoined (h : Respelled t u) :
    u.renderJoined.skeleton = t.renderJoined.skeleton := by
  have hr : u.render = t.render := by rw [render_eq, render_eq, h.ownWords_eq]
  rw [renderJoined, renderJoined, hr]
  obtain ⟨ht, hu⟩ | ⟨c, d, ht, hu, he⟩ := h.constraint_eq
  · rw [ht, hu]
  · have hc : Text.skeleton (' ' :: d.render) = Text.skeleton (' ' :: c.render) := by
      have hk : d.keyword = c.keyword := by
        rw [← d.keyword_skeleton, he, c.keyword_skeleton]
      rw [Text.skeleton_space, Text.skeleton_space, d.skeleton_render, c.skeleton_render, hk, he]
    rw [ht, hu]
    simp only [Text.skeleton_append, hc]

theorem tidy (h : Respelled t u) {ts us : List Table} (hj : nextJoined us = nextJoined ts)
    (ht : t.Tidy ts) (hu : u.IsClear us) : u.Tidy us := by
  refine ⟨?_, fun j hm => ?_, fun c hc => (hu c hc).1⟩
  · rw [h.name_eq, h.alias_eq, h.constraint_eq_none_iff, hj]
    exact ht.name
  · have ho : j.operator ∈ t.join.map (·.operator) := by
      rw [← h.operator_eq, hm]
      rfl
    obtain ⟨i, hi, he⟩ := Option.map_eq_some_iff.1 ho
    exact he ▸ ht.operator i hi

end Respelled

variable {t u : Table} {ts us : List Table}

theorem chainWords_ne_nil (hne : ts ≠ []) : chainWords ts ≠ [] := by
  obtain ⟨t, ts, rfl⟩ := List.exists_cons_of_ne_nil hne
  rw [chainWords_cons, words, ownWords]
  simp

theorem nextJoined_of_respelled (h : List.Forall₂ Respelled ts us) :
    nextJoined us = nextJoined ts := by
  cases h with
  | nil => rfl
  | cons h _ => exact h.isJoined_eq

theorem tidies_of_respelled (h : List.Forall₂ Respelled ts us) (ht : Tidies ts) (hu : AreClear us) :
    Tidies us := by
  induction h with
  | nil => trivial
  | cons h hs ih => exact ⟨h.tidy (nextJoined_of_respelled hs) ht.1 hu.1, ih ht.2 hu.2⟩

theorem aliasesFit_of_respelled (h : List.Forall₂ Respelled ts us) (ht : AliasesFit ts) :
    AliasesFit us := by
  induction h with
  | nil => trivial
  | cons h hs ih =>
      refine ⟨?_, ih ht.2⟩
      rw [AliasFits, h.alias_eq, h.constraint_eq_none_iff, nextJoined_of_respelled hs]
      exact ht.1

theorem chainWords_respelled_ne_nil (h : List.Forall₂ Respelled ts us) (hne : chainWords us ≠ []) :
    chainWords ts ≠ [] := by
  apply chainWords_ne_nil
  rintro rfl
  rw [List.forall₂_nil_left_iff.1 h] at hne
  exact hne rfl

/-- A respelled constraint leaves nothing open where the one before did not. -/
theorem pieces_words_append (h : Respelled t u) (ht : t.Tidy ts) (hu : u.IsClear us)
    (hne : chainWords us ≠ [] → chainWords ts ≠ [])
    (hp : Pieces isSpace (t.words ++ chainWords ts)) (hps : Pieces isSpace (chainWords us)) :
    Pieces isSpace (u.words ++ chainWords us) := by
  rw [words] at hp ⊢
  rw [h.ownWords_eq]
  obtain ⟨htc, huc⟩ | ⟨c, d, htc, huc, he⟩ := h.constraint_eq
  · rw [htc, Option.elim_none, List.append_nil, Nesting.pieces_append] at hp
    rw [huc, Option.elim_none, List.append_nil, Nesting.pieces_append]
    exact ⟨hp.1, hps, fun hus => hp.2.2 (hne hus)⟩
  · rw [htc, Option.elim_some, List.append_assoc, Nesting.pieces_append,
      Nesting.pieces_append] at hp
    rw [huc, Option.elim_some, List.append_assoc, Nesting.pieces_append, Nesting.pieces_append]
    have hs : d.text.skeleton = c.text.skeleton := by
      rw [← d.skeleton_text, he, c.skeleton_text]
    refine ⟨hp.1, ⟨d.pieces_words, hps, fun hus => ?_⟩, fun _ => hp.2.2 (List.cons_ne_nil _ _)⟩
    rw [Constraint.closed_words_iff (hu d huc).1, Text.closed_iff_of_skeleton hs,
      ← Constraint.closed_words_iff (ht.constraint c htc)]
    exact hp.2.1.2.2 (hne hus)

theorem pieces_chainWords (h : List.Forall₂ Respelled ts us) (ht : Tidies ts) (hu : AreClear us)
    (hp : Pieces isSpace (chainWords ts)) : Pieces isSpace (chainWords us) := by
  induction h with
  | nil => exact hp
  | @cons t u ts us h hs ih =>
      rw [chainWords_cons, Nesting.pieces_append] at hp ⊢
      have hps := (Nesting.pieces_append.1 hp.2.1).2.1
      rw [h.operatorWords_eq]
      refine ⟨hp.1, ?_, fun _ => hp.2.2 (List.cons_ne_nil _ _)⟩
      exact pieces_words_append h ht.1 hu.1 (chainWords_respelled_ne_nil hs) hp.2.1
        (ih ht.2 hu.2 hps)

theorem ne_nil_of_mem_chainWords (h : List.Forall₂ Respelled ts us)
    (hne : ∀ w ∈ chainWords ts, w ≠ []) : ∀ w ∈ chainWords us, w ≠ [] := by
  have hk : ∀ k ∈ Constraint.keywords, k ≠ [] := by decide
  induction h with
  | nil => exact hne
  | @cons t u ts us h hs ih =>
      simp only [chainWords_cons, words, List.forall_mem_append] at hne ⊢
      obtain ⟨ho, ⟨hw, -⟩, hts⟩ := hne
      refine ⟨h.operatorWords_eq ▸ ho, ⟨h.ownWords_eq ▸ hw, ?_⟩, ih hts⟩
      cases u.constraint? with
      | none => exact fun w hm => absurd hm List.not_mem_nil
      | some c =>
          refine List.forall_mem_cons.2 ⟨hk _ c.keyword_mem, fun w hm => ?_⟩
          exact Text.ne_nil_of_mem_splitWords hm

theorem head?_chainWords (h : List.Forall₂ Respelled ts us) :
    (chainWords us).head? = (chainWords ts).head? := by
  cases h with
  | nil => rfl
  | cons h _ =>
      rw [chainWords_cons, chainWords_cons, h.operatorWords_eq, words, words, h.ownWords_eq]
      simp [ownWords, List.head?_append]

theorem getLast?_chainWords_cons {t : Table} {ts : List Table} (hne : ts ≠ []) :
    (chainWords (t :: ts)).getLast? = (chainWords ts).getLast? := by
  rw [chainWords_cons, ← List.append_assoc, List.getLast?_append_of_ne_nil _ (chainWords_ne_nil hne)]

theorem getLast?_words {t : Table} {c : Constraint} {next : List Text} (hc : t.constraint? = some c)
    (hw : c.IsWritten next) :
    ((chainWords [t]).getLast?.bind List.getLast?) = c.text.getLast? := by
  have hl := Text.getLast?_joinWords fun w hm => Text.ne_nil_of_mem_splitWords (t := c.text) hm
  obtain ⟨v, vs, hv⟩ := List.exists_cons_of_ne_nil hw.ne_nil
  rw [← hw.text] at hl
  rw [hl, chainWords, List.flatMap_singleton, words, hc, Option.elim_some, Constraint.words, hv]
  simp [List.getLast?_append, List.getLast?_cons]

theorem last_chainWords (h : List.Forall₂ Respelled ts us) (hu : AreClear us)
    (hl : ((chainWords ts).getLast?.bind List.getLast?).any (!isBlank ·)) :
    ((chainWords us).getLast?.bind List.getLast?).any (!isBlank ·) := by
  induction h with
  | nil => exact hl
  | @cons t u ts us h hs ih =>
      cases hs with
      | nil =>
          obtain ⟨ht, hn⟩ | ⟨c, d, ht, hd, -⟩ := h.constraint_eq
          · rw [chainWords, List.flatMap_singleton, words, ht] at hl
            rwa [chainWords, List.flatMap_singleton, words, hn, h.operatorWords_eq, h.ownWords_eq]
          · obtain ⟨hw, hb⟩ := hu.1 d hd
            rw [getLast?_words hd hw]
            exact hb rfl
      | cons hv hvs =>
          rw [getLast?_chainWords_cons (List.cons_ne_nil _ _)] at hl ⊢
          exact ih hu.2 hl

variable {c d : List Table} {cs ds : List (List Table)}

theorem joined_of_respelled (h : List.Forall₂ Respelled c d)
    (hc : ∃ t ts, c = t :: ts ∧ t.join = none ∧ ∀ u ∈ ts, u.isJoined) :
    ∃ t ts, d = t :: ts ∧ t.join = none ∧ ∀ u ∈ ts, u.isJoined := by
  obtain ⟨t, ts, rfl, ht, hts⟩ := hc
  cases h with
  | @cons t u ts us h hs =>
      refine ⟨u, us, rfl, ?_, fun v hv => ?_⟩
      · have hj := h.operator_eq
        rwa [ht, Option.map_none, Option.map_eq_none_iff] at hj
      · obtain ⟨w, hw, hwv⟩ := exists_of_forall₂ hs hv
        rw [hwv.isJoined_eq]
        exact hts w hw

theorem isChain_of_respelled (h : List.Forall₂ Respelled c d) (hc : IsChain c) (hd : AreClear d) :
    IsChain d := by
  have hne := ne_nil_of_mem_chainWords h hc.ne_nil
  have hs := (Text.solid_joinWords_iff hc.ne_nil).1 hc.solid
  refine ⟨joined_of_respelled h hc.joined, tidies_of_respelled h hc.tidies hd,
    pieces_chainWords h hc.tidies hd hc.pieces, hne, (Text.solid_joinWords_iff hne).2 ⟨?_, ?_⟩⟩
  · rw [head?_chainWords h]
    exact hs.head
  · exact last_chainWords h hd hs.last

theorem skeleton_flatMap_link (h : List.Forall₂ Respelled ts us) :
    Text.skeleton (us.flatMap fun u => u.link false ++ u.renderJoined) =
      Text.skeleton (ts.flatMap fun t => t.link false ++ t.renderJoined) := by
  induction h with
  | nil => rfl
  | cons h _ ih =>
      simp only [List.flatMap_cons, Text.skeleton_append, h.link_eq, h.skeleton_renderJoined, ih]

theorem skeleton_renderList (h : List.Forall₂ Respelled ts us) :
    (renderList us).skeleton = (renderList ts).skeleton := by
  cases h with
  | nil => rfl
  | cons h hs =>
      simp only [renderList, Text.skeleton_append, h.link_eq, h.skeleton_renderJoined,
        skeleton_flatMap_link hs]

theorem chainText_eq_renderList (h : IsChain c) : chainText c = renderList c := by
  obtain ⟨t, ts, rfl, hj, he⟩ := renderJoined_chain h
  rw [← he, renderList, link, hj]
  rfl

theorem areChains_of_respelled (h : List.Forall₂ (List.Forall₂ Respelled) cs ds) (hc : AreChains cs)
    (hd : ∀ d ∈ ds, AreClear d) : AreChains ds := by
  have hds : ∀ d ∈ ds, IsChain d := by
    intro d hm
    obtain ⟨c, hcm, hcd⟩ := exists_of_forall₂ h hm
    exact isChain_of_respelled hcd (hc.chains c hcm) (hd d hm)
  refine ⟨?_, hds, hc.pieces.of_skeleton (by decide) ?_⟩
  · rintro rfl
    exact hc.ne_nil (List.forall₂_nil_right_iff.1 h)
  · have hcd := (List.forall₂_and_left cs ds).2 ⟨hc.chains, h⟩
    have hdc := (List.forall₂_and_left ds cs).2 ⟨hds, hcd.flip⟩
    rw [List.map_map, List.map_map, ← List.forall₂_eq_eq_eq, List.forall₂_map_left_iff,
      List.forall₂_map_right_iff]
    refine hdc.imp fun d c ⟨hd, hc, hr⟩ => ?_
    rw [Function.comp_apply, Function.comp_apply, chainText_eq_renderList hd,
      chainText_eq_renderList hc, skeleton_renderList hr]

theorem areClear_of_last (hj : ∀ t ∈ ts.tail, t.isJoined) (ht : Tidies ts)
    (hl : ((chainWords ts).getLast?.bind List.getLast?).any (!isBlank ·)) : AreClear ts := by
  induction ts with
  | nil => trivial
  | cons t ts ih =>
      cases ts with
      | nil =>
          refine ⟨fun c hc => ⟨ht.1.constraint c hc, fun _ => ?_⟩, trivial⟩
          rwa [getLast?_words hc (ht.1.constraint c hc)] at hl
      | cons u us =>
          rw [getLast?_chainWords_cons (List.cons_ne_nil _ _)] at hl
          refine ⟨fun c hc => ⟨ht.1.constraint c hc, fun hn => ?_⟩, ih ?_ ht.2 hl⟩
          · have hu := hj u List.mem_cons_self
            rw [nextJoined, List.head?_cons, Option.any_some, hu] at hn
            exact absurd hn.symm Bool.false_ne_true
          · exact fun v hv => hj v (List.mem_cons_of_mem _ hv)

theorem areClear_flatten (h : ∀ c ∈ cs, ∃ t ts, c = t :: ts ∧ t.join = none ∧ ∀ u ∈ ts, u.isJoined) :
    AreClear cs.flatten ↔ ∀ c ∈ cs, AreClear c := by
  refine each_flatten (fun t ts us hn => ?_) h
  rw [IsClear, IsClear, nextJoined_append hn, nextWords_append hn]

/-- Respelled tables are chains as they are read exactly if their constraints are clear. -/
theorem exists_areChains_iff (h : List.Forall₂ Respelled ts us)
    (ht : ∃ cs, ts = cs.flatten ∧ AreChains cs) :
    (∃ ds, us = ds.flatten ∧ AreChains ds) ↔ AreClear us := by
  constructor
  · rintro ⟨ds, rfl, hds⟩
    refine (areClear_flatten fun d hd => (hds.chains d hd).joined).2 fun d hd => ?_
    have hd := hds.chains d hd
    refine areClear_of_last ?_ hd.tidies ((Text.solid_joinWords_iff hd.ne_nil).1 hd.solid).last
    obtain ⟨t, ts, rfl, -, hj⟩ := hd.joined
    exact hj
  · intro hu
    obtain ⟨cs, rfl, hcs⟩ := ht
    obtain ⟨ds, rfl, hds⟩ := forall₂_flatten h
    refine ⟨ds, rfl, areChains_of_respelled hds hcs ((areClear_flatten fun d hd => ?_).1 hu)⟩
    obtain ⟨c, hc, hcd⟩ := exists_of_forall₂ hds hd
    exact joined_of_respelled hcd (hcs.chains c hc).joined

end Table

end SqlEdit
