import Mathlib.Data.List.Infix
import SqlEdit.Proofs.Statement.Field
import SqlEdit.Proofs.Statement.Items
import SqlEdit.Proofs.Statement.Parse

namespace SqlEdit

open Nesting (Pieces Free)
open Text (Closed Solid Countable)
open Keyword (Apart Absent First)

theorem Text.exists_cut_space (t : Text) :
    ∃ s ss, Nesting.top.cut (· == ',') t = s :: ss ∧
      Nesting.top.cut (· == ',') (' ' :: t) = (' ' :: s) :: ss := by
  obtain ⟨s, ss, hs⟩ := List.exists_cons_of_ne_nil (Nesting.cut_ne_nil (· == ',') .top t)
  refine ⟨s, ss, hs, ?_⟩
  rw [Nesting.cut, if_neg (by decide)]
  exact congrArg (List.modifyHead (' ' :: ·)) hs

/-- A part of a list that ends early but has as many items, none of them blank, ends within the
last item. -/
theorem Text.length_last_of_prefix {u v : Text} {ts : List Text} (hp : Pieces (· == ',') ts)
    (he : u ++ v = commaList ts) (hl : (Nesting.top.cut (· == ',') u).length = ts.length)
    (hb : ∀ w ∈ Nesting.top.cut (· == ',') u, ¬ isBlank w) :
    ∃ w t, (Nesting.top.cut (· == ',') u).getLast? = some w ∧ ts.getLast? = some t ∧
      (trim w).length + v.length ≤ t.length := by
  induction ts generalizing u with
  | nil => exact (Nesting.cut_ne_nil _ _ _ (List.length_eq_zero_iff.1 hl)).elim
  | cons t ts ih =>
      obtain ⟨hf, hc, hp⟩ := Nesting.pieces_cons.1 hp
      cases ts with
      | nil =>
          rw [commaList_singleton] at he
          subst he
          have hu : Nesting.top.cut (· == ',') u = [u] := (Nesting.free_append.1 hf).1
          refine ⟨u, u ++ v, by rw [hu, List.getLast?_singleton], rfl, ?_⟩
          rw [List.length_append]
          exact Nat.add_le_add_right (length_trim_le u) _
      | cons t' ts =>
          have hc := hc (List.cons_ne_nil _ _)
          -- As many items as the list has cannot stand in front of its first comma.
          have hone : ¬ Free (· == ',') .top u := fun hu => by
            rw [(show Nesting.top.cut (· == ',') u = [u] from hu)] at hl
            cases hl
          rw [commaList_cons_cons] at he
          obtain ⟨a, rfl, -⟩ | ⟨r, rfl, hr⟩ := List.append_eq_append_iff.1 he
          · exact absurd (Nesting.free_append.1 hf).1 hone
          rcases r with _ | ⟨d, r⟩
          · exact absurd (by simpa using hf) hone
          obtain ⟨rfl, hr₁⟩ := List.cons.inj hr
          rw [Nesting.cut_append_separator hf hc (by rfl) isPlain_comma] at hl hb ⊢
          rcases r with _ | ⟨d, r⟩
          · exact absurd rfl (hb [] (by simp [Nesting.cut]))
          obtain ⟨rfl, hr₂⟩ := List.cons.inj hr₁
          obtain ⟨s, ss, hss, hs⟩ := exists_cut_space r
          rw [hs] at hl hb ⊢
          have hbs : ∀ w ∈ Nesting.top.cut (· == ',') r, ¬ isBlank w := by
            rw [hss]
            refine List.forall_mem_cons.2 ⟨fun h => hb (' ' :: s) (by simp) ?_, fun w hw => ?_⟩
            · exact isBlank_append.2 ⟨(by decide : isBlank [' ']), h⟩
            · exact hb w (by simp [hw])
          obtain ⟨w, t'', hw, ht, hle⟩ := ih hp hr₂.symm (by simpa [hss] using hl) hbs
          rw [hss] at hw
          rw [List.getLast?_cons_cons, List.getLast?_cons_cons]
          cases ss with
          | nil =>
              obtain rfl : s = w := Option.some.inj hw
              exact ⟨' ' :: s, t'', rfl, ht, by rwa [trim_space]⟩
          | cons s' ss =>
              rw [List.getLast?_cons_cons] at hw
              exact ⟨w, t'', by rwa [List.getLast?_cons_cons], ht, hle⟩

theorem forall₂_getLast? {α β : Type} {r : α → β → Prop} {as : List α} {bs : List β}
    (h : List.Forall₂ r as bs) {a : α} {b : β} (ha : as.getLast? = some a)
    (hb : bs.getLast? = some b) : r a b := by
  induction h with
  | nil => simp at ha
  | cons hr h ih =>
      cases h with
      | nil =>
          obtain rfl := Option.some.inj ha
          obtain rfl := Option.some.inj hb
          exact hr
      | cons hr' h => exact ih (by simpa using ha) (by simpa using hb)

theorem Keyword.strip?_commaList {k : Keyword} (hk : k.isLettered) (h₁ : k.words.tail = [])
    {t : Text} (ht : t ≠ []) (ts : List Text) :
    k.strip? (Text.commaList (t :: ts)) = none ↔ k.strip? t = none := by
  cases ts with
  | nil => rw [Text.commaList_singleton]
  | cons u us =>
      have hat := at?_extend hk (s := .front t) (t := ',' :: ' ' :: Text.commaList (u :: us)) ht
        (border_of_head rfl) (by simp [h₁])
      have he : Site.extend (',' :: ' ' :: Text.commaList (u :: us)) (.front t) =
          .front (Text.commaList (t :: u :: us)) := by
        rw [Text.commaList_cons_cons]
        rfl
      rw [strip?, strip?, ← he, hat]
      simp

namespace Select

variable {t : Text} {distinct : Bool} {fields : List Field}

def IsItems (distinct : Bool) (t items : Text) : Prop :=
  match distinct with
  | true => ∃ rest, Keyword.distinct.strip? t = some rest ∧ items = rest.trimStart
  | false => Keyword.distinct.strip? t = none ∧ items = t

theorem readProjection?_eq_some_iff :
    readProjection? t = some (distinct, fields) ↔ fields ≠ [] ∧ ∃ items,
      IsItems distinct t.trim items ∧
      List.Forall₂ (fun u f => Field.ofText? u = some f) (items.splitItems ',') fields := by
  simp only [readProjection?, ← mapM_eq_some_iff]
  cases hs : Keyword.distinct.strip? t.trim with
  | none =>
      simp only
      split <;> cases distinct <;> simp [IsItems, hs] <;> grind
  | some rest =>
      simp only
      split <;> cases distinct <;> simp [IsItems, hs] <;> grind

def projection (distinct : Bool) (fields : List Field) : Text :=
  (if distinct then "DISTINCT ".toList else []) ++ Text.commaList (fields.map Field.render)

theorem closed_of_isItems {items : Text} (hc : Closed t) (h : IsItems distinct t items) :
    Closed items := by
  cases distinct with
  | false => exact h.2 ▸ hc
  | true =>
      obtain ⟨rest, hs, rfl⟩ := h
      obtain ⟨matched, hr, -⟩ := Keyword.strip?_eq_some_iff_read?.1 hs
      obtain ⟨b, hb, he⟩ := Text.exists_eq_trimStart rest
      have hm := Keyword.closed_of_read? (by decide) hr
      rw [Keyword.eq_of_read? hr, hm.append_iff, he,
        (Text.closed_of_isBlank hb).append_iff] at hc
      exact hc

theorem countP_of_isItems {p : Char → Bool} (hp : Countable p) {items : Text}
    (h : IsItems distinct t items) : items.countP p ≤ t.countP p := by
  cases distinct with
  | false => exact h.2 ▸ Nat.le_refl _
  | true =>
      obtain ⟨rest, hs, rfl⟩ := h
      rw [Text.countP_trimStart hp]
      exact Keyword.countP_strip? hs

theorem solid_of_ofText? {u : Text} {f : Field} {items : Text} (hu : u ∈ items.splitItems ',')
    (h : Field.ofText? u = some f) : Solid u := by
  refine Text.solid_of_mem_splitItems hu ?_
  rintro rfl
  simp [Field.ofText?] at h

theorem shaped_of_readProjection? (hc : Closed t)
    (h : readProjection? t = some (distinct, fields)) : ∀ f ∈ fields, f.Shaped := by
  obtain ⟨-, items, hi, hr⟩ := readProjection?_eq_some_iff.1 h
  intro f hf
  obtain ⟨u, hu, huf⟩ := exists_of_forall₂ hr hf
  have hp := Text.pieces_splitItems Text.isPlain_comma items
  refine Field.shaped_of_ofText? (solid_of_ofText? hu huf) ?_ (hp.free u hu) huf
  exact Text.closed_of_mem_splitItems (closed_of_isItems (Text.closed_trim.2 hc) hi) hu

theorem countP_projection_le (h : readProjection? t = some (distinct, fields)) :
    (projection distinct fields).countP (· == ';') ≤ t.countP (· == ';') := by
  have hc := Text.countable_semicolon
  obtain ⟨-, items, hi, hr⟩ := readProjection?_eq_some_iff.1 h
  have hr : List.Forall₂ (fun u v => v.countP (· == ';') ≤ u.countP (· == ';'))
      (items.splitItems ',') (fields.map Field.render) := by
    have hu : ∀ u ∈ items.splitItems ',', u ∈ items.splitItems ',' := fun _ hu => hu
    refine List.forall₂_map_right_iff.2 (((List.forall₂_and_left _ _).2 ⟨hu, hr⟩).imp ?_)
    exact fun u f ⟨hu, huf⟩ => Field.countP_render_le (solid_of_ofText? hu huf) huf
  have hd : (if distinct then "DISTINCT ".toList else []).countP (· == ';') = 0 := by
    cases distinct <;> decide
  have hl := Text.countP_commaList_le hr
  have hi := countP_of_isItems hc hi
  rw [Text.countP_trim hc] at hi
  rw [Text.countP_commaList_splitItems hc] at hl
  rw [projection, List.countP_append, hd, Nat.zero_add]
  exact hl.trans hi

variable (hne : fields ≠ []) (hf : ∀ f ∈ fields, f.Shaped)

include hf in
theorem pieces_render : Pieces (· == ',') (fields.map Field.render) := by
  constructor
  · intro t ht
    obtain ⟨f, hm, rfl⟩ := List.mem_map.1 ht
    exact (hf f hm).comma
  · intro t ht
    obtain ⟨f, hm, rfl⟩ := List.mem_map.1 (List.mem_of_mem_dropLast ht)
    exact (hf f hm).closed_render

include hne hf in
theorem solid_list : Solid (Text.commaList (fields.map Field.render)) := by
  refine Text.solid_commaList (by simpa using hne) fun t ht => ?_
  obtain ⟨f, hm, rfl⟩ := List.mem_map.1 ht
  exact (hf f hm).solid_render

include hne hf in
theorem solid_projection (distinct : Bool) : Solid (projection distinct fields) := by
  have hl := solid_list hne hf
  have hd : Solid "DISTINCT".toList := ⟨by decide, by decide⟩
  cases distinct with
  | false => exact hl
  | true => exact hd.append hl [' ']

include hf in
theorem closed_projection (distinct : Bool) : Closed (projection distinct fields) := by
  refine Closed.append ?_ (Text.closed_commaList fun t ht => ?_)
  · cases distinct <;> decide
  · obtain ⟨f, hm, rfl⟩ := List.mem_map.1 ht
    exact (hf f hm).closed_render

include hne hf in
theorem isItems_projection_iff {items : Text} :
    IsItems distinct (projection distinct fields) items ↔
      items = Text.commaList (fields.map Field.render) ∧ (distinct = false →
        ∀ f ∈ fields.head?, Keyword.distinct.strip? f.render = none) := by
  cases distinct with
  | false =>
      obtain ⟨f, fs, rfl⟩ := List.exists_cons_of_ne_nil hne
      have hs := (hf f List.mem_cons_self).solid_render.ne_nil
      have hd := Keyword.strip?_commaList (k := .distinct) (by decide) rfl hs (fs.map Field.render)
      simp [IsItems, projection, hd, and_comm]
  | true =>
      have hs := Keyword.strip?_text (k := .distinct) (by decide)
        (Text.commaList (fields.map Field.render))
      have ht : Text.trimStart (' ' :: Text.commaList (fields.map Field.render)) =
          Text.commaList (fields.map Field.render) := by
        rw [Text.trimStart_space, (solid_list hne hf).trimStart_eq]
      have hp : projection true fields = Keyword.distinct.text ++
          ' ' :: Text.commaList (fields.map Field.render) := rfl
      simp [IsItems, hp, hs, ht]

include hne hf in
/-- A projection is read back from its text if each field is and no DISTINCT is added. -/
theorem readProjection?_iff (ht : t.trim = projection distinct fields) :
    readProjection? t = some (distinct, fields) ↔ (∀ f ∈ fields, f.HasPlainAlias) ∧
      (distinct = false → ∀ f ∈ fields.head?, Keyword.distinct.strip? f.render = none) := by
  have hi : (Text.commaList (fields.map Field.render)).splitItems ',' = fields.map Field.render := by
    refine Text.splitItems_commaList (pieces_render hf) (by simpa using hne) fun t ht => ?_
    obtain ⟨f, hm, rfl⟩ := List.mem_map.1 ht
    exact (hf f hm).solid_render
  have hr : List.Forall₂ (fun u f => Field.ofText? u = some f) (fields.map Field.render) fields ↔
      ∀ f ∈ fields, f.HasPlainAlias := by
    rw [List.forall₂_map_left_iff, List.forall₂_same]
    exact forall₂_congr fun f hm => Field.ofText?_render_iff (hf f hm)
  simp only [readProjection?_eq_some_iff, ht, isItems_projection_iff hne hf]
  constructor
  · rintro ⟨-, items, ⟨rfl, hd⟩, hrs⟩
    exact ⟨hr.1 (hi ▸ hrs), hd⟩
  · rintro ⟨hp, hd⟩
    exact ⟨hne, _, ⟨rfl, hd⟩, hi.symm ▸ hr.2 hp⟩

theorem exists_trim_append {u v front : Text} (hs : Solid front) (he : u ++ v = front) :
    ∃ b, Text.trim u ++ (b ++ v) = front := by
  cases u with
  | nil => exact ⟨[], he⟩
  | cons c u =>
      have hc : isBlank c = false := by
        have hh := hs.head
        rw [← he] at hh
        simpa using hh
      obtain ⟨b, -, hb⟩ := Text.exists_eq_trimEnd (c :: u)
      refine ⟨b, ?_⟩
      rw [Text.trim, Text.trimStart_cons hc, ← List.append_assoc, ← hb, he]

include hne hf in
theorem exists_items_append {u v items : Text} (he : u ++ v = projection distinct fields)
    (hi : IsItems distinct u items) (hn : items ≠ []) :
    items ++ v = Text.commaList (fields.map Field.render) := by
  cases distinct with
  | false =>
      obtain ⟨-, rfl⟩ := hi
      exact he
  | true =>
      obtain ⟨rest, hs, rfl⟩ := hi
      obtain ⟨matched, hr, -⟩ := Keyword.strip?_eq_some_iff_read?.1 hs
      have hl : matched.length = "DISTINCT".toList.length := Keyword.length_of_read? rfl hr
      have he : matched ++ (rest ++ v) =
          "DISTINCT".toList ++ ' ' :: Text.commaList (fields.map Field.render) := by
        rw [← List.append_assoc, ← Keyword.eq_of_read? hr, he]
        rfl
      obtain ⟨-, he⟩ := List.append_inj he hl
      rcases rest with _ | ⟨c, rest⟩
      · exact absurd rfl hn
      obtain ⟨rfl, he₁⟩ := List.cons.inj he
      rw [Text.trimStart_space] at hn ⊢
      rcases rest with _ | ⟨c, rest⟩
      · exact absurd rfl hn
      have hc : isBlank c = false := by
        have hh := (solid_list hne hf).head
        rw [← he₁] at hh
        simpa using hh
      rw [Text.trimStart_cons hc]
      exact he₁

include hne hf in
/-- With less than their text the same fields are not read. -/
theorem readProjection?_ne {u v : Text} (he : u ++ v = projection distinct fields)
    (hv : 4 ≤ v.length) : readProjection? u ≠ some (distinct, fields) := by
  intro h
  obtain ⟨-, items, hi, hr⟩ := readProjection?_eq_some_iff.1 h
  obtain ⟨b, he⟩ := exists_trim_append (solid_projection hne hf distinct) he
  have hb : ¬ Text.isBlank items := by
    intro hb
    rw [Text.splitItems, if_pos hb] at hr
    exact hne (List.forall₂_nil_left_iff.1 hr)
  have he := exists_items_append hne hf he hi (by rintro rfl; exact hb rfl)
  rw [Text.splitItems, if_neg hb, List.forall₂_map_left_iff] at hr
  have hw : ∀ w ∈ Nesting.top.cut (· == ',') items, ¬ Text.isBlank w := by
    intro w hw hb
    obtain ⟨f, -, hwf⟩ := exists_of_forall₂ hr.flip hw
    rw [Text.trim_eq_nil_iff.2 hb] at hwf
    simp [Field.ofText?] at hwf
  have hl : (Nesting.top.cut (· == ',') items).length = (fields.map Field.render).length := by
    rw [List.length_map]
    exact hr.length_eq
  obtain ⟨w, t, hwl, ht, hle⟩ := Text.length_last_of_prefix (pieces_render hf) he hl hw
  rw [List.getLast?_map] at ht
  obtain ⟨f, hfl, rfl⟩ := Option.map_eq_some_iff.1 ht
  have hwf := forall₂_getLast? hr hwl hfl
  have hs := Text.solid_trim (hw w (List.mem_of_getLast? hwl))
  have hle' := Field.length_render_le hs hwf
  rw [List.length_append] at hle
  omega

end Select

end SqlEdit
