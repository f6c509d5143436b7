import SqlEdit.Proofs.Nesting.Group
import SqlEdit.Proofs.Statement.Items
import SqlEdit.Proofs.Statement.Parse

namespace SqlEdit

open Nesting (Pieces Free isPlain)
open Text (Closed Solid)

namespace Insert

structure IsList (ts : List Text) : Prop where
  ne_nil : ts ≠ []
  solid : ∀ t ∈ ts, Solid t
  closed : ∀ t ∈ ts, Closed t
  comma : ∀ t ∈ ts, Free (· == ',') .top t
  parenthesis : ∀ t ∈ ts, Free (· == ')') .top t

structure Shaped (i : Insert) : Prop where
  table : i.table = .named i.table.name none
  name : i.table.name ≠ [] ∧ i.table.name.all isNameChar
  fields : IsList i.fields
  values : IsList i.values
  length : i.fields.length = i.values.length

theorem isList_of_readItems? {t : Text} {ts : List Text} (hc : Closed t)
    (hf : Free (· == ')') .top t) (h : readItems? t = some ts) : IsList ts := by
  rw [readItems?] at h
  split at h
  · simp at h
  next hne =>
    rw [not_or] at hne
    obtain rfl := Option.some.inj h
    have hp : ∀ c, (c == ',') = true → isPlain c = true := forall_of_beq Text.isPlain_comma
    refine ⟨hne.1, fun u hu => ?_, fun u hu => Text.closed_of_mem_splitItems hc hu, fun u hu => ?_,
      fun u hu => ?_⟩
    · exact Text.solid_of_mem_splitItems hu fun hn => hne.2 (hn ▸ hu)
    · exact (Text.pieces_splitItems Text.isPlain_comma t).free u hu
    · obtain ⟨v, hv, rfl⟩ := Text.exists_of_mem_splitItems hu
      exact (Nesting.free_trim (forall_of_beq (by decide))).2 ((Nesting.of_mem_cut hp hv).1 hf)

theorem readItems?_commaList {ts : List Text} (h : IsList ts) :
    readItems? (Text.commaList ts) = some ts := by
  have hp : Pieces (· == ',') ts := ⟨h.comma, fun t ht => h.closed t (List.dropLast_subset _ ht)⟩
  rw [readItems?, Text.splitItems_commaList hp h.ne_nil h.solid, if_neg]
  rintro (hn | hn)
  · exact h.ne_nil hn
  · exact (h.solid [] hn).ne_nil rfl

theorem takeGroup?_commaList {ts : List Text} (h : IsList ts) (rest : Text) :
    Text.takeGroup? ('(' :: (Text.commaList ts ++ ')' :: rest)) =
      some (Text.commaList ts, rest) := by
  have hp : Pieces (· == ')') ts :=
    ⟨h.parenthesis, fun t ht => h.closed t (List.dropLast_subset _ ht)⟩
  refine Text.takeGroup?_eq_some_iff.2 ⟨rfl, Text.balanced_iff.2 ⟨?_, Text.closed_commaList h.closed⟩⟩
  exact Text.free_commaList (by decide) (by decide) hp

theorem isList_of_takeGroup? {t inside rest : Text} {ts : List Text}
    (hg : Text.takeGroup? t = some (inside, rest)) (h : readItems? inside = some ts) : IsList ts := by
  obtain ⟨hf, hc⟩ := Text.balanced_iff.1 (Text.takeGroup?_eq_some_iff.1 hg).2
  exact isList_of_readItems? hc hf h

/-- An INSERT that is read is INTO, a name, a group, VALUES and another group. -/
theorem exists_of_read? {t : Text} {i : Insert} (h : read? t = some i) :
    ∃ t₁ fields t₂ t₃ values t₄, Keyword.intoTable.strip? t.trimStart = some t₁ ∧
      i.table = .named (t₁.trimStart.takeWhile isNameChar) none ∧
      Text.takeGroup? (Text.trimStart (t₁.trimStart.dropWhile isNameChar)) = some (fields, t₂) ∧
      Keyword.values.strip? t₂.trimStart = some t₃ ∧
      Text.takeGroup? t₃.trimStart = some (values, t₄) ∧
      readItems? fields = some i.fields ∧ readItems? values = some i.values ∧
      i.table.name ≠ [] ∧ t₄.isBlank ∧ i.fields.length = i.values.length := by
  simp only [read?, List.span_eq_takeWhile_dropWhile] at h
  obtain ⟨t₁, h₁, h⟩ := Option.bind_eq_some_iff.1 h
  obtain ⟨⟨fields, t₂⟩, hf, h⟩ := Option.bind_eq_some_iff.1 h
  obtain ⟨t₃, h₃, h⟩ := Option.bind_eq_some_iff.1 h
  obtain ⟨⟨values, t₄⟩, hv, h⟩ := Option.bind_eq_some_iff.1 h
  obtain ⟨fs, hfs, h⟩ := Option.bind_eq_some_iff.1 h
  obtain ⟨vs, hvs, h⟩ := Option.bind_eq_some_iff.1 h
  split at h
  next hc =>
    obtain rfl := Option.some.inj h
    exact ⟨t₁, fields, t₂, t₃, values, t₄, h₁, rfl, hf, h₃, hv, hfs, hvs, hc⟩
  next => simp at h

theorem shaped_of_read? {t : Text} {i : Insert} (h : read? t = some i) : i.Shaped := by
  obtain ⟨t₁, fields, t₂, t₃, values, t₄, -, ht, hf, -, hv, hfs, hvs, hn, -, hl⟩ :=
    exists_of_read? h
  refine ⟨by rw [ht]; rfl, ⟨hn, ?_⟩, isList_of_takeGroup? hf hfs, isList_of_takeGroup? hv hvs, hl⟩
  rw [ht]
  exact List.all_takeWhile

theorem render_eq (i : Insert) (h : i.Shaped) :
    i.render = Keyword.insert.text ++ ' ' :: (Keyword.intoTable.text ++ ' ' :: (i.table.name ++
      ' ' :: '(' :: (Text.commaList i.fields ++ ')' :: ' ' :: (Keyword.values.text ++ ' ' :: '(' ::
        (Text.commaList i.values ++ [')']))))) := by
  have hi : "INSERT INTO ".toList =
      Keyword.insert.text ++ ' ' :: (Keyword.intoTable.text ++ [' ']) := by decide
  have hv : ") VALUES (".toList = ')' :: ' ' :: Keyword.values.text ++ [' ', '('] := by decide
  have ht : i.table.render = i.table.name := by
    rw [h.table]
    rfl
  unfold render
  rw [hi, hv, ht]
  simp

theorem read?_render {i : Insert} (h : i.Shaped) :
    read? (' ' :: (Keyword.intoTable.text ++ ' ' :: (i.table.name ++
      ' ' :: '(' :: (Text.commaList i.fields ++ ')' :: ' ' :: (Keyword.values.text ++ ' ' :: '(' ::
        (Text.commaList i.values ++ [')'])))))) = some i := by
  have hvalues : Keyword.values.isLettered := by decide
  have hp : isBlank '(' = false := by decide
  have hname (t : Text) : Text.trimStart (i.table.name ++ t) = i.table.name ++ t := by
    obtain ⟨c, u, hcu⟩ := List.exists_cons_of_ne_nil h.name.1
    have hc : isBlank c = false := by
      have hc := List.all_eq_true.1 h.name.2 c (by simp [hcu])
      simp only [isNameChar, Bool.and_eq_true, Bool.not_eq_true'] at hc
      exact hc.1
    rw [hcu, List.cons_append, Text.trimStart_cons hc]
  have hspan (t : Text) : (i.table.name ++ ' ' :: t).span isNameChar = (i.table.name, ' ' :: t) := by
    have hn := List.all_eq_true.1 h.name.2
    have hs : isNameChar ' ' = false := by decide
    rw [List.span_eq_takeWhile_dropWhile, List.takeWhile_append_of_pos hn,
      List.dropWhile_append_of_pos hn]
    simp [hs]
  rw [read?, Keyword.strip?_trimStart_text (by decide)]
  simp only [Option.bind_eq_bind, Option.bind_some, Text.trimStart_space, hname, hspan,
    Text.trimStart_cons hp, takeGroup?_commaList h.fields]
  rw [← Text.trimStart_space, Keyword.strip?_trimStart_text hvalues]
  simp only [Option.bind_some, Text.trimStart_space, Text.trimStart_cons hp,
    takeGroup?_commaList h.values, readItems?_commaList h.fields, readItems?_commaList h.values]
  rw [if_pos ⟨h.name.1, rfl, h.length⟩, ← h.table]

theorem parse_render_of_shaped {i : Insert} (h : i.Shaped) :
    Statement.parse i.render = .ok (.insert i) := by
  have hs : Solid i.render := by
    have hk : Solid Keyword.insert.text := ⟨by decide, by decide⟩
    have hp : Solid [')'] := ⟨by decide, by decide⟩
    have hs := hk.append hp (' ' :: (Keyword.intoTable.text ++ ' ' :: (i.table.name ++
      ' ' :: '(' :: (Text.commaList i.fields ++ ')' :: ' ' :: (Keyword.values.text ++ ' ' :: '(' ::
        (Text.commaList i.values))))))
    rw [render_eq i h]
    simpa using hs
  have hl : i.render.getLast? ≠ some ';' := by
    unfold render
    rw [List.getLast?_concat]
    decide
  rw [render_eq i h] at hs hl ⊢
  exact (Statement.parse_iff_readBody .insert hs hl rfl).2
    (Statement.readBody_insert_iff.2 ⟨rfl, read?_render h⟩)

end Insert

end SqlEdit
