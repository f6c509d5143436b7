import SqlEdit.Proofs.Identifier.Fragment
import SqlEdit.Proofs.Identifier.Plain
import SqlEdit.Proofs.Identifier.RoundTrip
import SqlEdit.Proofs.Sample.Parse
import SqlEdit.Statement.Edit

namespace SqlEdit

open Identifier (isPart isStart isPlain isReserved reservedWords IsParts)
open Nesting (Free)

theorem Style.convertName_of_isParts {name : Text} (hp : IsParts name)
    (hs : name.head?.any isStart) (style : Style) : style.convertName name = style.apply name := by
  rw [convertName, if_pos (Identifier.isPlain_of_isParts hp hs),
    convert_of_not_mem style hp.dot_not_mem]

theorem Field.convert_of_isPlain {name : Text} (h : isPlain name) (style : Style) :
    (⟨name, none⟩ : Field).convert style = ⟨style.convertName name, none⟩ := by
  rw [convert, Style.convertName, if_pos h, if_pos h]

namespace Sample

variable {i : Ident} {c : Cell} {t : Text} {row : List Cell} {filter : Option Cell}

section Names

variable (h : IsIdent i)

include h

theorem IsIdent.isAscii : Text.IsAscii i :=
  fun c hc => lt_of_isIdentChar c (List.all_eq_true.1 h.all c hc)

theorem IsIdent.toSnake_toCamel : Style.toSnake (Style.toCamel i) = i := by
  refine (Style.toSnake_toCamel_iff h.isAscii).2 ⟨fun c hc => ?_, .inr ⟨fun hn => ?_, fun w hw => ?_⟩⟩
  · have hp := of_nameChars (p := fun c => !c.isUpper) (by decide) (List.all_eq_true.1 h.all c hc)
    rwa [Bool.not_eq_true'] at hp
  · exact absurd (h [] (List.mem_of_head? hn)) Bool.false_ne_true
  · have hs := h w (List.mem_of_mem_tail hw)
    cases w with
    | nil => exact hs
    | cons c w => exact (Bool.and_eq_true_iff.1 hs).1

theorem IsIdent.isParts : IsParts i := by
  exact fun c hc => of_nameChars (by decide) (List.all_eq_true.1 h.all c hc)

end Names

def camelName (i : Ident) : Text :=
  Style.toCamel (columnName i)

theorem cut_columnName (i : Ident) :
    (columnName i).cut (· == '_') = ['c'] :: i.cut (· == '_') := rfl

theorem IsIdent.column (h : IsIdent i) : IsIdent (columnName i) := by
  rw [IsIdent, cut_columnName]
  exact List.forall_mem_cons.2 ⟨by decide, h⟩

theorem head?_camelName (i : Ident) : (camelName i).head?.any isStart := by
  change (Style.toCamel ('c' :: '_' :: i)).head?.any isStart
  rw [Style.toCamel_cons (by decide)]
  exact Style.head?_lower_append (by decide) _

theorem isReserved_columnName (i : Ident) : isReserved (columnName i) = false := by
  have hr : ∀ w ∈ reservedWords, (Text.foldCase w)[1]? ≠ some '_' := by decide +kernel
  rw [← Bool.not_eq_true]
  intro h
  obtain ⟨w, hw, hs⟩ := List.any_eq_true.1 h
  refine hr w hw ?_
  rw [← eq_of_beq hs]
  rfl

section Names

variable (h : IsIdent i)

include h

theorem isParts_camelName : IsParts (camelName i) :=
  h.column.isParts.toCamel

theorem convertName_camel : Style.camel.convertName (columnName i) = camelName i :=
  Style.convertName_of_isParts h.column.isParts rfl .camel

theorem convertName_snake : Style.snake.convertName (camelName i) = columnName i :=
  (Style.convertName_of_isParts (isParts_camelName h) (head?_camelName i) .snake).trans
    h.column.toSnake_toCamel

/-- The underscore behind the mark of a column is lost. -/
theorem camelName_ne : camelName i ≠ columnName i := by
  intro he
  have hm : '_' ∈ columnName i := List.mem_cons_of_mem 'c' List.mem_cons_self
  rw [← he] at hm
  exact Style.not_mem_toCamel h.column.isAscii hm

end Names

section Cells

variable (hc : IsIdent c.1)

include hc

theorem convert_camel :
    Fragment.convert .camel (renderEqual c) = camelName c.1 ++ " = ".toList ++ c.2.render := by
  have hv : Free Fragment.isOpening .top c.2.render := c.2.free_render (by decide) (by decide)
  have hn : (columnName c.1).head?.any isStart := rfl
  have he := Fragment.convert_equal .camel hn hc.column.isParts hv
  rw [isReserved_columnName, if_neg Bool.false_ne_true,
    Style.convert_of_not_mem _ hc.column.isParts.dot_not_mem] at he
  rw [renderEqual, List.append_assoc, List.append_assoc]
  exact he

theorem convert_snake :
    Fragment.convert .snake (camelName c.1 ++ " = ".toList ++ c.2.render) =
      (if isReserved (camelName c.1) then camelName c.1 else columnName c.1) ++ " = ".toList ++
        c.2.render := by
  have hv : Free Fragment.isOpening .top c.2.render := c.2.free_render (by decide) (by decide)
  have he := Fragment.convert_equal .snake (head?_camelName _) (isParts_camelName hc) hv
  rw [Style.convert_of_not_mem _ (isParts_camelName hc).dot_not_mem, Style.apply, camelName,
    hc.column.toSnake_toCamel] at he
  rw [List.append_assoc, List.append_assoc]
  exact he

end Cells

theorem convert_condition_iff (h : ∀ c ∈ filter, IsIdent c.1) :
    ((filter.map renderEqual).map (Fragment.convert .camel)).map (Fragment.convert .snake) =
        filter.map renderEqual ↔ ∀ c ∈ filter, isReserved (camelName c.1) = false := by
  cases filter with
  | none => simp
  | some c =>
      have hc := h c rfl
      rw [Option.map_some, Option.map_some, Option.map_some, convert_camel hc, convert_snake hc,
        renderEqual, Option.some.injEq, List.append_left_inj, List.append_left_inj]
      simp only [Option.mem_def, Option.some.injEq, forall_eq']
      cases isReserved (camelName c.1) with
      | true => simpa using camelName_ne hc
      | false => simp

namespace Query

open Edit (applyAll)

def camelEntries (row : List Cell) : List (Text × Text) :=
  row.map fun (i, v) => (camelName i, v.render)

theorem nodup_camelEntries (hi : ∀ i ∈ row.map Prod.fst, IsIdent i)
    (h : (row.map Prod.fst).Nodup) : ((camelEntries row).map Prod.fst).Nodup := by
  have hm : (camelEntries row).map Prod.fst = (row.map Prod.fst).map camelName := by
    simp [camelEntries, Function.comp_def]
  rw [hm]
  refine h.map_on fun i hi' j hj he => columnName_injective ?_
  rw [← convertName_snake (hi i hi'), ← convertName_snake (hi j hj), he]

theorem map_convertName {ks : List Ident} (h : ∀ i ∈ ks, IsIdent i) :
    ((ks.map columnName).map Style.camel.convertName).map Style.snake.convertName =
      ks.map columnName := by
  rw [List.map_map, List.map_map]
  refine List.map_congr_left fun i hi => ?_
  rw [Function.comp_apply, Function.comp_apply, convertName_camel (h i hi),
    convertName_snake (h i hi)]

theorem convert_deleteOf_iff (hf : ∀ c ∈ filter, IsIdent c.1) :
    ((deleteOf t filter).convert .camel).convert .snake = deleteOf t filter ↔
      ∀ c ∈ filter, isReserved (camelName c.1) = false := by
  rw [← convert_condition_iff hf, deleteOf, Delete.convert, Delete.convert, Delete.mk.injEq]
  exact and_iff_right rfl

theorem convert_insertOf (hi : ∀ i ∈ row.map Prod.fst, IsIdent i) :
    ((insertOf t row).convert .camel).convert .snake = insertOf t row := by
  have hm : (row.map fun (i, _) => columnName i) = (row.map Prod.fst).map columnName :=
    List.map_map.symm
  rw [insertOf, Insert.convert, Insert.convert, Insert.mk.injEq]
  exact ⟨rfl, by rw [hm, map_convertName hi], rfl⟩

theorem convert_updateOf_iff (hi : ∀ i ∈ row.map Prod.fst, IsIdent i)
    (hd : (row.map Prod.fst).Nodup) (hf : ∀ c ∈ filter, IsIdent c.1) :
    (((updateOf t row filter hd).convert .camel).value.convert .snake).value =
        updateOf t row filter hd ↔ ∀ c ∈ filter, isReserved (camelName c.1) = false := by
  have hr : ∀ c ∈ row, IsIdent c.1 := List.forall_mem_map.1 hi
  have h₁ : (updateOf t row filter hd).assignments.convert? .camel =
      some ⟨camelEntries row, nodup_camelEntries hi hd⟩ := by
    rw [Assignments.convert?_eq]
    refine Assignments.ofEntries?_eq_some_iff.2 (List.map_map.trans (List.map_congr_left fun c hc => ?_))
    exact Prod.ext (convertName_camel (hr c hc)) rfl
  have h₂ : Assignments.convert? .snake ⟨camelEntries row, nodup_camelEntries hi hd⟩ =
      some (updateOf t row filter hd).assignments := by
    rw [Assignments.convert?_eq]
    refine Assignments.ofEntries?_eq_some_iff.2 (List.map_map.trans (List.map_congr_left fun c hc => ?_))
    exact Prod.ext (convertName_snake (hr c hc)) rfl
  rw [← convert_condition_iff hf, Update.convert_of_some h₁, Logged.value_quiet,
    Update.convert_of_some h₂, Logged.value_quiet, updateOf,
    Update.mk.injEq]
  exact ⟨fun h => h.2.2, fun h => ⟨rfl, rfl, h⟩⟩

theorem convert_field (h : IsIdent i) :
    ((⟨columnName i, none⟩ : Field).convert .camel).convert .snake = ⟨columnName i, none⟩ := by
  have hp := Identifier.isPlain_of_isParts h.column.isParts rfl
  have hc := Identifier.isPlain_of_isParts (isParts_camelName h) (head?_camelName i)
  rw [Field.convert_of_isPlain hp, convertName_camel h, Field.convert_of_isPlain hc,
    convertName_snake h]

theorem convert_selectOf_iff {columns : List Ident} {limit : Option UInt8}
    (hi : ∀ i ∈ columns, IsIdent i) (hf : ∀ c ∈ filter, IsIdent c.1) :
    ((selectOf t columns filter limit).convert .camel).convert .snake =
        selectOf t columns filter limit ↔ ∀ c ∈ filter, isReserved (camelName c.1) = false := by
  have hfs : ((columns.map fun i => (⟨columnName i, none⟩ : Field)).map (Field.convert .camel)).map
      (Field.convert .snake) = columns.map fun i => ⟨columnName i, none⟩ := by
    rw [List.map_map, List.map_map]
    exact List.map_congr_left fun i hm => convert_field (hi i hm)
  rw [← convert_condition_iff hf, selectOf, Select.convert, Select.convert, Select.mk.injEq]
  exact ⟨fun h => h.2.2.2.1, fun h => ⟨rfl, hfs, rfl, h, rfl, rfl, rfl, rfl⟩⟩

/-- Camel case and back restores a sample query exactly if the name in its condition is no reserved
word in camel case. -/
theorem applyAll_camel_snake_iff (q : Query) (h : q.WellFormed) :
    applyAll [.convert .camel, .convert .snake] (q.statement h) = q.statement h ↔
      ∀ c ∈ q.filter?, isReserved (camelName c.1) = false := by
  cases q with
  | select t columns filter limit =>
      exact Statement.select.injEq .. ▸ convert_selectOf_iff h.mentioned h.filter
  | insert t row =>
      refine iff_of_true ?_ nofun
      exact congrArg Statement.insert (convert_insertOf h.mentioned)
  | update t row filter =>
      exact Statement.update.injEq .. ▸ convert_updateOf_iff h.mentioned h.filled.2 h.filter
  | delete t filter =>
      exact Statement.delete.injEq .. ▸ convert_deleteOf_iff h.filter

end Query

end Sample

end SqlEdit
