import Mathlib.Data.List.Forall2
import SqlEdit.Proofs.Identifier.Outline
import SqlEdit.Proofs.Nesting.Pieces
import SqlEdit.Statement.Parser
import SqlEdit.Statement.Render

namespace SqlEdit

open Text (Alike)

/-- Whether the pieces that differ from their counterparts begin outside literals. -/
def Nesting.ChangesOutside (n : Nesting) : List Text → List Text → Prop
  | s :: ss, t :: ts => (n.isQuoted → t = s) ∧ (n.after s).ChangesOutside ss ts
  | _, _ => True

instance Nesting.decidableChangesOutside :
    ∀ (n : Nesting) (ss ts : List Text), Decidable (n.ChangesOutside ss ts)
  | n, s :: ss, _ :: ts =>
    @instDecidableAnd _ _ inferInstance (decidableChangesOutside (n.after s) ss ts)
  | _, [], _ => inferInstanceAs (Decidable True)
  | _, _ :: _, [] => inferInstanceAs (Decidable True)

section Pieces

variable {n : Nesting} {s t : Text} {ps qs : List Text}

theorem Text.Alike.outline_eq (h : Alike s t) (hq : n.isQuoted → t = s) :
    n.outline t = n.outline s := by
  cases hn : n.isQuoted with
  | true => rw [hq hn]
  | false => exact h.outline n hn

theorem Nesting.outline_flatten (h : List.Forall₂ Alike ps qs) (ho : n.ChangesOutside ps qs) :
    n.outline qs.flatten = n.outline ps.flatten := by
  -- Alike pieces leave the same open, so both texts meet each piece in one nesting.
  induction h generalizing n with
  | nil => rfl
  | @cons s t ps qs hst _ ih =>
      rw [List.flatten_cons, List.flatten_cons, outline_append, outline_append,
        hst.outline_eq ho.1, hst.after]
      exact congrArg _ (ih ho.2)

theorem Text.forall₂_refl (ps : List Text) : List.Forall₂ Alike ps ps :=
  List.forall₂_same.2 fun _ _ => .rfl

theorem Text.forall₂_cons (s : Text) (h : List.Forall₂ Alike ps qs) :
    List.Forall₂ Alike (s :: ps) (s :: qs) :=
  .cons .rfl h

def Text.commaPieces : List (List Text) → List Text
  | [] => []
  | ps :: pss => ps ++ pss.flatMap (", ".toList :: ·)

theorem Text.flatten_commaPieces (pss : List (List Text)) :
    (commaPieces pss).flatten = commaList (pss.map List.flatten) := by
  cases pss with
  | nil => rfl
  | cons ps pss =>
      rw [commaPieces, List.flatten_append, List.flatMap_def, List.flatten_flatten,
        List.map_cons, commaList, join_cons, List.flatMap_def, List.map_map, List.map_map]
      rfl

theorem Text.forall₂_commaPieces {pss qss : List (List Text)}
    (h : List.Forall₂ (List.Forall₂ Alike) pss qss) :
    List.Forall₂ Alike (commaPieces pss) (commaPieces qss) := by
  cases h with
  | nil => exact .nil
  | cons hp hps => exact List.rel_append hp (List.rel_flatMap hps fun _ _ h => forall₂_cons _ h)

end Pieces

open Text (commaPieces forall₂_refl forall₂_cons forall₂_commaPieces flatten_commaPieces)

variable (style : Style)

def Field.pieces (f : Field) : List Text :=
  [f.expression, f.alias?.elim [] (" AS ".toList ++ ·)]

theorem Field.flatten_pieces (f : Field) : f.pieces.flatten = f.render := by
  rw [pieces, render]
  cases f.alias? <;> simp

theorem Field.forall₂_convert (f : Field) :
    List.Forall₂ Alike f.pieces (f.convert style).pieces :=
  .cons (alike_convert style f) (forall₂_refl _)

def Constraint.pieces : Constraint → List Text
  | onCondition condition => [" ON ".toList, condition]
  | usingColumns columns => [" USING ".toList, columns]

theorem Constraint.flatten_pieces (c : Constraint) : c.pieces.flatten = ' ' :: c.render := by
  have ho : " ON ".toList = ' ' :: "ON ".toList := by decide
  have hu : " USING ".toList = ' ' :: "USING ".toList := by decide
  have hf (s t : Text) : [s, t].flatten = s ++ t := by rw [List.flatten_cons, List.flatten_singleton]
  cases c with
  | onCondition condition => exact (hf _ _).trans (congrArg (· ++ condition) ho)
  | usingColumns columns => exact (hf _ _).trans (congrArg (· ++ columns) hu)

theorem Constraint.forall₂_convert (c : Constraint) :
    List.Forall₂ Alike c.pieces (c.convert style).pieces := by
  cases c <;> exact forall₂_cons _ (.cons (Fragment.alike_convert style _) .nil)

namespace Table

def pieces (isFirst : Bool) (t : Table) : List Text :=
  (t.link isFirst ++ t.render) :: t.constraint?.elim [] Constraint.pieces

theorem flatten_pieces (isFirst : Bool) (t : Table) :
    (t.pieces isFirst).flatten = t.link isFirst ++ t.renderJoined := by
  rw [pieces, List.flatten_cons, renderJoined]
  cases t.constraint? with
  | none => exact List.append_nil _
  | some c => rw [Option.elim_some, c.flatten_pieces]; exact List.append_assoc ..

theorem forall₂_convert (isFirst : Bool) (t : Table) :
    List.Forall₂ Alike (t.pieces isFirst) ((t.convert style).pieces isFirst) := by
  obtain ⟨name, a, _ | ⟨operator, _ | c⟩⟩ := t
  · exact forall₂_refl _
  · exact forall₂_refl _
  · exact forall₂_cons _ (c.forall₂_convert style)

def listPieces : List Table → List Text
  | [] => []
  | t :: ts => t.pieces true ++ ts.flatMap (pieces false)

theorem flatten_listPieces (ts : List Table) : (listPieces ts).flatten = renderList ts := by
  cases ts with
  | nil => rfl
  | cons t ts =>
      have ht : (ts.map (pieces false)).map List.flatten =
          ts.map fun u => u.link false ++ u.renderJoined := by
        rw [List.map_map]
        exact List.map_congr_left fun u _ => u.flatten_pieces false
      rw [listPieces, List.flatten_append, flatten_pieces, List.flatMap_def,
        List.flatten_flatten, ht, renderList, List.flatMap_def]

theorem forall₂_listPieces (ts : List Table) :
    List.Forall₂ Alike (listPieces ts) (listPieces (ts.map (convert style))) := by
  cases ts with
  | nil => exact .nil
  | cons t ts =>
      refine List.rel_append (t.forall₂_convert style true) ?_
      rw [List.flatMap_map]
      exact List.rel_flatMap (List.forall₂_same.2 fun _ _ => rfl)
        fun _ u (h : _ = u) => h ▸ forall₂_convert style false _

end Table

def Keyword.clausePieces (k : Keyword) (body : Option Text) : List Text :=
  body.elim [] fun b => [' ' :: k.text ++ [' '], b]

theorem Keyword.flatten_clausePieces (k : Keyword) (body : Option Text) :
    (k.clausePieces body).flatten = k.renderClause body := by
  cases body <;> simp [clausePieces, renderClause]

theorem Keyword.forall₂_clausePieces (k : Keyword) (body : Option Text) :
    List.Forall₂ Alike (k.clausePieces body)
      (k.clausePieces (body.map (Fragment.convert style))) := by
  cases body with
  | none => exact .nil
  | some b => exact forall₂_cons _ (.cons (Fragment.alike_convert style b) .nil)

def Select.pieces (s : Select) : List Text :=
  ("SELECT ".toList ++ if s.distinct then "DISTINCT ".toList else []) ::
    (commaPieces (s.fields.map Field.pieces) ++ " FROM ".toList ::
      (Table.listPieces s.tables ++ Keyword.condition.clausePieces s.condition ++
        Keyword.groupBy.clausePieces s.groupBy ++ Keyword.having.clausePieces s.having ++
        Keyword.orderBy.clausePieces s.orderBy ++ [Keyword.limit.renderClause s.limit]))

theorem Select.flatten_pieces (s : Select) : s.pieces.flatten = s.render := by
  have hf : s.fields.map (List.flatten ∘ Field.pieces) = s.fields.map Field.render :=
    List.map_congr_left fun f _ => f.flatten_pieces
  unfold pieces render clauses
  simp only [List.flatten_cons, List.flatten_append, flatten_commaPieces, List.map_map, hf,
    Table.flatten_listPieces, Keyword.flatten_clausePieces, List.flatMap_cons, List.flatMap_nil,
    List.flatten_nil, List.append_assoc]

theorem Select.forall₂_convert (s : Select) :
    List.Forall₂ Alike s.pieces (s.convert style).pieces := by
  have hf : List.Forall₂ (List.Forall₂ Alike) (s.fields.map Field.pieces)
      ((s.fields.map (Field.convert style)).map Field.pieces) := by
    rw [List.map_map, List.forall₂_map_left_iff, List.forall₂_map_right_iff]
    exact List.forall₂_same.2 fun f _ => f.forall₂_convert style
  rw [pieces, pieces, convert]
  refine forall₂_cons _ (List.rel_append (forall₂_commaPieces hf) (forall₂_cons _ ?_))
  refine List.rel_append ?_ (forall₂_refl _)
  refine List.rel_append ?_ (Keyword.forall₂_clausePieces ..)
  refine List.rel_append ?_ (Keyword.forall₂_clausePieces ..)
  refine List.rel_append ?_ (Keyword.forall₂_clausePieces ..)
  exact List.rel_append (Table.forall₂_listPieces ..) (Keyword.forall₂_clausePieces ..)

def Insert.pieces (i : Insert) : List Text :=
  ("INSERT INTO ".toList ++ i.table.render ++ " (".toList) ::
    (commaPieces (i.fields.map ([·])) ++
      [") VALUES (".toList ++ Text.commaList i.values ++ [')']])

theorem Insert.flatten_pieces (i : Insert) : i.pieces.flatten = i.render := by
  have hf : i.fields.map (List.flatten ∘ ([·])) = i.fields :=
    (List.map_congr_left fun f _ => List.append_nil f).trans (List.map_id _)
  unfold pieces render
  simp only [List.flatten_cons, List.flatten_append, flatten_commaPieces, List.map_map, hf,
    List.flatten_nil, List.append_nil, List.append_assoc]

theorem Insert.forall₂_convert (i : Insert) :
    List.Forall₂ Alike i.pieces (i.convert style).pieces := by
  have hf : List.Forall₂ (List.Forall₂ Alike) (i.fields.map ([·]))
      ((i.fields.map style.convertName).map ([·])) := by
    rw [List.map_map, List.forall₂_map_left_iff, List.forall₂_map_right_iff]
    exact List.forall₂_same.2 fun f _ => .cons (style.alike_convertName f) .nil
  rw [pieces, pieces, convert]
  exact forall₂_cons _ (List.rel_append (forall₂_commaPieces hf) (forall₂_refl _))

def Update.entryPieces (e : Text × Text) : List Text :=
  [e.1, " = ".toList ++ e.2]

def Update.pieces (u : Update) : List Text :=
  ("UPDATE ".toList ++ u.table.render ++ " SET ".toList) ::
    (commaPieces (u.assignments.entries.map entryPieces) ++
      Keyword.condition.clausePieces u.condition)

theorem Update.flatten_pieces (u : Update) : u.pieces.flatten = u.render := by
  have he : u.assignments.entries.map (List.flatten ∘ entryPieces) =
      u.assignments.entries.map fun e => e.1 ++ " = ".toList ++ e.2 :=
    List.map_congr_left fun e _ => by simp [entryPieces]
  rw [pieces, List.flatten_cons, List.flatten_append, flatten_commaPieces, List.map_map, he,
    Keyword.flatten_clausePieces, ← List.append_assoc]
  rfl

/-- The fields are converted one by one, or none of them is. -/
theorem Update.forall₂_entries (u : Update) :
    List.Forall₂ (fun d e => Alike d.1 e.1 ∧ e.2 = d.2) u.assignments.entries
      (u.convert style).value.assignments.entries := by
  obtain h | h := u.entries_convert style
  · rw [h, List.forall₂_map_right_iff]
    exact List.forall₂_same.2 fun e _ => ⟨style.alike_convertName e.1, rfl⟩
  · rw [h]
    exact List.forall₂_same.2 fun e _ => ⟨.rfl, rfl⟩

theorem Update.forall₂_convert (u : Update) :
    List.Forall₂ Alike u.pieces (u.convert style).value.pieces := by
  have he : List.Forall₂ (List.Forall₂ Alike) (u.assignments.entries.map entryPieces)
      ((u.convert style).value.assignments.entries.map entryPieces) := by
    rw [List.forall₂_map_left_iff, List.forall₂_map_right_iff]
    refine (u.forall₂_entries style).imp fun d e ⟨hk, hv⟩ => ?_
    rw [entryPieces, entryPieces, hv]
    exact .cons hk (forall₂_refl _)
  rw [pieces, pieces, table_convert, condition_convert]
  exact forall₂_cons _ (List.rel_append (forall₂_commaPieces he) (Keyword.forall₂_clausePieces ..))

def Delete.pieces (d : Delete) : List Text :=
  ("DELETE FROM ".toList ++ d.table.render) :: Keyword.condition.clausePieces d.condition

theorem Delete.flatten_pieces (d : Delete) : d.pieces.flatten = d.render := by
  unfold pieces render
  rw [List.flatten_cons]
  exact congrArg _ (Keyword.flatten_clausePieces ..)

theorem Delete.forall₂_convert (d : Delete) :
    List.Forall₂ Alike d.pieces (d.convert style).pieces := by
  rw [pieces, pieces, convert]
  exact forall₂_cons _ (Keyword.forall₂_clausePieces ..)

namespace Statement

/-- The pieces of a rendered statement: the texts that conversion may change, and what stands
between them. -/
def pieces : Statement → List Text
  | select s => s.pieces
  | insert i => i.pieces
  | update u => u.pieces
  | delete d => d.pieces
  | degraded d => [d.verbatim]

theorem flatten_pieces (s : Statement) : s.pieces.flatten = s.render := by
  cases s with
  | select s => exact s.flatten_pieces
  | insert i => exact i.flatten_pieces
  | update u => exact u.flatten_pieces
  | delete d => exact d.flatten_pieces
  | degraded d => exact List.append_nil _

theorem forall₂_convert (s : Statement) :
    List.Forall₂ Alike s.pieces (s.convert style).value.pieces := by
  cases s with
  | select s => exact s.forall₂_convert style
  | insert i => exact i.forall₂_convert style
  | update u => exact u.forall₂_convert style
  | delete d => exact d.forall₂_convert style
  | degraded d => exact forall₂_refl _

/-- Conversion changes no literal, no mark and no nesting in the text of a statement, however its
parentheses are balanced, if no text that it changes begins inside a literal. -/
theorem outline_render_convert (s : Statement)
    (h : Nesting.top.ChangesOutside s.pieces (s.convert style).value.pieces) :
    Nesting.top.outline (s.convert style).value.render = Nesting.top.outline s.render := by
  rw [← flatten_pieces, ← flatten_pieces]
  exact Nesting.outline_flatten (s.forall₂_convert style) h

theorem outline_render_convert_of_stray :
    let s := update ⟨.named "t(".toList none,
      ⟨[("a_b".toList, "c_d)".toList), ("(e_f".toList, "'g_h'".toList)], by decide⟩,
      some "i_j) = (k_l OR m_n = 'o_p".toList⟩
    (s.convert .camel).value.render =
        "UPDATE t( SET aB = c_d), (e_f = 'g_h' WHERE iJ) = (kL OR mN = 'o_p".toList ∧
      Nesting.top.outline (s.convert .camel).value.render = Nesting.top.outline s.render := by
  intro s
  have hp : Nesting.top.ChangesOutside s.pieces (s.convert .camel).value.pieces := by
    decide +kernel
  exact ⟨by decide +kernel, outline_render_convert .camel s hp⟩

/-- This condition leaves a literal open, and it is written in front of the other clause. -/
theorem outline_render_convert_ne_of_open :
    ∃ s, parse "SELECT a FROM t ORDER BY b_c WHERE d = 'e".toList = .ok s ∧
      Nesting.top.outline (s.convert .camel).value.render ≠ Nesting.top.outline s.render :=
  ⟨select ⟨false, [⟨"a".toList, none⟩], [.named "t".toList none], some "d = 'e".toList, none, none,
    some "b_c".toList, none⟩, by decide +kernel, by decide +kernel⟩

end Statement

end SqlEdit
