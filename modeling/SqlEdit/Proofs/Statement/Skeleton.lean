import SqlEdit.Proofs.Identifier.Skeleton
import SqlEdit.Statement.Edit

namespace SqlEdit

open Identifier (IsToken)

namespace Field

def skeleton (f : Field) : Field :=
  ⟨f.expression.skeleton, (f.alias?.map Text.skeleton).filter (· ≠ [])⟩

theorem skeleton_convert (style : Style) (f : Field) : (f.convert style).skeleton = f.skeleton := by
  have he : (f.convert style).expression.skeleton = f.expression.skeleton := by
    rw [convert]
    split
    next h =>
      have ht := Identifier.isToken_of_isPlain h
      rw [Text.skeleton_of_isToken ht, Text.skeleton_of_isToken (ht.convert style)]
    next => exact Fragment.skeleton_convert style f.expression
  rw [skeleton, he]
  rfl

theorem skeleton_addAlias (f : Field) : f.addAlias.skeleton = f.skeleton := by
  rw [addAlias]
  split
  next h =>
    rw [Bool.and_eq_true, Option.isNone_iff_eq_none] at h
    have ht := (Identifier.isToken_of_isPlain h.2).isParts_lastSegment.toCamel.isToken
    simp only
    split
    · rfl
    · simp [skeleton, h.1, Text.skeleton_of_isToken ht]
  next => rfl

end Field

def Constraint.skeleton : Constraint → Constraint
  | onCondition condition => onCondition condition.skeleton
  | usingColumns columns => usingColumns columns.skeleton

theorem Constraint.skeleton_convert (style : Style) (c : Constraint) :
    (c.convert style).skeleton = c.skeleton := by
  cases c with
  | onCondition condition => exact congrArg onCondition (Fragment.skeleton_convert style condition)
  | usingColumns columns => exact congrArg usingColumns (Fragment.skeleton_convert style columns)

def Join.skeleton (j : Join) : Join :=
  { j with constraint := j.constraint.map Constraint.skeleton }

def Table.skeleton (t : Table) : Table :=
  { t with join := t.join.map Join.skeleton }

theorem Table.skeleton_convert (style : Style) (t : Table) :
    (t.convert style).skeleton = t.skeleton := by
  have hj (j : Join) : (j.convert style).skeleton = j.skeleton := by
    rw [Join.skeleton, Join.convert, Option.map_map]
    congr 1
    exact Option.map_congr fun c _ => Constraint.skeleton_convert style c
  rw [skeleton, convert, Option.map_map]
  congr 1
  exact Option.map_congr fun j _ => hj j

/-- A statement without identifiers. Two fields that are assigned to may have one skeleton. -/
inductive Skeleton where
  | select (s : Select)
  | insert (i : Insert)
  | update (table : Table) (entries : List (Text × Text)) (condition : Option Text)
  | delete (d : Delete)
  | degraded (d : Degraded)

def Select.skeleton (s : Select) : Select :=
  { s with
    fields := s.fields.map Field.skeleton
    tables := s.tables.map Table.skeleton
    condition := s.condition.map Text.skeleton
    groupBy := s.groupBy.map Text.skeleton
    having := s.having.map Text.skeleton
    orderBy := s.orderBy.map Text.skeleton }

def Insert.skeleton (i : Insert) : Insert :=
  { i with fields := i.fields.map Text.skeleton }

def Update.skeletonEntries (u : Update) : List (Text × Text) :=
  u.assignments.entries.map fun e => (e.1.skeleton, e.2)

def Delete.skeleton (d : Delete) : Delete :=
  { d with condition := d.condition.map Text.skeleton }

def Statement.skeleton : Statement → Skeleton
  | select s => .select s.skeleton
  | insert i => .insert i.skeleton
  | update u => .update u.table u.skeletonEntries (u.condition.map Text.skeleton)
  | delete d => .delete d.skeleton
  | degraded d => .degraded d

def Edit.isRespelling : Edit → Bool
  | convert _ | addAliases => true
  | renameTable .. | applyRenames _ | setCondition _ => false

theorem Fragment.map_skeleton_convert (style : Style) (t? : Option Text) :
    (t?.map (convert style)).map Text.skeleton = t?.map Text.skeleton := by
  rw [Option.map_map]
  exact Option.map_congr fun t _ => skeleton_convert style t

theorem Select.skeleton_convert (style : Style) (s : Select) :
    (s.convert style).skeleton = s.skeleton := by
  have hf : (s.fields.map (Field.convert style)).map Field.skeleton = s.fields.map Field.skeleton := by
    rw [List.map_map]
    exact List.map_congr_left fun f _ => Field.skeleton_convert style f
  have ht : (s.tables.map (Table.convert style)).map Table.skeleton = s.tables.map Table.skeleton := by
    rw [List.map_map]
    exact List.map_congr_left fun t _ => Table.skeleton_convert style t
  simp only [skeleton, convert, hf, ht, Fragment.map_skeleton_convert]

theorem Select.skeleton_addAliases (s : Select) : s.addAliases.skeleton = s.skeleton := by
  have hf : (s.fields.map Field.addAlias).map Field.skeleton = s.fields.map Field.skeleton := by
    rw [List.map_map]
    exact List.map_congr_left fun f _ => Field.skeleton_addAlias f
  simp only [skeleton, addAliases, hf]

theorem Update.skeletonEntries_convert (style : Style) (u : Update) :
    (u.convert style).value.skeletonEntries = u.skeletonEntries := by
  obtain h | h := u.entries_convert style
  · rw [skeletonEntries, h, List.map_map]
    exact List.map_congr_left fun e _ => congrArg (·, e.2) (Style.skeleton_convertName style e.1)
  · rw [skeletonEntries, h, skeletonEntries]

namespace Statement

theorem skeleton_convert (style : Style) (s : Statement) :
    (s.convert style).value.skeleton = s.skeleton := by
  cases s with
  | select s => exact congrArg Skeleton.select (s.skeleton_convert style)
  | insert i =>
      have hf : (i.fields.map style.convertName).map Text.skeleton = i.fields.map Text.skeleton := by
        rw [List.map_map]
        exact List.map_congr_left fun f _ => style.skeleton_convertName f
      simp only [convert, Logged.value_quiet, skeleton, Insert.skeleton, Insert.convert, hf]
  | update u =>
      rw [convert, Logged.value_map, skeleton, Update.skeletonEntries_convert, Update.table_convert,
        Update.condition_convert, Fragment.map_skeleton_convert, skeleton]
  | delete d =>
      simp only [convert, Logged.value_quiet, skeleton, Delete.skeleton, Delete.convert,
        Fragment.map_skeleton_convert]
  | degraded d => rfl

theorem skeleton_addAliases (s : Statement) : s.addAliases.skeleton = s.skeleton := by
  cases s with
  | select s => exact congrArg Skeleton.select s.skeleton_addAliases
  | insert _ | update _ | delete _ | degraded _ => rfl

end Statement

namespace Edit

variable {e : Edit} {es : List Edit}

theorem skeleton_apply (h : e.isRespelling) (s : Statement) : (e.apply s).skeleton = s.skeleton := by
  cases e with
  | convert style => exact s.skeleton_convert style
  | addAliases => exact s.skeleton_addAliases
  | renameTable _ _ | applyRenames _ | setCondition _ => exact absurd h Bool.false_ne_true

/-- Conversions and injections of aliases keep the skeleton of a statement. -/
theorem skeleton_applyAll (h : ∀ e ∈ es, e.isRespelling) (s : Statement) :
    (applyAll es s).skeleton = s.skeleton := by
  induction es generalizing s with
  | nil => rfl
  | cons e es ih =>
      obtain ⟨he, hes⟩ := List.forall_mem_cons.1 h
      exact (ih hes (e.apply s)).trans (skeleton_apply he s)

end Edit

end SqlEdit
