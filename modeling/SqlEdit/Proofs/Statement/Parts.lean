import Mathlib.Data.Option.Basic
import SqlEdit.Proofs.Stability
import SqlEdit.Statement.Edit

namespace SqlEdit

open List (Forall₂)

def Join.IsRun (j : Join) : Prop :=
  ∃ ws w, j.operator = Text.joinWords (ws ++ [w]) ∧ (∀ v ∈ ws, isModifier v) ∧ isJoin w

/-- A SELECT has fields and tables, its first table joins no other, and the others join by runs of
words if they do. -/
structure Select.HasParts (s : Select) : Prop where
  fields : s.fields ≠ []
  tables : s.tables ≠ []
  first : ∀ t ∈ s.tables.head?, t.join = none
  joins : ∀ t ∈ s.tables, ∀ j ∈ t.join, j.IsRun

structure Insert.HasParts (i : Insert) : Prop where
  fields : i.fields ≠ []
  length : i.fields.length = i.values.length

structure Update.HasParts (u : Update) : Prop where
  assignments : u.assignments.entries ≠ []
  keys : u.assignments.keys.Nodup

def Statement.HasParts : Statement → Prop
  | select s => s.HasParts
  | insert i => i.HasParts
  | update u => u.HasParts
  | delete _ | degraded _ => True

theorem Join.exists_of_isOperator {ws : List Text} (h : IsOperator ws) :
    ∃ vs w, ws = vs ++ [w] ∧ (∀ v ∈ vs, isModifier v) ∧ isJoin w := by
  induction ws with
  | nil => exact absurd rfl h.ne_nil
  | cons w ws ih =>
      obtain ⟨hj, he, -⟩ | ⟨-, hm, more, ho, he⟩ := splitOperator?_cons_eq_some_iff.1 h
      · exact ⟨[], w, he, List.forall_mem_nil _, hj⟩
      · obtain rfl := List.cons_inj_right w |>.1 he
        obtain ⟨vs, v, rfl, hvs, hv⟩ := ih ho
        exact ⟨w :: vs, v, rfl, List.forall_mem_cons.2 ⟨hm, hvs⟩, hv⟩

theorem Join.isRun_of_isWrittenOperator {j : Join} (h : Table.IsWrittenOperator j.operator) :
    j.IsRun := by
  obtain ⟨he, ho⟩ := h
  obtain ⟨ws, w, hw, hm, hj⟩ := exists_of_isOperator ho
  exact ⟨ws, w, hw ▸ he, hm, hj⟩

namespace Table

variable {ts : List Table} {cs : List (List Table)}

theorem isRun_of_tidies (h : Tidies ts) : ∀ t ∈ ts, ∀ j ∈ t.join, j.IsRun := by
  induction ts with
  | nil => simp
  | cons t ts ih =>
      exact List.forall_mem_cons.2
        ⟨fun j hj => Join.isRun_of_isWrittenOperator (h.1.operator j hj), ih h.2⟩

theorem AreChains.flatten_ne_nil (h : AreChains cs) : cs.flatten ≠ [] := by
  obtain ⟨c, cs, rfl⟩ := List.exists_cons_of_ne_nil h.ne_nil
  obtain ⟨t, ts, rfl, -, -⟩ := (h.chains c List.mem_cons_self).joined
  simp

theorem AreChains.join_head? (h : AreChains cs) : ∀ t ∈ cs.flatten.head?, t.join = none := by
  obtain ⟨c, cs, rfl⟩ := List.exists_cons_of_ne_nil h.ne_nil
  obtain ⟨t, ts, rfl, hj, -⟩ := (h.chains c List.mem_cons_self).joined
  rintro t' ht'
  obtain rfl : t = t' := Option.some.inj ht'
  exact hj

end Table

theorem Select.Shaped.hasParts {s : Select} (h : s.Shaped) : s.HasParts := by
  obtain ⟨cs, he, hcs⟩ := h.tables
  refine ⟨h.ne_nil, he ▸ hcs.flatten_ne_nil, he ▸ hcs.join_head?, fun t ht => ?_⟩
  obtain ⟨c, hc, ht⟩ := List.mem_flatten.1 (he ▸ ht)
  exact Table.isRun_of_tidies (hcs.chains c hc).tidies t ht

theorem Statement.hasParts_of_parse {sql : Text} {s : Statement} (h : parse sql = .ok s) :
    s.HasParts := by
  cases s with
  | select s => exact Select.Shaped.hasParts (shaped_of_parse h rfl)
  | insert i =>
      have hi : i.Shaped := shaped_of_parse h rfl
      exact ⟨hi.fields.ne_nil, hi.length⟩
  | update u =>
      have hu : u.Shaped := shaped_of_parse h rfl
      exact ⟨hu.ne_nil, u.assignments.nodup⟩
  | delete _ | degraded _ => trivial

def Field.Keeps (f g : Field) : Prop :=
  ∀ a ∈ f.alias?, g.alias? = some a

structure Table.Keeps (t u : Table) : Prop where
  alias? : u.alias? = t.alias?
  operator : u.join.map Join.operator = t.join.map Join.operator

structure Select.Keeps (s t : Select) : Prop where
  distinct : t.distinct = s.distinct
  fields : Forall₂ Field.Keeps s.fields t.fields
  tables : Forall₂ Table.Keeps s.tables t.tables
  limit : t.limit = s.limit

structure Insert.Keeps (i j : Insert) : Prop where
  table : i.table.Keeps j.table
  fields : j.fields.length = i.fields.length
  values : j.values = i.values

structure Update.Keeps (u v : Update) : Prop where
  table : u.table.Keeps v.table
  values : v.assignments.values = u.assignments.values

/-- What edits keep of a statement. One that is degraded is kept as it is. -/
inductive Statement.Keeps : Statement → Statement → Prop where
  | select {s t : Select} (h : s.Keeps t) : Keeps (.select s) (.select t)
  | insert {i j : Insert} (h : i.Keeps j) : Keeps (.insert i) (.insert j)
  | update {u v : Update} (h : u.Keeps v) : Keeps (.update u) (.update v)
  | delete {d e : Delete} (h : d.table.Keeps e.table) : Keeps (.delete d) (.delete e)
  | degraded (d : Degraded) : Keeps (.degraded d) (.degraded d)

instance : Std.Refl Field.Keeps := ⟨fun _ _ h => h⟩

theorem Field.Keeps.trans {f g h : Field} (hf : f.Keeps g) (hg : g.Keeps h) : f.Keeps h :=
  fun a ha => hg a (hf a ha)

theorem Table.Keeps.refl (t : Table) : t.Keeps t := ⟨rfl, rfl⟩

instance : Std.Refl Table.Keeps := ⟨Table.Keeps.refl⟩

theorem Table.Keeps.trans {t u v : Table} (ht : t.Keeps u) (hu : u.Keeps v) : t.Keeps v :=
  ⟨hu.alias?.trans ht.alias?, hu.operator.trans ht.operator⟩

theorem forall₂_map {α : Type} {R : α → α → Prop} {f : α → α} (h : ∀ a, R a (f a)) (as : List α) :
    Forall₂ R as (as.map f) :=
  List.forall₂_map_right_iff.2 (List.forall₂_same.2 fun a _ => h a)

theorem forall₂_trans {α : Type} {R : α → α → Prop} (h : ∀ {a b c}, R a b → R b c → R a c)
    {as bs cs : List α} (hab : Forall₂ R as bs) (hbc : Forall₂ R bs cs) : Forall₂ R as cs := by
  induction hbc generalizing as with
  | nil => exact hab
  | cons hbc _ ih =>
      obtain ⟨a, as, ha, has, rfl⟩ := List.forall₂_cons_right_iff.1 hab
      exact .cons (h ha hbc) (ih has)

namespace Statement

variable {s t u : Statement}

theorem Keeps.refl : ∀ s : Statement, s.Keeps s
  | .select _ => .select ⟨rfl, List.forall₂_refl _, List.forall₂_refl _, rfl⟩
  | .insert _ => .insert ⟨.refl _, rfl, rfl⟩
  | .update _ => .update ⟨.refl _, rfl⟩
  | .delete _ => .delete (.refl _)
  | .degraded d => .degraded d

theorem Keeps.trans (hs : s.Keeps t) (ht : t.Keeps u) : s.Keeps u := by
  cases hs with
  | select hs =>
      cases ht with
      | select ht =>
          exact .select ⟨ht.distinct.trans hs.distinct, forall₂_trans .trans hs.fields ht.fields,
            forall₂_trans .trans hs.tables ht.tables, ht.limit.trans hs.limit⟩
  | insert hs =>
      cases ht with
      | insert ht =>
          exact .insert ⟨hs.table.trans ht.table, ht.fields.trans hs.fields, ht.values.trans hs.values⟩
  | update hs =>
      cases ht with
      | update ht => exact .update ⟨hs.table.trans ht.table, ht.values.trans hs.values⟩
  | delete hs =>
      cases ht with
      | delete ht => exact .delete (hs.trans ht)
  | degraded d => exact ht

end Statement

theorem forall_of_forall₂ {α : Type} {R : α → α → Prop} {P : α → Prop} {as bs : List α}
    (hP : ∀ {a b}, R a b → P a → P b) (h : Forall₂ R as bs) (ha : ∀ a ∈ as, P a) :
    ∀ b ∈ bs, P b := by
  induction h with
  | nil => exact ha
  | cons hr _ ih =>
      obtain ⟨h₁, h₂⟩ := List.forall_mem_cons.1 ha
      exact List.forall_mem_cons.2 ⟨hP hr h₁, ih h₂⟩

namespace Table.Keeps

variable {t u : Table}

theorem join_eq_none (h : t.Keeps u) (ht : t.join = none) : u.join = none := by
  have ho := h.operator
  rwa [ht, Option.map_none, Option.map_eq_none_iff] at ho

theorem isRun (h : t.Keeps u) (ht : ∀ j ∈ t.join, j.IsRun) : ∀ j ∈ u.join, j.IsRun := by
  intro j hj
  have ho : j.operator ∈ t.join.map Join.operator := h.operator ▸ Option.mem_map_of_mem _ hj
  obtain ⟨j', hj', he⟩ := Option.mem_map.1 ho
  have hr := ht j' hj'
  rwa [Join.IsRun, he] at hr

end Table.Keeps

theorem Select.HasParts.of_keeps {s t : Select} (h : s.HasParts) (hk : s.Keeps t) : t.HasParts := by
  obtain ⟨f, fs, hf⟩ := List.exists_cons_of_ne_nil h.fields
  obtain ⟨u, us, hu⟩ := List.exists_cons_of_ne_nil h.tables
  obtain ⟨g, gs, -, -, hg⟩ := List.forall₂_cons_left_iff.1 (hf ▸ hk.fields)
  obtain ⟨v, vs, huv, -, hv⟩ := List.forall₂_cons_left_iff.1 (hu ▸ hk.tables)
  have hj : v.join = none := huv.join_eq_none (h.first u (by rw [hu]; rfl))
  exact ⟨hg ▸ List.cons_ne_nil g gs, hv ▸ List.cons_ne_nil v vs, by simpa [hv] using hj,
    forall_of_forall₂ Table.Keeps.isRun hk.tables h.joins⟩

namespace Statement

variable {s t : Statement}

theorem HasParts.of_keeps (h : s.HasParts) (hk : s.Keeps t) : t.HasParts := by
  cases hk with
  | select hk => exact Select.HasParts.of_keeps h hk
  | insert hk =>
      obtain ⟨hf, hl⟩ := h
      refine ⟨?_, by rw [hk.fields, hk.values, hl]⟩
      rw [← List.length_pos_iff_ne_nil, hk.fields]
      exact List.length_pos_of_ne_nil hf
  | @update u v hk =>
      refine ⟨fun hv => h.assignments ?_, v.assignments.nodup⟩
      have he := hk.values
      rw [Assignments.values, hv, List.map_nil, Assignments.values] at he
      exact List.map_eq_nil_iff.1 he.symm
  | delete _ | degraded _ => trivial

end Statement

theorem Field.keeps_addAlias (f : Field) : f.Keeps f.addAlias := by
  intro a ha
  rw [addAlias]
  split
  next h => simp [Option.mem_def.1 ha] at h
  next => exact ha

theorem Table.keeps_convert (style : Style) (t : Table) : t.Keeps (t.convert style) := by
  refine ⟨rfl, ?_⟩
  rw [convert, Option.map_map]
  rfl

theorem Table.keeps_renameBy (newName? : Text → Option Text) (t : Table) :
    t.Keeps (t.renameBy newName?).value := by
  rw [renameBy]
  split
  · exact ⟨rfl, rfl⟩
  · exact .refl t

theorem Update.keeps_convert (style : Style) (u : Update) : u.Keeps (u.convert style).value := by
  refine ⟨⟨by rw [table_convert], by rw [table_convert]⟩, ?_⟩
  obtain h | h := u.entries_convert style
  · rw [Assignments.values, h, List.map_map]
    rfl
  · rw [Assignments.values, h, Assignments.values]

namespace Statement

theorem keeps_convert (style : Style) (s : Statement) : s.Keeps (s.convert style).value := by
  cases s with
  | select s =>
      exact .select ⟨rfl, forall₂_map (fun _ _ h => h) _, forall₂_map (Table.keeps_convert style) _, rfl⟩
  | insert i => exact .insert ⟨.refl _, List.length_map .., rfl⟩
  | update u => exact .update (u.keeps_convert style)
  | delete d => exact .delete (.refl _)
  | degraded d => exact .degraded d

theorem keeps_addAliases (s : Statement) : s.Keeps s.addAliases := by
  cases s with
  | select s =>
      exact .select ⟨rfl, forall₂_map Field.keeps_addAlias _, List.forall₂_refl _, rfl⟩
  | insert _ | update _ | delete _ | degraded _ => exact .refl _

theorem keeps_renameBy (newName? : Text → Option Text) (s : Statement) :
    s.Keeps (s.renameBy newName?).value.1 := by
  cases s with
  | select s =>
      exact .select ⟨rfl, List.forall₂_refl _, forall₂_map (Table.keeps_renameBy newName?) _, rfl⟩
  | insert i => exact .insert ⟨i.table.keeps_renameBy newName?, rfl, rfl⟩
  | update u => exact .update ⟨u.table.keeps_renameBy newName?, rfl⟩
  | delete d => exact .delete (d.table.keeps_renameBy newName?)
  | degraded d => exact .degraded d

theorem keeps_setCondition (condition : Option Text) (s : Statement) :
    s.Keeps (s.setCondition condition).1 := by
  cases s with
  | select s => exact .select ⟨rfl, List.forall₂_refl _, List.forall₂_refl _, rfl⟩
  | update u => exact .update ⟨.refl _, rfl⟩
  | delete d => exact .delete (.refl _)
  | insert _ | degraded _ => exact .refl _

end Statement

namespace Edit

def isRenaming : Edit → Bool
  | renameTable .. | applyRenames _ => true
  | convert _ | addAliases | setCondition _ => false

def isConditioning : Edit → Bool
  | setCondition _ => true
  | convert _ | addAliases | renameTable .. | applyRenames _ => false

variable {e : Edit}

theorem keeps_apply (e : Edit) (s : Statement) : s.Keeps (e.apply s) := by
  cases e with
  | convert style => exact s.keeps_convert style
  | addAliases => exact s.keeps_addAliases
  | renameTable old new => exact s.keeps_renameBy _
  | applyRenames r => exact s.keeps_renameBy _
  | setCondition condition => exact s.keeps_setCondition condition

theorem keeps_applyAll (es : List Edit) (s : Statement) : s.Keeps (applyAll es s) := by
  induction es generalizing s with
  | nil => exact .refl s
  | cons e es ih => exact (e.keeps_apply s).trans (ih (e.apply s))

theorem map_name_apply (h : e.isRenaming = false) (s : Statement) :
    (e.apply s).tables.map Table.name = s.tables.map Table.name := by
  cases e with
  | convert style =>
      cases s with
      | select s => exact List.map_map
      | update u => exact congrArg (fun t : Table => [t.name]) (u.table_convert style)
      | insert _ | delete _ | degraded _ => rfl
  | addAliases | setCondition _ => cases s <;> rfl
  | renameTable _ _ | applyRenames _ => cases h

theorem isSome_condition?_apply (h : e.isConditioning = false) (s : Statement) :
    (e.apply s).condition?.isSome = s.condition?.isSome := by
  cases e with
  | convert style =>
      cases s with
      | select s => exact Option.isSome_map
      | update u =>
          exact (congrArg Option.isSome (u.condition_convert style)).trans Option.isSome_map
      | delete d => exact Option.isSome_map
      | insert _ | degraded _ => rfl
  | addAliases | renameTable _ _ | applyRenames _ => cases s <;> rfl
  | setCondition _ => cases h

end Edit

namespace Statement

/-- After any edits a statement has the parts that reading gives it, and they are those that were
read. The next edit gives no table a new name unless it is a rename, and neither adds nor drops a
condition unless it sets one. -/
theorem keeps_applyAll_of_parse {sql : Text} {s : Statement} (h : parse sql = .ok s)
    (es : List Edit) :
    let t := Edit.applyAll es s
    t.HasParts ∧ s.Keeps t ∧ ∀ e : Edit,
      (e.isRenaming = false → (e.apply t).tables.map Table.name = t.tables.map Table.name) ∧
      (e.isConditioning = false → (e.apply t).condition?.isSome = t.condition?.isSome) := by
  intro t
  have hk : s.Keeps t := Edit.keeps_applyAll es s
  exact ⟨(hasParts_of_parse h).of_keeps hk, hk, fun e =>
    ⟨fun he => Edit.map_name_apply he t, fun he => Edit.isSome_condition?_apply he t⟩⟩

theorem keeps_applyAll_of_update :
    let s := update ⟨.named "t".toList (some "x".toList),
      ⟨[("a_b".toList, "1".toList), ("aB".toList, "2".toList)], by decide⟩, none⟩
    let es : List Edit := [.renameTable "T".toList "u".toList, .setCondition (some "c_d = 3".toList),
      .convert .camel]
    let t := Edit.applyAll es s
    parse "update t x set a_b = 1, aB = 2".toList = .ok s ∧ t ≠ s ∧ t.HasParts ∧ s.Keeps t ∧
      (Edit.addAliases.apply t).tables.map Table.name = t.tables.map Table.name ∧
      (Edit.addAliases.apply t).condition?.isSome = t.condition?.isSome := by
  intro s es t
  have hp : parse "update t x set a_b = 1, aB = 2".toList = .ok s := by decide +kernel
  obtain ⟨hs, hk, he⟩ := keeps_applyAll_of_parse hp es
  exact ⟨hp, by decide +kernel, hs, hk, (he .addAliases).1 rfl, (he .addAliases).2 rfl⟩

end Statement

end SqlEdit
