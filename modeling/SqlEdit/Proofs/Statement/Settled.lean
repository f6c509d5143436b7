import SqlEdit.Proofs.Identifier.Settled

namespace SqlEdit

theorem map_settled {α : Type} {f : α → α} {l : List α} (h : ∀ a ∈ l, f (f a) = f a) :
    (l.map f).map f = l.map f := by
  rw [List.map_map]
  exact List.map_congr_left h

theorem option_map_settled {α : Type} {f : α → α} {o : Option α} (h : ∀ a ∈ o, f (f a) = f a) :
    (o.map f).map f = o.map f := by
  rw [Option.map_map]
  exact Option.map_congr h

theorem Fragment.map_snake_snake {o : Option Text} (h : ∀ t ∈ o.toList, t.IsAscii) :
    (o.map (convert .snake)).map (convert .snake) = o.map (convert .snake) :=
  option_map_settled fun t ht => snake_snake (h t (Option.mem_toList.2 ht))

theorem Style.convertName_snake_snake {name : Text} (h : name.IsAscii) :
    snake.convertName (snake.convertName name) = snake.convertName name := by
  by_cases hp : Identifier.isPlain name
  · have hs : snake.convertName name = snake.convert name := if_pos hp
    rw [hs, convertName, if_pos (isPlain_snake hp), snake_snake h]
  · have hs : snake.convertName name = name := if_neg hp
    rw [hs, hs]

theorem Field.snake_snake {f : Field} (h : ∀ t ∈ f.texts, t.IsAscii) :
    (f.convert .snake).convert .snake = f.convert .snake := by
  have he : f.expression.IsAscii := h _ List.mem_cons_self
  by_cases hp : Identifier.isPlain f.expression
  · have hf : f.convert .snake = { f with expression := Style.snake.convert f.expression } := by
      rw [convert, if_pos hp]
    rw [hf, convert, if_pos (Style.isPlain_snake hp), Style.snake_snake he]
  · have hf : f.convert .snake = { f with expression := Fragment.convert .snake f.expression } := by
      rw [convert, if_neg hp]
    rw [hf, convert, if_neg (mt Fragment.isPlain_of_isPlain_snake hp), Fragment.snake_snake he]

theorem Constraint.snake_snake {c : Constraint} (h : ∀ t ∈ c.texts, t.IsAscii) :
    (c.convert .snake).convert .snake = c.convert .snake := by
  cases c with
  | onCondition t => exact congrArg onCondition (Fragment.snake_snake (h t List.mem_cons_self))
  | usingColumns t => exact congrArg usingColumns (Fragment.snake_snake (h t List.mem_cons_self))

theorem Join.snake_snake {j : Join} (h : ∀ t ∈ j.texts, t.IsAscii) :
    (j.convert .snake).convert .snake = j.convert .snake := by
  have hc : ∀ c ∈ j.constraint, (c.convert .snake).convert .snake = c.convert .snake :=
    fun c hc => Constraint.snake_snake fun t ht =>
      h t (List.mem_cons_of_mem _ (List.mem_flatMap.2 ⟨c, Option.mem_toList.2 hc, ht⟩))
  exact congrArg (Join.mk j.operator) (option_map_settled hc)

theorem Table.snake_snake {t : Table} (h : ∀ u ∈ t.texts, u.IsAscii) :
    (t.convert .snake).convert .snake = t.convert .snake := by
  have hj : ∀ j ∈ t.join, (j.convert .snake).convert .snake = j.convert .snake :=
    fun j hj => Join.snake_snake fun u hu =>
      h u (List.mem_append_right _ (List.mem_flatMap.2 ⟨j, Option.mem_toList.2 hj, hu⟩))
  exact congrArg (Table.mk t.name t.alias?) (option_map_settled hj)

theorem Select.snake_snake {s : Select} (h : ∀ t ∈ s.texts, t.IsAscii) :
    (s.convert .snake).convert .snake = s.convert .snake := by
  rw [texts, List.forall_mem_append, List.forall_mem_append] at h
  obtain ⟨⟨hf, ht⟩, hc⟩ := h
  have hbody {o : Option Text} (ho : o ∈ [s.condition, s.groupBy, s.having, s.orderBy, s.limit]) :
      (o.map (Fragment.convert .snake)).map (Fragment.convert .snake) =
        o.map (Fragment.convert .snake) :=
    Fragment.map_snake_snake fun t ht => hc t (List.mem_flatMap.2 ⟨o, ho, ht⟩)
  rw [convert, convert, Select.mk.injEq]
  refine ⟨rfl, ?_, ?_, hbody (by simp), hbody (by simp), hbody (by simp), hbody (by simp), rfl⟩
  · exact map_settled fun f hm => Field.snake_snake fun t hu =>
      hf t (List.mem_flatMap.2 ⟨f, hm, hu⟩)
  · exact map_settled fun t hm => Table.snake_snake fun u hu =>
      ht u (List.mem_flatMap.2 ⟨t, hm, hu⟩)

theorem Insert.snake_snake {i : Insert} (h : ∀ t ∈ i.texts, t.IsAscii) :
    (i.convert .snake).convert .snake = i.convert .snake := by
  have hf : ∀ t ∈ i.fields, t.IsAscii := fun t ht => h t (by simp [texts, ht])
  rw [convert, convert, Insert.mk.injEq]
  exact ⟨rfl, map_settled fun t ht => Style.convertName_snake_snake (hf t ht), rfl⟩

theorem Assignments.snake_snake {a b : Assignments} (h : ∀ k ∈ a.keys, k.IsAscii)
    (hb : a.convert? .snake = some b) : b.convert? .snake = some b := by
  rw [convert?_eq, ofEntries?_eq_some_iff] at hb ⊢
  rw [← hb, List.map_map]
  refine List.map_congr_left fun e he => ?_
  exact Prod.ext (Style.convertName_snake_snake (h e.1 (List.mem_map_of_mem he))) rfl

theorem Update.snake_snake {u : Update} (h : ∀ t ∈ u.texts, t.IsAscii) :
    ((u.convert .snake).value.convert .snake).value = (u.convert .snake).value := by
  have hk : ∀ k ∈ u.assignments.keys, k.IsAscii := fun k hk => h k (by simp [texts, hk])
  have hc := Fragment.map_snake_snake (o := u.condition) fun t ht => h t (by simp_all [texts])
  cases ha : u.assignments.convert? .snake with
  | none =>
      have hv : (u.convert .snake).value =
          ⟨u.table, u.assignments, u.condition.map (Fragment.convert .snake)⟩ := by
        rw [convert_of_none ha]
      rw [hv, convert_of_none (u := ⟨u.table, u.assignments, u.condition.map _⟩) ha, hc]
  | some a =>
      rw [convert_of_some ha, Logged.value_quiet,
        convert_of_some (Assignments.snake_snake hk ha), Logged.value_quiet, hc]

theorem Delete.snake_snake {d : Delete} (h : ∀ t ∈ d.texts, t.IsAscii) :
    (d.convert .snake).convert .snake = d.convert .snake := by
  have hc : ∀ t ∈ d.condition.toList, t.IsAscii := fun t ht => h t (List.mem_append_right _ ht)
  exact congrArg (Delete.mk d.table) (Fragment.map_snake_snake hc)

namespace Statement

/-- Converting a statement in ASCII to snake case twice is converting it once. -/
theorem convert_snake_convert_snake {s : Statement} (h : ∀ t ∈ s.texts, t.IsAscii) :
    ((s.convert .snake).value.convert .snake).value = (s.convert .snake).value := by
  cases s with
  | select s => exact congrArg select (Select.snake_snake h)
  | insert i => exact congrArg insert (Insert.snake_snake h)
  | update u => exact congrArg update (Update.snake_snake h)
  | delete d => exact congrArg delete (Delete.snake_snake h)
  | degraded d => rfl

/-- The word `currentDate` becomes a reserved word, and the two keys of the UPDATE collide. -/
theorem convert_snake_convert_snake_of_date :
    let date : Text := "currentDate > ':userId' AND (a.userId = :userId OR q.".toList
    let s : Statement := .select ⟨true, [⟨"userId".toList, some "userId".toList⟩, ⟨date, none⟩],
      [⟨"tA".toList, none, some ⟨"JOIN".toList, some (.usingColumns "userId".toList)⟩⟩],
      some date, none, none, none, none⟩
    let u : Statement := .update ⟨.named "tA".toList none,
      ⟨[("userId".toList, "1".toList), ("user_id".toList, "2".toList)], by decide +kernel⟩, some date⟩
    (∀ t ∈ s.texts, t.IsAscii) ∧ (∀ t ∈ u.texts, t.IsAscii) ∧
      Fragment.convert .snake date =
        "current_date > ':userId' AND (a.user_id = :userId OR q.".toList ∧
      ((s.convert .snake).value.convert .snake).value = (s.convert .snake).value ∧
      ((u.convert .snake).value.convert .snake).value = (u.convert .snake).value := by
  intro date s u
  have hs : ∀ t ∈ s.texts, t.IsAscii := by decide +kernel
  have hu : ∀ t ∈ u.texts, t.IsAscii := by decide +kernel
  exact ⟨hs, hu, by decide +kernel, convert_snake_convert_snake hs, convert_snake_convert_snake hu⟩

end Statement

end SqlEdit
