import SqlEdit.Proofs.Stability
import SqlEdit.Proofs.Statement.Legible

namespace SqlEdit.Statement

def Legible : Statement → Prop
  | select s => s.Legible
  | insert i => i.Legible
  | update u => u.Legible
  | delete d => d.Legible
  | degraded _ => False

instance : ∀ s : Statement, Decidable s.Legible
  | select s => inferInstanceAs (Decidable s.Legible)
  | insert i => inferInstanceAs (Decidable i.Legible)
  | update u => inferInstanceAs (Decidable u.Legible)
  | delete d => inferInstanceAs (Decidable d.Legible)
  | degraded _ => inferInstanceAs (Decidable False)

variable {sql : Text} {s t : Statement} {es : List Edit}

theorem isDegraded_of_skeleton (h : t.skeleton = s.skeleton) : t.isDegraded = s.isDegraded := by
  cases s <;> cases t <;> first | rfl | cases h

/-- Of two statements with one skeleton, if one is read back, the other is if it is legible. -/
theorem shaped_and_unambiguous_iff (h : s.Shaped) (hu : s.Unambiguous) (he : t.skeleton = s.skeleton) :
    t.Shaped ∧ t.Unambiguous ↔ t.Legible := by
  cases s with
  | select s =>
      cases t with
      | select t => exact Select.shaped_and_unambiguous_iff h hu (Skeleton.select.inj he)
      | insert _ | update _ | delete _ | degraded _ => cases he
  | insert i =>
      cases t with
      | insert j => exact (and_iff_left trivial).trans (Insert.shaped_iff h (Skeleton.insert.inj he))
      | select _ | update _ | delete _ | degraded _ => cases he
  | update u =>
      cases t with
      | update v =>
          obtain ⟨ht, hes, hc⟩ := Skeleton.update.inj he
          exact Update.shaped_and_unambiguous_iff h hu ht hes hc
      | select _ | insert _ | delete _ | degraded _ => cases he
  | delete d =>
      cases t with
      | delete e => exact Delete.shaped_and_unambiguous_iff h hu (Skeleton.delete.inj he)
      | select _ | insert _ | update _ | degraded _ => cases he
  | degraded _ => exact h.elim

/-- A statement that is read back stays so under conversions and injections of aliases exactly if
the statement they leave is legible. -/
theorem parse_render_applyAll_iff (h : parse sql = .ok s) (hd : s.isDegraded = false)
    (hs : parse s.render = .ok s) (he : ∀ e ∈ es, e.isRespelling) :
    parse (Edit.applyAll es s).render = .ok (Edit.applyAll es s) ↔ (Edit.applyAll es s).Legible := by
  have hsh := shaped_of_parse h hd
  have hsk := Edit.skeleton_applyAll he s
  have hdt := (isDegraded_of_skeleton hsk).trans hd
  rw [← shaped_and_unambiguous_iff hsh (hsh.parse_render_iff.1 hs) hsk]
  constructor
  · intro hr
    have ht := shaped_of_parse hr hdt
    exact ⟨ht, ht.parse_render_iff.1 hr⟩
  · rintro ⟨ht, hu⟩
    exact ht.parse_render_iff.2 hu

theorem parse_render_applyAll_of_join :
    let s := select ⟨false, [⟨"u.user_id".toList, none⟩, ⟨"count(*)".toList, some "n".toList⟩],
      [⟨"users".toList, some "u".toList, none⟩, ⟨"orders".toList, none,
        some ⟨"LEFT JOIN".toList, some (.onCondition "u.user_id = owner_id".toList)⟩⟩],
      some "user_name <> 'from_'".toList, some "u.user_id".toList, none, none, none⟩
    let es : List Edit := [.addAliases, .convert .camel, .convert .snake, .convert .camel]
    Edit.applyAll es s ≠ s ∧ parse (Edit.applyAll es s).render = .ok (Edit.applyAll es s) := by
  intro s es
  have hp : parse s.render = .ok s := by decide +kernel
  have hl : (Edit.applyAll es s).Legible := by decide +kernel
  have he : ∀ e ∈ es, e.isRespelling := by decide
  exact ⟨by decide +kernel, (parse_render_applyAll_iff hp rfl hp he).2 hl⟩

/-- In camel case this column is the word FROM, and nothing is left before it. -/
theorem parse_render_applyAll_ne_of_column_from :
    ∃ s, parse "SELECT from_ FROM flights".toList = .ok s ∧ s.isDegraded = false ∧
      parse s.render = .ok s ∧
      parse (Edit.applyAll [.convert .camel] s).render ≠ .ok (Edit.applyAll [.convert .camel] s) :=
  ⟨select ⟨false, [⟨"from_".toList, none⟩], [.named "flights".toList none], none, none, none, none,
    none⟩, by decide +kernel, rfl, by decide +kernel, by decide +kernel⟩

end SqlEdit.Statement
