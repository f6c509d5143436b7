import SqlEdit.Proofs.Json.RoundTrip
import SqlEdit.Proofs.Statement.Items
import SqlEdit.Statement.Json

namespace SqlEdit

namespace Json

variable {α : Type} {encode : α → Json} {decode : Json → Option α}

/-- An encoding that never gives null, has a faithful text, and is undone by its decoder. -/
structure IsCodec (encode : α → Json) (decode : Json → Option α) : Prop where
  ne_null : ∀ a, encode a ≠ null
  textual : ∀ a, (encode a).IsTextual
  decode_encode : ∀ a, decode (encode a) = some a

theorem isCodec_text : IsCodec ofText text? :=
  ⟨nofun, .text, fun _ => rfl⟩

theorem isCodec_bool : IsCodec bool bool? :=
  ⟨nofun, .bool, fun _ => rfl⟩

theorem IsCodec.textual_option (h : IsCodec encode decode) (a? : Option α) :
    (ofOption encode a?).IsTextual := by
  cases a? with
  | none => exact .null
  | some a => exact h.textual a

theorem IsCodec.required? (h : IsCodec encode decode) (a : α) :
    required? decode (some (encode a)) = some a :=
  h.decode_encode a

theorem IsCodec.optional? (h : IsCodec encode decode) (a? : Option α) :
    optional? decode (some (ofOption encode a?)) = some a? := by
  cases a? with
  | none => rfl
  | some a =>
      rw [Json.optional?, ofOption, nullable?, h.decode_encode, Option.map_some]
      exact h.ne_null a

theorem IsCodec.list (h : IsCodec encode decode) : IsCodec (ofList encode) (list? decode) := by
  refine ⟨nofun, fun as => .array fun j hj => ?_, fun as => ?_⟩
  · obtain ⟨a, -, rfl⟩ := List.mem_map.1 hj
    exact h.textual a
  · refine mapM_eq_some_iff.2 (List.forall₂_map_left_iff.2 (List.forall₂_same.2 fun a _ => ?_))
    exact h.decode_encode a

theorem isTextual_record {ms : List (String × Json)} (h : ∀ m ∈ ms, m.2.IsTextual) :
    (record ms).IsTextual := by
  refine .object (fun m hm => ?_) fun m hm => ?_
  · obtain ⟨n, -, rfl⟩ := List.mem_map.1 hm
    rfl
  · obtain ⟨n, hn, rfl⟩ := List.mem_map.1 hm
    exact h n hn

theorem filter_fst_eq {β : Type} {ms : List (String × β)} (h : (ms.map Prod.fst).Nodup)
    {m : String × β} (hm : m ∈ ms) : ms.filter (·.1 = m.1) = [m] := by
  induction ms with
  | nil => exact absurd hm List.not_mem_nil
  | cons n ms ih =>
      obtain ⟨hn, hms⟩ := List.nodup_cons.1 h
      have hne (l : String × β) (hl : l ∈ ms) : l.1 ≠ n.1 := fun he =>
        hn (List.mem_map.2 ⟨l, hl, he⟩)
      rcases List.mem_cons.1 hm with rfl | hm
      · rw [List.filter_cons_of_pos (by simp), List.filter_eq_nil_iff.2 (by simpa using hne)]
      · rw [List.filter_cons_of_neg (by simpa using (hne m hm).symm), ih hms hm]

theorem fields?_record {names : List String} {ms : List (String × Json)}
    (hn : ms.map Prod.fst = names) (h : names.Nodup) :
    fields? names (record ms) = some (ms.map fun m => some m.2) := by
  subst hn
  have hr : record ms = .object (ms.map fun n => (some n.1.toList, n.2)) := rfl
  have hf (m : String × Json) (hm : m ∈ ms) :
      (ms.map fun n => (some n.1.toList, n.2)).filter (·.1 == some m.1.toList) =
        [(some m.1.toList, m.2)] := by
    have hp : (fun x : Option Text × Json => x.1 == some m.1.toList) ∘
        (fun n : String × Json => (some n.1.toList, n.2)) = fun n => decide (n.1 = m.1) := by
      funext n
      rw [Bool.eq_iff_iff]
      simp [String.toList_inj]
    rw [List.filter_map, hp, filter_fst_eq h hm, List.map_singleton]
  rw [hr, fields?]
  simp only
  rw [if_pos, List.map_map]
  · congr 1
    refine List.map_congr_left fun m hm => ?_
    rw [Function.comp_apply, hf m hm]
    rfl
  · simp only [Bool.and_eq_true, List.all_eq_true, List.forall_mem_map]
    exact ⟨fun _ _ => rfl, fun m hm => decide_eq_true (Nat.le_of_eq (congrArg List.length (hf m hm)))⟩

theorem isTextual_tagged {tag : String} {content : Json} (h : content.IsTextual) :
    (tagged tag content).IsTextual :=
  isTextual_record (List.forall_mem_singleton.2 h)

end Json

open Json (IsCodec isCodec_text isCodec_bool isTextual_record isTextual_tagged fields?_record)

theorem Kind.isCodec : IsCodec toJson ofJson? :=
  ⟨nofun, fun _ => .text _, fun k => by cases k <;> rfl⟩

namespace ParseError

theorem ofJson?_tag : ∀ e ∈ bare, ofJson? (.ofText e.tag.toList) = some e := by
  decide +kernel

theorem ofJson?_tagged (tag : String) (t : Text) :
    ofJson? (.tagged tag (.ofText t)) =
      if tag.toList = "UnsupportedStatementKind".toList then some (unsupportedKind t)
      else if tag.toList = "MalformedTableList".toList then some (malformedTableList t)
      else none := rfl

theorem isCodec : IsCodec toJson ofJson? := by
  refine ⟨fun e => ?_, fun e => ?_, fun e => ?_⟩
  · cases e <;> exact nofun
  · cases e with
    | unsupportedKind _ | malformedTableList _ => exact isTextual_tagged (.text _)
    | _ => exact .text _
  · cases e with
    | unsupportedKind word => exact (ofJson?_tagged _ word).trans (if_pos rfl)
    | malformedTableList group =>
        have hne : "MalformedTableList".toList ≠ "UnsupportedStatementKind".toList := by decide
        exact (ofJson?_tagged _ group).trans ((if_neg hne).trans (if_pos rfl))
    | _ => exact ofJson?_tag _ (by simp [bare])

end ParseError

theorem Field.isCodec : IsCodec toJson ofJson? := by
  refine ⟨nofun, fun f => isTextual_record ?_, fun f => ?_⟩
  · simp [isCodec_text.textual, isCodec_text.textual_option]
  · rw [ofJson?, toJson, fields?_record]
    · simp [isCodec_text.required?, isCodec_text.optional?]
    · rfl
    · decide

theorem Constraint.isCodec : IsCodec toJson ofJson? := by
  refine ⟨fun c => ?_, fun c => ?_, fun c => ?_⟩
  · cases c <;> exact nofun
  · cases c <;> exact isTextual_tagged (.text _)
  · cases c <;> rfl

theorem Join.isCodec : IsCodec toJson ofJson? := by
  refine ⟨nofun, fun j => isTextual_record ?_, fun j => ?_⟩
  · simp [isCodec_text.textual, Constraint.isCodec.textual_option]
  · rw [ofJson?, toJson, fields?_record]
    · simp [isCodec_text.required?, Constraint.isCodec.optional?]
    · rfl
    · decide

theorem Table.isCodec : IsCodec toJson ofJson? := by
  refine ⟨nofun, fun t => isTextual_record ?_, fun t => ?_⟩
  · simp [isCodec_text.textual, isCodec_text.textual_option, Join.isCodec.textual_option]
  · rw [ofJson?, toJson, fields?_record]
    · simp [isCodec_text.required?, isCodec_text.optional?, Join.isCodec.optional?]
    · rfl
    · decide

namespace Assignments

theorem ofList_entries (a : Assignments) : ofList a.entries = a :=
  ofList_eq a.nodup

theorem isCodec : IsCodec toJson ofJson? := by
  refine ⟨nofun, fun a => .object ?_ ?_, fun a => ?_⟩
  · exact List.forall_mem_map.2 fun _ _ => rfl
  · exact List.forall_mem_map.2 fun _ _ => .text _
  · have hm : (toJson a).members? Json.text? = some a.entries := by
      refine mapM_eq_some_iff.2 (List.forall₂_map_left_iff.2 (List.forall₂_same.2 fun e _ => ?_))
      rfl
    rw [ofJson?, hm, Option.map_some, ofList_entries]

end Assignments

theorem Select.isCodec : IsCodec toJson ofJson? := by
  refine ⟨nofun, fun s => isTextual_record ?_, fun s => ?_⟩
  · simp [isCodec_bool.textual, Field.isCodec.list.textual, Table.isCodec.list.textual,
      isCodec_text.textual_option]
  · rw [ofJson?, toJson, fields?_record]
    · simp [isCodec_bool.required?, Field.isCodec.list.required?, Table.isCodec.list.required?,
        isCodec_text.optional?]
    · rfl
    · decide

theorem Insert.isCodec : IsCodec toJson ofJson? := by
  refine ⟨nofun, fun i => isTextual_record ?_, fun i => ?_⟩
  · simp [Table.isCodec.textual, isCodec_text.list.textual]
  · rw [ofJson?, toJson, fields?_record]
    · simp [Table.isCodec.required?, isCodec_text.list.required?]
    · rfl
    · decide

theorem Update.isCodec : IsCodec toJson ofJson? := by
  refine ⟨nofun, fun u => isTextual_record ?_, fun u => ?_⟩
  · simp [Table.isCodec.textual, Assignments.isCodec.textual, isCodec_text.textual_option]
  · rw [ofJson?, toJson, fields?_record]
    · simp [Table.isCodec.required?, Assignments.isCodec.required?, isCodec_text.optional?]
    · rfl
    · decide

theorem Delete.isCodec : IsCodec toJson ofJson? := by
  refine ⟨nofun, fun d => isTextual_record ?_, fun d => ?_⟩
  · simp [Table.isCodec.textual, isCodec_text.textual_option]
  · rw [ofJson?, toJson, fields?_record]
    · simp [Table.isCodec.required?, isCodec_text.optional?]
    · rfl
    · decide

theorem Degraded.isCodec : IsCodec toJson ofJson? := by
  refine ⟨nofun, fun d => isTextual_record ?_, fun d => ?_⟩
  · simp [Kind.isCodec.textual, isCodec_text.textual, ParseError.isCodec.textual]
  · rw [ofJson?, toJson, fields?_record]
    · simp [Kind.isCodec.required?, isCodec_text.required?, ParseError.isCodec.required?]
    · rfl
    · decide

namespace Statement

theorem isCodec : IsCodec toJson ofJson? := by
  refine ⟨fun s => ?_, fun s => ?_, fun s => ?_⟩
  · cases s <;> exact nofun
  · cases s with
    | select s => exact isTextual_tagged (Select.isCodec.textual s)
    | insert i => exact isTextual_tagged (Insert.isCodec.textual i)
    | update u => exact isTextual_tagged (Update.isCodec.textual u)
    | delete d => exact isTextual_tagged (Delete.isCodec.textual d)
    | degraded d => exact isTextual_tagged (Degraded.isCodec.textual d)
  · cases s with
    | select s => exact congrArg (Option.map select) (Select.isCodec.decode_encode s)
    | insert i => exact congrArg (Option.map insert) (Insert.isCodec.decode_encode i)
    | update u => exact congrArg (Option.map update) (Update.isCodec.decode_encode u)
    | delete d => exact congrArg (Option.map delete) (Delete.isCodec.decode_encode d)
    | degraded d => exact congrArg (Option.map degraded) (Degraded.isCodec.decode_encode d)

/-- A statement is read back from its JSON text, with its assignments in the same order. -/
theorem ofJson_parse_render (s : Statement) : (Json.parse? s.toJson.render).bind ofJson? = some s := by
  rw [(isCodec.textual s).parse?_render, Option.bind_some, isCodec.decode_encode]

end Statement

end SqlEdit
