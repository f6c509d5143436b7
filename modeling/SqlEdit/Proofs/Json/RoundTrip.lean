import SqlEdit.Json.Parser
import SqlEdit.Json.Printer
import Mathlib.Tactic.SplitIfs

namespace SqlEdit.Json

section

variable {c : Char}

theorem readUnit?_hexDigit : ∀ n < 0x20,
    readUnit? '0' '0' (hexDigit (n / 16)) (hexDigit (n % 16)) = some n := by
  decide

theorem readUnits?_unicode {a b d e : Char} {unit : Nat} (h : readUnit? a b d e = some unit) (t : Text) :
    readUnits? ('\\' :: 'u' :: a :: b :: d :: e :: t) =
      (readUnits? t).map fun (units, rest) => (unit :: units, rest) := by
  rw [readUnits?, h, Option.map_eq_bind]
  rfl

theorem readUnits?_backslash {unit : Nat} (h : unescape? c = some unit) (t : Text) :
    readUnits? ('\\' :: c :: t) = (readUnits? t).map fun (units, rest) => (unit :: units, rest) := by
  have hu : c ≠ 'u' := by
    rintro rfl
    simp [unescape?] at h
  rw [readUnits?, h, Option.map_eq_bind]
  · rfl
  · exact fun _ _ _ _ _ he => absurd he hu

theorem readUnits?_plain (hq : c ≠ '"') (hb : c ≠ '\\') (hc : ¬ c.toNat < 0x20) (t : Text) :
    readUnits? (c :: t) = (readUnits? t).map fun (units, rest) => (c.toNat :: units, rest) := by
  rw [readUnits?, if_neg (not_or.2 ⟨hb, hc⟩)]
  · exact fun he => hq he
  · exact fun _ _ _ _ _ he => absurd he hb
  · exact fun _ _ he => absurd he hb

theorem escape_cases (c : Char) :
    (∃ d, escape c = ['\\', d] ∧ unescape? d = some c.toNat) ∨
      (escape c = ['\\', 'u', '0', '0', hexDigit (c.toNat / 16), hexDigit (c.toNat % 16)] ∧
        c.toNat < 0x20) ∨
      (escape c = [c] ∧ c ≠ '"' ∧ c ≠ '\\' ∧ ¬ c.toNat < 0x20) := by
  rw [escape]
  split_ifs with hq hb h h h h h h
  · exact .inl ⟨_, rfl, by rw [hq]; rfl⟩
  · exact .inl ⟨_, rfl, by rw [hb]; rfl⟩
  iterate 5 exact .inl ⟨_, rfl, by rw [h]; rfl⟩
  · exact .inr (.inl ⟨rfl, h⟩)
  · exact .inr (.inr ⟨rfl, hq, hb, h⟩)

theorem readUnits?_escape (c : Char) (t : Text) :
    readUnits? (escape c ++ t) = (readUnits? t).map fun (units, rest) => (c.toNat :: units, rest) := by
  obtain ⟨d, he, hd⟩ | ⟨he, hc⟩ | ⟨he, hq, hb, hc⟩ := escape_cases c
  · rw [he]
    exact readUnits?_backslash hd t
  · rw [he]
    exact readUnits?_unicode (readUnit?_hexDigit _ hc) t
  · rw [he]
    exact readUnits?_plain hq hb hc t

theorem readUnits?_flatMap_escape (t rest : Text) :
    readUnits? (t.flatMap escape ++ '"' :: rest) = some (t.map Char.toNat, rest) := by
  induction t with
  | nil => rw [List.flatMap_nil, List.nil_append, readUnits?, List.map_nil]
  | cons c t ih =>
      rw [List.flatMap_cons, List.append_assoc, readUnits?_escape, ih]
      rfl

theorem not_surrogate (c : Char) :
    isHighSurrogate c.toNat = false ∧ isLowSurrogate c.toNat = false := by
  have hc : c.toNat < 0xD800 ∨ 0xDFFF < c.toNat ∧ c.toNat < 0x110000 := c.valid
  simp only [isHighSurrogate, isLowSurrogate, Bool.and_eq_false_iff, decide_eq_false_iff_not]
  omega

theorem textOfUnits?_map_toNat (t : Text) : textOfUnits? (t.map Char.toNat) = some t := by
  induction t with
  | nil => rfl
  | cons c t ih =>
      obtain ⟨hh, hl⟩ := not_surrogate c
      cases t with
      | nil => simp [textOfUnits?, hh, hl]
      | cons d t =>
          rw [List.map_cons] at ih
          simp [textOfUnits?, hh, hl, ih]

theorem readString?_quote (t rest : Text) :
    readString? (t.flatMap escape ++ '"' :: rest) = some (some t, rest) := by
  rw [readString?, readUnits?_flatMap_escape, Option.map_some]
  simp only [textOfUnits?_map_toNat]

end

section

variable {c : Char} {j : Json} {js : List Json} {ms : List (Option Text × Json)} {fuel : Nat}
  {rest : Text}

inductive IsTextual : Json → Prop
  | null : IsTextual null
  | bool (b : Bool) : IsTextual (bool b)
  | text (t : Text) : IsTextual (ofText t)
  | array {items : List Json} (h : ∀ j ∈ items, IsTextual j) : IsTextual (array items)
  | object {members : List (Option Text × Json)} (hk : ∀ m ∈ members, m.1.isSome)
      (h : ∀ m ∈ members, IsTextual m.2) : IsTextual (object members)

def ReadsBack (j : Json) : Prop :=
  ∀ fuel rest, 2 * j.render.length ≤ fuel → readValue? fuel (j.render ++ rest) = some (j, rest)

theorem skipSpace_cons (h : isJsonSpace c = false) (t : Text) : skipSpace (c :: t) = c :: t :=
  List.dropWhile_cons_of_neg (by simp [h])

/-- The text of a value begins with neither space nor the end of an array. -/
theorem exists_render_eq_cons (h : j.IsTextual) :
    ∃ c t, j.render = c :: t ∧ isJsonSpace c = false ∧ c ≠ ']' := by
  cases h with
  | null => exact ⟨'n', _, rfl, by decide⟩
  | bool b => cases b with
    | true => exact ⟨'t', _, rfl, by decide⟩
    | false => exact ⟨'f', _, rfl, by decide⟩
  | text t => exact ⟨'"', _, by rw [ofText, render]; rfl, by decide⟩
  | array => exact ⟨'[', _, by rw [render]; rfl, by decide⟩
  | object => exact ⟨'{', _, by rw [render]; rfl, by decide⟩

theorem exists_renderItems_eq_cons (h : j.IsTextual) (js : List Json) :
    ∃ c t, renderItems (j :: js) = c :: t ∧ isJsonSpace c = false ∧ c ≠ ']' := by
  obtain ⟨c, t, he, hc⟩ := exists_render_eq_cons h
  cases js with
  | nil => exact ⟨c, t, by rw [renderItems, he], hc⟩
  | cons k js => exact ⟨c, t ++ ',' :: renderItems (k :: js), by simp [renderItems, he], hc⟩

theorem exists_renderMembers_eq_cons (m : Option Text × Json) (ms : List (Option Text × Json)) :
    ∃ t, renderMembers (m :: ms) = '"' :: t := by
  cases ms with
  | nil => exact ⟨_, by rw [renderMembers, quote]; rfl⟩
  | cons n ms => exact ⟨_, by simp only [renderMembers, quote]; rfl⟩

theorem readItems?_renderItems (h : ∀ j ∈ js, ReadsBack j) (hne : js ≠ [])
    (hf : 2 * (renderItems js).length < fuel) :
    readItems? fuel (renderItems js ++ ']' :: rest) = some (js, rest) := by
  induction js generalizing fuel with
  | nil => exact absurd rfl hne
  | cons j js ih =>
      obtain ⟨hj, hjs⟩ := List.forall_mem_cons.1 h
      obtain ⟨fuel, rfl⟩ : ∃ n, fuel = n + 1 := ⟨fuel - 1, by omega⟩
      cases js with
      | nil =>
          rw [renderItems] at hf ⊢
          rw [readItems?, hj fuel _ (by omega)]
          simp [skipSpace_cons, isJsonSpace]
      | cons k js =>
          have he : renderItems (j :: k :: js) = j.render ++ ',' :: renderItems (k :: js) := by
            rw [renderItems]
            exact fun h => absurd h (List.cons_ne_nil _ _)
          rw [he, List.length_append, List.length_cons] at hf
          have hr : readItems? fuel (renderItems (k :: js) ++ ']' :: rest) = some (k :: js, rest) :=
            ih hjs (List.cons_ne_nil _ _) (by omega)
          rw [he, List.append_assoc, readItems?, hj fuel _ (by omega)]
          simp [skipSpace_cons, isJsonSpace, hr]

theorem readMembers?_member {key : Text} (h : readValue? fuel (j.render ++ rest) = some (j, rest)) :
    readMembers? (fuel + 1) (quote key ++ ':' :: (j.render ++ rest)) =
      match skipSpace rest with
      | ',' :: t => (readMembers? fuel t).map fun (members, rest) => ((some key, j) :: members, rest)
      | '}' :: rest => some ([(some key, j)], rest)
      | _ => none := by
  have hq : skipSpace (quote key ++ ':' :: (j.render ++ rest)) =
      '"' :: (key.flatMap escape ++ '"' :: ':' :: (j.render ++ rest)) := by
    rw [quote, List.cons_append, List.cons_append, List.append_assoc]
    exact skipSpace_cons (by decide) _
  have hc : skipSpace (':' :: (j.render ++ rest)) = ':' :: (j.render ++ rest) :=
    skipSpace_cons (by decide) _
  rw [readMembers?, hq]
  simp only [readString?_quote, Option.bind_eq_bind, Option.bind_some, hc]
  exact congrArg (Option.bind · _) h

theorem readMembers?_renderMembers (hk : ∀ m ∈ ms, m.1.isSome) (h : ∀ m ∈ ms, ReadsBack m.2)
    (hne : ms ≠ []) (hf : 2 * (renderMembers ms).length < fuel) :
    readMembers? fuel (renderMembers ms ++ '}' :: rest) = some (ms, rest) := by
  induction ms generalizing fuel with
  | nil => exact absurd rfl hne
  | cons m ms ih =>
      obtain ⟨_ | key, j⟩ := m
      · exact absurd (hk _ List.mem_cons_self) Bool.false_ne_true
      have hj : ReadsBack j := h _ List.mem_cons_self
      obtain ⟨fuel, rfl⟩ : ∃ n, fuel = n + 1 := ⟨fuel - 1, by omega⟩
      cases ms with
      | nil =>
          rw [renderMembers, List.length_append, List.length_cons] at hf
          rw [renderMembers, Option.getD_some, List.append_assoc, List.cons_append,
            readMembers?_member (hj fuel _ (by omega)), skipSpace_cons (by decide)]
          rfl
      | cons n ms =>
          have he : renderMembers ((some key, j) :: n :: ms) =
              quote key ++ ':' :: (j.render ++ ',' :: renderMembers (n :: ms)) := by
            rw [renderMembers]
            · simp
            · exact fun h => absurd h (List.cons_ne_nil _ _)
          rw [he, List.length_append, List.length_cons, List.length_append, List.length_cons] at hf
          have hr : readMembers? fuel (renderMembers (n :: ms) ++ '}' :: rest) =
              some (n :: ms, rest) :=
            ih (List.forall_mem_cons.1 hk).2 (List.forall_mem_cons.1 h).2 (List.cons_ne_nil _ _)
              (by omega)
          rw [he, List.append_assoc, List.cons_append, List.append_assoc,
            readMembers?_member (hj fuel _ (by omega)), List.cons_append, skipSpace_cons (by decide)]
          simp only [hr, Option.map_some]

theorem readsBack_of_atom {c : Char} {t : Text} (he : j.render = c :: t)
    (hc : isJsonSpace c = false ∧ c ≠ '"' ∧ c ≠ '[' ∧ c ≠ '{')
    (h : ∀ rest, readAtom? (c :: t ++ rest) = some (j, rest)) : ReadsBack j := by
  intro fuel rest hf
  obtain ⟨fuel, rfl⟩ : ∃ n, fuel = n + 1 := by
    rw [he, List.length_cons] at hf
    exact ⟨fuel - 1, by omega⟩
  obtain ⟨hs, hq, ha, ho⟩ := hc
  rw [he, readValue?, List.cons_append, skipSpace_cons hs]
  split
  next heq => exact absurd (List.cons.inj heq).1 hq
  next heq => exact absurd (List.cons.inj heq).1 ha
  next heq => exact absurd (List.cons.inj heq).1 ho
  next => exact h rest

theorem readsBack_text (t : Text) : ReadsBack (ofText t) := by
  intro fuel rest hf
  rw [ofText, render, Option.getD_some, quote] at hf ⊢
  simp only [List.length_append, List.length_cons] at hf
  obtain ⟨fuel, rfl⟩ : ∃ n, fuel = n + 1 := ⟨fuel - 1, by omega⟩
  rw [readValue?, List.cons_append, List.cons_append, List.append_assoc, skipSpace_cons (by decide)]
  simp only [List.singleton_append, readString?_quote, Option.map_some]

theorem readsBack_array (hj : ∀ j ∈ js, j.IsTextual) (h : ∀ j ∈ js, ReadsBack j) :
    ReadsBack (array js) := by
  intro fuel rest hf
  rw [render] at hf ⊢
  simp only [List.length_cons, List.length_append, List.length_nil] at hf
  obtain ⟨fuel, rfl⟩ : ∃ n, fuel = n + 1 := ⟨fuel - 1, by omega⟩
  rw [readValue?, List.cons_append, List.cons_append, List.append_assoc, skipSpace_cons (by decide),
    List.singleton_append]
  cases js with
  | nil => rfl
  | cons j js =>
      have hr : readItems? fuel (renderItems (j :: js) ++ ']' :: rest) = some (j :: js, rest) :=
        readItems?_renderItems h (List.cons_ne_nil _ _) (by omega)
      obtain ⟨c, t, he, hs, hc⟩ := exists_renderItems_eq_cons (hj j List.mem_cons_self) js
      have hk : skipSpace (renderItems (j :: js) ++ ']' :: rest) = c :: (t ++ ']' :: rest) := by
        rw [he]
        exact skipSpace_cons hs _
      simp only [hk]
      split
      next heq => exact absurd (List.cons.inj heq).1 hc
      next => rw [hr, Option.map_some]

theorem readsBack_object (hk : ∀ m ∈ ms, m.1.isSome) (h : ∀ m ∈ ms, ReadsBack m.2) :
    ReadsBack (object ms) := by
  intro fuel rest hf
  rw [render] at hf ⊢
  simp only [List.length_cons, List.length_append, List.length_nil] at hf
  obtain ⟨fuel, rfl⟩ : ∃ n, fuel = n + 1 := ⟨fuel - 1, by omega⟩
  rw [readValue?, List.cons_append, List.cons_append, List.append_assoc, skipSpace_cons (by decide),
    List.singleton_append]
  cases ms with
  | nil => rfl
  | cons m ms =>
      have hr : readMembers? fuel (renderMembers (m :: ms) ++ '}' :: rest) = some (m :: ms, rest) :=
        readMembers?_renderMembers hk h (List.cons_ne_nil _ _) (by omega)
      obtain ⟨t, he⟩ := exists_renderMembers_eq_cons m ms
      have hs : skipSpace (renderMembers (m :: ms) ++ '}' :: rest) = '"' :: (t ++ '}' :: rest) := by
        rw [he]
        exact skipSpace_cons (by decide) _
      simp only [hs, hr, Option.map_some]
      rfl

/-- A value made of nulls, truth values and texts is read back from its text. -/
theorem IsTextual.readsBack (h : j.IsTextual) : ReadsBack j := by
  induction h with
  | null => exact readsBack_of_atom (c := 'n') (by rw [render]; rfl) (by decide) fun _ => rfl
  | bool b =>
      cases b with
      | true => exact readsBack_of_atom (c := 't') (by rw [render]; rfl) (by decide) fun _ => rfl
      | false => exact readsBack_of_atom (c := 'f') (by rw [render]; rfl) (by decide) fun _ => rfl
  | text t => exact readsBack_text t
  | array h ih => exact readsBack_array h ih
  | object hk _ ih => exact readsBack_object hk ih

theorem IsTextual.parse?_render (h : j.IsTextual) : parse? j.render = some j := by
  have hr := h.readsBack (2 * j.render.length + 1) [] (Nat.le_succ _)
  rw [List.append_nil] at hr
  rw [parse?, hr]
  rfl

end

end SqlEdit.Json
