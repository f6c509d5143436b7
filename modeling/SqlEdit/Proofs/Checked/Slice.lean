import SqlEdit.Proofs.Nesting.Outline

namespace SqlEdit

inductive Fault where
  | index
  | range
  | underflow
  | stalled
  deriving DecidableEq

/-- What a program gives unless it stops with a fault. -/
abbrev Checked := Except Fault

namespace Checked

variable {α β : Type}

@[simp]
theorem ok_bind (a : α) (f : α → Checked β) : ((.ok a : Checked α) >>= f) = f a := rfl

@[simp]
theorem pure_eq (a : α) : (pure a : Checked α) = .ok a := rfl

def get (as : List α) (i : Nat) : Checked α :=
  match as[i]? with
  | some a => .ok a
  | none => .error .index

def between (as : List α) (start stop : Nat) : Checked (List α) :=
  if start ≤ stop ∧ stop ≤ as.length then .ok ((as.take stop).drop start) else .error .range

def sub (m n : Nat) : Checked Nat :=
  if n ≤ m then .ok (m - n) else .error .underflow

theorem between_of_append {as bs cs : List α} {i j : Nat} (hi : i = as.length)
    (hj : j = as.length + bs.length) : between (as ++ bs ++ cs) i j = .ok bs := by
  have hl : (as ++ bs ++ cs).take (as ++ bs).length = as ++ bs := List.take_left
  rw [List.length_append] at hl
  rw [between, hi, hj, if_pos ⟨Nat.le_add_right _ _, by simp⟩, hl, List.drop_left]

theorem between_append_right (as bs : List α) :
    between (as ++ bs) as.length (as ++ bs).length = .ok bs := by
  have h : between (as ++ bs ++ []) as.length (as.length + bs.length) = .ok bs :=
    between_of_append rfl rfl
  rwa [List.append_nil, ← List.length_append] at h

theorem sub_of_le {m n : Nat} (h : n ≤ m) : sub m n = .ok (m - n) :=
  if_pos h

def andThen (x : Checked (Option α)) (f : α → Checked (Option β)) : Checked (Option β) := do
  match ← x with
  | none => return none
  | some a => f a

theorem andThen_eq {x : Checked (Option α)} {o : Option α} {f : α → Checked (Option β)}
    {g : α → Option β} (hx : x = .ok o) (hf : ∀ a, f a = .ok (g a)) :
    andThen x f = .ok (o.bind g) := by
  rw [andThen, hx, ok_bind]
  cases o with
  | none => rfl
  | some a => exact hf a

def collect (f : α → Checked (Option β)) : List α → Checked (Option (List β))
  | [] => .ok (some [])
  | a :: as => andThen (f a) fun b => do
    return (← collect f as).map (b :: ·)

theorem collect_eq {f : α → Checked (Option β)} {g : α → Option β} {as : List α}
    (h : ∀ a ∈ as, f a = .ok (g a)) : collect f as = .ok (as.mapM g) := by
  induction as with
  | nil => rfl
  | cons a as ih =>
      obtain ⟨ha, has⟩ := List.forall_mem_cons.1 h
      rw [collect, List.mapM_cons]
      refine andThen_eq ha fun b => ?_
      rw [ih has]
      cases as.mapM g <;> rfl

theorem mapM_eq_ok {f : α → Checked β} {g : α → β} {as : List α} (h : ∀ a ∈ as, f a = .ok (g a)) :
    as.mapM f = .ok (as.map g) := by
  induction as with
  | nil => rfl
  | cons a as ih =>
      obtain ⟨ha, has⟩ := List.forall_mem_cons.1 h
      rw [List.mapM_cons, ha, ih has]
      rfl

theorem option_mapM_eq_ok {f : α → Checked β} {g : α → β} (h : ∀ a, f a = .ok (g a))
    (o : Option α) : o.mapM f = .ok (o.map g) := by
  cases o with
  | none => rfl
  | some a => rw [Option.mapM_some, h]; rfl

end Checked

namespace Text

def isBorder (t : Text) (offset : Nat) : Bool :=
  match t.utf8[offset]? with
  | some b => decide b.IsUTF8FirstByte
  | none => offset == t.utf8.length

def dropBytes : Nat → Text → Text
  | 0, t => t
  | _ + 1, [] => []
  | n + 1, c :: t => dropBytes (n + 1 - c.utf8Size) t

def takeBytes : Nat → Text → Text
  | 0, _ => []
  | _ + 1, [] => []
  | n + 1, c :: t => c :: takeBytes (n + 1 - c.utf8Size) t

variable {s t u : Text}

theorem utf8_append (s t : Text) : utf8 (s ++ t) = utf8 s ++ utf8 t :=
  List.flatMap_append

theorem utf8_cons (c : Char) (t : Text) : utf8 (c :: t) = String.utf8EncodeChar c ++ utf8 t :=
  List.flatMap_cons

theorem byteSize_concat (t : Text) (c : Char) : byteSize (t ++ [c]) = byteSize t + c.utf8Size := by
  rw [byteSize_append, byteSize, byteSize, Nat.add_zero]

@[simp]
theorem length_utf8 (t : Text) : t.utf8.length = t.byteSize := by
  induction t with
  | nil => rfl
  | cons c t ih =>
      rw [utf8_cons, List.length_append, String.length_utf8EncodeChar, ih, byteSize]

theorem isBorder_append (s t : Text) : isBorder (s ++ t) s.byteSize := by
  rw [isBorder, utf8_append, ← length_utf8, List.getElem?_append_right (Nat.le_refl _), Nat.sub_self]
  cases t with
  | nil => simp [utf8]
  | cons c t =>
      have hl : 0 < (String.utf8EncodeChar c).length := by
        rw [String.length_utf8EncodeChar]
        exact c.utf8Size_pos
      rw [utf8_cons, List.getElem?_append_left hl, List.getElem?_eq_getElem hl]
      exact decide_eq_true (UInt8.isUTF8FirstByte_getElem_utf8EncodeChar.2 rfl)

theorem dropBytes_append (s t : Text) : dropBytes s.byteSize (s ++ t) = t := by
  induction s with
  | nil => rw [byteSize, List.nil_append, dropBytes]
  | cons c s ih =>
      obtain ⟨n, hn⟩ := Nat.exists_eq_add_one_of_ne_zero (Nat.ne_of_gt
        (Nat.add_pos_left c.utf8Size_pos (byteSize s)))
      rw [byteSize, hn, List.cons_append, dropBytes, ← hn, Nat.add_sub_cancel_left, ih]

theorem takeBytes_append (s t : Text) : takeBytes s.byteSize (s ++ t) = s := by
  induction s with
  | nil => rw [byteSize, takeBytes]
  | cons c s ih =>
      obtain ⟨n, hn⟩ := Nat.exists_eq_add_one_of_ne_zero (Nat.ne_of_gt
        (Nat.add_pos_left c.utf8Size_pos (byteSize s)))
      rw [byteSize, hn, List.cons_append, takeBytes, ← hn, Nat.add_sub_cancel_left, ih]

end Text

namespace Checked

/-- The text between two byte offsets. Both have to be borders, the first not behind the second. -/
def slice (t : Text) (start stop : Nat) : Checked Text :=
  if start ≤ stop ∧ t.isBorder start ∧ t.isBorder stop then
    .ok (Text.takeBytes (stop - start) (Text.dropBytes start t))
  else .error .range

theorem slice_of_append {t s m r : Text} {i j : Nat} (ht : t = s ++ m ++ r) (hi : i = s.byteSize)
    (hj : j = s.byteSize + m.byteSize) : slice t i j = .ok m := by
  subst ht hi hj
  have hs : (s ++ m ++ r).isBorder s.byteSize := by
    rw [List.append_assoc]
    exact Text.isBorder_append s (m ++ r)
  have hm : (s ++ m ++ r).isBorder (s.byteSize + m.byteSize) := by
    rw [← Text.byteSize_append]
    exact Text.isBorder_append (s ++ m) r
  rw [slice, if_pos ⟨Nat.le_add_right _ _, hs, hm⟩, Nat.add_sub_cancel_left, List.append_assoc,
    Text.dropBytes_append, Text.takeBytes_append]

def sliceTo (t : Text) (stop : Nat) : Checked Text :=
  slice t 0 stop

def sliceFrom (t : Text) (start : Nat) : Checked Text :=
  slice t start t.utf8.length

theorem sliceTo_of_append {t s r : Text} {i : Nat} (ht : t = s ++ r) (hi : i = s.byteSize) :
    sliceTo t i = .ok s :=
  slice_of_append (s := []) ht rfl (hi.trans (Nat.zero_add _).symm)

theorem sliceFrom_of_append {t s r : Text} {i : Nat} (ht : t = s ++ r) (hi : i = s.byteSize) :
    sliceFrom t i = .ok r := by
  refine slice_of_append (r := []) (ht.trans (List.append_nil _).symm) hi ?_
  rw [Text.length_utf8, ht, Text.byteSize_append]

end Checked

end SqlEdit
