import SqlEdit.Nesting.Cut
import SqlEdit.Proofs.Text.Trim

namespace SqlEdit

theorem forall_of_beq {P : Char → Prop} {d : Char} (h : P d) (c : Char) (hc : c == d) : P c :=
  eq_of_beq hc ▸ h

def Nesting.isPlain (c : Char) : Bool :=
  c != '\'' && c != '"' && c != '(' && c != ')'

theorem Nesting.step_of_isPlain {n : Nesting} {c : Char} (h : isPlain c) : n.step c = n :=
  step_of_plain (by simpa [isPlain, and_assoc] using h)

theorem Nesting.after_of_isPlain {n : Nesting} {t : Text} (h : t.all isPlain) : n.after t = n := by
  induction t with
  | nil => rfl
  | cons c t ih =>
      rw [List.all_cons, Bool.and_eq_true] at h
      rw [after_cons, step_of_isPlain h.1, ih h.2]

theorem Nesting.isPlain_of_class {p : Char → Bool} {c : Char} (h : p c)
    (hp : ['\'', '"', '(', ')'].any p = false) : isPlain c := by
  have hne (d : Char) (hd : d ∈ ['\'', '"', '(', ')']) : c ≠ d := by
    rintro rfl
    exact List.any_eq_false.1 hp c hd h
  simp only [isPlain, Bool.and_eq_true, bne_iff_ne]
  exact ⟨⟨⟨hne _ (by simp), hne _ (by simp)⟩, hne _ (by simp)⟩, hne _ (by simp)⟩

theorem isPlain_of_isBlank {c : Char} (h : isBlank c) : Nesting.isPlain c :=
  Nesting.isPlain_of_class h (by decide)

theorem isPlain_of_isSpace {c : Char} (h : isSpace c) : Nesting.isPlain c :=
  isPlain_of_isBlank (isBlank_of_isSpace h)

theorem Nesting.after_of_isBlank {n : Nesting} {t : Text} (h : Text.isBlank t) : n.after t = n := by
  refine after_of_isPlain (List.all_eq_true.2 fun c hc => ?_)
  exact isPlain_of_isBlank (List.all_eq_true.1 h c hc)

namespace Text

def Closed (t : Text) : Prop :=
  Nesting.top.after t = .top

instance (t : Text) : Decidable (Closed t) :=
  inferInstanceAs (Decidable (_ = _))

theorem closed_of_isPlain {t : Text} (h : t.all Nesting.isPlain) : Closed t :=
  Nesting.after_of_isPlain h

theorem Closed.after_append {s : Text} (hs : Closed s) (t : Text) :
    Nesting.top.after (s ++ t) = Nesting.top.after t := by
  rw [Nesting.after_append, hs]

theorem Closed.append_iff {s t : Text} (hs : Closed s) : Closed (s ++ t) ↔ Closed t := by
  rw [Closed, hs.after_append, Closed]

theorem Closed.append {s t : Text} (hs : Closed s) (ht : Closed t) : Closed (s ++ t) :=
  hs.append_iff.2 ht

theorem Closed.cons {c : Char} {t : Text} (hc : Nesting.isPlain c) (ht : Closed t) :
    Closed (c :: t) := by
  rw [Closed, Nesting.after_cons, Nesting.step_of_isPlain hc, ht]

theorem closed_of_isBlank {t : Text} (h : isBlank t) : Closed t :=
  Nesting.after_of_isBlank h

theorem closed_append_blank {s t : Text} (ht : isBlank t) : Closed (s ++ t) ↔ Closed s := by
  rw [Closed, Nesting.after_append, Nesting.after_of_isBlank ht, Closed]

theorem closed_trim {t : Text} : Closed (trim t) ↔ Closed t := by
  obtain ⟨front, back, hf, hb, he⟩ := exists_eq_trim t
  have h : Closed t ↔ Closed (front ++ trim t ++ back) := by rw [← he]
  rw [h, closed_append_blank hb, (closed_of_isBlank hf).append_iff]

theorem closed_trimStart {t : Text} : Closed (trimStart t) ↔ Closed t := by
  obtain ⟨s, hs, he⟩ := exists_eq_trimStart t
  have h : Closed t ↔ Closed (s ++ trimStart t) := by rw [← he]
  rw [h, (closed_of_isBlank hs).append_iff]

theorem closed_trimEnd {t : Text} : Closed (trimEnd t) ↔ Closed t := by
  obtain ⟨s, hs, he⟩ := exists_eq_trimEnd t
  have h : Closed t ↔ Closed (trimEnd t ++ s) := by rw [← he]
  rw [h, closed_append_blank hs]

end Text

end SqlEdit
