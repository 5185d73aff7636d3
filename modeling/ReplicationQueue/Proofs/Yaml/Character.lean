import ReplicationQueue.Yaml.Scalar

/-! What is known of the characters that are written as they are, and of neighbours in a text. -/

namespace ReplicationQueue.Yaml

section Printable

variable {c : Char}

theorem isBreak_iff : isBreak c = true ↔
    c = '\n' ∨ c = '\r' ∨ c = '\x85' ∨ c = '\u2028' ∨ c = '\u2029' := by
  simp [isBreak, or_assoc]

theorem isAllowed_of_isPrintable (h : isPrintable c = true) : isAllowed c = true := by
  simp only [isPrintable, isAllowed, Bool.or_eq_true, Bool.and_eq_true, decide_eq_true_eq] at h ⊢
  rcases h with ((rfl | hascii) | ⟨hwide, -⟩) | hastral
  · simp
  · simp [hascii]
  · simp [hwide]
  · simp [hastral]

theorem isAllowed_indent (newLine : Bool) :
    ∀ c ∈ if newLine then valueIndent else [], isAllowed c = true := by
  cases newLine <;> exact List.all_eq_true.1 rfl

/-- Line ends that are written as they are are kept as they are. -/
theorem breakText_of_isPrintable (h : isPrintable c = true) (hb : isBreak c = true) :
    breakText c = c := by
  rcases isBreak_iff.1 hb with rfl | rfl | rfl | rfl | rfl
  · rfl
  · cases h
  · cases h
  · rfl
  · rfl

theorem ne_return_of_isPrintable (h : isPrintable c = true) : c ≠ '\r' := by
  rintro rfl
  cases h

/-- Of the blanks only spaces are written as they are. -/
theorem isBlank_of_isPrintable (h : isPrintable c = true) : isBlank c = isSpace c := by
  have htab : c ≠ '\t' := by
    rintro rfl
    cases h
  simp [isBlank, isSpace, htab]

theorem isBlank_eq_false_iff : isBlank c = false ↔ c ≠ ' ' ∧ c ≠ '\t' := by
  simp [isBlank]

theorem isBreak_of_isBlank (h : isBlank c = true) : isBreak c = false := by
  simp only [isBlank, Bool.or_eq_true, decide_eq_true_eq] at h
  rcases h with rfl | rfl <;> rfl

end Printable

section Neighbours

variable {p q : Char → Bool} {c : Char} {rest : List Char}

theorem hasPair_cons :
    hasPair p q (c :: rest) = ((p c && rest.head?.any q) || hasPair p q rest) := by
  cases rest with
  | nil => simp [hasPair]
  | cons d rest => rfl

theorem getLast?_any_cons (h : rest ≠ []) :
    (c :: rest).getLast?.any p = rest.getLast?.any p := by
  obtain ⟨d, rest, rfl⟩ := List.exists_cons_of_ne_nil h
  rw [List.getLast?_cons_cons]

end Neighbours

end ReplicationQueue.Yaml
