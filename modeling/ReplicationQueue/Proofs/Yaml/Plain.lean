import ReplicationQueue.Proofs.Yaml.Character
import ReplicationQueue.Yaml.Token.Plain

/-! Plain scalars read back: a name up to the colon after it, and a text that needs no quotes up to
the end of its line, which is the end of the text or is followed by a line that is not indented. -/

namespace ReplicationQueue.Yaml

section Read

variable {indent : Int} {c : Char} {rest : List Char} {mark : Mark} {gap : Gap}

theorem readPlain_lineEnd :
    readPlain false indent ('\n' :: rest) mark gap =
      readPlain false indent rest (mark.nextLine 1) (gap.lineEnd '\n') := rfl

theorem readPlain_space :
    readPlain false indent (' ' :: rest) mark gap =
      readPlain false indent rest (mark.past ' ') (gap.blank ' ') := by
  rw [readPlain] <;> simp [isBreak, isBlank]

theorem readPlain_char (hbreak : isBreak c = false) (hblank : isBlank c = false)
    (hword : gap.isNone = true ∨ endsBeforeWord false indent mark (c :: rest) = false)
    (hend : endsBefore false c rest = false) :
    readPlain false indent (c :: rest) mark gap =
      (readPlain false indent rest (mark.past c) .none).map fun scalar =>
        { scalar with text := gap.text ++ c :: scalar.text } := by
  have hstays : (!gap.isNone && endsBeforeWord false indent mark (c :: rest)) = false := by
    rcases hword with h | h <;> simp [h]
  rw [readPlain]
  · simp [hbreak, hblank, hstays, hend]
  · rintro _ rfl
    cases hbreak

/-- The scalar ends before a line that is not indented. -/
theorem readPlain_outdented (hbreak : isBreak c = false) (hblank : isBlank c = false)
    (hgap : gap.isNone = false) (hcolumn : mark.column < indent) :
    readPlain false indent (c :: rest) mark gap = some ⟨[], c :: rest, mark, gap.isAcross⟩ := by
  rw [readPlain]
  · simp [hbreak, hblank, hgap, endsBeforeWord, hcolumn]
  · rintro _ rfl
    cases hbreak

end Read

/-! ### Names -/

/-- The characters of names are few, so that each can be looked at. -/
theorem forall_isNameCharacter {p : Char → Prop}
    (hp : ∀ n : Fin 128, isNameCharacter (Char.ofNat n) = true → p (Char.ofNat n)) {c : Char}
    (h : isNameCharacter c = true) : p c := by
  have hlt : c.toNat < 128 := by
    simp only [isNameCharacter, Bool.or_eq_true, Bool.and_eq_true, decide_eq_true_eq] at h
    rcases h with (((⟨-, h⟩ | ⟨-, h⟩) | ⟨-, h⟩) | rfl) | rfl
    · exact Nat.lt_of_le_of_lt h (by decide)
    · exact Nat.lt_of_le_of_lt h (by decide)
    · exact Nat.lt_of_le_of_lt h (by decide)
    · decide
    · decide
  have hc := hp ⟨c.toNat, hlt⟩
  rw [Char.ofNat_toNat] at hc
  exact hc h

theorem isNameCharacter_cases {c : Char} (h : isNameCharacter c = true) :
    c.utf8Size = 1 ∧ isBreak c = false ∧ isBlank c = false ∧ c ≠ ':' :=
  forall_isNameCharacter (p := fun c =>
    c.utf8Size = 1 ∧ isBreak c = false ∧ isBlank c = false ∧ c ≠ ':') (by decide) h

theorem readPlain_name {indent : Int} (name tail : List Char)
    (hname : ∀ c ∈ name, isNameCharacter c = true) (mark : Mark) :
    readPlain false indent (name ++ ':' :: ' ' :: tail) mark .none =
      some ⟨name, ':' :: ' ' :: tail, mark.forward name.length, false⟩ := by
  induction name generalizing mark with
  | nil => rfl
  | cons c rest ih =>
    obtain ⟨hc, hrest⟩ := List.forall_mem_cons.1 hname
    obtain ⟨hsize, hbreak, hblank, hcolon⟩ := isNameCharacter_cases hc
    have hend : endsBefore false c (rest ++ ':' :: ' ' :: tail) = false := by
      simp [endsBefore, hcolon]
    rw [List.cons_append, readPlain_char hbreak hblank (.inl rfl) hend, ih hrest]
    simp [Gap.none, Gap.text, Mark.past, Mark.forward, hsize, Nat.add_assoc, Nat.add_comm 1]

/-! ### Texts -/

/-- What may follow the line of a value: nothing, or a line that is not indented. -/
def IsOutdented (tail : List Char) : Prop :=
  ∀ c ∈ tail.head?, isBreak c = false ∧ isBlank c = false

theorem startsWithGap_append (text tail : List Char) :
    startsWithGap (text ++ '\n' :: tail) = startsWithGap text := by
  cases text <;> rfl

/-- The end of a text that needs no quotes. -/
structure IsUnquoted (text : List Char) : Prop where
  printable : ∀ c ∈ text, isPrintable c = true
  unbroken : ∀ c ∈ text, isBreak c = false
  last : text.getLast?.any isSpace = false
  key : hasKeyEnd text = false
  comment : hasPair isGap (· = '#') text = false

theorem IsUnquoted.tail {c : Char} {rest : List Char} (h : IsUnquoted (c :: rest)) :
    IsUnquoted rest where
  printable := (List.forall_mem_cons.1 h.printable).2
  unbroken := (List.forall_mem_cons.1 h.unbroken).2
  last := by
    have hlast := h.last
    cases rest with
    | nil => rfl
    | cons d rest => rwa [getLast?_any_cons (by simp)] at hlast
  key := by
    have hkey := h.key
    rw [hasKeyEnd, Bool.or_eq_false_iff] at hkey
    exact hkey.2
  comment := by
    have hcomment := h.comment
    rw [hasPair_cons, Bool.or_eq_false_iff] at hcomment
    exact hcomment.2

theorem isUnquoted_of_allowsPlain {text : List Char} (h : allowsPlain text = true) :
    IsUnquoted text := by
  simp only [allowsPlain, hasIndicator, startsOrEndsWith, Bool.and_eq_true, Bool.not_eq_true',
    Bool.or_eq_false_iff, List.all_eq_true, List.any_eq_false, Bool.not_eq_true] at h
  obtain ⟨⟨⟨hprintable, hunbroken⟩, -, hlast⟩, ⟨⟨-, hindicator⟩, hkey⟩, hcomment⟩ := h
  refine ⟨hprintable, hunbroken, hlast, ?_, hcomment⟩
  cases text with
  | nil => rfl
  | cons c rest =>
    rw [List.drop_one, List.tail_cons] at hkey
    rw [hasKeyEnd, hkey, Bool.or_false]
    by_cases hcolon : c = ':'
    · rw [startsWithIndicator, if_pos (by simp [hcolon])] at hindicator
      rw [hindicator, Bool.and_false]
    · simp [hcolon]

/-- A text that needs no quotes is read up to the end of its line; `blanks` are those before it. -/
theorem readPlain_write {indent : Int} {tail : List Char} (htail : IsOutdented tail)
    (hindent : 0 < indent) (text : List Char) (h : IsUnquoted text) (mark : Mark)
    (blanks : List Char) (hcolumn : indent ≤ mark.column)
    (hblanks : blanks = [] ∨ text ≠ [] ∧ text.head? ≠ some '#') :
    ∃ last, last.column = 0 ∧
      readPlain false indent (text ++ '\n' :: tail) mark (.within blanks) =
        some ⟨blanks ++ text, tail, last, true⟩ := by
  induction text generalizing mark blanks with
  | nil =>
    obtain rfl : blanks = [] := hblanks.resolve_right (by simp)
    refine ⟨mark.nextLine 1, rfl, ?_⟩
    rw [List.nil_append, readPlain_lineEnd]
    cases tail with
    | nil => rfl
    | cons c more =>
      obtain ⟨hc, hc'⟩ := htail c rfl
      exact readPlain_outdented hc hc' rfl hindent
  | cons c rest ih =>
    have hprintable : isPrintable c = true := h.printable c (by simp)
    have hnext : indent ≤ ((mark.past c).column : Int) := by
      show indent ≤ ((mark.column + 1 : Nat) : Int)
      omega
    rw [List.cons_append]
    cases hblank : isBlank c with
    | true =>
      rw [isBlank_of_isPrintable hprintable] at hblank
      obtain rfl : c = ' ' := by simpa [isSpace] using hblank
      -- A text does not end with a space, so that a word follows, which begins no comment.
      have hrest : rest ≠ [] := by
        rintro rfl
        cases h.last
      have hhead : rest.head? ≠ some '#' := by
        intro hhead
        have hcomment := h.comment
        rw [hasPair_cons, hhead] at hcomment
        cases hcomment
      obtain ⟨last, hzero, hread⟩ := ih h.tail (mark.past ' ') (blanks ++ [' ']) hnext
        (.inr ⟨hrest, hhead⟩)
      refine ⟨last, hzero, ?_⟩
      rw [readPlain_space, Gap.blank, hread, List.append_assoc, List.singleton_append]
    | false =>
      have hword : (Gap.within blanks).isNone = true ∨
          endsBeforeWord false indent mark (c :: (rest ++ '\n' :: tail)) = false := by
        rcases hblanks with rfl | ⟨-, hhead⟩
        · exact .inl rfl
        · rw [List.head?_cons] at hhead
          have hpositive : mark.column ≠ 0 := by omega
          exact .inr (by simp [endsBeforeWord, hpositive, hhead, hcolumn])
      have hend : endsBefore false c (rest ++ '\n' :: tail) = false := by
        have hkey := h.key
        rw [hasKeyEnd, Bool.or_eq_false_iff] at hkey
        rw [endsBefore, startsWithGap_append, hkey.1]
        rfl
      obtain ⟨last, hzero, hread⟩ := ih h.tail (mark.past c) [] hnext (.inl rfl)
      refine ⟨last, hzero, ?_⟩
      rw [readPlain_char (h.unbroken c (by simp)) hblank hword hend, Gap.none, hread]
      rfl

end ReplicationQueue.Yaml
