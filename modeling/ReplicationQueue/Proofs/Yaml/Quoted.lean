import Mathlib.Algebra.Group.Nat.Defs
import ReplicationQueue.Proofs.Yaml.Character
import ReplicationQueue.Yaml.Token.Quoted

/-! Scalars between quotes read back: the escapes of double quotes stand for the characters that
they were written for, and folding of lines takes nothing from a text that single quotes are allowed
for. -/

namespace ReplicationQueue.Yaml

/-! ### Escapes -/

theorem isAllowed_upperDigit {n : Nat} (h : n < 16) : isAllowed (Hex.upperDigit n) = true := by
  have hdigits : ∀ m : Fin 16, isAllowed (Hex.upperDigit m) = true := by decide
  exact hdigits ⟨n, h⟩

theorem readCode_padded (width more value n : Nat) (tail : List Char) :
    readCode (width + more) value (Hex.padded Hex.upperDigit width n ++ tail) =
      readCode more (value * 16 ^ width + n % 16 ^ width) tail := by
  induction width generalizing more n tail with
  | zero => simp [Hex.padded, Nat.mod_one]
  | succ width ih =>
    have hdigit : n % 16 < 16 := Nat.mod_lt _ (by decide)
    have hmod : n % 16 ^ (width + 1) = n / 16 % 16 ^ width * 16 + n % 16 := by
      rw [Nat.pow_succ', Nat.mod_mul, Nat.add_comm, Nat.mul_comm]
    rw [Hex.padded, List.append_assoc, Nat.add_right_comm, Nat.add_assoc, ih, List.singleton_append,
      readCode, Hex.value?_upperDigit hdigit]
    show readCode more ((value * 16 ^ width + n / 16 % 16 ^ width) * 16 + n % 16) tail = _
    rw [hmod, Nat.pow_succ, Nat.add_mul, Nat.mul_assoc, Nat.add_assoc]

theorem charOf?_toNat (c : Char) : charOf? c.toNat = some c := by
  have hvalid : c.toNat.isValidChar := c.valid
  rw [charOf?, if_pos hvalid, Char.ofNat_toNat]

theorem readEscape_code {c mark : Char} {width : Nat} (hmark : escapes.lookup mark = none)
    (hwidth : codeWidths.lookup mark = some width) (hc : c.toNat < 16 ^ width) (tail : List Char) :
    readEscape (mark :: (Hex.padded Hex.upperDigit width c.toNat ++ tail)) =
      some (c, tail, width + 1) := by
  have hcode := readCode_padded width 0 0 c.toNat tail
  rw [Nat.add_zero, Nat.zero_mul, Nat.zero_add, Nat.mod_eq_of_lt hc, readCode] at hcode
  rw [readEscape, hmark]
  simp [hwidth, hcode, charOf?_toNat]

/-- A character is written as it is, or as an escape that stands for it. -/
theorem escape_cases (c : Char) :
    escape c = [c] ∧ isPrintable c = true ∧ isBreak c = false ∧ c ≠ '"' ∧ c ≠ '\\' ∨
      ∃ letter digits, escape c = '\\' :: letter :: digits ∧ isBreak letter = false ∧
        (∀ d ∈ letter :: digits, isAllowed d = true) ∧
        ∀ tail, readEscape (letter :: (digits ++ tail)) = some (c, tail, digits.length + 1) := by
  unfold escape
  cases hlookup : shortEscapes.lookup c with
  | some letter =>
    have hmem : (c, letter) ∈ shortEscapes := by
      obtain ⟨front, back, heq, -⟩ := List.lookup_eq_some_iff.1 hlookup
      simp [heq]
    have hall : ∀ p ∈ shortEscapes, isBreak p.2 = false ∧ isAllowed p.2 = true ∧
        escapes.lookup p.2 = some p.1 := by decide
    obtain ⟨hbreak, hallowed, hescape⟩ := hall _ hmem
    refine .inr ⟨letter, [], rfl, hbreak, by simpa using hallowed, fun tail => ?_⟩
    rw [readEscape, hescape]
    rfl
  | none =>
    have hshort : ∀ d letter, shortEscapes.lookup d = some letter → c ≠ d := by
      rintro d letter hd rfl
      rw [hlookup] at hd
      cases hd
    cases hprint : isPrintable c with
    | true =>
      refine .inl ⟨rfl, rfl, ?_, hshort _ _ rfl, hshort _ _ rfl⟩
      rw [Bool.eq_false_iff, Ne, isBreak_iff]
      rintro (h | h | h | h | h) <;> exact hshort _ _ rfl h
    | false =>
      have hdigits : ∀ width, ∀ d ∈ Hex.padded Hex.upperDigit width c.toNat, isAllowed d = true :=
        fun width => Hex.forall_mem_padded (fun _ => isAllowed_upperDigit) width c.toNat
      have hlarge : c.toNat ≤ 0xffff := by
        simp only [isPrintable, Bool.or_eq_false_iff, decide_eq_false_iff_not] at hprint
        exact Nat.le_of_not_lt hprint.2
      refine .inr ?_
      simp only [Bool.false_eq_true, if_false, codeEscape]
      split
      · rename_i hsmall
        refine ⟨_, _, rfl, rfl, List.forall_mem_cons.2 ⟨rfl, hdigits 2⟩, fun tail => ?_⟩
        rw [Hex.length_padded]
        exact readEscape_code rfl rfl (Nat.lt_succ_of_le hsmall) tail
      · refine ⟨_, _, rfl, rfl, List.forall_mem_cons.2 ⟨rfl, hdigits 4⟩, fun tail => ?_⟩
        rw [Hex.length_padded]
        exact readEscape_code rfl rfl (Nat.lt_succ_of_le hlarge) tail

/-! ### Double quotes -/

section Double

variable {c d : Char} {rest tail : List Char} {mark : Mark} {gap : Gap} {n : Nat}

theorem readDoubleQuoted_escape (hbreak : isBreak c = false)
    (hescape : readEscape (c :: rest) = some (d, tail, n)) :
    readDoubleQuoted ('\\' :: c :: rest) mark gap =
      (readDoubleQuoted tail (mark.forward (n + 1)) .none).map (·.prepend (gap.text ++ [d])) := by
  rw [readDoubleQuoted]
  · rw [if_neg (by simp [hbreak])]
    split
    · rename_i hnone
      rw [hnone] at hescape
      cases hescape
    · rename_i hsome
      rw [hsome] at hescape
      cases hescape
      rfl
  · rintro _ rfl
    cases hbreak

theorem readDoubleQuoted_space :
    readDoubleQuoted (' ' :: rest) mark gap =
      readDoubleQuoted rest (mark.past ' ') (gap.blank ' ') := by
  rw [readDoubleQuoted] <;> simp [isBlank, isBreak]

theorem readDoubleQuoted_char (hbreak : isBreak c = false) (hblank : isBlank c = false)
    (hcolumn : mark.column ≠ 0) (hquote : c ≠ '"') (hslash : c ≠ '\\') :
    readDoubleQuoted (c :: rest) mark gap =
      (readDoubleQuoted rest (mark.past c) .none).map (·.prepend (gap.text ++ [c])) := by
  rw [readDoubleQuoted]
  · simp [*]
  · rintro _ rfl
    cases hbreak
  · rintro _ rfl
    exact absurd rfl hslash
  · rintro _ _ rfl
    exact absurd rfl hslash

theorem readDoubleQuoted_end (hcolumn : mark.column ≠ 0) :
    readDoubleQuoted ('"' :: rest) mark gap = some ⟨gap.text, rest, mark.forward 1⟩ := by
  rw [readDoubleQuoted] <;> simp [isBreak, isBlank, hcolumn]

/-- What was escaped is read; `blanks` are those before it. -/
theorem readDoubleQuoted_write (mark : Mark) (text blanks tail : List Char)
    (hcolumn : mark.column ≠ 0) :
    ∃ last, readDoubleQuoted (text.flatMap escape ++ '"' :: tail) mark (.within blanks) =
      some ⟨blanks ++ text, tail, last⟩ := by
  induction text generalizing mark blanks with
  | nil =>
    rw [List.flatMap_nil, List.nil_append, readDoubleQuoted_end hcolumn, List.append_nil]
    exact ⟨_, rfl⟩
  | cons c rest ih =>
    rw [List.flatMap_cons, List.append_assoc]
    rcases escape_cases c with
      ⟨hsame, hprint, hbreak, hquote, hslash⟩ | ⟨letter, digits, hescape, hbreak, -, hread⟩
    · rw [hsame, List.singleton_append]
      cases hblank : isBlank c with
      | true =>
        rw [isBlank_of_isPrintable hprint] at hblank
        obtain rfl : c = ' ' := by simpa [isSpace] using hblank
        obtain ⟨last, hlast⟩ := ih (mark.past ' ') (blanks ++ [' ']) (Nat.succ_ne_zero _)
        rw [readDoubleQuoted_space, Gap.blank, hlast, List.append_assoc, List.singleton_append]
        exact ⟨last, rfl⟩
      | false =>
        obtain ⟨last, hlast⟩ := ih (mark.past c) [] (Nat.succ_ne_zero _)
        rw [readDoubleQuoted_char hbreak hblank hcolumn hquote hslash, Gap.none, hlast]
        exact ⟨last, by simp [QuotedScalar.prepend, Gap.text]⟩
    · rw [hescape, List.cons_append, List.cons_append]
      obtain ⟨last, hlast⟩ := ih (mark.forward (digits.length + 1 + 1)) []
        (Nat.succ_ne_zero _)
      rw [readDoubleQuoted_escape hbreak (hread _), Gap.none, hlast]
      exact ⟨last, by simp [QuotedScalar.prepend, Gap.text]⟩

end Double

/-! ### Single quotes -/

section Single

variable {c : Char} {rest tail : List Char} {mark : Mark} {gap : Gap}

theorem readSingleQuoted_lineEnd (hbreak : isBreak c = true) (hreturn : c ≠ '\r') :
    readSingleQuoted (c :: rest) mark gap =
      readSingleQuoted rest (mark.nextLine c.utf8Size) (gap.lineEnd (breakText c)) := by
  rw [readSingleQuoted]
  · rw [if_pos hbreak]
  · rintro _ rfl
    exact absurd rfl hreturn
  · rintro _ rfl
    cases hbreak

theorem readSingleQuoted_space :
    readSingleQuoted (' ' :: rest) mark gap =
      readSingleQuoted rest (mark.past ' ') (gap.blank ' ') := rfl

theorem readSingleQuoted_quote :
    readSingleQuoted ('\'' :: '\'' :: rest) mark gap =
      (readSingleQuoted rest (mark.forward 2) .none).map (·.prepend (gap.text ++ ['\''])) := rfl

theorem readSingleQuoted_char (hbreak : isBreak c = false) (hblank : isBlank c = false)
    (hcolumn : mark.column ≠ 0) (hquote : c ≠ '\'') :
    readSingleQuoted (c :: rest) mark gap =
      (readSingleQuoted rest (mark.past c) .none).map (·.prepend (gap.text ++ [c])) := by
  rw [readSingleQuoted]
  · simp [*]
  · rintro _ rfl
    cases hbreak
  · rintro _ rfl
    exact absurd rfl hquote

theorem readSingleQuoted_end (hcolumn : mark.column ≠ 0) :
    readSingleQuoted ('\'' :: '\n' :: tail) mark gap =
      some ⟨gap.text, '\n' :: tail, mark.forward 1⟩ := by
  rw [readSingleQuoted] <;> simp [isBreak, isBlank, hcolumn]

theorem Gap.text_across {first : Char} (h : first ≠ '\n') (more : List Char) :
    (Gap.across (some first) more).text = first :: more := by
  unfold Gap.text
  split <;> simp_all

/-- A character within a line, or the two quotes for one. -/
theorem readSingleQuoted_within (hbreak : isBreak c = false) (hblank : isBlank c = false)
    (hcolumn : mark.column ≠ 0) {text : List Char} (hrest : ∀ mark : Mark, mark.column ≠ 0 →
      ∃ last, readSingleQuoted rest mark .none = some ⟨text, tail, last⟩) :
    ∃ last, readSingleQuoted ((if c = '\'' then ['\''] else []) ++ c :: rest) mark gap =
      some ⟨gap.text ++ c :: text, tail, last⟩ := by
  by_cases hquote : c = '\''
  · obtain ⟨last, hlast⟩ := hrest (mark.forward 2) (Nat.succ_ne_zero _)
    rw [hquote, if_pos rfl, List.singleton_append, readSingleQuoted_quote, hlast]
    exact ⟨last, by simp [QuotedScalar.prepend]⟩
  · obtain ⟨last, hlast⟩ := hrest (mark.past c) (Nat.succ_ne_zero _)
    rw [if_neg hquote, List.nil_append, readSingleQuoted_char hbreak hblank hcolumn hquote, hlast]
    exact ⟨last, by simp [QuotedScalar.prepend]⟩

theorem hasLooseBreak_cons : hasLooseBreak (c :: rest) =
    ((isBreak c && rest.head?.any isSpace || isSpace c && rest.head?.any isBreak) ||
      hasLooseBreak rest) := by
  rw [hasLooseBreak, hasLooseBreak, hasPair_cons, hasPair_cons]
  cases isBreak c <;> cases isSpace c <;> simp [Bool.or_assoc, Bool.or_left_comm]

theorem isAllowed_writeSingle {text : List Char} (h : ∀ c ∈ text, isPrintable c = true)
    (newLine : Bool) : ∀ c ∈ writeSingle newLine text, isAllowed c = true := by
  induction text generalizing newLine with
  | nil => exact isAllowed_indent newLine
  | cons c rest ih =>
    obtain ⟨hc, hrest⟩ := List.forall_mem_cons.1 h
    have hallowed := isAllowed_of_isPrintable hc
    rw [writeSingle]
    split
    · have hmore : ∀ d ∈ if newLine || decide (c ≠ '\n') then [] else ['\n'],
          isAllowed d = true := by
        split <;> exact List.all_eq_true.1 rfl
      exact List.forall_mem_append.2
        ⟨hmore, List.forall_mem_cons.2 ⟨hallowed, ih hrest true⟩⟩
    · have hquote : ∀ d ∈ if c = '\'' then ['\''] else [], isAllowed d = true := by
        split <;> exact List.all_eq_true.1 rfl
      exact List.forall_mem_append.2 ⟨List.forall_mem_append.2 ⟨isAllowed_indent newLine, hquote⟩,
        List.forall_mem_cons.2 ⟨hallowed, ih hrest false⟩⟩

/-- What was written between single quotes is read, within a line after `blanks`, and at the start
of one after the ends of lines. -/
theorem readSingleQuoted_write (text : List Char) (hprint : ∀ c ∈ text, isPrintable c = true)
    (hline : '\n' ∉ text) (hloose : hasLooseBreak text = false) :
    (∀ (mark : Mark) (blanks : List Char), mark.column ≠ 0 →
      blanks = [] ∨ text.head?.any isBreak = false →
      ∃ last, readSingleQuoted (writeSingle false text ++ '\'' :: '\n' :: tail) mark
        (.within blanks) = some ⟨blanks ++ text, '\n' :: tail, last⟩) ∧
    ∀ (mark : Mark) (first : Char) (more : List Char), first ≠ '\n' →
      text.head?.any isSpace = false →
      ∃ last, readSingleQuoted (writeSingle true text ++ '\'' :: '\n' :: tail) mark
        (.across (some first) more) = some ⟨first :: more ++ text, '\n' :: tail, last⟩ := by
  induction text with
  | nil =>
    refine ⟨fun mark blanks hcolumn _ => ?_, fun mark first more hfirst _ => ?_⟩
    · rw [writeSingle, if_neg (by simp), List.nil_append, readSingleQuoted_end hcolumn,
        List.append_nil]
      exact ⟨_, rfl⟩
    · rw [writeSingle, if_pos rfl, valueIndent, List.cons_append, List.singleton_append,
        readSingleQuoted_space, readSingleQuoted_space, readSingleQuoted_end (Nat.succ_ne_zero _)]
      exact ⟨_, by rw [Gap.blank, Gap.blank, Gap.text_across hfirst, List.append_nil]⟩
  | cons c rest ih =>
    obtain ⟨hc, hrest⟩ := List.forall_mem_cons.1 hprint
    obtain ⟨hne, hline⟩ := not_or.1 (mt List.mem_cons.2 hline)
    rw [hasLooseBreak_cons, Bool.or_eq_false_iff, Bool.or_eq_false_iff] at hloose
    obtain ⟨⟨hspace, hbefore⟩, hloose⟩ := hloose
    obtain ⟨hwithin, hacross⟩ := ih hrest hline hloose
    refine ⟨fun mark blanks hcolumn hblanks => ?_, fun mark first more hfirst hhead => ?_⟩
    · rw [writeSingle]
      cases hbreak : isBreak c with
      | true =>
        -- Blanks before the end of a line would be lost, so there are none.
        obtain rfl : blanks = [] := by
          rw [List.head?_cons, Option.any_some, hbreak] at hblanks
          exact hblanks.resolve_right (by simp)
        rw [hbreak, Bool.true_and] at hspace
        obtain ⟨last, hlast⟩ := hacross (mark.nextLine c.utf8Size) c [] (Ne.symm hne) hspace
        rw [if_pos rfl, if_pos (by simpa using Ne.symm hne), List.nil_append, List.cons_append,
          readSingleQuoted_lineEnd hbreak (ne_return_of_isPrintable hc), Gap.lineEnd,
          breakText_of_isPrintable hc hbreak, hlast]
        exact ⟨last, rfl⟩
      | false =>
        rw [if_neg (by simp), if_neg (by simp), List.nil_append, List.append_assoc,
          List.cons_append]
        cases hblank : isBlank c with
        | true =>
          rw [isBlank_of_isPrintable hc] at hblank
          rw [hblank, Bool.true_and] at hbefore
          obtain rfl : c = ' ' := by simpa [isSpace] using hblank
          obtain ⟨last, hlast⟩ := hwithin (mark.past ' ') (blanks ++ [' ']) (Nat.succ_ne_zero _)
            (.inr hbefore)
          rw [if_neg (by decide), List.nil_append, readSingleQuoted_space, Gap.blank, hlast,
            List.append_assoc, List.singleton_append]
          exact ⟨last, rfl⟩
        | false =>
          exact readSingleQuoted_within hbreak hblank hcolumn fun mark hmark =>
            hwithin mark [] hmark (.inl rfl)
    · rw [writeSingle]
      cases hbreak : isBreak c with
      | true =>
        rw [hbreak, Bool.true_and] at hspace
        obtain ⟨last, hlast⟩ := hacross (mark.nextLine c.utf8Size) first (more ++ [c]) hfirst hspace
        rw [if_pos rfl, if_pos (by simp), List.nil_append, List.cons_append,
          readSingleQuoted_lineEnd hbreak (ne_return_of_isPrintable hc), Gap.lineEnd,
          breakText_of_isPrintable hc hbreak, hlast]
        exact ⟨last, by simp⟩
      | false =>
        have hblank : isBlank c = false := by
          rw [isBlank_of_isPrintable hc]
          simpa using hhead
        have hfold : first :: (more ++ c :: rest) =
            (Gap.across (some first) more).text ++ c :: rest := by
          rw [Gap.text_across hfirst, List.cons_append]
        rw [if_neg (by simp), if_pos rfl, valueIndent]
        simp only [List.cons_append, List.nil_append, List.append_assoc, readSingleQuoted_space,
          Gap.blank]
        rw [hfold]
        exact readSingleQuoted_within hbreak hblank (Nat.succ_ne_zero _) fun mark hmark =>
          hwithin mark [] hmark (.inl rfl)

end Single

end ReplicationQueue.Yaml
