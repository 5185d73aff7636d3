import ReplicationQueue.Proofs.Yaml.Plain
import ReplicationQueue.Yaml.Token.Block

/-! Literal scalars read back: the lines of a text that were indented, and as many line ends after
the last of them as its header says. -/

namespace ReplicationQueue.Yaml

/-! ### Lines -/

section Lines

variable {chomp : Chomp} {indent : Nat} {c : Char} {rest tail : List Char} {mark : Mark}
  {first : Option Char} {more : List Char} {blank : Bool}

theorem readBlockLines_indent (hcolumn : mark.column < indent) :
    readBlockLines true chomp indent (' ' :: rest) mark (.indentation first more blank) =
      readBlockLines true chomp indent rest (mark.past ' ') (.indentation first more blank) := by
  rw [readBlockLines] <;> simp [hcolumn]

theorem readBlockLines_emptyLine (hprint : isPrintable c = true) (hbreak : isBreak c = true) :
    readBlockLines true chomp indent (c :: rest) mark (.indentation first more blank) =
      readBlockLines true chomp indent rest (mark.nextLine c.utf8Size)
        (.indentation first (more ++ [c]) blank) := by
  have hblank : isBlank c = false := by
    rw [Bool.eq_false_iff]
    intro hblank
    rw [isBreak_of_isBlank hblank] at hbreak
    cases hbreak
  rw [isBlank_eq_false_iff] at hblank
  rw [readBlockLines]
  · simp [hblank.1, hblank.2, hbreak, breakText_of_isPrintable hprint hbreak]
  · rintro _ rfl
    exact absurd rfl (ne_return_of_isPrintable hprint)

theorem readBlockLines_begin (hbreak : isBreak c = false) (hcolumn : mark.column = indent) :
    readBlockLines true chomp indent (c :: rest) mark (.indentation first more blank) =
      (readBlockLines true chomp indent rest (mark.past c) (.line (isBlank c))).map
        fun scalar => { scalar with text := first.toList ++ more ++ c :: scalar.text } := by
  rw [readBlockLines]
  · simp [hcolumn, hbreak, joinLines]
  · rintro _ rfl
    cases hbreak

theorem readBlockLines_lineEnd (hprint : isPrintable c = true) (hbreak : isBreak c = true) :
    readBlockLines true chomp indent (c :: rest) mark (.line blank) =
      readBlockLines true chomp indent rest (mark.nextLine c.utf8Size)
        (.indentation (some c) [] blank) := by
  rw [readBlockLines]
  · rw [if_pos hbreak, breakText_of_isPrintable hprint hbreak]
  · rintro _ rfl
    exact absurd rfl (ne_return_of_isPrintable hprint)

theorem readBlockLines_within (hbreak : isBreak c = false) :
    readBlockLines true chomp indent (c :: rest) mark (.line blank) =
      (readBlockLines true chomp indent rest (mark.past c) (.line blank)).map
        fun scalar => { scalar with text := c :: scalar.text } := by
  rw [readBlockLines]
  · rw [if_neg (by simp [hbreak])]
  · rintro _ rfl
    cases hbreak

/-- The scalar ends before a line that is not indented. -/
theorem readBlockLines_outdented (htail : IsOutdented tail) (hindent : 0 < indent)
    (hcolumn : mark.column = 0) :
    readBlockLines true chomp indent tail mark (.indentation first more blank) =
      some ⟨chomp.text first more, tail, mark⟩ := by
  cases tail with
  | nil => rfl
  | cons c tail =>
    obtain ⟨hbreak, hblank⟩ := htail c rfl
    rw [isBlank_eq_false_iff] at hblank
    rw [readBlockLines]
    · simp [hblank.1, hblank.2, hbreak, hcolumn, Nat.ne_of_lt hindent]
    · rintro _ rfl
      cases hbreak

/-- The ends of the last lines. -/
theorem readBlockLines_ends (htail : IsOutdented tail) (hindent : 0 < indent) (chomp : Chomp)
    (first : Option Char) (blank : Bool) (ends : List Char)
    (hprint : ∀ c ∈ ends, isPrintable c = true) (hbreak : ∀ c ∈ ends, isBreak c = true)
    (mark : Mark) (more : List Char) (hcolumn : mark.column = 0) :
    ∃ last, last.column = 0 ∧
      readBlockLines true chomp indent (ends ++ tail) mark (.indentation first more blank) =
        some ⟨chomp.text first (more ++ ends), tail, last⟩ := by
  induction ends generalizing mark more with
  | nil =>
    rw [List.nil_append, List.append_nil]
    exact ⟨mark, hcolumn, readBlockLines_outdented htail hindent hcolumn⟩
  | cons c rest ih =>
    obtain ⟨hprintc, hprint⟩ := List.forall_mem_cons.1 hprint
    obtain ⟨hbreakc, hbreak⟩ := List.forall_mem_cons.1 hbreak
    obtain ⟨last, hzero, hread⟩ := ih hprint hbreak (mark.nextLine c.utf8Size) (more ++ [c]) rfl
    refine ⟨last, hzero, ?_⟩
    rw [List.cons_append, readBlockLines_emptyLine hprintc hbreakc, hread, List.append_assoc,
      List.singleton_append]

/-- The lines of a text up to the end of its last line are read, from within a line and from the
start of one. -/
theorem readBlockLines_write (text : List Char) (hprint : ∀ c ∈ text, isPrintable c = true)
    (hend : text.getLast?.any isBreak = false) :
    (∀ (mark : Mark) (blank : Bool), ∃ last blank', ∀ tail,
      readBlockLines true chomp 2 (writeLines false text ++ tail) mark (.line blank) =
        (readBlockLines true chomp 2 tail last (.line blank')).map
          fun scalar => { scalar with text := text ++ scalar.text }) ∧
    (text ≠ [] → ∀ (mark : Mark) (first : Option Char) (more : List Char) (blank : Bool),
      mark.column = 0 → ∃ last blank', ∀ tail,
      readBlockLines true chomp 2 (writeLines true text ++ tail) mark
          (.indentation first more blank) =
        (readBlockLines true chomp 2 tail last (.line blank')).map
          fun scalar => { scalar with text := first.toList ++ more ++ text ++ scalar.text }) := by
  induction text with
  | nil =>
    refine ⟨fun mark blank => ⟨mark, blank, fun tail => ?_⟩, absurd rfl⟩
    rw [writeLines, List.nil_append]
    exact Option.map_id'.symm
  | cons c rest ih =>
    obtain ⟨hc, hprint⟩ := List.forall_mem_cons.1 hprint
    have hend' : rest.getLast?.any isBreak = false := by
      cases rest with
      | nil => rfl
      | cons d rest => rwa [getLast?_any_cons (by simp)] at hend
    -- The text does not end with a line end, so that a line follows each.
    have hrest : isBreak c = true → rest ≠ [] := by
      rintro hbreak rfl
      rw [List.getLast?_singleton, Option.any_some, hbreak] at hend
      cases hend
    obtain ⟨hwithin, hstart⟩ := ih hprint hend'
    refine ⟨fun mark blank => ?_, fun _ mark first more blank hcolumn => ?_⟩
    · cases hbreak : isBreak c with
      | true =>
        obtain ⟨last, blank', hread⟩ :=
          hstart (hrest hbreak) (mark.nextLine c.utf8Size) (some c) [] blank rfl
        refine ⟨last, blank', fun tail => ?_⟩
        rw [writeLines, if_pos hbreak, List.cons_append, readBlockLines_lineEnd hc hbreak, hread]
        rfl
      | false =>
        obtain ⟨last, blank', hread⟩ := hwithin (mark.past c) blank
        refine ⟨last, blank', fun tail => ?_⟩
        rw [writeLines, if_neg (by simp [hbreak]), if_neg (by simp), List.nil_append,
          List.cons_append, readBlockLines_within hbreak, hread, Option.map_map]
        rfl
    · cases hbreak : isBreak c with
      | true =>
        obtain ⟨last, blank', hread⟩ :=
          hstart (hrest hbreak) (mark.nextLine c.utf8Size) first (more ++ [c]) blank rfl
        refine ⟨last, blank', fun tail => ?_⟩
        rw [writeLines, if_pos hbreak, List.cons_append, readBlockLines_emptyLine hc hbreak, hread]
        simp
      | false =>
        have hpast : (mark.past ' ').column = 1 := congrArg (· + 1) hcolumn
        obtain ⟨last, blank', hread⟩ := hwithin (((mark.past ' ').past ' ').past c) (isBlank c)
        refine ⟨last, blank', fun tail => ?_⟩
        rw [writeLines, if_neg (by simp [hbreak]), if_pos rfl, valueIndent]
        simp only [List.cons_append, List.nil_append]
        rw [readBlockLines_indent (by omega), readBlockLines_indent (by omega),
          readBlockLines_begin hbreak (congrArg (· + 1) hpast), hread, Option.map_map]
        simp [Function.comp_def]

end Lines

/-! ### Headers -/

/-- How a header says what becomes of the last line ends. -/
def Chomp.hint : Chomp → List Char
  | .strip => ['-']
  | .clip => []
  | .keep => ['+']

theorem readHeader_indented (chomp : Chomp) (rest : List Char) :
    readHeader ('2' :: (chomp.hint ++ '\n' :: rest)) = (chomp, some 2, '\n' :: rest) := by
  cases chomp <;> rfl

theorem readHeader_plain (chomp : Chomp) (rest : List Char) :
    readHeader (chomp.hint ++ '\n' :: rest) = (chomp, none, '\n' :: rest) := by
  cases chomp <;> cases rest <;> rfl

/-- The lines after a header that says how far they are indented. -/
theorem readBlock_indented (chomp : Chomp) (rest : List Char) (mark : Mark) :
    ∃ first, first.column = 0 ∧ readBlock true 0 ('2' :: (chomp.hint ++ '\n' :: rest)) mark =
      readBlockLines true chomp 2 rest first (.indentation none [] false) := by
  rw [readBlock, readHeader_indented]
  exact ⟨_, rfl, rfl⟩

/-- The lines after a header that leaves it to the first of them to show the indentation. -/
theorem readBlock_plain (chomp : Chomp) {c : Char} (hbreak : isBreak c = false)
    (hblank : isBlank c = false) (rest : List Char) (mark : Mark) :
    ∃ first, first.column = 0 ∧
      readBlock true 0 (chomp.hint ++ '\n' :: ' ' :: ' ' :: c :: rest) mark =
        readBlockLines true chomp 2 (' ' :: ' ' :: c :: rest) first
          (.indentation none [] false) := by
  rw [isBlank_eq_false_iff] at hblank
  have hempty : ∀ m : Mark, m.column = 0 → readEmptyLines 0 (' ' :: ' ' :: c :: rest) m =
      some ([], 2, c :: rest, (m.past ' ').past ' ') := by
    intro m hm
    have hstop : ∀ column (m : Mark), readEmptyLines column (c :: rest) m =
        some ([], max column m.column, c :: rest, m) := by
      intro column m
      rw [readEmptyLines]
      · simp [hbreak, hblank]
      · rintro _ rfl
        cases hbreak
    rw [readEmptyLines, readEmptyLines, hstop] <;> simp [Mark.past, hm]
  refine ⟨(mark.upTo (chomp.hint ++ '\n' :: ' ' :: ' ' :: c :: rest)
    ('\n' :: ' ' :: ' ' :: c :: rest)).nextLine 1, rfl, ?_⟩
  rw [readBlock, readHeader_plain, readBlockLines_indent (Nat.succ_pos 1),
    readBlockLines_indent (Nat.lt_succ_self 1)]
  show (readEmptyLines 0 (' ' :: ' ' :: c :: rest) _).bind _ = _
  rw [hempty _ rfl]
  rfl

/-- A text is its lines up to the end of the last that is not empty, and the line ends after it. -/
theorem exists_ends (text : List Char) : ∃ body ends, text = body ++ ends ∧
    body.getLast?.any isBreak = false ∧ ∀ c ∈ ends, isBreak c = true := by
  refine ⟨(text.reverse.dropWhile isBreak).reverse, (text.reverse.takeWhile isBreak).reverse,
    ?_, ?_, fun c hc => ?_⟩
  · rw [← List.reverse_append, List.takeWhile_append_dropWhile, List.reverse_reverse]
  · rw [List.getLast?_reverse]
    have hhead := List.head?_dropWhile_not isBreak text.reverse
    cases hdrop : (text.reverse.dropWhile isBreak).head? with
    | none => rfl
    | some c =>
      rw [hdrop] at hhead
      simpa using hhead
  · exact List.all_eq_true.1 (List.all_takeWhile ..) c (List.mem_reverse.1 hc)

/-- What becomes of the line ends after a text of lines and line ends are the latter. -/
structure Chomp.Keeps (chomp : Chomp) (body ends : List Char) : Prop where
  only : body = [] → ends ≠ [] → chomp.text none ends = ends
  added : ends = [] → chomp.text (some '\n') [] = []
  after : body ≠ [] → ∀ c more, ends = c :: more → chomp.text (some c) more = ends

/-- The hint of a text keeps the line ends that it has. -/
theorem exists_chomp {body ends : List Char} (hbody : body.getLast?.any isBreak = false)
    (hends : ∀ c ∈ ends, isBreak c = true) :
    ∃ chomp : Chomp, chompHint (body ++ ends) = chomp.hint ∧ chomp.Keeps body ends := by
  rw [← List.head?_reverse] at hbody
  rw [chompHint, List.reverse_append]
  cases hreverse : ends.reverse with
  | nil =>
    obtain rfl : ends = [] := by simpa using hreverse
    refine ⟨.strip, ?_, fun _ h => absurd rfl h, fun _ => rfl, by simp⟩
    cases hlast : body.reverse with
    | nil => rfl
    | cons c rest =>
      rw [hlast] at hbody
      simp only [List.head?_cons, Option.any_some] at hbody
      simp [hbody, Chomp.hint]
  | cons c rest =>
    have hc : ∀ d ∈ c :: rest, isBreak d = true := by
      intro d hd
      exact hends d (List.mem_reverse.1 (hreverse ▸ hd))
    have hne : ends ≠ [] := by
      rintro rfl
      cases hreverse
    simp only [List.cons_append, hc c (by simp), if_true]
    by_cases hkeep : (rest ++ body.reverse).head?.all isBreak = true
    · exact ⟨.keep, by rw [if_pos hkeep, Chomp.hint], fun _ _ => rfl, fun h => absurd h hne,
        fun _ c more h => h.symm⟩
    · refine ⟨.clip, by rw [if_neg hkeep, Chomp.hint], fun h => ?_, fun h => absurd h hne,
        fun _ d more h => ?_⟩
      all_goals
        obtain rfl : rest = [] := by
          cases rest with
          | nil => rfl
          | cons d rest => exact absurd (hc d (by simp)) (by simpa using hkeep)
      · rw [h] at hkeep
        exact absurd rfl hkeep
      · have hlength := congrArg List.length hreverse
        rw [h, List.length_reverse] at hlength
        obtain rfl : more = [] := by simpa using hlength
        exact h.symm

/-! ### Texts -/

theorem writeLines_append (newLine : Bool) (body : List Char) {ends : List Char}
    (hends : ∀ c ∈ ends, isBreak c = true) :
    writeLines newLine (body ++ ends) = writeLines newLine body ++ ends := by
  induction body generalizing newLine with
  | nil =>
    rw [List.nil_append, writeLines, List.nil_append]
    induction ends generalizing newLine with
    | nil => rfl
    | cons c rest ih =>
      obtain ⟨hc, hrest⟩ := List.forall_mem_cons.1 hends
      rw [writeLines, if_pos hc, ih hrest]
  | cons c rest ih =>
    rw [List.cons_append, writeLines, writeLines]
    split
    · rw [ih, List.cons_append]
    · rw [ih, List.append_assoc, List.cons_append]

theorem isAllowed_writeLines {text : List Char} (h : ∀ c ∈ text, isPrintable c = true)
    (newLine : Bool) : ∀ c ∈ writeLines newLine text, isAllowed c = true := by
  induction text generalizing newLine with
  | nil => simp [writeLines]
  | cons c rest ih =>
    obtain ⟨hc, hrest⟩ := List.forall_mem_cons.1 h
    have hallowed := isAllowed_of_isPrintable hc
    rw [writeLines]
    split
    · exact List.forall_mem_cons.2 ⟨hallowed, ih hrest true⟩
    · exact List.forall_mem_append.2
        ⟨isAllowed_indent newLine, List.forall_mem_cons.2 ⟨hallowed, ih hrest false⟩⟩

theorem endsWithBreak_append {body ends : List Char} (hends : ∀ c ∈ ends, isBreak c = true)
    (hne : ends ≠ []) : endsWithBreak (body ++ ends) = true := by
  rw [endsWithBreak, List.getLast?_append, List.getLast?_eq_some_getLast hne, Option.some_or,
    Option.any_some]
  exact hends _ (List.getLast_mem hne)

/-- The end of the last line of a literal scalar, unless the text has one. -/
def closing (text : List Char) : List Char :=
  if endsWithBreak text then [] else ['\n']

section Texts

variable {tail : List Char}

/-- The lines of a text are read as the text, given the hint for it. -/
theorem readBlockLines_text (htail : IsOutdented tail) {chomp : Chomp} {body ends : List Char}
    (hprint : ∀ c ∈ body ++ ends, isPrintable c = true) (hbody : body.getLast?.any isBreak = false)
    (hends : ∀ c ∈ ends, isBreak c = true) (hne : body ++ ends ≠ [])
    (hkeeps : chomp.Keeps body ends) (mark : Mark) (hcolumn : mark.column = 0) :
    ∃ last, last.column = 0 ∧
      readBlockLines true chomp 2
          (writeLines true (body ++ ends) ++ (closing (body ++ ends) ++ tail)) mark
          (.indentation none [] false) = some ⟨body ++ ends, tail, last⟩ := by
  have hprintBody := fun c hc => hprint c (List.mem_append_left ends hc)
  have hprintEnds := fun c hc => hprint c (List.mem_append_right body hc)
  rw [writeLines_append true body hends, List.append_assoc]
  by_cases hempty : body = []
  · subst hempty
    rw [List.nil_append] at hne
    obtain ⟨last, hzero, hread⟩ := readBlockLines_ends htail (Nat.succ_pos 1) chomp none false ends
      hprintEnds hends mark [] hcolumn
    refine ⟨last, hzero, ?_⟩
    rw [closing, endsWithBreak_append hends hne, if_pos rfl, writeLines, List.nil_append,
      List.nil_append, hread, List.nil_append, hkeeps.only rfl hne]
  · obtain ⟨within, blank, hread⟩ :=
      (readBlockLines_write body hprintBody hbody).2 hempty mark none [] false hcolumn
    rw [hread]
    cases ends with
    | nil =>
      obtain ⟨last, hzero, hstop⟩ := readBlockLines_ends htail (Nat.succ_pos 1) chomp (some '\n')
        blank [] (by simp) (by simp) (within.nextLine ('\n').utf8Size) [] rfl
      rw [List.nil_append, List.append_nil, hkeeps.added rfl] at hstop
      have hclosing : closing (body ++ []) = ['\n'] := by
        rw [List.append_nil, closing, endsWithBreak, hbody]
        rfl
      refine ⟨last, hzero, ?_⟩
      rw [hclosing, List.nil_append, List.singleton_append, readBlockLines_lineEnd rfl rfl, hstop]
      simp
    | cons c more =>
      obtain ⟨hc, hmore⟩ := List.forall_mem_cons.1 hends
      obtain ⟨last, hzero, hstop⟩ := readBlockLines_ends htail (Nat.succ_pos 1) chomp (some c) blank
        more (fun d hd => hprintEnds d (List.mem_cons_of_mem c hd)) hmore
        (within.nextLine c.utf8Size) [] rfl
      refine ⟨last, hzero, ?_⟩
      rw [closing, endsWithBreak_append hends (by simp), if_pos rfl, List.nil_append,
        List.cons_append, readBlockLines_lineEnd (hprintEnds c (by simp)) hc, hstop,
        List.nil_append, hkeeps.after hempty c more rfl]
      simp

/-- A literal scalar is read as the text that it was written for. -/
theorem readBlock_write (htail : IsOutdented tail) {text : List Char}
    (hprint : ∀ c ∈ text, isPrintable c = true) (hne : text ≠ []) (mark : Mark) :
    ∃ last, last.column = 0 ∧
      readBlock true 0 (indentHint text ++ (chompHint text ++
        '\n' :: (writeLines true text ++ (closing text ++ tail)))) mark =
        some ⟨text, tail, last⟩ := by
  obtain ⟨body, ends, rfl, hbody, hends⟩ := exists_ends text
  obtain ⟨chomp, hhint, hkeeps⟩ := exists_chomp hbody hends
  have hlines := readBlockLines_text htail hprint hbody hends hne hkeeps
  rw [hhint]
  obtain ⟨c, rest, htext⟩ := List.exists_cons_of_ne_nil hne
  rw [htext] at hlines hprint ⊢
  have hc : isPrintable c = true := hprint c (by simp)
  rw [indentHint, List.head?_cons, Option.any_some]
  cases hfirst : isSpace c || isBreak c with
  | true =>
    rw [if_pos rfl, List.singleton_append]
    obtain ⟨first, hzero, hread⟩ := readBlock_indented chomp
      (writeLines true (c :: rest) ++ (closing (c :: rest) ++ tail)) mark
    rw [hread]
    exact hlines first hzero
  | false =>
    obtain ⟨hspace, hbreak⟩ := Bool.or_eq_false_iff.1 hfirst
    rw [← isBlank_of_isPrintable hc] at hspace
    rw [if_neg (by simp), List.nil_append]
    rw [writeLines, if_neg (by simp [hbreak]), if_pos rfl, valueIndent] at hlines ⊢
    simp only [List.cons_append, List.nil_append] at hlines ⊢
    obtain ⟨first, hzero, hread⟩ := readBlock_plain chomp hbreak hspace
      (writeLines false rest ++ (closing (c :: rest) ++ tail)) mark
    rw [hread]
    exact hlines first hzero

end Texts

end ReplicationQueue.Yaml
