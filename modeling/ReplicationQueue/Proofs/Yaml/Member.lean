import ReplicationQueue.Proofs.Yaml.Literal
import ReplicationQueue.Proofs.Yaml.Quoted
import ReplicationQueue.Yaml.Token.Scanner

/-! The members of a block mapping, line by line: what the scanner does with a key, and with a value
that was written after it. -/

namespace ReplicationQueue.Yaml

/-! ### Styles -/

/-- What a style asks of a text. -/
def Allows (text : List Char) : Style → Prop
  | .plain => text ≠ [] ∧ allowsPlain text = true
  | .single => '\n' ∉ text ∧ allowsSingle text = true
  | .literal => '\n' ∈ text ∧ allowsLiteral text = true
  | .double => True

theorem allows_style (text : List Char) : Allows text (Style.of text) := by
  unfold Style.of
  split
  · rename_i hline
    split
    · rename_i hliteral
      exact ⟨hline, hliteral⟩
    · trivial
  · rename_i hline
    split
    · rename_i hplain
      obtain ⟨hmeaning, hplain⟩ := Bool.and_eq_true_iff.1 hplain
      refine ⟨?_, hplain⟩
      rintro rfl
      cases hmeaning
    · split
      · rename_i hsingle
        exact ⟨hline, hsingle⟩
      · trivial

theorem isAllowed_writeValue (text : List Char) : ∀ c ∈ writeValue text, isAllowed c = true := by
  have hallows := allows_style text
  have hbreak : ∀ c ∈ ['\n'], isAllowed c = true := List.all_eq_true.1 rfl
  rw [writeValue]
  cases hstyle : Style.of text with
  | plain =>
    rw [hstyle] at hallows
    have hprint := (isUnquoted_of_allowsPlain hallows.2).printable
    exact List.forall_mem_append.2 ⟨fun c hc => isAllowed_of_isPrintable (hprint c hc), hbreak⟩
  | single =>
    rw [hstyle] at hallows
    have hprint : ∀ c ∈ text, isPrintable c = true := by
      simpa using (Bool.and_eq_true_iff.1 hallows.2).1
    simp only [List.forall_mem_append]
    exact ⟨⟨List.all_eq_true.1 rfl, isAllowed_writeSingle hprint false⟩, List.all_eq_true.1 rfl⟩
  | double =>
    have hescape : ∀ c ∈ text.flatMap escape, isAllowed c = true := by
      intro c hc
      obtain ⟨d, -, hd⟩ := List.mem_flatMap.1 hc
      rcases escape_cases d with ⟨hsame, hprint, -⟩ | ⟨letter, digits, hescape, -, hallowed, -⟩
      · rw [hsame, List.mem_singleton] at hd
        rw [hd]
        exact isAllowed_of_isPrintable hprint
      · rw [hescape] at hd
        rcases List.mem_cons.1 hd with rfl | hd
        · rfl
        · exact hallowed c hd
    simp only [List.forall_mem_append]
    exact ⟨⟨List.all_eq_true.1 rfl, hescape⟩, List.all_eq_true.1 rfl⟩
  | literal =>
    rw [hstyle] at hallows
    have hprint : ∀ c ∈ text, isPrintable c = true := by
      simpa using (Bool.and_eq_true_iff.1 (Bool.and_eq_true_iff.1 hallows.2).1).1
    have hindent : ∀ c ∈ indentHint text, isAllowed c = true := by
      unfold indentHint
      split <;> exact List.all_eq_true.1 rfl
    have hchomp : ∀ c ∈ chompHint text, isAllowed c = true := by
      unfold chompHint
      split
      · split
        · split <;> exact List.all_eq_true.1 rfl
        · exact List.all_eq_true.1 rfl
      · exact List.all_eq_true.1 rfl
    have hclosing : ∀ c ∈ closing text, isAllowed c = true := by
      unfold closing
      split <;> exact List.all_eq_true.1 rfl
    simp only [List.forall_mem_append]
    exact ⟨⟨⟨⟨⟨List.all_eq_true.1 rfl, hindent⟩, hchomp⟩, hbreak⟩,
      isAllowed_writeLines hprint true⟩, hclosing⟩

namespace Scanner

variable {s t : Scanner} {c : Char} {rest tail : List Char} {mark : Mark}

/-! ### Steps -/

/-- Whether a token may begin with a character. -/
def IsSolid (c : Char) : Prop :=
  isBreak c = false ∧ isBlank c = false ∧ c ≠ byteOrderMark ∧ c ≠ '#'

theorem skipSpace_solid (h : IsSolid c) (flow keyAllowed : Bool) :
    skipSpace flow keyAllowed (c :: rest) mark false = (c :: rest, mark, keyAllowed) := by
  obtain ⟨hbreak, hblank, hmark, hcomment⟩ := h
  rw [isBlank_eq_false_iff] at hblank
  rw [skipSpace]
  · simp [hbreak, hblank, hmark, hcomment]
  · rintro _ rfl
    cases hbreak

/-- Where the scanner stands does not matter up to the next token. -/
theorem run_toNextToken (h : s.toNextToken = t) (ht : t.toNextToken = t) (fuel : Nat) :
    run (fuel + 1) s = run (fuel + 1) t := by
  rw [run, run, h, ht]

/-- Before a token that belongs to the innermost block, with no candidate that is stale. -/
structure IsSettled (s : Scanner) : Prop where
  space : s.toNextToken = s
  fresh : s.dropAllStale = some s
  inside : s.unroll s.mark.column = s

theorem IsSettled.run_cons (h : s.IsSettled) (hrest : s.rest = c :: rest) (fuel : Nat) :
    run (fuel + 1) s = (s.scanToken c rest).bind (run fuel) := by
  simp only [run, h.space, h.fresh, h.inside, hrest, Option.bind_eq_bind, Option.bind_some]

theorem IsSettled.run_nil (h : s.IsSettled) (hrest : s.rest = []) (fuel : Nat) :
    run (fuel + 1) s = s.finish := by
  simp only [run, h.space, h.fresh, h.inside, hrest, Option.bind_eq_bind, Option.bind_some]

/-- At the start of a line, before the first member or in the mapping. -/
def atLine (inMapping : Bool) (rest : List Char) (mark : Mark) (tokens : List Token) : Scanner where
  rest
  mark
  flow := 0
  indent := if inMapping then 0 else -1
  outer := if inMapping then [-1] else []
  candidate := none
  outerCandidates := []
  keyAllowed := true
  tokens

/-- After the colon of a key at the start of a line. -/
def atValue (rest : List Char) (mark : Mark) (tokens : List Token) : Scanner where
  rest
  mark
  flow := 0
  indent := 0
  outer := [-1]
  candidate := none
  outerCandidates := []
  keyAllowed := false
  tokens

/-- What may stand at the start of a line. -/
def BeginsSolid (rest : List Char) : Prop :=
  ∀ c ∈ rest.head?, IsSolid c

theorem unrolled_level (inMapping : Bool) (column : Nat) :
    unrolled column (if inMapping then 0 else -1) (if inMapping then [-1] else []) =
      ([], if inMapping then 0 else -1, if inMapping then [-1] else []) := by
  have hcolumn : ¬(column : Int) < 0 := by omega
  cases inMapping <;> simp [unrolled, hcolumn]

theorem skipSpace_stays (h : BeginsSolid rest) (flow keyAllowed : Bool) :
    skipSpace flow keyAllowed rest mark false = (rest, mark, keyAllowed) := by
  cases rest with
  | nil => rfl
  | cons c rest => exact skipSpace_solid (h c rfl) flow keyAllowed

theorem isSettled_atLine {inMapping : Bool} {tokens : List Token} (h : BeginsSolid rest) :
    (atLine inMapping rest mark tokens).IsSettled where
  space := by
    rw [toNextToken]
    simp [atLine, skipSpace_stays h]
  fresh := rfl
  inside := by
    simp only [unroll, atLine, if_true, unrolled_level, List.append_nil]

theorem scanToken_plain (hflow : s.flow = 0)
    (hboundary : s.mark.column = 0 → isBoundary (c :: rest) = false) (hblank : isBlank c = false)
    (hindicator : startsWithIndicator (c :: rest) = false) : s.scanToken c rest = s.scanPlain := by
  have hstart : (s.mark.column = 0 && isBoundary (c :: rest)) = false := by
    by_cases h : s.mark.column = 0
    · simp [hboundary h]
    · simp [h]
  rw [startsWithIndicator] at hindicator
  unfold scanToken
  simp only [hflow]
  -- A dash, a question mark or a colon begins a plain scalar unless a gap follows it.
  split at hindicator
  · rename_i hc
    simp only [Bool.or_eq_true, decide_eq_true_eq] at hc
    have hgap : startsWithBlank rest = false := by
      cases rest with
      | nil => rfl
      | cons d rest =>
        rw [startsWithGap, Bool.or_eq_false_iff] at hindicator
        exact hindicator.1
    rcases hc with (rfl | rfl) | rfl
    · simp [hstart, hindicator, beginsPlain, hgap]
    · simp [hstart, hindicator, beginsPlain]
    · simp [hstart, hindicator, beginsPlain]
  · simp only [isIndicator, decide_eq_false_iff_not, List.mem_cons, List.not_mem_nil, or_false,
      not_or] at hindicator
    simp [hstart, hindicator, hblank, beginsPlain, isIndicator]

/-! ### Keys -/

/-- What a key is written with: a name that begins with no dash. -/
structure IsKey (name : List Char) : Prop where
  named : ∀ c ∈ name, isNameCharacter c = true
  begins : name.head?.any (· ≠ '-') = true
  short : name.length ≤ maxKeyLength

theorem isSolid_of_isNameCharacter (h : isNameCharacter c = true) : IsSolid c := by
  obtain ⟨-, hbreak, hblank, -⟩ := isNameCharacter_cases h
  refine ⟨hbreak, hblank, ?_, ?_⟩
  · rintro rfl
    cases h
  · rintro rfl
    cases h

theorem isIndicator_of_isNameCharacter (h : isNameCharacter c = true) (hdash : c ≠ '-') :
    isIndicator c = false :=
  forall_isNameCharacter (p := fun c => c ≠ '-' → isIndicator c = false) (by decide) h hdash

/-- Before the colon of a key at the start of a line. -/
def atColon (inMapping : Bool) (name rest : List Char) (mark : Mark) (required : Bool)
    (tokens : List Token) : Scanner :=
  { atLine inMapping (':' :: ' ' :: rest) (mark.forward name.length)
      (tokens ++ [.scalar (String.ofList name) true]) with
    candidate := some ⟨tokens.length, mark, required⟩
    keyAllowed := false }

theorem scanToken_name (inMapping : Bool) {name : List Char} (h : IsKey (c :: name))
    (rest : List Char) (mark : Mark) (tokens : List Token) :
    ∃ required, (atLine inMapping (c :: (name ++ ':' :: ' ' :: rest)) mark tokens).scanToken c
      (name ++ ':' :: ' ' :: rest) =
        some (atColon inMapping (c :: name) rest mark required tokens) := by
  have hc : isNameCharacter c = true := h.named c (by simp)
  have hdash : c ≠ '-' := by simpa using h.begins
  have hindicator := isIndicator_of_isNameCharacter hc hdash
  have hdot : c ≠ '.' := by
    rintro rfl
    cases hc
  have hboundary : isBoundary (c :: (name ++ ':' :: ' ' :: rest)) = false := by
    unfold isBoundary
    split
    · rename_i heq
      exact absurd (List.cons.inj heq).1 hdash
    · rename_i heq
      exact absurd (List.cons.inj heq).1 hdot
    · rfl
  have hplain : startsWithIndicator (c :: (name ++ ':' :: ' ' :: rest)) = false := by
    rw [startsWithIndicator, hindicator]
    simp only [isIndicator, decide_eq_false_iff_not, List.mem_cons, List.not_mem_nil, or_false,
      not_or] at hindicator
    simp [hindicator]
  refine ⟨decide ((if inMapping then 0 else -1 : Int) = mark.column), ?_⟩
  have hblank : isBlank c = false := (isSolid_of_isNameCharacter hc).2.1
  rw [scanToken_plain rfl (fun _ => hboundary) hblank hplain, scanPlain]
  show (readPlain false _ (c :: name ++ ':' :: ' ' :: rest) mark .none).bind _ = _
  rw [readPlain_name (c :: name) rest h.named mark]
  rfl

theorem isSettled_atColon (inMapping required : Bool) {name : List Char}
    (h : name.length ≤ maxKeyLength) (rest : List Char) (mark : Mark) (tokens : List Token) :
    (atColon inMapping name rest mark required tokens).IsSettled where
  space := by
    have hcolon : IsSolid ':' := ⟨rfl, rfl, by decide, by decide⟩
    simp [toNextToken, atColon, atLine, skipSpace_solid hcolon]
  fresh := by
    have hstale : Candidate.isStale (mark.forward name.length) ⟨tokens.length, mark, required⟩ =
        false := by
      simp [Candidate.isStale, Mark.forward, Nat.not_lt.2 h]
    simp [dropAllStale, atColon, atLine, dropStale, hstale]
  inside := by
    simp only [unroll, atColon, atLine, if_true, unrolled_level, List.append_nil]

theorem scanValue_atColon (inMapping required : Bool) (name rest : List Char) (mark : Mark)
    (hcolumn : mark.column = 0) (tokens : List Token) :
    (atColon inMapping name rest mark required tokens).scanValue =
      some (atValue (' ' :: rest) (mark.forward (name.length + 1))
        (tokens ++ (if inMapping then [] else [.blockMapping]) ++
          [.key, .scalar (String.ofList name) true, .value])) := by
  cases inMapping <;>
    simp [scanValue, atColon, atLine, atValue, roll, skip, push, hcolumn, Mark.forward,
      Nat.add_assoc]

/-- A key is read, and its colon. -/
theorem run_key (inMapping : Bool) {name : List Char} (h : IsKey name) (rest : List Char)
    {mark : Mark} (hcolumn : mark.column = 0) (tokens : List Token) (fuel : Nat) :
    run (fuel + 2) (atLine inMapping (name ++ ':' :: ' ' :: rest) mark tokens) =
      run fuel (atValue (' ' :: rest) (mark.forward (name.length + 1))
        (tokens ++ (if inMapping then [] else [.blockMapping]) ++
          [.key, .scalar (String.ofList name) true, .value])) := by
  cases name with
  | nil => cases h.begins
  | cons c name =>
    have hsolid : BeginsSolid (c :: (name ++ ':' :: ' ' :: rest)) := by
      rintro _ ⟨⟩
      exact isSolid_of_isNameCharacter (h.named c (by simp))
    obtain ⟨required, hname⟩ := scanToken_name inMapping h rest mark tokens
    rw [List.cons_append, (isSettled_atLine hsolid).run_cons rfl, hname, Option.bind_some,
      (isSettled_atColon inMapping required h.short rest mark tokens).run_cons rfl]
    have hcolon : (atColon inMapping (c :: name) rest mark required tokens).scanToken ':'
        (' ' :: rest) = (atColon inMapping (c :: name) rest mark required tokens).scanValue := by
      simp [scanToken, atColon, atLine, Mark.forward, startsWithGap, isBlank]
    rw [hcolon, scanValue_atColon inMapping required (c :: name) rest mark hcolumn tokens]
    rfl

/-! ### Values -/

theorem isSettled_atValue (hc : IsSolid c) (tokens : List Token) :
    (atValue (c :: rest) mark tokens).IsSettled where
  space := by
    simp [toNextToken, atValue, skipSpace_solid hc]
  fresh := rfl
  inside := by
    have hlevel := unrolled_level true mark.column
    simp only [if_true] at hlevel
    simp only [unroll, atValue, if_true, hlevel, List.append_nil]

/-- A value that is one token is read, up to the next line. -/
theorem run_value_token {tokens tokens' : List Token} {last : Mark} (hc : IsSolid c)
    (hscan : (atValue (c :: rest) (mark.past ' ') tokens).scanToken c rest = some s)
    (hnext : s.toNextToken = atLine true tail last tokens') (htail : BeginsSolid tail)
    (fuel : Nat) :
    run (fuel + 2) (atValue (' ' :: c :: rest) mark tokens) =
      run (fuel + 1) (atLine true tail last tokens') := by
  have hspace : (atValue (' ' :: c :: rest) mark tokens).toNextToken =
      atValue (c :: rest) (mark.past ' ') tokens := by
    have hskip : skipSpace false false (' ' :: c :: rest) mark false =
        skipSpace false false (c :: rest) (mark.past ' ') false := by
      rw [skipSpace] <;> simp [isBreak]
    simp [toNextToken, atValue, hskip, skipSpace_solid hc]
  rw [run_toNextToken hspace (isSettled_atValue hc tokens).space,
    (isSettled_atValue hc tokens).run_cons rfl, hscan]
  exact run_toNextToken hnext (isSettled_atLine htail).space fuel

/-- What follows a value: nothing, or a line that begins with a name. -/
def BeginsNamed (tail : List Char) : Prop :=
  ∀ c ∈ tail.head?, isNameCharacter c = true

theorem BeginsNamed.solid (h : BeginsNamed tail) : BeginsSolid tail := fun c hc =>
  isSolid_of_isNameCharacter (h c hc)

theorem BeginsNamed.outdented (h : BeginsNamed tail) : IsOutdented tail := fun c hc =>
  ⟨(h.solid c hc).1, (h.solid c hc).2.1⟩

/-- A scalar with a quote at its end, up to the next line. -/
theorem toNextToken_quoted (htail : BeginsSolid tail) (last : Mark) (tokens : List Token) :
    (atValue ('\n' :: tail) last tokens).toNextToken =
      atLine true tail (last.nextLine 1) tokens := by
  have hskip : skipSpace false false ('\n' :: tail) last false =
      skipSpace false true tail (last.nextLine 1) false := rfl
  simp [toNextToken, atValue, atLine, hskip, skipSpace_stays htail]

/-- The token that begins with `c` is the scalar of a text, and the next line comes after it. -/
def IsValue (text tail : List Char) (c : Char) (rest : List Char) : Prop :=
  IsSolid c ∧ ∀ (mark : Mark) (tokens : List Token), mark.column ≠ 0 → ∃ s plain last,
    (atValue (c :: rest) mark tokens).scanToken c rest = some s ∧ last.column = 0 ∧
      s.toNextToken = atLine true tail last (tokens ++ [.scalar (String.ofList text) plain])

theorem isValue_plain (htail : BeginsNamed tail) {c : Char} {text : List Char}
    (h : allowsPlain (c :: text) = true) : IsValue (c :: text) tail c (text ++ '\n' :: tail) := by
  have hunquoted := isUnquoted_of_allowsPlain h
  have hprint := hunquoted.printable c (by simp)
  have hbreak := hunquoted.unbroken c (by simp)
  simp only [allowsPlain, hasIndicator, startsOrEndsWith, Bool.and_eq_true, Bool.not_eq_true',
    Bool.or_eq_false_iff, List.head?_cons, Option.any_some] at h
  obtain ⟨⟨-, hspace, -⟩, ⟨⟨-, hindicator⟩, -⟩, -⟩ := h
  rw [← isBlank_of_isPrintable hprint] at hspace
  have hplain : startsWithIndicator (c :: (text ++ '\n' :: tail)) = false := by
    rw [startsWithIndicator] at hindicator ⊢
    rwa [startsWithGap_append]
  have hsolid : IsSolid c := by
    refine ⟨hbreak, hspace, ?_, ?_⟩
    · rintro rfl
      cases hprint
    · rintro rfl
      cases hindicator
  refine ⟨hsolid, fun mark tokens hcolumn => ?_⟩
  have hinside : (0 + 1 : Int) ≤ mark.column := by omega
  obtain ⟨last, hzero, hread⟩ := readPlain_write htail.outdented (by decide) (c :: text) hunquoted
    mark [] hinside (.inl rfl)
  refine ⟨atLine true tail last (tokens ++ [.scalar (String.ofList (c :: text)) true]), true, last,
    ?_, hzero, (isSettled_atLine htail.solid).space⟩
  rw [scanToken_plain rfl (fun h => absurd h hcolumn) hspace hplain, scanPlain]
  show (readPlain false (0 + 1) (c :: text ++ '\n' :: tail) mark (.within [])).bind _ = _
  rw [hread]
  rfl

/-- A scalar between quotes, which `read` goes over up to the end of its line. -/
theorem isValue_quoted (htail : BeginsNamed tail) {quote : Char} (hsolid : IsSolid quote)
    {read : List Char → Mark → Gap → Option QuotedScalar} {text rest : List Char}
    (hscan : ∀ s : Scanner, s.mark.column ≠ 0 → s.scanToken quote rest = s.scanQuoted read)
    (hread : ∀ mark : Mark, mark.column ≠ 0 →
      ∃ last, read rest mark .none = some ⟨text, '\n' :: tail, last⟩) :
    IsValue text tail quote rest := by
  refine ⟨hsolid, fun mark tokens hcolumn => ?_⟩
  obtain ⟨last, hlast⟩ := hread (mark.forward 1) (Nat.succ_ne_zero _)
  refine ⟨atValue ('\n' :: tail) last (tokens ++ [.scalar (String.ofList text) false]), false,
    last.nextLine 1, ?_, rfl, toNextToken_quoted htail.solid last _⟩
  rw [hscan _ hcolumn, scanQuoted]
  show (read rest (mark.forward 1) .none).bind _ = _
  rw [hlast]
  rfl

theorem isValue_single (htail : BeginsNamed tail) {text : List Char}
    (h : allowsSingle text = true) (hline : '\n' ∉ text) :
    IsValue text tail '\'' (writeSingle false text ++ '\'' :: '\n' :: tail) := by
  simp only [allowsSingle, Bool.and_eq_true, Bool.not_eq_true', List.all_eq_true] at h
  exact isValue_quoted htail ⟨rfl, rfl, by decide, by decide⟩
    (fun s hcolumn => by simp [scanToken, hcolumn])
    fun mark hcolumn => (readSingleQuoted_write text h.1 hline h.2).1 mark [] hcolumn (.inl rfl)

theorem isValue_double (htail : BeginsNamed tail) (text : List Char) :
    IsValue text tail '"' (text.flatMap escape ++ '"' :: '\n' :: tail) :=
  isValue_quoted htail ⟨rfl, rfl, by decide, by decide⟩
    (fun s hcolumn => by simp [scanToken, hcolumn])
    fun mark hcolumn => readDoubleQuoted_write mark text [] ('\n' :: tail) hcolumn

theorem isValue_literal (htail : BeginsNamed tail) {text : List Char}
    (h : allowsLiteral text = true) (hline : '\n' ∈ text) :
    IsValue text tail '|' (indentHint text ++ (chompHint text ++
      '\n' :: (writeLines true text ++ (closing text ++ tail)))) := by
  simp only [allowsLiteral, Bool.and_eq_true, List.all_eq_true] at h
  refine ⟨⟨rfl, rfl, by decide, by decide⟩, fun mark tokens hcolumn => ?_⟩
  obtain ⟨last, hzero, hread⟩ := readBlock_write htail.outdented h.1.1 (List.ne_nil_of_mem hline)
    (mark.forward 1)
  refine ⟨atLine true tail last (tokens ++ [.scalar (String.ofList text) false]), false, last, ?_,
    hzero, (isSettled_atLine htail.solid).space⟩
  have hscan : ∀ rest, (atValue ('|' :: rest) mark tokens).scanToken '|' rest =
      (atValue ('|' :: rest) mark tokens).scanBlock true := by
    intro rest
    simp [scanToken, atValue, hcolumn]
  rw [hscan, scanBlock]
  show (readBlock true 0 (indentHint text ++ (chompHint text ++
    '\n' :: (writeLines true text ++ (closing text ++ tail)))) (mark.forward 1)).bind _ = _
  rw [hread]
  rfl

/-- A text that was written in any style. -/
theorem isValue_written (text : List Char) (htail : BeginsNamed tail) :
    ∃ c rest, writeValue text ++ tail = c :: rest ∧ IsValue text tail c rest := by
  have hallows := allows_style text
  rw [writeValue]
  cases hstyle : Style.of text with
  | plain =>
    rw [hstyle] at hallows
    obtain ⟨hne, hplain⟩ := hallows
    obtain ⟨c, rest, rfl⟩ := List.exists_cons_of_ne_nil hne
    exact ⟨c, rest ++ '\n' :: tail, by simp, isValue_plain htail hplain⟩
  | single =>
    rw [hstyle] at hallows
    exact ⟨_, _, by simp, isValue_single htail hallows.2 hallows.1⟩
  | double => exact ⟨_, _, by simp, isValue_double htail text⟩
  | literal =>
    rw [hstyle] at hallows
    exact ⟨_, _, by simp [closing], isValue_literal htail hallows.2 hallows.1⟩

/-- The value of a member is read as the text that it was written for. -/
theorem run_value (text : List Char) (htail : BeginsNamed tail) (mark : Mark)
    (tokens : List Token) :
    ∃ plain last, last.column = 0 ∧ ∀ fuel,
      run (fuel + 2) (atValue (' ' :: (writeValue text ++ tail)) mark tokens) =
        run (fuel + 1) (atLine true tail last
          (tokens ++ [.scalar (String.ofList text) plain])) := by
  obtain ⟨c, rest, hwrite, hsolid, hvalue⟩ := isValue_written text htail
  obtain ⟨s, plain, last, hscan, hzero, hnext⟩ := hvalue (mark.past ' ') tokens (Nat.succ_ne_zero _)
  rw [hwrite]
  exact ⟨plain, last, hzero, run_value_token hsolid hscan hnext htail.solid⟩

/-- The end of the text ends the mapping. -/
theorem run_end (mark : Mark) (tokens : List Token) (fuel : Nat) :
    run (fuel + 1) (atLine true [] mark tokens) = some (tokens ++ [.blockEnd, .textEnd]) := by
  have hsolid : BeginsSolid [] := by rintro _ ⟨⟩
  rw [(isSettled_atLine hsolid).run_nil rfl]
  simp [finish, unroll, unrolled, atLine, dropCandidate]

end Scanner

end ReplicationQueue.Yaml
