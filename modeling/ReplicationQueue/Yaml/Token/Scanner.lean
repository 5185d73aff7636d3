import ReplicationQueue.Yaml.Token.Block
import ReplicationQueue.Yaml.Token.Plain
import ReplicationQueue.Yaml.Token.Quoted
import ReplicationQueue.Yaml.Token.Word

/-! The tokens of a whole text. The indentation of lines opens and closes block collections. That a
scalar is the key of a mapping shows only at the colon after it, so a place where a key may have
begun is remembered until then. -/

namespace ReplicationQueue.Yaml

/-- Where a key may have begun. -/
structure Candidate where
  /-- The number of tokens before it. -/
  position : Nat
  mark : Mark
  /-- Nothing but a key can stand here. -/
  required : Bool
  deriving DecidableEq, Repr

structure Scanner where
  rest : List Char
  mark : Mark
  /-- The number of brackets that are open. -/
  flow : Nat
  indent : Int
  /-- The indentations around this one, inmost first. -/
  outer : List Int
  candidate : Option Candidate
  /-- The candidates outside of the open brackets, inmost first. -/
  outerCandidates : List (Option Candidate)
  /-- Whether a key may begin here. -/
  keyAllowed : Bool
  tokens : List Token
  deriving Repr

/-- The furthest that a colon may be from the start of its key, in bytes. -/
def maxKeyLength : Nat := 1024

namespace Scanner

def start (text : List Char) : Scanner where
  rest := text
  mark := .start
  flow := 0
  indent := -1
  outer := []
  candidate := none
  outerCandidates := []
  keyAllowed := true
  tokens := []

def push (s : Scanner) (token : Token) : Scanner :=
  { s with tokens := s.tokens ++ [token] }

/-- Passes over `n` characters of a line, each of one byte. -/
def skip (s : Scanner) (n : Nat) : Scanner :=
  { s with rest := s.rest.drop n, mark := s.mark.forward n }

/-- Goes on where a token of one line ends. -/
def goTo (s : Scanner) (rest : List Char) : Scanner :=
  { s with rest, mark := s.mark.upTo s.rest rest }

/-- Passes over blanks, comments and empty lines. A tab may not indent a line of a block. -/
def skipSpace (flow : Bool) (keyAllowed : Bool) :
    List Char → Mark → Bool → List Char × Mark × Bool
  | [], mark, _ => ([], mark, keyAllowed)
  | '\r' :: '\n' :: rest, mark, _ =>
    skipSpace flow (keyAllowed || !flow) rest (mark.nextLine 2) false
  | c :: rest, mark, comment =>
    if isBreak c then skipSpace flow (keyAllowed || !flow) rest (mark.nextLine c.utf8Size) false
    else if comment || c = ' ' || (c = '\t' && (flow || !keyAllowed)) then
      skipSpace flow keyAllowed rest (mark.past c) comment
    else if c = byteOrderMark && mark.column = 0 then
      skipSpace flow keyAllowed rest (mark.past c) false
    else if c = '#' then skipSpace flow keyAllowed rest (mark.past c) true
    else (c :: rest, mark, keyAllowed)

def toNextToken (s : Scanner) : Scanner :=
  let (rest, mark, keyAllowed) := skipSpace (s.flow ≠ 0) s.keyAllowed s.rest s.mark false
  { s with rest, mark, keyAllowed }

/-- Whether the colon of a candidate can no longer come. -/
def Candidate.isStale (mark : Mark) (c : Candidate) : Bool :=
  c.mark.line < mark.line || c.mark.index + maxKeyLength < mark.index

/-- Forgets a candidate for good; one that is required may not be forgotten. -/
def dropStale (mark : Mark) : Option Candidate → Option (Option Candidate)
  | none => some none
  | some c =>
    if Candidate.isStale mark c then if c.required then none else some none
    else some (some c)

def dropAllStale (s : Scanner) : Option Scanner := do
  let candidate ← dropStale s.mark s.candidate
  let outerCandidates ← s.outerCandidates.mapM (dropStale s.mark)
  return { s with candidate, outerCandidates }

def dropCandidate (s : Scanner) : Option Scanner :=
  match s.candidate with
  | some c => if c.required then none else some { s with candidate := none }
  | none => some s

def saveCandidate (s : Scanner) : Option Scanner :=
  if s.keyAllowed then do
    let s ← s.dropCandidate
    let required : Bool := s.flow = 0 && s.indent = s.mark.column
    return { s with candidate := some ⟨s.tokens.length, s.mark, required⟩ }
  else some s

/-- Opens a block collection at `column` when that is further in; its token comes before the tokens
from `position` on. -/
def roll (s : Scanner) (column position : Nat) (token : Token) : Scanner :=
  if s.flow = 0 ∧ s.indent < column then
    { s with
      indent := column
      outer := s.indent :: s.outer
      tokens := s.tokens.take position ++ token :: s.tokens.drop position }
  else s

/-- The block collections that end at `column`: the tokens of their ends, and the indentations that
stay. -/
def unrolled (column : Int) (indent : Int) : List Int → List Token × Int × List Int
  | [] => ([], indent, [])
  | next :: outer =>
    if column < indent then
      let (ends, indent, outer) := unrolled column next outer
      (.blockEnd :: ends, indent, outer)
    else ([], indent, next :: outer)

/-- Closes the block collections that are further in than `column`. -/
def unroll (s : Scanner) (column : Int) : Scanner :=
  if s.flow = 0 then
    let (ends, indent, outer) := unrolled column s.indent s.outer
    { s with indent, outer, tokens := s.tokens ++ ends }
  else s

/-- Leaves every block collection: a directive or a boundary of documents stands here. -/
def leaveBlocks (s : Scanner) : Option Scanner := do
  let s ← (s.unroll (-1)).dropCandidate
  return { s with keyAllowed := false }

def scanDirective (s : Scanner) : Option Scanner := do
  let s ← s.leaveBlocks
  let (token, rest) ← readDirective (s.rest.drop 1)
  let s := (s.goTo rest).push token
  let (rest, mark) := dropLineEnd s.mark s.rest
  return { s with rest, mark }

def scanBoundary (s : Scanner) (token : Token) : Option Scanner := do
  let s ← s.leaveBlocks
  return (s.skip 3).push token

def scanOpening (s : Scanner) (token : Token) : Option Scanner := do
  let s ← s.saveCandidate
  let s := { s with
    flow := s.flow + 1
    candidate := none
    outerCandidates := s.candidate :: s.outerCandidates
    keyAllowed := true }
  return (s.skip 1).push token

def scanClosing (s : Scanner) (token : Token) : Option Scanner := do
  let s ← s.dropCandidate
  let s := { s with keyAllowed := false }
  let s := match s.outerCandidates with
    | candidate :: outerCandidates => { s with flow := s.flow - 1, candidate, outerCandidates }
    | [] => s
  return (s.skip 1).push token

def scanComma (s : Scanner) : Option Scanner := do
  let s ← s.dropCandidate
  return ({ s with keyAllowed := true }.skip 1).push .comma

/-- Opens a block collection here, where its first entry begins. -/
def openBlock (s : Scanner) (token : Token) : Option Scanner :=
  if s.flow ≠ 0 then some s
  else if s.keyAllowed then some (s.roll s.mark.column s.tokens.length token)
  else none

def scanEntry (s : Scanner) : Option Scanner := do
  let s ← (← s.openBlock .blockSequence).dropCandidate
  return ({ s with keyAllowed := true }.skip 1).push .entry

def scanKey (s : Scanner) : Option Scanner := do
  let s ← (← s.openBlock .blockMapping).dropCandidate
  return ({ s with keyAllowed := s.flow = 0 }.skip 1).push .key

/-- A colon: the candidate, if there is one, turns out to be a key. -/
def scanValue (s : Scanner) : Option Scanner := do
  match s.candidate with
  | some c =>
    let tokens := s.tokens.take c.position ++ .key :: s.tokens.drop c.position
    let s := { s with tokens }.roll c.mark.column c.position .blockMapping
    return ({ s with candidate := none, keyAllowed := false }.skip 1).push .value
  | none =>
    let s ← s.openBlock .blockMapping
    return ({ s with keyAllowed := s.flow = 0 }.skip 1).push .value

/-- A token that can begin a key, of one line. -/
def scanWord (s : Scanner) (read : List Char → Option (Token × List Char)) : Option Scanner := do
  let s ← s.saveCandidate
  let (token, rest) ← read s.rest
  return ({ s with keyAllowed := false }.goTo rest).push token

def scanQuoted (s : Scanner) (read : List Char → Mark → Gap → Option QuotedScalar) :
    Option Scanner := do
  let s ← s.saveCandidate
  let scalar ← read (s.rest.drop 1) (s.mark.forward 1) .none
  return { s with keyAllowed := false, rest := scalar.rest, mark := scalar.mark }.push
    (.scalar (String.ofList scalar.text) false)

def scanBlock (s : Scanner) (literal : Bool) : Option Scanner := do
  let s ← s.dropCandidate
  let scalar ← readBlock literal s.indent (s.rest.drop 1) (s.mark.forward 1)
  return { s with keyAllowed := true, rest := scalar.rest, mark := scalar.mark }.push
    (.scalar (String.ofList scalar.text) false)

def scanPlain (s : Scanner) : Option Scanner := do
  let s ← s.saveCandidate
  let scalar ← readPlain (s.flow ≠ 0) (s.indent + 1) s.rest s.mark .none
  return { s with keyAllowed := scalar.newLine, rest := scalar.rest, mark := scalar.mark }.push
    (.scalar (String.ofList scalar.text) true)

/-- The name after an indicator, as a token. -/
def readNamed (token : String → Token) (s : List Char) : Option (Token × List Char) := do
  let (name, rest) ← readAnchorName (s.drop 1)
  return (token name, rest)

def beginsPlain (flow : Bool) (c : Char) (rest : List Char) : Bool :=
  !(isBlank c || isIndicator c) || (c = '-' && !startsWithBlank rest) ||
    (!flow && (c = '?' || c = ':') && !startsWithGap rest)

def scanToken (s : Scanner) (c : Char) (rest : List Char) : Option Scanner :=
  let flow : Bool := s.flow ≠ 0
  if s.mark.column = 0 && c = '%' then s.scanDirective
  else if s.mark.column = 0 && isBoundary (c :: rest) then
    s.scanBoundary (if c = '-' then .documentStart else .documentEnd)
  else if c = '[' then s.scanOpening .openSequence
  else if c = '\x7b' then s.scanOpening .openMapping
  else if c = ']' then s.scanClosing .closeSequence
  else if c = '\x7d' then s.scanClosing .closeMapping
  else if c = ',' then s.scanComma
  else if c = '-' && startsWithGap rest then s.scanEntry
  else if c = '?' && (flow || startsWithGap rest) then s.scanKey
  else if c = ':' && (flow || startsWithGap rest) then s.scanValue
  else if c = '*' then s.scanWord (readNamed .alias)
  else if c = '&' then s.scanWord (readNamed .anchor)
  else if c = '!' then s.scanWord (readTag flow)
  else if c = '|' && !flow then s.scanBlock true
  else if c = '>' && !flow then s.scanBlock false
  else if c = '\'' then s.scanQuoted readSingleQuoted
  else if c = '"' then s.scanQuoted readDoubleQuoted
  else if beginsPlain flow c rest then s.scanPlain
  else none

/-- The end of the text ends every block collection. -/
def finish (s : Scanner) : Option (List Token) := do
  let s ← (s.unroll (-1)).dropCandidate
  return s.tokens ++ [.textEnd]

/-- Scans the tokens of the rest; each takes at least one of its characters. -/
def run : Nat → Scanner → Option (List Token)
  | 0, _ => none
  | fuel + 1, s => do
    let s ← s.toNextToken.dropAllStale
    let s := s.unroll s.mark.column
    match s.rest with
    | [] => s.finish
    | c :: rest => do
      let s ← s.scanToken c rest
      run fuel s

end Scanner

def Token.scan (text : String) : Option (List Token) :=
  let chars := text.toList
  if chars.all isAllowed then Scanner.run (chars.length + 1) (.start chars) else none

end ReplicationQueue.Yaml
