import ReplicationQueue.Yaml.Character
import ReplicationQueue.Yaml.Meaning

/-! Writing a text as the value of a mapping's member, in the plainest style in which it reads back
as it is: plain, between single quotes, as lines of their own, or between double quotes. -/

namespace ReplicationQueue.Yaml

inductive Style where
  | plain
  | single
  | literal
  | double
  deriving DecidableEq, Repr

/-- Whether a character is written as it is. -/
def isPrintable (c : Char) : Bool :=
  c = '\n' || (' ' ≤ c && c ≤ '~') || ('\u00a0' ≤ c && c ≤ '\ufffd' && c ≠ byteOrderMark) ||
    '\uffff' < c

/-- Whether two neighbours are met, the first of which has `p` and the second `q`. -/
def hasPair (p q : Char → Bool) : List Char → Bool
  | c :: d :: rest => (p c && q d) || hasPair p q (d :: rest)
  | _ => false

def isSpace (c : Char) : Bool :=
  c = ' '

def isGap (c : Char) : Bool :=
  isBlank c || isBreak c

/-- Whether the first character would begin something else than a plain scalar. -/
def startsWithIndicator : List Char → Bool
  | [] => false
  | c :: rest =>
    if c = '-' || c = '?' || c = ':' then startsWithGap rest else isIndicator c

/-- Whether a colon after the first character would end a key. -/
def hasKeyEnd : List Char → Bool
  | [] => false
  | c :: rest => (c = ':' && startsWithGap rest) || hasKeyEnd rest

def startsWithDocument : List Char → Bool
  | '-' :: '-' :: '-' :: _ => true
  | '.' :: '.' :: '.' :: _ => true
  | _ => false

/-- Whether a text would not read as one plain scalar. -/
def hasIndicator (text : List Char) : Bool :=
  startsWithDocument text || startsWithIndicator text || hasKeyEnd (text.drop 1) ||
    hasPair isGap (· = '#') text

/-- Whether blanks or line ends would be lost between quotes. -/
def hasLooseBreak (text : List Char) : Bool :=
  hasPair isBreak isSpace text || hasPair isSpace isBreak text

def startsOrEndsWith (p : Char → Bool) (text : List Char) : Bool :=
  text.head?.any p || text.getLast?.any p

def allowsSingle (text : List Char) : Bool :=
  text.all isPrintable && !hasLooseBreak text

def allowsPlain (text : List Char) : Bool :=
  text.all isPrintable && !text.any isBreak && !startsOrEndsWith isSpace text && !hasIndicator text

def allowsLiteral (text : List Char) : Bool :=
  text.all isPrintable && !hasPair isSpace isBreak text && !text.getLast?.any isSpace

def Style.of (text : List Char) : Style :=
  if '\n' ∈ text then if allowsLiteral text then .literal else .double
  else if !isMeaningful text && allowsPlain text then .plain
  else if allowsSingle text then .single
  else .double

/-- How far the lines of a value are indented. -/
def valueIndent : List Char := [' ', ' ']

/-- The text between single quotes. `newLine` says whether a line was just ended. -/
def writeSingle (newLine : Bool) : List Char → List Char
  | [] => if newLine then valueIndent else []
  | c :: rest =>
    if isBreak c then (if newLine || c ≠ '\n' then [] else ['\n']) ++ c :: writeSingle true rest
    else
      (if newLine then valueIndent else []) ++ (if c = '\'' then ['\''] else []) ++
        c :: writeSingle false rest

/-- The escapes that have a letter of their own. -/
def shortEscapes : List (Char × Char) :=
  [('\x00', '0'), ('\x07', 'a'), ('\x08', 'b'), ('\t', 't'), ('\n', 'n'), ('\x0b', 'v'),
    ('\x0c', 'f'), ('\r', 'r'), ('\x1b', 'e'), ('"', '"'), ('\\', '\\'), ('\x85', 'N'),
    ('\u2028', 'L'), ('\u2029', 'P')]

/-- A code point in two digits, or in four. Every character beyond them is printable. -/
def codeEscape (n : Nat) : List Char :=
  if n ≤ 0xff then 'x' :: Hex.padded Hex.upperDigit 2 n
  else 'u' :: Hex.padded Hex.upperDigit 4 n

def escape (c : Char) : List Char :=
  match shortEscapes.lookup c with
  | some letter => ['\\', letter]
  | none => if isPrintable c then [c] else '\\' :: codeEscape c.toNat

/-- The lines of a literal scalar, each one indented unless it is empty. -/
def writeLines (newLine : Bool) : List Char → List Char
  | [] => []
  | c :: rest =>
    if isBreak c then c :: writeLines true rest
    else (if newLine then valueIndent else []) ++ c :: writeLines false rest

/-- The indentation is given where the first line does not show it. -/
def indentHint (text : List Char) : List Char :=
  if text.head?.any fun c => isSpace c || isBreak c then ['2'] else []

/-- What a literal scalar says about the line ends after its last line. -/
def chompHint (text : List Char) : List Char :=
  match text.reverse with
  | c :: rest =>
    if isBreak c then if rest.head?.all isBreak then ['+'] else [] else ['-']
  | [] => ['-']

def endsWithBreak (text : List Char) : Bool :=
  text.getLast?.any isBreak

/-- A text as a value, with the end of its line. -/
def writeValue (text : List Char) : List Char :=
  match Style.of text with
  | .plain => text ++ ['\n']
  | .single => ['\''] ++ writeSingle false text ++ ['\'', '\n']
  | .double => ['"'] ++ text.flatMap escape ++ ['"', '\n']
  | .literal =>
    ['|'] ++ indentHint text ++ chompHint text ++ ['\n'] ++ writeLines true text ++
      (if endsWithBreak text then [] else ['\n'])

end ReplicationQueue.Yaml
