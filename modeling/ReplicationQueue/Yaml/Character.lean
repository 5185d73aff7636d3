/-! The characters of YAML: which may stand in a text at all, which end a line, which are blank, and
which make up a name. -/

namespace ReplicationQueue.Yaml

/-- Whether a character may stand in a text. Control characters may not. -/
def isAllowed (c : Char) : Bool :=
  c = '\t' || c = '\n' || c = '\r' || (' ' ≤ c && c ≤ '~') || c = '\x85' ||
    ('\u00a0' ≤ c && c ≤ '\ufffd') || '\uffff' < c

def isBreak (c : Char) : Bool :=
  c = '\n' || c = '\r' || c = '\x85' || c = '\u2028' || c = '\u2029'

/-- How a line's end is kept: separators stay, all others become a line feed. -/
def breakText (c : Char) : Char :=
  if c = '\u2028' || c = '\u2029' then c else '\n'

/-- Whether a character leaves a gap within a line. -/
def isBlank (c : Char) : Bool :=
  c = ' ' || c = '\t'

/-- The mark of the byte order; at the start of a line it is passed over. -/
def byteOrderMark : Char := '\ufeff'

/-- Whether a text ends here, or goes on with a gap. -/
def startsWithGap : List Char → Bool
  | [] => true
  | c :: _ => isBlank c || isBreak c

def startsWithEnd : List Char → Bool
  | [] => true
  | c :: _ => isBreak c

/-- Whether a character belongs to a name, as of an anchor or a directive. -/
def isNameCharacter (c : Char) : Bool :=
  ('0' ≤ c && c ≤ '9') || ('A' ≤ c && c ≤ 'Z') || ('a' ≤ c && c ≤ 'z') || c = '_' || c = '-'

/-- Whether a character belongs to a tag's URI. -/
def isUriCharacter (c : Char) : Bool :=
  isNameCharacter c ||
    c ∈ [';', '/', '?', ':', '@', '&', '=', '+', '$', '.', '%', '!', '~', '*', '\'', '(', ')']

/-- Whether a character that could begin something else keeps a scalar from beginning plainly. -/
def isIndicator (c : Char) : Bool :=
  c ∈ ['-', '?', ':', ',', '[', ']', '\x7b', '\x7d', '#', '&', '*', '!', '|', '>', '\'', '"', '%',
    '@', '\x60']

/-- Whether a document starts or ends here, given that a line does. -/
def isBoundary : List Char → Bool
  | '-' :: '-' :: '-' :: rest => startsWithGap rest
  | '.' :: '.' :: '.' :: rest => startsWithGap rest
  | _ => false

end ReplicationQueue.Yaml
