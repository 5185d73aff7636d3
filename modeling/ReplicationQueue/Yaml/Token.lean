import ReplicationQueue.Text.Utf8
import ReplicationQueue.Yaml.Character

/-! The tokens of a YAML text and places in the text. -/

namespace ReplicationQueue.Yaml

inductive Token where
  | version (major minor : Nat)
  /-- A directive that says which front a tag handle stands for. -/
  | handle (name : String) (front : Bytes)
  | documentStart
  | documentEnd
  | blockSequence
  | blockMapping
  | blockEnd
  | openSequence
  | closeSequence
  | openMapping
  | closeMapping
  /-- The dash before an entry of a block sequence. -/
  | entry
  | comma
  | key
  | value
  | alias (name : String)
  | anchor (name : String)
  | tag (handle : String) (suffix : Bytes)
  | scalar (text : String) (plain : Bool)
  | textEnd
  deriving DecidableEq, Repr

/-- A place in a text. -/
structure Mark where
  /-- The number of bytes before it. -/
  index : Nat
  line : Nat
  /-- The number of characters before it in its line. -/
  column : Nat
  deriving DecidableEq, Repr

namespace Mark

def start : Mark := ⟨0, 0, 0⟩

/-- The place after `c` on the line. -/
def past (m : Mark) (c : Char) : Mark :=
  ⟨m.index + c.utf8Size, m.line, m.column + 1⟩

/-- The place `n` characters of one byte further on the line. -/
def forward (m : Mark) (n : Nat) : Mark :=
  ⟨m.index + n, m.line, m.column + n⟩

/-- The place where `rest` begins on the line; `s` is what begins at this one and ends in `rest`. -/
def upTo (m : Mark) (s rest : List Char) : Mark :=
  (s.take (s.length - rest.length)).foldl past m

/-- The start of the next line, `n` bytes further. -/
def nextLine (m : Mark) (n : Nat) : Mark :=
  ⟨m.index + n, m.line + 1, 0⟩

end Mark

def dropComment : List Char → List Char
  | '#' :: rest => rest.dropWhile (!isBreak ·)
  | s => s

/-- Passes over the end of a line, if one is here. -/
def dropLineEnd (mark : Mark) : List Char → List Char × Mark
  | '\r' :: '\n' :: rest => (rest, mark.nextLine 2)
  | c :: rest => if isBreak c then (rest, mark.nextLine c.utf8Size) else (c :: rest, mark)
  | [] => ([], mark)

/-- What is between two words of a scalar: blanks, or the ends of lines. -/
inductive Gap where
  | within (blanks : List Char)
  /-- The first line end, unless it was escaped, and the ends of the empty lines after it. -/
  | across (first : Option Char) (more : List Char)
  deriving DecidableEq, Repr

namespace Gap

def none : Gap := .within []

def isAcross : Gap → Bool
  | within _ => false
  | across _ _ => true

def isNone : Gap → Bool
  | within [] => true
  | _ => false

/-- Blanks at the start of a line do not count. -/
def blank (c : Char) : Gap → Gap
  | within blanks => within (blanks ++ [c])
  | across first more => across first more

/-- Blanks before the end of a line do not count. -/
def lineEnd (c : Char) : Gap → Gap
  | within _ => across (some c) []
  | across first more => across first (more ++ [c])

/-- What a gap stands for: one line end for a space, more for one less. -/
def text : Gap → List Char
  | within blanks => blanks
  | across (some '\n') [] => [' ']
  | across (some '\n') more => more
  | across (some c) more => c :: more
  | across Option.none more => more

end Gap

end ReplicationQueue.Yaml
