import ReplicationQueue.Yaml.Token

/-! Block scalars: the lines below an indicator. A literal scalar keeps its lines, a folded one
joins them. The header may say how far the lines are indented and what becomes of the ends of the
last lines. -/

namespace ReplicationQueue.Yaml

/-- What becomes of the line ends after the last line. -/
inductive Chomp where
  | strip
  /-- The first of them stays. -/
  | clip
  | keep
  deriving DecidableEq, Repr

structure BlockScalar where
  text : List Char
  rest : List Char
  mark : Mark
  deriving Repr

/-- Where a block scalar is read: in the indentation of a line, or in the line. -/
inductive BlockPlace where
  /-- The end of the last line, the ends of the empty lines after it, and whether the last line
  began with a blank. -/
  | indentation (first : Option Char) (more : List Char) (afterBlank : Bool)
  | line (blank : Bool)
  deriving DecidableEq, Repr

/-- What joins two lines of a scalar. -/
def joinLines (literal : Bool) (first : Option Char) (more : List Char) (blank : Bool) :
    List Char :=
  if !literal && first = some '\n' && !blank then (if more = [] then [' '] else more)
  else first.toList ++ more

/-- The ends of lines that stay at the end of a scalar. -/
def Chomp.text (chomp : Chomp) (first : Option Char) (more : List Char) : List Char :=
  match chomp with
  | .strip => []
  | .clip => first.toList
  | .keep => first.toList ++ more

/-- Reads the lines of a block scalar that are indented by `indent`. -/
def readBlockLines (literal : Bool) (chomp : Chomp) (indent : Nat) :
    List Char → Mark → BlockPlace → Option BlockScalar
  | [], mark, .indentation first more _ => some ⟨chomp.text first more, [], mark⟩
  | '\r' :: '\n' :: rest, mark, .indentation first more afterBlank =>
    readBlockLines literal chomp indent rest (mark.nextLine 2)
      (.indentation first (more ++ ['\n']) afterBlank)
  | c :: rest, mark, .indentation first more afterBlank =>
    if c = ' ' && mark.column < indent then
      readBlockLines literal chomp indent rest (mark.past c) (.indentation first more afterBlank)
    else if c = '\t' && mark.column < indent then none
    else if isBreak c then
      readBlockLines literal chomp indent rest (mark.nextLine c.utf8Size)
        (.indentation first (more ++ [breakText c]) afterBlank)
    else if mark.column = indent then
      (readBlockLines literal chomp indent rest (mark.past c) (.line (isBlank c))).map
        fun scalar =>
          { scalar with
            text := joinLines literal first more (afterBlank || isBlank c) ++ c :: scalar.text }
    else some ⟨chomp.text first more, c :: rest, mark⟩
  | [], mark, .line _ => some ⟨[], [], mark⟩
  | '\r' :: '\n' :: rest, mark, .line blank =>
    readBlockLines literal chomp indent rest (mark.nextLine 2) (.indentation (some '\n') [] blank)
  | c :: rest, mark, .line blank =>
    if isBreak c then
      readBlockLines literal chomp indent rest (mark.nextLine c.utf8Size)
        (.indentation (some (breakText c)) [] blank)
    else
      (readBlockLines literal chomp indent rest (mark.past c) (.line blank)).map
        fun scalar => { scalar with text := c :: scalar.text }

/-- The empty lines before a scalar of unknown indentation: their ends, the greatest column, and
where they stop. -/
def readEmptyLines (column : Nat) :
    List Char → Mark → Option (List Char × Nat × List Char × Mark)
  | [], mark => some ([], max column mark.column, [], mark)
  | '\r' :: '\n' :: rest, mark => do
    let (ends, column, tail, mark) ←
      readEmptyLines (max column mark.column) rest (mark.nextLine 2)
    return ('\n' :: ends, column, tail, mark)
  | c :: rest, mark =>
    if c = ' ' then readEmptyLines (max column mark.column) rest (mark.past c)
    else if c = '\t' then none
    else if isBreak c then do
      let (ends, column, tail, mark) ←
        readEmptyLines (max column mark.column) rest (mark.nextLine c.utf8Size)
      return (breakText c :: ends, column, tail, mark)
    else some ([], max column mark.column, c :: rest, mark)

def chomp? (c : Char) : Option Chomp :=
  if c = '+' then some .keep else if c = '-' then some .strip else none

/-- An indentation of one to nine columns. -/
def increment? (c : Char) : Option Nat :=
  if '1' ≤ c ∧ c ≤ '9' then some (c.toNat - '0'.toNat) else none

/-- The header of a block scalar after its indicator, and the rest. Its two parts come in either
order. -/
def readHeader : List Char → Chomp × Option Nat × List Char
  | c :: d :: rest =>
    match chomp? c, increment? c with
    | some chomp, _ =>
      match increment? d with
      | some n => (chomp, some n, rest)
      | none => (chomp, none, d :: rest)
    | none, some n =>
      match chomp? d with
      | some chomp => (chomp, some n, rest)
      | none => (.clip, some n, d :: rest)
    | none, none => (.clip, none, c :: d :: rest)
  | [c] =>
    match chomp? c, increment? c with
    | some chomp, _ => (chomp, none, [])
    | none, some n => (.clip, some n, [])
    | none, none => (.clip, none, [c])
  | [] => (.clip, none, [])

/-- Reads a block scalar after its indicator; `parent` is the indentation around it. -/
def readBlock (literal : Bool) (parent : Int) (s : List Char) (mark : Mark) :
    Option BlockScalar := do
  let (chomp, increment, body) := readHeader s
  let body := dropComment (body.dropWhile isBlank)
  if !startsWithEnd body then none
  let (body, mark) := dropLineEnd (mark.upTo s body) body
  match increment with
  | some n =>
    let indent := if 0 ≤ parent then parent.toNat + n else n
    readBlockLines literal chomp indent body mark (.indentation none [] false)
  | none =>
    let (ends, column, body, mark) ← readEmptyLines 0 body mark
    let indent := max (max column (parent + 1).toNat) 1
    readBlockLines literal chomp indent body mark (.indentation none ends false)

end ReplicationQueue.Yaml
