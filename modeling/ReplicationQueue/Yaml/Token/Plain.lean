import ReplicationQueue.Yaml.Token

/-! Plain scalars: words without quotes. A plain scalar ends before what would begin something else,
and before a line that is not indented enough. -/

namespace ReplicationQueue.Yaml

structure PlainScalar where
  text : List Char
  rest : List Char
  mark : Mark
  /-- Whether a line ended after the last word. -/
  newLine : Bool
  deriving Repr

/-- Whether a colon would end a key inside brackets. -/
def isFlowColon (c : Char) : List Char → Bool
  | d :: _ => c = ':' && d ∈ [',', '?', '[', ']', '\x7b', '\x7d']
  | [] => false

/-- Whether the scalar ends before the word that starts here. -/
def endsBeforeWord (flow : Bool) (indent : Int) (mark : Mark) (s : List Char) : Bool :=
  (!flow && mark.column < indent) || (mark.column = 0 && isBoundary s) || s.head? = some '#'

def endsBefore (flow : Bool) (c : Char) (rest : List Char) : Bool :=
  (c = ':' && startsWithGap rest) || (flow && c ∈ [',', '[', ']', '\x7b', '\x7d'])

/-- Reads a plain scalar; `indent` is the least column of its lines. -/
def readPlain (flow : Bool) (indent : Int) : List Char → Mark → Gap → Option PlainScalar
  | [], mark, gap => some ⟨[], [], mark, gap.isAcross⟩
  | '\r' :: '\n' :: rest, mark, gap =>
    readPlain flow indent rest (mark.nextLine 2) (gap.lineEnd '\n')
  | c :: rest, mark, gap =>
    if isBreak c then
      readPlain flow indent rest (mark.nextLine c.utf8Size) (gap.lineEnd (breakText c))
    else if isBlank c then
      if gap.isAcross && mark.column < indent && c = '\t' then none
      else readPlain flow indent rest (mark.past c) (gap.blank c)
    else if !gap.isNone && endsBeforeWord flow indent mark (c :: rest) then
      some ⟨[], c :: rest, mark, gap.isAcross⟩
    else if flow && isFlowColon c rest then none
    else if endsBefore flow c rest then some ⟨[], c :: rest, mark, gap.isAcross⟩
    else
      (readPlain flow indent rest (mark.past c) .none).map fun scalar =>
        { scalar with text := gap.text ++ c :: scalar.text }

end ReplicationQueue.Yaml
