import ReplicationQueue.Text.Hex
import ReplicationQueue.Text.Printable

/-! Text between double quotes, as messages show it: double quotes, backslashes and whatever would
not show are escaped. -/

namespace ReplicationQueue.Text

/-- `\u{…}` with the code point in lowercase digits. -/
def codePoint (c : Char) : List Char :=
  ['\\', 'u', '\x7b'] ++ Hex.digits c.toNat ++ ['\x7d']

def escapeChar (c : Char) : List Char :=
  if c = '\x00' then ['\\', '0']
  else if c = '\t' then ['\\', 't']
  else if c = '\r' then ['\\', 'r']
  else if c = '\n' then ['\\', 'n']
  else if c = '\\' ∨ c = '"' then ['\\', c]
  else if isExtending c || !isPrintable c then codePoint c
  else [c]

def quoted (text : String) : String :=
  String.ofList (['"'] ++ text.toList.flatMap escapeChar ++ ['"'])

end ReplicationQueue.Text
