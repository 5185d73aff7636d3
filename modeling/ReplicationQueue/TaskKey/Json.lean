import ReplicationQueue.Json.Value
import ReplicationQueue.TaskKey

/-! A task key in JSON is the string of its text. -/

namespace ReplicationQueue.TaskKey

open Json

/-- The key that `text` spells. A text that spells none is at fault. -/
def ofText (text : String) : Except Fault TaskKey :=
  match parse? text with
  | some key => .ok key
  | none => .error (.invalidKey text)

def toJson (key : TaskKey) : String :=
  literal key.text

/-- Reads a whole text as a key. The string is read to its end before it is tested. -/
def ofJson (s : Bytes) : Except Fault TaskKey := do
  let (text, rest) ← readString "a string" s
  finish (← ofText text, rest)

end ReplicationQueue.TaskKey
