import ReplicationQueue.Json.Value
import ReplicationQueue.Layout

/-! The name of a waiting layout in JSON: a string, or an object whose only member has the name as
its key and null as its value. -/

namespace ReplicationQueue.WaitingLayout

open Json

def toJson (w : WaitingLayout) : String :=
  literal w.name

/-- How messages call the names. -/
def wanted : String := "`flat` or `sharded`"

def find (name : String) : Except Fault WaitingLayout :=
  match ofName? name with
  | some w => .ok w
  | none => .error (.unknownVariant name wanted)

def ofJson (s : Bytes) : Except Fault WaitingLayout :=
  readVariant find s >>= finish

end ReplicationQueue.WaitingLayout
