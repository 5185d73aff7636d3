import ReplicationQueue.Disk.Cause
import ReplicationQueue.Disk.Path
import ReplicationQueue.Json.Fault

/-! What can go wrong on the way to a task's next state. -/

namespace ReplicationQueue

inductive StoreError where
  | provision (path : Path) (cause : Cause)
  | write (path : Path) (cause : Cause)
  | rename (source target : Path) (cause : Cause)
  | delete (path : Path) (cause : Cause)
  | record (path : Path) (fault : Json.Fault)
  deriving DecidableEq

namespace StoreError

def message : StoreError → String
  | provision path _ => "Couldn't create " ++ path.text
  | write path _ => "Failed to write " ++ path.text
  | rename source target _ => "Failed to rename " ++ source.text ++ " to " ++ target.text
  | delete path _ => "Failed to delete " ++ path.text
  | record path _ => "Malformed task record " ++ path.text

/-- The system's refusal that is behind the error, if one is. -/
def cause? : StoreError → Option Cause
  | provision _ cause | write _ cause | rename _ _ cause | delete _ cause => some cause
  | record _ _ => none

/-- Whether the source of the transition was gone already: another node came first. -/
def isNotFound (e : StoreError) : Bool :=
  e.cause? == some .notFound

/-- Whether a remote change made a directory's handle useless. -/
def isStale (e : StoreError) : Bool :=
  e.cause? == some .staleHandle

end StoreError

end ReplicationQueue
