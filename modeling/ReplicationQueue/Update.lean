import ReplicationQueue.Uri

/-! The unit of replication: one ref of one project, bound for one remote URI. -/

namespace ReplicationQueue

structure Update where
  project : String
  ref : String
  uri : String
  remote : String
  deriving DecidableEq, Repr

/-- The ref name of an update that replicates every ref of its project. -/
def allRefs : String := "..all.."

namespace Update

def canonical (project ref uri remote : String) : Update :=
  ⟨project, ref, Uri.toAscii uri, remote⟩

def describe (u : Update) : String :=
  "ref-update " ++ u.project ++ ":" ++ u.ref ++ " uri:" ++ u.uri ++ " remote:" ++ u.remote

/-- How events about a transition name the update. -/
def tag (u : Update) : String :=
  "(" ++ u.project ++ ":" ++ u.ref ++ " => " ++ u.uri ++ ")"

end Update

end ReplicationQueue
