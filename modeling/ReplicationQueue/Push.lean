import ReplicationQueue.Update

/-! A push: several refs of one project, bound for one remote URI. -/

namespace ReplicationQueue

structure Push where
  project : String
  uri : String
  remote : String
  refs : List String
  deriving DecidableEq, Repr

/-- Puts a ref in its place among `refs`, unless it is there. -/
def insertRef (ref : String) : List String → List String
  | [] => [ref]
  | r :: rest =>
    if ref < r then ref :: r :: rest
    else if ref = r then r :: rest
    else r :: insertRef ref rest

/-- Each ref once, in the order of code points. -/
def distinctRefs (refs : List String) : List String :=
  refs.foldr insertRef []

namespace Push

/-- A push with a canonical URI and with each ref once, in order. -/
def canonical (project uri remote : String) (refs : List String) : Push :=
  ⟨project, Uri.toAscii uri, remote, distinctRefs refs⟩

def ofUpdate (u : Update) : Push :=
  canonical u.project u.uri u.remote [u.ref]

/-- The push with its URI and its refs in canonical form. -/
def toCanonical (p : Push) : Push :=
  canonical p.project p.uri p.remote p.refs

/-- One update for each ref, in the order of the refs. -/
def updates (p : Push) : List Update :=
  p.refs.map fun ref => Update.canonical p.project ref p.uri p.remote

end Push

end ReplicationQueue
