import ReplicationQueue.Push
import ReplicationQueue.Task

/-! The store of replication tasks below one events directory. Other nodes may use the directory at
the same time. Once the store is open no operation fails towards its caller: what goes wrong is told
by an event and counted as failed, or is missing from a list. -/

namespace ReplicationQueue

structure Store where
  layout : Layout
  /-- Running files stay in place when their tasks are finished. -/
  keepFinished : Bool
  deriving DecidableEq

def Layout.ensure (q : Layout) : Plan (Except StoreError Unit) := do
  match ← Files.ensureDirectory q.building with
  | .error error => return .error error
  | .ok () =>
    match ← Files.ensureDirectory q.running with
    | .error error => return .error error
    | .ok () => Files.ensureDirectory q.waiting

namespace Store

open Plan

/-- Opens a queue and makes its directories. -/
def ofLayout (layout : Layout) : Plan (Except StoreError Store) := do
  match ← layout.ensure with
  | .error error => return .error error
  | .ok () => do
    note (.opened layout)
    return .ok ⟨layout, false⟩

def task (store : Store) (u : Update) : Task :=
  ⟨store.layout, .update u, store.keepFinished⟩

/-- Queues an update; nothing is done when it waits already. -/
def create (store : Store) (u : Update) : Plan TaskKey := do
  (store.task u).create
  return (store.task u).key

/-- One transition for each update, one after the other. -/
def each (store : Store) (transition : Task → Plan Outcome) :
    List Update → Summary → Plan Summary
  | [], summary => return summary
  | u :: rest, summary => do
    let outcome ← transition (store.task u)
    each store transition rest (summary.record outcome)

/-- Claims every ref of a push. -/
def start (store : Store) (push : Push) : Plan Summary :=
  store.each Task.start push.updates .empty

/-- Gives every ref of a push back, to be tried again. -/
def reset (store : Store) (push : Push) : Plan Summary :=
  store.each Task.reset push.updates .empty

/-- Retires every ref of a push. -/
def finish (store : Store) (push : Push) : Plan Summary :=
  store.each Task.finish push.updates .empty

/-- Forgets a task that was not claimed. -/
def delete (store : Store) (u : Update) : Plan Outcome :=
  (store.task u).delete

def anyWaiting (store : Store) : List Update → Plan Bool
  | [] => return false
  | u :: rest => do
    if ← (store.task u).isWaiting then return true
    anyWaiting store rest

def isWaiting (store : Store) (push : Push) : Plan Bool :=
  store.anyWaiting push.updates

/-- Resets the tasks whose keys are the names of files. Files of other names stay. -/
def resetFiles (store : Store) : List Path → Summary → Plan Summary
  | [], summary => return summary
  | path :: rest, summary =>
    match path.fileName?.bind TaskKey.parse? with
    | none => do
      note (.foreignFile path)
      resetFiles store rest summary
    | some key => do
      let outcome ← (Task.mk store.layout (.key key) false).reset
      resetFiles store rest (summary.record outcome)

/-- Moves every running task back to waiting: what still runs when a node starts belonged to a node
that died. -/
def resetAll (store : Store) : Plan Summary := do
  let files ← Files.list store.layout.running
  let summary ← store.resetFiles (files.map (·.1)) .empty
  if 0 < summary.total then note (.allReset summary) else note .noneRunning
  return summary

/-- Whether a record may still be in the making. -/
def isInFlight (store : Store) (path : Path) : Bool :=
  path.startsWith store.layout.building

/-- The updates among `files`. A file that holds no record is passed over, with an event. -/
def readRecords (store : Store) : List (Path × Bytes) → Plan (List Update)
  | [] => return []
  | (path, bytes) :: rest =>
    match Update.parse bytes with
    | .ok u => do return u :: (← readRecords store rest)
    | .error fault => do
      let error := StoreError.record path fault
      note (if store.isInFlight path then .unfinishedRecord error else .malformedRecord error)
      readRecords store rest

def listBelow (store : Store) (directory : Path) : Plan (List Update) := do
  match ← Files.ensureDirectory directory with
  | .error error => do
    note (.notListed error)
    return []
  | .ok () => do
    let files ← Files.list directory
    store.readRecords files

def listWaiting (store : Store) : Plan (List Update) :=
  store.listBelow store.layout.waiting

def listRunning (store : Store) : Plan (List Update) :=
  store.listBelow store.layout.running

def listBuilding (store : Store) : Plan (List Update) :=
  store.listBelow store.layout.building

/-- Everything on the disk: what is being built, runs and waits. -/
def list (store : Store) : Plan (List Update) :=
  store.listBelow store.layout.refUpdates

end Store

end ReplicationQueue
