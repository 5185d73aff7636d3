import ReplicationQueue.Files

/-! A task and its transitions. The state of a task is the directory that its file is in, and each
transition is one rename or one removal; that is what makes several nodes safe without locks. -/

namespace ReplicationQueue

structure Task where
  layout : Layout
  subject : Subject
  /-- Running files stay in place when the task is finished. -/
  keepFinished : Bool
  deriving DecidableEq

namespace Task

open Plan

def key (t : Task) : TaskKey :=
  t.subject.taskKey

def runningPath (t : Task) : Path :=
  t.layout.runningPath t.key

def waitingPath (t : Task) : Path :=
  t.layout.waitingPath t.key

def flatWaitingPath (t : Task) : Path :=
  t.layout.flatWaitingPath t.key

/-- Whether the task waits, under its layout or, if that is sharded, from before it was. -/
def isWaiting (t : Task) : Plan Bool := do
  if ← exists? t.waitingPath then return true
  match t.layout.waitingLayout with
  | .flat => return false
  | .sharded => exists? t.flatWaitingPath

/-- Moves a complete temporary file to its waiting path, or removes it. -/
def publishFile (t : Task) (temporary : Path) : Plan (Except StoreError Unit) := do
  note (.written temporary t.subject)
  note (.publishing temporary t.waitingPath t.subject)
  match ← Files.move temporary t.waitingPath with
  | .ok () => return .ok ()
  | .error error => do
    match ← Files.delete temporary with
    | .ok _ => return .error error
    | .error cleanup => do
      note (.notCleaned cleanup)
      return .error error

/-- Writes the record of `u` in the building directory and moves it to the task's waiting path. -/
def publish (t : Task) (u : Update) : Plan (Except StoreError Unit) := do
  match ← Files.ensureDirectory t.layout.building with
  | .error error => return .error error
  | .ok () =>
    match ← Files.ensureParent t.waitingPath with
    | .error error => return .error error
    | .ok () =>
      match ← Files.writeNew t.layout.building t.key.text u.record with
      | .error error => return .error error
      | .ok temporary => t.publishFile temporary

/-- Queues the task unless it waits already. A failure is told by an event. -/
def create (t : Task) : Plan Unit := do
  if ← t.isWaiting then note (.alreadyWaiting t.subject)
  else
    match t.subject with
    | .key _ => note (.noRecord t.subject)
    | .update u =>
      match ← t.publish u with
      | .ok () => return
      | .error error => note (.notCreated u error)

/-- Moves the task's file. A source that is gone already is nothing to do. -/
def move (t : Task) (source target : Path) : Plan Outcome := do
  match ← Files.ensureParent target with
  | .error error => do
    note (.notMoved t.subject error)
    return .failed
  | .ok () => do
    note (.moving source target t.subject)
    match ← Files.move source target with
    | .ok () => return .applied
    | .error error =>
      if error.isNotFound then do
        note (.notThere source t.subject)
        return .skipped
      else do
        note (.notMoved t.subject error)
        return .failed

/-- Where the task waits: a file from before the layout was sharded is found as well. -/
def currentWaitingPath (t : Task) : Plan Path := do
  match t.layout.waitingLayout with
  | .flat => return t.waitingPath
  | .sharded => do
    if ← exists? t.waitingPath then return t.waitingPath
    if ← exists? t.flatWaitingPath then return t.flatWaitingPath
    return t.waitingPath

/-- Claims the task: waiting to running. -/
def start (t : Task) : Plan Outcome := do
  let waiting ← t.currentWaitingPath
  t.move waiting t.runningPath

/-- Gives the task back: running to waiting. -/
def reset (t : Task) : Plan Outcome :=
  t.move t.runningPath t.waitingPath

/-- Removes a file of the task. -/
def remove (t : Task) (path : Path) : Plan Outcome := do
  match ← Files.delete path with
  | .ok true => return .applied
  | .ok false => do
    note (.absent path t.subject)
    return .skipped
  | .error error => do
    note (.notDeleted t.subject error)
    return .failed

/-- Retires a running task. -/
def finish (t : Task) : Plan Outcome := do
  if t.keepFinished then do
    note (.deleteDisabled t.runningPath t.subject)
    return .skipped
  else do
    note (.deleting t.runningPath t.subject)
    t.remove t.runningPath

/-- Drops a task that still waits. -/
def delete (t : Task) : Plan Outcome := do
  let outcome ← t.remove t.waitingPath
  match t.layout.waitingLayout, outcome with
  | .sharded, .skipped => t.remove t.flatWaitingPath
  | _, _ => return outcome

end Task

end ReplicationQueue
