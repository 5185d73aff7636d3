import ReplicationQueue.Layout
import ReplicationQueue.StoreError
import ReplicationQueue.Summary
import ReplicationQueue.Update.Record

/-! What the queue reports while it works. No operation fails towards its caller, so an event is
where a failure is told. -/

namespace ReplicationQueue

inductive Level where
  | debug
  | info
  | warn
  | error
  deriving DecidableEq, Repr

/-- What a transition is about: an update, or a key alone. -/
inductive Subject where
  | update (u : Update)
  | key (k : TaskKey)
  deriving DecidableEq

namespace Subject

def taskKey : Subject → TaskKey
  | .update u => .derive u
  | .key k => k

def tag : Subject → String
  | .update u => u.tag
  | .key k => "(" ++ k.text ++ ")"

end Subject

inductive Event where
  | opened (layout : Layout)
  | alreadyWaiting (task : Subject)
  | noRecord (task : Subject)
  | notCreated (u : Update) (error : StoreError)
  | written (temporary : Path) (task : Subject)
  | publishing (temporary target : Path) (task : Subject)
  | notCleaned (error : StoreError)
  | moving (source target : Path) (task : Subject)
  | notThere (source : Path) (task : Subject)
  | notMoved (task : Subject) (error : StoreError)
  | deleting (path : Path) (task : Subject)
  | deleteDisabled (path : Path) (task : Subject)
  | absent (path : Path) (task : Subject)
  | notDeleted (task : Subject) (error : StoreError)
  | foreignFile (path : Path)
  | allReset (summary : Summary)
  | noneRunning
  | notListed (error : StoreError)
  /-- A record that some node is still writing. -/
  | unfinishedRecord (error : StoreError)
  | malformedRecord (error : StoreError)
  | walkStopped (path : Path) (cause : Cause)
  | fileVanished (path : Path)
  | notRead (path : Path) (cause : Cause)
  | usingQueue (events : Path)
  deriving DecidableEq

namespace Event

/-- Whether a walk stopped because a directory went away under it, which a race can do. -/
def isVanished (cause : Cause) : Bool :=
  cause = .notFound || cause = .staleHandle

def level : Event → Level
  | .noRecord _ | .notCreated _ _ | .notCleaned _ | .foreignFile _ | .malformedRecord _ => .warn
  | .notMoved _ _ | .notDeleted _ _ | .notListed _ | .notRead _ _ => .error
  | .walkStopped _ cause => if isVanished cause then .debug else .error
  | .allReset _ | .usingQueue _ => .info
  | _ => .debug

def message : Event → String
  | .opened _ => "Opened replication tasks storage"
  | .alreadyWaiting task => "Task already waiting " ++ task.tag
  | .noRecord _ => "Cannot create a task without its record"
  | .notCreated u _ => "Couldn't create task " ++ u.toJson
  | .written temporary task => "CREATE " ++ temporary.text ++ " " ++ task.tag
  | .publishing temporary target task =>
    "RENAME " ++ temporary.text ++ " " ++ target.text ++ " " ++ task.tag
  | .notCleaned _ => "Couldn't remove temporary task file"
  | .moving source target task =>
    "RENAME " ++ source.text ++ " to " ++ target.text ++ " " ++ task.tag
  | .notThere source _ =>
    "Task not at " ++ source.text ++ " (already moved by another node or never created)"
  | .notMoved _ _ => "Error while renaming task"
  | .deleting path task => "DELETE " ++ path.text ++ " " ++ task.tag
  | .deleteDisabled path task => "DELETE " ++ path.text ++ " " ++ task.tag ++ " DISABLED"
  | .absent path _ => "Task already absent at " ++ path.text
  | .notDeleted _ _ => "Error while deleting task"
  | .foreignFile _ => "Ignoring unexpected file in running tasks"
  | .allReset summary => "Reset running tasks to waiting: " ++ summary.describe
  | .noneRunning => "No running tasks to reset"
  | .notListed _ => "Error while listing tasks"
  | .unfinishedRecord _ => "Skipping task record still being written"
  | .malformedRecord _ => "Skipping task record"
  | .walkStopped _ cause =>
    if isVanished cause then "Directory vanished while listing tasks"
    else "Error while listing tasks"
  | .fileVanished _ =>
    "File not found while listing tasks (likely in-flight or completed by another node)"
  | .notRead _ _ => "Error when reading task file"
  | .usingQueue events => "refqueue using " ++ events.text

/-- The named values that go with the message. -/
def fields : Event → List (String × String)
  | .opened layout =>
    [("path", Text.quoted layout.refUpdates.text),
      ("waiting_layout", layout.waitingLayout.label)]
  | .alreadyWaiting task | .noRecord task | .notThere _ task | .absent _ task =>
    [("key", task.taskKey.text)]
  | .notCreated u error => [("key", (TaskKey.derive u).text), ("error", error.message)]
  | .notMoved task error | .notDeleted task error =>
    [("key", task.taskKey.text), ("error", error.message)]
  | .notCleaned error | .notListed error | .unfinishedRecord error | .malformedRecord error =>
    [("error", error.message)]
  | .foreignFile path | .fileVanished path => [("path", path.text)]
  | .walkStopped path cause =>
    [("path", path.text),
      ("error", "IO error for operation on " ++ path.text ++ ": " ++ cause.message)]
  | .notRead path cause => [("path", path.text), ("error", cause.message)]
  | _ => []

end Event

end ReplicationQueue
