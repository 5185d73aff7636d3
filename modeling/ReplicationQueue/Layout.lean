import ReplicationQueue.Disk.Path
import ReplicationQueue.TaskKey

/-! Where the tasks of a queue are. A task's state is the directory that the file named by its key
is in. -/

namespace ReplicationQueue

/-- How waiting tasks are laid out. -/
inductive WaitingLayout where
  /-- `waiting/<key>` -/
  | flat
  /-- `waiting/<shard>/<key>`, which bounds the size of directories. -/
  | sharded
  deriving DecidableEq, Repr

namespace WaitingLayout

def all : List WaitingLayout := [.flat, .sharded]

def name : WaitingLayout → String
  | .flat => "flat"
  | .sharded => "sharded"

/-- The name in events. -/
def label : WaitingLayout → String
  | .flat => "Flat"
  | .sharded => "Sharded"

def ofName? (name : String) : Option WaitingLayout :=
  all.find? (·.name == name)

theorem ofName?_name (w : WaitingLayout) : ofName? w.name = some w := by
  cases w <;> decide

end WaitingLayout

/-- A queue: its events directory and how its waiting tasks are laid out. -/
structure Layout where
  events : Path
  waitingLayout : WaitingLayout
  deriving DecidableEq, Repr

namespace Layout

def refUpdates (q : Layout) : Path :=
  q.events.join "ref-updates"

/-- Holds records that are being written. -/
def building (q : Layout) : Path :=
  q.refUpdates.join "building"

/-- Holds tasks that a node has claimed. -/
def running (q : Layout) : Path :=
  q.refUpdates.join "running"

/-- Holds tasks that are queued. -/
def waiting (q : Layout) : Path :=
  q.refUpdates.join "waiting"

def runningPath (q : Layout) (key : TaskKey) : Path :=
  q.running.join key.text

def flatWaitingPath (q : Layout) (key : TaskKey) : Path :=
  q.waiting.join key.text

/-- Where a task is put when it starts to wait. -/
def waitingPath (q : Layout) (key : TaskKey) : Path :=
  match q.waitingLayout with
  | .flat => q.flatWaitingPath key
  | .sharded => (q.waiting.join key.shard).join key.text

end Layout

end ReplicationQueue
