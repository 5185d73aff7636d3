import ReplicationQueue.Disk.Path
import ReplicationQueue.Push

/-! What a command line asks for. -/

namespace ReplicationQueue

inductive Selection where
  | all
  | waiting
  | running
  | building
  deriving DecidableEq, Repr

namespace Selection

def every : List Selection := [.all, .waiting, .running, .building]

def name : Selection → String
  | .all => "all"
  | .waiting => "waiting"
  | .running => "running"
  | .building => "building"

def ofName? (name : String) : Option Selection :=
  every.find? (·.name == name)

end Selection

/-- What is done with the tasks of a push. -/
inductive Verb where
  | create
  | start
  | reset
  | finish
  | delete
  | isWaiting
  deriving DecidableEq, Repr

namespace Verb

def all : List Verb := [.create, .start, .reset, .finish, .delete, .isWaiting]

def name : Verb → String
  | .create => "create"
  | .start => "start"
  | .reset => "reset"
  | .finish => "finish"
  | .delete => "delete"
  | .isWaiting => "is-waiting"

end Verb

inductive Command where
  | list (selection : Selection) (json : Bool)
  /-- The push has its refs in the order given, and its URI as given. -/
  | push (verb : Verb) (push : Push)
  | resetAll
  | writeConfig (path : Path)
  deriving DecidableEq, Repr

structure CommandLine where
  config : Option Path
  eventsDirectory : Option Path
  verbose : Bool
  command : Command
  deriving DecidableEq, Repr

/-- Why a command line is not carried out. -/
inductive CommandLine.Refusal where
  | unknownArgument
  | invalidValue
  | invalidCommand
  | missingRequired
  /-- An option is given twice. -/
  | conflict
  /-- A value is attached to an option that takes none. -/
  | unwantedValue
  | missingCommand
  | helpWanted
  | versionWanted
  /-- Nothing is given at all, so the help is shown. -/
  | nothingGiven
  deriving DecidableEq, Repr

end ReplicationQueue
