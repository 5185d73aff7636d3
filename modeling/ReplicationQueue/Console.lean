import ReplicationQueue.CommandLine.Parse
import ReplicationQueue.Config
import ReplicationQueue.Store

/-! The command line tool: what each command does to the queue, what it prints, and how it ends. -/

namespace ReplicationQueue

/-- How a run of the tool ends: its exit code, what it printed, and why it failed. -/
structure Report where
  exit : Nat
  output : String
  error : Option String
  deriving DecidableEq, Repr

namespace Report

def success (output : String) : Report := ⟨0, output, none⟩

def failure (message : String) : Report := ⟨1, "", some message⟩

end Report

namespace Console

/-- The styles of printed words, by their codes. -/
inductive Colour where
  | faint
  | red
  | green
  | yellow
  | cyan
  deriving DecidableEq, Repr

def Colour.code : Colour → String
  | .faint => "2"
  | .red => "31"
  | .green => "32"
  | .yellow => "33"
  | .cyan => "36"

def Colour.start (c : Colour) : String :=
  "\x1b[" ++ c.code ++ "m"

/-- What ends a style. -/
def plain : List Char := "\x1b[0m".toList

/-- The text with `style` after each end of a style in it. -/
def resume (style : List Char) : List Char → List Char
  | '\x1b' :: '[' :: '0' :: 'm' :: rest => plain ++ style ++ resume style rest
  | c :: rest => c :: resume style rest
  | [] => []

/-- The output is no terminal, so it is coloured only when that is forced. -/
def isColoured (env : Environment) : Bool :=
  match env.get? "CLICOLOR_FORCE" with
  | some value => value ≠ "0"
  | none => false

def paint (coloured : Bool) (colour : Colour) (text : String) : String :=
  if coloured then
    colour.start ++ String.ofList (resume colour.start.toList text.toList ++ plain)
  else text

def check (coloured : Bool) : String :=
  paint coloured .green "✓"

def cross (coloured : Bool) : String :=
  paint coloured .red "✗"

def describeRecord (coloured : Bool) (u : Update) : String :=
  paint coloured .cyan u.project ++ ":" ++ paint coloured .yellow u.ref ++ " " ++ u.remote ++ " " ++
    paint coloured .faint u.uri ++ "\n"

def describeRecords (coloured json : Bool) (records : List Update) : String :=
  if json then String.join (records.map fun u => u.toJson ++ "\n")
  else if records.isEmpty then "No tasks found\n"
  else String.join (records.map (describeRecord coloured))

/-- The result of a transition of several tasks. -/
def describeSummary (coloured : Bool) (name : String) (summary : Summary) : String :=
  (if 0 < summary.failed then cross coloured else check coloured) ++ " " ++ name ++ " " ++
    summary.describe ++ "\n"

open Plan

def select (store : Store) : Selection → Plan (List Update)
  | .all => store.list
  | .waiting => store.listWaiting
  | .running => store.listRunning
  | .building => store.listBuilding

/-- Creates updates one after the other, with a line for each. -/
def createAll (coloured : Bool) (store : Store) : List Update → String → Plan String
  | [], printed => return printed
  | u :: rest, printed => do
    let key ← store.create u
    let line := check coloured ++ " " ++ paint coloured .cyan key.text ++ " " ++ u.describe ++ "\n"
    createAll coloured store rest (printed ++ line)

def deleteAll (store : Store) : List Update → Summary → Plan Summary
  | [], summary => return summary
  | u :: rest, summary => do
    let outcome ← store.delete u
    deleteAll store rest (summary.record outcome)

/-- Does to a push what the verb says. -/
def runPush (coloured : Bool) (store : Store) (verb : Verb) (push : Push) : Plan Report := do
  let summary (s : Summary) : Report := .success (describeSummary coloured verb.name s)
  match verb with
  | .create => return .success (← createAll coloured store push.updates "")
  | .start => return summary (← store.start push.toCanonical)
  | .reset => return summary (← store.reset push.toCanonical)
  | .finish => return summary (← store.finish push.toCanonical)
  | .delete => return summary (← deleteAll store push.updates .empty)
  | .isWaiting =>
    if ← store.isWaiting push.toCanonical then return .success "true\n"
    else return ⟨1, "false\n", none⟩

/-- Opens the configured queue and goes on with it. -/
def withStore (config : Config) (next : Store → Plan Report) : Plan Report := do
  note (.usingQueue config.eventsDirectory)
  match ← Store.ofLayout ⟨config.eventsDirectory, config.waitingLayout⟩ with
  | .ok store => next store
  | .error _ => return .failure "Failed to open task storage"

def writeConfig (coloured : Bool) (config : Config) (path : Path) : Plan Report := do
  match ← config.save path with
  | .ok () => return .success (check coloured ++ " Wrote config: " ++ path.text ++ "\n")
  | .error _ => return .failure ("Failed to write config to " ++ path.text)

def runCommand (coloured : Bool) (config : Config) : Command → Plan Report
  | .list selection json =>
    withStore config fun store => do
      return .success (describeRecords coloured json (← select store selection))
  | .push verb push => withStore config fun store => runPush coloured store verb push
  | .resetAll =>
    withStore config fun store => do
      return .success (describeSummary coloured "reset-all" (← store.resetAll))
  | .writeConfig path => writeConfig coloured config path

/-- Carries out a command line. An events directory that it gives takes the place of the
configured one. -/
def runLine (env : Environment) (line : CommandLine) : Plan Report := do
  match ← Config.load env line.config with
  | .error _ => return .failure "Failed to load configuration"
  | .ok config =>
    let config :=
      match line.eventsDirectory with
      | some path => { config with eventsDirectory := path }
      | none => config
    runCommand (isColoured env) config line.command

def versionLine : String := "rq 0.1.0\n"

def usage : String :=
  "Inspect and drive a replication task queue\n\n" ++
  "Usage: rq [-c <CONFIG>] [-e <EVENTS_DIR>] [-v] <COMMAND>\n\n" ++
  "Commands:\n" ++
  "  list [-s all|waiting|running|building] [--json]\n" ++
  "  create|start|reset|finish|delete|is-waiting\n" ++
  "      -p <PROJECT> -u <URI> -r <REMOTE> --ref <REF>...\n" ++
  "  reset-all\n" ++
  "  write-config <PATH>\n" ++
  "  help [COMMAND]\n"

/-- How the tool ends without carrying out a command. -/
def refuse : CommandLine.Refusal → Report
  | .helpWanted => .success usage
  | .versionWanted => .success versionLine
  | _ => ⟨2, "", none⟩

def run (env : Environment) (args : List String) : Plan Report :=
  match CommandLine.parse args with
  | .error refusal => return refuse refusal
  | .ok line => runLine env line

end Console

end ReplicationQueue
