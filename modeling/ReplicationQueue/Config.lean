import ReplicationQueue.Plan
import ReplicationQueue.Environment
import ReplicationQueue.Yaml.Document
import ReplicationQueue.Yaml.Scalar

/-! The configuration of a queue: a YAML mapping with two members, each of which may be left out. -/

namespace ReplicationQueue

structure Config where
  eventsDirectory : Path
  waitingLayout : WaitingLayout
  deriving DecidableEq, Repr

namespace Config

open Yaml

def eventsDirectoryName : String := "events_directory"

def waitingLayoutName : String := "waiting_layout"

/-- The configuration where none is given. -/
def standard (env : Environment) : Config :=
  ⟨env.dataDirectory.join "refqueue", .flat⟩

def toYaml (c : Config) : String :=
  eventsDirectoryName ++ ": " ++ String.ofList (writeValue c.eventsDirectory.text.toList) ++
    waitingLayoutName ++ ": " ++ c.waitingLayout.name ++ "\n"

/-- The members that were read so far. -/
structure Members where
  eventsDirectory : Option String
  waitingLayout : Option WaitingLayout
  deriving DecidableEq, Repr

/-- The name of a local tag, which begins with `!`. -/
def localName? (tag : Tag) : Option String :=
  match tag with
  | c :: rest => if c = '!'.toUInt8 then Utf8.decode? rest else none
  | [] => none

/-- The name of a layout: the text of a scalar, or a local tag on an empty one. -/
def layoutOf? : Yaml.Event → Option WaitingLayout
  | .scalar _ tag text plain =>
    match tag.bind localName? with
    | some name => if plain && isNull text.toList then WaitingLayout.ofName? name else none
    | none => WaitingLayout.ofName? text
  | _ => none

def textOf? : Yaml.Event → Option String
  | .scalar _ _ text _ => some text
  | _ => none

/-- Reads the members of a mapping. No member may come twice; unknown ones are passed over. -/
def readMembers (d : Document) (members : Members) (events : List Yaml.Event) : Option Members :=
  match events with
  | [] => none
  | .endMapping :: _ => some members
  | key :: rest => do
    let name ← (← d.eventAt? (key :: rest)) |> textOf?
    if name = eventsDirectoryName then
      if members.eventsDirectory.isSome then none
      let text ← (← d.eventAt? rest) |> textOf?
      readMembers d { members with eventsDirectory := some text } (Yaml.Event.skipNode 0 rest)
    else if name = waitingLayoutName then
      if members.waitingLayout.isSome then none
      let layout ← (← d.eventAt? rest) |> layoutOf?
      readMembers d { members with waitingLayout := some layout } (Yaml.Event.skipNode 0 rest)
    else readMembers d members (Yaml.Event.skipNode 0 rest)
termination_by events.length
decreasing_by
  all_goals
    have := Yaml.Event.length_skipNode_le 0 rest
    simp only [List.length_cons]
    omega

/-- The members of a document. An empty document has none. -/
def membersOf? (d : Document) : Option Members :=
  match d.events with
  | [] => some ⟨none, none⟩
  | .scalar _ _ text plain :: _ => if plain && text = "" then some ⟨none, none⟩ else none
  | .startMapping _ _ :: rest => readMembers d ⟨none, none⟩ rest
  | _ => none

/-- The configuration that a text spells, with standard values where members are left out. -/
def ofYaml? (standard : Config) (text : String) : Option Config := do
  let members ← membersOf? (← Document.read? text)
  return ⟨(members.eventsDirectory.map Path.mk).getD standard.eventsDirectory,
    members.waitingLayout.getD standard.waitingLayout⟩

inductive Error where
  | unreadable (cause : Cause)
  | malformed
  deriving DecidableEq, Repr

open Plan

def loadFile (env : Environment) (path : Path) : Plan (Except Error Config) := do
  match ← read path with
  | .error cause => return .error (.unreadable cause)
  | .ok bytes =>
    match Utf8.decode? bytes with
    | none => return .error (.unreadable .notText)
    | some text =>
      match ofYaml? (standard env) text with
      | none => return .error .malformed
      | some config => return .ok config

/-- Where a configuration is looked for when no path is given. -/
def usualPaths (env : Environment) : List Path :=
  [⟨"refqueue.yml"⟩, (env.configDirectory.join "refqueue").join "config.yml"]

/-- Loads the first of `paths` that is there. -/
def loadFirst (env : Environment) : List Path → Plan (Except Error Config)
  | [] => return .ok (standard env)
  | path :: rest => do
    if ← exists? path then loadFile env path else loadFirst env rest

/-- Loads the configuration at a path, or else from one of the usual places. -/
def load (env : Environment) : Option Path → Plan (Except Error Config)
  | some path => loadFile env path
  | none => loadFirst env (usualPaths env)

/-- What a failure to load from a given path is called. -/
def loadMessage (path : Path) : String :=
  "Failed to load config from " ++ path.text

def save (c : Config) (path : Path) : Plan (Except Cause Unit) :=
  overwrite path (Utf8.encode c.toYaml)

end Config

end ReplicationQueue
