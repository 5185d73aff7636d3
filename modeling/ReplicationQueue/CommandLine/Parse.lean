import ReplicationQueue.CommandLine

/-! Reading a command line. Options may stand before the command, each command has options of its
own. The value of an option is attached to it, or is the next argument; in that case it is looked at
only when the next option comes, or at the end. -/

namespace ReplicationQueue.CommandLine

/-- What an argument can set. -/
inductive Setting where
  | config
  | eventsDirectory
  | verbose
  | version
  | help
  | selection
  | json
  | project
  | uri
  | remote
  | ref
  | path
  deriving DecidableEq, Repr

namespace Setting

def long? : Setting → Option String
  | config => some "config"
  | eventsDirectory => some "events-dir"
  | verbose => some "verbose"
  | version => some "version"
  | help => some "help"
  | selection => some "state"
  | json => some "json"
  | project => some "project"
  | uri => some "uri"
  | remote => some "remote"
  | ref => some "ref"
  | path => none

def short? : Setting → Option Char
  | config => some 'c'
  | eventsDirectory => some 'e'
  | verbose => some 'v'
  | version => some 'V'
  | help => some 'h'
  | selection => some 's'
  | project => some 'p'
  | uri => some 'u'
  | remote => some 'r'
  | json | ref | path => none

def takesValue : Setting → Bool
  | verbose | version | help | json => false
  | _ => true

/-- Whether a setting may be given more than once. -/
def isRepeatable (s : Setting) : Bool :=
  s = .ref

/-- Whether a setting can have the value. No path may be empty. -/
def accepts (s : Setting) (value : String) : Bool :=
  match s with
  | config | eventsDirectory | path => value ≠ ""
  | selection => (Selection.ofName? value).isSome
  | _ => true

end Setting

/-- Where an argument stands: before the command, or after it. -/
inductive Scope where
  | root
  | list
  | push (verb : Verb)
  | resetAll
  | writeConfig
  deriving DecidableEq, Repr

namespace Scope

def commands : List Scope :=
  [.list, .resetAll, .writeConfig] ++ Verb.all.map .push

def name : Scope → String
  | root => ""
  | list => "list"
  | push verb => verb.name
  | resetAll => "reset-all"
  | writeConfig => "write-config"

def ofName? (name : String) : Option Scope :=
  commands.find? (·.name == name)

def options : Scope → List Setting
  | root => [.config, .eventsDirectory, .verbose, .help, .version]
  | list => [.selection, .json, .help]
  | push _ => [.project, .uri, .remote, .ref, .help]
  | resetAll | writeConfig => [.help]

def ofLong? (scope : Scope) (name : String) : Option Setting :=
  scope.options.find? (·.long? == some name)

def ofShort? (scope : Scope) (letter : Char) : Option Setting :=
  scope.options.find? (·.short? == some letter)

/-- What an argument that is no option sets. -/
def positional? : Scope → Option Setting
  | writeConfig => some .path
  | _ => none

end Scope

def helpName : String := "help"

def isCommandName (name : String) : Bool :=
  name = helpName || (Scope.ofName? name).isSome

/-- The settings that were read, and the last one while its value is not looked at. -/
structure Progress where
  settled : List (Setting × String)
  pending : Option (Setting × Option String)
  deriving DecidableEq, Repr

namespace Progress

def start : Progress := ⟨[], none⟩

def has (p : Progress) (setting : Setting) : Bool :=
  p.settled.any (·.1 = setting)

/-- Whether the next argument is the value of an option. -/
def awaitsValue (p : Progress) : Bool :=
  match p.pending with
  | some (_, none) => true
  | _ => false

def record (p : Progress) (setting : Setting) (value : String) : Except Refusal Progress :=
  if p.has setting && !setting.isRepeatable then .error .conflict
  else if !setting.accepts value then .error .invalidValue
  else .ok { p with settled := p.settled ++ [(setting, value)] }

/-- Looks at the value that is pending. -/
def settle (p : Progress) : Except Refusal Progress :=
  match p.pending with
  | none => .ok p
  | some (_, none) => .error .invalidValue
  | some (setting, some value) => record { p with pending := none } setting value

/-- An option without a value. -/
def flag (p : Progress) (setting : Setting) : Except Refusal Progress := do
  let p ← p.settle
  match setting with
  | .help => .error .helpWanted
  | .version => .error .versionWanted
  | setting => p.record setting ""

/-- An option with its value, or one whose value is the next argument. -/
def option (p : Progress) (setting : Setting) (value : Option String) :
    Except Refusal Progress := do
  let p ← p.settle
  match value with
  | some value => p.record setting value
  | none => return { p with pending := some (setting, none) }

/-- An argument that is the value of the pending option. -/
def value (p : Progress) (text : String) : Progress :=
  match p.pending with
  | some (setting, _) => { p with pending := some (setting, some text) }
  | none => p

/-- An argument that is no option and no value of one. -/
def positional (p : Progress) (scope : Scope) (text : String) : Except Refusal Progress :=
  match scope.positional? with
  | some setting =>
    if p.has setting || p.pending.any (·.1 = setting) then .error .unknownArgument
    else do
      let p ← p.settle
      return { p with pending := some (setting, some text) }
  | none => .error .unknownArgument

/-- A long option, its value after an equals sign. -/
def long (p : Progress) (scope : Scope) (name : String) (value : Option String) :
    Except Refusal Progress :=
  match scope.ofLong? name with
  | none => .error .unknownArgument
  | some setting =>
    if setting.takesValue then p.option setting value
    else if value.isSome then .error .unwantedValue
    else p.flag setting

/-- The value that is attached to a letter; an equals sign may come before it. -/
def attached? : List Char → Option String
  | [] => none
  | '=' :: rest => some (String.ofList rest)
  | text => some (String.ofList text)

/-- Letters after a dash. The first that takes a value takes all letters after it. -/
def short (p : Progress) (scope : Scope) : List Char → Except Refusal Progress
  | [] => .ok p
  | letter :: rest =>
    match scope.ofShort? letter with
    | none => .error .unknownArgument
    | some setting =>
      if setting.takesValue then p.option setting (attached? rest)
      else do
        let p ← p.flag setting
        p.short scope rest

end Progress

inductive Form where
  | long (name : String) (value : Option String)
  | short (letters : List Char)
  | word
  deriving DecidableEq, Repr

def Form.ofChars : List Char → Form
  | '-' :: '-' :: rest =>
    let name := String.ofList (rest.takeWhile (· ≠ '='))
    match rest.dropWhile (· ≠ '=') with
    | '=' :: value => .long name (some (String.ofList value))
    | _ => .long name none
  | '-' :: letter :: rest => .short (letter :: rest)
  | _ => .word

/-- After this argument, all others are no options. -/
def endOfOptions : String := "--"

/-- Arguments after the end of options. -/
def readWords (scope : Scope) : List String → Progress → Except Refusal Progress
  | [], p => .ok p
  | arg :: rest, p => do
    let p ← p.positional scope arg
    readWords scope rest p

def readArguments (scope : Scope) : List String → Progress → Except Refusal Progress
  | [], p => .ok p
  | arg :: rest, p =>
    if arg = endOfOptions then readWords scope rest p
    else
      match Form.ofChars arg.toList with
      | .long name value => do
        let p ← p.long scope name value
        readArguments scope rest p
      | .short letters => do
        let p ← p.short scope letters
        readArguments scope rest p
      | .word =>
        if p.awaitsValue then readArguments scope rest (p.value arg)
        else do
          let p ← p.positional scope arg
          readArguments scope rest p

/-- The values of a setting, in order. -/
def valuesOf (settled : List (Setting × String)) (setting : Setting) : List String :=
  settled.filterMap fun (s, value) => if s = setting then some value else none

def valueOf? (settled : List (Setting × String)) (setting : Setting) : Option String :=
  (valuesOf settled setting).head?

def required (settled : List (Setting × String)) (setting : Setting) : Except Refusal String :=
  match valueOf? settled setting with
  | some value => .ok value
  | none => .error .missingRequired

/-- The push that the options of a command describe. -/
def pushOf (settled : List (Setting × String)) : Except Refusal Push := do
  let project ← required settled .project
  let uri ← required settled .uri
  let remote ← required settled .remote
  let _ ← required settled .ref
  return ⟨project, uri, remote, valuesOf settled .ref⟩

/-- The command of a scope with its settings. -/
def commandOf (scope : Scope) (settled : List (Setting × String)) : Except Refusal Command :=
  match scope with
  | .root => .error .missingCommand
  | .list =>
    let selection := ((valueOf? settled .selection).bind Selection.ofName?).getD .all
    .ok (.list selection (valueOf? settled .json).isSome)
  | .push verb => (pushOf settled).map (.push verb)
  | .resetAll => .ok .resetAll
  | .writeConfig => (required settled .path).map fun text => .writeConfig ⟨text⟩

/-- The help of a command, which has no commands of its own. -/
def readHelp : List String → Refusal
  | [] => .helpWanted
  | [name] => if isCommandName name then .helpWanted else .invalidCommand
  | _ :: _ :: _ => .invalidCommand

/-- A command line with its command, once the options before it are settled. -/
def complete (p : Progress) (command : Command) : Except Refusal CommandLine := do
  let p ← p.settle
  return {
    config := (valueOf? p.settled .config).map Path.mk
    eventsDirectory := (valueOf? p.settled .eventsDirectory).map Path.mk
    verbose := p.has .verbose
    command }

def readCommand (scope : Scope) (args : List String) : Except Refusal Command := do
  let p ← readArguments scope args .start
  let p ← p.settle
  commandOf scope p.settled

/-- A command line that ends before its command. -/
def withoutCommand (p : Progress) : Except Refusal CommandLine := do
  let p ← p.settle
  .error (if p.settled = [] then .nothingGiven else .missingCommand)

/-- The end of options before a command leaves no place for one. -/
def readRootWords (p : Progress) : List String → Except Refusal CommandLine
  | [] => withoutCommand p
  | arg :: _ => .error (if isCommandName arg then .unknownArgument else .invalidCommand)

/-- The options before the command, and the command. -/
def readRoot : List String → Progress → Except Refusal CommandLine
  | [], p => withoutCommand p
  | arg :: rest, p =>
    if p.awaitsValue = false ∧ arg = helpName then .error (readHelp rest)
    else
      match if p.awaitsValue then none else Scope.ofName? arg with
      | some scope => do
        let command ← readCommand scope rest
        complete p command
      | none =>
        if arg = endOfOptions then readRootWords p rest
        else
          match Form.ofChars arg.toList with
          | .long name value => do
            let p ← p.long .root name value
            readRoot rest p
          | .short letters => do
            let p ← p.short .root letters
            readRoot rest p
          | .word =>
            if p.awaitsValue then readRoot rest (p.value arg) else .error .invalidCommand

def parse (args : List String) : Except Refusal CommandLine :=
  readRoot args .start

end ReplicationQueue.CommandLine
