import ReplicationQueue.Console

/-! The program: carries out the tool's plan on the machine it runs on. -/

namespace ReplicationQueue.Main

/-- The number that the machine gives a refusal. It may come negated. -/
def numberOf : IO.Error → UInt32
  | .alreadyExists _ n _ | .noFileOrDirectory _ n _ | .invalidArgument _ n _
  | .permissionDenied _ n _ | .resourceExhausted _ n _ | .inappropriateType _ n _
  | .noSuchThing _ n _ | .interrupted _ n _ | .otherError n _ | .resourceBusy n _
  | .resourceVanished n _ | .unsupportedOperation n _ | .hardwareFault n _
  | .unsatisfiedConstraints n _ | .illegalOperation n _ | .protocolError n _
  | .timeExpired n _ => if n < 0x80000000 then n else 0 - n
  | .unexpectedEof | .userError _ => 0

/-- What a refusal of the machine means. -/
def causeOf : IO.Error → Cause
  | .invalidArgument _ _ "string contains NUL bytes" => .nullInPath
  | error =>
    match (numberOf error).toNat with
    | 2 => .notFound
    | 6 => .noDevice
    | 13 => .permissionDenied
    | 16 => .busy
    | 17 => .alreadyExists
    | 18 => .acrossVolumes
    | 20 => .notDirectory
    | 21 => .isDirectory
    | 22 => .intoItself
    | 36 => .nameTooLong
    | 39 => .notEmpty
    | 40 => .tooManyLinks
    | 116 => .staleHandle
    | _ => .other

/-- The answer of a call that can be refused. -/
def attempt {α : Type} (call : IO α) : IO (Except Cause α) := do
  match ← call.toBaseIO with
  | .ok value => return .ok value
  | .error error => return .error (causeOf error)

def alphabet : List Char :=
  "abcdefghijklmnopqrstuvwxyzABCDEFGHIJKLMNOPQRSTUVWXYZ0123456789".toList

def drawLetters : Nat → IO (List Char)
  | 0 => return []
  | n + 1 => do
    let index ← IO.rand 0 (alphabet.length - 1)
    return alphabet.getD index 'a' :: (← drawLetters n)

/-- A name part of the given letters. -/
def namePart (letters : List Char) : NamePart :=
  let text := String.ofList letters
  if h : text.toList.length = 6 ∧
      (text.toList.all fun c => '!' ≤ c && c ≤ '~' && c != '/') = true then
    ⟨text, h.1, h.2⟩
  else ⟨"aaaaaa", by decide, by decide⟩

/-- The names on a path. -/
def locationOf (text : String) : Location :=
  ((Path.segments text.toList).filter (· ≠ [])).map String.ofList

/-- What is below a directory. -/
partial def walkBelow (path : Path) : IO Walk := do
  match ← attempt do (← IO.FS.realPath path.text).readDir with
  | .error cause => return ⟨[], [(path, cause)]⟩
  | .ok entries =>
    let entries := (entries.toList.map fun entry => (entry.fileName, entry)).mergeSort byName
    let found ← entries.mapM fun (_, entry) => do
      match ← attempt entry.path.symlinkMetadata with
      | .error _ => return ⟨[], []⟩
      | .ok metadata =>
        match metadata.type with
        | .file => return ⟨[path.join entry.fileName], []⟩
        | .dir => walkBelow (path.join entry.fileName)
        | _ => return ⟨[], []⟩
    return ⟨found.flatMap (·.files), found.flatMap (·.closed)⟩

def walk (path : Path) : IO Walk := do
  match ← attempt do (← IO.FS.realPath path.text).isDir with
  | .error cause => return ⟨[], [(path, cause)]⟩
  | .ok false => return ⟨[], []⟩
  | .ok true => walkBelow path

def isThere (path : Path) : IO Bool := do
  return (← attempt (IO.FS.realPath path.text)).isOk

def Level.label : Level → String
  | .debug => "DEBUG"
  | .info => "INFO"
  | .warn => "WARN"
  | .error => "ERROR"

/-- Prints an event, with its fields after the message. -/
def report (event : Event) : IO Unit := do
  let fields := event.fields.map fun (name, value) => " " ++ name ++ "=" ++ value
  IO.eprintln (Level.label event.level ++ " " ++ event.message ++ String.join fields)

def carryOut (verbose : Bool) : (c : Call) → IO c.Answer
  | .probe path => isThere path
  | .isDirectory path => isThere (path.join ".")
  | .makeDirectory path => attempt (IO.FS.createDir path.text)
  | .workingDirectory => attempt do return locationOf (toString (← IO.currentDir))
  | .drawName => return namePart (← drawLetters 6)
  | .createFile path => attempt do
      let _ ← IO.FS.Handle.mk path.text .writeNew
      return locationOf path.text
  | .append file bytes => attempt do
      let handle ← IO.FS.Handle.mk file.path.text .append
      handle.write ⟨bytes.toArray⟩
      handle.flush
  -- bytes are flushed as they are appended
  | .sync _ => return .ok ()
  | .rename source target => attempt (IO.FS.rename source.text target.text)
  | .remove path => attempt (IO.FS.removeFile path.text)
  | .walk path => walk path
  | .read path => attempt do return (← IO.FS.readBinFile path.text).data.toList
  | .overwrite path bytes => attempt (IO.FS.writeBinFile path.text ⟨bytes.toArray⟩)
  | .note event => if verbose || event.level ≠ .debug then report event else return ()

def perform {α : Type} (verbose : Bool) : Plan α → IO α
  | .done value => return value
  | .call c next => do
    let answer ← carryOut verbose c
    perform verbose (next answer)

/-- The variables that the tool looks at. -/
def variableNames : List String :=
  ["HOME", "XDG_DATA_HOME", "XDG_CONFIG_HOME", "CLICOLOR_FORCE"]

def environment : IO Environment := do
  let values ← variableNames.mapM fun name => return (name, ← IO.getEnv name)
  return ⟨fun name => (values.lookup name).join, ⟨"."⟩⟩

end ReplicationQueue.Main

open ReplicationQueue in
def main (args : List String) : IO UInt32 := do
  let env ← Main.environment
  let verbose := match CommandLine.parse args with
    | .ok line => line.verbose
    | .error _ => false
  let report ← Main.perform verbose (Console.run env args)
  IO.print report.output
  match report.error with
  | some message => IO.eprintln ("Error: " ++ message)
  | none => if report.exit = 2 then IO.eprint Console.usage
  return report.exit.toUInt32
