import ReplicationQueue.Disk.Lookup

/-! The calls that change a disk. Each answers with the new disk or with the cause of its refusal;
a call that is refused changes nothing. -/

namespace ReplicationQueue.Disk

/-- A place for a new entry: a name that is free in a directory that takes it. -/
def freePlace (d : Disk) (cwd : Location) (p : Path) : Except Cause Location := do
  match ← d.slot cwd p with
  | .special => .error .alreadyExists
  | .named directory name _ =>
    if (d.get? (directory ++ [name])).isSome then .error .alreadyExists
    else if d.admits directory name then return directory ++ [name]
    else .error (d.absence directory name)

def makeDirectory (d : Disk) (cwd : Location) (p : Path) : Except Cause Disk := do
  let l ← d.freePlace cwd p
  return d.put l .directory

/-- Makes an empty file where nothing is, and answers with its location. -/
def createFile (d : Disk) (cwd : Location) (p : Path) : Except Cause (Location × Disk) := do
  let l ← d.freePlace cwd p
  return (l, d.put l (.file []))

/-- Adds bytes to the end of the open file at `l`. -/
def append (d : Disk) (l : Location) (bytes : Bytes) : Disk :=
  match d.get? l with
  | some (.file contents) => d.put l (.file (contents ++ bytes))
  | _ => d

/-- Makes `bytes` the contents of a file, which is made if it is missing. Links are followed. -/
def overwrite (d : Disk) (cwd : Location) (p : Path) (bytes : Bytes) : Except Cause Disk := do
  match ← d.slot cwd p with
  | .special | .named _ _ true => .error .isDirectory
  | .named _ _ false =>
    let l ← resolve d .free maxLinks (start cwd p) (Path.stepsOf p.text)
    match d.get? l with
    | some .directory | some (.mount _) | some .removed => .error .isDirectory
    | some (.link _) => .error .tooManyLinks
    | some .special => .error .noDevice
    | _ => return d.put l (.file bytes)

def contents (d : Disk) (cwd : Location) (p : Path) : Except Cause Bytes := do
  match ← d.status cwd p with
  | .file bytes => return bytes
  | .directory | .mount _ | .removed => .error .isDirectory
  | .link _ => .error .tooManyLinks
  | .special => .error .noDevice

def remove (d : Disk) (cwd : Location) (p : Path) : Except Cause Disk := do
  match ← d.slot cwd p with
  | .special => .error .isDirectory
  | .named directory name slash =>
    match d.get? (directory ++ [name]) with
    | none => .error (d.absence directory name)
    | some .directory | some (.mount _) | some .removed => .error .isDirectory
    | some _ => if slash then .error .notDirectory else return d.erase (directory ++ [name])

/-- Where the volume of a location begins. -/
def volume (d : Disk) (l : Location) : Location :=
  ((Location.outward l).find? fun k => (d.get? k).any Entry.isMount).getD []

/-- Whether an entry can take the place of another: a directory that of an empty directory, any
other entry that of one that is no directory. -/
def checkReplace (d : Disk) (e : Entry) (target : Location) : Except Cause Unit :=
  match d.get? target with
  | none => .ok ()
  | some old =>
    match e.isDirectory, old.isDirectory with
    | true, false => .error .notDirectory
    | false, true => .error .isDirectory
    | false, false => .ok ()
    | true, true =>
      if old.isMount then .error .busy
      else if d.hasChildren target then .error .notEmpty
      else .ok ()

/-- Moves what the first path names to the second, instead of what is there. -/
def rename (d : Disk) (cwd : Location) (source target : Path) : Except Cause Disk := do
  checkNull source
  checkNull target
  let first ← d.slot cwd source
  let second ← d.slot cwd target
  match first, second with
  | .named sourceDirectory sourceName sourceSlash, .named targetDirectory targetName targetSlash =>
    if d.volume sourceDirectory ≠ d.volume targetDirectory then .error .acrossVolumes
    else
      let old := sourceDirectory ++ [sourceName]
      let new := targetDirectory ++ [targetName]
      match d.get? old with
      | none => .error (d.absence sourceDirectory sourceName)
      | some e =>
        if !d.admits targetDirectory targetName then
          .error (d.absence targetDirectory targetName)
        else if !e.isDirectory ∧ (sourceSlash ∨ targetSlash) then .error .notDirectory
        else if old = new then return d
        else if old.isPrefixOf new then .error .intoItself
        else if new.isPrefixOf old then .error .notEmpty
        else if e.isMount then .error .busy
        else do
          d.checkReplace e new
          return d.moveTree old new
  | _, _ => .error .busy

end ReplicationQueue.Disk
