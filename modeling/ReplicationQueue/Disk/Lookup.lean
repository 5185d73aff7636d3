import ReplicationQueue.Disk.Basic
import ReplicationQueue.Disk.Path
import ReplicationQueue.Disk.Cause

/-! Finding the location that a path names. Names are entered one after the other; a link is
replaced by its target, and at most 40 links are followed in one lookup. Paths and names have a
greatest length, which is counted in bytes. -/

namespace ReplicationQueue

/-- The longest name that a directory holds, in bytes. -/
def maxNameBytes : Nat := 255

/-- The longest path that is looked up, in bytes. -/
def maxPathBytes : Nat := 4095

/-- The most links that one lookup follows. -/
def maxLinks : Nat := 40

/-- The names between slashes; a slash at the end is kept as a dot, for a directory is meant. -/
def Path.stepsOf (text : String) : List String :=
  let names := (Path.segments text.toList).filter (· ≠ [])
  let last := if names ≠ [] ∧ text.toList.getLast? = some '/' then [['.']] else []
  (names ++ last).map String.ofList

/-- Whether a path is longer than any that is looked up. -/
def Path.isTooLong (p : Path) : Bool :=
  maxPathBytes < p.text.utf8ByteSize

/-- The path of a location, from the root on. -/
def Location.path (l : Location) : Path :=
  ⟨"/" ++ "/".intercalate l⟩

namespace Disk

/-- Whether a new entry can be put under `name` into the directory at `directory`. -/
def admits (d : Disk) (directory : Location) (name : String) : Bool :=
  (d.get? directory).any Entry.isOpen && name.utf8ByteSize ≤ maxNameBytes

/-- Why `name` is not found in the directory at `directory`, which may not be able to hold it. -/
def absence (d : Disk) (directory : Location) (name : String) : Cause :=
  if (d.get? directory).any Entry.isOpen && maxNameBytes < name.utf8ByteSize then .nameTooLong
  else .notFound

/-- Whether a lookup must find something at its last name. -/
inductive Need where
  | existing
  /-- The last name may be missing from a directory that takes new entries. -/
  | free
  deriving DecidableEq

/-- Where a link leads: an absolute target starts at the root. -/
def linkStart (directory : Location) (target : String) : Location :=
  if Path.isAbsoluteText target.toList then [] else directory

/-- Enters `steps` from the directory `here`. `follow` goes on from a link. -/
def enter (d : Disk) (need : Need) (follow : Location → List String → Except Cause Location)
    (here : Location) : List String → Except Cause Location
  | [] => .ok here
  | step :: rest =>
    if step = "." then enter d need follow here rest
    else if step = ".." then enter d need follow here.dropLast rest
    else
      match d.get? (here ++ [step]) with
      | some .directory | some (.mount _) | some .removed =>
        enter d need follow (here ++ [step]) rest
      | some (.file _) | some .special => if rest = [] then .ok (here ++ [step]) else .error .notDirectory
      | some (.link target) => follow (linkStart here target) (Path.stepsOf target ++ rest)
      | none =>
        if need = .free ∧ rest = [] ∧ d.admits here step then .ok (here ++ [step])
        else .error (d.absence here step)

/-- Enters `steps` and follows no more than `links` links. -/
def resolve (d : Disk) (need : Need) : Nat → Location → List String → Except Cause Location
  | 0 => enter d need fun _ _ => .error .tooManyLinks
  | links + 1 => enter d need (resolve d need links)

/-- Where the lookup of a path starts. -/
def start (cwd : Location) (p : Path) : Location :=
  if p.isAbsolute then [] else cwd

/-- No path may hold a null character. -/
def checkNull (p : Path) : Except Cause Unit :=
  if '\x00' ∈ p.text.toList then .error .nullInPath else .ok ()

/-- No path may hold a null character or be too long, and the empty path names nothing. -/
def checkPath (p : Path) : Except Cause Unit := do
  checkNull p
  if p.isTooLong then .error .nameTooLong
  else if p.text = "" then .error .notFound
  else .ok ()

/-- The location of what a path names, links followed. -/
def locate (d : Disk) (cwd : Location) (p : Path) : Except Cause Location := do
  checkPath p
  resolve d .existing maxLinks (start cwd p) (Path.stepsOf p.text)

/-- What a path names, links followed. -/
def status (d : Disk) (cwd : Location) (p : Path) : Except Cause Entry := do
  let l ← d.locate cwd p
  match d.get? l with
  | some e => return e
  | none => .error .notFound

def exists? (d : Disk) (cwd : Location) (p : Path) : Bool :=
  (d.status cwd p).isOk

def isDirectory (d : Disk) (cwd : Location) (p : Path) : Bool :=
  match d.status cwd p with
  | .ok e => e.isDirectory
  | .error _ => false

/-- Where a path ends: at a name in a directory, or at a dot, two dots or the root. -/
inductive Slot where
  | named (directory : Location) (name : String) (slash : Bool)
  | special
  deriving DecidableEq

/-- The directory and name that a path ends at; a link at the end is not followed. -/
def slot (d : Disk) (cwd : Location) (p : Path) : Except Cause Slot := do
  checkPath p
  let names := ((Path.segments p.text.toList).filter (· ≠ [])).map String.ofList
  match names.getLast? with
  | none => return .special
  | some last =>
    let directory ← resolve d .existing maxLinks (start cwd p) (names.dropLast ++ ["."])
    if last = "." ∨ last = ".." then return .special
    else return .named directory last (p.text.toList.getLast? == some '/')

/-- What a path names, a link at the end not followed. -/
def linkStatus (d : Disk) (cwd : Location) (p : Path) : Except Cause Entry := do
  match ← d.slot cwd p with
  | .named directory name false =>
    match d.get? (directory ++ [name]) with
    | some e => return e
    | none => .error (d.absence directory name)
  | _ => d.status cwd p

end Disk

end ReplicationQueue
