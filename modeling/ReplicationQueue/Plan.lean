import ReplicationQueue.Disk.Change
import ReplicationQueue.Disk.Walk
import ReplicationQueue.Event

/-! What the queue does to the world around it, as a value: a sequence of calls to the system, each
followed by what its answer leads to. `Plan.run` carries the calls out one after the other; that
they are there to be seen lets one also ask what is left when a plan stops between two of them. -/

namespace ReplicationQueue

/-- The part of a file's name that is drawn at random: six visible ASCII characters. -/
structure NamePart where
  text : String
  length_text : text.toList.length = 6
  all_visible : (text.toList.all fun c => '!' ≤ c && c ≤ '~' && c != '/') = true
  deriving DecidableEq

/-- A call to the system. -/
inductive Call where
  /-- Whether a path names something. -/
  | probe (path : Path)
  | isDirectory (path : Path)
  | makeDirectory (path : Path)
  | workingDirectory
  /-- A name part that was not drawn before. -/
  | drawName
  /-- Makes an empty file where nothing is. -/
  | createFile (path : Path)
  /-- Adds bytes to the end of an open file. -/
  | append (file : Location) (bytes : Bytes)
  /-- Makes sure that an open file's bytes have reached the disk. -/
  | sync (file : Location)
  | rename (source target : Path)
  | remove (path : Path)
  /-- The regular files below a path. -/
  | walk (path : Path)
  | read (path : Path)
  /-- Makes bytes the contents of a file, which need not be there. -/
  | overwrite (path : Path) (bytes : Bytes)
  | note (event : Event)

/-- What a call is answered with. -/
def Call.Answer : Call → Type
  | .probe _ | .isDirectory _ => Bool
  | .drawName => NamePart
  | .workingDirectory | .createFile _ => Except Cause Location
  | .note _ => Unit
  | .makeDirectory _ | .append _ _ | .sync _ | .rename _ _ | .remove _ | .overwrite _ _ =>
    Except Cause Unit
  | .walk _ => Walk
  | .read _ => Except Cause Bytes

/-- A sequence of calls that ends with a value. -/
inductive Plan (α : Type) where
  | done (value : α)
  | call (c : Call) (next : c.Answer → Plan α)

namespace Plan

def bind {α β : Type} : Plan α → (α → Plan β) → Plan β
  | done value, f => f value
  | call c next, f => call c fun answer => bind (next answer) f

instance : Monad Plan where
  pure := done
  bind := bind

/-- The plan that makes one call. -/
def perform (c : Call) : Plan c.Answer :=
  call c done

def exists? (path : Path) : Plan Bool := perform (.probe path)
def isDirectory (path : Path) : Plan Bool := perform (.isDirectory path)
def makeDirectory (path : Path) : Plan (Except Cause Unit) := perform (.makeDirectory path)
def workingDirectory : Plan (Except Cause Location) := perform .workingDirectory
def drawName : Plan NamePart := perform .drawName
def createFile (path : Path) : Plan (Except Cause Location) := perform (.createFile path)
def sync (file : Location) : Plan (Except Cause Unit) := perform (.sync file)
def rename (source target : Path) : Plan (Except Cause Unit) := perform (.rename source target)
def remove (path : Path) : Plan (Except Cause Unit) := perform (.remove path)
def walk (path : Path) : Plan Walk := perform (.walk path)
def read (path : Path) : Plan (Except Cause Bytes) := perform (.read path)
def note (event : Event) : Plan Unit := perform (.note event)

def append (file : Location) (bytes : Bytes) : Plan (Except Cause Unit) :=
  perform (.append file bytes)

def overwrite (path : Path) (bytes : Bytes) : Plan (Except Cause Unit) :=
  perform (.overwrite path bytes)

end Plan

/-- The world around the queue: a disk, the working directory, the name parts that will be drawn,
how many were drawn so far, and the events noted so far. -/
structure System where
  disk : Disk
  cwd : Location
  names : Nat → NamePart
  drawn : Nat
  log : List Event

namespace System

/-- The system after a change that may be refused; a refusal changes nothing. -/
def change (s : System) : Except Cause Disk → Except Cause Unit × System
  | .ok disk => (.ok (), { s with disk })
  | .error cause => (.error cause, s)

/-- The system after everything at `l` and below was removed. A working directory that goes with it
stays in use under the empty name, which no path can have. -/
def removeTree (s : System) (l : Location) : System :=
  if l.isPrefixOf s.cwd then
    let nameless := l.dropLast ++ [""]
    { s with disk := (s.disk.eraseTree l).put nameless .removed, cwd := nameless }
  else { s with disk := s.disk.eraseTree l }

/-- Where the working directory is, unless it was removed. -/
def workingDirectory (s : System) : Except Cause Location :=
  if s.disk.get? s.cwd = some .removed then .error .notFound else .ok s.cwd

def answer (s : System) : (c : Call) → c.Answer × System
  | .probe path => (s.disk.exists? s.cwd path, s)
  | .isDirectory path => (s.disk.isDirectory s.cwd path, s)
  | .makeDirectory path => s.change (s.disk.makeDirectory s.cwd path)
  | .workingDirectory => (s.workingDirectory, s)
  | .drawName => (s.names s.drawn, { s with drawn := s.drawn + 1 })
  | .createFile path =>
    match s.disk.createFile s.cwd path with
    | .ok (file, disk) => (.ok file, { s with disk })
    | .error cause => (.error cause, s)
  | .append file bytes => (.ok (), { s with disk := s.disk.append file bytes })
  | .sync _ => (.ok (), s)
  | .rename source target => s.change (s.disk.rename s.cwd source target)
  | .remove path => s.change (s.disk.remove s.cwd path)
  | .walk path => (s.disk.walk s.cwd path, s)
  | .read path => (s.disk.contents s.cwd path, s)
  | .overwrite path bytes => s.change (s.disk.overwrite s.cwd path bytes)
  | .note event => ((), { s with log := s.log ++ [event] })

end System

namespace Plan

def run {α : Type} : Plan α → System → α × System
  | done value, s => (value, s)
  | call c next, s =>
    let (answer, s) := s.answer c
    run (next answer) s

@[simp] theorem run_pure {α : Type} (value : α) (s : System) :
    run (pure value) s = (value, s) := rfl

@[simp] theorem run_bind {α β : Type} (a : Plan α) (f : α → Plan β) (s : System) :
    run (a >>= f) s = run (f (run a s).1) (run a s).2 := by
  show run (bind a f) s = _
  induction a generalizing s with
  | done value => rfl
  | call c next ih => exact ih _ _

@[simp] theorem run_perform (c : Call) (s : System) : run (perform c) s = s.answer c := rfl

@[simp] theorem run_note (event : Event) (s : System) :
    run (note event) s = ((), { s with log := s.log ++ [event] }) := rfl

end Plan

end ReplicationQueue
