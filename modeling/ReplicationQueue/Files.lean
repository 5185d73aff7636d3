import ReplicationQueue.Plan

/-! The operations on files that the queue is built on. Each is safe while other nodes change the
same directories: a file is seen at one of two paths when it moves, a record is complete before it
gets its name, and a file that is gone already is no failure. -/

namespace ReplicationQueue.Files

open Plan

/-- Makes a directory, and before it what it lies in, up to `depth` levels further out. -/
def ensureWithin : Nat → Path → Plan (Except Cause Unit)
  | 0, _ => return .error .other
  | depth + 1, path => do
    if path.text = "" then return .ok ()
    match ← makeDirectory path with
    | .ok () => return .ok ()
    | .error .notFound =>
      match path.parent? with
      | none => return .error .other
      | some parent =>
        match ← ensureWithin depth parent with
        | .error cause => return .error cause
        | .ok () =>
          match ← makeDirectory path with
          | .ok () => return .ok ()
          | .error cause => if ← isDirectory path then return .ok () else return .error cause
    | .error cause => if ← isDirectory path then return .ok () else return .error cause

/-- Makes a directory and what it lies in, where they are missing. A path has no more levels than
characters. -/
def ensureDirectory (path : Path) : Plan (Except StoreError Unit) := do
  match ← ensureWithin (path.text.length + 2) path with
  | .ok () => return .ok ()
  | .error cause => return .error (.provision path cause)

def ensureParent (path : Path) : Plan (Except StoreError Unit) :=
  match path.parent? with
  | some parent => ensureDirectory parent
  | none => return .ok ()

/-- Moves a file, instead of anything that is at the target. -/
def move (source target : Path) : Plan (Except StoreError Unit) := do
  match ← rename source target with
  | .ok () => return .ok ()
  | .error cause => return .error (.rename source target cause)

/-- How often a new name is drawn when a name is taken. -/
def maxDraws : Nat := 65536

/-- Creates a file in `directory` whose name begins with `front` and ends in a drawn part. -/
def createNamed (directory : Path) (front : String) :
    Nat → Plan (Except Cause (Path × Location))
  | 0 => return .error .alreadyExists
  | draws + 1 => do
    let part ← drawName
    let path := directory.join (front ++ part.text)
    match ← createFile path with
    | .ok file => return .ok (path, file)
    | .error .alreadyExists => createNamed directory front draws
    | .error cause => return .error cause

/-- The path from the root on. -/
def absolute (path : Path) : Plan (Except Cause Path) := do
  if path.isAbsolute then return .ok path
  match ← workingDirectory with
  | .ok directory => return .ok (directory.path.join path.text)
  | .error cause => return .error cause

/-- Writes the contents of a new file through to the disk. -/
def fill (file : Location) (bytes : Bytes) : Plan (Except Cause Unit) := do
  match ← append file bytes with
  | .ok () => sync file
  | .error cause => return .error cause

/-- Writes a file of a new name in `directory` and answers with its absolute path. The bytes are on
the disk before the answer, so a move never shows a part of them; a file that they cannot be written
to is not kept. -/
def writeNew (directory : Path) (front : String) (bytes : Bytes) :
    Plan (Except StoreError Path) := do
  match ← absolute directory with
  | .error cause => return .error (.write directory cause)
  | .ok place =>
    match ← createNamed place front maxDraws with
    | .error cause => return .error (.write directory cause)
    | .ok (path, file) =>
      match ← fill file bytes with
      | .ok () => return .ok path
      | .error cause => do
        -- The file goes when it is dropped; that it may stay is not told.
        let _ ← remove path
        return .error (.write directory cause)

/-- Removes a file and tells whether it was there. -/
def delete (path : Path) : Plan (Except StoreError Bool) := do
  match ← remove path with
  | .ok () => return .ok true
  | .error .notFound => return .ok false
  | .error cause => return .error (.delete path cause)

/-- The contents of the files that can be read. -/
def readAll : List Path → Plan (List (Path × Bytes))
  | [] => return []
  | path :: rest => do
    match ← read path with
    | .ok bytes => return (path, bytes) :: (← readAll rest)
    | .error .notFound => do
      note (.fileVanished path)
      readAll rest
    | .error cause => do
      note (.notRead path cause)
      readAll rest

/-- Tells of the directories that a walk could not enter. -/
def noteClosed : List (Path × Cause) → Plan Unit
  | [] => return ()
  | (path, cause) :: rest => do
    note (.walkStopped path cause)
    noteClosed rest

/-- Reads every regular file below `directory`. What vanishes under way is passed over; so is what
cannot be entered or read, with an event. -/
def list (directory : Path) : Plan (List (Path × Bytes)) := do
  let found ← walk directory
  noteClosed found.closed
  readAll found.files

end ReplicationQueue.Files
