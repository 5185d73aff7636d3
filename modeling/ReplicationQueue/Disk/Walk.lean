import ReplicationQueue.Disk.Lookup

/-! Walking through directories. What is in a directory comes in the order of the bytes of the
names, and a directory is entered where its name stands; links are not entered, nor are directories
whose path is too long. -/

namespace ReplicationQueue

/-- What a walk came upon. -/
structure Walk where
  files : List Path
  /-- The directories that could not be entered, with the causes. -/
  closed : List (Path × Cause)
  deriving DecidableEq

/-- Whether the bytes of the first name come no later than those of the second. -/
def byName {α : Type} (a b : String × α) : Bool :=
  Utf8.encode a.1 ≤ Utf8.encode b.1

namespace Disk

/-- An entry that is right below. A directory that was removed is in no other. -/
def child? : Location × Entry → Option (String × Entry)
  | ([_], .removed) => none
  | ([name], e) => some (name, e)
  | _ => none

/-- What is in the directory at `l`, by name. -/
def children (d : Disk) (l : Location) : List (String × Entry) :=
  (d.subtree l).filterMap child?

/-- The paths of what is below the directory at `l`, which `p` leads to, down to `depth` levels. -/
def pathsBelow (d : Disk) : Nat → Location → Path → List (Path × Entry)
  | 0, _, _ => []
  | depth + 1, l, p =>
    if p.isTooLong then []
    else ((d.children l).mergeSort byName).flatMap fun (name, e) =>
      (p.join name, e) ::
        if e.isDirectory then d.pathsBelow depth (l ++ [name]) (p.join name) else []

/-- The length of the longest location, so that no walk goes down more levels. -/
def depth (d : Disk) : Nat :=
  d.entries.foldr (fun entry depth => max entry.1.length depth) 0

/-- The regular files below the directory at `l`, which `p` leads to, and the directories that stay
closed. What is no directory has nothing below it. -/
def walkFrom (d : Disk) (l : Location) (p : Path) : Walk :=
  if (d.get? l).any Entry.isDirectory then
    let below := d.pathsBelow d.depth l p
    ⟨below.filterMap fun
        | (path, .file _) => some path
        | _ => none,
      below.filterMap fun (path, e) =>
        if e.isDirectory && path.isTooLong then some (path, .nameTooLong) else none⟩
  else ⟨[], []⟩

/-- The walk of what a path names. A link is followed only when it is that path itself. -/
def walk (d : Disk) (cwd : Location) (p : Path) : Walk :=
  match d.linkStatus cwd p *> d.locate cwd p with
  | .error cause => ⟨[], [(p, cause)]⟩
  | .ok l => d.walkFrom l p

end Disk

end ReplicationQueue
