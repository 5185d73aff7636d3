/-! Paths as they are written. A path keeps its text: doubled slashes, dots and a slash at the end
stay as given until the path is looked up. -/

namespace ReplicationQueue

structure Path where
  text : String
  deriving DecidableEq, Repr

namespace Path

/-- The stretches between slashes, empty ones included. -/
def segments : List Char → List (List Char)
  | [] => [[]]
  | c :: r =>
    if c = '/' then [] :: segments r
    else
      match segments r with
      | [] => [[c]]
      | s :: rest => (c :: s) :: rest

def isAbsoluteText : List Char → Bool
  | '/' :: _ => true
  | _ => false

def isAbsolute (p : Path) : Bool :=
  isAbsoluteText p.text.toList

/-- A slash goes between only where the left side needs one; an absolute right side stands alone. -/
def join (p : Path) (name : String) : Path :=
  if isAbsoluteText name.toList then ⟨name⟩
  else if p.text.toList = [] ∨ p.text.toList.getLast? = some '/' then ⟨p.text ++ name⟩
  else ⟨p.text ++ "/" ++ name⟩

/-- A step of a path, as paths are compared. -/
inductive Part where
  | root
  | here
  | up
  | name (text : String)
  deriving DecidableEq, Repr

/-- A segment as a part; empty segments and dots are none. -/
def part? (segment : List Char) : Option Part :=
  if segment = [] ∨ segment = ['.'] then none
  else if segment = ['.', '.'] then some .up
  else some (.name (String.ofList segment))

/-- The part that only the front of a path can be: the root, or a dot. -/
def front (chars : List Char) : Option Part × List Char :=
  match chars with
  | '/' :: rest => (some .root, rest)
  | ['.'] => (some .here, [])
  | '.' :: '/' :: rest => (some .here, '/' :: rest)
  | _ => (none, chars)

def parts (p : Path) : List Part :=
  let (first, body) := front p.text.toList
  first.toList ++ (segments body).filterMap part?

/-- Whether the parts of `p` begin with those of `base`. -/
def startsWith (p base : Path) : Bool :=
  base.parts.isPrefixOf p.parts

/-- The last name of a path, if it ends in one. -/
def fileName? (p : Path) : Option String :=
  match p.parts.getLast? with
  | some (.name text) => some text
  | _ => none

/-- Drops segments at the end that are no part. -/
def trimSegments (segments : List (List Char)) : List (List Char) :=
  (segments.reverse.dropWhile fun s => (part? s).isNone).reverse

def joinSegments : List (List Char) → List Char
  | [] => []
  | [s] => s
  | s :: rest => s ++ '/' :: joinSegments rest

theorem segments_ne_nil (chars : List Char) : segments chars ≠ [] := by
  cases chars with
  | nil => simp [segments]
  | cons c r =>
    unfold segments
    split
    · simp
    · split <;> simp

/-- Segments lose nothing of what they are cut from. -/
theorem joinSegments_segments (chars : List Char) : joinSegments (segments chars) = chars := by
  induction chars with
  | nil => rfl
  | cons c r ih =>
    unfold segments
    split
    · rename_i hc
      obtain ⟨s, rest, hs⟩ := List.exists_cons_of_ne_nil (segments_ne_nil r)
      rw [hs] at ih ⊢
      simp [joinSegments, ih, hc]
    · cases hs : segments r with
      | nil => exact absurd hs (segments_ne_nil r)
      | cons s rest =>
        rw [hs] at ih
        cases rest with
        | nil => simpa [joinSegments] using ih
        | cons t rest => simpa [joinSegments] using ih

/-- The path without its last part, as it is written. The root and the empty path have none. -/
def parent? (p : Path) : Option Path :=
  let (first, body) := front p.text.toList
  match trimSegments (segments body), first with
  | [], some .here => some ⟨""⟩
  | [], _ => none
  | kept, first =>
    let lead := match first with
      | some .root => ['/']
      | some .here => ['.']
      | _ => []
    some ⟨String.ofList (lead ++ joinSegments (trimSegments kept.dropLast))⟩

end Path

end ReplicationQueue
