import ReplicationQueue.Json.Value
import ReplicationQueue.Update

/-! The stored form of an update: a compact JSON object and a line end. The reader takes the members
in any order, passes over members it does not know, and also takes a list of the four strings. -/

namespace ReplicationQueue

namespace Update

inductive Field where
  | project
  | ref
  | uri
  | remote
  deriving DecidableEq, Repr

namespace Field

def all : List Field := [.project, .ref, .uri, .remote]

def name : Field → String
  | .project => "project"
  | .ref => "ref"
  | .uri => "uri"
  | .remote => "remote"

def ofName? (name : String) : Option Field :=
  all.find? (·.name == name)

end Field

def get (u : Update) : Field → String
  | .project => u.project
  | .ref => u.ref
  | .uri => u.uri
  | .remote => u.remote

def writeMember (u : Update) (field : Field) : String :=
  Json.literal field.name ++ ":" ++ Json.literal (u.get field)

def toJson (u : Update) : String :=
  "\x7b" ++ ",".intercalate (Field.all.map u.writeMember) ++ "\x7d"

/-- What a task file holds. -/
def record (u : Update) : Bytes :=
  Utf8.encode (u.toJson ++ "\n")

/-- The fields that were read so far. -/
abbrev Seen := Field → Option String

def Seen.none : Seen := fun _ => Option.none

def Seen.insert (seen : Seen) (field : Field) (text : String) : Seen :=
  fun other => if other = field then some text else seen other

/-- How messages call an update. -/
def wanted : String := "struct ReplicateRefUpdate"

/-- The update with all fields seen; the first field that is missing is the fault. -/
def Seen.update (seen : Seen) : Except Json.Fault Update := do
  let field (f : Field) : Except Json.Fault String :=
    match seen f with
    | some text => .ok text
    | Option.none => .error (.missingField f.name)
  return {
    project := ← field .project
    ref := ← field .ref
    uri := ← field .uri
    remote := ← field .remote }

open Json

/-- Reads the rest of a member after the opening quote of its key. -/
def readMember (seen : Seen) (s : Bytes) : Except Fault (Seen × Bytes) :=
  match readLiteral s with
  | .error fault => .error fault
  | .ok (key, rest) =>
    match Field.ofName? key with
    | some field =>
      if (seen field).isSome then .error (.duplicateField field.name)
      else
        match readColon rest with
        | .error fault => .error fault
        | .ok rest =>
          match readString "a string" rest with
          | .error fault => .error fault
          | .ok (text, rest) => .ok (seen.insert field text, rest)
    | none =>
      match readColon rest with
      | .error fault => .error fault
      | .ok rest =>
        match skipValue [] rest with
        | .error fault => .error fault
        | .ok rest => .ok (seen, rest)

theorem length_readMember_lt {seen seen' : Seen} {s rest : Bytes}
    (h : readMember seen s = .ok (seen', rest)) : rest.length < s.length := by
  unfold readMember at h
  split at h
  · cases h
  · rename_i key tail hk
    have := length_readLiteral_lt hk
    split at h
    · split at h
      · cases h
      · split at h
        · cases h
        · rename_i hc
          have := length_readColon_lt hc
          split at h
          · cases h
          · rename_i ht
            have := length_readString_lt ht
            cases h
            omega
    · split at h
      · cases h
      · rename_i hc
        have := length_readColon_lt hc
        split at h
        · cases h
        · rename_i ht
          have := length_skipValue_lt ht
          cases h
          omega

/-- Reads members after the opening quote of the next key, up to the closing brace. -/
def readMembers (seen : Seen) (s : Bytes) : Except Fault (Seen × Bytes) :=
  match _hm : readMember seen s with
  | .error fault => .error fault
  | .ok (seen, rest) =>
    match _hs : dropSpace rest with
    | [] => .error (.ended .object)
    | c :: r =>
      if c = '\x7d'.toUInt8 then .ok (seen, r)
      else if c = ','.toUInt8 then
        match _hr : dropSpace r with
        | [] => .error (.ended .value)
        | d :: tail =>
          if d = quote then readMembers seen tail
          else if d = '\x7d'.toUInt8 then .error .trailingComma
          else .error .keyNotString
      else .error .expectedCommaOrBrace
termination_by s.length
decreasing_by
  have hm := length_readMember_lt _hm
  have hs := length_dropSpace_le rest
  rw [_hs, List.length_cons] at hs
  have hr := length_dropSpace_le r
  rw [_hr, List.length_cons] at hr
  omega

def readObject (s : Bytes) : Except Fault (Update × Bytes) :=
  match dropSpace s with
  | [] => .error (.ended .object)
  | c :: r =>
    if c = '\x7d'.toUInt8 then do return (← Seen.none.update, r)
    else if c = quote then do
      let (seen, rest) ← readMembers Seen.none r
      return (← seen.update, rest)
    else .error .keyNotString

/-- How messages call the list form. -/
def wantedList : String := wanted ++ " with 4 elements"

/-- Reads the element number `index` of the list form. -/
def readElement (index : Nat) (s : Bytes) : Except Fault (String × Bytes) :=
  match dropSpace s with
  | [] => .error (.ended .list)
  | c :: r =>
    if c = ']'.toUInt8 then .error (.wrongLength index wantedList)
    else if index = 0 then readString "a string" (c :: r)
    else if c = ','.toUInt8 then
      match dropSpace r with
      | [] => .error (.ended .value)
      | d :: r => if d = ']'.toUInt8 then .error .trailingComma else readString "a string" (d :: r)
    else .error .expectedCommaOrBracket

/-- The closing bracket of the list form. -/
def readListEnd (s : Bytes) : Except Fault Bytes :=
  match dropSpace s with
  | [] => .error (.ended .list)
  | c :: r =>
    if c = ']'.toUInt8 then .ok r
    else if c = ','.toUInt8 then
      match dropSpace r with
      | d :: _ => .error (if d = ']'.toUInt8 then .trailingComma else .trailingCharacters)
      | [] => .error .trailingCharacters
    else .error .trailingCharacters

/-- Reads an update after the opening bracket of the list form. -/
def readList (s : Bytes) : Except Fault (Update × Bytes) := do
  let (project, s) ← readElement 0 s
  let (ref, s) ← readElement 1 s
  let (uri, s) ← readElement 2 s
  let (remote, s) ← readElement 3 s
  let s ← readListEnd s
  return (⟨project, ref, uri, remote⟩, s)

def read (s : Bytes) : Except Fault (Update × Bytes) :=
  match dropSpace s with
  | [] => .error (.ended .value)
  | c :: r =>
    if c = '['.toUInt8 then readList r
    else if c = '\x7b'.toUInt8 then readObject r
    else .error (wrongValue wanted c r)

/-- Reads a whole text as an update. The URI stays as it is. -/
def parse (s : Bytes) : Except Fault Update :=
  read s >>= finish

end Update

end ReplicationQueue
