import ReplicationQueue.Text.Hex
import ReplicationQueue.Yaml.Token

/-! Tokens that stand in one line: anchors and aliases, tags, and directives. Each reader answers
with its token and the rest of the text. -/

namespace ReplicationQueue.Yaml

def takeName (s : List Char) : String × List Char :=
  (String.ofList (s.takeWhile isNameCharacter), s.dropWhile isNameCharacter)

def endsName : List Char → Bool
  | [] => true
  | c :: _ => isBlank c || isBreak c || c ∈ ['?', ':', ',', ']', '\x7d', '%', '@', '\x60']

/-- Reads the name of an anchor or an alias after its indicator. -/
def readAnchorName (s : List Char) : Option (String × List Char) :=
  let (name, rest) := takeName s
  if name = "" || !endsName rest then none else some (name, rest)

/-- The numbers of bytes of characters by their first byte. -/
def encodedLength (octet : UInt8) : Nat :=
  if octet < 0x80 then 1
  else if octet &&& 0xe0 = 0xc0 then 2
  else if octet &&& 0xf0 = 0xe0 then 3
  else if octet &&& 0xf8 = 0xf0 then 4
  else 0

/-- Reads the rest of a URI. A character that is escaped is escaped whole: `due` of its bytes are to
come. Flow indicators belong to a verbatim URI only. -/
def readUriFrom (verbatim : Bool) (due : Nat) : List Char → Option (Bytes × List Char)
  | [] => if due = 0 then some ([], []) else none
  | '%' :: a :: b :: rest =>
    match Hex.value? a, Hex.value? b with
    | some high, some low =>
      let octet := (high * 16 + low).toUInt8
      if due = 0 then
        if encodedLength octet = 0 then none
        else
          (readUriFrom verbatim (encodedLength octet - 1) rest).map
            fun (bytes, tail) => (octet :: bytes, tail)
      else if octet &&& 0xc0 = 0x80 then
        (readUriFrom verbatim (due - 1) rest).map fun (bytes, tail) => (octet :: bytes, tail)
      else none
    | _, _ => none
  | c :: rest =>
    if due ≠ 0 || c = '%' then none
    else if isUriCharacter c || (verbatim && c ∈ [',', '[', ']']) then
      (readUriFrom verbatim 0 rest).map
        fun (bytes, tail) => (String.utf8EncodeChar c ++ bytes, tail)
    else some ([], c :: rest)

/-- What counts of a URI: it ends before its first null byte. -/
def untilNull (bytes : Bytes) : Bytes :=
  bytes.takeWhile (· ≠ 0)

def readUri (verbatim : Bool) (s : List Char) : Option (Bytes × List Char) := do
  let (bytes, rest) ← readUriFrom verbatim 0 s
  if bytes = [] then none else some (untilNull bytes, rest)

/-- Reads a tag handle: `!`, or a name between two of them. Without the second one, the name counts
as the beginning of the tag itself. -/
def readHandle : List Char → Option (String × List Char)
  | '!' :: rest =>
    let (name, tail) := takeName rest
    match tail with
    | '!' :: tail => some ("!" ++ name ++ "!", tail)
    | _ => some ("!" ++ name, tail)
  | _ => none

def endsTag (flow : Bool) : List Char → Bool
  | [] => true
  | c :: _ => isBlank c || isBreak c || (flow && c = ',')

/-- Reads the parts of a tag from its `!` on. A tag without a handle of its own has the handle `!`;
one that is already whole has none. -/
def readTagParts : List Char → Option (String × Bytes × List Char)
  | '!' :: '<' :: rest => do
    let (suffix, tail) ← readUri true rest
    match tail with
    | '>' :: tail => some ("", suffix, tail)
    | _ => none
  | s => do
    let (handle, rest) ← readHandle s
    if 1 < handle.length && handle.toList.getLast? = some '!' then do
      let (suffix, tail) ← readUri false rest
      return (handle, suffix, tail)
    else do
      let (bytes, tail) ← readUriFrom false 0 rest
      let suffix := Utf8.encode (String.ofList (handle.toList.drop 1)) ++ untilNull bytes
      if suffix = [] then some ("", Utf8.encode "!", tail) else some ("!", suffix, tail)

def readTag (flow : Bool) (s : List Char) : Option (Token × List Char) := do
  let (handle, suffix, rest) ← readTagParts s
  if endsTag flow rest then some (.tag handle suffix, rest) else none

def maxVersionDigits : Nat := 9

def readVersionNumber (s : List Char) : Option (Nat × List Char) :=
  let digits := s.takeWhile Char.isDigit
  if digits = [] || maxVersionDigits < digits.length then none
  else some (digits.foldl (fun n c => n * 10 + (c.toNat - '0'.toNat)) 0, s.dropWhile Char.isDigit)

def readVersion (s : List Char) : Option (Token × List Char) := do
  let (major, rest) ← readVersionNumber (s.dropWhile isBlank)
  match rest with
  | '.' :: rest => do
    let (minor, rest) ← readVersionNumber rest
    return (.version major minor, rest)
  | _ => none

def startsWithBlank : List Char → Bool
  | c :: _ => isBlank c
  | [] => false

def readHandleFront (s : List Char) : Option (Token × List Char) := do
  let (handle, rest) ← readHandle (s.dropWhile isBlank)
  if handle.toList.getLast? ≠ some '!' then none
  if !startsWithBlank rest then none
  let (front, rest) ← readUri true (rest.dropWhile isBlank)
  if startsWithGap rest then some (.handle handle front, rest) else none

/-- Reads a directive after its percent sign, up to the end of its line. -/
def readDirective (s : List Char) : Option (Token × List Char) := do
  let (name, rest) := takeName s
  if !startsWithGap rest then none
  let (token, rest) ←
    if name = "YAML" then readVersion rest
    else if name = "TAG" then readHandleFront rest
    else none
  let rest := rest.dropWhile isBlank
  let rest := dropComment rest
  if startsWithEnd rest then some (token, rest) else none

end ReplicationQueue.Yaml
