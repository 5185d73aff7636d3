import ReplicationQueue.Json.Skip

/-! Values where a certain kind is wanted. The first thing that is wrong, from left to right, is
the fault that is reported. -/

namespace ReplicationQueue.Json

/-- The fault of a value of the wrong kind, given its first byte. Sequences and maps are not looked
into; other values are read whole first. -/
def wrongValue (wanted : String) (c : UInt8) (r : Bytes) : Fault :=
  let named (found : Found) (read : Except Fault Bytes) : Fault :=
    match read with
    | .ok _ => .wrongType found wanted
    | .error fault => fault
  let number (read : Except Fault Found) : Fault :=
    match read with
    | .ok found => .wrongType found wanted
    | .error fault => fault
  if c = 'n'.toUInt8 then named .null (readWord wordNull r)
  else if c = 't'.toUInt8 then named (.boolean true) (readWord wordTrue r)
  else if c = 'f'.toUInt8 then named (.boolean false) (readWord wordFalse r)
  else if c = '-'.toUInt8 then number (readNumber true r)
  else if isDigit c then number (readNumber false (c :: r))
  else if c = quote then
    match readLiteral r with
    | .ok (text, _) => .wrongType (.text text) wanted
    | .error fault => fault
  else if c = '['.toUInt8 then .wrongType .sequence wanted
  else if c = '\x7b'.toUInt8 then .wrongType .map wanted
  else .expectedValue

/-- A string value; `wanted` is how messages call it. -/
def readString (wanted : String) (s : Bytes) : Except Fault (String × Bytes) :=
  match dropSpace s with
  | [] => .error (.ended .value)
  | c :: r => if c = quote then readLiteral r else .error (wrongValue wanted c r)

def readNull (wanted : String) (s : Bytes) : Except Fault Bytes :=
  match dropSpace s with
  | [] => .error (.ended .value)
  | c :: r =>
    if c = 'n'.toUInt8 then readWord wordNull r else .error (wrongValue wanted c r)

def readColon (s : Bytes) : Except Fault Bytes :=
  match dropSpace s with
  | [] => .error (.ended .object)
  | c :: r => if c = ':'.toUInt8 then .ok r else .error .expectedColon

/-- Nothing but blanks may follow a whole text. -/
def finish {α : Type} (read : α × Bytes) : Except Fault α :=
  if (dropSpace read.2).isEmpty then .ok read.1 else .error .trailingCharacters

/-- The key of an object's first member. -/
def readKey (s : Bytes) : Except Fault (String × Bytes) :=
  match dropSpace s with
  | [] => .error (.ended .object)
  | c :: r => if c = quote then readLiteral r else .error .keyNotString

/-- One of several names: as a string, or as an object whose only member has it as key and null as
value. -/
def readVariant {α : Type} (find : String → Except Fault α) (s : Bytes) :
    Except Fault (α × Bytes) :=
  match dropSpace s with
  | [] => .error (.ended .value)
  | c :: r =>
    if c = quote then do
      let (name, rest) ← readLiteral r
      return (← find name, rest)
    else if c = '\x7b'.toUInt8 then do
      let (name, rest) ← readKey r
      let variant ← find name
      let rest ← readNull "unit" (← readColon rest)
      match dropSpace rest with
      | [] => .error (.ended .object)
      | d :: rest => if d = '\x7d'.toUInt8 then .ok (variant, rest) else .error .expectedValue
    else .error .expectedValue

theorem prepend_eq_ok_iff {front bytes rest : Bytes} {found : Except Fault (Bytes × Bytes)} :
    prepend front found = .ok (bytes, rest) ↔
      ∃ tail, found = .ok (tail, rest) ∧ bytes = front ++ tail := by
  unfold prepend
  split
  · simp only [Except.ok.injEq, Prod.mk.injEq]
    constructor
    · rintro ⟨rfl, rfl⟩
      exact ⟨_, ⟨rfl, rfl⟩, rfl⟩
    · rintro ⟨_, ⟨rfl, rfl⟩, rfl⟩
      exact ⟨rfl, rfl⟩
  · simp

theorem length_scan_lt {s bytes rest : Bytes} (h : scan s = .ok (bytes, rest)) :
    rest.length < s.length := by
  fun_induction scan s generalizing bytes <;>
    simp only [prepend_eq_ok_iff, reduceCtorEq, Except.ok.injEq, Prod.mk.injEq] at h <;>
    simp only [List.length_cons] <;> grind

theorem length_readLiteral_lt {s rest : Bytes} {text : String}
    (h : readLiteral s = .ok (text, rest)) : rest.length < s.length := by
  unfold readLiteral at h
  split at h
  · cases h
  · rename_i bytes tail hs
    split at h
    · cases h
      exact length_scan_lt hs
    · cases h

theorem length_readString_lt {wanted text : String} {s rest : Bytes}
    (h : readString wanted s = .ok (text, rest)) : rest.length < s.length := by
  unfold readString at h
  have hs := length_dropSpace_le s
  split at h
  · cases h
  · rename_i c r heq
    rw [heq, List.length_cons] at hs
    split at h
    · have := length_readLiteral_lt h
      omega
    · cases h

theorem length_readColon_lt {s rest : Bytes} (h : readColon s = .ok rest) :
    rest.length < s.length := by
  unfold readColon at h
  have hs := length_dropSpace_le s
  split at h
  · cases h
  · rename_i c r heq
    rw [heq, List.length_cons] at hs
    split at h
    · cases h
      omega
    · cases h

end ReplicationQueue.Json
