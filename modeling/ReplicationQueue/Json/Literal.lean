import ReplicationQueue.Text.Utf8
import ReplicationQueue.Json.Fault

/-! String literals. `literal` writes the short escapes where there are any, other control
characters by their code point and everything else as it is. `readLiteral` reads every escape and
requires what it reads to be text; `skipLiteral` passes over a literal and requires less. -/

namespace ReplicationQueue.Json

def quote : UInt8 := '"'.toUInt8
def backslash : UInt8 := '\\'.toUInt8

/-- The escape of a character that has a short one. -/
def shortEscape? (c : Char) : Option Char :=
  if c = '"' ∨ c = '\\' then some c
  else if c = '\x08' then some 'b'
  else if c = '\x0c' then some 'f'
  else if c = '\n' then some 'n'
  else if c = '\r' then some 'r'
  else if c = '\t' then some 't'
  else none

def writeChar (c : Char) : List Char :=
  match shortEscape? c with
  | some e => ['\\', e]
  | none => if c.toNat < 32 then ['\\', 'u'] ++ Hex.padded Hex.digit 4 c.toNat else [c]

/-- A text between quotes. -/
def literal (text : String) : String :=
  String.ofList (['"'] ++ text.toList.flatMap writeChar ++ ['"'])

/-- The byte that a one-letter escape stands for. -/
def shortByte? (e : UInt8) : Option UInt8 :=
  if e = quote ∨ e = backslash ∨ e = '/'.toUInt8 then some e
  else if e = 'b'.toUInt8 then some 8
  else if e = 'f'.toUInt8 then some 12
  else if e = 'n'.toUInt8 then some 10
  else if e = 'r'.toUInt8 then some 13
  else if e = 't'.toUInt8 then some 9
  else none

def fourHex? (a b c d : UInt8) : Option Nat := do
  let w ← Hex.value? (Char.ofUInt8 a)
  let x ← Hex.value? (Char.ofUInt8 b)
  let y ← Hex.value? (Char.ofUInt8 c)
  let z ← Hex.value? (Char.ofUInt8 d)
  return ((w * 16 + x) * 16 + y) * 16 + z

def isLeading (n : Nat) : Bool := 0xD800 ≤ n && n ≤ 0xDBFF
def isTrailing (n : Nat) : Bool := 0xDC00 ≤ n && n ≤ 0xDFFF

/-- The code point of a pair of surrogates. -/
def pairValue (leading trailing : Nat) : Nat :=
  (leading - 0xD800) * 0x400 + (trailing - 0xDC00) + 0x10000

def codePointBytes (n : Nat) : Bytes :=
  String.utf8EncodeChar (Char.ofNat n)

/-- Puts bytes in front of what a reader found. -/
def prepend (bytes : Bytes) (found : Except Fault (Bytes × Bytes)) : Except Fault (Bytes × Bytes) :=
  match found with
  | .ok (read, rest) => .ok (bytes ++ read, rest)
  | .error fault => .error fault

/-- The bytes up to the closing quote with escapes resolved, and the rest after it. -/
def scan : Bytes → Except Fault (Bytes × Bytes)
  | [] => .error (.ended .string)
  | c :: r =>
    if c = quote then .ok ([], r)
    else if c = backslash then
      match r with
      | [] => .error (.ended .string)
      | e :: r =>
        match shortByte? e with
        | some byte => prepend [byte] (scan r)
        | none =>
          if e ≠ 'u'.toUInt8 then .error .invalidEscape
          else match r with
          | h1 :: h2 :: h3 :: h4 :: r =>
            match fourHex? h1 h2 h3 h4 with
            | none => .error .invalidEscape
            | some n =>
              if isTrailing n then .error .loneSurrogate
              else if isLeading n then
                match r with
                | [] => .error (.ended .string)
                | [b] => .error (if b = backslash then .ended .string else .unfinishedPair)
                | b :: u :: r =>
                  if b ≠ backslash ∨ u ≠ 'u'.toUInt8 then .error .unfinishedPair
                  else match r with
                  | l1 :: l2 :: l3 :: l4 :: r =>
                    match fourHex? l1 l2 l3 l4 with
                    | none => .error .invalidEscape
                    | some m =>
                      if isTrailing m then prepend (codePointBytes (pairValue n m)) (scan r)
                      else .error .loneSurrogate
                  | _ => .error (.ended .string)
              else prepend (codePointBytes n) (scan r)
          | _ => .error (.ended .string)
    else if c < 32 then .error .controlCharacter
    else prepend [c] (scan r)

/-- Reads the text of a literal after its opening quote. -/
def readLiteral (s : Bytes) : Except Fault (String × Bytes) :=
  match scan s with
  | .error fault => .error fault
  | .ok (bytes, rest) =>
    match Utf8.decode? bytes with
    | some text => .ok (text, rest)
    | none => .error .invalidUtf8

/-- Passes over a literal after its opening quote. Surrogates need no partner here, and bytes need
not be text. -/
def skipLiteral : Bytes → Except Fault Bytes
  | [] => .error (.ended .string)
  | c :: r =>
    if c = quote then .ok r
    else if c = backslash then
      match r with
      | [] => .error (.ended .string)
      | e :: r =>
        match shortByte? e with
        | some _ => skipLiteral r
        | none =>
          if e ≠ 'u'.toUInt8 then .error .invalidEscape
          else match r with
          | h1 :: h2 :: h3 :: h4 :: r =>
            match fourHex? h1 h2 h3 h4 with
            | none => .error .invalidEscape
            | some _ => skipLiteral r
          | _ => .error (.ended .string)
    else if c < 32 then .error .controlCharacter
    else skipLiteral r

end ReplicationQueue.Json
