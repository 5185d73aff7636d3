import ReplicationQueue.Text.Utf8
import ReplicationQueue.Json.Fault

/-! Numbers. `readNumber` says which number a text spells: integers of 64 bits are exact, all others
are floating point, scaled by one power of ten at a time. `skipNumber` only checks the form. -/

namespace ReplicationQueue.Json

def digit? (b : UInt8) : Option Nat :=
  if '0'.toUInt8 ≤ b ∧ b ≤ '9'.toUInt8 then some (b.toNat - '0'.toNat) else none

def isDigit (b : UInt8) : Bool :=
  (digit? b).isSome

def startsWithDigit : Bytes → Bool
  | c :: _ => isDigit c
  | [] => false

def isExponentMark (b : UInt8) : Bool :=
  b = 'e'.toUInt8 ∨ b = 'E'.toUInt8

/-- Digits taken into `value` while it stays below `limit`, their number, and the rest. -/
def takeDigits (limit value count : Nat) : Bytes → Nat × Nat × Bytes
  | [] => (value, count, [])
  | c :: r =>
    match digit? c with
    | none => (value, count, c :: r)
    | some d =>
      if value * 10 + d < limit then takeDigits limit (value * 10 + d) (count + 1) r
      else (value, count, c :: r)

/-- The least magnitude that a 64-bit significand cannot hold. -/
def significandLimit : Nat := Nat.pow 2 64

/-- The least magnitude that a 32-bit exponent cannot hold. -/
def exponentLimit : Nat := Nat.pow 2 31

/-- The largest power of ten that numbers are scaled by. -/
def maxPower : Nat := 308

/-- `x · 10 ^ exponent`, each step rounded. Numbers below the range come to zero in two steps. -/
def scale : Nat → Binary64 → Int → Option Binary64
  | 0, x, _ => some x
  | fuel + 1, x, exponent =>
    if exponent.natAbs ≤ maxPower then do
      let power ← Binary64.powerOfTen exponent.natAbs
      if 0 ≤ exponent then x.mul power else x.div power
    else if x.significand = 0 then some x
    else if 0 ≤ exponent then none
    else do
      let power ← Binary64.powerOfTen maxPower
      let smaller ← x.div power
      scale fuel smaller (exponent + maxPower)

def float (negative : Bool) (significand : Nat) (exponent : Int) : Except Fault Found :=
  match (Binary64.ofNat significand).bind (scale 4 · exponent) with
  | some x => .ok (.float negative x)
  | none => .error .numberOutOfRange

/-- Reads an exponent after its mark. -/
def readExponent (negative : Bool) (significand : Nat) (start : Int) (s : Bytes) :
    Except Fault Found :=
  let (up, s) := match s with
    | c :: r =>
      if c = '+'.toUInt8 then (true, r) else if c = '-'.toUInt8 then (false, r) else (true, s)
    | [] => (true, s)
  match s with
  | [] => .error (.ended .value)
  | c :: _ =>
    if !isDigit c then .error .invalidNumber
    else
      let (power, _, rest) := takeDigits exponentLimit 0 0 s
      if startsWithDigit rest then
        if significand ≠ 0 ∧ up then .error .numberOutOfRange
        else .ok (.float negative Binary64.zero)
      else float negative significand (if up then start + power else start - power)

/-- Reads the digits after a point. Those that no longer fit the significand do not count. -/
def readFraction (negative : Bool) (significand : Nat) (start : Int) (s : Bytes) :
    Except Fault Found :=
  let (value, count, rest) := takeDigits significandLimit significand 0 s
  if count = 0 ∧ !startsWithDigit rest then
    .error (if rest.isEmpty then .ended .value else .invalidNumber)
  else
    match rest.dropWhile isDigit with
    | c :: r =>
      if isExponentMark c then readExponent negative value (start - count) r
      else float negative value (start - count)
    | [] => float negative value (start - count)

/-- Reads what follows the integer part. -/
def readTail (negative : Bool) (significand : Nat) (exponent : Int) (whole : Except Fault Found) :
    Bytes → Except Fault Found
  | [] => whole
  | c :: r =>
    if c = '.'.toUInt8 then readFraction negative significand exponent r
    else if isExponentMark c then readExponent negative significand exponent r
    else whole

def whole (negative : Bool) (n : Nat) : Except Fault Found :=
  if !negative then .ok (.integer n)
  else if 0 < n ∧ n ≤ Nat.pow 2 63 then .ok (.integer (-n))
  else float true n 0

def readNumber (negative : Bool) : Bytes → Except Fault Found
  | [] => .error (.ended .value)
  | c :: r =>
    if !isDigit c then .error .invalidNumber
    else if c = '0'.toUInt8 then
      if startsWithDigit r then .error .invalidNumber
      else readTail negative 0 0 (whole negative 0) r
    else
      let (value, _, rest) := takeDigits significandLimit 0 0 (c :: r)
      let extra := rest.takeWhile isDigit
      if extra.isEmpty then readTail negative value 0 (whole negative value) rest
      else
        readTail negative value extra.length (float negative value extra.length)
          (rest.dropWhile isDigit)

def skipExponent (s : Bytes) : Except Fault Bytes :=
  let s := match s with
    | c :: r => if c = '+'.toUInt8 ∨ c = '-'.toUInt8 then r else s
    | [] => s
  if startsWithDigit s then .ok (s.dropWhile isDigit) else .error .invalidNumber

/-- Passes over what may follow the digits of a number. -/
def skipFraction (s : Bytes) : Except Fault Bytes :=
  match s with
  | [] => .ok []
  | c :: r =>
    if c = '.'.toUInt8 then
      if !startsWithDigit r then .error .invalidNumber
      else
        match r.dropWhile isDigit with
        | [] => .ok []
        | e :: rest => if isExponentMark e then skipExponent rest else .ok (e :: rest)
    else if isExponentMark c then skipExponent r
    else .ok s

def skipNumber : Bytes → Except Fault Bytes
  | [] => .error .invalidNumber
  | c :: r =>
    if !isDigit c then .error .invalidNumber
    else if c = '0'.toUInt8 then
      if startsWithDigit r then .error .invalidNumber else skipFraction r
    else skipFraction (r.dropWhile isDigit)

end ReplicationQueue.Json
