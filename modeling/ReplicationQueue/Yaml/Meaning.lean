import ReplicationQueue.Decimal.Binary64
import ReplicationQueue.Text.Hex

/-! What a word means when no quotes say that it is text: nothing, a truth value or a number. A text
that would mean one of these has to be quoted. -/

namespace ReplicationQueue.Yaml

def isNull (text : List Char) : Bool :=
  text ∈ ["".toList, "null".toList, "Null".toList, "NULL".toList, "~".toList]

def isTruth (text : List Char) : Bool :=
  text ∈ ["true".toList, "True".toList, "TRUE".toList, "false".toList, "False".toList,
    "FALSE".toList]

def isSign (c : Char) : Bool :=
  c = '+' || c = '-'

def dropSign : List Char → List Char
  | c :: rest => if isSign c then rest else c :: rest
  | [] => []

def dropPlus : List Char → List Char
  | '+' :: rest => rest
  | s => s

/-- Whether a text has the digits of a number but a zero in front, which makes it text. -/
def isZeroPadded (text : List Char) : Bool :=
  match dropSign text with
  | '0' :: rest => rest ≠ [] && rest.all Char.isDigit
  | _ => false

def digitIn? (base : Nat) (c : Char) : Option Nat :=
  (Hex.value? c).bind fun n => if n < base then some n else none

def valueIn? (base : Nat) (digits : List Char) : Option Nat :=
  if digits = [] then none
  else digits.foldlM (fun n c => (digitIn? base c).map (n * base + ·)) 0

/-- The base that the front of a number names, and the digits. -/
def splitBase : List Char → Nat × List Char
  | '0' :: 'x' :: rest => (16, rest)
  | '0' :: 'o' :: rest => (8, rest)
  | '0' :: 'b' :: rest => (2, rest)
  | s => (10, s)

/-- The number of integers on either side of zero. -/
def integerLimit : Nat := Nat.pow 2 127

/-- Whether a text means an integer of 128 bits. -/
def isInteger (text : List Char) : Bool :=
  let (negative, body) := match text with
    | '-' :: rest => (true, rest)
    | s => (false, dropPlus s)
  let (base, digits) := splitBase body
  (base ≠ 10 || !isZeroPadded text) &&
    match valueIn? base digits with
    | some n => if negative then n ≤ integerLimit else n < 2 * integerLimit
    | none => false

/-- The value of an exponent, which may have a sign. -/
def readExponent? (s : List Char) : Option Int :=
  match s with
  | '-' :: rest => (valueIn? 10 rest).map fun n => -(n : Int)
  | s => (valueIn? 10 (dropPlus s)).map Int.ofNat

def isExponentMark (c : Char) : Bool :=
  c = 'e' || c = 'E'

/-- A decimal number without a sign, as `(n, e)` for `n · 10 ^ e`. -/
def readDecimal? (s : List Char) : Option (Nat × Int) := do
  let whole := s.takeWhile Char.isDigit
  let rest := s.dropWhile Char.isDigit
  let (fraction, rest) := match rest with
    | '.' :: rest => (rest.takeWhile Char.isDigit, rest.dropWhile Char.isDigit)
    | rest => ([], rest)
  let digits ← valueIn? 10 (whole ++ fraction)
  let exponent ← match rest with
    | [] => some 0
    | c :: rest => if isExponentMark c then readExponent? rest else none
  return (digits, exponent - fraction.length)

/-- Whether `n · 10 ^ e` rounds to a finite binary64 number. -/
def isFinite (n : Nat) (e : Int) : Bool :=
  let digits := (Nat.log2 n : Int) / 3 + 1
  if n = 0 || digits + e < 0 then true
  else if 400 < e then false
  else if 0 ≤ e then (Binary64.ofRatio (n * Nat.pow 10 e.toNat) 1).isSome
  else (Binary64.ofRatio n (Nat.pow 10 (-e).toNat)).isSome

def infinities : List (List Char) := [".inf".toList, ".Inf".toList, ".INF".toList]

def notNumbers : List (List Char) := [".nan".toList, ".NaN".toList, ".NAN".toList]

def isFloat (text : List Char) : Bool :=
  !isZeroPadded text &&
    (dropSign text ∈ infinities || text ∈ notNumbers ||
      match readDecimal? (dropSign text) with
      | some (n, e) => isFinite n e
      | none => false)

/-- Whether a text without quotes would mean something else than text, or looks as if it did. -/
def isMeaningful (text : List Char) : Bool :=
  isNull text || isTruth text || isInteger text || isFloat text || isZeroPadded text

end ReplicationQueue.Yaml
