import ReplicationQueue.Decimal.Binary64

/-! The fewest digits that read back as a given binary64 number. Of the decimals with that many
digits the nearest is taken, and of two equally near ones the even. -/

namespace ReplicationQueue.Decimal

/-- `digits · 10 ^ exponent`. -/
structure Scientific where
  digits : Nat
  exponent : Int
  deriving DecidableEq, Repr

def Scientific.ratio (x : Scientific) : Nat × Nat :=
  if 0 ≤ x.exponent then (x.digits * Nat.pow 10 x.exponent.toNat, 1)
  else (x.digits, Nat.pow 10 (-x.exponent).toNat)

/-- Whether a decimal rounds to a number. -/
def Scientific.rounds (x : Scientific) (target : Binary64) : Bool :=
  let (num, den) := x.ratio
  Binary64.ofRatio num den == some target

/-- The integer part of `num / den · 10 ^ -exponent`. -/
def gridFloor (num den : Nat) (exponent : Int) : Nat :=
  if 0 ≤ exponent then num / (den * Nat.pow 10 exponent.toNat)
  else num * Nat.pow 10 (-exponent).toNat / den

/-- The neighbours of a number on the grid of multiples of `10 ^ exponent`, the nearer first. -/
def neighbours (num den : Nat) (exponent : Int) : List Scientific :=
  let low : Scientific := ⟨gridFloor num den exponent, exponent⟩
  let high : Scientific := ⟨low.digits + 1, exponent⟩
  let (a, b) := low.ratio
  let (c, d) := high.ratio
  -- Twice the distance of the lower neighbour against the width of the grid.
  let below := (num * b - a * den) * d
  let above := (c * den - num * d) * b
  if below < above then [low, high]
  else if above < below then [high, low]
  else if low.digits % 2 = 0 then [low, high] else [high, low]

/-- The least `e` with `num / den < 10 ^ e`, searched upwards from `start` in `fuel` steps. -/
def magnitude (num den : Nat) : Nat → Int → Int
  | 0, e => e
  | fuel + 1, e => if gridFloor num den e = 0 then e else magnitude num den fuel (e + 1)

/-- Tries grids of one digit and more; `count` of them are left. -/
def search (x : Binary64) (num den : Nat) : Nat → Int → Option Scientific
  | 0, _ => none
  | count + 1, exponent =>
    match (neighbours num den exponent).find? (·.rounds x) with
    | some d => some d
    | none => search x num den count (exponent - 1)

def trim : Nat → Scientific → Scientific
  | 0, x => x
  | fuel + 1, x =>
    if x.digits ≠ 0 ∧ x.digits % 10 = 0 then trim fuel ⟨x.digits / 10, x.exponent + 1⟩ else x

/-- No binary64 number needs more than 17 digits. -/
def shortest (x : Binary64) : Scientific :=
  if x.significand = 0 then ⟨0, 0⟩
  else
    let (num, den) := x.ratio
    let start : Int := (Nat.log2 num : Int) * 3 / 10 - (Nat.log2 den : Int) * 3 / 10 - 20
    let e := magnitude num den 60 start
    trim 17 ((search x num den 17 (e - 1)).getD ⟨0, 0⟩)

/-- How a number is written: which magnitudes have their point in place and which an exponent. -/
structure Style where
  /-- Numbers from `10 ^ leastInPlace` on have their point in place. -/
  leastInPlace : Int
  /-- Numbers from `10 ^ leastExponent` on have an exponent. -/
  leastExponent : Int
  /-- The sign of a positive exponent. -/
  plus : String

/-- The digits of a decimal with the point in place, one digit at least after it. -/
def inPlace (digits : List Char) (exponent : Int) : List Char :=
  if 0 ≤ exponent then digits ++ List.replicate exponent.toNat '0' ++ ['.', '0']
  else
    let places := (-exponent).toNat
    if places < digits.length then
      digits.take (digits.length - places) ++ ['.'] ++ digits.drop (digits.length - places)
    else ['0', '.'] ++ List.replicate (places - digits.length) '0' ++ digits

/-- One digit, the rest after a point, and the power of ten. -/
def withExponent (style : Style) (digits : List Char) (power : Int) : List Char :=
  let head := match digits with
    | d :: e :: rest => d :: '.' :: e :: rest
    | short => short
  let sign := if power < 0 then "-" else style.plus
  head ++ ['e'] ++ sign.toList ++ Nat.toDigits 10 power.natAbs

def write (style : Style) (x : Binary64) : String :=
  let d := shortest x
  let digits := Nat.toDigits 10 d.digits
  let power := d.exponent + digits.length - 1
  String.ofList <|
    if x.significand = 0 then ['0', '.', '0']
    else if style.leastInPlace ≤ power ∧ power < style.leastExponent then inPlace digits d.exponent
    else withExponent style digits power

end ReplicationQueue.Decimal
