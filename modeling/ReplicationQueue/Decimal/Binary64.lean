/-! Nonnegative finite binary64 numbers in exact arithmetic: `significand · 2 ^ exponent`. A ratio
is rounded to the nearest one, ties to an even significand. -/

namespace ReplicationQueue

structure Binary64 where
  significand : Nat
  exponent : Int
  deriving DecidableEq, Repr

namespace Binary64

/-- The exponent of subnormal numbers, the least there is. -/
def minExponent : Int := -1074

/-- The exponent of the largest numbers. -/
def maxExponent : Int := 971

def zero : Binary64 := ⟨0, minExponent⟩

/-- The value as numerator and denominator. -/
def ratio (x : Binary64) : Nat × Nat :=
  if 0 ≤ x.exponent then (x.significand * Nat.pow 2 x.exponent.toNat, 1)
  else (x.significand, Nat.pow 2 (-x.exponent).toNat)

/-- The quotient rounded to the nearest natural number, ties to even; `den` is positive. -/
def roundDiv (num den : Nat) : Nat :=
  let q := num / den
  let r := num % den
  if 2 * r < den then q
  else if den < 2 * r then q + 1
  else if q % 2 = 0 then q else q + 1

/-- `num / den` in units of `2 ^ exponent`, rounded. -/
def scaled (num den : Nat) (exponent : Int) : Nat :=
  if 0 ≤ exponent then roundDiv num (den * Nat.pow 2 exponent.toNat)
  else roundDiv (num * Nat.pow 2 (-exponent).toNat) den

/-- The number nearest to `num / den`; nothing if that is beyond the largest. -/
def ofRatio (num den : Nat) : Option Binary64 :=
  if num = 0 then some zero
  else
    let guess : Int := (Nat.log2 num : Int) - Nat.log2 den - 53
    let exponent := max minExponent guess
    -- The guess is one too low when the quotient needs a 54th bit.
    let exponent := if scaled num den exponent < Nat.pow 2 53 then exponent else exponent + 1
    let significand := scaled num den exponent
    let x : Binary64 :=
      if significand = Nat.pow 2 53 then ⟨Nat.pow 2 52, exponent + 1⟩ else ⟨significand, exponent⟩
    if x.exponent ≤ maxExponent then some x else none

def ofNat (n : Nat) : Option Binary64 :=
  ofRatio n 1

/-- The number nearest to a power of ten; beyond the range it is none. -/
def powerOfTen (n : Nat) : Option Binary64 :=
  ofNat (Nat.pow 10 n)

def mul (x y : Binary64) : Option Binary64 :=
  let (a, b) := x.ratio
  let (c, d) := y.ratio
  ofRatio (a * c) (b * d)

/-- The quotient; `y` is not zero. -/
def div (x y : Binary64) : Option Binary64 :=
  let (a, b) := x.ratio
  let (c, d) := y.ratio
  ofRatio (a * d) (b * c)

end Binary64

end ReplicationQueue
