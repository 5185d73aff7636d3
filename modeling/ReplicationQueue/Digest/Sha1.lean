import ReplicationQueue.Text.Utf8
import ReplicationQueue.Text.Hex

/-! The SHA-1 digest of a byte string: five 32-bit words, folded block by block. The digest text
always has 40 lowercase hexadecimal digits. -/

namespace ReplicationQueue.Sha1

/-- The five chaining words. -/
structure Digest where
  a : UInt32
  b : UInt32
  c : UInt32
  d : UInt32
  e : UInt32
  deriving DecidableEq, Repr

def Digest.start : Digest :=
  ⟨0x67452301, 0xEFCDAB89, 0x98BADCFE, 0x10325476, 0xC3D2E1F0⟩

def Digest.add (x y : Digest) : Digest :=
  ⟨x.a + y.a, x.b + y.b, x.c + y.c, x.d + y.d, x.e + y.e⟩

/-- `n` is between 1 and 31. -/
def rotateLeft (x n : UInt32) : UInt32 :=
  (x <<< n) ||| (x >>> (32 - n))

/-- The length of the message in bits, as eight bytes with the highest first. -/
def lengthBytes (count : Nat) : Bytes :=
  [56, 48, 40, 32, 24, 16, 8, 0].map fun shift => UInt8.ofNat ((8 * count) >>> shift)

/-- Fills the message up to whole blocks of 64 bytes. -/
def pad (message : Bytes) : Bytes :=
  message ++ 0x80 :: List.replicate ((119 - message.length % 64) % 64) 0 ++
    lengthBytes message.length

/-- Four bytes make a word, the highest first. -/
def words : Bytes → List UInt32
  | a :: b :: c :: d :: rest =>
    (a.toUInt32 <<< 24 ||| b.toUInt32 <<< 16 ||| c.toUInt32 <<< 8 ||| d.toUInt32) :: words rest
  | _ => []

/-- Extends a schedule, latest word first, by `count` words. -/
def extend : Nat → List UInt32 → List UInt32
  | 0, latest => latest
  | count + 1, latest =>
    let word := latest.getD 2 0 ^^^ latest.getD 7 0 ^^^ latest.getD 13 0 ^^^ latest.getD 15 0
    extend count (rotateLeft word 1 :: latest)

/-- The 80 words of a block of 16. -/
def schedule (block : List UInt32) : List UInt32 :=
  (extend 64 block.reverse).reverse

/-- The function and constant of round `t`. -/
def mix (t : Nat) (x : Digest) : UInt32 × UInt32 :=
  if t < 20 then ((x.b &&& x.c) ||| (~~~x.b &&& x.d), 0x5A827999)
  else if t < 40 then (x.b ^^^ x.c ^^^ x.d, 0x6ED9EBA1)
  else if t < 60 then ((x.b &&& x.c) ||| (x.b &&& x.d) ||| (x.c &&& x.d), 0x8F1BBCDC)
  else (x.b ^^^ x.c ^^^ x.d, 0xCA62C1D6)

def round (state : Nat × Digest) (word : UInt32) : Nat × Digest :=
  let (t, x) := state
  let (f, k) := mix t x
  (t + 1, ⟨rotateLeft x.a 5 + f + x.e + k + word, x.a, rotateLeft x.b 30, x.c, x.d⟩)

/-- Folds one block of 16 words into the chaining words. -/
def compress (x : Digest) (block : List UInt32) : Digest :=
  x.add ((schedule block).foldl round (0, x)).2

/-- The first `count` blocks of 16 words. -/
def blocks : Nat → List UInt32 → List (List UInt32)
  | 0, _ => []
  | count + 1, ws => ws.take 16 :: blocks count (ws.drop 16)

def digest (message : Bytes) : Digest :=
  let ws := words (pad message)
  (blocks (ws.length / 16) ws).foldl compress Digest.start

def Digest.hex (x : Digest) : List Char :=
  [x.a, x.b, x.c, x.d, x.e].flatMap fun word => Hex.padded Hex.digit 8 word.toNat

theorem Digest.length_hex (x : Digest) : x.hex.length = 40 := by
  simp [Digest.hex]

theorem Digest.all_isLowerDigit_hex (x : Digest) : x.hex.all Hex.isLowerDigit = true := by
  simp [Digest.hex, Hex.all_isLowerDigit_padded, -List.all_eq_true]

end ReplicationQueue.Sha1
