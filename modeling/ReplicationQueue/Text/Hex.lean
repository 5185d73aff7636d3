/-! Hexadecimal digits, least significant last. -/

namespace ReplicationQueue.Hex

def digit (n : Nat) : Char :=
  if n < 10 then Char.ofNat ('0'.toNat + n) else Char.ofNat ('a'.toNat + (n - 10))

def upperDigit (n : Nat) : Char :=
  if n < 10 then Char.ofNat ('0'.toNat + n) else Char.ofNat ('A'.toNat + (n - 10))

def isLowerDigit (c : Char) : Bool :=
  ('0' ≤ c && c ≤ '9') || ('a' ≤ c && c ≤ 'f')

/-- The last `width` digits of `n`, written with `digitOf`. -/
def padded (digitOf : Nat → Char) : Nat → Nat → List Char
  | 0, _ => []
  | width + 1, n => padded digitOf width (n / 16) ++ [digitOf (n % 16)]

def value? (c : Char) : Option Nat :=
  if '0' ≤ c ∧ c ≤ '9' then some (c.toNat - '0'.toNat)
  else if 'a' ≤ c ∧ c ≤ 'f' then some (c.toNat - 'a'.toNat + 10)
  else if 'A' ≤ c ∧ c ≤ 'F' then some (c.toNat - 'A'.toNat + 10)
  else none

@[simp] theorem length_padded (digitOf : Nat → Char) (width n : Nat) :
    (padded digitOf width n).length = width := by
  induction width generalizing n with
  | zero => rfl
  | succ width ih => simp [padded, ih]

/-- What holds of each digit holds of the digits of a number. -/
theorem forall_mem_padded {digitOf : Nat → Char} {p : Char → Prop} (h : ∀ n < 16, p (digitOf n))
    (width n : Nat) : ∀ c ∈ padded digitOf width n, p c := by
  induction width generalizing n with
  | zero => simp [padded]
  | succ width ih =>
    rw [padded]
    exact List.forall_mem_append.2 ⟨ih (n / 16), by simpa using h _ (Nat.mod_lt n (by decide))⟩

theorem value?_upperDigit {n : Nat} (h : n < 16) : value? (upperDigit n) = some n := by
  have : ∀ m : Fin 16, value? (upperDigit m) = some m.val := by decide
  exact this ⟨n, h⟩

theorem isLowerDigit_digit {n : Nat} (h : n < 16) : isLowerDigit (digit n) = true := by
  have : ∀ m : Fin 16, isLowerDigit (digit m) = true := by decide
  exact this ⟨n, h⟩

theorem all_isLowerDigit_padded (width n : Nat) :
    (padded digit width n).all isLowerDigit = true :=
  List.all_eq_true.2 (forall_mem_padded (fun _ => isLowerDigit_digit) width n)

/-- All digits of `n`, with no leading zero but the digit of zero itself. -/
def digits (n : Nat) : List Char :=
  padded digit (Nat.log2 n / 4 + 1) n

end ReplicationQueue.Hex
