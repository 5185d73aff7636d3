import ReplicationQueue.Text.Utf8
import ReplicationQueue.Text.Hex

/-! The canonical ASCII form of a destination URI: what is not ASCII is written as the
percent-encoded bytes of its encoding, everything else stays. The form is a fixed point, so hosts
agree on it no matter who canonicalised first. -/

namespace ReplicationQueue.Uri

/-- A byte as a percent sign and two uppercase digits. -/
def percent (byte : UInt8) : List Char :=
  '%' :: Hex.padded Hex.upperDigit 2 byte.toNat

def isAscii (c : Char) : Bool :=
  c.toNat < 128

def asciiChar (c : Char) : List Char :=
  if isAscii c then [c] else (String.utf8EncodeChar c).flatMap percent

def toAscii (uri : String) : String :=
  if uri.toList.all isAscii then uri else String.ofList (uri.toList.flatMap asciiChar)

theorem isAscii_of_mem_percent {byte : UInt8} {c : Char} (h : c ∈ percent byte) :
    isAscii c = true := by
  have digits : ∀ n : Fin 16, isAscii (Hex.upperDigit n) = true := by decide
  simp only [percent, Hex.padded, List.nil_append, List.cons_append, List.mem_cons,
    List.not_mem_nil, or_false] at h
  rcases h with rfl | rfl | rfl
  · decide
  · exact digits ⟨_, Nat.mod_lt _ (by decide)⟩
  · exact digits ⟨_, Nat.mod_lt _ (by decide)⟩

theorem isAscii_of_mem_asciiChar {c d : Char} (h : d ∈ asciiChar c) : isAscii d = true := by
  unfold asciiChar at h
  split at h
  · simp_all
  · obtain ⟨byte, _, hd⟩ := List.mem_flatMap.1 h
    exact isAscii_of_mem_percent hd

theorem flatMap_asciiChar {chars : List Char} (h : ∀ c ∈ chars, isAscii c = true) :
    chars.flatMap asciiChar = chars := by
  induction chars with
  | nil => rfl
  | cons c chars ih => simp [asciiChar, h c (by simp), ih fun d hd => h d (by simp [hd])]

/-- The loop alone has the same result: it writes an ASCII text as it is. -/
theorem toList_toAscii (uri : String) : (toAscii uri).toList = uri.toList.flatMap asciiChar := by
  rw [toAscii]
  split
  · rename_i hall
    exact (flatMap_asciiChar (List.all_eq_true.1 hall)).symm
  · exact String.toList_ofList

theorem isAscii_of_mem_toAscii {uri : String} {c : Char} (h : c ∈ (toAscii uri).toList) :
    isAscii c = true := by
  rw [toList_toAscii] at h
  obtain ⟨d, _, hc⟩ := List.mem_flatMap.1 h
  exact isAscii_of_mem_asciiChar hc

/-- A text that is ASCII already stays as it is. -/
theorem toAscii_eq_self {uri : String} (h : ∀ c ∈ uri.toList, isAscii c = true) :
    toAscii uri = uri :=
  if_pos (List.all_eq_true.2 h)

@[simp] theorem toAscii_toAscii (uri : String) : toAscii (toAscii uri) = toAscii uri :=
  toAscii_eq_self fun _ => isAscii_of_mem_toAscii

end ReplicationQueue.Uri
