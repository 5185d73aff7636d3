import Mathlib.Order.Defs.LinearOrder
import Mathlib.Data.String.Basic
import ReplicationQueue.Text.Utf8

namespace ReplicationQueue.Utf8

theorem ofNat_lt_ofNat {a b : Nat} (ha : a < 256) (hb : b < 256) :
    UInt8.ofNat a < UInt8.ofNat b ↔ a < b := by
  rw [UInt8.lt_iff_toNat_lt, UInt8.toNat_ofNat', UInt8.toNat_ofNat', Nat.mod_eq_of_lt ha,
    Nat.mod_eq_of_lt hb]

theorem ofNat_inj {a b : Nat} (ha : a < 256) (hb : b < 256) :
    UInt8.ofNat a = UInt8.ofNat b ↔ a = b := by
  rw [← UInt8.toNat_inj, UInt8.toNat_ofNat', UInt8.toNat_ofNat', Nat.mod_eq_of_lt ha,
    Nat.mod_eq_of_lt hb]

/-- The bytes of the lesser of two characters come first, whatever follows them. -/
theorem encodeChar_lt {c d : Char} (h : c < d) (s t : Bytes) :
    String.utf8EncodeChar c ++ s < String.utf8EncodeChar d ++ t := by
  have hlt : c.val.toNat < d.val.toNat := UInt32.lt_iff_toNat_lt.1 h
  have hmax : d.val.toNat < 0x110000 := by
    rcases d.valid with hd | hd
    · exact Nat.lt_trans hd (by decide)
    · exact hd.2
  unfold String.utf8EncodeChar
  dsimp only
  have htwo : ∀ v : Nat, v / 4096 = v / 64 / 64 := fun v => by omega
  have hthree : ∀ v : Nat, v / 262144 = v / 64 / 64 / 64 := fun v => by omega
  generalize c.val.toNat = m at *
  generalize d.val.toNat = n at *
  -- The greater character takes at least as many bytes; with more, its first byte is greater.
  repeat' split
  all_goals
    simp (disch := omega) only [List.cons_append, List.nil_append, List.cons_lt_cons_iff,
      ofNat_lt_ofNat, ofNat_inj, htwo, hthree]
    omega

/-- Texts are in the order of their encodings. -/
theorem encode_lt_encode {s t : String} : encode s < encode t ↔ s < t := by
  have mono : ∀ {cs ds : List Char}, cs < ds →
      cs.flatMap String.utf8EncodeChar < ds.flatMap String.utf8EncodeChar := by
    intro cs ds h
    induction h with
    | @nil d ds =>
      have hne : String.utf8EncodeChar d ≠ [] := String.utf8EncodeChar_ne_nil
      obtain ⟨b, bytes, hb⟩ := List.exists_cons_of_ne_nil hne
      rw [List.flatMap_nil, List.flatMap_cons, hb]
      exact List.nil_lt_cons ..
    | rel h => exact encodeChar_lt h _ _
    | cons _ ih => exact List.append_left_lt ih
  have lt : ∀ {s t : String}, s < t → encode s < encode t := by
    intro s t h
    rw [← String.ofList_toList (s := s), ← String.ofList_toList (s := t), encode_ofList,
      encode_ofList]
    exact mono (String.lt_iff_toList_lt.1 h)
  refine ⟨fun h => ?_, lt⟩
  rcases lt_trichotomy s t with hlt | rfl | hgt
  · exact hlt
  · exact absurd h (List.lt_irrefl _)
  · exact absurd (lt hgt) (List.lt_asymm h)

theorem encode_le_encode {s t : String} : encode s ≤ encode t ↔ s ≤ t := by
  rw [← List.not_lt, encode_lt_encode, not_lt]

end ReplicationQueue.Utf8
