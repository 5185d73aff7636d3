import ReplicationQueue.Uri

/-! What the canonical form of a URI keeps: read back, it gives the bytes of the URI, so two URIs
without a percent sign have the same form only if they are equal. A percent sign is not escaped
itself, and a URI that has one may have the form of another. -/

namespace ReplicationQueue.Uri

/-- The bytes of a text in which a percent sign and two digits stand for one byte. -/
def decoded : List Char → Bytes
  | '%' :: high :: low :: rest =>
    match Hex.value? high, Hex.value? low with
    | some h, some l => UInt8.ofNat (h * 16 + l) :: decoded rest
    | _, _ => String.utf8EncodeChar '%' ++ decoded (high :: low :: rest)
  | c :: rest => String.utf8EncodeChar c ++ decoded rest
  | [] => []

theorem decoded_cons {c : Char} (h : c ≠ '%') (rest : List Char) :
    decoded (c :: rest) = String.utf8EncodeChar c ++ decoded rest := by
  rw [decoded]
  rintro _ _ _ rfl
  exact absurd rfl h

/-- The two digits of a byte are read back, in front of any text. -/
theorem decoded_percent (byte : UInt8) (rest : List Char) :
    decoded (percent byte ++ rest) = byte :: decoded rest := by
  have hhigh : Hex.value? (Hex.upperDigit (byte.toNat / 16 % 16)) = some (byte.toNat / 16 % 16) :=
    Hex.value?_upperDigit (Nat.mod_lt _ (by decide))
  have hlow : Hex.value? (Hex.upperDigit (byte.toNat % 16)) = some (byte.toNat % 16) :=
    Hex.value?_upperDigit (Nat.mod_lt _ (by decide))
  have hbyte : byte.toNat / 16 % 16 * 16 + byte.toNat % 16 = byte.toNat := by
    have := byte.toNat_lt
    omega
  simp only [percent, Hex.padded, List.nil_append, List.cons_append, decoded, hhigh, hlow, hbyte,
    UInt8.ofNat_toNat]

theorem decoded_percents (bytes : Bytes) (rest : List Char) :
    decoded (bytes.flatMap percent ++ rest) = bytes ++ decoded rest := by
  induction bytes with
  | nil => rfl
  | cons byte bytes ih =>
    rw [List.flatMap_cons, List.append_assoc, decoded_percent, ih, List.cons_append]

theorem decoded_asciiChar {c : Char} (h : c ≠ '%') (rest : List Char) :
    decoded (asciiChar c ++ rest) = String.utf8EncodeChar c ++ decoded rest := by
  rw [asciiChar]
  split
  · exact decoded_cons h rest
  · exact decoded_percents _ rest

theorem decoded_flatMap_asciiChar {chars : List Char} (h : '%' ∉ chars) :
    decoded (chars.flatMap asciiChar) = chars.flatMap String.utf8EncodeChar := by
  induction chars with
  | nil => rfl
  | cons c chars ih =>
    obtain ⟨hne, hchars⟩ := not_or.1 (mt List.mem_cons.2 h)
    rw [List.flatMap_cons, List.flatMap_cons, decoded_asciiChar (Ne.symm hne), ih hchars]

/-- The canonical form stands for the bytes of the URI. -/
theorem decoded_toAscii {uri : String} (h : '%' ∉ uri.toList) :
    decoded (toAscii uri).toList = Utf8.encode uri := by
  rw [toList_toAscii, decoded_flatMap_asciiChar h, ← Utf8.encode_eq_flatMap]

theorem toAscii_inj {s t : String} (hs : '%' ∉ s.toList) (ht : '%' ∉ t.toList)
    (h : toAscii s = toAscii t) : s = t := by
  apply Utf8.encode_inj.1
  rw [← decoded_toAscii hs, ← decoded_toAscii ht, h]

theorem toAscii_append (s t : String) : toAscii (s ++ t) = toAscii s ++ toAscii t := by
  apply String.toList_inj.1
  rw [toList_toAscii, String.toList_append, List.flatMap_append, ← toList_toAscii,
    ← toList_toAscii, String.toList_append]

theorem toAscii_eq_self_iff {uri : String} :
    toAscii uri = uri ↔ ∀ c ∈ uri.toList, isAscii c = true := by
  refine ⟨fun h c hc => ?_, toAscii_eq_self⟩
  rw [← h] at hc
  exact isAscii_of_mem_toAscii hc

/-- The form that all hosts agree on. It is ASCII, and its own form; it is the URI itself exactly if
that is ASCII; it goes piece by piece; and the percent-encoded bytes in it, read back, give the bytes
of a URI without percent signs, so that no two such URIs have one form. -/
theorem canonical_form (s t : String) :
    (∀ c ∈ (toAscii s).toList, isAscii c = true) ∧
      (toAscii s = s ↔ ∀ c ∈ s.toList, isAscii c = true) ∧
      toAscii (toAscii s) = toAscii s ∧
      toAscii (s ++ t) = toAscii s ++ toAscii t ∧
      ('%' ∉ s.toList → decoded (toAscii s).toList = Utf8.encode s ∧
        ('%' ∉ t.toList → toAscii s = toAscii t → s = t)) :=
  ⟨fun _ => isAscii_of_mem_toAscii, toAscii_eq_self_iff, toAscii_toAscii s, toAscii_append s t,
    fun hs => ⟨decoded_toAscii hs, fun ht => toAscii_inj hs ht⟩⟩

/-- A path with an accent, and the bytes that its form stands for. -/
theorem canonical_form_accented :
    toAscii "https://h/é" = "https://h/%C3%A9" ∧
      decoded (toAscii "https://h/é").toList = Utf8.encode "https://h/é" ∧
      toAscii "https://h/é" ≠ toAscii "https://h/e" := by
  obtain ⟨-, -, -, -, hkept⟩ := canonical_form "https://h/é" "https://h/e"
  obtain ⟨hdecoded, hinj⟩ := hkept (by decide)
  have hform : toAscii "https://h/é" = "https://h/%C3%A9" := by
    rw [toAscii, if_neg (by decide)]
    decide
  exact ⟨hform, hdecoded, fun h => absurd (hinj (by decide) h) (by decide)⟩

end ReplicationQueue.Uri
