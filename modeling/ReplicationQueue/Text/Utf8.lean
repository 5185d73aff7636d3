/-! Bytes and their reading as text. `encode` and `decode?` are inverse: a byte string is the
encoding of at most one text, and `decode?` finds it. -/

namespace ReplicationQueue

abbrev Bytes := List UInt8

namespace Utf8

def encode (text : String) : Bytes :=
  text.toUTF8.data.toList

/-- The text whose encoding is `bytes`; nothing when there is none. -/
def decode? (bytes : Bytes) : Option String :=
  String.fromUTF8? ⟨bytes.toArray⟩

theorem decode?_eq_some_iff {bytes : Bytes} {text : String} :
    decode? bytes = some text ↔ bytes = encode text := by
  unfold decode? encode String.fromUTF8? String.toUTF8
  constructor
  · intro h
    split at h
    · cases h
      rfl
    · cases h
  · rintro rfl
    rw [dif_pos text.isValidUTF8]
    rfl

@[simp] theorem decode?_encode (text : String) : decode? (encode text) = some text :=
  decode?_eq_some_iff.2 rfl

theorem encode_inj {s t : String} : encode s = encode t ↔ s = t := by
  constructor
  · intro h
    have ht := decode?_encode t
    rw [← h, decode?_encode] at ht
    exact Option.some.inj ht
  · rintro rfl
    rfl

/-- The encoding goes character by character. -/
theorem encode_ofList (chars : List Char) :
    encode (String.ofList chars) = chars.flatMap String.utf8EncodeChar := by
  simp [encode, String.toUTF8, List.utf8Encode]

theorem encode_eq_flatMap (text : String) :
    encode text = text.toList.flatMap String.utf8EncodeChar := by
  rw [← encode_ofList, String.ofList_toList]

@[simp] theorem encode_append (s t : String) : encode (s ++ t) = encode s ++ encode t := by
  simp [encode, String.toUTF8]

end Utf8

end ReplicationQueue
