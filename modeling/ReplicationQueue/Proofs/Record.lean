import ReplicationQueue.Update.Record

/-! What is written is read back: the text of a string literal, and with it the record of an
update. -/

namespace ReplicationQueue.Json

/-- A byte that stands for itself inside a literal. -/
def IsLiteral (b : UInt8) : Prop :=
  b ≠ quote ∧ b ≠ backslash ∧ ¬b < 32

theorem prepend_nil (found : Except Fault (Bytes × Bytes)) : prepend [] found = found := by
  cases found <;> rfl

theorem prepend_prepend (a b : Bytes) (found : Except Fault (Bytes × Bytes)) :
    prepend a (prepend b found) = prepend (a ++ b) found := by
  cases found <;> simp [prepend]

theorem scan_cons {b : UInt8} (h : IsLiteral b) (r : Bytes) :
    scan (b :: r) = prepend [b] (scan r) := by
  rw [scan.eq_def]
  simp [h.1, h.2.1, h.2.2]

theorem scan_append {bytes : Bytes} (h : ∀ b ∈ bytes, IsLiteral b) (r : Bytes) :
    scan (bytes ++ r) = prepend bytes (scan r) := by
  induction bytes with
  | nil => exact (prepend_nil _).symm
  | cons b bytes ih =>
    rw [List.cons_append, scan_cons (h b (by simp)), ih fun c hc => h c (by simp [hc]),
      prepend_prepend]
    rfl

theorem isLiteral_of_toNat {b : UInt8} (h : 32 ≤ b.toNat) (hquote : b.toNat ≠ 34)
    (hbackslash : b.toNat ≠ 92) : IsLiteral b := by
  refine ⟨fun hb => hquote ?_, fun hb => hbackslash ?_, fun hb => ?_⟩
  · rw [hb]
    decide
  · rw [hb]
    decide
  · have := UInt8.lt_iff_toNat_lt.1 hb
    simp at this
    omega

/-- The bytes of a character that is written as it is. -/
theorem isLiteral_of_mem_utf8EncodeChar {c : Char} (hshort : shortEscape? c = none)
    (hc : ¬c.toNat < 32) : ∀ b ∈ String.utf8EncodeChar c, IsLiteral b := by
  have hquote : c.toNat ≠ 34 := fun h => by
    obtain rfl : c = '"' := Char.toNat_inj.1 h
    simp [shortEscape?] at hshort
  have hbackslash : c.toNat ≠ 92 := fun h => by
    obtain rfl : c = '\\' := Char.toNat_inj.1 h
    simp [shortEscape?] at hshort
  have hval : c.val.toNat = c.toNat := rfl
  intro b hb
  simp only [String.utf8EncodeChar, hval] at hb
  apply isLiteral_of_toNat <;> split at hb <;> (try split at hb) <;> (try split at hb) <;>
    simp only [List.mem_cons, List.not_mem_nil, or_false] at hb <;>
    (try rcases hb with rfl | rfl | rfl | rfl) <;> simp <;> omega

theorem scan_short {c e : Char} (h : shortEscape? c = some e) (r : Bytes) :
    scan ((['\\', e] : List Char).flatMap String.utf8EncodeChar ++ r) =
      prepend (String.utf8EncodeChar c) (scan r) := by
  unfold shortEscape? at h
  split at h
  · rename_i hc
    cases h
    rcases hc with rfl | rfl <;> rfl
  iterate 5
    split at h
    · rename_i hc
      subst hc
      cases h
      rfl
  cases h

/-- An escape by code point, of a character that is no surrogate. -/
theorem scan_codePoint {h1 h2 h3 h4 : UInt8} {n : Nat} (h : fourHex? h1 h2 h3 h4 = some n)
    (htrailing : isTrailing n = false) (hleading : isLeading n = false) (r : Bytes) :
    scan (backslash :: 'u'.toUInt8 :: h1 :: h2 :: h3 :: h4 :: r) =
      prepend (codePointBytes n) (scan r) := by
  have hu : shortByte? 'u'.toUInt8 = none := by decide
  have hne : backslash ≠ quote := by decide
  rw [scan.eq_def]
  simp [hne, hu, h, htrailing, hleading]

/-- The bytes of the escape of a control character by its code point. -/
theorem flatMap_control (n : Fin 32) :
    (['\\', 'u'] ++ Hex.padded Hex.digit 4 n).flatMap String.utf8EncodeChar =
      [backslash, 'u'.toUInt8, 48, 48, (Hex.digit (n / 16)).toUInt8,
        (Hex.digit (n % 16)).toUInt8] := by
  revert n
  decide

theorem scan_control {c : Char} (h : c.toNat < 32) (r : Bytes) :
    scan ((['\\', 'u'] ++ Hex.padded Hex.digit 4 c.toNat).flatMap String.utf8EncodeChar ++ r) =
      prepend (String.utf8EncodeChar c) (scan r) := by
  have digits : ∀ n : Fin 32,
      fourHex? 48 48 (Hex.digit (n / 16)).toUInt8 (Hex.digit (n % 16)).toUInt8 = some n.val ∧
        isTrailing n = false ∧ isLeading n = false := by
    decide
  obtain ⟨hvalue, htrailing, hleading⟩ := digits ⟨c.toNat, h⟩
  have hself : codePointBytes c.toNat = String.utf8EncodeChar c := by
    rw [codePointBytes, Char.ofNat_toNat]
  rw [flatMap_control ⟨c.toNat, h⟩, ← hself]
  exact scan_codePoint hvalue htrailing hleading r

theorem scan_writeChar (c : Char) (r : Bytes) :
    scan ((writeChar c).flatMap String.utf8EncodeChar ++ r) =
      prepend (String.utf8EncodeChar c) (scan r) := by
  unfold writeChar
  cases h : shortEscape? c with
  | some e => exact scan_short h r
  | none =>
    simp only
    split
    · rename_i hc
      exact scan_control hc r
    · rename_i hc
      simpa using scan_append (isLiteral_of_mem_utf8EncodeChar h hc) r

/-- The bytes of a literal after its opening quote. -/
def literalTail (text : String) : Bytes :=
  (text.toList.flatMap writeChar).flatMap String.utf8EncodeChar ++ [quote]

theorem encode_literal (text : String) :
    Utf8.encode (literal text) = quote :: literalTail text := by
  have hquote : (['"'] : List Char).flatMap String.utf8EncodeChar = [quote] := by decide
  rw [literal, literalTail, Utf8.encode_ofList, List.flatMap_append, List.flatMap_append, hquote]
  rfl

/-- A literal is read back, and what follows it is left. -/
theorem readLiteral_literalTail (text : String) (rest : Bytes) :
    readLiteral (literalTail text ++ rest) = .ok (text, rest) := by
  have hscan : ∀ cs : List Char,
      scan ((cs.flatMap writeChar).flatMap String.utf8EncodeChar ++ quote :: rest) =
        .ok (cs.flatMap String.utf8EncodeChar, rest) := by
    intro cs
    induction cs with
    | nil => simp [scan.eq_def]
    | cons c cs ih =>
      rw [List.flatMap_cons, List.flatMap_append, List.append_assoc, scan_writeChar, ih]
      rfl
  unfold readLiteral literalTail
  rw [List.append_assoc, List.singleton_append, hscan, ← Utf8.encode_eq_flatMap]
  simp

end ReplicationQueue.Json

namespace ReplicationQueue.Update

open Json

/-- The text of a member as bytes: key, colon and value. -/
def memberTail (field : Field) (text : String) : Bytes :=
  literalTail field.name ++ ':'.toUInt8 :: quote :: literalTail text

theorem dropSpace_cons {b : UInt8} (h : isSpace b = false) (r : Bytes) :
    dropSpace (b :: r) = b :: r := by
  simp [dropSpace, h]

theorem ofName?_name (field : Field) : Field.ofName? field.name = some field := by
  cases field <;> decide

theorem readColon_cons (rest : Bytes) : readColon (':'.toUInt8 :: rest) = .ok rest := by
  rw [readColon, dropSpace_cons (by decide)]
  rfl

theorem readString_cons (wanted : String) (rest : Bytes) :
    readString wanted (quote :: rest) = readLiteral rest := by
  rw [readString, dropSpace_cons (by decide)]
  rfl

/-- After the key of a field that was not seen yet come a colon and a string. -/
theorem readMember_name {seen : Seen} {field : Field} (h : seen field = none) (rest : Bytes) :
    readMember seen (literalTail field.name ++ rest) = do
      let rest ← readColon rest
      let (text, rest) ← readString "a string" rest
      return (seen.insert field text, rest) := by
  rw [readMember, readLiteral_literalTail]
  simp only [ofName?_name, h, Option.isSome_none, Bool.false_eq_true, ↓reduceIte]
  cases readColon rest with
  | error fault => rfl
  | ok rest =>
    simp only [bind, Except.bind]
    cases readString "a string" rest <;> rfl

theorem readMember_memberTail {seen : Seen} {field : Field} (h : seen field = none) (text : String)
    (rest : Bytes) :
    readMember seen (memberTail field text ++ rest) = .ok (seen.insert field text, rest) := by
  rw [memberTail, List.append_assoc, readMember_name h]
  simp only [List.cons_append, readColon_cons, readString_cons, readLiteral_literalTail, bind,
    Except.bind, pure, Except.pure]

/-- What follows a member decides whether the object goes on. -/
theorem readMembers_of_ok {seen seen' : Seen} {s rest : Bytes}
    (h : readMember seen s = .ok (seen', rest)) :
    readMembers seen s =
      match dropSpace rest with
      | [] => .error (.ended .object)
      | c :: r =>
        if c = '\x7d'.toUInt8 then .ok (seen', r)
        else if c = ','.toUInt8 then
          match dropSpace r with
          | [] => .error (.ended .value)
          | d :: tail =>
            if d = quote then readMembers seen' tail
            else if d = '\x7d'.toUInt8 then .error .trailingComma
            else .error .keyNotString
        else .error .expectedCommaOrBrace := by
  rw [readMembers]
  split
  · rename_i hm
    rw [h] at hm
    cases hm
  · rename_i hm
    rw [h] at hm
    cases hm
    split
    · rename_i hs
      rw [hs]
    · rename_i hs
      simp only [hs]
      congr 2
      split <;> rename_i hr <;> simp only [hr]

theorem readMembers_more {seen : Seen} {field : Field} (h : seen field = none) (text : String)
    (tail : Bytes) :
    readMembers seen (memberTail field text ++ ','.toUInt8 :: quote :: tail) =
      readMembers (seen.insert field text) tail := by
  rw [readMembers_of_ok (readMember_memberTail h text _), dropSpace_cons (by decide)]
  simp only
  rw [if_neg (by decide), if_pos trivial, dropSpace_cons (by decide)]
  simp only [↓reduceIte]

theorem readMembers_last {seen : Seen} {field : Field} (h : seen field = none) (text : String)
    (tail : Bytes) :
    readMembers seen (memberTail field text ++ '\x7d'.toUInt8 :: tail) =
      .ok (seen.insert field text, tail) := by
  rw [readMembers_of_ok (readMember_memberTail h text _), dropSpace_cons (by decide)]
  simp only [↓reduceIte]

/-- The object of an update as bytes. -/
theorem encode_toJson (u : Update) :
    Utf8.encode u.toJson = '\x7b'.toUInt8 :: quote :: (memberTail .project u.project ++
      ','.toUInt8 :: quote :: (memberTail .ref u.ref ++
        ','.toUInt8 :: quote :: (memberTail .uri u.uri ++
          ','.toUInt8 :: quote :: (memberTail .remote u.remote ++ ['\x7d'.toUInt8])))) := by
  have hmember : ∀ field text, Utf8.encode (literal (Field.name field) ++ ":" ++ literal text) =
      quote :: memberTail field text := by
    intro field text
    have hcolon : Utf8.encode ":" = [':'.toUInt8] := by decide
    simp [encode_literal, hcolon, memberTail]
  have hopen : Utf8.encode "\x7b" = ['\x7b'.toUInt8] := by decide
  have hcomma : Utf8.encode "," = [','.toUInt8] := by decide
  have hclose : Utf8.encode "\x7d" = ['\x7d'.toUInt8] := by decide
  have hjoin : ",".intercalate (Field.all.map u.writeMember) =
      u.writeMember .project ++ "," ++ u.writeMember .ref ++ "," ++ u.writeMember .uri ++ "," ++
        u.writeMember .remote := by
    rfl
  unfold toJson
  rw [hjoin]
  simp only [writeMember, Utf8.encode_append, hmember, hopen, hcomma, hclose]
  simp [get]

/-- An update is read off the front of a text. -/
theorem read_toJson (u : Update) (rest : Bytes) :
    read (Utf8.encode u.toJson ++ rest) = .ok (u, rest) := by
  have hfirst : ∀ r, dropSpace ('\x7b'.toUInt8 :: r) = '\x7b'.toUInt8 :: r :=
    dropSpace_cons (by decide)
  rw [encode_toJson]
  simp only [List.cons_append, List.append_assoc, List.nil_append]
  unfold read
  rw [hfirst]
  simp only
  rw [if_neg (by decide), if_pos trivial]
  unfold readObject
  rw [dropSpace_cons (by decide)]
  simp only
  rw [if_neg (by decide), if_pos trivial, readMembers_more rfl, readMembers_more rfl,
    readMembers_more rfl, readMembers_last rfl]
  rfl

theorem parse_toJson (u : Update) : parse (Utf8.encode u.toJson) = .ok u := by
  have hread := u.read_toJson []
  rw [List.append_nil] at hread
  unfold parse
  rw [hread]
  rfl

/-- Reading a record gives the update that was written. -/
theorem parse_record (u : Update) : parse u.record = .ok u := by
  have hend : Utf8.encode "\n" = ['\n'.toUInt8] := by decide
  have hread : read u.record = .ok (u, ['\n'.toUInt8]) := by
    rw [record, Utf8.encode_append, hend, read_toJson]
  unfold parse
  rw [hread]
  rfl

theorem record_inj {u v : Update} (h : u.record = v.record) : u = v := by
  have hread := parse_record u
  rw [h, parse_record] at hread
  cases hread
  rfl

end ReplicationQueue.Update
