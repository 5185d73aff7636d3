import ReplicationQueue.Proofs.Record

/-! A record whose end was cut off. Wherever the cut is, in a name, in an escape or among the bytes
of one character, a reader comes to the end of the bytes before it finds anything else wrong. -/

namespace ReplicationQueue

/-- `part` is what is left of `whole` when some of its end is missing. -/
structure IsCut {α : Type} (part whole : List α) : Prop where
  front : part <+: whole
  short : part ≠ whole

namespace IsCut

variable {α : Type} {part whole : List α} {a : α}

theorem not_nil : ¬IsCut part [] := fun h => h.short (List.prefix_nil.1 h.front)

theorem of_append {front : List α} (h : IsCut part (front ++ whole)) :
    IsCut part front ∨ ∃ rest, part = front ++ rest ∧ IsCut rest whole := by
  rcases List.prefix_or_prefix_of_prefix h.front (List.prefix_append front whole) with
    hin | ⟨rest, rfl⟩
  · by_cases heq : part = front
    · subst heq
      refine .inr ⟨[], by simp, List.nil_prefix, fun hnil => h.short ?_⟩
      rw [← hnil, List.append_nil]
    · exact .inl ⟨hin, heq⟩
  · exact .inr ⟨rest, rfl, (List.prefix_append_right_inj front).1 h.front,
      fun heq => h.short (by rw [heq])⟩

theorem of_cons (h : IsCut part (a :: whole)) :
    part = [] ∨ ∃ rest, part = a :: rest ∧ IsCut rest whole := by
  have happend : IsCut part ([a] ++ whole) := h
  rcases of_append happend with hcut | hrest
  · rcases List.prefix_cons_iff.1 hcut.front with hnil | ⟨rest, rfl, hrest⟩
    · exact .inl hnil
    · exact absurd (by rw [List.prefix_nil.1 hrest]) hcut.short
  · exact .inr hrest

theorem length_lt (h : IsCut part whole) : part.length < whole.length :=
  Nat.lt_of_le_of_ne h.front.length_le fun heq => h.short (h.front.eq_of_length heq)

theorem take {n : Nat} (h : n < whole.length) : IsCut (whole.take n) whole where
  front := List.take_prefix n whole
  short heq := by
    have hlength := congrArg List.length heq
    rw [List.length_take] at hlength
    omega

end IsCut

namespace Json

/-- A reader came to the end of the bytes too early. -/
def EndsEarly {α : Type} (found : Except Fault α) : Prop :=
  ∃ what, found = .error (.ended what)

/-! ### String literals -/

theorem EndsEarly.prepend {found : Except Fault (Bytes × Bytes)} (h : EndsEarly found)
    (bytes : Bytes) : EndsEarly (prepend bytes found) := by
  obtain ⟨what, rfl⟩ := h
  exact ⟨what, rfl⟩

theorem endsEarly_scan_nil : EndsEarly (scan []) := ⟨.string, rfl⟩

theorem endsEarly_scan_literal {bytes : Bytes} (h : ∀ b ∈ bytes, IsLiteral b) :
    EndsEarly (scan bytes) := by
  rw [← List.append_nil bytes, scan_append h]
  exact endsEarly_scan_nil.prepend bytes

theorem endsEarly_scan_backslash : EndsEarly (scan [backslash]) := ⟨.string, rfl⟩

/-- An escape by code point has four digits. -/
theorem endsEarly_scan_digits {digits : Bytes} (h : digits.length < 4) :
    EndsEarly (scan (backslash :: 'u'.toUInt8 :: digits)) := by
  have hu : shortByte? 'u'.toUInt8 = none := by decide
  have hne : backslash ≠ quote := by decide
  refine ⟨.string, ?_⟩
  match digits, h with
  | [], _ | [_], _ | [_, _], _ | [_, _, _], _ => simp [scan.eq_def, hne, hu]

theorem endsEarly_scan_short {e : UInt8} {part : Bytes} (h : IsCut part [backslash, e]) :
    EndsEarly (scan part) := by
  rcases h.of_cons with rfl | ⟨rest, rfl, hrest⟩
  · exact endsEarly_scan_nil
  · rcases hrest.of_cons with rfl | ⟨_, -, hnil⟩
    · exact endsEarly_scan_backslash
    · exact absurd hnil IsCut.not_nil

theorem endsEarly_scan_codePoint {digits part : Bytes} (hlength : digits.length = 4)
    (h : IsCut part (backslash :: 'u'.toUInt8 :: digits)) : EndsEarly (scan part) := by
  rcases h.of_cons with rfl | ⟨rest, rfl, hrest⟩
  · exact endsEarly_scan_nil
  · rcases hrest.of_cons with rfl | ⟨rest, rfl, hdigits⟩
    · exact endsEarly_scan_backslash
    · exact endsEarly_scan_digits (hlength ▸ hdigits.length_lt)

theorem flatMap_short {c e : Char} (h : shortEscape? c = some e) :
    (['\\', e] : List Char).flatMap String.utf8EncodeChar = [backslash, e.toUInt8] := by
  unfold shortEscape? at h
  split at h
  · rename_i hc
    cases h
    rcases hc with rfl | rfl <;> rfl
  iterate 5
    split at h
    · cases h
      rfl
  cases h

/-- The front of what stands for one character does not end the literal. -/
theorem endsEarly_scan_writeChar {c : Char} {part : Bytes}
    (h : IsCut part ((writeChar c).flatMap String.utf8EncodeChar)) : EndsEarly (scan part) := by
  unfold writeChar at h
  cases hshort : shortEscape? c with
  | some e =>
    simp only [hshort, flatMap_short hshort] at h
    exact endsEarly_scan_short h
  | none =>
    simp only [hshort] at h
    split at h
    · rename_i hcontrol
      rw [flatMap_control ⟨c.toNat, hcontrol⟩] at h
      exact endsEarly_scan_codePoint rfl h
    · rename_i hcontrol
      rw [List.flatMap_singleton] at h
      exact endsEarly_scan_literal fun b hb =>
        isLiteral_of_mem_utf8EncodeChar hshort hcontrol b (h.front.subset hb)

theorem endsEarly_scan_chars {cs : List Char} {part : Bytes}
    (h : IsCut part ((cs.flatMap writeChar).flatMap String.utf8EncodeChar ++ [quote])) :
    EndsEarly (scan part) := by
  induction cs generalizing part with
  | nil =>
    rcases IsCut.of_cons h with rfl | ⟨_, -, hnil⟩
    · exact endsEarly_scan_nil
    · exact absurd hnil IsCut.not_nil
  | cons c cs ih =>
    rw [List.flatMap_cons, List.flatMap_append, List.append_assoc] at h
    rcases h.of_append with hin | ⟨rest, rfl, hrest⟩
    · exact endsEarly_scan_writeChar hin
    · rw [scan_writeChar]
      exact (ih hrest).prepend _

/-- A literal without its closing quote, cut at any byte, is no literal. -/
theorem endsEarly_readLiteral {text : String} {part : Bytes} (h : IsCut part (literalTail text)) :
    EndsEarly (readLiteral part) := by
  obtain ⟨what, hend⟩ := endsEarly_scan_chars h
  exact ⟨what, by rw [readLiteral, hend]⟩

end Json

/-! ### Records -/

namespace Update

open Json

variable {seen : Seen} {field : Field} {text : String} {part : Bytes}

theorem endsEarly_readMember (hfield : seen field = none) (h : IsCut part (memberTail field text)) :
    EndsEarly (readMember seen part) := by
  rcases h.of_append with hkey | ⟨rest, rfl, hrest⟩
  · obtain ⟨what, hend⟩ := endsEarly_readLiteral hkey
    exact ⟨what, by rw [readMember, hend]⟩
  rw [readMember_name hfield]
  rcases hrest.of_cons with rfl | ⟨rest, rfl, hvalue⟩
  · exact ⟨.object, rfl⟩
  rw [readColon_cons]
  rcases hvalue.of_cons with rfl | ⟨rest, rfl, htext⟩
  · exact ⟨.value, rfl⟩
  · obtain ⟨what, hend⟩ := endsEarly_readLiteral htext
    exact ⟨what, by simp only [readString_cons, hend, bind, Except.bind]⟩

/-- The cut is in the member that is read first, or that member is complete. -/
theorem endsEarly_readMembers {whole : Bytes} (hfield : seen field = none)
    (hrest : ∀ rest, IsCut rest whole →
      EndsEarly (readMembers seen (memberTail field text ++ rest)))
    (h : IsCut part (memberTail field text ++ whole)) : EndsEarly (readMembers seen part) := by
  rcases h.of_append with hmember | ⟨rest, rfl, hcut⟩
  · obtain ⟨what, hend⟩ := endsEarly_readMember hfield hmember
    refine ⟨what, ?_⟩
    rw [readMembers]
    split
    · rename_i hm
      rw [hend] at hm
      cases hm
      rfl
    · rename_i hm
      rw [hend] at hm
      cases hm
  · exact hrest rest hcut

/-- After a member an object goes on or ends. -/
theorem endsEarly_readMembers_nil (hfield : seen field = none) :
    EndsEarly (readMembers seen (memberTail field text ++ [])) := by
  rw [readMembers_of_ok (readMember_memberTail hfield text [])]
  exact ⟨.object, rfl⟩

theorem endsEarly_readMembers_last (hfield : seen field = none)
    (h : IsCut part (memberTail field text ++ ['\x7d'.toUInt8])) :
    EndsEarly (readMembers seen part) := by
  refine endsEarly_readMembers hfield (fun rest hcut => ?_) h
  rcases hcut.of_cons with rfl | ⟨_, -, hnil⟩
  · exact endsEarly_readMembers_nil hfield
  · exact absurd hnil IsCut.not_nil

theorem endsEarly_readMembers_more {whole : Bytes} (hfield : seen field = none)
    (hnext : ∀ rest, IsCut rest whole → EndsEarly (readMembers (seen.insert field text) rest))
    (h : IsCut part (memberTail field text ++ ','.toUInt8 :: quote :: whole)) :
    EndsEarly (readMembers seen part) := by
  refine endsEarly_readMembers hfield (fun rest hcut => ?_) h
  rcases hcut.of_cons with rfl | ⟨rest, rfl, hquote⟩
  · exact endsEarly_readMembers_nil hfield
  rcases hquote.of_cons with rfl | ⟨rest, rfl, hmember⟩
  · rw [readMembers_of_ok (readMember_memberTail hfield text _)]
    exact ⟨.value, rfl⟩
  · rw [readMembers_more hfield]
    exact hnext rest hmember

theorem endsEarly_readObject {s : Bytes} (h : EndsEarly (readMembers Seen.none s)) :
    EndsEarly (readObject (quote :: s)) := by
  obtain ⟨what, hend⟩ := h
  refine ⟨what, ?_⟩
  rw [readObject, dropSpace_cons (by decide)]
  simp only
  rw [if_neg (by decide), if_pos trivial, hend]
  rfl

theorem endsEarly_read {s : Bytes} (h : EndsEarly (readObject s)) :
    EndsEarly (read ('\x7b'.toUInt8 :: s)) := by
  obtain ⟨what, hend⟩ := h
  refine ⟨what, ?_⟩
  rw [read, dropSpace_cons (by decide)]
  simp only
  rw [if_neg (by decide), if_pos trivial, hend]

/-- The object of an update, cut at any byte, is no record, and what is wrong with it is that it
ends too early. -/
theorem endsEarly_parse {u : Update} (h : IsCut part (Utf8.encode u.toJson)) :
    EndsEarly (parse part) := by
  have hread : EndsEarly (read part) := by
    rw [encode_toJson] at h
    rcases h.of_cons with rfl | ⟨rest, rfl, hobject⟩
    · exact ⟨.value, rfl⟩
    apply endsEarly_read
    rcases hobject.of_cons with rfl | ⟨rest, rfl, hmembers⟩
    · exact ⟨.object, rfl⟩
    apply endsEarly_readObject
    refine endsEarly_readMembers_more rfl (fun rest hcut => ?_) hmembers
    refine endsEarly_readMembers_more rfl (fun rest hcut => ?_) hcut
    refine endsEarly_readMembers_more rfl (fun rest hcut => ?_) hcut
    exact endsEarly_readMembers_last rfl hcut
  obtain ⟨what, hend⟩ := hread
  exact ⟨what, by rw [parse, hend]; rfl⟩

end Update

end ReplicationQueue
