import ReplicationQueue.Proofs.Calls
import ReplicationQueue.Proofs.Events
import ReplicationQueue.Proofs.RecordText
import ReplicationQueue.Proofs.Store
import ReplicationQueue.TaskKey.Json

/-! Keys, the texts that spell them and the paths of their files correspond one to one. A text
spells a key for each reader or for none, every path of a key ends in it, and no two paths of tasks,
nor the paths of one task in two states, are in each other's way. -/

namespace ReplicationQueue

/-! ### The digest -/

namespace Sha1

/-- Whole blocks that make up the message once it is filled up, with no byte left over. -/
structure IsBlocks (message : Bytes) (found : List (List UInt32)) : Prop where
  whole : ∀ block ∈ found, block.length = 16
  flatten : found.flatten = words (pad message)
  length : 64 * found.length = (pad message).length

theorem length_pad_mod (message : Bytes) : (pad message).length % 64 = 0 := by
  simp only [pad, lengthBytes, List.length_append, List.length_cons, List.length_replicate,
    List.length_map, List.length_nil]
  omega

theorem length_words (bytes : Bytes) (h : bytes.length % 4 = 0) :
    4 * (words bytes).length = bytes.length := by
  fun_induction words bytes with
  | case1 a b c d rest ih =>
    simp only [List.length_cons] at h ⊢
    have := ih (by omega)
    omega
  | case2 bytes hshort =>
    match bytes with
    | [] => rfl
    | [_] | [_, _] | [_, _, _] => simp at h
    | a :: b :: c :: d :: rest => exact absurd rfl (hshort a b c d rest)

theorem blocks_spec (count : Nat) (ws : List UInt32) (h : ws.length = 16 * count) :
    (∀ block ∈ blocks count ws, block.length = 16) ∧ (blocks count ws).flatten = ws ∧
      (blocks count ws).length = count := by
  induction count generalizing ws with
  | zero =>
    obtain rfl : ws = [] := List.length_eq_zero_iff.1 h
    simp [blocks]
  | succ count ih =>
    obtain ⟨hwhole, hflatten, hlength⟩ := ih (ws.drop 16) (by rw [List.length_drop]; omega)
    refine ⟨?_, ?_, ?_⟩
    · rw [blocks, List.forall_mem_cons]
      exact ⟨by rw [List.length_take]; omega, hwhole⟩
    · rw [blocks, List.flatten_cons, hflatten, List.take_append_drop]
    · rw [blocks, List.length_cons, hlength]

/-- A message of any length is digested to its last byte. -/
theorem exists_digest_eq (message : Bytes) :
    ∃ found, IsBlocks message found ∧ digest message = found.foldl compress Digest.start := by
  have hpad := length_pad_mod message
  have hwords := length_words (pad message) (by omega)
  obtain ⟨hwhole, hflatten, hlength⟩ :=
    blocks_spec ((words (pad message)).length / 16) (words (pad message)) (by omega)
  exact ⟨_, ⟨hwhole, hflatten, by rw [hlength]; omega⟩, rfl⟩

end Sha1

/-! ### Texts of keys -/

namespace Utf8

theorem utf8EncodeChar_ascii {c : Char} (h : c.toNat < 128) :
    String.utf8EncodeChar c = [c.toUInt8] := by
  have hval : c.val.toNat = c.toNat := rfl
  unfold String.utf8EncodeChar
  rw [hval, if_pos (by omega)]
  rfl

theorem toNat_toUInt8 {c : Char} (h : c.toNat < 128) : c.toUInt8.toNat = c.toNat := by
  have hval : c.val.toNat = c.toNat := rfl
  rw [Char.toUInt8, UInt32.toNat_toUInt8, hval]
  omega

/-- A character beyond ASCII has a byte beyond ASCII. -/
theorem exists_mem_utf8EncodeChar {c : Char} (h : 128 ≤ c.toNat) :
    ∃ b ∈ String.utf8EncodeChar c, 128 ≤ b.toNat := by
  have hval : c.val.toNat = c.toNat := rfl
  simp only [String.utf8EncodeChar, hval]
  rw [if_neg (by omega)]
  split <;> (try split) <;> refine ⟨_, List.mem_cons_self, ?_⟩ <;> simp <;> omega

theorem encode_ascii {text : String} (h : ∀ c ∈ text.toList, c.toNat < 128) :
    encode text = text.toList.map Char.toUInt8 := by
  rw [encode_eq_flatMap, ← List.flatMap_pure_eq_map]
  exact List.flatMap_congr fun c hc => utf8EncodeChar_ascii (h c hc)

end Utf8

namespace TaskKey

open Json
open Update (IsPadded)

/-- One of the characters `0-9a-f`. -/
def IsDigit (c : Char) : Prop :=
  '0' ≤ c ∧ c ≤ '9' ∨ 'a' ≤ c ∧ c ≤ 'f'

/-- One of the bytes `0-9a-f`. -/
def IsDigitByte (b : UInt8) : Prop :=
  '0'.toUInt8 ≤ b ∧ b ≤ '9'.toUInt8 ∨ 'a'.toUInt8 ≤ b ∧ b ≤ 'f'.toUInt8

def IsKeyText (text : String) : Prop :=
  text.toList.length = 40 ∧ ∀ c ∈ text.toList, IsDigit c

def IsKeyBytes (bytes : Bytes) : Prop :=
  bytes.length = 40 ∧ ∀ b ∈ bytes, IsDigitByte b

theorem isKeyText_iff {text : String} :
    IsKeyText text ↔ text.toList.length = 40 ∧ text.toList.all Hex.isLowerDigit = true := by
  simp [IsKeyText, IsDigit, Hex.isLowerDigit]

theorem isKeyText_text (key : TaskKey) : IsKeyText key.text :=
  isKeyText_iff.2 ⟨key.length_text, key.all_isLowerDigit⟩

theorem parse?_eq_none_iff {text : String} : parse? text = none ↔ ¬IsKeyText text := by
  rw [isKeyText_iff, parse?]
  split <;> simp_all

theorem isDigit_iff_toNat {c : Char} :
    IsDigit c ↔ 48 ≤ c.toNat ∧ c.toNat ≤ 57 ∨ 97 ≤ c.toNat ∧ c.toNat ≤ 102 := Iff.rfl

theorem isDigitByte_iff_toNat {b : UInt8} :
    IsDigitByte b ↔ 48 ≤ b.toNat ∧ b.toNat ≤ 57 ∨ 97 ≤ b.toNat ∧ b.toNat ≤ 102 := Iff.rfl

theorem IsDigit.lt {c : Char} (h : IsDigit c) : c.toNat < 128 := by
  rw [isDigit_iff_toNat] at h
  omega

theorem isDigit_iff_bytes {c : Char} :
    IsDigit c ↔ ∀ b ∈ String.utf8EncodeChar c, IsDigitByte b := by
  by_cases hc : c.toNat < 128
  · simp only [Utf8.utf8EncodeChar_ascii hc, List.mem_singleton, forall_eq, isDigitByte_iff_toNat,
      Utf8.toNat_toUInt8 hc]
    exact isDigit_iff_toNat
  · obtain ⟨b, hb, hlarge⟩ := Utf8.exists_mem_utf8EncodeChar (c := c) (by omega)
    constructor
    · intro h
      exact absurd h.lt hc
    · intro h
      have := isDigitByte_iff_toNat.1 (h b hb)
      omega

/-- The test may go by characters or by bytes. -/
theorem isKeyText_iff_isKeyBytes {text : String} :
    IsKeyText text ↔ IsKeyBytes (Utf8.encode text) := by
  have hdigits : (∀ b ∈ Utf8.encode text, IsDigitByte b) ↔ ∀ c ∈ text.toList, IsDigit c := by
    simp only [Utf8.encode_eq_flatMap, List.forall_mem_flatMap, isDigit_iff_bytes]
  have hlength (h : ∀ c ∈ text.toList, IsDigit c) :
      (Utf8.encode text).length = text.toList.length := by
    rw [Utf8.encode_ascii fun c hc => (h c hc).lt, List.length_map]
  rw [IsKeyText, IsKeyBytes, hdigits]
  constructor
  · rintro ⟨hl, hc⟩
    exact ⟨by rw [hlength hc, hl], hc⟩
  · rintro ⟨hl, hc⟩
    exact ⟨by rw [← hlength hc, hl], hc⟩

/-! ### Readers of keys -/

/-- Each reader takes the text, and the key that they give is written as the text again. -/
structure IsRead (text : String) (key : TaskKey) : Prop where
  parse : parse? text = some key
  convert : ofText text = .ok key
  json : ∀ s, IsPadded text s → ofJson s = .ok key
  text_eq : key.text = text
  toJson_eq : key.toJson = "\"" ++ text ++ "\""
  written : IsPadded text (Utf8.encode key.toJson)

/-- No reader takes the text. -/
structure IsRefused (text : String) : Prop where
  parse : parse? text = none
  convert : ofText text = .error (.invalidKey text)
  json : ∀ s, IsPadded text s → ofJson s = .error (.invalidKey text)

theorem ofText_eq_ok_iff {text : String} {key : TaskKey} :
    ofText text = .ok key ↔ key.text = text := by
  rw [← parse?_eq_some_iff, ofText]
  split <;> simp_all

theorem ofText_of_not {text : String} (h : ¬IsKeyText text) :
    ofText text = .error (.invalidKey text) := by
  rw [ofText, parse?_eq_none_iff.2 h]

/-- A string is tested once it is read. -/
theorem ofJson_padded {text : String} {s : Bytes} (h : IsPadded text s) :
    ofJson s = ofText text := by
  obtain @⟨a, l, b, ha, hl, hb⟩ := h
  have hread : readString "a string" (a ++ (l ++ b)) = .ok (text, b) :=
    readString_eq_ok_iff.2 ⟨a, l, ha, hl, rfl⟩
  unfold ofJson
  rw [hread]
  simp only [bind, Except.bind]
  cases ofText text with
  | error fault => rfl
  | ok key => exact finish_eq_ok_iff.2 ⟨rfl, hb⟩

theorem ofJson_eq_ok_iff {s : Bytes} {key : TaskKey} :
    ofJson s = .ok key ↔ IsPadded key.text s := by
  constructor
  · intro h
    obtain ⟨⟨text, rest⟩, hread, h⟩ := bind_eq_ok_iff.1 h
    obtain ⟨found, hfound, h⟩ := bind_eq_ok_iff.1 h
    obtain ⟨rfl, hrest⟩ := finish_eq_ok_iff.1 h
    obtain ⟨a, l, ha, hl, rfl⟩ := readString_eq_ok_iff.1 hread
    rw [ofText_eq_ok_iff.1 hfound]
    exact ⟨ha, hl, hrest⟩
  · intro h
    rw [ofJson_padded h]
    exact ofText_eq_ok_iff.2 rfl

/-- Nothing in a key is escaped. -/
theorem toJson_eq (key : TaskKey) : key.toJson = "\"" ++ key.text ++ "\"" := by
  have hascii : ∀ n : Fin 128, Hex.isLowerDigit (Char.ofNat n) = true →
      writeChar (Char.ofNat n) = [Char.ofNat n] := by decide
  have hself : key.text.toList.flatMap writeChar = key.text.toList := by
    have hdigit : ∀ c ∈ key.text.toList, writeChar c = [c] := by
      intro c hc
      have hlt := (key.isKeyText_text.2 c hc).lt
      have := List.all_eq_true.1 key.all_isLowerDigit c hc
      simpa [this] using hascii ⟨c.toNat, hlt⟩
    calc
      key.text.toList.flatMap writeChar = key.text.toList.flatMap (pure ∘ id) :=
        List.flatMap_congr hdigit
      _ = key.text.toList := by rw [List.flatMap_pure_eq_map, List.map_id]
  apply String.toList_inj.1
  rw [toJson, literal, hself]
  simp

theorem isPadded_literal (text : String) : IsPadded text (Utf8.encode (literal text)) := by
  have hread : readString "a string" (Utf8.encode (literal text)) = .ok (text, []) := by
    rw [encode_literal, Update.readString_cons, ← List.append_nil (literalTail text),
      readLiteral_literalTail]
  obtain ⟨a, l, ha, hl, hs⟩ := readString_eq_ok_iff.1 hread
  rw [hs]
  exact ⟨ha, hl, isBlank_nil⟩

theorem isRead_text (key : TaskKey) : IsRead key.text key where
  parse := parse?_text key
  convert := ofText_eq_ok_iff.2 rfl
  json _ h := ofJson_eq_ok_iff.2 h
  text_eq := rfl
  toJson_eq := key.toJson_eq
  written := isPadded_literal key.text

theorem isRefused_of_not {text : String} (h : ¬IsKeyText text) : IsRefused text where
  parse := parse?_eq_none_iff.2 h
  convert := ofText_of_not h
  json _ hs := by rw [ofJson_padded hs, ofText_of_not h]

end TaskKey

/-! ### Paths of keys -/

namespace Place

/-- The path of a place: that of a running task, or of one that waits, in the flat layout or as it
was left from there, or in a shard. -/
inductive HasPath (events : Path) : Place → Path → Prop where
  | running (w : WaitingLayout) (key : TaskKey) :
      HasPath events (.running key) (Layout.runningPath ⟨events, w⟩ key)
  | flat (key : TaskKey) : HasPath events (.flat key) (Layout.waitingPath ⟨events, .flat⟩ key)
  | leftFlat (w : WaitingLayout) (key : TaskKey) :
      HasPath events (.flat key) (Layout.flatWaitingPath ⟨events, w⟩ key)
  | sharded (key : TaskKey) :
      HasPath events (.sharded key) (Layout.waitingPath ⟨events, .sharded⟩ key)

variable {events p q : Path} {a b : Place}

theorem isPlain_of_mem_names (pl : Place) : ∀ n ∈ pl.names, IsPlain n := by
  have hrunning : IsPlain "running" := IsState.isPlain (.inr (.inl rfl))
  have hwaiting : IsPlain "waiting" := IsState.isPlain (.inr (.inr rfl))
  cases pl with
  | running key => simp [names, directory, Place.key, hrunning, key.isPlain_text]
  | flat key => simp [names, directory, Place.key, hwaiting, key.isPlain_text]
  | sharded key => simp [names, directory, Place.key, hwaiting, key.isPlain_shard, key.isPlain_text]

theorem HasPath.eq_below (h : HasPath events a p) :
    p = (events.join "ref-updates").below a.names := by
  cases h <;> rfl

theorem HasPath.parts_eq (h : HasPath events a p) :
    p.parts = (events.join "ref-updates").parts ++ a.names.map .name := by
  rw [h.eq_below, Path.parts_below _ a.isPlain_of_mem_names]

/-- The path of a place is in no other's way. -/
theorem HasPath.startsWith_iff (hp : HasPath events a p) (hq : HasPath events b q) :
    q.startsWith p = true ↔ a = b := by
  have hname : Function.Injective Path.Part.name := fun _ _ h => Path.Part.name.inj h
  unfold Path.startsWith
  rw [List.isPrefixOf_iff_prefix, hp.parts_eq, hq.parts_eq, List.prefix_append_right_inj,
    List.prefix_map_iff_of_injective hname]
  constructor
  · intro h
    by_contra hne
    exact not_prefix hne h
  · rintro rfl
    exact List.prefix_rfl

theorem HasPath.eq_iff (hp : HasPath events a p) (hq : HasPath events b q) : p = q ↔ a = b := by
  constructor
  · rintro rfl
    have := (hp.startsWith_iff hp).2 rfl
    exact (hp.startsWith_iff hq).1 this
  · rintro rfl
    rw [hp.eq_below, hq.eq_below]

end Place

namespace Layout

variable (layout : Layout) (key : TaskKey)

theorem taskKey_of_mem {path : Path}
    (h : path ∈ [layout.runningPath key, layout.waitingPath key, layout.flatWaitingPath key]) :
    path.fileName?.bind TaskKey.parse? = some key := by
  simp only [List.mem_cons, List.not_mem_nil, or_false] at h
  rcases h with rfl | rfl | rfl
  · exact layout.taskKey_pathOf (.running key)
  · rw [← pathOf_waitingPlace, taskKey_pathOf, key_waitingPlace]
  · exact layout.taskKey_pathOf (.flat key)

/-- Below the waiting directory come the first two digits, and then the key. -/
theorem text_waitingPath_sharded (events : Path) :
    (waitingPath ⟨events, .sharded⟩ key).text = (waiting ⟨events, .sharded⟩).text ++ "/" ++
      String.ofList (key.text.toList.take 2) ++ "/" ++ key.text := by
  have hwaiting : IsPlain "waiting" := IsState.isPlain (.inr (.inr rfl))
  apply String.toList_inj.1
  show (((Path.join _ "waiting").join key.shard).join key.text).text.toList = _
  rw [Path.toList_join_join _ key.isPlain_shard key.isPlain_text,
    Path.toList_join_join _ hwaiting key.isPlain_shard]
  simp [waiting, TaskKey.shard]

end Layout

namespace TaskKey

/-- The digest of an update is a key. A text is read as a key, from a file name, from a string or
from JSON, exactly when it has the form of one, and is written as it was. Each path of a key ends in
it, and no path of a place is that of another or leads to it. -/
theorem one_to_one :
    (∀ u, IsKeyText (derive u).text ∧ ∃ found, Sha1.IsBlocks (Utf8.encode (preimage u)) found ∧
      (derive u).text = String.ofList (found.foldl Sha1.compress Sha1.Digest.start).hex) ∧
    (∀ text, (IsKeyText text ↔ IsKeyBytes (Utf8.encode text)) ∧
      (IsKeyText text → ∃ key, IsRead text key) ∧ (¬IsKeyText text → IsRefused text)) ∧
    (∀ s key, ofJson s = .ok key ↔ Update.IsPadded key.text s) ∧
    (∀ (layout : Layout) key,
      ∀ path ∈ [layout.runningPath key, layout.waitingPath key, layout.flatWaitingPath key],
        path.fileName?.bind parse? = some key) ∧
    (∀ events key, (Layout.waitingPath ⟨events, .sharded⟩ key).text =
      (Layout.waiting ⟨events, .sharded⟩).text ++ "/" ++
        String.ofList (key.text.toList.take 2) ++ "/" ++ key.text) ∧
    ∀ events a b p q, Place.HasPath events a p → Place.HasPath events b q →
      (p = q ↔ a = b) ∧ (q.startsWith p = true ↔ a = b) := by
  refine ⟨fun u => ⟨isKeyText_text _, ?_⟩,
    fun text => ⟨isKeyText_iff_isKeyBytes, fun h => ?_, isRefused_of_not⟩,
    fun _ _ => ofJson_eq_ok_iff, fun layout key _ => layout.taskKey_of_mem key,
    fun events key => Layout.text_waitingPath_sharded key events,
    fun _ _ _ _ _ hp hq => ⟨hp.eq_iff hq, hp.startsWith_iff hq⟩⟩
  · obtain ⟨found, hfound, hdigest⟩ := Sha1.exists_digest_eq (Utf8.encode (preimage u))
    refine ⟨found, hfound, ?_⟩
    rw [← hdigest, derive]
  · obtain ⟨hlength, hall⟩ := isKeyText_iff.1 h
    exact ⟨⟨text, hlength, hall⟩, isRead_text ⟨text, hlength, hall⟩⟩

theorem isKeyText_replicate {c : Char} (h : IsDigit c) :
    IsKeyText (String.ofList (List.replicate 40 c)) := by
  rw [IsKeyText, String.toList_ofList]
  refine ⟨List.length_replicate, fun d hd => ?_⟩
  rwa [List.eq_of_mem_replicate hd]

/-- Small letters spell a key, whose path among the running tasks is not in the way of that among
the waiting ones; capitals spell none. -/
theorem one_to_one_letters :
    (∃ key, IsRead (String.ofList (List.replicate 40 'a')) key ∧
      ((Layout.runningPath ⟨⟨"."⟩, .flat⟩ key).fileName?.bind parse? = some key) ∧
      Layout.runningPath ⟨⟨"."⟩, .flat⟩ key ≠ Layout.waitingPath ⟨⟨"."⟩, .flat⟩ key ∧
      (Layout.waitingPath ⟨⟨"."⟩, .flat⟩ key).startsWith (Layout.runningPath ⟨⟨"."⟩, .flat⟩ key) =
        false) ∧
    IsRefused (String.ofList (List.replicate 40 'A')) := by
  obtain ⟨-, htexts, -, hpaths, -, hapart⟩ := one_to_one
  constructor
  · obtain ⟨key, hkey⟩ := (htexts _).2.1 (isKeyText_replicate (c := 'a') (.inr (by decide)))
    have h := hapart ⟨"."⟩ _ _ _ _ (.running .flat key) (.flat key)
    refine ⟨key, hkey, hpaths _ key _ List.mem_cons_self, ?_, ?_⟩
    · simp [h.1]
    · simp [← Bool.not_eq_true, h.2]
  · refine (htexts _).2.2 fun h => ?_
    have hcapital : IsDigit 'A' := h.2 'A' (by simp)
    rw [isDigit_iff_toNat] at hcapital
    simp at hcapital

end TaskKey

end ReplicationQueue
