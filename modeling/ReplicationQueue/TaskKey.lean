import ReplicationQueue.Digest.Sha1
import ReplicationQueue.Update

/-! Task keys: 40 lowercase hexadecimal digits. Every host derives the same key for the same
update, which lets nodes find duplicates without talking to each other. -/

namespace ReplicationQueue

structure TaskKey where
  text : String
  length_text : text.toList.length = 40
  all_isLowerDigit : text.toList.all Hex.isLowerDigit = true
  deriving DecidableEq

namespace TaskKey

/-- The text that is digested: the four fields, one to a line. -/
def preimage (u : Update) : String :=
  u.project ++ "\n" ++ u.ref ++ "\n" ++ u.uri ++ "\n" ++ u.remote

def derive (u : Update) : TaskKey where
  text := String.ofList (Sha1.digest (Utf8.encode (preimage u))).hex
  length_text := by rw [String.toList_ofList, Sha1.Digest.length_hex]
  all_isLowerDigit := by rw [String.toList_ofList, Sha1.Digest.all_isLowerDigit_hex]

/-- The key that `text` spells, as it is read back from a file name. -/
def parse? (text : String) : Option TaskKey :=
  if h : text.toList.length = 40 ∧ text.toList.all Hex.isLowerDigit = true then
    some ⟨text, h.1, h.2⟩
  else none

/-- The name of the directory that holds the key when waiting tasks are sharded. -/
def shard (key : TaskKey) : String :=
  String.ofList (key.text.toList.take 2)

@[ext] theorem ext {k l : TaskKey} (h : k.text = l.text) : k = l := by
  cases k
  cases l
  cases h
  rfl

theorem parse?_eq_some_iff {text : String} {key : TaskKey} :
    parse? text = some key ↔ key.text = text := by
  unfold parse?
  constructor
  · intro h
    split at h
    · cases h
      rfl
    · cases h
  · rintro rfl
    rw [dif_pos ⟨key.length_text, key.all_isLowerDigit⟩]

@[simp] theorem parse?_text (key : TaskKey) : parse? key.text = some key :=
  parse?_eq_some_iff.2 rfl

end TaskKey

end ReplicationQueue
