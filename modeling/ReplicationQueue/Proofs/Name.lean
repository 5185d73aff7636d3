import ReplicationQueue.Plan
import ReplicationQueue.Proofs.Path

/-! The names that a queue gives to files and directories: task keys, their shards, and the names of
files in the making. Each is plain, and its length is known. -/

namespace ReplicationQueue

/-- A character that takes one byte and ends no name. -/
def IsVisible (c : Char) : Prop :=
  '!' ≤ c ∧ c ≤ '~' ∧ c ≠ '/'

theorem utf8ByteSize_ofList {cs : List Char} (h : ∀ c ∈ cs, IsVisible c) :
    (String.ofList cs).utf8ByteSize = cs.length := by
  induction cs with
  | nil => rfl
  | cons c cs ih =>
    have hc : c.utf8Size = 1 := by
      have hle : c.val ≤ '~'.val := (h c (by simp)).2.1
      have hlow : c.val ≤ 0x7f := UInt32.le_trans hle (by decide)
      simp [Char.utf8Size, hlow]
    have hcs := ih fun d hd => h d (List.mem_cons_of_mem c hd)
    have happend : String.ofList (c :: cs) = String.singleton c ++ String.ofList cs := by
      apply String.toList_inj.1
      simp
    rw [happend, String.utf8ByteSize_append, hcs, String.utf8ByteSize_singleton, hc,
      List.length_cons, Nat.add_comm]

theorem utf8ByteSize_eq_length {name : String} (h : ∀ c ∈ name.toList, IsVisible c) :
    name.utf8ByteSize = name.toList.length := by
  rw [← utf8ByteSize_ofList h, String.ofList_toList]

theorem isPlain_of_isVisible {name : String} (h : ∀ c ∈ name.toList, IsVisible c)
    (hne : name.toList ≠ []) (hdot : name ≠ ".") (hup : name ≠ "..")
    (hshort : name.toList.length ≤ maxNameBytes) : IsPlain name where
  ne_nil := hne
  noSlash hmem := (h _ hmem).2.2 rfl
  noNull hmem := absurd (h _ hmem).1 (by decide)
  ne_dot := hdot
  ne_up := hup
  short := by rwa [utf8ByteSize_eq_length h]

theorem isVisible_of_isLowerDigit {c : Char} (h : Hex.isLowerDigit c = true) : IsVisible c := by
  simp only [Hex.isLowerDigit, Bool.or_eq_true, Bool.and_eq_true, decide_eq_true_eq] at h
  rcases h with ⟨hlow, hhigh⟩ | ⟨hlow, hhigh⟩
  · refine ⟨Char.le_trans (by decide) hlow, Char.le_trans hhigh (by decide), ?_⟩
    rintro rfl
    exact absurd hlow (by decide)
  · refine ⟨Char.le_trans (by decide) hlow, Char.le_trans hhigh (by decide), ?_⟩
    rintro rfl
    exact absurd hlow (by decide)

namespace TaskKey

variable (key : TaskKey)

theorem isVisible_text : ∀ c ∈ key.text.toList, IsVisible c := by
  intro c hc
  exact isVisible_of_isLowerDigit (List.all_eq_true.1 key.all_isLowerDigit c hc)

@[simp] theorem utf8ByteSize_text : key.text.utf8ByteSize = 40 := by
  rw [utf8ByteSize_eq_length key.isVisible_text, key.length_text]

theorem text_ne {name : String} (h : name.toList.length ≠ 40) : key.text ≠ name := by
  rintro rfl
  exact h key.length_text

theorem isPlain_text : IsPlain key.text := by
  have hlength := key.length_text
  refine isPlain_of_isVisible key.isVisible_text ?_ (key.text_ne (by decide))
    (key.text_ne (by decide)) ?_
  · intro hnil
    simp [hnil] at hlength
  · rw [hlength]
    decide

theorem isVisible_shard : ∀ c ∈ key.shard.toList, IsVisible c := by
  intro c hc
  rw [shard, String.toList_ofList] at hc
  exact key.isVisible_text c (List.mem_of_mem_take hc)

theorem length_shard : key.shard.toList.length = 2 := by
  rw [shard, String.toList_ofList, List.length_take, key.length_text]
  rfl

@[simp] theorem utf8ByteSize_shard : key.shard.utf8ByteSize = 2 := by
  rw [utf8ByteSize_eq_length key.isVisible_shard, key.length_shard]

theorem isPlain_shard : IsPlain key.shard := by
  have hlength := key.length_shard
  refine isPlain_of_isVisible key.isVisible_shard ?_ ?_ ?_ ?_
  · intro hnil
    simp [hnil] at hlength
  · intro hdot
    simp [hdot] at hlength
  · intro hup
    -- A dot is no digit.
    have hmem : '.' ∈ key.shard.toList := by simp [hup]
    rw [shard, String.toList_ofList] at hmem
    have := List.all_eq_true.1 key.all_isLowerDigit _ (List.mem_of_mem_take hmem)
    exact absurd this (by decide)
  · rw [hlength]
    decide

theorem text_ne_shard (other : TaskKey) : key.text ≠ other.shard := by
  apply key.text_ne
  rw [other.length_shard]
  decide

end TaskKey

theorem NamePart.isVisible_text (part : NamePart) : ∀ c ∈ part.text.toList, IsVisible c := by
  intro c hc
  have := List.all_eq_true.1 part.all_visible c hc
  simpa [IsVisible, and_assoc] using this

/-- The name of a file in the making. -/
def temporaryName (key : TaskKey) (part : NamePart) : String :=
  key.text ++ part.text

theorem temporaryName_inj {key : TaskKey} {a b : NamePart} :
    temporaryName key a = temporaryName key b ↔ a = b := by
  constructor
  · intro h
    obtain ⟨a, ha, ha'⟩ := a
    obtain ⟨b, hb, hb'⟩ := b
    have htext : a = b := by simpa [temporaryName] using h
    subst htext
    rfl
  · rintro rfl
    rfl

theorem isVisible_temporaryName (key : TaskKey) (part : NamePart) :
    ∀ c ∈ (temporaryName key part).toList, IsVisible c := by
  intro c hc
  rw [temporaryName, String.toList_append, List.mem_append] at hc
  rcases hc with hc | hc
  · exact key.isVisible_text c hc
  · exact part.isVisible_text c hc

theorem length_temporaryName (key : TaskKey) (part : NamePart) :
    (temporaryName key part).toList.length = 46 := by
  rw [temporaryName, String.toList_append, List.length_append, key.length_text, part.length_text]

theorem isPlain_temporaryName (key : TaskKey) (part : NamePart) :
    IsPlain (temporaryName key part) := by
  have hlength := length_temporaryName key part
  have hne : ∀ name : String, name.toList.length ≠ 46 → temporaryName key part ≠ name := by
    rintro _ h rfl
    exact h hlength
  refine isPlain_of_isVisible (isVisible_temporaryName key part) ?_ (hne _ (by decide))
    (hne _ (by decide)) ?_
  · intro hnil
    simp [hnil] at hlength
  · rw [hlength]
    decide

@[simp] theorem utf8ByteSize_temporaryName (key : TaskKey) (part : NamePart) :
    (temporaryName key part).utf8ByteSize = 46 := by
  rw [utf8ByteSize_eq_length (isVisible_temporaryName key part), length_temporaryName]

end ReplicationQueue
