import Mathlib.Logic.Function.Basic
import ReplicationQueue.Proofs.Name

/-! What a queue holds, apart from the disk that it is kept on: the records at the places where a
task's file can be, the files in the making, and the shards that have a directory. `Queue.get?`
tells what stands at each location of the queue's directory. -/

namespace ReplicationQueue

/-! ### Places -/

/-- Where a task's file can be. -/
inductive Place where
  | running (key : TaskKey)
  | flat (key : TaskKey)
  | sharded (key : TaskKey)
  deriving DecidableEq

namespace Place

def key : Place → TaskKey
  | running key | flat key | sharded key => key

/-- The directory of the place, from the queue's directory on. -/
def directory : Place → Location
  | running _ => ["running"]
  | flat _ => ["waiting"]
  | sharded key => ["waiting", key.shard]

/-- The location of the place, from the queue's directory on. -/
def names (pl : Place) : Location :=
  pl.directory ++ [pl.key.text]

/-- The place that a location is. -/
def ofNames? : Location → Option Place
  | [state, name] =>
    if state = "running" then (TaskKey.parse? name).map running
    else if state = "waiting" then (TaskKey.parse? name).map flat
    else none
  | [state, shard, name] =>
    (TaskKey.parse? name).bind fun key =>
      if state = "waiting" ∧ key.shard = shard then some (sharded key) else none
  | _ => none

theorem ofNames?_eq_some_iff {l : Location} {pl : Place} : ofNames? l = some pl ↔ pl.names = l := by
  constructor
  · intro h
    unfold ofNames? at h
    split at h
    · split at h
      · rename_i hstate
        obtain ⟨key, hkey, rfl⟩ := Option.map_eq_some_iff.1 h
        rw [TaskKey.parse?_eq_some_iff] at hkey
        simp [names, directory, Place.key, hkey, hstate]
      · split at h
        · rename_i hstate
          obtain ⟨key, hkey, rfl⟩ := Option.map_eq_some_iff.1 h
          rw [TaskKey.parse?_eq_some_iff] at hkey
          simp [names, directory, Place.key, hkey, hstate]
        · cases h
    · obtain ⟨key, hkey, hpl⟩ := Option.bind_eq_some_iff.1 h
      rw [TaskKey.parse?_eq_some_iff] at hkey
      split at hpl
      · rename_i hstate
        cases hpl
        simp [names, directory, Place.key, hkey, hstate]
      · cases hpl
    · cases h
  · rintro rfl
    cases pl with
    | running key => simp [names, directory, Place.key, ofNames?]
    | flat key => simp [names, directory, Place.key, ofNames?]
    | sharded key => simp [names, directory, Place.key, ofNames?]

@[simp] theorem ofNames?_names (pl : Place) : ofNames? pl.names = some pl :=
  ofNames?_eq_some_iff.2 rfl

theorem names_inj {a b : Place} : a.names = b.names ↔ a = b := by
  constructor
  · intro h
    have hb := ofNames?_names b
    rw [← h, ofNames?_names] at hb
    exact Option.some.inj hb
  · rintro rfl
    rfl

/-- Below the running directory are the places that run. -/
theorem runs_iff {pl : Place} : ["running"] <+: pl.names ↔ pl = .running pl.key := by
  cases pl <;> simp [names, directory, Place.key]

/-- Below the waiting directory are all others. -/
theorem waits_iff {pl : Place} : ["waiting"] <+: pl.names ↔ pl ≠ .running pl.key := by
  cases pl <;> simp [names, directory, Place.key]

theorem ofNames?_building (name : String) : ofNames? ["building", name] = none := by
  simp [ofNames?]

theorem ofNames?_shard (key : TaskKey) : ofNames? ["waiting", key.shard] = none := by
  rw [Option.eq_none_iff_forall_ne_some]
  intro pl hpl
  rw [ofNames?_eq_some_iff] at hpl
  cases pl with
  | running _ => simp [names, directory] at hpl
  | flat k =>
    simp only [names, directory, List.cons_append, List.nil_append, List.cons.injEq, true_and,
      and_true] at hpl
    exact k.text_ne_shard key hpl
  | sharded _ => simp [names, directory] at hpl

end Place

/-! ### Queues -/

structure Queue where
  /-- The files in the making, by name. -/
  building : String → Option Bytes
  /-- The records at their places. -/
  files : Place → Option Update
  /-- The shards of waiting tasks that have a directory. -/
  shards : String → Bool

namespace Queue

/-- The queue right after its directories were made. -/
def fresh : Queue :=
  ⟨fun _ => none, fun _ => none, fun _ => false⟩

/-- Whether a location of the queue is a directory. -/
def isDirectory (q : Queue) : Location → Bool
  | [] => true
  | [state] => state = "building" ∨ state = "running" ∨ state = "waiting"
  | [state, shard] => state = "waiting" && q.shards shard
  | _ => false

/-- What stands at a location of the queue that is not a place. -/
def frame? (q : Queue) (names : Location) : Option Entry :=
  if q.isDirectory names then some .directory
  else
    match names with
    | [state, name] => if state = "building" then (q.building name).map .file else none
    | _ => none

/-- What stands at a location, from the queue's directory on. -/
def get? (q : Queue) (names : Location) : Option Entry :=
  match Place.ofNames? names with
  | some pl => (q.files pl).map (.file ·.record)
  | none => q.frame? names

/-- Whether the directory of a place is there. -/
def Houses (q : Queue) (pl : Place) : Prop :=
  q.isDirectory pl.directory

@[simp] theorem get?_names (q : Queue) (pl : Place) :
    q.get? pl.names = (q.files pl).map (.file ·.record) := by
  rw [get?, Place.ofNames?_names]

@[simp] theorem get?_nil (q : Queue) : q.get? [] = some .directory := rfl

theorem get?_state (q : Queue) {state : String}
    (h : state = "building" ∨ state = "running" ∨ state = "waiting") :
    q.get? [state] = some .directory := by
  simp [get?, Place.ofNames?, frame?, isDirectory, h]

@[simp] theorem get?_building (q : Queue) (name : String) :
    q.get? ["building", name] = (q.building name).map .file := by
  simp [get?, Place.ofNames?_building, frame?, isDirectory]

theorem get?_shard (q : Queue) (key : TaskKey) :
    q.get? ["waiting", key.shard] = if q.shards key.shard then some .directory else none := by
  simp [get?, Place.ofNames?_shard, frame?, isDirectory]

theorem get?_directory (q : Queue) {pl : Place} (h : q.Houses pl) :
    q.get? pl.directory = some .directory := by
  cases pl with
  | running key => exact q.get?_state (by simp)
  | flat key => exact q.get?_state (by simp)
  | sharded key =>
    have hshard : q.shards key.shard = true := by
      simpa [Houses, Place.directory, isDirectory] using h
    rw [Place.directory, get?_shard, if_pos hshard]

theorem get?_of_none (q : Queue) {names : Location} (h : Place.ofNames? names = none) :
    q.get? names = q.frame? names := by
  rw [get?, h]

/-- A file that is at no place is in the making. -/
theorem frame?_file {q : Queue} {names : Location} {contents : Bytes}
    (h : q.frame? names = some (.file contents)) :
    ∃ name, names = ["building", name] ∧ q.building name = some contents := by
  unfold frame? at h
  split at h
  · cases h
  · split at h
    · split at h
      · rename_i state name _ hstate
        refine ⟨name, by rw [hstate], ?_⟩
        simpa using h
      · cases h
    · cases h

/-- Nothing else than files and directories is in a queue. -/
theorem get?_cases (q : Queue) (names : Location) :
    q.get? names = none ∨ q.get? names = some .directory ∨
      ∃ contents, q.get? names = some (.file contents) := by
  unfold get? frame?
  split
  · cases q.files _ <;> simp
  · split
    · simp
    · split
      · split
        · cases q.building _ <;> simp
        · simp
      · simp

theorem get?_eq_directory_iff {q : Queue} {names : Location} :
    q.get? names = some .directory ↔
      Place.ofNames? names = none ∧ q.isDirectory names = true := by
  unfold get? frame?
  cases Place.ofNames? names with
  | some pl => simp
  | none =>
    simp only [true_and]
    split
    · rename_i hdirectory
      simp [hdirectory]
    · rename_i hdirectory
      rw [Bool.not_eq_true] at hdirectory
      rw [hdirectory]
      split
      · split <;> simp
      · simp

/-- A file is a record at its place or in the making. -/
theorem get?_eq_file_iff {q : Queue} {names : Location} {contents : Bytes} :
    q.get? names = some (.file contents) ↔
      (∃ pl u, pl.names = names ∧ q.files pl = some u ∧ u.record = contents) ∨
        ∃ name, names = ["building", name] ∧ q.building name = some contents := by
  constructor
  · intro h
    cases hplace : Place.ofNames? names with
    | none =>
      rw [q.get?_of_none hplace] at h
      exact .inr (frame?_file h)
    | some pl =>
      rw [Place.ofNames?_eq_some_iff] at hplace
      subst hplace
      rw [q.get?_names] at h
      obtain ⟨u, hu, hcontents⟩ := Option.map_eq_some_iff.1 h
      exact .inl ⟨pl, u, rfl, hu, Entry.file.inj hcontents⟩
  · rintro (⟨pl, u, rfl, hu, rfl⟩ | ⟨name, rfl, hbuilt⟩)
    · rw [q.get?_names, hu]
      rfl
    · rw [q.get?_building, hbuilt]
      rfl

/-! ### Changes -/

/-- The queue with `r` at a place. -/
def set (q : Queue) (pl : Place) (r : Option Update) : Queue :=
  { q with files := Function.update q.files pl r }

/-- The queue with `r` as the file in the making of that name. -/
def build (q : Queue) (name : String) (r : Option Bytes) : Queue :=
  { q with building := Function.update q.building name r }

/-- The queue with a directory for the shard. -/
def addShard (q : Queue) (shard : String) : Queue :=
  { q with shards := Function.update q.shards shard true }

section Changes

variable (q : Queue) (pl : Place) (r : Option Update)

@[simp] theorem files_set_self : (q.set pl r).files pl = r := Function.update_self ..

theorem files_set (other : Place) :
    (q.set pl r).files other = if other = pl then r else q.files other :=
  Function.update_apply ..

theorem shards_addShard (shard other : String) :
    (q.addShard shard).shards other = if other = shard then true else q.shards other :=
  Function.update_apply ..

theorem building_build (name other : String) (bytes : Option Bytes) :
    (q.build name bytes).building other = if other = name then bytes else q.building other :=
  Function.update_apply ..

theorem build_build (name : String) (a b : Option Bytes) :
    (q.build name a).build name b = q.build name b := by
  rw [build, build, build, Function.update_idem]

theorem build_eq_self {q : Queue} {name : String} {bytes : Option Bytes}
    (h : q.building name = bytes) : q.build name bytes = q := by
  rw [build, ← h, Function.update_eq_self]

theorem get?_set (names : Location) :
    (q.set pl r).get? names = if names = pl.names then r.map (.file ·.record)
      else q.get? names := by
  by_cases h : names = pl.names
  · rw [if_pos h, h, get?_names, files_set_self]
  · rw [if_neg h]
    unfold get?
    cases hplace : Place.ofNames? names with
    | none => rfl
    | some other =>
      rw [Place.ofNames?_eq_some_iff] at hplace
      have hother : other ≠ pl := by
        rintro rfl
        exact h hplace.symm
      simp only [files_set, if_neg hother]

theorem get?_build (name : String) (bytes : Option Bytes) (names : Location) :
    (q.build name bytes).get? names =
      if names = ["building", name] then bytes.map .file else q.get? names := by
  by_cases h : names = ["building", name]
  · rw [if_pos h, h, get?_building, building_build, if_pos rfl]
  · rw [if_neg h]
    unfold get? frame?
    cases hplace : Place.ofNames? names with
    | some other => rfl
    | none =>
      simp only
      have hdirectory : (q.build name bytes).isDirectory names = q.isDirectory names := by
        unfold isDirectory
        split <;> rfl
      rw [hdirectory]
      split
      · rfl
      · split
        · rename_i state other hn
          split
          · rename_i hstate
            have hother : other ≠ name := by
              rintro rfl
              exact h (by rw [hstate])
            rw [building_build, if_neg hother]
          · rfl
        · rfl

theorem get?_addShard (key : TaskKey) (names : Location) :
    (q.addShard key.shard).get? names =
      if names = ["waiting", key.shard] then some .directory else q.get? names := by
  by_cases h : names = ["waiting", key.shard]
  · rw [if_pos h, h, get?_shard, shards_addShard, if_pos rfl, if_pos rfl]
  · rw [if_neg h]
    have hdirectory : (q.addShard key.shard).isDirectory names = q.isDirectory names := by
      unfold isDirectory
      split
      · rfl
      · rfl
      · rename_i state shard
        by_cases hstate : state = "waiting"
        · have hshard : shard ≠ key.shard := by
            rintro rfl
            exact h (by rw [hstate])
          rw [shards_addShard, if_neg hshard]
        · simp [hstate]
      · rfl
    unfold get? frame?
    rw [hdirectory]
    rfl

end Changes

end Queue

end ReplicationQueue
