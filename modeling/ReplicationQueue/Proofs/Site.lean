import Mathlib.Data.List.Induction
import ReplicationQueue.Proofs.Change
import ReplicationQueue.Proofs.Queue

/-! A queue on a disk. A site is a disk with an events directory in which no queue is yet. Once its
directories are made, the disk shows a queue: below the queue's directory stands what the queue
holds, elsewhere what stood there before. Each call that the queue makes is told by what the queue
holds, through any path that led to the events directory at first. -/

namespace ReplicationQueue

/-- Every entry lies in a directory, under a name that a directory can hold. -/
structure Disk.IsTree (d : Disk) : Prop where
  inside : ∀ l n e, d.get? (l ++ [n]) = some e →
    d.get? l = some .directory ∨ ∃ isSealed, d.get? l = some (.mount isSealed)
  plain : ∀ l n e, d.get? (l ++ [n]) = some e → IsPlain n ∨ e = .removed

theorem Disk.IsTree.get?_below {d : Disk} (h : d.IsTree) {l : Location} (hl : d.get? l = none)
    (names : Location) : d.get? (l ++ names) = none := by
  induction names using List.reverseRecOn with
  | nil => rwa [List.append_nil]
  | append_singleton names n ih =>
    rw [Option.eq_none_iff_forall_ne_some]
    intro e he
    rw [← List.append_assoc] at he
    rcases h.inside _ _ _ he with hd | ⟨_, hd⟩
    · rw [ih] at hd
      cases hd
    · rw [ih] at hd
      cases hd

/-- A disk, the working directory, and an events directory that holds no queue. -/
structure Site where
  disk : Disk
  cwd : Location
  base : Location
  isTree : disk.IsTree
  isHome : (disk.get? cwd).any Entry.isDirectory
  isOpen : (disk.get? base).any Entry.isOpen
  isBare : disk.get? (base ++ ["ref-updates"]) = none

namespace Site

/-- Where the queue's directory will be. -/
def root (site : Site) : Location :=
  site.base ++ ["ref-updates"]

/-- The events directory of the layout is the site's. -/
def Opens (site : Site) (q : Layout) : Prop :=
  site.disk.locate site.cwd q.events = .ok site.base

/-- The layout's directories can be made. -/
structure Serves (site : Site) (layout : Layout) : Prop where
  opens : site.Opens layout
  fits : layout.building.isTooLong = false

/-- The system's disk holds the queue, and else what the site's holds. -/
structure Shows (site : Site) (q : Queue) (s : System) : Prop where
  cwd : s.cwd = site.cwd
  inside : ∀ names, s.disk.get? (site.root ++ names) = q.get? names
  outside : ∀ l, ¬site.root <+: l → s.disk.get? l = site.disk.get? l
  housed : ∀ pl, (q.files pl).isSome → q.Houses pl

theorem get?_root (site : Site) (names : Location) : site.disk.get? (site.root ++ names) = none :=
  site.isTree.get?_below site.isBare names

theorem not_root_prefix_base (site : Site) : ¬site.root <+: site.base := by
  intro h
  have hlength := h.length_le
  rw [root, List.length_append, List.length_singleton] at hlength
  omega

end Site

/-! ### Paths of a layout -/

theorem isPlain_refUpdates : IsPlain "ref-updates" :=
  isPlain_of_isVisible (by simp [IsVisible]) (by simp) (by decide) (by decide) (by decide)

/-- The names of the directories that stand for states. -/
def IsState (state : String) : Prop :=
  state = "building" ∨ state = "running" ∨ state = "waiting"

theorem IsState.isPlain {state : String} (h : IsState state) : IsPlain state := by
  rcases h with rfl | rfl | rfl
  · exact isPlain_of_isVisible (by simp [IsVisible]) (by simp) (by decide) (by decide) (by decide)
  · exact isPlain_of_isVisible (by simp [IsVisible]) (by simp) (by decide) (by decide) (by decide)
  · exact isPlain_of_isVisible (by simp [IsVisible]) (by simp) (by decide) (by decide) (by decide)

namespace WaitingLayout

/-- Where a task that waits is put. -/
def place (w : WaitingLayout) (key : TaskKey) : Place :=
  match w with
  | .flat => .flat key
  | .sharded => .sharded key

variable (w : WaitingLayout) (key : TaskKey)

@[simp] theorem key_place : (w.place key).key = key := by
  cases w <;> rfl

theorem place_ne_running (other : TaskKey) : w.place key ≠ .running other := by
  cases w <;> simp [place]

theorem place_inj {w : WaitingLayout} {a b : TaskKey} : w.place a = w.place b ↔ a = b := by
  cases w <;> simp [place]

end WaitingLayout

namespace Layout

/-- The path of a place's directory. -/
def directoryOf (layout : Layout) : Place → Path
  | .running _ => layout.running
  | .flat _ => layout.waiting
  | .sharded key => layout.waiting.join key.shard

/-- The path of a place. -/
def pathOf (layout : Layout) (pl : Place) : Path :=
  (layout.directoryOf pl).join pl.key.text

/-- Where a task is put when it starts to wait. -/
def waitingPlace (layout : Layout) (key : TaskKey) : Place :=
  layout.waitingLayout.place key

/-- Whether a path of the layout is short enough for the place to be looked up. -/
def reaches (layout : Layout) (pl : Place) : Bool :=
  !(layout.pathOf pl).isTooLong

variable (layout : Layout) (key : TaskKey)

theorem pathOf_running : layout.pathOf (.running key) = layout.runningPath key := rfl

theorem pathOf_flat : layout.pathOf (.flat key) = layout.flatWaitingPath key := rfl

theorem pathOf_waitingPlace : layout.pathOf (layout.waitingPlace key) = layout.waitingPath key := by
  unfold waitingPlace waitingPath WaitingLayout.place
  cases layout.waitingLayout <;> rfl

@[simp] theorem key_waitingPlace : (layout.waitingPlace key).key = key :=
  layout.waitingLayout.key_place key

theorem waitingPlace_eq {w : WaitingLayout} (h : layout.waitingLayout = w) :
    layout.waitingPlace key = w.place key := by
  rw [waitingPlace, h]

theorem waitingPlace_ne_running (other : TaskKey) : layout.waitingPlace key ≠ .running other :=
  layout.waitingLayout.place_ne_running key other

theorem utf8ByteSize_state {state : String} (h : IsState state) :
    (layout.refUpdates.join state).text.utf8ByteSize =
      layout.refUpdates.text.utf8ByteSize + 1 + state.utf8ByteSize :=
  Path.utf8ByteSize_join_join _ isPlain_refUpdates h.isPlain

theorem utf8ByteSize_building :
    layout.building.text.utf8ByteSize = layout.refUpdates.text.utf8ByteSize + 9 :=
  layout.utf8ByteSize_state (.inl rfl)

theorem utf8ByteSize_join_building {name : String} (hname : IsPlain name) :
    (layout.building.join name).text.utf8ByteSize =
      layout.refUpdates.text.utf8ByteSize + 10 + name.utf8ByteSize := by
  have hsize := Path.utf8ByteSize_join_join layout.refUpdates (IsState.isPlain (.inl rfl)) hname
  rw [← Layout.building, layout.utf8ByteSize_building] at hsize
  omega

theorem utf8ByteSize_running :
    layout.running.text.utf8ByteSize = layout.refUpdates.text.utf8ByteSize + 8 :=
  layout.utf8ByteSize_state (.inr (.inl rfl))

theorem utf8ByteSize_waiting :
    layout.waiting.text.utf8ByteSize = layout.refUpdates.text.utf8ByteSize + 8 :=
  layout.utf8ByteSize_state (.inr (.inr rfl))

theorem utf8ByteSize_shard :
    (layout.waiting.join key.shard).text.utf8ByteSize =
      layout.refUpdates.text.utf8ByteSize + 11 := by
  rw [waiting, Path.utf8ByteSize_join_join _ (IsState.isPlain (.inr (.inr rfl))) key.isPlain_shard,
    ← waiting, utf8ByteSize_waiting, key.utf8ByteSize_shard]

theorem utf8ByteSize_pathOf_running :
    (layout.pathOf (.running key)).text.utf8ByteSize =
      layout.refUpdates.text.utf8ByteSize + 49 := by
  rw [pathOf_running, runningPath, running,
    Path.utf8ByteSize_join_join _ (IsState.isPlain (.inr (.inl rfl))) key.isPlain_text, ← running,
    utf8ByteSize_running, key.utf8ByteSize_text]

theorem utf8ByteSize_pathOf_flat :
    (layout.pathOf (.flat key)).text.utf8ByteSize = layout.refUpdates.text.utf8ByteSize + 49 := by
  rw [pathOf_flat, flatWaitingPath, waiting,
    Path.utf8ByteSize_join_join _ (IsState.isPlain (.inr (.inr rfl))) key.isPlain_text, ← waiting,
    utf8ByteSize_waiting, key.utf8ByteSize_text]

theorem utf8ByteSize_pathOf_sharded :
    (layout.pathOf (.sharded key)).text.utf8ByteSize =
      layout.refUpdates.text.utf8ByteSize + 52 := by
  rw [pathOf, directoryOf, Place.key, Path.utf8ByteSize_join_join _ key.isPlain_shard
    key.isPlain_text, utf8ByteSize_shard, key.utf8ByteSize_text]

end Layout

namespace Site

variable {site : Site} {layout : Layout} {q : Queue} {s : System}

theorem Serves.length_le (h : site.Serves layout) :
    layout.refUpdates.text.utf8ByteSize + 9 ≤ maxPathBytes := by
  have := h.fits
  simpa [Path.isTooLong, layout.utf8ByteSize_building] using this

theorem Serves.state_fits (h : site.Serves layout) {state : String} (hs : IsState state) :
    (layout.refUpdates.join state).isTooLong = false := by
  have hlength := h.length_le
  have hsize : state.utf8ByteSize ≤ 8 := by
    rcases hs with rfl | rfl | rfl <;> decide
  simp only [Path.isTooLong, layout.utf8ByteSize_state hs, decide_eq_false_iff_not]
  omega

theorem Serves.refUpdates_fits (h : site.Serves layout) : layout.refUpdates.isTooLong = false := by
  have hlength := h.length_le
  simp only [Path.isTooLong, decide_eq_false_iff_not]
  omega

namespace Shows

theorem extends_disk (h : site.Shows q s) : Disk.Extends site.disk s.disk := by
  intro l e he
  by_cases hl : site.root <+: l
  · obtain ⟨names, rfl⟩ := hl
    rw [site.get?_root] at he
    cases he
  · rwa [h.outside l hl]

theorem get?_base (h : site.Shows q s) : s.disk.get? site.base = site.disk.get? site.base :=
  h.outside _ site.not_root_prefix_base

/-! ### Where the paths lead -/

theorem leads_events (h : site.Shows q s) (ho : site.Opens layout) :
    s.disk.Leads s.cwd layout.events site.base := by
  have hlocate : s.disk.locate s.cwd layout.events = .ok site.base := by
    rw [h.cwd]
    exact Disk.locate_extends h.extends_disk ho
  refine Disk.leads_of_locate hlocate ?_
  have hopen := site.isOpen
  rw [h.get?_base]
  cases he : site.disk.get? site.base with
  | none => simp [he] at hopen
  | some e =>
    rw [he] at hopen
    cases e <;> simp_all [Entry.isOpen, Entry.isDirectory]

theorem get?_root (h : site.Shows q s) : s.disk.get? site.root = some .directory := by
  simpa using h.inside []

theorem leads_refUpdates (h : site.Shows q s) (ho : site.Opens layout) :
    s.disk.Leads s.cwd layout.refUpdates site.root :=
  (h.leads_events ho).join isPlain_refUpdates h.get?_root rfl

theorem get?_state (h : site.Shows q s) {state : String} (hs : IsState state) :
    s.disk.get? (site.root ++ [state]) = some .directory := by
  rw [h.inside, q.get?_state hs]

theorem leads_state (h : site.Shows q s) (ho : site.Opens layout) {state : String}
    (hs : IsState state) :
    s.disk.Leads s.cwd (layout.refUpdates.join state) (site.root ++ [state]) :=
  (h.leads_refUpdates ho).join hs.isPlain (h.get?_state hs) rfl

theorem get?_directory (h : site.Shows q s) {pl : Place} (hpl : q.Houses pl) :
    s.disk.get? (site.root ++ pl.directory) = some .directory := by
  rw [h.inside, q.get?_directory hpl]

theorem get?_place (h : site.Shows q s) (pl : Place) :
    s.disk.get? (site.root ++ pl.directory ++ [pl.key.text]) =
      (q.files pl).map (.file ·.record) := by
  rw [List.append_assoc, h.inside]
  exact q.get?_names pl

theorem leads_directory (h : site.Shows q s) (ho : site.Opens layout) {pl : Place}
    (hpl : q.Houses pl) :
    s.disk.Leads s.cwd (layout.directoryOf pl) (site.root ++ pl.directory) := by
  cases pl with
  | running key => exact h.leads_state ho (.inr (.inl rfl))
  | flat key => exact h.leads_state ho (.inr (.inr rfl))
  | sharded key =>
    have hshard := h.get?_directory hpl
    rw [Place.directory, ← List.singleton_append, ← List.append_assoc] at hshard ⊢
    exact (h.leads_state ho (.inr (.inr rfl))).join key.isPlain_shard hshard rfl

theorem not_link (h : site.Shows q s) (names : Location) (target : String) :
    s.disk.get? (site.root ++ names) ≠ some (.link target) := by
  rw [h.inside]
  rcases q.get?_cases names with he | he | ⟨_, he⟩ <;> simp [he]

/-- Only a place in a shard can be without its directory. -/
theorem unhoused {pl : Place} (h : ¬q.Houses pl) :
    ∃ key, pl = .sharded key ∧ q.shards key.shard = false := by
  cases pl with
  | running key => exact absurd rfl h
  | flat key => exact absurd rfl h
  | sharded key =>
    refine ⟨key, rfl, ?_⟩
    simpa [Queue.Houses, Place.directory, Queue.isDirectory] using h

theorem files_unhoused (h : site.Shows q s) {pl : Place} (hpl : ¬q.Houses pl) :
    q.files pl = none := by
  have := mt (h.housed pl) hpl
  simpa using this

theorem get?_shard (h : site.Shows q s) {key : TaskKey} (hkey : q.shards key.shard = false) :
    s.disk.get? (site.root ++ ["waiting"] ++ [key.shard]) = none := by
  rw [List.append_assoc, h.inside]
  show q.get? ["waiting", key.shard] = none
  rw [q.get?_shard, hkey]
  rfl

theorem volume_directory (h : site.Shows q s) {pl : Place} (hpl : q.Houses pl) :
    s.disk.volume (site.root ++ pl.directory) = s.disk.volume site.root := by
  have hstate : ∀ {state : String}, IsState state →
      s.disk.volume (site.root ++ [state]) = s.disk.volume site.root := fun hs =>
    Disk.volume_concat _ _ _ (by simp [h.get?_state hs, Entry.isMount])
  cases pl with
  | running key => exact hstate (.inr (.inl rfl))
  | flat key => exact hstate (.inr (.inr rfl))
  | sharded key =>
    have hshard := h.get?_directory hpl
    rw [Place.directory, ← List.singleton_append, ← List.append_assoc] at hshard ⊢
    rw [Disk.volume_concat _ _ _ (by rw [hshard]; rfl), hstate (.inr (.inr rfl))]

end Shows

end Site

end ReplicationQueue
