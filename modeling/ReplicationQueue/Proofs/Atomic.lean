import ReplicationQueue.Proofs.Opening
import ReplicationQueue.Proofs.Stop

/-! A transition that is stopped was not begun or is done. Besides the records it leaves no more
than an empty shard and a file in the making. -/

namespace ReplicationQueue

attribute [local irreducible] Path.isTooLong

/-! ### What remains of a stop -/

/-- The queue `left` has the records of `q`; perhaps it has a file in the making more, and more
shards. -/
structure Queue.Remains (q left : Queue) : Prop where
  files : left.files = q.files
  shards : ∀ shard, q.shards shard = true → left.shards shard = true
  building : left.building = q.building ∨ ∃ name bytes,
    q.building name = none ∧ left.building = Function.update q.building name (some bytes)

namespace Queue

variable {q q' left : Queue}

theorem remains_self (q : Queue) : q.Remains q :=
  ⟨rfl, fun _ h => h, .inl rfl⟩

theorem remains_build {name : String} (h : q.building name = none) (bytes : Bytes) :
    q.Remains (q.build name (some bytes)) :=
  ⟨rfl, fun _ h => h, .inr ⟨name, bytes, h, rfl⟩⟩

/-- A shard more is among what may remain. -/
theorem Remains.of_provision {layout : Layout} {pl : Place} (h : q'.Remains left)
    (hq : q.provision layout pl = some q') : q.Remains left := by
  have hsame : q'.files = q.files ∧ q'.building = q.building ∧
      ∀ shard, q.shards shard = true → q'.shards shard = true := by
    cases pl with
    | running key =>
      cases hq
      exact ⟨rfl, rfl, fun _ hshard => hshard⟩
    | flat key =>
      cases hq
      exact ⟨rfl, rfl, fun _ hshard => hshard⟩
    | sharded key =>
      rw [provision_sharded] at hq
      split at hq
      · cases hq
      · cases hq
        refine ⟨rfl, rfl, fun shard hshard => ?_⟩
        rw [shards_addShard]
        split
        · rfl
        · exact hshard
  obtain ⟨hfiles, hbuilding, hshards⟩ := hsame
  refine ⟨h.files.trans hfiles, fun shard hshard => h.shards shard (hshards shard hshard), ?_⟩
  rw [← hbuilding]
  exact h.building

end Queue

/-! ### Questions -/

namespace Task

open Plan

theorem quiet_currentWaitingPath (t : Task) : t.currentWaitingPath.Quiet := by
  unfold Task.currentWaitingPath
  cases t.layout.waitingLayout with
  | flat => exact quiet_pure _
  | sharded =>
    refine (quiet_exists? _).bind fun found => ?_
    split
    · exact quiet_pure _
    · refine (quiet_exists? _).bind fun found => ?_
      split <;> exact quiet_pure _

theorem quiet_isWaiting (t : Task) : t.isWaiting.Quiet := by
  unfold Task.isWaiting
  refine (quiet_exists? _).bind fun found => ?_
  split
  · exact quiet_pure _
  · cases t.layout.waitingLayout with
    | flat => exact quiet_pure _
    | sharded => exact quiet_exists? _

end Task

namespace Site

open Plan

variable {site : Site} {layout : Layout} {q q' : Queue} {s : System}

/-- The disk shows the queue, or what may remain besides it. -/
def Leaves (site : Site) (q : Queue) (s : System) : Prop :=
  ∃ left, q.Remains left ∧ site.Shows left s

theorem Shows.leaves (h : site.Shows q s) : site.Leaves q s :=
  ⟨q, q.remains_self, h⟩

theorem Leaves.congr (h : site.Leaves q s) {s' : System} (hdisk : s'.disk = s.disk)
    (hcwd : s'.cwd = s.cwd) : site.Leaves q s' := by
  obtain ⟨left, hleft, hshows⟩ := h
  exact ⟨left, hleft, hshows.congr hdisk hcwd⟩

theorem ofDisk_leaves (q : Queue) : OfDisk (site.Leaves q) :=
  fun _ _ hdisk hcwd h => h.congr hdisk hcwd

theorem Leaves.of_provision {pl : Place} (h : site.Leaves q' s)
    (hq : q.provision layout pl = some q') : site.Leaves q s := by
  obtain ⟨left, hleft, hshows⟩ := h
  exact ⟨left, hleft.of_provision hq, hshows⟩

/-- Wherever the plan stops, it was not begun or is done. -/
def IsAtomic {α : Type} (site : Site) (q : Queue) (s : System) (a : Plan α) : Prop :=
  a.Stops s fun left => site.Leaves q left ∨
    ∃ q', site.Shows q' (a.run s).2 ∧ site.Leaves q' left

section Atomic

variable {α β : Type} {a : Plan α} {f : α → Plan β}

theorem isAtomic_of_stops (h : a.Stops s (site.Leaves q)) : site.IsAtomic q s a :=
  h.mono fun _ => .inl

theorem isAtomic_bind (ha : a.Stops s (site.Leaves q))
    (hf : site.IsAtomic q (a.run s).2 (f (a.run s).1)) : site.IsAtomic q s (a >>= f) := by
  refine stops_bind (ha.mono fun _ => .inl) (hf.mono fun left hleft => ?_)
  rw [run_bind]
  exact hleft

theorem IsAtomic.bind_quiet (ha : site.IsAtomic q s a) (hf : (f (a.run s).1).Quiet) :
    site.IsAtomic q s (a >>= f) := by
  obtain ⟨hdisk, hcwd⟩ := hf.run (a.run s).2
  have hrun : ∀ left, (site.Leaves q left ∨ ∃ q', site.Shows q' (a.run s).2 ∧ site.Leaves q' left) →
      site.Leaves q left ∨ ∃ q', site.Shows q' ((a >>= f).run s).2 ∧ site.Leaves q' left := by
    intro left hleft
    rw [run_bind]
    exact hleft.imp_right fun ⟨q', hshows, h⟩ => ⟨q', hshows.congr hdisk hcwd, h⟩
  refine stops_bind (ha.mono hrun) (hf.stops (fun s left hd hc h => ?_) (hrun _ ha.run))
  rcases h with h | ⟨q', hshows, h⟩
  · exact .inl (ofDisk_leaves q _ _ hd hc h)
  · exact .inr ⟨q', hshows, ofDisk_leaves q' _ _ hd hc h⟩

theorem isAtomic_move {source target : Path} (h : site.Leaves q s)
    (hmoved : ∀ disk, s.disk.rename s.cwd source target = .ok disk →
      ∃ q', site.Shows q' { s with disk }) : site.IsAtomic q s (Files.move source target) := by
  refine Files.stops_move (.inl h) fun disk hdisk => ?_
  obtain ⟨q', hq'⟩ := hmoved disk hdisk
  exact .inr ⟨q', by rw [Files.move_moved hdisk]; exact hq', hq'.leaves⟩

theorem isAtomic_delete {path : Path} (h : site.Leaves q s)
    (hremoved : ∀ disk, s.disk.remove s.cwd path = .ok disk →
      ∃ q', site.Shows q' { s with disk }) : site.IsAtomic q s (Files.delete path) := by
  refine Files.stops_delete (.inl h) fun disk hdisk => ?_
  obtain ⟨q', hq'⟩ := hremoved disk hdisk
  exact .inr ⟨q', by rw [Files.delete_removed hdisk]; exact hq', hq'.leaves⟩

end Atomic

namespace Shows

/-! ### Directories -/

/-- A directory that is there is not made again. -/
theorem stops_ensureDirectory_there (h : site.Shows q s) {p : Path} {l : Location} {n : String}
    (hleads : s.disk.Leads s.cwd p l) (hn : IsPlain n) (hopen : (s.disk.get? l).any Entry.isOpen)
    (hthere : s.disk.get? (l ++ [n]) = some .directory) :
    (Files.ensureDirectory (p.join n)).Stops s (site.Leaves q) := by
  have hmake := hleads.makeDirectory_join hn hopen
  rw [hthere, Option.isSome_some, if_pos rfl] at hmake
  refine Files.stops_ensureDirectory (ofDisk_leaves q) (Path.text_join_ne_empty _ hn) ?_ h.leaves
    fun disk hdisk => ?_
  · rw [hmake]
    split <;> simp
  · rw [hmake] at hdisk
    split at hdisk <;> cases hdisk

theorem stops_ensureDirectory_state (h : site.Shows q s) (hs : site.Serves layout) {state : String}
    (hstate : IsState state) :
    (Files.ensureDirectory (layout.refUpdates.join state)).Stops s (site.Leaves q) :=
  h.stops_ensureDirectory_there (h.leads_refUpdates hs.opens) hstate.isPlain
    (by rw [h.get?_root]; rfl) (h.get?_state hstate)

theorem stops_ensureParent (h : site.Shows q s) (hs : site.Serves layout) (pl : Place) :
    (Files.ensureParent (layout.pathOf pl)).Stops s (site.Leaves q) := by
  rw [Files.ensureParent_eq (layout.parent?_pathOf pl)]
  cases pl with
  | running key => exact h.stops_ensureDirectory_state hs (.inr (.inl rfl))
  | flat key => exact h.stops_ensureDirectory_state hs (.inr (.inr rfl))
  | sharded key =>
    have hmake := h.makeDirectory_shard hs.opens key
    refine Files.stops_ensureDirectory (ofDisk_leaves q)
      (Path.text_join_ne_empty _ key.isPlain_shard) (fun hmissing => ?_) h.leaves
      fun disk hdisk => ?_
    · rw [Layout.directoryOf, hmake] at hmissing
      split at hmissing
      · cases hmissing
      · split at hmissing <;> cases hmissing
    · rw [Layout.directoryOf, hmake] at hdisk
      split at hdisk
      · cases hdisk
      · rename_i hshort
        split at hdisk
        · cases hdisk
        · cases hdisk
          have hprovision : q.provision layout (.sharded key) = some (q.addShard key.shard) := by
            rw [q.provision_sharded, if_neg hshort]
          exact (h.makeShard key).leaves.of_provision hprovision

/-! ### Transitions -/

variable {t : Task}

theorem rename_ok (h : site.Shows q s) (ho : site.Opens layout) {src dst : Place} (hne : src ≠ dst)
    (hdst : q.Houses dst) {disk : Disk}
    (hdisk : s.disk.rename s.cwd (layout.pathOf src) (layout.pathOf dst) = .ok disk) :
    ∃ q', site.Shows q' { s with disk } := by
  rw [h.rename_pathOf ho hne hdst] at hdisk
  split at hdisk
  · cases hfile : q.files src with
    | none =>
      rw [hfile] at hdisk
      cases hdisk
    | some u =>
      rw [hfile] at hdisk
      cases hdisk
      exact ⟨_, h.move hdst hfile⟩
  · cases hdisk

theorem remove_ok (h : site.Shows q s) (ho : site.Opens layout) {pl : Place} {disk : Disk}
    (hdisk : s.disk.remove s.cwd (layout.pathOf pl) = .ok disk) :
    ∃ q', site.Shows q' { s with disk } := by
  rw [h.remove_pathOf ho pl] at hdisk
  split at hdisk
  · cases hfile : q.files pl with
    | none =>
      rw [hfile] at hdisk
      cases hdisk
    | some u =>
      rw [hfile] at hdisk
      cases hdisk
      exact ⟨_, h.erase pl⟩
  · cases hdisk

theorem isAtomic_move (h : site.Shows q s) (hs : site.Serves t.layout) {src dst : Place}
    (hne : src ≠ dst) : site.IsAtomic q s (t.move (t.layout.pathOf src) (t.layout.pathOf dst)) := by
  have hparent := h.ensureParent_pathOf hs dst
  rw [Task.move]
  refine isAtomic_bind (h.stops_ensureParent hs dst) ?_
  rcases q.provision_cases t.layout dst with hnone | ⟨q', hsome, hhouses, -, -⟩
  · rw [hnone] at hparent
    obtain ⟨error, herror⟩ := hparent
    rw [herror]
    exact isAtomic_of_stops (((quiet_note _).bind fun _ => quiet_pure _).stops (ofDisk_leaves q)
      h.leaves)
  · rw [hsome] at hparent
    obtain ⟨disk, hrun, h'⟩ := hparent
    rw [hrun]
    have hleaves : site.Leaves q { s with disk } := h'.leaves.of_provision hsome
    refine isAtomic_bind ((quiet_note _).stops (ofDisk_leaves q) hleaves) ?_
    have hnoted : site.Shows q' { s with
        disk, log := s.log ++ [.moving (t.layout.pathOf src) (t.layout.pathOf dst) t.subject] } :=
      h'.congr rfl rfl
    refine IsAtomic.bind_quiet (Site.isAtomic_move (hnoted.leaves.of_provision hsome)
      fun disk hdisk => hnoted.rename_ok hs.opens hne hhouses hdisk) ?_
    split
    · exact quiet_pure _
    · split
      · exact (quiet_note _).bind fun _ => quiet_pure _
      · exact (quiet_note _).bind fun _ => quiet_pure _

theorem stops_of_unremoved {path : Path} {cause : Cause} (h : site.Leaves q s)
    (hremove : s.disk.remove s.cwd path = .error cause) :
    (t.remove path).Stops s (site.Leaves q) := by
  have hdelete : (Files.delete path).Stops s (site.Leaves q) := by
    refine Files.stops_delete h fun disk hdisk => ?_
    rw [hremove] at hdisk
    cases hdisk
  rw [Task.remove]
  refine stops_bind hdelete ?_
  split
  · exact stops_pure hdelete.run
  · exact ((quiet_note _).bind fun _ => quiet_pure _).stops (ofDisk_leaves q) hdelete.run
  · exact ((quiet_note _).bind fun _ => quiet_pure _).stops (ofDisk_leaves q) hdelete.run

theorem isAtomic_remove (h : site.Shows q s) (hs : site.Serves t.layout) (pl : Place) :
    site.IsAtomic q s (t.remove (t.layout.pathOf pl)) := by
  rw [Task.remove]
  refine IsAtomic.bind_quiet (Site.isAtomic_delete h.leaves fun disk hdisk =>
    h.remove_ok hs.opens hdisk) ?_
  split
  · exact quiet_pure _
  · exact (quiet_note _).bind fun _ => quiet_pure _
  · exact (quiet_note _).bind fun _ => quiet_pure _

theorem isAtomic_start (h : site.Shows q s) (hs : site.Serves t.layout) :
    site.IsAtomic q s t.start := by
  rw [Task.start]
  refine isAtomic_bind (t.quiet_currentWaitingPath.stops (ofDisk_leaves q) h.leaves) ?_
  rw [h.run_currentWaitingPath hs, t.runningPath_eq]
  exact h.isAtomic_move hs (source_ne_running q t.layout t.key)

theorem isAtomic_reset (h : site.Shows q s) (hs : site.Serves t.layout) :
    site.IsAtomic q s t.reset := by
  rw [Task.reset, t.waitingPath_eq, t.runningPath_eq]
  exact h.isAtomic_move hs (t.layout.waitingPlace_ne_running t.key t.key).symm

theorem isAtomic_finish (h : site.Shows q s) (hs : site.Serves t.layout) :
    site.IsAtomic q s t.finish := by
  rw [Task.finish]
  split
  · exact isAtomic_of_stops (((quiet_note _).bind fun _ => quiet_pure _).stops (ofDisk_leaves q)
      h.leaves)
  · refine isAtomic_bind ((quiet_note _).stops (ofDisk_leaves q) h.leaves) ?_
    have hnoted : site.Shows q { s with log := s.log ++ [.deleting t.runningPath t.subject] } :=
      h.congr rfl rfl
    exact hnoted.isAtomic_remove hs (.running t.key)

theorem isAtomic_delete (h : site.Shows q s) (hs : site.Serves t.layout) :
    site.IsAtomic q s t.delete := by
  have hrun := h.run_remove hs (t := t) (t.layout.waitingPlace t.key)
  rw [Task.delete, t.waitingPath_eq]
  by_cases hgone : t.layout.reaches (t.layout.waitingPlace t.key) = true ∧
      q.files (t.layout.waitingPlace t.key) = none
  · have hremove := h.remove_pathOf hs.opens (t.layout.waitingPlace t.key)
    have hskipped : q.remove t.layout (t.layout.waitingPlace t.key) = (.skipped, q) := by
      rw [Queue.remove, if_pos hgone.1, hgone.2]
    rw [if_pos hgone.1, hgone.2] at hremove
    rw [hskipped] at hrun
    refine isAtomic_bind (stops_of_unremoved h.leaves hremove) ?_
    rw [hrun.answer]
    cases t.layout.waitingLayout with
    | flat => exact isAtomic_of_stops ((quiet_pure _).stops (ofDisk_leaves q) hrun.shows.leaves)
    | sharded => exact hrun.shows.isAtomic_remove hs (.flat t.key)
  · have hne : (q.remove t.layout (t.layout.waitingPlace t.key)).1 ≠ .skipped := by
      unfold Queue.remove
      split
      · rename_i hreach
        cases hfile : q.files (t.layout.waitingPlace t.key) with
        | none => exact absurd ⟨hreach, hfile⟩ hgone
        | some u => simp
      · simp
    refine (h.isAtomic_remove hs (t.layout.waitingPlace t.key)).bind_quiet ?_
    rw [hrun.answer]
    generalize (q.remove t.layout (t.layout.waitingPlace t.key)).1 = outcome at hne
    cases outcome with
    | skipped => exact absurd rfl hne
    | applied => cases t.layout.waitingLayout <;> exact quiet_pure _
    | failed => cases t.layout.waitingLayout <;> exact quiet_pure _

/-! ### Queueing -/

variable {key : TaskKey}

/-- No file is made but one of a new name. -/
theorem stops_createNamed (h : site.Shows q s) (ho : site.Opens layout) {p : Path}
    (hp : site.place? layout = some p) (key : TaskKey) (draws : Nat) :
    (Files.createNamed p key.text draws).Stops s (site.Leaves q) := by
  induction draws generalizing s with
  | zero => exact stops_pure h.leaves
  | succ draws ih =>
    have hdrawn : site.Shows q { s with drawn := s.drawn + 1 } := h.congr rfl rfl
    have hmade : ∀ file disk, s.disk.createFile s.cwd
        (p.join (temporaryName key (s.names s.drawn))) = .ok (file, disk) →
        site.Leaves q { s with drawn := s.drawn + 1, disk } := by
      intro file disk hdisk
      rw [(h.leads_place ho hp).createFile_join (isPlain_temporaryName key (s.names s.drawn))
        (by rw [h.get?_state (.inl rfl)]; rfl)] at hdisk
      split at hdisk
      · cases hdisk
      · split at hdisk
        · cases hdisk
        · rename_i hfree
          cases hdisk
          rw [List.append_assoc, h.inside, List.singleton_append, q.get?_building,
            Option.isSome_map, Option.not_isSome_iff_eq_none] at hfree
          rw [List.append_assoc]
          exact ⟨_, q.remains_build hfree [], hdrawn.build _ []⟩
    have hcreate := Plan.stops_createFile (s := { s with drawn := s.drawn + 1 }) hdrawn.leaves hmade
    rw [Files.createNamed]
    refine stops_bind (quiet_drawName.stops (ofDisk_leaves q) h.leaves) ?_
    rw [run_drawName]
    dsimp only
    rw [← temporaryName]
    refine stops_bind hcreate ?_
    cases hanswer : s.disk.createFile s.cwd (p.join (temporaryName key (s.names s.drawn))) with
    | ok made =>
      obtain ⟨file, disk⟩ := made
      rw [run_createFile_ok (s := { s with drawn := s.drawn + 1 }) hanswer]
      exact stops_pure (hmade file disk hanswer)
    | error cause =>
      rw [run_createFile_error (s := { s with drawn := s.drawn + 1 }) hanswer]
      cases cause with
      | alreadyExists => exact ih hdrawn
      | _ => exact stops_pure hdrawn.leaves

/-- A record is written to a file in the making. -/
theorem stops_writeNew (h : site.Shows q s) (ho : site.Opens layout) (key : TaskKey) (u : Update) :
    (Files.writeNew layout.building key.text u.record).Stops s (site.Leaves q) := by
  rw [Files.writeNew]
  refine stops_bind ((Files.quiet_absolute _).stops (ofDisk_leaves q) h.leaves) ?_
  rw [h.run_absolute]
  cases hp : site.place? layout with
  | none => exact stops_pure h.leaves
  | some p =>
    have hnamed := h.stops_createNamed ho hp key Files.maxDraws
    refine stops_bind hnamed ?_
    cases hw : site.writes layout with
    | false =>
      obtain ⟨cause, s', hrun, h'⟩ := h.run_createNamed_long ho hp hw key Files.maxDraws
      rw [hrun]
      exact stops_pure h'.leaves
    | true =>
      rcases h.run_createNamed ho hp hw key Files.maxDraws with
        ⟨part, s', hrun, hfree, h'⟩ | ⟨-, cause, s', hrun, h'⟩
      · rw [hrun]
        have hempty : (q.build (temporaryName key part) (some [])).building
            (temporaryName key part) = some [] := by
          rw [Queue.building_build, if_pos rfl]
        have happended : ∀ bytes : Bytes, site.Leaves q { s' with
            disk := s'.disk.append (site.root ++ ["building", temporaryName key part]) bytes } := by
          intro bytes
          have hshows := h'.append hempty bytes
          rw [Queue.build_build] at hshows
          exact ⟨_, q.remains_build hfree _, hshows⟩
        refine stops_bind (Files.stops_fill fun torn => happended _) ?_
        rw [Files.run_fill]
        exact stops_pure (happended _)
      · rw [hrun]
        exact stops_pure h'.leaves

/-- A complete file is moved to its place by one call. -/
theorem isAtomic_publishFile {temporary : Path} {disk : Disk}
    (hmove : s.disk.rename s.cwd temporary t.waitingPath = .ok disk)
    (hleaves : site.Leaves q s) (hpublished : ∃ q', site.Shows q' { s with disk }) :
    site.IsAtomic q s (t.publishFile temporary) := by
  obtain ⟨q', hq'⟩ := hpublished
  let noted : System := { s with log := s.log ++ [.written temporary t.subject] ++
    [.publishing temporary t.waitingPath t.subject] }
  have hmoved : site.IsAtomic q noted (Files.move temporary t.waitingPath) := by
    refine Site.isAtomic_move (hleaves.congr rfl rfl) fun other hother => ?_
    obtain rfl : disk = other := Except.ok.inj (hmove.symm.trans hother)
    exact ⟨q', hq'.congr rfl rfl⟩
  rw [Task.publishFile]
  refine isAtomic_bind ((quiet_note _).stops (ofDisk_leaves q) hleaves) ?_
  refine isAtomic_bind ((quiet_note _).stops (ofDisk_leaves q) (hleaves.congr rfl rfl)) ?_
  refine hmoved.bind_quiet ?_
  rw [Files.move_moved (s := noted) hmove]
  exact quiet_pure _

theorem isAtomic_publish (h : site.Shows q s) (hs : site.Serves t.layout) (u : Update) :
    site.IsAtomic q s (t.publish u) := by
  have hbuilding : (Files.ensureDirectory t.layout.building).run s = (.ok (), s) :=
    h.ensureDirectory_state hs (.inl rfl)
  have hparent := h.ensureParent_pathOf hs (t.layout.waitingPlace t.key)
  rw [Task.publish]
  refine isAtomic_bind (h.stops_ensureDirectory_state hs (.inl rfl)) ?_
  rw [hbuilding, t.waitingPath_eq]
  refine isAtomic_bind (h.stops_ensureParent hs _) ?_
  rcases q.provision_cases t.layout (t.layout.waitingPlace t.key) with
    hnone | ⟨q', hsome, hhouses, -, -⟩
  · rw [hnone] at hparent
    obtain ⟨error, herror⟩ := hparent
    rw [herror]
    exact isAtomic_of_stops (stops_pure h.leaves)
  · rw [hsome] at hparent
    obtain ⟨disk, hrun, h'⟩ := hparent
    rw [hrun]
    refine isAtomic_bind ((h'.stops_writeNew hs.opens t.key u).mono fun _ hleft =>
      hleft.of_provision hsome) ?_
    rcases h'.run_writeNew hs.opens t.key u with
      ⟨p, part, s', hp, hw, hwrite, hfree, hbuilt⟩ | ⟨-, error, s', hwrite, hfailed⟩
    · rw [hwrite]
      have hrecord : (q'.build (temporaryName t.key part) (some u.record)).building
          (temporaryName t.key part) = some u.record := by
        rw [Queue.building_build, if_pos rfl]
      have hmove := hbuilt.rename_temporary hs.opens hp hw hhouses hrecord
      rw [← t.waitingPath_eq] at hmove
      exact isAtomic_publishFile hmove
        (Leaves.of_provision ⟨_, q'.remains_build hfree _, hbuilt⟩ hsome)
        ⟨_, hbuilt.publish hrecord hhouses⟩
    · rw [hwrite]
      exact isAtomic_of_stops (stops_pure (hfailed.leaves.of_provision hsome))

theorem isAtomic_create (h : site.Shows q s) (hs : site.Serves t.layout) :
    site.IsAtomic q s t.create := by
  rw [Task.create]
  refine isAtomic_bind (t.quiet_isWaiting.stops (ofDisk_leaves q) h.leaves) ?_
  rw [h.run_isWaiting hs]
  cases q.isWaiting t.layout t.key with
  | true =>
    exact isAtomic_of_stops ((quiet_note _).stops (ofDisk_leaves q) h.leaves)
  | false =>
    simp only [Bool.false_eq_true, ↓reduceIte]
    split
    · exact isAtomic_of_stops ((quiet_note _).stops (ofDisk_leaves q) h.leaves)
    · refine (h.isAtomic_publish hs _).bind_quiet ?_
      split
      · exact quiet_pure _
      · exact quiet_note _

end Shows

end Site

end ReplicationQueue
