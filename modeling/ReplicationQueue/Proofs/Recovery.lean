import ReplicationQueue.Proofs.Provision

/-! Giving back what runs, in any tree without links. Each file of the running directory whose name
is a key is moved to where the key waits, or stays where it is; no other file changes but one that
waited in that place. -/

namespace ReplicationQueue

attribute [local irreducible] Path.isTooLong

open Plan

theorem StoreError.isNotFound_rename (source target : Path) {cause : Cause}
    (h : cause ≠ .notFound) : (StoreError.rename source target cause).isNotFound = false := by
  simp [isNotFound, cause?, h]

namespace Layout

/-- The running files of `keys` were moved to where the keys wait, in place of leaves at most. Apart
from that only directories were made. -/
structure Recovers (layout : Layout) (root : Location) (keys : List TaskKey) (d d' : Disk) :
    Prop where
  moved : ∀ key ∈ keys, ∃ bytes, d.get? (root ++ (Place.running key).names) = some (.file bytes) ∧
    d'.get? (root ++ (layout.waitingPlace key).names) = some (.file bytes)
  gone : ∀ key ∈ keys, d'.get? (root ++ (Place.running key).names) = none
  reached : ∀ key ∈ keys, layout.reaches (layout.waitingPlace key) = true
  replaced : ∀ key ∈ keys, ∀ e, d.get? (root ++ (layout.waitingPlace key).names) = some e →
    e.isLeaf
  kept : ∀ l, (∀ key ∈ keys, l ≠ root ++ (Place.running key).names ∧
    l ≠ root ++ (layout.waitingPlace key).names) → d.KeptOrMade d' (root ++ ["waiting"]) l

variable {layout : Layout} {root cwd : Location} {d d' d'' : Disk} {keys : List TaskKey}

theorem running_ne_waiting (layout : Layout) (root : Location) (key : TaskKey) :
    root ++ (Place.running key).names ≠ root ++ (layout.waitingPlace key).names := fun heq =>
  layout.waitingPlace_ne_running key key (Place.names_inj.1 (List.append_cancel_left heq)).symm

theorem Grows.recovers (h : layout.Grows root cwd d d') : layout.Recovers root [] d d' where
  moved := by simp
  gone := by simp
  reached := by simp
  replaced := by simp
  kept l _ := h.grown l

namespace Recovers

theorem kept_place (h : layout.Recovers root keys d d') {pl : Place} (hpl : pl.key ∉ keys) :
    d.KeptOrMade d' (root ++ ["waiting"]) (root ++ pl.names) := by
  refine h.kept _ fun key hkey => ⟨fun heq => hpl ?_, fun heq => hpl ?_⟩
  · rw [Place.names_inj.1 (List.append_cancel_left heq)]
    exact hkey
  · rw [Place.names_inj.1 (List.append_cancel_left heq), layout.key_waitingPlace]
    exact hkey

/-- Of the running files only those of the keys are gone. -/
theorem get?_name (h : layout.Recovers root keys d d') {n : String}
    (hn : ∀ key ∈ keys, key.text ≠ n) :
    d'.get? (root ++ ["running", n]) = d.get? (root ++ ["running", n]) := by
  refine (h.kept _ fun key hkey => ⟨fun heq => ?_, fun heq => ?_⟩).of_not_below fun hbelow => ?_
  · have hnames : ["running", n] = ["running", key.text] := List.append_cancel_left heq
    simp only [List.cons.injEq, and_true, true_and] at hnames
    exact hn key hkey hnames.symm
  · have hwaits : ["waiting"] <+: (layout.waitingPlace key).names :=
      Place.waits_iff.2 (layout.waitingPlace_ne_running key _)
    rw [← List.append_cancel_left heq] at hwaits
    simp at hwaits
  · rw [List.prefix_append_right_inj] at hbelow
    simp at hbelow

theorem get?_running (h : layout.Recovers root keys d d') {key : TaskKey} (hkey : key ∉ keys) :
    d'.get? (root ++ (Place.running key).names) = d.get? (root ++ (Place.running key).names) :=
  h.get?_name fun other hother heq => by
    obtain rfl : other = key := TaskKey.ext heq
    exact hkey hother

theorem kept_waiting (h : layout.Recovers root keys d d') {key : TaskKey} (hkey : key ∉ keys) :
    d.KeptOrMade d' (root ++ ["waiting"]) (root ++ (layout.waitingPlace key).names) :=
  h.kept_place (by rwa [layout.key_waitingPlace])

theorem trans {before after : List TaskKey} (h : layout.Recovers root before d d')
    (h' : layout.Recovers root after d' d'') (hapart : ∀ key ∈ before, key ∉ after) :
    layout.Recovers root (before ++ after) d d'' where
  moved key hkey := by
    rcases List.mem_append.1 hkey with hkey | hkey
    · obtain ⟨bytes, hrunning, hwaiting⟩ := h.moved key hkey
      exact ⟨bytes, hrunning, (h'.kept_waiting (hapart key hkey)).of_some hwaiting⟩
    · obtain ⟨bytes, hrunning, hwaiting⟩ := h'.moved key hkey
      rw [h.get?_running fun hbefore => hapart key hbefore hkey] at hrunning
      exact ⟨bytes, hrunning, hwaiting⟩
  gone key hkey := by
    rcases List.mem_append.1 hkey with hkey | hkey
    · rw [h'.get?_running (hapart key hkey)]
      exact h.gone key hkey
    · exact h'.gone key hkey
  reached key hkey := (List.mem_append.1 hkey).elim (h.reached key) (h'.reached key)
  replaced key hkey e he := by
    rcases List.mem_append.1 hkey with hkey | hkey
    · exact h.replaced key hkey e he
    · have hkept := h.kept_waiting fun hbefore => hapart key hbefore hkey
      exact h'.replaced key hkey e (hkept.of_some he)
  kept l hl := (h.kept l fun key hkey => hl key (List.mem_append_left _ hkey)).trans
    (h'.kept l fun key hkey => hl key (List.mem_append_right _ hkey))

end Recovers

/-! ### One file -/

/-- A running file was moved to a place that held no directory. -/
theorem Stands.recovers_moved (h : layout.Stands root cwd d) {key : TaskKey} {bytes : Bytes}
    (hfile : d.get? (root ++ (Place.running key).names) = some (.file bytes))
    (hreach : layout.reaches (layout.waitingPlace key) = true)
    (hopen : (d.get? (root ++ (layout.waitingPlace key).directory)).any Entry.isOpen)
    (hfree : ∀ e, d.get? (root ++ (layout.waitingPlace key).names) = some e →
      e.isDirectory = false)
    (hget : ∀ l, d'.get? l = if l = root ++ (layout.waitingPlace key).names then some (.file bytes)
      else if l = root ++ (Place.running key).names then none else d.get? l) :
    layout.Stands root cwd d' ∧ layout.Recovers root [key] d d' := by
  have hnames : root ++ (layout.waitingPlace key).names =
      root ++ (layout.waitingPlace key).directory ++ [(layout.waitingPlace key).key.text] := by
    rw [Place.names, List.append_assoc]
  have hne := layout.running_ne_waiting root key
  have htree : d'.IsLinkless := by
    rw [hnames] at hfree hget
    refine h.tree.change (TaskKey.isPlain_text _) hopen hfree (.inr ⟨bytes, rfl⟩)
      (by rw [hget, if_pos rfl]) fun k hk => ?_
    rw [hget, if_neg hk]
    split
    · rename_i hsource
      exact .inr ⟨rfl, _, hsource ▸ hfile, rfl⟩
    · exact .inl rfl
  have hkept : Disk.KeepsDirectories d d' := by
    intro k e he hdir
    rw [hget, if_neg, if_neg, he]
    · rintro rfl
      rw [hfile] at he
      cases he
      cases hdir
    · rintro rfl
      rw [hfree e he] at hdir
      cases hdir
  refine ⟨h.kept htree hkept, ?_⟩
  constructor
  case moved => simp [hget, hfile]
  case gone => simp only [List.mem_singleton, forall_eq, hget, if_neg hne, if_pos]
  case reached => simpa using hreach
  case replaced =>
    intro other hother e he
    rw [List.mem_singleton.1 hother] at he
    exact h.tree.isLeaf he (hfree e he)
  case kept =>
    intro l hl
    obtain ⟨hsource, htarget⟩ := hl key (by simp)
    exact .inl (by rw [hget, if_neg htarget, if_neg hsource])

/-- A directory that waiting files can be moved to takes new entries. -/
theorem Stands.isOpen_waiting (h : layout.Stands root cwd d) (key : TaskKey)
    (hdir : (d.get? (root ++ (layout.waitingPlace key).directory)).any Entry.isDirectory)
    (hvolume : d.volume (root ++ ["running"]) =
      d.volume (root ++ (layout.waitingPlace key).directory)) :
    (d.get? (root ++ (layout.waitingPlace key).directory)).any Entry.isOpen := by
  unfold waitingPlace at hdir hvolume ⊢
  cases hlayout : layout.waitingLayout with
  | flat =>
    rw [hlayout] at hdir hvolume
    refine h.tree.isOpen_of_volume (by decide) hdir (fun hbelow => ?_) hvolume
    simp at hbelow
  | sharded =>
    rw [hlayout] at hdir hvolume
    have hnames : root ++ (WaitingLayout.sharded.place key).directory =
        root ++ ["waiting"] ++ [key.shard] := by
      rw [List.append_assoc]
      rfl
    rw [hnames] at hdir hvolume ⊢
    have hne : key.shard ≠ "" := by simpa using key.isPlain_shard.ne_nil
    exact h.tree.isOpen_of_volume hne hdir (by simp) hvolume

/-- A running file is moved to where its key waits, or the move is refused; the file is there. -/
theorem Stands.rename_running (h : layout.Stands root cwd d) {key : TaskKey} {bytes : Bytes}
    (hfile : d.get? (root ++ (Place.running key).names) = some (.file bytes))
    (hdir : (d.get? (root ++ (layout.waitingPlace key).directory)).any Entry.isDirectory) :
    (∃ cause, d.rename cwd (layout.runningPath key) (layout.waitingPath key) = .error cause ∧
        cause ≠ .notFound) ∨
      ∃ d', d.rename cwd (layout.runningPath key) (layout.waitingPath key) = .ok d' ∧
        layout.Stands root cwd d' ∧ layout.Recovers root [key] d d' := by
  have hnames : ∀ pl : Place, root ++ pl.directory ++ [pl.key.text] = root ++ pl.names :=
    fun pl => List.append_assoc ..
  have hsource : d.Leads cwd (layout.directoryOf (.running key))
      (root ++ (Place.running key).directory) := h.leads_directory h.running
  have hne := layout.running_ne_waiting root key
  have hshort : (layout.pathOf (.running key)).isTooLong = false := by
    simpa [Layout.reaches] using h.reaches key
  rw [← layout.pathOf_running, ← layout.pathOf_waitingPlace]
  rw [← hnames] at hfile
  rw [← hnames, ← hnames] at hne
  rcases hsource.rename_file (h.leads_directory hdir) (TaskKey.isPlain_text _)
    (TaskKey.isPlain_text _) hfile hshort hne (h.isOpen_waiting key hdir) with
    ⟨cause, hrename, hcause⟩ | ⟨hrename, hreach, hopen, hfree⟩
  · exact .inl ⟨cause, hrename, hcause⟩
  · rw [hnames, hnames] at hrename
    rw [hnames] at hfile hfree
    have hleaf : ∀ n rest,
        d.get? (root ++ (layout.waitingPlace key).names ++ n :: rest) = none := by
      intro n rest
      cases he : d.get? (root ++ (layout.waitingPlace key).names) with
      | none => exact h.tree.get?_below he _
      | some e => exact h.tree.get?_below_leaf he (hfree e he) n rest
    have hget := Disk.get?_moveTree hfile (h.tree.get?_below_leaf hfile rfl) hleaf
    have hreached : layout.reaches (layout.waitingPlace key) = true := by
      rw [Layout.reaches, Bool.not_eq_true']
      exact hreach
    exact .inr ⟨_, hrename, h.recovers_moved hfile hreached hopen hfree hget⟩

/-- A running task is given back, or the attempt fails. -/
theorem Stands.run_reset {s : System} (h : layout.Stands root s.cwd s.disk) {key : TaskKey}
    {bytes : Bytes} (hfile : s.disk.get? (root ++ (Place.running key).names) = some (.file bytes)) :
    ∃ outcome s', (Task.mk layout (.key key) false).reset.run s = (outcome, s') ∧
      s'.cwd = s.cwd ∧ layout.Stands root s'.cwd s'.disk ∧
      (outcome = .failed ∧ layout.Recovers root [] s.disk s'.disk ∨
        outcome = .applied ∧ layout.Recovers root [key] s.disk s'.disk) := by
  obtain ⟨r, d, hrun, hgrows, hr⟩ := h.run_ensureParent key
  rw [Task.reset, Task.move, run_bind]
  rw [show (Task.mk layout (.key key) false).waitingPath = layout.waitingPath key from rfl,
    show (Task.mk layout (.key key) false).runningPath = layout.runningPath key from rfl, hrun]
  cases r with
  | error error => exact ⟨_, _, rfl, rfl, hgrows.stands, .inl ⟨rfl, hgrows.recovers⟩⟩
  | ok _ =>
    simp only [run_bind, run_note]
    rcases hgrows.stands.rename_running ((hgrows.grown _).of_some hfile) (hr rfl) with
      ⟨cause, hrename, hcause⟩ | ⟨d', hrename, hstands, hrecovers⟩
    · have hmove := Files.move_refused (s := { s with
        disk := d, log := s.log ++ [.moving (layout.runningPath key) (layout.waitingPath key)
          (.key key)] }) hrename
      rw [hmove]
      simp only [StoreError.isNotFound_rename _ _ hcause]
      exact ⟨_, _, rfl, rfl, hgrows.stands, .inl ⟨rfl, hgrows.recovers⟩⟩
    · have hmove := Files.move_moved (s := { s with
        disk := d, log := s.log ++ [.moving (layout.runningPath key) (layout.waitingPath key)
          (.key key)] }) hrename
      rw [hmove]
      exact ⟨_, _, rfl, rfl, hstands, .inr ⟨rfl, hgrows.recovers.trans hrecovers (by simp)⟩⟩

/-! ### The running files -/

/-- The name of an entry right below the running directory whose path is short enough. -/
def nameRunning? (layout : Layout) : Location × Entry → Option String
  | ([n], _) => if (layout.running.join n).isTooLong then none else some n
  | _ => none

/-- The names below the running directory, in order, of what is read in a listing. -/
def namesRunning (layout : Layout) (root : Location) (d : Disk) : List String :=
  (d.subtree (root ++ ["running"])).filterMap layout.nameRunning?

theorem nameRunning?_eq_some_iff {p : Location × Entry} {n : String} :
    layout.nameRunning? p = some n ↔ p.1 = [n] ∧ (layout.running.join n).isTooLong = false := by
  unfold nameRunning?
  constructor
  · intro h
    split at h
    · split at h
      · cases h
      · rename_i hlong
        cases h
        exact ⟨rfl, by simpa using hlong⟩
    · cases h
  · obtain ⟨names, e⟩ := p
    rintro ⟨rfl, hlong⟩
    simp only [hlong]
    rfl

theorem mem_namesRunning {n : String} :
    n ∈ layout.namesRunning root d ↔
      (d.get? (root ++ ["running", n])).isSome ∧ (layout.running.join n).isTooLong = false := by
  unfold namesRunning
  rw [List.mem_filterMap]
  constructor
  · rintro ⟨⟨names, e⟩, hmem, hname⟩
    obtain ⟨rfl, hshort⟩ := nameRunning?_eq_some_iff.1 hname
    rw [Disk.mem_subtree, List.append_assoc] at hmem
    exact ⟨Option.isSome_iff_exists.2 ⟨e, hmem⟩, hshort⟩
  · rintro ⟨hsome, hshort⟩
    obtain ⟨e, he⟩ := Option.isSome_iff_exists.1 hsome
    refine ⟨([n], e), ?_, nameRunning?_eq_some_iff.2 ⟨rfl, hshort⟩⟩
    rw [Disk.mem_subtree, List.append_assoc]
    exact he

theorem nodup_namesRunning : (layout.namesRunning root d).Nodup := by
  refine (Disk.sorted_subtree d (root ++ ["running"])).filterMap _ ?_
  rintro a b hlt n hn m hm rfl
  rw [(nameRunning?_eq_some_iff.1 hn).1, (nameRunning?_eq_some_iff.1 hm).1] at hlt
  exact List.lt_irrefl _ hlt

/-- A listing of the running directory reads its files, if it holds nothing else. -/
theorem Stands.run_list_running {s : System} (h : layout.Stands root s.cwd s.disk)
    (hfiles : ∀ n e, s.disk.get? (root ++ ["running", n]) = some e → ∃ bytes, e = .file bytes) :
    ∃ files log, (Files.list layout.running).run s = (files, { s with log }) ∧
      files.map (·.1) = (layout.namesRunning root s.disk).map layout.running.join := by
  obtain ⟨e, he, hdir⟩ := (Option.any_eq_true ..).1 h.running
  have hrunning : IsState "running" := .inr (.inl rfl)
  have hleads := h.leads_state hrunning h.running
  have hwalk : (s.disk.walk s.cwd layout.running).files = _ :=
    h.leads.files_walk_join hrunning.isPlain he hdir (h.state_fits hrunning)
      (h.tree.isTreeBelow _)
  refine ⟨_, _, Files.run_list layout.running s, ?_⟩
  rw [hwalk]
  unfold Disk.walkedBelow namesRunning
  rw [List.filterMap_map, List.filterMap_filterMap, List.map_filterMap, List.map_filterMap]
  refine List.filterMap_congr fun ⟨names, x⟩ hmem => ?_
  rw [Disk.mem_subtree] at hmem
  match names with
  | [] =>
    rw [Disk.walkedFile?_nil]
    rfl
  | [n] =>
    obtain ⟨bytes, rfl⟩ := hfiles n x (by rwa [List.append_assoc] at hmem)
    have hcontents : s.disk.contents s.cwd (layout.running.join n) =
        if (layout.running.join n).isTooLong then .error .nameTooLong else .ok bytes :=
      hleads.contents_join (h.tree.isPlain_of_file hmem) hmem
    have hdirectory : layout.running.isTooLong = false := h.state_fits hrunning
    have hwalked : Disk.walkedFile? layout.running ([n], .file bytes) = some ([n], bytes) :=
      if_neg (by simp [hdirectory, Path.below_nil])
    show Option.map (·.1) ((Disk.walkedFile? layout.running ([n], .file bytes)).bind fun file =>
        s.disk.readable? s.cwd (layout.running.below file.1)) =
      Option.map layout.running.join (if (layout.running.join n).isTooLong then none else some n)
    rw [hwalked, Option.bind_some, Path.below_cons, Path.below_nil, Disk.readable?, hcontents]
    cases (layout.running.join n).isTooLong <;> rfl
  | n :: m :: rest =>
    have hbelow : s.disk.get? (root ++ ["running"] ++ [n] ++ m :: rest) = some x := by
      rw [List.append_assoc]
      exact hmem
    obtain ⟨e, he, hdir⟩ :=
      (Option.any_eq_true ..).1 (h.tree.isDirectory_of_below (by simp) hbelow)
    rw [List.append_assoc] at he
    obtain ⟨bytes, rfl⟩ := hfiles n e he
    cases hdir

/-! ### All running files -/

/-- Files of the running directory are given back one after the other, if their names are keys. -/
theorem Stands.run_resetFiles {store : Store} {s : System}
    (h : store.layout.Stands root s.cwd s.disk) (names : List String)
    (hplain : ∀ n ∈ names, IsPlain n) (hnodup : names.Nodup)
    (hfiles : ∀ n ∈ names, ∃ bytes, s.disk.get? (root ++ ["running", n]) = some (.file bytes))
    (summary : Summary) :
    ∃ applied failed s', (store.resetFiles (names.map store.layout.running.join) summary).run s =
        (⟨summary.applied + applied.length, summary.skipped, summary.failed + failed.length⟩, s') ∧
      s'.cwd = s.cwd ∧ store.layout.Stands root s'.cwd s'.disk ∧
      store.layout.Recovers root applied s.disk s'.disk ∧
      (applied ++ failed).Perm (names.filterMap TaskKey.parse?) := by
  induction names generalizing s summary with
  | nil => exact ⟨[], [], s, rfl, rfl, h, h.grows.recovers, .nil⟩
  | cons n rest ih =>
    obtain ⟨hn, hrest⟩ := List.nodup_cons.1 hnodup
    have hname : (store.layout.running.join n).fileName? = some n :=
      Path.fileName?_join _ (hplain n (by simp))
    rw [List.map_cons, Store.resetFiles, hname, Option.bind_some]
    cases hparse : TaskKey.parse? n with
    | none =>
      rw [List.filterMap_cons_none hparse]
      exact ih (s := { s with log := s.log ++ [.foreignFile _] }) h
        (fun m hm => hplain m (by simp [hm])) hrest (fun m hm => hfiles m (by simp [hm])) summary
    | some key =>
      rw [List.filterMap_cons_some hparse]
      obtain rfl : key.text = n := TaskKey.parse?_eq_some_iff.1 hparse
      obtain ⟨bytes, hfile⟩ := hfiles key.text (by simp)
      have hother : key ∉ rest.filterMap TaskKey.parse? := by
        intro hmem
        obtain ⟨m, hm, hkey⟩ := List.mem_filterMap.1 hmem
        exact hn (TaskKey.parse?_eq_some_iff.1 hkey ▸ hm)
      obtain ⟨outcome, s₁, hrun, hcwd, hstands, hstep⟩ := h.run_reset hfile
      simp only [run_bind, hrun]
      rw [← hcwd]
      rcases hstep with ⟨rfl, hrecovers⟩ | ⟨rfl, hrecovers⟩
      · obtain ⟨applied, failed, s₂, hrun, hcwd, hstands, hmore, hperm⟩ := ih hstands
          (fun m hm => hplain m (by simp [hm])) hrest
          (fun m hm => by
            rw [hrecovers.get?_name (by simp)]
            exact hfiles m (by simp [hm]))
          (summary.record .failed)
        refine ⟨applied, key :: failed, s₂, ?_, hcwd, hstands,
          hrecovers.trans hmore (by simp), List.perm_middle.trans (hperm.cons key)⟩
        have hcount : (summary.record .failed).failed + failed.length =
            summary.failed + (key :: failed).length := Nat.add_right_comm ..
        rw [hrun, hcount]
        rfl
      · obtain ⟨applied, failed, s₂, hrun, hcwd, hstands, hmore, hperm⟩ := ih hstands
          (fun m hm => hplain m (by simp [hm])) hrest
          (fun m hm => by
            have hne : key.text ≠ m := fun heq => hn (heq ▸ hm)
            rw [hrecovers.get?_name (by simpa using hne)]
            exact hfiles m (by simp [hm]))
          (summary.record .applied)
        refine ⟨key :: applied, failed, s₂, ?_, hcwd, hstands,
          hrecovers.trans hmore fun other hkey hmem => ?_, hperm.cons key⟩
        · have hcount : (summary.record .applied).applied + applied.length =
              summary.applied + (key :: applied).length := Nat.add_right_comm ..
          rw [hrun, hcount]
          rfl
        · rw [List.mem_singleton.1 hkey] at hmem
          exact hother (hperm.subset (List.mem_append_left _ hmem))

/-- The keys of the running files are the names that are keys. -/
theorem Stands.mem_keysRunning (h : layout.Stands root cwd d) {key : TaskKey} :
    key ∈ (layout.namesRunning root d).filterMap TaskKey.parse? ↔
      (d.get? (root ++ (Place.running key).names)).isSome := by
  have hreach := h.reaches key
  rw [Layout.reaches, Bool.not_eq_true'] at hreach
  rw [List.mem_filterMap]
  constructor
  · rintro ⟨n, hn, hkey⟩
    obtain rfl := TaskKey.parse?_eq_some_iff.1 hkey
    exact (mem_namesRunning.1 hn).1
  · intro hsome
    exact ⟨key.text, mem_namesRunning.2 ⟨hsome, hreach⟩, TaskKey.parse?_text key⟩

theorem nodup_keysRunning :
    ((layout.namesRunning root d).filterMap TaskKey.parse?).Nodup := by
  refine nodup_namesRunning.filterMap fun n m key hn hm => ?_
  rw [← TaskKey.parse?_eq_some_iff.1 hn, ← TaskKey.parse?_eq_some_iff.1 hm]

/-- Where the running directory holds nothing but files, each that has the name of a key is given
back, or fails to be. -/
theorem Stands.run_resetAll {store : Store} {s : System}
    (h : store.layout.Stands root s.cwd s.disk)
    (hfiles : ∀ n e, s.disk.get? (root ++ ["running", n]) = some e → ∃ bytes, e = .file bytes) :
    ∃ applied failed s', store.resetAll.run s = (⟨applied.length, 0, failed.length⟩, s') ∧
      s'.cwd = s.cwd ∧ store.layout.Stands root s'.cwd s'.disk ∧
      store.layout.Recovers root applied s.disk s'.disk ∧
      (applied ++ failed).Perm
        ((store.layout.namesRunning root s.disk).filterMap TaskKey.parse?) := by
  obtain ⟨files, log, hlist, hpaths⟩ := h.run_list_running hfiles
  have hnames : ∀ n ∈ store.layout.namesRunning root s.disk,
      ∃ bytes, s.disk.get? (root ++ ["running", n]) = some (.file bytes) := by
    intro n hn
    obtain ⟨e, he⟩ := Option.isSome_iff_exists.1 (mem_namesRunning.1 hn).1
    obtain ⟨bytes, rfl⟩ := hfiles n e he
    exact ⟨bytes, he⟩
  have hplain : ∀ n ∈ store.layout.namesRunning root s.disk, IsPlain n := by
    intro n hn
    obtain ⟨bytes, hfile⟩ := hnames n hn
    rw [List.append_cons root "running" [n]] at hfile
    exact h.tree.isPlain_of_file hfile
  obtain ⟨applied, failed, s', hrun, hcwd, hstands, hrecovers, hperm⟩ :=
    Stands.run_resetFiles (s := { s with log }) h _ hplain nodup_namesRunning hnames .empty
  have hsummary : (⟨Summary.empty.applied + applied.length, Summary.empty.skipped,
      Summary.empty.failed + failed.length⟩ : Summary) = ⟨applied.length, 0, failed.length⟩ := by
    simp [Summary.empty]
  rw [hsummary] at hrun
  rw [Store.resetAll, run_bind, hlist]
  simp only [run_bind, hpaths, hrun]
  split
  · exact ⟨applied, failed, _, rfl, hcwd, hstands, hrecovers, hperm⟩
  · exact ⟨applied, failed, _, rfl, hcwd, hstands, hrecovers, hperm⟩

end Layout

end ReplicationQueue
