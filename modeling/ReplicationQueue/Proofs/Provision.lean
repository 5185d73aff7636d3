import ReplicationQueue.Proofs.Store
import ReplicationQueue.Proofs.Tree

/-! A queue's directories in any tree without links. Making the directories that a key waits in
succeeds or fails, as the tree has it, and changes nothing else in it. -/

namespace ReplicationQueue

attribute [local irreducible] Path.isTooLong

open Plan

/-! ### Making a directory in one that is there -/

namespace Files

theorem run_ensureWithin_join (depth : Nat) {s : System} {p : Path} {l : Location} {n : String}
    (hd : s.disk.IsLinkless) (hleads : s.disk.Leads s.cwd p l) (hn : IsPlain n)
    (hparent : (p.join n).parent? = some p)
    (hthere : s.disk.makeDirectory s.cwd p = .error .alreadyExists)
    (hdir : s.disk.isDirectory s.cwd p = true) :
    ∃ r d, (ensureWithin (depth + 2) (p.join n)).run s = (r, { s with disk := d }) ∧
      (d = s.disk ∧ (r = .ok () → (s.disk.get? (l ++ [n])).any Entry.isDirectory) ∨
        s.disk.get? (l ++ [n]) = none ∧ (s.disk.get? l).any Entry.isOpen ∧ r = .ok () ∧
          d = s.disk.put (l ++ [n]) .directory) := by
  have hpath := Path.text_join_ne_empty p hn
  have hisdir := hleads.isDirectory_join hn (hd.linkless _)
  -- A refusal changes nothing, and the answer tells whether a directory is there.
  have refused : ∀ cause, s.disk.makeDirectory s.cwd (p.join n) = .error cause →
      cause ≠ .notFound →
      ∃ r, (ensureWithin (depth + 2) (p.join n)).run s = (r, s) ∧
        (r = .ok () → (s.disk.get? (l ++ [n])).any Entry.isDirectory) := by
    intro cause hmake hcause
    refine ⟨_, ensureWithin_refused (depth + 1) hpath hmake hcause, fun hok => ?_⟩
    split at hok
    · rename_i hyes
      rw [hisdir, Bool.and_eq_true] at hyes
      exact hyes.2
    · cases hok
  by_cases hlong : (p.join n).isTooLong = true
  · obtain ⟨r, hrun, hr⟩ := refused .nameTooLong
      (s.disk.makeDirectory_long s.cwd (Path.null_mem_join hn hleads.noNull) hlong) (by simp)
    exact ⟨r, s.disk, hrun, .inl ⟨rfl, hr⟩⟩
  cases he : s.disk.get? (l ++ [n]) with
  | some e =>
    have hmake : s.disk.makeDirectory s.cwd (p.join n) = .error .alreadyExists := by
      cases hopen : (s.disk.get? l).any Entry.isOpen with
      | true => rw [hleads.makeDirectory_join hn hopen, if_neg hlong, he]; rfl
      | false => rw [hleads.makeDirectory_join_closed hn hopen, if_neg hlong, he]; rfl
    obtain ⟨r, hrun, hr⟩ := refused _ hmake (by simp)
    rw [he] at hr
    exact ⟨r, s.disk, hrun, .inl ⟨rfl, hr⟩⟩
  | none =>
    cases hopen : (s.disk.get? l).any Entry.isOpen with
    | true =>
      have hmake := hleads.makeDirectory_join hn hopen
      rw [if_neg hlong, he] at hmake
      exact ⟨_, _, ensureWithin_made (depth + 1) hpath hmake, .inr ⟨rfl, rfl, rfl, rfl⟩⟩
    | false =>
      have hmake := hleads.makeDirectory_join_closed hn hopen
      rw [if_neg hlong, he] at hmake
      have hagain := ensureWithin_refused depth hleads.ne_empty hthere (by simp)
      rw [hdir] at hagain
      refine ⟨_, s.disk, ensureWithin_refused_again hpath hmake hparent hagain hmake,
        .inl ⟨rfl, fun hok => ?_⟩⟩
      rw [hisdir, he, Option.any_none, Bool.and_false] at hok
      cases hok

theorem run_ensureDirectory {s s' : System} {path : Path} {r : Except Cause Unit}
    (hrun : (ensureWithin (path.text.length + 2) path).run s = (r, s')) :
    ∃ r', (ensureDirectory path).run s = (r', s') ∧ (r' = .ok () → r = .ok ()) := by
  rw [ensureDirectory, run_bind, hrun]
  cases r with
  | ok _ => exact ⟨_, rfl, fun _ => rfl⟩
  | error cause => exact ⟨_, rfl, by simp⟩

end Files

/-! ### A queue in a tree -/

/-- What was at a location is there, or a directory was made where nothing was, below `base`. -/
def Disk.KeptOrMade (d d' : Disk) (base l : Location) : Prop :=
  d'.get? l = d.get? l ∨ d.get? l = none ∧ d'.get? l = some .directory ∧ base <+: l

namespace Disk.KeptOrMade

variable {d d' d'' : Disk} {base l : Location}

theorem trans (h : d.KeptOrMade d' base l) (h' : d'.KeptOrMade d'' base l) :
    d.KeptOrMade d'' base l := by
  rcases h' with heq | ⟨hnone, hmade, hbelow⟩
  · unfold KeptOrMade
    rw [heq]
    exact h
  · rcases h with heq | ⟨-, hdir, -⟩
    · exact .inr ⟨heq ▸ hnone, hmade, hbelow⟩
    · rw [hnone] at hdir
      cases hdir

theorem of_some (h : d.KeptOrMade d' base l) {e : Entry} (he : d.get? l = some e) :
    d'.get? l = some e := by
  rcases h with heq | ⟨hnone, -, -⟩
  · rw [heq, he]
  · rw [hnone] at he
    cases he

theorem of_not_below (h : d.KeptOrMade d' base l) (hl : ¬base <+: l) : d'.get? l = d.get? l := by
  rcases h with heq | ⟨-, -, hbelow⟩
  · exact heq
  · exact absurd hbelow hl

end Disk.KeptOrMade

/-- The path of the queue's directory leads to `root` in a tree without links, and tasks can run
there. -/
structure Layout.Stands (layout : Layout) (root cwd : Location) (d : Disk) : Prop where
  tree : d.IsLinkless
  located : d.locate cwd layout.refUpdates = .ok root
  running : (d.get? (root ++ ["running"])).any Entry.isDirectory
  reaches : ∀ key, layout.reaches (.running key) = true

/-- Directories were made below the waiting directory, and nothing else. -/
structure Layout.Grows (layout : Layout) (root cwd : Location) (d d' : Disk) : Prop where
  stands : layout.Stands root cwd d'
  grown : ∀ l, d.KeptOrMade d' (root ++ ["waiting"]) l

namespace Layout

variable {layout : Layout} {root cwd : Location} {d d' : Disk}

theorem Stands.grows (h : layout.Stands root cwd d) : layout.Grows root cwd d d :=
  ⟨h, fun _ => .inl rfl⟩

namespace Stands

theorem isDirectory_root (h : layout.Stands root cwd d) : (d.get? root).any Entry.isDirectory := by
  obtain ⟨e, he, -⟩ := (Option.any_eq_true ..).1 h.running
  exact h.tree.isDirectory_of_below (by simp) he

theorem leads (h : layout.Stands root cwd d) : d.Leads cwd layout.refUpdates root :=
  Disk.leads_of_locate h.located h.isDirectory_root

theorem state_fits (h : layout.Stands root cwd d) {state : String} (hs : IsState state) :
    (layout.refUpdates.join state).isTooLong = false := by
  have hreach := h.reaches (.derive ⟨"", "", "", ""⟩)
  have hsize : state.utf8ByteSize ≤ 8 := by
    rcases hs with rfl | rfl | rfl <;> decide
  unfold Layout.reaches Path.isTooLong at hreach
  rw [utf8ByteSize_pathOf_running, Bool.not_eq_true', decide_eq_false_iff_not] at hreach
  unfold Path.isTooLong
  rw [layout.utf8ByteSize_state hs, decide_eq_false_iff_not]
  omega

theorem leads_state (h : layout.Stands root cwd d) {state : String} (hs : IsState state)
    (hdir : (d.get? (root ++ [state])).any Entry.isDirectory) :
    d.Leads cwd (layout.refUpdates.join state) (root ++ [state]) := by
  obtain ⟨e, he, hdir⟩ := (Option.any_eq_true ..).1 hdir
  exact h.leads.join hs.isPlain he hdir

theorem locate_state (h : layout.Stands root cwd d) {state : String} (hs : IsState state)
    (hdir : (d.get? (root ++ [state])).any Entry.isDirectory) :
    d.locate cwd (layout.refUpdates.join state) = .ok (root ++ [state]) := by
  obtain ⟨e, he, -⟩ := (Option.any_eq_true ..).1 hdir
  have hlink : ∀ target, e ≠ .link target := fun target ht => h.tree.linkless _ target (ht ▸ he)
  rw [h.leads.locate_join hs.isPlain he hlink, h.state_fits hs]
  rfl

/-- A queue stands where its directories do. -/
theorem kept (h : layout.Stands root cwd d) (htree : d'.IsLinkless)
    (hkept : Disk.KeepsDirectories d d') : layout.Stands root cwd d' where
  tree := htree
  located := h.tree.locate_kept hkept h.located h.isDirectory_root
  running := by
    obtain ⟨e, he, hdir⟩ := (Option.any_eq_true ..).1 h.running
    rw [hkept _ _ he hdir]
    exact hdir
  reaches := h.reaches

theorem put_directory (h : layout.Stands root cwd d) {l : Location} {n : String} (hn : IsPlain n)
    (hopen : (d.get? l).any Entry.isOpen) (hfree : d.get? (l ++ [n]) = none)
    (hbelow : root ++ ["waiting"] <+: l ++ [n]) :
    layout.Grows root cwd d (d.put (l ++ [n]) .directory) where
  stands := by
    refine h.kept (h.tree.put_directory hn hopen hfree) fun k e he _ => ?_
    have hne : k ≠ l ++ [n] := by
      rintro rfl
      rw [hfree] at he
      cases he
    rw [Disk.get?_put, if_neg hne, he]
  grown k := by
    by_cases hk : k = l ++ [n]
    · subst hk
      exact .inr ⟨hfree, by simp, hbelow⟩
    · exact .inl (by rw [Disk.get?_put, if_neg hk])

end Stands

theorem Grows.trans {d'' : Disk} (h : layout.Grows root cwd d d')
    (h' : layout.Grows root cwd d' d'') : layout.Grows root cwd d d'' where
  stands := h'.stands
  grown l := (h.grown l).trans (h'.grown l)

/-! ### Making the directories of a place -/

theorem isPlain_waiting : IsPlain "waiting" := IsState.isPlain (.inr (.inr rfl))

variable {s : System}

/-- What making a directory below the waiting directory comes to. -/
theorem Stands.grows_of_made (h : layout.Stands root cwd d) {l : Location} {n : String}
    (hn : IsPlain n) (hbelow : root ++ ["waiting"] <+: l ++ [n]) {r : Except Cause Unit}
    (hmade : d' = d ∧ (r = .ok () → (d.get? (l ++ [n])).any Entry.isDirectory) ∨
      d.get? (l ++ [n]) = none ∧ (d.get? l).any Entry.isOpen ∧ r = .ok () ∧
        d' = d.put (l ++ [n]) .directory) :
    layout.Grows root cwd d d' ∧ (r = .ok () → (d'.get? (l ++ [n])).any Entry.isDirectory) := by
  rcases hmade with ⟨rfl, hr⟩ | ⟨hfree, hopen, -, rfl⟩
  · exact ⟨h.grows, hr⟩
  · exact ⟨h.put_directory hn hopen hfree hbelow, fun _ => by simp [Entry.isDirectory]⟩

theorem Stands.run_ensure_waiting (h : layout.Stands root s.cwd s.disk) (depth : Nat) :
    ∃ r d, (Files.ensureWithin (depth + 2) layout.waiting).run s = (r, { s with disk := d }) ∧
      (d = s.disk ∧ (r = .ok () → (s.disk.get? (root ++ ["waiting"])).any Entry.isDirectory) ∨
        s.disk.get? (root ++ ["waiting"]) = none ∧ (s.disk.get? root).any Entry.isOpen ∧
          r = .ok () ∧ d = s.disk.put (root ++ ["waiting"]) .directory) :=
  Files.run_ensureWithin_join depth h.tree h.leads isPlain_waiting
    (Path.parent?_join_join _ isPlain_refUpdates isPlain_waiting)
    (h.tree.makeDirectory_located isPlain_refUpdates h.located)
    (Disk.IsLinkless.isDirectory_located h.located h.isDirectory_root)

theorem Stands.run_ensure_shard (h : layout.Stands root s.cwd s.disk) (depth : Nat)
    (key : TaskKey) :
    ∃ r d, (Files.ensureWithin (depth + 3) (layout.waiting.join key.shard)).run s =
        (r, { s with disk := d }) ∧ layout.Grows root s.cwd s.disk d ∧
      (r = .ok () → (d.get? (root ++ ["waiting"] ++ [key.shard])).any Entry.isDirectory) := by
  have hshard := key.isPlain_shard
  have hbelow : root ++ ["waiting"] <+: root ++ ["waiting"] ++ [key.shard] :=
    List.prefix_append _ _
  have hpath : (layout.waiting.join key.shard).text ≠ "" := Path.text_join_ne_empty _ hshard
  have hparent : (layout.waiting.join key.shard).parent? = some layout.waiting :=
    Path.parent?_join_join _ isPlain_waiting hshard
  cases hw : s.disk.get? (root ++ ["waiting"]) with
  | none =>
    have hmake : s.disk.makeDirectory s.cwd (layout.waiting.join key.shard) = _ :=
      h.leads.makeDirectory_join_join isPlain_waiting hshard hw
    by_cases hlong : (layout.waiting.join key.shard).isTooLong = true
    · have hdir : s.disk.isDirectory s.cwd (layout.waiting.join key.shard) = false :=
        s.disk.isDirectory_long s.cwd
          (Path.null_mem_join hshard (Path.null_mem_join isPlain_waiting h.leads.noNull)) hlong
      have hrun := Files.ensureWithin_refused (depth + 2) hpath
        (hmake.trans (if_pos hlong)) (by simp)
      rw [hdir] at hrun
      exact ⟨_, _, hrun, h.grows, by simp⟩
    replace hmake := hmake.trans (if_neg hlong)
    obtain ⟨r, d, hrun, ⟨rfl, hr⟩ | ⟨-, hopen, rfl, rfl⟩⟩ := h.run_ensure_waiting depth
    · cases r with
      | error cause =>
        exact ⟨_, _, Files.ensureWithin_stopped hpath hmake hparent hrun, h.grows, by simp⟩
      | ok _ =>
        have hdir := hr rfl
        rw [hw] at hdir
        cases hdir
    · -- The waiting directory was made just now, so it is open and empty.
      have hgrows := h.put_directory isPlain_waiting hopen hw List.prefix_rfl
      have hfree : (s.disk.put (root ++ ["waiting"]) .directory).get?
          (root ++ ["waiting"] ++ [key.shard]) = none := by
        rw [Disk.get?_put, if_neg (by simp), h.tree.get?_below hw]
      have hagain := (hgrows.stands.leads_state (.inr (.inr rfl))
        (by simp [Entry.isDirectory])).makeDirectory_join hshard (by simp [Entry.isOpen])
      rw [hfree] at hagain
      have hretried := Files.ensureWithin_retried hpath hmake hparent hrun
        (hagain.trans (if_neg hlong))
      exact ⟨_, _, hretried, hgrows.trans (hgrows.stands.put_directory hshard
        (by simp [Entry.isOpen]) hfree hbelow), fun _ => by simp [Entry.isDirectory]⟩
  | some e =>
    by_cases hdir : e.isDirectory = true
    · have hthere : (s.disk.get? (root ++ ["waiting"])).any Entry.isDirectory := by
        simpa [hw] using hdir
      have hstate : IsState "waiting" := .inr (.inr rfl)
      have hlocate := h.locate_state hstate hthere
      obtain ⟨r, d, hrun, hmade⟩ :=
        Files.run_ensureWithin_join (depth + 1) h.tree (h.leads_state hstate hthere) hshard hparent
          (h.tree.makeDirectory_located isPlain_waiting hlocate)
          (Disk.IsLinkless.isDirectory_located hlocate hthere)
      exact ⟨r, d, hrun, h.grows_of_made hshard hbelow hmade⟩
    · have hleaf := h.tree.isLeaf hw (by simpa using hdir)
      have hmake := h.leads.makeDirectory_join_leaf isPlain_waiting hshard hw hleaf
      have hno := h.leads.isDirectory_join_leaf isPlain_waiting hshard hw hleaf
      obtain ⟨cause, hcause, hne⟩ : ∃ cause,
          s.disk.makeDirectory s.cwd (layout.waiting.join key.shard) = .error cause ∧
            cause ≠ .notFound := by
        rw [Layout.waiting, hmake]
        split
        · exact ⟨_, rfl, by simp⟩
        · exact ⟨_, rfl, by simp⟩
      have hrun := Files.ensureWithin_refused (depth + 2) hpath hcause hne
      rw [Layout.waiting, hno] at hrun
      exact ⟨_, _, hrun, h.grows, by simp⟩

theorem Stands.leads_directory (h : layout.Stands root cwd d) {pl : Place}
    (hdir : (d.get? (root ++ pl.directory)).any Entry.isDirectory) :
    d.Leads cwd (layout.directoryOf pl) (root ++ pl.directory) := by
  cases pl with
  | running key => exact h.leads_state (.inr (.inl rfl)) hdir
  | flat key => exact h.leads_state (.inr (.inr rfl)) hdir
  | sharded key =>
    rw [Place.directory, ← List.singleton_append, ← List.append_assoc] at hdir ⊢
    obtain ⟨e, he, hshard⟩ := (Option.any_eq_true ..).1 hdir
    have hwaiting := h.tree.isDirectory_of_below (by simp) he
    exact (h.leads_state (.inr (.inr rfl)) hwaiting).join key.isPlain_shard he hshard

/-- A file is read at the path of its place. -/
theorem Stands.contents_pathOf (h : layout.Stands root cwd d) {pl : Place} {bytes : Bytes}
    (hfile : d.get? (root ++ pl.names) = some (.file bytes)) (hreach : layout.reaches pl = true) :
    d.contents cwd (layout.pathOf pl) = .ok bytes := by
  rw [Place.names, ← List.append_assoc] at hfile
  have hleads := h.leads_directory (h.tree.isDirectory_of_below (by simp) hfile)
  have hcontents := hleads.contents_join pl.key.isPlain_text hfile
  rwa [layout.isTooLong_pathOf, hreach] at hcontents

theorem Stands.run_ensureParent (h : layout.Stands root s.cwd s.disk) (key : TaskKey) :
    ∃ r d, (Files.ensureParent (layout.waitingPath key)).run s = (r, { s with disk := d }) ∧
      layout.Grows root s.cwd s.disk d ∧ (r = .ok () →
        (d.get? (root ++ (layout.waitingPlace key).directory)).any Entry.isDirectory) := by
  rw [← layout.pathOf_waitingPlace, Files.ensureParent_eq (layout.parent?_pathOf _)]
  unfold waitingPlace
  cases layout.waitingLayout with
  | flat =>
    obtain ⟨r, d, hrun, hmade⟩ := h.run_ensure_waiting layout.waiting.text.length
    obtain ⟨hgrows, hr⟩ := h.grows_of_made isPlain_waiting List.prefix_rfl hmade
    obtain ⟨r', hrun', hr'⟩ := Files.run_ensureDirectory hrun
    exact ⟨r', d, hrun', hgrows, fun hok => hr (hr' hok)⟩
  | sharded =>
    obtain ⟨depth, hdepth⟩ : ∃ depth, (layout.waiting.join key.shard).text.length = depth + 1 :=
      Nat.exists_eq_succ_of_ne_zero
        (mt String.length_eq_zero_iff.1 (Path.text_join_ne_empty _ key.isPlain_shard))
    obtain ⟨r, d, hrun, hgrows, hr⟩ := h.run_ensure_shard depth key
    have hrun : (Files.ensureWithin ((layout.waiting.join key.shard).text.length + 2)
        (layout.waiting.join key.shard)).run s = (r, { s with disk := d }) := by
      rw [hdepth]
      exact hrun
    obtain ⟨r', hrun', hr'⟩ := Files.run_ensureDirectory hrun
    refine ⟨r', d, hrun', hgrows, fun hok => ?_⟩
    have hdir := hr (hr' hok)
    rwa [List.append_assoc] at hdir

end Layout

end ReplicationQueue
