import ReplicationQueue.Proofs.Files

/-! Plans that are stopped between two of their calls, or while bytes are being added to a file.
What holds wherever a plan stops is put together from what holds wherever its parts stop. -/

namespace ReplicationQueue

/-- What is left of a call that was cut short: some of the bytes that were to be added. -/
def System.cut (s : System) (torn : Nat) : Call → System
  | .append file bytes => { s with disk := s.disk.append file (bytes.take torn) }
  | _ => s

namespace Plan

/-- What is left when a plan stops after some of its calls, the next of which was cut short. -/
def stop {α : Type} : Plan α → Nat → Nat → System → System
  | done _, _, _, s => s
  | call c _, 0, torn, s => s.cut torn c
  | call c next, calls + 1, torn, s => stop (next (s.answer c).1) calls torn (s.answer c).2

/-- Wherever the plan stops, `P` holds of what is left. -/
def Stops {α : Type} (a : Plan α) (s : System) (P : System → Prop) : Prop :=
  ∀ calls torn, P (a.stop calls torn s)

/-- Nothing on the disk is changed. -/
def Quiet {α : Type} (a : Plan α) : Prop :=
  ∀ s, a.Stops s fun left => left.disk = s.disk ∧ left.cwd = s.cwd

/-- Whether a property is one of the disk. -/
def OfDisk (P : System → Prop) : Prop :=
  ∀ s left : System, left.disk = s.disk → left.cwd = s.cwd → P s → P left

variable {α β : Type} {a : Plan α} {f : α → Plan β} {s : System} {P Q : System → Prop}

theorem Stops.mono (h : a.Stops s P) (hPQ : ∀ left, P left → Q left) : a.Stops s Q :=
  fun calls torn => hPQ _ (h calls torn)

theorem stops_pure {value : α} (h : P s) : (pure value : Plan α).Stops s P :=
  fun _ _ => h

theorem stops_bind (ha : a.Stops s P) (hf : (f (a.run s).1).Stops (a.run s).2 P) :
    (a >>= f).Stops s P := by
  show (Plan.bind a f).Stops s P
  induction a generalizing s with
  | done value => exact hf
  | call c next ih =>
    intro calls torn
    cases calls with
    | zero => exact ha 0 torn
    | succ calls => exact ih _ (fun calls torn => ha (calls + 1) torn) hf calls torn

/-- A call that cannot be cut short has not been made or has been made. -/
theorem stops_perform {c : Call} (hcut : ∀ torn, s.cut torn c = s) (hs : P s)
    (ha : P (s.answer c).2) : (perform c).Stops s P := by
  intro calls torn
  cases calls with
  | zero =>
    show P (s.cut torn c)
    rwa [hcut]
  | succ calls => exact ha

theorem stops_append {file : Location} {bytes : Bytes}
    (h : ∀ torn, P { s with disk := s.disk.append file (bytes.take torn) }) :
    (append file bytes).Stops s P := by
  intro calls torn
  cases calls with
  | zero => exact h torn
  | succ calls =>
    have hall := h bytes.length
    rwa [List.take_length] at hall

/-- A plan that is not stopped is one that stops at its end. -/
theorem Stops.run (h : a.Stops s P) : P (a.run s).2 := by
  induction a generalizing s with
  | done value => exact h 0 0
  | call c next ih => exact ih _ fun calls torn => h (calls + 1) torn

theorem stops_change {r : Except Cause Disk} (hs : P s)
    (hdisk : ∀ disk, r = .ok disk → P { s with disk }) : P (s.change r).2 := by
  cases r with
  | ok disk => exact hdisk disk rfl
  | error cause => exact hs

theorem stops_makeDirectory {path : Path} (hs : P s)
    (hdisk : ∀ disk, s.disk.makeDirectory s.cwd path = .ok disk → P { s with disk }) :
    (makeDirectory path).Stops s P :=
  stops_perform (fun _ => rfl) hs (stops_change hs hdisk)

theorem stops_rename {source target : Path} (hs : P s)
    (hdisk : ∀ disk, s.disk.rename s.cwd source target = .ok disk → P { s with disk }) :
    (rename source target).Stops s P :=
  stops_perform (fun _ => rfl) hs (stops_change hs hdisk)

theorem stops_remove {path : Path} (hs : P s)
    (hdisk : ∀ disk, s.disk.remove s.cwd path = .ok disk → P { s with disk }) :
    (Plan.remove path).Stops s P :=
  stops_perform (fun _ => rfl) hs (stops_change hs hdisk)

theorem stops_createFile {path : Path} (hs : P s)
    (hdisk : ∀ file disk, s.disk.createFile s.cwd path = .ok (file, disk) → P { s with disk }) :
    (createFile path).Stops s P := by
  refine stops_perform (fun _ => rfl) hs ?_
  show P ((createFile path).run s).2
  cases hmake : s.disk.createFile s.cwd path with
  | ok made =>
    obtain ⟨file, disk⟩ := made
    rw [run_createFile_ok hmake]
    exact hdisk file disk hmake
  | error cause =>
    rw [run_createFile_error hmake]
    exact hs

/-! ### Plans that change nothing -/

theorem Quiet.stops (ha : a.Quiet) (hP : OfDisk P) (hs : P s) : a.Stops s P :=
  (ha s).mono fun _ hleft => hP _ _ hleft.1 hleft.2 hs

theorem Quiet.run (ha : a.Quiet) (s : System) :
    (a.run s).2.disk = s.disk ∧ (a.run s).2.cwd = s.cwd :=
  (ha s).run

theorem quiet_pure (value : α) : (pure value : Plan α).Quiet :=
  fun _ => stops_pure ⟨rfl, rfl⟩

theorem Quiet.bind (ha : a.Quiet) (hf : ∀ value, (f value).Quiet) : (a >>= f).Quiet := by
  intro s
  obtain ⟨hdisk, hcwd⟩ := ha.run s
  exact stops_bind (ha s) ((hf _ _).mono fun left hleft =>
    ⟨hleft.1.trans hdisk, hleft.2.trans hcwd⟩)

theorem quiet_perform {c : Call} (hcut : ∀ (s : System) torn, s.cut torn c = s)
    (hc : ∀ s : System, (s.answer c).2.disk = s.disk ∧ (s.answer c).2.cwd = s.cwd) :
    (perform c).Quiet :=
  fun s => stops_perform (hcut s) ⟨rfl, rfl⟩ (hc s)

theorem quiet_exists? (path : Path) : (exists? path).Quiet :=
  quiet_perform (fun _ _ => rfl) fun _ => ⟨rfl, rfl⟩

theorem quiet_isDirectory (path : Path) : (Plan.isDirectory path).Quiet :=
  quiet_perform (fun _ _ => rfl) fun _ => ⟨rfl, rfl⟩

theorem quiet_workingDirectory : workingDirectory.Quiet :=
  quiet_perform (fun _ _ => rfl) fun _ => ⟨rfl, rfl⟩

theorem quiet_drawName : drawName.Quiet :=
  quiet_perform (fun _ _ => rfl) fun _ => ⟨rfl, rfl⟩

theorem quiet_walk (path : Path) : (walk path).Quiet :=
  quiet_perform (fun _ _ => rfl) fun _ => ⟨rfl, rfl⟩

theorem quiet_read (path : Path) : (read path).Quiet :=
  quiet_perform (fun _ _ => rfl) fun _ => ⟨rfl, rfl⟩

theorem quiet_note (event : Event) : (note event).Quiet :=
  quiet_perform (fun _ _ => rfl) fun _ => ⟨rfl, rfl⟩

end Plan

namespace Files

open Plan

variable {s : System} {path : Path} {P : System → Prop}

/-- A directory whose parent is there is made by one call. -/
theorem stops_ensureDirectory (hP : OfDisk P) (hpath : path.text ≠ "")
    (hparent : s.disk.makeDirectory s.cwd path ≠ .error .notFound) (hs : P s)
    (hmade : ∀ disk, s.disk.makeDirectory s.cwd path = .ok disk → P { s with disk }) :
    (ensureDirectory path).Stops s P := by
  have hwithin : ∀ depth, (ensureWithin (depth + 1) path).Stops s P := by
    intro depth
    rw [ensureWithin, if_neg hpath]
    refine stops_bind (stops_makeDirectory hs hmade) ?_
    rw [run_makeDirectory]
    cases hmake : s.disk.makeDirectory s.cwd path with
    | ok disk => exact stops_pure (hmade disk hmake)
    | error cause =>
      rw [System.change_error]
      split
      · exact stops_pure hs
      · rename_i heq
        cases heq
        exact absurd hmake hparent
      · refine stops_bind ((quiet_isDirectory path).stops hP hs) ?_
        rw [run_isDirectory]
        split <;> exact stops_pure hs
  rw [ensureDirectory]
  refine stops_bind (hwithin _) ?_
  split <;> exact stops_pure (hwithin _).run

theorem stops_move {target : Path} (hs : P s)
    (hmoved : ∀ disk, s.disk.rename s.cwd path target = .ok disk → P { s with disk }) :
    (move path target).Stops s P := by
  have hrename := stops_rename hs hmoved
  rw [move]
  refine stops_bind hrename ?_
  split <;> exact stops_pure hrename.run

theorem stops_fill {file : Location} {bytes : Bytes}
    (h : ∀ torn, P { s with disk := s.disk.append file (bytes.take torn) }) :
    (fill file bytes).Stops s P := by
  have happended := stops_append h
  rw [fill]
  exact stops_bind happended (stops_perform (fun _ => rfl) happended.run happended.run)

theorem stops_delete (hs : P s)
    (hremoved : ∀ disk, s.disk.remove s.cwd path = .ok disk → P { s with disk }) :
    (delete path).Stops s P := by
  have hremove := stops_remove hs hremoved
  rw [delete]
  refine stops_bind hremove ?_
  split <;> exact stops_pure hremove.run

theorem quiet_absolute (path : Path) : (absolute path).Quiet := by
  unfold absolute
  split
  · exact quiet_pure _
  · refine quiet_workingDirectory.bind fun answer => ?_
    cases answer <;> exact quiet_pure _

theorem quiet_readAll (paths : List Path) : (readAll paths).Quiet := by
  induction paths with
  | nil => exact quiet_pure _
  | cons path rest ih =>
    rw [readAll]
    refine (quiet_read path).bind fun answer => ?_
    split
    · exact ih.bind fun _ => quiet_pure _
    · exact (quiet_note _).bind fun _ => ih
    · exact (quiet_note _).bind fun _ => ih

theorem quiet_noteClosed (closed : List (Path × Cause)) : (noteClosed closed).Quiet := by
  induction closed with
  | nil => exact quiet_pure _
  | cons c rest ih =>
    rw [noteClosed]
    exact (quiet_note _).bind fun _ => ih

theorem quiet_list (directory : Path) : (list directory).Quiet := by
  rw [list]
  exact (quiet_walk directory).bind fun found =>
    (quiet_noteClosed found.closed).bind fun _ => quiet_readAll found.files

end Files

end ReplicationQueue
