import ReplicationQueue.Files

/-! How the operations on files run, by what the calls they begin with are answered. -/

namespace ReplicationQueue

namespace System

@[simp] theorem change_ok (s : System) (disk : Disk) :
    s.change (.ok disk) = (.ok (), { s with disk }) := rfl

@[simp] theorem change_error (s : System) (cause : Cause) :
    s.change (.error cause) = (.error cause, s) := rfl

end System

namespace Plan

variable (path source target : Path) (s : System)

@[simp] theorem run_exists? : (exists? path).run s = (s.disk.exists? s.cwd path, s) := rfl

@[simp] theorem run_isDirectory :
    (Plan.isDirectory path).run s = (s.disk.isDirectory s.cwd path, s) := rfl

@[simp] theorem run_makeDirectory :
    (makeDirectory path).run s = s.change (s.disk.makeDirectory s.cwd path) := rfl

@[simp] theorem run_workingDirectory : workingDirectory.run s = (s.workingDirectory, s) := rfl

@[simp] theorem run_drawName :
    drawName.run s = (s.names s.drawn, { s with drawn := s.drawn + 1 }) := rfl

@[simp] theorem run_rename :
    (rename source target).run s = s.change (s.disk.rename s.cwd source target) := rfl

@[simp] theorem run_remove :
    (Plan.remove path).run s = s.change (s.disk.remove s.cwd path) := rfl

@[simp] theorem run_walk : (walk path).run s = (s.disk.walk s.cwd path, s) := rfl

@[simp] theorem run_read : (read path).run s = (s.disk.contents s.cwd path, s) := rfl

theorem run_createFile_ok {path : Path} {s : System} {disk : Disk} {file : Location}
    (h : s.disk.createFile s.cwd path = .ok (file, disk)) :
    (createFile path).run s = (.ok file, { s with disk }) := by
  show s.answer (.createFile path) = _
  rw [System.answer, h]
  rfl

theorem run_createFile_error {path : Path} {s : System} {cause : Cause}
    (h : s.disk.createFile s.cwd path = .error cause) :
    (createFile path).run s = (.error cause, s) := by
  show s.answer (.createFile path) = _
  rw [System.answer, h]
  rfl

end Plan

namespace Files

open Plan

variable {s : System} {path : Path}

/-- A system that refuses no write fills a file. -/
theorem run_fill (file : Location) (bytes : Bytes) (s : System) :
    (fill file bytes).run s = (.ok (), { s with disk := s.disk.append file bytes }) := rfl

theorem ensureWithin_made (depth : Nat) {disk : Disk} (hpath : path.text ≠ "")
    (h : s.disk.makeDirectory s.cwd path = .ok disk) :
    (ensureWithin (depth + 1) path).run s = (.ok (), { s with disk }) := by
  rw [ensureWithin, if_neg hpath, run_bind, run_makeDirectory, h, System.change_ok]
  rfl

theorem ensureWithin_refused (depth : Nat) {cause : Cause} (hpath : path.text ≠ "")
    (h : s.disk.makeDirectory s.cwd path = .error cause) (hcause : cause ≠ .notFound) :
    (ensureWithin (depth + 1) path).run s =
      (if s.disk.isDirectory s.cwd path then .ok () else .error cause, s) := by
  rw [ensureWithin, if_neg hpath, run_bind, run_makeDirectory, h, System.change_error]
  split
  · contradiction
  · rename_i heq
    cases heq
    contradiction
  · rename_i heq
    cases heq
    rw [run_bind, run_isDirectory]
    split <;> rfl

section Below

variable {depth : Nat} {parent : Path} (hpath : path.text ≠ "")
  (h : s.disk.makeDirectory s.cwd path = .error .notFound) (hparent : path.parent? = some parent)

include hpath h hparent

/-- Where the parent cannot be made, what lies in it is not made either. -/
theorem ensureWithin_stopped {cause : Cause} {s' : System}
    (hrun : (ensureWithin depth parent).run s = (.error cause, s')) :
    (ensureWithin (depth + 1) path).run s = (.error cause, s') := by
  rw [ensureWithin, if_neg hpath, run_bind, run_makeDirectory, h, System.change_error]
  simp only [hparent]
  rw [run_bind, hrun]
  rfl

theorem ensureWithin_retried {s' : System} {disk : Disk}
    (hrun : (ensureWithin depth parent).run s = (.ok (), s'))
    (h' : s'.disk.makeDirectory s'.cwd path = .ok disk) :
    (ensureWithin (depth + 1) path).run s = (.ok (), { s' with disk }) := by
  rw [ensureWithin, if_neg hpath, run_bind, run_makeDirectory, h, System.change_error]
  simp only [hparent]
  rw [run_bind, hrun]
  simp only
  rw [run_bind, run_makeDirectory, h', System.change_ok]
  rfl

theorem ensureWithin_refused_again {s' : System} {cause : Cause}
    (hrun : (ensureWithin depth parent).run s = (.ok (), s'))
    (h' : s'.disk.makeDirectory s'.cwd path = .error cause) :
    (ensureWithin (depth + 1) path).run s =
      (if s'.disk.isDirectory s'.cwd path then .ok () else .error cause, s') := by
  rw [ensureWithin, if_neg hpath, run_bind, run_makeDirectory, h, System.change_error]
  simp only [hparent]
  rw [run_bind, hrun]
  simp only
  rw [run_bind, run_makeDirectory, h', System.change_error]
  simp only
  rw [run_bind, run_isDirectory]
  split <;> rfl

end Below

theorem ensureWithin_below (depth : Nat) {parent : Path} {disk disk' : Disk}
    (hpath : path.text ≠ "") (h : s.disk.makeDirectory s.cwd path = .error .notFound)
    (hparent : path.parent? = some parent) (hne : parent.text ≠ "")
    (hmade : s.disk.makeDirectory s.cwd parent = .ok disk)
    (h' : disk.makeDirectory s.cwd path = .ok disk') :
    (ensureWithin (depth + 2) path).run s = (.ok (), { s with disk := disk' }) := by
  have hrun : (ensureWithin (depth + 1) parent).run s = (.ok (), { s with disk }) :=
    ensureWithin_made depth hne hmade
  exact (ensureWithin_retried hpath h hparent hrun h').trans rfl

theorem ensureDirectory_made {disk : Disk} (hpath : path.text ≠ "")
    (h : s.disk.makeDirectory s.cwd path = .ok disk) :
    (ensureDirectory path).run s = (.ok (), { s with disk }) := by
  rw [ensureDirectory, run_bind, ensureWithin_made _ hpath h]
  rfl

theorem ensureDirectory_refused {cause : Cause} (hpath : path.text ≠ "")
    (h : s.disk.makeDirectory s.cwd path = .error cause) (hcause : cause ≠ .notFound) :
    (ensureDirectory path).run s =
      (if s.disk.isDirectory s.cwd path then .ok () else .error (.provision path cause), s) := by
  rw [ensureDirectory, run_bind, ensureWithin_refused _ hpath h hcause]
  by_cases hdir : s.disk.isDirectory s.cwd path <;> simp [hdir]

theorem ensureDirectory_below {parent : Path} {disk disk' : Disk} (hpath : path.text ≠ "")
    (h : s.disk.makeDirectory s.cwd path = .error .notFound)
    (hparent : path.parent? = some parent) (hne : parent.text ≠ "")
    (hmade : s.disk.makeDirectory s.cwd parent = .ok disk)
    (h' : disk.makeDirectory s.cwd path = .ok disk') :
    (ensureDirectory path).run s = (.ok (), { s with disk := disk' }) := by
  rw [ensureDirectory, run_bind, ensureWithin_below _ hpath h hparent hne hmade h']
  rfl

theorem ensureParent_eq {parent : Path} (h : path.parent? = some parent) :
    ensureParent path = ensureDirectory parent := by
  rw [ensureParent, h]

theorem move_moved {target : Path} {disk : Disk} (h : s.disk.rename s.cwd path target = .ok disk) :
    (move path target).run s = (.ok (), { s with disk }) := by
  rw [move, run_bind, run_rename, h, System.change_ok]
  rfl

theorem move_refused {target : Path} {cause : Cause}
    (h : s.disk.rename s.cwd path target = .error cause) :
    (move path target).run s = (.error (.rename path target cause), s) := by
  rw [move, run_bind, run_rename, h, System.change_error]
  rfl

theorem delete_removed {disk : Disk} (h : s.disk.remove s.cwd path = .ok disk) :
    (delete path).run s = (.ok true, { s with disk }) := by
  rw [delete, run_bind, run_remove, h, System.change_ok]
  rfl

theorem delete_absent (h : s.disk.remove s.cwd path = .error .notFound) :
    (delete path).run s = (.ok false, s) := by
  rw [delete, run_bind, run_remove, h, System.change_error]
  rfl

theorem delete_refused {cause : Cause} (h : s.disk.remove s.cwd path = .error cause)
    (hcause : cause ≠ .notFound) :
    (delete path).run s = (.error (.delete path cause), s) := by
  rw [delete, run_bind, run_remove, h, System.change_error]
  split
  · contradiction
  · rename_i heq
    cases heq
    contradiction
  · rename_i heq
    cases heq
    rfl

end Files

end ReplicationQueue
