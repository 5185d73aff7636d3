import ReplicationQueue.Proofs.Addition

/-! The files below a path, in any tree. A listing finds each of them once, in the order of the
bytes of their names, and reads what is in it; it misses those alone whose paths are too long to be
looked up, and tells of those of them that it comes upon. -/

namespace ReplicationQueue

attribute [local irreducible] Path.isTooLong

/-- A walk did not enter a directory: its path is too long to be looked up. -/
inductive Event.StaysClosed : Event → Prop
  | intro {path : Path} (h : path.isTooLong) : StaysClosed (.walkStopped path .nameTooLong)

theorem Event.StaysClosed.level {event : Event} (h : event.StaysClosed) : event.level = .error := by
  cases h
  rfl

namespace Disk

variable {d d' : Disk} {cwd l : Location} {p : Path} {n : String} {names : Location} {bytes : Bytes}

/-! ### What lies below -/

/-- A file lies below the directory that a path leads to. -/
def HasBelow (d : Disk) (cwd : Location) (p : Path) (names : Location) (bytes : Bytes) : Prop :=
  names ≠ [] ∧ ∃ l, d.locate cwd p = .ok l ∧ d.get? (l ++ names) = some (.file bytes)

/-- Whether the path of a file below another path is short enough to be looked up. -/
def IsInReach (p : Path) (file : Location × Bytes) : Bool :=
  !(p.below file.1).isTooLong

/-- Each file below what a path leads to, once, in the order of the bytes of the names; left out are
those whose paths are too long to be looked up. -/
structure Lists (d : Disk) (cwd : Location) (p : Path) (found : List (Location × Bytes)) :
    Prop where
  mem : ∀ names bytes, (names, bytes) ∈ found ↔
    d.HasBelow cwd p names bytes ∧ (p.below names).isTooLong = false
  sorted : found.Pairwise Precedes

/-- Each file that a walk comes upon, in the same order: the path of the directory that it is in can
be looked up. -/
structure Walks (d : Disk) (cwd : Location) (p : Path) (walked : List (Location × Bytes)) :
    Prop where
  mem : ∀ names bytes, (names, bytes) ∈ walked ↔
    d.HasBelow cwd p names bytes ∧ (p.below names.dropLast).isTooLong = false
  sorted : walked.Pairwise Precedes

theorem HasBelow.directory (h : d.HasBelow cwd p names bytes) (hd : d.IsTree) :
    ∃ l, d.locate cwd p = .ok l ∧ (d.get? l).any Entry.isDirectory := by
  obtain ⟨hne, l, hl, he⟩ := h
  exact ⟨l, hl, hd.isDirectory_of_below hne he⟩

theorem IsTree.isPlain_of_mem (hd : d.IsTree) (he : d.get? (l ++ names) = some (.file bytes)) :
    ∀ n ∈ names, IsPlain n := by
  intro n hn
  obtain ⟨front, rest, rfl⟩ := List.append_of_mem hn
  rw [List.append_cons, ← List.append_assoc, ← List.append_assoc] at he
  by_cases hrest : rest = []
  · rw [hrest, List.append_nil] at he
    exact hd.isPlain_of_file he
  · exact ((hd.isTreeBelow _).of_below hrest he).1

theorem HasBelow.isPlain (h : d.HasBelow cwd p names bytes) (hd : d.IsTree) :
    ∀ n ∈ names, IsPlain n := by
  obtain ⟨-, l, -, he⟩ := h
  exact hd.isPlain_of_mem he

/-- What is listed are the files that a walk comes upon and that can be looked up. -/
theorem Walks.lists {walked : List (Location × Bytes)} (h : d.Walks cwd p walked) (hd : d.IsTree) :
    d.Lists cwd p (walked.filter (IsInReach p)) where
  mem names bytes := by
    rw [List.mem_filter, h.mem, IsInReach, Bool.not_eq_true', and_assoc]
    refine and_congr_right fun hbelow => and_iff_right_of_imp fun hshort => ?_
    obtain ⟨front, n, rfl⟩ := (List.eq_nil_or_concat names).resolve_left hbelow.1
    rw [List.concat_eq_append] at hbelow hshort ⊢
    rw [List.dropLast_concat, ← Bool.not_eq_true]
    rw [p.below_concat, ← Bool.not_eq_true] at hshort
    exact fun hlong => hshort (Path.isTooLong_join (hbelow.isPlain hd n (by simp)) hlong)
  sorted := h.sorted.filter _

/-- A path goes on to the directories below what it leads to. -/
theorem Leads.below (hd : d.IsTree) (names : Location) (h : d.Leads cwd p l) {e : Entry}
    (he : d.get? (l ++ names ++ [n]) = some e) : d.Leads cwd (p.below names) (l ++ names) := by
  induction names generalizing p l with
  | nil => rwa [List.append_nil]
  | cons m rest ih =>
    have hbelow : d.get? (l ++ [m] ++ (rest ++ [n])) = some e := by simpa using he
    obtain ⟨hm, x, hx, hdir, -⟩ := (hd.isTreeBelow l).of_below (by simp) hbelow
    rw [List.append_cons]
    exact ih (h.join hm hx hdir) (by rwa [List.append_assoc])

theorem contents_below (hd : d.IsTree) (h : d.Leads cwd p l) (hne : names ≠ [])
    (he : d.get? (l ++ names) = some (.file bytes)) :
    d.contents cwd (p.below names) =
      if (p.below names).isTooLong then .error .nameTooLong else .ok bytes := by
  obtain ⟨front, n, rfl⟩ := (List.eq_nil_or_concat names).resolve_left hne
  rw [List.concat_eq_append] at he ⊢
  rw [← List.append_assoc] at he
  rw [Path.below_concat]
  exact (h.below hd front he).contents_join (hd.isPlain_of_file he) he

/-! ### What a walk comes upon -/

/-- A walk begins at the directory that a path leads to. -/
theorem walk_of_locate (hl : d.locate cwd p = .ok l) (hdir : (d.get? l).any Entry.isDirectory) :
    d.walk cwd p = d.walkFrom l p := by
  have hstatus : ∃ e, d.status cwd p = .ok e := by
    obtain ⟨e, he, -⟩ := (Option.any_eq_true ..).1 hdir
    exact ⟨e, by rw [status, hl]; simp only [bind, Except.bind, he]; rfl⟩
  have hlink : ∃ e, d.linkStatus cwd p = .ok e := by
    rcases slot_of_locate hl with hslot | ⟨base, n, slash, hslot, hsome⟩
    · rw [linkStatus, hslot]
      exact hstatus
    · rw [linkStatus, hslot]
      cases slash with
      | true => exact hstatus
      | false =>
        obtain ⟨e, he⟩ := Option.isSome_iff_exists.1 hsome
        exact ⟨e, by simp only [bind, Except.bind, he]; rfl⟩
  obtain ⟨e, he⟩ := hlink
  unfold walk
  rw [he, hl]
  rfl

/-- There is nothing to walk below anything else. -/
theorem files_walk_eq_nil
    (h : ¬∃ l, d.locate cwd p = .ok l ∧ (d.get? l).any Entry.isDirectory) :
    (d.walk cwd p).files = [] := by
  unfold walk
  cases d.linkStatus cwd p with
  | error cause => rfl
  | ok e =>
    cases hl : d.locate cwd p with
    | error cause => rfl
    | ok l => exact congrArg Walk.files (if_neg fun hdir => h ⟨l, hl, hdir⟩)

theorem walks_walkedBelow (hl : d.locate cwd p = .ok l) :
    d.Walks cwd p (d.walkedBelow l p) where
  mem names bytes := by
    unfold walkedBelow
    rw [List.mem_filterMap]
    constructor
    · rintro ⟨⟨other, e⟩, hmem, hfile⟩
      obtain ⟨hne, hshort, rfl, rfl⟩ := walkedFile?_eq_some_iff.1 hfile
      exact ⟨⟨hne, l, hl, (mem_subtree _ _ _ _).1 hmem⟩, hshort⟩
    · rintro ⟨⟨hne, k, hk, he⟩, hshort⟩
      obtain rfl : l = k := Except.ok.inj (hl.symm.trans hk)
      exact ⟨(names, .file bytes), (mem_subtree _ _ _ _).2 he,
        walkedFile?_eq_some_iff.2 ⟨hne, hshort, rfl, rfl⟩⟩
  sorted := by
    refine (sorted_subtree d l).filterMap _ ?_
    rintro ⟨a, e⟩ ⟨a', e'⟩ hlt b hb b' hb'
    obtain ⟨-, -, -, rfl⟩ := walkedFile?_eq_some_iff.1 hb
    obtain ⟨-, -, -, rfl⟩ := walkedFile?_eq_some_iff.1 hb'
    exact map_encode_lt hlt

theorem walks_nil (h : ∀ names bytes, ¬d.HasBelow cwd p names bytes) : d.Walks cwd p [] where
  mem names bytes := by simp [h]
  sorted := .nil

/-- The event for a file whose path is too long to be looked up. -/
def unreadBelow? (p : Path) (file : Location × Bytes) : Option Event :=
  if IsInReach p file then none else some (.notRead (p.below file.1) .nameTooLong)

/-- A file whose path is too long to be looked up is an error. -/
theorem level_unreadBelow? {file : Location × Bytes} :
    (unreadBelow? p file).map Event.level = if IsInReach p file then none else some .error := by
  rw [unreadBelow?]
  split <;> rfl

section Contents

variable (hd : d.IsTree) (h : d.Leads cwd p l) {file : Location × Bytes}
  (hfile : file ∈ d.walkedBelow l p)

include hd h hfile

theorem contents_walked : d.contents cwd (p.below file.1) =
    if IsInReach p file then .ok file.2 else .error .nameTooLong := by
  obtain ⟨⟨names, e⟩, hmem, hsome⟩ := List.mem_filterMap.1 hfile
  obtain ⟨hne, -, rfl, rfl⟩ := walkedFile?_eq_some_iff.1 hsome
  rw [contents_below hd h hne ((mem_subtree _ _ _ _).1 hmem), IsInReach]
  cases (p.below file.1).isTooLong <;> rfl

theorem readable?_walked : d.readable? cwd (p.below file.1) =
    if IsInReach p file then some (p.below file.1, file.2) else none := by
  rw [readable?, contents_walked hd h hfile]
  cases IsInReach p file <;> rfl

theorem unread?_walked : d.unread? cwd (p.below file.1) = unreadBelow? p file := by
  rw [unread?, contents_walked hd h hfile, unreadBelow?]
  cases IsInReach p file <;> rfl

end Contents

end Disk

/-! ### Listings -/

namespace Files

open Plan Disk

variable {s : System} {p : Path} {l : Location}

/-- A listing reads the files that it comes upon, and tells of those that it cannot read. -/
theorem run_list_of_locate (hd : s.disk.IsTree) (hl : s.disk.locate s.cwd p = .ok l)
    (hdir : (s.disk.get? l).any Entry.isDirectory) :
    ∃ closed, (∀ event ∈ closed, event.StaysClosed) ∧ (list p).run s =
      (((s.disk.walkedBelow l p).filter (IsInReach p)).map fun file => (p.below file.1, file.2),
        { s with log := s.log ++ (closed ++
          (s.disk.walkedBelow l p).filterMap (unreadBelow? p)) }) := by
  have hleads := leads_of_locate hl hdir
  have hread : ((s.disk.walkedBelow l p).map fun file => p.below file.1).filterMap
      (s.disk.readable? s.cwd) = ((s.disk.walkedBelow l p).filter (IsInReach p)).map fun file =>
        (p.below file.1, file.2) := by
    rw [List.filterMap_map, ← List.filterMap_eq_map, List.filterMap_filter]
    exact List.filterMap_congr fun file hfile => readable?_walked hd hleads hfile
  have hunread : ((s.disk.walkedBelow l p).map fun file => p.below file.1).filterMap
      (s.disk.unread? s.cwd) = (s.disk.walkedBelow l p).filterMap (unreadBelow? p) := by
    rw [List.filterMap_map]
    exact List.filterMap_congr fun file hfile => unread?_walked hd hleads hfile
  have hfiles := files_walkFrom (hd.isTreeBelow l) hdir (p := p)
  refine ⟨_, ?_, by rw [run_list, walk_of_locate hl hdir, hfiles, hread, hunread]⟩
  intro event hevent
  obtain ⟨⟨path, cause⟩, hmem, rfl⟩ := List.mem_map.1 hevent
  obtain ⟨hlong, rfl⟩ := closed_walkFrom hmem
  exact .intro hlong

/-- A listing reads the files below what its path leads to, and changes nothing. -/
theorem run_list_found (hd : s.disk.IsTree) (p : Path) :
    ∃ found log, s.disk.Lists s.cwd p found ∧ (list p).run s =
      (found.map fun file => (p.below file.1, file.2), { s with log }) := by
  by_cases h : ∃ l, s.disk.locate s.cwd p = .ok l ∧ (s.disk.get? l).any Entry.isDirectory
  · obtain ⟨l, hl, hdir⟩ := h
    obtain ⟨closed, -, hrun⟩ := run_list_of_locate hd hl hdir
    exact ⟨_, _, (walks_walkedBelow hl).lists hd, hrun⟩
  · have hrun := run_list p s
    rw [files_walk_eq_nil h] at hrun
    have hnil := walks_nil fun names bytes hbelow => h (HasBelow.directory hbelow hd)
    exact ⟨[], _, hnil.lists hd, hrun⟩

end Files

namespace Store

open Plan Disk

variable (store : Store) {s : System} {p : Path}

/-- A listing tells the records below what its path leads to once that is made, and passes over the
other files with an event for each. -/
theorem run_listBelow_found {d : Disk} (h : Ensures s.cwd (p.text.length + 2) s.disk p d)
    (hd : s.disk.IsTree) (hp : p.text ≠ "") :
    ∃ l closed, d.locate s.cwd p = .ok l ∧ (∀ event ∈ closed, event.StaysClosed) ∧
      (store.listBelow p).run s =
        (((d.walkedBelow l p).filter (IsInReach p)).filterMap fun file =>
            (Update.parse file.2).toOption,
          { s with disk := d, log := s.log ++ (closed ++
              (d.walkedBelow l p).filterMap (unreadBelow? p)) ++
            ((d.walkedBelow l p).filter (IsInReach p)).filterMap fun file =>
              store.skipped? (p.below file.1, file.2) }) := by
  obtain ⟨l, hl, hdir⟩ := located_of_isDirectory (h.isDirectory hp)
  obtain ⟨closed, hclosed, hlist⟩ := Files.run_list_of_locate (s := { s with disk := d })
    (h.isTree hd) hl hdir
  refine ⟨l, closed, hl, hclosed, ?_⟩
  rw [listBelow, run_bind, Files.run_ensureDirectory_of_ensures h]
  simp only [run_bind, hlist, run_readRecords, List.filterMap_map]
  rfl

end Store

end ReplicationQueue
