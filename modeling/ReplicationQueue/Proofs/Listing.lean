import ReplicationQueue.Proofs.Opening
import ReplicationQueue.Proofs.Record
import ReplicationQueue.Proofs.Walk

/-! Listing a queue. A listing comes upon the places below a directory in the order of their names
and reads back the updates whose records are there; it changes nothing. -/

namespace ReplicationQueue

attribute [local irreducible] Path.isTooLong

/-! ### Reading what a walk found -/

namespace Disk

/-- What can be read at a path. -/
def readable? (d : Disk) (cwd : Location) (path : Path) : Option (Path × Bytes) :=
  (d.contents cwd path).toOption.map (path, ·)

/-- What a listing tells of a file that it cannot read. -/
def unread? (d : Disk) (cwd : Location) (path : Path) : Option Event :=
  match d.contents cwd path with
  | .ok _ => none
  | .error .notFound => some (.fileVanished path)
  | .error cause => some (.notRead path cause)

/-- A walk enters a directory that its path leads to. -/
theorem Leads.files_walk_join {d : Disk} {cwd l : Location} {p : Path} {n : String}
    (h : d.Leads cwd p l) (hn : IsPlain n) {e : Entry} (he : d.get? (l ++ [n]) = some e)
    (hdir : e.isDirectory) (hshort : (p.join n).isTooLong = false)
    (hbelow : d.IsTreeBelow (l ++ [n])) : (d.walk cwd (p.join n)).files =
      (d.walkedBelow (l ++ [n]) (p.join n)).map fun file => (p.join n).below file.1 := by
  have hslot := h.slot_join hn
  have hlocate := h.locate_join hn he fun target ht => by rw [ht] at hdir; cases hdir
  rw [hshort] at hslot hlocate
  have hstatus : d.linkStatus cwd (p.join n) = .ok e := by
    rw [linkStatus, hslot]
    simp only [Bool.false_eq_true, ↓reduceIte, bind, Except.bind, he]
    rfl
  rw [walk, hstatus, hlocate]
  exact files_walkFrom hbelow (by simpa [he] using hdir)

end Disk

namespace Files

open Plan

theorem run_noteClosed (closed : List (Path × Cause)) (s : System) :
    (noteClosed closed).run s =
      ((), { s with log := s.log ++ closed.map fun c => .walkStopped c.1 c.2 }) := by
  induction closed generalizing s with
  | nil => simp [noteClosed]
  | cons c rest ih =>
    rw [noteClosed, run_bind, run_note, ih, List.map_cons, List.append_assoc,
      List.singleton_append]

theorem run_readAll (paths : List Path) (s : System) :
    (readAll paths).run s = (paths.filterMap (s.disk.readable? s.cwd),
      { s with log := s.log ++ paths.filterMap (s.disk.unread? s.cwd) }) := by
  induction paths generalizing s with
  | nil => simp [readAll]
  | cons path rest ih =>
    rw [readAll, run_bind, run_read]
    cases hread : s.disk.contents s.cwd path with
    | ok bytes =>
      simp only [run_bind, ih, run_pure]
      rw [List.filterMap_cons_some (by rw [Disk.readable?, hread]; rfl),
        List.filterMap_cons_none (by rw [Disk.unread?, hread])]
    | error cause =>
      rw [List.filterMap_cons_none (by rw [Disk.readable?, hread]; rfl)]
      have skipped : ∀ event, s.disk.unread? s.cwd path = some event →
          (do note event; readAll rest : Plan _).run s = (rest.filterMap (s.disk.readable? s.cwd),
            { s with log := s.log ++ (path :: rest).filterMap (s.disk.unread? s.cwd) }) := by
        intro event hevent
        rw [run_bind, run_note, ih, List.filterMap_cons_some hevent, List.append_assoc,
          List.singleton_append]
      cases cause <;> exact skipped _ (by rw [Disk.unread?, hread])

/-- A listing reads what the walk came upon, and tells what stayed closed and what it could not
read. -/
theorem run_list (directory : Path) (s : System) :
    (list directory).run s =
      ((s.disk.walk s.cwd directory).files.filterMap (s.disk.readable? s.cwd),
        { s with log := s.log ++
          (((s.disk.walk s.cwd directory).closed.map fun c => .walkStopped c.1 c.2) ++
            (s.disk.walk s.cwd directory).files.filterMap (s.disk.unread? s.cwd)) }) := by
  rw [list, run_bind, run_walk]
  simp only [run_bind, run_noteClosed, run_readAll, List.append_assoc]

end Files

namespace Store

open Plan

/-- What a listing tells of a file that holds no record. -/
def skipped? (store : Store) (file : Path × Bytes) : Option Event :=
  match Update.parse file.2 with
  | .ok _ => none
  | .error fault =>
    let error := StoreError.record file.1 fault
    some (if store.isInFlight file.1 then .unfinishedRecord error else .malformedRecord error)

theorem run_readRecords (store : Store) (files : List (Path × Bytes)) (s : System) :
    (store.readRecords files).run s =
      (files.filterMap fun file => (Update.parse file.2).toOption,
        { s with log := s.log ++ files.filterMap store.skipped? }) := by
  induction files generalizing s with
  | nil => simp [readRecords]
  | cons file rest ih =>
    rw [readRecords]
    cases hparse : Update.parse file.2 with
    | ok u =>
      simp only [run_bind, ih, run_pure]
      rw [List.filterMap_cons_some (by rw [hparse]; rfl),
        List.filterMap_cons_none (by rw [skipped?, hparse])]
    | error fault =>
      simp only [run_bind, run_note, ih]
      rw [List.filterMap_cons_none (by rw [hparse]; rfl),
        List.filterMap_cons_some (by rw [skipped?, hparse]), List.append_assoc,
        List.singleton_append]

end Store

/-! ### The places below a directory -/

namespace Queue

/-- The places below a directory where files are, in the order of their names. -/
structure Lists (q : Queue) (dir : Location) (pls : List Place) : Prop where
  sorted : (pls.map Place.names).Pairwise (· < ·)
  mem : ∀ pl, pl ∈ pls ↔ dir <+: pl.names ∧ (q.files pl).isSome

theorem Lists.unique {q : Queue} {dir : Location} {a b : List Place} (ha : q.Lists dir a)
    (hb : q.Lists dir b) : a = b := by
  have hmem : ∀ names, names ∈ a.map Place.names ↔ names ∈ b.map Place.names := by
    intro names
    simp only [List.mem_map, ha.mem, hb.mem]
  have hnames := ha.sorted.eq_of_mem_iff hb.sorted hmem
  exact List.map_injective_iff.2 (fun _ _ h => Place.names_inj.1 h) hnames

theorem lists_building (q : Queue) : q.Lists ["building"] [] where
  sorted := by simp
  mem pl := by cases pl <;> simp [Place.names, Place.directory]

end Queue

/-! ### The files in the making -/

namespace Queue

/-- The name of the file in the making that a location is. -/
def builtName? : Location → Option String
  | [state, name] => if state = "building" then some name else none
  | _ => none

theorem builtName?_eq_some_iff {l : Location} {name : String} :
    builtName? l = some name ↔ l = ["building", name] := by
  unfold builtName?
  split
  · split
    · rename_i hstate
      simp [hstate]
    · rename_i hstate
      simp [hstate]
  · rename_i hnot
    simp only [reduceCtorEq, false_iff]
    rintro rfl
    exact hnot _ _ rfl

theorem builtName?_names (pl : Place) : builtName? pl.names = none := by
  rw [Option.eq_none_iff_forall_ne_some]
  intro name hname
  rw [builtName?_eq_some_iff] at hname
  have hplace := Place.ofNames?_building name
  rw [← hname, Place.ofNames?_names] at hplace
  cases hplace

/-- What is in the making comes before what runs and what waits. -/
theorem built_lt_names (name : String) (pl : Place) : ["building", name] < pl.names := by
  have hrunning : "building" < "running" := by decide
  have hwaiting : "building" < "waiting" := by decide
  cases pl <;> simp [Place.names, Place.directory, List.cons_lt_cons_iff, hrunning, hwaiting]

/-- The files in the making below a directory, in the order of their names. -/
structure ListsBuilt (q : Queue) (dir : Location) (names : List String) : Prop where
  sorted : names.Pairwise (· < ·)
  mem : ∀ name, name ∈ names ↔ dir <+: ["building", name] ∧ (q.building name).isSome

theorem ListsBuilt.eq_nil {q : Queue} {dir : Location} {names : List String}
    (h : q.ListsBuilt dir names)
    (hbuilding : ∀ name, dir <+: ["building", name] → q.building name = none) : names = [] := by
  rw [List.eq_nil_iff_forall_not_mem]
  intro name hname
  obtain ⟨hdir, hsome⟩ := (h.mem name).1 hname
  rw [hbuilding name hdir] at hsome
  cases hsome

/-- What lies in something lies in a directory with a name. -/
theorem get?_parent {q : Queue} (hhoused : ∀ pl, (q.files pl).isSome → q.Houses pl)
    {names : Location} {n m : String} {e : Entry} (he : q.get? (names ++ [n] ++ [m]) = some e) :
    IsPlain n ∧ q.get? (names ++ [n]) = some .directory := by
  have state : ∀ {other name}, IsState name → names ++ [n] ++ [m] = [name, other] →
      IsPlain n ∧ q.get? (names ++ [n]) = some .directory := by
    intro other name hname heq
    obtain rfl : names = [] := by simpa using congrArg List.length heq
    obtain ⟨rfl, -⟩ := List.cons_eq_cons.1 heq
    exact ⟨hname.isPlain, q.get?_state hname⟩
  rcases q.get?_cases (names ++ [n] ++ [m]) with hnone | hdir | ⟨contents, hfile⟩
  · rw [hnone] at he
    cases he
  · obtain ⟨-, hdir⟩ := get?_eq_directory_iff.1 hdir
    match hnames : names ++ [n] ++ [m] with
    | [] | [_] => simp [List.append_eq_singleton_iff] at hnames
    | [name, shard] =>
      rw [hnames, isDirectory, Bool.and_eq_true, decide_eq_true_iff] at hdir
      exact state (.inr (.inr hdir.1)) hnames
    | _ :: _ :: _ :: _ =>
      rw [hnames] at hdir
      cases hdir
  · rcases get?_eq_file_iff.1 hfile with ⟨pl, u, hpl, hu, -⟩ | ⟨name, hname, -⟩
    · obtain ⟨hdir, -⟩ := List.append_inj' hpl rfl
      refine ⟨?_, hdir ▸ q.get?_directory (hhoused pl (by rw [hu]; rfl))⟩
      cases pl with
      | running key => exact (state (.inr (.inl rfl)) hpl.symm).1
      | flat key => exact (state (.inr (.inr rfl)) hpl.symm).1
      | sharded key =>
        have hshard : ["waiting"] ++ [key.shard] = names ++ [n] := hdir
        obtain ⟨-, hn⟩ := List.append_inj' hshard rfl
        cases hn
        exact key.isPlain_shard
    · exact state (.inl rfl) hname

/-- What is read of a file in the making. -/
def readBuilt? (q : Queue) (layout : Layout) (name : String) : Option (Path × Bytes) :=
  if (layout.building.join name).isTooLong then none
  else (q.building name).map (layout.building.join name, ·)

/-- What is read of the file at a place. -/
def readPlace? (q : Queue) (layout : Layout) (pl : Place) : Option (Path × Bytes) :=
  if layout.reaches pl then (q.files pl).map (layout.pathOf pl, ·.record) else none

end Queue

/-- The places that are below a directory of a disk. -/
def Disk.placesBelow (d : Disk) (root dir : Location) : List Place :=
  (d.subtree (root ++ dir)).filterMap fun p => Place.ofNames? (dir ++ p.1)

/-- The names of the files in the making that are below a directory of a disk. -/
def Disk.builtBelow (d : Disk) (root dir : Location) : List String :=
  (d.subtree (root ++ dir)).filterMap fun p => Queue.builtName? (dir ++ p.1)

/-- Where what `f` takes comes before what `g` takes, both are taken one after the other. -/
theorem filterMap_or_append {α β : Type} {r : α → α → Prop} {l : List α} (hl : l.Pairwise r)
    {f g : α → Option β} (hone : ∀ a, (f a).isSome → g a = none)
    (hr : ∀ a b, (g a).isSome → (f b).isSome → ¬r a b) :
    (l.filterMap fun a => (f a).or (g a)) = l.filterMap f ++ l.filterMap g := by
  induction l with
  | nil => rfl
  | cons a l ih =>
    obtain ⟨ha, hrest⟩ := List.pairwise_cons.1 hl
    have hl := ih hrest
    cases hf : f a with
    | some b =>
      have hg : g a = none := hone a (by rw [hf]; rfl)
      rw [List.filterMap_cons_some (b := b) (by rw [hf]; rfl), List.filterMap_cons_some hf,
        List.filterMap_cons_none hg, hl]
      rfl
    | none =>
      rw [List.filterMap_cons_none hf]
      cases hg : g a with
      | none =>
        rw [List.filterMap_cons_none (by rw [hf, hg]; rfl), List.filterMap_cons_none hg, hl]
      | some b =>
        -- What `f` takes would come before `a`, so there is no more of it.
        have hnone : l.filterMap f = [] := by
          rw [List.filterMap_eq_nil_iff]
          intro b hb
          by_contra hsome
          exact hr a b (by rw [hg]; rfl) (Option.isSome_iff_ne_none.2 hsome) (ha b hb)
        rw [List.filterMap_cons_some (b := b) (by rw [hf, hg]; rfl), List.filterMap_cons_some hg, hl,
          hnone]
        rfl

namespace Layout

/-- The path of a directory of the queue. -/
def directoryAt (layout : Layout) (dir : Location) : Path :=
  dir.foldl Path.join layout.refUpdates

theorem directoryAt_nil (layout : Layout) : layout.directoryAt [] = layout.refUpdates := rfl

theorem directoryAt_singleton (layout : Layout) (state : String) :
    layout.directoryAt [state] = layout.refUpdates.join state := rfl

theorem directoryOf_eq (layout : Layout) (pl : Place) :
    layout.directoryOf pl = layout.directoryAt pl.directory := by
  cases pl <;> rfl

theorem pathOf_eq (layout : Layout) (pl : Place) :
    layout.pathOf pl = layout.directoryAt pl.names := by
  cases pl <;> rfl

end Layout

namespace Site.Shows

variable {site : Site} {layout : Layout} {q : Queue} {s : System} {dir : Location}

open Plan

theorem mem_subtree (h : site.Shows q s) (dir names : Location) (e : Entry) :
    (names, e) ∈ s.disk.subtree (site.root ++ dir) ↔ q.get? (dir ++ names) = some e := by
  rw [Disk.mem_subtree, List.append_assoc, h.inside]

theorem isTreeBelow (h : site.Shows q s) (dir : Location) :
    s.disk.IsTreeBelow (site.root ++ dir) := by
  intro names n m e he
  simp only [List.append_assoc] at he ⊢
  rw [h.inside] at he ⊢
  simp only [← List.append_assoc] at he ⊢
  obtain ⟨hn, hdir⟩ := Queue.get?_parent h.housed he
  exact ⟨hn, _, hdir, rfl, by simp⟩

theorem lists_placesBelow (h : site.Shows q s) (dir : Location) :
    q.Lists dir (s.disk.placesBelow site.root dir) where
  sorted := by
    rw [List.pairwise_map]
    refine (Disk.sorted_subtree s.disk (site.root ++ dir)).filterMap _ ?_
    intro a a' hlt pl hpl pl' hpl'
    rw [Place.ofNames?_eq_some_iff] at hpl hpl'
    rw [hpl, hpl']
    exact List.append_left_lt hlt
  mem pl := by
    unfold Disk.placesBelow
    rw [List.mem_filterMap]
    constructor
    · rintro ⟨⟨names, e⟩, hmem, hpl⟩
      rw [Place.ofNames?_eq_some_iff] at hpl
      rw [h.mem_subtree, ← hpl, q.get?_names] at hmem
      refine ⟨hpl ▸ List.prefix_append _ _, ?_⟩
      rw [← Option.isSome_map, hmem]
      rfl
    · rintro ⟨⟨names, hnames⟩, hfile⟩
      obtain ⟨u, hu⟩ := Option.isSome_iff_exists.1 hfile
      refine ⟨(names, .file u.record), ?_, ?_⟩
      · rw [h.mem_subtree, hnames, q.get?_names, hu]
        rfl
      · rw [Place.ofNames?_eq_some_iff]
        exact hnames.symm

theorem lists_builtBelow (h : site.Shows q s) (dir : Location) :
    q.ListsBuilt dir (s.disk.builtBelow site.root dir) where
  sorted := by
    refine (Disk.sorted_subtree s.disk (site.root ++ dir)).filterMap _ ?_
    intro a a' hlt name hname name' hname'
    rw [Queue.builtName?_eq_some_iff] at hname hname'
    have hnames : dir ++ a.1 < dir ++ a'.1 := List.append_left_lt hlt
    rw [hname, hname'] at hnames
    simpa [List.cons_lt_cons_iff] using hnames
  mem name := by
    unfold Disk.builtBelow
    rw [List.mem_filterMap]
    constructor
    · rintro ⟨⟨names, e⟩, hmem, hname⟩
      rw [Queue.builtName?_eq_some_iff] at hname
      rw [h.mem_subtree, hname, q.get?_building] at hmem
      refine ⟨hname ▸ List.prefix_append _ _, ?_⟩
      rw [← Option.isSome_map, hmem]
      rfl
    · rintro ⟨⟨names, hnames⟩, hbuilt⟩
      obtain ⟨bytes, hbytes⟩ := Option.isSome_iff_exists.1 hbuilt
      refine ⟨(names, .file bytes), ?_, ?_⟩
      · rw [h.mem_subtree, hnames, q.get?_building, hbytes]
        rfl
      · rw [Queue.builtName?_eq_some_iff]
        exact hnames

theorem readable?_pathOf (h : site.Shows q s) (ho : site.Opens layout) {pl : Place} {u : Update}
    (hu : q.files pl = some u) :
    s.disk.readable? s.cwd (layout.pathOf pl) =
      if layout.reaches pl then some (layout.pathOf pl, u.record) else none := by
  have hhouses := h.housed pl (by rw [hu]; rfl)
  have hfile : s.disk.get? (site.root ++ pl.directory ++ [pl.key.text]) =
      some (.file u.record) := by
    rw [h.get?_place, hu]
    rfl
  have hcontents := (h.leads_directory ho hhouses).contents_join pl.key.isPlain_text hfile
  rw [layout.isTooLong_pathOf, ← Layout.pathOf] at hcontents
  rw [Disk.readable?, hcontents]
  cases layout.reaches pl <;> rfl

theorem readable?_built (h : site.Shows q s) (hs : site.Serves layout) {name : String}
    (hname : IsPlain name) {bytes : Bytes} (hbytes : q.building name = some bytes) :
    s.disk.readable? s.cwd (layout.building.join name) = q.readBuilt? layout name := by
  have hfile : s.disk.get? (site.root ++ ["building"] ++ [name]) = some (.file bytes) := by
    rw [List.append_assoc, h.inside]
    show q.get? ["building", name] = _
    rw [q.get?_building, hbytes]
    rfl
  have hcontents := (h.leads_state hs.opens (.inl rfl)).contents_join hname hfile
  rw [Disk.readable?, Layout.building, hcontents, Queue.readBuilt?, hbytes, Layout.building]
  split <;> rfl

/-- What is read of one entry below a directory. -/
theorem read_entry (h : site.Shows q s) (hs : site.Serves layout)
    (hdir : q.get? dir = some .directory)
    (hplain : ∀ name, dir <+: ["building", name] → (q.building name).isSome → IsPlain name)
    {names : Location} {e : Entry} (he : q.get? (dir ++ names) = some e) :
    ((Disk.walkedFile? (layout.directoryAt dir) (names, e)).bind fun file =>
        s.disk.readable? s.cwd ((layout.directoryAt dir).below file.1)) =
      ((Queue.builtName? (dir ++ names)).bind (q.readBuilt? layout)).or
        ((Place.ofNames? (dir ++ names)).bind (q.readPlace? layout)) := by
  have hpath : ∀ l : Location, (layout.directoryAt dir).below l = layout.directoryAt (dir ++ l) :=
    fun l => (List.foldl_append ..).symm
  have hdrop : names ≠ [] → dir ++ names.dropLast = (dir ++ names).dropLast := fun hne =>
    (List.dropLast_append_of_ne_nil hne).symm
  have hne : ∀ {bytes}, e = .file bytes → names ≠ [] := by
    rintro bytes rfl rfl
    rw [List.append_nil, hdir] at he
    cases he
  cases hplace : Place.ofNames? (dir ++ names) with
  | some pl =>
    rw [Place.ofNames?_eq_some_iff] at hplace
    rw [← hplace, q.get?_names] at he
    obtain ⟨u, hu, rfl⟩ := Option.map_eq_some_iff.1 he
    rw [Disk.walkedFile?, hpath, hdrop (hne rfl), ← hplace, Queue.builtName?_names,
      Option.bind_none, Option.none_or, Option.bind_some, Queue.readPlace?, Place.names,
      List.dropLast_concat, ← layout.directoryOf_eq]
    by_cases hlong : (layout.directoryOf pl).isTooLong
    · rw [if_pos (.inr hlong), Layout.reaches_eq_false_of_directory hlong]
      rfl
    · rw [if_neg (by simp [hne rfl, hlong]), Option.bind_some, hpath, ← hplace, ← layout.pathOf_eq,
        h.readable?_pathOf hs.opens hu, hu]
      rfl
  | none =>
    rw [Option.bind_none, Option.or_none]
    cases hbuilt : Queue.builtName? (dir ++ names) with
    | some name =>
      rw [Queue.builtName?_eq_some_iff] at hbuilt
      rw [hbuilt, q.get?_building] at he
      obtain ⟨bytes, hbytes, rfl⟩ := Option.map_eq_some_iff.1 he
      have hname : IsPlain name :=
        hplain name (hbuilt ▸ List.prefix_append _ _) (by rw [hbytes]; rfl)
      have hshort : (layout.directoryAt ["building"]).isTooLong = false := hs.fits
      rw [Disk.walkedFile?, hpath, hdrop (hne rfl), hbuilt, List.dropLast_cons_cons,
        List.dropLast_singleton, if_neg (by simp [hne rfl, hshort]), Option.bind_some, hpath, hbuilt,
        Option.bind_some]
      exact h.readable?_built hs hname hbytes
    | none =>
      rw [Option.bind_none]
      rcases q.get?_cases (dir ++ names) with hget | hget | ⟨contents, hget⟩
      · rw [hget] at he
        cases he
      · rw [hget] at he
        cases he
        rfl
      · rw [q.get?_of_none hplace] at hget
        obtain ⟨name, hnames, -⟩ := Queue.frame?_file hget
        rw [Queue.builtName?_eq_some_iff.2 hnames] at hbuilt
        cases hbuilt

/-- What a listing reads: the files in the making, and then the records at the places that are
reached, one after the other. -/
theorem readable_walkedBelow (h : site.Shows q s) (hs : site.Serves layout)
    (hdir : q.get? dir = some .directory)
    (hplain : ∀ name, dir <+: ["building", name] → (q.building name).isSome → IsPlain name) :
    ((s.disk.walkedBelow (site.root ++ dir) (layout.directoryAt dir)).map fun file =>
        (layout.directoryAt dir).below file.1).filterMap (s.disk.readable? s.cwd) =
      (s.disk.builtBelow site.root dir).filterMap (q.readBuilt? layout) ++
        (s.disk.placesBelow site.root dir).filterMap (q.readPlace? layout) := by
  unfold Disk.walkedBelow Disk.placesBelow Disk.builtBelow
  rw [List.filterMap_map, List.filterMap_filterMap, List.filterMap_filterMap,
    List.filterMap_filterMap, ← filterMap_or_append (Disk.sorted_subtree s.disk _) ?_ ?_]
  · refine List.filterMap_congr fun ⟨names, e⟩ hmem => ?_
    rw [h.mem_subtree] at hmem
    exact h.read_entry hs hdir hplain hmem
  · rintro ⟨names, e⟩ hbuilt
    obtain ⟨name, hname⟩ := Option.isSome_iff_exists.1 (Option.isSome_of_isSome_bind hbuilt)
    rw [Queue.builtName?_eq_some_iff] at hname
    rw [hname, Place.ofNames?_building, Option.bind_none]
  · rintro ⟨names, e⟩ ⟨names', e'⟩ hplace hbuilt hlt
    obtain ⟨pl, hpl⟩ := Option.isSome_iff_exists.1 (Option.isSome_of_isSome_bind hplace)
    obtain ⟨name, hname⟩ := Option.isSome_iff_exists.1 (Option.isSome_of_isSome_bind hbuilt)
    rw [Place.ofNames?_eq_some_iff] at hpl
    rw [Queue.builtName?_eq_some_iff] at hname
    have hnames : dir ++ names < dir ++ names' := List.append_left_lt hlt
    rw [← hpl, hname] at hnames
    exact List.lt_asymm hnames (Queue.built_lt_names name pl)

/-- A directory of the queue is walked and its files are read. -/
theorem run_list_all (h : site.Shows q s) (hs : site.Serves layout)
    (hdir : dir = [] ∨ ∃ state, IsState state ∧ dir = [state])
    (hplain : ∀ name, dir <+: ["building", name] → (q.building name).isSome → IsPlain name) :
    ∃ names pls log, q.ListsBuilt dir names ∧ q.Lists dir pls ∧
      (Files.list (layout.directoryAt dir)).run s =
        (names.filterMap (q.readBuilt? layout) ++ pls.filterMap (q.readPlace? layout),
          { s with log }) := by
  have hbelow := h.isTreeBelow dir
  have hwalk : (s.disk.walk s.cwd (layout.directoryAt dir)).files =
      (s.disk.walkedBelow (site.root ++ dir) (layout.directoryAt dir)).map fun file =>
        (layout.directoryAt dir).below file.1 := by
    rcases hdir with rfl | ⟨state, hstate, rfl⟩
    · have hfits := hs.refUpdates_fits
      rw [Layout.refUpdates] at hfits
      rw [List.append_nil] at hbelow ⊢
      rw [layout.directoryAt_nil, Layout.refUpdates]
      exact (h.leads_events hs.opens).files_walk_join isPlain_refUpdates h.get?_root rfl
        hfits hbelow
    · rw [layout.directoryAt_singleton]
      exact (h.leads_refUpdates hs.opens).files_walk_join hstate.isPlain (h.get?_state hstate) rfl
        (hs.state_fits hstate) hbelow
  have hthere : q.get? dir = some .directory := by
    rcases hdir with rfl | ⟨state, hstate, rfl⟩
    · rfl
    · exact q.get?_state hstate
  have hlist := Files.run_list (layout.directoryAt dir) s
  rw [hwalk, h.readable_walkedBelow hs hthere hplain] at hlist
  exact ⟨_, _, _, h.lists_builtBelow dir, h.lists_placesBelow dir, hlist⟩

/-- Where nothing is in the making, the records at the places are what is read. -/
theorem run_list (h : site.Shows q s) (hs : site.Serves layout)
    (hdir : dir = [] ∨ ∃ state, IsState state ∧ dir = [state])
    (hbuilding : ∀ name, dir <+: ["building", name] → q.building name = none) :
    ∃ pls log, q.Lists dir pls ∧
      (Files.list (layout.directoryAt dir)).run s =
        ((pls.filter layout.reaches).filterMap fun pl =>
          (q.files pl).map (layout.pathOf pl, ·.record), { s with log }) := by
  obtain ⟨names, pls, log, hbuilt, hlists, hrun⟩ := h.run_list_all hs hdir fun name hname hsome => by
    rw [hbuilding name hname] at hsome
    cases hsome
  refine ⟨pls, log, hlists, ?_⟩
  rw [hrun, hbuilt.eq_nil hbuilding, List.filterMap_filter]
  rfl

end Site.Shows

end ReplicationQueue
