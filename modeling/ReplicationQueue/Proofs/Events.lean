import ReplicationQueue.Proofs.Inventory
import ReplicationQueue.Proofs.Publication

/-! What an operation tells, against how it ends. There are as many errors as failures, a task that
is not queued has one warning, and a file that a listing passes over has one event, which is a
warning unless the file may be in the making. -/

namespace ReplicationQueue

/-! ### Files that are passed over -/

namespace Layout

variable (layout : Layout) {dir names : Location} {file : Location × Bytes}

theorem directoryAt_append (dir names : Location) :
    layout.directoryAt (dir ++ names) = (layout.directoryAt dir).below names :=
  layout.refUpdates.below_append dir names

/-- What is at or below the building directory is told by the names of its path. -/
theorem startsWith_building (h : ∀ n ∈ names, IsPlain n) :
    (layout.directoryAt names).startsWith layout.building = true ↔ ["building"] <+: names := by
  unfold Path.startsWith
  rw [List.isPrefixOf_iff_prefix, directoryAt, ← Path.below, Path.parts_below _ h, building,
    Path.parts_join _ (IsState.isPlain (.inl rfl)), List.prefix_append_right_inj]
  cases names with
  | nil => simp
  | cons n rest => simp [List.cons_prefix_cons]

/-- The event for a listed file, by its names below a directory of the queue. There is none for a
record, and any other file is passed over; in the building directory it may be in the making. -/
def passedOver? (dir : Location) (file : Location × Bytes) : Option Event :=
  match Update.parse file.2 with
  | .ok _ => none
  | .error fault =>
    let error := StoreError.record (layout.directoryAt (dir ++ file.1)) fault
    some <| if ["building"] <+: dir ++ file.1 then .unfinishedRecord error
      else .malformedRecord error

/-- A file is passed over if it holds no record, with a warning unless it may be in the making. -/
theorem level_passedOver? : (layout.passedOver? dir file).map Event.level =
    if (Update.parse file.2).toOption.isSome then none
    else some (if ["building"] <+: dir ++ file.1 then .debug else .warn) := by
  unfold passedOver?
  cases Update.parse file.2 with
  | ok u => rfl
  | error fault =>
    simp only [Option.map_some]
    split <;> rfl

end Layout

namespace Store

open Plan Disk

variable {store : Store} {s : System}

/-- A listing tells of a file by its path; its names say as much. -/
theorem skipped?_eq_passedOver? {dir : Location} (hdir : ∀ n ∈ dir, IsPlain n)
    {file : Location × Bytes} (hfile : ∀ n ∈ file.1, IsPlain n) :
    store.skipped? ((store.layout.directoryAt dir).below file.1, file.2) =
      store.layout.passedOver? dir file := by
  have hpath := store.layout.directoryAt_append dir file.1
  have hflight : store.isInFlight (store.layout.directoryAt (dir ++ file.1)) = true ↔
      ["building"] <+: dir ++ file.1 :=
    store.layout.startsWith_building (List.forall_mem_append.2 ⟨hdir, hfile⟩)
  unfold skipped? Layout.passedOver?
  cases Update.parse file.2 with
  | ok u => rfl
  | error fault => simp only [← hpath, hflight]

/-- What a listing tells: of what it cannot enter or make, then of the files that it comes upon but
cannot read, and then of those that it passes over. -/
structure TellsListing (store : Store) (s : System) (dir : Location)
    (listing : Plan (List Update)) : Prop where
  told : ∃ walked notes, s.disk.Walks s.cwd (store.layout.directoryAt dir) walked ∧
    (listing.run s).2.log = s.log ++
      (notes ++ walked.filterMap (unreadBelow? (store.layout.directoryAt dir))) ++
        (walked.filter (IsInReach (store.layout.directoryAt dir))).filterMap
          (store.layout.passedOver? dir) ∧
    ∀ event ∈ notes, event.level = .error ∧
      (event.StaysClosed ∨ ∃ error, event = .notListed error)
  unread : ∀ file, (unreadBelow? (store.layout.directoryAt dir) file).map Event.level =
    if IsInReach (store.layout.directoryAt dir) file then none else some .error
  passed : ∀ file, (store.layout.passedOver? dir file).map Event.level =
    if (Update.parse file.2).toOption.isSome then none
    else some (if ["building"] <+: dir ++ file.1 then .debug else .warn)

theorem listBelow_tells (hd : s.disk.IsTree) (h : store.HasEvents s) {dir : Location}
    (hdir : IsListed dir) :
    store.TellsListing s dir (store.listBelow (store.layout.directoryAt dir)) where
  told := by
    obtain ⟨walked, notes, hwalks, hnotes, -, hlog⟩ := store.run_listBelow_exact hd
      (hdir.text_ne_empty store.layout) (h.leadsAfresh hd hdir)
    have hpassed : (walked.filter (IsInReach (store.layout.directoryAt dir))).filterMap (fun file =>
        store.skipped? ((store.layout.directoryAt dir).below file.1, file.2)) =
          (walked.filter (IsInReach (store.layout.directoryAt dir))).filterMap
            (store.layout.passedOver? dir) := by
      refine List.filterMap_congr fun file hfile => ?_
      have hbelow := ((hwalks.mem file.1 file.2).1 (List.mem_of_mem_filter hfile)).1
      exact skipped?_eq_passedOver? hdir.isPlain (hbelow.isPlain hd)
    refine ⟨walked, notes, hwalks, by rw [hlog, hpassed], fun event hevent => ?_⟩
    have hcases := hnotes event hevent
    refine ⟨?_, hcases⟩
    rcases hcases with hclosed | ⟨error, rfl⟩
    · exact hclosed.level
    · rfl
  unread _ := level_unreadBelow?
  passed _ := store.layout.level_passedOver?

theorem namedListings_tell (hd : s.disk.IsTree) (h : store.HasEvents s)
    {dir : Location} {listing : Plan (List Update)} (hmem : (dir, listing) ∈ store.namedListings) :
    store.TellsListing s dir listing := by
  obtain ⟨hdir, rfl⟩ := isListed_of_mem hmem
  exact listBelow_tells hd h hdir

/-! ### Tasks that are queued -/

section Queueing

variable {u : Update} {s' : System}

/-- A task waits after it was queued and nothing is loud, or it does not and there is one warning,
also where writes are refused. -/
theorem create_tells (h : store.layout.events.IsForward) (hd : s.disk.IsLinkless) {key : TaskKey}
    (hmay : (store.create u).MayRun s key s') :
    ∃ events, s'.log = s.log ++ events ∧
      (((store.task u).isWaiting.run s').1 = true ∧ (∀ event ∈ events, event.level = .debug) ∨
        ((store.task u).isWaiting.run s').1 = false ∧ Tally .warn 1 events) := by
  cases hwaits : ((store.task u).isWaiting.run s).1 with
  | true =>
    obtain ⟨-, rfl⟩ := create_again hwaits hmay
    have hagain : ((store.task u).isWaiting.run
        { s with log := s.log ++ [.alreadyWaiting (.update u)] }).1 = true := by
      rw [Task.run_isWaiting_any] at hwaits ⊢
      exact hwaits
    exact ⟨[.alreadyWaiting (.update u)], rfl, .inl ⟨hagain, by simp [Event.level]⟩⟩
  | false =>
    obtain ⟨-, r, left, hpublish, rfl⟩ := create_idle hwaits hmay
    obtain ⟨d, drawn, events, rfl, hquiet, hd', hcases⟩ :=
      Task.publish_forward (t := store.task u) h hd (Task.exists?_of_idle hwaits) hpublish
    rcases hcases with ⟨rfl, hc, d₀, hpaves, hdisk⟩ | ⟨⟨error, rfl⟩, hpaves⟩
    · have hfile : d.get? (store.layout.home s.cwd ++
          (store.layout.waitingPlace (.derive u)).names) = some (.file u.record) := by
        rw [hdisk]
        exact (Disk.get?_put ..).trans (if_pos rfl)
      have hqueued := Task.isWaiting_queued (t := store.task u)
        (s := ⟨d, s.cwd, s.names, drawn, s.log ++ events⟩) h hd' hc hfile
      exact ⟨events, rfl, .inl ⟨hqueued, hquiet⟩⟩
    · have hone : Tally .warn 1 [Event.notCreated u error] := .one rfl
      have htally := (Tally.quiet (by decide) hquiet).append hone
      rw [Nat.zero_add] at htally
      have hkept : ((store.task u).isWaiting.run
          ⟨d, s.cwd, s.names, drawn, s.log ++ events ++ [.notCreated u error]⟩).1 =
            ((store.task u).isWaiting.run s).1 :=
        Task.isWaiting_paved (t := store.task u) h hd rfl hd' hpaves
      exact ⟨_, List.append_assoc .., .inr ⟨hkept.trans hwaits, htally⟩⟩

end Queueing

/-- No failure is silent, and what another node may have caused is not loud. Claiming, giving back,
retiring and forgetting tell as many errors as they have failures, and nothing else but for
debugging, on every disk. In any tree without links a task waits after it was queued, and nothing is
loud, or it does not wait and there is one warning; and a listing tells of each file that it passes
over, loudly unless it may be in the making, and else only errors. -/
theorem failures_told (store : Store) (s : System) (htree : s.disk.IsLinkless)
    (hforward : ".." ∉ store.layout.events.names) :
    (∀ push, ∀ transitions ∈ [store.start push, store.reset push, store.finish push],
        transitions.Tells fun result events => TellsErrors result.failed events) ∧
      (∀ u, (store.delete u).Tells fun outcome events => TellsErrors outcome.failures events) ∧
      (∀ u, ∃ events, ((store.create u).run s).2.log = s.log ++ events ∧
        (((store.task u).isWaiting.run ((store.create u).run s).2).1 = true ∧
            (∀ event ∈ events, event.level = .debug) ∨
          ((store.task u).isWaiting.run ((store.create u).run s).2).1 = false ∧
            Tally .warn 1 events)) ∧
      ∀ dir listing, (dir, listing) ∈ store.namedListings → store.TellsListing s dir listing := by
  have tells : ∀ push : Push, ∀ transition : Task → Plan Outcome,
      (∀ t, (transition t).Tells fun outcome events => TellsErrors outcome.failures events) →
        (store.each transition push.updates .empty).Tells fun result events =>
          TellsErrors result.failed events := by
    intro push transition htransition
    refine (store.each_tells htransition push.updates .empty).mono ?_
    rintro result events ⟨failures, hfailed, htold⟩
    rw [hfailed]
    exact (Nat.zero_add failures).symm ▸ htold
  refine ⟨fun push transitions hmem => ?_, fun u => (store.task u).delete_tells,
    fun u => create_tells hforward htree (mayRun_run _ _),
    fun _ _ => namedListings_tell htree.toIsTree (.inl hforward)⟩
  simp only [List.mem_cons, List.not_mem_nil, or_false] at hmem
  rcases hmem with rfl | rfl | rfl
  · exact tells push Task.start Task.start_tells
  · exact tells push Task.reset Task.reset_tells
  · exact tells push Task.finish Task.finish_tells

/-- A file in the making that holds no record yet is passed over quietly. -/
theorem failures_told_building :
    (OneBuilding.system []).disk.IsLinkless ∧ ".." ∉ (OneBuilding.store 0).layout.events.names ∧
      ∃ event ∈ ((OneBuilding.store 0).listBuilding.run (OneBuilding.system [])).2.log,
        event.level = .debug := by
  have hroom : 2 * 0 + 24 ≤ maxPathBytes := by decide
  generalize 0 = n at hroom ⊢
  have hforward : ".." ∉ (OneBuilding.store n).layout.events.names := Path.up_not_mem_names_here n
  have htree : (OneBuilding.system []).disk.IsLinkless := OneBuilding.isLinkless _
  refine ⟨htree, hforward, ?_⟩
  obtain ⟨-, -, -, hlistings⟩ := failures_told (OneBuilding.store n) _ htree hforward
  obtain ⟨⟨walked, notes, hwalks, hlog, -⟩, -, hlevels⟩ :=
    hlistings ["building"] _ (.tail _ (.head _))
  rw [Layout.directoryAt_singleton, ← Layout.building] at hwalks hlog
  have hbelow : (oneBuilding []).HasBelow [] (OneBuilding.store n).layout.building ["x"] [] :=
    ⟨by simp, _, OneBuilding.locate_building _ (by omega), rfl⟩
  have hshort : ((OneBuilding.store n).layout.building.below ["x"]).isTooLong = false := by
    rw [Path.below_cons, Path.below_nil, OneBuilding.isTooLong_file]
    exact decide_eq_false (by omega)
  have hfound := ((hwalks.lists htree.toIsTree).mem ["x"] []).2 ⟨hbelow, hshort⟩
  have hlevel := hlevels (["x"], [])
  rw [if_neg (by decide), if_pos (List.prefix_append _ _)] at hlevel
  obtain ⟨event, hevent, hdebug⟩ := Option.map_eq_some_iff.1 hlevel
  rw [hlog]
  exact ⟨event, List.mem_append_right _ (List.mem_filterMap.2 ⟨_, hfound, hevent⟩), hdebug⟩

end Store

/-! ### A file in the place of the building directory -/

/-- A disk with a queue below its root, in which a file stands in the place of a directory. -/
def buildingFile (bytes : Bytes) : Disk :=
  (Disk.blank.put ["ref-updates"] .directory).put ["ref-updates", "building"] (.file bytes)

namespace BuildingFile

open Disk

variable {n : Nat}

theorem isLinkless (bytes : Bytes) : (buildingFile bytes).IsLinkless := by
  have hroot := isLinkless_blank.put_directory isPlain_refUpdates (l := []) rfl rfl
  exact hroot.put_file (l := ["ref-updates"]) (IsState.isPlain (.inl rfl)) rfl rfl bytes

theorem locate_refUpdates {bytes : Bytes} (h : 2 * n + 22 ≤ maxPathBytes) :
    (buildingFile bytes).locate [] (OneBuilding.store n).layout.refUpdates =
      .ok ["ref-updates"] := by
  have hevents := leads_of_locate (locate_here (buildingFile bytes) (n := n) (by omega)) rfl
  refine (hevents.locate_join isPlain_refUpdates (e := .directory) rfl (by simp)).trans (if_neg ?_)
  rw [Path.isTooLong, decide_eq_true_eq]
  have hsize := Site.utf8ByteSize_refUpdates_here (n := n) (w := .flat)
  rw [Layout.refUpdates] at hsize
  show ¬maxPathBytes < ((Site.layoutHere n .flat).events.join "ref-updates").text.utf8ByteSize
  omega

/-- There is no other file. -/
theorem names_of_hasBelow (h : 2 * n + 22 ≤ maxPathBytes) {bytes other : Bytes} {names : Location}
    (hbelow : (buildingFile bytes).HasBelow [] (OneBuilding.store n).layout.refUpdates names other) :
    names = ["building"] := by
  obtain ⟨-, l, hl, hfile⟩ := hbelow
  rw [locate_refUpdates h] at hl
  obtain rfl := Except.ok.inj hl
  by_contra hne
  have hnone : Disk.blank.get? ("ref-updates" :: names) = none := rfl
  simp only [buildingFile, get?_put, List.cons_append, List.nil_append, List.cons.injEq, true_and,
    hne, if_false, hnone] at hfile
  split at hfile <;> cases hfile

def system (bytes : Bytes) : System :=
  { Session.blank.system with disk := buildingFile bytes }

/-- Nothing that is told is a warning. -/
theorem list_quiet {bytes : Bytes} (h : 2 * n + 22 ≤ maxPathBytes)
    (hforward : (OneBuilding.store n).layout.events.IsForward) :
    ∀ event ∈ ((OneBuilding.store n).list.run (system bytes)).2.log, event.level ≠ .warn := by
  have htells : (OneBuilding.store n).TellsListing (system bytes) [] (OneBuilding.store n).list :=
    Store.namedListings_tell (isLinkless bytes).toIsTree (.inl hforward) (.head _)
  obtain ⟨⟨walked, notes, hwalks, hlog, hnotes⟩, hunread, hpassed⟩ := htells
  rw [hlog, show (system bytes).log = [] from rfl, List.nil_append]
  intro event hevent
  rcases List.mem_append.1 hevent with hevent | hevent
  · rcases List.mem_append.1 hevent with hnote | hevent
    · rw [(hnotes event hnote).1]
      decide
    · obtain ⟨file, -, hsome⟩ := List.mem_filterMap.1 hevent
      have hlevel := hunread file
      rw [hsome, Option.map_some] at hlevel
      split at hlevel
      · cases hlevel
      · rw [Option.some.inj hlevel]
        decide
  · obtain ⟨⟨names, other⟩, hfile, hsome⟩ := List.mem_filterMap.1 hevent
    obtain rfl := names_of_hasBelow h ((hwalks.mem _ _).1 (List.mem_of_mem_filter hfile)).1
    have hlevel := hpassed (["building"], other)
    rw [hsome, Option.map_some] at hlevel
    split at hlevel
    · cases hlevel
    · rw [Option.some.inj hlevel, if_pos (by simp)]
      decide

end BuildingFile

namespace Store

open OneBuilding

/-- A file in the building directory that holds no record is told of by an error, if its path is too
long. And a file in the place of that directory is passed over with no warning, though it is not
below. -/
theorem passed_over_otherwise :
    (Update.parse []).toOption = none ∧
      ((system []).disk.IsLinkless ∧ ".." ∉ (store 2036).layout.events.names ∧
        (system []).disk.HasBelow [] (store 2036).layout.building ["x"] [] ∧
        ((store 2036).listBuilding.run (system [])).2.log =
          [.notRead ((store 2036).layout.building.join "x") .nameTooLong] ∧
        (Event.notRead ((store 2036).layout.building.join "x") .nameTooLong).level = .error) ∧
      (BuildingFile.system []).disk.IsLinkless ∧ ".." ∉ (store 0).layout.events.names ∧
        (BuildingFile.system []).disk.HasBelow [] (store 0).layout.refUpdates ["building"] [] ∧
        ∀ event ∈ ((store 0).list.run (BuildingFile.system [])).2.log, event.level ≠ .warn := by
  have hroom : 2 * 2036 + 22 ≤ maxPathBytes := by decide
  have hlong : maxPathBytes < 2 * 2036 + 24 := by decide
  have hforward : ∀ n, ".." ∉ (store n).layout.events.names := Path.up_not_mem_names_here
  generalize 2036 = n at hroom hlong ⊢
  have hnear : 2 * 0 + 22 ≤ maxPathBytes := by decide
  generalize 0 = m at hnear ⊢
  have hlog := congrArg (·.2.log) (run_listBuilding_long [] hroom hlong)
  exact ⟨rfl,
    ⟨OneBuilding.isLinkless _, hforward n, ⟨by simp, _, locate_building _ hroom, rfl⟩, hlog, rfl⟩,
    BuildingFile.isLinkless _, hforward m,
    ⟨by simp, _, BuildingFile.locate_refUpdates hnear, rfl⟩,
    BuildingFile.list_quiet hnear (hforward m)⟩

end Store

end ReplicationQueue
