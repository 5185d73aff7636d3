import ReplicationQueue.Proofs.Listing

/-! The requests to a store, carried out on the queue that its disk shows. Each is told by what the
queue held before, and its answer and the queue afterwards are functions of that. -/

namespace ReplicationQueue

attribute [local irreducible] Path.isTooLong

namespace Queue

/-- One transition for each key, one after the other. -/
def each (q : Queue) (f : Queue → TaskKey → Outcome × Queue) :
    List TaskKey → Summary → Summary × Queue
  | [], summary => (summary, q)
  | key :: rest, summary => each (f q key).2 f rest (summary.record (f q key).1)

/-- Gives back every running task that is reached, in the order of `pls`. -/
def resetAll (q : Queue) (layout : Layout) (pls : List Place) : Summary × Queue :=
  q.each (fun q key => q.reset layout key) ((pls.filter layout.reaches).map Place.key) .empty

end Queue

/-- The update that is read of a file in the making, if the file is a complete record. -/
def Layout.builtUpdate? (layout : Layout) (building : String → Option Bytes) (name : String) :
    Option Update :=
  if (layout.building.join name).isTooLong then none
  else (building name).bind fun bytes => (Update.parse bytes).toOption

theorem Layout.taskKey_pathOf (layout : Layout) (pl : Place) :
    (layout.pathOf pl).fileName?.bind TaskKey.parse? = some pl.key := by
  rw [pathOf, Path.fileName?_join _ pl.key.isPlain_text, Option.bind_some, TaskKey.parse?_text]

namespace Store

variable (store : Store)

theorem list_eq : store.list = store.listBelow (store.layout.directoryAt []) := by
  rw [Store.list, Layout.directoryAt_nil]

theorem listWaiting_eq :
    store.listWaiting = store.listBelow (store.layout.directoryAt ["waiting"]) := by
  rw [Store.listWaiting, Layout.directoryAt_singleton, Layout.waiting]

theorem listRunning_eq :
    store.listRunning = store.listBelow (store.layout.directoryAt ["running"]) := by
  rw [Store.listRunning, Layout.directoryAt_singleton, Layout.running]

theorem listBuilding_eq :
    store.listBuilding = store.listBelow (store.layout.directoryAt ["building"]) := by
  rw [Store.listBuilding, Layout.directoryAt_singleton, Layout.building]

end Store

namespace Push

/-- The keys of a push, one for each ref. -/
def keys (p : Push) : List TaskKey :=
  p.updates.map .derive

theorem keys_single (project uri remote ref : String) :
    Push.keys ⟨project, uri, remote, [ref]⟩ = [.derive (.canonical project ref uri remote)] := rfl

end Push

namespace Site.Shows

open Plan

variable {site : Site} {store : Store} {q : Queue} {s : System}

theorem run_each {transition : Task → Plan Outcome} {f : Queue → TaskKey → Outcome × Queue}
    (hstep : ∀ q s u, site.Shows q s →
      site.Agrees ((transition (store.task u)).run s) (f q (.derive u)))
    (h : site.Shows q s) (us : List Update) (summary : Summary) :
    site.Agrees ((store.each transition us summary).run s)
      (q.each f (us.map .derive) summary) := by
  induction us generalizing q s summary with
  | nil => exact ⟨rfl, h⟩
  | cons u rest ih =>
    obtain ⟨hanswer, hshows⟩ := hstep q s u h
    rw [Store.each, run_bind, hanswer]
    exact ih hshows _

theorem run_start_push (h : site.Shows q s) (hs : site.Serves store.layout) (p : Push) :
    site.Agrees ((store.start p).run s)
      (q.each (fun q key => q.start store.layout key) p.keys .empty) :=
  h.run_each (fun _ _ _ h => h.run_start hs) p.updates .empty

theorem run_reset_push (h : site.Shows q s) (hs : site.Serves store.layout) (p : Push) :
    site.Agrees ((store.reset p).run s)
      (q.each (fun q key => q.reset store.layout key) p.keys .empty) :=
  h.run_each (fun _ _ _ h => h.run_reset hs) p.updates .empty

theorem run_finish_push (h : site.Shows q s) (hs : site.Serves store.layout) (p : Push) :
    site.Agrees ((store.finish p).run s)
      (q.each (fun q key => q.finish store.layout store.keepFinished key) p.keys .empty) :=
  h.run_each (fun _ _ _ h => h.run_finish hs) p.updates .empty

theorem run_isWaiting_push (h : site.Shows q s) (hs : site.Serves store.layout) (p : Push) :
    (store.isWaiting p).run s = (p.keys.any (q.isWaiting store.layout), s) := by
  have hany : ∀ us : List Update, (store.anyWaiting us).run s =
      ((us.map TaskKey.derive).any (q.isWaiting store.layout), s) := by
    intro us
    induction us with
    | nil => rfl
    | cons u rest ih =>
      have htask : (store.task u).isWaiting.run s = (q.isWaiting store.layout (.derive u), s) :=
        h.run_isWaiting (t := store.task u) hs
      rw [Store.anyWaiting, run_bind, htask, List.map_cons, List.any_cons]
      cases q.isWaiting store.layout (.derive u) with
      | true => rfl
      | false =>
        rw [Bool.false_or, ← ih]
        rfl
  exact hany p.updates

theorem run_createUpdate (h : site.Shows q s) (hs : site.Serves store.layout) (u : Update) :
    ((store.create u).run s).1 = .derive u ∧
      ∃ made : Bool, (made = true → site.writes store.layout = true) ∧
        (site.writes store.layout = true → q.HasRoom (.derive u) s → made = true) ∧
        site.Shows (q.create store.layout made u) ((store.create u).run s).2 := by
  rw [Store.create, run_bind]
  exact ⟨rfl, h.run_create (t := store.task u) hs rfl⟩

theorem run_deleteUpdate (h : site.Shows q s) (hs : site.Serves store.layout) (u : Update) :
    site.Agrees ((store.delete u).run s) (q.delete store.layout (.derive u)) :=
  h.run_delete (t := store.task u) hs

/-! ### All running tasks -/

theorem run_resetFiles (h : site.Shows q s) (hs : site.Serves store.layout) (pls : List Place)
    (summary : Summary) :
    site.Agrees ((store.resetFiles (pls.map store.layout.pathOf) summary).run s)
      (q.each (fun q key => q.reset store.layout key) (pls.map Place.key) summary) := by
  induction pls generalizing q s summary with
  | nil => exact ⟨rfl, h⟩
  | cons pl rest ih =>
    obtain ⟨hanswer, hshows⟩ := h.run_reset (t := ⟨store.layout, .key pl.key, false⟩) hs
    rw [List.map_cons, Store.resetFiles, Layout.taskKey_pathOf]
    simp only [run_bind]
    rw [hanswer]
    exact ih hshows _

/-- The running files are those at the places that are reached, in the order of their names. -/
theorem run_list_running (h : site.Shows q s) (hs : site.Serves store.layout) :
    ∃ pls files log, q.Lists ["running"] pls ∧
      (Files.list store.layout.running).run s = (files, { s with log }) ∧
      files.map (·.1) = (pls.filter store.layout.reaches).map store.layout.pathOf := by
  obtain ⟨pls, log, hlists, hrun⟩ := h.run_list hs (.inr ⟨"running", .inr (.inl rfl), rfl⟩)
    (by simp)
  refine ⟨pls, _, log, hlists, hrun, ?_⟩
  rw [List.map_filterMap, ← List.filterMap_eq_map']
  refine List.filterMap_congr fun pl hpl => ?_
  obtain ⟨u, hu⟩ := Option.isSome_iff_exists.1 ((hlists.mem pl).1 (List.mem_filter.1 hpl).1).2
  rw [hu]
  rfl

theorem run_resetAll (h : site.Shows q s) (hs : site.Serves store.layout) :
    ∃ pls, q.Lists ["running"] pls ∧
      site.Agrees (store.resetAll.run s) (q.resetAll store.layout pls) := by
  obtain ⟨pls, files, log, hlists, hlist, hfiles⟩ := h.run_list_running hs
  refine ⟨pls, hlists, ?_⟩
  have hlisted : site.Shows q { s with log } := h.congr rfl rfl
  obtain ⟨hanswer, hshows⟩ := hlisted.run_resetFiles hs (pls.filter store.layout.reaches) .empty
  rw [Store.resetAll, run_bind, hlist]
  simp only [run_bind, hfiles]
  constructor
  · split <;> exact hanswer
  · split <;> exact hshows.congr rfl rfl

/-! ### Listings -/

theorem ensureDirectory_directoryAt (h : site.Shows q s) (hs : site.Serves store.layout)
    {dir : Location} (hdir : dir = [] ∨ ∃ state, IsState state ∧ dir = [state]) :
    (Files.ensureDirectory (store.layout.directoryAt dir)).run s = (.ok (), s) := by
  rcases hdir with rfl | ⟨state, hstate, rfl⟩
  · have hfits := hs.refUpdates_fits
    have hopen : (s.disk.get? site.base).any Entry.isOpen := by
      rw [h.get?_base]
      exact site.isOpen
    rw [Layout.refUpdates] at hfits
    rw [Layout.directoryAt_nil, Layout.refUpdates, ensureDirectory_there
      (h.leads_events hs.opens) isPlain_refUpdates hopen h.get?_root, hfits]
    rfl
  · exact h.ensureDirectory_state hs hstate

/-- A listing tells the complete records in the making, and then the updates at the places, below
its directory, each in the order of the names. -/
theorem run_listBelow_all (h : site.Shows q s) (hs : site.Serves store.layout) {dir : Location}
    (hdir : dir = [] ∨ ∃ state, IsState state ∧ dir = [state])
    (hplain : ∀ name, dir <+: ["building", name] → (q.building name).isSome → IsPlain name) :
    ∃ names pls log, q.ListsBuilt dir names ∧ q.Lists dir pls ∧
      (store.listBelow (store.layout.directoryAt dir)).run s =
        (names.filterMap (store.layout.builtUpdate? q.building) ++
          (pls.filter store.layout.reaches).filterMap q.files, { s with log }) := by
  obtain ⟨names, pls, listed, hbuilt, hlists, hlist⟩ := h.run_list_all hs hdir hplain
  have hread := store.run_readRecords
    (names.filterMap (q.readBuilt? store.layout) ++ pls.filterMap (q.readPlace? store.layout))
    { s with log := listed }
  generalize listed ++ _ = log at hread
  refine ⟨names, pls, log, hbuilt, hlists, ?_⟩
  rw [Store.listBelow, run_bind, h.ensureDirectory_directoryAt hs hdir]
  simp only [run_bind, hlist, hread]
  rw [List.filterMap_append, List.filterMap_filterMap, List.filterMap_filterMap,
    List.filterMap_filter]
  refine congrArg (·, _) (congrArg₂ _ (List.filterMap_congr fun name _ => ?_)
    (List.filterMap_congr fun pl _ => ?_))
  · rw [Queue.readBuilt?, Layout.builtUpdate?]
    split
    · rfl
    · cases q.building name <;> rfl
  · rw [Queue.readPlace?]
    split
    · cases q.files pl with
      | none => rfl
      | some u => simp [Update.parse_record, Except.toOption]
    · rfl

/-- Where nothing is in the making, a listing tells the updates at the places below its
directory. -/
theorem run_listBelow (h : site.Shows q s) (hs : site.Serves store.layout) {dir : Location}
    (hdir : dir = [] ∨ ∃ state, IsState state ∧ dir = [state])
    (hbuilding : ∀ name, dir <+: ["building", name] → q.building name = none) :
    ∃ pls log, q.Lists dir pls ∧
      (store.listBelow (store.layout.directoryAt dir)).run s =
        ((pls.filter store.layout.reaches).filterMap q.files, { s with log }) := by
  obtain ⟨names, pls, log, hbuilt, hlists, hrun⟩ :=
    h.run_listBelow_all hs hdir fun name hname hsome => by
      rw [hbuilding name hname] at hsome
      cases hsome
  refine ⟨pls, log, hlists, ?_⟩
  rw [hrun, hbuilt.eq_nil hbuilding]
  rfl

end Site.Shows

end ReplicationQueue
