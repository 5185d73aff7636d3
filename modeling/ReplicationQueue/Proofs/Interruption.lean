import ReplicationQueue.Proofs.Atomic
import ReplicationQueue.Proofs.Session

/-! Requests that are stopped. Whichever call a request is stopped at, it was carried out for the
first of its updates and was not begun for the others. -/

namespace ReplicationQueue

attribute [local irreducible] Path.isTooLong

/-- The push with its first `n` refs. -/
def Push.first (n : Nat) (p : Push) : Push :=
  { p with refs := p.refs.take n }

theorem Push.updates_first (n : Nat) (p : Push) : (p.first n).updates = p.updates.take n :=
  List.map_take

/-- A request for the first `n` of its updates. -/
def Request.first (store : Store) (n : Nat) : Request → Plan Unit
  | .create u => do
    if 0 < n then
      let _ ← store.create u
  | .start p => do
    let _ ← store.start (p.first n)
  | .reset p => do
    let _ ← store.reset (p.first n)
  | .finish p => do
    let _ ← store.finish (p.first n)
  | .delete u => do
    if 0 < n then
      let _ ← store.delete u
  | .resetAll => do
    let files ← Files.list store.layout.running
    let _ ← store.resetFiles ((files.map (·.1)).take n) .empty
  | _ => return

open Plan

theorem Plan.run_discard {α : Type} (p : Plan α) (s : System) :
    ((do let _ ← p : Plan Unit).run s).2 = (p.run s).2 :=
  congrArg Prod.snd (Plan.run_bind p (fun _ => pure ()) s)

theorem Request.run_first_create (store : Store) (n : Nat) (u : Update) (s : System) :
    ((Request.first store (n + 1) (.create u)).run s).2 = ((store.create u).run s).2 :=
  run_discard _ _

theorem Request.run_first_resetAll (store : Store) (n : Nat) (s : System) :
    ((Request.first store n .resetAll).run s).2 =
      ((store.resetFiles ((((Files.list store.layout.running).run s).1.map (·.1)).take n)
        .empty).run ((Files.list store.layout.running).run s).2).2 := by
  rw [Request.first, run_bind]
  exact run_discard _ _

theorem Plan.Stops.reply {α : Type} {p : Plan α} {s : System} {P : System → Prop} (h : p.Stops s P)
    (f : α → Reply) : (do return f (← p) : Plan Reply).Stops s P :=
  stops_bind h (stops_pure h.run)

namespace Store

theorem quiet_readRecords (store : Store) (files : List (Path × Bytes)) :
    (store.readRecords files).Quiet := by
  induction files with
  | nil => exact quiet_pure _
  | cons file rest ih =>
    rw [Store.readRecords]
    split
    · exact ih.bind fun _ => quiet_pure _
    · exact (quiet_note _).bind fun _ => ih

theorem quiet_anyWaiting (store : Store) (us : List Update) : (store.anyWaiting us).Quiet := by
  induction us with
  | nil => exact quiet_pure _
  | cons u rest ih =>
    rw [Store.anyWaiting]
    refine (store.task u).quiet_isWaiting.bind fun waiting => ?_
    split
    · exact quiet_pure _
    · exact ih

end Store

namespace Site

variable {site : Site} {store : Store} {q : Queue} {s left : System}

/-- What is left is what one of the parts leaves, and perhaps what may remain besides it. -/
def Partly {α : Type} (site : Site) (parts : Nat → Plan α) (s left : System) : Prop :=
  ∃ n q, site.Shows q ((parts n).run s).2 ∧ site.Leaves q left

/-- What several parts of the rest leave is left by one part more. -/
theorem Partly.succ {α β : Type} {a : Nat → Plan α} {b : Nat → Plan β} {s' : System}
    (h : site.Partly a s' left) (hrun : ∀ n, ((b (n + 1)).run s).2 = ((a n).run s').2) :
    site.Partly b s left := by
  obtain ⟨n, q, hshows, hleaves⟩ := h
  exact ⟨n + 1, q, by rwa [hrun], hleaves⟩

theorem IsAtomic.run {α : Type} {a : Plan α} (h : site.IsAtomic q s a) :
    ∃ q', site.Shows q' (a.run s).2 := by
  rcases Stops.run h with ⟨left, -, hshows⟩ | ⟨q', hshows, -⟩
  · exact ⟨left, hshows⟩
  · exact ⟨q', hshows⟩

/-- What is not begun or is done has two parts. -/
theorem IsAtomic.partly {α β : Type} {a : Plan α} {parts : Nat → Plan β} (ha : site.IsAtomic q s a)
    (hnone : site.Shows q ((parts 0).run s).2) (hall : ((parts 1).run s).2 = (a.run s).2) :
    a.Stops s (site.Partly parts s) := by
  refine ha.mono fun left hleft => ?_
  rcases hleft with hleft | ⟨q', hshows, hleft⟩
  · exact ⟨0, q, hnone, hleft⟩
  · exact ⟨1, q', hall ▸ hshows, hleft⟩

namespace Shows

/-- Transitions that are made one after the other are stopped in one of them. -/
theorem stops_each {transition : Task → Plan Outcome}
    (htransition : ∀ q s u, site.Shows q s → site.IsAtomic q s (transition (store.task u)))
    (h : site.Shows q s) (us : List Update) (summary : Summary) :
    (store.each transition us summary).Stops s
      (site.Partly (fun n => store.each transition (us.take n) summary) s) := by
  induction us generalizing q s summary with
  | nil => exact stops_pure ⟨0, q, h, h.leaves⟩
  | cons u rest ih =>
    have hu := htransition q s u h
    obtain ⟨q', h'⟩ := hu.run
    rw [Store.each]
    refine stops_bind (hu.partly h ?_) ((ih h' _).mono fun left hleft => ?_)
    · rw [List.take_succ_cons, Store.each, run_bind]
      rfl
    · refine hleft.succ fun n => ?_
      rw [List.take_succ_cons, Store.each, run_bind]

theorem stops_push {transition : Task → Plan Outcome} {request : Request}
    (htransition : ∀ q s u, site.Shows q s → site.IsAtomic q s (transition (store.task u)))
    (h : site.Shows q s) (p : Push)
    (hfirst : ∀ n, Request.first store n request =
      do let _ ← store.each transition (p.first n).updates .empty) :
    (store.each transition p.updates .empty).Stops s
      (site.Partly (Request.first store · request) s) := by
  refine (h.stops_each htransition p.updates .empty).mono fun left hleft => ?_
  obtain ⟨n, qn, hshows, hleaves⟩ := hleft
  refine ⟨n, qn, ?_, hleaves⟩
  dsimp only
  rw [hfirst, run_discard, p.updates_first]
  exact hshows

theorem stops_create (h : site.Shows q s) (hs : site.Serves store.layout) (u : Update) :
    (store.create u).Stops s (site.Partly (Request.first store · (.create u)) s) := by
  have hcreate : site.IsAtomic q s (store.create u) :=
    (h.isAtomic_create (t := store.task u) hs).bind_quiet (quiet_pure _)
  exact hcreate.partly h (Request.run_first_create store 0 u s)

theorem stops_delete (h : site.Shows q s) (hs : site.Serves store.layout) (u : Update) :
    (store.delete u).Stops s (site.Partly (Request.first store · (.delete u)) s) := by
  refine (h.isAtomic_delete (t := store.task u) hs).partly h ?_
  show ((do let _ ← store.delete u : Plan Unit).run s).2 = _
  rw [run_discard]
  rfl

theorem stops_resetFiles (h : site.Shows q s) (hs : site.Serves store.layout) (paths : List Path)
    (summary : Summary) :
    (store.resetFiles paths summary).Stops s
      (site.Partly (fun n => store.resetFiles (paths.take n) summary) s) := by
  induction paths generalizing q s summary with
  | nil => exact stops_pure ⟨0, q, h, h.leaves⟩
  | cons path rest ih =>
    rw [Store.resetFiles]
    cases hkey : path.fileName?.bind TaskKey.parse? with
    | none =>
      have hnoted : site.Shows q { s with log := s.log ++ [.foreignFile path] } := h.congr rfl rfl
      have hnote : (note (.foreignFile path)).Stops s (site.Leaves q) :=
        (quiet_note _).stops (ofDisk_leaves q) h.leaves
      refine stops_bind (hnote.mono fun left hleft => ⟨0, q, h, hleft⟩)
        ((ih hnoted summary).mono fun left hleft => hleft.succ fun n => ?_)
      rw [List.take_succ_cons, Store.resetFiles, hkey]
      rfl
    | some key =>
      have hreset := h.isAtomic_reset (t := ⟨store.layout, .key key, false⟩) hs
      obtain ⟨q', h'⟩ := hreset.run
      refine stops_bind (hreset.partly h ?_) ((ih h' _).mono fun left hleft => ?_)
      · rw [List.take_succ_cons, Store.resetFiles, hkey]
        simp only [run_bind]
        rfl
      · refine hleft.succ fun n => ?_
        rw [List.take_succ_cons, Store.resetFiles, hkey]
        simp only [run_bind]

/-- Before a running task is given back the running ones are read. -/
theorem stops_resetAll (h : site.Shows q s) (hs : site.Serves store.layout) :
    store.resetAll.Stops s (site.Partly (Request.first store · .resetAll) s) := by
  obtain ⟨hdisk, hcwd⟩ := (Files.quiet_list store.layout.running).run s
  have hlisted : site.Shows q ((Files.list store.layout.running).run s).2 := h.congr hdisk hcwd
  have hlist : (Files.list store.layout.running).Stops s (site.Leaves q) :=
    (Files.quiet_list _).stops (ofDisk_leaves q) h.leaves
  have hnone : site.Shows q ((Request.first store 0 .resetAll).run s).2 := by
    rw [Request.run_first_resetAll, List.take_zero, Store.resetFiles, run_pure]
    dsimp only
    exact hlisted
  have hfiles : (store.resetFiles (((Files.list store.layout.running).run s).1.map (·.1))
      .empty).Stops ((Files.list store.layout.running).run s).2
        (site.Partly (Request.first store · .resetAll) s) := by
    refine (hlisted.stops_resetFiles hs _ .empty).mono fun left hleft => ?_
    obtain ⟨n, qn, hshows, hleaves⟩ := hleft
    refine ⟨n, qn, ?_, hleaves⟩
    rw [Request.run_first_resetAll]
    exact hshows
  rw [Store.resetAll]
  refine stops_bind (hlist.mono fun left hleft => ⟨0, q, hnone, hleft⟩) (stops_bind hfiles ?_)
  have hquiet : ∀ summary : Summary, (do
      if 0 < summary.total then note (.allReset summary) else note .noneRunning
      return summary : Plan Summary).Quiet := by
    intro summary
    split
    · exact (quiet_note _).bind fun _ => quiet_pure _
    · exact (quiet_note _).bind fun _ => quiet_pure _
  refine (hquiet _).stops (fun s left hdisk hcwd => ?_) hfiles.run
  rintro ⟨n, qn, hshows, hleaves⟩
  exact ⟨n, qn, hshows, hleaves.congr hdisk hcwd⟩

/-! ### Requests that change no record -/

theorem stops_listBelow (h : site.Shows q s) (hs : site.Serves store.layout) {dir : Location}
    (hdir : dir = [] ∨ ∃ state, IsState state ∧ dir = [state]) :
    (store.listBelow (store.layout.directoryAt dir)).Stops s (site.Leaves q) := by
  have hensure : (Files.ensureDirectory (store.layout.directoryAt dir)).Stops s
      (site.Leaves q) := by
    rcases hdir with rfl | ⟨state, hstate, rfl⟩
    · rw [Layout.directoryAt_nil, Layout.refUpdates]
      refine h.stops_ensureDirectory_there (h.leads_events hs.opens) isPlain_refUpdates ?_
        h.get?_root
      rw [h.get?_base]
      exact site.isOpen
    · exact h.stops_ensureDirectory_state hs hstate
  rw [Store.listBelow]
  refine stops_bind hensure ?_
  rw [h.ensureDirectory_directoryAt hs hdir]
  exact ((Files.quiet_list _).bind fun files => store.quiet_readRecords files).stops
    (ofDisk_leaves q) h.leaves

theorem partly_of_quiet (h : site.Shows q s) {request : Request}
    (hfirst : Request.first store 0 request = return) (hleft : site.Leaves q left) :
    site.Partly (Request.first store · request) s left :=
  ⟨0, q, by dsimp only; rw [hfirst]; exact h, hleft⟩

/-- Wherever a request is stopped, the first of its updates are done. -/
theorem stops_request (h : site.Shows q s) (hs : site.Serves store.layout) (request : Request) :
    (request.plan store).Stops s (site.Partly (Request.first store · request) s) := by
  have hquiet : ∀ {α : Type} {p : Plan α} (f : α → Reply), p.Stops s (site.Leaves q) →
      Request.first store 0 request = return →
      (do return f (← p) : Plan Reply).Stops s (site.Partly (Request.first store · request) s) :=
    fun f hp hfirst => (hp.mono fun _ hleft => h.partly_of_quiet hfirst hleft).reply f
  cases request with
  | create u => exact (h.stops_create hs u).reply _
  | start p => exact (h.stops_push (fun _ _ _ h => h.isAtomic_start hs) p fun _ => rfl).reply _
  | reset p => exact (h.stops_push (fun _ _ _ h => h.isAtomic_reset hs) p fun _ => rfl).reply _
  | finish p => exact (h.stops_push (fun _ _ _ h => h.isAtomic_finish hs) p fun _ => rfl).reply _
  | delete u => exact (h.stops_delete hs u).reply _
  | resetAll => exact (h.stops_resetAll hs).reply _
  | isWaiting p => exact hquiet _ ((store.quiet_anyWaiting _).stops (ofDisk_leaves q) h.leaves) rfl
  | keepFinished keep => exact stops_pure ⟨0, q, h, h.leaves⟩
  | list =>
    rw [Request.plan, store.list_eq]
    exact hquiet _ (h.stops_listBelow hs (.inl rfl)) rfl
  | listWaiting =>
    rw [Request.plan, store.listWaiting_eq]
    exact hquiet _ (h.stops_listBelow hs (.inr ⟨"waiting", .inr (.inr rfl), rfl⟩)) rfl
  | listRunning =>
    rw [Request.plan, store.listRunning_eq]
    exact hquiet _ (h.stops_listBelow hs (.inr ⟨"running", .inr (.inl rfl), rfl⟩)) rfl
  | listBuilding =>
    rw [Request.plan, store.listBuilding_eq]
    exact hquiet _ (h.stops_listBelow hs (.inr ⟨"building", .inl rfl, rfl⟩)) rfl

end Shows

end Site

end ReplicationQueue
