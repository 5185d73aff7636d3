import ReplicationQueue.Proofs.Act
import ReplicationQueue.Proofs.Store

/-! Sessions: any number of stores are opened below one events directory, and requests are made of
them in any order. What a session does is told by the queue that its disk shows. -/

namespace ReplicationQueue

attribute [local irreducible] Path.isTooLong

/-- What is asked of an open store. -/
inductive Request where
  | create (u : Update)
  | start (p : Push)
  | reset (p : Push)
  | finish (p : Push)
  | delete (u : Update)
  | resetAll
  | isWaiting (p : Push)
  /-- From now on running files stay in place when their tasks are finished, or no longer do. -/
  | keepFinished (keep : Bool)
  | list
  | listWaiting
  | listRunning
  | listBuilding
  deriving DecidableEq

inductive Reply where
  | key (key : TaskKey)
  | summary (summary : Summary)
  | outcome (outcome : Outcome)
  | flag (flag : Bool)
  | updates (us : List Update)
  | done
  /-- A store could not be opened. -/
  | refused
  /-- There is no such store. -/
  | nothing
  deriving DecidableEq

/-- Carries out a request; the store itself changes only in what it does to finished tasks. -/
def Request.plan (store : Store) : Request → Plan Reply
  | .create u => do return .key (← store.create u)
  | .start p => do return .summary (← store.start p)
  | .reset p => do return .summary (← store.reset p)
  | .finish p => do return .summary (← store.finish p)
  | .delete u => do return .outcome (← store.delete u)
  | .resetAll => do return .summary (← store.resetAll)
  | .isWaiting p => do return .flag (← store.isWaiting p)
  | .keepFinished _ => return .done
  | .list => do return .updates (← store.list)
  | .listWaiting => do return .updates (← store.listWaiting)
  | .listRunning => do return .updates (← store.listRunning)
  | .listBuilding => do return .updates (← store.listBuilding)

/-- The store after a request. -/
def Request.next (store : Store) : Request → Store
  | .keepFinished keep => { store with keepFinished := keep }
  | _ => store

theorem Request.layout_next (request : Request) (store : Store) :
    (request.next store).layout = store.layout := by
  cases request <;> rfl

section Stores

variable {P : Layout → Prop} {stores : List Store}

/-- A request leaves the layouts of the stores as they are. -/
theorem Request.forall_set (h : ∀ store ∈ stores, P store.layout) {store : Store}
    (hstore : store ∈ stores) (handle : Nat) (request : Request) :
    ∀ other ∈ stores.set handle (request.next store), P other.layout := by
  intro other hother
  rcases List.mem_or_eq_of_mem_set hother with hother | rfl
  · exact h other hother
  · rw [request.layout_next]
    exact h store hstore

theorem Store.forall_append (h : ∀ store ∈ stores, P store.layout) {layout : Layout}
    (hlayout : P layout) (keep : Bool) :
    ∀ store ∈ stores ++ [⟨layout, keep⟩], P store.layout := by
  intro store hstore
  rcases List.mem_append.1 hstore with hstore | hstore
  · exact h store hstore
  · rw [List.mem_singleton.1 hstore]
    exact hlayout

end Stores

inductive Step where
  | open (layout : Layout)
  | on (handle : Nat) (request : Request)
  deriving DecidableEq

structure Session where
  system : System
  stores : List Store

namespace Session

def step (s : Session) : Step → Reply × Session
  | .open layout =>
    match (Store.ofLayout layout).run s.system with
    | (.ok store, system) => (.done, ⟨system, s.stores ++ [store]⟩)
    | (.error _, system) => (.refused, ⟨system, s.stores⟩)
  | .on handle request =>
    match s.stores[handle]? with
    | none => (.nothing, s)
    | some store =>
      (((request.plan store).run s.system).1,
        ⟨((request.plan store).run s.system).2, s.stores.set handle (request.next store)⟩)

/-- The replies to several steps, and the session after them. -/
def run : Session → List Step → List Reply × Session
  | s, [] => ([], s)
  | s, x :: rest => ((s.step x).1 :: (run (s.step x).2 rest).1, (run (s.step x).2 rest).2)

theorem run_append (s : Session) (xs ys : List Step) :
    s.run (xs ++ ys) = ((s.run xs).1 ++ ((s.run xs).2.run ys).1, ((s.run xs).2.run ys).2) := by
  induction xs generalizing s with
  | nil => rfl
  | cons x rest ih =>
    rw [List.cons_append, run, run, ih]
    rfl

end Session

/-! ### Requests -/

/-- What is answered to a request of a store, and the queue afterwards. -/
inductive Queue.Answers (q : Queue) (writes : Bool) (store : Store) :
    Request → Reply → Queue → Prop where
  | create (u : Update) :
      Answers q writes store (.create u) (.key (.derive u)) (q.create store.layout writes u)
  | start (p : Push) {summary : Summary} {q' : Queue}
      (h : q.each (fun q key => q.start store.layout key) p.keys .empty = (summary, q')) :
      Answers q writes store (.start p) (.summary summary) q'
  | reset (p : Push) {summary : Summary} {q' : Queue}
      (h : q.each (fun q key => q.reset store.layout key) p.keys .empty = (summary, q')) :
      Answers q writes store (.reset p) (.summary summary) q'
  | finish (p : Push) {summary : Summary} {q' : Queue}
      (h : q.each (fun q key => q.finish store.layout store.keepFinished key) p.keys .empty =
        (summary, q')) :
      Answers q writes store (.finish p) (.summary summary) q'
  | delete (u : Update) {outcome : Outcome} {q' : Queue}
      (h : q.delete store.layout (.derive u) = (outcome, q')) :
      Answers q writes store (.delete u) (.outcome outcome) q'
  | resetAll {pls : List Place} (hlists : q.Lists ["running"] pls) {summary : Summary}
      {q' : Queue} (h : q.resetAll store.layout pls = (summary, q')) :
      Answers q writes store .resetAll (.summary summary) q'
  | isWaiting (p : Push) :
      Answers q writes store (.isWaiting p) (.flag (p.keys.any (q.isWaiting store.layout))) q
  | keepFinished (keep : Bool) : Answers q writes store (.keepFinished keep) .done q
  | list {pls : List Place} (hlists : q.Lists [] pls) :
      Answers q writes store .list
        (.updates ((pls.filter store.layout.reaches).filterMap q.files)) q
  | listWaiting {pls : List Place} (hlists : q.Lists ["waiting"] pls) :
      Answers q writes store .listWaiting
        (.updates ((pls.filter store.layout.reaches).filterMap q.files)) q
  | listRunning {pls : List Place} (hlists : q.Lists ["running"] pls) :
      Answers q writes store .listRunning
        (.updates ((pls.filter store.layout.reaches).filterMap q.files)) q
  | listBuilding {pls : List Place} (hlists : q.Lists ["building"] pls) :
      Answers q writes store .listBuilding
        (.updates ((pls.filter store.layout.reaches).filterMap q.files)) q

open Plan

theorem Plan.run_reply {α : Type} (p : Plan α) (f : α → Reply) (s : System) :
    (do return f (← p) : Plan Reply).run s = (f (p.run s).1, (p.run s).2) :=
  Plan.run_bind p (fun a => pure (f a)) s

section Requests

variable {site : Site} {store : Store} {q : Queue} {s : System}

theorem Site.Agrees.replies {α : Type} {r : α × System} {g : α × Queue} (h : site.Agrees r g)
    {writes : Bool} {request : Request} {f : α → Reply}
    (ha : ∀ {a q'}, g = (a, q') → q.Answers writes store request (f a) q') :
    ∃ q', q.Answers writes store request (f r.1) q' ∧ site.Shows q' r.2 := by
  refine ⟨g.2, ?_, h.shows⟩
  rw [h.answer]
  exact ha rfl

namespace Site.Shows

theorem run_listing (h : site.Shows q s) (hs : site.Serves store.layout) {dir : Location}
    (hdir : dir = [] ∨ ∃ state, IsState state ∧ dir = [state])
    (hbuilding : ∀ name, dir <+: ["building", name] → q.building name = none) {writes : Bool}
    {request : Request}
    (ha : ∀ {pls}, q.Lists dir pls → q.Answers writes store request
      (.updates ((pls.filter store.layout.reaches).filterMap q.files)) q) :
    ∃ q', q.Answers writes store request
        (.updates ((store.listBelow (store.layout.directoryAt dir)).run s).1) q' ∧
      site.Shows q' ((store.listBelow (store.layout.directoryAt dir)).run s).2 := by
  obtain ⟨pls, log, hlists, hrun⟩ := h.run_listBelow hs hdir hbuilding
  rw [hrun]
  exact ⟨q, ha hlists, h.congr rfl rfl⟩

/-- Each request is answered as the queue says, as long as a name is free for a record that is to be
queued and nothing that is listed was left half written. -/
theorem run_request_of_room (h : site.Shows q s) (hs : site.Serves store.layout) (request : Request)
    (hroom : ∀ u, request = .create u → q.HasRoom (.derive u) s)
    (hbuilding : request = .list ∨ request = .listBuilding → ∀ name, q.building name = none) :
    ∃ q', q.Answers (site.writes store.layout) store request ((request.plan store).run s).1 q' ∧
      site.Shows q' ((request.plan store).run s).2 := by
  cases request with
  | create u =>
    obtain ⟨hkey, made, hwrites, hmade, hshows⟩ := h.run_createUpdate hs u
    have hsame : made = site.writes store.layout := by
      cases hw : site.writes store.layout with
      | true => exact hmade hw (hroom u rfl)
      | false =>
        cases made with
        | true => rw [← hw, hwrites rfl]
        | false => rfl
    subst hsame
    rw [Request.plan, run_reply]
    refine ⟨_, ?_, hshows⟩
    rw [hkey]
    exact .create u
  | start p =>
    rw [Request.plan, run_reply]
    exact (h.run_start_push hs p).replies fun hp => .start p hp
  | reset p =>
    rw [Request.plan, run_reply]
    exact (h.run_reset_push hs p).replies fun hp => .reset p hp
  | finish p =>
    rw [Request.plan, run_reply]
    exact (h.run_finish_push hs p).replies fun hp => .finish p hp
  | delete u =>
    rw [Request.plan, run_reply]
    exact (h.run_deleteUpdate hs u).replies fun hu => .delete u hu
  | resetAll =>
    obtain ⟨pls, hlists, hrun⟩ := h.run_resetAll hs
    rw [Request.plan, run_reply]
    dsimp only
    exact hrun.replies fun hp => .resetAll hlists hp
  | isWaiting p =>
    rw [Request.plan, run_reply, h.run_isWaiting_push hs p]
    exact ⟨q, .isWaiting p, h⟩
  | keepFinished keep => exact ⟨q, .keepFinished keep, h⟩
  | list =>
    rw [Request.plan, run_reply, store.list_eq]
    dsimp only
    exact h.run_listing hs (.inl rfl) (fun name _ => hbuilding (.inl rfl) name) .list
  | listWaiting =>
    rw [Request.plan, run_reply, store.listWaiting_eq]
    dsimp only
    exact h.run_listing hs (.inr ⟨"waiting", .inr (.inr rfl), rfl⟩) (by simp) .listWaiting
  | listRunning =>
    rw [Request.plan, run_reply, store.listRunning_eq]
    dsimp only
    exact h.run_listing hs (.inr ⟨"running", .inr (.inl rfl), rfl⟩) (by simp) .listRunning
  | listBuilding =>
    rw [Request.plan, run_reply, store.listBuilding_eq]
    dsimp only
    exact h.run_listing hs (.inr ⟨"building", .inl rfl, rfl⟩)
      (fun name _ => hbuilding (.inr rfl) name) .listBuilding

/-- Each request is answered as the queue says, as long as no record was left half written. -/
theorem run_request (h : site.Shows q s) (hbuilding : ∀ name, q.building name = none)
    (hs : site.Serves store.layout) (request : Request) :
    ∃ q', q.Answers (site.writes store.layout) store request ((request.plan store).run s).1 q' ∧
      site.Shows q' ((request.plan store).run s).2 :=
  h.run_request_of_room hs request (fun _ _ => ⟨0, by decide, hbuilding _⟩) fun _ => hbuilding

end Site.Shows

end Requests

/-! ### Requests as acts -/

namespace Queue

theorem after_append (q : Queue) (a b : List Act) : q.after (a ++ b) = (q.after a).after b :=
  List.foldl_append ..

theorem building_after (q : Queue) (acts : List Act) : (q.after acts).building = q.building := by
  induction acts generalizing q with
  | nil => rfl
  | cons a rest ih => rw [after_cons, ih, a.building_apply]

theorem each_after {f : Queue → TaskKey → Outcome × Queue} (act : TaskKey → Act)
    (hact : ∀ q key, (f q key).2 = (act key).apply q) (q : Queue) (keys : List TaskKey)
    (summary : Summary) : (q.each f keys summary).2 = q.after (keys.map act) := by
  induction keys generalizing q summary with
  | nil => rfl
  | cons key rest ih => rw [each, ih, hact, List.map_cons, after_cons]

end Queue

/-- The acts of a request; `running` are the keys that are reset when all are. -/
def Request.acts (store : Store) (writes : Bool) (running : List TaskKey) :
    Request → List Queue.Act
  | .create u => [.create store.layout writes u]
  | .start p => p.keys.map (.start store.layout)
  | .reset p => p.keys.map (.reset store.layout)
  | .finish p => p.keys.map (.finish store.layout store.keepFinished)
  | .delete u => [.delete store.layout (.derive u)]
  | .resetAll => running.map (.reset store.layout)
  | _ => []

namespace Queue

variable {store : Store} {writes : Bool} {running : List TaskKey} {request : Request}

theorem layout_of_mem_acts {a : Act} (h : a ∈ request.acts store writes running) :
    a.layout = store.layout := by
  cases request with
  | create u => rw [List.mem_singleton.1 h]; rfl
  | delete u => rw [List.mem_singleton.1 h]; rfl
  | start p => obtain ⟨key, -, rfl⟩ := List.mem_map.1 h; rfl
  | reset p => obtain ⟨key, -, rfl⟩ := List.mem_map.1 h; rfl
  | finish p => obtain ⟨key, -, rfl⟩ := List.mem_map.1 h; rfl
  | resetAll => obtain ⟨key, -, rfl⟩ := List.mem_map.1 h; rfl
  | _ => simp [Request.acts] at h

theorem create_mem_acts {layout : Layout} {made : Bool} {u : Update}
    (h : .create layout made u ∈ request.acts store writes running) :
    request = .create u ∧ made = writes := by
  cases request with
  | create v =>
    obtain ⟨rfl, rfl, rfl⟩ : layout = store.layout ∧ made = writes ∧ u = v := by
      simpa [Request.acts] using h
    exact ⟨rfl, rfl⟩
  | _ => simp [Request.acts] at h

theorem Answers.acts {q q' : Queue} {reply : Reply} (h : q.Answers writes store request reply q') :
    ∃ running, q' = q.after (request.acts store writes running) := by
  cases h with
  | create u => exact ⟨[], rfl⟩
  | start p hq =>
    have heach := each_after (.start store.layout) (fun _ _ => rfl) q p.keys .empty
    exact ⟨[], by rw [Request.acts, ← heach, hq]⟩
  | reset p hq =>
    have heach := each_after (.reset store.layout) (fun _ _ => rfl) q p.keys .empty
    exact ⟨[], by rw [Request.acts, ← heach, hq]⟩
  | finish p hq =>
    have heach := each_after (.finish store.layout store.keepFinished) (fun _ _ => rfl) q
      p.keys .empty
    exact ⟨[], by rw [Request.acts, ← heach, hq]⟩
  | delete u hq =>
    refine ⟨[], ?_⟩
    show q' = (q.delete store.layout (.derive u)).2
    rw [hq]
  | @resetAll pls hlists summary _ hq =>
    have heach := each_after (.reset store.layout) (fun _ _ => rfl) q
      ((pls.filter store.layout.reaches).map Place.key) .empty
    rw [Queue.resetAll] at hq
    exact ⟨_, by rw [Request.acts, ← heach, hq]⟩
  | isWaiting p => exact ⟨[], rfl⟩
  | keepFinished keep => exact ⟨[], rfl⟩
  | list _ => exact ⟨[], rfl⟩
  | listWaiting _ => exact ⟨[], rfl⟩
  | listRunning _ => exact ⟨[], rfl⟩
  | listBuilding _ => exact ⟨[], rfl⟩

end Queue

/-! ### Steps -/

namespace Site

/-- Before the first store is opened nothing is there; from then on the disk shows a queue. -/
structure Stands (site : Site) (s : Session) (q : Queue) : Prop where
  serves : ∀ store ∈ s.stores, site.Serves store.layout
  shows : site.Shows q s.system ∨ site.IsBareIn s.system ∧ s.stores = [] ∧ q = .fresh

/-- No record is left in the making. -/
structure Runs (site : Site) (s : Session) (q : Queue) : Prop extends site.Stands s q where
  built : ∀ name, q.building name = none

theorem runs_bare {site : Site} {s : Session} (h : site.IsBareIn s.system) (hs : s.stores = []) :
    site.Runs s .fresh where
  serves := by simp [hs]
  built _ := rfl
  shows := .inr ⟨h, hs, rfl⟩

/-- A store is refused, and nothing is made, where the paths are too long. -/
theorem Opens.step_open {site : Site} {layout : Layout} (ho : site.Opens layout)
    (hlong : layout.building.isTooLong = true) (s : Session) :
    s.step (.open layout) = (.refused, s) := by
  obtain ⟨error, hrun⟩ := ho.run_ensure_long hlong s.system
  have hstore : (Store.ofLayout layout).run s.system = (.error error, s.system) := by
    rw [Store.ofLayout, run_bind, hrun]
    rfl
  rw [Session.step, hstore]

section Stands

variable {site : Site} {s : Session} {q : Queue} {layout : Layout}

theorem Stands.run_ofLayout (h : site.Stands s q) (hs : site.Serves layout) :
    ∃ system, (Store.ofLayout layout).run s.system = (.ok ⟨layout, false⟩, system) ∧
      site.Shows q system := by
  rcases h.shows with hq | ⟨hbare, -, rfl⟩
  · exact ⟨_, hq.run_ofLayout hs, hq.congr rfl rfl⟩
  · have hopened : site.Shows .fresh { s.system with disk := site.openedDisk } :=
      shows_openedDisk hbare.cwd
    have hrun : (Store.ofLayout layout).run s.system = (.ok ⟨layout, false⟩, { s.system with
        disk := site.openedDisk, log := s.system.log ++ [.opened layout] }) := by
      rw [Store.ofLayout, run_bind, run_ensure_bare hs hbare]
      rfl
    exact ⟨_, hrun, hopened.congr rfl rfl⟩

theorem Stands.shows_of_mem (h : site.Stands s q) {store : Store} (hstore : store ∈ s.stores) :
    site.Shows q s.system := by
  rcases h.shows with hq | ⟨-, hnone, -⟩
  · exact hq
  · rw [hnone] at hstore
    cases hstore

/-- A store is opened where its directories can be made. -/
theorem Stands.step_open (h : site.Stands s q) (hs : site.Serves layout) :
    ∃ system, s.step (.open layout) = (.done, ⟨system, s.stores ++ [⟨layout, false⟩]⟩) ∧
      site.Stands ⟨system, s.stores ++ [⟨layout, false⟩]⟩ q := by
  obtain ⟨system, hrun, hshows⟩ := h.run_ofLayout hs
  exact ⟨system, by rw [Session.step, hrun], Store.forall_append h.serves hs false, .inl hshows⟩

end Stands

namespace Runs

variable {site : Site} {s : Session} {q : Queue} {layout : Layout}

theorem step_open (h : site.Runs s q) (hs : site.Serves layout) :
    ∃ system, s.step (.open layout) = (.done, ⟨system, s.stores ++ [⟨layout, false⟩]⟩) ∧
      site.Runs ⟨system, s.stores ++ [⟨layout, false⟩]⟩ q := by
  obtain ⟨system, hstep, hstands⟩ := h.toStands.step_open hs
  exact ⟨system, hstep, hstands, h.built⟩

theorem shows_of_store (h : site.Runs s q) {handle : Nat} {store : Store}
    (hstore : s.stores[handle]? = some store) : site.Shows q s.system :=
  h.shows_of_mem (List.mem_of_getElem? hstore)

theorem serves_of_store (h : site.Runs s q) {handle : Nat} {store : Store}
    (hstore : s.stores[handle]? = some store) : site.Serves store.layout :=
  h.serves store (List.mem_of_getElem? hstore)

theorem step_on (h : site.Runs s q) (handle : Nat) (request : Request) :
    s.stores[handle]? = none ∧ s.step (.on handle request) = (.nothing, s) ∨
      ∃ store q' system, s.stores[handle]? = some store ∧
        (s.step (.on handle request)).2 = ⟨system, s.stores.set handle (request.next store)⟩ ∧
        q.Answers (site.writes store.layout) store request (s.step (.on handle request)).1 q' ∧
        site.Runs ⟨system, s.stores.set handle (request.next store)⟩ q' := by
  cases hstore : s.stores[handle]? with
  | none =>
    refine .inl ⟨rfl, ?_⟩
    rw [Session.step, hstore]
  | some store =>
    have hs := h.serves_of_store hstore
    obtain ⟨q', hanswers, hshows⟩ := (h.shows_of_store hstore).run_request h.built hs request
    obtain ⟨running, hacts⟩ := hanswers.acts
    have hserves := request.forall_set h.serves (List.mem_of_getElem? hstore) handle
    refine .inr ⟨store, q', _, rfl, by rw [Session.step, hstore], ?_, ⟨hserves, .inl hshows⟩,
      fun name => ?_⟩
    · rw [Session.step, hstore]
      exact hanswers
    · rw [hacts, q.building_after]
      exact h.built name

end Runs

end Site

end ReplicationQueue
