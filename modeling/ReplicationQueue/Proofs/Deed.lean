import ReplicationQueue.Proofs.Session

/-! What a request does to each of its tasks, in order, and how that ends. A store only counts the
outcomes; here the same plans answer with all of them. -/

namespace ReplicationQueue

attribute [local irreducible] Path.isTooLong

inductive Transition where
  | start
  | reset
  | finish
  | delete
  deriving DecidableEq

def Transition.perform : Transition → Task → Plan Outcome
  | .start => Task.start
  | .reset => Task.reset
  | .finish => Task.finish
  | .delete => Task.delete

def Transition.act (store : Store) (key : TaskKey) : Transition → Queue.Act
  | .start => .start store.layout key
  | .reset => .reset store.layout key
  | .finish => .finish store.layout store.keepFinished key
  | .delete => .delete store.layout key

structure Deed where
  transition : Transition
  key : TaskKey
  outcome : Outcome
  deriving DecidableEq

namespace Deed

/-- The task was claimed. -/
def claim (key : TaskKey) : Deed :=
  ⟨.start, key, .applied⟩

/-- The task was finished or given back. -/
def Frees (d : Deed) (key : TaskKey) : Prop :=
  d.key = key ∧ d.outcome = .applied ∧ (d.transition = .finish ∨ d.transition = .reset)

end Deed

namespace Store

open Plan

def deeds (store : Store) (transition : Transition) : List Update → Plan (List Deed)
  | [] => return []
  | u :: rest => do
    let outcome ← transition.perform (store.task u)
    return ⟨transition, (store.task u).key, outcome⟩ :: (← deeds store transition rest)

def resetDeeds (store : Store) : List Path → Plan (List Deed)
  | [] => return []
  | path :: rest =>
    match path.fileName?.bind TaskKey.parse? with
    | none => do
      note (.foreignFile path)
      resetDeeds store rest
    | some key => do
      let outcome ← (Task.mk store.layout (.key key) false).reset
      return ⟨.reset, key, outcome⟩ :: (← resetDeeds store rest)

theorem run_each_eq (store : Store) (transition : Transition) (us : List Update) (summary : Summary)
    (s : System) :
    (store.each transition.perform us summary).run s =
      ((((store.deeds transition us).run s).1.map Deed.outcome).foldl Summary.record summary,
        ((store.deeds transition us).run s).2) := by
  induction us generalizing summary s with
  | nil => rfl
  | cons u rest ih =>
    rw [each, deeds, run_bind, run_bind, ih]
    simp only [run_bind, run_pure, List.map_cons, List.foldl_cons]

theorem run_deeds_singleton (store : Store) (u : Update) (s : System) :
    (store.deeds .delete [u]).run s =
      ([⟨.delete, (store.task u).key, ((store.delete u).run s).1⟩],
        ((store.delete u).run s).2) := by
  rw [deeds, run_bind]
  rfl

theorem run_resetFiles_eq (store : Store) (paths : List Path) (summary : Summary) (s : System) :
    (store.resetFiles paths summary).run s =
      ((((store.resetDeeds paths).run s).1.map Deed.outcome).foldl Summary.record summary,
        ((store.resetDeeds paths).run s).2) := by
  induction paths generalizing summary s with
  | nil => rfl
  | cons path rest ih =>
    rw [resetFiles, resetDeeds]
    cases path.fileName?.bind TaskKey.parse? with
    | none =>
      simp only [run_bind]
      exact ih _ _
    | some key =>
      simp only [run_bind]
      rw [ih]
      simp only [run_pure, List.map_cons, List.foldl_cons]

end Store

namespace Request

open Plan

/-- The request, answered with what it does to each task. -/
def deeds (store : Store) : Request → Plan (List Deed)
  | .start p => store.deeds .start p.updates
  | .reset p => store.deeds .reset p.updates
  | .finish p => store.deeds .finish p.updates
  | .delete u => store.deeds .delete [u]
  | .resetAll => do
    let files ← Files.list store.layout.running
    let deeds ← store.resetDeeds (files.map (·.1))
    let summary := Summary.ofOutcomes (deeds.map Deed.outcome)
    if 0 < summary.total then note (.allReset summary) else note .noneRunning
    return deeds
  | request => do
    let _ ← plan store request
    return []

/-- The reply, where it is the tally of what was done. -/
def reply? (deeds : List Deed) : Request → Option Reply
  | .start _ | .reset _ | .finish _ | .resetAll =>
    some (.summary (.ofOutcomes (deeds.map Deed.outcome)))
  | .delete _ => deeds.head?.map (.outcome ·.outcome)
  | _ => none

/-- What is done to the tasks is what the request does, and what it tells. -/
theorem run_deeds (store : Store) (request : Request) (s : System) :
    ((request.deeds store).run s).2 = ((request.plan store).run s).2 ∧
      ∀ reply, request.reply? ((request.deeds store).run s).1 = some reply →
        ((request.plan store).run s).1 = reply := by
  have heach := fun transition us => store.run_each_eq transition us .empty s
  have hquiet : ∀ p : Plan Reply, ((do let _ ← p; return [] : Plan (List Deed)).run s).2 =
      (p.run s).2 := fun p => congrArg Prod.snd (run_bind p (fun _ => pure []) s)
  cases request with
  | start p =>
    have hstart : (store.start p).run s = _ := heach .start p.updates
    rw [plan, run_reply, hstart]
    exact ⟨rfl, fun reply h => Option.some.inj h⟩
  | reset p =>
    have hreset : (store.reset p).run s = _ := heach .reset p.updates
    rw [plan, run_reply, hreset]
    exact ⟨rfl, fun reply h => Option.some.inj h⟩
  | finish p =>
    have hfinish : (store.finish p).run s = _ := heach .finish p.updates
    rw [plan, run_reply, hfinish]
    exact ⟨rfl, fun reply h => Option.some.inj h⟩
  | delete u =>
    rw [plan, run_reply, deeds, store.run_deeds_singleton]
    exact ⟨rfl, fun reply h => Option.some.inj h⟩
  | resetAll =>
    rw [plan, run_reply, deeds, Store.resetAll]
    simp only [run_bind, store.run_resetFiles_eq, Summary.ofOutcomes, reply?, Option.some.injEq]
    generalize (store.resetDeeds _).run _ = r
    by_cases htotal : 0 < (List.foldl Summary.record Summary.empty (r.1.map Deed.outcome)).total
    · simp only [htotal, ↓reduceIte]
      exact ⟨rfl, fun reply h => h⟩
    · simp only [htotal, ↓reduceIte]
      exact ⟨rfl, fun reply h => h⟩
  | _ => exact ⟨hquiet _, fun reply h => by cases h⟩

end Request

namespace Queue

/-- What an act does to a task. -/
def Act.deed? (q : Queue) : Act → Option Deed
  | .create _ _ _ => none
  | .start layout key => some ⟨.start, key, (q.start layout key).1⟩
  | .reset layout key => some ⟨.reset, key, (q.reset layout key).1⟩
  | .finish layout keep key => some ⟨.finish, key, (q.finish layout keep key).1⟩
  | .delete layout key => some ⟨.delete, key, (q.delete layout key).1⟩

theorem Act.outcome?_of_deed? {q : Queue} {a : Act} {d : Deed} (h : a.deed? q = some d) :
    a.outcome? q = some d.outcome := by
  cases a with
  | create _ _ _ => cases h
  | start _ _ => cases h; rfl
  | reset _ _ => cases h; rfl
  | finish _ _ _ => cases h; rfl
  | delete _ _ => cases h; rfl

def deeds : Queue → List Act → List Deed
  | _, [] => []
  | q, a :: rest => (a.deed? q).toList ++ deeds (a.apply q) rest

end Queue

namespace Site.Shows

open Plan

variable {site : Site} {store : Store} {q : Queue} {s : System}

theorem run_perform (h : site.Shows q s) (hs : site.Serves store.layout) (transition : Transition)
    (u : Update) :
    ∃ outcome, (transition.act store (.derive u)).deed? q = some ⟨transition, .derive u, outcome⟩ ∧
      site.Agrees ((transition.perform (store.task u)).run s)
        (outcome, (transition.act store (.derive u)).apply q) := by
  cases transition with
  | start => exact ⟨_, rfl, h.run_start (t := store.task u) hs⟩
  | reset => exact ⟨_, rfl, h.run_reset (t := store.task u) hs⟩
  | finish => exact ⟨_, rfl, h.run_finish (t := store.task u) hs⟩
  | delete => exact ⟨_, rfl, h.run_delete (t := store.task u) hs⟩

theorem run_deeds (h : site.Shows q s) (hs : site.Serves store.layout) (transition : Transition)
    (us : List Update) :
    site.Agrees ((store.deeds transition us).run s)
      (q.deeds ((us.map .derive).map (transition.act store)),
        q.after ((us.map .derive).map (transition.act store))) := by
  induction us generalizing q s with
  | nil => exact ⟨rfl, h⟩
  | cons u rest ih =>
    obtain ⟨outcome, hdeed, hanswer, hshows⟩ := h.run_perform hs transition u
    have hrest := ih hshows
    rw [Store.deeds]
    simp only [run_bind, run_pure]
    refine ⟨?_, hrest.shows⟩
    rw [List.map_cons, List.map_cons, Queue.deeds, hdeed, hrest.answer, hanswer]
    rfl

theorem run_resetDeeds (h : site.Shows q s) (hs : site.Serves store.layout) (pls : List Place) :
    site.Agrees ((store.resetDeeds (pls.map store.layout.pathOf)).run s)
      (q.deeds ((pls.map Place.key).map (.reset store.layout)),
        q.after ((pls.map Place.key).map (.reset store.layout))) := by
  induction pls generalizing q s with
  | nil => exact ⟨rfl, h⟩
  | cons pl rest ih =>
    obtain ⟨hanswer, hshows⟩ := h.run_reset (t := ⟨store.layout, .key pl.key, false⟩) hs
    have hrest := ih hshows
    rw [List.map_cons, Store.resetDeeds, Layout.taskKey_pathOf]
    simp only [run_bind, run_pure]
    refine ⟨?_, hrest.shows⟩
    rw [List.map_cons, List.map_cons, Queue.deeds, hrest.answer, hanswer]
    rfl

/-- A request does to its tasks what its acts do to the queue. -/
theorem run_request_deeds (h : site.Shows q s) (hbuilding : ∀ name, q.building name = none)
    (hs : site.Serves store.layout) (request : Request) :
    ∃ running, site.Agrees ((request.deeds store).run s)
      (q.deeds (request.acts store (site.writes store.layout) running),
        q.after (request.acts store (site.writes store.layout) running)) := by
  -- A request that does nothing to any task leaves the queue as it is.
  have hquiet : (∀ running, q.deeds (request.acts store (site.writes store.layout) running) = []) →
      (request.deeds store).run s = ([], ((request.plan store).run s).2) →
      ∃ running, site.Agrees ((request.deeds store).run s)
        (q.deeds (request.acts store (site.writes store.layout) running),
          q.after (request.acts store (site.writes store.layout) running)) := by
    intro hnone hrun
    obtain ⟨q', hanswers, hshows⟩ := h.run_request hbuilding hs request
    obtain ⟨running, rfl⟩ := hanswers.acts
    exact ⟨running, by rw [hrun, hnone], by rw [hrun]; exact hshows⟩
  cases request with
  | start p => exact ⟨[], h.run_deeds hs .start p.updates⟩
  | reset p => exact ⟨[], h.run_deeds hs .reset p.updates⟩
  | finish p => exact ⟨[], h.run_deeds hs .finish p.updates⟩
  | delete u => exact ⟨[], h.run_deeds hs .delete [u]⟩
  | resetAll =>
    obtain ⟨pls, files, log, -, hlist, hfiles⟩ := h.run_list_running hs
    have hlisted : site.Shows q { s with log } := h.congr rfl rfl
    obtain ⟨hanswer, hshows⟩ := hlisted.run_resetDeeds hs (pls.filter store.layout.reaches)
    refine ⟨(pls.filter store.layout.reaches).map Place.key, ?_⟩
    rw [Request.deeds, run_bind, hlist]
    simp only [run_bind, hfiles]
    constructor
    · split <;> exact hanswer
    · split <;> exact hshows.congr rfl rfl
  | _ => exact hquiet (fun _ => rfl) (run_bind _ _ _)

end Site.Shows

end ReplicationQueue
