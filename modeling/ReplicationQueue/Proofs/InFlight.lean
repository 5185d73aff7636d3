import ReplicationQueue.Proofs.Blank
import ReplicationQueue.Proofs.Course
import ReplicationQueue.Proofs.Exclusion

/-! Whether a task is in flight once at most, told by what is on the disk and by what the stores do
to their tasks. -/

namespace ReplicationQueue

attribute [local irreducible] Path.isTooLong

namespace Site

def Running (site : Site) (s : System) (key : TaskKey) : Prop :=
  ∃ contents, s.disk.get? (site.root ++ ["running", key.text]) = some (.file contents)

def Waiting (site : Site) (s : System) (key : TaskKey) : Prop :=
  (∃ contents, s.disk.get? (site.root ++ ["waiting", key.text]) = some (.file contents)) ∨
    ∃ contents, s.disk.get? (site.root ++ ["waiting", key.shard, key.text]) = some (.file contents)

/-- No key both waits and runs. -/
def Exclusive (site : Site) (s : System) : Prop :=
  ∀ key, ¬(site.Running s key ∧ site.Waiting s key)

variable {site : Site} {q : Queue} {s : System} {key : TaskKey}

theorem Shows.isSome_iff (h : site.Shows q s) (pl : Place) :
    (∃ contents, s.disk.get? (site.root ++ pl.names) = some (.file contents)) ↔
      (q.files pl).isSome := by
  rw [h.get?_names]
  cases q.files pl <;> simp

theorem Shows.running_iff (h : site.Shows q s) :
    site.Running s key ↔ (q.files (.running key)).isSome :=
  h.isSome_iff (.running key)

theorem Shows.waiting_iff (h : site.Shows q s) :
    site.Waiting s key ↔ (q.files (.flat key)).isSome ∨ (q.files (.sharded key)).isSome :=
  or_congr (h.isSome_iff (.flat key)) (h.isSome_iff (.sharded key))

theorem Shows.exclusive_iff (h : site.Shows q s) : site.Exclusive s ↔ q.IsSingle := by
  unfold Exclusive
  simp only [h.running_iff, h.waiting_iff]
  constructor
  · intro hexclusive pl hpl hrunning
    cases pl with
    | running key => rfl
    | flat key => exact absurd ⟨hrunning, .inl hpl⟩ (hexclusive key)
    | sharded key => exact absurd ⟨hrunning, .inr hpl⟩ (hexclusive key)
  · rintro hsingle key ⟨hrunning, hwaiting | hwaiting⟩
    · cases hsingle (.flat key) hwaiting hrunning
    · cases hsingle (.sharded key) hwaiting hrunning

end Site

/-- An update is queued through a store that can write its record, while its key runs. -/
def Step.Requeues (site : Site) (s : Session) : Step → Prop
  | .on handle (.create u) => ∃ store, s.stores[handle]? = some store ∧
      site.writes store.layout = true ∧ site.Running s.system (.derive u)
  | _ => False

namespace Session

/-- At no time does a key both wait and run. -/
def NeverBoth (site : Site) (s : Session) (steps : List Step) : Prop :=
  ∀ done, done <+: steps → site.Exclusive (s.run done).2.system

/-- No update is queued while its key runs. -/
def NeverRequeues (site : Site) (s : Session) (steps : List Step) : Prop :=
  ∀ done x, done ++ [x] <+: steps → ¬x.Requeues site (s.run done).2

variable {site : Site} {s : Session} {x : Step} {rest : List Step}

theorem neverBoth_nil : s.NeverBoth site [] ↔ site.Exclusive s.system :=
  always_nil

theorem neverBoth_cons :
    s.NeverBoth site (x :: rest) ↔
      site.Exclusive s.system ∧ (s.step x).2.NeverBoth site rest :=
  always_cons

theorem neverRequeues_nil : s.NeverRequeues site [] :=
  each_nil (Q := fun s x => ¬x.Requeues site s)

theorem neverRequeues_cons :
    s.NeverRequeues site (x :: rest) ↔
      ¬x.Requeues site s ∧ (s.step x).2.NeverRequeues site rest :=
  each_cons (Q := fun s x => ¬x.Requeues site s)

theorem neverRequeues_append {xs ys : List Step} :
    s.NeverRequeues site (xs ++ ys) ↔
      s.NeverRequeues site xs ∧ (s.run xs).2.NeverRequeues site ys :=
  each_append (Q := fun s x => ¬x.Requeues site s)

theorem NeverRequeues.of_prefix {done steps : List Step} (h : s.NeverRequeues site steps)
    (hdone : done <+: steps) : s.NeverRequeues site done :=
  Each.of_prefix (Q := fun s x => ¬x.Requeues site s) h hdone

end Session

/-- The disk shows a queue of one layout. -/
structure Site.RunsAs (site : Site) (w : WaitingLayout) (s : Session) (q : Queue) : Prop where
  runs : site.Runs s q
  layouts : ∀ store ∈ s.stores, store.layout.waitingLayout = w
  placed : q.IsPlaced w

namespace Site

variable {site : Site} {w : WaitingLayout} {s : Session} {q : Queue}

theorem Runs.exclusive_iff (h : site.Runs s q) : site.Exclusive s.system ↔ q.IsSingle := by
  rcases h.shows with hshows | ⟨hbare, -, rfl⟩
  · exact hshows.exclusive_iff
  · refine iff_of_true ?_ fun pl hpl => by simp [Queue.fresh] at hpl
    rintro key ⟨⟨contents, hrunning⟩, -⟩
    rw [hbare.disk, site.get?_root] at hrunning
    cases hrunning

theorem Runs.running_iff (h : site.Runs s q) {key : TaskKey} :
    site.Running s.system key ↔ (q.files (.running key)).isSome := by
  rcases h.shows with hshows | ⟨hbare, -, rfl⟩
  · exact hshows.running_iff
  · refine iff_of_false ?_ (by simp [Queue.fresh])
    rintro ⟨contents, hrunning⟩
    rw [hbare.disk, site.get?_root] at hrunning
    cases hrunning

/-- Where no update is queued while its key runs, the acts of a request do not either. -/
theorem Runs.guards_acts (h : site.Runs s q) {handle : Nat} {store : Store} {request : Request}
    {running : List TaskKey} (hstore : s.stores[handle]? = some store)
    (hw : store.layout.waitingLayout = w) (hno : ¬(Step.on handle request).Requeues site s) :
    Queue.Guards w q (request.acts store (site.writes store.layout) running) := by
  have hlayout : ∀ a ∈ request.acts store (site.writes store.layout) running,
      a.layout.waitingLayout = w := fun a ha => by rw [Queue.layout_of_mem_acts ha, hw]
  by_cases hcreate : ∃ u, request = .create u
  · obtain ⟨u, rfl⟩ := hcreate
    refine ⟨hlayout _ (List.mem_singleton_self _), fun layout v hv => ?_, trivial⟩
    obtain ⟨-, hwrites, rfl⟩ := Queue.Act.create.inj hv
    by_contra hrunning
    refine hno ⟨store, hstore, hwrites, ?_⟩
    exact h.running_iff.2 (Option.isSome_iff_ne_none.2 hrunning)
  · exact Queue.guards_of_forall hlayout fun layout made u hu =>
      hcreate ⟨u, (Queue.create_mem_acts hu).1⟩

theorem runsAs_bare (hbare : site.IsBareIn s.system) (hstores : s.stores = []) :
    site.RunsAs w s .fresh where
  runs := runs_bare hbare hstores
  layouts := by simp [hstores]
  placed pl hpl := by simp [Queue.fresh] at hpl

namespace RunsAs

section Requests

variable {handle : Nat} {store : Store} {request : Request} {running : List TaskKey}

theorem layout_of_mem_acts (h : site.RunsAs w s q) (hstore : s.stores[handle]? = some store)
    {a : Queue.Act} (ha : a ∈ request.acts store (site.writes store.layout) running) :
    a.layout.waitingLayout = w := by
  rw [Queue.layout_of_mem_acts ha]
  exact h.layouts store (List.mem_of_getElem? hstore)

theorem guards_acts (h : site.RunsAs w s q) (hstore : s.stores[handle]? = some store)
    (hno : ¬(Step.on handle request).Requeues site s) :
    Queue.Guards w q (request.acts store (site.writes store.layout) running) :=
  h.runs.guards_acts hstore (h.layouts store (List.mem_of_getElem? hstore)) hno

theorem not_isSingle_acts (h : site.RunsAs w s q) (hstore : s.stores[handle]? = some store)
    (hx : (Step.on handle request).Requeues site s) (hsingle : q.IsSingle) :
    ¬(q.after (request.acts store (site.writes store.layout) running)).IsSingle := by
  cases request with
  | create u =>
    obtain ⟨other, hother, hwrites, hrunning⟩ := hx
    rw [hstore] at hother
    obtain rfl := Option.some.inj hother
    have hreach := Site.reaches_of_writes hwrites
    rw [hwrites]
    exact hsingle.not_create hreach u (h.runs.running_iff.1 hrunning)
  | _ => exact hx.elim

/-- A request of a store is told by its acts. -/
theorem step_request (h : site.RunsAs w s q) (hstore : s.stores[handle]? = some store)
    (request : Request) :
    ∃ running, s.deedsIn (.on handle request) =
        q.deeds (request.acts store (site.writes store.layout) running) ∧
      site.RunsAs w (s.step (.on handle request)).2
        (q.after (request.acts store (site.writes store.layout) running)) := by
  obtain ⟨running, hdeeds, hruns⟩ := h.runs.step_request hstore request
  have hlayouts := request.forall_set (P := (·.waitingLayout = w)) h.layouts
    (List.mem_of_getElem? hstore) handle
  refine ⟨running, hdeeds, hruns, ?_, h.placed.after fun a ha => h.layout_of_mem_acts hstore ha⟩
  rw [Session.step, hstore]
  exact hlayouts

end Requests

theorem step_open (h : site.RunsAs w s q) {layout : Layout} (hw : layout.waitingLayout = w)
    (ho : site.Opens layout) : site.RunsAs w (s.step (.open layout)).2 q := by
  cases hlong : layout.building.isTooLong with
  | true =>
    rw [ho.step_open hlong]
    exact h
  | false =>
    obtain ⟨system, hstep, hruns⟩ := h.runs.step_open ⟨ho, hlong⟩
    rw [hstep]
    exact ⟨hruns, Store.forall_append (P := (·.waitingLayout = w)) h.layouts hw false, h.placed⟩

theorem step (h : site.RunsAs w s q) (x : Step)
    (hopen : ∀ layout, x = .open layout → layout.waitingLayout = w ∧ site.Opens layout) :
    ∃ acts, s.deedsIn x = q.deeds acts ∧ site.RunsAs w (s.step x).2 (q.after acts) ∧
      (¬x.Requeues site s → Queue.Guards w q acts) ∧
      (x.Requeues site s → q.IsSingle → ¬(q.after acts).IsSingle) := by
  cases x with
  | «open» layout =>
    obtain ⟨hw, ho⟩ := hopen layout rfl
    exact ⟨[], rfl, h.step_open hw ho, fun _ => trivial, False.elim⟩
  | on handle request =>
    cases hstore : s.stores[handle]? with
    | none =>
      have hno : ¬(Step.on handle request).Requeues site s := by
        cases request with
        | create u =>
          rintro ⟨store, hsome, -⟩
          rw [hstore] at hsome
          cases hsome
        | _ => exact id
      rw [Session.step, Session.deedsIn, hstore]
      exact ⟨[], rfl, h, fun _ => trivial, fun hx => absurd hx hno⟩
    | some store =>
      obtain ⟨running, hdeeds, hruns⟩ := h.step_request hstore request
      exact ⟨_, hdeeds, hruns, h.guards_acts hstore, h.not_isSingle_acts hstore⟩

/-- Exclusion holds all along exactly if no update is queued while its key runs. -/
theorem neverBoth_iff (h : site.RunsAs w s q) (hq : q.IsSingle) (steps : List Step)
    (hopen : ∀ layout, .open layout ∈ steps → layout.waitingLayout = w ∧ site.Opens layout) :
    s.NeverBoth site steps ↔ s.NeverRequeues site steps := by
  induction steps generalizing s q with
  | nil =>
    have hnow : site.Exclusive s.system := h.runs.exclusive_iff.2 hq
    exact iff_of_true (Session.neverBoth_nil.2 hnow) Session.neverRequeues_nil
  | cons x rest ih =>
    obtain ⟨acts, -, h', hguards, hboth⟩ := h.step x fun layout hx => hopen layout (by simp [hx])
    rw [Session.neverBoth_cons, Session.neverRequeues_cons]
    by_cases hx : x.Requeues site s
    · refine iff_of_false (fun hnever => ?_) fun hnever => hnever.1 hx
      have hnow := hnever.2 [] List.nil_prefix
      exact hboth hx hq (h'.runs.exclusive_iff.1 hnow)
    · have hrest := ih h' (hq.after h.placed (hguards hx)) fun layout hl =>
        hopen layout (List.mem_cons_of_mem x hl)
      rw [hrest]
      exact and_congr_left' (iff_of_true (h.runs.exclusive_iff.2 hq) hx)

theorem deeds_run (h : site.RunsAs w s q) (steps : List Step)
    (hopen : ∀ layout, .open layout ∈ steps → layout.waitingLayout = w ∧ site.Opens layout)
    (hnever : s.NeverRequeues site steps) :
    ∃ acts, s.deeds steps = q.deeds acts ∧ Queue.Guards w q acts := by
  induction steps generalizing s q with
  | nil => exact ⟨[], rfl, trivial⟩
  | cons x rest ih =>
    obtain ⟨hx, hrest⟩ := Session.neverRequeues_cons.1 hnever
    obtain ⟨acts, hdeeds, h', hguards, -⟩ := h.step x fun layout hl => hopen layout (by simp [hl])
    obtain ⟨acts', hdeeds', hguards'⟩ := ih h' (fun layout hl =>
      hopen layout (List.mem_cons_of_mem x hl)) hrest
    refine ⟨acts ++ acts', ?_, Queue.guards_append.2 ⟨hguards hx, hguards'⟩⟩
    rw [Session.deeds, hdeeds, hdeeds', Queue.deeds_append]

end RunsAs

end Site

namespace Session

/-- A task is queued, claimed, given back and claimed again. -/
def claimedAgain (w : WaitingLayout) (u : Update) (p : Push) : List Step :=
  [.open (Site.layoutHere 0 w), .on 0 (.create u), .on 0 (.start p), .on 0 (.reset p),
    .on 0 (.start p)]

theorem neverRequeues_claimedAgain (w : WaitingLayout) (u : Update) (p : Push) :
    blank.NeverRequeues .blank (claimedAgain w u p) := by
  have hopened := shares_blank.step_open (serves_blank w)
  have hidle : ¬(Step.on 0 (.create u)).Requeues .blank
      (blank.step (.open (Site.layoutHere 0 w))).2 := by
    rintro ⟨store, -, -, hrunning⟩
    cases hopened.runs.running_iff.1 hrunning
  exact neverRequeues_cons.2 ⟨id, neverRequeues_cons.2 ⟨hidle, neverRequeues_cons.2 ⟨id,
    neverRequeues_cons.2 ⟨id, neverRequeues_cons.2 ⟨id, neverRequeues_nil⟩⟩⟩⟩⟩

theorem deeds_claimedAgain (w : WaitingLayout) {u : Update} {p : Push}
    (hkeys : p.keys = [.derive u]) :
    blank.deeds (claimedAgain w u p) = [.claim (.derive u), ⟨.reset, .derive u, .applied⟩,
      .claim (.derive u)] := by
  have hreach := reaches_blank w
  have hopened := shares_blank.step_open (serves_blank w)
  have hqueued := hopened.step_create 0 rfl u
  have hstarted := hqueued.step_start 0 rfl hkeys
  have hreset := hstarted.step_reset 0 rfl hkeys
  obtain ⟨_, hcreate, -⟩ := hopened.runs.step_request (hopened.getElem?_stores 0 rfl) (.create u)
  obtain ⟨_, hstart, -⟩ := hqueued.runs.step_request (hqueued.getElem?_stores 0 rfl) (.start p)
  obtain ⟨_, hback, -⟩ := hstarted.runs.step_request (hstarted.getElem?_stores 0 rfl) (.reset p)
  obtain ⟨_, hagain, -⟩ := hreset.runs.step_request (hreset.getElem?_stores 0 rfl) (.start p)
  rw [writes_blank] at hstart hback hagain
  have hwaiting : (Queue.fresh.create (Site.layoutHere 0 w) true u).files
      ((Site.layoutHere 0 w).waitingPlace (.derive u)) = some u := by
    rw [Queue.files_create_fresh hreach]
    exact Function.update_self ..
  generalize Queue.fresh.create (Site.layoutHere 0 w) true u = q at hstart hback hagain hwaiting
  obtain ⟨hclaims, hclaimed⟩ := Queue.start_waiting hreach hwaiting
  have hruns : (q.start (Site.layoutHere 0 w) (.derive u)).2.files (.running (.derive u)) =
      some u := by
    rw [hclaimed]
    exact Function.update_self ..
  generalize (q.start (Site.layoutHere 0 w) (.derive u)).2 = q₁ at hback hagain hruns
  obtain ⟨hgives, hgiven⟩ := Queue.reset_found (hreach _) hruns
  have hwaits : (q₁.reset (Site.layoutHere 0 w) (.derive u)).2.files
      ((Site.layoutHere 0 w).waitingPlace (.derive u)) = some u := by
    rw [hgiven]
    exact Function.update_self ..
  have hclaims' := (Queue.start_waiting hreach hwaits).1
  rw [claimedAgain, deeds, deeds, deeds, deeds, deeds, deeds, hcreate, hstart, hback, hagain]
  simp only [Request.acts, hkeys, List.map_cons, List.map_nil, Queue.deeds, Queue.Act.deed?, hclaims,
    hgives, hclaims']
  rfl

/-- Stores of one layout hold a key in both places at some time exactly if an update is queued at
some time while its key runs. Where that never happens a task was finished or given back between
two claims of it. -/
theorem in_flight_once (site : Site) (w : WaitingLayout) (s : Session)
    (hbare : site.IsBareIn s.system) (hstores : s.stores = []) (steps : List Step)
    (hopen : ∀ layout, .open layout ∈ steps → layout.waitingLayout = w ∧ site.Opens layout) :
    (s.NeverBoth site steps ↔ s.NeverRequeues site steps) ∧
      (s.NeverRequeues site steps → ∀ key before between after,
        s.deeds steps = before ++ .claim key :: between ++ .claim key :: after →
          ∃ d ∈ between, d.Frees key) := by
  have h : site.RunsAs w s .fresh := Site.runsAs_bare hbare hstores
  have hsingle : Queue.fresh.IsSingle := fun pl hpl => by simp [Queue.fresh] at hpl
  refine ⟨h.neverBoth_iff hsingle steps hopen, ?_⟩
  intro hnever key before between after hdeeds
  obtain ⟨acts, hacts, hguards⟩ := h.deeds_run steps hopen hnever
  rw [hacts] at hdeeds
  exact hsingle.frees_between h.placed hguards hdeeds

/-- Between the two claims of a task it was given back. -/
theorem in_flight_once_again :
    ∃ u p, u = Update.canonical "p" "refs/heads/m" "https://h/p" "h" ∧
      p = ⟨"p", "https://h/p", "h", ["refs/heads/m"]⟩ ∧
      (∀ layout, Step.open layout ∈ claimedAgain .sharded u p →
        layout.waitingLayout = .sharded ∧ Site.blank.Opens layout) ∧
      blank.NeverRequeues .blank (claimedAgain .sharded u p) ∧
      blank.NeverBoth .blank (claimedAgain .sharded u p) ∧
      blank.deeds (claimedAgain .sharded u p) =
        [.claim (.derive u), ⟨.reset, .derive u, .applied⟩, .claim (.derive u)] ∧
      ∃ d ∈ [(⟨.reset, .derive u, .applied⟩ : Deed)], d.Frees (.derive u) := by
  have hkeys : Push.keys ⟨"p", "https://h/p", "h", ["refs/heads/m"]⟩ =
      [.derive (.canonical "p" "refs/heads/m" "https://h/p" "h")] := Push.keys_single ..
  refine ⟨_, _, rfl, rfl, ?_⟩
  generalize Update.canonical "p" "refs/heads/m" "https://h/p" "h" = u at hkeys ⊢
  generalize (⟨"p", "https://h/p", "h", ["refs/heads/m"]⟩ : Push) = p at hkeys ⊢
  have hopen : ∀ layout, Step.open layout ∈ claimedAgain .sharded u p →
      layout.waitingLayout = .sharded ∧ Site.blank.Opens layout := by
    intro layout hl
    have hlayout : layout = Site.layoutHere 0 .sharded := by simpa [claimedAgain] using hl
    rw [hlayout]
    exact ⟨rfl, opens_blank .sharded⟩
  have hnever := neverRequeues_claimedAgain .sharded u p
  have hdeeds := deeds_claimedAgain .sharded hkeys
  obtain ⟨hboth, hfrees⟩ :=
    in_flight_once .blank .sharded blank isBareIn_blank rfl (claimedAgain .sharded u p) hopen
  exact ⟨hopen, hnever, hboth.2 hnever, hdeeds, hfrees hnever (.derive u) []
    [⟨.reset, .derive u, .applied⟩] [] hdeeds⟩

/-- An update that is queued while its task is in flight waits beside it. -/
theorem not_neverBoth_requeued :
    ¬blank.NeverBoth .blank [.open (Site.layoutHere 0 .flat),
      .on 0 (.create (.canonical "p" "refs/heads/m" "https://h/p" "h")),
      .on 0 (.start ⟨"p", "https://h/p", "h", ["refs/heads/m"]⟩),
      .on 0 (.create (.canonical "p" "refs/heads/m" "https://h/p" "h"))] := by
  have hkeys : Push.keys ⟨"p", "https://h/p", "h", ["refs/heads/m"]⟩ =
      [.derive (.canonical "p" "refs/heads/m" "https://h/p" "h")] := rfl
  generalize Update.canonical "p" "refs/heads/m" "https://h/p" "h" = u at hkeys ⊢
  generalize (⟨"p", "https://h/p", "h", ["refs/heads/m"]⟩ : Push) = p at hkeys ⊢
  have hwrites : Site.blank.writes (Site.layoutHere 0 .flat) = true := by
    rw [Site.writes_here]
    decide
  have hreach := Site.reaches_of_writes hwrites
  obtain ⟨s, hrun, hstores, hruns⟩ := run_blank_create (n := 0) (w := .flat) (by decide) u
  have hqueued : (Queue.fresh.create (Site.layoutHere 0 .flat) true u).files
      ((Site.layoutHere 0 .flat).waitingPlace (.derive u)) = some u := by
    rw [Queue.files_create_fresh hreach]
    exact Function.update_self ..
  rw [hwrites] at hruns
  have hstarted := (Queue.start_waiting hreach hqueued).2
  rcases hruns.step_on 0 (.start p) with ⟨hnone, -⟩ | ⟨store, q, system, hsome, hstep, ha, hruns'⟩
  · rw [hstores] at hnone
    cases hnone
  rw [hstores] at hsome hstep hruns'
  obtain rfl : _ = store := Option.some.inj hsome
  generalize (s.step (.on 0 (.start p))).1 = reply at ha
  cases ha with
  | start _ heach =>
  rw [hkeys] at heach
  obtain ⟨-, rfl⟩ := Prod.mk.inj heach
  have hrunning : Site.blank.Running system (.derive u) := by
    refine hruns'.running_iff.2 ?_
    show ((Queue.start _ _ _).2.files _).isSome
    rw [hstarted, Function.update_self]
    rfl
  have hsingle : Queue.fresh.IsSingle := fun pl hpl => by simp [Queue.fresh] at hpl
  have hbare : Site.blank.RunsAs .flat blank .fresh := Site.runsAs_bare isBareIn_blank rfl
  rw [hbare.neverBoth_iff hsingle _ fun layout hl => ?_]
  · intro hnever
    have happend := blank.run_append [.open (Site.layoutHere 0 .flat), .on 0 (.create u)]
      [.on 0 (.start p)]
    refine hnever ([.open (Site.layoutHere 0 .flat), .on 0 (.create u)] ++ [.on 0 (.start p)])
      (.on 0 (.create u)) (List.prefix_refl _) ?_
    rw [happend, hrun, run, run, hstep]
    exact ⟨_, rfl, hwrites, hrunning⟩
  · have hlayout : layout = Site.layoutHere 0 .flat := by simpa using hl
    rw [hlayout]
    exact ⟨rfl, Site.opens_here (by decide)⟩

end Session

end ReplicationQueue
