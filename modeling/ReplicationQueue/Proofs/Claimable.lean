import ReplicationQueue.Proofs.InFlight
import ReplicationQueue.Proofs.Waiting

/-! Every listed task can be claimed. Through stores of one layout the task of a listed record is
claimed, and so is a push that is made of the record, if the record's URI is canonical; a push that
is made of another record claims the task of its canonical form. -/

namespace ReplicationQueue

attribute [local irreducible] Path.isTooLong

/-! ### Pushes of one update -/

theorem Push.keys_ofUpdate (u : Update) :
    (Push.ofUpdate u).keys = [.derive (.canonical u.project u.ref u.uri u.remote)] := by
  have hupdates : (Push.ofUpdate u).updates =
      [.canonical u.project u.ref (Uri.toAscii u.uri) u.remote] := rfl
  rw [Push.keys, hupdates, Update.canonical, Uri.toAscii_toAscii]
  rfl

theorem Update.canonical_eq_self {u : Update} (h : Uri.toAscii u.uri = u.uri) :
    Update.canonical u.project u.ref u.uri u.remote = u := by
  rw [Update.canonical, h]

/-! ### Claims of what is found -/

namespace Queue

variable {q : Queue} {layout : Layout} {key : TaskKey}

/-- A claim leaves the records of other keys where they are. -/
theorem files_start_other {pl : Place} (hpl : pl.key ≠ key) :
    (q.start layout key).2.files pl = q.files pl := by
  have hmoves := q.moves_move layout (q.source layout key) (.running key)
  have hsource : pl ≠ q.source layout key := by
    rintro rfl
    exact hpl (q.key_source layout key)
  have hrunning : pl ≠ .running key := by
    rintro rfl
    exact hpl rfl
  rw [start]
  generalize q.move layout (q.source layout key) (.running key) = r at hmoves
  cases hmoves with
  | failed files _ => rw [files]
  | skipped _ files _ => rw [files]
  | applied _ _ files _ =>
    rw [files, Function.update_of_ne hrunning, Function.update_of_ne hsource]

end Queue

namespace Session

/-- What can be done about an update that is listed. Its task is claimed and then listed as running;
a push that is made of it does the same if its URI is canonical, and leaves it waiting if the
canonical form has another key. -/
structure Claims (s : Session) (handle : Nat) (store : Store) (u : Update) : Prop where
  task : ((store.task u).start.run s.system).1 = .applied
  task_running : u ∈ (store.listRunning.run ((store.task u).start.run s.system).2).1
  push : Uri.toAscii u.uri = u.uri →
    (s.step (.on handle (.start (.ofUpdate u)))).1 = .summary ⟨1, 0, 0⟩
  push_running : Uri.toAscii u.uri = u.uri →
    (s.step (.on handle (.start (.ofUpdate u)))).2.Lists handle .listRunning u
  push_other : TaskKey.derive (.canonical u.project u.ref u.uri u.remote) ≠ .derive u →
    (s.step (.on handle (.start (.ofUpdate u)))).2.Lists handle .listWaiting u

end Session

namespace Site

variable {site : Site} {w : WaitingLayout} {s : Session} {q : Queue} {handle : Nat} {store : Store}

theorem Runs.step_start (h : site.Runs s q) (hstore : s.stores[handle]? = some store) {p : Push}
    {key : TaskKey} (hkeys : p.keys = [key]) :
    (s.step (.on handle (.start p))).1 =
        .summary (Summary.empty.record (q.start store.layout key).1) ∧
      site.Runs (s.step (.on handle (.start p))).2 (q.start store.layout key).2 ∧
      (s.step (.on handle (.start p))).2.stores[handle]? = some store := by
  have hshares := (Shares.mk h rfl).step_start handle hstore hkeys
  refine ⟨?_, hshares.runs, hshares.getElem?_stores handle hstore⟩
  obtain ⟨q', system, -, ha, -⟩ := h.step_on_store hstore (.start p)
  generalize (s.step (.on handle (.start p))).1 = reply at ha
  cases ha with
  | start _ heach =>
    rw [hkeys] at heach
    obtain ⟨rfl, -⟩ := Prod.mk.inj heach
    rfl

theorem RunsAs.run (h : site.RunsAs w s q) (hq : q.Holds fun _ => True) (steps : List Step)
    (hopen : ∀ layout, .open layout ∈ steps → layout.waitingLayout = w ∧ site.Opens layout) :
    ∃ q', site.RunsAs w (s.run steps).2 q' ∧ q'.Holds fun _ => True := by
  induction steps generalizing s q with
  | nil => exact ⟨q, h, hq⟩
  | cons x rest ih =>
    obtain ⟨acts, -, h', -⟩ := h.step x fun layout hx => hopen layout (by simp [hx])
    exact ih h' (hq.after fun _ _ _ _ => trivial) fun layout hl =>
      hopen layout (List.mem_cons_of_mem x hl)

/-- Through stores of one layout what is listed as waiting is where its key is put to wait. -/
theorem RunsAs.found_of_lists (h : site.RunsAs w s q) (hq : q.Holds fun _ => True)
    (hstore : s.stores[handle]? = some store) {u : Update} (hu : s.Lists handle .listWaiting u) :
    store.layout.reaches (store.layout.waitingPlace (.derive u)) = true ∧
      q.files (store.layout.waitingPlace (.derive u)) = some u := by
  obtain ⟨pl, hdir, hreach, hfile⟩ := (h.runs.lists_iff hstore rfl).1 hu
  have hplace : pl = store.layout.waitingPlace (.derive u) := by
    rw [store.layout.waitingPlace_eq _ (h.layouts store (List.mem_of_getElem? hstore)),
      ← (hq pl u hfile).2]
    rcases h.placed pl (by rw [hfile]; rfl) with hrunning | hwaiting
    · exact absurd hrunning (Place.waits_iff.1 hdir)
    · exact hwaiting
  rw [← hplace]
  exact ⟨hreach, hfile⟩

theorem Runs.claims (h : site.Runs s q) (hstore : s.stores[handle]? = some store) {u : Update}
    (hreach : store.layout.reaches (store.layout.waitingPlace (.derive u)) = true)
    (hfile : q.files (store.layout.waitingPlace (.derive u)) = some u) :
    s.Claims handle store u := by
  have hstart := Queue.start_found hreach hfile
  have hrunning : (q.start store.layout (.derive u)).2.files (.running (.derive u)) = some u := by
    rw [hstart]
    exact Queue.files_set_self ..
  have hreached := Layout.reaches_running hreach (.derive u)
  have hs := h.serves_of_store hstore
  obtain ⟨hanswer, hshows⟩ := (h.shows_of_store hstore).run_start (t := store.task u) hs
  have hkeys := Push.keys_ofUpdate u
  obtain ⟨hreply, hruns, hkept⟩ := h.step_start hstore hkeys
  constructor
  case task => exact hanswer.trans (congrArg Prod.fst hstart)
  case task_running =>
    have hbuilt : ∀ name, (q.start store.layout (.derive u)).2.building name = none := fun name =>
      (congrFun ((Queue.Act.start store.layout (.derive u)).building_apply q) name).trans
        (h.built name)
    obtain ⟨pls, log, hlists, hrun⟩ := hshows.run_listBelow hs
      (.inr ⟨"running", .inr (.inl rfl), rfl⟩) fun name _ => hbuilt name
    rw [store.listRunning_eq, hrun]
    exact hlists.mem_records.2 ⟨.running (.derive u), ⟨_, rfl⟩, hreached, hrunning⟩
  case push =>
    intro hcanonical
    rw [Update.canonical_eq_self hcanonical, hstart] at hreply
    exact hreply
  case push_running =>
    intro hcanonical
    rw [Update.canonical_eq_self hcanonical] at hruns
    exact (hruns.lists_iff hkept rfl).2 ⟨.running (.derive u), ⟨_, rfl⟩, hreached, hrunning⟩
  case push_other =>
    intro hother
    refine (hruns.lists_iff hkept rfl).2 ⟨store.layout.waitingPlace (.derive u), ?_, hreach, ?_⟩
    · exact Place.waits_iff.2 (store.layout.waitingPlace_ne_running (.derive u) _)
    · rw [Queue.files_start_other (by rw [Layout.key_waitingPlace]; exact hother.symm), hfile]

end Site

namespace Session

/-- Through stores of one layout whatever is listed as waiting can be claimed. -/
theorem listed_claims (site : Site) (w : WaitingLayout) (s : Session)
    (hbare : site.IsBareIn s.system) (hstores : s.stores = []) (steps : List Step)
    (hopen : ∀ layout, .open layout ∈ steps → layout.waitingLayout = w ∧ site.Opens layout)
    (handle : Nat) (store : Store) (hstore : (s.run steps).2.stores[handle]? = some store)
    (u : Update) (hu : (s.run steps).2.Lists handle .listWaiting u) :
    (s.run steps).2.Claims handle store u := by
  have h : site.RunsAs w s .fresh := Site.runsAs_bare hbare hstores
  obtain ⟨q, hruns, hq⟩ := h.run (Queue.holds_fresh _) steps hopen
  obtain ⟨hreach, hfile⟩ := hruns.found_of_lists hq hstore hu
  exact hruns.runs.claims hstore hreach hfile

/-- An update that was queued on the empty disk is listed. -/
theorem lists_created (w : WaitingLayout) (u : Update) :
    (blank.run [.open (Site.layoutHere 0 w), .on 0 (.create u)]).2.stores[0]? =
        some ⟨Site.layoutHere 0 w, false⟩ ∧
      (blank.run [.open (Site.layoutHere 0 w), .on 0 (.create u)]).2.Lists 0 .listWaiting u := by
  have hshares := (shares_blank.step_open (serves_blank w)).step_create 0 rfl u
  have hstore := hshares.getElem?_stores 0 rfl
  rw [run_cons_snd, run_cons_snd, run_nil_snd]
  refine ⟨hstore, (hshares.runs.lists_iff hstore rfl).2
    ⟨w.place (.derive u), Place.waits_iff.2 (w.place_ne_running _ _), reaches_blank w _, ?_⟩⟩
  rw [writes_blank, Queue.files_create_fresh (reaches_blank w)]
  exact Function.update_self ..

theorem listed_claims_blank :
    (blank.run [.open (Site.layoutHere 0 .flat),
        .on 0 (.create ⟨"p", "refs/heads/m", "https://h/p", "h"⟩)]).2.stores[0]? =
          some ⟨Site.layoutHere 0 .flat, false⟩ ∧
      (blank.run [.open (Site.layoutHere 0 .flat),
        .on 0 (.create ⟨"p", "refs/heads/m", "https://h/p", "h"⟩)]).2.Lists 0 .listWaiting
          ⟨"p", "refs/heads/m", "https://h/p", "h"⟩ ∧
      Uri.toAscii "https://h/p" = "https://h/p" ∧
      (blank.run [.open (Site.layoutHere 0 .flat),
        .on 0 (.create ⟨"p", "refs/heads/m", "https://h/p", "h"⟩)]).2.Claims 0
          ⟨Site.layoutHere 0 .flat, false⟩ ⟨"p", "refs/heads/m", "https://h/p", "h"⟩ := by
  have hcanonical : Uri.toAscii "https://h/p" = "https://h/p" := by
    decide +kernel
  generalize (⟨"p", "refs/heads/m", "https://h/p", "h"⟩ : Update) = u
  obtain ⟨hstore, hlists⟩ := lists_created .flat u
  refine ⟨hstore, hlists, hcanonical, ?_⟩
  refine listed_claims .blank .flat blank isBareIn_blank rfl
    [.open (Site.layoutHere 0 .flat), .on 0 (.create u)] (fun layout hl => ?_) 0 _ hstore u hlists
  obtain rfl : layout = Site.layoutHere 0 .flat := by simpa using hl
  exact ⟨rfl, opens_blank .flat⟩

/-- A record whose URI is not canonical is listed, but a push that is made of it is of another
task. -/
theorem listed_not_claimed_accent :
    (blank.run [.open (Site.layoutHere 0 .flat),
        .on 0 (.create ⟨"p", "refs/heads/m", "https://h/é", "h"⟩)]).2.Lists 0 .listWaiting
          ⟨"p", "refs/heads/m", "https://h/é", "h"⟩ ∧
      ((blank.run [.open (Site.layoutHere 0 .flat),
        .on 0 (.create ⟨"p", "refs/heads/m", "https://h/é", "h"⟩)]).2.step
          (.on 0 (.start (.ofUpdate ⟨"p", "refs/heads/m", "https://h/é", "h"⟩)))).1 =
        .summary ⟨0, 1, 0⟩ := by
  have hother : TaskKey.derive (.canonical "p" "refs/heads/m" "https://h/é" "h") ≠
      .derive ⟨"p", "refs/heads/m", "https://h/é", "h"⟩ := by
    decide +kernel
  have hkeys := Push.keys_ofUpdate ⟨"p", "refs/heads/m", "https://h/é", "h"⟩
  dsimp only at hkeys
  generalize Push.ofUpdate ⟨"p", "refs/heads/m", "https://h/é", "h"⟩ = p at hkeys ⊢
  generalize Update.canonical "p" "refs/heads/m" "https://h/é" "h" = v at hkeys hother
  generalize (⟨"p", "refs/heads/m", "https://h/é", "h"⟩ : Update) = u at hother ⊢
  refine ⟨(lists_created .flat u).2, ?_⟩
  have hshares := (shares_blank.step_open (serves_blank .flat)).step_create 0 rfl u
  have hwaiting : (Queue.fresh.create (Site.layoutHere 0 .flat) true u).isWaiting
      (Site.layoutHere 0 .flat) (.derive v) = false := by
    have hflat : (Queue.fresh.create (Site.layoutHere 0 .flat) true u).files (.flat (.derive v)) =
        none := by
      rw [Queue.files_create_fresh (reaches_blank .flat)]
      exact Function.update_of_ne (fun heq => hother (Place.flat.inj heq)) ..
    have hplace : (Site.layoutHere 0 .flat).waitingPlace (.derive v) = .flat (.derive v) := rfl
    rw [Queue.isWaiting, hplace, Queue.finds_of_reaches (reaches_blank .flat), hflat]
    rfl
  rw [run_cons_snd, run_cons_snd, run_nil_snd,
    (hshares.runs.step_start (hshares.getElem?_stores 0 rfl) hkeys).1,
    Queue.start_outcome (reaches_blank .flat), writes_blank, hwaiting]
  rfl

end Session

end ReplicationQueue
