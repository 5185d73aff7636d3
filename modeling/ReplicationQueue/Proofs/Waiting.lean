import ReplicationQueue.Proofs.Contents
import ReplicationQueue.Proofs.Course

/-! What waits: the waiting files of a key, the records that a store lists, and the keys that it
finds and claims. A store with shards finds exactly what it lists, also in a queue that was made
without them. -/

namespace ReplicationQueue

attribute [local irreducible] Path.isTooLong

/-! ### Waiting files -/

def Entry.isFile : Entry → Bool
  | .file _ => true
  | _ => false

/-- The waiting files of a key, the one outside its shard first. -/
def Site.waitingFiles (site : Site) (s : System) (key : TaskKey) : List Location :=
  [site.root ++ ["waiting", key.text], site.root ++ ["waiting", key.shard, key.text]].filter
    fun l => (s.disk.get? l).any Entry.isFile

namespace Queue

/-- The places where a key waits. -/
def waitingPlaces (q : Queue) (key : TaskKey) : List Place :=
  [Place.flat key, .sharded key].filter fun pl => (q.files pl).isSome

end Queue

namespace Site

variable {site : Site} {s : Session} {q : Queue}

theorem Runs.get?_names (h : site.Runs s q) (pl : Place) :
    s.system.disk.get? (site.root ++ pl.names) = (q.files pl).map (.file ·.record) := by
  rcases h.shows with hshows | ⟨hbare, -, rfl⟩
  · exact hshows.get?_names pl
  · rw [hbare.disk, site.get?_root]
    rfl

theorem Runs.waitingFiles_eq (h : site.Runs s q) (key : TaskKey) :
    site.waitingFiles s.system key =
      (q.waitingPlaces key).map (site.root ++ ·.names) := by
  have hfile : ∀ pl : Place, ((s.system.disk.get? (site.root ++ pl.names)).any Entry.isFile) =
      (q.files pl).isSome := by
    intro pl
    rw [h.get?_names]
    cases q.files pl <;> rfl
  unfold waitingFiles Queue.waitingPlaces
  rw [show [site.root ++ ["waiting", key.text], site.root ++ ["waiting", key.shard, key.text]] =
    [Place.flat key, .sharded key].map (site.root ++ ·.names) from rfl, List.filter_map]
  exact congrArg (List.map _) (List.filter_congr fun pl _ => hfile pl)

end Site

/-! ### Listings -/

/-- The directory whose records a request lists. -/
def Request.directory? : Request → Option Location
  | .list => some []
  | .listWaiting => some ["waiting"]
  | .listRunning => some ["running"]
  | .listBuilding => some ["building"]
  | _ => none

namespace Queue

variable {q q' : Queue} {layout : Layout} {key : TaskKey}

theorem Answers.listing {writes : Bool} {store : Store} {request : Request} {reply : Reply}
    (h : q.Answers writes store request reply q') {dir : Location}
    (hdir : request.directory? = some dir) :
    ∃ pls, q.Lists dir pls ∧
      reply = .updates ((pls.filter store.layout.reaches).filterMap q.files) := by
  cases h with
  | list hlists => cases hdir; exact ⟨_, hlists, rfl⟩
  | listWaiting hlists => cases hdir; exact ⟨_, hlists, rfl⟩
  | listRunning hlists => cases hdir; exact ⟨_, hlists, rfl⟩
  | listBuilding hlists => cases hdir; exact ⟨_, hlists, rfl⟩
  | _ => cases hdir

/-- The records below a directory are those at the places that are reached. -/
theorem Lists.mem_records {dir : Location} {pls : List Place} (h : q.Lists dir pls) {u : Update} :
    u ∈ (pls.filter layout.reaches).filterMap q.files ↔
      ∃ pl, dir <+: pl.names ∧ layout.reaches pl = true ∧ q.files pl = some u := by
  simp only [List.mem_filterMap, List.mem_filter, h.mem]
  constructor
  · rintro ⟨pl, ⟨⟨hdir, -⟩, hreach⟩, hu⟩
    exact ⟨pl, hdir, hreach, hu⟩
  · rintro ⟨pl, hdir, hreach, hu⟩
    exact ⟨pl, ⟨⟨hdir, by rw [hu]; rfl⟩, hreach⟩, hu⟩

/-! ### Claims -/

/-- Where every place is reached, a key waits if there is a record that it can be claimed from. -/
theorem isSome_source (hreach : ∀ pl, layout.reaches pl = true) (key : TaskKey) :
    (q.files (q.source layout key)).isSome = q.isWaiting layout key := by
  unfold source isWaiting
  rw [finds_of_reaches hreach, finds_of_reaches hreach]
  cases hplace : (q.files (layout.waitingPlace key)).isSome with
  | true => simpa using hplace
  | false =>
    cases hflat : (q.files (.flat key)).isSome with
    | true => simpa using hflat
    | false => simpa using hplace

/-- Where every place is reached, a claim succeeds if the key waits, and else finds nothing. -/
theorem start_outcome (hreach : ∀ pl, layout.reaches pl = true) (key : TaskKey) :
    (q.start layout key).1 = if q.isWaiting layout key then .applied else .skipped := by
  have hmoves := q.moves_move layout (q.source layout key) (.running key)
  have hok := move_ne_failed (q := q) (hreach (q.source layout key)) (hreach (.running key))
  rw [start, ← isSome_source hreach]
  generalize q.move layout (q.source layout key) (.running key) = r at hmoves hok
  cases hmoves with
  | failed _ _ => exact absurd rfl hok
  | skipped absent _ _ => rw [absent]; rfl
  | applied u found _ _ => rw [found]; rfl

theorem isWaiting_sharded (hsharded : layout.waitingLayout = .sharded) (key : TaskKey) :
    q.isWaiting layout key = (q.finds layout (.sharded key) || q.finds layout (.flat key)) := by
  rw [isWaiting, layout.waitingPlace_eq _ hsharded, WaitingLayout.place]

/-- Where every record is under its own key, a store with shards finds the keys of all records that
it reaches. -/
theorem Holds.exists_waiting_iff {queued : Update → Prop} (h : q.Holds queued)
    (hsharded : layout.waitingLayout = .sharded) :
    (∃ u, (∃ pl : Place, ["waiting"] <+: pl.names ∧ layout.reaches pl = true ∧
        q.files pl = some u) ∧ TaskKey.derive u = key) ↔ q.isWaiting layout key = true := by
  rw [isWaiting_sharded hsharded, Bool.or_eq_true, finds, finds, Bool.and_eq_true,
    Bool.and_eq_true]
  constructor
  · rintro ⟨u, ⟨pl, hdir, hreach, hu⟩, rfl⟩
    obtain ⟨-, hkey⟩ := h pl u hu
    rw [← hkey]
    cases pl with
    | running other => exact absurd rfl (Place.waits_iff.1 hdir)
    | flat other => exact .inr ⟨hreach, by rw [Place.key, hu]; rfl⟩
    | sharded other => exact .inl ⟨hreach, by rw [Place.key, hu]; rfl⟩
  · intro hfile
    rcases hfile with ⟨hreach, hfile⟩ | ⟨hreach, hfile⟩
    · obtain ⟨u, hu⟩ := Option.isSome_iff_exists.1 hfile
      exact ⟨u, ⟨.sharded key, ⟨_, rfl⟩, hreach, hu⟩, (h _ u hu).2.symm⟩
    · obtain ⟨u, hu⟩ := Option.isSome_iff_exists.1 hfile
      exact ⟨u, ⟨.flat key, ⟨_, rfl⟩, hreach, hu⟩, (h _ u hu).2.symm⟩

end Queue

namespace Layout

variable {layout : Layout}

theorem reaches_waitingPlace_iff {key : TaskKey} :
    layout.reaches (layout.waitingPlace key) = true ↔ (layout.waitingPath key).isTooLong = false := by
  rw [reaches, layout.pathOf_waitingPlace, Bool.not_eq_true']

theorem reaches_sharded_iff (hsharded : layout.waitingLayout = .sharded) {key : TaskKey} :
    layout.reaches (.sharded key) = true ↔ (layout.waitingPath key).isTooLong = false := by
  rw [← reaches_waitingPlace_iff, layout.waitingPlace_eq _ hsharded, WaitingLayout.place]

/-- Where the paths of waiting files in shards are short enough, all are. -/
theorem reaches_of_waitingPath (hsharded : layout.waitingLayout = .sharded) {key : TaskKey}
    (h : (layout.waitingPath key).isTooLong = false) (pl : Place) : layout.reaches pl = true :=
  reaches_of_sharded ((reaches_sharded_iff hsharded).2 h) pl

end Layout

/-- Nothing is a file now that was none before. -/
def System.AddsNoFile (s s' : System) : Prop :=
  ∀ l contents, s'.disk.get? l = some (.file contents) →
    ∃ before, s.disk.get? l = some (.file before)

/-- The update is among those that a request is answered with. -/
def Session.Lists (s : Session) (handle : Nat) (request : Request) (u : Update) : Prop :=
  ∃ us, (s.step (.on handle request)).1 = .updates us ∧ u ∈ us

/-- A store lists a record of the key as waiting. -/
def Session.ListsWaiting (s : Session) (handle : Nat) (key : TaskKey) : Prop :=
  ∃ u, s.Lists handle .listWaiting u ∧ TaskKey.derive u = key

/-- What a store does about an update's key agrees with what it lists: a key that it lists waits and
can be claimed, and the update is not queued again; a key that it does not list is not there, and
the update is queued if its record can be written. -/
structure Session.HeedsListing (site : Site) (s : Session) (handle : Nat) (store : Store)
    (u : Update) : Prop where
  waits : ((store.task u).isWaiting.run s.system).1 = true ↔ s.ListsWaiting handle (.derive u)
  waits_push : ∀ p : Push, p.keys = [.derive u] →
    ((s.step (.on handle (.isWaiting p))).1 = .flag true ↔ s.ListsWaiting handle (.derive u))
  claimed : ((store.task u).start.run s.system).1 = .applied ↔ s.ListsWaiting handle (.derive u)
  absent : ((store.task u).start.run s.system).1 = .skipped ↔ ¬s.ListsWaiting handle (.derive u)
  kept : s.ListsWaiting handle (.derive u) →
    s.system.AddsNoFile (s.step (.on handle (.create u))).2.system
  queued : site.writes store.layout = true →
    s.system.AddsNoFile (s.step (.on handle (.create u))).2.system →
      s.ListsWaiting handle (.derive u)

namespace Site.Shows

variable {site : Site} {q q' : Queue} {s s' : System}

/-- Two disks that show one queue are the same. -/
theorem get?_eq (h : site.Shows q s) (h' : site.Shows q s') (l : Location) :
    s'.disk.get? l = s.disk.get? l := by
  by_cases hl : site.root <+: l
  · obtain ⟨names, rfl⟩ := hl
    rw [h.inside, h'.inside]
  · rw [h.outside l hl, h'.outside l hl]

theorem addsNoFile (h : site.Shows q s) (h' : site.Shows q s') : s.AddsNoFile s' := by
  intro l contents hfile
  rw [h.get?_eq h'] at hfile
  exact ⟨contents, hfile⟩

theorem not_addsNoFile (h : site.Shows q s) (h' : site.Shows q' s') (pl : Place)
    (hnone : q.files pl = none) (hsome : (q'.files pl).isSome) : ¬s.AddsNoFile s' := by
  intro hadds
  obtain ⟨u, hu⟩ := Option.isSome_iff_exists.1 hsome
  obtain ⟨before, hbefore⟩ := hadds (site.root ++ pl.names) u.record (by rw [h'.get?_names, hu]; rfl)
  rw [h.get?_names, hnone] at hbefore
  cases hbefore

end Site.Shows

namespace Site.Runs

variable {site : Site} {s : Session} {q : Queue} {handle : Nat} {store : Store}

theorem step_listing (h : site.Runs s q) (hstore : s.stores[handle]? = some store)
    (request : Request) {dir : Location} (hdir : request.directory? = some dir) :
    ∃ pls, q.Lists dir pls ∧ (s.step (.on handle request)).1 =
      .updates ((pls.filter store.layout.reaches).filterMap q.files) := by
  obtain ⟨q', system, -, hanswers, -⟩ := h.step_on_store hstore request
  exact hanswers.listing hdir

theorem lists_iff (h : site.Runs s q) (hstore : s.stores[handle]? = some store)
    {request : Request} {dir : Location} (hdir : request.directory? = some dir) {u : Update} :
    s.Lists handle request u ↔
      ∃ pl : Place, dir <+: pl.names ∧ store.layout.reaches pl = true ∧ q.files pl = some u := by
  obtain ⟨pls, hpls, hreply⟩ := h.step_listing hstore request hdir
  rw [← hpls.mem_records, Session.Lists, hreply]
  simp only [Reply.updates.injEq, exists_eq_left']

theorem step_isWaiting (h : site.Runs s q) (hstore : s.stores[handle]? = some store) (p : Push) :
    (s.step (.on handle (.isWaiting p))).1 = .flag (p.keys.any (q.isWaiting store.layout)) := by
  obtain ⟨q', system, -, hanswers, -⟩ := h.step_on_store hstore (.isWaiting p)
  generalize (s.step (.on handle (.isWaiting p))).1 = reply at hanswers
  cases hanswers
  rfl

theorem step_create (h : site.Runs s q) (hstore : s.stores[handle]? = some store) (u : Update) :
    site.Shows (q.create store.layout (site.writes store.layout) u)
      (s.step (.on handle (.create u))).2.system := by
  have hshares := (Shares.mk h rfl).step_create handle hstore u
  exact hshares.runs.shows_of_store (hshares.getElem?_stores handle hstore)

/-- An update whose record can be written and that adds no file is one whose key waits. -/
theorem isWaiting_of_addsNoFile (h : site.Runs s q) (hstore : s.stores[handle]? = some store)
    (hwrites : site.writes store.layout = true) {u : Update}
    (hadds : s.system.AddsNoFile (s.step (.on handle (.create u))).2.system) :
    q.isWaiting store.layout (.derive u) = true := by
  have hreach := Site.reaches_of_writes hwrites
  have hcreate := h.step_create hstore u
  by_contra hwaiting
  -- The record would be put where there is no file, and that adds one.
  have hfiles := Queue.create_files (q := q) hreach u
  rw [if_neg hwaiting] at hfiles
  rw [hwrites] at hcreate
  refine (h.shows_of_store hstore).not_addsNoFile hcreate (store.layout.waitingPlace (.derive u))
    ?_ ?_ hadds
  · by_contra hsome
    rw [Queue.isWaiting, Queue.finds_of_reaches hreach, Option.isSome_iff_ne_none.2 hsome,
      Bool.true_or] at hwaiting
    exact hwaiting rfl
  · rw [hfiles, Function.update_self]
    rfl

variable {queued : Update → Prop}

theorem listsWaiting_iff (h : site.Runs s q) (hq : q.Holds queued)
    (hstore : s.stores[handle]? = some store) (hsharded : store.layout.waitingLayout = .sharded)
    (key : TaskKey) :
    s.ListsWaiting handle key ↔ q.isWaiting store.layout key = true := by
  rw [← hq.exists_waiting_iff hsharded, Session.ListsWaiting]
  simp only [h.lists_iff hstore (rfl : Request.listWaiting.directory? = _)]

theorem isWaiting_task_iff (h : site.Runs s q) (hstore : s.stores[handle]? = some store)
    (u : Update) :
    ((store.task u).isWaiting.run s.system).1 = true ↔
      q.isWaiting store.layout (.derive u) = true := by
  rw [(h.shows_of_store hstore).run_isWaiting (t := store.task u) (h.serves_of_store hstore)]
  rfl

theorem isWaiting_push_iff (h : site.Runs s q) (hstore : s.stores[handle]? = some store) {p : Push}
    {key : TaskKey} (hkeys : p.keys = [key]) :
    (s.step (.on handle (.isWaiting p))).1 = .flag true ↔
      q.isWaiting store.layout key = true := by
  rw [h.step_isWaiting hstore, hkeys, Reply.flag.injEq, List.any_cons, List.any_nil,
    Bool.or_false]

/-- Where its paths are short enough a store with shards heeds its listing. -/
theorem heedsListing (h : site.Runs s q) (hq : q.Holds queued)
    (hstore : s.stores[handle]? = some store) (hreach : ∀ pl, store.layout.reaches pl = true)
    (hsharded : store.layout.waitingLayout = .sharded) (u : Update) :
    s.HeedsListing site handle store u := by
  have hs := h.serves_of_store hstore
  have hshows := h.shows_of_store hstore
  have hlists := h.listsWaiting_iff hq hstore hsharded (.derive u)
  have hstart : ((store.task u).start.run s.system).1 =
      if q.isWaiting store.layout (.derive u) then .applied else .skipped :=
    ((hshows.run_start (t := store.task u) hs).answer).trans (Queue.start_outcome hreach _)
  have hcreate := h.step_create hstore u
  constructor
  case waits =>
    rw [hlists]
    exact h.isWaiting_task_iff hstore u
  case waits_push =>
    intro p hp
    rw [hlists]
    exact h.isWaiting_push_iff hstore hp
  case claimed =>
    rw [hlists, hstart]
    cases q.isWaiting store.layout (.derive u) <;> simp
  case absent =>
    rw [hlists, hstart]
    cases q.isWaiting store.layout (.derive u) <;> simp
  case kept =>
    intro hwaiting
    rw [Queue.create, if_pos (hlists.1 hwaiting)] at hcreate
    exact hshows.addsNoFile hcreate
  case queued =>
    intro hwrites hadds
    exact hlists.2 (h.isWaiting_of_addsNoFile hstore hwrites hadds)

end Site.Runs

namespace Session

/-- Whatever stores made the queue, a store with shards heeds its listing, as long as the paths of
its waiting files are not too long. -/
theorem sharded_heeds_listing (site : Site) (s : Session) (hbare : site.IsBareIn s.system)
    (hstores : s.stores = []) (steps : List Step)
    (hopen : ∀ layout, .open layout ∈ steps → site.Opens layout) (handle : Nat) (store : Store)
    (hstore : (s.run steps).2.stores[handle]? = some store)
    (hsharded : store.layout.waitingLayout = .sharded) (u : Update)
    (hfits : (store.layout.waitingPath (.derive u)).isTooLong = false) :
    (s.run steps).2.HeedsListing site handle store u := by
  obtain ⟨q, hruns, hq⟩ :=
    holds_run (Site.runs_bare hbare hstores) (Queue.holds_fresh _) steps hopen fun _ hu => hu
  exact hruns.heedsListing hq hstore (Layout.reaches_of_waitingPath hsharded hfits) hsharded u

/-- A key that was queued without shards waits for a store with shards. -/
theorem isWaiting_reopened (u : Update) :
    (Queue.fresh.create (Site.layoutHere 0 .flat) true u).isWaiting (Site.layoutHere 0 .sharded)
      (.derive u) = true := by
  have hflat : (Queue.fresh.create (Site.layoutHere 0 .flat) true u).files (.flat (.derive u)) =
      some u := by
    rw [Queue.files_create_fresh (reaches_blank .flat)]
    exact Function.update_self ..
  rw [Queue.isWaiting, Queue.finds_of_reaches (reaches_blank .sharded),
    Queue.finds_of_reaches (reaches_blank .sharded), hflat, Option.isSome_some, Bool.or_true]

theorem sharded_heeds_listing_reopened :
    (blank.run [.open (Site.layoutHere 0 .flat),
        .on 0 (.create ⟨"p", "refs/heads/m", "https://h/p", "h"⟩),
        .open (Site.layoutHere 0 .sharded)]).2.stores[1]? =
          some ⟨Site.layoutHere 0 .sharded, false⟩ ∧
      ((Site.layoutHere 0 .sharded).waitingPath
        (.derive ⟨"p", "refs/heads/m", "https://h/p", "h"⟩)).isTooLong = false ∧
      (blank.run [.open (Site.layoutHere 0 .flat),
        .on 0 (.create ⟨"p", "refs/heads/m", "https://h/p", "h"⟩),
        .open (Site.layoutHere 0 .sharded)]).2.HeedsListing .blank 1
          ⟨Site.layoutHere 0 .sharded, false⟩ ⟨"p", "refs/heads/m", "https://h/p", "h"⟩ ∧
      (blank.run [.open (Site.layoutHere 0 .flat),
        .on 0 (.create ⟨"p", "refs/heads/m", "https://h/p", "h"⟩),
        .open (Site.layoutHere 0 .sharded)]).2.ListsWaiting 1
          (.derive ⟨"p", "refs/heads/m", "https://h/p", "h"⟩) := by
  generalize (⟨"p", "refs/heads/m", "https://h/p", "h"⟩ : Update) = u
  have hshares := ((shares_blank.step_open (serves_blank .flat)).step_create 0 rfl u).step_open
    (serves_blank .sharded)
  have hstore := hshares.getElem?_stores 1 rfl
  have hfits : ((Site.layoutHere 0 .sharded).waitingPath (.derive u)).isTooLong = false := by
    have hplace := reaches_blank .sharded ((Site.layoutHere 0 .sharded).waitingPlace (.derive u))
    rwa [Layout.reaches, Layout.pathOf_waitingPlace, Bool.not_eq_true'] at hplace
  have hheeds := sharded_heeds_listing .blank blank isBareIn_blank rfl
    [.open (Site.layoutHere 0 .flat), .on 0 (.create u), .open (Site.layoutHere 0 .sharded)]
    (by simp [opens_blank]) 1 ⟨Site.layoutHere 0 .sharded, false⟩
    (by rw [run_cons_snd, run_cons_snd, run_cons_snd, run_nil_snd, hstore]) rfl u hfits
  rw [run_cons_snd, run_cons_snd, run_cons_snd, run_nil_snd] at hheeds ⊢
  refine ⟨hstore, hfits, hheeds, hheeds.waits.1 ?_⟩
  have hshows := hshares.runs.shows_of_store hstore
  have hs := hshares.runs.serves_of_store hstore
  rw [writes_blank] at hshows
  exact (congrArg Prod.fst (hshows.run_isWaiting
    (t := Store.task ⟨Site.layoutHere 0 .sharded, false⟩ u) hs)).trans (isWaiting_reopened u)

/-- Where the paths of files are too long a key that does not wait is not told to be absent. -/
theorem start_failed_long :
    (blank.run [.open (Site.layoutHere 2036 .sharded)]).2.stores[0]? =
        some ⟨Site.layoutHere 2036 .sharded, false⟩ ∧
      ¬(blank.run [.open (Site.layoutHere 2036 .sharded)]).2.ListsWaiting 0
        (.derive ⟨"p", "refs/heads/m", "https://h/p", "h"⟩) ∧
      ((Store.task ⟨Site.layoutHere 2036 .sharded, false⟩
          ⟨"p", "refs/heads/m", "https://h/p", "h"⟩).start.run
        (blank.run [.open (Site.layoutHere 2036 .sharded)]).2.system).1 = .failed := by
  generalize (⟨"p", "refs/heads/m", "https://h/p", "h"⟩ : Update) = u
  obtain ⟨hstores, hruns⟩ := runs_opened (n := 2036) (w := .sharded) (by decide)
  rw [opened] at hstores hruns
  generalize (blank.run [.open (Site.layoutHere 2036 .sharded)]).2 = s at hstores hruns ⊢
  have hstore : s.stores[0]? = some ⟨Site.layoutHere 2036 .sharded, false⟩ := by
    rw [hstores]
    rfl
  have hunreached : (Site.layoutHere 2036 .sharded).reaches (.sharded (.derive u)) = false := by
    unfold Layout.reaches Path.isTooLong
    rw [Layout.utf8ByteSize_pathOf_sharded, Site.utf8ByteSize_refUpdates_here]
    decide
  refine ⟨hstore, ?_, ?_⟩
  · rintro ⟨v, hv, -⟩
    obtain ⟨pl, -, -, hfile⟩ := (hruns.lists_iff hstore rfl).1 hv
    cases hfile
  · have hsource : Queue.fresh.source (Site.layoutHere 2036 .sharded) (.derive u) =
        .sharded (.derive u) := by
      simp [Queue.source, Queue.finds, Queue.fresh, Layout.waitingPlace, Site.layoutHere,
        WaitingLayout.place]
    rw [((hruns.shows_of_store hstore).run_start (t := Store.task _ u)
      (hruns.serves_of_store hstore)).answer]
    show (Queue.fresh.start (Site.layoutHere 2036 .sharded) (.derive u)).1 = _
    rw [Queue.start, hsource, Queue.move, hunreached]
    rfl

end Session

end ReplicationQueue
