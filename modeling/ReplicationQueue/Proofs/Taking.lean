import ReplicationQueue.Proofs.Claimable
import ReplicationQueue.Proofs.Migration

/-! What waits once a task was claimed or dropped through a store with shards. Both take one waiting
file away, the one in the shard before the one outside it, so a key that waited twice waits still. -/

namespace ReplicationQueue

attribute [local irreducible] Path.isTooLong

/-! ### Waiting files that are taken away -/

namespace Queue

variable {q q' : Queue} {layout : Layout} {key : TaskKey}

/-- The waiting files are the same, except that the one at a place is gone. -/
def Loses (q q' : Queue) (pl : Place) : Prop :=
  ∀ other : Place, other ≠ .running other.key →
    q'.files other = if other = pl then none else q.files other

theorem loses_of_absent {pl : Place} (absent : q.files pl = none) (h : q'.files = q.files) :
    q.Loses q' pl := by
  intro other _
  rw [h]
  split
  · rename_i hother
    rw [hother, absent]
  · rfl

/-- A claim takes the file away that the key is found at. -/
theorem loses_start (hok : (q.start layout key).1 ≠ .failed) :
    q.Loses (q.start layout key).2 (q.source layout key) := by
  have hmoves := q.moves_move layout (q.source layout key) (.running key)
  rw [start] at hok ⊢
  generalize q.move layout (q.source layout key) (.running key) = r at hok hmoves ⊢
  cases hmoves with
  | failed _ _ => exact absurd rfl hok
  | skipped absent files _ => exact loses_of_absent absent files
  | applied u _ files _ =>
    intro other hother
    have hrunning : other ≠ .running key := by
      rintro rfl
      exact hother rfl
    rw [files, Function.update_of_ne hrunning, Function.update_apply]

/-- Where every place is reached, a task is dropped from where it would be claimed. -/
theorem delete_eq_remove (hreach : ∀ pl, layout.reaches pl = true) (key : TaskKey) :
    q.delete layout key = q.remove layout (q.source layout key) := by
  unfold delete source remove
  simp only [finds_of_reaches hreach, hreach, if_true]
  cases hplace : q.files (layout.waitingPlace key) with
  | some u => simp [hplace]
  | none => cases hflat : q.files (.flat key) <;> simp [hplace, hflat]

/-- So does dropping the task. -/
theorem loses_delete (hsharded : layout.waitingLayout = .sharded)
    (hok : (q.delete layout key).1 ≠ .failed) :
    q.Loses (q.delete layout key).2 (q.source layout key) := by
  cases hreach : layout.reaches (layout.waitingPlace key) with
  | false =>
    rw [q.delete_unreached hreach] at hok
    exact absurd rfl hok
  | true =>
    rw [layout.waitingPlace_eq _ hsharded] at hreach
    rw [delete_eq_remove (Layout.reaches_of_sharded hreach)] at hok ⊢
    have hremoves := q.removes_remove layout (q.source layout key)
    generalize q.remove layout (q.source layout key) = r at hok hremoves ⊢
    cases hremoves with
    | failed => exact absurd rfl hok
    | skipped absent => exact loses_of_absent absent rfl
    | applied u _ => exact fun other _ => q.files_set _ none other

/-- A key that lost the file that it was found at waits still if it waited twice. -/
theorem isWaiting_of_loses (hsharded : layout.waitingLayout = .sharded)
    (h : q.Loses q' (q.source layout key)) :
    q'.isWaiting layout key = true ↔ (q.files (.flat key)).isSome ∧
      (q.files (.sharded key)).isSome ∧ layout.reaches (.sharded key) = true := by
  have hflat := h (.flat key) (by simp)
  have hshard := h (.sharded key) (by simp)
  rw [isWaiting_sharded hsharded, finds, finds, hflat, hshard, source,
    layout.waitingPlace_eq _ hsharded, WaitingLayout.place, finds, finds]
  cases hreach : layout.reaches (.sharded key) with
  | true =>
    rw [Layout.reaches_of_sharded hreach (.flat key)]
    cases q.files (.sharded key) <;> cases q.files (.flat key) <;> simp
  | false =>
    cases layout.reaches (.flat key) <;> cases q.files (.flat key) <;> simp

theorem isWaiting_of_flat (hreach : layout.reaches (.flat key) = true)
    (h : (q.files (.flat key)).isSome) : q.isWaiting layout key = true := by
  have hfinds : q.finds layout (.flat key) = true := by
    rw [finds, hreach, h, Bool.and_self]
  rw [isWaiting, hfinds, Bool.or_true]

theorem running_claimed (hreach : ∀ pl, layout.reaches pl = true) (u : Update) :
    (((fresh.create layout true u).start layout (.derive u)).2.files
      (.running (.derive u))).isSome := by
  have hfound : (fresh.create layout true u).files (layout.waitingPlace (.derive u)) = some u := by
    rw [files_create_fresh hreach]
    exact Function.update_self ..
  rw [(start_waiting hreach hfound).2, Function.update_self]
  rfl

/-- A key whose task runs waits twice after its update was queued without shards and the task was
given back into its shard. -/
theorem waits_twice {old new : Layout} (hold : ∀ pl, old.reaches pl = true)
    (hflat : old.waitingLayout = .flat) (hnew : ∀ pl, new.reaches pl = true)
    (hsharded : new.waitingLayout = .sharded) {u : Update}
    (hrunning : (q.files (.running (.derive u))).isSome) :
    (((q.create old true u).reset new (.derive u)).2.files (.flat (.derive u))).isSome ∧
      (((q.create old true u).reset new (.derive u)).2.files (.sharded (.derive u))).isSome := by
  have hkept : ((q.create old true u).files (.running (.derive u))).isSome :=
    running_apply (a := .create old true u) hrunning fun d hd => by cases hd
  exact ⟨waits_reset (by simp) (q.waits_create hold hflat u) _,
    waits_of_giveBack (a := .reset new (.derive u)) hsharded (reset_running hnew hkept)⟩

end Queue

/-! ### Sessions -/

/-- An update's key is taken out of what waits: its task is claimed, by itself or as a push of that
key alone, or it is dropped. -/
inductive Session.Takes (s : Session) (handle : Nat) (store : Store) (u : Update) :
    Outcome → Session → Prop where
  | claim :
      Takes s handle store u ((store.task u).start.run s.system).1
        ⟨((store.task u).start.run s.system).2, s.stores⟩
  | claimPush (p : Push) (hkeys : p.keys = [.derive u]) {outcome : Outcome}
      (h : (s.step (.on handle (.start p))).1 = .summary (Summary.empty.record outcome)) :
      Takes s handle store u outcome (s.step (.on handle (.start p))).2
  | drop {outcome : Outcome} (h : (s.step (.on handle (.delete u))).1 = .outcome outcome) :
      Takes s handle store u outcome (s.step (.on handle (.delete u))).2

/-- Whether an update's key waits, as a store tells it: of its task, of a push of that key alone,
and by what it lists. -/
structure Session.TellsWaiting (s : Session) (handle : Nat) (store : Store) (u : Update)
    (waits : Prop) : Prop where
  task : ((store.task u).isWaiting.run s.system).1 = true ↔ waits
  push : ∀ p : Push, p.keys = [.derive u] →
    ((s.step (.on handle (.isWaiting p))).1 = .flag true ↔ waits)
  listing : s.ListsWaiting handle (.derive u) ↔ waits

theorem Session.TellsWaiting.congr {s : Session} {handle : Nat} {store : Store} {u : Update}
    {waits waits' : Prop} (h : s.TellsWaiting handle store u waits) (hwaits : waits ↔ waits') :
    s.TellsWaiting handle store u waits' :=
  propext hwaits ▸ h

theorem Summary.record_inj {s : Summary} {a b : Outcome} : s.record a = s.record b ↔ a = b := by
  cases a <;> cases b <;> simp [record]

namespace Site.Runs

variable {site : Site} {s s' : Session} {q : Queue} {handle : Nat} {store : Store} {u : Update}

theorem two_files_iff (h : site.Runs s q) (key : TaskKey) :
    (site.waitingFiles s.system key).length = 2 ↔
      (q.files (.flat key)).isSome ∧ (q.files (.sharded key)).isSome := by
  rw [h.length_waitingFiles, Queue.copies]
  cases q.files (.flat key) <;> cases q.files (.sharded key) <;> simp

theorem tellsWaiting {queued : Update → Prop} (h : site.Runs s q) (hq : q.Holds queued)
    (hstore : s.stores[handle]? = some store) (hsharded : store.layout.waitingLayout = .sharded)
    (u : Update) :
    s.TellsWaiting handle store u (q.isWaiting store.layout (.derive u) = true) where
  task := h.isWaiting_task_iff hstore u
  push _ hkeys := h.isWaiting_push_iff hstore hkeys
  listing := h.listsWaiting_iff hq hstore hsharded (.derive u)

/-- A key is taken by one act on the queue. -/
theorem takes (h : site.Runs s q) (hstore : s.stores[handle]? = some store) {outcome : Outcome}
    (htakes : s.Takes handle store u outcome s') :
    ∃ a : Queue.Act, (a = .start store.layout (.derive u) ∨ a = .delete store.layout (.derive u)) ∧
      a.outcome? q = some outcome ∧ site.Runs s' (a.apply q) ∧
      s'.stores[handle]? = some store := by
  cases htakes with
  | claim =>
    obtain ⟨hanswer, hshows⟩ := (h.shows_of_store hstore).run_start (t := store.task u)
      (h.serves_of_store hstore)
    refine ⟨_, .inl rfl, congrArg some hanswer.symm, ⟨⟨h.serves, .inl hshows⟩, fun name => ?_⟩,
      hstore⟩
    rw [Queue.Act.building_apply]
    exact h.built name
  | claimPush p hkeys hreply =>
    obtain ⟨hanswer, hruns, hkept⟩ := h.step_start hstore hkeys
    rw [hanswer, Reply.summary.injEq, Summary.record_inj] at hreply
    exact ⟨_, .inl rfl, congrArg some hreply, hruns, hkept⟩
  | drop hreply =>
    have hshares := (Shares.mk h rfl).step_delete handle hstore u
    obtain ⟨q', system, -, hanswers, -⟩ := h.step_on_store hstore (.delete u)
    rw [hreply] at hanswers
    cases hanswers with
    | delete _ hdelete =>
      exact ⟨_, .inr rfl, congrArg (fun r => some (Prod.fst r)) hdelete, hshares.runs,
        hshares.getElem?_stores handle hstore⟩

theorem takes_waiting (h : site.Runs s q) (hstore : s.stores[handle]? = some store)
    (hreach : ∀ pl, store.layout.reaches pl = true) {p : Push} (hkeys : p.keys = [.derive u])
    (hwaiting : q.isWaiting store.layout (.derive u) = true) :
    s.Takes handle store u .applied (s.step (.on handle (.start p))).2 := by
  refine .claimPush p hkeys ?_
  rw [(h.step_start hstore hkeys).1, Queue.start_outcome hreach, hwaiting, if_pos rfl]

/-- After a key was taken through a store with shards it waits still if it waited twice. -/
theorem tellsWaiting_taken {queued : Update → Prop} (h : site.Runs s q) (hq : q.Holds queued)
    (hstore : s.stores[handle]? = some store) (hsharded : store.layout.waitingLayout = .sharded)
    {outcome : Outcome} (htakes : s.Takes handle store u outcome s') (hok : outcome ≠ .failed) :
    s'.TellsWaiting handle store u
      ((site.waitingFiles s.system (.derive u)).length = 2 ∧
        (store.layout.waitingPath (.derive u)).isTooLong = false) := by
  obtain ⟨a, ha, houtcome, hruns, hkept⟩ := h.takes hstore htakes
  have hq' : (a.apply q).Holds queued := hq.apply fun layout writes v hv => by
    rcases ha with rfl | rfl <;> cases hv
  have hloses : q.Loses (a.apply q) (q.source store.layout (.derive u)) := by
    rcases ha with rfl | rfl
    · exact Queue.loses_start fun hfailed => hok (Option.some.inj (houtcome.symm.trans
        (congrArg some hfailed)))
    · exact Queue.loses_delete hsharded fun hfailed => hok (Option.some.inj (houtcome.symm.trans
        (congrArg some hfailed)))
  have htells := hruns.tellsWaiting hq' hkept hsharded u
  rwa [Queue.isWaiting_of_loses hsharded hloses, ← and_assoc, ← h.two_files_iff,
    Layout.reaches_sharded_iff hsharded] at htells

end Site.Runs

namespace Session

/-- After an update's key was claimed or dropped through a store with shards, whatever stores made
the queue, the key waits still exactly if it had two waiting files and the path of the one in its
shard is not too long. -/
theorem taken_waits_iff_twice (site : Site) (s : Session) (hbare : site.IsBareIn s.system)
    (hstores : s.stores = []) (steps : List Step)
    (hopen : ∀ layout, .open layout ∈ steps → site.Opens layout) (handle : Nat) (store : Store)
    (hstore : (s.run steps).2.stores[handle]? = some store)
    (hsharded : store.layout.waitingLayout = .sharded) (u : Update) (outcome : Outcome)
    (s' : Session) (htakes : (s.run steps).2.Takes handle store u outcome s')
    (hok : outcome ≠ .failed) :
    s'.TellsWaiting handle store u
      ((site.waitingFiles (s.run steps).2.system (.derive u)).length = 2 ∧
        (store.layout.waitingPath (.derive u)).isTooLong = false) := by
  obtain ⟨q, hruns, hq⟩ :=
    holds_run (Site.runs_bare hbare hstores) (Queue.holds_fresh _) steps hopen fun _ hu => hu
  exact hruns.tellsWaiting_taken hq hstore hsharded htakes hok

/-- An update is queued without shards, and a store with shards is opened. -/
def reopened (u : Update) : List Step :=
  [.open (Site.layoutHere 0 .flat), .on 0 (.create u), .open (Site.layoutHere 0 .sharded)]

theorem shares_reopened (u : Update) :
    Site.blank.Shares (blank.run (reopened u)).2
      [⟨Site.layoutHere 0 .flat, false⟩, ⟨Site.layoutHere 0 .sharded, false⟩]
      (Queue.fresh.create (Site.layoutHere 0 .flat) true u) := by
  rw [reopened, run_cons_snd, run_cons_snd, run_cons_snd, run_nil_snd, ← writes_blank .flat]
  exact ((shares_blank.step_open (serves_blank .flat)).step_create 0 rfl u).step_open
    (serves_blank .sharded)

/-- A task that was queued without shards no longer waits once a store with shards claimed it. -/
theorem taken_waits_iff_twice_reopened :
    (blank.run (reopened (.canonical "p" "refs/heads/m" "https://h/p" "h"))).2.stores[1]? =
        some ⟨Site.layoutHere 0 .sharded, false⟩ ∧
      (blank.run (reopened (.canonical "p" "refs/heads/m" "https://h/p" "h"))).2.Takes 1
        ⟨Site.layoutHere 0 .sharded, false⟩ (.canonical "p" "refs/heads/m" "https://h/p" "h")
        .applied
        ((blank.run (reopened (.canonical "p" "refs/heads/m" "https://h/p" "h"))).2.step
          (.on 1 (.start ⟨"p", "https://h/p", "h", ["refs/heads/m"]⟩))).2 ∧
      ((blank.run (reopened (.canonical "p" "refs/heads/m" "https://h/p" "h"))).2.step
        (.on 1 (.start ⟨"p", "https://h/p", "h", ["refs/heads/m"]⟩))).2.TellsWaiting 1
        ⟨Site.layoutHere 0 .sharded, false⟩ (.canonical "p" "refs/heads/m" "https://h/p" "h")
        False := by
  have hkeys := Push.keys_single "p" "https://h/p" "h" "refs/heads/m"
  generalize Update.canonical "p" "refs/heads/m" "https://h/p" "h" = u at hkeys ⊢
  generalize (⟨"p", "https://h/p", "h", ["refs/heads/m"]⟩ : Push) = p at hkeys ⊢
  have hruns := (shares_reopened u).runs
  have hstore := (shares_reopened u).getElem?_stores 1 rfl
  have htakes := hruns.takes_waiting hstore (reaches_blank .sharded) hkeys (isWaiting_reopened u)
  refine ⟨hstore, htakes, (taken_waits_iff_twice .blank blank isBareIn_blank rfl (reopened u)
    (by simp [reopened, opens_blank]) 1 _ hstore rfl u .applied _ htakes (by decide)).congr ?_⟩
  -- The only waiting file is the one outside the shard.
  rw [hruns.two_files_iff, Queue.files_create_fresh (reaches_blank .flat)]
  simp [Layout.waitingPlace, Site.layoutHere, WaitingLayout.place, Queue.fresh]

/-- An update is queued while its task is in flight, and then the task is given back into a
shard. -/
def requeued (u : Update) (p : Push) : List Step :=
  [.open (Site.layoutHere 0 .flat), .on 0 (.create u), .on 0 (.start p), .on 0 (.create u),
    .open (Site.layoutHere 0 .sharded), .on 1 (.reset p)]

theorem shares_requeued {u : Update} {p : Push} (hkeys : p.keys = [.derive u]) :
    Site.blank.Shares (blank.run (requeued u p)).2
      [⟨Site.layoutHere 0 .flat, false⟩, ⟨Site.layoutHere 0 .sharded, false⟩]
      ((((Queue.fresh.create (Site.layoutHere 0 .flat) true u).start (Site.layoutHere 0 .flat)
        (.derive u)).2.create (Site.layoutHere 0 .flat) true u).reset (Site.layoutHere 0 .sharded)
          (.derive u)).2 := by
  have hclaimed :=
    ((shares_blank.step_open (serves_blank .flat)).step_create 0 rfl u).step_start 0 rfl hkeys
  rw [requeued, run_cons_snd, run_cons_snd, run_cons_snd, run_cons_snd, run_cons_snd,
    run_cons_snd, run_nil_snd, ← writes_blank .flat]
  exact ((hclaimed.step_create 0 rfl u).step_open (serves_blank .sharded)).step_reset 1 rfl hkeys

/-- Of two waiting files a claim takes one, and the key waits still. -/
theorem taken_waits_requeued :
    (blank.run (requeued (.canonical "p" "refs/heads/m" "https://h/p" "h")
        ⟨"p", "https://h/p", "h", ["refs/heads/m"]⟩)).2.Takes 1
        ⟨Site.layoutHere 0 .sharded, false⟩ (.canonical "p" "refs/heads/m" "https://h/p" "h")
        .applied
        ((blank.run (requeued (.canonical "p" "refs/heads/m" "https://h/p" "h")
          ⟨"p", "https://h/p", "h", ["refs/heads/m"]⟩)).2.step
          (.on 1 (.start ⟨"p", "https://h/p", "h", ["refs/heads/m"]⟩))).2 ∧
      ((blank.run (requeued (.canonical "p" "refs/heads/m" "https://h/p" "h")
        ⟨"p", "https://h/p", "h", ["refs/heads/m"]⟩)).2.step
        (.on 1 (.start ⟨"p", "https://h/p", "h", ["refs/heads/m"]⟩))).2.TellsWaiting 1
        ⟨Site.layoutHere 0 .sharded, false⟩ (.canonical "p" "refs/heads/m" "https://h/p" "h")
        True := by
  have hkeys := Push.keys_single "p" "https://h/p" "h" "refs/heads/m"
  generalize Update.canonical "p" "refs/heads/m" "https://h/p" "h" = u at hkeys ⊢
  generalize (⟨"p", "https://h/p", "h", ["refs/heads/m"]⟩ : Push) = p at hkeys ⊢
  have hruns := (shares_requeued hkeys).runs
  have hstore := (shares_requeued hkeys).getElem?_stores 1 rfl
  have htwice := Queue.waits_twice (reaches_blank .flat) rfl (reaches_blank .sharded) rfl
    (Queue.running_claimed (reaches_blank .flat) u)
  have hwaiting : Queue.isWaiting _ (Site.layoutHere 0 .sharded) (.derive u) = true :=
    Queue.isWaiting_of_flat (reaches_blank .sharded _) htwice.1
  have htakes := hruns.takes_waiting hstore (reaches_blank .sharded) hkeys hwaiting
  have hfits : ((Site.layoutHere 0 .sharded).waitingPath (.derive u)).isTooLong = false :=
    Layout.reaches_waitingPlace_iff.1 (reaches_blank .sharded _)
  obtain ⟨q, hruns', hq⟩ := holds_run (Site.runs_bare isBareIn_blank rfl)
    (Queue.holds_fresh fun _ => True) (requeued u p) (by simp [requeued, opens_blank])
    fun _ _ => trivial
  refine ⟨htakes, (hruns'.tellsWaiting_taken hq hstore rfl htakes (by decide)).congr ?_⟩
  exact iff_true_intro ⟨(hruns.two_files_iff _).2 htwice, hfits⟩

end Session

end ReplicationQueue
