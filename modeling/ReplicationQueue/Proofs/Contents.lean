import ReplicationQueue.Proofs.Blank

/-! File names and contents agree. Whatever is asked of however many stores, of either layout, each
file of the queue is at a place of its key, holds the record of an update that was queued, and the
key is that of the update. -/

namespace ReplicationQueue

attribute [local irreducible] Path.isTooLong

namespace Queue

/-- The record at each place is that of one of the updates, and the place is one of its key. -/
def Holds (q : Queue) (queued : Update → Prop) : Prop :=
  ∀ pl u, q.files pl = some u → queued u ∧ pl.key = .derive u

variable {q : Queue} {queued : Update → Prop}

theorem holds_fresh (queued : Update → Prop) : fresh.Holds queued :=
  fun pl u hu => by cases hu

theorem Holds.apply (h : q.Holds queued) {a : Act}
    (ha : ∀ layout writes u, a = .create layout writes u → queued u) :
    (a.apply q).Holds queued := by
  intro pl u hu
  rcases a.origin hu with ⟨pl', hkey, hu'⟩ | ⟨layout, writes, rfl, hkey⟩
  · obtain ⟨hqueued, hderive⟩ := h pl' u hu'
    exact ⟨hqueued, hkey ▸ hderive⟩
  · exact ⟨ha layout writes u rfl, hkey⟩

theorem Holds.after (h : q.Holds queued) {acts : List Act}
    (ha : ∀ layout writes u, .create layout writes u ∈ acts → queued u) :
    (q.after acts).Holds queued := by
  induction acts generalizing q with
  | nil => exact h
  | cons a rest ih =>
    rw [after_cons]
    refine ih (h.apply fun layout writes u hu => ?_) fun layout writes u hu => ?_
    · exact ha layout writes u (by simp [hu])
    · exact ha layout writes u (List.mem_cons_of_mem a hu)

end Queue

/-- Some store of a session was asked to queue the update. -/
def Queued (steps : List Step) (u : Update) : Prop :=
  ∃ handle, .on handle (.create u) ∈ steps

namespace Session

variable {site : Site} {s : Session} {q : Queue} {queued : Update → Prop}

theorem holds_run (h : site.Runs s q) (hq : q.Holds queued) (steps : List Step)
    (hopen : ∀ layout, .open layout ∈ steps → site.Opens layout)
    (hqueued : ∀ u, Queued steps u → queued u) :
    ∃ q', site.Runs (s.run steps).2 q' ∧ q'.Holds queued := by
  refine h.run_keeps (P := fun _ x => ∀ handle u, x = .on handle (.create u) → queued u) hq
    (fun _ hI hx htold _ => ?_) steps hopen fun done x hdone handle u hx => ?_
  · refine hI.after fun layout writes u hu => ?_
    cases htold with
    | opened layout => cases hu
    | ignored hnone request => cases hu
    | @asked handle store hstore request running =>
      exact hx handle u (by rw [(Queue.create_mem_acts hu).1])
  · exact hqueued u ⟨handle, hx ▸ hdone.mem (List.mem_append_right done List.mem_cons_self)⟩

/-- Every file below the queue's directory is at a place of its key, waiting or running, and holds
the record of an update that was queued and has that key. -/
theorem file_is_record (site : Site) (s : Session) (hbare : site.IsBareIn s.system)
    (hstores : s.stores = []) (steps : List Step)
    (hopen : ∀ layout, .open layout ∈ steps → site.Opens layout) (names : Location)
    (contents : Bytes)
    (hfile : (s.run steps).2.system.disk.get? (site.root ++ names) = some (.file contents)) :
    ∃ u, Queued steps u ∧ contents = Utf8.encode (u.toJson ++ "\n") ∧
      (names = ["running", (TaskKey.derive u).text] ∨
        names = ["waiting", (TaskKey.derive u).text] ∨
        names = ["waiting", (TaskKey.derive u).shard, (TaskKey.derive u).text]) := by
  have hfresh : Queue.fresh.Holds (Queued steps) := fun pl u hu => by cases hu
  obtain ⟨q, hruns, hq⟩ :=
    holds_run (Site.runs_bare hbare hstores) hfresh steps hopen fun _ hu => hu
  rcases hruns.shows with hshows | ⟨hnone, -, -⟩
  · rw [hshows.inside, Queue.get?_eq_file_iff] at hfile
    rcases hfile with ⟨pl, u, rfl, hu, rfl⟩ | ⟨name, -, hbuilt⟩
    · obtain ⟨hqueued, hkey⟩ := hq pl u hu
      refine ⟨u, hqueued, rfl, ?_⟩
      rw [← hkey]
      cases pl with
      | running key => exact .inl rfl
      | flat key => exact .inr (.inl rfl)
      | sharded key => exact .inr (.inr rfl)
    · rw [hruns.built] at hbuilt
      cases hbuilt
  · rw [hnone.disk, site.get?_root] at hfile
    cases hfile

theorem file_is_record_blank :
    (blank.run [.open (Site.layoutHere 0 .sharded),
        .on 0 (.create ⟨"p", "refs/heads/m", "https://h/p", "h"⟩)]).2.system.disk.get?
          (Site.blank.root ++
            (Place.sharded (.derive ⟨"p", "refs/heads/m", "https://h/p", "h"⟩)).names) =
        some (.file (Update.record ⟨"p", "refs/heads/m", "https://h/p", "h"⟩)) ∧
      ∃ u, Queued [.open (Site.layoutHere 0 .sharded),
          .on 0 (.create ⟨"p", "refs/heads/m", "https://h/p", "h"⟩)] u ∧
        Update.record ⟨"p", "refs/heads/m", "https://h/p", "h"⟩ =
          Utf8.encode (u.toJson ++ "\n") ∧
        ((Place.sharded (.derive ⟨"p", "refs/heads/m", "https://h/p", "h"⟩)).names =
            ["running", (TaskKey.derive u).text] ∨
          (Place.sharded (.derive ⟨"p", "refs/heads/m", "https://h/p", "h"⟩)).names =
            ["waiting", (TaskKey.derive u).text] ∨
          (Place.sharded (.derive ⟨"p", "refs/heads/m", "https://h/p", "h"⟩)).names =
            ["waiting", (TaskKey.derive u).shard, (TaskKey.derive u).text]) := by
  generalize (⟨"p", "refs/heads/m", "https://h/p", "h"⟩ : Update) = u
  obtain ⟨s, hrun, hstores, hruns⟩ := run_blank_create (n := 0) (w := .sharded) (by decide) u
  have hfile : (blank.run [.open (Site.layoutHere 0 .sharded),
      .on 0 (.create u)]).2.system.disk.get?
        (Site.blank.root ++ (Place.sharded (.derive u)).names) = some (.file u.record) := by
    rw [hrun]
    rcases hruns.shows with hshows | ⟨-, hnone, -⟩
    · have hwrites : Site.blank.writes (Site.layoutHere 0 .sharded) = true := by
        rw [Site.writes_here]
        decide
      rw [hshows.get?_names, hwrites, Queue.files_create_fresh (Site.reaches_of_writes hwrites)]
      have hplace : (Site.layoutHere 0 .sharded).waitingPlace (.derive u) =
          .sharded (.derive u) := rfl
      rw [hplace, Function.update_self]
      rfl
    · rw [hstores] at hnone
      cases hnone
  refine ⟨hfile, file_is_record .blank blank isBareIn_blank rfl _ (fun layout hl => ?_) _ _ hfile⟩
  have hlayout : layout = Site.layoutHere 0 .sharded := by simpa using hl
  rw [hlayout]
  exact Site.opens_here (by decide)

end Session

end ReplicationQueue
