import ReplicationQueue.Proofs.Blank
import ReplicationQueue.Proofs.Ledger

/-! The replies of a session are those of a ledger, as long as the stores are of one layout and can
write their records. -/

namespace ReplicationQueue

attribute [local irreducible] Path.isTooLong

namespace Ledger.Matches

variable {l : Ledger} {w : WaitingLayout} {q : Queue}

theorem filterMap_running (h : l.Matches w q) :
    (l.running.sortedKeys.map Place.running).filterMap q.files = l.running.list := by
  rw [List.filterMap_map, Records.list]
  exact congrArg (l.running.sortedKeys.filterMap ·) (funext h.running)

theorem filterMap_waiting (h : l.Matches w q) :
    (l.waiting.sortedKeys.map w.place).filterMap q.files = l.waiting.list := by
  rw [List.filterMap_map, Records.list]
  exact congrArg (l.waiting.sortedKeys.filterMap ·) (funext h.waiting)

theorem answers {store : Store} {request : Request} {reply : Reply} {q' : Queue}
    (h : l.Matches store.layout.waitingLayout q)
    (hreach : ∀ pl, store.layout.reaches pl = true)
    (ha : q.Answers true store request reply q') :
    reply = (l.answer store.keepFinished request).1 ∧
      (l.answer store.keepFinished request).2.Matches store.layout.waitingLayout q' := by
  have hall : ∀ pls : List Place, pls.filter store.layout.reaches = pls := fun pls =>
    List.filter_eq_self.2 fun pl _ => hreach pl
  have hstart := fun l q key (h : Matches l store.layout.waitingLayout q) => h.start hreach key
  have hreset := fun l q key (h : Matches l store.layout.waitingLayout q) => h.reset hreach key
  have hfinish := fun l q key (h : Matches l store.layout.waitingLayout q) =>
    h.finish hreach store.keepFinished key
  cases ha with
  | create u => exact ⟨rfl, h.create hreach u⟩
  | start p hq =>
    obtain ⟨hsummary, hmatches⟩ := h.each hstart p.keys .empty
    rw [hq] at hsummary hmatches
    exact ⟨congrArg Reply.summary hsummary, hmatches⟩
  | reset p hq =>
    obtain ⟨hsummary, hmatches⟩ := h.each hreset p.keys .empty
    rw [hq] at hsummary hmatches
    exact ⟨congrArg Reply.summary hsummary, hmatches⟩
  | finish p hq =>
    obtain ⟨hsummary, hmatches⟩ := h.each hfinish p.keys .empty
    rw [hq] at hsummary hmatches
    exact ⟨congrArg Reply.summary hsummary, hmatches⟩
  | delete u hq =>
    obtain ⟨houtcome, hmatches⟩ := h.delete hreach (.derive u)
    rw [hq] at houtcome hmatches
    exact ⟨congrArg Reply.outcome houtcome, hmatches⟩
  | resetAll hlists hq =>
    rw [hlists.unique h.lists_running, Queue.resetAll, hall, List.map_map] at hq
    have hkeys : l.running.sortedKeys.map (Place.key ∘ Place.running) = l.running.sortedKeys :=
      List.map_id'' (fun _ => rfl) _
    rw [hkeys] at hq
    obtain ⟨hsummary, hmatches⟩ := h.each hreset l.running.sortedKeys .empty
    rw [hq] at hsummary hmatches
    exact ⟨congrArg Reply.summary hsummary, hmatches⟩
  | isWaiting p =>
    have hany : p.keys.any (q.isWaiting store.layout) = p.keys.any (· ∈ l.waiting) :=
      congrArg p.keys.any (funext (h.isWaiting_eq hreach))
    exact ⟨congrArg Reply.flag hany, h⟩
  | keepFinished keep => exact ⟨rfl, h⟩
  | list hlists =>
    rw [hall, hlists.unique h.lists_all, List.filterMap_append, h.filterMap_running,
      h.filterMap_waiting]
    exact ⟨rfl, h⟩
  | listWaiting hlists =>
    rw [hall, hlists.unique h.lists_waiting, h.filterMap_waiting]
    exact ⟨rfl, h⟩
  | listRunning hlists =>
    rw [hall, hlists.unique h.lists_running, h.filterMap_running]
    exact ⟨rfl, h⟩
  | listBuilding hlists =>
    rw [hlists.unique q.lists_building]
    exact ⟨rfl, h⟩

end Ledger.Matches

/-- The layout is of that kind, and records can be written through it. -/
structure Site.Stores (site : Site) (w : WaitingLayout) (layout : Layout) : Prop where
  waitingLayout : layout.waitingLayout = w
  opens : site.Opens layout
  writes : site.writes layout = true

theorem Site.Stores.serves {site : Site} {w : WaitingLayout} {layout : Layout}
    (h : site.Stores w layout) : site.Serves layout :=
  ⟨h.opens, Site.fits_of_writes h.writes⟩

/-- The ledger tells what a session's disk and stores hold. -/
structure Ledger.Tells (l : Ledger) (site : Site) (w : WaitingLayout) (s : Session) (q : Queue) :
    Prop where
  runs : site.Runs s q
  stored : l.Matches w q
  keeps : l.keeps = s.stores.map Store.keepFinished
  stores : ∀ store ∈ s.stores, site.Stores w store.layout

namespace Session

variable {site : Site} {w : WaitingLayout} {s : Session} {l : Ledger} {q : Queue}

theorem tells_bare (hbare : site.IsBareIn s.system) (hstores : s.stores = []) :
    Ledger.empty.Tells site w s .fresh where
  runs := Site.runs_bare hbare hstores
  stored := Ledger.Matches.empty_fresh w
  keeps := by rw [hstores]; rfl
  stores := by simp [hstores]

theorem reply_step (h : l.Tells site w s q) (x : Step)
    (hopen : ∀ layout, x = .open layout → site.Stores w layout) :
    (s.step x).1 = (l.step x).1 ∧ ∃ q', (l.step x).2.Tells site w (s.step x).2 q' := by
  cases x with
  | «open» layout =>
    have hlayout := hopen layout rfl
    obtain ⟨system, hstep, hruns⟩ := h.runs.step_open hlayout.serves
    rw [hstep]
    refine ⟨rfl, q, hruns, ⟨h.stored.running, h.stored.waiting, h.stored.elsewhere⟩, ?_,
      Store.forall_append h.stores hlayout false⟩
    rw [Ledger.step, List.map_append, ← h.keeps]
    rfl
  | on handle request =>
    have hkeep : l.keeps[handle]? = (s.stores[handle]?).map Store.keepFinished := by
      rw [h.keeps, List.getElem?_map]
    rcases h.runs.step_on handle request with
      ⟨hnone, hstep⟩ | ⟨store, q', system, hsome, hstep, hanswers, hruns⟩
    · rw [hstep, Ledger.step, hkeep, hnone]
      exact ⟨rfl, q, h⟩
    · have hmem := List.mem_of_getElem? hsome
      have hstore := h.stores store hmem
      rw [hstore.writes] at hanswers
      have hstored := h.stored
      rw [← hstore.waitingLayout] at hstored
      obtain ⟨hreply, hmatches⟩ :=
        hstored.answers (Site.reaches_of_writes hstore.writes) hanswers
      rw [hstore.waitingLayout] at hmatches
      rw [Ledger.step, hkeep, hsome, hstep]
      have hnext : (request.next store).keepFinished =
          Ledger.nextKeep store.keepFinished request := by
        cases request <;> rfl
      refine ⟨hreply, q', hruns, ⟨hmatches.running, hmatches.waiting, hmatches.elsewhere⟩, ?_,
        request.forall_set h.stores hmem handle⟩
      rw [List.map_set, hnext, ← h.keeps]
      rfl

theorem replies_run (h : l.Tells site w s q) (steps : List Step)
    (hopen : ∀ layout, .open layout ∈ steps → site.Stores w layout) :
    (s.run steps).1 = (l.run steps).1 := by
  induction steps generalizing s l q with
  | nil => rfl
  | cons x rest ih =>
    obtain ⟨hreply, q', h'⟩ := reply_step h x fun layout hx => hopen layout (by simp [hx])
    rw [run, Ledger.run, hreply]
    exact congrArg _ (ih h' fun layout hl => hopen layout (List.mem_cons_of_mem x hl))

/-- A task is queued, claimed, given back, claimed again and finished, and listed on its way. -/
def worked (w : WaitingLayout) (u : Update) (p : Push) : List Step :=
  [.open (Site.layoutHere 0 w), .on 0 (.create u), .on 0 .listWaiting, .on 0 (.start p),
    .on 0 .listRunning, .on 0 (.reset p), .on 0 .list, .on 0 (.start p), .on 0 (.finish p),
    .on 0 .list]

theorem replies_worked (w : WaitingLayout) {u : Update} {p : Push} (hkeys : p.keys = [.derive u]) :
    (Ledger.empty.run (worked w u p)).1 = [.done, .key (.derive u), .updates [u],
      .summary ⟨1, 0, 0⟩, .updates [u], .summary ⟨1, 0, 0⟩, .updates [u], .summary ⟨1, 0, 0⟩,
      .summary ⟨1, 0, 0⟩, .updates []] := by
  simp [worked, Ledger.run, Ledger.step, Ledger.empty, Ledger.answer, Ledger.create,
    Ledger.nextKeep, Ledger.each, hkeys, Ledger.start, Ledger.reset, Ledger.finish,
    Finmap.notMem_empty, Finmap.mem_insert, Records.erase_insert_empty, Records.list_empty,
    Records.list_insert_empty, Summary.record, Summary.empty]
/-- Stores of one layout that can write their records answer, all together, as a ledger does. -/
theorem replies_eq_ledger (site : Site) (w : WaitingLayout) (s : Session)
    (hbare : site.IsBareIn s.system) (hstores : s.stores = []) (steps : List Step)
    (hopen : ∀ layout, .open layout ∈ steps → site.Stores w layout) :
    (s.run steps).1 = (Ledger.empty.run steps).1 :=
  replies_run (tells_bare hbare hstores) steps hopen

/-- A task that comes and goes is listed where it is. -/
theorem replies_eq_ledger_worked :
    ∃ u p, u = Update.canonical "p" "refs/heads/m" "https://h/p" "h" ∧
      p = ⟨"p", "https://h/p", "h", ["refs/heads/m"]⟩ ∧
      (∀ layout, Step.open layout ∈ worked .sharded u p → Site.blank.Stores .sharded layout) ∧
      (blank.run (worked .sharded u p)).1 = (Ledger.empty.run (worked .sharded u p)).1 ∧
      (blank.run (worked .sharded u p)).1 = [.done, .key (.derive u), .updates [u],
        .summary ⟨1, 0, 0⟩, .updates [u], .summary ⟨1, 0, 0⟩, .updates [u], .summary ⟨1, 0, 0⟩,
        .summary ⟨1, 0, 0⟩, .updates []] := by
  have hkeys := Push.keys_single "p" "https://h/p" "h" "refs/heads/m"
  refine ⟨_, _, rfl, rfl, ?_⟩
  generalize Update.canonical "p" "refs/heads/m" "https://h/p" "h" = u at hkeys ⊢
  generalize (⟨"p", "https://h/p", "h", ["refs/heads/m"]⟩ : Push) = p at hkeys ⊢
  have hopen : ∀ layout, Step.open layout ∈ worked .sharded u p →
      Site.blank.Stores .sharded layout := by
    intro layout hl
    have hlayout : layout = Site.layoutHere 0 .sharded := by simpa [worked] using hl
    rw [hlayout]
    exact ⟨rfl, opens_blank .sharded, writes_blank .sharded⟩
  have hledger :=
    replies_eq_ledger .blank .sharded blank isBareIn_blank rfl (worked .sharded u p) hopen
  exact ⟨hopen, hledger, hledger.trans (replies_worked .sharded hkeys)⟩

/-- Where the directories can just be made, no record can be written, and a task that was queued
is not there to be dropped. -/
theorem replies_ne_ledger_long :
    (blank.run [.open (Site.layoutHere 2036 .flat),
        .on 0 (.create ⟨"p", "refs/heads/m", "https://h/p", "h"⟩),
        .on 0 (.delete ⟨"p", "refs/heads/m", "https://h/p", "h"⟩)]).1 ≠
      (Ledger.empty.run [.open (Site.layoutHere 2036 .flat),
        .on 0 (.create ⟨"p", "refs/heads/m", "https://h/p", "h"⟩),
        .on 0 (.delete ⟨"p", "refs/heads/m", "https://h/p", "h"⟩)]).1 := by
  generalize (⟨"p", "refs/heads/m", "https://h/p", "h"⟩ : Update) = u
  have hledger : (Ledger.empty.run [.open (Site.layoutHere 2036 .flat), .on 0 (.create u),
      .on 0 (.delete u)]).1 = [.done, .key (.derive u), .outcome .applied] := by
    simp [Ledger.run, Ledger.step, Ledger.empty, Ledger.answer, Ledger.create, Ledger.delete,
      Ledger.nextKeep, Finmap.notMem_empty, Finmap.mem_insert]
  obtain ⟨s, hrun, hstores, hruns⟩ := run_blank_create (n := 2036) (w := .flat) (by decide) u
  have hreach : (Site.layoutHere 2036 .flat).reaches (.flat (.derive u)) = false := by
    unfold Layout.reaches Path.isTooLong
    rw [Layout.utf8ByteSize_pathOf_flat, Site.utf8ByteSize_refUpdates_here]
    decide
  have hfailed : (s.step (.on 0 (.delete u))).1 = .outcome .failed := by
    rcases hruns.step_on 0 (.delete u) with ⟨hnone, -⟩ | ⟨store, q', _, hsome, -, ha, -⟩
    · rw [hstores] at hnone
      cases hnone
    · rw [hstores] at hsome
      obtain rfl : _ = store := Option.some.inj hsome
      generalize (s.step (.on 0 (.delete u))).1 = reply at ha
      cases ha with
      | delete _ hdelete =>
        rw [Queue.delete_unreached _ hreach] at hdelete
        cases hdelete
        rfl
  have hsession : (blank.run [.open (Site.layoutHere 2036 .flat), .on 0 (.create u),
      .on 0 (.delete u)]).1 = [.done, .key (.derive u), .outcome .failed] := by
    have happend := blank.run_append [.open (Site.layoutHere 2036 .flat), .on 0 (.create u)]
      [.on 0 (.delete u)]
    rw [hrun] at happend
    rw [show [Step.open (Site.layoutHere 2036 .flat), .on 0 (.create u), .on 0 (.delete u)] =
      [.open (Site.layoutHere 2036 .flat), .on 0 (.create u)] ++ [.on 0 (.delete u)] from rfl,
      happend, run, run, hfailed]
    rfl
  rw [hledger, hsession]
  simp

end Session

end ReplicationQueue
