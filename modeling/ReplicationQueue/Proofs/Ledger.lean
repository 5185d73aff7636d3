import Mathlib.Data.Finmap
import Mathlib.Data.Finset.Sort
import Mathlib.Data.String.Basic
import ReplicationQueue.Proofs.Session

/-! The store as a ledger. A ledger keeps two finite maps from keys to records, of what waits and of
what runs, and for each store whether it keeps finished tasks. Through stores of one layout that can
write their records, the replies of a session are those of the ledger. -/

namespace ReplicationQueue

/-- Keys are in the order of their texts. -/
instance : LinearOrder TaskKey :=
  LinearOrder.lift' TaskKey.text fun _ _ h => TaskKey.ext h

/-- Records by key. -/
abbrev Records := Finmap fun _ : TaskKey => Update

namespace Records

/-- The keys, in order. -/
def sortedKeys (m : Records) : List TaskKey :=
  m.keys.sort (· ≤ ·)

/-- The records, in the order of their keys. -/
def list (m : Records) : List Update :=
  m.sortedKeys.filterMap m.lookup

theorem lookup_insert_apply (m : Records) (k l : TaskKey) (u : Update) :
    (m.insert k u).lookup l = if l = k then some u else m.lookup l := by
  split
  · rename_i h
    rw [h, Finmap.lookup_insert]
  · rename_i h
    rw [Finmap.lookup_insert_of_ne m h]

theorem lookup_erase_apply (m : Records) (k l : TaskKey) :
    (m.erase k).lookup l = if l = k then none else m.lookup l := by
  split
  · rename_i h
    rw [h, Finmap.lookup_erase]
  · rename_i h
    rw [Finmap.lookup_erase_ne h]

theorem mem_sortedKeys (m : Records) (k : TaskKey) : k ∈ m.sortedKeys ↔ (m.lookup k).isSome := by
  rw [sortedKeys, Finset.mem_sort, Finmap.mem_keys, Finmap.lookup_isSome]

theorem sorted_sortedKeys (m : Records) : m.sortedKeys.Pairwise (·.text < ·.text) :=
  (Finset.sortedLT_sort m.keys).pairwise

theorem erase_insert_empty (k : TaskKey) (u : Update) :
    Finmap.erase k (Finmap.insert k u (∅ : Records)) = ∅ := by
  refine Finmap.ext_lookup fun l => ?_
  rw [lookup_erase_apply, lookup_insert_apply]
  split <;> simp_all

theorem list_empty : Records.list ∅ = [] := by
  simp [list, sortedKeys]

theorem list_insert_empty (k : TaskKey) (u : Update) :
    Records.list (Finmap.insert k u (∅ : Records)) = [u] := by
  have hkeys : (Finmap.insert k u (∅ : Records)).keys = {k} := by
    ext l
    rw [Finmap.mem_keys, Finmap.mem_insert, Finset.mem_singleton]
    simp [Finmap.notMem_empty]
  simp [list, sortedKeys, hkeys]

end Records

structure Ledger where
  waiting : Records
  running : Records
  /-- For each store, whether finished tasks stay. -/
  keeps : List Bool

namespace Ledger

def empty : Ledger :=
  ⟨∅, ∅, []⟩

def create (l : Ledger) (u : Update) : Ledger :=
  if .derive u ∈ l.waiting then l
  else { l with waiting := l.waiting.insert (.derive u) u }

def start (l : Ledger) (key : TaskKey) : Outcome × Ledger :=
  match l.waiting.lookup key with
  | none => (.skipped, l)
  | some u =>
    (.applied, { l with waiting := l.waiting.erase key, running := l.running.insert key u })

def reset (l : Ledger) (key : TaskKey) : Outcome × Ledger :=
  match l.running.lookup key with
  | none => (.skipped, l)
  | some u =>
    (.applied, { l with running := l.running.erase key, waiting := l.waiting.insert key u })

def finish (l : Ledger) (keep : Bool) (key : TaskKey) : Outcome × Ledger :=
  if keep ∨ key ∉ l.running then (.skipped, l)
  else (.applied, { l with running := l.running.erase key })

def delete (l : Ledger) (key : TaskKey) : Outcome × Ledger :=
  if key ∈ l.waiting then (.applied, { l with waiting := l.waiting.erase key }) else (.skipped, l)

/-- One transition for each key, one after the other. -/
def each (l : Ledger) (f : Ledger → TaskKey → Outcome × Ledger) :
    List TaskKey → Summary → Summary × Ledger
  | [], summary => (summary, l)
  | key :: rest, summary => each (f l key).2 f rest (summary.record (f l key).1)

/-- The answer to a request of a store, and the ledger afterwards. -/
def answer (l : Ledger) (keep : Bool) : Request → Reply × Ledger
  | .create u => (.key (.derive u), l.create u)
  | .start p => ((l.each start p.keys .empty).map .summary id)
  | .reset p => ((l.each reset p.keys .empty).map .summary id)
  | .finish p => ((l.each (finish · keep) p.keys .empty).map .summary id)
  | .delete u => ((l.delete (.derive u)).map .outcome id)
  | .resetAll => ((l.each reset l.running.sortedKeys .empty).map .summary id)
  | .isWaiting p => (.flag (p.keys.any (· ∈ l.waiting)), l)
  | .keepFinished _ => (.done, l)
  | .list => (.updates (l.running.list ++ l.waiting.list), l)
  | .listWaiting => (.updates l.waiting.list, l)
  | .listRunning => (.updates l.running.list, l)
  | .listBuilding => (.updates [], l)

/-- Whether finished tasks stay after a request. -/
def nextKeep (keep : Bool) : Request → Bool
  | .keepFinished keep => keep
  | _ => keep

def step (l : Ledger) : Step → Reply × Ledger
  | .open _ => (.done, { l with keeps := l.keeps ++ [false] })
  | .on handle request =>
    match l.keeps[handle]? with
    | none => (.nothing, l)
    | some keep =>
      ((l.answer keep request).1,
        { (l.answer keep request).2 with keeps := l.keeps.set handle (nextKeep keep request) })

/-- The replies to several steps, and the ledger after them. -/
def run : Ledger → List Step → List Reply × Ledger
  | l, [] => ([], l)
  | l, x :: rest => ((l.step x).1 :: (run (l.step x).2 rest).1, (run (l.step x).2 rest).2)

/-! ### Ledgers of queues -/

/-- The ledger tells what the queue holds, which has nothing elsewhere than the layout puts it. -/
structure Matches (l : Ledger) (w : WaitingLayout) (q : Queue) : Prop where
  running : ∀ key, q.files (.running key) = l.running.lookup key
  waiting : ∀ key, q.files (w.place key) = l.waiting.lookup key
  elsewhere : ∀ pl, pl ≠ .running pl.key → pl ≠ w.place pl.key → q.files pl = none

end Ledger

namespace Ledger.Matches

variable {l : Ledger} {q : Queue} {layout : Layout}

theorem empty_fresh (w : WaitingLayout) : Ledger.empty.Matches w .fresh where
  running key := by
    rw [Ledger.empty, Finmap.lookup_empty]
    rfl
  waiting key := by
    rw [Ledger.empty, Finmap.lookup_empty]
    rfl
  elsewhere _ _ _ := rfl

/-- What waits is found where the layout puts it. -/
theorem source_eq (h : l.Matches layout.waitingLayout q)
    (hreach : ∀ pl, layout.reaches pl = true) (key : TaskKey) :
    q.source layout key = layout.waitingPlace key := by
  unfold Queue.source
  rw [Queue.finds_of_reaches hreach, Queue.finds_of_reaches hreach]
  split
  · rfl
  · rename_i hnone
    split
    · rename_i hflat
      by_cases hplace : Place.flat key = layout.waitingPlace key
      · exact hplace
      · rw [h.elsewhere (.flat key) (by simp) hplace] at hflat
        cases hflat
    · rfl

theorem isWaiting_eq (h : l.Matches layout.waitingLayout q)
    (hreach : ∀ pl, layout.reaches pl = true) (key : TaskKey) :
    q.isWaiting layout key = decide (key ∈ l.waiting) := by
  have hwaiting : (q.files (layout.waitingPlace key)).isSome = decide (key ∈ l.waiting) := by
    rw [Layout.waitingPlace, h.waiting, Bool.eq_iff_iff, decide_eq_true_iff, Finmap.lookup_isSome]
  rw [Queue.isWaiting, Queue.finds_of_reaches hreach, Queue.finds_of_reaches hreach, hwaiting]
  by_cases hplace : Place.flat key = layout.waitingPlace key
  · rw [hplace, hwaiting, Bool.or_self]
  · rw [h.elsewhere (.flat key) (by simp) hplace, Option.isSome_none, Bool.or_false]

/-! ### Changes -/

section Changes

variable {w : WaitingLayout} {q' : Queue} {key : TaskKey}

/-- A ledger matches a queue with the same files. -/
theorem congr (h : l.Matches w q) (hfiles : q'.files = q.files) : l.Matches w q' where
  running key := by rw [hfiles, h.running]
  waiting key := by rw [hfiles, h.waiting]
  elsewhere pl := by rw [hfiles]; exact h.elsewhere pl

theorem insert_waiting (h : l.Matches w q) {u : Update}
    (hfiles : q'.files = Function.update q.files (w.place key) (some u)) :
    Matches { l with waiting := l.waiting.insert key u } w q' where
  running other := by
    rw [hfiles, Function.update_of_ne (w.place_ne_running key other).symm, h.running]
  waiting other := by
    simp only [hfiles, Function.update_apply, WaitingLayout.place_inj,
      Records.lookup_insert_apply, h.waiting]
  elsewhere pl hrunning hwaiting := by
    have hne : pl ≠ w.place key := by
      rintro rfl
      exact hwaiting (by rw [WaitingLayout.key_place])
    rw [hfiles, Function.update_of_ne hne]
    exact h.elsewhere pl hrunning hwaiting

theorem erase_waiting (h : l.Matches w q)
    (hfiles : q'.files = Function.update q.files (w.place key) none) :
    Matches { l with waiting := l.waiting.erase key } w q' where
  running other := by
    rw [hfiles, Function.update_of_ne (w.place_ne_running key other).symm, h.running]
  waiting other := by
    simp only [hfiles, Function.update_apply, WaitingLayout.place_inj,
      Records.lookup_erase_apply, h.waiting]
  elsewhere pl hrunning hwaiting := by
    rw [hfiles, Function.update_apply]
    split
    · rfl
    · exact h.elsewhere pl hrunning hwaiting

theorem insert_running (h : l.Matches w q) {u : Update}
    (hfiles : q'.files = Function.update q.files (.running key) (some u)) :
    Matches { l with running := l.running.insert key u } w q' where
  running other := by
    simp only [hfiles, Function.update_apply, Place.running.injEq, Records.lookup_insert_apply,
      h.running]
  waiting other := by
    rw [hfiles, Function.update_of_ne (w.place_ne_running other key), h.waiting]
  elsewhere pl hrunning hwaiting := by
    have hne : pl ≠ .running key := by
      rintro rfl
      exact hrunning rfl
    rw [hfiles, Function.update_of_ne hne]
    exact h.elsewhere pl hrunning hwaiting

theorem erase_running (h : l.Matches w q)
    (hfiles : q'.files = Function.update q.files (.running key) none) :
    Matches { l with running := l.running.erase key } w q' where
  running other := by
    simp only [hfiles, Function.update_apply, Place.running.injEq, Records.lookup_erase_apply,
      h.running]
  waiting other := by
    rw [hfiles, Function.update_of_ne (w.place_ne_running other key), h.waiting]
  elsewhere pl hrunning hwaiting := by
    rw [hfiles, Function.update_apply]
    split
    · rfl
    · exact h.elsewhere pl hrunning hwaiting

end Changes

/-! ### Transitions -/

theorem start (h : l.Matches layout.waitingLayout q) (hreach : ∀ pl, layout.reaches pl = true)
    (key : TaskKey) :
    (q.start layout key).1 = (l.start key).1 ∧
      (l.start key).2.Matches layout.waitingLayout (q.start layout key).2 := by
  have hmoves := q.moves_move layout (layout.waitingPlace key) (.running key)
  have hok := Queue.move_ne_failed (q := q) (hreach (layout.waitingPlace key)) (hreach (.running key))
  have hfound : q.files (layout.waitingPlace key) = l.waiting.lookup key := h.waiting key
  rw [Queue.start, h.source_eq hreach, Ledger.start, ← hfound]
  generalize q.move layout (layout.waitingPlace key) (.running key) = r at hmoves hok
  cases hmoves with
  | failed files building => exact absurd rfl hok
  | skipped absent files building =>
    rw [absent]
    exact ⟨rfl, h.congr files⟩
  | applied u found files building =>
    rw [found]
    have herased : Matches { l with waiting := l.waiting.erase key } layout.waitingLayout
      (q.set (layout.waitingPlace key) none) := h.erase_waiting rfl
    exact ⟨rfl, herased.insert_running files⟩

theorem reset (h : l.Matches layout.waitingLayout q) (hreach : ∀ pl, layout.reaches pl = true)
    (key : TaskKey) :
    (q.reset layout key).1 = (l.reset key).1 ∧
      (l.reset key).2.Matches layout.waitingLayout (q.reset layout key).2 := by
  have hmoves := q.moves_move layout (.running key) (layout.waitingPlace key)
  have hok := Queue.move_ne_failed (q := q) (hreach (.running key)) (hreach (layout.waitingPlace key))
  have hfound := h.running key
  rw [Queue.reset, Ledger.reset, ← hfound]
  generalize q.move layout (.running key) (layout.waitingPlace key) = r at hmoves hok
  cases hmoves with
  | failed files building => exact absurd rfl hok
  | skipped absent files building =>
    rw [absent]
    exact ⟨rfl, h.congr files⟩
  | applied u found files building =>
    rw [found]
    have herased : Matches { l with running := l.running.erase key } layout.waitingLayout
      (q.set (.running key) none) := h.erase_running rfl
    exact ⟨rfl, herased.insert_waiting files⟩

theorem finish (h : l.Matches layout.waitingLayout q) (hreach : ∀ pl, layout.reaches pl = true)
    (keep : Bool) (key : TaskKey) :
    (q.finish layout keep key).1 = (l.finish keep key).1 ∧
      (l.finish keep key).2.Matches layout.waitingLayout (q.finish layout keep key).2 := by
  have hfound := h.running key
  rw [Ledger.finish]
  rcases q.finish_cases layout keep key with ⟨rfl, hkept⟩ | ⟨rfl, hremoves⟩
  · rw [hkept, if_pos (.inl rfl)]
    exact ⟨rfl, h⟩
  · have hok : (q.finish layout false key).1 ≠ .failed := Queue.remove_ne_failed (hreach _)
    generalize q.finish layout false key = r at hremoves hok
    cases hremoves with
    | failed => exact absurd rfl hok
    | skipped absent =>
      have hmem : key ∉ l.running := Finmap.lookup_eq_none.1 (by rw [← hfound, absent])
      rw [if_pos (.inr hmem)]
      exact ⟨rfl, h⟩
    | applied u found =>
      have hmem : key ∈ l.running := Finmap.mem_iff.2 ⟨u, by rw [← hfound, found]⟩
      rw [if_neg (by simp [hmem])]
      exact ⟨rfl, h.erase_running rfl⟩

theorem delete (h : l.Matches layout.waitingLayout q) (hreach : ∀ pl, layout.reaches pl = true)
    (key : TaskKey) :
    (q.delete layout key).1 = (l.delete key).1 ∧
      (l.delete key).2.Matches layout.waitingLayout (q.delete layout key).2 := by
  have hfound : q.files (layout.waitingPlace key) = l.waiting.lookup key := h.waiting key
  rw [Ledger.delete]
  rcases q.delete_cases layout key with
    ⟨pl, hpl, hfile, hdelete⟩ | hdelete | ⟨habsent, -, hdelete⟩
  · have hplace : pl = layout.waitingPlace key := by
      rcases hpl with hpl | rfl
      · exact hpl
      · by_contra hne
        rw [h.elsewhere (.flat key) (by simp) hne] at hfile
        cases hfile
    subst hplace
    have hmem : key ∈ l.waiting := Finmap.lookup_isSome.1 (by rw [← hfound, hfile])
    rw [hdelete, if_pos hmem]
    exact ⟨rfl, h.erase_waiting rfl⟩
  · have hok : (q.delete layout key).1 ≠ .failed := by
      unfold Queue.delete
      have hfirst := Queue.remove_ne_failed (q := q) (hreach (layout.waitingPlace key))
      split
      · exact Queue.remove_ne_failed (hreach _)
      · exact hfirst
    exact absurd (by rw [hdelete]) hok
  · have hmem : key ∉ l.waiting := Finmap.lookup_eq_none.1 (by rw [← hfound, habsent])
    rw [hdelete, if_neg hmem]
    exact ⟨rfl, h⟩

theorem create (h : l.Matches layout.waitingLayout q) (hreach : ∀ pl, layout.reaches pl = true)
    (u : Update) : (l.create u).Matches layout.waitingLayout (q.create layout true u) := by
  have hwaiting := h.isWaiting_eq hreach (.derive u)
  have hfiles := q.create_files hreach u
  rw [Ledger.create]
  by_cases hmem : .derive u ∈ l.waiting
  · rw [hwaiting, if_pos (by simpa using hmem)] at hfiles
    rw [if_pos hmem]
    exact h.congr hfiles
  · rw [hwaiting, if_neg (by simpa using hmem)] at hfiles
    rw [if_neg hmem]
    exact h.insert_waiting hfiles

theorem each {f : Queue → TaskKey → Outcome × Queue} {g : Ledger → TaskKey → Outcome × Ledger}
    {w : WaitingLayout}
    (hstep : ∀ l q key, Matches l w q →
      (f q key).1 = (g l key).1 ∧ (g l key).2.Matches w (f q key).2)
    (h : l.Matches w q) (keys : List TaskKey) (summary : Summary) :
    (q.each f keys summary).1 = (l.each g keys summary).1 ∧
      (l.each g keys summary).2.Matches w (q.each f keys summary).2 := by
  induction keys generalizing l q summary with
  | nil => exact ⟨rfl, h⟩
  | cons key rest ih =>
    obtain ⟨hanswer, hmatches⟩ := hstep l q key h
    rw [Queue.each, Ledger.each, hanswer]
    exact ih hmatches _

/-! ### Listings -/

/-- Shards are in the order of their keys. -/
theorem shard_le {a b : TaskKey} (h : a.text < b.text) : a.shard < b.shard ∨ a.shard = b.shard := by
  have htake : ∀ (n : Nat) (xs ys : List Char), xs < ys →
      xs.take n < ys.take n ∨ xs.take n = ys.take n := by
    intro n
    induction n with
    | zero => intro xs ys _; exact .inr rfl
    | succ n ih =>
      intro xs ys hlt
      cases ys with
      | nil => exact absurd hlt (List.not_lt_nil xs)
      | cons y ys =>
        cases xs with
        | nil => exact .inl (List.nil_lt_cons _ _)
        | cons x xs =>
          simp only [List.take_succ_cons]
          rcases List.cons_lt_cons_iff.1 hlt with hxy | ⟨hxy, htail⟩
          · exact .inl (List.cons_lt_cons_iff.2 (.inl hxy))
          · rw [hxy]
            rcases ih xs ys htail with htake | htake
            · exact .inl (List.cons_lt_cons_iff.2 (.inr ⟨rfl, htake⟩))
            · exact .inr (by rw [htake])
  rcases htake 2 a.text.toList b.text.toList h with hlt | heq
  · refine .inl ?_
    show a.shard.toList < b.shard.toList
    rwa [TaskKey.shard, TaskKey.shard, String.toList_ofList, String.toList_ofList]
  · exact .inr (by rw [TaskKey.shard, TaskKey.shard, heq])

theorem names_running_lt {a b : TaskKey} (h : a.text < b.text) :
    (Place.running a).names < (Place.running b).names :=
  List.cons_lt_cons_iff.2 (.inr ⟨rfl, List.cons_lt_cons_iff.2 (.inl h)⟩)

theorem names_place_lt (w : WaitingLayout) {a b : TaskKey} (h : a.text < b.text) :
    (w.place a).names < (w.place b).names := by
  have hlast : [a.text] < [b.text] := List.cons_lt_cons_iff.2 (.inl h)
  cases w with
  | flat => exact List.cons_lt_cons_iff.2 (.inr ⟨rfl, hlast⟩)
  | sharded =>
    refine List.cons_lt_cons_iff.2 (.inr ⟨rfl, ?_⟩)
    show a.shard :: [a.text] < b.shard :: [b.text]
    rcases shard_le h with hlt | heq
    · exact List.cons_lt_cons_iff.2 (.inl hlt)
    · rw [heq]
      exact List.cons_lt_cons_iff.2 (.inr ⟨rfl, hlast⟩)

theorem lists_running {w : WaitingLayout} (h : l.Matches w q) :
    q.Lists ["running"] (l.running.sortedKeys.map .running) where
  sorted := by
    rw [List.map_map, List.pairwise_map]
    exact l.running.sorted_sortedKeys.imp names_running_lt
  mem pl := by
    rw [List.mem_map, Place.runs_iff]
    constructor
    · rintro ⟨key, hkey, rfl⟩
      rw [l.running.mem_sortedKeys, ← h.running] at hkey
      exact ⟨rfl, hkey⟩
    · rintro ⟨hpl, hfile⟩
      refine ⟨pl.key, ?_, hpl.symm⟩
      rwa [l.running.mem_sortedKeys, ← h.running, ← hpl]

theorem place_of_files {w : WaitingLayout} (h : l.Matches w q) {pl : Place}
    (hpl : (q.files pl).isSome) : pl = .running pl.key ∨ pl = w.place pl.key := by
  by_contra hne
  rw [not_or] at hne
  rw [h.elsewhere pl hne.1 hne.2] at hpl
  cases hpl

theorem lists_waiting {w : WaitingLayout} (h : l.Matches w q) :
    q.Lists ["waiting"] (l.waiting.sortedKeys.map w.place) where
  sorted := by
    rw [List.map_map, List.pairwise_map]
    exact l.waiting.sorted_sortedKeys.imp (names_place_lt w)
  mem pl := by
    rw [List.mem_map, Place.waits_iff]
    constructor
    · rintro ⟨key, hkey, rfl⟩
      rw [l.waiting.mem_sortedKeys, ← h.waiting] at hkey
      exact ⟨w.place_ne_running key _, hkey⟩
    · rintro ⟨hne, hfile⟩
      have hpl := (h.place_of_files hfile).resolve_left hne
      refine ⟨pl.key, ?_, hpl.symm⟩
      rwa [l.waiting.mem_sortedKeys, ← h.waiting, ← hpl]

theorem lists_all {w : WaitingLayout} (h : l.Matches w q) :
    q.Lists [] (l.running.sortedKeys.map .running ++ l.waiting.sortedKeys.map w.place) where
  sorted := by
    rw [List.map_append]
    refine List.pairwise_append.2 ⟨h.lists_running.sorted, h.lists_waiting.sorted, ?_⟩
    intro a ha b hb
    simp only [List.map_map, List.mem_map, Function.comp_apply] at ha hb
    obtain ⟨key, -, rfl⟩ := ha
    obtain ⟨other, -, rfl⟩ := hb
    cases w <;> exact List.cons_lt_cons_iff.2 (.inl (by decide))
  mem pl := by
    rw [List.mem_append, h.lists_running.mem, h.lists_waiting.mem, ← or_and_right, Place.runs_iff,
      Place.waits_iff, and_iff_right (Decidable.em _), and_iff_right List.nil_prefix]

end Ledger.Matches

end ReplicationQueue
