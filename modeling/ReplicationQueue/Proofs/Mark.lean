import ReplicationQueue.Proofs.Exclusion
import ReplicationQueue.Proofs.Waiting

/-! What became of each key in the course of a session: when a waiting file of it was made, and what
was done to its tasks. The marks of a session are those of the acts that it is told by. -/

namespace ReplicationQueue

attribute [local irreducible] Path.isTooLong

/-- What became of a key. -/
inductive Mark where
  /-- A waiting file was made where none was. -/
  | queued (key : TaskKey)
  | did (deed : Deed)
  deriving DecidableEq

namespace Deed

/-- A waiting task was dropped. -/
def drop (key : TaskKey) : Deed :=
  ⟨.delete, key, .applied⟩

/-- A running task was given back. -/
def giveBack (key : TaskKey) : Deed :=
  ⟨.reset, key, .applied⟩

/-- A running task was finished. -/
def retire (key : TaskKey) : Deed :=
  ⟨.finish, key, .applied⟩

end Deed

namespace Queue

/-- How often a key waits. -/
def copies (files : Place → Option Update) (key : TaskKey) : Nat :=
  (files (.flat key)).isSome.toNat + (files (.sharded key)).isSome.toNat

theorem length_waitingPlaces (q : Queue) (key : TaskKey) :
    (q.waitingPlaces key).length = copies q.files key := by
  unfold waitingPlaces copies
  cases hflat : (q.files (.flat key)).isSome <;> cases hsharded : (q.files (.sharded key)).isSome <;>
    simp [hflat, hsharded]

/-! ### Marks of acts -/

/-- What an act is marked by. -/
def Act.mark? (q : Queue) : Act → Option Mark
  | .create layout writes u =>
    if copies q.files (.derive u) < copies (q.create layout writes u).files (.derive u) then
      some (.queued (.derive u))
    else none
  | a => (a.deed? q).map .did

def marks : Queue → List Act → List Mark
  | _, [] => []
  | q, a :: rest => (a.mark? q).toList ++ marks (a.apply q) rest

variable {q : Queue}

theorem Act.mark?_eq_did_iff {a : Act} {d : Deed} :
    a.mark? q = some (.did d) ↔ a.deed? q = some d := by
  cases a with
  | create layout writes u =>
    refine iff_of_false (fun h => ?_) (fun h => by cases h)
    rw [mark?] at h
    split at h <;> simp at h
  | _ => simp [mark?, deed?]

theorem marks_append (q : Queue) (xs ys : List Act) :
    q.marks (xs ++ ys) = q.marks xs ++ (q.after xs).marks ys := by
  induction xs generalizing q with
  | nil => rfl
  | cons a rest ih =>
    rw [List.cons_append, marks, marks, ih, List.append_assoc, after_cons]

/-- Where no update is queued, each mark is a deed. -/
theorem marks_eq_deeds {acts : List Act} (h : ∀ layout writes u, .create layout writes u ∉ acts) :
    q.marks acts = (q.deeds acts).map .did := by
  induction acts generalizing q with
  | nil => rfl
  | cons a rest ih =>
    have hmark : a.mark? q = (a.deed? q).map .did := by
      cases a with
      | create layout writes u => exact absurd List.mem_cons_self (h layout writes u)
      | _ => rfl
    rw [marks, deeds, List.map_append, hmark,
      ih fun layout writes u hu => h layout writes u (List.mem_cons_of_mem a hu)]
    cases a.deed? q <;> rfl

/-- Up to any mark, some of the acts were made. -/
theorem exists_of_concat_prefix {acts : List Act} {before : List Mark} {m : Mark}
    (h : before ++ [m] <+: q.marks acts) :
    ∃ xs, ∃ a : Act, q.marks xs = before ∧ a.mark? (q.after xs) = some m := by
  induction acts generalizing q before with
  | nil => simp [marks] at h
  | cons a rest ih =>
    rw [marks] at h
    cases hmark : a.mark? q with
    | none =>
      rw [hmark] at h
      obtain ⟨xs, b, hxs, hb⟩ := ih h
      exact ⟨a :: xs, b, by rw [marks, hmark, hxs]; rfl, hb⟩
    | some e =>
      rw [hmark, Option.toList_some, List.singleton_append] at h
      cases before with
      | nil =>
        obtain ⟨rfl, -⟩ := List.cons_prefix_cons.1 h
        exact ⟨[], a, rfl, hmark⟩
      | cons e' before =>
        obtain ⟨rfl, htail⟩ := List.cons_prefix_cons.1 h
        obtain ⟨xs, b, hxs, hb⟩ := ih htail
        exact ⟨a :: xs, b, by rw [marks, hmark, hxs]; rfl, hb⟩

theorem exists_of_prefix {acts : List Act} {done : List Mark} (h : done <+: q.marks acts) :
    ∃ xs, q.marks xs = done := by
  rcases List.eq_nil_or_concat' done with rfl | ⟨before, m, rfl⟩
  · exact ⟨[], rfl⟩
  · obtain ⟨xs, a, hxs, ha⟩ := exists_of_concat_prefix h
    refine ⟨xs ++ [a], ?_⟩
    rw [marks_append, hxs, marks, ha]
    rfl

end Queue

/-! ### Sessions -/

namespace Session

/-- The key that a step makes a waiting file of. -/
def queuedIn (site : Site) (s : Session) : Step → List TaskKey
  | .on handle (.create u) =>
    if (site.waitingFiles s.system (.derive u)).length <
        (site.waitingFiles (s.step (.on handle (.create u))).2.system (.derive u)).length then
      [.derive u]
    else []
  | _ => []

def marksIn (site : Site) (s : Session) (x : Step) : List Mark :=
  (s.queuedIn site x).map .queued ++ (s.deedsIn x).map .did

/-- What became of each key, in order. -/
def marks (site : Site) : Session → List Step → List Mark
  | _, [] => []
  | s, x :: rest => s.marksIn site x ++ marks site (s.step x).2 rest

end Session

namespace Site.Runs

variable {site : Site} {s : Session} {q : Queue}

theorem length_waitingFiles (h : site.Runs s q) (key : TaskKey) :
    (site.waitingFiles s.system key).length = Queue.copies q.files key := by
  rw [h.waitingFiles_eq, List.length_map, q.length_waitingPlaces]

theorem marksIn_eq (h : site.Runs s q) {x : Step} {acts : List Queue.Act}
    (htold : x.Told site s acts) (hdeeds : s.deedsIn x = q.deeds acts)
    (hruns : site.Runs (s.step x).2 (q.after acts)) : s.marksIn site x = q.marks acts := by
  rw [Session.marksIn, hdeeds]
  cases htold with
  | opened layout => rfl
  | @ignored handle hnone request =>
    have hqueued : s.queuedIn site (.on handle request) = [] := by
      cases request with
      | create u =>
        rw [Session.queuedIn, Session.step, hnone, if_neg (lt_irrefl _)]
      | _ => rfl
    rw [hqueued]
    rfl
  | @asked handle store hstore request running =>
    by_cases hcreate : ∃ u, request = .create u
    · obtain ⟨u, rfl⟩ := hcreate
      have hafter : q.after (Request.acts store (site.writes store.layout) running (.create u)) =
          q.create store.layout (site.writes store.layout) u := rfl
      have hmarks : q.marks (Request.acts store (site.writes store.layout) running (.create u)) =
          (Queue.Act.mark? q (.create store.layout (site.writes store.layout) u)).toList ++ [] := rfl
      rw [hmarks, Session.queuedIn, h.length_waitingFiles, hruns.length_waitingFiles, hafter,
        Queue.Act.mark?]
      by_cases hmore : Queue.copies q.files (.derive u) <
          Queue.copies (q.create store.layout (site.writes store.layout) u).files (.derive u)
      · rw [if_pos hmore, if_pos hmore]
        rfl
      · rw [if_neg hmore, if_neg hmore]
        rfl
    · have hqueued : s.queuedIn site (.on handle request) = [] := by
        cases request with
        | create u => exact absurd ⟨u, rfl⟩ hcreate
        | _ => rfl
      rw [hqueued, Queue.marks_eq_deeds fun layout made u hu =>
        hcreate ⟨u, (Queue.create_mem_acts hu).1⟩]
      rfl

theorem marksIn_request (h : site.Runs s q) {handle : Nat} {store : Store}
    (hstore : s.stores[handle]? = some store) (request : Request) :
    ∃ running, s.marksIn site (.on handle request) =
        q.marks (request.acts store (site.writes store.layout) running) ∧
      site.Runs (s.step (.on handle request)).2
        (q.after (request.acts store (site.writes store.layout) running)) := by
  obtain ⟨running, hdeeds, hruns⟩ := h.step_request hstore request
  exact ⟨running, h.marksIn_eq (.asked hstore request running) hdeeds hruns, hruns⟩

/-- The marks of a session are those of acts. -/
theorem marks_run (h : site.Runs s q) (steps : List Step)
    (hopen : ∀ layout, .open layout ∈ steps → site.Opens layout) :
    ∃ acts, s.marks site steps = q.marks acts := by
  induction steps generalizing s q with
  | nil => exact ⟨[], rfl⟩
  | cons x rest ih =>
    obtain ⟨acts, htold, hdeeds, hruns⟩ := h.step_told x fun layout hl => hopen layout (by simp [hl])
    obtain ⟨more, hmore⟩ := ih hruns fun layout hl => hopen layout (List.mem_cons_of_mem x hl)
    refine ⟨acts ++ more, ?_⟩
    rw [Session.marks, h.marksIn_eq htold hdeeds hruns, hmore, Queue.marks_append]

end Site.Runs

end ReplicationQueue
