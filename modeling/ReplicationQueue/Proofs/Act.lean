import ReplicationQueue.Proofs.Transition

/-! What a transition can do to the records of a queue: nothing, or one thing. Everything that holds
of all runs is derived from these cases. -/

namespace ReplicationQueue

attribute [local irreducible] Path.isTooLong

namespace Queue

/-! ### The cases of each transition -/

/-- A move is refused, finds nothing, or takes one record to its new place. -/
inductive Moves (q : Queue) (src dst : Place) : Outcome × Queue → Prop where
  | failed {q' : Queue} (files : q'.files = q.files) (building : q'.building = q.building) :
      Moves q src dst (.failed, q')
  | skipped {q' : Queue} (absent : q.files src = none) (files : q'.files = q.files)
      (building : q'.building = q.building) : Moves q src dst (.skipped, q')
  | applied {q' : Queue} (u : Update) (found : q.files src = some u)
      (files : q'.files = Function.update (Function.update q.files src none) dst (some u))
      (building : q'.building = q.building) : Moves q src dst (.applied, q')

theorem moves_move (q : Queue) (layout : Layout) (src dst : Place) :
    q.Moves src dst (q.move layout src dst) := by
  unfold move
  rcases q.provision_cases layout dst with hnone | ⟨q', hsome, -, hfiles, hbuilding⟩
  · rw [hnone]
    exact .failed rfl rfl
  · rw [hsome]
    simp only
    split
    · cases hsrc : q'.files src with
      | none => exact .skipped (hfiles ▸ hsrc) hfiles hbuilding
      | some u =>
        refine .applied u (hfiles ▸ hsrc) ?_ hbuilding
        simp only [set, hfiles]
    · exact .failed hfiles hbuilding

/-- A removal is refused, finds nothing, or removes one record. -/
inductive Removes (q : Queue) (pl : Place) : Outcome × Queue → Prop where
  | failed : Removes q pl (.failed, q)
  | skipped (absent : q.files pl = none) : Removes q pl (.skipped, q)
  | applied (u : Update) (found : q.files pl = some u) : Removes q pl (.applied, q.set pl none)

theorem removes_remove (q : Queue) (layout : Layout) (pl : Place) :
    q.Removes pl (q.remove layout pl) := by
  unfold remove
  split
  · cases hpl : q.files pl with
    | none => exact .skipped hpl
    | some u => exact .applied u hpl
  · exact .failed

theorem finish_cases (q : Queue) (layout : Layout) (keep : Bool) (key : TaskKey) :
    keep = true ∧ q.finish layout keep key = (.skipped, q) ∨
      keep = false ∧ q.Removes (.running key) (q.finish layout keep key) := by
  cases keep with
  | true => exact .inl ⟨rfl, rfl⟩
  | false => exact .inr ⟨rfl, q.removes_remove layout (.running key)⟩

theorem key_source (q : Queue) (layout : Layout) (key : TaskKey) :
    (q.source layout key).key = key := by
  unfold source
  split
  · exact layout.key_waitingPlace key
  · split
    · rfl
    · exact layout.key_waitingPlace key

/-- Dropping a task removes one record at most. -/
theorem delete_cases (q : Queue) (layout : Layout) (key : TaskKey) :
    (∃ pl, (pl = layout.waitingPlace key ∨ pl = .flat key) ∧ (q.files pl).isSome ∧
        q.delete layout key = (.applied, q.set pl none)) ∨
      q.delete layout key = (.failed, q) ∨
      (q.files (layout.waitingPlace key) = none ∧ q.files (.flat key) = none ∧
        q.delete layout key = (.skipped, q)) := by
  unfold delete
  have hfirst := q.removes_remove layout (layout.waitingPlace key)
  generalize q.remove layout (layout.waitingPlace key) = first at hfirst
  cases hfirst with
  | failed => exact .inr (.inl rfl)
  | applied u found => exact .inl ⟨_, .inl rfl, by rw [found]; rfl, rfl⟩
  | skipped absent =>
    have hsecond := q.removes_remove layout (.flat key)
    simp only
    generalize q.remove layout (.flat key) = second at hsecond
    cases hsecond with
    | failed => exact .inr (.inl rfl)
    | applied u found => exact .inl ⟨_, .inr rfl, by rw [found]; rfl, rfl⟩
    | skipped absent' => exact .inr (.inr ⟨absent, absent', rfl⟩)

theorem delete_unreached (q : Queue) {layout : Layout} {key : TaskKey}
    (h : layout.reaches (layout.waitingPlace key) = false) :
    q.delete layout key = (.failed, q) := by
  rw [delete, remove, h]
  rfl

/-- Queueing an update does nothing, or puts its record where its key waits. -/
theorem create_cases (q : Queue) (layout : Layout) (writes : Bool) (u : Update) :
    (q.create layout writes u).building = q.building ∧
      ((q.create layout writes u).files = q.files ∨
        writes = true ∧ q.isWaiting layout (.derive u) = false ∧
          (q.create layout writes u).files =
            Function.update q.files (layout.waitingPlace (.derive u)) (some u)) := by
  unfold create
  by_cases hwaiting : q.isWaiting layout (.derive u) = true
  · rw [if_pos hwaiting]
    exact ⟨rfl, .inl rfl⟩
  · rw [if_neg hwaiting]
    rcases q.provision_cases layout (layout.waitingPlace (.derive u)) with
      hnone | ⟨q', hsome, -, hfiles, hbuilding⟩
    · rw [hnone]
      exact ⟨rfl, .inl rfl⟩
    · rw [hsome]
      cases writes with
      | false => exact ⟨hbuilding, .inl hfiles⟩
      | true =>
        refine ⟨hbuilding, .inr ⟨rfl, by simpa using hwaiting, ?_⟩⟩
        simp only [if_true, set, hfiles]

/-- What is found where the layout puts it is claimed. -/
theorem start_found {q : Queue} {layout : Layout} {key : TaskKey} {u : Update}
    (hreach : layout.reaches (layout.waitingPlace key) = true)
    (h : q.files (layout.waitingPlace key) = some u) :
    q.start layout key =
      (.applied, (q.set (layout.waitingPlace key) none).set (.running key) (some u)) := by
  have hsource : q.source layout key = layout.waitingPlace key := by
    rw [source, finds, hreach, h, Option.isSome_some, Bool.and_self, if_pos rfl]
  have hprovision : q.provision layout (.running key) = some q := rfl
  rw [start, hsource, move, hprovision]
  simp only [hreach, Layout.reaches_running hreach, Bool.and_self, if_true, h]

/-! ### Where every place is reached -/

section Reached

variable {q : Queue} {layout : Layout}

theorem finds_of_reaches (hreach : ∀ pl, layout.reaches pl = true) (pl : Place) :
    q.finds layout pl = (q.files pl).isSome := by
  rw [finds, hreach, Bool.true_and]

theorem provision_ne_none {pl : Place} (hreach : layout.reaches pl = true) :
    q.provision layout pl ≠ none := by
  cases pl with
  | running key => simp [provision]
  | flat key => simp [provision]
  | sharded key =>
    rw [provision_sharded]
    split
    · rename_i hlong
      have hunreached : layout.reaches (.sharded key) = false :=
        Layout.reaches_eq_false_of_directory hlong
      rw [hreach] at hunreached
      cases hunreached
    · simp

theorem move_ne_failed {src dst : Place} (hsrc : layout.reaches src = true)
    (hdst : layout.reaches dst = true) : (q.move layout src dst).1 ≠ .failed := by
  unfold move
  cases hprovision : q.provision layout dst with
  | none => exact absurd hprovision (provision_ne_none hdst)
  | some q' =>
    rw [hsrc, hdst]
    simp only [Bool.and_self, if_true]
    cases q'.files src <;> simp

theorem remove_ne_failed {pl : Place} (hreach : layout.reaches pl = true) :
    (q.remove layout pl).1 ≠ .failed := by
  unfold remove
  rw [hreach, if_pos rfl]
  cases q.files pl <;> simp

/-- An update whose record can be written is queued unless its key waits. -/
theorem create_files (hreach : ∀ pl, layout.reaches pl = true) (u : Update) :
    (q.create layout true u).files =
      if q.isWaiting layout (.derive u) then q.files
      else Function.update q.files (layout.waitingPlace (.derive u)) (some u) := by
  unfold create
  split
  · rfl
  · rcases q.provision_cases layout (layout.waitingPlace (.derive u)) with
      hnone | ⟨q', hsome, -, hfiles, -⟩
    · exact absurd hnone (provision_ne_none (hreach _))
    · rw [hsome]
      simp only [if_true, set, hfiles]

theorem files_create_fresh (hreach : ∀ pl, layout.reaches pl = true) (u : Update) :
    (fresh.create layout true u).files =
      Function.update fresh.files (layout.waitingPlace (.derive u)) (some u) := by
  have hwaiting : fresh.isWaiting layout (.derive u) = false := by
    simp [isWaiting, finds, fresh]
  rw [create_files hreach, hwaiting, if_neg (by simp)]

/-- A task that waits where the layout puts it is claimed. -/
theorem start_waiting (hreach : ∀ pl, layout.reaches pl = true) {key : TaskKey} {u : Update}
    (h : q.files (layout.waitingPlace key) = some u) :
    (q.start layout key).1 = .applied ∧
      (q.start layout key).2.files =
        Function.update (Function.update q.files (layout.waitingPlace key) none) (.running key)
          (some u) := by
  rw [start_found (hreach _) h]
  exact ⟨rfl, rfl⟩

/-- What runs is given back where the path of its waiting file is short enough. -/
theorem reset_found {key : TaskKey} {u : Update}
    (hreach : layout.reaches (layout.waitingPlace key) = true)
    (h : q.files (.running key) = some u) :
    (q.reset layout key).1 = .applied ∧
      (q.reset layout key).2.files =
        Function.update (Function.update q.files (.running key) none) (layout.waitingPlace key)
          (some u) := by
  rcases q.provision_cases layout (layout.waitingPlace key) with hnone | ⟨q', hsome, -, hfiles, -⟩
  · exact absurd hnone (provision_ne_none hreach)
  · have hfound : q'.files (.running key) = some u := by rw [hfiles, h]
    rw [reset, move, hsome]
    simp only [hreach, Layout.reaches_running hreach, Bool.and_self, if_true, hfound, set, hfiles]
    exact ⟨trivial, trivial⟩

/-- Nothing is given back where that path is too long. -/
theorem reset_unreached {key : TaskKey}
    (hlong : layout.reaches (layout.waitingPlace key) = false) :
    (q.reset layout key).1 = .failed := by
  rw [reset, move]
  cases q.provision layout (layout.waitingPlace key) with
  | none => rfl
  | some q' =>
    rw [hlong, Bool.and_false]
    rfl

end Reached

/-! ### Acts -/

/-- One transition of one task. -/
inductive Act where
  | create (layout : Layout) (writes : Bool) (u : Update)
  | start (layout : Layout) (key : TaskKey)
  | reset (layout : Layout) (key : TaskKey)
  | finish (layout : Layout) (keep : Bool) (key : TaskKey)
  | delete (layout : Layout) (key : TaskKey)

namespace Act

def layout : Act → Layout
  | create layout _ _ | start layout _ | reset layout _ | finish layout _ _ | delete layout _ =>
    layout

/-- The queue after an act. -/
def apply (q : Queue) : Act → Queue
  | create layout writes u => q.create layout writes u
  | start layout key => (q.start layout key).2
  | reset layout key => (q.reset layout key).2
  | finish layout keep key => (q.finish layout keep key).2
  | delete layout key => (q.delete layout key).2

/-- How an act ends, unless it is to queue an update, which is not told. -/
def outcome? (q : Queue) : Act → Option Outcome
  | create _ _ _ => none
  | start layout key => some (q.start layout key).1
  | reset layout key => some (q.reset layout key).1
  | finish layout keep key => some (q.finish layout keep key).1
  | delete layout key => some (q.delete layout key).1

/-- What an act can do to the records, by how it ends. -/
inductive Does (q : Queue) : Act → Option Outcome → (Place → Option Update) → Prop where
  | nothing (a : Act) {outcome : Option Outcome} (h : outcome ≠ some .applied) :
      Does q a outcome q.files
  | create (layout : Layout) (u : Update) :
      Does q (.create layout true u) none
        (Function.update q.files (layout.waitingPlace (.derive u)) (some u))
  | start (layout : Layout) (key : TaskKey) {u : Update}
      (found : q.files (q.source layout key) = some u) :
      Does q (.start layout key) (some .applied)
        (Function.update (Function.update q.files (q.source layout key) none) (.running key)
          (some u))
  | reset (layout : Layout) (key : TaskKey) {u : Update} (found : q.files (.running key) = some u) :
      Does q (.reset layout key) (some .applied)
        (Function.update (Function.update q.files (.running key) none) (layout.waitingPlace key)
          (some u))
  | finish (layout : Layout) (key : TaskKey) {u : Update}
      (found : q.files (.running key) = some u) :
      Does q (.finish layout false key) (some .applied)
        (Function.update q.files (.running key) none)
  | delete (layout : Layout) (key : TaskKey) {pl : Place}
      (waits : pl = layout.waitingPlace key ∨ pl = .flat key) :
      Does q (.delete layout key) (some .applied) (Function.update q.files pl none)

theorem does_apply (a : Act) (q : Queue) : Does q a (a.outcome? q) (a.apply q).files := by
  have hmove : ∀ {src dst : Place} {r : Outcome × Queue}, q.Moves src dst r →
      (∀ u, q.files src = some u → Does q a (some .applied)
        (Function.update (Function.update q.files src none) dst (some u))) →
      Does q a (some r.1) r.2.files := by
    intro src dst r hr happlied
    cases hr with
    | failed files _ =>
      rw [files]
      exact .nothing a (by simp)
    | skipped _ files _ =>
      rw [files]
      exact .nothing a (by simp)
    | applied u found files _ =>
      rw [files]
      exact happlied u found
  cases a with
  | create layout writes u =>
    show Does q _ none (q.create layout writes u).files
    rcases (q.create_cases layout writes u).2 with hfiles | ⟨rfl, -, hfiles⟩
    · rw [hfiles]
      exact .nothing _ (by simp)
    · rw [hfiles]
      exact .create layout u
  | start layout key => exact hmove (q.moves_move layout _ _) fun u => .start layout key
  | reset layout key => exact hmove (q.moves_move layout _ _) fun u => .reset layout key
  | finish layout keep key =>
    show Does q _ (some (q.finish layout keep key).1) (q.finish layout keep key).2.files
    rcases q.finish_cases layout keep key with ⟨rfl, h⟩ | ⟨rfl, h⟩
    · rw [h]
      exact .nothing _ (by simp)
    · generalize q.finish layout false key = r at h
      cases h with
      | failed => exact .nothing _ (by simp)
      | skipped _ => exact .nothing _ (by simp)
      | applied u found => exact .finish layout key found
  | delete layout key =>
    show Does q _ (some (q.delete layout key).1) (q.delete layout key).2.files
    rcases q.delete_cases layout key with ⟨pl, hpl, -, h⟩ | h | ⟨-, -, h⟩
    · rw [h]
      exact .delete layout key hpl
    · rw [h]
      exact .nothing _ (by simp)
    · rw [h]
      exact .nothing _ (by simp)

theorem building_apply (a : Act) (q : Queue) : (a.apply q).building = q.building := by
  have hmove : ∀ {src dst : Place} {r : Outcome × Queue}, q.Moves src dst r →
      r.2.building = q.building := by
    intro src dst r hr
    cases hr <;> assumption
  cases a with
  | create layout writes u => exact (q.create_cases layout writes u).1
  | start layout key => exact hmove (q.moves_move layout _ _)
  | reset layout key => exact hmove (q.moves_move layout _ _)
  | finish layout keep key =>
    show (q.finish layout keep key).2.building = _
    rcases q.finish_cases layout keep key with ⟨-, h⟩ | ⟨-, h⟩
    · rw [h]
    · generalize q.finish layout keep key = r at h
      cases h <;> rfl
  | delete layout key =>
    show (q.delete layout key).2.building = _
    rcases q.delete_cases layout key with ⟨pl, -, -, h⟩ | h | ⟨-, -, h⟩ <;> rw [h]
    rfl

/-- A record after an act was there before, under the same key, or is that of the update that was
queued. -/
theorem origin (a : Act) {q : Queue} {pl : Place} {u : Update} (h : (a.apply q).files pl = some u) :
    (∃ pl' : Place, pl'.key = pl.key ∧ q.files pl' = some u) ∨
      ∃ layout writes, a = create layout writes u ∧ pl.key = .derive u := by
  have hdoes := a.does_apply q
  generalize a.outcome? q = outcome at hdoes
  generalize (a.apply q).files = files at h hdoes
  have herased : ∀ {src : Place}, Function.update q.files src none pl = some u →
      ∃ pl' : Place, pl'.key = pl.key ∧ q.files pl' = some u := by
    intro src hfile
    rw [Function.update_apply] at hfile
    split at hfile
    · cases hfile
    · exact ⟨pl, rfl, hfile⟩
  have hmoved : ∀ {src dst : Place} {v : Update}, q.files src = some v → src.key = dst.key →
      Function.update (Function.update q.files src none) dst (some v) pl = some u →
      ∃ pl' : Place, pl'.key = pl.key ∧ q.files pl' = some u := by
    intro src dst v found hkey hfile
    rw [Function.update_apply] at hfile
    split at hfile
    · rename_i hpl
      exact ⟨src, by rw [hkey, hpl], by rw [found, hfile]⟩
    · exact herased hfile
  cases hdoes with
  | nothing _ _ => exact .inl ⟨pl, rfl, h⟩
  | create layout v =>
    rw [Function.update_apply] at h
    split at h
    · rename_i hpl
      cases h
      exact .inr ⟨layout, true, rfl, by rw [hpl, layout.key_waitingPlace]⟩
    · exact .inl ⟨pl, rfl, h⟩
  | start layout key found =>
    have hkey : (q.source layout key).key = (Place.running key).key := q.key_source layout key
    exact .inl (hmoved found hkey h)
  | reset layout key found => exact .inl (hmoved found (layout.key_waitingPlace key).symm h)
  | finish layout key found => exact .inl (herased h)
  | delete layout key _ => exact .inl (herased h)

end Act

/-- The queue after several acts. -/
def after (q : Queue) (acts : List Act) : Queue :=
  acts.foldl (fun q a => a.apply q) q

theorem after_cons (q : Queue) (a : Act) (acts : List Act) :
    q.after (a :: acts) = (a.apply q).after acts := rfl

end Queue

end ReplicationQueue
