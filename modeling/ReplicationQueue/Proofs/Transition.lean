import ReplicationQueue.Proofs.Calls
import ReplicationQueue.Proofs.Files
import ReplicationQueue.Task

/-! The transitions of a task on a queue, and that a task carries them out. A transition is refused
where a path of the layout is too long; otherwise it moves or removes what is at one place. -/

namespace ReplicationQueue

-- Paths here are never concrete, so counting their bytes gets nowhere.
attribute [local irreducible] Path.isTooLong

namespace Queue

/-- Whether something is found at the place. -/
def finds (q : Queue) (layout : Layout) (pl : Place) : Bool :=
  layout.reaches pl && (q.files pl).isSome

/-- Whether the key waits where the layout puts it, or where it was put before there were shards. -/
def isWaiting (q : Queue) (layout : Layout) (key : TaskKey) : Bool :=
  q.finds layout (layout.waitingPlace key) || q.finds layout (.flat key)

/-- Where the key waits. -/
def source (q : Queue) (layout : Layout) (key : TaskKey) : Place :=
  if q.finds layout (layout.waitingPlace key) then layout.waitingPlace key
  else if q.finds layout (.flat key) then .flat key
  else layout.waitingPlace key

/-- The queue with the directory of a place, unless the directory's path is too long. -/
def provision (q : Queue) (layout : Layout) (pl : Place) : Option Queue :=
  match pl with
  | .sharded key => if (layout.directoryOf pl).isTooLong then none else some (q.addShard key.shard)
  | _ => some q

/-- Moves what is at one place to another. -/
def move (q : Queue) (layout : Layout) (src dst : Place) : Outcome × Queue :=
  match q.provision layout dst with
  | none => (.failed, q)
  | some q =>
    if layout.reaches src && layout.reaches dst then
      match q.files src with
      | none => (.skipped, q)
      | some u => (.applied, (q.set src none).set dst (some u))
    else (.failed, q)

/-- Removes what is at a place. -/
def remove (q : Queue) (layout : Layout) (pl : Place) : Outcome × Queue :=
  if layout.reaches pl then
    match q.files pl with
    | none => (.skipped, q)
    | some _ => (.applied, q.set pl none)
  else (.failed, q)

def start (q : Queue) (layout : Layout) (key : TaskKey) : Outcome × Queue :=
  q.move layout (q.source layout key) (.running key)

def reset (q : Queue) (layout : Layout) (key : TaskKey) : Outcome × Queue :=
  q.move layout (.running key) (layout.waitingPlace key)

def finish (q : Queue) (layout : Layout) (keep : Bool) (key : TaskKey) : Outcome × Queue :=
  if keep then (.skipped, q) else q.remove layout (.running key)

def delete (q : Queue) (layout : Layout) (key : TaskKey) : Outcome × Queue :=
  match q.remove layout (layout.waitingPlace key) with
  | (.skipped, q) => q.remove layout (.flat key)
  | result => result

/-- The queue after an update was queued; `writes` tells whether its record can be written. -/
def create (q : Queue) (layout : Layout) (writes : Bool) (u : Update) : Queue :=
  if q.isWaiting layout (.derive u) then q
  else
    match q.provision layout (layout.waitingPlace (.derive u)) with
    | none => q
    | some q => if writes then q.set (layout.waitingPlace (.derive u)) (some u) else q

theorem provision_sharded (q : Queue) (layout : Layout) (key : TaskKey) :
    q.provision layout (.sharded key) =
      if (layout.waiting.join key.shard).isTooLong then none else some (q.addShard key.shard) :=
  rfl

theorem provision_cases (q : Queue) (layout : Layout) (pl : Place) :
    q.provision layout pl = none ∨
      ∃ q', q.provision layout pl = some q' ∧ q'.Houses pl ∧ q'.files = q.files ∧
        q'.building = q.building := by
  cases pl with
  | running key => exact .inr ⟨q, rfl, rfl, rfl, rfl⟩
  | flat key => exact .inr ⟨q, rfl, rfl, rfl, rfl⟩
  | sharded key =>
    rw [provision_sharded]
    by_cases hlong : (layout.waiting.join key.shard).isTooLong
    · exact .inl (by rw [if_pos hlong])
    · refine .inr ⟨q.addShard key.shard, by rw [if_neg hlong], ?_, rfl, rfl⟩
      simp [Houses, Place.directory, isDirectory, shards_addShard]

theorem addShard_eq_self {q : Queue} {shard : String} (h : q.shards shard = true) :
    q.addShard shard = q := by
  rw [addShard, ← h, Function.update_eq_self]

end Queue

/-- A run ended with an answer, and the disk shows a queue. -/
structure Site.Agrees {α : Type} (site : Site) (r : α × System) (g : α × Queue) : Prop where
  answer : r.1 = g.1
  shows : site.Shows g.2 r.2

namespace Layout

theorem parent?_pathOf (layout : Layout) (pl : Place) :
    (layout.pathOf pl).parent? = some (layout.directoryOf pl) := by
  cases pl with
  | running key =>
    exact Path.parent?_join_join _ (IsState.isPlain (.inr (.inl rfl))) key.isPlain_text
  | flat key =>
    exact Path.parent?_join_join _ (IsState.isPlain (.inr (.inr rfl))) key.isPlain_text
  | sharded key => exact Path.parent?_join_join _ key.isPlain_shard key.isPlain_text

end Layout

namespace Task

variable (t : Task)

theorem waitingPath_eq : t.waitingPath = t.layout.pathOf (t.layout.waitingPlace t.key) :=
  (t.layout.pathOf_waitingPlace t.key).symm

theorem flatWaitingPath_eq : t.flatWaitingPath = t.layout.pathOf (.flat t.key) := rfl

theorem runningPath_eq : t.runningPath = t.layout.pathOf (.running t.key) := rfl

end Task

namespace Site.Shows

variable {site : Site} {layout : Layout} {q : Queue} {s : System}

open Plan

/-! ### Directories -/

/-- A directory that is there is left as it is. -/
theorem ensureDirectory_there {p : Path} {l : Location} {n : String}
    (hleads : s.disk.Leads s.cwd p l) (hn : IsPlain n) (hopen : (s.disk.get? l).any Entry.isOpen)
    (hthere : s.disk.get? (l ++ [n]) = some .directory) :
    (Files.ensureDirectory (p.join n)).run s =
      (if (p.join n).isTooLong then .error (.provision (p.join n) .nameTooLong) else .ok (),
        s) := by
  have hmake := hleads.makeDirectory_join hn hopen
  have hdir := hleads.isDirectory_join hn (by simp [hthere])
  rw [hthere] at hmake hdir
  by_cases hlong : (p.join n).isTooLong
  · rw [if_pos hlong] at hmake ⊢
    rw [Files.ensureDirectory_refused (Path.text_join_ne_empty p hn) hmake (by simp), hdir]
    simp [hlong]
  · rw [if_neg hlong] at hmake ⊢
    rw [Files.ensureDirectory_refused (Path.text_join_ne_empty p hn) hmake (by simp), hdir]
    simp [hlong, Entry.isDirectory]

theorem ensureDirectory_state (h : site.Shows q s) (hs : site.Serves layout) {state : String}
    (hstate : IsState state) :
    (Files.ensureDirectory (layout.refUpdates.join state)).run s = (.ok (), s) := by
  have hroot := h.get?_root
  rw [ensureDirectory_there (h.leads_refUpdates hs.opens) hstate.isPlain (by rw [hroot]; rfl)
    (h.get?_state hstate), hs.state_fits hstate]
  rfl

theorem makeDirectory_shard (h : site.Shows q s) (ho : site.Opens layout) (key : TaskKey) :
    s.disk.makeDirectory s.cwd (layout.waiting.join key.shard) =
      if (layout.waiting.join key.shard).isTooLong then .error .nameTooLong
      else if q.shards key.shard then .error .alreadyExists
      else .ok (s.disk.put (site.root ++ ["waiting", key.shard]) .directory) := by
  have hleads : s.disk.Leads s.cwd layout.waiting (site.root ++ ["waiting"]) :=
    h.leads_state ho (.inr (.inr rfl))
  have hopen : (s.disk.get? (site.root ++ ["waiting"])).any Entry.isOpen := by
    rw [h.get?_state (.inr (.inr rfl))]
    rfl
  have hlocation : site.root ++ ["waiting"] ++ [key.shard] =
      site.root ++ ["waiting", key.shard] := by simp
  rw [hleads.makeDirectory_join key.isPlain_shard hopen, hlocation, h.inside, q.get?_shard]
  cases q.shards key.shard <;> rfl

theorem ensureParent_pathOf (h : site.Shows q s) (hs : site.Serves layout) (pl : Place) :
    match q.provision layout pl with
    | none => ∃ error, (Files.ensureParent (layout.pathOf pl)).run s = (.error error, s)
    | some q' => ∃ disk, (Files.ensureParent (layout.pathOf pl)).run s = (.ok (), { s with disk }) ∧
        site.Shows q' { s with disk } := by
  rw [Files.ensureParent_eq (layout.parent?_pathOf pl)]
  cases pl with
  | running key => exact ⟨s.disk, h.ensureDirectory_state hs (.inr (.inl rfl)), h⟩
  | flat key => exact ⟨s.disk, h.ensureDirectory_state hs (.inr (.inr rfl)), h⟩
  | sharded key =>
    have hleads : s.disk.Leads s.cwd layout.waiting (site.root ++ ["waiting"]) :=
      h.leads_state hs.opens (.inr (.inr rfl))
    have hopen : (s.disk.get? (site.root ++ ["waiting"])).any Entry.isOpen := by
      rw [h.get?_state (.inr (.inr rfl))]
      rfl
    have hmake := h.makeDirectory_shard hs.opens key
    have hne := Path.text_join_ne_empty layout.waiting key.isPlain_shard
    rw [Layout.directoryOf, q.provision_sharded]
    by_cases hlong : (layout.waiting.join key.shard).isTooLong
    · rw [if_pos hlong]
      rw [if_pos hlong] at hmake
      have hdir := hleads.isDirectory_join key.isPlain_shard
        (by rw [List.append_assoc]; exact h.not_link _)
      rw [Files.ensureDirectory_refused hne hmake (by simp), hdir]
      exact ⟨_, by rw [hlong]; rfl⟩
    · rw [if_neg hlong]
      cases hshard : q.shards key.shard with
      | true =>
        have hthere : s.disk.get? (site.root ++ ["waiting"] ++ [key.shard]) =
            some .directory := by
          rw [List.append_assoc, h.inside]
          show q.get? ["waiting", key.shard] = _
          rw [q.get?_shard, hshard]
          rfl
        rw [ensureDirectory_there hleads key.isPlain_shard hopen hthere, if_neg hlong,
          q.addShard_eq_self hshard]
        exact ⟨s.disk, rfl, h⟩
      | false =>
        rw [if_neg hlong, hshard] at hmake
        refine ⟨_, Files.ensureDirectory_made hne hmake, h.makeShard key⟩

/-! ### Tasks -/

variable {t : Task}

theorem exists?_waitingPath (h : site.Shows q s) (hs : site.Serves t.layout) :
    s.disk.exists? s.cwd t.waitingPath = q.finds t.layout (t.layout.waitingPlace t.key) := by
  rw [t.waitingPath_eq, h.exists?_pathOf hs.opens]
  rfl

theorem exists?_flatWaitingPath (h : site.Shows q s) (hs : site.Serves t.layout) :
    s.disk.exists? s.cwd t.flatWaitingPath = q.finds t.layout (.flat t.key) := by
  rw [t.flatWaitingPath_eq, h.exists?_pathOf hs.opens]
  rfl

theorem run_isWaiting (h : site.Shows q s) (hs : site.Serves t.layout) :
    t.isWaiting.run s = (q.isWaiting t.layout t.key, s) := by
  rw [Task.isWaiting, run_bind, run_exists?, h.exists?_waitingPath hs, Queue.isWaiting]
  cases hfinds : q.finds t.layout (t.layout.waitingPlace t.key) with
  | true => rfl
  | false =>
    rw [Bool.false_or]
    cases hlayout : t.layout.waitingLayout with
    | flat =>
      rw [t.layout.waitingPlace_eq _ hlayout, WaitingLayout.place] at hfinds
      rw [hfinds]
      rfl
    | sharded =>
      simp only [Bool.false_eq_true, ↓reduceIte, run_exists?, h.exists?_flatWaitingPath hs]

theorem run_currentWaitingPath (h : site.Shows q s) (hs : site.Serves t.layout) :
    t.currentWaitingPath.run s = (t.layout.pathOf (q.source t.layout t.key), s) := by
  unfold Task.currentWaitingPath Queue.source
  cases hlayout : t.layout.waitingLayout with
  | flat =>
    have hwaiting : t.layout.waitingPlace t.key = .flat t.key := t.layout.waitingPlace_eq _ hlayout
    simp only [run_pure, hwaiting, ite_self]
    rw [t.waitingPath_eq, hwaiting]
  | sharded =>
    simp only [run_bind, run_exists?, h.exists?_waitingPath hs]
    split
    · rw [run_pure, t.waitingPath_eq]
    · simp only [run_bind, run_exists?, h.exists?_flatWaitingPath hs]
      split
      · rfl
      · rw [run_pure, t.waitingPath_eq]

theorem run_move (h : site.Shows q s) (hs : site.Serves t.layout) (src dst : Place)
    (hne : src ≠ dst) :
    site.Agrees ((t.move (t.layout.pathOf src) (t.layout.pathOf dst)).run s)
      (q.move t.layout src dst) := by
  have hparent := h.ensureParent_pathOf hs dst
  rw [Task.move, run_bind, Queue.move]
  rcases q.provision_cases t.layout dst with hnone | ⟨q', hsome, hhouses, hfiles, -⟩
  · rw [hnone] at hparent ⊢
    obtain ⟨error, herror⟩ := hparent
    rw [herror]
    exact ⟨rfl, h.congr rfl rfl⟩
  · rw [hsome] at hparent ⊢
    obtain ⟨disk, hrun, h'⟩ := hparent
    rw [hrun]
    simp only [run_bind, run_note]
    have hnoted : site.Shows q' { s with
        disk, log := s.log ++ [.moving (t.layout.pathOf src) (t.layout.pathOf dst) t.subject] } :=
      h'.congr rfl rfl
    have hrename := hnoted.rename_pathOf hs.opens hne hhouses
    cases hreach : t.layout.reaches src && t.layout.reaches dst with
    | false =>
      rw [hreach] at hrename
      rw [Files.move_refused hrename]
      exact ⟨rfl, h'.congr rfl rfl⟩
    | true =>
      rw [hreach, if_pos rfl] at hrename
      cases hfile : q'.files src with
      | none =>
        rw [hfile] at hrename
        rw [Files.move_refused hrename]
        exact ⟨rfl, h'.congr rfl rfl⟩
      | some u =>
        rw [hfile] at hrename
        rw [Files.move_moved hrename]
        exact ⟨rfl, hnoted.move hhouses hfile⟩

theorem run_remove (h : site.Shows q s) (hs : site.Serves t.layout) (pl : Place) :
    site.Agrees ((t.remove (t.layout.pathOf pl)).run s) (q.remove t.layout pl) := by
  have hremove := h.remove_pathOf hs.opens pl
  rw [Task.remove, run_bind, Queue.remove]
  cases hreach : t.layout.reaches pl with
  | false =>
    rw [hreach] at hremove
    rw [Files.delete_refused hremove (by simp)]
    exact ⟨rfl, h.congr rfl rfl⟩
  | true =>
    rw [hreach, if_pos rfl] at hremove
    cases hfile : q.files pl with
    | none =>
      rw [hfile] at hremove
      rw [Files.delete_absent hremove]
      exact ⟨rfl, h.congr rfl rfl⟩
    | some u =>
      rw [hfile] at hremove
      rw [Files.delete_removed hremove]
      exact ⟨rfl, h.erase pl⟩

theorem source_ne_running (q : Queue) (layout : Layout) (key : TaskKey) :
    q.source layout key ≠ .running key := by
  have hwaiting := layout.waitingPlace_ne_running key key
  unfold Queue.source
  split
  · exact hwaiting
  · split
    · simp
    · exact hwaiting

theorem run_start (h : site.Shows q s) (hs : site.Serves t.layout) :
    site.Agrees (t.start.run s) (q.start t.layout t.key) := by
  rw [Task.start, run_bind, h.run_currentWaitingPath hs, Queue.start, t.runningPath_eq]
  dsimp only
  exact h.run_move hs _ _ (source_ne_running q t.layout t.key)

theorem run_reset (h : site.Shows q s) (hs : site.Serves t.layout) :
    site.Agrees (t.reset.run s) (q.reset t.layout t.key) := by
  rw [Task.reset, Queue.reset, t.waitingPath_eq, t.runningPath_eq]
  exact h.run_move hs _ _ (t.layout.waitingPlace_ne_running t.key t.key).symm

theorem run_finish (h : site.Shows q s) (hs : site.Serves t.layout) :
    site.Agrees (t.finish.run s) (q.finish t.layout t.keepFinished t.key) := by
  rw [Task.finish, Queue.finish]
  by_cases hkeep : t.keepFinished
  · rw [if_pos hkeep, if_pos hkeep, run_bind, run_note, run_pure]
    exact ⟨rfl, h.congr rfl rfl⟩
  · have hnoted : site.Shows q { s with log := s.log ++ [.deleting t.runningPath t.subject] } :=
      h.congr rfl rfl
    rw [if_neg hkeep, if_neg hkeep, run_bind, run_note]
    exact hnoted.run_remove hs (.running t.key)

theorem run_delete (h : site.Shows q s) (hs : site.Serves t.layout) :
    site.Agrees (t.delete.run s) (q.delete t.layout t.key) := by
  have hfirst := h.run_remove hs (t.layout.waitingPlace t.key)
  rw [Task.delete, run_bind, t.waitingPath_eq, Queue.delete]
  generalize hg : q.remove t.layout (t.layout.waitingPlace t.key) = g at hfirst
  generalize (t.remove (t.layout.pathOf (t.layout.waitingPlace t.key))).run s = r at hfirst
  obtain ⟨outcome, q'⟩ := g
  obtain ⟨answer, s'⟩ := r
  obtain ⟨hanswer, hshows⟩ := hfirst
  change answer = outcome at hanswer
  subst hanswer
  cases answer with
  | applied => cases t.layout.waitingLayout <;> exact ⟨rfl, hshows⟩
  | failed => cases t.layout.waitingLayout <;> exact ⟨rfl, hshows⟩
  | skipped =>
    cases hlayout : t.layout.waitingLayout with
    | sharded => exact hshows.run_remove hs (.flat t.key)
    | flat =>
      -- There is nothing at the flat place either: it is the one that was looked at.
      have hplace : t.layout.waitingPlace t.key = .flat t.key := t.layout.waitingPlace_eq _ hlayout
      rw [hplace] at hg
      have hagain : q'.remove t.layout (.flat t.key) = (.skipped, q') := by
        have hsame := hg
        unfold Queue.remove at hg
        split at hg
        · split at hg
          · cases hg
            exact hsame
          · cases hg
        · cases hg
      simp only
      rw [hagain]
      exact ⟨rfl, hshows⟩

end Site.Shows

end ReplicationQueue
