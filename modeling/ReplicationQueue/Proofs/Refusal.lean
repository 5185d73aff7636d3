import ReplicationQueue.Proofs.Deed
import ReplicationQueue.Proofs.Stop
import ReplicationQueue.Proofs.Telling

/-! Systems that refuse writes. A disk that is full or fails takes a part of the bytes, or does not
keep what it took; all else is answered as ever. Only queueing an update writes, so nothing else is
touched by a refusal, and queueing leaves no file behind that it could not fill. -/

namespace ReplicationQueue

/-- Whether a call adds bytes to a file or makes them stay. -/
def Call.isWrite : Call → Bool
  | .append _ _ | .sync _ | .overwrite _ _ => true
  | _ => false

/-- The answers to a call that is refused, and what is left. -/
inductive System.Refuses (s : System) : (c : Call) → c.Answer → System → Prop where
  | append (file : Location) (bytes : Bytes) (torn : Nat) (cause : Cause) :
      s.Refuses (.append file bytes) (.error cause) (s.cut torn (.append file bytes))
  | sync (file : Location) (cause : Cause) : s.Refuses (.sync file) (.error cause) s
  | overwrite (path : Path) (bytes : Bytes) (torn : Nat) (cause : Cause) :
      s.Refuses (.overwrite path bytes) (.error cause)
        (s.answer (.overwrite path (bytes.take torn))).2

theorem System.Refuses.isWrite {s left : System} {c : Call} {answer : c.Answer}
    (h : s.Refuses c answer left) : c.isWrite = true := by
  cases h <;> rfl

namespace Plan

/-- The plan may end with this value and leave this system: its calls are answered one after the
other, but each write may be refused. -/
inductive MayRun {α : Type} : Plan α → System → α → System → Prop where
  | done (value : α) (s : System) : MayRun (.done value) s value s
  | answered {c : Call} {next : c.Answer → Plan α} {s s' : System} {value : α}
      (h : MayRun (next (s.answer c).1) (s.answer c).2 value s') : MayRun (.call c next) s value s'
  | refused {c : Call} {next : c.Answer → Plan α} {s left s' : System} {answer : c.Answer}
      {value : α} (hrefuses : s.Refuses c answer left) (h : MayRun (next answer) left value s') :
      MayRun (.call c next) s value s'

/-- The plan makes no writes. -/
def Steady {α : Type} : Plan α → Prop
  | .done _ => True
  | .call c next => c.isWrite = false ∧ ∀ answer, (next answer).Steady

variable {α β : Type} {a : Plan α} {f : α → Plan β} {s s' : System} {value : α} {result : β}

theorem mayRun_run (a : Plan α) (s : System) : a.MayRun s (a.run s).1 (a.run s).2 := by
  induction a generalizing s with
  | done value => exact .done value s
  | call c next ih => exact .answered (ih _ _)

theorem mayRun_bind : (a >>= f).MayRun s result s' ↔
    ∃ value left, a.MayRun s value left ∧ (f value).MayRun left result s' := by
  show (Plan.bind a f).MayRun s result s' ↔ _
  constructor
  · intro h
    induction a generalizing s with
    | done value => exact ⟨value, s, .done value s, h⟩
    | call c next ih =>
      cases h with
      | answered h =>
        obtain ⟨value, left, ha, hf⟩ := ih _ h
        exact ⟨value, left, .answered ha, hf⟩
      | refused hrefuses h =>
        obtain ⟨value, left, ha, hf⟩ := ih _ h
        exact ⟨value, left, .refused hrefuses ha, hf⟩
  · rintro ⟨value, left, ha, hf⟩
    induction ha with
    | done => exact hf
    | answered _ ih => exact .answered (ih hf)
    | refused hrefuses _ ih => exact .refused hrefuses (ih hf)

/-- Where nothing is written there is nothing to refuse. -/
theorem Steady.mayRun_iff (ha : a.Steady) : a.MayRun s value s' ↔ a.run s = (value, s') := by
  constructor
  · intro h
    induction h with
    | done => rfl
    | answered _ ih => exact ih (ha.2 _)
    | refused hrefuses _ _ =>
      have hwrite := ha.1
      rw [hrefuses.isWrite] at hwrite
      cases hwrite
  · intro h
    have hmay := mayRun_run a s
    rwa [h] at hmay

theorem Steady.bind (ha : a.Steady) (hf : ∀ value, (f value).Steady) : (a >>= f).Steady := by
  show (Plan.bind a f).Steady
  induction a with
  | done value => exact hf value
  | call c next ih => exact ⟨ha.1, fun answer => ih answer (ha.2 answer)⟩

theorem Steady.mayRun_bind (ha : a.Steady) : (a >>= f).MayRun s result s' ↔
    (f (a.run s).1).MayRun (a.run s).2 result s' := by
  rw [Plan.mayRun_bind]
  constructor
  · rintro ⟨value, left, h, hf⟩
    rw [ha.mayRun_iff] at h
    rwa [h]
  · exact fun hf => ⟨_, _, mayRun_run a s, hf⟩

theorem steady_perform {c : Call} (hc : c.isWrite = false) : (perform c).Steady :=
  ⟨hc, fun _ => trivial⟩

theorem steady_pure (value : α) : (pure value : Plan α).Steady := trivial

theorem steady_remove (path : Path) : (Plan.remove path).Steady :=
  steady_perform rfl

end Plan

-- Below, plans are compared as they are written, and not by all the calls they come to.
attribute [irreducible] Plan.Steady

/-! ### Operations on files -/

namespace Files

open Plan

theorem steady_ensureWithin (depth : Nat) (path : Path) : (ensureWithin depth path).Steady := by
  induction depth generalizing path with
  | zero => exact steady_pure _
  | succ depth ih =>
    have retried : ∀ cause : Cause, (do
        if ← Plan.isDirectory path then return .ok ()
        else return .error cause : Plan (Except Cause Unit)).Steady := fun cause =>
      (steady_perform rfl).bind fun there => by cases there <;> exact steady_pure _
    rw [ensureWithin]
    split
    · exact steady_pure _
    · refine (steady_perform rfl).bind fun answer => ?_
      split
      · exact steady_pure _
      · split
        · exact steady_pure _
        · refine (ih _).bind fun made => ?_
          split
          · exact steady_pure _
          · refine (steady_perform rfl).bind fun again => ?_
            split
            · exact steady_pure _
            · exact retried _
      · exact retried _

theorem steady_ensureDirectory (path : Path) : (ensureDirectory path).Steady :=
  (steady_ensureWithin _ _).bind fun made => by cases made <;> exact steady_pure _

theorem steady_ensureParent (path : Path) : (ensureParent path).Steady := by
  unfold ensureParent
  split
  · exact steady_ensureDirectory _
  · exact steady_pure _

theorem steady_move (source target : Path) : (move source target).Steady :=
  (steady_perform rfl).bind fun moved => by cases moved <;> exact steady_pure _

theorem steady_delete (path : Path) : (delete path).Steady := by
  refine (steady_perform rfl).bind fun removed => ?_
  split <;> exact steady_pure _

theorem steady_absolute (path : Path) : (absolute path).Steady := by
  unfold absolute
  split
  · exact steady_pure _
  · exact (steady_perform rfl).bind fun directory => by cases directory <;> exact steady_pure _

theorem steady_createNamed (directory : Path) (front : String) (draws : Nat) :
    (createNamed directory front draws).Steady := by
  induction draws with
  | zero => exact steady_pure _
  | succ draws ih =>
    refine (steady_perform rfl).bind fun part => (steady_perform rfl).bind fun made => ?_
    split
    · exact steady_pure _
    · exact ih
    · exact steady_pure _

theorem steady_readAll (paths : List Path) : (readAll paths).Steady := by
  induction paths with
  | nil => exact steady_pure _
  | cons path rest ih =>
    refine (steady_perform rfl).bind fun answer => ?_
    split
    · exact ih.bind fun _ => steady_pure _
    · exact (steady_perform rfl).bind fun _ => ih
    · exact (steady_perform rfl).bind fun _ => ih

theorem steady_noteClosed (closed : List (Path × Cause)) : (noteClosed closed).Steady := by
  induction closed with
  | nil => exact steady_pure _
  | cons c rest ih => exact (steady_perform rfl).bind fun _ => ih

theorem steady_list (directory : Path) : (list directory).Steady :=
  (steady_perform rfl).bind fun found =>
    (steady_noteClosed found.closed).bind fun _ => steady_readAll found.files

/-- A file is filled, or a part of the bytes is in it and the caller is told. -/
theorem fill_cases {file : Location} {bytes : Bytes} {s s' : System} {r : Except Cause Unit}
    (h : (fill file bytes).MayRun s r s') :
    r = .ok () ∧ s' = { s with disk := s.disk.append file bytes } ∨
      ∃ cause torn, r = .error cause ∧
        s' = { s with disk := s.disk.append file (bytes.take torn) } := by
  obtain ⟨written, left, happend, hrest⟩ := mayRun_bind.1 h
  cases happend with
  | answered happend =>
    cases happend
    cases hrest with
    | answered hsync =>
      cases hsync
      exact .inl ⟨rfl, rfl⟩
    | refused hrefuses hsync =>
      cases hrefuses
      cases hsync
      exact .inr ⟨_, bytes.length, rfl, by rw [List.take_length]; rfl⟩
  | refused hrefuses happend =>
    cases hrefuses
    cases happend
    cases hrest
    exact .inr ⟨_, _, rfl, rfl⟩

end Files

/-! ### Tasks and stores -/

namespace Task

open Plan

variable (t : Task)

theorem steady_isWaiting : t.isWaiting.Steady := by
  refine (steady_perform rfl).bind fun there => ?_
  split
  · exact steady_pure _
  · split
    · exact steady_pure _
    · exact steady_perform rfl

theorem steady_publishFile (temporary : Path) : (t.publishFile temporary).Steady := by
  refine (steady_perform rfl).bind fun _ => (steady_perform rfl).bind fun _ =>
    (Files.steady_move _ _).bind fun moved => ?_
  split
  · exact steady_pure _
  · refine (Files.steady_delete _).bind fun deleted => ?_
    split
    · exact steady_pure _
    · exact (steady_perform rfl).bind fun _ => steady_pure _

theorem steady_move (source target : Path) : (t.move source target).Steady := by
  refine (Files.steady_ensureParent _).bind fun made => ?_
  split
  · exact (steady_perform rfl).bind fun _ => steady_pure _
  · refine (steady_perform rfl).bind fun _ => (Files.steady_move _ _).bind fun moved => ?_
    split
    · exact steady_pure _
    · split <;> exact (steady_perform rfl).bind fun _ => steady_pure _

theorem steady_remove (path : Path) : (t.remove path).Steady := by
  refine (Files.steady_delete _).bind fun deleted => ?_
  split
  · exact steady_pure _
  · exact (steady_perform rfl).bind fun _ => steady_pure _
  · exact (steady_perform rfl).bind fun _ => steady_pure _

theorem steady_currentWaitingPath : t.currentWaitingPath.Steady := by
  unfold currentWaitingPath
  split
  · exact steady_pure _
  · refine (steady_perform rfl).bind fun first => ?_
    split
    · exact steady_pure _
    · refine (steady_perform rfl).bind fun second => ?_
      split <;> exact steady_pure _

theorem steady_start : t.start.Steady := by
  rw [start]
  exact t.steady_currentWaitingPath.bind fun waiting => t.steady_move waiting t.runningPath

theorem steady_reset : t.reset.Steady :=
  t.steady_move t.runningPath t.waitingPath

theorem steady_finish : t.finish.Steady := by
  unfold finish
  split
  · exact (Plan.steady_perform rfl).bind fun _ => steady_pure _
  · exact (Plan.steady_perform rfl).bind fun _ => t.steady_remove t.runningPath

theorem steady_delete : t.delete.Steady := by
  refine (t.steady_remove t.waitingPath).bind fun outcome => ?_
  split
  · exact t.steady_remove t.flatWaitingPath
  · exact steady_pure _

/-- No transition writes. -/
theorem steady_perform (transition : Transition) : (transition.perform t).Steady := by
  cases transition with
  | start => exact t.steady_start
  | reset => exact t.steady_reset
  | finish => exact t.steady_finish
  | delete => exact t.steady_delete

end Task

namespace Store

open Plan

variable (store : Store)

theorem steady_each (transition : Transition) (us : List Update) (summary : Summary) :
    (store.each transition.perform us summary).Steady := by
  induction us generalizing summary with
  | nil => exact steady_pure _
  | cons u rest ih => exact (Task.steady_perform _ transition).bind fun outcome => ih _

theorem steady_resetFiles (paths : List Path) (summary : Summary) :
    (store.resetFiles paths summary).Steady := by
  induction paths generalizing summary with
  | nil => exact steady_pure _
  | cons path rest ih =>
    unfold resetFiles
    split
    · exact (steady_perform rfl).bind fun _ => ih _
    · exact (Task.steady_reset _).bind fun outcome => ih _

theorem steady_resetAll : store.resetAll.Steady := by
  refine (Files.steady_list _).bind fun files => (store.steady_resetFiles _ _).bind fun summary => ?_
  split <;> exact (steady_perform rfl).bind fun _ => steady_pure _

theorem steady_anyWaiting (us : List Update) : (store.anyWaiting us).Steady := by
  induction us with
  | nil => exact steady_pure _
  | cons u rest ih =>
    refine (Task.steady_isWaiting _).bind fun waits => ?_
    split
    · exact steady_pure _
    · exact ih

theorem steady_readRecords (files : List (Path × Bytes)) : (store.readRecords files).Steady := by
  induction files with
  | nil => exact steady_pure _
  | cons file rest ih =>
    unfold readRecords
    split
    · exact ih.bind fun _ => steady_pure _
    · exact (steady_perform rfl).bind fun _ => ih

theorem steady_listBelow (directory : Path) : (store.listBelow directory).Steady := by
  refine (Files.steady_ensureDirectory _).bind fun made => ?_
  split
  · exact (steady_perform rfl).bind fun _ => steady_pure _
  · exact (Files.steady_list _).bind fun files => store.steady_readRecords files

end Store

namespace Request

variable {store : Store} {request : Request}

theorem steady_plan (h : ∀ u, request ≠ .create u) : (request.plan store).Steady := by
  cases request with
  | create u => exact absurd rfl (h u)
  | start p => exact (store.steady_each .start _ _).bind fun _ => Plan.steady_pure _
  | reset p => exact (store.steady_each .reset _ _).bind fun _ => Plan.steady_pure _
  | finish p => exact (store.steady_each .finish _ _).bind fun _ => Plan.steady_pure _
  | delete u => exact (Task.steady_delete _).bind fun _ => Plan.steady_pure _
  | resetAll => exact store.steady_resetAll.bind fun _ => Plan.steady_pure _
  | isWaiting p => exact (store.steady_anyWaiting _).bind fun _ => Plan.steady_pure _
  | keepFinished keep => exact Plan.steady_pure _
  | list => exact (store.steady_listBelow _).bind fun _ => Plan.steady_pure _
  | listWaiting => exact (store.steady_listBelow _).bind fun _ => Plan.steady_pure _
  | listRunning => exact (store.steady_listBelow _).bind fun _ => Plan.steady_pure _
  | listBuilding => exact (store.steady_listBelow _).bind fun _ => Plan.steady_pure _

/-- Only queueing an update writes, so no other request depends on whether writes are refused. -/
theorem mayRun_plan_iff (h : ∀ u, request ≠ .create u) {s s' : System} {reply : Reply} :
    (request.plan store).MayRun s reply s' ↔ (request.plan store).run s = (reply, s') :=
  (steady_plan h).mayRun_iff

end Request

end ReplicationQueue
