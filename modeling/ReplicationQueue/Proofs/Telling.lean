import ReplicationQueue.Store

/-! What a run tells. The operations on files are silent, and each transition of a task tells of its
failure, if it fails, with one event that is an error; whatever else it tells is for debugging. This
holds on every disk. -/

namespace ReplicationQueue

/-! ### The events that a run adds -/

/-- The events that a call notes. -/
def Call.noted : Call → List Event
  | .note event => [event]
  | _ => []

/-- An answer depends on nothing that was noted, and what is noted is only added. -/
theorem System.answer_log (s : System) (log : List Event) (c : Call) :
    ({ s with log } : System).answer c =
      ((s.answer c).1, { (s.answer c).2 with log := log ++ c.noted }) := by
  have change : ∀ r, ({ s with log } : System).change r =
      ((s.change r).1, { (s.change r).2 with log }) := by
    rintro (cause | disk) <;> rfl
  cases c
  case note => rfl
  all_goals simp only [Call.noted, List.append_nil]
  case makeDirectory => exact change _
  case rename => exact change _
  case remove => exact change _
  case overwrite => exact change _
  case createFile =>
    simp only [answer]
    split <;> rfl
  all_goals rfl

theorem System.log_answer (s : System) (c : Call) : (s.answer c).2.log = s.log ++ c.noted :=
  congrArg (·.2.log) (s.answer_log s.log c)

namespace Plan

variable {α β : Type} {plan : Plan α} {f : α → Plan β} {R R' : α → List Event → Prop}
  {Q : β → List Event → Prop}

/-- Wherever the plan runs, its value and the events that it adds are as `R` says. -/
def Tells (plan : Plan α) (R : α → List Event → Prop) : Prop :=
  ∀ s, ∃ events, (plan.run s).2.log = s.log ++ events ∧ R (plan.run s).1 events

/-- The plan adds no events. -/
def IsSilent (plan : Plan α) : Prop :=
  plan.Tells fun _ events => events = []

theorem Tells.mono (h : plan.Tells R) (hr : ∀ a events, R a events → R' a events) :
    plan.Tells R' := by
  intro s
  obtain ⟨events, hlog, hevents⟩ := h s
  exact ⟨events, hlog, hr _ _ hevents⟩

theorem tells_pure {a : α} (h : R a []) : (pure a : Plan α).Tells R :=
  fun _ => ⟨[], (List.append_nil _).symm, h⟩

theorem Tells.bind (h : plan.Tells R)
    (hf : ∀ a events, R a events → (f a).Tells fun b more => Q b (events ++ more)) :
    (plan >>= f).Tells Q := by
  intro s
  obtain ⟨events, hlog, hr⟩ := h s
  obtain ⟨more, hmore, hq⟩ := hf _ _ hr (plan.run s).2
  exact ⟨events ++ more, by rw [run_bind, hmore, hlog, List.append_assoc], by rwa [run_bind]⟩

theorem IsSilent.bind (h : plan.IsSilent) (hf : ∀ a, (f a).Tells Q) : (plan >>= f).Tells Q :=
  Tells.bind h fun a events hnil => by
    subst hnil
    exact hf a

theorem isSilent_pure (a : α) : (pure a : Plan α).IsSilent := tells_pure rfl

theorem isSilent_perform {c : Call} (h : c.noted = []) : (perform c).IsSilent := fun s =>
  ⟨[], by rw [run_perform, s.log_answer, h], rfl⟩

theorem tells_note {event : Event} {R : Unit → List Event → Prop} (h : R () [event]) :
    (note event).Tells R :=
  fun _ => ⟨[event], rfl, h⟩

theorem tells_note_bind {event : Event} {f : Unit → Plan β}
    (hf : (f ()).Tells fun b more => Q b (event :: more)) : (note event >>= f).Tells Q :=
  Tells.bind (R := fun _ events => events = [event]) (tells_note rfl) fun _ events heq => by
    subst heq
    exact hf

end Plan

/-! ### Operations on files -/

namespace Files

open Plan

theorem isSilent_ensureWithin (depth : Nat) (path : Path) : (ensureWithin depth path).IsSilent := by
  induction depth generalizing path with
  | zero => exact isSilent_pure _
  | succ depth ih =>
    have standing : ∀ cause : Cause, (do
        if ← isDirectory path then return .ok () else return .error cause :
          Plan (Except Cause Unit)).IsSilent := fun cause =>
      (isSilent_perform rfl).bind fun there => by split <;> exact isSilent_pure _
    rw [ensureWithin]
    split
    · exact isSilent_pure _
    · refine (isSilent_perform rfl).bind fun made => ?_
      split
      · exact isSilent_pure _
      · split
        · exact isSilent_pure _
        · refine (ih _).bind fun ensured => ?_
          split
          · exact isSilent_pure _
          · refine (isSilent_perform rfl).bind fun again => ?_
            split
            · exact isSilent_pure _
            · exact standing _
      · exact standing _

theorem isSilent_ensureDirectory (path : Path) : (ensureDirectory path).IsSilent :=
  (isSilent_ensureWithin _ _).bind fun ensured => by split <;> exact isSilent_pure _

theorem isSilent_ensureParent (path : Path) : (ensureParent path).IsSilent := by
  unfold ensureParent
  split
  · exact isSilent_ensureDirectory _
  · exact isSilent_pure _

theorem isSilent_move (source target : Path) : (move source target).IsSilent :=
  (isSilent_perform rfl).bind fun moved => by split <;> exact isSilent_pure _

theorem isSilent_delete (path : Path) : (delete path).IsSilent :=
  (isSilent_perform rfl).bind fun removed => by split <;> exact isSilent_pure _

end Files

/-! ### Transitions -/

/-- How many failures an outcome is. -/
def Outcome.failures : Outcome → Nat
  | .failed => 1
  | _ => 0

theorem Summary.failed_record (summary : Summary) (outcome : Outcome) :
    (summary.record outcome).failed = summary.failed + outcome.failures := by
  cases outcome <;> rfl

/-- Events of which so many are of one level and the others are for debugging. -/
structure Tally (loud : Level) (n : Nat) (events : List Event) : Prop where
  count : events.countP (·.level = loud) = n
  others : ∀ event ∈ events, event.level = loud ∨ event.level = .debug

namespace Tally

variable {loud : Level} {m n : Nat} {event : Event} {events more : List Event}

theorem nil : Tally loud 0 [] := ⟨rfl, by simp⟩

theorem one (h : event.level = loud) : Tally loud 1 [event] :=
  ⟨by simp [h], by simp [h]⟩

theorem quiet (hloud : loud ≠ .debug) (h : ∀ event ∈ events, event.level = .debug) :
    Tally loud 0 events where
  count := by
    rw [List.countP_eq_zero]
    intro event hevent
    simpa [h event hevent] using hloud.symm
  others event hevent := .inr (h event hevent)

theorem append (h : Tally loud m events) (h' : Tally loud n more) :
    Tally loud (m + n) (events ++ more) where
  count := by rw [List.countP_append, h.count, h'.count]
  others := List.forall_mem_append.2 ⟨h.others, h'.others⟩

end Tally

/-- Events of which so many are errors and the others are for debugging. -/
abbrev TellsErrors (failures : Nat) (events : List Event) : Prop :=
  Tally .error failures events

theorem TellsErrors.debug {n : Nat} {event : Event} {events : List Event}
    (h : event.level = .debug) (hevents : TellsErrors n events) :
    TellsErrors n (event :: events) := by
  have hone : TellsErrors 0 [event] := .quiet (by decide) (by simp [h])
  have hall := hone.append hevents
  rwa [Nat.zero_add] at hall

namespace Task

open Plan

variable (t : Task)

theorem move_tells (source target : Path) :
    (t.move source target).Tells fun outcome events => TellsErrors outcome.failures events := by
  refine (Files.isSilent_ensureParent _).bind fun ensured => ?_
  split
  · exact tells_note_bind (tells_pure (.one rfl))
  · refine tells_note_bind ((Files.isSilent_move _ _).bind fun moved => ?_)
    split
    · exact tells_pure (.debug rfl .nil)
    · split
      · exact tells_note_bind (tells_pure (.debug rfl (.debug rfl .nil)))
      · exact tells_note_bind (tells_pure (.debug rfl (.one rfl)))

theorem isSilent_currentWaitingPath : t.currentWaitingPath.IsSilent := by
  unfold currentWaitingPath
  split
  · exact isSilent_pure _
  · refine (isSilent_perform rfl).bind fun sharded => ?_
    split
    · exact isSilent_pure _
    · refine (isSilent_perform rfl).bind fun flat => ?_
      split <;> exact isSilent_pure _

theorem start_tells : t.start.Tells fun outcome events => TellsErrors outcome.failures events :=
  t.isSilent_currentWaitingPath.bind fun waiting => t.move_tells waiting t.runningPath

theorem reset_tells : t.reset.Tells fun outcome events => TellsErrors outcome.failures events :=
  t.move_tells t.runningPath t.waitingPath

theorem remove_tells (path : Path) :
    (t.remove path).Tells fun outcome events => TellsErrors outcome.failures events := by
  refine (Files.isSilent_delete _).bind fun removed => ?_
  split
  · exact tells_pure .nil
  · exact tells_note_bind (tells_pure (.debug rfl .nil))
  · exact tells_note_bind (tells_pure (.one rfl))

theorem finish_tells : t.finish.Tells fun outcome events => TellsErrors outcome.failures events := by
  unfold finish
  split
  · exact tells_note_bind (tells_pure (.debug rfl .nil))
  · exact tells_note_bind ((t.remove_tells _).mono fun _ _ => .debug rfl)

/-- The second removal is tried only where the first was none. -/
theorem delete_tells : t.delete.Tells fun outcome events => TellsErrors outcome.failures events := by
  refine (t.remove_tells _).bind fun outcome events hevents => ?_
  split
  · refine (t.remove_tells _).mono fun second more hmore => ?_
    have hall := hevents.append hmore
    rwa [show Outcome.skipped.failures = 0 from rfl, Nat.zero_add] at hall
  · exact tells_pure (by rwa [List.append_nil])

end Task

namespace Store

open Plan

variable (store : Store)

/-- One transition after the other, for each update. -/
theorem each_tells {transition : Task → Plan Outcome}
    (h : ∀ t, (transition t).Tells fun outcome events => TellsErrors outcome.failures events)
    (updates : List Update) (summary : Summary) :
    (store.each transition updates summary).Tells fun result events =>
      ∃ failures, result.failed = summary.failed + failures ∧ TellsErrors failures events := by
  induction updates generalizing summary with
  | nil => exact tells_pure ⟨0, rfl, .nil⟩
  | cons u rest ih =>
    refine (h _).bind fun outcome events hevents => (ih _).mono ?_
    rintro result more ⟨failures, hfailed, hmore⟩
    refine ⟨outcome.failures + failures, ?_, hevents.append hmore⟩
    rw [hfailed, Summary.failed_record, Nat.add_assoc]

end Store

end ReplicationQueue
