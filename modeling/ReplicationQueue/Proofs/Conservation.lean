import ReplicationQueue.Proofs.Blank
import ReplicationQueue.Proofs.Mark

/-! Claims are conserved. Through stores of any layouts no more of a key is claimed or dropped than
was queued or given back, and no more is finished or given back than was claimed: the waiting files
of the key, and its running file, are what is left over. -/

namespace ReplicationQueue

attribute [local irreducible] Path.isTooLong

/-! ### What is left over -/

namespace Queue

/-- How often a key runs. -/
def claims (files : Place → Option Update) (key : TaskKey) : Nat :=
  (files (.running key)).isSome.toNat

section Files

variable {files : Place → Option Update} {w : WaitingLayout} {other : TaskKey} {u : Update}

theorem copies_erase (key : TaskKey) (found : files (w.place other) = some u) :
    copies (Function.update files (w.place other) none) key + (if other = key then 1 else 0) =
      copies files key := by
  by_cases h : other = key
  · subst h
    cases w with
    | flat =>
      rw [WaitingLayout.place] at found
      simp [copies, WaitingLayout.place, found]
      omega
    | sharded =>
      rw [WaitingLayout.place] at found
      simp [copies, WaitingLayout.place, found]
  · cases w <;> simp [copies, WaitingLayout.place, h, Ne.symm h]

theorem copies_put_le (files : Place → Option Update) (w : WaitingLayout) (key other : TaskKey)
    (u : Update) :
    copies (Function.update files (w.place other) (some u)) key ≤
      copies files key + if other = key then 1 else 0 := by
  by_cases h : other = key
  · subst h
    cases w with
    | flat => simp [copies, WaitingLayout.place]; omega
    | sharded => simp [copies, WaitingLayout.place]
  · cases w <;> simp [copies, WaitingLayout.place, h, Ne.symm h]

theorem copies_update_running (key : TaskKey) (r : Option Update) :
    copies (Function.update files (.running other) r) key = copies files key := by
  simp [copies]

theorem claims_erase (key : TaskKey) (found : files (.running other) = some u) :
    claims (Function.update files (.running other) none) key + (if other = key then 1 else 0) =
      claims files key := by
  by_cases h : other = key
  · subst h
    simp [claims, found]
  · simp [claims, h, Ne.symm h]

theorem claims_put_le (files : Place → Option Update) (key other : TaskKey) (u : Update) :
    claims (Function.update files (.running other) (some u)) key ≤
      claims files key + if other = key then 1 else 0 := by
  by_cases h : other = key
  · subst h
    simp [claims]
  · simp [claims, h, Ne.symm h]

theorem claims_update_place (key : TaskKey) (r : Option Update) :
    claims (Function.update files (w.place other) r) key = claims files key := by
  rw [claims, Function.update_of_ne (w.place_ne_running other key).symm, claims]

end Files

end Queue

/-! ### Accounts -/

namespace Mark

variable {key other : TaskKey}

theorem count_did (transition t : Transition) :
    [did ⟨transition, other, .applied⟩].count (did ⟨t, key, .applied⟩) =
      if other = key then if transition = t then 1 else 0 else 0 := by
  by_cases h : other = key
  · by_cases ht : transition = t <;> simp [h, ht]
  · simp [h]

/-- At every point no more was claimed and dropped of a key than was queued and given back, and no
more finished and given back than claimed. So a key that is queued once is claimed once as long as
it is not given back, and whatever is finished or given back has a claim of its own. -/
structure Conserved (key : TaskKey) (marks : List Mark) : Prop where
  waits : ∀ done, done <+: marks →
    done.count (did (.claim key)) + done.count (did (.drop key)) ≤
      done.count (queued key) + done.count (did (.giveBack key))
  runs : ∀ done, done <+: marks →
    done.count (did (.retire key)) + done.count (did (.giveBack key)) ≤
      done.count (did (.claim key))
  once : ∀ before during, before ++ during <+: marks →
    (before ++ during).count (queued key) ≤ 1 → did (.giveBack key) ∉ during →
      during.count (did (.claim key)) ≤ 1
  backed : ∀ before d, before ++ [did d] <+: marks → d.Frees key →
    ∃ earlier since, before = earlier ++ did (.claim key) :: since ∧
      ∀ d', did d' ∈ since → ¬d'.Frees key

end Mark

/-- From one queue to another, the marks account for what is left over of a key. -/
structure Queue.Balance (key : TaskKey) (q : Queue) (marks : List Mark) (q' : Queue) : Prop where
  waits : copies q'.files key + marks.count (.did (.claim key)) + marks.count (.did (.drop key)) ≤
    copies q.files key + marks.count (.queued key) + marks.count (.did (.giveBack key))
  runs : claims q'.files key + marks.count (.did (.retire key)) +
      marks.count (.did (.giveBack key)) ≤
    claims q.files key + marks.count (.did (.claim key))

namespace Queue.Balance

variable {key other : TaskKey} {q q' q'' : Queue} {marks more : List Mark} {w : WaitingLayout}
  {u : Update}

theorem refl (q : Queue) : Balance key q [] q := ⟨by simp, by simp⟩

theorem trans (h : Balance key q marks q') (h' : Balance key q' more q'') :
    Balance key q (marks ++ more) q'' := by
  have hwaits := h.waits
  have hruns := h.runs
  have hwaits' := h'.waits
  have hruns' := h'.runs
  constructor <;> simp only [List.count_append] <;> omega

/-- Where no file moved, nothing was applied. -/
theorem of_files (hfiles : q'.files = q.files)
    (h : ∀ d, .did d ∈ marks → d.outcome ≠ .applied) : Balance key q marks q' := by
  have hnone : ∀ transition, marks.count (.did ⟨transition, key, .applied⟩) = 0 := fun transition =>
    List.count_eq_zero.2 fun hd => h _ hd rfl
  constructor
  · rw [hfiles, Deed.claim, Deed.drop, Deed.giveBack, hnone, hnone, hnone]
    omega
  · rw [hfiles, Deed.claim, Deed.retire, Deed.giveBack, hnone, hnone, hnone]

/-- A record that is put where its key waits is marked, unless there was one. -/
theorem queue (key : TaskKey) (hfiles : q'.files = Function.update q.files (w.place other) (some u)) :
    Balance key q
      (if copies q.files other < copies q'.files other then [.queued other] else []) q' := by
  have hruns : claims q'.files key = claims q.files key := by rw [hfiles, claims_update_place]
  have hmore : copies q'.files key ≤ copies q.files key + if other = key then 1 else 0 := by
    rw [hfiles]
    exact copies_put_le _ _ _ _ _
  split
  · refine ⟨?_, by simpa using hruns.le⟩
    simpa [List.count_singleton] using hmore
  · rename_i hsame
    refine ⟨?_, by simpa using hruns.le⟩
    simp only [List.count_nil]
    by_cases h : other = key
    · subst h
      omega
    · rw [if_neg h] at hmore
      omega

theorem claim (found : q.files (w.place other) = some u)
    (hfiles : q'.files =
      Function.update (Function.update q.files (w.place other) none) (.running other) (some u)) :
    Balance key q [.did (.claim other)] q' := by
  have hless := copies_erase key found
  have hmore := claims_put_le (Function.update q.files (w.place other) none) key other u
  rw [claims_update_place] at hmore
  constructor
  · rw [hfiles, copies_update_running, Deed.claim, Deed.claim, Deed.drop, Deed.giveBack,
      Mark.count_did, Mark.count_did, Mark.count_did]
    simp only [reduceCtorEq, if_true, if_false, ite_self]
    omega
  · rw [hfiles, Deed.claim, Deed.claim, Deed.retire, Deed.giveBack, Mark.count_did, Mark.count_did,
      Mark.count_did]
    simp only [reduceCtorEq, if_true, if_false, ite_self]
    omega

theorem giveBack (found : q.files (.running other) = some u)
    (hfiles : q'.files =
      Function.update (Function.update q.files (.running other) none) (w.place other) (some u)) :
    Balance key q [.did (.giveBack other)] q' := by
  have hless := claims_erase key found
  have hmore := copies_put_le (Function.update q.files (.running other) none) w key other u
  rw [copies_update_running] at hmore
  constructor
  · rw [hfiles, Deed.giveBack, Deed.giveBack, Deed.claim, Deed.drop, Mark.count_did,
      Mark.count_did, Mark.count_did]
    simp only [reduceCtorEq, if_true, if_false, ite_self]
    omega
  · rw [hfiles, claims_update_place, Deed.giveBack, Deed.giveBack, Deed.claim, Deed.retire,
      Mark.count_did, Mark.count_did, Mark.count_did]
    simp only [reduceCtorEq, if_true, if_false, ite_self]
    omega

theorem retire (found : q.files (.running other) = some u)
    (hfiles : q'.files = Function.update q.files (.running other) none) :
    Balance key q [.did (.retire other)] q' := by
  have hless := claims_erase key found
  constructor
  · rw [hfiles, copies_update_running, Deed.retire, Deed.giveBack, Deed.claim, Deed.drop,
      Mark.count_did, Mark.count_did, Mark.count_did]
    simp only [reduceCtorEq, if_false, ite_self]
    omega
  · rw [hfiles, Deed.retire, Deed.retire, Deed.giveBack, Deed.claim, Mark.count_did,
      Mark.count_did, Mark.count_did]
    simp only [reduceCtorEq, if_true, if_false, ite_self]
    omega

theorem drop (found : q.files (w.place other) = some u)
    (hfiles : q'.files = Function.update q.files (w.place other) none) :
    Balance key q [.did (.drop other)] q' := by
  have hless := copies_erase key found
  constructor
  · rw [hfiles, Deed.drop, Deed.drop, Deed.giveBack, Deed.claim, Mark.count_did, Mark.count_did,
      Mark.count_did]
    simp only [reduceCtorEq, if_true, if_false, ite_self]
    omega
  · rw [hfiles, claims_update_place, Deed.drop, Deed.retire, Deed.giveBack, Deed.claim,
      Mark.count_did, Mark.count_did, Mark.count_did]
    simp only [reduceCtorEq, if_false, ite_self]
    omega

end Queue.Balance

/-! ### Acts -/

namespace Queue

variable {q : Queue} {key : TaskKey}

theorem source_eq_place (q : Queue) (layout : Layout) (key : TaskKey) :
    ∃ w : WaitingLayout, q.source layout key = w.place key := by
  unfold source
  split
  · exact ⟨layout.waitingLayout, rfl⟩
  · split
    · exact ⟨.flat, rfl⟩
    · exact ⟨layout.waitingLayout, rfl⟩

/-- The marks of an act account for what it leaves. -/
theorem balance_apply (key : TaskKey) (a : Act) (q : Queue) :
    Balance key q (a.mark? q).toList (a.apply q) := by
  have hdoes := a.does_apply q
  generalize houtcome : a.outcome? q = outcome at hdoes
  generalize hfiles : (a.apply q).files = files at hdoes
  cases hdoes with
  | nothing _ hrefused =>
    refine .of_files hfiles fun d hd happlied => hrefused ?_
    rw [Option.mem_toList, Act.mark?_eq_did_iff] at hd
    rw [← houtcome, Act.outcome?_of_deed? hd, happlied]
  | create layout u =>
    have hbalance := Balance.queue key hfiles
    rw [Act.mark?]
    split <;> rename_i hmore
    · rwa [Act.apply, if_pos hmore] at hbalance
    · rwa [Act.apply, if_neg hmore] at hbalance
  | start layout other found =>
    have hmark : (Act.start layout other).mark? q = some (.did (.claim other)) :=
      Act.mark?_eq_did_iff.2 (congrArg (fun o => o.map (Deed.mk .start other)) houtcome)
    obtain ⟨w, hsource⟩ := q.source_eq_place layout other
    rw [hsource] at found hfiles
    rw [hmark]
    exact .claim found hfiles
  | reset layout other found =>
    have hmark : (Act.reset layout other).mark? q = some (.did (.giveBack other)) :=
      Act.mark?_eq_did_iff.2 (congrArg (fun o => o.map (Deed.mk .reset other)) houtcome)
    rw [hmark]
    exact .giveBack found hfiles
  | finish layout other found =>
    have hmark : (Act.finish layout false other).mark? q = some (.did (.retire other)) :=
      Act.mark?_eq_did_iff.2 (congrArg (fun o => o.map (Deed.mk .finish other)) houtcome)
    rw [hmark]
    exact .retire found hfiles
  | delete layout other _ =>
    -- That something was erased does not say from where: a waiting file may be in either place.
    have hmark : (Act.delete layout other).mark? q = some (.did (.drop other)) :=
      Act.mark?_eq_did_iff.2 (congrArg (fun o => o.map (Deed.mk .delete other)) houtcome)
    obtain ⟨pl, waits, found, hdelete⟩ : ∃ pl, (pl = layout.waitingPlace other ∨ pl = .flat other) ∧
        (q.files pl).isSome ∧ q.delete layout other = (.applied, q.set pl none) := by
      rcases q.delete_cases layout other with h | h | ⟨-, -, h⟩
      · exact h
      · rw [Act.outcome?, h] at houtcome
        cases houtcome
      · rw [Act.outcome?, h] at houtcome
        cases houtcome
    obtain ⟨u, found⟩ := Option.isSome_iff_exists.1 found
    have hset : ((Act.delete layout other).apply q).files = Function.update q.files pl none := by
      rw [Act.apply, hdelete, set]
    rw [hmark]
    rcases waits with rfl | rfl
    · exact .drop (w := layout.waitingLayout) found hset
    · exact .drop (w := .flat) found hset

theorem balance_after (key : TaskKey) (acts : List Act) (q : Queue) :
    Balance key q (q.marks acts) (q.after acts) := by
  induction acts generalizing q with
  | nil => exact .refl q
  | cons a rest ih => exact (balance_apply key a q).trans (ih (a.apply q))

/-! ### Claims and what frees them -/

/-- A key that runs was claimed, and was not freed since, unless it ran from the beginning. -/
theorem claimed_of_running {acts : List Act} (h : ((q.after acts).files (.running key)).isSome) :
    ((q.files (.running key)).isSome ∧ ∀ d, .did d ∈ q.marks acts → ¬d.Frees key) ∨
      ∃ earlier since, q.marks acts = earlier ++ .did (.claim key) :: since ∧
        ∀ d, .did d ∈ since → ¬d.Frees key := by
  induction acts generalizing q with
  | nil => exact .inl ⟨h, fun d hd => by cases hd⟩
  | cons a rest ih =>
    rcases ih h with ⟨hmid, hrest⟩ | ⟨earlier, since, hmarks, hsince⟩
    · -- The key ran before the rest, so the first act claimed it or left it running.
      rcases running_of_apply hmid with hclaim | ⟨hbefore, hkept⟩
      · refine .inr ⟨[], (a.apply q).marks rest, ?_, hrest⟩
        rw [marks, Act.mark?_eq_did_iff.2 hclaim]
        rfl
      · refine .inl ⟨hbefore, fun d hd => ?_⟩
        rw [marks, List.mem_append, Option.mem_toList, Act.mark?_eq_did_iff] at hd
        exact hd.elim (hkept d) (hrest d)
    · exact .inr ⟨(a.mark? q).toList ++ earlier, since, by rw [marks, hmarks, List.append_assoc],
        hsince⟩

theorem conserved_fresh (key : TaskKey) (acts : List Act) :
    Mark.Conserved key (fresh.marks acts) := by
  have hbalance : ∀ done, done <+: fresh.marks acts → ∃ q', Balance key fresh done q' := by
    intro done hdone
    obtain ⟨xs, rfl⟩ := exists_of_prefix hdone
    exact ⟨_, balance_after key xs fresh⟩
  have hcopies : copies fresh.files key = 0 := rfl
  have hclaims : claims fresh.files key = 0 := rfl
  have hwaits : ∀ done, done <+: fresh.marks acts →
      done.count (.did (.claim key)) + done.count (.did (.drop key)) ≤
        done.count (.queued key) + done.count (.did (.giveBack key)) := by
    intro done hdone
    obtain ⟨q', hq'⟩ := hbalance done hdone
    have hle := hq'.waits
    omega
  have hruns : ∀ done, done <+: fresh.marks acts →
      done.count (.did (.retire key)) + done.count (.did (.giveBack key)) ≤
        done.count (.did (.claim key)) := by
    intro done hdone
    obtain ⟨q', hq'⟩ := hbalance done hdone
    have hle := hq'.runs
    omega
  refine ⟨hwaits, hruns, fun before during hdone honce hnone => ?_, fun before d hdone hfrees => ?_⟩
  · -- What was given back before had been claimed before.
    have hbefore := hruns before ((List.prefix_append _ _).trans hdone)
    have hall := hwaits (before ++ during) hdone
    have hkept := List.count_eq_zero.2 hnone
    simp only [List.count_append] at honce hall
    omega
  · obtain ⟨xs, a, rfl, ha⟩ := exists_of_concat_prefix hdone
    have hrunning := running_of_frees (Act.mark?_eq_did_iff.1 ha) hfrees
    rcases claimed_of_running hrunning with ⟨habsent, -⟩ | hclaimed
    · cases habsent
    · exact hclaimed

end Queue

/-- At every point of a session the claims of a key are conserved. -/
theorem Session.claims_conserved (site : Site) (s : Session) (hbare : site.IsBareIn s.system)
    (hstores : s.stores = []) (steps : List Step)
    (hopen : ∀ layout, .open layout ∈ steps → site.Opens layout) (key : TaskKey) :
    Mark.Conserved key (s.marks site steps) := by
  obtain ⟨acts, hacts⟩ := (Site.runs_bare hbare hstores).marks_run steps hopen
  rw [hacts]
  exact Queue.conserved_fresh key acts

/-- A task that was queued without shards is claimed once through a store with shards. -/
theorem Session.claims_conserved_reopened :
    (∀ layout, Step.open layout ∈ [.open (Site.layoutHere 0 .flat),
          .on 0 (.create (.canonical "p" "refs/heads/m" "https://h/p" "h")),
          .open (Site.layoutHere 0 .sharded),
          .on 1 (.start ⟨"p", "https://h/p", "h", ["refs/heads/m"]⟩)] →
        Site.blank.Opens layout) ∧
      blank.marks .blank [.open (Site.layoutHere 0 .flat),
          .on 0 (.create (.canonical "p" "refs/heads/m" "https://h/p" "h")),
          .open (Site.layoutHere 0 .sharded),
          .on 1 (.start ⟨"p", "https://h/p", "h", ["refs/heads/m"]⟩)] =
        [.queued (.derive (.canonical "p" "refs/heads/m" "https://h/p" "h")),
          .did (.claim (.derive (.canonical "p" "refs/heads/m" "https://h/p" "h")))] ∧
      Mark.Conserved (.derive (.canonical "p" "refs/heads/m" "https://h/p" "h"))
        [.queued (.derive (.canonical "p" "refs/heads/m" "https://h/p" "h")),
          .did (.claim (.derive (.canonical "p" "refs/heads/m" "https://h/p" "h")))] := by
  have hkeys : Push.keys ⟨"p", "https://h/p", "h", ["refs/heads/m"]⟩ =
      [.derive (.canonical "p" "refs/heads/m" "https://h/p" "h")] := rfl
  generalize Update.canonical "p" "refs/heads/m" "https://h/p" "h" = u at hkeys ⊢
  generalize (⟨"p", "https://h/p", "h", ["refs/heads/m"]⟩ : Push) = p at hkeys ⊢
  have hopen : ∀ layout, Step.open layout ∈ [.open (Site.layoutHere 0 .flat), .on 0 (.create u),
      .open (Site.layoutHere 0 .sharded), .on 1 (.start p)] → Site.blank.Opens layout := by
    simp [opens_blank]
  have hmarks : blank.marks .blank [.open (Site.layoutHere 0 .flat), .on 0 (.create u),
      .open (Site.layoutHere 0 .sharded), .on 1 (.start p)] =
        [.queued (.derive u), .did (.claim (.derive u))] := by
    have hopened := shares_blank.step_open (serves_blank .flat)
    have hqueued := hopened.step_create 0 rfl u
    rw [writes_blank] at hqueued
    have hreopened := hqueued.step_open (serves_blank .sharded)
    obtain ⟨_, hcreate, -⟩ :=
      hopened.runs.marksIn_request (hopened.getElem?_stores 0 rfl) (.create u)
    obtain ⟨_, hstart, -⟩ :=
      hreopened.runs.marksIn_request (hreopened.getElem?_stores 1 rfl) (.start p)
    have hmade : (Queue.Act.create (Site.layoutHere 0 .flat) true u).mark? .fresh =
        some (.queued (.derive u)) := by
      rw [Queue.Act.mark?, Queue.files_create_fresh (reaches_blank .flat), if_pos]
      simp [Queue.copies, Queue.fresh, Layout.waitingPlace, Site.layoutHere, WaitingLayout.place]
    have hclaimed : (Queue.Act.start (Site.layoutHere 0 .sharded) (.derive u)).mark?
        (Queue.fresh.create (Site.layoutHere 0 .flat) true u) =
          some (.did (.claim (.derive u))) := by
      rw [Queue.Act.mark?_eq_did_iff, Queue.Act.deed?,
        Queue.start_outcome (reaches_blank .sharded), isWaiting_reopened]
      rfl
    rw [marks, marks, marks, marks, marks, hcreate, hstart, writes_blank, Request.acts,
      Request.acts, hkeys, List.map_cons, List.map_nil, Queue.marks, Queue.marks, Queue.marks,
      hmade, Queue.marks, hclaimed]
    rfl
  have hconserved := claims_conserved .blank blank isBareIn_blank rfl _ hopen (.derive u)
  rw [hmarks] at hconserved
  exact ⟨hopen, hmarks, hconserved⟩

end ReplicationQueue
