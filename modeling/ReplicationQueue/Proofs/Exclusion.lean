import ReplicationQueue.Proofs.Deed

/-! When a key both waits and runs. Through stores of one layout that comes about in one way only:
an update is queued while its key runs. Where that never happens a running task is claimed again
only after it was finished or given back. -/

namespace ReplicationQueue

attribute [local irreducible] Path.isTooLong

namespace Queue

variable {w : WaitingLayout} {q q' : Queue} {layout : Layout} {key : TaskKey}

/-- Each record is where it runs or where the layout puts it to wait. -/
def IsPlaced (w : WaitingLayout) (q : Queue) : Prop :=
  ∀ pl, (q.files pl).isSome → pl = .running pl.key ∨ pl = w.place pl.key

/-- A key that runs is nowhere else. -/
def IsSingle (q : Queue) : Prop :=
  ∀ pl, (q.files pl).isSome → (q.files (.running pl.key)).isSome → pl = .running pl.key

/-- No key waits twice. -/
def IsOnce (q : Queue) : Prop :=
  ∀ key, (q.files (.flat key)).isSome → q.files (.sharded key) = none

theorem IsPlaced.isOnce (h : q.IsPlaced w) : q.IsOnce := by
  intro key hflat
  by_contra hsharded
  have hplace := h (.flat key) hflat
  have hplace' := h (.sharded key) (Option.isSome_iff_ne_none.2 hsharded)
  cases w <;> simp [WaitingLayout.place, Place.key] at hplace hplace'

/-- Where no key waits twice, a key waits at one place. -/
theorem IsOnce.eq_of_key (h : q.IsOnce) {a b : Place} (ha : (q.files a).isSome)
    (hb : (q.files b).isSome) (hkey : a.key = b.key) (hwaits : a ≠ .running a.key)
    (hwaits' : b ≠ .running b.key) : a = b := by
  cases a with
  | running _ => exact absurd rfl hwaits
  | flat key =>
    cases b with
    | running _ => exact absurd rfl hwaits'
    | flat _ => exact congrArg Place.flat hkey
    | sharded other =>
      obtain rfl : key = other := hkey
      rw [h key ha] at hb
      cases hb
  | sharded key =>
    cases b with
    | running _ => exact absurd rfl hwaits'
    | flat other =>
      obtain rfl : key = other := hkey
      rw [h key hb] at ha
      cases ha
    | sharded _ => exact congrArg Place.sharded hkey

/-! ### Changes -/

theorem IsPlaced.congr (h : q.IsPlaced w) (hfiles : q'.files = q.files) : q'.IsPlaced w := by
  intro pl hpl
  rw [hfiles] at hpl
  exact h pl hpl

theorem IsPlaced.erase (h : q.IsPlaced w) {pl : Place}
    (hfiles : q'.files = Function.update q.files pl none) : q'.IsPlaced w := by
  intro other hother
  rw [hfiles, Function.update_apply] at hother
  split at hother
  · cases hother
  · exact h other hother

theorem IsPlaced.put (h : q.IsPlaced w) {pl : Place} {u : Update}
    (hpl : pl = .running pl.key ∨ pl = w.place pl.key)
    (hfiles : q'.files = Function.update q.files pl (some u)) : q'.IsPlaced w := by
  intro other hother
  rw [hfiles, Function.update_apply] at hother
  split at hother
  · rename_i heq
    rw [heq]
    exact hpl
  · exact h other hother

theorem IsSingle.congr (h : q.IsSingle) (hfiles : q'.files = q.files) : q'.IsSingle := by
  intro pl hpl hrunning
  rw [hfiles] at hpl hrunning
  exact h pl hpl hrunning

theorem IsSingle.erase (h : q.IsSingle) {pl : Place}
    (hfiles : q'.files = Function.update q.files pl none) : q'.IsSingle := by
  intro other hother hrunning
  rw [hfiles, Function.update_apply] at hother hrunning
  split at hother
  · cases hother
  · split at hrunning
    · cases hrunning
    · exact h other hother hrunning

theorem IsSingle.put_running (h : q.IsSingle) {u : Update}
    (hfree : ∀ pl, pl.key = key → pl ≠ .running key → q.files pl = none)
    (hfiles : q'.files = Function.update q.files (.running key) (some u)) : q'.IsSingle := by
  intro pl hpl hrunning
  by_contra hne
  by_cases hkey : pl.key = key
  · have hother : pl ≠ .running key := by
      rw [← hkey]
      exact hne
    rw [hfiles, Function.update_of_ne hother, hfree pl hkey hother] at hpl
    cases hpl
  · have hpl' : pl ≠ .running key := fun heq => hkey (by rw [heq]; rfl)
    have hrunning' : Place.running pl.key ≠ .running key := fun heq => hkey (Place.running.inj heq)
    rw [hfiles, Function.update_of_ne hpl'] at hpl
    rw [hfiles, Function.update_of_ne hrunning'] at hrunning
    exact hne (h pl hpl hrunning)

theorem IsSingle.put_waiting (h : q.IsSingle) {u : Update}
    (hfree : q.files (.running key) = none)
    (hfiles : q'.files = Function.update q.files (w.place key) (some u)) : q'.IsSingle := by
  intro pl hpl hrunning
  rw [hfiles, Function.update_of_ne (w.place_ne_running key _).symm] at hrunning
  by_cases hplace : pl = w.place key
  · rw [hplace, WaitingLayout.key_place, hfree] at hrunning
    cases hrunning
  · rw [hfiles, Function.update_of_ne hplace] at hpl
    exact h pl hpl hrunning

/-! ### Acts -/

theorem IsPlaced.apply (h : q.IsPlaced w) {a : Act} (ha : a.layout.waitingLayout = w) :
    (a.apply q).IsPlaced w := by
  subst ha
  have hplace : ∀ (layout : Layout) key,
      layout.waitingPlace key = .running (layout.waitingPlace key).key ∨
      layout.waitingPlace key = layout.waitingLayout.place (layout.waitingPlace key).key :=
    fun layout key => .inr (by rw [layout.key_waitingPlace, Layout.waitingPlace])
  have hdoes := a.does_apply q
  generalize a.outcome? q = outcome at hdoes
  generalize hfiles : (a.apply q).files = files at hdoes
  cases hdoes with
  | nothing _ _ => exact h.congr hfiles
  | create layout u => exact h.put (hplace layout _) hfiles
  | start layout key found =>
    have herased : (q.set (q.source layout key) none).IsPlaced layout.waitingLayout := h.erase rfl
    exact herased.put (.inl rfl) hfiles
  | reset layout key found =>
    have herased : (q.set (.running key) none).IsPlaced layout.waitingLayout := h.erase rfl
    exact herased.put (hplace layout key) hfiles
  | finish layout key found => exact h.erase hfiles
  | delete layout key _ => exact h.erase hfiles

/-- Where no key waits twice, nothing but queueing an update while its key runs makes a key both wait
and run. -/
theorem IsSingle.apply (h : q.IsSingle) (ho : q.IsOnce) {a : Act}
    (hfree : ∀ layout u, a = .create layout true u → q.files (.running (.derive u)) = none) :
    (a.apply q).IsSingle := by
  have hdoes := a.does_apply q
  generalize a.outcome? q = outcome at hdoes
  generalize hfiles : (a.apply q).files = files at hdoes
  cases hdoes with
  | nothing _ _ => exact h.congr hfiles
  | create layout u => exact h.put_waiting (hfree layout u rfl) hfiles
  | start layout key found =>
    -- What is claimed was the key's only record, for it did not run.
    have herased : (q.set (q.source layout key) none).IsSingle := h.erase rfl
    refine herased.put_running (fun pl hkey hne => ?_) hfiles
    by_contra hsome
    rw [files_set] at hsome
    split at hsome
    · exact hsome rfl
    · rename_i hother
      refine hother (ho.eq_of_key (Option.isSome_iff_ne_none.2 hsome) (by rw [found]; rfl) ?_ ?_ ?_)
      · rw [hkey, q.key_source]
      · rwa [hkey]
      · rw [q.key_source]
        exact Site.Shows.source_ne_running q layout key
  | reset layout key found =>
    have herased : (q.set (.running key) none).IsSingle := h.erase rfl
    exact herased.put_waiting (q.files_set_self _ _) hfiles
  | finish layout key found => exact h.erase hfiles
  | delete layout key _ => exact h.erase hfiles

/-- Where every place is reached, an update that is queued while its key runs is in both. -/
theorem IsSingle.not_create (h : q.IsSingle) (hreach : ∀ pl, layout.reaches pl = true) (u : Update)
    (hrunning : (q.files (.running (.derive u))).isSome) :
    ¬(q.create layout true u).IsSingle := by
  have hwaiting : q.isWaiting layout (.derive u) = false := by
    have hnone : ∀ pl : Place, pl.key = .derive u → pl ≠ .running (.derive u) →
        q.files pl = none := by
      intro pl hkey hne
      by_contra hsome
      have hpl := h pl (Option.isSome_iff_ne_none.2 hsome) (by rw [hkey]; exact hrunning)
      exact hne (by rw [← hkey]; exact hpl)
    rw [isWaiting, finds_of_reaches hreach, finds_of_reaches hreach,
      hnone _ (layout.key_waitingPlace _) (layout.waitingPlace_ne_running _ _),
      hnone (.flat (.derive u)) rfl (by simp)]
    rfl
  intro hsingle
  have hfiles := q.create_files hreach u
  rw [hwaiting, if_neg (by simp)] at hfiles
  have hboth := hsingle (layout.waitingPlace (.derive u))
    (by rw [hfiles, Function.update_self]; rfl)
    (by rw [hfiles, layout.key_waitingPlace,
      Function.update_of_ne (layout.waitingPlace_ne_running _ _).symm]; exact hrunning)
  exact layout.waitingPlace_ne_running _ _ hboth

/-! ### Claims -/

/-- A running task stays until it is finished or given back. -/
theorem running_apply {a : Act} (hrunning : (q.files (.running key)).isSome)
    (hkept : ∀ d, a.deed? q = some d → ¬d.Frees key) :
    ((a.apply q).files (.running key)).isSome := by
  have hdoes := a.does_apply q
  have herased : ∀ {pl : Place}, pl ≠ .running key →
      (Function.update q.files pl none (.running key)).isSome := by
    intro pl hpl
    rwa [Function.update_of_ne hpl.symm]
  have hput : ∀ {files : Place → Option Update} {pl : Place} {u : Update},
      (files (.running key)).isSome →
        (Function.update files pl (some u) (.running key)).isSome := by
    intro files pl u hfiles
    rw [Function.update_apply]
    split
    · rfl
    · exact hfiles
  generalize houtcome : a.outcome? q = outcome at hdoes
  generalize (a.apply q).files = files at hdoes
  cases hdoes with
  | nothing _ _ => exact hrunning
  | create layout u => exact hput hrunning
  | start layout other found =>
    by_cases hkey : other = key
    · rw [hkey, Function.update_self]
      rfl
    · refine hput (herased fun hpl => hkey ?_)
      rw [← q.key_source layout other, hpl]
      rfl
  | reset layout other found =>
    refine hput (herased fun hpl => ?_)
    obtain rfl := Place.running.inj hpl
    exact hkept _ rfl ⟨rfl, Option.some.inj houtcome, .inr rfl⟩
  | finish layout other found =>
    refine herased fun hpl => ?_
    obtain rfl := Place.running.inj hpl
    exact hkept _ rfl ⟨rfl, Option.some.inj houtcome, .inl rfl⟩
  | delete layout other waits =>
    refine herased ?_
    rcases waits with rfl | rfl
    · exact layout.waitingPlace_ne_running other key
    · simp

/-- A key that runs after an act was claimed by it, or ran before and was not freed. -/
theorem running_of_apply {a : Act} (h : ((a.apply q).files (.running key)).isSome) :
    a.deed? q = some (.claim key) ∨
      (q.files (.running key)).isSome ∧ ∀ d, a.deed? q = some d → ¬d.Frees key := by
  have hdoes := a.does_apply q
  have herased : ∀ {files : Place → Option Update} {pl : Place},
      (Function.update files pl none (.running key)).isSome →
        pl ≠ .running key ∧ (files (.running key)).isSome := by
    intro files pl hsome
    rw [Function.update_apply] at hsome
    split at hsome
    · cases hsome
    · rename_i hne
      exact ⟨Ne.symm hne, hsome⟩
  generalize houtcome : a.outcome? q = outcome at hdoes
  generalize (a.apply q).files = files at h hdoes
  cases hdoes with
  | nothing _ hrefused =>
    refine .inr ⟨h, fun d hd hfrees => hrefused ?_⟩
    rw [← houtcome, Act.outcome?_of_deed? hd, hfrees.2.1]
  | create layout u =>
    rw [Function.update_of_ne (layout.waitingPlace_ne_running _ _).symm] at h
    exact .inr ⟨h, fun d hd => by cases hd⟩
  | start layout other found =>
    by_cases hkey : other = key
    · subst hkey
      exact .inl (congrArg (·.map (Deed.mk .start other)) houtcome)
    · rw [Function.update_of_ne (by simpa using Ne.symm hkey)] at h
      refine .inr ⟨(herased h).2, fun d hd hfrees => ?_⟩
      cases hd
      rcases hfrees.2.2 with htransition | htransition <;> cases htransition
  | reset layout other found =>
    rw [Function.update_of_ne (layout.waitingPlace_ne_running _ _).symm] at h
    obtain ⟨hne, hrunning⟩ := herased h
    refine .inr ⟨hrunning, fun d hd hfrees => hne ?_⟩
    cases hd
    exact congrArg Place.running hfrees.1
  | finish layout other found =>
    obtain ⟨hne, hrunning⟩ := herased h
    refine .inr ⟨hrunning, fun d hd hfrees => hne ?_⟩
    cases hd
    exact congrArg Place.running hfrees.1
  | delete layout other _ =>
    refine .inr ⟨(herased h).2, fun d hd hfrees => ?_⟩
    cases hd
    rcases hfrees.2.2 with htransition | htransition <;> cases htransition

/-- Only a key that runs is freed. -/
theorem running_of_frees {a : Act} {d : Deed} (hd : a.deed? q = some d) (h : d.Frees key) :
    (q.files (.running key)).isSome := by
  have hdoes := a.does_apply q
  have happlied := Act.outcome?_of_deed? hd
  rw [h.2.1] at happlied
  rw [happlied] at hdoes
  generalize (a.apply q).files = files at hdoes
  obtain ⟨hkey, -, htransition⟩ := h
  cases hdoes with
  | nothing _ hrefused => exact absurd rfl hrefused
  | start layout other found =>
    cases hd
    rcases htransition with htransition | htransition <;> cases htransition
  | reset layout other found =>
    cases hd
    rw [← hkey, found]
    rfl
  | finish layout other found =>
    cases hd
    rw [← hkey, found]
    rfl
  | delete layout other _ =>
    cases hd
    rcases htransition with htransition | htransition <;> cases htransition

/-- What is claimed was found where the key waits. -/
theorem found_of_claim {a : Act} (h : a.deed? q = some (.claim key)) :
    ∃ layout u, q.files (q.source layout key) = some u ∧
      (a.apply q).files (.running key) = some u := by
  cases a with
  | start layout other =>
    obtain ⟨-, rfl, hstart⟩ := Deed.mk.inj (Option.some.inj h)
    have hmoves := q.moves_move layout (q.source layout other) (.running other)
    refine ⟨layout, ?_⟩
    show ∃ u, _ ∧ (q.start layout other).2.files _ = some u
    rw [start] at hstart ⊢
    generalize q.move layout (q.source layout other) (.running other) = r at hmoves hstart
    cases hmoves with
    | failed _ _ => cases hstart
    | skipped _ _ _ => cases hstart
    | applied u found files _ => exact ⟨u, found, by rw [files, Function.update_self]⟩
  | create layout writes u => cases h
  | reset layout other => cases h
  | finish layout keep other => cases h
  | delete layout other => cases h

theorem running_of_claim {a : Act} (h : a.deed? q = some (.claim key)) :
    ((a.apply q).files (.running key)).isSome := by
  obtain ⟨layout, u, -, hrunning⟩ := found_of_claim h
  rw [hrunning]
  rfl

/-- A key that runs and does not wait is not claimed. -/
theorem IsSingle.not_claim (h : q.IsSingle) {a : Act}
    (hrunning : (q.files (.running key)).isSome) : a.deed? q ≠ some (.claim key) := by
  intro hclaim
  obtain ⟨layout, u, found, -⟩ := found_of_claim hclaim
  have hsource := h (q.source layout key) (by rw [found]; rfl)
  rw [q.key_source] at hsource
  exact Site.Shows.source_ne_running q layout key (hsource hrunning)

/-- Acts of one layout, none of which queues an update while its key runs. -/
def Guards (w : WaitingLayout) : Queue → List Act → Prop
  | _, [] => True
  | q, a :: rest =>
    a.layout.waitingLayout = w ∧
      (∀ layout u, a = .create layout true u → q.files (.running (.derive u)) = none) ∧
      Guards w (a.apply q) rest

theorem guards_append {xs ys : List Act} :
    Guards w q (xs ++ ys) ↔ Guards w q xs ∧ Guards w (q.after xs) ys := by
  induction xs generalizing q with
  | nil => simp [Guards, after]
  | cons a rest ih =>
    rw [List.cons_append, Guards, Guards, ih, after_cons]
    simp only [and_assoc]

theorem guards_of_forall {acts : List Act} (hlayout : ∀ a ∈ acts, a.layout.waitingLayout = w)
    (hcreate : ∀ layout made u, .create layout made u ∉ acts) : Guards w q acts := by
  induction acts generalizing q with
  | nil => trivial
  | cons a rest ih =>
    refine ⟨hlayout a (by simp), fun layout u ha => ?_, ?_⟩
    · exact absurd (by simp [ha]) (hcreate layout true u)
    · exact ih (fun b hb => hlayout b (List.mem_cons_of_mem a hb)) fun layout made u hu =>
        hcreate layout made u (List.mem_cons_of_mem a hu)

theorem IsPlaced.after (h : q.IsPlaced w) {acts : List Act}
    (ha : ∀ a ∈ acts, a.layout.waitingLayout = w) : (q.after acts).IsPlaced w := by
  induction acts generalizing q with
  | nil => exact h
  | cons a rest ih =>
    rw [after_cons]
    exact ih (h.apply (ha a (by simp))) fun b hb => ha b (List.mem_cons_of_mem a hb)

theorem IsSingle.after (h : q.IsSingle) (hp : q.IsPlaced w) {acts : List Act}
    (hg : Guards w q acts) : (q.after acts).IsSingle := by
  induction acts generalizing q with
  | nil => exact h
  | cons a rest ih =>
    obtain ⟨hlayout, hfree, hrest⟩ := hg
    rw [after_cons]
    exact ih (h.apply hp.isOnce hfree) (hp.apply hlayout) hrest

theorem deeds_append (q : Queue) (xs ys : List Act) :
    q.deeds (xs ++ ys) = q.deeds xs ++ (q.after xs).deeds ys := by
  induction xs generalizing q with
  | nil => rfl
  | cons a rest ih =>
    rw [List.cons_append, deeds, deeds, ih, List.append_assoc, after_cons]

/-- A deed is done by one of the acts. -/
theorem deeds_eq_append_cons {acts : List Act} {before after : List Deed} {d : Deed}
    (h : q.deeds acts = before ++ d :: after) :
    ∃ xs a ys, acts = xs ++ a :: ys ∧ q.deeds xs = before ∧ a.deed? (q.after xs) = some d ∧
      (a.apply (q.after xs)).deeds ys = after := by
  induction acts generalizing q before with
  | nil => simp [deeds] at h
  | cons a rest ih =>
    rw [deeds] at h
    cases hdeed : a.deed? q with
    | none =>
      rw [hdeed] at h
      obtain ⟨xs, b, ys, rfl, hxs, hb, hys⟩ := ih h
      exact ⟨a :: xs, b, ys, rfl, by rw [deeds, hdeed, hxs]; rfl, hb, hys⟩
    | some e =>
      rw [hdeed] at h
      cases before with
      | nil =>
        obtain ⟨rfl, hys⟩ := List.cons.inj h
        exact ⟨[], a, rest, rfl, rfl, hdeed, hys⟩
      | cons e' before =>
        obtain ⟨rfl, htail⟩ := List.cons.inj h
        obtain ⟨xs, b, ys, rfl, hxs, hb, hys⟩ := ih htail
        exact ⟨a :: xs, b, ys, rfl, by rw [deeds, hdeed, hxs]; rfl, hb, hys⟩

/-- A running task stays until one of the acts finishes it or gives it back. -/
theorem running_after {acts : List Act} (hrunning : (q.files (.running key)).isSome)
    (hkept : ∀ d ∈ q.deeds acts, ¬d.Frees key) : ((q.after acts).files (.running key)).isSome := by
  induction acts generalizing q with
  | nil => exact hrunning
  | cons a rest ih =>
    rw [deeds] at hkept
    rw [after_cons]
    refine ih (running_apply hrunning fun d hd => hkept d ?_) fun d hd => hkept d ?_
    · simp [hd]
    · exact List.mem_append_right _ hd

/-- Between two claims of a task it was finished or given back. -/
theorem IsSingle.frees_between (h : q.IsSingle) (hp : q.IsPlaced w) {acts : List Act}
    (hg : Guards w q acts) {before between rest : List Deed}
    (hdeeds : q.deeds acts = before ++ .claim key :: between ++ .claim key :: rest) :
    ∃ d ∈ between, d.Frees key := by
  rw [List.append_assoc, List.cons_append] at hdeeds
  obtain ⟨xs, a, ys, rfl, -, hclaim, hys⟩ := deeds_eq_append_cons hdeeds
  obtain ⟨xs', b, ys', rfl, hbetween, hagain, -⟩ := deeds_eq_append_cons hys
  by_contra hnone
  simp only [not_exists, not_and] at hnone
  rw [← hbetween] at hnone
  have hrunning := running_after (running_of_claim hclaim) hnone
  have hacts : xs ++ a :: (xs' ++ b :: ys') = (xs ++ a :: xs') ++ b :: ys' := by simp
  rw [hacts, guards_append] at hg
  have hsingle := h.after hp hg.1
  rw [after_append] at hsingle
  exact IsSingle.not_claim hsingle hrunning hagain

end Queue

end ReplicationQueue
