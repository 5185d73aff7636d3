import ReplicationQueue.Proofs.InFlight
import ReplicationQueue.Proofs.Mark

/-! A queue without shards that is taken over by stores with shards. A key waits twice in one way
only: a store with shards gives a task back whose key waits outside its shard. Where no update was
queued while its key ran that never happens. -/

namespace ReplicationQueue

attribute [local irreducible] Path.isTooLong

namespace Queue

variable {q q' : Queue} {key : TaskKey} {acts : List Act}

/-! ### Changes -/

theorem IsOnce.congr (h : q.IsOnce) (hfiles : q'.files = q.files) : q'.IsOnce := by
  intro key hflat
  rw [hfiles] at hflat ⊢
  exact h key hflat

theorem IsOnce.erase (h : q.IsOnce) {pl : Place}
    (hfiles : q'.files = Function.update q.files pl none) : q'.IsOnce := by
  intro key hflat
  rw [hfiles, Function.update_apply] at hflat ⊢
  split at hflat
  · cases hflat
  · split
    · rfl
    · exact h key hflat

theorem IsOnce.put_running (h : q.IsOnce) {r : Option Update}
    (hfiles : q'.files = Function.update q.files (.running key) r) : q'.IsOnce := by
  intro other hflat
  rw [hfiles, Function.update_of_ne (by simp)] at hflat ⊢
  exact h other hflat

theorem IsOnce.put_sharded (h : q.IsOnce) {r : Option Update} (hfree : q.files (.flat key) = none)
    (hfiles : q'.files = Function.update q.files (.sharded key) r) : q'.IsOnce := by
  intro other hflat
  rw [hfiles, Function.update_of_ne (by simp)] at hflat
  by_cases hkey : other = key
  · rw [hkey, hfree] at hflat
    cases hflat
  · rw [hfiles, Function.update_of_ne (by simpa using hkey)]
    exact h other hflat

/-! ### Acts of stores with shards -/

/-- A store with shards puts nothing outside them. -/
theorem flat_apply {a : Act} (ha : a.layout.waitingLayout = .sharded)
    (hfree : q.files (.flat key) = none) : (a.apply q).files (.flat key) = none := by
  have hdoes := a.does_apply q
  have herased : ∀ {pl : Place}, Function.update q.files pl none (.flat key) = none := by
    intro pl
    rw [Function.update_apply]
    split
    · rfl
    · exact hfree
  generalize a.outcome? q = outcome at hdoes
  generalize (a.apply q).files = files at hdoes ⊢
  cases hdoes with
  | nothing _ _ => exact hfree
  | create layout u =>
    have hplace : layout.waitingPlace (.derive u) = .sharded (.derive u) :=
      layout.waitingPlace_eq _ ha
    rwa [hplace, Function.update_of_ne (by simp)]
  | start layout other found =>
    rw [Function.update_of_ne (by simp)]
    exact herased
  | reset layout other found =>
    have hplace : layout.waitingPlace other = .sharded other := layout.waitingPlace_eq _ ha
    rw [hplace, Function.update_of_ne (by simp)]
    exact herased
  | finish layout other found => exact herased
  | delete layout other _ => exact herased

/-- Through a store with shards a key comes to wait twice only as its task is given back. -/
theorem IsOnce.apply (h : q.IsOnce) {a : Act} (ha : a.layout.waitingLayout = .sharded)
    (hreach : ∀ layout u, a = .create layout true u → ∀ pl, layout.reaches pl = true)
    (hback : ∀ key, a.deed? q = some (.giveBack key) → q.files (.flat key) = none) :
    (a.apply q).IsOnce := by
  have hdoes := a.does_apply q
  generalize houtcome : a.outcome? q = outcome at hdoes
  generalize hfiles : (a.apply q).files = files at hdoes
  cases hdoes with
  | nothing _ _ => exact h.congr hfiles
  | create layout u =>
    rcases (q.create_cases layout true u).2 with hsame | ⟨-, hwaiting, hput⟩
    · exact h.congr hsame
    · have hplace : layout.waitingPlace (.derive u) = .sharded (.derive u) :=
        layout.waitingPlace_eq _ ha
      rw [hplace] at hput
      refine h.put_sharded ?_ hput
      have hfinds := (Bool.or_eq_false_iff.1 hwaiting).2
      rw [finds_of_reaches (hreach layout u rfl)] at hfinds
      simpa using hfinds
  | start layout key found =>
    have herased : (q.set (q.source layout key) none).IsOnce := h.erase rfl
    exact herased.put_running hfiles
  | reset layout key found =>
    have herased : (q.set (.running key) none).IsOnce := h.put_running rfl
    have hplace : layout.waitingPlace key = .sharded key := layout.waitingPlace_eq _ ha
    rw [hplace] at hfiles
    refine herased.put_sharded ?_ hfiles
    have hfree := hback key (congrArg (·.map (Deed.mk .reset key)) houtcome)
    rwa [files_set, if_neg (by simp)]
  | finish layout key found => exact h.put_running hfiles
  | delete layout key _ => exact h.erase hfiles

theorem IsOnce.after (h : q.IsOnce) (ha : ∀ a ∈ acts, a.layout.waitingLayout = .sharded)
    (hreach : ∀ layout u, .create layout true u ∈ acts → ∀ pl, layout.reaches pl = true)
    (hback : ∀ key, .giveBack key ∈ q.deeds acts → q.files (.flat key) = none) :
    (q.after acts).IsOnce := by
  induction acts generalizing q with
  | nil => exact h
  | cons a rest ih =>
    have hfirst : (a.apply q).IsOnce :=
      h.apply (ha a (by simp)) (fun layout u hu => hreach layout u (by simp [hu]))
        fun key hd => hback key (by rw [deeds, hd]; simp)
    rw [after_cons]
    refine ih hfirst (fun b hb => ha b (List.mem_cons_of_mem a hb))
      (fun layout u hu => hreach layout u (List.mem_cons_of_mem a hu)) fun key hd => ?_
    exact flat_apply (ha a (by simp)) (hback key (by rw [deeds]; exact List.mem_append_right _ hd))

/-- Where no update is queued while its key runs, stores with shards keep each key in one place. -/
theorem IsOnce.after_single (h : q.IsOnce) (hs : q.IsSingle) (hg : Guards .sharded q acts)
    (hreach : ∀ layout u, .create layout true u ∈ acts → ∀ pl, layout.reaches pl = true) :
    (q.after acts).IsOnce ∧ (q.after acts).IsSingle := by
  induction acts generalizing q with
  | nil => exact ⟨h, hs⟩
  | cons a rest ih =>
    obtain ⟨hlayout, hfree, hrest⟩ := hg
    rw [after_cons]
    refine ih (h.apply hlayout (fun layout u hu => hreach layout u (by simp [hu])) fun key hd => ?_)
      (hs.apply h hfree) hrest fun layout u hu => hreach layout u (List.mem_cons_of_mem a hu)
    -- A key that is given back runs, so it does not wait.
    by_contra hflat
    have hfrees : (Deed.giveBack key).Frees key := ⟨rfl, rfl, .inr rfl⟩
    have hrunning := running_of_frees hd hfrees
    cases hs (.flat key) (Option.isSome_iff_ne_none.2 hflat) hrunning

/-- Through a store without shards a key waits after its update was queued. -/
theorem waits_create (q : Queue) {layout : Layout} (hreach : ∀ pl, layout.reaches pl = true)
    (hflat : layout.waitingLayout = .flat) (u : Update) :
    ((q.create layout true u).files (.flat (.derive u))).isSome := by
  have hplace : layout.waitingPlace (.derive u) = .flat (.derive u) :=
    layout.waitingPlace_eq _ hflat
  rw [create_files hreach, isWaiting, hplace, finds_of_reaches hreach, Bool.or_self]
  split
  · assumption
  · rw [Function.update_self]
    rfl

/-! ### Tasks that are given back -/

section Resets

variable {layout : Layout} {pl : Place}

/-- A key that waits still does so after a task was given back. -/
theorem waits_reset (hpl : pl ≠ .running pl.key) (h : (q.files pl).isSome) (other : TaskKey) :
    ((q.reset layout other).2.files pl).isSome := by
  have hmoves := q.moves_move layout (.running other) (layout.waitingPlace other)
  have hother : pl ≠ .running other := by
    rintro rfl
    exact hpl rfl
  rw [reset]
  generalize q.move layout (.running other) (layout.waitingPlace other) = r at hmoves
  cases hmoves with
  | failed files _ => rwa [files]
  | skipped _ files _ => rwa [files]
  | applied u _ files _ =>
    rw [files, Function.update_apply]
    split
    · rfl
    · rwa [Function.update_of_ne hother]

/-- Where every place is reached, a running task is given back. -/
theorem reset_running (hreach : ∀ pl, layout.reaches pl = true)
    (h : (q.files (.running key)).isSome) :
    (Act.reset layout key).deed? q = some (.giveBack key) := by
  obtain ⟨u, hu⟩ := Option.isSome_iff_exists.1 h
  rw [Act.deed?, (reset_found (hreach _) hu).1]
  rfl

theorem waits_after (hresets : ∀ a ∈ acts, ∃ other, a = .reset layout other)
    (hpl : pl ≠ .running pl.key) (h : (q.files pl).isSome) :
    ((q.after acts).files pl).isSome := by
  induction acts generalizing q with
  | nil => exact h
  | cons a rest ih =>
    obtain ⟨other, rfl⟩ := hresets a (by simp)
    rw [after_cons]
    exact ih (fun b hb => hresets b (List.mem_cons_of_mem _ hb)) (waits_reset hpl h other)

theorem waits_of_giveBack {a : Act} (ha : a.layout.waitingLayout = .sharded)
    (hd : a.deed? q = some (.giveBack key)) : ((a.apply q).files (.sharded key)).isSome := by
  have hdoes := a.does_apply q
  rw [Act.outcome?_of_deed? hd] at hdoes
  generalize (a.apply q).files = files at hdoes ⊢
  cases hdoes with
  | nothing _ hrefused => exact absurd rfl hrefused
  | start _ _ _ => cases hd
  | finish _ _ _ => cases hd
  | delete _ _ _ => cases hd
  | reset layout other _ =>
    have hplace : layout.waitingPlace other = .sharded other := layout.waitingPlace_eq _ ha
    obtain rfl : other = key := congrArg Deed.key (Option.some.inj hd)
    rw [hplace, Function.update_self]
    rfl

/-- A key that waits outside its shard waits twice after its task was given back into it. -/
theorem not_isOnce_after (hsharded : layout.waitingLayout = .sharded)
    (hresets : ∀ a ∈ acts, ∃ other, a = .reset layout other)
    (hd : .giveBack key ∈ q.deeds acts) (hflat : (q.files (.flat key)).isSome) :
    ¬(q.after acts).IsOnce := by
  intro honce
  -- Giving tasks back takes no waiting file away, so both files are there in the end.
  have hkept : ((q.after acts).files (.flat key)).isSome := waits_after hresets (by simp) hflat
  obtain ⟨before, after, hdeeds⟩ := List.append_of_mem hd
  obtain ⟨xs, a, ys, rfl, -, ha, -⟩ := deeds_eq_append_cons hdeeds
  have hlayout : a.layout.waitingLayout = .sharded := by
    obtain ⟨other, rfl⟩ := hresets a (by simp)
    exact hsharded
  have hput := waits_of_giveBack hlayout ha
  have hlast : (((a.apply (q.after xs)).after ys).files (.sharded key)).isSome :=
    waits_after (fun b hb => hresets b (by simp [hb])) (by simp) hput
  rw [after_append, after_cons] at honce hkept
  rw [honce key hkept] at hlast
  cases hlast

end Resets

/-- Only requests to give tasks back do so. -/
theorem resets_of_giveBack {store : Store} {writes : Bool} {running : List TaskKey}
    {request : Request} (hd : .giveBack key ∈ q.deeds (request.acts store writes running)) :
    ∀ a ∈ request.acts store writes running, ∃ other, a = .reset store.layout other := by
  obtain ⟨before, after, hdeeds⟩ := List.append_of_mem hd
  obtain ⟨xs, b, ys, hacts, -, hb, -⟩ := deeds_eq_append_cons hdeeds
  have hmem : b ∈ request.acts store writes running := by simp [hacts]
  intro a ha
  cases request with
  | reset p =>
    obtain ⟨other, -, rfl⟩ := List.mem_map.1 ha
    exact ⟨other, rfl⟩
  | resetAll =>
    obtain ⟨other, -, rfl⟩ := List.mem_map.1 ha
    exact ⟨other, rfl⟩
  | create u =>
    rw [List.mem_singleton.1 hmem] at hb
    cases hb
  | delete u =>
    rw [List.mem_singleton.1 hmem] at hb
    cases hb
  | start p =>
    obtain ⟨other, -, rfl⟩ := List.mem_map.1 hmem
    cases hb
  | finish p =>
    obtain ⟨other, -, rfl⟩ := List.mem_map.1 hmem
    cases hb
  | _ => simp [Request.acts] at ha

end Queue

/-! ### Sessions -/

/-- Each key has one waiting file at most. -/
def Site.OneCopy (site : Site) (s : System) : Prop :=
  ∀ key, (site.waitingFiles s key).length ≤ 1

/-- Only stores of one layout are asked. -/
def Step.Asks (w : WaitingLayout) (s : Session) : Step → Prop
  | .open _ => True
  | .on handle _ => ∀ store, s.stores[handle]? = some store → store.layout.waitingLayout = w

/-- A store with shards gives a task back whose key waits outside its shard. -/
def Step.Doubles (site : Site) (s : Session) (x : Step) : Prop :=
  x.Asks .sharded s ∧ ∃ key, .giveBack key ∈ s.deedsIn x ∧
    ∃ contents, s.system.disk.get? (site.root ++ ["waiting", key.text]) = some (.file contents)

/-- Stores without shards are asked first, stores with shards afterwards. -/
structure Session.Migrates (site : Site) (s : Session) (old new : List Step) : Prop where
  opens : ∀ layout, .open layout ∈ old ++ new → site.Opens layout
  asks_old : s.Each (fun s x => x.Asks .flat s) old
  asks_new : (s.run old).2.Each (fun s x => x.Asks .sharded s) new

namespace Site.Runs

variable {site : Site} {w : WaitingLayout} {s : Session} {q : Queue} {x : Step}
  {acts : List Queue.Act}

theorem oneCopy_iff (h : site.Runs s q) : site.OneCopy s.system ↔ q.IsOnce := by
  unfold OneCopy
  refine forall_congr' fun key => ?_
  rw [h.length_waitingFiles, Queue.copies]
  cases q.files (.flat key) <;> cases q.files (.sharded key) <;> simp

theorem flat_iff (h : site.Runs s q) {key : TaskKey} :
    (∃ contents, s.system.disk.get? (site.root ++ ["waiting", key.text]) = some (.file contents)) ↔
      (q.files (.flat key)).isSome := by
  rw [show ["waiting", key.text] = (Place.flat key).names from rfl, h.get?_names]
  cases q.files (.flat key) <;> simp

/-- The acts of a step that only asks stores of one layout are of that layout. -/
theorem layout_of_asks (htold : x.Told site s acts) (hasks : x.Asks w s) :
    ∀ a ∈ acts, a.layout.waitingLayout = w := by
  intro a ha
  cases htold with
  | opened layout => cases ha
  | ignored hnone request => cases ha
  | asked hstore request running =>
    rw [Queue.layout_of_mem_acts ha]
    exact hasks _ hstore

theorem reaches_of_create (htold : x.Told site s acts) {layout : Layout} {u : Update}
    (hu : .create layout true u ∈ acts) (pl : Place) : layout.reaches pl = true := by
  cases htold with
  | opened layout => cases hu
  | ignored hnone request => cases hu
  | asked hstore request running =>
    have hlayout := Queue.layout_of_mem_acts hu
    have hwrites := (Queue.create_mem_acts hu).2
    rw [← hlayout] at hwrites
    exact reaches_of_writes hwrites.symm pl

/-- As a store with shards is asked, a key comes to wait twice exactly if its task is given back
while it waits outside its shard. -/
theorem isOnce_after_iff (h : site.Runs s q) (hq : q.IsOnce) (htold : x.Told site s acts)
    (hdeeds : s.deedsIn x = q.deeds acts) (hasks : x.Asks .sharded s) :
    (q.after acts).IsOnce ↔ ¬x.Doubles site s := by
  constructor
  · rintro honce ⟨-, key, hd, hflat⟩
    rw [hdeeds] at hd
    rw [h.flat_iff] at hflat
    cases htold with
    | opened layout => cases hd
    | ignored hnone request => cases hd
    | asked hstore request running =>
      exact Queue.not_isOnce_after (hasks _ hstore) (Queue.resets_of_giveBack hd) hd hflat honce
  · -- The keys are looked up before the step: its own acts put nothing outside the shards.
    intro hno
    refine hq.after (layout_of_asks htold hasks)
      (fun layout u hu => reaches_of_create htold hu) fun key hd => ?_
    by_contra hflat
    exact hno ⟨hasks, key, by rwa [hdeeds], h.flat_iff.2 (Option.isSome_iff_ne_none.2 hflat)⟩

theorem always_oneCopy_iff (h : site.Runs s q) (hq : q.IsOnce) (steps : List Step)
    (hopen : ∀ layout, .open layout ∈ steps → site.Opens layout)
    (hasks : s.Each (fun s x => x.Asks .sharded s) steps) :
    s.Always site.OneCopy steps ↔ s.Each (fun s x => ¬x.Doubles site s) steps := by
  induction steps generalizing s q with
  | nil => exact iff_of_true (Session.always_nil.2 (h.oneCopy_iff.2 hq)) Session.each_nil
  | cons x rest ih =>
    obtain ⟨hx, hrest⟩ := Session.each_cons.1 hasks
    obtain ⟨acts, htold, hdeeds, hruns⟩ :=
      h.step_told x fun layout hl => hopen layout (by simp [hl])
    have honce := h.isOnce_after_iff hq htold hdeeds hx
    rw [Session.always_cons, Session.each_cons, and_iff_right (h.oneCopy_iff.2 hq)]
    by_cases hdoubles : x.Doubles site s
    · -- The first step that doubles a key decides both sides, so the rest may do anything.
      refine iff_of_false (fun halways => ?_) fun heach => heach.1 hdoubles
      exact honce.1 (hruns.oneCopy_iff.1 (halways [] List.nil_prefix)) hdoubles
    · rw [ih hruns (honce.2 hdoubles) (fun layout hl => hopen layout (List.mem_cons_of_mem x hl))
        hrest]
      exact (and_iff_right hdoubles).symm

/-- Stores of one layout keep each record where it runs or where the layout puts it to wait. -/
theorem run_placed (h : site.Runs s q) (hq : q.IsPlaced w) (steps : List Step)
    (hopen : ∀ layout, .open layout ∈ steps → site.Opens layout)
    (hasks : s.Each (fun s x => x.Asks w s) steps) :
    ∃ q', site.Runs (s.run steps).2 q' ∧ q'.IsPlaced w :=
  h.run_keeps hq (fun _ hq hasks htold _ => hq.after (layout_of_asks htold hasks)) steps hopen hasks

/-- Stores without shards do not double anything. -/
theorem each_not_doubles (steps : List Step) (hasks : s.Each (fun s x => x.Asks .flat s) steps) :
    s.Each (fun s x => ¬x.Doubles site s) steps := by
  rintro done x hdone ⟨hsharded, key, hd, -⟩
  have hflat := hasks done x hdone
  cases x with
  | «open» layout => cases hd
  | on handle request =>
    rw [Session.deedsIn] at hd
    cases hstore : (s.run done).2.stores[handle]? with
    | none =>
      rw [hstore] at hd
      cases hd
    | some store =>
      have hboth := (hflat store hstore).symm.trans (hsharded store hstore)
      cases hboth

theorem guards_told (h : site.Runs s q) (htold : x.Told site s acts) (hasks : x.Asks w s)
    (hno : ¬x.Requeues site s) : Queue.Guards w q acts := by
  cases htold with
  | opened layout => trivial
  | ignored hnone request => trivial
  | asked hstore request running => exact h.guards_acts hstore (hasks _ hstore) hno

theorem run_placed_single (h : site.Runs s q) (hq : q.IsPlaced w) (hs : q.IsSingle)
    (steps : List Step) (hopen : ∀ layout, .open layout ∈ steps → site.Opens layout)
    (hasks : s.Each (fun s x => x.Asks w s) steps) (hnever : s.NeverRequeues site steps) :
    ∃ q', site.Runs (s.run steps).2 q' ∧ q'.IsPlaced w ∧ q'.IsSingle := by
  refine h.run_keeps (P := fun s x => x.Asks w s ∧ ¬x.Requeues site s) ⟨hq, hs⟩ ?_ steps hopen
    fun done x hx => ⟨hasks done x hx, hnever done x hx⟩
  intro s q x acts h hI hx htold _
  exact ⟨hI.1.after (layout_of_asks htold hx.1), hI.2.after hI.1 (h.guards_told htold hx.1 hx.2)⟩

theorem run_once_single (h : site.Runs s q) (hq : q.IsOnce) (hs : q.IsSingle) (steps : List Step)
    (hopen : ∀ layout, .open layout ∈ steps → site.Opens layout)
    (hasks : s.Each (fun s x => x.Asks .sharded s) steps) (hnever : s.NeverRequeues site steps) :
    ∃ q', site.Runs (s.run steps).2 q' ∧ q'.IsOnce ∧ q'.IsSingle := by
  refine h.run_keeps (P := fun s x => x.Asks .sharded s ∧ ¬x.Requeues site s) ⟨hq, hs⟩ ?_ steps
    hopen fun done x hx => ⟨hasks done x hx, hnever done x hx⟩
  intro s q x acts h hI hx htold _
  exact hI.1.after_single hI.2 (h.guards_told htold hx.1 hx.2) fun _ _ hu =>
    reaches_of_create htold hu

/-- What is listed as waiting is listed once, where no key waits twice. -/
theorem nodup_listWaiting (h : site.Runs s q) (hq : q.IsOnce) (hkeys : q.Holds fun _ => True)
    {handle : Nat} {store : Store} (hstore : s.stores[handle]? = some store) :
    ∃ us, (s.step (.on handle .listWaiting)).1 = .updates us ∧ (us.map TaskKey.derive).Nodup := by
  obtain ⟨pls, hlists, hreply⟩ := h.step_listing hstore .listWaiting rfl
  refine ⟨_, hreply, ?_⟩
  have hlisted : (((pls.filter store.layout.reaches).filterMap q.files).map TaskKey.derive) =
      (pls.filter store.layout.reaches).map Place.key := by
    rw [List.map_filterMap, ← List.filterMap_eq_map']
    refine List.filterMap_congr fun pl hpl => ?_
    obtain ⟨u, hu⟩ :=
      Option.isSome_iff_exists.1 ((hlists.mem pl).1 (List.mem_filter.1 hpl).1).2
    rw [hu, Option.map_some, (hkeys pl u hu).2]
  have hwaits : ∀ pl ∈ pls, (q.files pl).isSome ∧ pl ≠ .running pl.key := by
    intro pl hpl
    obtain ⟨hdir, hsome⟩ := (hlists.mem pl).1 hpl
    exact ⟨hsome, Place.waits_iff.1 hdir⟩
  have hnames : (pls.map Place.names).Nodup := hlists.sorted.imp fun hlt heq => by
    rw [heq] at hlt
    exact List.lt_irrefl _ hlt
  rw [hlisted]
  refine (hnames.of_map.filter _).map_on fun a ha b hb hkey => ?_
  obtain ⟨hsome, hne⟩ := hwaits a (List.mem_filter.1 ha).1
  obtain ⟨hsome', hne'⟩ := hwaits b (List.mem_filter.1 hb).1
  exact hq.eq_of_key hsome hsome' hkey hne hne'

end Site.Runs

namespace Session

/-- As stores with shards take over from stores without, each key has one waiting file at most
exactly if no store with shards gives a task back whose key waits outside its shard. Where no update
is queued while its key runs that is so. As long as it is so no task is listed twice. -/
theorem one_copy (site : Site) (s : Session) (hbare : site.IsBareIn s.system)
    (hstores : s.stores = []) (old new : List Step) (h : s.Migrates site old new) :
    (s.Always site.OneCopy (old ++ new) ↔ s.Each (fun s x => ¬x.Doubles site s) (old ++ new)) ∧
      (s.NeverRequeues site (old ++ new) → s.Always site.OneCopy (old ++ new)) ∧
      ∀ done, done <+: old ++ new → site.OneCopy (s.run done).2.system →
        ∀ handle store, (s.run done).2.stores[handle]? = some store →
          ∃ us, ((s.run done).2.step (.on handle .listWaiting)).1 = .updates us ∧
            (us.map TaskKey.derive).Nodup := by
  have hruns := Site.runs_bare hbare hstores
  have hplaced : Queue.fresh.IsPlaced .flat := fun pl hpl => by cases hpl
  have hsingle : Queue.fresh.IsSingle := fun pl hpl => by cases hpl
  have hopen_old : ∀ layout, .open layout ∈ old → site.Opens layout := fun layout hl =>
    h.opens layout (List.mem_append_left new hl)
  have hopen_new : ∀ layout, .open layout ∈ new → site.Opens layout := fun layout hl =>
    h.opens layout (List.mem_append_right old hl)
  have hold : s.Always site.OneCopy old := by
    intro done hdone
    obtain ⟨q, hq, hplaced'⟩ := hruns.run_placed hplaced done
      (fun layout hl => hopen_old layout (hdone.mem hl)) (h.asks_old.of_prefix hdone)
    exact hq.oneCopy_iff.2 hplaced'.isOnce
  refine ⟨?_, fun hnever => ?_, fun done hdone honce handle store hstore => ?_⟩
  · obtain ⟨q, hq, hplaced'⟩ := hruns.run_placed hplaced old hopen_old h.asks_old
    rw [always_append, each_append, and_iff_right hold,
      and_iff_right (Site.Runs.each_not_doubles old h.asks_old)]
    exact hq.always_oneCopy_iff hplaced'.isOnce new hopen_new h.asks_new
  · obtain ⟨hnever_old, hnever_new⟩ := neverRequeues_append.1 hnever
    obtain ⟨q, hq, hplaced', hsingle'⟩ :=
      hruns.run_placed_single hplaced hsingle old hopen_old h.asks_old hnever_old
    refine always_append.2 ⟨hold, fun done hdone => ?_⟩
    obtain ⟨q', hq', honce, -⟩ := hq.run_once_single hplaced'.isOnce hsingle' done
      (fun layout hl => hopen_new layout (hdone.mem hl)) (h.asks_new.of_prefix hdone)
      (hnever_new.of_prefix hdone)
    exact hq'.oneCopy_iff.2 honce
  · obtain ⟨q, hq, hholds⟩ := holds_run hruns (Queue.holds_fresh _) done
      (fun layout hl => h.opens layout (hdone.mem hl)) fun _ _ => trivial
    exact hq.nodup_listWaiting (hq.oneCopy_iff.1 honce) hholds hstore

theorem asks_of_shares {site : Site} {s : Session} {stores : List Store} {q : Queue}
    (h : site.Shares s stores q) (handle : Nat) {store : Store}
    (hstore : stores[handle]? = some store) (request : Request) :
    (Step.on handle request).Asks store.layout.waitingLayout s := by
  intro other hother
  rw [h.getElem?_stores handle hstore] at hother
  cases hother
  rfl

/-- A task that was queued without shards is claimed through a store with shards. -/
theorem one_copy_claimed :
    blank.Migrates .blank
        [.open (Site.layoutHere 0 .flat),
          .on 0 (.create (.canonical "p" "refs/heads/m" "https://h/p" "h"))]
        [.open (Site.layoutHere 0 .sharded),
          .on 1 (.start ⟨"p", "https://h/p", "h", ["refs/heads/m"]⟩)] ∧
      blank.NeverRequeues .blank ([.open (Site.layoutHere 0 .flat),
          .on 0 (.create (.canonical "p" "refs/heads/m" "https://h/p" "h"))] ++
        [.open (Site.layoutHere 0 .sharded),
          .on 1 (.start ⟨"p", "https://h/p", "h", ["refs/heads/m"]⟩)]) ∧
      blank.Always Site.blank.OneCopy ([.open (Site.layoutHere 0 .flat),
          .on 0 (.create (.canonical "p" "refs/heads/m" "https://h/p" "h"))] ++
        [.open (Site.layoutHere 0 .sharded),
          .on 1 (.start ⟨"p", "https://h/p", "h", ["refs/heads/m"]⟩)]) := by
  generalize Update.canonical "p" "refs/heads/m" "https://h/p" "h" = u
  generalize (⟨"p", "https://h/p", "h", ["refs/heads/m"]⟩ : Push) = p
  have hopened := shares_blank.step_open (serves_blank .flat)
  have hreopened := (hopened.step_create 0 rfl u).step_open (serves_blank .sharded)
  have hmigrates : blank.Migrates .blank
      [.open (Site.layoutHere 0 .flat), .on 0 (.create u)]
      [.open (Site.layoutHere 0 .sharded), .on 1 (.start p)] := by
    constructor
    case opens =>
      simp [opens_blank]
    case asks_old =>
      exact each_cons.2 ⟨trivial, each_cons.2 ⟨asks_of_shares hopened 0 rfl _, each_nil⟩⟩
    case asks_new =>
      rw [run_cons_snd, run_cons_snd, run_nil_snd]
      exact each_cons.2 ⟨trivial, each_cons.2 ⟨asks_of_shares hreopened 1 rfl _, each_nil⟩⟩
  have hnever : blank.NeverRequeues .blank ([.open (Site.layoutHere 0 .flat), .on 0 (.create u)] ++
      [.open (Site.layoutHere 0 .sharded), .on 1 (.start p)]) := by
    refine neverRequeues_cons.2 ⟨id, neverRequeues_cons.2 ⟨?_, neverRequeues_cons.2 ⟨id,
      neverRequeues_cons.2 ⟨id, neverRequeues_nil⟩⟩⟩⟩
    rintro ⟨store, -, -, hrunning⟩
    have hnone := hopened.runs.running_iff.1 hrunning
    cases hnone
  exact ⟨hmigrates, hnever, (one_copy .blank blank isBareIn_blank rfl _ _ hmigrates).2.1 hnever⟩

/-- An update is queued while its task is in flight, and then the task is given back into a shard. -/
theorem not_one_copy_requeued :
    blank.Migrates .blank
        [.open (Site.layoutHere 0 .flat),
          .on 0 (.create (.canonical "p" "refs/heads/m" "https://h/p" "h")),
          .on 0 (.start ⟨"p", "https://h/p", "h", ["refs/heads/m"]⟩),
          .on 0 (.create (.canonical "p" "refs/heads/m" "https://h/p" "h"))]
        [.open (Site.layoutHere 0 .sharded),
          .on 1 (.reset ⟨"p", "https://h/p", "h", ["refs/heads/m"]⟩)] ∧
      ¬blank.Always Site.blank.OneCopy ([.open (Site.layoutHere 0 .flat),
          .on 0 (.create (.canonical "p" "refs/heads/m" "https://h/p" "h")),
          .on 0 (.start ⟨"p", "https://h/p", "h", ["refs/heads/m"]⟩),
          .on 0 (.create (.canonical "p" "refs/heads/m" "https://h/p" "h"))] ++
        [.open (Site.layoutHere 0 .sharded),
          .on 1 (.reset ⟨"p", "https://h/p", "h", ["refs/heads/m"]⟩)]) := by
  have hkeys : Push.keys ⟨"p", "https://h/p", "h", ["refs/heads/m"]⟩ =
      [.derive (.canonical "p" "refs/heads/m" "https://h/p" "h")] := rfl
  generalize Update.canonical "p" "refs/heads/m" "https://h/p" "h" = u at hkeys ⊢
  generalize (⟨"p", "https://h/p", "h", ["refs/heads/m"]⟩ : Push) = p at hkeys ⊢
  have hopened := shares_blank.step_open (serves_blank .flat)
  have hqueued := hopened.step_create 0 rfl u
  have hstarted := hqueued.step_start 0 rfl hkeys
  have hagain := hstarted.step_create 0 rfl u
  have hreopened := hagain.step_open (serves_blank .sharded)
  have hreset := hreopened.step_reset 1 rfl hkeys
  constructor
  · constructor
    case opens =>
      simp [opens_blank]
    case asks_old =>
      exact each_cons.2 ⟨trivial, each_cons.2 ⟨asks_of_shares hopened 0 rfl _,
        each_cons.2 ⟨asks_of_shares hqueued 0 rfl _,
          each_cons.2 ⟨asks_of_shares hstarted 0 rfl _, each_nil⟩⟩⟩⟩
    case asks_new =>
      rw [run_cons_snd, run_cons_snd, run_cons_snd, run_cons_snd, run_nil_snd]
      exact each_cons.2 ⟨trivial, each_cons.2 ⟨asks_of_shares hreopened 1 rfl _, each_nil⟩⟩
  · intro halways
    have hlast := halways _ (List.prefix_refl _)
    rw [List.cons_append, List.cons_append, List.cons_append, List.cons_append, List.nil_append,
      run_cons_snd, run_cons_snd, run_cons_snd, run_cons_snd, run_cons_snd, run_cons_snd,
      run_nil_snd, hreset.runs.oneCopy_iff, writes_blank] at hlast
    have hreach := reaches_blank .flat
    have hfound : (Queue.fresh.create (Site.layoutHere 0 .flat) true u).files
        ((Site.layoutHere 0 .flat).waitingPlace (.derive u)) = some u := by
      rw [Queue.files_create_fresh hreach]
      exact Function.update_self ..
    have hclaimed := (Queue.start_waiting hreach hfound).2
    generalize ((Queue.fresh.create (Site.layoutHere 0 .flat) true u).start (Site.layoutHere 0 .flat)
      (.derive u)).2 = q at hlast hclaimed
    have hrunning : (q.files (.running (.derive u))).isSome := by
      rw [hclaimed, Function.update_self]
      rfl
    have hkept : ((q.create (Site.layoutHere 0 .flat) true u).files (.running (.derive u))).isSome :=
      Queue.running_apply (a := .create _ true u) hrunning fun d hd => by cases hd
    have hwaits := q.waits_create hreach rfl u
    have hback := Queue.reset_running (reaches_blank .sharded) hkept
    refine Queue.not_isOnce_after rfl (fun a ha => ⟨_, List.mem_singleton.1 ha⟩) ?_ hwaits hlast
    rw [Queue.deeds, hback]
    exact List.mem_singleton_self _

end Session

end ReplicationQueue
