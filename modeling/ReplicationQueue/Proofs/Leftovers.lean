import ReplicationQueue.Proofs.Independence
import ReplicationQueue.Proofs.Waiting

/-! Leftovers are inert. Files that were left in the building directory, whatever their names and
contents, change neither what stores answer nor what they do; they only show, where they are
complete records, at the head of a list of everything. -/

namespace ReplicationQueue

attribute [local irreducible] Path.isTooLong

/-! ### Queues -/

namespace Queue

/-- The queue with these files in the making. -/
def leave (q : Queue) (extra : String → Option Bytes) : Queue :=
  { q with building := extra }

variable {q : Queue} {extra : String → Option Bytes} {layout : Layout}

theorem get?_leave (q : Queue) (extra : String → Option Bytes) (names : Location) :
    (q.leave extra).get? names =
      match builtName? names with
      | some name => (extra name).map .file
      | none => q.get? names := by
  cases hbuilt : builtName? names with
  | some name =>
    rw [builtName?_eq_some_iff] at hbuilt
    rw [hbuilt]
    exact (q.leave extra).get?_building name
  | none =>
    have hdirectory : (q.leave extra).isDirectory names = q.isDirectory names := by
      unfold isDirectory
      split <;> rfl
    unfold get? frame?
    rw [hdirectory]
    split
    · rfl
    · dsimp only
      split
      · rfl
      · split
        · split
          · rename_i state name _ hstate
            rw [builtName?, if_pos hstate] at hbuilt
            cases hbuilt
          · rfl
        · rfl

theorem IsLocal.leave {f : Queue → TaskKey → Outcome × Queue} (h : IsLocal f) (q : Queue)
    (key : TaskKey) (extra : String → Option Bytes) :
    f (q.leave extra) key = ((f q key).1, (f q key).2.leave extra) := by
  have halike : ∀ other, Alike other q (q.leave extra) := fun _ _ _ => rfl
  refine Prod.ext (h.outcome (halike key)) (ext (h.building _ key) (funext fun pl => ?_) ?_)
  · by_cases hpl : pl.key = key
    · exact h.inside (halike key) pl hpl
    · exact (h.outside (q.leave extra) hpl).trans (h.outside q hpl).symm
  · obtain ⟨made, hmade⟩ := h.shards key
    funext shard
    exact (hmade (q.leave extra) shard).trans (hmade q shard).symm

theorem IsLocal.each_leave {f : Queue → TaskKey → Outcome × Queue} (h : IsLocal f) (q : Queue)
    (keys : List TaskKey) (summary : Summary) (extra : String → Option Bytes) :
    (q.leave extra).each f keys summary =
      ((q.each f keys summary).1, (q.each f keys summary).2.leave extra) := by
  induction keys generalizing q summary with
  | nil => rfl
  | cons key rest ih => rw [each, each, h.leave, ih]

theorem create_leave (q : Queue) (layout : Layout) (writes : Bool) (u : Update)
    (extra : String → Option Bytes) :
    (q.leave extra).create layout writes u = (q.create layout writes u).leave extra := by
  have hprovision : ∀ pl, (q.leave extra).provision layout pl =
      (q.provision layout pl).map (·.leave extra) := by
    intro pl
    cases pl with
    | running key => rfl
    | flat key => rfl
    | sharded key =>
      rw [provision_sharded, provision_sharded]
      split <;> rfl
  have hwaiting : (q.leave extra).isWaiting layout (.derive u) = q.isWaiting layout (.derive u) :=
    rfl
  rw [create, create, hwaiting]
  split
  · rfl
  · rw [hprovision]
    cases q.provision layout (layout.waitingPlace (.derive u)) with
    | none => rfl
    | some r => cases writes <;> rfl

theorem Lists.leave {dir : Location} {pls : List Place} (h : q.Lists dir pls)
    (extra : String → Option Bytes) : (q.leave extra).Lists dir pls :=
  ⟨h.sorted, h.mem⟩

/-- A request is answered alike and does the same, whatever is in the making. -/
theorem Answers.leave {writes : Bool} {store : Store} {request : Request} {reply reply' : Reply}
    {q' q'' : Queue} (h : q.Answers writes store request reply q')
    (h' : (q.leave extra).Answers writes store request reply' q'') :
    reply' = reply ∧ q'' = q'.leave extra := by
  have heach : ∀ {f : Queue → TaskKey → Outcome × Queue} {keys : List TaskKey}
      {summary summary' : Summary} {r r' : Queue}, IsLocal f →
      q.each f keys .empty = (summary, r) → (q.leave extra).each f keys .empty = (summary', r') →
      summary' = summary ∧ r' = r.leave extra := by
    intro f keys summary summary' r r' hf hq hleft
    rw [hf.each_leave, hq] at hleft
    obtain ⟨rfl, rfl⟩ := Prod.mk.inj hleft
    exact ⟨rfl, rfl⟩
  have hlists : ∀ {dir : Location} {pls pls' : List Place}, q.Lists dir pls →
      (q.leave extra).Lists dir pls' → pls' = pls := fun hq hleft =>
    hleft.unique (hq.leave extra)
  cases h with
  | create u =>
    cases h'
    exact ⟨rfl, q.create_leave store.layout writes u extra⟩
  | start p hq =>
    cases h' with
    | start _ hleft => exact (heach (isLocal_start _) hq hleft).imp_left (congrArg _)
  | reset p hq =>
    cases h' with
    | reset _ hleft => exact (heach (isLocal_reset _) hq hleft).imp_left (congrArg _)
  | finish p hq =>
    cases h' with
    | finish _ hleft => exact (heach (isLocal_finish _ _) hq hleft).imp_left (congrArg _)
  | delete u hq =>
    cases h' with
    | delete _ hleft =>
      rw [(isLocal_delete store.layout).leave, hq] at hleft
      obtain ⟨rfl, rfl⟩ := Prod.mk.inj hleft
      exact ⟨rfl, rfl⟩
  | resetAll hpls hq =>
    cases h' with
    | resetAll hpls' hleft =>
      rw [hlists hpls hpls'] at hleft
      exact (heach (isLocal_reset _) hq hleft).imp_left (congrArg _)
  | isWaiting p =>
    cases h'
    exact ⟨rfl, rfl⟩
  | keepFinished keep =>
    cases h'
    exact ⟨rfl, rfl⟩
  | list hpls =>
    cases h' with
    | list hpls' => rw [hlists hpls hpls']; exact ⟨rfl, rfl⟩
  | listWaiting hpls =>
    cases h' with
    | listWaiting hpls' => rw [hlists hpls hpls']; exact ⟨rfl, rfl⟩
  | listRunning hpls =>
    cases h' with
    | listRunning hpls' => rw [hlists hpls hpls']; exact ⟨rfl, rfl⟩
  | listBuilding hpls =>
    cases h' with
    | listBuilding hpls' => rw [hlists hpls hpls']; exact ⟨rfl, rfl⟩

end Queue

/-! ### Names that are drawn -/

/-- What is drawn when does not change. -/
theorem Plan.names_run {α : Type} (p : Plan α) (s : System) : (p.run s).2.names = s.names := by
  induction p generalizing s with
  | done value => rfl
  | call c next ih =>
    have hanswer : (s.answer c).2.names = s.names := by
      have hchange : ∀ r : Except Cause Disk, (s.change r).2.names = s.names := by
        intro r
        cases r <;> rfl
      cases c with
      | createFile path =>
        rw [System.answer]
        split <;> rfl
      | makeDirectory path => exact hchange _
      | rename source target => exact hchange _
      | remove path => exact hchange _
      | overwrite path bytes => exact hchange _
      | _ => rfl
    exact (ih _ _).trans hanswer

/-! ### Sessions -/

/-- A session that stands as another one does, but for these files in the building directory. -/
structure Site.Twins (site : Site) (extra : String → Option Bytes) (s t : Session) : Prop where
  stores : t.stores = s.stores
  cwd : t.system.cwd = s.system.cwd
  made : t.system.disk.get? (site.root ++ ["building"]) = some .directory
  left : ∀ name bytes, extra name = some bytes →
    t.system.disk.get? (site.root ++ ["building", name]) = some (.file bytes)
  same : ∀ l, (∀ name, l = site.root ++ ["building", name] → extra name = none) →
    t.system.disk.get? l = s.system.disk.get? l

/-- The leftovers, under their names in order. -/
structure Leftovers (extra : String → Option Bytes) (names : List String) : Prop where
  sorted : names.Pairwise (· < ·)
  mem : ∀ name, name ∈ names ↔ (extra name).isSome
  plain : ∀ name ∈ names, IsPlain name

theorem leftovers_single {name : String} (hname : IsPlain name) (bytes : Bytes) :
    Leftovers (Function.update (fun _ => none) name (some bytes)) [name] where
  sorted := List.pairwise_singleton ..
  mem other := by
    by_cases heq : other = name
    · simp [heq]
    · simp [heq]
  plain other hother := by
    rwa [List.mem_singleton.1 hother]

/-- A list that tells of files in the making. -/
def Request.ListsBuilding (request : Request) : Prop :=
  request = .list ∨ request = .listBuilding

/-- How the answers of twins to a step compare. -/
structure Session.Echoes (s : Session) (extra : String → Option Bytes) (names : List String)
    (t : Session) (x : Step) : Prop where
  same : (∀ handle request, x = .on handle request → ¬request.ListsBuilding) →
    (t.step x).1 = (s.step x).1
  listed : ∀ handle request store, x = .on handle request → request.ListsBuilding →
    s.stores[handle]? = some store → ∃ us, (s.step x).1 = .updates us ∧
      (t.step x).1 = .updates (names.filterMap (store.layout.builtUpdate? extra) ++ us)

namespace Site

variable {site : Site} {extra : String → Option Bytes} {s t : Session} {q : Queue}

/-- The session with one more file in the building directory. -/
def leave (site : Site) (t : Session) (name : String) (bytes : Bytes) : Session :=
  { t with system := { t.system with
    disk := t.system.disk.put (site.root ++ ["building", name]) (.file bytes) } }

theorem twins_self (hmade : s.system.disk.get? (site.root ++ ["building"]) = some .directory) :
    site.Twins (fun _ => none) s s :=
  ⟨rfl, rfl, hmade, fun _ _ hnone => (nomatch hnone), fun _ _ => rfl⟩

theorem Twins.leave (h : site.Twins extra s t) (name : String) (bytes : Bytes) :
    site.Twins (Function.update extra name (some bytes)) s (site.leave t name bytes) where
  stores := h.stores
  cwd := h.cwd
  made := by
    rw [Site.leave, Disk.get?_put, if_neg (by simp)]
    exact h.made
  left other contents hother := by
    rw [Site.leave, Disk.get?_put]
    by_cases heq : other = name
    · rw [heq, Function.update_self] at hother
      rw [heq, if_pos rfl, Option.some.inj hother]
    · rw [Function.update_of_ne heq] at hother
      rw [if_neg (by simpa using heq)]
      exact h.left other contents hother
  same l hl := by
    have hne : l ≠ site.root ++ ["building", name] := by
      rintro rfl
      have hnone := hl name rfl
      rw [Function.update_self] at hnone
      cases hnone
    rw [Site.leave, Disk.get?_put, if_neg hne]
    refine h.same l fun other hother => ?_
    have hnone := hl other hother
    have hother : other ≠ name := fun heq => hne (heq ▸ hother)
    rwa [Function.update_of_ne hother] at hnone

/-- The twins' disks show the same queue, without and with the leftovers, and a name will be free
for each record. -/
structure Pairs (site : Site) (extra : String → Option Bytes) (s t : Session) (q : Queue) :
    Prop where
  runs : site.Runs s q
  shows : site.Shows q s.system
  left : site.Shows (q.leave extra) t.system
  stores : t.stores = s.stores
  room : ∀ key n, ∃ i < Files.maxDraws,
    extra (temporaryName key (t.system.names (n + i))) = none

theorem Twins.pairs (h : site.Twins extra s t) (hruns : site.Runs s q)
    (hroom : ∀ key n, ∃ i < Files.maxDraws,
      extra (temporaryName key (t.system.names (n + i))) = none) : site.Pairs extra s t q := by
  have hshows : site.Shows q s.system := by
    rcases hruns.shows with hshows | ⟨hbare, -, -⟩
    · exact hshows
    · have hmade := h.made
      rw [h.same _ (by simp), hbare.disk, site.get?_root] at hmade
      cases hmade
  refine ⟨hruns, hshows, ⟨h.cwd.trans hshows.cwd, fun names => ?_, fun l hl => ?_, hshows.housed⟩,
    h.stores, hroom⟩
  · rw [q.get?_leave]
    cases hbuilt : Queue.builtName? names with
    | none =>
      rw [h.same _ fun name hname => ?_, hshows.inside]
      rw [List.append_cancel_left hname, Queue.builtName?_eq_some_iff.2 rfl] at hbuilt
      cases hbuilt
    | some name =>
      rw [Queue.builtName?_eq_some_iff] at hbuilt
      subst hbuilt
      dsimp only
      cases hextra : extra name with
      | some bytes => rw [h.left name bytes hextra, Option.map_some]
      | none =>
        rw [h.same _ fun other hother => ?_, hshows.inside, q.get?_building, hruns.built]
        · have hnames := List.append_cancel_left hother
          simp only [List.cons.injEq, and_true, true_and] at hnames
          rwa [← hnames]
  · rw [h.same l fun name hname => absurd (hname ▸ List.prefix_append _ _) hl]
    exact hshows.outside l hl

namespace Pairs

theorem twins (h : site.Pairs extra s t q) : site.Twins extra s t where
  stores := h.stores
  cwd := h.left.cwd.trans h.shows.cwd.symm
  made := h.left.get?_state (.inl rfl)
  left name bytes hextra := by
    rw [h.left.inside, (q.leave extra).get?_building]
    show (extra name).map Entry.file = _
    rw [hextra]
    rfl
  same l hl := by
    by_cases hroot : site.root <+: l
    · obtain ⟨names, rfl⟩ := hroot
      rw [h.left.inside, h.shows.inside, q.get?_leave]
      cases hbuilt : Queue.builtName? names with
      | none => rfl
      | some name =>
        rw [Queue.builtName?_eq_some_iff] at hbuilt
        subst hbuilt
        dsimp only
        rw [hl name rfl, q.get?_building, h.runs.built]
    · rw [h.left.outside l hroot, h.shows.outside l hroot]

theorem hasRoom (h : site.Pairs extra s t q) (key : TaskKey) :
    (q.leave extra).HasRoom key t.system :=
  h.room key t.system.drawn

/-- Opening a store. -/
theorem step_open (h : site.Pairs extra s t q) {layout : Layout} (ho : site.Opens layout) :
    (t.step (.open layout)).1 = (s.step (.open layout)).1 ∧
      site.Pairs extra (s.step (.open layout)).2 (t.step (.open layout)).2 q := by
  cases hlong : layout.building.isTooLong with
  | true =>
    rw [ho.step_open hlong, ho.step_open hlong]
    exact ⟨rfl, h⟩
  | false =>
    have hs : site.Serves layout := ⟨ho, hlong⟩
    have hopen : ∀ {r : Session} {q : Queue}, site.Shows q r.system → r.step (.open layout) =
        (.done, ⟨{ r.system with log := r.system.log ++ [.opened layout] },
          r.stores ++ [⟨layout, false⟩]⟩) := by
      intro r q hr
      rw [Session.step, hr.run_ofLayout hs]
    have hruns := h.runs.step_opened ho
    rw [hopen h.left, hopen h.shows]
    rw [hopen h.shows] at hruns
    exact ⟨rfl, hruns, h.shows.congr rfl rfl, h.left.congr rfl rfl, by rw [h.stores], h.room⟩

/-- A request that lists nothing in the making. -/
theorem step_on (h : site.Pairs extra s t q) (handle : Nat) {request : Request}
    (hlists : ¬request.ListsBuilding) :
    (t.step (.on handle request)).1 = (s.step (.on handle request)).1 ∧
      ∃ q', site.Pairs extra (s.step (.on handle request)).2
        (t.step (.on handle request)).2 q' := by
  cases hstore : s.stores[handle]? with
  | none =>
    rw [Session.step, Session.step, h.stores, hstore]
    exact ⟨rfl, q, h⟩
  | some store =>
    have hs := h.runs.serves_of_store hstore
    obtain ⟨q', hanswers, hshows⟩ := h.shows.run_request h.runs.built hs request
    obtain ⟨q'', hanswers', hleft⟩ := h.left.run_request_of_room hs request
      (fun u _ => h.hasRoom (.derive u)) fun hlist => absurd hlist hlists
    obtain ⟨hreply, rfl⟩ := hanswers.leave hanswers'
    obtain ⟨running, hacts⟩ := hanswers.acts
    have hnames := (request.plan store).names_run t.system
    have hserves := request.forall_set h.runs.serves (List.mem_of_getElem? hstore) handle
    rw [Session.step, Session.step, h.stores, hstore]
    refine ⟨hreply, q', ⟨⟨hserves, .inl hshows⟩, fun name => ?_⟩, hshows, hleft, rfl, ?_⟩
    · rw [hacts, q.building_after]
      exact h.runs.built name
    · dsimp only
      rw [hnames]
      exact h.room

/-- A request that lists what is in the making: the complete records among the leftovers come
first. -/
theorem step_list (h : site.Pairs extra s t q) {handle : Nat} {store : Store}
    (hstore : s.stores[handle]? = some store) {request : Request} (hlists : request.ListsBuilding)
    {names : List String} (hnames : Leftovers extra names) :
    site.Pairs extra (s.step (.on handle request)).2 (t.step (.on handle request)).2 q ∧
      ∃ us, (s.step (.on handle request)).1 = .updates us ∧
        (t.step (.on handle request)).1 =
          .updates (names.filterMap (store.layout.builtUpdate? extra) ++ us) := by
  have hs := h.runs.serves_of_store hstore
  obtain ⟨dir, hdir, hwhere, hbelow⟩ : ∃ dir, request.directory? = some dir ∧
      (dir = [] ∨ ∃ state, IsState state ∧ dir = [state]) ∧
      ∀ name, dir <+: ["building", name] := by
    rcases hlists with rfl | rfl
    · exact ⟨[], rfl, .inl rfl, fun _ => List.nil_prefix⟩
    · exact ⟨["building"], rfl, .inr ⟨"building", .inl rfl, rfl⟩, fun name => ⟨[name], rfl⟩⟩
  have hplan : request.plan store =
      do return .updates (← store.listBelow (store.layout.directoryAt dir)) := by
    rcases hlists with rfl | rfl
    · rw [Request.plan, store.list_eq, Option.some.inj hdir]
    · rw [Request.plan, store.listBuilding_eq, Option.some.inj hdir]
  obtain ⟨pls, log, hpls, hrun⟩ := h.shows.run_listBelow hs hwhere fun name _ => h.runs.built name
  obtain ⟨names', pls', log', hbuilt, hpls', hrun'⟩ := h.left.run_listBelow_all hs hwhere
    fun name _ hsome => hnames.plain name ((hnames.mem name).2 hsome)
  obtain rfl := (hpls.leave extra).unique hpls'
  obtain rfl : names' = names := hbuilt.sorted.eq_of_mem_iff hnames.sorted fun name =>
    (hbuilt.mem name).trans ((and_iff_right (hbelow name)).trans (hnames.mem name).symm)
  have hserves := request.forall_set h.runs.serves (List.mem_of_getElem? hstore) handle
  rw [Session.step, Session.step, h.stores, hstore]
  dsimp only
  rw [hplan, Plan.run_reply, Plan.run_reply, hrun, hrun']
  exact ⟨⟨⟨⟨hserves, .inl (h.shows.congr rfl rfl)⟩, h.runs.built⟩, h.shows.congr rfl rfl,
    h.left.congr rfl rfl, rfl, h.room⟩, _, rfl, rfl⟩

theorem step (h : site.Pairs extra s t q) {names : List String} (hnames : Leftovers extra names)
    {x : Step} (hopen : ∀ layout, x = .open layout → site.Opens layout) :
    s.Echoes extra names t x ∧ ∃ q', site.Pairs extra (s.step x).2 (t.step x).2 q' := by
  cases x with
  | «open» layout =>
    obtain ⟨hsame, hpairs⟩ := h.step_open (hopen layout rfl)
    exact ⟨⟨fun _ => hsame, fun _ _ _ hx => nomatch hx⟩, q, hpairs⟩
  | on handle request =>
    by_cases hlists : request.ListsBuilding
    · have hlisted : ∀ store, s.stores[handle]? = some store → _ := fun store hstore =>
        h.step_list hstore hlists hnames
      refine ⟨⟨fun hno => absurd hlists (hno handle request rfl), ?_⟩, ?_⟩
      · rintro _ _ store hx - hstore
        obtain ⟨rfl, rfl⟩ := Step.on.inj hx
        exact (hlisted store hstore).2
      · cases hstore : s.stores[handle]? with
        | none =>
          rw [Session.step, Session.step, h.stores, hstore]
          exact ⟨q, h⟩
        | some store => exact ⟨q, (hlisted store hstore).1⟩
    · obtain ⟨hsame, hpairs⟩ := h.step_on handle hlists
      refine ⟨⟨fun _ => hsame, ?_⟩, hpairs⟩
      rintro _ _ _ hx hlist -
      obtain ⟨rfl, rfl⟩ := Step.on.inj hx
      exact absurd hlist hlists

theorem run (h : site.Pairs extra s t q) {names : List String} (hnames : Leftovers extra names)
    (steps : List Step) (hopen : ∀ layout, .open layout ∈ steps → site.Opens layout) :
    (∃ q', site.Pairs extra (s.run steps).2 (t.run steps).2 q') ∧
      ((∀ handle request, .on handle request ∈ steps → ¬request.ListsBuilding) →
        (t.run steps).1 = (s.run steps).1) := by
  induction steps generalizing s t q with
  | nil => exact ⟨⟨q, h⟩, fun _ => rfl⟩
  | cons x rest ih =>
    obtain ⟨hanswered, q', hpairs⟩ := h.step hnames (x := x) fun layout hx =>
      hopen layout (by simp [hx])
    obtain ⟨hend, hsame⟩ := ih hpairs fun layout hl => hopen layout (List.mem_cons_of_mem x hl)
    refine ⟨hend, fun hno => congrArg₂ _ ?_ ?_⟩
    · exact hanswered.same fun handle request hx => hno handle request (by simp [hx])
    · exact hsame fun handle request hr => hno handle request (List.mem_cons_of_mem x hr)

end Pairs

end Site

namespace Session

/-- Files that were left in the building directory do not change what stores of any layouts do and
answer, and stay as they are. Only where files in the making are listed do they show: those that are
complete records, unless their path is too long, come before all else. -/
theorem leftovers_inert (site : Site) (s : Session) (hbare : site.IsBareIn s.system)
    (hstores : s.stores = []) (steps : List Step)
    (hopen : ∀ layout, .open layout ∈ steps → site.Opens layout) (extra : String → Option Bytes)
    (names : List String) (hnames : Leftovers extra names) (t : Session)
    (htwins : site.Twins extra (s.run steps).2 t)
    (hfree : ∀ key n, ∃ i < Files.maxDraws,
      extra (temporaryName key (t.system.names (n + i))) = none)
    (further : List Step) (hopen' : ∀ layout, .open layout ∈ further → site.Opens layout) :
    site.Twins extra ((s.run steps).2.run further).2 (t.run further).2 ∧
      ((∀ handle request, .on handle request ∈ further → ¬request.ListsBuilding) →
        (t.run further).1 = ((s.run steps).2.run further).1) ∧
      ∀ x, (∀ layout, x = .open layout → site.Opens layout) →
        ((s.run steps).2.run further).2.Echoes extra names (t.run further).2 x := by
  obtain ⟨q, hruns, -⟩ :=
    holds_run (Site.runs_bare hbare hstores) (Queue.holds_fresh _) steps hopen fun _ hu => hu
  obtain ⟨⟨q', hpairs⟩, hsame⟩ := (htwins.pairs hruns hfree).run hnames further hopen'
  exact ⟨hpairs.twins, hsame, fun x hx => (hpairs.step hnames hx).1⟩

/-- A record that was left under a short name does not stand in the way of any draw. -/
theorem free_of_short {name : String} (hname : name.utf8ByteSize < 46) (bytes : Bytes)
    (key : TaskKey) (part : NamePart) :
    Function.update (fun _ => none) name (some bytes) (temporaryName key part) = none := by
  refine Function.update_of_ne (fun heq => ?_) _ _
  rw [← heq, utf8ByteSize_temporaryName] at hname
  omega

/-- A session in which a store was opened on the empty disk, and its twin with a record left. -/
theorem twins_opened {n : Nat} {w : WaitingLayout} (h : 2 * n + 22 ≤ maxPathBytes) (u : Update) :
    Site.blank.Twins (Function.update (fun _ => none) "x" (some u.record))
      (opened (Site.layoutHere n w))
      (Site.blank.leave (opened (Site.layoutHere n w)) "x" u.record) := by
  obtain ⟨hstores, hruns⟩ := runs_opened (w := w) h
  have hshows : Site.blank.Shows .fresh (opened (Site.layoutHere n w)).system :=
    hruns.shows_of_mem (by rw [hstores]; exact List.mem_singleton_self _)
  exact (Site.twins_self (hshows.get?_state (.inl rfl))).leave "x" u.record

theorem leftovers_inert_record :
    Leftovers (Function.update (fun _ => none) "x"
        (some (Update.record ⟨"p", "a", "https://h/p", "h"⟩))) ["x"] ∧
      Site.blank.Twins (Function.update (fun _ => none) "x"
          (some (Update.record ⟨"p", "a", "https://h/p", "h"⟩)))
        (blank.run [.open (Site.layoutHere 0 .flat)]).2
        (Site.blank.leave (blank.run [.open (Site.layoutHere 0 .flat)]).2 "x"
          (Update.record ⟨"p", "a", "https://h/p", "h"⟩)) ∧
      ∃ us, (((blank.run [.open (Site.layoutHere 0 .flat)]).2.run
            [.on 0 (.create ⟨"p", "b", "https://h/p", "h"⟩)]).2.step (.on 0 .list)).1 =
          .updates us ∧
        (((Site.blank.leave (blank.run [.open (Site.layoutHere 0 .flat)]).2 "x"
            (Update.record ⟨"p", "a", "https://h/p", "h"⟩)).run
              [.on 0 (.create ⟨"p", "b", "https://h/p", "h"⟩)]).2.step (.on 0 .list)).1 =
          .updates (⟨"p", "a", "https://h/p", "h"⟩ :: us) := by
  generalize (⟨"p", "a", "https://h/p", "h"⟩ : Update) = u
  generalize (⟨"p", "b", "https://h/p", "h"⟩ : Update) = v
  have hnames := leftovers_single isPlain_x u.record
  have htwins := twins_opened (n := 0) (w := .flat) (by decide) u
  have hshares := (shares_blank.step_open (serves_blank .flat)).step_create 0 rfl v
  have hstore : ((blank.run [.open (Site.layoutHere 0 .flat)]).2.run
      [.on 0 (.create v)]).2.stores[0]? = some ⟨Site.layoutHere 0 .flat, false⟩ := by
    rw [run_cons_snd, run_cons_snd, run_nil_snd, run_nil_snd]
    exact hshares.getElem?_stores 0 rfl
  have hfits : ((Site.layoutHere 0 .flat).building.join "x").isTooLong = false := by
    unfold Path.isTooLong
    decide
  have hbuilt : ["x"].filterMap ((Site.layoutHere 0 .flat).builtUpdate?
      (Function.update (fun _ => none) "x" (some u.record))) = [u] := by
    rw [List.filterMap_cons, List.filterMap_nil, Layout.builtUpdate?, hfits, Function.update_self]
    simp [Update.parse_record, Except.toOption]
  obtain ⟨-, -, hnext⟩ := leftovers_inert .blank blank isBareIn_blank rfl
    [.open (Site.layoutHere 0 .flat)] (by simp [opens_blank]) _ ["x"] hnames _ htwins
    (fun key n => ⟨0, by decide, free_of_short (by decide) u.record key _⟩)
    [.on 0 (.create v)] (by simp)
  obtain ⟨us, hs, ht⟩ := (hnext (.on 0 .list) (by simp)).listed 0 .list _ rfl
    (.inl rfl) hstore
  rw [hbuilt] at ht
  exact ⟨hnames, htwins, us, hs, ht⟩

theorem list_unreached {site : Site} {name : String} {u : Update} {s t : Session} {store : Store}
    (hruns : site.Runs s .fresh)
    (htwins : site.Twins (Function.update (fun _ => none) name (some u.record)) s t)
    (hplain : IsPlain name) (hname : name.utf8ByteSize < 46) {handle : Nat}
    (hstore : s.stores[handle]? = some store)
    (hlong : (store.layout.building.join name).isTooLong = true) :
    (t.step (.on handle .list)).1 = .updates [] := by
  have hpairs := htwins.pairs hruns fun key n =>
    ⟨0, by decide, free_of_short hname u.record key _⟩
  obtain ⟨-, us, hs, ht⟩ := hpairs.step_list hstore (.inl rfl) (leftovers_single hplain u.record)
  have hus : us = [] := by
    obtain ⟨q', system, -, hanswers, -⟩ := hruns.step_on_store hstore .list
    rw [hs] at hanswers
    cases hanswers with
    | list hpls => exact List.filterMap_none _
  rwa [List.filterMap_cons, List.filterMap_nil, Layout.builtUpdate?, if_pos hlong, hus] at ht

/-- A complete record in the building directory does not show where its path is too long. -/
theorem leftover_unlisted_long :
    Site.blank.Twins (Function.update (fun _ => none) "x"
        (some (Update.record ⟨"p", "a", "https://h/p", "h"⟩)))
      (opened (Site.layoutHere 2036 .flat))
      (Site.blank.leave (opened (Site.layoutHere 2036 .flat)) "x"
        (Update.record ⟨"p", "a", "https://h/p", "h"⟩)) ∧
      Update.parse (Update.record ⟨"p", "a", "https://h/p", "h"⟩) =
        .ok ⟨"p", "a", "https://h/p", "h"⟩ ∧
      ((Site.blank.leave (opened (Site.layoutHere 2036 .flat)) "x"
        (Update.record ⟨"p", "a", "https://h/p", "h"⟩)).step (.on 0 .list)).1 = .updates [] := by
  generalize (⟨"p", "a", "https://h/p", "h"⟩ : Update) = u
  have htwins := twins_opened (n := 2036) (w := .flat) (by decide) u
  obtain ⟨hstores, hruns⟩ := runs_opened (n := 2036) (w := .flat) (by decide)
  have hstore : (opened (Site.layoutHere 2036 .flat)).stores[0]? =
      some ⟨Site.layoutHere 2036 .flat, false⟩ := by
    rw [hstores]
    rfl
  have hlong : ((Site.layoutHere 2036 .flat).building.join "x").isTooLong = true := by
    have hsize := (Site.layoutHere 2036 .flat).utf8ByteSize_join_building isPlain_x
    rw [Site.utf8ByteSize_refUpdates_here] at hsize
    unfold Path.isTooLong
    rw [hsize]
    decide
  exact ⟨htwins, u.parse_record, list_unreached hruns htwins isPlain_x (by decide) hstore hlong⟩

end Session

end ReplicationQueue
