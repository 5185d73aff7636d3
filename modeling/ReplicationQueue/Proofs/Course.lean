import ReplicationQueue.Proofs.Deed

/-! The course of a session. Each step is told by acts on the queue that the disk shows, so what
the acts of a step keep is kept by a whole session. -/

namespace ReplicationQueue

attribute [local irreducible] Path.isTooLong

namespace Session

/-- What a step does to each task. -/
def deedsIn (s : Session) : Step → List Deed
  | .open _ => []
  | .on handle request =>
    match s.stores[handle]? with
    | none => []
    | some store => ((request.deeds store).run s.system).1

/-- What is done to each task, in order. -/
def deeds : Session → List Step → List Deed
  | _, [] => []
  | s, x :: rest => s.deedsIn x ++ deeds (s.step x).2 rest

theorem run_nil_snd (s : Session) : (s.run []).2 = s := rfl

theorem run_cons_snd (s : Session) (x : Step) (rest : List Step) :
    (s.run (x :: rest)).2 = ((s.step x).2.run rest).2 := rfl

/-! ### Times and steps -/

/-- At every time of the session. -/
def Always (P : System → Prop) (s : Session) (steps : List Step) : Prop :=
  ∀ done, done <+: steps → P (s.run done).2.system

/-- Each step is such where it is made. -/
def Each (P : Session → Step → Prop) (s : Session) (steps : List Step) : Prop :=
  ∀ done x, done ++ [x] <+: steps → P (s.run done).2 x

section Times

variable {P : System → Prop} {Q : Session → Step → Prop} {s : Session} {x : Step}
  {steps rest : List Step}

theorem always_nil : s.Always P [] ↔ P s.system := by
  constructor
  · exact fun h => h [] (List.prefix_refl [])
  · intro h done hdone
    rw [List.prefix_nil.1 hdone]
    exact h

theorem always_cons : s.Always P (x :: rest) ↔ P s.system ∧ (s.step x).2.Always P rest := by
  constructor
  · exact fun h => ⟨h [] List.nil_prefix,
      fun done hdone => h (x :: done) (List.cons_prefix_cons.2 ⟨rfl, hdone⟩)⟩
  · rintro ⟨hnow, hrest⟩ done hdone
    cases done with
    | nil => exact hnow
    | cons y done =>
      obtain ⟨rfl, htail⟩ := List.cons_prefix_cons.1 hdone
      exact hrest done htail

theorem always_append {xs ys : List Step} :
    s.Always P (xs ++ ys) ↔ s.Always P xs ∧ (s.run xs).2.Always P ys := by
  induction xs generalizing s with
  | nil =>
    rw [List.nil_append, always_nil]
    exact (and_iff_right_of_imp fun h => h [] List.nil_prefix).symm
  | cons y xs ih =>
    rw [List.cons_append, always_cons, always_cons, ih, and_assoc]
    rfl

theorem each_nil : s.Each Q [] := by
  intro done y hdone
  simp at hdone

theorem each_cons : s.Each Q (x :: rest) ↔ Q s x ∧ (s.step x).2.Each Q rest := by
  constructor
  · exact fun h => ⟨h [] x (List.cons_prefix_cons.2 ⟨rfl, List.nil_prefix⟩),
      fun done y hdone => h (x :: done) y (List.cons_prefix_cons.2 ⟨rfl, hdone⟩)⟩
  · rintro ⟨hnow, hrest⟩ done y hdone
    cases done with
    | nil =>
      obtain ⟨rfl, -⟩ := List.cons_prefix_cons.1 hdone
      exact hnow
    | cons z done =>
      obtain ⟨rfl, htail⟩ := List.cons_prefix_cons.1 hdone
      exact hrest done y htail

theorem Each.of_prefix (h : s.Each Q steps) {done : List Step} (hdone : done <+: steps) :
    s.Each Q done :=
  fun before y hy => h before y (hy.trans hdone)

theorem each_append {xs ys : List Step} :
    s.Each Q (xs ++ ys) ↔ s.Each Q xs ∧ (s.run xs).2.Each Q ys := by
  induction xs generalizing s with
  | nil => exact (and_iff_right each_nil).symm
  | cons y xs ih =>
    rw [List.cons_append, each_cons, each_cons, ih, and_assoc]
    rfl

end Times

end Session

/-! ### Steps as acts -/

/-- The acts that a step is told by. -/
inductive Step.Told (site : Site) (s : Session) : Step → List Queue.Act → Prop where
  | opened (layout : Layout) : Told site s (.open layout) []
  | ignored {handle : Nat} (hnone : s.stores[handle]? = none) (request : Request) :
      Told site s (.on handle request) []
  | asked {handle : Nat} {store : Store} (hstore : s.stores[handle]? = some store)
      (request : Request) (running : List TaskKey) :
      Told site s (.on handle request) (request.acts store (site.writes store.layout) running)

namespace Site.Runs

variable {site : Site} {s : Session} {q : Queue}

theorem step_request (h : site.Runs s q) {handle : Nat} {store : Store}
    (hstore : s.stores[handle]? = some store) (request : Request) :
    ∃ running, s.deedsIn (.on handle request) =
        q.deeds (request.acts store (site.writes store.layout) running) ∧
      site.Runs (s.step (.on handle request)).2
        (q.after (request.acts store (site.writes store.layout) running)) := by
  have hmem := List.mem_of_getElem? hstore
  obtain ⟨running, hdeeds, hshows⟩ :=
    (h.shows_of_store hstore).run_request_deeds h.built (h.serves store hmem) request
  have hstep : (s.step (.on handle request)).2 =
      ⟨((request.deeds store).run s.system).2, s.stores.set handle (request.next store)⟩ := by
    rw [(request.run_deeds store s.system).1, Session.step, hstore]
  refine ⟨running, ?_, ?_⟩
  · rw [Session.deedsIn, hstore]
    exact hdeeds
  · rw [hstep]
    have hserves := request.forall_set h.serves hmem handle
    refine ⟨⟨hserves, .inl hshows⟩, fun name => ?_⟩
    rw [q.building_after]
    exact h.built name

theorem step_opened (h : site.Runs s q) {layout : Layout} (ho : site.Opens layout) :
    site.Runs (s.step (.open layout)).2 q := by
  cases hlong : layout.building.isTooLong with
  | true =>
    rw [ho.step_open hlong]
    exact h
  | false =>
    obtain ⟨system, hstep, hruns⟩ := h.step_open ⟨ho, hlong⟩
    rw [hstep]
    exact hruns

/-- Whatever is asked, a step is told by acts. -/
theorem step_told (h : site.Runs s q) (x : Step)
    (hopen : ∀ layout, x = .open layout → site.Opens layout) :
    ∃ acts, x.Told site s acts ∧ s.deedsIn x = q.deeds acts ∧
      site.Runs (s.step x).2 (q.after acts) := by
  cases x with
  | «open» layout => exact ⟨[], .opened layout, rfl, h.step_opened (hopen layout rfl)⟩
  | on handle request =>
    cases hstore : s.stores[handle]? with
    | none =>
      refine ⟨[], .ignored hstore request, ?_, ?_⟩
      · rw [Session.deedsIn, hstore]
        rfl
      · rw [Session.step, hstore]
        exact h
    | some store =>
      obtain ⟨running, hdeeds, hruns⟩ := h.step_request hstore request
      exact ⟨_, .asked hstore request running, hdeeds, hruns⟩

/-- What the acts of each step keep holds after every session. -/
theorem run_keeps {I : Queue → Prop} {P : Session → Step → Prop} (h : site.Runs s q) (hI : I q)
    (hkeeps : ∀ {s q x acts}, site.Runs s q → I q → P s x → x.Told site s acts →
      s.deedsIn x = q.deeds acts → I (q.after acts))
    (steps : List Step) (hopen : ∀ layout, .open layout ∈ steps → site.Opens layout)
    (heach : s.Each P steps) : ∃ q', site.Runs (s.run steps).2 q' ∧ I q' := by
  induction steps generalizing s q with
  | nil => exact ⟨q, h, hI⟩
  | cons x rest ih =>
    obtain ⟨hx, hrest⟩ := Session.each_cons.1 heach
    obtain ⟨acts, htold, hdeeds, hruns⟩ := h.step_told x fun layout hl => hopen layout (by simp [hl])
    exact ih hruns (hkeeps h hI hx htold hdeeds)
      (fun layout hl => hopen layout (List.mem_cons_of_mem x hl)) hrest

end Site.Runs

/-- A store that is there answers. -/
theorem Site.Runs.step_on_store {site : Site} {s : Session} {q : Queue} (h : site.Runs s q)
    {handle : Nat} {store : Store} (hstore : s.stores[handle]? = some store) (request : Request) :
    ∃ q' system, (s.step (.on handle request)).2 =
        ⟨system, s.stores.set handle (request.next store)⟩ ∧
      q.Answers (site.writes store.layout) store request (s.step (.on handle request)).1 q' ∧
      site.Runs ⟨system, s.stores.set handle (request.next store)⟩ q' := by
  rcases h.step_on handle request with ⟨hnone, -⟩ | ⟨other, q', system, hother, hstep⟩
  · rw [hstore] at hnone
    cases hnone
  · rw [hstore] at hother
    cases hother
    exact ⟨q', system, hstep⟩

/-! ### Stores that share a queue -/

/-- The stores of a session, and the queue that they share. -/
structure Site.Shares (site : Site) (s : Session) (stores : List Store) (q : Queue) : Prop where
  runs : site.Runs s q
  stores_eq : s.stores = stores

namespace Site.Shares

variable {site : Site} {s : Session} {stores : List Store} {q : Queue}

theorem step_open (h : site.Shares s stores q) {layout : Layout} (hs : site.Serves layout) :
    site.Shares (s.step (.open layout)).2 (stores ++ [⟨layout, false⟩]) q := by
  obtain ⟨system, hstep, hruns⟩ := h.runs.step_open hs
  rw [hstep]
  exact ⟨hruns, by rw [h.stores_eq]⟩

theorem getElem?_stores (h : site.Shares s stores q) (handle : Nat) {store : Store}
    (hstore : stores[handle]? = some store) : s.stores[handle]? = some store := by
  rw [h.stores_eq, hstore]

section Requests

variable {store : Store}

theorem step_on (h : site.Shares s stores q) (handle : Nat)
    (hstore : stores[handle]? = some store) (request : Request) (hnext : request.next store = store) :
    ∃ running, site.Shares (s.step (.on handle request)).2 stores
      (q.after (request.acts store (site.writes store.layout) running)) := by
  obtain ⟨q', system, hstep, ha, hq'⟩ :=
    h.runs.step_on_store (h.getElem?_stores handle hstore) request
  obtain ⟨running, rfl⟩ := ha.acts
  obtain ⟨hlt, hget⟩ := List.getElem?_eq_some_iff.1 hstore
  have hset : stores.set handle store = stores := by
    rw [← hget]
    exact List.set_getElem_self hlt
  rw [hstep, hnext, h.stores_eq, hset]
  rw [hnext, h.stores_eq, hset] at hq'
  exact ⟨running, hq', rfl⟩

theorem step_create (h : site.Shares s stores q) (handle : Nat)
    (hstore : stores[handle]? = some store) (u : Update) :
    site.Shares (s.step (.on handle (.create u))).2 stores
      (q.create store.layout (site.writes store.layout) u) := by
  obtain ⟨_, hshares⟩ := h.step_on handle hstore (.create u) rfl
  exact hshares

theorem step_delete (h : site.Shares s stores q) (handle : Nat)
    (hstore : stores[handle]? = some store) (u : Update) :
    site.Shares (s.step (.on handle (.delete u))).2 stores
      (q.delete store.layout (.derive u)).2 := by
  obtain ⟨_, hshares⟩ := h.step_on handle hstore (.delete u) rfl
  exact hshares

variable {p : Push} {key : TaskKey}

theorem step_start (h : site.Shares s stores q) (handle : Nat)
    (hstore : stores[handle]? = some store) (hkeys : p.keys = [key]) :
    site.Shares (s.step (.on handle (.start p))).2 stores (q.start store.layout key).2 := by
  obtain ⟨_, hshares⟩ := h.step_on handle hstore (.start p) rfl
  rw [Request.acts, hkeys] at hshares
  exact hshares

theorem step_reset (h : site.Shares s stores q) (handle : Nat)
    (hstore : stores[handle]? = some store) (hkeys : p.keys = [key]) :
    site.Shares (s.step (.on handle (.reset p))).2 stores (q.reset store.layout key).2 := by
  obtain ⟨_, hshares⟩ := h.step_on handle hstore (.reset p) rfl
  rw [Request.acts, hkeys] at hshares
  exact hshares

end Requests

end Site.Shares

end ReplicationQueue
