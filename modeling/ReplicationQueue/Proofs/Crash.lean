import ReplicationQueue.Proofs.Blank
import ReplicationQueue.Proofs.Interruption

/-! Crashes. Any request may be stopped at any of its calls, and other requests may follow. The
tasks are then as after the first of the request's updates, each with a complete record, and a
request to queue an update can be made again. -/

namespace ReplicationQueue

attribute [local irreducible] Path.isTooLong

/-- Besides what `done` has, `left` has empty directories and, at most, the file `made`. -/
structure Adds (done left : Location → Option Entry) (made : Location) : Prop where
  kept : ∀ l e, done l = some e → left l = some e
  added : ∀ l e, left l = some e → done l = none →
    l = made ∧ (∃ bytes, e = .file bytes) ∨
      e = .directory ∧ ∀ n rest, left (l ++ n :: rest) = none

namespace Queue

variable {q q' left : Queue} {layout : Layout} {u : Update}

/-! ### What remains -/

theorem get?_below_shard {shard : String}
    (h : ∀ key : TaskKey, key.shard = shard → q.files (.sharded key) = none) (n : String)
    (rest : Location) : q.get? (["waiting", shard] ++ n :: rest) = none := by
  unfold get?
  cases hplace : Place.ofNames? (["waiting", shard] ++ n :: rest) with
  | none => simp [frame?, isDirectory]
  | some pl =>
    rw [Place.ofNames?_eq_some_iff] at hplace
    cases pl with
    | running key => simp [Place.names, Place.directory] at hplace
    | flat key => simp [Place.names, Place.directory] at hplace
    | sharded key =>
      have hshard : key.shard = shard := by
        simp only [Place.names, Place.directory, List.cons_append, List.nil_append,
          List.cons.injEq] at hplace
        exact hplace.2.1
      simp only [h key hshard, Option.map_none]

theorem Remains.isDirectory (h : q.Remains left) {names : Location}
    (hnames : q.isDirectory names = true) : left.isDirectory names = true := by
  unfold Queue.isDirectory at hnames ⊢
  split at hnames
  · rfl
  · exact hnames
  · rename_i state shard
    rw [Bool.and_eq_true] at hnames ⊢
    exact ⟨hnames.1, h.shards shard hnames.2⟩
  · cases hnames

/-- A directory that is more than the queue has is that of a shard without records. -/
theorem Remains.below_directory (h : q.Remains left)
    (hhoused : ∀ pl, (q.files pl).isSome → q.Houses pl) {names : Location}
    (hleft : left.isDirectory names = true) (hq : q.isDirectory names = false) (n : String)
    (rest : Location) : left.get? (names ++ n :: rest) = none := by
  unfold Queue.isDirectory at hleft hq
  split at hleft
  · cases hq
  · cases hleft.symm.trans hq
  · rename_i state shard
    rw [Bool.and_eq_true, decide_eq_true_eq] at hleft
    obtain ⟨rfl, -⟩ := hleft
    have hshard : q.shards shard = false := by simpa using hq
    refine get?_below_shard (fun key hkey => ?_) n rest
    rw [h.files, ← Option.not_isSome_iff_eq_none]
    intro hfile
    have hthere : q.shards key.shard = true := by
      simpa [Houses, Place.directory, Queue.isDirectory] using hhoused _ hfile
    rw [hkey, hshard] at hthere
    cases hthere
  · cases hleft

/-- What is in the making is what was, and one file more at most. -/
theorem Remains.made (h : q.Remains left) :
    ∃ name, (∀ other bytes, q.building other = some bytes → left.building other = some bytes) ∧
      ∀ other bytes, left.building other = some bytes → q.building other = none →
        other = name := by
  rcases h.building with hsame | ⟨name, made, hfree, hmore⟩
  · refine ⟨"", fun other bytes => by rw [hsame]; exact id, fun other bytes hleft hq => ?_⟩
    rw [hsame, hq] at hleft
    cases hleft
  · refine ⟨name, fun other bytes hq => ?_, fun other bytes hleft hq => ?_⟩
    · have hother : other ≠ name := by
        rintro rfl
        rw [hfree] at hq
        cases hq
      rw [hmore, Function.update_of_ne hother, hq]
    · by_contra hother
      rw [hmore, Function.update_of_ne hother, hq] at hleft
      cases hleft

theorem Remains.adds (h : q.Remains left) (hhoused : ∀ pl, (q.files pl).isSome → q.Houses pl) :
    ∃ name, Adds q.get? left.get? ["building", name] := by
  obtain ⟨name, hkept, hadded⟩ := h.made
  refine ⟨name, fun l e he => ?_, fun l e he hnone => ?_⟩
  · rcases q.get?_cases l with hq | hq | ⟨bytes, hq⟩
    · rw [hq] at he
      cases he
    · rw [← he, hq]
      rw [get?_eq_directory_iff] at hq ⊢
      exact ⟨hq.1, h.isDirectory hq.2⟩
    · rw [← he, hq]
      rw [get?_eq_file_iff] at hq ⊢
      rw [h.files]
      exact hq.imp_right fun ⟨other, hl, hbuilt⟩ => ⟨other, hl, hkept other bytes hbuilt⟩
  · rcases left.get?_cases l with hleft | hleft | ⟨bytes, hleft⟩
    · rw [hleft] at he
      cases he
    · obtain rfl := Option.some.inj (hleft.symm.trans he)
      rw [get?_eq_directory_iff] at hleft
      have hq : q.isDirectory l = false := by
        rw [← Bool.not_eq_true]
        intro hq
        rw [get?_eq_directory_iff.2 ⟨hleft.1, hq⟩] at hnone
        cases hnone
      exact .inr ⟨rfl, h.below_directory hhoused hleft.2 hq⟩
    · obtain rfl := Option.some.inj (hleft.symm.trans he)
      rw [get?_eq_file_iff, h.files] at hleft
      rcases hleft with hplace | ⟨other, rfl, hbuilt⟩
      · rw [get?_eq_file_iff.2 (.inl hplace)] at hnone
        cases hnone
      · rw [q.get?_building, Option.map_eq_none_iff] at hnone
        rw [hadded other bytes hbuilt hnone]
        exact .inl ⟨rfl, bytes, rfl⟩

/-! ### Queueing again -/

theorem isWaiting_congr (h : q.files = q'.files) (key : TaskKey) :
    q.isWaiting layout key = q'.isWaiting layout key := by
  unfold isWaiting finds
  rw [h]

theorem files_create_false (q : Queue) (layout : Layout) (u : Update) :
    (q.create layout false u).files = q.files := by
  rcases (q.create_cases layout false u).2 with hfiles | ⟨hwrites, -, -⟩
  · exact hfiles
  · cases hwrites

/-- Queueing an update again does nothing more, whether it was queued or not. -/
theorem files_create_again {made : Bool} (hmade : made = true → ∀ pl, layout.reaches pl = true)
    (h : left.files = q.files ∨ left.files = (q.create layout made u).files) :
    (left.create layout made u).files = (q.create layout made u).files := by
  cases made with
  | false =>
    rw [files_create_false, files_create_false] at *
    exact h.elim id id
  | true =>
    have hreach := hmade rfl
    rcases h with h | h
    · rw [create_files hreach, create_files hreach, isWaiting_congr h, h]
    · have hwaits : left.isWaiting layout (.derive u) = true := by
        rw [create_files hreach] at h
        split at h
        · rename_i hwaiting
          rwa [isWaiting_congr h]
        · have hplace : left.finds layout (layout.waitingPlace (.derive u)) = true := by
            rw [finds_of_reaches hreach, h, Function.update_self]
            rfl
          rw [isWaiting, hplace, Bool.true_or]
      rw [create_files hreach, if_pos hwaits, h]

end Queue

namespace Site

open Plan

variable {site : Site} {layout : Layout} {store : Store} {q q' : Queue} {s s' : System}

/-! ### What is left on the disk -/

/-- The files of tasks are the same on both disks. -/
def SameTasks (site : Site) (a b : Disk) : Prop :=
  ∀ state, state = "running" ∨ state = "waiting" → ∀ names bytes,
    a.get? (site.root ++ state :: names) = some (.file bytes) ↔
      b.get? (site.root ++ state :: names) = some (.file bytes)

/-- Each file of a task is a complete record, and is read as such. -/
def Complete (site : Site) (d : Disk) : Prop :=
  ∀ state, state = "running" ∨ state = "waiting" → ∀ names bytes,
    d.get? (site.root ++ state :: names) = some (.file bytes) →
      ∃ u : Update, bytes = u.record ∧ Update.parse bytes = .ok u

/-- Besides what `done` has, `left` has empty directories and at most one file, in the making. -/
def Leftover (site : Site) (done left : Disk) : Prop :=
  ∃ name, Adds done.get? left.get? (site.root ++ ["building", name])

/-- Whether one of the names that are drawn next for a record is free. -/
def HasRoom (site : Site) (key : TaskKey) (s : System) : Prop :=
  ∃ i < Files.maxDraws,
    s.disk.get? (site.root ++ ["building", temporaryName key (s.names (s.drawn + i))]) = none

namespace Shows

theorem hasRoom_iff (h : site.Shows q s) {key : TaskKey} :
    site.HasRoom key s ↔ q.HasRoom key s := by
  unfold HasRoom Queue.HasRoom
  simp only [h.inside, q.get?_building, Option.map_eq_none_iff]

/-- One file that remains takes one name, so that of two names one is free. -/
theorem hasRoom_of_remains {left : Queue} (h : site.Shows left s) (hremains : q.Remains left)
    (hbuilt : ∀ name, q.building name = none) (key : TaskKey) {i j : Nat}
    (hi : i < Files.maxDraws) (hj : j < Files.maxDraws)
    (hne : s.names (s.drawn + i) ≠ s.names (s.drawn + j)) : site.HasRoom key s := by
  rw [h.hasRoom_iff]
  rcases hremains.building with hsame | ⟨name, bytes, -, hmore⟩
  · exact ⟨i, hi, by rw [hsame, hbuilt]⟩
  · by_cases htaken : temporaryName key (s.names (s.drawn + i)) = name
    · refine ⟨j, hj, ?_⟩
      rw [hmore, Function.update_of_ne, hbuilt]
      rw [← htaken, Ne, temporaryName_inj]
      exact fun heq => hne heq.symm
    · exact ⟨i, hi, by rw [hmore, Function.update_of_ne htaken, hbuilt]⟩

theorem task_iff (h : site.Shows q s) {state : String}
    (hstate : state = "running" ∨ state = "waiting") (names : Location) (bytes : Bytes) :
    s.disk.get? (site.root ++ state :: names) = some (.file bytes) ↔
      ∃ pl u, pl.names = state :: names ∧ q.files pl = some u ∧ u.record = bytes := by
  rw [h.inside, Queue.get?_eq_file_iff, or_iff_left]
  rintro ⟨name, hnames, -⟩
  rw [List.cons.injEq] at hnames
  rcases hstate with rfl | rfl
  · simp at hnames
  · simp at hnames

theorem sameTasks (h : site.Shows q s) (h' : site.Shows q' s') (hfiles : q.files = q'.files) :
    site.SameTasks s.disk s'.disk := by
  intro state hstate names bytes
  rw [h.task_iff hstate, h'.task_iff hstate, hfiles]

theorem complete (h : site.Shows q s) : site.Complete s.disk := by
  intro state hstate names bytes hfile
  obtain ⟨pl, u, -, -, rfl⟩ := (h.task_iff hstate names bytes).1 hfile
  exact ⟨u, rfl, u.parse_record⟩

/-- A disk shows no two queues of different records. -/
theorem files_unique (h : site.Shows q s) (h' : site.Shows q' s) : q.files = q'.files := by
  funext pl
  have hpl := h.get?_names pl
  rw [h'.get?_names] at hpl
  cases hu : q.files pl with
  | none =>
    rw [hu, Option.map_none, Option.map_eq_none_iff] at hpl
    exact hpl.symm
  | some u =>
    rw [hu] at hpl
    obtain ⟨v, hv, hrecord⟩ := Option.map_eq_some_iff.1 hpl
    rw [hv, Update.record_inj (Entry.file.inj hrecord)]

theorem building_unique (h : site.Shows q s) (h' : site.Shows q' s) : q.building = q'.building := by
  funext name
  have hname := h.inside ["building", name]
  rw [h'.inside, q.get?_building, q'.get?_building] at hname
  exact Option.map_injective (fun _ _ => Entry.file.inj) hname.symm

theorem leftover (h : site.Shows q s) (hleft : site.Leaves q s') :
    site.Leftover s.disk s'.disk := by
  obtain ⟨left, hremains, h'⟩ := hleft
  obtain ⟨name, hadds⟩ := hremains.adds h.housed
  refine ⟨name, fun l e he => ?_, fun l e he hnone => ?_⟩
  · by_cases hl : site.root <+: l
    · obtain ⟨names, rfl⟩ := hl
      rw [h.inside] at he
      rw [h'.inside]
      exact hadds.kept names e he
    · rwa [h'.outside l hl, ← h.outside l hl]
  · by_cases hl : site.root <+: l
    · obtain ⟨names, rfl⟩ := hl
      rw [h.inside] at hnone
      rw [h'.inside] at he
      refine (hadds.added names e he hnone).imp (fun hmade => ?_) fun hempty => ?_
      · exact ⟨by rw [hmade.1], hmade.2⟩
      · refine ⟨hempty.1, fun n rest => ?_⟩
        rw [List.append_assoc, h'.inside]
        exact hempty.2 n rest
    · rw [h'.outside l hl, ← h.outside l hl, hnone] at he
      cases he

theorem building_first_create (h : site.Shows q s) (hs : site.Serves store.layout) {u : Update}
    {n : Nat} (hdone : site.Shows q' ((Request.first store n (.create u)).run s).2) :
    q'.building = q.building := by
  cases n with
  | zero => exact hdone.building_unique h
  | succ n =>
    obtain ⟨-, made, -, -, hcreated⟩ := h.run_createUpdate hs u
    rw [Request.run_first_create] at hdone
    rw [hdone.building_unique hcreated]
    exact (q.create_cases store.layout made u).1

/-- An update that may have been queued is queued again, by a store that is opened again. -/
theorem run_create_again (h : site.Shows q s) (hs : site.Serves store.layout) {u : Update}
    {n : Nat} {left : Queue} (hdone : site.Shows q' ((Request.first store n (.create u)).run s).2)
    (hremains : q'.Remains left) (hleft : site.Shows left s') (hroom : site.HasRoom (.derive u) s)
    (hroom' : site.HasRoom (.derive u) s') :
    ∃ system, (Store.ofLayout store.layout).run s' = (.ok ⟨store.layout, false⟩, system) ∧
      site.SameTasks ((Store.create ⟨store.layout, false⟩ u).run system).2.disk
        ((store.create u).run s).2.disk := by
  have hopened : site.Shows left { s' with log := s'.log ++ [.opened store.layout] } :=
    hleft.congr rfl rfl
  obtain ⟨-, made, hwrites, hmade, hcreated⟩ := h.run_createUpdate hs u
  have hs' : site.Serves (Store.mk store.layout false).layout := hs
  obtain ⟨-, again, hwrites', hmade', hcreated'⟩ := hopened.run_createUpdate hs' u
  have hsame : again = made := by
    cases hw : site.writes store.layout with
    | true => rw [hmade hw (h.hasRoom_iff.1 hroom), hmade' hw (hopened.hasRoom_iff.1 hroom')]
    | false =>
      have hnot : ∀ m : Bool, (m = true → site.writes store.layout = true) → m = false := by
        intro m hm
        cases m with
        | false => rfl
        | true => exact (hm rfl).symm.trans hw
      rw [hnot made hwrites, hnot again hwrites']
  subst hsame
  have hfiles : left.files = q.files ∨ left.files = (q.create store.layout again u).files := by
    rw [hremains.files]
    cases n with
    | zero => exact .inl (hdone.files_unique h)
    | succ n =>
      rw [Request.run_first_create] at hdone
      exact .inr (hdone.files_unique hcreated)
  exact ⟨_, hleft.run_ofLayout hs, hcreated'.sameTasks hcreated
    (Queue.files_create_again (fun hmade => reaches_of_writes (hwrites hmade)) hfiles)⟩

end Shows

end Site

/-! ### Sessions with crashes -/

/-- What is left when a request is stopped. -/
def Request.stop (store : Store) (request : Request) (calls torn : Nat) (s : System) : System :=
  (request.plan store).stop calls torn s

/-- The system of a process that begins: nothing is noted yet, and it draws its own names. -/
def System.restart (s : System) (names : Nat → NamePart) : System :=
  { s with names, drawn := 0, log := [] }

namespace Session

/-- What can become of an events directory: stores are opened, requests are carried out, and
requests are stopped. -/
inductive Reached (site : Site) : Session → Prop where
  | bare {s : Session} (hbare : site.IsBareIn s.system) (hstores : s.stores = []) : Reached site s
  | step {s : Session} (h : Reached site s) (x : Step)
      (hopen : ∀ layout, x = .open layout → site.Opens layout) : Reached site (s.step x).2
  | stop {s : Session} (h : Reached site s) {store : Store} (hstore : store ∈ s.stores)
      (request : Request) (calls torn : Nat) (names : Nat → NamePart) :
      Reached site ⟨(request.stop store calls torn s.system).restart names, s.stores⟩

variable {site : Site} {s : Session}

/-- Crashes or not, the disk shows a queue. -/
theorem Reached.stands (h : Reached site s) : ∃ q, site.Stands s q := by
  induction h with
  | bare hbare hstores => exact ⟨_, (Site.runs_bare hbare hstores).toStands⟩
  | @step s h x hopen ih =>
    obtain ⟨q, hq⟩ := ih
    cases x with
    | «open» layout =>
      cases hlong : layout.building.isTooLong with
      | true =>
        rw [(hopen layout rfl).step_open hlong]
        exact ⟨q, hq⟩
      | false =>
        obtain ⟨system, hstep, hstands⟩ := hq.step_open ⟨hopen layout rfl, hlong⟩
        rw [hstep]
        exact ⟨q, hstands⟩
    | on handle request =>
      rw [Session.step]
      cases hstore : s.stores[handle]? with
      | none => exact ⟨q, hq⟩
      | some store =>
        have hmem := List.mem_of_getElem? hstore
        obtain ⟨-, -, -, left, -, hleft⟩ :=
          ((hq.shows_of_mem hmem).stops_request (hq.serves store hmem) request).run
        exact ⟨left, request.forall_set hq.serves hmem handle, .inl hleft⟩
  | @stop s h store hstore request calls torn names ih =>
    obtain ⟨q, hq⟩ := ih
    obtain ⟨-, -, -, left, -, hleft⟩ :=
      (hq.shows_of_mem hstore).stops_request (hq.serves store hstore) request calls torn
    exact ⟨left, hq.serves, .inl (hleft.congr rfl rfl)⟩

/-- A name is free after the first crash for a process that draws two different names. -/
theorem hasRoom_restart {q : Queue} (h : site.Runs s q) {store : Store} (hstore : store ∈ s.stores)
    (u : Update) (calls torn : Nat) (names : Nat → NamePart) {i j : Nat} (hi : i < Files.maxDraws)
    (hj : j < Files.maxDraws) (hne : names i ≠ names j) :
    site.HasRoom (.derive u)
      ((Request.stop store (.create u) calls torn s.system).restart names) := by
  have hs := h.serves store hstore
  have hshows := h.shows_of_mem hstore
  obtain ⟨n, done, hdone, left, hremains, hleft⟩ :=
    hshows.stops_request hs (.create u) calls torn
  have hrestarted : site.Shows left
      ((Request.stop store (.create u) calls torn s.system).restart names) := hleft.congr rfl rfl
  refine hrestarted.hasRoom_of_remains hremains (fun name => ?_) _ hi hj ?_
  · rw [hshows.building_first_create hs hdone, h.built]
  · show names (0 + i) ≠ names (0 + j)
    rwa [Nat.zero_add, Nat.zero_add]

/-- Whatever call a request is stopped at, the tasks are as after the first of its updates, their
records are complete, and nothing else is left but empty directories and a file in the making. If
it was to queue an update, that can be done again, provided that a name is free for its record. -/
theorem crash_safe (site : Site) {s : Session} (h : Reached site s) {store : Store}
    (hstore : store ∈ s.stores) (request : Request) (calls torn : Nat) :
    (∃ n,
      site.SameTasks (request.stop store calls torn s.system).disk
          ((request.first store n).run s.system).2.disk ∧
        site.Leftover ((request.first store n).run s.system).2.disk
          (request.stop store calls torn s.system).disk) ∧
      site.Complete (request.stop store calls torn s.system).disk ∧
      ∀ u, request = .create u → ∀ names, site.HasRoom (.derive u) s.system →
        site.HasRoom (.derive u) ((request.stop store calls torn s.system).restart names) →
        ∃ reopened system,
          (Store.ofLayout store.layout).run
              ((request.stop store calls torn s.system).restart names) = (.ok reopened, system) ∧
            site.SameTasks ((reopened.create u).run system).2.disk
              ((store.create u).run s.system).2.disk := by
  obtain ⟨q, hq⟩ := h.stands
  have hs := hq.serves store hstore
  have hshows := hq.shows_of_mem hstore
  obtain ⟨n, done, hdone, left, hremains, hleft⟩ :=
    hshows.stops_request hs request calls torn
  refine ⟨⟨n, hleft.sameTasks hdone hremains.files, hdone.leftover ⟨left, hremains, hleft⟩⟩,
    hleft.complete, ?_⟩
  rintro u rfl names hroom hroom'
  have hrestarted : site.Shows left
      ((Request.stop store (.create u) calls torn s.system).restart names) := hleft.congr rfl rfl
  obtain ⟨system, hrun, hsame⟩ :=
    hshows.run_create_again hs hdone hremains hrestarted hroom hroom'
  exact ⟨_, system, hrun, hsame⟩

theorem crash_safe_torn :
    Reached .blank (opened (Site.layoutHere 0 .sharded)) ∧
      ⟨Site.layoutHere 0 .sharded, false⟩ ∈ (opened (Site.layoutHere 0 .sharded)).stores ∧
      Site.blank.HasRoom (.derive ⟨"p", "refs/heads/m", "https://h/p", "h"⟩)
        (opened (Site.layoutHere 0 .sharded)).system ∧
      Site.blank.HasRoom (.derive ⟨"p", "refs/heads/m", "https://h/p", "h"⟩)
        ((Request.stop ⟨Site.layoutHere 0 .sharded, false⟩
          (.create ⟨"p", "refs/heads/m", "https://h/p", "h"⟩) 8 10
          (opened (Site.layoutHere 0 .sharded)).system).restart blank.system.names) ∧
      ∃ reopened system,
        (Store.ofLayout (Site.layoutHere 0 .sharded)).run
            ((Request.stop ⟨Site.layoutHere 0 .sharded, false⟩
              (.create ⟨"p", "refs/heads/m", "https://h/p", "h"⟩) 8 10
              (opened (Site.layoutHere 0 .sharded)).system).restart blank.system.names) =
          (.ok reopened, system) ∧
        Site.blank.SameTasks
          ((reopened.create ⟨"p", "refs/heads/m", "https://h/p", "h"⟩).run system).2.disk
          ((Store.create ⟨Site.layoutHere 0 .sharded, false⟩
            ⟨"p", "refs/heads/m", "https://h/p", "h"⟩).run
              (opened (Site.layoutHere 0 .sharded)).system).2.disk := by
  generalize (⟨"p", "refs/heads/m", "https://h/p", "h"⟩ : Update) = u
  obtain ⟨hstores, hruns⟩ := runs_opened (n := 0) (w := .sharded) (by decide)
  have hreached : Reached .blank (opened (Site.layoutHere 0 .sharded)) :=
    .step (.bare isBareIn_blank rfl) (.open (Site.layoutHere 0 .sharded)) fun layout hlayout => by
      rw [← Step.open.inj hlayout]
      exact Site.opens_here (by decide)
  have hstore : ⟨Site.layoutHere 0 .sharded, false⟩ ∈
      (opened (Site.layoutHere 0 .sharded)).stores := by
    rw [hstores]
    exact List.mem_singleton_self _
  have hroom : Site.blank.HasRoom (.derive u) (opened (Site.layoutHere 0 .sharded)).system :=
    (hruns.shows_of_mem hstore).hasRoom_iff.2 ⟨0, by decide, rfl⟩
  have hroom' := hasRoom_restart hruns hstore u 8 10 blank.system.names (i := 0) (j := 1)
    (by decide) (by decide) (by decide)
  exact ⟨hreached, hstore, hroom, hroom',
    (crash_safe .blank hreached hstore (.create u) 8 10).2.2 u rfl _ hroom hroom'⟩

end Session

end ReplicationQueue
