import ReplicationQueue.Proofs.Recovery
import ReplicationQueue.Proofs.Waiting

/-! Restarting a node. In any tree without links each running file that has a key's name is given
back or stays; where nothing but stores was at work none stays, and doing it again does nothing. -/

namespace ReplicationQueue

attribute [local irreducible] Path.isTooLong

/-! ### The queue -/

namespace Queue

variable {q q' : Queue} {layout : Layout} {key : TaskKey} {keys : List TaskKey} {pls : List Place}

/-- The running tasks of `keys` were given back. -/
structure GivesBack (layout : Layout) (keys : List TaskKey) (q q' : Queue) : Prop where
  gone : ∀ key ∈ keys, q'.files (.running key) = none
  waits : ∀ key ∈ keys, (q'.files (layout.waitingPlace key)).isSome
  kept : ∀ pl : Place, pl.key ∉ keys → q'.files pl = q.files pl

theorem each_reset (hreach : ∀ key, layout.reaches (layout.waitingPlace key) = true)
    (hnodup : keys.Nodup) (hrunning : ∀ key ∈ keys, (q.files (.running key)).isSome)
    (summary : Summary) :
    ∃ q', q.each (fun q key => q.reset layout key) keys summary =
        (⟨summary.applied + keys.length, summary.skipped, summary.failed⟩, q') ∧
      GivesBack layout keys q q' := by
  induction keys generalizing q summary with
  | nil => exact ⟨q, rfl, by simp, by simp, fun _ _ => rfl⟩
  | cons key rest ih =>
    obtain ⟨hkey, hrest⟩ := List.nodup_cons.1 hnodup
    obtain ⟨u, hu⟩ := Option.isSome_iff_exists.1 (hrunning key (by simp))
    obtain ⟨houtcome, hfiles⟩ := reset_found (hreach key) hu
    have hother : ∀ pl : Place, pl.key ≠ key → (q.reset layout key).2.files pl = q.files pl := by
      intro pl hpl
      have hwaiting : pl ≠ layout.waitingPlace key := fun heq =>
        hpl (heq ▸ layout.key_waitingPlace key)
      have hrunning : pl ≠ .running key := fun heq => hpl (heq ▸ rfl)
      rw [hfiles, Function.update_of_ne hwaiting, Function.update_of_ne hrunning]
    obtain ⟨q', heach, hgives⟩ := ih (q := (q.reset layout key).2) hrest (fun other hmem => by
      have hne : (Place.running other).key ≠ key := fun heq => hkey (heq ▸ hmem)
      rw [hother _ hne]
      exact hrunning other (by simp [hmem])) (summary.record .applied)
    refine ⟨q', ?_, fun other hmem => ?_, fun other hmem => ?_, fun pl hpl => ?_⟩
    · have hcount : (summary.record .applied).applied + rest.length =
          summary.applied + (key :: rest).length := Nat.add_right_comm ..
      rw [each, houtcome, heach, hcount]
      rfl
    · rcases List.mem_cons.1 hmem with rfl | hmem
      · rw [hgives.kept (.running other) hkey, hfiles,
          Function.update_of_ne (layout.waitingPlace_ne_running other other).symm]
        exact Function.update_self ..
      · exact hgives.gone other hmem
    · rcases List.mem_cons.1 hmem with rfl | hmem
      · rw [hgives.kept _ (by rw [layout.key_waitingPlace]; exact hkey), hfiles,
          Function.update_self]
        rfl
      · exact hgives.waits other hmem
    · rw [List.mem_cons, not_or] at hpl
      rw [hgives.kept pl hpl.2, hother pl hpl.1]

theorem Lists.nodup_keys (h : q.Lists ["running"] pls) : (pls.map Place.key).Nodup := by
  have hsorted := h.sorted
  rw [List.pairwise_map] at hsorted
  rw [List.Nodup, List.pairwise_map]
  refine hsorted.imp_of_mem fun {a b} ha hb hlt heq => ?_
  have hplace : ∀ pl ∈ pls, pl = .running pl.key := fun pl hpl =>
    Place.runs_iff.1 ((h.mem pl).1 hpl).1
  rw [hplace a ha, hplace b hb, heq] at hlt
  exact List.lt_irrefl _ hlt

theorem Lists.mem_keys (h : q.Lists ["running"] pls) :
    key ∈ pls.map Place.key ↔ (q.files (.running key)).isSome := by
  rw [List.mem_map]
  constructor
  · rintro ⟨pl, hpl, rfl⟩
    obtain ⟨hrunning, hfile⟩ := (h.mem pl).1 hpl
    rwa [← Place.runs_iff.1 hrunning]
  · intro hfile
    exact ⟨.running key, (h.mem _).2 ⟨⟨_, rfl⟩, hfile⟩, rfl⟩

/-- Where every path is short enough all running tasks are given back. -/
theorem resetAll_reached (hreach : ∀ key, layout.reaches (layout.waitingPlace key) = true)
    (hlists : q.Lists ["running"] pls) :
    ∃ q', q.resetAll layout pls = (⟨(pls.map Place.key).length, 0, 0⟩, q') ∧
      GivesBack layout (pls.map Place.key) q q' := by
  have hall : pls.filter layout.reaches = pls := by
    refine List.filter_eq_self.2 fun pl hpl => ?_
    rw [Place.runs_iff.1 ((hlists.mem pl).1 hpl).1]
    exact Layout.reaches_running (hreach pl.key) pl.key
  obtain ⟨q', heach, hgives⟩ :=
    each_reset hreach hlists.nodup_keys (fun _ => hlists.mem_keys.1) .empty
  refine ⟨q', ?_, hgives⟩
  rw [resetAll, hall, heach]
  simp [Summary.empty]

theorem lists_single (h : ∀ other, (q.files (.running other)).isSome ↔ other = key) :
    q.Lists ["running"] [.running key] where
  sorted := List.pairwise_singleton ..
  mem pl := by
    rw [List.mem_singleton]
    constructor
    · rintro rfl
      exact ⟨⟨_, rfl⟩, (h key).2 rfl⟩
    · rintro ⟨hrunning, hfile⟩
      rw [Place.runs_iff.1 hrunning] at hfile ⊢
      rw [(h _).1 hfile]

/-- Nothing is listed where nothing runs. -/
theorem Lists.eq_nil (h : q.Lists ["running"] pls) (hnone : ∀ key, q.files (.running key) = none) :
    pls = [] := by
  rw [List.eq_nil_iff_forall_not_mem]
  intro pl hpl
  obtain ⟨hrunning, hfile⟩ := (h.mem pl).1 hpl
  rw [Place.runs_iff.1 hrunning, hnone] at hfile
  cases hfile

theorem waitingPlaces_ne_nil :
    q.waitingPlaces key ≠ [] ↔
      (q.files (.flat key)).isSome ∨ (q.files (.sharded key)).isSome := by
  rw [waitingPlaces, ne_eq, List.filter_eq_nil_iff, List.forall_mem_cons, List.forall_mem_singleton,
    not_and_or, not_not, not_not]

namespace GivesBack

theorem none_runs (h : GivesBack layout keys q q')
    (hkeys : ∀ key, key ∈ keys ↔ (q.files (.running key)).isSome) (key : TaskKey) :
    q'.files (.running key) = none := by
  by_cases hkey : key ∈ keys
  · exact h.gone key hkey
  · rw [h.kept (.running key) hkey]
    simpa [hkeys] using hkey

/-- What waited or ran waits. -/
theorem waitingPlaces_iff (h : GivesBack layout keys q q') (key : TaskKey) :
    q'.waitingPlaces key ≠ [] ↔ q.waitingPlaces key ≠ [] ∨ key ∈ keys := by
  rw [waitingPlaces_ne_nil, waitingPlaces_ne_nil]
  by_cases hkey : key ∈ keys
  · have hwaits := h.waits key hkey
    have hone : (q'.files (.flat key)).isSome ∨ (q'.files (.sharded key)).isSome := by
      unfold Layout.waitingPlace at hwaits
      cases hlayout : layout.waitingLayout with
      | flat => exact .inl (by rwa [hlayout] at hwaits)
      | sharded => exact .inr (by rwa [hlayout] at hwaits)
    simp [hone, hkey]
  · rw [h.kept (.flat key) hkey, h.kept (.sharded key) hkey]
    simp [hkey]

end GivesBack

end Queue

/-! ### Sessions -/

/-- Giving back all that runs through a store: each running task waits, nothing else changes what
waits, and through whatever store it is done again there is nothing to do. -/
structure Session.GivesAllBack (site : Site) (s : Session) (handle : Nat) (keys : List TaskKey)
    (s' : Session) : Prop where
  answered : s.step (.on handle .resetAll) = (.summary ⟨keys.length, 0, 0⟩, s')
  nodup : keys.Nodup
  running : ∀ key : TaskKey,
    key ∈ keys ↔ (s.system.disk.get? (site.root ++ ["running", key.text])).isSome
  waiting : ∀ key, site.waitingFiles s'.system key ≠ [] ↔
    site.waitingFiles s.system key ≠ [] ∨ key ∈ keys
  none_runs : ∀ other, other < s'.stores.length →
    (s'.step (.on other .listRunning)).1 = .updates []
  again : ∀ other, other < s'.stores.length →
    (s'.step (.on other .resetAll)).1 = .summary ⟨0, 0, 0⟩ ∧
      (s'.step (.on other .resetAll)).2.system.disk = s'.system.disk

namespace Site.Runs

variable {site : Site} {s : Session} {q : Queue} {handle : Nat} {store : Store}

theorem waitingFiles_ne_nil (h : site.Runs s q) (key : TaskKey) :
    site.waitingFiles s.system key ≠ [] ↔ q.waitingPlaces key ≠ [] := by
  rw [h.waitingFiles_eq, ne_eq, List.map_eq_nil_iff]

/-- What is answered and left when all that runs is given back. -/
theorem step_resetAll (h : site.Runs s q) (hstore : s.stores[handle]? = some store) :
    ∃ pls summary q', q.Lists ["running"] pls ∧ q.resetAll store.layout pls = (summary, q') ∧
      (s.step (.on handle .resetAll)).1 = .summary summary ∧
      (s.step (.on handle .resetAll)).2.stores = s.stores ∧
      site.Runs (s.step (.on handle .resetAll)).2 q' := by
  obtain ⟨q', system, hstep, ha, hruns⟩ := h.step_on_store hstore .resetAll
  obtain ⟨hlt, hget⟩ := List.getElem?_eq_some_iff.1 hstore
  have hset : s.stores.set handle (Request.next store .resetAll) = s.stores := by
    show s.stores.set handle store = _
    rw [← hget]
    exact List.set_getElem_self hlt
  rw [hset] at hstep hruns
  generalize (s.step (.on handle .resetAll)).1 = reply at ha ⊢
  rw [hstep]
  cases ha with
  | resetAll hlists hq => exact ⟨_, _, q', hlists, hq, rfl, rfl, hruns⟩

/-- Where nothing runs there is nothing to give back. -/
theorem step_resetAll_none (h : site.Runs s q) (hstore : s.stores[handle]? = some store)
    (hnone : ∀ key, q.files (.running key) = none) :
    (s.step (.on handle .resetAll)).1 = .summary ⟨0, 0, 0⟩ ∧
      (s.step (.on handle .resetAll)).2.system.disk = s.system.disk := by
  obtain ⟨pls, summary, q', hlists, hreset, hreply, hstores, hruns⟩ := h.step_resetAll hstore
  obtain rfl := hlists.eq_nil hnone
  cases hreset
  refine ⟨hreply, Disk.ext fun l => ?_⟩
  exact (h.shows_of_store hstore).get?_eq (hruns.shows_of_store (hstores ▸ hstore)) l

/-- Where all paths are short enough, all that runs is given back. -/
theorem gives_all_back (h : site.Runs s q) (hstore : s.stores[handle]? = some store)
    (hreach : ∀ key, store.layout.reaches (store.layout.waitingPlace key) = true) :
    ∃ keys s', s.GivesAllBack site handle keys s' := by
  obtain ⟨pls, summary, q', hlists, hreset, hreply, hstores, hruns⟩ := h.step_resetAll hstore
  obtain ⟨q'', hall, hgives⟩ := Queue.resetAll_reached hreach hlists
  obtain ⟨rfl, rfl⟩ := Prod.mk.inj (hreset.symm.trans hall)
  have hnone := hgives.none_runs fun key => hlists.mem_keys
  have hother : ∀ other, other < (s.step (.on handle .resetAll)).2.stores.length →
      ∃ store', (s.step (.on handle .resetAll)).2.stores[other]? = some store' := by
    intro other hlt
    exact ⟨_, List.getElem?_eq_getElem hlt⟩
  refine ⟨pls.map Place.key, (s.step (.on handle .resetAll)).2, ?_⟩
  constructor
  case answered => exact Prod.ext hreply rfl
  case nodup => exact hlists.nodup_keys
  case running =>
    intro key
    have hfile := h.get?_names (.running key)
    rw [hlists.mem_keys, ← Option.isSome_map, ← hfile]
    rfl
  case waiting =>
    intro key
    rw [hruns.waitingFiles_ne_nil, h.waitingFiles_ne_nil]
    exact hgives.waitingPlaces_iff key
  case none_runs =>
    intro other hlt
    obtain ⟨store', hstore'⟩ := hother other hlt
    obtain ⟨pls', hlists', hreply'⟩ := hruns.step_listing hstore' .listRunning rfl
    rw [hreply', hlists'.eq_nil hnone]
    rfl
  case again =>
    intro other hlt
    obtain ⟨store', hstore'⟩ := hother other hlt
    exact hruns.step_resetAll_none hstore' hnone

end Site.Runs

/-! ### Restarts -/

/-- Giving back all that runs in any tree: the answer counts the files whose names are keys, and
each of them is at the path where its key waits or stays. Other running files stay, and elsewhere
only files that waited in those places are replaced. -/
structure Store.GivesBack (store : Store) (root : Location) (s : System)
    (applied failed : List TaskKey) (s' : System) : Prop where
  answered : store.resetAll.run s = (⟨applied.length, 0, failed.length⟩, s')
  nodup : (applied ++ failed).Nodup
  running : ∀ key : TaskKey,
    key ∈ applied ++ failed ↔ (s.disk.get? (root ++ ["running", key.text])).isSome
  moved : ∀ key ∈ applied, ∃ bytes,
    s.disk.contents s.cwd (store.layout.runningPath key) = .ok bytes ∧
      s'.disk.get? (root ++ ["running", key.text]) = none ∧
      s'.disk.contents s'.cwd (store.layout.waitingPath key) = .ok bytes
  stays : ∀ key ∈ failed,
    s'.disk.get? (root ++ ["running", key.text]) = s.disk.get? (root ++ ["running", key.text])
  foreign : ∀ n, TaskKey.parse? n = none →
    s'.disk.get? (root ++ ["running", n]) = s.disk.get? (root ++ ["running", n])
  elsewhere : store.layout.Recovers root applied s.disk s'.disk

theorem Layout.Stands.gives_back {store : Store} {root : Location} {s : System}
    (h : store.layout.Stands root s.cwd s.disk)
    (hfiles : ∀ n e, s.disk.get? (root ++ ["running", n]) = some e → ∃ bytes, e = .file bytes) :
    ∃ applied failed s', store.GivesBack root s applied failed s' := by
  obtain ⟨applied, failed, s', hrun, hcwd, hstands, hrecovers, hperm⟩ := h.run_resetAll hfiles
  have hnodup : (applied ++ failed).Nodup := hperm.nodup_iff.2 nodup_keysRunning
  refine ⟨applied, failed, s', ?_⟩
  constructor
  case answered => exact hrun
  case nodup => exact hnodup
  case running =>
    intro key
    rw [hperm.mem_iff]
    exact h.mem_keysRunning
  case moved =>
    intro key hkey
    obtain ⟨bytes, hrunning, hwaiting⟩ := hrecovers.moved key hkey
    have hread : s.disk.contents s.cwd (store.layout.pathOf (.running key)) = .ok bytes :=
      h.contents_pathOf hrunning (h.reaches key)
    have hmoved : s'.disk.contents s'.cwd (store.layout.pathOf (store.layout.waitingPlace key)) =
        .ok bytes := hstands.contents_pathOf hwaiting (hrecovers.reached key hkey)
    rw [store.layout.pathOf_waitingPlace] at hmoved
    exact ⟨bytes, hread, hrecovers.gone key hkey, hmoved⟩
  case stays =>
    intro key hkey
    exact hrecovers.get?_running fun happlied => List.disjoint_of_nodup_append hnodup happlied hkey
  case foreign =>
    intro n hn
    refine hrecovers.get?_name fun key _ heq => ?_
    rw [← heq, TaskKey.parse?_text] at hn
    cases hn
  case elsewhere => exact hrecovers

/-! ### A node that died -/

/-- The empty disk, but for the directories of a queue in the root and a running file. -/
def Disk.abandoned (name : String) (bytes : Bytes) : Disk :=
  ((Disk.blank.put ["ref-updates"] .directory).put ["ref-updates", "running"] .directory).put
    ["ref-updates", "running", name] (.file bytes)

namespace Disk

variable {name : String} {bytes : Bytes}

theorem get?_abandoned {l : Location} (hl : l ≠ []) :
    (abandoned name bytes).get? l =
      if l = ["ref-updates", "running", name] then some (.file bytes)
      else if l = ["ref-updates", "running"] ∨ l = ["ref-updates"] then some .directory
      else none := by
  simp only [abandoned, get?_put, get?_blank hl]
  split
  · rfl
  · split <;> simp_all

theorem isLinkless_abandoned (hname : IsPlain name) : (abandoned name bytes).IsLinkless := by
  have hroot := isLinkless_blank.put_directory isPlain_refUpdates (l := []) rfl rfl
  have hrunning := hroot.put_directory (l := ["ref-updates"]) (IsState.isPlain (.inr (.inl rfl)))
    (by simp [Entry.isOpen]) (by simp [get?_blank])
  exact hrunning.put_file (l := ["ref-updates", "running"]) hname (by simp [Entry.isOpen])
    (by simp [get?_blank]) bytes

theorem locate_abandoned (w : WaitingLayout) :
    (abandoned name bytes).locate [] (Site.layoutHere 0 w).refUpdates = .ok ["ref-updates"] := by
  have hextends : Extends blank (abandoned name bytes) := by
    intro l e he
    by_cases hl : l = []
    · subst hl
      simpa [abandoned] using he
    · rw [get?_blank hl] at he
      cases he
  have hevents : blank.locate [] (Site.layoutHere 0 w).events = .ok [] := Session.opens_blank w
  have hleads := leads_of_locate (locate_extends hextends hevents) (by simp [abandoned]; rfl)
  have hroot : (abandoned name bytes).get? ([] ++ ["ref-updates"]) = some .directory := by
    rw [get?_abandoned (by simp)]
    simp
  rw [Layout.refUpdates, hleads.locate_join isPlain_refUpdates hroot (by simp),
    ← Layout.refUpdates, (Session.serves_blank w).refUpdates_fits]
  rfl

end Disk

theorem Site.Shares.run_open {site : Site} {s : Session} {stores : List Store} {q : Queue}
    {steps : List Step} (h : site.Shares (s.run steps).2 stores q) {layout : Layout}
    (hs : site.Serves layout) :
    site.Shares (s.run (steps ++ [.open layout])).2 (stores ++ [⟨layout, false⟩]) q := by
  rw [Session.run_append]
  dsimp only
  rw [Session.run_cons_snd, Session.run_nil_snd]
  exact h.step_open hs

/-- After a claim through a store on the empty disk the claimed task runs and nothing else does. -/
theorem Session.shares_claimed {u : Update} {p : Push} (hkeys : p.keys = [.derive u]) :
    ∃ q, Site.blank.Shares (blank.run [.open (Site.layoutHere 0 .flat), .on 0 (.create u),
        .on 0 (.start p)]).2 [⟨Site.layoutHere 0 .flat, false⟩] q ∧
      ∀ key, (q.files (.running key)).isSome ↔ key = .derive u := by
  have hqueued := (shares_blank.step_open (serves_blank .flat)).step_create 0 rfl u
  rw [writes_blank] at hqueued
  have hclaimed := hqueued.step_start 0 rfl hkeys
  rw [run_cons_snd, run_cons_snd, run_cons_snd, run_nil_snd]
  refine ⟨_, hclaimed, fun key => ?_⟩
  have hreach := reaches_blank .flat
  have hfiles := Queue.files_create_fresh hreach u
  have hfound : (Queue.fresh.create (Site.layoutHere 0 .flat) true u).files
      ((Site.layoutHere 0 .flat).waitingPlace (.derive u)) = some u := by
    rw [hfiles]
    exact Function.update_self ..
  rw [(Queue.start_waiting hreach hfound).2, hfiles]
  by_cases hkey : key = .derive u
  · subst hkey
    simp
  · have hrunning : Place.running key ≠ .running (.derive u) := by simpa using hkey
    have hwaiting := ((Site.layoutHere 0 .flat).waitingPlace_ne_running (.derive u) key).symm
    rw [Function.update_of_ne hrunning, Function.update_of_ne hwaiting,
      Function.update_of_ne hwaiting]
    simpa [Queue.fresh] using hkey

/-- Giving back all that runs accounts for every file of a tree without links whose running
directory holds only files; where stores alone were at work it fails for none. -/
theorem Store.reset_all_recovers (store : Store) :
    (∀ (s : System) (root : Location), s.disk.IsLinkless →
      s.disk.locate s.cwd store.layout.refUpdates = .ok root →
      (s.disk.get? (root ++ ["running"])).any Entry.isDirectory →
      (∀ n e, s.disk.get? (root ++ ["running", n]) = some e → ∃ bytes, e = .file bytes) →
      (∀ key, (store.layout.runningPath key).isTooLong = false) →
      ∃ applied failed s', store.GivesBack root s applied failed s') ∧
    ∀ (site : Site) (s : Session) (steps : List Step) (handle : Nat), site.IsBareIn s.system →
      s.stores = [] → (∀ layout, .open layout ∈ steps → site.Opens layout) →
      (s.run steps).2.stores[handle]? = some store →
      (∀ key, (store.layout.waitingPath key).isTooLong = false) →
      ∃ keys s', (s.run steps).2.GivesAllBack site handle keys s' := by
  constructor
  · intro s root htree hlocated hrunning hfiles hshort
    have hreaches : ∀ key, store.layout.reaches (.running key) = true := by
      intro key
      rw [Layout.reaches, Bool.not_eq_true']
      exact hshort key
    exact Layout.Stands.gives_back ⟨htree, hlocated, hrunning, hreaches⟩ hfiles
  · intro site s steps handle hbare hstores hopen hstore hshort
    obtain ⟨q, hruns, -⟩ := Session.holds_run (Site.runs_bare hbare hstores)
      (Queue.holds_fresh fun _ => True) steps hopen fun _ _ => trivial
    refine hruns.gives_all_back hstore fun key => ?_
    rw [Layout.reaches, Layout.pathOf_waitingPlace, Bool.not_eq_true']
    exact hshort key

/-- A task was left running on a disk, and another one in a queue that had no shards. -/
theorem Store.reset_all_recovers_restarted :
    (∃ applied failed s', Store.GivesBack ⟨Site.layoutHere 0 .sharded, false⟩ ["ref-updates"]
        { Session.blank.system with
          disk := .abandoned
            (TaskKey.derive (.canonical "p" "refs/heads/m" "https://h/p" "h")).text [] }
        applied failed s' ∧
      .derive (.canonical "p" "refs/heads/m" "https://h/p" "h") ∈ applied ++ failed) ∧
    ∃ keys s', (Session.blank.run [.open (Site.layoutHere 0 .flat),
        .on 0 (.create (.canonical "p" "refs/heads/m" "https://h/p" "h")),
        .on 0 (.start ⟨"p", "https://h/p", "h", ["refs/heads/m"]⟩),
        .open (Site.layoutHere 0 .sharded)]).2.GivesAllBack .blank 1 keys s' ∧
      .derive (.canonical "p" "refs/heads/m" "https://h/p" "h") ∈ keys := by
  have hkeys : Push.keys ⟨"p", "https://h/p", "h", ["refs/heads/m"]⟩ =
      [.derive (.canonical "p" "refs/heads/m" "https://h/p" "h")] := rfl
  generalize Update.canonical "p" "refs/heads/m" "https://h/p" "h" = u at hkeys ⊢
  generalize (⟨"p", "https://h/p", "h", ["refs/heads/m"]⟩ : Push) = p at hkeys ⊢
  have hshort : ∀ pl, ((Site.layoutHere 0 .sharded).pathOf pl).isTooLong = false := by
    intro pl
    simpa [Layout.reaches] using Session.reaches_blank .sharded pl
  obtain ⟨htree, hsession⟩ := Store.reset_all_recovers ⟨Site.layoutHere 0 .sharded, false⟩
  constructor
  · obtain ⟨applied, failed, s', hgives⟩ := htree
      { Session.blank.system with disk := .abandoned (TaskKey.derive u).text [] } ["ref-updates"]
      (Disk.isLinkless_abandoned (TaskKey.isPlain_text _)) (Disk.locate_abandoned .sharded)
      (by simp [Disk.get?_abandoned]; rfl)
      (fun n e he => by
        rw [Disk.get?_abandoned (by simp)] at he
        split at he
        · cases he
          exact ⟨[], rfl⟩
        · simp at he)
      fun key => hshort (.running key)
    refine ⟨applied, failed, s', hgives, (hgives.running _).2 ?_⟩
    show ((Disk.abandoned _ _).get? _).isSome
    rw [Disk.get?_abandoned (by simp)]
    simp
  · obtain ⟨q, hshares, hrunning⟩ := Session.shares_claimed hkeys
    have hreopened : Site.blank.Shares (Session.blank.run [.open (Site.layoutHere 0 .flat),
        .on 0 (.create u), .on 0 (.start p), .open (Site.layoutHere 0 .sharded)]).2
        [⟨Site.layoutHere 0 .flat, false⟩, ⟨Site.layoutHere 0 .sharded, false⟩] q :=
      hshares.run_open (Session.serves_blank .sharded)
    obtain ⟨keys, s', hgives⟩ := hsession .blank Session.blank _ 1 Session.isBareIn_blank rfl
      (by simp [Session.opens_blank]) (hreopened.getElem?_stores 1 rfl)
      (fun key => by rw [← Layout.pathOf_waitingPlace]; exact hshort _)
    refine ⟨keys, s', hgives, (hgives.running _).2 ?_⟩
    have hfile := hreopened.runs.get?_names (.running (.derive u))
    rw [Place.names, Place.directory, List.singleton_append, Place.key] at hfile
    rw [hfile, Option.isSome_map]
    exact (hrunning _).2 rfl

/-- After a task was claimed its file is neither given back through a store whose paths have no room
for waiting files nor found through one whose paths have none for running files. -/
theorem Session.resetAll_claimed {u : Update} {p : Push} (hkeys : p.keys = [.derive u])
    {layout layout' : Layout} (hserves : Site.blank.Serves layout)
    (hserves' : Site.blank.Serves layout') (hreach : layout.reaches (.running (.derive u)) = true)
    (hlong : layout.reaches (layout.waitingPlace (.derive u)) = false)
    (hlong' : layout'.reaches (.running (.derive u)) = false) {s : Session}
    (hs : s = (blank.run [.open (Site.layoutHere 0 .flat), .on 0 (.create u), .on 0 (.start p),
      .open layout, .open layout']).2) :
    (s.system.disk.get? (Site.blank.root ++ ["running", (TaskKey.derive u).text])).isSome ∧
      (s.step (.on 1 .resetAll)).1 = .summary ⟨0, 0, 1⟩ ∧
      (s.step (.on 2 .resetAll)).1 = .summary ⟨0, 0, 0⟩ := by
  obtain ⟨q, hclaimed, hrunning⟩ := shares_claimed hkeys
  have hshares : Site.blank.Shares s [⟨Site.layoutHere 0 .flat, false⟩, ⟨layout, false⟩,
      ⟨layout', false⟩] q := by
    rw [hs]
    exact (hclaimed.run_open hserves).run_open hserves'
  have hlists := Queue.lists_single hrunning
  refine ⟨?_, ?_, ?_⟩
  · have hfile : s.system.disk.get? (Site.blank.root ++ ["running", (TaskKey.derive u).text]) = _ :=
      hshares.runs.get?_names (.running (.derive u))
    rw [hfile, Option.isSome_map]
    exact (hrunning _).2 rfl
  · obtain ⟨pls, summary, q', hpls, hreset, hreply, -⟩ :=
      hshares.runs.step_resetAll (hshares.getElem?_stores 1 rfl)
    obtain rfl := hpls.unique hlists
    rw [Queue.resetAll, List.filter_cons_of_pos hreach] at hreset
    have hsummary : summary = Summary.empty.record (q.reset layout (.derive u)).1 :=
      (congrArg Prod.fst hreset).symm
    rw [hreply, hsummary, Queue.reset_unreached hlong]
    rfl
  · obtain ⟨pls, summary, q', hpls, hreset, hreply, -⟩ :=
      hshares.runs.step_resetAll (hshares.getElem?_stores 2 rfl)
    obtain rfl := hpls.unique hlists
    rw [Queue.resetAll, List.filter_cons_of_neg (by simpa using hlong')] at hreset
    have hsummary : summary = .empty := (congrArg Prod.fst hreset).symm
    rw [hreply, hsummary]
    rfl

/-- Where paths are too long what runs is not given back, or not even counted. -/
theorem Session.not_recovered_long :
    ∃ s : Session, s = (blank.run [.open (Site.layoutHere 0 .flat),
        .on 0 (.create (.canonical "p" "refs/heads/m" "https://h/p" "h")),
        .on 0 (.start ⟨"p", "https://h/p", "h", ["refs/heads/m"]⟩),
        .open (Site.layoutHere 2016 .sharded), .open (Site.layoutHere 2017 .sharded)]).2 ∧
      (s.system.disk.get? (Site.blank.root ++ ["running",
        (TaskKey.derive (.canonical "p" "refs/heads/m" "https://h/p" "h")).text])).isSome ∧
      (s.step (.on 1 .resetAll)).1 = .summary ⟨0, 0, 1⟩ ∧
      (s.step (.on 2 .resetAll)).1 = .summary ⟨0, 0, 0⟩ := by
  have hkeys : Push.keys ⟨"p", "https://h/p", "h", ["refs/heads/m"]⟩ =
      [.derive (.canonical "p" "refs/heads/m" "https://h/p" "h")] := rfl
  generalize Update.canonical "p" "refs/heads/m" "https://h/p" "h" = u at hkeys ⊢
  generalize (⟨"p", "https://h/p", "h", ["refs/heads/m"]⟩ : Push) = p at hkeys ⊢
  refine ⟨_, rfl, resetAll_claimed hkeys (Site.serves_here (by decide))
    (Site.serves_here (by decide)) ?_ ?_ ?_ rfl⟩
  · unfold Layout.reaches Path.isTooLong
    rw [Layout.utf8ByteSize_pathOf_running, Site.utf8ByteSize_refUpdates_here]
    decide
  · have hplace : (Site.layoutHere 2016 .sharded).waitingPlace (.derive u) =
        .sharded (.derive u) := Layout.waitingPlace_eq _ _ rfl
    unfold Layout.reaches Path.isTooLong
    rw [hplace, Layout.utf8ByteSize_pathOf_sharded, Site.utf8ByteSize_refUpdates_here]
    decide
  · unfold Layout.reaches Path.isTooLong
    rw [Layout.utf8ByteSize_pathOf_running, Site.utf8ByteSize_refUpdates_here]
    decide

end ReplicationQueue
