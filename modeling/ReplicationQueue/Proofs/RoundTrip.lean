import ReplicationQueue.Proofs.Waiting

/-! Records are read back as they were written. The text that queueing an update stores is read as
that update, whatever its four texts are; so each file of the queue is read as the update that was
queued there, under the name of its key, and it is this update that stores list. -/

namespace ReplicationQueue

attribute [local irreducible] Path.isTooLong

theorem Place.getLast?_names (pl : Place) : pl.names.getLast? = some pl.key.text := by
  cases pl <;> rfl

namespace Site

variable {site : Site} {s : Session} {q : Queue} {handle : Nat} {store : Store}

/-- A disk that shows a queue with other files than before has a file that was none before. -/
theorem Shows.addsNoFile_of_files {q' : Queue} {before after : System} (h : site.Shows q before)
    (h' : site.Shows q' after) (hfiles : q'.files = q.files)
    (hbuilding : q'.building = q.building) : before.AddsNoFile after := by
  intro l contents hfile
  refine ⟨contents, ?_⟩
  by_cases hl : site.root <+: l
  · obtain ⟨names, rfl⟩ := hl
    rw [h'.inside, Queue.get?_eq_file_iff, hfiles, hbuilding] at hfile
    rw [h.inside]
    exact Queue.get?_eq_file_iff.2 hfile
  · rw [h.outside l hl, ← h'.outside l hl, hfile]

namespace Runs

/-- Every file is the record at a place. -/
theorem exists_place (h : site.Runs s q) {names : Location} {contents : Bytes}
    (hfile : s.system.disk.get? (site.root ++ names) = some (.file contents)) :
    ∃ pl u, names = Place.names pl ∧ q.files pl = some u ∧ contents = u.record := by
  rcases h.shows with hshows | ⟨hnone, -, -⟩
  · rw [hshows.inside, Queue.get?_eq_file_iff] at hfile
    rcases hfile with ⟨pl, u, rfl, hu, rfl⟩ | ⟨name, -, hbuilt⟩
    · exact ⟨pl, u, rfl, hu, rfl⟩
    · rw [h.built] at hbuilt
      cases hbuilt
  · rw [hnone.disk, site.get?_root] at hfile
    cases hfile

/-- A store lists an update where the update's record is stored at a place that it reaches. -/
theorem lists_iff_file (h : site.Runs s q) (hstore : s.stores[handle]? = some store)
    {request : Request} {dir : Location} (hdir : request.directory? = some dir) (u : Update) :
    s.Lists handle request u ↔
      ∃ pl : Place, dir <+: pl.names ∧ store.layout.reaches pl = true ∧
        s.system.disk.get? (site.root ++ pl.names) =
          some (.file (Utf8.encode (u.toJson ++ "\n"))) := by
  rw [h.lists_iff hstore hdir]
  have hfile : ∀ pl : Place, q.files pl = some u ↔
      s.system.disk.get? (site.root ++ pl.names) =
        some (.file (Utf8.encode (u.toJson ++ "\n"))) := by
    intro pl
    rw [h.get?_names]
    cases q.files pl with
    | none => simp
    | some v =>
      simp only [Option.some.injEq, Option.map_some, Entry.file.injEq]
      exact ⟨fun hv => by rw [hv]; rfl, Update.record_inj⟩
  simp only [hfile]

/-- What is queued is stored where its key waits, and the store that queued it lists it. -/
theorem lists_created (h : site.Runs s q) (hstore : s.stores[handle]? = some store) {u : Update}
    (hadds : ¬s.system.AddsNoFile (s.step (.on handle (.create u))).2.system) :
    (s.step (.on handle (.create u))).2.system.disk.get?
        (site.root ++ (store.layout.waitingPlace (.derive u)).names) =
          some (.file (Utf8.encode (u.toJson ++ "\n"))) ∧
      (s.step (.on handle (.create u))).2.Lists handle .listWaiting u ∧
      (s.step (.on handle (.create u))).2.Lists handle .list u := by
  have hshares := (Shares.mk h rfl).step_create handle hstore u
  have hstore' := hshares.getElem?_stores handle hstore
  obtain ⟨hbuilding, hsame | ⟨hwrites, -, hput⟩⟩ :=
    q.create_cases store.layout (site.writes store.layout) u
  · exact absurd ((h.shows_of_store hstore).addsNoFile_of_files (h.step_create hstore u) hsame
      hbuilding) hadds
  · have hfile : (q.create store.layout (site.writes store.layout) u).files
        (store.layout.waitingPlace (.derive u)) = some u := by
      rw [hput, Function.update_self]
    have hreach := reaches_of_writes hwrites (store.layout.waitingPlace (.derive u))
    have hdir : ["waiting"] <+: (store.layout.waitingPlace (.derive u)).names := by
      rw [Place.waits_iff, store.layout.key_waitingPlace]
      exact store.layout.waitingPlace_ne_running _ _
    refine ⟨?_, (hshares.runs.lists_iff hstore' rfl).2 ⟨_, hdir, hreach, hfile⟩,
      (hshares.runs.lists_iff hstore' rfl).2 ⟨_, List.nil_prefix, hreach, hfile⟩⟩
    rw [hshares.runs.get?_names, hfile]
    rfl

end Runs

end Site

namespace Session

/-- The stored text of an update is read as that update. So every file of a queue is read as an
update that was queued and whose key is the file's name, stores list the updates whose texts are
stored at places that they reach, and an update that is queued is listed. -/
theorem records_read_back (u : Update) :
    Update.parse (Utf8.encode (u.toJson ++ "\n")) = .ok u ∧
    ∀ (site : Site) (s : Session), site.IsBareIn s.system → s.stores = [] →
      ∀ steps : List Step, (∀ layout, .open layout ∈ steps → site.Opens layout) →
        (∀ names contents,
          (s.run steps).2.system.disk.get? (site.root ++ names) = some (.file contents) →
            ∃ v, Queued steps v ∧ Update.parse contents = .ok v ∧
              names.getLast? = some (TaskKey.derive v).text) ∧
        ∀ (handle : Nat) (store : Store), (s.run steps).2.stores[handle]? = some store →
          (∀ (request : Request) (dir : Location), request.directory? = some dir →
            ((s.run steps).2.Lists handle request u ↔
              ∃ pl : Place, dir <+: pl.names ∧ store.layout.reaches pl = true ∧
                (s.run steps).2.system.disk.get? (site.root ++ pl.names) =
                  some (.file (Utf8.encode (u.toJson ++ "\n"))))) ∧
          (¬(s.run steps).2.system.AddsNoFile
              ((s.run steps).2.step (.on handle (.create u))).2.system →
            ((s.run steps).2.step (.on handle (.create u))).2.system.disk.get?
                (site.root ++ (store.layout.waitingPlace (.derive u)).names) =
                  some (.file (Utf8.encode (u.toJson ++ "\n"))) ∧
              ((s.run steps).2.step (.on handle (.create u))).2.Lists handle .listWaiting u ∧
              ((s.run steps).2.step (.on handle (.create u))).2.Lists handle .list u) := by
  refine ⟨Update.parse_record u, fun site s hbare hstores steps hopen => ?_⟩
  obtain ⟨q, hruns, hq⟩ :=
    holds_run (Site.runs_bare hbare hstores) (Queue.holds_fresh (Queued steps)) steps hopen
      fun _ hu => hu
  refine ⟨fun names contents hfile => ?_, fun handle store hstore =>
    ⟨fun request dir hdir => hruns.lists_iff_file hstore hdir u,
      fun hadds => hruns.lists_created hstore hadds⟩⟩
  obtain ⟨pl, v, rfl, hv, rfl⟩ := hruns.exists_place hfile
  obtain ⟨hqueued, hkey⟩ := hq pl v hv
  exact ⟨v, hqueued, Update.parse_record v, by rw [pl.getLast?_names, hkey]⟩

theorem getElem?_opened (w : WaitingLayout) :
    (opened (Site.layoutHere 0 w)).stores[0]? = some ⟨Site.layoutHere 0 w, false⟩ := by
  rw [(runs_opened (by decide)).1]
  rfl

/-- On the empty disk the update that is queued first adds a file. -/
theorem not_addsNoFile_opened (w : WaitingLayout) (u : Update) :
    ¬(opened (Site.layoutHere 0 w)).system.AddsNoFile
      ((opened (Site.layoutHere 0 w)).step (.on 0 (.create u))).2.system := by
  have hruns := (runs_opened (n := 0) (w := w) (by decide)).2
  have hwaiting : Queue.fresh.isWaiting (Site.layoutHere 0 w) (.derive u) = false := by
    simp [Queue.isWaiting, Queue.finds, Queue.fresh]
  intro hadds
  rw [hruns.isWaiting_of_addsNoFile (getElem?_opened w) (writes_blank w) hadds] at hwaiting
  cases hwaiting

theorem records_read_back_escaped :
    (blank.run [.open (Site.layoutHere 0 .flat)]).2.stores[0]? =
        some ⟨Site.layoutHere 0 .flat, false⟩ ∧
      ¬(blank.run [.open (Site.layoutHere 0 .flat)]).2.system.AddsNoFile
        ((blank.run [.open (Site.layoutHere 0 .flat)]).2.step
          (.on 0 (.create ⟨"\"p\\", "r\n\x01", "", "😀"⟩))).2.system ∧
      ((blank.run [.open (Site.layoutHere 0 .flat)]).2.step
          (.on 0 (.create ⟨"\"p\\", "r\n\x01", "", "😀"⟩))).2.Lists 0 .listWaiting
            ⟨"\"p\\", "r\n\x01", "", "😀"⟩ ∧
      ∃ v, Queued [.open (Site.layoutHere 0 .flat),
          .on 0 (.create ⟨"\"p\\", "r\n\x01", "", "😀"⟩)] v ∧
        Update.parse (Update.record ⟨"\"p\\", "r\n\x01", "", "😀"⟩) = .ok v := by
  generalize (⟨"\"p\\", "r\n\x01", "", "😀"⟩ : Update) = u
  have hstore := getElem?_opened .flat
  have hadds := not_addsNoFile_opened .flat u
  obtain ⟨hfile, hlists, -⟩ := ((records_read_back u).2 .blank blank isBareIn_blank rfl
    [.open (Site.layoutHere 0 .flat)] (by simp [opens_blank])).2 0 _ hstore |>.2 hadds
  obtain ⟨v, hqueued, hread, -⟩ := ((records_read_back u).2 .blank blank isBareIn_blank rfl
    [.open (Site.layoutHere 0 .flat), .on 0 (.create u)] (by simp [opens_blank])).1 _ _ (by
      rw [run_cons_snd, run_cons_snd, run_nil_snd]
      exact hfile)
  exact ⟨hstore, hadds, hlists, v, hqueued, hread⟩

end Session

end ReplicationQueue
