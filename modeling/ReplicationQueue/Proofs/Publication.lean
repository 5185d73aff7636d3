import ReplicationQueue.Proofs.Outcome
import ReplicationQueue.Proofs.Refusal

/-! Queueing an update, in any tree without links. Whatever stands in the way, whatever names are
drawn and whichever writes are refused, either the whole record is where its task waits, or no file
is added at all and an event says why; no file is left behind in the making. -/

namespace ReplicationQueue

attribute [local irreducible] Path.isTooLong

open Plan

/-! ### A file in the making -/

namespace Disk

/-- A file was made under a name that was free in the directory at `l`, and `place` leads to that
directory. -/
structure Writes (d d' : Disk) (cwd : Location) (place : Path) (n : String) (l : Location)
    (bytes : Bytes) : Prop where
  forward : place.IsForward
  ne_empty : place.text ≠ ""
  noNull : '\x00' ∉ place.text.toList
  spelled : place.spelled cwd = l
  plain : IsPlain n
  short : (place.join n).isTooLong = false
  isOpen : (d.get? l).any Entry.isOpen
  free : d.get? (l ++ [n]) = none
  made : d' = d.put (l ++ [n]) (.file bytes)

variable {d d' : Disk} {cwd l : Location} {place : Path} {n : String} {bytes : Bytes}

theorem Leads.createFile_ok (h : d.Leads cwd place l) (hn : IsPlain n) {file : Location}
    (hcreate : d.createFile cwd (place.join n) = .ok (file, d')) :
    (place.join n).isTooLong = false ∧ (d.get? l).any Entry.isOpen ∧ d.get? (l ++ [n]) = none ∧
      file = l ++ [n] ∧ d' = d.put (l ++ [n]) (.file []) := by
  unfold createFile at hcreate
  rw [h.freePlace_join hn] at hcreate
  by_cases hlong : (place.join n).isTooLong
  · rw [if_pos hlong] at hcreate
    cases hcreate
  · rw [if_neg hlong] at hcreate
    split at hcreate
    · cases hcreate
    · rename_i hfree
      split at hcreate
      · rename_i hopen
        cases hcreate
        exact ⟨by simpa using hlong, hopen, by simpa using hfree, rfl, rfl⟩
      · cases hcreate

theorem put_put (d : Disk) (l : Location) (e e' : Entry) : (d.put l e).put l e' = d.put l e' := by
  ext1 k
  simp only [get?_put]
  split <;> rfl

/-- A file in a directory that takes new entries keeps a tree one. -/
theorem Writes.isLinkless (h : d.Writes d' cwd place n l bytes) (hd : d.IsLinkless) :
    d'.IsLinkless := by
  rw [h.made]
  exact hd.put_file h.plain h.isOpen h.free bytes

theorem Writes.get?_self (h : d.Writes d' cwd place n l bytes) :
    d'.get? (l ++ [n]) = some (.file bytes) := by
  rw [h.made, get?_put, if_pos rfl]

theorem Writes.get?_other (h : d.Writes d' cwd place n l bytes) {k : Location}
    (hk : k ≠ l ++ [n]) : d'.get? k = d.get? k := by
  rw [h.made, get?_put, if_neg hk]

/-- The file is removed by its path, and then nothing is left of it. -/
theorem Writes.remove (h : d.Writes d' cwd place n l bytes) (hd : d.IsLinkless) :
    d'.remove cwd (place.join n) = .ok d := by
  have hself := h.get?_self
  have hleads := (h.isLinkless hd).leads_of_below h.forward h.ne_empty h.noNull
    (h.spelled.symm ▸ hself)
  rw [h.spelled] at hleads
  have hback : d'.erase (l ++ [n]) = d := by
    ext1 k
    rw [get?_erase]
    by_cases hk : k = l ++ [n]
    · rw [if_pos hk, hk, h.free]
    · rw [if_neg hk, h.get?_other hk]
  rw [hleads.remove_join h.plain, h.short, hself, hback]
  rfl

/-- The file was moved to a place where nothing was, and nothing else is changed. -/
theorem Writes.moved (h : d.Writes d' cwd place n l bytes) (hd : d.IsTree) {d'' : Disk}
    {target : Location} (hmoved : d'.Moved d'' (l ++ [n]) target) (hfree : d.get? target = none) :
    d'' = d.put target (.file bytes) := by
  ext1 k
  rw [get?_put]
  by_cases htarget : target <+: k
  · obtain ⟨names, rfl⟩ := htarget
    rw [hmoved.get?_target]
    cases names with
    | nil => rw [List.append_nil, List.append_nil, h.get?_self, if_pos rfl]
    | cons m rest =>
      rw [h.get?_other (by simp), hd.get?_below h.free, if_neg (by simp), hd.get?_below hfree]
  · have hne : k ≠ target := fun heq => htarget (heq ▸ List.prefix_rfl)
    rw [if_neg hne]
    by_cases hsource : l ++ [n] <+: k
    · obtain ⟨names, rfl⟩ := hsource
      rw [hmoved.get?_source, hd.get?_below h.free]
    · have hne' : k ≠ l ++ [n] := fun heq => hsource (heq ▸ List.prefix_rfl)
      rw [hmoved.get?_other hsource htarget, h.get?_other hne']

end Disk

namespace Files

variable {s : System} {p place : Path} {l : Location}

/-- The absolute form of a path spells what the path does. -/
theorem run_absolute_forward (hd : s.disk.IsLinkless) (hp : p.IsForward) (hempty : p.text ≠ "")
    (hnames : p.names.filter (· ≠ ".") ≠ []) (hprovides : s.disk.Provides s.cwd p) :
    ∃ r, (absolute p).run s = (r, s) ∧ ∀ place, r = .ok place → place.IsForward ∧
      place.text ≠ "" ∧ '\x00' ∉ place.text.toList ∧ place.spelled s.cwd = p.spelled s.cwd := by
  unfold absolute
  by_cases habsolute : p.isAbsolute
  · rw [if_pos habsolute]
    refine ⟨_, rfl, fun place hplace => ?_⟩
    cases hplace
    exact ⟨hp, hempty, hprovides.noNull, rfl⟩
  · rw [if_neg habsolute, run_bind, run_workingDirectory, System.workingDirectory]
    by_cases hremoved : s.disk.get? s.cwd = some .removed
    · rw [if_pos hremoved]
      exact ⟨_, rfl, by simp⟩
    · rw [if_neg hremoved]
      refine ⟨_, rfl, fun place hplace => ?_⟩
      cases hplace
      have hrelative : p.isAbsolute = false := by simpa using habsolute
      have hspelled : p.spelled s.cwd = s.cwd ++ p.names.filter (· ≠ ".") := by
        simp [Path.spelled, Disk.start, hrelative]
      -- The working directory holds the directory that the path leads to.
      obtain ⟨e, he, -⟩ := (Option.any_eq_true ..).1 hprovides.directory
      rw [hspelled] at he
      obtain ⟨c, hc, hdir⟩ := (Option.any_eq_true ..).1 (hd.isDirectory_of_below hnames he)
      have hstraight : s.disk.Straight s.cwd :=
        hd.straight hc hdir fun heq => hremoved (heq ▸ hc)
      have hleads := (hprovides.leads hd.toIsTree hp hempty).absolute hstraight hrelative
      have hjoined : (s.cwd.path.join p.text).names = s.cwd ++ p.names := by
        rw [Path.names_join_of_relative _ hrelative, Path.names_path hstraight.plain]
      have habsolute' : (s.cwd.path.join p.text).isAbsolute = true := by
        rw [Path.isAbsolute_join_of_relative (Path.text_path_ne_empty _) hrelative,
          Path.isAbsolute_path]
      refine ⟨?_, hleads.ne_empty, hleads.noNull, ?_⟩
      · rw [Path.IsForward, hjoined, List.mem_append, not_or]
        exact ⟨fun hmem => (hstraight.plain _ hmem).ne_up rfl, hp⟩
      · have hkept : s.cwd.filter (· ≠ ".") = s.cwd :=
          List.filter_eq_self.2 fun m hm => by simpa using (hstraight.plain m hm).ne_dot
        rw [hspelled, Path.spelled, hjoined, List.filter_append, hkept, Disk.start,
          if_pos habsolute', List.nil_append]

/-- A name is drawn until one is free, or something else is wrong. -/
theorem run_createNamed_forward (hleads : s.disk.Leads s.cwd place l) (key : TaskKey)
    (draws : Nat) :
    ∃ r d drawn, (createNamed place key.text draws).run s = (r, { s with disk := d, drawn }) ∧
      ((∃ part, r = .ok (place.join (temporaryName key part), l ++ [temporaryName key part]) ∧
          (place.join (temporaryName key part)).isTooLong = false ∧
          (s.disk.get? l).any Entry.isOpen ∧ s.disk.get? (l ++ [temporaryName key part]) = none ∧
          d = s.disk.put (l ++ [temporaryName key part]) (.file [])) ∨
        (∃ cause, r = .error cause) ∧ d = s.disk) := by
  induction draws generalizing s with
  | zero => exact ⟨_, _, _, rfl, .inr ⟨⟨_, rfl⟩, rfl⟩⟩
  | succ draws ih =>
    let drawn : System := { s with drawn := s.drawn + 1 }
    have hplain := isPlain_temporaryName key (s.names s.drawn)
    rw [createNamed, run_bind, run_drawName]
    simp only [run_bind]
    rw [← temporaryName]
    cases hcreate : s.disk.createFile s.cwd (place.join (temporaryName key (s.names s.drawn))) with
    | ok made =>
      obtain ⟨file, d⟩ := made
      obtain ⟨hshort, hopen, hfree, rfl, rfl⟩ := hleads.createFile_ok hplain hcreate
      rw [run_createFile_ok (s := drawn) hcreate]
      exact ⟨_, _, _, rfl, .inl ⟨_, rfl, hshort, hopen, hfree, rfl⟩⟩
    | error cause =>
      rw [run_createFile_error (s := drawn) hcreate]
      by_cases hcause : cause = .alreadyExists
      · subst hcause
        exact ih (s := drawn) hleads
      · refine ⟨.error cause, s.disk, s.drawn + 1, ?_, .inr ⟨⟨_, rfl⟩, rfl⟩⟩
        cases cause <;> first | rfl | contradiction

/-- A new file holds all that was to be written, or nothing is changed: a file that could not be
filled is gone again. -/
theorem writeNew_forward (hd : s.disk.IsLinkless) (hp : p.IsForward) (hempty : p.text ≠ "")
    (hnames : p.names.filter (· ≠ ".") ≠ []) (hprovides : s.disk.Provides s.cwd p) {key : TaskKey}
    {bytes : Bytes} {r : Except StoreError Path} {s' : System}
    (h : (writeNew p key.text bytes).MayRun s r s') :
    ∃ d drawn, s' = { s with disk := d, drawn } ∧
      ((∃ place part, r = .ok (place.join (temporaryName key part)) ∧
          s.disk.Writes d s.cwd place (temporaryName key part) (p.spelled s.cwd) bytes) ∨
        (∃ error, r = .error error) ∧ d = s.disk) := by
  obtain ⟨found, hrun, hplace⟩ := run_absolute_forward hd hp hempty hnames hprovides
  rw [writeNew, (steady_absolute p).mayRun_bind, hrun] at h
  cases found with
  | error cause =>
    cases h
    exact ⟨_, _, rfl, .inr ⟨⟨_, rfl⟩, rfl⟩⟩
  | ok place =>
    obtain ⟨hforward, hne, hnull, hspelled⟩ := hplace place rfl
    have hleads : s.disk.Leads s.cwd place (p.spelled s.cwd) := by
      have hdirectory := hprovides.directory
      rw [← hspelled] at hdirectory ⊢
      exact hd.leads_spelled hforward hne hnull hdirectory
    obtain ⟨made, d, drawn, hrun, ⟨part, rfl, hshort, hopen, hfree, rfl⟩ | ⟨⟨cause, rfl⟩, rfl⟩⟩ :=
      run_createNamed_forward hleads key maxDraws
    · have hwrites : ∀ taken, s.disk.Writes
          (s.disk.put (p.spelled s.cwd ++ [temporaryName key part]) (.file taken)) s.cwd place
          (temporaryName key part) (p.spelled s.cwd) taken := fun taken =>
        ⟨hforward, hne, hnull, hspelled, isPlain_temporaryName key part, hshort, hopen, hfree, rfl⟩
      have happend : ∀ taken, (s.disk.put (p.spelled s.cwd ++ [temporaryName key part])
          (.file [])).append (p.spelled s.cwd ++ [temporaryName key part]) taken =
            s.disk.put (p.spelled s.cwd ++ [temporaryName key part]) (.file taken) := by
        intro taken
        rw [Disk.append, Disk.get?_put, if_pos rfl]
        exact Disk.put_put ..
      simp only [(steady_createNamed place key.text maxDraws).mayRun_bind, hrun] at h
      obtain ⟨filled, left, hfill, hrest⟩ := mayRun_bind.1 h
      rcases fill_cases hfill with ⟨rfl, rfl⟩ | ⟨cause, torn, rfl, rfl⟩
      · cases hrest
        exact ⟨_, _, rfl, .inl ⟨place, part, rfl, by rw [happend]; exact hwrites bytes⟩⟩
      · -- What was written of it is removed.
        simp only [happend] at hrest
        rw [(steady_remove _).mayRun_bind, run_remove] at hrest
        simp only [(hwrites (bytes.take torn)).remove hd, System.change_ok] at hrest
        cases hrest
        exact ⟨_, _, rfl, .inr ⟨⟨_, rfl⟩, rfl⟩⟩
    · simp only [(steady_createNamed place key.text maxDraws).mayRun_bind, hrun] at h
      cases h
      exact ⟨_, _, rfl, .inr ⟨⟨_, rfl⟩, rfl⟩⟩

end Files

/-! ### From the building directory to the waiting task's place -/

namespace Task

variable {t : Task} {s : System} {u : Update}

/-- The directories that are made when the task is queued. -/
def waysOf (t : Task) (cwd : Location) : List Location :=
  [t.layout.home cwd ++ ["building"],
    t.layout.home cwd ++ (t.layout.waitingPlace t.key).directory]

theorem not_prefix_waysOf {pl : Place} {cwd : Location} :
    ∀ way ∈ t.waysOf cwd, ¬t.layout.home cwd ++ pl.names <+: way := by
  intro way hway hp
  rcases List.mem_pair.1 hway with rfl | rfl
  · rw [List.prefix_append_right_inj] at hp
    have hhead := pl.head?_names_ne
    cases pl <;> simp [Place.names, Place.directory] at hp
  · rw [List.prefix_append_right_inj] at hp
    exact pl.not_prefix_directory _ hp

/-- A file in the making goes to the task's place, where nothing was, or it is removed again. -/
theorem run_publishFile_forward (h : t.layout.events.IsForward) {d : Disk} (hd : d.IsLinkless)
    {place : Path} {n : String} {bytes : Bytes}
    (hwrites : d.Writes s.disk s.cwd place n (t.layout.home s.cwd ++ ["building"]) bytes) :
    ∃ r d', (t.publishFile (place.join n)).run s = (r, { s with
        disk := d'
        log := s.log ++ [.written (place.join n) t.subject] ++ [.publishing (place.join n)
          (t.layout.pathOf (t.layout.waitingPlace t.key)) t.subject] }) ∧
      (r = .ok () ∧ Disk.checkPath (t.layout.pathOf (t.layout.waitingPlace t.key)) = .ok () ∧
          (d.get? (t.layout.home s.cwd ++ (t.layout.waitingPlace t.key).names) = none →
            d'.IsLinkless ∧
            d' = d.put (t.layout.home s.cwd ++ (t.layout.waitingPlace t.key).names)
              (.file bytes)) ∨
        (∃ error, r = .error error) ∧ d' = d) := by
  have hwaiting := t.waitingPath_eq
  generalize t.layout.waitingPlace t.key = pl at hwaiting ⊢
  have hd' := hwrites.isLinkless hd
  rw [publishFile, run_bind, run_note, hwaiting]
  simp only [run_bind, run_note]
  generalize s.log ++ [Event.written (place.join n) t.subject] ++
    [Event.publishing (place.join n) (t.layout.pathOf pl) t.subject] = noted
  cases hrename : s.disk.rename s.cwd (place.join n) (t.layout.pathOf pl) with
  | error cause =>
    rw [Files.move_refused (s := { s with log := noted }) hrename]
    simp only [run_bind]
    rw [Files.delete_removed (s := { s with log := noted }) (hwrites.remove hd)]
    exact ⟨_, _, rfl, .inr ⟨⟨_, rfl⟩, rfl⟩⟩
  | ok d' =>
    rw [Files.move_moved (s := { s with log := noted }) hrename]
    have htarget := t.layout.spelled_directoryOf_concat s.cwd pl
    have hapart : ["building", n] ≠ pl.names := fun heq => pl.head?_names_ne (heq ▸ rfl)
    obtain ⟨-, hc, hopen, hmoved⟩ := hd'.rename_forward hwrites.forward hwrites.ne_empty
      hwrites.plain (Layout.isForward_directoryOf h pl) (t.layout.text_directoryOf_ne_empty pl)
      pl.key.isPlain_text (by
        rw [htarget, hwrites.spelled, List.append_assoc]
        exact fun heq => hapart (List.append_cancel_left heq)) hrename
    have htree := hmoved.isLinkless hd' hwrites.plain pl.key.isPlain_text hopen
    rw [htarget, hwrites.spelled] at hmoved
    exact ⟨_, _, rfl, .inl ⟨rfl, hc, fun hfree => ⟨htree, hwrites.moved hd.toIsTree hmoved hfree⟩⟩⟩

theorem filter_names_building_ne_nil (layout : Layout) :
    layout.building.names.filter (· ≠ ".") ≠ [] := by
  rw [Layout.building, Path.names_join _ (IsState.isPlain (.inl rfl))]
  simp

/-- What writing the record of a task that is not at its place comes to, whichever writes are
refused. What it tells is for debugging. -/
theorem publish_forward (h : t.layout.events.IsForward) (hd : s.disk.IsLinkless)
    (hidle : s.disk.exists? s.cwd (t.layout.pathOf (t.layout.waitingPlace t.key)) = false)
    {r : Except StoreError Unit} {s' : System} (hmay : (t.publish u).MayRun s r s') :
    ∃ d drawn events, s' = { s with disk := d, drawn, log := s.log ++ events } ∧
      (∀ event ∈ events, event.level = .debug) ∧ d.IsLinkless ∧
      (r = .ok () ∧ Disk.checkPath (t.layout.pathOf (t.layout.waitingPlace t.key)) = .ok () ∧
          (∃ d₀, s.disk.Paves d₀ (t.waysOf s.cwd) ∧
            d = d₀.put (t.layout.home s.cwd ++ (t.layout.waitingPlace t.key).names)
              (.file u.record)) ∨
        (∃ error, r = .error error) ∧ s.disk.Paves d (t.waysOf s.cwd)) := by
  have hbuilding : t.layout.building.spelled s.cwd = t.layout.home s.cwd ++ ["building"] :=
    t.layout.spelled_state s.cwd (.inl rfl)
  have hempty : t.layout.building.text ≠ "" :=
    Path.text_join_ne_empty t.layout.refUpdates (IsState.isPlain (.inl rfl))
  have hforward : t.layout.building.IsForward := Layout.isForward_state h (.inl rfl)
  obtain ⟨r₁, d₁, hrun₁, hd₁, hpaves₁, hok₁⟩ :=
    Files.run_ensureDirectory_forward hd hforward hempty
  have hpaved₁ : s.disk.Paves d₁ (t.waysOf s.cwd) :=
    hpaves₁.mono (by simp [waysOf, hbuilding])
  rw [publish, (Files.steady_ensureDirectory _).mayRun_bind, hrun₁] at hmay
  cases r₁ with
  | error error =>
    cases hmay
    exact ⟨d₁, s.drawn, [], by simp, by simp, hd₁, .inr ⟨⟨_, rfl⟩, hpaved₁⟩⟩
  | ok _ =>
  obtain ⟨r₂, d₂, hrun₂, hd₂, hpaves₂, -⟩ := Layout.run_ensureParent_forward
    (s := { s with disk := d₁ }) h hd₁ (t.layout.waitingPlace t.key)
  have hpaved₂ : s.disk.Paves d₂ (t.waysOf s.cwd) :=
    hpaved₁.trans (hpaves₂.mono (by simp [waysOf]))
  simp only [(Files.steady_ensureParent t.waitingPath).mayRun_bind] at hmay
  rw [t.waitingPath_eq, hrun₂] at hmay
  cases r₂ with
  | error error =>
    cases hmay
    exact ⟨d₂, s.drawn, [], by simp, by simp, hd₂, .inr ⟨⟨_, rfl⟩, hpaved₂⟩⟩
  | ok _ =>
  obtain ⟨r₃, s₃, hwrite, hrest⟩ := mayRun_bind.1 hmay
  obtain ⟨d₃, drawn, rfl, hwritten⟩ := Files.writeNew_forward
    (s := { s with disk := d₂ }) hd₂ hforward hempty (filter_names_building_ne_nil t.layout)
    (hpaves₂.provides (hok₁ rfl)) hwrite
  rcases hwritten with ⟨place, part, rfl, hwrites⟩ | ⟨⟨error, rfl⟩, rfl⟩
  · rw [hbuilding] at hwrites
    obtain ⟨r₄, d₄, hrun₄, hpublished⟩ := run_publishFile_forward (t := t)
      (s := { s with disk := d₃, drawn }) h hd₂ hwrites
    simp only [(t.steady_publishFile _).mayRun_iff] at hrest
    rw [hrun₄] at hrest
    cases hrest
    refine ⟨d₄, drawn, [.written (place.join (temporaryName t.key part)) t.subject,
      .publishing (place.join (temporaryName t.key part))
        (t.layout.pathOf (t.layout.waitingPlace t.key)) t.subject], by simp, by simp [Event.level],
      ?_⟩
    rcases hpublished with ⟨rfl, hc, hmoved⟩ | ⟨⟨error, rfl⟩, rfl⟩
    · -- Nothing was at the place, so nothing is now.
      have hfree : d₂.get? (t.layout.home s.cwd ++ (t.layout.waitingPlace t.key).names) = none := by
        rw [(hpaved₂ _).get?_eq not_prefix_waysOf]
        exact Layout.free_pathOf h hd hc hidle
      obtain ⟨htree, rfl⟩ := hmoved hfree
      exact ⟨htree, .inl ⟨rfl, hc, d₂, hpaved₂, rfl⟩⟩
    · exact ⟨hd₂, .inr ⟨⟨_, rfl⟩, hpaved₂⟩⟩
  · cases hrest
    exact ⟨_, drawn, [], by simp, by simp, hd₂, .inr ⟨⟨_, rfl⟩, hpaved₂⟩⟩

/-- The task waits if there is an entry at one of its places. -/
theorem run_isWaiting_any (t : Task) (s : System) :
    t.isWaiting.run s =
      (t.waitingPlaces.any fun pl => s.disk.exists? s.cwd (t.layout.pathOf pl), s) := by
  unfold isWaiting
  rw [run_exists?_bind, t.waitingPath_eq]
  split
  · rename_i hfirst
    have hany : (t.waitingPlaces.any fun pl => s.disk.exists? s.cwd (t.layout.pathOf pl)) = true :=
      List.any_eq_true.2 ⟨_, t.waitingPlace_mem, hfirst⟩
    rw [hany]
    rfl
  · rename_i hfirst
    rcases t.waitingPlaces_eq with ⟨hplaces, hlayout⟩ | ⟨hplaces, hlayout⟩
    · rw [hplaces, hlayout]
      simp [hfirst]
    · rw [hplaces, hlayout]
      simp [hfirst, flatWaitingPath_eq]

/-- Where a task that does not wait is queued there is nothing yet. -/
theorem exists?_of_idle (hidle : (t.isWaiting.run s).1 = false) :
    s.disk.exists? s.cwd (t.layout.pathOf (t.layout.waitingPlace t.key)) = false := by
  rw [run_isWaiting_any] at hidle
  rw [Bool.eq_false_iff]
  exact List.any_eq_false.1 hidle _ t.waitingPlace_mem

/-- A task waits when its record is at its place. -/
theorem isWaiting_queued (h : t.layout.events.IsForward) (hd : s.disk.IsLinkless)
    (hc : Disk.checkPath (t.layout.pathOf (t.layout.waitingPlace t.key)) = .ok ()) {bytes : Bytes}
    (hfile : s.disk.get? (t.layout.home s.cwd ++ (t.layout.waitingPlace t.key).names) =
      some (.file bytes)) : (t.isWaiting.run s).1 = true := by
  rw [run_isWaiting_any]
  exact List.any_eq_true.2 ⟨_, t.waitingPlace_mem,
    (Layout.exists?_pathOf_forward h hd _).2 ⟨hc, Option.isSome_iff_exists.2 ⟨_, hfile⟩⟩⟩

/-- Nothing on the way to where a task is queued changes whether it waits. -/
theorem isWaiting_paved (h : t.layout.events.IsForward) (hd : s.disk.IsLinkless) {s' : System}
    (hcwd : s'.cwd = s.cwd) (hd' : s'.disk.IsLinkless)
    (hpaves : s.disk.Paves s'.disk (t.waysOf s.cwd)) :
    (t.isWaiting.run s').1 = (t.isWaiting.run s).1 := by
  rw [run_isWaiting_any, run_isWaiting_any]
  refine List.any_congr rfl fun pl => ?_
  rw [Bool.eq_iff_iff, hcwd, Layout.exists?_pathOf_forward h hd',
    Layout.exists?_pathOf_forward h hd,
    (hpaves _).get?_eq not_prefix_waysOf]

end Task

/-! ### Queueing -/

namespace Disk

/-- Both disks hold the same files. -/
def SameFiles (d d' : Disk) : Prop :=
  ∀ l bytes, d'.get? l = some (.file bytes) ↔ d.get? l = some (.file bytes)

/-- The second disk holds one file more. -/
structure AddsFile (d d' : Disk) (l : Location) (bytes : Bytes) : Prop where
  free : d.get? l = none
  added : d'.get? l = some (.file bytes)
  others : ∀ k, k ≠ l → ∀ other,
    d'.get? k = some (.file other) ↔ d.get? k = some (.file other)

theorem AddsFile.not_sameFiles {d d' : Disk} {l : Location} {bytes : Bytes}
    (h : d.AddsFile d' l bytes) : ¬d.SameFiles d' := by
  intro hsame
  have hbefore := (hsame l bytes).1 h.added
  rw [h.free] at hbefore
  cases hbefore

end Disk

/-- What is left when an update was to be queued: its whole record, or nothing of it. -/
structure Store.QueuesWhole (store : Store) (u : Update) (s s' : System) : Prop where
  cwd : s'.cwd = s.cwd
  tree : s'.disk.IsLinkless
  either : Xor (s.disk.SameFiles s'.disk)
    (s.disk.AddsFile s'.disk ((store.layout.waitingPath (.derive u)).spelled s.cwd)
      (Utf8.encode (u.toJson ++ "\n")))
  /-- No file is left in the making. -/
  building : ∀ names bytes,
    s'.disk.get? (store.layout.building.spelled s.cwd ++ names) = some (.file bytes) →
      s.disk.get? (store.layout.building.spelled s.cwd ++ names) = some (.file bytes)
  /-- The task waited before, or an event says why it does not now. -/
  nothing : s.disk.SameFiles s'.disk →
    s.disk.Paves s'.disk ((store.task u).waysOf s.cwd) ∧
      (((store.task u).isWaiting.run s).1 = true ∧ s'.disk = s.disk ∨
        ((store.task u).isWaiting.run s').1 = false ∧ ∃ events error,
          s'.log = s.log ++ events ∧ .notCreated u error ∈ events ∧
            (Event.notCreated u error).level = .warn)
  /-- The task did not wait before, and queueing it again changes nothing. -/
  added : s.disk.AddsFile s'.disk ((store.layout.waitingPath (.derive u)).spelled s.cwd)
      (Utf8.encode (u.toJson ++ "\n")) →
    (∀ l, l ≠ (store.layout.waitingPath (.derive u)).spelled s.cwd →
      s.disk.PavedAt s'.disk ((store.task u).waysOf s.cwd) l) ∧
      ((store.task u).isWaiting.run s).1 = false ∧
      s'.disk.contents s'.cwd (store.layout.waitingPath (.derive u)) =
        .ok (Utf8.encode (u.toJson ++ "\n")) ∧
      ∃ log, (store.create u).run s' = (.derive u, { s' with log })

namespace Store

variable {store : Store} {u : Update} {s : System}

theorem queuesWhole_waiting (hd : s.disk.IsLinkless)
    (hwaits : ((store.task u).isWaiting.run s).1 = true) (log : List Event) :
    store.QueuesWhole u s { s with log } := by
  have hsame : s.disk.SameFiles s.disk := fun _ _ => Iff.rfl
  exact ⟨rfl, hd, .inl ⟨hsame, fun hadds => hadds.not_sameFiles hsame⟩, fun _ _ => id,
    fun _ => ⟨.refl _ _, .inl ⟨hwaits, rfl⟩⟩, fun hadds => absurd hsame hadds.not_sameFiles⟩

theorem queuesWhole_failed (h : store.layout.events.IsForward) (hd : s.disk.IsLinkless)
    (hidle : ((store.task u).isWaiting.run s).1 = false) {s' : System} (hcwd : s'.cwd = s.cwd)
    (hd' : s'.disk.IsLinkless) (hpaves : s.disk.Paves s'.disk ((store.task u).waysOf s.cwd))
    {events : List Event} {error : StoreError} (hlog : s'.log = s.log ++ events)
    (hevent : .notCreated u error ∈ events) : store.QueuesWhole u s s' := by
  have hsame : s.disk.SameFiles s'.disk := fun l bytes => (hpaves l).file_iff
  have hwaits := Task.isWaiting_paved (t := store.task u) h hd hcwd hd' hpaves
  exact ⟨hcwd, hd', .inl ⟨hsame, fun hadds => hadds.not_sameFiles hsame⟩,
    fun names bytes => (hsame _ bytes).1,
    fun _ => ⟨hpaves, .inr ⟨hwaits.trans hidle, events, error, hlog, hevent, rfl⟩⟩,
    fun hadds => absurd hsame hadds.not_sameFiles⟩

/-- Nothing is done for a task that waits. -/
theorem create_again (hwaits : ((store.task u).isWaiting.run s).1 = true) {key : TaskKey}
    {s' : System} (hmay : (store.create u).MayRun s key s') :
    key = .derive u ∧ s' = { s with log := s.log ++ [.alreadyWaiting (.update u)] } := by
  have hrun : (store.task u).isWaiting.run s = (true, s) := by
    rw [Task.run_isWaiting_any] at hwaits ⊢
    rw [← hwaits]
  obtain ⟨_, created, hcreate, hkey⟩ := mayRun_bind.1 hmay
  cases hkey
  rw [Task.create, (Task.steady_isWaiting _).mayRun_bind, hrun] at hcreate
  simp only [↓reduceIte] at hcreate
  have hnote := (steady_perform rfl).mayRun_iff.1 hcreate
  exact ⟨rfl, (congrArg Prod.snd hnote).symm⟩

theorem run_create_waiting (hwaits : ((store.task u).isWaiting.run s).1 = true) :
    (store.create u).run s =
      (.derive u, { s with log := s.log ++ [.alreadyWaiting (.update u)] }) :=
  Prod.ext_iff.2 (create_again hwaits (mayRun_run _ _))

theorem queuesWhole_queued (h : store.layout.events.IsForward) (hd : s.disk.IsLinkless)
    (hidle : ((store.task u).isWaiting.run s).1 = false) {s' : System} (hcwd : s'.cwd = s.cwd)
    (hd' : s'.disk.IsLinkless)
    (hc : Disk.checkPath (store.layout.pathOf (store.layout.waitingPlace (.derive u))) = .ok ())
    {d : Disk} (hpaves : s.disk.Paves d ((store.task u).waysOf s.cwd))
    (hdisk : s'.disk = d.put (store.layout.home s.cwd ++
      (store.layout.waitingPlace (.derive u)).names) (.file u.record)) :
    store.QueuesWhole u s s' := by
  have htarget : (store.layout.waitingPath (.derive u)).spelled s.cwd =
      store.layout.home s.cwd ++ (store.layout.waitingPlace (.derive u)).names := by
    rw [← store.layout.pathOf_waitingPlace, Layout.spelled_pathOf]
  have hother : ∀ l, l ≠ store.layout.home s.cwd ++
      (store.layout.waitingPlace (.derive u)).names →
        s.disk.PavedAt s'.disk ((store.task u).waysOf s.cwd) l := by
    intro l hl
    unfold Disk.PavedAt
    rw [hdisk, Disk.get?_put, if_neg hl]
    exact hpaves l
  have hadded : s'.disk.get? (store.layout.home s.cwd ++
      (store.layout.waitingPlace (.derive u)).names) = some (.file u.record) := by
    rw [hdisk, Disk.get?_put, if_pos rfl]
  have hfree : s.disk.get? (store.layout.home s.cwd ++
      (store.layout.waitingPlace (.derive u)).names) = none :=
    Layout.free_pathOf h hd hc (Task.exists?_of_idle (t := store.task u) hidle)
  have hadds : s.disk.AddsFile s'.disk ((store.layout.waitingPath (.derive u)).spelled s.cwd)
      (Utf8.encode (u.toJson ++ "\n")) := by
    rw [htarget]
    exact ⟨hfree, hadded, fun k hk other => (hother k hk).file_iff⟩
  have hwaits := Task.isWaiting_queued (t := store.task u) h hd' hc (by rw [hcwd]; exact hadded)
  have hcontents : s'.disk.contents s'.cwd (store.layout.waitingPath (.derive u)) =
      .ok u.record := by
    rw [← store.layout.pathOf_waitingPlace, hcwd, Layout.contents_pathOf_forward h hd']
    exact ⟨hc, hadded⟩
  refine ⟨hcwd, hd', .inr ⟨hadds, hadds.not_sameFiles⟩, fun names bytes hfile => ?_,
    fun hsame => absurd hsame hadds.not_sameFiles, fun _ => ⟨htarget ▸ hother, hidle, hcontents, _,
      run_create_waiting hwaits⟩⟩
  refine (hother _ fun heq => ?_).file_iff.1 hfile
  -- A waiting task is not in the building directory.
  have hbuilding : store.layout.building.spelled s.cwd = store.layout.home s.cwd ++ ["building"] :=
    store.layout.spelled_state s.cwd (.inl rfl)
  rw [hbuilding, List.append_assoc, List.append_cancel_left_eq] at heq
  exact (store.layout.waitingPlace (.derive u)).head?_names_ne (heq ▸ rfl)

/-- To queue a task that does not wait is to publish it, and to tell of it if that fails. -/
theorem create_idle (hidle : ((store.task u).isWaiting.run s).1 = false) {key : TaskKey}
    {s' : System} (hmay : (store.create u).MayRun s key s') :
    key = .derive u ∧ ∃ r left, ((store.task u).publish u).MayRun s r left ∧
      s' = match r with
        | .ok () => left
        | .error error => { left with log := left.log ++ [.notCreated u error] } := by
  have hrun : (store.task u).isWaiting.run s = (false, s) := by
    rw [Task.run_isWaiting_any] at hidle ⊢
    rw [← hidle]
  have hupdate : (store.task u).subject = .update u := rfl
  obtain ⟨_, created, hcreate, hkey⟩ := mayRun_bind.1 hmay
  cases hkey
  refine ⟨rfl, ?_⟩
  rw [Task.create, (Task.steady_isWaiting _).mayRun_bind, hrun] at hcreate
  simp only [Bool.false_eq_true, ↓reduceIte, hupdate] at hcreate
  obtain ⟨r, left, hpublish, hrest⟩ := mayRun_bind.1 hcreate
  refine ⟨r, left, hpublish, ?_⟩
  cases r with
  | ok _ =>
    cases hrest
    rfl
  | error error =>
    have hnote := (steady_perform rfl).mayRun_iff.1 hrest
    exact (congrArg Prod.snd hnote).symm

/-- Queueing an update is all or nothing in any tree without links, whatever names are drawn and
whichever writes are refused. -/
theorem queuesWhole_of_mayRun (hd : s.disk.IsLinkless) (h : store.layout.events.IsForward)
    {key : TaskKey} {s' : System} (hmay : (store.create u).MayRun s key s') :
    key = .derive u ∧ store.QueuesWhole u s s' := by
  cases hwaits : ((store.task u).isWaiting.run s).1 with
  | true =>
    obtain ⟨rfl, rfl⟩ := create_again hwaits hmay
    exact ⟨rfl, queuesWhole_waiting hd hwaits _⟩
  | false =>
    obtain ⟨rfl, r, left, hpublish, rfl⟩ := create_idle hwaits hmay
    obtain ⟨d, drawn, events, rfl, -, hd', hcases⟩ :=
      Task.publish_forward (t := store.task u) h hd (Task.exists?_of_idle hwaits) hpublish
    refine ⟨rfl, ?_⟩
    rcases hcases with ⟨rfl, hc, d₀, hpaves, hdisk⟩ | ⟨⟨error, rfl⟩, hpaves⟩
    · exact queuesWhole_queued h hd hwaits rfl hd' hc hpaves hdisk
    · exact queuesWhole_failed h hd hwaits rfl hd' hpaves (List.append_assoc ..)
        (List.mem_append_right _ (List.mem_singleton_self _))

end Store

/-! ### A disk for each case -/

theorem Site.spelled_waitingPath_here (u : Update) :
    ((layoutHere 0 .sharded).waitingPath (.derive u)).spelled [] =
      ["ref-updates"] ++ (Place.sharded (.derive u)).names := by
  have hhome : (layoutHere 0 .sharded).home [] = ["ref-updates"] := by decide
  rw [← Layout.pathOf_waitingPlace, Layout.spelled_pathOf, hhome]
  rfl

namespace Session

theorem shows_opened :
    Site.blank.Shows .fresh (opened (Site.layoutHere 0 .sharded)).system := by
  obtain ⟨hstores, hruns⟩ := runs_opened (n := 0) (w := .sharded) (by decide)
  exact hruns.shows_of_mem (hstores ▸ List.mem_singleton_self _)

theorem isLinkless_opened : (opened (Site.layoutHere 0 .sharded)).system.disk.IsLinkless :=
  shows_opened.isLinkless Disk.isLinkless_blank fun _ _ _ =>
    Queue.isPlain_of_get? (fun _ => rfl) (by simp [Queue.fresh])

end Session

namespace Store

variable {u : Update} {s' : System}

/-- The record of an update that was queued in an empty queue is at its task's place. -/
theorem get?_create_opened (u : Update) :
    (((Store.mk (Site.layoutHere 0 .sharded) false).create u).run
      (Session.opened (Site.layoutHere 0 .sharded)).system).2.disk.get?
      (["ref-updates"] ++ (Place.sharded (.derive u)).names) = some (.file u.record) := by
  have hserves : Site.blank.Serves (Store.mk (Site.layoutHere 0 .sharded) false).layout :=
    Session.serves_blank .sharded
  obtain ⟨-, made, -, hmade, hshows⟩ := Session.shows_opened.run_createUpdate hserves u
  obtain rfl : made = true := hmade (Session.writes_blank .sharded) ⟨0, by decide, rfl⟩
  rw [Queue.create_fresh_sharded (Session.reaches_blank .sharded) rfl] at hshows
  have hrecord := hshows.inside (Place.sharded (.derive u)).names
  rw [Queue.get?_names, Queue.files_set_self] at hrecord
  exact hrecord

/-- Below a file there is no place for a record. -/
theorem QueuesWhole.sameFiles_of_blocked {s : System}
    (h : (Store.mk (Site.layoutHere 0 .sharded) false).QueuesWhole u s s') (hcwd : s.cwd = [])
    (hblocked : s.disk.get? ["ref-updates"] = some (.file [])) : s.disk.SameFiles s'.disk := by
  refine h.either.elim And.left fun hright => ?_
  have hadds := hright.1
  rw [hcwd, Site.spelled_waitingPath_here] at hadds
  have hfile :=
    (hadds.others ["ref-updates"] (by simp [Place.names, Place.directory]) []).2 hblocked
  have hbelow := h.tree.get?_below_leaf hfile rfl "waiting"
    [(TaskKey.derive u).shard, (TaskKey.derive u).text]
  cases hbelow.symm.trans hadds.added

/-- Queueing an update is all or nothing in any tree without links, whatever names are drawn. -/
theorem create_all_or_nothing (store : Store) (u : Update) (s : System)
    (htree : s.disk.IsLinkless) (hforward : ".." ∉ store.layout.events.names) :
    ((store.create u).run s).1 = .derive u ∧
      store.QueuesWhole u s ((store.create u).run s).2 :=
  queuesWhole_of_mayRun htree hforward (mayRun_run _ _)

/-- Where a file stands in the way of the queue's directory nothing is added, and in an empty queue
the record is. -/
theorem create_all_or_nothing_either :
    ∃ store u blocked opened, store = Store.mk (Site.layoutHere 0 .sharded) false ∧
      u = ⟨"p", "refs/heads/m", "https://h/p", "h"⟩ ∧
      blocked = { Session.blank.system with disk := Disk.blank.put ["ref-updates"] (.file []) } ∧
      opened = (Session.opened (Site.layoutHere 0 .sharded)).system ∧
      ".." ∉ store.layout.events.names ∧
      (blocked.disk.IsLinkless ∧ ((store.create u).run blocked).1 = .derive u ∧
        store.QueuesWhole u blocked ((store.create u).run blocked).2 ∧
        blocked.disk.SameFiles ((store.create u).run blocked).2.disk) ∧
      opened.disk.IsLinkless ∧ ((store.create u).run opened).1 = .derive u ∧
        store.QueuesWhole u opened ((store.create u).run opened).2 ∧
        opened.disk.AddsFile ((store.create u).run opened).2.disk
          ((store.layout.waitingPath (.derive u)).spelled opened.cwd)
          (Utf8.encode (u.toJson ++ "\n")) := by
  have hforward : ".." ∉ (Site.layoutHere 0 .sharded).events.names := by decide
  have hblocked : (Disk.blank.put ["ref-updates"] (.file [])).IsLinkless :=
    Disk.isLinkless_blank.put_file isPlain_refUpdates (l := []) rfl rfl []
  refine ⟨_, _, _, _, rfl, rfl, rfl, rfl, hforward, ?_⟩
  generalize (⟨"p", "refs/heads/m", "https://h/p", "h"⟩ : Update) = u
  obtain ⟨hkey, hwhole⟩ := create_all_or_nothing ⟨Site.layoutHere 0 .sharded, false⟩ u
    { Session.blank.system with disk := Disk.blank.put ["ref-updates"] (.file []) } hblocked
    hforward
  obtain ⟨hkey', hwhole'⟩ := create_all_or_nothing ⟨Site.layoutHere 0 .sharded, false⟩ u
    (Session.opened (Site.layoutHere 0 .sharded)).system Session.isLinkless_opened hforward
  have hsame := hwhole.sameFiles_of_blocked rfl (by rw [Disk.get?_put, if_pos rfl])
  refine ⟨⟨hblocked, hkey, hwhole, hsame⟩, Session.isLinkless_opened, hkey', hwhole', ?_⟩
  -- The record was not there before, so the files are not the same.
  refine hwhole'.either.elim (fun hleft => ?_) And.left
  have hbefore := (hleft.1 _ _).1 (get?_create_opened u)
  have hnone := Session.shows_opened.inside (Place.sharded (.derive u)).names
  rw [Queue.get?_names] at hnone
  cases hnone.symm.trans hbefore

end Store

end ReplicationQueue
