import ReplicationQueue.Proofs.Transition

/-! Queueing a task. The record is written under a new name in the building directory and then moved
to its place, through the absolute form of the path; whether the record can be written depends on
the length of that form and on there being a name that is free. -/

namespace ReplicationQueue

attribute [local irreducible] Path.isTooLong

/-- A directory that was not removed is entered name by name. -/
theorem Disk.IsTree.straight {d : Disk} (h : d.IsTree) {l : Location} {e : Entry}
    (he : d.get? l = some e) (hd : e.isDirectory) (hne : e ≠ .removed) : d.Straight l := by
  induction l using List.reverseRecOn generalizing e with
  | nil => exact ⟨by simp, by simp⟩
  | append_singleton l n ih =>
    have hplain : IsPlain n := by
      rcases h.plain l n e he with hn | hn
      · exact hn
      · exact absurd hn hne
    have hl : d.Straight l := by
      rcases h.inside l n e he with hl | ⟨_, hl⟩
      · exact ih hl rfl (by simp)
      · exact ih hl rfl (by simp)
    refine ⟨fun m hm => ?_, fun k m rest hk => ?_⟩
    · rcases List.mem_append.1 hm with hm | hm
      · exact hl.plain m hm
      · rw [List.mem_singleton.1 hm]
        exact hplain
    · rcases List.eq_nil_or_concat rest with rfl | ⟨front, last, rfl⟩
      · obtain ⟨rfl, hm⟩ := List.append_inj' hk rfl
        cases hm
        rw [he]
        exact hd
      · rw [List.concat_eq_append, ← List.cons_append, ← List.append_assoc] at hk
        exact hl.directory k m front (List.append_inj' hk rfl).1

/-- Whether one of the names that are drawn next is free. -/
def Queue.HasRoom (q : Queue) (key : TaskKey) (s : System) : Prop :=
  ∃ i < Files.maxDraws, q.building (temporaryName key (s.names (s.drawn + i))) = none

namespace Site

/-- The absolute form of the building directory's path, unless the working directory is gone. -/
def place? (site : Site) (layout : Layout) : Option Path :=
  if layout.building.isAbsolute then some layout.building
  else if site.disk.get? site.cwd = some .removed then none
  else some (site.cwd.path.join layout.building.text)

/-- Whether records can be written through the layout. -/
def writes (site : Site) (layout : Layout) : Bool :=
  (site.place? layout).any fun p => p.text.utf8ByteSize + 47 ≤ maxPathBytes

variable {site : Site} {layout : Layout} {q : Queue} {s : System} {key : TaskKey}

theorem place?_eq {p : Path} (hp : site.place? layout = some p) :
    p = layout.building ∨
      layout.building.isAbsolute = false ∧ p = site.cwd.path.join layout.building.text := by
  unfold place? at hp
  split at hp
  · exact .inl (Option.some.inj hp).symm
  · rename_i habsolute
    split at hp
    · cases hp
    · exact .inr ⟨by simpa using habsolute, (Option.some.inj hp).symm⟩

theorem utf8ByteSize_building_le {p : Path} (hp : site.place? layout = some p) :
    layout.building.text.utf8ByteSize ≤ p.text.utf8ByteSize := by
  rcases place?_eq hp with rfl | ⟨-, rfl⟩
  · exact Nat.le_refl _
  · exact Path.utf8ByteSize_le_join _ _

theorem getLast?_place {p : Path} (hp : site.place? layout = some p) :
    p.text.toList.getLast? ≠ some '/' := by
  have hbuilding : layout.building.text.toList.getLast? ≠ some '/' :=
    Path.getLast?_join _ (IsState.isPlain (.inl rfl))
  have hempty : layout.building.text ≠ "" :=
    Path.text_join_ne_empty layout.refUpdates (IsState.isPlain (.inl rfl))
  have hne : layout.building.text.toList ≠ [] := by simpa using hempty
  rcases place?_eq hp with rfl | ⟨hrelative, rfl⟩
  · exact hbuilding
  · rw [Path.toList_join_of_relative _ hrelative, List.getLast?_append,
      List.getLast?_eq_some_getLast hne, Option.some_or, ← List.getLast?_eq_some_getLast hne]
    exact hbuilding

theorem length_of_writes (h : site.writes layout = true) :
    layout.building.text.utf8ByteSize + 47 ≤ maxPathBytes := by
  unfold writes at h
  cases hp : site.place? layout with
  | none =>
    rw [hp] at h
    cases h
  | some p =>
    have hlength : p.text.utf8ByteSize + 47 ≤ maxPathBytes := by simpa [hp] using h
    have hle := utf8ByteSize_building_le hp
    omega

theorem fits_of_writes (h : site.writes layout = true) : layout.building.isTooLong = false := by
  have hlength := length_of_writes h
  unfold Path.isTooLong
  rw [decide_eq_false_iff_not]
  omega

theorem reaches_of_writes (h : site.writes layout = true) (pl : Place) :
    layout.reaches pl = true := by
  have hlength := length_of_writes h
  rw [layout.utf8ByteSize_building] at hlength
  have hsharded : layout.reaches (.sharded pl.key) = true := by
    unfold Layout.reaches Path.isTooLong
    rw [layout.utf8ByteSize_pathOf_sharded, Bool.not_eq_true', decide_eq_false_iff_not]
    omega
  exact Layout.reaches_of_sharded hsharded pl

namespace Shows

open Plan

theorem get?_cwd (h : site.Shows q s) : s.disk.get? s.cwd = site.disk.get? site.cwd := by
  rw [h.cwd]
  refine h.outside _ fun hbelow => ?_
  obtain ⟨names, hnames⟩ := hbelow
  have hhome := site.isHome
  rw [← hnames, site.get?_root] at hhome
  simp at hhome

theorem run_absolute (h : site.Shows q s) :
    (Files.absolute layout.building).run s =
      (match site.place? layout with
        | none => .error .notFound
        | some p => .ok p, s) := by
  unfold Files.absolute place?
  by_cases habsolute : layout.building.isAbsolute
  · rw [if_pos habsolute, if_pos habsolute]
    rfl
  · rw [if_neg habsolute, if_neg habsolute, run_bind, run_workingDirectory,
      System.workingDirectory, h.get?_cwd]
    by_cases hremoved : site.disk.get? site.cwd = some .removed
    · rw [if_pos hremoved, if_pos hremoved]
      rfl
    · rw [if_neg hremoved, if_neg hremoved, h.cwd]
      rfl

theorem leads_place (h : site.Shows q s) (ho : site.Opens layout) {p : Path}
    (hp : site.place? layout = some p) :
    s.disk.Leads s.cwd p (site.root ++ ["building"]) := by
  have hleads : s.disk.Leads s.cwd layout.building (site.root ++ ["building"]) :=
    h.leads_state ho (.inl rfl)
  unfold place? at hp
  split at hp
  · cases hp
    exact hleads
  · rename_i habsolute
    split at hp
    · cases hp
    · rename_i hremoved
      cases hp
      have hstraight : s.disk.Straight s.cwd := by
        have hhome := site.isHome
        rw [h.cwd]
        cases he : site.disk.get? site.cwd with
        | none => simp [he] at hhome
        | some e =>
          refine (site.isTree.straight he ?_ ?_).extends h.extends_disk
          · simpa [he] using hhome
          · rintro rfl
            exact hremoved he
      rw [← h.cwd]
      exact hleads.absolute hstraight (by simpa using habsolute)

theorem isTooLong_temporary (h : site.Shows q s) (ho : site.Opens layout) {p : Path}
    (hp : site.place? layout = some p) (part : NamePart) :
    (p.join (temporaryName key part)).isTooLong = !site.writes layout := by
  have hsize := Path.utf8ByteSize_join (h.leads_place ho hp).ne_empty (getLast?_place hp)
    (isPlain_temporaryName key part)
  rw [utf8ByteSize_temporaryName] at hsize
  unfold writes Path.isTooLong
  rw [hp, hsize, Option.any_some, ← decide_not]
  apply decide_eq_decide.2
  omega

/-- A name is drawn until one is free, as long as there are draws left. -/
theorem run_createNamed (h : site.Shows q s) (ho : site.Opens layout) {p : Path}
    (hp : site.place? layout = some p) (hw : site.writes layout = true) (key : TaskKey)
    (draws : Nat) :
    (∃ part s', (Files.createNamed p key.text draws).run s =
        (.ok (p.join (temporaryName key part),
          site.root ++ ["building", temporaryName key part]), s') ∧
        q.building (temporaryName key part) = none ∧
        site.Shows (q.build (temporaryName key part) (some [])) s') ∨
      (∀ i < draws, (q.building (temporaryName key (s.names (s.drawn + i)))).isSome) ∧
        ∃ error s', (Files.createNamed p key.text draws).run s = (.error error, s') ∧
          site.Shows q s' := by
  induction draws generalizing s with
  | zero => exact .inr ⟨by simp, _, s, rfl, h⟩
  | succ draws ih =>
    have hdrawn : site.Shows q { s with drawn := s.drawn + 1 } := h.congr rfl rfl
    have hopen : (s.disk.get? (site.root ++ ["building"])).any Entry.isOpen := by
      rw [h.get?_state (.inl rfl)]
      rfl
    have hcreate := (h.leads_place ho hp).createFile_join
      (isPlain_temporaryName key (s.names s.drawn)) hopen
    have hget : s.disk.get? (site.root ++ ["building"] ++ [temporaryName key (s.names s.drawn)]) =
        (q.building (temporaryName key (s.names s.drawn))).map .file := by
      rw [List.append_assoc, h.inside]
      exact q.get?_building _
    rw [h.isTooLong_temporary ho hp, hw, hget, Option.isSome_map] at hcreate
    rw [Files.createNamed, run_bind, run_drawName]
    simp only [run_bind]
    rw [← temporaryName]
    cases hbuilding : q.building (temporaryName key (s.names s.drawn)) with
    | none =>
      rw [hbuilding] at hcreate
      refine .inl ⟨s.names s.drawn, _, ?_, hbuilding, hdrawn.build _ []⟩
      rw [run_createFile_ok (s := { s with drawn := s.drawn + 1 }) hcreate, List.append_assoc]
      rfl
    | some bytes =>
      rw [hbuilding] at hcreate
      rw [run_createFile_error (s := { s with drawn := s.drawn + 1 }) hcreate]
      rcases ih hdrawn with hmade | ⟨htaken, hfailed⟩
      · exact .inl hmade
      · refine .inr ⟨fun i hi => ?_, hfailed⟩
        cases i with
        | zero => simp [hbuilding]
        | succ i =>
          have := htaken i (by omega)
          rwa [show s.drawn + (i + 1) = s.drawn + 1 + i by omega]

/-- No file is made where its path is too long. -/
theorem run_createNamed_long (h : site.Shows q s) (ho : site.Opens layout) {p : Path}
    (hp : site.place? layout = some p) (hw : site.writes layout = false) (key : TaskKey)
    (draws : Nat) :
    ∃ cause s', (Files.createNamed p key.text draws).run s = (.error cause, s') ∧
      site.Shows q s' := by
  cases draws with
  | zero => exact ⟨_, s, rfl, h⟩
  | succ draws =>
    have hopen : (s.disk.get? (site.root ++ ["building"])).any Entry.isOpen := by
      rw [h.get?_state (.inl rfl)]
      rfl
    have hcreate := (h.leads_place ho hp).createFile_join
      (isPlain_temporaryName key (s.names s.drawn)) hopen
    rw [h.isTooLong_temporary ho hp, hw] at hcreate
    rw [Files.createNamed, run_bind, run_drawName]
    simp only [run_bind]
    rw [← temporaryName, run_createFile_error (s := { s with drawn := s.drawn + 1 }) hcreate]
    exact ⟨_, _, rfl, h.congr rfl rfl⟩

theorem run_writeNew (h : site.Shows q s) (ho : site.Opens layout) (key : TaskKey) (u : Update) :
    (∃ p part s', site.place? layout = some p ∧ site.writes layout = true ∧
        (Files.writeNew layout.building key.text u.record).run s =
          (.ok (p.join (temporaryName key part)), s') ∧
        q.building (temporaryName key part) = none ∧
        site.Shows (q.build (temporaryName key part) (some u.record)) s') ∨
      (site.writes layout = true → ¬q.HasRoom key s) ∧
        ∃ error s', (Files.writeNew layout.building key.text u.record).run s = (.error error, s') ∧
          site.Shows q s' := by
  rw [Files.writeNew, run_bind, h.run_absolute]
  cases hp : site.place? layout with
  | none => exact .inr ⟨by simp [writes, hp], _, s, rfl, h⟩
  | some p =>
    simp only [run_bind]
    cases hw : site.writes layout with
    | false =>
      obtain ⟨cause, s', hrun, h'⟩ := h.run_createNamed_long ho hp hw key Files.maxDraws
      rw [hrun]
      exact .inr ⟨by simp, _, s', rfl, h'⟩
    | true =>
      rcases h.run_createNamed ho hp hw key Files.maxDraws with
        ⟨part, s', hrun, hfree, h'⟩ | ⟨htaken, cause, s', hrun, h'⟩
      · rw [hrun]
        refine .inl ⟨p, part, _, rfl, rfl, rfl, hfree, ?_⟩
        have hempty : (q.build (temporaryName key part) (some [])).building
            (temporaryName key part) = some [] := by
          rw [Queue.building_build, if_pos rfl]
        have happend := h'.append hempty u.record
        rw [Queue.build_build] at happend
        exact happend
      · rw [hrun]
        refine .inr ⟨fun _ => ?_, _, s', rfl, h'⟩
        rintro ⟨i, hi, hfree⟩
        have := htaken i hi
        rw [hfree] at this
        cases this

theorem rename_temporary (h : site.Shows q s) (ho : site.Opens layout) {p : Path}
    (hp : site.place? layout = some p) (hw : site.writes layout = true) {pl : Place}
    (hpl : q.Houses pl) {part : NamePart} {bytes : Bytes}
    (hbuilt : q.building (temporaryName key part) = some bytes) :
    s.disk.rename s.cwd (p.join (temporaryName key part)) (layout.pathOf pl) =
      .ok (s.disk.moveTree (site.root ++ ["building", temporaryName key part])
        (site.root ++ pl.names)) := by
  have hsource : s.disk.get? (site.root ++ ["building"] ++ [temporaryName key part]) =
      some (.file bytes) := by
    rw [List.append_assoc, h.inside]
    show q.get? ["building", _] = _
    rw [q.get?_building, hbuilt]
    rfl
  have hopen : (s.disk.get? (site.root ++ pl.directory)).any Entry.isOpen := by
    rw [h.get?_directory hpl]
    rfl
  have hvolume : s.disk.volume (site.root ++ ["building"]) =
      s.disk.volume (site.root ++ pl.directory) := by
    rw [h.volume_directory hpl,
      Disk.volume_concat _ _ _ (by simp [h.get?_state (.inl rfl), Entry.isMount])]
  have htarget : ∀ e, s.disk.get? (site.root ++ pl.directory ++ [pl.key.text]) = some e →
      ∃ contents, e = .file contents := by
    intro e he
    rw [h.get?_place] at he
    obtain ⟨u, -, rfl⟩ := Option.map_eq_some_iff.1 he
    exact ⟨_, rfl⟩
  have hapart := pl.not_prefix_building (temporaryName key part)
  have hreach := reaches_of_writes hw pl
  rw [Layout.pathOf, (h.leads_place ho hp).rename_join (h.leads_directory ho hpl)
    (isPlain_temporaryName key part) pl.key.isPlain_text hopen hvolume
    (fun e he => ⟨bytes, by rw [hsource] at he; exact (Option.some.inj he).symm⟩) htarget
    (by simpa [Place.names, List.prefix_append_right_inj] using hapart.2)
    (by simpa [Place.names, List.prefix_append_right_inj] using hapart.1),
    h.isTooLong_temporary ho hp, hw, layout.isTooLong_pathOf, hreach, hsource]
  simp [Place.names]

variable {t : Task}

theorem run_publishFile {disk : Disk} {temporary : Path}
    (hmove : s.disk.rename s.cwd temporary t.waitingPath = .ok disk) :
    ∃ log, (t.publishFile temporary).run s = (.ok (), { s with disk, log }) := by
  let noted : System := { s with log := s.log ++ [.written temporary t.subject] ++
    [.publishing temporary t.waitingPath t.subject] }
  have hrun : (Files.move temporary t.waitingPath).run noted = (.ok (), { noted with disk }) :=
    Files.move_moved hmove
  rw [Task.publishFile, run_bind, run_note]
  simp only [run_bind, run_note]
  rw [hrun]
  exact ⟨_, rfl⟩

/-- What a task that does not wait becomes. -/
theorem run_publish (h : site.Shows q s) (hs : site.Serves t.layout) (u : Update) :
    ∃ made : Bool, (made = true → site.writes t.layout = true) ∧
      (site.writes t.layout = true → q.HasRoom t.key s → made = true) ∧
      site.Shows
        (match q.provision t.layout (t.layout.waitingPlace t.key) with
          | none => q
          | some q => if made then q.set (t.layout.waitingPlace t.key) (some u) else q)
        ((t.publish u).run s).2 := by
  have hbuilding : (Files.ensureDirectory t.layout.building).run s = (.ok (), s) :=
    h.ensureDirectory_state hs (.inl rfl)
  have hparent := h.ensureParent_pathOf hs (t.layout.waitingPlace t.key)
  rw [Task.publish, run_bind, hbuilding]
  simp only [run_bind]
  rw [t.waitingPath_eq]
  rcases q.provision_cases t.layout (t.layout.waitingPlace t.key) with
    hnone | ⟨q', hsome, hhouses, -, hsame⟩
  · rw [hnone] at hparent ⊢
    obtain ⟨error, herror⟩ := hparent
    rw [herror]
    exact ⟨site.writes t.layout, id, fun hw _ => hw, h⟩
  · rw [hsome] at hparent ⊢
    obtain ⟨disk, hrun, h'⟩ := hparent
    rw [hrun]
    simp only [run_bind]
    rcases h'.run_writeNew hs.opens t.key u with
      ⟨p, part, s', hp, hw, hwrite, hfree, hbuilt⟩ | ⟨htaken, error, s', hwrite, hfailed⟩
    · rw [hwrite]
      refine ⟨true, fun _ => hw, fun _ _ => rfl, ?_⟩
      have hrecord : (q'.build (temporaryName t.key part) (some u.record)).building
          (temporaryName t.key part) = some u.record := by
        rw [Queue.building_build, if_pos rfl]
      have hmove := hbuilt.rename_temporary hs.opens hp hw hhouses hrecord
      have hdone := hbuilt.publish hrecord hhouses
      rw [Queue.build_build, Queue.build_eq_self hfree] at hdone
      rw [← t.waitingPath_eq] at hmove
      obtain ⟨log, hpublish⟩ := run_publishFile hmove
      rw [hpublish]
      exact hdone.congr rfl rfl
    · rw [hwrite]
      refine ⟨false, by simp, fun hw hroom => ?_, hfailed⟩
      refine absurd ?_ (htaken hw)
      obtain ⟨i, hi, hfree⟩ := hroom
      exact ⟨i, hi, by rw [hsame]; exact hfree⟩

/-- A task is queued as the queue says, provided that a name is free for its record. -/
theorem run_create (h : site.Shows q s) (hs : site.Serves t.layout) {u : Update}
    (ht : t.subject = .update u) :
    ∃ made : Bool, (made = true → site.writes t.layout = true) ∧
      (site.writes t.layout = true → q.HasRoom t.key s → made = true) ∧
      site.Shows (q.create t.layout made u) (t.create.run s).2 := by
  have hkey : t.key = .derive u := by rw [Task.key, ht, Subject.taskKey]
  rw [Task.create, run_bind, h.run_isWaiting hs]
  cases hwaiting : q.isWaiting t.layout t.key with
  | true =>
    refine ⟨site.writes t.layout, id, fun hw _ => hw, ?_⟩
    rw [Queue.create, ← hkey, hwaiting]
    exact h.congr rfl rfl
  | false =>
    obtain ⟨made, hwrites, hroom, hshows⟩ := h.run_publish hs u
    refine ⟨made, hwrites, hroom, ?_⟩
    rw [Queue.create, ← hkey, hwaiting, if_neg (by simp), if_neg (by simp)]
    simp only [ht]
    rw [run_bind]
    generalize (t.publish u).run s = r at hshows
    obtain ⟨answer, s'⟩ := r
    cases answer with
    | ok _ => exact hshows
    | error error => exact hshows.congr rfl rfl

end Shows

end Site

end ReplicationQueue
