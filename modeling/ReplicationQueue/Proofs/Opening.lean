import ReplicationQueue.Proofs.Creation
import ReplicationQueue.Store

/-! Opening a queue. Where no queue is yet its directories are made; where one is it is left as it
is. Nothing is made where the paths are too long. -/

namespace ReplicationQueue

attribute [local irreducible] Path.isTooLong

theorem Queue.get?_fresh (names : Location) :
    Queue.fresh.get? names =
      if names = [] ∨ names = ["building"] ∨ names = ["running"] ∨ names = ["waiting"] then
        some .directory
      else none := by
  unfold Queue.get?
  cases hplace : Place.ofNames? names with
  | some pl =>
    rw [Place.ofNames?_eq_some_iff] at hplace
    subst hplace
    rw [if_neg]
    · rfl
    · cases pl <;> simp [Place.names, Place.directory]
  | none =>
    rcases names with - | ⟨state, - | ⟨name, - | ⟨_, _⟩⟩⟩
    · simp [Queue.frame?, Queue.isDirectory]
    · simp [Queue.frame?, Queue.isDirectory]
    · simp [Queue.frame?, Queue.isDirectory, fresh]
    · simp [Queue.frame?, Queue.isDirectory]

namespace Site

variable {site : Site} {layout : Layout} {q : Queue} {s : System}

open Plan

/-- The disk is as it was before there was a queue. -/
structure IsBareIn (site : Site) (s : System) : Prop where
  disk : s.disk = site.disk
  cwd : s.cwd = site.cwd

theorem Opens.leads (ho : site.Opens layout) {d : Disk} (he : Disk.Extends site.disk d) :
    d.Leads site.cwd layout.events site.base := by
  refine Disk.leads_of_locate (Disk.locate_extends he ho) ?_
  have hopen := site.isOpen
  cases hbase : site.disk.get? site.base with
  | none => simp [hbase] at hopen
  | some e =>
    rw [he _ _ hbase]
    rw [hbase] at hopen
    cases e <;> simp_all [Entry.isOpen, Entry.isDirectory]

theorem Opens.isOpen_base {d : Disk} (he : Disk.Extends site.disk d) :
    (d.get? site.base).any Entry.isOpen := by
  have hopen := site.isOpen
  cases hbase : site.disk.get? site.base with
  | none => simp [hbase] at hopen
  | some e =>
    rw [he _ _ hbase]
    rwa [hbase] at hopen

theorem extends_put {d : Disk} (he : Disk.Extends site.disk d) (names : Location) (e : Entry) :
    Disk.Extends site.disk (d.put (site.root ++ names) e) := by
  intro l x hx
  rw [Disk.get?_put, if_neg]
  · exact he l x hx
  · rintro rfl
    rw [site.get?_root] at hx
    cases hx

/-- A directory that is missing from the queue's directory is made. -/
theorem run_ensureDirectory_state (hs : site.Serves layout) (hcwd : s.cwd = site.cwd)
    (he : Disk.Extends site.disk s.disk) (hroot : s.disk.get? site.root = some .directory)
    {state : String} (hstate : IsState state)
    (hmissing : s.disk.get? (site.root ++ [state]) = none) :
    (Files.ensureDirectory (layout.refUpdates.join state)).run s =
      (.ok (), { s with disk := s.disk.put (site.root ++ [state]) .directory }) := by
  have hleads : s.disk.Leads s.cwd layout.refUpdates site.root := by
    rw [hcwd]
    exact (hs.opens.leads he).join isPlain_refUpdates hroot rfl
  have hmake := hleads.makeDirectory_join hstate.isPlain (by rw [hroot]; rfl)
  rw [hs.state_fits hstate, hmissing] at hmake
  exact Files.ensureDirectory_made (Path.text_join_ne_empty _ hstate.isPlain) hmake

theorem run_ensureDirectory_building (hs : site.Serves layout) (h : site.IsBareIn s) :
    (Files.ensureDirectory layout.building).run s =
      (.ok (), { s with disk :=
        (site.disk.put site.root .directory).put (site.root ++ ["building"]) .directory }) := by
  obtain ⟨disk, cwd, names, drawn, log⟩ := s
  obtain ⟨hdisk, hcwd⟩ := h
  change disk = site.disk at hdisk
  change cwd = site.cwd at hcwd
  subst hdisk hcwd
  have hself : Disk.Extends site.disk site.disk := fun _ _ hx => hx
  have hplain : IsPlain "building" := IsState.isPlain (.inl rfl)
  have hfits : ((layout.events.join "ref-updates").join "building").isTooLong = false := hs.fits
  have hshort : (layout.events.join "ref-updates").isTooLong = false := hs.refUpdates_fits
  have hleads := hs.opens.leads hself
  have hmissing := hleads.makeDirectory_join_join isPlain_refUpdates hplain site.isBare
  rw [hfits] at hmissing
  have hparent := hleads.makeDirectory_join isPlain_refUpdates (Opens.isOpen_base hself)
  rw [hshort, site.isBare] at hparent
  -- With the queue's directory made, the building directory can be.
  have hextends := extends_put hself [] .directory
  rw [List.append_nil] at hextends
  have hroot : (site.disk.put site.root .directory).get? site.root = some .directory := by simp
  have hleads' : (site.disk.put site.root .directory).Leads site.cwd
      (layout.events.join "ref-updates") site.root :=
    (hs.opens.leads hextends).join isPlain_refUpdates hroot rfl
  have hmake := hleads'.makeDirectory_join hplain (by rw [hroot]; rfl)
  have hnone : (site.disk.put site.root .directory).get? (site.root ++ ["building"]) = none := by
    rw [Disk.get?_put, if_neg (by simp), site.get?_root]
  rw [hfits, hnone] at hmake
  exact Files.ensureDirectory_below (Path.text_join_ne_empty _ hplain) hmissing
    (Path.parent?_join_join _ isPlain_refUpdates hplain)
    (Path.text_join_ne_empty _ isPlain_refUpdates) hparent hmake

/-- The disk with the directories of a queue. -/
def openedDisk (site : Site) : Disk :=
  (((site.disk.put site.root .directory).put (site.root ++ ["building"]) .directory).put
    (site.root ++ ["running"]) .directory).put (site.root ++ ["waiting"]) .directory

theorem shows_openedDisk (h : s.cwd = site.cwd) :
    site.Shows .fresh { s with disk := site.openedDisk } where
  cwd := h
  inside names := by
    show site.openedDisk.get? _ = _
    rw [openedDisk, Queue.get?_fresh]
    simp only [Disk.get?_put, List.append_cancel_left_eq, List.append_right_eq_self, site.get?_root]
    by_cases hnil : names = []
    · simp [hnil]
    by_cases hbuilding : names = ["building"]
    · simp [hbuilding]
    by_cases hrunning : names = ["running"]
    · simp [hrunning]
    simp [hnil, hbuilding, hrunning]
  outside l hl := by
    have hne : ∀ names, l ≠ site.root ++ names := by
      rintro names rfl
      exact hl (List.prefix_append _ _)
    have hroot : l ≠ site.root := by simpa using hne []
    show site.openedDisk.get? _ = _
    simp only [openedDisk, Disk.get?_put, if_neg (hne _), if_neg hroot]
  housed pl hpl := by simp [Queue.fresh] at hpl

/-- Opening makes the directories of a queue that is not there yet. -/
theorem run_ensure_bare (hs : site.Serves layout) (h : site.IsBareIn s) :
    layout.ensure.run s = (.ok (), { s with disk := site.openedDisk }) := by
  have hself : Disk.Extends site.disk site.disk := fun _ _ hx => hx
  have hextends := extends_put hself [] .directory
  rw [List.append_nil] at hextends
  replace hextends := extends_put hextends ["building"] .directory
  let built : System := { s with
    disk := (site.disk.put site.root .directory).put (site.root ++ ["building"]) .directory }
  let running : System := { s with disk := built.disk.put (site.root ++ ["running"]) .directory }
  have hbuilding : (Files.ensureDirectory layout.building).run s = (.ok (), built) :=
    run_ensureDirectory_building hs h
  have hrunning : (Files.ensureDirectory layout.running).run built = (.ok (), running) :=
    run_ensureDirectory_state (s := built) hs h.cwd hextends (by simp [built]) (.inr (.inl rfl))
      (by simp [built, site.get?_root])
  rw [Layout.ensure, run_bind, hbuilding]
  simp only [run_bind, hrunning]
  exact run_ensureDirectory_state (s := running) hs h.cwd
    (extends_put hextends ["running"] .directory) (by simp [running, built]) (.inr (.inr rfl))
    (by simp [running, built, site.get?_root])

/-- Opening leaves a queue that is there as it is. -/
theorem Shows.run_ensure (hs : site.Serves layout) (h : site.Shows q s) :
    layout.ensure.run s = (.ok (), s) := by
  have hbuilding : (Files.ensureDirectory layout.building).run s = (.ok (), s) :=
    h.ensureDirectory_state hs (.inl rfl)
  have hrunning : (Files.ensureDirectory layout.running).run s = (.ok (), s) :=
    h.ensureDirectory_state hs (.inr (.inl rfl))
  rw [Layout.ensure, run_bind, hbuilding]
  simp only [run_bind, hrunning]
  exact h.ensureDirectory_state hs (.inr (.inr rfl))

theorem Shows.run_ofLayout (h : site.Shows q s) (hs : site.Serves layout) :
    (Store.ofLayout layout).run s =
      (.ok ⟨layout, false⟩, { s with log := s.log ++ [.opened layout] }) := by
  rw [Store.ofLayout, run_bind, h.run_ensure hs]
  rfl

/-- Nothing is made where the building directory's path is too long. -/
theorem Opens.run_ensure_long (ho : site.Opens layout) (hlong : layout.building.isTooLong)
    (s : System) : ∃ error, layout.ensure.run s = (.error error, s) := by
  have hself : Disk.Extends site.disk site.disk := fun _ _ hx => hx
  have hplain : IsPlain "building" := IsState.isPlain (.inl rfl)
  have hnull : '\x00' ∉ layout.building.text.toList :=
    Path.null_mem_join hplain (Path.null_mem_join isPlain_refUpdates (ho.leads hself).noNull)
  have hrefused := Files.ensureDirectory_refused (Path.text_join_ne_empty layout.refUpdates hplain)
    (s.disk.makeDirectory_long s.cwd hnull hlong) (by simp)
  rw [← Layout.building, s.disk.isDirectory_long s.cwd hnull hlong] at hrefused
  rw [Layout.ensure, run_bind, hrefused]
  exact ⟨_, rfl⟩

end Site

end ReplicationQueue
