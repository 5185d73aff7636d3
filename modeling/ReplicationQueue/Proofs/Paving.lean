import ReplicationQueue.Proofs.Spelling
import ReplicationQueue.Proofs.Provision

/-! Making a directory and what it lies in, in any tree without links. Whatever stands in the way,
directories are made where nothing was, on the way to the one that is asked for, and nothing else is
changed; and if no error is answered, the path leads to a directory. -/

namespace ReplicationQueue

attribute [local irreducible] Path.isTooLong

open Plan

namespace Disk

/-- What stood at the location does, or a directory was made where nothing was, on the way to one of
the targets. -/
def PavedAt (d d' : Disk) (targets : List Location) (l : Location) : Prop :=
  d'.get? l = d.get? l ∨
    d.get? l = none ∧ d'.get? l = some .directory ∧ ∃ target ∈ targets, l <+: target

/-- Directories were made where nothing was, on the way to the targets, and nothing else. -/
def Paves (d d' : Disk) (targets : List Location) : Prop :=
  ∀ l, d.PavedAt d' targets l

variable {d d' d'' : Disk} {cwd l : Location} {p : Path} {targets more : List Location}

namespace PavedAt

theorem of_some (h : d.PavedAt d' targets l) {e : Entry} (he : d.get? l = some e) :
    d'.get? l = some e := by
  rcases h with heq | ⟨hnone, -, -⟩
  · rw [heq, he]
  · rw [hnone] at he
    cases he

theorem get?_eq (h : d.PavedAt d' targets l) (hl : ∀ target ∈ targets, ¬l <+: target) :
    d'.get? l = d.get? l := by
  rcases h with heq | ⟨-, -, target, hmem, hprefix⟩
  · exact heq
  · exact absurd hprefix (hl target hmem)

/-- No file is made or changed. -/
theorem file_iff (h : d.PavedAt d' targets l) {bytes : Bytes} :
    d'.get? l = some (.file bytes) ↔ d.get? l = some (.file bytes) := by
  constructor
  · intro hfile
    rcases h with heq | ⟨-, hdir, -⟩
    · rw [← heq, hfile]
    · rw [hfile] at hdir
      cases hdir
  · exact h.of_some

end PavedAt

namespace Paves

theorem refl (d : Disk) (targets : List Location) : d.Paves d targets := fun _ => .inl rfl

theorem mono (h : d.Paves d' targets)
    (hmore : ∀ target ∈ targets, ∃ other ∈ more, target <+: other) : d.Paves d' more := by
  intro l
  refine (h l).imp_right fun ⟨hnone, hmade, target, hmem, hprefix⟩ => ⟨hnone, hmade, ?_⟩
  obtain ⟨other, hother, hway⟩ := hmore target hmem
  exact ⟨other, hother, hprefix.trans hway⟩

theorem trans (h : d.Paves d' targets) (h' : d'.Paves d'' targets) : d.Paves d'' targets := by
  intro l
  rcases h' l with heq | ⟨hnone, hmade, hway⟩
  · unfold PavedAt
    rw [heq]
    exact h l
  · rcases h l with heq | ⟨-, hdir, -⟩
    · exact .inr ⟨heq ▸ hnone, hmade, hway⟩
    · rw [hnone] at hdir
      cases hdir

theorem provides (h : d.Paves d' targets) (hp : d.Provides cwd p) : d'.Provides cwd p where
  noNull := hp.noNull
  directory := by
    obtain ⟨e, he, hdir⟩ := (Option.any_eq_true ..).1 hp.directory
    rw [(h _).of_some he]
    exact hdir

end Paves

/-- What one call makes: the tree stays one, and the path leads to the new directory. -/
theorem IsLinkless.paves_makeDirectory (hd : d.IsLinkless) (hp : p.IsForward)
    (h : d.makeDirectory cwd p = .ok d') :
    d'.IsLinkless ∧ d.Paves d' [p.spelled cwd] ∧ d'.Provides cwd p := by
  obtain ⟨hc, l, n, hspelled, hn, hopen, hfree, rfl⟩ := hd.makeDirectory_forward hp h
  refine ⟨hd.put_directory hn hopen hfree, fun k => ?_, (checkPath_eq_ok.1 hc).1, ?_⟩
  · by_cases hk : k = l ++ [n]
    · refine .inr ⟨hk ▸ hfree, by rw [get?_put, if_pos hk], _, List.mem_singleton_self _, ?_⟩
      simp only [hspelled, hk, List.prefix_rfl]
    · exact .inl (by rw [get?_put, if_neg hk])
  · rw [hspelled, get?_put, if_pos rfl]
    rfl

end Disk

namespace Files

/-- What making a directory comes to, whatever stands in the way. -/
theorem run_ensureWithin_forward (depth : Nat) {s : System} {p : Path} (hd : s.disk.IsLinkless)
    (hp : p.IsForward) :
    ∃ r d, (ensureWithin depth p).run s = (r, { s with disk := d }) ∧ d.IsLinkless ∧
      s.disk.Paves d [p.spelled s.cwd] ∧ (r = .ok () → p.text = "" ∨ d.Provides s.cwd p) := by
  induction depth generalizing p s with
  | zero => exact ⟨_, _, rfl, hd, .refl _ _, by simp⟩
  | succ depth ih =>
    by_cases hempty : p.text = ""
    · exact ⟨.ok (), s.disk, by rw [ensureWithin, if_pos hempty]; rfl, hd, .refl _ _,
        fun _ => .inl hempty⟩
    -- A directory that stands there already will do.
    have there : ∀ {d : Disk}, d.IsLinkless → ∀ {cause : Cause},
        (if d.isDirectory s.cwd p then Except.ok () else .error cause) = Except.ok () →
          d.Provides s.cwd p := by
      intro d hd cause hok
      split at hok
      · rename_i hdir
        obtain ⟨hc, hget⟩ := hd.isDirectory_forward hp hdir
        exact ⟨(Disk.checkPath_eq_ok.1 hc).1, hget⟩
      · cases hok
    cases hmake : s.disk.makeDirectory s.cwd p with
    | ok d =>
      obtain ⟨hd', hpaves, hprovides⟩ := hd.paves_makeDirectory hp hmake
      exact ⟨_, _, ensureWithin_made depth hempty hmake, hd', hpaves, fun _ => .inr hprovides⟩
    | error cause =>
      by_cases hcause : cause = .notFound
      · subst hcause
        cases hparent : p.parent? with
        | none =>
          refine ⟨.error .other, s.disk, ?_, hd, .refl _ _, by simp⟩
          rw [ensureWithin, if_neg hempty, run_bind, run_makeDirectory, hmake, System.change_error]
          simp only [hparent]
          rfl
        | some parent =>
          obtain ⟨r, d, hrun, hd', hway, -⟩ := ih hd (hp.of_parent? hparent)
          have hpaves : s.disk.Paves d [p.spelled s.cwd] := hway.mono (by
            simpa using Path.spelled_prefix_of_parent? s.cwd hparent)
          cases r with
          | error cause =>
            exact ⟨_, _, ensureWithin_stopped hempty hmake hparent hrun, hd', hpaves, by simp⟩
          | ok _ =>
            cases hagain : d.makeDirectory s.cwd p with
            | ok d' =>
              obtain ⟨hd'', hmore, hprovides⟩ := hd'.paves_makeDirectory hp hagain
              have hretried := ensureWithin_retried hempty hmake hparent hrun hagain
              exact ⟨_, _, hretried, hd'', hpaves.trans hmore, fun _ => .inr hprovides⟩
            | error cause =>
              have hrefused := ensureWithin_refused_again hempty hmake hparent hrun hagain
              exact ⟨_, _, hrefused, hd', hpaves, fun hok => .inr (there hd' hok)⟩
      · exact ⟨_, _, ensureWithin_refused depth hempty hmake hcause, hd, .refl _ _,
          fun hok => .inr (there hd hok)⟩

theorem run_ensureDirectory_forward {s : System} {p : Path} (hd : s.disk.IsLinkless)
    (hp : p.IsForward) (hempty : p.text ≠ "") :
    ∃ r d, (ensureDirectory p).run s = (r, { s with disk := d }) ∧ d.IsLinkless ∧
      s.disk.Paves d [p.spelled s.cwd] ∧ (r = .ok () → d.Provides s.cwd p) := by
  obtain ⟨r, d, hrun, hd', hpaves, hok⟩ := run_ensureWithin_forward (p.text.length + 2) hd hp
  obtain ⟨r', hrun', hr⟩ := run_ensureDirectory hrun
  exact ⟨r', d, hrun', hd', hpaves, fun h => (hok (hr h)).resolve_left hempty⟩

end Files

/-! ### The directories of a queue -/

namespace Layout

/-- The location that the path of the queue's directory spells. -/
def home (layout : Layout) (cwd : Location) : Location :=
  layout.refUpdates.spelled cwd

variable {layout : Layout} {cwd : Location}

theorem isForward_refUpdates (h : layout.events.IsForward) : layout.refUpdates.IsForward :=
  h.join isPlain_refUpdates

theorem isForward_state (h : layout.events.IsForward) {state : String} (hs : IsState state) :
    (layout.refUpdates.join state).IsForward :=
  (isForward_refUpdates h).join hs.isPlain

theorem isForward_directoryOf (h : layout.events.IsForward) (pl : Place) :
    (layout.directoryOf pl).IsForward := by
  cases pl with
  | running key => exact isForward_state h (.inr (.inl rfl))
  | flat key => exact isForward_state h (.inr (.inr rfl))
  | sharded key => exact (isForward_state h (.inr (.inr rfl))).join key.isPlain_shard

theorem text_directoryOf_ne_empty (layout : Layout) (pl : Place) :
    (layout.directoryOf pl).text ≠ "" := by
  cases pl with
  | running key => exact Path.text_join_ne_empty _ (IsState.isPlain (.inr (.inl rfl)))
  | flat key => exact Path.text_join_ne_empty _ (IsState.isPlain (.inr (.inr rfl)))
  | sharded key => exact Path.text_join_ne_empty _ key.isPlain_shard

theorem spelled_state (layout : Layout) (cwd : Location) {state : String} (hs : IsState state) :
    (layout.refUpdates.join state).spelled cwd = layout.home cwd ++ [state] :=
  Path.spelled_join cwd (Path.text_join_ne_empty _ isPlain_refUpdates) hs.isPlain

theorem spelled_directoryOf (layout : Layout) (cwd : Location) (pl : Place) :
    (layout.directoryOf pl).spelled cwd = layout.home cwd ++ pl.directory := by
  cases pl with
  | running key => exact layout.spelled_state cwd (.inr (.inl rfl))
  | flat key => exact layout.spelled_state cwd (.inr (.inr rfl))
  | sharded key =>
    have hwaiting := layout.spelled_state cwd (.inr (.inr rfl))
    have hempty : layout.waiting.text ≠ "" :=
      Path.text_join_ne_empty _ (IsState.isPlain (.inr (.inr rfl)))
    rw [directoryOf, Path.spelled_join cwd hempty key.isPlain_shard, waiting, hwaiting,
      List.append_assoc]
    rfl

theorem spelled_directoryOf_concat (layout : Layout) (cwd : Location) (pl : Place) :
    (layout.directoryOf pl).spelled cwd ++ [pl.key.text] = layout.home cwd ++ pl.names := by
  rw [spelled_directoryOf, List.append_assoc, Place.names]

theorem spelled_pathOf (layout : Layout) (cwd : Location) (pl : Place) :
    (layout.pathOf pl).spelled cwd = layout.home cwd ++ pl.names := by
  rw [pathOf, Path.spelled_join cwd (layout.text_directoryOf_ne_empty pl) pl.key.isPlain_text,
    spelled_directoryOf_concat]

/-- Making the directory of a place comes to this, whatever stands in the way. -/
theorem run_ensureParent_forward {s : System} (h : layout.events.IsForward)
    (hd : s.disk.IsLinkless) (pl : Place) :
    ∃ r d, (Files.ensureParent (layout.pathOf pl)).run s = (r, { s with disk := d }) ∧
      d.IsLinkless ∧ s.disk.Paves d [layout.home s.cwd ++ pl.directory] ∧
      (r = .ok () → d.Provides s.cwd (layout.directoryOf pl)) := by
  rw [Files.ensureParent_eq (layout.parent?_pathOf pl), ← spelled_directoryOf]
  exact Files.run_ensureDirectory_forward hd (isForward_directoryOf h pl)
    (layout.text_directoryOf_ne_empty pl)

end Layout

end ReplicationQueue
