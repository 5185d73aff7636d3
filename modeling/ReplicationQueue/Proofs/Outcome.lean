import ReplicationQueue.Proofs.Deed
import ReplicationQueue.Proofs.Motion
import ReplicationQueue.Proofs.Paving
import ReplicationQueue.Proofs.Restart
import ReplicationQueue.Proofs.Taking

/-! What the outcome of a transition tells, in any tree without links. A transition that was applied
took one entry away, from the first of the task's places where one was, and put it with all its
contents where the task is now; one that was not applied left every entry where it was, and if it
was skipped there was none to take. -/

namespace ReplicationQueue

attribute [local irreducible] Path.isTooLong

open Plan

theorem Plan.run_exists?_bind {α : Type} (p : Path) (f : Bool → Plan α) (s : System) :
    (exists? p >>= f).run s = (f (s.disk.exists? s.cwd p)).run s := rfl

/-! ### An entry that is taken -/

namespace Disk

/-- What was at the source is gone from there and stands at the target, if there is one, instead of
an entry with nothing below it. Nothing else is changed, but that directories are made on the
ways. -/
structure Took (d d' : Disk) (source : Location) (target? : Option Location)
    (ways : List Location) : Prop where
  there : (d.get? source).isSome
  left : ∀ names, d'.get? (source ++ names) = none
  arrived : ∀ target ∈ target?, ∀ names, d'.get? (target ++ names) = d.get? (source ++ names)
  lone : ∀ target ∈ target?, ∀ n rest, d.get? (target ++ n :: rest) = none
  kept : ∀ l, ¬source <+: l → (∀ target ∈ target?, ¬target <+: l) → d.PavedAt d' ways l

variable {d d₁ d' : Disk} {source target l : Location} {ways : List Location}

theorem Moved.took (h : d₁.Moved d' source target) (hpaves : d.Paves d₁ ways)
    (hways : ∀ way ∈ ways, ¬source <+: way) : d.Took d' source (some target) ways := by
  have hsource : ∀ names, d₁.get? (source ++ names) = d.get? (source ++ names) := fun names =>
    (hpaves _).get?_eq fun way hway hprefix =>
      hways way hway ((List.prefix_append _ _).trans hprefix)
  refine ⟨?_, h.get?_source, ?_, ?_, ?_⟩
  · have hthere := hsource []
    rw [List.append_nil] at hthere
    rw [← hthere]
    exact h.there
  · intro k hk names
    obtain rfl := Option.mem_some_iff.1 hk
    rw [h.get?_target, hsource]
  · intro k hk n rest
    obtain rfl := Option.mem_some_iff.1 hk
    rw [Option.eq_none_iff_forall_ne_some]
    intro e he
    have hlone := h.lone n rest
    rw [(hpaves _).of_some he] at hlone
    cases hlone
  · intro l hl htarget
    unfold PavedAt
    rw [h.get?_other hl (htarget target rfl)]
    exact hpaves l

theorem IsLinkless.took_erase (hd : d.IsLinkless) {e : Entry} (he : d.get? l = some e)
    (hleaf : e.isDirectory = false) : d.Took (d.erase l) l none [] := by
  refine ⟨by rw [he]; rfl, fun names => ?_, by simp, by simp, fun k hk _ => .inl ?_⟩
  · rw [get?_erase]
    cases names with
    | nil => simp
    | cons n rest => rw [hd.get?_below_leaf he hleaf, ite_self]
  · have hne : k ≠ l := fun heq => hk (heq ▸ List.prefix_rfl)
    rw [get?_erase, if_neg hne]

end Disk

/-! ### Paths of places -/

namespace Place

/-- The directory of a place has a name. -/
theorem directory_concat (pl : Place) : ∃ front n, pl.directory = front ++ [n] ∧ n ≠ "" := by
  cases pl with
  | running key => exact ⟨[], "running", rfl, by decide⟩
  | flat key => exact ⟨[], "waiting", rfl, by decide⟩
  | sharded key => exact ⟨["waiting"], key.shard, rfl, by simpa using key.isPlain_shard.ne_nil⟩

theorem not_prefix_directory (a b : Place) : ¬a.names <+: b.directory := by
  intro h
  by_cases hab : a = b
  · subst hab
    exact absurd h.length_le (by simp [names])
  · exact not_prefix hab (h.trans (List.prefix_append _ _))

end Place

namespace Layout

variable {layout : Layout} {d : Disk} {cwd : Location}

theorem null_mem_pathOf_iff (pl : Place) :
    '\x00' ∈ (layout.pathOf pl).text.toList ↔ '\x00' ∈ layout.refUpdates.text.toList := by
  have hjoin : ∀ {p : Path} {n : String}, IsPlain n →
      ('\x00' ∈ (p.join n).text.toList ↔ '\x00' ∈ p.text.toList) := fun hn =>
    not_iff_not.1 ⟨Path.null_of_join hn, Path.null_mem_join hn⟩
  rw [pathOf, hjoin pl.key.isPlain_text]
  cases pl with
  | running key => exact hjoin (IsState.isPlain (.inr (.inl rfl)))
  | flat key => exact hjoin (IsState.isPlain (.inr (.inr rfl)))
  | sharded key =>
    exact (hjoin key.isPlain_shard).trans (hjoin (IsState.isPlain (.inr (.inr rfl))))

/-- A path of a layout can be looked up if it is short enough, unless no path can. -/
theorem checkPath_pathOf (pl : Place) :
    Disk.checkPath (layout.pathOf pl) = .ok () ↔
      '\x00' ∉ layout.refUpdates.text.toList ∧ layout.reaches pl = true := by
  have hempty : (layout.pathOf pl).text ≠ "" := Path.text_join_ne_empty _ pl.key.isPlain_text
  rw [Disk.checkPath_eq_ok, null_mem_pathOf_iff, reaches]
  simp [hempty]

theorem exists?_pathOf_forward (h : layout.events.IsForward) (hd : d.IsLinkless) (pl : Place) :
    d.exists? cwd (layout.pathOf pl) = true ↔
      Disk.checkPath (layout.pathOf pl) = .ok () ∧
        (d.get? (layout.home cwd ++ pl.names)).isSome := by
  have hexists : d.exists? cwd (layout.pathOf pl) = true ↔ _ :=
    hd.exists?_forward (isForward_directoryOf h pl) (layout.text_directoryOf_ne_empty pl)
      pl.key.isPlain_text
  rwa [spelled_directoryOf_concat] at hexists

theorem exists?_pathOf_missing (h : layout.events.IsForward) (hd : d.IsLinkless) {pl : Place}
    (hnone : d.get? (layout.home cwd ++ pl.names) = none) :
    d.exists? cwd (layout.pathOf pl) = false := by
  rw [Bool.eq_false_iff]
  intro hexists
  rw [exists?_pathOf_forward h hd, hnone] at hexists
  cases hexists.2

/-- What is not found at a place, by a path that is looked up, is not there. -/
theorem free_pathOf (h : layout.events.IsForward) (hd : d.IsLinkless) {pl : Place}
    (hc : Disk.checkPath (layout.pathOf pl) = .ok ())
    (hidle : d.exists? cwd (layout.pathOf pl) = false) :
    d.get? (layout.home cwd ++ pl.names) = none := by
  by_contra hsome
  exact Bool.eq_false_iff.1 hidle
    ((exists?_pathOf_forward h hd pl).2 ⟨hc, Option.isSome_iff_ne_none.2 hsome⟩)

theorem contents_pathOf_forward (h : layout.events.IsForward) (hd : d.IsLinkless) (pl : Place)
    {bytes : Bytes} :
    d.contents cwd (layout.pathOf pl) = .ok bytes ↔
      Disk.checkPath (layout.pathOf pl) = .ok () ∧
        d.get? (layout.home cwd ++ pl.names) = some (.file bytes) := by
  have hcontents : d.contents cwd (layout.pathOf pl) = .ok bytes ↔ _ :=
    hd.contents_forward (isForward_directoryOf h pl) (layout.text_directoryOf_ne_empty pl)
      pl.key.isPlain_text
  rwa [spelled_directoryOf_concat] at hcontents

/-- The directory of a place is open if it is on one volume with a directory that it is not
around. -/
theorem isOpen_directoryOf (hd : d.IsLinkless) {src dst : Place}
    (hapart : ¬dst.directory <+: src.directory)
    (hdirectory : (d.get? ((layout.directoryOf dst).spelled cwd)).any Entry.isDirectory)
    (hvolume : d.volume ((layout.directoryOf src).spelled cwd) =
      d.volume ((layout.directoryOf dst).spelled cwd)) :
    (d.get? ((layout.directoryOf dst).spelled cwd)).any Entry.isOpen := by
  rw [spelled_directoryOf, spelled_directoryOf] at *
  obtain ⟨front, n, hdst, hn⟩ := dst.directory_concat
  rw [hdst, ← List.append_assoc] at hdirectory hvolume ⊢
  refine hd.isOpen_of_volume hn hdirectory ?_ hvolume
  rwa [List.append_assoc, ← hdst, List.prefix_append_right_inj]

end Layout

/-! ### Moving and removing a task's file -/

namespace Task

variable {t : Task} {s : System}

/-- What removing what is at a place comes to. -/
theorem run_remove_forward (h : t.layout.events.IsForward) (hd : s.disk.IsLinkless) (pl : Place)
    (noted : List Event) :
    ∃ outcome d log, (t.remove (t.layout.pathOf pl)).run { s with log := noted } =
        (outcome, { s with disk := d, log }) ∧ d.IsLinkless ∧
      (outcome = .applied ∧ s.disk.exists? s.cwd (t.layout.pathOf pl) = true ∧
          s.disk.Took d (t.layout.home s.cwd ++ pl.names) none [] ∨
        outcome = .skipped ∧ d = s.disk ∧
          s.disk.get? (t.layout.home s.cwd ++ pl.names) = none ∨
        outcome = .failed ∧ d = s.disk) := by
  have hspelled := t.layout.spelled_directoryOf_concat s.cwd pl
  have hforward := Layout.isForward_directoryOf h pl
  have hempty := t.layout.text_directoryOf_ne_empty pl
  rw [Task.remove, run_bind]
  cases hremove : s.disk.remove s.cwd (t.layout.pathOf pl) with
  | ok d =>
    obtain ⟨hc, hd', e, he, hdir⟩ :=
      hd.remove_forward hforward hempty pl.key.isPlain_text hremove
    rw [hspelled] at hd' he
    rw [Files.delete_removed (s := { s with log := noted }) hremove]
    refine ⟨_, _, _, rfl, hd' ▸ hd.erase he hdir, .inl ⟨rfl, ?_, hd' ▸ hd.took_erase he hdir⟩⟩
    exact (Layout.exists?_pathOf_forward h hd pl).2 ⟨hc, by rw [he]; rfl⟩
  | error cause =>
    by_cases hcause : cause = .notFound
    · subst hcause
      have hnone := hd.remove_notFound_forward hforward hempty pl.key.isPlain_text hremove
      rw [hspelled] at hnone
      rw [Files.delete_absent (s := { s with log := noted }) hremove]
      exact ⟨_, _, _, rfl, hd, .inr (.inl ⟨rfl, rfl, hnone⟩)⟩
    · rw [Files.delete_refused (s := { s with log := noted }) hremove hcause]
      exact ⟨_, _, _, rfl, hd, .inr (.inr ⟨rfl, rfl⟩)⟩

/-- What moving what is at one place to another comes to. -/
theorem run_move_forward (h : t.layout.events.IsForward) (hd : s.disk.IsLinkless) {src dst : Place}
    (hne : src ≠ dst) (hapart : ¬dst.directory <+: src.directory) :
    ∃ outcome d log, (t.move (t.layout.pathOf src) (t.layout.pathOf dst)).run s =
        (outcome, { s with disk := d, log }) ∧ d.IsLinkless ∧
      (outcome = .applied ∧ s.disk.exists? s.cwd (t.layout.pathOf src) = true ∧
          s.disk.Took d (t.layout.home s.cwd ++ src.names) (some (t.layout.home s.cwd ++ dst.names))
            [t.layout.home s.cwd ++ dst.directory] ∨
        outcome = .skipped ∧ s.disk.Paves d [t.layout.home s.cwd ++ dst.directory] ∧
          Disk.checkPath (t.layout.pathOf src) = .ok () ∧
          s.disk.get? (t.layout.home s.cwd ++ src.names) = none ∨
        outcome = .failed ∧ s.disk.Paves d [t.layout.home s.cwd ++ dst.directory]) := by
  have hspelled := t.layout.spelled_directoryOf_concat s.cwd
  have hforward := Layout.isForward_directoryOf h
  have hempty := t.layout.text_directoryOf_ne_empty
  obtain ⟨r, d, hrun, hd', hpaves, hok⟩ := Layout.run_ensureParent_forward h hd dst
  -- What is moved does not stand on the way.
  have hway : ∀ way ∈ [t.layout.home s.cwd ++ dst.directory],
      ¬t.layout.home s.cwd ++ src.names <+: way := by
    simpa [List.prefix_append_right_inj] using src.not_prefix_directory dst
  rw [Task.move, run_bind, hrun]
  cases r with
  | error error => exact ⟨_, _, _, rfl, hd', .inr (.inr ⟨rfl, hpaves⟩)⟩
  | ok _ =>
    simp only [run_bind, run_note]
    have hprovides := hok rfl
    cases hrename : d.rename s.cwd (t.layout.pathOf src) (t.layout.pathOf dst) with
    | ok d' =>
      obtain ⟨hc, -, hopen, hmoved⟩ := hd'.rename_forward (hforward src) (hempty src)
        src.key.isPlain_text
        (hforward dst) (hempty dst) dst.key.isPlain_text
        (by simpa [hspelled] using mt Place.names_inj.1 hne) hrename
      have htree := hmoved.isLinkless hd' src.key.isPlain_text dst.key.isPlain_text hopen
      rw [hspelled, hspelled] at hmoved
      have htook := hmoved.took hpaves hway
      rw [Files.move_moved (s := { s with disk := d, log := _ }) hrename]
      have hexists := (Layout.exists?_pathOf_forward h hd src).2 ⟨hc, htook.there⟩
      exact ⟨_, _, _, rfl, htree, .inl ⟨rfl, hexists, htook⟩⟩
    | error cause =>
      rw [Files.move_refused (s := { s with disk := d, log := _ }) hrename]
      by_cases hcause : cause = .notFound
      · subst hcause
        have hdirectory := hprovides.directory
        obtain ⟨hc, hnone⟩ := hd'.rename_notFound_forward (hforward src) (hempty src)
          src.key.isPlain_text (hforward dst) (hempty dst) dst.key.isPlain_text hdirectory
          (Layout.isOpen_directoryOf hd' hapart hdirectory) hrename
        rw [hspelled, (hpaves _).get?_eq hway] at hnone
        exact ⟨_, _, _, rfl, hd', .inr (.inl ⟨rfl, hpaves, hc, hnone⟩)⟩
      · simp only [StoreError.isNotFound_rename _ _ hcause]
        exact ⟨_, _, _, rfl, hd', .inr (.inr ⟨rfl, hpaves⟩)⟩

/-- The places where the task may wait, in the order in which they are tried. -/
def waitingPlaces (t : Task) : List Place :=
  match t.layout.waitingLayout with
  | .flat => [.flat t.key]
  | .sharded => [.sharded t.key, .flat t.key]

theorem waitingPlaces_eq (t : Task) :
    t.waitingPlaces = [t.layout.waitingPlace t.key] ∧ t.layout.waitingLayout = .flat ∨
      t.waitingPlaces = [t.layout.waitingPlace t.key, .flat t.key] ∧
        t.layout.waitingLayout = .sharded := by
  unfold waitingPlaces Layout.waitingPlace
  cases t.layout.waitingLayout with
  | flat => exact .inl ⟨rfl, rfl⟩
  | sharded => exact .inr ⟨rfl, rfl⟩

theorem mem_waitingPlaces {pl : Place} (h : pl ∈ t.waitingPlaces) :
    pl.key = t.key ∧ pl ≠ .running t.key ∧ ¬(Place.running t.key).directory <+: pl.directory := by
  unfold waitingPlaces at h
  cases hlayout : t.layout.waitingLayout <;> rw [hlayout] at h <;> simp at h
  · subst h
    simp [Place.key, Place.directory]
  · rcases h with rfl | rfl <;> simp [Place.key, Place.directory]

theorem waitingPlace_mem (t : Task) : t.layout.waitingPlace t.key ∈ t.waitingPlaces := by
  rcases t.waitingPlaces_eq with ⟨hplaces, -⟩ | ⟨hplaces, -⟩ <;> simp [hplaces]

/-- Where the path of the first place is short enough, so is that of the other. -/
theorem reaches_waitingPlaces (h : t.layout.reaches (t.layout.waitingPlace t.key) = true)
    {pl : Place} (hpl : pl ∈ t.waitingPlaces) : t.layout.reaches pl = true := by
  rcases t.waitingPlaces_eq with ⟨hplaces, -⟩ | ⟨-, hlayout⟩
  · rw [hplaces, List.mem_singleton] at hpl
    rwa [hpl]
  · rw [t.layout.waitingPlace_eq _ hlayout] at h
    exact Layout.reaches_of_sharded h pl

/-- The task is claimed from the first place where something is. -/
theorem run_currentWaitingPath_find (t : Task) (s : System) :
    t.currentWaitingPath.run s =
      (t.layout.pathOf ((t.waitingPlaces.find? fun pl =>
        s.disk.exists? s.cwd (t.layout.pathOf pl)).getD (t.layout.waitingPlace t.key)), s) := by
  unfold currentWaitingPath
  rcases t.waitingPlaces_eq with ⟨hplaces, hlayout⟩ | ⟨hplaces, hlayout⟩
  · rw [hlayout, hplaces, t.waitingPath_eq]
    simp only [List.find?_singleton, run_pure]
    split <;> rfl
  · rw [hlayout, hplaces, t.waitingPath_eq]
    simp only [run_exists?_bind]
    split
    · rename_i hfirst
      simp [List.find?, hfirst]
    · rename_i hfirst
      simp only [run_exists?_bind, t.flatWaitingPath_eq]
      split
      · rename_i hsecond
        simp [List.find?, hfirst, hsecond]
      · rename_i hsecond
        simp [List.find?, hfirst, hsecond]

theorem exists?_of_find {pl : Place}
    (hfind : (t.waitingPlaces.find? fun pl => s.disk.exists? s.cwd (t.layout.pathOf pl)) =
      some pl) : s.disk.exists? s.cwd (t.layout.pathOf pl) = true := by
  have hsome := List.find?_some hfind
  exact hsome

end Task

/-! ### Two waiting files -/

/-- However often the path of the events directory stays where it is, the queue is in the root. -/
theorem Site.home_here (n : Nat) (w : WaitingLayout) :
    (layoutHere n w).home blank.cwd = blank.root := by
  have hne : (Path.here n).text ≠ "" := by simpa [Path.here] using Path.toList_dots_ne_nil n
  rw [Layout.home, Layout.refUpdates, layoutHere, Path.spelled_join _ hne isPlain_refUpdates,
    Path.spelled, Path.names_here]
  simp [Disk.start, blank, root]

namespace Queue

variable {q : Queue} {layout : Layout} {u : Update}

/-- What is in a queue has a name, if the shards do and nothing is in the making. -/
theorem isPlain_of_get? (hbuilt : ∀ name, q.building name = none)
    (hshards : ∀ shard, q.shards shard = true → IsPlain shard) {names : Location} {n : String}
    {e : Entry} (he : q.get? (names ++ [n]) = some e) : IsPlain n := by
  rcases q.get?_cases (names ++ [n]) with hnone | hdir | ⟨contents, hfile⟩
  · rw [hnone] at he
    cases he
  · obtain ⟨-, hdir⟩ := get?_eq_directory_iff.1 hdir
    match names with
    | [] => exact IsState.isPlain (by simpa [isDirectory, IsState] using hdir)
    | [_] =>
      rw [List.singleton_append, isDirectory, Bool.and_eq_true] at hdir
      exact hshards n hdir.2
    | _ :: m :: rest => simp [isDirectory] at hdir
  · rcases get?_eq_file_iff.1 hfile with ⟨pl, _, hpl, -, -⟩ | ⟨name, -, hname⟩
    · obtain ⟨-, hn⟩ := List.append_inj' hpl rfl
      rw [← List.singleton_inj.1 hn]
      exact pl.key.isPlain_text
    · rw [hbuilt] at hname
      cases hname

/-- A claim passes over a waiting file whose path is too long. -/
theorem start_past {key : TaskKey} (hlong : layout.reaches (layout.waitingPlace key) = false)
    (hflat : layout.reaches (.flat key) = true) (hfile : q.files (.flat key) = some u) :
    q.start layout key = (.applied, (q.set (.flat key) none).set (.running key) (some u)) := by
  have hrunning := Layout.reaches_running hflat key
  have hsource : q.source layout key = .flat key := by
    simp [source, finds, hlong, hflat, hfile]
  rw [start, hsource, move]
  simp [provision, hflat, hrunning, hfile]

/-- An update that waits in its shard is queued outside it through a layout without shards. -/
theorem create_beside (hflat : layout.waitingLayout = .flat)
    (hfree : q.files (.flat (.derive u)) = none) :
    q.create layout true u = q.set (.flat (.derive u)) (some u) := by
  have hplace : layout.waitingPlace (.derive u) = .flat (.derive u) :=
    layout.waitingPlace_eq _ hflat
  simp [create, isWaiting, finds, hplace, hfree, provision]

theorem create_fresh_sharded (hreach : ∀ pl, layout.reaches pl = true)
    (hsharded : layout.waitingLayout = .sharded) :
    fresh.create layout true u = (fresh.addShard (TaskKey.derive u).shard).set
      (.sharded (.derive u)) (some u) := by
  have hplace : layout.waitingPlace (.derive u) = .sharded (.derive u) :=
    layout.waitingPlace_eq _ hsharded
  have hmade := provision_ne_none (q := fresh) (hreach (.sharded (.derive u)))
  rw [provision_sharded] at hmade
  have hshort := (ite_ne_left_iff.1 hmade).1
  simp [create, isWaiting, finds, fresh, hplace, provision_sharded, hshort]

end Queue

/-- On a site without links the queue is part of a tree without links, if what is in it has a
name. -/
theorem Site.Shows.isLinkless {site : Site} {q : Queue} {s : System} (h : site.Shows q s)
    (hsite : site.disk.IsLinkless)
    (hplain : ∀ names n e, q.get? (names ++ [n]) = some e → IsPlain n) : s.disk.IsLinkless where
  inside l n e he := by
    by_cases hbelow : site.root <+: l
    · obtain ⟨names, rfl⟩ := hbelow
      rw [h.inside]
      rcases List.eq_nil_or_concat names with rfl | ⟨front, m, rfl⟩
      · exact .inl q.get?_nil
      · rw [List.concat_eq_append] at he ⊢
        rw [List.append_assoc, h.inside] at he
        exact .inl (Queue.get?_parent h.housed he).2
    · rw [h.outside l hbelow]
      by_cases hroot : l ++ [n] = site.root
      · obtain ⟨rfl, -⟩ := List.append_inj' hroot rfl
        exact Disk.directory_of_isOpen site.isOpen
      · rw [h.outside _ (mt List.prefix_concat_iff.1 (by tauto))] at he
        exact hsite.inside l n e he
  plain l n e he := by
    by_cases hbelow : site.root <+: l
    · obtain ⟨names, rfl⟩ := hbelow
      rw [List.append_assoc, h.inside] at he
      exact .inl (hplain names n e he)
    · by_cases hroot : l ++ [n] = site.root
      · obtain ⟨-, hn⟩ := List.append_inj' hroot rfl
        rw [List.singleton_inj.1 hn]
        exact .inl isPlain_refUpdates
      · rw [h.outside _ (mt List.prefix_concat_iff.1 (by tauto))] at he
        exact hsite.plain l n e he
  linkless l target he := by
    by_cases hbelow : site.root <+: l
    · obtain ⟨names, rfl⟩ := hbelow
      rw [h.inside] at he
      rcases q.get?_cases names with hnone | hdir | ⟨contents, hfile⟩ <;> simp_all
    · rw [h.outside l hbelow] at he
      exact hsite.linkless l target he
  nameless l n he := by
    by_cases hbelow : site.root <+: l ++ [n]
    · obtain ⟨names, hnames⟩ := hbelow
      rw [← hnames, h.inside] at he
      rcases q.get?_cases names with hnone | hdir | ⟨contents, hfile⟩ <;> simp_all
    · rw [h.outside _ hbelow] at he
      exact hsite.nameless l n he

namespace Session

/-- An update is queued through a store with shards, and again through one without. -/
def queuedBeside (u : Update) : List Step :=
  [.open (Site.layoutHere 0 .sharded), .on 0 (.create u), .open (Site.layoutHere 0 .flat),
    .on 1 (.create u)]

/-- The update waits in its shard and outside it. -/
def besideQueue (u : Update) : Queue :=
  ((Queue.fresh.addShard (TaskKey.derive u).shard).set (.sharded (.derive u)) (some u)).set
    (.flat (.derive u)) (some u)

theorem shows_queuedBeside (u : Update) :
    Site.blank.Shows (besideQueue u) (blank.run (queuedBeside u)).2.system := by
  have hopened := shares_blank.step_open (serves_blank .sharded)
  have hqueued := (hopened.step_create 0 rfl u).step_open (serves_blank .flat)
  have hagain := hqueued.step_create 1 rfl u
  rw [writes_blank, writes_blank, Queue.create_fresh_sharded (reaches_blank .sharded) rfl,
    Queue.create_beside rfl (by simp [Queue.files_set, Queue.addShard, Queue.fresh])] at hagain
  rw [queuedBeside, run_cons_snd, run_cons_snd, run_cons_snd, run_cons_snd, run_nil_snd]
  exact hagain.runs.shows_of_store (hagain.getElem?_stores 1 rfl)

theorem isLinkless_queuedBeside (u : Update) :
    (blank.run (queuedBeside u)).2.system.disk.IsLinkless := by
  have hshards : ∀ shard, (besideQueue u).shards shard = true → IsPlain shard := by
    intro shard hshard
    obtain rfl : shard = (TaskKey.derive u).shard := by
      simpa [besideQueue, Queue.set, Queue.shards_addShard, Queue.fresh] using hshard
    exact TaskKey.isPlain_shard _
  exact (shows_queuedBeside u).isLinkless Disk.isLinkless_blank fun names n e =>
    Queue.isPlain_of_get? (fun _ => rfl) hshards

end Session

/-! ### Transitions -/

namespace Transition

/-- The places that a task is taken from, in the order in which they are tried. -/
def sources (t : Task) : Transition → List Place
  | .start | .delete => t.waitingPlaces
  | .reset | .finish => [.running t.key]

/-- The place that a task is put at. -/
def target? (t : Task) : Transition → Option Place
  | .start => some (.running t.key)
  | .reset => some (t.layout.waitingPlace t.key)
  | .finish | .delete => none

/-- Whether a place is passed over: there is nothing, or the path is too long. Only a claim looks
before it moves, so for the others a path that is too long is a failure. -/
def passesOver (t : Task) (s : System) (tr : Transition) (pl : Place) : Bool :=
  (s.disk.get? ((t.layout.pathOf pl).spelled s.cwd)).isNone || tr = .start && !t.layout.reaches pl

/-- The first of these places that is not passed over. -/
def source? (t : Task) (s : System) (tr : Transition) : Option Place :=
  (tr.sources t).find? fun pl => !tr.passesOver t s pl

/-- What an outcome tells of the disk before and after a transition. -/
structure Tells (tr : Transition) (t : Task) (outcome : Outcome) (s s' : System) : Prop where
  cwd : s'.cwd = s.cwd
  tree : s'.disk.IsLinkless
  /-- The entry was taken from the first of the places that are not passed over. -/
  applied : outcome = .applied → ∃ source, tr.source? t s = some source ∧
    s.disk.Took s'.disk ((t.layout.pathOf source).spelled s.cwd)
      ((tr.target? t).map fun pl => (t.layout.pathOf pl).spelled s.cwd)
      ((tr.target? t).toList.map fun pl => (t.layout.directoryOf pl).spelled s.cwd)
  /-- There was no entry to take, unless finished tasks are kept. -/
  skipped : outcome = .skipped → tr = .finish ∧ t.keepFinished = true ∨
    ∀ source ∈ tr.sources t, s.disk.exists? s.cwd (t.layout.pathOf source) = false ∧
      s.disk.get? ((t.layout.pathOf source).spelled s.cwd) = none
  /-- What is not applied only makes directories. -/
  idle : outcome ≠ .applied →
    s.disk.Paves s'.disk
      ((tr.target? t).toList.map fun pl => (t.layout.directoryOf pl).spelled s.cwd)
  /-- The files of all other keys are what they were. -/
  others : ∀ pl : Place, pl.key ≠ t.key → ∀ bytes,
    s'.disk.contents s'.cwd (t.layout.pathOf pl) = .ok bytes ↔
      s.disk.contents s.cwd (t.layout.pathOf pl) = .ok bytes

variable {tr : Transition} {t : Task} {outcome : Outcome} {s s' : System}

theorem key_target {target : Place} (h : tr.target? t = some target) : target.key = t.key := by
  cases tr with
  | start => cases h; rfl
  | reset =>
    cases h
    exact t.layout.key_waitingPlace t.key
  | finish => cases h
  | delete => cases h

theorem key_source {source : Place} (h : source ∈ tr.sources t) : source.key = t.key := by
  cases tr with
  | start => exact (Task.mem_waitingPlaces h).1
  | reset => exact congrArg Place.key (List.mem_singleton.1 h)
  | finish => exact congrArg Place.key (List.mem_singleton.1 h)
  | delete => exact (Task.mem_waitingPlaces h).1

/-- What is told of the locations below the queue's directory is all that is told. -/
theorem Tells.of_cases (h : t.layout.events.IsForward) (hd : s.disk.IsLinkless)
    (hcwd : s'.cwd = s.cwd) (htree : s'.disk.IsLinkless)
    (hcases : outcome = .applied ∧ (∃ source, tr.source? t s = some source ∧
        s.disk.Took s'.disk (t.layout.home s.cwd ++ source.names)
          ((tr.target? t).map fun pl => t.layout.home s.cwd ++ pl.names)
          ((tr.target? t).toList.map fun pl => t.layout.home s.cwd ++ pl.directory)) ∨
      outcome ≠ .applied ∧ (outcome = .skipped → tr = .finish ∧ t.keepFinished = true ∨
          ∀ source ∈ tr.sources t, s.disk.get? (t.layout.home s.cwd ++ source.names) = none) ∧
        s.disk.Paves s'.disk
          ((tr.target? t).toList.map fun pl => t.layout.home s.cwd ++ pl.directory)) :
    tr.Tells t outcome s s' := by
  -- Nothing but directories is made at the places of other keys.
  have hothers : ∀ pl : Place, pl.key ≠ t.key → s.disk.PavedAt s'.disk
      ((tr.target? t).toList.map fun pl => t.layout.home s.cwd ++ pl.directory)
        (t.layout.home s.cwd ++ pl.names) := by
    intro pl hkey
    rcases hcases with ⟨-, source, hsource, htook⟩ | ⟨-, -, hpaves⟩
    · refine htook.kept _ (fun hp => ?_) fun target htarget hp => ?_
      · rw [List.prefix_append_right_inj] at hp
        refine Place.not_prefix ?_ hp
        rintro rfl
        exact hkey (key_source (List.mem_of_find?_eq_some hsource))
      · obtain ⟨place, hplace, rfl⟩ := Option.mem_map.1 htarget
        rw [List.prefix_append_right_inj] at hp
        refine Place.not_prefix ?_ hp
        rintro rfl
        exact hkey (key_target hplace)
    · exact hpaves _
  refine ⟨hcwd, htree, fun happlied => ?_, fun hskipped => ?_, fun hidle => ?_, ?_⟩
  · rcases hcases with ⟨-, source, hsource, htook⟩ | ⟨hne, -⟩
    · refine ⟨source, hsource, ?_⟩
      simpa only [Layout.spelled_pathOf, Layout.spelled_directoryOf] using htook
    · exact absurd happlied hne
  · rcases hcases with ⟨happlied, -⟩ | ⟨-, hnone, -⟩
    · rw [happlied] at hskipped
      cases hskipped
    · refine (hnone hskipped).imp_right fun hnone source hsource => ?_
      have hget := hnone source hsource
      exact ⟨Layout.exists?_pathOf_missing h hd hget, by rwa [Layout.spelled_pathOf]⟩
  · rcases hcases with ⟨happlied, -⟩ | ⟨-, -, hpaves⟩
    · exact absurd happlied hidle
    · simpa only [Layout.spelled_directoryOf] using hpaves
  · intro pl hkey bytes
    rw [hcwd, Layout.contents_pathOf_forward h htree, Layout.contents_pathOf_forward h hd,
      (hothers pl hkey).file_iff]

/-- What is found is not passed over. -/
theorem passesOver_of_exists (h : t.layout.events.IsForward) (hd : s.disk.IsLinkless) {pl : Place}
    (hexists : s.disk.exists? s.cwd (t.layout.pathOf pl) = true) :
    tr.passesOver t s pl = false := by
  obtain ⟨hc, hthere⟩ := (Layout.exists?_pathOf_forward h hd pl).1 hexists
  have hreach := ((Layout.checkPath_pathOf pl).1 hc).2
  simp [passesOver, Layout.spelled_pathOf, hthere, hreach]

theorem source?_singleton (h : t.layout.events.IsForward) (hd : s.disk.IsLinkless) {pl : Place}
    (hsources : tr.sources t = [pl])
    (hexists : s.disk.exists? s.cwd (t.layout.pathOf pl) = true) : tr.source? t s = some pl := by
  simp [source?, hsources, passesOver_of_exists h hd hexists]

/-- A claim finds the first place that it does not pass over. -/
theorem source?_start_of_find (h : t.layout.events.IsForward) (hd : s.disk.IsLinkless) {pl : Place}
    (hfind : (t.waitingPlaces.find? fun pl => s.disk.exists? s.cwd (t.layout.pathOf pl)) =
      some pl) : start.source? t s = some pl := by
  have hexists := Task.exists?_of_find hfind
  rw [Layout.exists?_pathOf_forward h hd, Layout.checkPath_pathOf] at hexists
  have hnull := hexists.1.1
  rw [← hfind, source?, sources]
  congr 1
  funext other
  rw [Bool.eq_iff_iff, Layout.exists?_pathOf_forward h hd, Layout.checkPath_pathOf, passesOver,
    Layout.spelled_pathOf]
  simp [hnull, Option.isSome_iff_ne_none, and_comm]

/-- Moving a task from where it was found tells the truth. -/
theorem Tells.of_move (h : t.layout.events.IsForward) (hd : s.disk.IsLinkless) {src dst : Place}
    (hne : src ≠ dst) (hapart : ¬dst.directory <+: src.directory) (htarget : tr.target? t = some dst)
    (hfound : s.disk.exists? s.cwd (t.layout.pathOf src) = true → tr.source? t s = some src)
    (hmissed : Disk.checkPath (t.layout.pathOf src) = .ok () →
      s.disk.get? (t.layout.home s.cwd ++ src.names) = none →
        ∀ source ∈ tr.sources t, s.disk.get? (t.layout.home s.cwd ++ source.names) = none) :
    tr.Tells t ((t.move (t.layout.pathOf src) (t.layout.pathOf dst)).run s).1 s
      ((t.move (t.layout.pathOf src) (t.layout.pathOf dst)).run s).2 := by
  obtain ⟨outcome, d, log, hrun, htree, hcases⟩ := Task.run_move_forward h hd hne hapart
  rw [hrun]
  refine .of_cases h hd rfl htree ?_
  rw [htarget]
  rcases hcases with ⟨rfl, hexists, htook⟩ | ⟨rfl, hpaves, hc, hnone⟩ | ⟨rfl, hpaves⟩
  · exact .inl ⟨rfl, src, hfound hexists, htook⟩
  · exact .inr ⟨by simp, fun _ => .inr (hmissed hc hnone), hpaves⟩
  · exact .inr ⟨by simp, by simp, hpaves⟩

theorem tells_start (h : t.layout.events.IsForward) (hd : s.disk.IsLinkless) :
    start.Tells t (t.start.run s).1 s (t.start.run s).2 := by
  rw [Task.start, run_bind, t.run_currentWaitingPath_find s, t.runningPath_eq]
  dsimp only
  cases hfind : t.waitingPlaces.find? fun pl => s.disk.exists? s.cwd (t.layout.pathOf pl) with
  | some src =>
    have hexists := Task.exists?_of_find hfind
    rw [Option.getD_some]
    obtain ⟨-, hne, hapart⟩ := Task.mem_waitingPlaces (List.mem_of_find?_eq_some hfind)
    refine .of_move h hd hne hapart rfl (fun _ => source?_start_of_find h hd hfind) fun _ hnone => ?_
    rw [Layout.exists?_pathOf_missing h hd hnone] at hexists
    cases hexists
  | none =>
    -- Then the task is looked for where nothing is.
    rw [Option.getD_none]
    have hmissed := List.find?_eq_none.1 hfind
    obtain ⟨-, hne, hapart⟩ := Task.mem_waitingPlaces t.waitingPlace_mem
    refine .of_move h hd hne hapart rfl
      (fun hexists => absurd hexists (hmissed _ t.waitingPlace_mem)) fun hc _ source hsource => ?_
    obtain ⟨hnull, hreach⟩ := (Layout.checkPath_pathOf _).1 hc
    have hc' : Disk.checkPath (t.layout.pathOf source) = .ok () :=
      (Layout.checkPath_pathOf _).2 ⟨hnull, Task.reaches_waitingPlaces hreach hsource⟩
    have hexists := hmissed source hsource
    rw [Layout.exists?_pathOf_forward h hd, not_and] at hexists
    simpa using hexists hc'

theorem tells_reset (h : t.layout.events.IsForward) (hd : s.disk.IsLinkless) :
    reset.Tells t (t.reset.run s).1 s (t.reset.run s).2 := by
  rw [Task.reset, t.waitingPath_eq, t.runningPath_eq]
  have hapart : ¬(t.layout.waitingPlace t.key).directory <+: (Place.running t.key).directory := by
    unfold Layout.waitingPlace
    cases t.layout.waitingLayout <;> simp [WaitingLayout.place, Place.directory]
  refine .of_move h hd (t.layout.waitingPlace_ne_running _ _).symm hapart rfl
    (source?_singleton h hd rfl) fun _ hnone source hsource => ?_
  rw [List.mem_singleton.1 hsource]
  exact hnone

theorem tells_finish (h : t.layout.events.IsForward) (hd : s.disk.IsLinkless) :
    finish.Tells t (t.finish.run s).1 s (t.finish.run s).2 := by
  rw [Task.finish]
  by_cases hkeep : t.keepFinished = true
  · rw [if_pos hkeep, run_bind, run_note]
    exact .of_cases h hd rfl hd (.inr ⟨by simp, fun _ => .inl ⟨rfl, hkeep⟩, .refl _ _⟩)
  · obtain ⟨outcome, d, log, hrun, htree, hcases⟩ := Task.run_remove_forward h hd (.running t.key)
      (s.log ++ [.deleting t.runningPath t.subject])
    rw [if_neg hkeep, run_bind, run_note]
    simp only [Task.runningPath_eq] at hrun ⊢
    rw [hrun]
    refine .of_cases h hd rfl htree ?_
    rcases hcases with ⟨rfl, hexists, htook⟩ | ⟨rfl, rfl, hnone⟩ | ⟨rfl, rfl⟩
    · exact .inl ⟨rfl, _, source?_singleton h hd rfl hexists, htook⟩
    · refine .inr ⟨by simp, fun _ => .inr fun source hsource => ?_, .refl _ _⟩
      rw [List.mem_singleton.1 hsource]
      exact hnone
    · exact .inr ⟨by simp, by simp, .refl _ _⟩

theorem tells_delete (h : t.layout.events.IsForward) (hd : s.disk.IsLinkless) :
    delete.Tells t (t.delete.run s).1 s (t.delete.run s).2 := by
  obtain ⟨outcome, d, log, hrun, htree, hcases⟩ :=
    Task.run_remove_forward h hd (t.layout.waitingPlace t.key) s.log
  replace hrun : (t.remove t.waitingPath).run s = (outcome, { s with disk := d, log }) :=
    t.waitingPath_eq ▸ hrun
  rw [Task.delete, run_bind, hrun]
  rcases hcases with ⟨rfl, hexists, htook⟩ | ⟨rfl, rfl, hnone⟩ | ⟨rfl, rfl⟩
  · have hthere : delete.passesOver t s (t.layout.waitingPlace t.key) = false :=
      passesOver_of_exists h hd hexists
    have hfirst : source? t s .delete = some (t.layout.waitingPlace t.key) := by
      rcases t.waitingPlaces_eq with ⟨hplaces, -⟩ | ⟨hplaces, -⟩ <;>
        simp [source?, sources, hplaces, hthere]
    have htells : delete.Tells t .applied s { s with disk := d, log } :=
      .of_cases h hd rfl htree (.inl ⟨rfl, _, hfirst, htook⟩)
    cases t.layout.waitingLayout <;> exact htells
  · rcases t.waitingPlaces_eq with ⟨hplaces, hlayout⟩ | ⟨hplaces, hlayout⟩
    · rw [hlayout]
      refine .of_cases h hd rfl hd (.inr ⟨by simp, fun _ => .inr fun source hsource => ?_, .refl _ _⟩)
      rw [sources, hplaces, List.mem_singleton] at hsource
      rw [hsource]
      exact hnone
    · -- The file from before the layout was sharded is tried as well.
      have hmissed : delete.passesOver t s (t.layout.waitingPlace t.key) = true := by
        simp [passesOver, Layout.spelled_pathOf, hnone]
      obtain ⟨outcome, d, log, hrun, htree, hcases⟩ :=
        Task.run_remove_forward h hd (.flat t.key) log
      rw [hlayout]
      simp only
      rw [t.flatWaitingPath_eq, hrun]
      refine .of_cases h hd rfl htree ?_
      rcases hcases with ⟨rfl, hexists, htook⟩ | ⟨rfl, rfl, hnone'⟩ | ⟨rfl, rfl⟩
      · have hthere : delete.passesOver t s (.flat t.key) = false :=
          passesOver_of_exists h hd hexists
        exact .inl ⟨rfl, .flat t.key, by simp [source?, sources, hplaces, hmissed, hthere], htook⟩
      · refine .inr ⟨by simp, fun _ => .inr fun source hsource => ?_, .refl _ _⟩
        rw [sources, hplaces] at hsource
        rcases List.mem_pair.1 hsource with rfl | rfl
        · exact hnone
        · exact hnone'
      · exact .inr ⟨by simp, by simp, .refl _ _⟩
  · have htells : delete.Tells t .failed s { s with log } :=
      .of_cases h hd rfl hd (.inr ⟨by simp, by simp, .refl _ _⟩)
    cases t.layout.waitingLayout <;> exact htells

/-- The outcome of a transition tells the truth about a tree without links, and nothing but the
entry that it is about is touched. -/
theorem outcome_tells (tr : Transition) (t : Task) (s : System) (htree : s.disk.IsLinkless)
    (hforward : ".." ∉ t.layout.events.names) :
    tr.Tells t ((tr.perform t).run s).1 s ((tr.perform t).run s).2 := by
  cases tr with
  | start => exact tells_start hforward htree
  | reset => exact tells_reset hforward htree
  | finish => exact tells_finish hforward htree
  | delete => exact tells_delete hforward htree

/-- A file that a node left running is given back, or the attempt fails; it is not missed. -/
theorem outcome_tells_abandoned :
    ∃ t s, t = Task.mk (Site.layoutHere 0 .sharded)
        (.key (.derive ⟨"p", "refs/heads/m", "https://h/p", "h"⟩)) false ∧
      s = { Session.blank.system with disk := .abandoned t.key.text [] } ∧ s.disk.IsLinkless ∧
      ".." ∉ t.layout.events.names ∧ reset.Tells t (t.reset.run s).1 s (t.reset.run s).2 ∧
      (t.reset.run s).1 ≠ .skipped := by
  have hforward : ".." ∉ (Site.layoutHere 0 .sharded).events.names := by decide
  refine ⟨_, _, rfl, rfl, Disk.isLinkless_abandoned (TaskKey.isPlain_text _), hforward, ?_⟩
  generalize hkey : TaskKey.derive ⟨"p", "refs/heads/m", "https://h/p", "h"⟩ = key
  have htells := outcome_tells .reset ⟨Site.layoutHere 0 .sharded, .key key, false⟩
    { Session.blank.system with disk := .abandoned key.text [] }
    (Disk.isLinkless_abandoned key.isPlain_text) hforward
  refine ⟨htells, fun hskipped => ?_⟩
  rcases htells.skipped hskipped with ⟨hfinish, -⟩ | hnone
  · cases hfinish
  · have hget := (hnone (.running key) (List.mem_singleton_self _)).2
    have hhome : (Site.layoutHere 0 .sharded).home Session.blank.system.cwd = ["ref-updates"] := by
      decide
    rw [Layout.spelled_pathOf, hhome] at hget
    change (Disk.abandoned key.text []).get? ["ref-updates", "running", key.text] = none at hget
    rw [Disk.get?_abandoned (by simp), if_pos rfl] at hget
    cases hget

/-- Of two waiting files a claim takes the one outside the shard if the path of the other one is too
long. -/
theorem start_beside {u : Update} {t : Task} {s : System} (hkey : t.key = .derive u)
    (hshows : Site.blank.Shows (Session.besideQueue u) s) (hserves : Site.blank.Serves t.layout)
    (hlong : t.layout.reaches (t.layout.waitingPlace (.derive u)) = false)
    (hflat : t.layout.reaches (.flat (.derive u)) = true)
    (hhome : t.layout.home Site.blank.cwd = Site.blank.root) :
    (t.start.run s).1 = .applied ∧
      (s.disk.get? ((t.layout.pathOf (.sharded t.key)).spelled s.cwd)).isSome ∧
      (t.start.run s).2.disk.get? ((t.layout.pathOf (.sharded t.key)).spelled s.cwd) =
        s.disk.get? ((t.layout.pathOf (.sharded t.key)).spelled s.cwd) ∧
      (s.disk.get? ((t.layout.pathOf (.flat t.key)).spelled s.cwd)).isSome ∧
      (t.start.run s).2.disk.get? ((t.layout.pathOf (.flat t.key)).spelled s.cwd) = none := by
  obtain ⟨hanswer, hafter⟩ := hshows.run_start hserves
  have hfile : (Session.besideQueue u).files (.flat (.derive u)) = some u :=
    Queue.files_set_self ..
  rw [hkey, Queue.start_past hlong hflat hfile] at hanswer hafter
  refine ⟨hanswer, ?_⟩
  simp only [hkey, Layout.spelled_pathOf, hshows.cwd, hhome, hshows.inside, hafter.inside,
    Queue.get?_names]
  simp [Session.besideQueue, Queue.files_set]

/-- A claim passes over an entry whose path is too long. -/
theorem start_passes_over_long :
    ∃ t s, t = Task.mk (Site.layoutHere 2016 .sharded)
        (.key (.derive ⟨"p", "refs/heads/m", "https://h/p", "h"⟩)) false ∧
      s = (Session.blank.run
        (Session.queuedBeside ⟨"p", "refs/heads/m", "https://h/p", "h"⟩)).2.system ∧
      s.disk.IsLinkless ∧ ".." ∉ t.layout.events.names ∧ (t.start.run s).1 = .applied ∧
      (s.disk.get? ((t.layout.pathOf (.sharded t.key)).spelled s.cwd)).isSome ∧
      (t.start.run s).2.disk.get? ((t.layout.pathOf (.sharded t.key)).spelled s.cwd) =
        s.disk.get? ((t.layout.pathOf (.sharded t.key)).spelled s.cwd) ∧
      (s.disk.get? ((t.layout.pathOf (.flat t.key)).spelled s.cwd)).isSome ∧
      (t.start.run s).2.disk.get? ((t.layout.pathOf (.flat t.key)).spelled s.cwd) = none := by
  generalize (⟨"p", "refs/heads/m", "https://h/p", "h"⟩ : Update) = u
  have hlong : (Site.layoutHere 2016 .sharded).reaches (.sharded (.derive u)) = false := by
    unfold Layout.reaches Path.isTooLong
    rw [Layout.utf8ByteSize_pathOf_sharded, Site.utf8ByteSize_refUpdates_here]
    decide
  have hflat : (Site.layoutHere 2016 .sharded).reaches (.flat (.derive u)) = true := by
    unfold Layout.reaches Path.isTooLong
    rw [Layout.utf8ByteSize_pathOf_flat, Site.utf8ByteSize_refUpdates_here]
    decide
  have hserves : Site.blank.Serves (Site.layoutHere 2016 .sharded) := Site.serves_here (by decide)
  generalize 2016 = n at hlong hflat hserves ⊢
  exact ⟨_, _, rfl, rfl, Session.isLinkless_queuedBeside u, Path.up_not_mem_names_here n,
    start_beside rfl (Session.shows_queuedBeside u) hserves hlong hflat (Site.home_here n .sharded)⟩

end Transition

end ReplicationQueue
