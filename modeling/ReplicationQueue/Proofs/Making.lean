import ReplicationQueue.Proofs.Spelling
import ReplicationQueue.Proofs.Provision

/-! The ways in which making a directory and what it lies in comes out well, in any tree. What a
path leads to afterwards was there, or it is new and nothing is in it. -/

namespace ReplicationQueue

attribute [local irreducible] Path.isTooLong

namespace Disk

variable {d d' : Disk} {cwd l : Location} {p : Path} {n : String}

/-! ### One directory -/

theorem extends_put (hfree : d.get? l = none) (e : Entry) : d.Extends (d.put l e) := by
  intro k x hx
  rw [get?_put, if_neg, hx]
  rintro rfl
  rw [hfree] at hx
  cases hx

theorem IsTree.put (hd : d.IsTree) (hn : IsPlain n) (hopen : (d.get? l).any Entry.isOpen)
    (hfree : d.get? (l ++ [n]) = none) (e : Entry) : (d.put (l ++ [n]) e).IsTree where
  inside k m x hx := by
    have kept : d.Extends (d.put (l ++ [n]) e) := extends_put hfree e
    rw [get?_put] at hx
    split at hx
    · rename_i hk
      obtain ⟨rfl, -⟩ := List.append_inj' hk rfl
      rcases directory_of_isOpen hopen with hdir | ⟨isSealed, hdir⟩
      · exact .inl (kept _ _ hdir)
      · exact .inr ⟨isSealed, kept _ _ hdir⟩
    · rcases hd.inside k m x hx with hdir | ⟨isSealed, hdir⟩
      · exact .inl (kept _ _ hdir)
      · exact .inr ⟨isSealed, kept _ _ hdir⟩
  plain k m x hx := by
    rw [get?_put] at hx
    split at hx
    · rename_i hk
      obtain ⟨-, hm⟩ := List.append_inj' hk rfl
      cases hm
      exact .inl hn
    · exact hd.plain k m x hx

theorem located_of_isDirectory (h : d.isDirectory cwd p = true) :
    ∃ l, d.locate cwd p = .ok l ∧ (d.get? l).any Entry.isDirectory := by
  unfold isDirectory status at h
  cases hl : d.locate cwd p with
  | error cause => rw [hl] at h; cases h
  | ok l =>
    refine ⟨l, rfl, ?_⟩
    rw [hl] at h
    simp only [bind, Except.bind] at h
    cases he : d.get? l with
    | none => rw [he] at h; cases h
    | some e => rw [he] at h; exact h

theorem makeDirectory_extends (h : d.makeDirectory cwd p = .ok d') : d.Extends d' := by
  obtain ⟨l, n, slash, -, -, -, hfree, rfl⟩ := makeDirectory_named h
  exact extends_put hfree _

/-- The path leads to what was made of it. -/
theorem locate_made (h : d.makeDirectory cwd p = .ok d') :
    ∃ l, d.get? l = none ∧ d' = d.put l .directory ∧ d'.locate cwd p = .ok l := by
  obtain ⟨l, n, slash, hslot, hn, hopen, hfree, rfl⟩ := makeDirectory_named h
  obtain ⟨hc, -, -, names, hnames, hl⟩ := slot_named hslot
  refine ⟨l ++ [n], hfree, rfl, ?_⟩
  have hextends : d.Extends (d.put (l ++ [n]) .directory) := extends_put hfree _
  have hdir : ((d.put (l ++ [n]) .directory).get? l).any Entry.isDirectory := by
    obtain ⟨e, he, hopens⟩ := (Option.any_eq_true ..).1 hopen
    rw [hextends l e he]
    cases e <;> first | rfl | cases hopens
  have hway := resolve_extends hextends _ _ _ _ (resolve_of_dot _ _ _ hl)
  have hmade : ∀ more, (∀ follow, enter (d.put (l ++ [n]) .directory) .existing follow (l ++ [n])
      more = .ok (l ++ [n])) → resolve (d.put (l ++ [n]) .directory) .existing maxLinks
        (start cwd p) (names ++ n :: more) = .ok (l ++ [n]) := by
    intro more hmore
    refine resolve_append hdir (fun follow => ?_) _ _ _ hway
    rw [enter_directory ⟨hn.ne_dot, hn.ne_up⟩ (by rw [get?_put, if_pos rfl]) rfl]
    exact hmore follow
  unfold locate
  rw [hc]
  rcases Path.stepsOf_text p with hsteps | hsteps <;> rw [hsteps, hnames]
  · exact hmade [] fun follow => rfl
  · rw [List.append_assoc]
    exact hmade ["."] fun follow => enter_dot

/-- What is missing in the end was missing before. -/
theorem Extends.missing (h : Extends d d') (hl : d'.get? l = none) : d.get? l = none := by
  rw [Option.eq_none_iff_forall_ne_some]
  intro e he
  rw [h l e he] at hl
  cases hl

theorem new_made {way : Disk} (hextends : d.Extends way) (h : way.makeDirectory cwd p = .ok d') :
    ∃ l, d.get? l = none ∧ d'.locate cwd p = .ok l ∧ (d'.get? l).any Entry.isDirectory := by
  obtain ⟨l, hfree, rfl, hl⟩ := locate_made h
  exact ⟨l, hextends.missing hfree, hl, by rw [get?_put, if_pos rfl]; rfl⟩

/-- From a directory with no links below it, a lookup without two dots goes only inward. -/
theorem enter_inward (hlink : ∀ names target, d.get? (l ++ names) ≠ some (.link target))
    (steps : List String) (hforward : ".." ∉ steps) :
    ∃ r, (∀ follow, enter d .existing follow l steps = r) ∧ ∀ k, r = .ok k → l <+: k := by
  induction steps generalizing l with
  | nil => exact ⟨.ok l, fun _ => rfl, by rintro k ⟨⟩; exact List.prefix_rfl⟩
  | cons step rest ih =>
    obtain ⟨hup, hrest⟩ := not_or.1 (mt List.mem_cons.2 hforward)
    by_cases hdot : step = "."
    · subst hdot
      simpa only [enter_dot] using ih hlink hrest
    have hs : IsEntered step := ⟨hdot, Ne.symm hup⟩
    have hbelow : ∀ names target, d.get? (l ++ [step] ++ names) ≠ some (.link target) := by
      intro names target
      rw [List.append_assoc]
      exact hlink _ target
    have inward : ∀ e, d.get? (l ++ [step]) = some e → e.isDirectory →
        ∃ r, (∀ follow, enter d .existing follow l (step :: rest) = r) ∧ ∀ k, r = .ok k → l <+: k := by
      intro e he hdir
      obtain ⟨r, hr, hin⟩ := ih hbelow hrest
      exact ⟨r, fun follow => by rw [enter_directory hs he hdir, hr],
        fun k hk => (List.prefix_append l [step]).trans (hin k hk)⟩
    have ended : ∀ e, d.get? (l ++ [step]) = some e → e.isLeaf →
        ∃ r, (∀ follow, enter d .existing follow l (step :: rest) = r) ∧ ∀ k, r = .ok k → l <+: k := by
      intro e he hleaf
      refine ⟨_, fun follow => enter_leaf hs he hleaf, fun k hk => ?_⟩
      split at hk
      · cases hk
        exact List.prefix_append l [step]
      · cases hk
    cases he : d.get? (l ++ [step]) with
    | none => exact ⟨_, fun _ => enter_missing hs he, by simp⟩
    | some e =>
      cases e with
      | directory => exact inward _ he rfl
      | mount isSealed => exact inward _ he rfl
      | removed => exact inward _ he rfl
      | link target => exact absurd he (hlink [step] target)
      | file contents => exact ended _ he rfl
      | special => exact ended _ he rfl

/-- A path is looked up below its parent, where no links are in the way. -/
theorem Leads.prefix_of_forward {parent : Path} {k : Location} (h : d.Leads cwd parent k)
    (hlink : ∀ names target, d.get? (k ++ names) ≠ some (.link target))
    (hparent : p.parent? = some parent) (hp : p.IsForward) (hl : d.locate cwd p = .ok l) :
    k <+: l := by
  obtain ⟨rest, hrest⟩ := Path.names_prefix_of_parent? hparent
  have hstart : start cwd parent = start cwd p := by
    simp [start, Path.isAbsolute_of_parent? hparent]
  have hforward : ".." ∉ rest := fun hmem => hp (by rw [← hrest]; exact List.mem_append_right _ hmem)
  have below : ∀ more, ".." ∉ more → resolve d .existing maxLinks (start cwd p)
      (parent.names ++ more) = .ok l → k <+: l := by
    intro more hmore hmatch
    obtain ⟨r, hr, hin⟩ := enter_inward hlink more hmore
    rw [← hstart, h.onward more r hr] at hmatch
    exact hin l hmatch
  unfold locate at hl
  cases hc : checkPath p with
  | error cause => rw [hc] at hl; cases hl
  | ok _ =>
    rw [hc] at hl
    replace hl : resolve d .existing maxLinks (start cwd p) (Path.stepsOf p.text) = .ok l := hl
    rcases Path.stepsOf_text p with hsteps | hsteps <;> rw [hsteps, ← hrest] at hl
    · exact below rest hforward hl
    · rw [List.append_assoc] at hl
      exact below (rest ++ ["."]) (by simpa using hforward) hl

/-! ### A directory and what it lies in -/

/-- A path that nothing is missing from: it is empty, or a directory stands there or is made,
perhaps after what it lies in, up to `depth` levels further out. -/
inductive Ensures (cwd : Location) : Nat → Disk → Path → Disk → Prop
  | working {depth d p} (hp : p.text = "") : Ensures cwd (depth + 1) d p d
  | made {depth d d' p} (hp : p.text ≠ "") (h : d.makeDirectory cwd p = .ok d') :
    Ensures cwd (depth + 1) d p d'
  | stands {depth d p cause} (hp : p.text ≠ "") (h : d.makeDirectory cwd p = .error cause)
    (hcause : cause ≠ .notFound) (hdir : d.isDirectory cwd p = true) : Ensures cwd (depth + 1) d p d
  | madeBelow {depth d way d' p parent} (hp : p.text ≠ "")
    (h : d.makeDirectory cwd p = .error .notFound) (hparent : p.parent? = some parent)
    (hway : Ensures cwd depth d parent way) (hmade : way.makeDirectory cwd p = .ok d') :
    Ensures cwd (depth + 1) d p d'
  | standsBelow {depth d way p parent cause} (hp : p.text ≠ "")
    (h : d.makeDirectory cwd p = .error .notFound) (hparent : p.parent? = some parent)
    (hway : Ensures cwd depth d parent way) (hagain : way.makeDirectory cwd p = .error cause)
    (hdir : way.isDirectory cwd p = true) : Ensures cwd (depth + 1) d p way

namespace Ensures

variable {depth : Nat}

/-- Directories are made where nothing was, and nothing else is changed. -/
theorem keptOrMade (h : Ensures cwd depth d p d') (l : Location) : d.KeptOrMade d' [] l := by
  have one : ∀ {d d' : Disk} {p : Path}, d.makeDirectory cwd p = .ok d' →
      d.KeptOrMade d' [] l := by
    intro d d' p h
    obtain ⟨k, hfree, rfl, -⟩ := locate_made h
    by_cases hl : l = k
    · exact .inr ⟨hl ▸ hfree, by rw [get?_put, if_pos hl], List.nil_prefix⟩
    · exact .inl (by rw [get?_put, if_neg hl])
  induction h with
  | working _ => exact .inl rfl
  | made _ h => exact one h
  | stands => exact .inl rfl
  | madeBelow _ _ _ _ hmade ih => exact ih.trans (one hmade)
  | standsBelow _ _ _ _ _ _ ih => exact ih

theorem extends_disk (h : Ensures cwd depth d p d') : d.Extends d' :=
  fun l _ he => (h.keptOrMade l).of_some he

theorem isTree (h : Ensures cwd depth d p d') (hd : d.IsTree) : d'.IsTree := by
  have one : ∀ {d d' : Disk} {p : Path}, d.makeDirectory cwd p = .ok d' → d.IsTree → d'.IsTree := by
    intro d d' p h hd
    obtain ⟨l, n, slash, -, hn, hopen, hfree, rfl⟩ := makeDirectory_named h
    exact hd.put hn hopen hfree _
  induction h with
  | working _ => exact hd
  | made _ h => exact one h hd
  | stands => exact hd
  | madeBelow _ _ _ _ hmade ih => exact one hmade (ih hd)
  | standsBelow _ _ _ _ _ _ ih => exact ih hd

theorem isDirectory (h : Ensures cwd depth d p d') (hp : p.text ≠ "") :
    d'.isDirectory cwd p = true := by
  have one : ∀ {d d' : Disk}, d.makeDirectory cwd p = .ok d' → d'.isDirectory cwd p = true := by
    intro d d' h
    obtain ⟨l, -, rfl, hl⟩ := locate_made h
    exact IsLinkless.isDirectory_located hl (by rw [get?_put, if_pos rfl]; rfl)
  cases h with
  | working hempty => exact absurd hempty hp
  | made _ h => exact one h
  | stands _ _ _ hdir => exact hdir
  | madeBelow _ _ _ _ hmade => exact one hmade
  | standsBelow _ _ _ _ _ hdir => exact hdir

/-- The path leads where something was made, unless nothing was: nothing is below it then. -/
theorem fresh (h : Ensures cwd depth d p d') (hd : d.IsTree) (hp : p.IsForward) :
    d' = d ∨ ∃ l, d.get? l = none ∧ d'.locate cwd p = .ok l ∧
      (d'.get? l).any Entry.isDirectory := by
  induction h with
  | working => exact .inl rfl
  | made _ h => exact .inr (new_made (fun _ _ he => he) h)
  | stands => exact .inl rfl
  | madeBelow _ _ _ hway hmade => exact .inr (new_made hway.extends_disk hmade)
  | @standsBelow depth d way p parent cause _ _ hparent hway _ hdir ih =>
    refine (ih hd (hp.of_parent? hparent)).imp_right ?_
    rintro ⟨k, hfree, hk, hkdir⟩
    obtain ⟨l, hl, hldir⟩ := located_of_isDirectory hdir
    refine ⟨l, ?_, hl, hldir⟩
    -- What is below the new directory is new, and no link, so the lookup stays there.
    have hnew : ∀ names target, way.get? (k ++ names) ≠ some (.link target) := by
      intro names target hlink
      rcases hway.keptOrMade (k ++ names) with heq | ⟨-, hmade, -⟩
      · rw [heq, hd.get?_below hfree] at hlink
        cases hlink
      · rw [hmade] at hlink
        cases hlink
    obtain ⟨names, rfl⟩ := (leads_of_locate hk hkdir).prefix_of_forward hnew hparent hp hl
    exact hd.get?_below hfree names

end Ensures

end Disk

namespace Files

open Plan Disk

variable {depth : Nat} {s s' : System} {p : Path}

theorem ensures_of_run (h : (ensureWithin depth p).run s = (.ok (), s')) :
    ∃ d, Ensures s.cwd depth s.disk p d ∧ s' = { s with disk := d } := by
  induction depth generalizing p s' with
  | zero => cases h
  | succ depth ih =>
    by_cases hempty : p.text = ""
    · rw [ensureWithin, if_pos hempty] at h
      cases h
      exact ⟨_, .working hempty, rfl⟩
    cases hmake : s.disk.makeDirectory s.cwd p with
    | ok d =>
      rw [ensureWithin_made depth hempty hmake] at h
      cases h
      exact ⟨_, .made hempty hmake, rfl⟩
    | error cause =>
      by_cases hcause : cause = .notFound
      · subst hcause
        cases hparent : p.parent? with
        | none =>
          rw [ensureWithin, if_neg hempty, run_bind, run_makeDirectory, hmake, System.change_error] at h
          simp only [hparent] at h
          cases h
        | some parent =>
          rcases hrun : (ensureWithin depth parent).run s with ⟨r, way⟩
          cases r with
          | error cause =>
            rw [ensureWithin_stopped hempty hmake hparent hrun] at h
            cases h
          | ok _ =>
            obtain ⟨d, hway, rfl⟩ := ih hrun
            cases hagain : d.makeDirectory s.cwd p with
            | ok d' =>
              rw [ensureWithin_retried hempty hmake hparent hrun hagain] at h
              cases h
              exact ⟨_, .madeBelow hempty hmake hparent hway hagain, rfl⟩
            | error cause =>
              rw [ensureWithin_refused_again hempty hmake hparent hrun hagain] at h
              obtain ⟨hok, rfl⟩ := Prod.mk.inj h
              split at hok
              · rename_i hdir
                exact ⟨_, .standsBelow hempty hmake hparent hway hagain hdir, rfl⟩
              · cases hok
      · rw [ensureWithin_refused depth hempty hmake hcause] at h
        obtain ⟨hok, rfl⟩ := Prod.mk.inj h
        split at hok
        · rename_i hdir
          exact ⟨_, .stands hempty hmake hcause hdir, rfl⟩
        · cases hok

theorem run_of_ensures {d d' : Disk} (h : Ensures s.cwd depth d p d') (hd : s.disk = d) :
    (ensureWithin depth p).run s = (.ok (), { s with disk := d' }) := by
  induction h with
  | working hempty =>
    subst hd
    rw [ensureWithin, if_pos hempty]
    rfl
  | made hempty hmake =>
    subst hd
    exact ensureWithin_made _ hempty hmake
  | stands hempty hmake hcause hdir =>
    subst hd
    rw [ensureWithin_refused _ hempty hmake hcause, if_pos hdir]
  | madeBelow hempty hmake hparent hway hagain ih =>
    subst hd
    have hretried := ensureWithin_retried hempty hmake hparent (ih rfl) hagain
    exact hretried
  | standsBelow hempty hmake hparent hway hagain hdir ih =>
    subst hd
    have hrefused := ensureWithin_refused_again hempty hmake hparent (ih rfl) hagain
    rw [hrefused, if_pos hdir]

theorem ensures_unique {d d' : Disk} (h : Ensures s.cwd depth s.disk p d)
    (h' : Ensures s.cwd depth s.disk p d') : d = d' := by
  have hrun := run_of_ensures h rfl
  rw [run_of_ensures h' rfl] at hrun
  exact (congrArg (·.2.disk) hrun).symm

theorem run_ensureDirectory_of_ensures {d : Disk}
    (h : Ensures s.cwd (p.text.length + 2) s.disk p d) :
    (ensureDirectory p).run s = (.ok (), { s with disk := d }) := by
  rw [ensureDirectory, run_bind, run_of_ensures h rfl]
  rfl

/-- Making a directory comes out well in no other way. -/
theorem run_ensureDirectory_fails (h : ∀ d, ¬Ensures s.cwd (p.text.length + 2) s.disk p d) :
    ∃ error s', (ensureDirectory p).run s = (.error error, s') := by
  rcases hrun : (ensureWithin (p.text.length + 2) p).run s with ⟨r, s'⟩
  rw [ensureDirectory, run_bind, hrun]
  cases r with
  | ok _ =>
    obtain ⟨d, hd, -⟩ := ensures_of_run hrun
    exact absurd hd (h d)
  | error cause => exact ⟨_, _, rfl⟩

end Files

end ReplicationQueue
