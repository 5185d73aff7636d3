import ReplicationQueue.Proofs.Files
import ReplicationQueue.Proofs.Site

/-! Trees without links, whatever else is in them. A lookup of a directory passes nothing but
directories, so it ends where it did as long as these stay; and a file is moved to a name in a
directory, or the move is refused, but the file is not missing. -/

namespace ReplicationQueue

attribute [local irreducible] Path.isTooLong

namespace Disk

/-- A tree without links. A directory that was removed while it was in use has no name. -/
structure IsLinkless (d : Disk) : Prop extends d.IsTree where
  linkless : ∀ l target, d.get? l ≠ some (.link target)
  nameless : ∀ l n, d.get? (l ++ [n]) = some .removed → n = ""

/-- The second disk holds the directories of the first. -/
def KeepsDirectories (d d' : Disk) : Prop :=
  ∀ l e, d.get? l = some e → e.isDirectory → d'.get? l = some e

variable {d d' : Disk} {cwd l : Location} {p : Path} {m n : String}

/-- What lies in something lies in a directory. -/
theorem IsTree.isDirectory_of_below (h : d.IsTree) {names : Location} (hne : names ≠ [])
    {e : Entry} (he : d.get? (l ++ names) = some e) : (d.get? l).any Entry.isDirectory := by
  obtain ⟨n, rest, rfl⟩ := List.exists_cons_of_ne_nil hne
  have hl : d.get? (l ++ [n]) ≠ none := by
    intro hnone
    rw [List.append_cons, h.get?_below hnone] at he
    cases he
  obtain ⟨e', he'⟩ := Option.ne_none_iff_exists'.1 hl
  rcases h.inside _ _ _ he' with hd | ⟨_, hd⟩ <;> rw [hd] <;> rfl

theorem IsTree.get?_below_leaf (h : d.IsTree) {e : Entry} (hl : d.get? l = some e)
    (hleaf : e.isDirectory = false) (n : String) (rest : Location) :
    d.get? (l ++ n :: rest) = none := by
  rw [Option.eq_none_iff_forall_ne_some]
  intro x hx
  have hdir := h.isDirectory_of_below (by simp) hx
  simp [hl, hleaf] at hdir

theorem IsTree.isPlain_of_file (h : d.IsTree) {contents : Bytes}
    (hl : d.get? (l ++ [n]) = some (.file contents)) : IsPlain n := by
  rcases h.plain l n _ hl with hplain | hremoved
  · exact hplain
  · cases hremoved

/-! ### Lookups -/

namespace IsLinkless

variable {follow follow' : Location → List String → Except Cause Location}

theorem enter_kept (hd : d.IsLinkless) (hkept : KeepsDirectories d d') (steps : List String)
    (here : Location) (h : enter d .existing follow here steps = .ok l)
    (hl : (d.get? l).any Entry.isDirectory) :
    enter d' .existing follow' here steps = .ok l := by
  induction steps generalizing here with
  | nil => exact h
  | cons step rest ih =>
    rcases enter_cons_cases h with ⟨rfl, h⟩ | ⟨rfl, h⟩ | ⟨hs, ⟨e, he, hdir, h⟩ |
      ⟨e, he, hleaf, rfl, rfl⟩ | ⟨target, he, -⟩⟩
    · rw [enter_dot]
      exact ih _ h
    · rw [enter_up]
      exact ih _ h
    · rw [enter_directory hs (hkept _ _ he hdir) hdir]
      exact ih _ h
    · simp [he, Entry.isDirectory_of_isLeaf hleaf] at hl
    · exact absurd he (hd.linkless _ _)

theorem locate_kept (hd : d.IsLinkless) (hkept : KeepsDirectories d d')
    (h : d.locate cwd p = .ok l) (hl : (d.get? l).any Entry.isDirectory) :
    d'.locate cwd p = .ok l := by
  unfold locate at h ⊢
  cases hc : checkPath p with
  | error cause => rw [hc] at h; cases h
  | ok _ =>
    rw [hc] at h
    exact hd.enter_kept hkept _ _ h hl

/-- A lookup that ends at a name ends in a directory before it. -/
theorem enter_name (hd : d.IsLinkless) (hn : IsEntered n) (steps : List String) (here : Location)
    (h : enter d .existing follow here (steps ++ [n]) = .ok l) :
    ∃ base, l = base ++ [n] ∧ (d.get? l).isSome ∧
      ∀ follow, enter d .existing follow here steps = .ok base := by
  induction steps generalizing here with
  | nil =>
    rcases enter_cons_cases h with ⟨rfl, -⟩ | ⟨rfl, -⟩ | ⟨-, ⟨e, he, -, h⟩ |
      ⟨e, he, -, -, rfl⟩ | ⟨target, he, -⟩⟩
    · exact absurd rfl hn.1
    · exact absurd rfl hn.2
    · cases h
      exact ⟨here, rfl, by rw [he]; rfl, fun _ => rfl⟩
    · exact ⟨here, rfl, by rw [he]; rfl, fun _ => rfl⟩
    · exact absurd he (hd.linkless _ _)
  | cons step rest ih =>
    rw [List.cons_append] at h
    rcases enter_cons_cases h with ⟨rfl, h⟩ | ⟨rfl, h⟩ | ⟨hs, ⟨e, he, hdir, h⟩ |
      ⟨e, he, -, hrest, -⟩ | ⟨target, he, -⟩⟩
    · simpa only [enter_dot] using ih _ h
    · simpa only [enter_up] using ih _ h
    · simpa only [enter_directory hs he hdir] using ih _ h
    · simp at hrest
    · exact absurd he (hd.linkless _ _)

/-- What is there is not made again. -/
theorem makeDirectory_located (hd : d.IsLinkless) (hn : IsPlain n)
    (h : d.locate cwd (p.join n) = .ok l) :
    d.makeDirectory cwd (p.join n) = .error .alreadyExists := by
  unfold locate at h
  cases hc : checkPath (p.join n) with
  | error cause => rw [hc] at h; cases h
  | ok _ =>
    rw [hc] at h
    replace h : enter d .existing (resolve d .existing 39) (start cwd (p.join n))
        (Path.stepsOf (p.join n).text) = .ok l := h
    rw [Path.stepsOf_join p hn] at h
    obtain ⟨base, rfl, hsome, hbase⟩ := hd.enter_name ⟨hn.ne_dot, hn.ne_up⟩ _ _ h
    obtain ⟨e, he⟩ := Option.isSome_iff_exists.1 hsome
    have hlookup : resolve d .existing maxLinks (start cwd (p.join n)) (p.names ++ ["."]) =
        .ok base :=
      resolve_append (hd.isDirectory_of_below (by simp) he) (fun follow => by simp [enter]) _ _ _
        (hbase _)
    have hnames : ((Path.segments (p.join n).text.toList).filter (· ≠ [])).map String.ofList =
        p.names ++ [n] := Path.names_join p hn
    unfold makeDirectory freePlace slot
    rw [hc]
    simp only [hnames, List.getLast?_append, List.getLast?_singleton, Option.some_or,
      List.dropLast_concat, hlookup, hn.ne_dot, hn.ne_up, or_self, bind, Except.bind, pure,
      Except.pure, ↓reduceIte, he, Option.isSome_some]

theorem isDirectory_located (h : d.locate cwd p = .ok l) (hl : (d.get? l).any Entry.isDirectory) :
    d.isDirectory cwd p = true := by
  unfold isDirectory status
  rw [h]
  cases he : d.get? l with
  | none => simp [he] at hl
  | some e =>
    rw [he] at hl
    simpa [bind, Except.bind, pure, Except.pure, he] using hl

end IsLinkless

/-! ### Below a file -/

namespace Leads

theorem onward_leaf (h : d.Leads cwd p l) (hm : IsPlain m) {e : Entry}
    (he : d.get? (l ++ [m]) = some e) (hleaf : e.isLeaf) {more : List String} (hmore : more ≠ []) :
    resolve d .existing maxLinks (start cwd p) (p.names ++ m :: more) = .error .notDirectory := by
  refine h.onward _ _ fun follow => ?_
  rw [enter_leaf ⟨hm.ne_dot, hm.ne_up⟩ he hleaf]
  exact if_neg hmore

theorem makeDirectory_join_leaf (h : d.Leads cwd p l) (hm : IsPlain m) (hn : IsPlain n) {e : Entry}
    (he : d.get? (l ++ [m]) = some e) (hleaf : e.isLeaf) :
    d.makeDirectory cwd ((p.join m).join n) =
      if ((p.join m).join n).isTooLong then .error .nameTooLong else .error .notDirectory := by
  have hnames : ((Path.segments ((p.join m).join n).text.toList).filter (· ≠ [])).map
      String.ofList = p.names ++ [m] ++ [n] := by
    rw [← Path.names_join p hm]
    exact Path.names_join _ hn
  have hlookup : resolve d .existing maxLinks (start cwd p) (p.names ++ [m] ++ ["."]) =
      .error .notDirectory := by
    rw [List.append_assoc]
    exact h.onward_leaf hm he hleaf (by simp)
  unfold makeDirectory freePlace slot checkPath checkNull
  rw [if_neg (Path.null_mem_join hn (Path.null_mem_join hm h.noNull))]
  simp only [Path.text_join_ne_empty _ hn, ↓reduceIte]
  by_cases hlong : ((p.join m).join n).isTooLong
  · simp only [hlong, ↓reduceIte]
    rfl
  · simp only [hlong, Bool.false_eq_true, ↓reduceIte, hnames, List.getLast?_append,
      List.getLast?_singleton, Option.some_or, List.dropLast_concat,
      h.start_join_join hm hn, hlookup]
    rfl

theorem isDirectory_join_leaf (h : d.Leads cwd p l) (hm : IsPlain m) (hn : IsPlain n) {e : Entry}
    (he : d.get? (l ++ [m]) = some e) (hleaf : e.isLeaf) :
    d.isDirectory cwd ((p.join m).join n) = false := by
  unfold isDirectory status locate
  cases hc : checkPath ((p.join m).join n) with
  | error cause => rfl
  | ok _ =>
    rw [Path.stepsOf_join _ hn, Path.names_join p hm, List.append_assoc, h.start_join_join hm hn,
      show Except.ok () = pure () from rfl, pure_bind, List.singleton_append,
      h.onward_leaf hm he hleaf (by simp)]
    rfl

end Leads

/-! ### Volumes -/

theorem volume_prefix (d : Disk) (l : Location) : d.volume l <+: l := by
  induction l using List.reverseRecOn with
  | nil =>
    unfold volume Location.outward
    cases h : (d.get? []).any Entry.isMount <;> simp [h]
  | append_singleton l n ih =>
    by_cases h : (d.get? (l ++ [n])).any Entry.isMount = true
    · have hfind : (Location.outward (l ++ [n])).find?
          (fun k => (d.get? k).any Entry.isMount) = some (l ++ [n]) := by
        rw [outward_concat]
        exact List.find?_cons_of_pos h
      rw [volume, hfind]
      exact List.prefix_rfl
    · rw [volume_concat d l n (by simpa using h)]
      exact ih.trans (List.prefix_append _ _)

theorem volume_mount (d : Disk) (l : Location) (n : String) {isSealed : Bool}
    (h : d.get? (l ++ [n]) = some (.mount isSealed)) : d.volume (l ++ [n]) = l ++ [n] := by
  rw [volume, outward_concat, List.find?_cons_of_pos (by rw [h]; rfl)]
  rfl

/-- A directory on the volume of one that it does not hold takes new entries. -/
theorem IsLinkless.isOpen_of_volume (hd : d.IsLinkless) {other : Location} (hn : n ≠ "")
    (hdir : (d.get? (l ++ [n])).any Entry.isDirectory) (hapart : ¬(l ++ [n]) <+: other)
    (hvolume : d.volume other = d.volume (l ++ [n])) : (d.get? (l ++ [n])).any Entry.isOpen := by
  cases he : d.get? (l ++ [n]) with
  | none => simp [he] at hdir
  | some e =>
    cases e with
    | directory => rfl
    | mount isSealed =>
      rw [d.volume_mount l n he] at hvolume
      exact absurd (hvolume ▸ d.volume_prefix other) hapart
    | removed => exact absurd (hd.nameless l n he) hn
    | file _ => simp [he, Entry.isDirectory] at hdir
    | link _ => simp [he, Entry.isDirectory] at hdir
    | special => simp [he, Entry.isDirectory] at hdir

/-! ### Changes -/

theorem IsLinkless.isLeaf (hd : d.IsLinkless) {e : Entry} (he : d.get? l = some e)
    (hdir : e.isDirectory = false) : e.isLeaf := by
  cases e with
  | file contents => rfl
  | special => rfl
  | link target => exact absurd he (hd.linkless l target)
  | directory => cases hdir
  | mount isSealed => cases hdir
  | removed => cases hdir

/-- A directory or a file was put where there was no directory, and perhaps leaves are gone. -/
theorem IsLinkless.change (hd : d.IsLinkless) (hn : IsPlain n)
    (hopen : (d.get? l).any Entry.isOpen)
    (hfree : ∀ e, d.get? (l ++ [n]) = some e → e.isDirectory = false) {e : Entry}
    (he : e = .directory ∨ ∃ contents, e = .file contents) (hnew : d'.get? (l ++ [n]) = some e)
    (hother : ∀ k, k ≠ l ++ [n] → d'.get? k = d.get? k ∨
      d'.get? k = none ∧ ∃ x, d.get? k = some x ∧ x.isDirectory = false) : d'.IsLinkless := by
  -- What is a directory stays one.
  have kept : ∀ k x, d.get? k = some x → x.isDirectory = true → d'.get? k = some x := by
    intro k x hx hdir
    have hne : k ≠ l ++ [n] := by
      rintro rfl
      rw [hfree x hx] at hdir
      cases hdir
    rcases hother k hne with heq | ⟨-, y, hy, hleaf⟩
    · rw [heq, hx]
    · rw [hx] at hy
      cases hy
      rw [hdir] at hleaf
      cases hleaf
  -- What else there is was there before.
  have before : ∀ k x, k ≠ l ++ [n] → d'.get? k = some x → d.get? k = some x := by
    intro k x hne hx
    rcases hother k hne with heq | ⟨hnone, -⟩
    · rw [← heq, hx]
    · rw [hnone] at hx
      cases hx
  refine ⟨⟨fun k m x hx => ?_, fun k m x hx => ?_⟩, fun k target hx => ?_, fun k m hx => ?_⟩
  · by_cases hk : k ++ [m] = l ++ [n]
    · obtain ⟨rfl, -⟩ := List.append_inj' hk rfl
      rcases directory_of_isOpen hopen with hdir | ⟨isSealed, hdir⟩
      · exact .inl (kept k _ hdir rfl)
      · exact .inr ⟨isSealed, kept k _ hdir rfl⟩
    · rcases hd.inside k m x (before _ x hk hx) with hdir | ⟨isSealed, hdir⟩
      · exact .inl (kept k _ hdir rfl)
      · exact .inr ⟨isSealed, kept k _ hdir rfl⟩
  · by_cases hk : k ++ [m] = l ++ [n]
    · obtain ⟨-, hm⟩ := List.append_inj' hk rfl
      cases hm
      exact .inl hn
    · exact hd.plain k m x (before _ x hk hx)
  · by_cases hk : k = l ++ [n]
    · rw [hk, hnew] at hx
      cases hx
      rcases he with he | ⟨_, he⟩ <;> cases he
    · exact hd.linkless k target (before k _ hk hx)
  · by_cases hk : k ++ [m] = l ++ [n]
    · rw [hk, hnew] at hx
      cases hx
      rcases he with he | ⟨_, he⟩ <;> cases he
    · exact hd.nameless k m (before _ _ hk hx)

theorem IsLinkless.put_directory (hd : d.IsLinkless) (hn : IsPlain n)
    (hopen : (d.get? l).any Entry.isOpen) (hfree : d.get? (l ++ [n]) = none) :
    (d.put (l ++ [n]) .directory).IsLinkless :=
  hd.change hn hopen (by simp [hfree]) (.inl rfl) (by simp) fun k hk => .inl (by simp [hk])

theorem IsLinkless.put_file (hd : d.IsLinkless) (hn : IsPlain n)
    (hopen : (d.get? l).any Entry.isOpen) (hfree : d.get? (l ++ [n]) = none) (contents : Bytes) :
    (d.put (l ++ [n]) (.file contents)).IsLinkless :=
  hd.change hn hopen (by simp [hfree]) (.inr ⟨contents, rfl⟩) (by simp) fun k hk =>
    .inl (by simp [hk])

/-- A file is moved to a name in a directory, or the move is refused; the file is there. -/
theorem Leads.rename_file {p' : Path} {l' : Location} {n' : String}
    (h : d.Leads cwd p l) (h' : d.Leads cwd p' l') (hn : IsPlain n) (hn' : IsPlain n')
    {contents : Bytes} (hfile : d.get? (l ++ [n]) = some (.file contents))
    (hshort : (p.join n).isTooLong = false) (hne : l ++ [n] ≠ l' ++ [n'])
    (hopen : d.volume l = d.volume l' → (d.get? l').any Entry.isOpen) :
    (∃ cause, d.rename cwd (p.join n) (p'.join n') = .error cause ∧ cause ≠ .notFound) ∨
      d.rename cwd (p.join n) (p'.join n') = .ok (d.moveTree (l ++ [n]) (l' ++ [n'])) ∧
        (p'.join n').isTooLong = false ∧ (d.get? l').any Entry.isOpen ∧
        ∀ e, d.get? (l' ++ [n']) = some e → e.isDirectory = false := by
  unfold rename
  rw [h.checkNull_join hn, h'.checkNull_join hn', h.slot_join hn, h'.slot_join hn', hshort]
  by_cases hlong : (p'.join n').isTooLong
  · exact .inl ⟨.nameTooLong, by simp [hlong, bind, Except.bind], by simp⟩
  by_cases hvolume : d.volume l = d.volume l'
  · have hadmits := admits_of_isOpen (hopen hvolume) hn'
    by_cases hbelow : (l ++ [n]) <+: (l' ++ [n'])
    · exact .inl ⟨.intoItself, by simp [hlong, bind, Except.bind, hvolume, hfile, hadmits, hne,
        Entry.isDirectory, hbelow], by simp⟩
    by_cases habove : (l' ++ [n']) <+: (l ++ [n])
    · exact .inl ⟨.notEmpty, by simp [hlong, bind, Except.bind, hvolume, hfile, hadmits, hne,
        Entry.isDirectory, hbelow, habove], by simp⟩
    have hreplace : d.checkReplace (.file contents) (l' ++ [n']) =
        if (d.get? (l' ++ [n'])).any Entry.isDirectory then .error .isDirectory else .ok () := by
      unfold checkReplace
      cases d.get? (l' ++ [n']) with
      | none => rfl
      | some old => cases old <;> rfl
    by_cases hdir : (d.get? (l' ++ [n'])).any Entry.isDirectory
    · rw [if_pos hdir] at hreplace
      exact .inl ⟨.isDirectory, by simp [hlong, bind, Except.bind, hvolume, hfile, hadmits, hne,
        Entry.isDirectory, Entry.isMount, hbelow, habove, hreplace], by simp⟩
    · rw [if_neg hdir] at hreplace
      refine .inr ⟨by simp [hlong, bind, Except.bind, pure, Except.pure, hvolume, hfile, hadmits,
        hne, Entry.isDirectory, Entry.isMount, hbelow, habove, hreplace], by simpa using hlong,
        hopen hvolume, fun e he => ?_⟩
      simpa [he] using hdir
  · exact .inl ⟨.acrossVolumes, by simp [hlong, bind, Except.bind, hvolume], by simp⟩

end Disk

end ReplicationQueue
