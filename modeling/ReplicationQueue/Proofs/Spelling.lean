import ReplicationQueue.Proofs.Tree

/-! Paths without two dots, in trees without links. Such a path names nothing but the location that
it spells: its names one below the other, from where its lookup starts. So what a call finds, makes
or removes through the path is what stands at that location, and where a directory stands there the
path leads to it. -/

namespace ReplicationQueue

attribute [local irreducible] Path.isTooLong

namespace Path

/-- A path that never goes back out. -/
def IsForward (p : Path) : Prop :=
  ".." ∉ p.names

instance (p : Path) : Decidable p.IsForward :=
  inferInstanceAs (Decidable (_ ∉ _))

/-- The location that a path spells. -/
def spelled (cwd : Location) (p : Path) : Location :=
  Disk.start cwd p ++ p.names.filter (· ≠ ".")

variable {p parent : Path} {n : String}

theorem IsForward.join (h : p.IsForward) (hn : IsPlain n) : (p.join n).IsForward := by
  unfold IsForward
  rw [names_join p hn, List.mem_append, List.mem_singleton, not_or]
  exact ⟨h, hn.ne_up.symm⟩

theorem null_of_join (hn : IsPlain n) (h : '\x00' ∉ (p.join n).text.toList) :
    '\x00' ∉ p.text.toList := by
  rw [toList_join p hn.noSlash] at h
  intro hmem
  refine h (List.mem_append_left _ ?_)
  unfold lead
  split
  · exact hmem
  · exact List.mem_append_left _ hmem

theorem spelled_join (cwd : Location) (hp : p.text ≠ "") (hn : IsPlain n) :
    (p.join n).spelled cwd = p.spelled cwd ++ [n] := by
  have hstart : Disk.start cwd (p.join n) = Disk.start cwd p := by
    simp [Disk.start, isAbsolute_join hp hn]
  simp [spelled, hstart, names_join p hn, hn.ne_dot]

/-! ### The parent of a path -/

theorem trimSegments_isPrefix (segments : List (List Char)) :
    trimSegments segments <+: segments := by
  rw [← List.reverse_suffix, trimSegments, List.reverse_reverse]
  exact List.dropWhile_suffix _

theorem joinSegments_append {a b : List (List Char)} (ha : a ≠ []) (hb : b ≠ []) :
    joinSegments (a ++ b) = joinSegments a ++ '/' :: joinSegments b := by
  induction a with
  | nil => exact absurd rfl ha
  | cons s rest ih =>
    cases rest with
    | nil =>
      obtain ⟨t, more, rfl⟩ := List.exists_cons_of_ne_nil hb
      rfl
    | cons t more =>
      have htail := ih (by simp)
      simp only [List.cons_append] at htail ⊢
      simp only [joinSegments, htail, List.append_assoc, List.cons_append]

/-- A text begins with its first segments, and a slash follows them unless they are all. -/
theorem joinSegments_of_prefix {kept : List (List Char)} {chars : List Char} (hkept : kept ≠ [])
    (h : kept <+: segments chars) :
    ∃ rest, chars = joinSegments kept ++ rest ∧ (rest = [] ∨ ∃ more, rest = '/' :: more) := by
  obtain ⟨others, hothers⟩ := h
  have hjoin := joinSegments_segments chars
  rw [← hothers] at hjoin
  by_cases hnil : others = []
  · exact ⟨[], by rw [← hjoin, hnil, List.append_nil, List.append_nil], .inl rfl⟩
  · exact ⟨_, by rw [← hjoin, joinSegments_append hkept hnil], .inr ⟨_, rfl⟩⟩

theorem isAbsoluteText_append {a : List Char} (ha : a ≠ []) (b : List Char) :
    isAbsoluteText (a ++ b) = isAbsoluteText a := by
  obtain ⟨c, rest, rfl⟩ := List.exists_cons_of_ne_nil ha
  unfold isAbsoluteText
  split <;> split <;> simp_all

theorem isAbsoluteText_of_front {chars : List Char}
    (h : leadOf (front chars).1 = [] ∨ (front chars).1 = some .here) :
    isAbsoluteText chars = false := by
  unfold front at h
  unfold isAbsoluteText
  split at h <;> simp_all [leadOf]

/-- The parent's text is the front of the path and some of the segments that follow it. -/
theorem parent?_cases (h : p.parent? = some parent) :
    ((front p.text.toList).1 = some .here ∧ parent.text.toList = []) ∨
      ∃ kept, kept <+: segments (front p.text.toList).2 ∧
        parent.text.toList = leadOf (front p.text.toList).1 ++ joinSegments kept := by
  unfold parent? at h
  simp only at h
  split at h
  · rename_i hfirst
    cases h
    exact .inl ⟨hfirst, rfl⟩
  · cases h
  · cases h
    exact .inr ⟨_, (trimSegments_isPrefix _).trans ((List.dropLast_prefix _).trans
      (trimSegments_isPrefix _)), String.toList_ofList⟩

/-- A slash follows the parent's text, unless it is one itself or there is none. -/
theorem parent?_text (h : p.parent? = some parent) :
    ∃ rest, p.text.toList = parent.text.toList ++ rest ∧
      (parent.text.toList = [] ∨ parent.text.toList = ['/'] ∨ rest = [] ∨
        ∃ more, rest = '/' :: more) := by
  rcases parent?_cases h with ⟨-, hnil⟩ | ⟨kept, hprefix, htext⟩
  · exact ⟨p.text.toList, by rw [hnil, List.nil_append], .inl hnil⟩
  · have hfront := leadOf_front p.text.toList
    by_cases hkept : kept = []
    · refine ⟨(front p.text.toList).2, by rw [htext, hkept, joinSegments, List.append_nil, hfront],
        ?_⟩
      rw [htext, hkept]
      unfold front
      split <;> simp [leadOf, joinSegments]
    · obtain ⟨rest, hrest, hslash⟩ := joinSegments_of_prefix hkept hprefix
      exact ⟨rest, by rw [htext, List.append_assoc, ← hrest, hfront], .inr (.inr hslash)⟩

theorem isAbsolute_of_parent? (h : p.parent? = some parent) :
    parent.isAbsolute = p.isAbsolute := by
  unfold isAbsolute
  by_cases hnil : parent.text.toList = []
  · rw [hnil]
    refine (isAbsoluteText_of_front ?_).symm
    rcases parent?_cases h with ⟨hfirst, -⟩ | ⟨kept, -, htext⟩
    · exact .inr hfirst
    · rw [htext, List.append_eq_nil_iff] at hnil
      exact .inl hnil.1
  · obtain ⟨rest, htext, -⟩ := parent?_text h
    rw [htext, isAbsoluteText_append hnil]

theorem names_prefix_of_parent? (h : p.parent? = some parent) : parent.names <+: p.names := by
  obtain ⟨rest, htext, hcases⟩ := parent?_text h
  unfold names
  refine List.IsPrefix.map _ ?_
  rcases hcases with hnil | hroot | rfl | ⟨more, rfl⟩
  · rw [hnil]
    exact List.nil_prefix
  · rw [hroot]
    exact List.nil_prefix
  · simp only [htext, List.append_nil, List.prefix_rfl]
  · rw [htext, segments_append, List.filter_append]
    exact List.prefix_append _ _

theorem IsForward.of_parent? (h : p.IsForward) (hparent : p.parent? = some parent) :
    parent.IsForward :=
  fun hmem => h ((names_prefix_of_parent? hparent).subset hmem)

theorem spelled_prefix_of_parent? (cwd : Location) (h : p.parent? = some parent) :
    parent.spelled cwd <+: p.spelled cwd := by
  have hstart : Disk.start cwd parent = Disk.start cwd p := by
    simp [Disk.start, isAbsolute_of_parent? h]
  unfold spelled
  rw [hstart, List.prefix_append_right_inj]
  exact (names_prefix_of_parent? h).filter _

theorem of_mem_segments {chars s : List Char} (h : s ∈ segments chars) {c : Char} (hc : c ∈ s) :
    c ∈ chars ∧ c ≠ '/' := by
  induction chars generalizing s with
  | nil =>
    obtain rfl : s = [] := by simpa [segments] using h
    cases hc
  | cons a chars ih =>
    obtain ⟨t, rest, hsegments⟩ := List.exists_cons_of_ne_nil (segments_ne_nil chars)
    rw [segments] at h
    split at h
    · rcases List.mem_cons.1 h with rfl | h
      · cases hc
      · exact ⟨List.mem_cons_of_mem _ (ih h hc).1, (ih h hc).2⟩
    · rename_i hslash
      rw [hsegments] at h ih
      rcases List.mem_cons.1 h with rfl | h
      · rcases List.mem_cons.1 hc with rfl | hc
        · exact ⟨List.mem_cons_self, hslash⟩
        · exact ⟨List.mem_cons_of_mem _ (ih List.mem_cons_self hc).1, (ih List.mem_cons_self hc).2⟩
      · exact ⟨List.mem_cons_of_mem _ (ih (List.mem_cons_of_mem _ h) hc).1,
          (ih (List.mem_cons_of_mem _ h) hc).2⟩

theorem isPlain_of_mem_names (hnull : '\x00' ∉ p.text.toList) (h : n ∈ p.names) (hdot : n ≠ ".")
    (hup : n ≠ "..") (hshort : n.utf8ByteSize ≤ maxNameBytes) : IsPlain n := by
  obtain ⟨s, hs, rfl⟩ := List.mem_map.1 h
  obtain ⟨hmem, hne⟩ := List.mem_filter.1 hs
  exact {
    ne_nil := by simpa using hne
    noSlash := fun hc => (of_mem_segments hmem (by simpa using hc)).2 rfl
    noNull := fun hc => hnull (of_mem_segments hmem (by simpa using hc)).1
    ne_dot := hdot
    ne_up := hup
    short := hshort }

end Path

namespace Disk

variable {d d' : Disk} {cwd l : Location} {p : Path} {n : String}

/-! ### What a lookup finds -/

/-- Without two dots a lookup goes only inward. -/
theorem IsLinkless.enter_forward (hd : d.IsLinkless)
    {follow : Location → List String → Except Cause Location} (steps : List String)
    (here : Location) (hforward : ".." ∉ steps)
    (h : enter d .existing follow here steps = .ok l) : l = here ++ steps.filter (· ≠ ".") := by
  induction steps generalizing here with
  | nil =>
    cases h
    exact (List.append_nil l).symm
  | cons step rest ih =>
    obtain ⟨-, hrest⟩ := not_or.1 (mt List.mem_cons.2 hforward)
    rcases enter_cons_cases h with ⟨rfl, h⟩ | ⟨rfl, -⟩ | ⟨hs, ⟨e, -, -, h⟩ | ⟨e, -, -, rfl, rfl⟩ |
      ⟨target, he, -⟩⟩
    · simpa using ih _ hrest h
    · simp at hforward
    · rw [ih _ hrest h]
      simp [hs.1]
    · simp [hs.1]
    · exact absurd he (hd.linkless _ _)

theorem IsLinkless.locate_forward (hd : d.IsLinkless) (hp : p.IsForward)
    (h : d.locate cwd p = .ok l) : checkPath p = .ok () ∧ l = p.spelled cwd := by
  unfold locate at h
  cases hc : checkPath p with
  | error cause => rw [hc] at h; cases h
  | ok _ =>
    rw [hc] at h
    refine ⟨rfl, ?_⟩
    replace h : enter d .existing (resolve d .existing 39) (start cwd p) (Path.stepsOf p.text) =
        .ok l := h
    rcases Path.stepsOf_text p with hsteps | hsteps <;> rw [hsteps] at h
    · exact hd.enter_forward _ _ hp h
    · rw [hd.enter_forward _ _ (by simpa [Path.IsForward] using hp) h]
      simp [Path.spelled]

theorem IsLinkless.status_forward (hd : d.IsLinkless) (hp : p.IsForward) {e : Entry}
    (h : d.status cwd p = .ok e) : checkPath p = .ok () ∧ d.get? (p.spelled cwd) = some e := by
  unfold status at h
  cases hl : d.locate cwd p with
  | error cause => rw [hl] at h; cases h
  | ok l =>
    obtain ⟨hc, rfl⟩ := hd.locate_forward hp hl
    rw [hl] at h
    simp only [bind, Except.bind] at h
    split at h
    · rename_i e' he
      cases h
      exact ⟨hc, he⟩
    · cases h

theorem IsLinkless.isDirectory_forward (hd : d.IsLinkless) (hp : p.IsForward)
    (h : d.isDirectory cwd p = true) :
    checkPath p = .ok () ∧ (d.get? (p.spelled cwd)).any Entry.isDirectory := by
  unfold isDirectory at h
  split at h
  · rename_i e he
    obtain ⟨hc, hget⟩ := hd.status_forward hp he
    exact ⟨hc, by rw [hget]; exact h⟩
  · cases h

theorem slot_of_no_names (d : Disk) (cwd : Location) (hc : checkPath p = .ok ())
    (hnames : p.names = []) : d.slot cwd p = .ok .special := by
  have hlast : ((Path.segments p.text.toList).filter (· ≠ [])).map String.ofList = [] := hnames
  simp only [slot, hc, bind, Except.bind, hlast, List.getLast?_nil]
  rfl

/-- The slot of a path is its last name, in the directory that the names before it lead to. -/
theorem slot_of_names (d : Disk) (cwd : Location) (hc : checkPath p = .ok ()) {names : List String}
    (hnames : p.names = names ++ [n]) :
    d.slot cwd p = (resolve d .existing maxLinks (start cwd p) (names ++ ["."])).map fun l =>
      if n = "." ∨ n = ".." then .special else .named l n (p.text.toList.getLast? == some '/') := by
  have hlast : ((Path.segments p.text.toList).filter (· ≠ [])).map String.ofList = names ++ [n] :=
    hnames
  simp only [slot, hc, bind, Except.bind, hlast, List.getLast?_append, List.getLast?_singleton,
    Option.some_or, List.dropLast_concat]
  cases resolve d .existing maxLinks (start cwd p) (names ++ ["."]) with
  | error cause => rfl
  | ok l =>
    simp only [Except.map]
    split <;> rfl

/-- A path that ends at a name: the names before it are those of a directory. -/
theorem slot_named {slash : Bool} (h : d.slot cwd p = .ok (.named l n slash)) :
    checkPath p = .ok () ∧ n ≠ "." ∧ n ≠ ".." ∧ ∃ names, p.names = names ++ [n] ∧
      resolve d .existing maxLinks (start cwd p) (names ++ ["."]) = .ok l := by
  cases hc : checkPath p with
  | error cause => rw [slot, hc] at h; cases h
  | ok _ =>
    rcases List.eq_nil_or_concat p.names with hnames | ⟨names, last, hnames⟩
    · rw [slot_of_no_names d cwd hc hnames] at h
      cases h
    · rw [List.concat_eq_append] at hnames
      rw [slot_of_names d cwd hc hnames] at h
      cases hl : resolve d .existing maxLinks (start cwd p) (names ++ ["."]) with
      | error cause => rw [hl] at h; cases h
      | ok directory =>
        rw [hl] at h
        simp only [Except.map] at h
        split at h
        · cases h
        · rename_i hentered
          cases h
          rw [not_or] at hentered
          exact ⟨rfl, hentered.1, hentered.2, names, hnames, hl⟩

/-- The slot that a path ends at is the location that it spells. -/
theorem IsLinkless.slot_forward (hd : d.IsLinkless) (hp : p.IsForward) {slash : Bool}
    (h : d.slot cwd p = .ok (.named l n slash)) : p.spelled cwd = l ++ [n] := by
  obtain ⟨-, hdot, -, names, hnames, hl⟩ := slot_named h
  have hforward : ".." ∉ names ++ ["."] := by
    have := hp
    rw [Path.IsForward, hnames] at this
    simp_all
  rw [hd.enter_forward _ _ hforward hl, Path.spelled, hnames]
  simp [hdot]

theorem slot_refused (d : Disk) (cwd : Location) {cause : Cause}
    (h : checkPath p = .error cause) : d.slot cwd p = .error cause := by
  unfold slot
  rw [h]
  rfl

/-! ### Where a directory stands -/

/-- Through directories a lookup goes where its steps spell. -/
theorem IsTree.enter_spelled (hd : d.IsTree)
    {follow : Location → List String → Except Cause Location} {need : Need} (steps more : List String)
    (here : Location) (hforward : ".." ∉ steps)
    (hdir : (d.get? (here ++ steps.filter (· ≠ "."))).any Entry.isDirectory) :
    enter d need follow here (steps ++ more) =
      enter d need follow (here ++ steps.filter (· ≠ ".")) more := by
  induction steps generalizing here with
  | nil => simp
  | cons step rest ih =>
    obtain ⟨hup, hrest⟩ := not_or.1 (mt List.mem_cons.2 hforward)
    by_cases hdot : step = "."
    · subst hdot
      simp only [List.cons_append, enter_dot]
      simpa using ih here hrest (by simpa using hdir)
    · have hfilter : (step :: rest).filter (· ≠ ".") = step :: rest.filter (· ≠ ".") := by
        simp [hdot]
      rw [hfilter, List.append_cons] at hdir ⊢
      obtain ⟨e, he, hentry⟩ : ∃ e, d.get? (here ++ [step]) = some e ∧ e.isDirectory := by
        refine (Option.any_eq_true ..).1 ?_
        by_cases hnil : rest.filter (· ≠ ".") = []
        · rwa [hnil, List.append_nil] at hdir
        · obtain ⟨e, he, -⟩ := (Option.any_eq_true ..).1 hdir
          exact hd.isDirectory_of_below hnil he
      rw [List.cons_append, enter_directory ⟨hdot, Ne.symm hup⟩ he hentry]
      exact ih _ hrest hdir

/-- A path leads to the directory that it spells. -/
theorem IsTree.leads_spelled (hd : d.IsTree) (hp : p.IsForward) (hempty : p.text ≠ "")
    (hnull : '\x00' ∉ p.text.toList) (hdir : (d.get? (p.spelled cwd)).any Entry.isDirectory) :
    d.Leads cwd p (p.spelled cwd) where
  ne_empty := hempty
  noNull := hnull
  onward more r hr := by
    rw [← hr (resolve d .existing 39)]
    exact hd.enter_spelled _ _ _ hp hdir

theorem checkNull_eq_ok : checkNull p = .ok () ↔ '\x00' ∉ p.text.toList := by
  unfold checkNull
  split <;> simp_all

theorem checkNull_eq_error {cause : Cause} (h : checkNull p = .error cause) :
    cause = .nullInPath := by
  unfold checkNull at h
  split at h <;> cases h
  rfl

theorem checkPath_eq_ok : checkPath p = .ok () ↔
    '\x00' ∉ p.text.toList ∧ p.isTooLong = false ∧ p.text ≠ "" := by
  unfold checkPath checkNull
  by_cases hnull : '\x00' ∈ p.text.toList
  · simp [hnull, bind, Except.bind]
  · by_cases hlong : p.isTooLong <;> by_cases hempty : p.text = "" <;>
      simp [hnull, hlong, hempty, bind, Except.bind]

theorem checkPath_ne_notFound (hempty : p.text ≠ "") : checkPath p ≠ .error .notFound := by
  intro h
  unfold checkPath checkNull at h
  split at h
  · cases h
  · by_cases hlong : p.isTooLong <;> simp [hlong, bind, Except.bind] at h

/-- The path can be looked up, and a directory stands at the location that it spells. -/
structure Provides (d : Disk) (cwd : Location) (p : Path) : Prop where
  noNull : '\x00' ∉ p.text.toList
  directory : (d.get? (p.spelled cwd)).any Entry.isDirectory

theorem Provides.leads (h : d.Provides cwd p) (hd : d.IsTree) (hp : p.IsForward)
    (hempty : p.text ≠ "") : d.Leads cwd p (p.spelled cwd) :=
  hd.leads_spelled hp hempty h.noNull h.directory

/-- Where something stands below the location that a path spells, the path leads there. -/
theorem IsTree.leads_of_below (hd : d.IsTree) (hp : p.IsForward) (hempty : p.text ≠ "")
    (hnull : '\x00' ∉ p.text.toList) {e : Entry} (he : d.get? (p.spelled cwd ++ [n]) = some e) :
    d.Leads cwd p (p.spelled cwd) :=
  hd.leads_spelled hp hempty hnull (hd.isDirectory_of_below (by simp) he)

/-! ### Calls -/

/-- A directory is made under a name that was free. -/
theorem makeDirectory_named (h : d.makeDirectory cwd p = .ok d') :
    ∃ l n slash, d.slot cwd p = .ok (.named l n slash) ∧ IsPlain n ∧
      (d.get? l).any Entry.isOpen ∧ d.get? (l ++ [n]) = none ∧ d' = d.put (l ++ [n]) .directory := by
  unfold makeDirectory freePlace at h
  cases hslot : d.slot cwd p with
  | error cause => rw [hslot] at h; cases h
  | ok slot =>
    rw [hslot] at h
    cases slot with
    | special => cases h
    | named l n slash =>
      obtain ⟨hc, hdot, hup, names, hnames, -⟩ := slot_named hslot
      simp only [bind, Except.bind] at h
      split at h
      · cases h
      · rename_i place hplace
        cases h
        split at hplace
        · cases hplace
        · rename_i hfree
          split at hplace
          · rename_i hadmits
            cases hplace
            rw [admits, Bool.and_eq_true, decide_eq_true_eq] at hadmits
            exact ⟨l, n, slash, rfl, Path.isPlain_of_mem_names (checkPath_eq_ok.1 hc).1
              (by simp [hnames]) hdot hup hadmits.2, hadmits.1, by simpa using hfree, rfl⟩
          · cases hplace

/-- A directory is made nowhere but at the location that the path spells. -/
theorem IsLinkless.makeDirectory_forward (hd : d.IsLinkless) (hp : p.IsForward)
    (h : d.makeDirectory cwd p = .ok d') :
    checkPath p = .ok () ∧ ∃ l n, p.spelled cwd = l ++ [n] ∧ IsPlain n ∧
      (d.get? l).any Entry.isOpen ∧ d.get? (l ++ [n]) = none ∧
        d' = d.put (l ++ [n]) .directory := by
  obtain ⟨l, n, slash, hslot, hmade⟩ := makeDirectory_named h
  exact ⟨(slot_named hslot).1, l, n, hd.slot_forward hp hslot, hmade⟩

section Named

variable (hd : d.IsLinkless) (hp : p.IsForward) (hempty : p.text ≠ "") (hn : IsPlain n)

include hd hp hempty hn

/-- A path names what stands at the location that it spells. -/
theorem IsLinkless.exists?_forward :
    d.exists? cwd (p.join n) = true ↔
      checkPath (p.join n) = .ok () ∧ (d.get? (p.spelled cwd ++ [n])).isSome := by
  constructor
  · intro h
    unfold exists? at h
    cases hstatus : d.status cwd (p.join n) with
    | error cause => rw [hstatus] at h; cases h
    | ok e =>
      obtain ⟨hc, he⟩ := hd.status_forward (hp.join hn) hstatus
      rw [Path.spelled_join cwd hempty hn] at he
      exact ⟨hc, by rw [he]; rfl⟩
  · rintro ⟨hc, hsome⟩
    obtain ⟨hnull, hlong, -⟩ := checkPath_eq_ok.1 hc
    obtain ⟨e, he⟩ := Option.isSome_iff_exists.1 hsome
    have hleads := hd.leads_of_below hp hempty (Path.null_of_join hn hnull) he
    rw [hleads.exists?_join hn (hd.linkless _), hlong, he]
    rfl

theorem IsLinkless.slot_join_forward {found : Slot} (h : d.slot cwd (p.join n) = .ok found) :
    checkPath (p.join n) = .ok () ∧ found = .named (p.spelled cwd) n false := by
  have hstart : start cwd (p.join n) = start cwd p := by
    simp [start, Path.isAbsolute_join hempty hn]
  have hslash : ((p.join n).text.toList.getLast? == some '/') = false := by
    simpa using Path.getLast?_join p hn
  cases hc : checkPath (p.join n) with
  | error cause => rw [slot, hc] at h; cases h
  | ok _ =>
    rw [slot_of_names d cwd hc (Path.names_join p hn), hstart, hslash] at h
    cases hl : resolve d .existing maxLinks (start cwd p) (p.names ++ ["."]) with
    | error cause => rw [hl] at h; cases h
    | ok l =>
      rw [hl] at h
      simp only [Except.map, hn.ne_dot, hn.ne_up, or_self, ↓reduceIte] at h
      cases h
      refine ⟨rfl, ?_⟩
      rw [hd.enter_forward _ _ (by simpa [Path.IsForward] using hp) hl]
      simp [Path.spelled]

theorem IsLinkless.contents_forward {bytes : Bytes} :
    d.contents cwd (p.join n) = .ok bytes ↔
      checkPath (p.join n) = .ok () ∧ d.get? (p.spelled cwd ++ [n]) = some (.file bytes) := by
  constructor
  · intro h
    unfold contents at h
    cases hstatus : d.status cwd (p.join n) with
    | error cause => rw [hstatus] at h; cases h
    | ok e =>
      obtain ⟨hc, he⟩ := hd.status_forward (hp.join hn) hstatus
      rw [Path.spelled_join cwd hempty hn] at he
      rw [hstatus] at h
      cases e <;> cases h
      exact ⟨hc, he⟩
  · rintro ⟨hc, he⟩
    obtain ⟨hnull, hlong, -⟩ := checkPath_eq_ok.1 hc
    have hleads := hd.leads_of_below hp hempty (Path.null_of_join hn hnull) he
    rw [hleads.contents_join hn he, hlong]
    rfl

end Named

end Disk

end ReplicationQueue
