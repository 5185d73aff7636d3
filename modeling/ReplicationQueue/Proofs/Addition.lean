import ReplicationQueue.Proofs.Making

/-! A file that is added to a tree, under a name that was free. A lookup that ends elsewhere ends
there with the file and without it, and a lookup that fails fails with it too, perhaps because a
file is no directory. So the directories of a path are made as if the file were not there, unless it
stands where one of them would be. -/

namespace ReplicationQueue

attribute [local irreducible] Path.isTooLong

namespace Disk

variable {d d' : Disk} {cwd k l : Location} {p : Path} {n : String} {bytes : Bytes} {cause : Cause}

/-! ### Lookups that fail -/

/-- What the first step of a lookup that fails can be. -/
theorem enter_cons_error {follow : Location → List String → Except Cause Location} {here : Location}
    {step : String} {rest : List String}
    (h : enter d .existing follow here (step :: rest) = .error cause) :
    (step = "." ∧ enter d .existing follow here rest = .error cause) ∨
    (step = ".." ∧ enter d .existing follow here.dropLast rest = .error cause) ∨
    (IsEntered step ∧
      ((d.get? (here ++ [step]) = none ∧ cause = d.absence here step) ∨
        (∃ e, d.get? (here ++ [step]) = some e ∧ e.isDirectory ∧
          enter d .existing follow (here ++ [step]) rest = .error cause) ∨
        (∃ e, d.get? (here ++ [step]) = some e ∧ e.isLeaf ∧ rest ≠ [] ∧ cause = .notDirectory) ∨
        ∃ target, d.get? (here ++ [step]) = some (.link target) ∧
          follow (linkStart here target) (Path.stepsOf target ++ rest) = .error cause)) := by
  by_cases hdot : step = "."
  · subst hdot
    exact .inl ⟨rfl, by simpa using h⟩
  by_cases hup : step = ".."
  · subst hup
    exact .inr (.inl ⟨rfl, by simpa using h⟩)
  have hs : IsEntered step := ⟨hdot, hup⟩
  refine .inr (.inr ⟨hs, ?_⟩)
  cases he : d.get? (here ++ [step]) with
  | none =>
    rw [enter_missing hs he] at h
    cases h
    exact .inl ⟨rfl, rfl⟩
  | some e =>
    have leaf : e.isLeaf → rest ≠ [] ∧ cause = .notDirectory := by
      intro hleaf
      rw [enter_leaf hs he hleaf] at h
      split at h
      · cases h
      · rename_i hrest
        exact ⟨hrest, (Except.error.inj h).symm⟩
    cases e with
    | file contents => exact .inr (.inr (.inl ⟨_, rfl, rfl, leaf rfl⟩))
    | special => exact .inr (.inr (.inl ⟨_, rfl, rfl, leaf rfl⟩))
    | link target =>
      rw [enter_link hs he] at h
      exact .inr (.inr (.inr ⟨target, rfl, h⟩))
    | directory =>
      rw [enter_directory hs he rfl] at h
      exact .inr (.inl ⟨_, rfl, rfl, h⟩)
    | mount isSealed =>
      rw [enter_directory hs he rfl] at h
      exact .inr (.inl ⟨_, rfl, rfl, h⟩)
    | removed =>
      rw [enter_directory hs he rfl] at h
      exact .inr (.inl ⟨_, rfl, rfl, h⟩)

theorem absence_ne_notDirectory (d : Disk) (here : Location) (step : String) :
    d.absence here step ≠ .notDirectory := by
  unfold absence
  split <;> simp

section Extends

variable {follow follow' : Location → List String → Except Cause Location}

/-- A lookup that fails at a file fails there on a disk that holds more. -/
theorem enter_notDirectory_extends (h : Extends d d')
    (hfollow : ∀ here steps, follow here steps = .error .notDirectory →
      follow' here steps = .error .notDirectory)
    (steps : List String) (here : Location)
    (hl : enter d .existing follow here steps = .error .notDirectory) :
    enter d' .existing follow' here steps = .error .notDirectory := by
  induction steps generalizing here with
  | nil => cases hl
  | cons step rest ih =>
    rcases enter_cons_error hl with ⟨rfl, hl⟩ | ⟨rfl, hl⟩ | ⟨hs, ⟨-, habsence⟩ | ⟨e, he, hdir, hl⟩ |
      ⟨e, he, hleaf, hrest, -⟩ | ⟨target, he, hl⟩⟩
    · rw [enter_dot]
      exact ih _ hl
    · rw [enter_up]
      exact ih _ hl
    · exact absurd habsence.symm (absence_ne_notDirectory _ _ _)
    · rw [enter_directory hs (h _ _ he) hdir]
      exact ih _ hl
    · rw [enter_leaf hs (h _ _ he) hleaf, if_neg hrest]
    · rw [enter_link hs (h _ _ he)]
      exact hfollow _ _ hl

theorem resolve_notDirectory_extends (h : Extends d d') (links : Nat) (here : Location)
    (steps : List String) (hl : resolve d .existing links here steps = .error .notDirectory) :
    resolve d' .existing links here steps = .error .notDirectory := by
  induction links generalizing here steps with
  | zero => exact enter_notDirectory_extends h (by simp) _ _ hl
  | succ links ih => exact enter_notDirectory_extends h ih _ _ hl

end Extends

/-! ### Lookups on the disk with the file -/

theorem Extends.put (h : Extends d d') (k : Location) (e : Entry) :
    Extends (d.put k e) (d'.put k e) := by
  intro l old hold
  rw [get?_put] at hold ⊢
  split
  · rename_i hl
    rwa [if_pos hl] at hold
  · rename_i hl
    rw [if_neg hl] at hold
    exact h l old hold

theorem put_comm {e e' : Entry} (hne : l ≠ k) : (d.put l e).put k e' = (d.put k e').put l e := by
  refine ext fun x => ?_
  rw [get?_put, get?_put, get?_put, get?_put]
  split
  · rename_i hx
    rw [if_neg (hx ▸ hne.symm)]
  · rfl

theorem any_put_file (hfree : d.get? k = none) {f : Entry → Bool} (hf : f (.file bytes) = false)
    (l : Location) : ((d.put k (.file bytes)).get? l).any f = (d.get? l).any f := by
  rw [get?_put]
  split
  · rename_i hl
    rw [hl, hfree, Option.any_some, hf]
    rfl
  · rfl

theorem absence_put_file (hfree : d.get? k = none) (here : Location) (step : String) :
    (d.put k (.file bytes)).absence here step = d.absence here step := by
  rw [absence, absence, any_put_file hfree rfl]

theorem admits_put_file (hfree : d.get? k = none) (here : Location) (step : String) :
    (d.put k (.file bytes)).admits here step = d.admits here step := by
  rw [admits, admits, any_put_file hfree rfl]

/-- The failure of a lookup with a file where nothing was, by the failure without it. -/
def FailsAs {α : Type} (found : Except Cause α) (cause : Cause) : Prop :=
  found = .error cause ∨ cause = .notFound ∧ found = .error .notDirectory

section Steps

variable {follow follow' : Location → List String → Except Cause Location}

/-- A lookup that does not end at the file does not need it. -/
theorem enter_of_put (hl : l ≠ k)
    (hfollow : ∀ here steps, follow' here steps = .ok l → follow here steps = .ok l)
    (steps : List String) (here : Location)
    (h : enter (d.put k (.file bytes)) .existing follow' here steps = .ok l) :
    enter d .existing follow here steps = .ok l := by
  induction steps generalizing here with
  | nil => exact h
  | cons step rest ih =>
    rcases enter_cons_cases h with ⟨rfl, h⟩ | ⟨rfl, h⟩ | ⟨hs, ⟨e, he, hdir, h⟩ |
      ⟨e, he, hleaf, rfl, rfl⟩ | ⟨target, he, h⟩⟩
    · rw [enter_dot]
      exact ih _ h
    · rw [enter_up]
      exact ih _ h
    · rw [get?_put] at he
      split at he
      · cases he
        cases hdir
      · rw [enter_directory hs he hdir]
        exact ih _ h
    · rw [get?_put, if_neg hl] at he
      rw [enter_leaf hs he hleaf, if_pos rfl]
    · rw [get?_put] at he
      split at he
      · cases he
      · rw [enter_link hs he]
        exact hfollow _ _ h

theorem resolve_of_put (hl : l ≠ k) (links : Nat) (here : Location) (steps : List String)
    (h : resolve (d.put k (.file bytes)) .existing links here steps = .ok l) :
    resolve d .existing links here steps = .ok l := by
  induction links generalizing here steps with
  | zero => exact enter_of_put hl (by simp) _ _ h
  | succ links ih => exact enter_of_put hl ih _ _ h

/-- The lookup of a directory that fails without the file fails with it. -/
theorem enter_put_fails (hfree : d.get? k = none)
    (hname : ∀ here step, here ++ [step] = k → IsPlain step)
    (hfollow : ∀ here steps, follow here (steps ++ ["."]) = .error cause →
      FailsAs (follow' here (steps ++ ["."])) cause)
    (steps : List String) (here : Location)
    (h : enter d .existing follow here (steps ++ ["."]) = .error cause) :
    FailsAs (enter (d.put k (.file bytes)) .existing follow' here (steps ++ ["."])) cause := by
  induction steps generalizing here with
  | nil =>
    rw [List.nil_append, enter_dot] at h
    cases h
  | cons step rest ih =>
    rw [List.cons_append] at h ⊢
    rcases enter_cons_error h with ⟨rfl, h⟩ | ⟨rfl, h⟩ | ⟨hs, ⟨hnone, rfl⟩ | ⟨e, he, hdir, h⟩ |
      ⟨e, he, hleaf, hrest, rfl⟩ | ⟨target, he, h⟩⟩
    · rw [enter_dot]
      exact ih _ h
    · rw [enter_up]
      exact ih _ h
    · by_cases hk : here ++ [step] = k
      · have hplaced : (d.put k (.file bytes)).get? (here ++ [step]) = some (.file bytes) := by
          rw [get?_put, if_pos hk]
        exact .inr ⟨Leads.absence_plain d here (hname here step hk),
          (enter_leaf hs hplaced rfl).trans (if_neg (by simp))⟩
      · rw [enter_missing hs (by rw [get?_put, if_neg hk, hnone]), absence_put_file hfree]
        exact .inl rfl
    · rw [enter_directory hs (extends_put hfree _ _ _ he) hdir]
      exact ih _ h
    · exact .inl ((enter_leaf hs (extends_put hfree _ _ _ he) hleaf).trans (if_neg hrest))
    · rw [enter_link hs (extends_put hfree _ _ _ he), ← List.append_assoc]
      rw [← List.append_assoc] at h
      exact hfollow _ _ h

theorem resolve_put_fails (hfree : d.get? k = none)
    (hname : ∀ here step, here ++ [step] = k → IsPlain step) (links : Nat) (here : Location)
    (steps : List String) (h : resolve d .existing links here (steps ++ ["."]) = .error cause) :
    FailsAs (resolve (d.put k (.file bytes)) .existing links here (steps ++ ["."])) cause := by
  induction links generalizing here steps with
  | zero => exact enter_put_fails hfree hname (fun _ _ h => .inl h) _ _ h
  | succ links ih => exact enter_put_fails hfree hname ih _ _ h

end Steps

/-! ### Where a directory stands -/

/-- A lookup that ends at a name passes what holds it. -/
theorem enter_last {follow : Location → List String → Except Cause Location}
    (hfollow : ∀ here steps, follow here (steps ++ [n]) = .ok l →
      ∃ base, follow here (steps ++ ["."]) = .ok base ∧
        (IsEntered n → (d.get? (base ++ [n])).isSome))
    (steps : List String) (here : Location)
    (h : enter d .existing follow here (steps ++ [n]) = .ok l) :
    ∃ base, enter d .existing follow here (steps ++ ["."]) = .ok base ∧
      (IsEntered n → (d.get? (base ++ [n])).isSome) := by
  induction steps generalizing here with
  | nil =>
    refine ⟨here, by rw [List.nil_append, enter_dot]; rfl, fun hn => ?_⟩
    rw [Option.isSome_iff_ne_none]
    intro hnone
    rw [List.nil_append, enter_missing hn hnone] at h
    cases h
  | cons step rest ih =>
    rw [List.cons_append] at h ⊢
    rcases enter_cons_cases h with ⟨rfl, h⟩ | ⟨rfl, h⟩ | ⟨hs, ⟨e, he, hdir, h⟩ |
      ⟨e, he, -, hrest, -⟩ | ⟨target, he, h⟩⟩
    · simpa only [enter_dot] using ih _ h
    · simpa only [enter_up] using ih _ h
    · simpa only [enter_directory hs he hdir] using ih _ h
    · simp at hrest
    · rw [← List.append_assoc] at h
      obtain ⟨base, hbase, hsome⟩ := hfollow _ _ h
      exact ⟨base, by rw [enter_link hs he, ← List.append_assoc, hbase], hsome⟩

theorem resolve_last (links : Nat) (here : Location) (steps : List String)
    (h : resolve d .existing links here (steps ++ [n]) = .ok l) :
    ∃ base, resolve d .existing links here (steps ++ ["."]) = .ok base ∧
      (IsEntered n → (d.get? (base ++ [n])).isSome) := by
  induction links generalizing here steps with
  | zero => exact enter_last (by simp) _ _ h
  | succ links ih => exact enter_last ih _ _ h

/-- A path that leads somewhere ends at a dot, or at a name that is taken. -/
theorem slot_of_locate (h : d.locate cwd p = .ok l) :
    d.slot cwd p = .ok .special ∨ ∃ base n slash, d.slot cwd p = .ok (.named base n slash) ∧
      (d.get? (base ++ [n])).isSome := by
  unfold locate at h
  cases hc : checkPath p with
  | error cause => rw [hc] at h; cases h
  | ok _ =>
    rw [hc] at h
    have hl : resolve d .existing maxLinks (start cwd p) p.names = .ok l := by
      replace h : resolve d .existing maxLinks (start cwd p) (Path.stepsOf p.text) = .ok l := h
      rcases Path.stepsOf_text p with hsteps | hsteps <;> rw [hsteps] at h
      · exact h
      · exact resolve_of_dot _ _ _ h
    rcases List.eq_nil_or_concat p.names with hnames | ⟨names, n, hnames⟩
    · exact .inl (slot_of_no_names d cwd hc hnames)
    · rw [List.concat_eq_append] at hnames
      rw [hnames] at hl
      obtain ⟨base, hbase, hsome⟩ := resolve_last _ _ _ hl
      rw [slot_of_names d cwd hc hnames, hbase]
      by_cases hn : n = "." ∨ n = ".."
      · exact .inl (by simp only [Except.map, if_pos hn])
      · refine .inr ⟨base, n, p.text.toList.getLast? == some '/', ?_, hsome (not_or.1 hn)⟩
        simp only [Except.map, if_neg hn]

/-! ### Making a directory -/

theorem makeDirectory_of_special (h : d.slot cwd p = .ok .special) :
    d.makeDirectory cwd p = .error .alreadyExists := by
  unfold makeDirectory freePlace
  rw [h]
  rfl

theorem makeDirectory_of_error (h : d.slot cwd p = .error cause) :
    d.makeDirectory cwd p = .error cause := by
  unfold makeDirectory freePlace
  rw [h]
  rfl

theorem makeDirectory_of_taken {slash : Bool} (h : d.slot cwd p = .ok (.named l n slash))
    (hsome : (d.get? (l ++ [n])).isSome) : d.makeDirectory cwd p = .error .alreadyExists := by
  unfold makeDirectory freePlace
  rw [h]
  simp only [bind, Except.bind, hsome, if_true]

theorem makeDirectory_of_free {slash : Bool} (h : d.slot cwd p = .ok (.named l n slash))
    (hnone : d.get? (l ++ [n]) = none) :
    d.makeDirectory cwd p =
      if d.admits l n then .ok (d.put (l ++ [n]) .directory) else .error (d.absence l n) := by
  unfold makeDirectory freePlace
  rw [h]
  simp only [bind, Except.bind, hnone, Option.isSome_none, Bool.false_eq_true, if_false]
  cases d.admits l n <;> rfl

/-- No directory is made where one stands. -/
theorem makeDirectory_of_isDirectory (h : d.isDirectory cwd p = true) :
    d.makeDirectory cwd p = .error .alreadyExists := by
  obtain ⟨l, hl, -⟩ := located_of_isDirectory h
  rcases slot_of_locate hl with hspecial | ⟨base, n, slash, hslot, hsome⟩
  · exact makeDirectory_of_special hspecial
  · exact makeDirectory_of_taken hslot hsome

/-! ### The slot of a path -/

/-- What a path ends at is known from the path, or it is found by looking up a directory. -/
theorem slot_by_lookup (cwd : Location) (p : Path) :
    (∃ found, ∀ d : Disk, d.slot cwd p = found) ∨
      ∃ names f, (∀ base l n slash, f base = Slot.named l n slash → l = base) ∧ ∀ d : Disk,
        d.slot cwd p = (resolve d .existing maxLinks (start cwd p) (names ++ ["."])).map f := by
  cases hc : checkPath p with
  | error cause => exact .inl ⟨_, fun d => slot_refused d cwd hc⟩
  | ok _ =>
    rcases List.eq_nil_or_concat p.names with hnames | ⟨names, n, hnames⟩
    · exact .inl ⟨_, fun d => slot_of_no_names d cwd hc hnames⟩
    · rw [List.concat_eq_append] at hnames
      refine .inr ⟨names, _, fun base l n slash h => ?_, fun d => slot_of_names d cwd hc hnames⟩
      split at h
      · cases h
      · cases h
        rfl

theorem slot_extends (h : Extends d d') {found : Slot} (hslot : d.slot cwd p = .ok found) :
    d'.slot cwd p = .ok found := by
  rcases slot_by_lookup cwd p with ⟨known, hknown⟩ | ⟨names, f, -, hslots⟩
  · rw [hknown] at hslot ⊢
    exact hslot
  · rw [hslots] at hslot ⊢
    cases hl : resolve d .existing maxLinks (start cwd p) (names ++ ["."]) with
    | error cause => rw [hl] at hslot; cases hslot
    | ok l => rwa [resolve_extends h _ _ _ _ hl, ← hl]

theorem slot_notDirectory_extends (h : Extends d d')
    (hslot : d.slot cwd p = .error .notDirectory) : d'.slot cwd p = .error .notDirectory := by
  rcases slot_by_lookup cwd p with ⟨known, hknown⟩ | ⟨names, f, -, hslots⟩
  · rw [hknown] at hslot ⊢
    exact hslot
  · rw [hslots] at hslot ⊢
    cases hl : resolve d .existing maxLinks (start cwd p) (names ++ ["."]) with
    | error cause =>
      rw [hl] at hslot
      cases hslot
      rw [resolve_notDirectory_extends h _ _ _ hl]
      rfl
    | ok l => rw [hl] at hslot; cases hslot

theorem slot_of_put {slash : Bool} (hl : l ≠ k)
    (h : (d.put k (.file bytes)).slot cwd p = .ok (.named l n slash)) :
    d.slot cwd p = .ok (.named l n slash) := by
  rcases slot_by_lookup cwd p with ⟨known, hknown⟩ | ⟨names, f, hf, hslots⟩
  · rw [hknown] at h ⊢
    exact h
  · rw [hslots] at h ⊢
    cases hbase : resolve (d.put k (.file bytes)) .existing maxLinks (start cwd p)
        (names ++ ["."]) with
    | error cause => rw [hbase] at h; cases h
    | ok base =>
      rw [hbase] at h
      obtain rfl := hf base l n slash (Except.ok.inj h)
      rwa [resolve_of_put hl _ _ _ hbase]

theorem slot_put_fails (hfree : d.get? k = none)
    (hname : ∀ here step, here ++ [step] = k → IsPlain step) (h : d.slot cwd p = .error cause) :
    FailsAs ((d.put k (.file bytes)).slot cwd p) cause := by
  rcases slot_by_lookup cwd p with ⟨known, hknown⟩ | ⟨names, f, -, hslots⟩
  · rw [hknown] at h ⊢
    exact .inl h
  · rw [hslots] at h ⊢
    cases hl : resolve d .existing maxLinks (start cwd p) (names ++ ["."]) with
    | error cause' =>
      rw [hl] at h
      cases h
      rcases resolve_put_fails hfree hname _ _ _ hl with hsame | ⟨hcause, hfile⟩
      · exact .inl (by rw [hsame]; rfl)
      · exact .inr ⟨hcause, by rw [hfile]; rfl⟩
    | ok l => rw [hl] at h; cases h

/-! ### Making directories beside the file -/

/-- The path ends elsewhere than at `k`. -/
def EndsBeside (d : Disk) (cwd : Location) (p : Path) (k : Location) : Prop :=
  ∃ found, d.slot cwd p = .ok found ∧ ∀ l n slash, found = .named l n slash → l ++ [n] ≠ k

theorem EndsBeside.of_isDirectory (h : d.isDirectory cwd p = true) (hk : d.get? k = none) :
    d.EndsBeside cwd p k := by
  obtain ⟨l, hl, -⟩ := located_of_isDirectory h
  rcases slot_of_locate hl with hslot | ⟨base, n, slash, hslot, hsome⟩
  · exact ⟨_, hslot, by simp⟩
  · refine ⟨_, hslot, fun l' n' slash' heq => ?_⟩
    cases heq
    rintro rfl
    rw [hk] at hsome
    cases hsome

theorem EndsBeside.of_made (h : d.makeDirectory cwd p = .ok d') (hk : d'.get? k = none) :
    d.EndsBeside cwd p k := by
  obtain ⟨l, n, slash, hslot, -, -, -, rfl⟩ := makeDirectory_named h
  refine ⟨_, hslot, fun l' n' slash' heq => ?_⟩
  cases heq
  intro heq
  rw [get?_put, if_pos heq.symm] at hk
  cases hk

section Beside

variable (hfree : d.get? k = none)

include hfree

theorem isDirectory_put_file :
    (d.put k (.file bytes)).isDirectory cwd p = d.isDirectory cwd p := by
  rw [Bool.eq_iff_iff]
  constructor
  · intro h
    obtain ⟨l, hl, hdir⟩ := located_of_isDirectory h
    have hne : l ≠ k := by
      rintro rfl
      rw [get?_put, if_pos rfl] at hdir
      cases hdir
    rw [any_put_file hfree rfl] at hdir
    refine IsLinkless.isDirectory_located ?_ hdir
    unfold locate at hl ⊢
    cases hc : checkPath p with
    | error cause => rw [hc] at hl; cases hl
    | ok _ =>
      rw [hc] at hl
      exact resolve_of_put hne _ _ _ hl
  · intro h
    obtain ⟨l, hl, hdir⟩ := located_of_isDirectory h
    refine IsLinkless.isDirectory_located (locate_extends (extends_put hfree _) hl) ?_
    rw [any_put_file hfree rfl, hdir]

/-- A directory that is made elsewhere is made beside the file. -/
theorem makeDirectory_put_file (h : d.makeDirectory cwd p = .ok d') (hk : d'.get? k = none) :
    (d.put k (.file bytes)).makeDirectory cwd p = .ok (d'.put k (.file bytes)) := by
  obtain ⟨l, n, slash, hslot, hn, hopen, hnone, rfl⟩ := makeDirectory_named h
  have hne : l ++ [n] ≠ k := by
    intro heq
    rw [get?_put, if_pos heq.symm] at hk
    cases hk
  rw [makeDirectory_of_free (slot_extends (extends_put hfree _) hslot)
    (by rw [get?_put, if_neg hne, hnone]), admits_put_file hfree,
    if_pos (admits_of_isOpen hopen hn), put_comm hne]

/-- What is made beside the file is made without it. -/
theorem makeDirectory_of_put_file (h : (d.put k (.file bytes)).makeDirectory cwd p = .ok d') :
    ∃ way, d.makeDirectory cwd p = .ok way ∧ way.get? k = none ∧ d' = way.put k (.file bytes) := by
  obtain ⟨l, n, slash, hslot, hn, hopen, hnone, rfl⟩ := makeDirectory_named h
  have hne : l ++ [n] ≠ k := by
    intro heq
    rw [get?_put, if_pos heq] at hnone
    cases hnone
  have hl : l ≠ k := by
    rintro rfl
    rw [get?_put, if_pos rfl] at hopen
    cases hopen
  rw [any_put_file hfree rfl] at hopen
  rw [get?_put, if_neg hne] at hnone
  refine ⟨d.put (l ++ [n]) .directory, ?_, by rw [get?_put, if_neg hne.symm, hfree],
    (put_comm hne).symm⟩
  rw [makeDirectory_of_free (slot_of_put hl hslot) hnone, if_pos (admits_of_isOpen hopen hn)]

/-- With the file in its place nothing more is missing. -/
theorem makeDirectory_of_put_notFound (hname : ∀ here step, here ++ [step] = k → IsPlain step)
    (h : (d.put k (.file bytes)).makeDirectory cwd p = .error .notFound) :
    d.makeDirectory cwd p = .error .notFound := by
  cases hslot : d.slot cwd p with
  | error cause =>
    rw [makeDirectory_of_error hslot]
    rcases slot_put_fails hfree hname hslot with hsame | ⟨rfl, -⟩
    · rw [makeDirectory_of_error hsame] at h
      exact h
    · rfl
  | ok found =>
    have hslot' : (d.put k (.file bytes)).slot cwd p = .ok found :=
      slot_extends (extends_put hfree _) hslot
    cases found with
    | special =>
      rw [makeDirectory_of_special hslot'] at h
      cases h
    | named l n slash =>
      cases hget : (d.put k (.file bytes)).get? (l ++ [n]) with
      | some e =>
        rw [makeDirectory_of_taken hslot' (by rw [hget]; rfl)] at h
        cases h
      | none =>
        rw [makeDirectory_of_free hslot' hget, admits_put_file hfree, absence_put_file hfree] at h
        rw [get?_put] at hget
        split at hget
        · cases hget
        · rw [makeDirectory_of_free hslot hget]
          split at h
          · cases h
          · rename_i hadmits
            rw [if_neg hadmits, h]

/-- What is missing without the file is missing with it, if the path ends elsewhere once what is
missing is there. -/
theorem makeDirectory_put_notFound (hname : ∀ here step, here ++ [step] = k → IsPlain step)
    {way : Disk} (hextends : Extends d way) (hway : way.get? k = none)
    (hbeside : way.EndsBeside cwd p k) (h : d.makeDirectory cwd p = .error .notFound) :
    (d.put k (.file bytes)).makeDirectory cwd p = .error .notFound := by
  obtain ⟨found, hfound, hne⟩ := hbeside
  cases hslot : d.slot cwd p with
  | error cause =>
    rw [makeDirectory_of_error hslot] at h
    rcases slot_put_fails hfree hname hslot with hsame | ⟨-, hfile⟩
    · rw [makeDirectory_of_error hsame, h]
    · -- The lookup would fail at the file to the end.
      have hfails := slot_notDirectory_extends (hextends.put k (.file bytes)) hfile
      rw [slot_extends (extends_put hway _) hfound] at hfails
      cases hfails
  | ok found' =>
    have hsame := slot_extends hextends hslot
    rw [hfound] at hsame
    cases hsame
    have hslot' : (d.put k (.file bytes)).slot cwd p = .ok found :=
      slot_extends (extends_put hfree _) hslot
    cases found with
    | special =>
      rw [makeDirectory_of_special hslot] at h
      cases h
    | named l n slash =>
      cases hget : d.get? (l ++ [n]) with
      | some e =>
        rw [makeDirectory_of_taken hslot (by rw [hget]; rfl)] at h
        cases h
      | none =>
        rw [makeDirectory_of_free hslot hget] at h
        rw [makeDirectory_of_free hslot' (by rw [get?_put, if_neg (hne l n slash rfl), hget]),
          admits_put_file hfree, absence_put_file hfree]
        split at h
        · cases h
        · rename_i hadmits
          rw [if_neg hadmits, h]

end Beside

namespace Ensures

variable {depth : Nat} (hname : ∀ here step, here ++ [step] = k → IsPlain step)

include hname

/-- What is made of a path without the file is made with it, unless a directory is made in the
file's place. -/
theorem put_file (h : Ensures cwd depth d p d') (hk : d'.get? k = none) :
    Ensures cwd depth (d.put k (.file bytes)) p (d'.put k (.file bytes)) := by
  have stood : ∀ {d : Disk} {p : Path}, d.get? k = none → d.isDirectory cwd p = true →
      (d.put k (.file bytes)).isDirectory cwd p = true := by
    intro d p hfree hdir
    rw [isDirectory_put_file hfree, hdir]
  induction h with
  | working hp => exact .working hp
  | made hp h =>
    have hfree := (makeDirectory_extends h).missing hk
    exact .made hp (makeDirectory_put_file hfree h hk)
  | stands hp h hcause hdir =>
    have hdir' := stood hk hdir
    exact .stands hp (makeDirectory_of_isDirectory hdir') (by simp) hdir'
  | madeBelow hp h hparent hway hmade ih =>
    have hfree := (makeDirectory_extends hmade).missing hk
    exact .madeBelow hp (makeDirectory_put_notFound (hway.extends_disk.missing hfree) hname
      hway.extends_disk hfree (.of_made hmade hk) h) hparent (ih hfree)
      (makeDirectory_put_file hfree hmade hk)
  | standsBelow hp h hparent hway hagain hdir ih =>
    have hdir' := stood hk hdir
    exact .standsBelow hp (makeDirectory_put_notFound (hway.extends_disk.missing hk) hname
      hway.extends_disk hk (.of_isDirectory hdir hk) h) hparent (ih hk)
      (makeDirectory_of_isDirectory hdir') hdir'

/-- What is made of a path with the file is made without it. -/
theorem of_put_file (hfree : d.get? k = none)
    (h : Ensures cwd depth (d.put k (.file bytes)) p d') :
    ∃ way, Ensures cwd depth d p way ∧ way.get? k = none ∧ d' = way.put k (.file bytes) := by
  generalize hstart : d.put k (.file bytes) = start at h
  induction h generalizing d with
  | working hp => exact ⟨d, .working hp, hfree, hstart.symm⟩
  | made hp h =>
    subst hstart
    obtain ⟨way, hway, hnone, rfl⟩ := makeDirectory_of_put_file hfree h
    exact ⟨way, .made hp hway, hnone, rfl⟩
  | stands hp h hcause hdir =>
    subst hstart
    rw [isDirectory_put_file hfree] at hdir
    exact ⟨d, .stands hp (makeDirectory_of_isDirectory hdir) (by simp) hdir, hfree, rfl⟩
  | madeBelow hp h hparent _ hmade ih =>
    subst hstart
    obtain ⟨way, hway, hnone, rfl⟩ := ih hfree rfl
    obtain ⟨d', hd', hnone', rfl⟩ := makeDirectory_of_put_file hnone hmade
    exact ⟨d', .madeBelow hp (makeDirectory_of_put_notFound hfree hname h) hparent hway hd', hnone',
      rfl⟩
  | standsBelow hp h hparent _ hagain hdir ih =>
    subst hstart
    obtain ⟨way, hway, hnone, rfl⟩ := ih hfree rfl
    rw [isDirectory_put_file hnone] at hdir
    exact ⟨way, .standsBelow hp (makeDirectory_of_put_notFound hfree hname h) hparent hway
      (makeDirectory_of_isDirectory hdir) hdir, hnone, rfl⟩

end Ensures

end Disk

end ReplicationQueue
