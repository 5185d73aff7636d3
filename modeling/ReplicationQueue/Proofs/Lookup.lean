import ReplicationQueue.Disk.Change
import ReplicationQueue.Proofs.Path

/-! Where paths lead. A path that leads to a directory still does when more is on the disk, and
what is looked up below it is found by names alone: each lookup below is told by what stands at the
location that the names spell. -/

namespace ReplicationQueue

/-- Whether a lookup ends there: at a file, or at a socket, a pipe or a device. -/
def Entry.isLeaf : Entry → Bool
  | .file _ | .special => true
  | _ => false

theorem Entry.isDirectory_of_isLeaf {e : Entry} (h : e.isLeaf) : e.isDirectory = false := by
  cases e <;> first | rfl | cases h

namespace Disk

/-- The second disk holds all that the first holds. -/
def Extends (d d' : Disk) : Prop :=
  ∀ l e, d.get? l = some e → d'.get? l = some e

/-- A name that is entered, not passed over. -/
def IsEntered (step : String) : Prop :=
  step ≠ "." ∧ step ≠ ".."

section Steps

variable {d : Disk} {need : Need} {follow : Location → List String → Except Cause Location}
  {here l : Location} {step : String} {rest : List String}

@[simp] theorem enter_dot :
    enter d need follow here ("." :: rest) = enter d need follow here rest := by
  simp [enter]

@[simp] theorem enter_up :
    enter d need follow here (".." :: rest) = enter d need follow here.dropLast rest := by
  simp [enter]

theorem enter_directory (hs : IsEntered step) {e : Entry} (he : d.get? (here ++ [step]) = some e)
    (hd : e.isDirectory) :
    enter d need follow here (step :: rest) = enter d need follow (here ++ [step]) rest := by
  rw [enter, if_neg hs.1, if_neg hs.2, he]
  cases e <;> simp_all [Entry.isDirectory]

theorem enter_leaf (hs : IsEntered step) {e : Entry} (he : d.get? (here ++ [step]) = some e)
    (hleaf : e.isLeaf) :
    enter d need follow here (step :: rest) =
      if rest = [] then .ok (here ++ [step]) else .error .notDirectory := by
  rw [enter, if_neg hs.1, if_neg hs.2, he]
  cases e <;> simp_all [Entry.isLeaf]

theorem enter_link (hs : IsEntered step) {target : String}
    (he : d.get? (here ++ [step]) = some (.link target)) :
    enter d need follow here (step :: rest) =
      follow (linkStart here target) (Path.stepsOf target ++ rest) := by
  rw [enter, if_neg hs.1, if_neg hs.2, he]

theorem enter_missing (hs : IsEntered step) (he : d.get? (here ++ [step]) = none) :
    enter d .existing follow here (step :: rest) = .error (d.absence here step) := by
  rw [enter, if_neg hs.1, if_neg hs.2, he]
  simp

/-- What the first step of a lookup that succeeds can be. -/
theorem enter_cons_cases (h : enter d .existing follow here (step :: rest) = .ok l) :
    (step = "." ∧ enter d .existing follow here rest = .ok l) ∨
    (step = ".." ∧ enter d .existing follow here.dropLast rest = .ok l) ∨
    (IsEntered step ∧
      ((∃ e, d.get? (here ++ [step]) = some e ∧ e.isDirectory ∧
          enter d .existing follow (here ++ [step]) rest = .ok l) ∨
        (∃ e, d.get? (here ++ [step]) = some e ∧ e.isLeaf ∧ rest = [] ∧ l = here ++ [step]) ∨
        ∃ target, d.get? (here ++ [step]) = some (.link target) ∧
          follow (linkStart here target) (Path.stepsOf target ++ rest) = .ok l)) := by
  by_cases hdot : step = "."
  · subst hdot
    exact .inl ⟨rfl, by simpa using h⟩
  by_cases hup : step = ".."
  · subst hup
    exact .inr (.inl ⟨rfl, by simpa using h⟩)
  have hs : IsEntered step := ⟨hdot, hup⟩
  refine .inr (.inr ⟨hs, ?_⟩)
  cases he : d.get? (here ++ [step]) with
  | none =>
    rw [enter_missing hs he] at h
    cases h
  | some e =>
    have leaf : e.isLeaf → rest = [] ∧ l = here ++ [step] := by
      intro hleaf
      rw [enter_leaf hs he hleaf] at h
      split at h
      · rename_i hrest
        exact ⟨hrest, (Except.ok.inj h).symm⟩
      · cases h
    cases e with
    | file contents => exact .inr (.inl ⟨_, rfl, rfl, leaf rfl⟩)
    | special => exact .inr (.inl ⟨_, rfl, rfl, leaf rfl⟩)
    | link target =>
      rw [enter_link hs he] at h
      exact .inr (.inr ⟨target, rfl, h⟩)
    | directory =>
      rw [enter_directory hs he rfl] at h
      exact .inl ⟨_, rfl, rfl, h⟩
    | mount isSealed =>
      rw [enter_directory hs he rfl] at h
      exact .inl ⟨_, rfl, rfl, h⟩
    | removed =>
      rw [enter_directory hs he rfl] at h
      exact .inl ⟨_, rfl, rfl, h⟩

end Steps

section Growth

variable {d d' : Disk} {follow follow' : Location → List String → Except Cause Location}

/-- A lookup that succeeds meets only what is there, so it succeeds on a disk that holds more. -/
theorem enter_extends (h : Extends d d')
    (hfollow : ∀ here steps l, follow here steps = .ok l → follow' here steps = .ok l)
    (steps : List String) (here l : Location) (hl : enter d .existing follow here steps = .ok l) :
    enter d' .existing follow' here steps = .ok l := by
  induction steps generalizing here with
  | nil => exact hl
  | cons step rest ih =>
    rcases enter_cons_cases hl with ⟨rfl, hl⟩ | ⟨rfl, hl⟩ | ⟨hs, ⟨e, he, hd, hl⟩ |
      ⟨e, he, hleaf, rfl, rfl⟩ | ⟨target, he, hl⟩⟩
    · rw [enter_dot]
      exact ih _ hl
    · rw [enter_up]
      exact ih _ hl
    · rw [enter_directory hs (h _ _ he) hd]
      exact ih _ hl
    · rw [enter_leaf hs (h _ _ he) hleaf, if_pos rfl]
    · rw [enter_link hs (h _ _ he)]
      exact hfollow _ _ _ hl

theorem resolve_extends (h : Extends d d') (links : Nat) (here : Location) (steps : List String)
    (l : Location) (hl : resolve d .existing links here steps = .ok l) :
    resolve d' .existing links here steps = .ok l := by
  induction links generalizing here steps l with
  | zero => exact enter_extends h (by simp) _ _ _ hl
  | succ links ih => exact enter_extends h ih _ _ _ hl

theorem locate_extends (h : Extends d d') {cwd l : Location} {p : Path}
    (hl : d.locate cwd p = .ok l) : d'.locate cwd p = .ok l := by
  unfold locate at hl ⊢
  cases hc : checkPath p with
  | error cause => rw [hc] at hl; cases hl
  | ok _ =>
    rw [hc] at hl
    exact resolve_extends h _ _ _ _ hl

end Growth

section Continuation

variable {d : Disk} {l : Location} {more : List String} {r : Except Cause Location}

/-- From a directory that a lookup reaches, the lookup goes on with the steps that are left. -/
theorem enter_append {follow : Location → List String → Except Cause Location}
    (hdir : (d.get? l).any Entry.isDirectory) (hr : ∀ follow, enter d .existing follow l more = r)
    (hfollow : ∀ here steps, follow here steps = .ok l → follow here (steps ++ more) = r)
    (steps : List String) (here : Location) (hl : enter d .existing follow here steps = .ok l) :
    enter d .existing follow here (steps ++ more) = r := by
  induction steps generalizing here with
  | nil =>
    cases hl
    exact hr follow
  | cons step rest ih =>
    rw [List.cons_append]
    rcases enter_cons_cases hl with ⟨rfl, hl⟩ | ⟨rfl, hl⟩ | ⟨hs, ⟨e, he, hd, hl⟩ |
      ⟨e, he, hleaf, rfl, rfl⟩ | ⟨target, he, hl⟩⟩
    · rw [enter_dot]
      exact ih _ hl
    · rw [enter_up]
      exact ih _ hl
    · rw [enter_directory hs he hd]
      exact ih _ hl
    · simp [he, Entry.isDirectory_of_isLeaf hleaf] at hdir
    · rw [enter_link hs he, ← List.append_assoc]
      exact hfollow _ _ hl

theorem resolve_append (hdir : (d.get? l).any Entry.isDirectory)
    (hr : ∀ follow, enter d .existing follow l more = r) (links : Nat) (here : Location)
    (steps : List String) (hl : resolve d .existing links here steps = .ok l) :
    resolve d .existing links here (steps ++ more) = r := by
  induction links generalizing here steps with
  | zero => exact enter_append hdir hr (by simp) _ _ hl
  | succ links ih => exact enter_append hdir hr ih _ _ hl

/-- A dot at the end only asks for a directory. -/
theorem enter_of_dot {follow : Location → List String → Except Cause Location}
    (hfollow : ∀ here steps, follow here (steps ++ ["."]) = .ok l → follow here steps = .ok l)
    (steps : List String) (here : Location)
    (hl : enter d .existing follow here (steps ++ ["."]) = .ok l) :
    enter d .existing follow here steps = .ok l := by
  induction steps generalizing here with
  | nil => simpa using hl
  | cons step rest ih =>
    rw [List.cons_append] at hl
    rcases enter_cons_cases hl with ⟨rfl, hl⟩ | ⟨rfl, hl⟩ | ⟨hs, ⟨e, he, hd, hl⟩ |
      ⟨e, he, -, hrest, rfl⟩ | ⟨target, he, hl⟩⟩
    · rw [enter_dot]
      exact ih _ hl
    · rw [enter_up]
      exact ih _ hl
    · rw [enter_directory hs he hd]
      exact ih _ hl
    · simp at hrest
    · rw [enter_link hs he]
      rw [← List.append_assoc] at hl
      exact hfollow _ _ hl

theorem resolve_of_dot (links : Nat) (here : Location) (steps : List String)
    (hl : resolve d .existing links here (steps ++ ["."]) = .ok l) :
    resolve d .existing links here steps = .ok l := by
  induction links generalizing here steps with
  | zero => exact enter_of_dot (by simp) _ _ hl
  | succ links ih => exact enter_of_dot ih _ _ hl

end Continuation

/-- The path leads to the location: a lookup of more names goes on from there. -/
structure Leads (d : Disk) (cwd : Location) (p : Path) (l : Location) : Prop where
  ne_empty : p.text ≠ ""
  noNull : '\x00' ∉ p.text.toList
  onward : ∀ more r, (∀ follow, enter d .existing follow l more = r) →
    resolve d .existing maxLinks (start cwd p) (p.names ++ more) = r

/-- A path whose lookup ends at a directory leads there. -/
theorem leads_of_locate {d : Disk} {cwd l : Location} {p : Path} (h : d.locate cwd p = .ok l)
    (hdir : (d.get? l).any Entry.isDirectory) : d.Leads cwd p l := by
  unfold locate checkPath checkNull at h
  by_cases hnull : '\x00' ∈ p.text.toList
  · rw [if_pos hnull] at h
    cases h
  rw [if_neg hnull] at h
  by_cases hlong : p.isTooLong
  · rw [if_pos hlong] at h
    cases h
  rw [if_neg hlong] at h
  by_cases hempty : p.text = ""
  · rw [if_pos hempty] at h
    cases h
  rw [if_neg hempty] at h
  have hsteps : resolve d .existing maxLinks (start cwd p) p.names = .ok l := by
    replace h : resolve d .existing maxLinks (start cwd p) (Path.stepsOf p.text) = .ok l := h
    rcases Path.stepsOf_text p with hs | hs
    · rwa [hs] at h
    · rw [hs] at h
      exact resolve_of_dot _ _ _ h
  exact ⟨hempty, hnull, fun more r hr => resolve_append hdir hr _ _ _ hsteps⟩

namespace Leads

variable {d : Disk} {cwd l : Location} {p : Path} {m n : String}

theorem checkPath_join (h : d.Leads cwd p l) (hn : IsPlain n) :
    checkPath (p.join n) =
      if (p.join n).isTooLong then .error .nameTooLong else .ok () := by
  unfold checkPath checkNull
  rw [if_neg (Path.null_mem_join hn h.noNull)]
  simp only [Path.text_join_ne_empty p hn, ↓reduceIte]
  rfl

theorem start_join (h : d.Leads cwd p l) (hn : IsPlain n) :
    start cwd (p.join n) = start cwd p := by
  simp [start, Path.isAbsolute_join h.ne_empty hn]

theorem start_join_join (h : d.Leads cwd p l) (hm : IsPlain m) (hn : IsPlain n) :
    start cwd ((p.join m).join n) = start cwd p := by
  simp [start, Path.isAbsolute_join (Path.text_join_ne_empty p hm) hn,
    Path.isAbsolute_join h.ne_empty hm]

theorem isEntered (hn : IsPlain n) : IsEntered n := ⟨hn.ne_dot, hn.ne_up⟩

theorem absence_plain (d : Disk) (l : Location) (hn : IsPlain n) : d.absence l n = .notFound := by
  simp [absence, Nat.not_lt.2 hn.short]

theorem onward_missing (h : d.Leads cwd p l) (hm : IsPlain m) (he : d.get? (l ++ [m]) = none)
    (more : List String) :
    resolve d .existing maxLinks (start cwd p) (p.names ++ m :: more) = .error .notFound := by
  refine h.onward _ _ fun follow => ?_
  rw [enter_missing (isEntered hm) he, absence_plain d l hm]

theorem join (h : d.Leads cwd p l) (hn : IsPlain n) {e : Entry} (he : d.get? (l ++ [n]) = some e)
    (hd : e.isDirectory) : d.Leads cwd (p.join n) (l ++ [n]) where
  ne_empty := Path.text_join_ne_empty p hn
  noNull := Path.null_mem_join hn h.noNull
  onward more r hr := by
    rw [h.start_join hn, Path.names_join p hn, List.append_assoc]
    refine h.onward _ _ fun follow => ?_
    rw [List.singleton_append, enter_directory (isEntered hn) he hd]
    exact hr follow

theorem slot_join (h : d.Leads cwd p l) (hn : IsPlain n) :
    d.slot cwd (p.join n) =
      if (p.join n).isTooLong then .error .nameTooLong else .ok (.named l n false) := by
  have hnames : ((Path.segments (p.join n).text.toList).filter (· ≠ [])).map String.ofList =
      p.names ++ [n] := Path.names_join p hn
  have hlookup : resolve d .existing maxLinks (start cwd p) (p.names ++ ["."]) = .ok l :=
    h.onward _ _ fun follow => by simp [enter]
  have hslash : ((p.join n).text.toList.getLast? == some '/') = false := by
    simpa using Path.getLast?_join p hn
  unfold slot
  rw [h.checkPath_join hn]
  split
  · rfl
  · simp only [hnames, List.getLast?_append, List.getLast?_singleton, Option.some_or,
      List.dropLast_concat, h.start_join hn, hlookup, hn.ne_dot, hn.ne_up, or_self, hslash]
    rfl

theorem slot_join_join (h : d.Leads cwd p l) (hm : IsPlain m) (hn : IsPlain n)
    (he : d.get? (l ++ [m]) = none) :
    d.slot cwd ((p.join m).join n) =
      if ((p.join m).join n).isTooLong then .error .nameTooLong else .error .notFound := by
  have hnames : ((Path.segments ((p.join m).join n).text.toList).filter (· ≠ [])).map
      String.ofList = p.names ++ [m] ++ [n] := by
    rw [← Path.names_join p hm]
    exact Path.names_join _ hn
  have hlookup : resolve d .existing maxLinks (start cwd p) (p.names ++ [m] ++ ["."]) =
      .error .notFound := by
    rw [List.append_assoc]
    exact h.onward_missing hm he _
  unfold slot checkPath checkNull
  rw [if_neg (Path.null_mem_join hn (Path.null_mem_join hm h.noNull))]
  simp only [Path.text_join_ne_empty _ hn, ↓reduceIte]
  by_cases hlong : ((p.join m).join n).isTooLong
  · simp only [hlong, ↓reduceIte]
    rfl
  · simp only [hlong, Bool.false_eq_true, ↓reduceIte, hnames, List.getLast?_append,
      List.getLast?_singleton, Option.some_or, List.dropLast_concat,
      h.start_join_join hm hn, hlookup]
    rfl

theorem locate_join (h : d.Leads cwd p l) (hn : IsPlain n) {e : Entry}
    (he : d.get? (l ++ [n]) = some e) (hlink : ∀ target, e ≠ .link target) :
    d.locate cwd (p.join n) =
      if (p.join n).isTooLong then .error .nameTooLong else .ok (l ++ [n]) := by
  have hlookup : resolve d .existing maxLinks (start cwd p) (p.names ++ [n]) =
      .ok (l ++ [n]) := by
    refine h.onward _ _ fun follow => ?_
    cases e with
    | file contents => exact enter_leaf (isEntered hn) he rfl
    | special => exact enter_leaf (isEntered hn) he rfl
    | link target => exact absurd rfl (hlink target)
    | directory => exact enter_directory (isEntered hn) he rfl
    | mount isSealed => exact enter_directory (isEntered hn) he rfl
    | removed => exact enter_directory (isEntered hn) he rfl
  unfold locate
  rw [h.checkPath_join hn]
  split
  · rfl
  · rw [Path.stepsOf_join p hn, h.start_join hn]
    exact hlookup

/-- What a name below stands for. -/
theorem status_join (h : d.Leads cwd p l) (hn : IsPlain n)
    (hlink : ∀ target, d.get? (l ++ [n]) ≠ some (.link target)) :
    d.status cwd (p.join n) =
      if (p.join n).isTooLong then .error .nameTooLong
      else
        match d.get? (l ++ [n]) with
        | some e => .ok e
        | none => .error .notFound := by
  unfold status
  cases he : d.get? (l ++ [n]) with
  | some e =>
    rw [h.locate_join hn he fun target ht => hlink target (ht ▸ he)]
    split
    · rfl
    · show (match d.get? (l ++ [n]) with | some e => _ | none => _) = _
      rw [he]
      rfl
  | none =>
    unfold locate
    rw [h.checkPath_join hn]
    split
    · rfl
    · rw [Path.stepsOf_join p hn, h.start_join hn, show Except.ok () = pure () from rfl, pure_bind,
        h.onward_missing hn he]
      rfl

theorem exists?_join_join (h : d.Leads cwd p l) (hm : IsPlain m) (hn : IsPlain n)
    (he : d.get? (l ++ [m]) = none) :
    d.exists? cwd ((p.join m).join n) = false := by
  unfold exists? status locate
  cases hc : checkPath ((p.join m).join n) with
  | error cause => rfl
  | ok _ =>
    rw [Path.stepsOf_join _ hn, Path.names_join p hm, List.append_assoc, h.start_join_join hm hn,
      show Except.ok () = pure () from rfl, pure_bind, List.singleton_append,
      h.onward_missing hm he]
    rfl

end Leads

/-! ### Absolute paths -/

/-- Every name of a location is that of a directory, entered from the one before. -/
structure Straight (d : Disk) (l : Location) : Prop where
  plain : ∀ n ∈ l, IsPlain n
  directory : ∀ k n rest, l = k ++ n :: rest → (d.get? (k ++ [n])).any Entry.isDirectory

theorem Straight.extends {d d' : Disk} {l : Location} (h : d.Straight l) (he : Extends d d') :
    d'.Straight l where
  plain := h.plain
  directory k n rest hl := by
    have hd := h.directory k n rest hl
    cases hget : d.get? (k ++ [n]) with
    | none => simp [hget] at hd
    | some e =>
      rw [he _ _ hget]
      rwa [hget] at hd

theorem enter_straight {d : Disk} {need : Need}
    {follow : Location → List String → Except Cause Location} {l : Location} (h : d.Straight l)
    (k rest more : Location) (hl : l = k ++ rest) :
    enter d need follow k (rest ++ more) = enter d need follow l more := by
  induction rest generalizing k with
  | nil => rw [hl, List.append_nil, List.nil_append]
  | cons n rest ih =>
    have hn := h.plain n (by simp [hl])
    have hd := h.directory k n rest hl
    cases hget : d.get? (k ++ [n]) with
    | none => simp [hget] at hd
    | some e =>
      rw [hget] at hd
      rw [List.cons_append, enter_directory ⟨hn.ne_dot, hn.ne_up⟩ hget hd]
      exact ih _ (by simp [hl])

theorem resolve_straight {d : Disk} {need : Need} {l : Location} (h : d.Straight l) (links : Nat)
    (more : List String) : resolve d need links [] (l ++ more) = resolve d need links l more := by
  cases links with
  | zero => exact enter_straight h [] l more rfl
  | succ links => exact enter_straight h [] l more rfl

/-- A relative path leads where its absolute form does. -/
theorem Leads.absolute {d : Disk} {cwd l : Location} {p : Path} (h : d.Leads cwd p l)
    (hcwd : d.Straight cwd) (hp : p.isAbsolute = false) :
    d.Leads cwd (cwd.path.join p.text) l where
  ne_empty := by
    intro hempty
    have htext := cwd.path.toList_join_of_relative hp
    rw [hempty] at htext
    simp only [String.toList_empty, List.nil_eq, List.append_eq_nil_iff] at htext
    exact h.ne_empty (by simpa using htext.2)
  noNull := by
    rw [cwd.path.toList_join_of_relative hp, List.mem_append, not_or]
    refine ⟨?_, h.noNull⟩
    have hpath := Path.null_mem_path hcwd.plain
    unfold Path.lead
    split
    · exact hpath
    · simpa using hpath
  onward more r hr := by
    have habsolute : (cwd.path.join p.text).isAbsolute = true := by
      rw [Path.isAbsolute_join_of_relative (Path.text_path_ne_empty cwd) hp, Path.isAbsolute_path]
    have honward := h.onward more r hr
    rw [start, if_neg (by simp [hp])] at honward
    rw [start, if_pos habsolute, Path.names_join_of_relative _ hp, Path.names_path hcwd.plain,
      List.append_assoc, resolve_straight hcwd]
    exact honward

end Disk

end ReplicationQueue
