import ReplicationQueue.Proofs.Course
import ReplicationQueue.Proofs.Tree

/-! The smallest site: an empty disk whose root is both the events directory and the working
directory. Its events directory has paths of any length, so that there are stores that can write
their records and stores that cannot. -/

namespace ReplicationQueue

theorem isPlain_x : IsPlain "x" :=
  isPlain_of_isVisible (by simp [IsVisible]) (by simp) (by decide) (by decide) (by decide)

namespace Path

/-- `n` steps that stay where they are, and a last one. -/
def dots : Nat → String
  | 0 => "."
  | n + 1 => "./" ++ dots n

/-- The working directory. -/
def here (n : Nat) : Path :=
  ⟨dots n⟩

theorem toList_dots (n : Nat) : (dots (n + 1)).toList = '.' :: '/' :: (dots n).toList := by
  rw [dots, String.toList_append]
  rfl

theorem toList_dots_ne_nil (n : Nat) : (dots n).toList ≠ [] := by
  cases n with
  | zero => simp [dots]
  | succ n => simp [toList_dots]

theorem utf8ByteSize_dots (n : Nat) : (dots n).utf8ByteSize = 2 * n + 1 := by
  induction n with
  | zero => rfl
  | succ n ih =>
    rw [dots, String.utf8ByteSize_append, ih]
    show 2 + _ = _
    omega

theorem null_mem_dots (n : Nat) : '\x00' ∉ (dots n).toList := by
  induction n with
  | zero => decide
  | succ n ih => simp [toList_dots, ih]

theorem getLast?_dots (n : Nat) : (dots n).toList.getLast? = some '.' := by
  induction n with
  | zero => rfl
  | succ n ih =>
    rw [toList_dots, List.getLast?_cons_cons, List.getLast?_cons, ih]
    rfl

theorem segments_dots (n : Nat) : segments (dots n).toList = List.replicate (n + 1) ['.'] := by
  induction n with
  | zero => rfl
  | succ n ih =>
    have happend : (dots (n + 1)).toList = ['.'] ++ '/' :: (dots n).toList := toList_dots n
    rw [happend, segments_append, ih]
    rfl

theorem stepsOf_dots (n : Nat) : stepsOf (dots n) = List.replicate (n + 1) "." := by
  unfold stepsOf
  rw [segments_dots, getLast?_dots]
  simp

theorem names_here (n : Nat) : (here n).names = List.replicate (n + 1) "." := by
  rw [names, here, segments_dots, List.filter_replicate, if_pos (by simp), List.map_replicate]

/-- However often it stays where it is, it never goes back out. -/
theorem up_not_mem_names_here (n : Nat) : ".." ∉ (here n).names := by
  rw [names_here]
  exact fun hmem => absurd (List.eq_of_mem_replicate hmem) (by decide)

end Path

namespace Disk

theorem enter_dots (d : Disk) (need : Need)
    (follow : Location → List String → Except Cause Location) (l : Location) (n : Nat) :
    enter d need follow l (List.replicate n ".") = .ok l := by
  induction n with
  | zero => rfl
  | succ n ih => rwa [List.replicate_succ, enter_dot]

/-- Steps that stay where they are lead to where the lookup starts. -/
theorem locate_here (d : Disk) {n : Nat} (h : 2 * n + 1 ≤ maxPathBytes) :
    d.locate [] (.here n) = .ok [] := by
  have hshort : (Path.here n).isTooLong = false := by
    unfold Path.isTooLong
    rw [Path.here, Path.utf8ByteSize_dots, decide_eq_false_iff_not]
    omega
  have hne : Path.dots n ≠ "" := by simpa using Path.toList_dots_ne_nil n
  have hcheck : checkPath (.here n) = .ok () := by
    unfold checkPath checkNull
    rw [hshort, Path.here, if_neg (Path.null_mem_dots n)]
    simp only [hne, if_false]
    rfl
  have hstart : start [] (.here n) = [] := ite_self []
  have hresolve : d.resolve .existing maxLinks [] (Path.stepsOf (Path.here n).text) = .ok [] := by
    rw [Path.here, Path.stepsOf_dots]
    exact d.enter_dots _ _ _ _
  rw [locate, hcheck, hstart]
  exact hresolve

theorem get?_blank {l : Location} (hl : l ≠ []) : blank.get? l = none := by
  simp [blank, get?, find?, hl.symm]

theorem isTree_blank : Disk.blank.IsTree where
  inside l n e he := by
    rw [get?_blank (by simp)] at he
    cases he
  plain l n e he := by
    rw [get?_blank (by simp)] at he
    cases he

theorem isLinkless_blank : blank.IsLinkless where
  toIsTree := isTree_blank
  linkless l target he := by
    by_cases hl : l = []
    · subst hl
      cases he
    · rw [get?_blank hl] at he
      cases he
  nameless l n he := by
    rw [get?_blank (by simp)] at he
    cases he

end Disk

namespace Site

def blank : Site where
  disk := .blank
  cwd := []
  base := []
  isTree := Disk.isTree_blank
  isHome := rfl
  isOpen := rfl
  isBare := rfl

/-- The layouts of the events directory. -/
def layoutHere (n : Nat) (w : WaitingLayout) : Layout :=
  ⟨.here n, w⟩

variable {n : Nat} {w : WaitingLayout}

theorem opens_here (h : 2 * n + 1 ≤ maxPathBytes) : blank.Opens (layoutHere n w) :=
  Disk.locate_here .blank h

theorem utf8ByteSize_refUpdates_here :
    (layoutHere n w).refUpdates.text.utf8ByteSize = 2 * n + 13 := by
  have hne : Path.dots n ≠ "" := by simpa using Path.toList_dots_ne_nil n
  have hlast : (Path.dots n).toList.getLast? ≠ some '/' := by
    rw [Path.getLast?_dots]
    decide
  have hsize := Path.utf8ByteSize_join (p := .here n) hne hlast isPlain_refUpdates
  rw [Layout.refUpdates, layoutHere, hsize, Path.here, Path.utf8ByteSize_dots]
  show _ + 11 = _
  omega

theorem serves_here (h : 2 * n + 22 ≤ maxPathBytes) : blank.Serves (layoutHere n w) where
  opens := opens_here (by omega)
  fits := by
    unfold Path.isTooLong
    rw [Layout.utf8ByteSize_building, utf8ByteSize_refUpdates_here, decide_eq_false_iff_not]
    omega

theorem isAbsolute_building_here : (layoutHere n w).building.isAbsolute = false := by
  have hne : Path.dots n ≠ "" := by simpa using Path.toList_dots_ne_nil n
  have hhere : (Path.here n).isAbsolute = false := by
    show Path.isAbsoluteText (Path.dots n).toList = false
    cases n with
    | zero => rfl
    | succ n => rw [Path.toList_dots, Path.isAbsoluteText]; simp
  have hroot : (layoutHere n w).refUpdates.isAbsolute = false :=
    (Path.isAbsolute_join hne isPlain_refUpdates).trans hhere
  have hrootne : (layoutHere n w).refUpdates.text ≠ "" :=
    Path.text_join_ne_empty _ isPlain_refUpdates
  exact (Path.isAbsolute_join hrootne (IsState.isPlain (.inl rfl))).trans hroot

theorem writes_here : blank.writes (layoutHere n w) = decide (2 * n + 70 ≤ maxPathBytes) := by
  have hplace : blank.place? (layoutHere n w) = some ⟨"/" ++ (layoutHere n w).building.text⟩ := by
    have hjoin : (Location.path []).join (layoutHere n w).building.text =
        ⟨"/" ++ (layoutHere n w).building.text⟩ := by
      have hrelative := isAbsolute_building_here (n := n) (w := w)
      unfold Path.isAbsolute at hrelative
      unfold Path.join
      rw [hrelative]
      rfl
    unfold place?
    rw [isAbsolute_building_here, ← hjoin]
    rfl
  unfold writes
  rw [hplace, Option.any_some, String.utf8ByteSize_append, Layout.utf8ByteSize_building,
    utf8ByteSize_refUpdates_here]
  show decide (1 + _ + _ ≤ _) = _
  apply decide_eq_decide.2
  omega

end Site

namespace Session

/-- The session that begins on an empty disk. -/
def blank : Session where
  system :=
    { disk := .blank, cwd := [], names := fun n =>
        if n % 2 = 0 then ⟨"000000", by decide, by decide⟩ else ⟨"000001", by decide, by decide⟩
      drawn := 0, log := [] }
  stores := []

theorem isBareIn_blank : Site.blank.IsBareIn blank.system where
  disk := rfl
  cwd := rfl

variable {n : Nat} {w : WaitingLayout}

/-- The session in which one store was opened on the empty disk. -/
def opened (layout : Layout) : Session :=
  (blank.run [.open layout]).2

theorem runs_opened (h : 2 * n + 22 ≤ maxPathBytes) :
    (opened (Site.layoutHere n w)).stores = [⟨Site.layoutHere n w, false⟩] ∧
      Site.blank.Runs (opened (Site.layoutHere n w)) .fresh := by
  obtain ⟨system, hopen, hruns⟩ :=
    (Site.runs_bare isBareIn_blank rfl).step_open (Site.serves_here (w := w) h)
  rw [opened, run, run, hopen]
  exact ⟨rfl, hruns⟩

/-- After an update was queued its key waits, if its record can be written. -/
theorem run_blank_create (h : 2 * n + 22 ≤ maxPathBytes) (u : Update) :
    ∃ s, blank.run [.open (Site.layoutHere n w), .on 0 (.create u)] =
        ([.done, .key (.derive u)], s) ∧
      s.stores = [⟨Site.layoutHere n w, false⟩] ∧
      Site.blank.Runs s (Queue.fresh.create (Site.layoutHere n w)
        (Site.blank.writes (Site.layoutHere n w)) u) := by
  obtain ⟨system, hopen, hruns⟩ :=
    (Site.runs_bare isBareIn_blank rfl).step_open (Site.serves_here (w := w) h)
  rcases hruns.step_on 0 (.create u) with
    ⟨hnone, -⟩ | ⟨store, q', system', hsome, hstep, ha, hruns'⟩
  · cases hnone
  · obtain rfl : _ = store := Option.some.inj hsome
    generalize hreply : ((⟨system, _⟩ : Session).step (.on 0 (.create u))).1 = reply at ha
    cases ha
    refine ⟨_, ?_, rfl, hruns'⟩
    rw [run, hopen, run, run, hreply, hstep]

end Session

/-! ### Stores on the empty disk -/

namespace Session

theorem shares_blank : Site.blank.Shares blank [] .fresh :=
  ⟨Site.runs_bare isBareIn_blank rfl, rfl⟩

theorem writes_blank (w : WaitingLayout) : Site.blank.writes (Site.layoutHere 0 w) = true := by
  rw [Site.writes_here]
  decide

theorem reaches_blank (w : WaitingLayout) (pl : Place) :
    (Site.layoutHere 0 w).reaches pl = true :=
  Site.reaches_of_writes (writes_blank w) pl

theorem opens_blank (w : WaitingLayout) : Site.blank.Opens (Site.layoutHere 0 w) :=
  Site.opens_here (by decide)

theorem serves_blank (w : WaitingLayout) : Site.blank.Serves (Site.layoutHere 0 w) :=
  Site.serves_here (by decide)

end Session

end ReplicationQueue
