import Mathlib.Data.List.Sort
import ReplicationQueue.Disk.Walk
import ReplicationQueue.Proofs.ByteOrder
import ReplicationQueue.Proofs.Site

/-! The order of a walk. A walk puts the names of each directory in order and enters a directory
where its name stands; what it comes upon is in one order for all of it, that of the names from
where it began, compared name by name. So the walk of a tree goes through the locations of the disk
in their order. -/

namespace ReplicationQueue

attribute [local irreducible] Path.isTooLong

namespace Path

/-- The path of what lies below, by its names. -/
def below (p : Path) (names : Location) : Path :=
  names.foldl join p

theorem below_nil (p : Path) : p.below [] = p := rfl

theorem below_cons (p : Path) (n : String) (names : Location) :
    p.below (n :: names) = (p.join n).below names := rfl

theorem below_concat (p : Path) (names : Location) (n : String) :
    p.below (names ++ [n]) = (p.below names).join n := List.foldl_concat ..

theorem below_append (p : Path) (front names : Location) :
    p.below (front ++ names) = (p.below front).below names := List.foldl_append ..

theorem parts_below (p : Path) {names : Location} (h : ∀ n ∈ names, IsPlain n) :
    (p.below names).parts = p.parts ++ names.map .name := by
  induction names generalizing p with
  | nil => exact (List.append_nil _).symm
  | cons n rest ih =>
    obtain ⟨hn, hrest⟩ := List.forall_mem_cons.1 h
    rw [below_cons, ih _ hrest, parts_join p hn, List.append_assoc]
    rfl

theorem isTooLong_join {p : Path} {n : String} (hn : IsPlain n) (h : p.isTooLong) :
    (p.join n).isTooLong := by
  unfold isTooLong at h ⊢
  have hge := p.utf8ByteSize_join_ge hn
  rw [decide_eq_true_eq] at h ⊢
  omega

theorem isTooLong_below {p : Path} {names : Location} (hplain : ∀ n ∈ names, IsPlain n)
    (h : p.isTooLong) : (p.below names).isTooLong := by
  induction names generalizing p with
  | nil => exact h
  | cons n rest ih =>
    obtain ⟨hn, hrest⟩ := List.forall_mem_cons.1 hplain
    exact ih hrest (isTooLong_join hn h)

end Path

namespace Disk

/-- The names of one entry come before those of another, by their bytes. -/
def Precedes {α : Type} (a b : Location × α) : Prop :=
  a.1.map Utf8.encode < b.1.map Utf8.encode

instance {α : Type} : Std.Asymm (Precedes (α := α)) :=
  ⟨fun _ _ => List.lt_asymm⟩

theorem map_encode_lt {a b : Location} (h : a < b) : a.map Utf8.encode < b.map Utf8.encode := by
  induction h with
  | nil => exact .nil
  | rel hlt => exact .rel (Utf8.encode_lt_encode.2 hlt)
  | cons _ ih => exact .cons ih

/-- Below the location, what has something in it is a directory with a name. -/
def IsTreeBelow (d : Disk) (l : Location) : Prop :=
  ∀ names n m e, d.get? (l ++ names ++ [n] ++ [m]) = some e →
    IsPlain n ∧ ∃ x, d.get? (l ++ names ++ [n]) = some x ∧ x.isDirectory ∧ x ≠ .removed

variable {d : Disk} {l : Location} {p : Path} {m n : String} {names : Location} {e : Entry}
  {bytes : Bytes} {depth : Nat}

theorem IsTree.isTreeBelow (hd : d.IsTree) (l : Location) : d.IsTreeBelow l := by
  intro names n m e he
  rcases hd.inside _ _ _ he with hdir | ⟨isSealed, hdir⟩
  · exact ⟨(hd.plain _ _ _ hdir).resolve_right (by simp), _, hdir, rfl, by simp⟩
  · exact ⟨(hd.plain _ _ _ hdir).resolve_right (by simp), _, hdir, rfl, by simp⟩

namespace IsTreeBelow

theorem inward (h : d.IsTreeBelow l) (front : Location) : d.IsTreeBelow (l ++ front) :=
  fun names n m e he => by
    rw [List.append_assoc l] at he ⊢
    exact h (front ++ names) n m e he

theorem of_below (h : d.IsTreeBelow l) (hne : names ≠ [])
    (he : d.get? (l ++ [n] ++ names) = some e) :
    IsPlain n ∧ ∃ x, d.get? (l ++ [n]) = some x ∧ x.isDirectory ∧ x ≠ .removed := by
  induction names using List.reverseRecOn generalizing e with
  | nil => exact absurd rfl hne
  | append_singleton front m ih =>
    rcases List.eq_nil_or_concat front with rfl | ⟨more, k, rfl⟩
    · have hchild := h [] n m e (by simpa using he)
      rwa [List.append_nil] at hchild
    · rw [List.concat_eq_append] at he ih
      obtain ⟨-, x, hx, -⟩ := h.inward [n] more k m e (by simpa using he)
      exact ih (by simp) (by rwa [← List.append_assoc])

theorem isPlain (h : d.IsTreeBelow l) (he : d.get? (l ++ names ++ [m]) = some e) :
    ∀ n ∈ names, IsPlain n := by
  intro n hn
  obtain ⟨front, rest, rfl⟩ := List.append_of_mem hn
  have hbelow : d.get? (l ++ front ++ [n] ++ (rest ++ [m])) = some e := by simpa using he
  exact ((h.inward front).of_below (by simp) hbelow).1

end IsTreeBelow

/-! ### One directory -/

theorem child?_eq_some_iff {x : Location × Entry} :
    child? x = some (n, e) ↔ x = ([n], e) ∧ e ≠ .removed := by
  unfold child?
  split
  · rename_i other
    simp only [reduceCtorEq, Prod.mk.injEq, false_iff]
    rintro ⟨⟨-, rfl⟩, hremoved⟩
    exact hremoved rfl
  · rename_i other y hremoved
    simp only [Option.some.injEq, Prod.mk.injEq, List.cons.injEq, and_true]
    refine ⟨fun ⟨hn, he⟩ => ⟨⟨hn, he⟩, he ▸ hremoved⟩, And.left⟩
  · rename_i hnot
    simp only [reduceCtorEq, false_iff]
    rintro ⟨rfl, -⟩
    exact hnot _ _ rfl

theorem mem_children : (n, e) ∈ d.children l ↔ d.get? (l ++ [n]) = some e ∧ e ≠ .removed := by
  unfold children
  rw [List.mem_filterMap]
  constructor
  · rintro ⟨x, hmem, hx⟩
    obtain ⟨rfl, hremoved⟩ := child?_eq_some_iff.1 hx
    exact ⟨(mem_subtree _ _ _ _).1 hmem, hremoved⟩
  · rintro ⟨he, hremoved⟩
    exact ⟨([n], e), (mem_subtree _ _ _ _).2 he, child?_eq_some_iff.2 ⟨rfl, hremoved⟩⟩

/-- The names of a directory, put in order, are strictly in order. -/
theorem sorted_children (d : Disk) (l : Location) :
    ((d.children l).mergeSort byName).Pairwise fun a b => Utf8.encode a.1 < Utf8.encode b.1 := by
  have hle : ((d.children l).mergeSort byName).Pairwise fun a b => a.1 ≤ b.1 := by
    have byName_iff : ∀ {a b : String × Entry}, byName a b = true ↔ a.1 ≤ b.1 := fun {a b} =>
      decide_eq_true_iff.trans Utf8.encode_le_encode
    refine (List.pairwise_mergeSort (fun a b c hab hbc => ?_) (fun a b => ?_) _).imp byName_iff.1
    · exact byName_iff.2 (le_trans (byName_iff.1 hab) (byName_iff.1 hbc))
    · rw [Bool.or_eq_true, byName_iff, byName_iff]
      exact le_total a.1 b.1
  have hne : ((d.children l).mergeSort byName).Pairwise fun a b => a.1 ≠ b.1 := by
    refine ((List.mergeSort_perm _ _).pairwise_iff fun h => h.symm).2 ?_
    refine (sorted_subtree d l).filterMap _ ?_
    rintro a b hlt ⟨m, x⟩ hx ⟨n, y⟩ hy heq
    obtain ⟨rfl, -⟩ := child?_eq_some_iff.1 hx
    obtain ⟨rfl, -⟩ := child?_eq_some_iff.1 hy
    obtain rfl : m = n := heq
    exact List.lt_irrefl _ hlt
  exact (hle.and hne).imp fun ⟨hle, hne⟩ => Utf8.encode_lt_encode.2 (lt_of_le_of_ne hle hne)

/-! ### All that a walk comes upon -/

/-- A child and what is below it, by the names from its directory on. -/
def branch (n : String) (e : Entry) (below : List (Location × Entry)) : List (Location × Entry) :=
  ([n], e) :: below.map fun x => (n :: x.1, x.2)

/-- What a walk comes upon, by the names from where it begins. -/
def entriesBelow (d : Disk) : Nat → Location → Path → List (Location × Entry)
  | 0, _, _ => []
  | depth + 1, l, p =>
    if p.isTooLong then []
    else ((d.children l).mergeSort byName).flatMap fun (n, e) =>
      branch n e (if e.isDirectory then d.entriesBelow depth (l ++ [n]) (p.join n) else [])

theorem pathsBelow_eq_map (d : Disk) (depth : Nat) (l : Location) (p : Path) :
    d.pathsBelow depth l p = (d.entriesBelow depth l p).map fun x => (p.below x.1, x.2) := by
  induction depth generalizing l p with
  | zero => rfl
  | succ depth ih =>
    rw [pathsBelow, entriesBelow]
    split
    · rfl
    · rw [List.map_flatMap]
      refine List.flatMap_congr fun ⟨n, e⟩ _ => ?_
      dsimp only
      rw [branch, List.map_cons, List.map_map]
      split
      · rw [ih]
        rfl
      · rfl

theorem mem_branch {below : List (Location × Entry)} {x : Entry} :
    (names, x) ∈ branch n e below ↔
      names = [n] ∧ x = e ∨ ∃ rest, names = n :: rest ∧ (rest, x) ∈ below := by
  simp only [branch, List.mem_cons, List.mem_map, Prod.mk.injEq, Prod.exists]
  refine or_congr_right ⟨?_, ?_⟩
  · rintro ⟨rest, y, hmem, rfl, rfl⟩
    exact ⟨rest, rfl, hmem⟩
  · rintro ⟨rest, rfl, hmem⟩
    exact ⟨rest, x, hmem, rfl, rfl⟩

theorem ne_nil_of_mem_entriesBelow {x : Location × Entry} (h : x ∈ d.entriesBelow depth l p) :
    x.1 ≠ [] := by
  obtain ⟨names, e⟩ := x
  cases depth with
  | zero => cases h
  | succ depth =>
    rw [entriesBelow] at h
    split at h
    · cases h
    · obtain ⟨⟨n, y⟩, -, hmem⟩ := List.mem_flatMap.1 h
      rcases mem_branch.1 hmem with ⟨rfl, -⟩ | ⟨rest, rfl, -⟩ <;> simp

/-- A walk comes upon all that is below, as long as the paths of the directories that it is in are
short enough. -/
theorem mem_entriesBelow (h : d.IsTreeBelow l) :
    (names, e) ∈ d.entriesBelow depth l p ↔ names ≠ [] ∧ names.length ≤ depth ∧
      d.get? (l ++ names) = some e ∧ e ≠ .removed ∧ (p.below names.dropLast).isTooLong = false := by
  induction depth generalizing l p names with
  | zero =>
    simp only [entriesBelow, List.not_mem_nil, false_iff, Nat.le_zero, List.length_eq_zero_iff]
    exact fun ⟨hne, hnil, _⟩ => hne hnil
  | succ depth ih =>
    rw [entriesBelow]
    split
    · -- What is below a path that is too long has one that is too long as well.
      rename_i hlong
      simp only [List.not_mem_nil, false_iff]
      rintro ⟨hne, -, he, -, hshort⟩
      obtain ⟨front, m, rfl⟩ := (List.eq_nil_or_concat names).resolve_left hne
      rw [List.concat_eq_append] at he hshort
      rw [List.dropLast_concat, Path.isTooLong_below (h.isPlain (by simpa using he)) hlong] at hshort
      cases hshort
    · rename_i hlong
      rw [List.mem_flatMap]
      constructor
      · rintro ⟨⟨n, x⟩, hchild, hmem⟩
        obtain ⟨hx, hremoved⟩ := mem_children.1 (List.mem_mergeSort.1 hchild)
        rcases mem_branch.1 hmem with ⟨rfl, rfl⟩ | ⟨rest, rfl, hrest⟩
        · exact ⟨by simp, by simp, hx, hremoved, by simpa [Path.below_nil] using hlong⟩
        · split at hrest
          · obtain ⟨hne, hlength, he, hremoved, hshort⟩ := (ih (h.inward [n])).1 hrest
            refine ⟨by simp, by simpa using hlength, by simpa using he, hremoved, ?_⟩
            rwa [List.dropLast_cons_of_ne_nil hne, Path.below_cons]
          · cases hrest
      · rintro ⟨hne, hlength, he, hremoved, hshort⟩
        obtain ⟨n, rest, rfl⟩ := List.exists_cons_of_ne_nil hne
        by_cases hrest : rest = []
        · subst hrest
          exact ⟨(n, e), List.mem_mergeSort.2 (mem_children.2 ⟨he, hremoved⟩),
            mem_branch.2 (.inl ⟨rfl, rfl⟩)⟩
        · rw [List.append_cons] at he
          obtain ⟨-, x, hx, hdir, hkept⟩ := h.of_below hrest he
          refine ⟨(n, x), List.mem_mergeSort.2 (mem_children.2 ⟨hx, hkept⟩),
            mem_branch.2 (.inr ⟨rest, rfl, ?_⟩)⟩
          rw [List.dropLast_cons_of_ne_nil hrest, Path.below_cons] at hshort
          rw [if_pos hdir, ih (h.inward [n])]
          exact ⟨hrest, by simpa using hlength, he, hremoved, hshort⟩

theorem sorted_branch {below : List (Location × Entry)} (hne : ∀ x ∈ below, x.1 ≠ [])
    (h : below.Pairwise Precedes) : (branch n e below).Pairwise Precedes := by
  have first : ∀ x ∈ below, Precedes ([n], e) (n :: x.1, x.2) := by
    intro x hx
    obtain ⟨m, rest, hrest⟩ := List.exists_cons_of_ne_nil (hne x hx)
    rw [Precedes, hrest]
    exact .cons .nil
  refine List.pairwise_cons.2 ⟨List.forall_mem_map.2 first, List.pairwise_map.2 ?_⟩
  exact h.imp .cons

/-- Each directory by itself in the order of its names makes one order of the whole. -/
theorem sorted_entriesBelow (d : Disk) (depth : Nat) (l : Location) (p : Path) :
    (d.entriesBelow depth l p).Pairwise Precedes := by
  induction depth generalizing l p with
  | zero => exact .nil
  | succ depth ih =>
    rw [entriesBelow]
    split
    · exact .nil
    · refine List.pairwise_flatMap.2 ⟨fun ⟨n, e⟩ _ => ?_, ?_⟩
      · refine sorted_branch (fun x hx => ?_) ?_
        · split at hx
          · exact ne_nil_of_mem_entriesBelow hx
          · cases hx
        · split
          · exact ih _ _
          · exact .nil
      · -- Two children are told apart by their first names, and so is all that is below them.
        refine (sorted_children d l).imp fun {a b} hlt => ?_
        rintro ⟨front, x⟩ hx ⟨back, y⟩ hy
        have head : ∀ {c : String × Entry} {names z below}, (names, z) ∈ branch c.1 c.2 below →
            ∃ rest, names = c.1 :: rest := fun hz =>
          (mem_branch.1 hz).elim (fun h => ⟨[], h.1⟩) fun ⟨rest, h, _⟩ => ⟨rest, h⟩
        obtain ⟨rest, rfl⟩ := head hx
        obtain ⟨rest', rfl⟩ := head hy
        exact .rel hlt

/-! ### One order for all directories -/

theorem length_le_depth (h : d.get? l = some e) : l.length ≤ d.depth := by
  rw [← mem_entries_iff] at h
  unfold depth
  generalize d.entries = entries at h
  induction entries with
  | nil => cases h
  | cons x rest ih =>
    rw [List.foldr_cons]
    rcases List.mem_cons.1 h with rfl | h
    · exact le_max_left ..
    · exact (ih h).trans (le_max_right ..)

/-- Whether a walk that begins with a path comes upon an entry, by the names from there on. -/
def IsWalked (p : Path) (x : Location × Entry) : Bool :=
  x.1 ≠ [] ∧ x.2 ≠ .removed ∧ (p.below x.1.dropLast).isTooLong = false

/-- A walk comes upon what is below in the order of the locations. -/
theorem entriesBelow_eq_filter (h : d.IsTreeBelow l) (p : Path) :
    d.entriesBelow d.depth l p = (d.subtree l).filter (IsWalked p) := by
  have hsorted : ((d.subtree l).filter (IsWalked p)).Pairwise Precedes :=
    (sorted_subtree d l).filter _ |>.imp map_encode_lt
  refine (sorted_entriesBelow d d.depth l p).eq_of_mem_iff hsorted fun ⟨names, e⟩ => ?_
  rw [mem_entriesBelow h, List.mem_filter, mem_subtree, IsWalked, decide_eq_true_iff]
  constructor
  · rintro ⟨hne, -, he, hremoved, hshort⟩
    exact ⟨he, hne, hremoved, hshort⟩
  · rintro ⟨he, hne, hremoved, hshort⟩
    have hlength := length_le_depth he
    rw [List.length_append] at hlength
    exact ⟨hne, by omega, he, hremoved, hshort⟩

/-- The paths that a walk comes upon, in the order of the locations. -/
theorem pathsBelow_eq (h : d.IsTreeBelow l) (p : Path) : d.pathsBelow d.depth l p =
    ((d.subtree l).filter (IsWalked p)).map fun x => (p.below x.1, x.2) := by
  rw [pathsBelow_eq_map, entriesBelow_eq_filter h]

/-! ### Files -/

/-- The path of what a walk came upon, if that is a file. -/
def filePath? : Path × Entry → Option Path
  | (path, .file _) => some path
  | _ => none

/-- The file that a walk comes upon, by the path of the directory that it begins in. -/
def walkedFile? (p : Path) : Location × Entry → Option (Location × Bytes)
  | (names, .file bytes) =>
    if names = [] ∨ (p.below names.dropLast).isTooLong then none else some (names, bytes)
  | _ => none

theorem walkedFile?_eq_some_iff {e : Entry} {file : Location × Bytes} :
    walkedFile? p (names, e) = some file ↔
      names ≠ [] ∧ (p.below names.dropLast).isTooLong = false ∧ e = .file file.2 ∧
        names = file.1 := by
  obtain ⟨other, bytes⟩ := file
  cases e with
  | file contents =>
    rw [walkedFile?]
    split
    · rename_i hnot
      simp only [reduceCtorEq, false_iff]
      rintro ⟨hne, hshort, -⟩
      exact hnot.elim hne (by simp [hshort])
    · rename_i hnot
      rw [not_or, Bool.not_eq_true] at hnot
      simp [hnot, and_comm]
  | _ => simp [walkedFile?]

theorem walkedFile?_nil (p : Path) (e : Entry) : walkedFile? p ([], e) = none := by
  cases e <;> simp [walkedFile?]

/-- The files below a location that a walk comes upon by a path that leads there. -/
def walkedBelow (d : Disk) (l : Location) (p : Path) : List (Location × Bytes) :=
  (d.subtree l).filterMap (walkedFile? p)

/-- The paths of the files that a walk comes upon. -/
theorem pathsBelow_files (h : d.IsTreeBelow l) (p : Path) :
    (d.pathsBelow d.depth l p).filterMap filePath? =
      (d.walkedBelow l p).map fun file => p.below file.1 := by
  rw [pathsBelow_eq h, walkedBelow, List.filterMap_map, List.filterMap_filter, List.map_filterMap]
  refine List.filterMap_congr fun ⟨names, e⟩ _ => ?_
  cases e with
  | file bytes =>
    rw [walkedFile?]
    by_cases hout : names = [] ∨ (p.below names.dropLast).isTooLong
    · rw [if_pos hout, if_neg (by simpa [IsWalked, or_iff_not_imp_left] using hout)]
      rfl
    · rw [if_neg hout, if_pos (by simpa [IsWalked] using hout)]
      rfl
  | _ => simp [walkedFile?, filePath?]

theorem files_walkFrom (h : d.IsTreeBelow l) (hdir : (d.get? l).any Entry.isDirectory) :
    (d.walkFrom l p).files = (d.walkedBelow l p).map fun file => p.below file.1 := by
  rw [← pathsBelow_files h, walkFrom, if_pos hdir]
  rfl

/-- What a walk does not enter has a path that is too long. -/
theorem closed_walkFrom {path : Path} {cause : Cause}
    (h : (path, cause) ∈ (d.walkFrom l p).closed) : path.isTooLong ∧ cause = .nameTooLong := by
  rw [walkFrom] at h
  split at h
  · obtain ⟨⟨path', x⟩, -, hlong⟩ := List.mem_filterMap.1 h
    obtain ⟨hboth, heq⟩ := Option.ite_none_right_eq_some.1 hlong
    cases heq
    exact ⟨(Bool.and_eq_true_iff.1 hboth).2, rfl⟩
  · cases h

end Disk

end ReplicationQueue
