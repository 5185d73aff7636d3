import ReplicationQueue.Text.Utf8

/-! A disk: what stands at each location, kept in the order of locations. That order compares name
by name, so a directory comes before what it holds and everything below it stands together. Names
are texts, as the calls of the machine give and take them. Two disks with the same entry at every
location are equal. -/

namespace ReplicationQueue

/-- The names from the root down. -/
abbrev Location := List String

/-- A location and all that it lies in, inmost first. -/
def Location.outward : Location → List Location
  | [] => [[]]
  | name :: rest => (outward rest).map (name :: ·) ++ [[]]

inductive Entry where
  | file (contents : Bytes)
  | directory
  /-- A symbolic link; a relative target starts at the directory that holds the link. -/
  | link (target : String)
  /-- A directory where another volume begins; a sealed one takes no new entries. -/
  | mount (sealed : Bool)
  /-- A directory that was removed while it was in use. Nothing is in it or can be put there. -/
  | removed
  /-- A socket, a pipe or a device: it has a name, but no contents. -/
  | special
  deriving DecidableEq, Repr

def Entry.isDirectory : Entry → Bool
  | .directory | .mount _ | .removed => true
  | _ => false

def Entry.isMount : Entry → Bool
  | .mount _ => true
  | _ => false

/-- Whether new entries can be put into it. -/
def Entry.isOpen : Entry → Bool
  | .directory => true
  | .mount sealed => !sealed
  | _ => false

structure Disk where
  entries : List (Location × Entry)
  sorted : entries.Pairwise (·.1 < ·.1)
  deriving DecidableEq

namespace Disk

def blank : Disk :=
  ⟨[([], .directory)], by simp⟩

/-- What `entries` hold at a location. -/
def find? (entries : List (Location × Entry)) (l : Location) : Option Entry :=
  (entries.find? (·.1 = l)).map (·.2)

def get? (d : Disk) (l : Location) : Option Entry :=
  find? d.entries l

/-- Puts an entry in its place, instead of one that is there. -/
def insertEntry (l : Location) (e : Entry) : List (Location × Entry) → List (Location × Entry)
  | [] => [(l, e)]
  | (k, x) :: rest =>
    if l < k then (l, e) :: (k, x) :: rest
    else if l = k then (l, e) :: rest
    else (k, x) :: insertEntry l e rest

theorem mem_insertEntry {l : Location} {e : Entry} {entries : List (Location × Entry)}
    {p : Location × Entry} (h : p ∈ insertEntry l e entries) : p = (l, e) ∨ p ∈ entries := by
  induction entries with
  | nil => simpa [insertEntry] using h
  | cons q rest ih =>
    obtain ⟨k, x⟩ := q
    unfold insertEntry at h
    split at h
    · simpa using h
    · split at h
      · simp only [List.mem_cons] at h ⊢
        rcases h with h | h
        · exact .inl h
        · exact .inr (.inr h)
      · simp only [List.mem_cons] at h ⊢
        rcases h with h | h
        · exact .inr (.inl h)
        · exact (ih h).imp_right .inr

theorem sorted_insertEntry {entries : List (Location × Entry)}
    (h : entries.Pairwise (·.1 < ·.1)) (l : Location) (e : Entry) :
    (insertEntry l e entries).Pairwise (·.1 < ·.1) := by
  induction entries with
  | nil => simp [insertEntry]
  | cons q rest ih =>
    obtain ⟨k, x⟩ := q
    rw [List.pairwise_cons] at h
    unfold insertEntry
    split
    · rename_i hlt
      refine List.pairwise_cons.2 ⟨fun p hp => ?_, List.pairwise_cons.2 h⟩
      rcases List.mem_cons.1 hp with rfl | hp
      · exact hlt
      · exact List.lt_trans hlt (h.1 p hp)
    · split
      · rename_i heq
        subst heq
        exact List.pairwise_cons.2 h
      · rename_i hlt heq
        refine List.pairwise_cons.2 ⟨fun p hp => ?_, ih h.2⟩
        rcases mem_insertEntry hp with rfl | hp
        · rcases Std.lt_trichotomy k l with hkl | hkl | hkl
          · exact hkl
          · exact absurd hkl.symm heq
          · exact absurd hkl hlt
        · exact h.1 p hp

/-- The disk with `e` at `l`, whatever was there. -/
def put (d : Disk) (l : Location) (e : Entry) : Disk :=
  ⟨insertEntry l e d.entries, sorted_insertEntry d.sorted l e⟩

def erase (d : Disk) (l : Location) : Disk :=
  ⟨d.entries.filter (·.1 ≠ l), d.sorted.filter _⟩

/-- The disk with nothing at `l` and below. -/
def eraseTree (d : Disk) (l : Location) : Disk :=
  ⟨d.entries.filter fun p => !l.isPrefixOf p.1, d.sorted.filter _⟩

/-- The entries at `l` and below, with the names from `l` on. -/
def subtree (d : Disk) (l : Location) : List (Location × Entry) :=
  d.entries.filterMap fun p => if l.isPrefixOf p.1 then some (p.1.drop l.length, p.2) else none

/-- Puts all of `entries` in their places below `l`. -/
def graft (d : Disk) (l : Location) (entries : List (Location × Entry)) : Disk :=
  entries.foldl (fun d p => d.put (l ++ p.1) p.2) d

/-- The disk with everything at `source` and below moved to `target`, instead of what is there. -/
def moveTree (d : Disk) (source target : Location) : Disk :=
  ((d.eraseTree source).eraseTree target).graft target (d.subtree source)

def hasChildren (d : Disk) (l : Location) : Bool :=
  d.entries.any fun p => l.isPrefixOf p.1 && p.1 ≠ l

theorem find?_insertEntry (entries : List (Location × Entry)) (l k : Location) (e : Entry)
    (h : entries.Pairwise (·.1 < ·.1)) :
    find? (insertEntry l e entries) k = if k = l then some e else find? entries k := by
  induction entries with
  | nil =>
    by_cases hk : k = l
    · simp [find?, insertEntry, hk]
    · simp [find?, insertEntry, hk, Ne.symm hk]
  | cons q rest ih =>
    obtain ⟨k', x⟩ := q
    rw [List.pairwise_cons] at h
    unfold insertEntry
    split
    · by_cases hk : k = l
      · simp [find?, hk]
      · simp [find?, hk, Ne.symm hk]
    · split
      · rename_i heq
        subst heq
        by_cases hk : k = l
        · simp [find?, hk]
        · simp [find?, hk, Ne.symm hk]
      · rename_i hne
        by_cases hk' : k' = k
        · subst hk'
          simp [find?, Ne.symm hne]
        · have := ih h.2
          simp only [find?, List.find?_cons, hk', decide_false] at this ⊢
          exact this

@[simp] theorem get?_put (d : Disk) (l k : Location) (e : Entry) :
    (d.put l e).get? k = if k = l then some e else d.get? k :=
  find?_insertEntry _ _ _ _ d.sorted

theorem find?_filter (entries : List (Location × Entry)) (p : Location → Bool) (k : Location) :
    find? (entries.filter (p ·.1)) k = if p k then find? entries k else none := by
  induction entries with
  | nil => simp [find?]
  | cons q rest ih =>
    obtain ⟨k', x⟩ := q
    by_cases hk : k' = k
    · subst hk
      by_cases hp : p k'
      · simp [find?, hp]
      · simp only [hp, Bool.false_eq_true, not_false_eq_true, List.filter_cons_of_neg, ih,
          ↓reduceIte]
    · have step : find? ((k', x) :: rest) k = find? rest k := by simp [find?, hk]
      by_cases hp : p k'
      · rw [List.filter_cons_of_pos (by simpa using hp), step, ← ih]
        simp [find?, hk]
      · rw [List.filter_cons_of_neg (by simpa using hp), step, ih]

@[simp] theorem get?_erase (d : Disk) (l k : Location) :
    (d.erase l).get? k = if k = l then none else d.get? k := by
  have := find?_filter d.entries (fun k => decide (k ≠ l)) k
  unfold get? erase
  rw [this]
  by_cases hk : k = l <;> simp [hk]

@[simp] theorem get?_eraseTree (d : Disk) (l k : Location) :
    (d.eraseTree l).get? k = if l.isPrefixOf k then none else d.get? k := by
  have := find?_filter d.entries (fun k => !l.isPrefixOf k) k
  unfold get? eraseTree
  rw [this]
  cases l.isPrefixOf k <;> simp

/-- An entry of a disk is what stands at its location. -/
theorem mem_entries_iff (d : Disk) (l : Location) (e : Entry) :
    (l, e) ∈ d.entries ↔ d.get? l = some e := by
  obtain ⟨entries, sorted⟩ := d
  simp only [get?]
  induction entries with
  | nil => simp [find?]
  | cons q rest ih =>
    obtain ⟨k, x⟩ := q
    rw [List.pairwise_cons] at sorted
    by_cases hk : k = l
    · subst hk
      have absent : ∀ e', (k, e') ∉ rest := fun e' he => List.lt_irrefl k (sorted.1 _ he)
      simp [find?, absent, eq_comm]
    · rw [List.mem_cons, ih sorted.2]
      simp [find?, hk, Ne.symm hk]

/-- Disks are equal when they hold the same at every location. -/
@[ext] theorem ext {d d' : Disk} (h : ∀ l, d.get? l = d'.get? l) : d = d' := by
  have same : ∀ xs ys : List (Location × Entry), xs.Pairwise (·.1 < ·.1) →
      ys.Pairwise (·.1 < ·.1) → (∀ p, p ∈ xs ↔ p ∈ ys) → xs = ys := by
    intro xs
    induction xs with
    | nil =>
      intro ys _ _ hmem
      cases ys with
      | nil => rfl
      | cons y ys => exact absurd ((hmem y).2 (by simp)) (by simp)
    | cons x xs ih =>
      intro ys hx hy hmem
      cases ys with
      | nil => exact absurd ((hmem x).1 (by simp)) (by simp)
      | cons y ys =>
        rw [List.pairwise_cons] at hx hy
        have hxy : x = y := by
          rcases List.mem_cons.1 ((hmem x).1 (by simp)) with h1 | h1
          · exact h1
          · rcases List.mem_cons.1 ((hmem y).2 (by simp)) with h2 | h2
            · exact h2.symm
            · exact absurd (List.lt_trans (hx.1 _ h2) (hy.1 _ h1)) (List.lt_irrefl _)
        subst hxy
        congr 1
        refine ih ys hx.2 hy.2 fun p => ⟨fun hp => ?_, fun hp => ?_⟩
        · rcases List.mem_cons.1 ((hmem p).1 (by simp [hp])) with rfl | h'
          · exact absurd (hx.1 _ hp) (List.lt_irrefl _)
          · exact h'
        · rcases List.mem_cons.1 ((hmem p).2 (by simp [hp])) with rfl | h'
          · exact absurd (hy.1 _ hp) (List.lt_irrefl _)
          · exact h'
  have entries : d.entries = d'.entries := by
    refine same _ _ d.sorted d'.sorted fun p => ?_
    obtain ⟨l, e⟩ := p
    rw [mem_entries_iff, mem_entries_iff, h]
  cases d
  cases d'
  cases entries
  rfl

end Disk

end ReplicationQueue
