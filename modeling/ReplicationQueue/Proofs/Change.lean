import ReplicationQueue.Proofs.Lookup

/-! What each call does to a disk when its path is a plain name below a directory that the front of
the path leads to. A call that is refused leaves the disk as it is, and one that is not changes
what stands at the names it is given. -/

namespace ReplicationQueue.Disk

/-- What takes new entries is a directory, or one where another volume begins. -/
theorem directory_of_isOpen {d : Disk} {l : Location} (h : (d.get? l).any Entry.isOpen) :
    d.get? l = some .directory ∨ ∃ isSealed, d.get? l = some (.mount isSealed) := by
  obtain ⟨e, he, hopen⟩ := (Option.any_eq_true ..).1 h
  cases e with
  | directory => exact .inl he
  | mount isSealed => exact .inr ⟨isSealed, he⟩
  | file _ => cases hopen
  | link _ => cases hopen
  | removed => cases hopen
  | special => cases hopen

theorem admits_of_isOpen {d : Disk} {l : Location} {n : String}
    (hopen : (d.get? l).any Entry.isOpen) (hn : IsPlain n) : d.admits l n = true := by
  rw [admits, hopen, Bool.true_and, decide_eq_true hn.short]

namespace Leads

variable {d : Disk} {cwd l : Location} {p : Path} {m n : String}

theorem exists?_join (h : d.Leads cwd p l) (hn : IsPlain n)
    (hlink : ∀ target, d.get? (l ++ [n]) ≠ some (.link target)) :
    d.exists? cwd (p.join n) = (!(p.join n).isTooLong && (d.get? (l ++ [n])).isSome) := by
  unfold exists?
  rw [h.status_join hn hlink]
  split
  · simp_all [Except.isOk, Except.toBool]
  · split <;> simp_all [Except.isOk, Except.toBool]

theorem isDirectory_join (h : d.Leads cwd p l) (hn : IsPlain n)
    (hlink : ∀ target, d.get? (l ++ [n]) ≠ some (.link target)) :
    d.isDirectory cwd (p.join n) =
      (!(p.join n).isTooLong && (d.get? (l ++ [n])).any Entry.isDirectory) := by
  unfold isDirectory
  rw [h.status_join hn hlink]
  split
  · rename_i heq
    split at heq
    · cases heq
    · split at heq <;> simp_all
  · rename_i heq
    split at heq
    · simp_all
    · split at heq <;> simp_all

theorem contents_join (h : d.Leads cwd p l) (hn : IsPlain n) {bytes : Bytes}
    (he : d.get? (l ++ [n]) = some (.file bytes)) :
    d.contents cwd (p.join n) =
      if (p.join n).isTooLong then .error .nameTooLong else .ok bytes := by
  unfold contents
  rw [h.status_join hn (by simp [he]), he]
  split <;> rfl

theorem freePlace_join (h : d.Leads cwd p l) (hn : IsPlain n) :
    d.freePlace cwd (p.join n) =
      if (p.join n).isTooLong then .error .nameTooLong
      else if (d.get? (l ++ [n])).isSome then .error .alreadyExists
      else if (d.get? l).any Entry.isOpen then .ok (l ++ [n])
      else .error .notFound := by
  have hadmits : d.admits l n = (d.get? l).any Entry.isOpen := by simp [admits, hn.short]
  unfold freePlace
  rw [h.slot_join hn]
  split
  · rfl
  · show (if (d.get? (l ++ [n])).isSome then _ else if d.admits l n then _ else _) = _
    rw [hadmits, absence_plain d l hn]
    rfl

theorem makeDirectory_join (h : d.Leads cwd p l) (hn : IsPlain n)
    (hopen : (d.get? l).any Entry.isOpen) :
    d.makeDirectory cwd (p.join n) =
      if (p.join n).isTooLong then .error .nameTooLong
      else if (d.get? (l ++ [n])).isSome then .error .alreadyExists
      else .ok (d.put (l ++ [n]) .directory) := by
  unfold makeDirectory
  rw [h.freePlace_join hn, hopen]
  split
  · rfl
  · split <;> rfl

/-- In a directory that takes no new entries nothing is made. -/
theorem makeDirectory_join_closed (h : d.Leads cwd p l) (hn : IsPlain n)
    (hclosed : (d.get? l).any Entry.isOpen = false) :
    d.makeDirectory cwd (p.join n) =
      if (p.join n).isTooLong then .error .nameTooLong
      else if (d.get? (l ++ [n])).isSome then .error .alreadyExists
      else .error .notFound := by
  unfold makeDirectory
  rw [h.freePlace_join hn, hclosed]
  split
  · rfl
  · split <;> rfl

theorem makeDirectory_join_join (h : d.Leads cwd p l) (hm : IsPlain m) (hn : IsPlain n)
    (he : d.get? (l ++ [m]) = none) :
    d.makeDirectory cwd ((p.join m).join n) =
      if ((p.join m).join n).isTooLong then .error .nameTooLong else .error .notFound := by
  unfold makeDirectory freePlace
  rw [h.slot_join_join hm hn he]
  split <;> rfl

theorem createFile_join (h : d.Leads cwd p l) (hn : IsPlain n)
    (hopen : (d.get? l).any Entry.isOpen) :
    d.createFile cwd (p.join n) =
      if (p.join n).isTooLong then .error .nameTooLong
      else if (d.get? (l ++ [n])).isSome then .error .alreadyExists
      else .ok (l ++ [n], d.put (l ++ [n]) (.file [])) := by
  unfold createFile
  rw [h.freePlace_join hn, hopen]
  split
  · rfl
  · split <;> rfl

theorem remove_join (h : d.Leads cwd p l) (hn : IsPlain n) :
    d.remove cwd (p.join n) =
      if (p.join n).isTooLong then .error .nameTooLong
      else
        match d.get? (l ++ [n]) with
        | none => .error .notFound
        | some e => if e.isDirectory then .error .isDirectory else .ok (d.erase (l ++ [n])) := by
  unfold remove
  rw [h.slot_join hn]
  split
  · rfl
  · cases he : d.get? (l ++ [n]) with
    | none => simp [bind, Except.bind, he, absence_plain d l hn]
    | some e => cases e <;> simp [bind, Except.bind, he, Entry.isDirectory] <;> rfl

theorem remove_join_join (h : d.Leads cwd p l) (hm : IsPlain m) (hn : IsPlain n)
    (he : d.get? (l ++ [m]) = none) :
    d.remove cwd ((p.join m).join n) =
      if ((p.join m).join n).isTooLong then .error .nameTooLong else .error .notFound := by
  unfold remove
  rw [h.slot_join_join hm hn he]
  split <;> rfl

theorem checkNull_join (h : d.Leads cwd p l) (hn : IsPlain n) : checkNull (p.join n) = .ok () := by
  unfold checkNull
  rw [if_neg (Path.null_mem_join hn h.noNull)]

/-- Moving a file to a name that is free or a file's. -/
theorem rename_join {p' : Path} {l' : Location} {n' : String} (h : d.Leads cwd p l)
    (h' : d.Leads cwd p' l') (hn : IsPlain n) (hn' : IsPlain n')
    (hopen : (d.get? l').any Entry.isOpen) (hvolume : d.volume l = d.volume l')
    (hfile : ∀ e, d.get? (l ++ [n]) = some e → ∃ contents, e = .file contents)
    (htarget : ∀ e, d.get? (l' ++ [n']) = some e → ∃ contents, e = .file contents)
    (hbelow : ¬(l ++ [n]) <+: (l' ++ [n'])) (habove : ¬(l' ++ [n']) <+: (l ++ [n])) :
    d.rename cwd (p.join n) (p'.join n') =
      if (p.join n).isTooLong ∨ (p'.join n').isTooLong then .error .nameTooLong
      else if (d.get? (l ++ [n])).isSome then .ok (d.moveTree (l ++ [n]) (l' ++ [n']))
      else .error .notFound := by
  have hadmits := admits_of_isOpen hopen hn'
  have hne : l ++ [n] ≠ l' ++ [n'] := fun heq => hbelow (heq ▸ List.prefix_rfl)
  unfold rename
  rw [h.checkNull_join hn, h'.checkNull_join hn', h.slot_join hn, h'.slot_join hn']
  by_cases hlong : (p.join n).isTooLong
  · simp [hlong, bind, Except.bind]
  by_cases hlong' : (p'.join n').isTooLong
  · simp [hlong, hlong', bind, Except.bind]
  cases he : d.get? (l ++ [n]) with
  | none => simp [hlong, hlong', bind, Except.bind, hvolume, he, absence_plain d l hn]
  | some e =>
    obtain ⟨contents, rfl⟩ := hfile e he
    have hreplace : d.checkReplace (.file contents) (l' ++ [n']) = .ok () := by
      unfold checkReplace
      cases hold : d.get? (l' ++ [n']) with
      | none => rfl
      | some old =>
        obtain ⟨_, rfl⟩ := htarget old hold
        rfl
    simp only [hlong, hlong', bind, Except.bind, hvolume, he, hadmits, hne, hreplace,
      Entry.isDirectory, Entry.isMount, List.isPrefixOf_iff_prefix, hbelow, habove, pure,
      Except.pure, Bool.false_eq_true, ↓reduceIte, ne_eq, not_true_eq_false, Bool.not_true,
      or_self, and_false, Option.isSome_some]

theorem rename_join_join {target : Path} (h : d.Leads cwd p l) (hm : IsPlain m) (hn : IsPlain n)
    (he : d.get? (l ++ [m]) = none) (hnull : checkNull target = .ok ()) :
    d.rename cwd ((p.join m).join n) target =
      if ((p.join m).join n).isTooLong then .error .nameTooLong else .error .notFound := by
  unfold rename
  have hsource : checkNull ((p.join m).join n) = .ok () := by
    unfold checkNull
    rw [if_neg (Path.null_mem_join hn (Path.null_mem_join hm h.noNull))]
  rw [hsource, hnull, h.slot_join_join hm hn he]
  split <;> rfl

end Leads

/-! ### Paths that are too long -/

theorem checkPath_long {p : Path} (hnull : '\x00' ∉ p.text.toList) (hlong : p.isTooLong) :
    checkPath p = .error .nameTooLong := by
  unfold checkPath checkNull
  rw [if_neg hnull, if_pos hlong]
  rfl

theorem makeDirectory_long (d : Disk) (cwd : Location) {p : Path} (hnull : '\x00' ∉ p.text.toList)
    (hlong : p.isTooLong) : d.makeDirectory cwd p = .error .nameTooLong := by
  unfold makeDirectory freePlace slot
  rw [checkPath_long hnull hlong]
  rfl

theorem isDirectory_long (d : Disk) (cwd : Location) {p : Path} (hnull : '\x00' ∉ p.text.toList)
    (hlong : p.isTooLong) : d.isDirectory cwd p = false := by
  unfold isDirectory status locate
  rw [checkPath_long hnull hlong]
  rfl

/-! ### Volumes -/

theorem outward_concat (l : Location) (n : String) :
    Location.outward (l ++ [n]) = (l ++ [n]) :: Location.outward l := by
  induction l with
  | nil => rfl
  | cons a l ih => simp [Location.outward, ih]

/-- A directory where no volume begins is on the volume of the one that it lies in. -/
theorem volume_concat (d : Disk) (l : Location) (n : String)
    (h : (d.get? (l ++ [n])).any Entry.isMount = false) : d.volume (l ++ [n]) = d.volume l := by
  simp [volume, outward_concat, h]

/-! ### Moving a tree -/

/-- The entries at and below a location are what stands there, each once. -/
theorem mem_subtree (d : Disk) (l names : Location) (e : Entry) :
    (names, e) ∈ d.subtree l ↔ d.get? (l ++ names) = some e := by
  unfold subtree
  rw [List.mem_filterMap, ← mem_entries_iff]
  constructor
  · rintro ⟨⟨k, x⟩, hk, heq⟩
    split at heq
    · rename_i hdeep
      obtain ⟨rest, rfl⟩ := List.isPrefixOf_iff_prefix.1 hdeep
      simp only [List.drop_left, Option.some.injEq, Prod.mk.injEq] at heq
      rw [← heq.1, ← heq.2]
      exact hk
    · cases heq
  · intro h
    exact ⟨_, h, by simp⟩

theorem lt_of_append_left_lt {l a b : Location} (h : l ++ a < l ++ b) : a < b := by
  induction l with
  | nil => exact h
  | cons x l ih =>
    rw [List.cons_append, List.cons_append, List.cons_lt_cons_iff] at h
    rcases h with h | ⟨-, h⟩
    · exact absurd h (List.lt_irrefl x.toList)
    · exact ih h

theorem sorted_subtree (d : Disk) (l : Location) : (d.subtree l).Pairwise (·.1 < ·.1) := by
  refine List.Pairwise.filterMap _ ?_ d.sorted
  intro a a' hlt b hb b' hb'
  split at hb
  · split at hb'
    · rename_i hp hp'
      obtain ⟨rest, hrest⟩ := List.isPrefixOf_iff_prefix.1 hp
      obtain ⟨rest', hrest'⟩ := List.isPrefixOf_iff_prefix.1 hp'
      cases hb
      cases hb'
      rw [← hrest, ← hrest'] at hlt ⊢
      simpa using lt_of_append_left_lt hlt
    · cases hb'
  · cases hb

/-- Nothing is changed where no entry is put. -/
theorem get?_graft_of_ne {target l : Location} {entries : List (Location × Entry)}
    (h : ∀ p ∈ entries, l ≠ target ++ p.1) (d : Disk) :
    (d.graft target entries).get? l = d.get? l := by
  induction entries generalizing d with
  | nil => rfl
  | cons p rest ih =>
    show ((d.put (target ++ p.1) p.2).graft target rest).get? l = _
    rw [ih (fun q hq => h q (List.mem_cons_of_mem _ hq)), get?_put,
      if_neg (h p List.mem_cons_self)]

theorem get?_graft_of_mem {target names : Location} {e : Entry}
    {entries : List (Location × Entry)} (hsorted : entries.Pairwise (·.1 < ·.1))
    (h : (names, e) ∈ entries) (d : Disk) :
    (d.graft target entries).get? (target ++ names) = some e := by
  induction entries generalizing d with
  | nil => cases h
  | cons p rest ih =>
    obtain ⟨hfirst, hrest⟩ := List.pairwise_cons.1 hsorted
    show ((d.put (target ++ p.1) p.2).graft target rest).get? _ = _
    rcases List.mem_cons.1 h with rfl | h
    · -- No entry that follows has the same names.
      have hlater : ∀ q ∈ rest, target ++ names ≠ target ++ q.1 := by
        intro q hq heq
        have hlt := hfirst q hq
        rw [← List.append_cancel_left heq] at hlt
        exact List.lt_irrefl _ hlt
      rw [get?_graft_of_ne hlater, get?_put, if_pos rfl]
    · exact ih hrest h _

/-- What is moved stands at the target, with all that is below it. -/
theorem get?_moveTree_target (d : Disk) (source target names : Location) :
    (d.moveTree source target).get? (target ++ names) = d.get? (source ++ names) := by
  unfold moveTree
  cases he : d.get? (source ++ names) with
  | some e => exact get?_graft_of_mem (sorted_subtree d source) ((mem_subtree ..).2 he) _
  | none =>
    have hne : ∀ p ∈ d.subtree source, target ++ names ≠ target ++ p.1 := by
      rintro ⟨other, e⟩ hmem heq
      obtain rfl : names = other := List.append_cancel_left heq
      rw [mem_subtree, he] at hmem
      cases hmem
    rw [get?_graft_of_ne hne, get?_eraseTree, if_pos (by simp)]

/-- Elsewhere a move only takes the source away. -/
theorem get?_moveTree_of_not_isPrefix (d : Disk) {source target l : Location} (h : ¬target <+: l) :
    (d.moveTree source target).get? l = if source.isPrefixOf l then none else d.get? l := by
  have hne : ∀ p ∈ d.subtree source, l ≠ target ++ p.1 := by
    rintro p - rfl
    exact h (List.prefix_append _ _)
  unfold moveTree
  rw [get?_graft_of_ne hne, get?_eraseTree, if_neg (by simpa using h), get?_eraseTree]

/-- What a move leaves where, when nothing is below the source and the target. -/
theorem get?_moveTree {d : Disk} {source target : Location} {e : Entry}
    (he : d.get? source = some e) (hleaf : ∀ n rest, d.get? (source ++ n :: rest) = none)
    (htarget : ∀ n rest, d.get? (target ++ n :: rest) = none) (l : Location) :
    (d.moveTree source target).get? l =
      if l = target then some e else if l = source then none else d.get? l := by
  by_cases hdeep : target <+: l
  · obtain ⟨names, rfl⟩ := hdeep
    rw [get?_moveTree_target]
    cases names with
    | nil => simp [he]
    | cons n rest =>
      rw [hleaf, if_neg (by simp), htarget]
      exact (ite_self _).symm
  · have hne : l ≠ target := fun h => hdeep (h ▸ List.prefix_rfl)
    rw [get?_moveTree_of_not_isPrefix d hdeep, if_neg hne]
    by_cases hsource : source <+: l
    · obtain ⟨names, rfl⟩ := hsource
      cases names with
      | nil => simp
      | cons n rest =>
        rw [hleaf, ite_self, ite_self]
    · have hother : l ≠ source := fun h => hsource (h ▸ List.prefix_rfl)
      rw [if_neg (by simpa using hsource), if_neg hother]

end ReplicationQueue.Disk
