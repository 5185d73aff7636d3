import ReplicationQueue.Proofs.Below
import ReplicationQueue.Proofs.Blank
import ReplicationQueue.Proofs.Paving
import ReplicationQueue.Proofs.Truncation

/-! Listing any tree, links included: the records below the directory that a path leads to, in the
order of their names. A file that holds the front of a record is no record, so wherever it is in the
tree, a listing tells what it would tell without it. -/

namespace ReplicationQueue

namespace Disk

variable {d d' : Disk} {cwd k l : Location} {p : Path} {n : String}

/-! ### What a listing tells of an entry -/

/-- The update that is read of an entry below a directory, by the path of the directory. -/
def updateBelow? (p : Path) : Location × Entry → Option Update
  | (names, .file bytes) =>
    if names = [] ∨ (names.dropLast.foldl Path.join p).isTooLong ∨ (names.foldl Path.join p).isTooLong
    then none
    else (Update.parse bytes).toOption
  | _ => none

theorem updateBelow?_eq (x : Location × Entry) :
    updateBelow? p x = (walkedFile? p x).bind fun file =>
      if IsInReach p file then (Update.parse file.2).toOption else none := by
  obtain ⟨names, e⟩ := x
  cases e with
  | directory => rfl
  | mount isSealed => rfl
  | removed => rfl
  | link target => rfl
  | special => rfl
  | file bytes =>
    rw [updateBelow?, walkedFile?, ← Path.below, ← Path.below]
    by_cases hin : names = [] ∨ (p.below names.dropLast).isTooLong
    · rw [if_pos (or_assoc.1 (.inl hin)), if_pos hin]
      rfl
    · rw [not_or] at hin
      cases hlong : (p.below names).isTooLong <;> simp [hin, hlong, IsInReach]

/-! ### What is below a directory, with more on the disk -/

theorem filterMap_insertEntry {β : Type} {f : Location × Entry → Option β} {e : Entry}
    (hf : f (k, e) = none) {entries : List (Location × Entry)} (hfree : find? entries k = none) :
    (insertEntry k e entries).filterMap f = entries.filterMap f := by
  induction entries with
  | nil => simp [insertEntry, hf]
  | cons q rest ih =>
    obtain ⟨x, y⟩ := q
    have hne : x ≠ k := by
      rintro rfl
      simp [find?] at hfree
    have hrest : find? rest k = none := by simpa [find?, hne] using hfree
    unfold insertEntry
    split
    · exact List.filterMap_cons_none hf
    · rw [if_neg hne.symm, List.filterMap_cons, List.filterMap_cons, ih hrest]

/-- What is read below a directory is the same with an entry of which nothing is read. -/
theorem filterMap_subtree_put {β : Type} {f : Location × Entry → Option β} {e : Entry}
    (hf : ∀ names, f (names, e) = none) (hfree : d.get? k = none) (l : Location) :
    ((d.put k e).subtree l).filterMap f = (d.subtree l).filterMap f := by
  unfold subtree
  rw [List.filterMap_filterMap, List.filterMap_filterMap]
  refine filterMap_insertEntry ?_ hfree
  dsimp only
  split
  · exact hf _
  · rfl

/-- Below what was made there is no file. -/
theorem filterMap_subtree_fresh {depth : Nat} (h : Ensures cwd depth d p d') (hd : d.IsTree)
    (hfree : d.get? l = none) : (d'.subtree l).filterMap (updateBelow? p) = [] := by
  rw [List.filterMap_eq_nil_iff]
  rintro ⟨names, e⟩ hmem
  rw [mem_subtree] at hmem
  rcases h.keptOrMade (l ++ names) with heq | ⟨-, hmade, -⟩
  · rw [heq, hd.get?_below hfree] at hmem
    cases hmem
  · rw [hmade] at hmem
    cases hmem
    rfl

end Disk

/-! ### Listings -/

namespace Store

open Disk

variable (store : Store) (s : System) {p : Path}

/-- A listing tells the updates below the directory that its path leads to once it is made. -/
theorem run_listBelow_ensures {d : Disk} (h : Ensures s.cwd (p.text.length + 2) s.disk p d)
    (hd : s.disk.IsTree) (hp : p.text ≠ "") :
    ∃ l, d.locate s.cwd p = .ok l ∧
      ((store.listBelow p).run s).1 = (d.subtree l).filterMap (updateBelow? p) ∧
      ((store.listBelow p).run s).2.disk = d := by
  obtain ⟨l, closed, hl, -, hrun⟩ := store.run_listBelow_found h hd hp
  refine ⟨l, hl, ?_⟩
  rw [hrun]
  refine ⟨?_, rfl⟩
  rw [List.filterMap_filter, walkedBelow, List.filterMap_filterMap]
  exact List.filterMap_congr fun x _ => (updateBelow?_eq x).symm

theorem run_listBelow_fails (h : ∀ d, ¬Ensures s.cwd (p.text.length + 2) s.disk p d) :
    ((store.listBelow p).run s).1 = [] := by
  obtain ⟨error, s', hrun⟩ := Files.run_ensureDirectory_fails h
  rw [listBelow, Plan.run_bind, hrun]
  rfl

/-- A file that stands where a listing would make a directory leaves nothing to list. -/
theorem run_listBelow_blocked {d : Disk} {k : Location} {bytes : Bytes}
    (hname : ∀ here step, here ++ [step] = k → IsPlain step) (hfree : s.disk.get? k = none)
    (h : Ensures s.cwd (p.text.length + 2) s.disk p d) (hk : d.get? k ≠ none) :
    ((store.listBelow p).run { s with disk := s.disk.put k (.file bytes) }).1 = [] := by
  refine store.run_listBelow_fails _ fun d' hput => ?_
  obtain ⟨way, hway, hnone, -⟩ := Ensures.of_put_file hname hfree hput
  rw [Files.ensures_unique hway h] at hnone
  exact hk hnone

/-- A file that holds no record is not listed, and hides nothing that is, unless it stands where the
listing would make a directory; without two dots in the path it may stand there too. -/
theorem listBelow_put {k : Location} {bytes : Bytes} {fault : Json.Fault}
    (hparse : Update.parse bytes = .error fault) (hd : s.disk.IsTree)
    (hfree : s.disk.get? k = none) (hd' : (s.disk.put k (.file bytes)).IsTree) (hp : p.text ≠ "")
    (h : p.IsForward ∨ ((store.listBelow p).run s).2.disk.get? k = none) :
    ((store.listBelow p).run { s with disk := s.disk.put k (.file bytes) }).1 =
      ((store.listBelow p).run s).1 := by
  have hname : ∀ here step, here ++ [step] = k → IsPlain step := by
    rintro here step rfl
    exact hd'.isPlain_of_file (by rw [get?_put, if_pos rfl])
  by_cases hensures : ∃ d, Ensures s.cwd (p.text.length + 2) s.disk p d
  · obtain ⟨d, hensures⟩ := hensures
    obtain ⟨l, hl, hlist, hdisk⟩ := store.run_listBelow_ensures s hensures hd hp
    rw [hdisk] at h
    rw [hlist]
    by_cases hk : d.get? k = none
    · have hput : Ensures s.cwd (p.text.length + 2) (s.disk.put k (.file bytes)) p
          (d.put k (.file bytes)) := hensures.put_file hname hk
      obtain ⟨l', hl', hlist', -⟩ :=
        store.run_listBelow_ensures { s with disk := s.disk.put k (.file bytes) } hput hd' hp
      obtain rfl : l' = l := by
        have := locate_extends (extends_put hk (.file bytes)) hl
        rw [hl'] at this
        exact Except.ok.inj this
      rw [hlist']
      refine filterMap_subtree_put (fun names => ?_) hk l'
      rw [updateBelow?, hparse]
      split <;> rfl
    · -- The listing makes a directory in the file's place: there is nothing in it.
      have hforward := h.resolve_right hk
      rcases hensures.fresh hd hforward with rfl | ⟨l', hnew, hl', -⟩
      · exact absurd hfree hk
      obtain rfl : l' = l := by
        rw [hl] at hl'
        exact (Except.ok.inj hl').symm
      rw [filterMap_subtree_fresh hensures hd hnew]
      exact store.run_listBelow_blocked s hname hfree hensures hk
  · rw [store.run_listBelow_fails s fun d hd => hensures ⟨d, hd⟩]
    refine store.run_listBelow_fails _ fun d hput => ?_
    obtain ⟨way, hway, -⟩ := Ensures.of_put_file hname hfree hput
    exact hensures ⟨way, hway⟩

/-- The four listings. -/
def listings : List (Plan (List Update)) :=
  [store.list, store.listBuilding, store.listWaiting, store.listRunning]

theorem exists_of_mem_listings {listing : Plan (List Update)} (h : listing ∈ store.listings) :
    ∃ p : Path, listing = store.listBelow p ∧ p.text ≠ "" ∧
      (store.layout.events.IsForward → p.IsForward) := by
  have state : ∀ {name}, IsState name → ∃ p : Path,
      store.listBelow (store.layout.refUpdates.join name) = store.listBelow p ∧ p.text ≠ "" ∧
        (store.layout.events.IsForward → p.IsForward) :=
    fun hname => ⟨_, rfl, Path.text_join_ne_empty _ hname.isPlain,
      fun h => Layout.isForward_state h hname⟩
  simp only [listings, List.mem_cons, List.not_mem_nil, or_false] at h
  rcases h with rfl | rfl | rfl | rfl
  · exact ⟨_, rfl, Path.text_join_ne_empty _ isPlain_refUpdates, Layout.isForward_refUpdates⟩
  · exact state (.inl rfl)
  · exact state (.inr (.inr rfl))
  · exact state (.inr (.inl rfl))

/-- A record whose end is missing is never taken for a record, and what is wrong with it is that it
ends too early. So a listing tells the same with such a file anywhere in the tree as without it,
unless the file stands where a directory would be made for an events path with two dots in it. -/
theorem cut_record_not_listed (u : Update) (part : Bytes) (h : IsCut part (Utf8.encode u.toJson)) :
    (∃ fault, Update.parse part = .error fault ∧ fault.category = .early) ∧
      ∀ (store : Store) (s : System) (k : Location), s.disk.IsTree → s.disk.get? k = none →
        (s.disk.put k (.file part)).IsTree → ∀ listing ∈ store.listings,
          (store.layout.events.IsForward ∨ (listing.run s).2.disk.get? k = none) →
            (listing.run { s with disk := s.disk.put k (.file part) }).1 = (listing.run s).1 := by
  obtain ⟨what, hparse⟩ := Update.endsEarly_parse h
  refine ⟨⟨_, hparse, rfl⟩, fun store s k hd hfree hd' listing hlisting hbeside => ?_⟩
  obtain ⟨p, rfl, hp, hforward⟩ := store.exists_of_mem_listings hlisting
  exact store.listBelow_put s hparse hd hfree hd' hp (hbeside.imp_left hforward)

end Store

/-! ### A queue with one waiting task -/

/-- A disk with a queue below its root, in which one file waits. -/
def oneWaiting (bytes : Bytes) : Disk :=
  ((Disk.blank.put ["ref-updates"] .directory).put ["ref-updates", "waiting"] .directory).put
    ["ref-updates", "waiting", "x"] (.file bytes)

namespace OneWaiting

open Disk

/-- The queue's store, by the path of its events directory. -/
def store (events : String) : Store :=
  ⟨⟨⟨events⟩, .flat⟩, false⟩

def system (bytes : Bytes) : System :=
  { Session.blank.system with disk := oneWaiting bytes }

theorem isTree (bytes : Bytes) : (oneWaiting bytes).IsTree := by
  have hroot : (Disk.blank.put ["ref-updates"] .directory).IsTree :=
    isTree_blank.put (l := []) isPlain_refUpdates rfl rfl _
  have hwaiting := hroot.put (l := ["ref-updates"]) Layout.isPlain_waiting rfl rfl .directory
  exact hwaiting.put (l := ["ref-updates", "waiting"]) isPlain_x rfl rfl _

/-- The one file is listed wherever else the disk has been added to. -/
theorem run_listWaiting {events : String} {s : System} {d : Disk} (u : Update) (hs : s.disk.IsTree)
    (h : Ensures s.cwd ((store events).layout.waiting.text.length + 2) s.disk
      (store events).layout.waiting d)
    (hl : d.locate s.cwd (store events).layout.waiting = .ok ["ref-updates", "waiting"])
    (hbelow : d.subtree ["ref-updates", "waiting"] = [([], .directory), (["x"], .file u.record)])
    (hshort : (store events).layout.waiting.isTooLong = false)
    (hshort' : ((store events).layout.waiting.join "x").isTooLong = false) :
    ((store events).listWaiting.run s).1 = [u] := by
  obtain ⟨l, hl', hlist, -⟩ := (store events).run_listBelow_ensures s h hs
    (Path.text_join_ne_empty _ Layout.isPlain_waiting)
  obtain rfl : l = ["ref-updates", "waiting"] := Except.ok.inj (hl'.symm.trans hl)
  have hfile : updateBelow? (store events).layout.waiting (["x"], .file u.record) = some u := by
    rw [updateBelow?, if_neg, Update.parse_record]
    · rfl
    · rintro (hnil | hlong | hlong)
      · cases hnil
      · exact absurd (hshort.symm.trans hlong) (by decide)
      · exact absurd (hshort'.symm.trans hlong) (by decide)
  rw [Store.listWaiting, hlist, hbelow, List.filterMap_cons_none rfl, List.filterMap_cons_some hfile]
  rfl

theorem listWaiting {events : String} {d : Disk} (u : Update)
    (h : Ensures [] ((store events).layout.waiting.text.length + 2) (oneWaiting u.record)
      (store events).layout.waiting d)
    (hl : d.locate [] (store events).layout.waiting = .ok ["ref-updates", "waiting"])
    (hbelow : d.subtree ["ref-updates", "waiting"] = [([], .directory), (["x"], .file u.record)])
    (hshort : (store events).layout.waiting.isTooLong = false)
    (hshort' : ((store events).layout.waiting.join "x").isTooLong = false) :
    ((store events).listWaiting.run (system u.record)).1 = [u] :=
  run_listWaiting (s := system u.record) u (isTree _) h hl hbelow hshort hshort'

/-- A path through a directory that is not there, and back. -/
theorem ensures_crossed (bytes : Bytes) :
    Ensures [] ((store "a/..").layout.waiting.text.length + 2) (oneWaiting bytes)
      (store "a/..").layout.waiting ((oneWaiting bytes).put ["a"] .directory) :=
  .standsBelow (by decide) rfl rfl
    (.standsBelow (by decide) rfl rfl
      (.standsBelow (by decide) rfl rfl (.made (by decide) rfl) (by rfl) rfl) (by rfl) rfl)
    (by rfl) rfl

end OneWaiting

namespace Store

open OneWaiting

theorem cut_record_not_listed_beside :
    let u : Update := ⟨"p", "refs/heads/m", "https://h/p", "h"⟩
    let part := (Utf8.encode u.toJson).take 40
    IsCut part (Utf8.encode u.toJson) ∧ (system u.record).disk.IsTree ∧
      (system u.record).disk.get? ["ref-updates", "waiting", "y"] = none ∧
      ((system u.record).disk.put ["ref-updates", "waiting", "y"] (.file part)).IsTree ∧
      (store ".").layout.events.IsForward ∧
      ((store ".").listWaiting.run { system u.record with
        disk := (system u.record).disk.put ["ref-updates", "waiting", "y"] (.file part) }).1 =
          [u] := by
  intro u part
  have hcut : IsCut part (Utf8.encode u.toJson) := .take (by decide)
  have hy : IsPlain "y" :=
    isPlain_of_isVisible (by simp [IsVisible]) (by simp) (by decide) (by decide) (by decide)
  have htree : ((system u.record).disk.put ["ref-updates", "waiting", "y"] (.file part)).IsTree :=
    (isTree _).put (l := ["ref-updates", "waiting"]) hy rfl rfl _
  have hforward : (store ".").layout.events.IsForward := by decide
  refine ⟨hcut, isTree _, rfl, htree, hforward, ?_⟩
  rw [(cut_record_not_listed u part hcut).2 (store ".") (system u.record) _ (isTree _) rfl htree _
    (by simp [listings]) (.inl hforward)]
  exact OneWaiting.listWaiting u (.stands (by decide) rfl (by decide) rfl) rfl rfl rfl rfl

/-- In the place of a directory that the events path goes through, the front of a record hides the
records that are listed without it. -/
theorem cut_record_hides_record :
    let u : Update := ⟨"p", "refs/heads/m", "https://h/p", "h"⟩
    let part := (Utf8.encode u.toJson).take 40
    IsCut part (Utf8.encode u.toJson) ∧ (system u.record).disk.IsTree ∧
      (system u.record).disk.get? ["a"] = none ∧
      ((system u.record).disk.put ["a"] (.file part)).IsTree ∧
      ((store "a/..").listWaiting.run (system u.record)).1 = [u] ∧
      ((store "a/..").listWaiting.run
        { system u.record with disk := (system u.record).disk.put ["a"] (.file part) }).1 = [] := by
  intro u part
  have hcut : IsCut part (Utf8.encode u.toJson) := .take (by decide)
  have ha : IsPlain "a" :=
    isPlain_of_isVisible (by simp [IsVisible]) (by simp) (by decide) (by decide) (by decide)
  have htree : ((system u.record).disk.put ["a"] (.file part)).IsTree :=
    (isTree _).put (l := []) ha rfl rfl _
  refine ⟨hcut, isTree _, rfl, htree, ?_, ?_⟩
  · exact OneWaiting.listWaiting u (ensures_crossed _) rfl rfl rfl rfl
  · refine (store "a/..").run_listBelow_blocked (system u.record) (fun here step heq => ?_) rfl
      (ensures_crossed _) (by simp)
    obtain rfl : step = "a" := by simpa using congrArg List.getLast? heq
    exact ha

end Store

end ReplicationQueue
