import ReplicationQueue.Proofs.Fragment
import ReplicationQueue.Proofs.Telling

/-! Listings as inventories of the tree, links included. What is listed are the records among the
files below the directory, so it does not matter what else is there; the listing of the whole queue
is those of its states one after the other; and a listing makes the directories on its way, where
they are missing, and changes nothing else. -/

namespace ReplicationQueue

namespace Path

/-- A path, or what it lies in, any number of levels further out. -/
inductive IsOutward : Path → Path → Prop
  | self {p : Path} : IsOutward p p
  | parent {p q r : Path} (h : p.parent? = some q) (hout : IsOutward r q) : IsOutward r p

end Path

namespace Disk

variable {d d' d'' way : Disk} {cwd l k : Location} {p q : Path} {m n : String} {names : Location}
  {bytes : Bytes} {depth : Nat} {found : List (Location × Bytes)}

/-! ### The directories that are made -/

/-- What was at the location is there, or nothing was, and one of the directories on the way of the
path was made. -/
def MadeAt (d d' : Disk) (cwd : Location) (p : Path) (l : Location) : Prop :=
  d'.get? l = d.get? l ∨ d.get? l = none ∧ d'.get? l = some .directory ∧
    ∃ q, q.IsOutward p ∧ d'.locate cwd q = .ok l

/-- Directories were made on the way of a path, and nothing else is changed. -/
def Makes (d d' : Disk) (cwd : Location) (p : Path) : Prop :=
  ∀ l, d.MadeAt d' cwd p l

namespace Makes

theorem refl (d : Disk) (cwd : Location) (p : Path) : d.Makes d cwd p := fun _ => .inl rfl

theorem of_parent? (h : d.Makes d' cwd q) (hparent : p.parent? = some q) : d.Makes d' cwd p :=
  fun l => (h l).imp_right fun ⟨hnone, hmade, r, hr, hl⟩ =>
    ⟨hnone, hmade, r, .parent hparent hr, hl⟩

theorem extends_disk (h : d.Makes d' cwd p) : d.Extends d' := by
  intro l e he
  rcases h l with heq | ⟨hnone, -⟩
  · rw [heq, he]
  · rw [hnone] at he
    cases he

theorem trans (h : d.Makes d' cwd p) (h' : d'.Makes d'' cwd p) : d.Makes d'' cwd p := by
  intro l
  rcases h' l with heq | ⟨hnone, hmade, hway⟩
  · unfold MadeAt
    rw [heq]
    exact (h l).imp_right fun ⟨hnone, hmade, q, hq, hl⟩ =>
      ⟨hnone, hmade, q, hq, locate_extends h'.extends_disk hl⟩
  · exact .inr ⟨h.extends_disk.missing hnone, hmade, hway⟩

theorem of_makeDirectory (h : d.makeDirectory cwd p = .ok d') : d.Makes d' cwd p := by
  obtain ⟨l, hfree, rfl, hl⟩ := locate_made h
  intro k
  by_cases hk : k = l
  · subst hk
    exact .inr ⟨hfree, by rw [get?_put, if_pos rfl], p, .self, hl⟩
  · exact .inl (by rw [get?_put, if_neg hk])

end Makes

end Disk

namespace Files

open Plan Disk

/-- Making a directory makes directories on the way of its path, however it ends. -/
theorem run_ensureWithin_makes (depth : Nat) (p : Path) (s : System) :
    ∃ r d, (ensureWithin depth p).run s = (r, { s with disk := d }) ∧ s.disk.Makes d s.cwd p := by
  induction depth generalizing p s with
  | zero => exact ⟨_, _, rfl, .refl _ _ _⟩
  | succ depth ih =>
    by_cases hempty : p.text = ""
    · exact ⟨.ok (), s.disk, by rw [ensureWithin, if_pos hempty]; rfl, .refl _ _ _⟩
    cases hmake : s.disk.makeDirectory s.cwd p with
    | ok d => exact ⟨_, _, ensureWithin_made depth hempty hmake, .of_makeDirectory hmake⟩
    | error cause =>
      by_cases hcause : cause = .notFound
      · subst hcause
        cases hparent : p.parent? with
        | none =>
          refine ⟨.error .other, s.disk, ?_, .refl _ _ _⟩
          rw [ensureWithin, if_neg hempty, run_bind, run_makeDirectory, hmake, System.change_error]
          simp only [hparent]
          rfl
        | some parent =>
          obtain ⟨r, d, hrun, hway⟩ := ih parent s
          have hmakes := hway.of_parent? hparent
          cases r with
          | error cause =>
            exact ⟨_, _, ensureWithin_stopped hempty hmake hparent hrun, hmakes⟩
          | ok _ =>
            cases hagain : d.makeDirectory s.cwd p with
            | ok d' =>
              have hretried := ensureWithin_retried hempty hmake hparent hrun hagain
              exact ⟨_, _, hretried, hmakes.trans (.of_makeDirectory hagain)⟩
            | error cause =>
              have hrefused := ensureWithin_refused_again hempty hmake hparent hrun hagain
              exact ⟨_, _, hrefused, hmakes⟩
      · exact ⟨_, _, ensureWithin_refused depth hempty hmake hcause, .refl _ _ _⟩

theorem run_ensureDirectory_makes (p : Path) (s : System) :
    ∃ r d, (ensureDirectory p).run s = (r, { s with disk := d }) ∧ s.disk.Makes d s.cwd p := by
  obtain ⟨r, d, hrun, hmakes⟩ := run_ensureWithin_makes (p.text.length + 2) p s
  obtain ⟨r', hrun', -⟩ := run_ensureDirectory hrun
  exact ⟨r', d, hrun', hmakes⟩

end Files

namespace Disk

variable {d d' d'' way : Disk} {cwd l k : Location} {p q : Path} {m n : String} {names : Location}
  {bytes : Bytes} {depth : Nat} {found : List (Location × Bytes)}

/-! ### What a listed path leads to -/

/-- Whatever has to be made for the path, what it leads to then was there already or is new. -/
def LeadsAfresh (d : Disk) (cwd : Location) (p : Path) : Prop :=
  ∀ depth d', Ensures cwd depth d p d' → d' = d ∨
    ∃ l, d.get? l = none ∧ d'.locate cwd p = .ok l ∧ (d'.get? l).any Entry.isDirectory

theorem Leads.isDirectory_join_missing (h : d.Leads cwd p l) (hn : IsPlain n)
    (hfree : d.get? (l ++ [n]) = none) : d.isDirectory cwd (p.join n) = false := by
  unfold isDirectory
  rw [h.status_join hn (by rw [hfree]; simp), hfree]
  split
  · rename_i e he
    split at he <;> cases he
  · rfl

/-- A name that was free leads to a new directory, if it leads to a directory. -/
theorem new_below (hkept : ∀ l, d.KeptOrMade way [] l) (hleads : way.Leads cwd q k)
    (hn : IsPlain n) (hfree : d.get? (k ++ [n]) = none)
    (hdir : way.isDirectory cwd (q.join n) = true) :
    ∃ l, d.get? l = none ∧ way.locate cwd (q.join n) = .ok l ∧
      (way.get? l).any Entry.isDirectory := by
  obtain ⟨l, hl, hldir⟩ := located_of_isDirectory hdir
  refine ⟨l, ?_, hl, hldir⟩
  rcases hkept (k ++ [n]) with heq | ⟨-, hmade, -⟩
  · rw [hleads.isDirectory_join_missing hn (heq.trans hfree)] at hdir
    cases hdir
  · have hlocate := hleads.locate_join hn hmade (by simp)
    rw [hl] at hlocate
    split at hlocate
    · cases hlocate
    · obtain rfl := Except.ok.inj hlocate
      exact hfree

theorem LeadsAfresh.of_forward (hd : d.IsTree) (hp : p.IsForward) : d.LeadsAfresh cwd p :=
  fun _ _ h => h.fresh hd hp

/-- Below a directory that is there a name is taken, or free. -/
theorem LeadsAfresh.join_of_isDirectory (hq : d.isDirectory cwd q = true) (hn : IsPlain n) :
    d.LeadsAfresh cwd (q.join n) := by
  intro depth d' h
  obtain ⟨k, hk, hkdir⟩ := located_of_isDirectory hq
  have hleads := leads_of_locate hk hkdir
  cases h with
  | working => exact .inl rfl
  | made _ hmade => exact .inr (new_made (fun _ _ he => he) hmade)
  | stands => exact .inl rfl
  | madeBelow _ _ _ hway hmade => exact .inr (new_made hway.extends_disk hmade)
  | standsBelow _ hmake _ hway _ hdir =>
    have hlong : (q.join n).isTooLong = false := by
      by_contra hlong
      rw [Bool.not_eq_false] at hlong
      rw [makeDirectory_of_error (by rw [hleads.slot_join hn, if_pos hlong])] at hmake
      cases hmake
    have hslot : d.slot cwd (q.join n) = .ok (.named k n false) := by
      rw [hleads.slot_join hn, if_neg (by simp [hlong])]
    have hfree : d.get? (k ++ [n]) = none := by
      by_contra hsome
      rw [makeDirectory_of_taken hslot (Option.isSome_iff_ne_none.2 hsome)] at hmake
      cases hmake
    have hleads' : d'.Leads cwd q k := by
      obtain ⟨e, he, hedir⟩ := (Option.any_eq_true ..).1 hkdir
      exact leads_of_locate (locate_extends hway.extends_disk hk)
        (by rw [hway.extends_disk k e he]; exact hedir)
    exact .inr (new_below hway.keptOrMade hleads' hn hfree hdir)

/-- Below a directory that is new every name is free. -/
theorem LeadsAfresh.join (hd : d.IsTree) (h : d.LeadsAfresh cwd (q.join m)) (hm : IsPlain m)
    (hn : IsPlain n) : d.LeadsAfresh cwd ((q.join m).join n) := by
  intro depth d' hensures
  cases hensures with
  | working => exact .inl rfl
  | made _ hmade => exact .inr (new_made (fun _ _ he => he) hmade)
  | stands => exact .inl rfl
  | madeBelow _ _ _ hway hmade => exact .inr (new_made hway.extends_disk hmade)
  | standsBelow _ _ hparent hway _ hdir =>
    rw [Path.parent?_join_join q hm hn, Option.some.injEq] at hparent
    subst hparent
    refine (h _ _ hway).imp_right ?_
    rintro ⟨k, hfree, hk, hkdir⟩
    exact new_below hway.keptOrMade (leads_of_locate hk hkdir) hn (hd.get?_below hfree [n]) hdir

/-- The files below a path are the same before and after the directory is made. -/
theorem LeadsAfresh.hasBelow_iff (h : d.LeadsAfresh cwd p) (hd : d.IsTree)
    (hensures : Ensures cwd depth d p d') :
    d'.HasBelow cwd p names bytes ↔ d.HasBelow cwd p names bytes := by
  constructor
  · rintro ⟨hne, l, hl, hfile⟩
    rcases h _ _ hensures with rfl | ⟨k, hfree, hk, -⟩
    · exact ⟨hne, l, hl, hfile⟩
    · -- Below what is new there are no files.
      obtain rfl : l = k := Except.ok.inj (hl.symm.trans hk)
      rcases hensures.keptOrMade (l ++ names) with heq | ⟨-, hmade, -⟩
      · rw [heq, hd.get?_below hfree] at hfile
        cases hfile
      · rw [hmade] at hfile
        cases hfile
  · rintro ⟨hne, l, hl, hfile⟩
    exact ⟨hne, l, locate_extends hensures.extends_disk hl, hensures.extends_disk _ _ hfile⟩

theorem LeadsAfresh.walks (h : d.LeadsAfresh cwd p) (hd : d.IsTree)
    (hensures : Ensures cwd depth d p d') (hwalks : d'.Walks cwd p found) : d.Walks cwd p found :=
  ⟨fun names bytes => by rw [hwalks.mem, h.hasBelow_iff hd hensures], hwalks.sorted⟩

/-- Where nothing comes of making the directory, no file is below the path. -/
theorem walks_nil_of_fails (hd : d.IsTree) (hp : p.text ≠ "")
    (h : ∀ d', ¬Ensures cwd (depth + 1) d p d') : d.Walks cwd p [] :=
  walks_nil fun _ _ hbelow => by
    obtain ⟨l, hl, hdir⟩ := hbelow.directory hd
    have hthere := IsLinkless.isDirectory_located hl hdir
    exact h d (.stands hp (makeDirectory_of_isDirectory hthere) (by simp) hthere)

end Disk

/-! ### Disks with the same records -/

namespace Disk

variable {d d' : Disk} {cwd l : Location} {p : Path} {names : Location} {bytes : Bytes}

/-- Nothing is at the location, or a file whose bytes are no record, or something that has no bytes:
a socket, a pipe or a device. -/
def HoldsNoRecord (d : Disk) (l : Location) : Prop :=
  ∀ e, d.get? l = some e →
    (∃ bytes, e = .file bytes ∧ (Update.parse bytes).toOption = none) ∨ e = .special

/-- The disks differ in nothing but files that hold no record. -/
def SameRecords (d d' : Disk) : Prop :=
  ∀ l, d'.get? l = d.get? l ∨ d.HoldsNoRecord l ∧ d'.HoldsNoRecord l

theorem SameRecords.symm (h : d.SameRecords d') : d'.SameRecords d :=
  fun l => (h l).imp Eq.symm And.symm

theorem SameRecords.of_not_isLeaf (h : d.SameRecords d') {e : Entry} (he : d.get? l = some e)
    (hleaf : e.isLeaf = false) : d'.get? l = some e := by
  rcases h l with heq | ⟨hnone, -⟩
  · rw [heq, he]
  · rcases hnone e he with ⟨bytes, rfl, -⟩ | rfl <;> cases hleaf

theorem SameRecords.of_record (h : d.SameRecords d') (he : d.get? l = some (.file bytes))
    (hrecord : (Update.parse bytes).toOption.isSome) : d'.get? l = some (.file bytes) := by
  rcases h l with heq | ⟨hnone, -⟩
  · rw [heq, he]
  · rcases hnone _ he with ⟨other, heq, hparse⟩ | heq
    · cases heq
      rw [hparse] at hrecord
      cases hrecord
    · cases heq

section Steps

variable {follow follow' : Location → List String → Except Cause Location}

/-- A lookup that ends at a directory passes directories and links. -/
theorem enter_sameRecords (h : d.SameRecords d') (hl : (d.get? l).any Entry.isDirectory)
    (hfollow : ∀ here steps, follow here steps = .ok l → follow' here steps = .ok l)
    (steps : List String) (here : Location) (hfound : enter d .existing follow here steps = .ok l) :
    enter d' .existing follow' here steps = .ok l := by
  induction steps generalizing here with
  | nil => exact hfound
  | cons step rest ih =>
    rcases enter_cons_cases hfound with ⟨rfl, hfound⟩ | ⟨rfl, hfound⟩ | ⟨hs, ⟨e, he, hdir, hfound⟩ |
      ⟨e, he, hleaf, rfl, rfl⟩ | ⟨target, he, hfound⟩⟩
    · rw [enter_dot]
      exact ih _ hfound
    · rw [enter_up]
      exact ih _ hfound
    · have hkept := h.of_not_isLeaf he (Bool.eq_false_iff.2 fun hleaf => by
        simp [Entry.isDirectory_of_isLeaf hleaf] at hdir)
      rw [enter_directory hs hkept hdir]
      exact ih _ hfound
    · simp [he, Entry.isDirectory_of_isLeaf hleaf] at hl
    · rw [enter_link hs (h.of_not_isLeaf he rfl)]
      exact hfollow _ _ hfound

theorem resolve_sameRecords (h : d.SameRecords d') (hl : (d.get? l).any Entry.isDirectory)
    (links : Nat) (here : Location) (steps : List String)
    (hfound : resolve d .existing links here steps = .ok l) :
    resolve d' .existing links here steps = .ok l := by
  induction links generalizing here steps with
  | zero => exact enter_sameRecords h hl (by simp) _ _ hfound
  | succ links ih => exact enter_sameRecords h hl ih _ _ hfound

end Steps

theorem locate_sameRecords (h : d.SameRecords d') (hfound : d.locate cwd p = .ok l)
    (hl : (d.get? l).any Entry.isDirectory) : d'.locate cwd p = .ok l := by
  unfold locate at hfound ⊢
  cases hc : checkPath p with
  | error cause => rw [hc] at hfound; cases hfound
  | ok _ =>
    rw [hc] at hfound
    exact resolve_sameRecords h hl _ _ _ hfound

theorem HasBelow.sameRecords (h : d.HasBelow cwd p names bytes) (hd : d.IsTree)
    (hsame : d.SameRecords d') (hrecord : (Update.parse bytes).toOption.isSome) :
    d'.HasBelow cwd p names bytes := by
  obtain ⟨hne, l, hl, hfile⟩ := h
  exact ⟨hne, l, locate_sameRecords hsame hl (hd.isDirectory_of_below hne hfile),
    hsame.of_record hfile hrecord⟩

/-! ### The states of a queue -/

/-- What lies below a directory that holds states alone lies below one of them. -/
theorem hasBelow_cons_iff (hd : d.IsTree) (hl : d.locate cwd p = .ok l)
    (hdir : (d.get? l).any Entry.isDirectory)
    (hstates : ∀ n e, d.get? (l ++ [n]) = some e → IsState n ∧ e.isDirectory) {n : String} :
    d.HasBelow cwd p (n :: names) bytes ∧ (p.below (n :: names)).isTooLong = false ↔
      IsState n ∧ d.HasBelow cwd (p.join n) names bytes ∧
        ((p.join n).below names).isTooLong = false := by
  have hleads := leads_of_locate hl hdir
  rw [Path.below_cons]
  constructor
  · rintro ⟨⟨-, k, hk, hfile⟩, hshort⟩
    obtain rfl : k = l := Except.ok.inj (hk.symm.trans hl)
    have hne : names ≠ [] := by
      rintro rfl
      cases (hstates n _ hfile).2
    rw [List.append_cons] at hfile
    obtain ⟨hn, x, hx, hxdir, -⟩ := (hd.isTreeBelow _).of_below hne hfile
    have hlocate := hleads.locate_join hn hx (by rintro target rfl; cases hxdir)
    rw [if_neg] at hlocate
    · exact ⟨(hstates n x hx).1, ⟨hne, _, hlocate, hfile⟩, hshort⟩
    · intro hlong
      rw [Path.isTooLong_below (hd.isPlain_of_mem hfile) hlong] at hshort
      cases hshort
  · rintro ⟨hn, hbelow, hshort⟩
    obtain ⟨hne, k, hk, hfile⟩ := hbelow
    have hthere := IsLinkless.isDirectory_located hk (hd.isDirectory_of_below hne hfile)
    obtain ⟨x, hx⟩ : ∃ x, d.get? (l ++ [n]) = some x := by
      rw [← Option.ne_none_iff_exists']
      intro hnone
      rw [hleads.isDirectory_join_missing hn.isPlain hnone] at hthere
      cases hthere
    have hlocate := hleads.locate_join hn.isPlain hx (by
      rintro target rfl
      cases (hstates n _ hx).2)
    rw [hk] at hlocate
    split at hlocate
    · cases hlocate
    · obtain rfl := Except.ok.inj hlocate
      exact ⟨⟨by simp, l, hl, by rwa [List.append_cons]⟩, hshort⟩

/-- The files below a state, by their names from the directory of the states on. -/
def under (state : String) (found : List (Location × Bytes)) : List (Location × Bytes) :=
  found.map fun file => (state :: file.1, file.2)

theorem mem_under {state n : String} {found : List (Location × Bytes)} :
    (n :: names, bytes) ∈ under state found ↔ n = state ∧ (names, bytes) ∈ found := by
  simp only [under, List.mem_map, Prod.mk.injEq, List.cons.injEq, Prod.exists]
  constructor
  · rintro ⟨_, _, hmem, ⟨rfl, rfl⟩, rfl⟩
    exact ⟨rfl, hmem⟩
  · rintro ⟨rfl, hmem⟩
    exact ⟨_, _, hmem, ⟨rfl, rfl⟩, rfl⟩

theorem nil_not_mem_under {state : String} {found : List (Location × Bytes)} :
    ([], bytes) ∉ under state found := by
  simp [under]

theorem sorted_under {state : String} {found : List (Location × Bytes)}
    (h : found.Pairwise Precedes) : (under state found).Pairwise Precedes := by
  unfold under
  rw [List.pairwise_map]
  exact h.imp fun hlt => List.cons_lt_cons_iff.2 (.inr ⟨rfl, hlt⟩)

theorem precedes_under {state later : String} (hlt : state < later)
    {found found' : List (Location × Bytes)} :
    ∀ a ∈ under state found, ∀ b ∈ under later found', Precedes a b := by
  intro a ha b hb
  obtain ⟨_, -, rfl⟩ := List.mem_map.1 ha
  obtain ⟨_, -, rfl⟩ := List.mem_map.1 hb
  exact List.cons_lt_cons_iff.2 (.inl (Utf8.encode_lt_encode.2 hlt))

/-- The files below a directory that holds states alone are those below the states, one state after
the other. -/
theorem Lists.eq_append {building running waiting found : List (Location × Bytes)}
    (hd : d.IsTree) (hl : d.locate cwd p = .ok l) (hdir : (d.get? l).any Entry.isDirectory)
    (hstates : ∀ n e, d.get? (l ++ [n]) = some e → IsState n ∧ e.isDirectory)
    (h : d.Lists cwd p found) (hb : d.Lists cwd (p.join "building") building)
    (hr : d.Lists cwd (p.join "running") running) (hw : d.Lists cwd (p.join "waiting") waiting) :
    found = under "building" building ++ under "running" running ++ under "waiting" waiting := by
  have hsorted : (under "building" building ++ under "running" running ++
      under "waiting" waiting).Pairwise Precedes := by
    rw [List.pairwise_append, List.pairwise_append]
    refine ⟨⟨sorted_under hb.sorted, sorted_under hr.sorted, precedes_under (by decide)⟩,
      sorted_under hw.sorted, fun a ha => ?_⟩
    rcases List.mem_append.1 ha with ha | ha
    · exact precedes_under (by decide) a ha
    · exact precedes_under (by decide) a ha
  refine h.sorted.eq_of_mem_iff hsorted ?_
  rintro ⟨names, bytes⟩
  rw [h.mem, List.mem_append, List.mem_append]
  cases names with
  | nil => simp [nil_not_mem_under, HasBelow]
  | cons n names =>
    rw [hasBelow_cons_iff hd hl hdir hstates, mem_under, mem_under, mem_under, hb.mem, hr.mem,
      hw.mem]
    constructor
    · rintro ⟨rfl | rfl | rfl, hbelow⟩
      · exact .inl (.inl ⟨rfl, hbelow⟩)
      · exact .inl (.inr ⟨rfl, hbelow⟩)
      · exact .inr ⟨rfl, hbelow⟩
    · rintro ((⟨rfl, hbelow⟩ | ⟨rfl, hbelow⟩) | ⟨rfl, hbelow⟩)
      · exact ⟨.inl rfl, hbelow⟩
      · exact ⟨.inr (.inl rfl), hbelow⟩
      · exact ⟨.inr (.inr rfl), hbelow⟩

/-- What is taken of two lists in order is the same if the same files are taken. -/
theorem filterMap_eq_of_mem {α : Type} {f : Location × Bytes → Option α}
    {found found' : List (Location × Bytes)} (h : found.Pairwise Precedes)
    (h' : found'.Pairwise Precedes)
    (hmem : ∀ file, (f file).isSome → (file ∈ found ↔ file ∈ found')) :
    found.filterMap f = found'.filterMap f := by
  have hfilter : ∀ files : List (Location × Bytes),
      files.filterMap f = (files.filter fun file => (f file).isSome).filterMap f := by
    intro files
    rw [List.filterMap_filter]
    refine List.filterMap_congr fun file _ => ?_
    cases f file <;> rfl
  rw [hfilter found, hfilter found', (h.filter _).eq_of_mem_iff (h'.filter _) fun file => ?_]
  rw [List.mem_filter, List.mem_filter]
  exact and_congr_left fun hsome => hmem file hsome

end Disk

/-! ### Listings -/

namespace Store

open Disk Plan

variable (store : Store) {s s' : System} {p : Path} {dir : Location}
  {listing : Plan (List Update)}

/-- The events directory is there, or its path has no two dots in it. -/
def HasEvents (store : Store) (s : System) : Prop :=
  store.layout.events.IsForward ∨ s.disk.isDirectory s.cwd store.layout.events = true

/-- The names of a directory of the queue that is listed: none, or a state. -/
def IsListed (dir : Location) : Prop :=
  dir = [] ∨ ∃ state, IsState state ∧ dir = [state]

/-- The listings, each with the names of its directory. -/
def namedListings : List (Location × Plan (List Update)) :=
  [([], store.list), (["building"], store.listBuilding), (["running"], store.listRunning),
    (["waiting"], store.listWaiting)]

variable {store}

theorem isListed_of_mem (hmem : (dir, listing) ∈ store.namedListings) :
    IsListed dir ∧ listing = store.listBelow (store.layout.directoryAt dir) := by
  simp only [namedListings, List.mem_cons, Prod.mk.injEq, List.not_mem_nil, or_false] at hmem
  rcases hmem with ⟨rfl, rfl⟩ | ⟨rfl, rfl⟩ | ⟨rfl, rfl⟩ | ⟨rfl, rfl⟩
  · exact ⟨.inl rfl, rfl⟩
  · exact ⟨.inr ⟨_, .inl rfl, rfl⟩, rfl⟩
  · exact ⟨.inr ⟨_, .inr (.inl rfl), rfl⟩, rfl⟩
  · exact ⟨.inr ⟨_, .inr (.inr rfl), rfl⟩, rfl⟩

theorem IsListed.isPlain (h : IsListed dir) : ∀ n ∈ dir, IsPlain n := by
  rcases h with rfl | ⟨state, hstate, rfl⟩
  · simp
  · intro n hn
    rw [List.mem_singleton.1 hn]
    exact hstate.isPlain

theorem IsListed.text_ne_empty (h : IsListed dir) (layout : Layout) :
    (layout.directoryAt dir).text ≠ "" := by
  rcases h with rfl | ⟨state, hstate, rfl⟩
  · exact Path.text_join_ne_empty layout.events isPlain_refUpdates
  · exact Path.text_join_ne_empty layout.refUpdates hstate.isPlain

theorem HasEvents.leadsAfresh (h : store.HasEvents s) (hd : s.disk.IsTree) (hdir : IsListed dir) :
    s.disk.LeadsAfresh s.cwd (store.layout.directoryAt dir) := by
  have hroot : s.disk.LeadsAfresh s.cwd store.layout.refUpdates := by
    rcases h with hforward | hevents
    · exact .of_forward hd (Layout.isForward_refUpdates hforward)
    · exact .join_of_isDirectory hevents isPlain_refUpdates
  rcases hdir with rfl | ⟨state, hstate, rfl⟩
  · exact hroot
  · exact hroot.join hd isPlain_refUpdates hstate.isPlain

/-- A listing tells the records among the files that a walk comes upon and that can be looked up.
What it notes is about these files, about paths that are too long, or about a directory that it
could not make. -/
theorem run_listBelow_exact (store : Store) (hd : s.disk.IsTree) (hp : p.text ≠ "")
    (hfresh : s.disk.LeadsAfresh s.cwd p) :
    ∃ walked notes, s.disk.Walks s.cwd p walked ∧
      (∀ event ∈ notes, event.StaysClosed ∨ ∃ error, event = .notListed error) ∧
      ((store.listBelow p).run s).1 =
        (walked.filter (IsInReach p)).filterMap (fun file => (Update.parse file.2).toOption) ∧
      ((store.listBelow p).run s).2.log = s.log ++ (notes ++ walked.filterMap (unreadBelow? p)) ++
        (walked.filter (IsInReach p)).filterMap fun file =>
          store.skipped? (p.below file.1, file.2) := by
  by_cases h : ∃ d, Ensures s.cwd (p.text.length + 2) s.disk p d
  · obtain ⟨d, h⟩ := h
    obtain ⟨l, closed, hl, hclosed, hrun⟩ := store.run_listBelow_found h hd hp
    refine ⟨d.walkedBelow l p, closed, hfresh.walks hd h (walks_walkedBelow hl),
      fun event hevent => .inl (hclosed event hevent), ?_⟩
    rw [hrun]
    exact ⟨rfl, rfl⟩
  · have hfails : ∀ d, ¬Ensures s.cwd (p.text.length + 2) s.disk p d := fun d hd => h ⟨d, hd⟩
    obtain ⟨error, s', hrun⟩ := Files.run_ensureDirectory_fails hfails
    obtain ⟨events, hlog, rfl⟩ := Files.isSilent_ensureDirectory p s
    rw [hrun, List.append_nil] at hlog
    refine ⟨[], [.notListed error], walks_nil_of_fails hd hp hfails, by simp, ?_⟩
    rw [listBelow, run_bind, hrun]
    refine ⟨rfl, ?_⟩
    show s'.log ++ [Event.notListed error] = s.log ++ ([Event.notListed error] ++ []) ++ []
    rw [hlog, List.append_nil, List.append_nil]

/-- A listing tells the records among the files below its path. -/
theorem run_listBelow_lists (store : Store) (hd : s.disk.IsTree) (hp : p.text ≠ "")
    (hfresh : s.disk.LeadsAfresh s.cwd p) :
    ∃ found, s.disk.Lists s.cwd p found ∧ ((store.listBelow p).run s).1 =
      found.filterMap fun file => (Update.parse file.2).toOption := by
  obtain ⟨walked, -, hwalks, -, hrun, -⟩ := store.run_listBelow_exact hd hp hfresh
  exact ⟨_, hwalks.lists hd, hrun⟩

/-- A listing does not depend on the files that hold no record. -/
theorem listBelow_sameRecords (hd : s.disk.IsTree) (hd' : s'.disk.IsTree)
    (hfresh : s.disk.LeadsAfresh s.cwd p) (hfresh' : s'.disk.LeadsAfresh s'.cwd p)
    (hp : p.text ≠ "") (hcwd : s'.cwd = s.cwd) (hsame : s.disk.SameRecords s'.disk) :
    ((store.listBelow p).run s').1 = ((store.listBelow p).run s).1 := by
  obtain ⟨found, hlists, hrun⟩ := store.run_listBelow_lists hd hp hfresh
  obtain ⟨found', hlists', hrun'⟩ := store.run_listBelow_lists hd' hp hfresh'
  rw [hrun, hrun']
  refine filterMap_eq_of_mem hlists'.sorted hlists.sorted ?_
  rintro ⟨names, bytes⟩ hrecord
  rw [hlists'.mem, hlists.mem, hcwd]
  exact and_congr_left fun _ => ⟨fun h => h.sameRecords hd' hsame.symm hrecord,
    fun h => h.sameRecords hd hsame hrecord⟩

/-- The records of the whole queue are those of its states, one state after the other. -/
theorem list_eq_append (hd : s.disk.IsTree) (h : store.HasEvents s) {root : Location}
    (hl : s.disk.locate s.cwd store.layout.refUpdates = .ok root)
    (hdir : (s.disk.get? root).any Entry.isDirectory)
    (hstates : ∀ n e, s.disk.get? (root ++ [n]) = some e → IsState n ∧ e.isDirectory) :
    (store.list.run s).1 = (store.listBuilding.run s).1 ++ (store.listRunning.run s).1 ++
      (store.listWaiting.run s).1 := by
  have exact : ∀ dir, IsListed dir → ∃ found,
      s.disk.Lists s.cwd (store.layout.directoryAt dir) found ∧
        ((store.listBelow (store.layout.directoryAt dir)).run s).1 =
          found.filterMap fun file => (Update.parse file.2).toOption :=
    fun dir hdir => store.run_listBelow_lists hd (hdir.text_ne_empty _) (h.leadsAfresh hd hdir)
  obtain ⟨all, hall, hlist⟩ := exact [] (.inl rfl)
  obtain ⟨building, hb, hbuilding⟩ := exact ["building"] (.inr ⟨_, .inl rfl, rfl⟩)
  obtain ⟨running, hr, hrunning⟩ := exact ["running"] (.inr ⟨_, .inr (.inl rfl), rfl⟩)
  obtain ⟨waiting, hw, hwaiting⟩ := exact ["waiting"] (.inr ⟨_, .inr (.inr rfl), rfl⟩)
  rw [Layout.directoryAt_nil] at hall hlist
  rw [Layout.directoryAt_singleton] at hb hr hw hbuilding hrunning hwaiting
  rw [list, listBuilding, listRunning, listWaiting, Layout.building, Layout.running, Layout.waiting,
    hlist, hbuilding, hrunning, hwaiting, hall.eq_append hd hl hdir hstates hb hr hw,
    List.filterMap_append, List.filterMap_append]
  simp only [under, List.filterMap_map]
  rfl

/-- A listing makes the directories on the way of its path, and none if that leads to one. -/
theorem run_listBelow_makes (store : Store) (p : Path) (s : System) :
    s.disk.Makes ((store.listBelow p).run s).2.disk s.cwd p ∧
      (s.disk.isDirectory s.cwd p = true → ((store.listBelow p).run s).2.disk = s.disk) := by
  obtain ⟨r, d, hrun, hmakes⟩ := Files.run_ensureDirectory_makes p s
  have hdisk : ((store.listBelow p).run s).2.disk = d := by
    rw [listBelow, run_bind, hrun]
    cases r with
    | error error => rfl
    | ok _ => simp only [run_bind, Files.run_list, run_readRecords]
  rw [hdisk]
  refine ⟨hmakes, fun hdir => ?_⟩
  have hensures : Ensures s.cwd (p.text.length + 2) s.disk p s.disk := by
    by_cases hempty : p.text = ""
    · exact .working hempty
    · exact .stands hempty (makeDirectory_of_isDirectory hdir) (by simp) hdir
  rw [Files.run_ensureDirectory_of_ensures hensures] at hrun
  exact (congrArg (·.2.disk) hrun).symm

/-- What the listing of a directory comes to. -/
structure ListsExactly (store : Store) (s : System) (dir : Location)
    (listing : Plan (List Update)) : Prop where
  /-- The records among the files below, each file once, in the order of the bytes of the names. -/
  records : ∃ found, s.disk.Lists s.cwd (store.layout.directoryAt dir) found ∧
    (listing.run s).1 = found.filterMap fun file => (Update.parse file.2).toOption
  /-- Files that hold no record can come, go and change. -/
  others : ∀ s' : System, s'.disk.IsTree → s'.cwd = s.cwd → store.HasEvents s' →
    s.disk.SameRecords s'.disk → (listing.run s').1 = (listing.run s).1
  /-- Directories are made on the way of the path, where nothing was. -/
  makes : s.disk.Makes (listing.run s).2.disk s.cwd (store.layout.directoryAt dir)
  still : s.disk.isDirectory s.cwd (store.layout.directoryAt dir) = true →
    (listing.run s).2.disk = s.disk

theorem listsExactly (hd : s.disk.IsTree) (h : store.HasEvents s) (hdir : IsListed dir) :
    store.ListsExactly s dir (store.listBelow (store.layout.directoryAt dir)) := by
  have hempty := hdir.text_ne_empty store.layout
  have hfresh := h.leadsAfresh hd hdir
  obtain ⟨hmakes, hstill⟩ := run_listBelow_makes store (store.layout.directoryAt dir) s
  exact {
    records := store.run_listBelow_lists hd hempty hfresh
    others := fun s' hd' hcwd h' hsame =>
      listBelow_sameRecords hd hd' hfresh (h'.leadsAfresh hd' hdir) hempty hcwd hsame
    makes := hmakes
    still := hstill }

end Store

/-! ### Paths that are too long -/

/-- A disk with a queue below its root, in which one file is in the making. -/
def oneBuilding (bytes : Bytes) : Disk :=
  ((Disk.blank.put ["ref-updates"] .directory).put ["ref-updates", "building"] .directory).put
    ["ref-updates", "building", "x"] (.file bytes)

namespace OneBuilding

open Disk

/-- The queue's store, by a path of its events directory that stays where it is for `n` steps. -/
def store (n : Nat) : Store :=
  ⟨Site.layoutHere n .flat, false⟩

def system (bytes : Bytes) : System :=
  { Session.blank.system with disk := oneBuilding bytes }

theorem isLinkless (bytes : Bytes) : (oneBuilding bytes).IsLinkless := by
  have hroot := isLinkless_blank.put_directory isPlain_refUpdates (l := []) rfl rfl
  have hbuilding := hroot.put_directory (l := ["ref-updates"]) (IsState.isPlain (.inl rfl)) rfl rfl
  exact hbuilding.put_file (l := ["ref-updates", "building"]) isPlain_x rfl rfl bytes

theorem isTree (bytes : Bytes) : (oneBuilding bytes).IsTree :=
  (isLinkless bytes).toIsTree

variable {n : Nat}

theorem locate_events (bytes : Bytes) (h : 2 * n + 22 ≤ maxPathBytes) :
    (oneBuilding bytes).locate [] (store n).layout.events = .ok [] :=
  locate_here _ (by omega)

theorem isTooLong_building (h : 2 * n + 22 ≤ maxPathBytes) :
    (store n).layout.building.isTooLong = false := by
  unfold Path.isTooLong
  rw [Layout.utf8ByteSize_building, store, Site.utf8ByteSize_refUpdates_here,
    decide_eq_false_iff_not]
  omega

theorem locate_building (bytes : Bytes) (h : 2 * n + 22 ≤ maxPathBytes) :
    (oneBuilding bytes).locate [] (store n).layout.building = .ok ["ref-updates", "building"] := by
  have hevents := leads_of_locate (locate_events bytes h) rfl
  have hroot := hevents.join isPlain_refUpdates (e := .directory) rfl rfl
  rw [Layout.building, Layout.refUpdates, hroot.locate_join (IsState.isPlain (.inl rfl))
    (e := .directory) rfl (by simp), if_neg]
  · rfl
  · exact Bool.eq_false_iff.1 (isTooLong_building h)

/-- A path that is long enough has room for the directory, but not for the file. -/
theorem isTooLong_file :
    ((store n).layout.building.join "x").isTooLong = decide (maxPathBytes < 2 * n + 24) := by
  unfold Path.isTooLong
  rw [Layout.utf8ByteSize_join_building _ isPlain_x, store, Site.utf8ByteSize_refUpdates_here,
    decide_eq_decide]
  show _ < _ + 1 ↔ _
  omega

/-- The file is found, but it cannot be read. -/
theorem run_list_long (bytes : Bytes) (h : 2 * n + 22 ≤ maxPathBytes)
    (h' : maxPathBytes < 2 * n + 24) :
    (Files.list (store n).layout.building).run (system bytes) = ([], { system bytes with
      log := [.notRead ((store n).layout.building.join "x") .nameTooLong] }) := by
  have hl := locate_building bytes h
  have hpaths : (oneBuilding bytes).pathsBelow (oneBuilding bytes).depth
      ["ref-updates", "building"] (store n).layout.building =
        [((store n).layout.building.join "x", .file bytes)] := by
    have hbelow : (oneBuilding bytes).subtree ["ref-updates", "building"] =
      [([], .directory), (["x"], .file bytes)] := rfl
    rw [pathsBelow_eq ((isTree bytes).isTreeBelow _), hbelow]
    simp [IsWalked, Path.below, isTooLong_building h]
  have hwalk : (system bytes).disk.walk (system bytes).cwd (store n).layout.building =
      ⟨[(store n).layout.building.join "x"], []⟩ := by
    refine (walk_of_locate hl rfl).trans ((if_pos rfl).trans ?_)
    rw [hpaths]
    rfl
  have hcontents : (system bytes).disk.contents (system bytes).cwd
      ((store n).layout.building.join "x") = .error .nameTooLong := by
    have hbelow : (oneBuilding bytes).contents [] ((store n).layout.building.below ["x"]) = _ :=
      contents_below (isTree bytes) (leads_of_locate hl rfl) (by simp) rfl
    rw [Path.below_cons, Path.below_nil, isTooLong_file, if_pos (decide_eq_true h')] at hbelow
    exact hbelow
  rw [Files.run_list, hwalk]
  simp only [List.filterMap_cons, List.filterMap_nil, readable?, unread?, hcontents]
  rfl

theorem run_listBuilding_long (bytes : Bytes) (h : 2 * n + 22 ≤ maxPathBytes)
    (h' : maxPathBytes < 2 * n + 24) :
    (store n).listBuilding.run (system bytes) = ([], { system bytes with
      log := [.notRead ((store n).layout.building.join "x") .nameTooLong] }) := by
  have hempty : (store n).layout.building.text ≠ "" :=
    Path.text_join_ne_empty _ (IsState.isPlain (.inl rfl))
  have hthere : (system bytes).disk.isDirectory (system bytes).cwd
      (store n).layout.building = true :=
    IsLinkless.isDirectory_located (locate_building bytes h) rfl
  have hstands := Files.run_ensureDirectory_of_ensures
    (.stands hempty (makeDirectory_of_isDirectory hthere) (by simp) hthere)
  rw [Store.listBuilding, Store.listBelow, Plan.run_bind, hstands]
  simp only [Plan.run_bind, run_list_long bytes h h']
  rfl

end OneBuilding

namespace Store

open OneBuilding

end Store

end ReplicationQueue
