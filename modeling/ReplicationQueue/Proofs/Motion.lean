import ReplicationQueue.Proofs.Spelling

/-! Moving and removing what a path spells, in trees without links. A call that succeeds did to the
entry at that location what it was asked for; one that finds nothing was asked about a location
where nothing is. -/

namespace ReplicationQueue

attribute [local irreducible] Path.isTooLong

namespace Disk

variable {d d' : Disk} {cwd l : Location} {p q : Path} {m n : String}

theorem get?_below_of_hasChildren (h : d.hasChildren l = false) (k : String) (rest : Location) :
    d.get? (l ++ k :: rest) = none := by
  rw [Option.eq_none_iff_forall_ne_some]
  intro e he
  rw [← mem_entries_iff] at he
  have hnone := List.any_eq_false.1 h _ he
  simp at hnone

/-- What another entry may take the place of has nothing below it. -/
theorem IsLinkless.get?_below_of_checkReplace (hd : d.IsLinkless) {e : Entry}
    (h : d.checkReplace e l = .ok ()) (k : String) (rest : Location) :
    d.get? (l ++ k :: rest) = none := by
  unfold checkReplace at h
  cases hold : d.get? l with
  | none => exact hd.get?_below hold _
  | some old =>
    rw [hold] at h
    simp only at h
    by_cases hdir : old.isDirectory
    · split at h
      · cases h
      · cases h
      · rename_i hno
        rw [hno] at hdir
        cases hdir
      · split at h
        · cases h
        · split at h
          · cases h
          · rename_i hchildren
            exact get?_below_of_hasChildren (by simpa using hchildren) k rest
    · exact hd.get?_below_leaf hold (by simpa using hdir) k rest

theorem checkReplace_ne_notFound (d : Disk) (e : Entry) (l : Location) :
    d.checkReplace e l ≠ .error .notFound := by
  unfold checkReplace
  repeat' split
  all_goals simp

/-- The entry and all that is below it were moved, instead of an entry with nothing below it. -/
structure Moved (d d' : Disk) (source target : Location) : Prop where
  there : (d.get? source).isSome
  apart : ¬source <+: target ∧ ¬target <+: source
  lone : ∀ k rest, d.get? (target ++ k :: rest) = none
  eq_moveTree : d' = d.moveTree source target

namespace Moved

variable {source target : Location}

theorem get?_target (h : d.Moved d' source target) (names : Location) :
    d'.get? (target ++ names) = d.get? (source ++ names) := by
  rw [h.eq_moveTree, get?_moveTree_target]

theorem get?_source (h : d.Moved d' source target) (names : Location) :
    d'.get? (source ++ names) = none := by
  by_cases hdeep : target <+: source ++ names
  · -- The target would lie in the source, or the source in the target.
    rcases List.prefix_or_prefix_of_prefix hdeep (List.prefix_append source names) with hp | hp
    · exact absurd hp h.apart.2
    · exact absurd hp h.apart.1
  · rw [h.eq_moveTree, get?_moveTree_of_not_isPrefix d hdeep, if_pos (by simp)]

theorem get?_other (h : d.Moved d' source target) (hsource : ¬source <+: l)
    (htarget : ¬target <+: l) : d'.get? l = d.get? l := by
  rw [h.eq_moveTree, get?_moveTree_of_not_isPrefix d htarget, if_neg (by simpa using hsource)]

/-- Where something is after a move, and where it was before. -/
theorem cases (h : d.Moved d' source target) {e : Entry} (he : d'.get? l = some e) :
    (∃ names, l = target ++ names ∧ d.get? (source ++ names) = some e) ∨
      ¬source <+: l ∧ ¬target <+: l ∧ d.get? l = some e := by
  by_cases htarget : target <+: l
  · obtain ⟨names, rfl⟩ := htarget
    rw [h.get?_target] at he
    exact .inl ⟨names, rfl, he⟩
  · by_cases hsource : source <+: l
    · obtain ⟨names, rfl⟩ := hsource
      rw [h.get?_source] at he
      cases he
    · rw [h.get?_other hsource htarget] at he
      exact .inr ⟨hsource, htarget, he⟩

/-- A tree is one after a move into a directory that takes new entries. -/
theorem isLinkless {k k' : Location} (h : d.Moved d' (k ++ [n]) (k' ++ [m])) (hd : d.IsLinkless)
    (hn : IsPlain n) (hm : IsPlain m) (hopen : (d.get? k').any Entry.isOpen) : d'.IsLinkless := by
  have hhome : d'.get? k' = d.get? k' :=
    h.get?_other (fun hp => h.apart.1 (hp.trans (List.prefix_append _ _)))
      fun hp => absurd hp.length_le (by simp)
  refine ⟨⟨fun l a e he => ?_, fun l a e he => ?_⟩, fun l target he => ?_, fun l a he => ?_⟩
  · rcases h.cases he with ⟨names, hl, hbefore⟩ | ⟨hsource, htarget, hbefore⟩
    · rcases List.eq_nil_or_concat names with rfl | ⟨front, last, rfl⟩
      · -- The entry that was moved lies in the directory that it was moved to.
        rw [List.append_nil] at hl
        obtain ⟨rfl, -⟩ := List.append_inj' hl rfl
        rw [hhome]
        cases hget : d.get? l with
        | none => simp [hget] at hopen
        | some x => cases x <;> simp_all [Entry.isOpen]
      · rw [List.concat_eq_append, ← List.append_assoc] at hl hbefore
        obtain ⟨rfl, -⟩ := List.append_inj' hl rfl
        rw [h.get?_target]
        exact hd.inside _ _ _ hbefore
    · rw [h.get?_other (fun hp => hsource (hp.trans (List.prefix_append _ _)))
        fun hp => htarget (hp.trans (List.prefix_append _ _))]
      exact hd.inside _ _ _ hbefore
  · rcases h.cases he with ⟨names, hl, hbefore⟩ | ⟨-, -, hbefore⟩
    · rcases List.eq_nil_or_concat names with rfl | ⟨front, last, rfl⟩
      · rw [List.append_nil] at hl
        obtain ⟨-, ha⟩ := List.append_inj' hl rfl
        cases ha
        exact .inl hm
      · rw [List.concat_eq_append, ← List.append_assoc] at hl hbefore
        obtain ⟨-, ha⟩ := List.append_inj' hl rfl
        cases ha
        exact hd.plain _ _ _ hbefore
    · exact hd.plain _ _ _ hbefore
  · rcases h.cases he with ⟨names, -, hbefore⟩ | ⟨-, -, hbefore⟩
    · exact hd.linkless _ _ hbefore
    · exact hd.linkless _ _ hbefore
  · rcases h.cases he with ⟨names, hl, hbefore⟩ | ⟨-, -, hbefore⟩
    · rcases List.eq_nil_or_concat names with rfl | ⟨front, last, rfl⟩
      · rw [List.append_nil] at hbefore
        have hempty := hd.nameless _ _ hbefore
        exact absurd hempty (by simpa using hn.ne_nil)
      · rw [List.concat_eq_append, ← List.append_assoc] at hl hbefore
        obtain ⟨-, ha⟩ := List.append_inj' hl rfl
        cases ha
        exact hd.nameless _ _ hbefore
    · exact hd.nameless _ _ hbefore

end Moved

theorem IsLinkless.erase (hd : d.IsLinkless) {x : Entry} (hl : d.get? l = some x)
    (hleaf : x.isDirectory = false) : (d.erase l).IsLinkless := by
  have before : ∀ {k e}, (d.erase l).get? k = some e → d.get? k = some e := by
    intro k e he
    rw [get?_erase] at he
    split at he
    · cases he
    · exact he
  refine ⟨⟨fun k n e he => ?_, fun k n e he => hd.plain k n e (before he)⟩,
    fun k target he => hd.linkless k target (before he), fun k n he => hd.nameless k n (before he)⟩
  have hinside := hd.inside k n e (before he)
  have hne : k ≠ l := by
    rintro rfl
    rw [hl] at hinside
    rcases hinside with hdir | ⟨isSealed, hdir⟩ <;> cases hdir <;> cases hleaf
  rwa [get?_erase, if_neg hne]

section Named

variable (hd : d.IsLinkless) (hp : p.IsForward) (hempty : p.text ≠ "") (hn : IsPlain n)

include hd hp hempty hn

theorem IsLinkless.remove_forward (h : d.remove cwd (p.join n) = .ok d') :
    checkPath (p.join n) = .ok () ∧ d' = d.erase (p.spelled cwd ++ [n]) ∧
      ∃ e, d.get? (p.spelled cwd ++ [n]) = some e ∧ e.isDirectory = false := by
  unfold remove at h
  cases hslot : d.slot cwd (p.join n) with
  | error cause => rw [hslot] at h; cases h
  | ok slot =>
    obtain ⟨hc, rfl⟩ := hd.slot_join_forward hp hempty hn hslot
    rw [hslot] at h
    simp only [bind, Except.bind] at h
    split at h
    · cases h
    · cases h
    · cases h
    · cases h
    · rename_i e hdir hmount hremoved he
      cases h
      refine ⟨hc, rfl, e, he, ?_⟩
      cases e <;> simp_all [Entry.isDirectory]

theorem IsLinkless.remove_notFound_forward (h : d.remove cwd (p.join n) = .error .notFound) :
    d.get? (p.spelled cwd ++ [n]) = none := by
  rw [Option.eq_none_iff_forall_ne_some]
  intro e he
  cases hc : checkPath (p.join n) with
  | error cause =>
    unfold remove at h
    rw [slot_refused d cwd hc] at h
    cases h
    exact checkPath_ne_notFound (Path.text_join_ne_empty p hn) hc
  | ok _ =>
    have hnull := (checkPath_eq_ok.1 hc).1
    rw [(hd.leads_of_below hp hempty (Path.null_of_join hn hnull) he).remove_join hn, he] at h
    split at h
    · cases h
    · simp only at h
      split at h <;> cases h

variable (hq : q.IsForward) (hempty' : q.text ≠ "") (hm : IsPlain m)

include hq hempty' hm

theorem IsLinkless.rename_forward (hne : p.spelled cwd ++ [n] ≠ q.spelled cwd ++ [m])
    (h : d.rename cwd (p.join n) (q.join m) = .ok d') :
    checkPath (p.join n) = .ok () ∧ checkPath (q.join m) = .ok () ∧
      (d.get? (q.spelled cwd)).any Entry.isOpen ∧
        d.Moved d' (p.spelled cwd ++ [n]) (q.spelled cwd ++ [m]) := by
  unfold rename at h
  cases hnull : checkNull (p.join n) with
  | error cause => rw [hnull] at h; cases h
  | ok _ =>
  cases hnull' : checkNull (q.join m) with
  | error cause => rw [hnull, hnull'] at h; cases h
  | ok _ =>
  cases hslot : d.slot cwd (p.join n) with
  | error cause => rw [hnull, hnull', hslot] at h; cases h
  | ok first =>
  cases hslot' : d.slot cwd (q.join m) with
  | error cause => rw [hnull, hnull', hslot, hslot'] at h; cases h
  | ok second =>
    obtain ⟨hc, rfl⟩ := hd.slot_join_forward hp hempty hn hslot
    obtain ⟨hc', rfl⟩ := hd.slot_join_forward hq hempty' hm hslot'
    rw [hnull, hnull', hslot, hslot'] at h
    simp only [bind, Except.bind] at h
    refine ⟨hc, hc', ?_⟩
    split at h
    · cases h
    · split at h
      · cases h
      · rename_i e he
        -- Of the branches that are left only the last one answers with a disk.
        repeat' split at h
        all_goals cases h
        rename_i hadmits _ hbelow habove _ _ _ hreplace
        have hopen : (d.get? (q.spelled cwd)).any Entry.isOpen := by
          rw [admits] at hadmits
          simp_all
        exact ⟨hopen, by rw [he]; rfl, ⟨by simpa using hbelow, by simpa using habove⟩,
          hd.get?_below_of_checkReplace hreplace, rfl⟩

theorem IsLinkless.rename_notFound_forward (htarget : (d.get? (q.spelled cwd)).any Entry.isDirectory)
    (hopen : d.volume (p.spelled cwd) = d.volume (q.spelled cwd) →
      (d.get? (q.spelled cwd)).any Entry.isOpen)
    (h : d.rename cwd (p.join n) (q.join m) = .error .notFound) :
    checkPath (p.join n) = .ok () ∧ d.get? (p.spelled cwd ++ [n]) = none := by
  unfold rename at h
  cases hnull : checkNull (p.join n) with
  | error cause =>
    obtain rfl := checkNull_eq_error hnull
    rw [hnull] at h
    cases h
  | ok _ =>
  cases hnull' : checkNull (q.join m) with
  | error cause =>
    obtain rfl := checkNull_eq_error hnull'
    rw [hnull, hnull'] at h
    cases h
  | ok _ =>
  cases hc : checkPath (p.join n) with
  | error cause =>
    rw [hnull, hnull', slot_refused d cwd hc] at h
    cases h
    exact absurd hc (checkPath_ne_notFound (Path.text_join_ne_empty p hn))
  | ok _ =>
    refine ⟨rfl, ?_⟩
    rw [Option.eq_none_iff_forall_ne_some]
    intro e he
    have hlong : (p.join n).isTooLong = false := (checkPath_eq_ok.1 hc).2.1
    have hleads := hd.leads_of_below hp hempty (Path.null_of_join hn (checkNull_eq_ok.1 hnull)) he
    have hleads' := hd.leads_spelled hq hempty' (Path.null_of_join hm (checkNull_eq_ok.1 hnull'))
      htarget
    rw [hnull, hnull', hleads.slot_join hn, hleads'.slot_join hm, hlong] at h
    by_cases hlong' : (q.join m).isTooLong
    · rw [if_pos hlong'] at h
      cases h
    by_cases hvolume : d.volume (p.spelled cwd) = d.volume (q.spelled cwd)
    · have hadmits := admits_of_isOpen (hopen hvolume) hm
      simp only [hlong', Bool.false_eq_true, ↓reduceIte, bind, Except.bind, hvolume, he, hadmits,
        ne_eq, not_true_eq_false, Bool.not_true] at h
      have hreplace := checkReplace_ne_notFound d e (q.spelled cwd ++ [m])
      repeat' split at h
      all_goals cases h
      contradiction
    · simp only [hlong', Bool.false_eq_true, ↓reduceIte, bind, Except.bind, hvolume, ne_eq,
        not_false_eq_true] at h
      cases h

end Named

end Disk

end ReplicationQueue
