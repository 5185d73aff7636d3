import Mathlib.Data.Finset.Card
import Mathlib.Data.List.Perm.Basic
import Mathlib.Data.String.Basic
import ReplicationQueue.Proofs.Claimable
import ReplicationQueue.Proofs.Independence

/-! The order of a push's refs does not matter: its transitions are counted alike and leave the same
disk. Where all stores are of one layout it does not matter either how often a ref is named. -/

namespace ReplicationQueue

attribute [local irreducible] Path.isTooLong

/-! ### Distinct refs -/

section Refs

variable {ref other : String} {refs : List String}

theorem mem_insertRef : other ∈ insertRef ref refs ↔ other = ref ∨ other ∈ refs := by
  induction refs with
  | nil => simp [insertRef]
  | cons r rest ih =>
    rw [insertRef]
    split
    · simp
    · split
      · rename_i heq
        simp [heq]
      · rw [List.mem_cons, ih, List.mem_cons, or_left_comm]

theorem sorted_insertRef (h : refs.Pairwise (· < ·)) : (insertRef ref refs).Pairwise (· < ·) := by
  induction refs with
  | nil => exact List.pairwise_singleton ..
  | cons r rest ih =>
    obtain ⟨hr, hrest⟩ := List.pairwise_cons.1 h
    rw [insertRef]
    split
    · rename_i hlt
      refine List.pairwise_cons.2 ⟨fun x hx => ?_, h⟩
      rcases List.mem_cons.1 hx with rfl | hx
      · exact hlt
      · exact String.lt_trans hlt (hr x hx)
    · rename_i hnlt
      split
      · exact h
      · rename_i hne
        have hlt : r < ref := (lt_trichotomy ref r).resolve_left hnlt |>.resolve_left hne
        refine List.pairwise_cons.2 ⟨fun x hx => ?_, ih hrest⟩
        rcases mem_insertRef.1 hx with rfl | hx
        · exact hlt
        · exact hr x hx

theorem mem_distinctRefs : ref ∈ distinctRefs refs ↔ ref ∈ refs := by
  unfold distinctRefs
  induction refs with
  | nil => simp
  | cons r rest ih => rw [List.foldr_cons, mem_insertRef, ih, List.mem_cons]

theorem sorted_distinctRefs (refs : List String) : (distinctRefs refs).Pairwise (· < ·) := by
  unfold distinctRefs
  induction refs with
  | nil => exact .nil
  | cons r rest ih => exact sorted_insertRef ih

theorem nodup_distinctRefs (refs : List String) : (distinctRefs refs).Nodup :=
  (sorted_distinctRefs refs).imp fun hlt => String.ne_of_lt hlt

theorem length_distinctRefs (refs : List String) :
    (distinctRefs refs).length = refs.toFinset.card := by
  have hsame : (distinctRefs refs).toFinset = refs.toFinset := by
    ext ref
    rw [List.mem_toFinset, List.mem_toFinset, mem_distinctRefs]
  rw [← hsame, List.toFinset_card_of_nodup (nodup_distinctRefs refs)]

/-- The refs are the distinct ones and repetitions of them. -/
theorem perm_distinctRefs (refs : List String) :
    ∃ again, refs.Perm (distinctRefs refs ++ again) ∧ again ⊆ distinctRefs refs := by
  obtain ⟨l, hl, hsub⟩ := List.subperm_of_subset (nodup_distinctRefs refs)
    (fun ref => mem_distinctRefs.1)
  obtain ⟨again, hagain⟩ := hsub.exists_perm_append
  refine ⟨again, hagain.trans (hl.append_right again), fun ref href => ?_⟩
  exact mem_distinctRefs.2 (hagain.mem_iff.2 (List.mem_append_right l href))

end Refs

namespace Push

variable (p : Push)

/-- The key of one ref of a push. -/
def keyOf (ref : String) : TaskKey :=
  .derive (.canonical p.project ref p.uri p.remote)

theorem keys_eq_map : p.keys = p.refs.map p.keyOf := by
  rw [keys, updates, List.map_map]
  rfl

theorem keys_perm {refs : List String} (h : refs.Perm p.refs) :
    ({ p with refs } : Push).keys.Perm p.keys := by
  rw [keys_eq_map, keys_eq_map]
  exact h.map _

theorem keys_toCanonical : p.toCanonical.keys = (distinctRefs p.refs).map p.keyOf := by
  have hkey : p.toCanonical.keyOf = p.keyOf := by
    funext ref
    rw [keyOf, keyOf, toCanonical, canonical, Update.canonical, Update.canonical, Uri.toAscii_toAscii]
  rw [keys_eq_map, hkey]
  rfl

theorem keys_repeated :
    ∃ again, p.keys.Perm (p.toCanonical.keys ++ again) ∧ again ⊆ p.toCanonical.keys := by
  obtain ⟨again, hperm, hsub⟩ := perm_distinctRefs p.refs
  refine ⟨again.map p.keyOf, ?_, ?_⟩
  · rw [keys_eq_map, keys_toCanonical, ← List.map_append]
    exact hperm.map _
  · rw [keys_toCanonical]
    exact List.map_subset _ hsub

end Push

/-! ### Requests of several refs -/

/-- A request that makes the transition `f` for each ref of a push. -/
inductive Store.Makes (store : Store) :
    (Push → Request) → (Queue → TaskKey → Outcome × Queue) → Prop where
  | start : Makes store .start fun q key => q.start store.layout key
  | reset : Makes store .reset fun q key => q.reset store.layout key
  | finish : Makes store .finish fun q key => q.finish store.layout store.keepFinished key

namespace Store.Makes

variable {store : Store} {ask : Push → Request} {f : Queue → TaskKey → Outcome × Queue}

theorem isLocal (h : store.Makes ask f) : Queue.IsLocal f := by
  cases h with
  | start => exact Queue.isLocal_start _
  | reset => exact Queue.isLocal_reset _
  | finish => exact Queue.isLocal_finish _ _

theorem settles (h : store.Makes ask f) {w : WaitingLayout} (hw : store.layout.waitingLayout = w) :
    Queue.Settles f (Queue.IsPlaced w) := by
  cases h with
  | start => exact Queue.settles_start hw
  | reset => exact Queue.settles_reset hw
  | finish => exact Queue.settles_finish hw _

/-- Nothing is refused where the path of the key's waiting file is short enough. -/
theorem ne_failed (h : store.Makes ask f) {key : TaskKey}
    (hfits : (store.layout.waitingPath key).isTooLong = false) (q : Queue) :
    (f q key).1 ≠ .failed := by
  have hreach : store.layout.reaches (store.layout.waitingPlace key) = true := by
    rw [Layout.reaches, Layout.pathOf_waitingPlace, hfits]
    rfl
  have hrunning := Layout.reaches_running hreach key
  cases h with
  | start =>
    refine Queue.move_ne_failed ?_ hrunning
    unfold Queue.source
    split
    · exact hreach
    · split
      · rename_i hfinds
        rw [Queue.finds, Bool.and_eq_true] at hfinds
        exact hfinds.1
      · exact hreach
  | reset => exact Queue.move_ne_failed hrunning hreach
  | finish =>
    rcases q.finish_cases store.layout store.keepFinished key with ⟨-, hkept⟩ | ⟨hkeep, -⟩
    · simp [hkept]
    · rw [hkeep]
      exact Queue.remove_ne_failed hrunning

variable {site : Site} {s : Session} {q : Queue} {handle : Nat}

theorem step (h : store.Makes ask f) (hruns : site.Runs s q)
    (hstore : s.stores[handle]? = some store) (p : Push) :
    (s.step (.on handle (ask p))).1 = .summary (q.each f p.keys .empty).1 ∧
      site.Shows (q.each f p.keys .empty).2 (s.step (.on handle (ask p))).2.system := by
  obtain ⟨q', system, hstep, ha, hruns'⟩ := hruns.step_on_store hstore (ask p)
  rw [hstep]
  have hset : (s.stores.set handle ((ask p).next store))[handle]? = some ((ask p).next store) := by
    rw [List.getElem?_set_self (List.getElem?_eq_some_iff.1 hstore).1]
  have hshows := hruns'.shows_of_store hset
  generalize (s.step (.on handle (ask p))).1 = reply at ha
  cases h <;> cases ha <;> rename_i heach <;> rw [heach] <;> exact ⟨rfl, hshows⟩

end Store.Makes

namespace Session

/-- Two steps are answered with a summary each, and leave the same disk. -/
structure EndsAlike (s : Session) (x y : Step) (m m' : Summary) : Prop where
  left : (s.step x).1 = .summary m
  right : (s.step y).1 = .summary m'
  same : (s.step x).2.system.disk = (s.step y).2.system.disk

end Session

namespace Store.Makes

variable {store : Store} {ask : Push → Request} {f : Queue → TaskKey → Outcome × Queue}
  {site : Site} {w : WaitingLayout} {s : Session} {q : Queue} {handle : Nat}

theorem endsAlike (h : store.Makes ask f) (hruns : site.Runs s q)
    (hstore : s.stores[handle]? = some store) {p p' : Push}
    (hsame : (q.each f p.keys .empty).2 = (q.each f p'.keys .empty).2) :
    s.EndsAlike (.on handle (ask p)) (.on handle (ask p')) (q.each f p.keys .empty).1
      (q.each f p'.keys .empty).1 := by
  obtain ⟨hreply, hshows⟩ := h.step hruns hstore p
  obtain ⟨hreply', hshows'⟩ := h.step hruns hstore p'
  rw [← hsame] at hshows'
  exact ⟨hreply, hreply', Disk.ext fun l => hshows'.get?_eq hshows l⟩

/-- Refs in another order. -/
theorem permuted (h : store.Makes ask f) (hruns : site.Runs s q)
    (hstore : s.stores[handle]? = some store) (p : Push) {refs : List String}
    (hperm : refs.Perm p.refs) :
    ∃ m : Summary, s.EndsAlike (.on handle (ask { p with refs })) (.on handle (ask p)) m m ∧
      m.total = p.refs.length := by
  have heach := h.isLocal.each_perm (p.keys_perm hperm) q .empty
  have halike := h.endsAlike hruns hstore (congrArg Prod.snd heach)
  rw [heach] at halike
  refine ⟨_, halike, ?_⟩
  rw [Queue.total_each, p.keys_eq_map, List.length_map]
  exact Nat.zero_add _

/-- Each ref once, in a queue of one layout. -/
theorem distinct (h : store.Makes ask f) (hruns : site.RunsAs w s q)
    (hstore : s.stores[handle]? = some store) (p : Push) :
    ∃ m once : Summary,
      s.EndsAlike (.on handle (ask p)) (.on handle (ask p.toCanonical)) m once ∧
      m.applied = once.applied ∧
      ((∀ key ∈ p.keys, (store.layout.waitingPath key).isTooLong = false) →
        m.failed = 0 ∧ once.failed = 0 ∧
          m.skipped = once.skipped + (p.refs.length - p.refs.toFinset.card)) := by
  obtain ⟨again, hperm, hsub⟩ := p.keys_repeated
  obtain ⟨hsame, happlied⟩ := (h.settles (hruns.layouts store
    (List.mem_of_getElem? hstore))).each_repeated hruns.placed hperm hsub .empty
  refine ⟨_, _, h.endsAlike hruns.runs hstore hsame, happlied, fun hfits => ?_⟩
  have hfailed := Queue.failed_each (fun q key hkey => h.ne_failed (hfits key hkey) q) q .empty
  have hfits' : ∀ key ∈ p.toCanonical.keys, (store.layout.waitingPath key).isTooLong = false :=
    fun key hkey => hfits key (hperm.mem_iff.2 (List.mem_append_left again hkey))
  have hfailed' := Queue.failed_each (fun q key hkey => h.ne_failed (hfits' key hkey) q) q .empty
  -- With nothing failed, what is skipped is all but what is applied.
  have htotal := Queue.total_each f p.keys q .empty
  have htotal' := Queue.total_each f p.toCanonical.keys q .empty
  have hcard : p.refs.toFinset.card ≤ p.refs.length := List.toFinset_card_le p.refs
  rw [p.keys_eq_map, List.length_map, ← p.keys_eq_map] at htotal
  rw [p.keys_toCanonical, List.length_map, length_distinctRefs, ← p.keys_toCanonical] at htotal'
  refine ⟨hfailed, hfailed', ?_⟩
  simp only [Summary.total, Summary.empty] at htotal htotal' hfailed hfailed'
  simp only [Summary.empty] at happlied ⊢
  omega

end Store.Makes

namespace Session

/-- Stores of any layouts claim, give back and finish the refs of a push alike in any order, and
count each of them. Stores of one layout do to a push with repeated refs what they do to the
distinct refs, and skip the repetitions, as long as the paths of their waiting files are not too
long. -/
theorem refs_in_any_order (site : Site) (s : Session) (hbare : site.IsBareIn s.system)
    (hstores : s.stores = []) (steps : List Step)
    (hopen : ∀ layout, .open layout ∈ steps → site.Opens layout) (handle : Nat) (store : Store)
    (hstore : (s.run steps).2.stores[handle]? = some store) (ask : Push → Request)
    (hask : ask = .start ∨ ask = .reset ∨ ask = .finish) (p : Push) :
    (∀ refs : List String, refs.Perm p.refs → ∃ m : Summary,
      (s.run steps).2.EndsAlike (.on handle (ask { p with refs })) (.on handle (ask p)) m m ∧
        m.total = p.refs.length) ∧
    ∀ w : WaitingLayout, (∀ layout, .open layout ∈ steps → layout.waitingLayout = w) →
      ∃ m once : Summary,
        (s.run steps).2.EndsAlike (.on handle (ask p)) (.on handle (ask p.toCanonical)) m once ∧
        m.applied = once.applied ∧
        ((∀ key ∈ p.keys, (store.layout.waitingPath key).isTooLong = false) →
          m.failed = 0 ∧ once.failed = 0 ∧
            m.skipped = once.skipped + (p.refs.length - p.refs.toFinset.card)) := by
  obtain ⟨f, hmakes⟩ : ∃ f, store.Makes ask f := by
    rcases hask with rfl | rfl | rfl
    · exact ⟨_, .start⟩
    · exact ⟨_, .reset⟩
    · exact ⟨_, .finish⟩
  refine ⟨fun refs hperm => ?_, fun w hw => ?_⟩
  · obtain ⟨q, hruns, -⟩ :=
      holds_run (Site.runs_bare hbare hstores) (Queue.holds_fresh _) steps hopen fun _ hu => hu
    exact hmakes.permuted hruns hstore p hperm
  · have h : site.RunsAs w s .fresh := Site.runsAs_bare hbare hstores
    obtain ⟨q, hruns, -⟩ := h.run (Queue.holds_fresh _) steps fun layout hl =>
      ⟨hw layout hl, hopen layout hl⟩
    exact hmakes.distinct hruns hstore p

theorem refs_in_any_order_claimed :
    (blank.run [.open (Site.layoutHere 0 .flat),
        .on 0 (.create ⟨"p", "b", "https://h/p", "h"⟩)]).2.stores[0]? =
          some ⟨Site.layoutHere 0 .flat, false⟩ ∧
      ["a", "b", "b"].Perm ["b", "a", "b"] ∧
      (∃ m : Summary, (blank.run [.open (Site.layoutHere 0 .flat),
          .on 0 (.create ⟨"p", "b", "https://h/p", "h"⟩)]).2.EndsAlike
        (.on 0 (.start ⟨"p", "https://h/p", "h", ["a", "b", "b"]⟩))
        (.on 0 (.start ⟨"p", "https://h/p", "h", ["b", "a", "b"]⟩)) m m ∧ m.total = 3) ∧
      ∃ m once : Summary, (blank.run [.open (Site.layoutHere 0 .flat),
          .on 0 (.create ⟨"p", "b", "https://h/p", "h"⟩)]).2.EndsAlike
        (.on 0 (.start ⟨"p", "https://h/p", "h", ["b", "a", "b"]⟩))
        (.on 0 (.start (Push.toCanonical ⟨"p", "https://h/p", "h", ["b", "a", "b"]⟩))) m once ∧
        m.failed = 0 ∧ m.skipped = once.skipped + 1 := by
  generalize (⟨"p", "b", "https://h/p", "h"⟩ : Update) = u
  have hperm : ["a", "b", "b"].Perm ["b", "a", "b"] := .swap ..
  have hshares := (shares_blank.step_open (serves_blank .flat)).step_create 0 rfl u
  have hstore : (blank.run [.open (Site.layoutHere 0 .flat), .on 0 (.create u)]).2.stores[0]? =
      some ⟨Site.layoutHere 0 .flat, false⟩ := by
    rw [run_cons_snd, run_cons_snd, run_nil_snd]
    exact hshares.getElem?_stores 0 rfl
  have hfits : ∀ key, ((Site.layoutHere 0 .flat).waitingPath key).isTooLong = false := by
    intro key
    have hreach := reaches_blank .flat ((Site.layoutHere 0 .flat).waitingPlace key)
    rwa [Layout.reaches, Layout.pathOf_waitingPlace, Bool.not_eq_true'] at hreach
  obtain ⟨hordered, hdistinct⟩ := refs_in_any_order .blank blank isBareIn_blank rfl
    [.open (Site.layoutHere 0 .flat), .on 0 (.create u)] (by simp [opens_blank]) 0 _ hstore .start
    (.inl rfl) ⟨"p", "https://h/p", "h", ["b", "a", "b"]⟩
  obtain ⟨m, once, halike, -, hcounts⟩ := hdistinct .flat (by simp [Site.layoutHere])
  obtain ⟨hfailed, -, hskipped⟩ := hcounts fun key _ => hfits key
  have hrefs : Push.refs ⟨"p", "https://h/p", "h", ["b", "a", "b"]⟩ = ["b", "a", "b"] := rfl
  have hrepeated : ["b", "a", "b"].length - ["b", "a", "b"].toFinset.card = 1 := by decide
  exact ⟨hstore, hperm, hordered _ hperm, m, once, halike, hfailed, by
    rw [hskipped, hrefs, hrepeated]⟩

theorem reset_unreached {site : Site} {s : Session} {q : Queue} {handle : Nat} {store : Store}
    (hruns : site.Runs s q) (hstore : s.stores[handle]? = some store) {p : Push} {key : TaskKey}
    (hkeys : p.keys = [key])
    (hlong : store.layout.reaches (store.layout.waitingPlace key) = false) :
    (s.step (.on handle (.reset p))).1 = .summary ⟨0, 0, 1⟩ := by
  have hreply := (Store.Makes.reset.step hruns hstore p).1
  rw [hkeys, Queue.each, Queue.each] at hreply
  dsimp only at hreply
  rwa [Queue.reset_unreached hlong] at hreply

/-- Where the path of its waiting file is too long a task is not given back, and that counts as
failed. -/
theorem reset_failed_long :
    ((blank.run [.open (Site.layoutHere 2036 .sharded)]).2.step
      (.on 0 (.reset ⟨"p", "https://h/p", "h", ["refs/heads/m"]⟩))).1 = .summary ⟨0, 0, 1⟩ := by
  have hkeys : Push.keys ⟨"p", "https://h/p", "h", ["refs/heads/m"]⟩ =
      [.derive (.canonical "p" "refs/heads/m" "https://h/p" "h")] := rfl
  generalize Update.canonical "p" "refs/heads/m" "https://h/p" "h" = u at hkeys
  obtain ⟨hstores, hruns⟩ := runs_opened (n := 2036) (w := .sharded) (by decide)
  rw [opened] at hstores hruns
  have hunreached : (Site.layoutHere 2036 .sharded).reaches
      ((Site.layoutHere 2036 .sharded).waitingPlace (.derive u)) = false := by
    have hplace : (Site.layoutHere 2036 .sharded).waitingPlace (.derive u) =
        .sharded (.derive u) := Layout.waitingPlace_eq _ _ rfl
    unfold Layout.reaches Path.isTooLong
    rw [hplace, Layout.utf8ByteSize_pathOf_sharded, Site.utf8ByteSize_refUpdates_here]
    decide
  have hstore : (blank.run [.open (Site.layoutHere 2036 .sharded)]).2.stores[0]? =
      some ⟨Site.layoutHere 2036 .sharded, false⟩ := by
    rw [hstores]
    rfl
  exact reset_unreached hruns hstore hkeys hunreached

end Session

end ReplicationQueue
