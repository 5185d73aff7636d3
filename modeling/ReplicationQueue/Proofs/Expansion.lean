import Mathlib.Data.List.Dedup
import ReplicationQueue.Proofs.ByteOrder
import ReplicationQueue.Proofs.Order

/-! The updates that a push stands for. A task is queued for each ref as it is given, and claimed,
given back, retired and looked for through the canonical push; both expand to the same updates, the
canonical one without repetitions and in the order of the bytes of the refs. -/

namespace ReplicationQueue

/-- Whether the bytes of the ref of `a` are those of `b` or come before them. -/
def Update.byRef (a b : Update) : Bool :=
  decide (Utf8.encode a.ref ≤ Utf8.encode b.ref)

theorem Update.byRef_iff {a b : Update} : a.byRef b = true ↔ a.ref ≤ b.ref := by
  rw [byRef, decide_eq_true_iff, ← List.not_lt, Utf8.encode_lt_encode, not_lt]

theorem Update.pairwise_byRef (updates : List Update) :
    (updates.mergeSort Update.byRef).Pairwise fun a b => a.ref ≤ b.ref := by
  have htrans : ∀ a b c : Update, a.byRef b = true → b.byRef c = true → a.byRef c = true :=
    fun a b c hab hbc => byRef_iff.2 (le_trans (byRef_iff.1 hab) (byRef_iff.1 hbc))
  have htotal : ∀ a b : Update, (a.byRef b || b.byRef a) = true := by
    intro a b
    rw [Bool.or_eq_true, byRef_iff, byRef_iff]
    exact le_total a.ref b.ref
  exact (List.pairwise_mergeSort htrans htotal updates).imp byRef_iff.1

theorem distinctRefs_congr {refs again : List String} (h : ∀ ref, ref ∈ refs ↔ ref ∈ again) :
    distinctRefs refs = distinctRefs again := by
  have hperm : (distinctRefs refs).Perm (distinctRefs again) :=
    (List.perm_ext_iff_of_nodup (nodup_distinctRefs refs) (nodup_distinctRefs again)).2
      fun ref => by rw [mem_distinctRefs, mem_distinctRefs, h]
  exact hperm.eq_of_pairwise (fun _ _ _ _ hlt hgt => absurd hgt (lt_asymm hlt))
    (sorted_distinctRefs refs) (sorted_distinctRefs again)

namespace Push

variable (p : Push)

/-- The update of one ref of a push. -/
def updateOf (ref : String) : Update :=
  .canonical p.project ref p.uri p.remote

theorem updates_eq_map : p.updates = p.refs.map p.updateOf := rfl

theorem updateOf_toAscii :
    ({ p with uri := Uri.toAscii p.uri } : Push).updateOf = p.updateOf := by
  funext ref
  rw [updateOf, updateOf, Update.canonical, Update.canonical, Uri.toAscii_toAscii]

theorem updates_toCanonical_eq_map :
    p.toCanonical.updates = (distinctRefs p.refs).map p.updateOf := by
  rw [← updateOf_toAscii]
  rfl

theorem updates_ofUpdate (ref : String) :
    (ofUpdate (p.updateOf ref)).updates = [p.updateOf ref] := by
  simp [updates, ofUpdate, canonical, updateOf, Update.canonical, distinctRefs, insertRef]

theorem sorted_updates_toCanonical :
    p.toCanonical.updates.Pairwise fun a b => a.ref < b.ref := by
  rw [updates_toCanonical_eq_map]
  exact List.pairwise_map.2 (sorted_distinctRefs p.refs)

theorem mem_updates_toCanonical {u : Update} : u ∈ p.toCanonical.updates ↔ u ∈ p.updates := by
  rw [updates_toCanonical_eq_map, updates_eq_map]
  simp only [List.mem_map, mem_distinctRefs]

/-- The canonical push has the updates of the push once each, in the order of the refs. -/
theorem updates_toCanonical :
    p.toCanonical.updates = p.updates.dedup.mergeSort Update.byRef := by
  have hsorted := p.sorted_updates_toCanonical
  have hnodup : p.toCanonical.updates.Nodup :=
    hsorted.imp fun hlt heq => absurd (congrArg Update.ref heq) (ne_of_lt hlt)
  have hperm : p.toCanonical.updates.Perm p.updates.dedup :=
    (List.perm_ext_iff_of_nodup hnodup (List.nodup_dedup _)).2 fun u => by
      rw [mem_updates_toCanonical, List.mem_dedup]
  -- Two updates of a push that have one ref are the same.
  have hanti : ∀ a b, a ∈ p.toCanonical.updates →
      b ∈ p.updates.dedup.mergeSort Update.byRef → a.ref ≤ b.ref → b.ref ≤ a.ref → a = b := by
    intro a b ha hb hab hba
    rw [mem_updates_toCanonical, updates_eq_map, List.mem_map] at ha
    rw [List.mem_mergeSort, List.mem_dedup, updates_eq_map, List.mem_map] at hb
    obtain ⟨⟨ref, -, rfl⟩, ⟨other, -, rfl⟩⟩ := And.intro ha hb
    obtain rfl : ref = other := le_antisymm hab hba
    rfl
  exact (hperm.trans (List.mergeSort_perm ..).symm).eq_of_pairwise hanti
    (hsorted.imp le_of_lt) (Update.pairwise_byRef _)

theorem mem_keys_toCanonical {key : TaskKey} : key ∈ p.toCanonical.keys ↔ key ∈ p.keys := by
  simp only [keys, List.mem_map, mem_updates_toCanonical]

/-- All ways to expand a push agree on its tasks. The refs as they are given, with the URI as it is
given or canonical, have one update each; the canonical push has the same updates, each once, in
strictly ascending order of the bytes of the ref; it depends on nothing but which refs there are; and
a push made of one of its updates has that update alone. So what queues the tasks of a push and what
claims, gives back, retires or looks for them go by the same keys. -/
theorem expansions_agree :
    p.toCanonical.updates = p.updates.dedup.mergeSort Update.byRef ∧
      (p.toCanonical.updates.Pairwise fun a b => Utf8.encode a.ref < Utf8.encode b.ref) ∧
      (∀ uri, uri = p.uri ∨ uri = Uri.toAscii p.uri →
        ({ p with uri } : Push).updates =
          p.refs.map fun ref => ⟨p.project, ref, Uri.toAscii p.uri, p.remote⟩) ∧
      (∀ refs, (∀ ref, ref ∈ refs ↔ ref ∈ p.refs) →
        canonical p.project p.uri p.remote refs = p.toCanonical) ∧
      (∀ ref, (ofUpdate (.canonical p.project ref p.uri p.remote)).updates =
        [.canonical p.project ref p.uri p.remote]) ∧
      ∀ key, key ∈ p.toCanonical.keys ↔ key ∈ p.keys := by
  refine ⟨p.updates_toCanonical, ?_, ?_, ?_, p.updates_ofUpdate, fun key => p.mem_keys_toCanonical⟩
  · exact p.sorted_updates_toCanonical.imp Utf8.encode_lt_encode.2
  · rintro uri (rfl | rfl)
    · rfl
    · rw [updates_eq_map, updateOf_toAscii]
      rfl
  · intro refs hrefs
    rw [toCanonical, canonical, canonical, distinctRefs_congr hrefs]

/-- A ref that is given twice, and another one whose bytes come after it although it is shorter. -/
theorem expansions_agree_repeated :
    canonical "p" "https://h/é" "h" ["é", "zz"] =
        toCanonical ⟨"p", "https://h/é", "h", ["zz", "é", "zz"]⟩ ∧
      (toCanonical ⟨"p", "https://h/é", "h", ["zz", "é", "zz"]⟩).refs = ["zz", "é"] := by
  obtain ⟨-, -, -, hcanonical, -⟩ := expansions_agree ⟨"p", "https://h/é", "h", ["zz", "é", "zz"]⟩
  exact ⟨hcanonical ["é", "zz"] (by simp [or_comm]), by decide⟩

end Push

end ReplicationQueue
