import ReplicationQueue.Proofs.Exclusion
import Mathlib.Data.List.Perm.Basic

/-! Transitions of different tasks are independent, whatever directories they share: each one reads
and moves files of its own key alone. So the order of several transitions does not matter, and the
second transition of a key finds nothing to do. -/

namespace ReplicationQueue

attribute [local irreducible] Path.isTooLong

theorem Summary.record_comm (s : Summary) (a b : Outcome) :
    (s.record a).record b = (s.record b).record a := by
  cases a <;> cases b <;> rfl

/-- Whether the directory of a place is made, as a shard, for a file to be put there. -/
def Layout.makesShard (layout : Layout) : Place → String → Bool
  | .sharded key, shard => !(layout.waiting.join key.shard).isTooLong && shard = key.shard
  | .running _, _ | .flat _, _ => false

namespace Queue

theorem ext {q q' : Queue} (hbuilding : q'.building = q.building) (hfiles : q'.files = q.files)
    (hshards : q'.shards = q.shards) : q' = q := by
  cases q
  cases q'
  simp_all

/-- Two queues have the same files of a key. -/
def Alike (key : TaskKey) (q q' : Queue) : Prop :=
  ∀ pl : Place, pl.key = key → q'.files pl = q.files pl

/-- A transition whose outcome and effect depend on the files of its key, and that changes nothing
else, shards apart, of which it adds the same whatever there is. -/
structure IsLocal (f : Queue → TaskKey → Outcome × Queue) : Prop where
  outcome {key : TaskKey} {q q' : Queue} : Alike key q q' → (f q' key).1 = (f q key).1
  inside {key : TaskKey} {q q' : Queue} : Alike key q q' → Alike key (f q key).2 (f q' key).2
  outside (q : Queue) {key : TaskKey} {pl : Place} :
    pl.key ≠ key → (f q key).2.files pl = q.files pl
  building (q : Queue) (key : TaskKey) : (f q key).2.building = q.building
  shards (key : TaskKey) :
    ∃ made : String → Bool, ∀ q shard, (f q key).2.shards shard = (q.shards shard || made shard)

/-! ### The transitions are local -/

section Moves

variable {q q' : Queue} {key : TaskKey}

theorem provision_files (q : Queue) (layout : Layout) (pl : Place) :
    q.provision layout pl = none ∧ (∀ q' : Queue, q'.provision layout pl = none) ∨
      ∀ q' : Queue, ∃ r, q'.provision layout pl = some r ∧ r.files = q'.files := by
  cases pl with
  | running key => exact .inr fun q' => ⟨q', rfl, rfl⟩
  | flat key => exact .inr fun q' => ⟨q', rfl, rfl⟩
  | sharded key =>
    by_cases hlong : (layout.waiting.join key.shard).isTooLong = true
    · exact .inl ⟨by rw [provision_sharded, if_pos hlong], fun q' => by
        rw [provision_sharded, if_pos hlong]⟩
    · exact .inr fun q' => ⟨q'.addShard key.shard, by rw [provision_sharded, if_neg hlong], rfl⟩

theorem alike_set (h : Alike key q q') (pl : Place) (r : Option Update) :
    Alike key (q.set pl r) (q'.set pl r) := by
  intro other hother
  rw [files_set, files_set, h other hother]

theorem move_alike (h : Alike key q q') (layout : Layout) {src : Place} (hsrc : src.key = key)
    (dst : Place) :
    (q'.move layout src dst).1 = (q.move layout src dst).1 ∧
      Alike key (q.move layout src dst).2 (q'.move layout src dst).2 := by
  unfold move
  rcases q.provision_files layout dst with ⟨hnone, hnone'⟩ | hsome
  · rw [hnone, hnone']
    exact ⟨rfl, h⟩
  · obtain ⟨r, hr, hfiles⟩ := hsome q
    obtain ⟨r', hr', hfiles'⟩ := hsome q'
    have halike : Alike key r r' := by
      intro pl hpl
      rw [hfiles, hfiles', h pl hpl]
    rw [hr, hr']
    dsimp only
    rw [halike src hsrc]
    split
    · cases r.files src with
      | none => exact ⟨rfl, halike⟩
      | some u => exact ⟨rfl, alike_set (alike_set halike src none) dst (some u)⟩
    · exact ⟨rfl, halike⟩

theorem files_move_other {layout : Layout} {src dst pl : Place} (hsrc : pl ≠ src)
    (hdst : pl ≠ dst) :
    (q.move layout src dst).2.files pl = q.files pl := by
  have hmoves := q.moves_move layout src dst
  generalize q.move layout src dst = r at hmoves
  cases hmoves with
  | failed files _ => rw [files]
  | skipped _ files _ => rw [files]
  | applied u _ files _ => rw [files, Function.update_of_ne hdst, Function.update_of_ne hsrc]

theorem building_move (q : Queue) (layout : Layout) (src dst : Place) :
    (q.move layout src dst).2.building = q.building := by
  have hmoves := q.moves_move layout src dst
  generalize q.move layout src dst = r at hmoves
  cases hmoves <;> assumption

theorem shards_move (q : Queue) (layout : Layout) (src dst : Place) (shard : String) :
    (q.move layout src dst).2.shards shard = (q.shards shard || layout.makesShard dst shard) := by
  -- Moving a file leaves the shards as they are, so they are those that the provision left.
  have hmoved : ∀ {r : Queue}, q.provision layout dst = some r →
      (q.move layout src dst).2.shards = r.shards := by
    intro r hr
    rw [move, hr]
    dsimp only
    split
    · cases r.files src <;> rfl
    · rfl
  cases dst with
  | running key => rw [hmoved (r := q) rfl, Layout.makesShard, Bool.or_false]
  | flat key => rw [hmoved (r := q) rfl, Layout.makesShard, Bool.or_false]
  | sharded key =>
    rw [Layout.makesShard]
    cases hlong : (layout.waiting.join key.shard).isTooLong with
    | true =>
      have hnone : q.provision layout (.sharded key) = none := by
        rw [provision_sharded, hlong, if_pos rfl]
      rw [move, hnone, Bool.not_true, Bool.false_and, Bool.or_false]
    | false =>
      have hsome : q.provision layout (.sharded key) = some (q.addShard key.shard) := by
        rw [provision_sharded, hlong]
        rfl
      rw [hmoved hsome, shards_addShard]
      by_cases heq : shard = key.shard <;> simp [heq]

/-- A move between places of the key, from one that is chosen by the files of the key. -/
theorem isLocal_move (layout : Layout) {src : Queue → TaskKey → Place} {dst : TaskKey → Place}
    (hsrc : ∀ q key, (src q key).key = key) (hdst : ∀ key, (dst key).key = key)
    (hchoice : ∀ {key q q'}, Alike key q q' → src q' key = src q key) :
    IsLocal fun q key => q.move layout (src q key) (dst key) where
  outcome {key q q'} h := by
    rw [hchoice h]
    exact (move_alike h layout (hsrc q key) _).1
  inside {key q q'} h := by
    rw [hchoice h]
    exact (move_alike h layout (hsrc q key) _).2
  outside q key pl hpl := by
    refine files_move_other (fun heq => hpl ?_) fun heq => hpl ?_
    · rw [heq, hsrc]
    · rw [heq, hdst]
  building q key := q.building_move layout _ _
  shards key := ⟨layout.makesShard (dst key), fun q shard => q.shards_move layout _ _ shard⟩

theorem source_alike (h : Alike key q q') (layout : Layout) :
    q'.source layout key = q.source layout key := by
  rw [source, finds, finds, h _ (layout.key_waitingPlace key), h (.flat key) rfl]
  rfl

theorem isLocal_start (layout : Layout) : IsLocal fun q key => q.start layout key :=
  isLocal_move layout (fun q key => q.key_source layout key) (fun _ => rfl) fun h =>
    source_alike h layout

theorem isLocal_reset (layout : Layout) : IsLocal fun q key => q.reset layout key :=
  isLocal_move layout (fun _ _ => rfl) layout.key_waitingPlace fun {key _ _} _ =>
    (rfl : Place.running key = _)

theorem removes_of_files {pl : Place} {r : Outcome × Queue} (h : q.Removes pl r) :
    r.2.building = q.building ∧ r.2.shards = q.shards ∧
      ∀ other, other ≠ pl → r.2.files other = q.files other := by
  cases h with
  | failed => exact ⟨rfl, rfl, fun _ _ => rfl⟩
  | skipped _ => exact ⟨rfl, rfl, fun _ _ => rfl⟩
  | applied u _ => exact ⟨rfl, rfl, fun other hother => Function.update_of_ne hother ..⟩

/-- The removal of the file at a place of the key. -/
theorem isLocal_remove (layout : Layout) {pl : TaskKey → Place} (hpl : ∀ key, (pl key).key = key) :
    IsLocal fun q key => q.remove layout (pl key) where
  outcome {key q q'} h := by
    rw [remove, remove, h (pl key) (hpl key)]
    split
    · cases q.files (pl key) <;> rfl
    · rfl
  inside {key q q'} h := by
    rw [remove, remove, h (pl key) (hpl key)]
    split
    · cases q.files (pl key) with
      | none => exact h
      | some u => exact alike_set h _ none
    · exact h
  outside q key other hother := by
    refine (removes_of_files (q.removes_remove layout (pl key))).2.2 other fun heq => hother ?_
    rw [heq, hpl]
  building q key := (removes_of_files (q.removes_remove layout (pl key))).1
  shards key := by
    refine ⟨fun _ => false, fun q shard => ?_⟩
    rw [(removes_of_files (q.removes_remove layout (pl key))).2.1, Bool.or_false]

theorem isLocal_finish (layout : Layout) (keep : Bool) :
    IsLocal fun q key => q.finish layout keep key := by
  cases keep with
  | true =>
    exact ⟨fun _ => rfl, id, fun _ _ _ _ => rfl, fun _ _ => rfl,
      fun _ => ⟨fun _ => false, fun _ _ => (Bool.or_false _).symm⟩⟩
  | false => exact isLocal_remove layout (fun key => (rfl : (Place.running key).key = key))

theorem delete_eq (q : Queue) (layout : Layout) (key : TaskKey) :
    q.delete layout key =
      if (q.remove layout (layout.waitingPlace key)).1 = .skipped then q.remove layout (.flat key)
      else q.remove layout (layout.waitingPlace key) := by
  have hremoves := q.removes_remove layout (layout.waitingPlace key)
  rw [delete]
  generalize q.remove layout (layout.waitingPlace key) = r at hremoves
  cases hremoves <;> rfl

/-- Which of two places is looked at depends on the files of the key too. -/
theorem isLocal_delete (layout : Layout) : IsLocal fun q key => q.delete layout key := by
  have hfirst := isLocal_remove layout layout.key_waitingPlace
  have hsecond := isLocal_remove layout (fun key => (rfl : (Place.flat key).key = key))
  constructor
  case outcome =>
    intro key q q' h
    rw [delete_eq, delete_eq, hfirst.outcome h]
    split
    · exact hsecond.outcome h
    · exact hfirst.outcome h
  case inside =>
    intro key q q' h
    rw [delete_eq, delete_eq, hfirst.outcome h]
    split
    · exact hsecond.inside h
    · exact hfirst.inside h
  case outside =>
    intro q key pl hpl
    rw [delete_eq]
    split
    · exact hsecond.outside q hpl
    · exact hfirst.outside q hpl
  case building => exact fun q key => (Act.delete layout key).building_apply q
  case shards =>
    intro key
    refine ⟨fun _ => false, fun q shard => ?_⟩
    rw [delete_eq, Bool.or_false]
    split
    · rw [(removes_of_files (q.removes_remove layout (.flat key))).2.1]
    · rw [(removes_of_files (q.removes_remove layout (layout.waitingPlace key))).2.1]

end Moves

/-! ### Their order does not matter -/

section Order

variable {f : Queue → TaskKey → Outcome × Queue} {q : Queue} {a b : TaskKey}

namespace IsLocal

theorem alike_other (h : IsLocal f) (hne : a ≠ b) (q : Queue) : Alike b q (f q a).2 :=
  fun _ hpl => h.outside q (hpl.trans_ne hne.symm)

/-- Another task's transition ends as it would have before. -/
theorem outcome_other (h : IsLocal f) (hne : a ≠ b) (q : Queue) :
    (f (f q a).2 b).1 = (f q b).1 :=
  h.outcome (h.alike_other hne q)

theorem comm (h : IsLocal f) (hne : a ≠ b) (q : Queue) :
    (f (f q a).2 b).2 = (f (f q b).2 a).2 := by
  refine ext ?_ (funext fun pl => ?_) (funext fun shard => ?_)
  · rw [h.building, h.building, h.building, h.building]
  · by_cases ha : pl.key = a
    · rw [h.outside _ (ha.trans_ne hne)]
      exact (h.inside (h.alike_other hne.symm q) pl ha).symm
    · rw [h.outside _ ha]
      by_cases hb : pl.key = b
      · exact h.inside (h.alike_other hne q) pl hb
      · rw [h.outside _ hb, h.outside _ hb, h.outside _ ha]
  · obtain ⟨madeA, hA⟩ := h.shards a
    obtain ⟨madeB, hB⟩ := h.shards b
    rw [hA, hB, hA, hB, Bool.or_right_comm]

/-- Several transitions may be made in any order. -/
theorem each_perm (h : IsLocal f) {keys keys' : List TaskKey} (hperm : keys.Perm keys') (q : Queue)
    (summary : Summary) : q.each f keys summary = q.each f keys' summary := by
  induction hperm generalizing q summary with
  | nil => rfl
  | cons key _ ih => exact ih _ _
  | swap a b rest =>
    by_cases hne : a = b
    · rw [hne]
    · rw [each, each, each, each, h.comm hne, h.outcome_other hne, h.outcome_other (Ne.symm hne),
        Summary.record_comm]
  | trans _ _ ih ih' => rw [ih, ih']

end IsLocal

theorem each_append (f : Queue → TaskKey → Outcome × Queue) (keys more : List TaskKey) (q : Queue)
    (summary : Summary) :
    q.each f (keys ++ more) summary =
      (q.each f keys summary).2.each f more (q.each f keys summary).1 := by
  induction keys generalizing q summary with
  | nil => rfl
  | cons key rest ih => exact ih _ _

theorem total_each (f : Queue → TaskKey → Outcome × Queue) (keys : List TaskKey) (q : Queue)
    (summary : Summary) : (q.each f keys summary).1.total = summary.total + keys.length := by
  induction keys generalizing q summary with
  | nil => rfl
  | cons key rest ih => rw [each, ih, Summary.total_record, List.length_cons, Nat.add_right_comm,
      Nat.add_assoc]

theorem failed_each {keys : List TaskKey} (hf : ∀ q, ∀ key ∈ keys, (f q key).1 ≠ .failed)
    (q : Queue) (summary : Summary) : (q.each f keys summary).1.failed = summary.failed := by
  induction keys generalizing q summary with
  | nil => rfl
  | cons key rest ih =>
    have hrecord : (summary.record (f q key).1).failed = summary.failed := by
      have hok := hf q key (by simp)
      cases houtcome : (f q key).1 with
      | failed => exact absurd houtcome hok
      | _ => rfl
    rw [each, ih (fun q key hkey => hf q key (List.mem_cons_of_mem _ hkey)), hrecord]

end Order

/-! ### Repetitions -/

section Repetitions

variable {f : Queue → TaskKey → Outcome × Queue} {q : Queue} {a : TaskKey}

/-- The transition of the key would change nothing. -/
def Rests (f : Queue → TaskKey → Outcome × Queue) (q : Queue) (key : TaskKey) : Prop :=
  (f q key).1 ≠ .applied ∧ (f q key).2 = q

/-- What rests still does after other transitions. -/
theorem IsLocal.rests_step (h : IsLocal f) (hrests : Rests f q a) (b : TaskKey) :
    Rests f (f q b).2 a := by
  by_cases hne : a = b
  · subst hne
    rw [hrests.2]
    exact hrests
  · refine ⟨?_, ?_⟩
    · rw [h.outcome_other (Ne.symm hne)]
      exact hrests.1
    · rw [← h.comm hne, hrests.2]

theorem IsLocal.rests_each (h : IsLocal f) (hrests : Rests f q a) (keys : List TaskKey)
    (summary : Summary) : Rests f (q.each f keys summary).2 a := by
  induction keys generalizing q summary with
  | nil => exact hrests
  | cons key rest ih => exact ih (h.rests_step hrests key) _

/-- Transitions of what rests change nothing. -/
theorem each_of_rests {keys : List TaskKey} (hrests : ∀ key ∈ keys, Rests f q key)
    (summary : Summary) :
    (q.each f keys summary).2 = q ∧ (q.each f keys summary).1.applied = summary.applied := by
  induction keys generalizing summary with
  | nil => exact ⟨rfl, rfl⟩
  | cons key rest ih =>
    obtain ⟨hidle, hsame⟩ := hrests key (by simp)
    have hrecord : (summary.record (f q key).1).applied = summary.applied := by
      cases houtcome : (f q key).1 with
      | applied => exact absurd houtcome hidle
      | _ => rfl
    rw [each, hsame, ← hrecord]
    exact ih (fun key hkey => hrests key (List.mem_cons_of_mem _ hkey)) _

/-- A transition after which its key rests, in every queue of a kind that it keeps. -/
structure Settles (f : Queue → TaskKey → Outcome × Queue) (kind : Queue → Prop) : Prop
    extends IsLocal f where
  keeps {q : Queue} (key : TaskKey) : kind q → kind (f q key).2
  rests {q : Queue} (key : TaskKey) : kind q → Rests f (f q key).2 key

variable {kind : Queue → Prop}

theorem Settles.rests_each_of_mem (h : Settles f kind) (hq : kind q) {keys : List TaskKey}
    {key : TaskKey} (hkey : key ∈ keys) (summary : Summary) :
    Rests f (q.each f keys summary).2 key := by
  induction keys generalizing q summary with
  | nil => cases hkey
  | cons other rest ih =>
    rcases List.mem_cons.1 hkey with rfl | hmem
    · exact h.rests_each (h.rests key hq) rest _
    · exact ih (h.keeps other hq) hmem _

/-- Repeating the transitions of some keys adds nothing. -/
theorem Settles.each_repeated (h : Settles f kind) (hq : kind q) {keys once again : List TaskKey}
    (hperm : keys.Perm (once ++ again)) (hsub : again ⊆ once) (summary : Summary) :
    (q.each f keys summary).2 = (q.each f once summary).2 ∧
      (q.each f keys summary).1.applied = (q.each f once summary).1.applied := by
  rw [h.each_perm hperm, each_append]
  exact each_of_rests (fun key hkey => h.rests_each_of_mem hq (hsub hkey) summary) _

end Repetitions

/-! ### The transitions settle -/

section Settling

variable {q r : Queue} {layout : Layout} {w : WaitingLayout}

theorem provision_again {dst : Place} (h : q.provision layout dst = some r) {r' : Queue}
    (hshards : r'.shards = r.shards) : r'.provision layout dst = some r' := by
  cases dst with
  | running key => rfl
  | flat key => rfl
  | sharded key =>
    rw [provision_sharded] at h ⊢
    split at h
    · cases h
    · rename_i hlong
      have hshard : r'.shards key.shard = true := by
        rw [hshards, ← Option.some.inj h, shards_addShard, if_pos rfl]
      rw [if_neg hlong, addShard_eq_self hshard]

theorem move_of_provision {src dst : Place} (h : q.provision layout dst = some r) :
    q.move layout src dst =
      if layout.reaches src && layout.reaches dst then
        match r.files src with
        | none => (.skipped, r)
        | some u => (.applied, (r.set src none).set dst (some u))
      else (.failed, r) := by
  unfold move
  split
  · rename_i hnone
    rw [hnone] at h
    cases h
  · rename_i made hmade
    obtain rfl : made = r := Option.some.inj (hmade.symm.trans h)
    rfl

/-- Nothing is moved from where nothing is. -/
theorem move_of_none {src dst : Place} (hprovision : q.provision layout dst = some q)
    (hreach : layout.reaches src && layout.reaches dst → q.files src = none) :
    (q.move layout src dst).1 ≠ .applied ∧ (q.move layout src dst).2 = q := by
  rw [move_of_provision hprovision]
  split
  · rename_i hreached
    rw [hreach hreached]
    exact ⟨by simp, rfl⟩
  · exact ⟨by simp, rfl⟩

/-- A second move finds nothing, or is refused as the first was. -/
theorem move_again (layout : Layout) {src dst : Place} (hne : src ≠ dst) (q : Queue) :
    ((q.move layout src dst).2.move layout src dst).1 ≠ .applied ∧
      ((q.move layout src dst).2.move layout src dst).2 = (q.move layout src dst).2 := by
  cases hprovision : q.provision layout dst with
  | none =>
    have hmove : q.move layout src dst = (.failed, q) := by rw [move, hprovision]
    rw [hmove]
    dsimp only
    rw [hmove]
    exact ⟨by simp, rfl⟩
  | some r =>
    rw [move_of_provision hprovision]
    split
    · cases hfile : r.files src with
      | none => exact move_of_none (provision_again hprovision rfl) fun _ => hfile
      | some u =>
        refine move_of_none (provision_again hprovision rfl) fun _ => ?_
        dsimp only
        rw [files_set, if_neg hne, files_set_self]
    · rename_i hreach
      exact move_of_none (provision_again hprovision rfl) fun hreached => absurd hreached hreach

/-- Where no key waits in two places, it waits where the layout puts it, if it does. -/
theorem IsPlaced.source_eq (h : q.IsPlaced w) (hw : layout.waitingLayout = w) (key : TaskKey) :
    q.source layout key = layout.waitingPlace key := by
  unfold source
  split
  · rfl
  · split
    · rename_i hfinds
      have hflat : (q.files (.flat key)).isSome := by
        rw [finds, Bool.and_eq_true] at hfinds
        exact hfinds.2
      rw [layout.waitingPlace_eq key hw]
      exact (h (.flat key) hflat).resolve_left (by simp)
    · rfl

theorem settles_start (hw : layout.waitingLayout = w) :
    Settles (fun q key => q.start layout key) (IsPlaced w) where
  toIsLocal := isLocal_start layout
  keeps key hq := hq.apply (a := .start layout key) hw
  rests {q} key hq := by
    have hstart : ∀ {q' : Queue}, q'.IsPlaced w →
        q'.start layout key = q'.move layout (layout.waitingPlace key) (.running key) := by
      intro q' hq'
      rw [start, hq'.source_eq hw]
    have hkept : (q.start layout key).2.IsPlaced w := hq.apply (a := .start layout key) hw
    have hagain := move_again layout (layout.waitingPlace_ne_running key key) q
    rw [← hstart hq, ← hstart hkept] at hagain
    exact hagain

theorem settles_reset (hw : layout.waitingLayout = w) :
    Settles (fun q key => q.reset layout key) (IsPlaced w) where
  toIsLocal := isLocal_reset layout
  keeps key hq := hq.apply (a := .reset layout key) hw
  rests {q} key _ := move_again layout (layout.waitingPlace_ne_running key key).symm q

theorem settles_finish (hw : layout.waitingLayout = w) (keep : Bool) :
    Settles (fun q key => q.finish layout keep key) (IsPlaced w) where
  toIsLocal := isLocal_finish layout keep
  keeps key hq := hq.apply (a := .finish layout keep key) hw
  rests {q} key _ := by
    rcases q.finish_cases layout keep key with ⟨rfl, hkept⟩ | ⟨rfl, hremoves⟩
    · exact ⟨by simp [finish], rfl⟩
    · generalize hr : q.finish layout false key = r at hremoves
      cases hremoves with
      | failed => exact ⟨by simp [hr], by simp [hr]⟩
      | skipped _ => exact ⟨by simp [hr], by simp [hr]⟩
      | applied u found =>
        have hremoved : (q.set (.running key) none).files (.running key) = none :=
          q.files_set_self _ _
        show ((q.set (.running key) none).finish layout false key).1 ≠ .applied ∧
          ((q.set (.running key) none).finish layout false key).2 = q.set (.running key) none
        rcases (q.set (.running key) none).finish_cases layout false key with
          ⟨hfalse, -⟩ | ⟨-, hagain⟩
        · cases hfalse
        · generalize (q.set (.running key) none).finish layout false key = r' at hagain
          cases hagain with
          | failed => exact ⟨by simp, rfl⟩
          | skipped _ => exact ⟨by simp, rfl⟩
          | applied v found' =>
            rw [hremoved] at found'
            cases found'

end Settling

end Queue

end ReplicationQueue
