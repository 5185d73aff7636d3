import Mathlib.Algebra.Group.Nat.Defs
import ReplicationQueue.Proofs.Claimable

/-! When two updates have one key. The four fields are digested one to a line, so updates whose
fields break in the same places are told apart; an update with a line feed in a field shares its
digested text with another one. Beyond that two updates have one key only where the digest has a
collision. -/

namespace ReplicationQueue

attribute [local irreducible] Path.isTooLong

/-! ### The digested text -/

namespace Update

/-- How many line feeds are in a field. -/
def breaks (u : Update) (field : Field) : Nat :=
  (u.get field).toList.count '\n'

/-- Each field is one line. -/
def IsLines (u : Update) : Prop :=
  ∀ field, '\n' ∉ (u.get field).toList

theorem breaks_eq_zero {u : Update} (h : u.IsLines) (field : Field) : u.breaks field = 0 :=
  List.count_eq_zero.2 (h field)

end Update

namespace TaskKey

theorem toList_preimage (u : Update) :
    (preimage u).toList = u.project.toList ++ '\n' :: (u.ref.toList ++ '\n' ::
      (u.uri.toList ++ '\n' :: u.remote.toList)) := by
  simp [preimage, String.toList_append]

/-- A text is cut at a line feed in one way only, once it is known how many come before. -/
theorem append_break_inj {a b s t : List Char} (h : a ++ '\n' :: s = b ++ '\n' :: t)
    (hcount : a.count '\n' = b.count '\n') : a = b ∧ s = t := by
  induction a generalizing b with
  | nil =>
    cases b with
    | nil => exact ⟨rfl, by simpa using h⟩
    | cons d b =>
      obtain ⟨rfl, -⟩ : '\n' = d ∧ s = b ++ '\n' :: t := by simpa using h
      simp at hcount
  | cons c a ih =>
    cases b with
    | nil =>
      obtain ⟨rfl, -⟩ : c = '\n' ∧ a ++ '\n' :: s = t := by simpa using h
      simp at hcount
    | cons d b =>
      obtain ⟨rfl, htail⟩ : c = d ∧ a ++ '\n' :: s = b ++ '\n' :: t := by simpa using h
      obtain ⟨rfl, rfl⟩ := ih htail (by simpa [List.count_cons] using hcount)
      exact ⟨rfl, rfl⟩

/-- Updates whose fields break in the same places are told apart by the digested text. -/
theorem eq_of_preimage_eq {u v : Update} (h : preimage u = preimage v)
    (hbreaks : ∀ field, u.breaks field = v.breaks field) : u = v := by
  obtain ⟨project, ref, uri, remote⟩ := u
  obtain ⟨project', ref', uri', remote'⟩ := v
  have htext := congrArg String.toList h
  rw [toList_preimage, toList_preimage] at htext
  obtain ⟨hproject, htext⟩ := append_break_inj htext (hbreaks .project)
  obtain ⟨href, htext⟩ := append_break_inj htext (hbreaks .ref)
  obtain ⟨huri, hremote⟩ := append_break_inj htext (hbreaks .uri)
  simp only [String.toList_inj] at hproject href huri hremote
  rw [hproject, href, huri, hremote]

theorem count_preimage (u : Update) :
    (preimage u).toList.count '\n' =
      u.breaks .project + u.breaks .ref + u.breaks .uri + u.breaks .remote + 3 := by
  rw [toList_preimage]
  simp only [List.count_append, List.count_cons_self, Update.breaks, Update.get]
  omega

/-- An update without line feeds shares its digested text with no other. -/
theorem eq_of_isLines {u v : Update} (h : preimage u = preimage v) (hlines : v.IsLines) :
    u = v := by
  have hcount := count_preimage u
  rw [h, count_preimage v] at hcount
  simp only [Update.breaks_eq_zero hlines] at hcount
  refine eq_of_preimage_eq h fun field => ?_
  rw [Update.breaks_eq_zero hlines]
  cases field <;> omega

/-- The text of a field that spans two lines. -/
theorem exists_split {text : String} (h : '\n' ∈ text.toList) :
    ∃ a b : String, text = a ++ "\n" ++ b ∧ a ≠ text ∧ b ≠ text := by
  obtain ⟨a, b, hab⟩ := List.append_of_mem h
  have htext : text = String.ofList a ++ "\n" ++ String.ofList b := by
    apply String.toList_inj.1
    simp [hab]
  have hlength : text.toList.length = a.length + (b.length + 1) := by simp [hab]
  refine ⟨String.ofList a, String.ofList b, htext, ?_, ?_⟩
  · intro ha
    rw [← ha, String.toList_ofList] at hlength
    omega
  · intro hb
    rw [← hb, String.toList_ofList] at hlength
    omega

/-- Where a field has a line feed the lines can be shared out in another way. -/
theorem exists_ne_of_mem {u : Update} {field : Update.Field} (h : '\n' ∈ (u.get field).toList) :
    ∃ v, v ≠ u ∧ preimage v = preimage u := by
  obtain ⟨project, ref, uri, remote⟩ := u
  obtain ⟨a, b, hab, ha, hb⟩ := exists_split h
  cases field with
  | project =>
    refine ⟨⟨a, b, ref ++ "\n" ++ uri, remote⟩, fun hv => ha (congrArg Update.project hv), ?_⟩
    have hproject : project = a ++ "\n" ++ b := hab
    simp only [preimage, hproject, String.append_assoc]
  | ref =>
    refine ⟨⟨project, a, b ++ "\n" ++ uri, remote⟩, fun hv => ha (congrArg Update.ref hv), ?_⟩
    have href : ref = a ++ "\n" ++ b := hab
    simp only [preimage, href, String.append_assoc]
  | uri =>
    refine ⟨⟨project, ref, a, b ++ "\n" ++ remote⟩, fun hv => ha (congrArg Update.uri hv), ?_⟩
    have huri : uri = a ++ "\n" ++ b := hab
    simp only [preimage, huri, String.append_assoc]
  | remote =>
    refine ⟨⟨project, ref, uri ++ "\n" ++ a, b⟩, fun hv => hb (congrArg Update.remote hv), ?_⟩
    have hremote : remote = a ++ "\n" ++ b := hab
    simp only [preimage, hremote, String.append_assoc]

/-- Another update has the digested text of an update just if one of its fields has a line feed. -/
theorem exists_ne_preimage_iff (u : Update) :
    (∃ v, v ≠ u ∧ preimage v = preimage u) ↔ ¬u.IsLines := by
  constructor
  · rintro ⟨v, hne, hv⟩ hlines
    exact hne (eq_of_isLines hv hlines)
  · intro h
    obtain ⟨field, hfield⟩ := Classical.not_forall.1 h
    exact exists_ne_of_mem (Classical.not_not.1 hfield)

end TaskKey

/-! ### Keys and digests -/

namespace Hex

theorem digit_inj {m n : Nat} (hm : m < 16) (hn : n < 16) (h : digit m = digit n) : m = n := by
  have digits : ∀ a b : Fin 16, digit a = digit b → a = b := by decide
  exact congrArg Fin.val (digits ⟨m, hm⟩ ⟨n, hn⟩ h)

/-- Digits tell apart what they can count. -/
theorem padded_inj {width m n : Nat} (hm : m < 16 ^ width) (hn : n < 16 ^ width)
    (h : padded digit width m = padded digit width n) : m = n := by
  induction width generalizing m n with
  | zero => omega
  | succ width ih =>
    obtain ⟨hfront, hlast⟩ := List.append_inj h (by simp)
    have hquotient := ih (by omega) (by omega) hfront
    have hrest := digit_inj (Nat.mod_lt m (by decide)) (Nat.mod_lt n (by decide))
      (List.singleton_inj.1 hlast)
    omega

end Hex

namespace Sha1

/-- Two byte strings that have one digest. -/
def IsCollision (a b : Bytes) : Prop :=
  a ≠ b ∧ digest a = digest b

theorem Digest.hex_inj {x y : Digest} (h : x.hex = y.hex) : x = y := by
  have word : ∀ {a b : UInt32} {s t : List Char},
      Hex.padded Hex.digit 8 a.toNat ++ s = Hex.padded Hex.digit 8 b.toNat ++ t →
        a = b ∧ s = t := by
    intro a b s t hab
    obtain ⟨hfront, htail⟩ := List.append_inj hab (by simp)
    exact ⟨UInt32.toNat_inj.1 (Hex.padded_inj a.toNat_lt b.toNat_lt hfront), htail⟩
  obtain ⟨a, b, c, d, e⟩ := x
  obtain ⟨a', b', c', d', e'⟩ := y
  simp only [hex, List.flatMap_cons] at h
  obtain ⟨ha, h⟩ := word h
  obtain ⟨hb, h⟩ := word h
  obtain ⟨hc, h⟩ := word h
  obtain ⟨hd, h⟩ := word h
  obtain ⟨he, -⟩ := word h
  rw [ha, hb, hc, hd, he]

end Sha1

namespace TaskKey

/-- What is digested for the key of an update. -/
def digested (u : Update) : Bytes :=
  Utf8.encode (preimage u)

theorem digest_eq_of_derive_eq {u v : Update} (h : derive u = derive v) :
    Sha1.digest (digested u) = Sha1.digest (digested v) := by
  have htext := congrArg (String.toList ∘ text) h
  simp only [derive, Function.comp_apply, String.toList_ofList] at htext
  exact Sha1.Digest.hex_inj htext

/-- Two updates that have one key are the same, or one of them has a line feed and they break one
text in different places, or the digest has a collision. -/
inductive Shares (u v : Update) : Prop where
  | same (eq : u = v)
  | broken (digested_eq : digested u = digested v) (lines : ¬v.IsLines)
  | collision (isCollision : Sha1.IsCollision (digested u) (digested v))

theorem shares_of_derive_eq {u v : Update} (h : derive u = derive v) : Shares u v := by
  by_cases hsame : digested u = digested v
  · by_cases hlines : v.IsLines
    · exact .same (eq_of_isLines (Utf8.encode_inj.1 hsame) hlines)
    · exact .broken hsame hlines
  · exact .collision ⟨hsame, digest_eq_of_derive_eq h⟩

end TaskKey

/-! ### Updates that are not queued -/

/-- The record of the update is in a waiting file of the key. -/
def Site.Waits (site : Site) (s : System) (key : TaskKey) (u : Update) : Prop :=
  ∃ l ∈ site.waitingFiles s key, s.disk.get? l = some (.file u.record)

namespace Queue

variable {q : Queue} {layout : Layout} {key : TaskKey}

/-- A key that waits has a record at one of its waiting places. -/
theorem exists_of_isWaiting (h : q.isWaiting layout key = true) :
    ∃ pl w, pl ∈ q.waitingPlaces key ∧ pl.key = key ∧ q.files pl = some w := by
  have place : ∀ pl : Place, pl = .flat key ∨ pl = .sharded key → q.finds layout pl = true →
      ∃ pl w, pl ∈ q.waitingPlaces key ∧ pl.key = key ∧ q.files pl = some w := by
    intro pl hpl hfinds
    have hsome : (q.files pl).isSome := ((Bool.and_eq_true _ _).mp hfinds).2
    obtain ⟨w, hw⟩ := Option.isSome_iff_exists.1 hsome
    refine ⟨pl, w, List.mem_filter.2 ⟨?_, hsome⟩, ?_, hw⟩
    · rcases hpl with rfl | rfl <;> simp
    · rcases hpl with rfl | rfl <;> rfl
  unfold isWaiting at h
  rw [Bool.or_eq_true] at h
  rcases h with h | h
  · refine place _ ?_ h
    unfold Layout.waitingPlace
    cases layout.waitingLayout
    · exact .inl rfl
    · exact .inr rfl
  · exact place _ (.inl rfl) h

end Queue

namespace Site.Runs

variable {site : Site} {s : Session} {q : Queue} {queued : Update → Prop} {handle : Nat}
  {store : Store}

/-- An update that is not queued is kept back by a record of its own key that waits. -/
theorem waits_of_addsNoFile (h : site.Runs s q) (hq : q.Holds queued)
    (hstore : s.stores[handle]? = some store) (hwrites : site.writes store.layout = true)
    {v : Update} (hadds : s.system.AddsNoFile (s.step (.on handle (.create v))).2.system) :
    ∃ u, queued u ∧ TaskKey.derive u = .derive v ∧ site.Waits s.system (.derive v) u := by
  obtain ⟨pl, u, hpl, hkey, hu⟩ :=
    Queue.exists_of_isWaiting (h.isWaiting_of_addsNoFile hstore hwrites hadds)
  obtain ⟨hqueued, hderive⟩ := hq pl u hu
  refine ⟨u, hqueued, hderive ▸ hkey, site.root ++ pl.names, ?_, ?_⟩
  · rw [h.waitingFiles_eq]
    exact List.mem_map_of_mem hpl
  · rw [h.get?_names, hu]
    rfl

end Site.Runs

namespace Session

/-- The digested text tells apart all updates whose fields break in the same places, and it tells
an update apart from all others just if no field of it has a line feed. So updates have one key only
where they share a text in this way or the digest has a collision, and an update that is not queued,
though its record could be written, shares its key so with a queued update that waits. -/
theorem keys_tell_apart (u v : Update) :
    (TaskKey.digested u = TaskKey.digested v → (∀ field, u.breaks field = v.breaks field) →
      u = v) ∧
    ((∃ w, w ≠ u ∧ TaskKey.digested w = TaskKey.digested u) ↔
      ∃ field, '\n' ∈ (u.get field).toList) ∧
    (TaskKey.derive u = .derive v → TaskKey.Shares u v) ∧
    ∀ (site : Site) (s : Session), site.IsBareIn s.system → s.stores = [] →
      ∀ steps : List Step, (∀ layout, .open layout ∈ steps → site.Opens layout) →
        ∀ (handle : Nat) (store : Store), (s.run steps).2.stores[handle]? = some store →
          site.writes store.layout = true →
            (s.run steps).2.system.AddsNoFile
                ((s.run steps).2.step (.on handle (.create v))).2.system →
              ∃ w, Queued steps w ∧ site.Waits (s.run steps).2.system (.derive v) w ∧
                TaskKey.Shares w v := by
  refine ⟨fun h hbreaks => TaskKey.eq_of_preimage_eq (Utf8.encode_inj.1 h) hbreaks, ?_,
    fun h => TaskKey.shares_of_derive_eq h, ?_⟩
  · have hiff := TaskKey.exists_ne_preimage_iff u
    simp only [Update.IsLines, Classical.not_forall, Classical.not_not] at hiff
    simpa only [TaskKey.digested, Utf8.encode_inj] using hiff
  · intro site s hbare hstores steps hopen handle store hstore hwrites hadds
    obtain ⟨q, hruns, hq⟩ :=
      holds_run (Site.runs_bare hbare hstores) (Queue.holds_fresh _) steps hopen fun _ hu => hu
    obtain ⟨w, hqueued, hkey, hwaits⟩ := hruns.waits_of_addsNoFile hq hstore hwrites hadds
    exact ⟨w, hqueued, hwaits, TaskKey.shares_of_derive_eq hkey⟩

/-- An update whose key waits on the empty disk is not queued again. -/
theorem create_again_blank {u v : Update} (hkey : TaskKey.derive u = .derive v) :
    (blank.run [.open (Site.layoutHere 0 .flat), .on 0 (.create u)]).2.system.AddsNoFile
      ((blank.run [.open (Site.layoutHere 0 .flat), .on 0 (.create u)]).2.step
        (.on 0 (.create v))).2.system := by
  have hshares := (shares_blank.step_open (serves_blank .flat)).step_create 0 rfl u
  have hstore := hshares.getElem?_stores 0 rfl
  have hshows := hshares.runs.shows_of_store hstore
  have hcreate := hshares.runs.step_create hstore v
  rw [run_cons_snd, run_cons_snd, run_nil_snd]
  rw [writes_blank] at hshows hcreate
  have hwaiting : (Queue.fresh.create (Site.layoutHere 0 .flat) true u).isWaiting
      (Site.layoutHere 0 .flat) (.derive v) = true := by
    rw [Queue.isWaiting, Queue.finds_of_reaches (reaches_blank .flat),
      Queue.files_create_fresh (reaches_blank .flat), hkey, Function.update_self]
    rfl
  rw [Queue.create, if_pos hwaiting] at hcreate
  exact hshows.addsNoFile hcreate

theorem keys_tell_apart_again :
    Site.blank.IsBareIn blank.system ∧ blank.stores = [] ∧
      (∀ layout, .open layout ∈ [Step.open (Site.layoutHere 0 .flat),
        .on 0 (.create ⟨"p", "refs/heads/m", "https://h/p", "h"⟩)] → Site.blank.Opens layout) ∧
      (blank.run [.open (Site.layoutHere 0 .flat),
        .on 0 (.create ⟨"p", "refs/heads/m", "https://h/p", "h"⟩)]).2.stores[0]? =
          some ⟨Site.layoutHere 0 .flat, false⟩ ∧
      Site.blank.writes (Site.layoutHere 0 .flat) = true ∧
      ∃ u, Queued [.open (Site.layoutHere 0 .flat),
          .on 0 (.create ⟨"p", "refs/heads/m", "https://h/p", "h"⟩)] u ∧
        Site.blank.Waits (blank.run [.open (Site.layoutHere 0 .flat),
          .on 0 (.create ⟨"p", "refs/heads/m", "https://h/p", "h"⟩)]).2.system
            (.derive ⟨"p", "refs/heads/m", "https://h/p", "h"⟩) u ∧
        TaskKey.Shares u ⟨"p", "refs/heads/m", "https://h/p", "h"⟩ := by
  generalize (⟨"p", "refs/heads/m", "https://h/p", "h"⟩ : Update) = u
  have hstore := (lists_created .flat u).1
  have hopen : ∀ layout, .open layout ∈ [Step.open (Site.layoutHere 0 .flat), .on 0 (.create u)] →
      Site.blank.Opens layout := by
    simp [opens_blank]
  exact ⟨isBareIn_blank, rfl, hopen, hstore, writes_blank .flat,
    (keys_tell_apart u u).2.2.2 .blank blank isBareIn_blank rfl _ hopen 0 _ hstore
      (writes_blank .flat) (create_again_blank rfl)⟩

/-- Two updates that break one text in different places have one key, and the second is not queued
while the first waits. -/
theorem keys_not_apart_broken :
    (⟨"p\nq", "r", "https://h/p", "h"⟩ : Update) ≠ ⟨"p", "q\nr", "https://h/p", "h"⟩ ∧
      TaskKey.digested ⟨"p\nq", "r", "https://h/p", "h"⟩ =
        TaskKey.digested ⟨"p", "q\nr", "https://h/p", "h"⟩ ∧
      TaskKey.derive ⟨"p\nq", "r", "https://h/p", "h"⟩ =
        .derive ⟨"p", "q\nr", "https://h/p", "h"⟩ ∧
      (blank.run [.open (Site.layoutHere 0 .flat),
        .on 0 (.create ⟨"p\nq", "r", "https://h/p", "h"⟩)]).2.system.AddsNoFile
        ((blank.run [.open (Site.layoutHere 0 .flat),
          .on 0 (.create ⟨"p\nq", "r", "https://h/p", "h"⟩)]).2.step
            (.on 0 (.create ⟨"p", "q\nr", "https://h/p", "h"⟩))).2.system := by
  have htext : TaskKey.preimage ⟨"p\nq", "r", "https://h/p", "h"⟩ =
      TaskKey.preimage ⟨"p", "q\nr", "https://h/p", "h"⟩ := by
    decide
  have hdigested := Utf8.encode_inj.2 htext
  have hkey : TaskKey.derive ⟨"p\nq", "r", "https://h/p", "h"⟩ =
      .derive ⟨"p", "q\nr", "https://h/p", "h"⟩ := by
    unfold TaskKey.derive
    simp only [hdigested]
  exact ⟨by decide, hdigested, hkey, create_again_blank hkey⟩

end Session

end ReplicationQueue
