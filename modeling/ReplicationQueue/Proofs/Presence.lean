import ReplicationQueue.Proofs.InFlight
import ReplicationQueue.Proofs.RoundTrip

/-! No task is lost or invented. Whatever stores are used, a key gets a file by being queued only
and loses its last one by being finished or dropped only, and what its files hold was queued under
it. -/

namespace ReplicationQueue

attribute [local irreducible] Path.isTooLong

namespace Queue

/-- Whether a file of the key is in any of its places. -/
def Present (q : Queue) (key : TaskKey) : Prop :=
  ∃ pl : Place, pl.key = key ∧ (q.files pl).isSome

/-- An act that erases files of the key. -/
def Act.Drops (key : TaskKey) : Act → Prop
  | .finish _ _ other | .delete _ other => other = key
  | .create _ _ _ | .start _ _ | .reset _ _ => False

variable {q : Queue} {key : TaskKey}

namespace Act

variable {a : Act}

/-- A file that is put somewhere is there, and the others are where they were. -/
theorem present_put {files : Place → Option Update} (hfiles : (a.apply q).files = files)
    {dst : Place} {u : Update} {erased : Place → Option Update}
    (hput : files = Function.update erased dst (some u))
    (herased : ∀ pl : Place, pl.key ≠ dst.key → erased pl = q.files pl) (h : q.Present key) :
    (a.apply q).Present key := by
  by_cases hkey : dst.key = key
  · refine ⟨dst, hkey, ?_⟩
    rw [hfiles, hput, Function.update_self]
    rfl
  · obtain ⟨pl, rfl, hfile⟩ := h
    have hpl : pl ≠ dst := fun heq => hkey (heq ▸ rfl)
    refine ⟨pl, rfl, ?_⟩
    rwa [hfiles, hput, Function.update_of_ne hpl, herased pl fun heq => hkey heq.symm]

theorem present_apply (h : q.Present key) : (a.apply q).Present key ∨ a.Drops key := by
  have hdoes := a.does_apply q
  generalize a.outcome? q = outcome at hdoes
  generalize hfiles : (a.apply q).files = files at hdoes
  have hother : ∀ {src : Place} {pl : Place}, pl.key ≠ src.key →
      Function.update q.files src none pl = q.files pl := fun {src pl} hpl =>
    Function.update_of_ne (fun heq : pl = src => hpl (heq ▸ rfl)) ..
  have hgone : ∀ {src : Place}, files = Function.update q.files src none →
      (a.apply q).Present key ∨ src.key = key := by
    intro src hsrc
    obtain ⟨pl, rfl, hfile⟩ := h
    by_cases hpl : src.key = pl.key
    · exact .inr hpl
    · exact .inl ⟨pl, rfl, by rwa [hfiles, hsrc, hother (Ne.symm hpl)]⟩
  cases hdoes with
  | nothing _ _ =>
    obtain ⟨pl, rfl, hfile⟩ := h
    exact .inl ⟨pl, rfl, by rwa [hfiles]⟩
  | create layout u => exact .inl (present_put hfiles rfl (fun _ _ => rfl) h)
  | start layout other found =>
    have hkey : (q.source layout other).key = (Place.running other).key := q.key_source layout other
    exact .inl (present_put hfiles rfl (fun pl hpl => hother (hkey ▸ hpl)) h)
  | reset layout other found =>
    have hkey : (Place.running other).key = (layout.waitingPlace other).key :=
      (layout.key_waitingPlace other).symm
    exact .inl (present_put hfiles rfl (fun pl hpl => hother (hkey ▸ hpl)) h)
  | finish layout other found => exact hgone rfl
  | @delete layout other pl waits =>
    have hkey : pl.key = other := by
      rcases waits with rfl | rfl
      · exact layout.key_waitingPlace other
      · rfl
    exact (hgone rfl).imp_right fun hpl => hkey ▸ hpl

end Act

/-- A record was there before, under the same key, or is that of an update that was queued. -/
theorem origin_after {acts : List Act} {pl : Place} {u : Update}
    (h : (q.after acts).files pl = some u) :
    (∃ pl' : Place, pl'.key = pl.key ∧ q.files pl' = some u) ∨
      ∃ layout writes, .create layout writes u ∈ acts ∧ pl.key = .derive u := by
  induction acts generalizing q with
  | nil => exact .inl ⟨pl, rfl, h⟩
  | cons a rest ih =>
    rcases ih h with ⟨pl', hkey, hu⟩ | ⟨layout, writes, hmem, hkey⟩
    · rcases a.origin hu with ⟨pl'', hkey', hu'⟩ | ⟨layout, writes, rfl, hderive⟩
      · exact .inl ⟨pl'', hkey'.trans hkey, hu'⟩
      · exact .inr ⟨layout, writes, by simp, hkey ▸ hderive⟩
    · exact .inr ⟨layout, writes, List.mem_cons_of_mem a hmem, hkey⟩

theorem present_of_after {acts : List Act} (h : (q.after acts).Present key) :
    q.Present key ∨ ∃ layout writes u, .create layout writes u ∈ acts ∧ key = .derive u := by
  obtain ⟨pl, rfl, hfile⟩ := h
  obtain ⟨u, hu⟩ := Option.isSome_iff_exists.1 hfile
  rcases origin_after hu with ⟨pl', hkey, hu'⟩ | ⟨layout, writes, hmem, hkey⟩
  · exact .inl ⟨pl', hkey, by rw [hu']; rfl⟩
  · exact .inr ⟨layout, writes, u, hmem, hkey⟩

theorem present_after {acts : List Act} (h : q.Present key) :
    (q.after acts).Present key ∨ ∃ a ∈ acts, a.Drops key := by
  induction acts generalizing q with
  | nil => exact .inl h
  | cons a rest ih =>
    rcases a.present_apply h with hpresent | hdrops
    · exact (ih hpresent).imp_right fun ⟨b, hb, hdrops⟩ => ⟨b, by simp [hb], hdrops⟩
    · exact .inr ⟨a, by simp, hdrops⟩

/-- What is queued is present where its record can be written. -/
theorem present_create {layout : Layout} (hreach : ∀ pl, layout.reaches pl = true) (u : Update) :
    (q.create layout true u).Present (.derive u) := by
  rw [Present, create_files hreach]
  by_cases hwaiting : q.isWaiting layout (.derive u) = true
  · rw [if_pos hwaiting]
    rw [isWaiting, finds_of_reaches hreach, finds_of_reaches hreach, Bool.or_eq_true] at hwaiting
    rcases hwaiting with hplace | hflat
    · exact ⟨_, layout.key_waitingPlace _, hplace⟩
    · exact ⟨_, rfl, hflat⟩
  · rw [if_neg hwaiting]
    exact ⟨_, layout.key_waitingPlace _, by rw [Function.update_self]; rfl⟩

end Queue

/-- The keys that a request finishes or drops. -/
def Request.dropped : Request → List TaskKey
  | .finish p => p.keys
  | .delete u => [.derive u]
  | _ => []

theorem Request.mem_dropped {store : Store} {writes : Bool} {running : List TaskKey}
    {request : Request} {a : Queue.Act} (ha : a ∈ request.acts store writes running)
    {key : TaskKey} (hdrops : a.Drops key) : key ∈ request.dropped := by
  cases request with
  | create u => rw [List.mem_singleton.1 ha] at hdrops; exact hdrops.elim
  | delete u => rw [List.mem_singleton.1 ha] at hdrops; exact List.mem_singleton.2 hdrops.symm
  | start p => obtain ⟨other, -, rfl⟩ := List.mem_map.1 ha; exact hdrops.elim
  | reset p => obtain ⟨other, -, rfl⟩ := List.mem_map.1 ha; exact hdrops.elim
  | finish p => obtain ⟨other, hother, rfl⟩ := List.mem_map.1 ha; exact hdrops ▸ hother
  | resetAll => obtain ⟨other, -, rfl⟩ := List.mem_map.1 ha; exact hdrops.elim
  | _ => simp [Request.acts] at ha

/-- A file of the key is in the running or the waiting directory or in the key's shard. -/
def Site.Present (site : Site) (s : System) (key : TaskKey) : Prop :=
  site.Running s key ∨ site.Waiting s key

/-- What a request does to the tasks of a queue. -/
structure Session.KeepsTasks (site : Site) (s : Session) (queued : Update → Prop) (store : Store)
    (request : Request) (s' : Session) : Prop where
  /-- Only queueing adds a key, and it does where the record can be written. -/
  added : ∀ key, site.Present s'.system key → ¬site.Present s.system key →
    ∃ u, request = .create u ∧ key = .derive u
  created : ∀ u, request = .create u → site.writes store.layout = true →
    site.Present s'.system (.derive u)
  /-- Only finishing and dropping take a key away, and no other key than their own. -/
  removed : ∀ key, site.Present s.system key → ¬site.Present s'.system key →
    (∃ p, request = .finish p ∧ key ∈ p.keys) ∨ ∃ u, request = .delete u ∧ key = .derive u
  /-- Each file holds a record that was queued under its key, and that a file of the key held before
  or that is queued now. -/
  records : ∀ (pl : Place) contents,
    s'.system.disk.get? (site.root ++ pl.names) = some (.file contents) →
      ∃ u, contents = Utf8.encode (u.toJson ++ "\n") ∧ pl.key = .derive u ∧
        (request = .create u ∨ queued u ∧ ∃ pl' : Place, pl'.key = pl.key ∧
          s.system.disk.get? (site.root ++ pl'.names) = some (.file contents))

namespace Site

variable {site : Site} {s : Session} {q : Queue} {handle : Nat} {store : Store}

theorem Runs.present_iff (h : site.Runs s q) {key : TaskKey} :
    site.Present s.system key ↔ q.Present key := by
  have hplace : ∀ pl : Place, (∃ contents, s.system.disk.get? (site.root ++ pl.names) =
      some (.file contents)) ↔ (q.files pl).isSome := by
    intro pl
    rw [h.get?_names]
    cases q.files pl <;> simp
  constructor
  · rintro (hrunning | hflat | hsharded)
    · exact ⟨.running key, rfl, (hplace _).1 hrunning⟩
    · exact ⟨.flat key, rfl, (hplace _).1 hflat⟩
    · exact ⟨.sharded key, rfl, (hplace _).1 hsharded⟩
  · rintro ⟨pl, rfl, hfile⟩
    have hcontents := (hplace pl).2 hfile
    cases pl with
    | running key => exact .inl hcontents
    | flat key => exact .inr (.inl hcontents)
    | sharded key => exact .inr (.inr hcontents)

theorem Runs.keepsTasks (h : site.Runs s q) {queued : Update → Prop} (hq : q.Holds queued)
    (hstore : s.stores[handle]? = some store) (request : Request) :
    s.KeepsTasks site queued store request (s.step (.on handle request)).2 := by
  obtain ⟨running, -, hruns⟩ := h.step_request hstore request
  constructor
  case added =>
    intro key hafter hbefore
    rw [hruns.present_iff] at hafter
    rw [h.present_iff] at hbefore
    obtain ⟨layout, writes, u, hmem, hkey⟩ := (Queue.present_of_after hafter).resolve_left hbefore
    exact ⟨u, (Queue.create_mem_acts hmem).1, hkey⟩
  case created =>
    rintro u rfl hwrites
    rw [hruns.present_iff, Request.acts, hwrites]
    exact Queue.present_create (reaches_of_writes hwrites) u
  case removed =>
    intro key hbefore hafter
    rw [h.present_iff] at hbefore
    rw [hruns.present_iff] at hafter
    obtain ⟨a, ha, hdrops⟩ := (Queue.present_after hbefore).resolve_left hafter
    have hmem := Request.mem_dropped ha hdrops
    cases request with
    | finish p => exact .inl ⟨p, rfl, hmem⟩
    | delete u => exact .inr ⟨u, rfl, List.mem_singleton.1 hmem⟩
    | _ => cases hmem
  case records =>
    intro pl contents hfile
    rw [hruns.get?_names] at hfile
    obtain ⟨u, hu, hcontents⟩ := Option.map_eq_some_iff.1 hfile
    rcases Queue.origin_after hu with ⟨pl', hkey, hu'⟩ | ⟨layout, writes, hmem, hkey⟩
    · obtain ⟨hqueued, hderive⟩ := hq pl' u hu'
      refine ⟨u, (Entry.file.inj hcontents).symm, hkey ▸ hderive, .inr ⟨hqueued, pl', hkey, ?_⟩⟩
      rw [h.get?_names, hu']
      exact congrArg some hcontents
    · exact ⟨u, (Entry.file.inj hcontents).symm, hkey, .inl (Queue.create_mem_acts hmem).1⟩

end Site

namespace Session

/-- Stores of any layouts lose no task and invent none. -/
theorem tasks_kept (site : Site) (s : Session) (hbare : site.IsBareIn s.system)
    (hstores : s.stores = []) (steps : List Step)
    (hopen : ∀ layout, .open layout ∈ steps → site.Opens layout) (handle : Nat) (store : Store)
    (hstore : (s.run steps).2.stores[handle]? = some store) (request : Request) :
    (s.run steps).2.KeepsTasks site (Queued steps) store request
      ((s.run steps).2.step (.on handle request)).2 := by
  obtain ⟨q, hruns, hq⟩ :=
    holds_run (Site.runs_bare hbare hstores) (Queue.holds_fresh _) steps hopen fun _ hu => hu
  exact hruns.keepsTasks hq hstore request

theorem tasks_kept_created :
    (∀ layout, .open layout ∈ [Step.open (Site.layoutHere 0 .flat),
        .open (Site.layoutHere 0 .sharded)] → Site.blank.Opens layout) ∧
      (blank.run [.open (Site.layoutHere 0 .flat),
        .open (Site.layoutHere 0 .sharded)]).2.stores[1]? =
          some ⟨Site.layoutHere 0 .sharded, false⟩ ∧
      (blank.run [.open (Site.layoutHere 0 .flat),
        .open (Site.layoutHere 0 .sharded)]).2.KeepsTasks .blank
          (Queued [.open (Site.layoutHere 0 .flat), .open (Site.layoutHere 0 .sharded)])
          ⟨Site.layoutHere 0 .sharded, false⟩
          (.create ⟨"p", "refs/heads/m", "https://h/p", "h"⟩)
          ((blank.run [.open (Site.layoutHere 0 .flat),
            .open (Site.layoutHere 0 .sharded)]).2.step
              (.on 1 (.create ⟨"p", "refs/heads/m", "https://h/p", "h"⟩))).2 ∧
      Site.blank.Present ((blank.run [.open (Site.layoutHere 0 .flat),
            .open (Site.layoutHere 0 .sharded)]).2.step
              (.on 1 (.create ⟨"p", "refs/heads/m", "https://h/p", "h"⟩))).2.system
        (.derive ⟨"p", "refs/heads/m", "https://h/p", "h"⟩) := by
  generalize (⟨"p", "refs/heads/m", "https://h/p", "h"⟩ : Update) = u
  have hopen : ∀ layout, .open layout ∈ [Step.open (Site.layoutHere 0 .flat),
      .open (Site.layoutHere 0 .sharded)] → Site.blank.Opens layout := by
    simp [opens_blank]
  have hshares := (shares_blank.step_open (serves_blank .flat)).step_open (serves_blank .sharded)
  have hstore : (blank.run [.open (Site.layoutHere 0 .flat),
      .open (Site.layoutHere 0 .sharded)]).2.stores[1]? =
        some ⟨Site.layoutHere 0 .sharded, false⟩ := by
    rw [run_cons_snd, run_cons_snd, run_nil_snd]
    exact hshares.getElem?_stores 1 rfl
  have hkeeps := tasks_kept .blank blank isBareIn_blank rfl _ hopen 1 _ hstore (.create u)
  exact ⟨hopen, hstore, hkeeps, hkeeps.created u rfl (writes_blank .sharded)⟩

/-- An update whose record cannot be written, for its path is too long, is answered with its key but
not queued. -/
theorem not_present_long :
    ∃ s, blank.run [.open (Site.layoutHere 2036 .flat),
        .on 0 (.create ⟨"p", "refs/heads/m", "https://h/p", "h"⟩)] =
          ([.done, .key (.derive ⟨"p", "refs/heads/m", "https://h/p", "h"⟩)], s) ∧
      ¬Site.blank.Present s.system (.derive ⟨"p", "refs/heads/m", "https://h/p", "h"⟩) := by
  generalize (⟨"p", "refs/heads/m", "https://h/p", "h"⟩ : Update) = u
  obtain ⟨s, hrun, -, hruns⟩ := run_blank_create (n := 2036) (w := .flat) (by decide) u
  refine ⟨s, hrun, ?_⟩
  have hwrites : Site.blank.writes (Site.layoutHere 2036 .flat) = false := by
    rw [Site.writes_here]
    decide
  have hfiles := (Queue.fresh.create_cases (Site.layoutHere 2036 .flat)
    (Site.blank.writes (Site.layoutHere 2036 .flat)) u).2
  rw [hwrites] at hfiles hruns
  rcases hfiles with hfiles | ⟨hfalse, -⟩
  · rw [hruns.present_iff]
    rintro ⟨pl, -, hfile⟩
    rw [hfiles] at hfile
    cases hfile
  · cases hfalse

end Session

end ReplicationQueue
