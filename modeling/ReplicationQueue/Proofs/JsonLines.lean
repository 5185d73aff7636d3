import ReplicationQueue.Console
import ReplicationQueue.Proofs.Configuration
import ReplicationQueue.Proofs.Fragment
import ReplicationQueue.Proofs.Outcome
import ReplicationQueue.Proofs.Telling

/-! The listing of a queue as lines of JSON. No line end is in what an update is written as, so the
lines of the output are the records that were listed, each of which reads back as it was. -/

namespace ReplicationQueue

open Plan

/-! ### Lines -/

/-- The output is cut at its line ends into one line for each record, in their order, and nothing
after the last. No line is empty, and each is read as its record. -/
def HasLines (output : String) (records : List Update) : Prop :=
  ∃ lines : List String, (output.toList.splitOn '\n').map String.ofList = lines ++ [""] ∧
    List.Forall₂ (fun line u => line ≠ "" ∧ Update.parse (Utf8.encode line) = .ok u) lines records

namespace Json

theorem shortEscape?_ne_newline (c : Char) : shortEscape? c ≠ some '\n' := by
  unfold shortEscape?
  split
  · rename_i hc
    rcases hc with rfl | rfl <;> decide
  · repeat' split
    all_goals simp

theorem newline_not_mem_writeChar (c : Char) : '\n' ∉ writeChar c := by
  have hdigit : ∀ n < 16, Hex.digit n ≠ '\n' := by decide
  unfold writeChar
  split
  · rename_i e he
    have hne : e ≠ '\n' := by
      rintro rfl
      exact shortEscape?_ne_newline c he
    simp [hne.symm]
  · split
    · intro hmem
      rw [List.mem_append] at hmem
      rcases hmem with hmem | hmem
      · simp at hmem
      · exact Hex.forall_mem_padded (p := (· ≠ '\n')) hdigit 4 c.toNat _ hmem rfl
    · rename_i hc
      rw [List.mem_singleton]
      rintro rfl
      exact hc (by decide)

theorem newline_not_mem_literal (text : String) : '\n' ∉ (literal text).toList := by
  simp [literal, newline_not_mem_writeChar]

end Json

namespace Update

theorem newline_not_mem_toJson (u : Update) : '\n' ∉ u.toJson.toList := by
  have hmember : ∀ field, '\n' ∉ (u.writeMember field).toList := by
    intro field
    simp [writeMember, Json.newline_not_mem_literal]
  have hjoin : u.toJson = "\x7b" ++ (u.writeMember .project ++ "," ++ u.writeMember .ref ++ "," ++
      u.writeMember .uri ++ "," ++ u.writeMember .remote) ++ "\x7d" := rfl
  rw [hjoin]
  simp [hmember]

theorem toJson_ne_empty (u : Update) : u.toJson ≠ "" := by
  intro h
  have := congrArg String.toList h
  simp [toJson] at this

end Update

theorem hasLines_join (records : List Update) :
    HasLines (String.join (records.map fun u => u.toJson ++ "\n")) records := by
  induction records with
  | nil => exact ⟨[], by simp [List.splitOn_nil], .nil⟩
  | cons u rest ih =>
    obtain ⟨lines, hlines, hrest⟩ := ih
    refine ⟨u.toJson :: lines, ?_, .cons ⟨u.toJson_ne_empty, u.parse_toJson⟩ hrest⟩
    have hcut : (String.join ((u :: rest).map fun u => u.toJson ++ "\n")).toList =
        u.toJson.toList ++ '\n' :: (String.join (rest.map fun u => u.toJson ++ "\n")).toList := by
      simp [String.join_cons]
    rw [hcut, List.splitOn_append_cons_self_of_not_mem u.newline_not_mem_toJson, List.map_cons,
      hlines, String.ofList_toList]
    rfl

/-! ### What was noted before -/

/-- No plan can tell what was noted before it. -/
theorem Plan.run_log {α : Type} (plan : Plan α) (s : System) (log : List Event) :
    ∃ log', plan.run { s with log } = ((plan.run s).1, { (plan.run s).2 with log := log' }) := by
  induction plan generalizing s log with
  | done value => exact ⟨log, rfl⟩
  | call c next ih =>
    have hstep : ∀ s, (call c next).run s = (next (s.answer c).1).run (s.answer c).2 := fun _ => rfl
    rw [hstep, hstep, s.answer_log log c]
    exact ih _ _ _

/-! ### Listings -/

/-- The directory that is listed for a selection. -/
def Layout.directoryFor (layout : Layout) : Selection → Path
  | .all => layout.refUpdates
  | .waiting => layout.waiting
  | .running => layout.running
  | .building => layout.building

namespace Store

variable (store : Store)

/-- The listing for each state that can be asked for. -/
def selections : List (Selection × Plan (List Update)) :=
  [(.all, store.list), (.waiting, store.listWaiting), (.running, store.listRunning),
    (.building, store.listBuilding)]

theorem mem_selections_iff {selection : Selection} {listing : Plan (List Update)} :
    (selection, listing) ∈ store.selections ↔ listing = Console.select store selection := by
  cases selection <;> simp [selections, Console.select]

/-- Every store of the queue lists the same, whatever was noted. -/
theorem run_listBelow_eq (other : Store) (p : Path) (s : System) (log : List Event) :
    ((store.listBelow p).run { s with log }).1 = ((other.listBelow p).run s).1 := by
  obtain ⟨log', hrun⟩ := (store.listBelow p).run_log s log
  rw [hrun]
  simp only [listBelow, run_bind]
  cases ((Files.ensureDirectory p).run s).1 with
  | error error => rfl
  | ok _ => simp only [run_bind, run_readRecords]

theorem select_eq (selection : Selection) :
    Console.select store selection = store.listBelow (store.layout.directoryFor selection) := by
  cases selection <;> rfl

theorem run_select_eq {other : Store} (h : other.layout = store.layout) (selection : Selection)
    (s : System) (log : List Event) :
    ((Console.select store selection).run { s with log }).1 =
      ((Console.select other selection).run s).1 := by
  rw [select_eq, select_eq, h]
  exact store.run_listBelow_eq other _ s log

end Store

/-! ### The queue of a command line -/

namespace Config

variable {env : Environment}

theorem run_loadFile (path : Path) (s : System) : ((loadFile env path).run s).2 = s := by
  simp only [loadFile, run_bind, run_read]
  cases s.disk.contents s.cwd path with
  | error cause => rfl
  | ok bytes =>
    simp only
    cases Utf8.decode? bytes with
    | none => rfl
    | some text =>
      simp only
      cases ofYaml? (standard env) text <;> rfl

theorem run_loadFirst (paths : List Path) (s : System) : ((loadFirst env paths).run s).2 = s := by
  induction paths with
  | nil => rfl
  | cons path rest ih =>
    rw [loadFirst, run_exists?_bind]
    split
    · exact run_loadFile path s
    · exact ih

theorem run_load (config : Option Path) (s : System) : ((load env config).run s).2 = s := by
  cases config with
  | some path => exact run_loadFile path s
  | none => exact run_loadFirst (usualPaths env) s

end Config

namespace Console

/-- The queue that a command line is about, given the configuration. -/
def queueOf (config : Config) (line : CommandLine) : Layout :=
  ⟨line.eventsDirectory.getD config.eventsDirectory, config.waitingLayout⟩

/-- Opens a queue, or tells why not. -/
def openQueue (layout : Layout) : Plan (Except String Store) := do
  note (.usingQueue layout.events)
  match ← Store.ofLayout layout with
  | .error _ => return .error "Failed to open task storage"
  | .ok store => return .ok store

/-- What a command does before it works on a queue. -/
def openStore (env : Environment) (line : CommandLine) : Plan (Except String Store) := do
  match ← Config.load env line.config with
  | .error _ => return .error "Failed to load configuration"
  | .ok config => openQueue (queueOf config line)

/-- The arguments ask for the records of a selection as JSON. -/
structure Asks (args : List String) (line : CommandLine) (selection : Selection) : Prop where
  parse : CommandLine.parse args = .ok line
  command : line.command = .list selection true

variable {env : Environment} {args : List String} {line : CommandLine} {selection : Selection}
  {s : System}

/-- How a command ends and what it leaves, by how opening its queue ended. -/
def goOn (next : Store → Plan Report) : Except String Store × System → Report × System
  | (.error message, opened) => (.failure message, opened)
  | (.ok store, opened) => (next store).run opened

theorem run_withStore (config : Config) (next : Store → Plan Report) (s : System) :
    (withStore config next).run s =
      goOn next ((openQueue ⟨config.eventsDirectory, config.waitingLayout⟩).run s) := by
  rw [withStore, openQueue]
  simp only [run_bind, run_note]
  generalize (Store.ofLayout _).run _ = answered
  obtain ⟨answer, opened⟩ := answered
  cases answer <;> rfl

theorem run_asked (h : Asks args line selection) :
    (run env args).run s = goOn (fun store => do
      return .success (describeRecords (isColoured env) true (← select store selection)))
        ((openStore env line).run s) := by
  obtain ⟨config, directory, verbose, command⟩ := line
  obtain ⟨hparse, rfl⟩ := h
  rw [run, hparse]
  simp only [runLine, openStore, run_bind, Config.run_load]
  cases ((Config.load env config).run s).1 with
  | error error => rfl
  | ok config =>
    cases directory with
    | none => exact run_withStore config _ s
    | some path => exact run_withStore { config with eventsDirectory := path } _ s

theorem run_asked_opened (h : Asks args line selection) {store : Store} {opened : System}
    (hopen : (openStore env line).run s = (.ok store, opened)) :
    (run env args).run s =
      (.success (String.join (((select store selection).run opened).1.map fun u =>
        u.toJson ++ "\n")), ((select store selection).run opened).2) := by
  rw [run_asked h, hopen, goOn, run_bind]
  rfl

end Console

/-! ### Opening a queue that is there -/

/-- The directories of the queue are there. -/
def Layout.IsMade (layout : Layout) (s : System) : Prop :=
  ∀ directory ∈ [layout.building, layout.running, layout.waiting],
    s.disk.isDirectory s.cwd directory = true

theorem Files.run_ensureDirectory_stands {p : Path} {s : System} (hp : p.text ≠ "")
    (h : s.disk.isDirectory s.cwd p = true) : (ensureDirectory p).run s = (.ok (), s) :=
  run_ensureDirectory_of_ensures
    (.stands hp (Disk.makeDirectory_of_isDirectory h) (by decide) h)

theorem Layout.run_ensure_made {layout : Layout} {s : System} (h : layout.IsMade s) :
    layout.ensure.run s = (.ok (), s) := by
  have there : ∀ {state}, IsState state →
      layout.refUpdates.join state ∈ [layout.building, layout.running, layout.waiting] →
      (Files.ensureDirectory (layout.refUpdates.join state)).run s = (.ok (), s) :=
    fun hstate hmem => Files.run_ensureDirectory_stands
      (Path.text_join_ne_empty _ hstate.isPlain) (h _ hmem)
  have hbuilding := there (.inl rfl) (by simp [building])
  have hrunning := there (.inr (.inl rfl)) (by simp [running])
  have hwaiting := there (.inr (.inr rfl)) (by simp [waiting])
  simp only [ensure, run_bind, building, running, waiting, hbuilding, hrunning, hwaiting]

namespace Console

variable {env : Environment} {args : List String} {line : CommandLine} {selection : Selection}
  {config : Config} {s : System}

/-- Nothing happens to a queue that is opened again. -/
theorem run_openStore_made (hconfig : ((Config.load env line.config).run s).1 = .ok config)
    (h : (queueOf config line).IsMade s) :
    ∃ log, (openStore env line).run s = (.ok ⟨queueOf config line, false⟩, { s with log }) := by
  let told : System := { s with log := s.log ++ [.usingQueue (queueOf config line).events] }
  have hensure : (queueOf config line).ensure.run told = (.ok (), told) :=
    Layout.run_ensure_made (s := told) h
  refine ⟨told.log ++ [.opened (queueOf config line)], ?_⟩
  rw [openStore, run_bind, Config.run_load, hconfig]
  simp only [openQueue, run_bind, run_note, Store.ofLayout]
  rw [hensure]
  rfl

/-- What a run prints that is asked for records as JSON: the lines of the library's own listing. -/
structure PrintsLines (env : Environment) (args : List String) (line : CommandLine)
    (selection : Selection) (s : System) : Prop where
  /-- Where the queue cannot be opened nothing is printed. -/
  refused : ∀ message opened, (openStore env line).run s = (.error message, opened) →
    (run env args).run s = (.failure message, opened)
  /-- The records are those that are there once the queue is opened. -/
  opened : ∀ store opened, (openStore env line).run s = (.ok store, opened) →
    ∀ listing, (selection, listing) ∈ store.selections → ∃ output,
      (run env args).run s = (.success output, (listing.run opened).2) ∧
        HasLines output (listing.run opened).1
  /-- In a queue that was opened before they are those that any store of it lists. -/
  made : ∀ config, ((Config.load env line.config).run s).1 = .ok config →
    (queueOf config line).IsMade s → ∀ store : Store, store.layout = queueOf config line →
      ∀ listing, (selection, listing) ∈ store.selections → ∃ output,
        ((run env args).run s).1 = .success output ∧ HasLines output (listing.run s).1

theorem printsLines (h : Asks args line selection) (env : Environment) (s : System) :
    PrintsLines env args line selection s where
  refused message opened hopen := by
    rw [run_asked h, hopen]
    rfl
  opened store opened hopen listing hlisting := by
    obtain rfl := store.mem_selections_iff.1 hlisting
    exact ⟨_, run_asked_opened h hopen, hasLines_join _⟩
  made config hconfig hmade store hstore listing hlisting := by
    obtain rfl := store.mem_selections_iff.1 hlisting
    obtain ⟨log, hopen⟩ := run_openStore_made hconfig hmade
    have hsame := Store.run_select_eq ⟨queueOf config line, false⟩ hstore selection s log
    rw [run_asked_opened h hopen, ← hsame]
    exact ⟨_, rfl, hasLines_join _⟩

/-- Each state can be asked for, and each run that is asked for records as JSON prints one line for
each record that is listed, in the order of the listing. Each line is read as its record, whatever
characters are in it. -/
theorem lists_as_lines :
    (∀ selection : Selection, Asks ["list", "--state", selection.name, "--json"]
      ⟨none, none, false, .list selection true⟩ selection) ∧
    ∀ args line selection, Asks args line selection →
      ∀ env s, PrintsLines env args line selection s := by
  refine ⟨fun selection => ?_, fun _ _ _ h => printsLines h⟩
  cases selection <;> exact ⟨rfl, rfl⟩

end Console

namespace OneWaiting

open Disk

/-- The queue with one waiting task, after it was opened. -/
def madeDisk (bytes : Bytes) : Disk :=
  ((oneWaiting bytes).put ["ref-updates", "building"] .directory).put ["ref-updates", "running"]
    .directory

def made (bytes : Bytes) : System :=
  { system bytes with disk := madeDisk bytes }

theorem isTree_made (bytes : Bytes) : (made bytes).disk.IsTree := by
  have hbuilding : ((oneWaiting bytes).put ["ref-updates", "building"] .directory).IsTree :=
    (isTree bytes).put (l := ["ref-updates"]) (IsState.isPlain (.inl rfl)) rfl rfl _
  exact hbuilding.put (l := ["ref-updates"]) (IsState.isPlain (.inr (.inl rfl))) rfl rfl _

theorem isMade (bytes : Bytes) : (store ".").layout.IsMade (made bytes) := by
  rintro _ (_ | ⟨_, _ | ⟨_, _ | ⟨_, ⟨⟩⟩⟩⟩) <;> rfl

theorem listWaiting_made (u : Update) : ((store ".").listWaiting.run (made u.record)).1 = [u] :=
  run_listWaiting (s := made u.record) u (isTree_made _) (.stands (by decide) rfl (by decide) rfl)
    rfl rfl rfl rfl

end OneWaiting

namespace Console

open OneWaiting

/-- Fields with line ends and other characters that are escaped. -/
theorem lists_as_lines_escaped :
    let u : Update := ⟨"p\nq", "refs/\x01", "https://h/p\r", "\"h"⟩
    let args := ["--events-dir", ".", "list", "--state", "waiting", "--json"]
    let line : CommandLine := ⟨none, some ⟨"."⟩, false, .list .waiting true⟩
    Asks args line .waiting ∧
      ((Config.load Config.bareEnvironment none).run (made u.record)).1 =
        .ok (.standard Config.bareEnvironment) ∧
      (queueOf (.standard Config.bareEnvironment) line).IsMade (made u.record) ∧
      ∃ output, ((run Config.bareEnvironment args).run (made u.record)).1 = .success output ∧
        HasLines output [u] := by
  intro u args line
  have hasks : Asks args line .waiting := ⟨rfl, rfl⟩
  have hload : ((Config.load Config.bareEnvironment none).run (made u.record)).1 =
      .ok (.standard Config.bareEnvironment) := rfl
  have hlines := (lists_as_lines.2 args line .waiting hasks Config.bareEnvironment
    (made u.record)).made _ hload (isMade _) (store ".") rfl (store ".").listWaiting
      ((Store.mem_selections_iff _).2 rfl)
  rw [listWaiting_made] at hlines
  exact ⟨hasks, hload, isMade _, hlines⟩

end Console

end ReplicationQueue
