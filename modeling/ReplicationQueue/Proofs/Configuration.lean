import ReplicationQueue.Console
import ReplicationQueue.Proofs.Arguments
import ReplicationQueue.Proofs.Blank
import ReplicationQueue.Proofs.Overwrite
import ReplicationQueue.Proofs.Yaml.Member

/-! A configuration reads back from the text and the file that it is written to, so that a command
that is given the file works on the queue of the configuration. -/

namespace ReplicationQueue

namespace Config

open Yaml

/-! ### Text -/

theorem isKey_eventsDirectory : Scanner.IsKey eventsDirectoryName.toList :=
  ⟨List.all_eq_true.1 rfl, rfl, by decide⟩

theorem isKey_waitingLayout : Scanner.IsKey waitingLayoutName.toList :=
  ⟨List.all_eq_true.1 rfl, rfl, by decide⟩

/-- The name of a layout needs no quotes. -/
theorem writeValue_name (w : WaitingLayout) :
    writeValue w.name.toList = w.name.toList ++ ['\n'] := by
  cases w <;> decide

theorem toList_toYaml (c : Config) :
    c.toYaml.toList = eventsDirectoryName.toList ++ ':' :: ' ' ::
      (writeValue c.eventsDirectory.text.toList ++ (waitingLayoutName.toList ++ ':' :: ' ' ::
        (writeValue c.waitingLayout.name.toList ++ []))) := by
  simp [toYaml, writeValue_name]

/-- The tokens of a configuration. -/
def tokens (c : Config) (plain plain' : Bool) : List Token :=
  [.blockMapping, .key, .scalar eventsDirectoryName true, .value,
    .scalar c.eventsDirectory.text plain, .key, .scalar waitingLayoutName true, .value,
    .scalar c.waitingLayout.name plain', .blockEnd, .textEnd]

theorem all_isAllowed_toYaml (c : Config) : c.toYaml.toList.all isAllowed = true := by
  have hwritten := isAllowed_writeValue c.eventsDirectory.text.toList
  have hname := isAllowed_writeValue c.waitingLayout.name.toList
  have heventsDirectory : ∀ d ∈ eventsDirectoryName.toList, isAllowed d = true :=
    List.all_eq_true.1 rfl
  have hwaitingLayout : ∀ d ∈ waitingLayoutName.toList, isAllowed d = true :=
    List.all_eq_true.1 rfl
  rw [List.all_eq_true, toList_toYaml]
  simp only [List.forall_mem_append, List.forall_mem_cons]
  exact ⟨heventsDirectory, rfl, rfl, hwritten, hwaitingLayout, rfl, rfl, hname, by simp⟩

theorem scan_toYaml (c : Config) :
    ∃ plain plain', Token.scan c.toYaml = some (c.tokens plain plain') := by
  have hline : Scanner.BeginsNamed (waitingLayoutName.toList ++ ':' :: ' ' ::
      (writeValue c.waitingLayout.name.toList ++ [])) := by
    rintro _ ⟨⟩
    rfl
  have hlast : Scanner.BeginsNamed [] := by rintro _ ⟨⟩
  obtain ⟨plain, line, hzero, hvalue⟩ := Scanner.run_value c.eventsDirectory.text.toList hline
    (Mark.start.forward (eventsDirectoryName.toList.length + 1))
    [.blockMapping, .key, .scalar eventsDirectoryName true, .value]
  obtain ⟨plain', last, -, hvalue'⟩ := Scanner.run_value c.waitingLayout.name.toList hlast
    (line.forward (waitingLayoutName.toList.length + 1))
    [.blockMapping, .key, .scalar eventsDirectoryName true, .value,
      .scalar c.eventsDirectory.text plain, .key, .scalar waitingLayoutName true, .value]
  -- Seven steps: two for each key and its colon, one for each value, and the end.
  obtain ⟨fuel, hfuel⟩ : ∃ fuel, c.toYaml.toList.length + 1 = fuel + 7 := by
    have hlength : eventsDirectoryName.toList.length = 16 := rfl
    rw [toList_toYaml, List.length_append, hlength]
    exact Nat.exists_eq_add_of_le' (by omega)
  refine ⟨plain, plain', ?_⟩
  rw [Token.scan, if_pos c.all_isAllowed_toYaml, hfuel]
  calc Scanner.run (fuel + 7) (.start c.toYaml.toList)
      = Scanner.run (fuel + 5) (.atValue (' ' :: (writeValue c.eventsDirectory.text.toList ++
          (waitingLayoutName.toList ++ ':' :: ' ' ::
            (writeValue c.waitingLayout.name.toList ++ []))))
          (Mark.start.forward (eventsDirectoryName.toList.length + 1))
          [.blockMapping, .key, .scalar eventsDirectoryName true, .value]) := by
        rw [toList_toYaml]
        exact Scanner.run_key false isKey_eventsDirectory _ rfl [] (fuel + 5)
    _ = Scanner.run (fuel + 2) (.atValue (' ' :: (writeValue c.waitingLayout.name.toList ++ []))
          (line.forward (waitingLayoutName.toList.length + 1))
          [.blockMapping, .key, .scalar eventsDirectoryName true, .value,
            .scalar c.eventsDirectory.text plain, .key, .scalar waitingLayoutName true,
            .value]) := by
        rw [hvalue, String.ofList_toList]
        exact Scanner.run_key true isKey_waitingLayout _ hzero _ (fuel + 2)
    _ = some (c.tokens plain plain') := by
        rw [hvalue', String.ofList_toList]
        exact Scanner.run_end last _ fuel

/-- The events of a configuration. -/
def events (c : Config) (plain plain' : Bool) : List Yaml.Event :=
  [.startMapping none none, .scalar none none eventsDirectoryName true,
    .scalar none none c.eventsDirectory.text plain, .scalar none none waitingLayoutName true,
    .scalar none none c.waitingLayout.name plain', .endMapping]

theorem ofTokens?_tokens (c : Config) (plain plain' : Bool) :
    Yaml.Event.ofTokens? (c.tokens plain plain') = some (c.events plain plain') := rfl

theorem read?_toYaml (c : Config) :
    ∃ plain plain', Document.read? c.toYaml = some ⟨c.events plain plain', []⟩ := by
  obtain ⟨plain, plain', hscan⟩ := c.scan_toYaml
  refine ⟨plain, plain', ?_⟩
  simp only [Document.read?, hscan, Option.bind_eq_bind, Option.bind_some, c.ofTokens?_tokens]
  rfl

/-- A configuration is read from the text that it is written as, whatever the standard values. -/
theorem ofYaml?_toYaml (standard c : Config) : ofYaml? standard c.toYaml = some c := by
  obtain ⟨plain, plain', hread⟩ := c.read?_toYaml
  have hmembers : membersOf? ⟨c.events plain plain', []⟩ =
      some ⟨some c.eventsDirectory.text, some c.waitingLayout⟩ := by
    have hdistinct : waitingLayoutName ≠ eventsDirectoryName := by decide
    rw [membersOf?, events]
    simp [readMembers, Document.eventAt?, textOf?, layoutOf?, Yaml.Event.skipNode, hdistinct,
      WaitingLayout.ofName?_name]
  rw [ofYaml?, hread]
  show (membersOf? ⟨c.events plain plain', []⟩).bind _ = _
  rw [hmembers]
  rfl

/-! ### Files -/

/-- What was saved is loaded, and loading changes nothing. -/
theorem run_load_save {c : Config} {path : Path} {s s' : System}
    (h : (c.save path).run s = (.ok (), s')) (env : Environment) :
    (load env (some path)).run s' = (.ok c, s') := by
  have hsave : s.change (s.disk.overwrite s.cwd path (Utf8.encode c.toYaml)) = (.ok (), s') := h
  cases hdisk : s.disk.overwrite s.cwd path (Utf8.encode c.toYaml) with
  | error cause =>
    rw [hdisk] at hsave
    cases hsave
  | ok disk =>
    rw [hdisk] at hsave
    obtain rfl : { s with disk } = s' := (Prod.mk.inj hsave).2
    have hread : (Plan.read path).run { s with disk } =
        (.ok (Utf8.encode c.toYaml), { s with disk }) :=
      congrArg (·, _) (Disk.contents_overwrite hdisk)
    rw [load, loadFile, Plan.run_bind, hread]
    simp [Utf8.decode?_encode, ofYaml?_toYaml (standard env) c]

/-! ### Commands -/

/-- A configuration that was written with an events directory is the one that was loaded, but for
the directory. -/
theorem saved_of_run {env : Environment} {config : Option Path} {directory path : Path}
    {verbose : Bool} {s s' : System} {report : Report}
    (h : (Console.runLine env ⟨config, some directory, verbose, .writeConfig path⟩).run s =
      (report, s')) (hexit : report.exit = 0) :
    ∃ loaded, ((load env config).run s).1 = .ok loaded ∧
      (save { loaded with eventsDirectory := directory } path).run ((load env config).run s).2 =
        (.ok (), s') := by
  rw [Console.runLine, Plan.run_bind] at h
  cases hload : ((load env config).run s).1 with
  | error error =>
    rw [hload] at h
    obtain rfl : Report.failure _ = report := (Prod.mk.inj h).1
    cases hexit
  | ok loaded =>
    rw [hload] at h
    refine ⟨loaded, rfl, ?_⟩
    simp only [Console.runCommand, Console.writeConfig, Plan.run_bind] at h
    generalize (save { loaded with eventsDirectory := directory } path).run
      ((load env config).run s).2 = saved at h ⊢
    obtain ⟨answer, system⟩ := saved
    cases answer with
    | error cause =>
      obtain rfl : Report.failure _ = report := (Prod.mk.inj h).1
      cases hexit
    | ok written =>
      obtain rfl : system = s' := (Prod.mk.inj h).2
      rfl

/-- A command that is given a saved configuration works on its queue. -/
theorem run_saved {c : Config} {path : Path} {s s' : System}
    (h : (c.save path).run s = (.ok (), s')) (env : Environment) (verbose : Bool)
    (command : Command) :
    (Console.runLine env ⟨some path, none, verbose, command⟩).run s' =
      (Console.runCommand (Console.isColoured env) c command).run s' := by
  rw [Console.runLine, Plan.run_bind, run_load_save h env]

/-- An environment without variables. -/
def bareEnvironment : Environment :=
  ⟨fun _ => none, ⟨"/home"⟩⟩

end Config

end ReplicationQueue
