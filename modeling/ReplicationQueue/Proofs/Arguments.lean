import ReplicationQueue.CommandLine.Parse

/-! Command lines of one option and a command. The value of the option is a word: neither an option
nor the end of options. -/

namespace ReplicationQueue.CommandLine

/-- An argument that is neither an option nor the end of options. -/
def IsWord (text : String) : Prop :=
  Form.ofChars text.toList = .word

theorem IsWord.ne_end {text : String} (h : IsWord text) : text ≠ endOfOptions := by
  rintro rfl
  cases h

theorem Form.ofChars_ne_short (text : List Char) : Form.ofChars text ≠ .short [] := by
  unfold Form.ofChars
  split
  · dsimp only
    split <;> simp
  · simp
  · simp

/-- The reading of an option whose value is still to come. -/
def Progress.awaiting (setting : Setting) : Progress :=
  ⟨[], some (setting, none)⟩

/-- The reading of an option with its value. -/
def Progress.given (setting : Setting) (text : String) : Progress :=
  ⟨[], some (setting, some text)⟩

variable {setting : Setting} {text : String} {rest : List String} {line : CommandLine}

theorem readRoot_word (h : IsWord text) (setting : Setting) (rest : List String) :
    readRoot (text :: rest) (.awaiting setting) = readRoot rest (.given setting text) := by
  have hform : Form.ofChars text.toList = .word := h
  rw [readRoot]
  simp only [Progress.awaiting, Progress.awaitsValue, Bool.true_eq_false, false_and, if_false,
    if_true, h.ne_end, hform]
  rfl

theorem long_awaiting (setting : Setting) (scope : Scope) (name : String) (value : Option String) :
    ∃ refusal, (Progress.awaiting setting).long scope name value = .error refusal := by
  unfold Progress.long
  split
  · exact ⟨_, rfl⟩
  · split
    · exact ⟨_, rfl⟩
    · split
      · exact ⟨_, rfl⟩
      · exact ⟨_, rfl⟩

theorem short_awaiting (setting : Setting) (scope : Scope) (letter : Char) (letters : List Char) :
    ∃ refusal, (Progress.awaiting setting).short scope (letter :: letters) = .error refusal := by
  unfold Progress.short
  split
  · exact ⟨_, rfl⟩
  · split
    · exact ⟨_, rfl⟩
    · exact ⟨_, rfl⟩

/-- The value of an option before a command is a word. -/
theorem isWord_of_readRoot (h : readRoot (text :: rest) (.awaiting setting) = .ok line) :
    IsWord text := by
  rw [readRoot] at h
  simp only [Progress.awaiting, Progress.awaitsValue, Bool.true_eq_false, false_and, if_false,
    if_true] at h
  rw [← Progress.awaiting] at h
  split at h
  · cases rest <;> cases h
  · split at h
    · rename_i name value _
      obtain ⟨refusal, hlong⟩ := long_awaiting setting .root name value
      rw [hlong] at h
      cases h
    · rename_i letters hform
      cases letters with
      | nil => exact absurd hform (Form.ofChars_ne_short _)
      | cons letter letters =>
        obtain ⟨refusal, hshort⟩ := short_awaiting setting .root letter letters
        rw [hshort] at h
        cases h
    · assumption

theorem ofName?_help : Scope.ofName? helpName = none := by decide

theorem readRoot_command {name : String} {scope : Scope} (hscope : Scope.ofName? name = some scope)
    (setting : Setting) (text : String) (args : List String) :
    readRoot (name :: args) (.given setting text) =
      (readCommand scope args).bind (complete (.given setting text)) := by
  have hhelp : name ≠ helpName := by
    rintro rfl
    rw [ofName?_help] at hscope
    cases hscope
  rw [readRoot]
  simp only [Progress.given, Progress.awaitsValue, hhelp, and_false, if_false, Bool.false_eq_true,
    hscope]
  rfl

theorem settle_given (setting : Setting) (text : String) :
    (Progress.given setting text).settle =
      if setting.accepts text then .ok ⟨[(setting, text)], none⟩ else .error .invalidValue := by
  cases haccepts : setting.accepts text <;>
    simp [Progress.given, Progress.settle, Progress.record, Progress.has, haccepts]

/-- What stands before a command is one path. -/
theorem complete_config {text : String} (h : text ≠ "") (command : Command) :
    complete (.given .config text) command = .ok ⟨some ⟨text⟩, none, false, command⟩ := by
  have haccepts : Setting.config.accepts text = true := decide_eq_true h
  rw [complete, settle_given, if_pos haccepts]
  rfl

theorem complete_eventsDirectory {text : String} {command : Command}
    (h : complete (.given .eventsDirectory text) command = .ok line) :
    line = ⟨none, some ⟨text⟩, false, command⟩ := by
  rw [complete, settle_given] at h
  split at h
  · exact (Except.ok.inj h).symm
  · cases h

/-- Writing a configuration has no option but to ask for help. -/
theorem long_writeConfig (name : String) (value : Option String) :
    ∃ refusal, Progress.start.long .writeConfig name value = .error refusal := by
  unfold Progress.long
  split
  · exact ⟨_, rfl⟩
  · rename_i setting hsetting
    obtain rfl : setting = .help := by
      simpa [Scope.options] using List.mem_of_find?_eq_some hsetting
    cases value <;> exact ⟨_, rfl⟩

theorem short_writeConfig (letter : Char) (letters : List Char) :
    ∃ refusal, Progress.start.short .writeConfig (letter :: letters) = .error refusal := by
  unfold Progress.short
  split
  · exact ⟨_, rfl⟩
  · rename_i setting hsetting
    obtain rfl : setting = .help := by
      simpa [Scope.options] using List.mem_of_find?_eq_some hsetting
    exact ⟨_, rfl⟩

/-- A configuration is written to a path that is a word. -/
theorem readCommand_writeConfig {text : String} {command : Command}
    (h : readCommand .writeConfig [text] = .ok command) :
    IsWord text ∧ text ≠ "" ∧ command = .writeConfig ⟨text⟩ := by
  rw [readCommand, readArguments] at h
  split at h
  · rename_i hend
    subst hend
    cases h
  · split at h
    · rename_i name value _
      obtain ⟨refusal, hlong⟩ := long_writeConfig name value
      rw [hlong] at h
      cases h
    · rename_i letters hform
      cases letters with
      | nil => exact absurd hform (Form.ofChars_ne_short _)
      | cons letter letters =>
        obtain ⟨refusal, hshort⟩ := short_writeConfig letter letters
        rw [hshort] at h
        cases h
    · rename_i hform
      change (Progress.given .path text).settle.bind
        (fun p => commandOf .writeConfig p.settled) = _ at h
      rw [settle_given] at h
      split at h
      · rename_i haccepts
        exact ⟨hform, of_decide_eq_true haccepts, (Except.ok.inj h).symm⟩
      · cases h

/-! ### The two command lines -/

/-- A command line that writes the configuration of an events directory. -/
theorem parse_writeConfig {directory path : String}
    (h : parse ["--events-dir", directory, "write-config", path] = .ok line) :
    IsWord path ∧ path ≠ "" ∧ line = ⟨none, some ⟨directory⟩, false, .writeConfig ⟨path⟩⟩ := by
  change readRoot [directory, "write-config", path] (.awaiting .eventsDirectory) = _ at h
  have hscope : Scope.ofName? "write-config" = some .writeConfig := rfl
  rw [readRoot_word (isWord_of_readRoot h), readRoot_command hscope] at h
  cases hcommand : readCommand .writeConfig [path] with
  | error refusal =>
    rw [hcommand] at h
    cases h
  | ok command =>
    rw [hcommand] at h
    obtain ⟨hword, hne, rfl⟩ := readCommand_writeConfig hcommand
    exact ⟨hword, hne, complete_eventsDirectory h⟩

/-- A command line that is given a configuration. -/
theorem parse_config {path name : String} {scope : Scope} {args : List String} {command : Command}
    (hword : IsWord path) (hne : path ≠ "") (hscope : Scope.ofName? name = some scope)
    (hcommand : readCommand scope args = .ok command) :
    parse ("--config" :: path :: name :: args) = .ok ⟨some ⟨path⟩, none, false, command⟩ := by
  change readRoot (path :: name :: args) (.awaiting .config) = _
  rw [readRoot_word hword, readRoot_command hscope, hcommand]
  exact complete_config hne command

end ReplicationQueue.CommandLine
