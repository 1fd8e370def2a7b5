import LoxSyntax.Proofs.Command.Outcome
set_option autoImplicit false

/-! # Arguments over configuration

The settings of a run come from three layers: what is said by default, what the table `output` of
the configuration says, and what the arguments say. A format has to exist wherever it is named, and
the configuration is looked at first, so that an argument does not excuse it. The main statement is
`loadSettings_of_layers`. It holds on any host for configurations of any shape; of those whose
format is a value that the host cannot write, having too many digits or too deep a nesting, it
says that there are no settings, which is not told. -/

namespace LoxSyntax

/-- No format has the name. -/
def IsNoFormat (name : String) : Prop := name ≠ "sexpr" ∧ name ≠ "tree"

/-- The table `output` of the configuration has the value under the key. -/
def Toml.Table.OutputHas (config : Toml.Table) (key : String) (value : Toml.Value) : Prop :=
  ∃ entries, config.lookup "output" = some (.table entries) ∧ entries.lookup key = some value

/-- There is a file at the path, with the given content. -/
def FileTree.HoldsFile (t : FileTree) (p : Path) (content : Bytes) : Prop :=
  '\x00' ∉ p.text.toList ∧
    ∃ location, t.locate p = .ok location ∧ t.node? location = some (.file content)

/-- The settings are what the arguments, the configuration and the defaults make together, an
    argument counting more than the configuration and this more than a default. -/
structure FollowsLayers (a : Arguments) (config : Toml.Table) (s : Settings) : Prop where
  given : ∀ name, a.format = some name → s.format.name = name
  configured : a.format = none →
    ∀ value, config.OutputHas "format" value → s.format.name = value.display
  byDefault : a.format = none →
    (∀ value, ¬config.OutputHas "format" value) → s.format.name = "sexpr"
  showEnd : s.showEnd = true ↔ a.showEnd = true ∨ config.OutputHas "show_eof" (.truth true)
  input : s.input = Path.ofString a.input
  output : (∀ file, a.output = some file → file ≠ "" → s.output = some (Path.ofString file)) ∧
    (a.output = none ∨ a.output = some "" → s.output = none)
  tokens : s.tokens = a.tokens
  debug : s.debug = a.debug

variable {host : Host} {t : FileTree} {a : Arguments} {s : Settings} {p : Path}
  {config : Toml.Table} {value : Toml.Value} {name key : String}

/-! ## Paths that are no files -/

theorem FileTree.contentAt_eq_ok_iff {content : Bytes} :
    t.contentAt p = .ok content ↔ t.HoldsFile p content := by
  unfold contentAt HoldsFile
  by_cases hnul : '\x00' ∈ p.text.toList
  · simp [hnul]
  · simp [hnul, read_eq_ok_iff]

/-- Names lead nowhere for one of three reasons. -/
theorem FileTree.walk_eq_error {here : Location} {names : List String} {fault : AccessFault}
    (h : t.walk here names = .error fault) :
    fault = .notFound ∨ fault = .notDirectory ∨ fault = .nameTooLong := by
  induction names generalizing here with
  | nil => cases h
  | cons name names ih =>
    rw [walk] at h
    split at h
    · cases h
      exact Or.inl rfl
    · cases h
      exact Or.inr (Or.inl rfl)
    · by_cases hup : name = ".."
      · rw [if_pos hup] at h
        exact ih h
      · rw [if_neg hup] at h
        by_cases hlong : maxNameBytes < name.utf8ByteSize
        · rw [if_pos hlong] at h
          cases h
          exact Or.inr (Or.inr rfl)
        · rw [if_neg hlong] at h
          exact ih h

/-- Where no file is read, there is none, or a name is too long to tell. -/
theorem FileTree.contentAt_eq_error {fault : AccessFault} (h : t.contentAt p = .error fault) :
    fault.meansNoFile = true ∨ fault = .nameTooLong := by
  unfold contentAt at h
  split at h
  · cases h
    exact Or.inl rfl
  · unfold read at h
    rcases hlocate : t.locate p with found | location
    · rw [hlocate] at h
      cases h
      unfold locate at hlocate
      split at hlocate
      · cases hlocate
        exact Or.inr rfl
      · rcases walk_eq_error hlocate with rfl | rfl | rfl
        · exact Or.inl rfl
        · exact Or.inl rfl
        · exact Or.inr rfl
    · rw [hlocate] at h
      simp only [bind, Except.bind] at h
      rcases hnode : t.node? location with _ | ⟨content⟩ | _
      · rw [hnode] at h
        cases h
        exact Or.inl rfl
      · rw [hnode] at h
        cases h
      · rw [hnode] at h
        cases h
        exact Or.inl rfl

/-- A path that is no file counts as an empty configuration, unless it cannot be looked for. -/
theorem findsConfig_of_no_file (h : ∀ content, ¬t.HoldsFile p content) :
    FindsConfig host t p [] ∨ t.contentAt p = .error .nameTooLong := by
  rcases hcontent : t.contentAt p with fault | content
  · rcases FileTree.contentAt_eq_error hcontent with hfile | rfl
    · exact Or.inl (.none hcontent hfile)
    · exact Or.inr rfl
  · exact absurd (FileTree.contentAt_eq_ok_iff.mp hcontent) (h content)

/-! ## Formats by name -/

theorem ofName?_eq_none_iff : OutputFormat.ofName? name = none ↔ IsNoFormat name := by
  rw [OutputFormat.ofName?, List.find?_eq_none]
  simp [OutputFormat.all, OutputFormat.name, IsNoFormat, eq_comm]

theorem name_of_ofName? {format : OutputFormat} (h : OutputFormat.ofName? name = some format) :
    format.name = name := by
  have hfound := List.find?_some h
  simpa using hfound

theorem readFormat_eq_ok_iff {format : OutputFormat} :
    readFormat name = .ok format ↔ OutputFormat.ofName? name = some format := by
  unfold readFormat
  cases OutputFormat.ofName? name <;> simp

/-! ## The layers -/

/-- A value has the text that shows it, or none. -/
theorem Host.textOf_cases (host : Host) (value : Toml.Value) :
    host.textOf value = .ok value.display ∨ ∃ fault, host.textOf value = .error fault := by
  fun_cases Host.textOf host value with
  | case1 text => exact Or.inl rfl
  | case2 value _ fault => exact Or.inr ⟨fault, rfl⟩
  | case3 => exact Or.inl rfl

theorem Host.eq_display_of_textOf {name : String} (h : host.textOf value = .ok name) :
    name = value.display := by
  rcases host.textOf_cases value with hwritten | ⟨fault, hunwritten⟩
  · exact Except.ok.inj (h.symm.trans hwritten)
  · cases h.symm.trans hunwritten

namespace Toml.Table

theorem lookup_outputEntries_eq_some_iff :
    config.outputEntries.lookup key = some value ↔ config.OutputHas key value := by
  unfold outputEntries OutputHas
  split
  · next entries hentries => simp [hentries]
  · next hnone =>
    refine iff_of_false (by simp) ?_
    rintro ⟨entries, hentries, -⟩
    exact hnone entries hentries

theorem OutputHas.unique {other : Toml.Value} (h : config.OutputHas key value)
    (hother : config.OutputHas key other) : value = other := by
  rw [← lookup_outputEntries_eq_some_iff] at h hother
  exact Option.some.inj (h.symm.trans hother)

theorem showsEnd_eq_true_iff :
    config.showsEnd = true ↔ config.OutputHas "show_eof" (.truth true) := by
  rw [← lookup_outputEntries_eq_some_iff]
  unfold showsEnd
  split
  · next truth htruth => simp [htruth]
  · next hnone =>
    refine iff_of_false (by simp) ?_
    intro htruth
    exact hnone true htruth

/-- The configuration names no format. -/
theorem format?_of_not_outputHas (h : ∀ value, ¬config.OutputHas "format" value) :
    config.format? host = .ok none := by
  unfold format?
  rcases hentry : config.outputEntries.lookup "format" with _ | value
  · rfl
  · exact absurd (lookup_outputEntries_eq_some_iff.mp hentry) (h value)

/-- The configuration names a format by the text of its value. -/
theorem format?_of_outputHas (h : config.OutputHas "format" value)
    (hwritten : host.textOf value = .ok value.display) :
    config.format? host = (readFormat value.display).map some := by
  rw [← lookup_outputEntries_eq_some_iff] at h
  unfold format?
  rw [h]
  simp only [hwritten]
  rfl

/-- A format that was read is named by the value of the configuration. -/
theorem exists_outputHas_of_format? {format : OutputFormat}
    (h : config.format? host = .ok (some format)) :
    ∃ value, config.OutputHas "format" value ∧ host.textOf value = .ok value.display ∧
      value.display = format.name := by
  by_cases hentry : ∃ value, config.OutputHas "format" value
  · obtain ⟨value, hvalue⟩ := hentry
    rcases Host.textOf_cases host value with hwritten | ⟨fault, hunwritten⟩
    · rw [format?_of_outputHas hvalue hwritten, map_eq_ok_iff] at h
      obtain ⟨_, hread, hformat⟩ := h
      cases hformat
      exact ⟨value, hvalue, hwritten, (name_of_ofName? (readFormat_eq_ok_iff.mp hread)).symm⟩
    · have hlookup := lookup_outputEntries_eq_some_iff.mpr hvalue
      rw [format?_eq_error_iff.mpr ⟨value, hlookup, Or.inl ⟨fault, hunwritten, rfl⟩⟩] at h
      cases h
  · have hnone : config.format? host = .ok none := by
      refine format?_of_not_outputHas ?_
      intro value hvalue
      exact hentry ⟨value, hvalue⟩
    rw [hnone] at h
    cases h

end Toml.Table

/-- Arguments and a configuration whose formats exist make settings, the arguments having the last
    word. -/
theorem settingsOf_eq_ok {configured given : Option OutputFormat}
    (hconfigured : config.format? host = .ok configured)
    (hgiven : a.format.mapM readFormat = .ok given) :
    Settings.of host a config =
      .ok {
        input := a.inputPath, output := argumentPath? a.output, tokens := a.tokens
        format := (given.or configured).getD .prefixForm
        showEnd := a.showEnd || config.showsEnd, debug := a.debug } := by
  unfold Settings.of
  rw [hconfigured]
  show (a.format.mapM readFormat).bind _ = _
  rw [hgiven]
  rfl

/-- A format that exists is read as the one of that name. -/
theorem exists_readFormat (h : ¬IsNoFormat name) :
    ∃ format, readFormat name = .ok format ∧ format.name = name := by
  rw [← ofName?_eq_none_iff] at h
  obtain ⟨format, hformat⟩ := Option.ne_none_iff_exists'.mp h
  exact ⟨format, readFormat_eq_ok_iff.mpr hformat, name_of_ofName? hformat⟩

/-- The format that a configuration names, if it is in order: the one of that name, or none. -/
theorem exists_configured
    (hgood : ∀ value, config.OutputHas "format" value →
      host.textOf value = .ok value.display ∧ ¬IsNoFormat value.display) :
    ∃ configured, config.format? host = .ok configured ∧
      (∀ value, config.OutputHas "format" value →
        ∃ format, configured = some format ∧ format.name = value.display) ∧
      ((∀ value, ¬config.OutputHas "format" value) → configured = none) := by
  by_cases hentry : ∃ value, config.OutputHas "format" value
  · obtain ⟨value, hvalue⟩ := hentry
    obtain ⟨hwritten, hknown⟩ := hgood value hvalue
    obtain ⟨format, hread, hname⟩ := exists_readFormat hknown
    refine ⟨some format, ?_, ?_, ?_⟩
    · rw [Toml.Table.format?_of_outputHas hvalue hwritten, hread]
      rfl
    · intro other hother
      rw [← hvalue.unique hother]
      exact ⟨format, rfl, hname⟩
    · intro hnone
      exact absurd hvalue (hnone value)
  · have hnone : ∀ value, ¬config.OutputHas "format" value := by
      intro value hvalue
      exact hentry ⟨value, hvalue⟩
    refine ⟨none, Toml.Table.format?_of_not_outputHas hnone, ?_, ?_⟩
    · intro value hvalue
      exact absurd hvalue (hnone value)
    · intro _
      rfl

theorem exists_given (hgood : ∀ name, a.format = some name → ¬IsNoFormat name) :
    ∃ given, a.format.mapM readFormat = .ok given ∧
      (∀ name, a.format = some name → ∃ format, given = some format ∧ format.name = name) ∧
      (a.format = none → given = none) := by
  rcases hformat : a.format with _ | name
  · refine ⟨none, rfl, ?_, ?_⟩
    · intro name hname
      cases hname
    · intro _
      rfl
  · obtain ⟨format, hread, hname⟩ := exists_readFormat (hgood name hformat)
    refine ⟨some format, ?_, ?_, ?_⟩
    · rw [Option.mapM_some, hread]
      rfl
    · intro other hother
      cases hother
      exact ⟨format, rfl, hname⟩
    · intro hnone
      cases hnone

/-! ## Refusals -/

/-- A format of the configuration that does not exist is refused, whatever the arguments say. -/
theorem settle_of_configured (h : config.OutputHas "format" value)
    (hwritten : host.textOf value = .ok value.display) (hunknown : IsNoFormat value.display) :
    settle host a config = .error (.refused (unknownFormatMessage value.display)) := by
  have hnames : NamesUnknownFormat host a config value.display :=
    .configured (Toml.Table.lookup_outputEntries_eq_some_iff.mpr h) hwritten
      (ofName?_eq_none_iff.mpr hunknown)
  rw [settle, settingsOf_eq_unknownFormat_iff.mpr hnames]
  rfl

/-- A format of the arguments that does not exist is refused if the configuration is in order. -/
theorem settle_of_given {format? : Option OutputFormat}
    (hconfig : config.format? host = .ok format?) (h : a.format = some name) (hunknown : IsNoFormat name) :
    settle host a config = .error (.refused (unknownFormatMessage name)) := by
  have hnames : NamesUnknownFormat host a config name :=
    .given ⟨format?, hconfig⟩ h (ofName?_eq_none_iff.mpr hunknown)
  rw [settle, settingsOf_eq_unknownFormat_iff.mpr hnames]
  rfl

/-- A format of the configuration that cannot be written ends the run. -/
theorem settle_of_unwritable {fault : Host.ShowFault} (h : config.OutputHas "format" value)
    (hunwritten : host.textOf value = .error fault) :
    settle host a config = .error (.crashed (.ofShowFault fault)) := by
  have hnames : NamesUnwritableFormat host config fault :=
    ⟨value, Toml.Table.lookup_outputEntries_eq_some_iff.mpr h, hunwritten⟩
  rw [settle, settingsOf_eq_unwritableFormat_iff.mpr hnames]
  rfl

/-! ## Settings -/

theorem argumentPath?_spec (argument : Option String) :
    (∀ file, argument = some file → file ≠ "" →
        argumentPath? argument = some (Path.ofString file)) ∧
      (argument = none ∨ argument = some "" → argumentPath? argument = none) := by
  refine ⟨?_, ?_⟩
  · rintro file rfl hne
    rw [argumentPath?, if_neg (by simpa using hne)]
  · rintro (rfl | rfl) <;> rfl

/-- Formats that exist make settings that follow the layers. -/
theorem settle_of_known
    (hconfig : ∀ value, config.OutputHas "format" value →
      host.textOf value = .ok value.display ∧ ¬IsNoFormat value.display)
    (hgiven : ∀ name, a.format = some name → ¬IsNoFormat name) :
    ∃ s, settle host a config = .ok s ∧ FollowsLayers a config s := by
  obtain ⟨configured, hread, hvalue, hnoValue⟩ := exists_configured hconfig
  obtain ⟨given, hread', hname, hnoName⟩ := exists_given hgiven
  refine ⟨_, by rw [settle, settingsOf_eq_ok hread hread']; rfl, ?_⟩
  refine
    { given := ?_, configured := ?_, byDefault := ?_, showEnd := ?_, input := rfl
      output := argumentPath?_spec a.output, tokens := rfl, debug := rfl }
  · intro name hformat
    obtain ⟨format, rfl, hnamed⟩ := hname name hformat
    exact hnamed
  · intro hnone value hentry
    obtain ⟨format, rfl, hformat⟩ := hvalue value hentry
    rw [hnoName hnone]
    exact hformat
  · intro hnone hnoEntry
    rw [hnoName hnone, hnoValue hnoEntry]
    rfl
  · rw [← Toml.Table.showsEnd_eq_true_iff]
    exact Bool.or_eq_true_iff

/-- Of a configuration that is in order, the arguments decide alone. -/
theorem settle_of_config_known
    (hconfig : ∀ value, config.OutputHas "format" value →
      host.textOf value = .ok value.display ∧ ¬IsNoFormat value.display) :
    (∀ name, a.format = some name → IsNoFormat name →
        settle host a config = .error (.refused (unknownFormatMessage name))) ∧
      ((∀ name, a.format = some name → ¬IsNoFormat name) →
        ∃ s, settle host a config = .ok s ∧ FollowsLayers a config s) := by
  refine ⟨?_, settle_of_known hconfig⟩
  intro name hname hunknown
  obtain ⟨configured, hread, -⟩ := exists_configured hconfig
  exact settle_of_given hread hname hunknown

/-- Settings are refused for a format that does not exist, and for nothing else. -/
theorem exists_settle_eq_refused_iff
    (hwritten : ∀ value, config.OutputHas "format" value →
      host.textOf value = .ok value.display) :
    (∃ message, settle host a config = .error (.refused message)) ↔
      (∃ value, config.OutputHas "format" value ∧ IsNoFormat value.display) ∨
        ∃ name, a.format = some name ∧ IsNoFormat name := by
  by_cases hconfig : ∃ value, config.OutputHas "format" value ∧ IsNoFormat value.display
  · obtain ⟨value, hvalue, hunknown⟩ := hconfig
    exact iff_of_true ⟨_, settle_of_configured hvalue (hwritten value hvalue) hunknown⟩
      (Or.inl ⟨value, hvalue, hunknown⟩)
  · have hgood : ∀ value, config.OutputHas "format" value →
        host.textOf value = .ok value.display ∧ ¬IsNoFormat value.display := by
      intro value hvalue
      refine ⟨hwritten value hvalue, ?_⟩
      intro hunknown
      exact hconfig ⟨value, hvalue, hunknown⟩
    obtain ⟨hrefused, hsettled⟩ := settle_of_config_known hgood
    by_cases hgiven : ∃ name, a.format = some name ∧ IsNoFormat name
    · obtain ⟨name, hname, hunknown⟩ := hgiven
      exact iff_of_true ⟨_, hrefused name hname hunknown⟩ (Or.inr ⟨name, hname, hunknown⟩)
    · have hknown : ∀ name, a.format = some name → ¬IsNoFormat name := by
        intro name hname hunknown
        exact hgiven ⟨name, hname, hunknown⟩
      obtain ⟨s, hs, -⟩ := hsettled hknown
      refine iff_of_false ?_ (not_or.mpr ⟨hconfig, hgiven⟩)
      rintro ⟨message, hmessage⟩
      rw [hmessage] at hs
      cases hs

/-- On any host and with any configuration that is found: settings are refused if and only if a
    format is named that does not exist, that of the configuration first and whatever the arguments
    say; otherwise they follow the layers. The configuration is in the file that was named, or in
    the one beside the input, and counts as empty where there is no file. Two faults are not told
    but end the run: a path that is too long to be looked for, and a format whose value the host
    cannot write. -/
theorem loadSettings_of_layers (host : Host) (t : FileTree) (a : Arguments) :
    let settings := ((loadSettings host a : StateM FileTree (Except SetupFault Settings)).run t).1
    ((∀ file, a.config = some file → file ≠ "" → a.configPath = Path.ofString file) ∧
        (a.config = none ∨ a.config = some "" →
          a.configPath = (Path.ofString a.input).parent.child "loxfront.toml")) ∧
      ((∀ content, ¬t.HoldsFile a.configPath content) →
        FindsConfig host t a.configPath [] ∨
          t.contentAt a.configPath = .error .nameTooLong ∧
            settings = .error (.crashed (.access .nameTooLong a.configPath))) ∧
      ∀ config, FindsConfig host t a.configPath config →
        (∀ value fault, config.OutputHas "format" value → host.textOf value = .error fault →
          settings = .error (.crashed (.ofShowFault fault))) ∧
        ((∀ value, config.OutputHas "format" value → host.textOf value = .ok value.display) →
          ((∃ message, settings = .error (.refused message)) ↔
            (∃ value, config.OutputHas "format" value ∧ IsNoFormat value.display) ∨
              ∃ name, a.format = some name ∧ IsNoFormat name) ∧
          (∀ value, config.OutputHas "format" value → IsNoFormat value.display →
            settings = .error (.refused (unknownFormatMessage value.display))) ∧
          ((∀ value, config.OutputHas "format" value → ¬IsNoFormat value.display) →
            (∀ name, a.format = some name → IsNoFormat name →
              settings = .error (.refused (unknownFormatMessage name))) ∧
            ((∀ name, a.format = some name → ¬IsNoFormat name) →
              ∃ s, settings = .ok s ∧ FollowsLayers a config s))) := by
  intro settings
  refine ⟨⟨?_, ?_⟩, ?_, ?_⟩
  · intro file hfile hne
    rw [Arguments.configPath, (argumentPath?_spec a.config).1 file hfile hne, Option.getD_some]
  · intro hnone
    rw [Arguments.configPath, (argumentPath?_spec a.config).2 hnone, Option.getD_none]
    rfl
  · intro hnoFile
    rcases findsConfig_of_no_file hnoFile with hempty | hlong
    · exact Or.inl hempty
    · have hlacks : LacksConfig host t a.configPath _ := .unreadable hlong rfl
      refine Or.inr ⟨hlong, ?_⟩
      simp only [settings, run_loadSettings_of_unsettled (.config hlacks)]
  · intro config hfound
    have hsettings : settings = settle host a config := by
      simp only [settings, run_loadSettings_of_finds hfound]
    rw [hsettings]
    refine ⟨fun value fault hvalue hunwritten => settle_of_unwritable hvalue hunwritten, ?_⟩
    intro hwritten
    refine ⟨exists_settle_eq_refused_iff hwritten, ?_, ?_⟩
    · intro value hvalue hunknown
      exact settle_of_configured hvalue (hwritten value hvalue) hunknown
    · intro hconfig
      exact settle_of_config_known fun value hvalue =>
        ⟨hwritten value hvalue, hconfig value hvalue⟩

/-- A format in the configuration beside the input that does not exist, which an argument that does
    is no excuse for; and a configuration that was named, which the arguments win over. -/
theorem loadSettings_of_layers_two_files :
    let host := Host.standard
    let bad := "[output]\nformat = \"xml\""
    let good := "[output]\nformat = \"tree\"\nshow_eof = true"
    let t : FileTree :=
      { entries :=
          [(["loxfront.toml"], .file (Utf8.encode bad)), (["c"], .file (Utf8.encode good))] }
    let a : Arguments := { input := "a.lox", format := some "tree" }
    let b : Arguments := { input := "a.lox", format := some "sexpr", config := some "c" }
    ((loadSettings host a : StateM FileTree (Except SetupFault Settings)).run t).1 =
        .error (.refused (unknownFormatMessage "xml")) ∧
      ∃ s, ((loadSettings host b : StateM FileTree (Except SetupFault Settings)).run t).1 = .ok s ∧
        s.format.name = "sexpr" ∧ s.showEnd = true := by
  intro host bad good t a b
  refine ⟨?_, ?_⟩
  · have hformat : (Toml.readDocument host bad.toList).map (Toml.Table.format? host) =
        .ok (.error (.unknownFormat "xml")) := by decide +kernel
    obtain ⟨config, hdocument, hfault⟩ := map_eq_ok_iff.mp hformat
    have hheld : t.contentAt a.configPath = .ok (Utf8.encode bad) := by decide +kernel
    have hfound : FindsConfig host t a.configPath config :=
      .read hheld (Utf8.decode_encode bad) hdocument
    obtain ⟨value, hentry, ⟨_, _, ⟨⟩⟩ | ⟨name, hname, hread⟩⟩ := format?_eq_error_iff.mp hfault
    obtain ⟨hunknown, hsame⟩ := readFormat_eq_error_iff.mp hread
    have hvalue := Toml.Table.lookup_outputEntries_eq_some_iff.mp hentry
    obtain rfl := Host.eq_display_of_textOf hname
    have hwritten : ∀ other, config.OutputHas "format" other →
        host.textOf other = .ok other.display := by
      intro other hother
      rw [← hvalue.unique hother]
      exact hname
    have hrefused := (((loadSettings_of_layers host t a).2.2 config hfound).2 hwritten).2.1 value
      hvalue (ofName?_eq_none_iff.mp hunknown)
    rw [← SettingFault.unknownFormat.inj hsame] at hrefused
    exact hrefused
  · have hformat : (Toml.readDocument host good.toList).map
        (fun config => (config.format? host, config.showsEnd)) =
          .ok (.ok (some .outline), true) := by
      decide +kernel
    obtain ⟨config, hdocument, hlayers⟩ := map_eq_ok_iff.mp hformat
    obtain ⟨hconfigured, hend⟩ := Prod.mk.inj hlayers
    have hheld : t.contentAt b.configPath = .ok (Utf8.encode good) := by decide +kernel
    have hfound : FindsConfig host t b.configPath config :=
      .read hheld (Utf8.decode_encode good) hdocument
    obtain ⟨value, hvalue, htext, hdisplay⟩ := Toml.Table.exists_outputHas_of_format? hconfigured
    have hwritten : ∀ other, config.OutputHas "format" other →
        host.textOf other = .ok other.display := by
      intro other hother
      rw [← hvalue.unique hother]
      exact htext
    have hknown : ∀ other, config.OutputHas "format" other → ¬IsNoFormat other.display := by
      intro other hother hunknown
      rw [← hvalue.unique hother, hdisplay] at hunknown
      exact hunknown.2 rfl
    have hgiven : ∀ name, b.format = some name → ¬IsNoFormat name := by
      intro name hname hunknown
      cases hname
      exact hunknown.1 rfl
    obtain ⟨s, hs, hfollows⟩ :=
      ((((loadSettings_of_layers host t b).2.2 config hfound).2 hwritten).2.2 hknown).2 hgiven
    exact ⟨s, hs, hfollows.given _ rfl,
      hfollows.showEnd.mpr (Or.inr (Toml.Table.showsEnd_eq_true_iff.mp hend))⟩

/-- A format that is a number of too many digits is in a document that can be read, and no format
    has its name; yet there are neither settings nor a refusal. -/
theorem loadSettings_of_overlarge_format :
    let host := Host.standard
    let document :=
      String.ofList ("[output]\nformat=0x1".toList ++ List.replicate 3600 '0')
    let t : FileTree := { entries := [(["loxfront.toml"], .file (Utf8.encode document))] }
    let a : Arguments := { input := "a.lox" }
    let settings := ((loadSettings host a : StateM FileTree (Except SetupFault Settings)).run t).1
    let fault : Host.ShowFault := .digits ⟨4300, none⟩
    (∃ config value, FindsConfig host t a.configPath config ∧ config.OutputHas "format" value ∧
        host.textOf value = .error fault) ∧
      settings = .error (.crashed (.ofShowFault fault)) ∧
      (¬∃ message, settings = .error (.refused message)) ∧ ¬∃ s, settings = .ok s := by
  intro host document t a settings fault
  have hformat : (Toml.readDocument host document.toList).map (Toml.Table.format? host) =
      .ok (.error (.unwritableFormat fault)) := by
    rw [String.toList_ofList]
    decide +kernel
  obtain ⟨config, hdocument, hfault⟩ := map_eq_ok_iff.mp hformat
  have hheld : t.contentAt a.configPath = .ok (Utf8.encode document) := by
    simp only [t]
    generalize Utf8.encode document = content
    have hpath : a.configPath = { names := ["loxfront.toml"] } := by decide +kernel
    rw [hpath, FileTree.contentAt_eq_ok_iff]
    exact ⟨by decide, ["loxfront.toml"], rfl, rfl⟩
  have hfound : FindsConfig host t a.configPath config :=
    .read hheld (Utf8.decode_encode document) hdocument
  have hcrashed : settings = .error (.crashed (.ofShowFault fault)) := by
    have hsettings : settings = settle host a config := by
      simp only [settings, run_loadSettings_of_finds hfound]
    rw [hsettings, settle, settingsOf_eq_error_iff.mpr (Or.inl hfault)]
    rfl
  obtain ⟨value, hentry, ⟨shown, hunwritten, hshown⟩ | ⟨name, -, hread⟩⟩ :=
    format?_eq_error_iff.mp hfault
  · cases hshown
    refine ⟨⟨config, value, hfound, Toml.Table.lookup_outputEntries_eq_some_iff.mp hentry,
      hunwritten⟩, hcrashed, ?_, ?_⟩
    · rintro ⟨message, hrefused⟩
      rw [hcrashed] at hrefused
      cases hrefused
    · rintro ⟨s, hs⟩
      rw [hcrashed] at hs
      cases hs
  · cases (readFormat_eq_error_iff.mp hread).2

end LoxSyntax
