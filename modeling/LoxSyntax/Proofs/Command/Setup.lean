import LoxSyntax.Command.Run
import LoxSyntax.Proofs.Expr.Progress
import LoxSyntax.Proofs.Lexeme.FaultPlace
set_option autoImplicit false

/-! # The settings that a run finds

A run looks at its arguments and at the file of its configuration, and at nothing else, before it
has settings (`Resolves`) or a reason to have none (`Unsettled`). One of the two is always the case
(`resolves_or_unsettled`), and in neither is a file changed (`run_loadSettings_of_resolves`,
`run_loadSettings_of_unsettled`). -/

namespace LoxSyntax

variable {host : Host} {t : FileTree} {a : Arguments} {p : Path}

/-! ## Looking at files -/

/-- What the file at a path holds, or why that is not known. -/
def FileTree.contentAt (t : FileTree) (p : Path) : Except AccessFault Bytes :=
  if p.text.toList.contains '\x00' then .error .embeddedNul else t.read p

theorem run_bind_of {α β : Type} {x : StateM FileTree α} {f : α → StateM FileTree β} {r : α}
    {u : FileTree} (h : x.run t = (r, u)) : (x >>= f).run t = (f r).run u := by
  rw [StateT.run_bind, h]
  rfl

/-- Reading a file changes none. -/
theorem run_readFile (t : FileTree) (p : Path) :
    (readFile p : StateM FileTree (Except AccessFault Bytes)).run t = (t.contentAt p, t) := by
  unfold readFile FileTree.contentAt
  split <;> rfl

/-! ## Configurations -/

/-- Does the fault mean that there is no file at the path? -/
def AccessFault.meansNoFile : AccessFault → Bool
  | .notFound | .notDirectory | .isDirectory | .embeddedNul => true
  | _ => false

/-- The configuration of a run is that of the file at the path, or an empty one without a file. -/
inductive FindsConfig (host : Host) (t : FileTree) (p : Path) : Toml.Table → Prop
  | none {fault : AccessFault} (unread : t.contentAt p = .error fault)
      (noFile : fault.meansNoFile = true) : FindsConfig host t p []
  | read {bytes : Bytes} {text : List Char} {config : Toml.Table}
      (held : t.contentAt p = .ok bytes) (decoded : Utf8.decode bytes = .ok text)
      (document : Toml.readDocument host text = .ok config) : FindsConfig host t p config

/-- The file at the path is no configuration, for the reason given. -/
inductive LacksConfig (host : Host) (t : FileTree) (p : Path) : SetupFault → Prop
  | unreadable {fault : AccessFault} (unread : t.contentAt p = .error fault)
      (file : fault.meansNoFile = false) : LacksConfig host t p (.crashed (.access fault p))
  | undecodable {bytes : Bytes} {fault : Utf8.Fault} (held : t.contentAt p = .ok bytes)
      (undecoded : Utf8.decode bytes = .error fault) :
      LacksConfig host t p (.crashed (.undecodable fault))
  | tooManyDigits {bytes : Bytes} {text : List Char} {fault : Host.DigitFault}
      (held : t.contentAt p = .ok bytes) (decoded : Utf8.decode bytes = .ok text)
      (document : Toml.readDocument host text = .error (.tooManyDigits fault)) :
      LacksConfig host t p (.crashed (.tooManyDigits fault))
  | stackExhausted {bytes : Bytes} {text : List Char}
      (held : t.contentAt p = .ok bytes) (decoded : Utf8.decode bytes = .ok text)
      (document : Toml.readDocument host text = .error .stackExhausted) :
      LacksConfig host t p (.crashed (.stackExhausted .reading))
  | malformed {bytes : Bytes} {text : List Char} {problem : Toml.Problem} {place : Option Position}
      (held : t.contentAt p = .ok bytes) (decoded : Utf8.decode bytes = .ok text)
      (document : Toml.readDocument host text = .error (.malformed problem place)) :
      LacksConfig host t p
        (.refused ("invalid config file: " ++ (Toml.Fault.malformed problem place).message))

theorem run_loadConfig_of_error {fault : AccessFault} (h : t.contentAt p = .error fault) :
    (loadConfig host p : StateM FileTree (Except SetupFault Toml.Table)).run t =
      (if fault.meansNoFile then .ok [] else .error (.crashed (.access fault p)), t) := by
  unfold loadConfig
  rw [run_bind_of (run_readFile t p), h]
  cases fault <;> rfl

theorem run_loadConfig_of_ok {bytes : Bytes} (h : t.contentAt p = .ok bytes) :
    (loadConfig host p : StateM FileTree (Except SetupFault Toml.Table)).run t =
      (readConfig host bytes, t) := by
  unfold loadConfig
  rw [run_bind_of (run_readFile t p), h]
  rfl

theorem readConfig_of_error {bytes : Bytes} {fault : Utf8.Fault}
    (h : Utf8.decode bytes = .error fault) :
    readConfig host bytes = .error (.crashed (.undecodable fault)) := by
  rw [readConfig, h]
  rfl

theorem readConfig_of_ok {bytes : Bytes} {text : List Char} (h : Utf8.decode bytes = .ok text) :
    readConfig host bytes = (Toml.readDocument host text).mapError .ofDocument := by
  rw [readConfig, h]
  rfl

theorem run_loadConfig_of_finds {config : Toml.Table} (h : FindsConfig host t p config) :
    (loadConfig host p : StateM FileTree (Except SetupFault Toml.Table)).run t =
      (.ok config, t) := by
  cases h with
  | none unread noFile => rw [run_loadConfig_of_error unread, if_pos noFile]
  | read held decoded document =>
    rw [run_loadConfig_of_ok held, readConfig_of_ok decoded, document]
    rfl

theorem run_loadConfig_of_lacks {fault : SetupFault} (h : LacksConfig host t p fault) :
    (loadConfig host p : StateM FileTree (Except SetupFault Toml.Table)).run t =
      (.error fault, t) := by
  cases h with
  | unreadable unread file =>
    rw [run_loadConfig_of_error unread, file]
    rfl
  | undecodable held undecoded => rw [run_loadConfig_of_ok held, readConfig_of_error undecoded]
  | tooManyDigits held decoded document | stackExhausted held decoded document
  | malformed held decoded document =>
    rw [run_loadConfig_of_ok held, readConfig_of_ok decoded, document]
    rfl

/-- A run has a configuration or a reason to have none. -/
theorem finds_or_lacks (host : Host) (t : FileTree) (p : Path) :
    (∃ config, FindsConfig host t p config) ∨ ∃ fault, LacksConfig host t p fault := by
  cases hcontent : t.contentAt p with
  | error fault =>
    cases hfile : fault.meansNoFile with
    | true => exact Or.inl ⟨_, .none hcontent hfile⟩
    | false => exact Or.inr ⟨_, .unreadable hcontent hfile⟩
  | ok bytes =>
    cases hdecode : Utf8.decode bytes with
    | error fault => exact Or.inr ⟨_, .undecodable hcontent hdecode⟩
    | ok text =>
      cases hdocument : Toml.readDocument host text with
      | ok config => exact Or.inl ⟨_, .read hcontent hdecode hdocument⟩
      | error fault =>
        cases fault with
        | malformed => exact Or.inr ⟨_, .malformed hcontent hdecode hdocument⟩
        | tooManyDigits => exact Or.inr ⟨_, .tooManyDigits hcontent hdecode hdocument⟩
        | stackExhausted => exact Or.inr ⟨_, .stackExhausted hcontent hdecode hdocument⟩

/-! ## Formats -/

/-- The first of the formats named, that of the configuration before that of the arguments, that
    does not exist has the name. -/
inductive NamesUnknownFormat (host : Host) (a : Arguments) (config : Toml.Table) (name : String) :
    Prop
  | configured {value : Toml.Value} (entry : config.outputEntries.lookup "format" = some value)
      (written : host.textOf value = .ok name) (unknown : OutputFormat.ofName? name = none)
  | given (configured : ∃ format?, config.format? host = .ok format?) (entry : a.format = some name)
      (unknown : OutputFormat.ofName? name = none)

/-- The format of the configuration is a value whose text the host cannot make. -/
def NamesUnwritableFormat (host : Host) (config : Toml.Table) (fault : Host.ShowFault) : Prop :=
  ∃ value, config.outputEntries.lookup "format" = some value ∧ host.textOf value = .error fault

theorem readFormat_eq_error_iff {name : String} {fault : SettingFault} :
    readFormat name = .error fault ↔
      OutputFormat.ofName? name = none ∧ fault = .unknownFormat name := by
  unfold readFormat
  cases OutputFormat.ofName? name with
  | some format => simp
  | none => simp [eq_comm]

theorem format?_eq_error_iff {config : Toml.Table} {fault : SettingFault} :
    config.format? host = .error fault ↔
      ∃ value, config.outputEntries.lookup "format" = some value ∧
        ((∃ shown, host.textOf value = .error shown ∧ fault = .unwritableFormat shown) ∨
          ∃ name, host.textOf value = .ok name ∧ readFormat name = .error fault) := by
  unfold Toml.Table.format?
  cases config.outputEntries.lookup "format" with
  | none => exact iff_of_false nofun (by simp)
  | some value =>
    simp only [Option.some.injEq, exists_eq_left']
    cases host.textOf value with
    | error shown =>
      show Except.error (SettingFault.unwritableFormat shown) = Except.error fault ↔ _
      simp [eq_comm]
    | ok name =>
      show (readFormat name).map some = .error fault ↔ _
      simp [map_eq_error_iff]

theorem mapM_readFormat_eq_error_iff {given : Option String} {fault : SettingFault} :
    given.mapM readFormat = .error fault ↔
      ∃ name, given = some name ∧ readFormat name = .error fault := by
  cases given with
  | none => exact iff_of_false nofun (by simp)
  | some name =>
    simp only [Option.some.injEq, exists_eq_left']
    exact map_eq_error_iff

/-- The format of the configuration is looked at before that of the arguments. -/
theorem settingsOf_eq_error_iff {config : Toml.Table} {fault : SettingFault} :
    Settings.of host a config = .error fault ↔
      config.format? host = .error fault ∨
        (∃ format?, config.format? host = .ok format?) ∧
          a.format.mapM readFormat = .error fault := by
  unfold Settings.of
  cases config.format? host with
  | error first =>
    show Except.error first = Except.error fault ↔ _
    simp
  | ok configured =>
    -- only then the format of the arguments counts
    show (a.format.mapM readFormat).bind _ = _ ↔ _
    cases a.format.mapM readFormat with
    | error second =>
      show Except.error second = Except.error fault ↔ _
      simp
    | ok given => exact iff_of_false nofun (by simp)

theorem settingsOf_eq_unknownFormat_iff {config : Toml.Table} {name : String} :
    Settings.of host a config = .error (.unknownFormat name) ↔
      NamesUnknownFormat host a config name := by
  rw [settingsOf_eq_error_iff, format?_eq_error_iff, mapM_readFormat_eq_error_iff]
  constructor
  · rintro (⟨value, hentry, ⟨_, _, ⟨⟩⟩ | ⟨other, hwritten, hfault⟩⟩ |
      ⟨hconfigured, _, hentry, hfault⟩)
    · obtain ⟨hunknown, hname⟩ := readFormat_eq_error_iff.mp hfault
      cases hname
      exact .configured hentry hwritten hunknown
    · obtain ⟨hunknown, hname⟩ := readFormat_eq_error_iff.mp hfault
      cases hname
      exact .given hconfigured hentry hunknown
  · intro h
    cases h with
    | @configured value entry written unknown =>
      exact Or.inl ⟨value, entry, Or.inr ⟨name, written,
        readFormat_eq_error_iff.mpr ⟨unknown, rfl⟩⟩⟩
    | given configured entry unknown =>
      exact Or.inr ⟨configured, name, entry, readFormat_eq_error_iff.mpr ⟨unknown, rfl⟩⟩

theorem settingsOf_eq_unwritableFormat_iff {config : Toml.Table} {fault : Host.ShowFault} :
    Settings.of host a config = .error (.unwritableFormat fault) ↔
      NamesUnwritableFormat host config fault := by
  rw [settingsOf_eq_error_iff, format?_eq_error_iff, mapM_readFormat_eq_error_iff]
  constructor
  · rintro (⟨value, hentry, ⟨shown, hunwritten, ⟨⟩⟩ | ⟨_, _, hfault⟩⟩ | ⟨_, _, _, hfault⟩)
    · exact ⟨value, hentry, hunwritten⟩
    · cases (readFormat_eq_error_iff.mp hfault).2
    · cases (readFormat_eq_error_iff.mp hfault).2
  · rintro ⟨value, hentry, hunwritten⟩
    exact Or.inl ⟨value, hentry, Or.inl ⟨fault, hunwritten, rfl⟩⟩

/-! ## Settings -/

/-- The arguments and the configuration that is found make the settings. -/
def Resolves (host : Host) (t : FileTree) (a : Arguments) (s : Settings) : Prop :=
  ∃ config, FindsConfig host t a.configPath config ∧ Settings.of host a config = .ok s

/-- The arguments and the configuration make no settings, for the reason given. -/
inductive Unsettled (host : Host) (t : FileTree) (a : Arguments) : SetupFault → Prop
  | config {fault : SetupFault} (lacks : LacksConfig host t a.configPath fault) :
      Unsettled host t a fault
  | unknownFormat {config : Toml.Table} {name : String}
      (found : FindsConfig host t a.configPath config)
      (unknown : NamesUnknownFormat host a config name) :
      Unsettled host t a (.refused (unknownFormatMessage name))
  | unwritableFormat {config : Toml.Table} {fault : Host.ShowFault}
      (found : FindsConfig host t a.configPath config)
      (unwritable : NamesUnwritableFormat host config fault) :
      Unsettled host t a (.crashed (.ofShowFault fault))

/-- With a configuration, it and the arguments decide on the settings. -/
theorem run_loadSettings_of_finds {config : Toml.Table}
    (h : FindsConfig host t a.configPath config) :
    (loadSettings host a : StateM FileTree (Except SetupFault Settings)).run t =
      (settle host a config, t) := by
  unfold loadSettings
  rw [run_bind_of (run_loadConfig_of_finds h)]
  rfl

theorem run_loadSettings_of_resolves {s : Settings} (h : Resolves host t a s) :
    (loadSettings host a : StateM FileTree (Except SetupFault Settings)).run t = (.ok s, t) := by
  obtain ⟨config, hfound, hsettings⟩ := h
  rw [run_loadSettings_of_finds hfound, settle, hsettings]
  rfl

theorem run_loadSettings_of_unsettled {fault : SetupFault} (h : Unsettled host t a fault) :
    (loadSettings host a : StateM FileTree (Except SetupFault Settings)).run t =
      (.error fault, t) := by
  cases h with
  | config lacks =>
    unfold loadSettings
    rw [run_bind_of (run_loadConfig_of_lacks lacks)]
    rfl
  | unknownFormat found unknown =>
    rw [run_loadSettings_of_finds found, settle, settingsOf_eq_unknownFormat_iff.mpr unknown]
    rfl
  | unwritableFormat found unwritable =>
    rw [run_loadSettings_of_finds found, settle, settingsOf_eq_unwritableFormat_iff.mpr unwritable]
    rfl

/-- A run has settings or a reason to have none. -/
theorem resolves_or_unsettled (host : Host) (t : FileTree) (a : Arguments) :
    (∃ s, Resolves host t a s) ∨ ∃ fault, Unsettled host t a fault := by
  rcases finds_or_lacks host t a.configPath with ⟨config, hfound⟩ | ⟨fault, hlacks⟩
  · cases hsettings : Settings.of host a config with
    | ok s => exact Or.inl ⟨s, config, hfound, hsettings⟩
    | error fault =>
      cases fault with
      | unknownFormat name =>
        have hunknown := settingsOf_eq_unknownFormat_iff.mp hsettings
        exact Or.inr ⟨_, .unknownFormat hfound hunknown⟩
      | unwritableFormat shown =>
        have hunwritable := settingsOf_eq_unwritableFormat_iff.mp hsettings
        exact Or.inr ⟨_, .unwritableFormat hfound hunwritable⟩
  · exact Or.inr ⟨fault, .config hlacks⟩

/-- The paths of the settings are those of the arguments. -/
theorem Resolves.paths {s : Settings} (h : Resolves host t a s) :
    s.input = a.inputPath ∧ s.output = argumentPath? a.output := by
  obtain ⟨config, _, hsettings⟩ := h
  obtain ⟨configured, _, hrest⟩ := bind_eq_ok_iff.mp hsettings
  obtain ⟨given, _, hmade⟩ := bind_eq_ok_iff.mp hrest
  cases hmade
  exact ⟨rfl, rfl⟩

end LoxSyntax
