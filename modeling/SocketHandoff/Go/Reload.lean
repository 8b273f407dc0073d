import SocketHandoff.Go.MemLimit

/-!
# The configuration of the Go daemon

`Load`, `LoadRaw`, `Validate`, `ValidateReloadable` and `Default` of `config/config.go`, with what
`main` makes of the settings that a `SIGHUP` can change and what `reloadConfig` makes of them later.
What the YAML decoder finds in a file is given, field by field.
-/

namespace SocketHandoff.Go.Reload

open Config

abbrev Text := List UInt8

/-! ## The configuration -/

/-- `LoggingConfig`. -/
structure LoggingConfig where
  level : Text
  format : Text
  deriving DecidableEq, Repr

/-- What is checked of a `LangGraphProfileConfig`. -/
structure ProfileConfig where
  name : Text
  apiSocket : Text
  contentFormat : Text
  deriving DecidableEq, Repr

/-- `Config`: the fields that are validated, and those that can be reloaded. -/
structure Config where
  socketPath : Text
  socketMode : Nat
  maxConnections : Int
  maxStreamDurationMs : Int
  memLimit : Text
  gcPercent : Int
  dataDir : Text
  dataDirMaxAgeMs : Int
  openAISocket : Text
  langGraphSocket : Text
  /-- a map, in the order in which it is gone through -/
  profiles : List ProfileConfig
  messageDelayMs : Int
  metricsEnabled : Bool
  listenAddr : Text
  logging : LoggingConfig

/-- The zero value of `Config`, into which `LoadRaw` reads a file: what the file does not say can
then be told from what it says, whatever the defaults are. -/
def Config.zero : Config where
  socketPath := []
  socketMode := 0
  maxConnections := 0
  maxStreamDurationMs := 0
  memLimit := []
  gcPercent := 0
  dataDir := []
  dataDirMaxAgeMs := 0
  openAISocket := []
  langGraphSocket := []
  profiles := []
  messageDelayMs := 0
  metricsEnabled := false
  listenAddr := []
  logging := ⟨[], []⟩

/-- `Default`: what the daemon runs with where neither the file nor a flag says anything else. -/
def Config.default : Config where
  socketPath := ascii "/run/streaming-daemon.sock"
  socketMode := 0o660
  maxConnections := 50000
  maxStreamDurationMs := 300000
  memLimit := []
  gcPercent := 0
  dataDir := ascii "/run/handoff-data"
  dataDirMaxAgeMs := 600000
  openAISocket := []
  langGraphSocket := []
  profiles := []
  messageDelayMs := 50
  metricsEnabled := true
  listenAddr := ascii "127.0.0.1:9090"
  logging := ⟨ascii "info", ascii "text"⟩

/-- What a file says of these fields, if it says anything. -/
structure File where
  socketPath : Option Text
  socketMode : Option Nat
  maxConnections : Option Int
  maxStreamDurationMs : Option Int
  memLimit : Option Text
  gcPercent : Option Int
  dataDir : Option Text
  dataDirMaxAgeMs : Option Int
  openAISocket : Option Text
  langGraphSocket : Option Text
  profiles : Option (List ProfileConfig)
  messageDelayMs : Option Int
  metricsEnabled : Option Bool
  listenAddr : Option Text
  level : Option Text
  format : Option Text

/-- `yaml.Unmarshal` into a configuration: what the file does not say stays. -/
def File.unmarshal (file : File) (cfg : Config) : Config where
  socketPath := file.socketPath.getD cfg.socketPath
  socketMode := file.socketMode.getD cfg.socketMode
  maxConnections := file.maxConnections.getD cfg.maxConnections
  maxStreamDurationMs := file.maxStreamDurationMs.getD cfg.maxStreamDurationMs
  memLimit := file.memLimit.getD cfg.memLimit
  gcPercent := file.gcPercent.getD cfg.gcPercent
  dataDir := file.dataDir.getD cfg.dataDir
  dataDirMaxAgeMs := file.dataDirMaxAgeMs.getD cfg.dataDirMaxAgeMs
  openAISocket := file.openAISocket.getD cfg.openAISocket
  langGraphSocket := file.langGraphSocket.getD cfg.langGraphSocket
  profiles := file.profiles.getD cfg.profiles
  messageDelayMs := file.messageDelayMs.getD cfg.messageDelayMs
  metricsEnabled := file.metricsEnabled.getD cfg.metricsEnabled
  listenAddr := file.listenAddr.getD cfg.listenAddr
  logging := ⟨file.level.getD cfg.logging.level, file.format.getD cfg.logging.format⟩

/-! ## Validation -/

section Validation

variable (unicode : LowerCase)

/-- The levels that `logging.level` may name, in any letter case. -/
def levels : List (List Char) :=
  [[], ['d', 'e', 'b', 'u', 'g'], ['i', 'n', 'f', 'o'], ['w', 'a', 'r', 'n'],
    ['w', 'a', 'r', 'n', 'i', 'n', 'g'], ['e', 'r', 'r', 'o', 'r']]

/-- And the formats. -/
def formats : List (List Char) := [[], ['t', 'e', 'x', 't'], ['j', 's', 'o', 'n']]

/-- `ValidateReloadable`; the error begins with the field it is about. -/
def Config.validateReloadable (c : Config) : Except String Unit :=
  if c.memLimit ≠ [] ∧ parseMemLimit unicode c.memLimit ≤ 0 then
    .error "server.mem_limit: invalid value"
  else if c.gcPercent < 0 then .error "server.gc_percent must be non-negative"
  else if !levels.contains (toLower unicode c.logging.level) then
    .error "logging.level must be one of debug, info, warn, warning, error"
  else if !formats.contains (toLower unicode c.logging.format) then
    .error "logging.format must be \"text\" or \"json\""
  else .ok ()

/-- `!filepath.IsAbs(path)`, of a path that is given. -/
def isRelative (path : Text) : Bool := path ≠ [] ∧ path.head? ≠ some 47

/-- The checks of the profiles. -/
def validateProfiles : List ProfileConfig → Except String Unit
  | [] => .ok ()
  | profile :: rest =>
    if isRelative profile.apiSocket then
      .error "backend.langgraph.profiles: api_socket must be absolute path"
    else if profile.contentFormat ≠ [] ∧ profile.contentFormat ≠ ascii "openai" ∧
        profile.contentFormat ≠ ascii "anthropic" then
      .error "backend.langgraph.profiles: content_format must be \"openai\" or \"anthropic\""
    else validateProfiles rest

/-- The checks of `Validate` before those of the fields that can be reloaded. -/
def Config.validateFixed (c : Config) : Except String Unit :=
  if c.maxConnections ≤ 0 then .error "server.max_connections must be positive"
  else if c.maxStreamDurationMs < 0 then
    .error "server.max_stream_duration_ms must be non-negative"
  else if c.dataDirMaxAgeMs < 0 then .error "server.data_dir_max_age_ms must be non-negative"
  else if 0o777 < c.socketMode then .error "server.socket_mode must be an octal permission mode"
  else if isRelative c.socketPath then .error "server.socket_path must be absolute path"
  else if isRelative c.dataDir then .error "server.data_dir must be absolute path"
  else if isRelative c.openAISocket then .error "backend.openai.api_socket must be absolute path"
  else if isRelative c.langGraphSocket then
    .error "backend.langgraph.api_socket must be absolute path"
  else do
    validateProfiles c.profiles
    if c.metricsEnabled = true ∧ c.listenAddr = [] then
      .error "metrics.listen_addr required when metrics.enabled is true"

/-- `Validate`. -/
def Config.validate (c : Config) : Except String Unit := do
  c.validateFixed
  c.validateReloadable unicode
  if c.messageDelayMs < 0 then .error "backend.mock.message_delay_ms must be non-negative"

/-- What comes of reading a file. -/
inductive Read
  | unreadable
  | malformed
  | file (file : File)

/-- `Load`. -/
def load : Read → Except String Config
  | .unreadable => .error "read config file"
  | .malformed => .error "parse config file"
  | .file file => do
    let cfg := file.unmarshal .default
    cfg.validate unicode
    return cfg

/-- `LoadRaw`. -/
def loadRaw : Read → Except String Config
  | .unreadable => .error "read config file"
  | .malformed => .error "parse config file"
  | .file file => do
    let cfg := file.unmarshal .zero
    cfg.validateReloadable unicode
    return cfg

end Validation

/-! ## What a `SIGHUP` changes -/

section Settings

variable (unicode : LowerCase)

inductive Level
  | debug
  | info
  | warn
  | error
  deriving DecidableEq, Repr

/-- The default logger. -/
structure Logger where
  level : Level
  json : Bool
  deriving DecidableEq, Repr

/-- `initLogging`. -/
def initLogging (cfg : LoggingConfig) : Logger where
  level :=
    if toLower unicode cfg.level = ['d', 'e', 'b', 'u', 'g'] then .debug
    else if toLower unicode cfg.level = ['w', 'a', 'r', 'n'] ∨
        toLower unicode cfg.level = ['w', 'a', 'r', 'n', 'i', 'n', 'g'] then .warn
    else if toLower unicode cfg.level = ['e', 'r', 'r', 'o', 'r'] then .error
    else .info
  json := toLower unicode cfg.format = ['j', 's', 'o', 'n']

/-- `-memlimit`, empty unless it is given, and `-gc-percent`, negative unless it is. -/
structure Flags where
  memLimit : Text
  gcPercent : Int

/-- The settings of the running daemon. -/
structure Settings where
  currentLogging : LoggingConfig
  logger : Logger
  /-- what `debug.SetMemoryLimit` was called with last -/
  memoryLimit : Option Int64
  /-- what `debug.SetGCPercent` was called with last -/
  gcPercent : Option Int
  deriving DecidableEq

/-- The flag overrides the file. -/
def Flags.memLimitOf (flags : Flags) (memLimit : Text) : Text :=
  if flags.memLimit ≠ [] then flags.memLimit else memLimit

/-- The flag overrides the file, in which 0 says nothing. -/
def Flags.gcPercentOf (flags : Flags) (gcPercent : Int) : Option Int :=
  if 0 ≤ flags.gcPercent then some flags.gcPercent
  else if gcPercent ≠ 0 then some gcPercent
  else none

/-- The memory limit that `main` sets; `none` when it exits instead. -/
def startMemLimit (memLimit : Text) : Option (Option Int64) :=
  if memLimit = [] then some none
  else if parseMemLimit unicode memLimit ≤ 0 then none
  else some (some (parseMemLimit unicode memLimit))

/-- What `main` sets from the configuration that it has loaded; `none` when it exits. -/
def start (flags : Flags) (read : Read) : Option Settings := do
  let cfg ← (load unicode read).toOption
  let memoryLimit ← startMemLimit unicode (flags.memLimitOf cfg.memLimit)
  return {
    currentLogging := cfg.logging
    logger := initLogging unicode cfg.logging
    memoryLimit
    gcPercent := flags.gcPercentOf cfg.gcPercent }

/-- A field of the new configuration, if there is anything in it. -/
def given (new current : Text) : Text := if new ≠ [] then new else current

/-- The part of `reloadConfig` about logging. -/
def Settings.reloadLogging (s : Settings) (new : LoggingConfig) : Settings :=
  if new.level ≠ [] ∨ new.format ≠ [] then
    let merged := ⟨given new.level s.currentLogging.level, given new.format s.currentLogging.format⟩
    { s with
      currentLogging := merged
      logger := initLogging unicode merged }
  else s

/-- The part about the memory limit. -/
def Settings.reloadMemLimit (s : Settings) (memLimit : Text) : Settings :=
  if memLimit ≠ [] ∧ 0 < parseMemLimit unicode memLimit then
    { s with memoryLimit := some (parseMemLimit unicode memLimit) }
  else s

/-- And the part about the garbage collector. -/
def Settings.reloadGCPercent (s : Settings) (gcPercent : Option Int) : Settings :=
  { s with gcPercent := gcPercent.or s.gcPercent }

/-- `reloadConfig`, with a file to read. -/
def reloadConfig (flags : Flags) (s : Settings) (read : Read) : Settings :=
  match loadRaw unicode read with
  | .error _ => s
  | .ok new =>
    ((s.reloadLogging unicode new.logging).reloadMemLimit unicode
      (flags.memLimitOf new.memLimit)).reloadGCPercent (flags.gcPercentOf new.gcPercent)

/-- A file that says of the fields that can be reloaded what the later file gives, and else what the
earlier one says. -/
def File.updated (file new : File) : File :=
  let given (new old : Option Text) : Option Text := if new.getD [] ≠ [] then new else old
  { file with
    level := given new.level file.level
    format := given new.format file.format
    memLimit := given new.memLimit file.memLimit
    gcPercent := if new.gcPercent.getD 0 ≠ 0 then new.gcPercent else file.gcPercent }

/-- The same for what is read on a `SIGHUP`, if it is accepted. -/
def File.reread (file : File) (read : Read) : File :=
  match read with
  | .file new => if (loadRaw unicode (.file new)).toBool then file.updated new else file
  | .unreadable | .malformed => file

end Settings

/-! ## What is accepted -/

section Accepted

variable {unicode : LowerCase} {c : Config} {file new : File} {raw : Config}

/-- A check that passes. -/
theorem ite_error {p : Prop} [Decidable p] {err : String} {rest : Except String Unit} :
    (if p then .error err else rest) = .ok () ↔ ¬ p ∧ rest = .ok () := by
  by_cases hp : p
  · rw [if_pos hp]
    exact iff_of_false (fun h => by cases h) fun h => h.1 hp
  · rw [if_neg hp]
    exact ⟨fun h => ⟨hp, h⟩, fun h => h.2⟩

theorem validateReloadable_ok : c.validateReloadable unicode = .ok () ↔
    (c.memLimit ≠ [] → 0 < parseMemLimit unicode c.memLimit) ∧ 0 ≤ c.gcPercent ∧
      levels.contains (toLower unicode c.logging.level) = true ∧
        formats.contains (toLower unicode c.logging.format) = true := by
  rw [Config.validateReloadable, ite_error, ite_error, ite_error, ite_error]
  simp only [not_and, Int64.not_le, Int.not_lt, Bool.not_eq_true', Bool.not_eq_false, and_true]

theorem validate_ok : c.validate unicode = .ok () ↔ c.validateFixed = .ok () ∧
    c.validateReloadable unicode = .ok () ∧ 0 ≤ c.messageDelayMs := by
  rw [Config.validate]
  cases c.validateFixed with
  | error err => exact iff_of_false (fun h => by cases h) fun h => by cases h.1
  | ok _ =>
    cases c.validateReloadable unicode with
    | error err => exact iff_of_false (fun h => by cases h) fun h => by cases h.2.1
    | ok _ =>
      have hdelay := @ite_error (c.messageDelayMs < 0) _
        "backend.mock.message_delay_ms must be non-negative" (.ok ())
      simp only [Int.not_lt, and_true] at hdelay
      exact hdelay.trans ⟨fun h => ⟨rfl, rfl, h⟩, fun h => h.2.2⟩

theorem load_ok : load unicode (.file file) = .ok c ↔
    c = file.unmarshal .default ∧ c.validate unicode = .ok () := by
  rw [load]
  cases hvalid : (file.unmarshal .default).validate unicode with
  | error err =>
    refine iff_of_false (fun h => by cases h) ?_
    rintro ⟨rfl, h⟩
    rw [hvalid] at h
    cases h
  | ok _ =>
    constructor
    · intro h
      obtain rfl := Except.ok.inj h
      exact ⟨rfl, hvalid⟩
    · rintro ⟨rfl, -⟩
      rfl

theorem loadRaw_ok : loadRaw unicode (.file file) = .ok c ↔
    c = file.unmarshal .zero ∧ c.validateReloadable unicode = .ok () := by
  rw [loadRaw]
  cases hvalid : (file.unmarshal .zero).validateReloadable unicode with
  | error err =>
    refine iff_of_false (fun h => by cases h) ?_
    rintro ⟨rfl, h⟩
    rw [hvalid] at h
    cases h
  | ok _ =>
    constructor
    · intro h
      obtain rfl := Except.ok.inj h
      exact ⟨rfl, hvalid⟩
    · rintro ⟨rfl, -⟩
      rfl

/-- **A file that is accepted at the start is accepted on a `SIGHUP`**: what it does not say passes
as the empty value, too. -/
theorem loadRaw_of_load (h : load unicode (.file file) = .ok c) :
    loadRaw unicode (.file file) = .ok (file.unmarshal .zero) := by
  obtain ⟨rfl, hvalid⟩ := load_ok.mp h
  obtain ⟨hmem, hgc, hlevel, hformat⟩ := validateReloadable_ok.mp (validate_ok.mp hvalid).2.1
  refine loadRaw_ok.mpr ⟨rfl, validateReloadable_ok.mpr ⟨hmem, hgc, ?_, ?_⟩⟩
  · rw [File.unmarshal] at hlevel ⊢
    cases hl : file.level with
    | none => rfl
    | some level =>
      rw [hl] at hlevel
      exact hlevel
  · rw [File.unmarshal] at hformat ⊢
    cases hf : file.format with
    | none => rfl
    | some format =>
      rw [hf] at hformat
      exact hformat

end Accepted

/-! ## Starting with the file as it has become -/

section Updated

variable {unicode : LowerCase} {flags : Flags} {s : Settings} {file new : File}

/-- What `main` starts with. -/
theorem start_eq_some : start unicode flags (.file file) = some s ↔
    (file.unmarshal .default).validate unicode = .ok () ∧ ∃ limit,
      startMemLimit unicode (flags.memLimitOf (file.unmarshal .default).memLimit) = some limit ∧
        s = ⟨(file.unmarshal .default).logging, initLogging unicode (file.unmarshal .default).logging,
          limit, flags.gcPercentOf (file.unmarshal .default).gcPercent⟩ := by
  cases hload : load unicode (.file file) with
  | error err =>
    refine iff_of_false (fun h => ?_) ?_
    · rw [start, hload] at h
      cases h
    · rintro ⟨hvalid, -⟩
      rw [load_ok.mpr ⟨rfl, hvalid⟩] at hload
      cases hload
  | ok cfg =>
    obtain ⟨rfl, hvalid⟩ := load_ok.mp hload
    have hstart : start unicode flags (.file file) =
        (startMemLimit unicode (flags.memLimitOf (file.unmarshal .default).memLimit)).bind
          fun limit => some ⟨(file.unmarshal .default).logging,
            initLogging unicode (file.unmarshal .default).logging, limit,
              flags.gcPercentOf (file.unmarshal .default).gcPercent⟩ := by
      rw [start, hload]
      rfl
    rw [hstart, Option.bind_eq_some_iff]
    constructor
    · rintro ⟨limit, hlimit, heq⟩
      exact ⟨hvalid, limit, hlimit, (Option.some.inj heq).symm⟩
    · rintro ⟨-, limit, hlimit, rfl⟩
      exact ⟨limit, hlimit, rfl⟩

/-- A text of either file, as it is decoded. -/
theorem getD_given (new old : Option Text) (d : Text) :
    (if new.getD [] ≠ [] then new else old).getD d = given (new.getD []) (old.getD d) := by
  rw [given]
  cases new with
  | none => rfl
  | some text =>
    split
    · rfl
    · rfl

/-- **The updated file, decoded**: its settings are those of the later file where that gives any. -/
theorem unmarshal_updated : (file.updated new).unmarshal .default =
    { file.unmarshal .default with
      memLimit := given (new.unmarshal .zero).memLimit (file.unmarshal .default).memLimit
      gcPercent := if (new.unmarshal .zero).gcPercent ≠ 0 then (new.unmarshal .zero).gcPercent
        else (file.unmarshal .default).gcPercent
      logging :=
        ⟨given (new.unmarshal .zero).logging.level (file.unmarshal .default).logging.level,
          given (new.unmarshal .zero).logging.format (file.unmarshal .default).logging.format⟩ } := by
  have hgc : ∀ (new old : Option Int), (if new.getD 0 ≠ 0 then new else old).getD 0 =
      if new.getD 0 ≠ 0 then new.getD 0 else old.getD 0 := by
    intro new old
    split <;> rfl
  simp only [File.unmarshal, File.updated, getD_given, Config.default, Config.zero, hgc]
  rfl

/-- What either of two texts passes, the one that is taken passes. -/
theorem given_cases {P : Text → Prop} {text old : Text} (hnew : text ≠ [] → P text)
    (hold : text = [] → P old) : P (given text old) := by
  rw [given]
  split
  · rename_i h
    exact hnew h
  · rename_i h
    exact hold (not_not.mp h)

/-- It is valid if both are. -/
theorem validate_updated (hfile : (file.unmarshal .default).validate unicode = .ok ())
    (hnew : (new.unmarshal .zero).validateReloadable unicode = .ok ()) :
    ((file.updated new).unmarshal .default).validate unicode = .ok () := by
  obtain ⟨hfixed, hreloadable, hdelay⟩ := validate_ok.mp hfile
  obtain ⟨hmem, hgc, hlevel, hformat⟩ := validateReloadable_ok.mp hreloadable
  obtain ⟨hmem', hgc', hlevel', hformat'⟩ := validateReloadable_ok.mp hnew
  rw [unmarshal_updated]
  refine validate_ok.mpr ⟨hfixed, validateReloadable_ok.mpr ⟨?_, ?_, ?_, ?_⟩, hdelay⟩
  · apply given_cases (P := fun text => text ≠ [] → 0 < parseMemLimit unicode text)
    · exact fun h _ => hmem' h
    · exact fun _ => hmem
  · dsimp only
    split
    · exact hgc'
    · exact hgc
  · apply given_cases (P := fun text => levels.contains (toLower unicode text) = true)
    · exact fun _ => hlevel'
    · exact fun _ => hlevel
  · apply given_cases (P := fun text => formats.contains (toLower unicode text) = true)
    · exact fun _ => hformat'
    · exact fun _ => hformat

/-- A limit that the daemon starts with. -/
theorem startMemLimit_pos {text : Text} (hne : text ≠ []) (hpos : 0 < parseMemLimit unicode text) :
    startMemLimit unicode text = some (some (parseMemLimit unicode text)) := by
  rw [startMemLimit, if_neg hne, if_neg (Int64.not_le.mpr hpos)]

/-- The memory limit that is reloaded is the one the daemon would start with. -/
theorem startMemLimit_given {text old : Text} {limit : Option Int64}
    (hold : startMemLimit unicode (flags.memLimitOf old) = some limit)
    (hvalid : text ≠ [] → 0 < parseMemLimit unicode text) :
    startMemLimit unicode (flags.memLimitOf (given text old)) =
      some (if flags.memLimitOf text ≠ [] ∧ 0 < parseMemLimit unicode (flags.memLimitOf text) then
        some (parseMemLimit unicode (flags.memLimitOf text)) else limit) := by
  by_cases hflag : flags.memLimit ≠ []
  · have hall : ∀ text, flags.memLimitOf text = flags.memLimit := fun text => if_pos hflag
    rw [hall] at hold
    rw [hall, hall, hold]
    rw [startMemLimit, if_neg hflag] at hold
    split at hold
    · cases hold
    · rename_i hpos
      obtain rfl := Option.some.inj hold
      rw [if_pos ⟨hflag, Int64.not_le.mp hpos⟩]
  · have hall : ∀ text, flags.memLimitOf text = text := fun text => if_neg hflag
    rw [hall] at hold
    rw [hall, hall, given]
    by_cases htext : text ≠ []
    · rw [if_pos htext, startMemLimit_pos htext (hvalid htext), if_pos ⟨htext, hvalid htext⟩]
    · rw [if_neg htext, hold, if_neg fun h => htext h.1]

/-- And so is the setting of the garbage collector. -/
theorem gcPercentOf_given (flags : Flags) (new old : Int) :
    flags.gcPercentOf (if new ≠ 0 then new else old) =
      (flags.gcPercentOf new).or (flags.gcPercentOf old) := by
  by_cases hflag : 0 ≤ flags.gcPercent
  · have hall : ∀ gcPercent, flags.gcPercentOf gcPercent = some flags.gcPercent :=
      fun gcPercent => if_pos hflag
    rw [hall, hall]
    rfl
  · have hall : ∀ gcPercent, flags.gcPercentOf gcPercent =
        if gcPercent ≠ 0 then some gcPercent else none := fun gcPercent => if_neg hflag
    rw [hall, hall, hall]
    by_cases hnew : new ≠ 0
    · rw [if_pos hnew, if_pos hnew]
      rfl
    · rw [if_neg hnew, if_neg hnew]
      rfl

/-- What is merged of the logging configuration. -/
theorem reloadLogging_eq (s : Settings) (new : LoggingConfig)
    (hlogger : s.logger = initLogging unicode s.currentLogging) :
    let merged := ⟨given new.level s.currentLogging.level, given new.format s.currentLogging.format⟩
    s.reloadLogging unicode new =
      { s with
        currentLogging := merged
        logger := initLogging unicode merged } := by
  rw [Settings.reloadLogging]
  split
  · rfl
  · rename_i hnone
    obtain ⟨hlevel, hformat⟩ := not_or.mp hnone
    rw [given, given, if_neg hlevel, if_neg hformat]
    dsimp only
    rw [← hlogger]

/-- **The step lemma**: after a `SIGHUP` the settings are those with which the daemon would start on
the file as it is updated. -/
theorem start_reread_one (h : start unicode flags (.file file) = some s) (read : Read) :
    start unicode flags (.file (file.reread unicode read)) =
      some (reloadConfig unicode flags s read) := by
  cases read with
  | unreadable => exact h
  | malformed => exact h
  | file new =>
    cases hraw : loadRaw unicode (.file new) with
    | error err =>
      have hsame : file.reread unicode (.file new) = file := by
        rw [File.reread, hraw]
        rfl
      rw [hsame, reloadConfig, hraw]
      exact h
    | ok raw =>
      obtain ⟨hvalid, limit, hlimit, rfl⟩ := start_eq_some.mp h
      obtain ⟨rfl, hnew⟩ := loadRaw_ok.mp hraw
      have hupdated : file.reread unicode (.file new) = file.updated new := by
        rw [File.reread, hraw]
        rfl
      rw [hupdated, reloadConfig, hraw]
      dsimp only
      rw [reloadLogging_eq _ _ rfl]
      have hboth := validate_updated hvalid hnew
      have hmem := startMemLimit_given hlimit (validateReloadable_ok.mp hnew).1
      rw [unmarshal_updated] at hboth
      apply start_eq_some.mpr
      rw [unmarshal_updated]
      refine ⟨hboth, _, hmem, ?_⟩
      rw [gcPercentOf_given, Settings.reloadMemLimit, Settings.reloadGCPercent]
      split <;> rfl

/-- **After any number of `SIGHUP`s**, whatever is found in the file on each, the settings are those
with which the daemon would start on one file: the first with the last value that an accepted one
gives of each setting in it. -/
theorem start_reread (h : start unicode flags (.file file) = some s) (reads : List Read) :
    start unicode flags (.file (reads.foldl (File.reread unicode) file)) =
      some (reads.foldl (reloadConfig unicode flags) s) := by
  induction reads generalizing file s with
  | nil => exact h
  | cons read reads ih => exact ih (start_reread_one h read)

/-- **A `SIGHUP` without a change of the file** is accepted, and changes nothing. -/
theorem reloadConfig_same (h : start unicode flags (.file file) = some s) :
    (loadRaw unicode (.file file)).toBool = true ∧ reloadConfig unicode flags s (.file file) = s := by
  have hraw : loadRaw unicode (.file file) = .ok (file.unmarshal .zero) :=
    loadRaw_of_load (load_ok.mpr ⟨rfl, (start_eq_some.mp h).1⟩)
  have hsame : file.reread unicode (.file file) = file := by
    rw [File.reread, hraw, Except.toBool, if_pos rfl, File.updated]
    simp only [ite_self]
  have hreloaded := start_reread_one h (.file file)
  rw [hsame, h] at hreloaded
  rw [hraw]
  exact ⟨rfl, (Option.some.inj hreloaded).symm⟩

end Updated

/-! ## A file that says nothing -/

section Empty

variable (unicode : LowerCase)

/-- A file that says nothing: every field is missing, which is not the same as one that is given as
empty. It is with such a file that the defaults can be seen as they are. -/
def File.empty : File where
  socketPath := none
  socketMode := none
  maxConnections := none
  maxStreamDurationMs := none
  memLimit := none
  gcPercent := none
  dataDir := none
  dataDirMaxAgeMs := none
  openAISocket := none
  langGraphSocket := none
  profiles := none
  messageDelayMs := none
  metricsEnabled := none
  listenAddr := none
  level := none
  format := none

/-- Started without flags. -/
def noFlags : Flags := ⟨[], -1⟩

/-- The defaults. -/
def defaultSettings : Settings := ⟨⟨ascii "info", ascii "text"⟩, ⟨.info, false⟩, none, none⟩

/-- ASCII is read as it is. -/
theorem toLower_default : toLower unicode (ascii "info") = ['i', 'n', 'f', 'o'] ∧
    toLower unicode (ascii "text") = ['t', 'e', 'x', 't'] := by
  have hinfo : Utf8.decode (ascii "info") = ['i', 'n', 'f', 'o'] := by decide
  have htext : Utf8.decode (ascii "text") = ['t', 'e', 'x', 't'] := by decide
  rw [toLower, toLower, hinfo, htext]
  simp [unicode.ascii]

/-- The daemon starts with the defaults. -/
theorem start_empty : start unicode noFlags (.file .empty) = some defaultSettings := by
  obtain ⟨hinfo, htext⟩ := toLower_default unicode
  refine start_eq_some.mpr ⟨validate_ok.mpr ⟨by decide, validateReloadable_ok.mpr ?_, by decide⟩,
    none, rfl, ?_⟩
  · refine ⟨fun h => absurd rfl h, by decide, ?_, ?_⟩
    · exact (congrArg levels.contains hinfo).trans (by decide)
    · exact (congrArg formats.contains htext).trans (by decide)
  · have hlogger : initLogging unicode ⟨ascii "info", ascii "text"⟩ = ⟨.info, false⟩ := by
      rw [initLogging, hinfo, htext]
      rfl
    exact congrArg (fun logger => Settings.mk ⟨ascii "info", ascii "text"⟩ logger none none)
      hlogger.symm

end Empty

theorem reloadConfig_same_empty :
    reloadConfig .simple noFlags defaultSettings (.file .empty) = defaultSettings :=
  (reloadConfig_same (start_empty .simple)).2

/-- A file that cannot be read, one that cannot be parsed, and one that names a level. -/
theorem start_reread_empty :
    let reads := [.unreadable, .malformed, .file { File.empty with level := some (ascii "debug") }]
    start .simple noFlags (.file (reads.foldl (File.reread .simple) .empty)) =
      some (reads.foldl (reloadConfig .simple noFlags) defaultSettings) :=
  start_reread (start_empty .simple) _

end SocketHandoff.Go.Reload
