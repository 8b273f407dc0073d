import SocketHandoff.Apache.Worker
import SocketHandoff.Lib.CText
import Mathlib.Tactic.SplitIfs

/-!
# Configuration

`create_server_config`, `merge_server_config` and the directive handlers. A server is configured
by applying directives to the defaults and merging a virtual host over its main server; every
configuration that arises so is `Admitted`, which is what the timing results assume.
-/

namespace SocketHandoff.Apache

/-- The string literal `"/run/"`. -/
def runPrefix : CStr := ⟨[47, 114, 117, 110, 47], by decide⟩

/-- `create_server_config`: the defaults of a server, with none of the settings marked as set. A
flag of its own says whether a number was given, since 0 is a value that can be configured; the
prefix needs none, as its absence is NULL. Here it is not absent: every new record has `/run/` in
it. -/
def createServerConfig : Config where
  enabled := true
  enabledSet := false
  allowedSocketPrefix := some runPrefix
  resolvedPrefix := none
  resolvedPrefixTruename := none
  connectTimeoutMs := 100
  connectTimeoutMsSet := false
  sendTimeoutMs := 200
  sendTimeoutMsSet := false
  maxRetries := 2
  maxRetriesSet := false

/-- `merge_server_config`: a number that the virtual host does not set is the server's. The prefix
of the virtual host is taken when it is not NULL, which the default of a new record never is. The
cached prefixes are not inherited, since `socket_handoff_post_config` resolves them once more for
every record. -/
def mergeServerConfig (base add : Config) : Config where
  enabled := if add.enabledSet then add.enabled else base.enabled
  enabledSet := add.enabledSet || base.enabledSet
  allowedSocketPrefix := add.allowedSocketPrefix.or base.allowedSocketPrefix
  resolvedPrefix := none
  resolvedPrefixTruename := none
  connectTimeoutMs := if add.connectTimeoutMsSet then add.connectTimeoutMs else base.connectTimeoutMs
  connectTimeoutMsSet := add.connectTimeoutMsSet || base.connectTimeoutMsSet
  sendTimeoutMs := if add.sendTimeoutMsSet then add.sendTimeoutMs else base.sendTimeoutMs
  sendTimeoutMsSet := add.sendTimeoutMsSet || base.sendTimeoutMsSet
  maxRetries := if add.maxRetriesSet then add.maxRetries else base.maxRetries
  maxRetriesSet := add.maxRetriesSet || base.maxRetriesSet

/-! ## Directives -/

/-- `MAX_CONNECT_TIMEOUT_MS`. -/
def maxConnectTimeoutMs : Nat := 60000

/-- `MAX_RETRIES_LIMIT`. -/
def maxRetriesLimit : Nat := 10

/-- The check that the three numeric directives share. -/
def parseNumber (name : String) (lo hi : Nat) (arg : CStr) : Except String Int :=
  match strtol arg.bytes with
  | none => .error (name ++ " must be a valid integer")
  | some parsed =>
    if parsed.rest ≠ [] then .error (name ++ " must be a valid integer")
    else if parsed.erange ∨ parsed.value < lo ∨ parsed.value > hi then
      .error (name ++ " must be between " ++ toString lo ++ " and " ++ toString hi)
    else .ok parsed.value

/-- `set_enabled`. -/
def setEnabled (conf : Config) (flag : Bool) : Config :=
  { conf with enabled := flag, enabledSet := true }

/-- `set_allowed_prefix`. -/
def setAllowedPrefix (conf : Config) (pre : CStr) : Config :=
  { conf with allowedSocketPrefix := some pre }

/-- `set_connect_timeout`. -/
def setConnectTimeout (conf : Config) (arg : CStr) : Except String Config := do
  let timeout ← parseNumber "SocketHandoffConnectTimeoutMs" 1 maxConnectTimeoutMs arg
  return { conf with connectTimeoutMs := timeout, connectTimeoutMsSet := true }

/-- `set_send_timeout`. -/
def setSendTimeout (conf : Config) (arg : CStr) : Except String Config := do
  let timeout ← parseNumber "SocketHandoffSendTimeoutMs" 1 maxConnectTimeoutMs arg
  return { conf with sendTimeoutMs := timeout, sendTimeoutMsSet := true }

/-- `set_max_retries`. -/
def setMaxRetries (conf : Config) (arg : CStr) : Except String Config := do
  let retries ← parseNumber "SocketHandoffMaxRetries" 0 maxRetriesLimit arg
  return { conf with maxRetries := retries, maxRetriesSet := true }

/-- `socket_handoff_cmds`: a directive with its argument. -/
inductive Directive
  | enabled (flag : Bool)
  | allowedPrefix (pre : CStr)
  | connectTimeoutMs (arg : CStr)
  | sendTimeoutMs (arg : CStr)
  | maxRetries (arg : CStr)

/-- Run the handler of a directive. -/
def Directive.run (conf : Config) : Directive → Except String Config
  | .enabled flag => .ok (setEnabled conf flag)
  | .allowedPrefix pre => .ok (setAllowedPrefix conf pre)
  | .connectTimeoutMs arg => setConnectTimeout conf arg
  | .sendTimeoutMs arg => setSendTimeout conf arg
  | .maxRetries arg => setMaxRetries conf arg

/-! ## Every configuration is admitted -/

theorem parseNumber_bounds {name : String} {lo hi : Nat} {arg : CStr} {n : Int}
    (h : parseNumber name lo hi arg = .ok n) : lo ≤ n ∧ n ≤ hi := by
  unfold parseNumber at h
  cases hparsed : strtol arg.bytes with
  | none => simp [hparsed] at h
  | some parsed =>
    simp only [hparsed] at h
    split_ifs at h with hrest hrange
    obtain rfl := Except.ok.inj h
    omega

/-- A numeric directive that is accepted stores a number within its bounds. -/
theorem numeric_directive_ok {name : String} {lo hi : Nat} {arg : CStr} {store : Int → Config}
    {conf' : Config}
    (h : (do let n ← parseNumber name lo hi arg; return store n : Except String Config) =
      .ok conf') :
    ∃ n : Int, lo ≤ n ∧ n ≤ hi ∧ conf' = store n := by
  cases hn : parseNumber name lo hi arg with
  | error e => rw [hn] at h; cases h
  | ok n =>
    rw [hn] at h
    obtain ⟨hlo, hhi⟩ := parseNumber_bounds hn
    exact ⟨n, hlo, hhi, (Except.ok.inj h).symm⟩

theorem createServerConfig_admitted : createServerConfig.Admitted := by
  constructor <;> decide

theorem mergeServerConfig_admitted {base add : Config} (hb : base.Admitted)
    (ha : add.Admitted) : (mergeServerConfig base add).Admitted := by
  obtain ⟨b1, b2, b3, b4, b5, b6⟩ := hb
  obtain ⟨a1, a2, a3, a4, a5, a6⟩ := ha
  constructor <;> (simp only [mergeServerConfig]; split_ifs <;> assumption)

theorem Directive.run_admitted {conf conf' : Config} (h : conf.Admitted) {d : Directive}
    (hd : d.run conf = .ok conf') : conf'.Admitted := by
  obtain ⟨h1, h2, h3, h4, h5, h6⟩ := h
  cases d with
  | enabled flag =>
    obtain rfl := Except.ok.inj hd
    exact ⟨h1, h2, h3, h4, h5, h6⟩
  | allowedPrefix pre =>
    obtain rfl := Except.ok.inj hd
    exact ⟨h1, h2, h3, h4, h5, h6⟩
  | connectTimeoutMs arg =>
    obtain ⟨n, hlo, hhi, rfl⟩ := numeric_directive_ok hd
    exact ⟨hlo, hhi, h3, h4, h5, h6⟩
  | sendTimeoutMs arg =>
    obtain ⟨n, hlo, hhi, rfl⟩ := numeric_directive_ok hd
    exact ⟨h1, h2, hlo, hhi, h5, h6⟩
  | maxRetries arg =>
    obtain ⟨n, hlo, hhi, rfl⟩ := numeric_directive_ok hd
    exact ⟨h1, h2, h3, h4, hlo, hhi⟩

/-- A configuration httpd can arrive at: the defaults, with directives applied and hosts merged. Any
number of merges is allowed, which is more than httpd makes. -/
inductive Configured : Config → Prop
  | default : Configured createServerConfig
  | directive {conf conf' : Config} (d : Directive) :
      Configured conf → d.run conf = .ok conf' → Configured conf'
  | merge {base add : Config} :
      Configured base → Configured add → Configured (mergeServerConfig base add)

/-- **Every configuration httpd can arrive at is admitted**, by induction on how it was made: from
the defaults, by directives and by merging. The bounds of the numbers, on which the arithmetic of
the deadline rests, are thus never an assumption about the administrator. -/
theorem Configured.admitted {conf : Config} (h : Configured conf) : conf.Admitted := by
  induction h with
  | default => exact createServerConfig_admitted
  | directive d _ hd ih => exact d.run_admitted ih hd
  | merge _ _ ihb iha => exact mergeServerConfig_admitted ihb iha

end SocketHandoff.Apache
