import SocketHandoff.Apache.Config
import Mathlib.Data.List.Induction

/-!
# What a virtual host inherits

Httpd creates a configuration for the main server and one for each virtual host, runs the
directives of each on its own, and merges the two. The four settings with a `_set` flag come out
as the last valid value of the virtual host, else of the main server, else the default. The
allowed prefix has no flag: a configuration is created with `"/run/"` in it, so the virtual host's
is never missing and the main server's is never asked for.
-/

namespace SocketHandoff.Apache

/-! ## The last value written -/

section LastWritten

variable {σ δ α : Type} {step : σ → δ → σ} {get : σ → α} {written : δ → Option α}

/-- The last value that a list of entries writes to a field. -/
def lastWritten (written : δ → Option α) (entries : List δ) : Option α :=
  (entries.filterMap written).getLast?

@[simp] theorem lastWritten_nil : lastWritten written [] = none := rfl

theorem lastWritten_append (entries : List δ) (d : δ) :
    lastWritten written (entries ++ [d]) = (written d).or (lastWritten written entries) := by
  rw [lastWritten, lastWritten, List.filterMap_append, List.getLast?_append]
  cases hd : written d with
  | none => simp [hd]
  | some a => simp [hd]

/-- **A field after a run of writes** holds the last value written to it, or what it held. -/
theorem foldl_lastWritten (hstep : ∀ s d, get (step s d) = (written d).getD (get s))
    (entries : List δ) (s : σ) :
    get (entries.foldl step s) = (lastWritten written entries).getD (get s) := by
  induction entries using List.reverseRecOn with
  | nil => rfl
  | append_singleton entries d ih =>
    rw [List.foldl_append, List.foldl_cons, List.foldl_nil, hstep, ih, lastWritten_append]
    cases written d with
    | none => rfl
    | some a => rfl

/-- A flag that every write raises says whether there was a write. -/
theorem foldl_wasWritten {flag : σ → Bool}
    (hstep : ∀ s d, flag (step s d) = ((written d).isSome || flag s)) (entries : List δ) (s : σ) :
    flag (entries.foldl step s) = ((lastWritten written entries).isSome || flag s) := by
  induction entries using List.reverseRecOn with
  | nil => rfl
  | append_singleton entries d ih =>
    rw [List.foldl_append, List.foldl_cons, List.foldl_nil, hstep, ih, lastWritten_append]
    cases written d with
    | none => rfl
    | some a => rfl

end LastWritten

/-! ## Directives of a server -/

/-- What the handler of a directive leaves in the configuration, and its answer. A handler writes
after its checks, so one that answers with a text has not written. -/
def Directive.handle (conf : Config) (d : Directive) : Config × Option String :=
  match d.run conf with
  | .ok conf' => (conf', none)
  | .error text => (conf, some text)

/-- A server after its directives. -/
def configure (directives : List Directive) : Config :=
  directives.foldl (fun conf d => (d.handle conf).1) createServerConfig

/-- A virtual host after `merge_server_config`. -/
def mergedConfig (main vhost : List Directive) : Config :=
  mergeServerConfig (configure main) (configure vhost)

/-- The value a directive sets `enabled` to. -/
def Directive.setsEnabled : Directive → Option Bool
  | .enabled flag => some flag
  | _ => none

/-- The value a directive sets the allowed prefix to. -/
def Directive.setsAllowedPrefix : Directive → Option CStr
  | .allowedPrefix pre => some pre
  | _ => none

/-- The value a directive sets the connect timeout to, if its argument is valid. -/
def Directive.setsConnectTimeout : Directive → Option Int
  | .connectTimeoutMs arg =>
    (parseNumber "SocketHandoffConnectTimeoutMs" 1 maxConnectTimeoutMs arg).toOption
  | _ => none

/-- The value a directive sets the send timeout to, if its argument is valid. -/
def Directive.setsSendTimeout : Directive → Option Int
  | .sendTimeoutMs arg =>
    (parseNumber "SocketHandoffSendTimeoutMs" 1 maxConnectTimeoutMs arg).toOption
  | _ => none

/-- The value a directive sets the number of retries to, if its argument is valid. -/
def Directive.setsMaxRetries : Directive → Option Int
  | .maxRetries arg => (parseNumber "SocketHandoffMaxRetries" 0 maxRetriesLimit arg).toOption
  | _ => none

/-- The five settings of a server. -/
structure Settings where
  enabled : Bool
  allowedSocketPrefix : Option CStr
  connectTimeoutMs : Int
  sendTimeoutMs : Int
  maxRetries : Int

/-- The settings a configuration holds. -/
def Config.settings (conf : Config) : Settings where
  enabled := conf.enabled
  allowedSocketPrefix := conf.allowedSocketPrefix
  connectTimeoutMs := conf.connectTimeoutMs
  sendTimeoutMs := conf.sendTimeoutMs
  maxRetries := conf.maxRetries

/-- The value a setting should have: the virtual host's, else the main server's, else the default.
It is stated over the directives as they are written, for a configuration does not show of all its
fields whether they were set. -/
def inherited {α : Type} (written : Directive → Option α) (default : α)
    (main vhost : List Directive) : α :=
  ((lastWritten written vhost).or (lastWritten written main)).getD default

/-- The settings a virtual host should have. -/
def inheritedSettings (main vhost : List Directive) : Settings where
  enabled := inherited Directive.setsEnabled true main vhost
  allowedSocketPrefix := some (inherited Directive.setsAllowedPrefix runPrefix main vhost)
  connectTimeoutMs := inherited Directive.setsConnectTimeout 100 main vhost
  sendTimeoutMs := inherited Directive.setsSendTimeout 200 main vhost
  maxRetries := inherited Directive.setsMaxRetries 2 main vhost

/-! ## What the handlers leave -/

/-- A directive with a number: the handler stores it, or leaves everything as it was. -/
theorem handle_number {name : String} {lo hi : Nat} {arg : CStr} {store : Int → Config}
    {conf : Config} {d : Directive}
    (hd : d.run conf =
      (do let n ← parseNumber name lo hi arg; return store n : Except String Config)) :
    (d.handle conf).1 = ((parseNumber name lo hi arg).toOption.map store).getD conf := by
  rw [Directive.handle, hd]
  cases parseNumber name lo hi arg with
  | error text => rfl
  | ok n => rfl

/-- **Everything a directive does**: it sets its own setting, if its argument is valid. -/
theorem handle_eq (conf : Config) (d : Directive) :
    (d.handle conf).1 =
      { conf with
        enabled := d.setsEnabled.getD conf.enabled
        enabledSet := d.setsEnabled.isSome || conf.enabledSet
        allowedSocketPrefix := d.setsAllowedPrefix.or conf.allowedSocketPrefix
        connectTimeoutMs := d.setsConnectTimeout.getD conf.connectTimeoutMs
        connectTimeoutMsSet := d.setsConnectTimeout.isSome || conf.connectTimeoutMsSet
        sendTimeoutMs := d.setsSendTimeout.getD conf.sendTimeoutMs
        sendTimeoutMsSet := d.setsSendTimeout.isSome || conf.sendTimeoutMsSet
        maxRetries := d.setsMaxRetries.getD conf.maxRetries
        maxRetriesSet := d.setsMaxRetries.isSome || conf.maxRetriesSet } := by
  cases d with
  | enabled flag => rfl
  | allowedPrefix pre => rfl
  | connectTimeoutMs arg =>
    rw [handle_number rfl, Directive.setsConnectTimeout]
    cases parseNumber "SocketHandoffConnectTimeoutMs" 1 maxConnectTimeoutMs arg with
    | error text => rfl
    | ok n => rfl
  | sendTimeoutMs arg =>
    rw [handle_number rfl, Directive.setsSendTimeout]
    cases parseNumber "SocketHandoffSendTimeoutMs" 1 maxConnectTimeoutMs arg with
    | error text => rfl
    | ok n => rfl
  | maxRetries arg =>
    rw [handle_number rfl, Directive.setsMaxRetries]
    cases parseNumber "SocketHandoffMaxRetries" 0 maxRetriesLimit arg with
    | error text => rfl
    | ok n => rfl

/-- A rejected directive changes nothing. -/
theorem handle_rejected {conf : Config} {d : Directive} {text : String}
    (h : (d.handle conf).2 = some text) : (d.handle conf).1 = conf := by
  unfold Directive.handle at h ⊢
  cases hrun : d.run conf with
  | error _ => rfl
  | ok conf' => rw [hrun] at h; cases h

/-! ## What a server's directives leave -/

/-- A setting with a flag, after the directives of a server. -/
theorem configure_setting {α : Type} (get : Config → α) (flag : Config → Bool)
    (written : Directive → Option α)
    (hget : ∀ conf (d : Directive), get (d.handle conf).1 = (written d).getD (get conf))
    (hflag : ∀ conf (d : Directive),
      flag (d.handle conf).1 = ((written d).isSome || flag conf))
    (hunset : flag createServerConfig = false) (ds : List Directive) :
    get (configure ds) = (lastWritten written ds).getD (get createServerConfig) ∧
      flag (configure ds) = (lastWritten written ds).isSome := by
  refine ⟨foldl_lastWritten hget ds _, ?_⟩
  rw [configure, foldl_wasWritten hflag, hunset, Bool.or_false]

/-- The prefix after the directives of a server: never missing. -/
theorem configure_allowedSocketPrefix (ds : List Directive) :
    (configure ds).allowedSocketPrefix =
      some ((lastWritten Directive.setsAllowedPrefix ds).getD runPrefix) := by
  induction ds using List.reverseRecOn with
  | nil => rfl
  | append_singleton ds d ih =>
    rw [configure] at ih ⊢
    rw [List.foldl_append, List.foldl_cons, List.foldl_nil, handle_eq, ih, lastWritten_append]
    cases d.setsAllowedPrefix with
    | none => rfl
    | some pre => rfl

/-- **A setting with a flag is inherited.** The hypotheses say what a directive does to the setting
and to its flag, so that the three settings with flags are one theorem, and the prefix, which has
none, does not meet them. -/
theorem merged_setting {α : Type} (get : Config → α) (flag : Config → Bool)
    (written : Directive → Option α)
    (hget : ∀ conf (d : Directive), get (d.handle conf).1 = (written d).getD (get conf))
    (hflag : ∀ conf (d : Directive),
      flag (d.handle conf).1 = ((written d).isSome || flag conf))
    (hunset : flag createServerConfig = false) (main vhost : List Directive) :
    (if flag (configure vhost) then get (configure vhost) else get (configure main)) =
      inherited written (get createServerConfig) main vhost := by
  obtain ⟨hvalue, hset⟩ := configure_setting get flag written hget hflag hunset vhost
  obtain ⟨hmain, -⟩ := configure_setting get flag written hget hflag hunset main
  rw [hset, hvalue, hmain, inherited]
  cases lastWritten written vhost with
  | none => rfl
  | some a => rfl

/-- The prefix of a merged virtual host: its own, else the default, whatever the main server's
is. -/
theorem merged_allowedSocketPrefix (main vhost : List Directive) :
    (mergedConfig main vhost).allowedSocketPrefix =
      some ((lastWritten Directive.setsAllowedPrefix vhost).getD runPrefix) := by
  rw [mergedConfig, mergeServerConfig, configure_allowedSocketPrefix vhost]
  rfl

/-- **What a virtual host ends up with**: the settings it should have, but for the prefix. -/
theorem mergedConfig_settings (main vhost : List Directive) :
    (mergedConfig main vhost).settings =
      { inheritedSettings main vhost with
        allowedSocketPrefix :=
          some ((lastWritten Directive.setsAllowedPrefix vhost).getD runPrefix) } := by
  have henabled := merged_setting Config.enabled Config.enabledSet Directive.setsEnabled
    (fun conf d => by rw [handle_eq]) (fun conf d => by rw [handle_eq]) rfl main vhost
  have hconnect := merged_setting Config.connectTimeoutMs Config.connectTimeoutMsSet
    Directive.setsConnectTimeout
    (fun conf d => by rw [handle_eq]) (fun conf d => by rw [handle_eq]) rfl main vhost
  have hsend := merged_setting Config.sendTimeoutMs Config.sendTimeoutMsSet
    Directive.setsSendTimeout
    (fun conf d => by rw [handle_eq]) (fun conf d => by rw [handle_eq]) rfl main vhost
  have hretries := merged_setting Config.maxRetries Config.maxRetriesSet Directive.setsMaxRetries
    (fun conf d => by rw [handle_eq]) (fun conf d => by rw [handle_eq]) rfl main vhost
  rw [Config.settings, merged_allowedSocketPrefix]
  simp only [mergedConfig, mergeServerConfig, inheritedSettings, henabled, hconnect, hsend,
    hretries]
  rfl

/-! ## Inheritance -/

/-- The directives of a server set nothing: there are none, or all are rejected. -/
def SetsNothing (ds : List Directive) : Prop :=
  ∀ d ∈ ds, ∀ conf, (d.handle conf).1 = conf

/-- **Inheritance**: a virtual host has its own settings where it sets them, else the main
server's, else the defaults; one that sets nothing has all of the main server's; a rejected
directive changes nothing. -/
def VhostInherits (main vhost : List Directive) : Prop :=
  (mergedConfig main vhost).settings = inheritedSettings main vhost ∧
    (SetsNothing vhost → (mergedConfig main vhost).settings = (configure main).settings) ∧
    ∀ conf (d : Directive) text, (d.handle conf).2 = some text → (d.handle conf).1 = conf

/-- **The condition**: the virtual host sets a prefix of its own, or the main server's is the
default. -/
def PrefixKept (main vhost : List Directive) : Prop :=
  lastWritten Directive.setsAllowedPrefix vhost ≠ none ∨
    (lastWritten Directive.setsAllowedPrefix main).getD runPrefix = runPrefix

theorem SetsNothing.configure {ds : List Directive} (h : SetsNothing ds) :
    configure ds = createServerConfig := by
  induction ds using List.reverseRecOn with
  | nil => rfl
  | append_singleton ds d ih =>
    have hrest := ih fun e he => h e (List.mem_append_left _ he)
    rw [Apache.configure] at hrest ⊢
    rw [List.foldl_append, List.foldl_cons, List.foldl_nil, hrest]
    exact h d (by simp) _

theorem SetsNothing.allowedPrefix {ds : List Directive} (h : SetsNothing ds) :
    lastWritten Directive.setsAllowedPrefix ds = none := by
  rw [lastWritten, List.getLast?_eq_none_iff, List.filterMap_eq_nil_iff]
  intro d hd
  -- a prefix directive would fill in a prefix that is missing
  have hconf := h d hd { createServerConfig with allowedSocketPrefix := none }
  rw [handle_eq] at hconf
  simpa using congrArg Config.allowedSocketPrefix hconf

/-- The prefix comes out right exactly under the condition. -/
theorem inherited_prefix_iff (main vhost : List Directive) :
    (lastWritten Directive.setsAllowedPrefix vhost).getD runPrefix =
        inherited Directive.setsAllowedPrefix runPrefix main vhost ↔ PrefixKept main vhost := by
  rw [inherited, PrefixKept]
  cases lastWritten Directive.setsAllowedPrefix vhost with
  | some pre => simp
  | none => simp [eq_comm]

/-- **Every setting is inherited exactly when** the virtual host sets a prefix or the main server
keeps the default one. The prefix is the one setting without a flag: a host that has not set it has
the default, which the merge takes for its own. -/
theorem mergeServerConfig_inherits_iff (main vhost : List Directive) :
    VhostInherits main vhost ↔ PrefixKept main vhost := by
  constructor
  · rintro ⟨hsettings, -, -⟩
    rw [mergedConfig_settings] at hsettings
    have hprefix := congrArg Settings.allowedSocketPrefix hsettings
    exact (inherited_prefix_iff main vhost).mp (Option.some.inj hprefix)
  · intro hkept
    refine ⟨?_, ?_, fun conf d text => handle_rejected⟩
    · rw [mergedConfig_settings, (inherited_prefix_iff main vhost).mpr hkept]
      rfl
    · intro hnothing
      have hmain := hkept.resolve_left (not_not_intro hnothing.allowedPrefix)
      have hbase := configure_allowedSocketPrefix main
      rw [hmain] at hbase
      rw [mergedConfig, hnothing.configure, Config.settings, Config.settings, hbase]
      rfl

/-- The text `"/run/a/"`. -/
def runAPrefix : CStr := ⟨[47, 114, 117, 110, 47, 97, 47], by decide⟩

/-- With `SocketHandoffAllowedPrefix /run/a/` in the main server, a virtual host that sets nothing
accepts all of `/run/`. -/
theorem mergeServerConfig_loses_prefix :
    ¬ VhostInherits [.allowedPrefix runAPrefix] [] := by
  rintro ⟨hsettings, -, -⟩
  have hprefix := congrArg Settings.allowedSocketPrefix hsettings
  exact absurd (Option.some.inj hprefix) (by decide)

end SocketHandoff.Apache
