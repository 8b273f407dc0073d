import SocketHandoff.Apache.Containment

/-!
# Cached prefixes

`socket_handoff_post_config` resolves the allowed prefix once, in the text and in the
`APR_FILEPATH_TRUENAME` sense, and `validate_socket_path` resolves what is not cached itself. Both
add the slash that makes a comparison of texts one of path components. On one state of the file
system the two ways lead to the same decision.
-/

namespace SocketHandoff.Apache

/-! ## What is assumed of `apr_filepath_merge` -/

/-- Its results are absolute paths. -/
def AbsoluteResults (merge : FilepathMerge) : Prop :=
  ∀ truename path resolved, merge truename path = some resolved →
    resolved.bytes.head? = some slash

variable {merge : FilepathMerge} {conf : Config} {allowed path : CStr}

theorem AbsoluteResults.ne_nil (hm : AbsoluteResults merge) {truename : Bool} {resolved : CStr}
    (h : merge truename path = some resolved) : resolved.bytes ≠ [] := by
  intro hnil
  have habs := hm truename path resolved h
  rw [hnil] at habs
  cases habs

/-- What is documented of it says so. -/
theorem Lexical.absoluteResults {cwd : List Name} (hm : Lexical cwd merge) :
    AbsoluteResults merge := by
  intro truename path resolved h
  have hfalse : merge false path = some resolved := by
    cases truename with
    | false => exact h
    | true => rw [← hm.truename, h]
  exact (hm.canonical path resolved hfalse).1

/-! ## The cache -/

/-- A configuration without cached prefixes. -/
def Config.uncached (conf : Config) : Config :=
  { conf with resolvedPrefix := none, resolvedPrefixTruename := none }

/-- The cache keeps what a request would compute. -/
theorem map_cachedPrefix (hm : AbsoluteResults merge) (truename : Bool) (allowed : CStr) :
    (merge truename allowed).map cachedPrefix = (merge truename allowed).map CStr.withSlash := by
  cases hr : merge truename allowed with
  | none => rfl
  | some resolved =>
    rw [Option.map_some, Option.map_some, cachedPrefix, if_neg (hm.ne_nil hr)]

/-- **A prefix that is cached, or could not be, is the one a request would compute.** -/
theorem prefixWithSlash_cached (hm : AbsoluteResults merge) (truename : Bool) (allowed : CStr) :
    prefixWithSlash merge truename ((merge truename allowed).map cachedPrefix) allowed =
      prefixWithSlash merge truename none allowed := by
  rw [map_cachedPrefix hm]
  cases hr : merge truename allowed with
  | none => simp only [Option.map_none]
  | some resolved => simp only [prefixWithSlash, hr, Option.map_some]

/-- The second check makes the same decision. -/
theorem checkTruename_postConfig (hm : AbsoluteResults merge)
    (hallowed : conf.allowedSocketPrefix = some allowed) (path : CStr) :
    checkTruename merge (postConfig merge conf.uncached) allowed path =
      checkTruename merge conf.uncached allowed path := by
  have hcached := prefixWithSlash_cached hm true allowed
  simp only [checkTruename, postConfig, Config.uncached, hallowed, Option.or_none, hcached]

/-- **The decision does not depend on the cache**: what `socket_handoff_post_config` stores is what
a request would compute. -/
theorem validateSocketPath_postConfig (hm : AbsoluteResults merge) (conf : Config)
    (path : CStr) :
    validateSocketPath merge (postConfig merge conf.uncached) path =
      validateSocketPath merge conf.uncached path := by
  cases hallowed : conf.allowedSocketPrefix with
  | none => simp only [validateSocketPath, postConfig, Config.uncached, hallowed]
  | some allowed =>
    have hcached := prefixWithSlash_cached hm false allowed
    have htruename := checkTruename_postConfig hm hallowed path
    simp only [Config.uncached, postConfig, hallowed, Option.or_none] at hcached htruename
    simp only [validateSocketPath, postConfig, Config.uncached, hallowed, Option.or_none, hcached,
      htruename]

/-! ## What is accepted -/

/-- The text of a directory: a path without its closing slash. -/
def CStr.directory (path : CStr) : List UInt8 :=
  if path.bytes.getLast? = some slash then path.bytes.dropLast else path.bytes

/-- **Below a directory**: its text, a slash, and a remainder that may be empty. -/
def CStr.Below (path dir : CStr) : Prop :=
  ∃ remainder, path.bytes = dir.directory ++ slash :: remainder

theorem CStr.withSlash_bytes (path : CStr) :
    path.withSlash.bytes = path.directory ++ [slash] := by
  rw [CStr.withSlash, CStr.directory]
  by_cases hlast : path.bytes.getLast? = some slash
  · obtain ⟨init, hinit⟩ := List.getLast?_eq_some_iff.mp hlast
    rw [if_pos hlast, if_pos hlast, hinit, List.dropLast_concat]
  · rw [if_neg hlast, if_neg hlast, CStr.appendSlash]

/-- The comparison with a prefix that ends in a slash is one of directories. -/
theorem CStr.startsWith_withSlash {path dir : CStr} (h : path.startsWith dir.withSlash = true) :
    path.Below dir := by
  rw [CStr.startsWith, List.isPrefixOf_iff_prefix, CStr.withSlash_bytes] at h
  obtain ⟨remainder, hremainder⟩ := h
  exact ⟨remainder, by rw [← hremainder, List.append_assoc, List.singleton_append]⟩

/-- What is below a directory has its components first. -/
theorem CStr.Below.components {path dir : CStr} (h : path.Below dir) :
    components dir <+: components path := by
  obtain ⟨remainder, hremainder⟩ := h
  have hdir : Apache.components dir = componentsOf dir.directory := by
    rw [Apache.components, CStr.directory]
    by_cases hlast : dir.bytes.getLast? = some slash
    · obtain ⟨init, hinit⟩ := List.getLast?_eq_some_iff.mp hlast
      rw [if_pos hlast, hinit, List.dropLast_concat, componentsOf_append_slash,
        componentsOf_nil, List.append_nil]
    · rw [if_neg hlast]
  rw [hdir, Apache.components, hremainder, componentsOf_append_slash]
  exact List.prefix_append ..

/-- **Component-wise**: the canonical path is below the canonical prefix, and so is the path with
its true name, if it has one. Lists of names are compared, because text that starts with the text of
a prefix may name a neighbour of it. -/
structure AcceptedBelow (merge : FilepathMerge) (allowed path : CStr) : Prop where
  canonical : ∃ pre resolved, merge false allowed = some pre ∧ merge false path = some resolved ∧
    resolved.Below pre
  truename : ∀ resolved, merge true path = some resolved →
    ∃ pre, merge true allowed = some pre ∧ resolved.Below pre

/-- A prefix computed for a request, split into its steps. -/
theorem prefixWithSlash_none {truename : Bool} {pre : CStr}
    (h : prefixWithSlash merge truename none allowed = some pre) :
    ∃ resolved, merge truename allowed = some resolved ∧ pre = resolved.withSlash := by
  obtain ⟨resolved, hresolved, heq⟩ := Option.map_eq_some_iff.mp h
  exact ⟨resolved, hresolved, heq.symm⟩

variable (conf) in
/-- The second check, when it passes. -/
theorem checkTruename_below
    (h : checkTruename merge conf.uncached allowed path = true) {resolved : CStr}
    (hres : merge true path = some resolved) :
    ∃ pre, merge true allowed = some pre ∧ resolved.Below pre := by
  simp only [checkTruename, hres, Config.uncached] at h
  cases hpre : prefixWithSlash merge true none allowed with
  | none => simp [hpre] at h
  | some slashed =>
    obtain ⟨pre, hpre', rfl⟩ := prefixWithSlash_none hpre
    rw [hpre] at h
    exact ⟨pre, hpre', CStr.startsWith_withSlash h⟩

/-- **What is accepted without a cache is below the prefix.** The cache is left out, as it is the
answer of an earlier resolution and may no longer be that of the file system; what is accepted with
it is another question. -/
theorem acceptedBelow_of_validateSocketPath (hallowed : conf.allowedSocketPrefix = some allowed)
    (hne : allowed.bytes ≠ []) (h : validateSocketPath merge conf.uncached path = true) :
    AcceptedBelow merge allowed path := by
  simp only [validateSocketPath, Config.uncached, hallowed, if_neg hne] at h
  cases hpath : merge false path with
  | none => simp [hpath] at h
  | some resolved =>
    cases hpre : prefixWithSlash merge false none allowed with
    | none => simp [hpath, hpre] at h
    | some slashed =>
      obtain ⟨pre, hpre', rfl⟩ := prefixWithSlash_none hpre
      simp only [hpath, hpre, Bool.if_false_right, Bool.and_eq_true, decide_eq_true_eq] at h
      obtain ⟨hstarts, htrue⟩ := h
      exact ⟨⟨pre, resolved, hpre', hpath, CStr.startsWith_withSlash hstarts⟩,
        fun _ => checkTruename_below conf htrue⟩

/-- **Cached and uncached validation agree and are component-wise**, on every state of the file
system that `socket_handoff_post_config` and the request share. Of `apr_filepath_merge` no more is
assumed than that its results are absolute: the slash that the prefix is given at its end makes the
comparison of texts one of components. -/
theorem validateSocketPath_agrees {F : Type} {aprFilepathMerge : F → FilepathMerge}
    (hm : ∀ fs, AbsoluteResults (aprFilepathMerge fs)) (fs : F) (conf : Config) (path : CStr) :
    let cached := postConfig (aprFilepathMerge fs) conf.uncached
    validateSocketPath (aprFilepathMerge fs) cached path =
        validateSocketPath (aprFilepathMerge fs) conf.uncached path ∧
      ∀ allowed, conf.allowedSocketPrefix = some allowed → allowed.bytes ≠ [] →
        validateSocketPath (aprFilepathMerge fs) cached path = true →
          AcceptedBelow (aprFilepathMerge fs) allowed path := by
  have hagree := validateSocketPath_postConfig (hm fs) conf path
  refine ⟨hagree, fun allowed hallowed hne hcached => ?_⟩
  rw [hagree] at hcached
  exact acceptedBelow_of_validateSocketPath hallowed hne hcached

/-- A daemon at `/run/a` is accepted under `/run/` with the cache and without, and is below it. -/
theorem validateSocketPath_agrees_runA :
    validateSocketPath (unixMerge []) (postConfig (unixMerge []) createServerConfig.uncached)
        runA = true ∧
      validateSocketPath (unixMerge []) createServerConfig.uncached runA = true ∧
      AcceptedBelow (unixMerge []) runPrefix runA := by
  have hm : ∀ _ : Unit, AbsoluteResults (unixMerge []) :=
    fun _ => (unixMerge_lexical []).absoluteResults
  obtain ⟨hagree, hbelow⟩ := validateSocketPath_agrees hm () createServerConfig runA
  have hcached : validateSocketPath (unixMerge [])
      (postConfig (unixMerge []) createServerConfig.uncached) runA = true := by decide
  exact ⟨hcached, hagree ▸ hcached, hbelow runPrefix rfl (by decide) hcached⟩

end SocketHandoff.Apache
