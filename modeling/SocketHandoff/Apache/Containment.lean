import SocketHandoff.Apache.Config
import SocketHandoff.Apache.PathText

/-!
# Containment of the handoff target

`validate_socket_path` compares texts. Its second comparison, on the result of
`APR_FILEPATH_TRUENAME`, is meant to see through symbolic links, but that flag does not follow
links, so it compares the same texts again. Whether the socket that is connected to lies below the
allowed prefix therefore depends on the links below the prefix.
-/

namespace SocketHandoff.Apache

open FileSystem

/-! ## What APR documents -/

/-- **What is documented of `apr_filepath_merge` on Unix**, on one file system: its result is
the lexically canonical absolute path, a path that is canonical already stays as it is, and
`APR_FILEPATH_TRUENAME` does not follow links; where letters in names are told apart, the true
case of a name is the case it is written in. -/
structure Lexical (cwd : List Name) (merge : FilepathMerge) : Prop where
  canonical : ∀ path resolved, merge false path = some resolved →
    resolved.bytes.head? = some slash ∧
      components resolved = (lexical (start cwd path) (components path)).map .down
  keeps : ∀ ns (h : ∀ n ∈ ns, ValidName n),
    merge false (canonicalPath ns h) = some (canonicalPath ns h)
  truename : ∀ path, merge true path = merge false path

/-- The directory a prefix denotes by its text. -/
def lexicalPrefix (cwd : List Name) (allowed : CStr) : List Name :=
  lexical (start cwd allowed) (components allowed)

/-- The prefix cached in a configuration, if any, is the canonical form of the allowed one. -/
def CacheRight (cwd : List Name) (conf : Config) (allowed : CStr) : Prop :=
  ∀ cached, conf.resolvedPrefix = some cached →
    ∃ resolved : CStr, cached = resolved.withSlash ∧
      components resolved = (lexicalPrefix cwd allowed).map .down

/-! ## Where a path leads -/

/-- The location a path denotes after following links. -/
def Denotes (fs : FileSystem Name) (path : CStr) (loc : List Name) : Prop :=
  fs.Walks (start fs.cwd path) (components path) loc

/-- **Containment**: if the path is accepted and exists, its location lies inside the location
of the allowed prefix. -/
def Contained (merge : FilepathMerge) (conf : Config) (allowed : CStr) (fs : FileSystem Name)
    (path : CStr) : Prop :=
  validateSocketPath merge conf path = true →
    ∀ loc, Denotes fs path loc → ∃ ploc, Denotes fs allowed ploc ∧ ploc <+: loc

/-- The first comparison of `validate_socket_path`: the text `apr_filepath_merge` makes of the
path begins with the text of the prefix. -/
def comparesBelow (merge : FilepathMerge) (conf : Config) (allowed path : CStr) : Bool :=
  match merge false path, prefixWithSlash merge false conf.resolvedPrefix allowed with
  | some resolved, some pre => resolved.startsWith pre
  | _, _ => false

/-- A path met on the way to `loc` no link but the components of the prefix, which `..` does not
leave. The trail starts at the working directory, for a relative path is followed from there. -/
def PlainBelow (fs : FileSystem Name) (allowed path : CStr) (loc : List Name) : Prop :=
  fs.Plain (lexicalPrefix fs.cwd allowed) ((start fs.cwd path).map fun n => (n, false))
    (start fs.cwd path) (components path) loc

/-- **The condition**: if the first comparison accepts a path that exists, then neither the path
nor the prefix, followed as it is written, meets another link than the components of the
prefix. The links up to the prefix are allowed because both ways go through the same ones. -/
def LinksOnlyInPrefix (merge : FilepathMerge) (conf : Config) (allowed : CStr)
    (fs : FileSystem Name) (path : CStr) : Prop :=
  comparesBelow merge conf allowed path = true → ∀ loc, Denotes fs path loc →
    PlainBelow fs allowed path loc ∧ ∃ ploc, PlainBelow fs allowed allowed ploc

variable {fs : FileSystem Name} {merge : FilepathMerge} {conf : Config} {allowed path : CStr}

/-- The trail of the start of a path. -/
theorem reached_start (pre : List Name) (path : CStr) :
    fs.Reached pre ((start fs.cwd path).map fun n => (n, false)) (start fs.cwd path) := by
  by_cases habs : path.bytes.head? = some slash
  · rw [start, if_pos habs]
    exact .root
  · rw [start, if_neg habs]
    exact reached_cwd pre fs.cwd (List.prefix_refl _)

theorem names_start (s : List Name) : names (s.map fun n => (n, false)) = s := by
  simp [names, Function.comp_def]

/-- An accepted path has passed the first comparison. -/
theorem comparesBelow_of_accepted (hallowed : conf.allowedSocketPrefix = some allowed)
    (hne : allowed.bytes ≠ []) (h : validateSocketPath merge conf path = true) :
    comparesBelow merge conf allowed path = true := by
  rw [validateSocketPath, hallowed] at h
  simp only [if_neg hne] at h
  rw [comparesBelow]
  cases hres : merge false path with
  | none => simp [hres] at h
  | some resolved =>
    cases hpre : prefixWithSlash merge false conf.resolvedPrefix allowed with
    | none => simp [hres, hpre] at h
    | some pre =>
      by_contra hno
      simp [hres, hpre, hno] at h

/-- The prefix of a comparison is the canonical one. -/
theorem prefixWithSlash_components (hm : Lexical fs.cwd merge)
    (hcache : CacheRight fs.cwd conf allowed) {pre : CStr}
    (h : prefixWithSlash merge false conf.resolvedPrefix allowed = some pre) :
    ∃ resolved : CStr, pre = resolved.withSlash ∧
      components resolved = (lexicalPrefix fs.cwd allowed).map .down := by
  cases hc : conf.resolvedPrefix with
  | some cached =>
    rw [hc] at h
    obtain rfl := Option.some.inj h
    exact hcache cached hc
  | none =>
    rw [hc, prefixWithSlash] at h
    obtain ⟨r, hr, rfl⟩ := Option.map_eq_some_iff.mp h
    exact ⟨r, rfl, (hm.canonical allowed r hr).2⟩

/-- What the first comparison says: the canonical form of the path is below the canonical
prefix. -/
theorem lexicalPrefix_prefix_of_comparesBelow (hm : Lexical fs.cwd merge)
    (hcache : CacheRight fs.cwd conf allowed) (h : comparesBelow merge conf allowed path = true) :
    lexicalPrefix fs.cwd allowed <+: lexical (start fs.cwd path) (components path) := by
  rw [comparesBelow] at h
  cases hres : merge false path with
  | none => simp [hres] at h
  | some resolved =>
    cases hpre : prefixWithSlash merge false conf.resolvedPrefix allowed with
    | none => simp [hres, hpre] at h
    | some pre =>
      simp only [hres, hpre] at h
      obtain ⟨r, rfl, hcomp⟩ := prefixWithSlash_components hm hcache hpre
      have hstart := components_prefix_of_startsWith h
      rw [hcomp, (hm.canonical path resolved hres).2] at hstart
      exact (List.prefix_map_iff_of_injective fun _ _ h => Comp.down.inj h).mp hstart

/-- **Containment under the condition.** The path stays below the place its text denotes, and the
prefix as it is written leads to that place. -/
theorem contained_of_linksOnlyInPrefix (hm : Lexical fs.cwd merge)
    (hcache : CacheRight fs.cwd conf allowed) (hallowed : conf.allowedSocketPrefix = some allowed)
    (hne : allowed.bytes ≠ []) (hlinks : LinksOnlyInPrefix merge conf allowed fs path) :
    Contained merge conf allowed fs path := by
  intro haccept loc hloc
  have hbelow := comparesBelow_of_accepted hallowed hne haccept
  obtain ⟨hplain, place, hprefix⟩ := hlinks hbelow loc hloc
  obtain ⟨ploc, hw, hp⟩ := Plain.stays hplain (reached_start _ path) (by
    rw [names_start]
    exact lexicalPrefix_prefix_of_comparesBelow hm hcache hbelow)
  have hplace := Plain.walks_lexical hprefix (reached_start _ allowed)
  rw [names_start] at hplace
  obtain rfl := hplace.det hw
  exact ⟨place, Plain.walks hprefix, hp⟩

/-- **What the condition leaves out meets a link**: a path and a prefix that can be followed when
all links are taken out of the file system meet it. -/
theorem linksOnlyInPrefix_of_withoutLinks {ploc : List Name}
    (hpath : ∀ loc, Denotes fs path loc → Denotes fs.withoutLinks path loc)
    (hallowed : Denotes fs.withoutLinks allowed ploc) :
    LinksOnlyInPrefix merge conf allowed fs path := by
  have hflags : ∀ s : List Name, ∀ step ∈ s.map fun n => (n, false), step.2 = false := by
    intro s step hstep
    obtain ⟨n, -, rfl⟩ := List.mem_map.mp hstep
    rfl
  intro _ loc hloc
  exact ⟨Walks.plain (hpath loc hloc) (hflags _), ploc, Walks.plain hallowed (hflags _)⟩

/-! ## Every directory can be escaped from -/

/-- The configuration of a server that allows the directory of these names, as
`socket_handoff_post_config` leaves it. -/
def serverConfig (merge : FilepathMerge) (allowed : CStr) : Config :=
  postConfig merge { createServerConfig with allowedSocketPrefix := some allowed }

/-- `socket_handoff_post_config` caches canonical prefixes. -/
theorem serverConfig_cacheRight {cwd : List Name} (hm : Lexical cwd merge) (allowed : CStr) :
    CacheRight cwd (serverConfig merge allowed) allowed := by
  intro cached hc
  cases hr : merge false allowed with
  | none => simp [serverConfig, postConfig, createServerConfig, hr] at hc
  | some r =>
    obtain ⟨habs, hcomp⟩ := hm.canonical allowed r hr
    have hne : r.bytes ≠ [] := by
      intro h0
      rw [h0] at habs
      cases habs
    refine ⟨r, ?_, hcomp⟩
    simpa [serverConfig, postConfig, createServerConfig, hr, cachedPrefix, hne] using hc.symm

/-- For canonical paths the check accepts exactly what is below the prefix: its second
comparison repeats the first. -/
theorem validateSocketPath_canonical {cwd cwd₀ : List Name} {merge₀ : FilepathMerge}
    (hm : Lexical cwd merge) (hm₀ : Lexical cwd₀ merge₀) {ns rest : List Name}
    (h : ∀ n ∈ ns, ValidName n) (h' : ∀ n ∈ ns ++ rest, ValidName n) (hns : ns ≠ []) :
    validateSocketPath merge (serverConfig merge₀ (canonicalPath ns h))
      (canonicalPath (ns ++ rest) h') = true ↔ rest ≠ [] := by
  have hne : (canonicalPath ns h).bytes ≠ [] := by
    intro h0
    have := canonicalText_head ns
    rw [show canonicalText ns = [] from h0] at this
    cases this
  have hcached : cachedPrefix (canonicalPath ns h) = (canonicalPath ns h).withSlash := if_neg hne
  rw [← startsWith_canonicalPath h h' hns]
  simp only [validateSocketPath, serverConfig, postConfig, hne, if_false, hm.keeps, hm₀.keeps,
    hm₀.truename, hm.truename, prefixWithSlash, checkTruename, Option.map_some, Option.some_or,
    hcached]
  cases (canonicalPath (ns ++ rest) h').startsWith (canonicalPath ns h).withSlash <;> simp

/-- **In which file systems a canonical path is contained**: in all of them only if the prefix is
the root or the path adds nothing to it. So no comparison of texts can give containment, and any
condition has to speak of the file system. -/
theorem contained_iff {merge : FileSystem Name → FilepathMerge}
    (hm : ∀ fs, Lexical fs.cwd (merge fs)) (fs₀ : FileSystem Name) {ns rest : List Name}
    (h : ∀ n ∈ ns, ValidName n) (h' : ∀ n ∈ ns ++ rest, ValidName n) :
    (∀ fs, Contained (merge fs) (serverConfig (merge fs₀) (canonicalPath ns h))
      (canonicalPath ns h) fs (canonicalPath (ns ++ rest) h')) ↔ ns = [] ∨ rest = [] := by
  constructor
  · intro hall
    by_contra hno
    rw [not_or] at hno
    obtain ⟨hns, hrest⟩ := hno
    obtain ⟨p, ps, rfl⟩ := List.exists_cons_of_ne_nil hns
    obtain ⟨n, rest, rfl⟩ := List.exists_cons_of_ne_nil hrest
    have hz : (p :: ps).head? ≠ some (p ++ [120]) := by
      intro heq
      have := congrArg List.length (Option.some.inj heq)
      simp at this
    have haccept := (validateSocketPath_canonical (hm (diverted (p :: ps) n (p ++ [120]) rest))
      (hm fs₀) h h' hns).mpr hrest
    obtain ⟨ploc, hw, hp⟩ := hall (diverted (p :: ps) n (p ++ [120]) rest) haccept
      ((p ++ [120]) :: rest) (by
        rw [Denotes, start_canonicalPath, components_canonicalPath]
        exact diverted_walks hns hz)
    rw [Denotes, start_canonicalPath, components_canonicalPath] at hw
    obtain rfl := hw.det diverted_walks_pre
    exact hz (congrArg some (List.cons_prefix_cons.mp hp).1)
  · rintro (rfl | rfl) fs haccept loc hloc
    · refine ⟨[], ?_, List.nil_prefix⟩
      rw [Denotes, start_canonicalPath, components_canonicalPath]
      exact .done []
    · by_cases hns : ns = []
      · subst hns
        refine ⟨[], ?_, List.nil_prefix⟩
        rw [Denotes, start_canonicalPath, components_canonicalPath]
        exact .done []
      · exact absurd rfl ((validateSocketPath_canonical (hm fs) (hm fs₀) h h' hns).mp haccept)

/-- **Containment, exactly.** A path that is accepted and exists lies inside the prefix if
neither it nor the prefix meets a link but the components of the prefix; every file system outside
of that has a link on one of the two ways, or the prefix does not exist. Beyond that the check
gives nothing: below any directory there is a file system in which an accepted canonical path
leads out. -/
theorem validateSocketPath_containment {merge : FileSystem Name → FilepathMerge}
    (hm : ∀ fs, Lexical fs.cwd (merge fs)) :
    (∀ fs conf allowed path, conf.allowedSocketPrefix = some allowed → allowed.bytes ≠ [] →
      CacheRight fs.cwd conf allowed → LinksOnlyInPrefix (merge fs) conf allowed fs path →
      Contained (merge fs) conf allowed fs path) ∧
    (∀ fs conf allowed path, ¬ LinksOnlyInPrefix (merge fs) conf allowed fs path →
      (∃ loc, Denotes fs path loc ∧ ¬ Denotes fs.withoutLinks path loc) ∨
        ∀ ploc, ¬ Denotes fs.withoutLinks allowed ploc) ∧
    (∀ fs₀ ns rest (h : ∀ n ∈ ns, ValidName n) (h' : ∀ n ∈ ns ++ rest, ValidName n),
      (∀ fs, Contained (merge fs) (serverConfig (merge fs₀) (canonicalPath ns h))
        (canonicalPath ns h) fs (canonicalPath (ns ++ rest) h')) ↔ ns = [] ∨ rest = []) := by
  refine ⟨fun fs _ _ _ hallowed hne hcache hlinks =>
    contained_of_linksOnlyInPrefix (hm fs) hcache hallowed hne hlinks, ?_,
    fun fs₀ _ _ h h' => contained_iff hm fs₀ h h'⟩
  intro fs conf allowed path hno
  by_contra hlinkless
  push Not at hlinkless
  obtain ⟨hpath, ploc, hallowed⟩ := hlinkless
  exact hno (linksOnlyInPrefix_of_withoutLinks hpath hallowed)

/-! ## A merge function as documented -/

/-- Whether the canonical form of a text ends in a slash: the text does, or its last word was
taken out. -/
def keepsSlash (text : List UInt8) : Bool :=
  match (splitSlash text).getLast? with
  | some word => (component word).isNone ∨ word = dotDot
  | none => false

/-- The canonical text of a path. -/
def unixText (cwd : List Name) (path : CStr) : List UInt8 :=
  let ns := lexical (start cwd path) (components path)
  if ns = [] then [slash]
  else rendered ns ++ if keepsSlash path.bytes then [slash] else []

/-- `apr_filepath_merge` on Unix. -/
def unixMerge (cwd : List Name) : FilepathMerge := fun _ path =>
  if h : (∀ n ∈ lexical (start cwd path) (components path), ValidName n) ∧
      0 ∉ unixText cwd path then
    some ⟨unixText cwd path, h.2⟩
  else none

theorem keepsSlash_rendered {ns : List Name} (h : ∀ n ∈ ns, ValidName n) (hns : ns ≠ []) :
    keepsSlash (rendered ns) = false := by
  obtain ⟨s, n, rfl⟩ : ∃ s n, ns = s ++ [n] := ⟨_, _, (List.dropLast_append_getLast hns).symm⟩
  have hn := h n (by simp)
  have hsplit : rendered (s ++ [n]) = rendered s ++ slash :: n := by simp [rendered]
  have hlast : (splitSlash (rendered (s ++ [n]))).getLast? = some n := by
    rw [hsplit, splitSlash_append_slash, splitSlash_of_not_mem hn.2.2.2.1]
    simp
  simp [keepsSlash, hlast, component_of_isWord hn.isWord, hn.2.2.1]

/-- The canonical text of a canonical path is its text. -/
theorem unixText_canonicalPath (cwd : List Name) {ns : List Name} (h : ∀ n ∈ ns, ValidName n) :
    unixText cwd (canonicalPath ns h) = canonicalText ns := by
  rw [unixText, start_canonicalPath, components_canonicalPath, lexical_map_down, List.nil_append]
  by_cases hns : ns = []
  · simp [hns, canonicalText]
  · have hslash : keepsSlash (canonicalPath ns h).bytes = false := by
      simpa [canonicalPath, canonicalText, hns] using keepsSlash_rendered h hns
    simp [hns, hslash, canonicalText]

theorem unixText_head (cwd : List Name) (path : CStr) :
    (unixText cwd path).head? = some slash := by
  rw [unixText]
  cases lexical (start cwd path) (components path) with
  | nil => rfl
  | cons n rest => simp [rendered]

theorem componentsOf_unixText {cwd : List Name} {path : CStr}
    (h : ∀ n ∈ lexical (start cwd path) (components path), ValidName n) :
    componentsOf (unixText cwd path) =
      (lexical (start cwd path) (components path)).map .down := by
  rw [unixText]
  by_cases hns : lexical (start cwd path) (components path) = []
  · simp [hns]
  · have hback := componentsOf_append_rendered h []
    simp only [List.nil_append, componentsOf_nil] at hback
    simp only [if_neg hns]
    by_cases hk : keepsSlash path.bytes = true
    · rw [if_pos hk]
      exact (componentsOf_append_slash _ []).trans (by simp [hback])
    · rw [if_neg hk, List.append_nil, hback]

/-- It behaves as documented. -/
theorem unixMerge_lexical (cwd : List Name) : Lexical cwd (unixMerge cwd) := by
  refine ⟨fun path resolved hres => ?_, fun ns h => ?_, fun _ => rfl⟩
  · simp only [unixMerge, Option.dite_none_right_eq_some, Option.some.injEq] at hres
    obtain ⟨⟨hvalid, hnul⟩, rfl⟩ := hres
    exact ⟨unixText_head cwd path, componentsOf_unixText hvalid⟩
  · have hvalid : ∀ n ∈ lexical (start cwd (canonicalPath ns h))
        (components (canonicalPath ns h)), ValidName n := by
      simpa using h
    have hnul : 0 ∉ unixText cwd (canonicalPath ns h) := by
      rw [unixText_canonicalPath]
      exact zero_notMem_canonicalText h
    rw [unixMerge, dif_pos ⟨hvalid, hnul⟩]
    exact congrArg some (CStr.ext (unixText_canonicalPath cwd h))

/-- The name `run`. -/
def run : Name := [114, 117, 110]

theorem nul_not_mem_runA : (0 : UInt8) ∉ [47, 114, 117, 110, 47, 97] := by decide

/-- The path `/run/a`. -/
def runA : CStr := ⟨[47, 114, 117, 110, 47, 97], nul_not_mem_runA⟩

/-- A system with a socket at `/run/a` and no links. -/
def plainSystem : FileSystem Name where
  entry l := if l = [run] then some .dir else if l = [run, [97]] then some .file else none
  cwd := []
  cwd_dir := fun _ hne hs => absurd (List.prefix_nil.mp hs) hne

theorem nul_not_mem_roundabout :
    (0 : UInt8) ∉ [47, 114, 117, 110, 47, 46, 46, 47, 114, 117, 110, 47] := by decide

/-- The prefix `/run/../run/`. -/
def roundaboutPrefix : CStr :=
  ⟨[47, 114, 117, 110, 47, 46, 46, 47, 114, 117, 110, 47], nul_not_mem_roundabout⟩

/-- A socket at its own place below `/run/../run/` is accepted and contained. -/
theorem validateSocketPath_containment_plain :
    validateSocketPath (unixMerge []) (serverConfig (unixMerge []) roundaboutPrefix) runA =
        true ∧
      Contained (unixMerge []) (serverConfig (unixMerge []) roundaboutPrefix) roundaboutPrefix
        plainSystem runA := by
  have hlex : ∀ fs : FileSystem Name, Lexical fs.cwd (unixMerge fs.cwd) :=
    fun fs => unixMerge_lexical fs.cwd
  refine ⟨by decide, (validateSocketPath_containment hlex).1 plainSystem _ _ _ rfl (by decide)
    (serverConfig_cacheRight (unixMerge_lexical []) roundaboutPrefix) ?_⟩
  have hrun : plainSystem.withoutLinks.entry ([] ++ [run]) = some .dir := rfl
  have hfile : plainSystem.withoutLinks.entry ([] ++ [run] ++ [[97]]) = some .file := rfl
  have hwalk : ∀ {cs loc}, plainSystem.withoutLinks.Walks ([] ++ [run]) cs loc →
      plainSystem.withoutLinks.Walks [] (.down run :: cs) loc := fun h => .enter hrun h
  have hpath : Denotes plainSystem.withoutLinks runA ([] ++ [run] ++ [[97]]) := by
    have hcomps : components runA = [.down run, .down [97]] := by decide
    rw [Denotes, hcomps]
    exact hwalk (.last hfile)
  have hprefix : Denotes plainSystem.withoutLinks roundaboutPrefix ([] ++ [run]) := by
    have hcomps : components roundaboutPrefix = [.down run, .up, .down run] := by decide
    rw [Denotes, hcomps]
    exact hwalk (.up (hwalk (.done _)))
  refine linksOnlyInPrefix_of_withoutLinks (fun loc hloc => ?_) hprefix
  have hplain : plainSystem.Plain [] [] [] (components runA) ([] ++ [run] ++ [[97]]) :=
    Walks.plain hpath (by simp)
  obtain rfl := hloc.det hplain.walks
  exact hpath

/-- A link `/run/a` to `/z` is accepted below `/run/` and leads out of it. -/
theorem link_not_contained :
    ¬ Contained (unixMerge []) (serverConfig (unixMerge []) runPrefix) runPrefix
      (diverted [run] [97] [122] []) runA := by
  intro h
  have hpath : Denotes (diverted [run] [97] [122] []) runA [[122]] :=
    diverted_walks (by decide) (by decide)
  have hrun : (diverted [run] [97] [122] []).Walks [] ([run].map .down) [run] :=
    diverted_walks_pre
  obtain ⟨ploc, hw, hp⟩ := h (by decide) _ hpath
  obtain rfl := hw.det hrun
  exact absurd hp (by decide)

end SocketHandoff.Apache
