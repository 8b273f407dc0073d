import SocketHandoff.Apache.PathText
import SocketHandoff.Lib.FileTree

/-!
# Paths inside the data directory

`containedPath` of `streaming_daemon.go` and the functions of `path/filepath` it calls, on a tree
of files. It compares the literal path with the resolved directory before it resolves the path, so
what it accepts is inside; and it accepts everything inside unless the directory is reached through
a link.
-/

namespace SocketHandoff.Go

open Apache

/-! ## `path/filepath` -/

/-- `filepath.IsAbs`. -/
def isAbs (path : List UInt8) : Bool := path.head? = some slash

/-- `filepath.Clean` of an absolute path, as the names in it. -/
def clean (path : List UInt8) : List Name := lexical [] (componentsOf path)

/-- `filepath.Join` of an absolute directory and a path. -/
def join (dir path : List UInt8) : List UInt8 := canonicalText (clean (dir ++ slash :: path))

/-- `filepath.EvalSymlinks` of an absolute path: 255 links are followed. -/
def evalSymlinks (t : Tree Name) (path : List UInt8) : Option (List Name) :=
  t.walk 255 [] (componentsOf path)

/-- `isInside`, with `filepath.Rel` of two absolute paths. -/
def isInside (dir path : List Name) : Bool := (relative dir path).head? ≠ some .up

/-- What `containedPath` returns. -/
inductive Contained
  | inside (resolved : List Name)
  | outside
  /-- any other error -/
  | failed
  deriving DecidableEq

/-- `containedPath`: the path is made absolute and cleaned as text, and compared with the resolved
directory twice, before its links are followed and after. The first comparison is what a directory
given through a link does not survive: the text of the path is below the link, the directory is
where it leads to. -/
def containedPath (t : Tree Name) (allowedDir p : List UInt8) : Contained :=
  if !isAbs allowedDir then .outside
  else
    let p := if isAbs p then p else join allowedDir p
    let cleaned := clean p
    let allowedDir := (evalSymlinks t allowedDir).getD (clean allowedDir)
    if !isInside allowedDir cleaned then .outside
    else
      match evalSymlinks t (canonicalText cleaned) with
      | none => .failed
      | some resolved => if isInside allowedDir resolved then .inside resolved else .outside

/-! ## What it is for -/

/-- The allowed directory without links: the place it leads to, or its text where it leads
nowhere. -/
def resolvedDir (t : Tree Name) (dir : List UInt8) : List Name :=
  (evalSymlinks t dir).getD (clean dir)

/-- The literal path that a path stands for. -/
def cleanedPath (dir p : List UInt8) : List Name := clean (if isAbs p then p else join dir p)

/-- Linux follows 40 links. -/
def maxSymlinks : Nat := 40

/-- A relative path without `..` that, followed from the allowed directory, is the file at `loc`,
which is inside. Such a path is the least a client can expect to be let through. -/
structure NamesInside (t : Tree Name) (dir p : List UInt8) (loc : List Name) : Prop where
  relative : isAbs p = false
  noUp : .up ∉ componentsOf p
  leads : t.walk maxSymlinks [] (componentsOf dir ++ componentsOf p) = some loc
  file : t loc = some .file
  inside : resolvedDir t dir <+: loc

/-- **What lies inside is accepted**, and nothing else. The first half is what the comment of the
function promises for a directory that is reached through links; the second is what keeps a request
within its directory. -/
structure AcceptsInside (t : Tree Name) (dir p : List UInt8) : Prop where
  sound : ∀ loc, containedPath t dir p = .inside loc → SymlinkFree t loc ∧ resolvedDir t dir <+: loc
  complete : ∀ loc, NamesInside t dir p loc → containedPath t dir p = .inside loc

/-! ## What is accepted -/

theorem isInside_iff {dir path : List Name} : isInside dir path = true ↔ dir <+: path := by
  rw [isInside, decide_eq_true_iff, relative_head_iff]

/-- A cleaned path reads back as its names. -/
theorem componentsOf_clean (path : List UInt8) :
    componentsOf (canonicalText (clean path)) = (clean path).map .down := by
  refine componentsOf_canonical_words fun n hn => ?_
  rcases mem_lexical hn with h | h
  · cases h
  · exact isWord_of_mem h

@[simp] theorem clean_canonicalText (path : List UInt8) :
    clean (canonicalText (clean path)) = clean path := by
  rw [clean, componentsOf_clean, lexical_map_down, List.nil_append]

theorem containedPath_eq (t : Tree Name) (dir p : List UInt8) :
    containedPath t dir p =
      if !isAbs dir then .outside
      else if !isInside (resolvedDir t dir) (cleanedPath dir p) then .outside
      else
        match evalSymlinks t (canonicalText (cleanedPath dir p)) with
        | none => .failed
        | some resolved =>
          if isInside (resolvedDir t dir) resolved then .inside resolved else .outside := rfl

/-- **What is accepted**: the literal path starts with the resolved directory, and so does the
place it leads to. -/
theorem containedPath_inside_iff {t : Tree Name} {dir p : List UInt8} {loc : List Name} :
    containedPath t dir p = .inside loc ↔
      isAbs dir = true ∧ resolvedDir t dir <+: cleanedPath dir p ∧
        t.walk 255 [] ((cleanedPath dir p).map .down) = some loc ∧ resolvedDir t dir <+: loc := by
  have heval : evalSymlinks t (canonicalText (cleanedPath dir p)) =
      t.walk 255 [] ((cleanedPath dir p).map .down) := by
    rw [evalSymlinks, cleanedPath, componentsOf_clean]
  simp only [containedPath_eq, heval, Bool.not_eq_true', Bool.eq_false_iff, ne_eq, isInside_iff]
  by_cases habs : isAbs dir = true
  · by_cases hin : resolvedDir t dir <+: cleanedPath dir p
    · cases hwalk : t.walk 255 [] ((cleanedPath dir p).map .down) with
      | none => simp [habs, hin]
      | some place =>
        simp only [habs, hin, not_true_eq_false, if_false, Option.some.injEq, true_and]
        by_cases hplace : resolvedDir t dir <+: place
        · rw [if_pos hplace, Contained.inside.injEq]
          exact ⟨fun h => ⟨h, h ▸ hplace⟩, And.left⟩
        · rw [if_neg hplace]
          simp only [reduceCtorEq, false_iff, not_and]
          rintro rfl
          exact hplace
    · simp [habs, hin]
  · simp [habs]

/-- What is accepted is inside and has no links on its way. -/
theorem containedPath_sound {t : Tree Name} {dir p : List UInt8} {loc : List Name}
    (h : containedPath t dir p = .inside loc) :
    SymlinkFree t loc ∧ resolvedDir t dir <+: loc := by
  obtain ⟨-, -, hwalk, hin⟩ := containedPath_inside_iff.mp h
  exact ⟨Tree.symlinkFree_of_walk_root hwalk, hin⟩

/-- **Everything inside is accepted** exactly when, for a path that names a file inside, the text of
the directory and of the path starts with the resolved directory and, cleaned, leads to the same
file. -/
theorem acceptsInside_iff (t : Tree Name) (dir p : List UInt8) (hdir : isAbs dir = true) :
    AcceptsInside t dir p ↔ ∀ loc, NamesInside t dir p loc →
      resolvedDir t dir <+: cleanedPath dir p ∧
        t.walk 255 [] ((cleanedPath dir p).map .down) = some loc := by
  constructor
  · intro h loc hnames
    obtain ⟨-, hliteral, hwalk, -⟩ := containedPath_inside_iff.mp (h.complete loc hnames)
    exact ⟨hliteral, hwalk⟩
  · intro h
    refine ⟨fun loc hloc => containedPath_sound hloc, fun loc hnames => ?_⟩
    obtain ⟨hliteral, hwalk⟩ := h loc hnames
    exact containedPath_inside_iff.mpr ⟨hdir, hliteral, hwalk, hnames.inside⟩

/-- `/v` with a link `r` to `/r`, which holds the file `f`. -/
def linkedDir : Tree Name := fun loc =>
  [([[118]], .dir), ([[118], [114]], .link true [.down [114]]), ([[114]], .dir),
    ([[114], [102]], .file)].lookup loc

/-- `/r` itself takes `f`. -/
theorem acceptsInside_iff_real : AcceptsInside linkedDir [47, 114] [102] := by
  refine (acceptsInside_iff linkedDir [47, 114] [102] (by decide)).mpr fun loc h => ?_
  have hwalk : linkedDir.walk maxSymlinks [] (componentsOf [47, 114] ++ componentsOf [102]) =
      some [[114], [102]] := by decide +kernel
  obtain rfl := Option.some.inj (h.leads.symm.trans hwalk)
  exact ⟨by decide +kernel, by decide +kernel⟩

/-- The same directory by way of `/v/r` does not: its text does not start with `/r`. -/
theorem not_acceptsInside : isAbs [47, 118, 47, 114] = true ∧
    ¬ AcceptsInside linkedDir [47, 118, 47, 114] [102] := by
  have hnames : NamesInside linkedDir [47, 118, 47, 114] [102] [[114], [102]] :=
    ⟨by decide, by decide +kernel, by decide +kernel, rfl, by decide +kernel⟩
  refine ⟨by decide, fun h => ?_⟩
  have hrefused : containedPath linkedDir [47, 118, 47, 114] [102] = .outside := by decide +kernel
  have haccepted := h.complete _ hnames
  rw [hrefused] at haccepted
  cases haccepted

/-! ## Directories without `..` -/

/-- The components of the directory, and then those of the path. -/
theorem NamesInside.components {t : Tree Name} {dir p : List UInt8} {loc : List Name}
    (h : NamesInside t dir p loc) (hup : .up ∉ componentsOf dir) :
    (cleanedPath dir p).map .down = componentsOf dir ++ componentsOf p := by
  rw [cleanedPath, if_neg (by simp [h.relative]), join, clean_canonicalText, clean,
    componentsOf_append_slash, map_down_lexical (by simp [hup, h.noUp])]
  rfl

/-- Cleaning them does not change where they lead. -/
theorem NamesInside.cleaned {t : Tree Name} {dir p : List UInt8} {loc : List Name}
    (h : NamesInside t dir p loc) (hup : .up ∉ componentsOf dir) :
    t.walk 255 [] ((cleanedPath dir p).map .down) = some loc := by
  rw [h.components hup]
  exact Tree.walk_le (by decide) h.leads

/-- With no `..` in the text of the directory, it has to start with the resolved one. -/
theorem acceptsInside_iff_start {t : Tree Name} {dir p : List UInt8} (hdir : isAbs dir = true)
    (hup : .up ∉ componentsOf dir) :
    AcceptsInside t dir p ↔
      ∀ loc, NamesInside t dir p loc → resolvedDir t dir <+: cleanedPath dir p := by
  constructor
  · intro h loc hnames
    exact (containedPath_inside_iff.mp (h.complete loc hnames)).2.1
  · intro h
    refine ⟨fun loc hloc => containedPath_sound hloc, fun loc hnames => ?_⟩
    exact containedPath_inside_iff.mpr ⟨hdir, h loc hnames, hnames.cleaned hup, hnames.inside⟩

/-- A directory that is its own resolved place takes everything inside. -/
theorem acceptsInside_of_resolved {t : Tree Name} {dir p : List UInt8} (hdir : isAbs dir = true)
    (hup : .up ∉ componentsOf dir) (hreal : resolvedDir t dir = clean dir) :
    AcceptsInside t dir p := by
  refine (acceptsInside_iff_start hdir hup).mpr fun loc hnames => ?_
  rw [hreal, ← List.prefix_map_iff_of_injective (f := Comp.down) fun _ _ => Comp.down.inj,
    hnames.components hup, clean, map_down_lexical hup]
  exact List.prefix_append _ _

end SocketHandoff.Go
