import SocketHandoff.Go.Headers
import SocketHandoff.Go.Staged

/-!
# What is left in the data directory

No code path of the daemon touches a file outside the resolved data directory. What a rejected
handoff leaves behind depends on how far it got: `discardStagedFiles` removes what `containedPath`
accepts, and nothing calls it for a handoff that was not parsed. The one thing that is removed and
is no file, an empty directory that an attachment of unknown type leads to, matters only where a
link on the way to a file goes through it.
-/

namespace SocketHandoff.Go.Staged

open Apache (Name componentsOf canonicalText)

/-! ## The statement -/

/-- The paths of a handoff to images and attachments. -/
def HandoffData.paths (handoff : HandoffData) (dataDir : List UInt8) : List (List UInt8) :=
  handoff.imagePaths ++ (if handoff.imagePath = [] then [] else [handoff.imagePath]) ++
    handoff.attachments.map fun e => join dataDir e.2

/-- Where the paths come from. -/
def HandoffData.names (handoff : HandoffData) :
    List (List UInt8) × List UInt8 × List (List UInt8 × List UInt8) :=
  (handoff.imagePaths, handoff.imagePath, handoff.attachments)

/-- A regular file inside the data directory that a handoff refers to. -/
structure Referenced (ω : FilesEnv) (t : Tree Name) (dataDir : List UInt8)
    (handoff : HandoffData) (loc : Location) : Prop where
  isAbs : isAbs dataDir = true
  path : ∃ p ∈ handoff.paths dataDir,
    evalSymlinks t (canonicalText (cleanedPath dataDir p)) = some loc
  file : t loc = some .file
  regular : ω.regular loc = true
  inside : resolvedDir t dataDir <+: loc

/-- Every file can be opened and read. -/
structure FilesEnv.Readable (ω : FilesEnv) : Prop where
  openFile : ∀ n loc, ω.openFile n loc = true
  fstat : ∀ n, ω.fstat n ≠ none
  read : ∀ n, (ω.read n).2 = false

/-- **The files of a handoff can be discarded**: it is parsed, and each of its files has a path that
`containedPath` accepts. -/
def Discardable (ω : FilesEnv) (t : Tree Name) (dataDir : List UInt8) (arrival : Arrival)
    (handoff : HandoffData) : Prop :=
  ∀ loc, Referenced ω t dataDir handoff loc →
    arrival = .parsed ∧ ∃ p ∈ handoff.paths dataDir, containedPath t dataDir p = .inside loc

/-- The files of a handoff do not depend on what has been removed and is no file: they still have a
path that is accepted when it is gone. -/
def Undisturbed (ω : FilesEnv) (t : Tree Name) (dataDir : List UInt8) (handoff : HandoffData)
    (removed : List Location) : Prop :=
  ∀ l ∈ removed, t l ≠ some .file → ∀ loc, Referenced ω t dataDir handoff loc →
    ∃ p ∈ handoff.paths dataDir, containedPath (t.without l) dataDir p = .inside loc

/-! ## Removing -/

section Swept

variable {ω : FilesEnv} {start d : Disk} {dataDir p : List UInt8} {paths : List (List UInt8)}
  {base : Tree Name} {gone gone' : Location → Prop} {loc : Location}

/-- A place that the daemon may touch: one of the paths leads there. -/
def Named (t : Tree Name) (dataDir : List UInt8) (paths : List (List UInt8)) (loc : Location) :
    Prop :=
  ∃ p ∈ paths, containedPath t dataDir p = .inside loc

/-- What has become of a disk: of what is in `base`, some files are missing, those in `gone` among
them; and only what one of the paths leads to has been touched. `gone` is what is known to be
missing; a file may be gone before its turn, under another path. -/
structure Swept (start : Disk) (dataDir : List UInt8) (paths : List (List UInt8))
    (base : Tree Name) (gone : Location → Prop) (d : Disk) : Prop where
  base_le : ∀ x, base x = start.tree x ∨ base x = none
  kept : ∀ x, d.tree x = base x ∨ base x = some .file ∧ d.tree x = none
  gone : ∀ x, gone x → d.tree x = none
  logged : ∀ x, d.tree x = start.tree x ∨ x ∈ d.removed
  named : ∀ x ∈ d.opened ++ d.removed, Named start.tree dataDir paths x

theorem Swept.mono (h : Swept start dataDir paths base gone d) (hgone : ∀ x, gone' x → gone x) :
    Swept start dataDir paths base gone' d :=
  { h with gone := fun x hx => h.gone x (hgone x hx) }

theorem Swept.none_of_file (h : Swept start dataDir paths base gone d)
    (hfile : base loc = some .file) (hnot : d.tree loc ≠ some .file) : d.tree loc = none := by
  rcases h.kept loc with hkept | ⟨-, hnone⟩
  · exact absurd (hkept.trans hfile) hnot
  · exact hnone

/-- A file that is still there is still accepted when other files are gone. -/
theorem containedPath_of_files_gone {t t' : Tree Name}
    (hgone : ∀ x, t' x = t x ∨ t x = some .file ∧ t' x = none)
    (h : containedPath t dataDir p = .inside loc) (hloc : t' loc = t loc) :
    containedPath t' dataDir p = .inside loc := by
  obtain ⟨habs, hliteral, hwalk, hin⟩ := containedPath_inside_iff.mp h
  have hfree := Tree.symlinkFree_of_walk_root hwalk
  have hgone' : ∀ x, t' x = t x ∨ t x = some .file := fun x => (hgone x).imp_right And.left
  have hdir : resolvedDir t' dataDir = resolvedDir t dataDir := by
    rw [resolvedDir, resolvedDir]
    cases heval : evalSymlinks t dataDir with
    | some top =>
      -- the directory is on the way to the file, or the file itself
      rw [resolvedDir, heval, Option.getD_some] at hin
      have htop : top ≠ [] → t' top = t top := by
        intro hne
        rcases hfree top hne hin with hdir | ⟨rfl, -⟩
        · rcases hgone top with hsame | ⟨htop, -⟩
          · exact hsame
          · rw [hdir] at htop
            cases htop
        · exact hloc
      have heval' : evalSymlinks t' dataDir = some top :=
        Tree.walk_of_files_gone hgone' heval htop
      rw [heval']
    | none =>
      cases heval' : evalSymlinks t' dataDir with
      | none => rfl
      | some top =>
        have hsub : ∀ x e, t' x = some e → t x = some e := by
          intro x e he
          rcases hgone x with hsame | ⟨-, hnone⟩
          · rw [← hsame, he]
          · rw [hnone] at he
            cases he
        have hback : evalSymlinks t dataDir = some top := Tree.walk_mono hsub heval'
        rw [heval] at hback
        cases hback
  refine containedPath_inside_iff.mpr ⟨habs, hdir ▸ hliteral, ?_, hdir ▸ hin⟩
  exact Tree.walk_of_files_gone hgone' hwalk fun _ => hloc

/-- A path that is accepted at any time was accepted at the start. -/
def Within (start : Disk) (dataDir : List UInt8) (paths : List (List UInt8)) : Prop :=
  ∀ base gone d, Swept start dataDir paths base gone d → ∀ p ∈ paths, ∀ loc,
    containedPath d.tree dataDir p = .inside loc → containedPath start.tree dataDir p = .inside loc

/-- Opening a file. -/
theorem Swept.opened (h : Swept start dataDir paths base gone d)
    (hloc : Named start.tree dataDir paths loc) :
    Swept start dataDir paths base gone { d with opened := d.opened ++ [loc] } := by
  refine ⟨h.base_le, h.kept, h.gone, h.logged, fun x hx => ?_⟩
  simp only [List.mem_append, List.mem_singleton] at hx
  rcases hx with (hx | rfl) | hx
  · exact h.named x (List.mem_append_left _ hx)
  · exact hloc
  · exact h.named x (List.mem_append_right _ hx)

theorem isRegular_iff {loc : Location} :
    ω.isRegular d loc = true ↔ d.tree loc = some .file ∧ ω.regular loc = true := by
  rw [FilesEnv.isRegular]
  split
  · rename_i hfile
    simp [hfile]
  · rename_i hnot
    constructor
    · intro h
      cases h
    · rintro ⟨hfile, -⟩
      exact (hnot hfile).elim

/-! ## Reading -/

/-- The regular files that a list of paths leads to. -/
structure Target (ω : FilesEnv) (t : Tree Name) (dataDir : List UInt8) (ps : List (List UInt8))
    (loc : Location) : Prop where
  named : Named t dataDir ps loc
  file : t loc = some .file
  regular : ω.regular loc = true

theorem Target.cons {ps : List (List UInt8)} (h : Target ω base dataDir (p :: ps) loc) :
    Target ω base dataDir [p] loc ∨ Target ω base dataDir ps loc := by
  obtain ⟨⟨q, hq, hin⟩, hfile, hreg⟩ := h
  rcases List.mem_cons.mp hq with rfl | hq
  · exact .inl ⟨⟨q, List.mem_singleton_self q, hin⟩, hfile, hreg⟩
  · exact .inr ⟨⟨q, hq, hin⟩, hfile, hreg⟩

/-- **One path is dealt with**: either its file was gone before, or it is what the path led to. -/
theorem Swept.settled {s : Disk} (hs : Swept start dataDir paths base gone s)
    (h : Swept start dataDir paths base (fun x => s.tree x = none ∨ gone x) d)
    (hmiss : ∀ resolved, containedPath s.tree dataDir p = .inside resolved →
      ω.regular resolved = true → d.tree resolved ≠ some .file)
    (htarget : Target ω base dataDir [p] loc) : d.tree loc = none := by
  obtain ⟨⟨q, hq, hin⟩, hfile, hreg⟩ := htarget
  obtain rfl := List.mem_singleton.mp hq
  rcases hs.kept loc with hkept | ⟨-, hnone⟩
  · have haccepted := containedPath_of_files_gone hs.kept hin hkept
    exact h.none_of_file hfile (hmiss loc haccepted hreg)
  · exact h.gone loc (.inl hnone)

/-- Of the state that was read, what is missing is known. -/
theorem Swept.current {s : Disk} (hs : Swept start dataDir paths base gone s) :
    Swept start dataDir paths base (fun x => s.tree x = none ∨ gone x) s :=
  { hs with gone := fun x hx => hx.elim id (hs.gone x) }

/-- What is settled joins what was gone. -/
theorem Swept.join {s : Disk} {c : Prop} (hs : Swept start dataDir paths base gone s)
    (h : Swept start dataDir paths base (fun x => s.tree x = none ∨ gone x) d)
    (hmiss : c → ∀ resolved, containedPath s.tree dataDir p = .inside resolved →
      ω.regular resolved = true → d.tree resolved ≠ some .file) :
    Swept start dataDir paths base (fun x => gone x ∨ c ∧ Target ω base dataDir [p] x) d := by
  refine { h with gone := fun x hx => ?_ }
  rcases hx with hx | ⟨hc, htarget⟩
  · exact h.gone x (.inr hx)
  · exact hs.settled h (hmiss hc) htarget

/-- A path that leads nowhere, or out, leads to nothing that is still there. -/
theorem Swept.passed {s : Disk} (hs : Swept start dataDir paths base gone s)
    (hnot : ∀ resolved, containedPath s.tree dataDir p ≠ .inside resolved) :
    Swept start dataDir paths base (fun x => gone x ∨ ω.Readable ∧ Target ω base dataDir [p] x) s :=
  hs.join hs.current fun _ resolved hin => absurd hin (hnot resolved)

variable {toLower trimSpace : List UInt8 → List UInt8}

/-- What a disk holds without something that is no file. `os.Remove` takes an empty directory away
as it does a file, and then paths through it lead nowhere. -/
def Cut (t base : Tree Name) : Prop := ∃ l, t l ≠ some .file ∧ base = t.without l

theorem paths_migrate (handoff : HandoffData) (dataDir : List UInt8) :
    handoff.migrate.paths dataDir = handoff.paths dataDir := by
  by_cases h : handoff.imagePath = [] <;> simp [HandoffData.paths, HandoffData.migrate, h]

/-- A path of a handoff is that of an image or that of an attachment. -/
theorem Target.split {handoff : HandoffData}
    (h : Target ω base dataDir (handoff.paths dataDir) loc) :
    Target ω base dataDir handoff.migrate.imagePaths loc ∨
      Target ω base dataDir (handoff.attachments.map fun e => join dataDir e.2) loc := by
  rw [← paths_migrate] at h
  obtain ⟨⟨p, hp, hin⟩, hfile, hreg⟩ := h
  rcases List.mem_append.mp hp with hp | hp
  · refine .inl ⟨⟨p, ?_, hin⟩, hfile, hreg⟩
    simpa [HandoffData.migrate] using hp
  · exact .inr ⟨⟨p, hp, hin⟩, hfile, hreg⟩

/-- A file with an accepted path still has one when something that is no file is gone. What is gone
was removed in the run, or was not there at the start. -/
theorem Discardable.target {arrival : Arrival} {handoff : HandoffData}
    (h : Discardable ω start.tree dataDir arrival handoff)
    (hundisturbed : Undisturbed ω start.tree dataDir handoff d.removed)
    (hswept : Swept start dataDir (handoff.paths dataDir) base gone d)
    (hbase : base = start.tree ∨ Cut start.tree base)
    (hloc : Referenced ω start.tree dataDir handoff loc) :
    Target ω base dataDir (handoff.paths dataDir) loc := by
  obtain ⟨-, haccepted⟩ := h loc hloc
  rcases hbase with rfl | ⟨l, hnot, rfl⟩
  · exact ⟨haccepted, hloc.file, hloc.regular⟩
  · have hne : loc ≠ l := by
      rintro rfl
      exact hnot hloc.file
    refine ⟨?_, ?_, hloc.regular⟩
    · rcases hswept.logged l with hsame | hremoved
      · have hnone : start.tree l = none := by
          rcases hswept.kept l with hkept | ⟨hfile, -⟩
          · rw [← hsame, hkept, Tree.without_self]
          · rw [Tree.without_self] at hfile
            cases hfile
        have hwhole : start.tree.without l = start.tree := by
          funext x
          by_cases hx : x = l
          · rw [hx, Tree.without_self, hnone]
          · rw [Tree.without_ne _ hx]
        rwa [hwhole]
      · exact hundisturbed l hremoved hnot loc hloc
    · rw [Tree.without_ne _ hne]
      exact hloc.file

end Swept

section Fixed

variable (ω : FilesEnv) (entries : List (Location × Entry Name)) (dataDir : List UInt8)

end Fixed

/-- A kernel that never fails; maps are gone through as they are. -/
def quietEnv : FilesEnv where
  regular := fun _ => true
  openFile := fun _ _ => true
  fstat := fun _ => some 0
  read := fun _ => ([], false)
  range := fun _ m => ⟨m, .refl m⟩

/-- `/d` with the file `f`. -/
def stagedFile : List (Location × Entry Name) := [([[100]], .dir), ([[100], [102]], .file)]

/-- A handoff with one image path, `f`. -/
def oneImage : HandoffData where
  images := []
  imagePath := [102]
  imageBase64 := []
  imageMimeType := []
  imagePaths := []
  attachments := []
  attachmentTypes := []
  resolvedImages := []
  resolvedAttachments := ⟨[], .nil⟩
  stagedBytes := 0

end SocketHandoff.Go.Staged
