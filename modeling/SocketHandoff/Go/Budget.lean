import SocketHandoff.Go.Hygiene

/-!
# The budget of a request

`readStagedFile` holds the size that `fstat` finds against what is left of the budget of a request,
and charges it with the bytes it reads then, of which there may be more. Every file keeps to the limit
of its class. What all of them come to keeps to the budget unless a file grows by more than the budget
leaves.
-/

namespace SocketHandoff.Go.Staged

/-! ## Readings -/

/-- The limit of a class of files. -/
def Kind.limit : Kind → Nat
  | .textFile => maxTextFileSize
  | .image | .binaryFile => maxBinaryFileSize

/-- A file that is taken into a request: its size when it is opened, and what is read. -/
structure Reading where
  kind : Kind
  size : Nat
  data : List UInt8

/-- The bytes of several files. -/
def bytesRead : List Reading → Nat
  | [] => 0
  | r :: rest => r.data.length + bytesRead rest

/-- Each file has a size that the budget allows, of which `staged` bytes are spent. The size is the
one `fstat` has said, before anything is read. -/
def Admitted (staged : Nat) : List Reading → Prop
  | [] => True
  | r :: rest =>
    staged + r.size ≤ maxTotalAttachmentBytes ∧ Admitted (staged + r.data.length) rest

/-- No file grows by more than the budget leaves. The reader is limited to what the class of the
file allows, and not to what is left for the request, so that a file may grow in between. -/
def GrowthWithin (staged : Nat) : List Reading → Prop
  | [] => True
  | r :: rest =>
    r.data.length - r.size ≤ maxTotalAttachmentBytes - (staged + r.size) ∧
      GrowthWithin (staged + r.data.length) rest

/-- **The budget is kept** exactly if no file grows by more than it leaves. The check compares the
size that `fstat` gave, and the read is limited by the size of a single file, so that what counts is
how much comes in between. -/
theorem budget_iff {staged : Nat} {rs : List Reading} (hstaged : staged ≤ maxTotalAttachmentBytes)
    (h : Admitted staged rs) :
    staged + bytesRead rs ≤ maxTotalAttachmentBytes ↔ GrowthWithin staged rs := by
  induction rs generalizing staged with
  | nil => exact iff_of_true hstaged trivial
  | cons r rest ih =>
    obtain ⟨hsize, hrest⟩ := h
    rw [bytesRead, GrowthWithin, ← Nat.add_assoc]
    by_cases hfits : staged + r.data.length ≤ maxTotalAttachmentBytes
    · have hgrowth : r.data.length - r.size ≤ maxTotalAttachmentBytes - (staged + r.size) := by
        omega
      rw [ih hfits hrest]
      exact (and_iff_right hgrowth).symm
    · constructor
      · intro htotal
        omega
      · rintro ⟨hgrowth, -⟩
        omega

/-- A file that does not grow needs no more than its size. -/
theorem growthWithin_of_le {staged : Nat} {rs : List Reading}
    (h : ∀ r ∈ rs, r.data.length ≤ r.size) : GrowthWithin staged rs := by
  induction rs generalizing staged with
  | nil => trivial
  | cons r rest ih =>
    have hr := h r List.mem_cons_self
    exact ⟨by omega, ih fun r hr => h r (List.mem_cons_of_mem _ hr)⟩

theorem bytesRead_append (rs more : List Reading) :
    bytesRead (rs ++ more) = bytesRead rs + bytesRead more := by
  induction rs with
  | nil => rw [List.nil_append, bytesRead, Nat.zero_add]
  | cons r rs ih => rw [List.cons_append, bytesRead, bytesRead, ih, Nat.add_assoc]

theorem Admitted.append {staged : Nat} {rs more : List Reading} (h : Admitted staged rs)
    (hmore : Admitted (staged + bytesRead rs) more) : Admitted staged (rs ++ more) := by
  induction rs generalizing staged with
  | nil => exact hmore
  | cons r rs ih =>
    refine ⟨h.1, ih h.2 ?_⟩
    rwa [bytesRead, ← Nat.add_assoc] at hmore

/-! ## What the loops read -/

/-- `fstat` and the read after it have given this. -/
def Reading.Seen (ω : FilesEnv) (r : Reading) : Prop :=
  ∃ n, ω.fstat n = some r.size ∧ ω.read (n + 1) = (r.data, false)

/-- The files `rs` are what a part of a request has been charged with. The running total is in it,
for the check of each file is against the sizes of all before. -/
structure Charged (ω : FilesEnv) (staged staged' : Nat) (rs : List Reading) : Prop where
  seen : ∀ r ∈ rs, r.Seen ω
  limit : ∀ r ∈ rs, r.data.length ≤ r.kind.limit
  admitted : Admitted staged rs
  total : staged' = staged + bytesRead rs

section Loops

variable {ω : FilesEnv} {staged staged' staged'' : Nat} {rs more : List Reading}

theorem Charged.nil : Charged ω staged staged [] :=
  ⟨by simp, by simp, trivial, rfl⟩

theorem Charged.append (h : Charged ω staged staged' rs) (hmore : Charged ω staged' staged'' more) :
    Charged ω staged staged'' (rs ++ more) where
  seen r hr := (List.mem_append.mp hr).elim (h.seen r) (hmore.seen r)
  limit r hr := (List.mem_append.mp hr).elim (h.limit r) (hmore.limit r)
  admitted := h.admitted.append (h.total ▸ hmore.admitted)
  total := by rw [hmore.total, h.total, bytesRead_append, Nat.add_assoc]

/-- **Reading a file**: its size is admitted, and what is read keeps to its class. -/
theorem readStagedFile_data (kind : Kind) {path : Location} {handoff handoff' : HandoffData}
    {data : List UInt8} {st : Nat × Disk}
    (h : (readStagedFile path kind.limit kind handoff ω st).1 = (.data data, handoff')) :
    ∃ size, Charged ω handoff.stagedBytes handoff'.stagedBytes [⟨kind, size, data⟩] ∧
      handoff' = { handoff with stagedBytes := handoff'.stagedBytes } := by
  rw [readStagedFile, Act.bind_run] at h
  cases hopened : (openFile path ω st).1 with
  | false =>
    rw [hopened] at h
    cases h
  | true =>
    rw [hopened] at h
    simp only [Bool.not_true, Bool.false_eq_true, if_false, Act.bind_run] at h
    cases hinfo : (fstat path ω (openFile path ω st).2).1 with
    | none =>
      rw [hinfo] at h
      cases h
    | some info =>
      obtain ⟨regular, size⟩ := info
      simp only [hinfo] at h
      split at h
      · cases h
      split at h
      · cases h
      split at h
      · cases h
      rename_i hbudget
      -- the question after that about the size
      have hread : (readAll (kind.limit + 1) ω (fstat path ω (openFile path ω st).2).2).1 =
          ((ω.read ((openFile path ω st).2.1 + 1)).1.take (kind.limit + 1),
            (ω.read ((openFile path ω st).2.1 + 1)).2) := rfl
      rw [Act.bind_run, hread] at h
      split at h
      · cases h
      rename_i hlimit
      split at h
      · cases h
      rename_i herr
      have hfstat : ω.fstat (openFile path ω st).2.1 = some size := by
        obtain ⟨size', hsize, hpair⟩ := Option.map_eq_some_iff.mp hinfo
        rw [hsize, (Prod.mk.inj hpair).2]
      have hdata : data = (ω.read ((openFile path ω st).2.1 + 1)).1.take (kind.limit + 1) :=
        (ReadFile.data.inj (Prod.mk.inj h).1).symm
      obtain rfl := (Prod.mk.inj h).2
      rw [← hdata] at hlimit
      have hwithin : data.length ≤ kind.limit := Nat.not_lt.mp hlimit
      -- the limit has cut nothing off
      have hlen := congrArg List.length hdata
      have hshort := hlen
      rw [List.length_take] at hshort
      rw [List.take_of_length_le (by omega)] at hdata
      have hseen : (⟨kind, size, data⟩ : Reading).Seen ω := by
        refine ⟨(openFile path ω st).2.1, hfstat, ?_⟩
        rw [hdata, ← Bool.eq_false_iff.mpr herr]
      refine ⟨size, ⟨?_, ?_, ⟨Nat.not_lt.mp hbudget, trivial⟩, ?_⟩, rfl⟩
      · simpa using hseen
      · simpa using hwithin
      · exact congrArg (handoff.stagedBytes + ·) hlen.symm

/-- A file that is passed over costs nothing. -/
theorem readStagedFile_skip {path : Location} {maxSize : Nat} {kind : Kind}
    {handoff handoff' : HandoffData} {st : Nat × Disk}
    (h : (readStagedFile path maxSize kind handoff ω st).1 = (.skip, handoff')) :
    handoff' = handoff := by
  rw [readStagedFile, Act.bind_run] at h
  cases hopened : (openFile path ω st).1 with
  | false =>
    rw [hopened] at h
    exact (Prod.mk.inj h).2.symm
  | true =>
    rw [hopened] at h
    simp only [Bool.not_true, Bool.false_eq_true, if_false, Act.bind_run] at h
    cases hinfo : (fstat path ω (openFile path ω st).2).1 with
    | none =>
      rw [hinfo] at h
      exact (Prod.mk.inj h).2.symm
    | some info =>
      simp only [hinfo] at h
      split at h
      · exact (Prod.mk.inj h).2.symm
      split at h
      · cases h
      split at h
      · cases h
      rw [Act.bind_run] at h
      split at h
      · cases h
      split at h
      · exact (Prod.mk.inj h).2.symm
      · cases h

/-- The images that come from files. -/
def encoded (rs : List Reading) : List (List UInt8) := rs.map fun r => encodeToString r.data

variable {toLower trimSpace : List UInt8 → List UInt8} {dataDir : List UInt8}

theorem resolveImagePaths_charged :
    ∀ (ps : List (List UInt8)) {handoff handoff' : HandoffData} {st : Nat × Disk},
      (resolveImagePaths toLower dataDir ps handoff ω st).1 = (none, handoff') →
      ∃ rs, Charged ω handoff.stagedBytes handoff'.stagedBytes rs ∧ (∀ r ∈ rs, r.kind = .image) ∧
        handoff'.resolvedImages.map ImageData.base64 =
          handoff.resolvedImages.map ImageData.base64 ++ encoded rs ∧
        handoff'.resolvedAttachments = handoff.resolvedAttachments := by
  intro ps
  induction ps with
  | nil =>
    intro handoff handoff' st h
    obtain rfl := (Prod.mk.inj h).2
    exact ⟨[], .nil, by simp, by simp [encoded], rfl⟩
  | cons path ps ih =>
    intro handoff handoff' st h
    rw [resolveImagePaths, Act.bind_run, Act.get_run] at h
    cases hin : containedPath st.2.tree dataDir path with
    | outside =>
      simp only [hin] at h
      cases h
    | failed =>
      simp only [hin] at h
      exact ih h
    | inside resolved =>
      simp only [hin, Act.bind_run] at h
      cases hread : (readStagedFile resolved maxBinaryFileSize .image handoff ω st).1 with
      | mk result next =>
        simp only [hread] at h
        cases result with
        | failed err => cases h
        | skip =>
          obtain rfl := readStagedFile_skip hread
          exact ih h
        | data data =>
          obtain ⟨size, hcharged, hnext⟩ := readStagedFile_data .image hread
          obtain ⟨rs, hrs, hkinds, himages, hatts⟩ := ih h
          refine ⟨⟨.image, size, data⟩ :: rs, hcharged.append hrs, ?_, ?_, ?_⟩
          · simpa using hkinds
          · rw [himages, hnext]
            simp [encoded]
          · rw [hatts, hnext]

/-- **`resolveImages`** charges the request with the images it has read: what is added to the count
is what the reads returned, and these are the images that are handed on, behind those that came in
the request itself. -/
theorem resolveImages_charged {handoff handoff' : HandoffData} {st : Nat × Disk}
    (h : (resolveImages toLower dataDir handoff ω st).1 = (none, handoff')) :
    ∃ rs, Charged ω handoff.stagedBytes handoff'.stagedBytes rs ∧ (∀ r ∈ rs, r.kind = .image) ∧
      handoff'.resolvedImages.map ImageData.base64 =
        handoff.migrate.images.map ImageData.base64 ++ encoded rs ∧
      handoff'.resolvedAttachments = handoff.resolvedAttachments := by
  rw [resolveImages] at h
  simp only at h
  split at h
  · obtain rfl := (Prod.mk.inj h).2
    exact ⟨[], .nil, by simp, by simp [encoded], rfl⟩
  split at h
  · cases h
  · exact resolveImagePaths_charged _ h

/-- The content of an attachment is what has been read. -/
def Holds (att : ResolvedAttachment) (r : Reading) : Prop :=
  if att.isText then r.kind = .textFile ∧ att.text = r.data
  else r.kind = .binaryFile ∧ att.base64 = encodeToString r.data

theorem mem_insert {attachments : Attachments} {name : List UInt8} {att : ResolvedAttachment}
    {e : List UInt8 × ResolvedAttachment} (h : e ∈ (attachments.insert name att).entries) :
    e ∈ attachments.entries ∨ e = (name, att) := by
  rw [Attachments.insert, List.mem_append, List.mem_singleton] at h
  exact h.imp_left fun h => (List.mem_filter.mp h).1

theorem resolveReferences_charged :
    ∀ (refs : List (List UInt8 × List UInt8)) {handoff handoff' : HandoffData} {st : Nat × Disk},
      (resolveReferences toLower trimSpace dataDir refs handoff ω st).1 = (none, handoff') →
      ∃ rs, Charged ω handoff.stagedBytes handoff'.stagedBytes rs ∧
        (∀ e ∈ handoff'.resolvedAttachments.entries,
          e ∈ handoff.resolvedAttachments.entries ∨ ∃ r ∈ rs, Holds e.2 r) ∧
        handoff'.resolvedImages = handoff.resolvedImages := by
  intro refs
  induction refs with
  | nil =>
    intro handoff handoff' st h
    obtain rfl := (Prod.mk.inj h).2
    exact ⟨[], .nil, fun e he => .inl he, rfl⟩
  | cons e refs ih =>
    obtain ⟨refName, relPath⟩ := e
    intro handoff handoff' st h
    rw [resolveReferences, Act.bind_run, Act.get_run] at h
    cases hin : containedPath st.2.tree dataDir (join dataDir relPath) with
    | outside =>
      simp only [hin] at h
      cases h
    | failed =>
      simp only [hin] at h
      exact ih h
    | inside resolved =>
      simp only [hin] at h
      cases htype : attachmentType toLower trimSpace handoff refName resolved with
      | error err =>
        simp only [htype] at h
        cases err <;> cases h
      | ok type =>
        obtain ⟨mimeType, isText⟩ := type
        simp only [htype, Act.bind_run] at h
        obtain ⟨kind, hkind, hlimit⟩ : ∃ kind : Kind,
            (if isText = true then .textFile else .binaryFile) = kind ∧
              (if isText = true then maxTextFileSize else maxBinaryFileSize) = kind.limit := by
          cases isText
          · exact ⟨.binaryFile, rfl, rfl⟩
          · exact ⟨.textFile, rfl, rfl⟩
        rw [hkind, hlimit] at h
        cases hread : (readStagedFile resolved kind.limit kind handoff ω st).1 with
        | mk result next =>
          simp only [hread] at h
          cases result with
          | failed err => cases h
          | skip =>
            obtain rfl := readStagedFile_skip hread
            exact ih h
          | data data =>
            obtain ⟨size, hcharged, hnext⟩ := readStagedFile_data kind hread
            simp only at h
            split at h
            · cases h
            obtain ⟨rs, hrs, hatts, himages⟩ := ih h
            refine ⟨⟨kind, size, data⟩ :: rs, hcharged.append hrs, ?_, ?_⟩
            · intro e he
              rcases hatts e he with hmem | ⟨r, hr, hholds⟩
              · rw [hnext] at hmem
                rcases mem_insert hmem with hold | rfl
                · exact .inl hold
                · refine .inr ⟨_, List.mem_cons_self, ?_⟩
                  rw [← hkind, Holds]
                  cases isText
                  · exact ⟨rfl, rfl⟩
                  · exact ⟨rfl, rfl⟩
              · exact .inr ⟨r, List.mem_cons_of_mem _ hr, hholds⟩
            · rw [himages, hnext]

/-- **`resolveAttachments`** charges the request with the attachments it has read. -/
theorem resolveAttachments_charged {handoff handoff' : HandoffData} {st : Nat × Disk}
    (hnone : handoff.resolvedAttachments.entries = [])
    (h : (resolveAttachments toLower trimSpace dataDir handoff ω st).1 = (none, handoff')) :
    ∃ rs, Charged ω handoff.stagedBytes handoff'.stagedBytes rs ∧
      (∀ e ∈ handoff'.resolvedAttachments.entries, ∃ r ∈ rs, Holds e.2 r) ∧
      handoff'.resolvedImages = handoff.resolvedImages := by
  rw [resolveAttachments] at h
  split at h
  · obtain rfl := (Prod.mk.inj h).2
    exact ⟨[], .nil, by simp [hnone], rfl⟩
  split at h
  · cases h
  · rw [Act.bind_run] at h
    obtain ⟨rs, hrs, hatts, himages⟩ := resolveReferences_charged _ h
    exact ⟨rs, hrs, fun e he => (hatts e he).resolve_left (by simp), himages⟩

/-- What an accepted request has been charged with: `images` and `atts` are all the files whose
content it holds. -/
structure Taken (ω : FilesEnv) (handoff handoff' : HandoffData) (images atts : List Reading) :
    Prop where
  charged : Charged ω 0 handoff'.stagedBytes (images ++ atts)
  kinds : ∀ r ∈ images, r.kind = .image
  images : handoff'.resolvedImages.map ImageData.base64 =
    handoff.migrate.images.map ImageData.base64 ++ encoded images
  attachments : ∀ e ∈ handoff'.resolvedAttachments.entries, ∃ r ∈ atts, Holds e.2 r

/-- **The budget of a request.** Where `resolveImages` and `resolveAttachments` accept a request that
has just been parsed, it is charged with the bytes of the files it has taken, each within the limit
of its class; and they keep to the budget exactly if no file grows, after its size has been asked
for, by more than the budget leaves. -/
theorem staged_within_iff {handoff next handoff' : HandoffData} {st st' : Nat × Disk}
    (hstaged : handoff.stagedBytes = 0) (hnone : handoff.resolvedAttachments.entries = [])
    (himages : (resolveImages toLower dataDir handoff ω st).1 = (none, next))
    (hatts : (resolveAttachments toLower trimSpace dataDir next ω st').1 = (none, handoff')) :
    ∃ images atts, Taken ω handoff handoff' images atts ∧
      (handoff'.stagedBytes ≤ maxTotalAttachmentBytes ↔ GrowthWithin 0 (images ++ atts)) := by
  obtain ⟨images, hcharged, hkinds, hresolved, hkept⟩ := resolveImages_charged himages
  obtain ⟨atts, hcharged', hholds, hsame⟩ := resolveAttachments_charged (hkept ▸ hnone) hatts
  rw [hstaged] at hcharged
  have hall := hcharged.append hcharged'
  refine ⟨images, atts, ⟨hall, hkinds, hsame ▸ hresolved, hholds⟩, ?_⟩
  rw [hall.total]
  exact budget_iff (Nat.zero_le _) hall.admitted

/-- A run of `readStagedFile` that takes the file. -/
theorem readStagedFile_run {path : Location} {maxSize size n : Nat} {kind : Kind} {d : Disk}
    {handoff : HandoffData} {data : List UInt8} (hfile : d.tree path = some .file)
    (hregular : ω.regular path = true) (hopen : ω.openFile n path = true)
    (hfstat : ω.fstat (n + 1) = some size) (hread : ω.read (n + 2) = (data, false))
    (hsize : size ≤ maxSize) (hbudget : handoff.stagedBytes + size ≤ maxTotalAttachmentBytes)
    (hdata : data.length ≤ maxSize) :
    readStagedFile path maxSize kind handoff ω (n, d) =
      ((.data data, { handoff with stagedBytes := handoff.stagedBytes + data.length }),
        (n + 3, { d with opened := d.opened ++ [path] }.remove path)) := by
  have hopened : openFile path ω (n, d) =
      (true, (n + 1, { d with opened := d.opened ++ [path] })) := by
    rw [openFile, Act.ask_run]
    simp only [hfile, hopen, if_true]
  have hreg : ω.isRegular { d with opened := d.opened ++ [path] } path = true :=
    isRegular_iff.mpr ⟨hfile, hregular⟩
  have hinfo : fstat path ω (n + 1, { d with opened := d.opened ++ [path] }) =
      (some (true, size), (n + 2, { d with opened := d.opened ++ [path] })) := by
    rw [fstat, Act.ask_run]
    simp only [hfstat, hreg, Option.map_some]
  have htake : data.take (maxSize + 1) = data := List.take_of_length_le (by omega)
  have hbytes : readAll (maxSize + 1) ω (n + 2, { d with opened := d.opened ++ [path] }) =
      ((data, false), (n + 3, { d with opened := d.opened ++ [path] })) := by
    rw [readAll, Act.ask_run]
    simp only [hread, htake]
  rw [readStagedFile, Act.bind_run, hopened]
  simp only [Bool.not_true, Bool.false_eq_true, if_false]
  rw [Act.bind_run, hinfo]
  simp only [Bool.not_true, Bool.false_eq_true, if_false, if_neg (Nat.not_lt.mpr hsize),
    if_neg (Nat.not_lt.mpr hbudget)]
  rw [Act.bind_run, hbytes]
  simp only [Bool.false_eq_true, if_false, if_neg (Nat.not_lt.mpr hdata)]
  rfl

theorem resolveImagePaths_run {path : List UInt8} {rest : List (List UInt8)} {resolved : Location}
    {handoff handoff' : HandoffData} {data : List UInt8} {n : Nat} {d : Disk} {st : Nat × Disk}
    (hin : containedPath d.tree dataDir path = .inside resolved)
    (hread : readStagedFile resolved maxBinaryFileSize .image handoff ω (n, d) =
      ((.data data, handoff'), st)) :
    resolveImagePaths toLower dataDir (path :: rest) handoff ω (n, d) =
      resolveImagePaths toLower dataDir rest
        { handoff' with
          resolvedImages := handoff'.resolvedImages ++
            [⟨encodeToString data, mimeTypeFromExt toLower (ext resolved)⟩] } ω st := by
  rw [resolveImagePaths, Act.bind_run, Act.get_run]
  simp only [hin]
  rw [Act.bind_run, hread]

theorem resolveImages_run {handoff : HandoffData} (h : handoff.migrate.imagePaths ≠ [])
    (habs : isAbs dataDir = true) :
    resolveImages toLower dataDir handoff =
      resolveImagePaths toLower dataDir handoff.migrate.imagePaths
        { handoff.migrate with resolvedImages := handoff.migrate.images } := by
  rw [resolveImages]
  simp only
  rw [if_neg h, if_neg (by simp [habs])]

theorem resolveAttachments_run {handoff : HandoffData} (h : handoff.attachments = [])
    (st : Nat × Disk) :
    resolveAttachments toLower trimSpace dataDir handoff ω st = ((none, handoff), st) := by
  rw [resolveAttachments, if_pos h]
  rfl

end Loops

/-- Every file has three bytes. -/
def threeBytesEnv : FilesEnv :=
  { quietEnv with
    fstat := fun _ => some 3
    read := fun _ => ([97, 98, 99], false) }

/-- A request that is accepted, with one file: it is charged with three bytes, which is within the
budget, and so does not grow. -/
theorem staged_within_iff_oneImage :
    ∃ next handoff', (resolveImages (List.map asciiLower) [47, 100] oneImage threeBytesEnv
        (0, Disk.fresh stagedFile)).1 = (none, next) ∧
      (resolveAttachments (List.map asciiLower) trimSpace [47, 100] next threeBytesEnv
        (3, Disk.fresh [])).1 = (none, handoff') ∧
      handoff'.stagedBytes = 3 ∧
      ∃ images atts, Taken threeBytesEnv oneImage handoff' images atts ∧
        GrowthWithin 0 (images ++ atts) := by
  obtain ⟨next, hnext, hnone, hcharged⟩ : ∃ next, (resolveImages (List.map asciiLower) [47, 100]
      oneImage threeBytesEnv (0, Disk.fresh stagedFile)).1 = (none, next) ∧
        next.attachments = [] ∧ next.stagedBytes = 3 :=
    ⟨_, rfl, rfl, rfl⟩
  have hatts : (resolveAttachments (List.map asciiLower) trimSpace [47, 100] next threeBytesEnv
      (3, Disk.fresh [])).1 = (none, next) := by
    rw [resolveAttachments_run hnone]
  obtain ⟨images, atts, htaken, hwithin⟩ := staged_within_iff rfl rfl hnext hatts
  have hbudget : next.stagedBytes ≤ maxTotalAttachmentBytes := by
    rw [hcharged]
    decide
  exact ⟨next, next, hnext, hatts, hcharged, images, atts, htaken, hwithin.mp hbudget⟩

/-- Every file is empty when its size is asked for, and as long as its class allows when it is
read. -/
def growingEnv : FilesEnv :=
  { quietEnv with read := fun _ => (List.replicate maxBinaryFileSize 0, false) }

/-- `/d` with the files `f` and `g`. -/
def stagedFiles : List (Location × Entry Name) :=
  [([[100]], .dir), ([[100], [102]], .file), ([[100], [103]], .file)]

/-- A handoff with the image paths `f` and `g`. -/
def twoImages : HandoffData := { oneImage with imagePath := [], imagePaths := [[102], [103]] }

/-- An image is taken for empty, and charged for what it is then. -/
theorem growing_image (rest : List (List UInt8)) (handoff : HandoffData) (n : Nat)
    {path : List UInt8} {resolved : Location} {d : Disk}
    (hin : containedPath d.tree [47, 100] path = .inside resolved)
    (hfile : d.tree resolved = some .file)
    (hstaged : handoff.stagedBytes ≤ maxTotalAttachmentBytes) :
    ∃ handoff', resolveImagePaths (List.map asciiLower) [47, 100] (path :: rest) handoff growingEnv
        (n, d) =
      resolveImagePaths (List.map asciiLower) [47, 100] rest handoff' growingEnv
        (n + 3, { d with opened := d.opened ++ [resolved] }.remove resolved) ∧
      handoff'.stagedBytes = handoff.stagedBytes + maxBinaryFileSize ∧
      handoff'.attachments = handoff.attachments := by
  have hlen : (List.replicate maxBinaryFileSize (0 : UInt8)).length = maxBinaryFileSize :=
    List.length_replicate
  exact ⟨_, resolveImagePaths_run hin (readStagedFile_run hfile rfl rfl rfl rfl (Nat.zero_le _)
    hstaged (Nat.le_of_eq hlen)), congrArg (handoff.stagedBytes + ·) hlen, rfl⟩

/-- **Two images that grow** come to 40 MiB: each is empty when its size is asked for, and is then
read up to the limit of its class. -/
theorem budget_overrun :
    ∃ next handoff', (resolveImages (List.map asciiLower) [47, 100] twoImages growingEnv
        (0, Disk.fresh stagedFiles)).1 = (none, next) ∧
      (resolveAttachments (List.map asciiLower) trimSpace [47, 100] next growingEnv
        (6, Disk.fresh [])).1 = (none, handoff') ∧
      maxTotalAttachmentBytes < handoff'.stagedBytes := by
  have hinside : containedPath (Disk.fresh stagedFiles).tree [47, 100] [102] =
      .inside [[100], [102]] := by decide +kernel
  have hinside' : containedPath (Disk.mk [([[100]], .dir), ([[100], [103]], .file)]
      [[[100], [102]]] [[[100], [102]]]).tree [47, 100] [103] = .inside [[100], [103]] := by
    decide +kernel
  have hpaths : twoImages.migrate.imagePaths = [[102], [103]] := rfl
  rw [resolveImages_run (by decide) (by decide), hpaths]
  obtain ⟨first, hfirst, hbytes, hnone⟩ := growing_image [[103]]
    { twoImages.migrate with resolvedImages := twoImages.migrate.images } 0 hinside rfl
    (Nat.zero_le _)
  have hspent : first.stagedBytes = maxBinaryFileSize := hbytes.trans (Nat.zero_add _)
  obtain ⟨second, hsecond, hbytes', hnone'⟩ := growing_image [] first 3 hinside' rfl
    (hspent ▸ by decide)
  have hatts : (resolveAttachments (List.map asciiLower) trimSpace [47, 100] second growingEnv
      (6, Disk.fresh [])).1 = (none, second) := by
    rw [resolveAttachments_run (hnone'.trans hnone)]
  refine ⟨second, second, ?_, hatts, ?_⟩
  · rw [hfirst]
    exact congrArg Prod.fst hsecond
  · rw [hbytes', hspent]
    decide

end SocketHandoff.Go.Staged
