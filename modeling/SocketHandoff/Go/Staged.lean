import SocketHandoff.Go.Contained
import SocketHandoff.Go.Content
import SocketHandoff.Lib.Act

/-!
# Staged files

PHP leaves the files of a request in the data directory and refers to them in the handoff. The parts
of `streaming_daemon.go` that read them and remove them: `readStagedFile`, `resolveImages`,
`resolveAttachments`, `discardStagedFiles`, and what `handleConnection` and `rejectHandoff` do with
them. The file system is the state; what the kernel answers beyond it is the environment.
-/

namespace SocketHandoff.Go

open Apache (Name)

/-- `handoff.ResolvedAttachments[name] = att`: an entry of that name is replaced. That no name is
there twice is a field of the attachments, so that a look-up is what the map would return. -/
def Attachments.insert (attachments : Attachments) (name : List UInt8) (att : ResolvedAttachment) :
    Attachments where
  entries := attachments.entries.filter (·.1 ≠ name) ++ [(name, att)]
  nodup := by
    rw [List.map_append, List.nodup_append]
    refine ⟨attachments.nodup.sublist ((List.filter_sublist ..).map _), by simp, ?_⟩
    intro a ha b hb
    obtain ⟨e, he, rfl⟩ := List.mem_map.mp ha
    obtain rfl := List.mem_singleton.mp hb
    simpa using (List.mem_filter.mp he).2

namespace Staged

abbrev Location := List Name

/-! ## The disk -/

/-- What is on the disk, and which files the daemon has opened and removed. -/
structure Disk where
  entries : List (Location × Entry Name)
  opened : List Location
  removed : List Location

/-- A disk on which nothing has been done yet. -/
def Disk.fresh (entries : List (Location × Entry Name)) : Disk := ⟨entries, [], []⟩

def Disk.tree (d : Disk) : Tree Name := fun loc => d.entries.lookup loc

/-- There is nothing below a directory. -/
def Disk.isEmpty (d : Disk) (loc : Location) : Bool :=
  d.entries.all fun e => !(loc.isPrefixOf e.1 && e.1 ≠ loc)

def Disk.erase (d : Disk) (loc : Location) : Disk :=
  { d with entries := d.entries.filter (·.1 ≠ loc), removed := d.removed ++ [loc] }

/-- `unlink`, and `rmdir` for a directory, which has to be empty. -/
def Disk.remove (d : Disk) (loc : Location) : Disk :=
  match d.tree loc with
  | none => d
  | some .dir => if d.isEmpty loc then d.erase loc else d
  | some _ => d.erase loc

/-- What the kernel answers, and in which order Go goes through a map. -/
structure FilesEnv where
  /-- the files that are regular -/
  regular : Location → Bool
  openFile : Nat → Location → Bool
  /-- the size that `fstat` finds -/
  fstat : Nat → Option Nat
  /-- what reading a file yields, and whether it ends with an error -/
  read : Nat → List UInt8 × Bool
  range : Nat → (m : List (List UInt8 × List UInt8)) → { order // List.Perm order m }

/-- Code of the daemon that works with files. -/
abbrev Files := Act FilesEnv Disk

/-- `Mode().IsRegular()`. -/
def FilesEnv.isRegular (ω : FilesEnv) (d : Disk) (loc : Location) : Bool :=
  match d.tree loc with
  | some .file => ω.regular loc
  | _ => false

/-- `os.Remove`. -/
def osRemove (loc : Location) : Files Unit := Act.modify (·.remove loc)

/-- `os.OpenFile` with `O_NOFOLLOW`. -/
def openFile (loc : Location) : Files Bool :=
  Act.ask fun ω n d =>
    match d.tree loc with
    | some .dir | some .file =>
      if ω.openFile n loc then (true, { d with opened := d.opened ++ [loc] }) else (false, d)
    | _ => (false, d)

/-- `f.Stat()`: whether it is a regular file, and its size. -/
def fstat (loc : Location) : Files (Option (Bool × Nat)) :=
  Act.ask fun ω n d => ((ω.fstat n).map fun size => (ω.isRegular d loc, size), d)

/-- `io.ReadAll(io.LimitReader(f, limit))`. -/
def readAll (limit : Nat) : Files (List UInt8 × Bool) :=
  Act.ask fun ω n d => (((ω.read n).1.take limit, (ω.read n).2), d)

/-- `range` over a map. -/
def range (m : List (List UInt8 × List UInt8)) : Files (List (List UInt8 × List UInt8)) :=
  Act.ask fun ω n d => ((ω.range n m).1, d)

/-! ## The handoff -/

/-- The fields of `HandoffData` about images and attachments. -/
structure HandoffData where
  images : List ImageData
  imagePath : List UInt8
  imageBase64 : List UInt8
  imageMimeType : List UInt8
  imagePaths : List (List UInt8)
  /-- from the name of a reference to a path -/
  attachments : List (List UInt8 × List UInt8)
  attachmentTypes : List (List UInt8 × List UInt8)
  resolvedImages : List ImageData
  resolvedAttachments : Attachments
  stagedBytes : Nat

/-- The kinds of files in messages. -/
inductive Kind
  | image
  | textFile
  | binaryFile
  deriving DecidableEq

/-- The errors that end a request. -/
inductive StagedError
  | notConfigured
  | outside
  | tooLarge (kind : Kind)
  | tooLargeDuringRead (kind : Kind)
  | totalTooLarge
  | emptyType
  | unknownExtension
  | invalidUTF8
  deriving DecidableEq

/-- What `readStagedFile` returns. -/
inductive ReadFile
  | data (bytes : List UInt8)
  | skip
  | failed (err : StagedError)

def maxTextFileSize : Nat := 1048576

def maxBinaryFileSize : Nat := 20971520

/-- `config.MaxTotalAttachmentBytes`. -/
def maxTotalAttachmentBytes : Nat := 33554432

/-- `readStagedFile`; a file that could not be removed is only logged. -/
def readStagedFile (path : Location) (maxSize : Nat) (kind : Kind) (handoff : HandoffData) :
    Files (ReadFile × HandoffData) := do
  if !(← openFile path) then return (.skip, handoff)
  else
    match ← fstat path with
    | none => return (.skip, handoff)
    | some (regular, size) =>
      if !regular then return (.skip, handoff)
      else if maxSize < size then
        osRemove path
        return (.failed (.tooLarge kind), handoff)
      else if maxTotalAttachmentBytes < handoff.stagedBytes + size then
        osRemove path
        return (.failed .totalTooLarge, handoff)
      else
        let (data, err) ← readAll (maxSize + 1)
        if maxSize < data.length then
          osRemove path
          return (.failed (.tooLargeDuringRead kind), handoff)
        else if err then return (.skip, handoff)
        else
          osRemove path
          return (.data data, { handoff with stagedBytes := handoff.stagedBytes + data.length })

/-! ## Types of files -/

/-- `filepath.Ext` of a cleaned path: from the last dot of the last name on. -/
def ext (path : Location) : List UInt8 :=
  match path.getLast? with
  | none => []
  | some name =>
    if 46 ∈ name then 46 :: (name.reverse.takeWhile (· ≠ 46)).reverse else []

/-- The digits of `base64.StdEncoding`. -/
def base64Digit (n : Nat) : UInt8 :=
  if n < 26 then UInt8.ofNat (65 + n)
  else if n < 52 then UInt8.ofNat (71 + n)
  else if n < 62 then UInt8.ofNat (n - 4)
  else if n = 62 then 43 else 47

/-- `base64.StdEncoding.EncodeToString`: three bytes are four digits, and one or two bytes that are
left are filled up with `=`. -/
def encodeToString : List UInt8 → List UInt8
  | [] => []
  | [a] =>
    [base64Digit (a.toNat / 4), base64Digit (a.toNat % 4 * 16), 61, 61]
  | [a, b] =>
    [base64Digit (a.toNat / 4), base64Digit (a.toNat % 4 * 16 + b.toNat / 16),
      base64Digit (b.toNat % 16 * 4), 61]
  | a :: b :: c :: rest =>
    base64Digit (a.toNat / 4) :: base64Digit (a.toNat % 4 * 16 + b.toNat / 16) ::
      base64Digit (b.toNat % 16 * 4 + c.toNat / 64) :: base64Digit (c.toNat % 64) ::
      encodeToString rest

/-- `utf8.Valid`. -/
def utf8Valid (data : List UInt8) : Bool := (ByteArray.mk data.toArray).validateUTF8

section Types

variable (toLower trimSpace : List UInt8 → List UInt8)

/-- `mimeTypeFromExt`. -/
def mimeTypeFromExt (ext : List UInt8) : List UInt8 :=
  let ext := toLower ext
  if ext = ascii ".png" then ascii "image/png"
  else if ext = ascii ".gif" then ascii "image/gif"
  else if ext = ascii ".webp" then ascii "image/webp"
  else ascii "image/jpeg"

/-- The types that `fileTypeFromExt` knows, and which of them are texts. -/
def fileTypes : List (List UInt8 × List UInt8 × Bool) :=
  [(ascii ".png", ascii "image/png", false), (ascii ".gif", ascii "image/gif", false),
    (ascii ".webp", ascii "image/webp", false), (ascii ".jpg", ascii "image/jpeg", false),
    (ascii ".jpeg", ascii "image/jpeg", false), (ascii ".pdf", ascii "application/pdf", false),
    (ascii ".txt", ascii "text/plain", true), (ascii ".md", ascii "text/markdown", true),
    (ascii ".csv", ascii "text/csv", true), (ascii ".json", ascii "application/json", true),
    (ascii ".xml", ascii "text/xml", true), (ascii ".html", ascii "text/html", true),
    (ascii ".yaml", ascii "text/yaml", true), (ascii ".yml", ascii "text/yaml", true),
    (ascii ".log", ascii "text/plain", true)]

/-- `fileTypeFromExt`; `none` for an unknown extension. -/
def fileTypeFromExt (ext : List UInt8) : Option (List UInt8 × Bool) :=
  fileTypes.lookup (toLower ext)

/-- A media type without its parameters. -/
def withoutParameters (mediaType : List UInt8) : List UInt8 :=
  if 59 ∈ mediaType then trimSpace (mediaType.takeWhile (· ≠ 59)) else mediaType

/-- `mimeIsText`. -/
def mimeIsText (mimeType : List UInt8) : Bool :=
  let mediaType := withoutParameters trimSpace (toLower (trimSpace mimeType))
  (ascii "text/").isPrefixOf mediaType || mediaType = ascii "application/json" ||
    mediaType = ascii "application/xml" || mediaType = ascii "application/yaml"

/-- The type of an attachment: that of `attachment_types`, or the one of the extension. -/
def attachmentType (handoff : HandoffData) (refName : List UInt8) (resolved : Location) :
    Except StagedError (List UInt8 × Bool) :=
  match handoff.attachmentTypes.lookup refName with
  | some override =>
    let mimeType := withoutParameters trimSpace (trimSpace override)
    if mimeType = [] then .error .emptyType else .ok (mimeType, mimeIsText toLower trimSpace override)
  | none =>
    match fileTypeFromExt toLower (ext resolved) with
    | none => .error .unknownExtension
    | some type => .ok type

end Types

/-! ## Images and attachments -/

section Resolve

variable (toLower trimSpace : List UInt8 → List UInt8) (dataDir : List UInt8)

/-- The fields for one image become those for several, so that what follows has only one form to
look at. The fields for one image are empty afterwards, and an image without a type is a JPEG. -/
def HandoffData.migrate (handoff : HandoffData) : HandoffData :=
  { handoff with
    images :=
      if handoff.imageBase64 = [] then handoff.images
      else
        let mime := if handoff.imageMimeType = [] then ascii "image/jpeg" else handoff.imageMimeType
        handoff.images ++ [⟨handoff.imageBase64, mime⟩]
    imageBase64 := []
    imageMimeType := if handoff.imageBase64 = [] then handoff.imageMimeType else []
    imagePaths :=
      if handoff.imagePath = [] then handoff.imagePaths
      else handoff.imagePaths ++ [handoff.imagePath]
    imagePath := [] }

/-- The loop of `resolveImages`. A path that leads out of the directory ends it, and the request is
rejected; one that leads nowhere, or whose file cannot be read, is only left out. -/
def resolveImagePaths : List (List UInt8) → HandoffData → Files (Option StagedError × HandoffData)
  | [], handoff => return (none, handoff)
  | path :: rest, handoff => do
    match containedPath (← Act.get).tree dataDir path with
    | .outside => return (some .outside, handoff)
    | .failed => resolveImagePaths rest handoff
    | .inside resolved =>
      match ← readStagedFile resolved maxBinaryFileSize .image handoff with
      | (.failed err, handoff) => return (some err, handoff)
      | (.skip, handoff) => resolveImagePaths rest handoff
      | (.data data, handoff) =>
        let image := ⟨encodeToString data, mimeTypeFromExt toLower (ext resolved)⟩
        resolveImagePaths rest
          { handoff with resolvedImages := handoff.resolvedImages ++ [image] }

/-- `resolveImages`. -/
def resolveImages (handoff : HandoffData) : Files (Option StagedError × HandoffData) :=
  let handoff := handoff.migrate
  let handoff := { handoff with resolvedImages := handoff.images }
  if handoff.imagePaths = [] then return (none, handoff)
  else if !isAbs dataDir then return (some .notConfigured, handoff)
  else resolveImagePaths toLower dataDir handoff.imagePaths handoff

/-- The loop of `resolveAttachments`, in the order in which the map is gone through. An attachment
whose type is not known is removed before the request is rejected; text that is not UTF-8 is
rejected once it has been read. -/
def resolveReferences :
    List (List UInt8 × List UInt8) → HandoffData → Files (Option StagedError × HandoffData)
  | [], handoff => return (none, handoff)
  | (refName, relPath) :: rest, handoff => do
    match containedPath (← Act.get).tree dataDir (join dataDir relPath) with
    | .outside => return (some .outside, handoff)
    | .failed => resolveReferences rest handoff
    | .inside resolved =>
      match attachmentType toLower trimSpace handoff refName resolved with
      | .error .unknownExtension =>
        osRemove resolved
        return (some .unknownExtension, handoff)
      | .error err => return (some err, handoff)
      | .ok (mimeType, isText) =>
        let maxSize := if isText then maxTextFileSize else maxBinaryFileSize
        let kind := if isText then .textFile else .binaryFile
        match ← readStagedFile resolved maxSize kind handoff with
        | (.failed err, handoff) => return (some err, handoff)
        | (.skip, handoff) => resolveReferences rest handoff
        | (.data data, handoff) =>
          if isText && !utf8Valid data then return (some .invalidUTF8, handoff)
          else
            let att := ⟨mimeType, isText, if isText then [] else encodeToString data,
              if isText then data else []⟩
            resolveReferences rest
              { handoff with
                resolvedAttachments := handoff.resolvedAttachments.insert refName att }

/-- `resolveAttachments`. -/
def resolveAttachments (handoff : HandoffData) : Files (Option StagedError × HandoffData) :=
  if handoff.attachments = [] then return (none, handoff)
  else if !isAbs dataDir then return (some .notConfigured, handoff)
  else do
    let order ← range handoff.attachments
    resolveReferences toLower trimSpace dataDir order
      { handoff with resolvedAttachments := ⟨[], by simp⟩ }

/-- `os.Remove` of what `os.Lstat` finds to be a regular file. -/
def discardFile (resolved : Location) : Files Unit :=
  Act.ask fun ω _ d => ((), if ω.isRegular d resolved then d.remove resolved else d)

/-- The loop of `discardStagedFiles`. -/
def discardPaths : List (List UInt8) → Files Unit
  | [] => return ()
  | p :: rest => do
    match containedPath (← Act.get).tree dataDir p with
    | .inside resolved =>
      discardFile resolved
      discardPaths rest
    | .outside | .failed => discardPaths rest

/-- `discardStagedFiles`. -/
def discardStagedFiles (handoff : HandoffData) : Files Unit :=
  if !isAbs dataDir then return ()
  else do
    let order ← range handoff.attachments
    discardPaths dataDir (handoff.imagePaths ++
      (if handoff.imagePath = [] then [] else [handoff.imagePath]) ++
      order.map fun e => join dataDir e.2)

/-! ## Connections -/

/-- How far a handoff gets before its files are looked at. -/
inductive Arrival
  /-- `rejectHandoff`: the limit is reached, or the daemon is shutting down -/
  | rejected
  /-- its descriptor is no client connection -/
  | unusable
  /-- `json.Unmarshal` returns an error -/
  | malformed
  | parsed
  deriving DecidableEq

/-- How a connection ends, as far as its files are concerned. -/
inductive Ended
  | rejected
  | unusable
  | malformed
  | imagesRejected
  | attachmentsRejected
  /-- the backend is asked for a stream -/
  | served
  deriving DecidableEq

/-- What `rejectHandoff` or `handleConnection` does with the files of a handoff. For data that
cannot be parsed, or is not looked at, `handoff` is what its text says. -/
def handleConnection (arrival : Arrival) (handoff : HandoffData) : Files Ended :=
  match arrival with
  | .rejected => return .rejected
  | .unusable => return .unusable
  | .malformed => return .malformed
  | .parsed => do
    match ← resolveImages toLower dataDir handoff with
    | (some _, handoff) =>
      discardStagedFiles dataDir handoff
      return .imagesRejected
    | (none, handoff) =>
      match ← resolveAttachments toLower trimSpace dataDir handoff with
      | (some _, handoff) =>
        discardStagedFiles dataDir handoff
        return .attachmentsRejected
      | (none, _) => return .served

end Resolve

end Staged

end SocketHandoff.Go
