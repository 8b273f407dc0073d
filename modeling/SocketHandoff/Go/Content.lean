import SocketHandoff.Go.Encode
import Mathlib.Data.List.Dedup

/-!
# The content of a message

The three builders that put attachments and images into the content of the last message:
`appendContentWithAttachments` and `appendMultimodalContent` of `backends/langgraph.go`, where the
content is a text, and `prependAttachmentsToContentArray` of `backends/langgraph_v2.go`, where it is
an array already. Whether a file is an image is decided by its MIME type in lower case; the tables
of `strings.ToLower` are a parameter.
-/

namespace SocketHandoff.Go

open Json

/-! ## Data -/

/-- `ResolvedAttachment`. -/
structure ResolvedAttachment where
  mimeType : List UInt8
  isText : Bool
  base64 : List UInt8
  text : List UInt8
  deriving DecidableEq

/-- `ImageData`. -/
structure ImageData where
  base64 : List UInt8
  mimeType : List UInt8
  deriving DecidableEq

/-- `ResolvedAttachments`: a map from the names of references, in any order. -/
structure Attachments where
  entries : List (List UInt8 × ResolvedAttachment)
  nodup : (entries.map Prod.fst).Nodup

def Attachments.get? (attachments : Attachments) (name : List UInt8) : Option ResolvedAttachment :=
  attachments.entries.lookup name

def Attachments.names (attachments : Attachments) : List (List UInt8) :=
  attachments.entries.map Prod.fst

/-- The names in the order of `sort.Strings`. -/
def sortStrings (names : List (List UInt8)) : List (List UInt8) :=
  names.mergeSort fun a b => decide (a ≤ b)

/-- `contentPart`. -/
structure ContentPart where
  text : List UInt8
  attachment : Option ResolvedAttachment
  refName : List UInt8

/-! ## Placeholders -/

/-- The loop of `parsePlaceholders`, on the text from `i` on. A name in braces that is no attachment
stays text, with its braces, and the text before it is in the same part; behind the last pair of
braces what remains is one part. -/
def parsePlaceholdersFrom (attachments : Attachments) (text : List UInt8) : List ContentPart :=
  if text = [] then []
  else
    match text.findIdx? (· = 123) with
    | none => [⟨text, none, []⟩]
    | some opening =>
      match (text.drop (opening + 1)).findIdx? (· = 125) with
      | none => [⟨text, none, []⟩]
      | some length =>
        let refName := (text.drop (opening + 1)).take length
        let closing := opening + 1 + length
        let rest := parsePlaceholdersFrom attachments (text.drop (closing + 1))
        match attachments.get? refName with
        | none => ⟨text.take (closing + 1), none, []⟩ :: rest
        | some att =>
          (if 0 < opening then [⟨text.take opening, none, []⟩] else []) ++
            (if att.isText then ⟨att.text, none, refName⟩ else ⟨[], some att, refName⟩) :: rest
termination_by text.length
decreasing_by
  have hpos := List.length_pos_iff.mpr ‹text ≠ []›
  rw [List.length_drop]
  omega

/-- `parsePlaceholders`. -/
def parsePlaceholders (text : List UInt8) (attachments : Attachments) : List ContentPart :=
  if attachments.entries = [] then [⟨text, none, []⟩]
  else
    let parts := parsePlaceholdersFrom attachments text
    if parts = [] then [⟨[], none, []⟩] else parts

/-! ## Parts -/

def appendTextPart (buf text : List UInt8) : List UInt8 :=
  appendJSONEscaped (buf ++ ascii "\x7b\"type\":\"text\",\"text\":\"") text ++ ascii "\"\x7d"

def appendImagePart (buf mimeType base64Data : List UInt8) : List UInt8 :=
  let buf := appendJSONEscaped
    (buf ++ ascii "\x7b\"type\":\"image_url\",\"image_url\":\x7b\"url\":\"data:") mimeType
  appendJSONEscaped (buf ++ ascii ";base64,") base64Data ++ ascii "\"\x7d\x7d"

def appendDocumentPart (buf mimeType base64Data : List UInt8) : List UInt8 :=
  let buf := appendJSONEscaped (buf ++ ascii
    "\x7b\"type\":\"document\",\"source\":\x7b\"type\":\"base64\",\"media_type\":\"") mimeType
  appendJSONEscaped (buf ++ ascii "\",\"data\":\"") base64Data ++ ascii "\"\x7d\x7d"

section Builders

variable (toLower : List UInt8 → List UInt8)

/-- `isImageMime`. -/
def isImageMime (mimeType : List UInt8) : Bool := (ascii "image/").isPrefixOf (toLower mimeType)

/-- The MIME type of an image, with its default. -/
def ImageData.mime (img : ImageData) : List UInt8 :=
  if img.mimeType = [] then ascii "image/jpeg" else img.mimeType

/-! ## `appendMultimodalContent` -/

/-- The loop over the images, from the second one on. -/
def appendImages (buf : List UInt8) : List ImageData → List UInt8
  | [] => buf
  | img :: rest => appendImages (appendImagePart (buf ++ [44]) img.mime img.base64) rest

def appendMultimodalContent (buf text : List UInt8) (images : List ImageData) : List UInt8 :=
  match images with
  | [] => appendJSONEscaped (buf ++ [34]) text ++ [34]
  | img :: rest =>
    let buf := appendImages (appendImagePart (buf ++ [91]) img.mime img.base64) rest
    appendTextPart (buf ++ [44]) text ++ [93]

/-! ## `appendContentWithAttachments` -/

/-- The array while it is built. -/
structure ContentArray where
  buf : List UInt8
  first : Bool
  textAccum : List UInt8

/-- The buffer with the comma that goes before the next part. -/
def ContentArray.comma (st : ContentArray) : List UInt8 :=
  if st.first then st.buf else st.buf ++ [44]

def ContentArray.flushText (st : ContentArray) : ContentArray :=
  if st.textAccum = [] then st else ⟨appendTextPart st.comma st.textAccum, false, []⟩

def ContentArray.appendImageURL (st : ContentArray) (mimeType base64Data : List UInt8) :
    ContentArray :=
  let st := st.flushText
  ⟨appendImagePart st.comma mimeType base64Data, false, st.textAccum⟩

def ContentArray.appendDocument (st : ContentArray) (mimeType base64Data : List UInt8) :
    ContentArray :=
  let st := st.flushText
  ⟨appendDocumentPart st.comma mimeType base64Data, false, st.textAccum⟩

def ContentArray.writeString (st : ContentArray) (s : List UInt8) : ContentArray :=
  { st with textAccum := st.textAccum ++ s }

def ContentArray.appendBinary (contentFormat : List UInt8) (st : ContentArray)
    (mimeType base64Data refName : List UInt8) : ContentArray :=
  if contentFormat = ascii "anthropic" then
    if isImageMime toLower mimeType then st.appendImageURL mimeType base64Data
    else st.appendDocument mimeType base64Data
  else if isImageMime toLower mimeType then st.appendImageURL mimeType base64Data
  else if refName ≠ [] then st.writeString (123 :: (refName ++ [125]))
  else st

/-- `willEmitBinary`. -/
def willEmitBinary (contentFormat mimeType : List UInt8) : Bool :=
  if isImageMime toLower mimeType then true else contentFormat = ascii "anthropic"

/-- The names used by placeholders. -/
def referenced (parts : List ContentPart) : List (List UInt8) :=
  ((parts.map ContentPart.refName).filter (· ≠ [])).dedup

/-- The attachments that no placeholder uses, in the order of their names. -/
def unreferenced (attachments : Attachments) (parts : List ContentPart) :
    List ResolvedAttachment :=
  if (referenced parts).length < attachments.entries.length then
    (sortStrings (attachments.names.filter (· ∉ referenced parts))).filterMap attachments.get?
  else []

/-- The text of a part where no array is needed. -/
def plainText (p : ContentPart) : List UInt8 :=
  match p.attachment with
  | some att => if att.isText then p.text else 123 :: (p.refName ++ [125])
  | none => p.text

/-- What the loop over the parts does with one. -/
def ContentArray.appendPart (contentFormat : List UInt8) (st : ContentArray) (p : ContentPart) :
    ContentArray :=
  match p.attachment with
  | some att => st.appendBinary toLower contentFormat att.mimeType att.base64 p.refName
  | none => st.writeString p.text

def appendContentWithAttachments (buf text : List UInt8) (attachments : Attachments)
    (legacyImages : List ImageData) (contentFormat : List UInt8) : List UInt8 :=
  let parts := parsePlaceholders text attachments
  let unreferencedBinaries := (unreferenced attachments parts).filter (!·.isText)
  let unreferencedText := (unreferenced attachments parts).filter (·.isText)
  let hasBinaryPart := legacyImages ≠ [] ∨
    (unreferencedBinaries.any fun att => willEmitBinary toLower contentFormat att.mimeType) ∨
    parts.any fun p => p.attachment.any fun att =>
      willEmitBinary toLower contentFormat att.mimeType
  if ¬ hasBinaryPart then
    let buf := parts.foldl (fun buf p => appendJSONEscaped buf (plainText p)) (buf ++ [34])
    unreferencedText.foldl (fun buf att => appendJSONEscaped buf att.text) buf ++ [34]
  else
    let st : ContentArray := ⟨buf ++ [91], true, []⟩
    let st := unreferencedBinaries.foldl
      (fun st att => st.appendBinary toLower contentFormat att.mimeType att.base64 []) st
    let st := legacyImages.foldl
      (fun st img => st.appendBinary toLower contentFormat img.mime img.base64 []) st
    let st := parts.foldl (fun st p => st.appendPart toLower contentFormat p) st
    let st := unreferencedText.foldl (fun st att => st.writeString att.text) st
    st.flushText.buf ++ [93]

/-! ## `prependAttachmentsToContentArray` -/

/-- `appendBinaryPart`, on `prependParts`; the first part is the one that finds them empty. -/
def appendBinaryPart (contentFormat prependParts mimeType base64Data : List UInt8) : List UInt8 :=
  let prependParts := if prependParts = [] then prependParts else prependParts ++ [44]
  if contentFormat = ascii "anthropic" ∧ isImageMime toLower mimeType = false then
    appendDocumentPart prependParts mimeType base64Data
  else appendImagePart prependParts mimeType base64Data

/-- `bytes.TrimSpace`; there is no white space other than ASCII between the tokens of JSON. -/
def trimSpace (text : List UInt8) : List UInt8 :=
  ((text.dropWhile isSpace).reverse.dropWhile isSpace).reverse

def prependAttachmentsToContentArray (existingArray : List UInt8) (resolved : Attachments)
    (images : List ImageData) (contentFormat : List UInt8) : List UInt8 :=
  if resolved.entries = [] ∧ images = [] then existingArray
  else
    let prependParts := images.foldl
      (fun parts img => appendBinaryPart toLower contentFormat parts img.mime img.base64) []
    let (prependParts, textParts) := ((sortStrings resolved.names).filterMap resolved.get?).foldl
      (fun parts att =>
        if att.isText then (parts.1, appendJSONEscaped parts.2 att.text)
        else (appendBinaryPart toLower contentFormat parts.1 att.mimeType att.base64, parts.2))
      (prependParts, [])
    let inner := trimSpace existingArray.tail
    let inner := trimSpace inner.dropLast
    let result := 91 :: prependParts
    let result := if inner = [] then result
      else (if prependParts = [] then result else result ++ [44]) ++ inner
    let result := if textParts = [] then result
      else (if 1 < result.length then result ++ [44] else result) ++
        ascii "\x7b\"type\":\"text\",\"text\":\"" ++ textParts ++ ascii "\"\x7d"
    result ++ [93]

end Builders

/-! ## Parts as values -/

/-- A part of a content array. -/
inductive Item
  | text (s : List UInt8)
  | image (mimeType base64Data : List UInt8)
  | document (mimeType base64Data : List UInt8)

def Item.isBinary : Item → Bool
  | .text _ => false
  | _ => true

/-- The part as JSON: the value that the bytes which are appended for it have to spell. Where the
bytes are compared with the content as it was meant, it is through these values. -/
def Item.value : Item → Value
  | .text s => .object [(ascii "type", .string (ascii "text")), (ascii "text", .string s)]
  | .image mimeType base64Data =>
    .object [(ascii "type", .string (ascii "image_url")), (ascii "image_url",
      .object [(ascii "url",
        .string (ascii "data:" ++ (mimeType ++ (ascii ";base64," ++ base64Data))))])]
  | .document mimeType base64Data =>
    .object [(ascii "type", .string (ascii "document")), (ascii "source",
      .object [(ascii "type", .string (ascii "base64")),
        (ascii "media_type", .string mimeType), (ascii "data", .string base64Data)])]

/-- What is appended for the part. -/
def Item.append (buf : List UInt8) : Item → List UInt8
  | .text s => appendTextPart buf s
  | .image mimeType base64Data => appendImagePart buf mimeType base64Data
  | .document mimeType base64Data => appendDocumentPart buf mimeType base64Data

theorem Item.append_eq (buf : List UInt8) (i : Item) : i.append buf = buf ++ i.append [] := by
  cases i <;>
    simp only [Item.append, appendTextPart, appendImagePart, appendDocumentPart,
      appendJSONEscaped_eq, List.append_assoc] <;>
    rw [List.nil_append]

/-- A member whose name needs no escapes. -/
theorem readsMember_plain (name : List UInt8) {body : List UInt8} {v : Value} (hname : Plain name)
    (h : Reads body v) : ReadsMember (34 :: (name ++ 34 :: 58 :: body)) (name, v) :=
  ⟨name, body, rfl, decode_plain hname, h⟩

theorem reads_plain {s : List UInt8} (h : Plain s) : Reads (34 :: (s ++ [34])) (.string s) :=
  reads_string (decode_plain h)

/-- The text of a data URL. -/
theorem decode_dataURL (m b : List UInt8) :
    decode (ascii "data:" ++ (m.flatMap escapedByte ++ (ascii ";base64," ++
      b.flatMap escapedByte))) = some (ascii "data:" ++ (m ++ (ascii ";base64," ++ b))) := by
  have hdata : Spells (ascii "data:") (ascii "data:") := spells_plain (by simp [Plain, ascii])
  have hbase64 : Spells (ascii ";base64,") (ascii ";base64,") :=
    spells_plain (by simp [Plain, ascii])
  exact (hdata.append ((spells_flatMap spells_escapedByte m).append
    (hbase64.append (spells_flatMap spells_escapedByte b)))).decode

/-- A text part, however its text is written. -/
theorem reads_textPart {body s : List UInt8} (h : decode body = some s) :
    Reads (ascii "\x7b\"type\":\"text\",\"text\":\"" ++ (body ++ ascii "\"\x7d"))
      (Item.text s).value := by
  have hobj := reads_object (.cons (readsMember_plain (ascii "type")
    (by simp [Plain, ascii]) (reads_plain (s := ascii "text") (by simp [Plain, ascii])))
    (.cons (readsMember_plain (ascii "text") (by simp [Plain, ascii])
      (reads_string h)) .nil))
  rw [Item.value]
  convert hobj using 1
  simp [List.intercalate_cons_cons, ascii]

/-- **A part is read as its value**, by the JSON reader that the specification uses. Everything that
is said of the content is said of values from here on. -/
theorem Item.reads (i : Item) : Reads (i.append []) i.value := by
  have htype : Plain (ascii "type") := by simp [Plain, ascii]
  cases i with
  | text s =>
    have h := reads_textPart (decode_escaped s)
    rwa [Item.append, appendTextPart, appendJSONEscaped_eq, List.nil_append, List.append_assoc]
  | image m b =>
    have hurl := reads_object (.cons (readsMember_plain (ascii "url")
      (by simp [Plain, ascii]) (reads_string (decode_dataURL m b))) .nil)
    have h := reads_object (.cons (readsMember_plain _ htype
      (reads_plain (s := ascii "image_url") (by simp [Plain, ascii])))
      (.cons (readsMember_plain (ascii "image_url") (by simp [Plain, ascii]) hurl) .nil))
    rw [Item.value]
    convert h using 1
    rw [Item.append, appendImagePart, appendJSONEscaped_eq, appendJSONEscaped_eq]
    repeat rw [ascii_ofList]
    simp [List.intercalate_cons_cons]
  | document m b =>
    have hsource := reads_object (.cons (readsMember_plain _ htype
      (reads_plain (s := ascii "base64") (by simp [Plain, ascii])))
      (.cons (readsMember_plain (ascii "media_type") (by simp [Plain, ascii])
        (reads_quoted m)) (.cons (readsMember_plain (ascii "data")
          (by simp [Plain, ascii]) (reads_quoted b)) .nil)))
    have h := reads_object (.cons (readsMember_plain _ htype
      (reads_plain (s := ascii "document") (by simp [Plain, ascii])))
      (.cons (readsMember_plain (ascii "source") (by simp [Plain, ascii]) hsource) .nil))
    rw [Item.value]
    convert h using 1
    rw [Item.append, appendDocumentPart, appendJSONEscaped_eq, appendJSONEscaped_eq]
    repeat rw [ascii_ofList]
    simp [quoted, List.intercalate_cons_cons]

/-- A part that is not a text. -/
def isBinaryPart (v : Value) : Bool :=
  match v.get? (ascii "type") with
  | some (.string type) => type ≠ ascii "text"
  | _ => true

theorem isBinaryPart_value (i : Item) : isBinaryPart i.value = i.isBinary := by
  cases i <;>
    simp [isBinaryPart, Item.value, Item.isBinary, Value.get?, ascii]

theorem Item.distinct (i : Item) : i.value.Distinct := by
  cases i <;> simp [Item.value, Value.Distinct, DistinctMembers, ascii]

/-! ## Lists of parts -/

/-- The parts with commas between them. -/
def itemsText (items : List Item) : List UInt8 :=
  List.intercalate [44] (items.map fun i => i.append [])

theorem itemsText_concat (items : List Item) (i : Item) : itemsText (items ++ [i]) =
    (if items = [] then [] else itemsText items ++ [44]) ++ i.append [] := by
  rw [itemsText, List.map_append, List.map_singleton, intercalate_concat]
  simp [itemsText]

theorem itemsText_eq_nil {items : List Item} : itemsText items = [] ↔ items = [] := by
  constructor
  · intro h
    cases items with
    | nil => rfl
    | cons i items =>
      obtain ⟨tail, htail, -⟩ := intercalate_append (i.append [])
        (items.map fun i => i.append []) [] (by simp)
      have hlen := congrArg List.length htail
      have hpos := i.reads.length_pos
      rw [itemsText, List.map_cons] at h
      rw [h] at hlen
      simp only [List.length_append, List.length_nil] at hlen
      omega
  · rintro rfl
    rfl

/-- **An array of parts** is read as the array of their values. -/
theorem reads_items (items : List Item) :
    Reads (91 :: (itemsText items ++ [93])) (.array (items.map Item.value)) := by
  apply reads_array
  rw [List.forall₂_map_left_iff, List.forall₂_map_right_iff, List.forall₂_same]
  exact fun i _ => i.reads

/-- The parts that become of a list of parts when texts are gathered up to the next part that is
none, `acc` being the text gathered so far. -/
def gather (acc : List UInt8) : List Item → List Item
  | [] => if acc = [] then [] else [.text acc]
  | .text s :: rest => gather (acc ++ s) rest
  | i :: rest => (if acc = [] then [] else [.text acc]) ++ i :: gather [] rest

theorem gather_binary {i : Item} (h : i.isBinary = true) (acc : List UInt8) (rest : List Item) :
    gather acc (i :: rest) = (if acc = [] then [] else [.text acc]) ++ i :: gather [] rest := by
  cases i with
  | text s => cases h
  | image m b => rfl
  | document m b => rfl

/-- Gathering leaves the binary parts as they are. -/
theorem filter_gather (acc : List UInt8) (items : List Item) :
    (gather acc items).filter Item.isBinary = items.filter Item.isBinary := by
  induction items generalizing acc with
  | nil =>
    rw [gather]
    split <;> rfl
  | cons i items ih =>
    by_cases hi : i.isBinary = true
    · rw [gather_binary hi, List.filter_append, List.filter_cons_of_pos hi,
        List.filter_cons_of_pos hi, ih]
      split <;> rfl
    · cases i with
      | text s => rw [gather, ih, List.filter_cons_of_neg hi]
      | image m b => exact absurd rfl hi
      | document m b => exact absurd rfl hi

/-- What the builder does for a part. -/
def ContentArray.add (st : ContentArray) : Item → ContentArray
  | .text s => st.writeString s
  | .image mimeType base64Data => st.appendImageURL mimeType base64Data
  | .document mimeType base64Data => st.appendDocument mimeType base64Data

/-- The array under construction holds these parts. The text so far has no closing bracket yet, and
a comma stands before each part but the first. -/
structure ContentArray.Holds (st : ContentArray) (buf : List UInt8) (items : List Item) :
    Prop where
  buf : st.buf = buf ++ 91 :: itemsText items
  first : st.first = true ↔ items = []

section Gather

variable {st : ContentArray} {buf : List UInt8} {items : List Item}

theorem ContentArray.Holds.concat (h : st.Holds buf items) (i : Item) :
    i.append st.comma = buf ++ 91 :: itemsText (items ++ [i]) := by
  rw [Item.append_eq, itemsText_concat, ContentArray.comma, h.buf]
  by_cases hitems : items = []
  · rw [if_pos (h.first.mpr hitems), if_pos hitems]
    simp [hitems, itemsText]
  · rw [if_neg (fun e => hitems (h.first.mp e)), if_neg hitems]
    simp

theorem ContentArray.Holds.flushText (h : st.Holds buf items) :
    st.flushText.Holds buf (items ++ gather st.textAccum []) ∧ st.flushText.textAccum = [] := by
  rw [ContentArray.flushText, gather]
  split
  · exact ⟨by simpa using h, by assumption⟩
  · exact ⟨⟨h.concat (.text st.textAccum), by simp⟩, rfl⟩

/-- The parts are appended to what the array holds. -/
theorem ContentArray.Holds.foldl (h : st.Holds buf items) (more : List Item) :
    (more.foldl ContentArray.add st).flushText.Holds buf
      (items ++ gather st.textAccum more) := by
  induction more generalizing st items with
  | nil => exact h.flushText.1
  | cons i more ih =>
    rw [List.foldl_cons]
    -- a part that is no text goes behind the text gathered so far
    have hbinary : ∀ st' : ContentArray, st'.buf = i.append st.flushText.comma →
        st'.first = false → st'.textAccum = st.flushText.textAccum →
        (more.foldl ContentArray.add st').flushText.Holds buf
          (items ++ (gather st.textAccum [] ++ i :: gather [] more)) := by
      intro st' hbuf hfirst htext
      obtain ⟨hflush, hempty⟩ := h.flushText
      have hst' : st'.Holds buf (items ++ gather st.textAccum [] ++ [i]) :=
        ⟨by rw [hbuf, hflush.concat], by simp [hfirst]⟩
      have hrun := ih hst'
      rw [htext, hempty] at hrun
      simpa using hrun
    cases i with
    | text s => exact @ih (st.writeString s) _ ⟨h.buf, h.first⟩
    | image m b => exact hbinary _ rfl rfl rfl
    | document m b => exact hbinary _ rfl rfl rfl

end Gather

/-! ## What the builders write -/

section Content

variable (toLower : List UInt8 → List UInt8)

/-- The parts that `appendBinary` makes of a file. -/
def binaryItems (contentFormat mimeType base64Data refName : List UInt8) : List Item :=
  if isImageMime toLower mimeType then [.image mimeType base64Data]
  else if contentFormat = ascii "anthropic" then [.document mimeType base64Data]
  else if refName ≠ [] then [.text (123 :: (refName ++ [125]))]
  else []

theorem appendBinary_eq (contentFormat : List UInt8) (st : ContentArray)
    (mimeType base64Data refName : List UInt8) :
    st.appendBinary toLower contentFormat mimeType base64Data refName =
      (binaryItems toLower contentFormat mimeType base64Data refName).foldl .add st := by
  rw [ContentArray.appendBinary, binaryItems]
  cases isImageMime toLower mimeType with
  | true => simp [ContentArray.add]
  | false =>
    by_cases hformat : contentFormat = ascii "anthropic"
    · simp [hformat, ContentArray.add]
    · by_cases href : refName = []
      · simp [hformat, href]
      · simp [hformat, href, ContentArray.add]

def partItems (contentFormat : List UInt8) (p : ContentPart) : List Item :=
  match p.attachment with
  | some att => binaryItems toLower contentFormat att.mimeType att.base64 p.refName
  | none => [.text p.text]

theorem appendPart_eq (contentFormat : List UInt8) (st : ContentArray) (p : ContentPart) :
    st.appendPart toLower contentFormat p = (partItems toLower contentFormat p).foldl .add st := by
  rw [ContentArray.appendPart, partItems]
  cases p.attachment with
  | none => rfl
  | some att => exact appendBinary_eq toLower contentFormat st _ _ _

/-- All parts of a content array, before the texts are gathered. -/
def contentItems (text : List UInt8) (attachments : Attachments) (images : List ImageData)
    (contentFormat : List UInt8) : List Item :=
  let parts := parsePlaceholders text attachments
  ((unreferenced attachments parts).filter (!·.isText)).flatMap
      (fun att => binaryItems toLower contentFormat att.mimeType att.base64 []) ++
    images.flatMap (fun img => binaryItems toLower contentFormat img.mime img.base64 []) ++
    parts.flatMap (partItems toLower contentFormat) ++
    ((unreferenced attachments parts).filter (·.isText)).map fun att => .text att.text

/-- `hasBinaryPart`. -/
def HasBinaryPart (text : List UInt8) (attachments : Attachments) (images : List ImageData)
    (contentFormat : List UInt8) : Prop :=
  let parts := parsePlaceholders text attachments
  images ≠ [] ∨
    (((unreferenced attachments parts).filter (!·.isText)).any fun att =>
      willEmitBinary toLower contentFormat att.mimeType) ∨
    parts.any fun p => p.attachment.any fun att =>
      willEmitBinary toLower contentFormat att.mimeType

instance (text : List UInt8) (attachments : Attachments) (images : List ImageData)
    (contentFormat : List UInt8) :
    Decidable (HasBinaryPart toLower text attachments images contentFormat) :=
  inferInstanceAs (Decidable (_ ∨ _))

/-- The content where no array is needed. -/
def plainContent (text : List UInt8) (attachments : Attachments) : List UInt8 :=
  let parts := parsePlaceholders text attachments
  parts.flatMap plainText ++
    ((unreferenced attachments parts).filter (·.isText)).flatMap fun att => att.text

/-- The content that `appendContentWithAttachments` means. -/
def contentValue (text : List UInt8) (attachments : Attachments) (images : List ImageData)
    (contentFormat : List UInt8) : Value :=
  if HasBinaryPart toLower text attachments images contentFormat then
    .array ((gather [] (contentItems toLower text attachments images contentFormat)).map Item.value)
  else .string (plainContent text attachments)

/-- The text of that content. -/
def contentText (text : List UInt8) (attachments : Attachments) (images : List ImageData)
    (contentFormat : List UInt8) : List UInt8 :=
  if HasBinaryPart toLower text attachments images contentFormat then
    91 :: (itemsText (gather [] (contentItems toLower text attachments images contentFormat)) ++
      [93])
  else quoted (plainContent text attachments)

theorem reads_contentText (text : List UInt8) (attachments : Attachments)
    (images : List ImageData) (contentFormat : List UInt8) :
    Reads (contentText toLower text attachments images contentFormat)
      (contentValue toLower text attachments images contentFormat) := by
  rw [contentText, contentValue]
  split
  · exact reads_items _
  · exact reads_quoted _

theorem foldl_appendJSONEscaped {α : Type} (f : α → List UInt8) (xs : List α)
    (buf : List UInt8) : xs.foldl (fun buf x => appendJSONEscaped buf (f x)) buf =
      buf ++ (xs.flatMap f).flatMap escapedByte := by
  induction xs generalizing buf with
  | nil => simp
  | cons x xs ih =>
    rw [List.foldl_cons, ih, appendJSONEscaped_eq, List.flatMap_cons, List.flatMap_append,
      List.append_assoc]

/-- A loop over files is a loop over their parts. -/
theorem foldl_items {α : Type} (step : ContentArray → α → ContentArray) (items : α → List Item)
    (h : ∀ st x, step st x = (items x).foldl .add st) (xs : List α) (st : ContentArray) :
    xs.foldl step st = (xs.flatMap items).foldl .add st := by
  rw [List.foldl_flatMap]
  congr 1
  funext st x
  exact h st x

/-- **`appendContentWithAttachments` appends its content**, which does not depend on what stands in
the buffer before. The bytes behind the buffer are what the other results are about. -/
theorem appendContentWithAttachments_eq (buf text : List UInt8) (attachments : Attachments)
    (images : List ImageData) (contentFormat : List UInt8) :
    appendContentWithAttachments toLower buf text attachments images contentFormat =
      buf ++ contentText toLower text attachments images contentFormat := by
  rw [appendContentWithAttachments, contentText]
  simp only
  split
  · rename_i h
    have hplain : ¬ HasBinaryPart toLower text attachments images contentFormat := h
    rw [if_neg hplain, foldl_appendJSONEscaped, foldl_appendJSONEscaped, quoted, plainContent]
    simp
  · rename_i h
    have harray : HasBinaryPart toLower text attachments images contentFormat := not_not.mp h
    -- the four loops are one over all parts
    have hatts := foldl_items _ (fun att : ResolvedAttachment =>
      binaryItems toLower contentFormat att.mimeType att.base64 [])
      fun st att => appendBinary_eq toLower contentFormat st _ _ _
    have himages := foldl_items _ (fun img : ImageData =>
      binaryItems toLower contentFormat img.mime img.base64 [])
      fun st img => appendBinary_eq toLower contentFormat st _ _ _
    have hparts := foldl_items _ (partItems toLower contentFormat)
      fun st p => appendPart_eq toLower contentFormat st p
    have htexts := foldl_items (fun st (att : ResolvedAttachment) => st.writeString att.text)
      (fun att => [Item.text att.text]) fun st att => rfl
    have hstart : ContentArray.Holds ⟨buf ++ [91], true, []⟩ buf [] := ⟨rfl, by simp⟩
    have hrun := (hstart.foldl (contentItems toLower text attachments images contentFormat)).buf
    rw [contentItems, List.foldl_append, List.foldl_append, List.foldl_append, ← hatts, ← himages,
      ← hparts, List.map_eq_flatMap, ← htexts, List.nil_append] at hrun
    rw [if_pos harray, hrun, contentItems, List.map_eq_flatMap]
    simp

/-! ### `appendMultimodalContent` -/

def ImageData.item (img : ImageData) : Item := .image img.mime img.base64

/-- The content that `appendMultimodalContent` means. -/
def multimodalValue (text : List UInt8) (images : List ImageData) : Value :=
  if images = [] then .string text
  else .array ((images.map ImageData.item ++ [Item.text text]).map Item.value)

def multimodalText (text : List UInt8) (images : List ImageData) : List UInt8 :=
  if images = [] then quoted text
  else 91 :: (itemsText (images.map ImageData.item ++ [.text text]) ++ [93])

theorem reads_multimodalText (text : List UInt8) (images : List ImageData) :
    Reads (multimodalText text images) (multimodalValue text images) := by
  rw [multimodalText, multimodalValue]
  split
  · exact reads_quoted _
  · exact reads_items _

theorem appendImages_eq (buf : List UInt8) {items : List Item} (h : items ≠ [])
    (images : List ImageData) : appendImages (buf ++ itemsText items) images =
      buf ++ itemsText (items ++ images.map ImageData.item) := by
  induction images generalizing items with
  | nil => simp [appendImages]
  | cons img rest ih =>
    have hnext : appendImagePart (buf ++ itemsText items ++ [44]) img.mime img.base64 =
        buf ++ itemsText (items ++ [img.item]) := by
      rw [itemsText_concat, if_neg h]
      have happend := Item.append_eq (buf ++ itemsText items ++ [44]) img.item
      rw [ImageData.item, Item.append] at happend
      rw [happend]
      simp [ImageData.item]
    rw [appendImages, hnext, ih (by simp)]
    simp

theorem appendMultimodalContent_eq (buf text : List UInt8) (images : List ImageData) :
    appendMultimodalContent buf text images = buf ++ multimodalText text images := by
  cases images with
  | nil => simp [appendMultimodalContent, multimodalText, appendJSONEscaped_eq, quoted]
  | cons img rest =>
    have hfirst : appendImagePart (buf ++ [91]) img.mime img.base64 =
        buf ++ [91] ++ itemsText [img.item] := by
      rw [itemsText, List.map_singleton, List.intercalate_singleton]
      exact Item.append_eq (buf ++ [91]) img.item
    have htext := Item.append_eq (buf ++ [91] ++ itemsText ([img.item] ++ rest.map ImageData.item)
      ++ [44]) (.text text)
    rw [Item.append] at htext
    rw [appendMultimodalContent, hfirst, appendImages_eq _ (by simp)]
    rw [htext, multimodalText, if_neg (by simp), itemsText_concat, if_neg (by simp)]
    simp

/-! ### `prependAttachmentsToContentArray` -/

/-- The part that `appendBinaryPart` makes of a file. -/
def prependItem (contentFormat mimeType base64Data : List UInt8) : Item :=
  if contentFormat = ascii "anthropic" ∧ isImageMime toLower mimeType = false then
    .document mimeType base64Data
  else .image mimeType base64Data

theorem appendBinaryPart_eq (contentFormat : List UInt8) (items : List Item)
    (mimeType base64Data : List UInt8) :
    appendBinaryPart toLower contentFormat (itemsText items) mimeType base64Data =
      itemsText (items ++ [prependItem toLower contentFormat mimeType base64Data]) := by
  have hcomma : (if itemsText items = [] then itemsText items else itemsText items ++ [44]) =
      if items = [] then [] else itemsText items ++ [44] := by
    by_cases h : items = []
    · rw [if_pos (itemsText_eq_nil.mpr h), if_pos h, itemsText_eq_nil.mpr h]
    · rw [if_neg (mt itemsText_eq_nil.mp h), if_neg h]
  rw [appendBinaryPart, hcomma, itemsText_concat, prependItem]
  split
  · exact Item.append_eq _ (.document mimeType base64Data)
  · exact Item.append_eq _ (.image mimeType base64Data)

/-- The attachments in the order of their names. -/
def Attachments.sorted (attachments : Attachments) : List ResolvedAttachment :=
  (sortStrings attachments.names).filterMap attachments.get?

/-- The parts that are put before the elements of the array. -/
def prependItems (resolved : Attachments) (images : List ImageData) (contentFormat : List UInt8) :
    List Item :=
  images.map (fun img => prependItem toLower contentFormat img.mime img.base64) ++
    (resolved.sorted.filter (!·.isText)).map fun att =>
      prependItem toLower contentFormat att.mimeType att.base64

/-- The text that is put behind them. -/
def trailingText (resolved : Attachments) : List UInt8 :=
  (resolved.sorted.filter (·.isText)).flatMap fun att => att.text

/-- The two loops build the parts. -/
theorem foldl_prepend (contentFormat : List UInt8) (images : List ImageData) (items : List Item) :
    images.foldl (fun parts img =>
        appendBinaryPart toLower contentFormat parts img.mime img.base64) (itemsText items) =
      itemsText (items ++ images.map fun img =>
        prependItem toLower contentFormat img.mime img.base64) := by
  induction images generalizing items with
  | nil => simp
  | cons img rest ih =>
    rw [List.foldl_cons, appendBinaryPart_eq, ih]
    simp

theorem foldl_attachments (contentFormat : List UInt8) (atts : List ResolvedAttachment)
    (items : List Item) (texts : List UInt8) :
    atts.foldl (fun parts att =>
        if att.isText then (parts.1, appendJSONEscaped parts.2 att.text)
        else (appendBinaryPart toLower contentFormat parts.1 att.mimeType att.base64, parts.2))
      (itemsText items, texts) =
    (itemsText (items ++ (atts.filter (!·.isText)).map fun att =>
        prependItem toLower contentFormat att.mimeType att.base64),
      texts ++ ((atts.filter (·.isText)).flatMap fun att => att.text).flatMap escapedByte) := by
  induction atts generalizing items texts with
  | nil => simp
  | cons att rest ih =>
    rw [List.foldl_cons]
    cases htext : att.isText with
    | true =>
      simp only [if_true]
      rw [ih, appendJSONEscaped_eq]
      simp [htext]
    | false =>
      simp only [Bool.false_eq_true, if_false]
      rw [appendBinaryPart_eq, ih]
      simp [htext]

/-- The array with one text part, whose text is written as `body`. -/
def textArray (body : List UInt8) : List UInt8 :=
  91 :: (ascii "\x7b\"type\":\"text\",\"text\":\"" ++ (body ++ ascii "\"\x7d") ++ [93])

theorem trimSpace_self {c d : UInt8} {mid : List UInt8} (hc : isSpace c = false)
    (hd : isSpace d = false) : trimSpace (c :: (mid ++ [d])) = c :: (mid ++ [d]) := by
  have hfront : (c :: (mid ++ [d])).dropWhile isSpace = c :: (mid ++ [d]) := by
    rw [List.dropWhile_cons, if_neg (by simp [hc])]
  have hback : (c :: (mid ++ [d])).reverse.dropWhile isSpace = (c :: (mid ++ [d])).reverse := by
    rw [List.reverse_cons, List.reverse_append, List.reverse_singleton, List.singleton_append,
      List.cons_append, List.dropWhile_cons, if_neg (by simp [hd])]
  rw [trimSpace, hfront, hback, List.reverse_reverse]

/-- What `prependAttachmentsToContentArray` means for that array. -/
def prependValue (text : List UInt8) (resolved : Attachments) (images : List ImageData)
    (contentFormat : List UInt8) : Value :=
  .array ((prependItems toLower resolved images contentFormat ++ [Item.text text] ++
    if trailingText resolved = [] then [] else [Item.text (trailingText resolved)]).map Item.value)

/-- The elements of an array between parts that are put before and behind them. -/
theorem reads_between {inner : List UInt8} {v : Value} (h : Reads inner v)
    (before behind : List Item) :
    Reads (91 :: (List.intercalate [44] ((before.map fun i => i.append []) ++ [inner] ++
        behind.map fun i => i.append []) ++ [93]))
      (.array (before.map Item.value ++ [v] ++ behind.map Item.value)) := by
  have hitems : ∀ items : List Item,
      List.Forall₂ Reads (items.map fun i => i.append []) (items.map Item.value) := by
    intro items
    rw [List.forall₂_map_left_iff, List.forall₂_map_right_iff, List.forall₂_same]
    exact fun i _ => i.reads
  exact reads_array (List.rel_append (List.rel_append (hitems before) (.cons h .nil))
    (hitems behind))

theorem flatMap_escapedByte_eq_nil {s : List UInt8} : s.flatMap escapedByte = [] ↔ s = [] := by
  constructor
  · intro h
    have hd := decode_escaped s
    rw [h] at hd
    exact (Option.some.inj hd).symm
  · rintro rfl
    rfl

/-- The pieces that `prependAttachmentsToContentArray` puts together in the end. -/
theorem prepended_eq (before : List Item) {inner : List UInt8} (hne : inner ≠ [])
    (texts : List UInt8) :
    (if texts.flatMap escapedByte = [] then
        (if itemsText before = [] then 91 :: itemsText before
          else 91 :: itemsText before ++ [44]) ++ inner
      else
        (if 1 < ((if itemsText before = [] then 91 :: itemsText before
            else 91 :: itemsText before ++ [44]) ++ inner).length then
          (if itemsText before = [] then 91 :: itemsText before
            else 91 :: itemsText before ++ [44]) ++ inner ++ [44]
        else (if itemsText before = [] then 91 :: itemsText before
          else 91 :: itemsText before ++ [44]) ++ inner) ++
        ascii "\x7b\"type\":\"text\",\"text\":\"" ++ texts.flatMap escapedByte ++
          ascii "\"\x7d") ++ [93] =
      91 :: (List.intercalate [44] ((before.map fun i => i.append []) ++ [inner] ++
        (if texts = [] then [] else [Item.text texts]).map fun i => i.append []) ++ [93]) := by
  have hbefore : 91 :: (List.intercalate [44] ((before.map fun i => i.append []) ++ [inner])) =
      (if itemsText before = [] then 91 :: itemsText before
        else 91 :: itemsText before ++ [44]) ++ inner := by
    rw [intercalate_concat]
    by_cases hb : before = []
    · simp [hb, itemsText]
    · rw [if_neg (by simpa using hb), if_neg (mt itemsText_eq_nil.mp hb)]
      simp [itemsText]
  have hlen : 1 < ((if itemsText before = [] then 91 :: itemsText before
      else 91 :: itemsText before ++ [44]) ++ inner).length := by
    have hpos := List.length_pos_iff.mpr hne
    rw [List.length_append]
    split
    · rw [List.length_cons]
      omega
    · rw [List.length_append, List.length_cons, List.length_cons]
      omega
  rw [if_pos hlen, ← hbefore]
  by_cases ht : texts = []
  · rw [if_pos (flatMap_escapedByte_eq_nil.mpr ht), if_pos ht]
    simp
  · rw [if_neg (mt flatMap_escapedByte_eq_nil.mp ht), if_neg ht, List.map_singleton,
      intercalate_concat _ (Item.append [] (.text texts)), if_neg (by simp)]
    simp [Item.append, appendTextPart, appendJSONEscaped_eq]

/-- The part with the text attachments, if they have any text. -/
def trailingItems (resolved : Attachments) : List Item :=
  if trailingText resolved = [] then [] else [.text (trailingText resolved)]

/-- What the two loops have built in the end. -/
theorem prepend_loops (resolved : Attachments) (images : List ImageData)
    (contentFormat : List UInt8) :
    ((sortStrings resolved.names).filterMap resolved.get?).foldl
      (fun parts att =>
        if att.isText then (parts.1, appendJSONEscaped parts.2 att.text)
        else (appendBinaryPart toLower contentFormat parts.1 att.mimeType att.base64, parts.2))
      (images.foldl
        (fun parts img => appendBinaryPart toLower contentFormat parts img.mime img.base64) [],
        []) =
    (itemsText (prependItems toLower resolved images contentFormat),
      (trailingText resolved).flatMap escapedByte) := by
  have hloops := foldl_attachments toLower contentFormat resolved.sorted
    (images.map fun img => prependItem toLower contentFormat img.mime img.base64) []
  have himages := foldl_prepend toLower contentFormat images []
  have hnil : itemsText [] = [] := rfl
  rw [List.nil_append, hnil] at himages
  rw [List.nil_append] at hloops
  rw [himages]
  exact hloops

/-- The array, where it had elements. -/
theorem prepend_inner {existing inner : List UInt8} {resolved : Attachments}
    {images : List ImageData} (h : ¬ (resolved.entries = [] ∧ images = []))
    (hinner : trimSpace (trimSpace existing.tail).dropLast = inner) (hne : inner ≠ [])
    (contentFormat : List UInt8) :
    prependAttachmentsToContentArray toLower existing resolved images contentFormat =
      91 :: (List.intercalate [44]
        (((prependItems toLower resolved images contentFormat).map fun i => i.append []) ++
          [inner] ++ (trailingItems resolved).map fun i => i.append []) ++ [93]) := by
  rw [prependAttachmentsToContentArray, if_neg h]
  simp only [prepend_loops, hinner, if_neg hne]
  exact prepended_eq _ hne _

/-- The array, where it had none. -/
theorem prepend_empty {existing : List UInt8} {resolved : Attachments}
    {images : List ImageData} (h : ¬ (resolved.entries = [] ∧ images = []))
    (hinner : trimSpace (trimSpace existing.tail).dropLast = []) (contentFormat : List UInt8) :
    prependAttachmentsToContentArray toLower existing resolved images contentFormat =
      91 :: (itemsText (prependItems toLower resolved images contentFormat ++
        trailingItems resolved) ++ [93]) := by
  rw [prependAttachmentsToContentArray, if_neg h]
  simp only [prepend_loops, hinner, if_pos]
  rw [trailingItems]
  generalize prependItems toLower resolved images contentFormat = before
  by_cases ht : trailingText resolved = []
  · rw [if_pos (flatMap_escapedByte_eq_nil.mpr ht), if_pos ht]
    simp
  · rw [if_neg (mt flatMap_escapedByte_eq_nil.mp ht), if_neg ht, itemsText_concat]
    by_cases hb : before = []
    · simp [hb, itemsText, Item.append, appendTextPart, appendJSONEscaped_eq]
    · have hlen := List.length_pos_iff.mpr (mt itemsText_eq_nil.mp hb)
      rw [if_neg hb, if_pos (by rw [List.length_cons]; omega)]
      simp [Item.append, appendTextPart, appendJSONEscaped_eq]

theorem reads_prepend {body text : List UInt8} (h : decode body = some text)
    (resolved : Attachments) (images : List ImageData) (contentFormat : List UInt8) :
    Reads (prependAttachmentsToContentArray toLower (textArray body) resolved images contentFormat)
      (prependValue toLower text resolved images contentFormat) := by
  obtain ⟨inner, hinner⟩ : ∃ inner, ascii "\x7b\"type\":\"text\",\"text\":\"" ++
      (body ++ ascii "\"\x7d") = inner := ⟨_, rfl⟩
  have hread := reads_textPart h
  have hmid : ∃ mid, inner = 123 :: (mid ++ [125]) := by
    refine ⟨(ascii "\"type\":\"text\",\"text\":\"" ++ (body ++ ascii "\"")), ?_⟩
    rw [← hinner]
    simp [ascii]
  rw [hinner] at hread
  rw [textArray, hinner, prependValue, List.map_append, List.map_append]
  have hbetween := reads_between hread
  obtain ⟨mid, hmid⟩ := hmid
  -- the white space to trim is that of the array, and it has none
  have htrim : trimSpace (inner ++ [93]) = inner ++ [93] := by
    rw [hmid]
    exact trimSpace_self rfl rfl
  have htrim' : trimSpace inner = inner := by
    rw [hmid]
    exact trimSpace_self rfl rfl
  have hne : inner ≠ [] := by simp [hmid]
  by_cases hempty : resolved.entries = [] ∧ images = []
  · rw [prependAttachmentsToContentArray, if_pos hempty]
    obtain ⟨hentries, rfl⟩ := hempty
    have hsorted : resolved.sorted = [] := by
      simp [Attachments.sorted, Attachments.names, hentries, sortStrings]
    have hself := hbetween [] []
    simpa [prependItems, trailingText, hsorted] using hself
  · rw [prepend_inner toLower hempty (by rw [List.tail_cons, htrim, List.dropLast_concat, htrim'])
      hne]
    exact hbetween _ _

end Content

end SocketHandoff.Go
