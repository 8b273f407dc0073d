import SocketHandoff.Go.Content
import SocketHandoff.Go.Headers

/-!
# The files in the content of a message

The binary parts that the three builders add to a message. Where the content is a text, a file that
is no image becomes a document in the format of Anthropic and is left out in every other one; where
the content is an array, it becomes an image in every other one; and where there are only images, it
becomes an image in each.
-/

namespace SocketHandoff.Go

open Json

section Content

variable (toLower : List UInt8 → List UInt8)

/-! ## The binary parts of a content -/

/-- The binary parts of a content. -/
def binaryParts : Value → List Value
  | .array elems => elems.filter isBinaryPart
  | _ => []

theorem binaryParts_items (items : List Item) :
    binaryParts (.array (items.map Item.value)) = (items.filter Item.isBinary).map Item.value := by
  rw [binaryParts, List.filter_map]
  congr 1
  exact List.filter_congr fun i _ => isBinaryPart_value i

/-- A text refers to no attachment. -/
def NoPlaceholders (text : List UInt8) (attachments : Attachments) : Prop :=
  ∀ name ∈ attachments.names, ¬ 123 :: (name ++ [125]) <:+: text

/-- What is found between the braces is in the text. -/
theorem infix_braces {text : List UInt8} {opening length : Nat}
    (hopen : text.findIdx? (· = 123) = some opening)
    (hclose : (text.drop (opening + 1)).findIdx? (· = 125) = some length) :
    123 :: ((text.drop (opening + 1)).take length ++ [125]) <:+: text := by
  obtain ⟨hlt, h123, -⟩ := List.findIdx?_eq_some_iff_getElem.mp hopen
  obtain ⟨hlt', h125, -⟩ := List.findIdx?_eq_some_iff_getElem.mp hclose
  simp only [decide_eq_true_eq] at h123 h125
  refine ⟨text.take opening, (text.drop (opening + 1)).drop (length + 1), ?_⟩
  have hrest : (text.drop (opening + 1)).take length ++ [125] ++
      (text.drop (opening + 1)).drop (length + 1) = text.drop (opening + 1) := by
    rw [List.append_assoc, List.singleton_append, ← h125, ← List.drop_eq_getElem_cons hlt',
      List.take_append_drop]
  rw [List.append_assoc, List.cons_append, hrest, ← h123, ← List.drop_eq_getElem_cons hlt,
    List.take_append_drop]

theorem parsePlaceholdersFrom_none {attachments : Attachments} {text : List UInt8}
    (h : NoPlaceholders text attachments) :
    ∀ p ∈ parsePlaceholdersFrom attachments text, p.attachment = none ∧ p.refName = [] := by
  fun_induction parsePlaceholdersFrom attachments text with
  | case1 => simp
  | case2 text hne hopen => simp
  | case3 text hne opening hopen hclose => simp
  | case4 text hne opening hopen length hclose refName closing rest hget ih =>
    have hrest : NoPlaceholders (text.drop (closing + 1)) attachments := fun name hname hin =>
      h name hname (hin.trans (List.drop_suffix _ _).isInfix)
    simpa using ih hrest
  | case5 text hne opening hopen length hclose refName closing rest att hget ih =>
    have hname : refName ∈ attachments.names := by
      obtain ⟨before, behind, hentries, -⟩ := List.lookup_eq_some_iff.mp hget
      simp [Attachments.names, hentries]
    exact absurd (infix_braces hopen hclose) (h refName hname)

theorem parsePlaceholders_none {attachments : Attachments} {text : List UInt8}
    (h : NoPlaceholders text attachments) :
    ∀ p ∈ parsePlaceholders text attachments, p.attachment = none ∧ p.refName = [] := by
  rw [parsePlaceholders]
  split
  · simp
  · simp only
    split
    · simp
    · exact parsePlaceholdersFrom_none h

/-- **Every attachment is found by its name**, and none twice: going through the sorted names and
looking each of them up meets the same attachments as the map. -/
theorem sorted_perm (attachments : Attachments) :
    attachments.sorted.Perm (attachments.entries.map Prod.snd) := by
  have hnames : attachments.names.filterMap attachments.get? =
      attachments.entries.map Prod.snd := by
    rw [Attachments.names, List.filterMap_map, ← List.filterMap_eq_map]
    exact List.filterMap_congr fun e he => lookup_of_nodup attachments.nodup he
  rw [← hnames]
  exact (List.mergeSort_perm _ _).filterMap _

theorem referenced_none {parts : List ContentPart} (h : ∀ p ∈ parts, p.refName = []) :
    referenced parts = [] := by
  have hnil : (parts.map ContentPart.refName).filter (· ≠ []) = [] := by
    refine List.filter_eq_nil_iff.mpr fun name hname => ?_
    obtain ⟨p, hp, rfl⟩ := List.mem_map.mp hname
    simp [h p hp]
  rw [referenced, hnil, List.dedup_nil]

/-- Without placeholders no attachment is referred to. -/
theorem unreferenced_all {text : List UInt8} {attachments : Attachments}
    (h : NoPlaceholders text attachments) :
    unreferenced attachments (parsePlaceholders text attachments) = attachments.sorted := by
  rw [unreferenced, referenced_none fun p hp => (parsePlaceholders_none h p hp).2]
  split
  · rw [Attachments.sorted, List.filter_eq_self.mpr (by simp)]
  · rename_i hlen
    have hnil : attachments.entries = [] := by simpa using hlen
    simp [Attachments.sorted, Attachments.names, hnil, sortStrings]

/-- The files that come with a message: the attachments that are no texts and the images, each
with its MIME type. -/
def binaryFiles (attachments : Attachments) (images : List ImageData) :
    List (List UInt8 × List UInt8) :=
  ((attachments.entries.map Prod.snd).filter (!·.isText)).map (fun att =>
      (att.mimeType, att.base64)) ++ images.map fun img => (img.mime, img.base64)

/-- What becomes of a file where the content is a text. -/
theorem filter_binaryItems (contentFormat mimeType base64Data : List UInt8) :
    (binaryItems toLower contentFormat mimeType base64Data []).filter Item.isBinary =
      binaryItems toLower contentFormat mimeType base64Data [] := by
  rw [binaryItems]
  split
  · rfl
  · split <;> rfl

/-- **The binary parts of a text's content** are those of its files. -/
theorem filter_contentItems {text : List UInt8} {attachments : Attachments}
    (h : NoPlaceholders text attachments) (images : List ImageData) (contentFormat : List UInt8) :
    ((contentItems toLower text attachments images contentFormat).filter Item.isBinary).Perm
      ((binaryFiles attachments images).flatMap fun f =>
        binaryItems toLower contentFormat f.1 f.2 []) := by
  have hparts : ((parsePlaceholders text attachments).flatMap
      (partItems toLower contentFormat)).filter Item.isBinary = [] := by
    rw [List.filter_flatMap]
    refine List.flatMap_eq_nil_iff.mpr fun p hp => ?_
    rw [partItems, (parsePlaceholders_none h p hp).1]
    rfl
  have htexts : ∀ atts : List ResolvedAttachment,
      (atts.map fun att => Item.text att.text).filter Item.isBinary = [] := by
    intro atts
    refine List.filter_eq_nil_iff.mpr fun i hi => ?_
    obtain ⟨att, -, rfl⟩ := List.mem_map.mp hi
    simp [Item.isBinary]
  rw [contentItems, unreferenced_all h]
  simp only [List.filter_append, hparts, htexts, List.append_nil, List.filter_flatMap,
    filter_binaryItems]
  rw [binaryFiles, List.flatMap_append, List.flatMap_map, List.flatMap_map]
  exact (((sorted_perm attachments).filter _).flatMap_right _).append_right _

theorem binaryItems_eq_nil {contentFormat mimeType base64Data : List UInt8} :
    binaryItems toLower contentFormat mimeType base64Data [] = [] ↔
      willEmitBinary toLower contentFormat mimeType = false := by
  rw [binaryItems, willEmitBinary]
  cases isImageMime toLower mimeType <;> simp

/-- Where no array is needed there is nothing to put into it. -/
theorem binaryItems_of_not_hasBinaryPart {text : List UInt8} {attachments : Attachments}
    (h : NoPlaceholders text attachments) {images : List ImageData} {contentFormat : List UInt8}
    (hnot : ¬ HasBinaryPart toLower text attachments images contentFormat) :
    ((binaryFiles attachments images).flatMap fun f =>
      binaryItems toLower contentFormat f.1 f.2 []) = [] := by
  simp only [HasBinaryPart, not_or, unreferenced_all h, ne_eq, not_not] at hnot
  obtain ⟨rfl, hatts, -⟩ := hnot
  refine List.flatMap_eq_nil_iff.mpr fun f hf => (binaryItems_eq_nil toLower).mpr ?_
  simp only [binaryFiles, List.map_nil, List.append_nil, List.mem_map, List.mem_filter] at hf
  obtain ⟨att, ⟨⟨e, he, rfl⟩, htext⟩, rfl⟩ := hf
  have hmem : e.2 ∈ attachments.sorted :=
    (sorted_perm attachments).mem_iff.mpr (List.mem_map_of_mem he)
  simp only [List.any_eq_true, List.mem_filter, not_exists, not_and] at hatts
  exact eq_false_of_ne_true (hatts e.2 ⟨hmem, by simpa using htext⟩)

/-- The binary parts of the content of a text. -/
theorem binaryParts_contentValue {text : List UInt8} {attachments : Attachments}
    (h : NoPlaceholders text attachments) (images : List ImageData) (contentFormat : List UInt8) :
    (binaryParts (contentValue toLower text attachments images contentFormat)).Perm
      (((binaryFiles attachments images).flatMap fun f =>
        binaryItems toLower contentFormat f.1 f.2 []).map Item.value) := by
  rw [contentValue]
  split
  · rw [binaryParts_items, filter_gather]
    exact (filter_contentItems toLower h images contentFormat).map _
  · rename_i hnot
    rw [binaryItems_of_not_hasBinaryPart toLower h hnot]
    exact .nil

theorem isBinary_prependItem (contentFormat mimeType base64Data : List UInt8) :
    (prependItem toLower contentFormat mimeType base64Data).isBinary = true := by
  rw [prependItem]
  split <;> rfl

/-- The binary parts of the content of an array. -/
theorem binaryParts_prependValue (text : List UInt8) (resolved : Attachments)
    (images : List ImageData) (contentFormat : List UInt8) :
    (binaryParts (prependValue toLower text resolved images contentFormat)).Perm
      ((binaryFiles resolved images).map fun f =>
        (prependItem toLower contentFormat f.1 f.2).value) := by
  have hitems : (prependItems toLower resolved images contentFormat).filter Item.isBinary =
      prependItems toLower resolved images contentFormat := by
    refine List.filter_eq_self.mpr fun i hi => ?_
    simp only [prependItems, List.mem_append, List.mem_map] at hi
    rcases hi with ⟨img, -, rfl⟩ | ⟨att, -, rfl⟩
    · exact isBinary_prependItem toLower _ _ _
    · exact isBinary_prependItem toLower _ _ _
  have htail : (if trailingText resolved = [] then [] else [Item.text (trailingText resolved)]).filter
      Item.isBinary = [] := by
    split <;> rfl
  rw [prependValue, binaryParts_items, List.filter_append, List.filter_append, hitems, htail,
    prependItems, binaryFiles]
  simp only [List.filter_cons, Item.isBinary, List.filter_nil, List.append_nil, List.map_append,
    List.map_map, Bool.false_eq_true, if_false]
  refine List.perm_append_comm.trans (.append ?_ (.refl _))
  exact (((sorted_perm resolved).filter _).map _)

theorem binaryParts_multimodalValue (text : List UInt8) (images : List ImageData) :
    binaryParts (multimodalValue text images) = images.map fun img => img.item.value := by
  rw [multimodalValue]
  split
  · rename_i h
    subst h
    rfl
  · have himages : (images.map ImageData.item).filter Item.isBinary = images.map ImageData.item := by
      refine List.filter_eq_self.mpr fun i hi => ?_
      obtain ⟨img, -, rfl⟩ := List.mem_map.mp hi
      rfl
    rw [binaryParts_items, List.filter_append, himages]
    simp [Item.isBinary]

/-! ## Three ways to write a message -/

/-- The binary parts of the content with a text. -/
def partsOf (content : List UInt8) : Option (List Value) := (parse content).map binaryParts

/-- Two contents are JSON and have the same binary parts. -/
def SameParts (content content' : List UInt8) : Prop :=
  ∃ ps qs, partsOf content = some ps ∧ partsOf content' = some qs ∧ ps.Perm qs

/-- A part is in a content. -/
def Emits (content : List UInt8) (i : Item) : Prop :=
  ∃ ps, partsOf content = some ps ∧ i.value ∈ ps

/-- What a message with the text `text` is given does not depend on how its content is written; and
outside the format of Anthropic no file that is not an image is given as one. The three ways to
write a content are served by three functions of the source, which choose the parts each for itself.
-/
structure PartsAgree (contentFormat text body : List UInt8) (attachments : Attachments)
    (images : List ImageData) : Prop where
  array : SameParts
    (appendContentWithAttachments toLower [] text attachments images contentFormat)
    (prependAttachmentsToContentArray toLower (textArray body) attachments images contentFormat)
  multimodal : attachments.entries = [] → SameParts
    (appendContentWithAttachments toLower [] text attachments images contentFormat)
    (appendMultimodalContent [] text images)
  openai : contentFormat ≠ ascii "anthropic" →
    ∀ f ∈ binaryFiles attachments images, isImageMime toLower f.1 = false →
      ¬ Emits (appendContentWithAttachments toLower [] text attachments images contentFormat)
          (.image f.1 f.2) ∧
        ¬ Emits (prependAttachmentsToContentArray toLower (textArray body) attachments images
          contentFormat) (.image f.1 f.2) ∧
        (attachments.entries = [] → ¬ Emits (appendMultimodalContent [] text images)
          (.image f.1 f.2))

section Agree

variable {toLower : List UInt8 → List UInt8} {contentFormat text body : List UInt8}
  {attachments : Attachments} {images : List ImageData}

theorem partsOf_text : partsOf (appendContentWithAttachments toLower [] text attachments images
      contentFormat) =
    some (binaryParts (contentValue toLower text attachments images contentFormat)) := by
  rw [appendContentWithAttachments_eq, List.nil_append, partsOf,
    (reads_contentText toLower text attachments images contentFormat).parse]
  rfl

theorem partsOf_array (h : decode body = some text) :
    partsOf (prependAttachmentsToContentArray toLower (textArray body) attachments images
      contentFormat) =
    some (binaryParts (prependValue toLower text attachments images contentFormat)) := by
  rw [partsOf, (reads_prepend toLower h attachments images contentFormat).parse]
  rfl

theorem partsOf_multimodal : partsOf (appendMultimodalContent [] text images) =
    some (images.map fun img => img.item.value) := by
  rw [appendMultimodalContent_eq, List.nil_append, partsOf, (reads_multimodalText text images).parse,
    Option.map_some, binaryParts_multimodalValue]

/-- A file is given the same way by the first two builders if it is an image, or the format has
documents. -/
theorem binaryItems_eq {mimeType base64Data : List UInt8}
    (h : isImageMime toLower mimeType = true ∨ contentFormat = ascii "anthropic") :
    binaryItems toLower contentFormat mimeType base64Data [] =
      [prependItem toLower contentFormat mimeType base64Data] := by
  rw [binaryItems, prependItem]
  cases hmime : isImageMime toLower mimeType with
  | true => simp
  | false =>
    have hformat : contentFormat = ascii "anthropic" := h.resolve_left (by simp [hmime])
    simp [hformat]

/-- Otherwise the one that takes a text leaves it out. -/
theorem length_binaryItems (hformat : contentFormat ≠ ascii "anthropic")
    (files : List (List UInt8 × List UInt8)) :
    (files.flatMap fun f => binaryItems toLower contentFormat f.1 f.2 []).length =
      files.countP fun f => isImageMime toLower f.1 := by
  induction files with
  | nil => rfl
  | cons f files ih =>
    rw [List.flatMap_cons, List.length_append, ih, List.countP_cons, binaryItems]
    cases isImageMime toLower f.1 <;> simp [hformat]
    omega

/-- **A text and an array are given the same files** exactly when each file is an image, or the
format has documents. -/
theorem sameParts_array_iff (hplace : NoPlaceholders text attachments)
    (hbody : decode body = some text) :
    SameParts (appendContentWithAttachments toLower [] text attachments images contentFormat)
        (prependAttachmentsToContentArray toLower (textArray body) attachments images
          contentFormat) ↔
      (∀ f ∈ binaryFiles attachments images, isImageMime toLower f.1 = true) ∨
        contentFormat = ascii "anthropic" := by
  have htext := binaryParts_contentValue toLower hplace images contentFormat
  have harray := binaryParts_prependValue toLower text attachments images contentFormat
  constructor
  · rintro ⟨ps, qs, hps, hqs, hperm⟩
    obtain rfl := Option.some.inj (partsOf_text.symm.trans hps)
    obtain rfl := Option.some.inj ((partsOf_array hbody).symm.trans hqs)
    by_cases hformat : contentFormat = ascii "anthropic"
    · exact .inr hformat
    · -- the lists have the same length, and the first one has the images only
      have hlen := (htext.symm.trans (hperm.trans harray)).length_eq
      rw [List.length_map, List.length_map, length_binaryItems hformat] at hlen
      exact .inl fun f hf => List.countP_eq_length.mp hlen f hf
  · intro h
    refine ⟨_, _, partsOf_text, partsOf_array hbody, htext.trans (.trans ?_ harray.symm)⟩
    have heq : ((binaryFiles attachments images).flatMap fun f =>
        binaryItems toLower contentFormat f.1 f.2 []) =
          (binaryFiles attachments images).map fun f =>
            prependItem toLower contentFormat f.1 f.2 := by
      rw [List.map_eq_flatMap]
      refine List.flatMap_congr fun f hf => binaryItems_eq (h.imp_left fun himages => himages f hf)
    rw [heq, List.map_map]
    exact .refl _

theorem isImage_binaryFiles {img : ImageData} (h : img ∈ images) :
    (img.mime, img.base64) ∈ binaryFiles attachments images :=
  List.mem_append_right _ (List.mem_map_of_mem (f := fun img : ImageData =>
    (img.mime, img.base64)) h)

/-- Without attachments the files are the images. -/
theorem binaryFiles_images (h : attachments.entries = []) :
    binaryFiles attachments images = images.map fun img => (img.mime, img.base64) := by
  simp [binaryFiles, h]

/-- **A text and images alone are given the same files** exactly when each of them is an image. -/
theorem sameParts_multimodal_iff (hplace : NoPlaceholders text attachments)
    (hempty : attachments.entries = []) :
    SameParts (appendContentWithAttachments toLower [] text attachments images contentFormat)
        (appendMultimodalContent [] text images) ↔
      ∀ img ∈ images, isImageMime toLower img.mime = true := by
  have htext := binaryParts_contentValue toLower hplace images contentFormat
  rw [binaryFiles_images hempty, List.flatMap_map] at htext
  constructor
  · rintro ⟨ps, qs, hps, hqs, hperm⟩ img himg
    obtain rfl := Option.some.inj (partsOf_text.symm.trans hps)
    obtain rfl := Option.some.inj (partsOf_multimodal.symm.trans hqs)
    have hall := htext.symm.trans hperm
    by_cases hformat : contentFormat = ascii "anthropic"
    · -- a document would be among the images
      cases hmime : isImageMime toLower img.mime with
      | true => rfl
      | false =>
        have hdoc : (Item.document img.mime img.base64).value ∈ images.map fun img =>
            img.item.value := by
          refine hall.mem_iff.mp (List.mem_map_of_mem (List.mem_flatMap.mpr ⟨img, himg, ?_⟩))
          simp [binaryItems, hmime, hformat]
        obtain ⟨img', -, heq⟩ := List.mem_map.mp hdoc
        simp [ImageData.item, Item.value, ascii] at heq
    · have hlen := hall.length_eq
      rw [List.length_map, List.length_map, ← List.flatMap_map (f := fun img : ImageData =>
        (img.mime, img.base64)) (g := fun f => binaryItems toLower contentFormat f.1 f.2 []),
        length_binaryItems hformat] at hlen
      have hcount := List.countP_eq_length.mp (hlen.trans (List.length_map ..).symm)
      exact hcount (img.mime, img.base64) (List.mem_map_of_mem himg)
  · intro h
    refine ⟨_, _, partsOf_text, partsOf_multimodal, htext.trans (.of_eq ?_)⟩
    have heq : (images.flatMap fun img =>
        binaryItems toLower contentFormat img.mime img.base64 []) = images.map ImageData.item := by
      rw [List.map_eq_flatMap]
      refine List.flatMap_congr fun img himg => ?_
      simp [binaryItems, h img himg, ImageData.item]
    rw [heq, List.map_map]
    rfl

/-- **Attachments do not depend on how the content is written** exactly when every file is an image,
or the format is that of Anthropic and images that come alone are images. -/
theorem partsAgree_iff (hplace : NoPlaceholders text attachments)
    (hbody : decode body = some text) :
    PartsAgree toLower contentFormat text body attachments images ↔
      (∀ f ∈ binaryFiles attachments images, isImageMime toLower f.1 = true) ∨
        contentFormat = ascii "anthropic" ∧ (attachments.entries = [] →
          ∀ img ∈ images, isImageMime toLower img.mime = true) := by
  constructor
  · intro h
    refine ((sameParts_array_iff hplace hbody).mp h.array).imp_right fun hformat => ⟨hformat, ?_⟩
    exact fun hempty => (sameParts_multimodal_iff hplace hempty).mp (h.multimodal hempty)
  · intro h
    have himages : attachments.entries = [] →
        ∀ img ∈ images, isImageMime toLower img.mime = true := by
      rcases h with hall | ⟨-, himages⟩
      · exact fun _ img himg => hall _ (isImage_binaryFiles himg)
      · exact himages
    refine ⟨(sameParts_array_iff hplace hbody).mpr (h.imp_right And.left),
      fun hempty => (sameParts_multimodal_iff hplace hempty).mpr (himages hempty), ?_⟩
    -- in every other format there is no file that is not an image
    intro hformat f hf hmime
    have himage := h.resolve_right (fun h => hformat h.1) f hf
    rw [hmime] at himage
    cases himage

/-- A picture and a document, in the format that has documents. -/
theorem partsAgree_iff_document : ∃ attachments : Attachments,
    PartsAgree (List.map asciiLower) (ascii "anthropic") [72, 105] [72, 105] attachments [] := by
  refine ⟨⟨[([114], ⟨ascii "application/pdf", false, [65], []⟩),
    ([112], ⟨ascii "image/png", false, [66], []⟩)], by decide⟩, ?_⟩
  refine (partsAgree_iff (fun name hname => ?_) (by decide)).mpr (.inr ⟨rfl, fun h => by cases h⟩)
  simp only [Attachments.names, List.map_cons, List.map_nil, List.mem_cons, List.not_mem_nil,
    or_false] at hname
  rcases hname with rfl | rfl <;> decide

/-- A document in the format of OpenAI: a text leaves it out, an array is given it as an image. -/
theorem not_partsAgree : ∃ attachments : Attachments, NoPlaceholders [72, 105] attachments ∧
    ¬ PartsAgree (List.map asciiLower) (ascii "openai") [72, 105] [72, 105] attachments [] := by
  let doc : ResolvedAttachment := ⟨ascii "application/pdf", false, [65], []⟩
  have hplace : NoPlaceholders [72, 105] ⟨[([114], doc)], by decide⟩ := by
    intro name hname
    simp only [Attachments.names, List.map_cons, List.map_nil, List.mem_singleton] at hname
    subst hname
    decide
  refine ⟨_, hplace, fun h => ?_⟩
  rcases (sameParts_array_iff hplace (by decide)).mp h.array with himages | hformat
  · have himage := himages (doc.mimeType, doc.base64) (by simp [binaryFiles, doc])
    simp [isImageMime, doc, ascii, asciiLower] at himage
  · simp [ascii] at hformat

end Agree

end Content

end SocketHandoff.Go
