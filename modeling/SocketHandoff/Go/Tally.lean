import SocketHandoff.Go.Attachments
import SocketHandoff.Go.Placeholders
import Mathlib.Data.List.Count

/-!
# A tally of the files

What `appendContentWithAttachments` makes of a message, piece by piece. A text file and a file that
the format can show are there once for each placeholder, or once if there is none; every image is
there once; and the placeholder of any other file is kept. The name without letters is the exception:
its file is taken for one that no placeholder refers to.
-/

namespace SocketHandoff.Go

open Json

section Tally

variable (toLower : List UInt8 → List UInt8)

/-! ## Pieces -/

/-- A piece of the content of a message. -/
inductive Emission
  | literal (text : List UInt8)
  | file (name : List UInt8)
  /-- the placeholder of a file that the format cannot show -/
  | kept (name : List UInt8)
  | image (img : ImageData)
  deriving DecidableEq

/-- The part for a piece, in this format. A file is its text, or an image or a document; the
placeholder of a file that the format has no part for is kept as text. -/
def Emission.item (attachments : Attachments) (contentFormat : List UInt8) : Emission → Item
  | .literal text => .text text
  | .file name =>
    match attachments.get? name with
    | none => .text []
    | some att =>
      if att.isText then .text att.text
      else prependItem toLower contentFormat att.mimeType att.base64
  | .kept name => .text (placeholder name)
  | .image img => prependItem toLower contentFormat img.mime img.base64

/-- The text of a literal. -/
def Emission.literal? : Emission → Option (List UInt8)
  | .literal text => some text
  | _ => none

def Segment.literal? : Segment → Option (List UInt8)
  | .literal text => some text
  | .resolved _ => none

/-- The format has a place for the file. -/
def Shown (contentFormat : List UInt8) (att : ResolvedAttachment) : Bool :=
  att.isText || willEmitBinary toLower contentFormat att.mimeType

/-- How often a file is due that `uses` placeholders refer to. -/
def fileDue (contentFormat : List UInt8) (attachments : Attachments) (name : List UInt8)
    (uses : Nat) : Nat :=
  if (attachments.get? name).any (Shown toLower contentFormat) then max 1 uses else 0

/-- How often its placeholder is. -/
def keptDue (contentFormat : List UInt8) (attachments : Attachments) (name : List UInt8)
    (uses : Nat) : Nat :=
  if (attachments.get? name).any (!Shown toLower contentFormat ·) then uses else 0

/-- How often a name is resolved. -/
def uses (text : List UInt8) (attachments : Attachments) (name : List UInt8) : Nat :=
  (segments text attachments).count (.resolved name)

/-- **No file is lost or doubled.** The pieces are counted by the name of their file, against how
often it is due; images, which have no names, are counted by themselves. -/
structure Tallied (text : List UInt8) (attachments : Attachments) (images : List ImageData)
    (contentFormat : List UInt8) (pieces : List Emission) : Prop where
  file : ∀ name, pieces.count (.file name) =
    fileDue toLower contentFormat attachments name (uses text attachments name)
  kept : ∀ name, pieces.count (.kept name) =
    keptDue toLower contentFormat attachments name (uses text attachments name)
  image : ∀ img, pieces.count (.image img) = images.count img
  /-- the literal texts are as they were, in their order -/
  literal : pieces.filterMap Emission.literal? =
    (segments text attachments).filterMap Segment.literal?

/-- The text of a part. -/
def Item.written : Item → List UInt8
  | .text s => s
  | _ => []

/-- A content has these parts: it is one text, or an array in which adjoining texts are gathered. -/
def Consists (v : Value) (items : List Item) : Prop :=
  (v = .string (items.flatMap Item.written) ∧ ∀ i ∈ items, i.isBinary = false) ∨
    v = .array ((gather [] items).map Item.value)

/-- **What is appended** is JSON whose pieces are those that are due. -/
def ContentConserved (text : List UInt8) (attachments : Attachments) (images : List ImageData)
    (contentFormat : List UInt8) : Prop :=
  ∀ buf, ∃ content v pieces,
    appendContentWithAttachments toLower buf text attachments images contentFormat =
        buf ++ content ∧
      parse content = some v ∧ Tallied toLower text attachments images contentFormat pieces ∧
      Consists v (pieces.map (Emission.item toLower attachments contentFormat))

/-! ## What a content says about its parts -/

section Consists

variable {v : Value} {items : List Item}

/-- The text of a part, as it is read. -/
def partText (v : Value) : List UInt8 :=
  match v.get? (ascii "text") with
  | some (.string s) => s
  | _ => []

/-- The texts of a content. -/
def textIn : Value → List UInt8
  | .string s => s
  | .array elems => elems.flatMap partText
  | _ => []

theorem partText_value (i : Item) : partText i.value = i.written := by
  cases i <;> simp [partText, Item.value, Item.written, Value.get?, List.lookup_cons, ascii]

theorem flatMap_gather (acc : List UInt8) (items : List Item) :
    (gather acc items).flatMap Item.written = acc ++ items.flatMap Item.written := by
  induction items generalizing acc with
  | nil =>
    rw [gather]
    split
    · simp_all
    · simp [Item.written]
  | cons i items ih =>
    by_cases hi : i.isBinary = true
    · have hnone : i.written = [] := by cases i <;> simp_all [Item.isBinary, Item.written]
      rw [gather_binary hi, List.flatMap_append, List.flatMap_cons, List.flatMap_cons, hnone, ih]
      split
      · simp_all
      · simp [Item.written]
    · cases i with
      | text s => rw [gather, ih, List.flatMap_cons, Item.written, List.append_assoc]
      | image m b => exact absurd rfl hi
      | document m b => exact absurd rfl hi

theorem Consists.binaryParts (h : Consists v items) :
    binaryParts v = (items.filter Item.isBinary).map Item.value := by
  rcases h with ⟨rfl, htexts⟩ | rfl
  · have hnone : items.filter Item.isBinary = [] :=
      List.filter_eq_nil_iff.mpr fun i hi => by simp [htexts i hi]
    rw [hnone]
    rfl
  · rw [binaryParts_items, filter_gather]

theorem Consists.textIn (h : Consists v items) : textIn v = items.flatMap Item.written := by
  rcases h with ⟨rfl, -⟩ | rfl
  · rfl
  · have hparts : (fun i : Item => partText i.value) = Item.written := funext partText_value
    rw [SocketHandoff.Go.textIn, List.flatMap_map, hparts, flatMap_gather, List.nil_append]

end Consists

/-! ## The names that are resolved -/

section Names

variable {text name contentFormat : List UInt8} {attachments : Attachments}
  {images : List ImageData}

theorem Scanned.known {segs : List Segment} (h : Scanned attachments text segs)
    (hmem : .resolved name ∈ segs) : attachments.Known name := by
  induction h with
  | nil => simp at hmem
  | rest => simp at hmem
  | unknown _ _ _ _ ih => exact ih (by simpa using hmem)
  | @resolved lit refName _ _ _ _ hknown _ ih =>
    rw [List.mem_append, List.mem_cons] at hmem
    rcases hmem with hlead | heq | hrest
    · exact absurd hlead (resolved_notMem_leading lit)
    · rwa [Segment.resolved.inj heq]
    · exact ih hrest

/-- Only known names are resolved. -/
theorem get?_of_resolved (h : .resolved name ∈ segments text attachments) :
    ∃ att, attachments.get? name = some att := by
  rw [segments] at h
  refine Option.isSome_iff_exists.mp ?_
  split at h
  · simp at h
  · split at h
    · simp at h
    · exact (scanned_segmentsFrom attachments text).known h

theorem mem_referenced : name ∈ referenced (parsePlaceholders text attachments) ↔
    name ≠ [] ∧ .resolved name ∈ segments text attachments := by
  rw [referenced, List.mem_dedup, parsePlaceholders_eq]
  simp only [List.map_map, List.mem_filter, List.mem_map, Function.comp_apply,
    decide_eq_true_eq]
  constructor
  · rintro ⟨⟨seg, hseg, rfl⟩, hne⟩
    cases seg with
    | literal lit => exact absurd rfl hne
    | resolved name =>
      obtain ⟨att, hatt⟩ := get?_of_resolved hseg
      have hname : (Segment.part attachments (.resolved name)).refName = name := by
        rw [Segment.part, hatt]
        simp only
        split <;> rfl
      rw [hname] at hne ⊢
      exact ⟨hne, hseg⟩
  · rintro ⟨hne, hseg⟩
    obtain ⟨att, hatt⟩ := get?_of_resolved hseg
    refine ⟨⟨_, hseg, ?_⟩, hne⟩
    rw [Segment.part, hatt]
    simp only
    split <;> rfl

/-- The names that no placeholder uses, in their order. -/
def unreferencedNames (attachments : Attachments) (parts : List ContentPart) :
    List (List UInt8) :=
  if (referenced parts).length < attachments.entries.length then
    sortStrings (attachments.names.filter fun name => !(referenced parts).contains name)
  else []

theorem unreferenced_eq (attachments : Attachments) (parts : List ContentPart) :
    unreferenced attachments parts =
      (unreferencedNames attachments parts).filterMap attachments.get? := by
  have hnames : (attachments.names.filter fun name => !(referenced parts).contains name) =
      attachments.names.filter (· ∉ referenced parts) :=
    List.filter_congr fun name _ => by rw [List.contains_eq_mem, decide_not]
  rw [unreferenced, unreferencedNames, hnames]
  split <;> rfl

theorem nodup_unreferencedNames (attachments : Attachments) (parts : List ContentPart) :
    (unreferencedNames attachments parts).Nodup := by
  rw [unreferencedNames]
  split
  · exact (List.mergeSort_perm _ _).nodup_iff.mpr (attachments.nodup.filter _)
  · exact List.nodup_nil

theorem mem_names : name ∈ attachments.names ↔ ∃ att, attachments.get? name = some att := by
  rw [Attachments.names, Attachments.get?]
  constructor
  · intro h
    obtain ⟨⟨_, att⟩, hmem, rfl⟩ := List.mem_map.mp h
    exact ⟨att, lookup_of_nodup attachments.nodup hmem⟩
  · rintro ⟨att, h⟩
    obtain ⟨before, behind, hentries, -⟩ := List.lookup_eq_some_iff.mp h
    simp [hentries]

/-- **The names that no placeholder uses** are the ones that are not resolved, and the empty one. -/
theorem mem_unreferencedNames :
    name ∈ unreferencedNames attachments (parsePlaceholders text attachments) ↔
      (∃ att, attachments.get? name = some att) ∧
        (name = [] ∨ .resolved name ∉ segments text attachments) := by
  have hsubset : referenced (parsePlaceholders text attachments) ⊆ attachments.names := by
    intro n hn
    exact mem_names.mpr (get?_of_resolved (mem_referenced.mp hn).2)
  have hnot : name ∉ referenced (parsePlaceholders text attachments) ↔
      (name = [] ∨ .resolved name ∉ segments text attachments) := by
    rw [mem_referenced, not_and_or, not_not]
  rw [← mem_names, ← hnot, unreferencedNames]
  split
  · rw [sortStrings, (List.mergeSort_perm _ _).mem_iff, List.mem_filter, Bool.not_eq_true',
      List.contains_eq_mem, decide_eq_false_iff_not]
  · rename_i hlen
    -- every name is used
    have hnodup : (referenced (parsePlaceholders text attachments)).Nodup := List.nodup_dedup _
    have hperm := (List.subperm_of_subset hnodup hsubset).perm_of_length_le
      (by rw [Attachments.names, List.length_map]; omega)
    simp only [List.not_mem_nil, false_iff, not_and, not_not]
    exact fun hname => hperm.mem_iff.mpr hname

/-- There is something that only an array can hold. -/
def NeedsArray (contentFormat : List UInt8) (attachments : Attachments)
    (images : List ImageData) : Prop :=
  images ≠ [] ∨ ∃ name att, attachments.get? name = some att ∧ att.isText = false ∧
    willEmitBinary toLower contentFormat att.mimeType = true

theorem hasBinaryPart_iff : HasBinaryPart toLower text attachments images contentFormat ↔
    NeedsArray toLower contentFormat attachments images := by
  rw [HasBinaryPart, NeedsArray]
  refine or_congr_right ?_
  simp only [unreferenced_eq, List.any_eq_true, List.mem_filter, List.mem_filterMap,
    Option.any_eq_true]
  constructor
  · rintro (⟨att, ⟨⟨name, -, hatt⟩, htext⟩, hemit⟩ | ⟨p, hp, att, hatt, hemit⟩)
    · exact ⟨name, att, hatt, by simpa using htext, hemit⟩
    · rw [parsePlaceholders_eq] at hp
      obtain ⟨seg, hseg, rfl⟩ := List.mem_map.mp hp
      cases seg with
      | literal lit => simp [Segment.part] at hatt
      | resolved name =>
        obtain ⟨att', hatt'⟩ := get?_of_resolved hseg
        rw [Segment.part, hatt'] at hatt
        cases htext : att'.isText with
        | true => simp [htext] at hatt
        | false =>
          simp only [htext, Bool.false_eq_true, if_false, Option.some.injEq] at hatt
          exact ⟨name, att, hatt ▸ hatt', hatt ▸ htext, hemit⟩
  · rintro ⟨name, att, hatt, htext, hemit⟩
    by_cases hname : name ∈ unreferencedNames attachments (parsePlaceholders text attachments)
    · exact .inl ⟨att, ⟨⟨name, hname, hatt⟩, by simp [htext]⟩, hemit⟩
    · have hseg : .resolved name ∈ segments text attachments := by
        by_contra hnot
        exact hname (mem_unreferencedNames.mpr ⟨⟨att, hatt⟩, .inr hnot⟩)
      refine .inr ⟨Segment.part attachments (.resolved name), ?_, att, ?_, hemit⟩
      · rw [parsePlaceholders_eq]
        exact List.mem_map_of_mem hseg
      · rw [Segment.part, hatt]
        simp [htext]

end Names

/-! ## What the builder emits -/

section Emissions

variable {text name contentFormat : List UInt8} {attachments : Attachments}
  {images : List ImageData}

/-- The pieces for a segment. In an array the placeholder of the empty name is not kept. -/
def Segment.emissions (contentFormat : List UInt8) (attachments : Attachments) (array : Bool) :
    Segment → List Emission
  | .literal text => [.literal text]
  | .resolved name =>
    if (attachments.get? name).any (Shown toLower contentFormat) then [.file name]
    else if name ≠ [] ∨ array = false then [.kept name]
    else []

/-- The names of the binary files that are shown. -/
def shownNames (contentFormat : List UInt8) (attachments : Attachments)
    (names : List (List UInt8)) : List (List UInt8) :=
  names.filter fun name => (attachments.get? name).any fun att =>
    !att.isText && willEmitBinary toLower contentFormat att.mimeType

/-- The names of the text files. -/
def textNames (attachments : Attachments) (names : List (List UInt8)) : List (List UInt8) :=
  names.filter fun name => (attachments.get? name).any (·.isText)

/-- The pieces of a content, with the files `names` apart from the placeholders. -/
def emissions (text contentFormat : List UInt8) (attachments : Attachments)
    (images : List ImageData) (array : Bool) (names : List (List UInt8)) : List Emission :=
  (shownNames toLower contentFormat attachments names).map .file ++
    (images.filter fun img => willEmitBinary toLower contentFormat img.mime).map .image ++
    (segments text attachments).flatMap
      (Segment.emissions toLower contentFormat attachments array) ++
    (textNames attachments names).map .file

theorem binaryItems_nil (contentFormat mimeType base64Data : List UInt8) :
    binaryItems toLower contentFormat mimeType base64Data [] =
      if willEmitBinary toLower contentFormat mimeType then
        [prependItem toLower contentFormat mimeType base64Data]
      else [] := by
  rw [binaryItems, willEmitBinary, prependItem]
  cases isImageMime toLower mimeType with
  | true => simp
  | false =>
    by_cases hformat : contentFormat = ascii "anthropic"
    · simp [hformat]
    · simp [hformat]

theorem binaryItems_of_emit {mimeType base64Data refName : List UInt8}
    (h : willEmitBinary toLower contentFormat mimeType = true) :
    binaryItems toLower contentFormat mimeType base64Data refName =
      [prependItem toLower contentFormat mimeType base64Data] := by
  rw [willEmitBinary] at h
  rw [binaryItems, prependItem]
  cases hmime : isImageMime toLower mimeType with
  | true => simp
  | false => simp_all

theorem binaryItems_of_not_emit {mimeType base64Data refName : List UInt8}
    (h : willEmitBinary toLower contentFormat mimeType = false) :
    binaryItems toLower contentFormat mimeType base64Data refName =
      if refName ≠ [] then [.text (placeholder refName)] else [] := by
  rw [willEmitBinary] at h
  rw [binaryItems]
  cases hmime : isImageMime toLower mimeType with
  | true => simp [hmime] at h
  | false => simp_all [placeholder]

theorem items_shownNames (names : List (List UInt8)) :
    ((shownNames toLower contentFormat attachments names).map Emission.file).map
        (Emission.item toLower attachments contentFormat) =
      ((names.filterMap attachments.get?).filter (!·.isText)).flatMap fun att =>
        binaryItems toLower contentFormat att.mimeType att.base64 [] := by
  induction names with
  | nil => rfl
  | cons name names ih =>
    rw [shownNames] at ih ⊢
    cases hatt : attachments.get? name with
    | none => simpa [List.filter_cons, List.filterMap_cons, hatt] using ih
    | some att =>
      cases htext : att.isText with
      | true => simpa [List.filter_cons, List.filterMap_cons, hatt, htext] using ih
      | false =>
        cases hemit : willEmitBinary toLower contentFormat att.mimeType with
        | true =>
          simpa [List.filter_cons, List.filterMap_cons, hatt, htext, hemit, binaryItems_nil,
            Emission.item] using ih
        | false =>
          simpa [List.filter_cons, List.filterMap_cons, hatt, htext, hemit, binaryItems_nil]
            using ih

theorem items_textNames (names : List (List UInt8)) :
    ((textNames attachments names).map Emission.file).map
        (Emission.item toLower attachments contentFormat) =
      ((names.filterMap attachments.get?).filter (·.isText)).map fun att => .text att.text := by
  induction names with
  | nil => rfl
  | cons name names ih =>
    rw [textNames] at ih ⊢
    cases hatt : attachments.get? name with
    | none => simpa [List.filter_cons, List.filterMap_cons, hatt] using ih
    | some att =>
      cases htext : att.isText with
      | true =>
        simpa [List.filter_cons, List.filterMap_cons, hatt, htext, Emission.item] using ih
      | false => simpa [List.filter_cons, List.filterMap_cons, hatt, htext] using ih

theorem items_images (images : List ImageData) :
    ((images.filter fun img => willEmitBinary toLower contentFormat img.mime).map
        Emission.image).map (Emission.item toLower attachments contentFormat) =
      images.flatMap fun img => binaryItems toLower contentFormat img.mime img.base64 [] := by
  induction images with
  | nil => rfl
  | cons img images ih =>
    rw [List.flatMap_cons, binaryItems_nil, ← ih, List.filter_cons]
    split
    · simp [Emission.item]
    · simp

/-- The parts of a segment are those of its pieces. -/
theorem items_segment {seg : Segment} (h : seg ∈ segments text attachments) :
    partItems toLower contentFormat (seg.part attachments) =
      (seg.emissions toLower contentFormat attachments true).map
        (Emission.item toLower attachments contentFormat) := by
  cases seg with
  | literal lit => simp [partItems, Segment.part, Segment.emissions, Emission.item]
  | resolved name =>
    obtain ⟨att, hatt⟩ := get?_of_resolved h
    cases htext : att.isText with
    | true =>
      simp [partItems, Segment.part, Segment.emissions, Emission.item, Shown, hatt, htext]
    | false =>
      cases hemit : willEmitBinary toLower contentFormat att.mimeType with
      | true =>
        simp [partItems, Segment.part, Segment.emissions, Emission.item, Shown, hatt, htext, hemit,
          binaryItems_of_emit]
      | false =>
        by_cases hname : name = []
        · subst hname
          simp [partItems, Segment.part, Segment.emissions, Shown, hatt, htext, hemit,
            binaryItems_of_not_emit]
        · simp [partItems, Segment.part, Segment.emissions, Emission.item, Shown, hatt, htext,
            hemit, binaryItems_of_not_emit, hname]

/-- The text of a segment is that of its pieces where nothing needs an array. -/
theorem text_segment (hnone : ¬ NeedsArray toLower contentFormat attachments images)
    {seg : Segment} (h : seg ∈ segments text attachments) :
    ∃ piece, seg.emissions toLower contentFormat attachments false = [piece] ∧
      (piece.item toLower attachments contentFormat).isBinary = false ∧
      (piece.item toLower attachments contentFormat).written =
        plainText (seg.part attachments) := by
  cases seg with
  | literal lit => exact ⟨_, rfl, rfl, rfl⟩
  | resolved name =>
    obtain ⟨att, hatt⟩ := get?_of_resolved h
    cases htext : att.isText with
    | true =>
      refine ⟨.file name, ?_, ?_, ?_⟩
      · simp [Segment.emissions, Shown, hatt, htext]
      · simp [Emission.item, hatt, htext, Item.isBinary]
      · simp [Emission.item, Segment.part, plainText, hatt, htext, Item.written]
    | false =>
      have hemit : willEmitBinary toLower contentFormat att.mimeType = false := by
        by_contra h
        exact hnone (.inr ⟨name, att, hatt, htext, eq_true_of_ne_false h⟩)
      refine ⟨.kept name, ?_, rfl, ?_⟩
      · simp [Segment.emissions, Shown, hatt, htext, hemit]
      · simp [Emission.item, Segment.part, plainText, hatt, htext, Item.written, placeholder]

/-- **What is appended** has these pieces. -/
theorem consists_array (h : NeedsArray toLower contentFormat attachments images) :
    Consists (contentValue toLower text attachments images contentFormat)
      ((emissions toLower text contentFormat attachments images true
        (unreferencedNames attachments (parsePlaceholders text attachments))).map
          (Emission.item toLower attachments contentFormat)) := by
  refine .inr ?_
  rw [contentValue, if_pos ((hasBinaryPart_iff toLower).mpr h), contentItems, emissions]
  have hsegs : (parsePlaceholders text attachments).flatMap (partItems toLower contentFormat) =
      ((segments text attachments).flatMap
        (Segment.emissions toLower contentFormat attachments true)).map
          (Emission.item toLower attachments contentFormat) := by
    rw [parsePlaceholders_eq, List.flatMap_map, List.map_flatMap]
    exact List.flatMap_congr fun seg hseg => items_segment toLower hseg
  simp only [List.map_append]
  rw [items_shownNames, items_images, items_textNames, hsegs, unreferenced_eq]

theorem consists_string (h : ¬ NeedsArray toLower contentFormat attachments images) :
    Consists (contentValue toLower text attachments images contentFormat)
      ((emissions toLower text contentFormat attachments images false
        (unreferencedNames attachments (parsePlaceholders text attachments))).map
          (Emission.item toLower attachments contentFormat)) := by
  obtain ⟨himages, hatts⟩ := not_or.mp h
  have hshown : ∀ names, shownNames toLower contentFormat attachments names = [] := by
    intro names
    refine List.filter_eq_nil_iff.mpr fun name _ hany => ?_
    obtain ⟨att, hatt, hboth⟩ := (Option.any_eq_true _ _).mp hany
    rw [Bool.and_eq_true, Bool.not_eq_true'] at hboth
    exact hatts ⟨name, att, hatt, hboth⟩
  have hpieces : (emissions toLower text contentFormat attachments images false
      (unreferencedNames attachments (parsePlaceholders text attachments))).map
        (Emission.item toLower attachments contentFormat) =
      ((segments text attachments).flatMap
        (Segment.emissions toLower contentFormat attachments false)).map
          (Emission.item toLower attachments contentFormat) ++
      ((unreferenced attachments (parsePlaceholders text attachments)).filter (·.isText)).map
        fun att => .text att.text := by
    have htexts := @items_textNames toLower contentFormat attachments
      (unreferencedNames attachments (parsePlaceholders text attachments))
    rw [emissions, hshown, not_not.mp himages, unreferenced_eq, ← htexts]
    simp
  have hsegs : (((segments text attachments).flatMap
      (Segment.emissions toLower contentFormat attachments false)).map
        (Emission.item toLower attachments contentFormat)).flatMap Item.written =
      (parsePlaceholders text attachments).flatMap plainText := by
    rw [parsePlaceholders_eq, List.map_flatMap, List.flatMap_assoc, List.flatMap_map]
    refine List.flatMap_congr fun seg hseg => ?_
    obtain ⟨piece, hpiece, -, hwritten⟩ := text_segment toLower h hseg
    rw [hpiece, ← hwritten]
    simp
  refine .inl ⟨?_, ?_⟩
  · rw [contentValue, if_neg (mt (hasBinaryPart_iff toLower).mp h), plainContent, hpieces,
      List.flatMap_append, hsegs, List.flatMap_map]
    rfl
  · intro i hi
    rw [hpieces, List.mem_append] at hi
    rcases hi with hi | hi
    · obtain ⟨piece', hpiece', rfl⟩ := List.mem_map.mp hi
      obtain ⟨seg, hseg, hmem⟩ := List.mem_flatMap.mp hpiece'
      obtain ⟨piece, hpiece, hbinary, -⟩ := text_segment toLower h hseg
      rw [hpiece, List.mem_singleton] at hmem
      rwa [hmem]
    · obtain ⟨att, -, rfl⟩ := List.mem_map.mp hi
      rfl

/-! ## How often each piece is there -/

theorem count_file_segments (array : Bool) (segs : List Segment) (name : List UInt8) :
    (segs.flatMap (Segment.emissions toLower contentFormat attachments array)).count
        (.file name) =
      if (attachments.get? name).any (Shown toLower contentFormat) then
        segs.count (.resolved name)
      else 0 := by
  induction segs with
  | nil => simp
  | cons seg segs ih =>
    rw [List.flatMap_cons, List.count_append, ih]
    cases seg with
    | literal lit => simp [Segment.emissions]
    | resolved refName =>
      by_cases hname : refName = name
      · subst hname
        rw [Segment.emissions]
        split
        · simp
          omega
        · split <;> simp
      · have hne : ¬ Segment.resolved refName = .resolved name := by simpa using hname
        rw [List.count_cons_of_ne hne, Segment.emissions]
        split
        · simp [hname]
        · split <;> simp

theorem count_kept_segments (array : Bool) (segs : List Segment) (name : List UInt8) :
    (segs.flatMap (Segment.emissions toLower contentFormat attachments array)).count
        (.kept name) =
      if ¬ (attachments.get? name).any (Shown toLower contentFormat) ∧
          (name ≠ [] ∨ array = false) then
        segs.count (.resolved name)
      else 0 := by
  induction segs with
  | nil => simp
  | cons seg segs ih =>
    rw [List.flatMap_cons, List.count_append, ih]
    cases seg with
    | literal lit => simp [Segment.emissions]
    | resolved refName =>
      by_cases hname : refName = name
      · subst hname
        rw [Segment.emissions]
        by_cases hshown : (attachments.get? refName).any (Shown toLower contentFormat) = true
        · simp [hshown]
        · by_cases hkeep : refName ≠ [] ∨ array = false
          · simp [hshown, hkeep]
            omega
          · simp [hshown, hkeep]
      · have hne : ¬ Segment.resolved refName = .resolved name := by simpa using hname
        rw [List.count_cons_of_ne hne, Segment.emissions]
        split
        · simp
        · split
          · simp [hname]
          · simp

theorem count_image_segments (array : Bool) (segs : List Segment) (img : ImageData) :
    (segs.flatMap (Segment.emissions toLower contentFormat attachments array)).count
      (.image img) = 0 := by
  refine List.count_eq_zero.mpr fun hmem => ?_
  obtain ⟨seg, -, hseg⟩ := List.mem_flatMap.mp hmem
  cases seg with
  | literal lit => simp [Segment.emissions] at hseg
  | resolved name =>
    rw [Segment.emissions] at hseg
    split at hseg
    · simp at hseg
    · split at hseg <;> simp at hseg

theorem literals_segments (array : Bool) (segs : List Segment) :
    (segs.flatMap (Segment.emissions toLower contentFormat attachments array)).filterMap
      Emission.literal? = segs.filterMap Segment.literal? := by
  induction segs with
  | nil => rfl
  | cons seg segs ih =>
    rw [List.flatMap_cons, List.filterMap_append, ih]
    cases seg with
    | literal lit => rfl
    | resolved name =>
      have hnone : (Segment.emissions toLower contentFormat attachments array
          (.resolved name)).filterMap Emission.literal? = [] := by
        rw [Segment.emissions]
        split
        · rfl
        · split <;> rfl
      rw [hnone]
      rfl

/-- How often a file is there: once apart from the placeholders, and for each of them. -/
theorem count_file {names : List (List UInt8)} (hnodup : names.Nodup) (array : Bool)
    (name : List UInt8) :
    (emissions toLower text contentFormat attachments images array names).count (.file name) =
      if (attachments.get? name).any (Shown toLower contentFormat) then
        (if name ∈ names then 1 else 0) + uses text attachments name
      else 0 := by
  have hinj : Function.Injective Emission.file := fun _ _ => Emission.file.inj
  have himages : ((images.filter fun img => willEmitBinary toLower contentFormat img.mime).map
      Emission.image).count (.file name) = 0 := by
    refine List.count_eq_zero.mpr fun hmem => ?_
    obtain ⟨img, -, heq⟩ := List.mem_map.mp hmem
    cases heq
  have hshown : (shownNames toLower contentFormat attachments names).count name =
      if name ∈ shownNames toLower contentFormat attachments names then 1 else 0 :=
    (hnodup.filter _).count
  have htexts : (textNames attachments names).count name =
      if name ∈ textNames attachments names then 1 else 0 :=
    (hnodup.filter _).count
  rw [emissions, List.count_append, List.count_append, List.count_append,
    List.count_map_of_injective _ _ hinj, List.count_map_of_injective _ _ hinj, himages,
    count_file_segments, hshown, htexts, uses]
  simp only [shownNames, textNames, List.mem_filter]
  cases hatt : attachments.get? name with
  | none => simp
  | some att =>
    cases htext : att.isText with
    | true =>
      by_cases hname : name ∈ names
      · simp [Shown, htext, hname]
        omega
      · simp [Shown, htext, hname]
    | false =>
      cases hemit : willEmitBinary toLower contentFormat att.mimeType with
      | true => by_cases hname : name ∈ names <;> simp [Shown, htext, hemit, hname]
      | false => simp [Shown, htext, hemit]

theorem count_kept (array : Bool) (names : List (List UInt8)) (name : List UInt8) :
    (emissions toLower text contentFormat attachments images array names).count (.kept name) =
      if ¬ (attachments.get? name).any (Shown toLower contentFormat) ∧
          (name ≠ [] ∨ array = false) then
        uses text attachments name
      else 0 := by
  have hfiles : ∀ ns : List (List UInt8), (ns.map Emission.file).count (.kept name) = 0 := by
    intro ns
    refine List.count_eq_zero.mpr fun hmem => ?_
    obtain ⟨n, -, heq⟩ := List.mem_map.mp hmem
    cases heq
  have himages : ∀ is : List ImageData, (is.map Emission.image).count (.kept name) = 0 := by
    intro is
    refine List.count_eq_zero.mpr fun hmem => ?_
    obtain ⟨img, -, heq⟩ := List.mem_map.mp hmem
    cases heq
  rw [emissions, List.count_append, List.count_append, List.count_append, hfiles, hfiles, himages,
    count_kept_segments, uses]
  simp

theorem count_image (array : Bool) (names : List (List UInt8)) (img : ImageData) :
    (emissions toLower text contentFormat attachments images array names).count (.image img) =
      (images.filter fun img => willEmitBinary toLower contentFormat img.mime).count img := by
  have hinj : Function.Injective Emission.image := fun _ _ => Emission.image.inj
  have hfiles : ∀ ns : List (List UInt8), (ns.map Emission.file).count (.image img) = 0 := by
    intro ns
    refine List.count_eq_zero.mpr fun hmem => ?_
    obtain ⟨n, -, heq⟩ := List.mem_map.mp hmem
    cases heq
  rw [emissions, List.count_append, List.count_append, List.count_append, hfiles, hfiles,
    List.count_map_of_injective _ _ hinj, count_image_segments]
  simp

theorem literals_emissions (array : Bool) (names : List (List UInt8)) :
    (emissions toLower text contentFormat attachments images array names).filterMap
      Emission.literal? = (segments text attachments).filterMap Segment.literal? := by
  have hnone : ∀ {α : Type} (f : α → Emission) (xs : List α), (∀ x, (f x).literal? = none) →
      (xs.map f).filterMap Emission.literal? = [] := by
    intro α f xs h
    rw [List.filterMap_map]
    exact List.filterMap_eq_nil_iff.mpr fun x _ => h x
  rw [emissions, List.filterMap_append, List.filterMap_append, List.filterMap_append,
    literals_segments, hnone Emission.file _ (fun _ => rfl), hnone Emission.file _ (fun _ => rfl),
    hnone Emission.image _ (fun _ => rfl)]
  simp

end Emissions

/-! ## When the tally is right -/

section ContentConserved

variable {text contentFormat : List UInt8} {attachments : Attachments} {images : List ImageData}
  {v : Value}

theorem gather_texts {items : List Item} (h : ∀ i ∈ items, i.isBinary = false)
    (acc : List UInt8) : gather acc items = gather (acc ++ items.flatMap Item.written) [] := by
  induction items generalizing acc with
  | nil => rw [List.flatMap_nil, List.append_nil]
  | cons i items ih =>
    cases i with
    | text s =>
      have hstep : gather acc (.text s :: items) = gather (acc ++ s) items := rfl
      rw [hstep, ih fun i hi => h i (List.mem_cons_of_mem _ hi), List.flatMap_cons, Item.written,
        List.append_assoc]
    | image m b => exact absurd (h _ List.mem_cons_self) (by simp [Item.isBinary])
    | document m b => exact absurd (h _ List.mem_cons_self) (by simp [Item.isBinary])

/-- Texts at the end count as what they say together. -/
theorem gather_append {items items' : List Item} (h : ∀ i ∈ items, i.isBinary = false)
    (h' : ∀ i ∈ items', i.isBinary = false)
    (heq : items.flatMap Item.written = items'.flatMap Item.written) (acc : List UInt8)
    (before : List Item) : gather acc (before ++ items) = gather acc (before ++ items') := by
  induction before generalizing acc with
  | nil => rw [List.nil_append, List.nil_append, gather_texts h, gather_texts h', heq]
  | cons i before ih =>
    rw [List.cons_append, List.cons_append]
    cases i with
    | text s => rw [gather, gather, ih]
    | image m b => rw [gather_binary rfl, gather_binary rfl, ih]
    | document m b => rw [gather_binary rfl, gather_binary rfl, ih]

theorem Consists.append {before items items' : List Item} (h : Consists v (before ++ items))
    (htexts : ∀ i ∈ items, i.isBinary = false) (htexts' : ∀ i ∈ items', i.isBinary = false)
    (heq : items.flatMap Item.written = items'.flatMap Item.written) :
    Consists v (before ++ items') := by
  rcases h with ⟨rfl, hall⟩ | rfl
  · refine .inl ⟨?_, ?_⟩
    · rw [List.flatMap_append, List.flatMap_append, heq]
    · intro i hi
      rw [List.mem_append] at hi
      exact hi.elim (fun hi => hall i (List.mem_append_left _ hi)) (htexts' i)
  · exact .inr (by rw [gather_append htexts htexts' heq])

/-- The images have a place in the format, and no file without a name is referred to but one that
leaves no trace: a text file with no text, or, where nothing needs an array, one that the format
cannot show. A file without a name counts as one that no placeholder uses, even where one does, and
is given once more. -/
structure Countable (text : List UInt8) (attachments : Attachments) (images : List ImageData)
    (contentFormat : List UInt8) : Prop where
  shown : ∀ img ∈ images, willEmitBinary toLower contentFormat img.mime = true
  nameless : ∀ att, attachments.get? [] = some att → .resolved [] ∈ segments text attachments →
    (att.isText = true ∧ att.text = []) ∨ (Shown toLower contentFormat att = false ∧
      ¬ NeedsArray toLower contentFormat attachments images)

/-- The names that are not resolved. -/
def unresolvedNames (text : List UInt8) (attachments : Attachments) : List (List UInt8) :=
  (unreferencedNames attachments (parsePlaceholders text attachments)).filter
    fun name => .resolved name ∉ segments text attachments

theorem mem_unresolvedNames {name : List UInt8} : name ∈ unresolvedNames text attachments ↔
    (∃ att, attachments.get? name = some att) ∧ uses text attachments name = 0 := by
  rw [unresolvedNames, List.mem_filter, mem_unreferencedNames, decide_eq_true_eq, uses,
    List.count_eq_zero]
  constructor
  · exact fun h => ⟨h.1.1, h.2⟩
  · exact fun h => ⟨⟨h.1, .inr h.2⟩, h.2⟩

theorem nodup_unresolvedNames (text : List UInt8) (attachments : Attachments) :
    (unresolvedNames text attachments).Nodup :=
  (nodup_unreferencedNames _ _).filter _

theorem uses_of_none {name : List UInt8} (h : attachments.get? name = none) :
    uses text attachments name = 0 := by
  refine List.count_eq_zero.mpr fun hmem => ?_
  obtain ⟨att, hatt⟩ := get?_of_resolved hmem
  rw [h] at hatt
  cases hatt

theorem tallied_emissions (h : Countable toLower text attachments images contentFormat)
    {array : Bool} (harray : array = true → NeedsArray toLower contentFormat attachments images) :
    Tallied toLower text attachments images contentFormat
      (emissions toLower text contentFormat attachments images array
        (unresolvedNames text attachments)) where
  file := by
    intro name
    rw [count_file toLower (nodup_unresolvedNames text attachments), fileDue]
    split
    · rename_i hshown
      obtain ⟨att, hatt, -⟩ := (Option.any_eq_true _ _).mp hshown
      by_cases huses : uses text attachments name = 0
      · rw [if_pos (mem_unresolvedNames.mpr ⟨⟨att, hatt⟩, huses⟩), huses]
        rfl
      · rw [if_neg fun hmem => huses (mem_unresolvedNames.mp hmem).2]
        omega
    · rfl
  kept := by
    intro name
    rw [count_kept, keptDue]
    cases hatt : attachments.get? name with
    | none => simp [uses_of_none hatt]
    | some att =>
      cases hshown : Shown toLower contentFormat att with
      | true => simp [hshown]
      | false =>
        by_cases hkeep : name ≠ [] ∨ array = false
        · simp [hshown, hkeep]
        · -- the empty name, in an array: it is not resolved
          obtain ⟨hname, hnot⟩ := not_or.mp hkeep
          have hempty : name = [] := not_not.mp hname
          subst hempty
          have huses : uses text attachments [] = 0 := by
            refine List.count_eq_zero.mpr fun hmem => ?_
            rcases h.nameless att hatt hmem with ⟨htext, -⟩ | ⟨-, hnone⟩
            · simp [Shown, htext] at hshown
            · exact hnone (harray (eq_true_of_ne_false hnot))
          simp [huses]
  image := by
    intro img
    rw [count_image, List.filter_eq_self.mpr h.shown]
  literal := literals_emissions toLower array _

theorem text_items (names : List (List UInt8)) :
    ∀ i ∈ ((textNames attachments names).map Emission.file).map
      (Emission.item toLower attachments contentFormat), i.isBinary = false := by
  rw [items_textNames]
  intro i hi
  obtain ⟨att, -, rfl⟩ := List.mem_map.mp hi
  rfl

theorem flatMap_filter_of_nil {α β : Type} {f : α → List β} {q : α → Bool} {l : List α}
    (h : ∀ x ∈ l, q x = false → f x = []) : (l.filter q).flatMap f = l.flatMap f := by
  induction l with
  | nil => rfl
  | cons x l ih =>
    rw [List.filter_cons, List.flatMap_cons]
    cases hq : q x with
    | true => simp [ih fun y hy => h y (List.mem_cons_of_mem _ hy)]
    | false =>
      simp [h x List.mem_cons_self hq, ih fun y hy => h y (List.mem_cons_of_mem _ hy)]

/-- Of the names that no placeholder uses only the empty one is resolved. -/
theorem eq_nil_of_unreferenced {name : List UInt8}
    (h : name ∈ unreferencedNames attachments (parsePlaceholders text attachments))
    (hseg : .resolved name ∈ segments text attachments) : name = [] :=
  (mem_unreferencedNames.mp h).2.resolve_right (not_not.mpr hseg)

/-- The content has the pieces without the names that are resolved, too. -/
theorem consists_unresolved (h : Countable toLower text attachments images contentFormat)
    {array : Bool}
    (hv : Consists v ((emissions toLower text contentFormat attachments images array
      (unreferencedNames attachments (parsePlaceholders text attachments))).map
        (Emission.item toLower attachments contentFormat))) :
    Consists v ((emissions toLower text contentFormat attachments images array
      (unresolvedNames text attachments)).map
        (Emission.item toLower attachments contentFormat)) := by
  have hshown : shownNames toLower contentFormat attachments (unresolvedNames text attachments) =
      shownNames toLower contentFormat attachments
        (unreferencedNames attachments (parsePlaceholders text attachments)) := by
    rw [shownNames, shownNames, unresolvedNames, List.filter_filter]
    refine List.filter_congr fun name hname => ?_
    rw [Bool.and_eq_left_iff_imp, decide_eq_true_eq]
    intro hany hseg
    have hempty := eq_nil_of_unreferenced hname hseg
    subst hempty
    obtain ⟨att, hatt, hboth⟩ := (Option.any_eq_true _ _).mp hany
    rcases h.nameless att hatt hseg with ⟨htext, -⟩ | ⟨hnot, -⟩
    · simp [htext] at hboth
    · simp_all [Shown]
  rw [emissions, List.map_append] at hv ⊢
  rw [hshown]
  refine hv.append (text_items toLower _) (text_items toLower _) ?_
  -- a name that is resolved is that of an empty text
  have hcomm : textNames attachments (unresolvedNames text attachments) =
      (textNames attachments (unreferencedNames attachments
        (parsePlaceholders text attachments))).filter
          fun name => .resolved name ∉ segments text attachments := by
    rw [textNames, textNames, unresolvedNames, List.filter_filter, List.filter_filter]
    exact List.filter_congr fun name _ => Bool.and_comm _ _
  rw [hcomm, List.map_map, List.map_map, List.flatMap_map, List.flatMap_map]
  refine (flatMap_filter_of_nil fun name hname hseg => ?_).symm
  obtain ⟨hname, hany⟩ := List.mem_filter.mp hname
  have hseg : .resolved name ∈ segments text attachments := by simpa using hseg
  have hempty := eq_nil_of_unreferenced hname hseg
  subst hempty
  obtain ⟨att, hatt, htext⟩ := (Option.any_eq_true _ _).mp hany
  rcases h.nameless att hatt hseg with ⟨-, hnil⟩ | ⟨hnot, -⟩
  · simp [Emission.item, hatt, htext, hnil, Item.written]
  · simp [Shown, htext] at hnot

/-- **The pieces of what is appended.** -/
theorem consists_content (text contentFormat : List UInt8) (attachments : Attachments)
    (images : List ImageData) : ∃ array,
      (array = true ↔ NeedsArray toLower contentFormat attachments images) ∧
        Consists (contentValue toLower text attachments images contentFormat)
          ((emissions toLower text contentFormat attachments images array
            (unreferencedNames attachments (parsePlaceholders text attachments))).map
              (Emission.item toLower attachments contentFormat)) := by
  by_cases harray : NeedsArray toLower contentFormat attachments images
  · exact ⟨true, by simp [harray], consists_array toLower harray⟩
  · exact ⟨false, by simp [harray], consists_string toLower harray⟩

theorem conserved_of_countable (h : Countable toLower text attachments images contentFormat) :
    ContentConserved toLower text attachments images contentFormat := by
  obtain ⟨array, harray, hv⟩ := consists_content toLower text contentFormat attachments images
  intro buf
  exact ⟨_, _, _, appendContentWithAttachments_eq toLower buf text attachments images contentFormat,
    (reads_contentText toLower text attachments images contentFormat).parse,
    tallied_emissions toLower h harray.mp, consists_unresolved toLower h hv⟩

/-! ## What goes wrong -/

/-- The piece that is there once too often. -/
def surplus (text contentFormat : List UInt8) (attachments : Attachments) : List Emission :=
  if 0 < uses text attachments [] ∧
      (attachments.get? []).any (Shown toLower contentFormat) then [.file []]
  else []

/-- The pieces that are missing. -/
def deficit (text contentFormat : List UInt8) (attachments : Attachments)
    (images : List ImageData) (array : Bool) : List Emission :=
  (images.filter fun img => !willEmitBinary toLower contentFormat img.mime).map .image ++
    if array ∧ (attachments.get? []).any (!Shown toLower contentFormat ·) then
      List.replicate (uses text attachments []) (.kept [])
    else []

theorem mem_surplus {piece : Emission}
    (h : piece ∈ surplus toLower text contentFormat attachments) : piece = .file [] := by
  rw [surplus] at h
  split at h
  · exact List.mem_singleton.mp h
  · simp at h

theorem mem_deficit {piece : Emission} {array : Bool}
    (h : piece ∈ deficit toLower text contentFormat attachments images array) :
    (∃ img, piece = .image img) ∨ piece = .kept [] := by
  rw [deficit, List.mem_append] at h
  rcases h with himage | hkept
  · obtain ⟨img, -, rfl⟩ := List.mem_map.mp himage
    exact .inl ⟨img, rfl⟩
  · split at hkept
    · exact .inr (List.eq_of_mem_replicate hkept)
    · simp at hkept

theorem count_literal (pieces : List Emission) (lit : List UInt8) :
    pieces.count (.literal lit) = (pieces.filterMap Emission.literal?).count lit := by
  induction pieces with
  | nil => rfl
  | cons piece pieces ih =>
    rw [List.count_cons, ih, List.filterMap_cons]
    cases piece with
    | literal lit' => simp [Emission.literal?, List.count_cons]
    | file name => simp [Emission.literal?]
    | kept name => simp [Emission.literal?]
    | image img => simp [Emission.literal?]

theorem count_deficit_kept (array : Bool) (name : List UInt8) :
    (deficit toLower text contentFormat attachments images array).count (.kept name) =
      if name = [] ∧ array ∧ (attachments.get? []).any (!Shown toLower contentFormat ·) then
        uses text attachments []
      else 0 := by
  have himages : ∀ is : List ImageData, (is.map Emission.image).count (.kept name) = 0 := by
    intro is
    refine List.count_eq_zero.mpr fun hmem => ?_
    obtain ⟨img, -, heq⟩ := List.mem_map.mp hmem
    cases heq
  rw [deficit, List.count_append, himages, Nat.zero_add]
  by_cases hname : name = []
  · subst hname
    by_cases hlost : array = true ∧ (attachments.get? []).any (!Shown toLower contentFormat ·)
    · rw [if_pos hlost, if_pos ⟨rfl, hlost⟩, List.count_replicate_self]
    · rw [if_neg hlost, if_neg fun h => hlost h.2, List.count_nil]
  · have hnone : ∀ n, (List.replicate n (Emission.kept [])).count (.kept name) = 0 := by
      intro n
      refine List.count_eq_zero.mpr fun hmem => ?_
      exact hname (Emission.kept.inj (List.eq_of_mem_replicate hmem))
    rw [if_neg fun h : name = [] ∧ _ => hname h.1]
    split
    · exact hnone _
    · rfl

theorem count_deficit_image (array : Bool) (img : ImageData) :
    (deficit toLower text contentFormat attachments images array).count (.image img) =
      (images.filter fun img => !willEmitBinary toLower contentFormat img.mime).count img := by
  have hinj : Function.Injective Emission.image := fun _ _ => Emission.image.inj
  rw [deficit, List.count_append, List.count_map_of_injective _ _ hinj, Nat.add_eq_left]
  refine List.count_eq_zero.mpr fun hmem => ?_
  split at hmem
  · simpa using List.eq_of_mem_replicate hmem
  · simp at hmem

/-- **The balance** of what is there and what is due: a permutation, since the order of the parts is
another matter. What is missing and what is given twice are named on the two sides, and both are
empty where the condition holds. -/
theorem balance {pieces : List Emission}
    (h : Tallied toLower text attachments images contentFormat pieces) (array : Bool) :
    (emissions toLower text contentFormat attachments images array
        (unreferencedNames attachments (parsePlaceholders text attachments)) ++
      deficit toLower text contentFormat attachments images array).Perm
      (pieces ++ surplus toLower text contentFormat attachments) := by
  have hsurplus : ∀ piece, piece ≠ .file [] →
      (surplus toLower text contentFormat attachments).count piece = 0 := fun piece hne =>
    List.count_eq_zero.mpr fun hmem => hne (mem_surplus toLower hmem)
  refine List.perm_iff_count.mpr fun piece => ?_
  rw [List.count_append, List.count_append]
  cases piece with
  | literal lit =>
    have hdeficit : (deficit toLower text contentFormat attachments images array).count
        (.literal lit) = 0 :=
      List.count_eq_zero.mpr fun hmem => by simpa using mem_deficit toLower hmem
    rw [hdeficit, hsurplus _ (by simp), count_literal, count_literal, h.literal,
      literals_emissions]
  | file name =>
    have hdeficit : (deficit toLower text contentFormat attachments images array).count
        (.file name) = 0 :=
      List.count_eq_zero.mpr fun hmem => by simpa using mem_deficit toLower hmem
    rw [count_file toLower (nodup_unreferencedNames _ _), h.file, fileDue, hdeficit, Nat.add_zero]
    by_cases hshown : (attachments.get? name).any (Shown toLower contentFormat) = true
    · rw [if_pos hshown, if_pos hshown]
      obtain ⟨att, hatt, -⟩ := (Option.any_eq_true _ _).mp hshown
      by_cases hname : name = []
      · subst hname
        rw [if_pos (mem_unreferencedNames.mpr ⟨⟨att, hatt⟩, .inl rfl⟩), surplus]
        by_cases huses : 0 < uses text attachments []
        · rw [if_pos ⟨huses, hshown⟩, List.count_singleton_self]
          omega
        · rw [if_neg fun h => huses h.1, List.count_nil]
          omega
      · have hmem : name ∈ unreferencedNames attachments (parsePlaceholders text attachments) ↔
            uses text attachments name = 0 := by
          rw [mem_unreferencedNames, uses, List.count_eq_zero]
          exact ⟨fun h => h.2.resolve_left hname, fun h => ⟨⟨att, hatt⟩, .inr h⟩⟩
        rw [hsurplus _ (by simpa using hname), if_congr hmem rfl rfl]
        split <;> omega
    · rw [if_neg hshown, if_neg hshown]
      have hnone : surplus toLower text contentFormat attachments = [] ∨ name ≠ [] := by
        by_cases hname : name = []
        · subst hname
          exact .inl (if_neg fun h => hshown h.2)
        · exact .inr hname
      rcases hnone with hnil | hname
      · rw [hnil, List.count_nil]
      · rw [hsurplus _ (by simpa using hname)]
  | kept name =>
    rw [count_kept, h.kept, keptDue, count_deficit_kept, hsurplus _ (by simp), Nat.add_zero]
    by_cases hname : name = []
    · subst hname
      cases hatt : attachments.get? [] with
      | none => simp [uses_of_none hatt]
      | some att => cases Shown toLower contentFormat att <;> cases array <;> simp
    · cases hatt : attachments.get? name with
      | none => simp [uses_of_none hatt, hname]
      | some att => simp [hname]
  | image img =>
    rw [count_image, h.image, hsurplus _ (by simp), count_deficit_image, ← List.count_append,
      Nat.add_zero]
    exact List.perm_iff_count.mp (List.filter_append_perm _ images) img

/-- The binary parts of pieces. -/
def binaryValues (contentFormat : List UInt8) (attachments : Attachments)
    (pieces : List Emission) : List Value :=
  ((pieces.map (Emission.item toLower attachments contentFormat)).filter Item.isBinary).map
    Item.value

/-- How much text there is in pieces. -/
def textLength (contentFormat : List UInt8) (attachments : Attachments)
    (pieces : List Emission) : Nat :=
  ((pieces.map (Emission.item toLower attachments contentFormat)).flatMap Item.written).length

theorem binaryValues_append (pieces more : List Emission) :
    binaryValues toLower contentFormat attachments (pieces ++ more) =
      binaryValues toLower contentFormat attachments pieces ++
        binaryValues toLower contentFormat attachments more := by
  simp only [binaryValues, List.map_append, List.filter_append]

theorem textLength_append (pieces more : List Emission) :
    textLength toLower contentFormat attachments (pieces ++ more) =
      textLength toLower contentFormat attachments pieces +
        textLength toLower contentFormat attachments more := by
  simp only [textLength, List.map_append, List.flatMap_append, List.length_append]

/-- Where the content has both pieces, what is missing looks like what is there too often. -/
theorem deficit_surplus {pieces : List Emission} {array : Bool}
    (h : Tallied toLower text attachments images contentFormat pieces)
    (hpieces : Consists v (pieces.map (Emission.item toLower attachments contentFormat)))
    (hv : Consists v ((emissions toLower text contentFormat attachments images array
      (unreferencedNames attachments (parsePlaceholders text attachments))).map
        (Emission.item toLower attachments contentFormat))) :
    (binaryValues toLower contentFormat attachments
        (deficit toLower text contentFormat attachments images array)).Perm
      (binaryValues toLower contentFormat attachments
        (surplus toLower text contentFormat attachments)) ∧
    textLength toLower contentFormat attachments
        (deficit toLower text contentFormat attachments images array) =
      textLength toLower contentFormat attachments
        (surplus toLower text contentFormat attachments) := by
  have hbalance := balance toLower h array
  have hbinary := hv.binaryParts.symm.trans hpieces.binaryParts
  have htext := hv.textIn.symm.trans hpieces.textIn
  constructor
  · have hperm : (binaryValues toLower contentFormat attachments (_ ++ _)).Perm
        (binaryValues toLower contentFormat attachments (_ ++ _)) :=
      ((hbalance.map (Emission.item toLower attachments contentFormat)).filter
        Item.isBinary).map Item.value
    rw [binaryValues_append, binaryValues_append, binaryValues, hbinary] at hperm
    exact (List.perm_append_left_iff _).mp hperm
  · have hlen : textLength toLower contentFormat attachments (_ ++ _) =
        textLength toLower contentFormat attachments (_ ++ _) :=
      ((hbalance.map (Emission.item toLower attachments contentFormat)).flatMap_right
        Item.written).length_eq
    rw [textLength_append, textLength_append, textLength, htext] at hlen
    exact Nat.add_left_cancel hlen

theorem written_of_isBinary {i : Item} (h : i.isBinary = true) : i.written = [] := by
  cases i with
  | text s => cases h
  | image m b => rfl
  | document m b => rfl

theorem binaryValues_deficit (array : Bool) :
    binaryValues toLower contentFormat attachments
        (deficit toLower text contentFormat attachments images array) =
      (images.filter fun img => !willEmitBinary toLower contentFormat img.mime).map fun img =>
        (prependItem toLower contentFormat img.mime img.base64).value := by
  have himages : ∀ is : List ImageData, binaryValues toLower contentFormat attachments
      (is.map Emission.image) = is.map fun img =>
        (prependItem toLower contentFormat img.mime img.base64).value := by
    intro is
    rw [binaryValues, List.map_map, List.filter_eq_self.mpr, List.map_map]
    · rfl
    · intro i hi
      obtain ⟨img, -, rfl⟩ := List.mem_map.mp hi
      exact isBinary_prependItem toLower _ _ _
  have hkept : ∀ n, binaryValues toLower contentFormat attachments
      (List.replicate n (Emission.kept [])) = [] := by
    intro n
    have htext : ¬ ((Emission.kept []).item toLower attachments contentFormat).isBinary = true := by
      simp [Emission.item, Item.isBinary]
    rw [binaryValues, List.map_replicate, List.filter_replicate_of_neg htext, List.map_nil]
  rw [deficit, binaryValues_append, himages]
  split
  · rw [hkept, List.append_nil]
  · exact List.append_nil _

theorem textLength_deficit (array : Bool) :
    textLength toLower contentFormat attachments
        (deficit toLower text contentFormat attachments images array) =
      if array ∧ (attachments.get? []).any (!Shown toLower contentFormat ·) then
        2 * uses text attachments []
      else 0 := by
  have himages : ∀ is : List ImageData, textLength toLower contentFormat attachments
      (is.map Emission.image) = 0 := by
    intro is
    rw [textLength, List.length_eq_zero_iff, List.flatMap_eq_nil_iff]
    intro i hi
    obtain ⟨piece, hpiece, rfl⟩ := List.mem_map.mp hi
    obtain ⟨img, -, rfl⟩ := List.mem_map.mp hpiece
    exact written_of_isBinary (isBinary_prependItem toLower _ _ _)
  have hkept : ∀ n, textLength toLower contentFormat attachments
      (List.replicate n (Emission.kept [])) = 2 * n := by
    intro n
    induction n with
    | zero => rfl
    | succ n ih =>
      have hone : textLength toLower contentFormat attachments [.kept []] = 2 := rfl
      rw [List.replicate_succ, ← List.singleton_append, textLength_append, ih, hone]
      omega
  rw [deficit, textLength_append, himages, Nat.zero_add]
  split
  · exact hkept _
  · rfl

theorem prefix_of_notMem {α : Type} {p a b : List α} {c : α} (hc : c ∉ p)
    (h : p <+: a ++ c :: b) : p <+: a := by
  rcases List.prefix_or_prefix_of_prefix h (List.prefix_append a (c :: b)) with hpa | ⟨q, rfl⟩
  · exact hpa
  · have hq : q <+: c :: b := (List.prefix_append_right_inj a).mp h
    cases q with
    | nil => simp
    | cons d q =>
      obtain ⟨rfl, -⟩ := List.cons_prefix_cons.mp hq
      exact absurd (List.mem_append_right _ List.mem_cons_self) hc

/-- Whether a data URL is that of an image is seen from the URL. -/
theorem isImageMime_of_url (hlower : ∀ a b, toLower (a ++ 59 :: b) = toLower a ++ 59 :: toLower b)
    {mimeType mimeType' rest rest' : List UInt8}
    (h : mimeType ++ 59 :: rest = mimeType' ++ 59 :: rest')
    (himage : isImageMime toLower mimeType = true) : isImageMime toLower mimeType' = true := by
  have hplain : (59 : UInt8) ∉ ascii "image/" := by decide +kernel
  rw [isImageMime, List.isPrefixOf_iff_prefix] at himage ⊢
  obtain ⟨a, rfl, ha⟩ | ⟨a, rfl, ha⟩ := List.append_eq_append_iff.mp h
  · cases a with
    | nil => rwa [List.append_nil]
    | cons c a =>
      obtain ⟨rfl, -⟩ := List.cons.inj ha
      rw [hlower]
      exact himage.trans (List.prefix_append _ _)
  · cases a with
    | nil => rwa [List.append_nil] at himage
    | cons c a =>
      obtain ⟨rfl, -⟩ := List.cons.inj ha
      rw [hlower] at himage
      exact prefix_of_notMem hplain himage

/-- The part of an image that has no place is not that of a file that has one. -/
theorem value_ne (hlower : ∀ a b, toLower (a ++ 59 :: b) = toLower a ++ 59 :: toLower b)
    {mimeType mimeType' base64Data base64Data' : List UInt8}
    (hnot : willEmitBinary toLower contentFormat mimeType = false)
    (hemit : willEmitBinary toLower contentFormat mimeType' = true) :
    (prependItem toLower contentFormat mimeType base64Data).value ≠
      (prependItem toLower contentFormat mimeType' base64Data').value := by
  intro heq
  have hmime : isImageMime toLower mimeType = false := by
    by_contra h
    simp [willEmitBinary, h] at hnot
  have hformat : contentFormat ≠ ascii "anthropic" := by
    rintro rfl
    simp [willEmitBinary] at hnot
  have hmime' : isImageMime toLower mimeType' = true := by
    simpa [willEmitBinary, hformat] using hemit
  have hurl : mimeType' ++ 59 :: (ascii "base64," ++ base64Data') =
      mimeType ++ 59 :: (ascii "base64," ++ base64Data) := by
    have hitem : ∀ m b, prependItem toLower contentFormat m b = .image m b :=
      fun m b => if_neg fun h => hformat h.1
    have hswap := heq.symm
    rw [hitem, hitem] at hswap
    simpa [Item.value, ascii] using hswap
  rw [isImageMime_of_url toLower hlower hurl hmime'] at hmime
  cases hmime

theorem countable_of_conserved
    (hlower : ∀ a b, toLower (a ++ 59 :: b) = toLower a ++ 59 :: toLower b)
    (h : ContentConserved toLower text attachments images contentFormat) :
    Countable toLower text attachments images contentFormat := by
  obtain ⟨array, harray, hv⟩ := consists_content toLower text contentFormat attachments images
  obtain ⟨content, v, pieces, happend, hparse, htally, hpieces⟩ := h []
  -- the content is the one that the builder means
  have hvalue : v = contentValue toLower text attachments images contentFormat := by
    rw [appendContentWithAttachments_eq, List.append_cancel_left_eq] at happend
    rw [← happend, (reads_contentText toLower text attachments images contentFormat).parse]
      at hparse
    exact (Option.some.inj hparse).symm
  subst hvalue
  obtain ⟨hbinary, htext⟩ := deficit_surplus toLower htally hpieces hv
  rw [binaryValues_deficit] at hbinary
  rw [textLength_deficit] at htext
  have hshown_of : ∀ {vs : List Value}, vs = [] →
      ((images.filter fun img => !willEmitBinary toLower contentFormat img.mime).map fun img =>
        (prependItem toLower contentFormat img.mime img.base64).value).Perm vs →
      ∀ img ∈ images, willEmitBinary toLower contentFormat img.mime = true := by
    intro vs hvs hperm img himg
    rw [hvs, List.perm_nil, List.map_eq_nil_iff, List.filter_eq_nil_iff] at hperm
    simpa using hperm img himg
  by_cases htwice : 0 < uses text attachments [] ∧
      (attachments.get? []).any (Shown toLower contentFormat) = true
  · -- a file is there once too often: it has to look like nothing
    obtain ⟨att, hatt, hshown⟩ := (Option.any_eq_true _ _).mp htwice.2
    rw [surplus, if_pos htwice] at hbinary htext
    rw [if_neg fun h => by simp [hatt, hshown] at h] at htext
    cases hisText : att.isText with
    | true =>
      have hitem : (Emission.file []).item toLower attachments contentFormat = .text att.text := by
        simp [Emission.item, hatt, hisText]
      rw [binaryValues, List.map_singleton, hitem] at hbinary
      rw [textLength, List.map_singleton, hitem, List.flatMap_singleton] at htext
      have hempty : att.text = [] := List.length_eq_zero_iff.mp htext.symm
      refine ⟨hshown_of rfl hbinary, fun att' hatt' _ => .inl ?_⟩
      obtain rfl := Option.some.inj (hatt.symm.trans hatt')
      exact ⟨hisText, hempty⟩
    | false =>
      have hitem : (Emission.file []).item toLower attachments contentFormat =
          prependItem toLower contentFormat att.mimeType att.base64 := by
        simp [Emission.item, hatt, hisText]
      have hone : binaryValues toLower contentFormat attachments [.file []] =
          [(prependItem toLower contentFormat att.mimeType att.base64).value] := by
        rw [binaryValues, List.map_singleton, hitem,
          List.filter_cons_of_pos (isBinary_prependItem toLower _ _ _)]
        rfl
      -- no image that is missing can stand for it
      rw [hone] at hbinary
      obtain ⟨img, himg, heq⟩ := List.mem_map.mp (hbinary.mem_iff.mpr (List.mem_singleton_self _))
      have hnot : willEmitBinary toLower contentFormat img.mime = false := by
        simpa using (List.mem_filter.mp himg).2
      have hemit : willEmitBinary toLower contentFormat att.mimeType = true := by
        simpa [Shown, hisText] using hshown
      exact absurd heq (value_ne toLower hlower hnot hemit)
  · rw [surplus, if_neg htwice] at hbinary htext
    refine ⟨hshown_of rfl hbinary, fun att hatt hseg => .inr ?_⟩
    have huses : 0 < uses text attachments [] := List.count_pos_iff.mpr hseg
    have hshown : Shown toLower contentFormat att = false := by
      by_contra h
      exact htwice ⟨huses, by simp [hatt, h]⟩
    refine ⟨hshown, fun hneeds => ?_⟩
    rw [if_pos ⟨harray.mpr hneeds, by simp [hatt, hshown]⟩] at htext
    have hnone : textLength toLower contentFormat attachments [] = 0 := rfl
    omega

/-- **No file is lost or doubled** exactly when every image has a place in the format, and no
placeholder refers to a file without a name, unless it leaves no trace. -/
theorem content_conserved_iff
    (hlower : ∀ a b, toLower (a ++ 59 :: b) = toLower a ++ 59 :: toLower b) :
    ContentConserved toLower text attachments images contentFormat ↔
      Countable toLower text attachments images contentFormat :=
  ⟨countable_of_conserved toLower hlower, conserved_of_countable toLower⟩

theorem map_asciiLower_split (a b : List UInt8) :
    (a ++ 59 :: b).map asciiLower = a.map asciiLower ++ 59 :: b.map asciiLower := by
  rw [List.map_append, List.map_cons]
  rfl

/-- A text file is given once, where its placeholder is. -/
theorem content_conserved_iff_notes : ContentConserved (List.map asciiLower)
    (ascii "Read \x7bnotes\x7d") notes [] (ascii "openai") := by
  have hcountable : Countable (List.map asciiLower) (ascii "Read \x7bnotes\x7d") notes []
      (ascii "openai") := by
    refine ⟨fun img himg => absurd himg List.not_mem_nil, fun att hatt => ?_⟩
    have hnone : notes.get? [] = none := by decide +kernel
    rw [hnone] at hatt
    cases hatt
  exact (content_conserved_iff (List.map asciiLower) map_asciiLower_split).mpr hcountable

/-- One text file with no name. -/
def unnamed : Attachments where
  entries := [([], ⟨ascii "text/plain", true, [], ascii "abc"⟩)]
  nodup := List.nodup_singleton _

/-- **A file without a name is given twice**: of `{}` the text `abcabc` becomes. -/
theorem not_content_conserved :
    ¬ ContentConserved (List.map asciiLower) (ascii "\x7b\x7d") unnamed [] (ascii "openai") := by
  intro h
  have hcountable := countable_of_conserved (List.map asciiLower) map_asciiLower_split h
  have hget : unnamed.get? [] = some ⟨ascii "text/plain", true, [], ascii "abc"⟩ := rfl
  have hknown : unnamed.Known [] := by simp [Attachments.Known, hget]
  have htext : ascii "\x7b\x7d" = [] ++ (placeholder [] ++ []) := by decide +kernel
  obtain ⟨front, back, hsegs, -⟩ := (segments_scanned hknown htext).complete hknown
    List.not_mem_nil htext (by decide)
  have hseg : .resolved [] ∈ segments (ascii "\x7b\x7d") unnamed := by simp [hsegs]
  rcases hcountable.nameless _ hget hseg with ⟨-, hempty⟩ | ⟨hnot, -⟩
  · exact absurd hempty (by decide +kernel)
  · exact absurd hnot (by simp [Shown])

end ContentConserved

end Tally

end SocketHandoff.Go
