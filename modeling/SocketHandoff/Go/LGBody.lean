import SocketHandoff.Go.RawMessage
import SocketHandoff.Go.Content

/-!
# The request body of a client

`mergeAttachmentsIntoLGBody` of `backends/langgraph_v2.go`, which puts attachments and images into
the last message of a request body that the client has made, and what it leaves as it is.
-/

namespace SocketHandoff.Go

open Json

/-! ## The function -/

/-- An error, and the text before it. -/
structure MergeError where
  context : String
  err : JsonError
  deriving DecidableEq

/-- `fmt.Errorf`. -/
def wrap {α : Type} (context : String) : Except JsonError α → Except MergeError α
  | .ok a => .ok a
  | .error err => .error ⟨context, err⟩

section Merge

variable (toLower : List UInt8 → List UInt8)

/-- `newContent`, or `none` for a content that is neither a string nor an array. -/
def mergedContent (contentRaw : List UInt8) (resolved : Attachments) (images : List ImageData)
    (contentFormat : List UInt8) : Except MergeError (Option (List UInt8)) :=
  if contentRaw.head? = some 34 then do
    let contentStr ← wrap "parse message content: " (unmarshalString contentRaw)
    return some (appendContentWithAttachments toLower [] contentStr resolved images contentFormat)
  else if contentRaw.head? = some 91 then
    return some (prependAttachmentsToContentArray toLower contentRaw resolved images contentFormat)
  else return none

/-- The levels of the body, marshaled again from the last message outwards. -/
def remarshal (body input : RawMap) (messages : List (List UInt8)) (lastMsg : RawMap)
    (newContent : List UInt8) : Except MergeError (List UInt8) := do
  let newLastMsgBytes ← wrap "re-marshal last message: "
    (marshalMap (lastMsg.assign (ascii "content") newContent))
  let newMessagesBytes ← wrap "re-marshal messages: "
    (marshalSlice (messages.set (messages.length - 1) newLastMsgBytes))
  let newInputBytes ← wrap "re-marshal input: "
    (marshalMap (input.assign (ascii "messages") newMessagesBytes))
  wrap "" (marshalMap (body.assign (ascii "input") newInputBytes))

def mergeAttachmentsIntoLGBody (lgBody : List UInt8) (resolved : Attachments)
    (images : List ImageData) (contentFormat : List UInt8) : Except MergeError (List UInt8) :=
  if resolved.entries = [] ∧ images = [] then return lgBody
  else do
    let body ← wrap "parse lg_body: " (unmarshalMap lgBody)
    let some inputRaw := body.lookup (ascii "input") | return lgBody
    let input ← wrap "parse lg_body.input: " (unmarshalMap inputRaw)
    let some messagesRaw := input.lookup (ascii "messages") | return lgBody
    let messages ← wrap "parse lg_body.input.messages: " (unmarshalSlice messagesRaw)
    let some last := messages.getLast? | return lgBody
    let lastMsg ← wrap "parse last message: " (unmarshalMap last)
    let some contentRaw := lastMsg.lookup (ascii "content") | return lgBody
    let some newContent ← mergedContent toLower contentRaw resolved images contentFormat
      | return lgBody
    remarshal body input messages lastMsg newContent

end Merge

/-! ## What it may change -/

/-- Two documents that differ in the content of the last message at most, where the contents are
related by `R`; the names of the objects around it are written by `names`. -/
def InContent (names : List UInt8 → List UInt8) (R : Value → Value → Prop) :
    Value → Value → Prop :=
  AtMember names (ascii "input") (AtMember names (ascii "messages")
    (AtLast (AtMember names (ascii "content") R)))

/-- The elements of an array are kept, one behind the other. -/
def KeepsElems (v v' : Value) : Prop :=
  ∀ elems, v = .array elems → ∃ before behind, v' = .array (before ++ elems ++ behind)

/-- The content of the last message. -/
def lastContent (v : Value) : Option Value := do
  let input ← v.get? (ascii "input")
  let messages ← input.get? (ascii "messages")
  match messages with
  | .array elems => do
    let last ← elems.getLast?
    last.get? (ascii "content")
  | _ => none

/-- The last message has a content that attachments can be put into. -/
def HasContent (v : Value) : Prop :=
  ∃ content, lastContent v = some content ∧
    ((∃ s, content = .string s) ∨ ∃ elems, content = .array elems)

/-- A result `out` that is JSON, and that differs from the body `lgBody` of value `v` in the content
of the last message at most, and not at all where there is nothing to put into it. The comparison is
one of values, because `json.Marshal` writes the members in an order of its own. -/
structure Injects (names : List UInt8 → List UInt8) (resolved : Attachments)
    (images : List ImageData) (lgBody : List UInt8) (v : Value) (out : List UInt8) : Prop where
  frame : ∃ v', parse out = some v' ∧ (v' = v ∨ InContent names KeepsElems v v')
  unchanged : (resolved.entries = [] ∧ images = []) ∨ ¬ HasContent v → out = lgBody

/-! ## The new content -/

section NewContent

variable {toLower : List UInt8 → List UInt8} {resolved : Attachments} {images : List ImageData}
  {contentFormat : List UInt8}

theorem isSpace_white : ∀ c : UInt8, isWhite c = true → isSpace c = true :=
  forall_byte (by decide +kernel)

theorem dropWhile_solid {white text : List UInt8} (hwhite : White white)
    (h : ∃ c, text.head? = some c ∧ isSpace c = false) (rest : List UInt8) :
    (white ++ (text ++ rest)).dropWhile isSpace = text ++ rest := by
  obtain ⟨c, hc, hspace⟩ := h
  obtain ⟨tail, rfl⟩ := List.head?_eq_some_iff.mp hc
  rw [List.dropWhile_append_of_pos fun d hd => isSpace_white d (hwhite d hd), List.cons_append,
    List.dropWhile_cons, if_neg (by simp [hspace])]

/-- The white space is trimmed, and nothing else. -/
theorem trimSpace_solid {white text white' : List UInt8} (hwhite : White white)
    (h : Solid text) (hwhite' : White white') : trimSpace (white ++ (text ++ white')) = text := by
  obtain ⟨hhead, c, hc, hspace⟩ := h
  have hback : White white'.reverse := fun d hd => hwhite' d (List.mem_reverse.mp hd)
  have hlast : ∃ c, text.reverse.head? = some c ∧ isSpace c = false :=
    ⟨c, by rw [List.head?_reverse, hc], hspace⟩
  have hdrop := dropWhile_solid hback hlast []
  rw [List.append_nil] at hdrop
  rw [trimSpace, dropWhile_solid hwhite hhead, List.reverse_append, hdrop, List.reverse_reverse]

theorem trimSpace_white {white : List UInt8} (hwhite : White white) : trimSpace white = [] := by
  have hdrop : white.dropWhile isSpace = [] :=
    List.dropWhile_eq_nil_iff.mpr fun c hc => isSpace_white c (hwhite c hc)
  rw [trimSpace, hdrop]
  rfl

/-- What is left of an array without its brackets. -/
theorem inner_of_text {elems : List Value} {raw : List UInt8} (h : Text (.array elems) raw) :
    (elems = [] ∧ trimSpace (trimSpace raw.tail).dropLast = []) ∨
      ElemsText elems (trimSpace (trimSpace raw.tail).dropLast) := by
  have hbracket : Solid [93] := solid_bytes (by simp) (by decide +kernel)
  cases h with
  | noElems hwhite =>
    have htrim := trimSpace_solid hwhite hbracket white_nil
    rw [List.append_nil] at htrim
    refine .inl ⟨rfl, ?_⟩
    rw [List.tail_cons, htrim]
    rfl
  | @array _ white inner white' hwhite helems hwhite' =>
    have hinner := solid_elems helems
    have htrim := trimSpace_solid hwhite (hinner.append hbracket white') white_nil
    have htrim' := trimSpace_solid white_nil hinner hwhite'
    rw [List.append_nil] at htrim
    rw [List.nil_append] at htrim'
    rw [List.tail_cons, htrim, ← List.append_assoc, List.dropLast_concat, htrim']
    exact .inr helems

/-- The texts of parts are texts of elements. -/
theorem elemsText_items (items : List Item) :
    List.Forall₂ ElemsText (items.map fun i => [i.value]) (items.map fun i => i.append []) := by
  rw [List.forall₂_map_left_iff, List.forall₂_map_right_iff, List.forall₂_same]
  intro i _
  apply ElemsText.one
  apply i.reads.text
  intro c hc
  obtain rfl : 123 = c := by
    cases i <;>
      simp only [Item.append, appendTextPart, appendImagePart, appendDocumentPart,
        appendJSONEscaped_eq] at hc <;>
      rw [ascii_ofList] at hc <;>
      simpa using hc
  rfl

/-- Lists of elements in the middle of others. -/
theorem elemsText_between {elems : List Value} {inner : List UInt8} (h : ElemsText elems inner)
    (before behind : List Item) :
    ElemsText (before.map Item.value ++ elems ++ behind.map Item.value)
      (List.intercalate [44] ((before.map fun i => i.append []) ++ [inner] ++
        behind.map fun i => i.append [])) := by
  have hall := elemsText_intercalate (List.rel_append (List.rel_append (elemsText_items before)
    (.cons h .nil)) (elemsText_items behind)) (by simp)
  have hflat : ∀ items : List Item, (items.map fun i => [i.value]).flatten =
      items.map Item.value := by
    intro items
    rw [← List.flatMap_def, List.map_eq_flatMap]
  simpa [List.flatten_append, hflat] using hall

variable (toLower contentFormat) in
/-- **Parts are put around the elements of an array**, whose text is otherwise left as it is: the
elements are found again, in their order, between what was added. -/
theorem prepend_parse {elems : List Value} {raw : List UInt8} (h : Text (.array elems) raw)
    (hne : ¬ (resolved.entries = [] ∧ images = [])) :
    ∃ before behind, parse (prependAttachmentsToContentArray toLower raw resolved images
      contentFormat) = some (.array (before ++ elems ++ behind)) := by
  rcases inner_of_text h with ⟨rfl, hempty⟩ | helems
  · refine ⟨(prependItems toLower resolved images contentFormat ++
      trailingItems resolved).map Item.value, [], ?_⟩
    rw [prepend_empty toLower hne hempty, (reads_items _).parse, List.append_nil, List.append_nil]
  · obtain ⟨⟨c, hc, -⟩, -⟩ := solid_elems helems
    have hinner : trimSpace (trimSpace raw.tail).dropLast ≠ [] := by
      intro hnil
      rw [hnil] at hc
      cases hc
    have helems' := elemsText_between helems (prependItems toLower resolved images contentFormat)
      (trailingItems resolved)
    have htext := Text.array white_nil helems' white_nil
    rw [prepend_inner toLower hne rfl hinner]
    exact ⟨_, _, htext.parse⟩

theorem string_of_text {v : Value} {raw : List UInt8} (h : Text v raw)
    (hhead : raw.head? = some 34) : ∃ s, v = .string s := by
  cases h with
  | string h => exact ⟨_, rfl⟩
  | number h =>
    obtain ⟨c, tail, rfl, hc⟩ := h.head
    obtain rfl := Option.some.inj hhead
    rcases hc with hc | hc <;> exact absurd hc (by decide)
  | _ => cases hhead

theorem array_of_text {v : Value} {raw : List UInt8} (h : Text v raw)
    (hhead : raw.head? = some 91) : ∃ elems, v = .array elems := by
  cases h with
  | noElems h => exact ⟨_, rfl⟩
  | array h helems h' => exact ⟨_, rfl⟩
  | number h =>
    obtain ⟨c, tail, rfl, hc⟩ := h.head
    obtain rfl := Option.some.inj hhead
    rcases hc with hc | hc <;> exact absurd hc (by decide)
  | _ => cases hhead

/-- Only a string and an array are given a new content. -/
theorem kind_of_mergedContent {content : Value} {contentRaw raw : List UInt8}
    (htext : Text content contentRaw)
    (h : mergedContent toLower contentRaw resolved images contentFormat = .ok (some raw)) :
    (∃ s, content = .string s) ∨ ∃ elems, content = .array elems := by
  rw [mergedContent] at h
  by_cases hquote : contentRaw.head? = some 34
  · exact .inl (string_of_text htext hquote)
  rw [if_neg hquote] at h
  by_cases hbracket : contentRaw.head? = some 91
  · exact .inr (array_of_text htext hbracket)
  · rw [if_neg hbracket] at h
    cases h

variable (toLower contentFormat) in
/-- **They are given one that keeps their elements.** -/
theorem mergedContent_keeps {content : Value} {contentRaw : List UInt8}
    (htext : Text content contentRaw) (hne : ¬ (resolved.entries = [] ∧ images = []))
    (hkind : (∃ s, content = .string s) ∨ ∃ elems, content = .array elems) :
    ∃ raw v, mergedContent toLower contentRaw resolved images contentFormat = .ok (some raw) ∧
      parse raw = some v ∧ KeepsElems content v := by
  rw [mergedContent]
  rcases hkind with ⟨s, rfl⟩ | ⟨elems, rfl⟩
  · have hstring : unmarshalString contentRaw = .ok (replaceSurrogates s) := by
      rw [unmarshalString, htext.parse]
    have hhead : contentRaw.head? = some 34 := by
      cases htext
      rfl
    have hcontent := (reads_contentText toLower (replaceSurrogates s) resolved images
      contentFormat).parse
    rw [if_pos hhead, hstring]
    rw [← List.nil_append (contentText _ _ _ _ _), ← appendContentWithAttachments_eq] at hcontent
    refine ⟨_, _, rfl, hcontent, ?_⟩
    rintro elems heq
    cases heq
  · have hhead : contentRaw.head? = some 91 := by
      cases htext <;> rfl
    obtain ⟨before, behind, hparse⟩ := prepend_parse toLower contentFormat htext hne
    rw [if_neg (by simp [hhead]), if_pos hhead]
    refine ⟨_, _, rfl, hparse, ?_⟩
    rintro elems' heq
    obtain rfl := Value.array.inj heq
    exact ⟨before, behind, rfl⟩

end NewContent

/-! ## The frame -/

@[simp] theorem ok_bind {ε α β : Type} (a : α) (f : α → Except ε β) :
    ((.ok a : Except ε α) >>= f) = f a := rfl

theorem bind_ok {ε α β : Type} {x : Except ε α} {f : α → Except ε β} {b : β}
    (h : (x >>= f) = .ok b) : ∃ a, x = .ok a ∧ f a = .ok b := by
  cases x with
  | error e => cases h
  | ok a => exact ⟨a, rfl, h⟩

@[simp] theorem wrap_of_ok {α : Type} (context : String) (a : α) :
    wrap context (.ok a) = .ok a := rfl

theorem wrap_ok {α : Type} {context : String} {r : Except JsonError α} {a : α}
    (h : wrap context r = .ok a) : r = .ok a := by
  cases r with
  | error err => cases h
  | ok b => exact congrArg Except.ok (Except.ok.inj h)

theorem keptName_input : KeptName (ascii "input") := keptName (by decide) (by decide)

theorem keptName_messages : KeptName (ascii "messages") := keptName (by decide) (by decide)

theorem keptName_content : KeptName (ascii "content") := keptName (by decide) (by decide)

theorem namesDiffer_of_distinct {v : Value} (h : (v.mapNames replaceSurrogates).Distinct) :
    NamesDiffer v := by
  rintro members rfl
  exact distinct_names h

section Frame

variable {toLower : List UInt8 → List UInt8} {resolved : Attachments} {images : List ImageData}
  {contentFormat lgBody out : List UInt8} {v : Value}

/-- Without a content to put anything into, the body is returned as it is, if at all. -/
theorem unchanged_of_not_hasContent (hv : parse lgBody = some v)
    (hnames : (v.mapNames replaceSurrogates).Distinct) (hno : ¬ HasContent v)
    (h : mergeAttachmentsIntoLGBody toLower lgBody resolved images contentFormat = .ok out) :
    out = lgBody := by
  rw [mergeAttachmentsIntoLGBody] at h
  by_cases hnothing : resolved.entries = [] ∧ images = []
  · rw [if_pos hnothing] at h
    exact (Except.ok.inj h).symm
  rw [if_neg hnothing] at h
  obtain ⟨body, hbody, h⟩ := bind_ok h
  split at h
  swap
  · exact (Except.ok.inj h).symm
  rename_i inputRaw hinputRaw
  obtain ⟨vInput, hgetInput, htextInput⟩ := member_of_lookup hv (namesDiffer_of_distinct hnames)
    keptName_input (wrap_ok hbody) hinputRaw
  have hnamesInput := distinct_member hnames hgetInput
  obtain ⟨input, hinput, h⟩ := bind_ok h
  split at h
  swap
  · exact (Except.ok.inj h).symm
  rename_i messagesRaw hmessagesRaw
  obtain ⟨vMessages, hgetMessages, htextMessages⟩ := member_of_lookup htextInput.parse
    (namesDiffer_of_distinct hnamesInput) keptName_messages (wrap_ok hinput) hmessagesRaw
  have hnamesMessages := distinct_member hnamesInput hgetMessages
  obtain ⟨messages, hmessages, h⟩ := bind_ok h
  split at h
  swap
  · exact (Except.ok.inj h).symm
  rename_i last hlast
  obtain ⟨init, vLast, rfl, htextLast⟩ := last_of_getLast htextMessages.parse (wrap_ok hmessages)
    hlast
  have hnamesLast := distinct_elem hnamesMessages (w := vLast) (by simp)
  obtain ⟨lastMsg, hlastMsg, h⟩ := bind_ok h
  split at h
  swap
  · exact (Except.ok.inj h).symm
  rename_i contentRaw hcontentRaw
  obtain ⟨vContent, hgetContent, htextContent⟩ := member_of_lookup htextLast.parse
    (namesDiffer_of_distinct hnamesLast) keptName_content (wrap_ok hlastMsg) hcontentRaw
  obtain ⟨newContent, hnewContent, h⟩ := bind_ok h
  split at h
  swap
  · exact (Except.ok.inj h).symm
  -- here the body would have a content
  refine absurd ⟨vContent, ?_, kind_of_mergedContent htextContent hnewContent⟩ hno
  simp [lastContent, hgetInput, hgetMessages, hgetContent]

variable (toLower resolved images contentFormat) in
/-- **A body with a content is given another one**, and nothing else in it changes. -/
theorem changed_of_hasContent (hv : parse lgBody = some v)
    (hnames : (v.mapNames replaceSurrogates).Distinct) (h : HasContent v)
    (hnothing : ¬ (resolved.entries = [] ∧ images = [])) :
    ∃ out v', mergeAttachmentsIntoLGBody toLower lgBody resolved images contentFormat = .ok out ∧
      parse out = some v' ∧ InContent replaceSurrogates KeepsElems v v' := by
  obtain ⟨content, hcontent, hkind⟩ := h
  obtain ⟨vInput, hgetInput, hcontent⟩ := Option.bind_eq_some_iff.mp hcontent
  obtain ⟨vMessages, hgetMessages, hcontent⟩ := Option.bind_eq_some_iff.mp hcontent
  split at hcontent
  swap
  · cases hcontent
  obtain ⟨vLast, hgetLast, hgetContent⟩ := Option.bind_eq_some_iff.mp hcontent
  obtain ⟨init, rfl⟩ := List.getLast?_eq_some_iff.mp hgetLast
  have hnamesInput := distinct_member hnames hgetInput
  have hnamesMessages := distinct_member hnamesInput hgetMessages
  have hnamesLast := distinct_elem hnamesMessages (w := vLast) (by simp)
  -- the parts are found, from the body inwards
  obtain ⟨body, inputRaw, hbody, hinputRaw, htextInput, hsetInput⟩ :=
    member_found hv (namesDiffer_of_distinct hnames) keptName_input hgetInput
  obtain ⟨input, messagesRaw, hinput, hmessagesRaw, htextMessages, hsetMessages⟩ :=
    member_found htextInput.parse (namesDiffer_of_distinct hnamesInput) keptName_messages
      hgetMessages
  obtain ⟨messages, last, hmessages, hlast, htextLast, hsetLast⟩ := last_found htextMessages.parse
  obtain ⟨lastMsg, contentRaw, hlastMsg, hcontentRaw, htextContent, hsetContent⟩ :=
    member_found htextLast.parse (namesDiffer_of_distinct hnamesLast) keptName_content hgetContent
  obtain ⟨raw, vContent', hraw, hparse, hkeeps⟩ := mergedContent_keeps toLower contentFormat
    htextContent hnothing hkind
  -- and written again, outwards
  obtain ⟨newLast, vLast', hnewLast, hlast', hatContent⟩ := hsetContent raw vContent' hparse
  obtain ⟨newMessages, vMessages', hnewMessages, hmessages', hatLast⟩ :=
    hsetLast newLast vLast' hlast'
  obtain ⟨newInput, vInput', hnewInput, hinput', hatMessages⟩ :=
    hsetMessages newMessages vMessages' hmessages'
  obtain ⟨out, v', hout, hv', hatInput⟩ := hsetInput newInput vInput' hinput'
  refine ⟨out, v', ?_, hv', ?_⟩
  · rw [mergeAttachmentsIntoLGBody, if_neg hnothing]
    simp [hbody, hinputRaw, hinput, hmessagesRaw, hmessages, hlast, hlastMsg, hcontentRaw, hraw,
      remarshal, hnewLast, hnewMessages, hnewInput, hout]
  · apply hatInput.imp
    rintro _ _ ⟨rfl, rfl⟩
    apply hatMessages.imp
    rintro _ _ ⟨rfl, rfl⟩
    apply hatLast.imp
    rintro _ _ ⟨rfl, rfl⟩
    apply hatContent.imp
    rintro _ _ ⟨rfl, rfl⟩
    exact hkeeps

/-- **Only the content of the last message changes**, and in a body without one, or where there is
nothing to put into it, not even the spelling. What `json.Marshal` makes of the names that are not
text is left to `names`, for they are written anew with the rest of the object. -/
theorem mergeAttachmentsIntoLGBody_injects (hv : parse lgBody = some v)
    (hnames : (v.mapNames replaceSurrogates).Distinct)
    (h : mergeAttachmentsIntoLGBody toLower lgBody resolved images contentFormat = .ok out) :
    Injects replaceSurrogates resolved images lgBody v out := by
  by_cases hnothing : resolved.entries = [] ∧ images = []
  · rw [mergeAttachmentsIntoLGBody, if_pos hnothing] at h
    obtain rfl := Except.ok.inj h
    exact ⟨⟨v, hv, .inl rfl⟩, fun _ => rfl⟩
  by_cases hcontent : HasContent v
  · obtain ⟨out', v', hout, hv', hat⟩ := changed_of_hasContent toLower resolved images
      contentFormat hv hnames hcontent hnothing
    obtain rfl := Except.ok.inj (hout.symm.trans h)
    refine ⟨⟨v', hv', .inr hat⟩, ?_⟩
    rintro (hempty | hno)
    · exact absurd hempty hnothing
    · exact absurd hcontent hno
  · obtain rfl := unchanged_of_not_hasContent hv hnames hcontent h
    exact ⟨⟨v, hv, .inl rfl⟩, fun _ => rfl⟩

end Frame

/-! ### A name with a surrogate that stands alone -/

/-- `{"input":{"messages":[{"content":["a"]}]},"\ud800":null}` -/
def surrogateBody : List UInt8 :=
  ascii "\x7b\"input\":\x7b\"messages\":[\x7b\"content\":[\"a\"]\x7d]\x7d,\"\\ud800\":null\x7d"

/-- The value of that body. -/
def surrogateValue : Value :=
  .object [(ascii "input", .object [(ascii "messages",
    .array [.object [(ascii "content", .array [.string (ascii "a")])]])]),
    ([0xED, 0xA0, 0x80], .null)]

def onePicture : List ImageData := [⟨ascii "aGk=", ascii "image/png"⟩]

def noAttachments : Attachments := ⟨[], List.nodup_nil⟩

theorem parse_surrogateBody : parse surrogateBody = some surrogateValue := by
  have hplain : ∀ name : List UInt8, Plain name → decode name = some name := fun _ => decode_plain
  have hcontent := Text.object white_nil (.one (.mk (hplain (ascii "content") (by decide)) white_nil
    white_nil (.array white_nil (.one (.string (hplain (ascii "a") (by decide)))) white_nil)))
    white_nil
  have hmessages := Text.object white_nil (.one (.mk (hplain (ascii "messages") (by decide))
    white_nil white_nil (.array white_nil (.one hcontent) white_nil))) white_nil
  have hname : decode (ascii "\\ud800") = some [0xED, 0xA0, 0x80] := by decide
  have hbody := Text.object white_nil (.more (.mk (hplain (ascii "input") (by decide)) white_nil
    white_nil hmessages) white_nil white_nil (.one (.mk hname white_nil white_nil .null))) white_nil
  have hparse := hbody.parse
  rw [surrogateValue]
  convert hparse using 2
  decide +kernel

theorem hasContent_surrogateValue : HasContent surrogateValue := by
  refine ⟨.array [.string (ascii "a")], ?_, .inr ⟨_, rfl⟩⟩
  simp [lastContent, surrogateValue, Value.get?]

theorem distinct_surrogateValue (f : List UInt8 → List UInt8)
    (h : f (ascii "input") ≠ f [0xED, 0xA0, 0x80]) : (surrogateValue.mapNames f).Distinct := by
  simp [surrogateValue, Value.mapNames, mapNamesElems, mapNamesMembers, Value.Distinct,
    DistinctElems, DistinctMembers, h]

/-- The names of the second document. -/
theorem names_of_inContent {names : List UInt8 → List UInt8} {R : Value → Value → Prop}
    {members : List (List UInt8 × Value)} {v' : Value}
    (h : InContent names R (.object members) v') :
    ∃ members', v' = .object members' ∧
      (members'.map Prod.fst).Perm (members.map fun m => names m.1) := by
  obtain ⟨before, w, w', behind, members', hv, -, rfl, hperm⟩ := h
  obtain rfl := Value.object.inj hv
  refine ⟨members', rfl, (hperm.map Prod.fst).trans (List.Perm.of_eq ?_)⟩
  rw [List.map_map, List.map_append, List.map_cons, List.map_append, List.map_cons]
  rfl

theorem mergeAttachmentsIntoLGBody_injects_array : ∃ out,
    mergeAttachmentsIntoLGBody id surrogateBody noAttachments onePicture (ascii "openai") =
      .ok out ∧
      Injects replaceSurrogates noAttachments onePicture surrogateBody surrogateValue out := by
  have hnames := distinct_surrogateValue replaceSurrogates (by decide)
  obtain ⟨out, v', hout, -, -⟩ := changed_of_hasContent id noAttachments onePicture
    (ascii "openai") parse_surrogateBody hnames hasContent_surrogateValue (by decide)
  exact ⟨out, hout, mergeAttachmentsIntoLGBody_injects parse_surrogateBody hnames hout⟩

/-- **The name with the surrogate is another one in the result.** -/
theorem surrogate_not_kept : ∃ out,
    mergeAttachmentsIntoLGBody id surrogateBody noAttachments onePicture (ascii "openai") =
      .ok out ∧
      parse surrogateBody = some surrogateValue ∧ (surrogateValue.mapNames id).Distinct ∧
        ¬ Injects id noAttachments onePicture surrogateBody surrogateValue out := by
  obtain ⟨out, v', hout, hv', hat⟩ := changed_of_hasContent id noAttachments onePicture
    (ascii "openai") parse_surrogateBody (distinct_surrogateValue replaceSurrogates (by decide))
    hasContent_surrogateValue (by decide)
  refine ⟨out, hout, parse_surrogateBody, distinct_surrogateValue id (by decide), ?_⟩
  rintro ⟨⟨v'', hv'', hframe⟩, -⟩
  obtain rfl := Option.some.inj (hv''.symm.trans hv')
  obtain ⟨members', rfl, hperm⟩ := names_of_inContent hat
  have hother : ¬ (List.map Prod.fst members').Perm [ascii "input", [0xED, 0xA0, 0x80]] := by
    intro hsame
    have hnames := hsame.symm.trans hperm
    exact absurd hnames (by decide)
  rcases hframe with heq | hat'
  · obtain rfl := Value.object.inj heq
    exact hother (List.Perm.refl _)
  · obtain ⟨_, heq, hperm'⟩ := names_of_inContent hat'
    obtain rfl := Value.object.inj heq
    exact hother hperm'

end SocketHandoff.Go
