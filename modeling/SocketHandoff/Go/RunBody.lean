import SocketHandoff.Go.Content

/-!
# The body of a LangGraph run

`buildLangGraphRequestBody` of `backends/langgraph.go`: the body of a request to the run endpoint,
appended piece by piece. The fields of `langgraph_input` are put behind the messages in the object
`input`, whatever their names are.
-/

namespace SocketHandoff.Go

open Json

/-! ## Data -/

/-- `Message`. -/
structure Message where
  role : List UInt8
  content : List UInt8

/-- The fields of `HandoffData` that the body is built from. -/
structure HandoffData where
  prompt : List UInt8
  messages : List Message
  streamMode : List (List UInt8)
  /-- a map, in any order -/
  langGraphInput : List (List UInt8 × Any)
  resolvedImages : List ImageData
  resolvedAttachments : Attachments
  contentFormat : List UInt8
  distinct : Any.Distinct (.map langGraphInput)

/-- `mapRoleToLangGraph`. -/
def mapRoleToLangGraph (role : List UInt8) : List UInt8 :=
  if role = ascii "user" then ascii "human"
  else if role = ascii "assistant" then ascii "ai"
  else if role = ascii "system" then ascii "system"
  else role

/-- The content format, with its default. -/
def HandoffData.format (handoff : HandoffData) : List UInt8 :=
  if handoff.contentFormat = [] then ascii "openai" else handoff.contentFormat

/-- The prompt, with its default. -/
def HandoffData.promptText (handoff : HandoffData) : List UInt8 :=
  if handoff.prompt = [] then ascii "Hello" else handoff.prompt

/-! ## `buildLangGraphRequestBody` -/

section Body

variable (toLower : List UInt8 → List UInt8)

/-- What is appended for the message with index `i`. Only the last message is given the attachments
and the images; a name in braces in an earlier one stays as it is. -/
def appendMessage (handoff : HandoffData) (buf : List UInt8) (msg : Message) (i : Nat) :
    List UInt8 :=
  let buf := if 0 < i then buf ++ [44] else buf
  let buf := appendJSONEscaped (buf ++ ascii "\x7b\"type\":\"") (mapRoleToLangGraph msg.role) ++
    ascii "\",\"content\":"
  let isLastMessage := i = handoff.messages.length - 1
  let buf :=
    if isLastMessage ∧ handoff.resolvedAttachments.entries ≠ [] then
      appendContentWithAttachments toLower buf msg.content handoff.resolvedAttachments
        handoff.resolvedImages handoff.format
    else if isLastMessage ∧ handoff.resolvedImages ≠ [] then
      appendMultimodalContent buf msg.content handoff.resolvedImages
    else appendMultimodalContent buf msg.content []
  buf ++ ascii "\x7d"

/-- What is appended for the prompt, where there are no messages. -/
def appendPrompt (handoff : HandoffData) (buf : List UInt8) : List UInt8 :=
  let buf := buf ++ ascii "\x7b\"type\":\"human\",\"content\":"
  let buf :=
    if handoff.resolvedAttachments.entries ≠ [] then
      appendContentWithAttachments toLower buf handoff.promptText handoff.resolvedAttachments
        handoff.resolvedImages handoff.format
    else appendMultimodalContent buf handoff.promptText handoff.resolvedImages
  buf ++ ascii "\x7d"

/-- The custom fields, in the order of their names. -/
def appendInput (input : List (List UInt8 × Any)) (buf : List UInt8) : List UInt8 :=
  (sortStrings (input.map Prod.fst)).foldl (fun buf key =>
    appendJSONValue (appendJSONEscaped (buf ++ [44] ++ [34]) key ++ ascii "\":")
      ((input.lookup key).getD .nil)) buf

/-- The stream modes, or the default one. -/
def appendStreamMode (streamMode : List (List UInt8)) (defaultStreamMode buf : List UInt8) :
    List UInt8 :=
  if streamMode ≠ [] then
    let buf := streamMode.zipIdx.foldl (fun buf p =>
      let buf := if 0 < p.2 then buf ++ [44] else buf
      appendJSONEscaped (buf ++ [34]) p.1 ++ [34]) (buf ++ ascii ",\"stream_mode\":[")
    buf ++ ascii "]"
  else
    appendJSONEscaped (buf ++ ascii ",\"stream_mode\":[\"") defaultStreamMode ++ ascii "\"]"

def buildLangGraphRequestBody (handoff : HandoffData) (assistantID defaultStreamMode : List UInt8) :
    List UInt8 :=
  let buf := appendJSONEscaped (ascii "\x7b\"assistant_id\":\"") assistantID ++
    ascii "\",\"input\":\x7b\"messages\":["
  let buf :=
    if handoff.messages ≠ [] then
      handoff.messages.zipIdx.foldl (fun buf p => appendMessage toLower handoff buf p.1 p.2) buf
    else appendPrompt toLower handoff buf
  let buf := appendInput handoff.langGraphInput (buf ++ ascii "]") ++ ascii "\x7d"
  appendStreamMode handoff.streamMode defaultStreamMode buf ++
    ascii (",\"stream_subgraphs\":false,\"on_completion\":\"delete\"," ++
      "\"on_disconnect\":\"cancel\"\x7d")

/-! ## What the body means -/

/-- The content of the last message. -/
def HandoffData.lastContent (handoff : HandoffData) (text : List UInt8) : Value :=
  if handoff.resolvedAttachments.entries ≠ [] then
    contentValue toLower text handoff.resolvedAttachments handoff.resolvedImages handoff.format
  else multimodalValue text handoff.resolvedImages

/-- An entry of `messages`. -/
def messageEntry (type : List UInt8) (content : Value) : Value :=
  .object [(ascii "type", .string type), (ascii "content", content)]

/-- The entries of `messages`: the files are in the last one. -/
def HandoffData.entries (handoff : HandoffData) : List Value :=
  if handoff.messages = [] then
    [messageEntry (ascii "human") (handoff.lastContent toLower handoff.promptText)]
  else
    handoff.messages.zipIdx.map fun p => messageEntry (mapRoleToLangGraph p.1.role)
      (if p.2 = handoff.messages.length - 1 then handoff.lastContent toLower p.1.content
      else .string p.1.content)

/-- The modes that are asked for. -/
def HandoffData.modes (handoff : HandoffData) (defaultStreamMode : List UInt8) : List Value :=
  if handoff.streamMode = [] then [.string defaultStreamMode] else handoff.streamMode.map .string

/-- The object `input`: the messages, and the custom fields in the order of their names. -/
def HandoffData.inputValue (handoff : HandoffData) : Value :=
  .object ((ascii "messages", .array (handoff.entries toLower)) ::
    (handoff.langGraphInput.mergeSort nameLE).map fun e => (e.1, e.2.value))

/-- The value that the body is the text of. -/
def HandoffData.value (handoff : HandoffData) (assistantID defaultStreamMode : List UInt8) :
    Value :=
  .object [(ascii "assistant_id", .string assistantID),
    (ascii "input", handoff.inputValue toLower),
    (ascii "stream_mode", .array (handoff.modes defaultStreamMode)),
    (ascii "stream_subgraphs", .bool false),
    (ascii "on_completion", .string (ascii "delete")),
    (ascii "on_disconnect", .string (ascii "cancel"))]

/-- A body means the handoff: no name is repeated in it, and it says what the handoff says. Readers
of JSON differ in what they make of a name that is repeated, which is why there must be none. -/
structure Means (handoff : HandoffData) (assistantID defaultStreamMode : List UInt8)
    (body : Value) : Prop where
  distinct : body.Distinct
  assistant : body.get? (ascii "assistant_id") = some (.string assistantID)
  input : ∃ input, body.get? (ascii "input") = some input ∧
    input.get? (ascii "messages") = some (.array (handoff.entries toLower)) ∧
    ∀ e ∈ handoff.langGraphInput, input.get? e.1 = some e.2.value
  streamMode : body.get? (ascii "stream_mode") = some (.array (handoff.modes defaultStreamMode))

/-! ## The text of the body -/

def HandoffData.lastText (handoff : HandoffData) (text : List UInt8) : List UInt8 :=
  if handoff.resolvedAttachments.entries ≠ [] then
    contentText toLower text handoff.resolvedAttachments handoff.resolvedImages handoff.format
  else multimodalText text handoff.resolvedImages

theorem reads_lastText (handoff : HandoffData) (text : List UInt8) :
    Reads (handoff.lastText toLower text) (handoff.lastContent toLower text) := by
  rw [HandoffData.lastText, HandoffData.lastContent]
  split
  · exact reads_contentText toLower _ _ _ _
  · exact reads_multimodalText _ _

/-- The text of an entry of `messages`. -/
def entryText (type content : List UInt8) : List UInt8 :=
  ascii "\x7b\"type\":\"" ++ (type.flatMap escapedByte ++ (ascii "\",\"content\":" ++
    (content ++ ascii "\x7d")))

theorem reads_entryText {content : List UInt8} {v : Value} (type : List UInt8)
    (h : Reads content v) : Reads (entryText type content) (messageEntry type v) := by
  have hobj := reads_object (.cons (readsMember_plain (ascii "type")
    (by simp [Plain, ascii]) (reads_quoted type)) (.cons (readsMember_plain
      (ascii "content") (by simp [Plain, ascii]) h) .nil))
  rw [messageEntry]
  convert hobj using 1
  simp [entryText, quoted, List.intercalate_cons_cons, ascii]

/-- The text of the content of the message with index `i`. -/
def HandoffData.messageText (handoff : HandoffData) (msg : Message) (i : Nat) : List UInt8 :=
  if i = handoff.messages.length - 1 then handoff.lastText toLower msg.content
  else quoted msg.content

theorem appendMessage_eq (handoff : HandoffData) (buf : List UInt8) (msg : Message) (i : Nat) :
    appendMessage toLower handoff buf msg i = (if 0 < i then buf ++ [44] else buf) ++
      entryText (mapRoleToLangGraph msg.role) (handoff.messageText toLower msg i) := by
  rw [appendMessage, entryText, HandoffData.messageText, HandoffData.lastText]
  generalize (if 0 < i then buf ++ [44] else buf) = buf
  by_cases hlast : i = handoff.messages.length - 1
  · by_cases hatts : handoff.resolvedAttachments.entries = []
    · by_cases himages : handoff.resolvedImages = []
      · simp [hlast, hatts, himages, appendMultimodalContent_eq, appendJSONEscaped_eq]
      · simp [hlast, hatts, himages, appendMultimodalContent_eq, appendJSONEscaped_eq]
    · simp [hlast, hatts, appendContentWithAttachments_eq, appendJSONEscaped_eq]
  · simp [hlast, appendMultimodalContent_eq, multimodalText, appendJSONEscaped_eq]

/-- The texts of the entries of `messages`. -/
def HandoffData.entryTexts (handoff : HandoffData) : List (List UInt8) :=
  if handoff.messages = [] then
    [entryText (ascii "human") (handoff.lastText toLower handoff.promptText)]
  else
    handoff.messages.zipIdx.map fun p =>
      entryText (mapRoleToLangGraph p.1.role) (handoff.messageText toLower p.1 p.2)

theorem reads_entryTexts (handoff : HandoffData) :
    List.Forall₂ Reads (handoff.entryTexts toLower) (handoff.entries toLower) := by
  rw [HandoffData.entryTexts, HandoffData.entries]
  split
  · exact .cons (reads_entryText _ (reads_lastText toLower handoff _)) .nil
  · rw [List.forall₂_map_left_iff, List.forall₂_map_right_iff, List.forall₂_same]
    intro p hp
    apply reads_entryText
    rw [HandoffData.messageText]
    split
    · exact reads_lastText toLower handoff _
    · exact reads_quoted _

theorem appendMessages_eq (handoff : HandoffData) (buf : List UInt8) :
    (if handoff.messages ≠ [] then
      handoff.messages.zipIdx.foldl (fun buf p => appendMessage toLower handoff buf p.1 p.2) buf
    else appendPrompt toLower handoff buf) =
      buf ++ List.intercalate [44] (handoff.entryTexts toLower) := by
  rw [HandoffData.entryTexts]
  by_cases hmessages : handoff.messages = []
  · rw [if_neg (not_not.mpr hmessages), if_pos hmessages, appendPrompt, List.intercalate_singleton,
      entryText, HandoffData.lastText]
    split
    · simp [appendContentWithAttachments_eq, ascii, escapedByte]
    · simp [appendMultimodalContent_eq, ascii, escapedByte]
  · rw [if_pos hmessages, if_neg hmessages]
    exact foldl_intercalate _ _ (fun buf msg i => appendMessage_eq toLower handoff buf msg i) _ _

/-- The text of a custom field. -/
def fieldText (e : List UInt8 × Any) : List UInt8 :=
  34 :: (e.1.flatMap escapedByte ++ 34 :: 58 :: valueText e.2)

theorem readsMember_fieldText (e : List UInt8 × Any) :
    ReadsMember (fieldText e) (e.1, e.2.value) :=
  ⟨_, _, rfl, decode_escaped e.1, reads_valueText e.2⟩

theorem appendInput_eq {input : List (List UInt8 × Any)} (h : (input.map Prod.fst).Nodup)
    (buf : List UInt8) : appendInput input buf =
      buf ++ ((input.mergeSort nameLE).map fieldText).flatMap fun t => 44 :: t := by
  have hsort : sortStrings (input.map Prod.fst) = (input.mergeSort nameLE).map Prod.fst := by
    exact (List.map_mergeSort (f := Prod.fst) (r := nameLE) fun a _ b _ => rfl).symm
  have hloop : ∀ (fields : List (List UInt8 × Any)) (buf : List UInt8),
      (∀ e ∈ fields, e ∈ input) →
      (fields.map Prod.fst).foldl (fun buf key =>
        appendJSONValue (appendJSONEscaped (buf ++ [44] ++ [34]) key ++ ascii "\":")
          ((input.lookup key).getD .nil)) buf =
        buf ++ (fields.map fieldText).flatMap fun t => 44 :: t := by
    intro fields
    induction fields with
    | nil => simp
    | cons e fields ih =>
      intro buf hmem
      rw [List.map_cons, List.foldl_cons, ih _ fun e' he' => hmem e' (List.mem_cons_of_mem e he'),
        lookup_of_nodup h (hmem e List.mem_cons_self)]
      simp [appendJSONValue_eq, appendJSONEscaped_eq, fieldText, ascii]
  rw [appendInput, hsort]
  exact hloop _ buf fun e he => List.mem_mergeSort.mp he

/-- The texts of the stream modes. -/
def HandoffData.modeTexts (handoff : HandoffData) (defaultStreamMode : List UInt8) :
    List (List UInt8) :=
  if handoff.streamMode = [] then [quoted defaultStreamMode] else handoff.streamMode.map quoted

theorem reads_modeTexts (handoff : HandoffData) (defaultStreamMode : List UInt8) :
    List.Forall₂ Reads (handoff.modeTexts defaultStreamMode) (handoff.modes defaultStreamMode) := by
  rw [HandoffData.modeTexts, HandoffData.modes]
  split
  · exact .cons (reads_quoted _) .nil
  · rw [List.forall₂_map_left_iff, List.forall₂_map_right_iff, List.forall₂_same]
    exact fun mode _ => reads_quoted mode

theorem appendStreamMode_eq (handoff : HandoffData) (defaultStreamMode buf : List UInt8) :
    appendStreamMode handoff.streamMode defaultStreamMode buf = buf ++
      (ascii ",\"stream_mode\":[" ++
        (List.intercalate [44] (handoff.modeTexts defaultStreamMode) ++ [93])) := by
  rw [appendStreamMode, HandoffData.modeTexts]
  by_cases hmode : handoff.streamMode = []
  · rw [if_neg (not_not.mpr hmode), if_pos hmode]
    simp [appendJSONEscaped_eq, quoted, ascii]
  · have hloop := foldl_intercalate
      (fun buf mode i =>
        appendJSONEscaped ((if 0 < i then buf ++ [44] else buf) ++ [34]) mode ++ [34])
      (fun mode _ => quoted mode)
      (fun buf mode i => by simp [appendJSONEscaped_eq, quoted])
      handoff.streamMode (buf ++ ascii ",\"stream_mode\":[")
    rw [if_pos hmode, if_neg hmode]
    simp only
    have hfst : (handoff.streamMode.zipIdx.map fun p => quoted p.1) =
        handoff.streamMode.map quoted := by
      rw [← List.zipIdx_map_fst 0 handoff.streamMode, List.map_map]
      simp
    rw [hloop, hfst]
    simp [ascii]

/-- **The body is the text of its value.** The value is put together from the fields of the handoff
as the API understands them, and not from the text. -/
theorem reads_buildLangGraphRequestBody (handoff : HandoffData)
    (assistantID defaultStreamMode : List UInt8) :
    Reads (buildLangGraphRequestBody toLower handoff assistantID defaultStreamMode)
      (handoff.value toLower assistantID defaultStreamMode) := by
  have hmessages := readsMember_plain (ascii "messages") (by simp [Plain, ascii])
    (reads_array (reads_entryTexts toLower handoff))
  have hfields : List.Forall₂ ReadsMember ((handoff.langGraphInput.mergeSort nameLE).map fieldText)
      ((handoff.langGraphInput.mergeSort nameLE).map fun e => (e.1, e.2.value)) := by
    rw [List.forall₂_map_left_iff, List.forall₂_map_right_iff, List.forall₂_same]
    exact fun e _ => readsMember_fieldText e
  have hinput := reads_object (.cons hmessages hfields)
  have hmodes := reads_array (reads_modeTexts handoff defaultStreamMode)
  have hbody := reads_object
    (.cons (readsMember_plain (ascii "assistant_id") (by simp [Plain, ascii])
      (reads_quoted assistantID))
    (.cons (readsMember_plain (ascii "input") (by simp [Plain, ascii]) hinput)
    (.cons (readsMember_plain (ascii "stream_mode") (by simp [Plain, ascii]) hmodes)
    (.cons (readsMember_plain (ascii "stream_subgraphs") (by simp [Plain, ascii])
      reads_false)
    (.cons (readsMember_plain (ascii "on_completion") (by simp [Plain, ascii])
      (reads_plain (s := ascii "delete") (by simp [Plain, ascii])))
    (.cons (readsMember_plain (ascii "on_disconnect") (by simp [Plain, ascii])
      (reads_plain (s := ascii "cancel") (by simp [Plain, ascii]))) .nil))))))
  rw [HandoffData.value, HandoffData.inputValue]
  convert hbody using 1
  rw [buildLangGraphRequestBody]
  simp only [appendMessages_eq, appendInput_eq handoff.distinct.1, appendStreamMode_eq,
    intercalate_flatMap (34 :: (ascii "messages" ++ _))]
  simp only [ascii_append]
  repeat rw [ascii_ofList]
  simp [appendJSONEscaped_eq, quoted, List.intercalate_cons_cons]

/-! ## No name is repeated -/

theorem distinct_items (items : List Item) : (Value.array (items.map Item.value)).Distinct := by
  rw [Value.Distinct, distinctElems_iff]
  intro v hv
  obtain ⟨i, -, rfl⟩ := List.mem_map.mp hv
  exact i.distinct

theorem distinct_lastContent (handoff : HandoffData) (text : List UInt8) :
    (handoff.lastContent toLower text).Distinct := by
  rw [HandoffData.lastContent]
  split
  · rw [contentValue]
    split
    · exact distinct_items _
    · exact trivial
  · rw [multimodalValue]
    split
    · exact trivial
    · exact distinct_items _

theorem distinct_messageEntry {type : List UInt8} {content : Value} (h : content.Distinct) :
    (messageEntry type content).Distinct := by
  refine ⟨by simp [ascii], trivial, h, trivial⟩

theorem distinct_entries (handoff : HandoffData) :
    (Value.array (handoff.entries toLower)).Distinct := by
  rw [Value.Distinct, distinctElems_iff, HandoffData.entries]
  intro v hv
  split at hv
  · obtain rfl := List.mem_singleton.mp hv
    exact distinct_messageEntry (distinct_lastContent toLower handoff _)
  · obtain ⟨p, -, rfl⟩ := List.mem_map.mp hv
    apply distinct_messageEntry
    split
    · exact distinct_lastContent toLower handoff _
    · exact trivial

theorem distinct_modes (handoff : HandoffData) (defaultStreamMode : List UInt8) :
    (Value.array (handoff.modes defaultStreamMode)).Distinct := by
  rw [Value.Distinct, distinctElems_iff, HandoffData.modes]
  intro v hv
  split at hv
  · obtain rfl := List.mem_singleton.mp hv
    exact trivial
  · obtain ⟨mode, -, rfl⟩ := List.mem_map.mp hv
    exact trivial

/-- The object `input` has no name twice exactly when no custom field has the name of the
messages. -/
theorem distinct_input_iff (handoff : HandoffData) :
    (handoff.inputValue toLower).Distinct ↔
      ascii "messages" ∉ handoff.langGraphInput.map Prod.fst := by
  have hnames : ((handoff.langGraphInput.mergeSort nameLE).map fun e => (e.1, e.2.value)).map
      Prod.fst = (handoff.langGraphInput.mergeSort nameLE).map Prod.fst := by
    rw [List.map_map]
    rfl
  have hmem : ascii "messages" ∈ (handoff.langGraphInput.mergeSort nameLE).map Prod.fst ↔
      ascii "messages" ∈ handoff.langGraphInput.map Prod.fst :=
    ((List.mergeSort_perm _ _).map Prod.fst).mem_iff
  rw [HandoffData.inputValue, Value.Distinct, List.map_cons, hnames, List.nodup_cons, hmem]
  refine ⟨fun h => h.1.1, fun h => ⟨⟨h, names_mergeSort handoff.distinct.1⟩, ?_⟩⟩
  rw [distinctMembers_iff]
  intro m hm
  rcases List.mem_cons.mp hm with rfl | hm
  · exact distinct_entries toLower handoff
  · obtain ⟨e, he, rfl⟩ := List.mem_map.mp hm
    have hmembers := distinct_members handoff.langGraphInput handoff.distinct.2
    rw [members_eq] at hmembers
    exact hmembers _ (List.mem_map_of_mem (f := fun e => (e.1, e.2.value))
      (List.mem_mergeSort.mp he))

theorem distinct_value_iff (handoff : HandoffData) (assistantID defaultStreamMode : List UInt8) :
    (handoff.value toLower assistantID defaultStreamMode).Distinct ↔
      ascii "messages" ∉ handoff.langGraphInput.map Prod.fst := by
  rw [HandoffData.value, Value.Distinct, distinctMembers_iff, ← distinct_input_iff toLower]
  constructor
  · rintro ⟨-, h⟩
    exact h (ascii "input", handoff.inputValue toLower) (by simp)
  · intro h
    refine ⟨by simp [ascii], fun m hm => ?_⟩
    simp only [List.mem_cons, List.not_mem_nil, or_false] at hm
    rcases hm with rfl | rfl | rfl | rfl | rfl | rfl
    · exact trivial
    · exact h
    · exact distinct_modes handoff defaultStreamMode
    all_goals exact trivial

/-- A custom field with another name is found. -/
theorem get?_inputValue {handoff : HandoffData}
    (h : ascii "messages" ∉ handoff.langGraphInput.map Prod.fst) {e : List UInt8 × Any}
    (he : e ∈ handoff.langGraphInput) :
    (handoff.inputValue toLower).get? e.1 = some e.2.value := by
  have hne : e.1 ≠ ascii "messages" := fun heq => h (heq ▸ List.mem_map_of_mem he)
  have hnodup : (((handoff.langGraphInput.mergeSort nameLE).map
      fun e => (e.1, e.2.value)).map Prod.fst).Nodup := by
    rw [List.map_map]
    exact names_mergeSort handoff.distinct.1
  have hmem := List.mem_map_of_mem (f := fun e : List UInt8 × Any => (e.1, e.2.value))
    (((List.mergeSort_perm handoff.langGraphInput nameLE).mem_iff).mpr he)
  rw [HandoffData.inputValue, Value.get?, List.lookup_cons, beq_false_of_ne hne]
  exact lookup_of_nodup hnodup hmem

theorem means_value_iff (handoff : HandoffData) (assistantID defaultStreamMode : List UInt8) :
    Means toLower handoff assistantID defaultStreamMode
        (handoff.value toLower assistantID defaultStreamMode) ↔
      ascii "messages" ∉ handoff.langGraphInput.map Prod.fst := by
  refine ⟨fun h => (distinct_value_iff toLower handoff _ _).mp h.distinct, fun h => ?_⟩
  refine ⟨(distinct_value_iff toLower handoff _ _).mpr h, ?_,
    ⟨handoff.inputValue toLower, ?_, ?_, fun e he => get?_inputValue toLower h he⟩, ?_⟩
  · simp [HandoffData.value, Value.get?]
  · simp [HandoffData.value, Value.get?, ascii, List.lookup_cons]
  · simp [HandoffData.inputValue, Value.get?]
  · simp [HandoffData.value, Value.get?, ascii, List.lookup_cons]

/-- **The body means the handoff** exactly when no custom field has the name `messages`. The custom
fields are appended to the object that has the messages in it, and their names are not looked at;
all else that a handoff can say is written so that a reader finds it again. -/
theorem buildLangGraphRequestBody_means_iff (handoff : HandoffData)
    (assistantID defaultStreamMode : List UInt8) :
    (∃ v, parse (buildLangGraphRequestBody toLower handoff assistantID defaultStreamMode) = some v ∧
        Means toLower handoff assistantID defaultStreamMode v) ↔
      ascii "messages" ∉ handoff.langGraphInput.map Prod.fst := by
  rw [(reads_buildLangGraphRequestBody toLower handoff assistantID defaultStreamMode).parse]
  constructor
  · rintro ⟨v, hv, hmeans⟩
    obtain rfl := Option.some.inj hv
    exact (means_value_iff toLower handoff _ _).mp hmeans
  · exact fun h => ⟨_, rfl, (means_value_iff toLower handoff _ _).mpr h⟩

/-- A custom field `messages`: the object `input` has two members of that name. -/
theorem not_buildLangGraphRequestBody_means : ∃ handoff : HandoffData,
    handoff.langGraphInput = [(ascii "messages", .slice [])] ∧
      ¬ ∃ v, parse (buildLangGraphRequestBody id handoff (ascii "agent") (ascii "messages-tuple")) =
        some v ∧ Means id handoff (ascii "agent") (ascii "messages-tuple") v := by
  let handoff : HandoffData := {
    prompt := ascii "Hi"
    messages := []
    streamMode := []
    langGraphInput := [(ascii "messages", .slice [])]
    resolvedImages := []
    resolvedAttachments := ⟨[], by decide⟩
    contentFormat := []
    distinct := ⟨by simp, trivial, trivial⟩ }
  refine ⟨handoff, rfl, ?_⟩
  rintro ⟨v, hv, hmeans⟩
  rw [(reads_buildLangGraphRequestBody id handoff (ascii "agent") (ascii "messages-tuple")).parse]
    at hv
  obtain rfl := Option.some.inj hv
  exact (means_value_iff id handoff _ _).mp hmeans (by simp [handoff])

end Body

end SocketHandoff.Go
