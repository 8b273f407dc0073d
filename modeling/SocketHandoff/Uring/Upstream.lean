import SocketHandoff.Uring.FlatHandoff
import SocketHandoff.Uring.FormatSse
import SocketHandoff.Uring.CurlManager
import SocketHandoff.Uring.Backend
import SocketHandoff.Uring.Isolation

/-!
# The request for the API

`build_request_body` with what `handoff_parse_data` takes out of a handoff. The prompt is a piece of
JSON text whose escapes are not decoded, and is escaped once more; the model is put in as it is. For
both of them, and for everything around the prompt, `snprintf` has 256 bytes.
-/

namespace SocketHandoff.Uring

/-! ## The body -/

variable {model content prompt text : List UInt8} {n : Int}

/-- The body as a JSON value. -/
def requestValue (model content : List UInt8) (n : Int) : Json.Value :=
  .object [(ascii "model", .string model),
    (ascii "messages", .array [.object [(ascii "role", .string (ascii "user")),
      (ascii "content", .string content)]]),
    (ascii "max_tokens", .number n), (ascii "stream", .bool true)]

theorem readsMember_ascii (name : List UInt8) {value : List UInt8} {v : Json.Value}
    (hname : Json.Plain name) (h : Json.Reads value v) :
    Json.ReadsMember (34 :: (name ++ 34 :: 58 :: value)) (name, v) :=
  ⟨name, value, rfl, Json.decode_plain hname, h⟩

/-- The whole body is JSON. -/
theorem reads_requestText {modelText contentText : List UInt8}
    (hmodel : Json.decode modelText = some model)
    (hcontent : Json.decode contentText = some content) :
    Json.Reads (Backend.requestText modelText contentText n) (requestValue model content n) := by
  have huser : Json.Plain (ascii "user") := by decide
  have hrole := readsMember_ascii (ascii "role") (by decide)
    (Json.reads_string (Json.decode_plain huser))
  have hprompt := readsMember_ascii (ascii "content") (by decide) (Json.reads_string hcontent)
  have hmessages := Json.reads_array (.cons (Json.reads_object (.cons hrole (.cons hprompt .nil)))
    .nil)
  have hbody := Json.reads_object
    (.cons (readsMember_ascii (ascii "model") (by decide) (Json.reads_string hmodel))
    (.cons (readsMember_ascii (ascii "messages") (by decide) hmessages)
    (.cons (readsMember_ascii (ascii "max_tokens") (by decide) (Json.reads_int n))
    (.cons (readsMember_ascii (ascii "stream") (by decide) Json.reads_true) .nil))))
  have htext : Backend.requestText modelText contentText n =
      123 :: (List.intercalate [44] [34 :: (ascii "model" ++ 34 :: 58 :: 34 :: (modelText ++ [34])),
        34 :: (ascii "messages" ++ 34 :: 58 :: 91 :: (List.intercalate [44]
          [123 :: (List.intercalate [44]
            [34 :: (ascii "role" ++ 34 :: 58 :: 34 :: (ascii "user" ++ [34])),
              34 :: (ascii "content" ++ 34 :: 58 :: 34 :: (contentText ++ [34]))] ++ [125])] ++ [93])),
        34 :: (ascii "max_tokens" ++ 34 :: 58 :: ascii (toString n)),
        34 :: (ascii "stream" ++ 34 :: 58 :: ascii "true")] ++ [125]) := by
    simp [Backend.requestText, ascii, List.intercalate]
  rw [htext]
  exact hbody

/-- The body is JSON in which an API finds this model and this prompt. -/
def Carries (body model prompt : List UInt8) : Prop :=
  ∃ v, Json.parse body = some v ∧ v.get? (ascii "model") = some (.string model) ∧
    ∃ first rest, v.get? (ascii "messages") = some (.array (first :: rest)) ∧
      first.get? (ascii "content") = some (.string prompt)

theorem requestValue_model :
    (requestValue model content n).get? (ascii "model") = some (.string model) := rfl

theorem requestValue_messages :
    (requestValue model content n).get? (ascii "messages") =
      some (.array [.object [(ascii "role", .string (ascii "user")),
        (ascii "content", .string content)]]) := rfl

theorem message_content : (Json.Value.object [(ascii "role", .string (ascii "user")),
    (ascii "content", .string content)]).get? (ascii "content") = some (.string content) := rfl

/-- What a whole body carries. -/
theorem carries_requestText {modelText contentText model' content' : List UInt8}
    (hmodel : Json.decode modelText = some model)
    (hcontent : Json.decode contentText = some content) :
    Carries (Backend.requestText modelText contentText n) model' content' ↔
      model = model' ∧ content = content' := by
  have hparse := (reads_requestText (n := n) hmodel hcontent).parse
  constructor
  · rintro ⟨v, hv, hname, first, rest, hmessages, hfirst⟩
    obtain rfl := Option.some.inj (hparse.symm.trans hv)
    rw [requestValue_model] at hname
    rw [requestValue_messages] at hmessages
    obtain ⟨rfl, -⟩ := List.cons.inj (Json.Value.array.inj (Option.some.inj hmessages))
    rw [message_content] at hfirst
    exact ⟨Json.Value.string.inj (Option.some.inj hname),
      Json.Value.string.inj (Option.some.inj hfirst)⟩
  · rintro ⟨rfl, rfl⟩
    exact ⟨_, hparse, requestValue_model, _, _, requestValue_messages, message_content⟩

/-- A body that is cut is no JSON object. -/
theorem not_parse_cut {modelText contentText : List UInt8} {k : Nat}
    (hmodel : Json.decode modelText = some model)
    (hcontent : Json.decode contentText = some content)
    (hcut : k < (Backend.requestText modelText contentText n).length)
    {members : List (List UInt8 × Json.Value)} (hne : members ≠ []) :
    Json.parse ((Backend.requestText modelText contentText n).take k) ≠ some (.object members) := by
  obtain ⟨tail, htail⟩ : ∃ tail, Backend.requestText modelText contentText n = 123 :: tail := by
    simp [Backend.requestText, ascii]
  have htext := (reads_requestText (n := n) hmodel hcontent).text (by
    rw [htail]
    intro c hc
    obtain rfl := Option.some.inj hc
    rfl)
  intro hparse
  obtain ⟨white, core, white', hwhite, -, htake, hcore⟩ := Json.parse_iff.mp hparse
  have hsplit : Backend.requestText modelText contentText n = white ++ (core ++
      (white' ++ (Backend.requestText modelText contentText n).drop k)) := by
    conv_lhs => rw [← List.take_append_drop k (Backend.requestText modelText contentText n), htake]
    simp
  have hnil : white = [] := by
    cases white with
    | nil => rfl
    | cons c white =>
      rw [htail] at hsplit
      obtain ⟨rfl, -⟩ := List.cons.inj hsplit
      exact absurd (hwhite 123 List.mem_cons_self) (by decide)
  rw [hnil, List.nil_append] at hsplit
  rw [hsplit] at htext
  have hend := Json.text_object_end hcore htext hne (List.cons_ne_nil _ _)
  have hdrop := (List.append_eq_nil_iff.mp hend).2
  exact absurd (List.drop_eq_nil_iff.mp hdrop) (Nat.not_le.mpr hcut)

/-- **What the body carries**: it is cut when it has more than 255 bytes apart from the prompt, and
reads as the model and the prompt it was built from otherwise. -/
theorem carries_requestBody {modelText model' prompt' : List UInt8}
    (hmodel : Json.decode modelText = some model) :
    Carries (requestBody prompt modelText n) model' prompt' ↔
      82 + modelText.length + (ascii (toString n)).length ≤ 255 ∧ model = model' ∧
        prompt = prompt' := by
  have hprompt : Json.decode (prompt.flatMap escapeChar) = some prompt :=
    (Json.spells_flatMap spells_escapeChar prompt).decode
  have hbody : requestBody prompt modelText n =
      (Backend.requestText modelText (prompt.flatMap escapeChar) n).take
        ((prompt.flatMap escapeChar).length + 255) := rfl
  have hlen := Backend.length_requestText modelText (prompt.flatMap escapeChar) n
  rw [hbody]
  by_cases hfits : 82 + modelText.length + (ascii (toString n)).length ≤ 255
  · rw [List.take_of_length_le (by omega), carries_requestText hmodel hprompt]
    exact ⟨fun h => ⟨hfits, h⟩, fun h => h.2⟩
  · constructor
    · rintro ⟨v, hparse, hname, -⟩
      cases v with
      | object members =>
        refine absurd hparse (not_parse_cut hmodel hprompt (by omega) ?_)
        rintro rfl
        cases hname
      | null | bool | number | string | array => cases hname
    · exact fun h => absurd h.1 hfits

/-! ## From a flat handoff -/

variable {written : List Json.Written} {members : List (List UInt8 × Json.Value)}
  {buf : List UInt8} {len : Nat}

/-- The text of a flat object, in which the members `model` and `prompt` are these strings. -/
structure FlatHandoff (text : List UInt8) (members : List (List UInt8 × Json.Value))
    (model prompt : List UInt8) : Prop where
  parsed : Json.parse text = some (.object members)
  flat : ∀ m ∈ members, m.2.isScalar = true
  modelMember : (ascii "model", .string model) ∈ members
  oneModel : ∀ v, (ascii "model", v) ∈ members → v = .string model
  promptMember : (ascii "prompt", .string prompt) ∈ members
  onePrompt : ∀ v, (ascii "prompt", v) ∈ members → v = .string prompt

/-- The number of tokens asked for, with its default. -/
def askedTokens (written : List Json.Written) : Int :=
  if 0 < (writtenData written).maxTokens then (writtenData written).maxTokens else 1024

/-- What has to be so of a handoff, as it is written, for its model and its prompt to reach the API:
its members are at most fifteen; the name of the model is spelled without escapes, and the model as
it is written fits into what `snprintf` has for it; the name of the prompt is spelled without
escapes, and the prompt has none either, or the prompt is the default. It speaks of the spelling,
because the code passes texts on as they are spelled. -/
structure Passed (written : List Json.Written) (prompt : List UInt8) : Prop where
  few : written.length ≤ 15
  model : ∃ text, spelledString written "model" = some text ∧
    82 + text.length + (ascii (toString (askedTokens written))).length ≤ 255
  prompt : (∃ text, spelledString written "prompt" = some text ∧ (92 : UInt8) ∉ text) ∨
    spelledString written "prompt" = none ∧ prompt = ascii "Hello"

/-- What is found under a name is a member with that name. -/
theorem spelled_reads {name : List UInt8} {value : Json.Scalar} (hname : Json.Plain name)
    (h : List.Forall₂ Json.Written.Reads written members)
    (hspelled : Json.spelled written name = some value) :
    ∃ v, (name, v) ∈ members ∧ value.Reads v := by
  induction h with
  | nil => cases hspelled
  | @cons m member written members hm _ ih =>
    rw [Json.spelled] at hspelled
    by_cases hk : m.name = name
    · rw [List.find?_cons_of_pos (by simpa using hk), Option.map_some] at hspelled
      obtain rfl := Option.some.inj hspelled
      have hread := hm.name
      rw [hk, Json.decode_plain hname] at hread
      obtain rfl := Option.some.inj hread
      exact ⟨member.2, List.mem_cons_self, hm.value⟩
    · rw [List.find?_cons_of_neg (by simpa using hk)] at hspelled
      obtain ⟨v, hv, hreads⟩ := ih hspelled
      exact ⟨v, List.mem_cons_of_mem _ hv, hreads⟩

/-- The string under a name is the text of the member with that name. -/
theorem spelledString_reads {key : String} {s text : List UInt8} (hkey : Json.Plain (ascii key))
    (h : List.Forall₂ Json.Written.Reads written members)
    (hone : ∀ v, (ascii key, v) ∈ members → v = .string s)
    (hspelled : spelledString written key = some text) : Json.decode text = some s := by
  obtain ⟨value, hvalue, rfl⟩ := Option.map_eq_some_iff.mp hspelled
  obtain ⟨v, hv, hreads⟩ := spelled_reads hkey h (Option.filter_eq_some_iff.mp hvalue).1
  obtain rfl := hone v hv
  cases hreads with
  | string hdecode => exact hdecode
  | literal h => cases h

/-- Without a model the body carries the default one, which is not always this one. -/
theorem not_carries_default (cfg : Config) {data : HandoffData} (hdata : data.model = none) :
    ¬ ∀ defaultModel, Carries (buildRequestBody { cfg with defaultModel } data) model prompt := by
  intro hall
  have hbody : ∀ defaultModel, buildRequestBody { cfg with defaultModel } data =
      requestBody (data.prompt.getD (ascii "Hello")) defaultModel
        (if 0 < data.maxTokens then data.maxTokens else 1024) := by
    intro defaultModel
    rw [buildRequestBody, hdata]
    rfl
  have hempty := hall []
  have hletter := hall [120]
  rw [hbody, carries_requestBody (Json.decode_plain (by decide))] at hempty hletter
  have hsame := hempty.2.1.trans hletter.2.1.symm
  cases hsame

/-- A prompt as it is written stands for itself just when it has no escape. -/
theorem eq_prompt_iff (h : Json.decode text = some prompt) :
    text = prompt ↔ (92 : UInt8) ∉ text := by
  constructor
  · rintro rfl hb
    exact absurd (Json.length_decode h hb) (Nat.lt_irrefl _)
  · intro hb
    have hplain := Json.decode_plain (Json.plain_of_decode hb (by rw [h]; rfl))
    exact Option.some.inj (hplain.symm.trans h)

/-- **What reaches the API.** Whatever the default model is, the body carries the model and the
prompt of the handoff, under this condition and under no other. Both texts are taken as they are
spelled and escaped once more, so that a text with an escape arrives as another one. -/
theorem carried_iff (cfg : Config) (h : FlatHandoff (buf.take len) members model prompt) :
    ∃ written, List.Forall₂ Json.Written.Reads written members ∧
      handoffText buf len = Json.flatText written ∧
      ((∀ defaultModel, Carries (buildRequestBody { cfg with defaultModel }
        (handoffParseData jsonParse buf len).1) model prompt) ↔ Passed written prompt) := by
  have hne : members ≠ [] := List.ne_nil_of_mem h.modelMember
  obtain ⟨written, hreads, htext⟩ := handoffText_flat h.parsed hne h.flat
  refine ⟨written, hreads, htext, ?_⟩
  have hwritten : written ≠ [] := by
    rintro rfl
    cases hreads
    exact hne rfl
  rw [handoffParseData_flat hreads hwritten htext]
  have hfew : 2 * written.length < maxJsonTokens ↔ written.length ≤ 15 := by
    rw [maxJsonTokens]
    omega
  by_cases hroom : 2 * written.length < maxJsonTokens
  · rw [if_pos hroom]
    cases hmodel : spelledString written "model" with
    | none =>
      refine ⟨fun hall => absurd hall (not_carries_default cfg hmodel), fun hpassed => ?_⟩
      obtain ⟨text, htext, -⟩ := hpassed.model
      rw [hmodel] at htext
      cases htext
    | some modelText =>
      have hdecode := spelledString_reads (by decide) hreads h.oneModel hmodel
      have hbody : ∀ defaultModel, buildRequestBody { cfg with defaultModel } (writtenData written) =
          requestBody ((spelledString written "prompt").getD (ascii "Hello")) modelText
            (askedTokens written) := by
        intro defaultModel
        rw [buildRequestBody, writtenData, hmodel]
        rfl
      simp only [hbody, carries_requestBody hdecode, forall_const, true_and]
      have hread : ∀ text, spelledString written "prompt" = some text →
          Json.decode text = some prompt := fun text =>
        spelledString_reads (by decide) hreads h.onePrompt
      constructor
      · rintro ⟨hfits, hsame⟩
        refine ⟨hfew.mp hroom, ⟨modelText, hmodel, hfits⟩, ?_⟩
        cases hprompt : spelledString written "prompt" with
        | none =>
          rw [hprompt] at hsame
          exact .inr ⟨rfl, hsame.symm⟩
        | some text =>
          rw [hprompt] at hsame
          exact .inl ⟨text, rfl, (eq_prompt_iff (hread text hprompt)).mp hsame⟩
      · rintro ⟨-, ⟨text, htext, hfits⟩, hprompt⟩
        obtain rfl := Option.some.inj (hmodel.symm.trans htext)
        refine ⟨hfits, ?_⟩
        rcases hprompt with ⟨text, hprompt, hplain⟩ | ⟨hprompt, rfl⟩
        · rw [hprompt]
          exact (eq_prompt_iff (hread text hprompt)).mpr hplain
        · rw [hprompt]
          rfl
  · rw [if_neg hroom]
    exact ⟨fun hall => absurd hall (not_carries_default cfg rfl),
      fun hpassed => absurd (hfew.mpr hpassed.few) hroom⟩

/-! ### Two handoffs -/

/-- The object with the model `m` and a prompt. -/
def writtenPrompt (body : List UInt8) : List Json.Written :=
  [⟨[], ascii "model", [], [], .string [109], []⟩, ⟨[], ascii "prompt", [], [], .string body, []⟩]

def letterMembers (prompt : List UInt8) : List (List UInt8 × Json.Value) :=
  [(ascii "model", .string [109]), (ascii "prompt", .string prompt)]

theorem reads_writtenPrompt (h : Json.decode text = some prompt) :
    List.Forall₂ Json.Written.Reads (writtenPrompt text) (letterMembers prompt) := by
  have hmodel : Json.Plain (ascii "model") := by decide
  have hprompt : Json.Plain (ascii "prompt") := by decide
  have hm : Json.Plain [109] := by decide
  refine .cons ?_ (.cons ?_ .nil)
  · exact ⟨Json.white_nil, Json.decode_plain hmodel, Json.white_nil, Json.white_nil,
      .string (Json.decode_plain hm), Json.white_nil⟩
  · exact ⟨Json.white_nil, Json.decode_plain hprompt, Json.white_nil, Json.white_nil,
      .string h, Json.white_nil⟩

theorem flatHandoff_writtenPrompt (h : Json.decode text = some prompt) :
    FlatHandoff (Json.flatText (writtenPrompt text)) (letterMembers prompt) [109] prompt where
  parsed := Json.parse_flatText (reads_writtenPrompt h)
  flat := by simp [letterMembers, Json.Value.isScalar]
  modelMember := List.mem_cons_self
  oneModel v hv := by
    rcases List.mem_pair.mp hv with hv | hv
    · exact (Prod.mk.inj hv).2
    · exact absurd (Prod.mk.inj hv).1 (by decide)
  promptMember := List.mem_cons_of_mem _ List.mem_cons_self
  onePrompt v hv := by
    rcases List.mem_pair.mp hv with hv | hv
    · exact absurd (Prod.mk.inj hv).1 (by decide)
    · exact (Prod.mk.inj hv).2

/-- A prompt of one letter. -/
theorem carried_iff_letter :
    ∃ written, List.Forall₂ Json.Written.Reads written (letterMembers [120]) ∧
      handoffText (Json.flatText (writtenPrompt [120])) 26 = Json.flatText written ∧
      ((∀ defaultModel, Carries (buildRequestBody { demoConfig with defaultModel }
        (handoffParseData jsonParse (Json.flatText (writtenPrompt [120])) 26).1) [109] [120]) ↔
          Passed written [120]) := by
  have hplain : Json.Plain [120] := by decide
  have htake : (Json.flatText (writtenPrompt [120])).take 26 =
      Json.flatText (writtenPrompt [120]) := by decide
  have hflat := flatHandoff_writtenPrompt (Json.decode_plain hplain)
  rw [← htake] at hflat
  exact carried_iff demoConfig hflat

/-- **A line feed is not carried**: its escape is escaped once more, and the API reads a backslash and
an `n`. -/
theorem not_carried_lineFeed :
    FlatHandoff (Json.flatText (writtenPrompt [97, 92, 110, 98]))
      (letterMembers [97, 10, 98]) [109] [97, 10, 98] ∧
    ¬ Carries (buildRequestBody demoConfig (handoffParseData jsonParse
      (Json.flatText (writtenPrompt [97, 92, 110, 98])) 29).1) [109] [97, 10, 98] := by
  have hdecode : Json.decode [97, 92, 110, 98] = some [97, 10, 98] := by decide
  refine ⟨flatHandoff_writtenPrompt hdecode, ?_⟩
  have htext : handoffText (Json.flatText (writtenPrompt [97, 92, 110, 98])) 29 =
      Json.flatText (writtenPrompt [97, 92, 110, 98]) := by decide
  rw [handoffParseData_flat (reads_writtenPrompt hdecode) (List.cons_ne_nil _ _) htext,
    if_pos (by decide)]
  have hbody : buildRequestBody demoConfig (writtenData (writtenPrompt [97, 92, 110, 98])) =
      requestBody [97, 92, 110, 98] [109] 1024 := by decide
  have hm : Json.Plain [109] := by decide
  rw [hbody, carries_requestBody (Json.decode_plain hm)]
  rintro ⟨-, -, hsame⟩
  exact absurd hsame (by decide)

end SocketHandoff.Uring
