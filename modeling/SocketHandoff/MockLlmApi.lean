import SocketHandoff.Go.OpenAI
import SocketHandoff.Lib.Utf8

/-!
# The mock API

The upstream that this repository has for its tests and benchmarks, `mock-llm-api`: the chunks that
it streams, with and without the end of the stream. However the reads of the Go daemon cut what it
streams, a client gets the texts of the chunks, and nothing else.
-/

namespace SocketHandoff.MockLlmApi

open Go Json

/-! ## Chunks -/

/-- `char::is_control`. -/
def isControl (c : Char) : Bool := c.toNat < 32 ∨ 127 ≤ c.toNat ∧ c.toNat < 160

/-- `{:04x}` of a number that has no more digits. -/
def hex4 (n : Nat) : List UInt8 :=
  [n / 4096, n / 256, n / 16, n].map fun m => hexDigit (UInt8.ofNat (m % 16))

/-- `json_escape`, of a character. -/
def escapeChar (c : Char) : List UInt8 :=
  if c = '"' then ascii "\\\""
  else if c = '\\' then ascii "\\\\"
  else if c = '\n' then ascii "\\n"
  else if c = '\r' then ascii "\\r"
  else if c = '\t' then ascii "\\t"
  else if isControl c then ascii "\\u" ++ hex4 c.toNat
  else String.utf8EncodeChar c

def jsonEscape (s : List Char) : List UInt8 := s.flatMap escapeChar

/-- What stands before the delta of a chunk, with its name. -/
def chunkFront (id model : List UInt8) : List UInt8 :=
  ascii "\x7b\"id\":\"" ++ id ++ ascii "\",\"object\":\"chat.completion.chunk\",\"created\":0," ++
    ascii "\"model\":\"" ++ model ++ ascii "\",\"choices\":[\x7b\"index\":0,\"delta\":\x7b"

/-- The JSON text of a chunk with this text of a content. -/
def contentChunk (front escaped : List UInt8) : List UInt8 :=
  front ++ (ascii "\"content\":\"" ++ (escaped ++ ascii "\"\x7d,\"finish_reason\":null\x7d]\x7d"))

/-- The JSON text of the last chunk. -/
def finishChunk (front escaped : List UInt8) : List UInt8 :=
  front ++ (ascii "\x7d,\"finish_reason\":\"" ++ (escaped ++ ascii "\"\x7d]\x7d"))

/-- A line of data, and an empty one. -/
def sseData (json : List UInt8) : List UInt8 := ascii "data: " ++ json ++ ascii "\n\n"

def doneChunk : List UInt8 := ascii "data: [DONE]\n\n"

/-- What is streamed: the texts of the chunks in between are those of `WORDS`, one after another. -/
def cycled (words : List (List Char)) (count : Nat) : List (List Char) :=
  (List.range count).map fun i => words.getD (i % words.length) []

/-! ## Responses -/

namespace ResponseChunks

def front : List UInt8 := chunkFront (ascii "chatcmpl-mock") (ascii "mock-model")

/-- `word.replace('\\', "\\\\").replace('"', "\\\"")`, of a character. -/
def escapeWord (c : Char) : List UInt8 :=
  if c = '"' then ascii "\\\"" else if c = '\\' then ascii "\\\\" else String.utf8EncodeChar c

/-- A list of words: the escaping is for texts without control characters. -/
structure WordList where
  words : List (List Char)
  simple : ∀ word ∈ words, ∀ c ∈ word, ¬ c.toNat < 32

/-- What `chat_completions` streams where there is no pattern: the chunks of `ResponseChunks::new`,
the last one and the marker. -/
def stream (w : WordList) (chunkCount : Nat) : List UInt8 :=
  (cycled w.words chunkCount).flatMap (fun word =>
    sseData (contentChunk front (word.flatMap escapeWord))) ++
      (sseData (finishChunk front (ascii "stop")) ++ doneChunk)

end ResponseChunks

/-- A pattern of the header `X-Test-Pattern`. -/
inductive TestPattern
  | default
  | unicode
  | short
  | long
  | abort (n : Nat)
  | finish (reason : List Char)
  deriving DecidableEq

/-- The tables of texts: `WORDS` of `default_chunks`, those of `test_data.rs`, and the six chunks of
`finish_reason_chunks`. -/
structure TestData where
  words : List (List Char)
  unicodeChunks : List (List Char)
  shortChunks : List (List Char)
  longChunkContent : List Char
  finishWords : List (List Char)

structure TestResponseChunks where
  chunks : List (List UInt8)
  finalChunk : List UInt8
  abortAfter : Option Nat

namespace TestResponseChunks

def front : List UInt8 := chunkFront (ascii "chatcmpl-test") (ascii "test-model")

def makeChunk (content : List Char) : List UInt8 :=
  sseData (contentChunk front (jsonEscape content))

def makeFinalChunk (reason : List Char) : List UInt8 :=
  sseData (finishChunk front (jsonEscape reason))

/-- Chunks with these texts, and the reason `stop`. -/
def ofTexts (texts : List (List Char)) (reason : List Char) : TestResponseChunks :=
  ⟨texts.map makeChunk, makeFinalChunk reason, none⟩

def stop : List Char := ['s', 't', 'o', 'p']

def new (d : TestData) : TestPattern → TestResponseChunks
  | .default => ofTexts (cycled d.words 18) stop
  | .unicode => ofTexts d.unicodeChunks stop
  | .short => ofTexts d.shortChunks stop
  | .long => ofTexts (List.replicate 3 d.longChunkContent) stop
  | .abort n => { ofTexts (cycled d.words (max n 1 + 5)) stop with abortAfter := some n }
  | .finish reason => ofTexts d.finishWords reason

def contentChunks (c : TestResponseChunks) : List (List UInt8) :=
  c.chunks.take (c.abortAfter.getD c.chunks.length)

/-- What `test_pattern_response` streams. -/
def stream (c : TestResponseChunks) : List UInt8 :=
  c.contentChunks.flatten ++ if c.abortAfter.isSome then [] else c.finalChunk ++ doneChunk

end TestResponseChunks

/-! ## The texts are found -/

variable {c : Char} {rest front tail sep : List UInt8} {ps : List Piece}

/-- The pieces that a character becomes. -/
def charPieces (c : Char) : List Piece :=
  if isControl c ∧ c ≠ '\n' ∧ c ≠ '\r' ∧ c ≠ '\t' then [.code c.toNat]
  else (String.utf8EncodeChar c).map .byte

/-- Bytes that stand for themselves. -/
theorem pieced_bytes {bytes : List UInt8} (hbytes : ∀ b ∈ bytes, b ≠ 34 ∧ b ≠ 92 ∧ ¬ b < 32)
    (h : Pieced rest ps) : Pieced (bytes ++ rest) (bytes.map .byte ++ ps) := by
  induction bytes with
  | nil => exact h
  | cons b bytes ih =>
    exact .byte (hbytes b List.mem_cons_self) (ih fun d hd => hbytes d (List.mem_cons_of_mem b hd))

/-- The encoding of a character that may stand in a string. -/
theorem pieced_utf8 (hq : c ≠ '"') (hb : c ≠ '\\') (hc : ¬ c.toNat < 32) (h : Pieced rest ps) :
    Pieced (String.utf8EncodeChar c ++ rest) ((String.utf8EncodeChar c).map .byte ++ ps) := by
  refine pieced_bytes (fun b hmem => ?_) h
  have hno : ∀ d : Char, c ≠ d → c.toNat ≠ d.toNat := fun d hd h => hd (Char.toNat_inj.mp h)
  have hq' : c.toNat ≠ 34 := hno _ hq
  have hb' : c.toNat ≠ 92 := hno _ hb
  have hnat : b.toNat ≠ 34 ∧ b.toNat ≠ 92 ∧ ¬ b.toNat < 32 := by
    obtain hmem | hmem := Utf8.mem_encode hmem <;> omega
  rw [UInt8.lt_iff_toNat_lt, ne_eq, ne_eq, ← UInt8.toNat_inj, ← UInt8.toNat_inj]
  exact hnat

theorem hexUnit_hex4 : ∀ n < 160, ∃ a b c d, hex4 n = [a, b, c, d] ∧ hexUnit a b c d = some n := by
  intro n hn
  refine ⟨_, _, _, _, rfl, ?_⟩
  revert n
  decide +kernel

theorem pieced_escapeChar (c : Char) (h : Pieced rest ps) :
    Pieced (escapeChar c ++ rest) (charPieces c ++ ps) := by
  by_cases hq : c = '"'
  · subst hq
    exact .escaped rfl h
  by_cases hb : c = '\\'
  · subst hb
    exact .escaped rfl h
  by_cases hn : c = '\n'
  · subst hn
    exact .escaped rfl h
  by_cases hr : c = '\r'
  · subst hr
    exact .escaped rfl h
  by_cases ht : c = '\t'
  · subst ht
    exact .escaped rfl h
  rw [escapeChar, if_neg hq, if_neg hb, if_neg hn, if_neg hr, if_neg ht, charPieces]
  by_cases hc : isControl c = true
  · have hlt : c.toNat < 160 := by
      simp only [isControl, decide_eq_true_eq] at hc
      omega
    obtain ⟨x, y, z, w, hhex, hunit⟩ := hexUnit_hex4 c.toNat hlt
    rw [if_pos hc, if_pos ⟨hc, hn, hr, ht⟩, hhex]
    exact .unit hunit h
  · rw [if_neg hc, if_neg fun h => hc h.1]
    apply pieced_utf8 hq hb _ h
    intro hlt
    exact hc (by simp [isControl, hlt])

theorem pieced_jsonEscape (s : List Char) : Pieced (jsonEscape s) (s.flatMap charPieces) := by
  induction s with
  | nil => exact .nil
  | cons c s ih => exact pieced_escapeChar c ih

/-- They are decoded as the bytes of the character. -/
theorem replaced_charPieces (c : Char) (ps : List Piece) :
    replaced (charPieces c ++ ps) = String.utf8EncodeChar c ++ replaced ps := by
  rw [charPieces]
  split
  · rename_i hc
    have hlt : c.toNat < 160 := by
      have hcontrol := hc.1
      simp only [isControl, decide_eq_true_eq] at hcontrol
      omega
    have hno : ¬ isSurrogate c.toNat = true := by
      simp only [isSurrogate, decide_eq_true_eq]
      omega
    rw [List.singleton_append, replaced_unit (.inl (by omega)), encodeUnit, if_neg hno,
      Utf8.encode_toNat]
  · induction String.utf8EncodeChar c with
    | nil => rfl
    | cons b bytes ih => exact congrArg (b :: ·) ih

theorem joined_charPieces (c : Char) (ps : List Piece) :
    joined (charPieces c ++ ps) = String.utf8EncodeChar c ++ joined ps := by
  rw [charPieces]
  split
  · rename_i hc
    have hlt : c.toNat < 160 := by
      have hcontrol := hc.1
      simp only [isControl, decide_eq_true_eq] at hcontrol
      omega
    rw [List.singleton_append, joined_unit (by omega), Utf8.encode_toNat]
  · induction String.utf8EncodeChar c with
    | nil => rfl
    | cons b bytes ih => exact congrArg (b :: ·) ih

theorem replaced_jsonEscape (s : List Char) : replaced (s.flatMap charPieces) = Utf8.bytes s := by
  induction s with
  | nil => rfl
  | cons c s ih => rw [List.flatMap_cons, replaced_charPieces, ih, Utf8.bytes_cons]

theorem joined_jsonEscape (s : List Char) : joined (s.flatMap charPieces) = Utf8.bytes s := by
  induction s with
  | nil => rfl
  | cons c s ih => rw [List.flatMap_cons, joined_charPieces, ih, Utf8.bytes_cons]

/-- A pattern stays the first one when more follows. -/
theorem behind_append (h : behind sep (front ++ sep) = some []) (tail : List UInt8) :
    behind sep (front ++ (sep ++ tail)) = some tail := by
  obtain ⟨⟨front', rest'⟩, hdrop, rfl⟩ := Option.map_eq_some_iff.mp h
  obtain ⟨⟨sep', hs, hsep⟩, hfirst⟩ := List.dropInfix?_eq_some_iff.mp hdrop
  obtain rfl := eq_of_beq hsep
  rw [List.append_nil] at hs
  obtain rfl := List.append_cancel_right hs
  rw [behind, Option.map_eq_some_iff]
  refine ⟨(front, tail), List.dropInfix?_eq_some_iff.mpr ⟨⟨sep', by simp, hsep⟩, ?_⟩, rfl⟩
  -- one that ends before this one does would have been there before
  intro front' sep'' tail' hs' hsep'
  obtain rfl := eq_of_beq hsep'
  apply Classical.byContradiction
  intro hlt
  have hfront : front' ++ sep'' <+: front ++ sep'' := by
    refine @List.prefix_of_prefix_length_le _ _ _ (front ++ (sep'' ++ tail)) ?_ ?_ ?_
    · exact ⟨tail', hs'.symm⟩
    · exact ⟨tail, List.append_assoc ..⟩
    · simp only [List.length_append]
      omega
  obtain ⟨rest, hrest⟩ := hfront
  exact hlt (hfirst front' sep'' rest hrest.symm hsep')

/-! ## The content of a chunk -/

/-- A front of chunks: the delta is where they have it, in a line that begins like an object. The
mock writes its chunks as text, in two places and with different fronts. -/
structure DeltaFront (front : List UInt8) : Prop where
  delta : ∃ before, front = before ++ deltaFieldPattern
  first : behind deltaFieldPattern front = some []
  printed : ∀ c ∈ front, ¬ c < 32
  object : front.head? = some 123

theorem fronts_spec : ∀ front ∈ [ResponseChunks.front, TestResponseChunks.front],
    front = front.take (front.length - deltaFieldPattern.length) ++ deltaFieldPattern ∧
      Go.behind deltaFieldPattern front = some [] ∧ (front.all fun c => ¬ c < 32) = true ∧
      front.head? = some 123 := by
  decide +kernel

theorem deltaFront_of_mem (h : front ∈ [ResponseChunks.front, TestResponseChunks.front]) :
    DeltaFront front := by
  obtain ⟨hdelta, hfirst, hprinted, hobject⟩ := fronts_spec front h
  refine ⟨⟨_, hdelta⟩, hfirst, fun c hc => ?_, hobject⟩
  exact of_decide_eq_true (List.all_eq_true.mp hprinted c hc)

theorem DeltaFront.head (h : DeltaFront front) (tail : List UInt8) :
    (front ++ tail).head? = some 123 := by
  have hobject := h.object
  cases front with
  | nil => cases hobject
  | cons c front => exact hobject

theorem DeltaFront.behind (h : DeltaFront front) (tail : List UInt8) :
    behind deltaFieldPattern (front ++ tail) = some tail := by
  obtain ⟨before, hbefore⟩ := h.delta
  have hfirst := h.first
  rw [hbefore] at hfirst ⊢
  rw [List.append_assoc]
  exact behind_append hfirst tail

/-- **The content of a chunk** is the text that it was made of. -/
theorem extract_contentChunk (h : DeltaFront front) {escaped : List UInt8}
    (hp : Pieced escaped ps) : extractContentFast (contentChunk front escaped) = .ok (replaced ps) := by
  have hcontent : Go.behind contentFieldPattern ([] ++ contentFieldPattern) = some [] := by
    decide +kernel
  have hfield : contentField (contentChunk front escaped) =
      some (escaped ++ 34 :: ascii "\x7d,\"finish_reason\":null\x7d]\x7d") := by
    rw [contentField, contentChunk, h.behind, Option.bind_some]
    exact behind_append hcontent _
  exact extractContentFast_field hp hfield

/-- What ends the field of the reason. -/
def closing : List UInt8 := ascii "\"\x7d]\x7d"

theorem not_quote_colon {escaped : List UInt8} (hp : Pieced escaped ps) :
    ¬ [34, 58] <+: escaped ++ closing := by
  cases hp with
  | nil => decide
  | unit => simp
  | escaped => simp
  | byte hc =>
    intro h
    exact hc.1 (List.cons_prefix_cons.mp h).1.symm

theorem not_infix_cons {q : List UInt8} {x b : UInt8} (h : x = b → ¬ q <+: rest)
    (hrest : ¬ b :: q <:+: rest) : ¬ b :: q <:+: x :: rest := by
  intro hinfix
  obtain hfront | hinfix := List.infix_cons_iff.mp hinfix
  · obtain ⟨hx, hq⟩ := List.cons_prefix_cons.mp hfront
    exact h hx.symm hq
  · exact hrest hinfix

/-- In a text and behind it, no quote and colon follow the letter in which the name of the field
ends. -/
theorem not_infix_escaped {escaped : List UInt8} (hp : Pieced escaped ps) :
    ¬ [116, 34, 58] <:+: escaped ++ closing := by
  have hstart : ∀ {x : UInt8} {l : List UInt8}, x ≠ 34 → ¬ [34, 58] <+: x :: l :=
    fun hx h => hx (List.cons_prefix_cons.mp h).1.symm
  induction hp with
  | nil => decide +kernel
  | unit hu hrest ih =>
    have hplain := plain_of_hexUnit hu
    simp only [List.forall_mem_cons] at hplain
    obtain ⟨ha, hb, hc, hd, -⟩ := hplain
    apply not_infix_cons (fun h => absurd h (by decide))
    apply not_infix_cons (fun h => absurd h (by decide))
    apply not_infix_cons (fun _ => hstart hb.1)
    apply not_infix_cons (fun _ => hstart hc.1)
    apply not_infix_cons (fun _ => hstart hd.1)
    exact not_infix_cons (fun _ => not_quote_colon hrest) ih
  | escaped he hrest ih =>
    apply not_infix_cons (fun h => absurd h (by decide))
    exact not_infix_cons (fun _ => not_quote_colon hrest) ih
  | byte hc hrest ih => exact not_infix_cons (fun _ => not_quote_colon hrest) ih

theorem not_infix_append {q : List UInt8} {b : UInt8} (hfront : b ∉ front) (h : ¬ b :: q <:+: rest) :
    ¬ b :: q <:+: front ++ rest := by
  induction front with
  | nil => exact h
  | cons x front ih =>
    refine not_infix_cons (fun hx => absurd (hx ▸ List.mem_cons_self) hfront) (ih fun hmem => ?_)
    exact hfront (List.mem_cons_of_mem x hmem)

/-- A text cannot close the field of the reason and open one of a content. -/
theorem behind_finish {escaped : List UInt8} (hp : Pieced escaped ps) :
    Go.behind contentFieldPattern
      (ascii "\x7d,\"finish_reason\":\"" ++ (escaped ++ ascii "\"\x7d]\x7d")) = none := by
  cases hfound : Go.behind contentFieldPattern
    (ascii "\x7d,\"finish_reason\":\"" ++ (escaped ++ ascii "\"\x7d]\x7d")) with
  | none => rfl
  | some rest =>
    obtain ⟨before, hsplit, -⟩ := behind_some hfound
    have hname : [116, 34, 58] <:+: contentFieldPattern := by decide +kernel
    have hinfix : contentFieldPattern <:+:
        ascii "\x7d,\"finish_reason\":\"" ++ (escaped ++ ascii "\"\x7d]\x7d") :=
      ⟨before, rest, by rw [hsplit, List.append_assoc]⟩
    have hletter : 116 ∉ ascii "\x7d,\"finish_reason\":\"" := by decide +kernel
    exact absurd (hname.trans hinfix) (not_infix_append hletter (not_infix_escaped hp))

theorem extract_finishChunk (h : DeltaFront front) {escaped : List UInt8}
    (hp : Pieced escaped ps) : extractContentFast (finishChunk front escaped) = .ok [] := by
  apply extractContentFast_none
  rw [contentField, finishChunk, h.behind, Option.bind_some]
  exact behind_finish hp

/-! ## The lines of a stream -/

theorem not_control_hexUnit {a b c d : UInt8} {u : Nat} (h : hexUnit a b c d = some u) :
    ∀ e ∈ [a, b, c, d], ¬ e < 32 := by
  have hdigit := forall_byte (P := fun c => (hexValue c).isSome = true → ¬ c < 32)
    (by decide +kernel)
  simp only [hexUnit, Option.bind_eq_bind, Option.bind_eq_some_iff] at h
  obtain ⟨x, hx, y, hy, z, hz, w, hw, -⟩ := h
  simp only [List.forall_mem_cons, List.not_mem_nil, false_implies, implies_true, and_true]
  exact ⟨hdigit a (by simp [hx]), hdigit b (by simp [hy]), hdigit c (by simp [hz]),
    hdigit d (by simp [hw])⟩

theorem not_control_pieced {escaped : List UInt8} (hp : Pieced escaped ps) :
    ∀ b ∈ escaped, ¬ b < 32 := by
  induction hp with
  | nil => exact fun b hb => absurd hb List.not_mem_nil
  | unit hu _ ih =>
    have hdigits := not_control_hexUnit hu
    simp only [List.forall_mem_cons] at hdigits ⊢
    obtain ⟨ha, hb, hc, hd, -⟩ := hdigits
    exact ⟨by decide, by decide, ha, hb, hc, hd, ih⟩
  | @escaped c e _ _ he _ ih =>
    have hall := forall_byte (P := fun c => (Json.escaped c).isSome = true → ¬ c < 32)
      (by decide +kernel) c
    simp only [List.forall_mem_cons]
    exact ⟨by decide, hall (by rw [he]; rfl), ih⟩
  | byte hc _ ih =>
    simp only [List.forall_mem_cons]
    exact ⟨hc.2.2, ih⟩

/-- A chunk has no control characters. -/
theorem printed_chunk (h : DeltaFront front) {opening escaped closing : List UInt8}
    (hp : Pieced escaped ps) (ho : ∀ c ∈ opening, ¬ c < 32) (hc : ∀ c ∈ closing, ¬ c < 32) :
    ∀ c ∈ front ++ (opening ++ (escaped ++ closing)), ¬ c < 32 := by
  intro c hmem
  rcases List.mem_append.mp hmem with hmem | hmem
  · exact h.printed c hmem
  rcases List.mem_append.mp hmem with hmem | hmem
  · exact ho c hmem
  rcases List.mem_append.mp hmem with hmem | hmem
  · exact not_control_pieced hp c hmem
  · exact hc c hmem

/-- A text without control characters is one line. -/
theorem unbroken_of_printed {text : List UInt8} (h : ∀ c ∈ text, ¬ c < 32) :
    Sse.Unbroken id text := by
  intro c hmem
  have hc := h c hmem
  refine ⟨?_, ?_⟩ <;> rintro rfl <;> exact hc (by decide)

theorem ne_doneMarker (h : DeltaFront front) (tail : List UInt8) : front ++ tail ≠ doneMarker := by
  intro heq
  have hhead := h.head tail
  have hmarker : doneMarker.head? = some 91 := rfl
  rw [heq, hmarker] at hhead
  cases hhead

/-! ## The shape of a response -/

/-- The response that `chat_completions` streams. -/
inductive Completion
  /-- without a pattern: so many words of a list -/
  | benchmark (w : ResponseChunks.WordList) (chunkCount : Nat)
  | pattern (d : TestData) (p : TestPattern)

def Completion.stream : Completion → List UInt8
  | .benchmark w chunkCount => ResponseChunks.stream w chunkCount
  | .pattern d p => (TestResponseChunks.new d p).stream

/-- The texts of the chunks of a pattern. -/
def TestPattern.texts (d : TestData) : TestPattern → List (List Char)
  | .default => cycled d.words 18
  | .unicode => d.unicodeChunks
  | .short => d.shortChunks
  | .long => List.replicate 3 d.longChunkContent
  | .abort n => (cycled d.words (max n 1 + 5)).take n
  | .finish _ => d.finishWords

/-- The texts of the chunks. -/
def Completion.texts : Completion → List (List Char)
  | .benchmark w chunkCount => cycled w.words chunkCount
  | .pattern d p => p.texts d

/-- The response is broken off. -/
def Completion.aborted : Completion → Bool
  | .pattern _ (.abort _) => true
  | _ => false

/-- What its chunks begin with. -/
def Completion.lead : Completion → List UInt8
  | .benchmark .. => ResponseChunks.front
  | .pattern .. => TestResponseChunks.front

/-- How it spells a character. -/
def Completion.escape : Completion → Char → List UInt8
  | .benchmark .. => ResponseChunks.escapeWord
  | .pattern .. => escapeChar

/-- The reason in its last chunk. -/
def Completion.reason : Completion → List UInt8
  | .pattern _ (.finish reason) => jsonEscape reason
  | _ => ascii "stop"

/-- The JSON text of the chunk of a text. -/
def Completion.chunk (c : Completion) (text : List Char) : List UInt8 :=
  contentChunk c.lead (text.flatMap c.escape)

/-- What is sent behind the chunks of its texts. -/
def Completion.ending (c : Completion) : List (List UInt8) :=
  if c.aborted then [] else [finishChunk c.lead c.reason, doneMarker]

theorem deltaFront (c : Completion) : DeltaFront c.lead := by
  cases c with
  | benchmark => exact deltaFront_of_mem List.mem_cons_self
  | pattern => exact deltaFront_of_mem (List.mem_cons_of_mem _ List.mem_cons_self)

theorem sseData_eq (json : List UInt8) : sseData json = dataFrame json := by
  simp [sseData, dataFrame, ascii]

/-- The chunks of texts, one event after another. -/
theorem flatMap_sseData (texts : List (List Char)) (json : List Char → List UInt8) :
    texts.flatMap (fun text => sseData (json text)) = (texts.map json).flatMap dataFrame := by
  rw [List.flatMap_map]
  exact List.flatMap_congr fun text _ => sseData_eq _

theorem end_eq (json : List UInt8) :
    sseData json ++ doneChunk = [json, doneMarker].flatMap dataFrame := by
  simp [sseData, doneChunk, dataFrame, doneMarker, ascii]

theorem stream_ofTexts (texts : List (List Char)) (reason : List Char) (abortAfter : Option Nat) :
    ({ TestResponseChunks.ofTexts texts reason with
      abortAfter := abortAfter } : TestResponseChunks).stream =
        ((texts.take (abortAfter.getD texts.length)).map (fun text =>
          contentChunk TestResponseChunks.front (jsonEscape text)) ++
            if abortAfter.isSome then [] else
              [finishChunk TestResponseChunks.front (jsonEscape reason), doneMarker]).flatMap
                dataFrame := by
  have hchunks : (texts.map TestResponseChunks.makeChunk).take
      (abortAfter.getD (texts.map TestResponseChunks.makeChunk).length) =
        (texts.take (abortAfter.getD texts.length)).map TestResponseChunks.makeChunk := by
    rw [List.length_map, List.map_take]
  rw [TestResponseChunks.stream, TestResponseChunks.contentChunks, List.flatMap_append,
    ← flatMap_sseData]
  simp only [TestResponseChunks.ofTexts]
  rw [hchunks, ← List.flatMap_def]
  refine congrArg (_ ++ ·) ?_
  split
  · rfl
  · exact end_eq _

/-- **A response is a sequence of events**: the chunks of its texts and, unless it is broken off, its
end. -/
theorem stream_eq (c : Completion) :
    c.stream = (c.texts.map c.chunk ++ c.ending).flatMap dataFrame := by
  have hall (texts : List (List Char)) (reason : List Char) := stream_ofTexts texts reason none
  have hstop : jsonEscape TestResponseChunks.stop = ascii "stop" := by decide +kernel
  simp only [Option.getD_none, List.take_length] at hall
  have hstopped (texts : List (List Char)) := hall texts TestResponseChunks.stop
  simp only [hstop] at hstopped
  cases c with
  | benchmark w chunkCount =>
    rw [Completion.stream, ResponseChunks.stream, flatMap_sseData, end_eq, ← List.flatMap_append]
    rfl
  | pattern d p =>
    cases p with
    | default => exact hstopped (cycled d.words 18)
    | unicode => exact hstopped d.unicodeChunks
    | short => exact hstopped d.shortChunks
    | long => exact hstopped (List.replicate 3 d.longChunkContent)
    | abort n => exact stream_ofTexts (cycled d.words (max n 1 + 5)) TestResponseChunks.stop (some n)
    | finish reason => exact hall d.finishWords reason

/-- The words of a response are words of its list. -/
theorem mem_cycled {words : List (List Char)} {count : Nat} {word : List Char}
    (h : word ∈ cycled words count) : word ∈ words ∨ word = [] := by
  obtain ⟨i, -, rfl⟩ := List.mem_map.mp h
  rw [List.getD_eq_getElem?_getD]
  cases hword : words[i % words.length]? with
  | none => exact .inr rfl
  | some word => exact .inl (List.mem_of_getElem? hword)

theorem pieced_word {word : List Char} (h : ∀ c ∈ word, ¬ c.toNat < 32) :
    Pieced (word.flatMap ResponseChunks.escapeWord) ((Utf8.bytes word).map .byte) := by
  induction word with
  | nil => exact .nil
  | cons c word ih =>
    have hword := ih fun d hd => h d (List.mem_cons_of_mem c hd)
    rw [List.flatMap_cons, ResponseChunks.escapeWord, Utf8.bytes_cons, List.map_append]
    by_cases hq : c = '"'
    · subst hq
      exact .escaped rfl hword
    by_cases hb : c = '\\'
    · subst hb
      exact .escaped rfl hword
    rw [if_neg hq, if_neg hb]
    exact pieced_utf8 hq hb (h c List.mem_cons_self) hword

/-- **A text is spelled so that it can be read.** -/
theorem pieced_text (c : Completion) {text : List Char} (h : text ∈ c.texts) :
    ∃ ps, Pieced (text.flatMap c.escape) ps ∧ replaced ps = Utf8.bytes text ∧
      joined ps = Utf8.bytes text := by
  cases c with
  | benchmark w chunkCount =>
    have hsimple : ∀ d ∈ text, ¬ d.toNat < 32 := by
      obtain hword | rfl := mem_cycled h
      · exact w.simple text hword
      · exact fun d hd => absurd hd List.not_mem_nil
    refine ⟨_, pieced_word hsimple, ?_, joined_bytes _⟩
    induction Utf8.bytes text with
    | nil => rfl
    | cons b bytes ih => exact congrArg (b :: ·) ih
  | pattern =>
    exact ⟨_, pieced_jsonEscape text, replaced_jsonEscape text, joined_jsonEscape text⟩

theorem pieced_reason (c : Completion) : ∃ ps, Pieced c.reason ps := by
  have hstop : Pieced (ascii "stop") ((ascii "stop").map .byte) :=
    .byte (by decide) (.byte (by decide) (.byte (by decide) (.byte (by decide) .nil)))
  cases c with
  | benchmark => exact ⟨_, hstop⟩
  | pattern d p =>
    cases p with
    | finish reason => exact ⟨_, pieced_jsonEscape reason⟩
    | _ => exact ⟨_, hstop⟩

theorem printed_text (c : Completion) {text : List Char} (h : text ∈ c.texts) :
    ∀ b ∈ c.chunk text, ¬ b < 32 := by
  obtain ⟨ps, hp, -⟩ := pieced_text c h
  exact printed_chunk (deltaFront c) hp (forall_mem_ascii (P := (¬ · < 32)) _ rfl)
    (forall_mem_ascii (P := (¬ · < 32)) _ rfl)

theorem printed_finish (c : Completion) : ∀ b ∈ finishChunk c.lead c.reason, ¬ b < 32 := by
  obtain ⟨ps, hp⟩ := pieced_reason c
  exact printed_chunk (deltaFront c) hp (forall_mem_ascii (P := (¬ · < 32)) _ rfl)
    (forall_mem_ascii (P := (¬ · < 32)) _ rfl)

theorem contentsOf_chunks (c : Completion) {texts : List (List Char)}
    (h : ∀ text ∈ texts, text ∈ c.texts) {rest : List UInt8}
    (hrest : contentsOf (Scan.linesOf rest) = []) :
    contentsOf (Scan.linesOf ((texts.map c.chunk).flatMap dataFrame ++ rest)) =
      (texts.map Utf8.bytes).filter (· ≠ []) := by
  induction texts with
  | nil => exact hrest
  | cons text texts ih =>
    obtain ⟨ps, hp, htext, -⟩ := pieced_text c (h text List.mem_cons_self)
    have hunbroken := unbroken_of_printed (printed_text c (h text List.mem_cons_self))
    have hcontent := extract_contentChunk (deltaFront c) hp
    rw [List.map_cons, List.flatMap_cons, List.append_assoc,
      contentsOf_dataFrame hunbroken (ne_doneMarker (deltaFront c) _) hcontent,
      ih fun t ht => h t (List.mem_cons_of_mem text ht), htext, ← List.filter_append]
    rfl

/-- The end of a response has no content, whether it is there or not. -/
theorem contentsOf_ending (c : Completion) :
    contentsOf (Scan.linesOf (c.ending.flatMap dataFrame)) = [] := by
  obtain ⟨ps, hp⟩ := pieced_reason c
  rw [Completion.ending]
  split
  · rfl
  · rw [List.flatMap_cons, contentsOf_dataFrame (unbroken_of_printed (printed_finish c)) (ne_doneMarker (deltaFront c) _)
      (extract_finishChunk (deltaFront c) hp), List.flatMap_singleton]
    exact contentsOf_done []

/-- **The lines of a response** have its texts for contents, also where it is broken off. -/
theorem contentsOf_completion (c : Completion) :
    contentsOf (Scan.linesOf c.stream) = (c.texts.map Utf8.bytes).filter (· ≠ []) := by
  rw [stream_eq, List.flatMap_append]
  exact contentsOf_chunks c (fun _ h => h) (contentsOf_ending c)

/-! ## From the mock to the client -/

/-- The text of an event of the Go daemon, as its client decodes it. -/
def eventText (e : Sse.Event UInt8) : Option (List UInt8) := do
  let [line] := e.data | none
  let .string text ← (← parse line).get? (ascii "content") | none
  return text

theorem eventText_content (content : List UInt8) :
    eventText (dataEvent (contentObject content)) = some content := by
  have hget : (Json.Value.object [(ascii "content", .string content)]).get? (ascii "content") =
      some (.string content) := rfl
  simp only [eventText, dataEvent, parse_contentObject, Option.bind_eq_bind, Option.bind_some, hget]
  rfl

/-- **What the mock streams is what the client reads**: behind one head there is an event for each text
that is not empty, and the marker is the last one, even if the mock has broken off. -/
theorem completion_relayed {ω : ClientEnv} (hω : ω.Accepting) {q : Request} (hq : q.Reached)
    (c : Completion) (ctxErr : Option CtxErr) (body : Scan.Source GoError)
    (hbackend : q.backend = (openaiStream ctxErr (.response 200 body)).play 0)
    (hbytes : body.bytes = c.stream) (herr : body.err = none)
    (hshort : Scan.Short scannerMaxBufferSize c.stream) :
    ∃ out events, Http.readHead ((handleConnection q).final ω .start).received =
        some (sseHead (q.responseHeaders.filter (Sendable ·)), out) ∧
      Sse.events id out = events ++ [dataEvent doneMarker] ∧
      events.map eventText = ((c.texts.map Utf8.bytes).filter (· ≠ [])).map some := by
  rw [openaiStream_ok] at hbackend
  have hwhole : (openaiLoop ctxErr (.new scannerInitialBufferSize body)).outcome = some none := by
    apply openaiLoop_whole ctxErr _ herr
    rw [← hbytes] at hshort
    exact hshort
  have hout : ComesOut (openaiLoop ctxErr (.new scannerInitialBufferSize body))
      (contentTexts (contentsOf (Scan.linesOf body.bytes))) := comesOut_openaiLoop ctxErr _
  obtain ⟨hframes, -⟩ | ⟨contents, err, -, -, hfail⟩ := hout
  · obtain ⟨out, hread, hevents⟩ := script_read hω hq hbackend hframes
      (oneLines_marked (oneLines_contentTexts _)) (by simp) hwhole
    refine ⟨out, (contentTexts (contentsOf (Scan.linesOf body.bytes))).map dataEvent, hread, ?_, ?_⟩
    · rw [hevents, endTexts, List.append_nil, List.map_append]
      rfl
    · rw [hbytes, contentsOf_completion, contentTexts, List.map_map, List.map_map]
      exact List.map_congr_left fun content _ => eventText_content content
  · rw [hwhole] at hfail
    cases hfail

/-- A response of one chunk, read at once. -/
def greeting : Completion :=
  .pattern ⟨[], [], [], [], [['H', 'i']]⟩ (.finish ['l', 'e', 'n', 'g', 't', 'h'])

theorem completion_relayed_greeting :
    ∃ out events, Http.readHead ((handleConnection ⟨.ok, .ok, .ok, [],
        (openaiStream none (.response 200 (.last greeting.stream none))).play 0⟩).final
          takesAll .start).received = some (sseHead [], out) ∧
      Sse.events id out = events ++ [dataEvent doneMarker] ∧
      events.map eventText = [some [72, 105]] := by
  have hshort : Scan.Short scannerMaxBufferSize greeting.stream := by
    rw [Scan.Short]
    decide +kernel
  exact completion_relayed accepting_takesAll ⟨rfl, rfl, rfl⟩ greeting none
    (.last greeting.stream none) rfl rfl rfl hshort

end SocketHandoff.MockLlmApi
