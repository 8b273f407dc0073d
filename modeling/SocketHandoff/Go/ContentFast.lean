import SocketHandoff.Lib.JsonLex
import SocketHandoff.Lib.JsonParts
import SocketHandoff.Lib.Sse
import SocketHandoff.Go.Encode
import SocketHandoff.Go.Unescape

/-!
# The content of a chunk

How the OpenAI backend of the Go daemon takes the text out of a chunk, and the event in which
`SendSSE` passes it on. `extractContentFast` looks for two texts instead of reading the chunk: the
content that it finds is that of `choices[0].delta` where the second of these texts stands at the
place of this member. Elsewhere it is right only by coincidence.
-/

namespace SocketHandoff.Go

open Json

/-! ## `extractContentFast` -/

/-- `bytes.Index`. -/
def bytesIndex (s sep : List UInt8) : Option Nat := (s.dropInfix? sep).map fun p => p.1.length

def deltaFieldPattern : List UInt8 := ascii "\"delta\":\x7b"

def contentFieldPattern : List UInt8 := ascii "\"content\":\""

/-- The bytes that the loop steps over together with the backslash before them. -/
def isEscape (c : UInt8) : Bool :=
  c = 34 ∨ c = 92 ∨ c = 47 ∨ c = 98 ∨ c = 102 ∨ c = 110 ∨ c = 114 ∨ c = 116 ∨ c = 117

/-- The loop that finds the end of the string. It steps over a backslash with the byte behind it
where that is one of the nine that JSON knows, and over the backslash alone otherwise. Every access
is checked, so that a result says that no index was out of range. -/
def closingQuote (data : List UInt8) (pos : Nat) : Checked Nat := do
  if pos < data.length then
    let c ← load data pos
    if c = 92 then
      if data.length ≤ pos + 1 then return pos
      else
        let next ← load data (pos + 1)
        if isEscape next then closingQuote data (pos + 2) else closingQuote data (pos + 1)
    else if c = 34 then return pos
    else closingQuote data (pos + 1)
  else return pos
termination_by data.length - pos

/-- `extractContentFast`: the first `"delta":{` of the bytes, and behind it the first `"content":"`,
wherever these stand. Nothing is parsed; a result is the text up to the next quote, without its
escapes if it has any. The search is what makes it fast, and what a name inside another string can
lead astray. -/
def extractContentFast (data : List UInt8) : Checked (List UInt8) := do
  match bytesIndex data deltaFieldPattern with
  | none => return []
  | some deltaIdx =>
    let searchFrom := deltaIdx + deltaFieldPattern.length
    match bytesIndex (← loadBytes data searchFrom (data.length - searchFrom)) contentFieldPattern with
    | none => return []
    | some idx =>
      let start := searchFrom + idx + contentFieldPattern.length
      if data.length ≤ start then return []
      else
        let stop ← closingQuote data start
        if stop < start then return []
        else
          let content ← loadBytes data start (stop - start)
          if 92 ∈ content then unescapeJSON content else return content

/-! ## What is found -/

/-- What stands behind the first `sep`. -/
def behind (sep s : List UInt8) : Option (List UInt8) := (s.dropInfix? sep).map Prod.snd

/-- What stands behind the first `"content":"` behind the first `"delta":{`. -/
def contentField (data : List UInt8) : Option (List UInt8) :=
  (behind deltaFieldPattern data).bind (behind contentFieldPattern)

variable {data s sep rest body : List UInt8} {pos : Nat}

theorem behind_some (h : behind sep s = some rest) :
    ∃ front, s = front ++ (sep ++ rest) ∧ bytesIndex s sep = some front.length := by
  obtain ⟨⟨front, rest⟩, hdrop, rfl⟩ := Option.map_eq_some_iff.mp h
  obtain ⟨⟨sep', hs, hsep⟩, -⟩ := List.dropInfix?_eq_some_iff.mp hdrop
  obtain rfl := eq_of_beq hsep
  refine ⟨front, ?_, ?_⟩
  · rw [hs, List.append_assoc]
  · rw [bytesIndex, hdrop, Option.map_some]

theorem behind_none (h : behind sep s = none) : bytesIndex s sep = none := by
  rw [behind, Option.map_eq_none_iff] at h
  rw [bytesIndex, h, Option.map_none]

/-- Where there is no such field, nothing is found. -/
theorem extractContentFast_none (h : contentField data = none) :
    extractContentFast data = .ok [] := by
  rw [extractContentFast]
  cases hdelta : behind deltaFieldPattern data with
  | none =>
    rw [behind_none hdelta]
    rfl
  | some rest =>
    obtain ⟨front, hdata, hindex⟩ := behind_some hdelta
    rw [contentField, hdelta, Option.bind_some] at h
    have hdrop : data.drop (front.length + deltaFieldPattern.length) = rest := by
      rw [hdata, ← List.append_assoc, ← List.length_append, List.drop_left]
    have hlen : front.length + deltaFieldPattern.length + rest.length = data.length := by
      rw [hdata, List.length_append, List.length_append, Nat.add_assoc]
    have hload : loadBytes data (front.length + deltaFieldPattern.length)
        (data.length - (front.length + deltaFieldPattern.length)) = .ok rest := by
      rw [loadBytes_ok (by omega), hdrop, ← hlen, Nat.add_sub_cancel_left, List.take_length]
    simp only [hindex, hload, bind, Except.bind, behind_none h]
    rfl

/-! ## The end of the string -/

theorem isEscape_of_escaped {c e : UInt8} (h : escaped c = some e) : isEscape c = true := by
  have hall := forall_byte (P := fun c => (escaped c).isSome = true → isEscape c = true)
    (by decide +kernel) c
  exact hall (by rw [h]; rfl)

/-- One turn at an escape. -/
theorem closingQuote_escape {c : UInt8} (hd : data.drop pos = 92 :: c :: rest)
    (hc : isEscape c = true) : closingQuote data pos = closingQuote data (pos + 2) := by
  have hlen := congrArg List.length hd
  rw [List.length_drop] at hlen
  simp only [List.length_cons] at hlen
  have h0 : load data pos = .ok 92 := load_behind [] hd
  have h1 : load data (pos + 1) = .ok c := load_behind [92] hd
  rw [closingQuote, if_pos (by omega), h0]
  simp only [bind, Except.bind, if_true]
  rw [if_neg (by omega), h1]
  simp only [hc, if_true]

/-- One turn at another byte of the string. -/
theorem closingQuote_byte {c : UInt8} (hd : data.drop pos = c :: rest) (hc : c ≠ 34 ∧ c ≠ 92) :
    closingQuote data pos = closingQuote data (pos + 1) := by
  have hlen := congrArg List.length hd
  rw [List.length_drop] at hlen
  simp only [List.length_cons] at hlen
  have h0 : load data pos = .ok c := load_behind [] hd
  rw [closingQuote, if_pos (by omega), h0]
  simp only [bind, Except.bind]
  rw [if_neg hc.2, if_neg hc.1]

theorem closingQuote_bytes {text : List UInt8} (htext : ∀ c ∈ text, c ≠ 34 ∧ c ≠ 92)
    (hd : data.drop pos = text ++ rest) :
    closingQuote data pos = closingQuote data (pos + text.length) := by
  induction text generalizing pos with
  | nil => rfl
  | cons c text ih =>
    have hd₁ : data.drop (pos + 1) = text ++ rest := drop_behind [c] hd
    rw [closingQuote_byte hd (htext c List.mem_cons_self),
      ih (fun d hd => htext d (List.mem_cons_of_mem c hd)) hd₁, List.length_cons]
    congr 1
    omega

/-- **The loop ends at the quote behind the string.** The induction is on the pieces of the text, as
a piece is what the loop steps over at once: a byte, or a backslash and its byte; the digits of `\u`
are bytes to it. -/
theorem closingQuote_pieced {ps : List Piece} (hp : Pieced body ps)
    (hd : data.drop pos = body ++ 34 :: rest) :
    closingQuote data pos = .ok (pos + body.length) := by
  induction hp generalizing pos with
  | nil =>
    have hlen := congrArg List.length hd
    rw [List.length_drop] at hlen
    simp only [List.nil_append, List.length_cons] at hlen
    have h0 : load data pos = .ok 34 := load_behind [] hd
    rw [closingQuote, if_pos (by omega), h0]
    rfl
  | @unit a b c d u text ps hu htail ih =>
    -- the digits are stepped over one by one
    have hd₂ : data.drop (pos + 2) = [a, b, c, d] ++ (text ++ 34 :: rest) :=
      drop_behind [92, 117] hd
    have hd₆ : data.drop (pos + 2 + 4) = text ++ 34 :: rest := drop_behind [a, b, c, d] hd₂
    rw [closingQuote_escape hd rfl, closingQuote_bytes (plain_of_hexUnit hu) hd₂]
    change closingQuote data (pos + 2 + 4) = _
    rw [ih hd₆]
    simp only [List.length_cons]
    congr 1
    omega
  | @escaped c e text ps he htail ih =>
    have hd₂ : data.drop (pos + 2) = text ++ 34 :: rest := drop_behind [92, c] hd
    rw [closingQuote_escape hd (isEscape_of_escaped he), ih hd₂]
    simp only [List.length_cons]
    congr 1
    omega
  | @byte c text ps hc htail ih =>
    have hd₁ : data.drop (pos + 1) = text ++ 34 :: rest := drop_behind [c] hd
    rw [closingQuote_byte hd ⟨hc.1, hc.2.1⟩, ih hd₁]
    simp only [List.length_cons]
    congr 1
    omega

/-- **The string behind the field** is decoded, with a character of its own for a lone surrogate.
Nothing is said of which string this is; that is the condition on the chunk. -/
theorem extractContentFast_field {ps : List Piece} (hp : Pieced body ps)
    (h : contentField data = some (body ++ 34 :: rest)) :
    extractContentFast data = .ok (replaced ps) := by
  obtain ⟨delta, hdelta, hcontent⟩ := Option.bind_eq_some_iff.mp h
  obtain ⟨front, hdata, hindex⟩ := behind_some hdelta
  obtain ⟨mid, hmid, hindex'⟩ := behind_some hcontent
  have hdrop : data.drop (front.length + deltaFieldPattern.length) = delta := by
    rw [hdata, ← List.append_assoc, ← List.length_append, List.drop_left]
  have hlen : front.length + deltaFieldPattern.length + delta.length = data.length := by
    rw [hdata, List.length_append, List.length_append, Nat.add_assoc]
  have hload : loadBytes data (front.length + deltaFieldPattern.length)
      (data.length - (front.length + deltaFieldPattern.length)) = .ok delta := by
    rw [loadBytes_ok (by omega), hdrop, ← hlen, Nat.add_sub_cancel_left, List.take_length]
  have hstart : data.drop (front.length + deltaFieldPattern.length + mid.length +
      contentFieldPattern.length) = body ++ 34 :: rest := by
    rw [← List.drop_drop, ← List.drop_drop, hdrop, hmid, List.drop_left, List.drop_left]
  generalize hs : front.length + deltaFieldPattern.length + mid.length +
    contentFieldPattern.length = start at hstart
  have hlen' := congrArg List.length hstart
  rw [List.length_drop, List.length_append, List.length_cons] at hlen'
  have hbody : loadBytes data start body.length = .ok body := by
    rw [loadBytes_ok (by omega), hstart, List.take_left]
  rw [extractContentFast]
  simp only [hindex, hload, bind, Except.bind, hindex', hs]
  rw [if_neg (by omega), closingQuote_pieced hp hstart]
  simp only
  rw [if_neg (by omega), Nat.add_sub_cancel_left, hbody]
  simp only
  split
  · exact unescapeJSON_pieced hp
  · rename_i hplain
    rw [replaced_of_notMem hp hplain]
    rfl

/-! ## What is found is the content of the delta -/

/-- The text of a member; the last one counts. -/
def memberText (name text : List UInt8) : Option (List UInt8) := do
  let members ← objectParts text
  (members.filter fun m => m.1 = name).getLast?.map Prod.snd

/-- The value of a text that is a string. -/
def stringText (text : List UInt8) : Option (List UInt8) :=
  match skip text with
  | 34 :: text => (readString text).bind fun p => decodeReplacing p.1
  | _ => none

/-- `choices[0].delta.content` of a chunk where it is a string. -/
def deltaString (data : List UInt8) : Option (List UInt8) := do
  let choice ← (← arrayParts (← memberText (ascii "choices") data)).head?
  let content ← memberText (ascii "content") (← memberText (ascii "delta") choice)
  stringText content

/-- What is to be found: that string, and otherwise the empty one. -/
def deltaContent (data : List UInt8) : List UInt8 := (deltaString data).getD []

/-- **The string at this place is the content of the delta**: it begins behind the first
`"content":"` behind the first `"delta":{`, and whatever string stands there, it is
`choices[0].delta.content`. -/
structure OwnContent (data front body tail : List UInt8) : Prop where
  split : data = front ++ 34 :: (body ++ 34 :: tail)
  first : contentField data = some (body ++ 34 :: tail)
  place : Carries decodeReplacing deltaString front tail

/-- **The condition on a chunk**: what the two searches find is the content, or the chunk has none
and they find nothing. It is stated about the places in the text and not about what the function
returns; a text that happens to stand in two places is left to the first half. -/
inductive Extractable (data : List UInt8) : Prop
  /-- one of the two texts is missing, and the content of the delta is not a string, or an empty
  one -/
  | absent (h : contentField data = none) (hcontent : deltaContent data = [])
  /-- the content of the delta is found -/
  | own {front body tail s : List UInt8} (place : OwnContent data front body tail)
      (string : decodeReplacing body = some s)
  /-- another string is found, which happens to say the same -/
  | coincidence {body tail : List UInt8} (first : contentField data = some (body ++ 34 :: tail))
      (other : ¬ ∃ front, OwnContent data front body tail)
      (same : decodeReplacing body = some (deltaContent data))

/-- In a JSON text, a string begins behind the field. -/
theorem string_of_contentField {v : Value} (h : parse data = some v)
    (hfield : contentField data = some rest) :
    ∃ body s tail, rest = body ++ 34 :: tail ∧ decode body = some s := by
  obtain ⟨delta, hdelta, hcontent⟩ := Option.bind_eq_some_iff.mp hfield
  obtain ⟨front, hdata, -⟩ := behind_some hdelta
  obtain ⟨mid, hmid, -⟩ := behind_some hcontent
  have hlexed := lexed_of_parse h
  rw [hdata, hmid, ← List.append_assoc, ← List.append_assoc] at hlexed
  exact @Lexed.behind_name 99 (ascii "ontent") _ _ rfl (by decide) hlexed

/-- **The fast extraction agrees with the JSON reader** on a chunk exactly when it meets the
condition. The function looks for two texts wherever they are, so that all depends on what stands
where they are found first. -/
theorem extractContentFast_iff (h : (parse data).isSome) :
    extractContentFast data = .ok (deltaContent data) ↔ Extractable data := by
  obtain ⟨v, hv⟩ := Option.isSome_iff_exists.mp h
  cases hfield : contentField data with
  | none =>
    rw [extractContentFast_none hfield]
    constructor
    · intro heq
      exact .absent hfield (Except.ok.inj heq).symm
    · intro hcond
      cases hcond with
      | absent _ hcontent => rw [hcontent]
      | own place _ => exact absurd (hfield.symm.trans place.first) (by simp)
      | coincidence first _ _ => exact absurd (hfield.symm.trans first) (by simp)
  | some rest =>
    obtain ⟨body, s, tail, rfl, hs⟩ := string_of_contentField hv hfield
    obtain ⟨ps, hps, -⟩ := Option.map_eq_some_iff.mp hs
    have hreplaced : decodeReplacing body = some (replaced ps) := by
      rw [decodeReplacing, hps, Option.map_eq_map, Option.map_some]
    rw [extractContentFast_field (pieced_of_pieces hps) hfield]
    constructor
    · intro heq
      by_cases hown : ∃ front, OwnContent data front body tail
      · obtain ⟨front, place⟩ := hown
        exact .own place hreplaced
      · refine .coincidence hfield hown ?_
        rw [hreplaced, Except.ok.inj heq]
    · intro hcond
      cases hcond with
      | absent hnone _ => exact absurd (hfield.symm.trans hnone) (by simp)
      | own place string =>
        obtain ⟨rfl, rfl⟩ := pieces_end hreplaced string
          (Option.some.inj (hfield.symm.trans place.first))
        have hcontent := place.place body _ hreplaced
        rw [← place.split] at hcontent
        rw [deltaContent, hcontent, Option.getD_some]
      | coincidence first _ same =>
        obtain ⟨rfl, rfl⟩ := pieces_end hreplaced same
          (Option.some.inj (hfield.symm.trans first))
        rw [Option.some.inj (hreplaced.symm.trans same)]

/-! ## A chunk as the service writes it -/

/-- What stands before the quote of the content. -/
def chunkFront : List UInt8 := ascii "\x7b\"choices\":[\x7b\"delta\":\x7b\"content\":"

def chunkTail : List UInt8 := ascii "\x7d\x7d]\x7d"

/-- A chunk with this text of a content. -/
def chunk (e : List UInt8) : List UInt8 := chunkFront ++ 34 :: (e ++ 34 :: chunkTail)

theorem contentField_chunk (e : List UInt8) :
    contentField (chunk e) = some (e ++ 34 :: chunkTail) := by
  rw [chunk]
  generalize e ++ 34 :: chunkTail = rest
  simp only [contentField, deltaFieldPattern, contentFieldPattern, chunkFront]
  repeat rw [ascii_ofList]
  simp [behind, List.dropInfix?, List.dropInfix?.go, List.dropPrefix?]

/-- An object of one member, as it is written without white space. -/
def oneMember (name core : List UInt8) : List UInt8 :=
  123 :: (34 :: (name ++ 34 :: 58 :: core) ++ [125])

theorem text_oneMember {name core : List UInt8} {v : Value} (hname : decode name = some name)
    (h : Text v core) : Text (.object [(name, v)]) (oneMember name core) := by
  have hobject := Text.object white_nil (.one (.mk hname white_nil white_nil h)) white_nil
  simpa [oneMember] using hobject

theorem memberText_oneMember {name core : List UInt8} {v : Value}
    (hname : decode name = some name) (h : Text v core) :
    memberText name (oneMember name core) = some core := by
  rw [memberText, oneMember, objectParts_one hname h]
  simp

/-- **The string in such a chunk is the content of its delta**, whatever it is. -/
theorem chunk_carries : Carries decodeReplacing deltaString chunkFront chunkTail := by
  intro body s hs
  obtain ⟨ps, hps, hvalue⟩ := Option.map_eq_some_iff.mp hs
  have hdecode : decode body = some (joined ps) := by
    rw [decode, hps, Option.map_eq_map, Option.map_some]
  have hstring : Text (.string (joined ps)) (34 :: (body ++ [34])) := .string hdecode
  have hcontent : decode (ascii "content") = some (ascii "content") := by decide
  have hname : decode (ascii "delta") = some (ascii "delta") := by decide
  have hdelta := text_oneMember hcontent hstring
  have hchoice := text_oneMember hname hdelta
  have hchoices := Text.array white_nil (.one hchoice) white_nil
  rw [List.nil_append, List.nil_append] at hchoices
  have hchunk : chunkFront ++ 34 :: (body ++ 34 :: chunkTail) = oneMember (ascii "choices")
      (91 :: (oneMember (ascii "delta") (oneMember (ascii "content") (34 :: (body ++ [34]))) ++
        [93])) := by
    simp [chunkFront, chunkTail, oneMember, ascii]
  have hread : stringText (34 :: (body ++ [34])) = some s := by
    have hskip : skip (34 :: (body ++ [34])) = 34 :: (body ++ [34]) := skip_cons rfl
    rw [stringText, hskip]
    simp only [readString_quote hps, Option.bind_some]
    exact hs
  rw [hchunk, deltaString, memberText_oneMember (by decide) hchoices]
  simp only [Option.bind_eq_bind, Option.bind_some, arrayParts_one hchoice, List.head?_cons]
  rw [memberText_oneMember (by decide) hdelta, Option.bind_some,
    memberText_oneMember (by decide) hstring, Option.bind_some, hread]

theorem extractContentFast_iff_chunk :
    extractContentFast (chunk (ascii "x\\n\\u00e9")) = .ok (ascii "x\n" ++ [195, 169]) := by
  have hbody : decodeReplacing (ascii "x\\n\\u00e9") = some (ascii "x\n" ++ [195, 169]) := by decide
  have hcontent : deltaContent (chunk (ascii "x\\n\\u00e9")) = ascii "x\n" ++ [195, 169] := by
    rw [deltaContent, chunk, chunk_carries _ _ hbody, Option.getD_some]
  rw [← hcontent]
  exact (extractContentFast_iff (by decide +kernel)).mpr
    (.own ⟨rfl, contentField_chunk _, chunk_carries⟩ hbody)

def foreignChunk : List UInt8 := ascii
  "\x7b\"choices\":[\x7b\"delta\":\x7b\x7d,\"logprobs\":\x7b\"content\":\"y\"\x7d\x7d]\x7d"

/-- An object behind the delta has a content of its own, which is taken for that of the delta. -/
theorem extractContentFast_foreign :
    ¬ ∀ data : List UInt8, (parse data).isSome →
      extractContentFast data = .ok (deltaContent data) := by
  intro h
  have hfield := h foreignChunk (by decide +kernel)
  revert hfield
  decide +kernel

/-! ## What is escaped is found again -/

/-- The piece that a byte becomes. -/
def escapedPiece (c : UInt8) : Piece :=
  if c < 32 ∧ c ≠ 10 ∧ c ≠ 13 ∧ c ≠ 9 then .code c.toNat else .byte c

theorem pieced_escapedByte (c : UInt8) {ps : List Piece} (h : Pieced rest ps) :
    Pieced (escapedByte c ++ rest) (escapedPiece c :: ps) := by
  rw [escapedByte]
  split
  · rename_i hc
    rcases hc with rfl | rfl
    all_goals exact .escaped rfl h
  split
  · rename_i hc
    subst hc
    exact .escaped rfl h
  split
  · rename_i hc
    subst hc
    exact .escaped rfl h
  split
  · rename_i hc
    subst hc
    exact .escaped rfl h
  split
  · rename_i h10 h13 h9 hc
    rw [escapedPiece, if_pos ⟨hc, h10, h13, h9⟩]
    exact .unit (hexUnit_hexDigit c (UInt8.lt_trans hc (by decide))).1 h
  · rename_i hq h10 h13 h9 hc
    rw [escapedPiece, if_neg fun h => hc h.1]
    exact .byte ⟨fun e => hq (.inr e), fun e => hq (.inl e), hc⟩ h

/-- The text of an escaped string, piece by piece. -/
theorem pieced_escaped (s : List UInt8) : Pieced (s.flatMap escapedByte) (s.map escapedPiece) := by
  induction s with
  | nil => exact .nil
  | cons c s ih =>
    rw [List.flatMap_cons, List.map_cons]
    exact pieced_escapedByte c ih

theorem replaced_escapedPiece (s : List UInt8) : replaced (s.map escapedPiece) = s := by
  induction s with
  | nil => rfl
  | cons c s ih =>
    rw [List.map_cons, escapedPiece]
    split
    · rename_i hc
      have hlt : c < 128 := UInt8.lt_trans hc.1 (by decide)
      have hsmall : c.toNat < 128 := hlt
      have hno : ¬ isSurrogate c.toNat = true := by
        simp only [isSurrogate, decide_eq_true_eq]
        omega
      rw [replaced_unit (.inl (by omega)), ih, encodeUnit, if_neg hno, (hexUnit_hexDigit c hlt).2]
      rfl
    · rw [replaced, ih]

/-! ## `SendSSE` -/

/-- What `SendSSE` writes. -/
def sseContentEvent (content : List UInt8) : List UInt8 :=
  appendJSONEscaped (ascii "data: \x7b\"content\":\"") content ++ ascii "\"\x7d\n\n"

/-- The JSON text of the event. -/
def contentObject (content : List UInt8) : List UInt8 :=
  appendJSONEscaped (ascii "\x7b\"content\":\"") content ++ ascii "\"\x7d"

theorem sseContentEvent_eq (content : List UInt8) :
    sseContentEvent content = ascii "data" ++ 58 :: 32 :: contentObject content ++ [10, 10] := by
  rw [sseContentEvent, contentObject, appendJSONEscaped_eq, appendJSONEscaped_eq]
  simp [ascii]

/-- The text is on one line, whatever the content is. -/
theorem unbroken_contentObject (content : List UInt8) : Sse.Unbroken id (contentObject content) :=
  unbroken_escaped (forall_mem_ascii (P := (¬ · < 32)) _ rfl)
    (forall_mem_ascii (P := (¬ · < 32)) _ rfl) content

theorem parse_contentObject (content : List UInt8) :
    parse (contentObject content) = some (.object [(ascii "content", .string content)]) := by
  have hname : decode (ascii "content") = some (ascii "content") := decode_plain (by decide)
  have hmember := MemberText.mk hname white_nil white_nil (.string (decode_escaped content))
  have htext := (Text.object white_nil (.one hmember) white_nil).parse
  rw [contentObject, appendJSONEscaped_eq]
  rw [← htext]
  congr 1
  simp [ascii]

/-- The line of the event. -/
def contentLine (content : List UInt8) : List UInt8 :=
  ascii "data" ++ 58 :: 32 :: contentObject content

theorem unbroken_contentLine (content : List UInt8) : Sse.Unbroken id (contentLine content) := by
  intro c hc
  rw [contentLine] at hc
  rcases List.mem_append.mp hc with hc | hc
  · exact forall_mem_ascii (P := fun c => c ≠ 10 ∧ c ≠ 13) _ rfl c hc
  · rcases List.mem_cons.mp hc with rfl | hc
    · decide
    · rcases List.mem_cons.mp hc with rfl | hc
      · decide
      · exact unbroken_contentObject content c hc

/-- **The payload is one event**, and nothing is left of it. -/
theorem events_sseContentEvent (content : List UInt8) :
    Sse.events id (sseContentEvent content) = [⟨[], [contentObject content]⟩] ∧
      (Sse.read id (sseContentEvent content)).Between := by
  have hmark : Sse.dropMark id (sseContentEvent content) = sseContentEvent content := by
    rw [sseContentEvent_eq, Sse.dropMark, if_neg]
    simp [ascii]
  have hread : Sse.read id (sseContentEvent content) =
      (contentLine content ++ [10, 10]).foldl (Sse.Reader.next id) .start := by
    rw [Sse.read, hmark, sseContentEvent_eq, contentLine]
  have hevents := Sse.events_data_iff id .start (ascii "data") 58 32 (List.map_id _) rfl rfl
    (unbroken_contentObject content) List.not_mem_nil 10 10 rfl rfl
  refine ⟨?_, ?_⟩
  · rw [Sse.events, hread]
    exact hevents.mpr ⟨rfl, rfl, rfl⟩
  · rw [hread]
    refine Sse.Reader.between_lines ?_ (unbroken_contentLine content) rfl rfl
    exact List.append_ne_nil_of_right_ne_nil _ (List.cons_ne_nil _ _)

/-- **What is escaped is found again**: by `unescapeJSON`, by `extractContentFast` in a chunk, and
by whoever reads the event. It holds of any bytes, with what is no text replaced as `encoding/json`
does it; the escapes keep the two ends of a line and of a string out of the text. -/
theorem escaped_roundTrip (s : List UInt8) :
    unescapeJSON (appendJSONEscaped [] s) = .ok s ∧
      extractContentFast (chunk (appendJSONEscaped [] s)) = .ok s ∧
      ∃ line object, sseContentEvent s = line ++ [10, 10] ∧ Sse.Unbroken id line ∧
        Sse.events id (sseContentEvent s) = [⟨[], [object]⟩] ∧
        (Sse.read id (sseContentEvent s)).Between ∧
        parse object = some (.object [(ascii "content", .string s)]) := by
  have hescaped : appendJSONEscaped [] s = s.flatMap escapedByte := appendJSONEscaped_eq [] s
  rw [hescaped]
  refine ⟨?_, ?_, ?_⟩
  · rw [unescapeJSON_pieced (pieced_escaped s), replaced_escapedPiece]
  · have hfield := contentField_chunk (s.flatMap escapedByte)
    rw [extractContentFast_field (pieced_escaped s) hfield, replaced_escapedPiece]
  · obtain ⟨hevents, hbetween⟩ := events_sseContentEvent s
    exact ⟨contentLine s, contentObject s, sseContentEvent_eq s, unbroken_contentLine s, hevents,
      hbetween, parse_contentObject s⟩

end SocketHandoff.Go
