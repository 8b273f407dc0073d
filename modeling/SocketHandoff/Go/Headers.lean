import SocketHandoff.Lib.CText
import SocketHandoff.Lib.HttpHead
import SocketHandoff.Lib.Slice
import Mathlib.Data.List.Perm.Basic

/-!
# The head of a streamed response

`buildSSEHeaders` in `streaming_daemon.go`: the constant head, or a copy of it with the headers of
the handoff behind its own. What comes from PHP is kept only if it cannot be taken for anything
else, so the head is read back as it was meant.
-/

namespace SocketHandoff.Go

open Http

/-! ## The constant head -/

/-- `sseHeadersBytes`. -/
def sseHeadersBytes : List UInt8 :=
  ascii ("HTTP/1.1 200 OK\r\n" ++ "Content-Type: text/event-stream\r\n" ++
    "Cache-Control: no-cache\r\n" ++ "Connection: close\r\n" ++ "X-Accel-Buffering: no\r\n" ++
    "\r\n")

/-- `blockedResponseHeaders`. -/
def blockedResponseHeaders : List (List UInt8) :=
  [ascii "content-type", ascii "cache-control", ascii "connection", ascii "x-accel-buffering",
    ascii "transfer-encoding", ascii "content-length", ascii "content-encoding"]

/-! ## What is let through -/

/-- A letter in lower case. -/
def asciiLower (c : UInt8) : UInt8 := if 65 ≤ c ∧ c ≤ 90 then c + 32 else c

/-- `strings.EqualFold`, which is only asked about ASCII texts here. -/
def equalFold (s t : List UInt8) : Bool := s.map asciiLower = t.map asciiLower

/-- `isBlockedHeader`. -/
def isBlockedHeader (name : List UInt8) : Bool := blockedResponseHeaders.any (equalFold name)

/-- The bytes `isValidHeaderName` rejects. -/
def rejectedInName (c : UInt8) : Bool :=
  c ≤ 32 ∨ 0x7f ≤ c ∨ c = 40 ∨ c = 41 ∨ c = 44 ∨ c = 47 ∨ c = 58 ∨ c = 59 ∨ c = 60 ∨ c = 61 ∨
    c = 62 ∨ c = 63 ∨ c = 64 ∨ c = 91 ∨ c = 92 ∨ c = 93 ∨ c = 123 ∨ c = 125 ∨ c = 34

/-- `isValidHeaderName`. -/
def isValidHeaderName (name : List UInt8) : Bool :=
  name ≠ [] && name.all fun c => !rejectedInName c

/-- `isValidHeaderValue`. -/
def isValidHeaderValue (value : List UInt8) : Bool :=
  value.all fun c => !((c < 32 ∧ c ≠ 9) ∨ c = 0x7f)

/-! ## `buildSSEHeaders` -/

/-- Append the line of a header. -/
def appendHeader (spare : Nat) (h : Field) (buf : Slice × Arrays UInt8) : Slice × Arrays UInt8 :=
  let buf := buf.2.append spare buf.1 h.name
  let buf := buf.2.append spare buf.1 [58, 32]
  let buf := buf.2.append spare buf.1 h.value
  buf.2.append spare buf.1 crlf

/-- `buildSSEHeaders`, given the slice `sseHeadersBytes` and the order in which the map is gone
through. -/
def buildSSEHeaders (spare : Nat) (m : Arrays UInt8) (shared : Slice)
    (responseHeaders : List Field) : Slice × Arrays UInt8 :=
  if responseHeaders = [] then (shared, m)
  else
    let valid := responseHeaders.filter fun h =>
      isValidHeaderName h.name && !isBlockedHeader h.name && isValidHeaderValue h.value
    if valid = [] then (shared, m)
    else
      let sseHeadersPrefix := { shared with len := shared.len - 2 }
      let buf := m.make (sseHeadersPrefix.len + 64 * valid.length + 2)
      let buf := buf.2.append spare buf.1 (buf.2.read sseHeadersPrefix)
      let buf := valid.foldl (fun buf h => appendHeader spare h buf) buf
      buf.2.append spare buf.1 crlf

/-! ## What a head should be -/

/-- The characters of an HTTP token. -/
def tokenChar (c : UInt8) : Bool :=
  (48 ≤ c ∧ c ≤ 57) ∨ (65 ≤ c ∧ c ≤ 90) ∨ (97 ≤ c ∧ c ≤ 122) ∨
    c ∈ ([33, 35, 36, 37, 38, 39, 42, 43, 45, 46, 94, 95, 96, 124, 126] : List UInt8)

/-- A header that may be sent: its name is a token that is not blocked, and its value has no control
character but tabs. This is the grammar of the protocol, which the source spells out byte by byte.
-/
structure Sendable (h : Field) : Prop where
  name_ne : h.name ≠ []
  token : ∀ c ∈ h.name, tokenChar c = true
  free : ∀ blocked ∈ blockedResponseHeaders, h.name.map asciiLower ≠ blocked.map asciiLower
  value : ∀ c ∈ h.value, c = 9 ∨ 32 ≤ c ∧ c ≠ 127

/-- The headers of every stream. -/
def sseFields : List Field :=
  [⟨ascii "Content-Type", ascii "text/event-stream"⟩, ⟨ascii "Cache-Control", ascii "no-cache"⟩,
    ⟨ascii "Connection", ascii "close"⟩, ⟨ascii "X-Accel-Buffering", ascii "no"⟩]

/-- The head of a stream with these headers besides. -/
def sseHead (more : List Field) : Head := ⟨ascii "HTTP/1.1 200 OK", sseFields ++ more⟩

/-- The constant is the head without more. -/
theorem sseHeadersBytes_eq : sseHeadersBytes = (sseHead []).bytes := by
  have hstatus : ascii "HTTP/1.1 200 OK\r\n" = ascii "HTTP/1.1 200 OK" ++ crlf := by
    rw [ascii_ofList, ascii_ofList]
    rfl
  have htype : ascii "Content-Type: text/event-stream\r\n" =
      (⟨ascii "Content-Type", ascii "text/event-stream"⟩ : Field).line ++ crlf := by
    rw [Field.line, ascii_ofList, ascii_ofList, ascii_ofList]
    rfl
  have hcache : ascii "Cache-Control: no-cache\r\n" =
      (⟨ascii "Cache-Control", ascii "no-cache"⟩ : Field).line ++ crlf := by
    rw [Field.line, ascii_ofList, ascii_ofList, ascii_ofList]
    rfl
  have hconnection : ascii "Connection: close\r\n" =
      (⟨ascii "Connection", ascii "close"⟩ : Field).line ++ crlf := by
    rw [Field.line, ascii_ofList, ascii_ofList, ascii_ofList]
    rfl
  have hbuffering : ascii "X-Accel-Buffering: no\r\n" =
      (⟨ascii "X-Accel-Buffering", ascii "no"⟩ : Field).line ++ crlf := by
    rw [Field.line, ascii_ofList, ascii_ofList, ascii_ofList]
    rfl
  have hend : ascii "\r\n" = crlf := ascii_ofList _
  rw [sseHeadersBytes, ascii_append, ascii_append, ascii_append, ascii_append, ascii_append,
    hstatus, htype, hcache, hconnection, hbuffering, hend, sseHead, Head.bytes, sseFields]
  simp only [List.append_nil, List.flatMap_cons, List.flatMap_nil, List.append_assoc]

/-! ## The checks -/

theorem tokenChar_iff (c : UInt8) : tokenChar c = !rejectedInName c := by
  revert c
  apply forall_byte
  simp only [tokenChar, List.mem_cons, List.not_mem_nil, or_false]
  decide +kernel

theorem valueChar_iff (c : UInt8) :
    (c = 9 ∨ 32 ≤ c ∧ c ≠ 127) ↔ ¬ ((c < 32 ∧ c ≠ 9) ∨ c = 0x7f) := by
  revert c
  exact forall_byte (by decide +kernel)

theorem isValidHeaderName_iff (name : List UInt8) :
    isValidHeaderName name = true ↔ name ≠ [] ∧ ∀ c ∈ name, tokenChar c = true := by
  simp only [isValidHeaderName, Bool.and_eq_true, decide_eq_true_eq, List.all_eq_true, tokenChar_iff]

theorem isBlockedHeader_iff (name : List UInt8) : isBlockedHeader name = false ↔
    ∀ blocked ∈ blockedResponseHeaders, name.map asciiLower ≠ blocked.map asciiLower := by
  simp only [isBlockedHeader, equalFold, List.any_eq_false, decide_eq_true_eq, ne_eq]

theorem isValidHeaderValue_iff (value : List UInt8) :
    isValidHeaderValue value = true ↔ ∀ c ∈ value, c = 9 ∨ 32 ≤ c ∧ c ≠ 127 := by
  simp only [isValidHeaderValue, List.all_eq_true, valueChar_iff, Bool.not_eq_true',
    decide_eq_false_iff_not]

/-- **The checks let through what may be sent.** -/
theorem sendable_iff (h : Field) :
    (isValidHeaderName h.name && !isBlockedHeader h.name && isValidHeaderValue h.value) = true ↔
      Sendable h := by
  rw [Bool.and_eq_true, Bool.and_eq_true, isValidHeaderName_iff, isValidHeaderValue_iff,
    Bool.not_eq_true', isBlockedHeader_iff]
  constructor
  · rintro ⟨⟨⟨hne, htoken⟩, hfree⟩, hvalue⟩
    exact ⟨hne, htoken, hfree, hvalue⟩
  · rintro ⟨hne, htoken, hfree, hvalue⟩
    exact ⟨⟨⟨hne, htoken⟩, hfree⟩, hvalue⟩

instance (h : Field) : Decidable (Sendable h) := decidable_of_iff _ (sendable_iff h)

/-! ## What is built -/

variable {n : Nat}

/-- Appending the lines of headers. -/
theorem foldl_appendHeader (spare : Nat) (hs : List Field) {buf : Slice × Arrays UInt8}
    (h : buf.2.Owned n buf.1) :
    let out := hs.foldl (fun buf h => appendHeader spare h buf) buf
    out.2.Owned n out.1 ∧ Arrays.Same n buf.2 out.2 ∧
      out.2.read out.1 = buf.2.read buf.1 ++ hs.flatMap (fun f => f.line ++ crlf) := by
  induction hs generalizing buf with
  | nil => exact ⟨h, .refl n _, (List.append_nil _).symm⟩
  | cons f hs ih =>
    obtain ⟨h₁, hsame₁, hread₁⟩ := h.append spare f.name
    obtain ⟨h₂, hsame₂, hread₂⟩ := h₁.append spare [58, 32]
    obtain ⟨h₃, hsame₃, hread₃⟩ := h₂.append spare f.value
    obtain ⟨h₄, hsame₄, hread₄⟩ := h₃.append spare crlf
    obtain ⟨hown, hsame, hread⟩ := ih h₄
    refine ⟨hown, hsame₁.trans (hsame₂.trans (hsame₃.trans (hsame₄.trans hsame))), ?_⟩
    refine hread.trans ?_
    rw [hread₄, hread₃, hread₂, hread₁, List.flatMap_cons, Field.line]
    simp only [List.append_assoc]

/-- The constant without its last line, as a text. -/
def sseHeadersText : List UInt8 :=
  ascii "HTTP/1.1 200 OK" ++ crlf ++ sseFields.flatMap fun f => f.line ++ crlf

theorem bytes_sseHead (more : List Field) : (sseHead more).bytes =
    sseHeadersText ++ more.flatMap (fun f => f.line ++ crlf) ++ crlf := by
  simp only [Head.bytes, sseHead, sseHeadersText, List.flatMap_append, List.append_assoc]

theorem sseHeadersBytes_split : sseHeadersBytes = sseHeadersText ++ crlf := by
  rw [sseHeadersBytes_eq, bytes_sseHead, List.flatMap_nil, List.append_nil]

/-- **What `buildSSEHeaders` builds**, on arrays that nobody else has. The slice for the fixed
headers is shared by all the connections: it is appended to only through a copy, so that it shows
the same bytes afterwards. -/
theorem read_buildSSEHeaders (spare : Nat) {m : Arrays UInt8} {shared : Slice} (hm : m.Valid shared)
    (hshared : m.read shared = sseHeadersBytes) (responseHeaders : List Field) :
    let buf := buildSSEHeaders spare m shared responseHeaders
    Arrays.Same m.next m buf.2 ∧
      buf.2.read buf.1 = (sseHead (responseHeaders.filter (Sendable ·))).bytes := by
  have hfilter : responseHeaders.filter (Sendable ·) = responseHeaders.filter fun h =>
      isValidHeaderName h.name && !isBlockedHeader h.name && isValidHeaderValue h.value :=
    List.filter_congr fun h _ => Bool.eq_iff_iff.mpr (decide_eq_true_iff.trans (sendable_iff h).symm)
  have hconstant : responseHeaders.filter (Sendable ·) = [] →
      m.read shared = (sseHead (responseHeaders.filter (Sendable ·))).bytes := by
    intro hnil
    rw [hnil, hshared, sseHeadersBytes_eq]
  by_cases hempty : responseHeaders = []
  · rw [buildSSEHeaders, if_pos hempty]
    exact ⟨.refl _ _, hconstant (by rw [hempty]; rfl)⟩
  · by_cases hvalid : responseHeaders.filter (Sendable ·) = []
    · rw [buildSSEHeaders, if_neg hempty, if_pos (hfilter ▸ hvalid)]
      exact ⟨.refl _ _, hconstant hvalid⟩
    · -- a buffer of its own is filled, and the constant is only read
      have hstart : m.read { shared with len := shared.len - 2 } = sseHeadersText := by
        have hlen := hm.length_read
        have hcrlf : crlf.length = 2 := rfl
        rw [hshared, sseHeadersBytes_split, List.length_append, hcrlf] at hlen
        have htake : m.read { shared with len := shared.len - 2 } =
            (m.read shared).take (shared.len - 2) := by
          rw [Arrays.read, Arrays.read, List.take_take, Nat.min_eq_left (Nat.sub_le _ _)]
        rw [htake, hshared, sseHeadersBytes_split, ← hlen, Nat.add_sub_cancel, List.take_left]
      let valid := responseHeaders.filter (Sendable ·)
      let start := m.make (shared.len - 2 + 64 * valid.length + 2)
      obtain ⟨h₁, hsame₁, hread₁⟩ : start.2.Owned m.next start.1 ∧ Arrays.Same m.next m start.2 ∧
        start.2.read start.1 = [] := Arrays.owned_make (Nat.le_refl m.next) _
      have hstart₁ : start.2.read { shared with len := shared.len - 2 } = sseHeadersText :=
        (hsame₁.read (s := { shared with len := shared.len - 2 }) hm.inUse).trans hstart
      obtain ⟨h₂, hsame₂, hread₂⟩ := h₁.append spare sseHeadersText
      obtain ⟨h₃, hsame₃, hread₃⟩ := foldl_appendHeader spare valid h₂
      obtain ⟨h₄, hsame₄, hread₄⟩ := h₃.append spare crlf
      have hbuild : buildSSEHeaders spare m shared responseHeaders =
          (let buf := valid.foldl (fun buf h => appendHeader spare h buf)
            (start.2.append spare start.1 sseHeadersText)
          buf.2.append spare buf.1 crlf) := by
        rw [← hstart₁, buildSSEHeaders, if_neg hempty, if_neg (hfilter ▸ hvalid), ← hfilter]
      rw [hbuild]
      refine ⟨hsame₁.trans (hsame₂.trans (hsame₃.trans hsame₄)), ?_⟩
      refine hread₄.trans ?_
      rw [hread₃, hread₂, hread₁, bytes_sseHead, List.nil_append]

/-- What may be sent is one line. -/
theorem Sendable.clean {h : Field} (hs : Sendable h) : h.Clean := by
  have hname : ∀ c, tokenChar c = true → c ≠ 13 ∧ c ≠ 10 ∧ c ≠ 58 := by
    intro c hc
    rw [tokenChar_iff, rejectedInName] at hc
    refine ⟨?_, ?_, ?_⟩ <;> rintro rfl <;> simp at hc
  have hvalue : ∀ c : UInt8, (c = 9 ∨ 32 ≤ c ∧ c ≠ 127) → c ≠ 13 ∧ c ≠ 10 := by
    intro c hc
    refine ⟨?_, ?_⟩ <;> rintro rfl <;> simp at hc
  refine ⟨fun c hc => ?_, fun c hc => hvalue c (hs.value c hc), fun hc => ?_⟩
  · obtain ⟨h13, h10, -⟩ := hname c (hs.token c hc)
    exact ⟨h13, h10⟩
  · exact (hname 58 (hs.token 58 hc)).2.2 rfl

theorem clean_sseFields : ∀ f ∈ sseFields, f.Clean := by
  intro f hf
  simp only [sseFields, List.mem_cons, List.not_mem_nil, or_false] at hf
  rcases hf with rfl | rfl | rfl | rfl <;>
    exact ⟨by simp [OneLine, ascii], by simp [OneLine, ascii], by simp [ascii]⟩

theorem clean_sseHead {more : List Field} (h : ∀ f ∈ more, Sendable f) : (sseHead more).Clean := by
  refine ⟨by simp [sseHead, OneLine, ascii], by simp [sseHead, ascii], fun f hf => ?_⟩
  rcases List.mem_append.mp hf with hf | hf
  · exact clean_sseFields f hf
  · exact (h f hf).clean

theorem not_equalFold_of_sendable {g f : Field} (hg : Sendable g) (hf : f ∈ sseFields) :
    equalFold g.name f.name = false := by
  -- the names of the constant are blocked
  have hblocked : ∃ blocked ∈ blockedResponseHeaders,
      f.name.map asciiLower = blocked.map asciiLower := by
    simp only [sseFields, List.mem_cons, List.not_mem_nil, or_false] at hf
    rcases hf with rfl | rfl | rfl | rfl
    · refine ⟨ascii "content-type", by simp [blockedResponseHeaders], ?_⟩
      rw [ascii_ofList, ascii_ofList]
      decide
    · refine ⟨ascii "cache-control", by simp [blockedResponseHeaders], ?_⟩
      rw [ascii_ofList, ascii_ofList]
      decide
    · refine ⟨ascii "connection", by simp [blockedResponseHeaders], ?_⟩
      rw [ascii_ofList, ascii_ofList]
      decide
    · refine ⟨ascii "x-accel-buffering", by simp [blockedResponseHeaders], ?_⟩
      rw [ascii_ofList, ascii_ofList]
      decide
  obtain ⟨blocked, hmem, heq⟩ := hblocked
  rw [equalFold, decide_eq_false_iff_not, heq]
  exact hg.free blocked hmem

/-- Each header of the constant is there once, whatever case its name is written in. -/
theorem filter_equalFold {more : List Field} (h : ∀ g ∈ more, Sendable g) {f : Field}
    (hf : f ∈ sseFields) : (sseFields ++ more).filter (fun g => equalFold g.name f.name) = [f] := by
  have hmore : more.filter (fun g => equalFold g.name f.name) = [] := by
    refine List.filter_eq_nil_iff.mpr fun g hg => ?_
    rw [not_equalFold_of_sendable (h g hg) hf]
    exact Bool.false_ne_true
  rw [List.filter_append, hmore, List.append_nil]
  simp only [sseFields, List.mem_cons, List.not_mem_nil, or_false] at hf
  rcases hf with rfl | rfl | rfl | rfl <;> simp [sseFields, equalFold, ascii, asciiLower]

/-- No line of a header can be taken for a status line. -/
theorem not_status_of_sendable {f : Field} (h : Sendable f) : ¬ ascii "HTTP/" <+: f.line := by
  intro hp
  have hname := prefix_name h.clean (by simp [ascii]) hp
  have hslash := h.token 47 (hname.subset (by simp [ascii]))
  simp [tokenChar] at hslash

theorem not_status_of_constant {f : Field} (h : f ∈ sseFields) : ¬ ascii "HTTP/" <+: f.line := by
  simp only [sseFields, List.mem_cons, List.not_mem_nil, or_false] at h
  rcases h with rfl | rfl | rfl | rfl <;> simp [Field.line, ascii]

/-- **Headers from PHP cannot break the head.** What is built reads as one head, whatever follows
it: the status, the headers of every stream once and unchanged, and those of the handoff that may
be sent, in order. The constant is not written to. -/
theorem readHead_buildSSEHeaders (spare : Nat) {m : Arrays UInt8} {shared : Slice}
    (hm : m.Valid shared) (hshared : m.read shared = sseHeadersBytes)
    (responseHeaders : List Field) :
    let buf := buildSSEHeaders spare m shared responseHeaders
    let fields := sseFields ++ responseHeaders.filter (Sendable ·)
    (∀ body, readHead (buf.2.read buf.1 ++ body) = some (⟨ascii "HTTP/1.1 200 OK", fields⟩, body)) ∧
      (∀ f ∈ sseFields, fields.filter (fun g => equalFold g.name f.name) = [f]) ∧
      (∀ f ∈ fields, ¬ ascii "HTTP/" <+: f.line) ∧
      ∀ a < m.next, buf.2.content a = m.content a := by
  have hsendable : ∀ g ∈ responseHeaders.filter (Sendable ·), Sendable g :=
    fun g hg => of_decide_eq_true (List.mem_filter.mp hg).2
  obtain ⟨hsame, hread⟩ := read_buildSSEHeaders spare hm hshared responseHeaders
  refine ⟨fun body => ?_, fun f hf => filter_equalFold hsendable hf, fun f hf => ?_, hsame⟩
  · rw [hread]
    exact readHead_bytes (clean_sseHead hsendable) body
  · rcases List.mem_append.mp hf with hf | hf
    · exact not_status_of_constant hf
    · exact not_status_of_sendable (hsendable f hf)

/-- One header of the handoff is added, and one that would end the head is left out. -/
theorem readHead_buildSSEHeaders_one : ∃ (m : Arrays UInt8) (shared : Slice),
    m.read shared = sseHeadersBytes ∧
      let headers : List Field := [⟨[88], [49]⟩, ⟨[89], [13, 10, 13, 10]⟩]
      let buf := buildSSEHeaders 0 m shared headers
      ∀ body, readHead (buf.2.read buf.1 ++ body) =
        some (⟨ascii "HTTP/1.1 200 OK", sseFields ++ headers.filter (Sendable ·)⟩, body) := by
  obtain ⟨hvalid, hread⟩ := Arrays.valid_whole sseHeadersBytes
  obtain ⟨hhead, -⟩ :=
    readHead_buildSSEHeaders 0 hvalid hread [⟨[88], [49]⟩, ⟨[89], [13, 10, 13, 10]⟩]
  exact ⟨_, _, hread, hhead⟩

end SocketHandoff.Go
