import SocketHandoff.Lib.Act
import SocketHandoff.Lib.CText
import SocketHandoff.Lib.JsonString

/-!
# The SSE writer of the Rust daemon

`streaming/sse.rs`, which spells the events and the error responses, and `streaming/writer.rs`,
which puts them on the wire. A write is all taken by the connection, or it fails or times out
after a part of it.
-/

namespace SocketHandoff.Rust

open Json

/-! ## Events -/

/-- `HEX_DIGITS[n]` of `serde_json`. -/
def hexDigit (n : UInt8) : UInt8 := if n < 10 then 48 + n else 87 + n

/-- A byte of a string as `serde_json` writes it. -/
def serdeByte (c : UInt8) : List UInt8 :=
  if c = 34 ∨ c = 92 then [92, c]
  else if c = 8 then [92, 98]
  else if c = 9 then [92, 116]
  else if c = 10 then [92, 110]
  else if c = 12 then [92, 102]
  else if c = 13 then [92, 114]
  else if c < 32 then [92, 117, 48, 48, hexDigit (c >>> 4), hexDigit (c &&& 15)]
  else [c]

/-- `format!("data: {}\n\n", json!({ key: text }))`. -/
def formatEvent (key text : List UInt8) : List UInt8 :=
  ascii "data: \x7b\"" ++ key ++ ascii "\":\"" ++ text.flatMap serdeByte ++ ascii "\"\x7d\n\n"

/-- `format_sse_chunk`. -/
def formatSseChunk (content : List UInt8) : List UInt8 := formatEvent (ascii "content") content

/-- `format_sse_done`. -/
def formatSseDone : List UInt8 := ascii "data: [DONE]\n\n"

/-- `format_sse_error`. -/
def formatSseError (error : List UInt8) : List UInt8 := formatEvent (ascii "error") error

/-- `SSE_HEADERS`. -/
def sseHeaders : List UInt8 :=
  ascii "HTTP/1.1 200 OK\r\nContent-Type: text/event-stream\r\nCache-Control: no-cache\r\n" ++
    ascii "Connection: close\r\nX-Accel-Buffering: no\r\n\r\n"

/-- The status text of `format_error_response`. -/
def statusText (status : Nat) : List UInt8 :=
  if status = 502 then ascii "Bad Gateway"
  else if status = 503 then ascii "Service Unavailable"
  else if status = 504 then ascii "Gateway Timeout"
  else ascii "Internal Server Error"

/-- The status line of `format_error_response`. -/
def statusLine (status : Nat) : List UInt8 :=
  ascii "HTTP/1.1 " ++ ascii (toString status) ++ ascii " " ++ statusText status ++ ascii "\r\n"

/-- `format_error_response`. -/
def formatErrorResponse (status : Nat) (reason : List UInt8) : List UInt8 :=
  -- no line of the reason can become a header
  let safeReason := reason.filter fun c => c ≠ 13 ∧ c ≠ 10
  let body := statusText status ++ ascii ": " ++ safeReason ++ ascii "\n"
  statusLine status ++ ascii "Content-Type: text/plain\r\nContent-Length: " ++
    ascii (toString body.length) ++ ascii "\r\nConnection: close\r\n\r\n" ++ body

/-- The two digits of a control character are read as the character. -/
theorem hexUnit_hexDigit : ∀ c : UInt8, c < 128 →
    hexUnit 48 48 (hexDigit (c >>> 4)) (hexDigit (c &&& 15)) = some c.toNat ∧
      encode c.toNat = [c] := forall_byte (by decide +kernel)

theorem spells_serdeByte (c : UInt8) : Spells (serdeByte c) [c] := by
  rw [serdeByte]
  split
  · rename_i h
    rcases h with rfl | rfl <;> exact spells_escaped rfl
  split
  · rename_i h; subst h; exact spells_escaped rfl
  split
  · rename_i h; subst h; exact spells_escaped rfl
  split
  · rename_i h; subst h; exact spells_escaped rfl
  split
  · rename_i h; subst h; exact spells_escaped rfl
  split
  · rename_i h; subst h; exact spells_escaped rfl
  split
  · rename_i h
    obtain ⟨hunit, henc⟩ := hexUnit_hexDigit c (UInt8.lt_trans h (by decide))
    have hs := spells_unit hunit (Nat.lt_trans c.toNat_lt (by decide))
    rwa [henc] at hs
  · rename_i h _ _ _ _ _ hc
    exact spells_byte ⟨fun e => h (.inl e), fun e => h (.inr e), hc⟩

/-- **An event carries its text**: what stands between the quotes decodes to it. -/
theorem decode_serde (text : List UInt8) : decode (text.flatMap serdeByte) = some text :=
  (spells_flatMap spells_serdeByte text).decode

/-! ## The connection -/

/-- How far a write gets. -/
inductive Write
  /-- `write_all` has returned in time -/
  | all
  /-- it fails or times out when the connection has taken so many bytes -/
  | cut (taken : Nat)
  deriving DecidableEq, Repr

/-- The connection of a client and the `SseWriter` around it. -/
structure Wire where
  /-- the bytes put on the wire -/
  bytes : List UInt8
  /-- what was passed to `write_with_timeout`, with whether it succeeded -/
  writes : List (List UInt8 × Bool)
  /-- `bytes_written` -/
  bytesWritten : Nat
  deriving DecidableEq, Repr

/-- `SseWriter::new`. -/
def Wire.new : Wire := ⟨[], [], 0⟩

/-- A write. -/
def Wire.write (w : Wire) (data : List UInt8) : Write → Bool × Wire
  | .all => (true, ⟨w.bytes ++ data, w.writes ++ [(data, true)], w.bytesWritten + data.length⟩)
  | .cut taken =>
    (false, ⟨w.bytes ++ data.take taken, w.writes ++ [(data, false)], w.bytesWritten⟩)

/-- **A connection in order.** All writes but perhaps the last one have succeeded, the bytes on the
wire are those of the writes, with a part of a last one that failed, and `bytes_written` counts the
ones that succeeded. `sent` is what has been passed to the writer, from which what is missing at the
end can be told. -/
structure Wire.Sent (w : Wire) (sent : List UInt8) : Prop where
  bytes : w.bytes = sent
  succeeded : ∀ e ∈ w.writes, e.2 = true
  passed : sent = w.writes.flatMap Prod.fst
  counted : w.bytesWritten = sent.length

/-- A connection on which the last write has failed. -/
structure Wire.Cut (w : Wire) (sent : List UInt8) : Prop where
  bytes : w.bytes <+: sent
  failed : ∃ before data, w.writes = before ++ [(data, false)] ∧
    (∀ e ∈ before, e.2 = true) ∧ sent = before.flatMap Prod.fst ++ data ∧
      w.bytesWritten = (before.flatMap Prod.fst).length

theorem Wire.sent_new : Wire.Sent .new [] := ⟨rfl, by simp [Wire.new], rfl, rfl⟩

variable {w : Wire} {sent data : List UInt8}

/-- **What a write does** to a connection on which none has failed. -/
theorem Wire.Sent.write (h : w.Sent sent) (answer : Write) :
    if (w.write data answer).1 then (w.write data answer).2.Sent (sent ++ data)
    else (w.write data answer).2.Cut (sent ++ data) := by
  cases answer with
  | all =>
    refine ⟨congrArg (· ++ data) h.bytes, fun e he => ?_, ?_, ?_⟩
    · rcases List.mem_append.mp he with he | he
      · exact h.succeeded e he
      · exact List.mem_singleton.mp he ▸ rfl
    · simp [Wire.write, ← h.passed]
    · simp [Wire.write, h.counted]
  | cut taken =>
    refine ⟨?_, w.writes, data, rfl, h.succeeded, ?_, ?_⟩
    · change w.bytes ++ data.take taken <+: sent ++ data
      rw [h.bytes]
      exact (List.prefix_append_right_inj sent).mpr (List.take_prefix _ _)
    · rw [← h.passed]
    · change w.bytesWritten = _
      rw [h.counted, ← h.passed]

end SocketHandoff.Rust
