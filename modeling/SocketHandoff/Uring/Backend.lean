import SocketHandoff.Uring.Response
import SocketHandoff.Lib.Act

/-!
# The worker threads

`backend_openai.c`: in the thread pool mode a worker performs the whole request itself. It writes
what it receives straight to the client's socket, and libcurl calls its own `write_callback`.
-/

namespace SocketHandoff.Uring.Backend

/-! ## The environment -/

/-- What a call of `write` returns. -/
inductive WriteResult
  | wrote (n : Nat)
  /-- -1 with `EINTR` -/
  | interrupted
  /-- -1 with another error -/
  | failed
  deriving DecidableEq, Repr

/-- The answers a worker gets. The results of `write` are given for each call of `write_all`, and
a call of `write` behind the last of them fails. -/
structure WorkerEnv where
  curlEasyInit : Bool
  /-- for the line buffer -/
  malloc : Bool
  /-- by the capacity asked for -/
  realloc : Nat → Bool
  writeHeaders : List WriteResult
  /-- by `chunk_count` -/
  writeFrame : Nat → List WriteResult
  writeDone : List WriteResult

/-- What the API makes of a request. -/
structure Upstream where
  /-- the HTTP status; 0 when there is no response -/
  status : Nat
  /-- the body as libcurl hands it over -/
  chunks : List (List UInt8)
  /-- the `CURLcode` of the transfer, if no callback ends it before -/
  result : Nat
  deriving DecidableEq, Repr

/-- `response_ctx_t`. -/
structure ResponseCtx where
  /-- `line_buf` up to `line_len` -/
  lineBuf : List UInt8
  lineCapacity : Nat
  chunkCount : Nat
  bytesSent : Nat
  error : Bool
  headersSent : Bool
  deriving DecidableEq, Repr

/-- The context before the transfer. -/
def ResponseCtx.initial : ResponseCtx where
  lineBuf := []
  lineCapacity := 4096
  chunkCount := 0
  bytesSent := 0
  error := false
  headersSent := false

/-- A worker at its request. -/
structure Worker where
  conn : Connection
  ctx : ResponseCtx
  /-- the body it has posted -/
  posted : Option (List UInt8)
  /-- what the client's socket has taken -/
  sent : List UInt8

/-- Code of a worker. -/
abbrev Work := Act WorkerEnv Worker

/-- Change the context. -/
def updateCtx (f : ResponseCtx → ResponseCtx) : Work Unit :=
  Act.modify fun w => { w with ctx := f w.ctx }

/-! ## Writing to the client -/

/-- `write_all`, given what its calls of `write` return: what is written, and whether it is all. -/
def writeAll : List WriteResult → List UInt8 → List UInt8 × Bool
  | _, [] => ([], true)
  | [], _ => ([], false)
  | .failed :: _, _ => ([], false)
  | .interrupted :: rest, buf => writeAll rest buf
  | .wrote n :: rest, buf =>
    (buf.take n ++ (writeAll rest (buf.drop n)).1, (writeAll rest (buf.drop n)).2)

/-- `write_all` to the client. -/
def writeClient (results : WorkerEnv → List WriteResult) (buf : List UInt8) : Work Bool :=
  Act.ask fun ω _ w =>
    ((writeAll (results ω) buf).2, { w with sent := w.sent ++ (writeAll (results ω) buf).1 })

/-- `send_headers`: once for a response. If they cannot be written, the response is marked as failed
and nothing else is sent. -/
def sendHeaders : Work Bool := do
  if (← Act.get).ctx.headersSent then return true
  else if ← writeClient (·.writeHeaders) sseHeaders then
    updateCtx fun c =>
      { c with
        bytesSent := c.bytesSent + sseHeaders.length
        headersSent := true }
    return true
  else
    updateCtx fun c => { c with error := true }
    return false

/-- `forward_chunk`: one frame, written before the worker goes on. A content that has no room in the
buffer of the frame makes the call fail, and is not marked as an error of the client's. -/
def forwardChunk (content : List UInt8) : Work Bool := do
  match streamFormatSse 8192 content with
  | none => return false
  | some frame =>
    let k := (← Act.get).ctx.chunkCount
    if ← writeClient (·.writeFrame k) frame then
      updateCtx fun c =>
        { c with
          bytesSent := c.bytesSent + frame.length
          chunkCount := c.chunkCount + 1 }
      return true
    else
      updateCtx fun c => { c with error := true }
      return false

/-- `process_sse_line`. -/
def processSseLine (line : List UInt8) : Work Bool :=
  if sseContent line = [] then return true else forwardChunk (sseContent line)

/-- Process lines until one fails. -/
def processSseLines : List (List UInt8) → Work Bool
  | [] => return true
  | line :: rest => do
    if ← processSseLine line then processSseLines rest else return false

/-! ## The transfer -/

/-- The capacity asked of `realloc` for a line buffer with `len` bytes that gets `bytes` more. -/
def newCapacity (capacity len bytes : Nat) : Nat := max (capacity * 2) (len + bytes + 1)

/-- The part of `write_callback` that expands the line buffer: at least to twice its size, and to
what the new bytes and a NUL take. The transfer fails when `realloc` does. -/
def expandLineBuf (bytes : Nat) : Work Bool := do
  let c := (← Act.get).ctx
  if c.lineCapacity < c.lineBuf.length + bytes + 1 then
    let newCap := newCapacity c.lineCapacity c.lineBuf.length bytes
    if ← Act.ask fun ω _ w => (ω.realloc newCap, w) then
      updateCtx fun c => { c with lineCapacity := newCap }
      return true
    else
      updateCtx fun c => { c with error := true }
      return false
  else return true

/-- The part of `write_callback` that takes the data apart. -/
def receiveChunk (chunk : List UInt8) : Work Nat := do
  updateCtx fun c => { c with lineBuf := c.lineBuf ++ chunk }
  let (lines, left) := splitLines [] (← Act.get).ctx.lineBuf
  if ← processSseLines lines then
    updateCtx fun c => { c with lineBuf := left }
    return chunk.length
  else return 0

/-- `write_callback`. -/
def writeCallback (chunk : List UInt8) : Work Nat := do
  if (← Act.get).ctx.error then return 0
  else if ← sendHeaders then
    if ← expandLineBuf chunk.length then receiveChunk chunk else return 0
  else return 0

/-- `CURLE_WRITE_ERROR`. -/
def curleWriteError : Nat := 23

/-- `curl_easy_perform`: libcurl hands the chunks over one by one, and a callback that takes less
than it was given ends the transfer. -/
def curlEasyPerform (result : Nat) : List (List UInt8) → Work Nat
  | [] => return result
  | chunk :: rest => do
    if (← writeCallback chunk) = chunk.length then curlEasyPerform result rest
    else return curleWriteError

/-! ## `backend_process` -/

/-- The body of a request. -/
def requestText (model escaped : List UInt8) (maxTokens : Int) : List UInt8 :=
  ascii "\x7b\"model\":\"" ++ model ++
    ascii "\",\"messages\":[\x7b\"role\":\"user\",\"content\":\"" ++ escaped ++
    ascii "\"\x7d],\"max_tokens\":" ++ ascii (toString maxTokens) ++
    ascii ",\"stream\":true\x7d"

/-- The body `backend_process` posts, cut to its buffers; `none` when it has no room. -/
def requestBody (defaultModel : List UInt8) (data : HandoffData) : Option (List UInt8) :=
  let prompt := snprintf 8192 (data.prompt.getD (ascii "Hello"))
  let model := snprintf 128 (data.model.getD defaultModel)
  let maxTokens := if 0 < data.maxTokens then data.maxTokens else 1024
  let body := requestText model (escapeContent prompt 8191) maxTokens
  if 16384 ≤ body.length then none else some body

theorem length_requestText (model escaped : List UInt8) (maxTokens : Int) :
    (requestText model escaped maxTokens).length =
      82 + model.length + escaped.length + (ascii (toString maxTokens)).length := by
  simp only [requestText, List.length_append, ascii, List.length_map, String.length_toList]
  have h₁ : ("\x7b\"model\":\"").length = 10 := String.length_ofList
  have h₂ : ("\",\"messages\":[\x7b\"role\":\"user\",\"content\":\"").length = 40 :=
    String.length_ofList
  have h₃ : ("\"\x7d],\"max_tokens\":").length = 17 := String.length_ofList
  have h₄ : (",\"stream\":true\x7d").length = 15 := String.length_ofList
  omega

/-- A positive `int` has at most ten digits. -/
theorem length_decimal_le {n : Int} (h0 : 0 < n) (h : n < 2147483648) :
    (ascii (toString n)).length ≤ 10 := by
  rw [ascii, List.length_map, Int.toString_eq_repr, Int.repr_eq_if, if_pos (by omega),
    Nat.toList_repr, Nat.length_toDigits_le_iff (by decide) (by decide)]
  omega

/-- The number of tokens asked for, with its default, is a positive `int`. -/
theorem maxTokens_bounds {n : Int} (h : n < 2147483648) :
    0 < (if 0 < n then n else 1024) ∧ (if 0 < n then n else 1024) < 2147483648 := by
  split <;> omega

/-- The buffer for the body is large enough. -/
theorem requestBody_eq (defaultModel : List UInt8) {data : HandoffData}
    (h : data.maxTokens < 2147483648) :
    requestBody defaultModel data = some (requestText (snprintf 128 (data.model.getD defaultModel))
      (escapeContent (snprintf 8192 (data.prompt.getD (ascii "Hello"))) 8191)
      (if 0 < data.maxTokens then data.maxTokens else 1024)) := by
  obtain ⟨hpos, hlt⟩ := maxTokens_bounds h
  have hdigits := length_decimal_le hpos hlt
  have hescaped := length_escapeContent_le
    (snprintf 8192 (data.prompt.getD (ascii "Hello"))) 8191
  have hmodel : (snprintf 128 (data.model.getD defaultModel)).length ≤ 127 := by
    rw [snprintf, List.length_take]
    exact Nat.min_le_left _ _
  rw [requestBody, if_neg]
  rw [length_requestText]
  omega

/-- The end of `backend_process`, with the `CURLcode` of the transfer. Once the headers are sent the
worker ends the response with the marker, whatever the code and the status are, and answers 1. -/
def finish (status res : Nat) : Work Int := do
  let c := (← Act.get).ctx
  if (res ≠ 0 ∨ c.error) ∧ ¬ c.headersSent then return -1
  else if status ≠ 200 ∧ ¬ c.headersSent then return -1
  else
    if c.headersSent then
      let _ ← writeClient (·.writeDone) sseDone
      updateCtx fun c => { c with bytesSent := c.bytesSent + sseDone.length }
    Act.modify fun w =>
      { w with
        conn :=
          { w.conn with
            bytesSent := w.ctx.bytesSent
            useLlmResponse := false } }
    return if c.headersSent then 1 else -1

/-- `backend_process` up to the end of the transfer: the `CURLcode`, or `none` when there is none. -/
def transfer (apiKey : Bool) (defaultModel : List UInt8) (up : Upstream) : Work (Option Nat) := do
  if ¬ apiKey then return none
  else if ← Act.ask fun ω _ w => (ω.curlEasyInit, w) then
    match requestBody defaultModel (← Act.get).conn.data with
    | none => return none
    | some body =>
      if ← Act.ask fun ω _ w => (ω.malloc, w) then
        Act.modify fun w => { w with ctx := .initial, posted := some body }
        return some (← curlEasyPerform up.result up.chunks)
      else return none
  else return none

/-- `backend_process`. -/
def backendProcess (apiKey : Bool) (defaultModel : List UInt8) (up : Upstream) : Work Int := do
  match ← transfer apiKey defaultModel up with
  | none => return -1
  | some res => finish up.status res

/-! ## What a worker sends -/

theorem writeAll_prefix (rs : List WriteResult) (buf : List UInt8) : (writeAll rs buf).1 <+: buf := by
  fun_induction writeAll rs buf with
  | case1 => exact List.prefix_rfl
  | case2 => exact List.nil_prefix
  | case3 => exact List.nil_prefix
  | case4 rest buf hbuf ih => exact ih
  | case5 n rest buf hbuf ih =>
    have h := (List.prefix_append_right_inj (buf.take n)).mpr ih
    rwa [List.take_append_drop] at h

/-- `write_all` succeeds exactly when everything is written. -/
theorem writeAll_eq_iff (rs : List WriteResult) (buf : List UInt8) :
    (writeAll rs buf).2 = true ↔ (writeAll rs buf).1 = buf := by
  fun_induction writeAll rs buf with
  | case1 => exact ⟨fun _ => rfl, fun _ => rfl⟩
  | case2 buf hbuf => exact ⟨by simp, fun h => absurd h.symm hbuf⟩
  | case3 rest buf hbuf => exact ⟨by simp, fun h => absurd h.symm hbuf⟩
  | case4 rest buf hbuf ih => exact ih
  | case5 n rest buf hbuf ih =>
    rw [ih]
    constructor
    · intro h
      rw [h, List.take_append_drop]
    · intro h
      refine @List.append_cancel_left _ (buf.take n) _ _ (h.trans ?_)
      rw [List.take_append_drop]

/-- A write of everything is all it takes. -/
theorem writeAll_at_once (n : Nat) (rest : List WriteResult) {buf : List UInt8}
    (h : buf.length ≤ n) : (writeAll (.wrote n :: rest) buf).2 = true := by
  cases buf with
  | nil => rfl
  | cons c buf =>
    rw [writeAll_eq_iff]
    simp only [writeAll, List.take_of_length_le h, List.drop_of_length_le h, List.append_nil]

/-- The frames that lines turn into. -/
def contentFrames (lines : List (List UInt8)) : List (List UInt8) :=
  (lines.map sseFrame).filter (· ≠ [])

theorem contentFrames_cons (line : List UInt8) (rest : List (List UInt8)) :
    contentFrames (line :: rest) =
      if sseFrame line = [] then contentFrames rest else sseFrame line :: contentFrames rest := by
  simp only [contentFrames, List.map_cons, List.filter_cons, decide_not, Bool.not_eq_true',
    decide_eq_false_iff_not]
  split_ifs <;> rfl

theorem contentFrames_append (lines more : List (List UInt8)) :
    contentFrames (lines ++ more) = contentFrames lines ++ contentFrames more := by
  rw [contentFrames, List.map_append, List.filter_append]
  rfl

/-- The client takes all these frames, the first of them being number `k`. -/
def Written (ω : WorkerEnv) : (k : Nat) → List (List UInt8) → Bool
  | _, [] => true
  | k, frame :: rest => (writeAll (ω.writeFrame k) frame).2 && Written ω (k + 1) rest

theorem written_append (ω : WorkerEnv) (k : Nat) (frames more : List (List UInt8)) :
    Written ω k (frames ++ more) = (Written ω k frames && Written ω (k + frames.length) more) := by
  induction frames generalizing k with
  | nil => rfl
  | cons frame rest ih =>
    rw [List.cons_append, Written, Written, ih, Bool.and_assoc, List.length_cons,
      Nat.add_assoc, Nat.add_comm 1]

theorem sseFrames_eq (lines : List (List UInt8)) : sseFrames lines = (contentFrames lines).flatten := by
  induction lines with
  | nil => rfl
  | cons line rest ih =>
    rw [sseFrames_cons, contentFrames_cons, ih]
    split
    · rename_i hnil
      rw [hnil, List.nil_append]
    · rw [List.flatten_cons]

/-- What writing to the client leaves as it is. -/
structure Worker.Kept (w w' : Worker) : Prop where
  conn : w'.conn = w.conn
  posted : w'.posted = w.posted
  headersSent : w'.ctx.headersSent = w.ctx.headersSent
  sent : w.sent <+: w'.sent

theorem Worker.Kept.refl (w : Worker) : w.Kept w := ⟨rfl, rfl, rfl, List.prefix_rfl⟩

theorem Worker.Kept.trans {w w' w'' : Worker} (h : w.Kept w') (h' : w'.Kept w'') : w.Kept w'' :=
  ⟨h'.conn.trans h.conn, h'.posted.trans h.posted, h'.headersSent.trans h.headersSent,
    h.sent.trans h'.sent⟩

/-- Frames are written, and the context goes on behind them. -/
structure Worker.Wrote (w : Worker) (frames : List (List UInt8)) (w' : Worker) : Prop where
  kept : w.Kept w'
  sent : w'.sent = w.sent ++ frames.flatten
  chunkCount : w'.ctx.chunkCount = w.ctx.chunkCount + frames.length
  error : w'.ctx.error = w.ctx.error
  lineBuf : w'.ctx.lineBuf = w.ctx.lineBuf
  lineCapacity : w'.ctx.lineCapacity = w.ctx.lineCapacity

theorem Worker.Wrote.nil (w : Worker) : w.Wrote [] w :=
  ⟨.refl w, (List.append_nil _).symm, rfl, rfl, rfl, rfl⟩

theorem Worker.Wrote.trans {w w' w'' : Worker} {frames more : List (List UInt8)}
    (h : w.Wrote frames w') (h' : w'.Wrote more w'') : w.Wrote (frames ++ more) w'' := by
  refine ⟨h.kept.trans h'.kept, ?_, ?_, h'.error.trans h.error, h'.lineBuf.trans h.lineBuf,
    h'.lineCapacity.trans h.lineCapacity⟩
  · rw [h'.sent, h.sent, List.flatten_append, List.append_assoc]
  · rw [h'.chunkCount, h.chunkCount, List.length_append, Nat.add_assoc]

variable {ω : WorkerEnv} {w : Worker}

/-- A frame is written, or the line fails. -/
theorem processSseLine_spec (line : List UInt8) :
    Act.Triple ω (· = w) (processSseLine line) fun ok w' =>
      ok = Written ω w.ctx.chunkCount (contentFrames [line]) ∧ w.Kept w' ∧
        (ok = true → w.Wrote (contentFrames [line]) w') := by
  rintro n u rfl
  rw [contentFrames_cons]
  by_cases hc : sseContent line = []
  · have hnil : sseFrame line = [] := by rw [sseFrame, if_pos hc]
    rw [if_pos hnil, processSseLine, if_pos hc]
    exact ⟨rfl, .refl _, fun _ => .nil _⟩
  · obtain ⟨frame, hf, -⟩ := streamFormatSse_fits (sseContent line)
    rw [if_neg (sseFrame_ne_nil hc), sseFrame_eq hc hf, processSseLine, if_neg hc, forwardChunk, hf]
    cases hok : (writeAll (ω.writeFrame u.ctx.chunkCount) frame).2 with
    | true =>
      have hall := (writeAll_eq_iff _ _).mp hok
      simp only [Act.bind_run, Act.get_run, writeClient, Act.ask_run, hok, if_true, updateCtx,
        Act.modify_run, Act.pure_run, hall, Written, Bool.true_and]
      refine ⟨rfl, ⟨rfl, rfl, rfl, List.prefix_append _ _⟩, fun _ => ?_⟩
      refine ⟨⟨rfl, rfl, rfl, List.prefix_append _ _⟩, ?_, rfl, rfl, rfl, rfl⟩
      simp [contentFrames]
    | false =>
      simp only [Act.bind_run, Act.get_run, writeClient, Act.ask_run, hok, updateCtx,
        Act.modify_run, Act.pure_run, Bool.false_eq_true, if_false, Written, Bool.false_and]
      exact ⟨trivial, ⟨rfl, rfl, rfl, List.prefix_append _ _⟩, by simp⟩

theorem processSseLines_spec (lines : List (List UInt8)) :
    Act.Triple ω (· = w) (processSseLines lines) fun ok w' =>
      ok = Written ω w.ctx.chunkCount (contentFrames lines) ∧ w.Kept w' ∧
        (ok = true → w.Wrote (contentFrames lines) w') := by
  induction lines generalizing w with
  | nil =>
    refine Act.Triple.pure true ?_
    rintro _ rfl
    exact ⟨rfl, .refl _, fun _ => .nil _⟩
  | cons line rest ih =>
    have hsplit : contentFrames (line :: rest) = contentFrames [line] ++ contentFrames rest :=
      contentFrames_append [line] rest
    rw [hsplit, written_append]
    refine .bind (processSseLine_spec line) fun ok => .ite (fun hok => ?_) fun hok => ?_
    · rintro n w₁ ⟨hwritten, hk₁, hw₁⟩
      have hw₁ := hw₁ hok
      obtain ⟨hok₂, hk₂, hw₂⟩ := ih n w₁ rfl
      rw [hw₁.chunkCount] at hok₂
      rw [← hwritten, hok, Bool.true_and]
      exact ⟨hok₂, hk₁.trans hk₂, fun h => hw₁.trans (hw₂ h)⟩
    · rintro n w₁ ⟨hwritten, hk₁, -⟩
      have hok : ok = false := by simpa using hok
      rw [← hwritten, hok, Bool.false_and]
      exact ⟨rfl, hk₁, by simp⟩

/-! ## What a transfer sends -/

/-- The capacity of the line buffer when a chunk of so many bytes is in it. -/
def nextCapacity (capacity len bytes : Nat) : Nat :=
  if capacity < len + bytes + 1 then newCapacity capacity len bytes else capacity

/-- **Relayed.** From a line buffer of this capacity that holds `text`, the line buffer can grow
whenever it has to and the client takes every frame, the first of them being number `k`. -/
def Relayed (ω : WorkerEnv) (capacity : Nat) (text : List UInt8) (k : Nat) :
    List (List UInt8) → Bool
  | [] => true
  | chunk :: rest =>
    let frames := contentFrames (splitLines [] (text ++ chunk)).1
    (capacity = nextCapacity capacity text.length chunk.length ∨
      ω.realloc (nextCapacity capacity text.length chunk.length)) &&
    Written ω k frames &&
    Relayed ω (nextCapacity capacity text.length chunk.length) (splitLines [] (text ++ chunk)).2
      (k + frames.length) rest

/-- The worker is in the middle of a response. -/
structure Worker.Ready (w : Worker) (capacity : Nat) (text : List UInt8) (k : Nat) : Prop where
  error : w.ctx.error = false
  headersSent : w.ctx.headersSent = true
  lineCapacity : w.ctx.lineCapacity = capacity
  lineBuf : w.ctx.lineBuf = text
  chunkCount : w.ctx.chunkCount = k
  room : text.length + 1 ≤ capacity
  rest : splitLines [] text = ([], text)

/-- What `write_callback` does once the headers are sent. -/
def deliver (chunk : List UInt8) : Work Nat := do
  if ← expandLineBuf chunk.length then receiveChunk chunk else return 0

theorem expandLineBuf_spec {capacity k : Nat} {text : List UInt8} (h : w.Ready capacity text k)
    (bytes : Nat) :
    Act.Triple ω (· = w) (expandLineBuf bytes) fun ok w' =>
      ok = decide (capacity = nextCapacity capacity text.length bytes ∨
        ω.realloc (nextCapacity capacity text.length bytes)) ∧
      w.Kept w' ∧ (ok = true → w'.sent = w.sent ∧
        w'.ctx = { w.ctx with lineCapacity := nextCapacity capacity text.length bytes }) := by
  rintro n u rfl
  have hcap := h.lineCapacity
  have hbuf := h.lineBuf
  by_cases hgrow : capacity < text.length + bytes + 1
  · have hnew : nextCapacity capacity text.length bytes = newCapacity capacity text.length bytes :=
      if_pos hgrow
    have hne : capacity ≠ newCapacity capacity text.length bytes := by
      rw [newCapacity]
      omega
    rw [hnew]
    cases hok : ω.realloc (newCapacity capacity text.length bytes) with
    | true =>
      simp only [expandLineBuf, Act.bind_run, Act.get_run, hcap, hbuf, if_pos hgrow, Act.ask_run,
        hok, if_true, updateCtx, Act.modify_run, Act.pure_run, or_true, decide_true]
      exact ⟨trivial, ⟨rfl, rfl, rfl, List.prefix_rfl⟩, fun _ => ⟨trivial, trivial⟩⟩
    | false =>
      simp only [expandLineBuf, Act.bind_run, Act.get_run, hcap, hbuf, if_pos hgrow, Act.ask_run,
        hok, if_false, updateCtx, Act.modify_run, Act.pure_run, Bool.false_eq_true, or_false, hne,
        decide_false]
      exact ⟨trivial, ⟨rfl, rfl, rfl, List.prefix_rfl⟩, by simp⟩
  · have hsame : nextCapacity capacity text.length bytes = capacity := if_neg hgrow
    simp only [expandLineBuf, Act.bind_run, Act.get_run, hcap, hbuf, if_neg hgrow, Act.pure_run,
      hsame, true_or, decide_true]
    refine ⟨trivial, .refl _, fun _ => ⟨trivial, ?_⟩⟩
    rw [← hcap, ← hbuf]

theorem receiveChunk_spec (chunk : List UInt8) :
    Act.Triple ω (· = w) (receiveChunk chunk) fun n w' =>
      let (lines, left) := splitLines [] (w.ctx.lineBuf ++ chunk)
      w.Kept w' ∧ if Written ω w.ctx.chunkCount (contentFrames lines) then
        n = chunk.length ∧ w'.sent = w.sent ++ sseFrames lines ∧ w'.ctx.lineBuf = left ∧
          w'.ctx.lineCapacity = w.ctx.lineCapacity ∧ w'.ctx.error = w.ctx.error ∧
          w'.ctx.chunkCount = w.ctx.chunkCount + (contentFrames lines).length
      else n = 0 := by
  refine .bind (Q := fun _ w' => w' =
    { w with ctx := { w.ctx with lineBuf := w.ctx.lineBuf ++ chunk } })
    (.modify fun _ h => by rw [h]) fun _ => ?_
  rintro n u rfl
  obtain ⟨hok, hk, hw⟩ := processSseLines_spec (ω := ω)
    (w := { w with ctx := { w.ctx with lineBuf := w.ctx.lineBuf ++ chunk } })
    (splitLines [] (w.ctx.lineBuf ++ chunk)).1 n _ rfl
  simp only [Act.bind_run, Act.get_run]
  revert hok hk hw
  generalize processSseLines (splitLines [] (w.ctx.lineBuf ++ chunk)).1 ω
    (n, { w with ctx := { w.ctx with lineBuf := w.ctx.lineBuf ++ chunk } }) = run
  obtain ⟨ok, n', u⟩ := run
  rintro hok ⟨hconn, hposted, hheaders, hsent⟩ hw
  simp only at hok hw ⊢
  cases ok with
  | true =>
    have hw := hw rfl
    rw [← hok, if_pos rfl]
    refine ⟨⟨hconn, hposted, hheaders, hsent⟩, rfl, ?_, rfl, hw.lineCapacity, hw.error, hw.chunkCount⟩
    rw [sseFrames_eq]
    exact hw.sent
  | false =>
    rw [← hok, if_neg (by decide)]
    exact ⟨⟨hconn, hposted, hheaders, hsent⟩, rfl⟩

/-- A chunk without data asks for nothing. -/
theorem Worker.Ready.relayed_nil {capacity k : Nat} {text : List UInt8}
    (h : w.Ready capacity text k) : Relayed ω capacity text k [[]] = true := by
  have hcap : nextCapacity capacity text.length 0 = capacity := if_neg (by have := h.room; omega)
  simp [Relayed, hcap, h.rest, contentFrames, Written]

theorem deliver_spec {capacity k : Nat} {text : List UInt8} (h : w.Ready capacity text k)
    (chunk : List UInt8) :
    Act.Triple ω (· = w) (deliver chunk) fun n w' => w.Kept w' ∧
      if Relayed ω capacity text k [chunk] then
        n = chunk.length ∧
          w'.sent = w.sent ++ sseFrames (splitLines [] (text ++ chunk)).1 ∧
          w'.Ready (nextCapacity capacity text.length chunk.length)
            (splitLines [] (text ++ chunk)).2
            (k + (contentFrames (splitLines [] (text ++ chunk)).1).length)
      else n ≠ chunk.length := by
  have hchunk : Relayed ω capacity text k [chunk] = false → 0 ≠ chunk.length := by
    intro hfail hlen
    rw [List.eq_nil_of_length_eq_zero hlen.symm, h.relayed_nil] at hfail
    cases hfail
  refine .bind (expandLineBuf_spec h chunk.length) fun ok => .ite (fun hok => ?_) fun hok => ?_
  · rintro n u ⟨hgrown, hk₁, hu⟩
    have hrelayed : Relayed ω capacity text k [chunk] =
        Written ω k (contentFrames (splitLines [] (text ++ chunk)).1) := by
      rw [Relayed, Relayed, ← hgrown, hok, Bool.true_and, Bool.and_true]
    obtain ⟨hsent₁, hctx⟩ := hu hok
    have hbuf : u.ctx.lineBuf = text := by rw [hctx]; exact h.lineBuf
    have hcount : u.ctx.chunkCount = k := by rw [hctx]; exact h.chunkCount
    have herror : u.ctx.error = false := by rw [hctx]; exact h.error
    have hcap : u.ctx.lineCapacity = nextCapacity capacity text.length chunk.length := by rw [hctx]
    have hrun := receiveChunk_spec (ω := ω) chunk n u rfl
    simp only [hbuf, hcount, hcap, herror, hsent₁] at hrun
    obtain ⟨hk₂, hrun⟩ := hrun
    have hk := hk₁.trans hk₂
    refine ⟨hk, ?_⟩
    rw [hrelayed]
    cases hw : Written ω k (contentFrames (splitLines [] (text ++ chunk)).1) with
    | true =>
      rw [hw, if_pos rfl] at hrun
      obtain ⟨hn, hsent₂, hbuf₂, hcap₂, herror₂, hcount₂⟩ := hrun
      refine ⟨hn, hsent₂, herror₂, hk.headersSent.trans h.headersSent, hcap₂, hbuf₂, hcount₂, ?_,
        splitLines_rest _⟩
      have hle := length_splitLines_rest_le [] (text ++ chunk)
      have hroom := h.room
      simp only [List.length_nil, List.length_append, nextCapacity, newCapacity] at hle ⊢
      split <;> omega
    | false =>
      rw [hw, if_neg (by decide)] at hrun
      rw [if_neg (by decide)]
      exact fun hn => hchunk (hrelayed.trans hw) (hrun.symm.trans hn)
  · rintro n u ⟨hgrown, hk, -⟩
    have hok : ok = false := by simpa using hok
    have hrelayed : Relayed ω capacity text k [chunk] = false := by
      rw [Relayed, ← hgrown, hok, Bool.false_and, Bool.false_and]
    refine ⟨hk, ?_⟩
    rw [hrelayed, if_neg (by decide)]
    exact hchunk hrelayed

theorem writeCallback_eq (chunk : List UInt8) : writeCallback chunk = (do
    if (← Act.get).ctx.error then return 0
    else if ← sendHeaders then deliver chunk else return 0) := rfl

/-- In the middle of a response, `write_callback` only delivers. -/
theorem writeCallback_ready {capacity k : Nat} {text : List UInt8} (h : w.Ready capacity text k)
    (chunk : List UInt8) (n : Nat) :
    writeCallback chunk ω (n, w) = deliver chunk ω (n, w) := by
  simp [writeCallback_eq, sendHeaders, h.error, h.headersSent]

/-- The chunks that are left are delivered, or the transfer ends with an error. -/
theorem curlEasyPerform_ready {capacity k : Nat} (result : Nat) {text : List UInt8}
    (h : w.Ready capacity text k) (chunks : List (List UInt8)) :
    Act.Triple ω (· = w) (curlEasyPerform result chunks) fun res w' => w.Kept w' ∧
      if Relayed ω capacity text k chunks then
        res = result ∧ w'.sent = w.sent ++ sseFrames (splitLines [] (text ++ chunks.flatten)).1
      else res = curleWriteError := by
  induction chunks generalizing w capacity text k with
  | nil =>
    refine Act.Triple.pure result ?_
    rintro _ rfl
    refine ⟨.refl _, rfl, ?_⟩
    rw [List.flatten_nil, List.append_nil, h.rest]
    exact (List.append_nil _).symm
  | cons chunk rest ih =>
    have hsplit : Relayed ω capacity text k (chunk :: rest) =
        (Relayed ω capacity text k [chunk] &&
          Relayed ω (nextCapacity capacity text.length chunk.length)
            (splitLines [] (text ++ chunk)).2
            (k + (contentFrames (splitLines [] (text ++ chunk)).1).length) rest) := by
      simp only [Relayed, Bool.and_true]
    have hlines : (splitLines [] (text ++ (chunk :: rest).flatten)).1 =
        (splitLines [] (text ++ chunk)).1 ++
          (splitLines [] ((splitLines [] (text ++ chunk)).2 ++ rest.flatten)).1 := by
      rw [List.flatten_cons, ← List.append_assoc, splitLines_append .nil]
    rintro n u rfl
    have hrun := deliver_spec (ω := ω) h chunk n u rfl
    rw [curlEasyPerform, Act.bind_run, writeCallback_ready h, hsplit]
    obtain ⟨hk, hrun⟩ := hrun
    cases hone : Relayed ω capacity text k [chunk] with
    | true =>
      rw [hone, if_pos rfl] at hrun
      obtain ⟨hn, hsent, hready⟩ := hrun
      rw [if_pos hn, Bool.true_and]
      obtain ⟨hk₂, hrest⟩ := ih hready _ _ rfl
      refine ⟨hk.trans hk₂, ?_⟩
      split
      · rename_i hall
        rw [if_pos hall] at hrest
        refine ⟨hrest.1, hrest.2.trans ?_⟩
        rw [hsent, hlines, sseFrames_append, List.append_assoc]
      · rename_i hall
        rwa [if_neg hall] at hrest
    | false =>
      rw [hone, if_neg (by decide)] at hrun
      rw [if_neg hrun, Bool.false_and]
      exact ⟨hk, rfl⟩

/-- The client takes the headers. -/
def HeadersWritten (ω : WorkerEnv) : Bool := (writeAll ω.writeHeaders sseHeaders).2

/-- After an error nothing more is sent. -/
theorem curlEasyPerform_error (h : w.ctx.error = true) (result : Nat) (chunks : List (List UInt8)) :
    Act.Triple ω (· = w) (curlEasyPerform result chunks) fun _ w' => w' = w := by
  induction chunks with
  | nil => exact Act.Triple.pure result fun _ hs => hs
  | cons chunk rest ih =>
    rintro n u rfl
    have hstop : writeCallback chunk ω (n, u) = (0, (n, u)) := by simp [writeCallback_eq, h]
    rw [curlEasyPerform, Act.bind_run, hstop]
    simp only
    split
    · exact ih n u rfl
    · rfl

/-- **What a transfer does to the client.** There are three cases: libcurl has no data, the headers
cannot be written, or they are, and then the frames of all lines follow, as long as none of them
fails. -/
theorem curlEasyPerform_spec (hw : w.ctx = .initial) (result : Nat) (chunks : List (List UInt8)) :
    Act.Triple ω (· = w) (curlEasyPerform result chunks) fun res w' =>
      w'.conn = w.conn ∧ w'.posted = w.posted ∧
        if chunks = [] then res = result ∧ w' = w
        else if HeadersWritten ω then
          w'.ctx.headersSent = true ∧ w.sent ++ sseHeaders <+: w'.sent ∧
            if Relayed ω 4096 [] 0 chunks then
              res = result ∧ w'.sent = w.sent ++ sseHeaders ++ sseFrames (responseLines chunks)
            else res = curleWriteError
        else w'.ctx.headersSent = false ∧
          w'.sent = w.sent ++ (writeAll ω.writeHeaders sseHeaders).1 := by
  cases chunks with
  | nil =>
    refine Act.Triple.pure result ?_
    rintro _ rfl
    exact ⟨rfl, rfl, rfl, rfl⟩
  | cons chunk rest =>
    rintro n u rfl
    simp only [reduceCtorEq, if_false]
    cases hok : (writeAll ω.writeHeaders sseHeaders).2 with
    | true =>
      -- the headers go out, and the rest is as in the middle of a response
      have hall := (writeAll_eq_iff _ _).mp hok
      obtain ⟨size, hsize⟩ : ∃ size, sseHeaders.length = size := ⟨_, rfl⟩
      let u₁ : Worker :=
        { u with
          sent := u.sent ++ sseHeaders
          ctx :=
            { u.ctx with
              bytesSent := u.ctx.bytesSent + size
              headersSent := true } }
      have hready : u₁.Ready 4096 [] 0 := by
        refine ⟨?_, rfl, ?_, ?_, ?_, by decide, rfl⟩ <;> simp [u₁, hw, ResponseCtx.initial]
      have hstart : curlEasyPerform result (chunk :: rest) ω (n, u) =
          curlEasyPerform result (chunk :: rest) ω (n + 1, u₁) := by
        have hfirst : writeCallback chunk ω (n, u) = writeCallback chunk ω (n + 1, u₁) := by
          rw [writeCallback_ready hready]
          simp [writeCallback_eq, sendHeaders, hw, ResponseCtx.initial, writeClient, hok, hall,
            hsize, updateCtx, u₁]
        rw [curlEasyPerform, Act.bind_run, Act.bind_run, hfirst]
      rw [hstart]
      obtain ⟨hk, hrun⟩ := curlEasyPerform_ready (ω := ω) result hready (chunk :: rest)
        (n + 1) u₁ rfl
      rw [HeadersWritten, hok, if_pos rfl]
      exact ⟨hk.conn, hk.posted, hk.headersSent, hk.sent, hrun⟩
    | false =>
      let u₂ : Worker :=
        { u with
          sent := u.sent ++ (writeAll ω.writeHeaders sseHeaders).1
          ctx := { u.ctx with error := true } }
      have hfirst : writeCallback chunk ω (n, u) = (0, (n + 1, u₂)) := by
        simp [writeCallback_eq, sendHeaders, hw, ResponseCtx.initial, writeClient, hok, updateCtx, u₂]
      have hend : (curlEasyPerform result (chunk :: rest) ω (n, u)).2.2 = u₂ := by
        rw [curlEasyPerform, Act.bind_run, hfirst]
        simp only
        split
        · exact curlEasyPerform_error rfl result rest (n + 1) u₂ rfl
        · rfl
      rw [hend, HeadersWritten, hok, if_neg (by decide)]
      exact ⟨rfl, rfl, by simp [u₂, hw, ResponseCtx.initial], rfl⟩

/-! ## What a whole request sends -/

/-- A worker that has been given a connection. -/
def Worker.start (conn : Connection) : Worker := ⟨conn, .initial, none, []⟩

section
variable (ω : WorkerEnv) (apiKey : Bool) (defaultModel : List UInt8) (up : Upstream)
  (conn : Connection)

/-- The `CURLcode` of the transfer, if there is one. -/
def curlResult : Option Nat := (transfer apiKey defaultModel up).result ω (.start conn)

/-- The body that is posted. -/
def postedBody : Option (List UInt8) :=
  ((transfer apiKey defaultModel up).final ω (.start conn)).posted

/-- What the client has got when the transfer ends. -/
def streamed : List UInt8 := ((transfer apiKey defaultModel up).final ω (.start conn)).sent

/-- What the client has got in the end. -/
def answered : List UInt8 := ((backendProcess apiKey defaultModel up).final ω (.start conn)).sent

/-- The worker gets as far as the transfer. -/
def Performs : Bool :=
  apiKey && ω.curlEasyInit && (requestBody defaultModel conn.data).isSome && ω.malloc

/-- The client gets the headers. -/
def Heads : Prop :=
  Performs ω apiKey defaultModel conn = true ∧ up.chunks ≠ [] ∧ HeadersWritten ω = true

/-- The client takes the marker. -/
def DoneWritten : Bool := (writeAll ω.writeDone sseDone).2

end

section
variable {apiKey : Bool} {defaultModel : List UInt8} {up : Upstream} {conn : Connection}

/-- The marker follows the headers. -/
theorem finish_spec (status res : Nat) :
    Act.Triple ω (· = w) (finish status res) fun _ w' => w'.sent =
      if w.ctx.headersSent then w.sent ++ (writeAll ω.writeDone sseDone).1 else w.sent := by
  rintro n u rfl
  cases hs : u.ctx.headersSent with
  | true => simp [finish, hs, writeClient, updateCtx]
  | false =>
    by_cases herr : res ≠ 0 ∨ u.ctx.error = true
    · simp [finish, hs, herr]
    · by_cases hstatus : status = 200
      · simp [finish, hs, herr, hstatus]
      · simp [finish, hs, herr, hstatus]

variable (up) in
theorem transfer_run (h : Performs ω apiKey defaultModel conn = true) : ∃ body n,
    requestBody defaultModel conn.data = some body ∧
    transfer apiKey defaultModel up ω (0, .start conn) =
      (some (curlEasyPerform up.result up.chunks ω (n, { Worker.start conn with posted := some body })).1,
        (curlEasyPerform up.result up.chunks ω
          (n, { Worker.start conn with posted := some body })).2) := by
  simp only [Performs, Bool.and_eq_true] at h
  obtain ⟨⟨⟨hkey, hinit⟩, hbody⟩, hmalloc⟩ := h
  obtain ⟨body, hbody⟩ := Option.isSome_iff_exists.mp hbody
  refine ⟨body, 2, hbody, ?_⟩
  simp [transfer, hkey, hinit, Worker.start, hbody, hmalloc]

variable (up) in
theorem transfer_none (h : Performs ω apiKey defaultModel conn = false) :
    (transfer apiKey defaultModel up ω (0, .start conn)).1 = none ∧
      (transfer apiKey defaultModel up ω (0, .start conn)).2.2 = .start conn := by
  cases hkey : apiKey with
  | false => simp [transfer]
  | true =>
    cases hinit : ω.curlEasyInit with
    | false => simp [transfer, hinit]
    | true =>
      cases hbody : requestBody defaultModel conn.data with
      | none => simp [transfer, hinit, Worker.start, hbody]
      | some body =>
        have hmalloc : ω.malloc = false := by simpa [Performs, hkey, hinit, hbody] using h
        simp [transfer, hinit, Worker.start, hbody, hmalloc]

variable (up) in
/-- A worker that does not perform sends nothing. -/
theorem answered_none (h : Performs ω apiKey defaultModel conn = false) :
    streamed ω apiKey defaultModel up conn = [] ∧ answered ω apiKey defaultModel up conn = [] := by
  obtain ⟨hres, hfinal⟩ := transfer_none up h
  refine ⟨?_, ?_⟩
  · rw [streamed, Act.final, hfinal]
    rfl
  · rw [answered, Act.final, backendProcess, Act.bind_run, hres]
    exact congrArg Worker.sent hfinal

variable (up) in
/-- **What the client gets of a request.** -/
theorem answered_spec (h : Performs ω apiKey defaultModel conn = true) : ∃ res headed,
    curlResult ω apiKey defaultModel up conn = some res ∧
      postedBody ω apiKey defaultModel up conn = requestBody defaultModel conn.data ∧
      answered ω apiKey defaultModel up conn = (if headed = true then
          streamed ω apiKey defaultModel up conn ++ (writeAll ω.writeDone sseDone).1
        else streamed ω apiKey defaultModel up conn) ∧
      if up.chunks = [] then
        headed = false ∧ res = up.result ∧ streamed ω apiKey defaultModel up conn = []
      else if HeadersWritten ω then
        headed = true ∧ sseHeaders <+: streamed ω apiKey defaultModel up conn ∧
          if Relayed ω 4096 [] 0 up.chunks then
            res = up.result ∧ streamed ω apiKey defaultModel up conn =
              sseHeaders ++ sseFrames (responseLines up.chunks)
          else res = curleWriteError
      else headed = false ∧
        streamed ω apiKey defaultModel up conn = (writeAll ω.writeHeaders sseHeaders).1 := by
  obtain ⟨body, n, hbody, hrun⟩ := transfer_run up h
  have hspec := curlEasyPerform_spec (ω := ω) (w := { Worker.start conn with posted := some body })
    rfl up.result up.chunks n _ rfl
  generalize sseHeaders = headers at hspec ⊢
  have hanswered : answered ω apiKey defaultModel up conn =
      (backendProcess apiKey defaultModel up ω (0, .start conn)).2.2.sent := rfl
  have hstreamed : streamed ω apiKey defaultModel up conn =
      (transfer apiKey defaultModel up ω (0, .start conn)).2.2.sent := rfl
  have hposted : postedBody ω apiKey defaultModel up conn =
      (transfer apiKey defaultModel up ω (0, .start conn)).2.2.posted := rfl
  rw [hanswered, hstreamed, hposted, curlResult, Act.result, backendProcess, Act.bind_run, hrun]
  revert hspec
  generalize curlEasyPerform up.result up.chunks ω
    (n, { Worker.start conn with posted := some body }) = run
  obtain ⟨res, n', w'⟩ := run
  rintro ⟨-, hpost, hspec⟩
  have hsent : ({ Worker.start conn with posted := some body } : Worker).sent = [] := rfl
  rw [hsent, List.nil_append, List.nil_append] at hspec
  dsimp only at hpost hspec ⊢
  refine ⟨res, w'.ctx.headersSent, rfl, hpost.trans hbody.symm, finish_spec up.status res n' w' rfl, ?_⟩
  by_cases hc : up.chunks = []
  · rw [if_pos hc] at hspec ⊢
    obtain ⟨hres, hw'⟩ := hspec
    subst hw'
    exact ⟨rfl, hres, rfl⟩
  · rw [if_neg hc] at hspec ⊢
    generalize HeadersWritten ω = taken at hspec ⊢
    exact hspec

/-- A client that does not get the headers gets nothing behind them. -/
theorem answered_of_not_heads (h : ¬ Heads ω apiKey defaultModel up conn) :
    ¬ sseHeaders <+: streamed ω apiKey defaultModel up conn ∧
      answered ω apiKey defaultModel up conn = streamed ω apiKey defaultModel up conn := by
  have hnil : ¬ sseHeaders <+: [] := fun hp => sseHeaders_ne_nil (List.prefix_nil.mp hp)
  cases hperf : Performs ω apiKey defaultModel conn with
  | false =>
    obtain ⟨hstream, hanswer⟩ := answered_none up hperf
    rw [hstream, hanswer]
    exact ⟨hnil, rfl⟩
  | true =>
    obtain ⟨res, headed, -, -, hanswer, hspec⟩ := answered_spec up hperf
    by_cases hc : up.chunks = []
    · rw [if_pos hc] at hspec
      rw [hanswer, hspec.1, hspec.2.2]
      exact ⟨hnil, rfl⟩
    · have htaken : HeadersWritten ω = false := Bool.eq_false_iff.mpr fun ht => h ⟨hperf, hc, ht⟩
      rw [if_neg hc, htaken] at hspec
      obtain ⟨hheaded, hstream⟩ := hspec
      rw [hanswer, hheaded, hstream]
      refine ⟨fun hp => ?_, rfl⟩
      -- only a part of the headers has been written
      have hpart := writeAll_prefix ω.writeHeaders sseHeaders
      have hall := (writeAll_eq_iff _ _).mpr (hpart.eq_of_length_le hp.length_le)
      rw [HeadersWritten, hall] at htaken
      cases htaken

/-- One that gets them is sent the marker, whatever happened meanwhile. -/
theorem answered_of_heads (h : Heads ω apiKey defaultModel up conn) : ∃ res,
    curlResult ω apiKey defaultModel up conn = some res ∧
      sseHeaders <+: streamed ω apiKey defaultModel up conn ∧
      answered ω apiKey defaultModel up conn =
        streamed ω apiKey defaultModel up conn ++ (writeAll ω.writeDone sseDone).1 ∧
      if Relayed ω 4096 [] 0 up.chunks then
        res = up.result ∧ streamed ω apiKey defaultModel up conn =
          sseHeaders ++ sseFrames (responseLines up.chunks)
      else res = curleWriteError := by
  obtain ⟨hperf, hc, htaken⟩ := h
  obtain ⟨res, headed, hres, -, hanswer, hspec⟩ := answered_spec up hperf
  rw [if_neg hc, htaken] at hspec
  obtain ⟨hheaded, hstart, hspec⟩ := hspec
  rw [hheaded, if_pos rfl] at hanswer
  exact ⟨res, hres, hstart, hanswer, hspec⟩

/-- Nothing fails, and the client takes everything at once. -/
def WorkerEnv.taking : WorkerEnv where
  curlEasyInit := true
  malloc := true
  realloc _ := true
  writeHeaders := [.wrote 8192]
  writeFrame _ := [.wrote 8192]
  writeDone := [.wrote 8192]

theorem headersWritten_taking : HeadersWritten .taking = true := by
  have htaking : WorkerEnv.taking.writeHeaders = [.wrote 8192] := rfl
  rw [HeadersWritten, htaking]
  apply writeAll_at_once
  rw [length_sseHeaders]
  decide

theorem heads_taking (hdata : conn.data.maxTokens < 2147483648) (hc : up.chunks ≠ []) :
    Heads .taking true defaultModel up conn := by
  refine ⟨?_, hc, headersWritten_taking⟩
  simp [Performs, WorkerEnv.taking, requestBody_eq defaultModel hdata]

theorem doneWritten_taking : DoneWritten .taking = true :=
  writeAll_at_once _ _ (by rw [length_sseDone]; decide)

end

end SocketHandoff.Uring.Backend
