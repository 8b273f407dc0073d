import SocketHandoff.Uring.Connection
import SocketHandoff.Uring.Ring
import SocketHandoff.Uring.Streaming

/-!
# The curl manager

`curl_manager.c`. libcurl calls back: `socket_callback` and `timer_callback` arm polls and timers
in the ring, `write_callback` receives the response. Response data goes through the line buffer
of the connection into its write buffer, and a write is submitted at once when none is in flight.
-/

namespace SocketHandoff.Uring

/-- The headers fit into a fresh buffer. -/
theorem WriteBuffer.append_sseHeaders (b : Block) (block : Option Block) :
    (WriteBuffer.init b).append sseHeaders block =
      (.ok, { WriteBuffer.init b with bytes := sseHeaders }) := by
  have hroom : (WriteBuffer.init b).head + sseHeaders.length ≤ (WriteBuffer.init b).capacity := by
    have hhead : (WriteBuffer.init b).head = 0 := rfl
    have hcap : (WriteBuffer.init b).capacity = 8192 := rfl
    rw [length_sseHeaders, hhead, hcap]
    decide
  have hempty : (WriteBuffer.init b).bytes = [] := rfl
  rw [WriteBuffer.append_room (WriteBuffer.sound_init b) hroom, hempty, List.nil_append]

/-! ## Callbacks that only touch the ring -/

/-- `POLLIN` and `POLLOUT`. -/
def CurlPoll.mask : CurlPoll → Nat
  | .none | .remove => 0
  | .read => 1
  | .write => 4
  | .both => 5

/-- Change the entry of a socket. -/
def updateSocket (sockfd : Fd) (info : SocketInfo) : Loop Unit :=
  Act.modify fun s =>
    { s with curl := { s.curl with sockets := Function.update s.curl.sockets sockfd info } }

/-- `ensure_socket_capacity`. -/
def ensureSocketCapacity (fd : Fd) : Loop Bool := do
  if fd < (← Act.get).curl.socketsCapacity then return true
  else
    match ← realloc 0 with
    | none => return false
    | some _ =>
      Act.modify fun s => { s with curl := { s.curl with socketsCapacity := fd + 256 } }
      return true

/-- The poll of a socket is taken back when its mask changes or the socket goes. -/
def socketCancel (sockfd : Fd) (what : CurlPoll) : Loop Unit := do
  let info := (← Act.get).curl.sockets sockfd
  if info.pollActive ∧ (what.mask ≠ info.pollMask ∨ what = .remove) then
    let _ ← ringSubmitPollCancel sockfd
    updateSocket sockfd { info with pollActive := false }
  else return ()

/-- A new poll is armed for a mask that is not empty. -/
def socketPoll (sockfd : Fd) (what : CurlPoll) : Loop Unit := do
  if what.mask ≠ 0 then
    if ← ringSubmitPollAdd sockfd what.mask then
      updateSocket sockfd ⟨what.mask, true⟩
      ringSubmit
    else ringSubmit
  else return ()

/-- `socket_callback`. -/
def socketCallback (sockfd : Fd) (what : CurlPoll) : Loop Unit := do
  if ← ensureSocketCapacity sockfd then
    socketCancel sockfd what
    socketPoll sockfd what
    if what = .remove then updateSocket sockfd ⟨0, false⟩ else return ()
  else return ()

/-- Cancel the timer that is running. -/
def timerCancel : Loop Unit := do
  let s ← Act.get
  if s.curl.timerActive then
    let _ ← ringCancelCurlTimeout s.curl.timerId
    Act.modify fun s => { s with curl := { s.curl with timerActive := false } }
  else return ()

/-- The number of the next timer: 32 bits, without 0. -/
def nextTimerId (timerId : Nat) : Nat :=
  if (timerId + 1) % 4294967296 = 0 then 1 else (timerId + 1) % 4294967296

/-- `timer_callback`: the timer that runs is cancelled, and another one is started unless libcurl
wants none. A timeout of 0 is made one of 1 ms: libcurl must not be called in its own callback, and
the timeout brings the daemon back to it. -/
def timerCallback (timeoutMs : Int) : Loop Unit := do
  timerCancel
  if timeoutMs = -1 then return ()
  else
    let timerId := nextTimerId (← Act.get).curl.timerId
    Act.modify fun s => { s with curl := { s.curl with timerId := timerId } }
    let timeoutMs := if timeoutMs = 0 then 1 else timeoutMs
    if ← ringSubmitCurlTimeout timeoutMs.toNat timerId then
      Act.modify fun s => { s with curl := { s.curl with timerActive := true } }
      ringSubmit
    else ringSubmit

/-- The callbacks of one call of libcurl. -/
def runCallbacks : List CurlCallback → Loop Unit
  | [] => return ()
  | .socket sockfd what :: rest => do
    socketCallback sockfd what
    runCallbacks rest
  | .timer timeoutMs :: rest => do
    timerCallback timeoutMs
    runCallbacks rest

/-- The callbacks libcurl makes inside a call. -/
def curlCallbacks : Loop Unit := do
  let callbacks ← Act.ask fun ω n s => (ω.callbacks n, s)
  runCallbacks callbacks

/-! ## Handles -/

/-- The request of an easy handle (`CURLINFO_PRIVATE`). -/
def CurlManager.request? (mgr : CurlManager) (easy : Easy) : Option CurlRequest :=
  mgr.requests.find? (·.easy = easy)

/-- Change the request of an easy handle. -/
def CurlManager.updateRequest (mgr : CurlManager) (easy : Easy)
    (f : CurlRequest → CurlRequest) : CurlManager :=
  { mgr with requests := mgr.requests.map fun req => if req.easy = easy then f req else req }

/-- The same in the daemon. -/
def Daemon.updateRequest (s : Daemon) (easy : Easy) (f : CurlRequest → CurlRequest) : Daemon :=
  { s with curl := s.curl.updateRequest easy f }

/-- A request keeps its handle when it changes. -/
theorem request?_updateRequest {easy : Easy} {g : CurlRequest → CurlRequest} (s : Daemon)
    (heasy : ∀ req, (g req).easy = req.easy) :
    (s.updateRequest easy g).curl.request? easy = (s.curl.request? easy).map g := by
  simp only [Daemon.updateRequest, CurlManager.updateRequest, CurlManager.request?, List.find?_map]
  have hp : (fun req : CurlRequest => decide (req.easy = easy)) ∘
      (fun req => if req.easy = easy then g req else req) = fun req => decide (req.easy = easy) := by
    funext req
    simp only [Function.comp_apply]
    split
    · rw [heasy]
    · rfl
  rw [hp]
  cases hreq : s.curl.requests.find? fun req => decide (req.easy = easy) with
  | none => rfl
  | some req =>
    have he : req.easy = easy := by simpa using List.find?_some hreq
    rw [Option.map_some, Option.map_some, if_pos he]

/-- Forget the request of an easy handle. -/
def Daemon.removeRequest (s : Daemon) (easy : Easy) : Daemon :=
  { s with curl := { s.curl with requests := s.curl.requests.filter (·.easy ≠ easy) } }

/-- A handle is added to the multi handle. -/
def Daemon.addRequest (s : Daemon) (req : CurlRequest) : Daemon :=
  { s with
    curl :=
      { s.curl with
        requests := s.curl.requests ++ [req]
        nextEasy := s.curl.nextEasy + 1 } }

/-- `curl_multi_remove_handle` and `curl_easy_cleanup`, with the request freed. -/
def curlRemoveHandle (easy : Easy) : Loop Unit := do
  Act.modify fun s => s.removeRequest easy
  curlCallbacks

/-- `curl_manager_cancel_request`. -/
def curlManagerCancelRequest (i : ConnId) : Loop Unit := do
  match (← connOf i).curlEasy with
  | none => return ()
  | some easy =>
    curlRemoveHandle easy
    updateConn i fun c => { c with curlEasy := none }

/-! ## Starting a request -/

/-- `build_request_body`, apart from its allocations. `snprintf` leaves 256 bytes for everything
but the prompt. -/
def requestBody (prompt model : List UInt8) (maxTokens : Int) : List UInt8 :=
  let escaped := prompt.flatMap escapeChar
  snprintf (escaped.length + 256)
    (ascii "\x7b\"model\":\"" ++ model ++
      ascii "\",\"messages\":[\x7b\"role\":\"user\",\"content\":\"" ++ escaped ++
      ascii "\"\x7d],\"max_tokens\":" ++ ascii (toString maxTokens) ++
      ascii ",\"stream\":true\x7d")

/-- The body for a connection, with its defaults. -/
def buildRequestBody (cfg : Config) (data : HandoffData) : List UInt8 :=
  requestBody (data.prompt.getD (ascii "Hello")) (data.model.getD cfg.defaultModel)
    (if 0 < data.maxTokens then data.maxTokens else 1024)

/-- The allocations of `curl_manager_start_request`: the request, the easy handle, the escaped
prompt and the body. -/
def startAllocations : Loop Bool := do
  match ← malloc with
  | none => return false
  | some _ =>
    if ← Act.ask fun ω n s => (ω.curlEasyInit n, s) then
      match ← malloc with
      | none => return false
      | some _ => return (← malloc).isSome
    else return false

/-- `curl_manager_start_request` up to the call that starts the transfer. The connection has its
handle before libcurl is told, as a callback may come at once; if libcurl refuses, the handle is
taken away again. -/
def curlManagerStartRequest (i : ConnId) : Loop Bool := do
  let s ← Act.get
  if s.cfg.apiKey then
    if ← startAllocations then
      let easy := s.curl.nextEasy
      let body := buildRequestBody s.cfg (s.connections i).data
      updateConn i fun c => { c with curlEasy := some easy, state := .curlPending }
      if ← Act.ask fun ω n s => (ω.curlMultiAddHandle n, s) then
        Act.modify fun s => s.addRequest ⟨easy, i, body, false, 0, false, none⟩
        curlCallbacks
        return true
      else
        updateConn i fun c => { c with curlEasy := none }
        return false
    else return false
  else return false

/-! ## Response data -/

/-- `write_buffer_append` to the buffer of a connection. -/
def writeBufferAppend (i : ConnId) (wb : WriteBuffer) (data : List UInt8) :
    Loop WriteBuffer.Appended := do
  let block ← realloc wb.buffer
  let (result, grown) := wb.append data block
  updateConn i fun c => { c with asyncWriteBuf := some grown }
  if wb.writePending ∧ grown.buffer ≠ wb.buffer then
    note (.moved i)
    return result
  else return result

/-- The write buffer of a connection, made now if there is none. -/
def ensureWriteBuffer (i : ConnId) : Loop (Option WriteBuffer) := do
  match (← connOf i).asyncWriteBuf with
  | some wb => return some wb
  | none =>
    match ← malloc with
    | none => return none
    | some _ =>
      match ← malloc with
      | none => return none
      | some buffer =>
        let wb := WriteBuffer.init buffer
        updateConn i fun c => { c with asyncWriteBuf := some wb }
        return some wb

/-- Append to the write buffer, made now if there is none, and put the connection on the dirty
list. -/
def queueForClient (i : ConnId) (data : List UInt8) : Loop Bool := do
  match ← ensureWriteBuffer i with
  | none => return false
  | some wb =>
    match ← writeBufferAppend i wb data with
    | .ok =>
      daemonMarkConnectionDirty i
      return true
    | _ => return false

/-- `try_immediate_write`: what is queued is submitted if no write is in flight. A timeout that
finds no entry is done without, where in the other writes it ends the connection. -/
def tryImmediateWrite (i : ConnId) : Loop Unit := do
  match (← connOf i).asyncWriteBuf with
  | none => return ()
  | some wb =>
    if wb.hasData ∧ ¬ wb.writePending then
      if ← ringSubmitWrite i (.block wb.buffer wb.tail) wb.size then
        let _ ← ringSubmitLinkedTimeout i
        updateConn i fun c => { c with asyncWriteBuf := some (wb.setPending true) }
        ringSubmit
      else return ()
    else return ()

/-- `strstr`, with the text behind the first place where `pat` is found. -/
def strstr (pat : List UInt8) (text : List UInt8) : Option (List UInt8) :=
  if pat.isPrefixOf text then some (text.drop pat.length)
  else
    match text with
    | [] => none
    | _ :: rest => strstr pat rest

/-- What stands for an escaped character. -/
def unescapeChar (c : UInt8) : UInt8 :=
  if c = 110 then 10 else if c = 114 then 13 else if c = 116 then 9 else c

/-- The loop of `process_sse_line` that copies the content, with the room left in its buffer. -/
def copyContent : List UInt8 → (room : Nat) → List UInt8
  | [], _ | _, 0 => []
  | [c], _ + 1 => if c = 34 then [] else [c]
  | c :: d :: rest, room + 1 =>
    if c = 34 then []
    else if c = 92 then unescapeChar d :: copyContent rest room
    else c :: copyContent (d :: rest) room

/-- The content `process_sse_line` finds in a line; empty when there is none. -/
def sseContent (line : List UInt8) : List UInt8 :=
  if (ascii "data: ").isPrefixOf line ∧ ¬ (ascii "data: [DONE]").isPrefixOf line then
    match strstr (ascii "\"content\":\"") (line.drop 6) with
    | some text => copyContent text 4095
    | none => []
  else []

/-- `process_sse_line`; `false` for -1. A line without a content is passed over, and one with a
content becomes a frame in the write buffer. A line that fails ends the transfer, with what was
queued before it still to be sent. -/
def processSseLine (easy : Easy) (i : ConnId) (line : List UInt8) : Loop Bool := do
  if sseContent line = [] then return true
  else
    match streamFormatSse 8192 (sseContent line) with
    | none => return false
    | some frame =>
      if ← queueForClient i frame then
        tryImmediateWrite i
        Act.modify fun s =>
          s.updateRequest easy fun req => { req with chunkCount := req.chunkCount + 1 }
        return true
      else return false

/-- Process lines until one fails. -/
def processSseLines (easy : Easy) (i : ConnId) : List (List UInt8) → Loop Bool
  | [] => return true
  | line :: rest => do
    if ← processSseLine easy i line then processSseLines easy i rest else return false

/-- Drop a carriage return at the end of a line. -/
def chomp (line : List UInt8) : List UInt8 :=
  if line.getLast? = some 13 then line.dropLast else line

/-- The complete lines in the line buffer and what is left, `line` being what has been seen of
the line at hand. `strchr` does not look behind a NUL. -/
def splitLines : (line text : List UInt8) → List (List UInt8) × List UInt8
  | line, [] => ([], line)
  | line, c :: rest =>
    if c = 0 then ([], line ++ c :: rest)
    else if c = 10 then (chomp line :: (splitLines [] rest).1, (splitLines [] rest).2)
    else splitLines (line ++ [c]) rest

/-- The line buffer with room for `len` more bytes and a NUL. -/
def ensureSseLine (i : ConnId) (len : Nat) : Loop (Option (List UInt8 × Nat)) := do
  let line ← match (← connOf i).sseLine with
    | some line => pure (some line)
    | none => do
      match ← malloc with
      | none => pure none
      | some _ => pure (some ([], 4096))
  match line with
  | none => return none
  | some (text, cap) =>
    updateConn i fun c => { c with sseLine := some (text, cap) }
    if cap < text.length + len + 1 then
      match ← realloc 0 with
      | none => return none
      | some _ => return some (text, max (cap * 2) (text.length + len + 1))
    else return some (text, cap)

/-- The part of `ensureSseLine` after the allocation of the line buffer `line`. -/
def growSseLine (i : ConnId) (len : Nat) (line : List UInt8 × Nat) :
    Loop (Option (List UInt8 × Nat)) := do
  updateConn i fun c => { c with sseLine := some line }
  if line.2 < line.1.length + len + 1 then
    match ← realloc 0 with
    | none => return none
    | some _ => return some (line.1, max (line.2 * 2) (line.1.length + len + 1))
  else return some line

/-- The part of `write_callback` that sends the headers before the first data. -/
def sendHeaders (easy : Easy) (i : ConnId) : Loop Bool := do
  if ← queueForClient i sseHeaders then
    Act.modify fun s => s.updateRequest easy fun req => { req with headersSent := true }
    connSetState i .curlActive
    tryImmediateWrite i
    return true
  else return false

/-- The part of `write_callback` that takes the data apart: what is left of the last chunk is put
before it, the complete lines are processed, and what is left of the last line waits for the next
chunk. -/
def receiveChunk (easy : Easy) (i : ConnId) (chunk : List UInt8) : Loop Bool := do
  match ← ensureSseLine i chunk.length with
  | none => return false
  | some (text, cap) =>
    let (lines, left) := splitLines [] (text ++ chunk)
    updateConn i fun c => { c with sseLine := some (text ++ chunk, cap) }
    if ← processSseLines easy i lines then
      updateConn i fun c => { c with sseLine := some (left, cap) }
      tryImmediateWrite i
      return true
    else return false

/-- `write_callback`; `false` when it returns less than it was given. -/
def writeCallback (req : CurlRequest) (chunk : List UInt8) : Loop Bool := do
  if req.headersSent then receiveChunk req.easy req.conn chunk
  else if ← sendHeaders req.easy req.conn then receiveChunk req.easy req.conn chunk
  else return false

/-! ## Completions -/

/-- `CURLE_OK` with a response that counts. -/
def CurlRequest.success (req : CurlRequest) (done : Finished) : Bool :=
  done.result = 0 ∧ (done.httpCode = 200 ∨ req.headersSent)

/-- Queue the `[DONE]` marker, if there is a write buffer and room in it. -/
def queueDone (i : ConnId) : Loop Unit := do
  match (← connOf i).asyncWriteBuf with
  | none => return ()
  | some wb =>
    match ← writeBufferAppend i wb sseDone with
    | .ok => daemonMarkConnectionDirty i
    | _ => return ()

/-- A response that succeeded and was sent so far is ended with the `[DONE]` marker. -/
def endResponse (req : CurlRequest) (done : Finished) : Loop Unit :=
  if req.success done ∧ req.headersSent then queueDone req.conn else return ()

/-- The body of the loop of `curl_manager_check_completions`, for the message of one handle. -/
def checkCompletion (req : CurlRequest) (done : Finished) : Loop Unit := do
  curlRemoveHandle req.easy
  endResponse req done
  connSetState req.conn .closing
  updateConn req.conn fun c => { c with curlEasy := none }

end SocketHandoff.Uring
