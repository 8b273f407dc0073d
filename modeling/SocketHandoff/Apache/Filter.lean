import SocketHandoff.Apache.Connect
import SocketHandoff.Apache.PathCheck

/-!
# The output filter

`socket_handoff_output_filter` with its cleanup label, and `socket_handoff_insert_filter`. The
code between the header lookup and the label is `handOff`; it returns what the label works on:
the status (0 is `APR_SUCCESS`), the daemon socket if one is still open, and the brigade.
-/

namespace SocketHandoff.Apache

/-- `HTTP_FORBIDDEN`. -/
def httpForbidden : Nat := 403

/-- `HTTP_INTERNAL_SERVER_ERROR`. -/
def httpInternalServerError : Nat := 500

/-- `HTTP_SERVICE_UNAVAILABLE`. -/
def httpServiceUnavailable : Nat := 503

/-- `ap_get_status_line`: httpd answers for an unknown code as for 500. -/
def apGetStatusLine (status : Nat) : String :=
  if status = httpForbidden then "403 Forbidden"
  else if status = httpServiceUnavailable then "503 Service Unavailable"
  else "500 Internal Server Error"

/-- A header of the response, from `headers_out` or else from `err_headers_out`. -/
def responseHeader (r : Request) (name : HeaderName) : Option CStr :=
  match aprTableGet r.headersOut name with
  | some value => some value
  | none => aprTableGet r.errHeadersOut name

/-- `strlen` of the handoff data, 0 without any. -/
def handoffDataLen (data : Option CStr) : Nat :=
  match data with
  | some text => text.strlen
  | none => 0

/-- The loop that deletes every bucket of a brigade. -/
def deleteBuckets : Brigade → Brigade
  | [] => []
  | _ :: rest => deleteBuckets rest

@[simp] theorem deleteBuckets_eq_nil (bb : Brigade) : deleteBuckets bb = [] := by
  induction bb with
  | nil => rfl
  | cons _ rest ih => exact ih

/-- The locals of the filter that its cleanup label reads. -/
structure Locals where
  /-- `APR_SUCCESS` or the HTTP status of the error response -/
  status : Nat
  /-- `daemon_sock`, with `none` for -1 -/
  daemonSock : Option Fd
  bb : Brigade

/-- `validate_socket_path` on the file system of the moment. -/
def validatePath (conf : Config) (socketPath : CStr) : Worker Bool :=
  Act.ask fun ω n w => (validateSocketPath (ω.aprFilepathMerge n) conf socketPath, w)

/-- `c->aborted = 1`. -/
def setAborted : Worker Unit :=
  Act.modify fun w => { w with conn := { w.conn with aborted := true } }

/-- The filter from `connect_with_retry` on. What it returns are the local variables at the end of
the function: the status to report, the socket to the daemon that is still open, and the brigade.
Only a message that has gone out commits the handoff: then the socket to the daemon is closed, the
connection gets the dummy socket in place of the client's, and counts as aborted. -/
def connectThenSend (conf : Config) (socketPath : CStr) (handoffData : Option CStr)
    (dummySocket clientFd : Nat) (bb : Brigade) (deadline : Int) : Worker Locals := do
  match ← connectWithRetry socketPath conf.connectTimeoutMs conf.maxRetries deadline with
  | none => return ⟨httpServiceUnavailable, none, bb⟩
  | some daemonSock =>
    match ← sendFdWithData daemonSock clientFd handoffData (handoffDataLen handoffData)
        conf.sendTimeoutMs deadline with
    | (.error _, false) => return ⟨httpInternalServerError, some daemonSock, bb⟩
    | (_, _) =>
      -- the descriptor is with the daemon, completely or not: commit
      closeCall daemonSock
      apSetCoreModuleConfig dummySocket
      setAborted
      return ⟨0, none, bb⟩

/-- The filter once the client descriptor is known and the dummy socket is at hand. -/
def connectAndSend (conf : Config) (socketPath : CStr) (handoffData : Option CStr)
    (dummySocket clientFd : Nat) (bb : Brigade) : Worker Locals := do
  let deadline ← computeHandoffDeadline conf
  connectThenSend conf socketPath handoffData dummySocket clientFd bb deadline

/-- The filter between the lookup of the header and its cleanup label. -/
def handOff (conf : Config) (socketPath : CStr) (bb : Brigade) : Worker Locals := do
  let r := (← Act.get).request
  if r.protoNum ≥ 2000 then
    return ⟨httpInternalServerError, none, bb⟩
  else if !(← validatePath conf socketPath) then
    return ⟨httpForbidden, none, bb⟩
  else
    let handoffData := responseHeader r .handoffData
    match ← aprSocketCreate with
    | none => return ⟨httpInternalServerError, none, bb⟩
    | some dummySocket =>
      let bb := deleteBuckets bb
      match ← apGetConnSocket with
      | none => return ⟨httpInternalServerError, none, bb⟩
      | some clientSocket =>
        match ← aprOsSockGet clientSocket with
        | none => return ⟨httpInternalServerError, none, bb⟩
        | some clientFd => connectAndSend conf socketPath handoffData dummySocket clientFd bb

/-- The body of an error response. -/
def errorBody (status : Nat) : String :=
  "<!DOCTYPE html>\n<html><body><h1>" ++ apGetStatusLine status ++ "</h1></body></html>\n"

/-- The request as the error path leaves it: both header tables cleared. -/
def Request.failed (r : Request) (status : Nat) : Request :=
  { r with
    status := status
    statusLine := none
    headersOut := []
    errHeadersOut := []
    contentType := some "text/html; charset=utf-8" }

/-- The error path of the cleanup label: what is left of the brigade gives way to the error
response. -/
def passError (status : Nat) (bb : Brigade) : Worker Int := do
  let bb := deleteBuckets bb
  Act.modify fun w => { w with request := w.request.failed status }
  apPassBrigade (bb ++ [.transient (errorBody status)] ++ [.eos])

/-- `if (daemon_sock >= 0) close(daemon_sock);` -/
def closeDaemonSock : Option Fd → Worker Unit
  | some sock => closeCall sock
  | none => pure ()

/-- The cleanup label. -/
def cleanup (l : Locals) : Worker Int := do
  closeDaemonSock l.daemonSock
  apRemoveOutputFilter
  if l.status ≠ 0 then passError l.status l.bb
  else return 0

/-- `socket_handoff_output_filter`. -/
def socketHandoffOutputFilter (conf : Config) (bb : Brigade) : Worker Int := do
  match responseHeader (← Act.get).request .handoff with
  | none =>
    apRemoveOutputFilter
    apPassBrigade bb
  | some socketPath => cleanup (← handOff conf socketPath bb)

/-- `socket_handoff_insert_filter`. -/
def socketHandoffInsertFilter (conf : Config) : Worker Unit :=
  Act.modify fun w =>
    if w.request.subrequest then w
    else if conf.enabled then { w with filter := true }
    else w

/-- The handler passes a brigade down the chain: to the module's filter while that is in the
chain, otherwise to the filter below it. -/
def outputBrigade (conf : Config) (bb : Brigade) : Worker Int := do
  if (← Act.get).filter then socketHandoffOutputFilter conf bb
  else apPassBrigade bb

/-- The handler passes a sequence of brigades, whatever the filters return. -/
def outputBrigades (conf : Config) : List Brigade → Worker Unit
  | [] => return ()
  | bb :: rest => do
    let _ ← outputBrigade conf bb
    outputBrigades conf rest

/-! ## A calm environment -/

/-- An environment in which every call succeeds at once and no time passes between two readings of
the clock. The examples of a successful handoff run in it. -/
def Env.calm : Env where
  idle _ := 0
  lag _ := 0
  socket _ := .ok 9
  fcntl _ := .ok 0
  connect _ := .ok ()
  poll _ := ⟨[], 0, .ready false⟩
  getsockopt _ := .ok none
  sendmsg _ payload := .ok payload.length
  nanosleep _ := 0
  aprSocketCreate _ := some 2
  aprOsSockGet _ := some 5
  aprFilepathMerge _ _ path := some path
  apPassBrigade _ := 0

/-- A request for which PHP set `X-Socket-Handoff: /run/a`. -/
def Request.php : Request where
  subrequest := false
  protoNum := 1001
  headersOut := [(.handoff, ⟨[47, 114, 117, 110, 47, 97], by decide⟩)]
  errHeadersOut := []
  status := 200
  statusLine := none
  contentType := none

/-- A worker about to send the first output of a request, with the module's filter in the
chain. -/
def World.start (r : Request) : World where
  now := 0
  overflow := false
  reading := 0
  askedMs := 0
  trace := []
  request := r
  conn := ⟨some 1, false⟩
  filter := true
  below := []

end SocketHandoff.Apache
