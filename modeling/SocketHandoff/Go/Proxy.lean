import SocketHandoff.Go.Respond

/-!
# The proxy of the LangGraph backend

`doLangGraphRun` and `proxySSE` of `backends/langgraph.go`: the request for a run, and the loop that
copies what is read from the upstream to the client. What the upstream does is given from one turn
of the loop to the next.
-/

namespace SocketHandoff.Go

/-- Why a context is done. -/
inductive CtxErr
  | canceled
  | deadlineExceeded
  deriving DecidableEq, Repr

/-- `ctx.Err()`. -/
def CtxErr.error : CtxErr → GoError
  | .canceled => { GoError.plain with canceled := true }
  | .deadlineExceeded => { GoError.plain with deadlineExceeded := true, netError := some true }

/-- The error of a `Read`. -/
inductive ReadEnd
  | eof
  | failed (err : GoError)
  deriving DecidableEq, Repr

/-- What the loop finds, from its next turn on. -/
inductive Upstream
  /-- the context is done -/
  | done (err : CtxErr)
  /-- some bytes, and the loop goes on -/
  | read (chunk : List UInt8) (rest : Upstream)
  /-- some bytes and an error, with the state of the context after it -/
  | last (chunk : List UInt8) (readEnd : ReadEnd) (ctxErr : Option CtxErr)

/-- `WriteSSE` of a chunk that is not empty, with what follows it when there is no error. -/
def relay (total : Int) (chunk : List UInt8) (next : Int → Backend) : Backend :=
  if chunk = [] then next total
  else .setWriteDeadline fun err =>
    match err with
    | some e => .ret total (some e)
    | none => .write chunk fun r =>
      match r.2 with
      | some e => .ret (total + r.1) (some e)
      | none => next (total + r.1)

/-- `proxySSE`, when `total` bytes have been sent. -/
def proxySSE (total : Int) : Upstream → Backend
  | .done err => .ret total (some err.error)
  | .read chunk rest => relay total chunk fun total => proxySSE total rest
  | .last chunk readEnd ctxErr => relay total chunk fun total =>
    match readEnd with
    | .eof => .ret total none
    | .failed err => .ret total (some ((ctxErr.map CtxErr.error).getD err))

/-- The outcome of `postLangGraph`. -/
inductive Post
  | failed (err : GoError)
  | response (status : Nat) (body : Upstream)

/-- `doLangGraphRun`: for a thread that is not found it is created, and the request is made once
more. -/
def doLangGraphRun (threadID : Bool) (post : Post) (ensureThreadExists : Option GoError)
    (again : Post) : Except GoError Upstream :=
  let final : Post → Except GoError Upstream
    | .failed err => .error err
    | .response status body => if status = 200 then .ok body else .error .plain
  match post with
  | .response 404 body =>
    if threadID then
      match ensureThreadExists with
      | some err => .error err
      | none => final again
    else final (.response 404 body)
  | post => final post

/-- `Stream` of the LangGraph backend, from the request on. -/
def langGraphStream (run : Except GoError Upstream) : Backend :=
  match run with
  | .error err => .ret 0 (some err)
  | .ok body => proxySSE 0 body

end SocketHandoff.Go
