import SocketHandoff.Lib.System
import SocketHandoff.Swow.OpenAI
import Mathlib.Data.List.AList

/-!
# The streams of a multi handle, in the Swow daemon

A `CurlMultiManager` with its reader coroutine, and the calls of `streamFromOpenAIHttp2Multi` that
have added a handle to it. A coroutine is only left at `usleep`, `curl_multi_select` and the
operations of a channel. The reader runs the callbacks of all calls, so it is left inside of them
too, where the socket of a client is full.

libcurl is everything that the documentation of the multi interface allows: it may call the write
callback of any handle that has been added and not removed, with any data, and report any of them
as completed. Inside of a write callback it may refuse to add or remove a handle
(`CURLM_RECURSIVE_API_CALL`). It uses what a callback returns to decide what comes next, so that
nothing depends on it here.
-/

namespace SocketHandoff.Swow

open Php

/-! ## Data -/

/-- A call, and the `CurlHandle` and `StreamContext` it has made. -/
abbrev CallId := Nat

/-- What `spl_object_id` returns. A number is used again when its object has been freed. -/
abbrev ObjectId := Nat

structure CurlMultiManager where
  maxStreams : Nat
  activeStreams : Nat
  /-- the handle by its object id -/
  activeHandles : AList fun _ : ObjectId => CallId
  /-- the callback by the object id of its handle -/
  completionCallbacks : AList fun _ : ObjectId => CallId

def CurlMultiManager.new (maxStreams : Nat) : CurlMultiManager := ⟨maxStreams, 0, ∅, ∅⟩

/-- `hasCapacity`. -/
def CurlMultiManager.hasCapacity (m : CurlMultiManager) : Bool := m.activeStreams < m.maxStreams

/-- The tables in `addHandle`. -/
def CurlMultiManager.addHandle (m : CurlMultiManager) (id : ObjectId) (c : CallId) :
    CurlMultiManager :=
  { m with
    activeHandles := m.activeHandles.insert id c
    completionCallbacks := m.completionCallbacks.insert id c
    activeStreams := m.activeStreams + 1 }

/-- `isset($this->activeHandles[$handleId])`. -/
def CurlMultiManager.isset (m : CurlMultiManager) (id : ObjectId) : Bool :=
  (m.activeHandles.lookup id).isSome

/-- The tables in `removeHandleInternal`. -/
def CurlMultiManager.removeHandleInternal (m : CurlMultiManager) (id : ObjectId) :
    CurlMultiManager :=
  if m.isset id then
    { m with
      activeHandles := m.activeHandles.erase id
      completionCallbacks := m.completionCallbacks.erase id
      activeStreams := if m.activeStreams > 0 then m.activeStreams - 1 else m.activeStreams }
  else m

/-- A call of `streamFromOpenAIHttp2Multi`. -/
structure Call where
  /-- the object id of its handle -/
  objectId : ObjectId
  ctx : StreamContext
  /-- there is a value in `completionChannel` -/
  signalled : Bool
  returned : Bool
  /-- `addHandle` has returned `true` -/
  added : Bool
  /-- libcurl has the handle -/
  attached : Bool
  /-- how often `curl_multi_remove_handle` was called for the handle -/
  removed : Nat
  /-- how often its completion callback was called -/
  completed : Nat
  deriving DecidableEq, Repr

/-- Who has called `socketWriteAll`. -/
inductive Task
  /-- the write callback, with a message -/
  | line (m : SseMessage)
  /-- the completion callback, for this handle -/
  | completion (handle : CallId)
  deriving DecidableEq, Repr

/-- Where the reader is. -/
inductive Place
  /-- at `usleep` in its loop -/
  | resting
  /-- at `curl_multi_select` -/
  | selecting
  /-- in `curl_multi_exec` -/
  | driving
  /-- in the loop over `curl_multi_info_read` -/
  | reading
  /-- in the write callback of a call, at the loop over the lines -/
  | lines (c : CallId)
  /-- in `socketWriteAll` for a call, with what is not written yet; at its `usleep` or not -/
  | writing (c : CallId) (task : Task) (rest : List UInt8) (asleep : Bool)
  /-- in the completion callback of a call, before `push` -/
  | pushing (c handle : CallId)
  /-- at `push`, before `removeHandleInternal` -/
  | cleaning (handle : CallId)
  deriving DecidableEq, Repr

/-- Whether other coroutines can run. -/
def Place.switches : Place → Bool
  | .resting | .selecting | .writing _ _ _ true | .cleaning _ => true
  | _ => false

/-- The call whose callback the reader runs. -/
def Place.owner? : Place → Option CallId
  | .lines c | .writing c _ _ _ | .pushing c _ => some c
  | _ => none

/-- The handle that the reader has in a variable. -/
def Place.handle? : Place → Option CallId
  | .lines c | .writing c (.line _) _ _ => some c
  | .writing _ (.completion handle) _ _ | .pushing _ handle | .cleaning handle => some handle
  | _ => none

/-- The handle whose completion the reader handles. -/
def Place.completing? : Place → Option CallId
  | .writing _ (.completion handle) _ _ | .pushing _ handle | .cleaning handle => some handle
  | _ => none

/-- Whether the reader is in a callback of libcurl, with another coroutine running. -/
def Place.inCallback : Place → Bool
  | .writing _ (.line _) _ _ => true
  | _ => false

/-- The reader is in `socketWriteAll` for a call. -/
def Place.WritesFor (p : Place) (c : CallId) : Prop :=
  ∃ task rest asleep, p = .writing c task rest asleep

/-- A call of `socket_write`, with whether the call it is for had returned. -/
structure ClientWrite where
  call : CallId
  late : Bool
  deriving DecidableEq, Repr

/-- The manager, its reader and the calls. -/
structure Streams where
  manager : CurlMultiManager
  calls : List Call
  place : Place
  writes : List ClientWrite

def Streams.new (maxStreams : Nat) : Streams := ⟨.new maxStreams, [], .resting, []⟩

/-! ## Steps -/

/-- What `socket_write` returns. -/
inductive WriteResult
  | accepted (n : Nat)
  /-- 0 -/
  | full
  /-- `false` -/
  | failed
  deriving DecidableEq, Repr

/-- Who moves, and how. -/
inductive Label
  /-- `streamFromOpenAIHttp2Multi`, until `pop`; its handle gets this object id -/
  | call (id : ObjectId) (refused : Bool)
  /-- `pop` returns in a call, and the call returns -/
  | wake (c : CallId)
  /-- `pop` throws in a call, and the call returns -/
  | timeOut (c : CallId) (refused : Bool)
  /-- `usleep` returns -/
  | select
  /-- `curl_multi_select` returns -/
  | exec
  /-- libcurl calls the write callback of a call -/
  | deliver (c : CallId) (data : List UInt8)
  /-- one round of the loop over the lines -/
  | line
  /-- one call of `socket_write` -/
  | write (result : WriteResult)
  /-- `curl_multi_exec` returns -/
  | execDone
  /-- `curl_multi_info_read` returns a handle, with the status of its transfer -/
  | complete (c : CallId) (success : Bool) (httpCode : Nat)
  /-- the completion callback returns -/
  | push
  /-- `handleCompletion` goes on after the callback -/
  | cleanUp
  /-- `curl_multi_info_read` returns `false` -/
  | infoDone
  deriving DecidableEq, Repr

/-- Whether the handle of a call exists: the call has not returned, libcurl or the table has the
handle, or the reader. -/
def Streams.live (s : Streams) (c : CallId) (k : Call) : Bool :=
  !k.returned || k.attached || s.manager.activeHandles.lookup k.objectId = some c ||
    s.place.handle? = some c

/-- Whether there is a handle with this object id. -/
def Streams.inUse (s : Streams) (id : ObjectId) : Bool :=
  s.calls.zipIdx.any fun k => k.1.objectId = id && s.live k.2 k.1

/-- What a call leaves of itself when it is made. -/
def Call.new (id : ObjectId) (added refused : Bool) : Call where
  objectId := id
  ctx := .new
  signalled := false
  returned := !added
  added := added
  attached := added && !refused
  removed := 0
  completed := 0

/-- `removeHandleInternal` for the handle of a call. -/
def Streams.removeHandle (s : Streams) (c : CallId) (k : Call) (refused : Bool) : Streams :=
  { s with
    manager := s.manager.removeHandleInternal k.objectId
    calls :=
      if s.manager.isset k.objectId then
        s.calls.modify c fun k =>
          { k with attached := k.attached && refused, removed := k.removed + 1 }
      else s.calls }

/-- A message that has been written, or not. -/
def Call.afterWrite (k : Call) (m : SseMessage) (written : Bool) : Call :=
  { k with ctx.sent := (k.ctx.sent.write (fun _ => written) m).2 }

/-- What the callback does when `socketWriteAll` has returned. A marker that cannot be written makes
no difference to the result of the call; a line that cannot be written aborts it. -/
def Call.finish (k : Call) (written : Bool) : Task → Call
  | .line .done =>
    let k := k.afterWrite .done written
    { k with ctx.success := true, ctx.streamEnded := true }
  | .line m =>
    let k := k.afterWrite m written
    if written then k else { k with ctx.aborted := true }
  | .completion _ =>
    let k := k.afterWrite .done written
    { k with ctx.success := true }

/-- And where it goes on. -/
def Task.next (c : CallId) (written : Bool) : Task → Place
  | .line .done => .driving
  | .line _ => if written then .lines c else .driving
  | .completion handle => .pushing c handle

/-- `substr($ctx->sseBuffer, 0, $pos)` and `substr($ctx->sseBuffer, $pos + 1)`. -/
def nextLine (text : List UInt8) : Option (List UInt8 × List UInt8) :=
  if text.any (· = 10) then
    some (text.takeWhile (· ≠ 10), (text.dropWhile (· ≠ 10)).drop 1)
  else none

/-- `$onComplete`, until it writes or pushes. -/
def Call.onComplete (k : Call) (c handle : CallId) (success : Bool) (httpCode : Nat) :
    Call × Place :=
  let k := { k with completed := k.completed + 1 }
  if k.ctx.streamEnded = false ∧ k.ctx.aborted = false ∧ httpCode = 200 then
    (k, .writing c (.completion handle) SseMessage.done.text false)
  else if success = true ∧ httpCode = 200 then
    ({ k with ctx.success := true }, .pushing c handle)
  else (k, .pushing c handle)

/-- One step. The reader and the calls are coroutines, which take turns only where one waits
(`Place.switches`); so a call may return while the reader is in its callback. What libcurl does, and
what the client's socket answers, is in the labels; a step that the code or libcurl cannot make has
no result. -/
def Streams.step (contentOf : ContentOf) (s : Streams) : Label → Option Streams
  | .call id refused =>
    if s.place.switches ∧ s.inUse id = false ∧ (refused = true → s.place.inCallback = true) then
      if s.manager.hasCapacity then
        some { s with
          manager := s.manager.addHandle id s.calls.length
          calls := s.calls ++ [.new id true refused] }
      else some { s with calls := s.calls ++ [.new id false refused] }
    else none
  | .wake c =>
    match s.calls[c]? with
    | some k =>
      if s.place.switches ∧ k.returned = false ∧ k.signalled = true then
        some { s with calls := s.calls.modify c fun k => { k with returned := true } }
      else none
    | none => none
  | .timeOut c refused =>
    match s.calls[c]? with
    | some k =>
      if s.place.switches ∧ k.returned = false ∧ k.signalled = false ∧
          (refused = true → s.place.inCallback = true) then
        let s := s.removeHandle c k refused
        some { s with
          calls := s.calls.modify c fun k => { k with ctx.aborted := true, returned := true } }
      else none
    | none => none
  | .select =>
    if s.place = .resting then
      some { s with place := if s.manager.activeHandles.keys = [] then .resting else .selecting }
    else none
  | .exec => if s.place = .selecting then some { s with place := .driving } else none
  | .deliver c data =>
    match s.calls[c]? with
    | some k =>
      if s.place = .driving ∧ k.attached = true then
        if k.ctx.aborted then some s
        else
          some { s with
            calls := s.calls.modify c fun k =>
              { k with ctx.sseBuffer.text := k.ctx.sseBuffer.text ++ data }
            place := .lines c }
      else none
    | none => none
  | .line =>
    match s.place with
    | .lines c =>
      match s.calls[c]? with
      | some k =>
        match nextLine k.ctx.sseBuffer.text with
        | some (line, rest) =>
          some { s with
            calls := s.calls.modify c fun k => { k with ctx.sseBuffer.text := rest }
            place :=
              match messageOf contentOf (rtrim line) with
              | some m => .writing c (.line m) m.text false
              | none => .lines c }
        | none => some { s with place := .driving }
      | none => none
    | _ => none
  | .write result =>
    match s.place with
    | .writing c task rest _ =>
      match s.calls[c]? with
      | some k =>
        let s := { s with writes := s.writes ++ [ClientWrite.mk c k.returned] }
        match result with
        | .accepted n =>
          if n < rest.length then
            if 0 < n then some { s with place := .writing c task (rest.drop n) false } else none
          else if n = rest.length then
            some { s with
              calls := s.calls.modify c fun k => k.finish true task
              place := task.next c true }
          else none
        | .full => some { s with place := .writing c task rest true }
        | .failed =>
          some { s with
            calls := s.calls.modify c fun k => k.finish false task
            place := task.next c false }
      | none => none
    | _ => none
  | .execDone => if s.place = .driving then some { s with place := .reading } else none
  | .complete c success httpCode =>
    match s.calls[c]? with
    | some k =>
      if s.place = .reading ∧ k.attached = true then
        match s.manager.completionCallbacks.lookup k.objectId with
        | some d =>
          match s.calls[d]? with
          | some owner =>
            some { s with
              calls := s.calls.modify d fun k => (k.onComplete d c success httpCode).1
              place := (owner.onComplete d c success httpCode).2 }
          | none => none
        | none => some (s.removeHandle c k false)
      else none
    | none => none
  | .push =>
    match s.place with
    | .pushing c handle =>
      some { s with
        calls := s.calls.modify c fun k => { k with signalled := true }
        place := .cleaning handle }
    | _ => none
  | .cleanUp =>
    match s.place with
    | .cleaning handle =>
      match s.calls[handle]? with
      | some k => some { s.removeHandle handle k false with place := .reading }
      | none => none
    | _ => none
  | .infoDone => if s.place = .reading then some { s with place := .resting } else none

/-- A manager as a system, from where its pool has made it. -/
def streams (contentOf : ContentOf) (maxStreams : Nat) : System Streams Label where
  init s := s = .new maxStreams
  step := Streams.step contentOf

/-! ## The law -/

/-- The handle of a call is in the table. -/
def Streams.Listed (s : Streams) (c : CallId) (k : Call) : Prop :=
  s.manager.activeHandles.lookup k.objectId = some c

/-- **The law of the streams.** The tables have the same handles and their number, within the limit;
each handle is removed once, each call is completed once, and no callback writes for a call that has
returned. -/
structure Streams.Lawful (s : Streams) : Prop where
  sameKeys : ∀ id, id ∈ s.manager.activeHandles ↔ id ∈ s.manager.completionCallbacks
  counted : s.manager.activeStreams = s.manager.activeHandles.keys.length
  bounded : s.manager.activeStreams ≤ s.manager.maxStreams
  /-- a handle is in the table until it is removed, once; and it has been removed when its call has
  returned, unless the reader is about to -/
  removedOnce : ∀ c k, s.calls[c]? = some k → k.added = true →
    s.Listed c k ∧ k.removed = 0 ∧ (k.returned = true → s.place = .cleaning c) ∨
      ¬ s.Listed c k ∧ k.removed = 1
  completedOnce : ∀ k ∈ s.calls, k.completed ≤ 1
  /-- no callback writes for a call that has returned -/
  owned : ∀ w ∈ s.writes, w.late = false

/-- **The condition.** No call times out while the reader writes to its client. Such a call removes
its handle and forgets it, and the reader goes on with a context whose call is over. -/
def Streams.Patient (s : Streams) : Label → Prop
  | .timeOut c _ => ¬ s.place.WritesFor c
  | _ => True

end SocketHandoff.Swow
