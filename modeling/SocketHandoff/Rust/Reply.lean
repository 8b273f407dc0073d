import SocketHandoff.Rust.Stream

/-!
# The reply of the Rust daemon

What a client can find on its connection. The reply of a connection is fixed by its handoff, by the
backend and by the moment of the shutdown: an error response, or the SSE head with a frame for each
chunk and an end. Whatever becomes of the writes, the client has a part of that reply from its
beginning, and all of it when no write has failed.
-/

namespace SocketHandoff.Rust

open Act

/-! ## The reply -/

/-- The contents of the chunks up to the end of the stream, without the empty ones. -/
def contentsOf : List Poll → List (List UInt8)
  | .next (some (.ok chunk)) :: polls =>
    let later := if chunk.done then [] else contentsOf polls
    if chunk.content = [] then later else chunk.content :: later
  | _ => []

/-- What ends a stream. -/
inductive Ending
  /-- a done chunk, or the end of the backend's stream -/
  | completed
  /-- an error of the backend -/
  | error (text : List UInt8)
  | shutdown
  | panic
  /-- nothing: the backend is still waited for -/
  | none
  deriving DecidableEq, Repr

/-- What ends the stream. -/
def endingOf : List Poll → Ending
  | [] => .none
  | .panics :: _ => .panic
  | .shutdown :: _ => .shutdown
  | .next none :: _ => .completed
  | .next (some (.error e)) :: _ => .error e
  | .next (some (.ok chunk)) :: polls => if chunk.done then .completed else endingOf polls

/-- The frame after the content. -/
def closing : Ending → List UInt8
  | .completed => formatSseDone
  | .error e => formatSseError e
  | .shutdown | .panic | .none => []

/-- The frames of the content. -/
def frames (polls : List Poll) : List UInt8 := (contentsOf polls).flatMap formatSseChunk

/-- The reply once the client is connected to its writer. -/
def Env.answer (ω : Env) : List UInt8 :=
  match ω.stream with
  | .stream => sseHeaders ++ frames ω.polls ++ closing (endingOf ω.polls)
  | .err => formatErrorResponse 502 (ascii "Backend unavailable")
  | .timeout => formatErrorResponse 504 (ascii "Backend timeout")
  | .panics => []

/-- The reply of a connection: none where the handoff or the client's socket fails. -/
def Env.reply (ω : Env) : List UInt8 :=
  if ω.receiveHandoff = .ok ∧ ω.setNodelay = .ok ∧ ω.setNonblocking = .ok ∧ ω.fromStd = .ok then
    ω.answer
  else []

/-- **A part of a reply.** What is on the wire begins the reply and is all of it unless a write has
failed, which was the last one then; `bytes_written` counts the writes that succeeded. A reply is
fixed before it is written, so that what is on the wire can be held against it at any time. -/
structure Wire.Speaks (w : Wire) (reply : List UInt8) : Prop where
  begins : w.bytes <+: reply
  complete : (∀ e ∈ w.writes, e.2 = true) → w.bytes = reply
  stops : ∀ e ∈ w.writes.dropLast, e.2 = true
  counted : w.bytesWritten = ((w.writes.filter Prod.snd).flatMap Prod.fst).length

variable {ω : Env} {w : Wire} {sent reply data : List UInt8}

theorem Wire.Sent.speaks (h : w.Sent reply) : w.Speaks reply where
  begins := h.bytes ▸ List.prefix_rfl
  complete _ := h.bytes
  stops e he := h.succeeded e (List.dropLast_subset _ he)
  counted := by rw [List.filter_eq_self.mpr h.succeeded, ← h.passed, h.counted]

theorem Wire.Cut.speaks (h : w.Cut sent) (hsent : sent <+: reply) : w.Speaks reply := by
  obtain ⟨before, data, hwrites, hbefore, -, hcounted⟩ := h.failed
  refine ⟨h.bytes.trans hsent, fun hall => ?_, ?_, ?_⟩
  · -- the last write has failed
    have hlast := hall (data, false) (by rw [hwrites]; simp)
    cases hlast
  · rw [hwrites, List.dropLast_concat]
    exact hbefore
  · rw [hwrites, List.filter_append, List.filter_eq_self.mpr hbefore]
    simp [hcounted]

/-! ## The writer -/

theorem sent_write (data : List UInt8) :
    Triple ω (fun s => s.wire.Sent sent) (writeWithTimeout data) fun ok s =>
      if ok then s.wire.Sent (sent ++ data) else s.wire.Cut (sent ++ data) :=
  Triple.ask fun _ _ hs => hs.write _

theorem speaks_of_write {ok : Bool}
    (hw : if ok then w.Sent reply else w.Cut reply) : w.Speaks reply := by
  cases ok with
  | true => exact Wire.Sent.speaks hw
  | false => exact Wire.Cut.speaks hw List.prefix_rfl

/-! ## The loop -/

/-- The frame of a chunk, none for an empty one. -/
def chunkFrame (chunk : StreamChunk) : List UInt8 :=
  if chunk.content = [] then [] else formatSseChunk chunk.content

/-- The frames that follow the head. -/
def remaining (polls : List Poll) : List UInt8 := frames polls ++ closing (endingOf polls)

theorem frames_cons (chunk : StreamChunk) (polls : List Poll) :
    frames (.next (some (.ok chunk)) :: polls) =
      chunkFrame chunk ++ if chunk.done then [] else frames polls := by
  rw [frames, contentsOf, chunkFrame]
  by_cases hc : chunk.content = [] <;> by_cases hd : chunk.done <;> simp [hc, hd, frames]

theorem remaining_cons (chunk : StreamChunk) (polls : List Poll) :
    remaining (.next (some (.ok chunk)) :: polls) =
      chunkFrame chunk ++ if chunk.done then formatSseDone else remaining polls := by
  rw [remaining, frames_cons, endingOf]
  by_cases hd : chunk.done <;> simp [hd, remaining, closing]

/-- What ends a stream is the first end that is found. -/
theorem endingOf_append (polls later : List Poll) :
    endingOf (polls ++ later) =
      if endingOf polls = .none then endingOf later else endingOf polls := by
  induction polls with
  | nil => rfl
  | cons poll polls ih =>
    rcases poll with _ | (_ | e | chunk) | _
    · rfl
    · rfl
    · rfl
    · rw [List.cons_append, endingOf, endingOf]
      cases chunk.done with
      | true => rfl
      | false => exact ih
    · rfl

/-- Nothing is sent after an end. -/
theorem frames_append (polls later : List Poll) :
    frames (polls ++ later) =
      frames polls ++ if endingOf polls = .none then frames later else [] := by
  induction polls with
  | nil => rfl
  | cons poll polls ih =>
    rcases poll with _ | (_ | e | chunk) | _
    · rfl
    · rfl
    · rfl
    · rw [List.cons_append, frames_cons, frames_cons, endingOf]
      cases chunk.done with
      | true => simp
      | false => simpa using ih
    · rfl

/-- What the loop leaves: the stream has completed and all its frames are sent, or the client has
its part of the reply. -/
def Looped (polls : List Poll) (sent : List UInt8) (completed : Bool) (s : Task) : Prop :=
  if completed then endingOf polls = .completed ∧ s.wire.Sent (sent ++ frames polls)
  else s.wire.Speaks (sent ++ remaining polls)

/-- What the loop leaves when it is left by a panic, or is not left. -/
def Stuck (polls : List Poll) (sent : List UInt8) (_ : Exit) (s : Task) : Prop :=
  s.wire.Speaks (sent ++ remaining polls)

/-- Nothing more is sent where a stream ends in silence. -/
theorem sent_end {polls : List Poll} {s : Task} (hs : s.wire.Sent sent)
    (hr : remaining polls = []) : s.wire.Speaks (sent ++ remaining polls) := by
  rw [hr, List.append_nil]
  exact hs.speaks

variable {chunk : StreamChunk} {polls : List Poll}

theorem looped_done (hd : chunk.done = true) {s : Task}
    (hs : s.wire.Sent (sent ++ chunkFrame chunk)) :
    Looped (.next (some (.ok chunk)) :: polls) sent true s := by
  refine ⟨by rw [endingOf, if_pos hd], ?_⟩
  rw [frames_cons, if_pos hd, List.append_nil]
  exact hs

theorem looped_cons (hd : ¬ chunk.done = true) {completed : Bool} {s : Task}
    (hs : Looped polls (sent ++ chunkFrame chunk) completed s) :
    Looped (.next (some (.ok chunk)) :: polls) sent completed s := by
  rw [Looped, remaining_cons, if_neg hd, frames_cons, if_neg hd, endingOf, if_neg hd,
    ← List.append_assoc, ← List.append_assoc]
  exact hs

theorem stuck_cons (hd : ¬ chunk.done = true) {e : Exit} {s : Task}
    (hs : Stuck polls (sent ++ chunkFrame chunk) e s) :
    Stuck (.next (some (.ok chunk)) :: polls) sent e s := by
  rw [Stuck, remaining_cons, if_neg hd, ← List.append_assoc]
  exact hs

/-- What the loop does when it has written a chunk, or has not. -/
theorem tries_afterChunk (ok : Bool)
    (ih : ∀ sent, Tries ω (fun s => s.wire.Sent sent) (streamLoop polls) (Looped polls sent)
      (Stuck polls sent)) :
    Tries ω (fun s => if ok then s.wire.Sent (sent ++ chunkFrame chunk)
        else s.wire.Cut (sent ++ chunkFrame chunk))
      (if ok = true then if chunk.done = true then pure true else streamLoop polls else pure false)
      (Looped (.next (some (.ok chunk)) :: polls) sent)
      (Stuck (.next (some (.ok chunk)) :: polls) sent) := by
  cases ok with
  | false =>
    refine Tries.pure _ fun s hs => Wire.Cut.speaks hs ?_
    rw [remaining_cons, ← List.append_assoc]
    exact List.prefix_append _ _
  | true =>
    refine Tries.ite (fun _ => Tries.ite (fun hd => ?_) fun hd => ?_) fun h => absurd rfl h
    · exact Tries.pure true fun s hs => looped_done hd hs
    · exact (ih (sent ++ chunkFrame chunk)).conseq (fun _ hs => hs) (fun _ _ => looped_cons hd)
        fun _ _ => stuck_cons hd

/-- **The loop sends the frames of the content.** The induction is on the polls; it ends behind a
frame that could not be written, and no other is written after that. -/
theorem tries_streamLoop (polls : List Poll) (sent : List UInt8) :
    Tries ω (fun s => s.wire.Sent sent) (streamLoop polls) (Looped polls sent)
      (Stuck polls sent) := by
  induction polls generalizing sent with
  | nil => exact Tries.throw _ fun s hs => sent_end hs rfl
  | cons poll polls ih =>
    rcases poll with _ | (_ | e | chunk) | _
    · exact Tries.pure _ fun s hs => sent_end hs rfl
    · exact Tries.pure _ fun s hs => ⟨rfl, by rwa [show frames _ = [] from rfl, List.append_nil]⟩
    · refine Tries.bind (Tries.lift (sent_write _)) fun ok => Tries.pure _ fun s hs => ?_
      exact speaks_of_write hs
    · refine Tries.ite (fun hc => ?_) fun hc => ?_
      · refine Tries.pure_bind (Tries.conseq (tries_afterChunk true ih) (fun s hs => ?_)
          (fun _ _ => id) fun _ _ => id)
        rw [if_pos rfl, chunkFrame, if_pos hc, List.append_nil]
        exact hs
      · refine Tries.bind (Tries.lift ?_) fun ok => tries_afterChunk ok ih
        rw [chunkFrame, if_neg hc]
        exact sent_write _
    · exact Tries.throw _ fun s hs => sent_end hs rfl

/-! ## The connection -/

/-- The error response is all that is sent. -/
theorem speaks_errorResponse (status : Nat) (reason : List UInt8) :
    Triple ω (fun s => s.wire.Sent []) (sendErrorResponse status reason)
      fun _ s => s.wire.Speaks (formatErrorResponse status reason) :=
  Triple.bind (sent_write _) fun _ => Triple.pure () fun _ hs => speaks_of_write hs

/-- What `createStream` leaves: no byte yet, or the error response. -/
theorem tries_createStream :
    Tries ω (fun s => s.wire.Sent []) createStream (fun _ s => ω.stream = .stream ∧ s.wire.Sent [])
      fun _ s => s.wire.Speaks ω.answer := by
  rw [Env.answer]
  refine Tries.read_bind ?_
  cases ω.stream with
  | stream => exact Tries.pure _ fun s hs => ⟨rfl, hs⟩
  | err =>
    exact Tries.bind (Tries.lift (speaks_errorResponse _ _)) fun _ => Tries.throw _ fun s hs => hs
  | timeout =>
    exact Tries.bind (Tries.lift (speaks_errorResponse _ _)) fun _ => Tries.throw _ fun s hs => hs
  | panics => exact Tries.throw _ fun s hs => hs.speaks

section Counters

variable {P : Wire → Prop}

theorem wire_fetchAdd (counter : Counter) (n : Int) :
    Triple ω (fun s => P s.wire) (fetchAdd counter n) fun _ s => P s.wire :=
  Triple.modify fun _ hs => hs

theorem wire_streamStart :
    Triple ω (fun s => P s.wire) streamStart fun _ s => P s.wire := by
  refine Triple.read_bind ?_
  refine Triple.ite (fun _ => ?_) fun _ => wire_fetchAdd _ _
  exact Triple.bind (wire_fetchAdd _ _) fun _ => wire_fetchAdd _ _

theorem wire_benchStreamEnd (completed : Bool) (bytes : Nat) :
    Triple ω (fun s => P s.wire) (benchStreamEnd completed bytes) fun _ s => P s.wire := by
  refine Triple.bind (wire_fetchAdd _ _) fun _ => ?_
  refine Triple.ite (fun _ => ?_) fun _ => ?_
  · exact Triple.bind (wire_fetchAdd _ _) fun _ => wire_fetchAdd _ _
  · exact Triple.bind (wire_fetchAdd _ _) fun _ => wire_fetchAdd _ _

theorem wire_streamEnd (completed : Bool) :
    Triple ω (fun s => P s.wire) (streamEnd completed) fun _ s => P s.wire := by
  refine Triple.read_bind ?_
  refine Triple.ite (fun _ => ?_) fun _ => wire_fetchAdd _ _
  exact Triple.bind (Triple.get fun _ hs => hs) fun _ => wire_benchStreamEnd _ _

end Counters

/-- What `written` leaves. -/
theorem tries_sendHeaders :
    Tries ω (fun s => s.wire.Sent []) (written sendHeaders .stream)
      (fun _ s => s.wire.Sent sseHeaders) fun _ s => s.wire.Cut sseHeaders := by
  have hsent : Triple ω (fun s => s.wire.Sent []) (writeWithTimeout sseHeaders) fun ok s =>
      if ok then s.wire.Sent ([] ++ sseHeaders) else s.wire.Cut ([] ++ sseHeaders) :=
    sent_write sseHeaders
  rw [List.nil_append] at hsent
  refine Tries.bind (Tries.lift hsent) fun ok => ?_
  cases ok with
  | false => exact Tries.throw _ fun s hs => hs
  | true => exact Tries.pure _ fun s hs => hs

/-- **What follows the loop** makes the reply complete. -/
theorem speaks_finishStream (polls : List Poll) (completed : Bool) :
    Triple ω (Looped polls sent completed) (finishStream completed)
      fun _ s => s.wire.Speaks (sent ++ remaining polls) := by
  cases completed with
  | false => exact wire_streamEnd (P := fun w => w.Speaks (sent ++ remaining polls)) false
  | true =>
    refine Triple.assume fun hcompleted => ?_
    refine Triple.bind (sent_write _) fun ok => ?_
    refine Triple.conseq (wire_streamEnd (P := fun w => w.Speaks (sent ++ remaining polls)) true)
      (fun s hs => ?_) fun _ s hs => hs
    rw [remaining, hcompleted, ← List.append_assoc]
    exact speaks_of_write hs

/-- Nothing is sent where there is no reply. -/
theorem speaks_unanswered (h : ω.reply = []) {s : Task} (hs : s.wire.Sent []) :
    s.wire.Speaks ω.reply := by
  rw [h]
  exact hs.speaks

theorem tries_streamToClient (hhandoff : ω.receiveHandoff = .ok) :
    Tries ω (fun s => s.wire.Sent []) streamToClient (fun _ s => s.wire.Speaks ω.reply)
      fun _ s => s.wire.Speaks ω.reply := by
  refine Tries.bind (Tries.lift (wire_streamStart (P := fun w => w.Sent []))) fun _ => ?_
  -- the three calls on the client's socket: without them there is no reply
  refine Tries.bind (tries_question fun hf _ s hs => speaks_unanswered ?_ hs) fun _ =>
    Tries.assume fun hnodelay => ?_
  · simp [Env.reply, hf]
  refine Tries.bind (tries_question fun hf _ s hs => speaks_unanswered ?_ hs) fun _ =>
    Tries.assume fun hnonblocking => ?_
  · simp [Env.reply, hf]
  refine Tries.bind (tries_question fun hf _ s hs => speaks_unanswered ?_ hs) fun _ =>
    Tries.assume fun hfromStd => ?_
  · simp [Env.reply, hf]
  have hreply : ω.reply = ω.answer := if_pos ⟨hhandoff, hnodelay, hnonblocking, hfromStd⟩
  rw [hreply]
  refine Tries.bind tries_createStream fun _ => Tries.assume fun hstream => ?_
  have hanswer : ω.answer = sseHeaders ++ remaining ω.polls := by
    rw [Env.answer, hstream, remaining, ← List.append_assoc]
  rw [hanswer]
  refine Tries.bind (Tries.conseq tries_sendHeaders (fun _ hs => hs) (fun _ _ hs => hs)
    fun _ _ hs => hs.speaks (List.prefix_append _ _)) fun _ => ?_
  refine Tries.read_bind ?_
  exact Tries.bind (tries_streamLoop ω.polls sseHeaders) fun completed =>
    Tries.lift (speaks_finishStream ω.polls completed)

theorem speaks_handle (ω : Env) : (handle.final ω .new).wire.Speaks ω.reply := by
  have htries : Tries ω (fun s => s.wire.Sent []) handleInner
      (fun _ s => s.wire.Speaks ω.reply) fun _ s => s.wire.Speaks ω.reply := by
    refine Tries.bind (tries_question fun hf _ s hs => speaks_unanswered ?_ hs) fun _ =>
      Tries.assume tries_streamToClient
    simp [Env.reply, hf]
  have hrun := Triple.run htries (s := .new) Wire.sent_new
  rcases hresult : handleInner.run.result ω .new with e | a
  · rw [hresult] at hrun
    exact hrun
  · rw [hresult] at hrun
    exact hrun

section Kept

variable {P : Wire → Prop}
  (hP : ∀ w data, P w → P (w.write data (ω.write w.writes.length data)).2)
include hP

theorem kept_write (data : List UInt8) :
    Triple ω (fun s => P s.wire) (writeWithTimeout data) fun _ s => P s.wire :=
  Triple.ask fun _ s hs => hP s.wire data hs

theorem kept_errorResponse (status : Nat) (reason : List UInt8) :
    Triple ω (fun s => P s.wire) (sendErrorResponse status reason) fun _ s => P s.wire :=
  Triple.bind (kept_write hP _) fun _ => Triple.pure () fun _ hs => hs

theorem kept_createStream :
    Tries ω (fun s => P s.wire) createStream (fun _ s => P s.wire) fun _ s => P s.wire := by
  refine Tries.read_bind ?_
  cases ω.stream with
  | stream => exact Tries.pure _ fun _ hs => hs
  | err => exact Tries.bind (Tries.lift (kept_errorResponse hP _ _)) fun _ => Tries.throw _ fun _ => id
  | timeout =>
    exact Tries.bind (Tries.lift (kept_errorResponse hP _ _)) fun _ => Tries.throw _ fun _ => id
  | panics => exact Tries.throw _ fun _ hs => hs

theorem kept_sendHeaders :
    Tries ω (fun s => P s.wire) (written sendHeaders .stream) (fun _ s => P s.wire)
      fun _ s => P s.wire := by
  refine Tries.bind (Tries.lift (kept_write hP _)) fun ok => Tries.ite (fun _ => ?_) fun _ => ?_
  · exact Tries.pure _ fun _ hs => hs
  · exact Tries.throw _ fun _ hs => hs

theorem kept_streamLoop (polls : List Poll) :
    Tries ω (fun s => P s.wire) (streamLoop polls) (fun _ s => P s.wire) fun _ s => P s.wire := by
  induction polls with
  | nil => exact Tries.throw _ fun _ hs => hs
  | cons poll polls ih =>
    rcases poll with _ | (_ | e | chunk) | _
    · exact Tries.pure _ fun _ hs => hs
    · exact Tries.pure _ fun _ hs => hs
    · exact Tries.bind (Tries.lift (kept_write hP _)) fun _ => Tries.pure _ fun _ hs => hs
    · have hrest : ∀ ok : Bool, Tries ω (fun s => P s.wire)
          (if ok = true then if chunk.done = true then pure true else streamLoop polls
            else pure false) (fun _ s => P s.wire) fun _ s => P s.wire := by
        intro ok
        refine Tries.ite (fun _ => Tries.ite (fun _ => ?_) fun _ => ih) fun _ => ?_
        · exact Tries.pure _ fun _ hs => hs
        · exact Tries.pure _ fun _ hs => hs
      refine Tries.ite (fun _ => ?_) fun _ => ?_
      · exact Tries.pure_bind (hrest true)
      · exact Tries.bind (Tries.lift (kept_write hP _)) hrest
    · exact Tries.throw _ fun _ hs => hs

theorem kept_finishStream (completed : Bool) :
    Triple ω (fun s => P s.wire) (finishStream completed) fun _ s => P s.wire := by
  cases completed with
  | false => exact wire_streamEnd false
  | true => exact Triple.bind (kept_write hP _) fun _ => wire_streamEnd true

/-- **The frame rule of a connection**: what every write keeps holds at its end. A property of the
bytes is so proved once for a single write, and not along the branches of the handler. -/
theorem kept_handle (hnew : P .new) : P (handle.final ω .new).wire := by
  have hquestion : ∀ call error, Tries ω (fun s => P s.wire) (question call error)
      (fun _ s => P s.wire) fun _ s => P s.wire := fun call error =>
    (tries_question fun _ _ _ hs => hs).conseq (fun _ => id) (fun _ _ hs => hs.2) fun _ _ => id
  have htries : Tries ω (fun s => P s.wire) handleInner (fun _ s => P s.wire)
      fun _ s => P s.wire := by
    refine Tries.bind (hquestion _ _) fun _ => ?_
    refine Tries.bind (Tries.lift wire_streamStart) fun _ => ?_
    refine Tries.bind (hquestion _ _) fun _ => Tries.bind (hquestion _ _) fun _ =>
      Tries.bind (hquestion _ _) fun _ => Tries.bind (kept_createStream hP) fun _ =>
      Tries.bind (kept_sendHeaders hP) fun _ => Tries.read_bind ?_
    exact Tries.bind (kept_streamLoop hP _) fun completed => Tries.lift (kept_finishStream hP _)
  have hrun := Triple.run htries (s := .new) hnew
  rcases hresult : handleInner.run.result ω .new with e | a
  · rw [hresult] at hrun
    exact hrun
  · rw [hresult] at hrun
    exact hrun

end Kept

/-- Nothing fails between the daemon and the client: the handoff arrives, the client's socket is set
up, and the client takes everything. -/
structure Env.Serves (ω : Env) : Prop where
  receiveHandoff : ω.receiveHandoff = .ok
  setNodelay : ω.setNodelay = .ok
  setNonblocking : ω.setNonblocking = .ok
  fromStd : ω.fromStd = .ok
  write : ∀ n data, ω.write n data = .all

/-- **A client that takes everything** gets the whole answer. -/
theorem Env.Serves.replies (hω : ω.Serves) : (handle.final ω .new).wire.bytes = ω.answer := by
  have hreply : ω.reply = ω.answer :=
    if_pos ⟨hω.receiveHandoff, hω.setNodelay, hω.setNonblocking, hω.fromStd⟩
  rw [← hreply]
  refine (speaks_handle ω).complete ?_
  refine kept_handle (P := fun w => ∀ e ∈ w.writes, e.2 = true) (fun w data hw => ?_) ?_
  · rw [hω.write]
    intro e he
    rcases List.mem_append.mp he with he | he
    · exact hw e he
    · obtain rfl := List.mem_singleton.mp he
      rfl
  · intro e he
    cases he

/-- A client with a handoff that says nothing, and whose connection takes everything. -/
def patient : Env where
  benchmark := false
  receiveHandoff := .ok
  setNodelay := .ok
  setNonblocking := .ok
  fromStd := .ok
  stream := .stream
  write _ _ := .all
  polls := []

theorem serves_patient : patient.Serves := ⟨rfl, rfl, rfl, rfl, fun _ _ => rfl⟩

end SocketHandoff.Rust
