import SocketHandoff.Lib.Sse
import SocketHandoff.Go.Answered

/-!
# Streams that are cut off

The LangGraph backend passes on what it reads wherever it ends, and the daemon appends an error event
to it. The client sees the event when the upstream was cut off between two events, and the error is
not one that looks like that of a client that is gone.
-/

namespace SocketHandoff.Go

open Http

/-! ## The statement -/

/-- The bytes the upstream delivers. -/
def Upstream.bytes : Upstream → List UInt8
  | .done _ => []
  | .read chunk rest => chunk ++ rest.bytes
  | .last chunk _ _ => chunk

/-- The error of `proxySSE`, for a client that takes all it is sent. -/
def Upstream.failure : Upstream → Option GoError
  | .done err => some err.error
  | .read _ rest => rest.failure
  | .last _ .eof _ => none
  | .last _ (.failed err) ctxErr => some ((ctxErr.map CtxErr.error).getD err)

/-- The object in the event of `SendSSEError`. -/
def errorObject (errMsg : List UInt8) : List UInt8 :=
  appendJSONEscaped (ascii "\x7b\"error\":\"") errMsg ++ ascii "\"\x7d"

/-- What the client is sent after the head, with who has written it. -/
def Wire.stream (s : Wire) : List (Source × UInt8) :=
  (s.log.filter fun e => e.source ≠ .head).flatMap fun e =>
    (e.buf.take e.accepted).map (e.source, ·)

/-- The bytes of the upstream, as the client gets them. -/
def Upstream.stream (up : Upstream) : List (Source × UInt8) := up.bytes.map (.content, ·)

/-- The client reads a head, the events of the upstream and one more event, that of the error; every
byte of it has been written by the daemon. The writer of a byte is remembered with it, because an
upstream could send the text of an error event itself. -/
structure ErrorSeen (q : Request) (up : Upstream) (err : GoError) (s : Wire) : Prop where
  head : readHead s.received =
    some (sseHead (q.responseHeaders.filter (Sendable ·)), s.stream.map Prod.snd)
  events : Sse.events Prod.snd s.stream = Sse.events Prod.snd up.stream ++
    [⟨[], [(errorObject (failureMessage err)).map (.event, ·)]⟩]

/-- The upstream is cut off where no event has begun. Otherwise the lines of the error are read as
more lines of that event, for the daemon sends no blank line before them. -/
def Upstream.CutBetween (up : Upstream) : Prop := (Sse.read Prod.snd up.stream).Between

/-! ## What is sent -/

/-- The head has been sent, and this after it. -/
def Relayed (hdr : List UInt8) (stream : List (Source × UInt8)) (s : Wire) : Prop :=
  s.headersSent = true ∧ s.stream = stream ∧ s.received = hdr ++ stream.map Prod.snd

/-- The state of the connection when the backend has passed on these bytes. -/
def Passes (hdr bytes : List UInt8) (s : Wire) : Prop :=
  if bytes = [] then s = .start else Relayed hdr (bytes.map (.content, ·)) s

variable {ω : ClientEnv}

theorem Relayed.write {hdr : List UInt8} {stream : List (Source × UInt8)} (hω : ω.Accepting)
    (source : Source) (hsource : source ≠ .head) (buf : List UInt8) :
    Act.Triple ω (Relayed hdr stream) (connWrite source buf)
      fun r s => r = (buf.length, none) ∧ Relayed hdr (stream ++ buf.map (source, ·)) s := by
  rintro n s ⟨hsent, hstream, hreceived⟩
  refine ⟨by simp [connWrite, hω.write], hsent, ?_, ?_⟩
  · rw [← hstream]
    simp only [connWrite, Act.ask_run, hω.write, Wire.stream, List.filter_append,
      List.flatMap_append, Nat.min_self]
    simp [hsource, List.take_of_length_le]
  · simp only [Wire.received] at hreceived
    simp [connWrite, hω.write, Wire.received, hreceived]

/-- A write of the backend passes on what it is given, after the head if it is the first one. -/
theorem passes_lazyWrite (hω : ω.Accepting) (hdr bytes : List UInt8) {p : List UInt8} (hp : p ≠ []) :
    Act.Triple ω (Passes hdr bytes) (lazyWrite hdr p)
      fun r s => r = (p.length, none) ∧ Passes hdr (bytes ++ p) s := by
  rintro n s hs
  have hne : bytes ++ p ≠ [] := by simp [hp]
  rw [Passes] at hs
  rw [Passes, if_neg hne]
  by_cases hbytes : bytes = []
  · -- the first bytes take the head with them
    obtain rfl : s = .start := by simpa [hbytes] using hs
    cases hwritev : ω.writev n hdr p with
    | some r =>
      obtain rfl := hω.writev n hdr p r hwritev
      simp [Relayed, lazyWrite, writeBuffers, connWritev, hwritev, Wire.start, Wire.received,
        Wire.stream, hbytes, List.take_of_length_le]
    | none =>
      simp [Relayed, lazyWrite, writeBuffers, connWritev, connWrite, hwritev, hω.write, Wire.start,
        Wire.received, Wire.stream, hbytes, List.take_of_length_le]
  · rw [if_neg hbytes] at hs
    have hwrite := Relayed.write hω .content (by simp) p n s hs
    simp only [lazyWrite, Act.bind_run, Act.get_run, hs.1, if_true]
    generalize connWrite .content p ω (n, s) = run at hwrite
    obtain ⟨r, m, t⟩ := run
    obtain ⟨rfl, hsent, hstream, hreceived⟩ := hwrite
    rw [List.map_append]
    exact ⟨rfl, hsent, hstream, hreceived⟩

/-- **The loop of the proxy** passes on all it reads, and returns the error that the upstream ended
with. The induction is on the reads of the upstream. -/
theorem passes_proxySSE (hω : ω.Accepting) (hdr bytes : List UInt8) (up : Upstream) (total : Int) :
    Act.Triple ω (Passes hdr bytes) ((proxySSE total up).stream hdr) fun r s =>
      (∃ n, r = some (n, up.failure)) ∧ Passes hdr (bytes ++ up.bytes) s := by
  -- one chunk, then what is done next with no error
  have hrelay : ∀ (bytes chunk : List UInt8) (total : Int) (next : Int → Backend)
      (Q : Option (Int × Option GoError) → Wire → Prop),
      (∀ total, Act.Triple ω (Passes hdr (bytes ++ chunk)) ((next total).stream hdr) Q) →
        Act.Triple ω (Passes hdr bytes) ((relay total chunk next).stream hdr) Q := by
    intro bytes chunk total next Q hnext
    rw [relay]
    split
    · rename_i hchunk
      simpa [hchunk] using hnext total
    · rename_i hchunk
      rw [Backend.stream]
      refine .bind (Q := fun err s => err = none ∧ Passes hdr bytes s)
        (.ask fun n s hs => ⟨hω.setWriteDeadline n, hs⟩) fun err => ?_
      refine .assume ?_
      rintro rfl
      rw [Backend.stream]
      refine .bind (passes_lazyWrite hω hdr bytes hchunk) fun r => .assume ?_
      rintro rfl
      exact hnext _
  induction up generalizing bytes total with
  | done err =>
    refine .pure _ fun s hs => ⟨⟨_, rfl⟩, ?_⟩
    rwa [Upstream.bytes, List.append_nil]
  | read chunk rest ih =>
    rw [proxySSE, Upstream.bytes, ← List.append_assoc]
    exact hrelay bytes chunk total _ _ fun total => ih (bytes ++ chunk) total
  | last chunk readEnd ctxErr =>
    rw [proxySSE]
    refine hrelay bytes chunk total _ _ fun total => ?_
    cases readEnd with
    | eof => exact .pure _ fun s hs => ⟨⟨_, rfl⟩, hs⟩
    | failed err => exact .pure _ fun s hs => ⟨⟨_, rfl⟩, hs⟩

/-- What the daemon adds for an error. -/
def errorTail (err : GoError) : List (Source × UInt8) :=
  if classifyError err = .clientDisconnected then []
  else (sseErrorEvent (failureMessage err)).map (.event, ·)

theorem relayed_answerFailure (hω : ω.Accepting) (hdr : List UInt8)
    (stream : List (Source × UInt8)) (err : GoError) :
    Act.Triple ω (Relayed hdr stream) (answerFailure err)
      fun _ => Relayed hdr (stream ++ errorTail err) := by
  refine .ite (fun hclass => ?_) fun hclass => .pure _ fun s hs => ?_
  · refine .bind (Q := fun s t => s = t ∧ Relayed hdr stream t) (.get fun s hs => ⟨rfl, hs⟩)
      fun s => ?_
    refine .ite (fun hunsent => ?_) fun _ => ?_
    · rintro n t ⟨rfl, hs⟩
      exact absurd hs.1 hunsent
    · refine .bind (Q := fun _ => Relayed hdr (stream ++ errorTail err)) ?_
        fun r => .pure _ fun s hs => hs
      refine .conseq (P := Relayed hdr stream) ?_ (fun t ht => ht.2) fun _ _ h => h
      refine .bind (Q := fun r s => r = none ∧ Relayed hdr stream s)
        (.ask fun n s hs => ⟨hω.setWriteDeadline n, hs⟩) fun r => .assume ?_
      rintro rfl
      refine .ite (fun h => absurd h (by simp)) fun _ => ?_
      refine .bind (Relayed.write hω _ (by simp) _) fun r => .pure _ fun s hs => ?_
      rw [errorTail, if_neg hclass]
      exact hs.2
  · rw [errorTail, if_pos (not_not.mp hclass), List.append_nil]
    exact hs

/-- **What the client gets** of an upstream that fails: the head, all that the upstream has sent,
and the error event directly behind it. Whether an event is seen there depends on where the
upstream's bytes end. -/
theorem relayed_handleConnection (hω : ω.Accepting) {q : Request} (hq : q.Reached) (up : Upstream)
    (hbackend : q.backend = proxySSE 0 up) (hbytes : up.bytes ≠ []) {err : GoError}
    (herr : up.failure = some err) :
    Relayed q.hdr (up.stream ++ errorTail err) ((handleConnection q).final ω .start) := by
  obtain ⟨hparse, himages, hatts⟩ := hq
  have hstream : Act.Triple ω (Passes q.hdr []) (streamToClientWithBytes q.hdr q.backend)
      fun r s => r.isSome ∧ Relayed q.hdr (up.stream ++ errorTail err) s := by
    rw [hbackend]
    refine .bind (passes_proxySSE hω q.hdr [] up 0) fun r => .assume ?_
    rintro ⟨n, rfl⟩
    refine .bind (Q := fun _ => Relayed q.hdr up.stream) (.get fun s hs => ?_) fun s => ?_
    · rwa [Passes, List.nil_append, if_neg hbytes] at hs
    · rw [herr]
      exact .bind (relayed_answerFailure hω q.hdr up.stream err) fun n =>
        .pure _ fun s hs => ⟨rfl, hs⟩
  have hrun : Act.Triple ω (Passes q.hdr []) (handleConnection q)
      fun _ => Relayed q.hdr (up.stream ++ errorTail err) := by
    simp only [handleConnection, hparse, himages, hatts]
    refine .bind hstream fun r => ?_
    cases r with
    | none => exact .assume fun h => absurd h (by simp)
    | some r => exact .pure _ fun s hs => hs.2
  exact hrun.run (by simp [Passes])

/-! ## What the client reads -/

theorem sseErrorEvent_eq (errMsg : List UInt8) :
    sseErrorEvent errMsg = ascii "data" ++ 58 :: 32 :: errorObject errMsg ++ [10, 10] := by
  rw [sseErrorEvent, errorObject, appendJSONEscaped_eq, appendJSONEscaped_eq]
  simp [ascii]

/-- The text of an error is on one line, whatever it says. -/
theorem unbroken_errorObject (errMsg : List UInt8) : ∀ c ∈ errorObject errMsg, c ≠ 10 ∧ c ≠ 13 :=
  unbroken_escaped (forall_mem_ascii (P := (¬ · < 32)) _ rfl)
    (forall_mem_ascii (P := (¬ · < 32)) _ rfl) errMsg

/-- **Whether the error is seen**, over what has been sent. -/
theorem errorSeen_iff_of_relayed {q : Request} {up : Upstream} {err : GoError} {s : Wire}
    (hbytes : up.bytes ≠ []) (hs : Relayed q.hdr (up.stream ++ errorTail err) s) :
    ErrorSeen q up err s ↔ up.CutBetween ∧ classifyError err ≠ .clientDisconnected := by
  obtain ⟨-, hstream, hreceived⟩ := hs
  have hne : up.stream ≠ [] := by simpa [Upstream.stream] using hbytes
  have hhead : readHead s.received =
      some (sseHead (q.responseHeaders.filter (Sendable ·)), s.stream.map Prod.snd) := by
    have hsendable : ∀ f ∈ q.responseHeaders.filter (Sendable ·), Sendable f :=
      fun f hf => of_decide_eq_true (List.mem_filter.mp hf).2
    rw [hreceived, hstream]
    exact readHead_bytes (clean_sseHead hsendable) _
  -- the events that are read are those of the upstream, and this one
  have hseen : ErrorSeen q up err s ↔ Sse.events Prod.snd (up.stream ++ errorTail err) =
      Sse.events Prod.snd up.stream ++
        [⟨[], [(errorObject (failureMessage err)).map (.event, ·)]⟩] :=
    ⟨fun h => hstream ▸ h.events, fun h => ⟨hhead, hstream ▸ h⟩⟩
  rw [hseen]
  by_cases hclass : classifyError err = .clientDisconnected
  · simp [errorTail, hclass]
  · have htail : errorTail err = (ascii "data").map (.event, ·) ++ (.event, 58) :: (.event, 32) ::
        (errorObject (failureMessage err)).map (.event, ·) ++ [(.event, 10), (.event, 10)] := by
      rw [errorTail, if_neg hclass, sseErrorEvent_eq]
      simp
    have hnew : (errorObject (failureMessage err)).map (.event, ·) ∉
        (Sse.read Prod.snd up.stream).data := by
      intro hmem
      obtain ⟨c, hc⟩ : ∃ c, c ∈ errorObject (failureMessage err) := by
        refine ⟨125, ?_⟩
        simp [errorObject, ascii]
      have hin := (Sse.within_read up.stream).data _ hmem _ (List.mem_map_of_mem hc)
      simp [Upstream.stream] at hin
    have hiff := Sse.events_data_iff Prod.snd (Sse.read Prod.snd up.stream)
      ((ascii "data").map (Source.event, ·)) (.event, 58) (.event, 32) (by simp) rfl rfl ?_ hnew
      (.event, 10) (.event, 10) rfl rfl
    · rw [Sse.events, Sse.events, Sse.read_append (by simp [htail, ascii]) hne, htail, hiff,
        Upstream.CutBetween]
      simp [hclass]
    · intro c hc
      obtain ⟨b, hb, rfl⟩ := List.mem_map.mp hc
      exact unbroken_errorObject _ b hb

/-- **An upstream that fails** after it has delivered something is seen to fail, as an event of its
own, exactly when it is cut off between two events and its error does not look like that of a client
that is gone. -/
theorem errorSeen_iff (hω : ω.Accepting) {q : Request} (hq : q.Reached) {up : Upstream}
    (hbackend : q.backend = proxySSE 0 up) (hbytes : up.bytes ≠ []) {err : GoError}
    (herr : up.failure = some err) :
    ErrorSeen q up err ((handleConnection q).final ω .start) ↔
      up.CutBetween ∧ classifyError err ≠ .clientDisconnected :=
  errorSeen_iff_of_relayed hbytes (relayed_handleConnection hω hq _ hbackend hbytes herr)

/-- An upstream that delivers this, and then says nothing until the time is up. -/
def Upstream.stalls (chunk : List UInt8) : Upstream :=
  .last chunk (.failed .plain) (some .deadlineExceeded)

/-- It has delivered an event: the error is seen. -/
theorem errorSeen_iff_whole :
    let up := Upstream.stalls (ascii "data: x\n\n")
    ErrorSeen (.langGraph (.ok up)) up CtxErr.deadlineExceeded.error
      ((handleConnection (.langGraph (.ok up))).final takesAll .start) := by
  refine (errorSeen_iff accepting_takesAll ⟨rfl, rfl, rfl⟩ rfl ?_ rfl).mpr ⟨?_, ?_⟩
  · simp [Upstream.bytes, Upstream.stalls, ascii]
  · simp only [Upstream.CutBetween]
    decide
  · decide

/-- It has delivered a line but not the end of the event: the error becomes part of it. -/
theorem not_errorSeen :
    let up := Upstream.stalls (ascii "data: x\n")
    ¬ ErrorSeen (.langGraph (.ok up)) up CtxErr.deadlineExceeded.error
      ((handleConnection (.langGraph (.ok up))).final takesAll .start) := by
  intro up h
  have hrelayed := relayed_handleConnection (q := .langGraph (.ok up)) accepting_takesAll
    ⟨rfl, rfl, rfl⟩ up rfl (by simp [up, Upstream.bytes, Upstream.stalls, ascii]) rfl
  have hcut := ((errorSeen_iff_of_relayed (by simp [up, Upstream.bytes, Upstream.stalls, ascii])
    hrelayed).mp h).1
  exact absurd hcut.data (by decide)

end SocketHandoff.Go
