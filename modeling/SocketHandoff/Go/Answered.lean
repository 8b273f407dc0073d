import SocketHandoff.Go.Proxy

/-!
# Clients that get no answer

A client that takes all it is sent gets a complete head, unless the backend returns without having
written anything and the daemon has nothing to say about it: because there is no error, or because
the error looks like that of a client that is gone.
-/

namespace SocketHandoff.Go

open Http

/-! ## The statement -/

/-- A client that stays connected and takes what it is sent. Of a client that does not, nothing can
be asked: whether it has been answered is up to its own end. -/
structure ClientEnv.Accepting (ω : ClientEnv) : Prop where
  write : ∀ n p, ω.write n p = (p.length, none)
  writev : ∀ n hdr p, ∀ r ∈ ω.writev n hdr p, r = (hdr.length + p.length, none)
  setWriteDeadline : ∀ n, ω.setWriteDeadline n = none

/-- A handoff whose descriptor has become a client connection. -/
inductive Visit
  /-- by `rejectHandoff` -/
  | rejected
  /-- by `handleConnection` -/
  | handled (q : Request)

def Visit.serve : Visit → Respond Unit
  | .rejected => rejectHandoff
  | .handled q => handleConnection q

/-- What a backend returns that writes nothing; `none` for one that writes or panics. -/
def Backend.silent : Backend → Option (Option GoError)
  | .ret _ err => some err
  | .panic => none
  | .setWriteDeadline next => (next none).silent
  | .write _ _ => none

/-- The backend is asked for the stream. -/
def Request.Reached (q : Request) : Prop :=
  q.parse = .ok ∧ q.resolveImages = .ok ∧ q.resolveAttachments = .ok

/-- The backend has returned an error before writing anything. -/
def Visit.Failed : Visit → Prop
  | .rejected => False
  | .handled q => q.Reached ∧ ∃ err, q.backend.silent = some (some err)

/-- A status of the classes 4 and 5. -/
def IsError (head : Head) : Prop :=
  ascii "HTTP/1.1 4" <+: head.status ∨ ascii "HTTP/1.1 5" <+: head.status

/-- The client has got a complete head, with an error status if the backend has failed. -/
def Answered (v : Visit) (s : Wire) : Prop :=
  ∃ head rest, readHead s.received = some (head, rest) ∧ (v.Failed → IsError head)

/-- The backend has returned without writing anything, and without an error that the daemon would
answer. -/
def Visit.Unanswered : Visit → Prop
  | .rejected => False
  | .handled q => q.Reached ∧ ∃ err, q.backend.silent = some err ∧
    ∀ e ∈ err, classifyError e = .clientDisconnected

/-! ## Error responses -/

/-- The head of an error response. -/
def errorHead (status : List UInt8) (length : Nat) (extra : List Field) : Head :=
  ⟨ascii "HTTP/1.1 " ++ status, [⟨ascii "Content-Type", ascii "text/plain"⟩,
    ⟨ascii "Content-Length", ascii (toString length)⟩, ⟨ascii "Connection", ascii "close"⟩] ++ extra⟩

theorem errorResponse_eq (status body : List UInt8) (extra : List Field) :
    errorResponse status body (extra.map Field.line) =
      (errorHead status body.length extra).bytes ++ body := by
  simp [errorResponse, errorHead, Head.bytes, Field.line, crlf, ascii, List.flatMap_map]

theorem clean_errorHead {status : List UInt8} (hstatus : OneLine status) (length : Nat)
    {extra : List Field} (hextra : ∀ f ∈ extra, f.Clean) : (errorHead status length extra).Clean := by
  have hdigits : OneLine (ascii (toString length)) := by
    intro c hc
    have hc := Json.isDigit_toString length c hc
    constructor <;> rintro rfl <;> simp [isDigit] at hc
  refine ⟨.append (by simp [OneLine, ascii]) hstatus, by simp [errorHead, ascii], fun f hf => ?_⟩
  simp only [errorHead, List.cons_append, List.nil_append, List.mem_cons] at hf
  rcases hf with rfl | rfl | rfl | hf
  · exact ⟨by simp [OneLine, ascii], by simp [OneLine, ascii], by simp [ascii]⟩
  · exact ⟨by simp [OneLine, ascii], hdigits, by simp [ascii]⟩
  · exact ⟨by simp [OneLine, ascii], by simp [OneLine, ascii], by simp [ascii]⟩
  · exact hextra f hf

theorem errorResponse_ne_nil (status body : List UInt8) (extra : List (List UInt8)) :
    errorResponse status body extra ≠ [] := by
  simp [errorResponse, ascii]

section Accepting

variable {ω : ClientEnv}

/-- **An error response arrives** at a client that has been sent nothing. -/
theorem received_writeErrorResponse (hω : ω.Accepting) (status body : List UInt8)
    (extra : List (List UInt8)) (n : Nat) {s : Wire} (hlog : s.log = []) :
    (writeErrorResponse status body extra ω (n, s)).2.2.received =
      errorResponse status body extra := by
  have hne := errorResponse_ne_nil status body extra
  simp only [writeErrorResponse, setWriteDeadline, Act.bind_run, Act.ask_run, hω.setWriteDeadline,
    writeAll]
  generalize errorResponse status body extra = buf at hne
  obtain ⟨fuel, hfuel⟩ := Nat.exists_eq_add_one_of_ne_zero
    (Nat.pos_iff_ne_zero.mp (List.length_pos_iff.mpr hne))
  -- the first write takes it all, and nothing is left for a second one
  have hrest : ∀ (fuel written n : Nat) (s : Wire),
      (writeAllFrom fuel written [] ω (n, s)).2.2 = s := by
    intro fuel written n s
    cases fuel <;> simp [writeAllFrom]
  simp [hfuel, writeAllFrom, hne, connWrite, hω.write, hlog, Wire.received]
  simp [← hfuel, hrest]

/-- What the client gets as an error response reads as one. -/
theorem answered_writeErrorResponse (hω : ω.Accepting) (status body : List UInt8)
    (extra : List Field) (hstatus : OneLine status) (hextra : ∀ f ∈ extra, f.Clean)
    (herr : status.head? = some 52 ∨ status.head? = some 53) (v : Visit) (n : Nat) {s : Wire}
    (hlog : s.log = []) :
    Answered v (writeErrorResponse status body (extra.map Field.line) ω (n, s)).2.2 := by
  refine ⟨errorHead status body.length extra, body, ?_, fun _ => ?_⟩
  · rw [received_writeErrorResponse hω status body _ n hlog, errorResponse_eq]
    exact readHead_bytes (clean_errorHead hstatus _ hextra) body
  · obtain ⟨c, tail, rfl⟩ : ∃ c tail, status = c :: tail := by
      cases status with
      | nil => simp at herr
      | cons c tail => exact ⟨c, tail, rfl⟩
    simp only [List.head?_cons, Option.some.injEq] at herr
    rcases herr with rfl | rfl
    · exact .inl ⟨tail, by simp [errorHead, ascii]⟩
    · exact .inr ⟨tail, by simp [errorHead, ascii]⟩

/-! ## Streams -/

/-- The head of the stream has arrived. -/
def Begun (hdr : List UInt8) (s : Wire) : Prop :=
  s.headersSent = true ∧ hdr <+: s.received

theorem Begun.write {hdr : List UInt8} (source : Source) (buf : List UInt8) :
    Act.Triple ω (Begun hdr) (connWrite source buf) fun _ => Begun hdr := by
  rintro n s ⟨hsent, hin⟩
  refine ⟨hsent, hin.trans ?_⟩
  simp [connWrite, Wire.received]

theorem Begun.sendSSEError {hdr : List UInt8} (errMsg : List UInt8) :
    Act.Triple ω (Begun hdr) (sendSSEError errMsg) fun _ => Begun hdr := by
  refine .bind (Q := fun _ => Begun hdr) (.ask fun n s hs => hs) fun err => ?_
  refine .ite (fun _ => .pure _ fun s hs => hs) fun _ => ?_
  exact .bind (Begun.write .event _) fun r => .pure _ fun s hs => hs

/-- A write of the backend, after the head. -/
theorem Begun.lazyWrite {hdr : List UInt8} (hdr' p : List UInt8) :
    Act.Triple ω (Begun hdr) (lazyWrite hdr' p) fun _ => Begun hdr := by
  refine .bind (Q := fun s t => s = t ∧ Begun hdr t) (.get fun s hs => ⟨rfl, hs⟩) fun s => ?_
  refine .ite (fun hsent => ?_) fun hsent => ?_
  · refine .bind (.conseq (Begun.write .content p) (fun t ht => ht.2) fun _ _ h => h) fun r => ?_
    exact .bind (.modify fun t ht => ht) fun _ => .pure _ fun t ht => ht
  · rintro n t ⟨rfl, hs⟩
    exact absurd hs.1 hsent

theorem Begun.stream {hdr : List UInt8} (hdr' : List UInt8) (backend : Backend) :
    Act.Triple ω (Begun hdr) (backend.stream hdr') fun _ => Begun hdr := by
  induction backend with
  | ret bodyBytes err => exact .pure _ fun s hs => hs
  | panic => exact .pure _ fun s hs => hs
  | setWriteDeadline next ih =>
    rw [Backend.stream]
    exact .bind (Q := fun _ => Begun hdr) (.ask fun n s hs => hs) fun err => ih err
  | write p next ih =>
    rw [Backend.stream]
    exact .bind (Begun.lazyWrite hdr' p) fun r => ih r

theorem Begun.answerFailure {hdr : List UInt8} (err : GoError) :
    Act.Triple ω (Begun hdr) (answerFailure err) fun _ => Begun hdr := by
  refine .ite (fun _ => ?_) fun _ => .pure _ fun s hs => hs
  refine .bind (Q := fun s t => s = t ∧ Begun hdr t) (.get fun s hs => ⟨rfl, hs⟩) fun s => ?_
  refine .ite (fun hunsent => ?_) fun _ => ?_
  · rintro n t ⟨rfl, hs⟩
    exact absurd hs.1 hunsent
  · exact .bind (.conseq (Begun.sendSSEError _) (fun t ht => ht.2) fun _ _ h => h)
      fun r => .pure _ fun s hs => hs

/-- **The first write** brings the head, whatever the bytes are, if the client takes everything.
From then on no status can be sent any more. -/
theorem begun_lazyWrite (hω : ω.Accepting) (hdr p : List UInt8) (n : Nat) :
    Begun hdr (lazyWrite hdr p ω (n, .start)).2.2 := by
  cases hwritev : ω.writev n hdr p with
  | some r =>
    obtain rfl := hω.writev n hdr p r hwritev
    simp [Begun, lazyWrite, writeBuffers, connWritev, hwritev, Wire.start, Wire.received]
  | none =>
    simp [Begun, lazyWrite, writeBuffers, connWritev, connWrite, hwritev, hω.write, Wire.start,
      Wire.received]

/-- A backend that writes nothing leaves the connection as it is; any other one brings the head, or
panics before. -/
theorem stream_cases (hω : ω.Accepting) (hdr : List UInt8) (backend : Backend) (n : Nat) :
    let run := backend.stream hdr ω (n, .start)
    (∃ bodyBytes err, backend.silent = some err ∧ run.1 = some (bodyBytes, err) ∧
        run.2.2 = .start) ∨
      backend.silent = none ∧ (run.1 = none ∧ run.2.2 = .start ∨ Begun hdr run.2.2) := by
  induction backend generalizing n with
  | ret bodyBytes err => exact .inl ⟨bodyBytes, err, rfl, rfl, rfl⟩
  | panic => exact .inr ⟨rfl, .inl ⟨rfl, rfl⟩⟩
  | setWriteDeadline next ih =>
    have hnext := ih none (n + 1)
    simpa [Backend.stream, setWriteDeadline, hω.setWriteDeadline, Backend.silent] using hnext
  | write p next ih =>
    refine .inr ⟨rfl, .inr ?_⟩
    have hfirst := begun_lazyWrite hω hdr p n
    exact Begun.stream hdr (next (lazyWrite hdr p ω (n, .start)).1) _ _ hfirst

/-- The answer to a backend's error, where nothing has been written. -/
theorem answered_answerFailure (hω : ω.Accepting) {err : GoError}
    (herr : classifyError err ≠ .clientDisconnected) (v : Visit) (n : Nat) :
    Answered v (answerFailure err ω (n, .start)).2.2 := by
  have hrun : (answerFailure err ω (n, .start)).2.2 =
      (writeErrorResponse (failureStatus err).1 (failureStatus err).2 [] ω (n, .start)).2.2 := by
    simp [answerFailure, herr, Wire.start]
  have hstatus : OneLine (failureStatus err).1 ∧ (failureStatus err).1.head? = some 53 := by
    rw [failureStatus]
    split
    · exact ⟨by simp [OneLine, ascii], rfl⟩
    · split
      · exact ⟨by simp [OneLine, ascii], rfl⟩
      · exact ⟨by simp [OneLine, ascii], rfl⟩
  rw [hrun]
  exact answered_writeErrorResponse hω _ _ [] hstatus.1 (by simp) (.inr hstatus.2) v n rfl

theorem Begun.answered {q : Request} {s : Wire} (h : Begun q.hdr s)
    (hsilent : q.backend.silent = none) : Answered (.handled q) s := by
  obtain ⟨rest, hrest⟩ := h.2
  have hsendable : ∀ f ∈ q.responseHeaders.filter (Sendable ·), Sendable f :=
    fun f hf => of_decide_eq_true (List.mem_filter.mp hf).2
  refine ⟨sseHead (q.responseHeaders.filter (Sendable ·)), rest, ?_, fun ⟨_, err, herr⟩ => ?_⟩
  · rw [← hrest]
    exact readHead_bytes (clean_sseHead hsendable) rest
  · rw [hsilent] at herr
    cases herr

theorem answered_recovered (hω : ω.Accepting) (lc : Bool) (v : Visit) (n : Nat) :
    Answered v (recovered lc ω (n, .start)).2.2 := by
  have hrun : (recovered lc ω (n, .start)).2.2 = (writeErrorResponse
      (ascii "500 Internal Server Error") (ascii "Internal server error\n") [] ω
      (n, .start)).2.2 := by
    simp [recovered, Wire.start]
  rw [hrun]
  exact answered_writeErrorResponse hω _ _ [] (by simp [OneLine, ascii]) (by simp)
    (.inr rfl) v n rfl

theorem answered_badRequest (hω : ω.Accepting) (body : List UInt8) (v : Visit) (n : Nat) :
    Answered v (badRequest body ω (n, .start)).2.2 :=
  answered_writeErrorResponse hω _ body [] (by simp [OneLine, ascii]) (by simp) (.inl rfl)
    v n rfl

theorem answered_rejectHandoff (hω : ω.Accepting) (v : Visit) (n : Nat) :
    Answered v (rejectHandoff ω (n, .start)).2.2 := by
  have h := answered_writeErrorResponse hω (ascii "503 Service Unavailable")
    (ascii "Service temporarily unavailable, please retry\n")
    [⟨ascii "Retry-After", ascii "1"⟩] (by simp [OneLine, ascii]) (fun f hf => ?_)
    (.inr rfl) v n (s := .start) rfl
  · exact h
  · obtain rfl := List.mem_singleton.mp hf
    exact ⟨by simp [OneLine, ascii], by simp [OneLine, ascii], by simp [ascii]⟩

/-- A client that has been sent nothing has no answer. -/
theorem not_answered_start (v : Visit) : ¬ Answered v .start := by
  rintro ⟨head, rest, hread, -⟩
  simp [Wire.received, Wire.start, readHead, readLines] at hread

/-- The stream of a backend that writes nothing. -/
theorem streamToClient_silent {hdr : List UInt8} {backend : Backend} {n : Nat} {bodyBytes : Int}
    {err : Option GoError} (hret : (backend.stream hdr ω (n, .start)).1 = some (bodyBytes, err))
    (hsame : (backend.stream hdr ω (n, .start)).2.2 = .start) :
    let run := streamToClientWithBytes hdr backend ω (n, .start)
    run.1.isSome ∧ run.2.2 = match err with
      | none => .start
      | some e => (answerFailure e ω ((backend.stream hdr ω (n, .start)).2.1, .start)).2.2 := by
  have hpair : (backend.stream hdr ω (n, .start)).2 =
      ((backend.stream hdr ω (n, .start)).2.1, .start) := Prod.ext rfl hsame
  cases err with
  | none => simp [streamToClientWithBytes, hret, hsame]
  | some e =>
    simp only [streamToClientWithBytes, Act.bind_run, hret]
    rw [hpair]
    simp

/-- The stream of a backend that panics. -/
theorem streamToClient_panic {hdr : List UInt8} {backend : Backend} {n : Nat}
    (hret : (backend.stream hdr ω (n, .start)).1 = none) :
    (streamToClientWithBytes hdr backend ω (n, .start)).1 = none ∧
      (streamToClientWithBytes hdr backend ω (n, .start)).2 =
        (backend.stream hdr ω (n, .start)).2 := by
  simp [streamToClientWithBytes, hret]

/-- The rest of the stream, once the head has arrived. -/
theorem begun_streamToClient {hdr : List UInt8} {backend : Backend} {n : Nat}
    (h : Begun hdr (backend.stream hdr ω (n, .start)).2.2) :
    Begun hdr (streamToClientWithBytes hdr backend ω (n, .start)).2.2 := by
  simp only [streamToClientWithBytes, Act.bind_run]
  generalize backend.stream hdr ω (n, .start) = run at h
  obtain ⟨r, m, s⟩ := run
  match r with
  | none => exact h
  | some (bodyBytes, none) => exact h
  | some (bodyBytes, some e) => exact Begun.answerFailure e m s h

theorem Begun.recovered {hdr : List UInt8} :
    Act.Triple ω (Begun hdr) (recovered true) fun _ => Begun hdr := by
  refine .bind (Q := fun s t => s = t ∧ Begun hdr t) (.get fun s hs => ⟨rfl, hs⟩) fun s => ?_
  refine .ite (fun _ => ?_) fun hunsent => ?_
  · exact .bind (.conseq (Begun.sendSSEError _) (fun t ht => ht.2) fun _ _ h => h)
      fun r => .pure _ fun s hs => hs
  · rintro n t ⟨rfl, hs⟩
    exact absurd ⟨rfl, hs.1⟩ hunsent

/-- The stream is answered unless the backend leaves nothing to answer. -/
theorem answered_stream_iff (hω : ω.Accepting) {q : Request} (hq : q.Reached) :
    Answered (.handled q) ((handleConnection q).final ω .start) ↔
      ¬ (Visit.handled q).Unanswered := by
  obtain ⟨hparse, himages, hatts⟩ := hq
  have hreached : q.Reached := ⟨hparse, himages, hatts⟩
  have hrun : (handleConnection q).final ω .start =
      match streamToClientWithBytes q.hdr q.backend ω (0, .start) with
      | (some _, st) => st.2
      | (none, st) => (recovered true ω st).2.2 := by
    simp only [handleConnection, hparse, himages, hatts, Act.final, Act.bind_run]
    generalize streamToClientWithBytes q.hdr q.backend ω (0, .start) = run
    obtain ⟨r, st⟩ := run
    cases r <;> rfl
  rcases stream_cases hω q.hdr q.backend 0 with ⟨bodyBytes, err, hsilent, hret, hsame⟩ |
      ⟨hsilent, hrest⟩
  · obtain ⟨hsome, hstate⟩ := streamToClient_silent hret hsame
    have hfinal : (handleConnection q).final ω .start =
        (streamToClientWithBytes q.hdr q.backend ω (0, .start)).2.2 := by
      rw [hrun]
      revert hsome
      generalize streamToClientWithBytes q.hdr q.backend ω (0, .start) = run
      obtain ⟨r, st⟩ := run
      cases r with
      | none =>
        intro h
        cases h
      | some r => exact fun _ => rfl
    rw [hfinal, hstate]
    cases err with
    | none =>
      have hun : (Visit.handled q).Unanswered := ⟨hreached, none, hsilent, by simp⟩
      exact ⟨fun h => absurd h (not_answered_start _), fun h => absurd hun h⟩
    | some e =>
      by_cases hclass : classifyError e = .clientDisconnected
      · have hun : (Visit.handled q).Unanswered := by
          refine ⟨hreached, some e, hsilent, fun e' he' => ?_⟩
          obtain rfl := Option.some.inj he'
          exact hclass
        have hnothing : ∀ m, (answerFailure e ω (m, .start)).2.2 = .start := by
          simp [answerFailure, hclass]
        simp only [hnothing]
        exact ⟨fun h => absurd h (not_answered_start _), fun h => absurd hun h⟩
      · refine ⟨fun _ => ?_, fun _ => answered_answerFailure hω hclass _ _⟩
        rintro ⟨-, err, herr, hall⟩
        obtain rfl := Option.some.inj (hsilent.symm.trans herr)
        exact hclass (hall e rfl)
  · have hanswered : ¬ (Visit.handled q).Unanswered := by
      rintro ⟨-, err, herr, -⟩
      rw [hsilent] at herr
      cases herr
    refine ⟨fun _ => hanswered, fun _ => ?_⟩
    rcases hrest with ⟨hpanic, hsame⟩ | hbegun
    · obtain ⟨hnone, hst⟩ := streamToClient_panic hpanic
      have hfinal : ∃ m, (handleConnection q).final ω .start =
          (recovered true ω (m, .start)).2.2 := by
        refine ⟨(streamToClientWithBytes q.hdr q.backend ω (0, .start)).2.1, ?_⟩
        have hstate : (streamToClientWithBytes q.hdr q.backend ω (0, .start)).2.2 = .start := by
          rw [hst]
          exact hsame
        rw [hrun]
        revert hnone hstate
        generalize streamToClientWithBytes q.hdr q.backend ω (0, .start) = run
        obtain ⟨r, m, s⟩ := run
        rintro rfl rfl
        rfl
      obtain ⟨m, hm⟩ := hfinal
      rw [hm]
      exact answered_recovered hω true _ m
    · have hstream := begun_streamToClient hbegun
      refine Begun.answered (s := (handleConnection q).final ω .start) ?_ hsilent
      rw [hrun]
      revert hstream
      generalize streamToClientWithBytes q.hdr q.backend ω (0, .start) = run
      obtain ⟨r, m, s⟩ := run
      intro hstream
      cases r with
      | none => exact Begun.recovered m s hstream
      | some r => exact hstream

/-- **A live client gets an answer** exactly when the daemon has something to say: unless the
backend writes nothing and returns no error, or one that looks like that of a client that is gone.
The daemon tells the two ends of the proxy apart by the error alone, so that a reset by the upstream
counts as one by the client. -/
theorem answered_iff (hω : ω.Accepting) (v : Visit) :
    Answered v (v.serve.final ω .start) ↔ ¬ v.Unanswered := by
  match v with
  | .rejected => exact ⟨fun _ h => h, fun _ => answered_rejectHandoff hω _ 0⟩
  | .handled q =>
    by_cases hq : q.Reached
    · exact answered_stream_iff hω hq
    · refine ⟨fun _ h => hq h.1, fun _ => ?_⟩
      -- a stage before the stream has answered
      simp only [Visit.serve, Act.final, handleConnection]
      cases hparse : q.parse with
      | rejected => exact answered_badRequest hω _ _ 0
      | panicked => exact answered_recovered hω false _ 0
      | ok =>
        cases himages : q.resolveImages with
        | rejected => exact answered_badRequest hω _ _ 0
        | panicked => exact answered_recovered hω false _ 0
        | ok =>
          cases hatts : q.resolveAttachments with
          | rejected => exact answered_badRequest hω _ _ 0
          | panicked => exact answered_recovered hω false _ 0
          | ok => exact absurd ⟨hparse, himages, hatts⟩ hq

/-- The client of a test that takes all it is sent. -/
def takesAll : ClientEnv := ⟨fun _ p => (p.length, none), fun _ _ _ => none, fun _ => none⟩

theorem accepting_takesAll : takesAll.Accepting := ⟨fun _ _ => rfl, by simp [takesAll], fun _ => rfl⟩

/-- A handoff for the LangGraph backend, with what its request for a run comes to. -/
def Request.langGraph (run : Except GoError Upstream) : Request :=
  ⟨.ok, .ok, .ok, [], langGraphStream run⟩

/-- The upstream cannot be reached: the client gets an error. -/
theorem answered_iff_refused : Answered (.handled (.langGraph (.error .plain)))
    ((Visit.handled (.langGraph (.error .plain))).serve.final takesAll .start) := by
  refine (answered_iff accepting_takesAll _).mpr ?_
  rintro ⟨-, err, herr, hall⟩
  obtain rfl := Option.some.inj herr
  exact absurd (hall _ rfl) (by decide)

/-- The upstream answers 200 with an empty body. -/
def Request.emptyAnswer : Request :=
  .langGraph (doLangGraphRun false (.response 200 (.last [] .eof none)) none (.failed .plain))

/-- The upstream resets the connection before it answers. -/
def Request.resetAnswer : Request :=
  .langGraph (doLangGraphRun false
    (.failed { GoError.plain with errno := some .econnreset, netError := some false }) none
    (.failed .plain))

/-- In both cases the client gets nothing. -/
theorem not_answered :
    ¬ Answered (.handled .emptyAnswer) ((handleConnection .emptyAnswer).final takesAll .start) ∧
      ¬ Answered (.handled .resetAnswer)
        ((handleConnection .resetAnswer).final takesAll .start) := by
  refine ⟨fun h => ?_, fun h => ?_⟩
  · exact (answered_stream_iff accepting_takesAll ⟨rfl, rfl, rfl⟩).mp h
      ⟨⟨rfl, rfl, rfl⟩, none, rfl, by simp⟩
  · refine (answered_stream_iff accepting_takesAll ⟨rfl, rfl, rfl⟩).mp h
      ⟨⟨rfl, rfl, rfl⟩, _, rfl, fun e he => ?_⟩
    obtain rfl := Option.some.inj he
    rfl

end Accepting

end SocketHandoff.Go
