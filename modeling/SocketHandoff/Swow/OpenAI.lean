import SocketHandoff.Php.Forward

/-!
# Answers of an OpenAI API, in the Swow daemon

`streamFromOpenAIHttp1` and `streamFromOpenAIHttp2` run a transfer of their own with `curl_exec`, and
`streamFromOpenAIHttp2Multi` one in a shared multi handle, for whose completion it waits. libcurl is
a parameter: in all three calls it hands the chunks of the body to a callback, whatever the status
is, and the callback aborts the transfer by returning less than it was given.
-/

namespace SocketHandoff.Swow

open Php

/-- `StreamContext`, and what the closures of the other two share. -/
structure StreamContext where
  sent : SentMessages
  sseBuffer : Buffer
  streamEnded : Bool
  success : Bool
  aborted : Bool
  deriving DecidableEq, Repr

def StreamContext.new : StreamContext := ⟨.nothing, ⟨[], false⟩, false, false, false⟩

/-- A write callback, with what it returns; `remembers` when it keeps that it has aborted the
transfer. -/
def onWrite (remembers : Bool) (contentOf : ContentOf) (writes : Writes) (ctx : StreamContext)
    (chunk : List UInt8) : Nat × StreamContext :=
  if ctx.aborted then (0, ctx)
  else
    match receive contentOf writes ctx.sent ctx.sseBuffer chunk with
    | (.waiting, s, b) => (chunk.length, { ctx with sent := s, sseBuffer := b })
    | (.done, s, b) =>
      (chunk.length, { ctx with sent := s, sseBuffer := b, streamEnded := true, success := true })
    | (.gone, s, b) => (0, { ctx with sent := s, sseBuffer := b, aborted := remembers })

/-- `createWriteCallback`. -/
def createWriteCallback := onWrite true

/-- The callback of `streamFromOpenAIHttp1` and `streamFromOpenAIHttp2`. -/
def writeCallback := onWrite false

/-! ## libcurl -/

/-- A write callback: the number it returns, and what it has made of the chunk. -/
abbrev Callback := StreamContext → List UInt8 → Nat × StreamContext

/-- libcurl, as far as the calls see it. -/
structure Curl where
  /-- run a transfer: whether it has succeeded, and what the callback has made of it -/
  perform : Link → Upstream → Callback → StreamContext → Bool × StreamContext
  /-- `CURLINFO_HTTP_CODE` -/
  httpCode : Link → Upstream → Nat

/-- The chunks go to the callback one by one, until it returns another number than it was given; and
whether it has taken them all. -/
def handOver (callback : Callback) (ctx : StreamContext) : List (List UInt8) → Bool × StreamContext
  | [] => (true, ctx)
  | chunk :: rest =>
    if (callback ctx chunk).1 = chunk.length then handOver callback (callback ctx chunk).2 rest
    else (false, (callback ctx chunk).2)

/-- What there is to be handed over. -/
def body (link : Link) (u : Upstream) : List (List UInt8) := if link.ready then u.chunks else []

/-- **What `CURLOPT_WRITEFUNCTION` promises**: the callback is called with the body, chunk by chunk,
and never again after it has refused one, and a transfer of which a chunk was refused has failed.
This says nothing of the other ways in which a transfer can fail. -/
structure Curl.HandsOver (curl : Curl) (link : Link) (u : Upstream) : Prop where
  callback : ∀ callback ctx,
    (curl.perform link u callback ctx).2 = (handOver callback ctx (body link u)).2
  writeError : ∀ callback ctx,
    (handOver callback ctx (body link u)).1 = false → (curl.perform link u callback ctx).1 = false

/-- **What is documented of the status**: it is that of the answer, or 0 where there was none. It is
known as soon as the headers are there, so that it does not tell a whole answer from a broken one. -/
def Curl.Documented (curl : Curl) (link : Link) (u : Upstream) : Prop :=
  curl.httpCode link u = if link.ready then u.status else 0

/-- A libcurl that does as documented. -/
def Curl.asDocumented : Curl where
  perform link u callback ctx :=
    let done := handOver callback ctx (body link u)
    (done.1 && link.ready && u.ending = .endOfBody, done.2)
  httpCode link u := if link.ready then u.status else 0

theorem Curl.asDocumented_handsOver (link : Link) (u : Upstream) :
    Curl.asDocumented.HandsOver link u := by
  constructor
  · intro callback ctx
    rfl
  · intro callback ctx hrefused
    simp only [asDocumented, hrefused, Bool.false_and]

/-! ## The calls -/

/-- `streamFromOpenAIHttp1`, and `streamFromOpenAIHttp2`, which differ in the version they ask for. -/
def streamWithCurl (curl : Curl) (contentOf : ContentOf) (link : Link) (u : Upstream) : Outcome :=
  -- the result of `curl_exec` is not looked at
  let ctx := (curl.perform link u (writeCallback contentOf link.writes) .new).2
  if ctx.streamEnded = false ∧ curl.httpCode link u = 200 then
    ⟨some true, (ctx.sent.write link.writes .done).2⟩
  else ⟨some (ctx.success || curl.httpCode link u = 200), ctx.sent⟩

/-- `streamFromOpenAIHttp1`. -/
def streamFromOpenAIHttp1 := streamWithCurl

/-- `streamFromOpenAIHttp2`. -/
def streamFromOpenAIHttp2 := streamWithCurl

/-- `$onComplete`, with the result and the status of the transfer. -/
def onComplete (writes : Writes) (ctx : StreamContext) (ok : Bool) (code : Nat) : StreamContext :=
  if ctx.streamEnded = false ∧ ctx.aborted = false ∧ code = 200 then
    { ctx with sent := (ctx.sent.write writes .done).2, success := true }
  else if ok = true ∧ code = 200 then { ctx with success := true }
  else ctx

/-- `streamFromOpenAIHttp2Multi`; `ready` when the pool has a multi handle with room. -/
def streamFromOpenAIHttp2Multi (curl : Curl) (contentOf : ContentOf) (link : Link) (u : Upstream) :
    Outcome :=
  if link.ready then
    let done := curl.perform link u (createWriteCallback contentOf link.writes) .new
    if link.timedOut then ⟨some done.2.success, done.2.sent⟩
    else
      let ctx := onComplete link.writes done.2 done.1 (curl.httpCode link u)
      ⟨some ctx.success, ctx.sent⟩
  else .refused

/-! ## What the callback makes of an answer -/

section

variable {contentOf : ContentOf} {writes : Writes} {remembers : Bool} {ctx : StreamContext}

/-- A callback that has met the marker keeps that it has. -/
theorem onWrite_ended (hended : ctx.streamEnded = true) (hsuccess : ctx.success = true)
    (chunk : List UInt8) :
    (onWrite remembers contentOf writes ctx chunk).2.streamEnded = true ∧
      (onWrite remembers contentOf writes ctx chunk).2.success = true := by
  rw [onWrite]
  by_cases haborted : ctx.aborted = true
  · rw [if_pos haborted]
    exact ⟨hended, hsuccess⟩
  · rw [if_neg haborted]
    generalize receive contentOf writes ctx.sent ctx.sseBuffer chunk = out
    obtain ⟨ended, s, b⟩ := out
    cases ended with
    | waiting | gone => exact ⟨hended, hsuccess⟩
    | done => exact ⟨rfl, rfl⟩

/-- So does the transfer. -/
theorem handOver_ended (hended : ctx.streamEnded = true) (hsuccess : ctx.success = true)
    (chunks : List (List UInt8)) :
    (handOver (onWrite remembers contentOf writes) ctx chunks).2.streamEnded = true ∧
      (handOver (onWrite remembers contentOf writes) ctx chunks).2.success = true := by
  induction chunks generalizing ctx with
  | nil => exact ⟨hended, hsuccess⟩
  | cons chunk rest ih =>
    rw [handOver]
    split
    · apply ih
      · exact (onWrite_ended hended hsuccess chunk).1
      · exact (onWrite_ended hended hsuccess chunk).2
    · exact onWrite_ended hended hsuccess chunk

/-- A context that has met neither the marker nor the end of the client. It is the state between two
chunks of an answer that goes on, and all the calls begin with one. -/
structure StreamContext.Open (ctx : StreamContext) : Prop where
  notEnded : ctx.streamEnded = false
  noSuccess : ctx.success = false
  notAborted : ctx.aborted = false
  noMarker : .done ∉ ctx.sent.messages
  unbroken : 10 ∉ ctx.sseBuffer.text

theorem StreamContext.new_open : StreamContext.new.Open :=
  ⟨rfl, rfl, rfl, List.not_mem_nil, List.not_mem_nil⟩

/-- What a transfer has made of the messages of an answer, if `n` were tried before. The number of
writes tried is carried along, because whether the client takes a write may depend on it. -/
inductive Performed (remembers : Bool) (writes : Writes) (n : Nat) (ms : List SseMessage) :
    Bool × StreamContext → Prop
  | ended {ok : Bool} {ctx : StreamContext} : Stays writes n ms → .done ∈ ms →
      ctx.streamEnded = true → ctx.success = true → Performed remembers writes n ms (ok, ctx)
  | gone {ctx : StreamContext} : ¬ Stays writes n ms → ctx.streamEnded = false →
      ctx.success = false → ctx.aborted = remembers → .done ∉ ctx.sent.messages →
      Performed remembers writes n ms (false, ctx)
  | waiting {ctx : StreamContext} : Stays writes n ms → .done ∉ ms → ctx.Open →
      Performed remembers writes n ms (true, ctx)

/-- **A transfer**, as the callback sees it. -/
theorem performed (h : ctx.Open) (chunks : List (List UInt8)) :
    Performed remembers writes ctx.sent.tried
      (messages contentOf ctx.sseBuffer.inHeaders ctx.sseBuffer.text chunks.flatten).1
      (handOver (onWrite remembers contentOf writes) ctx chunks) := by
  induction chunks generalizing ctx with
  | nil =>
    exact .waiting (fun k hk => absurd hk (Nat.not_lt_zero k)) List.not_mem_nil h
  | cons chunk rest ih =>
    obtain ⟨hsent, hbuffer⟩ := receive_eq contentOf writes ctx.sent h.unbroken chunk
    have hmarker := done_mem_deliver writes
      (messages contentOf ctx.sseBuffer.inHeaders ctx.sseBuffer.text chunk).1 ctx.sent h.noMarker
    have haborted : ¬ ctx.aborted = true := by rw [h.notAborted]; exact Bool.false_ne_true
    rw [List.flatten_cons, messages_append, handOver, onWrite, if_neg haborted]
    generalize receive contentOf writes ctx.sent ctx.sseBuffer chunk = out at hsent hbuffer ⊢
    obtain ⟨ended, s', b'⟩ := out
    have hended := (congrArg Prod.fst hsent).symm
    have hs' : s' = (deliver writes ctx.sent
        (messages contentOf ctx.sseBuffer.inHeaders ctx.sseBuffer.text chunk).1).2 :=
      congrArg Prod.snd hsent
    dsimp only at hended hbuffer ⊢
    rw [hended, ← hs'] at hmarker
    cases ended with
    | done =>
      -- what comes after the marker changes neither the end nor the success
      rw [if_pos rfl]
      exact .ended (stays_append_done hended _)
        (List.mem_append_left _ (deliver_done_iff.mp hended).2)
        (handOver_ended rfl rfl rest).1 (handOver_ended rfl rfl rest).2
    | gone =>
      -- no message comes of an empty chunk, so that the callback has returned too little
      have hchunk : chunk ≠ [] := by
        rintro rfl
        exact Ended.noConfusion hended
      rw [if_neg fun hlen => hchunk (List.eq_nil_of_length_eq_zero hlen.symm)]
      exact .gone (not_stays_append hended _) h.notEnded h.noSuccess rfl fun hmem =>
        Ended.noConfusion (hmarker hmem)
    | waiting =>
      have hopen : StreamContext.Open { ctx with sent := s', sseBuffer := b' } :=
        { notEnded := h.notEnded
          noSuccess := h.noSuccess
          notAborted := h.notAborted
          noMarker := fun hmem => Ended.noConfusion (hmarker hmem)
          unbroken := hbuffer rfl ▸ messages_rest h.unbroken chunk }
      have hrest := ih hopen
      have hstays := stays_append hended (messages contentOf
        (messages contentOf ctx.sseBuffer.inHeaders ctx.sseBuffer.text chunk).2.inHeaders
        (messages contentOf ctx.sseBuffer.inHeaders ctx.sseBuffer.text chunk).2.text
        rest.flatten).1
      have hnone := (deliver_waiting_iff.mp hended).2
      obtain rfl := hbuffer rfl
      rw [← hs'] at hstays
      rw [if_pos rfl]
      cases hout : handOver (onWrite remembers contentOf writes)
          { ctx with sent := s', sseBuffer := _ } rest with
      | mk ok ctx' =>
        rw [hout] at hrest
        cases hrest with
        | ended hstays' hdone hended' hsuccess =>
          exact .ended (hstays.mpr hstays') (List.mem_append_right _ hdone) hended' hsuccess
        | gone hgone hended' hsuccess haborted' hnone' =>
          exact .gone (fun h => hgone (hstays.mp h)) hended' hsuccess haborted' hnone'
        | waiting hstays' hnone' hopen' =>
          refine .waiting (hstays.mpr hstays') (fun hmem => ?_) hopen'
          exact (List.mem_append.mp hmem).elim hnone hnone'

variable (contentOf writes remembers) in
/-- **A whole answer**, for a context of its own. -/
theorem performed_new (chunks : List (List UInt8)) :
    Performed remembers writes 0 (messages contentOf false [] chunks.flatten).1
      (handOver (onWrite remembers contentOf writes) .new chunks) :=
  performed StreamContext.new_open chunks

section

variable {n : Nat} {ms : List SseMessage} {out : Bool × StreamContext}

/-- A transfer succeeds at the marker. -/
theorem Performed.success_iff (h : Performed remembers writes n ms out) :
    out.2.success = true ↔ Stays writes n ms ∧ .done ∈ ms := by
  cases h with
  | ended hstays hdone _ hsuccess => exact iff_of_true hsuccess ⟨hstays, hdone⟩
  | gone hgone _ hsuccess => exact iff_of_false (by simp [hsuccess]) fun h => hgone h.1
  | waiting _ hnone hopen => exact iff_of_false (by simp [hopen.noSuccess]) fun h => hnone h.2

/-- It passes no marker on before. -/
theorem Performed.success (h : Performed remembers writes n ms out)
    (hmem : .done ∈ out.2.sent.messages) : out.2.success = true := by
  cases h with
  | ended _ _ _ hsuccess => exact hsuccess
  | gone _ _ _ _ hnone => exact absurd hmem hnone
  | waiting _ _ hopen => exact absurd hmem hopen.noMarker

/-- It takes the whole answer only from a client that stays. -/
theorem Performed.stays (h : Performed remembers writes n ms out) (hok : out.1 = true) :
    Stays writes n ms := by
  cases h with
  | ended hstays => exact hstays
  | gone => cases hok
  | waiting hstays => exact hstays

/-- What the completion finds open. -/
theorem Performed.open_iff (h : Performed true writes n ms out) :
    out.2.streamEnded = false ∧ out.2.aborted = false ↔ Stays writes n ms ∧ .done ∉ ms := by
  cases h with
  | ended _ hdone hended => exact iff_of_false (by simp [hended]) fun h => h.2 hdone
  | gone hgone _ _ haborted => exact iff_of_false (by simp [haborted]) fun h => hgone h.1
  | waiting hstays hnone hopen =>
    exact iff_of_true ⟨hopen.notEnded, hopen.notAborted⟩ ⟨hstays, hnone⟩

end

end

end SocketHandoff.Swow
