import SocketHandoff.Uring.Backend
import SocketHandoff.Uring.Region
import SocketHandoff.Uring.Relay

/-!
# What a client may believe

A client that reads the headers of a stream takes it that the API has answered with 200, and one
that reads the `[DONE]` marker that the answer is complete. `Honest` says that both are so, and
here is when they are, for the curl manager and for a worker of the thread pool.
-/

namespace SocketHandoff.Uring

/-! ## Honesty -/

/-- **Honest.** The headers stand for a status of 200, and the marker for all the frames of a
transfer that was ended well. `stream` is what comes before the marker; a client that gets no marker
is told nothing, so nothing is asked of what it got. -/
structure Honest (status : Nat) (completed : Prop) (chunks : List (List UInt8))
    (stream : List UInt8) (marked : Prop) : Prop where
  headers : sseHeaders <+: stream → status = 200
  marker : marked → status = 200 ∧ completed ∧ stream = sseHeaders ++ sseFrames (responseLines chunks)

/-! ## A response through the curl manager -/

/-- What the daemon may do between two calls of libcurl for a request: the request and the line
buffer of its connection wait, and a write buffer that is there is worked on. -/
structure Meanwhile (easy : Easy) (i : ConnId) (s t : Daemon) : Prop where
  request : t.curl.request? easy = s.curl.request? easy
  line : (t.connections i).sseLine = (s.connections i).sseLine
  buffer : (t.connections i).asyncWriteBuf.isSome = (s.connections i).asyncWriteBuf.isSome
  sound : (t.relay easy i).Sound

/-- A call of `write_callback`, with the answers of the environment in it. -/
structure Call where
  chunk : List UInt8
  ω : Env

/-- The call finds memory for a write buffer. -/
def Call.Allocates (call : Call) : Prop := call.ω.malloc 0 = true ∧ call.ω.malloc 1 = true

/-- What a step puts behind the bytes that wait for the client. -/
def queuedFor (easy : Easy) (i : ConnId) (s t : Daemon) : List UInt8 :=
  (t.relay easy i).unsent.drop (s.relay easy i).unsent.length

/-- The calls libcurl makes for a request, and what they queue for the client. What happens between
them is in `M`: it is a parameter, for what may happen there is the concern of whoever uses the
relation. -/
inductive Transfer (M : Daemon → Daemon → Prop) (easy : Easy) (i : ConnId) :
    List Call → List UInt8 → Daemon → Prop
  | start {s : Daemon} {req : CurlRequest} : s.curl.request? easy = some req → req.conn = i →
      req.headersSent = false → req.aborted = false → req.finished = none →
      (s.connections i).asyncWriteBuf = none → (s.connections i).sseLine = none →
      Transfer M easy i [] [] s
  | call {calls : List Call} {out : List UInt8} {s t u : Daemon} {call : Call} :
      Transfer M easy i calls out s → M s t →
      step t (.curlWrite easy call.chunk call.ω) = some u →
      Transfer M easy i (calls ++ [call]) (out ++ queuedFor easy i t u) u

/-- A request is answered: `stream` has been queued for the client when the transfer ends, and
`marker` when its message is read. -/
inductive Answered (easy : Easy) (i : ConnId) (calls : List Call) (done : Finished)
    (stream marker : List UInt8) : Prop
  | intro {s t u v w : Daemon} {ω : Env} : Transfer (Meanwhile easy i) easy i calls stream s →
      Meanwhile easy i s t → step t (.curlFinish easy done) = some u → Meanwhile easy i u v →
      step v (.message easy ω) = some w → marker = queuedFor easy i v w →
      Answered easy i calls done stream marker

/-! ### Steps -/

variable {easy : Easy} {i : ConnId} {s t u : Daemon}

theorem step_curlWrite {chunk : List UInt8} {ω : Env}
    (h : step t (.curlWrite easy chunk ω) = some u) :
    ∃ req, t.curl.request? easy = some req ∧ req.aborted = false ∧ req.finished = none ∧
      u = t.exec (curlDeliver req chunk) ω := by
  simp only [step] at h
  cases hpc : t.pc with
  | curl kick =>
    simp only [loopStep, hpc, curlStep] at h
    cases hreq : t.curl.request? easy with
    | none => simp [hreq] at h
    | some req =>
      simp only [hreq, Option.ite_none_left_eq_some, Option.some.injEq, not_or] at h
      obtain ⟨⟨ha, hf⟩, rfl⟩ := h
      exact ⟨req, rfl, by simpa using ha, by simpa using hf, rfl⟩
  | _ => simp [loopStep, hpc] at h

theorem step_curlFinish {done : Finished} (h : step t (.curlFinish easy done) = some u) :
    ∃ req, t.curl.request? easy = some req ∧ (done.result = 0 → req.aborted = false) ∧
      u = t.updateRequest easy fun req => { req with finished := some done } := by
  simp only [step] at h
  cases hpc : t.pc with
  | curl kick =>
    simp only [loopStep, hpc, curlStep] at h
    cases hreq : t.curl.request? easy with
    | none => simp [hreq] at h
    | some req =>
      simp only [hreq, Option.ite_none_left_eq_some, Option.some.injEq, not_or, not_and] at h
      obtain ⟨⟨-, ha⟩, rfl⟩ := h
      exact ⟨req, rfl, fun h0 => by simpa using fun h => ha h h0, rfl⟩
  | _ => simp [loopStep, hpc] at h

theorem step_message {ω : Env} (h : step t (.message easy ω) = some u) :
    ∃ req done, t.curl.request? easy = some req ∧ req.finished = some done ∧
      u = t.exec (checkCompletion req done) ω := by
  simp only [step] at h
  cases hpc : t.pc with
  | completions =>
    simp only [loopStep, hpc] at h
    cases hreq : t.curl.request? easy with
    | none => simp [hreq] at h
    | some req =>
      cases hfin : req.finished with
      | none => simp [hreq, hfin] at h
      | some done =>
        simp only [hreq, hfin, Option.some.injEq] at h
        exact ⟨req, done, rfl, hfin, h.symm⟩
  | _ => simp [loopStep, hpc, curlStep] at h

theorem easy_of_request? {req : CurlRequest} (h : t.curl.request? easy = some req) :
    req.easy = easy := by
  simpa using List.find?_some h

/-! ### The invariant of a transfer -/

/-- **What holds during a transfer.** -/
structure Underway (easy : Easy) (i : ConnId) (calls : List Call) (out : List UInt8) (s : Daemon)
    (req : CurlRequest) : Prop where
  request : s.curl.request? easy = some req
  conn : req.conn = i
  running : req.finished = none
  sound : (s.relay easy i).Sound
  /-- the headers are sent by the first call that finds memory for them -/
  headed : req.headersSent = true ↔ ∃ call ∈ calls, call.Allocates
  bare : req.headersSent = false → (s.connections i).asyncWriteBuf = none ∧ out = [] ∧
    (req.aborted = false → (calls.map (·.chunk)).flatten = [])
  sent : req.headersSent = true → (s.connections i).asyncWriteBuf.isSome ∧ sseHeaders <+: out
  part : out <+: sseHeaders ++ sseFrames (responseLines (calls.map (·.chunk)))
  /-- unless libcurl was told to stop, all that came has been passed on -/
  complete : req.aborted = false →
    (s.relay easy i).text = responseRest (calls.map (·.chunk)) ∧
      (req.headersSent = true →
        out = sseHeaders ++ sseFrames (responseLines (calls.map (·.chunk))))

theorem Underway.meanwhile {calls : List Call} {out : List UInt8} {req : CurlRequest}
    (h : Underway easy i calls out s req) (hm : Meanwhile easy i s t) :
    Underway easy i calls out t req := by
  have htext : (t.relay easy i).text = (s.relay easy i).text := by
    simp only [Relay.text, Daemon.relay, hm.line]
  refine ⟨hm.request.trans h.request, h.conn, h.running, hm.sound, h.headed, fun hs => ?_, fun hs => ?_,
    h.part, fun ha => ?_⟩
  · obtain ⟨hnone, hrest⟩ := h.bare hs
    refine ⟨?_, hrest⟩
    rw [← Option.isNone_iff_eq_none, ← Option.not_isSome, hm.buffer, hnone]
    rfl
  · rw [hm.buffer]
    exact h.sent hs
  · rw [htext]
    exact h.complete ha

/-- The request of the relay, with its count put back. -/
theorem request?_of_relay {req : CurlRequest}
    (h : (t.relay easy i).request = some { req with chunkCount := 0 }) :
    ∃ n, t.curl.request? easy = some { req with chunkCount := n } := by
  simp only [Daemon.relay, Option.map_eq_some_iff] at h
  obtain ⟨req', hreq', he⟩ := h
  refine ⟨req'.chunkCount, ?_⟩
  rw [hreq']
  cases req'
  cases req
  simp_all

/-- What `libcurl` makes of the callback. -/
theorem curlDeliver_final {req : CurlRequest} {chunk : List UInt8} {ω : Env} (n : Nat) :
    (curlDeliver req chunk ω (n, t)).2.2 =
      if (writeCallback req chunk ω (n, t)).1 = true ∨ chunk = [] then
        (writeCallback req chunk ω (n, t)).2.2
      else (writeCallback req chunk ω (n, t)).2.2.updateRequest req.easy
        fun req => { req with aborted := true } := by
  cases hok : (writeCallback req chunk ω (n, t)).1 with
  | true => simp [curlDeliver, hok]
  | false =>
    by_cases hc : chunk = []
    · simp [curlDeliver, hc]
    · simp [curlDeliver, hok, hc]

/-- A call with its answers, as the relay of the request sees it. -/
theorem call_cases {calls : List Call} {out : List UInt8} {req : CurlRequest} {call : Call}
    (h : Underway easy i calls out t req)
    (hstep : step t (.curlWrite easy call.chunk call.ω) = some u) :
    req.aborted = false ∧ ∃ ok r',
      (u.relay easy i) = (if ok = true ∨ call.chunk = [] then r'
        else { r' with request := r'.request.map fun req => { req with aborted := true } }) ∧
      ((ok = false ∧ req.headersSent = false ∧ ¬ call.Allocates ∧ r' = t.relay easy i) ∨
        ((req.headersSent = true ∨ call.Allocates) ∧
          ∃ out, (t.relay easy i).Passed call.ω req.headersSent call.chunk ok out r')) := by
  obtain ⟨req₀, hreq, hab, -, rfl⟩ := step_curlWrite hstep
  obtain rfl : req₀ = req := Option.some.inj (hreq.symm.trans h.request)
  have heasy := easy_of_request? hreq
  subst heasy
  obtain rfl := h.conn
  have hr := h.sound
  have hrel : (t.relay req₀.easy req₀.conn).request = some { req₀ with chunkCount := 0 } := by
    simp [Daemon.relay, hreq]
  have hheaded : req₀.headersSent = false → (t.relay req₀.easy req₀.conn).headed.request ≠
      (t.relay req₀.easy req₀.conn).request := by
    intro hs heq
    rw [Relay.headed, hrel, Option.map_some, Option.some.injEq] at heq
    have hsame := congrArg CurlRequest.headersSent heq
    rw [hs] at hsame
    cases hsame
  have htook := @Relays.writeCallback call.ω _ _ call.chunk hr hrel
    (fun hs => (h.sent hs).1) 0 t rfl
  have hmem := fun hs => @writeCallback_memory call.ω _ call.chunk _ hr hs (h.bare hs).1
  refine ⟨hab, (writeCallback req₀ call.chunk call.ω (0, t)).1,
    (writeCallback req₀ call.chunk call.ω (0, t)).2.2.relay req₀.easy req₀.conn, ?_, ?_⟩
  · rw [Daemon.exec, Act.final, curlDeliver_final]
    split
    · rfl
    · exact relay_updateRequest _ (fun _ => rfl) fun _ => rfl
  · cases hs : req₀.headersSent with
    | true =>
      rw [hs] at htook
      exact .inr ⟨.inl rfl, htook.passed (by simp)⟩
    | false =>
      have hmem := hmem hs
      rw [hs] at htook
      by_cases ha : call.Allocates
      · rw [if_pos (by simpa [Call.Allocates] using ha)] at hmem
        refine .inr ⟨.inr ha, htook.passed fun _ => ?_⟩
        rw [hmem]
        exact hheaded hs
      · rw [if_neg (by simpa [Call.Allocates] using ha)] at hmem
        exact .inl ⟨hmem.1, rfl, ha, hmem.2⟩

/-- **What holds during a transfer is kept by its next call.** Where no allocation fails and the
write buffer was empty before, libcurl stops exactly if it becomes too large. -/
theorem Underway.call {calls : List Call} {out : List UInt8} {req : CurlRequest} {call : Call}
    (h : Underway easy i calls out t req)
    (hstep : step t (.curlWrite easy call.chunk call.ω) = some u) :
    ∃ req', Underway easy i (calls ++ [call]) (out ++ queuedFor easy i t u) u req' ∧
      (call.ω.Generous → (t.relay easy i).Drained → (req'.aborted = true ↔ writeBufferMaxSize <
        (chunkHead req.headersSent ++ chunkFrames (t.relay easy i).text call.chunk).length)) := by
  obtain ⟨hab, ok, r', hu, hcases⟩ := call_cases h hstep
  have hreq : (t.relay easy i).request = some { req with chunkCount := 0 } := by
    simp [Daemon.relay, h.request]
  have hbuf : (u.connections i).asyncWriteBuf = r'.buffer := by
    have hb := congrArg Relay.buffer hu
    split at hb <;> exact hb
  have hunsent : (u.relay easy i).unsent = r'.unsent := by rw [hu]; split <;> rfl
  have htext : (u.relay easy i).text = r'.text := by rw [hu]; split <;> rfl
  have hsound : r'.Sound → (u.relay easy i).Sound := by
    intro hs
    rw [hu]
    split <;> exact hs
  rcases hcases with ⟨rfl, hs, hmem, rfl⟩ | ⟨hhead, X, hpassed⟩
  · -- there is no memory, and nothing has changed
    have hqueued : queuedFor easy i t u = [] := by
      rw [queuedFor, hunsent, List.drop_length]
    obtain ⟨hnone, hout, hflat⟩ := h.bare hs
    have hrequest : ∃ req', u.curl.request? easy = some req' ∧ req'.conn = req.conn ∧
        req'.finished = none ∧ req'.headersSent = false ∧
        (req'.aborted = false → call.chunk = []) := by
      by_cases hc : call.chunk = []
      · rw [if_pos (.inr hc)] at hu
        obtain ⟨n, hn⟩ := request?_of_relay (hu ▸ hreq)
        exact ⟨_, hn, rfl, h.running, hs, fun _ => hc⟩
      · rw [if_neg (by simp [hc])] at hu
        obtain ⟨n, hn⟩ := @request?_of_relay _ _ u { req with aborted := true }
          (by rw [hu]; simp [hreq])
        exact ⟨_, hn, rfl, h.running, hs, by simp⟩
    obtain ⟨req', hreq', hconn, hrunning, hs', hopen⟩ := hrequest
    have hheaded : ¬ ∃ c ∈ calls, c.Allocates := fun hc => by simp [h.headed.mpr hc] at hs
    have hflat' : req'.aborted = false → ((calls ++ [call]).map (·.chunk)).flatten = [] := by
      intro ha
      simp [hflat hab, hopen ha]
    rw [hqueued, List.append_nil]
    refine ⟨req', ⟨hreq', hconn.trans h.conn, hrunning, hsound h.sound, ?_,
      fun _ => ⟨hbuf.trans hnone, hout, hflat'⟩, fun hs'' => by simp [hs'] at hs'',
      by rw [hout]; exact List.nil_prefix, fun ha => ⟨?_, fun hs'' => by simp [hs'] at hs''⟩⟩,
      fun hg => absurd ⟨hg.malloc 0, hg.malloc 1⟩ hmem⟩
    · rw [hs']
      refine ⟨by simp, ?_⟩
      rintro ⟨c, hc, hca⟩
      rcases List.mem_append.mp hc with hc | hc
      · exact absurd ⟨c, hc, hca⟩ hheaded
      · rw [List.mem_singleton.mp hc] at hca
        exact absurd hca hmem
    · have htext' : (t.relay easy i).text = responseRest (calls.map (·.chunk)) := (h.complete hab).1
      rw [htext, htext', List.map_append, List.map_singleton, hopen ha, responseRest_concat_nil]
  · have hqueued : queuedFor easy i t u = chunkHead req.headersSent ++ X := by
      rw [queuedFor, hunsent, hpassed.unsent, List.drop_left]
    have hrequest : ∃ req', u.curl.request? easy = some req' ∧ req'.conn = req.conn ∧
        req'.finished = none ∧ req'.headersSent = true ∧
        (req'.aborted = false → ok = true ∨ call.chunk = []) ∧
        (req'.aborted = true → ok = false) := by
      have hr' : r'.request = some { req with
          chunkCount := 0
          headersSent := true } := by
        rw [hpassed.request, Relay.headed, hreq]
        rfl
      by_cases hc : ok = true ∨ call.chunk = []
      · rw [if_pos hc] at hu
        obtain ⟨n, hn⟩ := @request?_of_relay _ _ u { req with headersSent := true }
          (by rw [hu]; exact hr')
        exact ⟨_, hn, rfl, h.running, rfl, fun _ => hc, fun ha => absurd ha (by simp [hab])⟩
      · rw [if_neg hc] at hu
        obtain ⟨n, hn⟩ := @request?_of_relay _ _ u
          { req with headersSent := true, aborted := true } (by rw [hu, hr']; rfl)
        exact ⟨_, hn, rfl, h.running, rfl, by simp, fun _ => by simpa using (not_or.mp hc).1⟩
    obtain ⟨req', hreq', hconn, hrunning, hs', hopen, hstop⟩ := hrequest
    have hfirst : out ++ chunkHead req.headersSent =
        if req.headersSent then out else sseHeaders := by
      cases hs : req.headersSent with
      | true => simp [chunkHead]
      | false =>
        rw [chunkHead, if_neg Bool.false_ne_true, if_neg Bool.false_ne_true, (h.bare hs).2.1,
          List.nil_append]
    rw [hqueued, ← List.append_assoc, hfirst]
    have hstart : (if req.headersSent then out else sseHeaders) =
        sseHeaders ++ sseFrames (responseLines (calls.map (·.chunk))) := by
      cases hs : req.headersSent with
      | true => exact (h.complete hab).2 hs
      | false =>
        rw [responseLines_of_flatten ((h.bare hs).2.2 hab)]
        exact (List.append_nil _).symm
    have htext₀ := (h.complete hab).1
    refine ⟨req', ⟨hreq', hconn.trans h.conn, hrunning, hsound hpassed.sound, ?_,
      fun hs'' => by simp [hs'] at hs'', fun _ => ⟨hbuf ▸ hpassed.buffer, ?_⟩, ?_, fun ha => ?_⟩,
      fun hg hd => ⟨fun ha => ?_, fun hlt => ?_⟩⟩
    · refine ⟨fun _ => ?_, fun _ => hs'⟩
      rcases hhead with hs | hmem
      · obtain ⟨c, hc, hca⟩ := h.headed.mp hs
        exact ⟨c, List.mem_append_left _ hc, hca⟩
      · exact ⟨call, by simp, hmem⟩
    · cases hs : req.headersSent with
      | true => exact (h.sent hs).2.trans (List.prefix_append _ _)
      | false => exact List.prefix_append _ _
    · rw [hstart, List.map_append, List.map_singleton, sseFrames_concat, ← List.append_assoc,
        List.prefix_append_right_inj, ← htext₀]
      exact hpassed.part
    · have hX : X = chunkFrames (responseRest (calls.map (·.chunk))) call.chunk ∧
          r'.text = responseRest (calls.map (·.chunk) ++ [call.chunk]) := by
        cases ok with
        | true =>
          obtain ⟨hX, hrest⟩ := hpassed.all rfl
          rw [htext₀] at hX hrest
          exact ⟨hX, hrest.trans (responseRest_concat _ _).symm⟩
        | false =>
          -- libcurl goes on although the call failed: there was nothing in it
          have hnil : call.chunk = [] := (hopen ha).resolve_left (by decide)
          have hpart := hpassed.part
          have hbroke := (hpassed.broke rfl).1
          rw [htext₀, hnil, chunkFrames_nil] at hpart hbroke
          rw [hnil, chunkFrames_nil, responseRest_concat_nil]
          exact ⟨List.prefix_nil.mp hpart, hbroke rfl⟩
      rw [htext, List.map_append, List.map_singleton]
      refine ⟨hX.2, fun _ => ?_⟩
      rw [hstart, hX.1, sseFrames_concat, List.append_assoc]
    · have hlt := (hpassed.broke (hstop ha)).2 hg hd.packed
      rwa [hd.unsent, List.length_nil, Nat.zero_add] at hlt
    · refine Bool.of_not_eq_false fun ha => ?_
      rcases hopen ha with hok | hnil
      · have hle := hpassed.sound.length_unsent_le
        rw [hpassed.unsent, hd.unsent, List.nil_append, (hpassed.all hok).1] at hle
        omega
      · rw [hnil, htext₀, chunkFrames_nil, List.append_nil, writeBufferMaxSize, chunkHead] at hlt
        split at hlt
        · simp at hlt
        · rw [length_sseHeaders] at hlt
          omega

theorem Transfer.underway {calls : List Call} {out : List UInt8}
    (h : Transfer (Meanwhile easy i) easy i calls out s) : ∃ req, Underway easy i calls out s req := by
  induction h with
  | @start s req hreq hconn hs ha hf hb hl =>
    refine ⟨req, hreq, hconn, hf, ?_, ?_, fun _ => ⟨hb, rfl, fun _ => rfl⟩, fun hs' => ?_,
      List.nil_prefix, fun _ => ⟨?_, ?_⟩⟩
    · intro wb hwb
      rw [Daemon.relay, hb] at hwb
      cases hwb
    · rw [hs]
      exact ⟨by simp, by simp⟩
    · rw [hs] at hs'
      cases hs'
    · rw [Relay.text, Daemon.relay, hl]
      rfl
    · intro hs'
      rw [hs] at hs'
      cases hs'
  | call _ hm hstep ih =>
    obtain ⟨req, hreq⟩ := ih
    obtain ⟨req', hreq', -⟩ := (hreq.meanwhile hm).call hstep
    exact ⟨req', hreq'⟩

/-! ### The end of a transfer -/

/-- **How a transfer ends**: the marker is queued behind it, or nothing is. Between the end of the
transfer and its message the daemon may do other things, which leave the response as it is
(`Meanwhile`). -/
theorem Underway.ended {calls : List Call} {out : List UInt8} {req : CurlRequest} {v w : Daemon}
    {done : Finished} {ω : Env} (hunder : Underway easy i calls out t req)
    (hfinish : step t (.curlFinish easy done) = some u) (hm : Meanwhile easy i u v)
    (hmessage : step v (.message easy ω) = some w) :
    (done.result = 0 → req.aborted = false) ∧
      (queuedFor easy i v w = [] ∨
        queuedFor easy i v w = sseDone ∧ req.success done ∧ req.headersSent) ∧
      (ω.Generous → (v.relay easy i).Drained → req.success done → req.headersSent →
        queuedFor easy i v w = sseDone) := by
  obtain ⟨req₁, hreq₁, haborted, rfl⟩ := step_curlFinish hfinish
  obtain rfl : req₁ = req := Option.some.inj (hreq₁.symm.trans hunder.request)
  obtain ⟨req₂, done₂, hreq₂, hdone₂, rfl⟩ := step_message hmessage
  have heasy := easy_of_request? hreq₁
  subst heasy
  obtain rfl := hunder.conn
  have hreq : (t.updateRequest req₁.easy fun req =>
      { req with finished := some done }).curl.request? req₁.easy =
        some { req₁ with finished := some done } := by
    rw [request?_updateRequest, hreq₁]
    · rfl
    · exact fun _ => rfl
  have hsame := Option.some.inj (hreq₂.symm.trans (hm.request.trans hreq))
  subst hsame
  obtain rfl : done = done₂ := Option.some.inj hdone₂
  obtain ⟨marker, hmarker, hunsent, hgood⟩ := @Relays.checkCompletion ω _
    { req₁ with finished := some done } done hm.sound 0 v rfl
  have hqueued : queuedFor req₁.easy req₁.conn v
      (v.exec (checkCompletion { req₁ with finished := some done } done) ω) =
        marker := by
    rw [queuedFor]
    refine (congrArg (List.drop _) hunsent).trans List.drop_left
  rw [hqueued]
  refine ⟨haborted, hmarker, fun hg hd hsuccess hs => ?_⟩
  have hbuffer : (v.connections req₁.conn).asyncWriteBuf.isSome = true := by
    have hfirst := (hunder.sent hs).1
    have hmid : ((t.updateRequest req₁.easy fun req =>
        { req with finished := some done }).connections req₁.conn).asyncWriteBuf.isSome = true := hfirst
    exact hm.buffer.trans hmid
  refine hgood hg hd.packed hbuffer ?_ hsuccess hs
  rw [hd.unsent, List.length_nil, Nat.zero_add, length_sseDone, writeBufferMaxSize]
  omega

/-- What an answer consists of. -/
theorem Answered.cases {calls : List Call} {done : Finished} {stream marker : List UInt8}
    (h : Answered easy i calls done stream marker) : ∃ s req, Underway easy i calls stream s req ∧
      (done.result = 0 → req.aborted = false) ∧
      (marker = [] ∨ marker = sseDone ∧ req.success done ∧ req.headersSent) := by
  obtain ⟨htransfer, hm, hfinish, hm', hmessage, rfl⟩ := h
  rename_i s t u v w ω
  obtain ⟨req, hunder⟩ := htransfer.underway
  have hunder := hunder.meanwhile hm
  obtain ⟨haborted, hmarker, -⟩ := hunder.ended hfinish hm' hmessage
  exact ⟨t, req, hunder, haborted, hmarker⟩

/-- An answer is honest if its status is 200 or there was no memory for the headers. -/
theorem Answered.honest_iff {calls : List Call} {done : Finished} {stream marker : List UInt8}
    (h : Answered easy i calls done stream marker) :
    Honest done.httpCode (done.result = 0) (calls.map (·.chunk)) stream (marker = sseDone) ↔
      done.httpCode = 200 ∨ ∀ call ∈ calls, ¬ call.Allocates := by
  obtain ⟨s, req, hunder, haborted, hmarker⟩ := h.cases
  have hsuccess : marker = sseDone → req.success done ∧ req.headersSent := by
    intro hm
    rcases hmarker with hnil | ⟨-, hgood⟩
    · exact absurd (hm.symm.trans hnil) sseDone_ne_nil
    · exact hgood
  constructor
  · intro hh
    by_cases hmem : ∃ call ∈ calls, call.Allocates
    · exact .inl (hh.headers (hunder.sent (hunder.headed.mpr hmem)).2)
    · exact .inr fun call hc ha => hmem ⟨call, hc, ha⟩
  · rintro (h200 | hnone)
    · refine ⟨fun _ => h200, fun hm => ?_⟩
      obtain ⟨hgood, hs⟩ := hsuccess hm
      have hres : done.result = 0 := by
        simp only [CurlRequest.success, decide_eq_true_eq] at hgood
        exact hgood.1
      exact ⟨h200, hres, (hunder.complete (haborted hres)).2 hs⟩
    · have hs : req.headersSent = false := by
        refine Bool.eq_false_iff.mpr fun hs => ?_
        obtain ⟨call, hc, ha⟩ := hunder.headed.mp hs
        exact hnone call hc ha
      refine ⟨fun hp => ?_, fun hm => ?_⟩
      · rw [(hunder.bare hs).2.1] at hp
        exact absurd (List.prefix_nil.mp hp) sseHeaders_ne_nil
      · rw [(hsuccess hm).2] at hs
        cases hs

/-! ## A response through a worker -/

namespace Backend

variable {ω : WorkerEnv} {apiKey : Bool} {defaultModel : List UInt8} {up : Upstream}
  {conn : Connection}

/-- The same for a worker: it looks neither at the status nor at how the transfer ended. -/
theorem honest_iff :
    Honest up.status (curlResult ω apiKey defaultModel up conn = some 0) up.chunks
        (streamed ω apiKey defaultModel up conn)
        (answered ω apiKey defaultModel up conn =
          streamed ω apiKey defaultModel up conn ++ sseDone) ↔
      (Heads ω apiKey defaultModel up conn → up.status = 200 ∧
        (DoneWritten ω = true → up.result = 0 ∧ Relayed ω 4096 [] 0 up.chunks = true)) := by
  by_cases hheads : Heads ω apiKey defaultModel up conn
  · obtain ⟨res, hres, hstart, hanswer, hspec⟩ := answered_of_heads hheads
    rw [hres, hanswer, List.append_right_inj, ← writeAll_eq_iff, ← DoneWritten]
    constructor
    · refine fun hh _ => ⟨hh.headers hstart, fun hdone => ?_⟩
      obtain ⟨-, hok, -⟩ := hh.marker hdone
      have hok := Option.some.inj hok
      split at hspec
      · rename_i hrelayed
        exact ⟨hspec.1.symm.trans hok, hrelayed⟩
      · rw [hspec] at hok
        cases hok
    · intro hcond
      obtain ⟨h200, hdone⟩ := hcond hheads
      refine ⟨fun _ => h200, fun hm => ?_⟩
      obtain ⟨hok, hrelayed⟩ := hdone hm
      rw [if_pos hrelayed] at hspec
      exact ⟨h200, congrArg some (hspec.1.trans hok), hspec.2⟩
  · obtain ⟨hstart, hanswer⟩ := answered_of_not_heads hheads
    refine ⟨fun _ hh => absurd hh hheads, fun _ => ⟨fun hp => absurd hp hstart, fun hm => ?_⟩⟩
    rw [hanswer] at hm
    exact absurd (List.self_eq_append_right.mp hm) sseDone_ne_nil

end Backend

/-! ## One chunk -/

theorem willing_generous : Env.willing.Generous := ⟨fun _ => rfl, fun _ => by simp [Env.willing]⟩

/-- The API answers with one chunk and this status, and the transfer ends well. -/
theorem exists_answered (status : Nat) {chunk : List UInt8}
    (hroom : (chunkFrames [] chunk).length ≤ 4096) : ∃ stream marker,
    Answered 0 0 [⟨chunk, .willing⟩] ⟨0, status⟩ stream marker := by
  have hreaches : ((system curlConfig).run ((Daemon.boot curlConfig).submit 1) requestOne).any
      (fun s => (s.curl.request? 0).any fun (req : CurlRequest) => decide (s.pc = .curl true ∧
        (req.conn = 0 ∧ req.headersSent = false ∧ req.aborted = false ∧ req.finished = none) ∧
        (s.connections 0).asyncWriteBuf = none ∧ (s.connections 0).sseLine = none)) = true := by
    decide +kernel
  obtain ⟨s, -, hreaches⟩ := (Option.any_eq_true _ _).mp hreaches
  obtain ⟨req, hreq, hreaches⟩ := (Option.any_eq_true _ _).mp hreaches
  obtain ⟨hpc, ⟨hconn, hs, ha, hf⟩, hbuf, hline⟩ := of_decide_eq_true hreaches
  have hstart : Transfer (Meanwhile 0 0) 0 0 [] [] s := .start hreq hconn hs ha hf hbuf hline
  have hsame : Meanwhile 0 0 s s :=
    ⟨rfl, rfl, rfl, fun wb hwb => by rw [Daemon.relay, hbuf] at hwb; cases hwb⟩
  let call : Call := ⟨chunk, .willing⟩
  obtain ⟨u, hcall⟩ : ∃ u, step s (.curlWrite 0 call.chunk call.ω) = some u := by
    simp [step, loopStep, hpc, curlStep, hreq, ha, hf]
  obtain ⟨req₀, hunder₀⟩ := hstart.underway
  obtain ⟨req', hunder, hstop⟩ := hunder₀.call hcall
  have hrunning : req'.aborted = false := by
    refine Bool.eq_false_iff.mpr fun hab => ?_
    have hdrained : (s.relay 0 0).Drained := fun wb hwb => by
      rw [Daemon.relay, hbuf] at hwb
      cases hwb
    have hlt := (hstop willing_generous hdrained).mp hab
    have htext : (s.relay 0 0).text = [] := by rw [Relay.text, Daemon.relay, hline]; rfl
    have hhead : (chunkHead req₀.headersSent).length ≤ 119 := by
      rw [chunkHead]
      split
      · exact Nat.zero_le _
      · exact Nat.le_of_eq length_sseHeaders
    rw [htext, List.length_append, writeBufferMaxSize] at hlt
    have hcall : (chunkFrames [] call.chunk).length ≤ 4096 := hroom
    omega
  have hreq' : u.curl.request? 0 = some req' := hunder.request
  have hf' := hunder.running
  let done : Finished := ⟨0, status⟩
  obtain ⟨w, hfinish⟩ : ∃ w, step { u with pc := .curl true } (.curlFinish 0 done) = some w := by
    simp [step, loopStep, curlStep, hreq', hrunning, hf']
  obtain ⟨-, -, -, hw⟩ := step_curlFinish hfinish
  have hreq'' : w.curl.request? 0 = some { req' with finished := some done } := by
    rw [hw, request?_updateRequest]
    · exact congrArg (Option.map fun req => { req with finished := some done }) hreq'
    · exact fun _ => rfl
  obtain ⟨x, hmessage⟩ : ∃ x, step { w with pc := .completions } (.message 0 .willing) = some x := by
    simp [step, loopStep, hreq'']
  refine ⟨_, _, .intro (t := { u with pc := .curl true }) (v := { w with pc := .completions })
    (.call hstart hsame hcall) ⟨rfl, rfl, rfl, hunder.sound⟩ hfinish ⟨rfl, rfl, rfl, ?_⟩ hmessage rfl⟩
  rw [hw]
  exact hunder.sound

/-! ## Both ways -/

/-- **A success marker means success**, for the curl manager if the status is 200 or no call found
memory for the headers, and for a worker if the client got no headers, or the status is 200 and,
should the client take the marker, the transfer ended well and all its frames were taken. -/
theorem response_honest_iff (easy : Easy) (i : ConnId) (calls : List Call) (done : Finished)
    (stream marker : List UInt8) (ω : Backend.WorkerEnv) (apiKey : Bool)
    (defaultModel : List UInt8) (up : Backend.Upstream) (conn : Connection) :
    (Answered easy i calls done stream marker →
      (Honest done.httpCode (done.result = 0) (calls.map (·.chunk)) stream (marker = sseDone) ↔
        done.httpCode = 200 ∨ ∀ call ∈ calls, ¬ call.Allocates)) ∧
    (Honest up.status (Backend.curlResult ω apiKey defaultModel up conn = some 0) up.chunks
        (Backend.streamed ω apiKey defaultModel up conn)
        (Backend.answered ω apiKey defaultModel up conn =
          Backend.streamed ω apiKey defaultModel up conn ++ sseDone) ↔
      (Backend.Heads ω apiKey defaultModel up conn → up.status = 200 ∧
        (Backend.DoneWritten ω = true →
          up.result = 0 ∧ Backend.Relayed ω 4096 [] 0 up.chunks = true))) :=
  ⟨fun h => h.honest_iff, Backend.honest_iff⟩

/-- A chunk with a content. -/
def hiLine : List UInt8 :=
  ascii "data: \x7b\"choices\":[\x7b\"delta\":\x7b\"content\":\"hi\"\x7d\x7d]\x7d\n"

theorem chunkFrames_hiLine :
    chunkFrames [] hiLine = ascii "data: \x7b\"content\":\"hi\"\x7d\n\n" := by
  decide +kernel

/-- With a status of 200 it is honest, however it is fetched. -/
theorem response_honest_iff_content :
    (∃ stream marker, Answered 0 0 [⟨hiLine, .willing⟩] ⟨0, 200⟩ stream marker ∧
      Honest 200 (0 = 0) [hiLine] stream (marker = sseDone)) ∧
    Honest 200 (Backend.curlResult .taking true [] ⟨200, [hiLine], 0⟩ .initial = some 0)
      [hiLine] (Backend.streamed .taking true [] ⟨200, [hiLine], 0⟩ .initial)
      (Backend.answered .taking true [] ⟨200, [hiLine], 0⟩ .initial =
        Backend.streamed .taking true [] ⟨200, [hiLine], 0⟩ .initial ++ sseDone) := by
  have hroom : (chunkFrames [] hiLine).length ≤ 4096 := by
    rw [chunkFrames_hiLine]
    decide
  obtain ⟨stream, marker, h⟩ := exists_answered 200 hroom
  obtain ⟨hmanager, hworker⟩ := response_honest_iff 0 0 [⟨hiLine, .willing⟩] ⟨0, 200⟩ stream
    marker .taking true [] ⟨200, [hiLine], 0⟩ .initial
  exact ⟨⟨stream, marker, h, (hmanager h).mpr (.inl rfl)⟩,
    hworker.mpr fun _ => ⟨rfl, fun _ => ⟨rfl, by decide +kernel⟩⟩⟩

/-- An error page, and an answer that is cut short (`CURLE_PARTIAL_FILE`), look like complete
answers. -/
theorem not_response_honest :
    (∃ stream marker, Answered 0 0 [⟨[120], .willing⟩] ⟨0, 401⟩ stream marker ∧
      ¬ Honest 401 (0 = 0) [[120]] stream (marker = sseDone)) ∧
    ¬ Honest 200 (Backend.curlResult .taking true [] ⟨200, [[120]], 18⟩ .initial = some 0) [[120]]
      (Backend.streamed .taking true [] ⟨200, [[120]], 18⟩ .initial)
      (Backend.answered .taking true [] ⟨200, [[120]], 18⟩ .initial =
        Backend.streamed .taking true [] ⟨200, [[120]], 18⟩ .initial ++ sseDone) := by
  constructor
  · obtain ⟨stream, marker, h⟩ := @exists_answered 401 [120] (Nat.zero_le _)
    refine ⟨stream, marker, h, fun hh => ?_⟩
    rcases h.honest_iff.mp hh with h401 | hnone
    · cases h401
    · exact hnone _ List.mem_cons_self ⟨rfl, rfl⟩
  · intro hh
    have hheads : Backend.Heads .taking true [] ⟨200, [[120]], 18⟩ .initial :=
      Backend.heads_taking (by decide) (List.cons_ne_nil _ _)
    obtain ⟨-, hdone⟩ := Backend.honest_iff.mp hh hheads
    obtain ⟨hres, -⟩ := hdone Backend.doneWritten_taking
    cases hres

end SocketHandoff.Uring
