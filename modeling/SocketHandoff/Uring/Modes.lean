import SocketHandoff.Uring.Answer
import SocketHandoff.Uring.Jsmn

/-!
# Two ways to the API

The curl manager and the worker threads do the same work: post a body for the handoff, and hand
the response on. Here is when they agree, on the body and on what the client gets.
-/

namespace SocketHandoff.Uring

/-! ## The body of a request -/

theorem length_le_escaped (text : List UInt8) : text.length ≤ (text.flatMap escapeChar).length := by
  induction text with
  | nil => exact Nat.le_refl 0
  | cons c rest ih =>
    have hpos := length_escapeChar_pos c
    rw [List.flatMap_cons, List.length_append, List.length_cons]
    omega

/-- The text of a prompt that goes through the buffers of a worker. -/
def pooledPrompt (prompt : List UInt8) : List UInt8 := escapeContent (snprintf 8192 prompt) 8191

theorem pooledPrompt_start (prompt : List UInt8) :
    pooledPrompt prompt <+: prompt.flatMap escapeChar := by
  refine (escapeContent_start _ _).trans ?_
  obtain ⟨rest, hrest⟩ := List.take_prefix 8191 prompt
  refine ⟨rest.flatMap escapeChar, ?_⟩
  rw [← List.flatMap_append]
  exact congrArg (List.flatMap escapeChar) hrest

/-- A prompt passes whole if the buffer has room for it and one escape. -/
theorem pooledPrompt_eq_iff {prompt : List UInt8} :
    pooledPrompt prompt = prompt.flatMap escapeChar ↔
      (prompt.dropLast.flatMap escapeChar).length ≤ 8184 := by
  have hwhole : prompt.length ≤ 8191 → (pooledPrompt prompt = prompt.flatMap escapeChar ↔
      (prompt.dropLast.flatMap escapeChar).length ≤ 8184) := by
    intro hlen
    rw [pooledPrompt, snprintf, List.take_of_length_le hlen, escapeContent_eq_iff (by decide)]
    omega
  constructor
  · intro h
    refine (hwhole ?_).mp h
    -- what is escaped comes from the first 8191 bytes
    have hcut : pooledPrompt prompt <+: (prompt.take 8191).flatMap escapeChar :=
      escapeContent_start _ _
    have hsplit : prompt.flatMap escapeChar =
        (prompt.take 8191).flatMap escapeChar ++ (prompt.drop 8191).flatMap escapeChar := by
      rw [← List.flatMap_append, List.take_append_drop]
    have hle := hcut.length_le
    have hdrop := length_le_escaped (prompt.drop 8191)
    rw [h, hsplit, List.length_append] at hle
    rw [List.length_drop] at hdrop
    omega
  · intro h
    have hlast := length_le_escaped prompt.dropLast
    rw [List.length_dropLast] at hlast
    exact (hwhole (by omega)).mpr h

theorem handoffParseData_maxTokens (jsonParse : List UInt8 → Option (List Token))
    (buf : List UInt8) (len : Nat) :
    (handoffParseData jsonParse buf len).1.maxTokens < 2147483648 := by
  simp only [handoffParseData]
  split
  · exact Int.ofNat_lt.mpr (by decide)
  · split
    · exact Int.ofNat_lt.mpr (by decide)
    · exact Int.bmod_lt (m := 4294967296) (by decide)

/-- **The bodies are the same** for a model of at most 127 bytes and a prompt that fits. -/
theorem requestBody_agree_iff {cfg : Config} {data : HandoffData}
    (h : data.maxTokens < 2147483648) :
    Backend.requestBody cfg.defaultModel data = some (buildRequestBody cfg data) ↔
      (data.model.getD cfg.defaultModel).length ≤ 127 ∧
        ((data.prompt.getD (ascii "Hello")).dropLast.flatMap escapeChar).length ≤ 8184 := by
  obtain ⟨hpos, hlt⟩ := Backend.maxTokens_bounds h
  have hdigits := Backend.length_decimal_le hpos hlt
  rw [Backend.requestBody_eq cfg.defaultModel h, Option.some.injEq]
  have hcurl : buildRequestBody cfg data =
      snprintf (((data.prompt.getD (ascii "Hello")).flatMap escapeChar).length + 256)
        (Backend.requestText (data.model.getD cfg.defaultModel)
          ((data.prompt.getD (ascii "Hello")).flatMap escapeChar)
          (if 0 < data.maxTokens then data.maxTokens else 1024)) := rfl
  rw [hcurl]
  revert hdigits
  generalize (if 0 < data.maxTokens then data.maxTokens else 1024) = n
  generalize data.model.getD cfg.defaultModel = model
  generalize data.prompt.getD (ascii "Hello") = prompt
  intro hdigits
  have hpart := (pooledPrompt_start prompt).length_le
  change Backend.requestText (snprintf 128 model) (pooledPrompt prompt) n = _ ↔ _
  rw [← pooledPrompt_eq_iff]
  by_cases hmodel : model.length ≤ 127
  · have hfull : Backend.requestText model (prompt.flatMap escapeChar) n =
        snprintf ((prompt.flatMap escapeChar).length + 256)
          (Backend.requestText model (prompt.flatMap escapeChar) n) := by
      rw [snprintf, List.take_of_length_le]
      rw [Backend.length_requestText]
      omega
    rw [← hfull, snprintf, List.take_of_length_le hmodel]
    constructor
    · intro heq
      have hlen := congrArg List.length heq
      rw [Backend.length_requestText, Backend.length_requestText] at hlen
      exact ⟨hmodel, (pooledPrompt_start prompt).eq_of_length (by omega)⟩
    · rintro ⟨-, heq⟩
      rw [heq]
  · constructor
    · intro heq
      have hlen := congrArg List.length heq
      simp only [snprintf, List.length_take, Backend.length_requestText] at hlen
      omega
    · rintro ⟨hle, -⟩
      exact absurd hle hmodel

/-! ## A request through the curl manager -/

/-- `curl_manager_start_request` has succeeded for a connection without buffers, and libcurl has
the next handle. -/
inductive Starts (cfg : Config) (data : HandoffData) (easy : Easy) (i : ConnId) : Daemon → Prop
  | intro {s : Daemon} {ω : Env} {n : Nat} : s.cfg = cfg → (s.connections i).data = data →
      s.curl.nextEasy = easy → (∀ req ∈ s.curl.requests, req.easy ≠ easy) →
      (s.connections i).asyncWriteBuf = none → (s.connections i).sseLine = none →
      (curlManagerStartRequest i ω (n, s)).1 = true →
      Starts cfg data easy i (curlManagerStartRequest i ω (n, s)).2.2

/-- Between two calls of libcurl the client takes what is in the write buffer. -/
structure Served (easy : Easy) (i : ConnId) (s t : Daemon) : Prop extends
    Meanwhile easy i s t where
  drained : (t.relay easy i).Drained

/-- The chunks libcurl hands over from `s` on while no allocation fails, and what they queue for
the client. -/
inductive Delivers (easy : Easy) (i : ConnId) (s : Daemon) :
    List (List UInt8) → List UInt8 → Daemon → Prop
  | none : Delivers easy i s [] [] s
  | chunk {chunks : List (List UInt8)} {out chunk : List UInt8} {t u v : Daemon} {ω : Env} :
      Delivers easy i s chunks out t → Served easy i t u → ω.Generous →
      step u (.curlWrite easy chunk ω) = some v →
      Delivers easy i s (chunks ++ [chunk]) (out ++ queuedFor easy i u v) v

/-- libcurl hands over all that comes, unless a callback makes it stop. -/
def Follows (up : Backend.Upstream) (chunks : List (List UInt8)) (aborted : Bool)
    (done : Finished) : Prop :=
  done.httpCode = up.status ∧
    if aborted then chunks <+: up.chunks ∧ done.result = Backend.curleWriteError
    else chunks = up.chunks ∧ done.result = up.result

/-- A request is posted with `body`, and `stream` is queued for a client that takes everything. -/
inductive CurlAnswer (cfg : Config) (data : HandoffData) (up : Backend.Upstream)
    (body stream : List UInt8) : Prop
  | intro {easy : Easy} {i : ConnId} {s t u v w x : Daemon} {req req' : CurlRequest}
      {chunks : List (List UInt8)} {out : List UInt8} {done : Finished} {ω : Env} :
      Starts cfg data easy i s → s.curl.request? easy = some req → req.postData = body →
      Delivers easy i s chunks out t → Served easy i t u → u.curl.request? easy = some req' →
      Follows up chunks req'.aborted done → step u (.curlFinish easy done) = some v →
      Served easy i v w → ω.Generous → step w (.message easy ω) = some x →
      stream = out ++ queuedFor easy i w x → CurlAnswer cfg data up body stream

/-- The frames of each chunk find room in an empty write buffer, the first with the headers. -/
def Fits (chunks : List (List UInt8)) : Prop :=
  ∀ before chunk, before ++ [chunk] <+: chunks →
    (chunkHead (before ≠ []) ++ chunkFrames (responseRest before) chunk).length ≤ writeBufferMaxSize

theorem fits_nil : Fits [] := fun before chunk h => by simp at h

theorem Fits.of_start {chunks more : List (List UInt8)} (h : Fits more) (hp : chunks <+: more) :
    Fits chunks := fun before chunk hb => h before chunk (hb.trans hp)

theorem fits_concat {chunks : List (List UInt8)} {chunk : List UInt8} :
    Fits (chunks ++ [chunk]) ↔ Fits chunks ∧
      (chunkHead (chunks ≠ []) ++ chunkFrames (responseRest chunks) chunk).length ≤
        writeBufferMaxSize := by
  constructor
  · exact fun h => ⟨h.of_start (List.prefix_append _ _), h chunks chunk List.prefix_rfl⟩
  · rintro ⟨hfits, hlast⟩ before c hb
    rcases List.prefix_concat_iff.mp hb with heq | hb
    · obtain ⟨rfl, heq⟩ := List.append_inj' heq rfl
      obtain rfl : c = chunk := by simpa using heq
      exact hlast
    · exact hfits before c hb

/-! ### How it starts -/

variable {cfg : Config} {data : HandoffData} {easy : Easy} {i : ConnId} {s t u : Daemon}

/-- What `curl_manager_start_request` reads and writes for a connection. -/
structure Desk where
  cfg : Config
  nextEasy : Easy
  requests : List CurlRequest
  conn : Connection

/-- The desk of a connection. -/
def Daemon.desk (s : Daemon) (i : ConnId) : Desk :=
  ⟨s.cfg, s.curl.nextEasy, s.curl.requests, s.connections i⟩

theorem blind_desk : Blind fun s : Daemon => s.desk i :=
  ⟨fun _ _ => rfl, fun _ _ _ => rfl, fun _ _ => rfl, fun _ _ _ _ _ => rfl⟩

theorem startAllocations_desk : Act.Unseen (fun s : Daemon => s.desk i) startAllocations := by
  refine .bind (blind_desk.malloc) fun block => ?_
  cases block with
  | none => exact .pure _
  | some _ =>
    refine .bind (.ask fun _ _ _ => rfl) fun _ => .ite (.bind blind_desk.malloc fun block => ?_) (.pure _)
    cases block with
    | none => exact .pure _
    | some _ => exact .bind blind_desk.malloc fun _ => .pure _

/-- A request that is started is the last one, and posts the body for its connection. -/
theorem curlManagerStartRequest_desk {ω : Env} {d : Desk} :
    Act.Through ω (fun s : Daemon => s.desk i) d (curlManagerStartRequest i) fun ok d' =>
      ok = true → d.cfg.apiKey = true ∧ d'.requests = d.requests ++
          [⟨d.nextEasy, i, buildRequestBody d.cfg d.conn.data, false, 0, false, none⟩] ∧
        d'.conn.asyncWriteBuf = d.conn.asyncWriteBuf ∧ d'.conn.sseLine = d.conn.sseLine := by
  refine .get fun s hs => .ite (fun hkey => ?_) fun _ => .pure (by simp)
  subst hs
  refine .bind (.unseen startAllocations_desk fun _ => .ite (fun _ => .bind ?_) fun _ => .pure (by simp))
  refine .modify (fun d => { d with
      conn := { d.conn with curlEasy := some s.curl.nextEasy, state := .curlPending } })
    (fun s => by simp [Daemon.desk, Daemon.setConn]) (.bind ?_)
  refine .unseen (.ask fun _ _ _ => rfl) fun ok => .ite (fun _ => .bind ?_) fun _ => .bind ?_
  · refine .modify (fun d => { d with
        nextEasy := d.nextEasy + 1
        requests := d.requests ++ [⟨s.curl.nextEasy, i,
          buildRequestBody s.cfg (s.connections i).data, false, 0, false, none⟩] })
      (fun _ => rfl) (.bind (.unseen blind_desk.curlCallbacks fun _ => .pure fun _ => ?_))
    exact ⟨hkey, rfl, rfl, rfl⟩
  · refine .modify (fun d => { d with conn := { d.conn with curlEasy := none } })
      (fun s => by simp [Daemon.desk, Daemon.setConn]) (.pure (by simp))

theorem Starts.request (h : Starts cfg data easy i s) :
    cfg.apiKey = true ∧ s.curl.request? easy =
        some ⟨easy, i, buildRequestBody cfg data, false, 0, false, none⟩ ∧
      (s.connections i).asyncWriteBuf = none ∧ (s.connections i).sseLine = none := by
  obtain ⟨hcfg, hdata, heasy, hfresh, hbuf, hline, hok⟩ := h
  rename_i s ω n
  obtain ⟨hkey, hreq, hbuf', hline'⟩ := curlManagerStartRequest_desk (ω := ω) n s rfl hok
  refine ⟨hcfg ▸ hkey, ?_, hbuf'.trans hbuf, hline'.trans hline⟩
  rw [CurlManager.request?]
  refine (congrArg (List.find? _) hreq).trans ?_
  have hnone : s.curl.requests.find? (·.easy = easy) = none :=
    List.find?_eq_none.mpr fun req hr => by simpa using hfresh req hr
  simp only [Daemon.desk, List.find?_append, hnone, heasy, hcfg, hdata]
  simp

/-! ### How it goes on -/

/-- **What libcurl hands over is queued whole, or it stops.** It stops at the first chunk whose
frames find no room. -/
theorem Delivers.underway {chunks : List (List UInt8)} {out : List UInt8}
    (h : Delivers easy i s chunks out t) (hs : Starts cfg data easy i s) :
    ∃ calls : List Call, calls.map (·.chunk) = chunks ∧ ∃ req, Underway easy i calls out t req ∧
      (req.headersSent = true ↔ chunks ≠ []) ∧ (req.aborted = true ↔ ¬ Fits chunks) := by
  induction h with
  | none =>
    obtain ⟨-, hreq, hbuf, hline⟩ := hs.request
    have hstart : Transfer (Meanwhile easy i) easy i [] [] s := .start hreq rfl rfl rfl rfl hbuf hline
    obtain ⟨req, hunder⟩ := hstart.underway
    obtain rfl := Option.some.inj (hreq.symm.trans hunder.request)
    exact ⟨[], rfl, _, hunder, by simp, by simp [fits_nil]⟩
  | @chunk chunks out chunk t u v ω _ hserved hg hstep ih =>
    obtain ⟨calls, rfl, req, hunder, hheaded, haborted⟩ := ih
    have hunder := hunder.meanwhile hserved.toMeanwhile
    obtain ⟨req₀, hreq₀, hrunning, -⟩ := step_curlWrite hstep
    obtain rfl : req₀ = req := Option.some.inj (hreq₀.symm.trans hunder.request)
    let call : Call := ⟨chunk, ω⟩
    have hcall : step u (.curlWrite easy call.chunk call.ω) = some v := hstep
    obtain ⟨req', hunder', hstop⟩ := hunder.call hcall
    have hstop := hstop hg hserved.drained
    refine ⟨calls ++ [call], List.map_append, req', hunder', ?_, ?_⟩
    · rw [hunder'.headed]
      have hmem : call ∈ calls ++ [call] := List.mem_append_right _ List.mem_cons_self
      exact ⟨fun _ => List.append_ne_nil_of_right_ne_nil _ (List.cons_ne_nil _ _),
        fun _ => ⟨call, hmem, hg.malloc 0, hg.malloc 1⟩⟩
    · have hfits : Fits (calls.map (·.chunk)) := by
        refine Classical.not_not.mp fun hn => ?_
        rw [haborted.mpr hn] at hrunning
        cases hrunning
      have hsent : req₀.headersSent = decide (calls.map (·.chunk) ≠ []) := by
        rw [Bool.eq_iff_iff, hheaded, decide_eq_true_iff]
      rw [hstop, fits_concat, (hunder.complete hrunning).1, hsent, not_and_or, Nat.not_le]
      exact ⟨.inr, fun h => h.resolve_left (not_not_intro hfits)⟩

/-! ### How it ends -/

/-- What a response looks like that is handed on with the marker. -/
def markedStream (chunks : List (List UInt8)) : List UInt8 :=
  if chunks = [] then [] else sseHeaders ++ sseFrames (responseLines chunks) ++ sseDone

theorem length_sseFrames_le {chunks more : List (List UInt8)} (h : chunks <+: more) :
    (sseFrames (responseLines chunks)).length ≤ (sseFrames (responseLines more)).length := by
  obtain ⟨rest, rfl⟩ := h
  rw [responseLines, responseLines, List.flatten_append, splitLines_append .nil, sseFrames_append,
    List.length_append]
  exact Nat.le_add_right _ _

/-- **What the curl manager queues** is the marked response if the transfer succeeds and all of it
finds room. -/
theorem CurlAnswer.stream_iff {up : Backend.Upstream} {body stream : List UInt8}
    (h : CurlAnswer cfg data up body stream) :
    cfg.apiKey = true ∧ body = buildRequestBody cfg data ∧
      (stream = markedStream up.chunks ↔ up.chunks = [] ∨ up.result = 0 ∧ Fits up.chunks) := by
  obtain ⟨hs, hreq, hbody, hdelivers, hu, hreq', hfollows, hfinish, hw, hg, hmessage, rfl⟩ := h
  rename_i easy i s t u v w x req req' chunks out done ω
  obtain ⟨hkey, hfirst, -⟩ := hs.request
  obtain rfl := Option.some.inj (hreq.symm.trans hfirst)
  refine ⟨hkey, hbody.symm, ?_⟩
  obtain ⟨calls, rfl, req₁, hunder, hheaded, haborted⟩ := hdelivers.underway hs
  have hunder := hunder.meanwhile hu.toMeanwhile
  obtain rfl : req₁ = req' := Option.some.inj (hunder.request.symm.trans hreq')
  obtain ⟨-, hmarker, hmarked⟩ := hunder.ended hfinish hw.toMeanwhile hmessage
  have hmarked := hmarked hg hw.drained
  obtain ⟨-, hfollows⟩ := hfollows
  cases hab : req₁.aborted with
  | true =>
    -- a chunk did not fit, and there is no marker behind what has been queued
    rw [hab, if_pos rfl] at hfollows
    obtain ⟨hpart, hresult⟩ := hfollows
    have hcut : ¬ Fits up.chunks := fun hf => haborted.mp hab (hf.of_start hpart)
    have hne : up.chunks ≠ [] := fun hnil => hcut (hnil ▸ fits_nil)
    have hnone : queuedFor easy i w x = [] := by
      refine hmarker.resolve_right fun hgood => ?_
      have hsuccess := hgood.2.1
      simp [CurlRequest.success, hresult, Backend.curleWriteError] at hsuccess
    rw [hnone, List.append_nil, markedStream, if_neg hne]
    constructor
    · intro heq
      have hlen := congrArg List.length heq
      have hout := hunder.part.length_le
      have hmono := length_sseFrames_le hpart
      rw [List.length_append, length_sseDone] at hlen
      rw [List.length_append] at hlen hout
      omega
    · rintro (hnil | ⟨-, hf⟩)
      · exact absurd hnil hne
      · exact absurd hf hcut
  | false =>
    rw [hab, if_neg (by decide)] at hfollows
    obtain ⟨hall, hresult⟩ := hfollows
    have hfits : Fits up.chunks := by
      rw [← hall]
      refine Classical.not_not.mp fun hn => ?_
      rw [haborted.mpr hn] at hab
      cases hab
    rw [hall] at hheaded
    by_cases hne : up.chunks = []
    · have hsent : req₁.headersSent = false := Bool.eq_false_iff.mpr fun hh => hheaded.mp hh hne
      have hnone : queuedFor easy i w x = [] := by
        refine hmarker.resolve_right fun hgood => ?_
        rw [hgood.2.2] at hsent
        cases hsent
      rw [hnone, (hunder.bare hsent).2.1, markedStream, if_pos hne]
      exact ⟨fun _ => .inl hne, fun _ => rfl⟩
    · have hsent := hheaded.mpr hne
      have hout := (hunder.complete hab).2 hsent
      rw [hout, hall, markedStream, if_neg hne, List.append_right_inj]
      constructor
      · intro heq
        refine .inr ⟨?_, hfits⟩
        rcases hmarker with hnil | ⟨-, hsuccess, -⟩
        · exact absurd (heq.symm.trans hnil) sseDone_ne_nil
        · rw [← hresult]
          simp only [CurlRequest.success, decide_eq_true_eq] at hsuccess
          exact hsuccess.1
      · rintro (hnil | ⟨hok, -⟩)
        · exact absurd hnil hne
        · exact hmarked (by simp [CurlRequest.success, hresult, hok, hsent]) hsent

/-! ## A request through a worker -/

namespace Backend

/-- Nothing fails, and the client takes all bytes. The two modes are compared for such a client,
since they write in different ways and a failure would hit them in different places. -/
structure WorkerEnv.Accepting (ω : WorkerEnv) : Prop where
  curlEasyInit : ω.curlEasyInit = true
  malloc : ω.malloc = true
  realloc : ∀ capacity, ω.realloc capacity = true
  headers : HeadersWritten ω = true
  frame : ∀ k frame, frame.length < 8192 → (writeAll (ω.writeFrame k) frame).2 = true
  done : DoneWritten ω = true

theorem accepting_taking : WorkerEnv.taking.Accepting where
  curlEasyInit := rfl
  malloc := rfl
  realloc _ := rfl
  headers := headersWritten_taking
  frame _ _ h := writeAll_at_once _ _ (Nat.le_of_lt h)
  done := doneWritten_taking

variable {ω : WorkerEnv}

theorem WorkerEnv.Accepting.written (hω : ω.Accepting) (k : Nat) (lines : List (List UInt8)) :
    Written ω k (contentFrames lines) = true := by
  induction lines generalizing k with
  | nil => rfl
  | cons line rest ih =>
    rw [contentFrames_cons]
    split
    · exact ih k
    · have hlen := length_sseFrame_le line
      rw [Written, hω.frame k _ (by omega), ih, Bool.true_and]

theorem WorkerEnv.Accepting.relayed (hω : ω.Accepting) (capacity k : Nat) (text : List UInt8)
    (chunks : List (List UInt8)) : Relayed ω capacity text k chunks = true := by
  induction chunks generalizing capacity text k with
  | nil => rfl
  | cons chunk rest ih =>
    rw [Relayed, hω.written, ih]
    simp [hω.realloc]

/-- **What a worker sends** is always marked. -/
theorem answered_accepting (hω : ω.Accepting) {conn : Connection} (up : Upstream)
    (defaultModel : List UInt8) (hdata : conn.data.maxTokens < 2147483648) :
    postedBody ω true defaultModel up conn = requestBody defaultModel conn.data ∧
      answered ω true defaultModel up conn = markedStream up.chunks := by
  have hperf : Performs ω true defaultModel conn = true := by
    simp [Performs, hω.curlEasyInit, hω.malloc, requestBody_eq defaultModel hdata]
  obtain ⟨res, headed, -, hposted, hanswer, hspec⟩ := answered_spec up hperf
  refine ⟨hposted, ?_⟩
  rw [hanswer, markedStream]
  by_cases hne : up.chunks = []
  · rw [if_pos hne] at hspec ⊢
    obtain ⟨rfl, -, hstream⟩ := hspec
    rw [if_neg (by decide), hstream]
  · rw [if_neg hne, hω.headers, if_pos rfl, hω.relayed, if_pos rfl] at hspec
    obtain ⟨rfl, -, -, hstream⟩ := hspec
    rw [if_pos rfl, if_neg hne, hstream, (writeAll_eq_iff _ _).mp hω.done]

end Backend

/-! ## A request both ways -/

/-- The client takes what is in the write buffer, and the loop is at some other place. -/
theorem exists_served (easy : Easy) (i : ConnId) (s : Daemon) (pc : Pc) :
    ∃ t, Served easy i s t ∧ t.pc = pc := by
  let empty : Connection :=
    { s.connections i with
      asyncWriteBuf := (s.connections i).asyncWriteBuf.map fun wb => WriteBuffer.init wb.buffer }
  refine ⟨{ s.setConn i empty with pc := pc }, ⟨⟨rfl, ?_, ?_, ?_⟩, ?_⟩, rfl⟩
  · simp [Daemon.setConn, empty]
  · simp [Daemon.setConn, empty]
  · intro wb hwb
    simp only [Daemon.relay, Daemon.setConn, Function.update_self, empty, Option.map_eq_some_iff] at hwb
    obtain ⟨wb', -, rfl⟩ := hwb
    exact WriteBuffer.sound_init _
  · intro wb hwb
    simp only [Daemon.relay, Daemon.setConn, Function.update_self, empty, Option.map_eq_some_iff] at hwb
    obtain ⟨wb', -, rfl⟩ := hwb
    exact ⟨rfl, rfl⟩

/-- A chunk whose frames leave room for the headers. -/
theorem fits_chunk {chunk : List UInt8} (h : (chunkFrames [] chunk).length ≤ 4096) :
    Fits [chunk] := by
  have hlast : (chunkHead (([] : List (List UInt8)) ≠ []) ++
      chunkFrames (responseRest []) chunk).length ≤ writeBufferMaxSize := by
    have hchunk : (chunkFrames (responseRest []) chunk).length ≤ 4096 := h
    rw [List.length_append, chunkHead, if_neg (by simp), length_sseHeaders, writeBufferMaxSize]
    omega
  exact fits_concat.mpr ⟨fits_nil, hlast⟩

/-- The API answers with one chunk, with this status and this result. -/
theorem exists_curlAnswer (data : HandoffData) (status result : Nat) {chunk : List UInt8}
    (hfits : Fits [chunk]) : ∃ stream,
    CurlAnswer curlConfig data ⟨status, [chunk], result⟩ (buildRequestBody curlConfig data) stream := by
  let boot : Daemon :=
    { Daemon.boot curlConfig with connections := fun _ => { Connection.initial with data := data } }
  have hstarts : Starts curlConfig data 0 0 (curlManagerStartRequest 0 .willing (0, boot)).2.2 :=
    .intro rfl rfl rfl (fun _ h => absurd h List.not_mem_nil) rfl rfl rfl
  revert hstarts
  generalize (curlManagerStartRequest 0 .willing (0, boot)).2.2 = s
  intro hstarts
  obtain ⟨-, hreq, -⟩ := hstarts.request
  obtain ⟨s', hs', hpc⟩ := exists_served 0 0 s (.curl true)
  obtain ⟨t, hwrite⟩ : ∃ t, step s' (.curlWrite 0 chunk .willing) = some t := by
    have hreq' := hs'.request.trans hreq
    simp [step, loopStep, hpc, curlStep, hreq']
  have hdelivers : Delivers 0 0 s [chunk] ([] ++ queuedFor 0 0 s' t) t :=
    .chunk .none hs' willing_generous hwrite
  obtain ⟨calls, hcalls, req, hunder, -, haborted⟩ := hdelivers.underway hstarts
  have hrunning : req.aborted = false := Bool.eq_false_iff.mpr fun h => haborted.mp h hfits
  obtain ⟨t', ht', hpc⟩ := exists_served 0 0 t (.curl true)
  have hreq' := ht'.request.trans hunder.request
  obtain ⟨u, hfinish⟩ : ∃ u, step t' (.curlFinish 0 ⟨result, status⟩) = some u := by
    simp [step, loopStep, hpc, curlStep, hreq', hrunning, hunder.running]
  obtain ⟨-, -, -, hu⟩ := step_curlFinish hfinish
  have hreq'' : u.curl.request? 0 = some { req with finished := some ⟨result, status⟩ } := by
    rw [hu, request?_updateRequest, hreq']
    · rfl
    · exact fun _ => rfl
  obtain ⟨u', hu', hpc⟩ := exists_served 0 0 u .completions
  obtain ⟨v, hmessage⟩ : ∃ v, step u' (.message 0 .willing) = some v := by
    have hreq₃ := hu'.request.trans hreq''
    simp [step, loopStep, hpc, hreq₃]
  refine ⟨_, .intro hstarts hreq rfl hdelivers ht' hreq' ⟨rfl, ?_⟩ hfinish hu' willing_generous hmessage
    rfl⟩
  rw [hrunning, if_neg (by decide)]
  exact ⟨rfl, rfl⟩

/-- **The two modes agree** on what they send to the API for a model of at most 127 bytes and a
prompt that fits the buffers of a worker, and on what they send to the client if the transfer ends
well and its frames find room, or brings nothing. -/
theorem modes_agree_iff {jsonParse : List UInt8 → Option (List Token)} {buf : List UInt8} {len : Nat}
    {cfg : Config} {conn : Connection} {up : Backend.Upstream} {body stream : List UInt8}
    {ω : Backend.WorkerEnv} (hdata : conn.data = (handoffParseData jsonParse buf len).1)
    (hcurl : CurlAnswer cfg conn.data up body stream) (hω : ω.Accepting) :
    (Backend.postedBody ω cfg.apiKey cfg.defaultModel up conn = some body ∧
        Backend.answered ω cfg.apiKey cfg.defaultModel up conn = stream) ↔
      ((conn.data.model.getD cfg.defaultModel).length ≤ 127 ∧
          ((conn.data.prompt.getD (ascii "Hello")).dropLast.flatMap escapeChar).length ≤ 8184) ∧
        (up.chunks = [] ∨ up.result = 0 ∧ Fits up.chunks) := by
  have hmax : conn.data.maxTokens < 2147483648 := by
    rw [hdata]
    exact handoffParseData_maxTokens jsonParse buf len
  obtain ⟨hkey, rfl, hstream⟩ := hcurl.stream_iff
  obtain ⟨hposted, hanswer⟩ :=
    Backend.answered_accepting hω up cfg.defaultModel hmax
  rw [hkey, hposted, hanswer, requestBody_agree_iff hmax, ← hstream]
  exact and_congr_right fun _ => eq_comm

/-- A handoff with a prompt and a model. -/
def questionText : List UInt8 := ascii "\x7b\"prompt\":\"hi\",\"model\":\"m\"\x7d"

/-- Its connection. -/
def questionConn : Connection :=
  { Connection.initial with data := ⟨0, some (ascii "hi"), some (ascii "m"), 0⟩ }

theorem questionConn_data : questionConn.data = (handoffParseData jsonParse questionText 27).1 := by
  decide +kernel

/-- They agree on it, and on an answer with a content. -/
theorem modes_agree_iff_question : ∃ body stream,
    CurlAnswer curlConfig questionConn.data ⟨200, [hiLine], 0⟩ body stream ∧
    Backend.postedBody .taking curlConfig.apiKey curlConfig.defaultModel ⟨200, [hiLine], 0⟩
      questionConn = some body ∧
    Backend.answered .taking curlConfig.apiKey curlConfig.defaultModel ⟨200, [hiLine], 0⟩
      questionConn = stream := by
  have hfits : Fits [hiLine] := by
    apply fits_chunk
    rw [chunkFrames_hiLine]
    decide
  obtain ⟨stream, h⟩ := exists_curlAnswer questionConn.data 200 0 hfits
  refine ⟨_, stream, h, (modes_agree_iff questionConn_data h Backend.accepting_taking).mpr ⟨?_, ?_⟩⟩
  · decide +kernel
  · exact .inr ⟨rfl, hfits⟩

/-- They do not when the transfer breaks off (`CURLE_PARTIAL_FILE`): only the worker sends the
marker. -/
theorem not_modes_agree : ∃ body stream,
    CurlAnswer curlConfig Connection.initial.data ⟨200, [[120]], 18⟩ body stream ∧
    Backend.answered .taking curlConfig.apiKey curlConfig.defaultModel ⟨200, [[120]], 18⟩ .initial ≠
      stream := by
  have hfits : Fits [[120]] := fits_chunk (Nat.zero_le _)
  obtain ⟨stream, h⟩ := exists_curlAnswer Connection.initial.data 200 18 hfits
  refine ⟨_, stream, h, fun heq => ?_⟩
  obtain ⟨-, -, hiff⟩ := h.stream_iff
  obtain ⟨-, hanswer⟩ := @Backend.answered_accepting _ Backend.accepting_taking .initial
    ⟨200, [[120]], 18⟩ curlConfig.defaultModel (by decide)
  rcases hiff.mp (heq.symm.trans hanswer) with hnil | ⟨hok, -⟩
  · exact List.cons_ne_nil _ _ hnil
  · cases hok

end SocketHandoff.Uring
