import SocketHandoff.Amp.OpenAI
import SocketHandoff.Swoole.OpenAI
import SocketHandoff.Swow.OpenAI

/-!
# What success means, in the PHP daemons

A call that returns success, or sends the marker `[DONE]`, tells the client that the answer is
complete. Each of the seven calls has its own idea of when this is so, from what the library that it
uses reports: a `read` that returns `null`, a status, a response without data. With libraries that do
as documented only one of the calls is always right.
-/

namespace SocketHandoff.Php

/-- The calls that stream an answer of an OpenAI API. -/
inductive Path
  | ampHttp2
  | ampHttp1
  | swooleHttp2
  | swooleHttp1
  | swowHttp2Multi
  | swowHttp2
  | swowHttp1
  deriving DecidableEq, Repr

/-- The libraries that the calls use. -/
structure Libraries where
  amp : Amp.Reads
  swoole : Swoole.Clients
  swow : Swow.Curl

/-- **What is documented of the reports** of the libraries. -/
structure Libraries.Documented (lib : Libraries) (link : Link) (u : Upstream) : Prop where
  amp : lib.amp.Documented u
  swoole : lib.swoole.Documented link u
  swow : lib.swow.Documented link u

/-- The call itself. -/
def Path.run (lib : Libraries) : Path → ContentOf → Link → Upstream → Outcome
  | .ampHttp2 => Amp.streamFromOpenAIHttp2 lib.amp
  | .ampHttp1 => Amp.streamFromOpenAI lib.amp
  | .swooleHttp2 => Swoole.streamFromOpenAIHttp2 lib.swoole
  | .swooleHttp1 => Swoole.streamFromOpenAIHttp1 lib.swoole
  | .swowHttp2Multi => Swow.streamFromOpenAIHttp2Multi lib.swow
  | .swowHttp2 => Swow.streamFromOpenAIHttp2 lib.swow
  | .swowHttp1 => Swow.streamFromOpenAIHttp1 lib.swow

/-- Whether a call reads the headers of the answer itself. -/
def Path.readsHeaders : Path → Bool
  | .ampHttp1 => true
  | _ => false

/-- The messages in the answer of the upstream, as a call reads it. -/
def Path.messages (path : Path) (contentOf : ContentOf) (u : Upstream) : List SseMessage :=
  (Php.messages contentOf path.readsHeaders [] u.chunks.flatten).1

/-- **Complete**: the status is 200, and the upstream has sent its marker or has ended its body. -/
def Path.Complete (path : Path) (contentOf : ContentOf) (u : Upstream) : Prop :=
  u.status = 200 ∧ (.done ∈ path.messages contentOf u ∨ u.ending = .endOfBody)

/-- **The marker and success mean a complete answer.** -/
def Path.Sound (lib : Libraries) (path : Path) (contentOf : ContentOf) (link : Link)
    (u : Upstream) : Prop :=
  .done ∈ (path.run lib contentOf link u).sent.messages ∨
      (path.run lib contentOf link u).success = some true →
    path.Complete contentOf u

/-- What `streamFromOpenAIHttp2` of the Swoole daemon reads: a response without data ends it. -/
def readByPop (u : Upstream) : List (List UInt8) := u.chunks.takeWhile (· ≠ [])

/-- The client is there whenever it is looked for, as long as no marker has come. -/
def Watched (contentOf : ContentOf) (link : Link) (u : Upstream) : Prop :=
  ∀ k ≤ (readByPop u).length,
    .done ∉ (Php.messages contentOf false [] ((readByPop u).take k).flatten).1 →
      (link.checks k).all id = true

/-- The client takes what comes before the marker. -/
def Path.ClientStays (path : Path) (contentOf : ContentOf) (link : Link) (u : Upstream) : Prop :=
  match path with
  | .swooleHttp2 =>
    Stays link.writes 0 (Php.messages contentOf false [] (readByPop u).flatten).1 ∧
      Watched contentOf link u
  | _ => Stays link.writes 0 (path.messages contentOf u)

/-- **When a call is right**: it does not get as far as to send its request, or what it takes for
the end of a complete answer is one. A marker is passed on whatever the status is; the other ends
are those that the library reports, and what stands behind a report is known to the library alone.
So the condition compares reports with the upstream, and looks at nothing that the code computes
from them. -/
def Path.Right (lib : Libraries) (path : Path) (contentOf : ContentOf) (link : Link)
    (u : Upstream) : Prop :=
  let marked := .done ∈ path.messages contentOf u
  let stays := path.ClientStays contentOf link u
  let complete := path.Complete contentOf u
  match path with
  -- the status is not looked at, and `null` is the end
  | .ampHttp2 => link.ready = true → stays →
      (marked → u.status = 200) ∧ (lib.amp.body u = .null → complete)
  | .ampHttp1 => link.ready = true → stays →
      (marked → u.status = 200) ∧ (lib.amp.socket u = .null → complete)
  -- nor is it here, and whatever comes last is the end
  | .swooleHttp2 => link.ready = true → stays → complete
  -- the status of the answer that is reported as a whole
  | .swooleHttp1 => Stays link.writes 0 (Swoole.passedOn contentOf (lib.swoole.execute link u).2) →
      (lib.swoole.execute link u).1 = 200 → complete
  -- a marker is enough, or the status with the end of the transfer, whatever it is
  | .swowHttp2Multi => link.ready = true → stays → (marked → u.status = 200) ∧
      (link.timedOut = false → lib.swow.httpCode link u = 200 → complete)
  -- a marker is enough, or the status, even for a client that has gone
  | .swowHttp2 | .swowHttp1 => (link.ready = true → stays → marked → u.status = 200) ∧
      (lib.swow.httpCode link u = 200 → complete)

/-- When a call is right that has sent its request and hears what is documented. -/
def Path.RightAsDocumented (path : Path) (contentOf : ContentOf) (link : Link) (u : Upstream) :
    Prop :=
  let marked := .done ∈ path.messages contentOf u
  let stays := path.ClientStays contentOf link u
  match path with
  -- a transfer that fails throws
  | .ampHttp2 => stays → marked ∨ u.ending = .endOfBody → u.status = 200
  -- a socket that is closed reads like a body that ends
  | .ampHttp1 => stays → (marked ∨ u.ending ≠ .idle → u.status = 200) ∧
      (u.ending = .disconnect ∨ u.ending = .transportError → marked)
  | .swooleHttp2 => stays → u.status = 200 ∧ (marked ∨ u.ending = .endOfBody)
  | .swooleHttp1 => True
  | .swowHttp2Multi => stays → (marked → u.status = 200) ∧
      (link.timedOut = false → u.status = 200 → marked ∨ u.ending = .endOfBody)
  | .swowHttp2 | .swowHttp1 => (stays → marked → u.status = 200) ∧
      (u.status = 200 → marked ∨ u.ending = .endOfBody)

/-- A call that returns success exactly when `p` holds, and sends the marker only then. Both halves
are needed of every path: the property speaks of the marker and of success, and a path that gave one
without the other would have to be looked at twice. -/
structure Outcome.SucceedsWhen (out : Outcome) (p : Prop) : Prop where
  success : out.success = some true ↔ p
  sent : .done ∈ out.sent.messages → out.success = some true

variable {lib : Libraries} {contentOf : ContentOf} {link : Link} {u : Upstream}

/-- Such a call is sound when the answer is complete where `p` holds. -/
theorem sound_iff {path : Path} {p : Prop} (h : (path.run lib contentOf link u).SucceedsWhen p) :
    path.Sound lib contentOf link u ↔ (p → path.Complete contentOf u) := by
  have hor : .done ∈ (path.run lib contentOf link u).sent.messages ∨
      (path.run lib contentOf link u).success = some true ↔ p :=
    ⟨fun hor => h.success.mp (hor.elim h.sent id), fun hp => .inr (h.success.mpr hp)⟩
  rw [Path.Sound, hor]

/-- A call that is refused does not succeed. -/
theorem refused_succeedsWhen {p : Prop} (hp : ¬ p) : Outcome.refused.SucceedsWhen p :=
  ⟨iff_of_false (by simp [Outcome.refused]) hp, fun h => absurd h List.not_mem_nil⟩

/-! ## The AMP daemon -/

theorem readAnswer_succeeds (hready : link.ready = true) (inHeaders : Bool)
    (behind : Upstream → Amp.Read) :
    (Amp.readAnswer inHeaders behind contentOf link u).SucceedsWhen
      (Stays link.writes 0 (Php.messages contentOf inHeaders [] u.chunks.flatten).1 ∧
        (.done ∈ (Php.messages contentOf inHeaders [] u.chunks.flatten).1 ∨ behind u = .null)) := by
  have hread := readChunks_delivered contentOf link.writes inHeaders u.chunks
  rw [Amp.readAnswer, if_pos hready]
  generalize readChunks contentOf link.writes .nothing ⟨[], inHeaders⟩ u.chunks = out at hread ⊢
  obtain ⟨ended, s, b⟩ := out
  cases hread with
  | done hstays hdone => exact ⟨iff_of_true rfl ⟨hstays, .inl hdone⟩, fun _ => rfl⟩
  | gone hgone hsent => exact ⟨iff_of_false (by simp) fun h => hgone h.1, fun h => absurd h hsent⟩
  | waiting hstays hdone hsent =>
    dsimp only
    cases behind u with
    | null => exact ⟨iff_of_true rfl ⟨hstays, .inr rfl⟩, fun _ => rfl⟩
    | throws | waits =>
      exact ⟨iff_of_false (by simp [Amp.afterRead]) fun h => h.2.elim hdone (by simp), fun h =>
        absurd h hsent⟩

theorem ampHttp2_succeeds (hready : link.ready = true) :
    (Path.run lib .ampHttp2 contentOf link u).SucceedsWhen
      (Path.ClientStays .ampHttp2 contentOf link u ∧
        (.done ∈ Path.messages .ampHttp2 contentOf u ∨ lib.amp.body u = .null)) :=
  readAnswer_succeeds hready false lib.amp.body

theorem ampHttp1_succeeds (hready : link.ready = true) :
    (Path.run lib .ampHttp1 contentOf link u).SucceedsWhen
      (Path.ClientStays .ampHttp1 contentOf link u ∧
        (.done ∈ Path.messages .ampHttp1 contentOf u ∨ lib.amp.socket u = .null)) :=
  readAnswer_succeeds hready true lib.amp.socket

/-! ## The Swoole daemon -/

/-- The client is there whenever it is looked for, from the `k`-th time on. -/
def WatchedFrom (contentOf : ContentOf) (link : Link) (b : Buffer) (read : List (List UInt8))
    (k : Nat) : Prop :=
  ∀ j ≤ read.length, .done ∉ (messages contentOf b.inHeaders b.text (read.take j).flatten).1 →
    (link.checks (k + j)).all id = true

theorem watchedFrom_nil {b : Buffer} {k : Nat} :
    WatchedFrom contentOf link b [] k ↔ (link.checks k).all id = true := by
  constructor
  · exact fun h => h 0 (Nat.le_refl 0) List.not_mem_nil
  · intro h j hj _
    rwa [Nat.le_zero.mp hj]

/-- With a chunk in front: the client is there, and from then on if the chunk has no marker. -/
theorem watchedFrom_cons {b : Buffer} {chunk : List UInt8} {read : List (List UInt8)} {k : Nat} :
    WatchedFrom contentOf link b (chunk :: read) k ↔ (link.checks k).all id = true ∧
      (.done ∉ (messages contentOf b.inHeaders b.text chunk).1 →
        WatchedFrom contentOf link (messages contentOf b.inHeaders b.text chunk).2 read (k + 1)) := by
  constructor
  · intro h
    refine ⟨h 0 (Nat.zero_le _) List.not_mem_nil, fun hfirst j hj hrest => ?_⟩
    rw [Nat.add_assoc, Nat.add_comm 1 j]
    refine h (j + 1) (Nat.succ_le_succ hj) ?_
    rw [List.take_succ_cons, List.flatten_cons, messages_append, List.mem_append]
    exact fun hor => hor.elim hfirst hrest
  · rintro ⟨hcheck, h⟩ j hj hnone
    cases j with
    | zero => exact hcheck
    | succ j =>
      rw [List.take_succ_cons, List.flatten_cons, messages_append, List.mem_append, not_or] at hnone
      rw [Nat.add_comm j 1, ← Nat.add_assoc]
      exact h hnone.1 j (Nat.le_of_succ_le_succ hj) hnone.2

/-- The loop over the responses. -/
theorem popResponses_succeeds {emptyResponse : Bool} {k : Nat} {s : SentMessages} {b : Buffer} (hb : 10 ∉ b.text)
    (hs : .done ∉ s.messages) (chunks : List (List UInt8)) :
    (Swoole.popResponses contentOf link emptyResponse k s b chunks).SucceedsWhen
      (Stays link.writes s.tried
          (messages contentOf b.inHeaders b.text (chunks.takeWhile (· ≠ [])).flatten).1 ∧
        WatchedFrom contentOf link b (chunks.takeWhile (· ≠ [])) k) := by
  have hnothing : ∀ n, Stays link.writes n [] := fun n k hk => absurd hk (Nat.not_lt_zero k)
  induction chunks generalizing k s b with
  | nil =>
    rw [List.takeWhile_nil, watchedFrom_nil, Swoole.popResponses.eq_def]
    by_cases hcheck : (link.checks k).all id = true
    · rw [if_pos hcheck]
      cases emptyResponse <;> exact ⟨iff_of_true rfl ⟨hnothing _, hcheck⟩, fun _ => rfl⟩
    · rw [if_neg hcheck]
      exact ⟨iff_of_false (by simp) fun h => hcheck h.2, fun h => absurd h hs⟩
  | cons chunk rest ih =>
    rw [Swoole.popResponses.eq_def]
    dsimp only
    by_cases hcheck : (link.checks k).all id = true
    · rw [if_pos hcheck]
      by_cases hempty : chunk = []
      · rw [if_pos hempty, List.takeWhile_cons_of_neg (by simpa using hempty), watchedFrom_nil]
        exact ⟨iff_of_true rfl ⟨hnothing _, hcheck⟩, fun _ => rfl⟩
      · rw [if_neg hempty, List.takeWhile_cons_of_pos (by simpa using hempty), watchedFrom_cons,
          List.flatten_cons, messages_append]
        obtain ⟨hsent, hbuffer⟩ := receive_eq contentOf link.writes s hb chunk
        have hmarker := done_mem_deliver link.writes
          (messages contentOf b.inHeaders b.text chunk).1 s hs
        generalize receive contentOf link.writes s b chunk = out at hsent hbuffer ⊢
        obtain ⟨ended, s', b'⟩ := out
        have hended := (congrArg Prod.fst hsent).symm
        have hs' : s' = (deliver link.writes s (messages contentOf b.inHeaders b.text chunk).1).2 :=
          congrArg Prod.snd hsent
        dsimp only at hended hbuffer
        rw [hended, ← hs'] at hmarker
        cases ended with
        | done =>
          have hdone := (deliver_done_iff.mp hended).2
          exact ⟨iff_of_true rfl ⟨stays_append_done hended _, hcheck, fun hnone =>
            absurd hdone hnone⟩, fun _ => rfl⟩
        | gone =>
          exact ⟨iff_of_false (by simp) fun h => not_stays_append hended _ h.1, fun h =>
            Ended.noConfusion (hmarker h)⟩
        | waiting =>
          have hnone := (deliver_waiting_iff.mp hended).2
          have hb' : 10 ∉ (messages contentOf b.inHeaders b.text chunk).2.text :=
            messages_rest hb chunk
          have hrest := ih (k := k + 1) hb' fun h => Ended.noConfusion (hmarker h)
          rw [stays_append hended, ← hs', hbuffer rfl]
          refine ⟨hrest.success.trans ?_, hrest.sent⟩
          exact ⟨fun h => ⟨h.1, hcheck, fun _ => h.2⟩, fun h => ⟨h.1, h.2.2 hnone⟩⟩
    · rw [if_neg hcheck]
      have hwatched : ¬ WatchedFrom contentOf link b ((chunk :: rest).takeWhile (· ≠ [])) k :=
        fun h => hcheck (h 0 (Nat.zero_le _) List.not_mem_nil)
      exact ⟨iff_of_false (by simp) fun h => hwatched h.2, fun h => absurd h hs⟩

theorem swooleHttp2_succeeds (hready : link.ready = true) :
    (Path.run lib .swooleHttp2 contentOf link u).SucceedsWhen
      (Path.ClientStays .swooleHttp2 contentOf link u) := by
  have hwatched : WatchedFrom contentOf link ⟨[], false⟩ (readByPop u) 0 ↔
      Watched contentOf link u := by
    simp only [WatchedFrom, Watched, Nat.zero_add]
  have hnone : 10 ∉ (⟨[], false⟩ : Buffer).text := List.not_mem_nil
  have hnothing : SseMessage.done ∉ SentMessages.nothing.messages := List.not_mem_nil
  rw [Path.run, Swoole.streamFromOpenAIHttp2, if_pos hready, Path.ClientStays, ← hwatched]
  exact popResponses_succeeds hnone hnothing u.chunks

theorem swooleHttp1_succeeds :
    (Path.run lib .swooleHttp1 contentOf link u).SucceedsWhen
      (Stays link.writes 0 (Swoole.passedOn contentOf (lib.swoole.execute link u).2) ∧
        (lib.swoole.execute link u).1 = 200) := by
  rw [Path.run, Swoole.streamFromOpenAIHttp1]
  by_cases hstatus : (lib.swoole.execute link u).1 = 200
  · rw [if_neg (fun h => h hstatus), Swoole.forwardLines_eq, ← Swoole.passedOn]
    have hnothing : SseMessage.done ∉ SentMessages.nothing.messages := List.not_mem_nil
    have hmarker := done_mem_deliver link.writes
      (Swoole.passedOn contentOf (lib.swoole.execute link u).2) .nothing hnothing
    cases hout : deliver link.writes .nothing
        (Swoole.passedOn contentOf (lib.swoole.execute link u).2) with
    | mk ended s =>
      have hended := congrArg Prod.fst hout
      rw [hout] at hmarker
      dsimp only at hended hmarker ⊢
      cases ended with
      | done =>
        exact ⟨iff_of_true rfl ⟨(deliver_done_iff.mp hended).1, hstatus⟩, fun _ => rfl⟩
      | gone =>
        refine ⟨iff_of_false (by simp) fun h => ?_, fun h => Ended.noConfusion (hmarker h)⟩
        exact deliver_gone_iff.mp hended h.1
      | waiting =>
        exact ⟨iff_of_true rfl ⟨(deliver_waiting_iff.mp hended).1, hstatus⟩, fun _ => rfl⟩
  · rw [if_pos hstatus]
    exact refused_succeedsWhen fun h => hstatus h.2

/-! ## The Swow daemon -/

/-- A transfer without a marker: the status alone decides. -/
theorem curl_unmarked_succeeds {p : Prop} {ctx : Swow.StreamContext} (hp : ¬ p)
    (hended : ctx.streamEnded = false) (hsuccess : ctx.success = false)
    (hnone : .done ∉ ctx.sent.messages) (writes : Writes) (code : Nat) :
    (if ctx.streamEnded = false ∧ code = 200 then
        (⟨some true, (ctx.sent.write writes .done).2⟩ : Outcome)
      else ⟨some (ctx.success || code = 200), ctx.sent⟩).SucceedsWhen (p ∨ code = 200) := by
  by_cases hcode : code = 200
  · rw [if_pos ⟨hended, hcode⟩]
    exact ⟨iff_of_true rfl (.inr hcode), fun _ => rfl⟩
  · rw [if_neg fun h => hcode h.2]
    exact ⟨iff_of_false (by simp [hsuccess, hcode]) (not_or.mpr ⟨hp, hcode⟩), fun h =>
      absurd h hnone⟩

theorem streamWithCurl_succeeds (hcurl : lib.swow.HandsOver link u) :
    (Swow.streamWithCurl lib.swow contentOf link u).SucceedsWhen
      ((Stays link.writes 0 (messages contentOf false [] (Swow.body link u).flatten).1 ∧
          .done ∈ (messages contentOf false [] (Swow.body link u).flatten).1) ∨
        lib.swow.httpCode link u = 200) := by
  have hperformed := Swow.performed_new contentOf link.writes false (Swow.body link u)
  rw [Swow.streamWithCurl, hcurl.callback, Swow.writeCallback]
  generalize Swow.handOver (Swow.onWrite false contentOf link.writes) .new (Swow.body link u) = out
    at hperformed ⊢
  cases hperformed with
  | @ended ok ctx hstays hdone hended hsuccess =>
    have hmarked : ¬ (ctx.streamEnded = false ∧ lib.swow.httpCode link u = 200) := by simp [hended]
    dsimp only
    rw [if_neg hmarked, hsuccess]
    exact ⟨iff_of_true rfl (.inl ⟨hstays, hdone⟩), fun _ => rfl⟩
  | gone hgone hended hsuccess haborted hnone =>
    exact curl_unmarked_succeeds (fun h => hgone h.1) hended hsuccess hnone _ _
  | waiting hstays hnone hopen =>
    exact curl_unmarked_succeeds (fun h => hnone h.2) hopen.notEnded hopen.noSuccess
      hopen.noMarker _ _

/-- The completion of a transfer: with the status, unless the client has gone. -/
theorem onComplete_success {ctx : Swow.StreamContext} (writes : Writes) (ok : Bool) (code : Nat) :
    (Swow.onComplete writes ctx ok code).success = true ↔ ctx.success = true ∨
      (code = 200 ∧ (ok = true ∨ ctx.streamEnded = false ∧ ctx.aborted = false)) := by
  rw [Swow.onComplete]
  split
  · next h => exact iff_of_true rfl (.inr ⟨h.2.2, .inr ⟨h.1, h.2.1⟩⟩)
  · next hfirst =>
    split
    · next h => exact iff_of_true rfl (.inr ⟨h.2, .inl h.1⟩)
    · next h =>
      constructor
      · exact .inl
      · rintro (hsuccess | ⟨hcode, hok | ⟨hended, haborted⟩⟩)
        · exact hsuccess
        · exact absurd ⟨hok, hcode⟩ h
        · exact absurd ⟨hended, haborted, hcode⟩ hfirst

/-- It sends the marker only with success. -/
theorem onComplete_sent {ctx : Swow.StreamContext} (writes : Writes) (ok : Bool) (code : Nat)
    (h : .done ∈ ctx.sent.messages → ctx.success = true)
    (hmem : .done ∈ (Swow.onComplete writes ctx ok code).sent.messages) :
    (Swow.onComplete writes ctx ok code).success = true := by
  rw [Swow.onComplete] at hmem ⊢
  split
  · rfl
  · next hfirst =>
    rw [if_neg hfirst] at hmem
    split
    · rfl
    · next hsecond =>
      rw [if_neg hsecond] at hmem
      exact h hmem

theorem swowHttp2Multi_succeeds (hcurl : lib.swow.HandsOver link u) (hready : link.ready = true) :
    (Path.run lib .swowHttp2Multi contentOf link u).SucceedsWhen
      (Path.ClientStays .swowHttp2Multi contentOf link u ∧
        (.done ∈ Path.messages .swowHttp2Multi contentOf u ∨
          (link.timedOut = false ∧ lib.swow.httpCode link u = 200))) := by
  have hbody : Swow.body link u = u.chunks := if_pos hready
  have hperformed : Swow.Performed true link.writes 0 (Path.messages .swowHttp2Multi contentOf u)
      (Swow.handOver (Swow.onWrite true contentOf link.writes) .new u.chunks) :=
    Swow.performed_new contentOf link.writes true u.chunks
  have hclient : Path.ClientStays .swowHttp2Multi contentOf link u ↔
      Stays link.writes 0 (Path.messages .swowHttp2Multi contentOf u) := Iff.rfl
  have hctx := hcurl.callback (Swow.onWrite true contentOf link.writes) .new
  have hok := hcurl.writeError (Swow.onWrite true contentOf link.writes) .new
  rw [hbody] at hctx hok
  rw [Path.run, Swow.streamFromOpenAIHttp2Multi, if_pos hready, Swow.createWriteCallback, hclient]
  dsimp only
  rw [hctx]
  generalize Swow.handOver (Swow.onWrite true contentOf link.writes) .new u.chunks = out
    at hperformed hok ⊢
  cases link.timedOut with
  | true =>
    refine ⟨?_, fun hmem => congrArg some (hperformed.success hmem)⟩
    simpa using hperformed.success_iff
  | false =>
    refine ⟨?_, fun hmem => congrArg some (onComplete_sent _ _ _ hperformed.success hmem)⟩
    simp only [Option.some.injEq, Bool.false_eq_true, if_false, onComplete_success,
      hperformed.success_iff, hperformed.open_iff, true_and]
    constructor
    · rintro (⟨hstays, hdone⟩ | ⟨hcode, hsucceeded | ⟨hstays, _⟩⟩)
      · exact ⟨hstays, .inl hdone⟩
      · have htook : out.1 = true := by
          cases hrefused : out.1 with
          | true => rfl
          | false => exact absurd ((hok hrefused).symm.trans hsucceeded) Bool.false_ne_true
        exact ⟨hperformed.stays htook, .inr hcode⟩
      · exact ⟨hstays, .inr hcode⟩
    · rintro ⟨hstays, hor⟩
      by_cases hdone : SseMessage.done ∈ Path.messages .swowHttp2Multi contentOf u
      · exact .inl ⟨hstays, hdone⟩
      · exact .inr ⟨hor.resolve_left hdone, .inr ⟨hstays, hdone⟩⟩

/-! ## All of them -/

/-- The calls that look for a connection do nothing where there is none. -/
theorem sound_iff_of_ready {path : Path} {p : Prop}
    (hrefused : link.ready = false → path.run lib contentOf link u = .refused)
    (hsucceeds : link.ready = true → (path.run lib contentOf link u).SucceedsWhen p) :
    path.Sound lib contentOf link u ↔ (link.ready = true → p → path.Complete contentOf u) := by
  cases hready : link.ready with
  | false =>
    have hnever : (path.run lib contentOf link u).SucceedsWhen False :=
      hrefused hready ▸ refused_succeedsWhen not_false
    exact iff_of_true ((sound_iff hnever).mpr False.elim) fun h => absurd h Bool.false_ne_true
  | true =>
    rw [sound_iff (hsucceeds hready), forall_prop_of_true rfl]

/-- A marker says that the answer is complete, but for the status. -/
theorem marked_or_iff {path : Path} {reported : Prop} :
    (.done ∈ path.messages contentOf u ∨ reported → path.Complete contentOf u) ↔
      (.done ∈ path.messages contentOf u → u.status = 200) ∧
        (reported → path.Complete contentOf u) := by
  rw [or_imp, Path.Complete]
  exact and_congr_left' ⟨fun h hdone => (h hdone).1, fun h hdone => ⟨h hdone, .inl hdone⟩⟩

/-- Either of the two that do not look at what `curl_exec` returns. -/
theorem streamWithCurl_right {path : Path} (hcurl : lib.swow.HandsOver link u)
    (hrun : path.run lib = Swow.streamWithCurl lib.swow) (hmessages : path.readsHeaders = false) :
    path.Sound lib contentOf link u ↔
      ((link.ready = true → Stays link.writes 0 (path.messages contentOf u) →
          .done ∈ path.messages contentOf u → u.status = 200) ∧
        (lib.swow.httpCode link u = 200 → path.Complete contentOf u)) := by
  have hsucceeds : (Swow.streamWithCurl lib.swow contentOf link u).SucceedsWhen _ :=
    streamWithCurl_succeeds hcurl
  rw [← hrun] at hsucceeds
  rw [sound_iff hsucceeds, or_imp]
  refine and_congr_left' ?_
  cases hready : link.ready with
  | false =>
    -- nothing is handed over
    have hbody : Swow.body link u = [] := by rw [Swow.body, hready]; rfl
    rw [hbody]
    exact iff_of_true (fun h => absurd h.2 List.not_mem_nil) fun h => absurd h Bool.false_ne_true
  | true =>
    have hbody : Swow.body link u = u.chunks := if_pos hready
    rw [hbody, forall_prop_of_true rfl, Path.Complete, Path.messages, hmessages]
    constructor
    · exact fun h hstays hdone => (h ⟨hstays, hdone⟩).1
    · exact fun h hp => ⟨h hp.1 hp.2, .inl hp.2⟩

/-- Where the libraries do as documented, what stands behind a report is known. -/
theorem right_iff_asDocumented {path : Path} (hlib : lib.Documented link u)
    (hready : link.ready = true) :
    path.Right lib contentOf link u ↔ path.RightAsDocumented contentOf link u := by
  have hcode : lib.swow.httpCode link u = u.status := by
    rw [hlib.swow, if_pos hready]
  cases path with
  | ampHttp2 =>
    simp only [Path.Right, Path.RightAsDocumented, Path.Complete, hlib.amp.body, hready,
      true_implies]
    constructor
    · exact fun h hstays hor => hor.elim (h hstays).1 fun hend => ((h hstays).2 hend).1
    · exact fun h hstays => ⟨fun hdone => h hstays (.inl hdone), fun hend =>
        ⟨h hstays (.inr hend), .inr hend⟩⟩
  | ampHttp1 =>
    simp only [Path.Right, Path.RightAsDocumented, Path.Complete, hlib.amp.socket, hready,
      true_implies]
    constructor
    · intro h hstays
      obtain ⟨hmarked, hclosed⟩ := h hstays
      refine ⟨fun hor => hor.elim hmarked fun hend => (hclosed hend).1, ?_⟩
      rintro (hend | hend) <;> refine (hclosed ?_).2.resolve_right ?_ <;> rw [hend] <;>
        exact Ending.noConfusion
    · intro h hstays
      obtain ⟨hstatus, hbroken⟩ := h hstays
      refine ⟨fun hdone => hstatus (.inl hdone), fun hend => ⟨hstatus (.inr hend), ?_⟩⟩
      cases hending : u.ending with
      | endOfBody => exact .inr rfl
      | disconnect => exact .inl (hbroken (.inl hending))
      | transportError => exact .inl (hbroken (.inr hending))
      | idle => exact absurd hending hend
  | swooleHttp2 => exact ⟨fun h => h hready, fun h _ => h⟩
  | swooleHttp1 =>
    refine iff_of_true (fun _ hstatus => ?_) trivial
    by_cases hending : u.ending = .endOfBody
    · rw [hlib.swoole.whole hready hending] at hstatus
      exact ⟨Int.ofNat.inj hstatus, .inr hending⟩
    · have hnegative := hlib.swoole.failed (.inr hending)
      rw [hstatus] at hnegative
      exact absurd hnegative (by decide)
  | swowHttp2Multi =>
    simp only [Path.Right, Path.RightAsDocumented, Path.Complete, hcode, hready, true_implies]
    constructor
    · exact fun h hstays => ⟨(h hstays).1, fun hwaited hok => ((h hstays).2 hwaited hok).2⟩
    · exact fun h hstays => ⟨(h hstays).1, fun hwaited hok => ⟨hok, (h hstays).2 hwaited hok⟩⟩
  | swowHttp2 | swowHttp1 =>
    simp only [Path.Right, Path.RightAsDocumented, Path.Complete, hcode, hready, true_implies]
    constructor
    · exact fun h => ⟨h.1, fun hok => (h.2 hok).2⟩
    · exact fun h => ⟨h.1, fun hok => ⟨hok, h.2 hok⟩⟩

/-- **When the marker and success mean a complete answer**, in each of the seven calls: exactly where
`Right` holds of what the libraries report. Of these it needs no more than that libcurl hands a body
over as it promises to. Where the libraries do as documented the condition is about the upstream
alone. -/
theorem sound_iff_right (lib : Libraries) (path : Path) (contentOf : ContentOf) (link : Link)
    (u : Upstream) (hcurl : lib.swow.HandsOver link u) :
    (path.Sound lib contentOf link u ↔ path.Right lib contentOf link u) ∧
      (lib.Documented link u → link.ready = true →
        (path.Right lib contentOf link u ↔ path.RightAsDocumented contentOf link u)) := by
  refine ⟨?_, right_iff_asDocumented⟩
  cases path with
  | ampHttp2 =>
    have hrefused : link.ready = false → Path.run lib .ampHttp2 contentOf link u = .refused :=
      fun h => if_neg (by simp [h])
    rw [sound_iff_of_ready hrefused ampHttp2_succeeds]
    exact forall_congr' fun _ => and_imp.trans (forall_congr' fun _ => marked_or_iff)
  | ampHttp1 =>
    have hrefused : link.ready = false → Path.run lib .ampHttp1 contentOf link u = .refused :=
      fun h => if_neg (by simp [h])
    rw [sound_iff_of_ready hrefused ampHttp1_succeeds]
    exact forall_congr' fun _ => and_imp.trans (forall_congr' fun _ => marked_or_iff)
  | swooleHttp2 =>
    have hrefused : link.ready = false → Path.run lib .swooleHttp2 contentOf link u = .refused :=
      fun h => if_neg (by simp [h])
    rw [sound_iff_of_ready hrefused swooleHttp2_succeeds]
    rfl
  | swooleHttp1 =>
    rw [sound_iff swooleHttp1_succeeds]
    exact and_imp
  | swowHttp2Multi =>
    have hrefused : link.ready = false → Path.run lib .swowHttp2Multi contentOf link u = .refused :=
      fun h => if_neg (by simp [h])
    rw [sound_iff_of_ready hrefused (swowHttp2Multi_succeeds hcurl)]
    refine forall_congr' fun _ => and_imp.trans (forall_congr' fun _ => marked_or_iff.trans ?_)
    exact and_congr_right' and_imp
  | swowHttp2 => exact streamWithCurl_right hcurl rfl rfl
  | swowHttp1 => exact streamWithCurl_right hcurl rfl rfl

/-- Libraries that do as documented. -/
def Libraries.asDocumented : Libraries := ⟨.asDocumented, .asDocumented, .asDocumented⟩

theorem Libraries.asDocumented_documented (link : Link) (u : Upstream) :
    Libraries.asDocumented.Documented link u :=
  { amp := Amp.Reads.asDocumented_documented u
    swoole := Swoole.Clients.asDocumented_documented link u
    swow := rfl }

/-- The connection to the upstream is reset behind the head of an answer. -/
def resetAnswer : Upstream := ⟨200, [ascii "HTTP/1.1 200 OK\r\n\r\n"], .transportError⟩

/-- `streamFromOpenAI` of the AMP daemon reads `null` and takes it for the end of the answer. -/
theorem sound_iff_right_reset :
    ¬ Path.Sound .asDocumented .ampHttp1 (fun _ => none) openLink resetAnswer ∧
      ¬ Path.RightAsDocumented .ampHttp1 (fun _ => none) openLink resetAnswer := by
  have hcurl := Swow.Curl.asDocumented_handsOver openLink resetAnswer
  obtain ⟨hsound, hright⟩ :=
    sound_iff_right .asDocumented .ampHttp1 (fun _ => none) openLink resetAnswer hcurl
  have hnot : ¬ Path.RightAsDocumented .ampHttp1 (fun _ => none) openLink resetAnswer := by
    intro h
    have hmarked := (h fun _ _ => rfl).2 (.inr rfl)
    revert hmarked
    decide +kernel
  have hlib := Libraries.asDocumented_documented openLink resetAnswer
  exact ⟨fun h => hnot ((hright hlib rfl).mp (hsound.mp h)), hnot⟩

/-- The upstream goes away before the first line of an answer with status 200: the client of the
Swow daemon gets the marker, and the call returns success. -/
theorem disconnect_not_sound :
    ¬ Path.Sound .asDocumented .swowHttp1 (fun _ => none) openLink ⟨200, [], .disconnect⟩ := by
  intro h
  have hcomplete := h (.inr rfl)
  exact absurd hcomplete.2 (by decide)

end SocketHandoff.Php
