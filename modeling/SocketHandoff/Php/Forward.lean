import SocketHandoff.Lib.CText

/-!
# Forwarding an answer, in the PHP daemons

The daemons for AMP, Swoole and Swow have the loop over the lines of an upstream answer in common:
a line of the body that begins with `data: ` is the marker `[DONE]`, which is passed on, or JSON,
of which the content is passed on as an event of its own. The loop ends at the marker and where the
client takes no more; what is left of the buffer waits for the next chunk.

What `json_decode`, the choice of the content and `json_encode` make of the JSON is a parameter.
-/

namespace SocketHandoff.Php

/-! ## Lines -/

/-- `rtrim($line, "\r")`. -/
def rtrim (line : List UInt8) : List UInt8 := (line.reverse.dropWhile (· = 13)).reverse

/-- What is sent to the client. -/
inductive SseMessage
  /-- `data: [DONE]` -/
  | done
  /-- `data: ` and the JSON of a content -/
  | content (json : List UInt8)
  deriving DecidableEq, Repr

/-- The text of a message. -/
def SseMessage.text : SseMessage → List UInt8
  | .done => ascii "data: [DONE]\n\n"
  | .content json => ascii "data: " ++ json ++ ascii "\n\n"

/-- The JSON for the client, for the JSON of the upstream that has a content. -/
abbrev ContentOf := List UInt8 → Option (List UInt8)

/-- What a line of the body is passed on as. -/
def messageOf (contentOf : ContentOf) (line : List UInt8) : Option SseMessage :=
  if (ascii "data: ").isPrefixOf line then
    if line.drop 6 = ascii "[DONE]" then some .done
    else (contentOf (line.drop 6)).map .content
  else none

/-- A line of the response: whether the lines after it are headers, and what it is passed on as.
The headers end with an empty line. -/
def readLine (contentOf : ContentOf) (inHeaders : Bool) (line : List UInt8) :
    Bool × Option SseMessage :=
  if inHeaders then (line ≠ [], none) else (false, messageOf contentOf line)

/-! ## The client -/

/-- What has been sent to the client. -/
structure SentMessages where
  messages : List SseMessage
  /-- the messages handed to `socketWriteAll`, or `writeAll` -/
  tried : Nat
  bytes : Nat
  deriving DecidableEq, Repr

def SentMessages.nothing : SentMessages := ⟨[], 0, 0⟩

/-- Whether the `n`-th message can be written to the client. -/
abbrev Writes := Nat → Bool

/-- `socketWriteAll`, and `writeAll`. -/
def SentMessages.write (writes : Writes) (s : SentMessages) (m : SseMessage) : Bool × SentMessages :=
  if writes s.tried then
    (true, ⟨s.messages ++ [m], s.tried + 1, s.bytes + m.text.length⟩)
  else (false, { s with tried := s.tried + 1 })

/-! ## The loop -/

/-- How the loop over the lines ends. -/
inductive Ended
  /-- there is no other line yet -/
  | waiting
  /-- at the marker -/
  | done
  /-- the client takes no more -/
  | gone
  deriving DecidableEq, Repr

/-- What the loop keeps from chunk to chunk. -/
structure Buffer where
  text : List UInt8
  inHeaders : Bool
  deriving DecidableEq, Repr

/-- What is done for a message. -/
def SentMessages.forward (writes : Writes) (s : SentMessages) : SseMessage → Ended × SentMessages
  | .done => (.done, (s.write writes .done).2)
  | .content json =>
    ((if (s.write writes (.content json)).1 then .waiting else .gone),
      (s.write writes (.content json)).2)

/-- What is done for a line. -/
def SentMessages.forward? (writes : Writes) (s : SentMessages) : Option SseMessage → Ended × SentMessages
  | none => (.waiting, s)
  | some m => s.forward writes m

/-- The loop over the lines, after so much of the present line. -/
def processLines (contentOf : ContentOf) (writes : Writes) (s : SentMessages) (inHeaders : Bool)
    (line : List UInt8) : List UInt8 → Ended × SentMessages × Buffer
  | [] => (.waiting, s, ⟨line, inHeaders⟩)
  | c :: rest =>
    if c = 10 then
      let read := readLine contentOf inHeaders (rtrim line)
      match s.forward? writes read.2 with
      | (.waiting, s') => processLines contentOf writes s' read.1 [] rest
      | (ended, s') => (ended, s', ⟨rest, read.1⟩)
    else processLines contentOf writes s inHeaders (line ++ [c]) rest

/-- `$buffer .= $chunk`, and the loop over the lines. -/
def receive (contentOf : ContentOf) (writes : Writes) (s : SentMessages) (b : Buffer)
    (chunk : List UInt8) : Ended × SentMessages × Buffer :=
  processLines contentOf writes s b.inHeaders [] (b.text ++ chunk)

/-- The loop over the chunks. -/
def readChunks (contentOf : ContentOf) (writes : Writes) (s : SentMessages) (b : Buffer) :
    List (List UInt8) → Ended × SentMessages × Buffer
  | [] => (.waiting, s, b)
  | chunk :: rest =>
    match receive contentOf writes s b chunk with
    | (.waiting, s', b') => readChunks contentOf writes s' b' rest
    | out => out

/-! ## The upstream -/

/-- How the transfer of an answer ends. -/
inductive Ending
  | endOfBody
  /-- the upstream goes away in the middle -/
  | disconnect
  /-- nothing comes any more -/
  | idle
  | transportError
  deriving DecidableEq, Repr

/-- What the upstream does for a request. -/
structure Upstream where
  status : Nat
  /-- the answer as it arrives -/
  chunks : List (List UInt8)
  ending : Ending
  deriving DecidableEq, Repr

/-- What else a call meets. -/
structure Link where
  /-- there is a connection, and the request is sent -/
  ready : Bool
  writes : Writes
  /-- the empty writes with which the client is looked for before the `k`-th response arrives -/
  checks : Nat → List Bool
  /-- the wait for the completion of a transfer times out -/
  timedOut : Bool

/-- A client that takes everything, and a connection to the upstream. -/
def openLink : Link := ⟨true, fun _ => true, fun _ => [], false⟩

/-- What a call has sent, and what it returns, if it returns. -/
structure Outcome where
  success : Option Bool
  sent : SentMessages
  deriving DecidableEq, Repr

/-- A call that fails before there is an answer. -/
def Outcome.refused : Outcome := ⟨some false, .nothing⟩

/-! ## The messages of an answer -/

/-- The messages in a text, and what is kept of it, after so much of the present line. -/
def messages (contentOf : ContentOf) (inHeaders : Bool) (line : List UInt8) :
    List UInt8 → List SseMessage × Buffer
  | [] => ([], ⟨line, inHeaders⟩)
  | c :: rest =>
    if c = 10 then
      let read := readLine contentOf inHeaders (rtrim line)
      let after := messages contentOf read.1 [] rest
      (read.2.toList ++ after.1, after.2)
    else messages contentOf inHeaders (line ++ [c]) rest

/-- Pass messages on, until the marker or until the client takes no more. -/
def deliver (writes : Writes) (s : SentMessages) : List SseMessage → Ended × SentMessages
  | [] => (.waiting, s)
  | m :: rest =>
    match s.forward writes m with
    | (.waiting, s') => deliver writes s' rest
    | out => out

/-- What is passed on before the marker. -/
def beforeDone (ms : List SseMessage) : List SseMessage := ms.takeWhile (· ≠ .done)

/-- The client takes all that comes before the marker, if `n` messages were tried before. -/
def Stays (writes : Writes) (n : Nat) (ms : List SseMessage) : Prop :=
  ∀ k < (beforeDone ms).length, writes (n + k) = true

instance (writes : Writes) (n : Nat) (ms : List SseMessage) : Decidable (Stays writes n ms) :=
  inferInstanceAs (Decidable (∀ k < _, _))

section

variable {contentOf : ContentOf} {writes : Writes} {s : SentMessages} {b : Buffer} {inHeaders : Bool}
  {line : List UInt8} {ms : List SseMessage}

/-- The messages of a text that comes in two parts. -/
theorem messages_append (first second : List UInt8) :
    messages contentOf inHeaders line (first ++ second) =
      ((messages contentOf inHeaders line first).1 ++
        (messages contentOf (messages contentOf inHeaders line first).2.inHeaders
          (messages contentOf inHeaders line first).2.text second).1,
        (messages contentOf (messages contentOf inHeaders line first).2.inHeaders
          (messages contentOf inHeaders line first).2.text second).2) := by
  induction first generalizing line inHeaders with
  | nil => rfl
  | cons c first ih =>
    rw [List.cons_append]
    by_cases hc : c = 10
    · simp only [messages, if_pos hc, ih, List.append_assoc]
    · simp only [messages, if_neg hc, ih]

/-- A text that ends no line. -/
theorem messages_unbroken {text : List UInt8} (h : 10 ∉ text) :
    messages contentOf inHeaders line text = ([], ⟨line ++ text, inHeaders⟩) := by
  induction text generalizing line with
  | nil => rw [messages, List.append_nil]
  | cons c text ih =>
    have hc : c ≠ 10 := fun hc => h (hc ▸ List.mem_cons_self)
    rw [messages, if_neg hc, ih fun hm => h (List.mem_cons_of_mem c hm), List.append_assoc,
      List.singleton_append]

/-- What is kept ends no line. -/
theorem messages_rest (h : 10 ∉ line) (text : List UInt8) :
    10 ∉ (messages contentOf inHeaders line text).2.text := by
  induction text generalizing line inHeaders with
  | nil => exact h
  | cons c text ih =>
    rw [messages]
    split
    · exact ih List.not_mem_nil
    · next hc =>
      refine ih fun hm => ?_
      rcases List.mem_append.mp hm with hm | hm
      · exact h hm
      · exact hc (List.mem_singleton.mp hm).symm

/-- The text that is kept is read again with the next chunk. -/
theorem messages_text (h : 10 ∉ b.text) (chunk : List UInt8) :
    messages contentOf b.inHeaders [] (b.text ++ chunk) =
      messages contentOf b.inHeaders b.text chunk := by
  rw [messages_append, messages_unbroken h]
  rfl

/-- **The loop over the lines** delivers the messages in them. -/
theorem processLines_eq (text : List UInt8) :
    ((processLines contentOf writes s inHeaders line text).1,
        (processLines contentOf writes s inHeaders line text).2.1) =
      deliver writes s (messages contentOf inHeaders line text).1 ∧
    ((processLines contentOf writes s inHeaders line text).1 = .waiting →
      (processLines contentOf writes s inHeaders line text).2.2 =
        (messages contentOf inHeaders line text).2) := by
  induction text generalizing s line inHeaders with
  | nil => exact ⟨rfl, fun _ => rfl⟩
  | cons c text ih =>
    by_cases hc : c = 10
    · simp only [processLines, messages, if_pos hc]
      cases hread : (readLine contentOf inHeaders (rtrim line)).2 with
      | none => simpa [SentMessages.forward?] using ih
      | some m =>
        simp only [SentMessages.forward?, Option.toList_some, List.singleton_append, deliver]
        cases hout : s.forward writes m with
        | mk ended s' =>
          cases ended with
          | waiting => simpa using ih
          | done => simp
          | gone => simp
    · simp only [processLines, messages, if_neg hc]
      exact ih

/-- Messages in two parts, where the first ends in waiting. -/
theorem deliver_append {first : List SseMessage} (h : (deliver writes s first).1 = .waiting)
    (second : List SseMessage) :
    deliver writes s (first ++ second) = deliver writes (deliver writes s first).2 second := by
  induction first generalizing s with
  | nil => rfl
  | cons m first ih =>
    simp only [List.cons_append, deliver] at h ⊢
    cases hout : s.forward writes m with
    | mk ended s' =>
      rw [hout] at h
      cases ended with
      | waiting => exact ih h
      | done => cases h
      | gone => cases h

/-- And where it does not. -/
theorem deliver_append_stopped {first : List SseMessage} (h : (deliver writes s first).1 ≠ .waiting)
    (second : List SseMessage) : deliver writes s (first ++ second) = deliver writes s first := by
  induction first generalizing s with
  | nil => exact absurd rfl h
  | cons m first ih =>
    simp only [List.cons_append, deliver] at h ⊢
    cases hout : s.forward writes m with
    | mk ended s' =>
      rw [hout] at h
      cases ended with
      | waiting => exact ih h
      | done => rfl
      | gone => rfl

variable (contentOf writes s) in
/-- What is received is delivered. -/
theorem receive_eq (h : 10 ∉ b.text) (chunk : List UInt8) :
    ((receive contentOf writes s b chunk).1, (receive contentOf writes s b chunk).2.1) =
      deliver writes s (messages contentOf b.inHeaders b.text chunk).1 ∧
    ((receive contentOf writes s b chunk).1 = .waiting →
      (receive contentOf writes s b chunk).2.2 =
        (messages contentOf b.inHeaders b.text chunk).2) := by
  rw [← messages_text h]
  exact processLines_eq (b.text ++ chunk)

variable (contentOf writes s) in
/-- **The loop over the chunks** delivers the messages of the whole text, so that it does not matter
where the text is cut. What is left of a line waits in the buffer, which never holds a line feed
between two chunks. -/
theorem readChunks_eq (h : 10 ∉ b.text) (chunks : List (List UInt8)) :
    ((readChunks contentOf writes s b chunks).1, (readChunks contentOf writes s b chunks).2.1) =
      deliver writes s (messages contentOf b.inHeaders b.text chunks.flatten).1 := by
  induction chunks generalizing s b with
  | nil => rfl
  | cons chunk rest ih =>
    obtain ⟨hsent, hbuffer⟩ := receive_eq contentOf writes s h chunk
    rw [List.flatten_cons, messages_append, readChunks]
    generalize receive contentOf writes s b chunk = out at hsent hbuffer ⊢
    obtain ⟨ended, s', b'⟩ := out
    simp only at hsent hbuffer ⊢
    cases ended with
    | waiting =>
      have hb' := hbuffer rfl
      have hwaiting := congrArg Prod.fst hsent
      rw [deliver_append hwaiting.symm, ← hsent, ← hb']
      exact ih s' (hb' ▸ messages_rest h chunk)
    | done => rw [deliver_append_stopped (by rw [← hsent]; simp), ← hsent]
    | gone => rw [deliver_append_stopped (by rw [← hsent]; simp), ← hsent]

/-! ## How a delivery ends -/

theorem stays_cons_content {json : List UInt8} {n : Nat} :
    Stays writes n (.content json :: ms) ↔ writes n = true ∧ Stays writes (n + 1) ms := by
  have hlen : (beforeDone (.content json :: ms)).length = (beforeDone ms).length + 1 := by
    simp [beforeDone]
  rw [Stays, hlen]
  constructor
  · intro h
    refine ⟨h 0 (Nat.succ_pos _), fun k hk => ?_⟩
    rw [Nat.add_assoc, Nat.add_comm 1 k]
    exact h (k + 1) (Nat.succ_lt_succ hk)
  · rintro ⟨h0, h⟩ k hk
    cases k with
    | zero => exact h0
    | succ k =>
      rw [Nat.add_comm k 1, ← Nat.add_assoc]
      exact h k (Nat.lt_of_succ_lt_succ hk)

theorem stays_cons_done {n : Nat} : Stays writes n (.done :: ms) := by
  intro k hk
  simp [beforeDone] at hk

/-- **How a delivery ends**: at the marker where there is one, unless the client takes too little. -/
theorem deliver_ended (ms : List SseMessage) (s : SentMessages) :
    (deliver writes s ms).1 =
      if Stays writes s.tried ms then if .done ∈ ms then .done else .waiting else .gone := by
  induction ms generalizing s with
  | nil =>
    have hstays : Stays writes s.tried [] := fun k hk => absurd hk (Nat.not_lt_zero k)
    rw [if_pos hstays, if_neg List.not_mem_nil]
    rfl
  | cons m ms ih =>
    cases m with
    | done =>
      rw [if_pos stays_cons_done, if_pos List.mem_cons_self]
      rfl
    | content json =>
      simp only [stays_cons_content, List.mem_cons, reduceCtorEq, false_or, deliver,
        SentMessages.forward]
      cases hwrite : writes s.tried with
      | true => simpa [SentMessages.write, hwrite] using ih _
      | false => simp [SentMessages.write, hwrite]

theorem deliver_done_iff {ms : List SseMessage} :
    (deliver writes s ms).1 = .done ↔ Stays writes s.tried ms ∧ .done ∈ ms := by
  rw [deliver_ended]
  by_cases hstays : Stays writes s.tried ms
  · by_cases hdone : SseMessage.done ∈ ms <;> simp [hstays, hdone]
  · simp [hstays]

theorem deliver_waiting_iff {ms : List SseMessage} :
    (deliver writes s ms).1 = .waiting ↔ Stays writes s.tried ms ∧ .done ∉ ms := by
  rw [deliver_ended]
  by_cases hstays : Stays writes s.tried ms
  · by_cases hdone : SseMessage.done ∈ ms <;> simp [hstays, hdone]
  · simp [hstays]

theorem deliver_gone_iff {ms : List SseMessage} :
    (deliver writes s ms).1 = .gone ↔ ¬ Stays writes s.tried ms := by
  rw [deliver_ended]
  by_cases hstays : Stays writes s.tried ms
  · by_cases hdone : SseMessage.done ∈ ms <;> simp [hstays, hdone]
  · simp [hstays]

variable (writes) in
/-- The marker is sent only where the delivery ends at it. -/
theorem done_mem_deliver (ms : List SseMessage) (s : SentMessages) (hs : .done ∉ s.messages)
    (h : .done ∈ (deliver writes s ms).2.messages) : (deliver writes s ms).1 = .done := by
  induction ms generalizing s with
  | nil => exact absurd h hs
  | cons m ms ih =>
    cases m with
    | done => rfl
    | content json =>
      simp only [deliver, SentMessages.forward] at h ⊢
      cases hwrite : writes s.tried with
      | true =>
        simp only [SentMessages.write, hwrite, if_true] at h ⊢
        exact ih _ (by simpa using hs) h
      | false =>
        simp only [SentMessages.write, hwrite, Bool.false_eq_true, if_false] at h
        exact absurd h hs

/-- The client stays for messages in two parts, where the first ends in waiting. -/
theorem stays_append {first : List SseMessage} (h : (deliver writes s first).1 = .waiting)
    (second : List SseMessage) :
    Stays writes s.tried (first ++ second) ↔
      Stays writes (deliver writes s first).2.tried second := by
  have hgone : ¬ Stays writes s.tried (first ++ second) ↔
      ¬ Stays writes (deliver writes s first).2.tried second := by
    rw [← deliver_gone_iff, ← deliver_gone_iff, deliver_append h]
  exact Decidable.not_iff_not.mp hgone

/-- Where the first ends at the marker, what comes after it does not matter. -/
theorem stays_append_done {first : List SseMessage} (h : (deliver writes s first).1 = .done)
    (second : List SseMessage) : Stays writes s.tried (first ++ second) := by
  have hstopped : (deliver writes s first).1 ≠ .waiting := by rw [h]; exact Ended.noConfusion
  rw [← deliver_append_stopped hstopped second] at h
  exact (deliver_done_iff.mp h).1

/-- Nor where the client has gone. -/
theorem not_stays_append {first : List SseMessage} (h : (deliver writes s first).1 = .gone)
    (second : List SseMessage) : ¬ Stays writes s.tried (first ++ second) := by
  have hstopped : (deliver writes s first).1 ≠ .waiting := by rw [h]; exact Ended.noConfusion
  rw [← deliver_append_stopped hstopped second] at h
  exact deliver_gone_iff.mp h

/-- How the messages of an answer are passed on: up to the marker, up to the write at which the
client is gone, or all of them with the call still waiting for more. -/
inductive Delivered (writes : Writes) (ms : List SseMessage) : Ended → SentMessages → Prop
  | done {s : SentMessages} : Stays writes 0 ms → .done ∈ ms → Delivered writes ms .done s
  | gone {s : SentMessages} : ¬ Stays writes 0 ms → .done ∉ s.messages → Delivered writes ms .gone s
  | waiting {s : SentMessages} : Stays writes 0 ms → .done ∉ ms → .done ∉ s.messages →
      Delivered writes ms .waiting s

variable (writes) in
theorem delivered (ms : List SseMessage) :
    Delivered writes ms (deliver writes .nothing ms).1 (deliver writes .nothing ms).2 := by
  have hsent := done_mem_deliver writes ms .nothing List.not_mem_nil
  cases hended : (deliver writes .nothing ms).1 with
  | done =>
    obtain ⟨hstays, hdone⟩ := deliver_done_iff.mp hended
    exact .done hstays hdone
  | gone =>
    rw [hended] at hsent
    exact .gone (deliver_gone_iff.mp hended) fun hmem => Ended.noConfusion (hsent hmem)
  | waiting =>
    rw [hended] at hsent
    obtain ⟨hstays, hdone⟩ := deliver_waiting_iff.mp hended
    exact .waiting hstays hdone fun hmem => Ended.noConfusion (hsent hmem)

variable (contentOf writes) in
/-- **A whole answer**, as the loop over its chunks passes it on, from a buffer in which nothing
waits: what is delivered does not depend on the chunks. -/
theorem readChunks_delivered (inHeaders : Bool) (chunks : List (List UInt8)) :
    Delivered writes (messages contentOf inHeaders [] chunks.flatten).1
      (readChunks contentOf writes .nothing ⟨[], inHeaders⟩ chunks).1
      (readChunks contentOf writes .nothing ⟨[], inHeaders⟩ chunks).2.1 := by
  have hnone : 10 ∉ (⟨[], inHeaders⟩ : Buffer).text := List.not_mem_nil
  have hread := readChunks_eq contentOf writes .nothing hnone chunks
  have hdelivered := delivered writes (messages contentOf inHeaders [] chunks.flatten).1
  rwa [← hread] at hdelivered

end

end SocketHandoff.Php
