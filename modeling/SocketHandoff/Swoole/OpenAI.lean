import SocketHandoff.Php.Forward

/-!
# Answers of an OpenAI API, in the Swoole daemon

`streamFromOpenAIHttp2` reads what the reader coroutine puts into the channel of its stream: a
response for each chunk and one without data at the end. `pop` returns `false` where nothing comes
in time, and where the reader has ended. `streamFromOpenAIHttp1` has the whole answer at once. What
the two clients of Swoole report of an answer is a parameter.
-/

namespace SocketHandoff.Swoole

open Php

/-- What the clients of Swoole report of an answer. -/
structure Clients where
  /-- `statusCode` and `body` after `execute` -/
  execute : Link → Upstream → Int × List UInt8
  /-- a response without data comes behind the last one -/
  emptyResponse : Upstream → Bool

/-- **What is documented of them.** `execute` has the status and the body of a whole answer. Where
there is none, because there is no connection, nothing comes in time or the server goes away, the
status is negative. -/
structure Clients.Documented (clients : Clients) (link : Link) (u : Upstream) : Prop where
  whole : link.ready = true → u.ending = .endOfBody →
    clients.execute link u = ((u.status : Int), u.chunks.flatten)
  failed : link.ready = false ∨ u.ending ≠ .endOfBody → (clients.execute link u).1 < 0

/-- Clients that do as documented. -/
def Clients.asDocumented : Clients where
  execute link u :=
    if link.ready = true ∧ u.ending = .endOfBody then ((u.status : Int), u.chunks.flatten)
    else (-3, [])
  emptyResponse u := u.ending = .endOfBody

theorem Clients.asDocumented_documented (link : Link) (u : Upstream) :
    Clients.asDocumented.Documented link u := by
  constructor
  · intro hready hending
    exact if_pos ⟨hready, hending⟩
  · intro hfailed
    have hnot : ¬ (link.ready = true ∧ u.ending = .endOfBody) := by
      rintro ⟨hready, hending⟩
      exact hfailed.elim (fun h => absurd (h ▸ hready) Bool.false_ne_true) fun h => h hending
    have hnothing : Clients.asDocumented.execute link u = (-3, []) := if_neg hnot
    rw [hnothing]
    decide

/-- `socketWriteAll` where its result is not looked at. -/
def writeQuietly (writes : Writes) (s : SentMessages) (m : SseMessage) : SentMessages :=
  { (s.write writes m).2 with bytes := s.bytes }

/-- The loop of `streamFromOpenAIHttp2`, before the `k`-th response. What the code takes for the end
of the answer is an empty response, which the client reports and not the upstream; it comes as a
parameter. -/
def popResponses (contentOf : ContentOf) (link : Link) (emptyResponse : Bool) (k : Nat)
    (s : SentMessages) (b : Buffer) : List (List UInt8) → Outcome
  | [] =>
    if (link.checks k).all id then
      if emptyResponse then ⟨some true, (s.write link.writes .done).2⟩
      -- no response, until the stream has been idle for too long
      else ⟨some true, writeQuietly link.writes s .done⟩
    else ⟨some false, s⟩
  | chunk :: rest =>
    if (link.checks k).all id then
      if chunk = [] then ⟨some true, (s.write link.writes .done).2⟩
      else
        match receive contentOf link.writes s b chunk with
        | (.done, s', _) => ⟨some true, s'⟩
        | (.gone, s', _) => ⟨some false, s'⟩
        | (.waiting, s', b') => popResponses contentOf link emptyResponse (k + 1) s' b' rest
    else ⟨some false, s⟩

/-- `streamFromOpenAIHttp2`. -/
def streamFromOpenAIHttp2 (clients : Clients) (contentOf : ContentOf) (link : Link) (u : Upstream) :
    Outcome :=
  if link.ready then
    popResponses contentOf link (clients.emptyResponse u) 0 .nothing ⟨[], false⟩ u.chunks
  else .refused

/-- The loop over the lines of an answer. -/
def forwardLines (contentOf : ContentOf) (writes : Writes) (s : SentMessages) :
    List (List UInt8) → Ended × SentMessages
  | [] => (.waiting, s)
  | line :: rest =>
    match s.forward? writes (messageOf contentOf (rtrim line)) with
    | (.waiting, s') => forwardLines contentOf writes s' rest
    | out => out

/-- `streamFromOpenAIHttp1`. -/
def streamFromOpenAIHttp1 (clients : Clients) (contentOf : ContentOf) (link : Link) (u : Upstream) :
    Outcome :=
  if (clients.execute link u).1 ≠ 200 then .refused
  else
    match forwardLines contentOf link.writes .nothing ((clients.execute link u).2.splitOn 10) with
    | (.done, s) => ⟨some true, s⟩
    | (.gone, s) => ⟨some false, s⟩
    | (.waiting, s) => ⟨some true, (s.write link.writes .done).2⟩

/-! ## The lines of a whole answer -/

/-- What a line is passed on as, with the carriage returns at its end. -/
def lineMessage (contentOf : ContentOf) (line : List UInt8) : Option SseMessage :=
  messageOf contentOf (rtrim line)

/-- What the lines of a text are passed on as, the last one among them. -/
def passedOn (contentOf : ContentOf) (text : List UInt8) : List SseMessage :=
  (text.splitOn 10).filterMap (lineMessage contentOf)

/-- The loop over the lines delivers what they are passed on as. -/
theorem forwardLines_eq {contentOf : ContentOf} (writes : Writes) (s : SentMessages)
    (lines : List (List UInt8)) :
    forwardLines contentOf writes s lines =
      deliver writes s (lines.filterMap (lineMessage contentOf)) := by
  induction lines generalizing s with
  | nil => rfl
  | cons line rest ih =>
    rw [forwardLines, ← lineMessage]
    cases hline : lineMessage contentOf line with
    | none =>
      rw [List.filterMap_cons_none hline]
      exact ih s
    | some m =>
      rw [List.filterMap_cons_some hline, deliver, SentMessages.forward?]
      cases hout : s.forward writes m with
      | mk ended s' =>
        cases ended with
        | waiting => exact ih s'
        | done => rfl
        | gone => rfl

end SocketHandoff.Swoole
