import SocketHandoff.Swoole.OpenAI
import Mathlib.Data.List.TakeWhile

/-!
# The two calls of the Swoole daemon

`streamFromOpenAIHttp1` splits a whole answer into lines. `streamFromOpenAIHttp2` reads it frame by
frame: it takes a frame without data for the end, and never looks at what follows the last line feed.
For a client that takes everything the calls agree where nothing of this has a content to pass on.
-/

namespace SocketHandoff.Swoole

open Php

/-! ## The statement -/

/-- The bytes that a call sends. -/
def sentText (out : Outcome) : List UInt8 := out.sent.messages.flatMap SseMessage.text

/-- The calls send the same bytes and return the same pair. -/
structure Agree (clients : Clients) (contentOf : ContentOf) (link : Link) (u : Upstream) : Prop where
  text : sentText (streamFromOpenAIHttp2 clients contentOf link u) =
    sentText (streamFromOpenAIHttp1 clients contentOf link u)
  success : (streamFromOpenAIHttp2 clients contentOf link u).success =
    (streamFromOpenAIHttp1 clients contentOf link u).success
  bytesSent : (streamFromOpenAIHttp2 clients contentOf link u).sent.bytes =
    (streamFromOpenAIHttp1 clients contentOf link u).sent.bytes

/-- The whole answer arrives, and the client takes all that it is sent. Of the two clients this asks
what is documented, and that the end of the stream is a response of its own: where the last response
with data ended the stream, HTTP/2 would wait for another one. -/
structure Whole (clients : Clients) (link : Link) (u : Upstream) : Prop where
  documented : clients.Documented link u
  emptyResponse : clients.emptyResponse u = true
  ready : link.ready = true
  status : u.status = 200
  ending : u.ending = .endOfBody
  writes : ∀ n, link.writes n = true
  checks : ∀ k, (link.checks k).all id = true

/-- What HTTP/2 reads: the frames before the first one without data. -/
def heard (frames : List (List UInt8)) : List UInt8 := (frames.takeWhile (· ≠ [])).flatten

/-- What follows the last line feed of a text. -/
def lastLine (text : List UInt8) : List UInt8 := (text.splitOn 10).getLast (List.splitOn_ne_nil _ _)

/-- What HTTP/2 does not look at: what follows the last line feed that it reads, and the frames from
the first one without data on. -/
def unheard (frames : List (List UInt8)) : List UInt8 :=
  lastLine (heard frames) ++ (frames.dropWhile (· ≠ [])).flatten

/-- HTTP/2 comes to the marker, or there is no content before the marker in what it does not look
at. -/
def NothingLost (contentOf : ContentOf) (frames : List (List UInt8)) : Prop :=
  .done ∈ (messages contentOf false [] (heard frames)).1 ∨
    beforeDone (passedOn contentOf (unheard frames)) = []

/-! ## Lines -/

variable {clients : Clients} {contentOf : ContentOf} {link : Link} {u : Upstream} {s : SentMessages}
  {line text : List UInt8}

theorem splitOn_line (h : 10 ∉ line) (rest : List UInt8) :
    (line ++ 10 :: rest).splitOn 10 = line :: rest.splitOn 10 := by
  rw [List.splitOn_append_cons_self, List.splitOn_eq_singleton h, List.singleton_append]

theorem lastLine_line (line rest : List UInt8) : lastLine (line ++ 10 :: rest) = lastLine rest := by
  simp only [lastLine, List.splitOn_append_cons_self]
  exact List.getLast_append_of_ne_nil _ (List.splitOn_ne_nil _ _)

theorem lastLine_unbroken (h : 10 ∉ line) : lastLine line = line := by
  simp only [lastLine, List.splitOn_eq_singleton h, List.getLast_singleton]

variable (contentOf) in
/-- **The loop that keeps a remainder** finds the lines that end in the text, and keeps the last one. -/
theorem messages_lines (h : 10 ∉ line) (text : List UInt8) :
    passedOn contentOf (line ++ text) =
        (messages contentOf false line text).1 ++
          (lineMessage contentOf (messages contentOf false line text).2.text).toList ∧
      (messages contentOf false line text).2 = ⟨lastLine (line ++ text), false⟩ := by
  induction text generalizing line with
  | nil =>
    rw [List.append_nil, passedOn, List.splitOn_eq_singleton h, lastLine_unbroken h]
    refine ⟨?_, rfl⟩
    simp only [messages, List.nil_append, List.filterMap_cons, List.filterMap_nil]
    cases lineMessage contentOf line <;> rfl
  | cons c text ih =>
    by_cases hc : c = 10
    · subst hc
      obtain ⟨hpassed, hkept⟩ := ih List.not_mem_nil
      rw [List.nil_append] at hpassed hkept
      have hstep : messages contentOf false line (10 :: text) =
          ((lineMessage contentOf line).toList ++ (messages contentOf false [] text).1,
            (messages contentOf false [] text).2) := by
        rw [messages, if_pos rfl]
        rfl
      rw [hstep, lastLine_line, ← hkept]
      refine ⟨?_, rfl⟩
      rw [passedOn, splitOn_line h, List.append_assoc, ← hpassed, passedOn]
      cases hline : lineMessage contentOf line with
      | none => rw [List.filterMap_cons_none hline]; rfl
      | some m => rw [List.filterMap_cons_some hline]; rfl
    · have hnot : 10 ∉ line ++ [c] := by
        intro hm
        rcases List.mem_append.mp hm with hm | hm
        · exact h hm
        · exact hc (List.mem_singleton.mp hm).symm
      have hstep : messages contentOf false line (c :: text) =
          messages contentOf false (line ++ [c]) text := by
        rw [messages, if_neg hc]
      rw [hstep, List.append_cons]
      exact ih hnot

variable (contentOf) in
/-- What comes later is read with the last line of what came before it. -/
theorem passedOn_append (text later : List UInt8) :
    passedOn contentOf (text ++ later) =
      (messages contentOf false [] text).1 ++ passedOn contentOf (lastLine text ++ later) := by
  obtain ⟨-, hkept⟩ := messages_lines contentOf List.not_mem_nil text
  obtain ⟨hwhole, -⟩ := messages_lines contentOf List.not_mem_nil (text ++ later)
  have hline : 10 ∉ lastLine text := by
    have hrest : 10 ∉ (messages contentOf false [] text).2.text :=
      messages_rest List.not_mem_nil text
    rwa [hkept] at hrest
  obtain ⟨hlater, -⟩ := messages_lines contentOf hline later
  rw [List.nil_append] at hwhole hkept
  rw [hwhole, hlater, messages_append, hkept, List.append_assoc]

/-! ## A client that takes everything -/

/-- Messages have been sent. -/
def sentAll (s : SentMessages) (ms : List SseMessage) : SentMessages :=
  ⟨s.messages ++ ms, s.tried + ms.length, s.bytes + (ms.flatMap SseMessage.text).length⟩

theorem sentAll_nil (s : SentMessages) : sentAll s [] = s := by
  simp [sentAll]

theorem sentAll_append (s : SentMessages) (ms ms' : List SseMessage) :
    sentAll (sentAll s ms) ms' = sentAll s (ms ++ ms') := by
  simp [sentAll, Nat.add_assoc]

theorem write_sentAll {writes : Writes} (h : ∀ n, writes n = true) (s : SentMessages)
    (m : SseMessage) : s.write writes m = (true, sentAll s [m]) := by
  simp [SentMessages.write, h, sentAll]

/-- **A delivery** to a client that takes everything. -/
theorem deliver_sentAll {writes : Writes} (h : ∀ n, writes n = true) (s : SentMessages)
    (ms : List SseMessage) :
    deliver writes s ms =
      if .done ∈ ms then (.done, sentAll s (beforeDone ms ++ [.done]))
      else (.waiting, sentAll s ms) := by
  induction ms generalizing s with
  | nil => simp [deliver, sentAll_nil]
  | cons m ms ih =>
    cases m with
    | done => simp [deliver, SentMessages.forward, write_sentAll h, beforeDone]
    | content json =>
      simp only [deliver, SentMessages.forward, write_sentAll h, if_true, ih, sentAll_append]
      by_cases hdone : .done ∈ ms
      · simp [hdone, beforeDone]
      · simp [hdone]

theorem beforeDone_of_notMem {ms : List SseMessage} (h : .done ∉ ms) : beforeDone ms = ms := by
  rw [beforeDone, List.takeWhile_eq_self_iff]
  intro m hm
  have hne : m ≠ .done := fun e => h (e ▸ hm)
  simpa using hne

theorem beforeDone_append_of_mem {ms : List SseMessage} (h : .done ∈ ms) (ms' : List SseMessage) :
    beforeDone (ms ++ ms') = beforeDone ms := by
  induction ms with
  | nil => cases h
  | cons m ms ih =>
    cases m with
    | done => simp [beforeDone]
    | content json =>
      have hstep : ∀ l, beforeDone (.content json :: l) = .content json :: beforeDone l := by
        intro l
        simp [beforeDone]
      rw [List.cons_append, hstep, hstep, ih (by simpa using h)]

theorem beforeDone_append_of_notMem {ms : List SseMessage} (h : .done ∉ ms)
    (ms' : List SseMessage) : beforeDone (ms ++ ms') = ms ++ beforeDone ms' := by
  rw [beforeDone, List.takeWhile_append_of_pos, ← beforeDone]
  intro m hm
  have hne : m ≠ .done := fun e => h (e ▸ hm)
  simpa using hne

/-- What a call has done that has passed these messages on, up to the marker, and then the marker. -/
def forwarded (ms : List SseMessage) : Outcome :=
  ⟨some true, sentAll .nothing (beforeDone ms ++ [.done])⟩

/-- **HTTP/1** passes on the lines of the whole answer. -/
theorem streamFromOpenAIHttp1_eq (h : Whole clients link u) :
    streamFromOpenAIHttp1 clients contentOf link u =
      forwarded (passedOn contentOf u.chunks.flatten) := by
  have hanswer : clients.execute link u = (200, u.chunks.flatten) := by
    rw [h.documented.whole h.ready h.ending, h.status]
    rfl
  rw [streamFromOpenAIHttp1, hanswer, if_neg (fun h => h rfl), forwardLines_eq, deliver_sentAll h.writes,
    ← passedOn]
  by_cases hdone : .done ∈ passedOn contentOf u.chunks.flatten
  · rw [if_pos hdone]
    rfl
  · rw [if_neg hdone]
    simp only [write_sentAll h.writes, sentAll_append]
    rw [forwarded, beforeDone_of_notMem hdone]

/-- The loop over the frames. -/
theorem popResponses_eq (h : Whole clients link u) (k : Nat) (s : SentMessages) {b : Buffer}
    (hb : 10 ∉ b.text) (frames : List (List UInt8)) :
    popResponses contentOf link true k s b frames =
      ⟨some true, sentAll s (beforeDone (messages contentOf b.inHeaders b.text (heard frames)).1 ++
        [.done])⟩ := by
  induction frames generalizing k s b with
  | nil =>
    rw [popResponses, if_pos (h.checks k), if_pos rfl, write_sentAll h.writes]
    rfl
  | cons chunk rest ih =>
    rw [popResponses, if_pos (h.checks k)]
    by_cases hempty : chunk = []
    · have hheard : heard (chunk :: rest) = [] := by
        rw [heard, List.takeWhile_cons_of_neg (by simpa using hempty), List.flatten_nil]
      rw [if_pos hempty, hheard, write_sentAll h.writes]
      rfl
    · have hheard : heard (chunk :: rest) = chunk ++ heard rest := by
        rw [heard, List.takeWhile_cons_of_pos (by simpa using hempty), List.flatten_cons, ← heard]
      obtain ⟨hsent, hbuffer⟩ := receive_eq contentOf link.writes s hb chunk
      rw [if_neg hempty, hheard, messages_append]
      generalize receive contentOf link.writes s b chunk = out at hsent hbuffer ⊢
      obtain ⟨ended, s', b'⟩ := out
      rw [deliver_sentAll h.writes] at hsent
      by_cases hdone : .done ∈ (messages contentOf b.inHeaders b.text chunk).1
      · rw [if_pos hdone] at hsent
        obtain ⟨rfl, rfl⟩ := Prod.mk.inj hsent
        simp only
        rw [beforeDone_append_of_mem hdone]
      · rw [if_neg hdone] at hsent
        obtain ⟨rfl, rfl⟩ := Prod.mk.inj hsent
        obtain rfl : b' = _ := hbuffer rfl
        have hrest : 10 ∉ (messages contentOf b.inHeaders b.text chunk).2.text :=
          messages_rest hb chunk
        simp only
        rw [ih (k + 1) _ hrest, sentAll_append, beforeDone_append_of_notMem hdone,
          List.append_assoc]

/-- **HTTP/2** passes on the lines that end in what it reads. -/
theorem streamFromOpenAIHttp2_eq (h : Whole clients link u) :
    streamFromOpenAIHttp2 clients contentOf link u =
      forwarded (messages contentOf false [] (heard u.chunks)).1 := by
  have hb : 10 ∉ (⟨[], false⟩ : Buffer).text := List.not_mem_nil
  rw [streamFromOpenAIHttp2, if_pos h.ready, h.emptyResponse]
  exact popResponses_eq h 0 .nothing hb u.chunks

/-! ## Agreement -/

theorem flatten_eq_heard (frames : List (List UInt8)) :
    frames.flatten = heard frames ++ (frames.dropWhile (· ≠ [])).flatten := by
  rw [heard, ← List.flatten_append, List.takeWhile_append_dropWhile]

/-- No message is empty. -/
theorem text_ne_nil (m : SseMessage) : m.text ≠ [] := by
  have hdata : ascii "data: " ≠ [] := by decide
  cases m with
  | done => decide
  | content json => simp [SseMessage.text, hdata]

/-- Messages that are more than others are more bytes. -/
theorem sentAll_inj {ms extra : List SseMessage}
    (h : (sentAll s (ms ++ [.done])).bytes = (sentAll s (ms ++ extra ++ [.done])).bytes) :
    extra = [] := by
  simp only [sentAll, List.flatMap_append, List.length_append] at h
  have hnone : (extra.flatMap SseMessage.text).length = 0 := by omega
  cases extra with
  | nil => rfl
  | cons m extra =>
    rw [List.flatMap_cons, List.length_append] at hnone
    have hpos := List.length_pos_iff.mpr (text_ne_nil m)
    omega

/-- **The two calls agree** exactly where nothing is lost. HTTP/1 waits for the whole answer and
splits it; HTTP/2 gets it in frames, where one without data and one that does not end in a line are
the ones by which something can be lost. -/
theorem agree_iff (h : Whole clients link u) :
    Agree clients contentOf link u ↔ NothingLost contentOf u.chunks := by
  have hlines : passedOn contentOf u.chunks.flatten =
      (messages contentOf false [] (heard u.chunks)).1 ++
        passedOn contentOf (unheard u.chunks) := by
    rw [flatten_eq_heard, passedOn_append, unheard]
  rw [NothingLost]
  by_cases hdone : .done ∈ (messages contentOf false [] (heard u.chunks)).1
  · have hsame : forwarded (passedOn contentOf u.chunks.flatten) =
        forwarded (messages contentOf false [] (heard u.chunks)).1 := by
      rw [forwarded, forwarded, hlines, beforeDone_append_of_mem hdone]
    refine iff_of_true ?_ (.inl hdone)
    constructor <;> rw [streamFromOpenAIHttp2_eq h, streamFromOpenAIHttp1_eq h, hsame]
  · have hlost : forwarded (passedOn contentOf u.chunks.flatten) =
        ⟨some true, sentAll .nothing ((messages contentOf false [] (heard u.chunks)).1 ++
          beforeDone (passedOn contentOf (unheard u.chunks)) ++ [.done])⟩ := by
      rw [forwarded, hlines, beforeDone_append_of_notMem hdone]
    have hkept : forwarded (messages contentOf false [] (heard u.chunks)).1 =
        ⟨some true, sentAll .nothing ((messages contentOf false [] (heard u.chunks)).1 ++
          [.done])⟩ := by
      rw [forwarded, beforeDone_of_notMem hdone]
    constructor
    · intro hagree
      have hbytes := hagree.bytesSent
      rw [streamFromOpenAIHttp2_eq h, streamFromOpenAIHttp1_eq h, hlost, hkept] at hbytes
      exact .inr (sentAll_inj hbytes)
    · intro hnothing
      have hempty := hnothing.resolve_left hdone
      rw [hempty, List.append_nil] at hlost
      constructor <;> rw [streamFromOpenAIHttp2_eq h, streamFromOpenAIHttp1_eq h, hlost, hkept]

theorem openLink_whole {chunks : List (List UInt8)} :
    Whole .asDocumented openLink ⟨200, chunks, .endOfBody⟩ :=
  { documented := Clients.asDocumented_documented _ _
    emptyResponse := rfl
    ready := rfl
    status := rfl
    ending := rfl
    writes := fun _ => rfl
    checks := fun _ => rfl }

/-- The marker arrives in two frames. -/
theorem agree_iff_marker :
    Agree .asDocumented (fun _ => none) openLink
      ⟨200, [ascii "data: [DO", ascii "NE]\r\n\n"], .endOfBody⟩ :=
  (agree_iff openLink_whole).mpr (.inl (by decide +kernel))

/-- The JSON of one chunk. -/
def hiChunk : List UInt8 := ascii "\x7b\"choices\":[\x7b\"delta\":\x7b\"content\":\"hi\"\x7d\x7d]\x7d"

/-- What is made of it. -/
def hiContent : ContentOf := fun json =>
  if json = hiChunk then some (ascii "\x7b\"content\":\"hi\"\x7d") else none

/-- A frame without data, and then the chunk: HTTP/2 sends no content. -/
theorem not_agree_empty :
    ¬ ∀ clients contentOf link u, Whole clients link u → Agree clients contentOf link u := by
  intro h
  have hagree := h .asDocumented hiContent openLink
    ⟨200, [[], ascii "data: " ++ hiChunk ++ ascii "\n\n"], .endOfBody⟩ openLink_whole
  exact absurd hagree.bytesSent (by decide +kernel)

end SocketHandoff.Swoole
