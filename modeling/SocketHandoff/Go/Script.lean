import SocketHandoff.Go.ProxyEvents

/-!
# Backends that write their own events

The backends that do not copy a stream but build one: `mock`, `openai` and `typing` write one event
after another with `WriteSSE`, return at the first error of a write, and end the stream with the
marker. What they write does not depend on the client, so each is a list of events with an end, and
the client gets it from the front.
-/

namespace SocketHandoff.Go

/-! ## Scripts -/

/-- What a backend does on the connection of its client, as long as no write fails. -/
inductive Script
  | ret (err : Option GoError)
  | panic
  /-- `WriteSSE`, and what follows it -/
  | event (frame : List UInt8) (rest : Script)

/-- What is written in all. -/
def Script.bytes : Script → List UInt8
  | .ret _ => []
  | .panic => []
  | .event frame rest => frame ++ rest.bytes

def Script.frames : Script → List (List UInt8)
  | .ret _ => []
  | .panic => []
  | .event frame rest => frame :: rest.frames

/-- The error that is returned; `none` for a panic. -/
def Script.outcome : Script → Option (Option GoError)
  | .ret err => some err
  | .panic => none
  | .event _ rest => rest.outcome

/-- `WriteSSE`, with what follows it when there is no error. -/
def writeSSE (total : Int) (frame : List UInt8) (next : Int → Backend) : Backend :=
  .setWriteDeadline fun err =>
    match err with
    | some e => .ret total (some e)
    | none => .write frame fun r =>
      match r.2 with
      | some e => .ret (total + r.1) (some e)
      | none => next (total + r.1)

/-- The backend, when `total` bytes have been sent. -/
def Script.play (total : Int) : Script → Backend
  | .ret err => .ret total err
  | .panic => .panic
  | .event frame rest => writeSSE total frame fun total => rest.play total

/-- `doneMsg`. -/
def doneMsg : List UInt8 := ascii "data: [DONE]\n\n"

/-- `SendSSEDone`, and the end of the stream. -/
def sendSSEDone : Script := .event doneMsg (.ret none)

/-! ## On any connection -/

/-- What the client has been sent, and what is returned: a front part of the events, as long as it
is said to be, and all of them where there is no error. It is about any connection, for a write that
fails may have sent a part of its event. -/
structure Script.Sends (script : Script) (total : Int) (sent : List UInt8)
    (returned : Option (Int × Option GoError)) : Prop where
  front : sent <+: script.bytes
  counted : ∀ n err, returned = some (n, err) → n = total + sent.length
  whole : ∀ n, returned = some (n, none) → sent = script.bytes ∧ script.outcome = some none
  panics : returned = none → script.outcome = none

variable {conn : NetConn} {script rest : Script} {frame sent : List UInt8} {total : Int}
  {returned : Option (Int × Option GoError)}

/-- A write that fails. -/
theorem Script.Sends.failed {n : Int} {k : Nat} (hk : k ≤ frame.length) (err : GoError)
    (hn : n = total + k) :
    (Script.event frame rest).Sends total (frame.take k) (some (n, some err)) where
  front := (List.take_prefix k frame).trans (List.prefix_append _ _)
  counted m e h := by
    obtain ⟨rfl, -⟩ := Prod.mk.inj (Option.some.inj h)
    rw [hn, List.length_take, Nat.min_eq_left hk]
  whole m h := by cases h
  panics h := by cases h

/-- A write that goes on. -/
theorem Script.Sends.next (h : rest.Sends (total + frame.length) sent returned) :
    (Script.event frame rest).Sends total (frame ++ sent) returned where
  front := (List.prefix_append_right_inj frame).mpr h.front
  counted n err hr := by
    rw [h.counted n err hr, List.length_append]
    omega
  whole n hr := by
    obtain ⟨hsent, hend⟩ := h.whole n hr
    exact ⟨by rw [hsent]; rfl, hend⟩
  panics hr := h.panics hr

/-- **Whatever the connection does**, the client is sent the events from the front. A script is the
writes of a backend with nothing in between, so that this holds of each backend that comes down to
one. -/
theorem Script.on_play (conn : NetConn) (script : Script) (total : Int) (calls : Nat)
    (received : List UInt8) :
    ∃ sent, ((script.play total).on conn calls received).2 = received ++ sent ∧
      script.Sends total sent ((script.play total).on conn calls received).1 ∧
      (conn.Accepting → sent = script.bytes ∧ ((script.play total).on conn calls received).1 =
        script.outcome.map (total + script.bytes.length, ·)) := by
  induction script generalizing total calls received with
  | ret err =>
    refine ⟨[], (List.append_nil received).symm, ⟨List.nil_prefix, ?_, ?_, ?_⟩, fun _ => ⟨rfl, ?_⟩⟩
    · intro n e h
      obtain ⟨rfl, -⟩ := Prod.mk.inj (Option.some.inj h)
      exact (Int.add_zero total).symm
    · intro n h
      obtain ⟨-, rfl⟩ := Prod.mk.inj (Option.some.inj h)
      exact ⟨rfl, rfl⟩
    · intro h
      cases h
    · exact congrArg (fun n => some (n, err)) (Int.add_zero total).symm
  | panic =>
    refine ⟨[], (List.append_nil received).symm, ⟨List.nil_prefix, ?_, ?_, fun _ => rfl⟩,
      fun _ => ⟨rfl, rfl⟩⟩
    · intro n e h
      cases h
    · intro n h
      cases h
  | event frame rest ih =>
    rw [Script.play, writeSSE, Backend.on]
    cases hdeadline : conn.setWriteDeadline calls with
    | some err =>
      refine ⟨[], (List.append_nil received).symm, ?_, fun h => ?_⟩
      · exact Script.Sends.failed (Nat.zero_le _) err (Int.add_zero total).symm
      · rw [h.setWriteDeadline] at hdeadline
        cases hdeadline
    | none =>
      simp only [Backend.on]
      cases hwrite : (conn.write (calls + 1) frame).2 with
      | some err =>
        refine ⟨frame.take (conn.write (calls + 1) frame).1, ?_, ?_, fun h => ?_⟩
        · simp only [Backend.on]
        · simp only [Backend.on]
          exact Script.Sends.failed (conn.write_le _ _) err rfl
        · rw [h.write] at hwrite
          cases hwrite
      | none =>
        have hfull := conn.write_full _ _ hwrite
        simp only
        rw [hfull, List.take_length]
        obtain ⟨sent, hsent, hsends, hall⟩ :=
          ih (total + frame.length) (calls + 1 + 1) (received ++ frame)
        refine ⟨frame ++ sent, ?_, hsends.next, fun h => ?_⟩
        · rw [hsent, List.append_assoc]
        · obtain ⟨hbytes, hreturned⟩ := hall h
          refine ⟨by rw [hbytes]; rfl, ?_⟩
          rw [hreturned, Script.outcome, Script.bytes, List.length_append, Int.natCast_add,
            Int.add_assoc]

/-! ## On the connection of an accepting client -/

open Http

variable {ω : ClientEnv}

/-- What is passed on, after the head. -/
theorem passes_play (hω : ω.Accepting) (hdr bytes : List UInt8) (script : Script)
    (hne : ∀ frame ∈ script.frames, frame ≠ []) (total : Int) :
    Act.Triple ω (Passes hdr bytes) ((script.play total).stream hdr) fun r s =>
      r.map Prod.snd = script.outcome ∧ Passes hdr (bytes ++ script.bytes) s := by
  induction script generalizing bytes total with
  | ret err =>
    refine .pure _ fun s hs => ⟨rfl, ?_⟩
    rwa [Script.bytes, List.append_nil]
  | panic =>
    refine .pure _ fun s hs => ⟨rfl, ?_⟩
    rwa [Script.bytes, List.append_nil]
  | event frame rest ih =>
    rw [Script.play, writeSSE, Backend.stream]
    refine .bind (Q := fun err s => err = none ∧ Passes hdr bytes s)
      (.ask fun n s hs => ⟨hω.setWriteDeadline n, hs⟩) fun err => .assume ?_
    rintro rfl
    rw [Backend.stream]
    have hframe := hne frame List.mem_cons_self
    refine .bind (passes_lazyWrite hω hdr bytes hframe) fun r => .assume ?_
    rintro rfl
    rw [Script.bytes, ← List.append_assoc, Script.outcome]
    exact ih (bytes ++ frame) (fun f hf => hne f (List.mem_cons_of_mem frame hf)) _

/-- What the daemon adds for the end of a script. -/
def endTail : Option GoError → List (Source × UInt8)
  | none => []
  | some err => errorTail err

/-- **What the client gets** of a script that writes anything. -/
theorem relayed_script (hω : ω.Accepting) {q : Request} (hq : q.Reached) {script : Script}
    (hbackend : q.backend = script.play 0) (hne : ∀ frame ∈ script.frames, frame ≠ [])
    (hbytes : script.bytes ≠ []) {err : Option GoError} (herr : script.outcome = some err) :
    Relayed q.hdr (script.bytes.map (.content, ·) ++ endTail err)
      ((handleConnection q).final ω .start) := by
  obtain ⟨hparse, himages, hatts⟩ := hq
  have hstream : Act.Triple ω (Passes q.hdr []) (streamToClientWithBytes q.hdr q.backend)
      fun r s => r.isSome ∧ Relayed q.hdr (script.bytes.map (.content, ·) ++ endTail err) s := by
    rw [hbackend]
    refine .bind (passes_play hω q.hdr [] script hne 0) fun r => .assume fun hr => ?_
    rw [herr] at hr
    obtain ⟨⟨n, e⟩, rfl, rfl⟩ := Option.map_eq_some_iff.mp hr
    refine .bind (Q := fun _ => Relayed q.hdr (script.bytes.map (.content, ·)))
      (.get fun s hs => ?_) fun s => ?_
    · rwa [Passes, List.nil_append, if_neg hbytes] at hs
    · cases e with
      | none =>
        refine .pure _ fun s hs => ⟨rfl, ?_⟩
        rwa [endTail, List.append_nil]
      | some e =>
        exact .bind (relayed_answerFailure hω q.hdr _ e) fun n => .pure _ fun s hs => ⟨rfl, hs⟩
  have hrun : Act.Triple ω (Passes q.hdr []) (handleConnection q)
      fun _ => Relayed q.hdr (script.bytes.map (.content, ·) ++ endTail err) := by
    simp only [handleConnection, hparse, himages, hatts]
    refine .bind hstream fun r => ?_
    cases r with
    | none => exact .assume fun h => absurd h (by simp)
    | some r => exact .pure _ fun s hs => hs.2
  exact hrun.run (by simp [Passes])

/-! ## The events -/

/-- An event of one line of data. -/
def dataFrame (text : List UInt8) : List UInt8 := ascii "data" ++ 58 :: 32 :: text ++ [10, 10]

/-- As it is read. -/
def dataEvent (text : List UInt8) : Sse.Event UInt8 := ⟨[], [text]⟩

theorem dataFrame_ne_nil (text : List UInt8) : dataFrame text ≠ [] := by simp [dataFrame]

theorem doneMsg_eq : doneMsg = dataFrame (ascii "[DONE]") := rfl

/-- Lines that can be the data of an event. -/
def OneLines (texts : List (List UInt8)) : Prop := ∀ text ∈ texts, Sse.Unbroken id text

/-- The data of the event that ends a stream with an error. -/
def endTexts : Option GoError → List (List UInt8)
  | none => []
  | some err =>
    if classifyError err = .clientDisconnected then [] else [errorObject (failureMessage err)]

theorem endTail_eq (err : Option GoError) :
    (endTail err).map Prod.snd = (endTexts err).flatMap dataFrame := by
  cases err with
  | none => rfl
  | some err =>
    rw [endTail, errorTail, endTexts]
    split
    · rfl
    · rw [List.map_map, sseErrorEvent_eq, List.flatMap_singleton]
      exact List.map_id _

theorem oneLines_endTexts (err : Option GoError) : OneLines (endTexts err) := by
  cases err with
  | none => exact fun text h => absurd h List.not_mem_nil
  | some err =>
    rw [endTexts]
    split
    · exact fun text h => absurd h List.not_mem_nil
    · rintro text h
      obtain rfl := List.mem_singleton.mp h
      exact unbroken_errorObject _

theorem foldl_dataFrames {r : Sse.Reader UInt8} (hr : r.Between) {texts : List (List UInt8)}
    (h : OneLines texts) :
    ((texts.flatMap dataFrame).foldl (Sse.Reader.next id) r).events =
        r.events ++ texts.map dataEvent ∧
      ((texts.flatMap dataFrame).foldl (Sse.Reader.next id) r).Between := by
  induction texts generalizing r with
  | nil => exact ⟨(List.append_nil _).symm, hr⟩
  | cons text texts ih =>
    have htext := h text List.mem_cons_self
    have hnew : text ∉ r.data := by
      rw [hr.data]
      exact List.not_mem_nil
    have hevents := (Sse.events_data_iff id r (ascii "data") 58 32 (List.map_id _) rfl rfl htext
      hnew 10 10 rfl rfl).mpr hr
    have hline : Sse.Unbroken id (ascii "data" ++ 58 :: 32 :: text) := by
      intro c hc
      rcases List.mem_append.mp hc with hc | hc
      · exact forall_mem_ascii (P := fun c => c ≠ 10 ∧ c ≠ 13) _ rfl c hc
      · rcases List.mem_cons.mp hc with rfl | hc
        · decide
        · rcases List.mem_cons.mp hc with rfl | hc
          · decide
          · exact htext c hc
    have hbetween : ((dataFrame text).foldl (Sse.Reader.next id) r).Between :=
      Sse.Reader.between_lines (by simp [ascii]) hline rfl rfl
    obtain ⟨hmore, hend⟩ := ih hbetween fun t ht => h t (List.mem_cons_of_mem text ht)
    rw [List.flatMap_cons, List.foldl_append]
    refine ⟨?_, hend⟩
    rw [hmore, dataFrame, hevents, List.map_cons, List.append_assoc]
    rfl

/-- A stream of such events begins with the name of a field. -/
theorem dropMark_dataFrames (texts : List (List UInt8)) :
    Sse.dropMark id (texts.flatMap dataFrame) = texts.flatMap dataFrame := by
  cases texts with
  | nil => rfl
  | cons text texts => exact Sse.dropMark_of_head (by simp [dataFrame, ascii])

/-- **The events are those of the texts**, one each. -/
theorem events_dataFrames {texts : List (List UInt8)} (h : OneLines texts) :
    Sse.events id (texts.flatMap dataFrame) = texts.map dataEvent := by
  rw [Sse.events, Sse.read, dropMark_dataFrames]
  exact (foldl_dataFrames ⟨rfl, rfl, rfl⟩ h).1

/-- A front part of the stream has a front part of the events. -/
theorem events_front {texts : List (List UInt8)} (h : OneLines texts) {sent : List UInt8}
    (hsent : sent <+: texts.flatMap dataFrame) : Sse.events id sent <+: texts.map dataEvent := by
  rw [← events_dataFrames h]
  apply Sse.events_prefix hsent
  cases texts <;> simp [dataFrame, ascii]

/-- What writes these texts, as events. -/
theorem Script.bytes_of_frames {script : Script} {texts : List (List UInt8)}
    (h : script.frames = texts.map dataFrame) : script.bytes = texts.flatMap dataFrame := by
  induction script generalizing texts with
  | ret err =>
    obtain rfl := List.map_eq_nil_iff.mp h.symm
    rfl
  | panic =>
    obtain rfl := List.map_eq_nil_iff.mp h.symm
    rfl
  | event frame rest ih =>
    obtain ⟨text, texts, rfl, rfl, hrest⟩ := List.map_eq_cons_iff.mp h.symm
    rw [Script.bytes, ih hrest.symm, List.flatMap_cons]

/-- **A client that accepts all writes reads** the events of a script behind one head, and that of its
error. -/
theorem script_read (hω : ω.Accepting) {q : Request} (hq : q.Reached) {script : Script}
    (hbackend : q.backend = script.play 0) {texts : List (List UInt8)}
    (hframes : script.frames = texts.map dataFrame) (htexts : OneLines texts) (hne : texts ≠ [])
    {err : Option GoError} (herr : script.outcome = some err) :
    ∃ body, readHead ((handleConnection q).final ω .start).received =
        some (sseHead (q.responseHeaders.filter (Sendable ·)), body) ∧
      Sse.events id body = (texts ++ endTexts err).map dataEvent := by
  have hbytes := Script.bytes_of_frames hframes
  have hframe : ∀ frame ∈ script.frames, frame ≠ [] := by
    rw [hframes]
    intro frame hframe
    obtain ⟨text, -, rfl⟩ := List.mem_map.mp hframe
    exact dataFrame_ne_nil text
  have hbytes_ne : script.bytes ≠ [] := by
    obtain ⟨text, texts, rfl⟩ := List.exists_cons_of_ne_nil hne
    rw [hbytes, List.flatMap_cons]
    exact List.append_ne_nil_of_left_ne_nil (dataFrame_ne_nil text) _
  obtain ⟨-, -, hreceived⟩ := relayed_script hω hq hbackend hframe hbytes_ne herr
  have hsendable : ∀ f ∈ q.responseHeaders.filter (Sendable ·), Sendable f :=
    fun f hf => of_decide_eq_true (List.mem_filter.mp hf).2
  refine ⟨(texts ++ endTexts err).flatMap dataFrame, ?_, ?_⟩
  · rw [hreceived, List.map_append, endTail_eq, List.map_map, hbytes, List.flatMap_append]
    exact (readHead_bytes (clean_sseHead hsendable) _).trans
      (congrArg (fun l => some (_, l ++ _)) (List.map_id _))
  · refine events_dataFrames fun text h => ?_
    rcases List.mem_append.mp h with h | h
    · exact htexts text h
    · exact oneLines_endTexts err text h

/-! ## What a client has got -/

/-- What the marker says. -/
def doneMarker : List UInt8 := ascii "[DONE]"

/-- A script writes the events of these texts and the marker, or the first ones of them, and returns an
error. -/
def ComesOut (script : Script) (texts : List (List UInt8)) : Prop :=
  (script.frames = (texts ++ [doneMarker]).map dataFrame ∧ script.outcome = some none) ∨
    ∃ front err, front <+: texts ∧ script.frames = front.map dataFrame ∧
      script.outcome = some (some err)

theorem comesOut_ret {texts : List (List UInt8)} (err : GoError) :
    ComesOut (.ret (some err)) texts := .inr ⟨[], err, List.nil_prefix, rfl, rfl⟩

theorem comesOut_done : ComesOut sendSSEDone [] := .inl ⟨rfl, rfl⟩

theorem ComesOut.event {text : List UInt8} {texts : List (List UInt8)} (h : ComesOut rest texts) :
    ComesOut (.event (dataFrame text) rest) (text :: texts) := by
  obtain ⟨hframes, hend⟩ | ⟨front, err, hfront, hframes, hend⟩ := h
  · exact .inl ⟨congrArg (dataFrame text :: ·) hframes, hend⟩
  · refine .inr ⟨text :: front, err, ?_, congrArg (dataFrame text :: ·) hframes, hend⟩
    exact List.cons_prefix_cons.mpr ⟨rfl, hfront⟩

/-- What a client has got of a stream of these texts, and what the backend has returned for it. It
speaks of events instead of bytes: a part of an event is not one. -/
structure Answers (texts : List (List UInt8)) (received : List UInt8)
    (returned : Option (Int × Option GoError)) : Prop where
  /-- the total is what has been sent; there is no panic -/
  counted : ∃ err, returned = some ((received.length : Int), err)
  /-- the client reads the first events -/
  front : Sse.events id received <+: (texts ++ [doneMarker]).map dataEvent
  /-- and all of them where there is no error -/
  whole : ∀ n, returned = some (n, none) →
    Sse.events id received = (texts ++ [doneMarker]).map dataEvent

theorem oneLines_marked {texts : List (List UInt8)} (h : OneLines texts) :
    OneLines (texts ++ [doneMarker]) := by
  intro text htext
  rcases List.mem_append.mp htext with htext | htext
  · exact h text htext
  · obtain rfl := List.mem_singleton.mp htext
    exact forall_mem_ascii (P := fun c => c ≠ 10 ∧ c ≠ 13) _ rfl

theorem ComesOut.bytes_front {texts : List (List UInt8)} (h : ComesOut script texts) :
    script.bytes <+: (texts ++ [doneMarker]).flatMap dataFrame := by
  obtain ⟨hframes, -⟩ | ⟨front, err, ⟨more, rfl⟩, hframes, -⟩ := h
  · exact Script.bytes_of_frames hframes ▸ List.prefix_rfl
  · rw [Script.bytes_of_frames hframes, List.append_assoc, List.flatMap_append]
    exact List.prefix_append _ _

/-- **Whatever the connection does**, the client reads the events from the front, and there is no error
only if it has got them all. -/
theorem ComesOut.answers {texts : List (List UInt8)} (h : ComesOut script texts)
    (htexts : OneLines texts) (conn : NetConn) :
    Answers texts ((script.play 0).on conn 0 []).2 ((script.play 0).on conn 0 []).1 := by
  obtain ⟨sent, hsent, hsends, -⟩ := script.on_play conn 0 0 []
  generalize (script.play 0).on conn 0 [] = r at hsent hsends
  rw [hsent, List.nil_append]
  have hfront := hsends.front.trans h.bytes_front
  refine ⟨?_, events_front (oneLines_marked htexts) hfront, fun n hn => ?_⟩
  · cases hr : r.1 with
    | none =>
      have hpanic := hsends.panics hr
      obtain ⟨-, hend⟩ | ⟨front, err, -, -, hend⟩ := h
      · rw [hend] at hpanic
        cases hpanic
      · rw [hend] at hpanic
        cases hpanic
    | some r =>
      have hcount := hsends.counted r.1 r.2 hr
      exact ⟨r.2, by rw [← Int.zero_add (sent.length : Int), ← hcount]⟩
  · obtain ⟨hall, hend⟩ := hsends.whole n hn
    obtain ⟨hframes, -⟩ | ⟨front, err, -, -, hfail⟩ := h
    · rw [hall, Script.bytes_of_frames hframes]
      exact events_dataFrames (oneLines_marked htexts)
    · rw [hend] at hfail
      cases hfail

/-- A client that accepts all writes gives no cause for an error. -/
theorem accepting_returns (hconn : conn.Accepting) {err : Option GoError}
    (h : script.outcome = some err) :
    ∃ n, ((script.play 0).on conn 0 []).1 = some (n, err) := by
  obtain ⟨sent, -, -, hall⟩ := script.on_play conn 0 0 []
  rw [(hall hconn).2, h]
  exact ⟨_, rfl⟩

end SocketHandoff.Go
