import SocketHandoff.Lib.Scanner
import SocketHandoff.Go.ContentFast
import SocketHandoff.Go.Script

/-!
# The OpenAI backend

`Stream` of `backends/openai.go`, from the request on: the body of the response is read line by line,
and the contents of its chunks are sent on, one event each. However the reads cut the stream, the
client gets the contents that stand in its lines, and the marker unless the stream has been cut off.
-/

namespace SocketHandoff.Go

open Scan

/-! ## The loop -/

def scannerInitialBufferSize : Nat := 4096

def scannerMaxBufferSize : Nat := 1048576

def dataPrefix : List UInt8 := ascii "data:"

/-- `bytes.TrimPrefix`. -/
def bytesTrimPrefix (s front : List UInt8) : List UInt8 :=
  if front.isPrefixOf s then s.drop front.length else s

/-- What a line says. -/
inductive Said
  | nothing
  | done
  | content (content : List UInt8)
  deriving DecidableEq, Repr

/-- The loop's body, up to what is written. -/
def readLine (line : List UInt8) : Checked Said := do
  if line = [] then return .nothing
  else if ¬ dataPrefix.isPrefixOf line then return .nothing
  else
    let data := bytesTrimPrefix (line.drop dataPrefix.length) (ascii " ")
    if data = doneMarker then return .done
    else
      let content ← extractContentFast data
      if content ≠ [] then return .content content else return .nothing

/-- `scanner.Err()`, after a line. -/
def scannerErr (s : Scanner GoError) : Option GoError := if s.ended then s.source.err else none

/-- `scanner.Err()`, when there is no more line. -/
def endErr : End GoError → Option GoError
  | .done err => err
  | .tooLong => some .plain

/-- What follows the loop; `ctxErr` is `ctx.Err()` there. -/
def afterLoop (ctxErr : Option CtxErr) (err : Option GoError) : Script :=
  match err with
  | some err => .ret (some ((ctxErr.map CtxErr.error).getD err))
  | none => sendSSEDone

/-- The loop, which asks the scanner for a line until there is none or the backend is done. A
content that is not empty becomes an event for the client. Each step of the scanner takes bytes or
reads on, which is why the loop ends. -/
def openaiLoop (ctxErr : Option CtxErr) (s : Scanner GoError) : Script :=
  match _h : s.step scannerMaxBufferSize with
  | .again s' => openaiLoop ctxErr s'
  | .stop how => afterLoop ctxErr (endErr how)
  | .token line s' =>
    match readLine line with
    | .error _ => .panic
    | .ok .nothing => openaiLoop ctxErr s'
    | .ok .done => afterLoop ctxErr (scannerErr s')
    | .ok (.content content) => .event (sseContentEvent content) (openaiLoop ctxErr s')
termination_by s.measure
decreasing_by
  · exact Scanner.measure_again _h
  · exact Scanner.measure_token _h
  · exact Scanner.measure_token _h

/-- The outcome of `httpClient.Do`. -/
inductive Response
  | failed (err : GoError)
  | response (status : Nat) (body : Scan.Source GoError)

/-- `Stream` of the OpenAI backend, from the request on. -/
def openaiStream (ctxErr : Option CtxErr) : Response → Script
  | .failed err => .ret (some err)
  | .response status body =>
    if status ≠ 200 then .ret (some .plain)
    else openaiLoop ctxErr (.new scannerInitialBufferSize body)

/-! ## What the lines say -/

/-- The contents in the lines before the marker. -/
def contentsOf : List (List UInt8) → List (List UInt8)
  | [] => []
  | line :: lines =>
    match readLine line with
    | .ok .done => []
    | .ok (.content content) => content :: contentsOf lines
    | _ => contentsOf lines

variable {data line : List UInt8} {pos : Nat}

/-- The end of a string is looked for in the data. -/
theorem closingQuote_le (h : pos ≤ data.length) :
    ∃ stop, closingQuote data pos = .ok stop ∧ pos ≤ stop ∧ stop ≤ data.length := by
  induction hk : data.length - pos using Nat.strong_induction_on generalizing pos with
  | _ k ih =>
    rw [closingQuote]
    split
    · rename_i hlt
      rw [load_ok hlt]
      simp only [bind, Except.bind]
      split
      · split
        · exact ⟨pos, rfl, le_rfl, h⟩
        · rename_i hnext
          rw [load_ok (by omega)]
          simp only
          split
          · obtain ⟨stop, hstop, hpos, hle⟩ := @ih (data.length - (pos + 2)) (by omega) (pos + 2)
              (by omega) rfl
            exact ⟨stop, hstop, by omega, hle⟩
          · obtain ⟨stop, hstop, hpos, hle⟩ := @ih (data.length - (pos + 1)) (by omega) (pos + 1)
              (by omega) rfl
            exact ⟨stop, hstop, by omega, hle⟩
      · split
        · exact ⟨pos, rfl, le_rfl, h⟩
        · obtain ⟨stop, hstop, hpos, hle⟩ := @ih (data.length - (pos + 1)) (by omega) (pos + 1)
            (by omega) rfl
          exact ⟨stop, hstop, by omega, hle⟩
    · exact ⟨pos, rfl, le_rfl, h⟩

theorem bytesIndex_le {s sep : List UInt8} {i : Nat} (h : bytesIndex s sep = some i) :
    i + sep.length ≤ s.length := by
  obtain ⟨⟨front, rest⟩, hdrop, rfl⟩ := Option.map_eq_some_iff.mp h
  have hbehind : behind sep s = some rest := by rw [behind, hdrop, Option.map_some]
  obtain ⟨front', hs, hindex⟩ := behind_some hbehind
  rw [bytesIndex, hdrop, Option.map_some] at hindex
  have hlen := Option.some.inj hindex
  rw [hs, List.length_append, List.length_append]
  omega

/-- No data lets it index outside a slice. -/
theorem faultless_extractContentFast (data : List UInt8) : Faultless (extractContentFast data) := by
  rw [extractContentFast]
  cases hdelta : bytesIndex data deltaFieldPattern with
  | none => exact .pure _
  | some deltaIdx =>
    have hle := bytesIndex_le hdelta
    simp only
    have hlen : deltaIdx + deltaFieldPattern.length +
        (data.length - (deltaIdx + deltaFieldPattern.length)) ≤ data.length := by omega
    rw [loadBytes_ok hlen]
    simp only [bind, Except.bind]
    split
    · exact .pure _
    · split
      · exact .pure _
      · rename_i hstart
        obtain ⟨stop, hstop, hpos, hend⟩ := closingQuote_le (Nat.le_of_not_le hstart)
        rw [hstop]
        simp only
        split
        · exact .pure _
        · rw [loadBytes_ok (by omega)]
          simp only
          split
          · exact faultless_unescapeJSON _
          · exact .pure _

theorem faultless_readLine (line : List UInt8) : Faultless (readLine line) := by
  rw [readLine]
  refine .ite (fun _ => .pure _) fun _ => .ite (fun _ => .pure _) fun _ => ?_
  refine .ite (fun _ => .pure _) fun _ => ?_
  refine .bind (faultless_extractContentFast _) fun content => ?_
  exact .ite (fun _ => .pure _) fun _ => .pure _

/-! ## Events of the upstream -/

theorem readLine_data {json content : List UInt8} (hne : json ≠ doneMarker)
    (h : extractContentFast json = .ok content) :
    readLine (ascii "data: " ++ json) = .ok (if content = [] then .nothing else .content content) := by
  have hline : ascii "data: " ++ json = dataPrefix ++ 32 :: json := by
    simp [ascii, dataPrefix]
  have hdata : bytesTrimPrefix (32 :: json) (ascii " ") = json := by
    rw [bytesTrimPrefix, if_pos (by simp [ascii, List.isPrefixOf])]
    rfl
  have hnil : dataPrefix ++ 32 :: json ≠ [] := by simp
  have hfront : dataPrefix.isPrefixOf (dataPrefix ++ 32 :: json) = true :=
    List.isPrefixOf_iff_prefix.mpr (List.prefix_append _ _)
  rw [hline, readLine, if_neg hnil, if_neg (not_not.mpr hfront), List.drop_left]
  simp only [hdata, if_neg hne, h, bind, Except.bind]
  by_cases hc : content = []
  · rw [if_neg (not_not.mpr hc), if_pos hc]
    rfl
  · rw [if_pos hc, if_neg hc]
    rfl

theorem readLine_done : readLine (ascii "data: [DONE]") = .ok .done := by
  simp [readLine, dataPrefix, bytesTrimPrefix, doneMarker, ascii, List.isPrefixOf]
  rfl

/-- A line, as `linesOf` has it, and the empty one behind it. -/
theorem linesOf_dataFrame {json : List UInt8} (h : Sse.Unbroken id json) (rest : List UInt8) :
    linesOf (dataFrame json ++ rest) = (ascii "data: " ++ json) :: [] :: linesOf rest := by
  have hunbroken : ∀ c ∈ ascii "data: " ++ json, c ≠ 10 ∧ c ≠ 13 := by
    intro c hc
    rcases List.mem_append.mp hc with hc | hc
    · exact forall_mem_ascii (P := fun c => c ≠ 10 ∧ c ≠ 13) _ rfl c hc
    · exact h c hc
  have hframe : dataFrame json ++ rest = (ascii "data: " ++ json) ++ 10 :: ([] ++ 10 :: rest) := by
    simp [dataFrame, ascii]
  rw [hframe, linesOf_line fun hlf => (hunbroken _ hlf).1 rfl,
    linesOf_line List.not_mem_nil, dropCR_eq fun hcr => (hunbroken _ hcr).2 rfl]
  rfl

theorem contentsOf_dataFrame {json content : List UInt8} (hjson : Sse.Unbroken id json)
    (hne : json ≠ doneMarker) (h : extractContentFast json = .ok content) (rest : List UInt8) :
    contentsOf (linesOf (dataFrame json ++ rest)) =
      [content].filter (· ≠ []) ++ contentsOf (linesOf rest) := by
  have hempty : contentsOf ([] :: linesOf rest) = contentsOf (linesOf rest) := by
    rw [contentsOf, readLine, if_pos rfl]
    rfl
  rw [linesOf_dataFrame hjson, contentsOf, readLine_data hne h, hempty]
  by_cases hc : content = []
  · simp only [hc, if_true]
    rfl
  · simp [hc]

theorem contentsOf_done (rest : List UInt8) : contentsOf (linesOf (doneMsg ++ rest)) = [] := by
  have hdone : Sse.Unbroken id doneMarker :=
    forall_mem_ascii (P := fun c => c ≠ 10 ∧ c ≠ 13) _ rfl
  have hline : ascii "data: " ++ doneMarker = ascii "data: [DONE]" := rfl
  rw [doneMsg_eq, ← doneMarker, linesOf_dataFrame hdone, hline, contentsOf, readLine_done]

/-! ## What is written -/

/-- The data of the events that are sent for these contents. -/
def contentTexts (contents : List (List UInt8)) : List (List UInt8) := contents.map contentObject

theorem sseContentEvent_frame (content : List UInt8) :
    sseContentEvent content = dataFrame (contentObject content) := sseContentEvent_eq content

theorem comesOut_afterLoop (ctxErr : Option CtxErr) (err : Option GoError) :
    ComesOut (afterLoop ctxErr err) [] := by
  cases err with
  | none => exact comesOut_done
  | some err => exact comesOut_ret _

/-- **The loop sends the contents** of the lines, in their order. The induction is the one of the
loop, on what the scanner has still to read. -/
theorem comesOut_openaiLoop (ctxErr : Option CtxErr) (s : Scanner GoError) :
    ComesOut (openaiLoop ctxErr s) (contentTexts (contentsOf (linesOf s.rest))) := by
  induction s using openaiLoop.induct with
  | case1 s s' hstep ih =>
    obtain ⟨-, hrest⟩ := Scanner.step_again hstep
    rw [openaiLoop, hstep, ← hrest]
    exact ih
  | case2 s how hstep =>
    rw [openaiLoop, hstep]
    obtain ⟨rfl, hrest⟩ | ⟨rfl, -⟩ := Scanner.step_stop hstep
    · rw [hrest]
      exact comesOut_afterLoop ctxErr _
    · exact comesOut_ret _
  | case3 s line s' hstep fault hline =>
    obtain ⟨said, hsaid⟩ := faultless_readLine line
    rw [hsaid] at hline
    cases hline
  | case4 s line s' hstep hline ih =>
    rw [openaiLoop, hstep, Scanner.linesOf_token hstep, contentsOf]
    simp only [hline]
    exact ih
  | case5 s line s' hstep hline =>
    rw [openaiLoop, hstep, Scanner.linesOf_token hstep, contentsOf]
    simp only [hline]
    exact comesOut_afterLoop ctxErr _
  | case6 s line s' hstep content hline ih =>
    rw [openaiLoop, hstep, Scanner.linesOf_token hstep, contentsOf]
    simp only [hline, sseContentEvent_frame]
    exact ih.event

/-- It does not fail unless the stream does. -/
theorem openaiLoop_whole (ctxErr : Option CtxErr) (s : Scanner GoError)
    (herr : s.source.err = none) (hshort : Short scannerMaxBufferSize s.rest) :
    (openaiLoop ctxErr s).outcome = some none := by
  induction s using openaiLoop.induct with
  | case1 s s' hstep ih =>
    obtain ⟨herr', hrest⟩ := Scanner.step_again hstep
    rw [openaiLoop, hstep]
    rw [← hrest] at hshort
    exact ih (herr'.trans herr) hshort
  | case2 s how hstep =>
    rw [openaiLoop, hstep]
    obtain ⟨rfl, hrest⟩ | ⟨rfl, raw, hraw, hlong⟩ := Scanner.step_stop hstep
    · simp only [endErr, herr]
      rfl
    · exact absurd (hshort raw hraw) (Nat.not_lt.mpr hlong)
  | case3 s line s' hstep fault hline =>
    obtain ⟨said, hsaid⟩ := faultless_readLine line
    rw [hsaid] at hline
    cases hline
  | case4 s line s' hstep hline ih =>
    rw [openaiLoop, hstep]
    simp only [hline]
    exact ih ((Scanner.step_token hstep).1.trans herr) (Scanner.short_token hstep hshort)
  | case5 s line s' hstep hline =>
    have herr' : scannerErr s' = none := by
      rw [scannerErr, (Scanner.step_token hstep).1, herr, ite_self]
    rw [openaiLoop, hstep]
    simp only [hline, herr']
    rfl
  | case6 s line s' hstep content hline ih =>
    rw [openaiLoop, hstep]
    simp only [hline]
    exact ih ((Scanner.step_token hstep).1.trans herr) (Scanner.short_token hstep hshort)

/-! ## What the client reads -/

theorem oneLines_contentTexts (contents : List (List UInt8)) : OneLines (contentTexts contents) := by
  intro text htext
  obtain ⟨content, -, rfl⟩ := List.mem_map.mp htext
  exact unbroken_contentObject content

theorem openaiStream_ok (ctxErr : Option CtxErr) (body : Scan.Source GoError) :
    openaiStream ctxErr (.response 200 body) =
      openaiLoop ctxErr (.new scannerInitialBufferSize body) := by
  rw [openaiStream, if_neg (fun h => h rfl)]

/-- **Whatever the connection does**, and however the reads cut the stream, the client reads its
contents from the front, and the marker behind the last one; there is an error unless it has got them
all, and there is none if the upstream, its lines and the client give no cause for it. -/
theorem openaiStream_answers (conn : NetConn) (ctxErr : Option CtxErr)
    (body : Scan.Source GoError) :
    Answers (contentTexts (contentsOf (linesOf body.bytes)))
        (((openaiStream ctxErr (.response 200 body)).play 0).on conn 0 []).2
        (((openaiStream ctxErr (.response 200 body)).play 0).on conn 0 []).1 ∧
      (conn.Accepting → body.err = none → Short scannerMaxBufferSize body.bytes →
        ∃ n, (((openaiStream ctxErr (.response 200 body)).play 0).on conn 0 []).1 =
          some (n, none)) := by
  rw [openaiStream_ok]
  have hout := comesOut_openaiLoop ctxErr (.new scannerInitialBufferSize body)
  refine ⟨hout.answers (oneLines_contentTexts _) conn, fun hconn herr hshort => ?_⟩
  exact accepting_returns hconn (openaiLoop_whole ctxErr _ herr hshort)

end SocketHandoff.Go
