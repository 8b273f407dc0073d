import SocketHandoff.MockLlmApi
import SocketHandoff.Rust.OpenAI
import SocketHandoff.Uring.Answer
import SocketHandoff.Uring.LineBuffer
import SocketHandoff.Uring.Relayed

/-!
# Three daemons at one upstream

What the io_uring daemon and the Rust daemon make of a stream of the mock API. The scanner of the first
knows fewer escapes than that of the Go daemon and has less room; of texts that need neither, the
clients of all three read the same. Only that of the Rust daemon is told when the stream was broken off.
-/

namespace SocketHandoff.MockLlmApi

open Go Json

/-! ## What the other scanner finds -/

/-- A text without the control characters that the scanner does not know, and with room for its
frame. Any other control character is written as a `\u` escape, of which the scanner takes the `u`
for itself. -/
structure Modest (text : List Char) : Prop where
  plain : ∀ c ∈ text, isControl c → c = '\n' ∨ c = '\r' ∨ c = '\t'
  fits : ((Utf8.bytes text).flatMap Uring.escapeChar).length ≤ 4089

variable {front rest t : List UInt8} {ps : List Piece} {text : List Char}

theorem spelled_bytes {bytes : List UInt8} (hbytes : ∀ b ∈ bytes, b ≠ 34 ∧ b ≠ 92)
    (h : Uring.Spelled rest t) : Uring.Spelled (bytes ++ rest) (bytes ++ t) := by
  induction bytes with
  | nil => exact h
  | cons b bytes ih =>
    obtain ⟨hq, hb⟩ := hbytes b List.mem_cons_self
    exact .byte hq hb (ih fun d hd => hbytes d (List.mem_cons_of_mem b hd))

/-- The encoding of a character that is no quote and no backslash. -/
theorem spelled_utf8 {c : Char} (hq : c ≠ '"') (hb : c ≠ '\\') (h : Uring.Spelled rest t) :
    Uring.Spelled (String.utf8EncodeChar c ++ rest) (String.utf8EncodeChar c ++ t) := by
  apply spelled_bytes _ h
  intro b hmem
  have hne : ∀ d : Char, c ≠ d → c.toNat ≠ d.toNat := fun d hd h => hd (Char.toNat_inj.mp h)
  have hq' : c.toNat ≠ 34 := hne _ hq
  have hb' : c.toNat ≠ 92 := hne _ hb
  have hnat : b.toNat ≠ 34 ∧ b.toNat ≠ 92 := by
    obtain hmem | hmem := Utf8.mem_encode hmem <;> omega
  rw [ne_eq, ne_eq, ← UInt8.toNat_inj, ← UInt8.toNat_inj]
  exact hnat

/-- A character is spelled as its bytes. -/
theorem spelled_escapeChar {c : Char} (hc : isControl c → c = '\n' ∨ c = '\r' ∨ c = '\t')
    (h : Uring.Spelled rest t) :
    Uring.Spelled (escapeChar c ++ rest) (String.utf8EncodeChar c ++ t) := by
  by_cases hq : c = '"'
  · subst hq
    exact .escaped h
  by_cases hb : c = '\\'
  · subst hb
    exact .escaped h
  by_cases hn : c = '\n'
  · subst hn
    exact .escaped h
  by_cases hr : c = '\r'
  · subst hr
    exact .escaped h
  by_cases ht : c = '\t'
  · subst ht
    exact .escaped h
  have hno : ¬ isControl c = true := by
    intro hcontrol
    obtain h | h | h := hc hcontrol
    · exact hn h
    · exact hr h
    · exact ht h
  rw [escapeChar, if_neg hq, if_neg hb, if_neg hn, if_neg hr, if_neg ht, if_neg hno]
  exact spelled_utf8 hq hb h

theorem spelled_word {c : Char} (h : Uring.Spelled rest t) :
    Uring.Spelled (ResponseChunks.escapeWord c ++ rest) (String.utf8EncodeChar c ++ t) := by
  rw [ResponseChunks.escapeWord]
  by_cases hq : c = '"'
  · subst hq
    exact .escaped h
  by_cases hb : c = '\\'
  · subst hb
    exact .escaped h
  rw [if_neg hq, if_neg hb]
  exact spelled_utf8 hq hb h

/-- **A text is spelled** for this scanner too, if it is modest. -/
theorem spelled_text (c : Completion) (h : Modest text) :
    Uring.Spelled (text.flatMap c.escape) (Utf8.bytes text) := by
  have hplain := h.plain
  clear h
  induction text with
  | nil => exact .nil
  | cons d text ih =>
    have hrest := ih fun e he => hplain e (List.mem_cons_of_mem d he)
    cases c with
    | benchmark => exact spelled_word hrest
    | pattern => exact spelled_escapeChar (hplain d List.mem_cons_self) hrest

/-- The first one is found, whatever follows it. -/
theorem strstr_append {pat : List UInt8} (h : Uring.strstr pat (front ++ pat) = some [])
    (tail : List UInt8) : Uring.strstr pat (front ++ (pat ++ tail)) = some tail := by
  induction front with
  | nil =>
    have hhere : pat.isPrefixOf (pat ++ tail) = true :=
      List.isPrefixOf_iff_prefix.mpr (List.prefix_append pat tail)
    rw [List.nil_append, Uring.strstr.eq_def, if_pos hhere, List.drop_left]
  | cons c front ih =>
    rw [List.cons_append, Uring.strstr] at h
    rw [List.cons_append, Uring.strstr]
    by_cases hhere : pat.isPrefixOf (c :: (front ++ pat)) = true
    · rw [if_pos hhere] at h
      have hlen := congrArg List.length (Option.some.inj h)
      rw [List.length_drop, List.length_cons, List.length_append, List.length_nil] at hlen
      omega
    · rw [if_neg hhere] at h
      rw [if_neg]
      · exact ih h
      · intro hlong
        apply hhere
        rw [List.isPrefixOf_iff_prefix] at hlong ⊢
        apply List.prefix_of_prefix_length_le hlong ⟨tail, by simp⟩
        simp only [List.length_cons, List.length_append]
        omega

theorem strstr_none {pat text : List UInt8} (h : ¬ pat <:+: text) :
    Uring.strstr pat text = none := by
  cases hfound : Uring.strstr pat text with
  | none => rfl
  | some rest =>
    obtain ⟨before, hsplit⟩ := Uring.strstr_split hfound
    exact absurd ⟨before, rest, by rw [hsplit, List.append_assoc]⟩ h

theorem prefix_of_notMem {q a b : List UInt8} {c : UInt8} (h : q <+: a ++ c :: b) (hc : c ∉ q) :
    q <+: a := by
  obtain hle | hlt := Nat.lt_or_ge a.length q.length |>.symm
  · exact List.prefix_of_prefix_length_le h (List.prefix_append a _) hle
  · have hfront : a ++ [c] <+: q := by
      apply List.prefix_of_prefix_length_le ⟨b, by simp⟩ h
      rw [List.length_append, List.length_singleton]
      exact hlt
    exact absurd (hfront.subset (by simp)) hc

/-- A byte that is not in it parts the places where a pattern can be. -/
theorem infix_split {q a b : List UInt8} {c : UInt8} (h : q <:+: a ++ c :: b) (hc : c ∉ q) :
    q <:+: a ∨ q <:+: b := by
  induction a with
  | nil =>
    obtain hhere | hrest := List.infix_cons_iff.mp h
    · exact .inl (prefix_of_notMem hhere hc).isInfix
    · exact .inr hrest
  | cons x a ih =>
    obtain hhere | hrest := List.infix_cons_iff.mp h
    · exact .inl (prefix_of_notMem hhere hc).isInfix
    · obtain hleft | hright := ih hrest
      · exact .inl (hleft.trans (List.suffix_cons x a).isInfix)
      · exact .inr hright

/-- A front of chunks in which the field of a content is not there yet. -/
structure NoField (front : List UInt8) : Prop where
  first : Uring.strstr (ascii "\"content\":\"") (front ++ ascii "\"content\":\"") = some []
  brace : ∃ before, front = before ++ [123] ∧ ¬ ascii "\"content\":\"" <:+: before

theorem noField_spec : ∀ front ∈ [ResponseChunks.front, TestResponseChunks.front],
    Uring.strstr (ascii "\"content\":\"") (front ++ ascii "\"content\":\"") = some [] ∧
      front = front.dropLast ++ [123] ∧ ¬ ascii "\"content\":\"" <:+: front.dropLast := by
  decide +kernel

theorem noField (c : Completion) : NoField c.lead := by
  have hmem : c.lead ∈ [ResponseChunks.front, TestResponseChunks.front] := by
    cases c with
    | benchmark => exact List.mem_cons_self
    | pattern => exact List.mem_cons_of_mem _ List.mem_cons_self
  obtain ⟨hfirst, hbrace, hbefore⟩ := noField_spec c.lead hmem
  exact ⟨hfirst, _, hbrace, hbefore⟩

theorem strstr_contentChunk (h : NoField front) (escaped : List UInt8) :
    Uring.strstr (ascii "\"content\":\"") (contentChunk front escaped) =
      some (escaped ++ 34 :: ascii "\x7d,\"finish_reason\":null\x7d]\x7d") :=
  strstr_append h.first _

theorem strstr_finishChunk (h : NoField front) {escaped : List UInt8} (hp : Pieced escaped ps) :
    Uring.strstr (ascii "\"content\":\"") (finishChunk front escaped) = none := by
  apply strstr_none
  intro hinfix
  obtain ⟨before, rfl, hbefore⟩ := h.brace
  rw [finishChunk, List.append_assoc, List.singleton_append] at hinfix
  -- the brace is in no name, so the field would be in the end of the chunk
  have hname : 123 ∉ ascii "\"content\":\"" ∧ [116, 34, 58] <:+: ascii "\"content\":\"" ∧
      116 ∉ ascii "\x7d,\"finish_reason\":\"" := by
    decide +kernel
  obtain ⟨hopen, hname, hletter⟩ := hname
  obtain hleft | hright := infix_split hinfix hopen
  · exact hbefore hleft
  · exact not_infix_append hletter (not_infix_escaped hp) (hname.trans hright)

/-! ## The frames -/

/-- The JSON text of a frame. -/
def uringObject (content : List UInt8) : List UInt8 :=
  ascii "\x7b\"content\":\"" ++ content.flatMap Uring.escapeChar ++ ascii "\"\x7d"

theorem sseFrameOf_eq (content : List UInt8) :
    Uring.sseFrameOf (content.flatMap Uring.escapeChar) = dataFrame (uringObject content) := by
  simp [Uring.sseFrameOf, dataFrame, uringObject, ascii]

theorem eventText_uringObject (content : List UInt8) :
    eventText (dataEvent (uringObject content)) = some content := by
  obtain ⟨json, v, hframe, hparse, hget⟩ := Uring.decodes_iff.mpr (@rfl _ content)
  rw [sseFrameOf_eq] at hframe
  have hjson : uringObject content = json := by
    have hsame : ascii "data: " ++ (uringObject content ++ [10, 10]) =
        ascii "data: " ++ (json ++ [10, 10]) := by
      rw [← hframe]
      simp [dataFrame, ascii]
    exact List.append_cancel_right (List.append_cancel_left hsame)
  simp only [eventText, dataEvent, hjson, hparse, Option.bind_eq_bind, Option.bind_some, hget]
  rfl

theorem unbroken_uringObject (content : List UInt8) : Sse.Unbroken id (uringObject content) := by
  apply unbroken_of_printed
  intro c hmem
  rcases List.mem_append.mp hmem with hmem | hmem
  · rcases List.mem_append.mp hmem with hmem | hmem
    · exact forall_mem_ascii (P := (¬ · < 32)) _ rfl c hmem
    · exact Uring.not_control_of_mem_flatMap hmem
  · exact forall_mem_ascii (P := (¬ · < 32)) _ rfl c hmem

variable {json : List UInt8}

/-- What the scanner finds in a line of data. -/
theorem sseContent_json (hjson : json.head? = some 123) :
    Uring.sseContent (ascii "data: " ++ json) =
      ((Uring.strstr (ascii "\"content\":\"") json).map (Uring.copyContent · 4095)).getD [] := by
  have hdata : (ascii "data: ").isPrefixOf (ascii "data: " ++ json) = true :=
    List.isPrefixOf_iff_prefix.mpr (List.prefix_append _ _)
  have hdone : ¬ (ascii "data: [DONE]").isPrefixOf (ascii "data: " ++ json) = true := by
    intro hstart
    obtain ⟨tail, htail⟩ := List.isPrefixOf_iff_prefix.mp hstart
    have hmarker : json = 91 :: (ascii "DONE]" ++ tail) :=
      (@List.append_cancel_left _ (ascii "data: ") _ _ htail).symm
    rw [hmarker] at hjson
    cases hjson
  have hdrop : (ascii "data: " ++ json).drop 6 = json := rfl
  rw [Uring.sseContent, if_pos ⟨hdata, hdone⟩, hdrop]
  cases Uring.strstr (ascii "\"content\":\"") json with
  | none => rfl
  | some rest => rfl

theorem sseFrame_none (hjson : json.head? = some 123)
    (hfield : Uring.strstr (ascii "\"content\":\"") json = none) :
    Uring.sseFrame (ascii "data: " ++ json) = [] := by
  rw [Uring.sseFrame, if_pos]
  rw [sseContent_json hjson, hfield]
  rfl

/-- The frame of a line whose field spells a text. -/
theorem sseFrame_field {body tail content : List UInt8} (hjson : json.head? = some 123)
    (hfield : Uring.strstr (ascii "\"content\":\"") json = some (body ++ 34 :: tail))
    (ht : Uring.Spelled body content) (h0 : (0 : UInt8) ∉ content)
    (hfits : (content.flatMap Uring.escapeChar).length ≤ 4089) :
    Uring.sseFrame (ascii "data: " ++ json) =
      ([content].filter (· ≠ [])).flatMap fun content => dataFrame (uringObject content) := by
  have hcontent : Uring.sseContent (ascii "data: " ++ json) = content.take 4095 := by
    rw [sseContent_json hjson, hfield, Option.map_some, Option.getD_some,
      Uring.copyContent_spelled ht]
  have hempty : Uring.sseContent (ascii "data: " ++ json) = [] ↔ content = [] := by
    rw [hcontent, List.take_eq_nil_iff]
    exact or_iff_right (by decide)
  have hstring : cstring (content.take 4095) = content.take 4095 := by
    apply List.takeWhile_eq_self_iff.mpr
    intro c hc
    exact decide_eq_true fun hzero => h0 (hzero ▸ List.mem_of_mem_take hc)
  by_cases hnil : content = []
  · rw [Uring.sseFrame, if_pos (hempty.mpr hnil), hnil]
    rfl
  · obtain ⟨frame, hframe, -⟩ :=
      Uring.streamFormatSse_fits (Uring.sseContent (ascii "data: " ++ json))
    have hform : frame = dataFrame (uringObject content) := by
      have hf := hframe
      simp only [Uring.streamFormatSse, Option.ite_none_right_eq_some, Option.some.injEq] at hf
      rw [← hf.2, hcontent, hstring, Uring.escapeContent_take (Nat.le_refl 4095),
        Uring.escapeContent_of_le hfits, ← sseFrameOf_eq]
      rfl
    rw [Uring.sseFrame_eq (mt hempty.mp hnil) hframe, hform]
    simp [hnil]

/-! ## The lines of a stream -/

/-- A line of data is a line, and so is the empty one behind it. -/
theorem sseFrames_dataFrame (hjson : ∀ c ∈ json, ¬ c < 32) (rest : List UInt8) :
    Uring.sseFrames (Uring.splitLines [] (dataFrame json ++ rest)).1 =
      Uring.sseFrame (ascii "data: " ++ json) ++ Uring.sseFrames (Uring.splitLines [] rest).1 := by
  have hprinted : ∀ c ∈ ascii "data: " ++ json, ¬ c < 32 := by
    intro c hmem
    rcases List.mem_append.mp hmem with hmem | hmem
    · exact forall_mem_ascii (P := (¬ · < 32)) _ rfl c hmem
    · exact hjson c hmem
  have hline : Uring.Unfinished (ascii "data: " ++ json) := by
    intro c hmem
    have hc := hprinted c hmem
    refine ⟨?_, ?_⟩ <;> rintro rfl <;> exact hc (by decide)
  have hchomp : Uring.chomp (ascii "data: " ++ json) = ascii "data: " ++ json := by
    rw [Uring.chomp, if_neg]
    intro hlast
    exact hprinted 13 (List.mem_of_getLast? hlast) (by decide)
  have hsplit : dataFrame json ++ rest = (ascii "data: " ++ json) ++ 10 :: ([] ++ 10 :: rest) := by
    simp [dataFrame, ascii]
  rw [hsplit, Uring.splitLines_feed hline, Uring.splitLines_feed .nil, hchomp, Uring.sseFrames_cons,
    Uring.sseFrames_cons]
  rfl

theorem zero_notMem_bytes (h : Modest text) : (0 : UInt8) ∉ Utf8.bytes text := by
  intro hmem
  obtain ⟨c, hc, hmem⟩ := List.mem_flatMap.mp hmem
  have hzero : c.toNat = 0 := by
    obtain hmem | hmem := Utf8.mem_encode hmem
    · exact absurd hmem (by decide)
    · exact hmem.symm
  have hcontrol : isControl c = true := by simp [isControl, hzero]
  obtain rfl | rfl | rfl := h.plain c hc hcontrol <;> cases hzero

/-- **The frames for the chunks** of texts, one for each that is not empty. -/
theorem sseFrames_chunks (c : Completion) {texts : List (List Char)}
    (h : ∀ text ∈ texts, text ∈ c.texts) (hmodest : ∀ text ∈ texts, Modest text)
    {rest : List UInt8} (hrest : Uring.sseFrames (Uring.splitLines [] rest).1 = []) :
    Uring.sseFrames (Uring.splitLines [] ((texts.map c.chunk).flatMap dataFrame ++ rest)).1 =
      ((texts.map Utf8.bytes).filter (· ≠ [])).flatMap
        fun content => dataFrame (uringObject content) := by
  induction texts with
  | nil => exact hrest
  | cons text texts ih =>
    have htext := hmodest text List.mem_cons_self
    have hobject : (c.chunk text).head? = some 123 := (deltaFront c).head _
    rw [List.map_cons, List.flatMap_cons, List.append_assoc,
      sseFrames_dataFrame (printed_text c (h text List.mem_cons_self)),
      sseFrame_field hobject (strstr_contentChunk (noField c) _) (spelled_text c htext)
        (zero_notMem_bytes htext) htext.fits,
      ih (fun t ht => h t (List.mem_cons_of_mem text ht))
        fun t ht => hmodest t (List.mem_cons_of_mem text ht), ← List.flatMap_append,
      ← List.filter_append]
    rfl

/-- The end of a response brings no frame. -/
theorem sseFrames_ending (c : Completion) :
    Uring.sseFrames (Uring.splitLines [] (c.ending.flatMap dataFrame)).1 = [] := by
  obtain ⟨ps, hp⟩ := pieced_reason c
  have hobject : (finishChunk c.lead c.reason).head? = some 123 := (deltaFront c).head _
  rw [Completion.ending]
  split
  · rfl
  · rw [List.flatMap_cons, sseFrames_dataFrame (printed_finish c),
      sseFrame_none hobject (strstr_finishChunk (noField c) hp)]
    decide +kernel

/-- **The frames for a response** are those of its texts, also where it is broken off. -/
theorem sseFrames_completion (c : Completion) (hmodest : ∀ text ∈ c.texts, Modest text) :
    Uring.sseFrames (Uring.splitLines [] c.stream).1 =
      ((c.texts.map Utf8.bytes).filter (· ≠ [])).flatMap
        fun content => dataFrame (uringObject content) := by
  rw [stream_eq, List.flatMap_append]
  exact sseFrames_chunks c (fun _ h => h) hmodest (sseFrames_ending c)

/-! ## To the client -/

/-- An answer of the io_uring daemon to these chunks to which nothing is lost: that of a worker, or
what the curl manager queues for a client. Either way the frames are those of the lines, and only
the way to them differs. -/
inductive UringAnswer : List (List UInt8) → List UInt8 → Prop
  | worker {ω : Uring.Backend.WorkerEnv} {apiKey : Bool} {defaultModel : List UInt8}
      {up : Uring.Backend.Upstream} {conn : Uring.Connection} :
      Uring.Backend.Heads ω apiKey defaultModel up conn →
      Uring.Backend.Relayed ω 4096 [] 0 up.chunks = true → Uring.Backend.DoneWritten ω = true →
      UringAnswer up.chunks (Uring.Backend.answered ω apiKey defaultModel up conn)
  | manager {easy : Uring.Easy} {i : Uring.ConnId} {calls : List Uring.Call} {done : Uring.Finished}
      {stream : List UInt8} : Uring.Answered easy i calls done stream Uring.sseDone →
      done.httpCode = 200 → UringAnswer (calls.map (·.chunk)) (stream ++ Uring.sseDone)

theorem UringAnswer.bytes {chunks : List (List UInt8)} {answer : List UInt8}
    (h : UringAnswer chunks answer) :
    answer = Uring.sseHeaders ++ Uring.sseFrames (Uring.responseLines chunks) ++ Uring.sseDone := by
  cases h with
  | worker hheads hrelayed hdone =>
    obtain ⟨res, -, -, hanswer, hspec⟩ := Uring.Backend.answered_of_heads hheads
    rw [if_pos hrelayed] at hspec
    rw [hanswer, hspec.2, (Uring.Backend.writeAll_eq_iff _ _).mp hdone]
  | manager h hstatus =>
    have hhonest := (h.honest_iff.mpr (.inl hstatus)).marker rfl
    rw [hhonest.2.2]

/-- **The client of the io_uring daemon reads what the one of the Go daemon does**: an event for
each text that is not empty, and the marker behind them. -/
theorem completion_relayed_uring {chunks : List (List UInt8)} {answer : List UInt8}
    (h : UringAnswer chunks answer) (c : Completion) (hstream : chunks.flatten = c.stream)
    (hmodest : ∀ text ∈ c.texts, Modest text) :
    ∃ out events, answer = Uring.sseHeaders ++ out ∧
      Sse.events id out = events ++ [dataEvent doneMarker] ∧
      events.map eventText = ((c.texts.map Utf8.bytes).filter (· ≠ [])).map some := by
  obtain ⟨contents, hcontents⟩ :
      ∃ contents, contents = (c.texts.map Utf8.bytes).filter (· ≠ []) := ⟨_, rfl⟩
  have hmarker : Uring.sseDone = dataFrame doneMarker := by decide +kernel
  have hframes : Uring.sseFrames (Uring.responseLines chunks) =
      (contents.map uringObject).flatMap dataFrame := by
    rw [Uring.responseLines, hstream, sseFrames_completion c hmodest, hcontents, List.flatMap_map]
  refine ⟨(contents.map uringObject ++ [doneMarker]).flatMap dataFrame,
    (contents.map uringObject).map dataEvent, ?_, ?_, ?_⟩
  · rw [h.bytes, hframes, hmarker, List.flatMap_append, List.flatMap_singleton, List.append_assoc]
  · rw [events_dataFrames, List.map_append]
    · rfl
    · apply oneLines_marked
      intro text htext
      obtain ⟨content, -, rfl⟩ := List.mem_map.mp htext
      exact unbroken_uringObject content
  · rw [hcontents, List.map_map, List.map_map]
    exact List.map_congr_left fun content _ => eventText_uringObject content

theorem completion_relayed_uring_greeting :
    ∃ out events, Uring.Backend.answered .taking true [] ⟨200, [greeting.stream], 0⟩ .initial =
        Uring.sseHeaders ++ out ∧
      Sse.events id out = events ++ [dataEvent doneMarker] ∧
      events.map eventText = [some [72, 105]] := by
  have hheads : Uring.Backend.Heads .taking true [] ⟨200, [greeting.stream], 0⟩ .initial :=
    Uring.Backend.heads_taking (by decide) (List.cons_ne_nil _ _)
  have hrelayed : Uring.Backend.Relayed .taking 4096 [] 0 [greeting.stream] = true := by
    decide +kernel
  have hmodest : ∀ text ∈ greeting.texts, Modest text := by
    rintro text htext
    obtain rfl := List.mem_singleton.mp htext
    have hplain : ∀ c ∈ ['H', 'i'], isControl c = false := by
      simp only [List.forall_mem_cons]
      exact ⟨rfl, rfl, fun c hc => absurd hc List.not_mem_nil⟩
    refine ⟨fun c hc hcontrol => ?_, by decide +kernel⟩
    rw [hplain c hc] at hcontrol
    cases hcontrol
  exact completion_relayed_uring (.worker hheads hrelayed Uring.Backend.doneWritten_taking) greeting
    (List.append_nil _) hmodest

/-! ## The Rust daemon -/

/-- `Option<String>` of a member. -/
def optionString : Option Value → Option (Option (List UInt8))
  | none | some .null => some none
  | some (.string s) => some (some s)
  | _ => none

/-- A `ChunkChoice` of a value. -/
def chunkChoice (v : Value) : Option Rust.ChunkChoice := do
  let .object delta ← v.get? (ascii "delta") | none
  return ⟨← optionString (delta.lookup (ascii "content")),
    ← optionString (v.get? (ascii "finish_reason"))⟩

/-- The choices of a `ChatChunk` of a value. -/
def chatChunk (v : Value) : Option (List Rust.ChunkChoice) := do
  let .array choices ← v.get? (ascii "choices") | none
  choices.mapM chunkChoice

mutual

/-- Every string of a value is one of Rust. -/
def ValidStrings : Value → Prop
  | .string s => Utf8.Valid s
  | .array elems => ValidElems elems
  | .object members => ValidMembers members
  | _ => True

def ValidElems : List Value → Prop
  | [] => True
  | v :: rest => ValidStrings v ∧ ValidElems rest

def ValidMembers : List (List UInt8 × Value) → Prop
  | [] => True
  | (name, v) :: rest => Utf8.Valid name ∧ ValidStrings v ∧ ValidMembers rest

end

/-- What `serde_json::from_str::<ChatChunk>` does with a text that is a chunk; other members than those
of `ChatChunk` are ignored. -/
structure Serde (parse : List UInt8 → Except (List UInt8) (List Rust.ChunkChoice)) : Prop where
  chunk : ∀ {text : List UInt8} {v : Value} {choices : List Rust.ChunkChoice},
    Json.parse text = some v → v.Distinct → ValidStrings v → chatChunk v = some choices →
      parse text = .ok choices

/-- What an `EventSource` gives for a response: it is opened, every event becomes a message, and its
end an error. -/
def eventSource (stream : List UInt8) : List Rust.Item :=
  .open :: (Sse.events id stream).map (fun e => .message (List.intercalate [10] e.data)) ++
    [.error (ascii "Stream ended")]

/-! ### What serde reads -/

/-- The text of a member. -/
def memberText (name : String) (text : List UInt8) : List UInt8 :=
  34 :: (ascii name ++ 34 :: 58 :: text)

/-- The text of an object with these members. -/
def objectText (members : List (List UInt8)) : List UInt8 :=
  123 :: (List.intercalate [44] members ++ [125])

/-- A chunk with this delta and this reason. -/
def chunkValue (id model : List UInt8) (delta reason : Value) : Value :=
  .object [(ascii "id", .string id), (ascii "object", .string (ascii "chat.completion.chunk")),
    (ascii "created", .number ((0 : Int) : ℚ)), (ascii "model", .string model),
    (ascii "choices", .array [.object [(ascii "index", .number ((0 : Int) : ℚ)),
      (ascii "delta", delta), (ascii "finish_reason", reason)]])]

theorem plain_ascii (chars : List Char)
    (h : (chars.all fun c => (fun b : UInt8 => decide (b ≠ 34 ∧ b ≠ 92 ∧ ¬ b < 32))
      (UInt8.ofNat c.toNat)) = true) : Plain (ascii (String.ofList chars)) :=
  forall_mem_ascii chars h

theorem readsMember {name : String} {text : List UInt8} {v : Value} (hname : Plain (ascii name))
    (h : Reads text v) : ReadsMember (memberText name text) (ascii name, v) :=
  ⟨ascii name, text, rfl, decode_plain hname, h⟩

theorem reads_chunk {id model delta reason : List UInt8} {v w : Value} (hid : Plain id)
    (hmodel : Plain model) (hdelta : Reads delta v) (hreason : Reads reason w) :
    Reads (objectText [memberText "id" (34 :: (id ++ [34])),
      memberText "object" (34 :: (ascii "chat.completion.chunk" ++ [34])),
      memberText "created" (ascii "0"), memberText "model" (34 :: (model ++ [34])),
      memberText "choices" (91 :: (List.intercalate [44] [objectText [memberText "index" (ascii "0"),
        memberText "delta" delta, memberText "finish_reason" reason]] ++ [93]))])
      (chunkValue id model v w) := by
  have hzero : Reads (ascii "0") (.number ((0 : Int) : ℚ)) := reads_int 0
  have hkind : Plain (ascii "chat.completion.chunk") := plain_ascii _ rfl
  have hchoice : Reads (objectText [memberText "index" (ascii "0"), memberText "delta" delta,
      memberText "finish_reason" reason]) (.object [(ascii "index", .number ((0 : Int) : ℚ)),
        (ascii "delta", v), (ascii "finish_reason", w)]) := by
    apply reads_object
    exact .cons (readsMember (plain_ascii _ rfl) hzero) (.cons (readsMember (plain_ascii _ rfl) hdelta)
      (.cons (readsMember (plain_ascii _ rfl) hreason) .nil))
  apply reads_object
  exact .cons (readsMember (plain_ascii _ rfl) (reads_string (decode_plain hid)))
    (.cons (readsMember (plain_ascii _ rfl) (reads_string (decode_plain hkind)))
      (.cons (readsMember (plain_ascii _ rfl) hzero)
        (.cons (readsMember (plain_ascii _ rfl) (reads_string (decode_plain hmodel)))
          (.cons (readsMember (plain_ascii _ rfl) (reads_array (.cons hchoice .nil))) .nil))))

theorem parse_contentChunk {id model escaped content : List UInt8} (hid : Plain id)
    (hmodel : Plain model) (h : decode escaped = some content) :
    parse (contentChunk (chunkFront id model) escaped) =
      some (chunkValue id model (.object [(ascii "content", .string content)]) .null) := by
  have hdelta : Reads (objectText [memberText "content" (34 :: (escaped ++ [34]))])
      (.object [(ascii "content", .string content)]) := by
    apply reads_object
    exact .cons (readsMember (plain_ascii _ rfl) (reads_string h)) .nil
  rw [← (reads_chunk hid hmodel hdelta reads_null).parse]
  simp [contentChunk, chunkFront, objectText, memberText, ascii, List.intercalate]

theorem parse_finishChunk {id model escaped reason : List UInt8} (hid : Plain id)
    (hmodel : Plain model) (h : decode escaped = some reason) :
    parse (finishChunk (chunkFront id model) escaped) =
      some (chunkValue id model (.object []) (.string reason)) := by
  have hdelta : Reads (objectText []) (.object []) := reads_object .nil
  rw [← (reads_chunk hid hmodel hdelta (reads_string h)).parse]
  simp [finishChunk, chunkFront, objectText, memberText, ascii, List.intercalate]

theorem valid_ascii (chars : List Char) (h : (chars.all fun c => decide (c.toNat < 128)) = true) :
    Utf8.Valid (ascii (String.ofList chars)) := by
  refine ⟨chars, ?_⟩
  rw [ascii_ofList]
  induction chars with
  | nil => rfl
  | cons c chars ih =>
    rw [List.all_cons, Bool.and_eq_true, decide_eq_true_iff] at h
    have hval : c.val.toNat = c.toNat := rfl
    rw [Utf8.bytes_cons, ih h.2, List.map_cons]
    simp only [String.utf8EncodeChar, hval]
    rw [if_pos (by omega)]
    rfl

theorem distinct_chunkValue (id model : List UInt8) {delta reason : Value} (hdelta : delta.Distinct)
    (hreason : reason.Distinct) : (chunkValue id model delta reason).Distinct := by
  have houter : [ascii "id", ascii "object", ascii "created", ascii "model",
      ascii "choices"].Nodup := by decide +kernel
  have hinner : [ascii "index", ascii "delta", ascii "finish_reason"].Nodup := by decide +kernel
  simp only [chunkValue, Value.Distinct, DistinctMembers, DistinctElems, List.map_cons, List.map_nil]
  exact ⟨houter, trivial, trivial, trivial, trivial, ⟨⟨hinner, trivial, hdelta, hreason, trivial⟩,
    trivial⟩, trivial⟩

theorem validStrings_chunkValue {id model : List UInt8} (hid : Utf8.Valid id)
    (hmodel : Utf8.Valid model) {delta reason : Value} (hdelta : ValidStrings delta)
    (hreason : ValidStrings reason) : ValidStrings (chunkValue id model delta reason) := by
  simp only [chunkValue, ValidStrings, ValidMembers, ValidElems]
  exact ⟨valid_ascii _ rfl, hid, valid_ascii _ rfl,
    valid_ascii _ rfl, valid_ascii _ rfl, trivial,
    valid_ascii _ rfl, hmodel, valid_ascii _ rfl,
    ⟨⟨valid_ascii _ rfl, trivial, valid_ascii _ rfl, hdelta,
      valid_ascii _ rfl, hreason, trivial⟩, trivial⟩, trivial⟩

theorem lead_eq (c : Completion) : ∃ id model, c.lead = chunkFront id model ∧ Plain id ∧
    Plain model ∧ Utf8.Valid id ∧ Utf8.Valid model := by
  cases c with
  | benchmark =>
    exact ⟨ascii "chatcmpl-mock", ascii "mock-model", rfl, plain_ascii _ rfl, plain_ascii _ rfl,
      valid_ascii _ rfl, valid_ascii _ rfl⟩
  | pattern =>
    exact ⟨ascii "chatcmpl-test", ascii "test-model", rfl, plain_ascii _ rfl, plain_ascii _ rfl,
      valid_ascii _ rfl, valid_ascii _ rfl⟩

theorem decode_reason (c : Completion) :
    ∃ reason, decode c.reason = some reason ∧ Utf8.Valid reason := by
  have hstop : decode (ascii "stop") = some (ascii "stop") := decode_plain (plain_ascii _ rfl)
  have hvalid := valid_ascii ['s', 't', 'o', 'p'] rfl
  cases c with
  | benchmark => exact ⟨_, hstop, hvalid⟩
  | pattern d p =>
    cases p with
    | finish reason =>
      refine ⟨Utf8.bytes reason, ?_, reason, rfl⟩
      rw [Completion.reason, decode, (pieced_jsonEscape reason).pieces]
      exact congrArg some (joined_jsonEscape reason)
    | _ => exact ⟨_, hstop, hvalid⟩

variable {up : Rust.Upstream}

/-- A chunk is read as its text, -/
theorem parse_chunk (hup : Serde up.parse) (c : Completion) {text : List Char} (h : text ∈ c.texts) :
    up.parse (c.chunk text) = .ok [⟨some (Utf8.bytes text), none⟩] := by
  obtain ⟨id, model, hlead, hid, hmodel, hidv, hmodelv⟩ := lead_eq c
  obtain ⟨ps, hp, -, htext⟩ := pieced_text c h
  have hdecode : decode (text.flatMap c.escape) = some (Utf8.bytes text) := by
    rw [decode, hp.pieces]
    exact congrArg some htext
  have hparse := parse_contentChunk hid hmodel hdecode
  rw [← hlead] at hparse
  apply hup.chunk hparse
  · exact distinct_chunkValue id model ⟨List.nodup_singleton _, trivial, trivial⟩ trivial
  · exact validStrings_chunkValue hidv hmodelv ⟨valid_ascii _ rfl, ⟨text, rfl⟩, trivial⟩
      trivial
  · rfl

/-- and the last one as the end. -/
theorem parse_finish (hup : Serde up.parse) (c : Completion) :
    ∃ reason, up.parse (finishChunk c.lead c.reason) = .ok [⟨none, some reason⟩] := by
  obtain ⟨id, model, hlead, hid, hmodel, hidv, hmodelv⟩ := lead_eq c
  obtain ⟨reason, hdecode, hvalid⟩ := decode_reason c
  have hparse := parse_finishChunk hid hmodel hdecode
  rw [← hlead] at hparse
  refine ⟨reason, hup.chunk hparse ?_ ?_ rfl⟩
  · exact distinct_chunkValue id model ⟨List.nodup_nil, trivial⟩ trivial
  · exact validStrings_chunkValue hidv hmodelv trivial hvalid

/-! ### What the client reads -/

theorem chunk_ne (c : Completion) (tail : List UInt8) :
    c.lead ++ tail ≠ ascii "[DONE]" ∧ c.lead ++ tail ≠ [] := by
  have hhead := (deltaFront c).head tail
  constructor <;> intro h <;> rw [h] at hhead
  · exact absurd hhead (by decide +kernel)
  · cases hhead

theorem resultOf_chunk (hup : Serde up.parse) (c : Completion) {text : List Char}
    (h : text ∈ c.texts) : Rust.resultOf up (.message (c.chunk text)) =
      if Utf8.bytes text = [] then none else some (some (.ok ⟨Utf8.bytes text, false⟩)) := by
  obtain ⟨hdone, hnil⟩ : c.chunk text ≠ ascii "[DONE]" ∧ c.chunk text ≠ [] := chunk_ne c _
  rw [Rust.resultOf, if_neg hdone, if_neg hnil, parse_chunk hup c h]
  by_cases hbytes : Utf8.bytes text = [] <;> simp [Rust.chunkOf, hbytes]

theorem resultOf_finish (hup : Serde up.parse) (c : Completion) :
    Rust.resultOf up (.message (finishChunk c.lead c.reason)) = some (some (.ok ⟨[], true⟩)) := by
  obtain ⟨hdone, hnil⟩ : finishChunk c.lead c.reason ≠ ascii "[DONE]" ∧
      finishChunk c.lead c.reason ≠ [] := chunk_ne c _
  obtain ⟨reason, hparse⟩ := parse_finish hup c
  rw [Rust.resultOf, if_neg hdone, if_neg hnil, hparse]
  rfl

/-- The polls of a connection to the backend, when there is no shutdown. -/
def pollsOf (up : Rust.Upstream) (items : List Rust.Item) : List Rust.Poll :=
  Rust.selects (Rust.results up items) none

/-- The contents of the chunks come first. -/
theorem polls_chunks (hup : Serde up.parse) (c : Completion) {texts : List (List Char)}
    (h : ∀ text ∈ texts, text ∈ c.texts) (later : List Rust.Item) :
    Rust.contentsOf (pollsOf up (texts.map (fun text => .message (c.chunk text)) ++ later)) =
        (texts.map Utf8.bytes).filter (· ≠ []) ++ Rust.contentsOf (pollsOf up later) ∧
      Rust.endingOf (pollsOf up (texts.map (fun text => .message (c.chunk text)) ++ later)) =
        Rust.endingOf (pollsOf up later) := by
  induction texts with
  | nil => exact ⟨rfl, rfl⟩
  | cons text texts ih =>
    obtain ⟨hcontents, hending⟩ := ih fun t ht => h t (List.mem_cons_of_mem text ht)
    have hresult := resultOf_chunk hup c (h text List.mem_cons_self)
    simp only [pollsOf, Rust.selects, Rust.results] at hcontents hending ⊢
    rw [List.map_cons, List.map_cons, List.cons_append, List.filterMap_cons, hresult]
    by_cases hbytes : Utf8.bytes text = []
    · rw [if_pos hbytes, hbytes, List.filter_cons_of_neg (by simp)]
      exact ⟨hcontents, hending⟩
    · rw [if_neg hbytes, List.filter_cons_of_pos (by simpa using hbytes)]
      simp only [List.map_cons, Rust.contentsOf, Rust.endingOf, hbytes, if_false, List.cons_append,
        Bool.false_eq_true]
      exact ⟨congrArg _ hcontents, hending⟩

/-- What tells the client of the Rust daemon that a stream was broken off. -/
def brokenOff : List UInt8 := ascii "Stream error: Stream ended"

/-- The events of a response are its chunks and its end. -/
theorem eventSource_completion (c : Completion) : eventSource c.stream =
    .open :: (c.texts.map (fun text => .message (c.chunk text)) ++
      (c.ending.map .message ++ [.error (ascii "Stream ended")])) := by
  have honelines : OneLines (c.texts.map c.chunk ++ c.ending) := by
    intro json hjson
    rcases List.mem_append.mp hjson with hjson | hjson
    · obtain ⟨text, htext, rfl⟩ := List.mem_map.mp hjson
      exact unbroken_of_printed (printed_text c htext)
    · rw [Completion.ending] at hjson
      split at hjson
      · cases hjson
      · have hfinish : OneLines [finishChunk c.lead c.reason] := by
          intro json hjson
          obtain rfl := List.mem_singleton.mp hjson
          exact unbroken_of_printed (printed_finish c)
        exact oneLines_marked hfinish json hjson
  have hmessage (json : List UInt8) :
      Rust.Item.message (List.intercalate [10] (dataEvent json).data) = .message json :=
    congrArg _ (List.intercalate_singleton ..)
  rw [eventSource, stream_eq, events_dataFrames honelines, List.map_map, List.map_append,
    List.map_map]
  simp only [Function.comp_def, hmessage, List.cons_append, List.append_assoc]

/-- **The stream of the mock API**, as a connection of the Rust daemon finds it. -/
theorem polls_completion (hup : Serde up.parse) (c : Completion) :
    Rust.contentsOf (pollsOf up (eventSource c.stream)) =
        (c.texts.map Utf8.bytes).filter (· ≠ []) ∧
      Rust.endingOf (pollsOf up (eventSource c.stream)) =
        if c.aborted then .error brokenOff else .completed := by
  have hopen : pollsOf up (eventSource c.stream) =
      pollsOf up (c.texts.map (fun text => .message (c.chunk text)) ++
        (c.ending.map .message ++ [.error (ascii "Stream ended")])) := by
    rw [eventSource_completion]
    rfl
  obtain ⟨hcontents, hending⟩ := polls_chunks hup c (fun _ h => h)
    (c.ending.map .message ++ [.error (ascii "Stream ended")])
  rw [hopen, hcontents, hending, Completion.ending]
  split
  · exact ⟨List.append_nil _, rfl⟩
  · simp only [pollsOf, Rust.selects, Rust.results, List.map_cons, List.cons_append,
      List.filterMap_cons, resultOf_finish hup c]
    exact ⟨List.append_nil _, rfl⟩

/-- The JSON text of an event of the Rust daemon. -/
def rustObject (key text : List UInt8) : List UInt8 :=
  ascii "\x7b\"" ++ key ++ ascii "\":\"" ++ text.flatMap Rust.serdeByte ++ ascii "\"\x7d"

theorem formatEvent_eq (key text : List UInt8) :
    Rust.formatEvent key text = dataFrame (rustObject key text) := by
  simp [Rust.formatEvent, dataFrame, rustObject, ascii]

theorem parse_rustObject (key : String) (hkey : Plain (ascii key)) (text : List UInt8) :
    parse (rustObject (ascii key) text) = some (.object [(ascii key, .string text)]) := by
  have hobject : Reads (objectText [memberText key (34 :: (text.flatMap Rust.serdeByte ++ [34]))])
      (.object [(ascii key, .string text)]) := by
    apply reads_object
    exact .cons (readsMember hkey (reads_string (Rust.decode_serde text))) .nil
  rw [← hobject.parse]
  simp [rustObject, objectText, memberText, ascii, List.intercalate]

theorem eventText_rustObject (content : List UInt8) :
    eventText (dataEvent (rustObject (ascii "content") content)) = some content := by
  have hget : (Json.Value.object [(ascii "content", .string content)]).get? (ascii "content") =
      some (.string content) := rfl
  have hparse := parse_rustObject "content" (plain_ascii _ rfl) content
  simp only [eventText, dataEvent, hparse, Option.bind_eq_bind, Option.bind_some, hget]
  rfl

theorem unbroken_rustObject {key : List UInt8} (hkey : Plain key) (text : List UInt8) :
    Sse.Unbroken id (rustObject key text) := by
  have hbyte := forall_byte (P := fun c => (Rust.serdeByte c).all (fun d => ¬ d < 32) = true)
    (by decide +kernel)
  have hquote := forall_mem_ascii (P := (¬ · < 32))
  have hprinted : ∀ d ∈ rustObject key text, ¬ d < 32 := by
    intro d hd
    simp only [rustObject, List.mem_append] at hd
    obtain (((hd | hd) | hd) | hd) | hd := hd
    · exact hquote _ rfl d hd
    · exact (hkey d hd).2.2
    · exact hquote _ rfl d hd
    · obtain ⟨c, -, hd⟩ := List.mem_flatMap.mp hd
      exact of_decide_eq_true (List.all_eq_true.mp (hbyte c) d hd)
    · exact hquote _ rfl d hd
  exact unbroken_of_printed hprinted

/-- What ends an answer to the mock API. -/
def Completion.closing (c : Completion) : List UInt8 :=
  if c.aborted then rustObject (ascii "error") brokenOff else doneMarker

theorem closing_eq (c : Completion) :
    Rust.closing (if c.aborted then .error brokenOff else .completed) = dataFrame c.closing := by
  rw [Completion.closing]
  split
  · exact formatEvent_eq _ _
  · decide +kernel

theorem oneLines_answer (c : Completion) (contents : List (List UInt8)) :
    OneLines (contents.map (rustObject (ascii "content")) ++ [c.closing]) := by
  intro json hjson
  rcases List.mem_append.mp hjson with hjson | hjson
  · obtain ⟨content, -, rfl⟩ := List.mem_map.mp hjson
    exact unbroken_rustObject (plain_ascii _ rfl) content
  · obtain rfl := List.mem_singleton.mp hjson
    rw [Completion.closing]
    split
    · exact unbroken_rustObject (plain_ascii _ rfl) _
    · exact forall_mem_ascii (P := fun c => c ≠ 10 ∧ c ≠ 13) _ rfl

/-- **The client of the Rust daemon reads the same texts**, and what comes behind them says whether
the stream was broken off. -/
theorem completion_relayed_rust {ω : Rust.Env} (hω : ω.Serves) {b : Rust.OpenAIBackend}
    {data : Rust.HandoffData} {connId : Nat} (hup : Serde up.parse)
    (hsource : up.eventsource (b.requestOf data connId) = none) (c : Completion)
    (hitems : up.items (b.requestOf data connId) = eventSource c.stream) :
    ∃ out events, (Rust.handle.final (ω.openAI b up data connId none) .new).wire.bytes =
        Rust.sseHeaders ++ out ∧
      Sse.events id out = events ++
        [dataEvent (if c.aborted then rustObject (ascii "error") brokenOff else doneMarker)] ∧
      events.map eventText = ((c.texts.map Utf8.bytes).filter (· ≠ [])).map some := by
  obtain ⟨hcontents, hending⟩ := polls_completion hup c
  obtain ⟨contents, htexts⟩ :
      ∃ contents, contents = (c.texts.map Utf8.bytes).filter (· ≠ []) := ⟨_, rfl⟩
  have hpolls : (ω.openAI b up data connId none).polls = pollsOf up (eventSource c.stream) := by
    rw [← hitems]
    rfl
  have hanswer : (ω.openAI b up data connId none).answer = Rust.sseHeaders ++
      (contents.map (rustObject (ascii "content")) ++ [c.closing]).flatMap dataFrame := by
    have hframes : contents.flatMap Rust.formatSseChunk =
        (contents.map (rustObject (ascii "content"))).flatMap dataFrame := by
      rw [List.flatMap_map]
      exact List.flatMap_congr fun content _ => formatEvent_eq _ _
    simp only [Rust.Env.answer, Rust.stream_openAI_none hsource, Rust.frames, hpolls]
    rw [hcontents, hending, closing_eq, ← htexts, hframes, List.append_assoc, List.flatMap_append,
      List.flatMap_singleton]
  refine ⟨(contents.map (rustObject (ascii "content")) ++ [c.closing]).flatMap dataFrame,
    (contents.map (rustObject (ascii "content"))).map dataEvent, ?_, ?_, ?_⟩
  · rw [(Rust.serves_openAI hω).replies]
    exact hanswer
  · rw [events_dataFrames (oneLines_answer c contents), List.map_append]
    rfl
  · rw [htexts, List.map_map, List.map_map]
    exact List.map_congr_left fun content _ => eventText_rustObject content

/-- The mock API, behind reqwest and serde. -/
def mockUpstream (c : Completion) : Rust.Upstream where
  eventsource _ := none
  items _ := eventSource c.stream
  parse text := ((parse text).bind chatChunk).elim (.error []) .ok

theorem serde_mockUpstream (c : Completion) : Serde (mockUpstream c).parse where
  chunk hparse _ _ hchunk := by
    simp only [mockUpstream, hparse, Option.bind_some, hchunk]
    rfl

/-- A response that is broken off behind its first chunk. -/
def brokenGreeting : Completion := .pattern ⟨[['H', 'i']], [], [], [], []⟩ (.abort 1)

theorem completion_relayed_rust_broken :
    ∃ out events, (Rust.handle.final (Rust.patient.openAI Rust.localBackend
        (mockUpstream brokenGreeting) Rust.emptyHandoff 1 none) .new).wire.bytes =
          Rust.sseHeaders ++ out ∧
      Sse.events id out = events ++ [dataEvent (rustObject (ascii "error") brokenOff)] ∧
      events.map eventText = [some [72, 105]] :=
  completion_relayed_rust Rust.serves_patient (serde_mockUpstream brokenGreeting) rfl brokenGreeting rfl

end SocketHandoff.MockLlmApi
