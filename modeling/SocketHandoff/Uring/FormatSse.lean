import SocketHandoff.Uring.Response
import SocketHandoff.Lib.JsonString
import SocketHandoff.Lib.Memory

/-!
# The buffers of `stream_format_sse`

`stream_format_sse` once more, with its arrays: `escaped` on the stack, the caller's `buf`, and the
count `remaining`, which is all that keeps the loop inside `escaped`. It runs without a fault and
leaves the frame of `streamFormatSse` in the buffer, whose content is a JSON string for the start
of the message.
-/

namespace SocketHandoff.Uring

/-! ## The code -/

/-- The locals of the loop. -/
structure Escaping where
  escaped : List UInt8
  /-- `out`, as an index into `escaped` -/
  out : Nat
  remaining : Nat

/-- `*out++ = …` for each byte, and `remaining` less by as many. -/
def Escaping.put (s : Escaping) (bytes : List UInt8) : Checked Escaping := do
  let escaped ← store s.escaped s.out bytes
  let remaining ← minus s.remaining bytes.length
  return ⟨escaped, s.out + bytes.length, remaining⟩

/-- `snprintf(out, remaining + 1, "\\u%04x", c)`, with `n` its value. -/
def Escaping.putHex (s : Escaping) (c : UInt8) : Checked Escaping := do
  let text := [92, 117] ++ hex4 c
  let escaped ← snprintfAt s.escaped s.out (s.remaining + 1) text
  let remaining ← minus s.remaining text.length
  return ⟨escaped, s.out + text.length, remaining⟩

/-- The body of the loop. -/
def Escaping.step (s : Escaping) (c : UInt8) : Checked Escaping :=
  if c = 34 then s.put [92, 34]
  else if c = 92 then s.put [92, 92]
  else if c = 10 then s.put [92, 110]
  else if c = 13 then s.put [92, 114]
  else if c = 9 then s.put [92, 116]
  else if c < 32 then s.putHex c
  else s.put [c]

/-- The loop, on the memory from `content` on. It looks at a byte before it looks at
`remaining`. -/
def Escaping.loop : List UInt8 → Escaping → Checked Escaping
  | [], _ => .error .read
  | c :: content, s =>
    if c ≠ 0 ∧ 6 < s.remaining then do
      let s ← s.step c
      loop content s
    else .ok s

/-- The frame around an escaped message. -/
def sseFrameOf (escaped : List UInt8) : List UInt8 :=
  ascii "data: \x7b\"content\":\"" ++ escaped ++ ascii "\"\x7d\n\n"

/-- `stream_format_sse` with the memory from `content` on, the 4096 bytes of `escaped` as they
happen to be, and the `buflen` bytes of `buf`: its value, and what is in `buf` then. -/
def streamFormatSseIn (content : List UInt8) (escaped : Vector UInt8 4096) (buf : List UInt8) :
    Checked (Int × List UInt8) := do
  let s ← Escaping.loop content ⟨escaped.toList, 0, 4096 - 1⟩
  let escaped ← store s.escaped s.out [0]
  let text ← loadString escaped 0
  let frame := sseFrameOf text
  let after ← snprintfAt buf 0 buf.length frame
  return (if frame.length ≥ buf.length then -1 else frame.length, after)

/-! ## The loop stays inside `escaped` -/

/-- The invariant of the loop, with `written` in the array so far: what is left and what is written
make up the array but for the NUL. That sum is why the loop cannot write outside, whatever the
content is. -/
structure Escaping.Holds (s : Escaping) (written : List UInt8) : Prop where
  size : s.escaped.length = 4096
  out : s.out = written.length
  room : s.out + s.remaining = 4095
  text : s.escaped.take s.out = written

variable {s : Escaping} {written : List UInt8}

/-- Bytes that the count has room for. -/
theorem Escaping.Holds.put (h : s.Holds written) {bytes : List UInt8}
    (hroom : bytes.length ≤ s.remaining) :
    ∃ s', s.put bytes = .ok s' ∧ s'.Holds (written ++ bytes) ∧
      s'.remaining = s.remaining - bytes.length := by
  obtain ⟨hsize, hout, htotal, htext⟩ := h
  have hfits : s.out + bytes.length ≤ s.escaped.length := by omega
  refine ⟨⟨overwritten s.escaped s.out bytes, s.out + bytes.length,
    s.remaining - bytes.length⟩, ?_, ?_, rfl⟩
  · rw [Escaping.put, store_ok hfits, minus_ok hroom]
    rfl
  · constructor
    · exact (length_overwritten hfits).trans hsize
    · rw [List.length_append, hout]
    · simp only
      omega
    · rw [take_overwritten hfits, htext]

/-- The escape of a control character is written with a NUL behind it, which has room too. -/
theorem Escaping.Holds.putHex (h : s.Holds written) (hroom : 6 < s.remaining) (c : UInt8) :
    ∃ s', s.putHex c = .ok s' ∧ s'.Holds (written ++ ([92, 117] ++ hex4 c)) ∧
      s'.remaining = s.remaining - 6 := by
  obtain ⟨hsize, hout, htotal, htext⟩ := h
  have hlen : ([92, 117] ++ hex4 c).length = 6 := rfl
  have hall : ([92, 117] ++ hex4 c).take (s.remaining + 1 - 1) = [92, 117] ++ hex4 c :=
    List.take_of_length_le (by omega)
  have hfits : s.out + ([92, 117] ++ hex4 c ++ [0]).length ≤ s.escaped.length := by
    rw [List.length_append, hlen, List.length_singleton]
    omega
  refine ⟨⟨overwritten s.escaped s.out ([92, 117] ++ hex4 c ++ [0]), s.out + 6,
    s.remaining - 6⟩, ?_, ?_, rfl⟩
  · rw [Escaping.putHex, snprintfAt, if_neg (Nat.succ_ne_zero _), hall, store_ok hfits, hlen,
      minus_ok (by omega)]
    rfl
  · constructor
    · exact (length_overwritten hfits).trans hsize
    · rw [List.length_append, hlen, hout]
    · simp only
      omega
    · have htake := take_overwritten hfits
      rw [List.length_append, hlen, List.length_singleton, htext] at htake
      have hcut := congrArg (List.take (s.out + 6)) htake
      rw [List.take_take, Nat.min_eq_left (by omega), ← List.append_assoc] at hcut
      rw [hcut]
      exact List.take_left' (by rw [List.length_append, hlen, hout])

/-- **One character**: the body of the loop writes its escape. Six bytes are the longest escape, so
that with more than six left every access is inside the buffer. -/
theorem Escaping.Holds.step (h : s.Holds written) (hroom : 6 < s.remaining) (c : UInt8) :
    ∃ s', s.step c = .ok s' ∧ s'.Holds (written ++ escapeChar c) ∧
      s'.remaining = s.remaining - (escapeChar c).length := by
  rw [Escaping.step, escapeChar]
  split_ifs
  · exact h.put (by simp only [List.length_cons, List.length_nil]; omega)
  · exact h.put (by simp only [List.length_cons, List.length_nil]; omega)
  · exact h.put (by simp only [List.length_cons, List.length_nil]; omega)
  · exact h.put (by simp only [List.length_cons, List.length_nil]; omega)
  · exact h.put (by simp only [List.length_cons, List.length_nil]; omega)
  · exact h.putHex hroom c
  · exact h.put (by simp only [List.length_cons, List.length_nil]; omega)

/-- **The whole loop** writes the escaped content, on any memory with a NUL in it. -/
theorem Escaping.Holds.loop {content : List UInt8} (hnul : 0 ∈ content) (h : s.Holds written) :
    ∃ s', Escaping.loop content s = .ok s' ∧
      s'.Holds (written ++ escapeContent (cstring content) s.remaining) := by
  induction content generalizing s written with
  | nil => exact absurd hnul List.not_mem_nil
  | cons c content ih =>
    rw [Escaping.loop]
    by_cases hc : c = 0
    · refine ⟨s, if_neg fun hand => hand.1 hc, ?_⟩
      simpa [cstring, hc, escapeContent] using h
    · have hstring : cstring (c :: content) = c :: cstring content := by
        simp [cstring, hc]
      rw [hstring, escapeContent]
      by_cases hroom : 6 < s.remaining
      · obtain ⟨s₁, hstep, h₁, hleft⟩ := h.step hroom c
        obtain ⟨s', hloop, h'⟩ := ih ((List.mem_cons.mp hnul).resolve_left (Ne.symm hc)) h₁
        refine ⟨s', ?_, ?_⟩
        · rw [if_pos ⟨hc, hroom⟩, hstep]
          exact hloop
        · rw [if_pos hroom, ← hleft, ← List.append_assoc]
          exact h'
      · refine ⟨s, if_neg fun hand => hroom hand.2, ?_⟩
        rw [if_neg hroom, List.append_nil]
        exact h

/-! ## The text of the string -/

/-- No control character is left in an escape. -/
theorem not_control_of_mem_escapeChar (c : UInt8) : ∀ d ∈ escapeChar c, ¬ d < 32 := by
  have hall := forall_byte (P := fun c => (escapeChar c).all (fun d => ¬ d < 32) = true)
    (by decide +kernel) c
  exact fun d hd => of_decide_eq_true (List.all_eq_true.mp hall d hd)

theorem not_control_of_mem_flatMap {text : List UInt8} {d : UInt8}
    (hd : d ∈ text.flatMap escapeChar) : ¬ d < 32 := by
  obtain ⟨c, -, hmem⟩ := List.mem_flatMap.mp hd
  exact not_control_of_mem_escapeChar c d hmem

theorem zero_notMem_flatMap (text : List UInt8) : 0 ∉ text.flatMap escapeChar :=
  fun hzero => not_control_of_mem_flatMap hzero (by decide)

/-- The four digits of a control character are its code unit. -/
theorem hexUnit_hex4 (c : UInt8) (h : c < 32) :
    ∃ d e, hex4 c = [48, 48, d, e] ∧ Json.hexUnit 48 48 d e = some c.toNat := by
  have hall : ∀ c : UInt8, c < 32 → Json.hexUnit 48 48 ((hex4 c).getD 2 0) ((hex4 c).getD 3 0) =
      some c.toNat :=
    forall_byte (P := fun c => c < 32 → Json.hexUnit 48 48 ((hex4 c).getD 2 0)
      ((hex4 c).getD 3 0) = some c.toNat) (by decide +kernel)
  exact ⟨_, _, rfl, hall c h⟩

/-- **Each escape spells its character.** -/
theorem spells_escapeChar (c : UInt8) : Json.Spells (escapeChar c) [c] := by
  rw [escapeChar]
  split_ifs with h1 h2 h3 h4 h5 h6
  · rw [h1]
    exact Json.spells_escaped (by decide)
  · rw [h2]
    exact Json.spells_escaped (by decide)
  · rw [h3]
    exact Json.spells_escaped (by decide)
  · rw [h4]
    exact Json.spells_escaped (by decide)
  · rw [h5]
    exact Json.spells_escaped (by decide)
  · obtain ⟨d, e, hhex, hunit⟩ := hexUnit_hex4 c h6
    have hlt : c.toNat < 32 := UInt8.lt_iff_toNat_lt.mp h6
    have hone : Json.encode c.toNat = [c] := by
      rw [Json.encode, if_pos (by omega), UInt8.ofNat_toNat]
    have hspells := Json.spells_unit hunit (by omega)
    rw [hone] at hspells
    rw [hhex]
    exact hspells
  · exact Json.spells_byte ⟨h1, h2, h6⟩

/-- The loop escapes the start of the content, character by character. -/
theorem exists_escapeContent_eq (content : List UInt8) (remaining : Nat) :
    ∃ decoded, decoded <+: content ∧
      escapeContent content remaining = decoded.flatMap escapeChar := by
  induction content generalizing remaining with
  | nil => exact ⟨[], List.prefix_rfl, rfl⟩
  | cons c rest ih =>
    rw [escapeContent]
    by_cases hroom : 6 < remaining
    · obtain ⟨decoded, hstart, heq⟩ := ih (remaining - (escapeChar c).length)
      refine ⟨c :: decoded, (List.cons_prefix_cons).mpr ⟨rfl, hstart⟩, ?_⟩
      rw [if_pos hroom, heq, List.flatMap_cons]
    · exact ⟨[], List.nil_prefix, if_neg hroom⟩

/-- All of it if its escaped form has at most 4089 bytes. -/
theorem escapeContent_of_le {content : List UInt8}
    (h : (content.flatMap escapeChar).length ≤ 4089) :
    escapeContent content 4095 = content.flatMap escapeChar := by
  rw [escapeContent_eq_iff (by decide)]
  rcases List.eq_nil_or_concat content with rfl | ⟨init, c, rfl⟩
  · decide
  · have hpos := length_escapeChar_pos c
    rw [List.concat_eq_append, List.flatMap_append, List.length_append, List.flatMap_singleton] at h
    rw [List.concat_eq_append, List.dropLast_concat]
    omega

/-- Escaping maps different texts to different ones. -/
theorem flatMap_escapeChar_inj {text text' : List UInt8}
    (h : text.flatMap escapeChar = text'.flatMap escapeChar) : text = text' := by
  have hread := (Json.spells_flatMap spells_escapeChar text).decode
  rw [h, (Json.spells_flatMap spells_escapeChar text').decode] at hread
  exact (Option.some.inj hread).symm

/-! ## One well-formed frame -/

/-- **What a frame is made of**: a JSON string without raw control characters, in whole escapes,
that decodes to the start of the message; to all of it if its escaped form has at most 4089
bytes. -/
def FrameOf (content frame : List UInt8) : Prop :=
  ∃ text decoded, frame = sseFrameOf text ∧ (∀ c ∈ text, ¬ c < 32) ∧
    text = decoded.flatMap escapeChar ∧ Json.decode text = some decoded ∧ decoded <+: content ∧
      ((content.flatMap escapeChar).length ≤ 4089 → decoded = content)

/-- The frame around what the loop writes. -/
theorem frameOf_escapeContent (content : List UInt8) :
    FrameOf content (sseFrameOf (escapeContent content 4095)) := by
  obtain ⟨decoded, hstart, heq⟩ := exists_escapeContent_eq content 4095
  refine ⟨_, decoded, rfl, ?_, heq, ?_, hstart, ?_⟩
  · intro c hc
    rw [heq] at hc
    exact not_control_of_mem_flatMap hc
  · rw [heq]
    exact (Json.spells_flatMap spells_escapeChar decoded).decode
  · intro hle
    rw [escapeContent_of_le hle] at heq
    exact (flatMap_escapeChar_inj heq).symm

/-- `snprintf` with the whole buffer. -/
theorem snprintfAt_whole (buf text : List UInt8) :
    ∃ buf', snprintfAt buf 0 buf.length text = .ok buf' ∧ buf'.length = buf.length ∧
      (text.length < buf.length → buf'.take text.length = text) := by
  rw [snprintfAt]
  by_cases hzero : buf.length = 0
  · exact ⟨buf, if_pos hzero, rfl, fun hlt => absurd hlt (by omega)⟩
  · have hfits : 0 + (text.take (buf.length - 1) ++ [0]).length ≤ buf.length := by
      rw [List.length_append, List.length_take, List.length_singleton]
      omega
    refine ⟨overwritten buf 0 (text.take (buf.length - 1) ++ [0]), ?_,
      length_overwritten hfits, ?_⟩
    · rw [if_neg hzero, store_ok hfits]
    · intro hlt
      rw [List.take_of_length_le (Nat.le_sub_one_of_lt hlt), overwritten, List.take_zero,
        List.nil_append, List.append_assoc, List.take_left]

/-- **`stream_format_sse` in its arrays computes `streamFormatSse`**: without a fault, whatever
is behind the NUL of the content and in the arrays before. -/
theorem streamFormatSseIn_eq (content beyond : List UInt8) (escaped : Vector UInt8 4096)
    (buf : List UInt8) :
    ∃ n buf', streamFormatSseIn (content ++ 0 :: beyond) escaped buf = .ok (n, buf') ∧
      buf'.length = buf.length ∧
        ((n = -1 ∧ streamFormatSse buf.length content = none) ∨
          ∃ frame, streamFormatSse buf.length content = some frame ∧ n = frame.length ∧
            frame.length < buf.length ∧ buf'.take frame.length = frame) := by
  have hinit : Escaping.Holds ⟨escaped.toList, 0, 4096 - 1⟩ [] := by
    constructor
    · exact Vector.length_toList
    · rfl
    · rfl
    · rfl
  have hmem : 0 ∈ content ++ 0 :: beyond := by simp
  obtain ⟨s, hloop, hs⟩ := hinit.loop hmem
  rw [cstring_append_nul, List.nil_append] at hs
  obtain ⟨decoded, -, heq⟩ := exists_escapeContent_eq (cstring content) 4095
  have hfits : s.out + [0].length ≤ s.escaped.length := by
    have hsize := hs.size
    have hroom := hs.room
    rw [List.length_singleton]
    omega
  have hnul : 0 ∉ escapeContent (cstring content) 4095 := heq ▸ zero_notMem_flatMap decoded
  have hdrop : (overwritten s.escaped s.out [0]).drop 0 =
      escapeContent (cstring content) 4095 ++ 0 :: s.escaped.drop (s.out + [0].length) := by
    rw [List.drop_zero, overwritten, hs.text, List.append_assoc]
    rfl
  obtain ⟨buf', hbuf, hlen, htake⟩ :=
    snprintfAt_whole buf (sseFrameOf (escapeContent (cstring content) 4095))
  have hstore : store s.escaped s.out [0] = .ok (overwritten s.escaped s.out [0]) :=
    store_ok hfits
  have hload := loadString_ok hnul hdrop
  have hrun : streamFormatSseIn (content ++ 0 :: beyond) escaped buf =
      .ok (if (sseFrameOf (escapeContent (cstring content) 4095)).length ≥ buf.length then -1
        else (sseFrameOf (escapeContent (cstring content) 4095)).length, buf') := by
    simp only [streamFormatSseIn, hloop, hstore, hload, hbuf, bind, Except.bind, pure, Except.pure]
  have hframe : streamFormatSse buf.length content =
      if (sseFrameOf (escapeContent (cstring content) 4095)).length < buf.length then
        some (sseFrameOf (escapeContent (cstring content) 4095)) else none := rfl
  refine ⟨_, buf', hrun, hlen, ?_⟩
  rw [hframe]
  by_cases hlt : (sseFrameOf (escapeContent (cstring content) 4095)).length < buf.length
  · rw [if_pos hlt, if_neg (Nat.not_le_of_lt hlt)]
    exact .inr ⟨_, rfl, rfl, hlt, htake hlt⟩
  · rw [if_neg hlt, if_pos (Nat.le_of_not_lt hlt)]
    exact .inl ⟨rfl, rfl⟩

/-- **`stream_format_sse` always yields one well-formed frame**: for any content, whatever is
behind its NUL, and any buffer, it ends without a fault, and a value that is not negative is the
length of a frame for this content at the start of the buffer. It fails, with -1, exactly where the
buffer has no room for the frame and a NUL. -/
theorem streamFormatSseIn_wellFormed (content beyond : List UInt8) (escaped : Vector UInt8 4096)
    (buf : List UInt8) :
    ∃ n buf', streamFormatSseIn (content ++ 0 :: beyond) escaped buf = .ok (n, buf') ∧
      buf'.length = buf.length ∧
        (0 ≤ n → ∃ len : Nat, n = len ∧ len < buf.length ∧
          FrameOf (cstring content) (buf'.take len)) ∧
        (n = -1 ∨ 0 ≤ n) ∧
        (n = -1 ↔ buf.length ≤ (sseFrameOf (escapeContent (cstring content) 4095)).length) := by
  obtain ⟨n, buf', hrun, hlen, hvalue⟩ := streamFormatSseIn_eq content beyond escaped buf
  refine ⟨n, buf', hrun, hlen, ?_⟩
  rcases hvalue with ⟨rfl, hnone⟩ | ⟨frame, hframe, rfl, hlt, htake⟩
  · have hfull : buf.length ≤ (sseFrameOf (escapeContent (cstring content) 4095)).length := by
      refine Nat.not_lt.mp fun hlt => ?_
      rw [streamFormatSse, ← sseFrameOf, if_pos hlt] at hnone
      cases hnone
    exact ⟨fun hn => absurd hn (by decide), .inl rfl, iff_of_true rfl hfull⟩
  · simp only [streamFormatSse, Option.ite_none_right_eq_some, Option.some.injEq] at hframe
    obtain ⟨-, rfl⟩ := hframe
    refine ⟨fun _ => ⟨_, rfl, hlt, ?_⟩, .inr (Int.natCast_nonneg _), ?_⟩
    · rw [htake]
      exact frameOf_escapeContent (cstring content)
    · exact iff_of_false (by omega) (Nat.not_le.mpr hlt)

/-- A short content in a buffer of 64 bytes. -/
theorem streamFormatSseIn_wellFormed_hi : ∃ n buf',
    streamFormatSseIn (ascii "hi" ++ [0]) (Vector.replicate 4096 0) (List.replicate 64 0) =
      .ok (n, buf') ∧
    ∃ len : Nat, n = len ∧ FrameOf (ascii "hi") (buf'.take len) := by
  obtain ⟨n, buf', hrun, -, hframe, hor, hfails⟩ :=
    streamFormatSseIn_wellFormed (ascii "hi") [] (Vector.replicate 4096 0) (List.replicate 64 0)
  have hroom : ¬ (List.replicate 64 (0 : UInt8)).length ≤
      (sseFrameOf (escapeContent (cstring (ascii "hi")) 4095)).length := by decide +kernel
  obtain ⟨len, hn, -, hof⟩ := hframe (hor.resolve_left fun h => hroom (hfails.mp h))
  exact ⟨n, buf', hrun, len, hn, hof⟩

end SocketHandoff.Uring
