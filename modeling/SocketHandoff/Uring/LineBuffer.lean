import SocketHandoff.Uring.Backend
import SocketHandoff.Lib.Memory

/-!
# The line buffers of the two write callbacks

Both `write_callback`s put the chunks of a response together again: they append a chunk to a
buffer, cut the buffer into lines in place, and move what is left to its start. Here the buffer is
memory: it grows by `realloc`, `strchr` scans it, terminators overwrite the line feeds. However the
stream is cut into chunks, the lines are those between its line feeds, and the buffer is never
overrun.
-/

namespace SocketHandoff.Uring

/-! ## The code -/

/-- The allocator: a block of so many bytes, as they happen to be. -/
structure Heap where
  malloc : Nat → Option (List UInt8)
  size : ∀ n block, malloc n = some block → block.length = n

/-- `realloc` of a block that grows. -/
def Heap.realloc (heap : Heap) (buf : List UInt8) (newCap : Nat) : Option (List UInt8) :=
  (heap.malloc newCap).map fun block => overwritten block 0 buf

/-- The line buffer, with its capacity as the length of the block. -/
structure LineBuffer where
  buf : List UInt8
  len : Nat
  deriving DecidableEq, Repr

/-- The bytes kept for the next chunk. -/
def LineBuffer.carried (lb : LineBuffer) : List UInt8 := lb.buf.take lb.len

/-- Expand the buffer if needed. -/
def LineBuffer.expand (lb : LineBuffer) (heap : Heap) (bytes : Nat) : Option LineBuffer :=
  if lb.buf.length < lb.len + bytes + 1 then
    (heap.realloc lb.buf (Backend.newCapacity lb.buf.length lb.len bytes)).map fun buf =>
      { lb with buf := buf }
  else some lb

/-- Append new data. -/
def LineBuffer.append (lb : LineBuffer) (chunk : List UInt8) : Checked LineBuffer := do
  let buf ← store lb.buf lb.len chunk
  let buf ← store buf (lb.len + chunk.length) [0]
  return ⟨buf, lb.len + chunk.length⟩

/-- End the line in front of `newline`, without a carriage return. -/
def endLine (buf : List UInt8) (lineStart newline : Nat) : Checked (List UInt8) := do
  let buf ← store buf newline [0]
  if lineStart < newline then do
    let c ← load buf (newline - 1)
    if c = 13 then store buf (newline - 1) [0] else return buf
  else return buf

/-- What the loop over the lines leaves. -/
structure Scanned where
  /-- the lines given to `process_sse_line` -/
  lines : List (List UInt8)
  ok : Bool
  buf : List UInt8
  lineStart : Nat

/-- Process complete lines. Each turn goes past a line feed, so as much fuel as there are bytes is
enough; no fuel is a fault. -/
def scanLines (processSseLine : List UInt8 → Bool) :
    (fuel : Nat) → List UInt8 → Nat → Checked Scanned
  | 0, _, _ => .error .read
  | fuel + 1, buf, lineStart => do
    match ← strchr buf lineStart 10 with
    | none => return ⟨[], true, buf, lineStart⟩
    | some newline =>
      let buf ← endLine buf lineStart newline
      let line ← loadString buf lineStart
      if processSseLine line then do
        let rest ← scanLines processSseLine fuel buf (newline + 1)
        return { rest with lines := line :: rest.lines }
      else return ⟨[line], false, buf, lineStart⟩

/-- `memmove(buf, buf + i, n)`, if there is something to move. -/
def moveBytes (buf : List UInt8) (i n : Nat) : Checked (List UInt8) :=
  if 0 < n then do
    let bytes ← loadBytes buf i n
    store buf 0 bytes
  else .ok buf

/-- Move the remaining line to the start. -/
def LineBuffer.moveDown (lb : LineBuffer) (lineStart : Nat) : Checked LineBuffer :=
  if lineStart = 0 then .ok lb
  else do
    let remaining ← minus lb.len lineStart
    let buf ← moveBytes lb.buf lineStart remaining
    let buf ← store buf remaining [0]
    return ⟨buf, remaining⟩

/-- What a callback did: whether it took the chunk, the lines it processed, and what it keeps. -/
structure Taken (σ : Type) where
  took : Bool
  lines : List (List UInt8)
  state : σ

/-- What both callbacks do with a chunk once they have a buffer. -/
def LineBuffer.receive (lb : LineBuffer) (processSseLine : List UInt8 → Bool) (heap : Heap)
    (chunk : List UInt8) : Checked (Taken LineBuffer) :=
  match lb.expand heap chunk.length with
  | none => .ok ⟨false, [], lb⟩
  | some lb => do
    let lb ← lb.append chunk
    let scanned ← scanLines processSseLine (lb.len + 1) lb.buf 0
    if scanned.ok then do
      let lb ← LineBuffer.moveDown ⟨scanned.buf, lb.len⟩ scanned.lineStart
      return ⟨true, scanned.lines, lb⟩
    else return ⟨false, scanned.lines, ⟨scanned.buf, lb.len⟩⟩

/-- A chunk, and the allocator as it is then. -/
structure Delivery where
  heap : Heap
  chunk : List UInt8

/-- `write_callback` of `curl_manager.c`, behind the headers: the first chunk allocates the
buffer. -/
def writeCallbackIn (processSseLine : List UInt8 → Bool) (sseLine : Option LineBuffer)
    (d : Delivery) : Checked (Taken (Option LineBuffer)) :=
  match sseLine.or ((d.heap.malloc 4096).map fun buf => ⟨buf, 0⟩) with
  | none => .ok ⟨false, [], none⟩
  | some lb => do
    let r ← lb.receive processSseLine d.heap d.chunk
    return ⟨r.took, r.lines, some r.state⟩

/-- `write_callback` of `backend_openai.c`, behind the headers: the buffer is there. -/
def Backend.writeCallbackIn (processSseLine : List UInt8 → Bool) (lb : LineBuffer)
    (d : Delivery) : Checked (Taken LineBuffer) :=
  lb.receive processSseLine d.heap d.chunk

/-- A transfer: libcurl hands over chunk after chunk until one is not taken. -/
def transfer {σ : Type} (callback : σ → Delivery → Checked (Taken σ)) :
    σ → List Delivery → Checked (Taken σ)
  | s, [] => .ok ⟨true, [], s⟩
  | s, d :: rest => do
    let r ← callback s d
    if r.took then do
      let r' ← transfer callback r.state rest
      return { r' with lines := r.lines ++ r'.lines }
    else return r

/-! ## One line -/

variable {buf line more rest : List UInt8} {lineStart newline : Nat}

/-- The bytes from a place on, with one of them replaced. -/
theorem drop_store {front back : List UInt8} {c d : UInt8}
    (h : buf.drop lineStart = front ++ c :: back) :
    ∃ buf', store buf (lineStart + front.length) [d] = .ok buf' ∧ buf'.length = buf.length ∧
      buf'.drop lineStart = front ++ d :: back ∧ buf'.take lineStart = buf.take lineStart := by
  have hlen := congrArg List.length h
  rw [List.length_drop, List.length_append, List.length_cons] at hlen
  have hfits : lineStart + front.length + [d].length ≤ buf.length := by
    rw [List.length_singleton]
    omega
  refine ⟨_, store_ok hfits, length_overwritten hfits, ?_,
    take_overwritten_of_le (Nat.le_add_right _ _) (by omega)⟩
  have hsplit : front ++ c :: back = front ++ [c] ++ back := by simp
  rw [drop_overwritten_of_le (Nat.le_add_right _ _) (by omega), h, Nat.add_sub_cancel_left, hsplit,
    overwritten_append (by rfl)]
  simp

/-- What is behind a part of the array. -/
theorem drop_behind (front : List UInt8) (h : buf.drop lineStart = front ++ rest) :
    buf.drop (lineStart + front.length) = rest := by
  rw [← List.drop_drop, h, List.drop_left]

theorem load_at {front back : List UInt8} {c : UInt8}
    (h : buf.drop lineStart = front ++ c :: back) : load buf (lineStart + front.length) = .ok c := by
  have hget : buf[lineStart + front.length]? = some c := by
    rw [← List.getElem?_drop, h, List.getElem?_append_right (Nat.le_refl _), Nat.sub_self]
    rfl
  rw [load, hget]

@[simp] theorem chomp_nil : chomp [] = [] := rfl

theorem chomp_concat (init : List UInt8) (c : UInt8) :
    chomp (init ++ [c]) = if c = 13 then init else init ++ [c] := by
  rw [chomp, List.getLast?_concat, List.dropLast_concat]
  simp only [Option.some.injEq]

/-- **A line is ended in place**: read as a string it has lost its carriage return, and what is
behind the line feed is as it was. -/
theorem endLine_ok (h : buf.drop lineStart = line ++ 10 :: rest) (hnul : 0 ∉ line) :
    ∃ buf', endLine buf lineStart (lineStart + line.length) = .ok buf' ∧
      buf'.length = buf.length ∧ buf'.take lineStart = buf.take lineStart ∧
      loadString buf' lineStart = .ok (chomp line) ∧
      buf'.drop (lineStart + line.length + 1) = rest := by
  obtain ⟨buf₁, hstore, hlen, hdrop, htake⟩ := drop_store (d := 0) h
  rcases List.eq_nil_or_concat' line with rfl | ⟨init, c, rfl⟩
  · -- an empty line: there is no byte in front of the line feed
    refine ⟨buf₁, ?_, hlen, htake, loadString_ok hnul hdrop, drop_behind [0] hdrop⟩
    rw [endLine, hstore]
    simp only [bind, Except.bind, pure, Except.pure, List.length_nil, Nat.add_zero,
      Nat.lt_irrefl, if_false]
  · rw [List.append_assoc, List.singleton_append] at hdrop
    have hlast : lineStart + (init ++ [c]).length - 1 = lineStart + init.length := by
      rw [List.length_append, List.length_singleton]
      omega
    have hbefore : lineStart < lineStart + (init ++ [c]).length := by
      rw [List.length_append, List.length_singleton]
      omega
    have hload := load_at hdrop
    rw [endLine, hstore, chomp_concat]
    by_cases hc : c = 13
    · obtain ⟨buf₂, hstore₂, hlen₂, hdrop₂, htake₂⟩ := drop_store (d := 0) hdrop
      refine ⟨buf₂, ?_, hlen₂.trans hlen, htake₂.trans htake, ?_, ?_⟩
      · simp only [bind, Except.bind, if_pos hbefore, hlast, hload, if_pos hc, hstore₂]
      · rw [if_pos hc]
        exact loadString_ok (fun h0 => hnul (List.mem_append_left _ h0)) hdrop₂
      · have hfront : (init ++ [0, 0]).length = (init ++ [c]).length + 1 := by simp
        rw [Nat.add_assoc, ← hfront]
        exact drop_behind _ (by rw [hdrop₂, List.append_assoc]; rfl)
    · have hwhole : init ++ c :: 0 :: rest = init ++ [c] ++ 0 :: rest := by simp
      refine ⟨buf₁, ?_, hlen, htake, ?_, ?_⟩
      · simp only [bind, Except.bind, pure, Except.pure, if_pos hbefore, hlast, hload, if_neg hc]
      · rw [if_neg hc]
        exact loadString_ok hnul (hdrop.trans hwhole)
      · have hfront : (init ++ [c] ++ [0]).length = (init ++ [c]).length + 1 := by simp
        rw [Nat.add_assoc, ← hfront]
        exact drop_behind _ (by rw [hdrop, hwhole]; simp)

/-! ## All lines -/

/-- The lines of a text without NULs begin with the one in front of its first line feed. -/
theorem splitLines_feed (hline : Unfinished line) (more : List UInt8) :
    splitLines [] (line ++ 10 :: more) =
      (chomp line :: (splitLines [] more).1, (splitLines [] more).2) := by
  rw [splitLines_seen hline, splitLines, if_neg (by decide), if_pos rfl]

/-- A text without a line feed is the start of a line. -/
theorem splitLines_unfinished (hline : Unfinished line) : splitLines [] line = ([], line) := by
  have h := splitLines_seen hline []
  rw [List.append_nil] at h
  rw [h, splitLines]

/-- **The loop over the lines** processes the complete ones and stops at the start of the last. -/
theorem scanLines_ok {process : List UInt8 → Bool} (hp : ∀ line, process line = true)
    {text : List UInt8} (fuel : Nat) (hfuel : text.length < fuel) (hnul : 0 ∉ text)
    (h : buf.drop lineStart = text ++ 0 :: rest) :
    ∃ buf' lineStart', scanLines process fuel buf lineStart =
        .ok ⟨(splitLines [] text).1, true, buf', lineStart'⟩ ∧
      buf'.length = buf.length ∧ lineStart ≤ lineStart' ∧
      lineStart' + (splitLines [] text).2.length = lineStart + text.length ∧
      buf'.drop lineStart' = (splitLines [] text).2 ++ 0 :: rest ∧
      (lineStart' = lineStart → buf' = buf) := by
  induction fuel generalizing buf lineStart text with
  | zero => exact absurd hfuel (Nat.not_lt_zero _)
  | succ fuel ih =>
    rw [scanLines]
    by_cases hfeed : 10 ∈ text
    · obtain ⟨line, more, rfl, hline⟩ := List.eq_append_cons_of_mem hfeed
      have hnul₁ : 0 ∉ line := fun h0 => hnul (List.mem_append_left _ h0)
      have hnul₂ : 0 ∉ more :=
        fun h0 => hnul (List.mem_append_right _ (List.mem_cons_of_mem _ h0))
      have hunfinished : Unfinished line :=
        fun c hc => ⟨fun h0 => hnul₁ (h0 ▸ hc), fun h10 => hline (h10 ▸ hc)⟩
      rw [List.append_assoc, List.cons_append] at h
      have hfound : strchr buf lineStart 10 = .ok (some (lineStart + line.length)) := by
        rw [strchr, h, strchrIn_some hline hnul₁]
        rfl
      obtain ⟨buf₁, hend, hlen₁, -, hload, hdrop₁⟩ := endLine_ok h hnul₁
      have hlength : (line ++ 10 :: more).length = line.length + 1 + more.length := by
        rw [List.length_append, List.length_cons]
        omega
      obtain ⟨buf', lineStart', hscan, hlen', hle', hsum', hdrop', -⟩ :=
        ih (by omega) hnul₂ hdrop₁
      rw [splitLines_feed hunfinished]
      simp only
      refine ⟨buf', lineStart', ?_, hlen'.trans hlen₁, by omega, by omega, hdrop', by omega⟩
      simp only [hfound, hend, hload, hp, hscan, bind, Except.bind, pure, Except.pure, if_true]
    · have hunfinished : Unfinished text :=
        fun c hc => ⟨fun h0 => hnul (h0 ▸ hc), fun h10 => hfeed (h10 ▸ hc)⟩
      have hfound : strchr buf lineStart 10 = .ok none := by
        rw [strchr, h, strchrIn_none hfeed (by decide) hnul]
        rfl
      rw [splitLines_unfinished hunfinished]
      refine ⟨buf, lineStart, ?_, rfl, Nat.le_refl _, rfl, h, fun _ => rfl⟩
      simp only [hfound, bind, Except.bind, pure, Except.pure]

/-! ## One chunk -/

/-- The buffer holds this text. `carried` is what the text is read from; behind it there may be
anything, for the buffer is never cleared. -/
structure LineBuffer.Holds (lb : LineBuffer) (text : List UInt8) : Prop where
  len : lb.len = text.length
  carried : lb.carried = text

variable {lb : LineBuffer} {text chunk : List UInt8} {heap : Heap}

/-- The text fits into the buffer. -/
theorem LineBuffer.Holds.fits (h : lb.Holds text) : lb.len ≤ lb.buf.length := by
  have hlen := congrArg List.length h.carried
  have htext := h.len
  simp only [LineBuffer.carried, List.length_take] at hlen
  omega

/-- **Growing** keeps the text and makes room for a chunk and its NUL. -/
theorem LineBuffer.Holds.expand (h : lb.Holds text) (heap : Heap)
    (ha : ∀ n, (heap.malloc n).isSome) (bytes : Nat) :
    ∃ lb', lb.expand heap bytes = some lb' ∧ lb'.Holds text ∧
      lb'.buf.length = Backend.nextCapacity lb.buf.length text.length bytes ∧
      lb'.len + bytes + 1 ≤ lb'.buf.length := by
  have hfits := h.fits
  rw [LineBuffer.expand, Backend.nextCapacity, ← h.len]
  by_cases hsmall : lb.buf.length < lb.len + bytes + 1
  · obtain ⟨block, hblock⟩ :=
      Option.isSome_iff_exists.mp (ha (Backend.newCapacity lb.buf.length lb.len bytes))
    have hsize := heap.size _ _ hblock
    have hcap : lb.len + bytes + 1 ≤ Backend.newCapacity lb.buf.length lb.len bytes ∧
        lb.buf.length ≤ Backend.newCapacity lb.buf.length lb.len bytes := by
      simp only [Backend.newCapacity]
      omega
    have hroom : 0 + lb.buf.length ≤ block.length := by omega
    have htake := take_overwritten hroom
    rw [if_pos hsmall, if_pos hsmall, Heap.realloc, hblock]
    refine ⟨⟨overwritten block 0 lb.buf, lb.len⟩, rfl, ⟨h.len, ?_⟩, ?_, ?_⟩
    · have hcut := congrArg (List.take lb.len) htake
      rw [List.take_take, Nat.min_eq_left (by omega), List.take_zero, List.nil_append] at hcut
      exact hcut.trans h.carried
    · exact (length_overwritten hroom).trans hsize
    · exact Nat.le_trans hcap.1 (Nat.le_of_eq ((length_overwritten hroom).trans hsize).symm)
  · rw [if_neg hsmall, if_neg hsmall]
    exact ⟨lb, rfl, h, rfl, Nat.le_of_not_lt hsmall⟩

/-- **Appending** a chunk for which there is room. -/
theorem LineBuffer.Holds.append (h : lb.Holds text)
    (hroom : lb.len + chunk.length + 1 ≤ lb.buf.length) :
    ∃ lb' rest, lb.append chunk = .ok lb' ∧ lb'.len = (text ++ chunk).length ∧
      lb'.buf.length = lb.buf.length ∧ lb'.buf = (text ++ chunk) ++ 0 :: rest := by
  have hfits : lb.len + chunk.length ≤ lb.buf.length := by omega
  have htake := take_overwritten hfits
  have hlen₁ := length_overwritten hfits
  have hfits₂ : lb.len + chunk.length + ([0] : List UInt8).length ≤
      (overwritten lb.buf lb.len chunk).length := by
    rw [hlen₁, List.length_singleton]
    exact hroom
  refine ⟨⟨overwritten (overwritten lb.buf lb.len chunk) (lb.len + chunk.length) [0],
    lb.len + chunk.length⟩, (overwritten lb.buf lb.len chunk).drop (lb.len + chunk.length + 1),
    ?_, ?_, (length_overwritten hfits₂).trans hlen₁, ?_⟩
  · have hnul := store_ok hfits₂
    rw [LineBuffer.append, store_ok hfits]
    simp only [bind, Except.bind, hnul, pure, Except.pure]
  · rw [List.length_append, h.len]
  · have hcarried : lb.buf.take lb.len = text := h.carried
    rw [hcarried] at htake
    simp only
    rw [overwritten, htake, List.append_assoc]
    rfl

/-- Moving bytes to the start, none included. -/
theorem moveBytes_ok {left : List UInt8} (h : buf.drop lineStart = left ++ rest) :
    ∃ buf', moveBytes buf lineStart left.length = .ok buf' ∧ buf'.length = buf.length ∧
      buf'.take left.length = left := by
  have hbuf := congrArg List.length h
  rw [List.length_drop, List.length_append] at hbuf
  rw [moveBytes]
  by_cases hsome : 0 < left.length
  · have hroom : 0 + left.length ≤ buf.length := by omega
    have hload : loadBytes buf lineStart left.length = .ok left := by
      rw [loadBytes, if_pos (by omega), h, List.take_left]
    have hstore := store_ok hroom
    have htake := take_overwritten hroom
    rw [Nat.zero_add, List.take_zero, List.nil_append] at htake
    refine ⟨overwritten buf 0 left, ?_, length_overwritten hroom, htake⟩
    simp only [if_pos hsome, hload, bind, Except.bind, hstore]
  · have hnil : left = [] := List.length_eq_zero_iff.mp (by omega)
    refine ⟨buf, if_neg hsome, rfl, ?_⟩
    rw [hnil]
    rfl

/-- **Moving down** what is left of the text. -/
theorem LineBuffer.moveDown_ok {left : List UInt8} (hlen : lb.len = lineStart + left.length)
    (h : lb.buf.drop lineStart = left ++ 0 :: rest) :
    ∃ lb', lb.moveDown lineStart = .ok lb' ∧ lb'.Holds left ∧
      lb'.buf.length = lb.buf.length := by
  rw [moveDown]
  by_cases hstart : lineStart = 0
  · rw [hstart, List.drop_zero] at h
    rw [hstart, Nat.zero_add] at hlen
    refine ⟨lb, if_pos hstart, ⟨hlen, ?_⟩, rfl⟩
    rw [carried, h, hlen, List.take_left]
  · have hbuf := congrArg List.length h
    rw [List.length_drop, List.length_append, List.length_cons] at hbuf
    obtain ⟨buf₁, hmove, hlen₁, htake₁⟩ := moveBytes_ok h
    have hroom : left.length + ([0] : List UInt8).length ≤ buf₁.length := by
      rw [hlen₁, List.length_singleton]
      omega
    have hstore := store_ok hroom
    have htake : (overwritten buf₁ left.length [0]).take left.length = left := by
      rw [take_overwritten_of_le (Nat.le_refl _) (by omega), htake₁]
    refine ⟨⟨overwritten buf₁ left.length [0], left.length⟩, ?_, ⟨rfl, htake⟩,
      (length_overwritten hroom).trans hlen₁⟩
    have hremaining : lb.len - lineStart = left.length := by omega
    rw [if_neg hstart, minus_ok (by omega), hremaining]
    simp only [bind, Except.bind, hmove, hstore, pure, Except.pure]

/-- **What both callbacks do with a chunk**, without a fault: the lines are those of the text with
the chunk behind it, and what is left of it is kept. -/
theorem LineBuffer.Holds.receive {process : List UInt8 → Bool}
    (hp : ∀ line, process line = true) (ha : ∀ n, (heap.malloc n).isSome) (h : lb.Holds text)
    (hnul : 0 ∉ text ++ chunk) :
    ∃ lb', lb.receive process heap chunk = .ok ⟨true, (splitLines [] (text ++ chunk)).1, lb'⟩ ∧
      lb'.Holds (splitLines [] (text ++ chunk)).2 ∧
      lb'.buf.length = Backend.nextCapacity lb.buf.length text.length chunk.length := by
  obtain ⟨lb₁, hexpand, h₁, hcap, hroom⟩ := h.expand heap ha chunk.length
  obtain ⟨lb₂, rest, happend, hlen₂, hbuf₂, htext₂⟩ := h₁.append hroom
  have hdrop : lb₂.buf.drop 0 = (text ++ chunk) ++ 0 :: rest := by rw [List.drop_zero, htext₂]
  obtain ⟨buf', lineStart, hscan, hlen', -, hsum, hdrop', -⟩ :=
    scanLines_ok hp (lb₂.len + 1) (by omega) hnul hdrop
  have hleft : (LineBuffer.mk buf' lb₂.len).len =
      lineStart + (splitLines [] (text ++ chunk)).2.length := by
    simp only [hlen₂]
    omega
  obtain ⟨lb', hmove, hholds, hlen⟩ := LineBuffer.moveDown_ok hleft hdrop'
  refine ⟨lb', ?_, hholds, hlen.trans (hlen'.trans (hbuf₂.trans hcap))⟩
  simp only [LineBuffer.receive, hexpand, happend, hscan, hmove, bind, Except.bind, pure,
    Except.pure, if_true]

/-! ## A whole transfer -/

/-- The segments of a stream that a line feed ends, with one carriage return less at their end. -/
def feedLines (stream : List UInt8) : List (List UInt8) :=
  (stream.splitOn 10).dropLast.map chomp

/-- The bytes after the last line feed. -/
def feedRest (stream : List UInt8) : List UInt8 := (stream.splitOn 10).getLastD []

/-- **The lines of a stream** without NULs are the segments between its line feeds. A NUL would end
the search for a line feed, as `strchr` stops there. -/
theorem splitLines_eq_feed (n : Nat) : ∀ stream : List UInt8, stream.length ≤ n → 0 ∉ stream →
    splitLines [] stream = (feedLines stream, feedRest stream) := by
  induction n with
  | zero =>
    intro stream hlen _
    rw [List.length_eq_zero_iff.mp (Nat.le_zero.mp hlen)]
    rfl
  | succ n ih =>
    intro stream hlen hnul
    rw [feedLines, feedRest]
    by_cases hfeed : 10 ∈ stream
    · obtain ⟨line, more, rfl, hline⟩ := List.eq_append_cons_of_mem hfeed
      have hunfinished : Unfinished line := fun c hc =>
        ⟨fun h0 => hnul (h0 ▸ List.mem_append_left _ hc), fun h10 => hline (h10 ▸ hc)⟩
      have hmore := ih more (by rw [List.length_append, List.length_cons] at hlen; omega)
        fun h0 => hnul (List.mem_append_right _ (List.mem_cons_of_mem _ h0))
      obtain ⟨segment, segments, hsegments⟩ :=
        List.exists_cons_of_ne_nil (List.splitOn_ne_nil 10 more)
      rw [splitLines_feed hunfinished, hmore, List.splitOn_append_cons_self_of_not_mem hline,
        feedLines, feedRest, hsegments]
      rfl
    · have hunfinished : Unfinished stream :=
        fun c hc => ⟨fun h0 => hnul (h0 ▸ hc), fun h10 => hfeed (h10 ▸ hc)⟩
      rw [splitLines_unfinished hunfinished, List.splitOn_eq_singleton hfeed]
      rfl

/-- The stream that is delivered. -/
def streamOf (ds : List Delivery) : List UInt8 := ds.flatMap Delivery.chunk

/-- All allocations succeed. -/
def Allocates (ds : List Delivery) : Prop := ∀ d ∈ ds, ∀ n, (d.heap.malloc n).isSome

/-- What a callback has to do with each chunk, `Holds s text` saying what its state keeps. -/
def Reassembles {σ : Type} (callback : σ → Delivery → Checked (Taken σ))
    (Holds : σ → List UInt8 → Prop) : Prop :=
  ∀ s text d, Holds s text → 0 ∉ text ++ d.chunk → (∀ n, (d.heap.malloc n).isSome) →
    ∃ s', callback s d = .ok ⟨true, (splitLines [] (text ++ d.chunk)).1, s'⟩ ∧
      Holds s' (splitLines [] (text ++ d.chunk)).2

/-- What is left of a text has no other bytes. -/
theorem mem_splitLines_rest {line text : List UInt8} {c : UInt8}
    (hc : c ∈ (splitLines line text).2) : c ∈ line ++ text := by
  induction text generalizing line with
  | nil => rwa [splitLines, ← List.append_nil line] at hc
  | cons d text ih =>
    rw [splitLines] at hc
    split_ifs at hc with h0 h10
    · exact hc
    · exact List.mem_append_right _ (List.mem_cons_of_mem _ (ih hc))
    · have hmem := ih hc
      rwa [List.append_assoc, List.singleton_append] at hmem

/-- **The transfer**: from a state that keeps `text`, the lines of the text and the stream. -/
theorem Reassembles.transfer {σ : Type} {callback : σ → Delivery → Checked (Taken σ)}
    {Holds : σ → List UInt8 → Prop} (hr : Reassembles callback Holds) {ds : List Delivery}
    (ha : Allocates ds) {s : σ} {text : List UInt8} (hs : Holds s text)
    (htext : splitLines [] text = ([], text)) (hnul : 0 ∉ text ++ streamOf ds) :
    ∃ s', transfer callback s ds = .ok ⟨true, (splitLines [] (text ++ streamOf ds)).1, s'⟩ ∧
      Holds s' (splitLines [] (text ++ streamOf ds)).2 := by
  induction ds generalizing s text with
  | nil =>
    refine ⟨s, ?_, ?_⟩
    · rw [streamOf, List.flatMap_nil, List.append_nil, htext, Uring.transfer]
    · rw [streamOf, List.flatMap_nil, List.append_nil, htext]
      exact hs
  | cons d ds ih =>
    have hstream : text ++ streamOf (d :: ds) = (text ++ d.chunk) ++ streamOf ds := by
      rw [streamOf, List.flatMap_cons, ← List.append_assoc]
      rfl
    rw [hstream] at hnul ⊢
    have hnul₁ : 0 ∉ text ++ d.chunk := fun h0 => hnul (List.mem_append_left _ h0)
    obtain ⟨s₁, hcall, h₁⟩ := hr s text d hs hnul₁ (ha d List.mem_cons_self)
    have hnul₂ : 0 ∉ (splitLines [] (text ++ d.chunk)).2 ++ streamOf ds := by
      intro h0
      rcases List.mem_append.mp h0 with h0 | h0
      · have hmem := mem_splitLines_rest h0
        rw [List.nil_append] at hmem
        exact hnul₁ hmem
      · exact hnul (List.mem_append_right _ h0)
    obtain ⟨s', hrest, h'⟩ := ih (fun e he => ha e (List.mem_cons_of_mem _ he)) h₁
      (splitLines_rest _) hnul₂
    rw [splitLines_append .nil]
    refine ⟨s', ?_, h'⟩
    rw [Uring.transfer, hcall]
    simp only [bind, Except.bind, if_true, hrest, pure, Except.pure]

/-! ## The two callbacks -/

/-- What the line buffer of a connection keeps; nothing before the first chunk. -/
def carriedOf (sseLine : Option LineBuffer) : List UInt8 := (sseLine.map LineBuffer.carried).getD []

/-- A line buffer that is not there yet holds nothing. -/
def HoldsOption (sseLine : Option LineBuffer) (text : List UInt8) : Prop :=
  (sseLine = none ∧ text = []) ∨ ∃ lb, sseLine = some lb ∧ lb.Holds text

theorem HoldsOption.carriedOf {sseLine : Option LineBuffer} (h : HoldsOption sseLine text) :
    carriedOf sseLine = text := by
  rcases h with ⟨rfl, rfl⟩ | ⟨lb, rfl, hlb⟩
  · rfl
  · exact hlb.carried

/-- A block in which nothing is used. -/
theorem holds_block (block : List UInt8) : LineBuffer.Holds ⟨block, 0⟩ [] := ⟨rfl, rfl⟩

theorem Backend.reassembles {process : List UInt8 → Bool} (hp : ∀ line, process line = true) :
    Reassembles (Backend.writeCallbackIn process) LineBuffer.Holds := by
  intro lb text d hlb hnul ha
  obtain ⟨lb', hreceive, hlb', -⟩ := hlb.receive hp ha hnul
  exact ⟨lb', hreceive, hlb'⟩

theorem reassembles {process : List UInt8 → Bool} (hp : ∀ line, process line = true) :
    Reassembles (writeCallbackIn process) HoldsOption := by
  intro sseLine text d hs hnul ha
  obtain ⟨lb, hlb, hholds⟩ : ∃ lb,
      sseLine.or ((d.heap.malloc 4096).map fun buf => ⟨buf, 0⟩) = some lb ∧ lb.Holds text := by
    rcases hs with ⟨rfl, rfl⟩ | ⟨lb, rfl, hlb⟩
    · obtain ⟨block, hblock⟩ := Option.isSome_iff_exists.mp (ha 4096)
      exact ⟨⟨block, 0⟩, by rw [hblock]; rfl, holds_block block⟩
    · exact ⟨lb, rfl, hlb⟩
  obtain ⟨lb', hreceive, hlb', -⟩ := hholds.receive hp ha hnul
  refine ⟨some lb', ?_, .inr ⟨lb', rfl, hlb'⟩⟩
  simp only [writeCallbackIn, hlb, hreceive, bind, Except.bind, pure, Except.pure]

/-- **Line reassembly does not depend on chunking.** For a stream without NULs, cut into chunks in
any way, both callbacks run without a fault, take every chunk, process the segments between the
line feeds, and keep the bytes after the last one. -/
theorem writeCallback_reassembles {process : List UInt8 → Bool}
    (hp : ∀ line, process line = true) {ds : List Delivery} (ha : Allocates ds)
    (hnul : 0 ∉ streamOf ds) :
    (∃ sseLine, transfer (writeCallbackIn process) none ds =
        .ok ⟨true, feedLines (streamOf ds), sseLine⟩ ∧
      carriedOf sseLine = feedRest (streamOf ds)) ∧
    ∀ block : List UInt8, block.length = 4096 →
      ∃ lb, transfer (Backend.writeCallbackIn process) ⟨block, 0⟩ ds =
          .ok ⟨true, feedLines (streamOf ds), lb⟩ ∧
        lb.carried = feedRest (streamOf ds) := by
  have hsplit := splitLines_eq_feed _ (streamOf ds) (Nat.le_refl _) hnul
  refine ⟨?_, fun block _ => ?_⟩
  · obtain ⟨sseLine, hrun, hholds⟩ :=
      (reassembles hp).transfer ha (.inl ⟨rfl, rfl⟩) rfl (by rwa [List.nil_append])
    rw [List.nil_append, hsplit] at hrun hholds
    exact ⟨sseLine, hrun, hholds.carriedOf⟩
  · obtain ⟨lb, hrun, hholds⟩ :=
      (Backend.reassembles hp).transfer ha (holds_block block) rfl (by rwa [List.nil_append])
    rw [List.nil_append, hsplit] at hrun hholds
    exact ⟨lb, hrun, hholds.carried⟩

/-- An allocator that never fails. -/
def Heap.zeroed : Heap where
  malloc n := some (List.replicate n 0)
  size n block h := by
    obtain rfl := Option.some.inj h
    exact List.length_replicate

/-- A line that ends with a carriage return in one chunk and a line feed in the next. -/
theorem writeCallback_reassembles_split :
    ∃ sseLine, transfer (writeCallbackIn fun _ => true) none
        [⟨.zeroed, [97, 13]⟩, ⟨.zeroed, [10, 98]⟩] = .ok ⟨true, [[97]], sseLine⟩ ∧
      carriedOf sseLine = [98] := by
  have hds : Allocates [⟨.zeroed, [97, 13]⟩, ⟨.zeroed, [10, 98]⟩] := by
    intro d hd n
    rcases List.mem_pair.mp hd with rfl | rfl
    · rfl
    · rfl
  obtain ⟨hmulti, -⟩ := writeCallback_reassembles (fun _ => rfl) hds (by decide)
  exact hmulti

end SocketHandoff.Uring
