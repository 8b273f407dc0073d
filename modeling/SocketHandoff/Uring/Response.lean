import SocketHandoff.Uring.CurlManager

/-!
# The frames of a response

What `process_sse_line` and the line buffers make of a response, apart from where it goes: the
lines of its chunks and the frame of each line. The curl manager and the worker threads share it.
-/

namespace SocketHandoff.Uring

/-! ## Frames -/

theorem length_escapeChar_le (c : UInt8) : (escapeChar c).length ≤ 6 := by
  simp only [escapeChar]
  split_ifs <;> simp [hex4]

/-- The loop never writes more than it has room for. -/
theorem length_escapeContent_le (content : List UInt8) (remaining : Nat) :
    (escapeContent content remaining).length ≤ remaining := by
  induction content generalizing remaining with
  | nil => exact Nat.zero_le _
  | cons c rest ih =>
    rw [escapeContent]
    split
    · have hc := length_escapeChar_le c
      have hrest := ih (remaining - (escapeChar c).length)
      rw [List.length_append]
      omega
    · exact Nat.zero_le _

theorem length_escapeChar_pos (c : UInt8) : 0 < (escapeChar c).length := by
  simp only [escapeChar]
  split_ifs <;> simp

/-- What it writes is the start of the escaped text. -/
theorem escapeContent_start (content : List UInt8) (remaining : Nat) :
    escapeContent content remaining <+: content.flatMap escapeChar := by
  induction content generalizing remaining with
  | nil => exact List.prefix_rfl
  | cons c rest ih =>
    rw [escapeContent, List.flatMap_cons]
    split
    · exact (List.prefix_append_right_inj _).mpr (ih _)
    · exact List.nil_prefix

/-- It is the whole text if there is room for an escape when the last character is reached. -/
theorem escapeContent_eq_iff {content : List UInt8} {remaining : Nat} (h : 6 < remaining) :
    escapeContent content remaining = content.flatMap escapeChar ↔
      (content.dropLast.flatMap escapeChar).length + 6 < remaining := by
  induction content generalizing remaining with
  | nil => simpa [escapeContent] using h
  | cons c rest ih =>
    rw [escapeContent, if_pos h, List.flatMap_cons, List.append_right_inj]
    cases rest with
    | nil => simpa [escapeContent] using h
    | cons d rest =>
      have hlen : ((c :: d :: rest).dropLast.flatMap escapeChar).length =
          (escapeChar c).length + ((d :: rest).dropLast.flatMap escapeChar).length := by
        rw [List.dropLast_cons_cons, List.flatMap_cons, List.length_append]
      rw [hlen]
      by_cases hroom : 6 < remaining - (escapeChar c).length
      · rw [ih hroom]
        omega
      · have hpos := length_escapeChar_pos d
        rw [escapeContent, if_neg hroom]
        constructor
        · intro hnil
          have hzero := congrArg List.length hnil
          rw [List.flatMap_cons, List.length_append, List.length_nil] at hzero
          omega
        · omega

/-- The frame `process_sse_line` makes of a line; empty when the line has no content. -/
def sseFrame (line : List UInt8) : List UInt8 :=
  if sseContent line = [] then [] else (streamFormatSse 8192 (sseContent line)).getD []

/-- The buffer of `process_sse_line` has room for every frame. -/
theorem streamFormatSse_fits (content : List UInt8) :
    ∃ frame, streamFormatSse 8192 content = some frame ∧ frame.length ≤ 4118 := by
  have hlen := length_escapeContent_le (cstring content) 4095
  refine ⟨_, if_pos ?_, ?_⟩
  · simp only [List.length_append, ascii, List.length_map, String.length_toList]
    have h₁ : ("data: \x7b\"content\":\"").length = 18 := rfl
    have h₂ : ("\"\x7d\n\n").length = 4 := rfl
    omega
  · simp only [List.length_append, ascii, List.length_map, String.length_toList]
    have h₁ : ("data: \x7b\"content\":\"").length = 18 := rfl
    have h₂ : ("\"\x7d\n\n").length = 4 := rfl
    omega

theorem sseFrame_eq {line frame : List UInt8} (hc : sseContent line ≠ [])
    (hf : streamFormatSse 8192 (sseContent line) = some frame) : sseFrame line = frame := by
  rw [sseFrame, if_neg hc, hf, Option.getD_some]

theorem sseFrame_ne_nil {line : List UInt8} (hc : sseContent line ≠ []) : sseFrame line ≠ [] := by
  obtain ⟨frame, hf, -⟩ := streamFormatSse_fits (sseContent line)
  rw [sseFrame_eq hc hf]
  exact ne_nil_of_streamFormatSse hf

theorem length_sseFrame_le (line : List UInt8) : (sseFrame line).length ≤ 4118 := by
  by_cases hc : sseContent line = []
  · rw [sseFrame, if_pos hc]
    exact Nat.zero_le _
  · obtain ⟨frame, hf, hlen⟩ := streamFormatSse_fits (sseContent line)
    rwa [sseFrame_eq hc hf]

/-- The frames of lines, one after the other. -/
def sseFrames (lines : List (List UInt8)) : List UInt8 := lines.flatMap sseFrame

@[simp] theorem sseFrames_nil : sseFrames [] = [] := rfl

@[simp] theorem sseFrames_cons (line : List UInt8) (rest : List (List UInt8)) :
    sseFrames (line :: rest) = sseFrame line ++ sseFrames rest := List.flatMap_cons

@[simp] theorem sseFrames_append (lines more : List (List UInt8)) :
    sseFrames (lines ++ more) = sseFrames lines ++ sseFrames more := List.flatMap_append

/-! ## Lines -/

/-- A text that may be the start of a line. -/
def Unfinished (line : List UInt8) : Prop := ∀ c ∈ line, c ≠ 0 ∧ c ≠ 10

theorem Unfinished.nil : Unfinished [] := fun _ h => absurd h List.not_mem_nil

theorem Unfinished.push {line : List UInt8} {c : UInt8} (h : Unfinished line) (h0 : c ≠ 0)
    (h10 : c ≠ 10) : Unfinished (line ++ [c]) := by
  intro d hd
  rcases List.mem_append.mp hd with hd | hd
  · exact h d hd
  · rw [List.mem_singleton.mp hd]
    exact ⟨h0, h10⟩

/-- What has been seen of a line may as well be looked at again. -/
theorem splitLines_seen {line : List UInt8} (h : Unfinished line) (text : List UInt8) :
    splitLines [] (line ++ text) = splitLines line text := by
  suffices ∀ seen : List UInt8, splitLines seen (line ++ text) = splitLines (seen ++ line) text by
    simpa using this []
  induction line with
  | nil => intro seen; simp
  | cons c rest ih =>
    intro seen
    obtain ⟨h0, h10⟩ := h c List.mem_cons_self
    have hrest : Unfinished rest := fun d hd => h d (List.mem_cons_of_mem c hd)
    rw [List.cons_append, splitLines, if_neg h0, if_neg h10, ih hrest, List.append_assoc,
      List.singleton_append]

/-- **Chunks do not matter.** The lines of a text that comes in two parts are those of the first
part, and those of what it leaves together with the second part. -/
theorem splitLines_append {line : List UInt8} (h : Unfinished line) (text more : List UInt8) :
    splitLines line (text ++ more) =
      ((splitLines line text).1 ++ (splitLines [] ((splitLines line text).2 ++ more)).1,
        (splitLines [] ((splitLines line text).2 ++ more)).2) := by
  induction text generalizing line with
  | nil =>
    rw [List.nil_append]
    simp only [splitLines, List.nil_append]
    rw [splitLines_seen h]
  | cons c rest ih =>
    rw [List.cons_append]
    by_cases h0 : c = 0
    · -- nothing behind a NUL is looked at, now or later
      subst h0
      have hstop : ∀ tail : List UInt8, splitLines line (0 :: tail) = ([], line ++ 0 :: tail) :=
        fun tail => by rw [splitLines, if_pos rfl]
      rw [hstop, hstop, List.nil_append, List.append_assoc, splitLines_seen h, List.cons_append,
        hstop]
    · by_cases h10 : c = 10
      · rw [splitLines, if_neg h0, if_pos h10, splitLines, if_neg h0, if_pos h10, ih .nil]
        rfl
      · rw [splitLines, if_neg h0, if_neg h10, splitLines, if_neg h0, if_neg h10,
          ih (h.push h0 h10)]

/-- What is left is looked at again, and no line is found in it. -/
theorem splitLines_rest (text : List UInt8) :
    splitLines [] (splitLines [] text).2 = ([], (splitLines [] text).2) := by
  have h := splitLines_append .nil text []
  rw [List.append_nil, List.append_nil] at h
  obtain ⟨hlines, hrest⟩ := Prod.mk.inj ((Prod.eta _).trans h)
  exact Prod.ext (List.self_eq_append_right.mp hlines) hrest.symm

theorem length_splitLines_rest_le (line text : List UInt8) :
    (splitLines line text).2.length ≤ line.length + text.length := by
  induction text generalizing line with
  | nil => exact Nat.le_add_right _ _
  | cons c rest ih =>
    rw [splitLines]
    split_ifs
    · exact Nat.le_of_eq (List.length_append ..)
    · have h := ih []
      simp only [List.length_nil, List.length_cons] at h ⊢
      omega
    · have h := ih (line ++ [c])
      rw [List.length_append, List.length_singleton] at h
      rw [List.length_cons]
      omega

/-- The lines of the chunks of a response. -/
def responseLines (chunks : List (List UInt8)) : List (List UInt8) :=
  (splitLines [] chunks.flatten).1

/-- What is left in the line buffer behind them. -/
def responseRest (chunks : List (List UInt8)) : List UInt8 := (splitLines [] chunks.flatten).2

theorem responseLines_concat (chunks : List (List UInt8)) (chunk : List UInt8) :
    responseLines (chunks ++ [chunk]) =
      responseLines chunks ++ (splitLines [] (responseRest chunks ++ chunk)).1 := by
  rw [responseLines, List.flatten_append, List.flatten_singleton, splitLines_append .nil]
  rfl

theorem responseRest_concat (chunks : List (List UInt8)) (chunk : List UInt8) :
    responseRest (chunks ++ [chunk]) = (splitLines [] (responseRest chunks ++ chunk)).2 := by
  rw [responseRest, List.flatten_append, List.flatten_singleton, splitLines_append .nil]
  rfl

/-- What a chunk adds, given the text in the line buffer. -/
def chunkFrames (text chunk : List UInt8) : List UInt8 := sseFrames (splitLines [] (text ++ chunk)).1

theorem sseFrames_concat (chunks : List (List UInt8)) (chunk : List UInt8) :
    sseFrames (responseLines (chunks ++ [chunk])) =
      sseFrames (responseLines chunks) ++ chunkFrames (responseRest chunks) chunk := by
  rw [responseLines_concat, sseFrames_append]
  rfl

theorem responseRest_concat_nil (chunks : List (List UInt8)) :
    responseRest (chunks ++ [[]]) = responseRest chunks := by
  rw [responseRest_concat, List.append_nil, responseRest, splitLines_rest]

theorem chunkFrames_nil (chunks : List (List UInt8)) : chunkFrames (responseRest chunks) [] = [] := by
  rw [chunkFrames, List.append_nil, responseRest, splitLines_rest]
  rfl

theorem responseLines_of_flatten {chunks : List (List UInt8)} (h : chunks.flatten = []) :
    responseLines chunks = [] := by
  rw [responseLines, h]
  rfl

end SocketHandoff.Uring
