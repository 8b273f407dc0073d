import Mathlib.Data.List.TakeWhile
import SocketHandoff.Lib.CText

/-!
# Event streams

The reader of a stream of server-sent events: lines end with CR, LF or both, an empty line ends an
event, and of the fields of an event its type and its data are kept. The reader works on any type of
which it can see a byte, so that a byte may come with something else, such as who has written it.
-/

namespace SocketHandoff.Sse

variable {α : Type} (byte : α → UInt8)

/-- An event; its data is a list of lines. -/
structure Event (α : Type) where
  type : List α
  data : List (List α)
  deriving DecidableEq, Repr

/-- The reader, between two bytes. -/
structure Reader (α : Type) where
  /-- of the line that has begun -/
  line : List α
  /-- a LF that comes now belongs to the end of the last line -/
  afterCR : Bool
  /-- of the event that has begun -/
  type : List α
  /-- of the event that has begun -/
  data : List (List α)
  events : List (Event α)
  deriving DecidableEq, Repr

def Reader.start : Reader α := ⟨[], false, [], [], []⟩

/-- The name of a field: what stands before the first colon, or the line where there is none. -/
def nameOf (line : List α) : List α := line.takeWhile (byte · ≠ 58)

/-- The value of a field: what stands after the colon and one blank. -/
def valueOf (line : List α) : List α :=
  match (line.dropWhile (byte · ≠ 58)).drop 1 with
  | [] => []
  | c :: rest => if byte c = 32 then rest else c :: rest

/-- A line that is not empty. A line that begins with a colon is a comment, and the other fields do
not belong to an event. -/
def Reader.field (r : Reader α) (line : List α) : Reader α :=
  if (nameOf byte line).map byte = ascii "data" then
    { r with data := r.data ++ [valueOf byte line] }
  else if (nameOf byte line).map byte = ascii "event" then
    { r with type := valueOf byte line }
  else r

/-- An empty line: there is no event without data. -/
def Reader.dispatch (r : Reader α) : Reader α :=
  { r with
    events := if r.data = [] then r.events else r.events ++ [⟨r.type, r.data⟩]
    type := []
    data := [] }

def Reader.endLine (r : Reader α) : Reader α :=
  if r.line = [] then r.dispatch else { (r.field byte r.line) with line := [] }

/-- One byte. -/
def Reader.next (r : Reader α) (c : α) : Reader α :=
  if byte c = 10 then
    if r.afterCR then { r with afterCR := false } else r.endLine byte
  else if byte c = 13 then { (r.endLine byte) with afterCR := true }
  else { r with line := r.line ++ [c], afterCR := false }

/-- A stream may begin with a byte order mark. -/
def dropMark (stream : List α) : List α :=
  if (stream.take 3).map byte = [0xEF, 0xBB, 0xBF] then stream.drop 3 else stream

/-- The reader at the end of a stream. -/
def read (stream : List α) : Reader α := (dropMark byte stream).foldl (Reader.next byte) .start

/-- The events of a stream; one that has not been ended is not among them. -/
def events (stream : List α) : List (Event α) := (read byte stream).events

/-- Nothing of a line or of an event has been read since the last event. Only then is what follows
read as it would be by itself. -/
structure Reader.Between (r : Reader α) : Prop where
  line : r.line = []
  type : r.type = []
  data : r.data = []

instance [DecidableEq α] (r : Reader α) : Decidable r.Between :=
  decidable_of_iff (r.line = [] ∧ r.type = [] ∧ r.data = [])
    ⟨fun ⟨hl, ht, hd⟩ => ⟨hl, ht, hd⟩, fun ⟨hl, ht, hd⟩ => ⟨hl, ht, hd⟩⟩

/-- A text without the end of a line. Any of the three ends a line for the reader, a lone carriage
return among them. -/
def Unbroken (w : List α) : Prop := ∀ c ∈ w, byte c ≠ 10 ∧ byte c ≠ 13

/-! ## What has been read is there in the reader -/

/-- Only these bytes are in the reader. -/
structure Reader.Within (r : Reader α) (bytes : List α) : Prop where
  line : ∀ c ∈ r.line, c ∈ bytes
  type : ∀ c ∈ r.type, c ∈ bytes
  data : ∀ x ∈ r.data, ∀ c ∈ x, c ∈ bytes

variable {byte} {r : Reader α}

theorem mem_valueOf {line : List α} {c : α} (h : c ∈ valueOf byte line) : c ∈ line := by
  have hsub : ∀ d ∈ (line.dropWhile (byte · ≠ 58)).drop 1, d ∈ line := fun d hd =>
    (List.dropWhile_sublist _).subset (List.mem_of_mem_drop hd)
  rw [valueOf] at h
  split at h
  · cases h
  · rename_i d rest heq
    rw [heq] at hsub
    split at h
    · exact hsub c (List.mem_cons_of_mem d h)
    · exact hsub c h

theorem Reader.Within.endLine {bytes : List α} (h : r.Within bytes) :
    (r.endLine byte).Within bytes := by
  have hvalue : ∀ c ∈ valueOf byte r.line, c ∈ bytes := fun c hc => h.line c (mem_valueOf hc)
  rw [Reader.endLine]
  split
  · exact ⟨h.line, by simp [Reader.dispatch], by simp [Reader.dispatch]⟩
  · rw [Reader.field]
    split
    · refine ⟨by simp, h.type, fun x hx => ?_⟩
      rcases List.mem_append.mp hx with hx | hx
      · exact h.data x hx
      · obtain rfl := List.mem_singleton.mp hx
        exact hvalue
    · split
      · exact ⟨by simp, hvalue, h.data⟩
      · exact ⟨by simp, h.type, h.data⟩

theorem Reader.Within.next {bytes : List α} (h : r.Within bytes) {c : α} (hc : c ∈ bytes) :
    (r.next byte c).Within bytes := by
  rw [Reader.next]
  split
  · split
    · exact ⟨h.line, h.type, h.data⟩
    · exact h.endLine
  · split
    · exact ⟨h.endLine.line, h.endLine.type, h.endLine.data⟩
    · refine ⟨fun d hd => ?_, h.type, h.data⟩
      rcases List.mem_append.mp hd with hd | hd
      · exact h.line d hd
      · obtain rfl := List.mem_singleton.mp hd
        exact hc

theorem Reader.Within.foldl {bytes : List α} (h : r.Within bytes) {w : List α}
    (hw : ∀ c ∈ w, c ∈ bytes) : (w.foldl (Reader.next byte) r).Within bytes := by
  induction w generalizing r with
  | nil => exact h
  | cons c w ih =>
    exact ih (h.next (hw c List.mem_cons_self)) fun d hd => hw d (List.mem_cons_of_mem c hd)

theorem within_read (stream : List α) : (read byte stream).Within stream := by
  refine Reader.Within.foldl ⟨nofun, nofun, nofun⟩ fun c hc => ?_
  rw [dropMark] at hc
  split at hc
  · exact List.mem_of_mem_drop hc
  · exact hc

/-! ## What is read next -/

theorem Reader.foldl_unbroken {w : List α} (hne : w ≠ []) (hw : Unbroken byte w) :
    w.foldl (Reader.next byte) r = { r with line := r.line ++ w, afterCR := false } := by
  induction w generalizing r with
  | nil => exact absurd rfl hne
  | cons c w ih =>
    obtain ⟨hlf, hcr⟩ := hw c List.mem_cons_self
    have hnext : r.next byte c = { r with line := r.line ++ [c], afterCR := false } := by
      rw [Reader.next, if_neg hlf, if_neg hcr]
    rw [List.foldl_cons, hnext]
    match w with
    | [] => rfl
    | d :: w =>
      rw [ih (by simp) fun e he => hw e (List.mem_cons_of_mem c he)]
      simp

theorem Reader.next_lf {lf : α} (hlf : byte lf = 10) (h : r.afterCR = false) :
    r.next byte lf = r.endLine byte := by
  rw [Reader.next, if_pos hlf, if_neg (by simp [h])]

/-- A line that is not empty, and the empty line after it. -/
theorem Reader.foldl_lines {w : List α} (hne : w ≠ []) (hw : Unbroken byte w) {lf lf' : α}
    (hlf : byte lf = 10) (hlf' : byte lf' = 10) :
    (w ++ [lf, lf']).foldl (Reader.next byte) r =
      { (r.field byte (r.line ++ w)).dispatch with line := [], afterCR := false } := by
  have hfield : ∀ line, { r with line := r.line ++ w, afterCR := false }.field byte line =
      { (r.field byte line) with line := r.line ++ w, afterCR := false } := by
    intro line
    simp only [Reader.field]
    split
    · rfl
    · split <;> rfl
  rw [List.foldl_append, Reader.foldl_unbroken hne hw, List.foldl_cons, List.foldl_cons,
    List.foldl_nil, Reader.next_lf hlf rfl, Reader.endLine, if_neg (by simp [hne]), hfield,
    Reader.next_lf hlf' rfl, Reader.endLine, if_pos rfl]
  rfl

/-- The empty line ends the event. -/
theorem Reader.between_lines {w : List α} (hne : w ≠ []) (hw : Unbroken byte w) {lf lf' : α}
    (hlf : byte lf = 10) (hlf' : byte lf' = 10) :
    ((w ++ [lf, lf']).foldl (Reader.next byte) r).Between := by
  rw [Reader.foldl_lines hne hw hlf hlf']
  exact ⟨rfl, rfl, rfl⟩

/-- What follows a stream that it does not complete to a byte order mark. -/
theorem read_append {stream more : List α} (hmark : ∀ c ∈ more.head?, byte c ≠ 0xBB ∧ byte c ≠ 0xBF)
    (hne : stream ≠ []) :
    read byte (stream ++ more) = more.foldl (Reader.next byte) (read byte stream) := by
  have hdrop : dropMark byte (stream ++ more) = dropMark byte stream ++ more := by
    match stream, more with
    | [], _ => exact absurd rfl hne
    | a, [] => simp
    | [a], d :: more =>
      obtain ⟨hbb, hbf⟩ := hmark d rfl
      cases more <;> simp [dropMark, hbb]
    | [a, b], d :: more =>
      obtain ⟨hbb, hbf⟩ := hmark d rfl
      simp [dropMark, hbf]
    | a :: b :: c :: stream, d :: more =>
      simp only [dropMark, List.cons_append, List.take_succ_cons, List.take_zero,
        List.drop_succ_cons, List.drop_zero]
      split <;> rfl
  rw [read, hdrop, List.foldl_append, read]

/-! ## A front part of a stream -/

/-- What has been read is not taken back. -/
theorem Reader.events_next (c : α) : r.events <+: (r.next byte c).events := by
  have hend : r.events <+: (r.endLine byte).events := by
    rw [Reader.endLine]
    split
    · rw [Reader.dispatch]
      split
      · exact List.prefix_rfl
      · exact List.prefix_append _ _
    · rw [Reader.field]
      split
      · exact List.prefix_rfl
      · split <;> exact List.prefix_rfl
  rw [Reader.next]
  split
  · split
    · exact List.prefix_rfl
    · exact hend
  · split
    · exact hend
    · exact List.prefix_rfl

theorem Reader.events_foldl (w : List α) : r.events <+: (w.foldl (Reader.next byte) r).events := by
  induction w generalizing r with
  | nil => exact List.prefix_rfl
  | cons c w ih => exact (Reader.events_next c).trans ih

/-- A stream that does not begin like a byte order mark. -/
theorem dropMark_of_head {stream : List α} (h : ∀ c ∈ stream.head?, byte c ≠ 0xEF) :
    dropMark byte stream = stream := by
  rw [dropMark, if_neg]
  cases stream with
  | nil => simp
  | cons c stream =>
    intro heq
    exact h c rfl (List.cons.inj heq).1

theorem events_prefix {front stream : List α} (hfront : front <+: stream)
    (h : ∀ c ∈ stream.head?, byte c ≠ 0xEF) : events byte front <+: events byte stream := by
  obtain ⟨rest, rfl⟩ := hfront
  have hhead : ∀ c ∈ front.head?, byte c ≠ 0xEF := by
    cases front with
    | nil => simp
    | cons c front => exact h
  rw [events, events, read, read, dropMark_of_head hhead, dropMark_of_head h, List.foldl_append]
  exact Reader.events_foldl rest

/-! ## One more event -/

section Data

variable {label value : List α} {colon blank : α}

theorem nameOf_append {l m : List α} (h : ∀ c ∈ l, byte c ≠ 58) :
    nameOf byte (l ++ m) = l ++ nameOf byte m :=
  List.takeWhile_append_of_pos (by simpa using h)

theorem dropWhile_append {l m : List α} (h : ∃ c ∈ l, byte c = 58) :
    (l ++ m).dropWhile (byte · ≠ 58) = l.dropWhile (byte · ≠ 58) ++ m := by
  rw [List.dropWhile_append, if_neg]
  rw [List.isEmpty_iff, List.dropWhile_eq_nil_iff]
  simpa using h

variable (byte) in
/-- Where a colon stands before it, a text is part of the value, but for a first blank. -/
theorem length_valueOf_append {l m : List α} (h : ∃ c ∈ l, byte c = 58) (hm : ∀ c ∈ m.head?,
    byte c ≠ 32) : m.length ≤ (valueOf byte (l ++ m)).length := by
  rw [valueOf, dropWhile_append h]
  cases hl : l.dropWhile (byte · ≠ 58) with
  | nil =>
    obtain ⟨c, hc, hcolon⟩ := h
    have hall : ∀ c ∈ l, byte c ≠ 58 := by simpa using List.dropWhile_eq_nil_iff.mp hl
    exact absurd hcolon (hall c hc)
  | cons d rest =>
    cases rest with
    | nil =>
      cases m with
      | nil => simp
      | cons e m => simp [hm e rfl]
    | cons e rest =>
      simp only [List.cons_append, List.drop_succ_cons, List.drop_zero]
      split
      · simp
      · simp
        omega

theorem nameOf_colon (value : List α) {l : List α} (h : ∀ c ∈ l, byte c ≠ 58) (hcolon : byte colon = 58) :
    nameOf byte (l ++ colon :: value) = l := by
  rw [nameOf_append h]
  simp [nameOf, hcolon]

theorem valueOf_colon (value : List α) {l : List α} (h : ∀ c ∈ l, byte c ≠ 58) (hcolon : byte colon = 58)
    (hblank : byte blank = 32) : valueOf byte (l ++ colon :: blank :: value) = value := by
  have hdrop : (l ++ colon :: blank :: value).dropWhile (byte · ≠ 58) = colon :: blank :: value := by
    rw [List.dropWhile_append_of_pos (by simpa using h)]
    simp [hcolon]
  rw [valueOf, hdrop]
  simp [hblank]

variable (byte r label colon blank) in
/-- **An event of one line of data** is read as such after what has been read exactly when the reader
stands between two events. -/
theorem events_data_iff (hlabel : label.map byte = ascii "data") (hcolon : byte colon = 58)
    (hblank : byte blank = 32) (hvalue : Unbroken byte value) (hnew : value ∉ r.data)
    (lf lf' : α) (hlf : byte lf = 10) (hlf' : byte lf' = 10) :
    ((label ++ colon :: blank :: value ++ [lf, lf']).foldl (Reader.next byte) r).events =
        r.events ++ [⟨[], [value]⟩] ↔ r.Between := by
  have hlen : label.length = 4 := by
    have := congrArg List.length hlabel
    simpa [ascii] using this
  have hbytes : ∀ c ∈ label, byte c ∈ ascii "data" := fun c hc =>
    hlabel ▸ List.mem_map_of_mem hc
  have hunmarked : ∀ c ∈ label, byte c ≠ 58 ∧ byte c ≠ 10 ∧ byte c ≠ 13 ∧ byte c ≠ 32 := by
    intro c hc
    have := hbytes c hc
    simp [ascii] at this
    rcases this with h | h | h | h <;> simp [h]
  have hline : Unbroken byte (label ++ colon :: blank :: value) := by
    intro c hc
    rcases List.mem_append.mp hc with hc | hc
    · exact ⟨(hunmarked c hc).2.1, (hunmarked c hc).2.2.1⟩
    · rcases List.mem_cons.mp hc with rfl | hc
      · simp [hcolon]
      · rcases List.mem_cons.mp hc with rfl | hc
        · simp [hblank]
        · exact hvalue c hc
  rw [Reader.foldl_lines (by simp) hline hlf hlf']
  constructor
  · intro h
    -- the event that is read has the line as its only data
    obtain ⟨hname, htype, hdata, hval⟩ : (nameOf byte (r.line ++ (label ++ colon :: blank ::
        value))).map byte = ascii "data" ∧ r.type = [] ∧ r.data = [] ∧
          valueOf byte (r.line ++ (label ++ colon :: blank :: value)) = value := by
      have hnone : ∀ events : List (Event α), events ≠ events ++ [⟨[], [value]⟩] := by simp
      have hlast : ∀ {t : List α} {d : List (List α)},
          (if d = [] then r.events else r.events ++ [⟨t, d⟩]) = r.events ++ [⟨[], [value]⟩] →
            t = [] ∧ d = [value] := by
        intro t d hd
        split at hd
        · exact absurd hd (hnone _)
        · simpa using hd
      simp only [Reader.field] at h
      split at h
      · rename_i hname
        obtain ⟨ht, hd⟩ := hlast h
        obtain ⟨hd, hv⟩ : r.data = [] ∧ valueOf byte _ = value := by
          have hd : r.data ++ [valueOf byte _] = [] ++ [value] := hd
          simpa using List.append_inj' hd rfl
        exact ⟨hname, ht, hd, hv⟩
      · -- the data would have been read before
        have hbefore : r.data = [value] := by
          split at h
          · exact (hlast h).2
          · exact (hlast h).2
        rw [hbefore] at hnew
        exact absurd (List.mem_singleton_self value) hnew
    refine ⟨?_, htype, hdata⟩
    by_cases hmark : ∃ c ∈ r.line, byte c = 58
    · -- the value goes on to the end of the line, and is longer
      have hlong := length_valueOf_append byte (m := label ++ colon :: blank :: value)
        hmark fun c hc => ?_
      · rw [hval] at hlong
        simp at hlong
        omega
      · cases label with
        | nil => simp at hlen
        | cons d label =>
          obtain rfl := Option.some.inj hc
          exact (hunmarked _ List.mem_cons_self).2.2.2
    · -- the name begins with what has been read
      have hmark : ∀ c ∈ r.line, byte c ≠ 58 := by simpa using hmark
      rw [nameOf_append hmark, nameOf_colon _ (fun c hc => (hunmarked c hc).1) hcolon] at hname
      have hshort := congrArg List.length hname
      simp [ascii, hlen] at hshort
      exact hshort
  · rintro ⟨hl, ht, hd⟩
    have hname := nameOf_colon (blank :: value) (fun c hc => (hunmarked c hc).1)
      hcolon
    have hval := valueOf_colon value (fun c hc => (hunmarked c hc).1) hcolon hblank
    simp [hl, Reader.field, hname, hval, hlabel, Reader.dispatch, ht, hd]

end Data

end SocketHandoff.Sse
