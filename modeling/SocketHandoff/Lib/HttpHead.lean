import Mathlib.Tactic.Basic

/-!
# The head of an HTTP response

Reading the head of a response: lines up to an empty one, the first being the status line, the
others a name, a colon and a value. A line ends at a line feed; the carriage return before it
belongs to the end. `Head.Clean` is what makes a head read back as it was written.
-/

namespace SocketHandoff.Http

/-- A field of a head. -/
structure Field where
  name : List UInt8
  value : List UInt8
  deriving DecidableEq, Repr

/-- A status line and the fields. -/
structure Head where
  status : List UInt8
  fields : List Field
  deriving DecidableEq, Repr

/-- The end of a line. -/
def crlf : List UInt8 := [13, 10]

/-! ## Writing -/

/-- The line of a field. -/
def Field.line (f : Field) : List UInt8 := f.name ++ [58, 32] ++ f.value

/-- The bytes of a head. -/
def Head.bytes (head : Head) : List UInt8 :=
  head.status ++ crlf ++ head.fields.flatMap (fun f => f.line ++ crlf) ++ crlf

/-! ## Reading -/

/-- A line without the carriage return at its end. -/
def chompLine (line : List UInt8) : List UInt8 :=
  if line.getLast? = some 13 then line.dropLast else line

/-- The lines up to an empty one, `line` being what has been read of the first, and the bytes behind
them; `none` if there is no empty line. -/
def readLines : (line bytes : List UInt8) → Option (List (List UInt8) × List UInt8)
  | _, [] => none
  | line, c :: rest =>
    if c = 10 then
      if chompLine line = [] then some ([], rest)
      else (readLines [] rest).map fun p => (chompLine line :: p.1, p.2)
    else readLines (line ++ [c]) rest

/-- A field, the name being what is before the first colon. A blank behind it is not part of the
value. -/
def readField (line : List UInt8) : Option Field :=
  match line.dropWhile (· ≠ 58) with
  | 58 :: 32 :: value => some ⟨line.takeWhile (· ≠ 58), value⟩
  | 58 :: value => some ⟨line.takeWhile (· ≠ 58), value⟩
  | _ => none

/-- The head at the start of some bytes, and the bytes behind it. -/
def readHead (bytes : List UInt8) : Option (Head × List UInt8) :=
  match readLines [] bytes with
  | some (status :: lines, rest) => (lines.mapM readField).map fun fields => (⟨status, fields⟩, rest)
  | _ => none

/-! ## Reading back -/

/-- A text that does not end a line. -/
def OneLine (text : List UInt8) : Prop := ∀ c ∈ text, c ≠ 13 ∧ c ≠ 10

instance (text : List UInt8) : Decidable (OneLine text) := List.decidableBAll _ text

/-- A field that is one line with one name. -/
structure Field.Clean (f : Field) : Prop where
  name : OneLine f.name
  value : OneLine f.value
  colon : (58 : UInt8) ∉ f.name

/-- A status line that is one, and clean fields. -/
structure Head.Clean (head : Head) : Prop where
  status : OneLine head.status
  status_ne : head.status ≠ []
  fields : ∀ f ∈ head.fields, f.Clean

theorem OneLine.append {text more : List UInt8} (h : OneLine text) (h' : OneLine more) :
    OneLine (text ++ more) := by
  intro c hc
  rcases List.mem_append.mp hc with hc | hc
  · exact h c hc
  · exact h' c hc

theorem Field.Clean.line {f : Field} (h : f.Clean) : OneLine f.line :=
  (h.name.append (by decide)).append h.value

theorem Field.line_ne_nil (f : Field) : f.line ≠ [] := by
  intro h
  have hlen := congrArg List.length h
  simp [Field.line] at hlen

theorem chompLine_cr (line : List UInt8) : chompLine (line ++ [13]) = line := by
  rw [chompLine, List.getLast?_concat, if_pos rfl, List.dropLast_concat]

/-- A line is read up to its end. -/
theorem readLines_line {line : List UInt8} (h : OneLine line) (hne : line ≠ []) (rest : List UInt8) :
    readLines [] (line ++ crlf ++ rest) = (readLines [] rest).map fun p => (line :: p.1, p.2) := by
  suffices ∀ seen : List UInt8, seen ++ line ≠ [] → readLines seen (line ++ crlf ++ rest) =
      (readLines [] rest).map fun p => ((seen ++ line) :: p.1, p.2) by
    simpa using this [] (by simpa using hne)
  clear hne
  induction line with
  | nil =>
    intro seen hne
    rw [List.append_nil] at hne
    have hread : readLines seen (crlf ++ rest) = readLines (seen ++ [13]) (10 :: rest) := rfl
    rw [List.nil_append, List.append_nil, hread, readLines, if_pos rfl, chompLine_cr, if_neg hne]
  | cons c line ih =>
    intro seen _
    obtain ⟨-, hc⟩ := h c List.mem_cons_self
    have hline : OneLine line := fun d hd => h d (List.mem_cons_of_mem c hd)
    rw [List.cons_append, List.cons_append, readLines, if_neg hc, ih hline, List.append_assoc,
      List.singleton_append]
    simp

/-- An empty line is the end. -/
theorem readLines_end (rest : List UInt8) : readLines [] (crlf ++ rest) = some ([], rest) := rfl

theorem readLines_fields {fields : List Field} (h : ∀ f ∈ fields, f.Clean) (rest : List UInt8) :
    readLines [] (fields.flatMap (fun f => f.line ++ crlf) ++ crlf ++ rest) =
      some (fields.map Field.line, rest) := by
  induction fields with
  | nil => exact readLines_end rest
  | cons f fields ih =>
    have hf := h f List.mem_cons_self
    have hrest := ih fun g hg => h g (List.mem_cons_of_mem f hg)
    rw [List.flatMap_cons, List.append_assoc, List.append_assoc, readLines_line hf.line f.line_ne_nil,
      ← List.append_assoc, hrest]
    rfl

theorem Field.Clean.name_ne {f : Field} (h : f.Clean) : ∀ c ∈ f.name, decide (c ≠ 58) = true := by
  intro c hc
  refine decide_eq_true fun heq => h.colon ?_
  rwa [heq] at hc

theorem takeWhile_line {f : Field} (h : f.Clean) : f.line.takeWhile (· ≠ 58) = f.name := by
  rw [Field.line, List.append_assoc, List.takeWhile_append_of_pos h.name_ne]
  simp

/-- A text without a colon is at the start of the line only if it is at the start of the name. -/
theorem prefix_name {f : Field} (h : f.Clean) {text : List UInt8} (hc : (58 : UInt8) ∉ text)
    (hp : text <+: f.line) : text <+: f.name := by
  obtain ⟨rest, hrest⟩ := hp
  have htext : ∀ c ∈ text, decide (c ≠ 58) = true := by
    intro c hmem
    refine decide_eq_true fun heq => hc ?_
    rwa [heq] at hmem
  rw [← takeWhile_line h, ← hrest, List.takeWhile_append_of_pos htext]
  exact List.prefix_append _ _

theorem readField_line {f : Field} (h : f.Clean) : readField f.line = some f := by
  have hdrop : f.line.dropWhile (· ≠ 58) = 58 :: 32 :: f.value := by
    rw [Field.line, List.append_assoc, List.dropWhile_append_of_pos h.name_ne]
    simp
  rw [readField, hdrop, takeWhile_line h]
  rfl

/-- **A clean head is read back**, with all that follows it left alone. Clean means that there is no
line break in it and no colon in the name of a field, which is what makes the cuts the reader's own.
-/
theorem readHead_bytes {head : Head} (h : head.Clean) (rest : List UInt8) :
    readHead (head.bytes ++ rest) = some (head, rest) := by
  have hlines : readLines [] (head.bytes ++ rest) =
      some (head.status :: head.fields.map Field.line, rest) := by
    rw [Head.bytes, List.append_assoc, List.append_assoc, readLines_line h.status h.status_ne,
      ← List.append_assoc, readLines_fields h.fields]
    rfl
  have hfields : (head.fields.map Field.line).mapM readField = some head.fields := by
    have hall := h.fields
    revert hall
    induction head.fields with
    | nil => exact fun _ => rfl
    | cons f fields ih =>
      intro hall
      rw [List.map_cons, List.mapM_cons, readField_line (hall f List.mem_cons_self),
        ih fun g hg => hall g (List.mem_cons_of_mem f hg)]
      rfl
  rw [readHead, hlines]
  simp only [hfields, Option.map_some]

end SocketHandoff.Http
