import SocketHandoff.Go.Content

/-!
# Placeholders

`parsePlaceholders` pairs an opening brace with the next closing one, and goes on behind it. Nothing
of the text is lost in this. A placeholder of a known name is resolved where the pairing meets it, but
not where an opening brace before it is still open.
-/

namespace SocketHandoff.Go

/-! ## Segments -/

/-- What the scan makes of a piece of the text. -/
inductive Segment
  | literal (text : List UInt8)
  | resolved (name : List UInt8)
  deriving DecidableEq, Repr

/-- `{name}`. -/
def placeholder (name : List UInt8) : List UInt8 := 123 :: (name ++ [125])

/-- The piece of the text. -/
def Segment.written : Segment → List UInt8
  | .literal text => text
  | .resolved name => placeholder name

/-- The part for a piece. -/
def Segment.part (attachments : Attachments) : Segment → ContentPart
  | .literal text => ⟨text, none, []⟩
  | .resolved name =>
    match attachments.get? name with
    | none => ⟨placeholder name, none, []⟩
    | some att => if att.isText then ⟨att.text, none, name⟩ else ⟨[], some att, name⟩

/-- The loop of `parsePlaceholders` with what it resolves. It is the same loop as the code's, except
that a name which is found is kept as a name and not replaced: so the text can be put together again
from the pieces, which the parts do not allow. -/
def segmentsFrom (attachments : Attachments) (text : List UInt8) : List Segment :=
  if text = [] then []
  else
    match text.findIdx? (· = 123) with
    | none => [.literal text]
    | some opening =>
      match (text.drop (opening + 1)).findIdx? (· = 125) with
      | none => [.literal text]
      | some length =>
        let refName := (text.drop (opening + 1)).take length
        let closing := opening + 1 + length
        let rest := segmentsFrom attachments (text.drop (closing + 1))
        match attachments.get? refName with
        | none => .literal (text.take (closing + 1)) :: rest
        | some _ =>
          (if 0 < opening then [.literal (text.take opening)] else []) ++ .resolved refName :: rest
termination_by text.length
decreasing_by
  have hpos := List.length_pos_iff.mpr ‹text ≠ []›
  rw [List.length_drop]
  omega

/-- `parsePlaceholders` with what it resolves. -/
def segments (text : List UInt8) (attachments : Attachments) : List Segment :=
  if attachments.entries = [] then [.literal text]
  else if segmentsFrom attachments text = [] then [.literal []]
  else segmentsFrom attachments text

/-! ## The statement -/

/-- The name is in the map. -/
def Attachments.Known (attachments : Attachments) (name : List UInt8) : Prop :=
  (attachments.get? name).isSome

/-- **Complete and lossless.** Every placeholder of a known name is resolved where it stands, no
literal has one left in it, and the segments make up the text again: without the first a scan that
resolves nothing would do, without the last one that drops the literals. -/
structure Substituted (text : List UInt8) (attachments : Attachments) : Prop where
  /-- the parts are those of the segments -/
  parts : parsePlaceholders text attachments =
    (segments text attachments).map (Segment.part attachments)
  /-- written back, they are the text -/
  lossless : (segments text attachments).flatMap Segment.written = text
  /-- every occurrence of a known placeholder is resolved where it is -/
  complete : ∀ name before after, attachments.Known name →
    text = before ++ (placeholder name ++ after) →
      ∃ front back, segments text attachments = front ++ .resolved name :: back ∧
        front.flatMap Segment.written = before
  /-- no literal has one in it -/
  literal : ∀ lit name, .literal lit ∈ segments text attachments → attachments.Known name →
    ¬ placeholder name <:+: lit

/-- What follows the last closing brace of a text. -/
def behindBrace (text : List UInt8) : List UInt8 := (text.reverse.takeWhile (· ≠ 125)).reverse

/-- No brace is open where a known placeholder begins. -/
def Unnested (text : List UInt8) (attachments : Attachments) : Prop :=
  ∀ name before after, attachments.Known name → text = before ++ (placeholder name ++ after) →
    123 ∉ behindBrace before

/-! ## The scan -/

variable {attachments : Attachments} {text name before after : List UInt8} {segs : List Segment}

/-- The piece before a placeholder, if there is one. -/
def leading (lit : List UInt8) : List Segment := if lit = [] then [] else [.literal lit]

theorem written_leading (lit : List UInt8) : (leading lit).flatMap Segment.written = lit := by
  rw [leading]
  split
  · simp_all
  · simp [Segment.written]

theorem resolved_notMem_leading (lit : List UInt8) : .resolved name ∉ leading lit := by
  rw [leading]
  split <;> simp

/-- The pieces of a text, as the scan cuts it. -/
inductive Scanned (attachments : Attachments) : List UInt8 → List Segment → Prop
  | nil : Scanned attachments [] []
  /-- no opening brace has a closing one behind it -/
  | rest {text : List UInt8} : text ≠ [] → (∀ a b, text = a ++ 123 :: b → 125 ∉ b) →
      Scanned attachments text [.literal text]
  | unknown {front name text : List UInt8} {segs : List Segment} :
      123 ∉ front → 125 ∉ name → attachments.get? name = none → Scanned attachments text segs →
      Scanned attachments (front ++ (placeholder name ++ text))
        (.literal (front ++ placeholder name) :: segs)
  | resolved {front name text : List UInt8} {segs : List Segment} :
      123 ∉ front → 125 ∉ name → attachments.Known name → Scanned attachments text segs →
      Scanned attachments (front ++ (placeholder name ++ text))
        (leading front ++ .resolved name :: segs)

/-- The first `c` of a text, with what is before and behind it. -/
theorem split_findIdx {c : UInt8} {k : Nat} (h : text.findIdx? (· = c) = some k) :
    text = text.take k ++ c :: text.drop (k + 1) ∧ c ∉ text.take k ∧ k < text.length := by
  obtain ⟨hk, hc, hfirst⟩ := List.findIdx?_eq_some_iff_getElem.mp h
  refine ⟨?_, ?_, hk⟩
  · have hget : text[k] = c := of_decide_eq_true hc
    rw [← hget, ← List.drop_eq_getElem_cons hk, List.take_append_drop]
  · intro hmem
    obtain ⟨j, hj, heq⟩ := List.mem_take_iff_getElem.mp hmem
    have hlt : j < k := by omega
    exact hfirst j hlt (decide_eq_true heq)

/-- Where `c` is in a text, seen from its first place. -/
theorem split_first {c : UInt8} {front tail : List UInt8} (hc : c ∉ front)
    (h : front ++ c :: tail = before ++ c :: after) :
    (before = front ∧ after = tail) ∨ ∃ e, before = front ++ c :: e ∧ tail = e ++ c :: after := by
  obtain ⟨e, rfl, he⟩ | ⟨e, rfl, he⟩ := List.append_eq_append_iff.mp h
  · cases e with
    | nil => exact .inl ⟨by simp, (List.cons.inj he).2.symm⟩
    | cons d e =>
      obtain ⟨rfl, rfl⟩ := List.cons.inj he
      exact .inr ⟨e, rfl, rfl⟩
  · cases e with
    | nil => exact .inl ⟨by simp, (List.cons.inj he).2⟩
    | cons d e =>
      obtain ⟨rfl, -⟩ := List.cons.inj he
      exact absurd (List.mem_append_right _ List.mem_cons_self) hc

/-- The braces that the scan pairs, in the text. -/
theorem split_braces {opening length : Nat} (hopen : text.findIdx? (· = 123) = some opening)
    (hclose : (text.drop (opening + 1)).findIdx? (· = 125) = some length) :
    text.take (opening + 1 + length + 1) =
        text.take opening ++ placeholder ((text.drop (opening + 1)).take length) ∧
      text = text.take opening ++ (placeholder ((text.drop (opening + 1)).take length) ++
        text.drop (opening + 1 + length + 1)) := by
  obtain ⟨htext, -, hlt⟩ := split_findIdx hopen
  obtain ⟨hrest, -, hlt'⟩ := split_findIdx hclose
  rw [List.drop_drop, ← Nat.add_assoc] at hrest
  have hcut : text = text.take opening ++ (placeholder ((text.drop (opening + 1)).take length) ++
      text.drop (opening + 1 + length + 1)) := by
    have hbehind : placeholder ((text.drop (opening + 1)).take length) ++
        text.drop (opening + 1 + length + 1) = 123 :: text.drop (opening + 1) := by
      rw [placeholder, List.cons_append, List.append_assoc, List.singleton_append, ← hrest]
    rw [hbehind]
    exact htext
  refine ⟨?_, hcut⟩
  rw [List.length_drop] at hlt'
  conv => lhs; rw [hcut, ← List.append_assoc]
  refine List.take_left' ?_
  simp only [placeholder, List.length_append, List.length_cons, List.length_take, List.length_drop,
    List.length_nil]
  omega

theorem scanned_segmentsFrom (attachments : Attachments) (text : List UInt8) :
    Scanned attachments text (segmentsFrom attachments text) := by
  fun_induction segmentsFrom attachments text with
  | case1 => exact .nil
  | case2 text hne hopen =>
    refine .rest hne ?_
    rintro a b rfl
    simp at hopen
  | case3 text hne opening hopen hclose =>
    obtain ⟨htext, hfirst, -⟩ := split_findIdx hopen
    have hnone : 125 ∉ text.drop (opening + 1) := fun hin => by
      simpa using List.findIdx?_eq_none_iff.mp hclose 125 hin
    refine .rest hne ?_
    intro a b heq hmem
    -- what is behind an opening brace is behind the first one
    obtain ⟨-, rfl⟩ | ⟨e, -, he⟩ := split_first hfirst (htext.symm.trans heq)
    · exact hnone hmem
    · exact hnone (by simp [he, hmem])
  | case4 text hne opening hopen length hclose refName closing rest hget ih =>
    obtain ⟨htake, htext⟩ := split_braces hopen hclose
    have hscan := Scanned.unknown (split_findIdx hopen).2.1 (split_findIdx hclose).2.1 hget ih
    rw [← htake, ← htext] at hscan
    exact hscan
  | case5 text hne opening hopen length hclose refName closing rest att hget ih =>
    obtain ⟨-, htext⟩ := split_braces hopen hclose
    have hknown : attachments.Known refName := by simp [Attachments.Known, hget]
    have hscan := Scanned.resolved (split_findIdx hopen).2.1 (split_findIdx hclose).2.1 hknown ih
    rw [← htext] at hscan
    have hfront : text.take opening = [] ↔ ¬ 0 < opening := by simp [hne]
    rw [leading, if_congr hfront rfl rfl, ite_not] at hscan
    exact hscan

/-- Written back, the pieces are the text. -/
theorem Scanned.lossless (h : Scanned attachments text segs) :
    segs.flatMap Segment.written = text := by
  induction h with
  | nil => rfl
  | rest => simp [Segment.written]
  | unknown _ _ _ _ ih => simp [Segment.written, ih]
  | resolved _ _ _ _ ih => simp [written_leading, Segment.written, ih]

/-! ## Open braces -/

theorem takeWhile_stop (c : UInt8) (front tail : List UInt8) :
    (front ++ c :: tail).takeWhile (· ≠ c) = front.takeWhile (· ≠ c) := by
  induction front with
  | nil => simp
  | cons d front ih => rw [List.cons_append, List.takeWhile_cons, List.takeWhile_cons, ih]

/-- Up to a closing brace all braces are closed. -/
theorem behindBrace_append (front tail : List UInt8) :
    behindBrace (front ++ 125 :: tail) = behindBrace tail := by
  rw [behindBrace, behindBrace, List.reverse_append, List.reverse_cons, List.append_assoc,
    List.singleton_append, takeWhile_stop]

@[simp] theorem behindBrace_placeholder (front name tail : List UInt8) :
    behindBrace (front ++ (placeholder name ++ tail)) = behindBrace tail := by
  rw [placeholder, List.cons_append, List.append_assoc, List.singleton_append, ← List.cons_append,
    ← List.append_assoc, behindBrace_append]

theorem behindBrace_subset (front : List UInt8) : behindBrace front ⊆ front := by
  intro c hc
  rw [behindBrace, List.mem_reverse] at hc
  exact List.mem_reverse.mp (List.takeWhile_sublist _ |>.mem hc)

/-- An opening brace with no closing one behind it is open. -/
theorem mem_behindBrace {front tail : List UInt8} (h : 125 ∉ tail) :
    123 ∈ behindBrace (front ++ 123 :: tail) := by
  have htail : ∀ c ∈ (123 :: tail).reverse, decide (c ≠ (125 : UInt8)) = true := by
    intro c hc
    rw [List.mem_reverse, List.mem_cons] at hc
    rcases hc with rfl | hc
    · rfl
    · exact decide_eq_true fun heq => h (heq ▸ hc)
  rw [behindBrace, List.mem_reverse, List.reverse_append, List.takeWhile_append_of_pos htail]
  simp

/-- A piece is resolved where no brace is open. -/
theorem Scanned.unnested {front back : List Segment} (h : Scanned attachments text segs)
    (hsegs : segs = front ++ .resolved name :: back) :
    123 ∉ behindBrace (front.flatMap Segment.written) := by
  induction h generalizing front with
  | nil => simp at hsegs
  | rest => cases front <;> simp at hsegs
  | unknown _ _ _ _ ih =>
    cases front with
    | nil => simp at hsegs
    | cons seg rest =>
      obtain ⟨rfl, hrest⟩ := List.cons.inj hsegs
      rw [List.flatMap_cons, Segment.written, List.append_assoc, behindBrace_placeholder]
      exact ih hrest
  | @resolved lit refName _ _ hlit _ _ _ ih =>
    have hhere : 123 ∉ behindBrace ((leading lit).flatMap Segment.written) := fun hin =>
      hlit (behindBrace_subset lit (written_leading lit ▸ hin))
    -- the piece is this one or in the rest
    obtain ⟨rest, rfl, heq⟩ | ⟨rest, hlead, heq⟩ := List.append_eq_append_iff.mp hsegs
    · cases rest with
      | nil => simpa using hhere
      | cons seg rest =>
        obtain ⟨rfl, hrest⟩ := List.cons.inj heq
        rw [List.flatMap_append, written_leading, List.flatMap_cons, Segment.written,
          behindBrace_placeholder]
        exact ih hrest
    · cases rest with
      | nil => rwa [hlead, List.append_nil] at hhere
      | cons seg rest =>
        obtain ⟨rfl, -⟩ := List.cons.inj heq
        have hmem := hlead ▸ List.mem_append_right front (List.mem_cons_self (l := rest))
        exact absurd hmem (resolved_notMem_leading lit)

/-- Two placeholders in one text: they are the same, or the second is behind the first, or a brace
is open where it begins. -/
theorem two_placeholders {lit refName tail : List UInt8} (hlit : 123 ∉ lit) (href : 125 ∉ refName)
    (hname : 125 ∉ name)
    (h : lit ++ (placeholder refName ++ tail) = before ++ (placeholder name ++ after)) :
    (before = lit ∧ name = refName) ∨ 123 ∈ behindBrace before ∨
      ∃ e, before = lit ++ (placeholder refName ++ e) ∧ tail = e ++ (placeholder name ++ after) := by
  simp only [placeholder, List.cons_append, List.append_assoc] at h ⊢
  obtain ⟨rfl, heq⟩ | ⟨e, rfl, heq⟩ := split_first hlit h
  · obtain ⟨rfl, -⟩ | ⟨e, rfl, -⟩ := split_first href heq.symm
    · exact .inl ⟨rfl, rfl⟩
    · simp at hname
  · by_cases hclosed : 125 ∈ e
    · obtain ⟨a, rfl, ha⟩ | ⟨a, rfl, -⟩ := List.append_eq_append_iff.mp heq
      · cases a with
        | nil => simp at ha
        | cons c a =>
          obtain ⟨rfl, rfl⟩ := List.cons.inj ha
          exact .inr (.inr ⟨a, rfl, rfl⟩)
      · exact absurd (List.mem_append_left _ hclosed) href
    · exact .inr (.inl (mem_behindBrace hclosed))

/-- Where no brace is open, a placeholder is resolved. -/
theorem Scanned.complete (h : Scanned attachments text segs) (hknown : attachments.Known name)
    (hname : 125 ∉ name) (htext : text = before ++ (placeholder name ++ after))
    (hopen : 123 ∉ behindBrace before) :
    ∃ front back, segs = front ++ .resolved name :: back ∧
      front.flatMap Segment.written = before := by
  induction h generalizing before with
  | nil => simp [placeholder] at htext
  | rest hne hnone =>
    have hclosed : 125 ∉ name ++ [125] ++ after := hnone before _ (by simpa [placeholder] using htext)
    simp at hclosed
  | @unknown lit refName tail segs hlit href hget _ ih =>
    obtain ⟨-, rfl⟩ | hin | ⟨e, rfl, htail⟩ := two_placeholders hlit href hname htext
    · simp [Attachments.Known, hget] at hknown
    · exact absurd hin hopen
    · rw [behindBrace_placeholder] at hopen
      obtain ⟨front, back, rfl, rfl⟩ := ih htail hopen
      exact ⟨.literal (lit ++ placeholder refName) :: front, back, rfl, by simp [Segment.written]⟩
  | @resolved lit refName tail segs hlit href _ _ ih =>
    obtain ⟨rfl, rfl⟩ | hin | ⟨e, rfl, htail⟩ := two_placeholders hlit href hname htext
    · exact ⟨leading before, segs, rfl, written_leading before⟩
    · exact absurd hin hopen
    · rw [behindBrace_placeholder] at hopen
      obtain ⟨front, back, rfl, rfl⟩ := ih htail hopen
      refine ⟨leading lit ++ .resolved refName :: front, back, ?_, ?_⟩
      · rw [List.append_assoc, List.cons_append]
      · rw [List.flatMap_append, written_leading, List.flatMap_cons, Segment.written]

/-! ## Parts -/

theorem parsePlaceholdersFrom_eq (attachments : Attachments) (text : List UInt8) :
    parsePlaceholdersFrom attachments text =
      (segmentsFrom attachments text).map (Segment.part attachments) := by
  fun_induction segmentsFrom attachments text with
  | case1 => simp [parsePlaceholdersFrom]
  | case2 text hne hopen => simp [parsePlaceholdersFrom, hne, hopen, Segment.part]
  | case3 text hne opening hopen hclose =>
    simp [parsePlaceholdersFrom, hne, hopen, hclose, Segment.part]
  | case4 text hne opening hopen length hclose refName closing rest hget ih =>
    have hname : attachments.get? ((text.drop (opening + 1)).take length) = none := hget
    rw [parsePlaceholdersFrom]
    simp only [if_neg hne, hopen, hclose, hname, List.map_cons]
    rw [ih, Segment.part]
  | case5 text hne opening hopen length hclose refName closing rest att hget ih =>
    have hname : attachments.get? ((text.drop (opening + 1)).take length) = some att := hget
    rw [parsePlaceholdersFrom]
    simp only [if_neg hne, hopen, hclose, hname, List.map_append, List.map_cons]
    rw [ih, apply_ite (List.map (Segment.part attachments))]
    simp only [Segment.part, hname, refName, rest, List.map_cons, List.map_nil]

theorem parsePlaceholders_eq (text : List UInt8) (attachments : Attachments) :
    parsePlaceholders text attachments =
      (segments text attachments).map (Segment.part attachments) := by
  simp only [parsePlaceholders, segments, parsePlaceholdersFrom_eq, List.map_eq_nil_iff]
  split
  · rfl
  · split <;> rfl

theorem segmentsFrom_ne_nil (h : text ≠ []) : segmentsFrom attachments text ≠ [] := by
  intro hnil
  have hlossless := (scanned_segmentsFrom attachments text).lossless
  rw [hnil] at hlossless
  exact h hlossless.symm

theorem segments_eq (h : attachments.entries ≠ []) (htext : text ≠ []) :
    segments text attachments = segmentsFrom attachments text := by
  rw [segments, if_neg h, if_neg (segmentsFrom_ne_nil htext)]

theorem segments_lossless (text : List UInt8) (attachments : Attachments) :
    (segments text attachments).flatMap Segment.written = text := by
  rw [segments]
  split
  · simp [Segment.written]
  · split
    · rename_i hnil
      by_contra hne
      exact segmentsFrom_ne_nil (fun h => hne (by simp [h, Segment.written])) hnil
    · exact (scanned_segmentsFrom attachments text).lossless

/-- Where a name is known and a placeholder of it is in the text, the text is scanned. -/
theorem segments_scanned (hknown : attachments.Known name)
    (htext : text = before ++ (placeholder name ++ after)) :
    Scanned attachments text (segments text attachments) := by
  have hentries : attachments.entries ≠ [] := by
    intro hnil
    simp [Attachments.Known, Attachments.get?, hnil] at hknown
  have hne : text ≠ [] := by simp [htext, placeholder]
  rw [segments_eq hentries hne]
  exact scanned_segmentsFrom attachments text

/-- **No literal has a placeholder** of a known name in it if each of them is resolved. -/
theorem literal_of_complete
    (h : ∀ name before after, attachments.Known name →
      text = before ++ (placeholder name ++ after) →
        ∃ front back, segments text attachments = front ++ .resolved name :: back ∧
          front.flatMap Segment.written = before)
    {lit : List UInt8} (hlit : .literal lit ∈ segments text attachments)
    (hknown : attachments.Known name) : ¬ placeholder name <:+: lit := by
  rintro ⟨a, b, rfl⟩
  obtain ⟨front, back, hsegs⟩ := List.append_of_mem hlit
  have htext : text = (front.flatMap Segment.written ++ a) ++ (placeholder name ++
      (b ++ back.flatMap Segment.written)) := by
    rw [← segments_lossless text attachments, hsegs]
    simp [Segment.written]
  obtain ⟨front', back', hsegs', hbefore⟩ := h name _ _ hknown htext
  have hlen := congrArg List.length hbefore
  -- the placeholder would be resolved before its literal, or behind it
  obtain ⟨rest, rfl, heq⟩ | ⟨rest, rfl, heq⟩ := List.append_eq_append_iff.mp (hsegs.symm.trans hsegs')
  · cases rest with
    | nil => simp at heq
    | cons seg rest =>
      obtain ⟨rfl, -⟩ := List.cons.inj heq
      simp only [List.flatMap_append, List.flatMap_cons, Segment.written, placeholder,
        List.length_append, List.length_cons] at hlen
      omega
  · cases rest with
    | nil => simp at heq
    | cons seg rest =>
      obtain ⟨rfl, -⟩ := List.cons.inj heq
      simp only [List.flatMap_append, List.flatMap_cons, Segment.written, placeholder,
        List.length_append, List.length_cons] at hlen
      omega

/-- **Placeholder substitution** is complete and lossless exactly when no brace is open where a
placeholder of a known name begins. The scan goes on behind the first closing brace it finds, so
that an open brace swallows what follows it. The names have no closing brace in them. -/
theorem substituted_iff (hnames : ∀ name, attachments.Known name → 125 ∉ name) :
    Substituted text attachments ↔ Unnested text attachments := by
  constructor
  · intro h name before after hknown htext
    obtain ⟨front, back, hsegs, rfl⟩ := h.complete name before after hknown htext
    exact (segments_scanned hknown htext).unnested hsegs
  · intro h
    have hcomplete : ∀ name before after, attachments.Known name →
        text = before ++ (placeholder name ++ after) →
          ∃ front back, segments text attachments = front ++ .resolved name :: back ∧
            front.flatMap Segment.written = before := by
      intro name before after hknown htext
      exact (segments_scanned hknown htext).complete hknown (hnames name hknown) htext
        (h name before after hknown htext)
    exact
      { parts := parsePlaceholders_eq text attachments
        lossless := segments_lossless text attachments
        complete := hcomplete
        literal := fun lit name hlit hknown => literal_of_complete hcomplete hlit hknown }

/-- One text file with the name `notes`. -/
def notes : Attachments where
  entries := [([110, 111, 116, 101, 115], ⟨ascii "text/plain", true, [], ascii "file content"⟩)]
  nodup := List.nodup_singleton _

theorem notes_known : notes.Known name ↔ name = ascii "notes" := by
  have hnotes : ascii "notes" = [110, 111, 116, 101, 115] := by decide +kernel
  rw [hnotes]
  by_cases h : name = [110, 111, 116, 101, 115]
  · simp [Attachments.Known, Attachments.get?, notes, h]
  · simp [Attachments.Known, Attachments.get?, notes, h]

theorem notes_plain (name : List UInt8) (h : notes.Known name) : 123 ∉ name ∧ 125 ∉ name := by
  rw [notes_known.mp h]
  decide +kernel

/-- A text with a single opening brace. -/
theorem unnested_of_count (h : text.count 123 = 1) : Unnested text attachments := by
  rintro name before after - rfl hmem
  have hbefore : 123 ∈ before := by
    rw [behindBrace, List.mem_reverse] at hmem
    exact List.mem_reverse.mp ((List.takeWhile_prefix _).subset hmem)
  have hpos := List.count_pos_iff.mpr hbefore
  simp only [List.count_append, placeholder, List.count_cons_self] at h
  omega

/-- The placeholder of the one file is replaced, and the text before it is kept. -/
theorem substituted_iff_notes : Substituted (ascii "Read \x7bnotes\x7d") notes := by
  have hnames : ∀ name, notes.Known name → 125 ∉ name := fun name h => (notes_plain name h).2
  have hcount : (ascii "Read \x7bnotes\x7d").count 123 = 1 := by decide +kernel
  exact (substituted_iff hnames).mpr (unnested_of_count hcount)

/-- **A brace before it hides a placeholder**: `{x{notes}` is left as it is. -/
theorem not_substituted_nested :
    (∀ name, notes.Known name → 123 ∉ name ∧ 125 ∉ name) ∧
      ¬ Substituted (ascii "\x7bx\x7bnotes\x7d") notes := by
  refine ⟨notes_plain, fun h => ?_⟩
  have hknown : notes.Known (ascii "notes") := notes_known.mpr rfl
  have htext : ascii "\x7bx\x7bnotes\x7d" =
      ascii "\x7bx" ++ (placeholder (ascii "notes") ++ []) := by decide +kernel
  obtain ⟨front, back, hsegs, hfront⟩ := h.complete _ _ _ hknown htext
  have hopen := (segments_scanned hknown htext).unnested hsegs
  rw [hfront] at hopen
  exact hopen (by decide +kernel)

end SocketHandoff.Go
