import SocketHandoff.Apache.PathCheck
import SocketHandoff.Lib.PathWalk

/-!
# The text of a path

A path is cut at its slashes. Empty words and `.` do not move, `..` goes up, every other word is
a name. `render` writes a list of names as a canonical path, and a path that starts with a
directory's text and a slash has that directory's components first.
-/

namespace SocketHandoff.Apache

/-- The bytes of a file name. -/
abbrev Name := List UInt8

/-- The bytes of `.`. -/
def dot : Name := [46]

/-- The bytes of `..`. -/
def dotDot : Name := [46, 46]

/-- The words between the slashes of a text; at least one, which may be empty. -/
def splitSlash : List UInt8 → List Name
  | [] => [[]]
  | c :: rest =>
    if c = slash then [] :: splitSlash rest
    else
      match splitSlash rest with
      | [] => [[c]]
      | word :: words => (c :: word) :: words

attribute [grind =] splitSlash

/-- What a word does. -/
def component (word : Name) : Option (Comp Name) :=
  if word = [] ∨ word = dot then none
  else if word = dotDot then some .up
  else some (.down word)

/-- The components of a text. -/
def componentsOf (text : List UInt8) : List (Comp Name) := (splitSlash text).filterMap component

/-- The components of a path. -/
def components (path : CStr) : List (Comp Name) := componentsOf path.bytes

/-- Where a path starts: at the root or in the working directory. -/
def start (cwd : List Name) (path : CStr) : List Name :=
  if path.bytes.head? = some slash then [] else cwd

/-- Words that can name a file. -/
def ValidName (n : Name) : Prop :=
  n ≠ [] ∧ n ≠ dot ∧ n ≠ dotDot ∧ slash ∉ n ∧ 0 ∉ n

instance (n : Name) : Decidable (ValidName n) :=
  inferInstanceAs (Decidable (_ ∧ _ ∧ _ ∧ _ ∧ _))

/-- Words that stand for a name. -/
def IsWord (n : Name) : Prop := n ≠ [] ∧ n ≠ dot ∧ n ≠ dotDot ∧ slash ∉ n

theorem ValidName.isWord {n : Name} (h : ValidName n) : IsWord n := by
  obtain ⟨h1, h2, h3, h4, -⟩ := h
  exact ⟨h1, h2, h3, h4⟩

/-- The text of names below the root, each with a slash in front. -/
def rendered (ns : List Name) : List UInt8 := ns.flatMap fun n => slash :: n

/-- The canonical text of a list of names. -/
def canonicalText (ns : List Name) : List UInt8 := if ns = [] then [slash] else rendered ns

theorem splitSlash_ne_nil (text : List UInt8) : splitSlash text ≠ [] := by
  cases text with
  | nil => simp [splitSlash]
  | cons c rest =>
    by_cases hc : c = slash
    · simp [splitSlash, hc]
    · rw [splitSlash, if_neg hc]
      split <;> simp

/-- A slash separates words. -/
theorem splitSlash_append_slash (xs ys : List UInt8) :
    splitSlash (xs ++ slash :: ys) = splitSlash xs ++ splitSlash ys := by
  induction xs with
  | nil => simp [splitSlash]
  | cons c rest ih =>
    by_cases hc : c = slash
    · simp [splitSlash, hc, ih]
    · obtain ⟨word, words, hw⟩ := List.exists_cons_of_ne_nil (splitSlash_ne_nil rest)
      simp only [List.cons_append, splitSlash, if_neg hc, ih, hw]

/-- A text without slashes is one word. -/
theorem splitSlash_of_not_mem {text : List UInt8} (h : slash ∉ text) :
    splitSlash text = [text] := by
  induction text with
  | nil => rfl
  | cons c rest ih =>
    have hc : c ≠ slash := fun heq => h (heq ▸ List.mem_cons_self)
    rw [splitSlash, if_neg hc, ih fun hm => h (List.mem_cons_of_mem c hm)]

@[simp] theorem componentsOf_nil : componentsOf [] = [] := by
  simp [componentsOf, splitSlash, component]

@[simp] theorem componentsOf_slash : componentsOf [slash] = [] := by
  simp [componentsOf, splitSlash, component]

theorem componentsOf_append_slash (xs ys : List UInt8) :
    componentsOf (xs ++ slash :: ys) = componentsOf xs ++ componentsOf ys := by
  simp [componentsOf, splitSlash_append_slash]

theorem component_of_isWord {n : Name} (h : IsWord n) : component n = some (.down n) := by
  obtain ⟨h1, h2, h3, -⟩ := h
  simp [component, h1, h2, h3]

theorem componentsOf_of_isWord {n : Name} (h : IsWord n) : componentsOf n = [.down n] := by
  rw [componentsOf, splitSlash_of_not_mem h.2.2.2]
  simp [component_of_isWord h]

/-- **Reading back what was rendered**, behind any text. -/
theorem componentsOf_append_words {ns : List Name} (h : ∀ n ∈ ns, IsWord n) :
    ∀ text, componentsOf (text ++ rendered ns) = componentsOf text ++ ns.map .down := by
  induction ns using List.reverseRecOn with
  | nil => intro text; simp [rendered]
  | append_singleton ns n ih =>
    intro text
    have hn := h n (by simp)
    have hrest := ih fun m hm => h m (List.mem_append_left _ hm)
    have hsplit : text ++ rendered (ns ++ [n]) = (text ++ rendered ns) ++ slash :: n := by
      simp [rendered]
    rw [hsplit, componentsOf_append_slash, hrest, componentsOf_of_isWord hn]
    simp

theorem componentsOf_append_rendered {ns : List Name} (h : ∀ n ∈ ns, ValidName n) :
    ∀ text, componentsOf (text ++ rendered ns) = componentsOf text ++ ns.map .down :=
  componentsOf_append_words fun n hn => (h n hn).isWord

theorem componentsOf_canonical_words {ns : List Name} (h : ∀ n ∈ ns, IsWord n) :
    componentsOf (canonicalText ns) = ns.map .down := by
  by_cases hns : ns = []
  · simp [canonicalText, hns]
  · rw [canonicalText, if_neg hns]
    simpa using componentsOf_append_words h []

theorem componentsOf_canonicalText {ns : List Name} (h : ∀ n ∈ ns, ValidName n) :
    componentsOf (canonicalText ns) = ns.map .down :=
  componentsOf_canonical_words fun n hn => (h n hn).isWord

/-- No word between slashes has one. -/
theorem slash_notMem_splitSlash (text : List UInt8) : ∀ word ∈ splitSlash text, slash ∉ word := by
  induction text with
  | nil => simp [splitSlash]
  | cons c rest ih =>
    by_cases hc : c = slash
    · simpa [splitSlash, hc] using ih
    · obtain ⟨word, words, hw⟩ := List.exists_cons_of_ne_nil (splitSlash_ne_nil rest)
      rw [hw] at ih
      simp only [splitSlash, if_neg hc, hw]
      intro w hmem
      rcases List.mem_cons.mp hmem with rfl | hmem
      · simpa [Ne.symm hc] using ih word List.mem_cons_self
      · exact ih w (List.mem_cons_of_mem _ hmem)

/-- The names in a text are words. -/
theorem isWord_of_mem {text : List UInt8} {n : Name} (h : .down n ∈ componentsOf text) :
    IsWord n := by
  obtain ⟨word, hword, hc⟩ := List.mem_filterMap.mp h
  have hslash := slash_notMem_splitSlash text word hword
  rw [component] at hc
  split at hc
  · cases hc
  · rename_i hmove
    split at hc
    · cases hc
    · rename_i hup
      obtain rfl : word = n := by simpa using hc
      rw [not_or] at hmove
      exact ⟨hmove.1, hmove.2, hup, hslash⟩

theorem canonicalText_head (ns : List Name) : (canonicalText ns).head? = some slash := by
  cases ns with
  | nil => rfl
  | cons n rest => simp [canonicalText, rendered]

/-- A slash at the end of a path adds no component. -/
@[simp] theorem components_withSlash (path : CStr) :
    components path.withSlash = components path := by
  rw [CStr.withSlash]
  split
  · rfl
  · simp [components, CStr.appendSlash, componentsOf_append_slash]

theorem withSlash_getLast (path : CStr) :
    ∃ text, path.withSlash.bytes = text ++ [slash] := by
  by_cases h : path.bytes.getLast? = some slash
  · refine ⟨path.bytes.dropLast, ?_⟩
    rw [CStr.withSlash, if_pos h]
    exact (List.dropLast_append_getLast? slash h).symm
  · exact ⟨path.bytes, by rw [CStr.withSlash, if_neg h]; rfl⟩

/-- **Starting with a directory's text and a slash** is starting with its components. The slash is
what makes the difference: without it `/run/ab` would be below `/run/a`. -/
theorem components_prefix_of_startsWith {path pre : CStr}
    (h : path.startsWith pre.withSlash = true) : components pre <+: components path := by
  obtain ⟨rest, hrest⟩ := List.isPrefixOf_iff_prefix.mp h
  obtain ⟨text, htext⟩ := withSlash_getLast pre
  have hpath : path.bytes = text ++ slash :: rest := by
    rw [← hrest, htext, List.append_assoc, List.singleton_append]
  have hpre : components pre = componentsOf text := by
    rw [← components_withSlash, components, htext]
    exact (componentsOf_append_slash text []).trans (by simp)
  rw [hpre, components, hpath, componentsOf_append_slash]
  exact List.prefix_append _ _

/-! ## Canonical paths -/

/-- Rendered names carry no NUL. -/
theorem zero_notMem_canonicalText {ns : List Name} (h : ∀ n ∈ ns, ValidName n) :
    0 ∉ canonicalText ns := by
  by_cases hns : ns = []
  · simp [canonicalText, hns, slash]
  · rw [canonicalText, if_neg hns, rendered, List.mem_flatMap]
    rintro ⟨n, hn, h0⟩
    rcases List.mem_cons.mp h0 with hs | hmem
    · exact absurd hs (by decide)
    · exact (h n hn).2.2.2.2 hmem

/-- The canonical path of a list of names. -/
def canonicalPath (ns : List Name) (h : ∀ n ∈ ns, ValidName n) : CStr :=
  ⟨canonicalText ns, zero_notMem_canonicalText h⟩

@[simp] theorem components_canonicalPath {ns : List Name} (h : ∀ n ∈ ns, ValidName n) :
    components (canonicalPath ns h) = ns.map .down := componentsOf_canonicalText h

@[simp] theorem start_canonicalPath {ns : List Name} (h : ∀ n ∈ ns, ValidName n)
    (cwd : List Name) : start cwd (canonicalPath ns h) = [] :=
  if_pos (canonicalText_head ns)

theorem rendered_append (ns ns' : List Name) :
    rendered (ns ++ ns') = rendered ns ++ rendered ns' := by
  simp [rendered]

/-- The canonical text of names does not end in a slash. -/
theorem withSlash_canonicalPath {ns : List Name} (h : ∀ n ∈ ns, ValidName n) (hns : ns ≠ []) :
    (canonicalPath ns h).withSlash.bytes = rendered ns ++ [slash] := by
  have hlast : (canonicalPath ns h).bytes.getLast? ≠ some slash := by
    obtain ⟨s, n, rfl⟩ : ∃ s n, ns = s ++ [n] :=
      ⟨_, _, (List.dropLast_append_getLast hns).symm⟩
    have hn := h n (by simp)
    simp only [canonicalPath, canonicalText, if_neg hns, rendered_append]
    intro hmem
    have hn' : (rendered [n]).getLast? = n.getLast? := by
      obtain ⟨c, rest, rfl⟩ := List.exists_cons_of_ne_nil hn.1
      simp [rendered]
    rw [List.getLast?_append, hn'] at hmem
    cases hlast : n.getLast? with
    | none => exact hn.1 (List.getLast?_eq_none_iff.mp hlast)
    | some c =>
      rw [hlast] at hmem
      obtain rfl := Option.some.inj hmem
      exact hn.2.2.2.1 (List.mem_of_getLast? hlast)
  rw [CStr.withSlash, if_neg hlast]
  simp [CStr.appendSlash, canonicalPath, canonicalText, hns]

/-- A canonical path starts with a canonical directory and a slash exactly when something
follows the directory. -/
theorem startsWith_canonicalPath {ns rest : List Name} (h : ∀ n ∈ ns, ValidName n)
    (h' : ∀ n ∈ ns ++ rest, ValidName n) (hns : ns ≠ []) :
    (canonicalPath (ns ++ rest) h').startsWith (canonicalPath ns h).withSlash = true ↔
      rest ≠ [] := by
  have hne : ns ++ rest ≠ [] := by simp [hns]
  rw [CStr.startsWith, List.isPrefixOf_iff_prefix, withSlash_canonicalPath h hns]
  simp only [canonicalPath, canonicalText, if_neg hne, rendered_append]
  rw [List.prefix_append_right_inj]
  cases rest with
  | nil => simp [rendered]
  | cons n rest => simp [rendered]

end SocketHandoff.Apache
