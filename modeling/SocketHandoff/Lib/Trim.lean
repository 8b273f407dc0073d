import Mathlib.Data.List.Basic

/-!
# Trimming

The words of a code are dropped from the front of a text, or from its back, for as long as it begins,
or ends, with one. No word of the code is the beginning of another one, so that a text that begins
with words does so in one way.
-/

namespace SocketHandoff.Trim

variable {α : Type} [DecidableEq α]

/-- Drop up to `n` words from the front of a text. -/
def dropWords (words : List (List α)) : Nat → List α → List α
  | 0, s => s
  | n + 1, s =>
    match words.find? (·.isPrefixOf s) with
    | none => s
    | some w => dropWords words n (s.drop w.length)

/-- The text without the words at its front. -/
def trimFront (words : List (List α)) (s : List α) : List α := dropWords words s.length s

/-- The text without the words at its back. -/
def trimBack (words : List (List α)) (s : List α) : List α :=
  (trimFront (words.map List.reverse) s.reverse).reverse

/-- A text that is made of words. -/
def Made (words : List (List α)) (s : List α) : Prop :=
  ∃ ws : List (List α), (∀ w ∈ ws, w ∈ words) ∧ ws.flatten = s

/-- No word is empty, or the beginning of another one. Otherwise it would matter in which order the
words are tried. -/
structure PrefixFree (words : List (List α)) : Prop where
  nonempty : [] ∉ words
  unique : ∀ w ∈ words, ∀ w' ∈ words, w <+: w' → w = w'

omit [DecidableEq α] in
theorem Made.append {words : List (List α)} {s t : List α} (hs : Made words s) (ht : Made words t) :
    Made words (s ++ t) := by
  obtain ⟨ws, hws, rfl⟩ := hs
  obtain ⟨ws', hws', rfl⟩ := ht
  refine ⟨ws ++ ws', fun w hw => ?_, List.flatten_append⟩
  rcases List.mem_append.mp hw with hw | hw
  · exact hws w hw
  · exact hws' w hw

omit [DecidableEq α] in
theorem Made.reverse {words : List (List α)} {s : List α} (hs : Made (words.map List.reverse) s) :
    Made words s.reverse := by
  obtain ⟨ws, hws, rfl⟩ := hs
  refine ⟨(ws.map List.reverse).reverse, fun w hw => ?_, ?_⟩
  · obtain ⟨v, hv, rfl⟩ := List.mem_map.mp (List.mem_reverse.mp hw)
    obtain ⟨u, hu, rfl⟩ := List.mem_map.mp (hws v hv)
    rwa [List.reverse_reverse]
  · rw [List.reverse_flatten]

omit [DecidableEq α] in
theorem Made.reversed {words : List (List α)} {s : List α} (hs : Made words s) :
    Made (words.map List.reverse) s.reverse := by
  apply Made.reverse
  rwa [List.map_map, List.reverse_involutive.comp_self, List.map_id]

/-! ## What is dropped -/

section
variable {words : List (List α)} {s : List α}

theorem dropWords_split (n : Nat) (s : List α) :
    ∃ dropped, Made words dropped ∧ s = dropped ++ dropWords words n s := by
  induction n generalizing s with
  | zero => exact ⟨[], ⟨[], by simp, rfl⟩, rfl⟩
  | succ n ih =>
    rw [dropWords]
    cases hfind : words.find? (·.isPrefixOf s) with
    | none => exact ⟨[], ⟨[], by simp, rfl⟩, rfl⟩
    | some w =>
      have hw := List.mem_of_find?_eq_some hfind
      have hfound : w.isPrefixOf s = true := by simpa using List.find?_some hfind
      have hprefix := List.isPrefixOf_iff_prefix.mp hfound
      obtain ⟨dropped, hmade, hsplit⟩ := ih (s.drop w.length)
      refine ⟨w ++ dropped, Made.append ⟨[w], by simpa using hw, by simp⟩ hmade, ?_⟩
      simp only
      rw [List.append_assoc, ← hsplit]
      exact List.prefix_iff_eq_append.mp hprefix |>.symm

/-- **Trimming the front** of a text takes words from it. -/
theorem trimFront_split (words : List (List α)) (s : List α) :
    ∃ dropped, Made words dropped ∧ s = dropped ++ trimFront words s := dropWords_split _ s

theorem trimBack_split (words : List (List α)) (s : List α) :
    ∃ dropped, Made words dropped ∧ s = trimBack words s ++ dropped := by
  obtain ⟨dropped, hmade, hsplit⟩ := trimFront_split (words.map List.reverse) s.reverse
  refine ⟨dropped.reverse, hmade.reverse, ?_⟩
  rw [trimBack, ← List.reverse_append, ← hsplit, List.reverse_reverse]

/-! ## What is left -/

theorem dropWords_append (hfree : PrefixFree words) (ws : List (List α))
    (hws : ∀ w ∈ ws, w ∈ words) (hs : ∀ w ∈ words, ¬ w <+: s) {n : Nat}
    (hn : (ws.flatten ++ s).length ≤ n) : dropWords words n (ws.flatten ++ s) = s := by
  induction ws generalizing n with
  | nil =>
    cases n with
    | zero => rfl
    | succ n =>
      have hnone : words.find? (·.isPrefixOf s) = none := by
        refine List.find?_eq_none.mpr fun w hw hprefix => hs w hw ?_
        exact List.isPrefixOf_iff_prefix.mp hprefix
      rw [List.flatten_nil, List.nil_append, dropWords, hnone]
  | cons w ws ih =>
    have hw := hws w List.mem_cons_self
    have hrest := fun v hv => hws v (List.mem_cons_of_mem w hv)
    have hpos : 0 < w.length := List.length_pos_iff.mpr fun e => hfree.nonempty (e ▸ hw)
    rw [List.flatten_cons, List.append_assoc] at hn ⊢
    rw [List.length_append] at hn
    have hprefix : w <+: w ++ (ws.flatten ++ s) := List.prefix_append _ _
    cases n with
    | zero => omega
    | succ n =>
      rw [dropWords]
      cases hfind : words.find? (·.isPrefixOf (w ++ (ws.flatten ++ s))) with
      | none =>
        have hnot := List.find?_eq_none.mp hfind w hw
        exact absurd (List.isPrefixOf_iff_prefix.mpr hprefix) hnot
      | some v =>
        -- the word that is found is the one that is there
        have hv := List.mem_of_find?_eq_some hfind
        have hfound : v.isPrefixOf (w ++ (ws.flatten ++ s)) = true := by
          simpa using List.find?_some hfind
        have hprefix' := List.isPrefixOf_iff_prefix.mp hfound
        have heq : v = w := by
          rcases List.prefix_or_prefix_of_prefix hprefix' hprefix with h | h
          · exact hfree.unique v hv w hw h
          · exact (hfree.unique w hw v hv h).symm
        subst heq
        simp only [List.drop_left]
        exact ih hrest (by omega)

/-- **The words at the front** are dropped, and no more where no word is next. -/
theorem trimFront_append (hfree : PrefixFree words) {dropped : List α} (hmade : Made words dropped)
    (hs : ∀ w ∈ words, ¬ w <+: s) : trimFront words (dropped ++ s) = s := by
  obtain ⟨ws, hws, rfl⟩ := hmade
  exact dropWords_append hfree ws hws hs (Nat.le_refl _)

/-- The words at the back. -/
theorem trimBack_append (hfree : PrefixFree (words.map List.reverse)) {dropped : List α}
    (hmade : Made words dropped) (hs : ∀ w ∈ words, ¬ w <:+ s) :
    trimBack words (s ++ dropped) = s := by
  rw [trimBack, List.reverse_append, trimFront_append hfree hmade.reversed, List.reverse_reverse]
  intro v hv hprefix
  obtain ⟨w, hw, rfl⟩ := List.mem_map.mp hv
  exact hs w hw (List.reverse_prefix.mp hprefix)

end

end SocketHandoff.Trim
