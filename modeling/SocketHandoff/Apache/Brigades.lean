import SocketHandoff.Apache.Ownership

/-!
# What reaches the filter below

A handler may pass its response in several brigades. The filter empties the brigade it is called
with and takes itself out of the chain, so every later brigade goes directly to the filter below.
-/

namespace SocketHandoff.Apache

open Act

variable {ω : Env}

/-- The buckets the filter below has received. -/
def received (w : World) : List Bucket := w.below.flatMap (·.brigade)

/-- The worker when the handler has passed a first brigade. -/
def afterFirst (ω : Env) (conf : Config) (w : World) (first : Brigade) : World :=
  (outputBrigade conf first).final ω w

/-- The worker when the handler has passed all its brigades. -/
def afterAll (ω : Env) (conf : Config) (w : World) (brigades : List Brigade) : World :=
  (outputBrigades conf brigades).final ω w

/-- **Nothing leaks**: after a handoff the filter below has received nothing, after a failed one
exactly the error response. -/
def NothingLeaks (ω : Env) (conf : Config) (w : World) (first : Brigade)
    (rest : List Brigade) : Prop :=
  (HandedOff ω w (afterFirst ω conf w first) → received (afterAll ω conf w (first :: rest)) = []) ∧
  (¬ HandedOff ω w (afterFirst ω conf w first) →
    ∃ status, received (afterAll ω conf w (first :: rest)) =
      [.transient (errorBody status), .eos])

/-- Once the filter is out of the chain every brigade goes below as it is. -/
theorem outputBrigades_removed (conf : Config) (rest : List Brigade) :
    ∀ n w, w.filter = false →
      received (outputBrigades conf rest ω (n, w)).2.2 = received w ++ rest.flatten := by
  induction rest with
  | nil => intro n w _; simp [outputBrigades]
  | cons bb rest ih =>
    intro n w hf
    have hpass : outputBrigade conf bb ω (n, w) = apPassBrigade bb ω (n, w) := by
      simp [outputBrigade, hf]
    simp only [outputBrigades, bind_run, hpass]
    rw [ih]
    · simp [apPassBrigade, received]
    · exact hf

/-- What the filter below receives over a whole response: what the filter passed on for the
first brigade, then every bucket of the later ones. -/
theorem received_afterAll (conf : Config) (w : World) (first : Brigade) (rest : List Brigade)
    (hremoved : (afterFirst ω conf w first).filter = false) :
    received (afterAll ω conf w (first :: rest)) =
      received (afterFirst ω conf w first) ++ rest.flatten := by
  exact outputBrigades_removed conf rest _ _ hremoved

/-- **No leak, exactly.** On a main request of an enabled server whose response names a handoff
target, nothing of the response leaks if and only if every brigade after the first is empty: the
filter takes itself out of the chain behind its first brigade, so later ones go past it. -/
theorem nothingLeaks_iff (conf : Config) (w : World) (first : Brigade) (rest : List Brigade)
    (henabled : conf.enabled = true) (hmain : w.request.subrequest = false)
    (hheader : (responseHeader w.request .handoff).isSome)
    (htrace : w.trace = []) (hbelow : w.below = []) :
    let w₁ := (socketHandoffInsertFilter conf).final ω w
    NothingLeaks ω conf w₁ first rest ↔ ∀ bb ∈ rest, bb = [] := by
  intro w₁
  have hw₁ : w₁ = { w with filter := true } := by
    simp [w₁, Act.final, socketHandoffInsertFilter, hmain, henabled]
  have hrun : afterFirst ω conf w₁ first = (socketHandoffOutputFilter conf first ω (0, w₁)).2.2 := by
    simp [afterFirst, Act.final, outputBrigade, hw₁]
  have hend : Ended ω w₁ (afterFirst ω conf w₁ first) := by
    rw [hrun]
    exact outputFilter_ended conf first (by simp [hw₁, htrace]) (by simpa [hw₁] using hheader) 0
  have hb₁ : w₁.below = [] := by simp [hw₁, hbelow]
  rw [NothingLeaks, received_afterAll conf w₁ first rest hend.removed, ← List.flatten_eq_nil_iff]
  rcases hend.owner with ha | ⟨hb, _⟩
  · have hnone : received (afterFirst ω conf w₁ first) = [] := by
      simp [received, ha.silent, hb₁]
    simp [ha, hnone]
  · have hnot : ¬ HandedOff ω w₁ (afterFirst ω conf w₁ first) := fun ha => ha.not_answered hb
    obtain ⟨r, hanswer, _⟩ := hb.answer
    have hone : received (afterFirst ω conf w₁ first) =
        [.transient (errorBody r.status), .eos] := by
      simp [received, hanswer, hb₁]
    constructor
    · rintro ⟨_, herr⟩
      obtain ⟨status, hst⟩ := herr hnot
      have hlen := congrArg List.length hst
      simp only [hone, List.length_append, List.length_cons, List.length_nil] at hlen
      exact List.length_eq_zero_iff.mp (by omega)
    · intro hrest
      exact ⟨fun ha => absurd ha hnot, fun _ => ⟨r.status, by rw [hone, hrest]; rfl⟩⟩

/-- The condition is met by a handler whose later brigades are empty, and then nothing it
produced reaches the client. -/
theorem nothingLeaks_iff_calm :
    NothingLeaks .calm createServerConfig
      ((socketHandoffInsertFilter createServerConfig).final .calm (.start .php))
      [.heap [104, 105], .eos] [[], []] :=
  (nothingLeaks_iff createServerConfig (.start .php) _ _ rfl rfl rfl rfl rfl).mpr (by simp)

/-- A handler that flushes once before its last brigade leaks the last one. -/
theorem flush_leaks :
    ¬ NothingLeaks .calm createServerConfig (.start .php) [.heap [104], .flush]
      [[.heap [105], .eos]] := by
  rintro ⟨hdone, hfail⟩
  have hgot : received (afterAll .calm createServerConfig (.start .php)
      ([.heap [104], .flush] :: [[.heap [105], .eos]])) = [.heap [105], .eos] := by
    decide
  by_cases ha : HandedOff .calm (.start .php)
      (afterFirst .calm createServerConfig (.start .php) [.heap [104], .flush])
  · exact absurd (hgot.symm.trans (hdone ha)) (by decide)
  · obtain ⟨status, hst⟩ := hfail ha
    exact absurd (hgot.symm.trans hst) (by simp)

end SocketHandoff.Apache
