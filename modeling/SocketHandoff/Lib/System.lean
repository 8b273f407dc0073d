/-!
# Systems that take one step after another

A `System` is a set of initial states and a step function with labels: the label says which
party moves and what its environment answers, and `none` means that it cannot move that way. A
property of every run is proved by an invariant, which may be relative to a condition `C` on the
steps: `ReachableIf C` are the states of the runs whose steps all meet `C`.
-/

namespace SocketHandoff

/-- States `σ` that change by steps with labels `α`. -/
structure System (σ α : Type) where
  init : σ → Prop
  step : σ → α → Option σ

namespace System

variable {σ α : Type} {S : System σ α} {C C' : σ → α → Prop}

/-- The states of the runs whose steps all meet `C`. The condition is asked of a step and the state
before it, so that it can speak of an order of events without a history. -/
inductive ReachableIf (S : System σ α) (C : σ → α → Prop) : σ → Prop
  | init {s : σ} : S.init s → ReachableIf S C s
  | step {s s' : σ} {a : α} :
      ReachableIf S C s → C s a → S.step s a = some s' → ReachableIf S C s'

/-- The states of all runs. -/
abbrev Reachable (S : System σ α) : σ → Prop := S.ReachableIf fun _ _ => True

/-- The same system, started in a given state: its runs are what follows that state. -/
def startedAt (S : System σ α) (s : σ) : System σ α where
  init := (· = s)
  step := S.step

/-- **The invariant rule.** What holds initially and is preserved by every step that meets the
condition holds in every state of such a run. The condition may be used in the step, and the
invariant of the state before it. -/
theorem ReachableIf.invariant {I : σ → Prop} {s : σ} (h : S.ReachableIf C s)
    (hinit : ∀ s, S.init s → I s)
    (hstep : ∀ s a s', I s → C s a → S.step s a = some s' → I s') : I s := by
  induction h with
  | init h0 => exact hinit _ h0
  | step _ hc hs ih => exact hstep _ _ _ ih hc hs

/-- The same with an invariant `J` that is already known. -/
theorem ReachableIf.invariant_of {I J : σ → Prop} {s : σ} (h : S.ReachableIf C s)
    (hJ : ∀ s, S.ReachableIf C s → J s) (hinit : ∀ s, S.init s → I s)
    (hstep : ∀ s a s', J s → I s → C s a → S.step s a = some s' → I s') : I s := by
  induction h with
  | init h0 => exact hinit _ h0
  | step hr hc hs ih => exact hstep _ _ _ (hJ _ hr) ih hc hs

/-- A run that meets a stronger condition meets a weaker one. -/
theorem ReachableIf.mono {s : σ} (h : S.ReachableIf C s) (hC : ∀ s a, C s a → C' s a) :
    S.ReachableIf C' s := by
  induction h with
  | init h0 => exact .init h0
  | step _ hc hs ih => exact ih.step (hC _ _ hc) hs

/-- Take the steps with these labels. -/
def run (S : System σ α) (s : σ) : List α → Option σ
  | [] => some s
  | a :: rest => (S.step s a).bind fun s' => S.run s' rest

@[simp] theorem run_nil (s : σ) : S.run s [] = some s := rfl

theorem run_cons (s : σ) (a : α) (rest : List α) :
    S.run s (a :: rest) = (S.step s a).bind fun s' => S.run s' rest := rfl

/-- One run after the other. -/
theorem run_append {s t u : σ} {as bs : List α} (h : S.run s as = some t)
    (h' : S.run t bs = some u) : S.run s (as ++ bs) = some u := by
  induction as generalizing s with
  | nil => exact Option.some.inj h ▸ h'
  | cons a as ih =>
    rw [run_cons] at h
    obtain ⟨v, hv, hrest⟩ := Option.bind_eq_some_iff.mp h
    rw [List.cons_append, run_cons, hv]
    exact ih hrest

/-- Steps with labels that meet the condition lead from a state of such a run to one. -/
theorem ReachableIf.run {s s' : σ} (h : S.ReachableIf C s) {labels : List α}
    (hC : ∀ a ∈ labels, ∀ t, C t a) (hrun : S.run s labels = some s') : S.ReachableIf C s' := by
  induction labels generalizing s with
  | nil => exact Option.some.inj hrun ▸ h
  | cons a rest ih =>
    rw [run_cons] at hrun
    obtain ⟨t, ht, hrest⟩ := Option.bind_eq_some_iff.mp hrun
    exact ih (h.step (hC a List.mem_cons_self s) ht)
      (fun b hb => hC b (List.mem_cons_of_mem a hb)) hrest

/-- Steps taken from a reachable state lead to one. -/
theorem Reachable.run {s s' : σ} (h : S.Reachable s) (labels : List α)
    (hrun : S.run s labels = some s') : S.Reachable s' :=
  ReachableIf.run h (fun _ _ _ => trivial) hrun

/-- Some steps lead from one state to the other. -/
def Leads (S : System σ α) (s s' : σ) : Prop := ∃ labels, S.run s labels = some s'

theorem Leads.refl (s : σ) : S.Leads s s := ⟨[], rfl⟩

theorem Leads.head {s t u : σ} {a : α} (hs : S.step s a = some t) (h : S.Leads t u) :
    S.Leads s u := by
  obtain ⟨labels, hrun⟩ := h
  exact ⟨a :: labels, by rw [run_cons, hs]; exact hrun⟩

theorem Leads.trans {s t u : σ} (h : S.Leads s t) (h' : S.Leads t u) : S.Leads s u := by
  obtain ⟨as, has⟩ := h
  obtain ⟨bs, hbs⟩ := h'
  exact ⟨as ++ bs, run_append has hbs⟩

theorem Leads.reachable {s s' : σ} (h : S.Leads s s') (hr : S.Reachable s) : S.Reachable s' := by
  obtain ⟨labels, hrun⟩ := h
  exact hr.run labels hrun

/-- **The progress rule.** Where every state with `P` that has not reached `Q` has a step to a
smaller one, `Q` is reached. No fairness comes into it: the rule says that the end can be reached,
not that it will be. -/
theorem Leads.of_measure {P Q : σ → Prop} (μ : σ → Nat)
    (hstep : ∀ s, P s → Q s ∨ ∃ a s', S.step s a = some s' ∧ P s' ∧ μ s' < μ s) {s : σ} (hs : P s) :
    ∃ s', S.Leads s s' ∧ P s' ∧ Q s' := by
  induction h : μ s using Nat.strongRecOn generalizing s with
  | ind n ih =>
    rcases hstep s hs with hq | ⟨a, s', hs', hP, hlt⟩
    · exact ⟨s, .refl s, hs, hq⟩
    · obtain ⟨u, hu, hPu, hQ⟩ := ih (μ s') (h ▸ hlt) hP rfl
      exact ⟨u, .head hs' hu, hPu, hQ⟩

theorem run_startedAt (s t : σ) (labels : List α) : (S.startedAt s).run t labels = S.run t labels := by
  induction labels generalizing t with
  | nil => rfl
  | cons a rest ih =>
    rw [run_cons, run_cons]
    exact congrArg _ (funext ih)

end System

end SocketHandoff
