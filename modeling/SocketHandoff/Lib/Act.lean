import Mathlib.Tactic.Basic

/-!
# Actions against an environment

A sequential piece of code that asks its environment questions (system calls, library
calls, the clock) is a function of an **oracle** `ω : E` and a state. The questions of a run
are numbered in the order they are asked, and the answer to a question may depend on its
number, so quantifying over all oracles quantifies over all environments, however they
react to what the code did before.

`Triple ω P m Q` is the usual rule of a pre- and a postcondition for one fixed oracle: a
property of the environment is then a hypothesis about `ω`.
-/

namespace SocketHandoff

universe u

/-- Code that runs against an oracle `E`, changes a state `S` and returns an `α`. The
number threaded beside the state counts the questions asked so far. -/
def Act (E : Type u) (S : Type) (α : Type) := E → Nat × S → α × (Nat × S)

namespace Act

variable {E : Type u} {S : Type} {α β : Type}

/-- Return a value without touching anything. -/
protected def pure (a : α) : Act E S α := fun _ st => (a, st)

/-- Run `m`, then continue with its result. -/
protected def bind (m : Act E S α) (k : α → Act E S β) : Act E S β :=
  fun ω st => k (m ω st).1 ω (m ω st).2

instance : Monad (Act E S) where
  pure := Act.pure
  bind := Act.bind

/-- Read the state. -/
def get : Act E S S := fun _ st => (st.2, st)

/-- Change the state. -/
def modify (f : S → S) : Act E S Unit := fun _ st => ((), (st.1, f st.2))

/-- Ask the environment one question: its answer may depend on the number of the question,
and the state it leaves may depend on the answer. -/
def ask (answer : E → Nat → S → α × S) : Act E S α :=
  fun ω st => ((answer ω st.1 st.2).1, (st.1 + 1, (answer ω st.1 st.2).2))

/-- A fact about the environment that stays the same: no question is spent on it. -/
def read (fact : E → α) : Act E S α := fun ω st => (fact ω, st)

/-- Run `m` from the first question on and keep what it returns. -/
def result (m : Act E S α) (ω : E) (s : S) : α := (m ω (0, s)).1

/-- Run `m` from the first question on and keep the state it leaves. -/
def final (m : Act E S α) (ω : E) (s : S) : S := (m ω (0, s)).2.2

@[simp] theorem pure_run (a : α) (ω : E) (st : Nat × S) :
    (Pure.pure a : Act E S α) ω st = (a, st) := rfl

@[simp] theorem bind_run (m : Act E S α) (k : α → Act E S β) (ω : E) (st : Nat × S) :
    (m >>= k) ω st = k (m ω st).1 ω (m ω st).2 := rfl

/-- A value that is returned can be used at once. -/
@[simp] theorem pure_bind (a : α) (k : α → Act E S β) : (Pure.pure a >>= k) = k a := rfl

@[simp] theorem get_run (ω : E) (st : Nat × S) : (get : Act E S S) ω st = (st.2, st) := rfl

@[simp] theorem modify_run (f : S → S) (ω : E) (st : Nat × S) :
    (modify f : Act E S Unit) ω st = ((), (st.1, f st.2)) := rfl

@[simp] theorem read_run (fact : E → α) (ω : E) (st : Nat × S) :
    (read fact : Act E S α) ω st = (fact ω, st) := rfl

@[simp] theorem ask_run (answer : E → Nat → S → α × S) (ω : E) (st : Nat × S) :
    ask answer ω st =
      ((answer ω st.1 st.2).1, (st.1 + 1, (answer ω st.1 st.2).2)) := rfl

/-! ## Rules of pre- and postconditions -/

/-- **Triple.** Whatever question number it starts at, `m` takes a state with `P` to a
result and a state with `Q`. Code of this kind always returns, so the triple is total. -/
def Triple (ω : E) (P : S → Prop) (m : Act E S α) (Q : α → S → Prop) : Prop :=
  ∀ n s, P s → Q (m ω (n, s)).1 (m ω (n, s)).2.2

variable {ω : E} {P P' : S → Prop} {Q Q' : α → S → Prop} {R : β → S → Prop}

theorem Triple.pure (a : α) (h : ∀ s, P s → Q a s) :
    Triple ω P (Pure.pure a : Act E S α) Q :=
  fun _ s hs => h s hs

theorem Triple.bind {m : Act E S α} {k : α → Act E S β} (hm : Triple ω P m Q)
    (hk : ∀ a, Triple ω (Q a) (k a) R) : Triple ω P (m >>= k) R :=
  fun n s hs => hk _ _ _ (hm n s hs)

/-- The rule of consequence. -/
theorem Triple.conseq {m : Act E S α} (hm : Triple ω P m Q) (hP : ∀ s, P' s → P s)
    (hQ : ∀ a s, Q a s → Q' a s) : Triple ω P' m Q' :=
  fun n s hs => hQ _ _ (hm n s (hP s hs))

/-- A conjunct of the precondition that does not look at the state is a hypothesis. -/
theorem Triple.assume {p : Prop} {m : Act E S α} (h : p → Triple ω P m Q) :
    Triple ω (fun s => p ∧ P s) m Q :=
  fun n s hs => h hs.1 n s hs.2

/-- A precondition that holds for some value is one for each value. -/
theorem Triple.exists {ι : Sort*} {P : ι → S → Prop} {m : Act E S α}
    (h : ∀ x, Triple ω (P x) m Q) : Triple ω (fun s => ∃ x, P x s) m Q :=
  fun n s ⟨x, hs⟩ => h x n s hs

theorem Triple.get {Q : S → S → Prop} (h : ∀ s, P s → Q s s) :
    Triple ω P (Act.get : Act E S S) Q :=
  fun _ s hs => h s hs

theorem Triple.read {fact : E → α} (h : ∀ s, P s → Q (fact ω) s) :
    Triple ω P (Act.read fact : Act E S α) Q :=
  fun _ s hs => h s hs

/-- Code that starts by reading a fact goes on with that fact. -/
theorem Triple.read_bind {fact : E → β} {k : β → Act E S α} (h : Triple ω P (k (fact ω)) Q) :
    Triple ω P (Act.read fact >>= k) Q :=
  fun n s hs => h n s hs

theorem Triple.modify {f : S → S} {Q : Unit → S → Prop} (h : ∀ s, P s → Q () (f s)) :
    Triple ω P (Act.modify f : Act E S Unit) Q :=
  fun _ s hs => h s hs

/-- A question is covered when every answer the oracle may give is. -/
theorem Triple.ask {answer : E → Nat → S → α × S}
    (h : ∀ n s, P s → Q (answer ω n s).1 (answer ω n s).2) :
    Triple ω P (Act.ask answer) Q :=
  fun n s hs => h n s hs

theorem Triple.ite {c : Prop} [Decidable c] {m m' : Act E S α}
    (ht : c → Triple ω P m Q) (hf : ¬ c → Triple ω P m' Q) :
    Triple ω P (if c then m else m') Q := by
  by_cases hc : c
  · rw [if_pos hc]; exact ht hc
  · rw [if_neg hc]; exact hf hc

/-- What a triple says of a run from the first question on. -/
theorem Triple.run {m : Act E S α} (hm : Triple ω P m Q) {s : S} (hs : P s) :
    Q (m.result ω s) (m.final ω s) :=
  hm 0 s hs

/-! ## Code that may be left early -/

/-- Code that returns, or is left early with an `ε`. -/
abbrev Try (E : Type u) (S ε α : Type) := ExceptT ε (Act E S) α

variable {ε : Type} {X X' : ε → S → Prop}

/-- What holds of a result: `Q` where the code has returned, `X` where it was left. Code with an
early exit has two ends, and a rule for sequences has to hand the second one past what follows. -/
def Post (Q : α → S → Prop) (X : ε → S → Prop) : Except ε α → S → Prop
  | .ok a => Q a
  | .error e => X e

/-- **Triple for code that may be left early.** -/
def Tries (ω : E) (P : S → Prop) (m : Try E S ε α) (Q : α → S → Prop) (X : ε → S → Prop) : Prop :=
  Triple ω P m.run (Post Q X)

namespace Tries

theorem pure (a : α) (h : ∀ s, P s → Q a s) : Tries ω P (Pure.pure a : Try E S ε α) Q X :=
  fun _ s hs => h s hs

theorem throw (e : ε) (h : ∀ s, P s → X e s) : Tries ω P (throw e : Try E S ε α) Q X :=
  fun _ s hs => h s hs

/-- Code that is never left early. -/
theorem lift {m : Act E S α} (h : Triple ω P m Q) : Tries ω P (liftM m : Try E S ε α) Q X :=
  fun n s hs => h n s hs

theorem bind {m : Try E S ε α} {k : α → Try E S ε β} (hm : Tries ω P m Q X)
    (hk : ∀ a, Tries ω (Q a) (k a) R X) : Tries ω P (m >>= k) R X := by
  intro n s hs
  have h := hm n s hs
  have hrun : (m >>= k).run ω (n, s) =
      (ExceptT.bindCont k (m.run ω (n, s)).1 : Act E S _) ω (m.run ω (n, s)).2 := rfl
  rw [hrun]
  generalize m.run ω (n, s) = out at h ⊢
  obtain ⟨r, m, t⟩ := out
  cases r with
  | ok a => exact hk a m t h
  | error e => exact h

theorem read_bind {fact : E → α} {k : α → Try E S ε β} (h : Tries ω P (k (fact ω)) R X) :
    Tries ω P (liftM (Act.read fact : Act E S α) >>= k) R X :=
  fun n s hs => h n s hs

/-- A value that is returned can be used at once. -/
theorem pure_bind {a : α} {k : α → Try E S ε β} (h : Tries ω P (k a) R X) :
    Tries ω P (liftM (Pure.pure a : Act E S α) >>= k) R X :=
  fun n s hs => h n s hs

theorem assume {p : Prop} {m : Try E S ε α} (h : p → Tries ω P m Q X) :
    Tries ω (fun s => p ∧ P s) m Q X :=
  Triple.assume h

theorem conseq {m : Try E S ε α} (hm : Tries ω P m Q X) (hP : ∀ s, P' s → P s)
    (hQ : ∀ a s, Q a s → Q' a s) (hX : ∀ e s, X e s → X' e s) : Tries ω P' m Q' X' := by
  refine Triple.conseq hm hP fun r s hs => ?_
  cases r with
  | ok a => exact hQ a s hs
  | error e => exact hX e s hs

theorem ite {c : Prop} [Decidable c] {m m' : Try E S ε α} (ht : c → Tries ω P m Q X)
    (hf : ¬ c → Tries ω P m' Q X) : Tries ω P (if c then m else m') Q X := by
  split
  · exact ht ‹_›
  · exact hf ‹_›

end Tries

/-! ## Seen through a projection -/

variable {V : Type} {π : S → V} {v : V} {T : α → V → Prop} {m : Act E S α}

/-- **Through.** From a state that shows `v`, the code ends with a result and a state that shows
something in `T`. What the projection does not show is left open. -/
def Through (ω : E) (π : S → V) (v : V) (m : Act E S α) (T : α → V → Prop) : Prop :=
  Triple ω (fun s => π s = v) m fun a s => T a (π s)

/-- The code changes nothing that the projection shows. -/
def Unseen (π : S → V) (m : Act E S α) : Prop := ∀ ω st, π (m ω st).2.2 = π st.2

namespace Unseen

theorem pure (a : α) : Unseen π (Pure.pure a : Act E S α) := fun _ _ => rfl

theorem bind {k : α → Act E S β} (hm : Unseen π m) (hk : ∀ a, Unseen π (k a)) :
    Unseen π (m >>= k) := fun ω st => (hk _ ω _).trans (hm ω st)

theorem get : Unseen π (Act.get : Act E S S) := fun _ _ => rfl

theorem modify {f : S → S} (h : ∀ s, π (f s) = π s) : Unseen π (Act.modify f : Act E S Unit) :=
  fun _ st => h st.2

theorem ask {answer : E → Nat → S → α × S} (h : ∀ ω n s, π (answer ω n s).2 = π s) :
    Unseen π (Act.ask answer) := fun ω st => h ω st.1 st.2

theorem ite {c : Prop} [Decidable c] {m' : Act E S α} (h : Unseen π m) (h' : Unseen π m') :
    Unseen π (if c then m else m') := by
  split
  · exact h
  · exact h'

end Unseen

namespace Through

theorem pure {a : α} (h : T a v) : Through ω π v (Pure.pure a) T :=
  Triple.pure a fun _ hs => hs ▸ h

theorem bind {m : Act E S β} {k : β → Act E S α}
    (h : Through ω π v m fun b v' => Through ω π v' (k b) T) : Through ω π v (m >>= k) T :=
  fun n s hs => h n s hs _ _ rfl

theorem conseq {T' : α → V → Prop} (h : Through ω π v m T') (hT : ∀ a v', T' a v' → T a v') :
    Through ω π v m T :=
  Triple.conseq h (fun _ hs => hs) fun _ _ => hT _ _

theorem unseen (hm : Unseen π m) (h : ∀ a, T a v) : Through ω π v m T :=
  fun n s hs => by
    have hv : π (m ω (n, s)).2.2 = v := (hm ω (n, s)).trans hs
    change T (m ω (n, s)).1 (π (m ω (n, s)).2.2)
    exact hv ▸ h (m ω (n, s)).1

theorem ite {c : Prop} [Decidable c] {m' : Act E S α} (ht : c → Through ω π v m T)
    (hf : ¬ c → Through ω π v m' T) : Through ω π v (if c then m else m') T :=
  Triple.ite ht hf

/-- Code that starts by reading the state reads one that shows `v`. -/
theorem get {k : S → Act E S α} (h : ∀ s, π s = v → Through ω π v (k s) T) :
    Through ω π v (Act.get >>= k) T :=
  fun n s hs => h s hs n s hs

/-- A change of the state that shows as the change `F`. -/
theorem modify {T : Unit → V → Prop} {f : S → S} (F : V → V) (hf : ∀ s, π (f s) = F (π s))
    (h : T () (F v)) : Through ω π v (Act.modify f) T :=
  Triple.modify fun s hs => by rw [hf s, hs]; exact h

theorem ask {answer : E → Nat → S → α × S}
    (h : ∀ n s, π s = v → T (answer ω n s).1 (π (answer ω n s).2)) :
    Through ω π v (Act.ask answer) T :=
  Triple.ask h

/-- What the rule says of a run from the first question on. -/
theorem run (hm : Through ω π v m T) {s : S} (hs : π s = v) :
    T (m.result ω s) (π (m.final ω s)) :=
  hm 0 s hs

end Through

end Act

end SocketHandoff
