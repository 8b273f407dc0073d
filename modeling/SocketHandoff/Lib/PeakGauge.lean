import SocketHandoff.Lib.System
import Mathlib.Data.List.Perm.Basic

/-!
# A counter with its peak, and their gauges

Threads count themselves in and out with an atomic addition each, and raise the peak with a loop of
a load and a compare-and-swap. The value that an atomic operation has left is stored in a gauge by a
step of its own, so that between the two another thread may do both.
-/

namespace SocketHandoff.PeakGauge

/-- Where a thread is. -/
inductive Pc
  /-- it has counted itself in; the gauge is next -/
  | setStarted (current : Int)
  | loadPeak (current : Int)
  | casPeak (current peak : Int)
  /-- it has raised the peak -/
  | setPeak (current : Int)
  | started
  /-- it has counted itself out -/
  | setEnded (current : Int)
  | ended
  deriving DecidableEq, Repr

structure State where
  active : Int
  peak : Int
  activeGauge : Int
  peakGauge : Int
  threads : List Pc
  /-- the thread whose addition was the last; no thread reads it -/
  counted : Option Nat
  /-- the thread that raised the peak last; no thread reads it -/
  raised : Option Nat
  deriving DecidableEq, Repr

def State.zero : State := ⟨0, 0, 0, 0, [], none, none⟩

/-- A new thread, or a step of a thread; a compare-and-swap that is weak may fail `spurious`ly. -/
inductive Label
  | start
  | move (i : Nat) (spurious : Bool)
  deriving DecidableEq, Repr

/-- The next step of thread `i`: what it does, and where it is then. -/
def advance (weak spurious : Bool) (i : Nat) (s : State) : Pc → Option (State × Pc)
  | .setStarted current => some ({ s with activeGauge := current }, .loadPeak current)
  | .loadPeak current =>
    some (s, if current ≤ s.peak then .started else .casPeak current s.peak)
  | .casPeak current peak =>
    if s.peak = peak ∧ ¬ (weak ∧ spurious) then
      some ({ s with peak := current, raised := some i }, .setPeak current)
    else some (s, .loadPeak current)
  | .setPeak current => some ({ s with peakGauge := current }, .started)
  | .started =>
    some ({ s with active := s.active - 1, counted := some i }, .setEnded (s.active - 1))
  | .setEnded current => some ({ s with activeGauge := current }, .ended)
  | .ended => none

def step (weak : Bool) (s : State) : Label → Option State
  | .start =>
    some
      { s with
        active := s.active + 1
        threads := s.threads ++ [.setStarted (s.active + 1)]
        counted := some s.threads.length }
  | .move i spurious => do
    let pc ← s.threads[i]?
    let (s', pc') ← advance weak spurious i s pc
    return { s' with threads := s.threads.set i pc' }

/-- The system; `weak` is about the compare-and-swap. -/
def system (weak : Bool) : System State Label where
  init s := s = .zero
  step := step weak

/-- No thread counts itself in or out. -/
def State.Quiescent (s : State) : Prop := ∀ pc ∈ s.threads, pc = .started ∨ pc = .ended

/-- The gauges show the counters. -/
def State.Agrees (s : State) : Prop := s.activeGauge = s.active ∧ s.peakGauge = s.peak

/-- The value that the thread has still to store in the gauge of the counter. -/
def Pc.activeValue : Pc → Option Int
  | .setStarted current | .setEnded current => some current
  | _ => none

/-- The value that the thread has still to store in the gauge of the peak. -/
def Pc.peakValue : Pc → Option Int
  | .setPeak current => some current
  | _ => none

/-- The thread has still to store the gauge of the counter. -/
def Pc.SetsActive : Pc → Prop
  | .setStarted _ | .setEnded _ => True
  | _ => False

/-- The thread has still to store the gauge of the peak: it has raised the peak, or will. -/
def Pc.SetsPeak (peak : Int) : Pc → Prop
  | .setStarted current | .loadPeak current | .casPeak current _ => peak < current
  | .setPeak _ => True
  | _ => False

/-- **The condition on a step**: a thread that stores a gauge is the one that changed the counter
last, or another thread has still to store that gauge. It is about who stores when: that the value
stored is then the one of the counter is an invariant of the runs. -/
def InOrder (s : State) : Label → Prop
  | .start => True
  | .move i _ =>
    match s.threads[i]? with
    | some (.setStarted _) | some (.setEnded _) =>
      s.counted = some i ∨ ∃ pc ∈ s.threads.eraseIdx i, pc.SetsActive
    | some (.setPeak _) =>
      s.raised = some i ∨ ∃ pc ∈ s.threads.eraseIdx i, pc.SetsPeak s.peak
    | _ => True

/-- A stronger condition: no thread changes a counter while another one has changed it and not yet
stored its gauge. It is the schedule of threads that never overlap there, and easier to see in a run
than the order of the stores. -/
def Apart (s : State) : Label → Prop
  | .start => ∀ pc ∈ s.threads, pc.activeValue = none
  | .move i _ =>
    match s.threads[i]? with
    | some .started => ∀ pc ∈ s.threads, pc.activeValue = none
    | some (.casPeak _ _) => ∀ pc ∈ s.threads, pc.peakValue = none
    | _ => True

/-- A value that is stored in a gauge is that of the counter, or another thread has still to store
that gauge. -/
def Timely (s : State) : Label → Prop
  | .start => True
  | .move i _ =>
    match s.threads[i]? with
    | some (.setStarted current) | some (.setEnded current) =>
      current = s.active ∨ ∃ pc ∈ s.threads.eraseIdx i, pc.SetsActive
    | some (.setPeak current) =>
      current = s.peak ∨ ∃ pc ∈ s.threads.eraseIdx i, pc.SetsPeak s.peak
    | _ => True

/-- The thread that changed a counter last has the value that the counter has now. -/
structure Latest (s : State) : Prop where
  counted : ∀ i pc current, s.counted = some i → s.threads[i]? = some pc →
    pc.activeValue = some current → current = s.active
  raised : ∀ i pc current, s.raised = some i → s.threads[i]? = some pc →
    pc.peakValue = some current → current = s.peak

/-- A gauge that is behind is still to be stored. -/
structure Invariant (s : State) : Prop where
  active : s.activeGauge = s.active ∨ ∃ pc ∈ s.threads, pc.SetsActive
  peak : s.peakGauge = s.peak ∨ ∃ pc ∈ s.threads, pc.SetsPeak s.peak

theorem Invariant.agrees {s : State} (h : Invariant s) (hq : s.Quiescent) : s.Agrees := by
  refine ⟨h.active.resolve_right ?_, h.peak.resolve_right ?_⟩
  · rintro ⟨pc, hpc, hsets⟩
    rcases hq pc hpc with rfl | rfl
    all_goals exact hsets
  · rintro ⟨pc, hpc, hsets⟩
    rcases hq pc hpc with rfl | rfl
    all_goals exact hsets

/-! ## What a thread can do -/

/-- The steps of thread `i`, with what they leave and where the thread is then. Only two of them
change a counter; the others store a gauge or look at the peak. -/
inductive Moves (s : State) (i : Nat) : Pc → State → Pc → Prop
  | storeStarted (current : Int) :
      Moves s i (.setStarted current) { s with activeGauge := current } (.loadPeak current)
  | storeEnded (current : Int) :
      Moves s i (.setEnded current) { s with activeGauge := current } .ended
  | storePeak (current : Int) : Moves s i (.setPeak current) { s with peakGauge := current } .started
  | count : Moves s i .started { s with active := s.active - 1, counted := some i }
      (.setEnded (s.active - 1))
  | raise (current peak : Int) :
      Moves s i (.casPeak current peak) { s with peak := current, raised := some i }
        (.setPeak current)
  /-- a load, or a compare-and-swap that fails -/
  | look {pc pc' : Pc} : ¬ pc.SetsActive → pc'.activeValue = none → pc'.peakValue = none →
      (pc.SetsPeak s.peak → pc'.SetsPeak s.peak) → Moves s i pc s pc'

theorem moves_advance {weak spurious : Bool} {i : Nat} {s t : State} {pc pc' : Pc}
    (h : advance weak spurious i s pc = some (t, pc')) : Moves s i pc t pc' := by
  cases pc with
  | setStarted current =>
    obtain ⟨rfl, rfl⟩ := Prod.mk.inj (Option.some.inj h)
    exact .storeStarted current
  | loadPeak current =>
    obtain ⟨rfl, rfl⟩ := Prod.mk.inj (Option.some.inj h)
    split
    · rename_i hle
      exact .look id rfl rfl fun hlt => absurd hle (Int.not_le.mpr hlt)
    · exact .look id rfl rfl id
  | casPeak current peak =>
    rw [advance] at h
    split at h
    · obtain ⟨rfl, rfl⟩ := Prod.mk.inj (Option.some.inj h)
      exact .raise current peak
    · obtain ⟨rfl, rfl⟩ := Prod.mk.inj (Option.some.inj h)
      exact .look id rfl rfl id
  | setPeak current =>
    obtain ⟨rfl, rfl⟩ := Prod.mk.inj (Option.some.inj h)
    exact .storePeak current
  | started =>
    obtain ⟨rfl, rfl⟩ := Prod.mk.inj (Option.some.inj h)
    exact .count
  | setEnded current =>
    obtain ⟨rfl, rfl⟩ := Prod.mk.inj (Option.some.inj h)
    exact .storeEnded current
  | ended => cases h

variable {weak : Bool} {s s' : State}

theorem moves_of_step {i : Nat} {spurious : Bool} (h : step weak s (.move i spurious) = some s') :
    ∃ pc t pc', s.threads[i]? = some pc ∧ Moves s i pc t pc' ∧
      s' = { t with threads := s.threads.set i pc' } := by
  obtain ⟨pc, hpc, h⟩ := Option.bind_eq_some_iff.mp h
  obtain ⟨⟨t, pc'⟩, hadv, h⟩ := Option.bind_eq_some_iff.mp h
  exact ⟨pc, t, pc', hpc, moves_advance hadv, (Option.some.inj h).symm⟩

/-- A thread is one of those before, or it has just started. -/
theorem getElem?_start {i : Nat} {pc new : Pc} (h : (s.threads ++ [new])[i]? = some pc) :
    s.threads[i]? = some pc ∨ (i = s.threads.length ∧ pc = new) := by
  rw [List.getElem?_append] at h
  split at h
  · exact .inl h
  · obtain ⟨hlt, hget⟩ := List.getElem?_eq_some_iff.mp h
    simp only [List.length_singleton] at hlt
    exact .inr ⟨by omega, by simpa using hget.symm⟩

/-- A thread is the one that has moved, or where it was. -/
theorem getElem?_move {i j : Nat} {pc pc' : Pc} (h : (s.threads.set i pc')[j]? = some pc) :
    (i = j ∧ pc = pc') ∨ s.threads[j]? = some pc := by
  by_cases hij : i = j
  · subst hij
    obtain ⟨hlt, hget⟩ := List.getElem?_eq_some_iff.mp h
    exact .inl ⟨rfl, by rw [← hget, List.getElem_set_self]⟩
  · rw [List.getElem?_set_ne hij] at h
    exact .inr h

/-! ## What a step keeps -/

theorem invariant_start (h : Invariant s) (hs : step weak s .start = some s') : Invariant s' := by
  obtain rfl := Option.some.inj hs
  have hmem : Pc.setStarted (s.active + 1) ∈ s.threads ++ [.setStarted (s.active + 1)] :=
    List.mem_append_right _ (List.mem_singleton_self _)
  refine ⟨.inr ⟨_, hmem, trivial⟩, h.peak.imp_right ?_⟩
  rintro ⟨pc, hpc, hsets⟩
  exact ⟨pc, List.mem_append_left _ hpc, hsets⟩

/-- Among the threads after a step are the one that has moved and the others. -/
theorem exists_mem_set {threads : List Pc} {i : Nat} {pc : Pc} (P : Pc → Prop)
    (hi : i < threads.length) :
    (∃ x ∈ threads.set i pc, P x) ↔ P pc ∨ ∃ x ∈ threads.eraseIdx i, P x := by
  have hperm := List.set_perm_cons_eraseIdx hi pc
  simp only [hperm.mem_iff, List.exists_mem_cons_iff]

theorem exists_mem_get {threads : List Pc} {i : Nat} {pc : Pc} (P : Pc → Prop)
    (hi : threads[i]? = some pc) :
    (∃ x ∈ threads, P x) ↔ P pc ∨ ∃ x ∈ threads.eraseIdx i, P x := by
  obtain ⟨hlt, hget⟩ := List.getElem?_eq_some_iff.mp hi
  have hself : threads.set i pc = threads := by rw [← hget, List.set_getElem_self]
  rw [← @exists_mem_set threads i pc P hlt, hself]

theorem invariant_move {i : Nat} {spurious : Bool} (h : Invariant s)
    (ht : Timely s (.move i spurious)) (hs : step weak s (.move i spurious) = some s') :
    Invariant s' := by
  obtain ⟨pc, t, pc', hpc, hmoves, rfl⟩ := moves_of_step hs
  obtain ⟨hlt, -⟩ := List.getElem?_eq_some_iff.mp hpc
  obtain ⟨hactive, hpeak⟩ := h
  rw [exists_mem_get _ hpc] at hactive hpeak
  simp only [Timely, hpc] at ht
  -- what is said of the gauges behind the step, with the thread that has moved in front
  suffices hnew : (t.activeGauge = t.active ∨ pc'.SetsActive ∨
      ∃ x ∈ s.threads.eraseIdx i, x.SetsActive) ∧ (t.peakGauge = t.peak ∨ pc'.SetsPeak t.peak ∨
        ∃ x ∈ s.threads.eraseIdx i, x.SetsPeak t.peak) by
    exact ⟨by rw [exists_mem_set _ hlt]; exact hnew.1, by rw [exists_mem_set _ hlt]; exact hnew.2⟩
  cases hmoves with
  | storeStarted current => exact ⟨ht.imp_right .inr, hpeak⟩
  | storeEnded current => exact ⟨ht.imp_right .inr, hpeak⟩
  | storePeak current => exact ⟨hactive, ht.imp_right .inr⟩
  | count => exact ⟨.inr (.inl trivial), hpeak⟩
  | raise current peak => exact ⟨hactive, .inr (.inl trivial)⟩
  | look hno _ _ hkept =>
    exact ⟨hactive.imp_right fun h => .inr (h.resolve_left hno),
      hpeak.imp_right fun h => h.imp_left hkept⟩

theorem latest_start (h : Latest s) (hs : step weak s .start = some s') : Latest s' := by
  obtain rfl := Option.some.inj hs
  constructor
  · intro i pc current hi hpc hvalue
    obtain rfl := Option.some.inj hi
    obtain rfl := Option.some.inj (List.getElem?_concat_length.symm.trans hpc)
    exact (Option.some.inj hvalue).symm
  · intro i pc current hi hpc hvalue
    rcases getElem?_start hpc with hold | ⟨-, rfl⟩
    · exact h.raised i pc current hi hold hvalue
    · cases hvalue

/-- A thread that moves leaves a counter as it is, and has nothing to store in its gauge, or it has
changed the counter and is to store the value it has left there. -/
theorem latest_set {i : Nat} {pc' : Pc} (h : Latest s) (hi : i < s.threads.length)
    (hthreads : s'.threads = s.threads.set i pc')
    (hcounted : (s'.counted = s.counted ∧ s'.active = s.active ∧ pc'.activeValue = none) ∨
      (s'.counted = some i ∧ pc'.activeValue = some s'.active))
    (hraised : (s'.raised = s.raised ∧ s'.peak = s.peak ∧ pc'.peakValue = none) ∨
      (s'.raised = some i ∧ pc'.peakValue = some s'.peak)) : Latest s' := by
  have hself : ∀ {pc}, s'.threads[i]? = some pc → pc = pc' := by
    intro pc hpc
    rw [hthreads, List.getElem?_set_self hi] at hpc
    exact (Option.some.inj hpc).symm
  constructor
  · intro j pc current hj hpc hvalue
    rcases hcounted with ⟨hsame, hactive, hnone⟩ | ⟨hnew, hsome⟩
    · rcases getElem?_move (hthreads ▸ hpc) with ⟨-, rfl⟩ | hold
      · cases hnone.symm.trans hvalue
      · rw [hactive]
        exact h.counted j pc current (hsame ▸ hj) hold hvalue
    · obtain rfl := Option.some.inj (hnew.symm.trans hj)
      obtain rfl := hself hpc
      exact (Option.some.inj (hsome.symm.trans hvalue)).symm
  · intro j pc current hj hpc hvalue
    rcases hraised with ⟨hsame, hpeak, hnone⟩ | ⟨hnew, hsome⟩
    · rcases getElem?_move (hthreads ▸ hpc) with ⟨-, rfl⟩ | hold
      · cases hnone.symm.trans hvalue
      · rw [hpeak]
        exact h.raised j pc current (hsame ▸ hj) hold hvalue
    · obtain rfl := Option.some.inj (hnew.symm.trans hj)
      obtain rfl := hself hpc
      exact (Option.some.inj (hsome.symm.trans hvalue)).symm

theorem latest_move {i : Nat} {spurious : Bool} (h : Latest s)
    (hs : step weak s (.move i spurious) = some s') : Latest s' := by
  obtain ⟨pc, t, pc', hpc, hmoves, rfl⟩ := moves_of_step hs
  obtain ⟨hlt, -⟩ := List.getElem?_eq_some_iff.mp hpc
  apply latest_set h hlt rfl
  · cases hmoves with
    | count => exact .inr ⟨rfl, rfl⟩
    | look _ hactive _ _ => exact .inl ⟨rfl, rfl, hactive⟩
    | _ => exact .inl ⟨rfl, rfl, rfl⟩
  · cases hmoves with
    | raise current peak => exact .inr ⟨rfl, rfl⟩
    | look _ _ hpeak _ => exact .inl ⟨rfl, rfl, hpeak⟩
    | _ => exact .inl ⟨rfl, rfl, rfl⟩

theorem latest_of_reachable {C : State → Label → Prop} (h : (system weak).ReachableIf C s) :
    Latest s := by
  refine h.invariant ?_ ?_
  · rintro s rfl
    exact ⟨by simp [State.zero], by simp [State.zero]⟩
  · rintro s a s' hinv - hs
    cases a with
    | start => exact @latest_start weak s s' hinv hs
    | move i spurious => exact @latest_move weak s s' i spurious hinv hs

/-- The thread that changed the counter last stores the value the counter has. -/
theorem Latest.timely {a : Label} (h : Latest s) (ho : InOrder s a) : Timely s a := by
  cases a with
  | start => trivial
  | move i spurious =>
    cases hpc : s.threads[i]? with
    | none => simp only [Timely, hpc]
    | some pc =>
      simp only [InOrder, Timely, hpc] at ho ⊢
      cases pc with
      | setStarted current => exact ho.imp_left fun hi => h.counted i _ _ hi hpc rfl
      | setEnded current => exact ho.imp_left fun hi => h.counted i _ _ hi hpc rfl
      | setPeak current => exact ho.imp_left fun hi => h.raised i _ _ hi hpc rfl
      | _ => trivial

/-- **The invariant of the runs** whose steps all meet the condition, by induction on the run. The
condition is used at the stores only; the other steps keep the invariant whatever the order. -/
theorem invariant_of_reachable (h : (system weak).ReachableIf InOrder s) : Invariant s := by
  refine h.invariant_of (fun _ => latest_of_reachable) ?_ ?_
  · rintro s rfl
    exact ⟨.inl rfl, .inl rfl⟩
  · rintro s a s' hlatest hinv ho hs
    cases a with
    | start => exact @invariant_start weak s s' hinv hs
    | move i spurious => exact @invariant_move weak s s' i spurious hinv (hlatest.timely ho) hs

/-- **The gauges agree with the counters** whenever no thread counts itself in or out. -/
theorem agrees_of_reachable (h : (system weak).ReachableIf InOrder s) (hq : s.Quiescent) :
    s.Agrees := (invariant_of_reachable h).agrees hq

/-! ## Threads that count one after the other -/

/-- Only the thread that changed a counter last has still to store its gauge. -/
structure Single (s : State) : Prop where
  counted : ∀ i pc, s.threads[i]? = some pc → pc.activeValue ≠ none → s.counted = some i
  raised : ∀ i pc, s.threads[i]? = some pc → pc.peakValue ≠ none → s.raised = some i

theorem single_start (h : Single s) (ha : Apart s .start) (hs : step weak s .start = some s') :
    Single s' := by
  obtain rfl := Option.some.inj hs
  constructor
  · intro i pc hpc hvalue
    rcases getElem?_start hpc with hold | ⟨rfl, -⟩
    · exact absurd (ha pc (List.mem_of_getElem? hold)) hvalue
    · rfl
  · intro i pc hpc hvalue
    rcases getElem?_start hpc with hold | ⟨-, rfl⟩
    · exact h.raised i pc hold hvalue
    · exact absurd rfl hvalue

/-- A thread that moves has nothing to store afterwards, or no other thread has. -/
theorem single_set {i : Nat} {pc' : Pc} (h : Single s)
    (hthreads : s'.threads = s.threads.set i pc')
    (hcounted : (s'.counted = s.counted ∧ pc'.activeValue = none) ∨
      (s'.counted = some i ∧ ∀ pc ∈ s.threads, pc.activeValue = none))
    (hraised : (s'.raised = s.raised ∧ pc'.peakValue = none) ∨
      (s'.raised = some i ∧ ∀ pc ∈ s.threads, pc.peakValue = none)) : Single s' := by
  constructor
  · intro j pc hpc hvalue
    rcases getElem?_move (hthreads ▸ hpc) with ⟨rfl, rfl⟩ | hold
    · rcases hcounted with ⟨-, hnone⟩ | ⟨hnew, -⟩
      · exact absurd hnone hvalue
      · exact hnew
    · rcases hcounted with ⟨hsame, -⟩ | ⟨-, hnone⟩
      · rw [hsame]
        exact h.counted j pc hold hvalue
      · exact absurd (hnone pc (List.mem_of_getElem? hold)) hvalue
  · intro j pc hpc hvalue
    rcases getElem?_move (hthreads ▸ hpc) with ⟨rfl, rfl⟩ | hold
    · rcases hraised with ⟨-, hnone⟩ | ⟨hnew, -⟩
      · exact absurd hnone hvalue
      · exact hnew
    · rcases hraised with ⟨hsame, -⟩ | ⟨-, hnone⟩
      · rw [hsame]
        exact h.raised j pc hold hvalue
      · exact absurd (hnone pc (List.mem_of_getElem? hold)) hvalue

theorem single_move {i : Nat} {spurious : Bool} (h : Single s) (ha : Apart s (.move i spurious))
    (hs : step weak s (.move i spurious) = some s') : Single s' := by
  obtain ⟨pc, t, pc', hpc, hmoves, rfl⟩ := moves_of_step hs
  simp only [Apart, hpc] at ha
  apply single_set h rfl
  · cases hmoves with
    | count => exact .inr ⟨rfl, ha⟩
    | look _ hactive _ _ => exact .inl ⟨rfl, hactive⟩
    | _ => exact .inl ⟨rfl, rfl⟩
  · cases hmoves with
    | raise current peak => exact .inr ⟨rfl, ha⟩
    | look _ _ hpeak _ => exact .inl ⟨rfl, hpeak⟩
    | _ => exact .inl ⟨rfl, rfl⟩

/-- The one thread that has still to store a gauge stores it in order. -/
theorem Single.inOrder {a : Label} (h : Single s) : InOrder s a := by
  cases a with
  | start => trivial
  | move i spurious =>
    cases hpc : s.threads[i]? with
    | none => simp only [InOrder, hpc]
    | some pc =>
      simp only [InOrder, hpc]
      cases pc with
      | setStarted current => exact .inl (h.counted i _ hpc (Option.some_ne_none current))
      | setEnded current => exact .inl (h.counted i _ hpc (Option.some_ne_none current))
      | setPeak current => exact .inl (h.raised i _ hpc (Option.some_ne_none current))
      | _ => trivial

/-- **Threads that never overlap** between the change of a counter and the store of its gauge store
the gauges in order. -/
theorem inOrder_of_apart (h : (system weak).ReachableIf Apart s) :
    (system weak).ReachableIf InOrder s := by
  have hsingle : ∀ {s}, (system weak).ReachableIf Apart s → Single s := by
    intro s h
    refine h.invariant ?_ ?_
    · rintro s rfl
      exact ⟨by simp [State.zero], by simp [State.zero]⟩
    · rintro s a s' hinv ha hs
      cases a with
      | start => exact @single_start weak s s' hinv ha hs
      | move i spurious => exact @single_move weak s s' i spurious hinv ha hs
  induction h with
  | init h0 => exact .init h0
  | step hr _ hs ih => exact ih.step (hsingle hr).inOrder hs

end SocketHandoff.PeakGauge
