import SocketHandoff.Lib.PeakGauge

/-!
# The gauges of the streams

Both daemons count their streams in the same way: the Go daemon in `handleConnection`, the Rust
daemon in `record_stream_start` and `record_stream_end`. A stream is a thread of `PeakGauge`.
-/

namespace SocketHandoff

open PeakGauge

/-- `activeStreams` and `peakStreams` of the Go daemon, with their gauges; a thread is at `started`
while `streamToClientWithBytes` runs, and the deferred function follows. -/
def Go.streamAccounting : System PeakGauge.State PeakGauge.Label := PeakGauge.system false

/-- `ACTIVE_STREAMS` and `PEAK_STREAMS` of the Rust daemon, with `daemon_active_streams` and
`daemon_peak_streams`: `compare_exchange_weak` may fail spuriously. -/
def Rust.recordStreams : System PeakGauge.State PeakGauge.Label := PeakGauge.system true

/-- **The gauges agree with the counters** in both daemons, in every run in which the threads store
the gauges in order: the one that changed a counter last stores its gauge last. -/
theorem Rust.gauges_agree (s : PeakGauge.State) :
    (Go.streamAccounting.ReachableIf InOrder s → s.Quiescent → s.Agrees) ∧
      (Rust.recordStreams.ReachableIf InOrder s → s.Quiescent → s.Agrees) :=
  ⟨agrees_of_reachable, agrees_of_reachable⟩

/-- In particular they agree where no two threads are between the change of a counter and the store
of its gauge at the same time. -/
theorem Rust.gauges_agree_apart (s : PeakGauge.State) :
    (Go.streamAccounting.ReachableIf Apart s → s.Quiescent → s.Agrees) ∧
      (Rust.recordStreams.ReachableIf Apart s → s.Quiescent → s.Agrees) :=
  ⟨fun h => agrees_of_reachable (inOrder_of_apart h),
    fun h => agrees_of_reachable (inOrder_of_apart h)⟩

/-- Two streams start together. Both have counted themselves in before the first one stores the
gauge, and the second one finds the peak raised. -/
theorem Rust.gauges_agree_two : (⟨2, 2, 2, 2, [.started, .started], some 1, some 1⟩ : State).Agrees := by
  have hinit : Rust.recordStreams.ReachableIf InOrder .zero := .init rfl
  have hadd : Rust.recordStreams.ReachableIf InOrder
      ⟨1, 0, 0, 0, [.setStarted 1], some 0, none⟩ := hinit.step (a := .start) trivial rfl
  have hadd₂ : Rust.recordStreams.ReachableIf InOrder
      ⟨2, 0, 0, 0, [.setStarted 1, .setStarted 2], some 1, none⟩ :=
    hadd.step (a := .start) trivial rfl
  have hset : Rust.recordStreams.ReachableIf InOrder
      ⟨2, 0, 1, 0, [.loadPeak 1, .setStarted 2], some 1, none⟩ :=
    hadd₂.step (a := .move 0 false) (by simp [InOrder, Pc.SetsActive]) rfl
  have hset₂ : Rust.recordStreams.ReachableIf InOrder
      ⟨2, 0, 2, 0, [.loadPeak 1, .loadPeak 2], some 1, none⟩ :=
    hset.step (a := .move 1 false) (by simp [InOrder]) rfl
  have hload : Rust.recordStreams.ReachableIf InOrder
      ⟨2, 0, 2, 0, [.casPeak 1 0, .loadPeak 2], some 1, none⟩ :=
    hset₂.step (a := .move 0 false) (by simp [InOrder]) rfl
  have hload₂ : Rust.recordStreams.ReachableIf InOrder
      ⟨2, 0, 2, 0, [.casPeak 1 0, .casPeak 2 0], some 1, none⟩ :=
    hload.step (a := .move 1 false) (by simp [InOrder]) rfl
  have hcas : Rust.recordStreams.ReachableIf InOrder
      ⟨2, 1, 2, 0, [.setPeak 1, .casPeak 2 0], some 1, some 0⟩ :=
    hload₂.step (a := .move 0 false) (by simp [InOrder]) rfl
  have hmiss : Rust.recordStreams.ReachableIf InOrder
      ⟨2, 1, 2, 0, [.setPeak 1, .loadPeak 2], some 1, some 0⟩ :=
    hcas.step (a := .move 1 false) (by simp [InOrder]) rfl
  have hpeak : Rust.recordStreams.ReachableIf InOrder
      ⟨2, 1, 2, 1, [.started, .loadPeak 2], some 1, some 0⟩ :=
    hmiss.step (a := .move 0 false) (by simp [InOrder]) rfl
  have hagain : Rust.recordStreams.ReachableIf InOrder
      ⟨2, 1, 2, 1, [.started, .casPeak 2 1], some 1, some 0⟩ :=
    hpeak.step (a := .move 1 false) (by simp [InOrder]) rfl
  have hcas₂ : Rust.recordStreams.ReachableIf InOrder
      ⟨2, 2, 2, 1, [.started, .setPeak 2], some 1, some 1⟩ :=
    hagain.step (a := .move 1 false) (by simp [InOrder]) rfl
  have hpeak₂ : Rust.recordStreams.ReachableIf InOrder
      ⟨2, 2, 2, 2, [.started, .started], some 1, some 1⟩ :=
    hcas₂.step (a := .move 1 false) (by simp [InOrder]) rfl
  exact (Rust.gauges_agree _).2 hpeak₂ fun _ hpc => .inl (List.eq_of_mem_replicate (n := 2) hpc)

/-- Two streams start, and the second one stores the gauge first. -/
def crossing : List PeakGauge.Label :=
  [.start, .start, .move 1 false, .move 0 false, .move 1 false, .move 1 false, .move 1 false,
    .move 0 false]

/-- Both streams have started. The gauge says that there is one. -/
theorem Rust.gauges_disagree :
    ¬ ∀ s : PeakGauge.State, (Go.streamAccounting.Reachable s → s.Quiescent → s.Agrees) ∧
      (Rust.recordStreams.Reachable s → s.Quiescent → s.Agrees) := by
  intro h
  have hrun : Go.streamAccounting.run .zero crossing =
      some ⟨2, 2, 1, 2, [.started, .started], some 1, some 1⟩ := by decide
  have hreach : Go.streamAccounting.Reachable
      ⟨2, 2, 1, 2, [.started, .started], some 1, some 1⟩ :=
    System.Reachable.run (.init rfl) crossing hrun
  have hquiet : State.Quiescent ⟨2, 2, 1, 2, [.started, .started], some 1, some 1⟩ := by
    intro pc hpc
    exact .inl (List.eq_of_mem_replicate (n := 2) hpc)
  have hagrees := (h _).1 hreach hquiet
  exact absurd hagrees.1 (by decide)

end SocketHandoff
