import SocketHandoff.Go.ErrorEvent

/-!
# What the proxy passes on, and what it counts

The loop of `proxySSE` with its connection and its counters: every chunk is searched for blank lines
before it is written, and the search goes on in the next chunk where it stopped. However the reads
cut the stream, the client gets it from the front as far as the writes go, and the events that are
counted are those of the bytes that were read.
-/

namespace SocketHandoff.Go

/-! ## The loop -/

/-- A `net.Conn`, by its answers to its `n`th call: `Write` returns an error on any short write. -/
structure NetConn where
  setWriteDeadline : Nat → Option GoError
  write : Nat → List UInt8 → Nat × Option GoError
  write_le : ∀ n p, (write n p).1 ≤ p.length
  write_full : ∀ n p, (write n p).2 = none → (write n p).1 = p.length

/-- The client accepts all writes. -/
structure NetConn.Accepting (conn : NetConn) : Prop where
  setWriteDeadline : ∀ n, conn.setWriteDeadline n = none
  write : ∀ n p, (conn.write n p).2 = none

/-- What `proxySSE` has done. -/
structure Proxied where
  totalBytes : Int
  /-- consecutive line feeds, without regard to carriage returns -/
  newlines : Nat
  /-- the calls of `RecordChunkSent` -/
  chunksSent : Nat
  /-- the calls of the connection -/
  calls : Nat
  /-- what the client has been sent -/
  received : List UInt8
  /-- what has been read from the upstream -/
  read : List UInt8

def Proxied.start : Proxied := ⟨0, 0, 0, 0, [], []⟩

/-- The loop over the bytes of a chunk: `newlines` after it, and the calls of `RecordChunkSent`. -/
def countBoundaries (newlines : Nat) : List UInt8 → Nat × Nat
  | [] => (newlines, 0)
  | b :: rest =>
    if b = 10 then
      if newlines + 1 ≥ 2 then
        let r := countBoundaries 0 rest
        (r.1, r.2 + 1)
      else countBoundaries (newlines + 1) rest
    else if b = 13 then countBoundaries newlines rest
    else countBoundaries 0 rest

/-- `WriteSSE`. -/
def NetConn.writeSSE (conn : NetConn) (s : Proxied) (frame : List UInt8) :
    (Nat × Option GoError) × Proxied :=
  match conn.setWriteDeadline s.calls with
  | some err => ((0, some err), { s with calls := s.calls + 1 })
  | none =>
    let r := conn.write (s.calls + 1) frame
    (r, { s with calls := s.calls + 2, received := s.received ++ frame.take r.1 })

/-- What is done with the bytes of a read, and the error of the write. -/
def NetConn.copyChunk (conn : NetConn) (s : Proxied) (chunk : List UInt8) :
    Option GoError × Proxied :=
  if chunk = [] then (none, s)
  else
    let counted := countBoundaries s.newlines chunk
    let w := conn.writeSSE { s with
      newlines := counted.1
      chunksSent := s.chunksSent + counted.2
      read := s.read ++ chunk } chunk
    (w.1.2, { w.2 with totalBytes := w.2.totalBytes + w.1.1 })

/-- `proxySSE`: the error that it returns, and what it has done. -/
def NetConn.proxySSE (conn : NetConn) (s : Proxied) : Upstream → Option GoError × Proxied
  | .done err => (some err.error, s)
  | .read chunk rest =>
    match conn.copyChunk s chunk with
    | (some err, s) => (some err, s)
    | (none, s) => conn.proxySSE s rest
  | .last chunk readEnd ctxErr =>
    match conn.copyChunk s chunk with
    | (some err, s) => (some err, s)
    | (none, s) =>
      match readEnd with
      | .eof => (none, s)
      | .failed err => (some ((ctxErr.map CtxErr.error).getD err), s)

/-! ## The loop, as the backend -/

/-- The code of a backend on a connection: what it returns, unless it panics, and what the client has
been sent. -/
def Backend.on (conn : NetConn) (calls : Nat) (received : List UInt8) :
    Backend → Option (Int × Option GoError) × List UInt8
  | .ret bodyBytes err => (some (bodyBytes, err), received)
  | .panic => (none, received)
  | .setWriteDeadline next =>
    (next (conn.setWriteDeadline calls)).on conn (calls + 1) received
  | .write p next =>
    (next (conn.write calls p)).on conn (calls + 1) (received ++ p.take (conn.write calls p).1)

/-! ## The statement -/

/-- What a run of `proxySSE` passes on and counts. The last part compares two upstreams with the
same bytes, because the reads cut a stream where they like. -/
structure Relays (conn : NetConn) (up : Upstream) : Prop where
  /-- a client that accepts all writes gets the whole stream, if it ends normally -/
  whole : conn.Accepting → up.failure = none →
    (conn.proxySSE .start up).1 = none ∧ (conn.proxySSE .start up).2.received = up.bytes ∧
      (conn.proxySSE .start up).2.totalBytes = up.bytes.length
  /-- any other client gets so much of it as the returned total says -/
  front : (conn.proxySSE .start up).2.received <+: up.bytes ∧
    (conn.proxySSE .start up).2.totalBytes = (conn.proxySSE .start up).2.received.length
  /-- the events that are counted are those of the bytes that were read -/
  counted : (conn.proxySSE .start up).2.read <+: up.bytes ∧
    (conn.proxySSE .start up).2.chunksSent =
      (countBoundaries 0 (conn.proxySSE .start up).2.read).2
  /-- they do not depend on the cuts -/
  uncut : conn.Accepting → ∀ up' : Upstream, up'.bytes = up.bytes →
    (conn.proxySSE .start up').2.chunksSent = (conn.proxySSE .start up).2.chunksSent

variable {conn : NetConn} {s : Proxied} {chunk : List UInt8} {up : Upstream}

theorem on_relay_none {s' : Proxied} (h : conn.copyChunk s chunk = (none, s')) (next : Int → Backend) :
    (relay s.totalBytes chunk next).on conn s.calls s.received =
      (next s'.totalBytes).on conn s'.calls s'.received := by
  rw [NetConn.copyChunk] at h
  rw [relay]
  split at h
  · rename_i hchunk
    cases h
    rw [if_pos hchunk]
  · rename_i hchunk
    rw [if_neg hchunk, Backend.on]
    simp only [NetConn.writeSSE] at h
    cases hdeadline : conn.setWriteDeadline s.calls with
    | some err =>
      rw [hdeadline] at h
      cases h
    | none =>
      simp only [hdeadline] at h
      obtain ⟨hwrite, rfl⟩ := Prod.mk.inj h
      simp only [Backend.on, hwrite]

theorem on_relay_some {s' : Proxied} {err : GoError} (h : conn.copyChunk s chunk = (some err, s'))
    (next : Int → Backend) :
    (relay s.totalBytes chunk next).on conn s.calls s.received =
      (some (s'.totalBytes, some err), s'.received) := by
  rw [NetConn.copyChunk] at h
  rw [relay]
  split at h
  · cases h
  · rename_i hchunk
    rw [if_neg hchunk, Backend.on]
    simp only [NetConn.writeSSE] at h
    cases hdeadline : conn.setWriteDeadline s.calls with
    | some err' =>
      simp only [hdeadline] at h
      obtain ⟨herr, rfl⟩ := Prod.mk.inj h
      cases herr
      simp [Backend.on]
    | none =>
      simp only [hdeadline] at h
      obtain ⟨hwrite, rfl⟩ := Prod.mk.inj h
      simp only [Backend.on, hwrite]

/-- **The loop with its counters** is the backend, as far as the client and the daemon see it. -/
theorem on_proxySSE (conn : NetConn) (s : Proxied) (up : Upstream) :
    (proxySSE s.totalBytes up).on conn s.calls s.received =
      (some ((conn.proxySSE s up).2.totalBytes, (conn.proxySSE s up).1),
        (conn.proxySSE s up).2.received) := by
  induction up generalizing s with
  | done err => rfl
  | read chunk rest ih =>
    rw [proxySSE, NetConn.proxySSE]
    cases hcopy : conn.copyChunk s chunk with
    | mk err s' =>
      cases err with
      | some err => rw [on_relay_some hcopy]
      | none => rw [on_relay_none hcopy, ih]
  | last chunk readEnd ctxErr =>
    rw [proxySSE, NetConn.proxySSE]
    cases hcopy : conn.copyChunk s chunk with
    | mk err s' =>
      cases err with
      | some err => rw [on_relay_some hcopy]
      | none =>
        rw [on_relay_none hcopy]
        cases readEnd <;> rfl

/-! ## The boundaries -/

/-- **The search for blank lines** goes on where it stopped. -/
theorem countBoundaries_append (newlines : Nat) (first second : List UInt8) :
    countBoundaries newlines (first ++ second) =
      ((countBoundaries (countBoundaries newlines first).1 second).1,
        (countBoundaries newlines first).2 +
          (countBoundaries (countBoundaries newlines first).1 second).2) := by
  induction first generalizing newlines with
  | nil => simp [countBoundaries]
  | cons b first ih =>
    rw [List.cons_append, countBoundaries, countBoundaries]
    by_cases hlf : b = 10
    · by_cases htwo : newlines + 1 ≥ 2
      · simp only [if_pos hlf, if_pos htwo, ih, Prod.mk.injEq, true_and]
        omega
      · simp only [if_pos hlf, if_neg htwo, ih]
    · by_cases hcr : b = 13
      · simp only [if_neg hlf, if_pos hcr, ih]
      · simp only [if_neg hlf, if_neg hcr, ih]

/-! ## The invariant -/

/-- The client has been sent the front of what was read, and the counters are those of what was sent
and read: the bytes of the one, the events of the other. -/
structure Proxied.Faithful (s : Proxied) : Prop where
  received : s.received <+: s.read
  totalBytes : s.totalBytes = s.received.length
  counted : (s.newlines, s.chunksSent) = countBoundaries 0 s.read

/-- Everything that was read has been sent. -/
structure Proxied.Complete (s : Proxied) : Prop extends Proxied.Faithful s where
  all : s.received = s.read

theorem Proxied.start_complete : Proxied.start.Complete :=
  ⟨⟨List.prefix_refl _, rfl, rfl⟩, rfl⟩

variable (conn) in
/-- What a chunk is read into. -/
theorem NetConn.copyChunk_spec (hs : s.Complete) (chunk : List UInt8) :
    (conn.copyChunk s chunk).2.Faithful ∧ (conn.copyChunk s chunk).2.read = s.read ++ chunk ∧
      ((conn.copyChunk s chunk).1 = none → (conn.copyChunk s chunk).2.Complete) := by
  rw [NetConn.copyChunk]
  split
  · rename_i hchunk
    rw [hchunk, List.append_nil]
    exact ⟨hs.toFaithful, rfl, fun _ => hs⟩
  · have hcounted : ((countBoundaries s.newlines chunk).1,
        s.chunksSent + (countBoundaries s.newlines chunk).2) =
          countBoundaries 0 (s.read ++ chunk) := by
      rw [countBoundaries_append, ← hs.counted]
    simp only [NetConn.writeSSE]
    cases conn.setWriteDeadline s.calls with
    | some err =>
      refine ⟨⟨?_, by simp [hs.totalBytes], hcounted⟩, rfl, fun h => by cases h⟩
      exact hs.received.trans (List.prefix_append _ _)
    | none =>
      have hle := conn.write_le (s.calls + 1) chunk
      have hlength : (chunk.take (conn.write (s.calls + 1) chunk).1).length =
          (conn.write (s.calls + 1) chunk).1 := by
        rw [List.length_take, Nat.min_eq_left hle]
      have hfaithful : Proxied.Faithful { s with
          calls := s.calls + 2
          newlines := (countBoundaries s.newlines chunk).1
          chunksSent := s.chunksSent + (countBoundaries s.newlines chunk).2
          read := s.read ++ chunk
          received := s.received ++ chunk.take (conn.write (s.calls + 1) chunk).1
          totalBytes := s.totalBytes + (conn.write (s.calls + 1) chunk).1 } := by
        refine ⟨?_, ?_, hcounted⟩
        · rw [hs.all]
          exact (List.prefix_append_right_inj _).mpr (List.take_prefix _ _)
        · simp only [List.length_append, hlength, hs.totalBytes, Int.natCast_add]
      refine ⟨hfaithful, rfl, fun hwrite => ⟨hfaithful, ?_⟩⟩
      simp only at hwrite ⊢
      rw [conn.write_full _ _ hwrite, List.take_length, hs.all]

/-- **A run**: what it has done when it returns. Whatever the connection takes, what was read is the
upstream's bytes from the front, what was sent is a front of what was read, and the counters are
those of the two. -/
theorem NetConn.proxySSE_spec (hs : s.Complete) (up : Upstream) :
    (conn.proxySSE s up).2.Faithful ∧
      ∃ seen, seen <+: up.bytes ∧ (conn.proxySSE s up).2.read = s.read ++ seen := by
  induction up generalizing s with
  | done err => exact ⟨hs.toFaithful, [], List.nil_prefix, (List.append_nil _).symm⟩
  | read chunk rest ih =>
    obtain ⟨hfaithful, hread, hcomplete⟩ := copyChunk_spec conn hs chunk
    rw [NetConn.proxySSE, Upstream.bytes]
    cases hcopy : conn.copyChunk s chunk with
    | mk err s' =>
      rw [hcopy] at hfaithful hread hcomplete
      cases err with
      | some err => exact ⟨hfaithful, chunk, List.prefix_append _ _, hread⟩
      | none =>
        obtain ⟨hfaithful', seen, hseen, hread'⟩ := ih (hcomplete rfl)
        refine ⟨hfaithful', chunk ++ seen, (List.prefix_append_right_inj _).mpr hseen, ?_⟩
        simp only at hread
        rw [hread', hread, List.append_assoc]
  | last chunk readEnd ctxErr =>
    obtain ⟨hfaithful, hread, -⟩ := copyChunk_spec conn hs chunk
    rw [NetConn.proxySSE, Upstream.bytes]
    cases hcopy : conn.copyChunk s chunk with
    | mk err s' =>
      rw [hcopy] at hfaithful hread
      refine ⟨?_, chunk, List.prefix_refl _, ?_⟩
      · cases err <;> cases readEnd <;> exact hfaithful
      · cases err <;> cases readEnd <;> exact hread

theorem NetConn.Accepting.copyChunk (h : conn.Accepting) (s : Proxied) (chunk : List UInt8) :
    (conn.copyChunk s chunk).1 = none := by
  rw [NetConn.copyChunk]
  split
  · rfl
  · simp only [NetConn.writeSSE, h.setWriteDeadline, h.write]

/-- **A run for a client that accepts all writes** comes to the end of the upstream. -/
theorem NetConn.Accepting.proxySSE (h : conn.Accepting) (hs : s.Complete) (up : Upstream) :
    (conn.proxySSE s up).1 = up.failure ∧ (conn.proxySSE s up).2.Complete ∧
      (conn.proxySSE s up).2.read = s.read ++ up.bytes := by
  induction up generalizing s with
  | done err => exact ⟨rfl, hs, (List.append_nil _).symm⟩
  | read chunk rest ih =>
    obtain ⟨-, hread, hcomplete⟩ := copyChunk_spec conn hs chunk
    have hnone := h.copyChunk s chunk
    rw [NetConn.proxySSE, Upstream.bytes, Upstream.failure]
    cases hcopy : conn.copyChunk s chunk with
    | mk err s' =>
      rw [hcopy] at hread hcomplete hnone
      obtain rfl : err = none := hnone
      obtain ⟨hfailure, hcomplete', hread'⟩ := ih (hcomplete rfl)
      refine ⟨hfailure, hcomplete', ?_⟩
      simp only at hread
      rw [hread', hread, List.append_assoc]
  | last chunk readEnd ctxErr =>
    obtain ⟨-, hread, hcomplete⟩ := copyChunk_spec conn hs chunk
    have hnone := h.copyChunk s chunk
    rw [NetConn.proxySSE, Upstream.bytes]
    cases hcopy : conn.copyChunk s chunk with
    | mk err s' =>
      rw [hcopy] at hread hcomplete hnone
      obtain rfl : err = none := hnone
      cases readEnd <;> exact ⟨rfl, hcomplete rfl, hread⟩

/-- **The proxy relays the stream as it is**, however the reads cut it, and as far as the client takes
it; what it counts does not depend on the cuts. -/
theorem proxySSE_relays (conn : NetConn) (up : Upstream) : Relays conn up := by
  obtain ⟨hfaithful, seen, hseen, hread⟩ := conn.proxySSE_spec Proxied.start_complete up
  have hseen' : (conn.proxySSE .start up).2.read <+: up.bytes := by
    rw [hread]
    exact hseen
  refine ⟨fun h hnone => ?_, ⟨hfaithful.received.trans hseen', hfaithful.totalBytes⟩,
    ⟨hseen', congrArg Prod.snd hfaithful.counted⟩, fun h up' hbytes => ?_⟩
  · obtain ⟨hfailure, hcomplete, hall⟩ := h.proxySSE Proxied.start_complete up
    have hreceived : (conn.proxySSE .start up).2.received = up.bytes := hcomplete.all.trans hall
    refine ⟨hfailure.trans hnone, hreceived, ?_⟩
    rw [hcomplete.totalBytes, hreceived]
  · -- both runs have read the same bytes
    obtain ⟨-, hcomplete, hall⟩ := h.proxySSE Proxied.start_complete up
    obtain ⟨-, hcomplete', hall'⟩ := h.proxySSE Proxied.start_complete up'
    have hcounted := congrArg Prod.snd hcomplete.counted
    have hcounted' := congrArg Prod.snd hcomplete'.counted
    simp only at hcounted hcounted'
    rw [hcounted, hcounted', hall, hall', hbytes]

end SocketHandoff.Go
