import SocketHandoff.Swoole.Pool

/-!
# The capacity of the Swoole pool

What `acquire` promises about streams and connections. It counts the streams that are registered on
a connection, and so keeps to `maxStreamsPerConn` as long as nothing else is on the connection; it is
a request that is still in `send` that it overlooks. And the pool is refused to a request for nothing
exactly while it keeps a connection that is dead.
-/

namespace SocketHandoff.Swoole

variable {cfg : Config} {s s' : Pool} {label : Label} {r r' : Request} {t i : Nat}

/-! ## Requests on a connection -/

/-- The request has been handed to `send` on the connection, and is not unregistered yet. -/
def Request.on (i : Nat) : Request → Bool
  | .sending j | .registered j => j = i
  | _ => false

/-- The requests on a connection. -/
def Pool.outstanding (s : Pool) (i : Nat) : Nat := s.requests.countP (Request.on i)

/-- No connection has more requests than it may. -/
def Pool.Capped (cfg : Config) (s : Pool) : Prop :=
  ∀ i < s.connections.length, s.outstanding i ≤ cfg.maxStreamsPerConn

/-- The connection to which a step hands a request. -/
def handsTo (cfg : Config) (s : Pool) : Label → Option Nat
  | .acquire _ => s.find cfg
  | .connect _ true => some s.connections.length
  | _ => none

/-- The requests that are still in `send` on a connection. -/
def Pool.sending (s : Pool) (i : Nat) : Nat := s.requests.countP (· = .sending i)

/-- The requests that are registered on a connection. -/
def Pool.registered (s : Pool) (i : Nat) : Nat := s.requests.countP (· = .registered i)

/-- **The condition on the order of the steps**: an `acquire` that finds a connection comes when no
call is suspended in `send` on it, so that `hasCapacity` counts all that is there; and a connection
may have a request at all. -/
def Alone (cfg : Config) (s : Pool) : Label → Prop
  | .acquire _ => ∀ i, s.find cfg = some i → s.sending i = 0
  | .connect _ true => 0 < cfg.maxStreamsPerConn
  | _ => True

/-- There is room for a request that is handed to a connection: the streams of the connection and
the requests that are still in `send` on it are fewer than it may have. This is what `hasCapacity`
would have to say; it counts the streams alone. -/
def Spaced (cfg : Config) (s : Pool) : Label → Prop
  | .acquire _ => ∀ i c, s.find cfg = some i → s.connections[i]? = some c →
      c.activeStreams + s.sending i < cfg.maxStreamsPerConn
  | .connect _ true => 0 < cfg.maxStreamsPerConn
  | _ => True

theorem outstanding_eq (s : Pool) (i : Nat) : s.outstanding i = s.sending i + s.registered i := by
  rw [Pool.outstanding, Pool.sending, Pool.registered]
  induction s.requests with
  | nil => rfl
  | cons r rs ih =>
    rw [List.countP_cons, List.countP_cons, List.countP_cons, ih]
    cases r with
    | sending j | registered j =>
      simp only [Request.on, decide_eq_true_eq, Request.sending.injEq, Request.registered.injEq,
        reduceCtorEq, if_false]
      omega
    | _ => simp [Request.on]

/-- Where one request moves on, a count of the requests changes by it. -/
theorem countP_move (ht : s.requests[t]? = some r) (r' : Request) (p : Request → Bool) :
    (s.requests.set t r').countP p + (if p r then 1 else 0) =
      s.requests.countP p + if p r' then 1 else 0 := by
  obtain ⟨hlt, hget⟩ := List.getElem?_eq_some_iff.mp ht
  have hle : (if p r then 1 else 0) ≤ s.requests.countP p := by
    rw [← hget]
    exact List.boole_getElem_le_countP hlt
  rw [List.countP_set hlt, hget]
  omega

/-- Every request is on a connection of the pool. -/
def Pool.Placed (s : Pool) : Prop :=
  ∀ r ∈ s.requests, ∀ i, r.on i = true → i < s.connections.length

theorem outstanding_of_le (hs : s.Placed) (hi : s.connections.length ≤ i) : s.outstanding i = 0 := by
  refine List.countP_eq_zero.mpr fun r hr hon => ?_
  have hlt := hs r hr i hon
  omega

/-- The connection that `acquire` finds is one of the pool and has capacity. -/
theorem find_some (h : s.find cfg = some i) :
    ∃ c, s.connections[i]? = some c ∧ c.hasCapacity cfg = true := by
  obtain ⟨hlt, hcap, -⟩ := List.findIdx?_eq_some_iff_getElem.mp h
  exact ⟨_, List.getElem?_eq_getElem hlt, hcap⟩

theorem acquire_on : (s.acquire cfg).on i = decide (s.find cfg = some i) := by
  rw [Pool.acquire]
  split
  · rename_i j hj
    simp [Request.on, hj]
  · rename_i hnone
    rw [hnone]
    split <;> rfl

theorem placed_set {connections : List Conn} (hs : s.Placed)
    (hlen : s.connections.length ≤ connections.length)
    (hr : ∀ i, r.on i = true → i < connections.length) (lock : Bool) (t : Nat) :
    Pool.Placed ⟨lock, connections, s.requests.set t r⟩ := by
  intro r' hr' i hon
  rcases List.mem_or_eq_of_mem_set hr' with hmem | rfl
  · exact Nat.lt_of_lt_of_le (hs r' hmem i hon) hlen
  · exact hr i hon

theorem placed_step (hs : s.Placed) (hstep : step cfg s label = some s') : s'.Placed := by
  cases step_moves hstep with
  | call =>
    intro r hr i hon
    rcases List.mem_append.mp hr with hr | hr
    · exact hs r hr i hon
    · obtain rfl := List.mem_singleton.mp hr
      cases hon
  | acquire t ht hlock =>
    refine placed_set hs (Nat.le_refl _) (fun i hon => ?_) _ t
    rw [acquire_on] at hon
    obtain ⟨c, hc, -⟩ := find_some (of_decide_eq_true hon)
    exact (List.getElem?_eq_some_iff.mp hc).1
  | connected t ht =>
    refine placed_set hs (by simp) (fun i hon => ?_) _ t
    obtain rfl : s.connections.length = i := of_decide_eq_true hon
    simp
  | unconnected t ht =>
    refine placed_set hs (Nat.le_refl _) (fun i hon => ?_) _ t
    cases hon
  | sent t i ht =>
    refine placed_set hs (by simp) (fun j hon => ?_) _ t
    rw [List.length_modify]
    exact hs _ (List.mem_of_getElem? ht) j hon
  | failed t i ht =>
    refine placed_set hs (by simp) (fun j hon => ?_) _ t
    cases hon
  | threw t i ht =>
    refine placed_set hs (Nat.le_refl _) (fun j hon => ?_) _ t
    cases hon
  | unregister t i ht =>
    refine placed_set hs (by simp) (fun j hon => ?_) _ t
    cases hon
  | disconnect i =>
    intro r hr j hon
    change j < (s.connections.modify i Conn.close).length
    rw [List.length_modify]
    exact hs r hr j hon

theorem placed_reachable (h : (pool cfg).Reachable s) : s.Placed :=
  h.invariant (fun s hs => by
    obtain rfl : s = _ := hs
    intro r hr
    cases hr) fun _ _ _ hI _ hstep => placed_step hI hstep

/-- A request that moves on and is not handed to a connection gives no connection another. -/
theorem outstanding_le {connections : List Conn} {lock : Bool} (ht : s.requests[t]? = some r)
    (hr : r'.on i = true → r.on i = true) :
    Pool.outstanding ⟨lock, connections, s.requests.set t r'⟩ i ≤ s.outstanding i := by
  have hmove := countP_move ht r' (Request.on i)
  change (s.requests.set t r').countP (Request.on i) ≤ s.outstanding i
  cases hon : r'.on i with
  | false =>
    rw [hon] at hmove
    exact Nat.le_trans (Nat.le_add_right _ _) (Nat.le_of_eq hmove)
  | true =>
    rw [hon, hr hon] at hmove
    exact Nat.le_of_eq (Nat.add_right_cancel hmove)

/-- A request that is handed to a connection is one more there, and no other connection's. -/
theorem outstanding_handed (connections : List Conn) (lock : Bool) {o : Option Nat}
    (ht : s.requests[t]? = some r) (hr : r.on i = false) (hr' : r'.on i = decide (o = some i)) :
    Pool.outstanding ⟨lock, connections, s.requests.set t r'⟩ i =
      s.outstanding i + if o = some i then 1 else 0 := by
  have hmove := countP_move ht r' (Request.on i)
  rw [hr, hr'] at hmove
  change (s.requests.set t r').countP (Request.on i) = _
  simpa [Pool.outstanding] using hmove

/-- **What a step does to the requests on a connection**: the one it is handed to gets another, and
no other does. -/
theorem outstanding_step (hstep : step cfg s label = some s') (i : Nat) :
    s'.outstanding i ≤ s.outstanding i + (if handsTo cfg s label = some i then 1 else 0) ∧
      (handsTo cfg s label = some i → s'.outstanding i = s.outstanding i + 1) := by
  cases step_moves hstep with
  | call =>
    have hsame : (s.requests ++ [Request.waiting]).countP (Request.on i) = s.outstanding i := by
      rw [List.countP_append]
      rfl
    exact ⟨hsame ▸ Nat.le_add_right _ _, by simp [handsTo]⟩
  | acquire t ht hlock =>
    have hon : (s.acquire cfg).on i = decide (s.find cfg = some i) := acquire_on
    have hhanded := outstanding_handed s.connections (s.acquire cfg = .connecting) ht rfl hon
    exact ⟨Nat.le_of_eq hhanded, fun ho => hhanded.trans (congrArg _ (if_pos ho))⟩
  | connected t ht =>
    have hon : (Request.sending s.connections.length).on i =
        decide (some s.connections.length = some i) := by simp [Request.on]
    have hhanded := outstanding_handed (s.connections ++ [⟨true, 0⟩]) false ht rfl hon
    exact ⟨Nat.le_of_eq hhanded, fun ho => hhanded.trans (congrArg _ (if_pos ho))⟩
  | unconnected t ht => exact ⟨outstanding_le ht (by simp [Request.on]), by simp [handsTo]⟩
  | sent t j ht => exact ⟨outstanding_le ht (by simp [Request.on]), by simp [handsTo]⟩
  | failed t j ht => exact ⟨outstanding_le ht (by simp [Request.on]), by simp [handsTo]⟩
  | threw t j ht => exact ⟨outstanding_le ht (by simp [Request.on]), by simp [handsTo]⟩
  | unregister t j ht => exact ⟨outstanding_le ht (by simp [Request.on]), by simp [handsTo]⟩
  | disconnect j => exact ⟨Nat.le_refl _, by simp [handsTo]⟩

/-! ## The cap -/

theorem handsTo_lt (hstep : step cfg s label = some s') (hi : handsTo cfg s label = some i) :
    i < s'.connections.length := by
  cases step_moves hstep with
  | acquire t ht hlock =>
    obtain ⟨c, hc, -⟩ := find_some hi
    exact (List.getElem?_eq_some_iff.mp hc).1
  | connected t ht =>
    obtain rfl := Option.some.inj hi
    change s.connections.length < (s.connections ++ [_]).length
    simp
  | call | unconnected _ _ => cases hi
  | sent _ _ _ | failed _ _ _ | threw _ _ _ | unregister _ _ _ | disconnect _ => cases hi

/-- A connection that is new has just been handed its first request. -/
theorem handsTo_new (hstep : step cfg s label = some s') (hi : i < s'.connections.length)
    (hnew : s.connections.length ≤ i) : handsTo cfg s label = some i := by
  cases step_moves hstep with
  | connected t ht =>
    have hlt : i < (s.connections ++ [(⟨true, 0⟩ : Conn)]).length := hi
    rw [List.length_append, List.length_singleton] at hlt
    exact congrArg some (by omega)
  | sent t j ht | failed t j ht | unregister t j ht | disconnect j =>
    have hlt : i < (s.connections.modify j _).length := hi
    rw [List.length_modify] at hlt
    omega
  | call | acquire _ _ _ | unconnected _ _ | threw _ _ _ => exact absurd hi (by simpa using hnew)

/-- What the pool counts for a connection are the requests that are registered on it. -/
def Pool.Counted (s : Pool) : Prop :=
  ∀ i c, s.connections[i]? = some c → c.activeStreams = s.registered i

/-- A connection after a change of one of them. -/
theorem modify_some {f : Conn → Conn} {connections : List Conn} {j : Nat} {c : Conn}
    (h : (connections.modify j f)[i]? = some c) :
    ∃ c₀, connections[i]? = some c₀ ∧ c = if j = i then f c₀ else c₀ := by
  rw [List.getElem?_modify] at h
  obtain ⟨c₀, hc₀, rfl⟩ := Option.map_eq_some_iff.mp h
  exact ⟨c₀, hc₀, rfl⟩

theorem registered_move (lock : Bool) (connections : List Conn) (r' : Request) (i : Nat)
    (ht : s.requests[t]? = some r) :
    Pool.registered ⟨lock, connections, s.requests.set t r'⟩ i +
      (if r = .registered i then 1 else 0) =
      s.registered i + if r' = .registered i then 1 else 0 := by
  have hmove := countP_move ht r' (· = .registered i)
  simp only [decide_eq_true_eq] at hmove
  exact hmove

/-- A request that neither was registered nor becomes so. -/
theorem registered_same {connections : List Conn} {lock : Bool} (ht : s.requests[t]? = some r)
    (hr : r ≠ .registered i) (hr' : r' ≠ .registered i) :
    Pool.registered ⟨lock, connections, s.requests.set t r'⟩ i = s.registered i := by
  have hmove := registered_move lock connections r' i ht
  rw [if_neg hr, if_neg hr'] at hmove
  exact hmove

theorem acquire_ne : s.acquire cfg ≠ .registered i := by
  rw [Pool.acquire]
  split
  · simp
  · split <;> simp

theorem counted_step (hplaced : s.Placed) (hs : s.Counted)
    (hstep : step cfg s label = some s') : s'.Counted := by
  intro i c hc
  cases step_moves hstep with
  | call =>
    have hsame : (s.requests ++ [Request.waiting]).countP (· = .registered i) = s.registered i := by
      rw [List.countP_append]
      rfl
    exact (hs i c hc).trans hsame.symm
  | acquire t ht hlock =>
    rw [registered_same ht (by simp) acquire_ne]
    exact hs i c hc
  | connected t ht =>
    rw [registered_same ht (by simp) (by simp)]
    rcases Nat.lt_trichotomy i s.connections.length with hlt | rfl | hgt
    · rw [List.getElem?_append_left hlt] at hc
      exact hs i c hc
    · -- no request is on a connection that has just been opened
      rw [List.getElem?_append_right (Nat.le_refl _), Nat.sub_self] at hc
      obtain rfl := Option.some.inj hc
      have hnone := outstanding_of_le hplaced (Nat.le_refl _)
      rw [outstanding_eq] at hnone
      change 0 = _
      omega
    · have hlen : (s.connections ++ [(⟨true, 0⟩ : Conn)]).length ≤ i := by
        rw [List.length_append]
        exact hgt
      rw [List.getElem?_eq_none hlen] at hc
      cases hc
  | unconnected t ht =>
    rw [registered_same ht (by simp) (by simp)]
    exact hs i c hc
  | sent t j ht =>
    have hmove := registered_move s.lock (s.connections.modify j Conn.registerStream)
      (.registered j) i ht
    obtain ⟨c₀, hc₀, rfl⟩ := modify_some hc
    have hcount := hs i c₀ hc₀
    by_cases hij : j = i
    · subst hij
      simp [Conn.registerStream] at hmove ⊢
      omega
    · simp [hij] at hmove ⊢
      omega
  | failed t j ht =>
    rw [registered_same ht (by simp) (by simp)]
    obtain ⟨c₀, hc₀, rfl⟩ := modify_some hc
    rw [← hs i c₀ hc₀]
    split <;> rfl
  | threw t j ht =>
    rw [registered_same ht (by simp) (by simp)]
    exact hs i c hc
  | unregister t j ht =>
    have hmove := registered_move s.lock (s.connections.modify j Conn.unregisterStream) .over i ht
    obtain ⟨c₀, hc₀, rfl⟩ := modify_some hc
    have hcount := hs i c₀ hc₀
    by_cases hij : j = i
    · subst hij
      simp [Conn.unregisterStream] at hmove ⊢
      split <;> omega
    · simp [hij] at hmove ⊢
      omega
  | disconnect j =>
    obtain ⟨c₀, hc₀, rfl⟩ := modify_some hc
    change _ = s.registered i
    rw [← hs i c₀ hc₀]
    split <;> rfl

theorem counted_reachable (h : (pool cfg).Reachable s) : s.Counted :=
  h.invariant_of (J := Pool.Placed) (fun _ => placed_reachable) (fun s hs => by
    obtain rfl : s = _ := hs
    intro i c hc
    cases hc) fun _ _ _ hJ hI _ hstep => counted_step hJ hI hstep

/-- Room for a request is room among those that are on the connection. -/
theorem spaced_iff (hplaced : s.Placed) (hcounted : s.Counted) :
    Spaced cfg s label ↔
      ∀ i, handsTo cfg s label = some i → s.outstanding i < cfg.maxStreamsPerConn := by
  cases label with
  | acquire t =>
    refine forall_congr' fun i => ⟨fun hroom hi => ?_, fun hroom c hi hc => ?_⟩
    · obtain ⟨c, hc, -⟩ := find_some hi
      rw [outstanding_eq, ← hcounted i c hc, Nat.add_comm]
      exact hroom c hi hc
    · have hlt := hroom hi
      rw [outstanding_eq, ← hcounted i c hc, Nat.add_comm] at hlt
      exact hlt
  | connect t ok =>
    cases ok with
    | true =>
      refine ⟨fun hpos i hi => ?_, fun hroom => ?_⟩
      · obtain rfl := Option.some.inj hi
        rw [outstanding_of_le hplaced (Nat.le_refl _)]
        exact hpos
      · have hlt := hroom _ rfl
        rw [outstanding_of_le hplaced (Nat.le_refl _)] at hlt
        exact hlt
    | false => exact iff_of_true trivial (by simp [handsTo])
  | call | send _ _ | unregister _ | disconnect _ => exact iff_of_true trivial (by simp [handsTo])

/-- **The cap, step by step**: it is kept exactly if there was room. Whether there was is said of
the state before the step, with the calls in `send` counted in, which the code does not do. -/
theorem capped_step_iff (hplaced : s.Placed) (hcounted : s.Counted) (hs : s.Capped cfg)
    (hstep : step cfg s label = some s') : s'.Capped cfg ↔ Spaced cfg s label := by
  rw [spaced_iff hplaced hcounted]
  refine ⟨fun hcapped i hi => ?_, fun hspaced i hi => ?_⟩
  · have hle := hcapped i (handsTo_lt hstep hi)
    rw [(outstanding_step hstep i).2 hi] at hle
    exact hle
  · by_cases hto : handsTo cfg s label = some i
    · rw [(outstanding_step hstep i).2 hto]
      exact hspaced i hto
    · have hle := (outstanding_step hstep i).1
      rw [if_neg hto] at hle
      by_cases hold : i < s.connections.length
      · exact Nat.le_trans hle (hs i hold)
      · exact absurd (handsTo_new hstep hi (Nat.le_of_not_lt hold)) hto

theorem capped_of_spaced (h : (pool cfg).ReachableIf (Spaced cfg) s) : s.Capped cfg := by
  refine h.invariant_of (J := fun s => s.Placed ∧ s.Counted) (fun s hs => ?_) ?_ ?_
  · have hreach : (pool cfg).Reachable s := hs.mono fun _ _ _ => trivial
    exact ⟨placed_reachable hreach, counted_reachable hreach⟩
  · rintro _ rfl i hi
    cases hi
  · rintro s label s' ⟨hplaced, hcounted⟩ hs hspaced hstep
    exact (capped_step_iff hplaced hcounted hs hstep).mpr hspaced

/-- **`hasCapacity` makes room** where it counts all that is on the connection. It counts the
streams that are registered; with no other call in `send` these are all of them, and the room it
finds is there. -/
theorem Alone.spaced (h : Alone cfg s label) : Spaced cfg s label := by
  cases label with
  | acquire t =>
    intro i c hi hc
    obtain ⟨c', hc', hcap⟩ := find_some hi
    obtain rfl := Option.some.inj (hc.symm.trans hc')
    rw [Conn.hasCapacity, Bool.and_eq_true, decide_eq_true_iff] at hcap
    rw [h i hi]
    exact hcap.1
  | connect t ok =>
    cases ok with
    | true => exact h
    | false => trivial
  | _ => trivial

/-- A step that finds no room is an `acquire` past requests in `send`, which `hasCapacity` does not
count. -/
theorem not_spaced (h : ¬ Spaced cfg s label) :
    (∃ t i c, label = .acquire t ∧ s.find cfg = some i ∧ s.connections[i]? = some c ∧
      c.activeStreams < cfg.maxStreamsPerConn ∧ 0 < s.sending i ∧
      cfg.maxStreamsPerConn ≤ c.activeStreams + s.sending i) ∨
    (∃ t, label = .connect t true) ∧ cfg.maxStreamsPerConn = 0 := by
  cases label with
  | acquire t =>
    refine .inl ?_
    simp only [Spaced, not_forall, Nat.not_lt] at h
    obtain ⟨i, c, hi, hc, hfull⟩ := h
    obtain ⟨c', hc', hcap⟩ := find_some hi
    obtain rfl := Option.some.inj (hc.symm.trans hc')
    rw [Conn.hasCapacity, Bool.and_eq_true, decide_eq_true_iff] at hcap
    exact ⟨t, i, c, rfl, hi, hc, hcap.1, by omega, hfull⟩
  | connect t ok =>
    cases ok with
    | true => exact .inr ⟨⟨t, rfl⟩, Nat.eq_zero_of_not_pos h⟩
    | false => exact absurd trivial h
  | _ => exact absurd trivial h

/-- **When a connection keeps to its cap.** In a run in which no request is handed to a connection
while another one is suspended in `send` there, no connection ever has more than
`maxStreamsPerConn`. And a step that puts one above its cap is an `acquire` that finds a connection
with requests in `send`: `hasCapacity` has counted fewer streams than the cap, and together with
these requests they are no fewer. -/
theorem capped_of_alone (cfg : Config) :
    (∀ s, (pool cfg).ReachableIf (Alone cfg) s → s.Capped cfg) ∧
    ∀ s label s', (pool cfg).Reachable s → s.Capped cfg → (pool cfg).step s label = some s' →
      ¬ s'.Capped cfg →
      (∃ t i c, label = .acquire t ∧ s.find cfg = some i ∧ s.connections[i]? = some c ∧
        c.activeStreams < cfg.maxStreamsPerConn ∧ 0 < s.sending i ∧
        cfg.maxStreamsPerConn ≤ c.activeStreams + s.sending i) ∨
      (∃ t, label = .connect t true) ∧ cfg.maxStreamsPerConn = 0 := by
  constructor
  · intro s h
    exact capped_of_spaced (h.mono fun _ _ => Alone.spaced)
  · intro s label s' h hs hstep hover
    apply not_spaced
    rwa [← capped_step_iff (placed_reachable h) (counted_reachable h) hs hstep]

/-- The daemon's own pool, for a thousand connections. -/
def daemonConfig : Config := ⟨10, 100⟩

/-- Two requests, the second of which comes when the first is registered. -/
theorem capped_of_alone_two : ∃ s, (pool daemonConfig).ReachableIf (Alone daemonConfig) s ∧
    s.requests = [.registered 0, .registered 0] ∧ s.Capped daemonConfig := by
  have hfirst : (pool daemonConfig).ReachableIf (Alone daemonConfig)
      ⟨false, [⟨true, 1⟩], [.registered 0]⟩ :=
    ((((System.ReachableIf.init rfl).step (a := .call) trivial rfl).step (a := .acquire 0)
      (fun _ h => by cases h) rfl).step (a := .connect 0 true) (Nat.zero_lt_succ 99) rfl).step
      (a := .send 0 .streamId) trivial rfl
  have hcall : (pool daemonConfig).ReachableIf (Alone daemonConfig)
      ⟨false, [⟨true, 1⟩], [.registered 0, .waiting]⟩ :=
    hfirst.step (a := Label.call) trivial rfl
  have halone : Alone daemonConfig ⟨false, [⟨true, 1⟩], [.registered 0, .waiting]⟩
      (.acquire 1) := by
    intro i h
    obtain rfl := Option.some.inj (h.symm.trans (show _ = some 0 from rfl))
    rfl
  have hacquire : (pool daemonConfig).ReachableIf (Alone daemonConfig)
      ⟨false, [⟨true, 1⟩], [.registered 0, .sending 0]⟩ := hcall.step halone rfl
  have hsecond : (pool daemonConfig).ReachableIf (Alone daemonConfig)
      ⟨false, [⟨true, 2⟩], [.registered 0, .registered 0]⟩ :=
    hacquire.step (a := Label.send 1 .streamId) trivial rfl
  exact ⟨_, hsecond, rfl, (capped_of_alone daemonConfig).1 _ hsecond⟩

/-- A hundred and one requests at once: all of them are in `send` before the first is counted. -/
def rush : List Label :=
  List.replicate 101 .call ++ [.acquire 0, .connect 0 true] ++
    (List.range 100).map fun t => .acquire (t + 1)

theorem rush_outstanding : ((pool daemonConfig).run .new rush).any (fun s =>
    s.outstanding 0 = 101 ∧ s.connections.length = 1) = true := by
  decide +kernel

/-- A connection of the daemon can have more than its hundred requests. -/
theorem not_capped : ¬ ∀ s, (pool daemonConfig).Reachable s → s.Capped daemonConfig := by
  intro hall
  have hrush := rush_outstanding
  cases hrun : (pool daemonConfig).run .new rush with
  | none =>
    rw [hrun] at hrush
    cases hrush
  | some s =>
    rw [hrun] at hrush
    obtain ⟨hmany, hone⟩ := of_decide_eq_true hrush
    have hreach : (pool daemonConfig).Reachable s := System.Reachable.run (.init rfl) rush hrun
    have hle := hall s hreach 0 (by omega)
    rw [hmany] at hle
    exact absurd hle (by decide)

/-! ## Refusals -/

/-- The pool has all its connections, and each of them all its streams. -/
def Pool.Exhausted (cfg : Config) (s : Pool) : Prop :=
  s.connections.length = cfg.poolSize ∧
    ∀ c ∈ s.connections, c.connected = true ∧ cfg.maxStreamsPerConn ≤ c.activeStreams

/-- There is capacity, or room for a connection, or no connection is dead. -/
def Pool.Sound (cfg : Config) (s : Pool) : Prop :=
  (∃ c ∈ s.connections, c.hasCapacity cfg = true) ∨ s.connections.length < cfg.poolSize ∨
    ∀ c ∈ s.connections, c.connected = true

/-- The pool has all its connections, and all of them are dead. -/
def Pool.Dead (cfg : Config) (s : Pool) : Prop :=
  s.connections.length = cfg.poolSize ∧ ∀ c ∈ s.connections, c.connected = false

/-- The calls that are in `connect`. -/
def Pool.connecting (s : Pool) : Nat := s.requests.countP (· = .connecting)

/-- The lock is held by the one call that is in `connect`, and there is room for its connection. A
connection that is being opened is in no list yet, so that the size is kept only because the lock is
held from the look at the list to the entry in it. -/
structure Pool.Sized (cfg : Config) (s : Pool) : Prop where
  lock : s.connecting = if s.lock then 1 else 0
  room : s.connections.length + s.connecting ≤ cfg.poolSize

theorem connecting_move (lock : Bool) (connections : List Conn) (r' : Request)
    (ht : s.requests[t]? = some r) :
    Pool.connecting ⟨lock, connections, s.requests.set t r'⟩ + (if r = .connecting then 1 else 0) =
      s.connecting + if r' = .connecting then 1 else 0 := by
  have hmove := countP_move ht r' (· = .connecting)
  simp only [decide_eq_true_eq] at hmove
  exact hmove

theorem acquire_connecting (h : s.acquire cfg = .connecting) :
    s.connections.length < cfg.poolSize := by
  rw [Pool.acquire] at h
  split at h
  · cases h
  · split at h
    · assumption
    · cases h

/-- A call that neither was in `connect` nor comes there. -/
theorem sized_same {connections : List Conn} (hs : s.Sized cfg)
    (hlen : connections.length = s.connections.length) (ht : s.requests[t]? = some r)
    (hr : r ≠ .connecting) (hr' : r' ≠ .connecting) :
    Pool.Sized cfg ⟨s.lock, connections, s.requests.set t r'⟩ := by
  have hmove := connecting_move s.lock connections r' ht
  rw [if_neg hr, if_neg hr'] at hmove
  refine ⟨hmove.trans hs.lock, ?_⟩
  change connections.length + Pool.connecting ⟨s.lock, connections, s.requests.set t r'⟩ ≤ _
  rw [hlen, ← Nat.add_zero (Pool.connecting _), hmove]
  exact hs.room

/-- The call that is in `connect` leaves it, with a connection or without. -/
theorem sized_connected {connections : List Conn} (hs : s.Sized cfg)
    (hlen : connections.length ≤ s.connections.length + 1)
    (ht : s.requests[t]? = some .connecting) (hr' : r' ≠ .connecting) :
    Pool.Sized cfg ⟨false, connections, s.requests.set t r'⟩ := by
  have hmove := connecting_move false connections r' ht
  rw [if_pos rfl, if_neg hr', hs.lock] at hmove
  have hroom := hs.room
  rw [hs.lock] at hroom
  have hzero : Pool.connecting ⟨false, connections, s.requests.set t r'⟩ = 0 := by
    split at hmove <;> omega
  refine ⟨hzero, ?_⟩
  rw [hzero]
  change connections.length + 0 ≤ _
  split at hmove
  · rw [if_pos ‹_›] at hroom
    omega
  · omega

theorem sized_step (hs : s.Sized cfg) (hstep : step cfg s label = some s') : s'.Sized cfg := by
  cases step_moves hstep with
  | call =>
    have hsame : (s.requests ++ [Request.waiting]).countP (· = .connecting) = s.connecting := by
      rw [List.countP_append]
      rfl
    refine ⟨hsame.trans hs.lock, ?_⟩
    change s.connections.length + (s.requests ++ [Request.waiting]).countP (· = .connecting) ≤ _
    rw [hsame]
    exact hs.room
  | acquire t ht hfree =>
    have hmove := connecting_move (s.acquire cfg = .connecting) s.connections (s.acquire cfg) ht
    rw [hs.lock, hfree] at hmove
    by_cases hc : s.acquire cfg = .connecting
    · have hlt := acquire_connecting hc
      rw [hc] at hmove ⊢
      have hone : Pool.connecting ⟨true, s.connections, s.requests.set t .connecting⟩ = 1 := by
        simpa using hmove
      refine ⟨by simpa using hone, ?_⟩
      simp only [decide_true]
      rw [hone]
      exact hlt
    · have hsame : Pool.Sized cfg ⟨s.lock, s.connections, s.requests.set t (s.acquire cfg)⟩ :=
        sized_same hs rfl ht (by simp) hc
      have hno : decide (s.acquire cfg = .connecting) = s.lock := hfree ▸ decide_eq_false hc
      rw [hno]
      exact hsame
  | connected t ht => exact sized_connected hs (by simp) ht (by simp)
  | unconnected t ht => exact sized_connected hs (by simp) ht (by simp)
  | sent t j ht => exact sized_same hs (by simp) ht (by simp) (by simp)
  | failed t j ht => exact sized_same hs (by simp) ht (by simp) (by simp)
  | threw t j ht => exact sized_same hs rfl ht (by simp) (by simp)
  | unregister t j ht => exact sized_same hs (by simp) ht (by simp) (by simp)
  | disconnect j =>
    refine ⟨hs.lock, ?_⟩
    change (s.connections.modify j Conn.close).length + s.connecting ≤ _
    rw [List.length_modify]
    exact hs.room

theorem sized_reachable (h : (pool cfg).Reachable s) : s.Sized cfg :=
  h.invariant (fun s hs => by
    obtain rfl : s = _ := hs
    exact ⟨rfl, Nat.zero_le _⟩) fun _ _ _ hI _ hstep => sized_step hI hstep

/-- Nothing is found exactly if no connection has capacity. -/
theorem find_none : s.find cfg = none ↔ ∀ c ∈ s.connections, c.hasCapacity cfg = false :=
  List.findIdx?_eq_none_iff

/-- `acquire` refuses exactly if there is neither capacity nor room. -/
theorem acquire_refused : s.acquire cfg = .refused ↔
    (∀ c ∈ s.connections, c.hasCapacity cfg = false) ∧ cfg.poolSize ≤ s.connections.length := by
  rw [← find_none, Pool.acquire]
  cases s.find cfg with
  | some i => simp
  | none =>
    by_cases hroom : s.connections.length < cfg.poolSize
    · simp [hroom]
    · simp [hroom, Nat.le_of_not_lt hroom]

/-- **When a refusal is right**: exactly if it leaves no dead connection in the pool. -/
theorem exhausted_iff (hs : s.Sized cfg) :
    (s.acquire cfg = .refused → s.Exhausted cfg) ↔ s.Sound cfg := by
  have hsize : s.connections.length ≤ cfg.poolSize :=
    Nat.le_trans (Nat.le_add_right _ _) hs.room
  constructor
  · intro hright
    by_cases hrefused : s.acquire cfg = .refused
    · exact .inr (.inr fun c hc => ((hright hrefused).2 c hc).1)
    · rw [acquire_refused, not_and_or] at hrefused
      rcases hrefused with hcap | hroom
      · obtain ⟨c, hc⟩ := not_forall.mp hcap
        obtain ⟨hmem, hcap⟩ := Classical.not_imp.mp hc
        exact .inl ⟨c, hmem, by simpa using hcap⟩
      · exact .inr (.inl (Nat.lt_of_not_le hroom))
  · intro hsound hrefused
    obtain ⟨hcap, hfull⟩ := acquire_refused.mp hrefused
    refine ⟨Nat.le_antisymm hsize hfull, fun c hc => ?_⟩
    rcases hsound with ⟨c', hc', hcap'⟩ | hroom | hlive
    · rw [hcap c' hc'] at hcap'
      cases hcap'
    · omega
    · have hno := hcap c hc
      rw [Conn.hasCapacity, hlive c hc, Bool.and_true, decide_eq_false_iff_not] at hno
      exact ⟨hlive c hc, Nat.le_of_not_lt hno⟩

/-- A dead pool stays dead. -/
theorem dead_step (hs : s.Sized cfg) (hdead : s.Dead cfg) (hstep : step cfg s label = some s') :
    s'.Dead cfg := by
  obtain ⟨hlen, hall⟩ := hdead
  have hmodify : ∀ (f : Conn → Conn) (i : Nat), (∀ c, (f c).connected = true → c.connected = true) →
      (s.connections.modify i f).length = cfg.poolSize ∧
        ∀ c ∈ s.connections.modify i f, c.connected = false := by
    intro f i hf
    refine ⟨by rw [List.length_modify, hlen], fun c hc => ?_⟩
    obtain ⟨j, hj⟩ := List.mem_iff_getElem?.mp hc
    obtain ⟨c₀, hc₀, rfl⟩ := modify_some hj
    have hdead := hall c₀ (List.mem_of_getElem? hc₀)
    split
    · exact Bool.eq_false_iff.mpr fun h => by simp [hf c₀ h] at hdead
    · exact hdead
  cases step_moves hstep with
  | connected t ht =>
    -- a full pool has no call in `connect`
    have hroom := hs.room
    have hpos : 0 < s.connecting := List.countP_pos_iff.mpr ⟨_, List.mem_of_getElem? ht, by simp⟩
    omega
  | sent t i ht => exact hmodify _ i fun c h => h
  | failed t i ht => exact hmodify _ i fun c h => by cases h
  | unregister t i ht => exact hmodify _ i fun c h => h
  | disconnect i => exact hmodify _ i fun c h => by cases h
  | call | acquire _ _ _ | unconnected _ _ | threw _ _ _ => exact ⟨hlen, hall⟩

theorem dead_refuses (hdead : s.Dead cfg) : s.acquire cfg = .refused := by
  refine acquire_refused.mpr ⟨fun c hc => ?_, Nat.le_of_eq hdead.1.symm⟩
  rw [Conn.hasCapacity, hdead.2 c hc, Bool.and_false]

/-- A call that has come to the lock. -/
theorem step_acquire (hstep : step cfg s (.acquire t) = some s') :
    s'.requests[t]? = some (s.acquire cfg) := by
  cases step_moves hstep with
  | acquire t ht hfree => exact List.getElem?_set_self (List.getElem?_eq_some_iff.mp ht).1

/-- **When the pool recovers.** In every reachable state, a call that is refused is refused for the
right reason exactly if the pool has capacity, room, or no dead connection. And a pool of dead
connections stays one, and refuses every call. -/
theorem recovers_iff (cfg : Config) :
    (∀ s t s', (pool cfg).Reachable s → (pool cfg).step s (.acquire t) = some s' →
      ((s'.requests[t]? = some .refused → s.Exhausted cfg) ↔ s.Sound cfg)) ∧
    ∀ s, (pool cfg).Reachable s → s.Dead cfg →
      ∀ s', ((pool cfg).startedAt s).Reachable s' → s'.Dead cfg ∧
        ∀ t s'', (pool cfg).step s' (.acquire t) = some s'' →
          s''.requests[t]? = some .refused := by
  refine ⟨fun s t s' h hstep => ?_, fun s h hdead s' h' => ?_⟩
  · rw [step_acquire hstep, Option.some.injEq]
    exact exhausted_iff (sized_reachable h)
  · have hboth : s'.Sized cfg ∧ s'.Dead cfg := by
      refine h'.invariant (I := fun s => s.Sized cfg ∧ s.Dead cfg) ?_ ?_
      · rintro _ rfl
        exact ⟨sized_reachable h, hdead⟩
      · rintro u label v ⟨hsized, hu⟩ - hstep
        exact ⟨sized_step hsized hstep, dead_step hsized hu hstep⟩
    refine ⟨hboth.2, fun t s'' hstep => ?_⟩
    rw [step_acquire hstep, dead_refuses hboth.2]

/-- The daemon's own pool, for a hundred connections. -/
def smallConfig : Config := ⟨1, 100⟩

/-- One stream, after which the upstream closes the connection, and another call. -/
def lost : List Label :=
  [.call, .acquire 0, .connect 0 true, .send 0 .streamId, .unregister 0, .disconnect 0, .call]

theorem reachable_lost :
    (pool smallConfig).Reachable ⟨false, [⟨false, 0⟩], [.over, .waiting]⟩ :=
  System.Reachable.run (.init rfl) lost rfl

theorem recovers_iff_lost :
    ((some Request.refused = some .refused →
        Pool.Exhausted smallConfig ⟨false, [⟨false, 0⟩], [.over, .waiting]⟩) ↔
      Pool.Sound smallConfig ⟨false, [⟨false, 0⟩], [.over, .waiting]⟩) ∧
    Pool.Dead smallConfig ⟨false, [⟨false, 0⟩], [.over, .refused]⟩ := by
  obtain ⟨hiff, hdead⟩ := recovers_iff smallConfig
  refine ⟨hiff _ 1 _ reachable_lost rfl, ?_⟩
  refine (hdead _ reachable_lost ⟨rfl, by simp⟩ _ (.step (a := .acquire 1) (.init rfl) trivial rfl)).1

/-- A call can be refused although nothing is exhausted and no connection was tried. -/
theorem refused_not_exhausted : ∃ s s', (pool smallConfig).Reachable s ∧
    (pool smallConfig).step s (.acquire 1) = some s' ∧ s'.requests[1]? = some .refused ∧
    ¬ s.Exhausted smallConfig := by
  refine ⟨_, _, reachable_lost, rfl, rfl, fun h => ?_⟩
  obtain ⟨hconnected, -⟩ := h.2 _ (List.mem_singleton_self _)
  cases hconnected

end SocketHandoff.Swoole
