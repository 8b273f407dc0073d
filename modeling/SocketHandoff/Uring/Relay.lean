import SocketHandoff.Uring.Response
import SocketHandoff.Uring.Unseen

/-!
# The way of a response to the client

What `write_callback` adds to the write buffer of a connection, whatever the ring does meanwhile.
`Relay` is what one request and its connection have to do with that, and the rules of this file
see the daemon through it.
-/

namespace SocketHandoff.Uring

/-! ## What a request has to do with its connection -/

/-- The write buffer and the line buffer of a connection, and a request without its count of
chunks. -/
structure Relay where
  buffer : Option WriteBuffer
  line : Option (List UInt8 × Nat)
  request : Option CurlRequest

/-- The relay of a request and a connection. -/
def Daemon.relay (s : Daemon) (easy : Easy) (i : ConnId) : Relay where
  buffer := (s.connections i).asyncWriteBuf
  line := (s.connections i).sseLine
  request := (s.curl.request? easy).map fun req => { req with chunkCount := 0 }

namespace Relay

/-- The bytes that wait for the client. -/
def unsent (r : Relay) : List UInt8 := (r.buffer.map WriteBuffer.unsent).getD []

/-- The text in the line buffer. -/
def text (r : Relay) : List UInt8 := (r.line.map Prod.fst).getD []

/-- The write buffer, if there is one, is in order. -/
def Sound (r : Relay) : Prop := ∀ wb, r.buffer = some wb → wb.Sound

/-- Nothing in the write buffer has been consumed since it was last empty. The room for an append is
then what is left of the largest size, which no compaction changes. -/
def Packed (r : Relay) : Prop := ∀ wb, r.buffer = some wb → wb.tail = 0

/-- The write buffer is empty: the client has taken everything. -/
def Drained (r : Relay) : Prop := ∀ wb, r.buffer = some wb → wb.bytes = [] ∧ wb.tail = 0

/-- **Adds.** Some text has gone behind what waits for the client, and nothing else has changed. -/
structure Adds (r : Relay) (out : List UInt8) (r' : Relay) : Prop where
  unsent : r'.unsent = r.unsent ++ out
  sound : r'.Sound
  packed : r.Packed → r'.Packed
  buffer : r.buffer.isSome → r'.buffer.isSome
  line : r'.line = r.line
  request : r'.request = r.request

variable {r r' r'' : Relay} {out more : List UInt8}

theorem Drained.packed (h : r.Drained) : r.Packed := fun wb hwb => (h wb hwb).2

theorem Drained.unsent (h : r.Drained) : r.unsent = [] := by
  rw [Relay.unsent]
  cases hwb : r.buffer with
  | none => rfl
  | some wb =>
    rw [Option.map_some, Option.getD_some, WriteBuffer.unsent, (h wb hwb).1]
    exact List.drop_nil

theorem Sound.length_unsent_le (h : r.Sound) : r.unsent.length ≤ writeBufferMaxSize := by
  rw [Relay.unsent]
  cases hwb : r.buffer with
  | none => exact Nat.zero_le _
  | some wb => exact (h wb hwb).length_unsent_le

theorem Adds.refl (h : r.Sound) : r.Adds [] r :=
  ⟨(List.append_nil _).symm, h, id, id, rfl, rfl⟩

theorem Adds.trans (h : r.Adds out r') (h' : r'.Adds more r'') : r.Adds (out ++ more) r'' :=
  ⟨by rw [h'.unsent, h.unsent, List.append_assoc], h'.sound, fun hp => h'.packed (h.packed hp),
    fun hb => h'.buffer (h.buffer hb), h'.line.trans h.line, h'.request.trans h.request⟩

theorem Adds.append_nil (h : r.Adds out r') (h' : r'.Adds [] r'') : r.Adds out r'' := by
  have h'' := h.trans h'
  rwa [List.append_nil] at h''

theorem Adds.nil_append (h : r.Adds [] r') (h' : r'.Adds out r'') : r.Adds out r'' := h.trans h'

section
variable {wb wb' : WriteBuffer} {data : List UInt8} {block : Option Block}
  {a : WriteBuffer.Appended}

theorem unsent_eq (hwb : r.buffer = some wb) : r.unsent = wb.unsent := by
  rw [unsent, hwb]
  rfl

/-- Appending to the write buffer adds the data or nothing. -/
theorem Sound.append (hr : r.Sound) (hwb : r.buffer = some wb)
    (hlen : data.length ≤ writeBufferDefaultSize) (ha : wb.append data block = (a, wb')) :
    r.Adds (if a = .ok then data else []) { r with buffer := some wb' } := by
  obtain ⟨hsound, hunsent, hzero⟩ := (hr wb hwb).append hlen ha
  refine ⟨?_, ?_, ?_, fun _ => rfl, rfl, rfl⟩
  · rw [unsent_eq hwb]
    refine hunsent.trans ?_
    split
    · rfl
    · rw [List.append_nil]
  · intro wb'' h
    rwa [← Option.some.inj h]
  · intro hp wb'' h
    rw [← Option.some.inj h]
    exact hzero (hp wb hwb)

/-- Where memory is granted, only a full buffer refuses data. -/
theorem Sound.full (hr : r.Sound) (hwb : r.buffer = some wb)
    (hlen : data.length ≤ writeBufferDefaultSize) (ha : wb.append data block = (a, wb'))
    (hblock : ∃ b, block = some b) (hp : r.Packed) (hne : a ≠ .ok) :
    writeBufferMaxSize < r.unsent.length + data.length := by
  obtain ⟨b, rfl⟩ := hblock
  refine Nat.lt_of_not_le fun hfit => hne ?_
  rw [unsent_eq hwb] at hfit
  have hok := (hr wb hwb).append_fits hlen (hp wb hwb) hfit b
  rwa [ha] at hok

end

end Relay

/-- No allocation fails. -/
structure Env.Generous (ω : Env) : Prop where
  malloc : ∀ n, ω.malloc n = true
  realloc : ∀ n, ω.realloc n ≠ .failed

section
variable {α β : Type} {ω : Env} {easy : Easy} {i : ConnId} {r : Relay}

/-- Code of the daemon as the relay of a request sees it. -/
abbrev Relays (ω : Env) (easy : Easy) (i : ConnId) (r : Relay) (m : Loop α)
    (T : α → Relay → Prop) : Prop :=
  Act.Through ω (fun s : Daemon => s.relay easy i) r m T

/-- Code of the daemon that no relay of this request sees. -/
abbrev OffRelay (easy : Easy) (i : ConnId) (m : Loop α) : Prop :=
  Act.Unseen (fun s : Daemon => s.relay easy i) m

/-! ## Code that the relay does not see -/

theorem blind_relay : Blind fun s : Daemon => s.relay easy i :=
  ⟨fun _ _ => rfl, fun _ _ _ => rfl, fun _ _ => rfl, fun _ _ _ _ _ => rfl⟩

/-- No entry is seen, not even one for a slot. -/
theorem fillSqe_offRelay {getSqe : Loop Bool} (hg : OffRelay easy i getSqe) (e : Sqe) :
    OffRelay easy i (fillSqe getSqe e) :=
  .bind hg fun _ => .ite (.bind (.modify fun _ => rfl) fun _ => .pure _) (.pure _)

theorem note_offRelay (e : Event) : OffRelay easy i (note e) := .modify fun _ => rfl

/-- A change of the connection that leaves both its buffers alone. -/
theorem updateConn_offRelay {j : ConnId} {f : Connection → Connection}
    (hwb : ∀ c, (f c).asyncWriteBuf = c.asyncWriteBuf) (hl : ∀ c, (f c).sseLine = c.sseLine) :
    OffRelay easy i (updateConn j f) :=
  .modify fun s => by
    by_cases hij : i = j
    · subst hij
      simp [Daemon.relay, Daemon.setConn, hwb, hl]
    · simp [Daemon.relay, Daemon.setConn, Function.update_of_ne hij]

theorem daemonMarkConnectionDirty_offRelay (j : ConnId) :
    OffRelay easy i (daemonMarkConnectionDirty j) := by
  refine .bind (.bind .get fun _ => .pure _) fun _ => .ite (.pure _) ?_
  refine .bind (updateConn_offRelay (fun _ => rfl) fun _ => rfl) fun _ => ?_
  exact .modify fun _ => rfl

/-! ## The write buffer -/

theorem Relays.updateBuffer {T : Unit → Relay → Prop} {wb : WriteBuffer}
    (h : T () { r with buffer := some wb }) :
    Relays ω easy i r (updateConn i fun c => { c with asyncWriteBuf := some wb }) T :=
  .modify (fun r => { r with buffer := some wb }) (fun s => by simp [Daemon.relay, Daemon.setConn]) h

theorem Relays.updateLine {T : Unit → Relay → Prop} {line : List UInt8 × Nat}
    (h : T () { r with line := some line }) :
    Relays ω easy i r (updateConn i fun c => { c with sseLine := some line }) T :=
  .modify (fun r => { r with line := some line })
    (fun s => by simp [Daemon.relay, Daemon.setConn]) h

/-- Where nothing fails, an allocation returns a block. -/
theorem Relays.malloc {T : Option Block → Relay → Prop} (hnone : ¬ ω.Generous → T none r)
    (hsome : ∀ b, T (some b) r) : Relays ω easy i r malloc T :=
  .ask fun n s hs => by
    subst hs
    cases hm : ω.malloc n with
    | true => exact hsome s.nextBlock
    | false => exact hnone fun hg => by simp [hg.malloc n] at hm

theorem Relays.realloc {T : Option Block → Relay → Prop} {old : Block}
    (hnone : ¬ ω.Generous → T none r) (hsome : ∀ b, T (some b) r) :
    Relays ω easy i r (realloc old) T :=
  .ask fun n s hs => by
    subst hs
    cases hm : ω.realloc n with
    | failed => exact hnone fun hg => hg.realloc n hm
    | inPlace => exact hsome old
    | moved => exact hsome s.nextBlock

theorem Relays.writeBufferAppend {T : WriteBuffer.Appended → Relay → Prop} {wb : WriteBuffer}
    {data : List UInt8}
    (h : ∀ block a wb', (ω.Generous → ∃ b, block = some b) → wb.append data block = (a, wb') →
      T a { r with buffer := some wb' }) :
    Relays ω easy i r (writeBufferAppend i wb data) T := by
  have hblock : ∀ block, (ω.Generous → ∃ b, block = some b) →
      Relays ω easy i r (do
        updateConn i fun c => { c with asyncWriteBuf := some (wb.append data block).2 }
        if wb.writePending ∧ (wb.append data block).2.buffer ≠ wb.buffer then
          note (.moved i)
          return (wb.append data block).1
        else return (wb.append data block).1) T := by
    intro block hg
    refine .bind (Relays.updateBuffer (.ite (fun _ => ?_) fun _ => ?_))
    · exact .bind (.unseen (note_offRelay _) fun _ => .pure (h _ _ _ hg rfl))
    · exact .pure (h _ _ _ hg rfl)
  refine .bind (Relays.realloc (fun hg => ?_) fun b => ?_)
  · exact hblock none fun hg' => absurd hg' hg
  · exact hblock (some b) fun _ => ⟨b, rfl⟩

theorem Relays.ensureWriteBuffer {T : Option WriteBuffer → Relay → Prop} (hr : r.Sound)
    (hnone : ¬ ω.Generous → T none r)
    (hsome : ∀ wb r', r.Adds [] r' → r'.buffer = some wb → T (some wb) r') :
    Relays ω easy i r (ensureWriteBuffer i) T := by
  refine .bind (.get fun s hs => .pure ?_)
  subst hs
  cases hwb : (s.connections i).asyncWriteBuf with
  | some wb => exact .pure (hsome wb _ (.refl hr) hwb)
  | none =>
    refine .bind (Relays.malloc (fun hg => .pure (hnone hg)) fun _ => ?_)
    refine .bind (Relays.malloc (fun hg => .pure (hnone hg)) fun b => ?_)
    refine .bind (Relays.updateBuffer (.pure (hsome _ _ ?_ rfl)))
    have hinit : ∀ wb, some (WriteBuffer.init b) = some wb → wb = .init b :=
      fun wb h => (Option.some.inj h).symm
    refine ⟨by simp [Relay.unsent, Daemon.relay, hwb], ?_, ?_, ?_, rfl, rfl⟩
    · intro wb h
      rw [hinit wb h]
      exact WriteBuffer.sound_init b
    · intro _ wb h
      rw [hinit wb h]
      rfl
    · exact fun _ => rfl

/-- **Data is queued behind the rest**, or, for want of memory or room, nothing is. -/
theorem Relays.queueForClient {T : Bool → Relay → Prop} {data : List UInt8} (hr : r.Sound)
    (hlen : data.length ≤ writeBufferDefaultSize)
    (hqueued : ∀ r', r.Adds data r' → r'.buffer.isSome → T true r')
    (hrefused : ∀ r', r.Adds [] r' → (ω.Generous → r.Packed →
      writeBufferMaxSize < r.unsent.length + data.length) → T false r') :
    Relays ω easy i r (queueForClient i data) T := by
  refine .bind (Relays.ensureWriteBuffer hr (fun hg => .pure ?_) fun wb r₁ h₁ hwb => ?_)
  · exact hrefused r (.refl hr) fun hg' => absurd hg' hg
  · refine .bind (Relays.writeBufferAppend fun block a wb' hblock ha => ?_)
    have hadds := h₁.nil_append (h₁.sound.append hwb hlen ha)
    have hfailed : a ≠ .ok → Relays ω easy i { r₁ with buffer := some wb' } (pure false) T := by
      intro hne
      rw [if_neg hne] at hadds
      refine .pure (hrefused _ hadds fun hg hp => ?_)
      have hfull := h₁.sound.full hwb hlen ha (hblock hg) (h₁.packed hp) hne
      rwa [h₁.unsent, List.append_nil] at hfull
    cases a with
    | ok =>
      refine .bind (.unseen (daemonMarkConnectionDirty_offRelay i) fun _ => .pure ?_)
      exact hqueued _ hadds rfl
    | noMemory => exact hfailed (by decide)
    | full => exact hfailed (by decide)

theorem Relays.tryImmediateWrite (hr : r.Sound) :
    Relays ω easy i r (tryImmediateWrite i) fun _ r' => r.Adds [] r' := by
  refine .bind (.get fun s hs => .pure ?_)
  subst hs
  cases hwb : (s.connections i).asyncWriteBuf with
  | none => exact .pure (.refl hr)
  | some wb =>
    refine .ite (fun _ => ?_) fun _ => .pure (.refl hr)
    refine .bind (.get fun _ _ => .unseen (fillSqe_offRelay blind_relay.ringGetSqeFlush _) fun ok => ?_)
    refine .ite (fun _ => ?_) fun _ => .pure (.refl hr)
    refine .bind (.get fun _ _ => .unseen (fillSqe_offRelay Blind.ioUringGetSqe _) fun _ => ?_)
    refine .bind (Relays.updateBuffer (.unseen blind_relay.ioUringSubmit fun _ => ?_))
    refine ⟨by simp [Relay.unsent, Daemon.relay, hwb], ?_, ?_, fun _ => rfl, rfl, rfl⟩
    · intro wb' h
      rw [← Option.some.inj h]
      exact (hr wb hwb).setPending true
    · intro hp wb' h
      rw [← Option.some.inj h]
      exact hp wb hwb

/-! ## `write_callback` -/

/-- A change of the request that its relay sees as the change `f`. -/
theorem relay_updateRequest {f g : CurlRequest → CurlRequest} (s : Daemon)
    (heasy : ∀ req, (g req).easy = req.easy)
    (hf : ∀ req, { g req with chunkCount := 0 } = f { req with chunkCount := 0 }) :
    (s.updateRequest easy g).relay easy i =
      { s.relay easy i with request := (s.relay easy i).request.map f } := by
  have hfind := @request?_updateRequest easy g s heasy
  simp only [Daemon.relay, hfind, Option.map_map]
  refine congrArg (Relay.mk _ _) (congrArg (fun k => Option.map k _) ?_)
  funext req
  exact hf req

theorem Relays.updateRequest {T : Unit → Relay → Prop} {f g : CurlRequest → CurlRequest}
    (heasy : ∀ req, (g req).easy = req.easy)
    (hf : ∀ req, { g req with chunkCount := 0 } = f { req with chunkCount := 0 })
    (h : T () { r with request := r.request.map f }) :
    Relays ω easy i r (Act.modify fun s => s.updateRequest easy g) T :=
  .modify (fun r => { r with request := r.request.map f })
    (fun s => relay_updateRequest s heasy hf) h

theorem Relays.processSseLine {line : List UInt8} (hr : r.Sound) :
    Relays ω easy i r (processSseLine easy i line) fun ok r' =>
      if ok then r.Adds (sseFrame line) r'
      else sseFrame line ≠ [] ∧ r.Adds [] r' ∧ (ω.Generous → r.Packed →
        writeBufferMaxSize < r.unsent.length + (sseFrame line).length) := by
  refine .ite (fun hc => .pure ?_) fun hc => ?_
  · rw [if_pos rfl, sseFrame, if_pos hc]
    exact .refl hr
  · obtain ⟨frame, hf, hlen⟩ := streamFormatSse_fits (sseContent line)
    have hne : frame ≠ [] := ne_nil_of_streamFormatSse hf
    rw [hf, sseFrame_eq hc hf]
    have hshort : frame.length ≤ writeBufferDefaultSize := by
      rw [writeBufferDefaultSize]
      omega
    refine .bind (Relays.queueForClient hr hshort (fun r' h _ => ?_) fun r' h hfull => ?_)
    · refine .bind (.conseq (Relays.tryImmediateWrite h.sound) fun _ r'' h' => .bind ?_)
      refine Relays.updateRequest (f := id) (fun _ => rfl) (fun _ => rfl) (.pure ?_)
      simp only [Option.map_id, if_true]
      exact h.append_nil h'
    · exact .pure ⟨hne, h, hfull⟩

theorem Relays.processSseLines (lines : List (List UInt8)) (hr : r.Sound) :
    Relays ω easy i r (processSseLines easy i lines) fun ok r' =>
      if ok then r.Adds (sseFrames lines) r'
      else sseFrames lines ≠ [] ∧ ∃ out, out <+: sseFrames lines ∧ r.Adds out r' ∧
        (ω.Generous → r.Packed →
          writeBufferMaxSize < r.unsent.length + (sseFrames lines).length) := by
  induction lines generalizing r with
  | nil => exact .pure (.refl hr)
  | cons line rest ih =>
    refine .bind (.conseq (Relays.processSseLine hr) fun ok r₁ h₁ => ?_)
    rw [sseFrames_cons]
    cases ok with
    | true =>
      rw [if_pos rfl] at h₁
      refine .conseq (ih h₁.sound) fun ok r₂ h₂ => ?_
      cases ok with
      | true => exact h₁.trans h₂
      | false =>
        obtain ⟨hne, out, hout, h₂, hfull⟩ := h₂
        refine ⟨fun h => hne (List.append_eq_nil_iff.mp h).2, _,
          (List.prefix_append_right_inj _).mpr hout, h₁.trans h₂, fun hg hp => ?_⟩
        have hlt := hfull hg (h₁.packed hp)
        rw [h₁.unsent, List.length_append] at hlt
        rw [List.length_append]
        omega
    | false =>
      obtain ⟨hne, h₁, hfull⟩ := h₁
      refine .pure ⟨fun h => hne (List.append_eq_nil_iff.mp h).1, [], List.nil_prefix, h₁,
        fun hg hp => ?_⟩
      have hlt := hfull hg hp
      rw [List.length_append]
      omega

theorem Relays.growSseLine {len : Nat} (line : List UInt8 × Nat) (htext : line.1 = r.text) :
    Relays ω easy i r (Uring.growSseLine i len line) fun line r' =>
      r'.buffer = r.buffer ∧ r'.request = r.request ∧ r'.text = r.text ∧
        match line with
        | some (text, _) => text = r.text
        | none => ¬ ω.Generous := by
  refine .bind (Relays.updateLine (.ite (fun _ => ?_) fun _ => ?_))
  · refine .bind (Relays.realloc (fun hg => .pure ⟨rfl, rfl, htext, hg⟩) fun b => ?_)
    exact .pure ⟨rfl, rfl, htext, htext⟩
  · exact .pure ⟨rfl, rfl, htext, htext⟩

/-- The line buffer has room for the next chunk, unless there is no memory for it. -/
theorem Relays.ensureSseLine {len : Nat} :
    Relays ω easy i r (ensureSseLine i len) fun line r' =>
      r'.buffer = r.buffer ∧ r'.request = r.request ∧ r'.text = r.text ∧
        match line with
        | some (text, _) => text = r.text
        | none => ¬ ω.Generous := by
  refine .bind (.get fun s hs => .pure ?_)
  subst hs
  cases hl : (s.connections i).sseLine with
  | some line => exact Relays.growSseLine line (by simp [Relay.text, Daemon.relay, hl])
  | none =>
    refine .bind (Relays.malloc (fun hg => .pure ⟨rfl, rfl, rfl, hg⟩) fun b => ?_)
    exact Relays.growSseLine ([], 4096) (by simp [Relay.text, Daemon.relay, hl])

theorem Relays.receiveChunk {chunk : List UInt8} (hr : r.Sound) :
    Relays ω easy i r (receiveChunk easy i chunk) fun ok r' => ∃ out,
      r'.unsent = r.unsent ++ out ∧ r'.Sound ∧ (r.buffer.isSome → r'.buffer.isSome) ∧
        r'.request = r.request ∧
        if ok then out = chunkFrames r.text chunk ∧
          r'.text = (splitLines [] (r.text ++ chunk)).2
        else out <+: chunkFrames r.text chunk ∧
          (chunkFrames r.text chunk = [] → r'.text = r.text) ∧ (ω.Generous → r.Packed →
            writeBufferMaxSize < r.unsent.length + (chunkFrames r.text chunk).length) := by
  refine .bind (.conseq Relays.ensureSseLine fun line r₁ h₁ => ?_)
  obtain ⟨hb₁, hreq₁, htext₁, hline⟩ := h₁
  have hsound₁ : r₁.Sound := by rwa [Relay.Sound, hb₁]
  have hunsent₁ : r₁.unsent = r.unsent := by rw [Relay.unsent, hb₁]; rfl
  cases line with
  | none =>
    refine .pure ⟨[], by rw [hunsent₁, List.append_nil], hsound₁, by rw [hb₁]; exact id, hreq₁, ?_⟩
    exact ⟨List.nil_prefix, fun _ => htext₁, fun hg => absurd hg hline⟩
  | some line =>
    obtain ⟨text, cap⟩ := line
    simp only at hline
    subst hline
    refine .bind (Relays.updateLine ?_)
    have hsound₂ : Relay.Sound { r₁ with line := some (r.text ++ chunk, cap) } := hsound₁
    refine .bind (.conseq (Relays.processSseLines _ hsound₂) fun ok r₂ h₂ => ?_)
    have hpacked : r.Packed → Relay.Packed { r₁ with line := some (r.text ++ chunk, cap) } := by
      intro hp wb hwb
      exact hp wb (hb₁ ▸ hwb)
    have hunsent₂ : Relay.unsent { r₁ with line := some (r.text ++ chunk, cap) } = r.unsent :=
      hunsent₁
    cases ok with
    | true =>
      rw [if_pos rfl] at h₂
      refine .bind (Relays.updateLine (.bind ?_))
      have hsound₃ : Relay.Sound { r₂ with line := some ((splitLines [] (r.text ++ chunk)).2, cap) } :=
        h₂.sound
      refine .conseq (Relays.tryImmediateWrite hsound₃) fun _ r₄ h₄ => .pure ?_
      refine ⟨_, ?_, h₄.sound, fun hb => h₄.buffer (h₂.buffer (hb₁ ▸ hb)), ?_, rfl, ?_⟩
      · have hu : Relay.unsent { r₂ with line := some ((splitLines [] (r.text ++ chunk)).2, cap) } =
            r₂.unsent := rfl
        rw [h₄.unsent, List.append_nil, hu, h₂.unsent, hunsent₂]
        rfl
      · exact h₄.request.trans (h₂.request.trans hreq₁)
      · rw [Relay.text, h₄.line]
        rfl
    | false =>
      obtain ⟨hne, out, hout, h₂, hfull⟩ := h₂
      refine .pure ⟨out, by rw [h₂.unsent, hunsent₂], h₂.sound, fun hb => h₂.buffer (hb₁ ▸ hb),
        h₂.request.trans hreq₁, hout, fun h => absurd h hne, fun hg hp => ?_⟩
      have hlt := hfull hg (hpacked hp)
      rwa [hunsent₂] at hlt

/-- The request with its headers sent. -/
def Relay.headed (r : Relay) : Relay :=
  { r with request := r.request.map fun req => { req with headersSent := true } }

theorem Relays.sendHeaders (hr : r.Sound) :
    Relays ω easy i r (sendHeaders easy i) fun ok r' =>
      if ok then r.headed.Adds sseHeaders r' ∧ r'.buffer.isSome
      else r.Adds [] r' ∧ (ω.Generous → r.Packed →
        writeBufferMaxSize < r.unsent.length + sseHeaders.length) := by
  have hshort : sseHeaders.length ≤ writeBufferDefaultSize := by
    rw [length_sseHeaders, writeBufferDefaultSize]
    omega
  refine .bind (Relays.queueForClient hr hshort (fun r₁ h₁ hb => ?_) fun r' h hfull => ?_)
  · refine .bind (Relays.updateRequest (f := fun req => { req with headersSent := true })
      (fun _ => rfl) (fun _ => rfl) (.bind ?_))
    refine .unseen (updateConn_offRelay (fun _ => rfl) fun _ => rfl) fun _ => ?_
    have h₁' : r.headed.Adds sseHeaders
        { r₁ with request := r₁.request.map fun req => { req with headersSent := true } } :=
      ⟨h₁.unsent, h₁.sound, h₁.packed, h₁.buffer, h₁.line, by rw [h₁.request]; rfl⟩
    refine .bind (.conseq (Relays.tryImmediateWrite h₁'.sound) fun _ r₂ h₂ => .pure ?_)
    exact ⟨h₁'.append_nil h₂, h₂.buffer hb⟩
  · exact .pure ⟨h, hfull⟩

theorem writeBufferAppend_result (wb : WriteBuffer) (data : List UInt8) (st : Nat × Daemon) :
    (writeBufferAppend i wb data ω st).1 = (wb.append data (realloc wb.buffer ω st).1).1 := by
  simp only [writeBufferAppend, Act.bind_run]
  split
  · rfl
  · rfl

/-- Without a write buffer there is need of memory for one. -/
theorem queueForClient_memory {s : Daemon} {data : List UInt8} (easy : Easy)
    (hnone : (s.connections i).asyncWriteBuf = none)
    (hfits : ∀ b block, ((WriteBuffer.init b).append data block).1 = .ok) :
    (queueForClient i data ω (0, s)).1 = (ω.malloc 0 && ω.malloc 1) ∧
      ((ω.malloc 0 && ω.malloc 1) = false →
        (queueForClient i data ω (0, s)).2.2.relay easy i = s.relay easy i) := by
  have hmade : ∀ b t n, (writeBufferAppend i (WriteBuffer.init b) data ω (n, t)).1 = .ok := by
    intro b t n
    rw [writeBufferAppend_result, hfits]
  cases h0 : ω.malloc 0 with
  | false =>
    have hrun : queueForClient i data ω (0, s) = (false, (1, s)) := by
      simp [queueForClient, ensureWriteBuffer, connOf, hnone, malloc, h0]
    rw [hrun]
    exact ⟨rfl, fun _ => rfl⟩
  | true =>
    cases h1 : ω.malloc 1 with
    | false =>
      have hrun : queueForClient i data ω (0, s) =
          (false, (2, { s with nextBlock := s.nextBlock + 1 })) := by
        simp [queueForClient, ensureWriteBuffer, connOf, hnone, malloc, h0, h1]
      rw [hrun]
      exact ⟨rfl, fun _ => rfl⟩
    | true =>
      refine ⟨?_, by simp⟩
      simp [queueForClient, ensureWriteBuffer, connOf, hnone, malloc, h0, h1, hmade]

/-- A connection without a write buffer gets the headers exactly if there is memory for one. -/
theorem sendHeaders_memory {s : Daemon} (hnone : (s.connections i).asyncWriteBuf = none) :
    (sendHeaders easy i ω (0, s)).1 = (ω.malloc 0 && ω.malloc 1) ∧
      ((ω.malloc 0 && ω.malloc 1) = false →
        (sendHeaders easy i ω (0, s)).2.2.relay easy i = s.relay easy i) := by
  have hfits : ∀ b block, ((WriteBuffer.init b).append sseHeaders block).1 = .ok := by
    intro b block
    rw [WriteBuffer.append_sseHeaders]
  obtain ⟨hqueued, hkept⟩ := queueForClient_memory (ω := ω) easy hnone hfits
  rw [sendHeaders, Act.bind_run]
  generalize queueForClient i sseHeaders ω (0, s) = run at hqueued hkept
  obtain ⟨ok, t⟩ := run
  cases ok with
  | true =>
    refine ⟨hqueued, fun hno => ?_⟩
    rw [← hqueued] at hno
    cases hno
  | false => exact ⟨hqueued, hkept⟩

/-- What comes before the frames of a chunk. -/
def chunkHead (sent : Bool) : List UInt8 := if sent then [] else sseHeaders

/-- **What `write_callback` does with a chunk**; `sent` says whether the headers were sent before. -/
inductive Relay.Took (r : Relay) (ω : Env) (sent : Bool) (chunk : List UInt8) :
    Bool → Relay → Prop
  /-- the headers find no room -/
  | refused {r' : Relay} : sent = false → r.Adds [] r' → (ω.Generous → r.Packed →
      writeBufferMaxSize < r.unsent.length + sseHeaders.length) → Took r ω sent chunk false r'
  /-- a frame, or the line buffer, finds no room -/
  | broke {r' : Relay} {out : List UInt8} : out <+: chunkFrames r.text chunk →
      r'.unsent = r.unsent ++ (chunkHead sent ++ out) → r'.Sound → r'.buffer.isSome →
      r'.request = r.headed.request → (chunkFrames r.text chunk = [] → r'.text = r.text) →
      (ω.Generous → r.Packed → writeBufferMaxSize <
        r.unsent.length + (chunkHead sent ++ chunkFrames r.text chunk).length) →
      Took r ω sent chunk false r'
  | all {r' : Relay} : r'.unsent = r.unsent ++ (chunkHead sent ++ chunkFrames r.text chunk) →
      r'.text = (splitLines [] (r.text ++ chunk)).2 → r'.Sound → r'.buffer.isSome →
      r'.request = r.headed.request → Took r ω sent chunk true r'

theorem Relays.writeCallback {req : CurlRequest} {chunk : List UInt8} (hr : r.Sound)
    (hreq : r.request = some { req with chunkCount := 0 })
    (hbuf : req.headersSent = true → r.buffer.isSome) :
    Relays ω req.easy req.conn r (writeCallback req chunk) (r.Took ω req.headersSent chunk) := by
  refine .ite (fun hs => ?_) fun hs => ?_
  · have hheaded : r.headed.request = r.request := by
      simp only [Relay.headed, hreq, Option.map_some, hs]
    refine .conseq (Relays.receiveChunk hr) fun ok r' h => ?_
    obtain ⟨out, hunsent, hsound, hb, hrequest, h⟩ := h
    rw [← hheaded] at hrequest
    rw [hs]
    cases ok with
    | true => exact .all (by rw [hunsent, h.1]; rfl) h.2 hsound (hb (hbuf hs)) hrequest
    | false => exact .broke h.1 hunsent hsound (hb (hbuf hs)) hrequest h.2.1 h.2.2
  · have hs : req.headersSent = false := by simpa using hs
    refine .bind (.conseq (Relays.sendHeaders hr) fun ok r₁ h₁ => .ite (fun hok => ?_) fun hok => ?_)
    · rw [if_pos hok] at h₁
      obtain ⟨h₁, hb₁⟩ := h₁
      have htext : r₁.text = r.text := by rw [Relay.text, h₁.line]; rfl
      have hunsent₁ : r₁.unsent = r.unsent ++ sseHeaders := h₁.unsent
      refine .conseq (Relays.receiveChunk h₁.sound) fun ok r' h => ?_
      obtain ⟨out, hunsent, hsound, hb, hrequest, h⟩ := h
      rw [hunsent₁, List.append_assoc] at hunsent
      rw [hunsent₁, htext] at h
      have hrequest' := hrequest.trans h₁.request
      rw [hs]
      cases ok with
      | true => exact .all (by rw [hunsent, h.1]; rfl) h.2 hsound (hb hb₁) hrequest'
      | false =>
        refine .broke h.1 hunsent hsound (hb hb₁) hrequest' h.2.1 fun hg hp => ?_
        have hlt := h.2.2 hg (h₁.packed hp)
        rw [List.length_append] at hlt
        simp only [chunkHead, List.length_append, Bool.false_eq_true, if_false]
        omega
    · rw [if_neg hok] at h₁
      exact .pure (.refused hs h₁.1 h₁.2)

/-- **Passed on.** The frames of a chunk, or a part of them, have gone behind what waits. -/
structure Relay.Passed (r : Relay) (ω : Env) (sent : Bool) (chunk : List UInt8) (ok : Bool)
    (out : List UInt8) (r' : Relay) : Prop where
  part : out <+: chunkFrames r.text chunk
  unsent : r'.unsent = r.unsent ++ (chunkHead sent ++ out)
  sound : r'.Sound
  buffer : r'.buffer.isSome
  request : r'.request = r.headed.request
  all : ok = true → out = chunkFrames r.text chunk ∧ r'.text = (splitLines [] (r.text ++ chunk)).2
  broke : ok = false → (chunkFrames r.text chunk = [] → r'.text = r.text) ∧
    (ω.Generous → r.Packed → writeBufferMaxSize <
      r.unsent.length + (chunkHead sent ++ chunkFrames r.text chunk).length)

/-- Once the headers are sent, a chunk is passed on as far as possible. -/
theorem Relay.Took.passed {sent ok : Bool} {chunk : List UInt8} {r' : Relay}
    (h : r.Took ω sent chunk ok r') (hsent : sent = false → r'.request ≠ r.request) :
    ∃ out, r.Passed ω sent chunk ok out r' := by
  cases h with
  | refused hs hadds _ => exact absurd hadds.request (hsent hs)
  | broke hpart hunsent hsound hb hreq htext hfull =>
    exact ⟨_, hpart, hunsent, hsound, hb, hreq, by simp, fun _ => ⟨htext, hfull⟩⟩
  | all hunsent htext hsound hb hreq =>
    exact ⟨_, List.prefix_rfl, hunsent, hsound, hb, hreq, fun _ => ⟨rfl, htext⟩, by simp⟩

/-- The first call of `write_callback` sends the headers exactly if there is memory for a write
buffer. -/
theorem writeCallback_memory {req : CurlRequest} {chunk : List UInt8} {s : Daemon}
    (hr : (s.relay req.easy req.conn).Sound) (hs : req.headersSent = false)
    (hnone : (s.connections req.conn).asyncWriteBuf = none) :
    if (ω.malloc 0 && ω.malloc 1) = true then
      ((writeCallback req chunk ω (0, s)).2.2.relay req.easy req.conn).request =
        (s.relay req.easy req.conn).headed.request
    else (writeCallback req chunk ω (0, s)).1 = false ∧
      (writeCallback req chunk ω (0, s)).2.2.relay req.easy req.conn =
        s.relay req.easy req.conn := by
  obtain ⟨hfirst, hsame⟩ := @sendHeaders_memory ω req.easy req.conn s hnone
  have hsplit : writeCallback req chunk ω (0, s) =
      (if (sendHeaders req.easy req.conn ω (0, s)).1 then receiveChunk req.easy req.conn chunk
        else pure false) ω (sendHeaders req.easy req.conn ω (0, s)).2 := by
    rw [writeCallback, if_neg (by simp [hs])]
    rfl
  have hsent := @Relays.sendHeaders ω req.easy req.conn _ hr 0 s rfl
  rw [hsplit]
  revert hfirst hsame hsent
  generalize sendHeaders req.easy req.conn ω (0, s) = run
  obtain ⟨ok, st⟩ := run
  rintro hfirst hsame hsent
  simp only at hfirst hsame hsent ⊢
  subst hfirst
  split
  · rename_i hmem
    rw [if_pos hmem] at hsent
    obtain ⟨out, -, -, -, hrequest, -⟩ := @Relays.receiveChunk ω req.easy req.conn _
      chunk hsent.1.sound st.1 st.2 rfl
    exact hrequest.trans hsent.1.request
  · rename_i hmem
    exact ⟨rfl, hsame (by simpa using hmem)⟩

/-! ## The end of a response -/

/-- The request is forgotten. -/
def Relay.forgotten (r : Relay) : Relay := { r with request := none }

theorem Relays.curlRemoveHandle {T : Unit → Relay → Prop} (h : T () r.forgotten) :
    Relays ω easy i r (curlRemoveHandle easy) T := by
  refine .bind (.modify Relay.forgotten (fun s => ?_) (.unseen blind_relay.curlCallbacks fun _ => h))
  simp only [Daemon.relay, Daemon.removeRequest, Relay.forgotten, CurlManager.request?]
  refine congrArg (Relay.mk _ _) (Option.map_eq_none_iff.mpr (List.find?_eq_none.mpr ?_))
  intro req hreq
  simpa using (List.mem_filter.mp hreq).2

/-- The `[DONE]` marker is queued, or nothing is. -/
theorem Relays.queueDone (hr : r.Sound) :
    Relays ω easy i r (queueDone i) fun _ r' => ∃ marker, (marker = [] ∨ marker = sseDone) ∧
      r.Adds marker r' ∧ (ω.Generous → r.Packed → r.buffer.isSome →
        r.unsent.length + sseDone.length ≤ writeBufferMaxSize → marker = sseDone) := by
  refine .bind (.get fun s hs => .pure ?_)
  subst hs
  cases hwb : (s.connections i).asyncWriteBuf with
  | none =>
    refine .pure ⟨[], .inl rfl, .refl hr, fun _ _ hb => ?_⟩
    simp [Daemon.relay, hwb] at hb
  | some wb =>
    have hshort : sseDone.length ≤ writeBufferDefaultSize := by
      rw [length_sseDone, writeBufferDefaultSize]
      omega
    refine .bind (Relays.writeBufferAppend fun block a wb' hblock ha => ?_)
    have hadds := hr.append hwb hshort ha
    have hfailed : a ≠ .ok → ∃ marker, (marker = [] ∨ marker = sseDone) ∧
        (s.relay easy i).Adds marker { s.relay easy i with buffer := some wb' } ∧
        (ω.Generous → (s.relay easy i).Packed → (s.relay easy i).buffer.isSome →
          (s.relay easy i).unsent.length + sseDone.length ≤ writeBufferMaxSize →
          marker = sseDone) := by
      intro hne
      rw [if_neg hne] at hadds
      refine ⟨[], .inl rfl, hadds, fun hg hp _ hfit => ?_⟩
      exact absurd hfit (Nat.not_le.mpr (hr.full hwb hshort ha (hblock hg) hp hne))
    cases a with
    | ok =>
      refine .unseen (daemonMarkConnectionDirty_offRelay i) fun _ => ?_
      exact ⟨sseDone, .inr rfl, hadds, fun _ _ _ _ => rfl⟩
    | noMemory => exact .pure (hfailed (by decide))
    | full => exact .pure (hfailed (by decide))

/-- **What the message of a request does**: the marker follows a response that succeeded and was
sent so far. -/
theorem Relays.checkCompletion {req : CurlRequest} {done : Finished} (hr : r.Sound) :
    Relays ω req.easy req.conn r (checkCompletion req done) fun _ r' =>
      ∃ marker, (marker = [] ∨ marker = sseDone ∧ req.success done ∧ req.headersSent) ∧
        r'.unsent = r.unsent ++ marker ∧
        (ω.Generous → r.Packed → r.buffer.isSome →
          r.unsent.length + sseDone.length ≤ writeBufferMaxSize → req.success done →
          req.headersSent → marker = sseDone) := by
  have hf : r.forgotten.Sound := hr
  refine .bind (Relays.curlRemoveHandle (.bind ?_))
  have hclose : ∀ {W : Relay} {T : Unit → Relay → Prop}, T () W →
      Relays ω req.easy req.conn W (do
        connSetState req.conn .closing
        updateConn req.conn fun c => { c with curlEasy := none }) T := by
    intro W T h
    refine .bind (.unseen (updateConn_offRelay (fun _ => rfl) fun _ => rfl) fun _ => ?_)
    exact .unseen (updateConn_offRelay (fun _ => rfl) fun _ => rfl) fun _ => h
  refine .ite (fun hc => .conseq (Relays.queueDone hf) fun _ r' h => hclose ?_) fun hc => ?_
  · obtain ⟨marker, hm, hadds, hgood⟩ := h
    refine ⟨marker, hm.imp_right fun h => ⟨h, hc⟩, hadds.unsent, fun hg hp hb hfit _ _ => ?_⟩
    exact hgood hg hp hb hfit
  · refine .pure (hclose ⟨[], .inl rfl, (List.append_nil _).symm, fun _ _ _ _ h₁ h₂ => ?_⟩)
    exact absurd ⟨h₁, h₂⟩ hc

end

end SocketHandoff.Uring
