import SocketHandoff.Swow.Streams

/-!
# An invariant of the streams of a multi handle

The tables of the manager agree, the handles that exist have object ids of their own, and for each
call it is known what the table, libcurl and the reader may still have of it. The steps in which the
reader only works on the text for a client keep this at once; the others are left for the next
module.
-/

namespace SocketHandoff.Swow

open Php

variable {contentOf : ContentOf} {maxStreams : Nat} {s s' : Streams} {label : Label}
  {c d : CallId} {k k' : Call} {id : ObjectId} {p p' : Place}

/-! ## What a step does -/

/-- The steps in which the reader may just go on. -/
def Label.mayGoOn : Label → Bool
  | .select | .exec | .deliver _ _ | .line | .execDone | .infoDone => true
  | _ => false

/-- The steps, with what they need and what they leave. Those in which the reader only works on the
text for a client, or goes on with its loop, are one: they touch neither the tables nor the calls.
-/
inductive Moves (contentOf : ContentOf) (s : Streams) : Label → Streams → Prop
  | added (id : ObjectId) (refused : Bool) : s.place.switches = true → s.inUse id = false →
      s.manager.hasCapacity = true →
      Moves contentOf s (.call id refused) { s with
        manager := s.manager.addHandle id s.calls.length
        calls := s.calls ++ [.new id true refused] }
  | unadded (id : ObjectId) (refused : Bool) : s.place.switches = true → s.inUse id = false →
      Moves contentOf s (.call id refused) { s with calls := s.calls ++ [.new id false refused] }
  | wake (c : CallId) (k : Call) : s.calls[c]? = some k → k.signalled = true →
      Moves contentOf s (.wake c) { s with
        calls := s.calls.modify c fun k => { k with returned := true } }
  | timeOut (c : CallId) (k : Call) (refused : Bool) : s.calls[c]? = some k →
      s.place.switches = true → k.returned = false → k.signalled = false →
      Moves contentOf s (.timeOut c refused) { s.removeHandle c k refused with
        calls := (s.removeHandle c k refused).calls.modify c fun k =>
          { k with ctx.aborted := true, returned := true } }
  | goesOn (label : Label) (p' : Place) : label.mayGoOn = true →
      s.place.completing? = none → p'.handle? = none →
      Moves contentOf s label { s with place := p' }
  | deliver (c : CallId) (k : Call) (data : List UInt8) : s.calls[c]? = some k →
      s.place = .driving → k.attached = true → k.ctx.aborted = false →
      Moves contentOf s (.deliver c data) { s with
        calls := s.calls.modify c fun k =>
          { k with ctx.sseBuffer.text := k.ctx.sseBuffer.text ++ data }
        place := .lines c }
  | line (c : CallId) (rest : List UInt8) (p' : Place) : s.place = .lines c →
      p'.owner? = some c → p'.handle? = some c → p'.completing? = none →
      Moves contentOf s .line { s with
        calls := s.calls.modify c fun k => { k with ctx.sseBuffer.text := rest }
        place := p' }
  | write (c : CallId) (k : Call) (task : Task) (rest rest' : List UInt8) (asleep asleep' : Bool)
      (result : WriteResult) : s.calls[c]? = some k → s.place = .writing c task rest asleep →
      Moves contentOf s (.write result) { s with
        writes := s.writes ++ [ClientWrite.mk c k.returned]
        place := .writing c task rest' asleep' }
  | wrote (c : CallId) (k : Call) (task : Task) (rest : List UInt8) (asleep written : Bool)
      (result : WriteResult) : s.calls[c]? = some k → s.place = .writing c task rest asleep →
      Moves contentOf s (.write result) { s with
        writes := s.writes ++ [ClientWrite.mk c k.returned]
        calls := s.calls.modify c fun k => k.finish written task
        place := task.next c written }
  | complete (c d : CallId) (k owner : Call) (success : Bool) (httpCode : Nat) :
      s.calls[c]? = some k → s.place = .reading → k.attached = true →
      s.manager.completionCallbacks.lookup k.objectId = some d → s.calls[d]? = some owner →
      Moves contentOf s (.complete c success httpCode) { s with
        calls := s.calls.modify d fun k => (k.onComplete d c success httpCode).1
        place := (owner.onComplete d c success httpCode).2 }
  | forgotten (c : CallId) (k : Call) (success : Bool) (httpCode : Nat) :
      s.manager.completionCallbacks.lookup k.objectId = none →
      Moves contentOf s (.complete c success httpCode) (s.removeHandle c k false)
  | push (c handle : CallId) : s.place = .pushing c handle →
      Moves contentOf s .push { s with
        calls := s.calls.modify c fun k => { k with signalled := true }
        place := .cleaning handle }
  | cleanUp (handle : CallId) (k : Call) : s.place = .cleaning handle →
      s.calls[handle]? = some k →
      Moves contentOf s .cleanUp { s.removeHandle handle k false with place := .reading }

/-- Inversion of `step`. -/
theorem step_moves (h : s.step contentOf label = some s') : Moves contentOf s label s' := by
  cases label with
  | call id refused =>
    simp only [Streams.step, Option.ite_none_right_eq_some] at h
    obtain ⟨⟨hswitches, hfresh, -⟩, h⟩ := h
    split at h
    · next hroom => exact Option.some.inj h ▸ .added id refused hswitches hfresh hroom
    · exact Option.some.inj h ▸ .unadded id refused hswitches hfresh
  | wake c =>
    simp only [Streams.step] at h
    split at h
    · next k hk =>
      obtain ⟨hguard, h⟩ := Option.ite_none_right_eq_some.mp h
      exact Option.some.inj h ▸ .wake c k hk hguard.2.2
    · cases h
  | timeOut c refused =>
    simp only [Streams.step] at h
    split at h
    · next k hk =>
      obtain ⟨hguard, h⟩ := Option.ite_none_right_eq_some.mp h
      exact Option.some.inj h ▸ .timeOut c k refused hk hguard.1 hguard.2.1 hguard.2.2.1
    · cases h
  | select =>
    obtain ⟨hplace, h⟩ := Option.ite_none_right_eq_some.mp h
    obtain rfl := Option.some.inj h
    exact .goesOn _ _ rfl (by rw [hplace]; rfl) (by split <;> rfl)
  | exec | execDone | infoDone =>
    obtain ⟨hplace, h⟩ := Option.ite_none_right_eq_some.mp h
    obtain rfl := Option.some.inj h
    exact .goesOn _ _ rfl (by rw [hplace]; rfl) rfl
  | deliver c data =>
    simp only [Streams.step] at h
    split at h
    · next k hk =>
      obtain ⟨⟨hplace, hattached⟩, h⟩ := Option.ite_none_right_eq_some.mp h
      split at h
      · obtain rfl := Option.some.inj h
        exact .goesOn _ s.place rfl (by rw [hplace]; rfl)
          (by rw [hplace]; rfl)
      · next haborted =>
        exact Option.some.inj h ▸
          .deliver c k data hk hplace hattached ((Bool.not_eq_true _).mp haborted)
    · cases h
  | line =>
    simp only [Streams.step] at h
    split at h
    · next c hplace =>
      split at h
      · next k hk =>
        split at h
        · next line rest hline =>
          obtain rfl := Option.some.inj h
          refine .line c rest _ hplace ?_ ?_ ?_
          all_goals cases messageOf contentOf (rtrim line) <;> rfl
        · obtain rfl := Option.some.inj h
          exact .goesOn _ .driving rfl (by rw [hplace]; rfl) rfl
      · cases h
    · cases h
  | write result =>
    simp only [Streams.step] at h
    split at h
    · next c task rest asleep hplace =>
      split at h
      · next k hk =>
        cases result with
        | accepted n =>
          simp only at h
          split at h
          · split at h
            · exact Option.some.inj h ▸ .write c k task rest _ asleep _ _ hk hplace
            · cases h
          · split at h
            · exact Option.some.inj h ▸ .wrote c k task rest asleep true _ hk hplace
            · cases h
        | full => exact Option.some.inj h ▸ .write c k task rest _ asleep _ _ hk hplace
        | failed => exact Option.some.inj h ▸ .wrote c k task rest asleep false _ hk hplace
      · cases h
    · cases h
  | complete c success httpCode =>
    simp only [Streams.step] at h
    split at h
    · next k hk =>
      obtain ⟨⟨hplace, hattached⟩, h⟩ := Option.ite_none_right_eq_some.mp h
      split at h
      · next d hd =>
        split at h
        · next owner howner =>
          exact Option.some.inj h ▸
            .complete c d k owner success httpCode hk hplace hattached hd howner
        · cases h
      · next hnone => exact Option.some.inj h ▸ .forgotten c k success httpCode hnone
    · cases h
  | push =>
    simp only [Streams.step] at h
    split at h
    · next c handle hplace => exact Option.some.inj h ▸ .push c handle hplace
    · cases h
  | cleanUp =>
    simp only [Streams.step] at h
    split at h
    · next handle hplace =>
      split at h
      · next k hk => exact Option.some.inj h ▸ .cleanUp handle k hplace hk
      · cases h
    · cases h

/-! ## The invariant -/

/-- The call has nothing to wait for any more. -/
def Call.Over (k : Call) : Prop := k.returned = true ∨ k.signalled = true

/-- What holds of a call, with the reader at `p`. The place of the reader is an argument, because a
call that is over may keep its handle only as long as the reader cleans up for it. -/
structure Call.Ok (p : Place) (listed : Prop) (c : CallId) (k : Call) : Prop where
  listedAdded : listed → k.added = true ∧ k.removed = 0
  unlisted : k.added = true → ¬ listed → k.removed = 1
  attachedOver : k.attached = true → k.Over → k.ctx.aborted = true ∨ p = .cleaning c
  listedOver : listed → k.Over → p = .cleaning c
  completedOnce : k.completed ≤ 1
  completedListed : listed → k.completed = 0 ∨ p.completing? = some c
  owner : p.owner? = some c → ¬ k.Over
  completing : p.completing? = some c → listed
  cleaning : p = .cleaning c → k.signalled = true

/-- The tables agree: the handles that are registered, their contexts and their number are of the
same streams, so that removing one of them leaves no trace of it in the others. -/
structure CurlMultiManager.Sound (m : CurlMultiManager) : Prop where
  same : m.completionCallbacks = m.activeHandles
  counted : m.activeStreams = m.activeHandles.keys.length
  bounded : m.activeStreams ≤ m.maxStreams

/-- **The invariant.** Beside the tables, the handles that exist have object ids of their own. -/
structure Streams.Inv (s : Streams) : Prop where
  tables : s.manager.Sound
  entry : ∀ id c, s.manager.activeHandles.lookup id = some c →
    ∃ k, s.calls[c]? = some k ∧ k.objectId = id
  distinct : ∀ c d k k', s.calls[c]? = some k → s.calls[d]? = some k' → s.live c k = true →
    s.live d k' = true → k.objectId = k'.objectId → c = d
  placed : ∀ c, s.place.handle? = some c → c < s.calls.length
  owner : ∀ c, s.place.owner? = some c → s.place.handle? = some c
  ok : ∀ c k, s.calls[c]? = some k → Call.Ok s.place (s.Listed c k) c k

theorem live_iff : s.live c k = true ↔
    k.returned = false ∨ k.attached = true ∨ s.Listed c k ∨ s.place.handle? = some c := by
  simp only [Streams.live, Streams.Listed, Bool.or_eq_true, Bool.not_eq_true', decide_eq_true_eq,
    or_assoc]

/-- A call after a change of one of them. -/
theorem modify_some {f : Call → Call} {calls : List Call} (h : (calls.modify c f)[d]? = some k') :
    ∃ k, calls[d]? = some k ∧ k' = if c = d then f k else k := by
  rw [List.getElem?_modify] at h
  obtain ⟨k, hk, rfl⟩ := Option.map_eq_some_iff.mp h
  exact ⟨k, hk, rfl⟩

theorem getElem?_modify_self {f : Call → Call} {calls : List Call} (h : calls[c]? = some k) :
    (calls.modify c f)[c]? = some (f k) := by
  rw [List.getElem?_modify, h]
  exact congrArg some (if_pos rfl)

theorem new_inv : (Streams.new maxStreams).Inv where
  tables := ⟨rfl, rfl, Nat.zero_le _⟩
  entry id c h := by cases h
  distinct c d k k' h := by cases h
  placed c h := by cases h
  owner c h := by cases h
  ok c k h := by cases h

/-- A step that makes no call, and adds no handle to the table or to libcurl, keeps the invariant
where it keeps the tables and what holds of each call. -/
theorem Streams.Inv.of_calls (hs : s.Inv) (htables : s'.manager.Sound)
    (hlookup : ∀ id d, s'.manager.activeHandles.lookup id = some d →
      s.manager.activeHandles.lookup id = some d)
    (hhandle : ∀ d, s'.place.handle? = some d →
      s.place.handle? = some d ∨ ∃ k, s.calls[d]? = some k ∧ k.attached = true)
    (howner : ∀ d, s'.place.owner? = some d → s'.place.handle? = some d)
    (hlength : s'.calls.length = s.calls.length)
    (hcalls : ∀ (d : CallId) (k' : Call), s'.calls[d]? = some k' → ∃ k, s.calls[d]? = some k ∧
      k'.objectId = k.objectId ∧ (k'.attached = true → k.attached = true) ∧
      (k'.returned = false → k.returned = false) ∧ Call.Ok s'.place (s'.Listed d k') d k') :
    s'.Inv := by
  have hlive : ∀ d k', s'.calls[d]? = some k' → s'.live d k' = true →
      ∃ k, s.calls[d]? = some k ∧ k'.objectId = k.objectId ∧ s.live d k = true := by
    intro d k' hk' hlive'
    obtain ⟨k, hk, hobject, hattached, hreturned, -⟩ := hcalls d k' hk'
    refine ⟨k, hk, hobject, live_iff.mpr ?_⟩
    rcases live_iff.mp hlive' with h | h | h | h
    · exact .inl (hreturned h)
    · exact .inr (.inl (hattached h))
    · refine .inr (.inr (.inl ?_))
      rw [Streams.Listed, ← hobject]
      exact hlookup _ _ h
    · rcases hhandle d h with h | ⟨k₀, hk₀, h⟩
      · exact .inr (.inr (.inr h))
      · obtain rfl := Option.some.inj (hk.symm.trans hk₀)
        exact .inr (.inl h)
  refine ⟨htables, ?_, ?_, ?_, howner, ?_⟩
  · intro id c hid
    obtain ⟨k, hk, hobject⟩ := hs.entry id c (hlookup id c hid)
    have hlt : c < s'.calls.length := hlength ▸ (List.getElem?_eq_some_iff.mp hk).1
    have hk' := List.getElem?_eq_getElem hlt
    obtain ⟨k₀, hk₀, hobject', -⟩ := hcalls c _ hk'
    obtain rfl := Option.some.inj (hk.symm.trans hk₀)
    exact ⟨_, hk', hobject'.trans hobject⟩
  · intro c d k k' hk hk' hc hd hid
    obtain ⟨k₀, hk₀, hobject, hc₀⟩ := hlive c k hk hc
    obtain ⟨k₀', hk₀', hobject', hd₀⟩ := hlive d k' hk' hd
    exact hs.distinct c d k₀ k₀' hk₀ hk₀' hc₀ hd₀ (hobject.symm.trans (hid.trans hobject'))
  · intro c hc
    rw [hlength]
    rcases hhandle c hc with hc | ⟨k, hk, -⟩
    · exact hs.placed c hc
    · exact (List.getElem?_eq_some_iff.mp hk).1
  · intro c k' hk'
    obtain ⟨_, _, _, _, _, hok⟩ := hcalls c k' hk'
    exact hok

/-! ## Steps in which the reader only works -/

/-- Only the context of a call changes, and an aborted one stays so. -/
structure Call.Like (k k' : Call) : Prop where
  objectId : k'.objectId = k.objectId
  signalled : k'.signalled = k.signalled
  returned : k'.returned = k.returned
  added : k'.added = k.added
  attached : k'.attached = k.attached
  removed : k'.removed = k.removed
  completed : k'.completed = k.completed
  aborted : k.ctx.aborted = true → k'.ctx.aborted = true

theorem Call.Like.refl (k : Call) : k.Like k := ⟨rfl, rfl, rfl, rfl, rfl, rfl, rfl, id⟩

theorem Call.Like.over (h : k.Like k') : k'.Over ↔ k.Over := by
  rw [Call.Over, Call.Over, h.returned, h.signalled]

/-- What the reader's work leaves of a state. -/
structure Works (s s' : Streams) : Prop where
  manager : s'.manager = s.manager
  length : s'.calls.length = s.calls.length
  like : ∀ (d : CallId) (k' : Call), s'.calls[d]? = some k' →
    ∃ k, s.calls[d]? = some k ∧ Call.Like k k'
  completing : s'.place.completing? = s.place.completing?
  notCleaning : ∀ d, s.place ≠ .cleaning d
  notCleaning' : ∀ d, s'.place ≠ .cleaning d
  owner : ∀ d, s'.place.owner? = some d →
    s'.place.handle? = some d ∧ ∀ k, s.calls[d]? = some k → ¬ Call.Over k
  handle : ∀ d, s'.place.handle? = some d →
    s.place.handle? = some d ∨ ∃ k, s.calls[d]? = some k ∧ k.attached = true

theorem Works.listed (h : Works s s') (hk : k.Like k') : s'.Listed c k' ↔ s.Listed c k := by
  rw [Streams.Listed, Streams.Listed, h.manager, hk.objectId]

theorem Works.inv (h : Works s s') (hs : s.Inv) : s'.Inv := by
  refine hs.of_calls (h.manager ▸ hs.tables) (fun id d hid => h.manager ▸ hid) h.handle
    (fun d hd => (h.owner d hd).1) h.length fun d k' hk' => ?_
  obtain ⟨k, hk, hlike⟩ := h.like d k' hk'
  have hok := hs.ok d k hk
  have hlisted := h.listed (c := d) hlike
  refine ⟨k, hk, hlike.objectId, fun ha => hlike.attached ▸ ha, fun hr => hlike.returned ▸ hr, ?_⟩
  exact
    { listedAdded := fun hl => by
        rw [hlike.added, hlike.removed]
        exact hok.listedAdded (hlisted.mp hl)
      unlisted := fun hadded hl => by
        rw [hlike.removed]
        exact hok.unlisted (hlike.added ▸ hadded) fun hl' => hl (hlisted.mpr hl')
      attachedOver := fun hattached hover => by
        rcases hok.attachedOver (hlike.attached ▸ hattached) (hlike.over.mp hover) with h' | h'
        · exact .inl (hlike.aborted h')
        · exact absurd h' (h.notCleaning d)
      listedOver := fun hl hover =>
        absurd (hok.listedOver (hlisted.mp hl) (hlike.over.mp hover)) (h.notCleaning d)
      completedOnce := hlike.completed ▸ hok.completedOnce
      completedListed := fun hl => by
        rw [hlike.completed, h.completing]
        exact hok.completedListed (hlisted.mp hl)
      owner := fun hc hover => (h.owner d hc).2 k hk (hlike.over.mp hover)
      completing := fun hc => hlisted.mpr (hok.completing (h.completing ▸ hc))
      cleaning := fun hc => absurd hc (h.notCleaning' d) }

theorem like_modify {f : Call → Call} (hf : ∀ k, Call.Like k (f k))
    (h : (s.calls.modify c f)[d]? = some k') : ∃ k, s.calls[d]? = some k ∧ k.Like k' := by
  obtain ⟨k, hk, rfl⟩ := modify_some h
  refine ⟨k, hk, ?_⟩
  split
  · exact hf k
  · exact .refl k

theorem like_unchanged (h : s.calls[d]? = some k') : ∃ k, s.calls[d]? = some k ∧ k.Like k' :=
  ⟨k', h, .refl k'⟩

/-- What the callbacks do when a message is written changes only the context. -/
theorem finish_like (k : Call) (written : Bool) (task : Task) : k.Like (k.finish written task) := by
  cases task with
  | line m =>
    cases m with
    | done => exact ⟨rfl, rfl, rfl, rfl, rfl, rfl, rfl, id⟩
    | content json =>
      cases written with
      | true => exact ⟨rfl, rfl, rfl, rfl, rfl, rfl, rfl, id⟩
      | false => exact ⟨rfl, rfl, rfl, rfl, rfl, rfl, rfl, fun _ => rfl⟩
  | completion handle => exact ⟨rfl, rfl, rfl, rfl, rfl, rfl, rfl, id⟩

theorem ne_cleaning (h : p.completing? = none) : p ≠ .cleaning d := by
  rintro rfl
  cases h

theorem owner?_eq_none (h : p.handle? = none) : p.owner? = none := by
  cases p with
  | writing c task => cases task <;> cases h
  | lines | pushing | cleaning => cases h
  | resting | selecting | driving | reading => rfl

theorem completing?_eq_none (h : p.handle? = none) : p.completing? = none := by
  cases p with
  | writing c task => cases task <;> cases h
  | lines | pushing | cleaning => cases h
  | resting | selecting | driving | reading => rfl

theorem handle?_of_completing? (h : p.completing? = some c) : p.handle? = some c := by
  cases p with
  | writing d task =>
    cases task with
    | line m => cases h
    | completion handle => exact h
  | pushing | cleaning => exact h
  | resting | selecting | driving | reading | lines => cases h

theorem Streams.Inv.notOver (hs : s.Inv) (hc : s.place.owner? = some c) :
    ∀ k, s.calls[c]? = some k → ¬ k.Over := fun k hk => (hs.ok c k hk).owner hc

theorem works_goesOn (h : s.place.completing? = none) (h' : p'.handle? = none) :
    Works s { s with place := p' } where
  manager := rfl
  length := rfl
  like _ _ hk := like_unchanged hk
  completing := (completing?_eq_none h').trans h.symm
  notCleaning _ := ne_cleaning h
  notCleaning' _ := ne_cleaning (completing?_eq_none h')
  owner d hd := by
    rw [owner?_eq_none h'] at hd
    cases hd
  handle d hd := by
    rw [h'] at hd
    cases hd

theorem works_deliver (hs : s.Inv) (hk : s.calls[c]? = some k) (hplace : s.place = .driving)
    (hattached : k.attached = true) (haborted : k.ctx.aborted = false) {f : Call → Call}
    (hf : ∀ k, Call.Like k (f k)) :
    Works s { s with calls := s.calls.modify c f, place := .lines c } where
  manager := rfl
  length := List.length_modify ..
  like _ _ := like_modify hf
  completing := by rw [hplace]; rfl
  notCleaning _ := by rw [hplace]; exact Place.noConfusion
  notCleaning' _ := Place.noConfusion
  owner d hd := by
    obtain rfl := Option.some.inj hd
    refine ⟨rfl, fun k₀ hk₀ hover => ?_⟩
    obtain rfl := Option.some.inj (hk.symm.trans hk₀)
    rcases (hs.ok c k hk).attachedOver hattached hover with h | h
    · exact absurd (haborted.symm.trans h) Bool.false_ne_true
    · exact absurd (hplace.symm.trans h) Place.noConfusion
  handle d hd := by
    obtain rfl := Option.some.inj hd
    exact .inr ⟨k, hk, hattached⟩

theorem works_line (hs : s.Inv) (hplace : s.place = .lines c) (howner : p'.owner? = some c)
    (hhandle : p'.handle? = some c) (hcompleting : p'.completing? = none) {f : Call → Call}
    (hf : ∀ k, Call.Like k (f k)) :
    Works s { s with calls := s.calls.modify c f, place := p' } where
  manager := rfl
  length := List.length_modify ..
  like _ _ := like_modify hf
  completing := by rw [hplace, hcompleting]; rfl
  notCleaning _ := by rw [hplace]; exact Place.noConfusion
  notCleaning' _ := ne_cleaning hcompleting
  owner d hd := by
    obtain rfl := Option.some.inj (howner.symm.trans hd)
    exact ⟨hhandle, hs.notOver (by rw [hplace]; rfl)⟩
  handle d hd := by
    rw [hplace]
    exact .inl (hhandle.symm.trans hd)

/-- Where the reader goes from `socketWriteAll`, it goes on for the same call and handle. -/
structure Keeps (c : CallId) (p p' : Place) : Prop where
  owner : ∀ d, p'.owner? = some d → d = c ∧ p'.handle? = p.handle?
  handle : ∀ d, p'.handle? = some d → p.handle? = some d
  completing : p'.completing? = p.completing?
  notCleaning : ∀ d, p' ≠ .cleaning d

theorem stays_keeps (c : CallId) (task : Task) (rest rest' : List UInt8) (asleep asleep' : Bool) :
    Keeps c (.writing c task rest asleep) (.writing c task rest' asleep') := by
  cases task <;>
    exact ⟨fun d hd => ⟨(Option.some.inj hd).symm, rfl⟩, fun _ hd => hd, rfl,
      fun _ => Place.noConfusion⟩

theorem next_keeps (c : CallId) (task : Task) (rest : List UInt8) (asleep written : Bool) :
    Keeps c (.writing c task rest asleep) (task.next c written) := by
  cases task with
  | line m =>
    have hdriving : Keeps c (.writing c (.line m) rest asleep) .driving :=
      ⟨fun _ hd => (by cases hd), fun _ hd => (by cases hd), rfl, fun _ => Place.noConfusion⟩
    cases m with
    | done => exact hdriving
    | content json =>
      cases written with
      | true =>
        exact ⟨fun d hd => ⟨(Option.some.inj hd).symm, rfl⟩, fun _ hd => hd, rfl,
          fun _ => Place.noConfusion⟩
      | false => exact hdriving
  | completion handle =>
    exact ⟨fun d hd => ⟨(Option.some.inj hd).symm, rfl⟩, fun _ hd => hd, rfl,
      fun _ => Place.noConfusion⟩

/-- One call of `socket_write`, and what the callback does after it. -/
theorem works_write (hs : s.Inv) {task : Task} {rest : List UInt8} {asleep : Bool}
    (hplace : s.place = .writing c task rest asleep)
    (hp' : Keeps c (.writing c task rest asleep) p') {f : Call → Call}
    (hf : ∀ k, Call.Like k (f k)) (writes : List ClientWrite) :
    Works s { s with calls := s.calls.modify c f, place := p', writes := writes } where
  manager := rfl
  length := List.length_modify ..
  like _ _ := like_modify hf
  completing := by rw [hplace]; exact hp'.completing
  notCleaning _ := by rw [hplace]; exact Place.noConfusion
  notCleaning' := hp'.notCleaning
  owner d hd := by
    obtain ⟨rfl, hsame⟩ := hp'.owner d hd
    have hd' : s.place.owner? = some d := by rw [hplace]; rfl
    rw [← hplace] at hsame
    exact ⟨hsame.trans (hs.owner d hd'), hs.notOver hd'⟩
  handle d hd := by
    rw [hplace]
    exact .inl (hp'.handle d hd)

end SocketHandoff.Swow
