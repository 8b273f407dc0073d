import SocketHandoff.Swow.StreamInvariant

/-!
# How long the streams of a multi handle live

As long as no call times out while the reader writes to its client, the law of the streams holds in
every state. A call that does returns with the reader in the middle of its callback, and the next
thing the reader does is to write to a client whose call has returned.
-/

namespace SocketHandoff.Swow

open Php

variable {contentOf : ContentOf} {maxStreams : Nat} {s s' : Streams} {label : Label}
  {c d : CallId} {k k' : Call} {id : ObjectId} {p p' : Place}

/-! ## The tables -/

theorem addHandle_sound {m : CurlMultiManager} (h : m.Sound) (hroom : m.hasCapacity = true)
    (hid : m.activeHandles.lookup id = none) : (m.addHandle id c).Sound where
  same := by rw [CurlMultiManager.addHandle, h.same]
  counted := by
    have hnone : id ∉ m.activeHandles.keys :=
      fun hmem => AList.lookup_eq_none.mp hid (AList.mem_keys.mpr hmem)
    rw [CurlMultiManager.addHandle, AList.keys_insert, List.length_cons,
      List.erase_of_not_mem hnone, h.counted]
  bounded := of_decide_eq_true hroom

theorem removeHandleInternal_sound {m : CurlMultiManager} (h : m.Sound) :
    (m.removeHandleInternal id).Sound := by
  rw [CurlMultiManager.removeHandleInternal]
  split
  · next hisset =>
    have hmem : id ∈ m.activeHandles.keys := AList.mem_keys.mp (AList.lookup_isSome.mp hisset)
    have hpos : 0 < m.activeStreams := h.counted ▸ List.length_pos_of_mem hmem
    refine ⟨congrArg (AList.erase id) h.same, ?_, ?_⟩
    · rw [AList.keys_erase, List.length_erase_of_mem hmem, if_pos hpos, h.counted]
    · rw [if_pos hpos]
      exact Nat.le_trans (Nat.sub_le _ _) h.bounded
  · exact h

/-- Only one handle that exists is found by its object id. -/
theorem Streams.Inv.listed_of_isset (hs : s.Inv) (hk : s.calls[c]? = some k)
    (hlive : s.live c k = true) (hisset : s.manager.isset k.objectId = true) : s.Listed c k := by
  obtain ⟨d, hd⟩ := Option.isSome_iff_exists.mp hisset
  obtain ⟨k', hk', hobject⟩ := hs.entry _ d hd
  have hlisted : s.Listed d k' := by
    rw [Streams.Listed, hobject]
    exact hd
  have hlive' : s.live d k' = true := live_iff.mpr (.inr (.inr (.inl hlisted)))
  obtain rfl := hs.distinct c d k k' hk hk' hlive hlive' hobject.symm
  exact hd

/-- The table without the handle of a call. -/
theorem Streams.Inv.lookup_removeHandle (hs : s.Inv) (hk : s.calls[c]? = some k)
    (hlive : s.live c k = true) (refused : Bool) :
    (s.removeHandle c k refused).manager.activeHandles.lookup id = some d ↔
      s.manager.activeHandles.lookup id = some d ∧ d ≠ c := by
  rw [Streams.removeHandle, CurlMultiManager.removeHandleInternal]
  by_cases hisset : s.manager.isset k.objectId = true
  · have hlisted := hs.listed_of_isset hk hlive hisset
    rw [if_pos hisset]
    by_cases hid : id = k.objectId
    · subst hid
      rw [AList.lookup_erase]
      refine iff_of_false (Option.some_ne_none d).symm fun h => h.2 ?_
      exact Option.some.inj (h.1.symm.trans hlisted)
    · rw [AList.lookup_erase_ne hid]
      refine (and_iff_left_of_imp fun h hdc => hid ?_).symm
      subst hdc
      obtain ⟨k', hk', hobject⟩ := hs.entry id d h
      obtain rfl := Option.some.inj (hk.symm.trans hk')
      exact hobject.symm
  · rw [if_neg hisset]
    refine (and_iff_left_of_imp fun h hdc => hisset ?_).symm
    subst hdc
    obtain ⟨k', hk', hobject⟩ := hs.entry id d h
    obtain rfl := Option.some.inj (hk.symm.trans hk')
    rw [CurlMultiManager.isset, hobject, h]
    rfl

/-- What is left of a call when its handle has been removed. -/
structure Call.Detached (refused : Bool) (listed : Prop) (k k' : Call) : Prop where
  objectId : k'.objectId = k.objectId
  ctx : k'.ctx = k.ctx
  signalled : k'.signalled = k.signalled
  returned : k'.returned = k.returned
  completed : k'.completed = k.completed
  attached : k'.attached = true → k.attached = true ∧ (listed → refused = true)
  removed : k'.added = true → k'.removed = 1

/-- The calls when the handle of one has been removed. -/
theorem Streams.Inv.calls_removeHandle (hs : s.Inv) (hk : s.calls[c]? = some k)
    (hlive : s.live c k = true) (refused : Bool)
    (hk' : (s.removeHandle c k refused).calls[d]? = some k') :
    (d ≠ c ∧ s.calls[d]? = some k') ∨ (d = c ∧ k.Detached refused (s.Listed c k) k') := by
  have hok := hs.ok c k hk
  rw [Streams.removeHandle] at hk'
  by_cases hisset : s.manager.isset k.objectId = true
  · have hlisted := hs.listed_of_isset hk hlive hisset
    simp only [if_pos hisset] at hk'
    obtain ⟨k₀, hk₀, rfl⟩ := modify_some hk'
    by_cases hcd : c = d
    · subst hcd
      obtain rfl := Option.some.inj (hk.symm.trans hk₀)
      rw [if_pos rfl]
      refine .inr ⟨rfl, rfl, rfl, rfl, rfl, rfl, fun h => ?_, fun _ => ?_⟩
      · obtain ⟨hattached, hrefused⟩ := Bool.and_eq_true_iff.mp h
        exact ⟨hattached, fun _ => hrefused⟩
      · exact congrArg (· + 1) (hok.listedAdded hlisted).2
    · rw [if_neg hcd]
      exact .inl ⟨fun h => hcd h.symm, hk₀⟩
  · simp only [if_neg hisset] at hk'
    by_cases hdc : d = c
    · subst hdc
      obtain rfl := Option.some.inj (hk.symm.trans hk')
      have hnot : ¬ s.Listed d k := fun hl => hisset (by rw [CurlMultiManager.isset, hl]; rfl)
      exact .inr ⟨rfl, rfl, rfl, rfl, rfl, rfl, fun h => ⟨h, fun hl => absurd hl hnot⟩,
        fun hadded => hok.unlisted hadded hnot⟩
    · exact .inl ⟨hdc, hk'⟩

theorem length_removeHandle (refused : Bool) :
    (s.removeHandle c k refused).calls.length = s.calls.length := by
  rw [Streams.removeHandle]
  dsimp only
  split
  · exact List.length_modify ..
  · rfl

theorem removeHandle_sound (h : s.manager.Sound) (c : CallId) (refused : Bool) :
    (s.removeHandle c k refused).manager.Sound := removeHandleInternal_sound h

/-- The table has the handles of the other calls as before. -/
theorem Streams.Inv.listed_removeHandle (hs : s.Inv) (hk : s.calls[c]? = some k)
    (hlive : s.live c k = true) (refused : Bool) (d : CallId) (k' : Call) :
    (s.removeHandle c k refused).manager.activeHandles.lookup k'.objectId = some d ↔
      s.Listed d k' ∧ d ≠ c := hs.lookup_removeHandle hk hlive refused

/-! ## The other steps -/

theorem Call.Ok.congr {listed listed' : Prop} (h : Call.Ok p listed c k)
    (hl : listed' ↔ listed) : Call.Ok p listed' c k := propext hl ▸ h

theorem inv_wake (hs : s.Inv) (hk : s.calls[c]? = some k) (hsignalled : k.signalled = true) :
    Streams.Inv { s with calls := s.calls.modify c fun k => { k with returned := true } } := by
  refine hs.of_calls hs.tables (fun _ _ h => h) (fun _ h => .inl h) hs.owner
    (List.length_modify ..) fun d k' hk' => ?_
  obtain ⟨k₀, hk₀, rfl⟩ := modify_some hk'
  have hok := hs.ok d k₀ hk₀
  by_cases hcd : c = d
  · subst hcd
    obtain rfl := Option.some.inj (hk.symm.trans hk₀)
    have hover : k.Over := .inr hsignalled
    rw [if_pos rfl]
    refine ⟨k, hk, rfl, id, fun h => absurd h (by simp), ?_⟩
    exact
      { listedAdded := hok.listedAdded
        unlisted := hok.unlisted
        attachedOver := fun hattached _ => hok.attachedOver hattached hover
        listedOver := fun hl _ => hok.listedOver hl hover
        completedOnce := hok.completedOnce
        completedListed := hok.completedListed
        owner := fun hc _ => hok.owner hc hover
        completing := hok.completing
        cleaning := hok.cleaning }
  · rw [if_neg hcd]
    exact ⟨k₀, hk₀, rfl, id, id, hok⟩

/-- A call that times out while the reader does not write to its client. -/
theorem inv_timeOut (hs : s.Inv) (hk : s.calls[c]? = some k) (hswitches : s.place.switches = true)
    (hreturned : k.returned = false) (hsignalled : k.signalled = false)
    (hidle : ¬ s.place.WritesFor c) (refused : Bool) :
    Streams.Inv { s.removeHandle c k refused with
      calls := (s.removeHandle c k refused).calls.modify c fun k =>
        { k with ctx.aborted := true, returned := true } } := by
  have hlive : s.live c k = true := live_iff.mpr (.inl hreturned)
  have howner : s.place.owner? ≠ some c := by
    intro h
    cases hplace : s.place with
    | writing e task rest asleep =>
      rw [hplace] at h
      obtain rfl := Option.some.inj h
      exact hidle ⟨task, rest, asleep, hplace⟩
    | lines | pushing => rw [hplace] at hswitches; cases hswitches
    | resting | selecting | driving | reading | cleaning => rw [hplace] at h; cases h
  have hcleaning : s.place ≠ .cleaning c := fun h =>
    Bool.false_ne_true (hsignalled.symm.trans ((hs.ok c k hk).cleaning h))
  have hcompleting : s.place.completing? ≠ some c := by
    intro h
    cases hplace : s.place with
    | writing e task rest asleep =>
      cases task with
      | line m => rw [hplace] at h; cases h
      | completion handle =>
        -- the completion callback writes for the call whose handle it is
        have hsame := hs.owner e (by rw [hplace]; rfl)
        rw [hplace] at h hsame
        obtain rfl := Option.some.inj h
        obtain rfl := Option.some.inj hsame
        exact howner (by rw [hplace]; rfl)
    | cleaning handle =>
      rw [hplace] at h
      obtain rfl := Option.some.inj h
      exact hcleaning hplace
    | pushing => rw [hplace] at hswitches; cases hswitches
    | resting | selecting | driving | reading | lines => rw [hplace] at h; cases h
  refine hs.of_calls (removeHandle_sound hs.tables c refused)
    (fun _ _ h => ((hs.lookup_removeHandle hk hlive refused).mp h).1) (fun _ h => .inl h) hs.owner
    ((List.length_modify ..).trans (length_removeHandle refused)) fun d k' hk' => ?_
  obtain ⟨k₁, hk₁, rfl⟩ := modify_some hk'
  have hlisted := hs.listed_removeHandle hk hlive refused d k₁
  rcases hs.calls_removeHandle hk hlive refused hk₁ with ⟨hdc, hk₁⟩ | ⟨rfl, hdetached⟩
  · rw [if_neg fun h => hdc h.symm]
    refine ⟨k₁, hk₁, rfl, id, id, (hs.ok d k₁ hk₁).congr (hlisted.trans (and_iff_left hdc))⟩
  · have hnot := fun hl => (hlisted.mp hl).2 rfl
    rw [if_pos rfl]
    refine ⟨k, hk, hdetached.objectId, fun h => (hdetached.attached h).1,
      fun h => absurd h (by simp), ?_⟩
    exact
      { listedAdded := fun hl => absurd hl hnot
        unlisted := fun hadded _ => hdetached.removed hadded
        attachedOver := fun _ _ => .inl rfl
        listedOver := fun hl => absurd hl hnot
        completedOnce := hdetached.completed ▸ (hs.ok d k hk).completedOnce
        completedListed := fun hl => absurd hl hnot
        owner := fun h => absurd h howner
        completing := fun h => absurd h hcompleting
        cleaning := fun h => absurd h hcleaning }

/-- The completion callback, until it writes or pushes. -/
theorem onComplete_keeps (k : Call) (c : CallId) (success : Bool) (httpCode : Nat) :
    (k.Like { (k.onComplete c c success httpCode).1 with completed := k.completed }) ∧
      (k.onComplete c c success httpCode).1.completed = k.completed + 1 ∧
      (k.onComplete c c success httpCode).2.owner? = some c ∧
      (k.onComplete c c success httpCode).2.handle? = some c ∧
      (k.onComplete c c success httpCode).2.completing? = some c ∧
      ∀ d, (k.onComplete c c success httpCode).2 ≠ .cleaning d := by
  rw [Call.onComplete]
  split
  · exact ⟨⟨rfl, rfl, rfl, rfl, rfl, rfl, rfl, id⟩, rfl, rfl, rfl, rfl, fun _ => Place.noConfusion⟩
  · split
    · exact ⟨⟨rfl, rfl, rfl, rfl, rfl, rfl, rfl, id⟩, rfl, rfl, rfl, rfl,
        fun _ => Place.noConfusion⟩
    · exact ⟨⟨rfl, rfl, rfl, rfl, rfl, rfl, rfl, id⟩, rfl, rfl, rfl, rfl,
        fun _ => Place.noConfusion⟩

/-- The callback that is found for a handle is its own. -/
theorem Streams.Inv.callback_own (hs : s.Inv) (hk : s.calls[c]? = some k)
    (hattached : k.attached = true)
    (hd : s.manager.completionCallbacks.lookup k.objectId = some d) : d = c ∧ s.Listed c k := by
  rw [hs.tables.same] at hd
  have hlive : s.live c k = true := live_iff.mpr (.inr (.inl hattached))
  have hlisted := hs.listed_of_isset hk hlive (by rw [CurlMultiManager.isset, hd]; rfl)
  exact ⟨Option.some.inj (hd.symm.trans hlisted), hlisted⟩

theorem inv_complete (hs : s.Inv) (hk : s.calls[c]? = some k) (hplace : s.place = .reading)
    (hattached : k.attached = true) (hlisted : s.Listed c k) (success : Bool) (httpCode : Nat) :
    Streams.Inv { s with
      calls := s.calls.modify c fun k => (k.onComplete c c success httpCode).1
      place := (k.onComplete c c success httpCode).2 } := by
  obtain ⟨hlike, hcompleted, howner, hhandle, hcompleting, hnot⟩ :=
    onComplete_keeps k c success httpCode
  have hok := hs.ok c k hk
  have hnotOver : ¬ k.Over := fun hover =>
    Place.noConfusion (hplace.symm.trans (hok.listedOver hlisted hover))
  have hfirst : k.completed = 0 := by
    refine (hok.completedListed hlisted).resolve_right fun h => ?_
    rw [hplace] at h
    cases h
  refine hs.of_calls hs.tables (fun _ _ h => h) (fun d hd => ?_) (fun d hd => ?_)
    (List.length_modify ..) fun d k' hk' => ?_
  · obtain rfl := Option.some.inj (hhandle.symm.trans hd)
    exact .inr ⟨k, hk, hattached⟩
  · exact hhandle.trans (howner.symm.trans hd)
  · obtain ⟨k₀, hk₀, rfl⟩ := modify_some hk'
    by_cases hcd : c = d
    · subst hcd
      obtain rfl := Option.some.inj (hk.symm.trans hk₀)
      rw [if_pos rfl]
      have hobject : (k.onComplete c c success httpCode).1.objectId = k.objectId := hlike.objectId
      have hlisted' : Streams.Listed { s with
          calls := s.calls.modify c fun k => (k.onComplete c c success httpCode).1
          place := (k.onComplete c c success httpCode).2 } c
            (k.onComplete c c success httpCode).1 := by
        rw [Streams.Listed, hobject]
        exact hlisted
      refine ⟨k, hk, hlike.objectId, fun h => hlike.attached ▸ h, fun h => hlike.returned ▸ h, ?_⟩
      have hnotOver' : ¬ (k.onComplete c c success httpCode).1.Over := fun hover =>
        hnotOver (hlike.over.mp hover)
      exact
        { listedAdded := fun _ =>
            ⟨hlike.added.trans (hok.listedAdded hlisted).1,
              hlike.removed.trans (hok.listedAdded hlisted).2⟩
          unlisted := fun _ hl => absurd hlisted' hl
          attachedOver := fun _ hover => absurd hover hnotOver'
          listedOver := fun _ hover => absurd hover hnotOver'
          completedOnce := by rw [hcompleted, hfirst]
          completedListed := fun _ => .inr hcompleting
          owner := fun _ => hnotOver'
          completing := fun _ => hlisted'
          cleaning := fun h => absurd h (hnot c) }
    · rw [if_neg hcd]
      have hok₀ := hs.ok d k₀ hk₀
      rw [hplace] at hok₀
      refine ⟨k₀, hk₀, rfl, id, id, ?_⟩
      exact
        { listedAdded := hok₀.listedAdded
          unlisted := hok₀.unlisted
          attachedOver := fun ha hover => (hok₀.attachedOver ha hover).imp_right Place.noConfusion
          listedOver := fun hl hover => Place.noConfusion (hok₀.listedOver hl hover)
          completedOnce := hok₀.completedOnce
          completedListed := fun hl => .inl ((hok₀.completedListed hl).resolve_right fun h => by cases h)
          owner := fun h => absurd (Option.some.inj (howner.symm.trans h)) hcd
          completing := fun h => absurd (Option.some.inj (hcompleting.symm.trans h)) hcd
          cleaning := fun h => absurd h (hnot d) }

theorem inv_push (hs : s.Inv) (hplace : s.place = .pushing c d) :
    Streams.Inv { s with
      calls := s.calls.modify c fun k => { k with signalled := true }
      place := .cleaning d } := by
  have hsame := hs.owner c (by rw [hplace]; rfl)
  rw [hplace] at hsame
  obtain rfl : d = c := Option.some.inj hsame
  refine hs.of_calls hs.tables (fun _ _ h => h) (fun e he => .inl ?_) (fun e he => by cases he)
    (List.length_modify ..) fun e k' hk' => ?_
  · rw [hplace]
    exact he
  · obtain ⟨k₀, hk₀, rfl⟩ := modify_some hk'
    have hok := hs.ok e k₀ hk₀
    rw [hplace] at hok
    by_cases hde : d = e
    · subst hde
      rw [if_pos rfl]
      refine ⟨k₀, hk₀, rfl, id, id, ?_⟩
      exact
        { listedAdded := hok.listedAdded
          unlisted := hok.unlisted
          attachedOver := fun _ _ => .inr rfl
          listedOver := fun _ _ => rfl
          completedOnce := hok.completedOnce
          completedListed := fun _ => .inr rfl
          owner := fun h => by cases h
          completing := fun _ => hok.completing rfl
          cleaning := fun _ => rfl }
    · rw [if_neg hde]
      refine ⟨k₀, hk₀, rfl, id, id, ?_⟩
      exact
        { listedAdded := hok.listedAdded
          unlisted := hok.unlisted
          attachedOver := fun ha hover => (hok.attachedOver ha hover).imp_right Place.noConfusion
          listedOver := fun hl hover => Place.noConfusion (hok.listedOver hl hover)
          completedOnce := hok.completedOnce
          completedListed := hok.completedListed
          owner := fun h => by cases h
          completing := hok.completing
          cleaning := fun h => absurd (Place.cleaning.inj h) hde }

theorem inv_cleanUp (hs : s.Inv) (hk : s.calls[c]? = some k) (hplace : s.place = .cleaning c) :
    Streams.Inv { s.removeHandle c k false with place := .reading } := by
  have hok := hs.ok c k hk
  have hwas : s.Listed c k := hok.completing (by rw [hplace]; rfl)
  have hlive : s.live c k = true := live_iff.mpr (.inr (.inr (.inl hwas)))
  refine hs.of_calls (removeHandle_sound hs.tables c false)
    (fun _ _ h => ((hs.lookup_removeHandle hk hlive false).mp h).1) (fun _ h => by cases h)
    (fun _ h => by cases h) (length_removeHandle false) fun d k' hk' => ?_
  have hlisted := hs.listed_removeHandle hk hlive false d k'
  rcases hs.calls_removeHandle hk hlive false hk' with ⟨hdc, hk'⟩ | ⟨rfl, hdetached⟩
  · have hok' := hs.ok d k' hk'
    rw [hplace] at hok'
    refine ⟨k', hk', rfl, id, id, Call.Ok.congr ?_ (hlisted.trans (and_iff_left hdc))⟩
    have hother : Place.cleaning c ≠ .cleaning d := fun h => hdc (Place.cleaning.inj h).symm
    exact
      { listedAdded := hok'.listedAdded
        unlisted := hok'.unlisted
        attachedOver := fun ha hover => .inl ((hok'.attachedOver ha hover).resolve_right hother)
        listedOver := fun hl hover => absurd (hok'.listedOver hl hover) hother
        completedOnce := hok'.completedOnce
        completedListed := fun hl => .inl ((hok'.completedListed hl).resolve_right fun h =>
          hdc (Option.some.inj h).symm)
        owner := fun h => by cases h
        completing := fun h => by cases h
        cleaning := fun h => by cases h }
  · have hnot := fun hl => (hlisted.mp hl).2 rfl
    refine ⟨k, hk, hdetached.objectId, fun h => (hdetached.attached h).1,
      fun h => hdetached.returned ▸ h, ?_⟩
    exact
      { listedAdded := fun hl => absurd hl hnot
        unlisted := fun hadded _ => hdetached.removed hadded
        attachedOver := fun ha => absurd ((hdetached.attached ha).2 hwas) Bool.false_ne_true
        listedOver := fun hl => absurd hl hnot
        completedOnce := hdetached.completed ▸ hok.completedOnce
        completedListed := fun hl => absurd hl hnot
        owner := fun h => by cases h
        completing := fun h => by cases h
        cleaning := fun h => by cases h }

/-- A message for a handle that is not in the table changes nothing. -/
theorem removeHandle_forgotten (h : s.manager.activeHandles.lookup k.objectId = none) :
    s.removeHandle c k false = s := by
  have hisset : ¬ s.manager.isset k.objectId = true := by
    rw [CurlMultiManager.isset, h]
    exact Bool.false_ne_true
  rw [Streams.removeHandle, CurlMultiManager.removeHandleInternal, if_neg hisset, if_neg hisset]

theorem append_some {calls : List Call} (h : (calls ++ [k])[d]? = some k') :
    calls[d]? = some k' ∨ (d = calls.length ∧ k' = k) := by
  rcases Nat.lt_trichotomy d calls.length with hlt | rfl | hgt
  · rw [List.getElem?_append_left hlt] at h
    exact .inl h
  · rw [List.getElem?_concat_length] at h
    exact .inr ⟨rfl, (Option.some.inj h).symm⟩
  · rw [List.getElem?_eq_none (by rw [List.length_append]; exact hgt)] at h
    cases h

/-- An object id that is not in use is that of no handle that exists. -/
theorem inUse_false (h : s.inUse id = false) (hk : s.calls[c]? = some k)
    (hlive : s.live c k = true) : k.objectId ≠ id := by
  intro hid
  have hmem : (k, c) ∈ s.calls.zipIdx := List.mem_zipIdx_iff_getElem?.mpr hk
  have hany := List.any_eq_false.mp h (k, c) hmem
  simp [hid, hlive] at hany

theorem Streams.Inv.lookup_fresh (hs : s.Inv) (h : s.inUse id = false) :
    s.manager.activeHandles.lookup id = none := by
  cases hid : s.manager.activeHandles.lookup id with
  | none => rfl
  | some c =>
    obtain ⟨k, hk, rfl⟩ := hs.entry id c hid
    exact absurd rfl (inUse_false h hk (live_iff.mpr (.inr (.inr (.inl hid)))))

/-- A call is made, and its handle is added or not. -/
theorem inv_append (hs : s.Inv) (hfresh : s.inUse id = false) (added refused : Bool)
    {m : CurlMultiManager} (hm : m.Sound)
    (hlookup : ∀ id' d, m.activeHandles.lookup id' = some d ↔
      (added = true ∧ id' = id ∧ d = s.calls.length) ∨
        s.manager.activeHandles.lookup id' = some d) :
    Streams.Inv { s with manager := m, calls := s.calls ++ [.new id added refused] } := by
  have hold : ∀ d k, s.calls[d]? = some k → d ≠ s.calls.length := fun d k hk =>
    Nat.ne_of_lt (List.getElem?_eq_some_iff.mp hk).1
  -- the table has the handles of the other calls as before
  have hlisted : ∀ d k, s.calls[d]? = some k →
      (m.activeHandles.lookup k.objectId = some d ↔ s.Listed d k) := by
    intro d k hk
    rw [hlookup]
    exact or_iff_right fun h => hold d k hk h.2.2
  have hnew : s.manager.activeHandles.lookup id ≠ some s.calls.length := by
    rw [hs.lookup_fresh hfresh]
    exact (Option.some_ne_none _).symm
  have hlive : ∀ d k, s.calls[d]? = some k →
      Streams.live { s with manager := m, calls := s.calls ++ [.new id added refused] } d k = true →
      s.live d k = true := by
    intro d k hk h
    rw [live_iff] at h ⊢
    exact h.imp_right fun h => h.imp_right fun h => h.imp_left (hlisted d k hk).mp
  have hplace : ∀ {o : Option CallId}, o = s.place.handle? → o ≠ some s.calls.length := by
    rintro _ rfl h
    exact Nat.lt_irrefl _ (hs.placed _ h)
  refine ⟨hm, ?_, ?_, ?_, hs.owner, ?_⟩
  · intro id' d h
    rcases (hlookup id' d).mp h with ⟨-, rfl, rfl⟩ | h
    · exact ⟨_, List.getElem?_concat_length, rfl⟩
    · obtain ⟨k, hk, hobject⟩ := hs.entry id' d h
      exact ⟨k, (List.getElem?_append_left (List.getElem?_eq_some_iff.mp hk).1).trans hk, hobject⟩
  · intro c d k k' hk hk' hc hd hid
    rcases append_some hk with hk | ⟨rfl, rfl⟩ <;> rcases append_some hk' with hk' | ⟨rfl, rfl⟩
    · exact hs.distinct c d k k' hk hk' (hlive c k hk hc) (hlive d k' hk' hd) hid
    · exact absurd hid (inUse_false hfresh hk (hlive c k hk hc))
    · exact absurd hid.symm (inUse_false hfresh hk' (hlive d k' hk' hd))
    · rfl
  · intro c hc
    rw [List.length_append]
    exact Nat.lt_succ_of_lt (hs.placed c hc)
  · intro d k hk
    rcases append_some hk with hk | ⟨rfl, rfl⟩
    · exact (hs.ok d k hk).congr (hlisted d k hk)
    · have hiff : Streams.Listed { s with manager := m, calls := s.calls ++ [.new id added refused] }
          s.calls.length (.new id added refused) ↔ added = true :=
        (hlookup id _).trans ((or_iff_left hnew).trans (and_iff_left ⟨rfl, rfl⟩))
      have hcompleting : s.place.completing? ≠ some s.calls.length := fun h =>
        hplace rfl (handle?_of_completing? h)
      refine Call.Ok.congr ?_ hiff
      cases added with
      | false =>
        exact
          { listedAdded := fun h => by cases h
            unlisted := fun h => by cases h
            attachedOver := fun h => by cases h
            listedOver := fun h => by cases h
            completedOnce := Nat.zero_le _
            completedListed := fun h => by cases h
            owner := fun h => absurd (hs.owner _ h) (hplace rfl)
            completing := fun h => absurd h hcompleting
            cleaning := fun h => absurd (congrArg Place.completing? h) hcompleting }
      | true =>
        have hnotOver : ¬ (Call.new id true refused).Over := by
          rintro (h | h) <;> cases h
        exact
          { listedAdded := fun _ => ⟨rfl, rfl⟩
            unlisted := fun _ h => absurd rfl h
            attachedOver := fun _ h => absurd h hnotOver
            listedOver := fun _ h => absurd h hnotOver
            completedOnce := Nat.zero_le _
            completedListed := fun _ => .inl rfl
            owner := fun _ => hnotOver
            completing := fun _ => rfl
            cleaning := fun h => absurd (congrArg Place.completing? h) hcompleting }

/-! ## All runs -/

/-- **A step keeps the invariant**, unless a call times out while the reader writes to its client. -/
theorem inv_step (hs : s.Inv) (hpatient : s.Patient label)
    (hstep : s.step contentOf label = some s') : s'.Inv := by
  cases step_moves hstep with
  | added id refused hswitches hfresh hroom =>
    refine inv_append hs hfresh true refused
      (addHandle_sound hs.tables hroom (hs.lookup_fresh hfresh)) fun id' d => ?_
    by_cases hid : id' = id
    · subst hid
      rw [CurlMultiManager.addHandle, AList.lookup_insert, hs.lookup_fresh hfresh]
      constructor
      · exact fun h => .inl ⟨rfl, rfl, (Option.some.inj h).symm⟩
      · rintro (⟨-, -, rfl⟩ | h)
        · rfl
        · cases h
    · rw [CurlMultiManager.addHandle, AList.lookup_insert_ne hid]
      exact (or_iff_right fun h => hid h.2.1).symm
  | unadded id refused hswitches hfresh =>
    exact inv_append hs hfresh false refused hs.tables fun id' d =>
      (or_iff_right fun h => Bool.false_ne_true h.1).symm
  | wake c k hk hsignalled => exact inv_wake hs hk hsignalled
  | timeOut c k refused hk hswitches hreturned hsignalled =>
    exact inv_timeOut hs hk hswitches hreturned hsignalled hpatient refused
  | goesOn label p' hlabel h h' => exact (works_goesOn h h').inv hs
  | deliver c k data hk hplace hattached haborted =>
    refine Works.inv (works_deliver hs hk hplace hattached haborted fun _ => ?_) hs
    exact ⟨rfl, rfl, rfl, rfl, rfl, rfl, rfl, id⟩
  | line c rest p' hplace howner hhandle hcompleting =>
    refine Works.inv (works_line hs hplace howner hhandle hcompleting fun _ => ?_) hs
    exact ⟨rfl, rfl, rfl, rfl, rfl, rfl, rfl, id⟩
  | write c k task rest rest' asleep asleep' result hk hplace =>
    have hworks := works_write hs hplace (stays_keeps c task rest rest' asleep asleep')
      Call.Like.refl (s.writes ++ [ClientWrite.mk c k.returned])
    have hsame : s.calls.modify c (fun k => k) = s.calls := List.modify_id ..
    rw [hsame] at hworks
    exact hworks.inv hs
  | wrote c k task rest asleep written result hk hplace =>
    exact (works_write hs hplace (next_keeps c task rest asleep written)
      (fun k => finish_like k written task) _).inv hs
  | complete c d k owner success httpCode hk hplace hattached hd howner =>
    obtain ⟨rfl, hlisted⟩ := hs.callback_own hk hattached hd
    obtain rfl := Option.some.inj (hk.symm.trans howner)
    exact inv_complete hs hk hplace hattached hlisted success httpCode
  | forgotten c k success httpCode hnone =>
    rw [removeHandle_forgotten (hs.tables.same ▸ hnone)]
    exact hs
  | push c handle hplace => exact inv_push hs hplace
  | cleanUp handle k hplace hk => exact inv_cleanUp hs hk hplace

/-- The reader writes only for calls that have not returned. -/
theorem owned_step (hs : s.Inv) (hstep : s.step contentOf label = some s')
    (h : ∀ w ∈ s.writes, w.late = false) : ∀ w ∈ s'.writes, w.late = false := by
  have hwrite : ∀ {c task rest asleep k}, s.calls[c]? = some k →
      s.place = .writing c task rest asleep →
      ∀ w ∈ s.writes ++ [ClientWrite.mk c k.returned], w.late = false := by
    intro c task rest asleep k hk hplace w hw
    rcases List.mem_append.mp hw with hw | hw
    · exact h w hw
    · obtain rfl := List.mem_singleton.mp hw
      have hnot := (hs.ok c k hk).owner (by rw [hplace]; rfl)
      exact (Bool.not_eq_true _).mp fun hreturned => hnot (.inl hreturned)
  cases step_moves hstep with
  | write c k task rest rest' asleep asleep' result hk hplace => exact hwrite hk hplace
  | wrote c k task rest asleep written result hk hplace => exact hwrite hk hplace
  | added | unadded | wake | timeOut | goesOn | deliver | line | complete | forgotten | push
  | cleanUp => exact h

theorem lawful_of_inv (hs : s.Inv) (h : ∀ w ∈ s.writes, w.late = false) : s.Lawful where
  sameKeys id := by rw [hs.tables.same]
  counted := hs.tables.counted
  bounded := hs.tables.bounded
  removedOnce c k hk hadded := by
    have hok := hs.ok c k hk
    by_cases hl : s.Listed c k
    · exact .inl ⟨hl, (hok.listedAdded hl).2, fun hreturned => hok.listedOver hl (.inl hreturned)⟩
    · exact .inr ⟨hl, hok.unlisted hadded hl⟩
  completedOnce k hk := by
    obtain ⟨c, hc⟩ := List.getElem?_of_mem hk
    exact (hs.ok c k hc).completedOnce
  owned := h

theorem inv_reachable (h : (streams contentOf maxStreams).ReachableIf Streams.Patient s) :
    s.Inv ∧ ∀ w ∈ s.writes, w.late = false := by
  refine h.invariant (I := fun s => s.Inv ∧ ∀ w ∈ s.writes, w.late = false) ?_ ?_
  · rintro _ rfl
    exact ⟨new_inv, fun w hw => absurd hw List.not_mem_nil⟩
  · rintro s label s' ⟨hs, hwrites⟩ hpatient hstep
    exact ⟨inv_step hs hpatient hstep, owned_step hs hstep hwrites⟩

/-- A call that times out while the reader writes to its client returns, and the reader is where it
was. -/
theorem timeOut_late (hstep : s.step contentOf label = some s') (h : ¬ s.Patient label) :
    ∃ c task rest asleep k, s'.place = .writing c task rest asleep ∧ s'.calls[c]? = some k ∧
      k.returned = true := by
  cases step_moves hstep with
  | timeOut c k refused hk hswitches hreturned hsignalled =>
    obtain ⟨task, rest, asleep, hplace⟩ := not_not.mp h
    have hlt : c < (s.removeHandle c k refused).calls.length := by
      rw [length_removeHandle]
      exact (List.getElem?_eq_some_iff.mp hk).1
    exact ⟨c, task, rest, asleep, _, hplace,
      getElem?_modify_self (List.getElem?_eq_getElem hlt), rfl⟩
  | goesOn label p' hlabel =>
    cases label with
    | timeOut => cases hlabel
    | call | wake | select | exec | deliver | line | write | execDone | complete | push | cleanUp
    | infoDone => exact absurd trivial h
  | added | unadded | wake | deliver | line | write | wrote | complete | forgotten | push
  | cleanUp => exact absurd trivial h

/-- The next write of the reader is then one for a call that has returned. -/
theorem write_late {task : Task} {rest : List UInt8} {asleep : Bool} {result : WriteResult}
    (hplace : s.place = .writing c task rest asleep) (hk : s.calls[c]? = some k)
    (hreturned : k.returned = true) (hstep : s.step contentOf (.write result) = some s') :
    ¬ s'.Lawful := by
  intro h
  have hmem : ClientWrite.mk c true ∈ s'.writes := by
    cases step_moves hstep with
    | write c' k' task' rest' _ asleep' _ result' hk' hplace' =>
      obtain ⟨rfl, -⟩ := Place.writing.inj (hplace.symm.trans hplace')
      obtain rfl := Option.some.inj (hk.symm.trans hk')
      exact hreturned ▸ List.mem_append_right _ List.mem_cons_self
    | wrote c' k' task' rest' asleep' written result' hk' hplace' =>
      obtain ⟨rfl, -⟩ := Place.writing.inj (hplace.symm.trans hplace')
      obtain rfl := Option.some.inj (hk.symm.trans hk')
      exact hreturned ▸ List.mem_append_right _ List.mem_cons_self
    | goesOn label p' hlabel => cases hlabel
  exact Bool.noConfusion (h.owned _ hmem)

/-- **The streams of a multi handle are lawful** in every state, as long as no call times out while
the reader writes to its client. Where one does, the reader can go on, and if it does it breaks the
law. -/
theorem streams_lawful (h : (streams contentOf maxStreams).ReachableIf Streams.Patient s) :
    s.Lawful ∧ ∀ label s', s.step contentOf label = some s' → ¬ s.Patient label →
      (∃ s'', s'.step contentOf (.write .full) = some s'') ∧
        ∀ result s'', s'.step contentOf (.write result) = some s'' → ¬ s''.Lawful := by
  obtain ⟨hs, hwrites⟩ := inv_reachable h
  refine ⟨lawful_of_inv hs hwrites, fun label s' hstep hlate => ?_⟩
  obtain ⟨c, task, rest, asleep, k, hplace, hk, hreturned⟩ := timeOut_late hstep hlate
  refine ⟨?_, fun result s'' hwrite => write_late hplace hk hreturned hwrite⟩
  simp only [Streams.step, hplace, hk]
  exact ⟨_, rfl⟩

/-- A client takes nothing of the first line of its answer. -/
def stalledRun : List Label :=
  [.call 1 false, .select, .exec, .deliver 0 (ascii "data: 1\n"), .line, .write .full]

/-- So far all is well, and then its call times out. -/
theorem streams_lawful_stalled :
    ∃ s s', (streams some 1).run (.new 1) stalledRun = some s ∧ s.Lawful ∧
      s.step some (.timeOut 0 false) = some s' ∧
      ∃ s'', s'.step some (.write .full) = some s'' ∧ ¬ s''.Lawful := by
  have hrun : ((streams some 1).run (.new 1) stalledRun).any (fun s =>
      (s.step some (.timeOut 0 false)).isSome && s.place =
        .writing 0 (.line (.content (ascii "1"))) (ascii "data: 1\n\n") true) = true := by
    decide +kernel
  obtain ⟨s, hs, hlate⟩ := (Option.any_eq_true _ _).mp hrun
  obtain ⟨hstep, hplace⟩ := Bool.and_eq_true_iff.mp hlate
  obtain ⟨s', hs'⟩ := Option.isSome_iff_exists.mp hstep
  have hpatient : ∀ label ∈ stalledRun, ∀ t, Streams.Patient t label := by
    intro label hlabel t
    simp only [stalledRun, List.mem_cons, List.not_mem_nil, or_false] at hlabel
    rcases hlabel with rfl | rfl | rfl | rfl | rfl | rfl <;> exact trivial
  have hwrites : ¬ s.Patient (.timeOut 0 false) := not_not.mpr ⟨_, _, _, of_decide_eq_true hplace⟩
  obtain ⟨hlawful, hnext⟩ := streams_lawful (System.ReachableIf.run (.init rfl) hpatient hs)
  obtain ⟨⟨s'', hs''⟩, hnot⟩ := hnext _ s' hs' hwrites
  exact ⟨s, s', hs, hlawful, hs', s'', hs'', hnot _ s'' hs''⟩

/-- Then its call times out, and the reader tries again. -/
theorem streams_not_lawful : ¬ ∀ s, (streams some 1).Reachable s → s.Lawful := by
  intro h
  have hrun : ((streams some 1).run (.new 1)
      (stalledRun ++ [.timeOut 0 false, .write .full])).any (fun s => s.writes.any (·.late)) =
        true := by decide +kernel
  obtain ⟨s, hs, hlate⟩ := (Option.any_eq_true _ _).mp hrun
  obtain ⟨w, hw, hlate⟩ := List.any_eq_true.mp hlate
  have hlawful := h s (System.Reachable.run (.init rfl) _ hs)
  exact absurd (hlawful.owned w hw) (by rw [hlate]; exact Bool.noConfusion)

end SocketHandoff.Swow
