import Quark.FanOut

/-! What one step of a fan-out can do, said once; and the rings of its lanes, which hold in every run of
either mode. -/
namespace Quark.FanOut

open List State

variable {mode : Mode} {cap : Nat}

/-- Every step of a run, with the guards it was taken under. -/
inductive Move (mode : Mode) (cap : Nat) : State → Label → State → Prop
  | none_ (s a) : Move mode cap s a s
  | subscribe (s id) (hunlocked : s.locked = false) (hnew : ∀ e ∈ s.registry, e.1 ≠ id) :
      Move mode cap s (.subscribe id)
        { s.setLane s.made { ring := { cap } } with registry := s.registry ++ [(id, s.made)], made := s.made + 1 }
  | unsubscribe (s id lane) (hunlocked : s.locked = false) (hfind : (s.registry.find? fun e => e.1 = id) =
      some (id, lane)) : Move mode cap s (.unsubscribe id)
        { s.setLane lane { s.lanes lane with active := false } with
        departures := s.departures ++ [(id, lane, .swap)] }
  | swap (s i id lane) (hget : s.departures[i]? = some (id, lane, .swap)) :
      Move mode cap s (.leave i) ({ s with registry := s.registry.filter fun e => !(e.1 = id) }.setDeparture i id lane
        (match mode with | .evictAfter => .quiesce | .block => .disarm))
  | leaveDisarm (s i id lane) (hget : s.departures[i]? = some (id, lane, .disarm)) :
      Move mode cap s (.leave i) ((s.setLane lane { s.lanes lane with stalled := false }).setDeparture
      i id lane .bump)
  | leaveBump (s i id lane) (hget : s.departures[i]? = some (id, lane, .bump)) :
      Move mode cap s (.leave i) ((s.setLane lane (s.lanes lane).bump).setDeparture i id lane .notify)
  | leaveNotify (s i id lane) (hget : s.departures[i]? = some (id, lane, .notify)) :
      Move mode cap s (.leave i) ((s.notify lane).setDeparture i id lane .quiesce)
  | quiesced (s i id lane) (hget : s.departures[i]? = some (id, lane, .quiesce)) (hnone : s.inFlight = 0) :
      Move mode cap s (.leave i) (s.setDeparture i id lane .returned)
  | publish (s) (hpc : s.publisher = .idle) :
      Move mode cap s .publish { s with inFlight := s.inFlight + 1, publisher := .entered }
  | nobody (s) (hpc : s.publisher = .entered) (hempty : s.registry = []) :
      Move mode cap s .publisher { s with publisher := .leaving [] }
  | load (s) (hpc : s.publisher = .entered) (hsome : s.registry ≠ []) :
      Move mode cap s .publisher
        { s with
          pool := s.pool.acquire.2, seq := s.seq + 1
          publisher := .choosing ⟨s.registry.map Prod.snd, s.registry.map Prod.snd, s.pool.acquire.1, s.seq⟩ }
  | finish (s p) (hpc : s.publisher = .choosing p) (hrest : p.rest = []) :
      Move mode cap s .publisher { s with publisher := .dropping p.snap (.dec p.cell) }
  | pass (s p lane rest) (hpc : s.publisher = .choosing p) (hrest : p.rest = lane :: rest)
      (hgone : (s.lanes lane).active = false) :
      Move mode cap s .publisher { s with publisher := .choosing { p with rest } }
  | offer (s p lane rest) (hpc : s.publisher = .choosing p) (hrest : p.rest = lane :: rest)
      (hactive : (s.lanes lane).active = true) :
      Move mode cap s .publisher
        { s.setLane lane ((s.lanes lane).offer p.id) with
          pool := s.pool.retain p.cell
          publisher := .pushing { p with rest } lane
            (match mode with | .evictAfter => .tryPush | .block => .keepGoing) }
  | pushing (s p lane pc pc' l) (hpc : s.publisher = .pushing p lane pc)
      (hstep : (s.lanes lane).pushStep mode p.envelope pc = .at_ pc' l) :
      Move mode cap s .publisher { s.setLane lane l with publisher := .pushing p lane pc' }
  | delivered (s p lane pc l) (hpc : s.publisher = .pushing p lane pc)
      (hstep : (s.lanes lane).pushStep mode p.envelope pc = .delivered l) :
      Move mode cap s .publisher { s.setLane lane l with publisher := .choosing p }
  | refused (s p lane pc l) (hpc : s.publisher = .pushing p lane pc)
      (hstep : (s.lanes lane).pushStep mode p.envelope pc = .refused l) :
      Move mode cap s .publisher { s.setLane lane l with publisher := .undoing p lane (.dec p.cell) }
  | undoing (s p lane r r') (hpc : s.publisher = .undoing p lane r) (hmore : (s.pool.release r).2 = some r') :
      Move mode cap s .publisher { s with pool := (s.pool.release r).1, publisher := .undoing p lane r' }
  | undone (s p lane r) (hpc : s.publisher = .undoing p lane r) (hlast : (s.pool.release r).2 = none) :
      Move mode cap s .publisher
        { s with
          pool := (s.pool.release r).1
          publisher := match mode with | .evictAfter => .counting p lane | .block => .choosing p }
  | count (s p lane) (hpc : s.publisher = .counting p lane) :
      Move mode cap s .publisher { s.setLane lane (s.lanes lane).count with publisher := .choosing p }
  | dropping (s snap r r') (hpc : s.publisher = .dropping snap r) (hmore : (s.pool.release r).2 = some r') :
      Move mode cap s .publisher { s with pool := (s.pool.release r).1, publisher := .dropping snap r' }
  | dropped (s snap r) (hpc : s.publisher = .dropping snap r) (hlast : (s.pool.release r).2 = none) :
      Move mode cap s .publisher { s with pool := (s.pool.release r).1, publisher := .leaving snap }
  | leaving (s snap) (hpc : s.publisher = .leaving snap) :
      Move mode cap s .publisher { s with inFlight := s.inFlight - 1, publisher := .returning snap }
  | returning (s snap) (hpc : s.publisher = .returning snap) :
      Move mode cap s .publisher { s with publisher := .idle }
  | tryPop (s i) (hpc : (s.lanes i).consumer = .idle) (hhandle : (s.lanes i).handle = true)
      (hmore : (s.lanes i).ring.occupancy ≠ 0) :
      Move mode cap s (.tryPop i) (s.setLane i ((s.lanes i).at_ .dispatch))
  | trail (s i) (hpc : (s.lanes i).consumer = .idle) (hhandle : (s.lanes i).handle = true)
      (hbase : (s.lanes i).haveBase = true) (hempty : (s.lanes i).ring.occupancy = 0) :
      Move mode cap s (.takeTrailingGap i) (s.setLane i ((s.lanes i).at_ .trailing))
  | dispatch (s i e) (hpc : (s.lanes i).consumer = .dispatch)
      (hslot : (s.lanes i).ring.slotAt (s.lanes i).ring.disp = some e) :
      Move mode cap s (.consumer i) (s.setLane i ((s.lanes i).pop e))
  | copy (s i e) (hpc : (s.lanes i).consumer = .copy e) :
      Move mode cap s (.consumer i)
        { s.setLane i ((s.lanes i).at_ (.release (.dec e.cell))) with pool := s.pool.value e.cell }
  | releasing (s i r r') (hpc : (s.lanes i).consumer = .release r) (hmore : (s.pool.release r).2 = some r') :
      Move mode cap s (.consumer i)
        { s.setLane i ((s.lanes i).at_ (.release r')) with pool := (s.pool.release r).1 }
  | released (s i r) (hpc : (s.lanes i).consumer = .release r) (hlast : (s.pool.release r).2 = none) :
      Move mode cap s (.consumer i) { s.setLane i ((s.lanes i).at_ .credit) with pool := (s.pool.release r).1 }
  | credit (s i) (hpc : (s.lanes i).consumer = .credit) :
      Move mode cap s (.consumer i) (s.setLane i ((s.lanes i).complete .unstall))
  | unstall (s i) (hpc : (s.lanes i).consumer = .unstall) :
      Move mode cap s (.consumer i) (s.setLane i (s.lanes i).unstall)
  | bump (s i) (hpc : (s.lanes i).consumer = .bump) :
      Move mode cap s (.consumer i) (s.setLane i ((s.lanes i).bump.at_ .notify))
  | notify (s i) (hpc : (s.lanes i).consumer = .notify) :
      Move mode cap s (.consumer i) ((s.setLane i ((s.lanes i).at_ .idle)).notify i)
  | takeTrailing (s i) (hpc : (s.lanes i).consumer = .trailing) :
      Move mode cap s (.consumer i) (s.setLane i (s.lanes i).takeTrailing)
  | drained (s i) (hpc : (s.lanes i).consumer = .drain) (hempty : (s.lanes i).ring.occupancy = 0) :
      Move mode cap s (.consumer i) (s.setLane i ((s.lanes i).at_ .gone))
  | discard (s i e) (hpc : (s.lanes i).consumer = .drain) (hmore : (s.lanes i).ring.occupancy ≠ 0)
      (hslot : (s.lanes i).ring.slotAt (s.lanes i).ring.disp = some e) :
      Move mode cap s (.consumer i) (s.setLane i ((s.lanes i).discard e))
  | discarding (s i r r') (hpc : (s.lanes i).consumer = .drainRelease r) (hmore : (s.pool.release r).2 = some r') :
      Move mode cap s (.consumer i)
        { s.setLane i ((s.lanes i).at_ (.drainRelease r')) with pool := (s.pool.release r).1 }
  | discarded (s i r) (hpc : (s.lanes i).consumer = .drainRelease r) (hlast : (s.pool.release r).2 = none) :
      Move mode cap s (.consumer i) { s.setLane i ((s.lanes i).complete .drain) with pool := (s.pool.release r).1 }
  | drop (s i) (hpc : (s.lanes i).consumer = .idle) (hhandle : (s.lanes i).handle = true) :
      Move mode cap s (.drop i) (s.setLane i { s.lanes i with handle := false })
  | destroy (s i) (hpc : (s.lanes i).consumer = .idle) (hunheld : s.unheld i = true) :
      Move mode cap s (.destroy i) (s.setLane i ((s.lanes i).at_ .drain))

namespace Move

variable {s s' : State} {a : Label} {i : Nat}

theorem of_publisherStep (h : s.publisherStep mode = some s') : Move mode cap s .publisher s' := by
  unfold publisherStep at h
  split at h
  · cases h
  · next hpc =>
    split at h
    · next hempty =>
      cases h
      exact .nobody s hpc (map_eq_nil_iff.mp hempty)
    · next hsome =>
      cases h
      refine .load s hpc fun hempty => hsome ?_
      rw [hempty]
      rfl
  · next p hpc =>
    split at h
    · next hrest =>
      cases h
      exact .finish s p hpc hrest
    · next lane rest hrest =>
      dsimp only at h
      split at h
      · next hactive =>
        cases h
        exact .offer s p lane rest hpc hrest hactive
      · next hgone =>
        cases h
        exact .pass s p lane rest hpc hrest (Bool.eq_false_iff.mpr hgone)
  · next p lane pc hpc =>
    split at h
    · next pc' l hstep =>
      cases h
      exact .pushing s p lane pc pc' l hpc hstep
    · next l hstep =>
      cases h
      exact .delivered s p lane pc l hpc hstep
    · next l hstep =>
      cases h
      exact .refused s p lane pc l hpc hstep
  · next p lane r hpc =>
    dsimp only at h
    split at h
    · next r' hmore =>
      cases h
      exact .undoing s p lane r r' hpc hmore
    · next hlast =>
      cases h
      exact .undone s p lane r hpc hlast
  · next p lane hpc =>
    cases h
    exact .count s p lane hpc
  · next snap r hpc =>
    dsimp only at h
    split at h
    · next r' hmore =>
      cases h
      exact .dropping s snap r r' hpc hmore
    · next hlast =>
      cases h
      exact .dropped s snap r hpc hlast
  · next snap hpc =>
    cases h
    exact .leaving s snap hpc
  · next snap hpc =>
    cases h
    exact .returning s snap hpc

theorem of_consumerStep (h : s.consumerStep i = some s') : Move mode cap s (.consumer i) s' := by
  unfold consumerStep at h
  dsimp only at h
  split at h
  · cases h
  · cases h
  · next hpc =>
    obtain ⟨e, hslot, rfl⟩ := Option.map_eq_some_iff.mp h
    exact .dispatch s i e hpc hslot
  · next e hpc =>
    cases h
    exact .copy s i e hpc
  · next r hpc =>
    split at h
    · next r' hmore =>
      cases h
      exact .releasing s i r r' hpc hmore
    · next hlast =>
      cases h
      exact .released s i r hpc hlast
  · next hpc =>
    cases h
    exact .credit s i hpc
  · next hpc =>
    cases h
    exact .unstall s i hpc
  · next hpc =>
    cases h
    exact .bump s i hpc
  · next hpc =>
    cases h
    exact .notify s i hpc
  · next hpc =>
    cases h
    exact .takeTrailing s i hpc
  · next hpc =>
    split at h
    · next hempty =>
      cases h
      exact .drained s i hpc hempty
    · next hmore =>
      obtain ⟨e, hslot, rfl⟩ := Option.map_eq_some_iff.mp h
      exact .discard s i e hpc hmore hslot
  · next r hpc =>
    split at h
    · next r' hmore =>
      cases h
      exact .discarding s i r r' hpc hmore
    · next hlast =>
      cases h
      exact .discarded s i r hpc hlast

theorem of_leaveStep (h : s.leaveStep mode i = some s') : Move mode cap s (.leave i) s' := by
  unfold leaveStep at h
  split at h
  · cases h
  · next id lane pc hget =>
    dsimp only at h
    split at h
    · cases h
      exact .swap s i id lane hget
    · cases h
      exact .leaveDisarm s i id lane hget
    · cases h
      exact .leaveBump s i id lane hget
    · cases h
      exact .leaveNotify s i id lane hget
    · split at h
      · next hnone =>
        cases h
        exact .quiesced s i id lane hget hnone
      · cases h
    · cases h

theorem of_step (h : s.step mode cap a = some s') : Move mode cap s a s' := by
  cases a with
  | subscribe id =>
    rw [State.step] at h
    split at h
    · cases h
    · next hunlocked =>
      split at h
      · cases h
        exact .none_ s _
      · next hnew =>
        cases h
        refine .subscribe s id (Bool.eq_false_iff.mpr hunlocked) fun e he heq => hnew ?_
        exact any_eq_true.mpr ⟨e, he, decide_eq_true heq⟩
  | unsubscribe id =>
    rw [State.step] at h
    split at h
    · cases h
    · next hunlocked =>
      split at h
      · cases h
        exact .none_ s _
      · next id' lane hfind =>
        cases h
        have hid : id' = id := by simpa using find?_some hfind
        subst hid
        exact .unsubscribe s id' lane (Bool.eq_false_iff.mpr hunlocked) hfind
  | leave i => exact of_leaveStep h
  | publish =>
    rw [State.step] at h
    split at h
    · next hpc =>
      cases h
      exact .publish s hpc
    · cases h
  | publisher => exact of_publisherStep h
  | tryPop i =>
    rw [State.step] at h
    split at h
    · next hready =>
      split at h
      · cases h
        exact .none_ s _
      · next hmore =>
        cases h
        exact .tryPop s i hready.2 hready.1 hmore
    · cases h
  | takeTrailingGap i =>
    rw [State.step] at h
    split at h
    · next hready =>
      split at h
      · next hseen =>
        cases h
        exact .trail s i hready.2 hready.1 hseen.1 hseen.2
      · cases h
        exact .none_ s _
    · cases h
  | consumer i => exact of_consumerStep h
  | drop i =>
    rw [State.step] at h
    split at h
    · next hready =>
      cases h
      exact .drop s i hready.2 hready.1
    · cases h
  | destroy i =>
    rw [State.step] at h
    split at h
    · next hready =>
      cases h
      exact .destroy s i hready.2 hready.1
    · cases h

end Move

def Consumer.holding : Consumer → Bool
  | .copy _ | .release _ | .credit | .drainRelease _ => true
  | _ => false

/-- The cursors of a lane, against what its subscriber's thread has seen. -/
structure Lane.Steady (l : Lane) : Prop where
  ring : l.ring.Holds l.pushed
  dispatch : l.consumer = .dispatch → l.ring.disp < l.ring.head
  holding : l.consumer.holding = true → l.ring.tail < l.ring.disp

/-- The membership: which lanes exist, who may come to one, and who has seen credit. -/
structure Rings (s : State) : Prop where
  steady : ∀ i, (s.lanes i).Steady
  store : ∀ p i, s.publisher = .pushing p i .store → (s.lanes i).ring.full = false
  registered : ∀ e ∈ s.registry, e.2 < s.made
  distinct : (s.registry.map Prod.snd).Nodup
  names : (s.registry.map Prod.fst).Nodup
  swapping : ∀ (i : Nat) (id : ActorId) (lane : Nat), s.departures[i]? = some (id, lane, .swap) →
    (id, lane) ∈ s.registry ∧
    ∀ (j : Nat) (id' : ActorId) (lane' : Nat), s.departures[j]? = some (id', lane', .swap) → j = i
  visits : (s.publisher.facing ++ s.publisher.rest).Nodup
  pinned : ∀ i ∈ s.publisher.facing ++ s.publisher.rest, i ∈ s.publisher.snap
  made : ∀ i ∈ s.publisher.snap, i < s.made
  fresh : ∀ i, s.made ≤ i → s.lanes i = { ring := { cap := 0 }, active := false, handle := false, consumer := .gone }
  active : ∀ i, (s.lanes i).active = true → ∃ e ∈ s.registry, e.2 = i
  departing : ∀ d ∈ s.departures, d.2.1 < s.made ∧ (s.lanes d.2.1).active = false

section

variable {s s' : State} {a : Label} {i j : Nat} {l l' : Lane} {e : Envelope} {c : Consumer}

theorem State.setLane_self : (s.setLane i l).lanes i = l := Function.update_self _ _ _

theorem State.setLane_ne (h : j ≠ i) : (s.setLane i l).lanes j = s.lanes j := Function.update_of_ne h _ _

theorem State.notify_departures : (s.notify i).departures = s.departures := by
  unfold notify
  split
  · split <;> rfl
  · rfl

theorem State.forall_setLane {P : Nat → Lane → Prop} (h : ∀ j, P j (s.lanes j)) (hi : P i l) :
    ∀ j, P j ((s.setLane i l).lanes j) := by
  intro j
  by_cases hj : j = i
  · rw [hj, setLane_self]
    exact hi
  · rw [setLane_ne hj]
    exact h j

namespace Lane.Steady

theorem start (cap : Nat) : Lane.Steady { ring := { cap } } :=
  ⟨.start cap, nofun, nofun⟩

theorem store (h : l.Steady) (hfree : l.ring.full = false) : (l.store e).Steady where
  ring := h.ring.push hfree e
  dispatch hpc := Nat.lt_succ_of_lt (h.dispatch hpc)
  holding := h.holding

theorem at_ (h : l.Steady) (hdispatch : c = .dispatch → l.ring.disp < l.ring.head)
    (hholding : c.holding = true → l.ring.tail < l.ring.disp) : (l.at_ c).Steady :=
  ⟨h.ring, hdispatch, hholding⟩

theorem pop (h : l.Steady) (hpc : l.consumer = .dispatch) : (l.pop e).Steady where
  ring := h.ring.advanceDispatch (h.dispatch hpc)
  dispatch hnext := by cases hnext
  holding _ := Nat.lt_succ_of_le h.ring.tail_le

theorem discard (h : l.Steady) (hmore : l.ring.occupancy ≠ 0) : (l.discard e).Steady where
  ring := h.ring.advanceDispatch (CreditRing.occupancy_pos.mp hmore)
  dispatch hnext := by cases hnext
  holding _ := Nat.lt_succ_of_le h.ring.tail_le

theorem complete (h : l.Steady) (hholding : l.consumer.holding = true) (hc : c = .unstall ∨ c = .drain) :
    (l.complete c).Steady where
  ring := h.ring.advanceTail (h.holding hholding)
  dispatch hnext := by
    have hnext : c = .dispatch := hnext
    rcases hc with rfl | rfl <;> cases hnext
  holding hnext := by
    have hnext : c.holding = true := hnext
    rcases hc with rfl | rfl <;> cases hnext

theorem congr (h : l.Steady) (hring : l'.ring = l.ring) (hpushed : l'.pushed = l.pushed)
    (hc : l'.consumer = l.consumer) : l'.Steady := by
  refine ⟨?_, ?_, ?_⟩
  · rw [hring, hpushed]
    exact h.ring
  · rw [hring, hc]
    exact h.dispatch
  · rw [hring, hc]
    exact h.holding

theorem unstall (h : l.Steady) : l.unstall.Steady := by
  refine ⟨h.ring, fun hc => ?_, fun hc => ?_⟩
  · rw [Lane.unstall] at hc
    cases hstalled : l.stalled <;> rw [hstalled] at hc <;> cases hc
  · rw [Lane.unstall] at hc
    cases hstalled : l.stalled <;> rw [hstalled] at hc <;> cases hc

theorem takeTrailing (h : l.Steady) : l.takeTrailing.Steady := by
  rw [Lane.takeTrailing]
  split
  · exact ⟨h.ring, nofun, nofun⟩
  · exact ⟨h.ring, nofun, nofun⟩

end Lane.Steady

section

variable {env : Envelope} {pc pc' : Pushing}

/-- Between two steps at a lane the publisher changes nothing there but the stall flag. -/
theorem Lane.pushStep_at (h : l.pushStep mode env pc = .at_ pc' l') :
    (∃ b, l' = { l with stalled := b }) ∧ (pc' = .store → l.ring.full = false) := by
  cases pc with
  | keepGoing =>
    rw [Lane.pushStep] at h
    split at h
    · cases h
      exact ⟨⟨l.stalled, rfl⟩, nofun⟩
    · cases h
  | tryPush =>
    rw [Lane.pushStep] at h
    split at h
    · cases mode with
      | evictAfter => cases h
      | block =>
        cases h
        exact ⟨⟨l.stalled, rfl⟩, nofun⟩
    · next hfree =>
      cases h
      exact ⟨⟨l.stalled, rfl⟩, fun _ => Bool.eq_false_iff.mpr hfree⟩
  | store => cases h
  | capture | arm g | asleep g =>
    cases h
    exact ⟨⟨_, rfl⟩, nofun⟩
  | keepGoingAgain g | credit g | wait g =>
    rw [Lane.pushStep] at h
    split at h
    · cases h
      exact ⟨⟨l.stalled, rfl⟩, nofun⟩
    · cases h
      exact ⟨⟨l.stalled, rfl⟩, nofun⟩
  | disarm again =>
    rw [Lane.pushStep] at h
    split at h
    · cases h
      exact ⟨⟨false, rfl⟩, nofun⟩
    · cases h

theorem Lane.pushStep_delivered (h : l.pushStep mode env pc = .delivered l') : pc = .store ∧ l' = l.store env := by
  cases pc with
  | store =>
    cases h
    exact ⟨rfl, rfl⟩
  | capture | arm g | asleep g => cases h
  | keepGoing | keepGoingAgain g | credit g | wait g =>
    rw [Lane.pushStep] at h
    split at h <;> cases h
  | tryPush =>
    rw [Lane.pushStep] at h
    split at h
    · cases mode <;> cases h
    · cases h
  | disarm again =>
    rw [Lane.pushStep] at h
    split at h <;> cases h

/-- A lane refuses because it is full, where it may evict, and else because its subscriber has left. -/
theorem Lane.pushStep_refused (h : l.pushStep mode env pc = .refused l') :
    mode = .evictAfter ∧ pc = .tryPush ∧ l.ring.full = true ∧ l' = l.miss env.id ∨
      (∃ b, l' = { l with stalled := b }) ∧ (pc = .keepGoing ∧ l.active = false ∨ pc = .disarm false) := by
  cases pc with
  | store | capture | arm g | asleep g => cases h
  | keepGoing =>
    rw [Lane.pushStep] at h
    split at h
    · cases h
    · next hgone =>
      cases h
      exact .inr ⟨⟨l.stalled, rfl⟩, .inl ⟨rfl, Bool.eq_false_iff.mpr hgone⟩⟩
  | tryPush =>
    rw [Lane.pushStep] at h
    split at h
    · next hfull =>
      cases mode with
      | evictAfter =>
        cases h
        exact .inl ⟨rfl, rfl, hfull, rfl⟩
      | block => cases h
    · cases h
  | keepGoingAgain g | credit g | wait g =>
    rw [Lane.pushStep] at h
    split at h <;> cases h
  | disarm again =>
    rw [Lane.pushStep] at h
    split at h
    · cases h
    · next hagain =>
      cases h
      exact .inr ⟨⟨false, rfl⟩, .inr (by rw [Bool.eq_false_iff.mpr hagain])⟩

end

namespace Rings

theorem start : Rings {} where
  steady _ := ⟨.start 0, nofun, nofun⟩
  store _ _ hpc := by cases hpc
  registered _ he := by cases he
  distinct := nodup_nil
  names := nodup_nil
  swapping _ _ _ hd := by cases hd
  visits := nodup_nil
  pinned _ hi := by cases hi
  made _ hi := by cases hi
  fresh _ _ := rfl
  active _ hi := by cases hi
  departing _ hd := by cases hd

theorem counters (h : Rings s) (p : SharedPayloadPool) (n q : Nat) :
    Rings { s with pool := p, inFlight := n, seq := q } :=
  ⟨h.steady, h.store, h.registered, h.distinct, h.names, h.swapping, h.visits, h.pinned, h.made, h.fresh,
    h.active, h.departing⟩

/-- A lane that exists changes; nobody comes back, and credit that the publisher has seen stays. -/
theorem setLane (h : Rings s) (hi : i < s.made) (hl : l.Steady)
    (hactive : l.active = true → (s.lanes i).active = true)
    (hfree : ∀ p, s.publisher = .pushing p i .store → l.ring.full = false) : Rings (s.setLane i l) := by
  refine { h with
    steady := forall_setLane h.steady hl
    store := fun p j hpc => ?_
    fresh := fun j hj => ?_
    active := fun j => ?_
    departing := fun d hd => ⟨(h.departing d hd).1, ?_⟩ }
  · by_cases hj : j = i
    · subst hj
      rw [setLane_self]
      exact hfree p hpc
    · rw [setLane_ne hj]
      exact h.store p j hpc
  · have hj : s.made ≤ j := hj
    rw [setLane_ne (by omega)]
    exact h.fresh j hj
  · by_cases hj : j = i
    · subst hj
      rw [setLane_self]
      exact fun hon => h.active j (hactive hon)
    · rw [setLane_ne hj]
      exact h.active j
  · by_cases hlane : d.2.1 = i
    · rw [hlane, setLane_self]
      refine Bool.eq_false_iff.mpr fun hon => ?_
      have hoff := (h.departing d hd).2
      rw [hlane, hactive hon] at hoff
      cases hoff
    · rw [setLane_ne hlane]
      exact (h.departing d hd).2

/-- A lane changes in what neither its ring nor its thread reads. -/
theorem relabel (h : Rings s) (hi : i < s.made) (hring : l.ring = (s.lanes i).ring)
    (hpushed : l.pushed = (s.lanes i).pushed) (hc : l.consumer = (s.lanes i).consumer)
    (hactive : l.active = true → (s.lanes i).active = true) : Rings (s.setLane i l) :=
  h.setLane hi ((h.steady i).congr hring hpushed hc) hactive fun p hpc => hring ▸ h.store p i hpc

theorem publisher (h : Rings s) (pb : Publisher) (hstore : ∀ p i, pb = .pushing p i .store →
    (s.lanes i).ring.full = false)
    (hvisits : (pb.facing ++ pb.rest).Nodup) (hpinned : ∀ i ∈ pb.facing ++ pb.rest, i ∈ pb.snap)
    (hmade : ∀ i ∈ pb.snap, i < s.made) : Rings { s with publisher := pb } :=
  { h with store := hstore, visits := hvisits, pinned := hpinned, made := hmade }

theorem stay {pb pb' : Publisher} (h : Rings s) (hpc : s.publisher = pb) (hsnap : pb'.snap = pb.snap)
    (hrest : pb'.rest = pb.rest)
    (hfacing : pb'.facing = pb.facing) (hstore : ∀ p i, pb' = .pushing p i .store → (s.lanes i).ring.full = false) :
    Rings { s with publisher := pb' } := by
  subst hpc
  refine h.publisher pb' hstore ?_ ?_ ?_
  · rw [hfacing, hrest]
    exact h.visits
  · rw [hfacing, hrest, hsnap]
    exact h.pinned
  · rw [hsnap]
    exact h.made

theorem setDeparture {id : ActorId} {lane : Nat} {pc pc' : Leaving} (h : Rings s)
    (hget : s.departures[i]? = some (id, lane, pc))
    (hpc' : pc' ≠ .swap) : Rings (s.setDeparture i id lane pc') := by
  have hold : ∀ (j : Nat) (id' : ActorId) (lane' : Nat), (s.departures.set i (id, lane, pc'))[j]? =
    some (id', lane', .swap) → s.departures[j]? = some (id', lane', .swap) := by
    intro j id' lane' hj
    by_cases hij : i = j
    · subst hij
      rw [List.getElem?_set_self (List.getElem?_eq_some_iff.mp hget).1] at hj
      cases hj
      exact absurd rfl hpc'
    · rwa [getElem?_set_ne hij] at hj
  refine { h with swapping := fun j id' lane' hj => ?_, departing := fun d hd => ?_ }
  · obtain ⟨hin, honly⟩ := h.swapping j id' lane' (hold j id' lane' hj)
    exact ⟨hin, fun k id'' lane'' hk => honly k id'' lane'' (hold k id'' lane'' hk)⟩
  · rcases mem_or_eq_of_mem_set hd with hmem | rfl
    · exact h.departing d hmem
    · exact h.departing (id, lane, pc) (mem_of_getElem? hget)

theorem notify (h : Rings s) (i : Nat) : Rings (s.notify i) := by
  unfold State.notify
  split
  · next p lane g hpc =>
    split
    · exact h.stay hpc rfl rfl rfl nofun
    · exact h
  · exact h

theorem facing_made (h : Rings s) (hi : i ∈ s.publisher.facing) : i < s.made :=
  h.made i (h.pinned i (mem_append_left _ hi))

theorem lane_made (h : Rings s) (hpc : (s.lanes i).consumer ≠ .gone) : i < s.made := by
  by_contra hlt
  rw [h.fresh i (Nat.le_of_not_lt hlt)] at hpc
  exact hpc rfl

theorem unlocked {id : ActorId} {lane : Nat} (hunlocked : s.locked = false) : s.departures[i]? ≠ some
    (id, lane, .swap) := by
  intro hget
  have hnot := any_eq_false.mp hunlocked _ (mem_of_getElem? hget)
  exact hnot (decide_eq_true rfl)

theorem subscribe {id : ActorId} (h : Rings s) (hunlocked : s.locked = false) (hnew : ∀ e ∈ s.registry, e.1 ≠ id) :
    Rings { s.setLane s.made { ring := { cap } } with
      registry := s.registry ++ [(id, s.made)], made := s.made + 1 } where
  steady := forall_setLane h.steady (.start cap)
  store p i hpc := by
    have hi : i < s.made := by
      refine h.facing_made ?_
      have hpc : s.publisher = .pushing p i .store := hpc
      rw [hpc]
      exact mem_singleton.mpr rfl
    change ((s.setLane s.made _).lanes i).ring.full = false
    rw [setLane_ne (ne_of_lt hi)]
    exact h.store p i hpc
  registered e he := by
    rcases mem_append.mp he with hold | hnew
    · exact Nat.lt_succ_of_lt (h.registered e hold)
    · rw [mem_singleton.mp hnew]
      exact Nat.lt_succ_self _
  distinct := by
    rw [map_append, nodup_append]
    refine ⟨h.distinct, nodup_singleton _, fun i hi j hj heq => ?_⟩
    obtain ⟨e, he, rfl⟩ := mem_map.mp hi
    have hmade := h.registered e he
    rw [heq, mem_singleton.mp hj] at hmade
    exact lt_irrefl _ hmade
  names := by
    rw [map_append, nodup_append]
    refine ⟨h.names, nodup_singleton _, fun i hi j hj heq => ?_⟩
    obtain ⟨e, he, rfl⟩ := mem_map.mp hi
    exact hnew e he (heq.trans (mem_singleton.mp hj))
  swapping _ _ _ hd := absurd hd (unlocked hunlocked)
  visits := h.visits
  pinned := h.pinned
  made i hi := Nat.lt_succ_of_lt (h.made i hi)
  fresh i hi := by
    have hi : s.made + 1 ≤ i := hi
    change (s.setLane s.made _).lanes i = _
    rw [setLane_ne (by omega)]
    exact h.fresh i (by omega)
  active i hon := by
    by_cases hi : i = s.made
    · exact ⟨(id, s.made), mem_append_right _ mem_cons_self, hi.symm⟩
    · have hon : ((s.setLane s.made { ring := { cap } }).lanes i).active = true := hon
      rw [setLane_ne hi] at hon
      obtain ⟨e, he, heq⟩ := h.active i hon
      exact ⟨e, mem_append_left _ he, heq⟩
  departing d hd := by
    obtain ⟨hmade, hoff⟩ := h.departing d hd
    refine ⟨Nat.lt_succ_of_lt hmade, ?_⟩
    change ((s.setLane s.made _).lanes d.2.1).active = false
    rw [setLane_ne (ne_of_lt hmade)]
    exact hoff

theorem unsubscribe {id : ActorId} {lane : Nat} (h : Rings s) (hunlocked : s.locked = false)
    (hin : (id, lane) ∈ s.registry) :
    Rings { s.setLane lane { s.lanes lane with active := false } with
    departures := s.departures ++ [(id, lane, .swap)] } := by
  have hmade : lane < s.made := h.registered _ hin
  have hcleared : Rings (s.setLane lane { s.lanes lane with active := false }) :=
    h.relabel hmade rfl rfl rfl nofun
  have hlast : ∀ (j : Nat) (id' : ActorId) (lane' : Nat), (s.departures ++ [(id, lane, Leaving.swap)])[j]? =
    some (id', lane', .swap) → j = s.departures.length ∧ id' = id ∧ lane' = lane := by
    intro j id' lane' hj
    rcases lt_or_ge j s.departures.length with hlt | hge
    · rw [getElem?_append_left hlt] at hj
      exact absurd hj (unlocked hunlocked)
    · rw [getElem?_append_right hge, getElem?_singleton] at hj
      split at hj
      · next hzero =>
        cases hj
        exact ⟨by omega, rfl, rfl⟩
      · cases hj
  refine { hcleared with swapping := fun j id' lane' hj => ?_, departing := fun d hd => ?_ }
  · obtain ⟨rfl, rfl, rfl⟩ := hlast j id' lane' hj
    exact ⟨hin, fun k id'' lane'' hk => (hlast k id'' lane'' hk).1⟩
  · rcases mem_append.mp hd with hold | hnew
    · exact hcleared.departing d hold
    · rw [mem_singleton.mp hnew]
      refine ⟨hmade, ?_⟩
      change ((s.setLane lane _).lanes lane).active = false
      rw [setLane_self]

theorem swap {id : ActorId} {lane : Nat} {pc : Leaving} (h : Rings s)
    (hget : s.departures[i]? = some (id, lane, .swap))
    (hpc : pc ≠ .swap) : Rings ({ s with registry := s.registry.filter fun e => !(e.1 = id) }.setDeparture i
    id lane pc) := by
  obtain ⟨hin, honly⟩ := h.swapping i id lane hget
  have hmoved := h.setDeparture hget hpc
  have hnone : ∀ (j : Nat) (id' : ActorId) (lane' : Nat), (s.departures.set i (id, lane, pc))[j]? ≠
      some (id', lane', .swap) := by
    intro j id' lane' hj
    by_cases hij : i = j
    · subst hij
      rw [List.getElem?_set_self (List.getElem?_eq_some_iff.mp hget).1] at hj
      cases hj
      exact hpc rfl
    · rw [getElem?_set_ne hij] at hj
      exact hij (honly j id' lane' hj).symm
  refine { hmoved with
    registered := fun e he => h.registered e (mem_filter.mp he).1
    distinct := h.distinct.sublist (filter_sublist.map _)
    names := h.names.sublist (filter_sublist.map _)
    swapping := fun j id' lane' hj => absurd hj (hnone j id' lane')
    active := fun j hon => ?_ }
  obtain ⟨e, he, rfl⟩ := h.active j hon
  refine ⟨e, mem_filter.mpr ⟨he, ?_⟩, rfl⟩
  rw [Bool.not_eq_true', decide_eq_false_iff_not]
  intro hid
  have hsame : e = (id, lane) := inj_on_of_nodup_map h.names he hin hid
  have hoff : (s.lanes lane).active = false := (h.departing _ (mem_of_getElem? hget)).2
  have hon : (s.lanes e.2).active = true := hon
  rw [hsame, hoff] at hon
  cases hon

theorem choose {p : Publication} {pb : Publisher} (h : Rings s) (hpc : s.publisher = .choosing p)
    (hsnap : pb.snap = p.snap) (hrest : pb.facing ++ pb.rest = p.rest ∨
    ∃ lane, p.rest = lane :: (pb.facing ++ pb.rest))
    (hstore : ∀ p i, pb ≠ .pushing p i .store) : Rings { s with publisher := pb } := by
  have hvisits : p.rest.Nodup := by
    have hvisits := h.visits
    rw [hpc] at hvisits
    exact hvisits
  have hpinned : ∀ i ∈ p.rest, i ∈ p.snap := by
    have hpinned := h.pinned
    rw [hpc] at hpinned
    exact hpinned
  have hmade : ∀ i ∈ p.snap, i < s.made := by
    have hmade := h.made
    rw [hpc] at hmade
    exact hmade
  refine h.publisher pb (fun p i heq => absurd heq (hstore p i)) ?_ ?_ (hsnap ▸ hmade)
  · rcases hrest with hsame | ⟨lane, hcons⟩
    · exact hsame ▸ hvisits
    · rw [hcons] at hvisits
      exact (nodup_cons.mp hvisits).2
  · rcases hrest with hsame | ⟨lane, hcons⟩
    · rw [hsame, hsnap]
      exact hpinned
    · rw [hsnap]
      exact fun i hi => hpinned i (hcons ▸ mem_cons_of_mem _ hi)

theorem leaveLane {p : Publication} {pb : Publisher} {lane : Nat} (h : Rings s) (hpc : s.publisher = pb)
    (hsnap : pb.snap = p.snap)
    (hrest : pb.rest = p.rest) (hfacing : pb.facing = [lane]) : Rings { s with publisher := .choosing p } := by
  have hvisits := h.visits
  have hpinned := h.pinned
  have hmade := h.made
  rw [hpc, hfacing, hrest] at hvisits hpinned
  rw [hsnap] at hpinned
  rw [hpc, hsnap] at hmade
  refine h.publisher _ nofun (nodup_cons.mp hvisits).2 ?_ hmade
  exact fun i hi => hpinned i (mem_cons_of_mem _ hi)

theorem finish {pb : Publisher} (h : Rings s) (hvisits : pb.facing ++ pb.rest = [])
    (hsnap : ∀ i ∈ pb.snap, i ∈ s.publisher.snap) :
    Rings { s with publisher := pb } := by
  refine h.publisher pb (fun p i heq => ?_) ?_ ?_ fun i hi => h.made i (hsnap i hi)
  · rw [heq] at hvisits
    cases hvisits
  · rw [hvisits]
    exact nodup_nil
  · rw [hvisits]
    exact fun i hi => absurd hi not_mem_nil

theorem consume (h : Rings s) (hpc : (s.lanes i).consumer ≠ .gone) (hl : l.Steady)
    (hactive : l.active = (s.lanes i).active)
    (hfree : (s.lanes i).ring.full = false → l.ring.full = false) : Rings (s.setLane i l) :=
  h.setLane (h.lane_made hpc) hl (fun hon => hactive ▸ hon) fun p hpc => hfree (h.store p i hpc)

theorem thread (h : Rings s) (hgone : (s.lanes i).consumer ≠ .gone)
    (hdispatch : c = .dispatch → (s.lanes i).ring.disp < (s.lanes i).ring.head)
    (hholding : c.holding = true → (s.lanes i).consumer.holding = true) : Rings (s.setLane i ((s.lanes i).at_ c)) :=
  h.consume hgone ((h.steady i).at_ hdispatch fun hc => (h.steady i).holding (hholding hc)) rfl fun hfree => hfree

theorem step (h : Rings s) (hmove : Move mode cap s a s') : Rings s' := by
  cases hmove with
  | none_ => exact h
  | subscribe id hunlocked hnew => exact h.subscribe hunlocked hnew
  | unsubscribe id lane hunlocked hfind => exact h.unsubscribe hunlocked (mem_of_find?_eq_some hfind)
  | swap i id lane hget => exact h.swap hget (by cases mode <;> decide)
  | leaveDisarm i id lane hget =>
    have hd := h.departing _ (mem_of_getElem? hget)
    have hcleared : Rings (s.setLane lane { s.lanes lane with stalled := false }) :=
      h.relabel hd.1 rfl rfl rfl fun hon => hon
    exact hcleared.setDeparture hget (by decide)
  | leaveBump i id lane hget =>
    have hd := h.departing _ (mem_of_getElem? hget)
    have hbumped : Rings (s.setLane lane (s.lanes lane).bump) :=
      h.relabel hd.1 rfl rfl rfl fun hon => hon
    exact hbumped.setDeparture hget (by decide)
  | leaveNotify i id lane hget =>
    refine (h.notify lane).setDeparture (notify_departures.symm ▸ hget) (by decide)
  | quiesced i id lane hget hnone => exact h.setDeparture hget (by decide)
  | publish hpc => exact (h.counters s.pool (s.inFlight + 1) s.seq).finish rfl fun _ hi => absurd hi not_mem_nil
  | nobody hpc hempty => exact h.finish rfl fun _ hi => absurd hi not_mem_nil
  | load hpc hsome =>
    refine (h.counters s.pool.acquire.2 s.inFlight (s.seq + 1)).publisher _ nofun h.distinct
      (fun i hi => hi) fun i hi => ?_
    obtain ⟨e, he, rfl⟩ := mem_map.mp hi
    exact h.registered e he
  | finish p hpc hrest =>
    refine h.finish rfl fun i hi => ?_
    rw [hpc]
    exact hi
  | pass p lane rest hpc hrest hgone => exact h.choose hpc rfl (.inr ⟨lane, hrest⟩) nofun
  | offer p lane rest hpc hrest hactive =>
    have hmade : lane < s.made := by
      refine h.made lane (h.pinned lane (mem_append_right _ ?_))
      rw [hpc, Publisher.rest, hrest]
      exact mem_cons_self
    have hoffered : Rings (s.setLane lane ((s.lanes lane).offer p.id)) :=
      h.relabel hmade rfl rfl rfl fun hon => hon
    refine (hoffered.counters (s.pool.retain p.cell) s.inFlight s.seq).choose hpc rfl
      (.inl hrest.symm) fun _ _ heq => ?_
    cases mode <;> cases heq
  | pushing p lane pc pc' l hpc hstep =>
    obtain ⟨⟨b, rfl⟩, hfree⟩ := Lane.pushStep_at hstep
    have hmade : lane < s.made := h.facing_made (hpc ▸ mem_singleton.mpr rfl)
    have hset : Rings (s.setLane lane { s.lanes lane with stalled := b }) :=
      h.relabel hmade rfl rfl rfl fun hon => hon
    refine hset.stay hpc rfl rfl rfl fun q i heq => ?_
    cases heq
    rw [setLane_self]
    exact hfree rfl
  | delivered p lane pc l hpc hstep =>
    obtain ⟨rfl, rfl⟩ := Lane.pushStep_delivered hstep
    have hmade : lane < s.made := h.facing_made (hpc ▸ mem_singleton.mpr rfl)
    have hleft : Rings { s with publisher := .choosing p } := h.leaveLane hpc rfl rfl rfl
    exact hleft.setLane hmade ((h.steady lane).store (h.store p lane hpc)) (fun hon => hon) nofun
  | refused p lane pc l hpc hstep =>
    have hmade : lane < s.made := h.facing_made (hpc ▸ mem_singleton.mpr rfl)
    have hleft : Rings { s with publisher := .undoing p lane (.dec p.cell) } :=
      h.stay hpc rfl rfl rfl nofun
    rcases Lane.pushStep_refused hstep with ⟨-, -, -, rfl⟩ | ⟨⟨b, rfl⟩, -⟩
    · exact hleft.relabel hmade rfl rfl rfl fun hon => hon
    · exact hleft.relabel hmade rfl rfl rfl fun hon => hon
  | undoing p lane r r' hpc hmore =>
    exact (h.counters (s.pool.release r).1 s.inFlight s.seq).stay hpc rfl rfl rfl nofun
  | undone p lane r hpc hlast =>
    have hfreed := h.counters (s.pool.release r).1 s.inFlight s.seq
    cases mode with
    | evictAfter => exact hfreed.stay hpc rfl rfl rfl nofun
    | block => exact hfreed.leaveLane hpc rfl rfl rfl
  | count p lane hpc =>
    have hmade : lane < s.made := h.facing_made (hpc ▸ mem_singleton.mpr rfl)
    have hleft : Rings { s with publisher := .choosing p } := h.leaveLane hpc rfl rfl rfl
    exact hleft.relabel hmade rfl rfl rfl fun hon => hon
  | dropping snap r r' hpc hmore | dropped snap r hpc hlast =>
    exact (h.counters (s.pool.release r).1 s.inFlight s.seq).stay hpc rfl rfl rfl nofun
  | leaving snap hpc =>
    exact (h.counters s.pool (s.inFlight - 1) s.seq).stay hpc rfl rfl rfl nofun
  | returning snap hpc => exact h.finish rfl fun _ hi => absurd hi not_mem_nil
  | tryPop i hpc hhandle hmore =>
    exact h.thread (by rw [hpc]; decide) (fun _ => CreditRing.occupancy_pos.mp hmore) nofun
  | trail i hpc hhandle hbase hempty => exact h.thread (by rw [hpc]; decide) nofun nofun
  | dispatch i e hpc hslot => exact h.consume (by rw [hpc]; decide) ((h.steady i).pop hpc) rfl fun hfree => hfree
  | copy i e hpc =>
    have hmoved : Rings (s.setLane i ((s.lanes i).at_ (.release (.dec e.cell)))) :=
      h.thread (by rw [hpc]; exact nofun) nofun fun _ => by rw [hpc]; rfl
    exact hmoved.counters _ s.inFlight s.seq
  | releasing i r r' hpc hmore =>
    have hmoved : Rings (s.setLane i ((s.lanes i).at_ (.release r'))) :=
      h.thread (by rw [hpc]; exact nofun) nofun fun _ => by rw [hpc]; rfl
    exact hmoved.counters _ s.inFlight s.seq
  | released i r hpc hlast =>
    have hmoved : Rings (s.setLane i ((s.lanes i).at_ .credit)) :=
      h.thread (by rw [hpc]; exact nofun) nofun fun _ => by rw [hpc]; rfl
    exact hmoved.counters _ s.inFlight s.seq
  | credit i hpc =>
    exact h.consume (by rw [hpc]; decide) ((h.steady i).complete (by rw [hpc]; rfl) (.inl rfl)) rfl
      CreditRing.full_advanceTail
  | unstall i hpc =>
    exact h.consume (by rw [hpc]; decide) (h.steady i).unstall rfl fun hfree => hfree
  | bump i hpc =>
    have hmoved : ((s.lanes i).bump.at_ .notify).Steady :=
      ⟨(h.steady i).ring, nofun, nofun⟩
    exact h.consume (by rw [hpc]; decide) hmoved rfl fun hfree => hfree
  | notify i hpc =>
    exact (h.thread (by rw [hpc]; decide) (fun hc => by cases hc) fun hc => by cases hc).notify i
  | takeTrailing i hpc =>
    refine h.consume (by rw [hpc]; decide) (h.steady i).takeTrailing ?_ ?_
    · rw [Lane.takeTrailing]
      split <;> rfl
    · rw [Lane.takeTrailing]
      split <;> exact fun hfree => hfree
  | drained i hpc hempty => exact h.thread (by rw [hpc]; decide) nofun nofun
  | discard i e hpc hmore hslot =>
    exact h.consume (by rw [hpc]; decide) ((h.steady i).discard hmore) rfl fun hfree => hfree
  | discarding i r r' hpc hmore =>
    have hmoved : Rings (s.setLane i ((s.lanes i).at_ (.drainRelease r'))) :=
      h.thread (by rw [hpc]; exact nofun) nofun fun _ => by rw [hpc]; rfl
    exact hmoved.counters _ s.inFlight s.seq
  | discarded i r hpc hlast =>
    have hmoved : Rings (s.setLane i ((s.lanes i).complete .drain)) :=
      h.consume (by rw [hpc]; exact nofun) ((h.steady i).complete (by rw [hpc]; rfl) (.inr rfl)) rfl
        CreditRing.full_advanceTail
    exact hmoved.counters _ s.inFlight s.seq
  | drop i hpc hhandle =>
    exact h.consume (by rw [hpc]; decide) ((h.steady i).congr rfl rfl rfl) rfl fun hfree => hfree
  | destroy i hpc hunheld => exact h.thread (by rw [hpc]; decide) nofun nofun

end Rings

end

section

variable {s s' t : State} {a : Label} {i : Nat}

def Publisher.counted : Publisher → Nat
  | .idle | .returning _ => 0
  | _ => 1

/-- The publisher counts itself while it holds a snapshot, and takes one only from the registry. -/
def Visits (s s' : State) : Prop :=
  (s.inFlight = s.publisher.counted → s'.inFlight = s'.publisher.counted) ∧
    ∀ i ∈ s'.publisher.snap, s'.publisher.counted = 1 →
      (i ∈ s.publisher.snap ∧ s.publisher.counted = 1) ∨ i ∈ s.registry.map Prod.snd

theorem Visits.notify (h : Visits s t) (i : Nat) : Visits s (t.notify i) := by
  unfold State.notify
  split
  · next hpc =>
    rw [Visits, hpc] at h
    split
    · exact h
    · rwa [Visits, hpc]
  · exact h

theorem Move.visits (hmove : Move mode cap s a s') : Visits s s' := by
  have hkept : Visits s s := ⟨fun hcount => hcount, fun _ hi hpc => .inl ⟨hi, hpc⟩⟩
  cases hmove with
  | leaveNotify i id lane => exact hkept.notify lane
  | notify i => exact Visits.notify (t := s.setLane i ((s.lanes i).at_ .idle)) hkept i
  | undone p lane r hpc => cases mode <;> simp +contextual [Visits, hpc, Publisher.counted, Publisher.snap]
  | load hpc hsome => exact ⟨fun hcount => by rwa [hpc] at hcount, fun i hi _ => .inr hi⟩
  | publish hpc | nobody hpc | finish p hpc | pass p lane rest hpc | offer p lane rest hpc
  | pushing p lane pc pc' l hpc
  | delivered p lane pc l hpc | refused p lane pc l hpc | undoing p lane r r' hpc | count p lane hpc
  | dropping snap r r' hpc | dropped snap r hpc | leaving snap hpc | returning snap hpc =>
    simp +contextual [Visits, hpc, Publisher.counted, Publisher.snap, setLane]
  | _ => exact hkept

theorem Move.returned {d : ActorId × Nat × Leaving} (hmove : Move mode cap s a s') (hd : d ∈ s'.departures)
    (hpc : d.2.2 = .returned) : d ∈ s.departures ∨ s.inFlight = 0 ∧ (d.1, d.2.1, .quiesce) ∈ s.departures := by
  have hset : ∀ {i e}, d ∈ s.departures.set i e → e.2.2 ≠ .returned → d ∈ s.departures := fun hin hne =>
    (mem_or_eq_of_mem_set hin).resolve_right fun heq => hne (heq ▸ hpc)
  cases hmove with
  | unsubscribe id lane =>
    exact .inl ((mem_append.mp hd).resolve_right fun hlast => by rw [mem_singleton.mp hlast] at hpc; cases hpc)
  | swap i id lane hget | leaveDisarm i id lane hget | leaveBump i id lane hget =>
    exact .inl (hset hd (by cases mode <;> simp))
  | leaveNotify i id lane hget =>
    rw [setDeparture, notify_departures] at hd
    exact .inl (hset hd (by simp))
  | quiesced i id lane hget hnone =>
    refine (mem_or_eq_of_mem_set hd).imp_right fun heq => ⟨hnone, ?_⟩
    rw [heq]
    exact mem_of_getElem? hget
  | notify i =>
    rw [notify_departures] at hd
    exact .inl hd
  | _ => exact .inl hd

/-- A departure that is past the swap found its lane in no entry that is left. -/
def Unlisted (s : State) : Prop :=
  ∀ d ∈ s.departures, d.2.2 ≠ .swap → d.2.1 ∉ s.registry.map Prod.snd

theorem Unlisted.set {r : List (ActorId × Nat)} {i lane : Nat} {id : ActorId} {pc : Leaving} (h : Unlisted s)
    (hr : ∀ e ∈ r, e ∈ s.registry) (hlane : lane ∉ r.map Prod.snd) :
    Unlisted ({ s with registry := r }.setDeparture i id lane pc) := by
  intro d hd hpc hin
  rcases mem_or_eq_of_mem_set hd with hold | rfl
  · exact h d hold hpc (map_subset Prod.snd hr hin)
  · exact hlane hin

theorem Unlisted.advance {i lane : Nat} {id : ActorId} {pc pc' : Leaving} (h : Unlisted s)
    (hget : s.departures[i]? = some (id, lane, pc)) (hpc : pc ≠ .swap) : Unlisted (s.setDeparture i id lane pc') :=
  h.set (r := s.registry) (fun _ he => he) (h _ (mem_of_getElem? hget) hpc)

theorem State.notify_registry : (s.notify i).registry = s.registry := by
  unfold notify
  split
  · split <;> rfl
  · rfl

theorem Unlisted.notify (h : Unlisted s) (i : Nat) : Unlisted (s.notify i) := by
  rwa [Unlisted, notify_departures, notify_registry]

theorem Unlisted.step (h : Unlisted s) (hrings : Rings s) (hmove : Move mode cap s a s') : Unlisted s' := by
  cases hmove with
  | subscribe id hunlocked hnew =>
    intro d hd hpc hin
    rw [map_append, mem_append] at hin
    rcases hin with hin | hin
    · exact h d hd hpc hin
    · exact absurd (mem_singleton.mp hin) (Nat.ne_of_lt (hrings.departing d hd).1)
  | unsubscribe id lane hunlocked hfind =>
    intro d hd hpc
    rcases mem_append.mp hd with hold | hlast
    · exact h d hold hpc
    · rw [mem_singleton.mp hlast] at hpc
      exact absurd rfl hpc
  | swap i id lane hget =>
    refine h.set (fun e he => (mem_filter.mp he).1) fun hin => ?_
    obtain ⟨e, he, hlane⟩ := mem_map.mp hin
    obtain ⟨hold, hid⟩ := mem_filter.mp he
    -- two entries of one lane are one entry, and the filter took that one out
    have heq : e = (id, lane) := inj_on_of_nodup_map hrings.distinct hold (hrings.swapping i id lane hget).1 hlane
    rw [heq] at hid
    simp at hid
  | leaveDisarm i id lane hget => exact Unlisted.advance (s := s.setLane lane _) h hget (by decide)
  | leaveBump i id lane hget => exact Unlisted.advance (s := s.setLane lane _) h hget (by decide)
  | leaveNotify i id lane hget =>
    exact (h.notify lane).advance (notify_departures.symm ▸ hget) (by decide)
  | quiesced i id lane hget => exact h.advance hget (by decide)
  | notify i => exact Unlisted.notify (s := s.setLane i _) h i
  | _ => exact h

/-- What keeps publishes away from the lanes that `unsubscribe` has returned from. -/
structure Parted (s : State) : Prop where
  rings : Rings s
  inFlight : s.inFlight = s.publisher.counted
  unlisted : Unlisted s
  away : ∀ d ∈ s.departures, d.2.2 = .returned → s.publisher.counted = 1 → d.2.1 ∉ s.publisher.snap

theorem Parted.step (h : Parted s) (hmove : Move mode cap s a s') : Parted s' where
  rings := h.rings.step hmove
  inFlight := hmove.visits.1 h.inFlight
  unlisted := h.unlisted.step h.rings hmove
  away d hd hpc hcounted hin := by
    rcases hmove.returned hd hpc with hold | ⟨hnone, hold⟩
    · rcases hmove.visits.2 _ hin hcounted with ⟨hat, hone⟩ | hlisted
      · exact h.away d hold hpc hone hat
      · exact h.unlisted d hold (by rw [hpc]; decide) hlisted
    · rcases hmove.visits.2 _ hin hcounted with ⟨-, hone⟩ | hlisted
      · rw [← h.inFlight, hnone] at hone
        cases hone
      · exact h.unlisted _ hold (by simp) hlisted

/-- A lane that the publisher stands at or has yet to come to is in the snapshot of a publish that is counted. -/
theorem Publisher.counted_of_mem {p : Publisher} (h : i ∈ p.facing ++ p.rest) : p.counted = 1 := by
  cases p with
  | choosing | pushing | undoing | counting => rfl
  | _ => cases h

/-- When `unsubscribe` has returned, no publish is at the lane or comes to it again, in either mode: the lane is in no
entry of the registry, which is where later snapshots come from, and in no snapshot of a publish still counted. -/
theorem departed_unvisited (h : Machine.Reachable (State.step mode cap) {} s) :
    ∀ d ∈ s.departures, d.2.2 = .returned → d.2.1 ∉ s.publisher.facing ∧ d.2.1 ∉ s.publisher.rest ∧
      (s.lanes d.2.1).active = false ∧ d.2.1 ∉ s.registry.map Prod.snd ∧
      (s.publisher.counted = 1 → d.2.1 ∉ s.publisher.snap) := by
  have hparted : Parted s := h.invariant ⟨.start, rfl,
    fun _ hd => absurd hd not_mem_nil, fun _ hd => absurd hd not_mem_nil⟩
    fun _ _ _ hinv hstep => hinv.step (.of_step hstep)
  intro d hd hpc
  have haway : d.2.1 ∉ s.publisher.facing ++ s.publisher.rest := fun hin =>
    hparted.away d hd hpc (Publisher.counted_of_mem hin) (hparted.rings.pinned _ hin)
  refine ⟨fun hin => haway (mem_append_left _ hin), fun hin => haway (mem_append_right _ hin), ?_, ?_,
    hparted.away d hd hpc⟩
  · exact (hparted.rings.departing d hd).2
  · exact hparted.unlisted d hd (by rw [hpc]; decide)

/-- The publish stands at the lane when `unsubscribe` is called; the next one passes by it. -/
theorem departed_unvisited_left : ∃ (t s : State) (d : ActorId × Nat × Leaving),
    Machine.Reachable (State.step .evictAfter 1) t s ∧
    d.2.1 ∈ t.publisher.facing ∧ d ∈ s.departures ∧ d.2.2 = .returned ∧ s.publisher.snap = [1] ∧
    s.publisher.counted = 1 ∧ d.2.1 ∉ s.publisher.facing ∧ d.2.1 ∉ s.publisher.rest ∧ (s.lanes d.2.1).active = false ∧
    d.2.1 ∉ s.registry.map Prod.snd ∧ d.2.1 ∉ s.publisher.snap := by
  obtain ⟨t, hrun, hat⟩ := Option.map_eq_some_iff.mp (show (Machine.run (State.step .evictAfter 1) {}
    [.subscribe ⟨⟨1⟩, 7⟩, .subscribe ⟨⟨1⟩, 8⟩, .publish, .publisher, .publisher, .unsubscribe ⟨⟨1⟩, 7⟩]).map
      (fun t => t.publisher.facing) = some [0] by decide +kernel)
  obtain ⟨s, hall, hleft⟩ := Option.map_eq_some_iff.mp (show (Machine.run (State.step .evictAfter 1) {}
    ([.subscribe ⟨⟨1⟩, 7⟩, .subscribe ⟨⟨1⟩, 8⟩, .publish, .publisher, .publisher, .unsubscribe ⟨⟨1⟩, 7⟩] ++
      [.leave 0, .publisher, .publisher, .publisher, .publisher, .publisher, .publisher, .publisher,
      .publisher, .leave 0,
        .publisher, .publish, .publisher])).map (fun s => (s.departures, s.publisher.snap, s.publisher.counted)) =
      some ([(⟨⟨1⟩, 7⟩, 0, .returned)], [1], 1) by decide +kernel)
  obtain ⟨hdep, hsnap, hcounted⟩ : s.departures = [(⟨⟨1⟩, 7⟩, 0, .returned)] ∧ s.publisher.snap = [1] ∧
      s.publisher.counted = 1 := by simpa using hleft
  obtain ⟨t', hrun', hrest⟩ := Machine.run_append.mp hall
  cases hrun.symm.trans hrun'
  have hin : (⟨⟨1⟩, 7⟩, 0, .returned) ∈ s.departures := hdep ▸ mem_cons_self
  have haway := departed_unvisited (Machine.reachable_of_run hall) _ hin rfl
  exact ⟨t, s, _, Machine.reachable_of_run hrest, hat ▸ mem_cons_self, hin, rfl, hsnap, hcounted, haway.1, haway.2.1,
    haway.2.2.1, haway.2.2.2.1, haway.2.2.2.2 hcounted⟩

end

end Quark.FanOut
