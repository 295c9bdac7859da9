import Quark.ParkedHandler

/-! Everything about a parked handler happens once, unless it runs to its end while a thread that resumed it
earlier has not yet looked whether it has. -/
namespace Quark.Parked

open State

def State.Runs (s : State) : Thread → Prop
  | .lane => s.lane = .running
  | .carrier k => s.carrier k = .running

/-- The call of `resolve` is still to come or has nothing left to do. -/
def CarrierPc.Out : CarrierPc → Prop
  | .waiting | .finished => True
  | _ => False

def LanePc.Out : LanePc → Prop
  | .suspended | .drained => True
  | _ => False

/-- What the handler, its frame, its descriptor and its activation go through, they go through once. -/
structure Once (s : State) : Prop where
  one_thread : ∀ t t', s.Runs t → s.Runs t' → t = t'
  suspended_nodup : s.suspended.Nodup
  resumed_once : s.suspended = s.resumed ∨ ∃ k, s.frame = .suspended k ∧ s.suspended = s.resumed ++ [k]
  awaited : ∀ k, s.frame = .suspended k → s.carrier k = .waiting ∨ s.carrier k = .gate ∨ s.carrier k = .resume
  destroyed : s.destroys ≤ 1 ∧ (s.destroys = 1 → s.frame = .done)
  completed : s.completes ≤ s.destroys
  left : s.leaves ≤ s.completes
  parked : s.leaves = 0 → s.lane = .suspended → s.exec = .parked
  ended : s.frame = .done → s.lane.Out → (∀ k, (s.carrier k).Out) →
    s.destroys = 1 ∧ s.completes = 1 ∧ (s.lane = .suspended → s.leaves = 1)
  intact : ∀ k, s.carrier k ≠ .crashed

/-- A handler comes to its end only when nobody who resumed it before has yet to look at it. -/
def Sound (s : State) : Label → Prop
  | .finish | .throw => ∀ k < s.asks, s.carrier k ≠ .returned
  | _ => True

instance (s : State) : (l : Label) → Decidable (Sound s l)
  | .finish | .throw => inferInstanceAs (Decidable (∀ k < s.asks, s.carrier k ≠ .returned))
  | .ask | .lane | .resolve _ | .carrier _ => .isTrue trivial

def CarrierPc.Stale : CarrierPc → Prop
  | .waiting | .finished | .returned => True
  | _ => False

theorem CarrierPc.Out.stale {pc : CarrierPc} (h : pc.Out) : pc.Stale := by
  cases pc with
  | waiting | finished => trivial
  | _ => cases h

/-- What the cells and the lists say of the frame and of the resolvers. -/
structure Base (s : State) : Prop where
  waiting : ∀ j, s.carrier j = .waiting ↔ s.cell j ≠ .resolved
  waiter : ∀ j, s.cell j = .waiter → s.frame = .suspended j
  below : ∀ j ∈ s.suspended, j < s.asks
  future : ∀ j, s.asks ≤ j → (s.carrier j).Out
  nodup : s.suspended.Nodup
  awake : (∀ k, s.frame ≠ .suspended k) → s.suspended = s.resumed
  asleep : ∀ k, s.frame = .suspended k → k < s.asks ∧ s.suspended = s.resumed ++ [k] ∧ s.cell k ≠ .empty

def State.Counts (s : State) (destroys completes leaves : Nat) : Prop :=
  s.destroys = destroys ∧ s.completes = completes ∧ s.leaves = leaves

/-- The places of the lane between the suspension of the handler and the store of `Parked`. -/
def LanePc.Leaving : LanePc → Prop
  | .returned | .storeFrame | .storeDesc | .park => True
  | _ => False

/-- Who has the handler, and what has been done with it. -/
inductive Phase (s : State) : Prop
  | laneRuns (hlane : s.lane = .running) (hexec : s.exec = .running) (hframe : s.frame = .running .lane)
      (hout : ∀ j, (s.carrier j).Out) (hcounts : s.Counts 0 0 0)
  | laneLeaves (k : Nat) (hlane : s.lane.Leaving) (hexec : s.exec = .running) (hframe : s.frame = .suspended k)
      (hk : s.carrier k = .waiting ∨ s.carrier k = .gate) (hout : ∀ j, j ≠ k → (s.carrier j).Out)
      (hcounts : s.Counts 0 0 0) (hstored : s.lane = .storeDesc ∨ s.lane = .park → s.parkedFrame)
  | laneEnds (hexec : s.exec = .running) (hframe : s.frame = .done) (hout : ∀ j, (s.carrier j).Out)
      (hlane : (s.lane = .returned ∨ s.lane = .inlineDestroy) ∧ s.Counts 0 0 0 ∨
        s.lane = .inlineComplete ∧ s.Counts 1 0 0 ∨ s.lane = .drained ∧ s.Counts 1 1 0)
  | carrierRuns (k : Nat) (hlane : s.lane = .suspended) (hexec : s.exec = .parked)
      (hframe : s.frame = .running (.carrier k)) (hk : s.carrier k = .running)
      (hstale : ∀ j, j ≠ k → (s.carrier j).Stale) (hcounts : s.Counts 0 0 0) (hstored : s.parkedFrame)
  | awaits (k : Nat) (hlane : s.lane = .suspended) (hexec : s.exec = .parked) (hframe : s.frame = .suspended k)
      (hk : s.carrier k = .waiting ∨ s.carrier k = .gate ∨ s.carrier k = .resume)
      (hstale : ∀ j, j ≠ k → (s.carrier j).Stale) (hcounts : s.Counts 0 0 0) (hstored : s.parkedFrame)
  | carrierEnds (k : Nat) (hlane : s.lane = .suspended) (hexec : s.exec = .parked) (hframe : s.frame = .done)
      (hk : s.carrier k = .returned ∧ s.parkedFrame ∧ s.Counts 0 0 0 ∨ s.carrier k = .destroy ∧ s.Counts 0 0 0 ∨
        (s.carrier k = .clear ∨ s.carrier k = .complete) ∧ s.Counts 1 0 0 ∨
        s.carrier k = .readmitParked ∧ s.Counts 1 1 0)
      (hout : ∀ j, j ≠ k → (s.carrier j).Out)
  | ended (hlane : s.lane = .suspended) (hframe : s.frame = .done) (hout : ∀ j, (s.carrier j).Out)
      (hcounts : s.Counts 1 1 1)

theorem Base.initial : Base {} := by
  constructor
  · intro j
    simp
  · intro j hj
    cases hj
  · intro j hj
    cases hj
  · intro j _
    trivial
  · exact List.nodup_nil
  · intro _
    rfl
  · intro k hk
    cases hk

theorem Phase.initial : Phase {} := .laneRuns rfl rfl rfl (fun _ => trivial) ⟨rfl, rfl, rfl⟩

section

variable {s s' : State} {k : Nat}

/-- What `Base` speaks of. -/
def State.talk (s : State) : (Nat → Cell) × Frame × Nat × (Nat → CarrierPc) × List Nat × List Nat :=
  (s.cell, s.frame, s.asks, s.carrier, s.suspended, s.resumed)

theorem Base.same (h : Base s) (heq : s'.talk = s.talk) : Base s' := by
  simp only [talk, Prod.mk.injEq] at heq
  obtain ⟨hcell, hframe, hasks, hcarrier, hsuspended, hresumed⟩ := heq
  constructor
  · rw [hcell, hcarrier]
    exact h.waiting
  · rw [hcell, hframe]
    exact h.waiter
  · rw [hsuspended, hasks]
    exact h.below
  · rw [hasks, hcarrier]
    exact h.future
  · rw [hsuspended]
    exact h.nodup
  · rw [hframe, hsuspended, hresumed]
    exact h.awake
  · rw [hframe, hasks, hsuspended, hresumed, hcell]
    exact h.asleep

/-- A thread that is running, done with its exchange, or out is not waiting. -/
theorem Base.setCarrier {pc : CarrierPc} (h : Base s) (hk : s.carrier k ≠ .waiting) (hpc : pc ≠ .waiting)
    (hfuture : k < s.asks ∨ pc.Out) : Base (s.setCarrier k pc) := by
  refine ⟨fun j => ?_, h.waiter, h.below, fun j hj => ?_, h.nodup, h.awake, h.asleep⟩
  · simp only [State.setCarrier]
    by_cases hne : j = k
    · rw [hne, Function.update_self]
      constructor
      · exact fun heq => absurd heq hpc
      · exact fun hcell => absurd ((h.waiting k).mpr hcell) hk
    · rw [Function.update_of_ne hne]
      exact h.waiting j
  · simp only [State.setCarrier]
    by_cases hne : j = k
    · rw [hne, Function.update_self]
      rcases hfuture with hlt | hout
      · rw [hne] at hj
        exact absurd hlt (Nat.not_lt.mpr hj)
      · exact hout
    · rw [Function.update_of_ne hne]
      exact h.future j hj

theorem Base.lt_asks (h : Base s) (hk : ¬ (s.carrier k).Out) : k < s.asks := by
  by_contra hge
  exact hk (h.future k (Nat.not_lt.mp hge))

theorem Base.returnTo {t : Thread} (h : Base s) (ht : ∀ k, t = .carrier k → s.carrier k = .running) :
    Base (s.returnTo t) := by
  cases t with
  | lane => exact ⟨h.waiting, h.waiter, h.below, h.future, h.nodup, h.awake, h.asleep⟩
  | carrier k =>
    have hk := ht k rfl
    refine h.setCarrier (by simp [hk]) (by simp) (Or.inl (h.lt_asks ?_))
    rw [hk]
    exact id

theorem Base.ask {t : Thread} (h : Base s) (hframe : s.frame = .running t) (hcell : s.cell s.asks = .empty) :
    Base { s with
      cell := Function.update s.cell s.asks Cell.waiter, frame := .suspended s.asks, asks := s.asks + 1
      suspended := s.suspended ++ [s.asks] } := by
  have hlists := h.awake (by simp [hframe])
  constructor
  · intro j
    by_cases hne : j = s.asks
    · rw [hne]
      have hwait := (h.waiting s.asks).mpr (by simp [hcell])
      simp [hwait]
    · simp only [Function.update_of_ne hne]
      exact h.waiting j
  · intro j hj
    by_cases hne : j = s.asks
    · rw [hne]
    · simp only [Function.update_of_ne hne] at hj
      have hsuspended := h.waiter j hj
      rw [hframe] at hsuspended
      cases hsuspended
  · intro j hj
    rcases List.mem_append.mp hj with hmem | hlast
    · exact Nat.lt_succ_of_lt (h.below j hmem)
    · rw [List.mem_singleton] at hlast
      rw [hlast]
      exact Nat.lt_succ_self _
  · exact fun j hj => h.future j (Nat.le_of_succ_le hj)
  · refine List.nodup_append.mpr ⟨h.nodup, List.nodup_singleton _, fun a ha b hb => ?_⟩
    rw [List.mem_singleton] at hb
    rw [hb]
    exact Nat.ne_of_lt (h.below a ha)
  · exact fun hnot => absurd rfl (hnot s.asks)
  · intro k hk
    cases hk
    exact ⟨Nat.lt_succ_self _, by rw [hlists], by simp⟩

theorem Base.skip {t : Thread} (h : Base s) (hframe : s.frame = .running t) : Base { s with asks := s.asks + 1 } := by
  refine ⟨h.waiting, h.waiter, fun j hj => Nat.lt_succ_of_lt (h.below j hj),
    fun j hj => h.future j (Nat.le_of_succ_le hj), h.nodup, h.awake, fun k hk => ?_⟩
  rw [show s.frame = _ from hframe] at hk
  cases hk

theorem Base.finish {t : Thread} (h : Base s) (hframe : s.frame = .running t) : Base { s with frame := .done } := by
  refine ⟨h.waiting, fun j hj => ?_, h.below, h.future, h.nodup, fun _ => h.awake (by simp [hframe]), fun k hk => ?_⟩
  · have hsuspended := h.waiter j hj
    rw [hframe] at hsuspended
    cases hsuspended
  · cases hk

theorem Base.resolve (h : Base s) : Base
    ({ s with cell := Function.update s.cell k Cell.resolved }.setCarrier k
      (if s.cell k = Cell.waiter then .gate else .finished)) := by
  refine ⟨fun j => ?_, fun j hj => ?_, h.below, fun j hj => ?_, h.nodup, h.awake, fun j hj => ?_⟩
  · simp only [State.setCarrier]
    by_cases hne : j = k
    · rw [hne, Function.update_self, Function.update_self]
      split <;> simp
    · rw [Function.update_of_ne hne, Function.update_of_ne hne]
      exact h.waiting j
  · simp only [State.setCarrier] at hj
    by_cases hne : j = k
    · rw [hne, Function.update_self] at hj
      cases hj
    · rw [Function.update_of_ne hne] at hj
      exact h.waiter j hj
  · simp only [State.setCarrier]
    by_cases hne : j = k
    · rw [hne, Function.update_self]
      split
      · next hwaiter =>
        have hlt := (h.asleep k (h.waiter k hwaiter)).1
        rw [hne] at hj
        exact absurd hlt (Nat.not_lt.mpr hj)
      · trivial
    · rw [Function.update_of_ne hne]
      exact h.future j hj
  · obtain ⟨hlt, hlists, hcell⟩ := h.asleep j hj
    refine ⟨hlt, hlists, ?_⟩
    simp only [State.setCarrier]
    by_cases hne : j = k
    · rw [hne, Function.update_self]
      simp
    · rw [Function.update_of_ne hne]
      exact hcell

theorem Base.resume (h : Base s) (hk : s.carrier k = .resume) (hframe : s.frame = .suspended k) : Base
    ({ s with frame := .running (.carrier k), resumed := s.resumed ++ [k] }.setCarrier k .running) := by
  obtain ⟨hlt, hlists, _⟩ := h.asleep k hframe
  have hresolved : s.cell k = .resolved := by
    by_contra hcell
    have hwait := (h.waiting k).mpr hcell
    rw [hk] at hwait
    cases hwait
  have hmid : Base { s with frame := .running (.carrier k), resumed := s.resumed ++ [k] } := by
    refine ⟨h.waiting, fun j hj => ?_, h.below, h.future, h.nodup, fun _ => hlists, fun j hj => ?_⟩
    · have hsuspended := h.waiter j hj
      rw [hframe] at hsuspended
      cases hsuspended
      rw [show s.cell k = _ from hresolved] at hj
      cases hj
    · cases hj
  exact hmid.setCarrier (by simp [hk]) (by simp) (Or.inl hlt)

theorem setCarrier_self (s : State) (k : Nat) (pc : CarrierPc) : (s.setCarrier k pc).carrier k = pc :=
  Function.update_self k _ _

theorem setCarrier_ne {j : Nat} {pc : CarrierPc} (hj : j ≠ k) : (s.setCarrier k pc).carrier j = s.carrier j :=
  Function.update_of_ne hj _ _

theorem others_setCarrier {P : CarrierPc → Prop} {pc : CarrierPc} (h : ∀ j, j ≠ k → P (s.carrier j)) :
    ∀ j, j ≠ k → P ((s.setCarrier k pc).carrier j) := by
  intro j hj
  rw [setCarrier_ne hj]
  exact h j hj

theorem among_setCarrier {P : CarrierPc → Prop} {Q : Nat → Prop} {pc : CarrierPc}
    (h : ∀ j, Q j → j ≠ k → P (s.carrier j)) (hpc : P pc) : ∀ j, Q j → P ((s.setCarrier k pc).carrier j) := by
  intro j hq
  by_cases hj : j = k
  · rw [hj, setCarrier_self]
    exact hpc
  · rw [setCarrier_ne hj]
    exact h j hq hj

theorem all_setCarrier {P : CarrierPc → Prop} {pc : CarrierPc} (h : ∀ j, j ≠ k → P (s.carrier j))
    (hpc : P pc) (j : Nat) :
    P ((s.setCarrier k pc).carrier j) :=
  among_setCarrier (fun j (_ : True) => h j) hpc j trivial

theorem Phase.running {t : Thread} (h : Phase s) (hframe : s.frame = .running t) :
    s.Counts 0 0 0 ∧
      (t = .lane ∧ s.lane = .running ∧ s.exec = .running ∧ (∀ j, (s.carrier j).Out) ∨
        ∃ k, t = .carrier k ∧ s.lane = .suspended ∧ s.exec = .parked ∧ s.carrier k = .running ∧
          (∀ j, j ≠ k → (s.carrier j).Stale) ∧ s.parkedFrame) := by
  cases h with
  | laneRuns hlane hexec hf hout hcounts =>
    rw [hframe] at hf
    cases hf
    exact ⟨hcounts, Or.inl ⟨rfl, hlane, hexec, hout⟩⟩
  | carrierRuns k hlane hexec hf hk hstale hcounts hstored =>
    rw [hframe] at hf
    cases hf
    exact ⟨hcounts, Or.inr ⟨k, rfl, hlane, hexec, hk, hstale, hstored⟩⟩
  | laneLeaves k hlane hexec hf => rw [hframe] at hf; cases hf
  | laneEnds hexec hf => rw [hframe] at hf; cases hf
  | awaits k hlane hexec hf => rw [hframe] at hf; cases hf
  | carrierEnds k hlane hexec hf => rw [hframe] at hf; cases hf
  | ended hlane hf => rw [hframe] at hf; cases hf

structure Inv (s : State) : Prop where
  base : Base s
  phase : Phase s

theorem Inv.stepAsk (h : Inv s) (hstep : stepAsk s = some s') : Inv s' := by
  unfold Parked.stepAsk at hstep
  split at hstep
  · next t hframe =>
    obtain ⟨hcounts, hthread⟩ := h.phase.running hframe
    split at hstep
    · next hcell =>
      cases hstep
      have hasks : s.carrier s.asks = .waiting := (h.base.waiting _).mpr (by simp [hcell])
      have hbase := h.base.ask hframe hcell
      rcases hthread with ⟨rfl, hlane, hexec, hout⟩ | ⟨k, rfl, hlane, hexec, hk, hstale, hstored⟩
      · refine ⟨hbase.returnTo (by simp),
          .laneLeaves s.asks trivial hexec rfl (Or.inl hasks) (fun j _ => hout j) hcounts ?_⟩
        rintro (hpark | hpark) <;> cases hpark
      · have hne : s.asks ≠ k := by
          intro heq
          rw [heq, hk] at hasks
          cases hasks
        refine ⟨hbase.returnTo ?_, .awaits s.asks hlane hexec rfl (Or.inl ?_) ?_ hcounts hstored⟩
        · intro k' heq
          cases heq
          exact hk
        · simp only [returnTo, setCarrier, Function.update_of_ne hne]
          exact hasks
        · exact fun j _ => all_setCarrier hstale (show CarrierPc.Stale .returned from trivial) j
    · cases hstep
      refine ⟨h.base.skip hframe, ?_⟩
      rcases hthread with ⟨rfl, hlane, hexec, hout⟩ | ⟨k, rfl, hlane, hexec, hk, hstale, hstored⟩
      · exact .laneRuns hlane hexec hframe hout hcounts
      · exact .carrierRuns k hlane hexec hframe hk hstale hcounts hstored
  · cases hstep

theorem Inv.others_out (h : Inv s) (hsound : ∀ k < s.asks, s.carrier k ≠ .returned)
    (hstale : ∀ j, j ≠ k → (s.carrier j).Stale) : ∀ j, j ≠ k → (s.carrier j).Out := by
  intro j hj
  by_cases hlt : j < s.asks
  · have hpc := hstale j hj
    have hreturned := hsound j hlt
    cases heq : s.carrier j with
    | waiting | finished => trivial
    | returned => exact absurd heq hreturned
    | _ => rw [heq] at hpc; cases hpc
  · exact h.base.future j (Nat.not_lt.mp hlt)

theorem Inv.stepFinish (h : Inv s) (hsound : Sound s .finish) (hstep : stepFinish s = some s') : Inv s' := by
  unfold Parked.stepFinish at hstep
  split at hstep
  · next t hframe =>
    cases hstep
    obtain ⟨hcounts, hthread⟩ := h.phase.running hframe
    have hbase := h.base.finish hframe
    rcases hthread with ⟨rfl, hlane, hexec, hout⟩ | ⟨k, rfl, hlane, hexec, hk, hstale, hstored⟩
    · exact ⟨hbase.returnTo (by simp), .laneEnds hexec rfl hout (Or.inl ⟨Or.inl rfl, hcounts⟩)⟩
    · refine ⟨hbase.returnTo ?_, .carrierEnds k hlane hexec rfl (Or.inl ⟨setCarrier_self _ _ _, hstored, hcounts⟩) ?_⟩
      · intro k' heq
        cases heq
        exact hk
      · exact others_setCarrier (h.others_out hsound hstale)
  · cases hstep

theorem Inv.stepThrow (h : Inv s) (hsound : Sound s .throw) (hstep : stepThrow s = some s') : Inv s' := by
  unfold Parked.stepThrow at hstep
  split at hstep
  · next k hframe =>
    cases hstep
    obtain ⟨hcounts, hthread⟩ := h.phase.running hframe
    have hbase := h.base.finish hframe
    rcases hthread with ⟨heq, _⟩ | ⟨k', heq, hlane, hexec, hk, hstale, hstored⟩
    · cases heq
    · cases heq
      have hlt : k < s.asks := h.base.lt_asks (by rw [hk]; exact id)
      refine ⟨hbase.setCarrier (by simp [hk]) (by simp) (Or.inl hlt), ?_⟩
      exact .carrierEnds k hlane hexec rfl (Or.inr (Or.inl ⟨setCarrier_self _ _ _, hcounts⟩))
        (others_setCarrier (h.others_out hsound hstale))
  · cases hstep

theorem Phase.lane_cases (h : Phase s) (hrun : s.lane ≠ .running) (hlane : ¬ s.lane.Out) :
    s.exec = .running ∧ ((∃ k, s.lane.Leaving ∧ s.frame = .suspended k ∧
    (s.carrier k = .waiting ∨ s.carrier k = .gate) ∧
      (∀ j, j ≠ k → (s.carrier j).Out) ∧ s.Counts 0 0 0 ∧ (s.lane = .storeDesc ∨ s.lane = .park → s.parkedFrame)) ∨
    s.frame = .done ∧ (∀ j, (s.carrier j).Out) ∧
      ((s.lane = .returned ∨ s.lane = .inlineDestroy) ∧ s.Counts 0 0 0 ∨ s.lane = .inlineComplete ∧
      s.Counts 1 0 0)) := by
  cases h with
  | laneRuns heq => exact absurd heq hrun
  | laneLeaves k hl hexec hframe hk hout hcounts hstored =>
      exact ⟨hexec, Or.inl ⟨k, hl, hframe, hk, hout, hcounts, hstored⟩⟩
  | laneEnds hexec hframe hout hl =>
    refine ⟨hexec, Or.inr ⟨hframe, hout, ?_⟩⟩
    rcases hl with hl | hl | ⟨hl, _⟩
    · exact Or.inl hl
    · exact Or.inr hl
    · rw [hl] at hlane
      exact absurd trivial hlane
  | carrierRuns k heq => rw [heq] at hlane; exact absurd trivial hlane
  | awaits k heq => rw [heq] at hlane; exact absurd trivial hlane
  | carrierEnds k heq => rw [heq] at hlane; exact absurd trivial hlane
  | ended heq => rw [heq] at hlane; exact absurd trivial hlane

theorem Inv.stepLane (h : Inv s) (hstep : stepLane s = some s') : Inv s' := by
  unfold Parked.stepLane at hstep
  cases hpc : s.lane with
  | running | suspended | drained => simp [hpc] at hstep
  | returned =>
    simp only [hpc, Option.some.injEq] at hstep
    subst hstep
    refine ⟨h.base.same rfl, ?_⟩
    obtain ⟨hexec, ⟨k, _, hframe, hk, hout, hcounts, _⟩ | ⟨hframe, hout, hl⟩⟩ :=
      h.phase.lane_cases (by simp [hpc]) (by rw [hpc]; exact id)
    · rw [if_neg (by simp [hframe])]
      refine .laneLeaves k trivial hexec hframe hk hout hcounts ?_
      rintro (heq | heq) <;> cases heq
    · rw [if_pos hframe]
      rcases hl with ⟨_, hcounts⟩ | ⟨heq, _⟩
      · exact .laneEnds hexec hframe hout (Or.inl ⟨Or.inr rfl, hcounts⟩)
      · rw [hpc] at heq
        cases heq
  | storeFrame | storeDesc | park =>
    simp only [hpc, Option.some.injEq] at hstep
    subst hstep
    refine ⟨h.base.same rfl, ?_⟩
    obtain ⟨hexec, ⟨k, _, hframe, hk, hout, hcounts, hstored⟩ | ⟨_, _, hl⟩⟩ :=
      h.phase.lane_cases (by simp [hpc]) (by rw [hpc]; exact id)
    · first
        | exact .laneLeaves k trivial hexec hframe hk hout hcounts (fun _ => rfl)
        | exact .laneLeaves k trivial hexec hframe hk hout hcounts (fun _ => hstored (Or.inl hpc))
        | exact .awaits k rfl rfl hframe (hk.imp_right Or.inl) (fun j hj => (hout j hj).stale) hcounts
            (hstored (Or.inr hpc))
    · rcases hl with ⟨heq | heq, _⟩ | ⟨heq, _⟩ <;> (rw [hpc] at heq; cases heq)
  | inlineDestroy =>
    simp only [hpc, Option.some.injEq] at hstep
    subst hstep
    refine ⟨h.base.same rfl, ?_⟩
    obtain ⟨hexec, ⟨k, hl, _⟩ | ⟨hframe, hout, ⟨_, hd, hc, hleft⟩ | ⟨heq, _⟩⟩⟩ :=
      h.phase.lane_cases (by simp [hpc]) (by rw [hpc]; exact id)
    · rw [hpc] at hl
      cases hl
    · exact .laneEnds hexec hframe hout (Or.inr (Or.inl ⟨rfl, by rw [hd], hc, hleft⟩))
    · rw [hpc] at heq
      cases heq
  | inlineComplete =>
    simp only [hpc, Option.some.injEq] at hstep
    subst hstep
    refine ⟨h.base.same rfl, ?_⟩
    obtain ⟨hexec, ⟨k, hl, _⟩ | ⟨hframe, hout, ⟨heq | heq, _⟩ | ⟨_, hd, hc, hleft⟩⟩⟩ :=
      h.phase.lane_cases (by simp [hpc]) (by rw [hpc]; exact id)
    · rw [hpc] at hl
      cases hl
    · rw [hpc] at heq
      cases heq
    · rw [hpc] at heq
      cases heq
    · exact .laneEnds hexec hframe hout (Or.inr (Or.inr ⟨rfl, hd, by rw [hc], hleft⟩))

/-- A resolver that has nothing to do with the frame, or finds that it is not done, leaves. -/
theorem Phase.leave {c : Nat → Cell} (h : Phase s)
    (hk : s.carrier k = .waiting ∧ s.frame ≠ .suspended k ∨ s.carrier k = .returned ∧ s.frame ≠ .done) :
    Phase ({ s with cell := c }.setCarrier k .finished) := by
  cases h with
  | laneRuns hlane hexec hframe hout hcounts =>
    exact .laneRuns hlane hexec hframe
      (all_setCarrier (fun j _ => hout j) (show CarrierPc.Out .finished from trivial)) hcounts
  | laneLeaves k' hlane hexec hframe hk' hout hcounts hstored =>
    have hne : k' ≠ k := by
      rintro rfl
      rcases hk with ⟨_, hk⟩ | ⟨hk, _⟩
      · exact hk hframe
      · rw [hk] at hk'
        rcases hk' with heq | heq <;> cases heq
    refine .laneLeaves k' hlane hexec hframe ?_ ?_ hcounts hstored
    · rw [setCarrier_ne hne]
      exact hk'
    · exact among_setCarrier (fun j hj _ => hout j hj) (show CarrierPc.Out .finished from trivial)
  | laneEnds hexec hframe hout hl =>
    exact .laneEnds hexec hframe (all_setCarrier (fun j _ => hout j) (show CarrierPc.Out .finished from trivial)) hl
  | carrierRuns k' hlane hexec hframe hk' hstale hcounts hstored =>
    have hne : k' ≠ k := by
      rintro rfl
      rcases hk with ⟨hk, _⟩ | ⟨hk, _⟩ <;> (rw [hk] at hk'; cases hk')
    refine .carrierRuns k' hlane hexec hframe ?_ ?_ hcounts hstored
    · rw [setCarrier_ne hne]
      exact hk'
    · exact among_setCarrier (fun j hj _ => hstale j hj) (show CarrierPc.Stale .finished from trivial)
  | awaits k' hlane hexec hframe hk' hstale hcounts hstored =>
    have hne : k' ≠ k := by
      rintro rfl
      rcases hk with ⟨_, hk⟩ | ⟨hk, _⟩
      · exact hk hframe
      · rw [hk] at hk'
        rcases hk' with heq | heq | heq <;> cases heq
    refine .awaits k' hlane hexec hframe ?_ ?_ hcounts hstored
    · rw [setCarrier_ne hne]
      exact hk'
    · exact among_setCarrier (fun j hj _ => hstale j hj) (show CarrierPc.Stale .finished from trivial)
  | carrierEnds k' hlane hexec hframe hk' hout =>
    have hwaiting : s.carrier k = .waiting := by
      rcases hk with ⟨hk, _⟩ | ⟨_, hk⟩
      · exact hk
      · exact absurd hframe hk
    have hne : k' ≠ k := by
      rintro rfl
      rw [hwaiting] at hk'
      simp at hk'
    refine .carrierEnds k' hlane hexec hframe ?_ ?_
    · rw [setCarrier_ne hne]
      exact hk'
    · exact among_setCarrier (fun j hj _ => hout j hj) (show CarrierPc.Out .finished from trivial)
  | ended hlane hframe hout hcounts =>
    exact .ended hlane hframe (all_setCarrier (fun j _ => hout j) (show CarrierPc.Out .finished from trivial)) hcounts

/-- The frame is suspended in the ask: what the one resolver that has it can do. -/
theorem Phase.suspended (h : Phase s) (hframe : s.frame = .suspended k) :
    (s.exec = .running ∧ s.lane.Leaving ∧ (s.carrier k = .waiting ∨ s.carrier k = .gate) ∧
      (∀ j, j ≠ k → (s.carrier j).Out) ∧ s.Counts 0 0 0 ∧ (s.lane = .storeDesc ∨ s.lane = .park → s.parkedFrame)) ∨
    s.exec = .parked ∧ s.lane = .suspended ∧
      (s.carrier k = .waiting ∨ s.carrier k = .gate ∨ s.carrier k = .resume) ∧
      (∀ j, j ≠ k → (s.carrier j).Stale) ∧ s.Counts 0 0 0 ∧ s.parkedFrame := by
  cases h with
  | laneLeaves k' hlane hexec hf hk hout hcounts hstored =>
    rw [hframe] at hf
    cases hf
    exact Or.inl ⟨hexec, hlane, hk, hout, hcounts, hstored⟩
  | awaits k' hlane hexec hf hk hstale hcounts hstored =>
    rw [hframe] at hf
    cases hf
    exact Or.inr ⟨hexec, hlane, hk, hstale, hcounts, hstored⟩
  | laneRuns _ _ hf => rw [hframe] at hf; cases hf
  | laneEnds _ hf => rw [hframe] at hf; cases hf
  | carrierRuns _ _ _ hf => rw [hframe] at hf; cases hf
  | carrierEnds _ _ _ hf => rw [hframe] at hf; cases hf
  | ended _ hf => rw [hframe] at hf; cases hf

theorem Inv.stepResolve (h : Inv s) (hstep : stepResolve s k = some s') : Inv s' := by
  unfold Parked.stepResolve at hstep
  split at hstep
  · next hk =>
    cases hstep
    refine ⟨h.base.resolve, ?_⟩
    by_cases hcell : s.cell k = .waiter
    · rw [if_pos hcell]
      have hframe := h.base.waiter k hcell
      rcases h.phase.suspended hframe with
        ⟨hexec, hlane, _, hout, hcounts, hstored⟩ | ⟨hexec, hlane, _, hstale, hcounts, hstored⟩
      · exact .laneLeaves k hlane hexec hframe (Or.inr (setCarrier_self _ _ _))
          (others_setCarrier hout) hcounts hstored
      · exact .awaits k hlane hexec hframe (Or.inr (Or.inl (setCarrier_self _ _ _)))
          (others_setCarrier hstale) hcounts
          hstored
    · rw [if_neg hcell]
      refine h.phase.leave (Or.inl ⟨hk, fun hframe => ?_⟩)
      have hempty := (h.base.asleep k hframe).2.2
      have hresolved := (h.base.waiting k).mp hk
      cases heq : s.cell k with
      | empty => exact hempty heq
      | waiter => exact hcell heq
      | resolved => exact hresolved heq
  · cases hstep

/-- A carrier that has seen the frame done goes on to the end on its own. -/
def CarrierPc.Ending : CarrierPc → Prop
  | .destroy | .clear | .complete | .readmitParked => True
  | _ => False

theorem Phase.holder (h : Phase s) (hk : ¬ (s.carrier k).Stale) :
    s.frame = .suspended k ∧ (s.carrier k = .gate ∨ s.carrier k = .resume) ∨
      s.frame = .running (.carrier k) ∧ s.carrier k = .running ∨ s.frame = .done ∧ (s.carrier k).Ending := by
  have hnot : ¬ (s.carrier k).Out := fun hout => hk hout.stale
  cases h with
  | laneRuns _ _ _ hout => exact absurd (hout k) hnot
  | laneEnds _ _ hout => exact absurd (hout k) hnot
  | ended _ _ hout => exact absurd (hout k) hnot
  | laneLeaves k' _ _ hframe hk' hout =>
    by_cases heq : k = k'
    · rw [← heq] at hframe hk'
      rcases hk' with hpc | hpc
      · rw [hpc] at hk
        exact absurd trivial hk
      · exact Or.inl ⟨hframe, Or.inl hpc⟩
    · exact absurd (hout k heq) hnot
  | carrierRuns k' _ _ hframe hk' hstale =>
    by_cases heq : k = k'
    · rw [← heq] at hframe hk'
      exact Or.inr (Or.inl ⟨hframe, hk'⟩)
    · exact absurd (hstale k heq) hk
  | awaits k' _ _ hframe hk' hstale =>
    by_cases heq : k = k'
    · rw [← heq] at hframe hk'
      rcases hk' with hpc | hpc
      · rw [hpc] at hk
        exact absurd trivial hk
      · exact Or.inl ⟨hframe, hpc⟩
    · exact absurd (hstale k heq) hk
  | carrierEnds k' _ _ hframe hk' hout =>
    by_cases heq : k = k'
    · rw [← heq] at hk'
      refine Or.inr (Or.inr ⟨hframe, ?_⟩)
      rcases hk' with ⟨hpc, _⟩ | ⟨hpc, _⟩ | ⟨hpc | hpc, _⟩ | ⟨hpc, _⟩
      · rw [hpc] at hk
        exact absurd trivial hk
      all_goals rw [hpc]; trivial
    · exact absurd (hout k heq) hnot

theorem Phase.before_resume (h : Phase s) (hk : s.carrier k = .gate ∨ s.carrier k = .resume) :
    s.frame = .suspended k := by
  have hnot : ¬ (s.carrier k).Stale := by
    rcases hk with hk | hk <;> (rw [hk]; exact id)
  rcases h.holder hnot with ⟨hframe, _⟩ | ⟨_, hpc⟩ | ⟨_, hpc⟩
  · exact hframe
  · rw [hpc] at hk
    simp at hk
  · rcases hk with hk | hk <;> (rw [hk] at hpc; cases hpc)

theorem Phase.done (h : Phase s) (hframe : s.frame = .done) (hk : ¬ (s.carrier k).Out) :
    s.lane = .suspended ∧ s.exec = .parked ∧ (∀ j, j ≠ k → (s.carrier j).Out) ∧
      (s.carrier k = .returned ∧ s.parkedFrame ∧ s.Counts 0 0 0 ∨ s.carrier k = .destroy ∧ s.Counts 0 0 0 ∨
        (s.carrier k = .clear ∨ s.carrier k = .complete) ∧ s.Counts 1 0 0 ∨
        s.carrier k = .readmitParked ∧ s.Counts 1 1 0) := by
  cases h with
  | laneEnds _ _ hout => exact absurd (hout k) hk
  | ended _ _ hout => exact absurd (hout k) hk
  | carrierEnds k' hlane hexec hf hk' hout =>
    by_cases heq : k = k'
    · rw [heq]
      exact ⟨hlane, hexec, hout, hk'⟩
    · exact absurd (hout k heq) hk
  | laneRuns _ _ hf => rw [hframe] at hf; cases hf
  | laneLeaves _ _ _ hf => rw [hframe] at hf; cases hf
  | carrierRuns _ _ _ hf => rw [hframe] at hf; cases hf
  | awaits _ _ _ hf => rw [hframe] at hf; cases hf

theorem Phase.returned (h : Phase s) (hk : s.carrier k = .returned) : s.parkedFrame ∧ s.destroys = 0 := by
  have hnot : ¬ (s.carrier k).Out := by rw [hk]; exact id
  by_cases hframe : s.frame = .done
  · obtain ⟨_, _, _, ⟨_, hstored, hcounts⟩ | ⟨heq, _⟩ | ⟨heq | heq, _⟩ | ⟨heq, _⟩⟩ := h.done hframe hnot
    · exact ⟨hstored, hcounts.1⟩
    all_goals rw [hk] at heq; cases heq
  · cases h with
    | laneRuns _ _ _ hout => exact absurd (hout k) hnot
    | laneLeaves k' _ _ _ hk' hout =>
      by_cases heq : k = k'
      · rw [← heq, hk] at hk'
        simp at hk'
      · exact absurd (hout k heq) hnot
    | carrierRuns _ _ _ _ _ _ hcounts hstored => exact ⟨hstored, hcounts.1⟩
    | awaits _ _ _ _ _ _ hcounts hstored => exact ⟨hstored, hcounts.1⟩
    | laneEnds _ hf => exact absurd hf hframe
    | carrierEnds _ _ _ hf => exact absurd hf hframe
    | ended _ hf => exact absurd hf hframe

theorem Phase.ending (h : Phase s) (hk : (s.carrier k).Ending) : s.frame = .done := by
  have hnot : ¬ (s.carrier k).Stale := by
    cases heq : s.carrier k with
    | destroy | clear | complete | readmitParked => exact id
    | _ => rw [heq] at hk; cases hk
  rcases h.holder hnot with ⟨_, hpc | hpc⟩ | ⟨_, hpc⟩ | ⟨hframe, _⟩
  · rw [hpc] at hk
    cases hk
  · rw [hpc] at hk
    cases hk
  · rw [hpc] at hk
    cases hk
  · exact hframe

theorem Inv.ending (h : Inv s) (hk : (s.carrier k).Ending) :
    s.frame = .done ∧ (∀ pc, pc ≠ .waiting → Base (s.setCarrier k pc)) ∧ s.lane = .suspended ∧ s.exec = .parked ∧
      (∀ j, j ≠ k → (s.carrier j).Out) ∧
      (s.carrier k = .destroy ∧ s.Counts 0 0 0 ∨ (s.carrier k = .clear ∨ s.carrier k = .complete) ∧ s.Counts 1 0 0 ∨
        s.carrier k = .readmitParked ∧ s.Counts 1 1 0) := by
  have hframe := h.phase.ending hk
  have hnot : ¬ (s.carrier k).Out := by
    intro hout
    cases heq : s.carrier k with
    | waiting | finished => rw [heq] at hk; cases hk
    | _ => rw [heq] at hout; cases hout
  obtain ⟨hlane, hexec, hout, ⟨heq, _⟩ | hcase⟩ := h.phase.done hframe hnot
  · rw [heq] at hk
    cases hk
  · refine ⟨hframe, fun pc hpc => h.base.setCarrier (fun hwaiting => ?_) hpc (Or.inl (h.base.lt_asks hnot)), hlane,
      hexec, hout, hcase⟩
    rw [hwaiting] at hk
    cases hk

theorem Inv.stepCarrier (h : Inv s) (hstep : stepCarrier s k = some s') : Inv s' := by
  unfold Parked.stepCarrier at hstep
  cases hpc : s.carrier k with
  | waiting | running | finished | crashed => simp [hpc] at hstep
  | gate =>
    simp only [hpc, Option.some.injEq] at hstep
    subst hstep
    split
    · next hexec =>
      have hframe := h.phase.before_resume (Or.inl hpc)
      refine ⟨h.base.setCarrier (by simp [hpc]) (by simp) (Or.inl (h.base.asleep k hframe).1), ?_⟩
      rcases h.phase.suspended hframe with ⟨hrun, _⟩ | ⟨_, hlane, _, hstale, hcounts, hstored⟩
      · rw [hexec] at hrun
        cases hrun
      · exact .awaits k hlane hexec hframe (Or.inr (Or.inr (setCarrier_self _ _ _)))
          (others_setCarrier hstale) hcounts
          hstored
    · exact h
  | resume =>
    have hframe := h.phase.before_resume (Or.inr hpc)
    simp only [hpc, if_pos hframe, Option.some.injEq] at hstep
    subst hstep
    refine ⟨h.base.resume hpc hframe, ?_⟩
    rcases h.phase.suspended hframe with ⟨_, _, heq | heq, _⟩ | ⟨hexec, hlane, _, hstale, hcounts, hstored⟩
    · rw [hpc] at heq
      cases heq
    · rw [hpc] at heq
      cases heq
    · exact .carrierRuns k hlane hexec rfl (setCarrier_self _ _ _) (others_setCarrier hstale) hcounts hstored
  | returned =>
    have hlt : k < s.asks := h.base.lt_asks (by rw [hpc]; exact id)
    simp only [hpc, if_pos (h.phase.returned hpc), Option.some.injEq] at hstep
    subst hstep
    by_cases hframe : s.frame = .done
    · rw [if_pos hframe]
      refine ⟨h.base.setCarrier (by simp [hpc]) (by simp) (Or.inl hlt), ?_⟩
      obtain ⟨hlane, hexec, hout, hcase⟩ := h.phase.done hframe (by rw [hpc]; exact id)
      simp only [hpc, reduceCtorEq, true_and, false_and, or_false] at hcase
      exact .carrierEnds k hlane hexec hframe (Or.inr (Or.inl ⟨setCarrier_self _ _ _, hcase.2⟩))
        (others_setCarrier hout)
    · rw [if_neg hframe]
      exact ⟨h.base.setCarrier (by simp [hpc]) (by simp) (Or.inl hlt), h.phase.leave (Or.inr ⟨hpc, hframe⟩)⟩
  | destroy =>
    obtain ⟨hframe, hbase, hlane, hexec, hout, hcase⟩ := h.ending (by rw [hpc]; trivial)
    simp only [hpc, reduceCtorEq, true_and, false_and, or_self, or_false] at hcase
    simp only [hpc, Option.some.injEq] at hstep
    subst hstep
    refine ⟨(hbase .clear (by simp)).same rfl, .carrierEnds k hlane hexec hframe ?_ (others_setCarrier hout)⟩
    exact Or.inr (Or.inr (Or.inl ⟨Or.inl (setCarrier_self _ _ _), by rw [setCarrier, hcase.1], hcase.2⟩))
  | clear =>
    obtain ⟨hframe, hbase, hlane, hexec, hout, hcase⟩ := h.ending (by rw [hpc]; trivial)
    simp only [hpc, reduceCtorEq, true_and, false_and, or_false, false_or] at hcase
    simp only [hpc, Option.some.injEq] at hstep
    subst hstep
    refine ⟨(hbase .complete (by simp)).same rfl, .carrierEnds k hlane hexec hframe ?_ (others_setCarrier hout)⟩
    exact Or.inr (Or.inr (Or.inl ⟨Or.inr (setCarrier_self _ _ _), hcase⟩))
  | complete =>
    obtain ⟨hframe, hbase, hlane, hexec, hout, hcase⟩ := h.ending (by rw [hpc]; trivial)
    simp only [hpc, reduceCtorEq, true_and, false_and, or_true, or_false, false_or] at hcase
    simp only [hpc, Option.some.injEq] at hstep
    subst hstep
    obtain ⟨hd, hc, hl⟩ := hcase
    refine ⟨(hbase .readmitParked (by simp)).same rfl, .carrierEnds k hlane hexec hframe ?_ (others_setCarrier hout)⟩
    exact Or.inr (Or.inr (Or.inr ⟨setCarrier_self _ _ _, hd, by rw [setCarrier, hc], hl⟩))
  | readmitParked =>
    obtain ⟨hframe, hbase, hlane, hexec, hout, hcase⟩ := h.ending (by rw [hpc]; trivial)
    simp only [hpc, reduceCtorEq, true_and, false_and, or_self, false_or] at hcase
    simp only [hpc, hexec, Option.some.injEq] at hstep
    subst hstep
    obtain ⟨hd, hc, hl⟩ := hcase
    refine ⟨(hbase .finished (by simp)).same rfl, ?_⟩
    refine .ended hlane hframe (all_setCarrier hout (show CarrierPc.Out .finished from trivial)) ⟨hd, hc, ?_⟩
    simp [ExecState.readmitFromParked, ExecState.cas, setCarrier, hl]

theorem Inv.step {l : Label} (h : Inv s) (hsound : Sound s l) (hstep : step s l = some s') : Inv s' := by
  cases l with
  | ask => exact h.stepAsk hstep
  | finish => exact h.stepFinish hsound hstep
  | throw => exact h.stepThrow hsound hstep
  | lane => exact h.stepLane hstep
  | resolve k => exact h.stepResolve hstep
  | carrier k => exact h.stepCarrier hstep

theorem Phase.frame_of_runs {t : Thread} (h : Phase s) (ht : s.Runs t) : s.frame = .running t := by
  cases t with
  | lane =>
    have hlane : s.lane = .running := ht
    cases h with
    | laneRuns _ _ hframe => exact hframe
    | laneLeaves _ hl => rw [hlane] at hl; cases hl
    | laneEnds _ _ _ hl => rw [hlane] at hl; simp at hl
    | carrierRuns _ hl => rw [hlane] at hl; cases hl
    | awaits _ hl => rw [hlane] at hl; cases hl
    | carrierEnds _ hl => rw [hlane] at hl; cases hl
    | ended hl => rw [hlane] at hl; cases hl
  | carrier k =>
    have hk : s.carrier k = .running := ht
    rcases h.holder (by rw [hk]; exact id) with ⟨_, hpc⟩ | ⟨hframe, _⟩ | ⟨_, hpc⟩
    · rw [hk] at hpc
      simp at hpc
    · exact hframe
    · rw [hk] at hpc
      cases hpc

/-- How often what ends a handler has been done, while it is not done, while it is ending, and after. -/
theorem Phase.counts (h : Phase s) :
    s.Counts 0 0 0 ∨ s.frame = .done ∧ (s.Counts 1 0 0 ∨ s.Counts 1 1 0 ∨ s.Counts 1 1 1) := by
  cases h with
  | laneRuns _ _ _ _ hcounts => exact Or.inl hcounts
  | laneLeaves _ _ _ _ _ _ hcounts => exact Or.inl hcounts
  | carrierRuns _ _ _ _ _ _ hcounts => exact Or.inl hcounts
  | awaits _ _ _ _ _ _ hcounts => exact Or.inl hcounts
  | laneEnds _ hframe _ hl =>
    rcases hl with ⟨_, hcounts⟩ | ⟨_, hcounts⟩ | ⟨_, hcounts⟩
    · exact Or.inl hcounts
    · exact Or.inr ⟨hframe, Or.inl hcounts⟩
    · exact Or.inr ⟨hframe, Or.inr (Or.inl hcounts)⟩
  | carrierEnds _ _ _ hframe hk =>
    rcases hk with ⟨_, _, hcounts⟩ | ⟨_, hcounts⟩ | ⟨_, hcounts⟩ | ⟨_, hcounts⟩
    · exact Or.inl hcounts
    · exact Or.inl hcounts
    · exact Or.inr ⟨hframe, Or.inl hcounts⟩
    · exact Or.inr ⟨hframe, Or.inr (Or.inl hcounts)⟩
  | ended _ hframe _ hcounts => exact Or.inr ⟨hframe, Or.inr (Or.inr hcounts)⟩

theorem Phase.parked (h : Phase s) (hleaves : s.leaves = 0) (hlane : s.lane = .suspended) : s.exec = .parked := by
  cases h with
  | carrierRuns _ _ hexec => exact hexec
  | awaits _ _ hexec => exact hexec
  | carrierEnds _ _ hexec => exact hexec
  | ended _ _ _ hcounts => rw [hcounts.2.2] at hleaves; cases hleaves
  | laneRuns hl => rw [hlane] at hl; cases hl
  | laneLeaves _ hl => rw [hlane] at hl; cases hl
  | laneEnds _ _ _ hl => rw [hlane] at hl; simp at hl

theorem Phase.at_rest (h : Phase s) (hframe : s.frame = .done) (hlane : s.lane.Out) (hout : ∀ k, (s.carrier k).Out) :
    s.destroys = 1 ∧ s.completes = 1 ∧ (s.lane = .suspended → s.leaves = 1) := by
  cases h with
  | laneEnds _ _ _ hl =>
    rcases hl with ⟨heq | heq, _⟩ | ⟨heq, _⟩ | ⟨heq, hcounts⟩
    · rw [heq] at hlane; cases hlane
    · rw [heq] at hlane; cases hlane
    · rw [heq] at hlane; cases hlane
    · exact ⟨hcounts.1, hcounts.2.1, fun hl => by rw [heq] at hl; cases hl⟩
  | carrierEnds k _ _ _ hk =>
    have hpc := hout k
    rcases hk with ⟨heq, _⟩ | ⟨heq, _⟩ | ⟨heq | heq, _⟩ | ⟨heq, _⟩ <;> (rw [heq] at hpc; cases hpc)
  | ended _ _ _ hcounts => exact ⟨hcounts.1, hcounts.2.1, fun _ => hcounts.2.2⟩
  | laneRuns _ _ hf => rw [hframe] at hf; cases hf
  | laneLeaves _ _ _ hf => rw [hframe] at hf; cases hf
  | carrierRuns _ _ _ hf => rw [hframe] at hf; cases hf
  | awaits _ _ _ hf => rw [hframe] at hf; cases hf

theorem Phase.intact (h : Phase s) (k : Nat) : s.carrier k ≠ .crashed := by
  intro hk
  rcases h.holder (by rw [hk]; exact id) with ⟨_, hpc⟩ | ⟨_, hpc⟩ | ⟨_, hpc⟩
  · rw [hk] at hpc
    simp at hpc
  · rw [hk] at hpc
    cases hpc
  · rw [hk] at hpc
    cases hpc

theorem Inv.once (h : Inv s) : Once s := by
  constructor
  · intro t t' ht ht'
    have hframe := h.phase.frame_of_runs ht
    rw [h.phase.frame_of_runs ht'] at hframe
    cases hframe
    rfl
  · exact h.base.nodup
  · by_cases hframe : ∃ k, s.frame = .suspended k
    · obtain ⟨k, hk⟩ := hframe
      exact Or.inr ⟨k, hk, (h.base.asleep k hk).2.1⟩
    · exact Or.inl (h.base.awake fun k hk => hframe ⟨k, hk⟩)
  · intro k hk
    rcases h.phase.suspended hk with ⟨_, _, hpc | hpc, _⟩ | ⟨_, _, hpc, _⟩
    · exact Or.inl hpc
    · exact Or.inr (Or.inl hpc)
    · exact hpc
  · rcases h.phase.counts with ⟨hd, _⟩ | ⟨hframe, ⟨hd, _⟩ | ⟨hd, _⟩ | ⟨hd, _⟩⟩
    · exact ⟨by omega, fun heq => by omega⟩
    all_goals exact ⟨by omega, fun _ => hframe⟩
  · rcases h.phase.counts with ⟨hd, hc, _⟩ | ⟨_, ⟨hd, hc, _⟩ | ⟨hd, hc, _⟩ | ⟨hd, hc, _⟩⟩ <;> omega
  · rcases h.phase.counts with ⟨_, hc, hl⟩ | ⟨_, ⟨_, hc, hl⟩ | ⟨_, hc, hl⟩ | ⟨_, hc, hl⟩⟩ <;> omega
  · exact h.phase.parked
  · exact h.phase.at_rest
  · exact h.phase.intact

end

theorem Inv.of_reach {s : State} (h : Machine.Reach Parked.step Sound {} s) : Inv s := by
  refine h.invariant ⟨.initial, .initial⟩ ?_
  intro s l s' h hsound hstep
  exact h.step hsound hstep

/-- In every run whose steps all meet the condition. -/
theorem handler_once : ∀ s : State, Machine.Reach step Sound {} s → Once s :=
  fun _ h => (Inv.of_reach h).once

/-- Two asks answered on two threads, the first of which is out of the handler before it ends. -/
theorem handler_once_after_two_asks : ∃ s : State,
    s.destroys = 1 ∧ s.completes = 1 ∧ s.leaves = 1 ∧ s.resumed = [0, 1] ∧ Once s := by
  have hrun : (Machine.run (Machine.guarded step Sound) {}
      ([Label.ask] ++ List.replicate 4 Label.lane ++
      ([.resolve 0, .carrier 0, .carrier 0, .ask, .carrier 0, .resolve 1,
        .carrier 1, .carrier 1, .finish] : List Label) ++ List.replicate 5 (Label.carrier 1))).map
          (fun s => (s.destroys, s.completes, s.leaves, s.resumed)) = some (1, 1, 1, [0, 1]) := by
    decide +kernel
  obtain ⟨s, hs, hview⟩ := Option.map_eq_some_iff.mp hrun
  simp only [Prod.mk.injEq] at hview
  obtain ⟨hd, hc, hl, hr⟩ := hview
  exact ⟨s, hd, hc, hl, hr, handler_once s (Machine.reach_of_run hs)⟩

/-- The second resolver runs the handler to its end before the first has looked whether it is done. -/
theorem handler_twice : ¬ ∀ s : State, Machine.Reachable step {} s → Once s := by
  intro hall
  have hrun : (Machine.run step {}
      ([Label.ask] ++ List.replicate 4 Label.lane ++
      ([.resolve 0, .carrier 0, .carrier 0, .ask, .resolve 1, .carrier 1,
        .carrier 1, .finish, .carrier 0, .carrier 1, .carrier 0, .carrier 1] : List Label))).map
        (fun s => s.destroys) = some 2 := by
    decide +kernel
  obtain ⟨s, hs, hview⟩ := Option.map_eq_some_iff.mp hrun
  have hle := (hall s (Machine.reachable_of_run hs)).destroyed.1
  omega

end Quark.Parked
