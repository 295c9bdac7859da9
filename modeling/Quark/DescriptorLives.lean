import Quark.Descriptor

/-! The lives of one pooled descriptor: an owner that posts, claims and releases it, and any number of
cancels, with every load and every store of its word a step of its own. -/
namespace Quark.Descriptor

open List Option UInt64 GenState

/-- A life is counted from the first one of the cell; `life` is the one in which the handle was captured. -/
structure MessageHandle where
  generation : UInt64
  life : Nat
  deriving DecidableEq, Repr

inductive CancelPc
  | load
  | exchange (cur : UInt64)
  | returned (ok : Bool)
  deriving DecidableEq, Repr

/-- A call of `try_cancel`. -/
structure Cancel where
  handle : MessageHandle
  pc : CancelPc := .load
  deriving DecidableEq, Repr

/-- Where the owner of the descriptor stands: the pool, its producer or its consumer. -/
inductive Phase
  | free
  | setup
  | flagging (cur : UInt64)
  | queued
  | claiming (cur : UInt64)
  | claimed (flags : UInt64)
  | running
  | skipping
  | completing (cur : UInt64)
  | reclaiming
  | releasing (cur : UInt64)
  deriving DecidableEq, Repr

def Phase.exclusive : Phase → Bool
  | .free | .setup | .flagging _ => true
  | _ => false

/-- What became of a life. `skipped` is a claim that `drain_step` does not dispatch. -/
structure Life where
  claim : Option Bool := none
  skipped : Bool := false
  dispatched : Nat := 0
  retried : Nat := 0
  deriving DecidableEq, Repr

structure State where
  word : UInt64 := pack 0 .queued 0
  phase : Phase := .free
  handles : List MessageHandle := []
  cancels : List Cancel := []
  life : Nat := 0
  lives : Nat → Life := fun _ => {}

inductive Label
  | acquire
  | flagsLoad
  | flagsStore (flags : UInt64)
  | post
  | claimLoad
  | claimExchange (spurious : Bool)
  | dispatch (stopped : Bool)
  | retry
  | completeLoad
  | completeStore
  | releaseLoad
  | releaseStore
  | capture
  | cancel (handle : Nat)
  | cancelStep (call : Nat) (spurious : Bool)
  deriving DecidableEq, Repr

def kControlFlagDeactivate : UInt64 := 1

namespace State

variable (s : State)

def record (f : Life → Life) : State := { s with lives := Function.update s.lives s.life (f (s.lives s.life)) }

/-- The head of the loop of `try_claim`. -/
def claimCheck (cur : UInt64) : State :=
  if stateOf cur ≠ MsgState.queued.code
    then { s.record fun r => { r with claim := some false } with phase := .reclaiming }
  else { s with phase := .claiming cur }

/-- The head of the loop of `try_cancel`. -/
def cancelCheck (h : MessageHandle) (cur : UInt64) : CancelPc :=
  if generationOf cur ≠ h.generation &&& genMask then .returned false
  else if stateOf cur ≠ MsgState.queued.code then .returned false
  else .exchange cur

def setCancel (k : Nat) (c : Cancel) : State := { s with cancels := s.cancels.set k c }

def stepCancel (k : Nat) (spurious : Bool) (c : Cancel) : Option State :=
  match c.pc with
  | .load => some (s.setCancel k { c with pc := cancelCheck c.handle s.word })
  | .exchange cur =>
    if spurious = false ∧ s.word = cur then
      some { s.setCancel k { c with pc := .returned true } with word := withState cur .cancelled }
    else some (s.setCancel k { c with pc := cancelCheck c.handle s.word })
  | .returned _ => none

def step (s : State) : Label → Option State
  | .acquire => match s.phase with
      | .free => some { s with phase := .setup }
      | _ => none
  | .flagsLoad => match s.phase with
      | .setup => some { s with phase := .flagging s.word }
      | _ => none
  | .flagsStore flags => match s.phase with
      | .flagging cur => some { s with phase := .setup, word := withFlags cur flags }
      | _ => none
  | .post => match s.phase with
      | .setup => some { s with phase := .queued }
      | _ => none
  | .claimLoad => match s.phase with
      | .queued => some (s.claimCheck s.word)
      | _ => none
  | .claimExchange spurious => match s.phase with
      | .claiming cur =>
        if spurious = false ∧ s.word = cur then
          some { s.record fun r => { r with claim := some true } with
            phase := .claimed (flagsOf cur)
            word := withState cur .running }
        else some (s.claimCheck s.word)
      | _ => none
  | .dispatch stopped => match s.phase with
      | .claimed flags =>
        if flags &&& kControlFlagDeactivate ≠ 0 then
          some { s.record fun r => { r with skipped := true } with phase := .reclaiming }
        else if stopped then some { s.record fun r => { r with skipped := true } with phase := .skipping }
        else some { s.record fun r => { r with dispatched := r.dispatched + 1 } with phase := .running }
      | _ => none
  | .retry => match s.phase with
      | .running => some (s.record fun r => { r with retried := r.retried + 1 })
      | _ => none
  | .completeLoad => match s.phase with
      | .running | .skipping => some { s with phase := .completing s.word }
      | _ => none
  | .completeStore => match s.phase with
      | .completing cur => some { s with phase := .reclaiming, word := withState cur .completed }
      | _ => none
  | .releaseLoad => match s.phase with
      | .reclaiming => some { s with phase := .releasing s.word }
      | _ => none
  | .releaseStore => match s.phase with
      | .releasing cur =>
        some { s with
          phase := .free
          life := s.life + 1
          word := pack ((generationOf cur + 1) &&& genMask) .queued 0 }
      | _ => none
  | .capture =>
    if s.phase.exclusive then none else some { s with handles := s.handles ++ [⟨generationOf s.word, s.life⟩] }
  | .cancel i => match s.handles[i]? with
      | some handle => some { s with cancels := s.cancels ++ [{ handle }] }
      | none => none
  | .cancelStep k spurious => match s.cancels[k]? with
      | some c => s.stepCancel k spurious c
      | none => none

def cancelled (life : Nat) : Nat := s.cancels.countP fun c => c.handle.life = life ∧ c.pc = .returned true

end State

def Life.Settled (r : Life) (cancelled : Nat) : Prop :=
  r.claim = some true ∧ cancelled = 0 ∧ (r.skipped = true ∧ r.dispatched = 0 ∧ r.retried = 0 ∨ r.skipped = false ∧
    r.dispatched = 1) ∨ r.claim = some false ∧ cancelled = 1 ∧ r.dispatched = 0 ∧ r.retried = 0

/-- What can be said of a life at any time: its claim and its cancels exclude each other. -/
structure Life.Exclusive (r : Life) (n : Nat) : Prop where
  cancelled : n ≤ 1
  claimed : r.claim = some true → n = 0
  tombstone : r.claim = some false → n = 1
  once : r.dispatched ≤ 1
  dispatched : 0 < r.dispatched → r.claim = some true

theorem Life.exclusive_fresh {n : Nat} (h : n ≤ 1) : Life.Exclusive {} n :=
  ⟨h, nofun, nofun, Nat.zero_le _, fun hpos => absurd hpos (Nat.lt_irrefl 0)⟩

theorem Life.exclusive_claimed {r : Life} (hclaim : r.claim = some true) (honce : r.dispatched ≤ 1) : r.Exclusive 0 :=
  ⟨Nat.zero_le _, fun _ => rfl, fun hc => (by rw [hclaim] at hc; cases hc), honce, fun _ => hclaim⟩

theorem Life.Settled.exclusive {r : Life} {n : Nat} (h : r.Settled n) : r.Exclusive n := by
  obtain ⟨hclaim, rfl, ⟨-, hran, -⟩ | ⟨-, hran⟩⟩ | ⟨hclaim, rfl, hran, -⟩ := h
  · exact exclusive_claimed hclaim (by omega)
  · exact exclusive_claimed hclaim (by omega)
  · exact ⟨Nat.le_refl _, fun hc => (by rw [hclaim] at hc; cases hc), fun _ => rfl, by omega, fun hpos => (by omega)⟩

namespace State

/-- Nobody has claimed the message yet; at most one cancel has won. -/
def Open (s : State) : Prop :=
  stateOf s.word = MsgState.queued.code ∧ s.cancelled s.life = 0 ∨ stateOf s.word = MsgState.cancelled.code ∧
    s.cancelled s.life = 1

/-- The consumer has it. -/
def Claimed (s : State) (f : Life → Prop) : Prop :=
  stateOf s.word = MsgState.running.code ∧ s.cancelled s.life = 0 ∧ (s.lives s.life).claim = some true ∧
    f (s.lives s.life)

/-- What holds where the owner stands. No cancel comes between a load and the store that follows it. -/
def Here (s : State) : Prop :=
  match s.phase with
  | .free | .setup => stateOf s.word = MsgState.queued.code ∧ s.cancelled s.life = 0 ∧ s.lives s.life = {}
  | .flagging cur => s.word = cur ∧ stateOf s.word = MsgState.queued.code ∧ s.cancelled s.life = 0 ∧
      s.lives s.life = {}
  | .queued => s.Open ∧ s.lives s.life = {}
  | .claiming cur => s.Open ∧ s.lives s.life = {} ∧ stateOf cur = MsgState.queued.code
  | .claimed _ => s.Claimed fun r => r.skipped = false ∧ r.dispatched = 0 ∧ r.retried = 0
  | .running => s.Claimed fun r => r.skipped = false ∧ r.dispatched = 1
  | .skipping => s.Claimed fun r => r.skipped = true ∧ r.dispatched = 0 ∧ r.retried = 0
  | .completing cur => s.word = cur ∧ stateOf s.word = MsgState.running.code ∧
      (s.lives s.life).Settled (s.cancelled s.life)
  | .reclaiming => stateOf s.word ≠ MsgState.queued.code ∧ (s.lives s.life).Settled (s.cancelled s.life)
  | .releasing cur => s.word = cur ∧ stateOf s.word ≠ MsgState.queued.code ∧
      (s.lives s.life).Settled (s.cancelled s.life)

structure Inv (s : State) : Prop where
  generation : generationOf s.word = UInt64.ofNat s.life
  here : s.Here
  past : ∀ life, life < s.life → (s.lives life).Settled (s.cancelled life)
  future : ∀ life, s.life < life → s.lives life = {} ∧ s.cancelled life = 0
  handles : ∀ h ∈ s.handles, h.generation = UInt64.ofNat h.life ∧ h.life ≤ s.life ∧
    (s.phase.exclusive = true → h.life < s.life)
  calls : ∀ c ∈ s.cancels, c.handle ∈ s.handles ∧ ∀ cur, c.pc = .exchange cur →
    generationOf cur = c.handle.generation &&& genMask ∧ stateOf cur = MsgState.queued.code

section

variable {s s' : State} {a : Label} {c c' : Cancel} {k life : Nat} {cur : UInt64} {f : Life → Life}

theorem ofNat_genMask (h : life < 2 ^ 48) : UInt64.ofNat life &&& genMask = UInt64.ofNat life := by
  apply UInt64.toNat_inj.mp
  rw [UInt64.toNat_and, show genMask.toNat = 2 ^ 48 - 1 from rfl, Nat.and_two_pow_sub_one_eq_mod, UInt64.toNat_ofNat']
  omega

theorem ofNat_inj {life' : Nat} (h : life < 2 ^ 48) (h' : life' < 2 ^ 48)
    (heq : UInt64.ofNat life = UInt64.ofNat life') : life = life' := by
  have hnat := congrArg UInt64.toNat heq
  rw [toNat_ofNat', toNat_ofNat'] at hnat
  omega

theorem lives_record (s : State) (f : Life → Life) : (s.record f).lives s.life = f (s.lives s.life) :=
    Function.update_self ..

theorem lives_record_ne (s : State) (f : Life → Life) (h : life ≠ s.life) : (s.record f).lives life = s.lives life :=
  Function.update_of_ne h ..

theorem Inv.move (h : Inv s) (hcancels : s'.cancels = s.cancels) (hhandles : s'.handles = s.handles)
    (hlife : s'.life = s.life)
    (hlives : ∀ life, life ≠ s.life → s'.lives life = s.lives life)
    (hgeneration : generationOf s'.word = generationOf s.word)
    (hexclusive : s'.phase.exclusive = true → s.phase.exclusive = true) (hhere : s'.Here) : Inv s' := by
  have hcancelled : ∀ life, s'.cancelled life = s.cancelled life := fun life => by rw [cancelled, hcancels, cancelled]
  refine ⟨?_, hhere, fun life hlt => ?_, fun life hlt => ?_, ?_, ?_⟩
  · rw [hgeneration, hlife]
    exact h.generation
  · rw [hlife] at hlt
    rw [hlives life (Nat.ne_of_lt hlt), hcancelled]
    exact h.past life hlt
  · rw [hlife] at hlt
    rw [hlives life (Nat.ne_of_gt hlt), hcancelled]
    exact h.future life hlt
  · rw [hhandles, hlife]
    intro x hx
    obtain ⟨hgen, hle, hlt⟩ := h.handles x hx
    exact ⟨hgen, hle, fun hex => hlt (hexclusive hex)⟩
  · rw [hcancels, hhandles]
    exact h.calls

theorem cancelled_setCancel (c' : Cancel) (hk : s.cancels[k]? = some c) (hpc : c.pc ≠ .returned true)
    (hhandle : c'.handle = c.handle) (life : Nat) :
    (s.setCancel k c').cancelled life = s.cancelled life + if c.handle.life = life ∧
    c'.pc = .returned true then 1 else 0 := by
  obtain ⟨hlt, hget⟩ := List.getElem?_eq_some_iff.mp hk
  rw [cancelled, setCancel]
  dsimp only
  rw [countP_set hlt, hget, cancelled, hhandle]
  simp [hpc]

theorem Inv.of_cancels {cancels : List Cancel} (h : Inv s)
    (hcancelled : ∀ life, cancelled { s with cancels } life = s.cancelled life)
    (hcalls : ∀ c ∈ cancels, c.handle ∈ s.handles ∧ ∀ cur, c.pc = .exchange cur →
      generationOf cur = c.handle.generation &&& genMask ∧ stateOf cur = MsgState.queued.code) :
      Inv { s with cancels } := by
  refine ⟨h.generation, ?_, fun life hlt => ?_, fun life hlt => ?_, h.handles, hcalls⟩
  · have hhere := h.here
    unfold Here Open Claimed at hhere ⊢
    rw [hcancelled]
    exact hhere
  · rw [hcancelled]
    exact h.past life hlt
  · rw [hcancelled]
    exact h.future life hlt

theorem Inv.check (h : Inv s) (hk : s.cancels[k]? = some c) (hpc : c.pc ≠ .returned true) :
    Inv (s.setCancel k { c with pc := cancelCheck c.handle s.word }) := by
  have hmem := mem_of_getElem? hk
  have hnot : cancelCheck c.handle s.word ≠ .returned true := by
    unfold cancelCheck
    split
    · simp
    · split <;> simp
  have hcancelled : ∀ life, (s.setCancel k { c with pc := cancelCheck c.handle s.word }).cancelled life =
      s.cancelled life := by
    intro life
    rw [cancelled_setCancel { c with pc := cancelCheck c.handle s.word } hk hpc rfl, if_neg fun hall => hnot hall.2,
      Nat.add_zero]
  refine h.of_cancels hcancelled fun x hx => ?_
  obtain hx | rfl := mem_or_eq_of_mem_set hx
  · exact h.calls x hx
  · refine ⟨(h.calls c hmem).1, fun cur hcur => ?_⟩
    change cancelCheck c.handle s.word = .exchange cur at hcur
    unfold cancelCheck at hcur
    split at hcur
    · cases hcur
    · next hgen =>
      split at hcur
      · cases hcur
      · next hqueued =>
        cases hcur
        exact ⟨Classical.not_not.mp hgen, Classical.not_not.mp hqueued⟩

theorem Inv.wins (h : Inv s) (hlife : s.life < 2 ^ 48) (hk : s.cancels[k]? = some c) (hpc : c.pc = .exchange cur)
    (hcur : s.word = cur) :
    c.handle.life = s.life ∧ stateOf s.word = MsgState.queued.code ∧ s.cancelled s.life = 0 ∧ s.lives s.life = {} ∧
      (s.phase = .queued ∨ ∃ cur', s.phase = .claiming cur' ∧ stateOf cur' = MsgState.queued.code) := by
  obtain ⟨hhandle, hexchange⟩ := h.calls c (mem_of_getElem? hk)
  obtain ⟨hgen, hqueued⟩ := hexchange cur hpc
  obtain ⟨hcaptured, hle, hexclusive⟩ := h.handles c.handle hhandle
  have hsame : c.handle.life = s.life := by
    rw [← hcur, h.generation, hcaptured, ofNat_genMask (by omega)] at hgen
    exact (ofNat_inj hlife (by omega) hgen).symm
  rw [← hcur] at hqueued
  have hhere := h.here
  unfold Here Open Claimed at hhere
  rw [hqueued] at hhere
  refine ⟨hsame, hqueued, ?_⟩
  cases hphase : s.phase with
  | queued =>
    rw [hphase] at hhere
    obtain ⟨hopen | hopen, hfresh⟩ := hhere
    · exact ⟨hopen.2, hfresh, .inl rfl⟩
    · exact absurd hopen.1 (by decide)
  | claiming cur' =>
    rw [hphase] at hhere
    obtain ⟨hopen | hopen, hfresh, hcur'⟩ := hhere
    · exact ⟨hopen.2, hfresh, .inr ⟨cur', rfl, hcur'⟩⟩
    · exact absurd hopen.1 (by decide)
  | free | setup | flagging _ =>
    have hlt := hexclusive (by rw [hphase]; rfl)
    omega
  | claimed _ | running | skipping =>
    rw [hphase] at hhere
    exact absurd hhere.1 (by decide)
  | completing _ =>
    rw [hphase] at hhere
    exact absurd hhere.2.1 (by decide)
  | reclaiming =>
    rw [hphase] at hhere
    exact absurd rfl hhere.1
  | releasing _ =>
    rw [hphase] at hhere
    exact absurd rfl hhere.2.1

theorem stepCancel_life {spurious : Bool} (hstep : s.stepCancel k spurious c = some s') : s'.life = s.life := by
  unfold State.stepCancel at hstep
  split at hstep
  · obtain rfl := some.inj hstep
    rfl
  · split at hstep <;> obtain rfl := some.inj hstep <;> rfl
  · cases hstep

theorem Inv.call {handle : MessageHandle} (h : Inv s) (hhandle : handle ∈ s.handles) :
    Inv { s with cancels := s.cancels ++ [{ handle }] } := by
  have hcancelled : ∀ life, cancelled { s with cancels := s.cancels ++ [{ handle }] } life = s.cancelled life := by
    intro life
    rw [cancelled, countP_append, countP_singleton, cancelled]
    simp
  refine h.of_cancels hcancelled fun x hx => ?_
  obtain hx | hx := mem_append.mp hx
  · exact h.calls x hx
  · obtain rfl := mem_singleton.mp hx
    exact ⟨hhandle, nofun⟩

theorem Inv.stepCancel (h : Inv s) (hlife : s.life < 2 ^ 48) {spurious : Bool} (hk : s.cancels[k]? = some c)
    (hstep : s.stepCancel k spurious c = some s') : Inv s' := by
  unfold State.stepCancel at hstep
  cases hpc : c.pc with
  | load =>
    rw [hpc] at hstep
    obtain rfl := some.inj hstep
    exact h.check hk (by rw [hpc]; simp)
  | exchange cur =>
    rw [hpc] at hstep
    dsimp only at hstep
    split at hstep
    · next hwon =>
      obtain rfl := some.inj hstep
      obtain ⟨hsame, hqueued, hnone, hfresh, hphase⟩ := h.wins hlife hk hpc hwon.2
      have hcancelled := cancelled_setCancel { c with pc := .returned true } hk (by rw [hpc]; simp) rfl
      have hmem := mem_of_getElem? hk
      refine ⟨?_, ?_, fun life hlt => ?_, fun life hlt => ?_, h.handles, fun x hx => ?_⟩
      · rw [← hwon.2]
        exact generationOf_withState.trans h.generation
      · have hone : (s.setCancel k { c with pc := .returned true }).cancelled s.life = 1 := by
          rw [hcancelled, hnone, if_pos ⟨hsame, rfl⟩]
        have hopen : Open { s.setCancel k { c with pc := .returned true } with word := withState cur .cancelled } :=
          .inr ⟨stateOf_withState, hone⟩
        obtain hphase | ⟨cur', hphase, hcur'⟩ := hphase
        · unfold Here
          rw [show State.phase { s.setCancel k { c with pc := .returned true } with
            word := withState cur .cancelled } = .queued
            from hphase]
          exact ⟨hopen, hfresh⟩
        · unfold Here
          rw [show State.phase { s.setCancel k { c with pc := .returned true } with
            word := withState cur .cancelled } =
            .claiming cur' from hphase]
          exact ⟨hopen, hfresh, hcur'⟩
      · change (s.lives life).Settled ((s.setCancel k { c with pc := .returned true }).cancelled life)
        rw [hcancelled, if_neg fun hall => Nat.ne_of_lt hlt (hall.1.symm.trans hsame), Nat.add_zero]
        exact h.past life hlt
      · change s.lives life = {} ∧ (s.setCancel k { c with pc := .returned true }).cancelled life = 0
        rw [hcancelled, if_neg fun hall => Nat.ne_of_gt hlt (hall.1.symm.trans hsame), Nat.add_zero]
        exact h.future life hlt
      · obtain hx | rfl := mem_or_eq_of_mem_set hx
        · exact h.calls x hx
        · exact ⟨(h.calls c hmem).1, nofun⟩
    · obtain rfl := some.inj hstep
      exact h.check hk (by rw [hpc]; simp)
  | returned ok =>
    rw [hpc] at hstep
    cases hstep

theorem Inv.recorded (h : Inv s) {phase : Phase} (hexclusive : phase.exclusive = false)
    (hhere : Here { s.record f with phase }) : Inv { s.record f with phase } :=
  h.move rfl rfl rfl (fun life hne => lives_record_ne s f hne) rfl
    (fun hex => absurd hex (by rw [hexclusive]; decide)) hhere

theorem Inv.claimCheck (h : Inv s) (hopen : s.Open) (hfresh : s.lives s.life = {}) :
    Inv (s.claimCheck s.word) := by
  unfold State.claimCheck
  split
  · next hnot =>
    obtain hopen | hopen := hopen
    · exact absurd hopen.1 hnot
    · have hfail := lives_record s fun r => { r with claim := some false }
      rw [hfresh] at hfail
      exact h.recorded rfl ⟨hnot, .inr ⟨congrArg Life.claim hfail, hopen.2, congrArg Life.dispatched hfail,
        congrArg Life.retried hfail⟩⟩
  · next hqueued => exact h.move rfl rfl rfl (fun _ _ => rfl) rfl nofun ⟨hopen, hfresh, Classical.not_not.mp hqueued⟩

attribute [local simp] step

theorem Inv.step_acquire (h : Inv s) (hstep : s.step .acquire = some s') : Inv s' := by
  have hhere := h.here
  unfold Here at hhere
  rw [State.step] at hstep
  split at hstep
  · next hphase =>
    obtain rfl := some.inj hstep
    rw [hphase] at hhere
    exact h.move rfl rfl rfl (fun _ _ => rfl) rfl (fun _ => by rw [hphase]; rfl) hhere
  · cases hstep

theorem Inv.step_flagsLoad (h : Inv s) (hstep : s.step .flagsLoad = some s') : Inv s' := by
  have hhere := h.here
  unfold Here at hhere
  rw [State.step] at hstep
  split at hstep
  · next hphase =>
    obtain rfl := some.inj hstep
    rw [hphase] at hhere
    exact h.move rfl rfl rfl (fun _ _ => rfl) rfl (fun _ => by rw [hphase]; rfl) ⟨rfl, hhere⟩
  · cases hstep

theorem Inv.step_flagsStore {flags : UInt64} (h : Inv s) (hstep : s.step (.flagsStore flags) = some s') : Inv s' := by
  have hhere := h.here
  unfold Here at hhere
  rw [State.step] at hstep
  split at hstep
  · next cur hphase =>
    obtain rfl := some.inj hstep
    rw [hphase] at hhere
    obtain ⟨rfl, hqueued, hnone, hfresh⟩ := hhere
    exact h.move rfl rfl rfl (fun _ _ => rfl) generationOf_withFlags (fun _ => by rw [hphase]; rfl)
      ⟨stateOf_withFlags.trans hqueued, hnone, hfresh⟩
  · cases hstep

theorem Inv.step_post (h : Inv s) (hstep : s.step .post = some s') : Inv s' := by
  have hhere := h.here
  unfold Here at hhere
  rw [State.step] at hstep
  split at hstep
  · next hphase =>
    obtain rfl := some.inj hstep
    rw [hphase] at hhere
    exact h.move rfl rfl rfl (fun _ _ => rfl) rfl nofun ⟨.inl ⟨hhere.1, hhere.2.1⟩, hhere.2.2⟩
  · cases hstep

theorem Inv.step_claimLoad (h : Inv s) (hstep : s.step .claimLoad = some s') : Inv s' := by
  have hhere := h.here
  unfold Here at hhere
  rw [State.step] at hstep
  split at hstep
  · next hphase =>
    obtain rfl := some.inj hstep
    rw [hphase] at hhere
    exact h.claimCheck hhere.1 hhere.2
  · cases hstep

theorem Inv.step_claimExchange {spurious : Bool} (h : Inv s)
    (hstep : s.step (.claimExchange spurious) = some s') : Inv s' := by
  have hhere := h.here
  unfold Here at hhere
  rw [State.step] at hstep
  split at hstep
  · next cur hphase =>
    rw [hphase] at hhere
    obtain ⟨hopen, hfresh, hcur⟩ := hhere
    split at hstep
    · next hwon =>
      obtain rfl := some.inj hstep
      obtain ⟨-, rfl⟩ := hwon
      have hnone : s.cancelled s.life = 0 := by
        obtain hopen | hopen := hopen
        · exact hopen.2
        · rw [hopen.1] at hcur
          exact absurd hcur (by decide)
      have hrecord := lives_record s fun r => { r with claim := some true }
      rw [hfresh] at hrecord
      refine h.move rfl rfl rfl (fun life hne => lives_record_ne s (fun r => { r with claim := some true }) hne)
        generationOf_withState nofun
        ⟨stateOf_withState, hnone, congrArg Life.claim hrecord, congrArg Life.skipped hrecord,
        congrArg Life.dispatched hrecord, congrArg Life.retried hrecord⟩
    · obtain rfl := some.inj hstep
      exact h.claimCheck hopen hfresh
  · cases hstep

theorem Inv.step_dispatch {stopped : Bool} (h : Inv s) (hstep : s.step (.dispatch stopped) = some s') : Inv s' := by
  have hhere := h.here
  unfold Here at hhere
  rw [State.step] at hstep
  split at hstep
  · next flags hphase =>
    rw [hphase] at hhere
    obtain ⟨hrunning, hnone, hclaim, hskipped, hdispatched, hretried⟩ := hhere
    have hskip := lives_record s fun r => { r with skipped := true }
    split at hstep
    · obtain rfl := some.inj hstep
      refine h.recorded rfl ⟨?_, .inl ⟨?_, hnone, .inl ⟨?_, ?_, ?_⟩⟩⟩
      · rw [show stateOf (s.record fun r => { r with skipped := true }).word = _ from hrunning]
        decide
      · exact (congrArg Life.claim hskip).trans hclaim
      · exact congrArg Life.skipped hskip
      · exact (congrArg Life.dispatched hskip).trans hdispatched
      · exact (congrArg Life.retried hskip).trans hretried
    · split at hstep
      · obtain rfl := some.inj hstep
        exact h.recorded rfl ⟨hrunning, hnone, (congrArg Life.claim hskip).trans hclaim, congrArg Life.skipped hskip,
          (congrArg Life.dispatched hskip).trans hdispatched, (congrArg Life.retried hskip).trans hretried⟩
      · obtain rfl := some.inj hstep
        have hrun := lives_record s fun r => { r with dispatched := r.dispatched + 1 }
        exact h.recorded rfl ⟨hrunning, hnone, (congrArg Life.claim hrun).trans hclaim,
          (congrArg Life.skipped hrun).trans hskipped,
          (congrArg Life.dispatched hrun).trans (congrArg (· + 1) hdispatched)⟩
  · cases hstep

theorem Inv.step_retry (h : Inv s) (hstep : s.step .retry = some s') : Inv s' := by
  have hhere := h.here
  unfold Here at hhere
  rw [State.step] at hstep
  split at hstep
  · next hphase =>
    obtain rfl := some.inj hstep
    rw [hphase] at hhere
    obtain ⟨hrunning, hnone, hclaim, hskipped, hdispatched⟩ := hhere
    have hrun := lives_record s fun r => { r with retried := r.retried + 1 }
    have hhere' : Here (s.record fun r => { r with retried := r.retried + 1 }) := by
      unfold Here
      rw [show (s.record fun r => { r with retried := r.retried + 1 }).phase = .running from hphase]
      exact ⟨hrunning, hnone, (congrArg Life.claim hrun).trans hclaim, (congrArg Life.skipped hrun).trans hskipped,
        (congrArg Life.dispatched hrun).trans hdispatched⟩
    exact h.move rfl rfl rfl (fun life hne => lives_record_ne s _ hne) rfl (fun hex => hex) hhere'
  · cases hstep

theorem Inv.step_completeLoad (h : Inv s) (hstep : s.step .completeLoad = some s') : Inv s' := by
  have hhere := h.here
  unfold Here at hhere
  rw [State.step] at hstep
  split at hstep
  · next hphase =>
    obtain rfl := some.inj hstep
    rw [hphase] at hhere
    obtain ⟨hrunning, hnone, hclaim, hran⟩ := hhere
    exact h.move rfl rfl rfl (fun _ _ => rfl) rfl nofun ⟨rfl, hrunning, .inl ⟨hclaim, hnone, .inr hran⟩⟩
  · next hphase =>
    obtain rfl := some.inj hstep
    rw [hphase] at hhere
    obtain ⟨hrunning, hnone, hclaim, hskipped⟩ := hhere
    exact h.move rfl rfl rfl (fun _ _ => rfl) rfl nofun ⟨rfl, hrunning, .inl ⟨hclaim, hnone, .inl hskipped⟩⟩
  · cases hstep

theorem Inv.step_completeStore (h : Inv s) (hstep : s.step .completeStore = some s') : Inv s' := by
  have hhere := h.here
  unfold Here at hhere
  rw [State.step] at hstep
  split at hstep
  · next cur hphase =>
    obtain rfl := some.inj hstep
    rw [hphase] at hhere
    obtain ⟨rfl, hrunning, hsettled⟩ := hhere
    refine h.move rfl rfl rfl (fun _ _ => rfl) generationOf_withState nofun ⟨?_, hsettled⟩
    rw [show stateOf (withState s.word .completed) = _ from stateOf_withState]
    decide
  · cases hstep

theorem Inv.step_releaseLoad (h : Inv s) (hstep : s.step .releaseLoad = some s') : Inv s' := by
  have hhere := h.here
  unfold Here at hhere
  rw [State.step] at hstep
  split at hstep
  · next hphase =>
    obtain rfl := some.inj hstep
    rw [hphase] at hhere
    exact h.move rfl rfl rfl (fun _ _ => rfl) rfl nofun ⟨rfl, hhere⟩
  · cases hstep

theorem Inv.step_releaseStore (h : Inv s) (hlife : s'.life < 2 ^ 48)
    (hstep : s.step .releaseStore = some s') : Inv s' := by
  have hhere := h.here
  unfold Here at hhere
  rw [State.step] at hstep
  split at hstep
  · next cur hphase =>
    obtain rfl := some.inj hstep
    rw [hphase] at hhere
    obtain ⟨rfl, -, hsettled⟩ := hhere
    obtain ⟨hfresh, hnone⟩ := h.future (s.life + 1) (Nat.lt_succ_self _)
    refine ⟨?_, ⟨stateOf_pack, hnone, hfresh⟩, fun life hlt => ?_, fun life hlt => ?_, fun x hx => ?_, h.calls⟩
    · change generationOf (pack ((generationOf s.word + 1) &&& genMask) .queued 0) = UInt64.ofNat (s.life + 1)
      rw [generationOf_pack, h.generation, show UInt64.ofNat s.life + 1 = UInt64.ofNat (s.life + 1)
        from (ofNat_add _ 1).symm, ofNat_genMask hlife, ofNat_genMask hlife]
    · obtain hlt | rfl := Nat.lt_succ_iff_lt_or_eq.mp hlt
      · exact h.past life hlt
      · exact hsettled
    · exact h.future life (Nat.lt_of_succ_lt hlt)
    · obtain ⟨hgen, hle, -⟩ := h.handles x hx
      exact ⟨hgen, Nat.le_succ_of_le hle, fun _ => Nat.lt_succ_of_le hle⟩
  · cases hstep

theorem Inv.step_capture (h : Inv s) (hstep : s.step .capture = some s') : Inv s' := by
  rw [State.step] at hstep
  split at hstep
  · cases hstep
  · next hexclusive =>
    obtain rfl := some.inj hstep
    refine ⟨h.generation, h.here, h.past, h.future,
      fun x hx => ?_, fun x hx => ⟨mem_append_left _ (h.calls x hx).1, (h.calls x hx).2⟩⟩
    obtain hx | hx := mem_append.mp hx
    · exact h.handles x hx
    · obtain rfl := mem_singleton.mp hx
      exact ⟨h.generation, Nat.le_refl _, fun hex => absurd hex hexclusive⟩

theorem Inv.step_cancel {i : Nat} (h : Inv s) (hstep : s.step (.cancel i) = some s') : Inv s' := by
  rw [State.step] at hstep
  split at hstep
  · next handle hhandle =>
    obtain rfl := some.inj hstep
    exact h.call (mem_of_getElem? hhandle)
  · cases hstep

theorem Inv.step_cancelStep {spurious : Bool} (h : Inv s) (hlife : s'.life < 2 ^ 48)
    (hstep : s.step (.cancelStep k spurious) = some s') : Inv s' := by
  rw [State.step] at hstep
  split at hstep
  · next c hk =>
    rw [stepCancel_life hstep] at hlife
    exact h.stepCancel hlife hk hstep
  · cases hstep

theorem Inv.step (h : Inv s) (hlife : s'.life < 2 ^ 48) (hstep : s.step a = some s') : Inv s' := by
  cases a with
  | acquire => exact h.step_acquire hstep
  | flagsLoad => exact h.step_flagsLoad hstep
  | flagsStore flags => exact h.step_flagsStore hstep
  | post => exact h.step_post hstep
  | claimLoad => exact h.step_claimLoad hstep
  | claimExchange spurious => exact h.step_claimExchange hstep
  | dispatch stopped => exact h.step_dispatch hstep
  | retry => exact h.step_retry hstep
  | completeLoad => exact h.step_completeLoad hstep
  | completeStore => exact h.step_completeStore hstep
  | releaseLoad => exact h.step_releaseLoad hstep
  | releaseStore => exact h.step_releaseStore hlife hstep
  | capture => exact h.step_capture hstep
  | cancel i => exact h.step_cancel hstep
  | cancelStep k spurious => exact h.step_cancelStep hlife hstep

theorem Inv.foreign (h : Inv s) (hlife : s.life < 2 ^ 48) {spurious : Bool} (hk : s.cancels[k]? = some c)
    (hforeign : c.handle.life ≠ s.life) (hstep : s.stepCancel k spurious c = some s') : s'.word = s.word := by
  unfold State.stepCancel at hstep
  cases hpc : c.pc with
  | load =>
    rw [hpc] at hstep
    obtain rfl := some.inj hstep
    rfl
  | exchange cur =>
    rw [hpc] at hstep
    dsimp only at hstep
    split at hstep
    · next hwon => exact absurd (h.wins hlife hk hpc hwon.2).1 hforeign
    · obtain rfl := some.inj hstep
      rfl
  | returned ok =>
    rw [hpc] at hstep
    cases hstep

theorem Open.le (h : s.Open) : s.cancelled s.life ≤ 1 := by
  obtain h | h := h
  · omega
  · omega

theorem Inv.exclusive (h : Inv s) : (s.lives s.life).Exclusive (s.cancelled s.life) := by
  have hhere := h.here
  unfold Here at hhere
  cases hphase : s.phase with
  | free | setup =>
    rw [hphase] at hhere
    rw [hhere.2.2, hhere.2.1]
    exact Life.exclusive_fresh (Nat.zero_le 1)
  | flagging cur =>
    rw [hphase] at hhere
    rw [hhere.2.2.2, hhere.2.2.1]
    exact Life.exclusive_fresh (Nat.zero_le 1)
  | queued =>
    rw [hphase] at hhere
    rw [hhere.2]
    exact Life.exclusive_fresh hhere.1.le
  | claiming cur =>
    rw [hphase] at hhere
    rw [hhere.2.1]
    exact Life.exclusive_fresh hhere.1.le
  | claimed flags =>
    rw [hphase] at hhere
    obtain ⟨-, hnone, hclaim, -, hran, -⟩ := hhere
    rw [hnone]
    exact Life.exclusive_claimed hclaim (by omega)
  | running =>
    rw [hphase] at hhere
    obtain ⟨-, hnone, hclaim, -, hran⟩ := hhere
    rw [hnone]
    exact Life.exclusive_claimed hclaim (by omega)
  | skipping =>
    rw [hphase] at hhere
    obtain ⟨-, hnone, hclaim, -, hran, -⟩ := hhere
    rw [hnone]
    exact Life.exclusive_claimed hclaim (by omega)
  | completing cur =>
    rw [hphase] at hhere
    exact hhere.2.2.exclusive
  | reclaiming =>
    rw [hphase] at hhere
    exact hhere.2.exclusive
  | releasing cur =>
    rw [hphase] at hhere
    exact hhere.2.2.exclusive

theorem step_life (hstep : s.step a = some s') : s.life ≤ s'.life := by
  cases a <;> grind [State.step, claimCheck, record, stepCancel_life]

theorem Inv.start : Inv {} := by
  refine ⟨by decide, ⟨by decide, rfl, rfl⟩, fun life hlt => absurd hlt (Nat.not_lt_zero _), fun _ _ => ⟨rfl, rfl⟩,
    nofun, nofun⟩

/-- Of fewer than 2^48 lives, every one that is over was either claimed, dispatched once unless it was
skipped, and never cancelled, or cancelled once and never dispatched. In the life that runs the two exclude
each other as well. A handle of another life does not change the word. -/
theorem one_outcome (h : Machine.Reachable step {} s) (hlives : s.life < 2 ^ 48) :
    (∀ life, life < s.life → (s.lives life).Settled (s.cancelled life)) ∧
    (s.lives s.life).Exclusive (s.cancelled s.life) ∧
    ∀ k c spurious s', s.cancels[k]? = some c → c.handle.life ≠ s.life → s.step (.cancelStep k spurious) = some s' →
      s'.word = s.word := by
  have hinv : Inv s := by
    refine h.invariant (I := fun s => s.life < 2 ^ 48 →
      Inv s) (fun _ => .start) (fun s a s' hs hstep hlt => ?_) hlives
    exact (hs (Nat.lt_of_le_of_lt (step_life hstep) hlt)).step hlt hstep
  refine ⟨hinv.past, hinv.exclusive, fun k c spurious s' hk hforeign hstep => ?_⟩
  rw [State.step, hk] at hstep
  exact hinv.foreign hlives hk hforeign hstep

end

section

/-- A message that is claimed and run while a cancel of it is under way; the next one in the cell is
cancelled, also through the handle of the first. -/
def twoLives : List Label :=
  [.acquire, .post, .capture, .cancel 0, .claimLoad, .cancelStep 0 false, .claimExchange false, .cancelStep 0 false,
    .dispatch false,
    .completeLoad, .completeStore, .releaseLoad, .releaseStore, .acquire, .flagsLoad, .flagsStore 2, .post,
    .capture, .cancel 0,
    .cancel 1, .cancelStep 1 false, .cancelStep 2 false, .cancelStep 2 true, .cancelStep 2 false, .claimLoad,
    .releaseLoad, .releaseStore]

theorem one_outcome_two_lives : ∃ s : State, s.life = 2 ∧ s.cancels.map Cancel.pc = [.returned false, .returned false,
    .returned true] ∧ (s.lives 0).Settled (s.cancelled 0) ∧ (s.lives 1).Settled (s.cancelled 1) := by
  obtain ⟨s, hrun, hs⟩ := map_eq_some_iff.mp (show (Machine.run State.step {} twoLives).map
    (fun s => (s.life, s.cancels.map Cancel.pc)) = some (2,
    [.returned false, .returned false, .returned true]) by decide +kernel)
  obtain ⟨hlife, hcancels⟩ := Prod.mk.inj hs
  obtain ⟨hpast, -, -⟩ := one_outcome (Machine.reachable_of_run hrun) (by rw [hlife]; decide)
  exact ⟨s, hlife, hcancels, hpast 0 (by rw [hlife]; decide), hpast 1 (by rw [hlife]; decide)⟩

/-- A claim whose handler never runs, in a stopped activation, and one whose handler runs twice, after a fault
that supervision retries. -/
def stoppedThenRetried : List Label :=
  [.acquire, .post, .claimLoad, .claimExchange false, .dispatch true, .completeLoad, .completeStore,
    .releaseLoad, .releaseStore,
    .acquire, .post, .claimLoad, .claimExchange false, .dispatch false, .retry, .completeLoad, .completeStore,
    .releaseLoad, .releaseStore]

theorem handler_not_once : (Machine.run State.step {} stoppedThenRetried).map (fun s => (s.lives 0, s.lives 1)) =
    some ({ claim := some true, skipped := true }, { claim := some true, dispatched := 1, retried := 1 }) := by
  decide +kernel

end

end State

end Quark.Descriptor
