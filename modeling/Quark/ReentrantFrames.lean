import Quark.ReentrantLane

/-! The in-flight set of a reentrant activation without the threads: what the lane, the carriers and the admin calls
do to the frames, the gate and the restart episode. Every step of the activation is one of these. -/
namespace Quark.Reentrant

open Function List Vyukov

variable {M W P : Type}

/-- The gate, the frames, and what has become of the `dequeued` messages. -/
structure Frames where
  sealState : SealState := .opened
  live : List Nat := []
  suspended : List Nat := []
  ready : List Nat := []
  waiterFrame : Option Nat := none
  restarting : Bool := false
  stopped : Bool := false
  window : Window := {}
  awaiting : List Nat := []
  guards : List Nat := []
  completed : List Nat := []
  deadLettered : List Nat := []
  tombstones : List Nat := []
  reclaimed : List Nat := []
  episodes : Nat := 0
  reconstructions : Nat := 0
  abandoned : Nat := 0
  poisoned : List Nat := []
  dequeued : Nat := 0

def State.frames (s : State M W P) : Frames where
  sealState := s.sealState
  live := s.live
  suspended := s.suspended
  ready := s.ready
  waiterFrame := s.waiterFrame
  restarting := s.restarting
  stopped := s.stopped
  window := s.window
  awaiting := s.awaiting
  guards := s.guards
  completed := s.completed
  deadLettered := s.deadLettered
  tombstones := s.tombstones
  reclaimed := s.reclaimed
  episodes := s.episodes
  reconstructions := s.reconstructions
  abandoned := s.abandoned
  poisoned := s.poisoned
  dequeued := s.dequeued.length

namespace Frames

def fireCancelAll (c : Frames) : Frames := { c with ready := c.ready ++ c.suspended, suspended := [] }

def doStop (c : Frames) : Frames := { c with stopped := true, restarting := false }

def deadLetter (c : Frames) (f : Nat) : Frames :=
  { c with deadLettered := c.deadLettered ++ [f], reclaimed := c.reclaimed ++ [f] }

def faulted (c : Frames) (f : Nat) : Frames := { c.deadLetter f with live := c.live.erase f }

def hold (c : Frames) (f : Nat) : Frames := { c with guards := f :: c.guards }

def await (c : Frames) (f : Nat) : Frames := { c with waiterFrame := some f, awaiting := f :: c.awaiting }

/-- The steps that a condition is about. -/
inductive Event
  | quiesce | gate | fault | other
  deriving DecidableEq, Repr

inductive Step (cfg : Config) : Frames → Role → Event → Frames → Role → Prop
  | stay (c r e) : Step cfg c r e c r
  | completeOne (c r e) {f rest} (hsuspended : c.suspended = f :: rest) :
      Step cfg c r e { c with suspended := rest, ready := c.ready ++ [f] } r
  | pause (c r e) (hopened : c.sealState = .opened) : Step cfg c r e { c with sealState := .paused } r
  | resume (c r e) (hpaused : c.sealState = .paused) : Step cfg c r e { c with sealState := .opened } r
  | escalate (c e) (hdraining : c.sealState = .draining) :
      Step cfg c .plain e { c with sealState := .cancelling } .plain
  | fire (c e) : Step cfg c .plain e c.fireCancelAll .plain
  | pop (c e) {f rest} (hready : c.ready = f :: rest) (hnot : f ∉ c.awaiting) :
      Step cfg c .plain e { c with ready := rest } (.runs f)
  | popWaiter (c e) {f rest} (hready : c.ready = f :: rest) (hin : f ∈ c.awaiting) :
      Step cfg c .plain e ({ c with ready := rest, awaiting := c.awaiting.erase f }.hold f) (.runs f)
  | gate (c) (hopened : c.sealState = .opened) : Step cfg c .plain .gate c .gated
  | ungate (c e) : Step cfg c .gated e c .plain
  | dequeue (c e) : Step cfg c .gated e { c with dequeued := c.dequeued + 1 } (.claims c.dequeued)
  | tombstone (c e f) :
      Step cfg c (.claims f) e { c with tombstones := c.tombstones ++ [f], reclaimed := c.reclaimed ++ [f] } .plain
  | refuse (c e f) : Step cfg c (.claims f) e (c.deadLetter f) .plain
  | dispatch (c e f) : Step cfg c (.claims f) e { c with live := c.live ++ [f] } (.runs f)
  | drainHold (c f) (hone : c.live.length ≤ 1) :
      Step cfg c (.runs f) .quiesce ({ c with sealState := .draining }.hold f) (.runs f)
  | drainAwait (c f) (hmore : ¬ c.live.length ≤ 1) :
      Step cfg c (.runs f) .quiesce ({ c with sealState := .draining }.await f) .plain
  | cancel (c f) : Step cfg c (.runs f) .quiesce { c with sealState := .cancelling } (.fires f)
  | cancelHold (c e f) (hone : c.live.length ≤ 1) : Step cfg c (.fires f) e (c.fireCancelAll.hold f) (.runs f)
  | cancelAwait (c e f) (hmore : ¬ c.live.length ≤ 1) : Step cfg c (.fires f) e (c.fireCancelAll.await f) .plain
  | release (c e f) (hin : f ∈ c.guards) :
      Step cfg c (.runs f) e { c with sealState := .opened, guards := c.guards.erase f } (.runs f)
  | suspend (c e f) : Step cfg c (.runs f) e { c with suspended := c.suspended ++ [f] } .plain
  | finish (c e f) (hnot : f ∉ c.guards) :
      Step cfg c (.runs f) e
        { c with live := c.live.erase f, completed := c.completed ++ [f], reclaimed := c.reclaimed ++ [f] } .left
  | fault (c f) (hnot : f ∉ c.guards) : Step cfg c (.runs f) .fault (c.faulted f) .settles
  | faultStop (c f) (hnot : f ∉ c.guards)
      (hdecision : cfg.sup.decision = .stop ∨ cfg.sup.decision = .escalate) :
      Step cfg c (.runs f) .fault (c.faulted f).doStop .settles
  | faultRestart (c f now) (hnot : f ∉ c.guards) (hfresh : c.restarting = false)
      (hcharge : (c.window.charge cfg.sup now).2 = true) :
      Step cfg c (.runs f) .fault
        { c.faulted f with
          window := (c.window.charge cfg.sup now).1, restarting := true, episodes := c.episodes + 1
          poisoned := c.live.erase f } .restarts
  | faultExhausted (c f now) (hnot : f ∉ c.guards) (hfresh : c.restarting = false)
      (hcharge : (c.window.charge cfg.sup now).2 = false) :
      Step cfg c (.runs f) .fault ({ c.faulted f with window := (c.window.charge cfg.sup now).1 }.doStop) .settles
  | resumeWaiter (c e) {f} (hwaiter : c.waiterFrame = some f) (hsealed : c.sealState ≠ .opened)
      (hlive : c.live = [f]) : Step cfg c .left e { c with waiterFrame := none } (.pushes f)
  | noWaiter (c e) (hnot : ∀ f, c.waiterFrame = some f → c.sealState ≠ .opened → c.live ≠ [f]) :
      Step cfg c .left e c .settles
  | push (c e f) : Step cfg c (.pushes f) e { c with ready := c.ready ++ [f] } .settles
  | seal (c e) : Step cfg c .restarts e { c with sealState := .cancelling } .settles
  | restartFire (c e) : Step cfg c .settles e c.fireCancelAll .settles
  | settled (c e) (hnot : c.restarting = true → c.stopped = false ∧ c.live ≠ []) : Step cfg c .settles e c .plain
  | abandon (c e) (hrestarting : c.restarting = true) (hstopped : c.stopped = true) :
      Step cfg c .settles e { c with restarting := false, abandoned := c.abandoned + 1, poisoned := [] } .plain
  | reconstruct (c e) (wired : Bool) (hrestarting : c.restarting = true) (hstopped : c.stopped = false)
      (hlive : c.live = []) :
      Step cfg c .settles e
        { c with
          restarting := false, sealState := .opened, stopped := !wired, reconstructions := c.reconstructions + 1
          poisoned := [] } .plain

end Frames

section

variable [DecidableEq M] [DecidableEq W] [DecidableEq P]

def State.event (s : State M W P) : Label M W P → Frames.Event
  | .quiesce _ _ => .quiesce
  | .fault _ _ _ => .fault
  | .worker w _ =>
    match s.worker w with
    | .gate _ => .gate
    | _ => .other
  | _ => .other

end

section

variable {cfg : Config} {s s' : State M W P} {r r' : Role} {w : W} {p : P} {e : Frames.Event}

/-- What a step does to the lane and to the frames. -/
structure Follows (cfg : Config) (s : State M W P) (r : Role) (e : Frames.Event) (s' : State M W P) (r' : Role) :
    Prop where
  laned : Laned s'
  onLane : s'.OnLane r'
  frames : Frames.Step cfg s.frames r e s'.frames r'

theorem Follows.same (hl : Laned s) (hr : s.OnLane r) (hexec : s'.exec = s.exec) (hworker : s'.worker = s.worker)
    (hframes : Frames.Step cfg s.frames r e s'.frames r) : Follows cfg s r e s' r :=
  ⟨hl.same hexec hworker, hr.same hworker, hframes⟩

theorem Follows.rest (hl : Laned s) (hr : s.OnLane r) (hexec : s.exec ≠ .running) (hworker : s'.worker = s.worker)
    (hframes : s'.frames = s.frames) : Follows cfg s r e s' r := by
  refine ⟨hl.rest hexec hworker, hr.same hworker, ?_⟩
  rw [hframes]
  exact .stay _ _ _

theorem Follows.stepRelease (hl : Laned s) (hr : s.OnLane r) (hstep : stepRelease s w = some s') :
    ∃ r', Follows cfg s r e s' r' := by
  unfold Reentrant.stepRelease at hstep
  split at hstep
  · next l via f hw =>
    have ho : (s.worker w).demand = some .running := by rw [hw]; rfl
    split at hstep
    · next hin =>
      cases hstep
      refine ⟨r, .same hl hr rfl rfl ?_⟩
      rw [← hr.owner w ho, hw]
      exact .release _ _ _ hin
    · cases hstep
  · cases hstep

section

variable [DecidableEq M] [DecidableEq P]

theorem Follows.stepCaller (hl : Laned s) (hr : s.OnLane r) (hstep : stepCaller s p = some s') :
    Follows cfg s r e s' r := by
  rw [Reentrant.stepCaller.eq_def] at hstep
  cases hp : s.caller p with
  | idle =>
    rw [hp] at hstep
    cases hstep
  | linking m | raise | schedule =>
    rw [hp] at hstep
    cases hstep
    exact .same hl hr rfl rfl (.stay _ _ _)
  | notify pc =>
    rw [hp] at hstep
    cases hstep
    rcases s.exec.notifyEnqueuedFast_cases pc with ⟨hsame, _⟩ | ⟨hrest, _⟩
    · exact .same hl hr hsame rfl (.stay _ _ _)
    · refine .rest hl hr ?_ rfl rfl
      rcases hrest with hexec | hexec <;> simp [hexec]
  | readmitParked =>
    rw [hp] at hstep
    cases hstep
    unfold ExecState.readmitFromParked ExecState.cas
    by_cases hexec : s.exec = .parked
    · exact .rest hl hr (by simp [hexec]) rfl rfl
    · refine .same hl hr ?_ rfl (.stay _ _ _)
      simp [State.setCaller, hexec]

theorem Follows.stepCompleteOne (hl : Laned s) (hr : s.OnLane r) (hstep : stepCompleteOne s p = some s') :
    Follows cfg s r e s' r := by
  unfold Reentrant.stepCompleteOne at hstep
  split at hstep
  · split at hstep
    · cases hstep
      exact .same hl hr rfl rfl (.stay _ _ _)
    · next f rest hsuspended =>
      cases hstep
      exact .same hl hr rfl rfl (.completeOne _ _ _ hsuspended)
  · cases hstep

end

variable [DecidableEq W] {q : WorkerPc M}

theorem Follows.goto (hl : Laned s) (hr : s.OnLane r) (ho : (s.worker w).demand = some .running)
    (hexec : s'.exec = s.exec) (hworker : s'.worker = update s.worker w q)
    (hpc : q.demand = some .running) (hframes : Frames.Step cfg s.frames (s.worker w).role e s'.frames q.role) :
    Follows cfg s r e s' q.role := by
  rw [hr.owner w ho] at hframes
  exact ⟨hl.goto hexec hworker (by rw [hpc, ho]), .goto hl ho hworker hpc, hframes⟩

theorem Follows.moves {pc : WorkerPc M} (hl : Laned s) (hr : s.OnLane r) (hw : s.worker w = pc)
    (ho : pc.demand = some .running) (hexec : s'.exec = s.exec) (hworker : s'.worker = update s.worker w q)
    (hpc : q.demand = some .running) (hframes : Frames.Step cfg s.frames pc.role e s'.frames q.role) :
    ∃ r', Follows cfg s r e s' r' := by
  subst hw
  exact ⟨q.role, .goto hl hr ho hexec hworker hpc hframes⟩

theorem Follows.tests {pc : WorkerPc M} (hl : Laned s) (hr : s.OnLane r) (hw : s.worker w = pc)
    (ho : pc.demand = some .running) (hplain : pc.role = .plain) (hexec : s'.exec = s.exec)
    (hworker : s'.worker = update s.worker w q) (hpc : q.demand = some .running) (hrole : q.role = .plain)
    (hframes : s'.frames = s.frames) : ∃ r', Follows cfg s r e s' r' := by
  refine Follows.moves hl hr hw ho hexec hworker hpc ?_
  rw [hframes, hplain, hrole]
  exact .stay _ _ _

theorem Follows.release (hl : Laned s) (hr : s.OnLane r) (ho : (s.worker w).demand = some .running)
    (hplain : (s.worker w).role = .plain) (hworker : s'.worker = update s.worker w q)
    (hpc : q.demand = none) (hframes : s'.frames = s.frames) : Follows cfg s r e s' .plain := by
  refine ⟨hl.release ho hworker hpc, .release hl ho hworker hpc, ?_⟩
  rw [hframes, ← hr.owner w ho, hplain]
  exact .stay _ _ _

theorem Follows.outside (hl : Laned s) (hr : s.OnLane r) (ho : (s.worker w).demand = none)
    (hexec : s'.exec = s.exec) (hworker : s'.worker = update s.worker w q) (hpc : q.demand = none)
    (hframes : s'.frames = s.frames) : Follows cfg s r e s' r := by
  refine ⟨hl.goto hexec hworker (by rw [hpc, ho]), hr.outside ho hworker hpc, ?_⟩
  rw [hframes]
  exact .stay _ _ _

theorem Follows.reacquire {from' : ExecState} (hl : Laned s) (hr : s.OnLane r) (ho : (s.worker w).demand = none)
    (hfrom : from' ≠ .running) (hpc : q.demand = some .running) (hplain : q.role = .plain) :
    Follows cfg s r e ({ s with exec := (s.exec.cas from' .running).1 }.setWorker w
      (if (s.exec.cas from' .running).2 then q else .away)) r := by
  unfold ExecState.cas
  by_cases hexec : s.exec = from'
  · simp only [if_pos hexec, if_true]
    rw [← hexec] at hfrom
    have hworker : ({ s with exec := .running }.setWorker w q).worker = update s.worker w q := rfl
    obtain ⟨hr', honLane⟩ := hr.enter hl hfrom hworker hpc
    rw [hplain, ← hr'] at honLane
    exact ⟨hl.enter hfrom rfl rfl hpc, honLane, .stay _ _ _⟩
  · simp only [if_neg hexec, Bool.false_eq_true, if_false]
    exact Follows.outside hl hr ho rfl rfl rfl rfl

section

variable {l : Local} {via : Via} {f : Nat} {ok : Bool}

theorem Follows.quiesced {s₀ : State M W P} (hl : Laned s) (hr : s.OnLane r)
    (ho : (s.worker w).demand = some .running)
    (hexec : s₀.exec = s.exec) (hworker : s₀.worker = s.worker)
    (hhold : s₀.live.length ≤ 1 → Frames.Step cfg s.frames (s.worker w).role e (s₀.frames.hold f) (.runs f))
    (hawait : ¬ s₀.live.length ≤ 1 → Frames.Step cfg s.frames (s.worker w).role e (s₀.frames.await f) .plain) :
    ∃ r', Follows cfg s r e (quiesced s₀ w l via f) r' := by
  unfold Reentrant.quiesced
  split
  · next hone =>
    exact ⟨_, .goto (q := .handler l via f) hl hr ho hexec (by rw [← hworker]; rfl) rfl (hhold hone)⟩
  · next hmore =>
    refine ⟨_, .goto (q := via.next l) hl hr ho hexec (by rw [← hworker]; rfl) (via.next_demand l) ?_⟩
    rw [via.next_role]
    exact hawait hmore

theorem Follows.gate (hl : Laned s) (hr : s.OnLane r) (hw : s.worker w = .gate l) :
    ∃ r', Follows cfg s r .gate (s.setWorker w (if s.sealState = .opened ∧ s.live.length < cfg.cap then
      if l.remaining = 0 then .yield else .dequeue l else .pendingReady l)) r' := by
  split
  · next hgate =>
    split
    · exact Follows.moves (q := .yield) hl hr hw rfl rfl rfl rfl (.stay _ _ _)
    · exact Follows.moves (q := .dequeue l) hl hr hw rfl rfl rfl rfl (.gate _ hgate.1)
  · exact Follows.moves (q := .pendingReady l) hl hr hw rfl rfl rfl rfl (.stay _ _ _)

theorem Follows.escalate (hl : Laned s) (hr : s.OnLane r) (hw : s.worker w = .escalate l) :
    ∃ r', Follows cfg s r e (if s.sealState = .draining then
      { s with sealState := .cancelling }.setWorker w (.escalateFire l) else s.setWorker w (.drainReady l)) r' := by
  split
  · next hdraining =>
    exact Follows.moves (q := .escalateFire l) hl hr hw rfl rfl rfl rfl (.escalate _ _ hdraining)
  · exact Follows.moves (q := .drainReady l) hl hr hw rfl rfl rfl rfl (.stay _ _ _)

theorem Follows.quiesceFire (hl : Laned s) (hr : s.OnLane r) (hw : s.worker w = .quiesceFire l via f) :
    ∃ r', Follows cfg s r e (Reentrant.quiesced s.fireCancelAll w l via f) r' := by
  have ho : (s.worker w).demand = some .running := by rw [hw]; rfl
  refine Follows.quiesced hl hr ho rfl rfl (fun hone => ?_) (fun hmore => ?_)
  · rw [hw]
    exact .cancelHold _ _ _ hone
  · rw [hw]
    exact .cancelAwait _ _ _ hmore

theorem Follows.drainReady (hl : Laned s) (hr : s.OnLane r) (hw : s.worker w = .drainReady l) :
    ∃ r', Follows cfg s r e (stepDrainReady s w l) r' := by
  have ho : (s.worker w).demand = some .running := by rw [hw]; rfl
  unfold stepDrainReady
  split
  · exact Follows.moves (q := .gate l) hl hr hw rfl rfl rfl rfl (.stay _ _ _)
  · next f rest hready =>
    refine ⟨_, .goto (q := .handler l .drainReady f) hl hr ho ?_ ?_ rfl ?_⟩
    · split <;> rfl
    · split <;> rfl
    · rw [hw]
      split
      · next hin => exact .popWaiter _ _ hready hin
      · next hnot => exact .pop _ _ hready hnot

theorem Follows.maybeResumeWaiter (hl : Laned s) (hr : s.OnLane r) (hw : s.worker w = .completed l via) :
    ∃ r', Follows cfg s r e (maybeResumeWaiter s w l via) r' := by
  have ho : (s.worker w).demand = some .running := by rw [hw]; rfl
  unfold Reentrant.maybeResumeWaiter
  split
  · next hnone =>
    refine Follows.moves (q := .finishRestart l via) hl hr hw rfl rfl rfl rfl (.noWaiter _ _ fun f hf => ?_)
    rw [show s.waiterFrame = some f from hf] at hnone
    cases hnone
  · next f hsome =>
    split
    · next hlast =>
      exact Follows.moves (q := .pushWaiter l via f) hl hr hw rfl rfl rfl rfl
        (.resumeWaiter _ _ hsome hlast.1 hlast.2)
    · next hnot =>
      refine ⟨_, .goto (q := .finishRestart l via) hl hr ho rfl rfl rfl ?_⟩
      rw [hw]
      refine .noWaiter _ _ fun f' hf' hsealed hlive => hnot ?_
      rw [show s.waiterFrame = some f' from hf'] at hsome
      cases hsome
      exact ⟨hsealed, hlive⟩

theorem Follows.finishRestart (hl : Laned s) (hr : s.OnLane r) (hw : s.worker w = .finishRestart l via) :
    ∃ r', Follows cfg s r e ((finishRestartIfDrained s ok).setWorker w (via.next l)) r' := by
  have ho : (s.worker w).demand = some .running := by rw [hw]; rfl
  have hworker : (finishRestartIfDrained s ok).worker = s.worker := by
    unfold finishRestartIfDrained
    repeat' split
    all_goals rfl
  have hexec : (finishRestartIfDrained s ok).exec = s.exec := by
    unfold finishRestartIfDrained
    repeat' split
    all_goals rfl
  refine ⟨_, .goto (q := via.next l) hl hr ho hexec (by rw [← hworker]; rfl) (via.next_demand l) ?_⟩
  rw [hw, via.next_role]
  change Frames.Step cfg s.frames .settles e (finishRestartIfDrained s ok).frames .plain
  unfold finishRestartIfDrained
  split
  · next hrestarting =>
    split
    · next hstopped => exact .abandon _ _ hrestarting hstopped
    · next hstopped =>
      have hfalse : s.stopped = false := by simpa using hstopped
      split
      · next hlive =>
        have hstep : Frames.Step cfg _ _ _ _ _ := .reconstruct s.frames e ok hrestarting hfalse hlive
        simp only [hfalse, Bool.false_or]
        exact hstep
      · next hlive => exact .settled _ _ fun _ => ⟨hfalse, hlive⟩
  · next hnot => exact .settled _ _ fun hrestarting => absurd hrestarting hnot

theorem Follows.doRestart {s₀ : State M W P} {now : Int} (hl : Laned s) (hr : s.OnLane r)
    (hw : s.worker w = .handler l via f) (hnot : f ∉ s.guards) (hexec : s₀.exec = s.exec)
    (hworker : s₀.worker = s.worker) (hframes : s₀.frames = s.frames.faulted f) :
    ∃ r', Follows cfg s r .fault (doRestartReentrant cfg s₀ w l via now) r' := by
  have ho : (s.worker w).demand = some .running := by rw [hw]; rfl
  have hrestarting : s₀.restarting = s.restarting := congrArg Frames.restarting hframes
  have hwindow : s₀.window = s.window := congrArg Frames.window hframes
  have hlive : s₀.live = s.live.erase f := congrArg Frames.live hframes
  have hepisodes : s₀.episodes = s.episodes := congrArg Frames.episodes hframes
  unfold doRestartReentrant
  split
  · refine ⟨_, .goto (q := .finishRestart l via) hl hr ho hexec (by rw [← hworker]; rfl) rfl ?_⟩
    rw [hw, show (s₀.setWorker w _).frames = _ from hframes]
    exact .fault _ _ hnot
  · next hfresh =>
    rw [hrestarting] at hfresh
    have hfalse : s.restarting = false := by simpa using hfresh
    split
    · next win hcharge =>
      rw [hwindow] at hcharge
      have hstep : Frames.Step cfg _ _ _ _ _ := .faultRestart s.frames f now hnot hfalse
        (by rw [show s.frames.window = s.window from rfl, hcharge])
      refine ⟨_, .goto (q := .restartSeal l via) hl hr ho hexec (by rw [← hworker]; rfl) rfl ?_⟩
      rw [hw]
      rw [show s.frames.window = s.window from rfl, hcharge, ← hframes] at hstep
      rw [show s.frames.episodes = s₀.episodes from hepisodes.symm,
        show s.frames.live.erase f = s₀.live from hlive.symm] at hstep
      exact hstep
    · next win hcharge =>
      rw [hwindow] at hcharge
      have hstep : Frames.Step cfg _ _ _ _ _ := .faultExhausted s.frames f now hnot hfalse
        (by rw [show s.frames.window = s.window from rfl, hcharge])
      refine ⟨_, .goto (q := .finishRestart l via) hl hr ho hexec (by rw [← hworker]; rfl) rfl ?_⟩
      rw [hw]
      rw [show s.frames.window = s.window from rfl, hcharge, ← hframes] at hstep
      exact hstep

theorem Follows.onFault {src : FailureSource} {now : Int} (hl : Laned s) (hr : s.OnLane r)
    (hw : s.worker w = .handler l via f) (hnot : f ∉ s.guards) :
    ∃ r', Follows cfg s r .fault (onFaultReentrant cfg s w l via f src now) r' := by
  unfold onFaultReentrant
  split
  · exact Follows.moves (q := .finishRestart l via) hl hr hw rfl rfl rfl rfl (.fault _ _ hnot)
  · split
    · exact Follows.moves (q := .finishRestart l via) hl hr hw rfl rfl rfl rfl (.fault _ _ hnot)
    · exact Follows.doRestart hl hr hw hnot rfl rfl rfl
    · next hdecision =>
      exact Follows.moves (q := .finishRestart l via) hl hr hw rfl rfl rfl rfl
        (.faultStop _ _ hnot (Or.inl hdecision))
    · next hdecision =>
      exact Follows.moves (q := .finishRestart l via) hl hr hw rfl rfl rfl rfl
        (.faultStop _ _ hnot (Or.inr hdecision))

theorem Follows.stepAdmit (hl : Laned s) (hr : s.OnLane r) (hw : s.worker w = .claim l f) :
    ∃ r', Follows cfg s r e (stepAdmit s w l f ok) r' := by
  unfold Reentrant.stepAdmit
  split
  · exact Follows.moves (q := .actions l) hl hr hw rfl rfl rfl rfl (.tombstone _ _ _)
  · split
    · exact Follows.moves (q := .actions l) hl hr hw rfl rfl rfl rfl (.refuse _ _ _)
    · exact Follows.moves (q := .handler l .admission f) hl hr hw rfl rfl rfl rfl (.dispatch _ _ _)

theorem Follows.stepQuiesce {mode : QuiesceMode} (hl : Laned s) (hr : s.OnLane r)
    (hstep : stepQuiesce s w mode = some s') : ∃ r', Follows cfg s r .quiesce s' r' := by
  unfold Reentrant.stepQuiesce at hstep
  split at hstep
  · next l via f hw =>
    have ho : (s.worker w).demand = some .running := by rw [hw]; rfl
    cases mode with
    | drain =>
      cases hstep
      refine Follows.quiesced hl hr ho rfl rfl (fun hone => ?_) (fun hmore => ?_)
      · rw [hw]
        exact .drainHold _ _ hone
      · rw [hw]
        exact .drainAwait _ _ hmore
    | cancel =>
      cases hstep
      exact Follows.moves (q := .quiesceFire l via f) hl hr hw rfl rfl rfl rfl (.cancel _ _)
  · cases hstep

theorem Follows.stepSuspend (hl : Laned s) (hr : s.OnLane r) (hstep : stepSuspend s w = some s') :
    ∃ r', Follows cfg s r e s' r' := by
  unfold Reentrant.stepSuspend at hstep
  split at hstep
  · next l via f hw =>
    cases hstep
    refine ⟨_, .goto (q := via.next l) hl hr (by rw [hw]; rfl) rfl rfl (via.next_demand l) ?_⟩
    rw [hw, via.next_role]
    exact .suspend _ _ _
  · cases hstep

theorem Follows.stepFinish (hl : Laned s) (hr : s.OnLane r) (hstep : stepFinish s w = some s') :
    ∃ r', Follows cfg s r e s' r' := by
  unfold Reentrant.stepFinish at hstep
  split at hstep
  · next l via f hw =>
    split at hstep
    · cases hstep
    · next hnot =>
      cases hstep
      exact Follows.moves (q := .completed l via) hl hr hw rfl rfl rfl rfl (.finish _ _ _ hnot)
  · cases hstep

theorem Follows.stepFault {src : FailureSource} {now : Int} (hl : Laned s) (hr : s.OnLane r)
    (hstep : stepFault cfg s w src now = some s') : ∃ r', Follows cfg s r .fault s' r' := by
  unfold Reentrant.stepFault at hstep
  split at hstep
  · next l via f hw =>
    split at hstep
    · cases hstep
    · next hnot =>
      cases hstep
      exact Follows.onFault hl hr hw hnot
  · cases hstep

section

variable [DecidableEq M]

theorem Follows.stepDequeue (hl : Laned s) (hr : s.OnLane r) (hw : s.worker w = .dequeue l) :
    ∃ r', Follows cfg s r e (stepDequeue cfg s w l) r' := by
  have ho : (s.worker w).demand = some .running := by rw [hw]; rfl
  simp only [Reentrant.stepDequeue, Mailbox.tryDequeue]
  cases (s.mailbox.consume s.deq).2.2 with
  | none => exact ⟨r, .same hl hr rfl rfl (.stay _ _ _)⟩
  | some outcome =>
    cases outcome with
    | message front =>
      refine ⟨_, .goto (q := .claim { l with remaining := l.remaining - 1 } s.dequeued.length) hl hr
        ho rfl rfl rfl ?_⟩
      rw [hw]
      have hframes : ∀ s₁ : State M W P, s₁.frames = { s.frames with dequeued := s.frames.dequeued + 1 } →
          Frames.Step cfg s.frames .gated e s₁.frames (.claims s.dequeued.length) := by
        intro s₁ hs₁
        rw [hs₁]
        exact .dequeue _ _
      refine hframes _ ?_
      simp [State.frames, State.setWorker, drained, Mailbox.drainResult]
    | empty =>
      exact Follows.moves (q := .pendingReady l) hl hr hw rfl rfl rfl rfl (.ungate _ _)
    | busy =>
      refine ⟨_, .goto (q := if l.busy + 1 < cfg.busySpinLimit then .actions (.fresh cfg (l.busy + 1)) else .yield)
        hl hr ho rfl rfl ?_ ?_⟩
      · split <;> rfl
      · have hrole : (if l.busy + 1 < cfg.busySpinLimit then WorkerPc.actions (M := M) (.fresh cfg (l.busy + 1))
            else .yield).role = .plain := by
          split <;> rfl
        rw [hw, hrole]
        exact .ungate _ _

theorem Follows.stepWorker (hl : Laned s) (hr : s.OnLane r) (hstep : stepWorker cfg s w ok = some s') :
    ∃ r', Follows cfg s r (s.event (.worker w ok : Label M W P)) s' r' := by
  rw [Reentrant.stepWorker.eq_def] at hstep
  cases hw : s.worker w with
  | away | handler l via f =>
    rw [hw] at hstep
    cases hstep
  | acquire | reacquireParked l | reacquireIdle =>
    rw [hw] at hstep
    cases hstep
    exact ⟨r, .reacquire hl hr (by rw [hw]; rfl) (by simp) rfl rfl⟩
  | gateProbe l | readyProbe l admittable | idleProbe =>
    rw [hw] at hstep
    cases hstep
    refine ⟨r, .outside hl hr (by rw [hw]; rfl) rfl rfl ?_ rfl⟩
    split <;> rfl
  | mailProbe l | requeue =>
    rw [hw] at hstep
    cases hstep
    exact ⟨r, .outside hl hr (by rw [hw]; rfl) rfl rfl rfl rfl⟩
  | park l | closeOut | yield =>
    rw [hw] at hstep
    cases hstep
    exact ⟨_, .release hl hr (by rw [hw]; rfl) (by rw [hw]; rfl) rfl rfl rfl⟩
  | dequeue l =>
    rw [hw] at hstep
    cases hstep
    exact Follows.stepDequeue hl hr hw
  | claim l f =>
    rw [hw] at hstep
    cases hstep
    exact Follows.stepAdmit hl hr hw
  | drainReady l =>
    rw [hw] at hstep
    cases hstep
    exact Follows.drainReady hl hr hw
  | quiesceFire l via f =>
    rw [hw] at hstep
    cases hstep
    exact Follows.quiesceFire hl hr hw
  | completed l via =>
    rw [hw] at hstep
    cases hstep
    exact Follows.maybeResumeWaiter hl hr hw
  | finishRestart l via =>
    rw [hw] at hstep
    cases hstep
    exact Follows.finishRestart hl hr hw
  | actions l | pendingReady l | quiescent l =>
    rw [hw] at hstep
    cases hstep
    refine Follows.tests hl hr hw rfl rfl rfl rfl ?_ ?_ rfl
    · split <;> rfl
    · split <;> rfl
  | gate l =>
    rw [hw] at hstep
    cases hstep
    have hevent : s.event (.worker w ok : Label M W P) = .gate := by simp only [State.event, hw]
    rw [hevent]
    exact Follows.gate hl hr hw
  | escalate l =>
    rw [hw] at hstep
    cases hstep
    exact Follows.escalate hl hr hw
  | escalateFire l =>
    rw [hw] at hstep
    cases hstep
    exact Follows.moves (q := .drainReady l) hl hr hw rfl rfl rfl rfl (.fire _ _)
  | pushWaiter l via f =>
    rw [hw] at hstep
    cases hstep
    exact Follows.moves (q := .finishRestart l via) hl hr hw rfl rfl rfl rfl (.push _ _ _)
  | restartSeal l via =>
    rw [hw] at hstep
    cases hstep
    exact Follows.moves (q := .restartFire l via) hl hr hw rfl rfl rfl rfl (.seal _ _)
  | restartFire l via =>
    rw [hw] at hstep
    cases hstep
    exact Follows.moves (q := .finishRestart l via) hl hr hw rfl rfl rfl rfl (.restartFire _ _)

variable [DecidableEq P]

theorem Follows.step {a : Label M W P} (hl : Laned s) (hr : s.OnLane r) (hstep : step cfg s a = some s') :
    ∃ r', Follows cfg s r (s.event a) s' r' := by
  cases a with
  | post p m =>
    simp only [Reentrant.step, stepPost] at hstep
    split at hstep
    · cases hstep
      exact ⟨r, .same hl hr rfl rfl (.stay _ _ _)⟩
    · cases hstep
  | completeOne p => exact ⟨r, Follows.stepCompleteOne hl hr hstep⟩
  | watchdog p expired =>
    simp only [Reentrant.step, stepWatchdog] at hstep
    split at hstep
    · split at hstep <;>
        (cases hstep; exact ⟨r, .same hl hr rfl rfl (.stay _ _ _)⟩)
    · cases hstep
  | caller p => exact ⟨r, Follows.stepCaller hl hr hstep⟩
  | pauseAdmission =>
    cases hstep
    unfold stepPause
    split
    · next hopened => exact ⟨r, .same hl hr rfl rfl (.pause _ _ _ hopened)⟩
    · exact ⟨r, .same hl hr rfl rfl (.stay _ _ _)⟩
  | resumeAdmission =>
    cases hstep
    unfold stepResume
    split
    · next hpaused => exact ⟨r, .same hl hr rfl rfl (.resume _ _ _ hpaused)⟩
    · exact ⟨r, .same hl hr rfl rfl (.stay _ _ _)⟩
  | select w =>
    simp only [Reentrant.step, stepSelect] at hstep
    split at hstep
    · next hcan =>
      cases hstep
      exact ⟨r, .outside hl hr (by rw [hcan.1]; rfl) rfl rfl rfl rfl⟩
    · cases hstep
  | worker w ok => exact Follows.stepWorker hl hr hstep
  | quiesce w mode => exact Follows.stepQuiesce hl hr hstep
  | release w => exact Follows.stepRelease hl hr hstep
  | suspend w => exact Follows.stepSuspend hl hr hstep
  | finish w => exact Follows.stepFinish hl hr hstep
  | fault w src now => exact Follows.stepFault hl hr hstep

end

end

end

def State.Lanes (K : Frames → Role → Prop) (s : State M W P) : Prop := Laned s ∧ ∃ r, s.OnLane r ∧ K s.frames r

theorem lanes_of_reach [DecidableEq M] [DecidableEq W] [DecidableEq P] {cfg : Config} {s : State M W P}
    {ok : State M W P → Label M W P → Prop} {K : Frames → Role → Prop} (hreach : Machine.Reach (step cfg) ok {} s)
    (hstart : K {} .plain)
    (hkeep : ∀ (s s' : State M W P) a r r', ok s a → step cfg s a = some s' → s.OnLane r → K s.frames r →
      Frames.Step cfg s.frames r (s.event a) s'.frames r' → K s'.frames r') : s.Lanes K := by
  refine hreach.invariant ⟨.initial, .plain, .initial, hstart⟩ ?_
  rintro s a s' ⟨hl, r, hr, hk⟩ hok hstep
  obtain ⟨r', h⟩ := Follows.step hl hr hstep
  exact ⟨h.laned, r', h.onLane, hkeep s s' a r r' hok hstep hr hk h.frames⟩

def Role.claimed : Role → Option Nat
  | .claims f => some f
  | _ => none

def Role.frame : Role → Option Nat
  | .runs f | .fires f | .pushes f => some f
  | _ => none

/-- Each dequeued message is with the lane, in flight or reclaimed, and reclaimed with one outcome; each frame is in
at most one place. -/
structure Frames.Accounted (c : Frames) (r : Role) : Prop where
  once : ∀ f, r.claimed.toList.count f + c.live.count f + c.reclaimed.count f = if f < c.dequeued then 1 else 0
  outcome : ∀ f, c.completed.count f + c.deadLettered.count f + c.tombstones.count f = c.reclaimed.count f
  placed : ∀ f, r.frame.toList.count f + c.waiterFrame.toList.count f + c.suspended.count f + c.ready.count f ≤
    c.live.count f

namespace Frames

attribute [local grind =] Role.claimed Role.frame faulted deadLetter doStop hold await fireCancelAll

section

variable {cfg : Config} {c c' : Frames} {r r' : Role} {e : Event}

theorem Accounted.initial : Accounted {} .plain := by
  constructor
  · simp [Role.claimed]
  · simp
  · simp [Role.frame]

theorem Accounted.once_step (h : c.Accounted r) (hstep : Step cfg c r e c' r') (f : Nat) :
    r'.claimed.toList.count f + c'.live.count f + c'.reclaimed.count f = if f < c'.dequeued then 1 else 0 := by
  have honce := h.once
  have hplaced := h.placed
  cases hstep <;> grind -ring -linarith

theorem Accounted.outcome_step (h : c.Accounted r) (hstep : Step cfg c r e c' r') (f : Nat) :
    c'.completed.count f + c'.deadLettered.count f + c'.tombstones.count f = c'.reclaimed.count f := by
  have houtcome := h.outcome
  cases hstep <;> grind -ring -linarith

theorem Accounted.placed_step (h : c.Accounted r) (hstep : Step cfg c r e c' r') (f : Nat) :
    r'.frame.toList.count f + c'.waiterFrame.toList.count f + c'.suspended.count f + c'.ready.count f ≤
      c'.live.count f := by
  have honce := h.once
  have hplaced := h.placed
  cases hstep <;> grind -ring -linarith

theorem Accounted.step (h : c.Accounted r) (hstep : Step cfg c r e c' r') : c'.Accounted r' :=
  ⟨h.once_step hstep, h.outcome_step hstep, h.placed_step hstep⟩

theorem Accounted.nodup (h : c.Accounted r) : c.live.Nodup := by
  refine nodup_iff_count_le_one.mpr fun f => ?_
  have honce := h.once f
  split at honce <;> omega

theorem Accounted.frame_mem (h : c.Accounted r) {f : Nat} (hf : r.frame = some f) : f ∈ c.live := by
  have hplaced := h.placed f
  refine count_pos_iff.mp ?_
  simp only [hf, Option.toList, count_cons_self, count_nil] at hplaced
  omega

end

end Frames

end Quark.Reentrant
