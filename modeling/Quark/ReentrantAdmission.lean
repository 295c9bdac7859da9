import Quark.ReentrantLane
import Mathlib.Data.Fintype.Basic

/-! An admissible message is not left behind a parked or idle lane, while whoever acts last on the message or on
the gate is not the only one to see it. -/
namespace Quark.Reentrant

open Function List Machine State Vyukov

variable {M W P : Type}

inductive Thread (W P : Type)
  | caller (p : P)
  | worker (w : W)
  deriving DecidableEq, Repr

/-- Between the store that gives `Running` up and the end of the drain or of `close_out`. -/
def WorkerPc.Closing : WorkerPc M → Prop
  | .gateProbe _ | .mailProbe _ | .readyProbe _ _ | .reacquireParked _ | .idleProbe | .reacquireIdle => True
  | _ => False

def CallerPc.watches : ExecState → CallerPc M → Bool
  | .parked, .linking _ | .parked, .notify _ | .parked, .raise | .parked, .readmitParked => true
  | .idle, .linking _ | .idle, .notify .load | .idle, .notify .casIdle => true
  | _, _ => false

/-- The worker has still to look, or has seen what it comes back for. -/
def WorkerPc.watches (ready : List Nat) : ExecState → WorkerPc M → Bool
  | .parked, .gateProbe _ | .parked, .mailProbe _ | .parked, .reacquireParked _ => true
  | .parked, .readyProbe _ admittable => admittable || !ready.isEmpty
  | .idle, .idleProbe | .idle, .reacquireIdle => true
  | _, _ => false

def Watched (exec : ExecState) (ready : List Nat) (caller : P → CallerPc M) (worker : W → WorkerPc M) :
    Thread W P → Prop
  | .caller p => (caller p).watches exec
  | .worker w => (worker w).watches ready exec

def State.Watches (s : State M W P) (t : Thread W P) : Prop := Watched s.exec s.ready s.caller s.worker t

/-- Somebody but `t` watches. -/
def State.WatchedBeside (s : State M W P) (t : Thread W P) : Prop := ∃ t', t' ≠ t ∧ s.Watches t'

def State.Admissible (cfg : Config) (s : State M W P) : Prop :=
  s.posted ≠ s.dequeued ∧ (s.exec = .idle ∨ s.exec = .parked ∧ s.sealState = .opened ∧ s.live.length < cfg.cap)

/-- With no thread inside a call, an admissible message has the activation `Running` or `Scheduled`. -/
def NoneWaiting (cfg : Config) (s : State M W P) : Prop :=
  (∀ p, s.caller p = .idle) → (∀ w, ¬ (s.worker w).Closing) → s.sealState = .opened → s.live.length < cfg.cap →
    s.posted ≠ s.dequeued → s.exec = .running ∨ s.exec = .scheduled

/-- The post ends on a `Parked` lane and wakes nobody. -/
def CallerPc.givesUp (exec : ExecState) : CallerPc M → Prop
  | .notify pc => exec = .parked ∧ (exec.notifyEnqueuedFast pc).2 = .ret false
  | _ => False

def WorkerPc.isMailProbe : WorkerPc M → Bool
  | .mailProbe _ => true
  | _ => false

/-- Whoever ends its call in front of an admissible message, or makes a message admissible, is not the only one to
look: not a post that finds the lane `Parked`, not a close-out that reads a tail on the stub, and not
`resume_admission`. -/
def Sound (cfg : Config) (s : State M W P) : Label M W P → Prop
  | .caller p => (s.caller p).givesUp s.exec → s.Admissible cfg → s.WatchedBeside (.caller p)
  | .worker w _ =>
    s.mailbox.tail = .stub → s.Admissible cfg →
      ((s.worker w).isMailProbe → s.ready = [] → s.WatchedBeside (.worker w)) ∧
        (s.worker w = .idleProbe → s.WatchedBeside (.worker w))
  | .resumeAdmission =>
    s.exec = .parked → s.sealState = .paused → s.live.length < cfg.cap → s.posted ≠ s.dequeued → ∃ t, s.Watches t
  | _ => True

/-- What the mailbox holds was posted and not yet dequeued, one worker has the lane, and an admissible message is
watched. -/
structure Inv (cfg : Config) (s : State M W P) (items : List M) : Prop where
  holds : s.mailbox.Holds s.deq items
  posted : s.posted = s.dequeued ++ items.map .item
  laned : Laned s
  alive : s.exec ≠ .dormant ∧ s.exec ≠ .retired
  attended : s.Admissible cfg → ∃ t, s.Watches t

section

variable {cfg : Config} {s s' : State M W P} {items : List M} {w : W} {p : P} {t : Thread W P}

theorem Inv.initial (cfg : Config) : Inv cfg ({} : State M W P) [] := by
  constructor
  · exact Queue.Holds.initial
  · rfl
  · exact .initial
  · simp
  · rintro ⟨hne, _⟩
    exact absurd rfl hne

theorem Inv.noneWaiting (h : Inv cfg s items) : NoneWaiting cfg s := by
  intro hcallers hworkers hopened hcap hne
  have hunwatched : ∀ t, ¬ s.Watches t := by
    intro t ht
    cases t with
    | caller p =>
      simp only [Watches, Watched, hcallers p] at ht
      cases hexec : s.exec <;> simp [hexec, CallerPc.watches] at ht
    | worker w =>
      refine hworkers w ?_
      simp only [Watches, Watched] at ht
      cases hw : s.worker w with
      | gateProbe l | mailProbe l | readyProbe l b | reacquireParked l | idleProbe | reacquireIdle => trivial
      | _ => cases hexec : s.exec <;> simp [hw, hexec, WorkerPc.watches] at ht
  cases hexec : s.exec with
  | running => exact Or.inl rfl
  | scheduled => exact Or.inr rfl
  | idle =>
    obtain ⟨t, ht⟩ := h.attended ⟨hne, Or.inl hexec⟩
    exact absurd ht (hunwatched t)
  | parked =>
    obtain ⟨t, ht⟩ := h.attended ⟨hne, Or.inr ⟨hexec, hopened, hcap⟩⟩
    exact absurd ht (hunwatched t)
  | dormant => exact absurd hexec h.alive.1
  | retired => exact absurd hexec h.alive.2

theorem not_admissible (hidle : s.exec ≠ .idle) (hparked : s.exec ≠ .parked) : ¬ s.Admissible cfg := by
  rintro ⟨_, hexec | ⟨hexec, _⟩⟩
  · exact hidle hexec
  · exact hparked hexec

section

variable {exec : ExecState} {ready ready' : List Nat} {caller : P → CallerPc M} {worker : W → WorkerPc M}

theorem Watched.grow (h : Watched exec ready caller worker t) (hready : ready ≠ [] → ready' ≠ []) :
    Watched exec ready' caller worker t := by
  cases t with
  | caller p => exact h
  | worker w =>
    simp only [Watched] at h ⊢
    cases hw : worker w with
    | readyProbe l b =>
      rw [hw] at h
      cases exec with
      | parked =>
        simp only [WorkerPc.watches, Bool.or_eq_true, Bool.not_eq_true', isEmpty_eq_false_iff] at h ⊢
        exact h.imp_right hready
      | _ => exact h
    | _ =>
      rw [hw] at h
      cases exec <;> exact h

theorem watched_caller_ne [DecidableEq P] {pc : CallerPc M} (hne : t ≠ .caller p) :
    Watched exec ready (update caller p pc) worker t ↔ Watched exec ready caller worker t := by
  cases t with
  | worker w => exact Iff.rfl
  | caller p' =>
    have hp : p' ≠ p := fun heq => hne (by rw [heq])
    simp only [Watched, update_of_ne hp]

theorem watched_caller_self [DecidableEq P] {pc : CallerPc M} :
    Watched exec ready (update caller p pc) worker (.caller p) ↔ pc.watches exec := by
  simp only [Watched, update_self]

theorem watched_worker_ne [DecidableEq W] {pc : WorkerPc M} (hne : t ≠ .worker w) :
    Watched exec ready caller (update worker w pc) t ↔ Watched exec ready caller worker t := by
  cases t with
  | caller p => exact Iff.rfl
  | worker w' =>
    have hw : w' ≠ w := fun heq => hne (by rw [heq])
    simp only [Watched, update_of_ne hw]

theorem watched_worker_self [DecidableEq W] {pc : WorkerPc M} :
    Watched exec ready caller (update worker w pc) (.worker w) ↔ pc.watches ready exec := by
  simp only [Watched, update_self]

end

def State.mail (s : State M W P) : Mailbox M × Consumer × List (Node M) × List (Node M) :=
  (s.mailbox, s.deq, s.posted, s.dequeued)

def State.view (s : State M W P) : (Mailbox M × Consumer × List (Node M) × List (Node M)) × SealState × List Nat :=
  (s.mail, s.sealState, s.live)

theorem Inv.same (h : Inv cfg s items) (hmail : s'.mail = s.mail) (hlaned : Laned s')
    (halive : s'.exec ≠ .dormant ∧ s'.exec ≠ .retired)
    (hattended : s'.Admissible cfg → ∃ t, s'.Watches t) : Inv cfg s' items := by
  simp only [mail, Prod.mk.injEq] at hmail
  obtain ⟨hmailbox, hdeq, hposted, hdequeued⟩ := hmail
  refine ⟨?_, ?_, hlaned, halive, hattended⟩
  · rw [hmailbox, hdeq]
    exact h.holds
  · rw [hposted, hdequeued]
    exact h.posted

theorem admissible_same (hview : s'.view = s.view) (hexec : s'.exec = s.exec) :
    s'.Admissible cfg ↔ s.Admissible cfg := by
  simp only [view, mail, Prod.mk.injEq] at hview
  obtain ⟨⟨_, _, hposted, hdequeued⟩, hseal, hlive⟩ := hview
  simp only [Admissible, hposted, hdequeued, hseal, hlive, hexec]

section

variable [DecidableEq P] {pc : CallerPc M}

theorem Inv.callerGoto (h : Inv cfg s items) (hview : s'.view = s.view) (hexec : s'.exec = s.exec)
    (hworker : s'.worker = s.worker) (hready : s.ready ≠ [] → s'.ready ≠ [])
    (hcaller : s'.caller = update s.caller p pc)
    (hkept : s.Admissible cfg → (s.caller p).watches s.exec → pc.watches s.exec ∨ s.WatchedBeside (.caller p)) :
    Inv cfg s' items := by
  refine h.same (congrArg Prod.fst hview) (h.laned.same hexec hworker) (by rw [hexec]; exact h.alive) ?_
  intro hadmissible
  have hadm := (admissible_same hview hexec).mp hadmissible
  have hlift : ∀ t, t ≠ .caller p → s.Watches t → s'.Watches t := by
    intro t hne ht
    rw [Watches, hexec, hcaller, hworker]
    exact (watched_caller_ne hne).mpr (Watched.grow ht hready)
  obtain ⟨t, ht⟩ := h.attended hadm
  by_cases hne : t = .caller p
  · rw [hne] at ht
    rcases hkept hadm ht with hpc | ⟨t', hne', ht'⟩
    · refine ⟨.caller p, ?_⟩
      rw [Watches, hexec, hcaller]
      exact watched_caller_self.mpr hpc
    · exact ⟨t', hlift t' hne' ht'⟩
  · exact ⟨t, hlift t hne ht⟩

theorem Inv.schedule (h : Inv cfg s items) (hexec : s.exec ≠ .running) (pc : CallerPc M) :
    Inv cfg ({ s with exec := .scheduled }.setCaller p pc) items := by
  refine h.same rfl (h.laned.rest hexec rfl) (by simp [setCaller]) (fun hadm => absurd hadm ?_)
  exact not_admissible (by simp [setCaller]) (by simp [setCaller])

theorem Inv.notify {npc : ExecState.NotifyPc} (h : Inv cfg s items) (hp : s.caller p = .notify npc)
    (hsound : (s.caller p).givesUp s.exec → s.Admissible cfg → s.WatchedBeside (.caller p)) :
    Inv cfg ({ s with exec := (s.exec.notifyEnqueuedFast npc).1 }.setCaller p
      (.afterNotify (s.exec.notifyEnqueuedFast npc).2)) items := by
  rcases s.exec.notifyEnqueuedFast_cases npc with ⟨hsame, hnot⟩ | ⟨hrest, hwake⟩
  · refine h.callerGoto rfl hsame rfl id rfl fun hadm hwatch => ?_
    rw [hp] at hwatch hsound
    obtain ⟨_, hexec | ⟨hexec, _⟩⟩ := id hadm
    · rw [hexec] at hwatch ⊢
      left
      cases npc with
      | load => rfl
      | casIdle => exact absurd rfl (by rw [hexec] at hnot; exact hnot)
      | recheck | casDormant => cases hwatch
    · cases hret : (s.exec.notifyEnqueuedFast npc).2 with
      | goto npc' =>
        left
        rw [hexec]
        rfl
      | ret wake =>
        cases wake with
        | true => exact absurd hret hnot
        | false => exact Or.inr (hsound ⟨hexec, hret⟩ hadm)
  · rw [hwake]
    refine h.schedule ?_ _
    rcases hrest with hexec | hexec <;> simp [hexec]

end

section

variable [DecidableEq W] {pc : WorkerPc M}

theorem Inv.ownerStep {items' : List M} (h : Inv cfg s items) (ho : (s.worker w).demand = some .running)
    (hholds : s'.mailbox.Holds s'.deq items') (hposted : s'.posted = s'.dequeued ++ items'.map .item)
    (hexec : s'.exec = s.exec) (hworker : s'.worker = update s.worker w pc)
    (hpc : pc.demand = some .running) : Inv cfg s' items' := by
  have hrunning := h.laned.exec_running ho
  refine ⟨hholds, hposted, h.laned.goto hexec hworker (by rw [hpc, ho]), by rw [hexec]; exact h.alive,
    fun hadm => absurd hadm ?_⟩
  exact not_admissible (by simp [hexec, hrunning]) (by simp [hexec, hrunning])

theorem Inv.ownerGoto (h : Inv cfg s items) (ho : (s.worker w).demand = some .running) (hmail : s'.mail = s.mail)
    (hexec : s'.exec = s.exec) (hworker : s'.worker = update s.worker w pc)
    (hpc : pc.demand = some .running) : Inv cfg s' items := by
  simp only [mail, Prod.mk.injEq] at hmail
  obtain ⟨hmailbox, hdeq, hposted, hdequeued⟩ := hmail
  refine h.ownerStep ho ?_ ?_ hexec hworker hpc
  · rw [hmailbox, hdeq]
    exact h.holds
  · rw [hposted, hdequeued]
    exact h.posted

theorem Inv.ownerStay (h : Inv cfg s items) (ho : (s.worker w).demand = some .running) (hmail : s'.mail = s.mail)
    (hexec : s'.exec = s.exec) (hworker : s'.worker = s.worker) : Inv cfg s' items :=
  h.ownerGoto ho hmail hexec (by rw [hworker, update_eq_self]) ho

theorem Inv.release (h : Inv cfg s items) (ho : (s.worker w).demand = some .running) {e : ExecState}
    (hpc : pc.demand = none) (halive : e ≠ .dormant ∧ e ≠ .retired)
    (hwatches : e = .idle ∨ e = .parked → pc.watches s.ready e) :
    Inv cfg ({ s with exec := e }.setWorker w pc) items := by
  refine h.same rfl (h.laned.release ho rfl hpc) halive ?_
  rintro ⟨_, hrest⟩
  refine ⟨.worker w, watched_worker_self.mpr (hwatches ?_)⟩
  exact hrest.imp_right And.left

theorem Inv.workerGoto (h : Inv cfg s items) (ho : (s.worker w).demand = none) (hpc : pc.demand = none) (n : Nat)
    (hkept : s.Admissible cfg → (s.worker w).watches s.ready s.exec →
      pc.watches s.ready s.exec ∨ s.WatchedBeside (.worker w)) :
    Inv cfg ({ s with queued := n }.setWorker w pc) items := by
  refine h.same rfl (h.laned.goto rfl rfl (by rw [hpc, ho])) h.alive ?_
  intro hadm
  obtain ⟨t, ht⟩ := h.attended hadm
  by_cases hne : t = .worker w
  · rw [hne] at ht
    rcases hkept hadm ht with hwatch | ⟨t', hne', ht'⟩
    · exact ⟨.worker w, watched_worker_self.mpr hwatch⟩
    · exact ⟨t', (watched_worker_ne hne').mpr ht'⟩
  · exact ⟨t, (watched_worker_ne hne).mpr ht⟩

theorem Inv.enter (h : Inv cfg s items) (hexec : s.exec ≠ .running) (hpc : pc.demand = some .running) :
    Inv cfg ({ s with exec := .running }.setWorker w pc) items := by
  refine h.same rfl (h.laned.enter hexec rfl rfl hpc) (by simp [setWorker]) (fun hadm => absurd hadm ?_)
  exact not_admissible (by simp [setWorker]) (by simp [setWorker])

theorem Inv.reacquire {e : ExecState} (h : Inv cfg s items) (ho : (s.worker w).demand = none)
    (hpc : pc.demand = some .running) (he : e ≠ .running)
    (hwatches : (s.worker w).watches s.ready s.exec → s.exec = e) :
    Inv cfg ({ s with exec := (s.exec.cas e .running).1 }.setWorker w
      (if (s.exec.cas e .running).2 then pc else .away)) items := by
  unfold ExecState.cas
  by_cases hexec : s.exec = e
  · simp only [if_pos hexec, if_true]
    rw [← hexec] at he
    exact h.enter he hpc
  · simp only [if_neg hexec, Bool.false_eq_true, if_false]
    exact h.workerGoto ho rfl s.queued fun _ hwatch => absurd (hwatches hwatch) hexec

end

section

variable [DecidableEq W] {l : Local} {via : Via} {f : Nat} {ok : Bool}

theorem Inv.quiesced (h : Inv cfg s items) (ho : (s.worker w).demand = some .running) :
    Inv cfg (quiesced s w l via f) items := by
  unfold Reentrant.quiesced
  split
  · exact h.ownerGoto ho rfl rfl rfl rfl
  · exact h.ownerGoto ho rfl rfl rfl (via.next_demand l)

theorem Inv.stepDrainReady (h : Inv cfg s items) (ho : (s.worker w).demand = some .running) :
    Inv cfg (stepDrainReady s w l) items := by
  unfold Reentrant.stepDrainReady
  split
  · exact h.ownerGoto ho rfl rfl rfl rfl
  · split <;> exact h.ownerGoto ho rfl rfl rfl rfl

theorem Inv.maybeResumeWaiter (h : Inv cfg s items) (ho : (s.worker w).demand = some .running) :
    Inv cfg (maybeResumeWaiter s w l via) items := by
  unfold Reentrant.maybeResumeWaiter
  split
  · exact h.ownerGoto ho rfl rfl rfl rfl
  · split <;> exact h.ownerGoto ho rfl rfl rfl rfl

theorem Inv.finishRestart (h : Inv cfg s items) (ho : (s.worker w).demand = some .running) :
    Inv cfg ((finishRestartIfDrained s ok).setWorker w (via.next l)) items := by
  unfold finishRestartIfDrained
  split
  · split
    · exact h.ownerGoto ho rfl rfl rfl (via.next_demand l)
    · split <;> exact h.ownerGoto ho rfl rfl rfl (via.next_demand l)
  · exact h.ownerGoto ho rfl rfl rfl (via.next_demand l)

theorem Inv.doRestartReentrant {now : Int} (h : Inv cfg s items) (ho : (s.worker w).demand = some .running) :
    Inv cfg (doRestartReentrant cfg s w l via now) items := by
  unfold Reentrant.doRestartReentrant
  split
  · exact h.ownerGoto ho rfl rfl rfl rfl
  · split <;> exact h.ownerGoto ho rfl rfl rfl rfl

theorem Inv.onFaultReentrant {src : FailureSource} {now : Int} (h : Inv cfg s items)
    (ho : (s.worker w).demand = some .running) : Inv cfg (onFaultReentrant cfg s w l via f src now) items := by
  have hremoved : Inv cfg { s.deadLetter f with live := s.live.erase f } items := h.ownerStay ho rfl rfl rfl
  unfold Reentrant.onFaultReentrant
  split
  · exact hremoved.ownerGoto ho rfl rfl rfl rfl
  · split
    · exact hremoved.ownerGoto ho rfl rfl rfl rfl
    · exact hremoved.doRestartReentrant ho
    · exact hremoved.ownerGoto ho rfl rfl rfl rfl
    · exact hremoved.ownerGoto ho rfl rfl rfl rfl

theorem Inv.gateProbe (h : Inv cfg s items) (hw : s.worker w = .gateProbe l) :
    Inv cfg (s.setWorker w (if s.sealState = .opened ∧ s.live.length < cfg.cap then .mailProbe l
    else .readyProbe l false))
      items := by
  have ho : (s.worker w).demand = none := by rw [hw]; rfl
  split
  · refine h.workerGoto ho rfl s.queued fun _ hwatch => ?_
    rw [hw] at hwatch
    cases hexec : s.exec with
    | parked => exact Or.inl rfl
    | _ => rw [hexec] at hwatch; cases hwatch
  · next hgate =>
    refine h.workerGoto ho rfl s.queued fun hadm hwatch => ?_
    rw [hw] at hwatch
    obtain ⟨_, hexec | ⟨_, hopened⟩⟩ := hadm
    · rw [hexec] at hwatch
      cases hwatch
    · exact absurd hopened hgate

theorem Inv.readyProbe {admittable : Bool} (h : Inv cfg s items) (hw : s.worker w = .readyProbe l admittable) :
    Inv cfg (s.setWorker w (if s.ready ≠ [] ∨ admittable then .reacquireParked l else .away)) items := by
  have ho : (s.worker w).demand = none := by rw [hw]; rfl
  split
  · refine h.workerGoto ho rfl s.queued fun _ hwatch => ?_
    rw [hw] at hwatch
    cases hexec : s.exec with
    | parked => exact Or.inl rfl
    | _ => rw [hexec] at hwatch; cases hwatch
  · next hnone =>
    refine h.workerGoto ho rfl s.queued fun _ hwatch => ?_
    rw [hw] at hwatch
    cases hexec : s.exec with
    | parked =>
      rw [hexec] at hwatch
      simp only [WorkerPc.watches, Bool.or_eq_true, Bool.not_eq_true', isEmpty_eq_false_iff] at hwatch
      exact absurd hwatch.symm hnone
    | _ => rw [hexec] at hwatch; cases hwatch

theorem Inv.stepHandler {m : QuiesceMode} (h : Inv cfg s items)
    (hstep : stepQuiesce s w m = some s' ∨ stepRelease s w = some s' ∨ stepSuspend s w = some s' ∨
      stepFinish s w = some s') : Inv cfg s' items := by
  simp only [stepQuiesce, stepRelease, stepSuspend, stepFinish] at hstep
  cases hw : s.worker w with
  | handler l via f =>
    have ho : (s.worker w).demand = some .running := by rw [hw]; rfl
    simp only [hw] at hstep
    rcases hstep with hstep | hstep | hstep | hstep
    · cases m with
      | drain =>
        cases hstep
        have hsealed : Inv cfg { s with sealState := .draining } items := h.ownerStay ho rfl rfl rfl
        exact hsealed.quiesced ho
      | cancel =>
        cases hstep
        exact h.ownerGoto ho rfl rfl rfl rfl
    · split at hstep
      · cases hstep
        exact h.ownerStay ho rfl rfl rfl
      · cases hstep
    · cases hstep
      exact h.ownerGoto ho rfl rfl rfl (via.next_demand l)
    · split at hstep
      · cases hstep
      · cases hstep
        exact h.ownerGoto ho rfl rfl rfl rfl
  | _ => simp [hw] at hstep

theorem Inv.stepFault {src : FailureSource} {now : Int} (h : Inv cfg s items)
    (hstep : stepFault cfg s w src now = some s') : Inv cfg s' items := by
  unfold Reentrant.stepFault at hstep
  split at hstep
  · next l via f hw =>
    split at hstep
    · cases hstep
    · cases hstep
      exact h.onFaultReentrant (by rw [hw]; rfl)
  · cases hstep

section

variable [DecidableEq M]

theorem Inv.mailProbe (h : Inv cfg s items) (hw : s.worker w = .mailProbe l)
    (hsound : Sound cfg s (.worker w ok : Label M W P)) :
    Inv cfg (s.setWorker w (.readyProbe l s.mailbox.probeHasWork)) items := by
  have ho : (s.worker w).demand = none := by rw [hw]; rfl
  refine h.workerGoto ho rfl s.queued fun hadm hwatch => ?_
  rw [hw] at hwatch
  cases hexec : s.exec with
  | parked =>
    by_cases htail : s.mailbox.tail = .stub
    · by_cases hready : s.ready = []
      · exact Or.inr ((hsound htail hadm).1 (by rw [hw]; rfl) hready)
      · left
        simp [WorkerPc.watches, hready]
    · left
      simp [WorkerPc.watches, Mailbox.probeHasWork, htail]
  | _ => rw [hexec] at hwatch; cases hwatch

theorem Inv.idleProbe (h : Inv cfg s items) (hw : s.worker w = .idleProbe)
    (hsound : Sound cfg s (.worker w ok : Label M W P)) :
    Inv cfg (s.setWorker w (if s.mailbox.probeHasWork then .reacquireIdle else .away)) items := by
  have ho : (s.worker w).demand = none := by rw [hw]; rfl
  by_cases htail : s.mailbox.tail = .stub
  · rw [if_neg (by simp [Mailbox.probeHasWork, htail])]
    exact h.workerGoto ho rfl s.queued fun hadm _ => Or.inr ((hsound htail hadm).2 hw)
  · rw [if_pos (by simp [Mailbox.probeHasWork, htail])]
    refine h.workerGoto ho rfl s.queued fun _ hwatch => ?_
    rw [hw] at hwatch
    cases hexec : s.exec with
    | idle => exact Or.inl rfl
    | _ => rw [hexec] at hwatch; cases hwatch

theorem Inv.stepDequeue (h : Inv cfg s items) (hw : s.worker w = .dequeue l) :
    ∃ items', Inv cfg (stepDequeue cfg s w l) items' := by
  have ho : (s.worker w).demand = some .running := by rw [hw]; rfl
  have hspec := h.holds.consume
  simp only [Reentrant.stepDequeue, Mailbox.tryDequeue]
  generalize s.mailbox.consume s.deq = r at hspec ⊢
  cases hspec with
  | going hq =>
    have hworker : s.worker = update s.worker w (.dequeue l) := by rw [← hw, update_eq_self]
    exact ⟨items, h.ownerStep ho hq h.posted rfl hworker rfl⟩
  | message hitems hq =>
    refine ⟨_, h.ownerStep ho hq ?_ rfl rfl rfl⟩
    change s.posted = _
    rw [h.posted, hitems, map_cons, append_cons]
    rfl
  | empty _ _ hq => exact ⟨items, h.ownerStep ho hq h.posted rfl rfl rfl⟩
  | busy hq =>
    refine ⟨items, h.ownerStep ho hq h.posted rfl rfl ?_⟩
    split <;> rfl

theorem Inv.stepWorker (h : Inv cfg s items) (hsound : Sound cfg s (.worker w ok : Label M W P))
    (hstep : stepWorker cfg s w ok = some s') : ∃ items', Inv cfg s' items' := by
  rw [Reentrant.stepWorker.eq_def] at hstep
  cases hw : s.worker w with
  | away | handler l via f =>
    rw [hw] at hstep
    cases hstep
  | acquire | reacquireParked l | reacquireIdle =>
    rw [hw] at hstep
    cases hstep
    refine ⟨items, h.reacquire (by rw [hw]; rfl) rfl (by simp) ?_⟩
    rw [hw]
    cases s.exec <;> simp [WorkerPc.watches]
  | dequeue l =>
    rw [hw] at hstep
    cases hstep
    exact h.stepDequeue hw
  | gateProbe l =>
    rw [hw] at hstep
    cases hstep
    exact ⟨items, h.gateProbe hw⟩
  | mailProbe l =>
    rw [hw] at hstep
    cases hstep
    exact ⟨items, h.mailProbe hw hsound⟩
  | readyProbe l admittable =>
    rw [hw] at hstep
    cases hstep
    exact ⟨items, h.readyProbe hw⟩
  | idleProbe =>
    rw [hw] at hstep
    cases hstep
    exact ⟨items, h.idleProbe hw hsound⟩
  | requeue =>
    rw [hw] at hstep
    cases hstep
    refine ⟨items, h.workerGoto (by rw [hw]; rfl) rfl _ ?_⟩
    rw [hw]
    cases s.exec <;> simp [WorkerPc.watches]
  | park l | closeOut | yield =>
    rw [hw] at hstep
    cases hstep
    exact ⟨items, h.release (by rw [hw]; rfl) rfl (by simp) (by simp [WorkerPc.watches])⟩
  | drainReady l =>
    rw [hw] at hstep
    cases hstep
    exact ⟨items, h.stepDrainReady (by rw [hw]; rfl)⟩
  | quiesceFire l via f =>
    rw [hw] at hstep
    cases hstep
    have ho : (s.worker w).demand = some .running := by rw [hw]; rfl
    have hfired : Inv cfg s.fireCancelAll items := h.ownerStay ho rfl rfl rfl
    exact ⟨items, hfired.quiesced ho⟩
  | completed l via =>
    rw [hw] at hstep
    cases hstep
    exact ⟨items, h.maybeResumeWaiter (by rw [hw]; rfl)⟩
  | finishRestart l via =>
    rw [hw] at hstep
    cases hstep
    exact ⟨items, h.finishRestart (by rw [hw]; rfl)⟩
  | actions l | gate l | pendingReady l | quiescent l =>
    rw [hw] at hstep
    cases hstep
    refine ⟨items, h.ownerGoto (by rw [hw]; rfl) rfl rfl rfl ?_⟩
    repeat' split
    all_goals rfl
  | escalate l =>
    rw [hw] at hstep
    cases hstep
    have ho : (s.worker w).demand = some .running := by rw [hw]; rfl
    refine ⟨items, ?_⟩
    split <;> exact h.ownerGoto ho rfl rfl rfl rfl
  | claim l f =>
    rw [hw] at hstep
    cases hstep
    have ho : (s.worker w).demand = some .running := by rw [hw]; rfl
    refine ⟨items, ?_⟩
    unfold stepAdmit
    split
    · exact h.ownerGoto ho rfl rfl rfl rfl
    · split <;> exact h.ownerGoto ho rfl rfl rfl rfl
  | escalateFire l | pushWaiter l via f | restartSeal l via | restartFire l via =>
    rw [hw] at hstep
    cases hstep
    exact ⟨items, h.ownerGoto (by rw [hw]; rfl) rfl rfl rfl rfl⟩

theorem Inv.stepSelect (h : Inv cfg s items) (hstep : stepSelect s w = some s') : Inv cfg s' items := by
  unfold Reentrant.stepSelect at hstep
  split at hstep
  · next hcan =>
    cases hstep
    refine h.workerGoto (by rw [hcan.1]; rfl) rfl _ ?_
    rw [hcan.1]
    cases s.exec <;> simp [WorkerPc.watches]
  · cases hstep

end

end

theorem Inv.stepPause (h : Inv cfg s items) : Inv cfg (stepPause s) items := by
  unfold Reentrant.stepPause
  split
  · refine h.same rfl h.laned h.alive ?_
    rintro ⟨hne, hexec | ⟨_, hopened, _⟩⟩
    · exact h.attended ⟨hne, Or.inl hexec⟩
    · cases hopened
  · exact h

theorem Inv.stepResume (h : Inv cfg s items) (hsound : Sound cfg s (.resumeAdmission : Label M W P)) :
    Inv cfg (stepResume s) items := by
  unfold Reentrant.stepResume
  split
  · next hpaused =>
    refine h.same rfl h.laned h.alive ?_
    rintro ⟨hne, hexec | ⟨hexec, _, hcap⟩⟩
    · exact h.attended ⟨hne, Or.inl hexec⟩
    · exact hsound hexec hpaused hcap hne
  · exact h

section

variable [DecidableEq M] [DecidableEq P]

theorem Inv.stepCompleteOne (h : Inv cfg s items) (hstep : stepCompleteOne s p = some s') : Inv cfg s' items := by
  unfold Reentrant.stepCompleteOne at hstep
  split at hstep
  · next hp =>
    split at hstep
    · cases hstep
      exact h
    · cases hstep
      refine h.callerGoto rfl rfl rfl (fun _ => by simp [setCaller]) rfl ?_
      rw [hp]
      cases s.exec <;> simp [CallerPc.watches]
  · cases hstep

theorem Inv.stepWatchdog {expired : Bool} (h : Inv cfg s items) (hstep : stepWatchdog s p expired = some s') :
    Inv cfg s' items := by
  unfold Reentrant.stepWatchdog at hstep
  split at hstep
  · next hp =>
    split at hstep
    · cases hstep
      refine h.callerGoto rfl rfl rfl id rfl ?_
      rw [hp]
      cases s.exec <;> simp [CallerPc.watches]
    · cases hstep
      exact h
  · cases hstep

theorem Inv.stepPost {m : M} (h : Inv cfg s items) (hstep : stepPost s p m = some s') :
    ∃ items', Inv cfg s' items' := by
  unfold Reentrant.stepPost at hstep
  split at hstep
  · next hcan =>
    cases hstep
    have hm : m ∉ items := by
      intro hmem
      have hpos : 0 < (items.map Node.item).count (.item m) :=
        count_pos_iff.mpr (mem_map_of_mem hmem)
      have hcount := hcan.2
      rw [h.posted, count_append] at hcount
      omega
    refine ⟨items ++ [m], h.holds.exchange hm, ?_, h.laned, h.alive, ?_⟩
    · change s.posted ++ [Node.item m] = _
      rw [h.posted, map_append, append_assoc]
      rfl
    · rintro ⟨_, hrest⟩
      refine ⟨.caller p, watched_caller_self.mpr ?_⟩
      rcases hrest with hexec | ⟨hexec, _⟩
      · rw [show s.exec = .idle from hexec]
        rfl
      · rw [show s.exec = .parked from hexec]
        rfl
  · cases hstep

theorem Inv.link {m : M} (h : Inv cfg s items) (hp : s.caller p = .linking m) :
    Inv cfg ({ s with mailbox := s.mailbox.link (.item m) }.setCaller p (.notify .load)) items := by
  have hgoto : Inv cfg (s.setCaller p (.notify .load)) items := by
    refine h.callerGoto rfl rfl rfl id rfl ?_
    rw [hp]
    cases s.exec <;> simp [CallerPc.watches]
  exact ⟨h.holds.link m, hgoto.posted, hgoto.laned, hgoto.alive, hgoto.attended⟩

theorem Inv.stepCaller (h : Inv cfg s items) (hsound : Sound cfg s (.caller p : Label M W P))
    (hstep : stepCaller s p = some s') : Inv cfg s' items := by
  rw [Reentrant.stepCaller.eq_def] at hstep
  cases hp : s.caller p with
  | idle =>
    rw [hp] at hstep
    cases hstep
  | linking m =>
    rw [hp] at hstep
    cases hstep
    exact h.link hp
  | notify pc =>
    rw [hp] at hstep
    cases hstep
    exact h.notify hp hsound
  | raise =>
    rw [hp] at hstep
    cases hstep
    refine h.callerGoto rfl rfl rfl id rfl ?_
    rw [hp]
    cases s.exec <;> simp [CallerPc.watches]
  | readmitParked =>
    rw [hp] at hstep
    cases hstep
    unfold ExecState.readmitFromParked ExecState.cas
    by_cases hexec : s.exec = .parked
    · simp only [if_pos hexec]
      exact h.schedule (by simp [hexec]) _
    · simp only [if_neg hexec]
      refine h.callerGoto rfl rfl rfl id rfl fun _ hwatch => ?_
      rw [hp] at hwatch
      cases hexec' : s.exec with
      | parked => exact absurd hexec' hexec
      | _ => rw [hexec'] at hwatch; cases hwatch
  | schedule =>
    rw [hp] at hstep
    cases hstep
    refine h.callerGoto rfl rfl rfl id rfl ?_
    rw [hp]
    cases s.exec <;> simp [CallerPc.watches]

variable [DecidableEq W]

theorem Inv.step {a : Label M W P} (h : Inv cfg s items) (hsound : Sound cfg s a) (hstep : step cfg s a = some s') :
    ∃ items', Inv cfg s' items' := by
  cases a with
  | post p m => exact h.stepPost hstep
  | completeOne p => exact ⟨items, h.stepCompleteOne hstep⟩
  | watchdog p expired => exact ⟨items, h.stepWatchdog hstep⟩
  | caller p => exact ⟨items, h.stepCaller hsound hstep⟩
  | pauseAdmission =>
    cases hstep
    exact ⟨items, h.stepPause⟩
  | resumeAdmission =>
    cases hstep
    exact ⟨items, h.stepResume hsound⟩
  | select w => exact ⟨items, h.stepSelect hstep⟩
  | worker w ok => exact h.stepWorker hsound hstep
  | quiesce w mode => exact ⟨items, h.stepHandler (Or.inl hstep)⟩
  | release w => exact ⟨items, h.stepHandler (m := .drain) (Or.inr (Or.inl hstep))⟩
  | suspend w => exact ⟨items, h.stepHandler (m := .drain) (Or.inr (Or.inr (Or.inl hstep)))⟩
  | finish w => exact ⟨items, h.stepHandler (m := .drain) (Or.inr (Or.inr (Or.inr hstep)))⟩
  | fault w src now => exact ⟨items, h.stepFault hstep⟩

end

end

section

variable [DecidableEq M] [DecidableEq W] [DecidableEq P]

def Accounted (cfg : Config) (s : State M W P) : Prop := ∃ items, Inv cfg s items

/-- In every run whose steps all meet the condition. -/
theorem no_message_waiting (cfg : Config) :
    ∀ s : State M W P, Reach (step cfg) (Sound cfg) {} s → NoneWaiting cfg s := by
  intro s hreach
  have haccounted : Accounted cfg s := by
    refine hreach.invariant ⟨[], .initial cfg⟩ ?_
    intro s a s' ⟨items, h⟩ hsound hstep
    exact h.step hsound hstep
  obtain ⟨items, h⟩ := haccounted
  exact h.noneWaiting

end

theorem exists_thread {q : Thread W P → Prop} : (∃ t, q t) ↔ (∃ p, q (.caller p)) ∨ ∃ w, q (.worker w) := by
  constructor
  · rintro ⟨t, ht⟩
    cases t with
    | caller p => exact Or.inl ⟨p, ht⟩
    | worker w => exact Or.inr ⟨w, ht⟩
  · rintro (⟨p, hp⟩ | ⟨w, hw⟩)
    · exact ⟨.caller p, hp⟩
    · exact ⟨.worker w, hw⟩

section

variable [DecidableEq M] [Fintype W] [DecidableEq W] [Fintype P] [DecidableEq P] (cfg : Config)

instance (s : State M W P) : (t : Thread W P) → Decidable (s.Watches t)
  | .caller p => inferInstanceAs (Decidable ((s.caller p).watches s.exec = true))
  | .worker w => inferInstanceAs (Decidable ((s.worker w).watches s.ready s.exec = true))

instance (q : Thread W P → Prop) [DecidablePred q] : Decidable (∃ t, q t) := decidable_of_iff' _ exists_thread

instance (s : State M W P) (t : Thread W P) : Decidable (s.WatchedBeside t) :=
  inferInstanceAs (Decidable (∃ t', t' ≠ t ∧ s.Watches t'))

instance (s : State M W P) : Decidable (s.Admissible cfg) := inferInstanceAs (Decidable (_ ∧ (_ ∨ _ ∧ _ ∧ _)))

instance (exec : ExecState) : (pc : CallerPc M) → Decidable (pc.givesUp exec)
  | .notify _ => inferInstanceAs (Decidable (_ ∧ _))
  | .idle | .linking _ | .raise | .readmitParked | .schedule => .isFalse id

instance (s : State M W P) : (a : Label M W P) → Decidable (Sound cfg s a)
  | .caller _ => inferInstanceAs (Decidable (_ → _ → _))
  | .worker _ _ => inferInstanceAs (Decidable (_ → _ → (_ → _ → _) ∧ (_ → _)))
  | .resumeAdmission => inferInstanceAs (Decidable (_ → _ → _ → _ → _))
  | .post _ _ | .completeOne _ | .watchdog _ _ | .pauseAdmission | .select _ | .quiesce _ _ | .release _ | .suspend _
  | .finish _ | .fault _ _ _ => .isTrue trivial

end

section

def twoAtOnce : Config := { maxConcurrency := 2, budget := 64, busySpinLimit := 4 }

/-- The handler of message 1 suspends, and the lane finds the mailbox empty. -/
def suspends : List (Label Nat Unit Bool) :=
  [Label.post false 1] ++ List.replicate 4 (Label.caller false) ++ [Label.select ()] ++
    List.replicate 12 (Label.worker () true) ++ [Label.suspend ()] ++ List.replicate 8 (Label.worker () true)

set_option maxRecDepth 4000 in
/-- Message 2 is posted to the parked lane before its re-probe. -/
theorem no_message_waiting_after_reprobe : ∃ s : State Nat Unit Bool,
    s.posted.length = 2 ∧ s.dequeued.length = 1 ∧ s.exec = .running ∧ NoneWaiting twoAtOnce s := by
  have hrun : (Machine.run (guarded (step twoAtOnce) (Sound twoAtOnce)) ({} : State Nat Unit Bool)
      (suspends ++ [Label.worker () true, Label.post false 2] ++ List.replicate 2 (Label.caller false) ++
        List.replicate 4 (Label.worker () true))).map
          (fun s => (s.posted.length, s.dequeued.length, s.exec)) = some (2, 1, .running) := by
    decide +kernel
  obtain ⟨s, hs, hview⟩ := Option.map_eq_some_iff.mp hrun
  simp only [Prod.mk.injEq] at hview
  obtain ⟨hposted, hdequeued, hexec⟩ := hview
  exact ⟨s, hposted, hdequeued, hexec, no_message_waiting twoAtOnce s (reach_of_run hs)⟩

set_option synthInstance.maxSize 400 in
set_option maxRecDepth 4000 in
/-- Message 2 is posted after the re-probe: one handler is in flight, two may be. -/
theorem waiting_behind_parked : ¬ ∀ s : State Nat Unit Bool,
    Reachable (step twoAtOnce) {} s → NoneWaiting twoAtOnce s := by
  intro hall
  have hrun : (Machine.run (step twoAtOnce) ({} : State Nat Unit Bool)
      (suspends ++ List.replicate 4 (Label.worker () true) ++ [Label.post false 2] ++
      List.replicate 2 (Label.caller false))).map
        (fun s => (s.caller false, s.caller true, s.worker (), s.sealState, s.exec,
          [s.live.length, s.posted.length, s.dequeued.length])) =
            some (.idle, .idle, .away, .opened, .parked, [1, 2, 1]) := by
    decide +kernel
  obtain ⟨s, hs, hview⟩ := Option.map_eq_some_iff.mp hrun
  simp only [Prod.mk.injEq, List.cons.injEq, and_true] at hview
  obtain ⟨hfalse, htrue, hworker, hopened, hexec, hlive, hposted, hdequeued⟩ := hview
  have hor := hall s (reachable_of_run hs) ?_ ?_ hopened ?_ ?_
  · rw [hexec] at hor
    rcases hor with hor | hor <;> cases hor
  · intro p
    cases p with
    | false => exact hfalse
    | true => exact htrue
  · intro w
    rw [hworker]
    exact id
  · rw [hlive]
    decide +kernel
  · intro heq
    rw [heq, hdequeued] at hposted
    cases hposted

end

end Quark.Reentrant
