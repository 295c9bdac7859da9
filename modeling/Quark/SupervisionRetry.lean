import Quark.Supervision

/-! What becomes of one message: it is reclaimed once with one outcome, its retries are charged one by one and
run on fresh state where there is a factory, and every frame is destroyed once. -/
namespace Quark.Supervision

open List Option State
open Reentrant (SupervisionDirective FailureSource Window)

namespace EventKind

def isOutcome : EventKind → Bool
  | .completed | .deadLettered _ => true
  | _ => false

def created? : EventKind → Option Nat
  | .created frame => some frame
  | _ => none

def destroyed? : EventKind → Option Nat
  | .destroyed frame => some frame
  | _ => none

end EventKind

/-- What the restart budget is spent on. -/
inductive Op
  | charge (granted : Bool)
  | reconstruct (wired : Bool)
  | retry (fresh : Bool)
  deriving DecidableEq, Repr

def EventKind.op? : EventKind → Option Op
  | .charged _ granted => some (.charge granted)
  | .reconstructed wired => some (.reconstruct wired)
  | .ran true fresh => some (.retry fresh)
  | _ => none

def created (kinds : List EventKind) : List Nat := kinds.filterMap EventKind.created?

def destroyed (kinds : List EventKind) : List Nat := kinds.filterMap EventKind.destroyed?

def ops (kinds : List EventKind) : List Op := kinds.filterMap EventKind.op?

def about (m : Nat) (log : List Event) : List EventKind := (log.filter fun ev => ev.msg = m).map Event.kind

/-- The same for each of `k` retries: one charge, one `reconstruct_now`, and the handler, on fresh state or not. -/
def retried (fresh : Bool) (k : Nat) : List Op :=
  (List.replicate k [.charge true, .reconstruct true, .retry fresh]).flatten

/-- At most `n` retries, and behind them the restart that was not followed by one, if there was one. -/
def Spent (fresh : Bool) (n : Nat) (os : List Op) : Prop :=
  ∃ k ≤ n, ∃ ending, os = retried fresh k ++ ending ∧
    (ending = [] ∨ ending = [.charge false] ∨ ending = [.charge true, .reconstruct false])

/-- `s'` is `s` after these events of the message `m`. -/
structure Path (m : Nat) (s s' : State) (kinds : List EventKind) : Prop where
  log_eq : s'.log = s.log ++ kinds.map (Event.mk m)
  dispatched_eq : s'.dispatched = s.dispatched
  parked_eq : s'.parked = s.parked
  factory_eq : s'.factory = s.factory
  frames_eq : s'.frames = s.frames + (created kinds).length
  created_eq : created kinds = List.range' s.frames (created kinds).length

section

variable {p : SupervisionPolicy} {fresh : Bool} {m : Nat} {s s' s'' : State} {ks ks' : List EventKind}

theorem Path.refl (m : Nat) (s : State) : Path m s s [] := by
  constructor <;> simp [created]

theorem created_append (ks ks' : List EventKind) : created (ks ++ ks') = created ks ++ created ks' :=
  filterMap_append

theorem destroyed_append (ks ks' : List EventKind) : destroyed (ks ++ ks') = destroyed ks ++ destroyed ks' :=
  filterMap_append

theorem ops_append (ks ks' : List EventKind) : ops (ks ++ ks') = ops ks ++ ops ks' := filterMap_append

theorem Path.trans (h : Path m s s' ks) (h' : Path m s' s'' ks') : Path m s s'' (ks ++ ks') where
  log_eq := by rw [h'.log_eq, h.log_eq, map_append, append_assoc]
  dispatched_eq := h'.dispatched_eq.trans h.dispatched_eq
  parked_eq := h'.parked_eq.trans h.parked_eq
  factory_eq := h'.factory_eq.trans h.factory_eq
  frames_eq := by
    rw [h'.frames_eq, h.frames_eq, created_append, length_append, add_assoc]
  created_eq := by
    have hsecond := h'.created_eq
    rw [h.frames_eq] at hsecond
    rw [created_append, length_append, ← range'_append_1, ← h.created_eq, ← hsecond]

theorem Path.counters (h : Path m s s' ks) (hlog : s''.log = s'.log) (hdispatched : s''.dispatched = s'.dispatched)
    (hparked : s''.parked = s'.parked) (hfactory : s''.factory = s'.factory) (hframes : s''.frames = s'.frames) :
    Path m s s'' ks where
  log_eq := hlog.trans h.log_eq
  dispatched_eq := hdispatched.trans h.dispatched_eq
  parked_eq := hparked.trans h.parked_eq
  factory_eq := hfactory.trans h.factory_eq
  frames_eq := hframes.trans h.frames_eq
  created_eq := h.created_eq

theorem Path.record (m : Nat) (s : State) {kind : EventKind} (hnot : kind.created? = none) :
    Path m s (s.record m kind) [kind] := by
  constructor <;> simp [State.record, created, hnot]

theorem Path.createdFrame (m : Nat) (s : State) :
    Path m s ({ s with frames := s.frames + 1 }.record m (.created s.frames)) [.created s.frames] := by
  constructor <;> simp [State.record, created, EventKind.created?]

theorem Path.counted (h : Path m s' s'' ks) (hlog : s'.log = s.log) (hdispatched : s'.dispatched = s.dispatched)
    (hparked : s'.parked = s.parked) (hfactory : s'.factory = s.factory) (hframes : s'.frames = s.frames) :
    Path m s s'' ks :=
  ((Path.refl m s).counters hlog hdispatched hparked hfactory hframes).trans h

theorem Path.deadLetter (m : Nat) (s : State) (err : Error) :
    Path m s (s.deadLetterAndReclaim m err) [.deadLettered err, .reclaimed] :=
  ((Path.record m _ rfl).trans (Path.record m _ rfl)).counted rfl rfl rfl rfl rfl

theorem Path.complete (m : Nat) (s : State) : Path m s (s.completeAndReclaim m) [.completed, .reclaimed] :=
  ((Path.record m _ rfl).trans (Path.record m _ rfl)).counted rfl rfl rfl rfl rfl

theorem Path.escalate (m : Nat) (s : State) : Path m s (s.doEscalate m) [.escalated] :=
  ((Path.record m _ rfl).counted rfl rfl rfl rfl rfl).counters rfl rfl rfl rfl rfl

theorem Path.charge (p : SupervisionPolicy) (m : Nat) (s : State) (now : Int) :
    Path m s (s.chargeRestart p m now).2 [.charged now (s.chargeRestart p m now).1] :=
  (Path.record m _ rfl).counted rfl rfl rfl rfl rfl

theorem Path.reconstruct (m : Nat) (s : State) (wired : Bool) :
    Path m s (s.reconstructNow m wired) (.reconstructed wired :: if wired then [] else [.escalated]) := by
  have hrecord : Path m s ({ s with used := s.used && !s.factory }.record m (.reconstructed wired))
      [.reconstructed wired] := (Path.record m _ rfl).counted rfl rfl rfl rfl rfl
  cases wired with
  | true => exact hrecord
  | false => exact hrecord.trans (Path.escalate m _)

def Outcome.async : Outcome → Bool
  | .returned | .threw _ => false
  | .asyncDone | .asyncFaulted _ | .suspended => true

theorem Path.run (m : Nat) (s : State) (retry : Bool) (outcome : Outcome) :
    Path m s (s.run m retry outcome)
      (.ran retry (!s.used) :: if outcome.async then [.created s.frames] else []) := by
  have hrecord : Path m s ({ s with used := true }.record m (.ran retry (!s.used))) [.ran retry (!s.used)] :=
    (Path.record m _ rfl).counted rfl rfl rfl rfl rfl
  cases outcome with
  | returned => exact hrecord
  | threw resource => exact hrecord
  | asyncDone => exact hrecord.trans (Path.createdFrame m _)
  | asyncFaulted resource => exact hrecord.trans (Path.createdFrame m _)
  | suspended => exact hrecord.trans (Path.createdFrame m _)

theorem Path.destroy (m : Nat) (s : State) (frame : Nat) : Path m s (s.destroy m frame) [.destroyed frame] :=
  Path.record m s rfl

/-- The message is done with: one outcome, one reclamation, at most `n` retries, and no frame left. -/
structure Resolves (fresh : Bool) (n : Nat) (ks : List EventKind) : Prop where
  reclaimed_once : ks.count .reclaimed = 1
  outcome_once : ks.countP EventKind.isOutcome = 1
  spent : Spent fresh n (ops ks)
  destroyed_eq : destroyed ks = created ks

theorem Spent.retry {n : Nat} {os : List Op} (h : Spent fresh n os) :
    Spent fresh (n + 1) ([.charge true, .reconstruct true, .retry fresh] ++ os) := by
  obtain ⟨k, hk, ending, rfl, hending⟩ := h
  refine ⟨k + 1, by omega, ending, ?_, hending⟩
  rw [retried, retried, replicate_succ, flatten_cons, append_assoc]

theorem Spent.ending {ending : List Op} (n : Nat)
    (h : ending = [] ∨ ending = [.charge false] ∨ ending = [.charge true, .reconstruct false]) :
    Spent fresh n ending :=
  ⟨0, Nat.zero_le n, ending, rfl, h⟩

/-- What a retry that did not settle the message adds in front of what follows. -/
structure Failed (fresh : Bool) (ks : List EventKind) : Prop where
  reclaimed_none : ks.count .reclaimed = 0
  outcome_none : ks.countP EventKind.isOutcome = 0
  ops_eq : ops ks = [.charge true, .reconstruct true, .retry fresh]
  destroyed_eq : destroyed ks = created ks

theorem Failed.resolves {n : Nat} (h : Failed fresh ks) (h' : Resolves fresh n ks') :
    Resolves fresh (n + 1) (ks ++ ks') where
  reclaimed_once := by rw [count_append, h.reclaimed_none, h'.reclaimed_once]
  outcome_once := by rw [countP_append, h.outcome_none, h'.outcome_once]
  spent := by
    rw [ops_append, h.ops_eq]
    exact h'.spent.retry
  destroyed_eq := by rw [destroyed_append, created_append, h.destroyed_eq, h'.destroyed_eq]

theorem Failed.sync (fresh : Bool) (now : Int) :
    Failed fresh [.charged now true, .reconstructed true, .ran true fresh] := ⟨rfl, rfl, rfl, rfl⟩

theorem Failed.async (fresh : Bool) (now : Int) (frame : Nat) :
    Failed fresh [.charged now true, .reconstructed true, .ran true fresh, .created frame, .destroyed frame] :=
  ⟨rfl, rfl, rfl, rfl⟩

theorem Resolves.completed (n : Nat) : Resolves fresh n [.completed, .reclaimed] :=
  ⟨rfl, rfl, .ending n (Or.inl rfl), rfl⟩

theorem stopped_reconstruct (s : State) (m : Nat) (wired : Bool) :
    (s.reconstructNow m wired).stopped = (s.stopped || !wired) := by
  cases wired <;> cases hs : s.stopped <;> simp [reconstructNow, record, doEscalate, doStop, hs]

theorem stopped_run (s : State) (m : Nat) (retry : Bool) (outcome : Outcome) :
    (s.run m retry outcome).stopped = s.stopped := by
  cases outcome <;> rfl

theorem used_run (s : State) (m : Nat) (retry : Bool) (outcome : Outcome) : (s.run m retry outcome).used = true := by
  cases outcome <;> rfl

theorem Path.attempt (m : Nat) (outcome : Outcome) (hused : s.used = true) :
    Path m s ((s.countRestart.reconstructNow m true).run m true outcome)
      (.reconstructed true :: .ran true s.factory :: if outcome.async then [.created s.frames] else []) := by
  have hfresh : (!(s.countRestart.reconstructNow m true).used) = s.factory := by
    change (!(s.used && !s.factory)) = s.factory
    rw [hused, Bool.true_and, Bool.not_not]
  have hran := Path.run m (s.countRestart.reconstructNow m true) true outcome
  rw [hfresh] at hran
  exact ((Path.reconstruct m s.countRestart true).trans hran).counted rfl rfl rfl rfl rfl

/-- The retry loop settles the message with at most the attempts it has left. -/
theorem handleRestartRetry_path (p : SupervisionPolicy) (m : Nat) (attempts : Nat → Attempt) (left attempt : Nat)
    (err : Error) (s : State) (hrunning : s.stopped = false) (hused : s.used = true) :
    ∃ ks, Path m s (s.handleRestartRetry p m attempts left attempt err) ks ∧ Resolves s.factory left ks := by
  induction left generalizing attempt err s with
  | zero => exact ⟨_, Path.deadLetter m s err, rfl, rfl, .ending 0 (Or.inl rfl), rfl⟩
  | succ left ih =>
    rw [handleRestartRetry]
    have hcharge := Path.charge p m s (attempts attempt).now
    have hstopped : (s.chargeRestart p m (attempts attempt).now).2.stopped = false := hrunning
    have hused₁ : (s.chargeRestart p m (attempts attempt).now).2.used = true := hused
    rw [← hcharge.factory_eq]
    generalize s.chargeRestart p m (attempts attempt).now = charge at hcharge hstopped hused₁
    obtain ⟨granted, s₁⟩ := charge
    cases granted with
    | false =>
      -- the budget is exhausted: the outcome before the escalation
      refine ⟨_, hcharge.trans ((Path.deadLetter m s₁ err).trans (Path.escalate m _)), rfl, rfl, ?_, rfl⟩
      exact .ending _ (Or.inr (Or.inl rfl))
    | true =>
      simp only [stopped_reconstruct]
      cases hwired : (attempts attempt).wired with
      | false =>
        have hnew := (Path.reconstruct m s₁.countRestart false).counted (s := s₁) rfl rfl rfl rfl rfl
        rw [if_pos (by simp)]
        refine ⟨_, hcharge.trans (hnew.trans (Path.deadLetter m _ err)), rfl, rfl, ?_, rfl⟩
        exact .ending _ (Or.inr (Or.inr rfl))
      | true =>
        have hattempt := Path.attempt (s := s₁) m (attempts attempt).outcome hused₁
        have hran := hcharge.trans hattempt
        have hused₂ := used_run (s₁.countRestart.reconstructNow m true) m true (attempts attempt).outcome
        have hrunning' : ((s₁.countRestart.reconstructNow m true).run m true
            (attempts attempt).outcome).stopped = false := by
          rw [stopped_run, stopped_reconstruct]
          exact Bool.or_eq_false_iff.mpr ⟨hstopped, rfl⟩
        have hframe : (s₁.countRestart.reconstructNow m true).frames = s₁.frames := rfl
        have hcount : s₁.countRestart.stopped = false := hstopped
        rw [if_neg (by simp [hcount]), hframe]
        have hfactory := hattempt.factory_eq
        generalize (s₁.countRestart.reconstructNow m true).run m true (attempts attempt).outcome = s₂
          at hran hrunning' hused₂ hfactory
        cases houtcome : (attempts attempt).outcome with
        | returned =>
          rw [houtcome] at hran
          exact ⟨_, hran.trans (Path.complete m s₂), (Failed.sync _ _).resolves (.completed left)⟩
        | threw resource =>
          rw [houtcome] at hran
          obtain ⟨ks, hpath, hresolves⟩ := ih (attempt + 1) (classifyFault resource).2 s₂.countFault hrunning' hused₂
          rw [show s₂.countFault.factory = s₁.factory from hfactory] at hresolves
          exact ⟨_, hran.trans (hpath.counted rfl rfl rfl rfl rfl), (Failed.sync _ _).resolves hresolves⟩
        | asyncDone =>
          rw [houtcome] at hran
          exact ⟨_, (hran.trans (Path.destroy m s₂ s₁.frames)).trans (Path.complete m _),
            (Failed.async _ _ s₁.frames).resolves (.completed left)⟩
        | asyncFaulted resource =>
          rw [houtcome] at hran
          obtain ⟨ks, hpath, hresolves⟩ := ih (attempt + 1) (classifyFault resource).2
            (s₂.destroy m s₁.frames).countFault hrunning' hused₂
          rw [show (s₂.destroy m s₁.frames).countFault.factory = s₁.factory from hfactory] at hresolves
          exact ⟨_, (hran.trans (Path.destroy m s₂ s₁.frames)).trans (hpath.counted rfl rfl rfl rfl rfl),
            (Failed.async _ _ s₁.frames).resolves hresolves⟩
        | suspended =>
          rw [houtcome] at hran
          obtain ⟨ks, hpath, hresolves⟩ := ih (attempt + 1) ⟨.internal, "retry_async_unsupported"⟩
            (s₂.destroy m s₁.frames).countFault hrunning' hused₂
          rw [show (s₂.destroy m s₁.frames).countFault.factory = s₁.factory from hfactory] at hresolves
          exact ⟨_, (hran.trans (Path.destroy m s₂ s₁.frames)).trans (hpath.counted rfl rfl rfl rfl rfl),
            (Failed.async _ _ s₁.frames).resolves hresolves⟩

/-- What is to hold of the events of a message that is done with. -/
structure Settled (p : SupervisionPolicy) (fresh : Bool) (ks : List EventKind) : Prop where
  reclaimed_once : ks.count .reclaimed = 1
  outcome_once : ks.countP EventKind.isOutcome = 1
  budgeted : Spent fresh p.maxAskRetries (ops ks) ∨
    p.maxAskRetries = 0 ∧ ops ks = [.charge true, .reconstruct true]
  destroyed_eq : destroyed ks = created ks

theorem Resolves.settled (h : Resolves fresh p.maxAskRetries ks) : Settled p fresh ks :=
  ⟨h.reclaimed_once, h.outcome_once, Or.inl h.spent, h.destroyed_eq⟩

theorem doRestart_path (p : SupervisionPolicy) (m : Nat) (s : State) (a : Attempt) :
    ∃ ks, Path m s (s.doRestart p m a) ks ∧ ks.count .reclaimed = 0 ∧ ks.countP EventKind.isOutcome = 0 ∧
      (ops ks = [.charge false] ∨ ∃ wired, ops ks = [.charge true, .reconstruct wired]) ∧
      destroyed ks = created ks := by
  rw [doRestart]
  have hcharge := Path.charge p m s a.now
  generalize s.chargeRestart p m a.now = charge at hcharge
  obtain ⟨granted, s₁⟩ := charge
  cases granted with
  | false => exact ⟨_, hcharge.trans (Path.escalate m s₁), rfl, rfl, Or.inl rfl, rfl⟩
  | true =>
    have hnew := (Path.reconstruct m s₁.countRestart a.wired).counted (s := s₁) rfl rfl rfl rfl rfl
    refine ⟨_, hcharge.trans hnew, ?_⟩
    cases a.wired with
    | false => exact ⟨rfl, rfl, Or.inr ⟨false, rfl⟩, rfl⟩
    | true => exact ⟨rfl, rfl, Or.inr ⟨true, rfl⟩, rfl⟩

theorem onFaultSequential_path (p : SupervisionPolicy) (m : Nat) (attempts : Nat → Attempt) (src : FailureSource)
    (err : Error) (s : State) (hrunning : s.stopped = false) (hused : s.used = true) :
    ∃ ks, Path m s (s.onFaultSequential p m attempts src err) ks ∧ Settled p s.factory ks := by
  rw [onFaultSequential]
  have hdead : Path m s (s.countFault.deadLetterAndReclaim m err) [.deadLettered err, .reclaimed] :=
    (Path.deadLetter m _ err).counted rfl rfl rfl rfl rfl
  have halone : Settled p s.factory [.deadLettered err, .reclaimed] :=
    ⟨rfl, rfl, Or.inl (.ending _ (Or.inl rfl)), rfl⟩
  split
  · obtain ⟨ks, hpath, hresolves⟩ :=
      handleRestartRetry_path p m attempts p.maxAskRetries 0 err s.countFault hrunning hused
    exact ⟨ks, hpath.counted rfl rfl rfl rfl rfl, hresolves.settled⟩
  · next hnot =>
    simp only
    split
    · exact ⟨_, hdead, halone⟩
    · next htransient =>
      cases hdecision : p.decision with
      | resume => exact ⟨_, hdead, halone⟩
      | stop => exact ⟨_, hdead.counters rfl rfl rfl rfl rfl, halone⟩
      | escalate =>
        exact ⟨_, hdead.trans (Path.escalate m _), rfl, rfl, Or.inl (.ending _ (Or.inl rfl)), rfl⟩
      | restart =>
        have hzero : p.maxAskRetries = 0 := by
          by_contra hpos
          exact hnot ⟨by omega, hdecision, by simpa using htransient⟩
        obtain ⟨ks, hpath, hreclaimed, houtcome, hops, hframes⟩ :=
          doRestart_path p m (s.countFault.deadLetterAndReclaim m err) (attempts 0)
        refine ⟨_, hdead.trans hpath, ?_, ?_, ?_, ?_⟩
        · rw [count_append, hreclaimed]
          rfl
        · rw [countP_append, houtcome]
          rfl
        · rw [ops_append]
          rcases hops with hops | ⟨wired, hops⟩
          · rw [hops]
            exact Or.inl (.ending _ (Or.inr (Or.inl rfl)))
          · rw [hops]
            cases wired with
            | false => exact Or.inl (.ending _ (Or.inr (Or.inr rfl)))
            | true => exact Or.inr ⟨hzero, rfl⟩
        · rw [destroyed_append, created_append, hframes]
          rfl

/-- The events of the first attempt say nothing of an outcome or of the budget. -/
structure Opening (ks : List EventKind) : Prop where
  reclaimed_none : ks.count .reclaimed = 0
  outcome_none : ks.countP EventKind.isOutcome = 0
  ops_none : ops ks = []

theorem Opening.settled (h : Opening ks) (hframes : destroyed ks = created ks) (h' : Settled p fresh ks') :
    Settled p fresh (ks ++ ks') where
  reclaimed_once := by rw [count_append, h.reclaimed_none, h'.reclaimed_once]
  outcome_once := by rw [countP_append, h.outcome_none, h'.outcome_once]
  budgeted := by
    rw [ops_append, h.ops_none, nil_append]
    exact h'.budgeted
  destroyed_eq := by rw [destroyed_append, created_append, hframes, h'.destroyed_eq]

end

/-- What is to hold of the activation between its steps. -/
structure Sound (p : SupervisionPolicy) (factory : Bool) (s : State) : Prop where
  factory_eq : s.factory = factory
  later : ∀ m, s.dispatched ≤ m → about m s.log = []
  settled : ∀ m < s.dispatched, (∀ frame, s.parked ≠ some (m, frame)) → Settled p factory (about m s.log)
  pending : ∀ m frame, s.parked = some (m, frame) →
    m < s.dispatched ∧ s.stopped = false ∧ s.used = true ∧ ∃ fresh, about m s.log = [.ran false fresh, .created frame]
  created_eq : created (s.log.map Event.kind) = List.range s.frames
  destroyed_eq : destroyed (s.log.map Event.kind) ++ (s.parked.map Prod.snd).toList = List.range s.frames

section

variable {p : SupervisionPolicy} {factory : Bool} {m : Nat} {s s' : State} {ks : List EventKind}

theorem about_append (m : Nat) (log log' : List Event) : about m (log ++ log') = about m log ++ about m log' := by
  rw [about, about, about, filter_append, map_append]

theorem about_own (m : Nat) (ks : List EventKind) : about m (ks.map (Event.mk m)) = ks := by
  induction ks with
  | nil => rfl
  | cons k ks ih =>
    rw [about] at ih ⊢
    simp only [map_cons, filter_cons, decide_true, if_true, ih]

theorem about_other {m other : Nat} (h : other ≠ m) (ks : List EventKind) :
    about other (ks.map (Event.mk m)) = [] := by
  induction ks with
  | nil => rfl
  | cons k ks ih =>
    rw [about] at ih ⊢
    simp only [map_cons, filter_cons, decide_eq_true_eq, if_neg (Ne.symm h), ih]

theorem Path.about_own (h : Path m s s' ks) : about m s'.log = about m s.log ++ ks := by
  rw [h.log_eq, about_append, Supervision.about_own]

theorem Path.about_other (h : Path m s s' ks) {other : Nat} (hne : other ≠ m) :
    about other s'.log = about other s.log := by
  rw [h.log_eq, about_append, Supervision.about_other hne, append_nil]

theorem Path.kinds (h : Path m s s' ks) : s'.log.map Event.kind = s.log.map Event.kind ++ ks := by
  rw [h.log_eq, List.map_append, List.map_map]
  simp [Function.comp_def]

theorem claimed_log (s : State) : s.claimed.log = s.log := rfl

theorem range_append (a n : Nat) : List.range a ++ List.range' a n = List.range (a + n) := by
  have happend := range'_append_1 (s := 0) (m := a) (n := n)
  rwa [zero_add, ← range_eq_range', ← range_eq_range'] at happend

theorem Sound.initial (p : SupervisionPolicy) (factory : Bool) : Sound p factory { factory } where
  factory_eq := rfl
  later _ _ := rfl
  settled m hm := absurd hm (Nat.not_lt_zero m)
  pending _ _ hparked := by cases hparked
  created_eq := rfl
  destroyed_eq := rfl

theorem Sound.dispatched (h : Sound p factory s) (hparked : s.parked = none)
    (hpath : Path s.dispatched s.claimed s' ks) (hsettled : Settled p factory ks) :
    Sound p factory s' := by
  have hparked' : s'.parked = none := hpath.parked_eq.trans hparked
  have hnew : about s.dispatched s'.log = about s.dispatched s.log ++ _ := hpath.about_own
  rw [h.later s.dispatched le_rfl, nil_append] at hnew
  constructor
  · exact hpath.factory_eq.trans h.factory_eq
  · intro m hm
    rw [hpath.dispatched_eq] at hm
    change s.dispatched + 1 ≤ m at hm
    rw [hpath.about_other (by omega)]
    exact h.later m (by omega)
  · intro m hm _
    rw [hpath.dispatched_eq] at hm
    change m < s.dispatched + 1 at hm
    by_cases hm' : m = s.dispatched
    · rw [hm', hnew]
      exact hsettled
    · rw [hpath.about_other hm']
      exact h.settled m (by omega) fun frame hsome => by rw [hparked] at hsome; cases hsome
  · intro m frame hsome
    rw [hparked'] at hsome
    cases hsome
  · rw [hpath.kinds, claimed_log, created_append, h.created_eq, hpath.created_eq, hpath.frames_eq]
    exact range_append _ _
  · have hdestroyed := h.destroyed_eq
    rw [hparked, map_none, toList_none, append_nil] at hdestroyed
    rw [hparked', map_none, toList_none, append_nil, hpath.kinds, claimed_log, destroyed_append, hdestroyed,
      hsettled.destroyed_eq, hpath.created_eq, hpath.frames_eq]
    exact range_append _ _

theorem Sound.parks (h : Sound p factory s) (hparked : s.parked = none) {s' : State} {fresh : Bool}
    (hpath : Path s.dispatched s.claimed s' [.ran false fresh, .created s.frames])
    (hrunning' : s'.stopped = false) (hused' : s'.used = true) :
    Sound p factory { s' with parked := some (s.dispatched, s.frames) } := by
  have hnew : about s.dispatched s'.log = about s.dispatched s.log ++ _ := hpath.about_own
  rw [h.later s.dispatched le_rfl, nil_append] at hnew
  have hframes : s'.frames = s.frames + 1 := hpath.frames_eq
  constructor
  · exact hpath.factory_eq.trans h.factory_eq
  · intro m hm
    change s'.dispatched ≤ m at hm
    rw [hpath.dispatched_eq] at hm
    change s.dispatched + 1 ≤ m at hm
    rw [hpath.about_other (by omega)]
    exact h.later m (by omega)
  · intro m hm hnot
    change m < s'.dispatched at hm
    rw [hpath.dispatched_eq] at hm
    change m < s.dispatched + 1 at hm
    have hm' : m ≠ s.dispatched := by
      intro heq
      exact hnot s.frames (by rw [heq])
    rw [hpath.about_other hm']
    exact h.settled m (by omega) fun frame hsome => by rw [hparked] at hsome; cases hsome
  · intro m frame hsome
    cases hsome
    refine ⟨?_, hrunning', hused', fresh, hnew⟩
    change s.dispatched < s'.dispatched
    rw [hpath.dispatched_eq]
    exact Nat.lt_succ_self _
  · rw [hpath.kinds, claimed_log, created_append, h.created_eq, hframes, range_succ]
    rfl
  · have hdestroyed := h.destroyed_eq
    rw [hparked, map_none, toList_none, append_nil] at hdestroyed
    rw [hpath.kinds, claimed_log, destroyed_append, hdestroyed, hframes, range_succ]
    simp [destroyed, EventKind.destroyed?]

theorem Sound.resumed (h : Sound p factory s) {frame : Nat} (hparked : s.parked = some (m, frame))
    (hpath : Path m { s with parked := none } s' (.destroyed frame :: ks)) (hsettled : Settled p factory ks) :
    Sound p factory s' := by
  obtain ⟨hm, _, _, fresh, habout⟩ := h.pending m frame hparked
  have hparked' : s'.parked = none := hpath.parked_eq
  have hnew := hpath.about_own
  rw [habout] at hnew
  have hopening : Opening [.ran false fresh, .created frame, .destroyed frame] := ⟨rfl, rfl, rfl⟩
  have hdispatched : s'.dispatched = s.dispatched := hpath.dispatched_eq
  have hcreated : created (EventKind.destroyed frame :: ks) = created ks := rfl
  have hcreated_eq := hpath.created_eq
  have hframes := hpath.frames_eq
  rw [hcreated] at hcreated_eq hframes
  constructor
  · exact hpath.factory_eq.trans h.factory_eq
  · intro other hother
    rw [hdispatched] at hother
    rw [hpath.about_other (by omega)]
    exact h.later other hother
  · intro other hother _
    rw [hdispatched] at hother
    by_cases hne : other = m
    · rw [hne, hnew]
      exact hopening.settled rfl hsettled
    · rw [hpath.about_other hne]
      exact h.settled other hother fun f hsome => by
        rw [hparked] at hsome
        cases hsome
        exact hne rfl
  · intro other f hsome
    rw [hparked'] at hsome
    cases hsome
  · rw [hpath.kinds, created_append, h.created_eq, hcreated, hcreated_eq, hframes]
    exact range_append _ _
  · have hdestroyed := h.destroyed_eq
    rw [hparked] at hdestroyed
    change destroyed (s.log.map Event.kind) ++ [frame] = _ at hdestroyed
    have hsplit : destroyed (EventKind.destroyed frame :: ks) = [frame] ++ destroyed ks := rfl
    rw [hparked', map_none, toList_none, append_nil, hpath.kinds, destroyed_append, hsplit,
      ← append_assoc, hdestroyed, hsettled.destroyed_eq, hcreated_eq, hframes]
    exact range_append _ _

theorem Sound.dispatch (h : Sound p factory s) (hparked : s.parked = none) (outcome : Outcome)
    (attempts : Nat → Attempt) : Sound p factory (s.dispatch p outcome attempts) := by
  have halone : ∀ err, Settled p factory [.deadLettered err, .reclaimed] :=
    fun err => ⟨rfl, rfl, Or.inl (.ending _ (Or.inl rfl)), rfl⟩
  have hran := Path.run s.dispatched s.claimed false outcome
  have hkept := stopped_run s.claimed s.dispatched false outcome
  have hused := used_run s.claimed s.dispatched false outcome
  rw [State.dispatch]
  cases hstopped : s.claimed.stopped with
  | true =>
    rw [if_pos rfl]
    exact h.dispatched hparked (Path.deadLetter _ _ _) (halone _)
  | false =>
    have hframe : s.claimed.frames = s.frames := rfl
    rw [hstopped] at hkept
    simp only [Bool.false_eq_true, if_false, hframe]
    have hfactory := hran.factory_eq.trans h.factory_eq
    generalize s.claimed.run s.dispatched false outcome = s₁ at hran hkept hused hfactory
    cases outcome with
    | returned =>
      have hdone : Settled p factory [.completed, .reclaimed] := (Resolves.completed _).settled
      have hopening : Opening [.ran false (!s.used)] := ⟨rfl, rfl, rfl⟩
      exact h.dispatched hparked (hran.trans (Path.complete _ s₁)) (hopening.settled rfl hdone)
    | threw resource =>
      obtain ⟨ks, hpath, hsettled⟩ := onFaultSequential_path p s.dispatched attempts (classifyFault resource).1
        (classifyFault resource).2 s₁ hkept hused
      rw [hfactory] at hsettled
      have hopening : Opening [.ran false (!s.used)] := ⟨rfl, rfl, rfl⟩
      exact h.dispatched hparked (hran.trans hpath) (hopening.settled rfl hsettled)
    | asyncDone =>
      have hdone : Settled p factory [.completed, .reclaimed] := (Resolves.completed _).settled
      have hopening : Opening [.ran false (!s.used), .created s.frames, .destroyed s.frames] := ⟨rfl, rfl, rfl⟩
      exact h.dispatched hparked ((hran.trans (Path.destroy _ s₁ s.frames)).trans (Path.complete _ _))
        (hopening.settled rfl hdone)
    | asyncFaulted resource =>
      obtain ⟨ks, hpath, hsettled⟩ := onFaultSequential_path p s.dispatched attempts (classifyFault resource).1
        (classifyFault resource).2 (s₁.destroy s.dispatched s.frames) hkept hused
      rw [show (s₁.destroy s.dispatched s.frames).factory = factory from hfactory] at hsettled
      have hopening : Opening [.ran false (!s.used), .created s.frames, .destroyed s.frames] := ⟨rfl, rfl, rfl⟩
      exact h.dispatched hparked ((hran.trans (Path.destroy _ s₁ s.frames)).trans hpath)
        (hopening.settled rfl hsettled)
    | suspended => exact h.parks hparked hran hkept hused

theorem Sound.completeParked (h : Sound p factory s) {frame : Nat} (hparked : s.parked = some (m, frame))
    (resumption : Resumption) (attempts : Nat → Attempt) :
    Sound p factory (s.completeParked p m frame resumption attempts) := by
  obtain ⟨_, hrunning, hused, _⟩ := h.pending m frame hparked
  have hfault : ∀ src err, Sound p factory
      (({ s with parked := none }.destroy m frame).onFaultSequential p m attempts src err) := by
    intro src err
    obtain ⟨ks, hpath, hsettled⟩ := onFaultSequential_path p m attempts src err
      ({ s with parked := none }.destroy m frame) hrunning hused
    have hfactory : (({ s with parked := none } : State).destroy m frame).factory = factory := h.factory_eq
    rw [hfactory] at hsettled
    exact h.resumed hparked ((Path.destroy m _ frame).trans hpath) hsettled
  cases resumption with
  | suspendedAgain => exact h
  | done =>
    have hdone : Settled p factory [.completed, .reclaimed] := (Resolves.completed _).settled
    exact h.resumed hparked ((Path.destroy m _ frame).trans (Path.complete m _)) hdone
  | faulted resource => exact hfault _ _
  | threw => exact hfault _ _

theorem Sound.step (h : Sound p factory s) (label : Label) : Sound p factory (step p s label) := by
  cases label with
  | dispatch outcome attempts =>
    cases hparked : s.parked with
    | none =>
      rw [Supervision.step, hparked]
      exact h.dispatch hparked outcome attempts
    | some parked =>
      rw [Supervision.step, hparked]
      exact h
  | resume resumption attempts =>
    cases hparked : s.parked with
    | none =>
      rw [Supervision.step, hparked]
      exact h
    | some parked =>
      rw [Supervision.step, hparked]
      exact h.completeParked hparked resumption attempts

theorem sound_run (p : SupervisionPolicy) (factory : Bool) (labels : List Label) :
    Sound p factory (run p factory labels) := by
  induction labels using List.reverseRecOn with
  | nil => exact .initial p factory
  | append_singleton labels label ih =>
    rw [run, foldl_append]
    exact ih.step label

end

/-- Whatever the attempts come to: a message that was dispatched and is not parked has been reclaimed once and
has one outcome. It was retried at most as often as the policy says, each retry behind one charge of the
budget, and on fresh state if there is a factory, else on the state that the attempts before it left. Every frame
but the parked one is destroyed, none of them twice. -/
theorem message_settles_once (p : SupervisionPolicy) (factory : Bool) (labels : List Label) :
    let s := run p factory labels
    (∀ m < s.dispatched, (∀ frame, s.parked ≠ some (m, frame)) → Settled p factory (about m s.log)) ∧
    created (s.log.map Event.kind) = List.range s.frames ∧
    destroyed (s.log.map Event.kind) ++ (s.parked.map Prod.snd).toList = List.range s.frames :=
  have h := sound_run p factory labels
  ⟨h.settled, h.created_eq, h.destroyed_eq⟩

def secondRetry : Label :=
  .dispatch (.threw none) fun attempt => { now := attempt, outcome := if attempt = 0 then .suspended else .returned }

theorem message_settles_once_second_retry :
    Settled { maxAskRetries := 2 } true (about 0 (run { maxAskRetries := 2 } true [secondRetry]).log) :=
  (message_settles_once { maxAskRetries := 2 } true [secondRetry]).1 0 (by decide) nofun

/-- Without a factory both retries run on the instance that the first attempt left. -/
theorem retries_keep_state : ops (about 0 (run { maxAskRetries := 2 } false [secondRetry]).log) =
    [.charge true, .reconstruct true, .retry false, .charge true, .reconstruct true, .retry false] := by
  decide +kernel

end Quark.Supervision
