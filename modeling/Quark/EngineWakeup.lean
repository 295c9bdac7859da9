import Quark.Engine

/-! No scheduled activation is stranded behind sleeping workers, unless a drain gives up a shard while the
tail of one of its queues is on the stub and activations wait in front of it. -/
namespace Quark.Engine

open Function List Machine State Vyukov

variable {S A P : Type} {cfg : Config S A}

namespace WorkerPc

/-- The shard whose `drain_owner` the worker holds. -/
def session : WorkerPc cfg → Option cfg.Shard
  | .select d | .hints d _ _ | .pop d _ _ | .run d _ | .requeue d _ | .requeueLink d _ | .release d => some d.sh
  | _ => none

/-- The value of `wake_seq` that a worker with its bit announced will wait on. -/
def parkedSeq : WorkerPc cfg → Option UInt32
  | .rescan seq _ | .asleep seq => some seq
  | _ => none

def Missed (k : cfg.Slot) : WorkerPc cfg → Prop
  | .rescan _ todo => k ∉ todo
  | .asleep _ => True
  | _ => False

def releasing : WorkerPc cfg → Option cfg.Shard
  | .release d => some d.sh
  | _ => none

theorem not_missed {pc : WorkerPc cfg} (h : pc.parkedSeq = none) (k : cfg.Slot) : ¬ pc.Missed k := by
  intro hmissed
  cases pc with
  | rescan seq todo | asleep seq => cases h
  | _ => cases hmissed

theorem parkedSeq_session {pc : WorkerPc cfg} {sh : cfg.Shard} (h : pc.session = some sh) :
    pc.parkedSeq = none := by
  cases pc with
  | rescan seq todo | asleep seq => cases h
  | _ => rfl

end WorkerPc

theorem selected_session (d : Session cfg) (busy : Bool) : (selected d busy).session = some d.sh := by
  unfold selected
  split <;> rfl

theorem nextAttempt_session (d : Session cfg) (a : Attempt cfg) : (nextAttempt d a).session = some d.sh := by
  unfold nextAttempt
  split
  · split
    · rfl
    · exact selected_session d _
  · exact selected_session d _

theorem drainedShard_session (w : cfg.Worker) (d : Session cfg) : (drainedShard w d).session = none := by
  unfold drainedShard
  split <;> rfl

theorem drainedShard_parkedSeq (w : cfg.Worker) (d : Session cfg) : (drainedShard w d).parkedSeq = none := by
  unfold drainedShard
  split <;> rfl

theorem spinOrPark_session (left : Nat) : (spinOrPark left : WorkerPc cfg).session = none := by
  cases left <;> rfl

theorem spinOrPark_parkedSeq (left : Nat) : (spinOrPark left : WorkerPc cfg).parkedSeq = none := by
  cases left <;> rfl

def ProducerPc.Waking : ProducerPc cfg → Prop
  | .linking _ | .wakeLoad | .wakeCas _ _ => True
  | .idle | .wakeBump _ => False

/-- The worker whose `wake_seq` the producer is about to bump. -/
def ProducerPc.bumping : ProducerPc cfg → Option cfg.Worker
  | .wakeBump w => some w
  | _ => none

namespace State

def Visible (s : State cfg P) (k : cfg.Slot) : Prop := (s.q k).tail = .stub → s.scheduled k = s.popped k

/-- A wait on `seq` returns: the word has changed or a producer is about to change it. -/
def Bumped (s : State cfg P) (w : cfg.Worker) (seq : UInt32) : Prop :=
  s.wakeSeq w ≠ seq ∨ ∃ p, s.producer p = .wakeBump w

def Alert (s : State cfg P) (w : cfg.Worker) (k : cfg.Slot) : Prop :=
  (s.worker w).Missed k → ∀ seq, (s.worker w).parkedSeq = some seq → s.Bumped w seq

end State

structure Inv (s : State cfg P) : Prop where
  owner : ∀ w sh, (s.worker w).session = some sh ↔ s.drainOwner sh = .worker w
  visible : ∀ k, (∀ w, s.drainOwner k.1 ≠ .worker w) → s.Visible k
  announced : ∀ w seq, (s.worker w).parkedSeq = some seq → s.idleMask w = true ∨ s.Bumped w seq
  covered : ∀ k, s.scheduled k ≠ s.popped k → (∃ p, (s.producer p).Waking) ∨ ∃ w, s.Alert w k

theorem Inv.initial : Inv ({} : State cfg P) := by
  constructor
  · intro w sh
    constructor
    · intro h
      cases h
    · intro h
      cases h
  · intro k _ _
    rfl
  · intro w seq h
    cases h
  · intro k h
    exact absurd rfl h

variable {s s' : State cfg P} {w : cfg.Worker} {p : P}

/-- With no bit in the mask, no worker sleeps through what has been enqueued. -/
theorem Inv.alert_of_lowest (h : Inv s) (hnone : lowest s.idleMask = none) (w : cfg.Worker) (k : cfg.Slot) :
    s.Alert w k := by
  intro _ seq hseq
  rcases h.announced w seq hseq with hmask | hbumped
  · exact absurd hmask (find?_eq_none.mp hnone w (mem_finRange w))
  · exact hbumped

section

variable [DecidableEq P]

theorem State.Bumped.setProducer {seq : UInt32} {pc : ProducerPc cfg} (h : s.Bumped w seq)
    (hp : ∀ w, s.producer p ≠ .wakeBump w) : (s.setProducer p pc).Bumped w seq := by
  rcases h with hseq | ⟨p', hp'⟩
  · exact Or.inl hseq
  · have hne : p' ≠ p := by
      rintro rfl
      exact hp w hp'
    exact Or.inr ⟨p', (update_of_ne hne _ _).trans hp'⟩

theorem Inv.announced_setProducer {pc : ProducerPc cfg} (h : Inv s) (hp : ∀ w, s.producer p ≠ .wakeBump w)
    (w : cfg.Worker) (seq : UInt32) (hseq : (s.worker w).parkedSeq = some seq) :
    s.idleMask w = true ∨ (s.setProducer p pc).Bumped w seq := by
  rcases h.announced w seq hseq with hmask | hbumped
  · exact Or.inl hmask
  · exact Or.inr (hbumped.setProducer hp)

theorem Inv.wakeOne (h : Inv s) (hp : ∀ w, s.producer p ≠ .wakeBump w) :
    Inv (s.setProducer p (Engine.wakeOne s.idleMask)) := by
  constructor
  · exact h.owner
  · exact h.visible
  · exact h.announced_setProducer hp
  · intro k _
    unfold Engine.wakeOne
    split
    · next hnone =>
      refine Or.inr ⟨⟨0, cfg.workers_pos⟩, fun hmissed seq hseq => ?_⟩
      exact (h.alert_of_lowest hnone ⟨0, cfg.workers_pos⟩ k hmissed seq hseq).setProducer hp
    · refine Or.inl ⟨p, ?_⟩
      simp only [setProducer, update_self]
      trivial

theorem Inv.wakeCas (h : Inv s) (hp : ∀ w, s.producer p ≠ .wakeBump w) (w : cfg.Worker) :
    Inv ({ s with idleMask := update s.idleMask w false }.setProducer p (.wakeBump w)) := by
  have hbump : (update s.producer p (.wakeBump w)) p = .wakeBump w := update_self p _ _
  constructor
  · exact h.owner
  · exact h.visible
  · intro w' seq hseq
    by_cases hne : w' = w
    · exact Or.inr (Or.inr ⟨p, by rw [hne]; exact hbump⟩)
    · rcases h.announced w' seq hseq with hmask | hbumped
      · exact Or.inl ((update_of_ne hne _ _).trans hmask)
      · exact Or.inr (hbumped.setProducer hp)
  · exact fun _ _ => Or.inr ⟨w, fun _ _ _ => Or.inr ⟨p, hbump⟩⟩

theorem Inv.wakeBump (h : Inv s) (hp : s.producer p = .wakeBump w)
    (hwrap : ∀ seq, (s.worker w).parkedSeq = some seq → s.wakeSeq w + 1 ≠ seq) :
    Inv ({ s with wakeSeq := update s.wakeSeq w (s.wakeSeq w + 1) }.setProducer p .idle) := by
  have hself : ∀ seq, (s.worker w).parkedSeq = some seq →
      ({ s with wakeSeq := update s.wakeSeq w (s.wakeSeq w + 1) }.setProducer p .idle).Bumped w seq := by
    intro seq hseq
    refine Or.inl ?_
    simp only [setProducer, update_self]
    exact hwrap seq hseq
  have hother : ∀ w' seq, w' ≠ w → s.Bumped w' seq →
      ({ s with wakeSeq := update s.wakeSeq w (s.wakeSeq w + 1) }.setProducer p .idle).Bumped w' seq := by
    intro w' seq hne hbumped
    rcases hbumped with hseq | ⟨p', hp'⟩
    · refine Or.inl ?_
      simp only [setProducer, update_of_ne hne]
      exact hseq
    · have hne' : p' ≠ p := by
        rintro rfl
        rw [hp] at hp'
        cases hp'
        exact hne rfl
      exact Or.inr ⟨p', (update_of_ne hne' _ _).trans hp'⟩
  constructor
  · exact h.owner
  · exact h.visible
  · intro w' seq hseq
    by_cases hne : w' = w
    · subst hne
      exact Or.inr (hself seq hseq)
    · exact (h.announced w' seq hseq).imp_right (hother w' seq hne)
  · intro k hk
    rcases h.covered k hk with ⟨p', hp'⟩ | ⟨w', hw'⟩
    · have hne : p' ≠ p := by
        rintro rfl
        rw [hp] at hp'
        cases hp'
      refine Or.inl ⟨p', ?_⟩
      simp only [setProducer, update_of_ne hne]
      exact hp'
    · refine Or.inr ⟨w', fun hmissed seq hseq => ?_⟩
      by_cases hne : w' = w
      · subst hne
        exact hself seq hseq
      · exact hother w' seq hne (hw' hmissed seq hseq)

end

section

variable [DecidableEq S]

theorem State.Visible.exchange {k k' : cfg.Slot} (h : s.Visible k') (a : S) : (s.exchange k a).Visible k' := by
  by_cases hne : k' = k
  · subst hne
    intro htail
    simp only [State.exchange, update_self, Queue.exchange_tail] at htail
    cases htail
  · simp only [State.Visible, State.exchange, update_of_ne hne]
    exact h

theorem State.Visible.link {k k' : cfg.Slot} (h : s.Visible k') (a : S) : (s.link k a).Visible k' := by
  by_cases hne : k' = k
  · subst hne
    simp only [State.Visible, State.link, update_self, Queue.link_tail]
    exact h
  · simp only [State.Visible, State.link, update_of_ne hne]
    exact h

variable [DecidableEq P]

theorem Inv.schedule {a : S} (h : Inv s) (hp : s.producer p = .idle) :
    Inv ((s.exchange (cfg.slotOf a) a).setProducer p (.linking a)) := by
  constructor
  · exact h.owner
  · exact fun k hk => (h.visible k hk).exchange a
  · exact h.announced_setProducer fun w hw => by rw [hp] at hw; cases hw
  · refine fun _ _ => Or.inl ⟨p, ?_⟩
    simp only [setProducer, update_self]
    trivial

theorem Inv.link {a : S} (h : Inv s) (hp : s.producer p = .linking a) :
    Inv ((s.link (cfg.slotOf a) a).setProducer p .wakeLoad) := by
  constructor
  · exact h.owner
  · exact fun k hk => (h.visible k hk).link a
  · exact h.announced_setProducer fun w hw => by rw [hp] at hw; cases hw
  · refine fun _ _ => Or.inl ⟨p, ?_⟩
    simp only [setProducer, update_self]
    trivial

/-- A drain is not given up while its shard hides an activation, and no `wake_seq` comes back around to the
value a parked worker waits on. -/
def Sound (s : State cfg P) : Label cfg P → Prop
  | .worker w => ∀ sh ∈ (s.worker w).releasing, ∀ b, s.Visible (sh, b)
  | .producer p => ∀ w ∈ (s.producer p).bumping, (s.worker w).parkedSeq ≠ some (s.wakeSeq w + 1)
  | _ => True

instance (s : State cfg P) (k : cfg.Slot) : Decidable (s.Visible k) :=
  inferInstanceAs (Decidable (_ = _ → _ = _))

instance (s : State cfg P) : (l : Label cfg P) → Decidable (Sound s l)
  | .worker w => inferInstanceAs (Decidable (∀ sh ∈ (s.worker w).releasing, ∀ b, s.Visible (sh, b)))
  | .producer p =>
    inferInstanceAs (Decidable (∀ w ∈ (s.producer p).bumping, (s.worker w).parkedSeq ≠ some (s.wakeSeq w + 1)))
  | .schedule _ _ | .spurious _ | .yield _ | .backstop _ => .isTrue trivial

theorem Inv.stepProducer (h : Inv s) (hsound : Sound s (.producer p : Label cfg P))
    (hstep : stepProducer s p = some s') : Inv s' := by
  unfold Engine.stepProducer at hstep
  simp only [Sound] at hsound
  cases hp : s.producer p with
  | idle =>
    rw [hp] at hstep
    cases hstep
  | linking a =>
    rw [hp] at hstep
    cases hstep
    exact h.link hp
  | wakeLoad =>
    rw [hp] at hstep
    cases hstep
    exact h.wakeOne fun w hw => by rw [hp] at hw; cases hw
  | wakeCas mask w =>
    have hnot : ∀ w, s.producer p ≠ .wakeBump w := by
      intro w hw
      rw [hp] at hw
      cases hw
    rw [hp] at hstep
    simp only at hstep
    split at hstep
    · next hmask =>
      cases hstep
      rw [← hmask]
      exact h.wakeCas hnot w
    · cases hstep
      exact h.wakeOne hnot
  | wakeBump w =>
    rw [hp] at hstep hsound
    cases hstep
    refine h.wakeBump hp fun seq hseq hwrap => hsound w rfl ?_
    rw [hseq, hwrap]

end

/-- Worker `w` goes to `pc`; besides it, only the run-queue of the shard it drains may differ. -/
structure Moves (s s' : State cfg P) (w : cfg.Worker) (pc : WorkerPc cfg) : Prop where
  worker : s'.worker = update s.worker w pc
  drainOwner : s'.drainOwner = s.drainOwner
  idleMask : s'.idleMask = s.idleMask
  wakeSeq : s'.wakeSeq = s.wakeSeq
  producer : s'.producer = s.producer
  queues : ∀ k, (s.worker w).session ≠ some k.1 →
    s'.q k = s.q k ∧ s'.scheduled k = s.scheduled k ∧ s'.popped k = s.popped k

theorem Moves.setWorker (s : State cfg P) (w : cfg.Worker) (pc : WorkerPc cfg) : Moves s (s.setWorker w pc) w pc :=
  ⟨rfl, rfl, rfl, rfl, rfl, fun _ _ => ⟨rfl, rfl, rfl⟩⟩

theorem owner_setWorker {drainOwner : cfg.Shard → Owner cfg.Worker} {worker : cfg.Worker → WorkerPc cfg}
    {pc : WorkerPc cfg} (h : ∀ w sh, (worker w).session = some sh ↔ drainOwner sh = .worker w)
    (hpc : pc.session = (worker w).session) (w' : cfg.Worker) (sh : cfg.Shard) :
    (update worker w pc w').session = some sh ↔ drainOwner sh = .worker w' := by
  by_cases hne : w' = w
  · rw [hne, update_self, hpc]
    exact h w sh
  · rw [update_of_ne hne]
    exact h w' sh

theorem Inv.moves {pc : WorkerPc cfg} (h : Inv s) (hmoves : Moves s s' w pc)
    (hsession : pc.session = (s.worker w).session) (hparked : pc.parkedSeq = none) : Inv s' := by
  have hself : s'.worker w = pc := by rw [hmoves.worker, update_self]
  constructor
  · rw [hmoves.worker, hmoves.drainOwner]
    exact owner_setWorker h.owner hsession
  · intro k hk
    rw [hmoves.drainOwner] at hk
    obtain ⟨hq, hscheduled, hpopped⟩ := hmoves.queues k fun hs => hk w ((h.owner w k.1).mp hs)
    rw [Visible, hq, hscheduled, hpopped]
    exact h.visible k hk
  · intro w' seq hseq
    by_cases hne : w' = w
    · rw [hne, hself, hparked] at hseq
      cases hseq
    · rw [hmoves.worker, update_of_ne hne] at hseq
      rw [hmoves.idleMask, Bumped, hmoves.wakeSeq, hmoves.producer]
      exact h.announced w' seq hseq
  · refine fun k _ => Or.inr ⟨w, fun hmissed => ?_⟩
    rw [hself] at hmissed
    exact absurd hmissed (WorkerPc.not_missed hparked k)

theorem Inv.acquire {sh : cfg.Shard} (h : Inv s) (hfree : s.drainOwner sh = .none)
    (hnone : (s.worker w).session = none) {d : Session cfg} (hd : d.sh = sh) :
    Inv ((s.setOwner sh (.worker w)).setWorker w (.select d)) := by
  have hself : update s.worker w (.select d) w = .select d := update_self w _ _
  constructor
  · intro w' sh'
    simp only [setWorker, setOwner]
    by_cases hw : w' = w
    · subst hw
      rw [hself]
      by_cases hsh : sh' = sh
      · rw [hsh, update_self, WorkerPc.session, hd]
        exact ⟨fun _ => rfl, fun _ => rfl⟩
      · rw [update_of_ne hsh, WorkerPc.session, hd, ← h.owner, hnone]
        constructor
        · intro heq
          cases heq
          exact absurd rfl hsh
        · intro heq
          cases heq
    · rw [update_of_ne hw]
      by_cases hsh : sh' = sh
      · rw [hsh, update_self, h.owner, hfree]
        constructor
        · intro heq
          cases heq
        · intro heq
          cases heq
          exact absurd rfl hw
      · rw [update_of_ne hsh]
        exact h.owner w' sh'
  · intro k hk
    refine h.visible k fun w' hw' => ?_
    by_cases hsh : k.1 = sh
    · rw [hsh, hfree] at hw'
      cases hw'
    · refine hk w' ?_
      simp only [setWorker, setOwner, update_of_ne hsh]
      exact hw'
  · intro w' seq hseq
    simp only [setWorker, setOwner] at hseq
    by_cases hw : w' = w
    · rw [hw, hself] at hseq
      cases hseq
    · rw [update_of_ne hw] at hseq
      exact h.announced w' seq hseq
  · refine fun k _ => Or.inr ⟨w, fun hmissed => ?_⟩
    simp only [setWorker, setOwner, hself] at hmissed
    exact absurd hmissed (WorkerPc.not_missed rfl k)

theorem Inv.release {d : Session cfg} {todo : List cfg.Slot} (h : Inv s) (hw : s.worker w = .release d)
    (hvisible : ∀ b, s.Visible (d.sh, b)) : Inv ((s.setOwner d.sh .none).setWorker w (.recheck d todo)) := by
  have hself : update s.worker w (.recheck d todo) w = .recheck d todo := update_self w _ _
  have hsession : (s.worker w).session = some d.sh := by rw [hw]; rfl
  have hheld : s.drainOwner d.sh = .worker w := (h.owner w d.sh).mp hsession
  constructor
  · intro w' sh'
    simp only [setWorker, setOwner]
    by_cases hsh : sh' = d.sh
    · rw [hsh, update_self]
      constructor
      · intro heq
        by_cases hne : w' = w
        · rw [hne, hself] at heq
          cases heq
        · rw [update_of_ne hne, h.owner, hheld] at heq
          cases heq
          exact absurd rfl hne
      · intro heq
        cases heq
    · rw [update_of_ne hsh]
      by_cases hne : w' = w
      · subst hne
        rw [hself, ← h.owner, hsession]
        constructor
        · intro heq
          cases heq
        · intro heq
          cases heq
          exact absurd rfl hsh
      · rw [update_of_ne hne]
        exact h.owner w' sh'
  · intro k hk
    by_cases hsh : k.1 = d.sh
    · have hslot := hvisible k.2
      rw [← hsh] at hslot
      exact hslot
    · refine h.visible k fun w' hw' => hk w' ?_
      simp only [setWorker, setOwner, update_of_ne hsh]
      exact hw'
  · intro w' seq hseq
    simp only [setWorker, setOwner] at hseq
    by_cases hne : w' = w
    · rw [hne, hself] at hseq
      cases hseq
    · rw [update_of_ne hne] at hseq
      exact h.announced w' seq hseq
  · refine fun k _ => Or.inr ⟨w, fun hmissed => ?_⟩
    simp only [setWorker, setOwner, hself] at hmissed
    exact absurd hmissed (WorkerPc.not_missed rfl k)

theorem Inv.announce {seq : UInt32} (h : Inv s) (hw : s.worker w = .announce seq) :
    Inv ({ s with idleMask := update s.idleMask w true }.setWorker w (.rescan seq cfg.allSlots)) := by
  have hself : update s.worker w (.rescan seq cfg.allSlots) w = .rescan seq cfg.allSlots :=
    update_self w _ _
  constructor
  · exact owner_setWorker h.owner (by rw [hw]; rfl)
  · exact h.visible
  · intro w' seq' hseq
    simp only [setWorker] at hseq ⊢
    by_cases hne : w' = w
    · rw [hne, update_self]
      exact Or.inl rfl
    · rw [update_of_ne hne] at hseq ⊢
      exact h.announced w' seq' hseq
  · refine fun k _ => Or.inr ⟨w, fun hmissed => ?_⟩
    simp only [setWorker, hself] at hmissed
    exact absurd (cfg.mem_allSlots k) hmissed

/-- A worker on its way to sleep goes on. A slot it may miss by that was missed before, holds nothing, or is
drained by another worker. -/
theorem Inv.goOn {pc : WorkerPc cfg} (h : Inv s) (hnone : (s.worker w).session = none) (hsession : pc.session = none)
    (hparked : pc.parkedSeq = (s.worker w).parkedSeq)
    (hmissed : ∀ k, pc.Missed k → (s.worker w).Missed k ∨ s.scheduled k = s.popped k ∨
      ∃ w' sh, (s.worker w').session = some sh) : Inv (s.setWorker w pc) := by
  constructor
  · exact owner_setWorker h.owner (by rw [hsession, hnone])
  · exact h.visible
  · intro w' seq hseq
    simp only [setWorker] at hseq
    by_cases hne : w' = w
    · rw [hne, update_self, hparked] at hseq
      rw [hne]
      exact h.announced w seq hseq
    · rw [update_of_ne hne] at hseq
      exact h.announced w' seq hseq
  · intro k hk
    by_cases hbusy : ∃ w' sh, (s.worker w').session = some sh
    · obtain ⟨w', sh, hw'⟩ := hbusy
      have hne : w' ≠ w := by
        rintro rfl
        rw [hnone] at hw'
        cases hw'
      refine Or.inr ⟨w', fun hmiss => ?_⟩
      simp only [setWorker, update_of_ne hne] at hmiss
      exact absurd hmiss (WorkerPc.not_missed (WorkerPc.parkedSeq_session hw') k)
    · rcases h.covered k hk with hp | ⟨w', hw'⟩
      · exact Or.inl hp
      · refine Or.inr ⟨w', fun hmiss seq hseq => ?_⟩
        simp only [setWorker] at hmiss hseq
        by_cases hne : w' = w
        · subst hne
          rw [update_self] at hmiss hseq
          rw [hparked] at hseq
          rcases hmissed k hmiss with hbefore | hnothing | hother
          · exact hw' hbefore seq hseq
          · exact absurd hnothing hk
          · exact absurd hother hbusy
        · rw [update_of_ne hne] at hmiss hseq
          exact hw' hmiss seq hseq

theorem Inv.pass {seq : UInt32} {k : cfg.Slot} {todo : List cfg.Slot} (h : Inv s)
    (hw : s.worker w = .rescan seq (k :: todo)) (htail : (s.q k).tail = .stub) :
    Inv (s.setWorker w (.rescan seq todo)) := by
  refine h.goOn (by rw [hw]; rfl) rfl (by rw [hw]; rfl) fun k' hmissed => ?_
  by_cases hmem : k' ∈ k :: todo
  · have hk : k' = k := (mem_cons.mp hmem).resolve_right hmissed
    subst hk
    by_cases howned : ∃ w', s.drainOwner k'.1 = .worker w'
    · obtain ⟨w', hw'⟩ := howned
      exact Or.inr (Or.inr ⟨w', k'.1, (h.owner w' k'.1).mpr hw'⟩)
    · exact Or.inr (Or.inl (h.visible k' (not_exists.mp howned) htail))
  · refine Or.inl ?_
    rw [hw]
    exact hmem

theorem Inv.retract {todo : List cfg.Shard} (h : Inv s) (hw : s.worker w = .retract) :
    Inv ({ s with idleMask := update s.idleMask w false }.setWorker w (.scan todo)) := by
  have hself : update s.worker w (.scan todo) w = .scan todo := update_self w _ _
  constructor
  · exact owner_setWorker h.owner (by rw [hw]; rfl)
  · exact h.visible
  · intro w' seq hseq
    simp only [setWorker] at hseq ⊢
    by_cases hne : w' = w
    · rw [hne, hself] at hseq
      cases hseq
    · rw [update_of_ne hne] at hseq ⊢
      exact h.announced w' seq hseq
  · refine fun k _ => Or.inr ⟨w, fun hmissed => ?_⟩
    simp only [setWorker, hself] at hmissed
    exact absurd hmissed (WorkerPc.not_missed rfl k)

theorem Inv.setOwner {sh : cfg.Shard} {o : Owner cfg.Worker} (h : Inv s)
    (hbefore : ∀ w, s.drainOwner sh ≠ .worker w) (hafter : ∀ w, o ≠ .worker w) : Inv (s.setOwner sh o) := by
  constructor
  · intro w sh'
    simp only [State.setOwner]
    by_cases hsh : sh' = sh
    · rw [hsh, update_self, h.owner]
      constructor
      · exact fun hw => absurd hw (hbefore w)
      · exact fun hw => absurd hw (hafter w)
    · rw [update_of_ne hsh]
      exact h.owner w sh'
  · intro k hk
    refine h.visible k fun w hw => ?_
    by_cases hsh : k.1 = sh
    · rw [hsh] at hw
      exact hbefore w hw
    · refine hk w ?_
      simp only [State.setOwner, update_of_ne hsh]
      exact hw
  · exact h.announced
  · exact h.covered

/-- With every worker asleep on a `wake_seq` that has not moved, and no producer inside `schedule_and_wake`,
every activation scheduled has been popped. -/
def NoneStranded (s : State cfg P) : Prop :=
  (∀ w, s.worker w = .asleep (s.wakeSeq w)) → (∀ p, s.producer p = .idle) → ∀ k, s.scheduled k = s.popped k

theorem Inv.noneStranded (h : Inv s) : NoneStranded s := by
  intro hasleep hidle k
  by_contra hk
  rcases h.covered k hk with ⟨p, hp⟩ | ⟨w, hw⟩
  · rw [hidle p] at hp
    exact hp
  · rw [Alert, hasleep w] at hw
    rcases hw trivial (s.wakeSeq w) rfl with hseq | ⟨p, hp⟩
    · exact hseq rfl
    · rw [hidle p] at hp
      cases hp

theorem slot_ne {k k' : cfg.Slot} (hk : (s.worker w).session = some k.1) (hk' : (s.worker w).session ≠ some k'.1) :
    k' ≠ k := by
  rintro rfl
  exact hk' hk

theorem stepPick_moves {d : Session cfg} {mask : cfg.Band → Bool} :
    ∃ pc, Moves s (stepPick s w d mask) w pc ∧ pc.session = some d.sh := by
  unfold stepPick
  split
  · exact ⟨_, Moves.setWorker s w _, selected_session d _⟩
  · refine ⟨_, ⟨rfl, rfl, rfl, rfl, rfl, fun _ _ => ⟨rfl, rfl, rfl⟩⟩, ?_⟩
    split
    · rfl
    · exact nextAttempt_session d _

section

variable [DecidableEq S]

theorem Moves.exchange {k : cfg.Slot} (hk : (s.worker w).session = some k.1) (a : S) (pc : WorkerPc cfg) :
    Moves s ((s.exchange k a).setWorker w pc) w pc := by
  refine ⟨rfl, rfl, rfl, rfl, rfl, fun k' hk' => ?_⟩
  have hne := slot_ne hk hk'
  exact ⟨update_of_ne hne _ _, update_of_ne hne _ _, rfl⟩

theorem Moves.link {k : cfg.Slot} (hk : (s.worker w).session = some k.1) (a : S) (pc : WorkerPc cfg) :
    Moves s ((s.link k a).setWorker w pc) w pc := by
  refine ⟨rfl, rfl, rfl, rfl, rfl, fun k' hk' => ?_⟩
  exact ⟨update_of_ne (slot_ne hk hk') _ _, rfl, rfl⟩

theorem stepPop_moves {d : Session cfg} {b : cfg.Band} {a : Attempt cfg} (hw : s.worker w = .pop d b a) :
    ∃ pc, Moves s (stepPop s w d b a) w pc ∧ pc.session = some d.sh := by
  have hk : (s.worker w).session = some ((d.sh, b) : cfg.Slot).1 := by rw [hw]; rfl
  unfold stepPop
  generalize ActivationMpsc.tryPop (s.q (d.sh, b)) (s.pop (d.sh, b)) = r
  obtain ⟨q, c, out⟩ := r
  have hq : ∀ k', (s.worker w).session ≠ some k'.1 → update s.q (d.sh, b) q k' = s.q k' :=
    fun k' hk' => update_of_ne (slot_ne hk hk') _ _
  cases out with
  | none =>
    refine ⟨.pop d b a, ⟨?_, rfl, rfl, rfl, rfl, fun k' hk' => ⟨hq k' hk', rfl, rfl⟩⟩, rfl⟩
    rw [← hw, update_eq_self]
  | some r =>
    simp only [popResult]
    split
    · refine ⟨_, ⟨rfl, rfl, rfl, rfl, rfl, fun k' hk' => ⟨hq k' hk', rfl, ?_⟩⟩, rfl⟩
      exact update_of_ne (slot_ne hk hk') _ _
    · split
      · refine ⟨_, ⟨rfl, rfl, rfl, rfl, rfl, fun k' hk' => ⟨hq k' hk', rfl, rfl⟩⟩, ?_⟩
        exact selected_session d _
      · refine ⟨_, ⟨rfl, rfl, rfl, rfl, rfl, fun k' hk' => ⟨hq k' hk', rfl, rfl⟩⟩, ?_⟩
        exact nextAttempt_session d _

theorem Inv.stepWorker (h : Inv s) (hsound : Sound s (.worker w : Label cfg P))
    (hstep : stepWorker s w = some s') : Inv s' := by
  rw [Engine.stepWorker.eq_def] at hstep
  have hmove : ∀ pc : WorkerPc cfg, pc.session = (s.worker w).session → pc.parkedSeq = none →
      Inv (s.setWorker w pc) := fun pc => h.moves (Moves.setWorker s w pc)
  simp only [Sound] at hsound
  cases hw : s.worker w with
  | scan todo =>
    rw [hw] at hstep hmove
    cases todo with
    | nil =>
      cases hstep
      exact hmove _ (spinOrPark_session _) (spinOrPark_parkedSeq _)
    | cons sh rest =>
      simp only at hstep
      split at hstep
      · next hfree =>
        cases hstep
        exact h.acquire hfree (by rw [hw]; rfl) rfl
      · cases hstep
        exact hmove _ rfl rfl
  | select d =>
    rw [hw] at hstep hmove
    simp only at hstep
    split at hstep
    · cases hstep
      exact hmove _ rfl rfl
    · cases hstep
      exact hmove _ rfl rfl
  | hints d todo mask =>
    rw [hw] at hstep
    cases todo with
    | nil =>
      cases hstep
      obtain ⟨pc, hmoves, hpc⟩ := stepPick_moves
      exact h.moves hmoves (by rw [hw]; exact hpc) (WorkerPc.parkedSeq_session hpc)
    | cons b todo =>
      cases hstep
      exact hmove _ (by rw [hw]; rfl) rfl
  | pop d b a =>
    rw [hw] at hstep
    cases hstep
    obtain ⟨pc, hmoves, hpc⟩ := stepPop_moves hw
    exact h.moves hmoves (by rw [hw]; exact hpc) (WorkerPc.parkedSeq_session hpc)
  | run d a =>
    rw [hw] at hstep hmove
    cases hstep
    exact hmove _ rfl rfl
  | requeue d a =>
    have hk : (s.worker w).session = some ((d.sh, cfg.bandOf a) : cfg.Slot).1 := by rw [hw]; rfl
    rw [hw] at hstep
    simp only at hstep
    split at hstep
    · cases hstep
      exact h.moves (.exchange hk a _) (by rw [hw]; rfl) rfl
    · cases hstep
  | requeueLink d a =>
    have hk : (s.worker w).session = some ((d.sh, cfg.bandOf a) : cfg.Slot).1 := by rw [hw]; rfl
    rw [hw] at hstep
    cases hstep
    exact h.moves (.link hk a _) (by rw [hw]; rfl) rfl
  | release d =>
    rw [hw] at hstep hsound
    cases hstep
    exact h.release hw (hsound d.sh rfl)
  | recheck d todo =>
    rw [hw] at hstep hmove
    cases todo with
    | nil =>
      cases hstep
      exact hmove _ (drainedShard_session w d) (drainedShard_parkedSeq w d)
    | cons k todo =>
      cases hstep
      split
      · exact hmove _ rfl rfl
      · exact hmove _ rfl rfl
  | reacquire d =>
    rw [hw] at hstep hmove
    simp only at hstep
    split at hstep
    · next hfree =>
      cases hstep
      exact h.acquire hfree (by rw [hw]; rfl) rfl
    · cases hstep
      exact hmove _ (drainedShard_session w d) (drainedShard_parkedSeq w d)
  | spin left todo =>
    rw [hw] at hstep hmove
    cases todo with
    | nil =>
      cases hstep
      exact hmove _ (spinOrPark_session _) (spinOrPark_parkedSeq _)
    | cons k todo =>
      cases hstep
      split
      · exact hmove _ rfl rfl
      · exact hmove _ rfl rfl
  | park =>
    rw [hw] at hstep hmove
    cases hstep
    exact hmove _ rfl rfl
  | announce seq =>
    rw [hw] at hstep
    cases hstep
    exact h.announce hw
  | rescan seq todo =>
    rw [hw] at hstep hmove
    cases todo with
    | nil =>
      cases hstep
      refine h.goOn (by rw [hw]; rfl) rfl (by rw [hw]; rfl) fun k _ => Or.inl ?_
      rw [hw]
      exact not_mem_nil
    | cons k todo =>
      cases hstep
      split
      · exact hmove _ rfl rfl
      · next hwork =>
        refine h.pass hw ?_
        simpa [ActivationMpsc.hasWork] using hwork
  | asleep seq =>
    rw [hw] at hstep hmove
    simp only at hstep
    split at hstep
    · cases hstep
    · cases hstep
      exact hmove _ rfl rfl
  | retract =>
    rw [hw] at hstep
    cases hstep
    exact h.retract hw

variable [DecidableEq P]

theorem Inv.step {l : Label cfg P} (h : Inv s) (hsound : Sound s l) (hstep : step s l = some s') : Inv s' := by
  cases l with
  | schedule p a =>
    simp only [Engine.step, stepSchedule] at hstep
    split at hstep
    · next hp =>
      split at hstep
      · cases hstep
        exact h.schedule hp
      · cases hstep
    · cases hstep
  | producer p => exact h.stepProducer hsound hstep
  | spurious p =>
    simp only [Engine.step, stepSpurious] at hstep
    split at hstep
    · next hp =>
      cases hstep
      exact h.wakeOne fun w hw => by rw [hp] at hw; cases hw
    · cases hstep
  | worker w => exact h.stepWorker hsound hstep
  | yield w =>
    simp only [Engine.step, stepYield] at hstep
    split at hstep
    · next hw =>
      cases hstep
      exact h.moves (Moves.setWorker s w _) (by rw [hw]; rfl) rfl
    · cases hstep
  | backstop sh =>
    simp only [Engine.step, stepBackstop] at hstep
    split at hstep
    · next hfree =>
      cases hstep
      exact h.setOwner (by simp [hfree]) (by simp)
    · next hheld =>
      cases hstep
      exact h.setOwner (by simp [hheld]) (by simp)
    · cases hstep

theorem no_activation_stranded (cfg : Config S A) :
    ∀ s : State cfg P, Reach step Sound {} s → NoneStranded s := by
  intro s hreach
  have hinv : Inv s := by
    refine hreach.invariant .initial ?_
    intro s l s' h hsound hstep
    exact h.step hsound hstep
  exact hinv.noneStranded

end

/-- One shard, one worker, one try at a run-queue that is `Busy`. -/
def oneWorker : Config Nat Unit where
  policy := .uniformFIFO
  bands_pos := Nat.one_pos
  workerCount := 1
  workers_pos := Nat.one_pos
  workers_le := by decide
  shardCount := 1
  shard _ := 0
  band _ := 0
  anti := ()
  pick _ _ := ((), ⟨0, Nat.one_pos⟩)
  busySpinLimit := 1
  preParkSpinLimit := 0
  yieldSpinLimit := 0

def theWorker : oneWorker.Worker := ⟨0, Nat.one_pos⟩

def theSlot : oneWorker.Slot := (⟨0, Nat.one_pos⟩, ⟨0, Nat.one_pos⟩)

abbrev Run := List (Label oneWorker Bool)

def steps (n : Nat) : Run := List.replicate n (.worker theWorker)

def wakes (p : Bool) (n : Nat) : Run := List.replicate n (.producer p)

set_option maxRecDepth 4000 in
/-- The worker parks, a producer takes it out of the mask before it waits, and it goes to sleep again after
it has run what it was woken for. -/
theorem no_activation_stranded_after_wake : ∃ s : State oneWorker Bool,
    (s.scheduled theSlot).length = 1 ∧ s.worker theWorker = .asleep 1 ∧ NoneStranded s := by
  have hrun : (Machine.run (guarded step Sound) ({} : State oneWorker Bool)
      (steps 12 ++ [.schedule false 1] ++ wakes false 4 ++ steps 33)).map
        (fun s => ((s.scheduled theSlot).length, s.worker theWorker)) = some (1, .asleep 1) := by
    decide +kernel
  obtain ⟨s, hs, hview⟩ := Option.map_eq_some_iff.mp hrun
  simp only [Prod.mk.injEq] at hview
  exact ⟨s, hview.1, hview.2, no_activation_stranded oneWorker s (reach_of_run hs)⟩

/-- The worker is about to put the stub back behind activation 1 when activation 2 comes in: the stub lands
behind activation 2, whose link is missing. The pop is `Busy`, the drain ends, and every later look at the
run-queue finds its tail on the stub. -/
def gap : Run :=
  [.schedule false 1] ++ wakes false 2 ++ steps 6 ++ [.schedule true 2] ++ steps 3 ++ wakes true 2 ++ steps 8

set_option maxRecDepth 4000 in
theorem stranded_after_busy_pop :
    ¬ ∀ s : State oneWorker Bool, Reachable step {} s → NoneStranded s := by
  intro hall
  have hrun : (Machine.run step ({} : State oneWorker Bool) gap).map (fun s =>
      (s.worker theWorker, s.wakeSeq theWorker, s.producer false, s.producer true,
        (s.scheduled theSlot).length, (s.popped theSlot).length)) = some (.asleep 0, 0, .idle, .idle, 2, 0) := by
    decide +kernel
  obtain ⟨s, hs, hview⟩ := Option.map_eq_some_iff.mp hrun
  simp only [Prod.mk.injEq] at hview
  obtain ⟨hworker, hseq, hfalse, htrue, hscheduled, hpopped⟩ := hview
  have hall := hall s (reachable_of_run hs) ?_ ?_ theSlot
  · rw [hall, hpopped] at hscheduled
    cases hscheduled
  · intro w
    have hw : w = theWorker := Fin.ext (Nat.lt_one_iff.mp w.isLt)
    rw [hw, hworker, hseq]
  · intro p
    cases p with
    | false => exact hfalse
    | true => exact htrue

end Quark.Engine
