import Quark.Activation

/-! No message is stranded behind an activation at rest, unless a linger gave up on a `Busy` re-poll. The
probe of `close_out` compares the tail with the stub, and after `Busy` the stub may be the tail although
messages wait in front of it. -/
namespace Quark.Activation

open Function List Option Machine State Vyukov

variable {M W P : Type}

namespace WorkerPc

/-- The places between acquiring `Running` and the store that gives it up. -/
def Owns : WorkerPc M → Prop
  | .loop _ | .dequeue _ | .linger _ _ | .dispatch _ _ | .closeOut | .yield | .park => True
  | .away | .acquire | .probe _ | .reacquire _ | .requeue => False

def InCall : WorkerPc M → Prop
  | .dequeue _ | .linger _ _ => True
  | _ => False

def HoldsToken : WorkerPc M → Prop
  | .dispatch _ d => d = .item .deactivate
  | _ => False

/-- Between the relinquish store and the end of `close_out`. -/
def Closing (released : ExecState) : WorkerPc M → Prop
  | .probe r | .reacquire r => r.state = released
  | _ => False

theorem InCall.owns {pc : WorkerPc M} (h : pc.InCall) : pc.Owns := by
  cases pc with
  | dequeue l | linger l left => trivial
  | _ => cases h

theorem HoldsToken.owns {pc : WorkerPc M} (h : pc.HoldsToken) : pc.Owns := by
  cases pc with
  | dispatch l d => trivial
  | _ => cases h

end WorkerPc

def ProducerPc.Posting : ProducerPc M → Prop
  | .linking _ | .notify _ => True
  | _ => False

/-- A producer that will still see the activation in state `released` and schedule it. -/
def ProducerPc.Wakes (released : ExecState) : ProducerPc M → Prop
  | .linking _ | .notify .load | .notify .casIdle => True
  | .notify .recheck | .notify .casDormant => released = .dormant
  | _ => False

theorem ProducerPc.Wakes.posting {pc : ProducerPc M} {r : ExecState} (h : pc.Wakes r) : pc.Posting := by
  cases pc with
  | linking d | notify npc => trivial
  | idle | claimed | schedule => cases h

theorem ProducerPc.afterNotify_ne_claimed (r : ExecState.NotifyStep) :
    (ProducerPc.afterNotify r : ProducerPc M) ≠ .claimed := by
  intro h
  cases r with
  | goto pc => cases h
  | ret wake => cases wake <;> cases h

/-- At most one worker owns the activation, `Running` says so, and only the owner is inside a call. -/
structure Owned (exec : ExecState) (deq : Consumer) (worker : W → WorkerPc M) : Prop where
  running : ∀ w, (worker w).Owns → exec = .running
  unique : ∀ w w', (worker w).Owns → (worker w').Owns → w = w'
  call : deq ≠ .idle → ∃ w, (worker w).InCall

/-- The Deactivate descriptor is in one place: with the poster that claimed it, in the mailbox, or with the
worker that dequeued it. -/
structure Token (token : Bool) (items : List (Desc M)) (producer : P → ProducerPc M)
    (worker : W → WorkerPc M) : Prop where
  claimed : ∀ p, producer p = .claimed → token = true ∧ .deactivate ∉ items ∧
    (∀ p', producer p' = .claimed → p' = p) ∧ ∀ w, ¬ (worker w).HoldsToken
  queued : .deactivate ∈ items → token = true ∧ ∀ w, ¬ (worker w).HoldsToken
  held : ∀ w, (worker w).HoldsToken → token = true

/-- At rest, and on the way there, a tail on the stub means an empty mailbox. -/
structure Settled (exec : ExecState) (tail : Node (Desc M)) (items : List (Desc M))
    (worker : W → WorkerPc M) : Prop where
  resting : exec = .idle ∨ exec = .dormant → tail = .stub → items = []
  closing : ∀ w, worker w = .closeOut → tail = .stub → items = []

def Covered (exec : ExecState) (items : List (Desc M)) (producer : P → ProducerPc M)
    (worker : W → WorkerPc M) : Prop :=
  exec = .idle ∨ exec = .dormant → items ≠ [] →
    (∃ p, (producer p).Wakes exec) ∨ ∃ w, (worker w).Closing exec

section

variable {exec : ExecState} {deq : Consumer} {tail : Node (Desc M)} {items : List (Desc M)}
variable {token : Bool} {producer : P → ProducerPc M} {worker : W → WorkerPc M} {w : W} {p : P}

theorem Owned.deq_idle (h : Owned exec deq worker) (ho : (worker w).Owns) (hin : ¬ (worker w).InCall) :
    deq = .idle := by
  by_contra hdeq
  obtain ⟨w', hw'⟩ := h.call hdeq
  rw [h.unique w w' ho hw'.owns] at hin
  exact hin hw'

theorem Owned.deq_idle_of_exec (h : Owned exec deq worker) (hexec : exec ≠ .running) : deq = .idle := by
  by_contra hdeq
  obtain ⟨w', hw'⟩ := h.call hdeq
  exact hexec (h.running w' hw'.owns)

theorem Owned.inside (h : Owned exec deq worker) (hin : (worker w).InCall) (deq' : Consumer) :
    Owned exec deq' worker := ⟨h.running, h.unique, fun _ => ⟨w, hin⟩⟩

theorem Owned.of_not_running (h : Owned exec deq worker) (hexec : exec ≠ .running) (exec' : ExecState) :
    Owned exec' deq worker :=
  ⟨fun w hw => absurd (h.running w hw) hexec, h.unique, h.call⟩

/-- Away from rest nothing is asked of the tail but at the start of `close_out`. -/
theorem Settled.awake (h : Settled exec tail items worker) {exec' : ExecState} (hidle : exec' ≠ .idle)
    (hdormant : exec' ≠ .dormant) : Settled exec' tail items worker :=
  ⟨fun hexec => absurd hexec (not_or.mpr ⟨hidle, hdormant⟩), h.closing⟩

theorem Covered.awake {exec : ExecState} (hidle : exec ≠ .idle) (hdormant : exec ≠ .dormant) :
    Covered exec items producer worker :=
  fun hexec => absurd hexec (not_or.mpr ⟨hidle, hdormant⟩)

section

variable [DecidableEq W] {pc : WorkerPc M}

theorem Owned.stay (h : Owned exec deq worker) (ho : (worker w).Owns) {deq' : Consumer} (hdeq :
    deq' ≠ .idle → pc.InCall) : Owned exec deq' (update worker w pc) := by
  have howns : ∀ w', (update worker w pc w').Owns → (worker w').Owns := by
    intro w' hw'
    by_cases hne : w' = w
    · rw [hne]
      exact ho
    · rwa [update_of_ne hne] at hw'
  refine ⟨fun w' hw' => h.running w' (howns w' hw'), fun w₁ w₂ h₁ h₂ => ?_, fun hd => ⟨w, ?_⟩⟩
  · exact h.unique w₁ w₂ (howns w₁ h₁) (howns w₂ h₂)
  · rw [update_self]
    exact hdeq hd

theorem Owned.outside (h : Owned exec deq worker) (ho : ¬ (worker w).Owns) (hpc : ¬ pc.Owns) :
    Owned exec deq (update worker w pc) := by
  have howns : ∀ w', (update worker w pc w').Owns → (worker w').Owns := by
    intro w' hw'
    by_cases hne : w' = w
    · rw [hne, update_self] at hw'
      exact absurd hw' hpc
    · rwa [update_of_ne hne] at hw'
  refine ⟨fun w' hw' => h.running w' (howns w' hw'), fun w₁ w₂ h₁ h₂ => ?_, fun hd => ?_⟩
  · exact h.unique w₁ w₂ (howns w₁ h₁) (howns w₂ h₂)
  · obtain ⟨w', hw'⟩ := h.call hd
    have hne : w' ≠ w := by
      rintro rfl
      exact ho hw'.owns
    refine ⟨w', ?_⟩
    rw [update_of_ne hne]
    exact hw'

theorem Owned.leave (h : Owned exec deq worker) (ho : (worker w).Owns) (hin : ¬ (worker w).InCall)
    (hpc : ¬ pc.Owns) (exec' : ExecState) : Owned exec' deq (update worker w pc) := by
  have hnone : ∀ w', ¬ (update worker w pc w').Owns := by
    intro w' hw'
    by_cases hne : w' = w
    · rw [hne, update_self] at hw'
      exact hpc hw'
    · rw [update_of_ne hne] at hw'
      exact hne (h.unique w' w hw' ho)
  refine ⟨fun w' hw' => absurd hw' (hnone w'), fun w₁ _ h₁ _ => absurd h₁ (hnone w₁), fun hd => ?_⟩
  exact absurd (h.deq_idle ho hin) hd

theorem Owned.enter (h : Owned exec deq worker) (hexec : exec ≠ .running) :
    Owned .running deq (update worker w pc) := by
  have honly : ∀ w', (update worker w pc w').Owns → w' = w := by
    intro w' hw'
    by_contra hne
    rw [update_of_ne hne] at hw'
    exact hexec (h.running w' hw')
  refine ⟨fun _ _ => rfl, fun w₁ w₂ h₁ h₂ => (honly w₁ h₁).trans (honly w₂ h₂).symm, fun hd => ?_⟩
  exact absurd (h.deq_idle_of_exec hexec) hd

theorem Token.setWorker (h : Token token items producer worker) (pc : WorkerPc M) (hpc : ¬ pc.HoldsToken) :
    Token token items producer (update worker w pc) := by
  have hkept : ∀ w', (update worker w pc w').HoldsToken → (worker w').HoldsToken := by
    intro w' hw'
    by_cases hne : w' = w
    · rw [hne, update_self] at hw'
      exact absurd hw' hpc
    · rwa [update_of_ne hne] at hw'
  refine ⟨fun p hp => ?_, fun hmem => ?_, fun w' hw' => h.held w' (hkept w' hw')⟩
  · obtain ⟨htoken, hnot, honly, hnone⟩ := h.claimed p hp
    exact ⟨htoken, hnot, honly, fun w' hw' => hnone w' (hkept w' hw')⟩
  · exact ⟨(h.queued hmem).1, fun w' hw' => (h.queued hmem).2 w' (hkept w' hw')⟩

theorem Token.dequeue {d : Desc M} {rest : List (Desc M)} {l : Local}
    (h : Token token (d :: rest) producer worker) (hnodup : d ∉ rest) :
    Token token rest producer (update worker w (.dispatch l (.item d))) := by
  cases d with
  | message m =>
    have hworker := h.setWorker (w := w) (.dispatch l (.item (.message m))) (by simp [WorkerPc.HoldsToken])
    refine ⟨fun p hp => ?_, fun hmem => hworker.queued (mem_cons_of_mem _ hmem), hworker.held⟩
    obtain ⟨htoken, hnot, honly, hnone⟩ := hworker.claimed p hp
    exact ⟨htoken, fun hmem => hnot (mem_cons_of_mem _ hmem), honly, hnone⟩
  | deactivate =>
    refine ⟨fun p hp => absurd mem_cons_self (h.claimed p hp).2.1, fun hmem => absurd hmem hnodup, ?_⟩
    exact fun _ _ => (h.queued mem_cons_self).1

theorem Token.clear (h : Token token items producer worker) (howned : Owned exec deq worker)
    (hw : (worker w).HoldsToken) (hpc : ¬ pc.HoldsToken) :
    Token false items producer (update worker w pc) := by
  have hnone : ∀ w', ¬ (update worker w pc w').HoldsToken := by
    intro w' hw'
    by_cases hne : w' = w
    · rw [hne, update_self] at hw'
      exact hpc hw'
    · rw [update_of_ne hne] at hw'
      exact hne (howned.unique w' w hw'.owns hw.owns)
  refine ⟨fun p hp => absurd hw ((h.claimed p hp).2.2.2 w), fun hmem => absurd hw ((h.queued hmem).2 w), ?_⟩
  exact fun w' hw' => absurd hw' (hnone w')

theorem Settled.stay (howned : Owned exec deq worker) (ho : (worker w).Owns)
    (hpc : pc = .closeOut → tail = .stub → items = []) :
    Settled exec tail items (update worker w pc) := by
  refine ⟨fun hexec => ?_, fun w' hw' => ?_⟩
  · rw [howned.running w ho] at hexec
    rcases hexec with hexec | hexec <;> cases hexec
  · by_cases hne : w' = w
    · rw [hne, update_self] at hw'
      exact hpc hw'
    · rw [update_of_ne hne] at hw'
      exact absurd (howned.unique w' w (by rw [hw']; trivial) ho) hne

theorem Settled.setWorker (h : Settled exec tail items worker) (pc : WorkerPc M) (hpc : pc ≠ .closeOut) :
    Settled exec tail items (update worker w pc) := by
  refine ⟨h.resting, fun w' hw' => ?_⟩
  by_cases hne : w' = w
  · rw [hne, update_self] at hw'
    exact absurd hw' hpc
  · rw [update_of_ne hne] at hw'
    exact h.closing w' hw'

theorem Covered.closing (hclosing : pc.Closing exec) :
    Covered exec items producer (update worker w pc) := by
  intro _ _
  refine Or.inr ⟨w, ?_⟩
  rw [update_self]
  exact hclosing

theorem Covered.setWorker (h : Covered exec items producer worker)
    (hkept : (worker w).Closing exec → pc.Closing exec) :
    Covered exec items producer (update worker w pc) := by
  intro hexec hitems
  rcases h hexec hitems with hp | ⟨w', hw'⟩
  · exact Or.inl hp
  · refine Or.inr ?_
    by_cases hne : w' = w
    · refine ⟨w, ?_⟩
      rw [update_self]
      rw [hne] at hw'
      exact hkept hw'
    · refine ⟨w', ?_⟩
      rw [update_of_ne hne]
      exact hw'

end

section

variable [DecidableEq P] {ppc : ProducerPc M}

theorem Covered.setProducer (h : Covered exec items producer worker)
    (hkept : (producer p).Wakes exec → ppc.Wakes exec) :
    Covered exec items (update producer p ppc) worker := by
  intro hexec hitems
  rcases h hexec hitems with ⟨p', hp'⟩ | hw
  · refine Or.inl ?_
    by_cases hne : p' = p
    · refine ⟨p, ?_⟩
      rw [update_self]
      rw [hne] at hp'
      exact hkept hp'
    · refine ⟨p', ?_⟩
      rw [update_of_ne hne]
      exact hp'
  · exact Or.inr hw

/-- Whoever has just exchanged a descriptor in has the notify step before it. -/
theorem Covered.posting (hwakes : ppc.Wakes exec) :
    Covered exec items (update producer p ppc) worker := by
  intro _ _
  refine Or.inl ⟨p, ?_⟩
  rw [update_self]
  exact hwakes

theorem Token.setProducer (h : Token token items producer worker) (ppc : ProducerPc M) (hpc : ppc ≠ .claimed) :
    Token token items (update producer p ppc) worker := by
  have hkept : ∀ p', update producer p ppc p' = .claimed → producer p' = .claimed := by
    intro p' hp'
    by_cases hne : p' = p
    · rw [hne, update_self] at hp'
      exact absurd hp' hpc
    · rwa [update_of_ne hne] at hp'
  refine ⟨fun p' hp' => ?_, h.queued, h.held⟩
  obtain ⟨htoken, hnot, honly, hnone⟩ := h.claimed p' (hkept p' hp')
  exact ⟨htoken, hnot, fun p'' hp'' => honly p'' (hkept p'' hp''), hnone⟩

theorem Token.claim (h : Token false items producer worker) :
    Token true items (update producer p .claimed) worker := by
  have hitems : .deactivate ∉ items := fun hmem => by cases (h.queued hmem).1
  have hnone : ∀ w, ¬ (worker w).HoldsToken := fun w hw => by cases h.held w hw
  have honly : ∀ p', update producer p .claimed p' = .claimed → p' = p := by
    intro p' hp'
    by_contra hne
    rw [update_of_ne hne] at hp'
    cases (h.claimed p' hp').1
  refine ⟨fun p' hp' => ?_, fun hmem => absurd hmem hitems, fun w hw => absurd hw (hnone w)⟩
  obtain rfl := honly p' hp'
  exact ⟨rfl, hitems, honly, hnone⟩

theorem Token.post (h : Token token items producer worker) (m : M) :
    Token token (items ++ [.message m]) (update producer p (.linking (.message m))) worker := by
  have hmem : .deactivate ∈ items ++ [.message m] → .deactivate ∈ items := by simp
  have hset := h.setProducer (p := p) (.linking (.message m)) (by simp)
  refine ⟨fun p' hp' => ?_, fun hin => hset.queued (hmem hin), hset.held⟩
  obtain ⟨htoken, hnot, honly, hnone⟩ := hset.claimed p' hp'
  exact ⟨htoken, fun hin => hnot (hmem hin), honly, hnone⟩

theorem Token.postDeactivate (h : Token token items producer worker) (hp : producer p = .claimed) :
    Token token (items ++ [.deactivate]) (update producer p (.linking .deactivate)) worker := by
  obtain ⟨htoken, _, honly, hnone⟩ := h.claimed p hp
  refine ⟨fun p' hp' => ?_, fun _ => ⟨htoken, hnone⟩, h.held⟩
  by_cases hne : p' = p
  · rw [hne, update_self] at hp'
    cases hp'
  · rw [update_of_ne hne] at hp'
    exact absurd (honly p' hp') hne

end

theorem notify_wakes {npc : ExecState.NotifyPc} (hwakes : (ProducerPc.notify npc : ProducerPc M).Wakes exec)
    (hkeep : (exec.notifyEnqueuedFast npc).1 = exec) (hexec : exec = .idle ∨ exec = .dormant) :
    ∃ npc', (exec.notifyEnqueuedFast npc).2 = .goto npc' ∧ (ProducerPc.notify npc' : ProducerPc M).Wakes exec := by
  rcases hexec with rfl | rfl
  · cases npc with
    | load => exact ⟨.casIdle, rfl, trivial⟩
    | casIdle => cases hkeep
    | recheck | casDormant => cases hwakes
  · cases npc with
    | load => exact ⟨.casDormant, rfl, rfl⟩
    | casIdle => exact ⟨.recheck, rfl, rfl⟩
    | recheck => exact ⟨.casDormant, rfl, rfl⟩
    | casDormant => cases hkeep

end

/-- The mailbox holds `items`, which are what was posted and not yet dequeued. -/
structure Inv (s : State M W P) (items : List (Desc M)) : Prop where
  holds : s.mailbox.Holds s.deq items
  posted : s.posted = s.dequeued ++ items.map .item
  owned : Owned s.exec s.deq s.worker
  token : Token s.deactivateToken items s.producer s.worker
  settled : Settled s.exec s.mailbox.tail items s.worker
  covered : Covered s.exec items s.producer s.worker

section

variable {s s' : State M W P} {items : List (Desc M)} {w : W} {p : P}

theorem Inv.initial : Inv ({} : State M W P) [] := by
  constructor
  · exact Queue.Holds.initial
  · rfl
  · exact ⟨fun _ hw => absurd hw id, fun _ _ hw => absurd hw id, fun hd => absurd rfl hd⟩
  · exact ⟨nofun, fun hmem => absurd hmem not_mem_nil, fun _ hw => absurd hw id⟩
  · exact ⟨fun _ _ => rfl, fun _ _ _ => rfl⟩
  · exact fun _ hitems => absurd rfl hitems

theorem Inv.exec_running (h : Inv s items) (ho : (s.worker w).Owns) : s.exec ≠ .idle ∧ s.exec ≠ .dormant := by
  rw [h.owned.running w ho]
  exact ⟨by simp, by simp⟩

theorem Inv.items_nil (h : Inv s items) (hall : s.posted = s.dequeued) : items = [] := by
  have hposted := h.posted
  rw [hall] at hposted
  exact map_eq_nil_iff.mp (self_eq_append_right.mp hposted)

def NoneStranded (s : State M W P) : Prop :=
  s.exec = .idle ∨ s.exec = .dormant → (∀ p, ¬ (s.producer p).Posting) → (∀ w, ¬ (s.worker w).Closing s.exec) →
    s.posted = s.dequeued

theorem Inv.noneStranded (h : Inv s items) : NoneStranded s := by
  intro hexec hposting hclosing
  have hitems : items = [] := by
    by_contra hitems
    rcases h.covered hexec hitems with ⟨p, hp⟩ | ⟨w, hw⟩
    · exact hposting p hp.posting
    · exact hclosing w hw
  rw [h.posted, hitems, map_nil, append_nil]

section

variable [DecidableEq P]

theorem Inv.setProducer (h : Inv s items) (pc : ProducerPc M) (hpc : pc ≠ .claimed)
    (hkept : (s.producer p).Wakes s.exec → (s.exec = .idle ∨ s.exec = .dormant) → pc.Wakes s.exec) (n : Nat) :
    Inv ({ s with queued := n }.setProducer p pc) items := by
  constructor
  · exact h.holds
  · exact h.posted
  · exact h.owned
  · exact h.token.setProducer pc hpc
  · exact h.settled
  · intro hexec
    exact h.covered.setProducer (fun hp => hkept hp hexec) hexec

variable [DecidableEq M]

theorem Inv.exchange {d : Desc M} (h : Inv s items) (hd : d ∉ items)
    (htoken : Token s.deactivateToken (items ++ [d]) (update s.producer p (.linking d)) s.worker) :
    Inv (s.exchange p d) (items ++ [d]) := by
  constructor
  · exact h.holds.exchange hd
  · rw [State.exchange, h.posted, map_append, append_assoc]
    rfl
  · exact h.owned
  · exact htoken
  · refine ⟨fun _ htail => ?_, fun _ _ htail => ?_⟩ <;> cases htail
  · exact Covered.posting trivial

theorem Inv.notify (h : Inv s items) {npc : ExecState.NotifyPc} (hp : s.producer p = .notify npc)
    (hstep : stepProducer s p = some s') : Inv s' items := by
  rw [stepProducer, hp] at hstep
  cases hstep
  rcases s.exec.notifyEnqueuedFast_cases npc with ⟨hsame, hnot⟩ | ⟨hrest, hwake⟩
  · have hset := h.setProducer (p := p) (.afterNotify (s.exec.notifyEnqueuedFast npc).2) ?_ ?_ s.queued
    · simp only [hsame]
      exact hset
    · exact ProducerPc.afterNotify_ne_claimed _
    · intro hwakes hrest
      rw [hp] at hwakes
      obtain ⟨npc', hgoto, hwakes'⟩ := notify_wakes hwakes hsame hrest
      rw [hgoto]
      exact hwakes'
  · rw [hwake]
    constructor
    · exact h.holds
    · exact h.posted
    · refine h.owned.of_not_running ?_ _
      rcases hrest with hrest | hrest <;> simp [hrest]
    · exact h.token.setProducer _ (ProducerPc.afterNotify_ne_claimed _)
    · exact h.settled.awake (by simp [State.setProducer]) (by simp [State.setProducer])
    · exact .awake (by simp [State.setProducer]) (by simp [State.setProducer])

theorem Inv.stepPostDeactivate (h : Inv s items) (hstep : stepPostDeactivate s p = some s') : Inv s' items := by
  rw [Activation.stepPostDeactivate] at hstep
  split at hstep
  · next hidle =>
    split at hstep
    · cases hstep
      exact h
    · next hfree =>
      cases hstep
      have htoken := h.token
      rw [Bool.not_eq_true] at hfree
      rw [hfree] at htoken
      constructor
      · exact h.holds
      · exact h.posted
      · exact h.owned
      · exact htoken.claim
      · exact h.settled
      · refine h.covered.setProducer fun hwakes => ?_
        rw [hidle] at hwakes
        exact hwakes
  · cases hstep

theorem Inv.stepPost {m : M} (h : Inv s items) (hstep : stepPost s p m = some s') : ∃ items', Inv s' items' := by
  rw [Activation.stepPost] at hstep
  split at hstep
  · next hpost =>
    cases hstep
    have hcount := hpost.2
    refine ⟨_, h.exchange (fun hmem => ?_) (h.token.post m)⟩
    have hpos : 0 < (items.map Node.item).count (.item (.message m)) :=
      count_pos_iff.mpr (mem_map_of_mem hmem)
    rw [h.posted, count_append] at hcount
    omega
  · cases hstep

theorem Inv.stepProducer (h : Inv s items) (hstep : stepProducer s p = some s') : ∃ items', Inv s' items' := by
  cases hp : s.producer p with
  | idle =>
    rw [Activation.stepProducer, hp] at hstep
    cases hstep
  | claimed =>
    rw [Activation.stepProducer, hp] at hstep
    cases hstep
    exact ⟨_, h.exchange (h.token.claimed p hp).2.1 (h.token.postDeactivate hp)⟩
  | linking d =>
    rw [Activation.stepProducer, hp] at hstep
    cases hstep
    refine ⟨items, ?_⟩
    constructor
    · exact h.holds.link d
    · exact h.posted
    · exact h.owned
    · exact h.token.setProducer _ (by simp)
    · rw [State.setProducer, Queue.link_tail]
      exact h.settled
    · exact Covered.posting trivial
  | notify npc => exact ⟨items, h.notify hp hstep⟩
  | schedule =>
    rw [Activation.stepProducer, hp] at hstep
    cases hstep
    exact ⟨items, h.setProducer .idle (by simp) (by rw [hp]; exact fun hwakes _ => hwakes) _⟩

end

variable [DecidableEq W]

theorem Inv.goto (h : Inv s items) (ho : (s.worker w).Owns) (pc : WorkerPc M) (hdeq : s.deq ≠ .idle → pc.InCall)
    (htoken : ¬ pc.HoldsToken) (hclose : pc = .closeOut → s.mailbox.tail = .stub → items = []) (e : Nat) :
    Inv ({ s with lingerEvidence := e }.setWorker w pc) items := by
  obtain ⟨hidle, hdormant⟩ := h.exec_running ho
  constructor
  · exact h.holds
  · exact h.posted
  · exact h.owned.stay ho hdeq
  · exact h.token.setWorker pc htoken
  · exact .stay h.owned ho hclose
  · exact .awake hidle hdormant

theorem Inv.inside (h : Inv s items) (hin : (s.worker w).InCall) {q : Mailbox (Desc M)} {c : Consumer}
    (hq : q.Holds c items) : Inv { s with mailbox := q, deq := c } items := by
  obtain ⟨hidle, hdormant⟩ := h.exec_running hin.owns
  have hsettled : Settled s.exec q.tail items (update s.worker w (s.worker w)) := by
    refine .stay h.owned hin.owns fun hpc => ?_
    rw [hpc] at hin
    cases hin
  rw [update_eq_self] at hsettled
  constructor
  · exact hq
  · exact h.posted
  · exact h.owned.inside hin c
  · exact h.token
  · exact hsettled
  · exact .awake hidle hdormant

theorem Inv.take {d : Desc M} {rest : List (Desc M)} (h : Inv s (d :: rest)) (hin : (s.worker w).InCall)
    {q : Mailbox (Desc M)} (hq : q.Holds .idle rest) (e : Nat) (l : Local) :
    Inv ({ s with
      mailbox := q, deq := .idle, lingerEvidence := e
      dequeued := s.dequeued ++ [Node.item d] }.setWorker w (.dispatch l (.item d))) rest := by
  obtain ⟨hidle, hdormant⟩ := h.exec_running hin.owns
  constructor
  · exact hq
  · rw [setWorker, h.posted, map_cons, append_assoc]
    rfl
  · exact h.owned.stay hin.owns fun hd => absurd rfl hd
  · exact h.token.dequeue (nodup_cons.mp h.holds.nodup).1
  · exact .stay h.owned hin.owns nofun
  · exact .awake hidle hdormant

theorem Inv.outside (h : Inv s items) (ho : ¬ (s.worker w).Owns) (pc : WorkerPc M) (hpc : ¬ pc.Owns)
    (hkept : (s.worker w).Closing s.exec → items ≠ [] → pc.Closing s.exec) (n : Nat) :
    Inv ({ s with queued := n }.setWorker w pc) items := by
  constructor
  · exact h.holds
  · exact h.posted
  · exact h.owned.outside ho hpc
  · exact h.token.setWorker _ fun ht => hpc ht.owns
  · exact h.settled.setWorker pc fun heq => hpc (by rw [heq]; trivial)
  · intro hexec hitems
    exact h.covered.setWorker (fun hw => hkept hw hitems) hexec hitems

theorem Inv.enter (h : Inv s items) (hexec : s.exec ≠ .running) (l : Local) :
    Inv ({ s with exec := .running }.setWorker w (.loop l)) items := by
  constructor
  · exact h.holds
  · exact h.posted
  · exact h.owned.enter hexec
  · exact h.token.setWorker _ id
  · exact (h.settled.setWorker (.loop l) (by simp)).awake (by simp [setWorker]) (by simp [setWorker])
  · exact .awake (by simp [setWorker]) (by simp [setWorker])

theorem Inv.leave (h : Inv s items) (ho : (s.worker w).Owns) (hin : ¬ (s.worker w).InCall) (pc : WorkerPc M)
    (hpc : ¬ pc.Owns) {exec' : ExecState} (hidle : exec' ≠ .idle) (hdormant : exec' ≠ .dormant) :
    Inv ({ s with exec := exec' }.setWorker w pc) items := by
  constructor
  · exact h.holds
  · exact h.posted
  · exact h.owned.leave ho hin hpc exec'
  · exact h.token.setWorker _ fun ht => hpc ht.owns
  · exact (h.settled.setWorker pc fun heq => hpc (by rw [heq]; trivial)).awake hidle hdormant
  · exact .awake hidle hdormant

theorem Inv.release (h : Inv s items) (hw : s.worker w = .closeOut) (r : ExecState.Rest) (b : Bool) :
    Inv ({ s with retireRequested := b, exec := r.state }.setWorker w (.probe r)) items := by
  have ho : (s.worker w).Owns := by
    rw [hw]
    trivial
  constructor
  · exact h.holds
  · exact h.posted
  · exact h.owned.leave ho (by rw [hw]; exact id) id r.state
  · exact h.token.setWorker _ id
  · exact ⟨fun _ => h.settled.closing w hw, (h.settled.setWorker (.probe r) (by simp)).closing⟩
  · exact Covered.closing rfl

theorem Inv.clear (h : Inv s items) {l : Local} (hw : s.worker w = .dispatch l (.item .deactivate)) :
    Inv ({ s with retireRequested := true, deactivateToken := false }.setWorker w (.loop l)) items := by
  have ho : (s.worker w).Owns := by
    rw [hw]
    trivial
  obtain ⟨hidle, hdormant⟩ := h.exec_running ho
  constructor
  · exact h.holds
  · exact h.posted
  · exact h.owned.stay ho fun hd => absurd (h.owned.deq_idle ho (by rw [hw]; exact id)) hd
  · exact h.token.clear h.owned (by rw [hw]; rfl) id
  · exact .stay h.owned ho (by simp)
  · exact .awake hidle hdormant

variable [DecidableEq M] {cfg : Config} {l : Local}

theorem Inv.probe (h : Inv s items) {r : ExecState.Rest} (hw : s.worker w = .probe r) :
    Inv (s.setWorker w (if s.mailbox.probeHasWork then .reacquire r else .away)) items := by
  have ho : ¬ (s.worker w).Owns := by
    rw [hw]
    exact id
  by_cases htail : s.mailbox.tail = .stub
  · rw [if_neg (by simp [Mailbox.probeHasWork, htail])]
    refine h.outside ho .away id (fun hclosing hitems => ?_) s.queued
    rw [hw] at hclosing
    have hrest : s.exec = .idle ∨ s.exec = .dormant := by
      rw [← show r.state = s.exec from hclosing]
      cases r with
      | idle => exact Or.inl rfl
      | dormant => exact Or.inr rfl
    exact absurd (h.settled.resting hrest htail) hitems
  · rw [if_pos (by simp [Mailbox.probeHasWork, htail])]
    refine h.outside ho (.reacquire r) id (fun hclosing _ => ?_) s.queued
    rw [hw] at hclosing
    exact hclosing

theorem Inv.stepDrain (h : Inv s items) (hw : s.worker w = .dequeue l) :
    ∃ items', Inv (stepDequeue s fun s r => drained cfg s w l r) items' := by
  have hin : (s.worker w).InCall := by
    rw [hw]
    trivial
  have hspec := h.holds.consume
  simp only [stepDequeue, Mailbox.tryDequeue]
  generalize s.mailbox.consume s.deq = r at hspec ⊢
  cases hspec with
  | going hq => exact ⟨items, h.inside hin hq⟩
  | message hitems hq =>
    subst hitems
    exact ⟨_, h.take hin hq _ l.take⟩
  | empty hitems htail hq =>
    have hmid := h.inside hin hq
    simp only [map_some, Mailbox.drainResult, Activation.drained]
    cases lingerBound cfg s.lingerEvidence with
    | zero => exact ⟨items, hmid.goto hin.owns .closeOut (fun hd => absurd rfl hd) id (fun _ _ => hitems) _⟩
    | succ left => exact ⟨items, hmid.goto hin.owns (.linger l left) (fun _ => trivial) id (by simp) _⟩
  | busy hq =>
    have hmid := h.inside hin hq
    simp only [map_some, Mailbox.drainResult, Activation.drained]
    by_cases hspin : l.busy + 1 < cfg.busySpinLimit
    · rw [if_pos hspin]
      exact ⟨items, hmid.goto hin.owns (.loop _) (fun hd => absurd rfl hd) id (by simp) _⟩
    · rw [if_neg hspin]
      exact ⟨items, hmid.goto hin.owns .yield (fun hd => absurd rfl hd) id (by simp) _⟩

def WorkerPc.lastRepoll : WorkerPc M → Bool
  | .linger _ 0 => true
  | _ => false

/-- The last re-poll of a linger may send the activation to rest after `Busy`: then a tail on the stub has
to mean that nothing is left. -/
def Sound (s : State M W P) : Label M W P → Prop
  | .worker w =>
    (s.worker w).lastRepoll → (s.mailbox.tryDequeue s.deq).2.2 = some { status := .busy } →
      s.mailbox.tail = .stub → s.posted = s.dequeued
  | _ => True

instance (s : State M W P) : (a : Label M W P) → Decidable (Sound s a)
  | .worker w => inferInstanceAs (Decidable ((s.worker w).lastRepoll → _))
  | .post _ _ | .postDeactivate _ | .producer _ | .select _ | .suspend _ => .isTrue trivial

theorem Inv.stepLinger {left : Nat} (h : Inv s items) (hw : s.worker w = .linger l left)
    (hsound : Sound s (.worker w : Label M W P)) :
    ∃ items', Inv (stepDequeue s fun s r => repolled s w l left r) items' := by
  have hin : (s.worker w).InCall := by
    rw [hw]
    trivial
  have hspec := h.holds.consume
  have hlast : (s.worker w).lastRepoll → (s.mailbox.tryDequeue s.deq).2.2 = some { status := .busy } →
      s.mailbox.tail = .stub → s.posted = s.dequeued := hsound
  simp only [stepDequeue, Mailbox.tryDequeue] at hlast ⊢
  generalize s.mailbox.consume s.deq = r at hspec hlast ⊢
  cases hspec with
  | going hq => exact ⟨items, h.inside hin hq⟩
  | message hitems hq =>
    subst hitems
    exact ⟨_, h.take hin hq _ l.take⟩
  | empty hitems htail hq =>
    have hmid := h.inside hin hq
    simp only [map_some, Mailbox.drainResult, Activation.repolled]
    cases left with
    | zero => exact ⟨items, hmid.goto hin.owns .closeOut (fun hd => absurd rfl hd) id (fun _ _ => hitems) _⟩
    | succ left => exact ⟨items, hmid.goto hin.owns (.linger l left) (fun hd => absurd rfl hd) id (by simp) _⟩
  | busy hq =>
    have hmid := h.inside hin hq
    simp only [map_some, Mailbox.drainResult, Activation.repolled]
    cases left with
    | zero =>
      refine ⟨items, hmid.goto hin.owns .closeOut (fun hd => absurd rfl hd) id (fun _ htail => ?_) _⟩
      exact h.items_nil (hlast (by rw [hw]; rfl) rfl htail)
    | succ left => exact ⟨items, hmid.goto hin.owns (.linger l left) (fun hd => absurd rfl hd) id (by simp) _⟩

theorem Inv.stepWorker (h : Inv s items) (hsound : Sound s (.worker w : Label M W P))
    (hstep : stepWorker cfg s w = some s') : ∃ items', Inv s' items' := by
  rw [Activation.stepWorker.eq_def] at hstep
  cases hw : s.worker w with
  | away =>
    rw [hw] at hstep
    cases hstep
  | acquire =>
    rw [hw] at hstep
    cases hstep
    rw [ExecState.tryAcquire, ExecState.cas]
    by_cases hexec : s.exec = .scheduled
    · rw [if_pos hexec]
      exact ⟨items, h.enter (by simp [hexec]) _⟩
    · rw [if_neg hexec]
      exact ⟨items, h.outside (by rw [hw]; exact id) .away id (by rw [hw]; exact False.elim) s.queued⟩
  | loop l =>
    have ho : (s.worker w).Owns := by
      rw [hw]
      trivial
    have hidle : s.deq = .idle := h.owned.deq_idle ho (by rw [hw]; exact id)
    rw [hw] at hstep
    simp only at hstep
    split at hstep
    · cases hstep
      exact ⟨items, h.goto ho .yield (fun hd => absurd hidle hd) id (by simp) _⟩
    · cases hstep
      exact ⟨items, h.goto ho (.dequeue l) (fun _ => trivial) id (by simp) _⟩
  | dequeue l =>
    rw [hw] at hstep
    cases hstep
    exact h.stepDrain hw
  | linger l left =>
    rw [hw] at hstep
    cases hstep
    exact h.stepLinger hw hsound
  | dispatch l d =>
    have ho : (s.worker w).Owns := by
      rw [hw]
      trivial
    have hidle : s.deq = .idle := h.owned.deq_idle ho (by rw [hw]; exact id)
    have hloop : Inv (s.setWorker w (.loop l)) items :=
      h.goto ho (.loop l) (fun hd => absurd hidle hd) id (by simp) s.lingerEvidence
    rw [hw] at hstep
    cases d with
    | stub =>
      cases hstep
      exact ⟨items, hloop⟩
    | item d =>
      cases d with
      | message m =>
        cases hstep
        exact ⟨items, hloop⟩
      | deactivate =>
        cases hstep
        exact ⟨items, h.clear hw⟩
  | closeOut =>
    rw [hw] at hstep
    simp only at hstep
    split at hstep
    · cases hstep
      exact ⟨items, h.release hw .dormant false⟩
    · cases hstep
      exact ⟨items, h.release hw .idle s.retireRequested⟩
  | probe r =>
    rw [hw] at hstep
    cases hstep
    exact ⟨items, h.probe hw⟩
  | reacquire r =>
    rw [hw] at hstep
    cases hstep
    rw [ExecState.reacquire_eq, ExecState.cas]
    by_cases hexec : s.exec = r.state
    · rw [if_pos hexec]
      exact ⟨items, h.enter (by rw [hexec]; exact r.state_ne_running) _⟩
    · rw [if_neg hexec]
      refine ⟨items, h.outside (by rw [hw]; exact id) .away id (fun hclosing => ?_) s.queued⟩
      rw [hw] at hclosing
      exact absurd (Eq.symm hclosing) hexec
  | yield =>
    rw [hw] at hstep
    cases hstep
    exact ⟨items, h.leave (by rw [hw]; trivial) (by rw [hw]; exact id) .requeue id (by simp) (by simp)⟩
  | requeue =>
    rw [hw] at hstep
    cases hstep
    exact ⟨items, h.outside (by rw [hw]; exact id) .away id (by rw [hw]; exact False.elim) _⟩
  | park =>
    rw [hw] at hstep
    cases hstep
    exact ⟨items, h.leave (by rw [hw]; trivial) (by rw [hw]; exact id) .away id (by simp) (by simp)⟩

variable [DecidableEq P]

theorem Inv.step {a : Label M W P} (h : Inv s items) (hsound : Sound s a) (hstep : step cfg s a = some s') :
    ∃ items', Inv s' items' := by
  cases a with
  | post p m => exact h.stepPost hstep
  | postDeactivate p => exact ⟨items, h.stepPostDeactivate hstep⟩
  | producer p => exact h.stepProducer hstep
  | select w =>
    simp only [Activation.step, stepSelect] at hstep
    split at hstep
    · next haway =>
      cases hstep
      exact ⟨items, h.outside (by rw [haway.1]; exact id) .acquire id (by rw [haway.1]; exact False.elim) _⟩
    · cases hstep
  | worker w => exact h.stepWorker hsound hstep
  | suspend w =>
    simp only [Activation.step, stepSuspend] at hstep
    split at hstep
    · next l m hw =>
      cases hstep
      have ho : (s.worker w).Owns := by
        rw [hw]
        trivial
      have hidle : s.deq = .idle := h.owned.deq_idle ho (by rw [hw]; exact id)
      exact ⟨items, h.goto ho .park (fun hd => absurd hidle hd) id (by simp) s.lingerEvidence⟩
    · cases hstep

def Accounted (s : State M W P) : Prop := ∃ items, Inv s items

theorem no_message_stranded (cfg : Config) :
    ∀ s : State M W P, Reach (step cfg) Sound {} s → NoneStranded s := by
  intro s hreach
  have haccounted : Accounted s := by
    refine hreach.invariant ⟨[], .initial⟩ ?_
    intro s a s' ⟨items, hinv⟩ hsound hstep
    exact hinv.step hsound hstep
  obtain ⟨items, hinv⟩ := haccounted
  exact hinv.noneStranded

end

section

abbrev Run := List (Label Nat Unit Bool)

/-- Two messages in one drain and a third after it, which leaves enough evidence for one re-poll. -/
def warmUp : Run :=
  [Label.post false 1] ++ List.replicate 4 (Label.producer false) ++ [Label.post false 2] ++
    List.replicate 2 (Label.producer false) ++ [Label.select ()] ++ List.replicate 20 (Label.worker ()) ++
    [Label.post false 3] ++ List.replicate 4 (Label.producer false) ++ [Label.select ()] ++
    List.replicate 14 (Label.worker ())

def oneRepoll : Config := { budget := 64, lingerSpinLimit := 1, busySpinLimit := 4 }

set_option maxRecDepth 4000 in
theorem no_message_stranded_after_repoll : ∃ s : State Nat Unit Bool,
    s.posted.length = 3 ∧ s.exec = .idle ∧ NoneStranded s := by
  have hrun : (Machine.run (guarded (step oneRepoll) Sound) ({} : State Nat Unit Bool)
      (warmUp ++ List.replicate 5 (Label.worker ()))).map (fun s => (s.posted.length, s.exec)) = some (3, .idle) := by
    decide +kernel
  obtain ⟨s, hs, hview⟩ := map_eq_some_iff.mp hrun
  simp only [Prod.mk.injEq] at hview
  exact ⟨s, hview.1, hview.2, no_message_stranded oneRepoll s (reach_of_run hs)⟩

/-- The re-poll takes the last node, message 4, and message 5 comes in before the stub is put back: the
stub lands behind message 5, whose link is missing, and the re-poll is `Busy`. -/
def gap : Run :=
  [Label.post false 4] ++ List.replicate 2 (Label.producer false) ++ List.replicate 4 (Label.worker ()) ++
    [Label.post true 5] ++ List.replicate 3 (Label.worker ()) ++ List.replicate 2 (Label.producer true) ++
    List.replicate 2 (Label.worker ())

set_option maxRecDepth 4000 in
theorem stranded_after_busy_repoll :
    ¬ ∀ s : State Nat Unit Bool, Reachable (step oneRepoll) {} s → NoneStranded s := by
  intro hall
  have hrun : (Machine.run (step oneRepoll) ({} : State Nat Unit Bool) (warmUp ++ gap)).map (fun s =>
      (s.exec, s.producer false, s.producer true, s.worker (), s.posted.length, s.dequeued.length)) =
        some (.idle, .idle, .idle, .away, 5, 3) := by
    decide +kernel
  obtain ⟨s, hs, hview⟩ := map_eq_some_iff.mp hrun
  simp only [Prod.mk.injEq] at hview
  obtain ⟨hexec, hfalse, htrue, hworker, hposted, hdequeued⟩ := hview
  have hall := hall s (reachable_of_run hs) (.inl hexec) ?_ ?_
  · rw [hall, hdequeued] at hposted
    cases hposted
  · intro p
    cases p with
    | false => rw [hfalse]; exact id
    | true => rw [htrue]; exact id
  · intro w
    rw [hworker]
    exact id

end

end Quark.Activation
