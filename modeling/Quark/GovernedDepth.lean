import Mathlib.Algebra.Group.Nat.Defs
import Quark.DrainToken
import Quark.Lib.Census

/-! The depth of a governed mailbox, the difference of two counters that are kept on different sides, against what
is on its way to the drain. -/
set_option linter.unusedSectionVars false

namespace Quark.Drain

open Machine State Function List Option UInt64 Vyukov Census
open Activation (Desc)

variable {M P : Type} {cfg : Config} {s s' : State M P} {p : P}

def ordinary : Node (Desc M) → Bool
  | .item (.message _) => true
  | _ => false

/-- `++enqueued` is done, the exchange is not. -/
def ProducerPc.Counted (pc : ProducerPc M) : Prop := ∃ m, pc = .exchange (.message m)

instance : DecidablePred (ProducerPc.Counted (M := M))
  | .exchange (.message m) => .isTrue ⟨m, rfl⟩
  | .exchange .deactivate | .idle | .loadEnqueued .. | .loadDrained .. | .overflow _ | .count _ | .linking _ =>
    .isFalse (by simp [ProducerPc.Counted])

def LanePc.uncounted : LanePc M → Option (Desc M)
  | .resident _ d | .drained _ d _ => some d
  | _ => none

def LanePc.uncountedMessages (pc : LanePc M) : Nat :=
  match pc.uncounted with
  | some (.message _) => 1
  | _ => 0

def LanePc.uncountedControls (pc : LanePc M) : Nat :=
  match pc.uncounted with
  | some .deactivate => 1
  | _ => 0

namespace State

def mail (s : State M P) : List (Node (Desc M)) := s.posted.drop s.dequeued.length

variable [Fintype P]

/-- The messages enqueued and not yet dequeued, those between the counter and the exchange among them; a message
counts as dequeued once the drain has counted it. -/
def outstanding (s : State M P) : Nat :=
  census ProducerPc.Counted s.producer + s.mail.countP ordinary + s.lane.uncountedMessages

end State

section

variable [DecidableEq M] [DecidableEq P] [Fintype P]

/-- The drain is not about to count a control descriptor. -/
def Uncontrolled (s : State M P) : Label M P → Prop
  | .lane _ => s.lane.uncounted ≠ some .deactivate
  | _ => True

instance (s : State M P) : (a : Label M P) → Decidable (Uncontrolled s a)
  | .lane _ => inferInstanceAs (Decidable (s.lane.uncounted ≠ some .deactivate))
  | .post .. | .postDeactivate _ | .producer _ | .leave | .stop | .setLive .. => inferInstanceAs (Decidable True)

def Balanced (s : State M P) : Prop :=
  s.enqueued + s.dequeued.countP (fun n => !ordinary n) = s.drained + s.outstanding + s.lane.uncountedControls

theorem mail_append (h : s.dequeued <+: s.posted) (n : Node (Desc M)) :
    (s.posted ++ [n]).drop s.dequeued.length = s.mail ++ [n] :=
  drop_append_of_le_length h.length_le

theorem mail_cons {n : Node (Desc M)} (h : s.dequeued ++ [n] <+: s.posted) :
    s.mail = n :: s.posted.drop (s.dequeued ++ [n]).length := by
  obtain ⟨rest, hrest⟩ := h
  rw [mail, ← hrest, drop_left, append_assoc, drop_left]
  rfl

theorem Balanced.producers (h : Balanced s) (more : Nat)
    (hcounts : s'.enqueued + census ProducerPc.Counted s.producer =
      s.enqueued + census ProducerPc.Counted s'.producer + more)
    (hmail : s'.mail.countP ordinary = s.mail.countP ordinary + more) (hdequeued : s'.dequeued = s.dequeued)
    (hdrained : s'.drained = s.drained) (hlane : s'.lane.uncounted = s.lane.uncounted) : Balanced s' := by
  have hmessages : s'.lane.uncountedMessages = s.lane.uncountedMessages := by
    rw [LanePc.uncountedMessages, LanePc.uncountedMessages, hlane]
  have hcontrols : s'.lane.uncountedControls = s.lane.uncountedControls := by
    rw [LanePc.uncountedControls, LanePc.uncountedControls, hlane]
  rw [Balanced, outstanding] at h ⊢
  rw [hdequeued, hdrained, hmail, hmessages, hcontrols]
  omega

theorem Balanced.frame (h : Balanced s) (hlane : s'.lane.uncounted = s.lane.uncounted)
    (hproducer : s'.producer = s.producer) (henqueued : s'.enqueued = s.enqueued) (hposted : s'.posted = s.posted)
    (hdequeued : s'.dequeued = s.dequeued) (hdrained : s'.drained = s.drained) : Balanced s' := by
  refine h.producers 0 ?_ ?_ hdequeued hdrained hlane
  · rw [henqueued, hproducer]
    rfl
  · rw [mail, mail, hposted, hdequeued]
    rfl

theorem Balanced.producerGoto (h : Balanced s) (hfrom : ¬ (s.producer p).Counted) {pc : ProducerPc M}
    (hto : ¬ pc.Counted) : Balanced (s.setProducer p pc) := by
  have hsame : census ProducerPc.Counted (s.setProducer p pc).producer = census ProducerPc.Counted s.producer :=
    census_same (iff_of_false hfrom hto)
  refine h.producers 0 ?_ rfl rfl rfl rfl
  rw [hsame]
  rfl

theorem Balanced.stepProducer (h : Balanced s) (hbefore : s.dequeued <+: s.posted)
    (hstep : stepProducer s p = some s') : Balanced s' := by
  rw [Drain.stepProducer] at hstep
  cases hp : s.producer p with
  | idle => simp [hp] at hstep
  | loadEnqueued m bound =>
    simp only [hp, some.injEq] at hstep
    subst hstep
    exact h.producerGoto (by rw [hp]; rintro ⟨_, ⟨⟩⟩) (by rintro ⟨_, ⟨⟩⟩)
  | loadDrained m bound enqueued =>
    simp only [hp, some.injEq] at hstep
    subst hstep
    exact h.producerGoto (by rw [hp]; rintro ⟨_, ⟨⟩⟩) (by split <;> rintro ⟨_, ⟨⟩⟩)
  | overflow m =>
    simp only [hp] at hstep
    have hfrom : ¬ (s.producer p).Counted := by
      rw [hp]
      rintro ⟨_, ⟨⟩⟩
    cases hpolicy : s.overflow with
    | block =>
      simp only [hpolicy, some.injEq] at hstep
      subst hstep
      have hblocked : Balanced { s with blocks := s.blocks + 1 } := h
      exact hblocked.producerGoto hfrom (by rintro ⟨_, ⟨⟩⟩)
    | fail | dropNewest =>
      simp only [hpolicy, some.injEq] at hstep
      subst hstep
      have hshed : Balanced s.noteShed := h
      exact hshed.producerGoto hfrom (by rintro ⟨_, ⟨⟩⟩)
    | dropOldest =>
      simp only [hpolicy, some.injEq] at hstep
      subst hstep
      exact h.producerGoto hfrom (by rintro ⟨_, ⟨⟩⟩)
  | count m =>
    simp only [hp, some.injEq] at hstep
    subst hstep
    have hmove := census_update ProducerPc.Counted s.producer p (.exchange (.message m))
    rw [if_neg (by rw [hp]; rintro ⟨_, ⟨⟩⟩), if_pos ⟨m, rfl⟩] at hmove
    refine h.producers 0 ?_ rfl rfl rfl rfl
    change s.enqueued + 1 + _ = s.enqueued + census _ (update s.producer p (.exchange (.message m)))
    omega
  | exchange d =>
    simp only [hp, ite_none_right_eq_some, some.injEq] at hstep
    obtain ⟨_, rfl⟩ := hstep
    have hmove := census_update ProducerPc.Counted s.producer p (.linking d)
    rw [if_neg (show ¬ (ProducerPc.linking d).Counted by rintro ⟨_, ⟨⟩⟩), hp] at hmove
    refine h.producers (if ordinary (.item d) then 1 else 0) ?_ ?_ rfl rfl rfl
    · change s.enqueued + _ = s.enqueued + census _ (update s.producer p (.linking d)) + _
      cases d with
      | message m =>
        rw [if_pos ⟨m, rfl⟩] at hmove
        simp only [ordinary, if_true]
        omega
      | deactivate =>
        rw [if_neg (by rintro ⟨_, ⟨⟩⟩)] at hmove
        simp only [ordinary, Bool.false_eq_true, if_false]
        omega
    · change ((s.posted ++ [Node.item d]).drop s.dequeued.length).countP ordinary = _
      rw [mail_append hbefore, countP_append, countP_singleton]
  | linking d =>
    simp only [hp, some.injEq] at hstep
    subst hstep
    have hlinked : Balanced { s with mailbox := s.mailbox.link (.item d) } := h
    exact hlinked.producerGoto (by change ¬ (s.producer p).Counted; rw [hp]; rintro ⟨_, ⟨⟩⟩) (by rintro ⟨_, ⟨⟩⟩)

theorem stepClaim_frame (cfg : Config) (s : State M P) (l : Pass) (d : Desc M) (resident : UInt64) (v : Verdict) :
    (stepClaim cfg s l d resident v).producer = s.producer ∧ (stepClaim cfg s l d resident v).enqueued = s.enqueued ∧
      (stepClaim cfg s l d resident v).posted = s.posted ∧ (stepClaim cfg s l d resident v).dequeued = s.dequeued ∧
      (stepClaim cfg s l d resident v).drained = s.drained ∧ (stepClaim cfg s l d resident v).bound = s.bound ∧
      (stepClaim cfg s l d resident v).overflow = s.overflow ∧
      (stepClaim cfg s l d resident v).lane.uncounted = none := by
  unfold stepClaim dispatch deadLetterAndReclaim noteShed
  cases v.outcome <;> grind [LanePc.uncounted]

theorem stepDequeue_cases (hkind : cfg.kind = .governed) (s : State M P) (l : Pass) :
    (∃ m c pc, stepDequeue cfg s l = { s with mailbox := m, deq := c, lane := pc } ∧
        (pc = s.lane ∨ pc = .away)) ∨
      ∃ m c d, stepDequeue cfg s l = { s with
        mailbox := m, deq := c, dequeued := s.dequeued ++ [.item d], lane := .resident l.take d } := by
  rw [stepDequeue]
  generalize s.mailbox.tryDequeue s.deq = r
  rcases r with ⟨m, c, _ | ⟨_ | ⟨_ | d⟩, status⟩⟩
  · exact Or.inl ⟨m, c, s.lane, rfl, Or.inl rfl⟩
  · exact Or.inl ⟨m, c, .away, rfl, Or.inr rfl⟩
  · exact Or.inl ⟨m, c, .away, rfl, Or.inr rfl⟩
  · right
    refine ⟨m, c, d, ?_⟩
    simp only [taken, hkind, if_true]

theorem Balanced.stepLane (h : Balanced s) (hkind : cfg.kind = .governed) {v : Verdict}
    (hafter : (stepLane cfg s v).dequeued <+: (stepLane cfg s v).posted) : Balanced (stepLane cfg s v) := by
  rw [Drain.stepLane] at hafter ⊢
  cases hlane : s.lane with
  | away =>
    refine h.frame ?_ rfl rfl rfl rfl rfl
    rw [hlane]
    change (if cfg.kind = .governed then LanePc.overflow s.bound else .loop _ : LanePc M).uncounted = _
    split <;> rfl
  | overflow bound =>
    refine h.frame ?_ rfl rfl rfl rfl rfl
    rw [hlane]
    rfl
  | loop l =>
    refine h.frame ?_ rfl rfl rfl rfl rfl
    rw [hlane]
    change (if l.remaining = 0 then LanePc.away else .dequeue l : LanePc M).uncounted = _
    split <;> rfl
  | dequeue l =>
    simp only [hlane] at hafter ⊢
    rcases stepDequeue_cases hkind s l with ⟨m, c, pc, heq, hpc⟩ | ⟨m, c, d, heq⟩
    · rw [heq]
      refine h.frame ?_ rfl rfl rfl rfl rfl
      rcases hpc with rfl | rfl
      · rfl
      · rw [hlane]
        rfl
    · rw [heq] at hafter ⊢
      have hmail : s.mail = .item d :: s.posted.drop (s.dequeued ++ [Node.item d]).length := mail_cons hafter
      rw [Balanced, outstanding, hmail, hlane, countP_cons] at h
      rw [Balanced, outstanding, countP_append, countP_singleton, mail]
      cases d with
      | message m =>
        simp only [ordinary, LanePc.uncountedMessages, LanePc.uncountedControls, LanePc.uncounted, if_true,
          Bool.not_true, Bool.false_eq_true, if_false] at h ⊢
        omega
      | deactivate =>
        simp only [ordinary, LanePc.uncountedMessages, LanePc.uncountedControls, LanePc.uncounted, if_true,
          Bool.not_false, Bool.false_eq_true, if_false] at h ⊢
        omega
  | resident l d =>
    refine h.frame ?_ rfl rfl rfl rfl rfl
    rw [hlane]
    rfl
  | drained l d enqueued =>
    rw [Balanced, outstanding, hlane] at h
    rw [Balanced, outstanding, mail]
    cases d with
    | message m | deactivate =>
      simp only [LanePc.uncountedMessages, LanePc.uncountedControls, LanePc.uncounted, mail] at h ⊢
      omega
  | claim l d resident =>
    obtain ⟨hproducer, henqueued, hposted, hdequeued, hdrained, _, _, hnone⟩ := stepClaim_frame cfg s l d resident v
    refine h.frame ?_ hproducer henqueued hposted hdequeued hdrained
    rw [hnone, hlane]
    rfl

theorem Balanced.step (h : Balanced s) (hkind : cfg.kind = .governed) (hbefore : s.dequeued <+: s.posted)
    (hafter : s'.dequeued <+: s'.posted) {a : Label M P} (hstep : step cfg s a = some s') : Balanced s' := by
  cases a with
  | post p m checked =>
    simp only [Drain.step, stepPost, ite_none_right_eq_some, some.injEq] at hstep
    obtain ⟨hp, rfl⟩ := hstep
    refine h.producerGoto (by rw [hp]; rintro ⟨_, ⟨⟩⟩) ?_
    simp only [hkind]
    split <;> rintro ⟨_, ⟨⟩⟩
  | postDeactivate p =>
    simp only [Drain.step, stepPostDeactivate, ite_none_right_eq_some] at hstep
    obtain ⟨hp, hstep⟩ := hstep
    split at hstep
    · cases hstep
      exact h
    · cases hstep
      have hclaimed : Balanced { s with deactivateToken := true } := h
      exact hclaimed.producerGoto (by change ¬ (s.producer p).Counted; rw [hp]; rintro ⟨_, ⟨⟩⟩) (by rintro ⟨_, ⟨⟩⟩)
  | producer p => exact h.stepProducer hbefore hstep
  | lane v =>
    cases hstep
    exact h.stepLane hkind hafter
  | leave =>
    simp only [Drain.step, stepLeave] at hstep
    split at hstep
    · rw [if_neg (by rw [hkind]; rintro ⟨_, ⟨⟩⟩)] at hstep
      cases hstep
    · cases hstep
  | stop | setLive bound overflow =>
    cases hstep
    exact h

theorem sound_of_governed (hkind : cfg.kind = .governed) (s : State M P) (a : Label M P) : Sound cfg s a := by
  cases a with
  | lane v =>
    rintro ⟨hreentrant, _⟩
    rw [hkind] at hreentrant
    cases hreentrant
  | _ => trivial

def initial (bound : UInt32) (overflow : Overflow) : State M P := { bound, overflow }

theorem initial_inv (bound : UInt32) (overflow : Overflow) : Inv (initial bound overflow : State M P) [] :=
  start_inv.of_view rfl rfl

theorem initial_balanced (bound : UInt32) (overflow : Overflow) : Balanced (initial bound overflow : State M P) := by
  have hnone : census ProducerPc.Counted (initial bound overflow : State M P).producer = 0 := by
    by_contra hne
    obtain ⟨p, hp⟩ := census_pos.mp (Nat.pos_of_ne_zero hne)
    obtain ⟨m, hm⟩ := hp
    cases hm
  rw [Balanced, outstanding, hnone]
  rfl

theorem Inv.taken {items : List (Desc M)} (h : Inv s items) : s.dequeued <+: s.posted := ⟨_, h.posted.symm⟩

theorem reachable_balanced (hkind : cfg.kind = .governed) {bound : UInt32} {overflow : Overflow}
    (h : Reachable (step cfg) (initial bound overflow : State M P) s) :
    Balanced s ∧ ∃ items, Inv s items := by
  induction h with
  | start => exact ⟨initial_balanced bound overflow, [], initial_inv bound overflow⟩
  | step _ _ hstep ih =>
    obtain ⟨hbalanced, items, hinv⟩ := ih
    obtain ⟨items', hinv'⟩ := hinv.step (sound_of_governed hkind _ _) hstep
    exact ⟨hbalanced.step hkind hinv.taken hinv'.taken hstep, items', hinv'⟩

theorem depth_of_exact (h : s.enqueued = s.drained + s.outstanding) :
    s.drained ≤ s.enqueued ∧ s.depth (UInt64.ofNat s.enqueued) = UInt64.ofNat s.outstanding := by
  refine ⟨by omega, ?_⟩
  rw [depth, h, ofNat_add, UInt64.add_comm, UInt64.add_sub_cancel]

theorem stepProducer_lane (hstep : stepProducer s p = some s') : s'.lane = s.lane ∧ s'.dequeued = s.dequeued ∧
    s'.drained = s.drained ∧ s'.bound = s.bound ∧ s'.overflow = s.overflow := by
  rw [stepProducer] at hstep
  cases hp : s.producer p with
  | idle => simp [hp] at hstep
  | overflow m =>
    simp only [hp] at hstep
    split at hstep <;> cases hstep <;> exact ⟨rfl, rfl, rfl, rfl, rfl⟩
  | exchange d =>
    simp only [hp, ite_none_right_eq_some, some.injEq] at hstep
    obtain ⟨_, rfl⟩ := hstep
    exact ⟨rfl, rfl, rfl, rfl, rfl⟩
  | _ =>
    simp only [hp, some.injEq] at hstep
    subst hstep
    exact ⟨rfl, rfl, rfl, rfl, rfl⟩

/-- No control descriptor was counted; one may be in the drain's hand. -/
def NoneCounted (s : State M P) : Prop := s.dequeued.countP (fun n => !ordinary n) = s.lane.uncountedControls

theorem NoneCounted.stepLane (h : NoneCounted s) (hkind : cfg.kind = .governed) {v : Verdict}
    (hok : s.lane.uncounted ≠ some .deactivate) : NoneCounted (stepLane cfg s v) := by
  have hnone (pc : LanePc M) (hpc : pc.uncounted = none) : pc.uncountedControls = 0 := by
    rw [LanePc.uncountedControls, hpc]
  rw [NoneCounted] at h
  rw [Drain.stepLane]
  cases hlane : s.lane with
  | away =>
    rw [hlane] at h
    refine h.trans (hnone _ ?_).symm
    change (if cfg.kind = .governed then LanePc.overflow s.bound else .loop _ : LanePc M).uncounted = _
    split <;> rfl
  | overflow bound =>
    rw [hlane] at h
    exact h
  | loop l =>
    rw [hlane] at h
    refine h.trans (hnone _ ?_).symm
    change (if l.remaining = 0 then LanePc.away else .dequeue l : LanePc M).uncounted = _
    split <;> rfl
  | dequeue l =>
    simp only
    rcases stepDequeue_cases hkind s l with ⟨m, c, pc, heq, hpc⟩ | ⟨m, c, d, heq⟩
    · rw [heq]
      rcases hpc with rfl | rfl
      · exact h
      · rw [hlane] at h
        exact h
    · rw [heq, NoneCounted, countP_append, countP_singleton, h, hlane]
      cases d <;> rfl
  | resident l d =>
    rw [hlane] at h
    exact h
  | drained l d enqueued =>
    rw [hlane] at h hok
    cases d with
    | message m => exact h
    | deactivate => exact absurd rfl hok
  | claim l d resident =>
    obtain ⟨_, _, _, hdequeued, _, _, _, hclaimed⟩ := stepClaim_frame cfg s l d resident v
    rw [hlane] at h
    rw [NoneCounted, hdequeued, h, hnone _ hclaimed]
    rfl

theorem NoneCounted.step (h : NoneCounted s) (hkind : cfg.kind = .governed) {a : Label M P}
    (hok : Uncontrolled s a) (hstep : step cfg s a = some s') : NoneCounted s' := by
  have hsame (hlane : s'.lane = s.lane) (hdequeued : s'.dequeued = s.dequeued) : NoneCounted s' := by
    rw [NoneCounted, hlane, hdequeued]
    exact h
  cases a with
  | post p m checked =>
    simp only [Drain.step, stepPost, ite_none_right_eq_some, some.injEq] at hstep
    obtain ⟨_, rfl⟩ := hstep
    exact hsame rfl rfl
  | postDeactivate p =>
    simp only [Drain.step, stepPostDeactivate, ite_none_right_eq_some] at hstep
    obtain ⟨_, hstep⟩ := hstep
    split at hstep <;> cases hstep <;> exact hsame rfl rfl
  | producer p =>
    obtain ⟨hlane, hdequeued, _⟩ := stepProducer_lane hstep
    exact hsame hlane hdequeued
  | lane v =>
    cases hstep
    exact h.stepLane hkind hok
  | leave =>
    simp only [Drain.step, stepLeave] at hstep
    split at hstep
    · rw [if_neg (by rw [hkind]; rintro ⟨_, ⟨⟩⟩)] at hstep
      cases hstep
    · cases hstep
  | stop | setLive bound overflow =>
    cases hstep
    exact hsame rfl rfl

theorem reach_noneCounted (hkind : cfg.kind = .governed) {bound : UInt32} {overflow : Overflow}
    (h : Reach (step cfg) Uncontrolled (initial bound overflow : State M P) s) : NoneCounted s :=
  h.invariant rfl fun _ _ _ hinv hok hstep => hinv.step hkind hok hstep

/-- One producer, `p`, and it goes through `post_governed`; the bound stays, and the policy refuses at the bound. -/
def Lone (p : P) (bound : UInt32) : Label M P → Prop
  | .post q _ checked => q = p ∧ checked = true
  | .setLive b o => b = bound ∧ o ≠ .dropOldest
  | _ => True

instance (p : P) (bound : UInt32) : (a : Label M P) → Decidable (Lone p bound a)
  | .post q _ checked => inferInstanceAs (Decidable (q = p ∧ checked = true))
  | .setLive b o => inferInstanceAs (Decidable (b = bound ∧ o ≠ .dropOldest))
  | .postDeactivate _ | .producer _ | .lane _ | .leave | .stop => inferInstanceAs (Decidable True)

/-- What keeps the mailbox within its bound. -/
structure Room (p : P) (bound : UInt32) (s : State M P) : Prop where
  bound_eq : s.bound = bound
  policy : s.overflow ≠ .dropOldest
  others : ∀ q, q ≠ p →
    s.producer q = .idle ∨ s.producer q = .exchange .deactivate ∨ s.producer q = .linking .deactivate
  reading : ∀ m b, s.producer p = .loadEnqueued m b → b = bound
  loaded : ∀ m b e, s.producer p = .loadDrained m b e → b = bound ∧ e = UInt64.ofNat s.enqueued
  below : s.enqueued ≤ s.drained + bound.toNat
  admitted : ∀ m, s.producer p = .count m → s.enqueued < s.drained + bound.toNat

variable {q : P} {bound : UInt32}

theorem Room.frame (h : Room p bound s) (hp : s'.producer p = s.producer p)
    (hothers : ∀ q, q ≠ p →
      s'.producer q = .idle ∨ s'.producer q = .exchange .deactivate ∨ s'.producer q = .linking .deactivate)
    (hbound : s'.bound = s.bound) (hoverflow : s'.overflow = s.overflow) (henqueued : s'.enqueued = s.enqueued)
    (hdrained : s.drained ≤ s'.drained) : Room p bound s' := by
  constructor
  · exact hbound.trans h.bound_eq
  · rw [hoverflow]
    exact h.policy
  · exact hothers
  · intro m b hat
    exact h.reading m b (hp ▸ hat)
  · intro m b e hat
    rw [henqueued]
    exact h.loaded m b e (hp ▸ hat)
  · have hbelow := h.below
    omega
  · intro m hat
    have hadmitted := h.admitted m (hp ▸ hat)
    omega

theorem Room.other (h : Room p bound s) (hq : q ≠ p) {pc : ProducerPc M}
    (hpc : pc = .idle ∨ pc = .exchange .deactivate ∨ pc = .linking .deactivate)
    (hproducer : s'.producer = update s.producer q pc) (hbound : s'.bound = s.bound)
    (hoverflow : s'.overflow = s.overflow) (henqueued : s'.enqueued = s.enqueued)
    (hdrained : s'.drained = s.drained) : Room p bound s' := by
  refine h.frame ?_ ?_ hbound hoverflow henqueued (by omega)
  · rw [hproducer, update_of_ne (Ne.symm hq)]
  · intro r hr
    by_cases hrq : r = q
    · subst hrq
      rw [hproducer, update_self]
      exact hpc
    · rw [hproducer, update_of_ne hrq]
      exact h.others r hr

theorem Room.own (h : Room p bound s) (pc : ProducerPc M) (hproducer : s'.producer = update s.producer p pc)
    (hbound : s'.bound = s.bound) (hoverflow : s'.overflow = s.overflow) (hdrained : s'.drained = s.drained)
    (hreading : ∀ m b, pc = .loadEnqueued m b → b = bound)
    (hloaded : ∀ m b e, pc = .loadDrained m b e → b = bound ∧ e = UInt64.ofNat s'.enqueued)
    (hbelow : s'.enqueued ≤ s.drained + bound.toNat)
    (hadmitted : ∀ m, pc = .count m → s'.enqueued < s.drained + bound.toNat) : Room p bound s' := by
  have hp : s'.producer p = pc := by rw [hproducer, update_self]
  constructor
  · exact hbound.trans h.bound_eq
  · rw [hoverflow]
    exact h.policy
  · intro r hr
    rw [hproducer, update_of_ne hr]
    exact h.others r hr
  · intro m b hat
    exact hreading m b (hp ▸ hat)
  · intro m b e hat
    exact hloaded m b e (hp ▸ hat)
  · omega
  · intro m hat
    have hless := hadmitted m (hp ▸ hat)
    omega

theorem depth_lt_of_not_le (hle : s.drained ≤ s.enqueued) (hbelow : s.enqueued ≤ s.drained + bound.toNat)
    (hroom : ¬ bound.toUInt64 ≤ s.depth (UInt64.ofNat s.enqueued)) :
    s.enqueued < s.drained + bound.toNat := by
  obtain ⟨more, hmore⟩ := Nat.exists_eq_add_of_le hle
  have hbound := bound.toNat_lt
  rw [depth, hmore, ofNat_add, UInt64.add_comm, UInt64.add_sub_cancel, le_iff_toNat_le,
    toNat_ofNat', UInt32.toNat_toUInt64, Nat.mod_eq_of_lt (by omega)] at hroom
  omega

theorem Room.stepProducer (h : Room p bound s) (hle : s.drained ≤ s.enqueued)
    (hstep : stepProducer s q = some s') : Room p bound s' := by
  rw [Drain.stepProducer] at hstep
  by_cases hq : q = p
  · subst hq
    cases hp : s.producer q with
    | idle => simp [hp] at hstep
    | loadEnqueued m b =>
      simp only [hp, some.injEq] at hstep
      subst hstep
      refine h.own _ rfl rfl rfl rfl (by simp) ?_ h.below (by simp)
      rintro m' b' e heq
      cases heq
      exact ⟨h.reading m b hp, rfl⟩
    | loadDrained m b e =>
      simp only [hp, some.injEq] at hstep
      subst hstep
      obtain ⟨rfl, rfl⟩ := h.loaded m b e hp
      refine h.own _ rfl rfl rfl rfl ?_ ?_ h.below ?_
      · intro m' b' heq
        split at heq <;> cases heq
      · intro m' b' e' heq
        split at heq <;> cases heq
      · intro m' heq
        split at heq
        · cases heq
        · next hroom => exact depth_lt_of_not_le hle h.below hroom
    | overflow m =>
      simp only [hp] at hstep
      split at hstep
      · cases hstep
        exact h.own .idle rfl rfl rfl rfl (by simp) (by simp) h.below (by simp)
      · cases hstep
        exact h.own .idle rfl rfl rfl rfl (by simp) (by simp) h.below (by simp)
      · cases hstep
        exact h.own .idle rfl rfl rfl rfl (by simp) (by simp) h.below (by simp)
      · next hpolicy => exact absurd hpolicy h.policy
    | count m =>
      simp only [hp, some.injEq] at hstep
      subst hstep
      exact h.own (.exchange (.message m)) rfl rfl rfl rfl (by simp) (by simp) (h.admitted m hp) (by simp)
    | exchange d =>
      simp only [hp, ite_none_right_eq_some, some.injEq] at hstep
      obtain ⟨_, rfl⟩ := hstep
      exact h.own (.linking d) rfl rfl rfl rfl (by simp) (by simp) h.below (by simp)
    | linking d =>
      simp only [hp, some.injEq] at hstep
      subst hstep
      exact h.own .idle rfl rfl rfl rfl (by simp) (by simp) h.below (by simp)
  · rcases h.others q hq with hat | hat | hat
    · simp [hat] at hstep
    · simp only [hat, ite_none_right_eq_some, some.injEq] at hstep
      obtain ⟨_, rfl⟩ := hstep
      exact h.other hq (Or.inr (Or.inr rfl)) rfl rfl rfl rfl rfl
    · simp only [hat, some.injEq] at hstep
      subst hstep
      exact h.other hq (Or.inl rfl) rfl rfl rfl rfl rfl

theorem stepLane_counters (hkind : cfg.kind = .governed) (s : State M P) (v : Verdict) :
    (stepLane cfg s v).producer = s.producer ∧ (stepLane cfg s v).bound = s.bound ∧
      (stepLane cfg s v).overflow = s.overflow ∧ (stepLane cfg s v).enqueued = s.enqueued ∧
      s.drained ≤ (stepLane cfg s v).drained := by
  rw [stepLane]
  cases hlane : s.lane with
  | dequeue l =>
    simp only
    rcases stepDequeue_cases hkind s l with ⟨m, c, pc, heq, _⟩ | ⟨m, c, d, heq⟩
    all_goals
      rw [heq]
      exact ⟨rfl, rfl, rfl, rfl, le_rfl⟩
  | drained l d enqueued => exact ⟨rfl, rfl, rfl, rfl, Nat.le_succ _⟩
  | claim l d resident =>
    obtain ⟨hproducer, henqueued, _, _, hdrained, hbound, hoverflow, _⟩ := stepClaim_frame cfg s l d resident v
    exact ⟨hproducer, hbound, hoverflow, henqueued, le_of_eq hdrained.symm⟩
  | _ => exact ⟨rfl, rfl, rfl, rfl, le_rfl⟩

theorem Room.step (h : Room p bound s) (hkind : cfg.kind = .governed) (hne : bound ≠ 0)
    (hle : s.drained ≤ s.enqueued) {a : Label M P} (hlone : Lone p bound a) (hstep : step cfg s a = some s') :
    Room p bound s' := by
  cases a with
  | post q m checked =>
    obtain ⟨rfl, rfl⟩ := hlone
    simp only [Drain.step, stepPost, ite_none_right_eq_some, some.injEq] at hstep
    obtain ⟨_, rfl⟩ := hstep
    rw [hkind, h.bound_eq]
    simp only [true_and, ne_eq, hne, not_false_eq_true, if_true]
    refine h.own (.loadEnqueued m bound) rfl rfl rfl rfl ?_ (by simp) h.below (by simp)
    intro m' b heq
    cases heq
    rfl
  | postDeactivate q =>
    simp only [Drain.step, stepPostDeactivate, ite_none_right_eq_some] at hstep
    obtain ⟨_, hstep⟩ := hstep
    split at hstep
    · cases hstep
      exact h
    · cases hstep
      by_cases hq : q = p
      · subst hq
        exact h.own (.exchange .deactivate) rfl rfl rfl rfl (by simp) (by simp) h.below (by simp)
      · exact h.other hq (Or.inr (Or.inl rfl)) rfl rfl rfl rfl rfl
  | producer q => exact h.stepProducer hle hstep
  | lane v =>
    cases hstep
    obtain ⟨hproducer, hbound, hoverflow, henqueued, hdrained⟩ := stepLane_counters hkind s v
    refine h.frame (by rw [hproducer]) ?_ hbound hoverflow henqueued hdrained
    intro r hr
    rw [hproducer]
    exact h.others r hr
  | leave =>
    simp only [Drain.step, stepLeave] at hstep
    split at hstep
    · rw [if_neg (by rw [hkind]; rintro ⟨_, ⟨⟩⟩)] at hstep
      cases hstep
    · cases hstep
  | stop =>
    cases hstep
    exact h.frame rfl h.others rfl rfl rfl le_rfl
  | setLive b o =>
    obtain ⟨rfl, hpolicy⟩ := hlone
    cases hstep
    exact ⟨rfl, hpolicy, h.others, h.reading, h.loaded, h.below, h.admitted⟩

theorem reach_balanced (hkind : cfg.kind = .governed) {overflow : Overflow}
    (h : Reach (step cfg) Uncontrolled (initial bound overflow : State M P) s) :
    s.enqueued = s.drained + s.outstanding := by
  have hbalanced := (reachable_balanced hkind h.reachable).1
  have hnone := reach_noneCounted hkind h
  rw [Balanced] at hbalanced
  rw [NoneCounted] at hnone
  omega

theorem reach_room (hkind : cfg.kind = .governed) {overflow : Overflow} (hne : bound ≠ 0)
    (hpolicy : overflow ≠ .dropOldest)
    (h : Reach (step cfg) (fun s a => Uncontrolled s a ∧ Lone p bound a)
      (initial bound overflow : State M P) s) :
    Reach (step cfg) Uncontrolled (initial bound overflow) s ∧ Room p bound s := by
  induction h with
  | start =>
    refine ⟨.start, rfl, hpolicy, fun _ _ => Or.inl rfl, nofun, nofun, ?_, nofun⟩
    exact Nat.zero_le _
  | step _ hok hstep ih =>
    obtain ⟨hreach, hroom⟩ := ih
    exact ⟨hreach.step hok.1 hstep,
      hroom.step hkind hne (depth_of_exact (reach_balanced hkind hreach)).1 hok.2 hstep⟩

/-- And exactly then: as soon as one is counted, the counters are off. -/
theorem depth_iff (hkind : cfg.kind = .governed) {overflow : Overflow}
    (h : Reachable (step cfg) (initial bound overflow : State M P) s)
    (hfew : s.dequeued.countP (fun n => !ordinary n) < 2 ^ 64) :
    (s.drained ≤ s.enqueued ∧ s.depth (UInt64.ofNat s.enqueued) = UInt64.ofNat s.outstanding) ↔
      NoneCounted s := by
  have hbalanced := (reachable_balanced hkind h).1
  rw [Balanced] at hbalanced
  constructor
  · rintro ⟨hle, hdepth⟩
    obtain ⟨more, hmore⟩ := Nat.exists_eq_add_of_le hle
    rw [depth, hmore, ofNat_add, UInt64.add_comm, UInt64.add_sub_cancel] at hdepth
    have hmod := congrArg UInt64.toNat hdepth
    rw [toNat_ofNat', toNat_ofNat'] at hmod
    have hone : s.lane.uncountedControls ≤ 1 := by
      rw [LanePc.uncountedControls]
      split <;> omega
    rw [NoneCounted]
    omega
  · intro hnone
    rw [NoneCounted] at hnone
    apply depth_of_exact
    omega

def LanePc.counts : LanePc M → Bool
  | .drained .. => true
  | _ => false

/-- During a `depth()` call that made its first load in `first`: the drain counts nothing once a producer has counted
a message. -/
def Unmixed (first s : State M P) : Label M P → Prop
  | .lane _ => s.lane.counts = true → s.enqueued = first.enqueued
  | _ => True

instance (first s : State M P) : (a : Label M P) → Decidable (Unmixed first s a)
  | .lane _ => inferInstanceAs (Decidable (s.lane.counts = true → s.enqueued = first.enqueued))
  | .post .. | .postDeactivate _ | .producer _ | .leave | .stop | .setLive .. => inferInstanceAs (Decidable True)

theorem stepLane_drained (hkind : cfg.kind = .governed) (s : State M P) (v : Verdict)
    (hcounts : s.lane.counts = false) : (stepLane cfg s v).drained = s.drained := by
  rw [stepLane]
  cases hlane : s.lane with
  | dequeue l =>
    simp only
    rcases stepDequeue_cases hkind s l with ⟨m, c, pc, heq, _⟩ | ⟨m, c, d, heq⟩
    all_goals rw [heq]
  | drained l d enqueued =>
    rw [hlane] at hcounts
    cases hcounts
  | claim l d resident => exact (stepClaim_frame cfg s l d resident v).2.2.2.2.1
  | _ => rfl

/-- Only the drain moves `drained`, where it counts. -/
theorem step_drained (hkind : cfg.kind = .governed) {a : Label M P} (hstep : step cfg s a = some s') :
    s'.drained = s.drained ∨ s.lane.counts = true ∧ s'.enqueued = s.enqueued ∧ ∃ v, a = .lane v := by
  cases a with
  | post p m checked =>
    simp only [Drain.step, stepPost, ite_none_right_eq_some, some.injEq] at hstep
    obtain ⟨_, rfl⟩ := hstep
    exact .inl rfl
  | postDeactivate p =>
    simp only [Drain.step, stepPostDeactivate, ite_none_right_eq_some] at hstep
    obtain ⟨_, hstep⟩ := hstep
    split at hstep <;> cases hstep <;> exact .inl rfl
  | producer p => exact .inl (stepProducer_lane hstep).2.2.1
  | lane v =>
    cases hstep
    cases hcounts : s.lane.counts with
    | false => exact .inl (stepLane_drained hkind s v hcounts)
    | true => exact .inr ⟨rfl, (stepLane_counters hkind s v).2.2.2.1, v, rfl⟩
  | leave =>
    simp only [Drain.step, stepLeave] at hstep
    split at hstep
    · rw [if_neg (by rw [hkind]; rintro ⟨_, ⟨⟩⟩)] at hstep
      cases hstep
    · cases hstep
  | stop | setLive bound overflow =>
    cases hstep
    exact .inl rfl

/-- The two loads see the counters of one moment between them. -/
theorem loads_meet (hkind : cfg.kind = .governed)
    (h : Reach (step cfg) (fun t a => Uncontrolled t a ∧ Unmixed s t a) s s') :
    ∃ t, Reach (step cfg) Uncontrolled s t ∧ Reach (step cfg) Uncontrolled t s' ∧
      t.enqueued = s.enqueued ∧ t.drained = s'.drained := by
  induction h with
  | start => exact ⟨s, .start, .start, rfl, rfl⟩
  | step _ hok hstep ih =>
    obtain ⟨t, hbefore, hafter, henqueued, hdrained⟩ := ih
    obtain hsame | ⟨hcounts, hkept, v, rfl⟩ := step_drained hkind hstep
    · exact ⟨t, hbefore, hafter.step hok.1 hstep, henqueued, hdrained.trans hsame.symm⟩
    · exact ⟨_, (hbefore.trans hafter).step hok.1 hstep, .start, hkept.trans (hok.2 hcounts), rfl⟩

/-- In every run of a governed activation whose drain counts no control descriptor. -/
theorem governed_depth {M P : Type} [DecidableEq M] [DecidableEq P] [Fintype P] {cfg : Config}
    (hkind : cfg.kind = .governed) (bound : UInt32) (overflow : Overflow) :
    (∀ s : State M P, Reach (step cfg) Uncontrolled (initial bound overflow) s → s.drained ≤ s.enqueued ∧
      ∀ s', Reach (step cfg) (fun t a => Uncontrolled t a ∧ Unmixed s t a) s s' →
        ∃ t, Reach (step cfg) Uncontrolled s t ∧ Reach (step cfg) Uncontrolled t s' ∧
          s'.depth (UInt64.ofNat s.enqueued) = UInt64.ofNat t.outstanding) ∧
    (bound ≠ 0 → overflow ≠ .dropOldest → ∀ (p : P) (s : State M P),
      Reach (step cfg) (fun s a => Uncontrolled s a ∧ Lone p bound a) (initial bound overflow) s →
        s.mail.countP ordinary ≤ bound.toNat) := by
  constructor
  · intro s h
    refine ⟨(depth_of_exact (reach_balanced hkind h)).1, fun s' h' => ?_⟩
    obtain ⟨t, hbefore, hafter, henqueued, hdrained⟩ := loads_meet hkind h'
    refine ⟨t, hbefore, hafter, ?_⟩
    rw [depth, ← henqueued, ← hdrained]
    exact (depth_of_exact (reach_balanced hkind (h.trans hbefore))).2
  · intro hne hpolicy p s h
    obtain ⟨hreach, hroom⟩ := reach_room hkind hne hpolicy h
    have hexact := reach_balanced hkind hreach
    have hbelow := hroom.below
    have hmail : s.mail.countP ordinary ≤ s.outstanding := by
      rw [outstanding]
      omega
    omega

end

def governed : Config := { kind := .governed, budget := 4 }

/-- A message through `post_governed`, and the drain on its way to it. -/
def admission : List (Label Nat Bool) :=
  .post true 5 true :: List.replicate 5 (.producer true) ++ List.replicate 6 (.lane {})

/-- Between the two loads of producer `false` the drain counts the message, and then `true` one more. -/
def beside : List (Label Nat Bool) :=
  .producer false :: List.replicate 6 (.lane {}) ++ [.post true 7 false, .producer true]

theorem governed_depth_beside : ∃ s s' t : State Nat Bool,
    Machine.run (guarded (step governed) Uncontrolled) (initial 1 .block)
    (admission ++ [.post false 6 true]) = some s ∧
    Machine.run (guarded (step governed) fun t a => Uncontrolled t a ∧ Unmixed s t a) s beside = some s' ∧
    s'.producer false = .loadDrained 6 1 1 ∧ s.enqueued = 1 ∧ s'.enqueued = 2 ∧ s'.drained = 1 ∧
    Reach (step governed) Uncontrolled s t ∧ s'.depth 1 = UInt64.ofNat t.outstanding ∧
    ∃ r : State Nat Bool, Machine.run (guarded (step governed) fun s a => Uncontrolled s a ∧ Lone true 1 a)
      (initial 1 .block) admission = some r ∧ r.mail.length = 1 ∧ r.mail.countP ordinary ≤ 1 := by
  have hrun : Machine.run (guarded (step governed) Uncontrolled) (initial 1 .block : State Nat Bool)
    (admission ++ [.post false 6 true]) = some _ := rfl
  have hlone : Machine.run (guarded (step governed) fun s a => Uncontrolled s a ∧ Lone true 1 a)
    (initial 1 .block : State Nat Bool) admission = some _ := rfl
  have hdepth := governed_depth (M := Nat) (P := Bool) (show governed.kind = .governed from rfl) 1 .block
  obtain ⟨t, hbefore, _, hvalue⟩ := (hdepth.1 _ (reach_of_run hrun)).2 _
    (reach_of_run (show Machine.run _ _ beside = some _ from rfl))
  refine ⟨_, _, t, hrun, rfl, rfl, rfl, rfl, rfl, hbefore, hvalue, _, hlone, rfl, ?_⟩
  exact hdepth.2 (by decide) (by decide) true _ (reach_of_run hlone)

/-- The first load of producer `false` is before a message of `true`, and its second after the drain has
counted it. -/
def overtaken : List (Label Nat Bool) :=
  [.post false 6 true, .producer false] ++ .post true 5 true :: List.replicate 5 (.producer true) ++
    List.replicate 12 (.lane {})

/-- The drain counts a control descriptor that nobody counted before it: the depth wraps, and the next
producer is blocked in front of an empty mailbox. So is one whose loads a message overtakes, though no control
descriptor comes. -/
theorem depth_underflows :
    (∃ s s' : State Nat Unit, Machine.run (step governed) (initial 1 .block) (passivate 13) = some s ∧
      s.enqueued = 0 ∧ s.drained = 1 ∧ s.mail = [] ∧ s.outstanding = 0 ∧ s.depth 0 = 18446744073709551615 ∧
      Machine.run (step governed) s (.post () 5 true :: List.replicate 3 (.producer ())) = some s' ∧
      s'.blocks = 1 ∧ s'.producer () = .idle ∧ s'.mail = []) ∧
    ∃ s s' : State Nat Bool,
      Machine.run (guarded (step governed) Uncontrolled) (initial 1 .block) overtaken = some s ∧
      s.enqueued = 1 ∧ s.drained = 1 ∧ s.mail = [] ∧ s.outstanding = 0 ∧
      s.producer false = .loadDrained 6 1 0 ∧ s.depth 0 = 18446744073709551615 ∧
      Machine.run (step governed) s (List.replicate 2 (.producer false)) = some s' ∧
      s'.blocks = 1 ∧ s'.producer false = .idle ∧ s'.mail = [] :=
  ⟨⟨_, _, rfl, rfl, rfl, rfl, by decide, rfl, rfl, rfl, rfl, rfl⟩,
    ⟨_, _, rfl, rfl, rfl, rfl, by decide, rfl, rfl, rfl, rfl, rfl, rfl⟩⟩

theorem depth_iff_passivated : ∃ s : State Nat Unit, s.depth (UInt64.ofNat s.enqueued) = 18446744073709551615 ∧
    ((s.drained ≤ s.enqueued ∧ s.depth (UInt64.ofNat s.enqueued) = UInt64.ofNat s.outstanding) ↔ NoneCounted s) :=
  ⟨_, rfl, depth_iff (show governed.kind = .governed from rfl) (Machine.reachable_of_run
    (show Machine.run (step governed) (initial 1 .block) (passivate 13) = some _ from rfl)) (by decide)⟩

end Quark.Drain
