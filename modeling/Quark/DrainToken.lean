import Mathlib.Data.List.Count
import Quark.Drain

/-! The one Deactivate descriptor of an activation: where it is while its token is claimed, and what the three
drains do with it. -/
set_option linter.unusedSectionVars false

namespace Quark.Drain

open Drain List Option Machine State Vyukov
open Activation (Desc)

variable {M P : Type} {cfg : Config} {s s' : State M P} {items : List (Desc M)} {p : P}

def LanePc.hand : LanePc M → Option (Desc M)
  | .resident _ d | .drained _ d _ | .claim _ d _ => some d
  | _ => none

def LanePc.claims : LanePc M → Option (Desc M)
  | .claim _ d _ => some d
  | _ => none

/-- Where the control descriptor can be. -/
inductive Place (P : Type)
  | mail
  | poster (p : P)
  | hand

def State.At (s : State M P) (items : List (Desc M)) : Place P → Prop
  | .mail => .deactivate ∈ items
  | .poster p => s.producer p = .exchange .deactivate
  | .hand => s.lane.hand = some .deactivate

/-- It is in one place at most, and in one at all exactly while the token is claimed. -/
structure Token (s : State M P) (items : List (Desc M)) : Prop where
  sole : ∀ a b, s.At items a → s.At items b → a = b
  claimed : ∀ a, s.At items a → s.deactivateToken = true
  somewhere : s.deactivateToken = true → ∃ a, s.At items a

/-- No sink has seen it. -/
structure Spared (s : State M P) : Prop where
  dispatched : .deactivate ∉ s.dispatched
  deadLettered : .deactivate ∉ s.deadLettered
  reclaimed : .deactivate ∉ s.reclaimed

section

variable [DecidableEq M] [DecidableEq P]

structure Inv (s : State M P) (items : List (Desc M)) : Prop where
  holds : s.mailbox.Holds s.deq items
  posted : s.posted = s.dequeued ++ items.map .item
  call : s.deq ≠ .idle → ∃ l, s.lane = .dequeue l
  token : Token s items
  spared : Spared s

/-- The reentrant drain is not about to admit the control descriptor. -/
def Sound (cfg : Config) (s : State M P) : Label M P → Prop
  | .lane _ => ¬ (cfg.kind = .reentrant ∧ s.lane.claims = some .deactivate)
  | _ => True

instance (cfg : Config) (s : State M P) (a : Label M P) : Decidable (Sound cfg s a) := by
  cases a <;> unfold Sound <;> infer_instance

theorem Token.congr (h : Token s items) {items' : List (Desc M)} (hat : ∀ a, s'.At items' a ↔ s.At items a)
    (htoken : s'.deactivateToken = s.deactivateToken) : Token s' items' := by
  constructor
  · intro a b ha hb
    exact h.sole a b ((hat a).mp ha) ((hat b).mp hb)
  · intro a ha
    rw [htoken]
    exact h.claimed a ((hat a).mp ha)
  · intro hclaimed
    rw [htoken] at hclaimed
    obtain ⟨a, ha⟩ := h.somewhere hclaimed
    exact ⟨a, (hat a).mpr ha⟩

theorem Token.move (h : Token s items) {items' : List (Desc M)} {a b : Place P} (ha : s.At items a)
    (hat : ∀ c, s'.At items' c ↔ c = b) (htoken : s'.deactivateToken = s.deactivateToken) : Token s' items' := by
  constructor
  · intro c d hc hd
    rw [(hat c).mp hc, (hat d).mp hd]
  · intro _ _
    rw [htoken]
    exact h.claimed a ha
  · intro _
    exact ⟨b, (hat b).mpr rfl⟩

def State.view (s : State M P) : Mailbox (Desc M) × Consumer × LanePc M × Bool × List (Node (Desc M)) ×
    List (Node (Desc M)) × List (Desc M) × List (Desc M) × List (Desc M) :=
  (s.mailbox, s.deq, s.lane, s.deactivateToken, s.posted, s.dequeued, s.dispatched, s.deadLettered, s.reclaimed)

theorem Inv.frame (h : Inv s items) (hview : s'.view = s.view)
    (hposter : ∀ p, s'.producer p = .exchange .deactivate ↔ s.producer p = .exchange .deactivate) :
    Inv s' items := by
  simp only [view, Prod.mk.injEq] at hview
  obtain ⟨hmail, hdeq, hlane, htoken, hposted, hdequeued, hdispatched, hdead, hreclaimed⟩ := hview
  constructor
  · rw [hmail, hdeq]
    exact h.holds
  · rw [hposted, hdequeued]
    exact h.posted
  · rw [hdeq, hlane]
    exact h.call
  · refine h.token.congr (fun a => ?_) htoken
    cases a with
    | mail => exact Iff.rfl
    | poster p => exact hposter p
    | hand => rw [At, At, hlane]
  · exact ⟨hdispatched ▸ h.spared.dispatched, hdead ▸ h.spared.deadLettered, hreclaimed ▸ h.spared.reclaimed⟩

theorem producer_setProducer (s : State M P) (p q : P) (pc : ProducerPc M) :
    (s.setProducer p pc).producer q = if q = p then pc else s.producer q := Function.update_apply ..

theorem poster_setProducer (hfrom : s.producer p ≠ .exchange .deactivate) {pc : ProducerPc M}
    (hto : pc ≠ .exchange .deactivate) (q : P) :
    (s.setProducer p pc).producer q = .exchange .deactivate ↔ s.producer q = .exchange .deactivate := by
  rw [producer_setProducer]
  split
  · next heq =>
    subst heq
    exact iff_of_false hto hfrom
  · exact Iff.rfl

theorem Inv.producerGoto (h : Inv s items) (hfrom : s.producer p ≠ .exchange .deactivate) {pc : ProducerPc M}
    (hto : pc ≠ .exchange .deactivate) (hview : s'.view = s.view) (hproducer : s'.producer = s.producer) :
    Inv (s'.setProducer p pc) items := by
  have hfrom' : s'.producer p ≠ .exchange .deactivate := hproducer ▸ hfrom
  have hmoved : (s'.setProducer p pc).view = s.view := hview
  apply h.frame hmoved
  intro q
  rw [poster_setProducer hfrom' hto q, hproducer]

theorem Inv.claim (h : Inv s items) (htoken : s.deactivateToken = false) :
    Inv ({ s with deactivateToken := true }.setProducer p (.exchange .deactivate)) items := by
  have hnone (a : Place P) (ha : s.At items a) : False := by
    have hclaimed := h.token.claimed a ha
    rw [htoken] at hclaimed
    cases hclaimed
  have honly (a : Place P) (ha :
      ({ s with deactivateToken := true }.setProducer p (.exchange .deactivate)).At items a) :
      a = .poster p := by
    cases a with
    | mail => exact (hnone .mail ha).elim
    | poster q =>
      rw [At, producer_setProducer] at ha
      split at ha
      · next heq => rw [heq]
      · exact (hnone (.poster q) ha).elim
    | hand => exact (hnone .hand ha).elim
  constructor
  · exact h.holds
  · exact h.posted
  · exact h.call
  · constructor
    · intro a b ha hb
      rw [honly a ha, honly b hb]
    · intro _ _
      rfl
    · intro _
      exact ⟨.poster p, by rw [At, producer_setProducer, if_pos rfl]⟩
  · exact ⟨h.spared.dispatched, h.spared.deadLettered, h.spared.reclaimed⟩

theorem Inv.exchange (h : Inv s items) {d : Desc M} (hp : s.producer p = .exchange d) (hout : Outside s d) :
    Inv ({ s with mailbox := s.mailbox.exchange (.item d), posted := s.posted ++ [Node.item d] }.setProducer p
      (.linking d)) (items ++ [d]) := by
  have hd : d ∉ items := by
    intro hmem
    cases d with
    | message m =>
      have hpos : 0 < (items.map Node.item).count (.item (.message m)) :=
        count_pos_iff.mpr (mem_map_of_mem hmem)
      have hcount : s.posted.count (.item (.message m)) = s.dequeued.count (.item (.message m)) := hout
      rw [h.posted, count_append] at hcount
      omega
    | deactivate =>
      have hplace := h.token.sole .mail (.poster p) hmem hp
      cases hplace
  constructor
  · exact h.holds.exchange hd
  · change s.posted ++ [.item d] = _
    rw [h.posted, map_append, append_assoc]
    rfl
  · exact h.call
  · cases d with
    | message m =>
      refine h.token.congr (fun a => ?_) rfl
      cases a with
      | mail =>
        simp only [At, mem_append, mem_singleton]
        simp
      | poster q =>
        exact poster_setProducer (by change s.producer p ≠ _; rw [hp]; simp) (by simp) q
      | hand => exact Iff.rfl
    | deactivate =>
      have hposter : s.At items (.poster p) := hp
      refine h.token.move (b := .mail) hposter (fun c => ?_) rfl
      cases c with
      | mail => simp [At]
      | poster q =>
        simp only [At, producer_setProducer]
        split
        · simp
        · next hne =>
          refine iff_of_false (fun hq => hne ?_) (by simp)
          have hplace := h.token.sole (.poster q) (.poster p) hq hp
          exact Place.poster.inj hplace
      | hand =>
        refine iff_of_false (fun hhand => ?_) (by simp)
        have hplace := h.token.sole .hand (.poster p) hhand hp
        cases hplace
  · exact ⟨h.spared.dispatched, h.spared.deadLettered, h.spared.reclaimed⟩

theorem Inv.stepProducer (h : Inv s items) (hstep : stepProducer s p = some s') : ∃ items', Inv s' items' := by
  rw [Drain.stepProducer] at hstep
  cases hp : s.producer p with
  | idle => simp [hp] at hstep
  | loadEnqueued m bound =>
    simp only [hp, some.injEq] at hstep
    subst hstep
    exact ⟨items, h.producerGoto (by rw [hp]; simp) (by simp) rfl rfl⟩
  | loadDrained m bound enqueued =>
    simp only [hp, some.injEq] at hstep
    subst hstep
    exact ⟨items, h.producerGoto (by rw [hp]; simp) (by split <;> simp) rfl rfl⟩
  | overflow m =>
    simp only [hp] at hstep
    cases hpolicy : s.overflow <;> simp only [hpolicy, some.injEq] at hstep <;> subst hstep <;>
      exact ⟨items, h.producerGoto (by rw [hp]; simp) (by simp) rfl rfl⟩
  | count m =>
    simp only [hp, some.injEq] at hstep
    subst hstep
    exact ⟨items, h.producerGoto (by rw [hp]; simp) (by simp) rfl rfl⟩
  | exchange d =>
    simp only [hp, ite_none_right_eq_some, some.injEq] at hstep
    obtain ⟨hout, rfl⟩ := hstep
    exact ⟨items ++ [d], h.exchange hp hout⟩
  | linking d =>
    simp only [hp, some.injEq] at hstep
    subst hstep
    have hlinked : Inv { s with mailbox := s.mailbox.link (.item d) } items :=
      ⟨h.holds.link d, h.posted, h.call, h.token.congr (fun a => by cases a <;> exact Iff.rfl) rfl,
        h.spared.dispatched, h.spared.deadLettered, h.spared.reclaimed⟩
    exact ⟨items, hlinked.producerGoto (by change s.producer p ≠ _; rw [hp]; simp) (by simp) rfl rfl⟩

theorem Inv.laneGoto (h : Inv s items) {pc : LanePc M} (hdeq : s.deq = .idle)
    (hhand : pc.hand = some .deactivate ↔ s.lane.hand = some .deactivate) : Inv { s with lane := pc } items := by
  constructor
  · exact h.holds
  · exact h.posted
  · intro hcall
    exact absurd hdeq hcall
  · refine h.token.congr (fun a => ?_) rfl
    cases a with
    | mail | poster _ => exact Iff.rfl
    | hand => exact hhand
  · exact ⟨h.spared.dispatched, h.spared.deadLettered, h.spared.reclaimed⟩

theorem Inv.sink (h : Inv s items) {d : Desc M} (hd : d ≠ .deactivate) {ds dd dr : List (Desc M)}
    (hds : ds = s.dispatched ∨ ds = s.dispatched ++ [d]) (hdd : dd = s.deadLettered ∨ dd = s.deadLettered ++ [d])
    (hdr : dr = s.reclaimed ∨ dr = s.reclaimed ++ [d]) :
    Inv { s with dispatched := ds, deadLettered := dd, reclaimed := dr } items := by
  have hkeep {xs ys : List (Desc M)} (hxs : .deactivate ∉ xs) (hys : ys = xs ∨ ys = xs ++ [d]) :
      .deactivate ∉ ys := by
    rcases hys with rfl | rfl
    · exact hxs
    · intro hmem
      rcases mem_append.mp hmem with hmem | hmem
      · exact hxs hmem
      · exact hd (mem_singleton.mp hmem).symm
  constructor
  · exact h.holds
  · exact h.posted
  · exact h.call
  · exact h.token.congr (fun a => by cases a <;> exact Iff.rfl) rfl
  · exact ⟨hkeep h.spared.dispatched hds, hkeep h.spared.deadLettered hdd, hkeep h.spared.reclaimed hdr⟩

theorem Inv.deadLetter (h : Inv s items) {d : Desc M} (hd : d ≠ .deactivate) : Inv (s.deadLetterAndReclaim d) items :=
  h.sink hd (Or.inl rfl) (Or.inr rfl) (Or.inr rfl)

theorem Inv.of_view (h : Inv s items) (hview : s'.view = s.view) (hproducer : s'.producer = s.producer) :
    Inv s' items := h.frame hview fun p => by rw [hproducer]

theorem Inv.dispatch (h : Inv s items) {d : Desc M} (hd : d ≠ .deactivate) (hdeq : s.deq = .idle)
    (hhand : s.lane.hand = none) (o : Outcome) : Inv (dispatch cfg s d o) items := by
  cases o with
  | returned => exact h.sink hd (Or.inr rfl) (Or.inl rfl) (Or.inr rfl)
  | suspended =>
    have hlogged : Inv { s with dispatched := s.dispatched ++ [d] } items :=
      h.sink hd (Or.inr rfl) (Or.inl rfl) (Or.inl rfl)
    apply hlogged.laneGoto hdeq
    split
    · exact Iff.rfl
    · change LanePc.away.hand = _ ↔ s.lane.hand = _
      rw [hhand]
      exact Iff.rfl
  | faulted stops =>
    have hlogged : Inv { s with dispatched := s.dispatched ++ [d] } items :=
      h.sink hd (Or.inr rfl) (Or.inl rfl) (Or.inl rfl)
    have hstopped : Inv { s with dispatched := s.dispatched ++ [d], stopped := s.stopped || stops } items :=
      hlogged.of_view rfl rfl
    exact hstopped.deadLetter hd

theorem Inv.clear (h : Inv s items) (hhand : s.lane.hand = some .deactivate) (hdeq : s.deq = .idle) (l : Pass) :
    Inv { s with lane := .loop l, retireRequested := true, deactivateToken := false } items := by
  have hnone (a : Place P) (ha : ({ s with lane := .loop l, retireRequested := true, deactivateToken := false } :
      State M P).At items a) : False := by
    cases a with
    | mail => cases h.token.sole .mail .hand ha hhand
    | poster q => cases h.token.sole (.poster q) .hand ha hhand
    | hand => cases ha
  constructor
  · exact h.holds
  · exact h.posted
  · intro hcall
    exact absurd hdeq hcall
  · exact ⟨fun a _ ha => (hnone a ha).elim, fun a ha => (hnone a ha).elim, nofun⟩
  · exact ⟨h.spared.dispatched, h.spared.deadLettered, h.spared.reclaimed⟩

theorem Inv.stepClaim (h : Inv s items) {l : Pass} {d : Desc M} {resident : UInt64} {v : Verdict}
    (hlane : s.lane = .claim l d resident) (hsound : Sound cfg s (.lane v : Label M P)) :
    Inv (stepClaim cfg s l d resident v) items := by
  have hdeq : s.deq = .idle := by
    by_contra hcall
    obtain ⟨l', hl⟩ := h.call hcall
    rw [hlane] at hl
    cases hl
  have hhand : s.lane.hand = some d := by rw [hlane]; rfl
  by_cases hd : d = .deactivate
  · subst hd
    have hkind : cfg.kind ≠ .reentrant := fun hkind => hsound ⟨hkind, by rw [hlane]; rfl⟩
    simp only [Drain.stepClaim, ne_eq, not_true_eq_false, and_false, if_false, hkind, not_false_eq_true, and_self,
      if_true]
    exact h.clear hhand hdeq l
  · have hloop : Inv { s with lane := .loop l } items := by
      apply h.laneGoto hdeq
      rw [hhand]
      simp [LanePc.hand, hd]
    have hshed : Inv ({ s with lane := .loop l }.noteShed) items := hloop.of_view rfl rfl
    simp only [Drain.stepClaim, hd, false_and, if_false]
    split
    · exact hloop.sink hd (Or.inl rfl) (Or.inl rfl) (Or.inr rfl)
    split
    · exact hloop.deadLetter hd
    split
    · exact hshed.deadLetter hd
    split
    · exact hshed.deadLetter hd
    · exact hloop.dispatch hd hdeq rfl v.outcome

theorem Inv.stepDequeue (h : Inv s items) {l : Pass} (hlane : s.lane = .dequeue l) :
    ∃ items', Inv (stepDequeue cfg s l) items' := by
  have hnohand : ¬ s.At items .hand := by
    rw [At, hlane]
    nofun
  have hspec := h.holds.consume
  simp only [Drain.stepDequeue, Mailbox.tryDequeue]
  generalize s.mailbox.consume s.deq = r at hspec
  cases hspec with
  | going hq =>
    refine ⟨items, hq, h.posted, fun _ => ⟨l, hlane⟩, h.token.congr (fun a => ?_) rfl, ?_⟩
    · cases a <;> exact Iff.rfl
    · exact ⟨h.spared.dispatched, h.spared.deadLettered, h.spared.reclaimed⟩
  | @message _ d rest hitems hq =>
    simp only [map_some, Mailbox.drainResult, taken]
    have hnodup : (d :: rest).Nodup := hitems ▸ h.holds.nodup
    have hhand : (if cfg.kind = .governed then LanePc.resident l.take d else .claim l.take d 0).hand = some d := by
      split <;> rfl
    refine ⟨rest, hq, ?_, fun hcall => absurd rfl hcall, ?_, ?_⟩
    · rw [h.posted, hitems, map_cons, append_assoc]
      rfl
    · by_cases hd : d = .deactivate
      · subst hd
        have hmail : s.At items .mail := by
          rw [At, hitems]
          exact mem_cons_self
        refine h.token.move (b := .hand) hmail (fun c => ?_) rfl
        cases c with
        | mail => exact iff_of_false (nodup_cons.mp hnodup).1 (by simp)
        | poster q =>
          refine iff_of_false (fun hq' => ?_) (by simp)
          cases h.token.sole (.poster q) .mail hq' hmail
        | hand => exact iff_of_true hhand rfl
      · refine h.token.congr (fun a => ?_) rfl
        cases a with
        | mail =>
          rw [At, At, hitems, mem_cons]
          simp [Ne.symm hd]
        | poster q => exact Iff.rfl
        | hand =>
          refine iff_of_false (fun hat => ?_) hnohand
          rw [At, hhand] at hat
          exact hd (some.inj hat)
    · exact ⟨h.spared.dispatched, h.spared.deadLettered, h.spared.reclaimed⟩
  | empty _ _ hq | busy hq =>
    simp only [map_some, Mailbox.drainResult, taken]
    refine ⟨items, hq, h.posted, fun hcall => absurd rfl hcall, h.token.congr (fun a => ?_) rfl, ?_⟩
    · cases a with
      | mail | poster _ => exact Iff.rfl
      | hand => exact iff_of_false nofun hnohand
    · exact ⟨h.spared.dispatched, h.spared.deadLettered, h.spared.reclaimed⟩

theorem Inv.stepLane (h : Inv s items) {v : Verdict} (hsound : Sound cfg s (.lane v : Label M P)) :
    ∃ items', Inv (stepLane cfg s v) items' := by
  have hidle (hnot : ∀ l, s.lane ≠ .dequeue l) : s.deq = .idle := by
    by_contra hcall
    obtain ⟨l, hl⟩ := h.call hcall
    exact hnot l hl
  rw [Drain.stepLane]
  cases hlane : s.lane with
  | away =>
    refine ⟨items, h.laneGoto (hidle (by simp [hlane])) ?_⟩
    rw [hlane]
    split <;> exact Iff.rfl
  | overflow bound =>
    refine ⟨items, h.laneGoto (hidle (by simp [hlane])) ?_⟩
    rw [hlane]
    exact Iff.rfl
  | loop l =>
    refine ⟨items, h.laneGoto (hidle (by simp [hlane])) ?_⟩
    rw [hlane]
    split <;> exact Iff.rfl
  | dequeue l => exact h.stepDequeue hlane
  | resident l d =>
    refine ⟨items, h.laneGoto (hidle (by simp [hlane])) ?_⟩
    rw [hlane]
    exact Iff.rfl
  | drained l d enqueued =>
    have hcounted : Inv { s with lane := .claim l d (enqueued - UInt64.ofNat s.drained) } items := by
      apply h.laneGoto (hidle (by simp [hlane]))
      rw [hlane]
      exact Iff.rfl
    exact ⟨items, hcounted.of_view rfl rfl⟩
  | claim l d resident => exact ⟨items, h.stepClaim hlane hsound⟩

theorem Inv.step {a : Label M P} (h : Inv s items) (hsound : Sound cfg s a) (hstep : step cfg s a = some s') :
    ∃ items', Inv s' items' := by
  cases a with
  | post p m checked =>
    simp only [Drain.step, stepPost, ite_none_right_eq_some, some.injEq] at hstep
    obtain ⟨hp, rfl⟩ := hstep
    refine ⟨items, h.producerGoto (by rw [hp]; simp) ?_ rfl rfl⟩
    cases cfg.kind <;> grind
  | postDeactivate p =>
    simp only [Drain.step, stepPostDeactivate, ite_none_right_eq_some] at hstep
    obtain ⟨hp, hstep⟩ := hstep
    split at hstep
    · cases hstep
      exact ⟨items, h⟩
    · next htoken =>
      cases hstep
      exact ⟨items, h.claim (Bool.eq_false_iff.mpr htoken)⟩
  | producer p => exact h.stepProducer hstep
  | lane v =>
    cases hstep
    exact h.stepLane hsound
  | leave =>
    simp only [Drain.step, stepLeave] at hstep
    split at hstep
    · next l hlane =>
      split at hstep
      · cases hstep
        refine ⟨items, h.laneGoto ?_ ?_⟩
        · by_contra hcall
          obtain ⟨l', hl⟩ := h.call hcall
          rw [hlane] at hl
          cases hl
        · rw [hlane]
          exact Iff.rfl
      · cases hstep
    · cases hstep
  | stop | setLive bound overflow =>
    cases hstep
    exact ⟨items, h.of_view rfl rfl⟩

theorem start_inv : Inv ({} : State M P) [] := by
  have hnowhere (a : Place P) : ¬ ({} : State M P).At [] a := by cases a <;> simp [At, LanePc.hand]
  constructor
  · exact Queue.Holds.initial
  · rfl
  · intro hcall
    exact absurd rfl hcall
  · exact ⟨fun a _ ha => (hnowhere a ha).elim, fun a ha => (hnowhere a ha).elim, nofun⟩
  · exact ⟨not_mem_nil, not_mem_nil, not_mem_nil⟩

theorem reach_inv (h : Reach (step cfg) (Sound cfg) ({} : State M P) s) : ∃ items, Inv s items := by
  induction h with
  | start => exact ⟨[], start_inv⟩
  | step _ hsound hstep ih =>
    obtain ⟨items, hitems⟩ := ih
    exact hitems.step hsound hstep

theorem Inv.count_posted (h : Inv s items) (d : Desc M) :
    s.posted.count (.item d) = s.dequeued.count (.item d) + items.count d := by
  rw [h.posted, count_append, count_map_of_injective _ _ (fun a b hab => Node.item.inj hab)]

/-- A passivation does what it should: its descriptor reaches no sink, is in the mailbox at most once and never
when it is about to be linked, and once it is dequeued and dealt with a request posts it again. -/
structure Passivates (cfg : Config) (s : State M P) : Prop where
  spared : Spared s
  once : s.posted.count (.item .deactivate) ≤ s.dequeued.count (.item .deactivate) + 1
  outside : ∀ p, s.producer p = .exchange .deactivate →
    s.posted.count (.item .deactivate) = s.dequeued.count (.item .deactivate)
  clears : ∀ v, s.lane.claims = some .deactivate → Sound cfg s (.lane v) →
    (stepLane cfg s v).deactivateToken = false ∧ (stepLane cfg s v).retireRequested = true
  again : s.posted.count (.item .deactivate) = s.dequeued.count (.item .deactivate) →
    s.lane.hand ≠ some .deactivate → (∀ p, s.producer p ≠ .exchange .deactivate) → ∀ p, s.producer p = .idle →
      ∃ s', step cfg s (.postDeactivate p) = some s' ∧ s'.producer p = .exchange .deactivate

/-- In every run in which the reentrant drain admits no control descriptor. -/
theorem deactivate_handled {M P : Type} [DecidableEq M] [DecidableEq P] {cfg : Config} {s : State M P}
    (h : Reach (step cfg) (Sound cfg) {} s) : Passivates cfg s := by
  obtain ⟨items, hinv⟩ := reach_inv h
  have hcount := hinv.count_posted .deactivate
  constructor
  · exact hinv.spared
  · have hone := nodup_iff_count_le_one.mp hinv.holds.nodup .deactivate
    omega
  · intro p hp
    have hzero : items.count .deactivate = 0 := by
      rw [count_eq_zero]
      intro hmem
      cases hinv.token.sole .mail (.poster p) hmem hp
    omega
  · intro v hclaims hsound
    cases hlane : s.lane with
    | claim l d resident =>
      rw [hlane] at hclaims
      cases hclaims
      have hkind : cfg.kind ≠ .reentrant := fun hkind => hsound ⟨hkind, by rw [hlane]; rfl⟩
      simp [stepLane, hlane, stepClaim, hkind]
    | _ =>
      rw [hlane] at hclaims
      cases hclaims
  · intro hlogs hhand hposters p hp
    have hfree : s.deactivateToken = false := by
      rw [Bool.eq_false_iff]
      intro hclaimed
      obtain ⟨a, ha⟩ := hinv.token.somewhere hclaimed
      cases a with
      | mail =>
        have hpos : 0 < items.count .deactivate := count_pos_iff.mpr ha
        omega
      | poster q => exact hposters q ha
      | hand => exact hhand ha
    refine ⟨{ s with deactivateToken := true }.setProducer p (.exchange .deactivate), ?_, ?_⟩
    · simp only [step, stepPostDeactivate, if_pos hp, hfree, Bool.false_eq_true, if_false]
    · rw [producer_setProducer, if_pos rfl]

end

def passivate (steps : Nat) : List (Label Nat Unit) :=
  [.postDeactivate (), .producer (), .producer ()] ++ List.replicate steps (.lane {})

/-- A Sequential activation with the descriptor in its drain's hand. -/
theorem deactivate_handled_sequential : ∃ s : State Nat Unit,
    Machine.run (guarded (step { kind := .sequential, budget := 4 }) (Sound { kind := .sequential, budget := 4 }))
      {} (passivate 9) = some s ∧
      s.lane.claims = some .deactivate ∧ Passivates { kind := .sequential, budget := 4 } s := by
  have hrun : Machine.run (guarded (step { kind := .sequential, budget := 4 })
    (Sound { kind := .sequential, budget := 4 })) ({} : State Nat Unit) (passivate 9) = some _ := rfl
  exact ⟨_, hrun, rfl, deactivate_handled (reach_of_run hrun)⟩

/-- A reentrant activation runs a handler on the control descriptor, or dead-letters it once it is stopped, and
reclaims it; its token stays claimed, and the next request does nothing. -/
theorem reentrant_admits_control : ∃ s s' : State Nat Unit,
    Machine.run (step { kind := .reentrant, budget := 4 }) {} (passivate 10) = some s ∧
    s.dispatched = [.deactivate] ∧ s.reclaimed = [.deactivate] ∧ s.deactivateToken = true ∧
    step { kind := .reentrant, budget := 4 } s (.postDeactivate ()) = some s ∧
    Machine.run (step { kind := .reentrant, budget := 4 }) {} (.stop :: passivate 10) = some s' ∧
    s'.deadLettered = [.deactivate] ∧ s'.reclaimed = [.deactivate] ∧
    ¬ Passivates { kind := .reentrant, budget := 4 } s ∧ ¬ Passivates { kind := .reentrant, budget := 4 } s' := by
  refine ⟨_, _, rfl, rfl, rfl, rfl, rfl, rfl, rfl, rfl, ?_, ?_⟩
  all_goals
    intro h
    exact h.spared.reclaimed (mem_cons_self)

section

variable [DecidableEq M] [DecidableEq P]

/-- A reentrant drain that does admit it passes it on, and leaves the token claimed. -/
theorem admitted_control (hkind : cfg.kind = .reentrant) (hclaims : s.lane.claims = some .deactivate) (v : Verdict) :
    (.deactivate ∈ (stepLane cfg s v).dispatched ∨ .deactivate ∈ (stepLane cfg s v).deadLettered) ∧
      (stepLane cfg s v).deactivateToken = s.deactivateToken := by
  cases hlane : s.lane with
  | claim l d resident =>
    rw [hlane] at hclaims
    cases hclaims
    cases hstopped : s.stopped with
    | true => simp [stepLane, hlane, stepClaim, hkind, hstopped, deadLetterAndReclaim]
    | false =>
      cases hout : v.outcome <;>
        simp [stepLane, hlane, stepClaim, hkind, hstopped, dispatch, hout, deadLetterAndReclaim]
  | _ =>
    rw [hlane] at hclaims
    cases hclaims

theorem stepLane_stopped (hstop : s.stopped = true) (v : Verdict) :
    (stepLane cfg s v).stopped = true ∧ (stepLane cfg s v).dispatched = s.dispatched := by
  rw [stepLane]
  cases hlane : s.lane with
  | dequeue l =>
    simp only [stepDequeue, taken]
    split
    · exact ⟨hstop, rfl⟩
    · split <;> exact ⟨hstop, rfl⟩
  | claim l d resident =>
    simp only [stepClaim, hstop, if_true]
    split
    · exact ⟨rfl, rfl⟩
    · split <;> exact ⟨rfl, rfl⟩
  | _ => exact ⟨hstop, rfl⟩

theorem stepProducer_stopped (hstep : stepProducer s p = some s') : s'.stopped = s.stopped ∧
    s'.dispatched = s.dispatched := by
  unfold stepProducer at hstep
  split at hstep <;> (try split at hstep) <;> cases hstep <;> exact ⟨rfl, rfl⟩

end

end Quark.Drain
