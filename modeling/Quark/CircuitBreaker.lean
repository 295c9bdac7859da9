import Quark.Lib.Machine

/-! `CircuitBreaker` of `governance.hpp`, and the sends it admitted with the results that answer them. -/
namespace Quark

open List

inductive Admit
  | accept | shed | delay
  deriving DecidableEq, Repr

inductive CircuitBreaker.Mode
  | closed | open | halfOpen
  deriving DecidableEq, Repr

structure CircuitBreaker where
  failThreshold : UInt32 := 5
  openNs : Int := 0
  consecFail : UInt32 := 0
  openedAt : Int := 0
  state : CircuitBreaker.Mode := .closed
  probeInflight : Bool := false
  deriving DecidableEq, Repr

namespace CircuitBreaker

def new (failThreshold : UInt32) (openNs : Int) : CircuitBreaker :=
  { failThreshold := if failThreshold = 0 then 1 else failThreshold, openNs }

def onSend (c : CircuitBreaker) (now : Int) : CircuitBreaker × Admit :=
  match c.state with
  | .closed => (c, .accept)
  | .open =>
    if c.openNs ≤ now - c.openedAt then ({ c with state := .halfOpen, probeInflight := true }, .accept)
    else (c, .shed)
  | .halfOpen => if c.probeInflight then (c, .shed) else ({ c with probeInflight := true }, .accept)

def trip (c : CircuitBreaker) (now : Int) : CircuitBreaker :=
  { c with state := .open, openedAt := now, probeInflight := false }

def onResult (c : CircuitBreaker) (ok : Bool) (now : Int) : CircuitBreaker :=
  match c.state with
  | .halfOpen =>
    let c := { c with probeInflight := false }
    if ok then { c with state := .closed, consecFail := 0 } else c.trip now
  | _ =>
    if ok then { c with consecFail := 0 }
    else
      let c := { c with consecFail := c.consecFail + 1 }
      if c.failThreshold ≤ c.consecFail then c.trip now else c

/-- While the breaker was closed, or in a half-open period of it. -/
inductive Origin
  | closed
  | probe (period : Nat)
  deriving DecidableEq, Repr

def Origin.isProbe : Origin → Bool
  | .closed => false
  | .probe _ => true

/-- The breaker beside what it does not keep: the admitted sends still unanswered, the last trip, and the
failed results of sends admitted while closed since the last success. -/
structure Watch where
  breaker : CircuitBreaker
  now : Option Int := none
  admitted : Nat := 0
  pending : List (Nat × Origin) := []
  period : Nat := 0
  lastTrip : Option Int := none
  streak : Nat := 0
  deriving DecidableEq, Repr

inductive Call
  | onSend (now : Int)
  | onResult (id : Nat) (ok : Bool) (now : Int)
  deriving DecidableEq, Repr

def Trips (c c' : CircuitBreaker) : Prop := c'.state = .open ∧ (c.state ≠ .open ∨ c'.openedAt ≠ c.openedAt)

instance (c c' : CircuitBreaker) : Decidable (Trips c c') :=
  inferInstanceAs (Decidable (c'.state = .open ∧ (c.state ≠ .open ∨ c'.openedAt ≠ c.openedAt)))

def Watch.send (s : Watch) (now : Int) : Watch :=
  let r := s.breaker.onSend now
  let period := if s.breaker.state = .open ∧ r.1.state = .halfOpen then s.period + 1 else s.period
  { s with
    breaker := r.1
    now := some now
    period
    admitted := if r.2 = .accept then s.admitted + 1 else s.admitted
    pending :=
      if r.2 = .accept then s.pending ++ [(s.admitted, if r.1.state = .closed then .closed else .probe period)]
      else s.pending }

def Watch.answer (s : Watch) (id : Nat) (origin : Origin) (ok : Bool) (now : Int) : Watch :=
  let c := s.breaker.onResult ok now
  { s with
    breaker := c
    now := some now
    pending := s.pending.filter fun p => p.1 ≠ id
    lastTrip := if Trips s.breaker c then some now else s.lastTrip
    streak := if ok then 0 else if origin.isProbe then s.streak else s.streak + 1 }

def Watch.step (s : Watch) : Call → Option Watch
  | .onSend now => if ∀ t ∈ s.now, t ≤ now then some (s.send now) else none
  | .onResult id ok now =>
    if ∀ t ∈ s.now, t ≤ now then (s.pending.lookup id).map fun origin => s.answer id origin ok now else none

def Attributed (s : Watch) : Call → Prop
  | .onSend _ => True
  | .onResult id ok _ =>
    (s.breaker.state = .open → ok = false → s.breaker.consecFail < s.breaker.failThreshold) ∧
    (s.breaker.state = .halfOpen → s.pending.lookup id = some (.probe s.period))

instance (s : Watch) : (call : Call) → Decidable (Attributed s call)
  | .onSend _ => isTrue trivial
  | .onResult _ _ _ => inferInstanceAs (Decidable (_ ∧ _))

def Watch.probes (s : Watch) : List (Nat × Origin) := s.pending.filter fun p => p.2.isProbe

def Known (openNs : Int) (c : CircuitBreaker) (lastTrip now : Option Int) : Prop :=
  (lastTrip = none → c.state = .closed) ∧
  ∀ t ∈ lastTrip, c.openedAt = t ∧ (c.state ≠ .open → ∃ n ∈ now, openNs ≤ n - t)

/-- What the breaker keeps of the past in such runs. -/
structure Inv (threshold : UInt32) (openNs : Int) (s : Watch) : Prop where
  positive : 0 < threshold
  config : s.breaker.failThreshold = threshold ∧ s.breaker.openNs = openNs
  counted : s.breaker.consecFail.toNat = s.streak
  below : s.breaker.state = .closed → s.breaker.consecFail < threshold
  probing : s.breaker.state = .halfOpen → s.breaker.probeInflight = true ∧ ∃ id, s.probes = [(id, .probe s.period)]
  answered : s.breaker.state ≠ .halfOpen → s.probes = []
  known : Known openNs s.breaker s.lastTrip s.now

variable {threshold : UInt32} {openNs now : Int} {s s' : Watch} {id : Nat} {ok : Bool} {origin : Origin}

theorem Known.later {c c' : CircuitBreaker} {past lastTrip : Option Int} (h : Known openNs c lastTrip past)
    (hnow : ∀ t ∈ past, t ≤ now) (hstate : c'.state = c.state) (hopened : c'.openedAt = c.openedAt) :
    Known openNs c' lastTrip (some now) := by
  refine ⟨fun hnone => hstate.trans (h.1 hnone), fun t ht => ⟨hopened.trans (h.2 t ht).1, fun hne => ?_⟩⟩
  obtain ⟨n, hn, hle⟩ := (h.2 t ht).2 (hstate ▸ hne)
  have := hnow n hn
  exact ⟨now, rfl, by omega⟩

theorem Inv.admitted (h : Inv threshold openNs s) (hnow : ∀ t ∈ s.now, t ≤ now)
    (haccept : (s.breaker.onSend now).2 = .accept) : ∀ t ∈ s.lastTrip, openNs ≤ now - t := by
  intro t ht
  obtain ⟨hopened, hlate⟩ := h.known.2 t ht
  by_cases hopen : s.breaker.state = .open
  · by_contra hearly
    rw [onSend, hopen] at haccept
    simp only [h.config.2, hopened, if_neg hearly] at haccept
    cases haccept
  · obtain ⟨past, hpast, hle⟩ := hlate hopen
    have := hnow past hpast
    omega

theorem Inv.send (h : Inv threshold openNs s) (hnow : ∀ t ∈ s.now, t ≤ now) : Inv threshold openNs (s.send now) := by
  cases hstate : s.breaker.state with
  | closed =>
    have hsend : s.send now = { s with
        now := some now, admitted := s.admitted + 1, pending := s.pending ++ [(s.admitted, .closed)] } := by
      simp [Watch.send, onSend, hstate]
    rw [hsend]
    refine ⟨h.positive, h.config, h.counted, h.below, fun hhalf => ?_, fun _ => ?_, h.known.later hnow rfl rfl⟩
    · rw [hstate] at hhalf
      cases hhalf
    · rw [Watch.probes, filter_append]
      exact append_eq_nil_iff.mpr ⟨h.answered (by rw [hstate]; decide), rfl⟩
  | «open» =>
    by_cases hcool : s.breaker.openNs ≤ now - s.breaker.openedAt
    · have hsend : s.send now = { s with
          breaker := { s.breaker with state := .halfOpen, probeInflight := true }
          now := some now, admitted := s.admitted + 1, period := s.period + 1
          pending := s.pending ++ [(s.admitted, .probe (s.period + 1))] } := by
        simp [Watch.send, onSend, hstate, hcool]
      rw [hsend]
      refine ⟨h.positive, h.config, h.counted, fun hclosed => (nomatch hclosed), fun _ => ⟨rfl, s.admitted, ?_⟩,
        fun hne => absurd rfl hne, fun hnone => ?_, fun t ht => ⟨(h.known.2 t ht).1, fun _ => ?_⟩⟩
      · rw [Watch.probes, filter_append]
        exact congrArg (· ++ [(s.admitted, Origin.probe (s.period + 1))]) (h.answered (by rw [hstate]; decide))
      · have hclosed := h.known.1 hnone
        rw [hstate] at hclosed
        cases hclosed
      · rw [(h.known.2 t ht).1, h.config.2] at hcool
        exact ⟨now, rfl, hcool⟩
    · have hsend : s.send now = { s with now := some now } := by
        simp [Watch.send, onSend, hstate, hcool]
      rw [hsend]
      exact ⟨h.positive, h.config, h.counted, h.below, h.probing, h.answered, h.known.later hnow rfl rfl⟩
  | halfOpen =>
    have hsend : s.send now = { s with now := some now } := by
      simp [Watch.send, onSend, hstate, (h.probing hstate).1]
    rw [hsend]
    exact ⟨h.positive, h.config, h.counted, h.below, h.probing, h.answered, h.known.later hnow rfl rfl⟩

theorem probes_answer (h : s.probes = []) : (s.answer id origin ok now).probes = [] := by
  rw [Watch.probes, filter_eq_nil_iff] at h ⊢
  exact fun p hp => h p (mem_of_mem_filter hp)

theorem Inv.probe_answered (h : Inv threshold openNs s) (hhalf : s.breaker.state = .halfOpen)
    (hprobe : s.pending.lookup id = some (.probe s.period)) : (s.answer id origin ok now).probes = [] := by
  obtain ⟨-, pid, hpid⟩ := h.probing hhalf
  obtain ⟨before, after, hpending, -⟩ := lookup_eq_some_iff.mp hprobe
  have hmem : (id, Origin.probe s.period) ∈ s.probes :=
    mem_filter.mpr ⟨by rw [hpending]; exact mem_append_right _ mem_cons_self, rfl⟩
  rw [hpid, mem_singleton] at hmem
  cases hmem
  refine filter_eq_nil_iff.mpr fun p hp hisProbe => ?_
  have hp' : p ∈ s.probes := mem_filter.mpr ⟨mem_of_mem_filter hp, hisProbe⟩
  rw [hpid, mem_singleton] at hp'
  have hne := (mem_filter.mp hp).2
  rw [hp'] at hne
  exact of_decide_eq_true hne rfl

theorem Inv.origin_closed (h : Inv threshold openNs s) (hhalf : s.breaker.state ≠ .halfOpen)
    (horigin : s.pending.lookup id = some origin) : origin = .closed := by
  cases origin with
  | closed => rfl
  | probe period =>
    obtain ⟨before, after, hpending, -⟩ := lookup_eq_some_iff.mp horigin
    have hmem : (id, Origin.probe period) ∈ s.probes :=
      mem_filter.mpr ⟨by rw [hpending]; exact mem_append_right _ mem_cons_self, rfl⟩
    rw [h.answered hhalf] at hmem
    cases hmem

theorem onResult_ok (c : CircuitBreaker) (hhalf : c.state ≠ .halfOpen) (now : Int) :
    c.onResult true now = { c with consecFail := 0 } := by
  unfold onResult
  cases hstate : c.state with
  | halfOpen => exact absurd hstate hhalf
  | closed | «open» => rfl

theorem onResult_full (c : CircuitBreaker) (hhalf : c.state ≠ .halfOpen) (now : Int)
    (hfull : c.failThreshold ≤ c.consecFail + 1) :
    c.onResult false now = ({ c with consecFail := c.consecFail + 1 } : CircuitBreaker).trip now := by
  unfold onResult
  cases hstate : c.state with
  | halfOpen => exact absurd hstate hhalf
  | closed | «open» => exact if_pos hfull

theorem onResult_below (c : CircuitBreaker) (hhalf : c.state ≠ .halfOpen) (now : Int)
    (hbelow : ¬ c.failThreshold ≤ c.consecFail + 1) :
    c.onResult false now = { c with consecFail := c.consecFail + 1 } := by
  unfold onResult
  cases hstate : c.state with
  | halfOpen => exact absurd hstate hhalf
  | closed | «open» => exact if_neg hbelow

theorem toNat_succ {a b : UInt32} (h : a < b) : (a + 1).toNat = a.toNat + 1 := by
  have hlt := UInt32.lt_iff_toNat_lt.mp h
  have hword := b.toNat_lt
  rw [UInt32.toNat_add, UInt32.toNat_one, Nat.mod_eq_of_lt (by omega)]

theorem Inv.room (h : Inv threshold openNs s) (hhalf : s.breaker.state ≠ .halfOpen)
    (hok : Attributed s (.onResult id false now)) : s.breaker.consecFail < threshold := by
  cases hstate : s.breaker.state with
  | closed => exact h.below hstate
  | «open» =>
    exact h.config.1 ▸ hok.1 hstate rfl
  | halfOpen => exact absurd hstate hhalf

/-- The breaker is tripped, possibly at the instant at which it was open already. -/
theorem Known.trip {c c' : CircuitBreaker} {past lastTrip : Option Int} (h : Known openNs c lastTrip past)
    (hstate : c'.state = .open) (hopened : c'.openedAt = now) :
    Known openNs c' (if Trips c c' then some now else lastTrip) (some now) := by
  by_cases htrips : Trips c c'
  · rw [if_pos htrips]
    refine ⟨fun hnone => (nomatch hnone), fun t ht => ?_⟩
    cases ht
    exact ⟨hopened, fun hne => absurd hstate hne⟩
  · have hsame : ¬ (c.state ≠ .open ∨ c'.openedAt ≠ c.openedAt) := fun hor => htrips ⟨hstate, hor⟩
    rw [not_or, not_not, not_not] at hsame
    rw [if_neg htrips]
    refine ⟨fun hnone => ?_, fun t ht => ⟨hsame.2.trans (h.2 t ht).1, fun hne => absurd hstate hne⟩⟩
    have hclosed := h.1 hnone
    rw [hsame.1] at hclosed
    cases hclosed

theorem not_trips {c c' : CircuitBreaker} (hstate : c'.state = c.state) (hopened : c'.openedAt = c.openedAt) :
    ¬ Trips c c' := by
  rintro ⟨hopen, hmoved⟩
  exact hmoved.elim (fun hne => hne (hstate.symm.trans hopen)) (fun hne => hne hopened)

theorem Known.keep {c c' : CircuitBreaker} {past lastTrip : Option Int} (h : Known openNs c lastTrip past)
    (hnow : ∀ t ∈ past, t ≤ now) (hstate : c'.state = c.state ∨ c'.state = .closed ∧ c.state = .halfOpen)
    (hopened : c'.openedAt = c.openedAt) : Known openNs c' (if Trips c c' then some now else lastTrip)
    (some now) := by
  have htrips : ¬ Trips c c' := by
    obtain hsame | ⟨hclosed, -⟩ := hstate
    · exact not_trips hsame hopened
    · rintro ⟨hopen, -⟩
      rw [hclosed] at hopen
      cases hopen
  rw [if_neg htrips]
  obtain hsame | ⟨hclosed, hhalf⟩ := hstate
  · exact h.later hnow hsame hopened
  · have hlater : Known openNs c lastTrip (some now) := h.later hnow rfl rfl
    exact ⟨fun _ => hclosed, fun t ht =>
      ⟨hopened.trans (hlater.2 t ht).1, fun _ => (hlater.2 t ht).2 (by rw [hhalf]; decide)⟩⟩

theorem Inv.answer_of (h : Inv threshold openNs s) {c : CircuitBreaker} (hc : s.breaker.onResult ok now = c)
    (hconfig : c.failThreshold = s.breaker.failThreshold ∧ c.openNs = s.breaker.openNs)
    (hcount : c.consecFail.toNat = if ok then 0 else if origin.isProbe then s.streak else s.streak + 1)
    (hbelow : c.state = .closed → c.consecFail < threshold) (hhalf : c.state ≠ .halfOpen)
    (hanswered : (s.answer id origin ok now).probes = [])
    (hknown : Known openNs c (if Trips s.breaker c then some now else s.lastTrip) (some now)) :
    Inv threshold openNs (s.answer id origin ok now) := by
  subst hc
  exact ⟨h.positive, ⟨hconfig.1.trans h.config.1, hconfig.2.trans h.config.2⟩, hcount, hbelow,
    fun heq => absurd heq hhalf, fun _ => hanswered, hknown⟩

theorem Inv.answer (h : Inv threshold openNs s) (hnow : ∀ t ∈ s.now, t ≤ now)
    (horigin : s.pending.lookup id = some origin) (hok : Attributed s (.onResult id ok now)) :
    Inv threshold openNs (s.answer id origin ok now) := by
  by_cases hhalf : s.breaker.state = .halfOpen
  · have hprobe : s.pending.lookup id = some (.probe s.period) := hok.2 hhalf
    have hanswered : (s.answer id origin ok now).probes = [] := h.probe_answered hhalf hprobe
    rw [hprobe] at horigin
    cases horigin
    cases ok with
    | true =>
      have hc : s.breaker.onResult true now =
          { s.breaker with probeInflight := false, state := .closed, consecFail := 0 } := by
        simp [onResult, hhalf]
      exact h.answer_of hc ⟨rfl, rfl⟩ rfl (fun _ => h.positive) (fun hne => nomatch hne) hanswered
        (h.known.keep hnow (.inr ⟨rfl, hhalf⟩) rfl)
    | false =>
      have hc : s.breaker.onResult false now = ({ s.breaker with probeInflight := false } :
          CircuitBreaker).trip now := by
        simp [onResult, hhalf]
      exact h.answer_of hc ⟨rfl, rfl⟩ h.counted (fun hne => nomatch hne) (fun hne => nomatch hne) hanswered
        (h.known.trip rfl rfl)
  · have hanswered : (s.answer id origin ok now).probes = [] := probes_answer (h.answered hhalf)
    cases h.origin_closed hhalf horigin
    cases ok with
    | true =>
      exact h.answer_of (onResult_ok s.breaker hhalf now) ⟨rfl, rfl⟩ rfl (fun _ => h.positive) hhalf hanswered
        (h.known.keep hnow (.inl rfl) rfl)
    | false =>
      have hroom := h.room hhalf hok
      have hcount : (s.breaker.consecFail + 1).toNat = s.streak + 1 := by rw [toNat_succ hroom, h.counted]
      by_cases hfull : s.breaker.failThreshold ≤ s.breaker.consecFail + 1
      · exact h.answer_of (onResult_full s.breaker hhalf now hfull) ⟨rfl, rfl⟩ hcount (fun hne => nomatch hne)
          (fun hne => nomatch hne) hanswered (h.known.trip rfl rfl)
      · have hbelow : s.breaker.consecFail + 1 < threshold := by
          rw [h.config.1] at hfull
          exact UInt32.not_le.mp hfull
        exact h.answer_of (onResult_below s.breaker hhalf now hfull) ⟨rfl, rfl⟩ hcount
          (fun _ => hbelow) hhalf hanswered
          (h.known.keep hnow (.inl rfl) rfl)

theorem Inv.step {call : Call} (h : Inv threshold openNs s) (hok : Attributed s call)
    (hstep : s.step call = some s') :
    Inv threshold openNs s' := by
  cases call with
  | onSend now =>
    rw [Watch.step] at hstep
    split_ifs at hstep with hnow
    cases hstep
    exact h.send hnow
  | onResult id ok now =>
    rw [Watch.step] at hstep
    split_ifs at hstep with hnow
    obtain ⟨origin, horigin, rfl⟩ := Option.map_eq_some_iff.mp hstep
    exact h.answer hnow horigin hok

theorem Inv.initial (failThreshold : UInt32) (openNs : Int) :
    Inv (new failThreshold openNs).failThreshold openNs { breaker := new failThreshold openNs } := by
  have hpos : 0 < (new failThreshold openNs).failThreshold := by
    simp only [new]
    split
    · decide
    · next hne => exact UInt32.pos_iff_ne_zero.mpr hne
  exact ⟨hpos, ⟨rfl, rfl⟩, rfl, fun _ => hpos, fun h => (nomatch h), fun _ => rfl, fun _ => rfl,
    fun t ht => nomatch ht⟩

theorem onSend_closed {c : CircuitBreaker} (h : (c.onSend now).1.state = .closed) : c.state = .closed := by
  unfold onSend at h
  cases hstate : c.state with
  | closed => rfl
  | «open» =>
    simp only [hstate] at h
    split_ifs at h
    simp only [hstate] at h
    cases h
  | halfOpen =>
    simp only [hstate] at h
    split at h <;> (simp only [hstate] at h; cases h)

theorem Inv.result (h : Inv threshold openNs s) (horigin : s.pending.lookup id = some origin)
    (hok : Attributed s (.onResult id ok now)) :
    ((s.breaker.onResult ok now).state = .closed →
      s.breaker.state = .closed ∨ ok = true ∧ origin = .probe s.period) ∧
    (Trips s.breaker (s.breaker.onResult ok now) →
      ok = false ∧ (origin = .probe s.period ∨ origin = .closed ∧ s.streak + 1 = threshold.toNat)) ∧
    (s.breaker.state = .closed → ok = false → s.streak + 1 = threshold.toNat →
    (s.breaker.onResult ok now).state = .open) := by
  by_cases hhalf : s.breaker.state = .halfOpen
  · have hprobe : s.pending.lookup id = some (.probe s.period) := hok.2 hhalf
    rw [hprobe] at horigin
    cases horigin
    refine ⟨fun hclosed => ?_, fun htrips => ⟨?_, .inl rfl⟩, fun hclosed => ?_⟩
    · cases ok with
      | true => exact .inr ⟨rfl, rfl⟩
      | false => simp [onResult, hhalf, trip] at hclosed
    · cases ok with
      | true => simp [onResult, hhalf, Trips] at htrips
      | false => rfl
    · rw [hhalf] at hclosed
      cases hclosed
  · cases h.origin_closed hhalf horigin
    cases ok with
    | true =>
      rw [onResult_ok s.breaker hhalf]
      exact ⟨.inl, fun htrips => absurd htrips (not_trips rfl rfl), fun _ hfalse => nomatch hfalse⟩
    | false =>
      have hroom := h.room hhalf hok
      have hcount : (s.breaker.consecFail + 1).toNat = s.streak + 1 := by rw [toNat_succ hroom, h.counted]
      by_cases hfull : s.breaker.failThreshold ≤ s.breaker.consecFail + 1
      · rw [onResult_full s.breaker hhalf now hfull]
        have hexact : s.streak + 1 = threshold.toNat := by
          rw [h.config.1, UInt32.le_iff_toNat_le, hcount] at hfull
          rw [UInt32.lt_iff_toNat_lt, h.counted] at hroom
          omega
        exact ⟨fun hclosed => (nomatch hclosed), fun _ => ⟨rfl, .inr ⟨rfl, hexact⟩⟩, fun _ _ _ => rfl⟩
      · rw [onResult_below s.breaker hhalf now hfull]
        refine ⟨.inl, fun htrips => absurd htrips (not_trips rfl rfl), fun _ _ hexact => absurd ?_ hfull⟩
        rw [h.config.1, UInt32.le_iff_toNat_le, hcount]
        exact Nat.le_of_eq hexact.symm

/-- In every run in which a half-open breaker only hears of its probe, and an open one of no failure beyond
the threshold: at most one probe is unanswered; a send is admitted only `open_ns` after the last trip; and the
breaker closes through the success of its probe and trips through its failure, or else through exactly the
threshold of failures in a row. -/
theorem breaker_attributes (failThreshold : UInt32) (openNs : Int)
    (hs : Machine.Reach Watch.step Attributed { breaker := new failThreshold openNs } s) :
    s.probes.length ≤ 1 ∧
    (∀ now s', s.step (.onSend now) = some s' →
      (s'.breaker.state = .closed → s.breaker.state = .closed) ∧
      (s'.admitted ≠ s.admitted → ∀ t ∈ s.lastTrip, openNs ≤ now - t)) ∧
    ∀ id ok now s', Attributed s (.onResult id ok now) → s.step (.onResult id ok now) = some s' →
      (s'.breaker.state = .closed →
        s.breaker.state = .closed ∨ ok = true ∧ s.pending.lookup id = some (.probe s.period)) ∧
      (Trips s.breaker s'.breaker → ok = false ∧ (s.pending.lookup id = some (.probe s.period) ∨
        s.pending.lookup id = some .closed ∧ s'.streak = (new failThreshold openNs).failThreshold.toNat)) ∧
      (s.breaker.state = .closed → ok = false → s'.streak = (new failThreshold openNs).failThreshold.toNat →
        s'.breaker.state = .open) := by
  have h : Inv (new failThreshold openNs).failThreshold openNs s :=
    hs.invariant (Inv.initial failThreshold openNs) fun _ _ _ h hok hstep => h.step hok hstep
  refine ⟨?_, fun now s' hstep => ?_, fun id ok now s' hok hstep => ?_⟩
  · by_cases hhalf : s.breaker.state = .halfOpen
    · obtain ⟨-, id, hid⟩ := h.probing hhalf
      exact hid ▸ Nat.le_refl 1
    · rw [h.answered hhalf]
      exact Nat.zero_le 1
  · rw [Watch.step] at hstep
    split_ifs at hstep with hnow
    cases hstep
    refine ⟨onSend_closed, fun hmore => h.admitted hnow ?_⟩
    by_contra hshed
    exact hmore (if_neg hshed)
  · rw [Watch.step] at hstep
    split_ifs at hstep with hnow
    obtain ⟨origin, horigin, rfl⟩ := Option.map_eq_some_iff.mp hstep
    obtain ⟨hcloses, htrips, hfull⟩ := h.result horigin hok
    rw [horigin]
    refine ⟨fun hclosed => (hcloses hclosed).imp_right fun ⟨hok, hprobe⟩ => ⟨hok, by rw [hprobe]⟩, fun htrip => ?_,
      fun hclosed hfailed hstreak => ?_⟩
    · obtain ⟨hfailed, hprobe | ⟨horigin', hexact⟩⟩ := htrips htrip
      · exact ⟨hfailed, .inl (by rw [hprobe])⟩
      · refine ⟨hfailed, .inr ⟨by rw [horigin'], ?_⟩⟩
        rw [← hexact]
        simp [Watch.answer, hfailed, horigin', Origin.isProbe]
    · have horigin' := h.origin_closed (by rw [hclosed]; decide) horigin
      refine hfull hclosed hfailed ?_
      rw [← hstreak]
      simp [Watch.answer, hfailed, horigin', Origin.isProbe]

def probed : Watch := ((({ breaker := new 1 10 } : Watch).send 0).answer 0 .closed false 0).send 10

theorem breaker_attributes_probed : probed.probes.length ≤ 1 ∧
    ((probed.answer 1 (.probe 1) true 11).breaker.state = .closed →
      probed.breaker.state = .closed ∨ true = true ∧ probed.pending.lookup 1 = some (.probe probed.period)) := by
  have hrun : Machine.run (Machine.guarded Watch.step Attributed) { breaker := new 1 10 }
      [.onSend 0, .onResult 0 false 0, .onSend 10] = some probed := by decide
  have h := breaker_attributes 1 10 (Machine.reach_of_run hrun)
  exact ⟨h.1, (h.2.2 1 true 11 _ (by decide) (by decide)).1⟩

/-- The result of a send from before the trip comes while the breaker waits for its probe: its success closes
the breaker, and its failure leaves the probe behind, so that a second one is admitted beside it. -/
theorem late_result_taken_for_probe :
    (Machine.run Watch.step { breaker := new 1 10 } [.onSend 0, .onSend 0, .onResult 0 false 0, .onSend 10,
      .onResult 1 true 11]).map (fun s => (s.breaker.state, s.probes)) = some (.closed, [(2, .probe 1)]) ∧
    (Machine.run Watch.step { breaker := new 1 10 } [.onSend 0, .onSend 0, .onResult 0 false 0, .onSend 10,
      .onResult 1 false 11, .onSend 21]).map (fun s => (s.breaker.state, s.probes)) =
      some (.halfOpen, [(2, .probe 1), (3, .probe 2)]) := by
  decide

end CircuitBreaker

end Quark
