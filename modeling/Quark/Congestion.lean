import Mathlib.Algebra.Order.Field.Rat
import Mathlib.Tactic.Linarith
import Quark.CircuitBreaker
import Quark.Lib.Table
import Quark.Placement

/-! `TokenBucket`, `PeerCongestionGate` and `PeerCongestionTable` of `governance.hpp`, with tokens as exact
rationals. -/
namespace Quark

open Function AList
open Placement (NodeId)

/-- A second in nanoseconds, and the epsilon of the comparison, which is one part in as many. -/
def nanos : ℚ := 1000000000

structure TokenBucket where
  cap : ℚ := 0
  tokens : ℚ := 0
  refillPerSec : ℚ := 0
  lastNs : Int := 0
  primed : Bool := false
  deriving DecidableEq, Repr

namespace TokenBucket

def new (capacity refillPerSec : ℚ) : TokenBucket := { cap := capacity, tokens := capacity, refillPerSec }

def kEps : ℚ := 1 / nanos

def refill (b : TokenBucket) (now : Int) : TokenBucket :=
  if b.primed then
    if now ≤ b.lastNs then b
    else { b with
      tokens := min b.cap (b.tokens + ((now - b.lastNs : Int) : ℚ) / nanos * b.refillPerSec)
      lastNs := now }
  else { b with primed := true, lastNs := now }

def check (b : TokenBucket) (now : Int) (cost : UInt32) : TokenBucket × Admit :=
  let b := b.refill now
  if (cost.toNat : ℚ) ≤ b.tokens + kEps then ({ b with tokens := b.tokens - cost.toNat }, .accept) else (b, .shed)

end TokenBucket

namespace TokenBucket

def worth (b : TokenBucket) (now : Int) : ℚ :=
  if b.primed then min b.cap (b.tokens + ((now - b.lastNs : Int) : ℚ) / nanos * b.refillPerSec) else b.tokens

/-- A bucket that was last used before `now`. -/
structure Ok (capacity refillPerSec : ℚ) (now : Int) (b : TokenBucket) : Prop where
  cap : b.cap = capacity
  rate : b.refillPerSec = refillPerSec
  least : -kEps ≤ b.tokens
  most : b.tokens ≤ capacity
  past : b.primed = true → b.lastNs ≤ now

variable {capacity refillPerSec : ℚ} {past now : Int} {b : TokenBucket}

theorem elapsed_nonneg {a c : Int} (h : a ≤ c) : 0 ≤ ((c - a : Int) : ℚ) / nanos :=
  div_nonneg (Int.cast_nonneg (Int.sub_nonneg.mpr h)) (by norm_num [nanos])

theorem kEps_nonneg : 0 ≤ kEps := by norm_num [kEps, nanos]

theorem new_ok (hcap : 0 ≤ capacity) (now : Int) : (new capacity refillPerSec).Ok capacity refillPerSec now :=
  ⟨rfl, rfl, by have := kEps_nonneg; simp only [new]; linarith, le_rfl, fun h => nomatch h⟩

theorem Ok.later (h : b.Ok capacity refillPerSec past) (hnow : past ≤ now) : b.Ok capacity refillPerSec now :=
  ⟨h.cap, h.rate, h.least, h.most, fun hprimed => (h.past hprimed).trans hnow⟩

theorem Ok.worth_le (h : b.Ok capacity refillPerSec now) : b.worth now ≤ capacity := by
  unfold worth
  split
  · exact h.cap ▸ min_le_left _ _
  · exact h.most

theorem Ok.worth_least (hcap : 0 ≤ capacity) (hrate : 0 ≤ refillPerSec) (h : b.Ok capacity refillPerSec now) :
    -kEps ≤ b.worth now := by
  unfold worth
  split
  · next hprimed =>
    have hgain := mul_nonneg (elapsed_nonneg (h.past hprimed)) hrate
    have heps := kEps_nonneg
    have hleast := h.least
    rw [h.cap, h.rate]
    exact le_min (by linarith) (by linarith)
  · exact h.least

theorem Ok.worth_later (hrate : 0 ≤ refillPerSec) (h : b.Ok capacity refillPerSec past) (hnow : past ≤ now) :
    b.worth now ≤ b.worth past + ((now - past : Int) : ℚ) / nanos * refillPerSec := by
  have hgain := mul_nonneg (elapsed_nonneg hnow) hrate
  unfold worth
  split
  · next hprimed =>
    have hsplit : ((now - b.lastNs : Int) : ℚ) / nanos * refillPerSec =
        ((past - b.lastNs : Int) : ℚ) / nanos * refillPerSec + ((now - past : Int) : ℚ) / nanos * refillPerSec := by
      push_cast
      ring
    rw [h.rate, hsplit]
    refine min_le_iff.mpr ?_
    by_cases hfull : b.cap ≤ b.tokens + ((past - b.lastNs : Int) : ℚ) / nanos * refillPerSec
    · exact .inl (by rw [min_eq_left hfull]; linarith)
    · exact .inr (by rw [min_eq_right (le_of_not_ge hfull)]; linarith)
  · linarith

theorem worth_now (h : b.lastNs = now) : b.worth now ≤ b.tokens := by
  unfold worth
  split
  · rw [h, Int.sub_self, Int.cast_zero, zero_div, zero_mul, add_zero]
    exact min_le_right _ _
  · exact le_rfl

theorem Ok.refill (hcap : 0 ≤ capacity) (hrate : 0 ≤ refillPerSec) (h : b.Ok capacity refillPerSec now) :
    (b.refill now).tokens = b.worth now ∧ (b.refill now).lastNs = now ∧
    (b.refill now).Ok capacity refillPerSec now := by
  have hleast := h.worth_least hcap hrate
  have hmost := h.worth_le
  unfold TokenBucket.refill
  by_cases hprimed : b.primed = true
  · rw [if_pos hprimed]
    by_cases hnow : now ≤ b.lastNs
    · rw [if_pos hnow]
      have hlast : b.lastNs = now := le_antisymm (h.past hprimed) hnow
      have hworth : b.worth now = b.tokens := by
        rw [worth, if_pos hprimed, hlast, Int.sub_self, Int.cast_zero, zero_div, zero_mul, add_zero, h.cap,
          min_eq_right h.most]
      exact ⟨hworth.symm, hlast, h⟩
    · rw [if_neg hnow]
      rw [worth, if_pos hprimed] at hleast hmost ⊢
      exact ⟨rfl, rfl, h.cap, h.rate, hleast, hmost, fun _ => le_rfl⟩
  · rw [if_neg hprimed, worth, if_neg hprimed]
    exact ⟨rfl, rfl, h.cap, h.rate, h.least, h.most, fun _ => le_rfl⟩

def spent (r : TokenBucket × Admit) (cost : UInt32) : Nat := if r.2 = .accept then cost.toNat else 0

theorem Ok.check (hcap : 0 ≤ capacity) (hrate : 0 ≤ refillPerSec) (h : b.Ok capacity refillPerSec now)
    (cost : UInt32) : (b.check now cost).1.Ok capacity refillPerSec now ∧
      (b.check now cost).1.worth now + spent (b.check now cost) cost ≤ b.worth now := by
  obtain ⟨htokens, hlast, hok⟩ := h.refill hcap hrate
  unfold TokenBucket.check spent
  dsimp only
  by_cases hpaid : (cost.toNat : ℚ) ≤ (b.refill now).tokens + kEps
  · simp only [if_pos hpaid, if_true]
    have hcost : (0 : ℚ) ≤ cost.toNat := Nat.cast_nonneg _
    have hmost := hok.most
    refine ⟨⟨hok.cap, hok.rate, by linarith, by linarith, hok.past⟩, ?_⟩
    have hnow := worth_now (b := { b.refill now with tokens := (b.refill now).tokens - cost.toNat }) hlast
    rw [← htokens]
    dsimp only at hnow
    linarith
  · rw [if_neg hpaid, if_neg fun heq : Admit.shed = .accept => (nomatch heq), Nat.cast_zero, add_zero, ← htokens]
    exact ⟨hok, worth_now hlast⟩

end TokenBucket

structure PeerCongestionGate where
  congestedUntil : Int := 0
  bucket : TokenBucket
  deriving DecidableEq, Repr

namespace PeerCongestionGate

def markCongested (g : PeerCongestionGate) (until_ : Int) : PeerCongestionGate := { g with congestedUntil := until_ }

def congested (g : PeerCongestionGate) (now : Int) : Bool := now < g.congestedUntil

def admit_ (g : PeerCongestionGate) (now : Int) (cost : UInt32) : PeerCongestionGate × Admit :=
  if g.congestedUntil ≤ now then (g, .accept)
  else
    let r := g.bucket.check now cost
    ({ g with bucket := r.1 }, r.2)

end PeerCongestionGate

/-- The configuration of a table: a bucket holds tokens and gains them. -/
structure CongestionConfig where
  capacity : ℚ := 64
  refillPerSec : ℚ := 32
  maxGates : Nat := 4096
  capacity_nonneg : 0 ≤ capacity := by decide
  refill_nonneg : 0 ≤ refillPerSec := by decide

abbrev Gates := Table NodeId PeerCongestionGate

namespace PeerCongestionTable

variable (cfg : CongestionConfig)

def fresh : PeerCongestionGate := { bucket := TokenBucket.new cfg.capacity cfg.refillPerSec }

/-- The gate of a peer, and whether it is one of the table: a transient one is not. -/
def gateFor (gates : Gates) (peer : NodeId) (now : Int) : Gates × PeerCongestionGate × Bool :=
  match gates.lookup peer with
  | some g => (gates, g, true)
  | none =>
    if cfg.maxGates ≤ Table.size gates then
      let kept := Table.eraseIf (fun _ g => !g.congested now) gates
      if cfg.maxGates ≤ Table.size kept then (kept, fresh cfg, false) else (kept.insert peer (fresh cfg),
        fresh cfg, true)
    else (gates.insert peer (fresh cfg), fresh cfg, true)

variable {cfg} {gates : Gates} {peer : NodeId} {now : Int}

/-- A gate is found, or a fresh one is made and put into a table with room, or it stays outside of a full one. -/
theorem gateFor_cases (cfg : CongestionConfig) (gates : Gates) (peer : NodeId) (now : Int) :
    (∃ g, gates.lookup peer = some g ∧ gateFor cfg gates peer now = (gates, g, true)) ∨
    gates.lookup peer = none ∧ ∃ kept, (kept = gates ∨ kept = Table.eraseIf (fun _ g => !g.congested now) gates) ∧
      (Table.size kept < cfg.maxGates ∧ gateFor cfg gates peer now = (kept.insert peer (fresh cfg), fresh cfg, true) ∨
        kept = Table.eraseIf (fun _ g => !g.congested now) gates ∧ cfg.maxGates ≤ Table.size kept ∧
          gateFor cfg gates peer now = (kept, fresh cfg, false)) := by
  unfold gateFor
  cases hg : gates.lookup peer with
  | some g => exact .inl ⟨g, rfl, rfl⟩
  | none =>
    refine .inr ⟨rfl, ?_⟩
    by_cases hfull : cfg.maxGates ≤ Table.size gates
    · simp only [if_pos hfull]
      by_cases hkept : cfg.maxGates ≤ Table.size (Table.eraseIf (fun _ g => !g.congested now) gates)
      · exact ⟨_, .inr rfl, .inr ⟨rfl, hkept, if_pos hkept⟩⟩
      · exact ⟨_, .inr rfl, .inl ⟨Nat.lt_of_not_le hkept, if_neg hkept⟩⟩
    · exact ⟨gates, .inl rfl, .inl ⟨Nat.lt_of_not_le hfull, if_neg hfull⟩⟩

variable (cfg)

def admit_ (gates : Gates) (peer : NodeId) (now : Int) (cost : UInt32) : Gates × Bool :=
  let r := gateFor cfg gates peer now
  let g := r.2.1.admit_ now cost
  (if r.2.2 then r.1.insert peer g.1 else r.1, decide (g.2 = .accept))

/-- A mark does not know the time. -/
def markCongested (gates : Gates) (peer : NodeId) (until_ : Int) : Gates :=
  let r := gateFor cfg gates peer 0
  if r.2.2 then r.1.insert peer (r.2.1.markCongested until_) else r.1

/-- The table, the time of the last call, the end of the last mark of a peer, and the tokens of the sends to
it that were admitted. -/
structure Traffic where
  gates : Gates := ∅
  now : Int
  marked : NodeId → Int := fun _ => 0
  admitted : NodeId → Nat := fun _ => 0

inductive Call
  | admit_ (peer : NodeId) (now : Int) (cost : UInt32)
  | mark (peer : NodeId) (until_ now : Int)
  deriving DecidableEq, Repr

def Call.time : Call → Int
  | .admit_ _ now _ => now
  | .mark _ _ now => now

def step (s : Traffic) (call : Call) : Option Traffic :=
  if s.now ≤ call.time then
    match call with
    | .admit_ peer now cost =>
      let r := PeerCongestionTable.admit_ cfg s.gates peer now cost
      some { s with
        gates := r.1
        now
        admitted := update s.admitted peer (s.admitted peer + if r.2 then cost.toNat else 0) }
    | .mark peer until_ now =>
      some { s with
        gates := markCongested cfg s.gates peer until_
        now
        marked := update s.marked peer until_ }
  else none

/-- The gates of a table: no more than there may be, each with a bucket of the configuration. -/
structure Sound (cfg : CongestionConfig) (gates : Gates) (now : Int) : Prop where
  size : Table.size gates ≤ cfg.maxGates
  bucket : ∀ peer g, gates.lookup peer = some g → g.bucket.Ok cfg.capacity cfg.refillPerSec now

variable {cfg} {s s' : Traffic} {g : PeerCongestionGate} {kept : Gates} {past clock until_ : Int} {cost : UInt32}

theorem Sound.later (h : Sound cfg gates past) (hnow : past ≤ now) : Sound cfg gates now :=
  ⟨h.size, fun peer g hg => (h.bucket peer g hg).later hnow⟩

theorem Sound.sweep (h : Sound cfg gates now) (p : NodeId → PeerCongestionGate → Bool) :
    Sound cfg (Table.eraseIf p gates) now := by
  refine ⟨(List.length_filter_le _ _).trans h.size, fun peer g hg => h.bucket peer g ?_⟩
  rw [Table.lookup_eraseIf] at hg
  exact (Option.filter_eq_some_iff.mp hg).1

theorem Sound.insert (h : Sound cfg gates now) (hroom : (gates.lookup peer).isSome ∨ Table.size gates < cfg.maxGates)
    (hg : g.bucket.Ok cfg.capacity cfg.refillPerSec now) : Sound cfg (gates.insert peer g) now := by
  refine ⟨?_, fun peer' g' hg' => ?_⟩
  · cases hold : gates.lookup peer with
    | some old =>
      rw [Table.size_insert_of_some hold]
      exact h.size
    | none =>
      rw [Table.size_insert_of_none hold]
      exact hroom.resolve_left (by rw [hold]; exact Bool.false_ne_true)
  · by_cases hpeer : peer' = peer
    · rw [hpeer, lookup_insert] at hg'
      cases hg'
      exact hg
    · rw [lookup_insert_ne hpeer] at hg'
      exact h.bucket peer' g' hg'

theorem fresh_ok (cfg : CongestionConfig) (now : Int) : (fresh cfg).bucket.Ok cfg.capacity cfg.refillPerSec now :=
  TokenBucket.new_ok cfg.capacity_nonneg now

theorem Sound.gateFor (h : Sound cfg gates now) (peer : NodeId) (clock : Int) :
    Sound cfg (gateFor cfg gates peer clock).1 now ∧
    (gateFor cfg gates peer clock).2.1.bucket.Ok cfg.capacity cfg.refillPerSec now ∧
    ((gateFor cfg gates peer clock).2.2 = true →
      (gateFor cfg gates peer clock).1.lookup peer = some (gateFor cfg gates peer clock).2.1) := by
  obtain ⟨g, hg, heq⟩ | ⟨-, kept, hkept, htable⟩ := gateFor_cases cfg gates peer clock
  · rw [heq]
    exact ⟨h, h.bucket peer g hg, fun _ => hg⟩
  · have hsound : Sound cfg kept now := by
      obtain rfl | rfl := hkept
      · exact h
      · exact h.sweep _
    obtain ⟨hroom, heq⟩ | ⟨-, -, heq⟩ := htable
    · rw [heq]
      exact ⟨hsound.insert (.inr hroom) (fresh_ok cfg now), fresh_ok cfg now, fun _ => lookup_insert _⟩
    · rw [heq]
      exact ⟨hsound, fresh_ok cfg now, fun hfalse => nomatch hfalse⟩

theorem admit_ok (hg : g.bucket.Ok cfg.capacity cfg.refillPerSec now) (cost : UInt32) :
    (g.admit_ now cost).1.bucket.Ok cfg.capacity cfg.refillPerSec now := by
  unfold PeerCongestionGate.admit_
  split_ifs
  · exact hg
  · exact (hg.check cfg.capacity_nonneg cfg.refill_nonneg cost).1

theorem Sound.step {call : Call} (h : Sound cfg s.gates s.now) (hstep : step cfg s call = some s') :
    Sound cfg s'.gates s'.now := by
  unfold PeerCongestionTable.step at hstep
  split_ifs at hstep with hnow
  cases call with
  | admit_ peer now cost =>
    cases hstep
    obtain ⟨hsound, hok, hmine⟩ := (h.later hnow).gateFor peer now
    simp only [PeerCongestionTable.admit_]
    split_ifs with hregistered
    · exact hsound.insert (.inl (by rw [hmine hregistered]; rfl)) (admit_ok hok cost)
    · exact hsound
  | mark peer until_ now =>
    cases hstep
    obtain ⟨hsound, hok, hmine⟩ := (h.later hnow).gateFor peer 0
    simp only [PeerCongestionTable.markCongested]
    split_ifs with hregistered
    · exact hsound.insert (.inl (by rw [hmine hregistered]; rfl)) hok
    · exact hsound

/-- The mark of `p` is in force at the call, and a later mark of `p` ends at a positive time. -/
def InForce (p : NodeId) (s : Traffic) : Call → Prop
  | .admit_ _ now _ => now < s.marked p
  | .mark peer until_ now => now < s.marked p ∧ (peer = p → 0 < until_)

/-- The peer has a gate, or there is room for one in what a mark does not sweep. -/
def TakesHold (cfg : CongestionConfig) (gates : Gates) (p : NodeId) : Prop :=
  (gates.lookup p).isSome ∨ Table.size (Table.eraseIf (fun _ g => !g.congested 0) gates) < cfg.maxGates

/-- The gate of `p` has the last mark, and what was admitted since, with what its bucket is worth now, is paid for. -/
def Held (cfg : CongestionConfig) (p : NodeId) (since : Int) (already : Nat) (s : Traffic) : Prop :=
  ∃ g, s.gates.lookup p = some g ∧ g.congestedUntil = s.marked p ∧ 0 < s.marked p ∧
    (s.admitted p - already : ℚ) + g.bucket.worth s.now ≤
      cfg.capacity + ((s.now - since : Int) : ℚ) / nanos * cfg.refillPerSec

variable {p : NodeId} {since : Int} {already : Nat}

theorem gateFor_keeps (hg : gates.lookup p = some g) (hp : peer ≠ p) (hforce : clock < g.congestedUntil) :
    (gateFor cfg gates peer clock).1.lookup p = some g := by
  have hswept : (Table.eraseIf (fun _ g => !g.congested clock) gates).lookup p = some g := by
    rw [Table.lookup_eraseIf, hg]
    exact Option.filter_some_pos (by simpa [PeerCongestionGate.congested] using hforce)
  obtain ⟨g', -, heq⟩ | ⟨-, kept, hkept, ⟨-, heq⟩ | ⟨hkept', -, heq⟩⟩ := gateFor_cases cfg gates peer clock
  · rw [heq]
    exact hg
  · rw [heq, lookup_insert_ne (Ne.symm hp)]
    obtain rfl | rfl := hkept
    · exact hg
    · exact hswept
  · rw [heq, hkept']
    exact hswept

theorem gateFor_found (hg : gates.lookup p = some g) : gateFor cfg gates p clock = (gates, g, true) := by
  unfold gateFor
  rw [hg]

theorem put_keeps {r : Gates × PeerCongestionGate × Bool} {g' : PeerCongestionGate} (hr : r.1.lookup p = some g)
    (hp : peer ≠ p) : (if r.2.2 then r.1.insert peer g' else r.1).lookup p = some g := by
  split_ifs
  · rw [lookup_insert_ne (Ne.symm hp), hr]
  · exact hr

theorem admit_marked (hforce : now < g.congestedUntil) (cost : UInt32) :
    g.admit_ now cost = ({ g with bucket := (g.bucket.check now cost).1 }, (g.bucket.check now cost).2) := by
  unfold PeerCongestionGate.admit_
  exact if_neg (not_le.mpr hforce)

theorem Held.step {call : Call} (hsound : Sound cfg s.gates s.now) (h : Held cfg p since already s)
    (hforce : InForce p s call) (hstep : step cfg s call = some s') : Held cfg p since already s' := by
  obtain ⟨g, hg, hmark, hpos, hpaid⟩ := h
  unfold PeerCongestionTable.step at hstep
  split_ifs at hstep with hnow
  have hgain := (hsound.bucket p g hg).worth_later cfg.refill_nonneg hnow
  have hok := (hsound.bucket p g hg).later hnow
  have hlater : (s.admitted p - already : ℚ) + g.bucket.worth call.time ≤
      cfg.capacity + ((call.time - since : Int) : ℚ) / nanos * cfg.refillPerSec := by
    have hsplit : ((call.time - since : Int) : ℚ) / nanos * cfg.refillPerSec =
        ((s.now - since : Int) : ℚ) / nanos * cfg.refillPerSec + ((call.time - s.now : Int) : ℚ) / nanos *
        cfg.refillPerSec := by
      push_cast
      ring
    linarith
  cases call with
  | admit_ peer now cost =>
    cases hstep
    have htime : now < s.marked p := hforce
    by_cases hp : peer = p
    · subst hp
      obtain ⟨-, hspent⟩ := hok.check cfg.capacity_nonneg cfg.refill_nonneg cost
      have hadmit := admit_marked (hmark ▸ htime) cost
      refine ⟨{ g with bucket := (g.bucket.check now cost).1 }, ?_, hmark, hpos, ?_⟩
      · simp only [PeerCongestionTable.admit_, gateFor_found hg, if_true, lookup_insert]
        exact congrArg some (congrArg Prod.fst hadmit)
      · have htokens : (update s.admitted peer (s.admitted peer +
            if (PeerCongestionTable.admit_ cfg s.gates peer now cost).2 then cost.toNat else 0) peer : ℚ) =
              s.admitted peer + TokenBucket.spent (g.bucket.check now cost) cost := by
          rw [update_self, Nat.cast_add, PeerCongestionTable.admit_, gateFor_found hg, TokenBucket.spent]
          simp only [decide_eq_true_eq]
          rw [show (g.admit_ now cost).2 = (g.bucket.check now cost).2 from congrArg Prod.snd hadmit]
        simp only [htokens]
        dsimp only [Call.time] at hlater hspent
        linarith
    · refine ⟨g, put_keeps (gateFor_keeps hg hp (hmark ▸ htime)) hp, hmark, hpos, ?_⟩
      simp only [update_of_ne (Ne.symm hp)]
      exact hlater
  | mark peer until_ now =>
    cases hstep
    by_cases hp : peer = p
    · subst hp
      have hnewest : update s.marked peer until_ peer = until_ := update_self ..
      refine ⟨g.markCongested until_, ?_, hnewest.symm, ?_, hlater⟩
      · simp only [PeerCongestionTable.markCongested, gateFor_found hg, if_true, lookup_insert]
      · simp only [hnewest]
        exact hforce.2 rfl
    · have hkept : update s.marked peer until_ p = s.marked p := update_of_ne (Ne.symm hp) ..
      refine ⟨g, put_keeps (gateFor_keeps hg hp (hmark ▸ hpos)) hp, hmark.trans hkept.symm, ?_, hlater⟩
      simp only [hkept]
      exact hpos

theorem TakesHold.registered (h : TakesHold cfg gates p) : (gateFor cfg gates p 0).2.2 = true := by
  obtain ⟨g, -, heq⟩ | ⟨hnone, kept, -, ⟨-, heq⟩ | ⟨hkept, hfull, -⟩⟩ := gateFor_cases cfg gates p 0
  · rw [heq]
  · rw [heq]
  · obtain hsome | hroom := h
    · rw [hnone] at hsome
      cases hsome
    · exact absurd (hkept ▸ hfull) (Nat.not_le_of_lt hroom)

theorem Held.mark (hsound : Sound cfg s.gates s.now) (hmark : 0 < until_) (hholds : TakesHold cfg s.gates p)
    (hstep : PeerCongestionTable.step cfg s (.mark p until_ now) = some s') : Held cfg p now (s'.admitted p) s' := by
  unfold PeerCongestionTable.step at hstep
  split_ifs at hstep with hnow
  cases hstep
  obtain ⟨-, hok, -⟩ := (hsound.later hnow).gateFor p 0
  have hnewest : update s.marked p until_ p = until_ := update_self ..
  refine ⟨(gateFor cfg s.gates p 0).2.1.markCongested until_, ?_, hnewest.symm, ?_, ?_⟩
  · simp only [PeerCongestionTable.markCongested, hholds.registered, if_true, lookup_insert]
  · simp only [hnewest]
    exact hmark
  · rw [sub_self, Int.sub_self, Int.cast_zero, zero_div, zero_mul, zero_add, add_zero]
    exact hok.worth_le

/-- In every sequence of calls the table stays within its size; and from a mark that takes hold on, as long as
it or a later one of the peer is in force, the peer keeps its gate with the last mark, and the sends to it
that are admitted cost no more than a full bucket and what it gains meanwhile, up to the epsilon of the
comparison. -/
theorem marks_hold (cfg : CongestionConfig) (start : Int)
    (hs : Machine.Reachable (step cfg) { now := start } s) :
    Table.size s.gates ≤ cfg.maxGates ∧
    ∀ p until_ now s₁, step cfg s (.mark p until_ now) = some s₁ → 0 < until_ → TakesHold cfg s.gates p →
      ∀ s', Machine.Reach (step cfg) (InForce p) s₁ s' →
        (∃ g, s'.gates.lookup p = some g ∧ g.congestedUntil = s'.marked p) ∧
        (s'.admitted p - s₁.admitted p : ℚ) ≤
          cfg.capacity + ((s'.now - now : Int) : ℚ) / nanos * cfg.refillPerSec + TokenBucket.kEps := by
  have hsound : Sound cfg s.gates s.now := hs.invariant (I := fun s => Sound cfg s.gates s.now)
    ⟨Nat.zero_le _, fun _ _ hg => by rw [lookup_empty] at hg; cases hg⟩ fun _ _ _ h hstep => h.step hstep
  refine ⟨hsound.size, fun p until_ now s₁ hstep hmark hholds s' hs' => ?_⟩
  have hheld : Sound cfg s'.gates s'.now ∧ Held cfg p now (s₁.admitted p) s' := by
    refine hs'.invariant (I := fun s => Sound cfg s.gates s.now ∧ Held cfg p now (s₁.admitted p) s)
      ⟨hsound.step hstep, Held.mark hsound hmark hholds hstep⟩ fun s call s' h hforce hstep => ?_
    exact ⟨h.1.step hstep, h.2.step h.1 hforce hstep⟩
  obtain ⟨hsound', g, hg, hlast, -, hpaid⟩ := hheld
  have hleast := (hsound'.bucket p g hg).worth_least cfg.capacity_nonneg cfg.refill_nonneg
  exact ⟨⟨g, hg, hlast⟩, by linarith⟩

def oneGate : CongestionConfig := { capacity := 1, refillPerSec := 0, maxGates := 1 }

/-- Peer 1 is marked in an empty table, and a send to it takes the token. -/
def oneMarked : Traffic where
  gates := (markCongested oneGate ∅ 1 100)
  now := 0
  marked := update (fun _ => 0) 1 100

def oneSent : Traffic where
  gates := (admit_ oneGate oneMarked.gates 1 5 1).1
  now := 5
  marked := oneMarked.marked
  admitted := update (fun _ => 0) 1 (if (admit_ oneGate oneMarked.gates 1 5 1).2 then 1 else 0)

theorem marks_hold_one :
    (oneSent.admitted 1 - oneMarked.admitted 1 : ℚ) ≤ 1 + ((5 - 0 : Int) : ℚ) / nanos * 0 + TokenBucket.kEps := by
  have hstep : step oneGate { now := 0 } (.mark 1 100 0) = some oneMarked := rfl
  have hsend : step oneGate oneMarked (.admit_ 1 5 1) = some oneSent := by
    simp [step, oneSent, oneMarked, Call.time]
  have hholds : TakesHold oneGate ∅ 1 := .inr (by decide)
  have hforce : InForce 1 oneMarked (.admit_ 1 5 1) := show (5 : Int) < oneMarked.marked 1 by decide
  exact ((marks_hold oneGate 0 .start).2 1 100 0 oneMarked hstep (by decide) hholds oneSent
    (.step .start hforce hsend)).2

/-- A mark that finds the table full of marks in force is dropped, and the peer gets more than its bucket. -/
theorem mark_dropped_when_full :
    (Machine.run (step oneGate) { now := 0 } [.mark 1 100 0, .mark 2 100 0, .admit_ 2 0 1, .admit_ 2 0 1]).map
      (fun s => (s.marked 2, s.admitted 2)) = some (100, 2) := by
  decide

end PeerCongestionTable

end Quark
