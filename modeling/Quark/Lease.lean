import Quark.Lib.DriftClock
import Quark.Lib.Machine
import Quark.Persistence
import Mathlib.Algebra.Order.Field.Basic
import Mathlib.Logic.Function.Basic

/-! `lease.hpp`: the arbiter of one key, its candidates, and a network between them. Words are natural numbers: the
runs are those without overflow. -/
namespace Quark.Lease

abbrev Ticks := Nat
abbrev Peer := UInt32

structure Config where
  duration : Ticks := 100
  driftPpmBound : Nat := 50000
  retry : Ticks := 20
  renewBefore : Ticks := 40
  deriving DecidableEq, Repr

def Config.margin (cfg : Config) : Ticks := cfg.duration * 2 * cfg.driftPpmBound / 1000000 + 2

structure Request where
  from_ : Peer
  id : Nat
  deriving DecidableEq, Repr

structure Reply where
  to_ : Peer
  id : Nat
  granted : Bool
  term : FenceToken
  deriving DecidableEq, Repr

structure LeaseArbiter where
  holder : Option Peer := none
  term : FenceToken := ⟨0⟩
  expiry : Ticks := 0
  quietUntil : Ticks := 0
  deriving DecidableEq, Repr

namespace LeaseArbiter

def deny (rq : Request) : Reply := { to_ := rq.from_, id := rq.id, granted := false, term := ⟨0⟩ }

def grant (rq : Request) (term : FenceToken) : Reply := { to_ := rq.from_, id := rq.id, granted := true, term }

/-- It always replies. A store that is not `available` fails to acquire. -/
def onRequest (cfg : Config) (key : ActorId) (available : Bool) (ar : LeaseArbiter) (store : InMemoryStore)
    (now : Ticks) (rq : Request) : Reply × LeaseArbiter × InMemoryStore :=
  if now < ar.quietUntil then (deny rq, ar, store)
  else if ar.holder = some rq.from_ then
    (grant rq ar.term, { ar with expiry := now + cfg.duration }, store)
  else if ar.holder.isSome ∧ now < ar.expiry then (deny rq, ar, store)
  else if available then
    match store.acquireFence key with
    | (.error _, store) => (deny rq, ar, store)
    | (.ok tok, store) =>
      (grant rq tok, { ar with holder := some rq.from_, term := tok, expiry := now + cfg.duration }, store)
  else (deny rq, ar, store)

def restart (cfg : Config) (ar : LeaseArbiter) (now : Ticks) : LeaseArbiter :=
  { ar with holder := none, quietUntil := now + cfg.duration }

end LeaseArbiter

structure LeaseHolder where
  token : FenceToken := ⟨0⟩
  validUntil : Ticks := 0
  outstanding : Bool := false
  nextId : Nat := 0
  curId : Nat := 0
  sentAt : Ticks := 0
  notBefore : Ticks := 0
  deriving DecidableEq, Repr

namespace LeaseHolder

def believesLeader (h : LeaseHolder) (now : Ticks) : Bool := !isUnfenced h.token && decide (now < h.validUntil)

def tick (cfg : Config) (self : Peer) (h : LeaseHolder) (now : Ticks) : Option Request × LeaseHolder :=
  let valid := h.believesLeader now
  let need := !valid || decide (h.validUntil - now ≤ cfg.renewBefore)
  if !need then (none, h)
  else if h.outstanding && decide (now - h.sentAt < cfg.retry) then (none, h)
  else if now < h.notBefore then (none, h)
  else
    (some { from_ := self, id := h.nextId + 1 },
      { h with outstanding := true, nextId := h.nextId + 1, curId := h.nextId + 1, sentAt := now })

def onReply (cfg : Config) (h : LeaseHolder) (now : Ticks) (r : Reply) : LeaseHolder :=
  if !h.outstanding || r.id != h.curId then h
  else
    let h := { h with outstanding := false }
    if !r.granted then h
    else if r.term.value < h.token.value then h
    else
      let until_ := h.sentAt + cfg.duration - cfg.margin
      if until_ ≤ now then h else { h with token := r.term, validUntil := until_ }

def backoffUntil (h : LeaseHolder) (t : Ticks) : LeaseHolder := { h with notBefore := t }

end LeaseHolder

section

variable (K : Type) [Field K] [LinearOrder K]

def Config.drift (cfg : Config) : K := cfg.driftPpmBound / 1000000

structure Clocks (cfg : Config) where
  arbiter : DriftClock K (cfg.drift K)
  holder : Peer → DriftClock K (cfg.drift K)

/-- One arbiter, its holders, and every message that was ever sent, each with the real instant at which it was: what
is delivered is one of them, at any later time, any number of times, or never. -/
structure Net where
  now : K
  store : InMemoryStore
  arbiter : LeaseArbiter
  holder : Peer → LeaseHolder
  requests : List (Request × K)
  replies : List (Reply × K)

inductive NetLabel
  | tick (t : K) (i : Peer)
  | onRequest (t : K) (rq : Request) (available : Bool)
  | onReply (t : K) (r : Reply)
  | restart (t : K)
  | backoffUntil (t : K) (i : Peer) (ticks : Ticks)
  | fence (t : K)

end

namespace Net

variable {K : Type}

def setHolder (s : Net K) (i : Peer) (h : LeaseHolder) : Net K := { s with holder := Function.update s.holder i h }

@[simp] theorem holder_setHolder {s : Net K} {i : Peer} {h : LeaseHolder} : (s.setHolder i h).holder i = h :=
  Function.update_self _ _ _

@[simp] theorem holder_setHolder_ne {s : Net K} {i j : Peer} {h : LeaseHolder} (hne : j ≠ i) :
    (s.setHolder i h).holder j = s.holder j := Function.update_of_ne hne _ _

variable [Field K] [LinearOrder K] [FloorSemiring K]

def start (store : InMemoryStore) : Net K :=
  { now := 0, store, arbiter := {}, holder := fun _ => {}, requests := [], replies := [] }

def step {cfg : Config} (clocks : Clocks K cfg) (key : ActorId) (s : Net K) : NetLabel K → Option (Net K)
  | .tick t i =>
    if s.now ≤ t then
      let r := (s.holder i).tick cfg i ((clocks.holder i).ticks t)
      some ({ s with now := t, requests := s.requests ++ r.1.toList.map fun rq => (rq, t) }.setHolder i r.2)
    else none
  | .onRequest t rq available =>
    if s.now ≤ t ∧ rq ∈ s.requests.map Prod.fst then
      let r := s.arbiter.onRequest cfg key available s.store (clocks.arbiter.ticks t) rq
      some { s with now := t, arbiter := r.2.1, store := r.2.2, replies := s.replies ++ [(r.1, t)] }
    else none
  | .onReply t r =>
    if s.now ≤ t ∧ r ∈ s.replies.map Prod.fst then
      some ({ s with now := t }.setHolder r.to_ ((s.holder r.to_).onReply cfg ((clocks.holder r.to_).ticks t) r))
    else none
  | .restart t =>
    if s.now ≤ t then
      some { s with now := t, arbiter := s.arbiter.restart cfg (clocks.arbiter.ticks t) }
    else none
  | .backoffUntil t i ticks =>
    if s.now ≤ t then some ({ s with now := t }.setHolder i ((s.holder i).backoffUntil ticks)) else none
  | .fence t => if s.now ≤ t then some { s with now := t, store := (s.store.acquireFence key).2 } else none

end Net

end Quark.Lease
