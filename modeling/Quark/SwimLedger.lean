import Mathlib.Data.FinEnum
import Mathlib.Logic.Relation
import Quark.SwimNode

/-! The books that a `SwimMembership` keeps beside its members (the counters, the leases, the sorted ids) and the
few edits that any of its functions makes to them. -/
namespace Quark.Swim

/-- What of a member the books depend on. -/
structure Record where
  status : MemberStatus := .alive
  verified : Bool := false
  incarnation : UInt64 := 0
  tx : UInt8 := 0
  lapsed : UInt64 := 0

namespace Record

def tomb (r : Record) : Bool := r.status.isTomb

def sending (r : Record) : Bool := r.tx != 0

end Record

def Member.record (m : Member) : Record := ⟨m.status, m.verified, m.incarnation, m.txLeft, m.leaseExpiredInc⟩

structure Ledger where
  me : NodeId
  incarnation : UInt64
  left : Bool
  entry : NodeId → Option Record
  lease : NodeId → Option Lease
  txPending : UInt32
  tombCount : UInt32
  ids : List NodeId
  dirty : Bool
  cursor : UInt64

namespace Ledger

variable (l : Ledger)

def set (id : NodeId) (r : Option Record) : Ledger := { l with entry := Function.update l.entry id r }

def setLease (id : NodeId) (h : Option Lease) : Ledger := { l with lease := Function.update l.lease id h }

def mine : Record := (l.entry l.me).getD {}

def own (inc : UInt64) (st : MemberStatus) : Ledger :=
  { l.set l.me (some { l.mine with incarnation := inc, status := st }) with incarnation := inc }

def alter (id : NodeId) (cur r : Record) : Ledger :=
  { l.set id (some r) with
    txPending := SwimMembership.txPendingAfter l.txPending cur.tx r.tx
    tombCount := if !cur.tomb && r.tomb then l.tombCount + 1 else if cur.tomb && !r.tomb then l.tombCount - 1
      else l.tombCount }

def create (id : NodeId) (r : Record) : Ledger :=
  { l.set id (some r) with
    txPending := SwimMembership.txPendingAfter l.txPending 0 r.tx
    tombCount := if r.tomb then l.tombCount + 1 else l.tombCount
    dirty := true }

def evict (id : NodeId) (cur : Record) : Ledger :=
  { l.set id none with
    txPending := if cur.tx ≠ 0 then l.txPending - 1 else l.txPending
    tombCount := l.tombCount - 1
    dirty := true }

/-- An unverified entry is erased; the counters are not told. -/
def drop (id : NodeId) : Ledger := { l.set id none with dirty := true }

def Listed (ids : List NodeId) : Prop :=
  ids.Pairwise (· < ·) ∧ ∀ id, id ∈ ids ↔ (l.entry id).any fun r => !r.tomb && (r.verified || id == l.me)

end Ledger

def SwimMembership.ledger (s : SwimMembership) : Ledger where
  me := s.self_
  incarnation := s.selfIncarnation
  left := s.selfLeft
  entry id := (s.members.lookup id).map Member.record
  lease id := s.leases.lookup id
  txPending := s.txPending
  tombCount := s.tombCount
  ids := s.sortedIds
  dirty := s.idsDirty
  cursor := s.digestCursor

/-- The edits that only some tasks make. -/
inductive Act
  | refute (inc : UInt64)
  | adopt (inc : UInt64)
  | rejoin (inc : UInt64)
  | depart (inc : UInt64)
  | bury
  /-- the probe of a member failed, or its lease lapsed -/
  | doubt (id : NodeId)
  /-- an unverified entry with `tx` frames left is erased -/
  | drop (tx : UInt8)
  /-- a member whose entry is at `inc` is granted a lease -/
  | lease (id : NodeId) (inc : UInt64) (held : Lease)
  | expire (now : Int)
  | lapse (id : NodeId)
  | send

variable {cfg : Config} {may may' : Act → Prop} {l l' l'' : Ledger}

/-- One edit; `may` says which acts are allowed. -/
inductive Edit (cfg : Config) (may : Act → Prop) : Ledger → Ledger → Prop
  | refute {l : Ledger} {inc : UInt64} (hmay : may (.refute inc)) (hhere : l.left = false)
      (hle : l.incarnation ≤ inc) :
      Edit cfg may l (l.own (inc + 1) .alive)
  | adopt {l : Ledger} {inc : UInt64} (hmay : may (.adopt inc)) (hhere : l.left = false) (hlt : l.incarnation < inc) :
      Edit cfg may l (l.own inc l.mine.status)
  | rejoin {l : Ledger} (hmay : may (.rejoin l.incarnation)) :
      Edit cfg may l (l.own (l.incarnation + 1) l.mine.status)
  | depart {l : Ledger} {inc : UInt64} (hinc : inc = l.mine.incarnation + kLeftBand)
      (hmay : may (.depart l.mine.incarnation)) : Edit cfg may l { l.own inc .left with left := true }
  | alter {l : Ledger} {id : NodeId} {cur r : Record} (hother : id ≠ l.me) (hcur : l.entry id = some cur)
      (hverified : cur.verified = true → r.verified = true) (hinc : cur.incarnation ≤ r.incarnation)
      (hlapsed : r.lapsed = cur.lapsed) (htomb : r.tomb = true → cur.tomb = true ∨ may .bury)
      (hfree : cfg.testFaults = {} → r.status = .alive ∨ cur.status ≠ .alive ∨ l.lease id = none ∨ may (.doubt id)) :
      Edit cfg may l (l.alter id cur r)
  | evict {l : Ledger} {id : NodeId} {cur : Record} (hother : id ≠ l.me) (hcur : l.entry id = some cur)
      (htomb : cur.tomb = true) : Edit cfg may l (l.evict id cur)
  | drop {l : Ledger} {id : NodeId} {cur : Record} (hother : id ≠ l.me) (hcur : l.entry id = some cur)
      (hsilent : cur.verified = false) (hlive : cur.tomb = false) (hmay : may (.drop cur.tx)) :
      Edit cfg may l (l.drop id)
  | spend {l : Ledger} {id : NodeId} {cur : Record} {tx : UInt8} (hcur : l.entry id = some cur) (hmay : may .send) :
      Edit cfg may l (l.alter id cur { cur with tx })
  | refresh {l : Ledger} {ids : List NodeId} (hlisted : l.Listed ids) (hmay : may .send) :
      Edit cfg may l { l with ids, dirty := false }
  | turn {l : Ledger} {cursor : UInt64} (hmay : may .send) : Edit cfg may l { l with cursor }
  | lease {l : Ledger} {id : NodeId} {cur : Record} {held : Lease} (hother : id ≠ l.me)
      (hcur : l.entry id = some cur) (hstatus : cur.status = .alive) (hverified : cur.verified = true)
      (hroom : l.lease id ≠ none ∨
      Census.census (fun h : Option Lease => h.isSome = true) l.lease < cfg.mobile.maxSuspended)
      (hlapsed : cur.lapsed = 0 ∨ cur.lapsed < held.incarnation) (hmay : may (.lease id cur.incarnation held)) :
      Edit cfg may l (l.setLease id (some held))
  | free {l : Ledger} {id : NodeId} : Edit cfg may l (l.setLease id none)
  | expire {l : Ledger} {now : Int} (hmay : may (.expire now)) :
      Edit cfg may l { l with lease := fun id => (l.lease id).filter fun h => !decide (h.until_ ≤ now) }
  | lapse {l : Ledger} {id : NodeId} {cur : Record} (hcur : l.entry id = some cur) (hlive : cur.tomb = false)
      (hmay : may (.lapse id)) :
      Edit cfg may l (l.alter id cur { cur with lapsed := cur.incarnation })

abbrev Edits (cfg : Config) (may : Act → Prop) : Ledger → Ledger → Prop := Relation.ReflTransGen (Edit cfg may)

/-- A task creates at most one entry, and first of all. -/
inductive Begin (may : Act → Prop) (l : Ledger) : Ledger → Prop
  | same : Begin may l l
  | create {id : NodeId} {r : Record} (hother : id ≠ l.me) (hnew : l.entry id = none) (hstatus : r.status ≠ .suspect)
      (hlapsed : r.lapsed = 0) (htomb : r.tomb = true → may .bury) : Begin may l (l.create id r)

def Effect (cfg : Config) (may : Act → Prop) (l l' : Ledger) : Prop :=
  ∃ l₁, Begin may l l₁ ∧ Edits cfg may l₁ l'

/-- Where a task buries members, it ends with the cap on tombstones. -/
inductive Capped (cfg : Config) (R : (Act → Prop) → Ledger → Ledger →
    Prop) (may : Act → Prop) (s s' : SwimMembership) : Prop
  | plain (h : R (fun a => may a ∧ a ≠ .bury) s.ledger s'.ledger)
  | capped {s₁ : SwimMembership} (h : R may s.ledger s₁.ledger) (hcap : s'.ledger = (s₁.enforceTombCap cfg).ledger)

theorem Edit.mono (h : Edit cfg may l l') (hmay : ∀ a, may a → may' a) : Edit cfg may' l l' := by
  cases h with
  | refute h hhere hle => exact .refute (hmay _ h) hhere hle
  | adopt h hhere hlt => exact .adopt (hmay _ h) hhere hlt
  | rejoin h => exact .rejoin (hmay _ h)
  | depart hinc h => exact .depart hinc (hmay _ h)
  | alter hother hcur hverified hinc hlapsed htomb hfree =>
    exact .alter hother hcur hverified hinc hlapsed (fun ht => (htomb ht).imp_right (hmay _))
      fun hc => (hfree hc).imp_right (Or.imp_right (Or.imp_right (hmay _)))
  | evict hother hcur htomb => exact .evict hother hcur htomb
  | drop hother hcur hsilent hlive h => exact .drop hother hcur hsilent hlive (hmay _ h)
  | spend hcur h => exact .spend hcur (hmay _ h)
  | refresh hlisted h => exact .refresh hlisted (hmay _ h)
  | turn h => exact .turn (hmay _ h)
  | lease hother hcur hstatus hverified hroom hlapsed h =>
    exact .lease hother hcur hstatus hverified hroom hlapsed (hmay _ h)
  | free => exact .free
  | expire h => exact .expire (hmay _ h)
  | lapse hcur hlive h => exact .lapse hcur hlive (hmay _ h)

theorem Edits.mono (h : Edits cfg may l l') (hmay : ∀ a, may a → may' a) : Edits cfg may' l l' :=
  Relation.ReflTransGen.mono (fun _ _ he => Edit.mono he hmay) _ _ h

theorem Effect.mono (h : Effect cfg may l l') (hmay : ∀ a, may a → may' a) : Effect cfg may' l l' := by
  obtain ⟨l₁, hbegin, hedits⟩ := h
  refine ⟨l₁, ?_, hedits.mono hmay⟩
  cases hbegin with
  | same => exact .same
  | create hother hnew hstatus hlapsed htomb => exact .create hother hnew hstatus hlapsed fun ht => hmay _ (htomb ht)

theorem Effect.edits (h : Edits cfg may l l') : Effect cfg may l l' := ⟨l, .same, h⟩

theorem Effect.then_ (h : Effect cfg may l l') (h' : Edits cfg may l' l'') : Effect cfg may l l'' := by
  obtain ⟨l₁, hbegin, hedits⟩ := h
  exact ⟨l₁, hbegin, hedits.trans h'⟩

end Quark.Swim
