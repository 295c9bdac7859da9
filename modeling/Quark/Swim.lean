import Mathlib.Data.List.Sort
import Quark.Lib.Table

/-! `SwimMembership` of `cluster.hpp` and `SuspendLeases` of `mobile_lease.hpp`: the tables of one node and what
each of its functions does to them. Times are unbounded, incarnations wrap. -/
namespace Quark.Swim

abbrev NodeId := UInt64

def kClientNodeBit : UInt64 := 0x8000000000000000

def isClientNode (n : NodeId) : Bool := n &&& kClientNodeBit != 0

def splitmix64 (x : UInt64) : UInt64 :=
  let x := x + 0x9E3779B97F4A7C15
  let x := (x ^^^ (x >>> 30)) * 0xBF58476D1CE4E5B9
  let x := (x ^^^ (x >>> 27)) * 0x94D049BB133111EB
  x ^^^ (x >>> 31)

def mix (a b c : UInt64) : UInt64 := splitmix64 (splitmix64 (a ^^^ (b + 0x9E3779B97F4A7C15)) ^^^ c)

inductive MemberStatus
  | alive | suspect | dead | left
  deriving DecidableEq, Repr

namespace MemberStatus

def code : MemberStatus → UInt8
  | alive => 0
  | suspect => 1
  | dead => 2
  | left => 3

def ofCode (b : UInt8) : Option MemberStatus :=
  if b = 0 then some alive else if b = 1 then some suspect else if b = 2 then some dead
  else if b = 3 then some left else none

def isTomb (st : MemberStatus) : Bool := st == dead || st == left

end MemberStatus

inductive RefusalReason
  | none | clusterMismatch | wireVersionTooOld | wireVersionTooNew
  deriving DecidableEq, Repr

def RefusalReason.code : RefusalReason → UInt64
  | none => 0
  | clusterMismatch => 1
  | wireVersionTooOld => 2
  | wireVersionTooNew => 3

inductive EventKind
  | joined | suspect | recovered | dead | left | versionRefused | evicted | suspended | resumed
  deriving DecidableEq, Repr

structure Event where
  kind : EventKind
  node : NodeId
  incarnation : UInt64 := 0
  epoch : UInt64 := 0
  protocolVersion : UInt8 := 0
  refusal : RefusalReason := .none
  refusedByPeer : Bool := false
  deriving DecidableEq, Repr

inductive ControlKind
  | ping | ack | pingReq | pingReqAck | gossip | join | joinAck | joinReject | congested | suspend
  | other (code : UInt8)
  deriving DecidableEq, Repr

structure MemberUpdate where
  node : NodeId
  incarnation : UInt64
  status : UInt8
  deriving DecidableEq, Repr

structure CapabilityDigestEntry where
  node : NodeId
  incarnation : UInt64 := 0
  localSeq : UInt32 := 0
  blob : List UInt8 := []
  deriving DecidableEq, Repr

structure MailboxPressureEntry where
  node : NodeId
  incarnation : UInt64 := 0
  residentTotal : UInt64 := 0
  deriving DecidableEq, Repr

structure ControlMsg where
  kind : ControlKind
  cluster : UInt64 := 0
  from_ : NodeId := 0
  fromIncarnation : UInt64 := 0
  subject : NodeId := 0
  subjectIncarnation : UInt64 := 0
  seq : UInt64 := 0
  updates : List MemberUpdate := []
  revocations : List (List UInt8) := []
  signedRevocations : List (List UInt8) := []
  capabilities : List CapabilityDigestEntry := []
  pressure : List MailboxPressureEntry := []
  congestionRemaining : Int := 0
  wireVersion : UInt8 := 1
  deriving DecidableEq, Repr

/-- A frame as the transport hands it over; `payload` is what `decode_control` makes of its bytes. -/
structure MessageFrame where
  from_ : NodeId
  to_ : NodeId
  control : Bool
  payload : Option ControlMsg
  deriving DecidableEq, Repr

inductive AdmissionVerdict
  | deny | admit_ | logExchangeOnly
  deriving DecidableEq, Repr

structure AdmissionSnapshot where
  generation : UInt64
  lookup : NodeId → AdmissionVerdict

/-- The receiver's policy for announced suspensions. -/
structure MobileProfile where
  maxLease : Int := 900000000000
  maxSuspended : Nat := 64
  defaultLease : Int := 600000000000
  deriving DecidableEq, Repr

structure TestFaults where
  incarnationGatedSuppression : Bool := false
  keepLeaseOnTombstone : Bool := false
  joinKeepsLease : Bool := false
  deferEvictionWhileSuspended : Bool := false
  deriving DecidableEq, Repr

structure Config where
  clusterId : UInt64 := 0
  ackTimeout : Int := 200000000
  suspicionTimeout : Int := 1000000000
  indirectK : Nat := 2
  gossipFanout : Nat := 3
  maxGossipUpdates : Nat := 32
  seed : UInt64 := 0
  relaySecret : UInt64 := 0
  congestionHighWatermark : UInt64 := 10000
  congestionLowWatermark : UInt64 := 5000
  congestionWindow : Int := 2000000000
  congestionRefresh : Int := 500000000
  indirectTimeout : Int := 0
  tombstoneTtl : Int := 60000000000
  maxTombstones : UInt32 := 256
  maxLiveMembers : Nat := 4096
  tombstoneProbeInterval : Int := 500000000
  tombstoneProbeBudget : Nat := 2
  verifyPingBudget : Nat := 16
  controlRatePerSec : Nat := 4096
  controlBurst : Nat := 1024
  unverifiedTtl : Int := 30000000000
  wireVersion : UInt8 := 2
  authorityOnlyRevocation : Bool := false
  mobile : MobileProfile := {}
  testFaults : TestFaults := {}
  deriving DecidableEq, Repr

namespace Config

def sanitize (c : Config) : Config :=
  { c with
    ackTimeout := if c.ackTimeout ≤ 0 then 1 else c.ackTimeout
    indirectTimeout := if c.indirectTimeout < 0 then 0 else c.indirectTimeout
    maxLiveMembers := if c.maxLiveMembers = 0 then 4096 else c.maxLiveMembers
    controlBurst := if c.controlBurst = 0 then 1 else c.controlBurst
    unverifiedTtl := if c.unverifiedTtl < 0 then 0 else c.unverifiedTtl }

def indirectNs (cfg : Config) : Int :=
  max 1 (if cfg.indirectTimeout ≠ 0 then cfg.indirectTimeout else cfg.ackTimeout)

def bucket (cfg : Config) (now : Int) : Int := now.tdiv cfg.indirectNs

def wireVerdict (cfg : Config) (peer : UInt8) : RefusalReason :=
  if peer.toNat + 1 < cfg.wireVersion.toNat then .wireVersionTooOld
  else if cfg.wireVersion.toNat + 1 < peer.toNat then .wireVersionTooNew
  else .none

end Config

/-- Where an update comes from. -/
inductive Src
  | here | gossip | direct | join | joinSnapshot
  deriving DecidableEq, Repr

/-- A source that vouches for the node itself. -/
def Src.firstHand (src : Src) (st : MemberStatus) : Bool :=
  src == .direct || src == .join || (src == .here && st == .alive)

def kLeftBand : UInt64 := 0x100000000

def kNever : Int := -9223372036854775808

structure Member where
  incarnation : UInt64 := 0
  suspectDeadline : Int := 0
  death : Int := 0
  lastDirect : Int := kNever
  lastProbe : Int := kNever
  status : MemberStatus := .alive
  txLeft : UInt8 := 0
  verifyPending : Bool := false
  verified : Bool := false
  firstSeen : Int := 0
  wireVersion : UInt8 := 0
  /-- what subscribers were told last: 0 nothing, 1 live, 2 Dead, 3 Left -/
  reported : UInt8 := 0
  leaseExpiredInc : UInt64 := 0
  deriving DecidableEq, Repr

abbrev Entry := Sigma fun _ : NodeId => Member

inductive ProbePhase
  | direct | indirect
  deriving DecidableEq, Repr

structure Probe where
  active : Bool := false
  phase : ProbePhase := .direct
  target : NodeId := 0
  deadline : Int := 0
  seq : UInt64 := 0
  acked : Bool := false
  deriving DecidableEq, Repr

inductive SuspendReason
  | appBackground | doze | networkLost | other
  deriving DecidableEq, Repr

def SuspendReason.code : SuspendReason → UInt64
  | appBackground => 1
  | doze => 2
  | networkLost => 3
  | other => 4

/-- An entry of `SuspendLeases`; the reason is the announced byte, at most `Other`. -/
structure Lease where
  until_ : Int
  incarnation : UInt64
  reason : UInt64
  deriving DecidableEq, Repr

/-- `detail::RateBucket`. -/
structure RateBucket where
  last : Int := 0
  tokens : Nat := 0
  deriving DecidableEq, Repr

namespace RateBucket

def refill (b : RateBucket) (now : Int) (rate burst : Nat) : RateBucket :=
  if b.last = 0 then { last := now, tokens := burst }
  else if b.last < now then
    if 1000000000 ≤ now - b.last then { last := now, tokens := burst }
    else
      let add := (now - b.last).toNat * rate / 1000000000
      if 0 < add then
        { last := if burst < b.tokens + add then now else b.last + (add * 1000000000 / rate : Nat)
          tokens := min burst (b.tokens + add) }
      else b
  else b

def admit_ (b : RateBucket) (now : Int) (rate burst : Nat) : Bool × RateBucket :=
  let b := b.refill now rate burst
  if b.tokens = 0 then (false, b) else (true, { b with tokens := b.tokens - 1 })

end RateBucket

structure Refusal where
  reason : RefusalReason := .none
  version : UInt8 := 0
  deriving DecidableEq, Repr

structure ExtRefusal where
  node : NodeId
  version : UInt8 := 0
  reason : RefusalReason := .none
  deriving DecidableEq, Repr

structure SwimMembership where
  self_ : NodeId
  selfIncarnation : UInt64 := 1
  members : Table NodeId Member := ∅
  probe : Probe := {}
  probeSeq : UInt64 := 0
  /-- `probe_order_` from `probe_order_idx_` on -/
  probeOrder : List NodeId := []
  probeRound : UInt64 := 0
  relayKey : UInt64 := 0
  digestCursor : UInt64 := 0
  sortedIds : List NodeId := []
  idsDirty : Bool := true
  tombCount : UInt32 := 0
  txPending : UInt32 := 0
  selfLeft : Bool := false
  online : Bool := true
  leases : Table NodeId Lease := ∅
  suspendedSelf : Bool := false
  congestedEdge : Bool := false
  nextCongestionRefresh : Int := 0
  snapshot : List NodeId := []
  verifiedSnapshot : List NodeId := []
  epoch : UInt64 := 0
  budgets : UInt64 → RateBucket := fun _ => {}
  sinks : Nat := 0
  pending : List Event := []
  flushing : Bool := false
  evicting : Bool := false
  refusals : Table NodeId Refusal := ∅
  extRefusals : List ExtRefusal := []
  ctxFrom : NodeId := 0
  ctxVersion : UInt8 := 0
  admission : Option AdmissionSnapshot := none
  admissionDirty : Bool := false

namespace SwimMembership

variable (cfg : Config) (s : SwimMembership)

def view : List NodeId := s.snapshot

def placementView : List NodeId := s.verifiedSnapshot

def put (id : NodeId) (m : Member) : SwimMembership := { s with members := s.members.insert id m }

def incarnationOf (n : NodeId) : UInt64 := ((s.members.lookup n).map Member.incarnation).getD 0

def piggybackCount : UInt8 :=
  let n := s.members.size
  UInt8.ofNat (min (3 * if n = 0 then 0 else n.log2 + 1) 255)

/-- `set_tx` of an entry with `old` frames left: how many entries are still to be sent. -/
def txPendingAfter (n : UInt32) (old v : UInt8) : UInt32 :=
  if old = 0 ∧ v ≠ 0 then n + 1 else if old ≠ 0 ∧ v = 0 then n - 1 else n

def sortIds (ids : List NodeId) : List NodeId := ids.insertionSort (· ≤ ·)

def live : List Entry := s.members.entries.filter fun e => !e.2.status.isTomb

def republish : SwimMembership :=
  { s with
    snapshot := sortIds (s.live.map Sigma.fst)
    verifiedSnapshot := sortIds ((s.live.filter fun e => e.2.verified || e.1 == s.self_).map Sigma.fst)
    epoch := s.epoch + 1 }

def pushEvent (kind : EventKind) (node : NodeId) (m : Member) : SwimMembership :=
  if s.sinks = 0 then s
  else { s with pending := s.pending ++
    [{ kind, node, incarnation := m.incarnation, epoch := s.epoch, protocolVersion := m.wireVersion }] }

/-- `m` is the entry of `node`, as it is after the transition. -/
def noteTransition (node : NodeId) (m : Member) (prev : MemberStatus) : SwimMembership :=
  if m.status.isTomb then
    let s := if cfg.testFaults.keepLeaseOnTombstone then s else { s with leases := s.leases.erase node }
    if m.reported ≠ 0 ∧ m.reported ≠ m.status.code then
      (s.put node { m with reported := m.status.code }).pushEvent
        (if m.status = .left then .left else if s.evicting then .evicted else .dead) node m
    else s
  else if m.verified = false ∧ node ≠ s.self_ then s
  else if m.reported ≠ 1 then (s.put node { m with reported := 1 }).pushEvent .joined node m
  else if m.status = .suspect ∧ prev ≠ .suspect then s.pushEvent .suspect node m
  else if m.status = .alive ∧ prev = .suspect then s.pushEvent .recovered node m
  else s

def goesBefore (a b : Entry) : Bool :=
  if (a.2.status == .dead) != (b.2.status == .dead) then a.2.status == .dead
  else decide (a.2.death < b.2.death) || (decide (a.2.death = b.2.death) && decide (a.1 < b.1))

def capVictim : Option Entry :=
  s.members.entries.foldl (fun victim e =>
    if e.1 == s.self_ || !e.2.status.isTomb then victim
    else match victim with
      | none => some e
      | some v => if goesBefore e v then some e else victim) none

def enforceTombCapFrom : Nat → SwimMembership → SwimMembership
  | 0, s => s
  | n + 1, s =>
    if cfg.maxTombstones < s.tombCount then
      match s.capVictim with
      | none => s
      | some v => enforceTombCapFrom n
          { s with
            txPending := if v.2.txLeft ≠ 0 then s.txPending - 1 else s.txPending
            members := s.members.erase v.1
            tombCount := s.tombCount - 1
            idsDirty := true }
    else s

def enforceTombCap : SwimMembership := enforceTombCapFrom cfg s.members.size s

def newMember (node : NodeId) (inc : UInt64) (st : MemberStatus) (src : Src) (now : Int) : Member :=
  { incarnation := inc
    status := st
    verified := src.firstHand st
    firstSeen := now
    txLeft := if src.firstHand st then s.piggybackCount else 0
    death := if st.isTomb then now else 0
    lastProbe := if st.isTomb then now else kNever
    wireVersion := if node = s.ctxFrom then s.ctxVersion else 0 }

def createMember (node : NodeId) (inc : UInt64) (st : MemberStatus) (src : Src) (now : Int) : SwimMembership :=
  if st.isTomb ∧ src ≠ .here then s
  else if st = .suspect then s
  else if src.firstHand st = false ∧ cfg.maxLiveMembers ≤ s.members.size then s
  else
    let m := s.newMember node inc st src now
    let s := { s.put node m with
      txPending := txPendingAfter s.txPending 0 m.txLeft
      tombCount := if st.isTomb then s.tombCount + 1 else s.tombCount
      idsDirty := true }
    ((if st.isTomb then s else s.republish).noteTransition cfg node m .alive).enforceTombCap cfg

/-- The status an update gives the entry `cur`, if it is taken. -/
def nextStatus (cur : Member) (inc : UInt64) (st : MemberStatus) (src : Src) (now : Int) : Option MemberStatus :=
  match st with
  | .alive =>
    if src = .joinSnapshot ∧ cur.status = .dead ∧ cur.incarnation ≤ inc then some .suspect
    else if cur.incarnation < inc then some .alive else none
  | .suspect =>
    if cur.incarnation < inc ∨ (inc = cur.incarnation ∧ cur.status = .alive) then some .suspect else none
  | .dead =>
    if src = .here then
      if cur.status ≠ .left ∧ cur.incarnation ≤ inc then some .dead else none
    else if cur.status.isTomb then none
    else if inc = cur.incarnation ∧ cur.status = .alive ∧ cur.lastDirect ≠ kNever ∧
        now - cur.lastDirect < cfg.suspicionTimeout then none
    else if cur.incarnation < inc ∨ (inc = cur.incarnation ∧ cur.status = .alive) then some .suspect
    else none
  | .left =>
    if cur.status = .left then if cur.incarnation < inc then some .left else none
    else if cur.incarnation ≤ inc then some .left else none

/-- The entry after an update that is taken with status `next`; `verified` is set already. -/
def takenMember (cur : Member) (fresh : Bool) (inc : UInt64) (next : MemberStatus) (src : Src) (now : Int) : Member :=
  { cur with
    incarnation := inc
    status := next
    txLeft := if cur.incarnation ≠ inc ∨ cur.status ≠ next ∨ fresh then s.piggybackCount else cur.txLeft
    verifyPending := next == .suspect && (src == .gossip || src == .joinSnapshot)
    suspectDeadline := if next = .suspect then now + cfg.suspicionTimeout else cur.suspectDeadline
    death := if next.isTomb then now else cur.death
    lastProbe := if next.isTomb && !cur.status.isTomb then now else cur.lastProbe }

def mergeMember (node : NodeId) (cur : Member) (inc : UInt64) (st : MemberStatus) (src : Src) (now : Int) :
    SwimMembership :=
  let fresh := !cur.verified && src.firstHand st
  let seen := { cur with verified := cur.verified || src.firstHand st }
  match nextStatus cfg cur inc st src now with
  | none =>
    if fresh then
      let m := { seen with txLeft := s.piggybackCount }
      { s.put node m with txPending := txPendingAfter s.txPending cur.txLeft m.txLeft }.republish.noteTransition
        cfg node m m.status
    else s
  | some next =>
    let m := s.takenMember cfg seen fresh inc next src now
    let s := { s.put node m with
      txPending := txPendingAfter s.txPending cur.txLeft m.txLeft
      tombCount := if !cur.status.isTomb && next.isTomb then s.tombCount + 1
        else if cur.status.isTomb && !next.isTomb then s.tombCount - 1 else s.tombCount }
    let s := if cur.status.isTomb = next.isTomb then s else s.republish
    let s := if fresh then s.republish else s
    (s.noteTransition cfg node m cur.status).enforceTombCap cfg

def denies (node : NodeId) : Bool :=
  match s.admission with
  | none => false
  | some snap => snap.lookup node == .deny

def refute (inc : UInt64) (st : MemberStatus) : SwimMembership :=
  if s.selfLeft ∨ st = .left then s
  else if st ≠ .alive ∧ s.selfIncarnation ≤ inc then
    { s with selfIncarnation := inc + 1 }.put s.self_
      { (s.members.lookup s.self_).getD {} with incarnation := inc + 1, status := .alive }
  else s

def suppressed (node : NodeId) (inc : UInt64) (st : MemberStatus) (src : Src) : Bool :=
  (st == .suspect || st == .dead) && src != .here &&
    match s.leases.lookup node with
    | none => false
    | some l => !cfg.testFaults.incarnationGatedSuppression || decide (inc ≤ l.incarnation)

def applyUpdate (node : NodeId) (inc : UInt64) (st : MemberStatus) (src : Src) (now : Int) : SwimMembership :=
  if isClientNode node then s
  else if node ≠ s.self_ ∧ st.isTomb = false ∧ s.denies node then s
  else if node = s.self_ then s.refute inc st
  else if s.suppressed cfg node inc st src then s
  else match s.members.lookup node with
    | none => s.createMember cfg node inc st src now
    | some cur => s.mergeMember cfg node cur inc st src now

def killed (m : Member) (now : Int) : Member :=
  { m with status := .dead, death := now, lastProbe := now, txLeft := s.piggybackCount, verifyPending := false }

/-- `reap_suspects` kills it: its suspicion window lapsed and no lease protects it. -/
def lapsed (now : Int) (id : NodeId) (m : Member) : Bool :=
  m.status == .suspect && decide (m.suspectDeadline ≤ now) &&
    (cfg.testFaults.incarnationGatedSuppression || (s.leases.lookup id).isNone)

def died (now : Int) : List Entry := s.members.entries.filter fun e => s.lapsed cfg now e.1 e.2

def killSuspects (now : Int) : SwimMembership :=
  { s with
    members := Table.mapVals (fun id m => if s.lapsed cfg now id m then s.killed m now else m) s.members
    txPending := (s.died cfg now).foldl (fun n e => txPendingAfter n e.2.txLeft s.piggybackCount) s.txPending
    tombCount := s.tombCount + UInt32.ofNat (s.died cfg now).length }

def noteDied (id : NodeId) : SwimMembership :=
  match s.members.lookup id with
  | none => s
  | some m => s.noteTransition cfg id m .suspect

def reapSuspects (now : Int) : SwimMembership :=
  let died := s.died cfg now
  let s := s.killSuspects cfg now
  ((sortIds (died.map Sigma.fst)).foldl (noteDied cfg) (if died = [] then s else s.republish)).enforceTombCap cfg

def reapTombstones (now : Int) : SwimMembership :=
  let expired (id : NodeId) (m : Member) : Bool :=
    id != s.self_ && m.status.isTomb && decide (cfg.tombstoneTtl ≤ now - m.death)
  let gone := s.members.entries.filter fun e => expired e.1 e.2
  if s.tombCount = 0 ∨ gone = [] then s
  else { s with
    members := Table.eraseIf expired s.members
    txPending := s.txPending - UInt32.ofNat (gone.filter fun e => e.2.txLeft != 0).length
    tombCount := s.tombCount - UInt32.ofNat gone.length
    idsDirty := true }

def reapUnverified (now : Int) : SwimMembership :=
  let silent (id : NodeId) (m : Member) : Bool :=
    id != s.self_ && !m.verified && !m.status.isTomb && decide (cfg.unverifiedTtl ≤ now - m.firstSeen)
  if cfg.unverifiedTtl ≤ 0 ∨ (s.members.entries.filter fun e => silent e.1 e.2) = [] then s
  else { s with members := Table.eraseIf silent s.members, idsDirty := true }.republish

def denied : List NodeId :=
  match s.admission with
  | none => []
  | some snap => (s.members.entries.filter fun e =>
    e.1 != s.self_ && !e.2.status.isTomb && snap.lookup e.1 == .deny).map Sigma.fst

def evict (node : NodeId) (now : Int) : SwimMembership :=
  { { s with evicting := true }.applyUpdate cfg node (s.incarnationOf node) .dead .here now with evicting := false }

def departed : Member :=
  let me := (s.members.lookup s.self_).getD {}
  { me with incarnation := me.incarnation + kLeftBand, status := .left }

def leaveSelf : SwimMembership :=
  { s.put s.self_ s.departed with
    selfIncarnation := s.departed.incarnation, selfLeft := true }.republish.noteTransition
    cfg s.self_ s.departed .alive

def refuse (node : NodeId) (ver : UInt8) (why : RefusalReason) (byPeer : Bool) : SwimMembership :=
  let known := s.refusals.lookup node
  if known = some ⟨why, ver⟩ then s
  else
    let s := if known.isSome ∨ s.refusals.size < cfg.maxLiveMembers then
        { s with refusals := s.refusals.insert node ⟨why, ver⟩ } else s
    if s.sinks = 0 then s
    else { s with pending := s.pending ++ [{
      kind := .versionRefused, node, incarnation := s.incarnationOf node, epoch := s.epoch, protocolVersion := ver
      refusal := why, refusedByPeer := byPeer }] }

def grant (node : NodeId) (inc : UInt64) (lease : Int) (reason : UInt64) (now : Int) : Option (Table NodeId Lease) :=
  if lease ≤ 0 then none
  else if (s.leases.lookup node).isNone ∧ cfg.mobile.maxSuspended ≤ s.leases.size then none
  else some (s.leases.insert node ⟨now + min lease cfg.mobile.maxLease, inc, reason⟩)

def unsuspected (cur : Member) : Member :=
  if cur.status = .suspect then
    { cur with status := .alive, verifyPending := false, txLeft := s.piggybackCount }
  else cur

def unsuspect (node : NodeId) (cur : Member) : SwimMembership :=
  if cur.status = .suspect then
    { s.put node (s.unsuspected cur) with
      txPending := txPendingAfter s.txPending cur.txLeft (s.unsuspected cur).txLeft }.noteTransition
      cfg node (s.unsuspected cur) .suspect
  else s

def dropProbeOf (node : NodeId) : SwimMembership :=
  if s.probe.active ∧ s.probe.target = node then { s with probe.active := false } else s

def holdLease (node : NodeId) (cur : Member) (leases : Table NodeId Lease) : SwimMembership :=
  let s' := ({ s with leases }.unsuspect cfg node cur).dropProbeOf node
  if (s.leases.lookup node).isSome then s' else s'.pushEvent .suspended node (s.unsuspected cur)

def onSuspendAnnounced (m : ControlMsg) (now : Int) : SwimMembership :=
  match s.members.lookup m.from_ with
  | none => s
  | some cur =>
    if m.from_ = s.self_ then s
    else if cur.status.isTomb ∨ cur.verified = false then s
    else if m.fromIncarnation < cur.incarnation then s
    else if cur.leaseExpiredInc ≠ 0 ∧ m.fromIncarnation ≤ cur.leaseExpiredInc then s
    else match s.grant cfg m.from_ m.fromIncarnation
        (min m.seq (UInt64.ofInt cfg.mobile.maxLease)).toInt64.toInt
        (min m.subjectIncarnation SuspendReason.other.code) now with
      | none => s
      | some leases => s.holdLease cfg m.from_ cur leases

def clearLeaseOnProofOfLife (n : NodeId) : SwimMembership :=
  if (s.leases.lookup n).isNone then s
  else
    let s := { s with leases := s.leases.erase n }
    match s.members.lookup n with
    | none => s
    | some m => if m.status.isTomb then s else s.pushEvent .resumed n m

def onLeasedPeerSpoke (m : ControlMsg) : SwimMembership :=
  match s.leases.lookup m.from_ with
  | none => s
  | some l =>
    if m.fromIncarnation ≤ l.incarnation then s
    else
      let s := { s with leases := s.leases.erase m.from_ }
      match s.members.lookup m.from_ with
      | none => s
      | some cur => s.pushEvent .resumed m.from_ cur

def expired (now : Int) : List NodeId :=
  sortIds ((s.leases.entries.filter fun e => decide (e.2.until_ ≤ now)).map Sigma.fst)

def lapseLease (id : NodeId) (now : Int) : SwimMembership :=
  match s.members.lookup id with
  | none => s
  | some m =>
    if m.status.isTomb then s
    else (s.put id { m with leaseExpiredInc := m.incarnation }).applyUpdate cfg id m.incarnation .suspect .here now

def forgiveLocalState (now : Int) : SwimMembership :=
  { s with
    probe := {}
    members := Table.mapVals (fun id m => if m.status = .suspect ∧ id ≠ s.self_ then
      { m with suspectDeadline := now + cfg.suspicionTimeout } else m) s.members }

def livePeersExcluding (excl : NodeId) : List NodeId :=
  sortIds ((s.live.map Sigma.fst).filter fun n => n != s.self_ && n != excl)

def awakePeersExcluding (excl : NodeId) : List NodeId :=
  (s.livePeersExcluding excl).filter fun n => (s.leases.lookup n).isNone

def pick (r : UInt64) (peers : List NodeId) (k : Nat) : List NodeId :=
  (List.range (min k peers.length)).map fun i => peers.getD ((r + UInt64.ofNat i).toNat % peers.length) 0

def shuffle : Nat → UInt64 → List NodeId → List NodeId
  | 0, _, l => l
  | i + 1, r, l =>
    if i = 0 then l
    else
      let r := splitmix64 r
      let j := r.toNat % (i + 1)
      shuffle i r ((l.set i (l.getD j 0)).set j (l.getD i 0))

def reorder : SwimMembership :=
  let peers := s.livePeersExcluding s.self_
  { s with
    probeOrder := shuffle peers.length (mix cfg.seed s.self_ s.probeRound) peers
    probeRound := s.probeRound + 1 }

def probeable (n : NodeId) : Bool :=
  match s.members.lookup n with
  | none => false
  | some m => !m.status.isTomb && (s.leases.lookup n).isNone

def scanOrder : List NodeId → Option (NodeId × List NodeId)
  | [] => none
  | n :: rest => if s.probeable n then some (n, rest) else scanOrder rest

def nextProbeTarget : Option NodeId × SwimMembership :=
  let s := if s.probeOrder = [] then s.reorder cfg else s
  match s.scanOrder s.probeOrder with
  | some (n, rest) => (some n, { s with probeOrder := rest })
  | none =>
    let s := s.reorder cfg
    match s.scanOrder s.probeOrder with
    | some (n, rest) => (some n, { s with probeOrder := rest })
    | none => (none, { s with probeOrder := [] })

/-- Take the pending marks of at most `verify_ping_budget` suspects; the suspects to ping. -/
def takeVerifies : SwimMembership × List NodeId :=
  s.members.entries.foldl (fun (acc : SwimMembership × List NodeId) e =>
    let (s, targets) := acc
    if cfg.verifyPingBudget ≤ targets.length ∨ e.2.verifyPending = false then (s, targets)
    else (s.put e.1 { e.2 with verifyPending := false },
      if e.2.status = .suspect ∧ e.1 ≠ s.self_ then targets ++ [e.1] else targets)) (s, [])

def probedBefore (a b : Entry) : Bool :=
  decide (a.2.lastProbe < b.2.lastProbe) || (decide (a.2.lastProbe = b.2.lastProbe) && decide (a.1 ≤ b.1))

def tombstoneTargets (now : Int) : List NodeId :=
  let cand := s.members.entries.filter fun e =>
    e.2.status == .dead && e.1 != s.self_ &&
      (e.2.lastProbe == kNever || !decide (now - e.2.lastProbe < cfg.tombstoneProbeInterval))
  let sorted := cand.insertionSort fun a b => probedBefore a b = true
  (sorted.take cfg.tombstoneProbeBudget).map Sigma.fst

def markProbed (targets : List NodeId) (now : Int) : SwimMembership :=
  { s with members := Table.mapVals (fun id m => if id ∈ targets then { m with lastProbe := now } else m) s.members }

def relayToken (req subj : NodeId) (seq : UInt64) (bucket : Int) : UInt64 :=
  splitmix64 (s.relayKey ^^^ mix req subj (seq ^^^ UInt64.ofInt bucket)) ||| 1

def budgetIndex (from_ : NodeId) : UInt64 := ((from_ * 0x9E3779B97F4A7C15) >>> 56) &&& 255

def admitControl (from_ : NodeId) (now : Int) : Bool × SwimMembership :=
  if cfg.controlRatePerSec = 0 then (true, s)
  else
    let i := budgetIndex from_
    let (ok, b) := (s.budgets i).admit_ now cfg.controlRatePerSec cfg.controlBurst
    (ok, { s with budgets := fun j => if j = i then b else s.budgets j })

def digestPush (acc : SwimMembership × List MemberUpdate) (id : NodeId) (m : Member) :
    SwimMembership × List MemberUpdate :=
  let (s, out) := acc
  (if m.txLeft = 0 then s
    else { s.put id { m with txLeft := m.txLeft - 1 } with
      txPending := txPendingAfter s.txPending m.txLeft (m.txLeft - 1) },
    out ++ [⟨id, m.incarnation, m.status.code⟩])

def digestPass (to_ : NodeId) (suspects : Bool) (cap : Nat) (acc : SwimMembership × List MemberUpdate) :
    SwimMembership × List MemberUpdate :=
  if acc.1.txPending = 0 then acc
  else acc.1.members.entries.foldl (fun (acc : SwimMembership × List MemberUpdate) e =>
    if cap ≤ acc.2.length ∨ e.1 = to_ ∨ e.1 = acc.1.self_ ∨ e.2.txLeft = 0 ∨ e.2.verified = false ∨
      (e.2.status == .suspect) ≠ suspects then acc
    else digestPush acc e.1 e.2) acc

def refreshSortedIds : SwimMembership :=
  if s.idsDirty then
    { s with
      sortedIds := sortIds ((s.live.filter fun e => e.2.verified || e.1 == s.self_).map Sigma.fst)
      idsDirty := false }
  else s

def rotated : List NodeId :=
  let start := (s.sortedIds.filter fun id => id ≤ s.digestCursor).length
  s.sortedIds.drop start ++ s.sortedIds.take start

def digestRotate (to_ : NodeId) (cap fixed : Nat) (acc : SwimMembership × List MemberUpdate) :
    SwimMembership × List MemberUpdate :=
  acc.1.rotated.foldl (fun (s, out) id =>
    if cap ≤ out.length ∨ id = to_ ∨ id = s.self_ ∨ (out.drop fixed).any (fun u => u.node == id) then (s, out)
    else match s.members.lookup id with
      | none => (s, out)
      | some m =>
        if m.verified then ({ s with digestCursor := id }, out ++ [⟨id, m.incarnation, m.status.code⟩])
        else (s, out)) acc

def digestHead (to_ : NodeId) : SwimMembership × List MemberUpdate :=
  let acc := match if to_ = s.self_ then none else s.members.lookup to_ with
    | none => (s, [])
    | some m => digestPush (s, []) to_ m
  if acc.2.length < cfg.maxGossipUpdates then
    digestPush acc s.self_ ((acc.1.members.lookup s.self_).getD {})
  else acc

def digestTail (to_ : NodeId) (acc : SwimMembership × List MemberUpdate) : SwimMembership × List MemberUpdate :=
  let cap := cfg.maxGossipUpdates
  let fixed := acc.2.length
  let reserved := min (acc.1.members.size - fixed) (if 2 < cap then (cap - 1) / 2 else 0)
  let acc := digestPass to_ false (cap - reserved) (digestPass to_ true (cap - reserved) acc)
  if cap ≤ acc.2.length then acc
  else digestRotate to_ cap fixed (acc.1.refreshSortedIds, acc.2)

def fillDigest (to_ : NodeId) : SwimMembership × List MemberUpdate :=
  if cfg.maxGossipUpdates = 0 then (s, []) else digestTail cfg to_ (s.digestHead cfg to_)

end SwimMembership

def rotateStep (to_ : NodeId) (cap fixed : Nat) (acc : SwimMembership × List MemberUpdate) (id : NodeId) :
    SwimMembership × List MemberUpdate :=
  if cap ≤ acc.2.length ∨ id = to_ ∨ id = acc.1.self_ ∨ (acc.2.drop fixed).any (fun u => u.node == id) then acc
  else match acc.1.members.lookup id with
    | none => acc
    | some m =>
      if m.verified then ({ acc.1 with digestCursor := id }, acc.2 ++ [⟨id, m.incarnation, m.status.code⟩]) else acc

theorem digestRotate_eq (to_ : NodeId) (cap fixed : Nat) (acc : SwimMembership × List MemberUpdate) :
    SwimMembership.digestRotate to_ cap fixed acc = acc.1.rotated.foldl (rotateStep to_ cap fixed) acc := rfl

end Quark.Swim
