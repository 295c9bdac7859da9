import Quark.Lib.Machine
import Quark.Swim

/-! One `SwimMembership` with its driving thread. A call is a list of tasks; each task runs without a break. A frame
on its way out, a host hook and an event sink are open: inside them the node may be called again. Other threads
publish admission snapshots and report refusals at any time. -/
namespace Quark.Swim

/-- What the host and the transport may call. -/
inductive Call
  | tick
  | frame (f : MessageFrame)
  | leave (who : NodeId)
  | admit_ (joiner : NodeId) (presented : UInt64)
  | applyAdmission
  | resume
  | suspend (why : SuspendReason) (lease : Int)
  | networkChanged
  | requestJoin (seed : NodeId)
  | setOnline (on : Bool)
  | setAdmission (snap : AdmissionSnapshot)
  | addEventSink

inductive Task
  | enter (c : Call)
  | returned (c : Call)
  | outside
  | flush
  | evict
  | evictOne (node : NodeId)
  | drainRefusals
  | deliver (i j : Nat)
  | handle (m : ControlMsg) (authenticatedFrom : NodeId)
  | answer (m : ControlMsg) (now : Int)
  | acked (m : ControlMsg) (now : Int)
  | joined (m : ControlMsg)
  | leasedPeerSpoke (m : ControlMsg)
  | apply (node : NodeId) (inc : UInt64) (st : MemberStatus) (src : Src) (now : Int)
  | send (to_ : NodeId) (m : ControlMsg)
  | expireLeases (now : Int)
  | lapseLease (id : NodeId) (now : Int)
  | reapSuspects (now : Int)
  | reapTombstones (now : Int)
  | reapUnverified (now : Int)
  | driveProbe (now : Int)
  /-- ping requests to the relays, unless the probe is answered meanwhile -/
  | indirect (first : Bool) (relays : List NodeId) (target : NodeId) (seq : UInt64)
  | settleProbe
  | dropProbe
  | startProbe (now : Int)
  | sendVerifies
  | probeTombstones (now : Int)
  | gossipRound (now : Int)
  | monitorCongestion (now : Int)
  | rejoin
  | fallAsleep

/-- What a task reads from outside. -/
structure Env where
  now : Int := 0
  reachable : Bool := true
  revocations : List (List UInt8) := []
  signedRevocations : List (List UInt8) := []
  capabilities : List CapabilityDigestEntry := []
  residentTotal : Option UInt64 := none

/-- What a task does: the node after it, the tasks that replace it, what a sink hears and what is sent. -/
structure Outcome where
  swim : SwimMembership
  todo : List Task := []
  told : List Event := []
  sent : List (NodeId × ControlMsg) := []

namespace SwimMembership

variable (cfg : Config) (env : Env) (s : SwimMembership)

def period (now : Int) : List Task :=
  [.expireLeases now, .reapSuspects now, .reapTombstones now, .reapUnverified now, .driveProbe now, .startProbe now,
    .sendVerifies, .probeTombstones now, .gossipRound now, .monitorCongestion now, .outside, .flush]

def enterFrame (f : MessageFrame) : Outcome :=
  if f.to_ ≠ s.self_ then { swim := s }
  else if f.control = false then { swim := s, todo := [.outside] }
  else if isClientNode f.from_ then { swim := s }
  else if s.online = false then { swim := s }
  else if s.suspendedSelf then
    { swim := s, todo := if cfg.testFaults.deferEvictionWhileSuspended then [] else [.flush] }
  else
    let (ok, s) := s.admitControl cfg f.from_ env.now
    match if ok then f.payload else none with
    | none => { swim := s }
    | some m => { swim := s, todo := [.handle m f.from_, .flush] }

def enter : Call → Outcome
  | .tick =>
    if s.online = false then { swim := s }
    else if s.suspendedSelf then
      { swim := s, todo := if cfg.testFaults.deferEvictionWhileSuspended then [] else [.flush] }
    else { swim := s, todo := period env.now }
  | .frame f => s.enterFrame cfg env f
  | .leave who =>
    if who = s.self_ then { swim := s.leaveSelf cfg, todo := [.flush] }
    else { swim := s, todo := [.apply who (s.incarnationOf who + kLeftBand) .left .here env.now, .flush] }
  | .admit_ joiner presented =>
    if presented ≠ cfg.clusterId ∨ isClientNode joiner then { swim := s }
    else
      let inc := match s.members.lookup joiner with
        | none => 0
        | some m => if m.status.isTomb then m.incarnation + 1 else 0
      { swim := s, todo := [.apply joiner inc .alive .join env.now, .flush] }
  | .applyAdmission => { swim := s, todo := [.evict, .flush] }
  | .resume =>
    if s.suspendedSelf = false then { swim := s }
    else { swim := { s with suspendedSelf := false }
           todo := (if cfg.testFaults.deferEvictionWhileSuspended then [] else [.evict]) ++ [.rejoin, .flush] }
  | .suspend why lease =>
    if s.suspendedSelf ∨ s.selfLeft ∨ s.online = false then { swim := s }
    else
      let lease := if lease ≤ 0 then cfg.mobile.defaultLease else lease
      { swim := s
        todo := (s.livePeersExcluding s.self_).map (fun peer => Task.send peer
          { kind := .suspend, seq := UInt64.ofInt lease, subjectIncarnation := why.code }) ++ [.fallAsleep] }
  | .networkChanged =>
    if s.suspendedSelf ∨ s.online = false then { swim := s } else { swim := s.forgiveLocalState cfg env.now }
  | .requestJoin seed =>
    { swim := s, todo := [.send seed { kind := .join, subject := s.self_, subjectIncarnation := s.selfIncarnation }] }
  | .setOnline on => { swim := { s with online := on } }
  | .setAdmission snap => { swim := { s with admission := some snap, admissionDirty := true } }
  | .addEventSink => { swim := { s with sinks := s.sinks + 1 } }

def send (to_ : NodeId) (m : ControlMsg) : Outcome :=
  if s.online = false ∨ env.reachable = false then { swim := s }
  else
    let (s', updates) := s.fillDigest cfg to_
    { swim := s'
      todo := [.outside]
      sent := [(to_, { m with
        cluster := cfg.clusterId
        from_ := s.self_
        fromIncarnation := s.selfIncarnation
        wireVersion := cfg.wireVersion
        updates
        revocations := if cfg.authorityOnlyRevocation then [] else env.revocations
        signedRevocations := env.signedRevocations
        capabilities := env.capabilities
        pressure := env.residentTotal.toList.map fun total => ⟨s.self_, s.selfIncarnation, total⟩ })] }

def inWindow (m : ControlMsg) : SwimMembership :=
  let s := { s with
    refusals := s.refusals.erase m.from_
    ctxFrom := m.from_
    ctxVersion := m.wireVersion }
  match s.members.lookup m.from_ with
  | none => s
  | some cur => s.put m.from_ { cur with wireVersion := m.wireVersion }

/-- A gossiped entry, unless it tombstones a third party. -/
def gossiped (m : ControlMsg) (now : Int) (u : MemberUpdate) : Option Task :=
  match MemberStatus.ofCode u.status with
  | none => none
  | some st => if st = .left ∧ u.node ≠ m.from_ then none else some (.apply u.node u.incarnation st .gossip now)

/-- The frame of a sender that is known, before its digest. -/
def heardDirectly (m : ControlMsg) (now : Int) : Outcome :=
  match if m.from_ = s.self_ then none else s.members.lookup m.from_ with
  | none => { swim := s }
  | some cur =>
    { swim := s.put m.from_ { cur with lastDirect := now }
      todo := .apply m.from_ m.fromIncarnation .alive .direct now ::
        (if m.kind = .suspend then [] else [.leasedPeerSpoke m]) }

/-- A frame of our cluster and in our window: absorb what it carries, then answer it. The hooks take the
revocations, the capabilities and the pressure. -/
def absorb (m : ControlMsg) (now : Int) : Outcome :=
  let heard := (if m.from_ = s.self_ then s else s.inWindow m).heardDirectly m now
  { swim := heard.swim
    todo := heard.todo ++ m.updates.filterMap (gossiped m now) ++ [.outside, .answer m now] }

def handle (m : ControlMsg) (authenticatedFrom : NodeId) : Outcome :=
  if m.from_ ≠ authenticatedFrom then { swim := s }
  else if m.kind = .join ∧ m.subject ≠ m.from_ then { swim := s }
  else if m.kind ≠ .join ∧ m.cluster ≠ cfg.clusterId then { swim := s }
  else if m.kind = .joinReject then
    if m.seq = RefusalReason.wireVersionTooOld.code then
      { swim := s.refuse cfg m.from_ m.wireVersion .wireVersionTooOld true }
    else if m.seq = RefusalReason.wireVersionTooNew.code then
      { swim := s.refuse cfg m.from_ m.wireVersion .wireVersionTooNew true }
    else { swim := s }
  else
    let s := { s with ctxFrom := 0 }
    if m.cluster ≠ cfg.clusterId then { swim := s, todo := [.answer m env.now] }
    else
      let why := cfg.wireVerdict m.wireVersion
      if why ≠ .none then
        { swim := s.refuse cfg m.from_ m.wireVersion why false
          todo := if m.kind = .join then
            [.send m.from_ { kind := .joinReject, subject := m.subject, seq := why.code }] else [] }
      else s.absorb m env.now

def ackProbe (target : NodeId) (seq : UInt64) : SwimMembership :=
  if s.probe.active ∧ s.probe.target = target ∧ seq = s.probe.seq then { s with probe.acked := true } else s

/-- The rest of `Ack`: our own probe, or one that we relayed. -/
def acked (m : ControlMsg) (now : Int) : Outcome :=
  if m.subjectIncarnation = 0 then { swim := s.ackProbe m.from_ m.seq }
  else
    let b := cfg.bucket now
    if m.subject ≠ s.self_ ∧ (m.subjectIncarnation = s.relayToken m.subject m.from_ m.seq b ∨
        m.subjectIncarnation = s.relayToken m.subject m.from_ m.seq (b - 1)) then
      { swim := s
        todo := [.send m.subject
          { kind := .pingReqAck, subject := m.from_, subjectIncarnation := m.fromIncarnation, seq := m.seq }] }
    else { swim := s }

def answerJoin (m : ControlMsg) (now : Int) : Outcome :=
  if m.cluster ≠ cfg.clusterId then
    { swim := s, todo := [.send m.from_ { kind := .joinReject, subject := m.subject }] }
  else if m.subject ≠ m.from_ then { swim := s }
  else
    let inc := match s.members.lookup m.subject with
      | none => m.subjectIncarnation
      | some cur => if cur.status.isTomb then max m.subjectIncarnation (cur.incarnation + 1) else m.subjectIncarnation
    { swim := s, todo := [.apply m.subject inc .alive .join now, .joined m] }

def joined (m : ControlMsg) : Outcome :=
  let s := if cfg.testFaults.joinKeepsLease then s else s.clearLeaseOnProofOfLife m.from_
  { swim := s
    todo := [.send m.from_
      { kind := .joinAck, subject := m.subject, subjectIncarnation := s.incarnationOf m.subject }] }

def adopt (m : ControlMsg) : SwimMembership :=
  if m.subject = s.self_ ∧ s.selfLeft = false ∧ s.selfIncarnation < m.subjectIncarnation then
    { s with selfIncarnation := m.subjectIncarnation }.put s.self_
      { (s.members.lookup s.self_).getD {} with incarnation := m.subjectIncarnation }
  else s

def answer (m : ControlMsg) (now : Int) : Outcome :=
  match m.kind with
  | .ping =>
    { swim := s
      todo := [.send m.from_
        { kind := .ack, seq := m.seq, subject := m.subject, subjectIncarnation := m.subjectIncarnation }] }
  | .ack => { swim := s, todo := [.apply m.from_ m.fromIncarnation .alive .direct now, .acked m now] }
  | .pingReq =>
    { swim := s
      todo := [.send m.subject
        { kind := .ping, seq := m.seq, subject := m.from_
          subjectIncarnation := s.relayToken m.from_ m.subject m.seq (cfg.bucket now) }] }
  | .pingReqAck =>
    { swim := s.ackProbe m.subject m.seq
      todo := [.apply m.subject m.subjectIncarnation .alive .gossip now] }
  | .join => s.answerJoin cfg m now
  | .joinAck =>
    { swim := s.adopt m
      todo := (m.updates.filter fun u => u.status == MemberStatus.alive.code).map fun u =>
        .apply u.node u.incarnation .alive .joinSnapshot now }
  | .suspend => { swim := s.onSuspendAnnounced cfg m now }
  | _ => { swim := s }

def driveProbe (now : Int) : Outcome :=
  if s.probe.active = false then { swim := s }
  else if s.probe.acked ∨ s.probeable s.probe.target = false then { swim := { s with probe.active := false } }
  else if now < s.probe.deadline then { swim := s }
  else match s.probe.phase with
    | .direct =>
      { swim := { s with probe := { s.probe with phase := .indirect, deadline := now + cfg.indirectNs } }
        todo := [.indirect true (pick (mix s.self_ s.probe.seq 0x51D3) (s.awakePeersExcluding s.probe.target)
          cfg.indirectK) s.probe.target s.probe.seq, .settleProbe] }
    | .indirect =>
      { swim := s
        todo := [.apply s.probe.target (s.incarnationOf s.probe.target) .suspect .here now, .dropProbe] }

def indirect (first : Bool) (relays : List NodeId) (target : NodeId) (seq : UInt64) : Outcome :=
  match relays with
  | [] => { swim := s }
  | relay :: rest =>
    if first = false ∧ s.probe.acked then { swim := s }
    else { swim := s
           todo := [.send relay { kind := .pingReq, subject := target, seq }, .indirect false rest target seq] }

def startProbe (now : Int) : Outcome :=
  if s.probe.active then { swim := s }
  else
    match s.nextProbeTarget cfg with
    | (none, s) => { swim := s }
    | (some target, s) =>
      { swim := { s with
          probe := { active := true, target, deadline := now + cfg.ackTimeout, seq := s.probeSeq + 1 }
          probeSeq := s.probeSeq + 1 }
        todo := [.send target { kind := .ping, seq := s.probeSeq + 1 }, .settleProbe] }

def pings (targets : List NodeId) : List Task := targets.map fun t => .send t { kind := .ping }

def probeTombstones (now : Int) : Outcome :=
  if s.tombCount = 0 then { swim := s }
  else
    let targets := s.tombstoneTargets cfg now
    { swim := s.markProbed targets now, todo := pings targets }

def monitorCongestion (now : Int) : Outcome :=
  match env.residentTotal with
  | none => { swim := s }
  | some total =>
    if cfg.congestionHighWatermark ≤ total then
      if s.congestedEdge = false ∨ s.nextCongestionRefresh ≤ now then
        { swim := { s with congestedEdge := true, nextCongestionRefresh := now + cfg.congestionRefresh }
          todo := (s.livePeersExcluding s.self_).map fun peer =>
            .send peer { kind := .congested, congestionRemaining := cfg.congestionWindow } }
      else { swim := s }
    else if total < cfg.congestionLowWatermark then { swim := { s with congestedEdge := false } }
    else { swim := s }

/-- `resume` once the eviction is done: a higher incarnation, which every live peer is told. -/
def rejoin (now : Int) : Outcome :=
  let me := { (s.members.lookup s.self_).getD {} with incarnation := s.selfIncarnation + 1 }
  let s := ({ s with selfIncarnation := s.selfIncarnation + 1 }.put s.self_ me).forgiveLocalState cfg now
  { swim := s, todo := (s.livePeersExcluding s.self_).map fun peer => .send peer { kind := .gossip } }

def flush : Outcome :=
  if s.flushing then { swim := s }
  else { swim := { s with admissionDirty := false }
         todo := (if s.admissionDirty then [.evict] else []) ++ [.drainRefusals] }

def drainRefusals : Outcome :=
  let s := s.extRefusals.foldl (fun s r => s.refuse cfg r.node r.version r.reason false) { s with extRefusals := [] }
  if s.pending = [] then { swim := s } else { swim := { s with flushing := true }, todo := [.deliver 0 0] }

def deliver (i j : Nat) : Outcome :=
  match s.pending[i]? with
  | none => { swim := { s with pending := [], flushing := false } }
  | some e =>
    if j < s.sinks then
      { swim := s, todo := [.outside, .deliver i (j + 1)], told := if j = 0 then [e] else [] }
    else { swim := s, todo := [.deliver (i + 1) 0] }

def exec : Task → Outcome
  | .enter c => s.enter cfg env c
  | .returned _ => { swim := s }
  | .outside => { swim := s }
  | .flush => s.flush
  | .evict => { swim := s, todo := s.denied.map .evictOne }
  | .evictOne node => { swim := s.evict cfg node env.now }
  | .drainRefusals => s.drainRefusals cfg
  | .deliver i j => s.deliver i j
  | .handle m authenticatedFrom => s.handle cfg env m authenticatedFrom
  | .answer m now => s.answer cfg m now
  | .acked m now => s.acked cfg m now
  | .joined m => s.joined cfg m
  | .leasedPeerSpoke m => { swim := s.onLeasedPeerSpoke m }
  | .apply node inc st src now => { swim := s.applyUpdate cfg node inc st src now }
  | .send to_ m => s.send cfg env to_ m
  | .expireLeases now =>
    { swim := { s with leases := Table.eraseIf (fun _ l => decide (l.until_ ≤ now)) s.leases }
      todo := (s.expired now).map fun id => .lapseLease id now }
  | .lapseLease id now => { swim := s.lapseLease cfg id now }
  | .reapSuspects now => { swim := s.reapSuspects cfg now }
  | .reapTombstones now => { swim := s.reapTombstones cfg now }
  | .reapUnverified now => { swim := s.reapUnverified cfg now }
  | .driveProbe now => s.driveProbe cfg now
  | .indirect first relays target seq => s.indirect first relays target seq
  | .settleProbe => { swim := if s.probe.acked then { s with probe.active := false } else s }
  | .dropProbe => { swim := { s with probe.active := false } }
  | .startProbe now => s.startProbe cfg now
  | .sendVerifies => { swim := (s.takeVerifies cfg).1, todo := pings (s.takeVerifies cfg).2 }
  | .probeTombstones now => s.probeTombstones cfg now
  | .gossipRound now =>
    { swim := s
      todo := (pick (mix s.self_ (UInt64.ofInt now) 0xF00D) (s.awakePeersExcluding s.self_) cfg.gossipFanout).map
        fun p => .send p { kind := .gossip } }
  | .monitorCongestion now => s.monitorCongestion cfg env now
  | .rejoin => s.rejoin cfg env.now
  | .fallAsleep => { swim := { s with suspendedSelf := true } }

end SwimMembership

/-- A node, what its driving thread has still to do, and what happened so far. -/
structure Node where
  swim : SwimMembership
  todo : List Task := []
  /-- what the sink that was attached first was given -/
  delivered : List Event := []
  sent : List (NodeId × ControlMsg) := []
  received : List MessageFrame := []
  admitted : List NodeId := []

inductive Label
  | call (c : Call)
  | run (env : Env)
  | publish (snap : AdmissionSnapshot)
  | markDirty
  | noteTransportRefusal (r : ExtRefusal)
  | rehash (members : Table NodeId Member)

namespace Node

variable (cfg : Config)

def relaySecretOr (cfg : Config) (drawn : UInt64) : UInt64 :=
  if cfg.relaySecret ≠ 0 then cfg.relaySecret else if drawn = 0 then 0x5E1A7C0FFEE else drawn

/-- The constructor, with `sinks` event sinks attached right after it. -/
def start (cfg : Config) (self_ : NodeId) (drawn : UInt64) (sinks : Nat) : Node where
  swim :=
    ({ self_, sinks
       relayKey := splitmix64 (cfg.seed ^^^ self_ ^^^ relaySecretOr cfg drawn ^^^ 0x5E1A7) : SwimMembership }.put
      self_ { incarnation := 1, verified := true, reported := 1, wireVersion := cfg.wireVersion }).republish

def callable : List Task → Bool
  | [] => true
  | .outside :: _ => true
  | _ => false

def called (n : Node) (c : Call) : Node :=
  { n with
    todo := .enter c :: .returned c :: n.todo
    received := match c with | .frame f => n.received ++ [f] | _ => n.received
    admitted := match c with | .admit_ joiner _ => n.admitted ++ [joiner] | _ => n.admitted }

def ran (n : Node) (o : Outcome) (rest : List Task) : Node :=
  { n with swim := o.swim, todo := o.todo ++ rest, delivered := n.delivered ++ o.told, sent := n.sent ++ o.sent }

def step (n : Node) : Label → Option Node
  | .call c => if callable n.todo then some (n.called c) else none
  | .run env =>
    match n.todo with
    | [] => none
    | t :: rest => some (n.ran (n.swim.exec cfg env t) rest)
  | .publish snap =>
    match n.swim.admission with
    | none => none
    | some old =>
      if old.generation < snap.generation then some { n with swim.admission := some snap } else none
  | .markDirty => if n.swim.admission.isSome then some { n with swim.admissionDirty := true } else none
  | .noteTransportRefusal r =>
    if n.swim.extRefusals.length < 256 then
      some { n with swim.extRefusals := n.swim.extRefusals ++ [r] }
    else some n
  | .rehash members =>
    if members.entries.Perm n.swim.members.entries then some { n with swim.members := members } else none

end Node

end Quark.Swim
