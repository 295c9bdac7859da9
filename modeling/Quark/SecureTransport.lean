import Quark.PeerSession

/-! `SecureTransport` of `secure_transport.hpp` with its `AdmissionGate`: every call is a thread that takes
one critical section at a time. A handshake engine is what it captured when it was made; what its `advance`
answers is an input. -/
namespace Quark.Secure

open Bytes
open Net (MessageFrame)
open Swim (NodeId isClientNode Fingerprint AdmissionVerdict AdmissionSnapshot)

/-- A `PeerSession` object, by its place in the heap. -/
abbrev SessionId := Nat

/-- A frame with what its transport knows about the connection. -/
structure Inbound where
  frame : MessageFrame
  source : Option UInt64 := none
  token : UInt64 := 0

/-- `revoked` is the set the engine was created with. -/
structure Engine where
  isClient : Bool
  expectedPeer : NodeId
  revoked : Option (Finset Fingerprint)

/-- `HandshakeEngine::Result` -/
structure Result where
  sendCipher : Cipher
  recvCipher : Cipher
  peerFingerprint : Fingerprint
  peerNodeId : NodeId
  peerClusterId : UInt64

/-- What a call of `HandshakeEngine::advance` ends in. -/
inductive Advance
  | want (out : List UInt8)
  | done (result : Result) (out : List UInt8)
  | failed

/-- The contract of `HandshakeEngineFactory::create`: a revoked peer never completes. -/
def Engine.accepts (e : Engine) (r : Result) : Bool := e.revoked.all fun set => r.peerFingerprint ∉ set

structure PendingHandshake where
  engine : Option Engine := none
  lastProgress : Int
  source : Option UInt64 := none
  known : Bool := false
  initiatedHere : Bool := false

structure Config where
  self_ : NodeId
  handshake : Bool
  aead : Cipher → Aead
  clusterId : UInt64 := 0
  admissionBound : Bool := false
  resetHook : Bool := false
  closeHook : Bool := false
  bareSessions : Bool := false
  inboundSessionPeer : NodeId := 0
  handshakeTimeout : Int := 5000000000
  minRenegotiateInterval : Int := 250000000
  maxPendingHandshakes : Nat := 256
  maxPendingPerIp : Nat := 64
  reservedHandshakeSlots : Nat := 16
  knownPeer : NodeId → Bool := fun _ => false
  handshakeAdmission : NodeId → Option UInt64 → Bool := fun _ _ => true

def maxAuthenticateFrameBytes : Nat := 64 * 1024

def sharedCipher : Cipher := 0

def noFingerprint : Fingerprint := ⟨List.replicate 32 0, List.length_replicate⟩

/-- The frame that `send_authenticate_frame` hands to the inner transport. -/
def authenticateFrame (self_ peer : NodeId) (bytes : List UInt8) : MessageFrame :=
  { from_ := self_, to_ := peer, target := ⟨⟨0⟩, 0⟩, msgType := ⟨0⟩, mode := 1, kind := FrameKind.authenticate,
    deadlineNs := 0, traceId := 0, principal := {}, payload := bytes }

def localIsClient (self_ peer : NodeId) : Bool :=
  if isClientNode self_ ≠ isClientNode peer then isClientNode self_ else self_ < peer

def permits (v : AdmissionVerdict) (kind : UInt8) : Bool :=
  match v with
  | .deny => false
  | .admit_ => true
  | .logExchangeOnly => kind = FrameKind.control

/-- An engine on its way into `advance`. -/
structure Drive where
  peer : NodeId
  engine : Engine
  input : List UInt8 := []
  source : Option UInt64 := none
  known : Bool := false
  initiatedHere : Bool := false

/-- A handshake that reached `Done`; `token` is that of an anonymous connection. -/
structure Completion where
  peer : NodeId
  result : Result
  captured : Option (Finset Fingerprint)
  out : List UInt8
  token : Option UInt64 := none

/-- Where a `send` or a `deliver` of a sealed frame stands. -/
inductive FrameCall
  | sending (to_ : NodeId) (f : MessageFrame)
  | looked (to_ : NodeId) (f : MessageFrame) (sid : SessionId)
  | holding (to_ : NodeId) (f : MessageFrame) (sid : SessionId)
  | receiving (f : MessageFrame)
  | opening (f : MessageFrame) (sid : SessionId)
  | handing (f : MessageFrame) (sid : SessionId)

/-- Where a handshake stands: from `request_session`, `try_renegotiate` or an Authenticate frame to the reply. -/
inductive HandshakeCall
  | requesting (peer : NodeId)
  | starting (peer : NodeId)
  | authenticating (r : Inbound)
  | opener (r : Inbound)
  | admitted (r : Inbound)
  | reserved (r : Inbound)
  | driving (d : Drive)
  | anonymous (token : UInt64) (engine : Engine)
  | completed (c : Completion)
  | installing (c : Completion)
  | swapping (c : Completion) (sid : SessionId)
  | creating (c : Completion)
  | binding (token : UInt64) (peer : NodeId) (out : List UInt8)
  | replying (peer : NodeId) (out : List UInt8)
  | failed (peer : NodeId) (own initiatedHere : Bool)
  | erasing (peer : NodeId)

/-- Where a sweep, a disconnect or a publish stands. `supply` tells which store into `revoked_snapshot_` was
the sweep's own. -/
inductive UpkeepCall
  | listing (revoked : Finset Fingerprint) (supply : Nat)
  | scanning (revoked : Finset Fingerprint) (supply : Nat) (todo clients : List SessionId)
  | retiring (revoked : Finset Fingerprint) (supply : Nat) (clients : List SessionId)
  | disconnecting (peer : NodeId)
  | swapped (snap : AdmissionSnapshot) (inside : Bool)
  | fenced (snap : AdmissionSnapshot)
  | aborting (snap : AdmissionSnapshot) (doomed : List NodeId)
  | closing (snap : AdmissionSnapshot) (doomed : List NodeId)
  | purging (snap : AdmissionSnapshot) (peer : NodeId) (doomed : List NodeId)

inductive Call
  | frame (c : FrameCall)
  | handshake (c : HandshakeCall)
  | upkeep (c : UpkeepCall)
  | done

/-- `scope`: the call holds an `AdmissionGate::Scope` to its end. -/
structure Thread where
  call : Call
  scope : Bool := false

/-- `install_session_from_result` opens a scope of its own. -/
def HandshakeCall.inScope : HandshakeCall → Bool
  | .installing .. | .swapping .. | .creating .. => true
  | _ => false

def Thread.inScope (t : Thread) : Bool :=
  t.scope || match t.call with
  | .handshake c => c.inScope
  | _ => false

def UpkeepCall.publishes : UpkeepCall → Bool
  | .swapped .. | .fenced .. | .aborting .. | .closing .. | .purging .. => true
  | _ => false

/-- The thread is inside `AdmissionAuthority::publish` and holds its mutex. -/
def Thread.publishes (t : Thread) : Bool :=
  match t.call with
  | .upkeep c => c.publishes
  | _ => false

/-- What leaves the transport, and the calls and returns that the guarantees speak of. -/
inductive Event
  | sent (to_ : NodeId) (f : MessageFrame) (fp : Fingerprint) (cipher : Cipher) (seq : UInt64)
  | delivered (f : MessageFrame) (fp : Fingerprint)
  | authenticate (peer : NodeId) (f : MessageFrame)
  | installed (peer : NodeId) (fp : Fingerprint)
  | dialed (peer : NodeId)
  | identified (token : UInt64) (peer : NodeId)
  | rejected (token : UInt64)
  | reset (peer : NodeId)
  | closed (peer : NodeId)
  | supplied
  | swept (revoked : Finset Fingerprint)
  | publishing (snap : AdmissionSnapshot)
  | published (snap : AdmissionSnapshot)

/-- `supplies` counts the stores into `revoked_snapshot_`; `admission` is the authority's current snapshot. -/
structure State where
  heap : List PeerSession := []
  sessions : Table NodeId SessionId := ∅
  pending : Table NodeId PendingHandshake := ∅
  revokedSnapshot : Option (Finset Fingerprint) := none
  supplies : Nat := 0
  admission : AdmissionSnapshot := { generation := 0, lookup := fun _ => .deny }
  threads : List Thread := []
  log : List Event := []

inductive Label
  | send (to_ : NodeId) (f : MessageFrame)
  | receive (r : Inbound) (now : Int)
  | request (peer : NodeId)
  | renegotiate (peer : NodeId)
  | inboundReady (token : UInt64)
  | setRevoked (revoked : Option (Finset Fingerprint))
  | sweepRevocations (revoked : Option (Finset Fingerprint))
  | disconnected (peer : NodeId)
  | publish (snap : AdmissionSnapshot) (inside : Bool)
  | go (i : Nat) (now : Int) (a : Advance)

namespace State

variable (cfg : Config) (s : State)

def spawn (call : Call) (scope : Bool) : State := { s with threads := s.threads ++ [{ call, scope }] }

def goto (i : Nat) (t : Thread) (call : Call) : State := { s with threads := s.threads.set i { t with call } }

def finish (i : Nat) : State := { s with threads := s.threads.set i { call := .done } }

def note (e : Event) : State := { s with log := s.log ++ [e] }

def noteIf (b : Bool) (e : Event) : State := if b then s.note e else s

def setSession (sid : SessionId) (se : PeerSession) : State := { s with heap := s.heap.set sid se }

/-- A fresh session object under `peer`, in the place of the one that was there. -/
def putSession (se : PeerSession) : State :=
  { s with heap := s.heap ++ [se], sessions := s.sessions.insert se.peer s.heap.length }

def eraseSession (peer : NodeId) : State := { s with sessions := s.sessions.erase peer }

def erasePending (peer : NodeId) : State := { s with pending := s.pending.erase peer }

def denied (peer : NodeId) : Bool := cfg.admissionBound && s.admission.lookup peer = .deny

def gate (peer : NodeId) (kind : UInt8) : Bool := !cfg.admissionBound || permits (s.admission.lookup peer) kind

def vivify (peer : NodeId) (now : Int) : State :=
  s.putSession
    { peer, sendCipher := sharedCipher, recvCipher := sharedCipher, peerFingerprint := noFingerprint,
      renegotiatedAt := now }

def reapStalePending (now : Int) : State :=
  { s with pending := s.pending.eraseIf fun _ ph => now - ph.lastProgress ≥ cfg.handshakeTimeout }

def reservePending (peer : NodeId) (source : Option UInt64) (known : Bool) (now : Int) : State :=
  { s with pending := s.pending.insert peer { lastProgress := now, source, known } }

def releaseReservation (peer : NodeId) : State :=
  match s.pending.lookup peer with
  | some ph => if ph.engine.isNone then s.erasePending peer else s
  | none => s

/-- The locked section that `ensure_handshake` and `try_renegotiate` share. -/
def startHandshake (peer : NodeId) (now : Int) : State × Option Engine :=
  if (s.pending.lookup peer).any fun ph => now - ph.lastProgress < cfg.handshakeTimeout then (s, none)
  else
    let s := s.erasePending peer
    if s.pending.size ≥ cfg.maxPendingHandshakes then (s, none)
    else
      (s.reservePending peer none false now,
        some { isClient := true, expectedPeer := peer, revoked := s.revokedSnapshot })

/-- What a frame for `peer` finds in its slot. -/
inductive Taken
  | ignored
  | engine (e : Engine) (initiatedHere : Bool)
  | nothing

def takePending (peer : NodeId) (source : Option UInt64) (now : Int) : State × Taken :=
  match s.pending.lookup peer with
  | none => (s, .nothing)
  | some ph =>
    if source.isSome ∧ ph.source.isSome ∧ ph.source ≠ source then (s, .ignored)
    else
      (s.erasePending peer,
        if now - ph.lastProgress < cfg.handshakeTimeout then ph.engine.elim .nothing fun e =>
          .engine e ph.initiatedHere
        else .nothing)

def hasRoom (peer : NodeId) (source : Option UInt64) : Bool :=
  let all := s.pending.entries.map Sigma.snd
  !(s.pending.size ≥ cfg.maxPendingHandshakes &&
      (!cfg.knownPeer peer || all.countP (·.known) ≥ cfg.reservedHandshakeSlots)) &&
    !(cfg.maxPendingPerIp ≠ 0 && source.isSome && all.countP (·.source = source) ≥ cfg.maxPendingPerIp)

def throttled (peer : NodeId) (now : Int) : Bool :=
  ((s.sessions.lookup peer).bind fun sid => s.heap[sid]?).any fun se =>
    now - se.renegotiatedAt < cfg.minRenegotiateInterval

def stepFrame (i : Nat) (t : Thread) (now : Int) : FrameCall → Option State
  | .sending to_ f =>
    match s.sessions.lookup to_ with
    | some sid => some (s.goto i t (.frame (.looked to_ f sid)))
    | none =>
      if cfg.handshake then some (s.goto i t (.handshake (.requesting to_)))
      else some ((s.vivify to_ now).goto i t (.frame (.looked to_ f s.heap.length)))
  | .looked to_ f sid => do
      let se ← s.heap[sid]?
      if se.sessionMu.isSome then none
      else if se.revoked then some (s.finish i)
      else some ((s.setSession sid { se with sessionMu := some i }).goto i t (.frame (.holding to_ f sid)))
  | .holding to_ f sid => do
      let se ← s.heap[sid]?
      let r := se.sealFrame cfg.aead cfg.clusterId cfg.self_ to_ f
      some (((s.setSession sid { r.1 with sessionMu := none }).note
        (.sent to_ r.2 se.peerFingerprint se.sendCipher (r.1.sendSeq (laneOf f.kind)))).finish i)
  | .receiving f =>
    if f.payload.length < 8 then some (s.finish i)
    else
      match s.sessions.lookup f.from_ with
      | some sid => some (s.goto i t (.frame (.opening f sid)))
      | none =>
        if cfg.handshake then some (s.finish i)
        else some ((s.vivify f.from_ now).goto i t (.frame (.opening f s.heap.length)))
  | .opening f sid => do
      let se ← s.heap[sid]?
      if se.sessionMu.isSome then none
      else if se.revoked then some (s.finish i)
      else
        match se.openFrame cfg.aead cfg.clusterId cfg.self_ f with
        | none => some (s.finish i)
        | some (se', f') => some ((s.setSession sid se').goto i t (.frame (.handing f' sid)))
  | .handing f sid => do
      let se ← s.heap[sid]?
      some ((s.noteIf (f.kind ≠ FrameKind.schema) (.delivered f se.peerFingerprint)).finish i)

/-- After `install_session_from_result`: an anonymous connection is bound first. -/
def installed (i : Nat) (t : Thread) (c : Completion) : State :=
  match c.token with
  | some token => s.goto i t (.handshake (.binding token c.peer c.out))
  | none => s.goto i t (.handshake (.replying c.peer c.out))

def refuse (c : Completion) : State :=
  c.token.elim (s.noteIf cfg.closeHook (.closed c.peer)) fun token =>
    (s.noteIf cfg.closeHook (.closed c.peer)).note (.rejected token)

def stepHandshake (i : Nat) (t : Thread) (now : Int) (a : Advance) : HandshakeCall → Option State
  | .requesting peer =>
    if !cfg.handshake ∨ peer = 0 ∨ peer = cfg.self_ ∨ (s.sessions.lookup peer).isSome then some (s.finish i)
    else if localIsClient cfg.self_ peer then some (s.goto i t (.handshake (.starting peer)))
    else some ((s.noteIf cfg.bareSessions (.dialed peer)).finish i)
  | .starting peer =>
    if localIsClient cfg.self_ peer then
      match s.startHandshake cfg peer now with
      | (s', none) => some (s'.finish i)
      | (s', some engine) => some (s'.goto i t (.handshake (.driving { peer, engine, initiatedHere := true })))
    else some (s.finish i)
  | .authenticating r =>
    if !cfg.handshake then some (s.finish i)
    else if r.token ≠ 0 then
      if r.frame.from_ ≠ 0 ∨ !cfg.handshakeAdmission 0 r.source then some ((s.note (.rejected r.token)).finish i)
      else
        some (s.goto i t (.handshake (.anonymous r.token
          { isClient := false, expectedPeer := 0, revoked := s.revokedSnapshot })))
    else if r.frame.from_ = 0 then some (s.finish i)
    else
      match s.takePending cfg r.frame.from_ r.source now with
      | (s', .ignored) => some (s'.finish i)
      | (s', .nothing) => some (s'.goto i t (.handshake (.opener r)))
      | (s', .engine engine initiatedHere) =>
        some (s'.goto i t (.handshake (.driving
          { peer := r.frame.from_, engine, input := r.frame.payload, source := r.source,
            known := cfg.knownPeer r.frame.from_, initiatedHere })))
  | .opener r =>
    if localIsClient cfg.self_ r.frame.from_ || s.throttled cfg r.frame.from_ now || s.denied cfg r.frame.from_ ||
        !cfg.handshakeAdmission r.frame.from_ r.source then some (s.finish i)
    else some (s.goto i t (.handshake (.admitted r)))
  | .admitted r =>
    if s.hasRoom cfg r.frame.from_ r.source then
      some ((s.reservePending r.frame.from_ r.source (cfg.knownPeer r.frame.from_) now).goto i t
        (.handshake (.reserved r)))
    else some (s.finish i)
  | .reserved r =>
    some (s.goto i t (.handshake (.driving
      { peer := r.frame.from_, input := r.frame.payload, source := r.source, known := cfg.knownPeer r.frame.from_,
        engine := { isClient := false, expectedPeer := r.frame.from_, revoked := s.revokedSnapshot } })))
  | .driving d =>
    match a with
    | .want out =>
      let ph : PendingHandshake :=
        { engine := some d.engine, lastProgress := now, source := d.source, known := d.known,
          initiatedHere := d.initiatedHere }
      some ({ s with pending := s.pending.insert d.peer ph }.goto i t (.handshake (.replying d.peer out)))
    | .done result out =>
      if d.engine.accepts result then
        some ((s.releaseReservation d.peer).goto i t (.handshake (.completed
          { peer := d.peer, result, captured := d.engine.revoked, out })))
      else none
    | .failed =>
      some ((s.releaseReservation d.peer).goto i t (.handshake (.failed d.peer d.input.isEmpty d.initiatedHere)))
  | .anonymous token engine =>
    match a with
    | .done result out =>
      if !engine.accepts result then none
      else if result.peerNodeId = 0 ∨ !localIsClient result.peerNodeId cfg.self_ then
        some ((s.note (.rejected token)).finish i)
      else
        some (s.goto i t (.handshake (.completed
          { peer := result.peerNodeId, result, captured := engine.revoked, out, token := some token })))
    | _ => some ((s.note (.rejected token)).finish i)
  | .completed c =>
    if c.result.peerNodeId ≠ c.peer ∨ c.result.peerClusterId ≠ cfg.clusterId then some (s.installed i t c)
    else if s.denied cfg c.peer then some ((s.refuse cfg c).finish i)
    else some (s.goto i t (.handshake (.installing c)))
  | .installing c =>
    match s.sessions.lookup c.peer with
    | some sid => some (s.goto i t (.handshake (.swapping c sid)))
    | none => some (s.goto i t (.handshake (.creating c)))
  | .swapping c sid => do
      let se ← s.heap[sid]?
      if se.sessionMu.isSome then none
      else
        some (((s.setSession sid (se.installRenegotiated c.result.sendCipher c.result.recvCipher
          c.result.peerFingerprint now)).note (.installed c.peer c.result.peerFingerprint)).installed i t c)
  | .creating c =>
    some (((s.putSession
      { peer := c.peer, sendCipher := c.result.sendCipher, recvCipher := c.result.recvCipher,
        peerFingerprint := c.result.peerFingerprint, renegotiatedAt := now }).note
      (.installed c.peer c.result.peerFingerprint)).installed i t c)
  | .binding token peer out =>
    match (s.sessions.lookup peer).bind fun sid => s.heap[sid]? with
    | none => some ((s.note (.rejected token)).finish i)
    | some se =>
      if se.sessionMu.isSome then none
      else if se.revoked then some ((s.note (.rejected token)).finish i)
      else some ((s.note (.identified token peer)).goto i t (.handshake (.replying peer out)))
  | .replying peer out =>
    some ((s.noteIf (!out.isEmpty) (.authenticate peer (authenticateFrame cfg.self_ peer out))).finish i)
  | .failed peer own initiatedHere =>
    if (s.sessions.lookup peer).isSome && (initiatedHere && own) then some (s.goto i t (.handshake (.erasing peer)))
    else some ((s.noteIf (isClientNode peer && cfg.resetHook) (.reset peer)).finish i)
  | .erasing peer => some (((s.eraseSession peer).noteIf cfg.resetHook (.reset peer)).finish i)

def eraseClients (clients : List SessionId) : Table NodeId SessionId :=
  clients.foldl (fun t sid =>
    match s.heap[sid]? with
    | some se => if t.lookup se.peer = some sid then t.erase se.peer else t
    | none => t) s.sessions

/-- `reset_hook_` for every client that lost its session. -/
def resetClients (clients : List SessionId) : State :=
  if cfg.resetHook then { s with
    log := s.log ++ clients.filterMap fun sid => (s.heap[sid]?).map fun se => .reset se.peer }
  else s

/-- A sweep returns; another call may have stored a set of its own meanwhile. -/
def swept (revoked : Finset Fingerprint) (supply : Nat) : State := s.noteIf (s.supplies = supply) (.swept revoked)

def stepUpkeep (i : Nat) (t : Thread) : UpkeepCall → Option State
  | .listing revoked supply =>
    some (s.goto i t (.upkeep (.scanning revoked supply (s.sessions.entries.map Sigma.snd) [])))
  | .scanning revoked supply [] clients => some (s.goto i t (.upkeep (.retiring revoked supply clients)))
  | .scanning revoked supply (sid :: todo) clients => do
      let se ← s.heap[sid]?
      if se.revoked = false ∧ se.peerFingerprint ∈ revoked then
        let clients := if isClientNode se.peer then clients ++ [sid] else clients
        some ((s.setSession sid se.revoke).goto i t (.upkeep (.scanning revoked supply todo clients)))
      else some (s.goto i t (.upkeep (.scanning revoked supply todo clients)))
  | .retiring revoked supply clients =>
    some ((({ s with sessions := s.eraseClients clients }.resetClients cfg clients).swept revoked supply).finish i)
  | .disconnecting peer => some ((s.erasePending peer).finish i)
  | .swapped snap inside =>
    if !inside && s.threads.any Thread.inScope then none else some (s.goto i t (.upkeep (.fenced snap)))
  | .fenced snap =>
    some (s.goto i t (.upkeep (.aborting snap (s.pending.keys.filter fun p => snap.lookup p = .deny))))
  | .aborting snap doomed =>
    let live := if cfg.handshake then s.sessions.keys.filter fun p => snap.lookup p = .deny else []
    some (s.goto i t (.upkeep (.closing snap (doomed ++ live))))
  | .closing snap [] => some ((s.note (.published snap)).finish i)
  | .closing snap (p :: doomed) =>
    let s := if cfg.handshake then s.eraseSession p else s
    some (s.goto i t (.upkeep (.purging snap p doomed)))
  | .purging snap p doomed =>
    some (((s.erasePending p).noteIf cfg.closeHook (.closed p)).goto i t (.upkeep (.closing snap doomed)))

def supply (revoked : Option (Finset Fingerprint)) : State :=
  { s with revokedSnapshot := revoked, supplies := s.supplies + 1 }.note .supplied

def step : Label → Option State
  | .send to_ f =>
    if s.gate cfg to_ f.kind then some (s.spawn (.frame (.sending to_ f)) cfg.admissionBound) else some s
  | .receive r now =>
    if r.frame.kind = FrameKind.authenticate then
      if r.frame.payload.length > maxAuthenticateFrameBytes then some s
      else some ((s.reapStalePending cfg now).spawn (.handshake (.authenticating r)) false)
    else if s.gate cfg r.frame.from_ r.frame.kind then
      some (s.spawn (.frame (.receiving r.frame)) cfg.admissionBound)
    else some s
  | .request peer => some (s.spawn (.handshake (.requesting peer)) false)
  | .renegotiate peer => if cfg.handshake then some (s.spawn (.handshake (.starting peer)) false) else some s
  | .inboundReady token =>
    let peer := cfg.inboundSessionPeer
    if peer = 0 ∨ !cfg.handshake ∨ !localIsClient cfg.self_ peer then some s
    else if s.denied cfg peer then some (s.note (.rejected token))
    else some ((s.note (.identified token peer)).spawn (.handshake (.starting peer)) false)
  | .setRevoked revoked => some (s.supply revoked)
  | .sweepRevocations revoked =>
    let s := s.supply revoked
    match revoked with
    | none => some s
    | some set =>
      if set = ∅ then some (s.note (.swept set))
      else some (s.spawn (.upkeep (.listing set s.supplies)) false)
  | .disconnected peer =>
    some ((if cfg.handshake then s.eraseSession peer else s).spawn (.upkeep (.disconnecting peer)) false)
  | .publish snap inside =>
    if !cfg.admissionBound || s.threads.any Thread.publishes then none
    else if snap.generation ≤ s.admission.generation then some s
    else some (({ s with admission := snap }.note (.publishing snap)).spawn (.upkeep (.swapped snap inside)) false)
  | .go i now a =>
    (s.threads[i]?).bind fun t =>
      match t.call with
      | .frame c => s.stepFrame cfg i t now c
      | .handshake c => s.stepHandshake cfg i t now a c
      | .upkeep c => s.stepUpkeep cfg i t c
      | .done => none

end State

section

variable {s : State} {i j : Nat} {t t' : Thread} {call : Call} {e : Event} {b : Bool}

theorem State.mem_goto (h : t' ∈ (s.goto i t call).threads) : t' ∈ s.threads ∨ t' = { t with call } :=
  List.mem_or_eq_of_mem_set h

theorem State.mem_finish (h : t' ∈ (s.finish i).threads) : t' ∈ s.threads ∨ t' = { call := .done } :=
  List.mem_or_eq_of_mem_set h

theorem State.noteIf_eq (s : State) (b : Bool) (e : Event) :
    s.noteIf b e = { s with log := s.log ++ if b then [e] else [] } := by
  cases b with
  | true => rfl
  | false => rw [if_neg Bool.false_ne_true, List.append_nil, State.noteIf, if_neg Bool.false_ne_true]

theorem State.refuse_eq (cfg : Config) (s : State) (c : Completion) :
    ∃ new, s.refuse cfg c = { s with log := s.log ++ new } ∧
      ∀ e ∈ new, e = .closed c.peer ∨ ∃ token, e = .rejected token := by
  have hclosed : ∀ e ∈ (if cfg.closeHook then [Event.closed c.peer] else []), e = .closed c.peer := by
    intro e he
    split at he
    · exact List.mem_singleton.mp he
    · cases he
  rw [State.refuse, State.noteIf_eq]
  cases c.token with
  | none => exact ⟨_, rfl, fun e he => .inl (hclosed e he)⟩
  | some token =>
    refine ⟨_ ++ [.rejected token], congrArg (fun log => { s with log }) (List.append_assoc ..), fun e he => ?_⟩
    rcases List.mem_append.mp he with hin | hin
    · exact .inl (hclosed e hin)
    · exact .inr ⟨token, List.mem_singleton.mp hin⟩

theorem State.releaseReservation_eq (s : State) (peer : NodeId) :
    ∃ pending, s.releaseReservation peer = { s with pending } := by
  rw [State.releaseReservation]
  split
  · split
    · exact ⟨_, rfl⟩
    · exact ⟨_, rfl⟩
  · exact ⟨_, rfl⟩

theorem State.takePending_eq (cfg : Config) (s : State) (peer : NodeId) (source : Option UInt64) (now : Int) :
    ∃ pending, (s.takePending cfg peer source now).1 = { s with pending } := by
  rw [State.takePending]
  split
  · exact ⟨_, rfl⟩
  · split
    · exact ⟨_, rfl⟩
    · exact ⟨_, rfl⟩

theorem State.startHandshake_eq (cfg : Config) (s : State) (peer : NodeId) (now : Int) :
    ∃ pending, (s.startHandshake cfg peer now).1 = { s with pending } := by
  rw [State.startHandshake]
  split
  · exact ⟨_, rfl⟩
  · dsimp only
    split
    · exact ⟨_, rfl⟩
    · exact ⟨_, rfl⟩

theorem lookup_eraseClients {s : State} {sid : SessionId} {clients : List SessionId} {peer : NodeId}
    (h : (s.eraseClients clients).lookup peer = some sid) : s.sessions.lookup peer = some sid := by
  rw [State.eraseClients] at h
  induction clients using List.reverseRecOn with
  | nil => exact h
  | append_singleton clients last ih =>
    rw [List.foldl_append, List.foldl_cons, List.foldl_nil] at h
    split at h
    · split at h
      · exact ih (Table.lookup_of_erase h)
      · exact ih h
    · exact ih h

theorem resetClients_eq (cfg : Config) (s : State) (clients : List SessionId) :
    ∃ new, s.resetClients cfg clients = { s with log := s.log ++ new } ∧ ∀ e ∈ new, ∃ peer, e = .reset peer := by
  rw [State.resetClients]
  split
  · refine ⟨_, rfl, fun e he => ?_⟩
    obtain ⟨sid, -, hmap⟩ := List.mem_filterMap.mp he
    obtain ⟨se, -, rfl⟩ := Option.map_eq_some_iff.mp hmap
    exact ⟨se.peer, rfl⟩
  · refine ⟨[], ?_, nofun⟩
    rw [List.append_nil]

end

def HandshakeCall.completion : HandshakeCall → Option Completion
  | .completed c | .installing c | .swapping c _ | .creating c => some c
  | _ => none

/-- It is installed in the scope in which the snapshot was asked. -/
def HandshakeCall.installs : HandshakeCall → Option Completion
  | .installing c | .swapping c _ | .creating c => some c
  | _ => none

/-- An event that passes no frame on a session, installs none, and returns from no sweep or publish. -/
def Event.minor : Event → Bool
  | .authenticate .. | .dialed _ | .identified .. | .rejected _ | .reset _ | .closed _ => true
  | _ => false

/-- How a handshake goes on: only its engine completes it, and only an answer that is no denial lets it install. -/
def Onward (cfg : Config) (s : State) (k : HandshakeCall) : Call → Prop
  | .handshake k' =>
    (∀ c, k'.completion = some c →
      k.completion = some c ∨ c.captured.all (c.result.peerFingerprint ∉ ·) = true) ∧
    ∀ c, k'.installs = some c → k.installs = some c ∨ s.denied cfg c.peer = false
  | .done => True
  | _ => False

def Passes (cfg : Config) (s : State) (i : Nat) (k : HandshakeCall) (s' : State) : Prop :=
  ∃ (pending : Table NodeId PendingHandshake) (new : List Event) (t' : Thread) (call : Call),
    s' = ({ s with pending, log := s.log ++ new } : State).goto i t' call ∧ (∀ e ∈ new, e.minor = true) ∧
      Onward cfg s k call

section

variable {cfg : Config} {s s' : State} {i : Nat} {t : Thread} {now : Int} {a : Advance} {k k' : HandshakeCall}

attribute [local simp] State.stepHandshake

theorem minor_singleton {e : Event} (he : e.minor = true) : ∀ e' ∈ [e], e'.minor = true := by
  intro e' he'
  rw [List.mem_singleton.mp he']
  exact he

theorem Passes.pending (pending : Table NodeId PendingHandshake) {call : Call} (t' : Thread)
    (hcall : Onward cfg s k call) :
    Passes cfg s i k (({ s with pending } : State).goto i t' call) :=
  ⟨pending, [], t', call, (by rw [List.append_nil]), nofun, hcall⟩

theorem Passes.finish (pending : Table NodeId PendingHandshake) :
    Passes cfg s i k (({ s with pending } : State).finish i) :=
  Passes.pending pending { call := .done } (show Onward cfg s k .done from trivial)

theorem Passes.note {e : Event} (he : e.minor = true) : Passes cfg s i k ((s.note e).finish i) :=
  ⟨s.pending, [e], { call := .done }, .done, rfl, minor_singleton he, trivial⟩

theorem Passes.noteIf {e : Event} {b : Bool} (he : e.minor = true) : Passes cfg s i k ((s.noteIf b e).finish i) := by
  cases b with
  | true => exact Passes.note he
  | false => exact Passes.finish s.pending

theorem Onward.plain (h : k'.completion = none) : Onward cfg s k (.handshake k') := by
  refine ⟨fun c hc => ?_, fun c hc => ?_⟩
  · rw [h] at hc
    cases hc
  · cases k' with
    | installing | swapping | creating => cases h
    | requesting | starting | authenticating | opener | admitted | reserved | driving | anonymous
      | completed | binding
    | replying | failed | erasing => cases hc

theorem State.installed_eq (s : State) (i : Nat) (t : Thread) (c : Completion) :
    ∃ k', s.installed i t c = s.goto i t (.handshake k') ∧ k'.completion = none := by
  rw [State.installed]
  split
  · exact ⟨_, rfl, rfl⟩
  · exact ⟨_, rfl, rfl⟩

theorem stepHandshake_starting {peer : NodeId} (h : s.stepHandshake cfg i t now a (.starting peer) = some s') :
    Passes cfg s i (.starting peer) s' := by
  obtain ⟨pending, hpending⟩ := State.startHandshake_eq cfg s peer now
  rw [State.stepHandshake] at h
  split at h
  · split at h <;> next hstart =>
      rw [hstart] at hpending
      cases hpending
      cases h
      first
      | exact .finish pending
      | exact .pending pending t (.plain rfl)
  · cases h
    exact .finish s.pending

theorem stepHandshake_authenticating {r : Inbound} (h : s.stepHandshake cfg i t now a (.authenticating r) = some s') :
    Passes cfg s i (.authenticating r) s' := by
  rw [State.stepHandshake] at h
  split at h
  · cases h
    exact .finish s.pending
  · split at h
    · split at h
      · cases h
        exact .note rfl
      · cases h
        exact .pending s.pending t (.plain rfl)
    · split at h
      · cases h
        exact .finish s.pending
      · obtain ⟨pending, hpending⟩ := State.takePending_eq cfg s r.frame.from_ r.source now
        split at h <;> next htake =>
          rw [htake] at hpending
          cases hpending
          cases h
          first
          | exact .finish pending
          | exact .pending pending t (.plain rfl)

theorem stepHandshake_driving {d : Drive} (h : s.stepHandshake cfg i t now a (.driving d) = some s') :
    Passes cfg s i (.driving d) s' := by
  obtain ⟨pending, hpending⟩ := State.releaseReservation_eq s d.peer
  cases a with
  | want out =>
    cases h
    exact .pending _ t (.plain rfl)
  | done r out =>
    rw [State.stepHandshake, hpending] at h
    split at h
    · next haccepts =>
      cases h
      refine .pending pending t ⟨fun c hc => .inr ?_, nofun⟩
      cases hc
      exact haccepts
    · cases h
  | failed =>
    rw [State.stepHandshake, hpending] at h
    cases h
    exact .pending pending t (.plain rfl)

theorem stepHandshake_anonymous {token : UInt64} {engine : Engine}
    (h : s.stepHandshake cfg i t now a (.anonymous token engine) = some s') :
    Passes cfg s i (.anonymous token engine) s' := by
  cases a with
  | done r out =>
    rw [State.stepHandshake] at h
    split at h
    · cases h
    · next haccepts =>
      split at h
      · cases h
        exact .note rfl
      · cases h
        refine .pending s.pending t ⟨fun c hc => .inr ?_, nofun⟩
        cases hc
        exact Bool.not_eq_false _ ▸ fun hr => haccepts (by rw [Bool.not_eq_true']; exact hr)
  | want out | failed =>
    cases h
    exact .note rfl

theorem stepHandshake_completed {c : Completion} (h : s.stepHandshake cfg i t now a (.completed c) = some s') :
    Passes cfg s i (.completed c) s' := by
  rw [State.stepHandshake] at h
  split at h
  · cases h
    obtain ⟨k', hinstalled, hplain⟩ := State.installed_eq s i t c
    rw [hinstalled]
    exact .pending s.pending t (.plain hplain)
  · split at h
    · obtain ⟨new, hrefuse, hnew⟩ := State.refuse_eq cfg s c
      rw [hrefuse] at h
      cases h
      refine ⟨s.pending, new, { call := .done }, .done, rfl, fun e he => ?_, trivial⟩
      rcases hnew e he with rfl | ⟨token, rfl⟩
      · rfl
      · rfl
    · next hadmitted =>
      cases h
      refine .pending s.pending t ⟨fun c' hc => .inl hc, fun c' hc => .inr ?_⟩
      cases hc
      exact Bool.not_eq_true _ ▸ hadmitted

/-- What a step of a handshake does: nothing to a session, or it swaps the keys of one, makes one, or erases one. -/
theorem stepHandshake_effect (h : s.stepHandshake cfg i t now a k = some s') :
    Passes cfg s i k s' ∨
      (∃ c sid se, k = .swapping c sid ∧ s.heap[sid]? = some se ∧ se.sessionMu = none ∧
        s' = ((s.setSession sid (se.installRenegotiated c.result.sendCipher c.result.recvCipher
        c.result.peerFingerprint now)).note (.installed c.peer c.result.peerFingerprint)).installed i t c) ∨
      (∃ c, k = .creating c ∧ s' = ((s.putSession
        { peer := c.peer, sendCipher := c.result.sendCipher, recvCipher := c.result.recvCipher,
          peerFingerprint := c.result.peerFingerprint, renegotiatedAt := now }).note
        (.installed c.peer c.result.peerFingerprint)).installed i t c) ∨
      ∃ peer, k = .erasing peer ∧ s' = ((s.eraseSession peer).noteIf cfg.resetHook (.reset peer)).finish i := by
  cases k with
  | requesting peer =>
    rw [State.stepHandshake] at h
    split at h
    · cases h
      exact .inl (.finish s.pending)
    · split at h
      · cases h
        exact .inl (.pending s.pending t (.plain rfl))
      · cases h
        exact .inl (.noteIf rfl)
  | starting peer => exact .inl (stepHandshake_starting h)
  | authenticating r => exact .inl (stepHandshake_authenticating h)
  | opener r =>
    rw [State.stepHandshake] at h
    split at h
    · cases h
      exact .inl (.finish s.pending)
    · cases h
      exact .inl (.pending s.pending t (.plain rfl))
  | admitted r =>
    rw [State.stepHandshake] at h
    split at h
    · cases h
      exact .inl (.pending _ t (.plain rfl))
    · cases h
      exact .inl (.finish s.pending)
  | reserved r =>
    cases h
    exact .inl (.pending s.pending t (.plain rfl))
  | driving d => exact .inl (stepHandshake_driving h)
  | anonymous token engine => exact .inl (stepHandshake_anonymous h)
  | completed c => exact .inl (stepHandshake_completed h)
  | installing c =>
    rw [State.stepHandshake] at h
    split at h <;> cases h <;>
      exact .inl (.pending s.pending t ⟨fun c' hc => .inl hc, fun c' hc => .inl hc⟩)
  | swapping c sid =>
    obtain ⟨se, hse, h⟩ := Option.bind_eq_some_iff.mp h
    split at h
    · cases h
    · next hfree =>
      cases h
      exact .inr (.inl ⟨c, sid, se, rfl, hse, Option.not_isSome_iff_eq_none.mp hfree, rfl⟩)
  | creating c =>
    cases h
    exact .inr (.inr (.inl ⟨c, rfl, rfl⟩))
  | binding token peer out =>
    rw [State.stepHandshake] at h
    split at h
    · cases h
      exact .inl (.note rfl)
    · split at h
      · cases h
      · split at h
        · cases h
          exact .inl (.note rfl)
        · cases h
          exact .inl ⟨s.pending, [.identified token peer], t, _, rfl, minor_singleton rfl, .plain rfl⟩
  | replying peer out =>
    cases h
    exact .inl (.noteIf rfl)
  | failed peer own initiatedHere =>
    rw [State.stepHandshake] at h
    split at h
    · cases h
      exact .inl (.pending s.pending t (.plain rfl))
    · cases h
      exact .inl (.noteIf rfl)
  | erasing peer =>
    cases h
    exact .inr (.inr (.inr ⟨peer, rfl, rfl⟩))

end

namespace Sample

def clear : Aead := { seal_ := fun _ _ plaintext => plaintext, open_ := fun _ _ sealed_ => some sealed_ }

def node : Config := { self_ := 1, handshake := true, aead := fun _ => clear }

def certificate (n : UInt8) : Fingerprint := ⟨List.replicate 32 n, Swim.fingerprint_length n⟩

def result (peer : NodeId) (fp : Fingerprint) : Result :=
  { sendCipher := 1, recvCipher := 2, peerFingerprint := fp, peerNodeId := peer, peerClusterId := 0 }

/-- Node 1 opens a handshake with `peer`: thread `i` takes its steps. -/
def opening (i : Nat) (l : Label) (n : Nat) : List Label := l :: List.replicate n (.go i 0 (.want [1]))

/-- The answer of `peer` comes in and completes the handshake: thread `i`. -/
def answered (i : Nat) (peer : NodeId) (fp : Fingerprint) : List Label :=
  .receive { frame := authenticateFrame peer 1 [2] } 0 :: List.replicate 6 (.go i 0 (.done (result peer fp) []))

def sends (i : Nat) (peer : NodeId) : List Label :=
  .send peer { authenticateFrame 1 peer [] with kind := FrameKind.data } :: List.replicate 3 (.go i 0 .failed)

end Sample

end Quark.Secure
