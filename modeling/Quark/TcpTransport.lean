import Quark.FrameStreamFeed
import Quark.PeerSession

/-! Two `TcpTransport`s of `tcp_transport.hpp` that may dial each other, on the HELLO wire of version 2 and without
relays: what a node does at each event of its loop, and the connections between the two. A connection is known by its
dialer and the number of the dial, where the code has a descriptor. -/
namespace Quark.Tcp

open Function Bytes
open Net (MessageFrame FrameStream encodeFrame encodeFrameBody)
open Secure.FrameKind (data control authenticate)
open Swim (NodeId isClientNode)

def FrameKind.dialHint : UInt8 := 4

def helloMagic : UInt32 := 0x51524B31
def helloVersion : UInt16 := 2
def helloSize : Nat := 14
def helloVersionWindow : UInt16 := 1

def kHintHasOutbound : UInt8 := 1
def kHintHasEstablished : UInt8 := 2
def kHintEstablishedHasData : UInt8 := 4
def kHintEstablishedAged : UInt8 := 8
def kHintAccepted : UInt8 := 16

def has (flags bit : UInt8) : Bool := flags &&& bit != 0

inductive Side
  | left | right
  deriving DecidableEq, Repr

def Side.far : Side → Side
  | left => right
  | right => left

/-- A TCP connection. -/
structure LinkId where
  dialer : Side
  serial : Nat
  deriving DecidableEq, Repr

structure Options where
  /-- `add_peer` gave an endpoint for the other node -/
  endpoint : Bool := true
  maxFrameBody : UInt32 := 4194304
  maxOutboundDataBytes : Nat := 67108864
  maxOutboundControlBytes : Nat := 268435456
  supersedeWindowNs : Nat := 1000000000
  dialSettleTimeoutNs : Nat := 500000000
  backoffDelay : UInt32 → Nat := fun attempt => 20000000 * 2 ^ attempt.toNat

/-- Two nodes whose dials settle by hints. -/
structure Pair where
  id : Side → NodeId
  options : Side → Options
  distinct : id .left ≠ id .right
  settles : ∀ me, 0 < (options me).dialSettleTimeoutNs

def keepLocalDial (self peer : NodeId) : Bool :=
  if isClientNode self != isClientNode peer then isClientNode self else self < peer

def buildHello (self : NodeId) : List UInt8 := putU32 helloMagic ++ (putU16 helloVersion ++ putU64 self)

def checkHello (bs : List UInt8) : Option (NodeId × UInt16) :=
  let ver := UInt16.ofNat (leValue ((bs.drop 4).take 2))
  if getU32 bs ≠ helloMagic then none
  else if ver.toNat + helloVersionWindow.toNat < helloVersion.toNat then none
  else if helloVersion.toNat + helloVersionWindow.toNat < ver.toNat then none
  else some (getU64 (bs.drop 6), ver)

inductive St
  | connecting | open_ | backoff
  deriving DecidableEq, Repr

/-- `out` and `hint` are kept as the frames whose encoding the code keeps. -/
structure Conn where
  link : LinkId
  st : St := .connecting
  initiatedBySelf : Bool := false
  identified : Bool := false
  confirmed : Bool := false
  openMarked : Bool := false
  helloSent : Nat := 0
  helloIn : List UInt8 := []
  peerHelloRead : Bool := false
  out : Option MessageFrame := none
  outSent : Nat := 0
  input : FrameStream
  backoffAttempt : UInt32 := 0
  confirmedNs : Nat := 0
  peerHelloVersion : UInt16 := 1
  hint : Option MessageFrame := none
  hintSent : Nat := 0
  hintFlags : UInt8 := 0
  hintReceived : Bool := false
  settleArmed : Bool := false
  settleEpoch : UInt32 := 0
  appDataSent : Bool := false
  appDataReceived : Bool := false
  outIsData : Bool := false

namespace Conn

def dataBearing (c : Conn) : Bool := c.appDataSent || c.appDataReceived

def confirmedAged (o : Options) (now : Nat) (c : Conn) : Bool :=
  c.confirmed && c.confirmedNs != 0 && o.supersedeWindowNs ≤ now - c.confirmedNs

def hintCapable (c : Conn) : Bool := 2 ≤ helloVersion && 2 ≤ c.peerHelloVersion

def dialHintFlags (o : Options) (now : Nat) (e : Conn) : UInt8 :=
  if e.st = .backoff then 0
  else
    (if !e.confirmed && e.initiatedBySelf then kHintHasOutbound else 0) |||
      if e.confirmed then
        kHintHasEstablished ||| (if e.dataBearing then kHintEstablishedHasData else 0) |||
          (if e.confirmedAged o now then kHintEstablishedAged else 0)
      else 0

def outBytes (c : Conn) : List UInt8 := c.out.elim [] encodeFrame
def hintBytes (c : Conn) : List UInt8 := c.hint.elim [] encodeFrame

end Conn

/-- Frames in the place of their encodings; the totals the code counts along are those of what is queued. -/
structure PeerQueue where
  control : List MessageFrame := []
  data : List MessageFrame := []

namespace PeerQueue

def size (fs : List MessageFrame) : Nat := (fs.map fun f => (encodeFrame f).length).sum

def pushBack (q : PeerQueue) (f : MessageFrame) (isControl : Bool) : PeerQueue :=
  if isControl then { q with control := q.control ++ [f] } else { q with data := q.data ++ [f] }

def pushFrontControl (q : PeerQueue) (f : MessageFrame) : PeerQueue := { q with control := f :: q.control }

def popNext (q : PeerQueue) : Option MessageFrame × PeerQueue :=
  match q.control, q.data with
  | f :: control, _ => (some f, { q with control })
  | [], f :: data => (some f, { q with data })
  | [], [] => (none, q)

def purgeAuthenticate (q : PeerQueue) : PeerQueue := { q with control := q.control.filter (·.kind ≠ authenticate) }

end PeerQueue

/-- `salvage_out`: a loaded frame goes back to the front, of the control queue whatever its kind, unless it is
torn. -/
def PeerQueue.salvage (q : PeerQueue) (c : Conn) : PeerQueue :=
  match c.out with
  | some f => if c.outSent = 0 then q.pushFrontControl f else q
  | none => q

/-- What a call of `send_some` comes back with. -/
inductive SendResult
  | wrote (n : Nat)
  | wouldBlock
  | failed
  deriving DecidableEq, Repr

inductive Sent
  | done | blocked | dead
  deriving DecidableEq, Repr

/-- A connection that the election closed in the last step: for which other one, and whether the resident one
was aged. -/
structure Closing where
  link : LinkId
  kept : Option LinkId := none
  aged : Bool := false
  deriving DecidableEq, Repr

/-- A node. From `dials` on it is what happened on the connections: the bytes handed to the kernel and those
received, the frames put on each connection, those of the queue in the order in which they were begun, those
taken off the stream, what was sent and what the receiver was given. -/
structure Node where
  conn : Option Conn := none
  pendingIn : List Conn := []
  outq : PeerQueue := {}
  posted : Nat := 0
  /-- the timers that are armed, with what they look for and when they are due -/
  settleTimers : List (UInt32 × Nat) := []
  reconnectTimers : List Nat := []
  discardTimers : List (LinkId × Nat) := []
  settleTimeouts : List LinkId := []
  closings : List Closing := []
  dials : Nat := 0
  accepted : List LinkId := []
  wrote : LinkId → List UInt8 := fun _ => []
  read : LinkId → Nat := fun _ => 0
  put : LinkId → List MessageFrame := fun _ => []
  begun : List MessageFrame := []
  took : LinkId → List MessageFrame := fun _ => []
  sent : List MessageFrame := []
  received : List MessageFrame := []

/-- How far a loop of `send_some` over `size` bytes gets from `sent` on, and the results it leaves; without a
result the next call would block. -/
def sendLoop (size : Nat) : Nat → List SendResult → Nat × Sent × List SendResult
  | sent, script =>
    if size ≤ sent then (sent, .done, script)
    else
      match script with
      | [] => (sent, .blocked, [])
      | .wouldBlock :: script => (sent, .blocked, script)
      | .failed :: script => (sent, .dead, script)
      | .wrote n :: script =>
        if n = 0 then (sent, .blocked, script) else sendLoop size (sent + min n (size - sent)) script

/-- What a `flush` has done: the queue and the connection afterwards, the bytes the kernel took and the frames whose
first byte is among them. -/
structure Flushed where
  outq : PeerQueue
  conn : Conn
  bytes : List UInt8 := []
  begun : List MessageFrame := []
  result : Sent := .done

def loadNextFrame (q : PeerQueue) (c : Conn) : PeerQueue × Conn :=
  if c.outSent < c.outBytes.length then (q, c)
  else
    (q.popNext.2, { c with out := q.popNext.1, outSent := 0, outIsData := q.popNext.1.any (·.kind = data) })

def slice (bs : List UInt8) (from_ to_ : Nat) : List UInt8 := (bs.take to_).drop from_

/-- The frames of a confirmed connection, control first, and only whole ones in between. -/
def flushFrames : List SendResult → PeerQueue → Conn → Flushed
  | script, q, c =>
    let loaded := loadNextFrame q c
    let q := loaded.1
    let c := loaded.2
    match c.out, script with
    | none, _ => { outq := q, conn := c }
    | some _, [] => { outq := q, conn := c, result := .blocked }
    | some _, .wouldBlock :: _ => { outq := q, conn := c, result := .blocked }
    | some _, .failed :: _ => { outq := q, conn := c, result := .dead }
    | some f, .wrote n :: script =>
      if n = 0 then { outq := q, conn := c, result := .blocked }
      else
        let upTo := c.outSent + min n ((encodeFrame f).length - c.outSent)
        let more := flushFrames script q { c with outSent := upTo, appDataSent := c.appDataSent || c.outIsData }
        { more with
          bytes := slice (encodeFrame f) c.outSent upTo ++ more.bytes
          begun := (if c.outSent = 0 then [f] else []) ++ more.begun }

def flush (self : NodeId) (script : List SendResult) (q : PeerQueue) (c : Conn) : Flushed :=
  let (upTo, result, script) := sendLoop helloSize c.helloSent script
  let hello := slice (buildHello self) c.helloSent upTo
  let c := { c with helloSent := upTo }
  if result ≠ .done then { outq := q, conn := c, bytes := hello, result }
  else
    let (upTo, result, script) := sendLoop c.hintBytes.length c.hintSent script
    let hint := slice c.hintBytes c.hintSent upTo
    let c := { c with hintSent := upTo }
    if result ≠ .done then { outq := q, conn := c, bytes := hello ++ hint, result }
    else if c.confirmed then
      let more := flushFrames script q c
      { more with bytes := hello ++ (hint ++ more.bytes) }
    else { outq := q, conn := c, bytes := hello ++ hint }

namespace Node

def registered (n : Node) (l : LinkId) : Bool := n.conn.any fun c => c.link = l && c.st ≠ .backoff

def pending (n : Node) (l : LinkId) : Bool := n.pendingIn.any fun c => c.link = l

def lookup (n : Node) (l : LinkId) : Option Conn :=
  if n.registered l then n.conn else n.pendingIn.find? fun c => c.link = l

def store (n : Node) (c : Conn) : Node :=
  if n.registered c.link then { n with conn := some c }
  else { n with pendingIn := n.pendingIn.map fun p => if p.link = c.link then c else p }

def erasePending (n : Node) (l : LinkId) : Node := { n with pendingIn := n.pendingIn.filter fun p => p.link ≠ l }

/-- Take over what a `flush` has done, except for the connection. -/
def flushed (n : Node) (l : LinkId) (r : Flushed) : Node :=
  { n with
    outq := r.outq
    wrote := update n.wrote l (n.wrote l ++ r.bytes)
    put := update n.put l (n.put l ++ r.begun)
    begun := n.begun ++ r.begun }

def close (n : Node) (c : Closing) : Node := { n with closings := n.closings ++ [c] }

def receive (n : Node) (l : LinkId) (count : Nat) : Node := { n with read := update n.read l (n.read l + count) }

def salvageOut (n : Node) (c : Conn) : Node := { n with outq := n.outq.salvage c }

end Node

section

variable (p : Pair) (me : Side) (now : Nat)

def hintFrame (flags : UInt8) : MessageFrame :=
  { from_ := p.id me, to_ := p.id me.far, target := ⟨⟨0⟩, 0⟩, msgType := ⟨0⟩, mode := 0, kind := FrameKind.dialHint
    deadlineNs := 0, traceId := 0, principal := {}, payload := [flags] }

namespace Node

/-- The husk of a connection in `conns_`, and the timer that will redial. -/
def scheduleReconnect (n : Node) (c : Conn) : Node :=
  { n with
    conn := some
      { c with
        st := .backoff
        helloSent := 0
        peerHelloRead := false
        confirmed := false
        openMarked := false
        helloIn := []
        input := { c.input with buf := [] }
        peerHelloVersion := 1
        hint := none
        hintSent := 0
        hintFlags := 0
        hintReceived := false
        settleArmed := false
        settleEpoch := c.settleEpoch + 1
        appDataSent := false
        appDataReceived := false
        out := none
        outSent := 0
        outIsData := false
        backoffAttempt := c.backoffAttempt + 1 }
    reconnectTimers := n.reconnectTimers ++ [now + (p.options me).backoffDelay c.backoffAttempt] }

def handleDead (n : Node) (c : Conn) : Node :=
  let n := n.salvageOut c
  let n := { n with outq := if c.openMarked && c.identified then n.outq.purgeAuthenticate else n.outq }
  if n.pending c.link then n.erasePending c.link
  else if !n.registered c.link then n
  else if (p.options me).endpoint then n.scheduleReconnect p me now c
  else { n with conn := none, outq := {} }

def pump (script : List SendResult) (n : Node) (c : Conn) : Node :=
  let r := flush (p.id me) script n.outq c
  if r.result = .dead then (n.flushed c.link r).handleDead p me now r.conn else (n.flushed c.link r).store r.conn

def confirmConn (script : List SendResult) (n : Node) (c : Conn) : Node :=
  if c.confirmed then n.store c
  else
    n.pump p me now script
      { c with
        confirmed := true
        confirmedNs := now
        settleArmed := false
        settleEpoch := c.settleEpoch + 1
        openMarked := true
        st := if c.st = .connecting then .open_ else c.st }

def backoffUnconfirmed (n : Node) (c : Conn) : Node :=
  ((n.salvageOut c).close { link := c.link }).scheduleReconnect p me now
    { c with settleArmed := false, settleEpoch := c.settleEpoch + 1 }

def settle (script : List SendResult) (n : Node) (c : Conn) : Node :=
  if !c.initiatedBySelf || c.confirmed || !c.hintReceived || c.st = .backoff then n.store c
  else if has c.hintFlags (kHintAccepted ||| kHintEstablishedAged) then n.confirmConn p me now script c
  else if has c.hintFlags (kHintHasEstablished ||| kHintEstablishedHasData) then n.backoffUnconfirmed p me now c
  else if has c.hintFlags kHintHasOutbound then n.store c
  else n.confirmConn p me now script c

def confirmOrSettle (script : List SendResult) (n : Node) (c : Conn) : Node :=
  if !c.initiatedBySelf then n.confirmConn p me now script c
  else if !c.hintCapable || (p.options me).dialSettleTimeoutNs = 0 then n.confirmConn p me now script c
  else
    let c := { c with settleArmed := true, settleEpoch := c.settleEpoch + 1 }
    let n := { n with settleTimers := n.settleTimers ++ [(c.settleEpoch, now + (p.options me).dialSettleTimeoutNs)] }
    if c.hintReceived then n.settle p me now script c else n.store c

/-- The hint is on the connection and as much of it written as goes. -/
def queueDialHint (script : List SendResult) (n : Node) (c : Conn) (flags : UInt8) : Node × Flushed :=
  let hint := hintFrame p me flags
  let r := flush (p.id me) script n.outq { c with hint := some hint, hintSent := 0, hintFlags := flags }
  ({ n with put := update n.put c.link (n.put c.link ++ [hint]) }.flushed c.link r, r)

def closeRejectedPending (n : Node) (c : Conn) (resident : LinkId) : Node :=
  if c.hintBytes.length ≤ c.hintSent then
    (n.erasePending c.link).close { link := c.link, kept := some resident }
  else { n.store c with discardTimers := n.discardTimers ++ [(c.link, now + (p.options me).dialSettleTimeoutNs)] }

def install (n : Node) (c : Conn) : Node := { n.erasePending c.link with conn := some c }

def dropHusk (n : Node) : Node := if n.conn.any fun e => e.st = .backoff then { n with conn := none } else n

/-- The election between an accepted connection and the one that is there. -/
def elect (script : List SendResult) (n : Node) (c : Conn) (accepted aged : Bool) : Node × Bool :=
  match n.conn with
  | none =>
    let n := (n.install c).confirmConn p me now script c
    (n, n.registered c.link)
  | some e =>
    if !accepted then (n.closeRejectedPending p me now c e.link, false)
    else
      let n := (n.salvageOut e).close { link := e.link, kept := some c.link, aged }
      let n := (n.install c).confirmConn p me now script c
      (n, n.registered c.link)

/-- The decision about an accepted connection, which goes out in the hint before it takes effect. -/
def electInbound (s₁ s₂ : List SendResult) (n : Node) (c : Conn) : Node × Bool :=
  let n := n.dropHusk
  let flags := n.conn.elim 0 (Conn.dialHintFlags (p.options me) now)
  let established := has flags kHintHasEstablished
  let aged := has flags kHintEstablishedAged
  let bothInbound := n.conn.any fun e => !e.initiatedBySelf
  let reconnect := n.conn.isSome && (bothInbound || aged)
  let wantSelfInitiated := keepLocalDial (p.id me) (p.id me.far)
  let accepted := n.conn.isNone || reconnect || (!established && !wantSelfInitiated)
  if c.hintCapable then
    let (n, r) := n.queueDialHint p me s₁ c (flags ||| if accepted then kHintAccepted else 0)
    if r.result = .dead then (n.handleDead p me now r.conn, false)
    else n.elect p me now s₂ r.conn accepted aged
  else n.elect p me now s₂ c accepted aged

/-- A hello has been read. A dialled connection is always the one in `conns_` and has no rival. -/
def registerIdentified (admitted : Bool) (s₁ s₂ : List SendResult) (n : Node) (c : Conn) (peerVer : UInt16) :
    Node × Bool :=
  if !c.initiatedBySelf && !admitted then (n.handleDead p me now c, false)
  else
    let c := { c with identified := true, peerHelloVersion := peerVer }
    if c.initiatedBySelf then
      let n := n.confirmOrSettle p me now s₂ c
      (n, n.registered c.link)
    else n.electInbound p me now s₁ s₂ c

def applyDialHint (n : Node) (c : Conn) (f : MessageFrame) : Node × Conn :=
  if !c.initiatedBySelf || !c.identified || !c.hintCapable then (n, c)
  else if f.from_ ≠ p.id me.far ∨ f.to_ ≠ p.id me then (n, c)
  else
    match f.payload with
    | [flags] => ({ n with posted := n.posted + 1 }, { c with hintFlags := flags, hintReceived := true })
    | _ => (n, c)

def onFrame (nc : Node × Conn) (f : MessageFrame) : Node × Conn :=
  let n := { nc.1 with took := update nc.1.took nc.2.link (nc.1.took nc.2.link ++ [f]) }
  let c := nc.2
  if f.kind = FrameKind.dialHint then n.applyDialHint p me c f
  else
    (if f.from_ = p.id me.far then { n with received := n.received ++ [f] } else n,
      if f.kind = data ∧ c.identified = true then { c with appDataReceived := true } else c)

def feed (n : Node) (c : Conn) (bytes : List UInt8) : Node :=
  let (frames, stop, input) := c.input.feed bytes
  let (n, c) := frames.foldl (onFrame p me) (n.receive c.link bytes.length, { c with input })
  if stop.isSome then n.handleDead p me now c else n.store c

/-- What a receive gives; the rest of it is dropped with a connection that loses the election. -/
def doRead (admitted : Bool) (s₁ s₂ : List SendResult) (n : Node) (c : Conn) (bytes : List UInt8) : Node :=
  if c.peerHelloRead then n.feed p me now c bytes
  else
    let need := helloSize - c.helloIn.length
    let n := n.receive c.link (bytes.take need).length
    let c := { c with helloIn := c.helloIn ++ bytes.take need }
    if c.helloIn.length < helloSize then n.store c
    else
      match checkHello c.helloIn with
      | none => n.handleDead p me now c
      | some (learned, ver) =>
        if learned ≠ p.id me.far then n.handleDead p me now c
        else
          let (n, survives) :=
            n.registerIdentified p me now admitted s₁ s₂ { c with peerHelloRead := true, peerHelloVersion := ver } ver
          if survives then n.conn.elim n fun c => n.feed p me now c (bytes.drop need)
          else n.receive c.link (bytes.drop need).length

def socket (n : Node) : LinkId := ⟨me, n.dials⟩

def onAccept (n : Node) (l : LinkId) : Node :=
  let c : Conn := { link := l, st := .open_, input := FrameStream.create (p.options me).maxFrameBody }
  { n with pendingIn := n.pendingIn ++ [c] }

def dial (n : Node) : Node :=
  { n with
    conn := some
      { link := n.socket me, initiatedBySelf := true, identified := true
        input := FrameStream.create (p.options me).maxFrameBody }
    dials := n.dials + 1 }

def doReconnect (connects : Bool) (n : Node) : Node :=
  match n.conn with
  | some c =>
    if c.st ≠ .backoff then n
    else if !(p.options me).endpoint then { n with conn := none, outq := {} }
    else if !connects then n.scheduleReconnect p me now c
    else
      { n with
        conn := some { c with link := n.socket me, st := .connecting, initiatedBySelf := true, identified := true }
        dials := n.dials + 1 }
  | none => n

def ensureConn (connects : Bool) (n : Node) : Node :=
  if n.conn.isNone && (p.options me).endpoint && connects then n.dial p me else n

def enqueueTo (connects : Bool) (script : List SendResult) (n : Node) (f : MessageFrame) : Node :=
  let n := { n with sent := n.sent ++ [f] }.ensureConn p me connects
  match n.conn with
  | none => n
  | some c =>
    let cap := if f.kind = data then (p.options me).maxOutboundDataBytes else (p.options me).maxOutboundControlBytes
    let queued := if f.kind = data then PeerQueue.size n.outq.data
      else PeerQueue.size n.outq.control + PeerQueue.size n.outq.data
    if cap ≠ 0 ∧ queued ≠ 0 ∧ cap < queued + (encodeFrame f).length then n
    else
      let n := { n with outq := n.outq.pushBack f (f.kind = control) }
      if c.confirmed && c.st = .open_ then n.pump p me now script c else n

end Node

inductive Event
  | send (f : MessageFrame) (connects : Bool) (script : List SendResult)
  /-- the other node's dial is in the backlog of the listener; not `kept` where a cap is reached -/
  | accept (l : LinkId) (kept : Bool)
  | connected (l : LinkId) (script : List SendResult)
  | writable (l : LinkId) (script : List SendResult)
  | readable (l : LinkId) (n : Nat) (admitted : Bool) (s₁ s₂ : List SendResult)
  | reset (l : LinkId)
  | posted (script : List SendResult)
  | settleTimer (i : Nat) (script : List SendResult)
  | reconnectTimer (i : Nat) (connects : Bool)
  | discardTimer (i : Nat)

/-- A node at an event; `stream` is what the other end has written. -/
def Node.step (stream : LinkId → List UInt8) (dialled : Nat) (n : Node) : Event → Option Node
  | .send f connects script => some (n.enqueueTo p me now connects script f)
  | .accept l kept =>
    if l.dialer = me ∨ dialled ≤ l.serial ∨ l ∈ n.accepted then none
    else
      let n := { n with accepted := n.accepted ++ [l] }
      some (if kept then n.onAccept p me l else n)
  | .connected l script =>
    match n.lookup l with
    | some c =>
      if c.st ≠ .connecting then none else some (n.pump p me now script { c with st := .open_, openMarked := true })
    | none => none
  | .writable l script =>
    match n.lookup l with
    | some c => if c.st ≠ .open_ then none else some (n.pump p me now script c)
    | none => none
  | .readable l k admitted s₁ s₂ =>
    match n.lookup l with
    | some c =>
      let bytes := ((stream l).drop (n.read l)).take k
      if c.st ≠ .open_ ∨ bytes = [] then none else some (n.doRead p me now admitted s₁ s₂ c bytes)
    | none => none
  | .reset l => (n.lookup l).map (n.handleDead p me now)
  | .posted script =>
    if n.posted = 0 then none
    else
      let n := { n with posted := n.posted - 1 }
      some (n.conn.elim n fun c => if !c.initiatedBySelf || c.confirmed then n else n.settle p me now script c)
  | .settleTimer i script =>
    match n.settleTimers[i]? with
    | some (epoch, due) =>
      if now < due then none
      else
        let n := { n with settleTimers := n.settleTimers.eraseIdx i }
        some (n.conn.elim n fun c =>
          if c.settleEpoch ≠ epoch ∨ c.confirmed = true ∨ c.st = .backoff then n
          else { n with settleTimeouts := n.settleTimeouts ++ [c.link] }.confirmConn p me now script c)
    | none => none
  | .reconnectTimer i connects =>
    match n.reconnectTimers[i]? with
    | some due =>
      if now < due then none
      else some ({ n with reconnectTimers := n.reconnectTimers.eraseIdx i }.doReconnect p me now connects)
    | none => none
  | .discardTimer i =>
    match n.discardTimers[i]? with
    | some (l, due) =>
      if now < due then none
      else
        let n := { n with discardTimers := n.discardTimers.eraseIdx i }
        some (if n.pending l then (n.erasePending l).close { link := l } else n)
    | none => none

end

/-- The two nodes; the time is that of both. -/
structure Network where
  node : Side → Node := fun _ => {}
  now : Nat

inductive Label
  | event (x : Side) (e : Event)
  | tick (ns : Nat)

def step (p : Pair) (s : Network) : Label → Option Network
  | .event x e =>
    ({ s.node x with closings := [] }.step p x s.now (s.node x.far).wrote (s.node x.far).dials e).map fun n =>
      { s with node := fun y => if y = x then n else { s.node y with closings := [] } }
  | .tick ns => some { node := fun y => { s.node y with closings := [] }, now := s.now + ns }

end Quark.Tcp
