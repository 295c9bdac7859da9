import Quark.Lib.Bytes
import Quark.Lib.Machine
import Quark.Swim

/-! `Enrollment` of `enrollment.hpp`: its locked sections, and the presentations and completions that run
between them. -/
namespace Quark.Enrol

open Bytes
open Swim (NodeId isClientNode)

abbrev Ticks := UInt64
abbrev TicketId := { id : List UInt8 // id.length = 16 }
abbrev TicketSecret := { secret : List UInt8 // secret.length = 32 }
abbrev MacTag := { tag : List UInt8 // tag.length = 32 }

inductive Role
  | member
  | client
  deriving DecidableEq

structure Ticket where
  id : TicketId
  secret : TicketSecret
  role : Role
  expiresAt : Ticks

def kEnrolMacDomain : List UInt8 :=
  [0x51, 0x55, 0x41, 0x52, 0x4B, 0x2D, 0x45, 0x4E, 0x52, 0x4F, 0x4C, 0x2D, 0x76, 0x31, 0x00, 0x00]

def enrolMacMessage (cluster : UInt64) (id : TicketId) (csrDer : List UInt8) : List UInt8 :=
  kEnrolMacDomain ++ (id.val ++ (putU64 cluster ++ csrDer))

structure IssuedExpectation where
  cn : String
  spkiDer : List UInt8
  nowUnix : UInt64
  maxValidity : UInt64

/-- The verify-only crypto seam. -/
structure EnrolCrypto where
  hmacEqual : TicketSecret → List UInt8 → MacTag → Bool
  csrPublicKey : List UInt8 → Option (List UInt8)
  issuedOk : IssuedExpectation → List UInt8 → Bool

structure EnrolRequest where
  ticketId : TicketId
  csrDer : List UInt8
  tag : MacTag
  source : List UInt8

def kMaxSourceKey : Nat := 64

inductive Status
  | issued
  | rateLimited
  | unknownTicket
  | ticketUsed
  | attemptsExhausted
  | badMac
  | badCsr
  | busy
  | issuerFailed
  | issuedCertInvalid
  | timedOut
  | shutdown
  deriving DecidableEq

structure Reply where
  status : Status
  certChainDer : List UInt8 := []
  deriving DecidableEq

structure AuditRecord where
  ticketId : TicketId
  source : List UInt8
  role : Option Role := none
  assigned : Option NodeId := none
  status : Status := .unknownTicket
  deriving DecidableEq

structure IssueRequest where
  requestId : Nat
  ticketId : TicketId
  cluster : UInt64
  role : Role
  spkiDer : List UInt8
  source : List UInt8

structure Issued where
  node : NodeId
  certChainDer : List UInt8

structure Config where
  cluster : UInt64 := 0
  maxTickets : Nat := 1024
  maxTicketTtl : Ticks := 86400000000000
  maxAttemptsPerTicket : UInt32 := 5
  maxAttemptsPerSource : UInt32 := 20
  sourceWindow : Ticks := 60000000000
  maxSources : Nat := 4096
  maxPendingIssues : Nat := 64
  issueTimeout : Ticks := 60000000000
  maxValidity : UInt64 := 31536000

def since (now start : Ticks) : Ticks := if start < now then now - start else 0

structure TicketState where
  secret : TicketSecret
  role : Role
  expiresAt : Ticks
  attempts : UInt32 := 0
  consumed : Bool := false

structure SourceWindow where
  windowStart : Ticks
  attempts : UInt32 := 0

/-- `reply` is the presentation to be answered. -/
structure Pending where
  reply : Nat
  ticketId : TicketId
  role : Role
  spkiDer : List UInt8
  source : List UInt8
  started : Ticks

/-- `is_client_node` decides the prefix. -/
def formatQuarkCn (cluster : UInt64) (node : NodeId) : String :=
  (if isClientNode node then "quark-client:" else "quark:") ++ toString cluster.toNat ++ ":" ++ toString node.toNat

inductive Errc
  | validation
  | overloaded
  | unavailable
  | internal
  deriving DecidableEq

structure Shared where
  tickets : Table TicketId TicketState := ∅
  sources : Table (List UInt8) SourceWindow := ∅
  pending : Table Nat Pending := ∅
  nextRequestId : Nat := 0

namespace Shared

variable (cfg : Config) (sh : Shared)

def pendingFor (id : TicketId) : Bool := sh.pending.entries.any fun e => e.2.ticketId = id

def pruneTickets (now : Ticks) : Shared :=
  { sh with tickets := sh.tickets.eraseIf fun id t => t.expiresAt ≤ now || (t.consumed && !sh.pendingFor id) }

/-- `drawn` is what the random generator gives, if it gives anything. -/
def issueTicket (role : Role) (ttl now : Ticks) (drawn : Option (TicketId × TicketSecret)) :
    Except Errc Ticket × Shared :=
  if ttl = 0 ∨ cfg.maxTicketTtl < ttl then (.error .validation, sh)
  else match drawn with
    | none => (.error .unavailable, sh)
    | some (id, secret) =>
      let sh := sh.pruneTickets now
      if cfg.maxTickets ≤ sh.tickets.size then (.error .overloaded, sh)
      else match sh.tickets.lookup id with
        | some _ => (.error .internal, sh)
        | none => (.ok ⟨id, secret, role, now + ttl⟩,
            { sh with tickets := sh.tickets.insert id { secret, role, expiresAt := now + ttl } })

def revokeTicket (id : TicketId) : Bool × Shared :=
  match sh.tickets.lookup id with
  | none => (false, sh)
  | some t => if t.consumed then (false, sh) else (true, { sh with tickets := sh.tickets.erase id })

/-- `admit_source_locked`, for a source with a window. -/
def countSource (source : List UInt8) (w : SourceWindow) : Option Status × Shared :=
  if cfg.maxAttemptsPerSource ≤ w.attempts then (some .rateLimited, { sh with sources := sh.sources.insert source w })
  else (none, { sh with sources := sh.sources.insert source { w with attempts := w.attempts + 1 } })

def admitSource (source : List UInt8) (now : Ticks) : Option Status × Shared :=
  match sh.sources.lookup source with
  | some w => sh.countSource cfg source (if cfg.sourceWindow ≤ since now w.windowStart
      then { windowStart := now } else w)
  | none =>
    let sources := if cfg.maxSources ≤ sh.sources.size then
        sh.sources.eraseIf fun _ w => cfg.sourceWindow ≤ since now w.windowStart
      else sh.sources
    if cfg.maxSources ≤ sources.size then (some .rateLimited, { sh with sources })
    else { sh with sources }.countSource cfg source { windowStart := now }

/-- `reserve_attempt_locked`: a refusal, or the role and the secret; with the role that the audit record gets. -/
def reserveAttempt (id : TicketId) (now : Ticks) : Option Role × Except Status (Role × TicketSecret) × Shared :=
  match sh.tickets.lookup id with
  | none => (none, .error .unknownTicket, sh)
  | some t =>
    if t.expiresAt ≤ now then (none, .error .unknownTicket, sh)
    else if t.consumed then (some t.role, .error .ticketUsed, sh)
    else if cfg.maxAttemptsPerTicket ≤ t.attempts then (some t.role, .error .attemptsExhausted, sh)
    else if cfg.maxPendingIssues ≤ sh.pending.size then (some t.role, .error .busy, sh)
    else (some t.role, .ok (t.role, t.secret),
      { sh with tickets := sh.tickets.insert id { t with attempts := t.attempts + 1 } })

/-- The second locked section of `submit`: a refusal, or the number of the issuance. -/
def consume (i : Nat) (req : EnrolRequest) (now : Ticks) (role : Role) (spki : List UInt8) :
    Except Status Nat × Shared :=
  match sh.tickets.lookup req.ticketId with
  | none => (.error .unknownTicket, sh)
  | some t =>
    if t.expiresAt ≤ now then (.error .unknownTicket, sh)
    else if t.consumed then (.error .ticketUsed, sh)
    else if cfg.maxPendingIssues ≤ sh.pending.size then
      (.error .busy, { sh with tickets := sh.tickets.insert req.ticketId { t with attempts := t.attempts - 1 } })
    else (.ok (sh.nextRequestId + 1), { sh with
      tickets := sh.tickets.insert req.ticketId { t with consumed := true }
      nextRequestId := sh.nextRequestId + 1
      pending := sh.pending.insert (sh.nextRequestId + 1)
        { reply := i, ticketId := req.ticketId, role, spkiDer := spki, source := req.source, started := now } })

end Shared

/-- An audit record and a reply, on their way to the presentation `call`. -/
structure Answer where
  call : Nat
  rec_ : AuditRecord
  reply : Reply

/-- What `complete` makes of an outcome, outside the lock. -/
def Pending.complete (cfg : Config) (crypto : EnrolCrypto) (p : Pending) (outcome : Option Issued)
    (nowUnix : UInt64) : Answer :=
  let rec_ : AuditRecord :=
    { ticketId := p.ticketId, source := p.source, role := some p.role, status := .issuerFailed }
  match outcome with
  | none => ⟨p.reply, rec_, { status := .issuerFailed }⟩
  | some issued =>
    let rec_ := { rec_ with assigned := some issued.node }
    let roleOk := isClientNode issued.node = decide (p.role = .client)
    let expect : IssuedExpectation :=
      { cn := formatQuarkCn cfg.cluster issued.node, spkiDer := p.spkiDer, nowUnix, maxValidity := cfg.maxValidity }
    if ¬ roleOk ∨ crypto.issuedOk expect issued.certChainDer = false then
      ⟨p.reply, { rec_ with status := .issuedCertInvalid }, { status := .issuedCertInvalid }⟩
    else ⟨p.reply, { rec_ with status := .issued }, { status := .issued, certChainDer := issued.certChainDer }⟩

/-- What `expire` and `shutdown` answer. -/
def Pending.cut (status : Status) (p : Pending) : Answer :=
  ⟨p.reply, { ticketId := p.ticketId, source := p.source, role := some p.role, status }, { status }⟩

/-- Where a presentation is; `done` is behind `refuse` or the hand-off. -/
inductive Call
  | checking (req : EnrolRequest) (now : Ticks) (role : Role) (secret : TicketSecret)
  | consuming (req : EnrolRequest) (now : Ticks) (role : Role) (spki : List UInt8)
  | handing (r : IssueRequest)
  | done

/-- `answers` have left the lock and are not given yet. `log`, `issued`, `started`, `wrong` and `drawn` are what has
happened: the answers given, the issuances handed to the application and those begun, the wrong tags checked, the
tickets made. -/
structure State where
  shared : Shared := {}
  calls : List Call := []
  answers : List Answer := []
  down : Bool := false
  log : List Answer := []
  issued : List IssueRequest := []
  started : List TicketId := []
  wrong : List TicketId := []
  drawn : List TicketId := []

inductive Label
  | issueTicket (role : Role) (ttl now : Ticks) (drawn : Option (TicketId × TicketSecret))
  | revokeTicket (id : TicketId)
  | submit (req : EnrolRequest) (now : Ticks)
  | check (i : Nat)
  | consume (i : Nat)
  | handOff (i : Nat)
  | complete (id : Nat) (outcome : Option Issued) (nowUnix : UInt64)
  | expire (now : Ticks)
  | answer (k : Nat)
  | shutdown

def Call.isDone : Call → Bool
  | .done => true
  | _ => false

def EnrolRequest.audit (req : EnrolRequest) (role : Option Role) (status : Status) : AuditRecord :=
  { ticketId := req.ticketId, source := req.source, role, status }

namespace State

variable (cfg : Config) (crypto : EnrolCrypto) (s : State)

def refuse (i : Nat) (req : EnrolRequest) (role : Option Role) (status : Status) : State :=
  { s with calls := s.calls.set i .done, answers := s.answers ++ [⟨i, req.audit role status, { status }⟩] }

def issueTicket (role : Role) (ttl now : Ticks) (drawn : Option (TicketId × TicketSecret)) : State :=
  let r := s.shared.issueTicket cfg role ttl now drawn
  { s with
    shared := r.2
    drawn := match r.1 with
      | .ok t => s.drawn ++ [t.id]
      | .error _ => s.drawn }

/-- The first locked section of `submit`, for a new presentation. -/
def submit (req : EnrolRequest) (now : Ticks) : State :=
  let req := { req with source := req.source.take kMaxSourceKey }
  let i := s.calls.length
  let s : State := { s with calls := s.calls ++ [.done] }
  match s.shared.admitSource cfg req.source now with
  | (some status, shared) => { s with shared }.refuse i req none status
  | (none, shared) =>
    match shared.reserveAttempt cfg req.ticketId now with
    | (role, .error status, shared) => { s with shared }.refuse i req role status
    | (_, .ok (role, secret), shared) => { s with shared, calls := s.calls.set i (.checking req now role secret) }

def check (i : Nat) (req : EnrolRequest) (now : Ticks) (role : Role) (secret : TicketSecret) : State :=
  if crypto.hmacEqual secret (enrolMacMessage cfg.cluster req.ticketId req.csrDer) req.tag = false then
    { s with wrong := s.wrong ++ [req.ticketId] }.refuse i req (some role) .badMac
  else match crypto.csrPublicKey req.csrDer with
    | none => s.refuse i req (some role) .badCsr
    | some spki => { s with calls := s.calls.set i (.consuming req now role spki) }

def consume (i : Nat) (req : EnrolRequest) (now : Ticks) (role : Role) (spki : List UInt8) : State :=
  match s.shared.consume cfg i req now role spki with
  | (.error status, shared) => { s with shared }.refuse i req (some role) status
  | (.ok id, shared) => { s with
      shared
      calls := s.calls.set i (.handing ⟨id, req.ticketId, cfg.cluster, role, spki, req.source⟩)
      started := s.started ++ [req.ticketId] }

/-- An issuance is answered once: whoever takes it out of `pending` answers it. -/
def complete (id : Nat) (outcome : Option Issued) (nowUnix : UInt64) : State :=
  match s.shared.pending.lookup id with
  | none => s
  | some p => { s with
      shared := { s.shared with pending := s.shared.pending.erase id }
      answers := s.answers ++ [p.complete cfg crypto outcome nowUnix] }

def expire (now : Ticks) : State :=
  let sh := s.shared.pruneTickets now
  let late := fun p : Pending => decide (cfg.issueTimeout ≤ since now p.started)
  { s with
    shared := { sh with
      sources := sh.sources.eraseIf fun _ w => cfg.sourceWindow ≤ since now w.windowStart
      pending := sh.pending.eraseIf fun _ p => late p }
    answers := s.answers ++ ((sh.pending.entries.reverse.map Sigma.snd).filter late).map (Pending.cut .timedOut) }

def shutdown : State :=
  { s with
    shared := { s.shared with pending := ∅ }
    answers := s.answers ++ (s.shared.pending.entries.reverse.map Sigma.snd).map (Pending.cut .shutdown)
    down := true }

end State

/-- After `shutdown` only completions and answers are left; as every destructor it runs when no other call of
the object is under way. -/
def step (cfg : Config) (crypto : EnrolCrypto) (s : State) : Label → Option State
  | .issueTicket role ttl now drawn => if s.down then none else some (s.issueTicket cfg role ttl now drawn)
  | .revokeTicket id => if s.down then none else some { s with shared := (s.shared.revokeTicket id).2 }
  | .submit req now => if s.down then none else some (s.submit cfg req now)
  | .check i =>
    match s.calls[i]? with
    | some (.checking req now role secret) => some (s.check cfg crypto i req now role secret)
    | _ => none
  | .consume i =>
    match s.calls[i]? with
    | some (.consuming req now role spki) => some (s.consume cfg i req now role spki)
    | _ => none
  | .handOff i =>
    match s.calls[i]? with
    | some (.handing r) => some { s with calls := s.calls.set i .done, issued := s.issued ++ [r] }
    | _ => none
  | .complete id outcome nowUnix => some (s.complete cfg crypto id outcome nowUnix)
  | .expire now => if s.down then none else some (s.expire cfg now)
  | .answer k =>
    match s.answers[k]? with
    | some a => some { s with answers := s.answers.eraseIdx k, log := s.log ++ [a] }
    | none => none
  | .shutdown => if s.down ∨ s.calls.all Call.isDone = false then none else some s.shutdown

end Quark.Enrol
