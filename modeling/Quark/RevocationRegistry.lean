import Quark.ControlFrames

/-! The locked sections of `revocation_registry.hpp`, and the threads that run between them. -/
namespace Quark.Revocation

open List Bytes
open Swim (Fingerprint)

abbrev AnchorKeyId := { id : List UInt8 // id.length = 32 }

structure SignedRevocation where
  cluster : UInt64
  fingerprint : Fingerprint
  notAfter : UInt64
  issuedAt : UInt64
  anchorKeyId : AnchorKeyId
  signature : List UInt8
  deriving DecidableEq

def kRevocationDomain : List UInt8 :=
  [0x51, 0x55, 0x41, 0x52, 0x4B, 0x2D, 0x52, 0x45, 0x56, 0x4F, 0x4B, 0x45, 0x2D, 0x76, 0x31, 0x00]

def kRevocationSignedBytes : Nat := 104
def kMaxRevocationSignatureBytes : Nat := 72
def kMaxSignedRevocationWireBytes : Nat := kRevocationSignedBytes + 1 + kMaxRevocationSignatureBytes

def revocationSignedBytes (r : SignedRevocation) : List UInt8 :=
  kRevocationDomain ++ (putU64 r.cluster ++ (r.fingerprint.val ++ (putU64 r.notAfter ++ (putU64 r.issuedAt ++
    r.anchorKeyId.val))))

def encodeSignedRevocation (r : SignedRevocation) : List UInt8 :=
  revocationSignedBytes r ++ UInt8.ofNat r.signature.length :: r.signature

def decodeSignedRevocation (bs : List UInt8) : Option SignedRevocation :=
  if h : bs.length < kRevocationSignedBytes + 1 ∨ kMaxSignedRevocationWireBytes < bs.length then none
  else if bs.take 16 ≠ kRevocationDomain then none
  else
    let sigLen := (bs.getD kRevocationSignedBytes 0).toNat
    if sigLen = 0 ∨ kMaxRevocationSignatureBytes < sigLen ∨ bs.length ≠ kRevocationSignedBytes + 1 + sigLen then none
    else some {
      cluster := getU64 (bs.drop 16)
      fingerprint := ⟨(bs.drop 24).take 32, by
        rw [length_take, length_drop]
        unfold kRevocationSignedBytes at h
        omega⟩
      notAfter := getU64 (bs.drop 56)
      issuedAt := getU64 (bs.drop 64)
      anchorKeyId := ⟨(bs.drop 72).take 32, by
        rw [length_take, length_drop]
        unfold kRevocationSignedBytes at h
        omega⟩
      signature := bs.drop (kRevocationSignedBytes + 1) }

/-- What a verifier answers at one moment; its roots change without the registry. -/
structure TrustAnchorVerifier where
  verify : AnchorKeyId → List UInt8 → List UInt8 → Bool
  isCurrentRoot : AnchorKeyId → Bool

def verifySignedRevocation (r : SignedRevocation) (cluster : UInt64) (v : TrustAnchorVerifier) : Bool :=
  if r.cluster ≠ cluster ∨ r.signature = [] ∨ kMaxRevocationSignatureBytes < r.signature.length then false
  else v.verify r.anchorKeyId (revocationSignedBytes r) r.signature

structure SignedRevocationLimits where
  maxSigned : Nat := 4096
  maxVerifiesPerMerge : Nat := 8
  verifyBurst : UInt32 := 32
  verifiesPerSecond : UInt32 := 32
  expirySkew : UInt64 := 300
  deriving DecidableEq

/-- A record selected for verification; `held` is the root of the copy that it may replace. -/
structure Candidate where
  rec_ : SignedRevocation
  held : Option AnchorKeyId := none
  deriving DecidableEq

inductive Apply
  | changed
  | unchanged
  | capFull
  deriving DecidableEq

inductive Errc
  | unavailable
  | validation
  | overloaded
  deriving DecidableEq

/-- `verifier` is whether one is installed. -/
structure RevocationRegistry where
  local_ : Finset Fingerprint := ∅
  gossiped : Finset Fingerprint := ∅
  signed : Table Fingerprint SignedRevocation := ∅
  order : List Fingerprint := []
  sampleCursor : Nat := 0
  protected_ : Finset Fingerprint := ∅
  maxEntries : Nat
  rejected : UInt64 := 0
  verifier : Bool := false
  cluster : UInt64 := 0
  limits : SignedRevocationLimits := {}
  tokens : UInt32 := 0
  lastRefill : UInt64 := 0
  lastPrune : UInt64 := 0
  signedRejected : UInt64 := 0
  signedCapRefused : UInt64 := 0
  signedExpired : UInt64 := 0
  signedDeferred : UInt64 := 0
  authorityOnly : Bool := false
  ignoredGossip : UInt64 := 0
  snapshot : Finset Fingerprint := ∅

def SignedRevocationLimits.expired (limits : SignedRevocationLimits) (rec_ : SignedRevocation)
    (now : UInt64) : Bool :=
  rec_.notAfter ≤ now && limits.expirySkew < now - rec_.notAfter

def rotates (v : TrustAnchorVerifier) (rec_ : SignedRevocation) (held : AnchorKeyId) : Bool :=
  v.isCurrentRoot rec_.anchorKeyId && !v.isCurrentRoot held

namespace RevocationRegistry

variable (reg : RevocationRegistry)

def union : Finset Fingerprint := reg.local_ ∪ reg.gossiped ∪ reg.signed.keys.toFinset

def republish : RevocationRegistry := { reg with snapshot := reg.union }

def isRevoked (fp : Fingerprint) : Bool :=
  fp ∈ reg.local_ || fp ∈ reg.gossiped || (reg.signed.lookup fp).isSome

def protect (fp : Fingerprint) : RevocationRegistry := { reg with protected_ := insert fp reg.protected_ }

def setAuthorityOnly (on : Bool) : RevocationRegistry := { reg with authorityOnly := on }

def mergeOne (acc : Bool × RevocationRegistry) (fp : Fingerprint) : Bool × RevocationRegistry :=
  if acc.2.isRevoked fp then acc
  else if fp ∈ acc.2.protected_ ∨ acc.2.maxEntries ≤ acc.2.gossiped.card then
    (acc.1, { acc.2 with rejected := acc.2.rejected + 1 })
  else (true, { acc.2 with gossiped := insert fp acc.2.gossiped })

def merge (incoming : List Fingerprint) : Bool × RevocationRegistry :=
  if incoming = [] then (false, reg)
  else if reg.verifier then (false, { reg with rejected := reg.rejected + UInt64.ofNat incoming.length })
  else if reg.authorityOnly then (false,
    { reg with ignoredGossip := reg.ignoredGossip + UInt64.ofNat incoming.length })
  else
    let acc := incoming.foldl mergeOne (false, reg)
    if acc.1 then (true, acc.2.republish) else acc

def revokeLocally (fp : Fingerprint) : RevocationRegistry :=
  if fp ∈ reg.local_ then reg else { reg with local_ := insert fp reg.local_ }.republish

/-- `verifier` is whether the caller passes one. -/
def enableSigned (verifier : Bool) (cluster : UInt64) (limits : SignedRevocationLimits) :
    Except Errc Unit × RevocationRegistry :=
  if verifier = false then (.error .validation, reg)
  else if limits.maxSigned = 0 ∨ limits.maxVerifiesPerMerge = 0 ∨ limits.verifyBurst = 0 ∨
      limits.verifiesPerSecond = 0 then (.error .validation, reg)
  else if reg.verifier then (.error .validation, reg)
  else (.ok (), { reg with
    verifier := true, cluster, limits, tokens := limits.verifyBurst, gossiped := ∅ }.republish)

def apply (c : Candidate) (now : UInt64) : Apply × RevocationRegistry :=
  if reg.limits.expired c.rec_ (max now reg.lastPrune) then (.unchanged, reg)
  else match reg.signed.lookup c.rec_.fingerprint with
    | some copy =>
      if c.held = some copy.anchorKeyId then
        (.unchanged, { reg with signed := reg.signed.insert c.rec_.fingerprint c.rec_ })
      else (.unchanged, reg)
    | none =>
      if reg.limits.maxSigned ≤ reg.signed.size then (.capFull, reg)
      else (.changed, { reg with
        signed := reg.signed.insert c.rec_.fingerprint c.rec_, order := reg.order ++ [c.rec_.fingerprint] })

def refill (now : UInt64) : RevocationRegistry :=
  if now < reg.lastRefill then { reg with lastRefill := now }
  else
    let elapsed := now - reg.lastRefill
    if reg.limits.verifyBurst.toUInt64 ≤ elapsed then { reg with lastRefill := now, tokens := reg.limits.verifyBurst }
    else { reg with
      lastRefill := now
      tokens := (min reg.limits.verifyBurst.toUInt64
        (reg.tokens.toUInt64 + elapsed * reg.limits.verifiesPerSecond.toUInt64)).toUInt32 }

/-- The first locked section of `revoke`: an answer, or the candidate to verify. -/
def revokeSelect (rec_ : SignedRevocation) (now : UInt64) : Except Errc (Option Candidate) :=
  if reg.verifier = false then .error .unavailable
  else if reg.limits.expired rec_ now then .error .validation
  else match reg.signed.lookup rec_.fingerprint with
    | some copy =>
      if copy.anchorKeyId = rec_.anchorKeyId then .ok none else .ok (some ⟨rec_, some copy.anchorKeyId⟩)
    | none => if reg.limits.maxSigned ≤ reg.signed.size then .error .overloaded else .ok (some ⟨rec_, none⟩)

/-- The last locked section of `revoke`. -/
def revokeApply (c : Candidate) (now : UInt64) : Except Errc Unit × RevocationRegistry :=
  match reg.apply c now with
  | (.changed, reg) => (.ok (), reg.republish)
  | (.unchanged, reg) => (.ok (), reg)
  | (.capFull, reg) => (.error .overloaded, reg)

/-- The loop of the first locked section of `merge_signed`. -/
structure Selection where
  reg : RevocationRegistry
  seen : List Fingerprint := []
  newEntries : Nat := 0
  candidates : List Candidate := []

def selectHeld (sel : Selection) (rec_ : SignedRevocation) (held : Option AnchorKeyId) : Selection :=
  if sel.reg.limits.maxVerifiesPerMerge ≤ sel.candidates.length ∨ sel.reg.tokens = 0 then
    { sel with reg := { sel.reg with signedDeferred := sel.reg.signedDeferred + 1 } }
  else { sel with
    reg := { sel.reg with tokens := sel.reg.tokens - 1 }
    newEntries := if held.isNone then sel.newEntries + 1 else sel.newEntries
    candidates := sel.candidates ++ [⟨rec_, held⟩] }

def selectRecord (now : UInt64) (sel : Selection) (rec_ : SignedRevocation) : Selection :=
  if rec_.fingerprint ∈ sel.seen then sel
  else
    let sel := { sel with seen := rec_.fingerprint :: sel.seen }
    if sel.reg.limits.expired rec_ now then
      { sel with reg := { sel.reg with signedExpired := sel.reg.signedExpired + 1 } }
    else match sel.reg.signed.lookup rec_.fingerprint with
      | some copy => if copy.anchorKeyId = rec_.anchorKeyId then sel else selectHeld sel rec_ (some copy.anchorKeyId)
      | none =>
        if sel.reg.limits.maxSigned ≤ sel.reg.signed.size + sel.newEntries then
          { sel with reg := { sel.reg with signedCapRefused := sel.reg.signedCapRefused + 1 } }
        else selectHeld sel rec_ none

def selectBlob (now : UInt64) (sel : Selection) (blob : List UInt8) : Selection :=
  let refused := { sel with reg := { sel.reg with signedRejected := sel.reg.signedRejected + 1 } }
  match decodeSignedRevocation blob with
  | none => refused
  | some rec_ => if rec_.cluster ≠ sel.reg.cluster then refused else selectRecord now sel rec_

/-- The first locked section of `merge_signed`; `none` without a verifier. -/
def mergeSelect (blobs : List (List UInt8)) (now : UInt64) : Option (List Candidate) × RevocationRegistry :=
  if reg.verifier = false then (none, reg)
  else
    let sel := blobs.foldl (selectBlob now) { reg := reg.refill now }
    (some sel.candidates, sel.reg)

def applyVerified (now : UInt64) (acc : Bool × RevocationRegistry) (c : Candidate) : Bool × RevocationRegistry :=
  match acc.2.apply c now with
  | (.changed, reg) => (true, reg)
  | (.unchanged, reg) => (acc.1, reg)
  | (.capFull, reg) => (acc.1, { reg with signedCapRefused := reg.signedCapRefused + 1 })

/-- The last locked section of `merge_signed`. -/
def mergeApply (verified : List Candidate) (bad : UInt64) (refund : UInt32) (now : UInt64) :
    Bool × RevocationRegistry :=
  let reg := { reg with
    signedRejected := reg.signedRejected + bad
    tokens := (min reg.limits.verifyBurst.toUInt64 (reg.tokens.toUInt64 + refund.toUInt64)).toUInt32 }
  let acc := verified.foldl (applyVerified now) (false, reg)
  if acc.1 then (true, acc.2.republish) else acc

/-- `none` where `signed_.at` throws. -/
def sampleSigned (max : Nat) : Option (List (List UInt8) × RevocationRegistry) :=
  let n := min max reg.order.length
  if n = 0 then some ([], reg)
  else
    let start := reg.sampleCursor % reg.order.length
    ((List.range n).mapM fun i =>
      (reg.order[(start + i) % reg.order.length]?.bind reg.signed.lookup).map encodeSignedRevocation).map fun out =>
        (out, { reg with sampleCursor := (start + n) % reg.order.length })

def pruneExpired (now : UInt64) : Nat × RevocationRegistry :=
  let signed := reg.signed.eraseIf fun _ rec_ => reg.limits.expired rec_ now
  let pruned := reg.signed.size - signed.size
  let reg := { reg with lastPrune := max reg.lastPrune now, signed }
  if pruned ≠ 0 then (pruned, { reg with order := reg.order.filter fun fp => (signed.lookup fp).isSome }.republish)
  else (pruned, reg)

end RevocationRegistry

/-- Where one call of `revoke` or `merge_signed` is. -/
inductive Call
  | idle
  | revoke (c : Candidate) (cluster now : UInt64)
  | revokeVerified (c : Candidate) (now : UInt64)
  | revokeBad
  | merge (todo verified : List Candidate) (bad : UInt64) (refund : UInt32) (cluster now : UInt64)
  | revoked (r : Except Errc Unit)
  | merged (changed : Bool)

structure State where
  reg : RevocationRegistry
  calls : Nat → Call := fun _ => .idle

def State.initial (maxEntries : Nat) : State := { reg := RevocationRegistry.republish { maxEntries } }

def State.setCall (s : State) (i : Nat) (c : Call) : State := { s with calls := Function.update s.calls i c }

/-- `verify` is a step outside the lock: the next check of a call, with what the verifier answers then. -/
inductive Label
  | protect (fp : Fingerprint)
  | setAuthorityOnly (on : Bool)
  | merge (incoming : List Fingerprint)
  | revokeLocally (fp : Fingerprint)
  | enableSigned (verifier : Bool) (cluster : UInt64) (limits : SignedRevocationLimits)
  | revoke (i : Nat) (rec_ : SignedRevocation) (now : UInt64)
  | mergeSigned (i : Nat) (blobs : List (List UInt8)) (now : UInt64)
  | verify (i : Nat) (v : TrustAnchorVerifier)
  | apply (i : Nat)
  | sampleSigned (max : Nat)
  | pruneExpired (now : UInt64)

def Candidate.wanted (v : TrustAnchorVerifier) (c : Candidate) : Bool := c.held.all (rotates v c.rec_)

def Call.verify (v : TrustAnchorVerifier) : Call → Option Call
  | .revoke c cluster now =>
    if !c.wanted v then some (.revoked (.ok ()))
    else if verifySignedRevocation c.rec_ cluster v then some (.revokeVerified c now)
    else some .revokeBad
  | .merge (c :: todo) verified bad refund cluster now =>
    if !c.wanted v then some (.merge todo verified bad (refund + 1) cluster now)
    else if verifySignedRevocation c.rec_ cluster v then some (.merge todo (verified ++ [c]) bad refund cluster now)
    else some (.merge todo verified (bad + 1) refund cluster now)
  | _ => none

def Call.apply (reg : RevocationRegistry) : Call → Option (Call × RevocationRegistry)
  | .revokeVerified c now => some (.revoked (reg.revokeApply c now).1, (reg.revokeApply c now).2)
  | .revokeBad => some (.revoked (.error .validation), { reg with signedRejected := reg.signedRejected + 1 })
  | .merge [] verified bad refund _ now =>
    some (.merged (reg.mergeApply verified bad refund now).1, (reg.mergeApply verified bad refund now).2)
  | _ => none

def Call.selected (reg : RevocationRegistry) (now : UInt64) : Except Errc (Option Candidate) → Call
  | .error e => .revoked (.error e)
  | .ok none => .revoked (.ok ())
  | .ok (some c) => .revoke c reg.cluster now

def step (s : State) : Label → Option State
  | .protect fp => some { s with reg := s.reg.protect fp }
  | .setAuthorityOnly on => some { s with reg := s.reg.setAuthorityOnly on }
  | .merge incoming => some { s with reg := (s.reg.merge incoming).2 }
  | .revokeLocally fp => some { s with reg := s.reg.revokeLocally fp }
  | .enableSigned verifier cluster limits => some { s with reg := (s.reg.enableSigned verifier cluster limits).2 }
  | .revoke i rec_ now =>
    match s.calls i with
    | .idle => some (s.setCall i (.selected s.reg now (s.reg.revokeSelect rec_ now)))
    | _ => none
  | .mergeSigned i blobs now =>
    match s.calls i with
    | .idle =>
      if blobs = [] then some (s.setCall i (.merged false))
      else match s.reg.mergeSelect blobs now with
        | (none, reg) => some ({ s with reg }.setCall i (.merged false))
        | (some todo, reg) => some ({ s with reg }.setCall i (.merge todo [] 0 0 s.reg.cluster now))
    | _ => none
  | .verify i v => ((s.calls i).verify v).map (s.setCall i)
  | .apply i => ((s.calls i).apply s.reg).map fun r => { s with reg := r.2 }.setCall i r.1
  | .sampleSigned max => (s.reg.sampleSigned max).map fun r => { s with reg := r.2 }
  | .pruneExpired now => some { s with reg := (s.reg.pruneExpired now).2 }

end Quark.Revocation
