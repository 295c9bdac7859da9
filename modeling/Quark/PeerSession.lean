import Quark.ControlFrames
import Quark.EffectivelyOnce
import Quark.FrameStream

/-! The session with one peer, from `peer_session.hpp`, and how `secure_transport.hpp` seals and opens a frame
in it. -/
namespace Quark.Secure

open Bytes
open Net (MessageFrame Principal)
open Swim (NodeId isClientNode Fingerprint)

inductive Lane
  | data | control
  deriving DecidableEq, Repr

def Lane.index : Lane → UInt64
  | .data => 0
  | .control => 1

namespace FrameKind

def data : UInt8 := 0
def control : UInt8 := 1
def authenticate : UInt8 := 2
def schema : UInt8 := 3

end FrameKind

def laneOf (kind : UInt8) : Lane := if kind = FrameKind.control then .control else .data

/-- `Aead`: `open` gives the plaintext, or nothing where the tag does not verify. -/
structure Aead where
  seal_ : UInt64 → List UInt8 → List UInt8 → List UInt8
  open_ : UInt64 → List UInt8 → List UInt8 → Option (List UInt8)

/-- One cipher object; the sessions hold pointers to them. -/
abbrev Cipher := Nat

def nonceWord (lane : Lane) (seq : UInt64) : UInt64 := seq ||| lane.index <<< (63 : UInt64)

def nonceFor (src dst : NodeId) (lane : Lane) (seq : UInt64) : UInt64 :=
  splitmix64 (hashCombine src dst) ^^^ nonceWord lane seq

/-- The words of `build_aad`: every header field the receiver acts on. -/
def aadWords (clusterId : UInt64) (from_ to_ : NodeId) (f : MessageFrame) (lane : Lane)
    (seq : UInt64) : List UInt64 :=
  [clusterId, from_, to_, f.target.type.value, f.target.key, f.msgType.value, f.mode.toUInt64, f.kind.toUInt64,
    f.deadlineNs.toUInt64, f.traceId, f.principal.subject, f.principal.rights, lane.index, seq]

def buildAad (clusterId : UInt64) (from_ to_ : NodeId) (f : MessageFrame) (lane : Lane) (seq : UInt64) : List UInt8 :=
  (aadWords clusterId from_ to_ f lane seq).flatMap putU64

/-- `sessionMu` is the call that holds `session_mu`. -/
structure PeerSession where
  peer : NodeId
  sendCipher : Cipher
  recvCipher : Cipher
  peerFingerprint : Fingerprint
  renegotiatedAt : Int := 0
  sendSeq : Lane → UInt64 := fun _ => 0
  recvHigh : Lane → UInt64 := fun _ => 0
  revoked : Bool := false
  sessionMu : Option Nat := none

namespace PeerSession

variable (se : PeerSession)

def nextSendSeq (lane : Lane) : UInt64 × PeerSession :=
  let seq := se.sendSeq lane + 1
  (seq, { se with sendSeq := Function.update se.sendSeq lane seq })

def acceptRecvSeq (lane : Lane) (seq : UInt64) : Option PeerSession :=
  if seq ≤ se.recvHigh lane then none
  else some { se with recvHigh := Function.update se.recvHigh lane seq }

def installRenegotiated (sendCipher recvCipher : Cipher) (peerFingerprint : Fingerprint) (now : Int) : PeerSession :=
  { se with
    sendCipher, recvCipher, peerFingerprint, renegotiatedAt := now, sendSeq := fun _ => 0, recvHigh := fun _ => 0 }

def revoke : PeerSession := { se with revoked := true }

/-- Draw the sequence number and seal: the part of `send` under the session's lock. -/
def sealFrame (aead : Cipher → Aead) (clusterId : UInt64) (self_ to_ : NodeId) (f : MessageFrame) :
    PeerSession × MessageFrame :=
  let lane := laneOf f.kind
  let (seq, se') := se.nextSendSeq lane
  (se', { f with
    payload := putU64 seq ++ (aead se.sendCipher).seal_ (nonceFor self_ to_ lane seq)
      (buildAad clusterId self_ to_ f lane seq) f.payload })

/-- Open and check for a replay: the part of `deliver` under the session's lock. -/
def openFrame (aead : Cipher → Aead) (clusterId : UInt64) (self_ : NodeId) (f : MessageFrame) :
    Option (PeerSession × MessageFrame) :=
  let seq := getU64 f.payload
  let lane := laneOf f.kind
  match (aead se.recvCipher).open_ (nonceFor f.from_ self_ lane seq) (buildAad clusterId f.from_ self_ f lane seq)
      (f.payload.drop 8) with
  | none => none
  | some plaintext => (se.acceptRecvSeq lane seq).map fun se' => (se', { f with payload := plaintext })

variable {se} {se' : PeerSession} {lane : Lane} {seq : UInt64} {aead : Cipher → Aead} {clusterId : UInt64}
  {self_ : NodeId}
  {f f' : MessageFrame}

theorem acceptRecvSeq_spec (h : se.acceptRecvSeq lane seq = some se') :
    se.recvHigh lane < seq ∧ se' = { se with recvHigh := Function.update se.recvHigh lane seq } := by
  rw [acceptRecvSeq] at h
  split at h
  · cases h
  · next hlt =>
    cases h
    exact ⟨UInt64.not_le.mp hlt, rfl⟩

/-- What an accepted frame has passed: the tag over its header, and the replay guard. -/
theorem openFrame_spec (h : se.openFrame aead clusterId self_ f = some (se', f')) :
    ∃ plaintext, (aead se.recvCipher).open_ (nonceFor f.from_ self_ (laneOf f.kind) (getU64 f.payload))
        (buildAad clusterId f.from_ self_ f (laneOf f.kind) (getU64 f.payload)) (f.payload.drop 8) = some plaintext ∧
      se.acceptRecvSeq (laneOf f.kind) (getU64 f.payload) = some se' ∧ f' = { f with payload := plaintext } := by
  rw [openFrame] at h
  split at h
  · cases h
  · next plaintext hopen =>
    obtain ⟨_, haccept, heq⟩ := Option.map_eq_some_iff.mp h
    cases heq
    exact ⟨plaintext, hopen, haccept, rfl⟩

theorem openFrame_eq (h : se.openFrame aead clusterId self_ f = some (se', f')) :
    ∃ recvHigh, se' = { se with recvHigh } := by
  obtain ⟨_, -, haccept, -⟩ := openFrame_spec h
  exact ⟨_, (acceptRecvSeq_spec haccept).2⟩

end PeerSession

end Quark.Secure
