import Mathlib.Tactic.IntervalCases
import Quark.Enrollment
import Quark.Lib.BitString
import Quark.Persistence

/-! The join code and the two enrolment messages of `enrol_wire.hpp`. A text is its bytes. -/
namespace Quark.Enrol

inductive WireStatus
  | issued
  | refused
  | retryLater
  | badCsr
  | issuanceFailed
  deriving DecidableEq

namespace WireStatus

def value : WireStatus → UInt8
  | issued => 0
  | refused => 1
  | retryLater => 2
  | badCsr => 3
  | issuanceFailed => 4

def ofValue (s : UInt8) : WireStatus :=
  match s.toNat with
  | 0 => issued
  | 1 => refused
  | 2 => retryLater
  | 3 => badCsr
  | _ => issuanceFailed

@[simp] theorem ofValue_value (s : WireStatus) : ofValue s.value = s := by
  cases s <;> rfl

theorem value_ofValue {s : UInt8} (h : s ≤ issuanceFailed.value) : (ofValue s).value = s := by
  have hs : s.toNat ≤ 4 := UInt8.le_iff_toNat_le.mp h
  apply UInt8.toNat_inj.mp
  unfold ofValue
  interval_cases s.toNat <;> rfl

theorem value_le (s : WireStatus) : s.value ≤ issuanceFailed.value := by
  cases s <;> decide

end WireStatus

namespace Wire

open Bytes

def kMaxCsrBytes : Nat := 4096
def kMaxChainBytes : Nat := 16384
def kJoinCodeBytes : Nat := 106
def kRequestKind : UInt8 := 1
def kReplyKind : UInt8 := 2

abbrev RootHash := { hash : List UInt8 // hash.length = 32 }

structure JoinCode where
  anchorAddr : UInt32
  anchorPort : UInt16
  anchorNode : Swim.NodeId
  cluster : UInt64
  caRootSha256 : RootHash
  ticketId : TicketId
  ticketSecret : TicketSecret
  deriving DecidableEq

def crcBit (c : UInt32) : UInt32 := (c >>> 1) ^^^ (0xEDB88320 &&& (0 - (c &&& 1)))

def crc32 (data : List UInt8) : UInt32 :=
  ~~~ data.foldl (fun c x => crcBit^[8] (c ^^^ x.toUInt32)) (0xFFFFFFFF : UInt32)

def kB32 : List UInt8 :=
  ['A', 'B', 'C', 'D', 'E', 'F', 'G', 'H', 'I', 'J', 'K', 'L', 'M', 'N', 'O', 'P', 'Q', 'R', 'S', 'T', 'U', 'V', 'W',
    'X', 'Y', 'Z', '2', '3', '4', '5', '6', '7'].map Char.toUInt8

/-- The character for the five low bits. -/
def letter (v : UInt32) : UInt8 := kB32.getD (v &&& 31).toNat 0

/-- The inner loop of `base32`: the characters that the held bits give, and how many bits stay. -/
def drain (acc : UInt32) : Nat → List UInt8 × Nat
  | bits + 5 =>
    let rest := drain acc bits
    (letter (acc >>> UInt32.ofNat bits) :: rest.1, rest.2)
  | bits => ([], bits)

def base32From (acc : UInt32) (bits : Nat) : List UInt8 → List UInt8
  | [] => if 0 < bits then [letter (acc <<< UInt32.ofNat (5 - bits))] else []
  | x :: rest =>
    let acc := (acc <<< 8) ||| x.toUInt32
    let out := drain acc (bits + 8)
    out.1 ++ base32From acc out.2 rest

def base32 (bytes : List UInt8) : List UInt8 := base32From 0 0 bytes

def digitValue (ch : UInt8) : Option UInt32 :=
  if 'A'.toUInt8 ≤ ch ∧ ch ≤ 'Z'.toUInt8 then some (ch - 'A'.toUInt8).toUInt32
  else if '2'.toUInt8 ≤ ch ∧ ch ≤ '7'.toUInt8 then some (26 + (ch - '2'.toUInt8).toUInt32)
  else none

def unbase32From (acc : UInt32) (bits : Nat) : List UInt8 → Option (List UInt8)
  | [] => if bits < 5 ∧ acc &&& ((1 <<< UInt32.ofNat bits) - 1) = 0 then some [] else none
  | ch :: rest => (digitValue ch).bind fun v =>
    let acc := (acc <<< 5) ||| v
    if 8 ≤ bits + 5 then
      (unbase32From acc (bits + 5 - 8) rest).map ((acc >>> UInt32.ofNat (bits + 5 - 8)).toUInt8 :: ·)
    else unbase32From acc (bits + 5) rest

def unbase32 (text : List UInt8) : Option (List UInt8) := unbase32From 0 0 text

def kMagic : List UInt8 := ['Q', 'J', 'C', '1'].map Char.toUInt8

def encodeJoinCodeBinary (c : JoinCode) : List UInt8 :=
  kMagic ++ (putU32 c.anchorAddr ++ (putU16 c.anchorPort ++ (putU64 c.anchorNode ++ (putU64 c.cluster ++
    (c.caRootSha256.val ++ (c.ticketId.val ++ c.ticketSecret.val))))))

def getU16 (bs : List UInt8) : UInt16 := UInt16.ofNat (leValue (bs.take 2))

/-- `copy_n` of `n` bytes from `off` on. -/
def copyN (b : List UInt8) (off n : Nat) (h : off + n ≤ b.length) : { bs : List UInt8 // bs.length = n } :=
  ⟨(b.drop off).take n, by
    rw [List.length_take, List.length_drop]
    omega⟩

def joinCodeAt (b : List UInt8) (h : b.length = kJoinCodeBytes) : JoinCode where
  anchorAddr := getU32 (b.drop 4)
  anchorPort := getU16 (b.drop 8)
  anchorNode := getU64 (b.drop 10)
  cluster := getU64 (b.drop 18)
  caRootSha256 := copyN b 26 32 (by rw [h]; decide)
  ticketId := copyN b 58 16 (by rw [h]; decide)
  ticketSecret := copyN b 74 32 (by rw [h]; decide)

def decodeJoinCodeBinary (b : List UInt8) : Result JoinCode :=
  if h : b.length = kJoinCodeBytes then
    if b.take 4 ≠ kMagic then fail .validation "join code: bad magic or version"
    else
      let c := joinCodeAt b h
      if c.anchorPort = 0 then fail .validation "join code: port 0"
      else if c.anchorNode = 0 then fail .validation "join code: anchor NodeId 0"
      else if c.anchorNode >>> 63 ≠ 0 then
        fail .validation "join code: the anchor must be a member, not a client id"
      else .ok c
  else fail .validation "join code: wrong length"

def groupedFrom (i : Nat) : List UInt8 → List UInt8
  | [] => []
  | ch :: rest =>
    if i ≠ 0 ∧ i % 8 = 0 then '-'.toUInt8 :: ch :: groupedFrom (i + 1) rest else ch :: groupedFrom (i + 1) rest

def encodeJoinCode (c : JoinCode) : List UInt8 :=
  let b := encodeJoinCodeBinary c
  groupedFrom 0 (base32 (b ++ putU32 (crc32 b)))

def upper (ch : UInt8) : UInt8 :=
  if 'a'.toUInt8 ≤ ch ∧ ch ≤ 'z'.toUInt8 then ch - 'a'.toUInt8 + 'A'.toUInt8 else ch

/-- What a typed code is read as: no dashes, no spaces, upper case. -/
def flattened (text : List UInt8) : List UInt8 :=
  (text.filter fun ch => ch ≠ '-'.toUInt8 ∧ ch ≠ ' '.toUInt8).map upper

def decodeJoinCode (text : List UInt8) : Result JoinCode :=
  if 4 * kJoinCodeBytes < text.length then fail .validation "join code: text too long"
  else match unbase32 (flattened text) with
    | none => fail .validation "join code: not base32"
    | some b =>
      if b.length ≠ kJoinCodeBytes + 4 then fail .validation "join code: wrong length"
      else if getU32 (b.drop kJoinCodeBytes) ≠ crc32 (b.take kJoinCodeBytes) then
        fail .validation "join code: checksum mismatch (typing error)"
      else decodeJoinCodeBinary (b.take kJoinCodeBytes)

def encodeRequest (r : EnrolRequest) : Result (List UInt8) :=
  if r.csrDer = [] ∨ kMaxCsrBytes < r.csrDer.length then fail .validation "enrol request: CSR size out of bounds"
  else .ok (kRequestKind :: (r.ticketId.val ++ (r.tag.val ++ (putU16 (UInt16.ofNat r.csrDer.length) ++ r.csrDer))))

def kFixed : Nat := 1 + 16 + 32 + 2

/-- The fields at their offsets. `source` is not on the wire: the receiving transport fills it from
the connection. -/
def requestAt (b : List UInt8) (h : kFixed ≤ b.length) : EnrolRequest where
  ticketId := copyN b 1 16 (le_trans (by decide) h)
  csrDer := b.drop kFixed
  tag := copyN b 17 32 (le_trans (by decide) h)
  source := []

def decodeRequest (b : List UInt8) : Result EnrolRequest :=
  if h : kFixed ≤ b.length then
    if b.headD 0 ≠ kRequestKind then fail .validation "enrol request: unknown kind"
    else
      let n := (getU16 (b.drop 49)).toNat
      if n = 0 ∨ kMaxCsrBytes < n then fail .validation "enrol request: CSR size out of bounds"
      else if b.length ≠ kFixed + n then fail .validation "enrol request: length mismatch or trailing bytes"
      else .ok (requestAt b h)
  else fail .validation "enrol request: truncated"

structure WireReply where
  status : WireStatus := .refused
  certChainDer : List UInt8 := []
  deriving DecidableEq

def encodeReply (r : WireReply) : Result (List UInt8) :=
  let form := kReplyKind :: r.status.value :: (putU16 (UInt16.ofNat r.certChainDer.length) ++ r.certChainDer)
  if r.status = .issued then
    if r.certChainDer = [] ∨ kMaxChainBytes < r.certChainDer.length then
      fail .validation "enrol reply: chain size out of bounds"
    else .ok form
  else if r.certChainDer ≠ [] then fail .validation "enrol reply: only an Issued reply carries a chain"
  else .ok form

def decodeReply (b : List UInt8) : Result WireReply :=
  if b.length < 4 then fail .validation "enrol reply: truncated"
  else if b.headD 0 ≠ kReplyKind then fail .validation "enrol reply: unknown kind"
  else
    let s := b.getD 1 0
    if WireStatus.issuanceFailed.value < s then fail .validation "enrol reply: unknown status"
    else
      let n := (getU16 (b.drop 2)).toNat
      if kMaxChainBytes < n then fail .validation "enrol reply: chain size out of bounds"
      else if b.length ≠ 4 + n then fail .validation "enrol reply: length mismatch or trailing bytes"
      else if WireStatus.ofValue s = .issued ∧ n = 0 then fail .validation "enrol reply: Issued without a chain"
      else if WireStatus.ofValue s ≠ .issued ∧ n ≠ 0 then
        fail .validation "enrol reply: a refusal carries no chain"
      else .ok { status := .ofValue s, certChainDer := b.drop 4 }

end Wire

end Quark.Enrol
