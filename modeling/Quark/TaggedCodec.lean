import Quark.DescribedType

/-! The canonical tagged codec of `wire.hpp` over described types, and the durable records of `serialize.hpp` and
`snapshot.hpp` around it: three passes, for the size, the bytes and the value. -/
namespace Quark.Wire

open Bytes

def zigzag (v : BitVec 64) : BitVec 64 := (v <<< 1) ^^^ v.sshiftRight 63

def unzigzag (u : BitVec 64) : BitVec 64 := (u >>> 1) ^^^ (~~~(u &&& 1) + 1)

def word (v : BitVec 64) : UInt64 := .ofBitVec v

def Integral.toWord : (u : Integral) → u.Val → UInt64
  | .bool, b => if b then 1 else 0
  | .int _ signed, m => word (if signed then m.signExtend 64 else m.setWidth 64)

def Integral.ofWord : (u : Integral) → UInt64 → u.Val
  | .bool, v => v != 0
  | .int w _, v => v.toBitVec.setWidth w.bits

def intToWord (w : Width) (signed : Bool) (m : BitVec w.bits) : UInt64 :=
  word (if signed then zigzag (m.signExtend 64) else m.setWidth 64)

def intOfWord (w : Width) (signed : Bool) (v : UInt64) : BitVec w.bits :=
  if signed then (unzigzag v.toBitVec).setWidth w.bits else v.toBitVec.setWidth w.bits

def keyOf (tag : UInt32) (t : Ty) : UInt64 := UInt64.ofNat (tag.toNat * 8 + wireTypeOf t)

/-! The size pass. -/

def ulebGroups : Nat → Nat → Nat
  | 0, _ => 0
  | n + 1, v => if v < 128 then 1 else ulebGroups n (v / 128) + 1

def ulebSize (v : UInt64) : Nat := ulebGroups 10 v.toNat

def prefixedSize (n : Nat) : Nat := ulebSize (UInt64.ofNat n) + n

mutual

def taggedValueSize : (t : Ty) → t.Val → Nat
  | .bool, _ => 1
  | .enum u, m => ulebSize (u.toWord m)
  | .double, _ => 8
  | .float, _ => 4
  | .int w signed, m => ulebSize (intToWord w signed m)
  | .string, m => prefixedSize m.length
  | .vector t, m => prefixedSize (m.map fun e => taggedValueSize t e).sum
  | .object _ _ fs, m => prefixedSize (taggedObjectSize fs m)

def taggedObjectSize : (fs : Fields) → fs.Val → Nat
  | .nil, _ => 0
  | .cons tag t rest, m => ulebSize (keyOf tag t) + taggedValueSize t m.1 + taggedObjectSize rest m.2

end

abbrev DescribedType.Obj (d : DescribedType) : Type := { x : d.Val // taggedObjectSize d.fields x < 2 ^ 64 }

/-! The write pass. -/

/-- A buffer of `cap` bytes and what was written into it. -/
structure ByteWriter where
  cap : Nat
  written : List UInt8 := []
  ok : Bool := true
  deriving DecidableEq, Repr

namespace ByteWriter

def putByte (w : ByteWriter) (b : UInt8) : Bool × ByteWriter :=
  if w.cap ≤ w.written.length then (false, { w with ok := false })
  else (true, { w with written := w.written ++ [b] })

def putBytes (w : ByteWriter) (bs : List UInt8) : Bool × ByteWriter :=
  if w.cap - w.written.length < bs.length then (false, { w with ok := false })
  else (true, { w with written := w.written ++ bs })

/-- One byte after another, until one does not fit. -/
def putEach (w : ByteWriter) : List UInt8 → Bool × ByteWriter
  | [] => (true, w)
  | b :: bs =>
    match w.putByte b with
    | (false, w) => (false, w)
    | (true, w) => putEach w bs

def putUleb (w : ByteWriter) (v : UInt64) : Bool × ByteWriter := w.putEach (Leb128.put v)

/-- The elements of a vector, until one does not fit. -/
def writeEach {α : Type} (write : α → ByteWriter → Bool × ByteWriter) (w : ByteWriter) : List α → Bool × ByteWriter
  | [] => (true, w)
  | e :: es =>
    match write e w with
    | (false, w) => (false, w)
    | (true, w) => writeEach write w es

/-- A step that is taken if the one before it went well. -/
def andThen (r : Bool × ByteWriter) (next : ByteWriter → Bool × ByteWriter) : Bool × ByteWriter :=
  if r.1 then next r.2 else r

end ByteWriter

mutual

def taggedWriteValue : (t : Ty) → t.Val → ByteWriter → Bool × ByteWriter
  | .bool, m, w => w.putUleb (bif m then 1 else 0)
  | .enum u, m, w => w.putUleb (u.toWord m)
  | .double, m, w => w.putBytes (putU64 (.ofBitVec m))
  | .float, m, w => w.putBytes (putU32 (.ofBitVec m))
  | .int wd signed, m, w => w.putUleb (intToWord wd signed m)
  | .string, m, w => ByteWriter.andThen (w.putUleb (UInt64.ofNat m.length)) fun w => w.putBytes m
  | .vector t, m, w =>
    ByteWriter.andThen (w.putUleb (UInt64.ofNat (m.map fun e => taggedValueSize t e).sum)) fun w =>
      ByteWriter.writeEach (taggedWriteValue t) w m
  | .object _ _ fs, m, w =>
    ByteWriter.andThen (w.putUleb (UInt64.ofNat (taggedObjectSize fs m))) fun w =>
      ((taggedWriteFields fs m w).ok, taggedWriteFields fs m w)

def taggedWriteFields : (fs : Fields) → fs.Val → ByteWriter → ByteWriter
  | .nil, _, w => w
  | .cons tag t rest, m, w =>
    taggedWriteFields rest m.2 (ByteWriter.andThen (w.putUleb (keyOf tag t)) fun w => taggedWriteValue t m.1 w).2

end

/-! The read pass. -/

/-- What the members make of a tag. -/
inductive Decoded (α : Type)
  | unknown
  | failed
  | read (m : α) (rest : List UInt8)

def Decoded.map {α β : Type} (f : α → β) : Decoded α → Decoded β
  | .unknown => .unknown
  | .failed => .failed
  | .read m rest => .read (f m) rest

def Decoded.ofOption {α : Type} : Option (α × List UInt8) → Decoded α
  | none => .failed
  | some r => .read r.1 r.2

/-- The loop of `tagged_read_object`. A round reads a byte at least, so as many rounds as bytes are enough. -/
def readFields {α : Type} (decode : UInt32 → α → List UInt8 → Decoded α) : Nat → α → List UInt8 → Option α
  | _, out, [] => some out
  | 0, _, _ :: _ => none
  | n + 1, out, b :: bs =>
    match Leb128.get (b :: bs) with
    | none => none
    | some (key, rest) =>
      match decode (UInt32.ofNat (key.toNat / 8)) out rest with
      | .failed => none
      | .read out rest => readFields decode n out rest
      | .unknown => (Tagged.skipValue (key.toNat % 8) rest).bind fun rest => readFields decode n out rest

/-- The loop over the elements of a vector, each of one byte at least. -/
def readEach {α : Type} (read : List UInt8 → Option (α × List UInt8)) : Nat → List α → List UInt8 → Option (List α)
  | _, done, [] => some done
  | 0, _, _ :: _ => none
  | n + 1, done, b :: bs => (read (b :: bs)).bind fun r => readEach read n (done ++ [r.1]) r.2

def readPrefixed {α : Type} (bs : List UInt8) (read : List UInt8 → Option α) : Option (α × List UInt8) :=
  match Leb128.get bs with
  | none => none
  | some (len, rest) =>
    if rest.length < len.toNat then none
    else (read (rest.take len.toNat)).map fun m => (m, rest.drop len.toNat)

mutual

def taggedReadValue (defaults : Defaults) : (t : Ty) → t.Val → List UInt8 → Option (t.Val × List UInt8)
  | .bool, _, bs => (Leb128.get bs).map fun r => (r.1 != 0, r.2)
  | .enum u, _, bs => (Leb128.get bs).map fun r => (u.ofWord r.1, r.2)
  | .double, _, bs => if bs.length < 8 then none else some ((getU64 bs).toBitVec, bs.drop 8)
  | .float, _, bs => if bs.length < 4 then none else some ((getU32 bs).toBitVec, bs.drop 4)
  | .int w signed, _, bs => (Leb128.get bs).map fun r => (intOfWord w signed r.1, r.2)
  | .string, _, bs => readPrefixed bs fun content => some content
  | .vector t, _, bs =>
    readPrefixed bs fun content =>
      readEach (fun bs => taggedReadValue defaults t (defaults t) bs) content.length [] content
  | .object _ _ fs, m, bs =>
    readPrefixed bs fun content => readFields (taggedReadField defaults fs) content.length m content

/-- `quark_describe` with a `TaggedFieldDecoder`: the first member with the tag takes the value. -/
def taggedReadField (defaults : Defaults) : (fs : Fields) → UInt32 → fs.Val → List UInt8 → Decoded fs.Val
  | .nil, _, _, _ => .unknown
  | .cons tag t rest, want, m, bs =>
    if tag = want then (Decoded.ofOption (taggedReadValue defaults t m.1 bs)).map fun v => (v, m.2)
    else (taggedReadField defaults rest want m.2 bs).map fun v => (m.1, v)

end

/-! The codec and the records. -/

/-- What `encode_tagged` returns, and what it leaves in a buffer of `cap` bytes. -/
def encodeTagged (d : DescribedType) (obj : d.Val) (cap : Nat) : Result Nat × List UInt8 :=
  let w := taggedWriteFields d.fields obj { cap }
  (if w.ok then .ok w.written.length else fail .serialization "encode buffer too small", w.written)

/-- The object that stands in `out` in the end. -/
def decodeTagged (defaults : Defaults) (d : DescribedType) (bs : List UInt8) (out : d.Val) : Result d.Val :=
  match readFields (taggedReadField defaults d.fields) bs.length out bs with
  | none => fail .serialization "malformed tagged stream"
  | some out => .ok out

def encodeRecord (d : DescribedType) (obj : d.Val) (type : TypeKey) (cap : Nat) : Result Nat × List UInt8 :=
  let key := ByteWriter.putBytes { cap } (putU64 type.value)
  if !key.1 then (fail .serialization "record buffer too small (header)", key.2.written)
  else
    let version := key.2.putBytes (putU32 d.schemaVersion)
    if !version.1 then (fail .serialization "record buffer too small (header)", version.2.written)
    else
      let w := taggedWriteFields d.fields obj version.2
      (if w.ok then .ok w.written.length else fail .serialization "record buffer too small (body)", w.written)

def durableHeaderSize : Nat := 12

def encodeDurable (d : DescribedType) (value : d.Val) : Result (List UInt8) :=
  let r := encodeRecord d value d.fingerprint (durableHeaderSize + taggedObjectSize d.fields value)
  r.1.map fun n => r.2.take n

def decodeRecord (defaults : Defaults) (d : DescribedType) (bs : List UInt8) : Result d.Val :=
  match peekRecordHeader bs with
  | .error err => .error err
  | .ok hdr =>
    if hdr.type ≠ d.fingerprint then
      fail .serialization "durable record type_key mismatch (decoding as the wrong type)"
    else decodeTagged defaults d (bs.drop durableHeaderSize) (defaults d.type)

abbrev decodeDurable := decodeRecord

end Quark.Wire
