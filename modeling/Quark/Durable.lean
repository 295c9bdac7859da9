import Quark.Lib.Bytes
import Quark.Lib.Leb128
import Quark.Persistence

/-! Durable records: the header and the tagged encoding of `describe.hpp`, `wire.hpp` and `serialize.hpp`, for types
described by 64-bit words and strings. -/
namespace Quark

open List Bytes

/-- The bytes of a `std::string`; its size is a 64-bit word. -/
structure Blob where
  bytes : List UInt8
  small : bytes.length < 2 ^ 64
  deriving DecidableEq

inductive FieldType
  | u64 | string
  deriving DecidableEq, Repr

inductive FieldValue
  | u64 (v : UInt64)
  | string (b : Blob)
  deriving DecidableEq

def FieldValue.type : FieldValue → FieldType
  | .u64 _ => .u64
  | .string _ => .string

abbrev Object := List (UInt32 × FieldValue)

/-- `Varint` is 0, `Bytes` is 2. -/
def wireType : FieldType → Nat
  | .u64 => 0
  | .string => 2

namespace Tagged

def writeValue : FieldValue → List UInt8
  | .u64 v => Leb128.put v
  | .string b => Leb128.put (UInt64.ofNat b.bytes.length) ++ b.bytes

def key (tag : UInt32) (t : FieldType) : UInt64 := UInt64.ofNat (tag.toNat * 8 + wireType t)

def writeField (f : UInt32 × FieldValue) : List UInt8 := Leb128.put (key f.1 f.2.type) ++ writeValue f.2

def writeObject (obj : Object) : List UInt8 := obj.flatMap writeField

def takeBlob (bs : List UInt8) (n : UInt64) : Blob :=
  ⟨bs.take n.toNat, lt_of_le_of_lt (by rw [length_take]; exact min_le_left _ _) n.toNat_lt⟩

def readValue (t : FieldType) (bs : List UInt8) : Option (FieldValue × List UInt8) :=
  match Leb128.get bs with
  | none => none
  | some (v, rest) =>
    match t with
    | .u64 => some (.u64 v, rest)
    | .string => if rest.length < v.toNat then none else some (.string (takeBlob rest v), rest.drop v.toNat)

def skip (n : Nat) (bs : List UInt8) : Option (List UInt8) := if bs.length < n then none else some (bs.drop n)

/-- `tagged_skip_value`, of an unknown tag. -/
def skipValue (wt : Nat) (bs : List UInt8) : Option (List UInt8) :=
  match wt with
  | 0 => (Leb128.get bs).map fun r => r.2
  | 1 => skip 8 bs
  | 5 => skip 4 bs
  | 2 => (Leb128.get bs).bind fun r => skip r.1.toNat r.2
  | _ => none

def typeOf (obj : Object) (tag : UInt32) : Option FieldType := (obj.find? fun f => f.1 = tag).map fun f => f.2.type

def setField (tag : UInt32) (v : FieldValue) : Object → Object
  | [] => []
  | f :: fs => if f.1 = tag then (tag, v) :: fs else f :: setField tag v fs

/-- `tagged_read_object`. A round reads a byte at least, so as many rounds as bytes are enough. -/
def readFields : Nat → List UInt8 → Object → Option Object
  | _, [], out => some out
  | 0, _ :: _, _ => none
  | n + 1, b :: bs, out =>
    match Leb128.get (b :: bs) with
    | none => none
    | some (key, rest) =>
      let tag := UInt32.ofNat (key.toNat / 8)
      match typeOf out tag with
      | some t => (readValue t rest).bind fun r => readFields n r.2 (setField tag r.1 out)
      | none => (skipValue (key.toNat % 8) rest).bind fun rest => readFields n rest out

def readObject (bs : List UInt8) (out : Object) : Option Object := readFields bs.length bs out

section

variable {tag : UInt32} {t : FieldType} {v : FieldValue} {obj done rest : Object}

theorem readValue_writeValue (v : FieldValue) (bs : List UInt8) :
    readValue v.type (writeValue v ++ bs) = some (v, bs) := by
  cases v with
  | u64 v => simp only [readValue, writeValue, FieldValue.type, Leb128.get_put]
  | string b =>
    have hlen : (UInt64.ofNat b.bytes.length).toNat = b.bytes.length := UInt64.toNat_ofNat_of_lt' b.small
    simp only [readValue, writeValue, FieldValue.type, append_assoc, Leb128.get_put, hlen, length_append]
    rw [if_neg (by omega), drop_left' rfl]
    congr 2
    refine congrArg _ ?_
    simp only [takeBlob, hlen]
    congr 1
    exact take_left' rfl

theorem typeOf_append (hnot : ∀ f ∈ done, f.1 ≠ tag) : typeOf (done ++ (tag, v) :: rest) tag = some v.type := by
  unfold typeOf
  rw [find?_append, find?_eq_none.mpr (by simpa using hnot)]
  simp

theorem setField_append {v' : FieldValue} (hnot : ∀ f ∈ done, f.1 ≠ tag) :
    setField tag v' (done ++ (tag, v) :: rest) = done ++ (tag, v') :: rest := by
  induction done with
  | nil => simp [setField]
  | cons f fs ih =>
    rw [cons_append, setField, if_neg (hnot f mem_cons_self), ih fun g hg => hnot g (mem_cons_of_mem _ hg)]
    rfl

theorem key_parts (tag : UInt32) (t : FieldType) : UInt32.ofNat ((key tag t).toNat / 8) = tag := by
  have htag := tag.toNat_lt
  have hwire : wireType t < 8 := by cases t <;> decide
  rw [key, UInt64.toNat_ofNat_of_lt' (show tag.toNat * 8 + wireType t < 2 ^ 64 by omega),
    show (tag.toNat * 8 + wireType t) / 8 = tag.toNat by omega, UInt32.ofNat_toNat]

theorem readFields_writeObject {n : Nat} {todo defaults : Object} (hn : todo.length ≤ n) (done : Object)
    (hshape : defaults.map (fun f => (f.1, f.2.type)) = todo.map fun f => (f.1, f.2.type))
    (htags : (done ++ todo).Pairwise fun f g => f.1 ≠ g.1) :
    readFields n (writeObject todo) (done ++ defaults) = some (done ++ todo) := by
  induction todo generalizing n done defaults with
  | nil =>
    rw [map_nil, map_eq_nil_iff] at hshape
    rw [hshape]
    cases n <;> rfl
  | cons f fs ih =>
    obtain ⟨tag, v⟩ := f
    cases defaults with
    | nil => cases hshape
    | cons d ds =>
      obtain ⟨tag', v'⟩ := d
      simp only [map_cons, List.cons.injEq, Prod.mk.injEq] at hshape
      obtain ⟨⟨rfl, htype⟩, hshape⟩ := hshape
      obtain ⟨n, rfl⟩ : ∃ n', n = n' + 1 := ⟨n - 1, by simp only [length_cons] at hn; omega⟩
      have hnot : ∀ g ∈ done, g.1 ≠ tag' := by
        rw [pairwise_append] at htags
        exact fun g hg => htags.2.2 g hg _ mem_cons_self
      have hwrite : writeObject ((tag', v) :: fs) =
          Leb128.put (key tag' v.type) ++ (writeValue v ++ writeObject fs) := by
        simp [writeObject, writeField]
      rw [hwrite]
      cases hput : Leb128.put (key tag' v.type) with
      | nil => exact absurd hput (Leb128.put_ne_nil _)
      | cons b bs =>
        have hget := Leb128.get_put (key tag' v.type) (writeValue v ++ writeObject fs)
        rw [hput] at hget
        rw [cons_append] at hget ⊢
        rw [readFields, hget]
        simp only [key_parts, typeOf_append hnot, htype, readValue_writeValue, Option.bind_some,
          setField_append hnot]
        have hih := ih (by simpa using hn) (done ++ [(tag', v)]) hshape (by simpa using htags)
        simpa using hih

theorem length_writeObject (obj : Object) : obj.length ≤ (writeObject obj).length := by
  induction obj with
  | nil => exact le_rfl
  | cons f fs ih =>
    have hpos := length_pos_iff.mpr (Leb128.put_ne_nil (key f.1 f.2.type))
    simp only [writeObject, flatMap_cons, length_append, length_cons, writeField] at ih ⊢
    omega

theorem readObject_writeObject {defaults : Object}
    (hshape : defaults.map (fun f => (f.1, f.2.type)) = obj.map fun f => (f.1, f.2.type))
    (htags : obj.Pairwise fun f g => f.1 ≠ g.1) : readObject (writeObject obj) defaults = some obj :=
  readFields_writeObject (length_writeObject obj) [] hshape htags

end

end Tagged

/-- A described type: its fields in order, and the value they stand for. -/
class Described (T : Type) where
  salt : UInt64
  initial : T
  fields : T → Object
  ofFields : Object → Option T
  ofFields_fields : ∀ x, ofFields (fields x) = some x
  sameShape : ∀ x, (fields initial).map (fun f => (f.1, f.2.type)) = (fields x).map fun f => (f.1, f.2.type)
  distinctTags : ∀ x, (fields x).Pairwise fun f g => f.1 ≠ g.1

namespace FingerprintFolder

def fnvOffset : UInt64 := 1469598103934665603
def fnvPrime : UInt64 := 1099511628211

def fold (hash : UInt64) (byte : UInt8) : UInt64 := (hash ^^^ byte.toUInt64) * fnvPrime

def foldBytes (hash : UInt64) (v : Nat) : UInt64 := (leBytes 8 v).foldl fold hash

/-- `fold_type`: a string is 2; a word is 6, its size, and unsigned. -/
def foldType (hash : UInt64) : FieldType → UInt64
  | .string => fold hash 2
  | .u64 => fold (foldBytes (fold hash 6) 8) 0

def field (hash : UInt64) (tag : UInt32) (t : FieldType) : UInt64 :=
  foldType (fold ((leBytes 4 tag.toNat).foldl fold hash) (UInt8.ofNat (wireType t))) t

def salt (hash : UInt64) (v : UInt64) : UInt64 := foldBytes (fold hash 0xA5) v.toNat

end FingerprintFolder

def fingerprint (T : Type) [Described T] : TypeKey :=
  ⟨FingerprintFolder.salt ((Described.fields (Described.initial : T)).foldl
    (fun hash f => FingerprintFolder.field hash f.1 f.2.type) FingerprintFolder.fnvOffset) (Described.salt T)⟩

structure DurableRecord where
  type : TypeKey
  schemaVersion : UInt32
  deriving DecidableEq, Repr

def durableHeader (type : TypeKey) (schemaVersion : UInt32) : List UInt8 := putU64 type.value ++ putU32 schemaVersion

def peekRecordHeader (bs : List UInt8) : Result DurableRecord :=
  if bs.length < 12 then fail .serialization "truncated record header"
  else .ok ⟨⟨getU64 bs⟩, getU32 (bs.drop 8)⟩

section

variable {T : Type} [Described T]

/-- `encode_record` into a buffer of the exact size; the schema version is the default one. -/
def encodeDurable (x : T) : List UInt8 := durableHeader (fingerprint T) 1 ++ Tagged.writeObject (Described.fields x)

def decodeDurable (T : Type) [Described T] (bs : List UInt8) : Result T :=
  match peekRecordHeader bs with
  | .error err => .error err
  | .ok hdr =>
    if hdr.type ≠ fingerprint T then
      fail .serialization "durable record type_key mismatch (decoding as the wrong type)"
    else
      match (Tagged.readObject (bs.drop 12) (Described.fields (Described.initial : T))).bind Described.ofFields with
      | none => fail .serialization "malformed tagged stream"
      | some x => .ok x

@[simp] theorem peek_durableHeader (type : TypeKey) (schemaVersion : UInt32) (rest : List UInt8) :
    peekRecordHeader (durableHeader type schemaVersion ++ rest) = .ok ⟨type, schemaVersion⟩ := by
  have hlen : ¬ (durableHeader type schemaVersion ++ rest).length < 12 := by
    simp only [durableHeader, length_append, putU64_length, putU32_length]
    omega
  rw [peekRecordHeader, if_neg hlen, durableHeader, append_assoc, getU64_putU64,
    drop_left' (putU64_length _), getU32_putU32]

@[simp] theorem peek_encodeDurable (x : T) : peekRecordHeader (encodeDurable x) = .ok ⟨fingerprint T, 1⟩ :=
  peek_durableHeader _ _ _

@[simp] theorem decode_encodeDurable (x : T) : decodeDurable T (encodeDurable x) = .ok x := by
  have hdrop : (encodeDurable x).drop 12 = Tagged.writeObject (Described.fields x) := by
    refine drop_left' ?_
    simp [durableHeader]
  unfold decodeDurable
  rw [peek_encodeDurable, hdrop]
  simp only [ne_eq, not_true_eq_false, if_false,
    Tagged.readObject_writeObject (Described.sameShape x) (Described.distinctTags x), Option.bind_some,
    Described.ofFields_fields]

end

end Quark
