import Quark.Lib.Bytes
import Mathlib.Data.List.TakeDrop

/-! The tagless codec of `wire.hpp`: members in order, without keys. The unchecked reader trusts its bytes, the
checked one does not. Trivially copyable values are their bytes. -/
namespace Quark.Tagless

open Bytes

/-- A trivially copyable value of so many bytes. -/
abbrev Raw (size : Nat) : Type := { bs : List UInt8 // bs.length = size }

mutual

/-- What is not trivially copyable; `array` is a vector of what is. -/
inductive Composite
  | string
  | array (size : Nat)
  | vector (elem : Composite)
  | object (members : Members)

/-- The members of a described type. -/
inductive Members
  | nil
  | trivial (size : Nat) (rest : Members)
  | composite (c : Composite) (rest : Members)

end

mutual

def Composite.Val : Composite → Type
  | .string => List UInt8
  | .array size => List (Raw size)
  | .vector c => List c.Val
  | .object ms => ms.Val

def Members.Val : Members → Type
  | .nil => Unit
  | .trivial size rest => Raw size × rest.Val
  | .composite c rest => c.Val × rest.Val

end

/-! The write pass and the size pass. -/

def putCount (n : Nat) : List UInt8 := putU32 (UInt32.ofNat n)

def writeString (m : List UInt8) : List UInt8 := putCount m.length ++ m

def writeArray {size : Nat} (m : List (Raw size)) : List UInt8 := putCount m.length ++ m.flatMap Subtype.val

def writeVector {α : Type} (write : α → List UInt8) (m : List α) : List UInt8 := putCount m.length ++ m.flatMap write

mutual

def taglessWriteValue : (c : Composite) → c.Val → List UInt8
  | .string, m => writeString m
  | .array _, m => writeArray m
  | .vector c, m => writeVector (taglessWriteValue c) m
  | .object ms, m => taglessWriteObject ms m

def taglessWriteObject : (ms : Members) → ms.Val → List UInt8
  | .nil, _ => []
  | .trivial _ rest, m => m.1.1 ++ taglessWriteObject rest m.2
  | .composite c rest, m => taglessWriteValue c m.1 ++ taglessWriteObject rest m.2

end

mutual

def taglessValueSize : (c : Composite) → c.Val → Nat
  | .string, m => 4 + m.length
  | .array size, m => 4 + m.length * size
  | .vector c, m => 4 + (m.map (taglessValueSize c)).sum
  | .object ms, m => taglessObjectSize ms m

def taglessObjectSize : (ms : Members) → ms.Val → Nat
  | .nil, _ => 0
  | .trivial size rest, m => size + taglessObjectSize rest m.2
  | .composite c rest, m => taglessValueSize c m.1 + taglessObjectSize rest m.2

end

/-! The read passes; `none` of the unchecked one is a read behind the end of the bytes. -/

def copyRaw (size : Nat) (bs : List UInt8) : Raw size := ⟨bs.takeD size 0, List.takeD_length _ _ _⟩

/-- The bytes of `n` values of `size` bytes each. -/
def copyArray (size : Nat) : Nat → List UInt8 → List (Raw size)
  | 0, _ => []
  | n + 1, bs => copyRaw size bs :: copyArray size n (bs.drop size)

def take (n : Nat) (bs : List UInt8) : Option (List UInt8 × List UInt8) :=
  if bs.length < n then none else some (bs.take n, bs.drop n)

def readCount (bs : List UInt8) : Option (Nat × List UInt8) :=
  (take 4 bs).map fun r => ((getU32 r.1).toNat, r.2)

/-- `m[0]` to `m[n - 1]`, one after another. -/
def readTimes {α : Type} (read : List UInt8 → Option (α × List UInt8)) : Nat → List UInt8 →
    Option (List α × List UInt8)
  | 0, bs => some ([], bs)
  | n + 1, bs => (read bs).bind fun e => (readTimes read n e.2).map fun es => (e.1 :: es.1, es.2)

def arrayBytes (n size : Nat) : Nat := n * size % 2 ^ 64

def readString (bs : List UInt8) : Option (List UInt8 × List UInt8) := (readCount bs).bind fun r => take r.1 r.2

def readArray (size : Nat) (bs : List UInt8) : Option (List (Raw size) × List UInt8) :=
  (readCount bs).bind fun r => (take (arrayBytes r.1 size) r.2).map fun s => (copyArray size r.1 s.1, s.2)

def readVector {α : Type} (read : List UInt8 → Option (α × List UInt8)) (bs : List UInt8) :
    Option (List α × List UInt8) :=
  (readCount bs).bind fun r => readTimes read r.1 r.2

mutual

def taglessReadValue : (c : Composite) → List UInt8 → Option (c.Val × List UInt8)
  | .string, bs => readString bs
  | .array size, bs => readArray size bs
  | .vector c, bs => readVector (taglessReadValue c) bs
  | .object ms, bs => taglessReadObject ms bs

def taglessReadObject : (ms : Members) → List UInt8 → Option (ms.Val × List UInt8)
  | .nil, bs => some ((), bs)
  | .trivial size rest, bs =>
    (take size bs).bind fun r => (taglessReadObject rest r.2).map fun s => ((copyRaw size r.1, s.1), s.2)
  | .composite c rest, bs =>
    (taglessReadValue c bs).bind fun r => (taglessReadObject rest r.2).map fun s => ((r.1, s.1), s.2)

end

def kMaxTaglessElements : Nat := 2 ^ 20

def readStringChecked (bs : List UInt8) : Option (List UInt8 × List UInt8) :=
  if bs.length < 4 then none
  else (readCount bs).bind fun r => if r.2.length < r.1 then none else take r.1 r.2

def readArrayChecked (size : Nat) (bs : List UInt8) : Option (List (Raw size) × List UInt8) :=
  if bs.length < 4 then none
  else (readCount bs).bind fun r =>
    if size ≠ 0 ∧ arrayBytes r.1 size / size ≠ r.1 then none
    else if r.2.length < arrayBytes r.1 size then none
    else (take (arrayBytes r.1 size) r.2).map fun s => (copyArray size r.1 s.1, s.2)

def readVectorChecked {α : Type} (read : List UInt8 → Option (α × List UInt8)) (bs : List UInt8) :
    Option (List α × List UInt8) :=
  if bs.length < 4 then none
  else (readCount bs).bind fun r =>
    if kMaxTaglessElements < r.1 ∨ r.2.length < r.1 then none else readTimes read r.1 r.2

mutual

def taglessReadValueChecked : (c : Composite) → List UInt8 → Option (c.Val × List UInt8)
  | .string, bs => readStringChecked bs
  | .array size, bs => readArrayChecked size bs
  | .vector c, bs => readVectorChecked (taglessReadValueChecked c) bs
  | .object ms, bs => taglessReadObjectChecked ms bs

def taglessReadObjectChecked : (ms : Members) → List UInt8 → Option (ms.Val × List UInt8)
  | .nil, bs => some ((), bs)
  | .trivial size rest, bs =>
    if bs.length < size then none
    else (take size bs).bind fun r =>
      (taglessReadObjectChecked rest r.2).map fun s => ((copyRaw size r.1, s.1), s.2)
  | .composite c rest, bs =>
    (taglessReadValueChecked c bs).bind fun r =>
      (taglessReadObjectChecked rest r.2).map fun s => ((r.1, s.1), s.2)

end

/-! The codec. -/

def encodeTagless (ms : Members) (obj : ms.Val) : List UInt8 := taglessWriteObject ms obj

/-- The value, and how many bytes it was read from. -/
def decodeTagless (ms : Members) (bs : List UInt8) : Option (ms.Val × Nat) :=
  (taglessReadObject ms bs).map fun r => (r.1, bs.length - r.2.length)

/-- `none` stands for `false`. -/
def decodeTaglessChecked (ms : Members) (bs : List UInt8) : Option ms.Val :=
  (taglessReadObjectChecked ms bs).map Prod.fst

def taglessSize (ms : Members) (obj : ms.Val) : Nat := taglessObjectSize ms obj

end Quark.Tagless
