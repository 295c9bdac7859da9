import Quark.Durable

/-! Described types of `describe.hpp`: booleans, enums, machine integers, floats as their bits, strings, vectors and
nested described types, with the values of each and the fingerprint. -/
namespace Quark.Wire

inductive Width
  | w8 | w16 | w32 | w64
  deriving DecidableEq, Repr

def Width.bytes : Width → Nat
  | .w8 => 1
  | .w16 => 2
  | .w32 => 4
  | .w64 => 8

abbrev Width.bits (w : Width) : Nat := 8 * w.bytes

theorem Width.bits_le (w : Width) : w.bits ≤ 64 := by
  cases w <;> decide

/-- What an enum can be made of. -/
inductive Integral
  | bool
  | int (w : Width) (signed : Bool)
  deriving DecidableEq, Repr

mutual

inductive Ty
  | bool
  | enum (underlying : Integral)
  | double
  | float
  | int (w : Width) (signed : Bool)
  | string
  | vector (elem : Ty)
  | object (name : String) (salt : Option UInt64) (fields : Fields)

/-- What `QUARK_SERIALIZE` lists: the tagged members, in order. -/
inductive Fields
  | nil
  | cons (tag : UInt32) (type : Ty) (rest : Fields)

end

@[induction_eliminator]
theorem Fields.induct {motive : Fields → Prop} (nil : motive .nil)
    (cons : ∀ tag type rest, motive rest → motive (.cons tag type rest)) : ∀ fs, motive fs
  | .nil => nil
  | .cons tag type rest => cons tag type rest (Fields.induct nil cons rest)

abbrev Integral.Val : Integral → Type
  | .bool => Bool
  | .int w _ => BitVec w.bits

mutual

def Ty.Val : Ty → Type
  | .bool => Bool
  | .enum u => u.Val
  | .double => BitVec 64
  | .float => BitVec 32
  | .int w _ => BitVec w.bits
  | .string => List UInt8
  | .vector t => List t.Val
  | .object _ _ fs => fs.Val

def Fields.Val : Fields → Type
  | .nil => Unit
  | .cons _ t rest => t.Val × rest.Val

end

def Fields.tags : Fields → List UInt32
  | .nil => []
  | .cons tag _ rest => tag :: rest.tags

mutual

def Ty.distinct : Ty → Bool
  | .vector t => t.distinct
  | .object _ _ fs => fs.distinct
  | _ => true

def Fields.distinct : Fields → Bool
  | .nil => true
  | .cons tag t rest => !rest.tags.contains tag && t.distinct && rest.distinct

end

def wireTypeOf : Ty → Nat
  | .bool | .enum _ | .int _ _ => 0
  | .double => 1
  | .float => 5
  | .string | .vector _ | .object _ _ _ => 2

/-- `T{}`, of every type; a member initializer may make it anything. -/
abbrev Defaults := (t : Ty) → t.Val

mutual

/-- `T{}` without member initializers. -/
def Ty.zero : (t : Ty) → t.Val
  | .bool => false
  | .enum .bool => false
  | .enum (.int w _) => 0#w.bits
  | .double => 0#64
  | .float => 0#32
  | .int w _ => 0#w.bits
  | .string => []
  | .vector _ => []
  | .object _ _ fs => fs.zero

def Fields.zero : (fs : Fields) → fs.Val
  | .nil => ()
  | .cons _ t rest => (t.zero, rest.zero)

end

open FingerprintFolder Bytes

def foldInt (hash : UInt64) (w : Width) (signed : Bool) : UInt64 :=
  fold (foldBytes (fold hash 6) w.bytes) (if signed then 1 else 0)

def foldIntegral (hash : UInt64) : Integral → UInt64
  | .bool => fold hash 1
  | .int w signed => foldInt hash w signed

def withSalt (hash : UInt64) : Option UInt64 → UInt64
  | none => hash
  | some v => FingerprintFolder.salt hash v

mutual

def foldType (hash : UInt64) : Ty → UInt64
  | .bool => fold hash 1
  | .string => fold hash 2
  | .vector t => foldType (fold hash 3) t
  | .enum u => foldIntegral (fold hash 4) u
  | .object _ salt fs => foldBytes (fold hash 5) (withSalt (foldFields fnvOffset fs) salt).toNat
  | .double => fold (foldBytes (fold hash 6) 8) 1
  | .float => fold (foldBytes (fold hash 6) 4) 1
  | .int w signed => foldInt hash w signed

def foldFields (hash : UInt64) : Fields → UInt64
  | .nil => hash
  | .cons tag t rest =>
    foldFields (foldType (fold ((leBytes 4 tag.toNat).foldl fold hash) (UInt8.ofNat (wireTypeOf t))) t) rest

end

structure DescribedType where
  name : String
  salt : Option UInt64 := none
  fields : Fields
  schemaVersion : UInt32 := 1
  distinct : fields.distinct = true

def DescribedType.fingerprint (d : DescribedType) : TypeKey := ⟨withSalt (foldFields fnvOffset d.fields) d.salt⟩

def DescribedType.type (d : DescribedType) : Ty := .object d.name d.salt d.fields

abbrev DescribedType.Val (d : DescribedType) : Type := d.fields.Val

end Quark.Wire
