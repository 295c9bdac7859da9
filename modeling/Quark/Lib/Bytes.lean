import Mathlib.Data.List.Basic
import Mathlib.Tactic.Ring

/-! Byte strings: little-endian fixed-width words, and positioned writes into a
file held as a list of bytes. -/
namespace Bytes

open List

def leBytes : Nat → Nat → List UInt8
  | 0, _ => []
  | n+1, v => UInt8.ofNat v :: leBytes n (v / 256)

def leValue : List UInt8 → Nat
  | [] => 0
  | b :: bs => b.toNat + 256 * leValue bs

attribute [local simp] leBytes leValue

@[simp] theorem leBytes_length (n v : Nat) : (leBytes n v).length = n := by
  induction n generalizing v with
  | zero => rfl
  | succ n ih => simp only [leBytes, length_cons, ih]

theorem leValue_leBytes (n v : Nat) : leValue (leBytes n v) = v % 256 ^ n := by
  induction n generalizing v with
  | zero => simp only [leBytes, leValue, pow_zero, Nat.mod_one]
  | succ n ih =>
    have hb : (UInt8.ofNat v).toNat = v % 256 := by simp
    rw [leBytes, leValue, ih, hb, pow_succ, mul_comm (256 ^ n), Nat.mod_mul]

theorem leValue_lt (bs : List UInt8) : leValue bs < 256 ^ bs.length := by
  induction bs with
  | nil => simp only [leValue, length_nil, pow_zero, zero_lt_one]
  | cons b bs ih =>
    have hb := b.toNat_lt
    rw [leValue, length_cons, pow_succ]
    omega

theorem leBytes_leValue (bs : List UInt8) : leBytes bs.length (leValue bs) = bs := by
  induction bs with
  | nil => rfl
  | cons b bs ih =>
    have hb := b.toNat_lt
    have hhead : UInt8.ofNat (b.toNat + 256 * leValue bs) = b := by
      apply UInt8.toNat_inj.mp
      have hmod : (UInt8.ofNat (b.toNat + 256 * leValue bs)).toNat = (b.toNat + 256 * leValue bs) % 256 := by
        simp
      omega
    have htail : (b.toNat + 256 * leValue bs) / 256 = leValue bs := by omega
    rw [length_cons, leValue, leBytes, hhead, htail, ih]

def putU16 (v : UInt16) : List UInt8 := leBytes 2 v.toNat
def putU32 (v : UInt32) : List UInt8 := leBytes 4 v.toNat
def putU64 (v : UInt64) : List UInt8 := leBytes 8 v.toNat
def getU32 (bs : List UInt8) : UInt32 := UInt32.ofNat (leValue (bs.take 4))
def getU64 (bs : List UInt8) : UInt64 := UInt64.ofNat (leValue (bs.take 8))

@[simp] theorem putU16_length (v : UInt16) : (putU16 v).length = 2 := leBytes_length 2 _
@[simp] theorem putU32_length (v : UInt32) : (putU32 v).length = 4 := leBytes_length 4 _
@[simp] theorem putU64_length (v : UInt64) : (putU64 v).length = 8 := leBytes_length 8 _

@[simp] theorem getU32_putU32 (v : UInt32) (rest : List UInt8) : getU32 (putU32 v ++ rest) = v := by
  have hv := v.toNat_lt
  rw [getU32, take_left' (putU32_length v), putU32, leValue_leBytes,
    Nat.mod_eq_of_lt (by omega), UInt32.ofNat_toNat]

@[simp] theorem getU64_putU64 (v : UInt64) (rest : List UInt8) : getU64 (putU64 v ++ rest) = v := by
  have hv := v.toNat_lt
  rw [getU64, take_left' (putU64_length v), putU64, leValue_leBytes,
    Nat.mod_eq_of_lt (by omega), UInt64.ofNat_toNat]

theorem putU32_getU32 {bs : List UInt8} (h : 4 ≤ bs.length) : putU32 (getU32 bs) = bs.take 4 := by
  have hl : (bs.take 4).length = 4 := by rw [length_take]; omega
  have hv := leValue_lt (bs.take 4)
  rw [hl] at hv
  rw [getU32, putU32, UInt32.toNat_ofNat_of_lt' (by simpa using hv)]
  calc leBytes 4 (leValue (bs.take 4)) = leBytes (bs.take 4).length (leValue (bs.take 4)) := by rw [hl]
    _ = bs.take 4 := leBytes_leValue _

/-- A positioned write. A gap before `off` reads back as zeros. -/
def writeAt (file : List UInt8) (bs : List UInt8) (off : Nat) : List UInt8 :=
  file.take off ++ List.replicate (off - file.length) 0 ++ bs ++ file.drop (off + bs.length)

/-- Writing where the first part of a file ends keeps that part, and keeps of
the second part what the written bytes do not cover. -/
theorem writeAt_append (a b bs : List UInt8) :
    writeAt (a ++ b) bs a.length = a ++ bs ++ b.drop bs.length := by
  have gap : a.length - (a ++ b).length = 0 := by rw [length_append]; omega
  rw [writeAt, gap, take_left' rfl, drop_append, drop_of_length_le (by omega)]
  simp

end Bytes
