import Mathlib.Data.List.Basic
import Mathlib.Tactic.Ring

/-! LEB128: base-128 varints of 64-bit words, least significant group first. -/
namespace Leb128

open List

/-- At most `n` groups of 7 bits; all but the last carry the continuation bit. -/
def putGroups : Nat → Nat → List UInt8
  | 0, _ => []
  | n + 1, v => if v < 128 then [UInt8.ofNat v] else UInt8.ofNat (v % 128 + 128) :: putGroups n (v / 128)

/-- `scale` is the weight of the next group. -/
def getGroups : Nat → Nat → Nat → List UInt8 → Option (Nat × List UInt8)
  | 0, _, _, _ => none
  | _ + 1, _, _, [] => none
  | n + 1, scale, result, b :: rest =>
    let result := result + b.toNat % 128 * scale
    if b.toNat < 128 then some (result, rest) else getGroups n (scale * 128) result rest

def put (v : UInt64) : List UInt8 := putGroups 10 v.toNat

/-- Bits above the 64th are lost, an eleventh group is an error. -/
def get (bs : List UInt8) : Option (UInt64 × List UInt8) :=
  (getGroups 10 1 0 bs).map fun r => (UInt64.ofNat r.1, r.2)

theorem getGroups_putGroups {n v scale result : Nat} (h : v < 128 ^ (n + 1)) (rest : List UInt8) :
    getGroups (n + 1) scale result (putGroups (n + 1) v ++ rest) = some (result + v * scale, rest) := by
  induction n generalizing v scale result with
  | zero =>
    have hv : (UInt8.ofNat v).toNat = v := by simp; omega
    simp only [putGroups, if_pos (show v < 128 by omega), cons_append, nil_append, getGroups, hv,
      Nat.mod_eq_of_lt (show v < 128 by omega)]
  | succ n ih =>
    by_cases hlt : v < 128
    · have hv : (UInt8.ofNat v).toNat = v := by simp; omega
      rw [putGroups, if_pos hlt, cons_append, nil_append, getGroups]
      simp only [hv, hlt, if_true, Nat.mod_eq_of_lt hlt]
    · have hv : (UInt8.ofNat (v % 128 + 128)).toNat = v % 128 + 128 := by
        have := Nat.mod_lt v (show 0 < 128 by decide)
        simp
        omega
      have hdiv : v / 128 < 128 ^ (n + 1) := by
        rw [Nat.div_lt_iff_lt_mul (by decide), ← pow_succ]
        exact h
      rw [putGroups, if_neg hlt, cons_append, getGroups]
      simp only [hv, if_neg (show ¬ v % 128 + 128 < 128 by omega), ih hdiv]
      have hsplit : v = 128 * (v / 128) + v % 128 := (Nat.div_add_mod v 128).symm
      have hmod : (v % 128 + 128) % 128 = v % 128 := by omega
      rw [hmod]
      congr 2
      conv_rhs => rw [hsplit]
      ring

@[simp] theorem get_put (v : UInt64) (rest : List UInt8) : get (put v ++ rest) = some (v, rest) := by
  have hv := v.toNat_lt
  rw [get, put, getGroups_putGroups (by omega)]
  simp

theorem put_ne_nil (v : UInt64) : put v ≠ [] := by
  rw [put, putGroups]
  split <;> simp

end Leb128
