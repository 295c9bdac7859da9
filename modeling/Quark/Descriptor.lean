import Mathlib.Algebra.Group.Nat.Defs
import Quark.Lib.Machine

/-! The packed word of a pooled descriptor, and its claim, cancel and release against each other, one access
of the word at a time. -/
namespace Quark.Descriptor

inductive MsgState
  | queued
  | running
  | completed
  | cancelled
  deriving DecidableEq, Repr

def MsgState.code : MsgState → UInt64
  | .queued => 0
  | .running => 1
  | .completed => 2
  | .cancelled => 3

namespace GenState

def flagsMask : UInt64 := ((1 : UInt64) <<< 12) - 1

def stateMask : UInt64 := (((1 : UInt64) <<< 4) - 1) <<< 12

def genMask : UInt64 := ((1 : UInt64) <<< 48) - 1

def pack (generation : UInt64) (state : MsgState) (flags : UInt64) : UInt64 :=
  ((generation &&& genMask) <<< 16) ||| (state.code <<< 12) ||| (flags &&& flagsMask)

def generationOf (word : UInt64) : UInt64 := (word >>> 16) &&& genMask

def stateOf (word : UInt64) : UInt64 := (word >>> 12) &&& (((1 : UInt64) <<< 4) - 1)

def flagsOf (word : UInt64) : UInt64 := word &&& flagsMask

def withState (word : UInt64) (state : MsgState) : UInt64 := (word &&& ~~~stateMask) ||| (state.code <<< 12)

def withFlags (word flags : UInt64) : UInt64 := (word &&& ~~~flagsMask) ||| (flags &&& flagsMask)

section

variable {word generation flags : UInt64} {state : MsgState}

def bit (word : UInt64) (i : Nat) : Bool := word.toBitVec.getLsbD i

theorem ext_bit {word word' : UInt64} (h : ∀ i, i < 64 → bit word i = bit word' i) : word = word' :=
  UInt64.eq_of_toBitVec_eq (BitVec.eq_of_getLsbD_eq h)

theorem bit_and (word word' : UInt64) (i : Nat) : bit (word &&& word') i = (bit word i && bit word' i) :=
    BitVec.getLsbD_and ..

theorem bit_or (word word' : UInt64) (i : Nat) : bit (word ||| word') i = (bit word i || bit word' i) :=
    BitVec.getLsbD_or ..

theorem bit_not (word : UInt64) (i : Nat) : bit (~~~word) i = (decide (i < 64) && !bit word i) :=
    BitVec.getLsbD_not ..

theorem shift_toNat {n : Nat} (hn : n < 64) : ((UInt64.ofNat n).toBitVec % 64).toNat = n := by
  rw [BitVec.toNat_umod, UInt64.toBitVec_ofNat', BitVec.toNat_ofNat, Nat.mod_eq_of_lt (Nat.lt_trans hn (by decide))]
  exact Nat.mod_eq_of_lt hn

theorem bit_shiftRight {n : Nat} (word : UInt64) (i : Nat) (hn : n < 64) :
    bit (word >>> UInt64.ofNat n) i = bit word (n + i) := by
  rw [bit, UInt64.toBitVec_shiftRight, BitVec.ushiftRight_eq', shift_toNat hn, BitVec.getLsbD_ushiftRight]
  rfl

theorem bit_shiftLeft {n : Nat} (word : UInt64) (i : Nat) (hn : n < 64) :
    bit (word <<< UInt64.ofNat n) i = (decide (i < 64) && decide (n ≤ i) && bit word (i - n)) := by
  rw [bit, UInt64.toBitVec_shiftLeft, BitVec.shiftLeft_eq', shift_toNat hn, BitVec.getLsbD_shiftLeft, ← decide_not]
  simp only [Nat.not_lt]
  rfl

theorem bit_ofNat (n i : Nat) : bit (UInt64.ofNat n) i = (decide (i < 64) && n.testBit i) := BitVec.getLsbD_ofNat ..

theorem bit_code (state : MsgState) (i : Nat) (h : 2 ≤ i) : bit state.code i = false := by
  have hlt : state.code.toNat < 2 ^ i := by
    refine Nat.lt_of_lt_of_le ?_ (Nat.pow_le_pow_right (by decide) h)
    cases state <;> decide
  exact Nat.testBit_lt_two_pow hlt

theorem bit_genMask (i : Nat) : bit genMask i = decide (i < 48) := by
  rw [show genMask = UInt64.ofNat (2 ^ 48 - 1) from rfl, bit_ofNat, Nat.testBit_two_pow_sub_one]
  grind

theorem bit_flagsMask (i : Nat) : bit flagsMask i = decide (i < 12) := by
  rw [show flagsMask = UInt64.ofNat (2 ^ 12 - 1) from rfl, bit_ofNat, Nat.testBit_two_pow_sub_one]
  grind

theorem bit_stateMask (i : Nat) : bit stateMask i = (decide (12 ≤ i) && decide (i < 16)) := by
  rw [show stateMask = UInt64.ofNat (2 ^ 4 - 1) <<< UInt64.ofNat 12 from rfl,
    bit_shiftLeft _ _ (by decide), bit_ofNat, Nat.testBit_two_pow_sub_one]
  grind

theorem bit_generationOf (word : UInt64) (i : Nat) :
    bit (generationOf word) i = (bit word (16 + i) && decide (i < 48)) := by
  rw [generationOf, bit_and, show (16 : UInt64) = UInt64.ofNat 16 from rfl,
    bit_shiftRight _ _ (by decide), bit_genMask]

theorem bit_stateOf (word : UInt64) (i : Nat) : bit (stateOf word) i = (bit word (12 + i) && decide (i < 4)) := by
  rw [stateOf, bit_and, show (12 : UInt64) = UInt64.ofNat 12 from rfl, bit_shiftRight _ _ (by decide),
    show ((1 : UInt64) <<< 4) - 1 = UInt64.ofNat (2 ^ 4 - 1) from rfl, bit_ofNat, Nat.testBit_two_pow_sub_one]
  grind

theorem bit_withState (word : UInt64) (state : MsgState) (i : Nat) (hi : i < 64) : bit (withState word state) i =
    (bit word i && !(decide (12 ≤ i) && decide (i < 16)) || decide (12 ≤ i) && bit state.code (i - 12)) := by
  rw [withState, bit_or, bit_and, bit_not, bit_stateMask, show (12 : UInt64) = UInt64.ofNat 12 from rfl,
    bit_shiftLeft _ _ (by decide)]
  grind

theorem bit_pack (generation : UInt64) (state : MsgState) (flags : UInt64) (i : Nat) (hi : i < 64) :
    bit (pack generation state flags) i =
    (decide (16 ≤ i) && (bit generation (i - 16) && decide (i - 16 < 48)) || decide (12 ≤ i) &&
    bit state.code (i - 12) || bit flags i && decide (i < 12)) := by
  rw [pack, bit_or, bit_or, show (16 : UInt64) = UInt64.ofNat 16 from rfl,
    show (12 : UInt64) = UInt64.ofNat 12 from rfl,
    bit_shiftLeft _ _ (by decide), bit_shiftLeft _ _ (by decide), bit_and, bit_and, bit_genMask, bit_flagsMask]
  grind

theorem bit_withFlags (word flags : UInt64) (i : Nat) (hi : i < 64) : bit (withFlags word flags) i =
    (bit word i && !decide (i < 12) || bit flags i && decide (i < 12)) := by
  rw [withFlags, bit_or, bit_and, bit_and, bit_not, bit_flagsMask]
  grind

theorem generationOf_ext {word word' : UInt64} (h : ∀ i, i < 48 → bit word (16 + i) = bit word' (16 + i)) :
    generationOf word = generationOf word' := by
  apply ext_bit
  intro i _
  rw [bit_generationOf, bit_generationOf]
  by_cases hi : i < 48
  · rw [h i hi]
  · simp only [decide_eq_false hi, Bool.and_false]

theorem stateOf_ext {word word' : UInt64} (h : ∀ i, i < 4 → bit word (12 + i) = bit word' i)
    (hsmall : ∀ i, 4 ≤ i → bit word' i = false) :
    stateOf word = word' := by
  apply ext_bit
  intro i _
  rw [bit_stateOf]
  by_cases hi : i < 4
  · rw [h i hi, decide_eq_true hi, Bool.and_true]
  · rw [hsmall i (by omega), decide_eq_false hi, Bool.and_false]

theorem generationOf_withState : generationOf (withState word state) = generationOf word := by
  apply generationOf_ext
  intro i hi
  rw [bit_withState _ _ _ (by omega), bit_code _ _ (by omega)]
  grind

theorem generationOf_withFlags : generationOf (withFlags word flags) = generationOf word := by
  apply generationOf_ext
  intro i hi
  rw [bit_withFlags _ _ _ (by omega)]
  grind

theorem generationOf_pack : generationOf (pack generation state flags) = generation &&& genMask := by
  apply ext_bit
  intro i _
  rw [bit_generationOf, bit_and, bit_genMask]
  by_cases hi : i < 48
  · rw [bit_pack _ _ _ _ (by omega), bit_code _ _ (by omega), Nat.add_sub_cancel_left]
    grind
  · simp only [decide_eq_false hi, Bool.and_false]

theorem stateOf_withState : stateOf (withState word state) = state.code := by
  apply stateOf_ext
  · intro i hi
    rw [bit_withState _ _ _ (by omega), Nat.add_sub_cancel_left]
    have hhigh : 12 + i < 16 := by omega
    simp [hhigh]
  · intro i hi
    exact bit_code state i (by omega)

theorem stateOf_pack : stateOf (pack generation state flags) = state.code := by
  apply stateOf_ext
  · intro i hi
    rw [bit_pack _ _ _ _ (by omega), Nat.add_sub_cancel_left]
    grind
  · intro i hi
    exact bit_code state i (by omega)

theorem stateOf_withFlags : stateOf (withFlags word flags) = stateOf word := by
  apply stateOf_ext
  · intro i hi
    rw [bit_withFlags _ _ _ (by omega), bit_stateOf]
    grind
  · intro i hi
    rw [bit_stateOf, decide_eq_false (by omega), Bool.and_false]

end

end GenState

end Quark.Descriptor
