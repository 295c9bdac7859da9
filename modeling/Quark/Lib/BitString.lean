import Mathlib.Data.List.Basic
import Mathlib.Data.Nat.Bitwise
import Mathlib.Tactic.Ring

/-! Numbers as strings of bits, most significant first, and words of one width read as words of
another. -/
namespace BitString

open List UInt32

def word : Nat → Nat → List Bool
  | 0, _ => []
  | n + 1, v => v.testBit n :: word n v

def words (n : Nat) (vs : List Nat) : List Bool := vs.flatMap (word n)

attribute [local simp] word

@[simp] theorem word_length (n v : Nat) : (word n v).length = n := by
  induction n with
  | zero => rfl
  | succ n ih => rw [word, length_cons, ih]

theorem word_eq_iff {n v w : Nat} : word n v = word n w ↔ ∀ i < n, v.testBit i = w.testBit i := by
  induction n with
  | zero => simp [word]
  | succ n ih => rw [word, word, List.cons.injEq, ih, Nat.forall_lt_succ_right, and_comm]

theorem word_inj {n v w : Nat} (hv : v < 2 ^ n) (hw : w < 2 ^ n) (h : word n v = word n w) : v = w := by
  apply Nat.eq_of_testBit_eq
  intro i
  by_cases hi : i < n
  · exact word_eq_iff.mp h i hi
  · have hpow : 2 ^ n ≤ 2 ^ i := Nat.pow_le_pow_right (by omega) (by omega)
    rw [Nat.testBit_lt_two_pow (by omega), Nat.testBit_lt_two_pow (by omega)]

theorem word_add (m n v : Nat) : word (m + n) v = word m (v >>> n) ++ word n v := by
  induction m with
  | zero => rw [zero_add, word, nil_append]
  | succ m ih =>
    have hlow : m + 1 + n = m + n + 1 := by omega
    rw [hlow, word, word, ih, Nat.testBit_shiftRight, cons_append, add_comm n m]

theorem word_zero (n : Nat) : word n 0 = List.replicate n false := by
  induction n with
  | zero => rfl
  | succ n ih => rw [word, ih, Nat.zero_testBit, replicate_succ]

theorem word_shiftLeft (m n v : Nat) : word (n + m) (v <<< m) = word n v ++ List.replicate m false := by
  have hlow : word m (v <<< m) = word m 0 := by
    apply word_eq_iff.mpr
    intro i hi
    rw [Nat.testBit_shiftLeft, Nat.zero_testBit, decide_eq_false (by omega), Bool.false_and]
  rw [word_add, Nat.shiftLeft_shiftRight, hlow, word_zero]

theorem word_push {m n v x : Nat} (hx : x < 2 ^ m) : word (n + m) (v <<< m ||| x) = word n v ++ word m x := by
  have hhigh : word n ((v <<< m ||| x) >>> m) = word n v := by
    rw [Nat.shiftRight_or_distrib, Nat.shiftLeft_shiftRight, Nat.shiftRight_eq_div_pow,
      Nat.div_eq_of_lt hx, Nat.or_zero]
  have hlow : word m (v <<< m ||| x) = word m x := by
    apply word_eq_iff.mpr
    intro i hi
    rw [Nat.testBit_or, Nat.testBit_shiftLeft, decide_eq_false (by omega), Bool.false_and, Bool.false_or]
  rw [word_add, hhigh, hlow]

theorem word_mod {n k v : Nat} (h : n ≤ k) : word n (v % 2 ^ k) = word n v := by
  apply word_eq_iff.mpr
  intro i hi
  rw [Nat.testBit_mod_two_pow, decide_eq_true (by omega), Bool.true_and]

theorem word_eq_zeros {n v : Nat} : word n v = List.replicate n false ↔ v % 2 ^ n = 0 := by
  rw [← word_zero, ← word_mod (Nat.le_refl n)]
  constructor
  · intro h
    exact word_inj (Nat.mod_lt _ (Nat.two_pow_pos n)) (Nat.two_pow_pos n) h
  · intro h
    rw [h]

/-- The low bits of a 32-bit accumulator, whatever has left it at the top. -/
def held (n : Nat) (acc : UInt32) : List Bool := word n acc.toNat

@[simp] theorem held_length (n : Nat) (acc : UInt32) : (held n acc).length = n := word_length n _

theorem shift_amount {m : Nat} (hm : m < 32) : (UInt32.ofNat m).toNat % 32 = m := by
  rw [toNat_ofNat', Nat.mod_eq_of_lt (by omega : m < 2 ^ 32), Nat.mod_eq_of_lt hm]

theorem held_push {m n : Nat} {acc v : UInt32} (hm : m < 32) (hmn : n + m ≤ 32) (hv : v.toNat < 2 ^ m) :
    held (n + m) (acc <<< UInt32.ofNat m ||| v) = held n acc ++ word m v.toNat := by
  have hwrap : acc.toNat <<< m % 2 ^ 32 ||| v.toNat = (acc.toNat <<< m ||| v.toNat) % 2 ^ 32 := by
    rw [Nat.or_mod_two_pow, Nat.mod_eq_of_lt v.toNat_lt]
  rw [held, UInt32.toNat_or, UInt32.toNat_shiftLeft, shift_amount hm, hwrap, word_mod hmn, word_push hv, held]

theorem held_shiftLeft {m n : Nat} {acc : UInt32} (hm : m < 32) (hmn : n + m ≤ 32) :
    held (n + m) (acc <<< UInt32.ofNat m) = held n acc ++ List.replicate m false := by
  rw [held, UInt32.toNat_shiftLeft, shift_amount hm, word_mod hmn, word_shiftLeft, held]

theorem held_split {m n : Nat} {acc : UInt32} (hn : n < 32) :
    held (m + n) acc = held m (acc >>> UInt32.ofNat n) ++ held n acc := by
  rw [held, word_add, held, held, UInt32.toNat_shiftRight, shift_amount hn]

section

variable {n : Nat} {vs ws : List Nat}

@[simp] theorem words_nil : words n [] = [] := rfl
@[simp] theorem words_cons (v : Nat) : words n (v :: vs) = word n v ++ words n vs := flatMap_cons
@[simp] theorem words_append : words n (vs ++ ws) = words n vs ++ words n ws := flatMap_append

@[simp] theorem words_length : (words n vs).length = n * vs.length := by
  induction vs with
  | nil => rfl
  | cons v vs ih => rw [words_cons, length_append, word_length, ih, length_cons, Nat.mul_succ, add_comm]

theorem words_inj (hlen : vs.length = ws.length) (hv : ∀ v ∈ vs, v < 2 ^ n) (hw : ∀ w ∈ ws, w < 2 ^ n)
    (h : words n vs = words n ws) : vs = ws := by
  induction vs generalizing ws with
  | nil => exact (length_eq_zero_iff.mp hlen.symm).symm
  | cons v vs ih =>
    obtain ⟨w, ws, rfl⟩ := exists_cons_of_length_eq_add_one hlen.symm
    rw [words_cons, words_cons] at h
    obtain ⟨hhead, htail⟩ := append_inj h (by rw [word_length, word_length])
    have hrest := ih (Nat.succ.inj hlen) (fun x hx => hv x (.tail _ hx)) (fun x hx => hw x (.tail _ hx)) htail
    rw [word_inj (hv v (.head _)) (hw w (.head _)) hhead, hrest]

end

/-- The digits, `a` bits each, spell out the words, `b` bits each, with less than a digit of zeros
after them. -/
structure Regroups (a b : Nat) (digits vs : List Nat) : Prop where
  digits_lt : ∀ d ∈ digits, d < 2 ^ a
  words_lt : ∀ v ∈ vs, v < 2 ^ b
  spelled : ∃ pad < a, words a digits = words b vs ++ List.replicate pad false

namespace Regroups

variable {a b : Nat} {digits digits' vs : List Nat}

/-- Two multiples of one number that lie within it of a third are one. -/
theorem mul_left_window {c m n i j : Nat} (hi : i < c) (hj : j < c) (h : c * m + j = c * n + i) : m = n ∧ i = j := by
  have hmod := congrArg (· % c) h
  have hdiv := congrArg (· / c) h
  simp only [Nat.mul_add_mod, Nat.mod_eq_of_lt hi, Nat.mod_eq_of_lt hj] at hmod
  simp only [Nat.mul_add_div (Nat.zero_lt_of_lt hi), Nat.div_eq_of_lt hi, Nat.div_eq_of_lt hj, add_zero] at hdiv
  exact ⟨hdiv, hmod.symm⟩

theorem digits_unique (h : Regroups a b digits vs) (h' : Regroups a b digits' vs) : digits = digits' := by
  obtain ⟨pad, hpad, hbits⟩ := h.spelled
  obtain ⟨pad', hpad', hbits'⟩ := h'.spelled
  have hlen := congrArg List.length hbits
  have hlen' := congrArg List.length hbits'
  rw [words_length, length_append, words_length, length_replicate] at hlen hlen'
  obtain ⟨hcount, hpads⟩ := mul_left_window hpad hpad'
    (by omega : a * digits.length + pad' = a * digits'.length + pad)
  rw [← hpads, ← hbits] at hbits'
  exact words_inj hcount h.digits_lt h'.digits_lt hbits'.symm

end Regroups

end BitString
