import Mathlib.Algebra.Order.BigOperators.Group.List
import Quark.Lib.Bytes

/-! Bounds-checked readers: a reader takes a value off the front of a byte string, or fails. -/

abbrev Reader := StateT (List UInt8) Option

namespace Reader

open List Bytes

def bytes (n : Nat) : Reader (List UInt8) :=
  fun bs => if bs.length < n then none else some (bs.take n, bs.drop n)

def u8 : Reader UInt8 := do return UInt8.ofNat (leValue (← bytes 1))
def u16 : Reader UInt16 := do return UInt16.ofNat (leValue (← bytes 2))
def u32 : Reader UInt32 := do return UInt32.ofNat (leValue (← bytes 4))
def u64 : Reader UInt64 := do return UInt64.ofNat (leValue (← bytes 8))

def left : Reader (List UInt8) := get

variable {A B : Type}

def times (r : Reader A) : Nat → Reader (List A)
  | 0 => pure []
  | n + 1 => do
      let a ← r
      let as ← times r n
      return a :: as

def putCount (n : Nat) : List UInt8 := putU16 (UInt16.ofNat n)

def counted (r : Reader A) : Reader (List A) := do times r (← u16).toNat

/-- Whatever follows, `r` reads `bs` as `v`. -/
def Reads (r : Reader A) (bs : List UInt8) (v : A) : Prop := ∀ rest, r.run (bs ++ rest) = some (v, rest)

/-- Whatever `r` reads has the property. -/
def Ensures (r : Reader A) (P : A → Prop) : Prop := ∀ bs v rest, r.run bs = some (v, rest) → P v

/-- `r` takes at least `n` bytes. -/
def Takes (r : Reader A) (n : Nat) : Prop := ∀ bs v rest, r.run bs = some (v, rest) → n + rest.length ≤ bs.length

section

variable {r : Reader A} {f : A → Reader B} {bs bs' : List UInt8} {a : A} {b : B} {P : A → Prop} {Q : B → Prop}

theorem reads_pure (a : A) : Reads (pure a) [] a := fun _ => rfl

theorem Reads.bind (h : Reads r bs a) (h' : Reads (f a) bs' b) : Reads (r >>= f) (bs ++ bs') b := by
  intro rest
  rw [StateT.run_bind, append_assoc, h]
  exact h' rest

theorem Reads.map {g : A → B} (h : Reads r bs a) : Reads (do return g (← r)) bs (g a) := by
  intro rest
  rw [StateT.run_bind, h]
  rfl

theorem ensures_true (r : Reader A) : Ensures r fun _ => True := fun _ _ _ _ => trivial

theorem ensures_pure (h : P a) : Ensures (pure a) P := by
  intro bs v rest hrun
  cases hrun
  exact h

theorem Ensures.bind (h : Ensures r P) (h' : ∀ a, P a → Ensures (f a) Q) : Ensures (r >>= f) Q := by
  intro bs v rest hrun
  rw [StateT.run_bind] at hrun
  obtain ⟨⟨a, mid⟩, hfirst, hsecond⟩ := Option.bind_eq_some_iff.mp hrun
  exact h' a (h bs a mid hfirst) mid v rest hsecond

theorem Ensures.skip (h' : ∀ a, Ensures (f a) Q) : Ensures (r >>= f) Q := (ensures_true r).bind fun a _ => h' a

theorem Ensures.guard {p : Prop} [Decidable p] (h : ¬ p → Ensures r P) : Ensures (if p then failure else r) P := by
  split
  · intro bs v rest hrun
    cases hrun
  · next hp => exact h hp

theorem reads_bytes (bs : List UInt8) : Reads (bytes bs.length) bs bs := by
  intro rest
  change (if (bs ++ rest).length < bs.length then none else some ((bs ++ rest).take bs.length, _)) = _
  rw [if_neg (by rw [length_append]; omega), take_left' rfl, drop_left' rfl]

theorem reads_bytes_of_length {n : Nat} (h : bs.length = n) : Reads (bytes n) bs bs := by
  rw [← h]
  exact reads_bytes bs

theorem ensures_bytes (n : Nat) : Ensures (bytes n) fun bs => bs.length = n := by
  intro bs v rest hrun
  change (if bs.length < n then none else some (bs.take n, bs.drop n)) = some (v, rest) at hrun
  split at hrun
  · cases hrun
  · cases hrun
    rw [length_take]
    omega

theorem reads_u8 (v : UInt8) : Reads u8 [v] v := by
  have h := (reads_bytes [v]).map (g := fun bs => UInt8.ofNat (leValue bs))
  rwa [leValue, leValue, mul_zero, add_zero, UInt8.ofNat_toNat] at h

theorem reads_u16 (v : UInt16) : Reads u16 (putU16 v) v := by
  have hv := v.toNat_lt
  have h := (reads_bytes_of_length (putU16_length v)).map (g := fun bs => UInt16.ofNat (leValue bs))
  rwa [putU16, leValue_leBytes, Nat.mod_eq_of_lt (by omega), UInt16.ofNat_toNat] at h

theorem reads_count {n : Nat} (h : n < 2 ^ 16) : Reads u16 (putCount n) (UInt16.ofNat n) ∧
    (UInt16.ofNat n).toNat = n :=
  ⟨reads_u16 _, UInt16.toNat_ofNat_of_lt' h⟩

theorem reads_u32 (v : UInt32) : Reads u32 (putU32 v) v := by
  have hv := v.toNat_lt
  have h := (reads_bytes_of_length (putU32_length v)).map (g := fun bs => UInt32.ofNat (leValue bs))
  rwa [putU32, leValue_leBytes, Nat.mod_eq_of_lt (by omega), UInt32.ofNat_toNat] at h

theorem reads_u64 (v : UInt64) : Reads u64 (putU64 v) v := by
  have hv := v.toNat_lt
  have h := (reads_bytes_of_length (putU64_length v)).map (g := fun bs => UInt64.ofNat (leValue bs))
  rwa [putU64, leValue_leBytes, Nat.mod_eq_of_lt (by omega), UInt64.ofNat_toNat] at h

theorem reads_times {put : A → List UInt8} {as : List A} (h : ∀ a ∈ as, Reads r (put a) a) :
    Reads (times r as.length) (as.flatMap put) as := by
  induction as with
  | nil => exact reads_pure []
  | cons a as ih =>
    exact (h a mem_cons_self).bind (ih fun a ha => h a (mem_cons_of_mem _ ha)).map

theorem ensures_times (n : Nat) : Ensures (times r n) fun as => as.length = n := by
  induction n with
  | zero => exact ensures_pure rfl
  | succ n ih => exact .skip fun a => ih.bind fun as has => ensures_pure (congrArg Nat.succ has)

theorem reads_counted {put : A → List UInt8} {as : List A} (hsmall : as.length < 2 ^ 16)
    (h : ∀ a ∈ as, Reads r (put a) a) :
    Reads (counted r) (putCount as.length ++ as.flatMap put) as := by
  obtain ⟨hcount, hlen⟩ := reads_count hsmall
  refine hcount.bind ?_
  rw [hlen]
  exact reads_times h

theorem ensures_counted : Ensures (counted r) fun as => as.length < 2 ^ 16 :=
  .skip fun n bs as rest hrun => by
    rw [ensures_times n.toNat bs as rest hrun]
    exact n.toNat_lt

theorem run_left (f : List UInt8 → Reader A) (bs : List UInt8) : (left >>= f).run bs = (f bs).run bs := rfl

theorem Reads.run_bind (h : Reads r bs a) (f : A → Reader B) (rest : List UInt8) :
    (r >>= f).run (bs ++ rest) = (f a).run rest := by
  rw [StateT.run_bind, h]
  rfl

theorem Reads.run (h : Reads r bs a) : r.run bs = some (a, []) := by
  have hrun := h []
  rwa [append_nil] at hrun

theorem takes_pure (a : A) : Takes (pure a) 0 := by
  intro bs v rest hrun
  cases hrun
  omega

theorem Takes.bind {n n' : Nat} (h : Takes r n) (h' : ∀ a, Takes (f a) n') : Takes (r >>= f) (n + n') := by
  intro bs v rest hrun
  rw [StateT.run_bind] at hrun
  obtain ⟨⟨a, mid⟩, hfirst, hsecond⟩ := Option.bind_eq_some_iff.mp hrun
  have hn := h bs a mid hfirst
  have hn' := h' a mid v rest hsecond
  omega

theorem Takes.mono {n n' : Nat} (h : Takes r n) (hle : n' ≤ n) : Takes r n' := by
  intro bs v rest hrun
  have hn := h bs v rest hrun
  omega

theorem takes_bytes (n : Nat) : Takes (bytes n) n := by
  intro bs v rest hrun
  change (if bs.length < n then none else some (bs.take n, bs.drop n)) = some (v, rest) at hrun
  split at hrun
  · cases hrun
  · cases hrun
    rw [length_drop]
    omega

theorem takes_u16 : Takes u16 2 := (takes_bytes 2).bind fun _ => takes_pure _

theorem takes_u64 : Takes u64 8 := (takes_bytes 8).bind fun _ => takes_pure _

theorem takes_times (h : Takes r 0) (n : Nat) : Takes (times r n) 0 := by
  induction n with
  | zero => exact takes_pure []
  | succ n ih => exact h.bind fun _ => ih.bind fun _ => takes_pure _

theorem takes_counted (h : Takes r 0) : Takes (counted r) 2 := takes_u16.bind fun n => takes_times h n.toNat

/-- If all of it is shorter than 16 bits can say, no count and no length in it is lost. -/
theorem reads_counted_of_length {put : A → List UInt8} {as : List A} (hsmall : (as.flatMap put).length < 2 ^ 16)
    (hput : ∀ a, 1 ≤ (put a).length) (h : ∀ a, (put a).length < 2 ^ 16 → Reads r (put a) a) :
    Reads (counted r) (putCount as.length ++ as.flatMap put) as := by
  rw [length_flatMap] at hsmall
  refine reads_counted (lt_of_le_of_lt ?_ hsmall) fun a ha => h a (lt_of_le_of_lt ?_ hsmall)
  · rw [← length_map (fun a => (put a).length)]
    refine length_le_sum_of_one_le _ fun n hn => ?_
    obtain ⟨a, -, rfl⟩ := mem_map.mp hn
    exact hput a
  · exact le_sum_of_mem (mem_map_of_mem ha)

end

end Reader
