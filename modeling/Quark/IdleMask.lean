import Mathlib.Algebra.Group.Nat.Defs
import Quark.Lib.Census
import Quark.Lib.Machine

/-! The idle mask of `engine.hpp` as the 32-bit word it is: workers in `park`, threads in `wake_one`, and the
`wake_all` of `stop`, one shared access a step. Whether a rescan finds work comes from outside. -/
set_option linter.unusedSectionVars false

namespace Quark.IdleMask

open Function List Option Census

/-- `1u << wid`, with the shift count taken as the hardware takes it. -/
def bit (wid : Nat) : BitVec 32 := 1#32 <<< (wid % 32)

def countrZero (m : BitVec 32) : Nat := ((List.range 32).find? m.getLsbD).getD 32

inductive WorkerPc
  | away
  /-- the word is loaded: before the bit is set -/
  | announce (seq : UInt32)
  | rescan (seq : UInt32)
  | waiting (seq : UInt32)
  /-- woken, or the rescan found work: before the bit is cleared -/
  | clear
  deriving DecidableEq, Repr

inductive WakerPc
  | idle
  | take (m : BitVec 32)
  | bump (id : Nat)
  deriving DecidableEq, Repr

/-- `n` is the worker count, and `P` are the threads that call `wake_one`. -/
structure State (n : Nat) (P : Type) where
  mask : BitVec 32 := 0
  wakeSeq : Nat → UInt32 := fun _ => 0
  worker : Fin n → WorkerPc := fun _ => .away
  waker : P → WakerPc := fun _ => .idle
  stopping : Bool := false
  /-- the workers that `wake_all` has still to bump start here -/
  sweep : Nat := n
  /-- the worker has announced idle, and since then nobody has taken its bit and it has not cleared it;
  no step reads this -/
  standing : Fin n → Bool := fun _ => false

inductive Label (n : Nat) (P : Type)
  | park (w : Fin n)
  | worker (w : Fin n) (found : Bool)
  | wakeOne (p : P)
  | waker (p : P)
  | spurious (p : P)
  | stop
  | sweep
  | start
  deriving DecidableEq, Repr

variable {n : Nat} {P : Type} [DecidableEq P]

namespace State

def setWorker (s : State n P) (w : Fin n) (pc : WorkerPc) : State n P :=
  { s with worker := update s.worker w pc }

def setWaker (s : State n P) (p : P) (pc : WakerPc) : State n P :=
  { s with waker := update s.waker p pc }

def announced (s : State n P) (w : Fin n) : State n P :=
  { s with mask := s.mask ||| bit w, standing := update s.standing w true }

def cleared (s : State n P) (w : Fin n) : State n P :=
  { s with mask := s.mask &&& ~~~bit w, standing := update s.standing w false }

def taken (s : State n P) (id : Nat) : State n P :=
  { s with mask := s.mask &&& ~~~bit id, standing := fun w => if w.val = id then false else s.standing w }

def bumped (s : State n P) (id : Nat) : State n P :=
  { s with wakeSeq := update s.wakeSeq id (s.wakeSeq id + 1) }

section

variable (s : State n P) (w v : Fin n) (p q : P)

theorem worker_setWorker (pc : WorkerPc) : (s.setWorker w pc).worker v = if v = w then pc else s.worker v :=
  update_apply ..

theorem waker_setWaker (pc : WakerPc) : (s.setWaker p pc).waker q = if q = p then pc else s.waker q :=
  update_apply ..

theorem standing_announced : (s.announced w).standing v = if v = w then true else s.standing v :=
  update_apply ..

theorem standing_cleared : (s.cleared w).standing v = if v = w then false else s.standing v :=
  update_apply ..

theorem wakeSeq_bumped (id b : Nat) : (s.bumped id).wakeSeq b = if b = id then s.wakeSeq id + 1 else s.wakeSeq b :=
  update_apply ..

end

end State

def seen (m : BitVec 32) : WakerPc := if m = 0 then .idle else .take m

def stepWorker (s : State n P) (w : Fin n) (found : Bool) : Option (State n P) :=
  match s.worker w with
  | .away => none
  | .announce seq => some ((s.announced w).setWorker w (.rescan seq))
  | .rescan seq => some (s.setWorker w (if found || s.stopping then .clear else .waiting seq))
  | .waiting seq => if s.wakeSeq w = seq then none else some (s.setWorker w .clear)
  | .clear => some ((s.cleared w).setWorker w .away)

def stepWaker (s : State n P) (p : P) : Option (State n P) :=
  match s.waker p with
  | .idle => none
  | .take m =>
    if s.mask = m then some ((s.taken (countrZero m)).setWaker p (.bump (countrZero m)))
    else some (s.setWaker p (seen s.mask))
  | .bump id => some ((s.bumped id).setWaker p .idle)

def step (s : State n P) : Label n P → Option (State n P)
  | .park w => if s.worker w = .away then some (s.setWorker w (.announce (s.wakeSeq w))) else none
  | .worker w found => stepWorker s w found
  | .wakeOne p => if s.waker p = .idle then some (s.setWaker p (seen s.mask)) else none
  | .waker p => stepWaker s p
  | .spurious p =>
    match s.waker p with
    | .take _ => some (s.setWaker p (seen s.mask))
    | _ => none
  | .stop => if s.stopping then none else some { s with stopping := true, sweep := 0 }
  | .sweep =>
    if s.stopping ∧ s.sweep < n then some ({ s with sweep := s.sweep + 1 }.bumped s.sweep) else none
  -- `stop` has joined its workers by then
  | .start =>
    if s.stopping ∧ s.sweep = n ∧ ∀ w, s.worker w = .away then some { s with stopping := false } else none

section

theorem getLsbD_bit {wid b : Nat} (hw : wid < 32) (hb : b < 32) : (bit wid).getLsbD b = decide (b = wid) := by
  rw [bit, Nat.mod_eq_of_lt hw, BitVec.getLsbD_shiftLeft, BitVec.getLsbD_one]
  by_cases h : b = wid
  · simp [h, hw]
  · simp only [hb, decide_true, Bool.true_and]
    have hdiff : b - wid = 0 → b < wid := by omega
    by_cases hlt : b < wid
    · simp [hlt, h]
    · simp [hlt, h]
      omega

theorem bit_add (wid : Nat) : bit (wid + 32) = bit wid := by rw [bit, bit, Nat.add_mod_right]

theorem bit_injective_iff (n : Nat) : Function.Injective (fun w : Fin n => bit w) ↔ n ≤ 32 := by
  constructor
  · intro hinj
    by_contra hmore
    have heq : bit 32 = bit 0 := bit_add 0
    have hzero := @hinj ⟨32, by omega⟩ ⟨0, by omega⟩ heq
    simp at hzero
  · intro hn w w' heq
    have hbit : (bit w).getLsbD w = decide (w.val = w.val) := getLsbD_bit (by omega) (by omega)
    change bit w = bit w' at heq
    rw [heq, getLsbD_bit (by omega) (by omega)] at hbit
    apply Fin.ext
    simpa using hbit

theorem countrZero_spec {m : BitVec 32} (h : m ≠ 0) : countrZero m < 32 ∧ m.getLsbD (countrZero m) = true := by
  rw [countrZero]
  cases hfind : (List.range 32).find? m.getLsbD with
  | none =>
    exfalso
    apply h
    apply BitVec.eq_of_getLsbD_eq
    intro i hi
    have hnot := find?_eq_none.mp hfind i (mem_range.mpr hi)
    simpa using hnot
  | some i =>
    exact ⟨mem_range.mp (mem_of_find?_eq_some hfind), find?_some hfind⟩

end

namespace State

variable [Fintype P]

/-- The threads that took the bit of `b` and have not bumped it yet. -/
def pend (s : State n P) (b : Nat) : Nat := census (fun pc => pc = .bump b) s.waker

/-- `1` as long as `wake_all` may still bump `b`. -/
def sweepLeft (s : State n P) (b : Nat) : Nat := if s.stopping ∧ b < s.sweep then 0 else 1

theorem pend_setWaker (s : State n P) (p : P) (pc : WakerPc) (b : Nat) :
    (s.setWaker p pc).pend b + (if s.waker p = .bump b then 1 else 0) =
      s.pend b + if pc = .bump b then 1 else 0 := census_update _ s.waker p pc

end State

/-- A worker that loaded `seq` from its word: the bumps since then and those that may still come, and that one
of them comes at all. -/
def Loaded (word seq : UInt32) (announced pend sweepLeft limit : Nat) : Prop :=
  ∃ k, word = seq + UInt32.ofNat k ∧ k + announced + pend + sweepLeft ≤ limit ∧ 0 < k + announced + pend

namespace Loaded

variable {word seq : UInt32} {announced pend sweepLeft limit : Nat}

theorem taken (h : Loaded word seq 1 pend sweepLeft limit) : Loaded word seq 0 (pend + 1) sweepLeft limit := by
  obtain ⟨k, hword, hlimit, _⟩ := h
  exact ⟨k, hword, by omega, by omega⟩

theorem bump_word {k : Nat} (h : word = seq + UInt32.ofNat k) : word + 1 = seq + UInt32.ofNat (k + 1) := by
  rw [h, UInt32.ofNat_add, UInt32.add_assoc]
  rfl

theorem bumped (h : Loaded word seq announced (pend + 1) sweepLeft limit) :
    Loaded (word + 1) seq announced pend sweepLeft limit := by
  obtain ⟨k, hword, hlimit, _⟩ := h
  exact ⟨k + 1, bump_word hword, by omega, by omega⟩

theorem swept (h : Loaded word seq announced pend 1 limit) : Loaded (word + 1) seq announced pend 0 limit := by
  obtain ⟨k, hword, hlimit, _⟩ := h
  exact ⟨k + 1, bump_word hword, by omega, by omega⟩

theorem ne (h : Loaded word seq 0 0 sweepLeft limit) (hlimit : limit < 2 ^ 32) : word ≠ seq := by
  obtain ⟨k, rfl, hk, hpos⟩ := h
  intro heq
  have hnat := congrArg UInt32.toNat heq
  rw [UInt32.toNat_add, UInt32.toNat_ofNat'] at hnat
  have hseq := seq.toNat_lt
  omega

end Loaded

structure Inv [Fintype P] (s : State n P) : Prop where
  bits : ∀ b, s.mask.getLsbD b = true ↔ ∃ w : Fin n, w.val = b ∧ s.standing w = true
  placed : ∀ w, s.standing w = true →
    (∃ seq, s.worker w = .rescan seq ∨ s.worker w = .waiting seq) ∨ s.worker w = .clear
  nonzero : ∀ p m, s.waker p = .take m → m ≠ 0
  targets : ∀ p b, s.waker p = .bump b → b < n
  before : ∀ w seq, s.worker w = .announce seq →
    Loaded (s.wakeSeq w) seq 1 (s.pend w) (s.sweepLeft w) (Fintype.card P + 2)
  loaded : ∀ w seq, s.worker w = .rescan seq ∨ s.worker w = .waiting seq →
    Loaded (s.wakeSeq w) seq (s.standing w).toNat (s.pend w) (s.sweepLeft w) (Fintype.card P + 2)

section

variable [Fintype P] {s s' : State n P}

theorem seen_bump (m : BitVec 32) (b : Nat) : seen m ≠ .bump b := by
  rw [seen]
  split <;> nofun

theorem seen_nonzero {m m' : BitVec 32} (h : seen m = .take m') : m' ≠ 0 := by
  rw [seen] at h
  split at h
  · cases h
  · next hm =>
    cases h
    exact hm

theorem start_inv : Inv ({} : State n P) := by
  constructor
  · intro b
    simp
  all_goals (intros; simp_all)

theorem Inv.setWaker (h : Inv s) (p : P) (pc : WakerPc) (hfrom : ∀ b, s.waker p ≠ .bump b)
    (hto : ∀ b, pc ≠ .bump b) (hnz : ∀ m, pc = .take m → m ≠ 0) : Inv (s.setWaker p pc) := by
  have hpend (b : Nat) : (s.setWaker p pc).pend b = s.pend b := by
    have hmove := s.pend_setWaker p pc b
    rw [if_neg (hfrom b), if_neg (hto b)] at hmove
    exact hmove
  have hwaker (q : P) : (s.setWaker p pc).waker q = pc ∨ (s.setWaker p pc).waker q = s.waker q := by
    by_cases hq : q = p
    · subst hq
      left
      simp [State.setWaker]
    · right
      simp [State.setWaker, hq]
  constructor
  · exact h.bits
  · exact h.placed
  · intro q m hq
    rcases hwaker q with hpc | hsame
    · exact hnz m (hpc ▸ hq)
    · exact h.nonzero q m (hsame ▸ hq)
  · intro q b hq
    rcases hwaker q with hpc | hsame
    · exact absurd (hpc ▸ hq) (hto b)
    · exact h.targets q b (hsame ▸ hq)
  · intro w seq hw
    rw [hpend]
    exact h.before w seq hw
  · intro w seq hw
    rw [hpend]
    exact h.loaded w seq hw

theorem getLsbD_clear (hn : n ≤ 32) (m : BitVec 32) (w : Fin n) (b : Nat) :
    (m &&& ~~~bit w).getLsbD b = (m.getLsbD b && decide (b ≠ w.val)) := by
  rw [BitVec.getLsbD_and, BitVec.getLsbD_not]
  by_cases hb : b < 32
  · rw [getLsbD_bit (by omega) hb]
    by_cases heq : b = w.val <;> simp [hb, heq]
  · rw [BitVec.getLsbD_of_ge m b (by omega)]
    simp

theorem Inv.clear_bits (hn : n ≤ 32) (h : Inv s) {w : Fin n}
    (hstanding : ∀ v, s'.standing v = if v = w then false else s.standing v)
    (hmask : s'.mask = s.mask &&& ~~~bit w) (b : Nat) :
    s'.mask.getLsbD b = true ↔ ∃ v : Fin n, v.val = b ∧ s'.standing v = true := by
  rw [hmask, getLsbD_clear hn, Bool.and_eq_true, h.bits b, decide_eq_true_eq]
  simp only [hstanding]
  constructor
  · rintro ⟨⟨v, rfl, hv⟩, hne⟩
    exact ⟨v, rfl, by rw [if_neg (fun heq => hne (congrArg Fin.val heq)), hv]⟩
  · rintro ⟨v, rfl, hv⟩
    split at hv
    · cases hv
    · next hne => exact ⟨⟨v, rfl, hv⟩, fun heq => hne (Fin.ext heq)⟩

theorem Inv.taken_worker (h : Inv s) {p : P} {m : BitVec 32} (hp : s.waker p = .take m) (hm : s.mask = m) :
    ∃ w : Fin n, countrZero m = w.val ∧ s.standing w = true := by
  have hset := (countrZero_spec (h.nonzero p m hp)).2
  rw [← hm] at hset ⊢
  obtain ⟨w, hw, hstanding⟩ := (h.bits _).mp hset
  exact ⟨w, hw.symm, hstanding⟩

theorem Inv.take (hn : n ≤ 32) (h : Inv s) {p : P} {m : BitVec 32} {w : Fin n} (hp : s.waker p = .take m)
    (hw : s.standing w = true) : Inv ((s.taken w).setWaker p (.bump w)) := by
  have hpend (b : Nat) : ((s.taken w).setWaker p (.bump w)).pend b = s.pend b + if w.val = b then 1 else 0 := by
    have hmove := (s.taken w).pend_setWaker p (.bump w) b
    have hat : (s.taken w).waker p = .take m := hp
    simp only [hat, WakerPc.bump.injEq, reduceCtorEq, if_false, Nat.add_zero] at hmove
    exact hmove
  have hstanding (v : Fin n) : ((s.taken w).setWaker p (.bump w)).standing v =
      if v = w then false else s.standing v := by
    simp [State.setWaker, State.taken, Fin.ext_iff]
  constructor
  · exact fun b => h.clear_bits hn hstanding rfl b
  · intro v hv
    rw [hstanding] at hv
    split at hv
    · cases hv
    · exact h.placed v hv
  · intro q m' hq
    by_cases hqp : q = p
    · subst hqp
      simp [State.setWaker] at hq
    · exact h.nonzero q m' (by simpa [State.setWaker, State.taken, hqp] using hq)
  · intro q b hq
    by_cases hqp : q = p
    · subst hqp
      simp only [State.setWaker, update_self, WakerPc.bump.injEq] at hq
      omega
    · exact h.targets q b (by simpa [State.setWaker, State.taken, hqp] using hq)
  · intro v seq hv
    have hne : w.val ≠ v.val := by
      intro heq
      rcases h.placed w hw with ⟨seq', hat⟩ | hat
      all_goals
        have hvw : v = w := (Fin.ext heq).symm
        subst hvw
        have hv' : s.worker v = .announce seq := hv
        rw [hv'] at hat
        simp at hat
    rw [hpend, if_neg hne]
    exact h.before v seq hv
  · intro v seq hv
    have hload := h.loaded v seq hv
    rw [hpend, hstanding]
    by_cases heq : v = w
    · subst heq
      rw [if_pos rfl, if_pos rfl]
      rw [hw] at hload
      exact hload.taken
    · rw [if_neg heq, if_neg (fun hval => heq (Fin.ext hval).symm)]
      exact hload

theorem Inv.bump (h : Inv s) {p : P} {id : Nat} (hp : s.waker p = .bump id) :
    Inv ((s.bumped id).setWaker p .idle) := by
  have hpend (b : Nat) : ((s.bumped id).setWaker p .idle).pend b + (if id = b then 1 else 0) = s.pend b := by
    have hmove := (s.bumped id).pend_setWaker p .idle b
    have hat : (s.bumped id).waker p = .bump id := hp
    simp only [hat, WakerPc.bump.injEq, reduceCtorEq, if_false, Nat.add_zero] at hmove
    exact hmove
  have hword (b : Nat) : ((s.bumped id).setWaker p .idle).wakeSeq b =
      if id = b then s.wakeSeq b + 1 else s.wakeSeq b := by
    by_cases hb : id = b
    · subst hb
      simp [State.setWaker, State.bumped]
    · simp [State.setWaker, State.bumped, hb, Ne.symm hb]
  have hkeep (w : Fin n) (seq : UInt32) (a l : Nat)
    (hload : Loaded (s.wakeSeq w) seq a (s.pend w) l (Fintype.card P + 2)) :
      Loaded (((s.bumped id).setWaker p .idle).wakeSeq w) seq a (((s.bumped id).setWaker p .idle).pend w) l
        (Fintype.card P + 2) := by
    have hw := hpend w
    rw [hword]
    split at hw
    · next heq =>
      rw [if_pos heq]
      rw [← hw] at hload
      exact hload.bumped
    · next hne =>
      rw [if_neg hne]
      rw [← hw] at hload
      exact hload
  constructor
  · exact h.bits
  · exact h.placed
  · intro q m hq
    by_cases hqp : q = p
    · subst hqp
      simp [State.setWaker] at hq
    · exact h.nonzero q m (by simpa [State.setWaker, State.bumped, hqp] using hq)
  · intro q b hq
    by_cases hqp : q = p
    · subst hqp
      simp [State.setWaker] at hq
    · exact h.targets q b (by simpa [State.setWaker, State.bumped, hqp] using hq)
  · intro w seq hw
    exact hkeep w seq _ _ (h.before w seq hw)
  · intro w seq hw
    exact hkeep w seq _ _ (h.loaded w seq hw)

theorem Inv.setWorker (h : Inv s) (w : Fin n) (pc : WorkerPc)
    (hplaced : s.standing w = true → (∃ seq, pc = .rescan seq ∨ pc = .waiting seq) ∨ pc = .clear)
    (hbefore : ∀ seq, pc = .announce seq →
      Loaded (s.wakeSeq w) seq 1 (s.pend w) (s.sweepLeft w) (Fintype.card P + 2))
    (hloaded : ∀ seq, pc = .rescan seq ∨ pc = .waiting seq →
      Loaded (s.wakeSeq w) seq (s.standing w).toNat (s.pend w) (s.sweepLeft w) (Fintype.card P + 2)) :
    Inv (s.setWorker w pc) := by
  have hat (v : Fin n) := s.worker_setWorker w v pc
  constructor
  · exact h.bits
  · intro v hv
    rw [hat]
    split
    · next heq =>
      subst heq
      exact hplaced hv
    · exact h.placed v hv
  · exact h.nonzero
  · exact h.targets
  · intro v seq hv
    rw [hat] at hv
    split at hv
    · next heq =>
      subst heq
      exact hbefore seq hv
    · exact h.before v seq hv
  · intro v seq hv
    rw [hat] at hv
    split at hv
    · next heq =>
      subst heq
      exact hloaded seq hv
    · exact h.loaded v seq hv

theorem Inv.announce (hn : n ≤ 32) (h : Inv s) {w : Fin n} {seq : UInt32} (hw : s.worker w = .announce seq) :
    Inv ((s.announced w).setWorker w (.rescan seq)) := by
  have hload := h.before w seq hw
  have hstanding (v : Fin n) : ((s.announced w).setWorker w (.rescan seq)).standing v =
      if v = w then true else s.standing v := s.standing_announced w v
  have hat (v : Fin n) : ((s.announced w).setWorker w (.rescan seq)).worker v =
      if v = w then .rescan seq else s.worker v := (s.announced w).worker_setWorker w v _
  constructor
  · intro b
    change (s.mask ||| bit w).getLsbD b = true ↔ _
    rw [BitVec.getLsbD_or, Bool.or_eq_true, h.bits b]
    simp only [hstanding]
    constructor
    · rintro (⟨v, rfl, hv⟩ | hbit)
      · exact ⟨v, rfl, by split <;> simp_all⟩
      · have hb : b < 32 := BitVec.lt_of_getLsbD hbit
        rw [getLsbD_bit (by omega) hb, decide_eq_true_eq] at hbit
        exact ⟨w, hbit.symm, by simp⟩
    · rintro ⟨v, rfl, hv⟩
      split at hv
      · next heq =>
        subst heq
        right
        rw [getLsbD_bit (by omega) (by omega)]
        simp
      · exact Or.inl ⟨v, rfl, hv⟩
  · intro v hv
    rw [hstanding] at hv
    rw [hat]
    split
    · exact Or.inl ⟨seq, Or.inl (Eq.refl _)⟩
    · next hne =>
      rw [if_neg hne] at hv
      exact h.placed v hv
  · exact h.nonzero
  · exact h.targets
  · intro v seq' hv
    rw [hat] at hv
    split at hv
    · cases hv
    · exact h.before v seq' hv
  · intro v seq' hv
    rw [hat] at hv
    rw [hstanding]
    split at hv
    · next heq =>
      subst heq
      rw [if_pos (Eq.refl _)]
      simp only [WorkerPc.rescan.injEq, reduceCtorEq, or_false] at hv
      subst hv
      exact hload
    · next hne =>
      rw [if_neg hne]
      exact h.loaded v seq' hv

theorem Inv.clear (hn : n ≤ 32) (h : Inv s) (w : Fin n) : Inv ((s.cleared w).setWorker w .away) := by
  have hstanding (v : Fin n) : ((s.cleared w).setWorker w .away).standing v =
      if v = w then false else s.standing v := s.standing_cleared w v
  have hat (v : Fin n) : ((s.cleared w).setWorker w .away).worker v = if v = w then .away else s.worker v :=
    (s.cleared w).worker_setWorker w v _
  constructor
  · exact fun b => h.clear_bits hn hstanding rfl b
  · intro v hv
    rw [hstanding] at hv
    rw [hat]
    split at hv
    · cases hv
    · next hne =>
      rw [if_neg hne]
      exact h.placed v hv
  · exact h.nonzero
  · exact h.targets
  · intro v seq hv
    rw [hat] at hv
    split at hv
    · cases hv
    · exact h.before v seq hv
  · intro v seq hv
    rw [hat] at hv
    rw [hstanding]
    split at hv
    · simp at hv
    · next hne =>
      rw [if_neg hne]
      exact h.loaded v seq hv

theorem sweepLeft_le (s : State n P) (b : Nat) : s.sweepLeft b ≤ 1 := by
  rw [State.sweepLeft]
  split <;> omega

theorem Inv.stepWorker (hn : n ≤ 32) (h : Inv s) {w : Fin n} {found : Bool}
    (hstep : stepWorker s w found = some s') : Inv s' := by
  rw [IdleMask.stepWorker] at hstep
  cases hw : s.worker w with
  | away => simp [hw] at hstep
  | announce seq =>
    simp only [hw, some.injEq] at hstep
    subst hstep
    exact h.announce hn hw
  | rescan seq =>
    simp only [hw, some.injEq] at hstep
    subst hstep
    have hload := h.loaded w seq (Or.inl hw)
    by_cases hback : (found || s.stopping) = true
    · rw [if_pos hback]
      exact h.setWorker w .clear (fun _ => Or.inr (Eq.refl _)) nofun (by simp)
    · rw [if_neg hback]
      apply h.setWorker w (.waiting seq) (fun _ => Or.inl ⟨seq, Or.inr (Eq.refl _)⟩) nofun
      rintro seq' (hseq | hseq)
      · cases hseq
      · cases hseq
        exact hload
  | waiting seq =>
    simp only [hw, ite_none_left_eq_some, some.injEq] at hstep
    obtain ⟨_, rfl⟩ := hstep
    exact h.setWorker w .clear (fun _ => Or.inr (Eq.refl _)) nofun (by simp)
  | clear =>
    simp only [hw, some.injEq] at hstep
    subst hstep
    exact h.clear hn w

theorem Inv.stepWaker (hn : n ≤ 32) (h : Inv s) {p : P} (hstep : stepWaker s p = some s') : Inv s' := by
  rw [IdleMask.stepWaker] at hstep
  cases hp : s.waker p with
  | idle => simp [hp] at hstep
  | take m =>
    simp only [hp] at hstep
    split at hstep
    · next hm =>
      cases hstep
      obtain ⟨w, hid, hstanding⟩ := h.taken_worker hp hm
      rw [hid]
      exact h.take hn hp hstanding
    · cases hstep
      exact h.setWaker p _ (by simp [hp]) (seen_bump _) fun _ => seen_nonzero
  | bump id =>
    simp only [hp, some.injEq] at hstep
    subst hstep
    exact h.bump hp

theorem Inv.sweep (h : Inv s) (hstop : s.stopping = true) :
    Inv ({ s with sweep := s.sweep + 1 }.bumped s.sweep) := by
  have hkeep (w : Fin n) (seq : UInt32) (a : Nat)
      (hload : Loaded (s.wakeSeq w) seq a (s.pend w) (s.sweepLeft w) (Fintype.card P + 2)) :
      Loaded (({ s with sweep := s.sweep + 1 }.bumped s.sweep).wakeSeq w) seq a (s.pend w)
        (({ s with sweep := s.sweep + 1 }.bumped s.sweep).sweepLeft w) (Fintype.card P + 2) := by
    simp only [State.sweepLeft, hstop, true_and, State.bumped] at hload ⊢
    by_cases hw : w.val = s.sweep
    · rw [if_neg (by omega)] at hload
      rw [if_pos (by omega), ← hw, update_self]
      exact hload.swept
    · rw [update_of_ne hw]
      by_cases hlt : w.val < s.sweep
      · rw [if_pos hlt] at hload
        rw [if_pos (by omega)]
        exact hload
      · rw [if_neg hlt] at hload
        rw [if_neg (by omega)]
        exact hload
  constructor
  · exact h.bits
  · exact h.placed
  · exact h.nonzero
  · exact h.targets
  · intro w seq hw
    exact hkeep w seq _ (h.before w seq hw)
  · intro w seq hw
    exact hkeep w seq _ (h.loaded w seq hw)

theorem Inv.step (hn : n ≤ 32) (h : Inv s) {a : Label n P} (hstep : step s a = some s') : Inv s' := by
  cases a with
  | park w =>
    simp only [IdleMask.step, ite_none_right_eq_some, some.injEq] at hstep
    obtain ⟨haway, rfl⟩ := hstep
    apply h.setWorker w
    · intro hstanding
      have hplaced := h.placed w hstanding
      simp [haway] at hplaced
    · intro seq hseq
      cases hseq
      have hpend : s.pend w ≤ Fintype.card P := census_le _ _
      have hleft := sweepLeft_le s w
      exact ⟨0, by simp, by omega, by omega⟩
    · simp
  | worker w found => exact h.stepWorker hn hstep
  | wakeOne p =>
    simp only [IdleMask.step, ite_none_right_eq_some, some.injEq] at hstep
    obtain ⟨hidle, rfl⟩ := hstep
    exact h.setWaker p _ (by simp [hidle]) (seen_bump _) fun _ => seen_nonzero
  | waker p => exact h.stepWaker hn hstep
  | spurious p =>
    simp only [IdleMask.step] at hstep
    split at hstep
    · next hp =>
      cases hstep
      exact h.setWaker p _ (by simp [hp]) (seen_bump _) fun _ => seen_nonzero
    · cases hstep
  | stop =>
    simp only [IdleMask.step, ite_none_left_eq_some, some.injEq] at hstep
    obtain ⟨hrunning, rfl⟩ := hstep
    have hleft (b : Nat) : ({ s with stopping := true, sweep := 0 } : State n P).sweepLeft b = s.sweepLeft b := by
      simp [State.sweepLeft, hrunning]
    constructor
    · exact h.bits
    · exact h.placed
    · exact h.nonzero
    · exact h.targets
    · intro w seq hw
      rw [hleft]
      exact h.before w seq hw
    · intro w seq hw
      rw [hleft]
      exact h.loaded w seq hw
  | sweep =>
    simp only [IdleMask.step, ite_none_right_eq_some, some.injEq] at hstep
    obtain ⟨⟨hstop, _⟩, rfl⟩ := hstep
    exact h.sweep hstop
  | start =>
    simp only [IdleMask.step, ite_none_right_eq_some, some.injEq] at hstep
    obtain ⟨⟨_, _, haway⟩, rfl⟩ := hstep
    constructor
    · exact h.bits
    · exact h.placed
    · exact h.nonzero
    · exact h.targets
    · intro w seq hw
      have hw' : s.worker w = .announce seq := hw
      simp [haway w] at hw'
    · intro w seq hw
      have hw' : s.worker w = .rescan seq ∨ s.worker w = .waiting seq := hw
      simp [haway w] at hw'

theorem reachable_inv (hn : n ≤ 32) (h : Machine.Reachable step ({} : State n P) s) : Inv s :=
  h.invariant start_inv fun _ _ _ hinv hstep => hinv.step hn hstep

/-- A worker that waits and whose bit was taken: its word has changed, or a waker is about to change it. -/
theorem Inv.leaving (h : Inv s) (hP : Fintype.card P + 2 < 2 ^ 32) {w : Fin n} {seq : UInt32}
    (hw : s.worker w = .waiting seq) (htaken : s.standing w = false) :
    s.wakeSeq w ≠ seq ∨ ∃ p, s.waker p = .bump w := by
  have hload := h.loaded w seq (Or.inr hw)
  rw [htaken] at hload
  by_cases hpend : s.pend w = 0
  · left
    rw [hpend] at hload
    exact hload.ne hP
  · exact Or.inr (census_pos.mp (Nat.pos_of_ne_zero hpend))

theorem stepWorker_cases {w : Fin n} {found : Bool} (hstep : stepWorker s w found = some s') :
    s'.waker = s.waker ∧ s'.wakeSeq = s.wakeSeq ∧ ∀ v, v ≠ w → s'.worker v = s.worker v ∧
      s'.standing v = s.standing v := by
  rw [stepWorker] at hstep
  cases hw : s.worker w with
  | away => simp [hw] at hstep
  | waiting seq =>
    simp only [hw, ite_none_left_eq_some, some.injEq] at hstep
    obtain ⟨_, rfl⟩ := hstep
    simp +contextual [State.setWorker]
  | _ =>
    simp only [hw, some.injEq] at hstep
    subst hstep
    simp +contextual [State.setWorker, State.announced, State.cleared]

theorem stepWaker_cases {p : P} (hstep : stepWaker s p = some s') :
    (∃ m, s.waker p = .take m ∧ s.mask = m ∧ s' = (s.taken (countrZero m)).setWaker p (.bump (countrZero m))) ∨
      (∃ m, s.waker p = .take m ∧ s.mask ≠ m ∧ s' = s.setWaker p (seen s.mask)) ∨
      ∃ id, s.waker p = .bump id ∧ s' = (s.bumped id).setWaker p .idle := by
  cases hp : s.waker p <;> grind [stepWaker]

theorem bump_cases {a : Label n P} {p : P} {id : Nat} (hstep : step s a = some s') (hp : s'.waker p = .bump id) :
    s.waker p = .bump id ∨
      a = .waker p ∧ ∃ m, s.waker p = .take m ∧ s.mask = m ∧ countrZero m = id ∧
        s' = (s.taken id).setWaker p (.bump id) := by
  have hseen (q : P) (hq : (s.setWaker q (seen s.mask)).waker p = .bump id) : s.waker p = .bump id := by
    rw [State.waker_setWaker] at hq
    split at hq
    · exact absurd hq (seen_bump _ _)
    · exact hq
  cases a with
  | worker w found =>
    rw [(stepWorker_cases hstep).1] at hp
    exact Or.inl hp
  | waker q =>
    rcases stepWaker_cases hstep with ⟨m, hq, hm, rfl⟩ | ⟨m, _, _, rfl⟩ | ⟨b, _, rfl⟩
    · rw [State.waker_setWaker] at hp
      split at hp
      · next heq =>
        subst heq
        cases hp
        exact Or.inr ⟨rfl, m, hq, hm, rfl, rfl⟩
      · exact Or.inl hp
    · exact Or.inl (hseen q hp)
    · rw [State.waker_setWaker] at hp
      split at hp
      · cases hp
      · exact Or.inl hp
  | _ =>
    simp only [step] at hstep
    grind [State.setWorker, State.bumped]

theorem wakeSeq_cases {a : Label n P} {b : Nat} (hstep : step s a = some s') (hb : s'.wakeSeq b ≠ s.wakeSeq b) :
    (∃ p, a = .waker p ∧ s.waker p = .bump b ∧ s'.waker p = .idle) ∨ a = .sweep ∧ s.sweep = b := by
  have hself (t : State n P) (id : Nat) (hne : (t.bumped id).wakeSeq b ≠ t.wakeSeq b) : id = b := by
    by_contra hid
    rw [State.wakeSeq_bumped, if_neg (Ne.symm hid)] at hne
    exact hne rfl
  cases a with
  | worker w found =>
    rw [(stepWorker_cases hstep).2.1] at hb
    exact absurd rfl hb
  | waker p =>
    rcases stepWaker_cases hstep with ⟨m, _, _, rfl⟩ | ⟨m, _, _, rfl⟩ | ⟨id, hp, rfl⟩
    · exact absurd rfl hb
    · exact absurd rfl hb
    · have hid := hself s id hb
      subst hid
      exact Or.inl ⟨p, rfl, hp, by rw [State.waker_setWaker, if_pos rfl]⟩
  | sweep =>
    simp only [step, ite_none_right_eq_some, some.injEq] at hstep
    obtain ⟨_, rfl⟩ := hstep
    exact Or.inr ⟨rfl, hself { s with sweep := s.sweep + 1 } s.sweep hb⟩
  | _ =>
    simp only [step] at hstep
    grind [State.setWorker, State.setWaker]

theorem waiting_keeps {a : Label n P} {w : Fin n} {seq : UInt32} (hstep : step s a = some s')
    (hw : s.worker w = .waiting seq) (hother : ∀ found, a ≠ .worker w found) :
    s'.worker w = .waiting seq ∧ (s.standing w = false → s'.standing w = false) := by
  cases a with
  | worker v found =>
    have hne : w ≠ v := by
      rintro rfl
      exact hother found rfl
    obtain ⟨hat, hstanding⟩ := (stepWorker_cases hstep).2.2 w hne
    exact ⟨hat.trans hw, hstanding.trans⟩
  | waker p =>
    rcases stepWaker_cases hstep with ⟨m, _, _, rfl⟩ | ⟨m, _, _, rfl⟩ | ⟨id, _, rfl⟩
    · refine ⟨hw, fun htaken => ?_⟩
      simp [State.setWaker, State.taken, htaken]
    · exact ⟨hw, id⟩
    · exact ⟨hw, fun htaken => htaken⟩
  | park v =>
    simp only [step, ite_none_right_eq_some, some.injEq] at hstep
    obtain ⟨haway, rfl⟩ := hstep
    have hne : w ≠ v := by
      rintro rfl
      rw [hw] at haway
      cases haway
    exact ⟨by rw [State.worker_setWorker, if_neg hne, hw], fun htaken => htaken⟩
  | _ =>
    simp only [step] at hstep
    grind [State.setWaker, State.bumped]

theorem leaves_of_taken (hn : n ≤ 32) (hP : Fintype.card P + 2 < 2 ^ 32) {w : Fin n} {seq : UInt32}
    {labels : List (Label n P)} (h : Inv s) (hw : s.worker w = .waiting seq) (htaken : s.standing w = false)
    (hrun : Machine.run step s labels = some s') (hbumps : ∀ p, s.waker p = .bump w → .waker p ∈ labels) :
    (∃ found, .worker w found ∈ labels) ∨ ∃ s'', step s' (.worker w false) = some s'' ∧ s''.worker w = .clear := by
  induction labels generalizing s with
  | nil =>
    cases hrun
    right
    rcases h.leaving hP hw htaken with hne | ⟨p, hp⟩
    · refine ⟨s'.setWorker w .clear, ?_, by rw [State.worker_setWorker, if_pos rfl]⟩
      simp only [step, stepWorker, hw, if_neg hne]
    · exact absurd (hbumps p hp) not_mem_nil
  | cons a labels ih =>
    obtain ⟨mid, hstep, hrest⟩ := Machine.run_cons.mp hrun
    by_cases hself : ∃ found, a = .worker w found
    · obtain ⟨found, rfl⟩ := hself
      exact Or.inl ⟨found, mem_cons_self⟩
    · have hother : ∀ found, a ≠ .worker w found := fun found heq => hself ⟨found, heq⟩
      obtain ⟨hw', htaken'⟩ := waiting_keeps hstep hw hother
      have hnext := ih (h.step hn hstep) hw' (htaken' htaken) hrest
      have hbumps' : ∀ p, mid.waker p = .bump w → .waker p ∈ labels := by
        intro p hp
        rcases bump_cases hstep hp with hp' | ⟨_, m, hp', hm, hid, _⟩
        · rcases mem_cons.mp (hbumps p hp') with heq | hlater
          -- its bump is this step: it is not before one afterwards
          · subst heq
            rcases stepWaker_cases hstep with ⟨m, hm, _, _⟩ | ⟨m, hm, _, _⟩ | ⟨id, _, rfl⟩
            · rw [hp'] at hm
              cases hm
            · rw [hp'] at hm
              cases hm
            · rw [State.waker_setWaker, if_pos rfl] at hp
              cases hp
          · exact hlater
        · obtain ⟨v, hv, hstanding⟩ := h.taken_worker hp' hm
          rw [hid] at hv
          rw [← Fin.ext hv, htaken] at hstanding
          cases hstanding
      rcases hnext hbumps' with ⟨found, hfound⟩ | hleft
      · exact Or.inl ⟨found, mem_cons_of_mem _ hfound⟩
      · exact Or.inr hleft

end

/-- The idle mask does what it is for in this state. -/
structure Targeted (s : State n P) : Prop where
  /-- A set bit stands for the one worker of that number, which has announced idle. -/
  bits : ∀ b, s.mask.getLsbD b = true ↔ ∃ w : Fin n, w.val = b ∧ s.standing w = true
  apart : ∀ w w' : Fin n, bit w = bit w' → w = w'
  placed : ∀ w, s.standing w = true →
    (∃ seq, s.worker w = .rescan seq ∨ s.worker w = .waiting seq) ∨ s.worker w = .clear
  /-- `wake_one` takes the bit of such a worker, and bumps that worker and no other. -/
  takes : ∀ a s' p id, step s a = some s' → s'.waker p = .bump id → s.waker p ≠ .bump id →
    ∃ w : Fin n, w.val = id ∧ s.standing w = true ∧ s' = (s.taken w).setWaker p (.bump w)
  bumps : ∀ a s' b, step s a = some s' → s'.wakeSeq b ≠ s.wakeSeq b →
    (∃ p, a = .waker p ∧ s.waker p = .bump b ∧ s'.waker p = .idle) ∨ a = .sweep ∧ s.sweep = b
  /-- A waiting worker whose bit was taken leaves its wait once the bumps on their way to it are done. -/
  leaves : ∀ w seq labels s', s.worker w = .waiting seq → s.standing w = false →
    Machine.run step s labels = some s' → (∀ p, s.waker p = .bump w → .waker p ∈ labels) →
      (∃ found, .worker w found ∈ labels) ∨ ∃ s'', step s' (.worker w false) = some s'' ∧ s''.worker w = .clear

/-- In every interleaving with at most as many workers as the mask has bits. -/
theorem idle_bit_wakes_its_worker {n : Nat} {P : Type} [DecidableEq P] [Fintype P] (hn : n ≤ 32)
    (hP : Fintype.card P + 2 < 2 ^ 32) {s : State n P} (h : Machine.Reachable step {} s) : Targeted s := by
  have hinv := reachable_inv hn h
  constructor
  · exact hinv.bits
  · exact (bit_injective_iff n).mpr hn
  · exact hinv.placed
  · intro a s' p id hstep hp hnew
    rcases bump_cases hstep hp with hold | ⟨_, m, hp', hm, hid, hs'⟩
    · exact absurd hold hnew
    · obtain ⟨w, hw, hstanding⟩ := hinv.taken_worker hp' hm
      rw [hid] at hw
      subst hw
      exact ⟨w, rfl, hstanding, hs'⟩
  · intro a s' b hstep hb
    exact wakeSeq_cases hstep hb
  · intro w seq labels s' hw htaken hrun hbumps
    exact leaves_of_taken hn hP hinv hw htaken hrun hbumps

/-- Two workers asleep, and a thread that took the bit of the first one: the bump is that worker's and lets it
go, the other one sleeps on under its bit. -/
theorem idle_bit_wakes_its_worker_asleep : ∃ s s' : State 2 Bool,
    Machine.run step {} [.park 0, .worker 0 false, .worker 0 false, .park 1, .worker 1 false, .worker 1 false,
      .wakeOne true, .waker true] = some s ∧
    s.worker 0 = .waiting 0 ∧ s.standing 0 = false ∧ s.worker 1 = .waiting 0 ∧ s.standing 1 = true ∧
    step s (.waker true) = some s' ∧ s'.wakeSeq 1 = s.wakeSeq 1 ∧ s'.worker 1 = .waiting 0 ∧
    (∃ s'', step s' (.worker 0 false) = some s'' ∧ s''.worker 0 = .clear) ∧ Targeted s := by
  have hrun : Machine.run step ({} : State 2 Bool) [.park 0, .worker 0 false, .worker 0 false, .park 1,
    .worker 1 false,
    .worker 1 false, .wakeOne true, .waker true] = some _ := rfl
  have htargeted := idle_bit_wakes_its_worker (by decide) (by decide) (Machine.reachable_of_run hrun)
  refine ⟨_, _, hrun, rfl, rfl, rfl, rfl, rfl, rfl, rfl, ?_, htargeted⟩
  have hleft := htargeted.leaves 0 0 [.waker true] _ rfl rfl rfl fun p hp => ?_
  · exact hleft.resolve_left fun ⟨found, hin⟩ => by cases mem_singleton.mp hin
  · cases p with
    | true => exact mem_cons_self
    | false => cases hp

/-- Worker 1 sleeps. Worker 0 is woken by a bump that comes late, from its round before, and a thread takes its
bit before it clears it: the wake goes to the one that is awake. -/
theorem awake_worker_taken : ∃ s s' s'' : State 2 Bool,
    Machine.run step {} [.park 1, .worker 1 false, .worker 1 false, .park 0, .worker 0 false, .wakeOne false,
      .waker false, .worker 0 true, .worker 0 false, .park 0, .worker 0 false, .worker 0 false, .waker false,
      .worker 0 false, .wakeOne true] = some s ∧
    s.worker 0 = .clear ∧ s.worker 1 = .waiting 0 ∧
    step s (.waker true) = some s' ∧ s'.waker true = .bump 0 ∧
    step s' (.waker true) = some s'' ∧ s''.wakeSeq 0 = 2 ∧ s''.wakeSeq 1 = 0 ∧ s''.worker 1 = .waiting 0 :=
  ⟨_, _, _, rfl, rfl, rfl, rfl, rfl, rfl, rfl, rfl, rfl⟩

end Quark.IdleMask
