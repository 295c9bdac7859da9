import Mathlib.Data.Nat.Bitwise
import Mathlib.Data.Nat.Log
import Quark.BoundedInbox

/-! What the calls of a `BoundedInbox<M>` return, in which order, and that each one ends. -/
namespace Quark.BoundedInbox

open Inbox State Function List UInt32 Machine StampedRing

variable {P C E : Type}

section

variable {n m x y : Nat}

/-- Shifted over itself, a number has each bit that was set within twice the distance. -/
theorem testBit_spread (h : ∀ i, y.testBit i = true ↔ ∃ j < m, x.testBit (i + j) = true) :
    ∀ i, (y ||| (y >>> m)).testBit i = true ↔ ∃ j < 2 * m, x.testBit (i + j) = true := by
  intro i
  rw [Nat.testBit_or, Nat.testBit_shiftRight, Bool.or_eq_true, h, h]
  constructor
  · rintro (⟨j, hj, hbit⟩ | ⟨j, hj, hbit⟩)
    · exact ⟨j, by omega, hbit⟩
    · exact ⟨m + j, by omega, by rwa [← add_assoc, add_comm i m]⟩
  · rintro ⟨j, hj, hbit⟩
    by_cases hlow : j < m
    · exact .inl ⟨j, hlow, hbit⟩
    · refine .inr ⟨j - m, by omega, ?_⟩
      rwa [show m + i + (j - m) = i + j by omega]

/-- With every bit up to the highest one set, the number is one short of a power of two. -/
theorem spread_eq (hx : x ≠ 0) (hlt : x < 2 ^ m) (h : ∀ i, y.testBit i = true ↔ ∃ j < m, x.testBit (i + j) = true) :
    y = 2 ^ (x.log2 + 1) - 1 := by
  have hm : x.log2 < m := (Nat.log2_lt hx).mpr hlt
  apply Nat.eq_of_testBit_eq
  intro i
  rw [Nat.testBit_two_pow_sub_one, Bool.eq_iff_iff, h, decide_eq_true_eq]
  constructor
  · rintro ⟨j, _, hbit⟩
    by_contra hhigh
    have hzero : x.testBit (i + j) = false := by
      refine Nat.testBit_lt_two_pow (Nat.lt_log2_self.trans_le (Nat.pow_le_pow_right Nat.two_pos ?_))
      omega
    rw [hzero] at hbit
    cases hbit
  · intro hi
    refine ⟨x.log2 - i, by omega, ?_⟩
    rw [show i + (x.log2 - i) = x.log2 by omega]
    exact Nat.testBit_log2 hx

end

variable {capacity : UInt32}

theorem toNat_spread {x m : UInt32} (hm : m.toNat < 32) :
    (x ||| (x >>> m)).toNat = x.toNat ||| (x.toNat >>> m.toNat) := by
  rw [UInt32.toNat_or, UInt32.toNat_shiftRight, Nat.mod_eq_of_lt hm]

theorem roundUpPow2_eq (hlow : 2 ≤ capacity) (hhigh : capacity ≤ 0x80000000) :
    (roundUpPow2 capacity).toNat = 2 ^ ((capacity.toNat - 1).log2 + 1) ∧ (capacity.toNat - 1).log2 < 31 := by
  have hle : capacity.toNat ≤ 2 ^ 31 := UInt32.le_iff_toNat_le.mp hhigh
  have htwo : 2 ≤ capacity.toNat := UInt32.le_iff_toNat_le.mp hlow
  have hpred : (capacity - 1).toNat = capacity.toNat - 1 :=
    UInt32.toNat_sub_of_le _ _ (UInt32.le_iff_toNat_le.mpr (show 1 ≤ capacity.toNat by omega))
  have hlog : (capacity.toNat - 1).log2 < 31 := (Nat.log2_lt (by omega)).mpr (by omega)
  have hpow : 2 ^ ((capacity.toNat - 1).log2 + 1) ≤ 2 ^ 31 := Nat.pow_le_pow_right Nat.two_pos hlog
  refine ⟨?_, hlog⟩
  unfold roundUpPow2
  rw [if_neg fun hone => absurd (le_iff_toNat_le.mp hone) (by show ¬ capacity.toNat ≤ 1; omega)]
  set n := capacity.toNat - 1
  have hone : ∀ i, n.testBit i = true ↔ ∃ j < 1, n.testBit (i + j) = true := by simp
  have hspread := testBit_spread (testBit_spread (testBit_spread (testBit_spread (testBit_spread hone))))
  have heq := spread_eq (by omega) (by omega) hspread
  simp only
  rw [UInt32.toNat_add, toNat_spread (by decide), toNat_spread (by decide), toNat_spread (by decide),
    toNat_spread (by decide), toNat_spread (by decide), hpred, show (1 : UInt32).toNat = 1 from rfl]
  have hone : 1 ≤ 2 ^ (n.log2 + 1) := Nat.one_le_two_pow
  refine (congrArg (fun y => (y + 1) % 2 ^ 32) heq).trans ?_
  rw [Nat.sub_add_cancel hone, Nat.mod_eq_of_lt (by omega)]

variable {lap pos q k : Nat} {s s' : State P C E} {p : P} {c : C} {env out : E} {spurious : Bool}

/-- The ring that the constructor makes of a request for two cells or more. -/
theorem new_ring [Inhabited E] (hlow : 2 ≤ capacity) (hhigh : capacity ≤ 0x80000000) :
    ∃ lap, 2 ≤ lap ∧ (∀ pos, pos &&& (lap - 1) = pos % lap) ∧ Kept lap (new capacity : State P C E) := by
  obtain ⟨hpow, _⟩ := roundUpPow2_eq hlow hhigh
  have hzero : capacity ≠ 0 := fun hzero => absurd hlow (by rw [hzero]; decide)
  have htwo : 2 ≤ (roundUpPow2 capacity).toNat := by
    rw [hpow, pow_succ]
    exact Nat.le_mul_of_pos_left 2 Nat.one_le_two_pow
  refine ⟨(roundUpPow2 capacity).toNat, htwo, fun pos => by rw [hpow, Nat.and_two_pow_sub_one_eq_mod], .initial ?_ ?_⟩
  · rw [Inbox.new, if_neg hzero]
  · rw [Inbox.new, if_neg hzero]
    exact UInt32.toNat_sub_of_le _ _ (UInt32.le_iff_toNat_le.mpr (le_of_lt htwo))

/-- The consumer's pops so far, and the one that it is in, are of successive positions. -/
structure InTurn (s : State P C E) : Prop where
  popped : s.popped.map Prod.fst = List.range s.popped.length
  hand : ∀ {c q}, (s.consumers c).hand = some q → q = s.popped.length

theorem InTurn.initial [Inhabited E] : InTurn (new capacity : State P C E) := ⟨rfl, nofun⟩

theorem InTurn.emptied_iff (h : InTurn s) : s.Emptied q ↔ q < s.popped.length := by
  rw [← mem_range, ← h.popped, mem_map]
  exact ⟨fun ⟨e, he⟩ => ⟨(q, e), he, rfl⟩, fun ⟨⟨_, e⟩, he, heq⟩ => ⟨e, heq ▸ he⟩⟩

theorem PopPc.pops_cases (pc : PopPc E) : pc.pops = [] ∨ ∃ pos out, pc.pops = [(pos, out)] ∧ pc.hand = some pos := by
  cases pc with
  | idle | load | check | claim | read => exact .inl rfl
  | release pos out => exact .inr ⟨pos, out, rfl, rfl⟩

theorem Inbox.tryPop_hand {ib : Inbox E} {pc : PopPc E} (h : (ib.tryPop spurious pc).2.1.hand = some q) :
    pc.pops = [] ∧ (pc.hand = some q ∨ pc.hand = none ∧ q = ib.dequeuePos) := by
  cases pc with
  | idle | load | release => cases h
  | check pos =>
    rw [tryPop_check] at h
    split at h
    · cases h
    · split at h <;> cases h
  | claim pos =>
    rw [tryPop] at h
    split at h
    · next heq =>
      cases h
      exact ⟨rfl, .inr ⟨rfl, heq.1.symm⟩⟩
    · cases h
  | read pos => exact ⟨rfl, .inl h⟩

section

variable [DecidableEq C] [Subsingleton C]

theorem InTurn.pop (h : InTurn s) (htakes : Claims s.inbox.dequeuePos s.Emptied (PopPc.hand ∘ s.consumers)) :
    InTurn (s.pop c spurious) where
  popped := by
    show (s.popped ++ (s.consumers c).pops).map Prod.fst = List.range (s.popped ++ (s.consumers c).pops).length
    obtain hnone | ⟨pos, out, hsome, hhand⟩ := (s.consumers c).pops_cases
    · rw [hnone, append_nil, h.popped]
    · rw [hsome, map_append, h.popped, length_append, h.hand hhand]
      exact range_succ.symm
  hand {c' q} hq := by
    have hself : (s.pop c spurious).consumers c' = (s.inbox.tryPop spurious (s.consumers c)).2.1 := by
      rw [Subsingleton.elim c' c]
      exact update_self ..
    rw [hself] at hq
    obtain ⟨hnone, hbefore | ⟨hfree, rfl⟩⟩ := tryPop_hand hq
    · show q = (s.popped ++ (s.consumers c).pops).length
      rw [hnone, append_nil, h.hand hbefore]
    · show s.inbox.dequeuePos = (s.popped ++ (s.consumers c).pops).length
      rw [hnone, append_nil]
      refine eq_of_forall_lt_iff fun q => ?_
      rw [htakes.claimed, ← h.emptied_iff]
      refine or_iff_left fun ⟨c', hc'⟩ => ?_
      rw [Subsingleton.elim c' c, Function.comp_apply, hfree] at hc'
      cases hc'

variable [DecidableEq P]

theorem InTurn.step {a : Action P C E} (h : InTurn s) (hkept : Kept lap s)
    (hstep : step s a = some s') : InTurn s' := by
  cases a with
  | callPush p env =>
    simp only [BoundedInbox.step] at hstep
    split at hstep <;> cases hstep
    exact ⟨h.popped, h.hand⟩
  | push p spurious =>
    cases hstep
    exact ⟨h.popped, h.hand⟩
  | callPop c =>
    simp only [BoundedInbox.step] at hstep
    split at hstep <;> cases hstep
    refine ⟨h.popped, fun {c' q} hq => ?_⟩
    have hnone : (update s.consumers c .load c').hand = none := by
      rw [Subsingleton.elim c' c, update_self]
      rfl
    cases hnone.symm.trans hq
  | pop c spurious =>
    cases hstep
    exact h.pop hkept.takes

end

theorem push_producers [DecidableEq P] :
    (s.push p spurious).producers p = (s.inbox.tryPush spurious (s.producers p)).2.1 := update_self ..

theorem pop_consumers [DecidableEq C] :
    (s.pop c spurious).consumers c = (s.inbox.tryPop spurious (s.consumers c)).2.1 := update_self ..

section

variable [DecidableEq P] [DecidableEq C] {a : Action P C E} {Done : State P C E → Prop}

def Ends (a : Action P C E) (Done : State P C E → Prop) (k : Nat) (s : State P C E) : Prop :=
  ∃ n ≤ k, ∃ s', run step s (List.replicate n a) = some s' ∧ Done s'

theorem Ends.now (h : Done s) : Ends a Done k s := ⟨0, Nat.zero_le k, s, rfl, h⟩

theorem Ends.next (hstep : step s a = some s') (h : Ends a Done k s') : Ends a Done (k + 1) s := by
  obtain ⟨n, hn, s'', hrun, hdone⟩ := h
  exact ⟨n + 1, Nat.succ_le_succ hn, s'', run_cons.mpr ⟨s', hstep, hrun⟩, hdone⟩

theorem Ends.mono {m : Nat} (h : Ends a Done k s) (hle : k ≤ m) : Ends a Done m s := by
  obtain ⟨n, hn, hrest⟩ := h
  exact ⟨n, hn.trans hle, hrest⟩

abbrev PushEnds (k : Nat) (s : State P C E) (p : P) : Prop :=
  Ends (.push p false) (fun s => s.producers p = .idle) k s

abbrev PopEnds (k : Nat) (s : State P C E) (c : C) : Prop := Ends (.pop c false) (fun s => s.consumers c = .idle) k s

theorem write_ends (env : E) (pos : Nat) (hpc : s.producers p = .write env pos) : PushEnds 2 s p := by
  have hpublish : (s.push p false).producers p = .publish env pos := by
    rw [push_producers, hpc]
    rfl
  refine .next rfl (.next rfl (.now ?_))
  rw [push_producers, hpublish]
  rfl

theorem read_ends (pos : Nat) (hpc : s.consumers c = .read pos) : PopEnds 2 s c := by
  have hrelease : (s.pop c false).consumers c = .release pos (s.inbox.cell pos).env := by
    rw [pop_consumers, hpc]
    rfl
  refine .next rfl (.next rfl (.now ?_))
  rw [pop_consumers, hrelease]
  rfl

section

variable (hlap : 2 ≤ lap) (hcell : ∀ pos, pos &&& (lap - 1) = pos % lap)
include hcell

theorem Kept.check_next_ends (h : Kept lap s) (env : E) (hpc : s.producers p = .check env s.inbox.enqueuePos) :
    PushEnds 4 s p := by
  have hmove : (s.push p false).producers p = (s.inbox.tryPush false (.check env s.inbox.enqueuePos)).2.1 := by
    rw [push_producers, hpc]
  have hsame : (s.push p false).inbox.enqueuePos = s.inbox.enqueuePos := by
    show (s.inbox.tryPush false (s.producers p)).1.enqueuePos = _
    rw [hpc, tryPush_check]
    split
    · rfl
    · split <;> rfl
  rw [tryPush_check, h.cell_seq hcell] at hmove
  split at hmove
  · refine .next rfl (.next rfl (write_ends env s.inbox.enqueuePos ?_))
    rw [push_producers, hmove, tryPush, if_pos ⟨hsame, rfl⟩]
  · next hne =>
    split at hmove
    · exact .next rfl (.now hmove)
    · next hge =>
      have hfilled : s.Filled s.inbox.enqueuePos := h.stamps.filled_of_lt (by omega)
      exact absurd (h.claims.lt_of_done hfilled) (lt_irrefl _)

theorem Kept.pop_check_next_ends (h : Kept lap s) (hpc : s.consumers c = .check s.inbox.dequeuePos) :
    PopEnds 4 s c := by
  have hmove : (s.pop c false).consumers c = (s.inbox.tryPop false (.check s.inbox.dequeuePos)).2.1 := by
    rw [pop_consumers, hpc]
  have hsame : (s.pop c false).inbox.dequeuePos = s.inbox.dequeuePos := by
    show (s.inbox.tryPop false (s.consumers c)).1.dequeuePos = _
    rw [hpc, tryPop_check]
    split
    · rfl
    · split <;> rfl
  rw [tryPop_check, h.cell_seq hcell] at hmove
  split at hmove
  · refine .next rfl (.next rfl (read_ends s.inbox.dequeuePos ?_))
    rw [pop_consumers, hmove, tryPop, if_pos ⟨hsame, rfl⟩]
  · next hne =>
    split at hmove
    · exact .next rfl (.now hmove)
    · next hge =>
      have hempty : s.Emptied s.inbox.dequeuePos := h.stamps.emptied_of_lt (by omega)
      exact absurd (h.takes.lt_of_done hempty) (lt_irrefl _)

include hlap

theorem Kept.load_ends (h : Kept lap s) (hpc : s.producers p = .load env) : PushEnds 5 s p := by
  refine .next rfl ((h.push hlap hcell).check_next_ends hcell env ?_)
  rw [push_producers, State.push, hpc]
  rfl

theorem Kept.pop_load_ends (h : Kept lap s) (hpc : s.consumers c = .load) : PopEnds 5 s c := by
  refine .next rfl ((h.pop hlap hcell).pop_check_next_ends hcell ?_)
  rw [pop_consumers, State.pop, hpc]
  rfl

theorem Kept.claim_ends (h : Kept lap s) (hpc : s.producers p = .claim env pos) : PushEnds 5 s p := by
  by_cases hpos : s.inbox.enqueuePos = pos
  · have hwrite : (s.push p false).producers p = .write env pos := by
      rw [push_producers, hpc, tryPush, if_pos ⟨hpos, rfl⟩]
    exact Ends.mono (.next rfl (write_ends env pos hwrite)) (by decide)
  · refine .next rfl ((h.push hlap hcell).check_next_ends hcell env ?_)
    rw [push_producers, State.push, hpc, tryPush, if_neg fun hnow => hpos hnow.1]

theorem Kept.pop_claim_ends (h : Kept lap s) (hpc : s.consumers c = .claim pos) : PopEnds 5 s c := by
  by_cases hpos : s.inbox.dequeuePos = pos
  · have hread : (s.pop c false).consumers c = .read pos := by rw [pop_consumers, hpc, tryPop, if_pos ⟨hpos, rfl⟩]
    exact Ends.mono (.next rfl (read_ends pos hread)) (by decide)
  · refine .next rfl ((h.pop hlap hcell).pop_check_next_ends hcell ?_)
    rw [pop_consumers, State.pop, hpc, tryPop, if_neg fun hnow => hpos hnow.1]

theorem Kept.push_ends (h : Kept lap s) (p : P) : PushEnds 6 s p := by
  have hkept : Kept lap (s.push p false) := h.push hlap hcell
  cases hpc : s.producers p with
  | idle => exact .now hpc
  | load env => exact (h.load_ends hlap hcell hpc).mono (by decide)
  | check env pos =>
    have hmove : (s.push p false).producers p = (s.inbox.tryPush false (.check env pos)).2.1 := by
      rw [push_producers, hpc]
    rw [tryPush_check] at hmove
    split at hmove
    · exact .next rfl (hkept.claim_ends hlap hcell hmove)
    · split at hmove
      · exact .next rfl (.now hmove)
      · exact .next rfl (hkept.load_ends hlap hcell hmove)
  | claim env pos => exact (h.claim_ends hlap hcell hpc).mono (by decide)
  | write env pos => exact (write_ends env pos hpc).mono (by decide)
  | publish env pos =>
    refine .next rfl (.now ?_)
    rw [push_producers, hpc]
    rfl

theorem Kept.pop_ends (h : Kept lap s) (c : C) : PopEnds 6 s c := by
  have hkept : Kept lap (s.pop c false) := h.pop hlap hcell
  cases hpc : s.consumers c with
  | idle => exact .now hpc
  | load => exact (h.pop_load_ends hlap hcell hpc).mono (by decide)
  | check pos =>
    have hmove : (s.pop c false).consumers c = (s.inbox.tryPop false (.check pos)).2.1 := by rw [pop_consumers, hpc]
    rw [tryPop_check] at hmove
    split at hmove
    · exact .next rfl (hkept.pop_claim_ends hlap hcell hmove)
    · split at hmove
      · exact .next rfl (.now hmove)
      · exact .next rfl (hkept.pop_load_ends hlap hcell hmove)
  | claim pos => exact (h.pop_claim_ends hlap hcell hpc).mono (by decide)
  | read pos => exact (read_ends pos hpc).mono (by decide)
  | release pos out =>
    refine .next rfl (.now ?_)
    rw [pop_consumers, hpc]
    rfl

end

variable [Inhabited E]

/-- Each envelope popped was pushed at the position it was popped from, once; positions are claimed in order;
a push is refused only while the position one lap back is not fully popped, a pop only while the next position
is not fully pushed; and a call left alone returns. With one consumer, what is popped is popped in order and a
refused push found every cell in use. -/
theorem inbox_keeps {capacity : UInt32} (hlow : 2 ≤ capacity) (hhigh : capacity ≤ 0x80000000)
    (h : Reachable step (new capacity) s) :
    (s.pushed.map Prod.fst).Nodup ∧ (s.popped.map Prod.fst).Nodup ∧ s.popped ⊆ s.pushed
      ∧ (∀ x ∈ s.pushed, x ∈ s.popped ∨ (∃ c, (s.consumers c).hand = some x.1) ∨ s.inbox.dequeuePos ≤ x.1)
      ∧ (∀ q, q < s.inbox.enqueuePos ↔ s.Filled q ∨ ∃ p, (s.producers p).hand = some q)
      ∧ (∀ q, q < s.inbox.dequeuePos ↔ s.Emptied q ∨ ∃ c, (s.consumers c).hand = some q)
      ∧ (Subsingleton C → s.popped.map Prod.fst = List.range s.popped.length)
      ∧ (∀ p spurious, s.returned (.push p spurious) = some false →
          ∃ pos, s.inbox.capacity.toNat ≤ pos ∧ pos ≤ s.inbox.enqueuePos ∧ ¬ s.Emptied (pos - s.inbox.capacity.toNat)
            ∧ ((∃ c, (s.consumers c).hand = some (pos - s.inbox.capacity.toNat))
              ∨ ∀ q, pos - s.inbox.capacity.toNat ≤ q → ¬ s.Emptied q)
            ∧ (Subsingleton C → ∀ q, pos - s.inbox.capacity.toNat ≤ q → ¬ s.Emptied q))
      ∧ (∀ c spurious, s.returned (.pop c spurious) = some false → ¬ s.Filled s.inbox.dequeuePos)
      ∧ (∀ p, PushEnds 6 s p) ∧ (∀ c, PopEnds 6 s c) := by
  obtain ⟨lap, hlap, hcell, hnew⟩ := new_ring (P := P) (C := C) (E := E) hlow hhigh
  have hkept : Kept lap s := Reachable.invariant h hnew fun _ _ _ hkept hstep => hkept.step hlap hcell hstep
  have hturn : Subsingleton C → InTurn s := fun _ =>
    (Reachable.invariant (I := fun s => Kept lap s ∧ InTurn s) h ⟨hnew, .initial⟩ fun _ _ _ hboth hstep =>
      ⟨hboth.1.step hlap hcell hstep, hboth.2.step hboth.1 hstep⟩).2
  rw [Inbox.capacity, hkept.cap]
  refine ⟨hkept.pushedOnce, hkept.poppedOnce, hkept.sent, ?_,
    fun q => hkept.claims.claimed, fun q => hkept.takes.claimed,
    fun hone => (hturn hone).popped, ?_, fun c spurious => hkept.pop_refused hcell, hkept.push_ends hlap hcell,
    hkept.pop_ends hlap hcell⟩
  · intro x hx
    by_cases hlt : x.1 < s.inbox.dequeuePos
    · obtain ⟨e, he⟩ | hhand := hkept.takes.claimed.mp hlt
      · exact .inl (inj_on_of_nodup_map hkept.pushedOnce hx (hkept.sent he) rfl ▸ he)
      · exact .inr (.inl hhand)
    · exact .inr (.inr (not_lt.mp hlt))
  · intro p spurious hret
    obtain ⟨pos, hle, hclaimed, hempty⟩ := hkept.push_refused hcell hret
    refine ⟨pos, hle, hclaimed, hempty, ?_, fun hone q hq hemptied => hempty ?_⟩
    · by_cases hlt : pos - lap < s.inbox.dequeuePos
      · exact .inl ((hkept.takes.claimed.mp hlt).resolve_left hempty)
      · exact .inr fun q hq hemptied => absurd (hkept.takes.lt_of_done hemptied) (by omega)
    · exact (hturn hone).emptied_iff.mpr (hq.trans_lt ((hturn hone).emptied_iff.mp hemptied))

end

def pushCall (p : P) (env : E) : List (Action P C E) := .callPush p env :: List.replicate 5 (.push p false)

def popCall (c : C) : List (Action P C E) := .callPop c :: List.replicate 5 (.pop c false)

theorem inbox_keeps_two : ∃ s : State Unit Unit Nat, Reachable step (new 2) s ∧ s.pushed = [(0, 7), (1, 8)]
    ∧ s.returned (.push () false) = some false ∧ ∃ pos, 2 ≤ pos ∧ pos ≤ s.inbox.enqueuePos ∧
    ¬ s.Emptied (pos - 2) := by
  obtain ⟨s, hrun, hpushed, hret⟩ : ∃ s : State Unit Unit Nat,
      run step (new 2) (pushCall () 7 ++ pushCall () 8 ++ [.callPush () 9, .push () false]) = some s
        ∧ s.pushed = [(0, 7), (1, 8)] ∧ s.inbox.capacity = 2 ∧ s.returned (.push () false) = some false :=
    ⟨_, rfl, rfl, rfl, rfl⟩
  have hkeeps := inbox_keeps (by decide) (by decide) (reachable_of_run hrun)
  obtain ⟨pos, hle, hclaimed, hempty, _⟩ := hkeeps.2.2.2.2.2.2.2.1 () false hret.2
  rw [hret.1] at hle hempty
  exact ⟨s, reachable_of_run hrun, hpushed, hret.2, pos, hle, hclaimed, hempty⟩

/-- Both envelopes are pushed, the pop of the first one stalls and the second one is popped: a push finds the
inbox full though one envelope is left in it. -/
theorem refused_behind_stalled_pop : ∃ s s' : State Unit Bool Nat,
    run step (new 2) (pushCall () 7 ++ pushCall () 8 ++ .callPop true ::
    List.replicate 3 (.pop true false) ++ popCall false)
        = some s
      ∧ run step s [.callPush () 9, .push () false] = some s' ∧ s'.returned (.push () false) = some false
      ∧ s.inbox.capacity = 2 ∧ s.pushed.filter (· ∉ s.popped) = [(0, 7)] ∧ s'.pushed.filter
      (· ∉ s'.popped) = [(0, 7)] :=
  ⟨_, _, rfl, rfl, rfl, rfl, by decide, by decide⟩

end Quark.BoundedInbox
