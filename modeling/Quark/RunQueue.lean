import Mathlib.Algebra.GroupWithZero.Nat
import Quark.Engine
import Quark.Lib.VyukovAlone

/-! `RunQueue<PriorityBands<K, Anti>>` of `run_queue.hpp` under sequential use: `K` queues, and a policy that
picks the band to serve. -/
namespace Quark.RunQueue

open Function List Option Vyukov
open Engine (lowest)

variable {S A : Type} {k : Nat}

structure Bands (S A : Type) (k : Nat) where
  bands : Fin k → ActivationMpsc S := fun _ => {}
  anti : A

def bandOf [NeZero k] (band : UInt16) : Fin k :=
  if h : band.toNat < k then ⟨band.toNat, h⟩ else ⟨k - 1, Nat.sub_lt (Nat.pos_of_neZero k) Nat.one_pos⟩

section

variable [DecidableEq S]

def enqueue (q : Bands S A k) (b : Fin k) (s : S) : Bands S A k :=
  { q with bands := update q.bands b ((q.bands b).push s) }

def tryPop (q : ActivationMpsc S) : ActivationMpsc S × RunResult S := (q.take.1, ActivationMpsc.runResult q.take.2)

def spent (sawBusy : Bool) : RunResult S := { status := if sawBusy then .busy else .empty }

/-- The attempts left: band `b` next, then the top band of those not yet found drained. -/
def attempts : Nat → (Fin k → ActivationMpsc S) → (Fin k → Bool) → Fin k → Bool →
    (Fin k → ActivationMpsc S) × RunResult S
  | 0, bands, _, _, sawBusy => (bands, spent sawBusy)
  | n+1, bands, mask, b, sawBusy =>
    if mask b then
      let r := tryPop (bands b)
      let bands := update bands b r.1
      if r.2.status = .item then (bands, r.2)
      else
        let mask := update mask b false
        let sawBusy := sawBusy || decide (r.2.status = .busy)
        match lowest mask with
        | none => (bands, spent sawBusy)
        | some b => attempts n bands mask b sawBusy
    else
      match lowest mask with
      | none => (bands, spent sawBusy)
      | some b => attempts n bands mask b sawBusy

/-- `pick` is `none` where the policy has no defined behaviour. -/
def select (pick : A → (Fin k → Bool) → Option (A × Fin k)) (q : Bands S A k) : Option (Bands S A k × RunResult S) :=
  let mask := fun b => (q.bands b).hasWork
  match lowest mask with
  | none => some (q, { status := .empty })
  | some _ =>
    (pick q.anti mask).map fun r =>
      let served := attempts k q.bands mask r.2 false
      ({ bands := served.1, anti := r.1 }, served.2)

end

def Holding (q : Bands S A k) (items : Fin k → List S) : Prop := ∀ b, (q.bands b).Rests (items b)

variable {q : Bands S A k} {items : Fin k → List S}

theorem Holding.initial (anti : A) : Holding ({ anti } : Bands S A k) fun _ => [] := fun _ => Queue.Rests.initial

theorem lowest_eq_none {mask : Fin k → Bool} : lowest mask = none ↔ ∀ b, mask b = false := by
  rw [lowest, find?_eq_none]
  exact ⟨fun h b => Bool.eq_false_iff.mpr (h b (mem_finRange b)), fun h b _ => Bool.eq_false_iff.mp (h b)⟩

/-- The queue, and everything enqueued and selected so far. -/
structure State (S A : Type) (k : Nat) where
  q : Bands S A k
  enqueued : List S := []
  selected : List S := []

inductive Call (S : Type)
  | enqueue (s : S)
  | select
  deriving DecidableEq, Repr

def selectedOf : RunResult S → List S
  | { item := some (.item s), .. } => [s]
  | _ => []

section

variable [NeZero k]

def inBand (band : S → UInt16) (b : Fin k) (l : List S) : List S := l.filter fun s => bandOf (band s) = b

def Accounted (band : S → UInt16) (s : State S A k) (items : Fin k → List S) : Prop :=
  Holding s.q items ∧ ∀ b, inBand band b s.enqueued = inBand band b s.selected ++ items b

variable {band : S → UInt16} {s s' : State S A k}

theorem inBand_append_self (b : Fin k) (l : List S) {x : S} (h : bandOf (band x) = b) :
    inBand band b (l ++ [x]) = inBand band b l ++ [x] := by
  rw [inBand, filter_append, filter_cons_of_pos (by simpa using h)]
  rfl

theorem inBand_append_ne (b : Fin k) (l : List S) {x : S} (h : bandOf (band x) ≠ b) :
    inBand band b (l ++ [x]) = inBand band b l := by
  rw [inBand, filter_append, filter_cons_of_neg (by simpa using h), filter_nil, append_nil]
  rfl

theorem inBand_single (b : Fin 1) (l : List S) : inBand band b l = l :=
  filter_eq_self.mpr fun _ _ => decide_eq_true (Subsingleton.elim _ b)

theorem Accounted.band_eq (h : Accounted band s items) {b : Fin k} {x : S} (hx : x ∈ items b) :
    bandOf (band x) = b := by
  have hmem : x ∈ inBand band b s.enqueued := by
    rw [h.2 b]
    exact mem_append_right _ hx
  exact of_decide_eq_true (mem_filter.mp hmem).2

theorem Accounted.initial (anti : A) : Accounted band ({ q := { anti } } : State S A k) fun _ => [] :=
  ⟨Holding.initial anti, fun _ => rfl⟩

end

variable [DecidableEq S]

theorem Holding.mask (h : Holding q items) : (fun b => (q.bands b).hasWork) = fun b => decide (items b ≠ []) := by
  funext b
  exact decide_eq_decide.mpr (not_congr (h b).tail_eq_stub)

theorem Holding.enqueue {b : Fin k} {s : S} (h : Holding q items) (hs : s ∉ items b) :
    Holding (enqueue q b s) (update items b (items b ++ [s])) := by
  intro b'
  by_cases hb : b' = b
  · subst hb
    simp only [RunQueue.enqueue, update_self]
    exact (h b').push hs
  · simp only [RunQueue.enqueue, update_of_ne hb]
    exact h b'

variable {pick : A → (Fin k → Bool) → Option (A × Fin k)}

theorem Holding.select_empty (h : Holding q items) (hempty : ∀ b, items b = []) :
    select pick q = some (q, { status := .empty }) := by
  have hnone : lowest (fun b => (q.bands b).hasWork) = none := by
    rw [h.mask, lowest_eq_none]
    exact fun b => decide_eq_false (not_not.mpr (hempty b))
  simp only [select, hnone]

omit [DecidableEq S] in
theorem exists_lowest {b : Fin k} (hb : items b ≠ []) : ∃ top, lowest
    (fun b => decide (items b ≠ [])) = some top := by
  apply ne_none_iff_exists'.mp
  intro hnone
  exact Bool.false_ne_true ((lowest_eq_none.mp hnone b).symm.trans (decide_eq_true hb))

theorem Holding.select_undefined {b : Fin k} (h : Holding q items) (hb : items b ≠ [])
    (hpick : pick q.anti (fun b => decide (items b ≠ [])) = none) : select pick q = none := by
  obtain ⟨top, htop⟩ := exists_lowest hb
  simp only [select, h.mask, htop, hpick, map_none]

theorem Holding.select_item {b : Fin k} {x : S} {rest : List S} {anti : A} (h : Holding q items)
    (hpick : pick q.anti (fun b => decide (items b ≠ [])) = some (anti, b)) (hb : items b = x :: rest) :
    ∃ q', select pick q = some (q', { item := some (.item x), status := .item }) ∧ q'.anti = anti ∧
      Holding q' (update items b rest) := by
  have hmask : decide (items b ≠ []) = true := decide_eq_true (by rw [hb]; exact cons_ne_nil _ _)
  obtain ⟨top, htop⟩ := exists_lowest (of_decide_eq_true hmask)
  have hrests : (q.bands b).Rests (x :: rest) := hb ▸ h b
  obtain ⟨hmessage, hafter⟩ := hrests.take_cons
  have hpop : tryPop (q.bands b) = ((q.bands b).take.1, { item := some (.item x), status := .item }) := by
    rw [tryPop, hmessage]
    rfl
  obtain ⟨n, hk⟩ : ∃ n, k = n + 1 := Nat.exists_eq_add_of_le' (Fin.pos b)
  have hattempts : attempts k q.bands (fun b => decide (items b ≠ [])) b false =
      (update q.bands b (q.bands b).take.1, { item := some (.item x), status := .item }) := by
    rw [show attempts k = attempts (k := k) (S := S) (n + 1) by rw [← hk], attempts, if_pos hmask, hpop]
    rfl
  refine ⟨{ bands := update q.bands b (q.bands b).take.1, anti }, ?_, rfl, fun b' => ?_⟩
  · simp only [select, h.mask, htop, hpick, map_some, hattempts]
  · by_cases hb' : b' = b
    · subst hb'
      simp only [update_self]
      exact hafter
    · simp only [update_of_ne hb']
      exact h b'

section

variable (pick) [NeZero k] (band : S → UInt16)

/-- An activation is in the queue at most once. -/
def step (s : State S A k) : Call S → Option (State S A k)
  | .enqueue x =>
    if s.enqueued.count x = s.selected.count x then
      some { s with q := enqueue s.q (bandOf (band x)) x, enqueued := s.enqueued ++ [x] }
    else none
  | .select => (select pick s.q).map fun r => { s with q := r.1, selected := s.selected ++ selectedOf r.2 }

variable {pick} {band} {s s' : State S A k}

theorem step_grows {call : Call S} (hstep : step pick band s call = some s') :
    s.enqueued <+: s'.enqueued ∧ s.selected <+: s'.selected := by
  cases call with
  | enqueue x =>
    rw [step] at hstep
    split_ifs at hstep
    cases hstep
    exact ⟨prefix_append _ _, prefix_rfl⟩
  | select =>
    obtain ⟨r, -, rfl⟩ := map_eq_some_iff.mp hstep
    exact ⟨prefix_rfl, prefix_append _ _⟩

theorem run_grows {calls : List (Call S)} (hrun : Machine.run (step pick band) s calls = some s') :
    s.enqueued <+: s'.enqueued ∧ s.selected <+: s'.selected := by
  induction calls generalizing s with
  | nil =>
    cases hrun
    exact ⟨prefix_rfl, prefix_rfl⟩
  | cons call calls ih =>
    obtain ⟨mid, hstep, hrest⟩ := Machine.run_cons.mp hrun
    exact ⟨(step_grows hstep).1.trans (ih hrest).1, (step_grows hstep).2.trans (ih hrest).2⟩

theorem Accounted.enqueue {x : S} (h : Accounted band s items) (hstep : step pick band s (.enqueue x) = some s') :
    s'.q.anti = s.q.anti ∧ s'.selected = s.selected ∧
      Accounted band s' (update items (bandOf (band x)) (items (bandOf (band x)) ++ [x])) := by
  rw [step] at hstep
  split_ifs at hstep with hcount
  cases hstep
  have hout : x ∉ items (bandOf (band x)) := by
    intro hmem
    have hband := congrArg (List.count x) (h.2 (bandOf (band x)))
    have hpos := count_pos_iff.mpr hmem
    rw [count_append, inBand, inBand, count_filter (by simp), count_filter (by simp)] at hband
    omega
  refine ⟨rfl, rfl, h.1.enqueue hout, fun b => ?_⟩
  by_cases hb : bandOf (band x) = b
  · subst hb
    rw [inBand_append_self _ _ rfl, h.2, update_self, append_assoc]
  · rw [inBand_append_ne _ _ hb, h.2, update_of_ne (Ne.symm hb)]

theorem Accounted.enqueue_some (pick : A → (Fin k → Bool) → Option (A × Fin k)) (h : Accounted band s items) (x : S)
    (hx : x ∉ items (bandOf (band x))) : ∃ s', step pick band s (.enqueue x) = some s' := by
  have hband := congrArg (List.count x) (h.2 (bandOf (band x)))
  rw [count_append, count_eq_zero_of_not_mem hx, inBand, inBand, count_filter (by simp),
    count_filter (by simp), add_zero] at hband
  exact ⟨_, by rw [step, if_pos hband]⟩

theorem Accounted.select {b : Fin k} {x : S} {rest : List S} {anti : A} (h : Accounted band s items)
    (hpick : pick s.q.anti (fun b => decide (items b ≠ [])) = some (anti, b)) (hb : items b = x :: rest) :
    ∃ s', step pick band s .select = some s' ∧ s'.q.anti = anti ∧ s'.enqueued = s.enqueued ∧
      s'.selected = s.selected ++ [x] ∧ Accounted band s' (update items b rest) := by
  obtain ⟨q', hselect, hanti, hholding⟩ := h.1.select_item hpick hb
  refine ⟨{ s with q := q', selected := s.selected ++ [x] }, ?_, hanti, rfl, rfl, hholding, fun b' => ?_⟩
  · rw [step, hselect]
    rfl
  · have hx : bandOf (band x) = b := h.band_eq (by rw [hb]; exact mem_cons_self)
    by_cases hb' : b = b'
    · subst hb'
      rw [inBand_append_self _ _ hx, h.2, hb, update_self, append_assoc]
      rfl
    · rw [inBand_append_ne _ _ (hx ▸ hb'), h.2, update_of_ne (Ne.symm hb')]

theorem Accounted.select_empty (h : Accounted band s items) (hempty : ∀ b, items b = []) :
    step pick band s .select = some s := by
  rw [step, h.1.select_empty hempty]
  simp only [map_some, selectedOf, append_nil]

end

end Quark.RunQueue
