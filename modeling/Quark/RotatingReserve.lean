import Mathlib.Tactic.Linarith
import Quark.RunQueue

/-! `RotatingReserve<M>`: every `M`-th turn serves the next non-empty band after the cursor. -/
namespace Quark.RunQueue

open Machine List Option UInt64 Vyukov
open Engine (lowest)

/-- The turn counter is a machine word. -/
structure RotatingReserve where
  turn : UInt64 := 0
  cursor : Nat := 0
  deriving DecidableEq, Repr

namespace RotatingReserve

variable {k : Nat}

def scanned (r : RotatingReserve) (i : Fin k) : Fin k := ⟨(r.cursor + i) % k, Nat.mod_lt _ (Fin.pos i)⟩

def pick (m : Nat) (r : RotatingReserve) (mask : Fin k → Bool) : Option (RotatingReserve × Fin k) :=
  let r := { r with turn := r.turn + 1 }
  match if r.turn.toNat % m = 0 then ((List.finRange k).map r.scanned).find? mask else none with
  | some b => some ({ r with cursor := (b + 1) % k }, b)
  | none => (lowest mask).map fun b => (r, b)

/-- The turns up to the next one that follows the cursor. When the counter wraps, that turn comes early. -/
def gap (m : Nat) (r : RotatingReserve) : Nat := min (m - r.turn.toNat % m) (2 ^ 64 - r.turn.toNat)

/-- The bands that the cursor comes to before `b`. -/
def offset (r : RotatingReserve) (b : Fin k) : Nat := if r.cursor ≤ b then b - r.cursor else b + k - r.cursor

/-- How many turns it may take until `b` is served with `d` items before the one that is meant. -/
def ahead (m : Nat) (r : RotatingReserve) (b : Fin k) (d : Nat) : Nat := d * (k * m) + r.offset b * m + r.gap m

variable {m : Nat} {r r' : RotatingReserve} {b c : Fin k} {mask : Fin k → Bool}

theorem gap_pos (hm : 0 < m) : 0 < r.gap m := by
  have hmod := Nat.mod_lt r.turn.toNat hm
  have hword := r.turn.toNat_lt
  exact Nat.lt_min.mpr ⟨by omega, by omega⟩

theorem gap_le : r.gap m ≤ m := (Nat.min_le_left _ _).trans (Nat.sub_le _ _)

theorem offset_lt (hr : r.cursor < k) : r.offset b < k := by
  have hb := b.isLt
  unfold offset
  split <;> omega

theorem toNat_succ (t : UInt64) : (t + 1).toNat = if t.toNat + 1 = 2 ^ 64 then 0 else t.toNat + 1 := by
  have hword := t.toNat_lt
  rw [UInt64.toNat_add]
  split
  · next h => rw [UInt64.toNat_one, h, Nat.mod_self]
  · exact Nat.mod_eq_of_lt (by rw [toNat_one]; omega)

theorem gap_next (hm : 0 < m) (hturn : r'.turn = r.turn + 1) :
    r'.turn.toNat % m = 0 ∨ r'.gap m + 1 = r.gap m := by
  have hmod := Nat.mod_lt r.turn.toNat hm
  have hword := r.turn.toNat_lt
  have hsucc := toNat_succ r.turn
  rw [← hturn] at hsucc
  by_cases hwrap : r.turn.toNat + 1 = 2 ^ 64
  · rw [if_pos hwrap] at hsucc
    exact .inl (by rw [hsucc, Nat.zero_mod])
  · rw [if_neg hwrap] at hsucc
    by_cases hzero : r'.turn.toNat % m = 0
    · exact .inl hzero
    · refine .inr ?_
      have hnext : r'.turn.toNat % m = r.turn.toNat % m + 1 := by
        rw [hsucc, ← Nat.mod_add_mod] at hzero ⊢
        by_cases hlast : r.turn.toNat % m + 1 = m
        · rw [hlast, Nat.mod_self] at hzero
          exact absurd rfl hzero
        · exact Nat.mod_eq_of_lt (by omega)
      unfold gap
      rw [hnext, hsucc]
      omega

theorem add_mod_two {x y : Nat} (hx : x < k) (hy : y < k) : (x + y) % k = if x + y < k then x + y else x + y - k := by
  split
  · next h => exact Nat.mod_eq_of_lt h
  · next h => rw [Nat.mod_eq_sub_mod (Nat.le_of_not_lt h), Nat.mod_eq_of_lt (by omega)]

theorem scanned_offset (hr : r.cursor < k) : r.scanned ⟨r.offset b, offset_lt hr⟩ = b := by
  have hb := b.isLt
  refine Fin.ext ((add_mod_two hr (offset_lt hr)).trans ?_)
  unfold offset
  split <;> split <;> omega

theorem find?_le {l : List (Fin k)} (hl : l.Pairwise (· < ·)) {p : Fin k → Bool} {i j : Fin k}
    (hi : l.find? p = some i)
    (hj : j ∈ l) (hp : p j) : i ≤ j := by
  obtain ⟨-, before, after, rfl, hbefore⟩ := find?_eq_some_iff_append.mp hi
  obtain hj | hj := mem_append.mp hj
  · exact absurd hp (by simpa using hbefore j hj)
  · obtain rfl | hj := mem_cons.mp hj
    · exact le_rfl
    · exact le_of_lt ((pairwise_cons.mp (pairwise_append.mp hl).2.1).1 j hj)

theorem ahead_le (hr : r.cursor < k) (d : Nat) : r.ahead m b d ≤ (d + 1) * (k * m) := by
  have hoffset : (r.offset b + 1) * m ≤ k * m := Nat.mul_le_mul_right m (offset_lt hr)
  have hgap : r.gap m ≤ m := gap_le
  unfold ahead
  rw [add_mul] at hoffset ⊢
  omega

theorem succ_mod (c : Fin k) : ((c : Nat) + 1) % k = if (c : Nat) + 1 < k then (c : Nat) + 1 else 0 := by
  split
  · next h => exact Nat.mod_eq_of_lt h
  · next h => rw [show (c : Nat) + 1 = k by have := c.isLt; omega, Nat.mod_self]

theorem offset_scanned {i : Fin k} (hr : r.cursor < k) (hi : i < r.offset b)
    (hcursor : r'.cursor = (r.scanned i + 1) % k) : r'.offset b + i + 1 = r.offset b := by
  have hb := b.isLt
  have hscanned : (r.scanned i : Nat) = if r.cursor + i < k then r.cursor + i else r.cursor + i - k :=
    add_mod_two hr i.isLt
  have hoffset : r.offset b < k := offset_lt hr
  rw [succ_mod] at hcursor
  unfold offset at *
  split_ifs at * <;> omega

theorem scan_offset (hr : r.cursor < k) (hb : mask b = true) :
    ∃ c, ((List.finRange k).map r.scanned).find? mask = some c ∧ mask c = true ∧
      (c ≠ b → ∀ r' : RotatingReserve, r'.cursor = (c + 1) % k → r'.offset b < r.offset b) := by
  rw [find?_map]
  have hmine : (mask ∘ r.scanned) ⟨r.offset b, offset_lt hr⟩ = true := by
    rw [Function.comp_apply, scanned_offset hr, hb]
  have hsome : ((List.finRange k).find? (mask ∘ r.scanned)).isSome :=
    find?_isSome.mpr ⟨_, mem_finRange _, hmine⟩
  obtain ⟨i, hi⟩ := isSome_iff_exists.mp hsome
  have hle : i ≤ ⟨r.offset b, offset_lt hr⟩ := find?_le (pairwise_lt_finRange k) hi (mem_finRange _) hmine
  have hmask : (mask ∘ r.scanned) i = true := find?_some hi
  refine ⟨r.scanned i, by rw [hi, map_some], hmask, fun hne r' hcursor => ?_⟩
  have hlt : (i : Nat) < r.offset b := by
    refine Nat.lt_of_le_of_ne hle fun heq => hne ?_
    rw [show i = ⟨r.offset b, offset_lt hr⟩ from Fin.ext heq, scanned_offset hr]
  have hnext := offset_scanned hr hlt hcursor
  omega

/-- What one turn does, as long as `b` has an item: it serves a band that has one, and brings `b` nearer to its turn,
even if it serves `b` itself. -/
theorem pick_ahead (hm : 0 < m) (hr : r.cursor < k) (mask : Fin k → Bool) (hb : mask b = true) :
    ∃ r' c, r.pick m mask = some (r', c) ∧ mask c = true ∧ r'.cursor < k ∧
      (c ≠ b → ∀ d, r'.ahead m b d < r.ahead m b d) ∧ (c = b → ∀ d, r'.ahead m b d < r.ahead m b (d + 1)) := by
  have hserved : ∀ r' : RotatingReserve, r'.cursor < k → ∀ d, r'.ahead m b d < r.ahead m b (d + 1) := by
    intro r' hr' d
    calc r'.ahead m b d ≤ (d + 1) * (k * m) := ahead_le hr' d
      _ < (d + 1) * (k * m) + r.offset b * m + r.gap m := by have := gap_pos (r := r) hm; omega
  by_cases hreserve : (r.turn + 1).toNat % m = 0
  · obtain ⟨c, hfound, hmask, hoffset⟩ := scan_offset hr hb
    have hc : ((List.finRange k).map ({ r with turn := r.turn + 1 } : RotatingReserve).scanned).find? mask =
        some c := hfound
    have hcursor : (c + 1) % k < k := Nat.mod_lt _ (Fin.pos c)
    refine ⟨{ turn := r.turn + 1, cursor := (c + 1) % k }, c, ?_, hmask, hcursor,
      fun hne d => ?_, fun _ => hserved _ hcursor⟩
    · simp only [pick, if_pos hreserve, hc]
    · have hnearer := Nat.mul_le_mul_right m (hoffset hne { turn := r.turn + 1, cursor := (c + 1) % k } rfl)
      have hgap : gap m { turn := r.turn + 1, cursor := (c + 1) % k } ≤ m := gap_le
      have hpos := gap_pos (r := r) hm
      unfold ahead
      rw [Nat.succ_mul] at hnearer
      omega
  · have hlowest : lowest mask ≠ none := fun hnone => Bool.false_ne_true ((lowest_eq_none.mp hnone b).symm.trans hb)
    obtain ⟨c, hc⟩ := ne_none_iff_exists'.mp hlowest
    refine ⟨{ r with turn := r.turn + 1 }, c, ?_, find?_some hc, hr, fun _ d => ?_, fun _ => hserved _ hr⟩
    · simp only [pick, if_neg hreserve, hc, map_some]
    · have hgap : ({ r with turn := r.turn + 1 } : RotatingReserve).turn.toNat % m = 0 ∨
          ({ r with turn := r.turn + 1 } : RotatingReserve).gap m + 1 = r.gap m := gap_next hm rfl
      replace hgap := hgap.resolve_left hreserve
      simp only [ahead, offset] at hgap ⊢
      omega

end RotatingReserve

variable {S : Type} [DecidableEq S] {k m : Nat} [NeZero k] {band : S → UInt16} {s s' : State S RotatingReserve k}
  {items : Fin k → List S} {b : Fin k} {t : Nat}

def Turning (band : S → UInt16) (s : State S RotatingReserve k) : Prop :=
  (∃ items, Accounted band s items) ∧ s.q.anti.cursor < k

/-- The selects that it may take until the `t`-th item of the band is out. -/
def due (m : Nat) (band : S → UInt16) (s : State S RotatingReserve k) (b : Fin k) (t : Nat) : Nat :=
  s.q.anti.ahead m b (t - (inBand band b s.selected).length)

theorem Turning.select (hm : 0 < m) (h : Accounted band s items) (hr : s.q.anti.cursor < k) (hb : items b ≠ []) :
    ∃ s' c x rest, step (RotatingReserve.pick m) band s .select = some s' ∧ items c = x :: rest ∧
    bandOf (band x) = c ∧
      s'.selected = s.selected ++ [x] ∧ s'.enqueued = s.enqueued ∧ Accounted band s' (Function.update items c rest) ∧
      s'.q.anti.cursor < k ∧ (c ≠ b → ∀ d, s'.q.anti.ahead m b d < s.q.anti.ahead m b d) ∧
      (c = b → ∀ d, s'.q.anti.ahead m b d < s.q.anti.ahead m b (d + 1)) := by
  obtain ⟨r', c, hpick, hc, hr', hother, hserved⟩ :=
    RotatingReserve.pick_ahead hm hr (fun b => decide (items b ≠ [])) (decide_eq_true hb)
  obtain ⟨x, rest, hx⟩ := exists_cons_of_ne_nil (of_decide_eq_true hc)
  obtain ⟨s', hstep, rfl, henq, hsel, hacc⟩ := h.select hpick hx
  exact ⟨s', c, x, rest, hstep, hx, h.band_eq (by rw [hx]; exact mem_cons_self), hsel, henq, hacc, hr',
    hother, hserved⟩

theorem Turning.step {call : Call S} (hm : 0 < m) (h : Turning band s)
    (hstep : step (RotatingReserve.pick m) band s call = some s') : Turning band s' := by
  obtain ⟨⟨items, hacc⟩, hr⟩ := h
  cases call with
  | enqueue x =>
    obtain ⟨hanti, -, hacc'⟩ := hacc.enqueue hstep
    exact ⟨⟨_, hacc'⟩, hanti ▸ hr⟩
  | select =>
    by_cases hempty : ∀ b, items b = []
    · rw [hacc.select_empty hempty] at hstep
      cases hstep
      exact ⟨⟨items, hacc⟩, hr⟩
    · obtain ⟨b, hb⟩ := not_forall.mp hempty
      obtain ⟨s'', c, x, rest, hselect, -, -, -, -, hacc', hr', -⟩ := Turning.select hm hacc hr hb
      rw [hselect] at hstep
      cases hstep
      exact ⟨⟨_, hacc'⟩, hr'⟩

/-- One call: a select brings the `t`-th item of the band nearer to its turn, or to it. -/
theorem Turning.due_step {call : Call S} (hm : 0 < m) (h : Turning band s)
    (hwaits : (inBand band b s.selected).length ≤ t)
    (ht : t < (inBand band b s.enqueued).length)
    (hstep : RunQueue.step (RotatingReserve.pick m) band s call = some s') :
    t < (inBand band b s'.selected).length ∨ due m band s' b t + [call].count .select ≤ due m band s b t := by
  obtain ⟨⟨items, hacc⟩, hr⟩ := h
  cases call with
  | enqueue x =>
    obtain ⟨hanti, hsel, -⟩ := hacc.enqueue hstep
    exact .inr (by rw [due, due, hanti, hsel]; exact le_rfl)
  | select =>
    have hlen := congrArg List.length (hacc.2 b)
    rw [length_append] at hlen
    have hb : items b ≠ [] := fun hnil => by rw [hnil, length_nil] at hlen; omega
    obtain ⟨s'', c, x, rest, hselect, -, hx, hsel, -, -, -, hother, hserved⟩ := Turning.select hm hacc hr hb
    rw [hselect] at hstep
    cases hstep
    by_cases hc : c = b
    · have hgrown : inBand band b s'.selected = inBand band b s.selected ++ [x] := by
        rw [hsel, inBand_append_self _ _ (hx.trans hc)]
      unfold due
      rw [hgrown, length_append, length_singleton]
      obtain hlast | hmore := Nat.eq_or_lt_of_le hwaits
      · exact .inl (by omega)
      · refine .inr ?_
        have hnearer := hserved hc (t - ((inBand band b s.selected).length + 1))
        rw [show t - ((inBand band b s.selected).length + 1) + 1 = t - (inBand band b s.selected).length by
          omega] at hnearer
        exact hnearer
    · have hsame : inBand band b s'.selected = inBand band b s.selected := by
        rw [hsel, inBand_append_ne _ _ (fun heq => hc (hx.symm.trans heq))]
      unfold due
      rw [hsame]
      exact .inr (hother hc _)

theorem Turning.run (hm : 0 < m) (h : Turning band s) {calls : List (Call S)}
    (hrun : Machine.run (RunQueue.step (RotatingReserve.pick m) band) s calls = some s')
    (ht : t < (inBand band b s.enqueued).length)
    (hdue : t < (inBand band b s.selected).length ∨ due m band s b t ≤ calls.count .select) :
    t < (inBand band b s'.selected).length := by
  induction calls generalizing s with
  | nil =>
    cases hrun
    refine hdue.resolve_right fun hle => ?_
    have hpos := RotatingReserve.gap_pos (r := s'.q.anti) hm
    rw [due, RotatingReserve.ahead, count_nil] at hle
    omega
  | cons call calls ih =>
    obtain ⟨mid, hstep, hrest⟩ := run_cons.mp hrun
    have hgrows := step_grows hstep
    have ht' : t < (inBand band b mid.enqueued).length := ht.trans_le (hgrows.1.filter _).length_le
    refine ih (h.step hm hstep) hrest ht' ?_
    by_cases hout : t < (inBand band b s.selected).length
    · exact .inl (hout.trans_le (hgrows.2.filter _).length_le)
    · obtain hnow | hnearer := h.due_step hm (Nat.le_of_not_lt hout) ht hstep
      · exact .inl hnow
      · have hcount := hdue.resolve_left hout
        rw [← singleton_append, count_append] at hcount
        exact .inr (by omega)

/-- In every sequence of calls, with `K` bands and every `M`-th turn a reserve turn: a band gives its items
out in the order they came, each once; a select finds an item as long as one is left; and an item with `d`
before it in its band is out after `(d + 1) * K * M` more selects. -/
theorem rotatingReserve_serves (hm : 0 < m)
    (hs : Reachable (step (RotatingReserve.pick m) band) { q := { anti := {} } } s) :
    (∀ b : Fin k, inBand band b s.selected <+: inBand band b s.enqueued) ∧
    (select (RotatingReserve.pick m) s.q = some (s.q, { status := .empty }) ∧
        (∀ b : Fin k, inBand band b s.selected = inBand band b s.enqueued) ∨
      ∃ q' x, select (RotatingReserve.pick m) s.q = some (q', { item := some (.item x), status := .item })) ∧
    ∀ (b : Fin k) d x, (inBand band b s.enqueued)[(inBand band b s.selected).length + d]? = some x →
      ∀ calls s', Machine.run (step (RotatingReserve.pick m) band) s calls = some s' →
        (d + 1) * (k * m) ≤ calls.count .select →
        (inBand band b s'.selected)[(inBand band b s.selected).length + d]? = some x := by
  have hturning : ∀ s, Reachable (step (RotatingReserve.pick m) band) { q := { anti := {} } } s → Turning band s :=
    fun s hs => hs.invariant ⟨⟨_, Accounted.initial _⟩, Nat.pos_of_neZero k⟩ fun _ _ _ h hstep => h.step hm hstep
  obtain ⟨⟨items, hacc⟩, hr⟩ := hturning s hs
  refine ⟨fun b => ⟨items b, (hacc.2 b).symm⟩, ?_, fun b d x hx calls s' hrun hcount => ?_⟩
  · by_cases hempty : ∀ b, items b = []
    · exact .inl ⟨hacc.1.select_empty hempty, fun b => by rw [hacc.2, hempty, append_nil]⟩
    · obtain ⟨b, hb⟩ := not_forall.mp hempty
      obtain ⟨r', c, hpick, hc, -⟩ :=
        RotatingReserve.pick_ahead hm hr (fun b => decide (items b ≠ [])) (decide_eq_true hb)
      obtain ⟨x, rest, hx⟩ := exists_cons_of_ne_nil (of_decide_eq_true hc)
      obtain ⟨q', hselect, -⟩ := hacc.1.select_item hpick hx
      exact .inr ⟨q', x, hselect⟩
  · have ht : (inBand band b s.selected).length + d < (inBand band b s.enqueued).length :=
      (List.getElem?_eq_some_iff.mp hx).1
    have hdue : due m band s b ((inBand band b s.selected).length + d) ≤ (d + 1) * (k * m) := by
      rw [due, Nat.add_sub_cancel_left]
      exact RotatingReserve.ahead_le hr d
    have hout := Turning.run hm ⟨⟨items, hacc⟩, hr⟩ hrun ht (.inr (hdue.trans hcount))
    -- both ends of the run have the item at this place of what was enqueued
    obtain ⟨⟨items', hacc'⟩, -⟩ := hturning s' (hs.run hrun)
    obtain ⟨more, hmore⟩ := (run_grows hrun).1.filter fun x => decide (bandOf (band x) = b)
    have hstill : (inBand band b s'.enqueued)[(inBand band b s.selected).length + d]? = some x := by
      rw [inBand, ← hmore]
      exact (getElem?_append_left ht).trans hx
    rw [hacc'.2 b, getElem?_append_left hout] at hstill
    exact hstill

def oneWaiting : State Nat RotatingReserve 2 := { q := enqueue { anti := {} } 1 7, enqueued := [7] }

theorem rotatingReserve_serves_one :
    ∃ s', Machine.run (step (RotatingReserve.pick 1) fun n => if n = 7 then 1 else 0) oneWaiting
        [.enqueue 3, .enqueue 4, .select, .select] = some s' ∧
      (inBand (fun n => if n = 7 then 1 else 0) (1 : Fin 2) s'.selected)[0]? = some 7 := by
  have hone : Reachable (step (RotatingReserve.pick 1) fun n => if n = 7 then 1 else 0) { q := { anti := {} } }
      oneWaiting := .step (a := .enqueue 7) .start trivial rfl
  obtain ⟨s', hrun⟩ := isSome_iff_exists.mp (show (Machine.run (step (RotatingReserve.pick 1)
    fun n => if n = 7 then 1 else 0) oneWaiting [.enqueue 3, .enqueue 4, .select, .select]).isSome from rfl)
  exact ⟨s', hrun, (rotatingReserve_serves Nat.one_pos hone).2.2 1 0 7 rfl _ s' hrun (by decide)⟩

end Quark.RunQueue
