import Quark.ReminderService

/-! The order in which the ready segment is drained: whether an occurrence fires before those that later ticks
pull. -/
namespace Quark.Reminder

open List ReminderService

/-- The service, and the tick that pulled each occurrence. -/
structure Backlog where
  service : ReminderService
  ticks : Nat := 0
  pulled : Nat → Nat := fun _ => 0

namespace Backlog

def step (cfg : ReminderConfig) (w : Backlog) (label : Label) : Option Backlog :=
  (w.service.step cfg label).map fun s =>
    match label with
    | .tick now _ =>
      { service := s
        ticks := w.ticks + 1
        pulled := fun e => if e ∈ (w.service.due cfg now).map ReadyItem.epoch then w.ticks + 1 else w.pulled e }
    | _ => { w with service := s }

/-- What a tick pulls ranks behind all that waits already, as far as both are live. -/
def Behind (cfg : ReminderConfig) (w : Backlog) : Label → Prop
  | .tick now _ => ∀ x ∈ w.service.ready, w.service.live x = true →
      ∀ y ∈ w.service.due cfg now, w.service.live y = true → x.rank < y.rank
  | _ => True

/-- The segment is sorted by rank, and the ranks of live items follow the ticks that pulled them. -/
structure Ordered (w : Backlog) : Prop where
  fresh : w.service.Fresh
  sorted : w.service.ready.Pairwise fun a b => a.rank ≤ b.rank
  ranks : ∀ x ∈ w.service.ready, ∀ y ∈ w.service.ready, w.service.live x = true → w.service.live y = true →
    w.pulled x.epoch < w.pulled y.epoch → x.rank < y.rank
  known : ∀ x ∈ w.service.ready, w.pulled x.epoch ≤ w.ticks
  front : ∀ {now budget fired item row}, w.service.phase = .firing now budget fired item row →
    ∀ x ∈ w.service.ready, w.service.live x = true → w.pulled item.epoch ≤ w.pulled x.epoch

section

variable {cfg : ReminderConfig} {w w' : Backlog} {s s' : ReminderService} {label : Label} {x item : ReadyItem}
variable {row : ReminderRow}

theorem start (rows : Table ReminderKey ReminderRow) : Ordered { service := { rows } } :=
  ⟨fresh_start rows, .nil, nofun, nofun, nofun⟩

theorem live_insertIndex (hx : x.epoch ≤ s.epochCounter) (h : (s.insertIndex cfg row).live x = true) :
    s.live x = true := by
  obtain ⟨l, hl, hepoch⟩ := live_iff.mp h
  exact live_iff.mpr ⟨l, holds_insertIndex hx hl hepoch, hepoch⟩

theorem live_erase {k : ReminderKey} (hkey : s'.byKey = s.byKey.erase k) (h : s'.live x = true) :
    s.live x = true := by
  obtain ⟨l, hl, hepoch⟩ := live_iff.mp h
  rw [hkey] at hl
  exact live_iff.mpr ⟨l, Table.lookup_of_erase hl, hepoch⟩

theorem live_remindAt {stored : Bool} (hx : x.epoch ≤ s.epochCounter)
    (h : (s.remindAt cfg row stored).live x = true) :
    s.live x = true := by
  unfold remindAt at h
  split at h
  · exact @live_insertIndex cfg { s with rows := _ } x row hx h
  · exact h

theorem confirmed_kept {stored : Bool} (h : s.confirmed cfg item row stored = some s') : s'.ready = s.ready ∧
    ∀ x, x.epoch ≤ s.epochCounter → s'.live x = true → s.live x = true := by
  rcases confirmed_cases h with ⟨-, rfl⟩ | ⟨-, ⟨-, rfl⟩ | ⟨-, next, -, -, rfl⟩ | ⟨-, -, rfl⟩⟩
  · exact ⟨rfl, fun x _ hlive => hlive⟩
  · exact ⟨rfl, fun x hx hlive => live_insertIndex hx hlive⟩
  · exact ⟨rfl, fun x hx hlive => @live_insertIndex cfg { s with rows := _ } x next hx hlive⟩
  · exact ⟨rfl, fun x _ hlive => live_erase rfl hlive⟩

theorem Ordered.shrink (h : Ordered w) (hfresh : s'.Fresh) (hready : s'.ready.Sublist w.service.ready)
    (hlive : ∀ x ∈ s'.ready, s'.live x = true → w.service.live x = true)
    (hfront : ∀ {now budget fired item row}, s'.phase = .firing now budget fired item row →
      ∀ x ∈ s'.ready, s'.live x = true → w.pulled item.epoch ≤ w.pulled x.epoch) :
      Ordered { w with service := s' } where
  fresh := hfresh
  sorted := h.sorted.sublist hready
  ranks x hx y hy hlx hly := h.ranks x (hready.subset hx) y (hready.subset hy) (hlive x hx hlx) (hlive y hy hly)
  known x hx := h.known x (hready.subset hx)
  front := hfront

theorem Ordered.bounded (h : Ordered w) (hx : x ∈ w.service.ready) : x.epoch ≤ w.service.epochCounter :=
  h.fresh.bounded _ (mem_append_right _ (mem_map_of_mem hx))

/-- Sorting by rank keeps the order of the ticks where what was pulled ranks behind what waited. -/
theorem Ordered.tick (h : Ordered w) {now : WallNs} {ready : List ReadyItem} (hfresh : s'.Fresh)
    (hperm : ready.Perm (w.service.ready ++ w.service.due cfg now))
    (hsorted : w.service.due cfg now = [] ∧ ready = w.service.ready ∨ ready.Pairwise fun a b => a.rank ≤ b.rank)
    (hbehind : ∀ x ∈ w.service.ready, w.service.live x = true →
      ∀ y ∈ w.service.due cfg now, w.service.live y = true → x.rank < y.rank)
    (hready : s'.ready = ready) (hlive : s'.byKey = w.service.byKey)
    (hphase : ∀ {now budget fired item row}, s'.phase ≠ .firing now budget fired item row) :
    Ordered { service := s'
              ticks := w.ticks + 1
              pulled := fun e => if e ∈ (w.service.due cfg now).map ReadyItem.epoch then w.ticks + 1
              else w.pulled e } := by
  -- an occurrence that waits already is not pulled again
  have hold : ∀ x ∈ w.service.ready, x.epoch ∉ (w.service.due cfg now).map ReadyItem.epoch := fun x hx hin => by
    rw [epochs_due] at hin
    have hsub : indexEpochs (w.service.index.takeWhile fun b => b.1 ≤ cfg.bucketOf now) ⊆
        indexEpochs w.service.index := fun e he => by
      obtain ⟨b, hb, he⟩ := mem_flatMap.mp he
      exact mem_flatMap.mpr ⟨b, takeWhile_prefix _ |>.subset hb, he⟩
    exact (nodup_append.mp h.fresh.nodup).2.2 _ (hsub hin) _ (mem_map_of_mem hx) rfl
  have hnew : ∀ y ∈ w.service.due cfg now, y.epoch ∈ (w.service.due cfg now).map ReadyItem.epoch := fun y hy =>
    mem_map_of_mem hy
  have hsame : ∀ x, s'.live x = w.service.live x := fun x => by rw [live, live, hlive]
  have hmem : ∀ x ∈ s'.ready, x ∈ w.service.ready ∨ x ∈ w.service.due cfg now := fun x hx => by
    rw [hready] at hx
    exact mem_append.mp (hperm.mem_iff.mp hx)
  refine ⟨hfresh, ?_, fun x hx y hy hlx hly hlt => ?_, fun x hx => ?_, fun hfiring => absurd hfiring hphase⟩
  · rw [hready]
    rcases hsorted with ⟨-, hunchanged⟩ | hsorted
    · rw [hunchanged]
      exact h.sorted
    · exact hsorted
  · rw [hsame] at hlx hly
    rcases hmem x hx with hx | hx
    · dsimp only at hlt
      rw [if_neg (hold x hx)] at hlt
      rcases hmem y hy with hy | hy
      · rw [if_neg (hold y hy)] at hlt
        exact h.ranks x hx y hy hlx hly hlt
      · exact hbehind x hx hlx y hy hly
    · dsimp only at hlt
      rw [if_pos (hnew x hx)] at hlt
      rcases hmem y hy with hy | hy
      · rw [if_neg (hold y hy)] at hlt
        exact absurd (h.known y hy) (by omega)
      · rw [if_pos (hnew y hy)] at hlt
        exact absurd hlt (lt_irrefl _)
  · dsimp only
    rcases hmem x hx with hx | hx
    · rw [if_neg (hold x hx)]
      exact Nat.le_succ_of_le (h.known x hx)
    · rw [if_pos (hnew x hx)]

theorem Ordered.step (h : Ordered w) (hok : Behind cfg w label) (hstep : w.step cfg label = some w') :
    Ordered w' := by
  obtain ⟨s', hs', rfl⟩ := Option.map_eq_some_iff.mp hstep
  have hfresh := h.fresh.step hs'
  cases does_of_step hs' with
  | @open_ rows hidle hrows =>
    have hnil : (w.service.open_ cfg rows).ready = [] := insertAll_frame.2.1
    exact h.shrink hfresh (by rw [hnil]; exact nil_sublist _) (fun x hx => by rw [hnil] at hx; cases hx)
      fun _ x hx => by rw [hnil] at hx; cases hx
  | @remindAt row stored hcalls =>
    have hlive : ∀ x ∈ w.service.ready, (w.service.remindAt cfg row stored).live x = true → w.service.live x = true :=
      fun x hx hl => live_remindAt (h.bounded hx) hl
    obtain ⟨hready, -, -, hphase⟩ := remindAt_frame
    refine h.shrink hfresh (by rw [hready]) (by rw [hready]; exact hlive) fun hfiring x hx hl => ?_
    rw [hready] at hx
    rw [hphase] at hfiring
    exact h.front hfiring x hx (hlive x hx hl)
  | cancel hcalls =>
    exact h.shrink hfresh (List.Sublist.refl _) (fun x _ hl => live_erase rfl hl)
      fun hfiring x hx hl => h.front hfiring x hx (live_erase rfl hl)
  | tick hidle hperm hsorted => exact h.tick hfresh hperm hsorted hok rfl rfl nofun
  | finish hdraining =>
    exact h.shrink hfresh (List.Sublist.refl _) (fun x _ hl => hl) nofun
  | skip hdraining hready hstale =>
    refine h.shrink hfresh (by rw [hready]; exact sublist_cons_self _ _) (fun x _ hl => hl) fun hfiring => ?_
    rw [hdraining] at hfiring
    cases hfiring
  | @fire now budget fired item ready l hdraining hready hbudget hl hepoch =>
    have hitem : w.service.live item = true := live_iff.mpr ⟨l, hl, hepoch⟩
    have hsorted := h.sorted
    rw [hready, pairwise_cons] at hsorted
    refine h.shrink hfresh (by rw [hready]; exact sublist_cons_self _ _)
      (fun x _ hlx => hlx) fun hfiring x hx hlx => ?_
    cases hfiring
    by_contra hlater
    -- an item of an earlier tick behind this one would rank before it
    refine UInt64.not_lt.mpr (hsorted.1 x hx) (h.ranks x ?_ item ?_ hlx hitem (Nat.lt_of_not_le hlater))
    · rw [hready]
      exact mem_cons_of_mem _ hx
    · rw [hready]
      exact mem_cons_self
  | confirm hfiring hmid =>
    obtain ⟨hready, hlive⟩ := confirmed_kept hmid
    refine h.shrink hfresh (by rw [hready]) (fun x hx hl => ?_) nofun
    rw [hready] at hx
    exact hlive x (h.bounded hx) hl

end

/-- While an occurrence fires, no live one that an earlier tick pulled still waits, in every run in which each
tick pulls behind what waits. -/
theorem fires_in_tick_order {cfg : ReminderConfig} {rows : Table ReminderKey ReminderRow} {w : Backlog}
    (hreach : Machine.Reach (step cfg) (Behind cfg) { service := { rows } } w) {now : WallNs} {budget fired : Nat}
    {item : ReadyItem} {row : ReminderRow} (hfiring : w.service.phase = .firing now budget fired item row) :
    ∀ x ∈ w.service.ready, w.service.live x = true → w.pulled item.epoch ≤ w.pulled x.epoch := by
  have hordered : Ordered w := hreach.invariant (start rows) fun w label w' h hok hstep => h.step hok hstep
  exact hordered.front hfiring

instance (cfg : ReminderConfig) (w : Backlog) (label : Label) : Decidable (Behind cfg w label) :=
  match label with
  | .tick _ _ => inferInstanceAs (Decidable (∀ x ∈ w.service.ready, _ → ∀ y ∈ _, _ → _))
  | .open_ _ | .remindAt _ _ | .cancel _ _ _ | .drain | .confirm _ => inferInstanceAs (Decidable True)

def oneRate : ReminderConfig := { fireRate := 1, credit := 1 }

def thirdDue (actor : UInt64) (sorted : List ReadyItem) : List Label :=
  [.remindAt (reminder 3 0) true, .remindAt (reminder 1 0) true,
    .tick 1000000000 [readyItem 1 2, readyItem 3 1], .drain,
    .confirm true, .drain, .remindAt (reminder actor 2000000000) true, .tick 2000000000 sorted, .drain]

theorem fires_in_tick_order_ranked : ∃ w, Machine.run (Machine.guarded (step oneRate) (Behind oneRate))
    { service := {} }
      (thirdDue 7 [readyItem 3 1, readyItem 7 3]) = some w ∧
    w.service.phase = .firing 2000000000 1 0 (readyItem 3 1) (reminder 3 0) ∧ readyItem 7 3 ∈ w.service.ready ∧
    w.pulled 1 ≤ w.pulled 3 := by
  obtain ⟨w, hw, hfacts⟩ := Option.map_eq_some_iff.mp
    (show (Machine.run (Machine.guarded (step oneRate) (Behind oneRate))
    { service := {} } (thirdDue 7 [readyItem 3 1, readyItem 7 3])).map (fun w =>
      decide (w.service.phase = .firing 2000000000 1 0 (readyItem 3 1) (reminder 3 0) ∧
        readyItem 7 3 ∈ w.service.ready ∧ w.service.live (readyItem 7 3) = true)) = some true by decide +kernel)
  obtain ⟨hfiring, hin, hlive⟩ := of_decide_eq_true hfacts
  exact ⟨w, hw, hfiring, hin, fires_in_tick_order (Machine.reach_of_run hw) hfiring _ hin hlive⟩

/-- The third reminder, which the second tick pulls, fires before one that the first tick pulled. -/
theorem overtaken_by_rank : ∃ w, Machine.run (step oneRate) { service := {} }
      (thirdDue 4 [readyItem 4 3, readyItem 3 1]) = some w ∧
    w.service.phase = .firing 2000000000 1 0 (readyItem 4 3) (reminder 4 2000000000) ∧
      readyItem 3 1 ∈ w.service.ready ∧ w.service.live (readyItem 3 1) = true ∧ w.pulled 1 = 1 ∧ w.pulled 3 = 2 := by
  obtain ⟨w, hw, hfacts⟩ := Option.map_eq_some_iff.mp (show (Machine.run (step oneRate) { service := {} }
    (thirdDue 4 [readyItem 4 3, readyItem 3 1])).map (fun w =>
      decide (w.service.phase = .firing 2000000000 1 0 (readyItem 4 3) (reminder 4 2000000000) ∧
        readyItem 3 1 ∈ w.service.ready ∧ w.service.live (readyItem 3 1) = true ∧ w.pulled 1 = 1 ∧ w.pulled 3 = 2)) =
          some true by decide +kernel)
  exact ⟨w, hw, of_decide_eq_true hfacts⟩

end Backlog

end Quark.Reminder
