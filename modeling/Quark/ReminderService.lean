import Mathlib.Data.Rat.Floor
import Quark.EffectivelyOnce
import Quark.Lib.Table
import Quark.ReminderStore

/-! `reminder_service.hpp`, `ReminderService`: reminders are kept by the bucket they are due in, a tick pulls
the buckets that have come due into the ready segment and drains it under a token bucket. A tick is taken in
steps, so that the fire callback may register and cancel in between. -/
open List Option

namespace Quark.Reminder

/-- The instants of a `WallInstant`, in nanoseconds since 1970. -/
abbrev WallNs := Int64

structure ReminderConfig where
  bucketNs : Int64 := 1000000000
  fireRate : UInt32 := 0
  credit : UInt32 := 4096
  deriving DecidableEq, Repr

/-- What the fire callback receives. -/
structure FireEvent where
  actor : ActorId
  name : List UInt8
  nameHash : UInt64
  scheduledDueNs : WallNs
  firedAtNs : WallNs
  payload : List UInt8
  deriving DecidableEq, Repr

structure IndexEntry where
  key : ReminderKey
  epoch : Nat
  deriving DecidableEq, Repr

structure ReadyItem where
  key : ReminderKey
  epoch : Nat
  rank : UInt64
  deriving DecidableEq, Repr

structure Live where
  row : ReminderRow
  epoch : Nat
  deriving DecidableEq, Repr

/-- Where the service stands in a tick: between two items of the drain loop, or in the fire callback of one. -/
inductive Phase
  | idle
  | draining (now : WallNs) (budget fired : Nat)
  | firing (now : WallNs) (budget fired : Nat) (item : ReadyItem) (row : ReminderRow)
  deriving DecidableEq, Repr

def drainRank (k : ReminderKey) : UInt64 := splitmix64 (k.actor.hash ^^^ (k.nameHash * 0x9E3779B97F4A7C15))

/-- `ns / bucket_ns`, which rounds toward zero. -/
def ReminderConfig.bucketOf (cfg : ReminderConfig) (ns : WallNs) : Int := ns.toInt.tdiv cfg.bucketNs.toInt

abbrev DueIndex := List (Int × List IndexEntry)

def DueIndex.push (bucket : Int) (entry : IndexEntry) : DueIndex → DueIndex
  | [] => [(bucket, [entry])]
  | (b, entries) :: index =>
    if bucket < b then (bucket, [entry]) :: (b, entries) :: index
    else if bucket = b then (b, entries ++ [entry]) :: index
    else (b, entries) :: DueIndex.push bucket entry index

def FireEvent.key (ev : FireEvent) : ReminderKey := ⟨ev.actor, ev.nameHash⟩

/-- The row of the next occurrence. The sum of an overflow is not defined. -/
def advance (row : ReminderRow) : Option ReminderRow :=
  let due := row.scheduledDueNs.toInt + row.periodNs.toInt
  if -2 ^ 63 ≤ due ∧ due < 2 ^ 63 then some { row with scheduledDueNs := Int64.ofInt due } else none

end Reminder

/-- The service, and the rows that its store holds. -/
structure ReminderService where
  rows : Table ReminderKey ReminderRow := ∅
  index : Reminder.DueIndex := []
  byKey : Table ReminderKey Reminder.Live := ∅
  ready : List Reminder.ReadyItem := []
  epochCounter : Nat := 0
  tokens : ℚ := 0
  lastTickNs : Reminder.WallNs := -1
  phase : Reminder.Phase := .idle

namespace ReminderService

open Reminder

variable (cfg : ReminderConfig) (s : ReminderService)

def insertIndex (row : ReminderRow) : ReminderService :=
  { s with
    epochCounter := s.epochCounter + 1
    byKey := s.byKey.insert row.key ⟨row, s.epochCounter + 1⟩
    index := DueIndex.push (cfg.bucketOf row.scheduledDueNs) ⟨row.key, s.epochCounter + 1⟩ s.index }

/-- `open`, with the rows that `load_all` returned, if it did. -/
def open_ (rows : Option (List ReminderRow)) : ReminderService :=
  (rows.getD []).foldl (insertIndex cfg) { s with index := [], byKey := ∅, ready := [] }

/-- `remind_at`; `stored` says whether the store took the row. -/
def remindAt (row : ReminderRow) (stored : Bool) : ReminderService :=
  if stored then insertIndex cfg { s with rows := s.rows.insert row.key row } row else s

def cancel (actor : ActorId) (name : List UInt8) (stored : Bool) : ReminderService :=
  let k : ReminderKey := ⟨actor, reminderNameHash name⟩
  { s with
    byKey := s.byKey.erase k
    rows := if stored then s.rows.erase k else s.rows }

def live (item : ReadyItem) : Bool := (s.byKey.lookup item.key).any fun l => l.epoch == item.epoch

/-- What a tick at `now` pulls into the ready segment. -/
def due (now : WallNs) : List ReadyItem :=
  (s.index.takeWhile fun b => b.1 ≤ cfg.bucketOf now).flatMap fun b =>
    b.2.map fun ie => ⟨ie.key, ie.epoch, drainRank ie.key⟩

def accrue (now : WallNs) : ℚ :=
  let dt : ℚ := if s.lastTickNs < 0 then cfg.bucketNs.toInt / 10 ^ 9
    else (now.toInt - s.lastTickNs.toInt : Int) / 10 ^ 9
  min (s.tokens + dt * cfg.fireRate.toNat) cfg.credit.toNat

def budget (tokens : ℚ) (ready : Nat) : Nat :=
  if cfg.fireRate = 0 then min ready cfg.credit.toNat
  else min ((if 0 < tokens then tokens.floor else 0).toNat) cfg.credit.toNat

/-- The start of `tick`: pull, sort and grant. `std::sort` leaves items of one rank in any order, so the
outcome `sorted` is given; it is looked at if there was something to pull. -/
def startTick (now : WallNs) (sorted : List ReadyItem) : Option ReminderService :=
  let added := s.due cfg now
  let ready := if added = [] then s.ready else sorted
  let tokens := if cfg.fireRate = 0 then s.tokens else s.accrue cfg now
  if added = [] ∨ (sorted.Perm (s.ready ++ added) ∧ sorted.Pairwise fun a b => a.rank ≤ b.rank) then
    some { s with
      index := s.index.dropWhile fun b => b.1 ≤ cfg.bucketOf now
      ready, tokens, lastTickNs := now
      phase := .draining now (budget cfg tokens ready.length) 0 }
  else none

def drainNext (now : WallNs) (budget fired : Nat) : ReminderService :=
  match s.ready with
  | [] => { s with phase := .idle }
  | item :: ready =>
    if budget ≤ fired then { s with phase := .idle }
    else match s.byKey.lookup item.key with
      | none => { s with ready }
      | some l =>
        if l.epoch = item.epoch then { s with ready, phase := .firing now budget fired item l.row }
        else { s with ready }

def fireEvent (now : WallNs) (item : ReadyItem) (row : ReminderRow) : FireEvent :=
  ⟨row.actor, row.name, item.key.nameHash, row.scheduledDueNs, now, row.payload⟩

/-- What follows the fire callback: the row is advanced or removed, in the store first; `stored` says whether
the store did it. -/
def confirmed (item : ReadyItem) (row : ReminderRow) (stored : Bool) : Option ReminderService :=
  if s.live item then
    if 0 < row.periodNs then
      (advance row).map fun next =>
        if stored then insertIndex cfg { s with rows := s.rows.insert next.key next } next else insertIndex cfg s row
    else if stored then some { s with rows := s.rows.erase item.key, byKey := s.byKey.erase item.key }
    else some (insertIndex cfg s row)
  else some s

def confirm (now : WallNs) (budget fired : Nat) (item : ReadyItem) (row : ReminderRow) (stored : Bool) :
    Option ReminderService :=
  (confirmed cfg s item row stored).map fun s =>
    { s with
      tokens := if cfg.fireRate = 0 then s.tokens else s.tokens - 1
      phase := .draining now budget (fired + 1) }

end ReminderService

namespace Reminder

inductive Label
  | open_ (rows : Option (List ReminderRow))
  | remindAt (row : ReminderRow) (stored : Bool)
  | cancel (actor : ActorId) (name : List UInt8) (stored : Bool)
  | tick (now : WallNs) (sorted : List ReadyItem)
  | drain
  | confirm (stored : Bool)
  deriving DecidableEq, Repr

end Reminder

namespace ReminderService

open Reminder

/-- The calls and the turns of the drain loop, one at a time. While the loop runs, calls come from the fire
callback. -/
def step (cfg : ReminderConfig) (s : ReminderService) : Label → Option ReminderService
  | .open_ rows =>
    if s.phase = .idle ∧ rows.all (fun rs => rs.isPerm (s.rows.entries.map Sigma.snd))
      then some (s.open_ cfg rows) else none
  | .remindAt row stored =>
    match s.phase with
    | .draining _ _ _ => none
    | _ => some (s.remindAt cfg row stored)
  | .cancel actor name stored =>
    match s.phase with
    | .draining _ _ _ => none
    | _ => some (s.cancel actor name stored)
  | .tick now sorted => if s.phase = .idle then s.startTick cfg now sorted else none
  | .drain =>
    match s.phase with
    | .draining now budget fired => some (s.drainNext now budget fired)
    | _ => none
  | .confirm stored =>
    match s.phase with
    | .firing now budget fired item row => s.confirm cfg now budget fired item row stored
    | _ => none

/-- A step, with what becomes of the service. -/
inductive Does (cfg : ReminderConfig) (s : ReminderService) : Label → ReminderService → Prop
  | open_ {rows : Option (List ReminderRow)} (hidle : s.phase = .idle)
      (hrows : ∀ rs ∈ rows, rs.Perm (s.rows.entries.map Sigma.snd)) : Does cfg s (.open_ rows) (s.open_ cfg rows)
  | remindAt {row : ReminderRow} {stored : Bool} (hcalls : ∀ now budget fired, s.phase ≠ .draining now budget fired) :
      Does cfg s (.remindAt row stored) (s.remindAt cfg row stored)
  | cancel {actor : ActorId} {name : List UInt8} {stored : Bool}
      (hcalls : ∀ now budget fired, s.phase ≠ .draining now budget fired) :
      Does cfg s (.cancel actor name stored) (s.cancel actor name stored)
  | tick {now : WallNs} {sorted ready : List ReadyItem} (hidle : s.phase = .idle)
      (hperm : ready.Perm (s.ready ++ s.due cfg now))
      (hsorted : s.due cfg now = [] ∧ ready = s.ready ∨ ready.Pairwise fun a b => a.rank ≤ b.rank) :
      Does cfg s (.tick now sorted)
        { s with
          index := s.index.dropWhile fun b => b.1 ≤ cfg.bucketOf now
          ready
          tokens := if cfg.fireRate = 0 then s.tokens else s.accrue cfg now
          lastTickNs := now
          phase := .draining now (budget cfg (if cfg.fireRate = 0 then s.tokens else s.accrue cfg now)
            ready.length) 0 }
  | finish {now : WallNs} {budget fired : Nat} (hphase : s.phase = .draining now budget fired) :
      Does cfg s .drain { s with phase := .idle }
  | skip {now : WallNs} {budget fired : Nat} {item : ReadyItem} {ready : List ReadyItem}
      (hphase : s.phase = .draining now budget fired) (hready : s.ready = item :: ready)
      (hstale : s.live item = false) : Does cfg s .drain { s with ready }
  | fire {now : WallNs} {budget fired : Nat} {item : ReadyItem} {ready : List ReadyItem} {l : Live}
      (hphase : s.phase = .draining now budget fired) (hready : s.ready = item :: ready) (hbudget : fired < budget)
      (hl : s.byKey.lookup item.key = some l) (hepoch : l.epoch = item.epoch) :
      Does cfg s .drain { s with ready, phase := .firing now budget fired item l.row }
  | confirm {now : WallNs} {budget fired : Nat} {item : ReadyItem} {row : ReminderRow} {stored : Bool}
      {mid : ReminderService}
      (hphase : s.phase = .firing now budget fired item row) (hmid : s.confirmed cfg item row stored = some mid) :
      Does cfg s (.confirm stored)
        { mid with
          tokens := if cfg.fireRate = 0 then mid.tokens else mid.tokens - 1
          phase := .draining now budget (fired + 1) }

def indexEpochs (index : DueIndex) : List Nat := index.flatMap fun b => b.2.map IndexEntry.epoch

def epochs (s : ReminderService) : List Nat := indexEpochs s.index ++ s.ready.map ReadyItem.epoch

/-- No epoch waits twice, and none is used that was not given out. -/
structure Fresh (s : ReminderService) : Prop where
  nodup : s.epochs.Nodup
  bounded : ∀ e ∈ s.epochs, e ≤ s.epochCounter
  firing : ∀ {now budget fired item row}, s.phase = .firing now budget fired item row → item.epoch ≤ s.epochCounter

section

variable {cfg : ReminderConfig} {s s' : ReminderService} {row : ReminderRow} {index : DueIndex} {bucket : Int}
variable {ie : IndexEntry} {item x : ReadyItem} {l : Live} {now : WallNs} {sorted : List ReadyItem} {label : Label}
variable {rows : List ReminderRow}

theorem epochs_push : (indexEpochs (index.push bucket ie)).Perm (ie.epoch :: indexEpochs index) := by
  induction index with
  | nil => exact .refl _
  | cons b index ih =>
    obtain ⟨b, entries⟩ := b
    unfold DueIndex.push
    split
    · exact .refl _
    · split
      · change ((entries ++ [ie]).map IndexEntry.epoch ++ indexEpochs index).Perm
          (ie.epoch :: (entries.map IndexEntry.epoch ++ indexEpochs index))
        rw [map_append, append_assoc]
        exact perm_middle
      · exact (ih.append_left _).trans perm_middle

theorem epochs_insertIndex : (s.insertIndex cfg row).epochs.Perm ((s.epochCounter + 1) :: s.epochs) :=
  epochs_push.append_right _

theorem epochs_due : (s.due cfg now).map ReadyItem.epoch =
    indexEpochs (s.index.takeWhile fun b => b.1 ≤ cfg.bucketOf now) := by
  unfold due indexEpochs
  rw [List.map_flatMap]
  congr 1
  funext b
  rw [List.map_map]
  rfl

/-- An entry that was given out before is live after an insertion only if it was so. -/
theorem holds_insertIndex (hold : x.epoch ≤ s.epochCounter) (hl : (s.insertIndex cfg row).byKey.lookup x.key = some l)
    (hepoch : l.epoch = x.epoch) : s.byKey.lookup x.key = some l := by
  unfold insertIndex at hl
  by_cases hkey : x.key = row.key
  · rw [hkey, AList.lookup_insert] at hl
    cases hl
    exact absurd hold (by rw [← hepoch]; exact Nat.not_succ_le_self _)
  · rwa [AList.lookup_insert_ne hkey] at hl

theorem live_iff : s.live item = true ↔ ∃ l, s.byKey.lookup item.key = some l ∧ l.epoch = item.epoch := by
  unfold live
  rw [Option.any_eq_true]
  simp only [beq_iff_eq]

theorem Fresh.insertIndex (h : s.Fresh) : (s.insertIndex cfg row).Fresh where
  nodup := by
    rw [epochs_insertIndex.nodup_iff, nodup_cons]
    exact ⟨fun hin => Nat.not_succ_le_self _ (h.bounded _ hin), h.nodup⟩
  bounded e he := by
    rcases mem_cons.mp (epochs_insertIndex.mem_iff.mp he) with rfl | he
    · exact le_rfl
    · exact Nat.le_succ_of_le (h.bounded e he)
  firing hphase := Nat.le_succ_of_le (h.firing hphase)

theorem Fresh.insertAll (h : s.Fresh) : (rows.foldl (ReminderService.insertIndex cfg) s).Fresh := by
  induction rows generalizing s with
  | nil => exact h
  | cons row rows ih => exact ih h.insertIndex

theorem Fresh.remindAt (h : s.Fresh) {stored : Bool} : (s.remindAt cfg row stored).Fresh := by
  unfold ReminderService.remindAt
  split
  · exact Fresh.insertIndex ⟨h.nodup, h.bounded, h.firing⟩
  · exact h

theorem insertAll_frame : (rows.foldl (ReminderService.insertIndex cfg) s).rows = s.rows ∧
    (rows.foldl (ReminderService.insertIndex cfg) s).ready = s.ready ∧
    (rows.foldl (ReminderService.insertIndex cfg) s).tokens = s.tokens ∧
    (rows.foldl (ReminderService.insertIndex cfg) s).lastTickNs = s.lastTickNs ∧
    (rows.foldl (ReminderService.insertIndex cfg) s).phase = s.phase := by
  induction rows generalizing s with
  | nil => exact ⟨rfl, rfl, rfl, rfl, rfl⟩
  | cons row rows ih => exact @ih (s.insertIndex cfg row)

theorem remindAt_frame {stored : Bool} : (s.remindAt cfg row stored).ready = s.ready ∧
    (s.remindAt cfg row stored).tokens = s.tokens ∧ (s.remindAt cfg row stored).lastTickNs = s.lastTickNs ∧
    (s.remindAt cfg row stored).phase = s.phase := by
  unfold ReminderService.remindAt
  split
  · exact ⟨rfl, rfl, rfl, rfl⟩
  · exact ⟨rfl, rfl, rfl, rfl⟩

theorem epochs_tick {ready : List ReadyItem} (hperm : ready.Perm (s.ready ++ s.due cfg now)) :
    (indexEpochs (s.index.dropWhile fun b => b.1 ≤ cfg.bucketOf now) ++ ready.map ReadyItem.epoch).Perm s.epochs := by
  have hsplit : indexEpochs s.index = indexEpochs (s.index.takeWhile fun b => b.1 ≤ cfg.bucketOf now) ++
      indexEpochs (s.index.dropWhile fun b => b.1 ≤ cfg.bucketOf now) := by
    rw [indexEpochs, indexEpochs, indexEpochs, ← flatMap_append, takeWhile_append_dropWhile]
  have hready := hperm.map ReadyItem.epoch
  rw [map_append, epochs_due] at hready
  rw [epochs, hsplit, append_assoc]
  refine (hready.append_left _).trans (perm_append_comm.trans ?_)
  rw [append_assoc]
  refine perm_append_comm.trans ?_
  rw [append_assoc]

theorem does_of_step (h : s.step cfg label = some s') : Does cfg s label s' := by
  cases label with
  | open_ rows =>
    simp only [step] at h
    split at h
    · next hopens =>
      cases h
      refine .open_ hopens.1 fun rs hrs => ?_
      obtain rfl := mem_def.mp hrs
      exact isPerm_iff.mp hopens.2
    · cases h
  | remindAt row stored =>
    simp only [step] at h
    split at h
    · cases h
    · next hcalls =>
      cases h
      exact .remindAt hcalls
  | cancel actor name stored =>
    simp only [step] at h
    split at h
    · cases h
    · next hcalls =>
      cases h
      exact .cancel hcalls
  | tick now sorted =>
    simp only [step] at h
    split at h
    · next hidle =>
      unfold startTick at h
      dsimp only at h
      split at h
      · next hsorted =>
        cases h
        by_cases hnone : s.due cfg now = []
        · rw [if_pos hnone]
          exact .tick hidle (by rw [hnone, append_nil]) (.inl ⟨hnone, rfl⟩)
        · rw [if_neg hnone]
          obtain ⟨hperm, hsorted⟩ := hsorted.resolve_left hnone
          exact .tick hidle hperm (.inr hsorted)
      · cases h
    · cases h
  | drain =>
    simp only [step] at h
    split at h
    · next now budget fired hphase =>
      cases h
      unfold drainNext
      split
      · exact .finish hphase
      · next item ready hready =>
        split
        · exact .finish hphase
        · next hbudget =>
          split
          · next hl => exact .skip hphase hready (by rw [live, hl]; rfl)
          · next l hl =>
            split
            · next hepoch => exact .fire hphase hready (Nat.lt_of_not_le hbudget) hl hepoch
            · next hepoch =>
              refine .skip hphase hready ?_
              rw [live, hl, any_some, beq_eq_false_iff_ne]
              exact hepoch
    · cases h
  | confirm stored =>
    simp only [step] at h
    split at h
    · next now budget fired item row hphase =>
      obtain ⟨mid, hmid, rfl⟩ := map_eq_some_iff.mp h
      exact .confirm hphase hmid
    · cases h

/-- What becomes of the fired item: it was superseded, the store failed, or the row was advanced or removed. -/
theorem confirmed_cases {stored : Bool} (h : s.confirmed cfg item row stored = some s') :
    (s.live item = false ∧ s' = s) ∨ (s.live item = true ∧
      ((stored = false ∧ s' = s.insertIndex cfg row) ∨
        (stored = true ∧ ∃ next, 0 < row.periodNs ∧ advance row = some next ∧
          s' = insertIndex cfg { s with rows := s.rows.insert next.key next } next) ∨
        (stored = true ∧ ¬ 0 < row.periodNs ∧
          s' = { s with rows := s.rows.erase item.key, byKey := s.byKey.erase item.key }))) := by
  unfold confirmed at h
  split at h
  · next hlive =>
    refine .inr ⟨hlive, ?_⟩
    split at h
    · next hperiod =>
      obtain ⟨next, hnext, heq⟩ := map_eq_some_iff.mp h
      cases stored with
      | false => exact .inl ⟨rfl, heq.symm⟩
      | true => exact .inr (.inl ⟨rfl, next, hperiod, hnext, heq.symm⟩)
    · next honce =>
      cases stored with
      | false => exact .inl ⟨rfl, (some.inj h).symm⟩
      | true => exact .inr (.inr ⟨rfl, honce, (some.inj h).symm⟩)
  · next hstale => exact .inl ⟨Bool.eq_false_iff.mpr hstale, (some.inj h).symm⟩

theorem Fresh.of_eq (h : s.Fresh) (hindex : s'.index = s.index) (hready : ∃ xs, s.ready = xs ++ s'.ready)
    (hcounter : s'.epochCounter = s.epochCounter)
    (hfiring : ∀ {now budget fired item row}, s'.phase = .firing now budget fired item row →
    item.epoch ≤ s.epochCounter) :
    s'.Fresh := by
  obtain ⟨xs, hready⟩ := hready
  have hsub : s'.epochs.Sublist s.epochs := by
    rw [epochs, epochs, hindex, hready, map_append]
    exact (sublist_append_right _ _).append_left _
  refine ⟨h.nodup.sublist hsub, fun e he => ?_, fun hphase => ?_⟩
  · rw [hcounter]
    exact h.bounded e (hsub.subset he)
  · rw [hcounter]
    exact hfiring hphase

theorem Fresh.confirmed {stored : Bool} (h : s.Fresh)
    (hstep : s.confirmed cfg item row stored = some s') : s'.Fresh := by
  rcases confirmed_cases hstep with ⟨-, rfl⟩ | ⟨-, ⟨-, rfl⟩ | ⟨-, next, -, -, rfl⟩ | ⟨-, -, rfl⟩⟩
  · exact h
  · exact h.insertIndex
  · exact Fresh.insertIndex (h.of_eq rfl ⟨[], rfl⟩ rfl h.firing)
  · exact h.of_eq rfl ⟨[], rfl⟩ rfl h.firing

theorem Fresh.step (h : s.Fresh) (hstep : s.step cfg label = some s') : s'.Fresh := by
  cases does_of_step hstep with
  | open_ hidle hrows =>
    refine Fresh.insertAll ⟨nodup_nil, nofun, fun hphase => ?_⟩
    rw [hidle] at hphase
    cases hphase
  | remindAt hcalls => exact h.remindAt
  | cancel hcalls => exact h.of_eq rfl ⟨[], rfl⟩ rfl h.firing
  | tick hidle hperm hsorted =>
    have hepochs := epochs_tick hperm
    exact ⟨hepochs.nodup_iff.mpr h.nodup, fun e he => h.bounded e (hepochs.mem_iff.mp he), nofun⟩
  | finish hphase => exact h.of_eq rfl ⟨[], rfl⟩ rfl nofun
  | skip hdraining hready hstale =>
    refine h.of_eq rfl ⟨[_], hready⟩ rfl fun hphase => ?_
    rw [hdraining] at hphase
    cases hphase
  | fire hdraining hready hbudget hl hepoch =>
    refine h.of_eq rfl ⟨[_], hready⟩ rfl fun hphase => ?_
    cases hphase
    refine h.bounded _ (mem_append_right _ ?_)
    rw [hready]
    exact mem_cons_self
  | confirm hfiring hmid => exact (h.confirmed hmid).of_eq rfl ⟨[], rfl⟩ rfl nofun

theorem fresh_start (rows : Table ReminderKey ReminderRow) : Fresh { rows } :=
  ⟨nodup_nil, nofun, nofun⟩

end

end ReminderService

namespace Reminder

def reminder (actor : UInt64) (due : WallNs) : ReminderRow :=
  { actor := ⟨⟨7⟩, actor⟩, name := [65], scheduledDueNs := due }

def readyItem (actor : UInt64) (epoch : Nat) : ReadyItem :=
  ⟨(reminder actor 0).key, epoch, drainRank (reminder actor 0).key⟩

end Reminder

end Quark
