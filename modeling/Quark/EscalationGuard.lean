import Quark.Lib.Machine
import Quark.Lib.Table
import Quark.Persistence

/-! The escalation-storm guard of `Engine::SupervisorEntry`: how many escalations of one source a supervisor
takes in a window. There is no aggregate cap. Which entry of the hash table comes first is open. -/
namespace Quark.EscalationStorm

open List Machine

structure EscalationGuard where
  ttlNs : Int := 0
  maxPerSource : Nat := 0
  perSourceWindowNs : Int := 0
  deriving DecidableEq, Repr

structure SourceWindow where
  count : Nat := 0
  windowStartNs : Int := 0
  open_ : Bool := false
  deriving DecidableEq, Repr

/-- A window that opened at `start` is over at `now`. -/
def EscalationGuard.over (g : EscalationGuard) (start now : Int) : Bool :=
  decide (0 < g.perSourceWindowNs ∧ g.perSourceWindowNs ≤ now - start)

def kMaxTrackedSources : Nat := 256

structure SupervisorEntry where
  guard : EscalationGuard
  perSource : Table ActorId SourceWindow := ∅

namespace SourceWindow

def roll (g : EscalationGuard) (w : SourceWindow) (now : Int) : SourceWindow :=
  if w.open_ = false ∨ 0 < g.perSourceWindowNs ∧ g.perSourceWindowNs ≤ now - w.windowStartNs then
    { count := 0, windowStartNs := now, open_ := true }
  else w

end SourceWindow

/-- What an escalation becomes: it is dropped, or posted with a deadline. -/
inductive EscalationOutcome
  | shed
  | routed (deadlineNs : Int)
  deriving DecidableEq, Repr

namespace SupervisorEntry

/-- `begin()` of the table, where `first` is its place among the entries. -/
def begin (t : Table ActorId SourceWindow) (first : Nat) : Option ActorId :=
  (t.entries[first % Table.size t]?).map Sigma.fst

/-- `try_emplace` of the source, and the eviction that follows it in a full table. -/
def emplaced (e : SupervisorEntry) (source : ActorId) (first : Nat) : Table ActorId SourceWindow :=
  match e.perSource.lookup source with
  | some _ => e.perSource
  | none =>
    let t := e.perSource.insert source {}
    if kMaxTrackedSources < Table.size t then
      match begin t first with
      | some victim => t.erase victim
      | none => t
    else t

/-- `none` where the entry that is charged has been erased. -/
def admitLocked (e : SupervisorEntry) (source : ActorId) (now : Int) (first : Nat) :
    Option (Bool × SupervisorEntry) :=
  if 0 < e.guard.maxPerSource then
    let t := e.emplaced source first
    match t.lookup source with
    | none => none
    | some w =>
      let w := w.roll e.guard now
      if e.guard.maxPerSource ≤ w.count then some (false, { e with perSource := t.insert source w })
      else some (true, { e with perSource := t.insert source { w with count := w.count + 1 } })
  else some (true, e)

/-- `escalation_sink_thunk`: what the guard sheds is never posted. -/
def sink (e : SupervisorEntry) (source : ActorId) (now : Int) (first : Nat) :
    Option (EscalationOutcome × SupervisorEntry) :=
  (e.admitLocked source now first).map fun r =>
    (if r.1 then .routed (if e.guard.ttlNs ≠ 0 then now + e.guard.ttlNs else 0) else .shed, r.2)

end SupervisorEntry

/-- An escalation that reached the guard. -/
structure Escalation where
  source : ActorId
  time : Int
  /-- when the window of its source opened that it falls into -/
  window : Int
  outcome : EscalationOutcome
  deriving DecidableEq, Repr

def Escalation.admitted (x : Escalation) : Bool := x.outcome != .shed

/-- A supervisor, the escalations so far, and whether the guard has used an entry that is no longer in the table. -/
structure Storm where
  entry : SupervisorEntry
  log : List Escalation := []
  dangling : Bool := false

structure StormLabel where
  source : ActorId
  now : Int
  first : Nat

namespace Storm

variable (s : Storm)

def of (source : ActorId) : List Escalation := s.log.filter fun x => x.source = source

def windowAt (source : ActorId) (now : Int) : Int :=
  match (s.of source).getLast? with
  | none => now
  | some x =>
    if 0 < s.entry.guard.perSourceWindowNs ∧ s.entry.guard.perSourceWindowNs ≤ now - x.window then now else x.window

/-- Nothing is said of what follows a use of an erased entry. -/
def step (s : Storm) (a : StormLabel) : Option Storm :=
  if s.dangling = false ∧ (s.log.all fun x => x.time ≤ a.now) then
    match s.entry.sink a.source a.now a.first with
    | none => some { s with dangling := true }
    | some r => some { s with entry := r.2, log := s.log ++ [⟨a.source, a.now, s.windowAt a.source a.now, r.1⟩] }
  else none

def count (source : ActorId) (window : Int) : Nat :=
  s.log.countP fun x => x.admitted && decide (x.source = source) && decide (x.window = window)

def active (now : Int) (source : ActorId) : Bool :=
  (s.of source).getLast?.any fun x => !s.entry.guard.over x.window now

def crowd (a : StormLabel) : Finset ActorId :=
  insert a.source ((s.log.map Escalation.source).toFinset.filter fun y => s.active a.now y = true)

def Roomy (s : Storm) (a : StormLabel) : Prop := (s.crowd a).card ≤ kMaxTrackedSources

/-- A new source that finds the table full is not the one that is evicted; nor is an active one, as long as the table
could hold all that are active. -/
def Spares (s : Storm) (a : StormLabel) : Prop :=
  s.entry.perSource.lookup a.source = none → kMaxTrackedSources ≤ Table.size s.entry.perSource →
    ∀ victim ∈ SupervisorEntry.begin (s.entry.perSource.insert a.source {}) a.first,
      victim ≠ a.source ∧ (s.Roomy a → s.active a.now victim = false)

instance (a : StormLabel) : Decidable (Roomy s a) := inferInstanceAs (Decidable (_ ≤ _))

instance (a : StormLabel) : Decidable (Spares s a) := by
  unfold Spares
  infer_instance

end Storm

section

variable {g : EscalationGuard} {e : SupervisorEntry} {t : Table ActorId SourceWindow} {s s' : Storm} {a : StormLabel}
  {source y : ActorId} {now : Int} {first : Nat} {w : SourceWindow} {x : Escalation}

namespace SupervisorEntry

theorem begin_some (h : 0 < Table.size t) (first : Nat) : ∃ victim v, begin t first = some victim ∧
    t.lookup victim = some v := by
  obtain ⟨⟨k, v⟩, hentry⟩ : ∃ c, t.entries[first % Table.size t]? = some c :=
    ⟨_, getElem?_eq_getElem (Nat.mod_lt _ h)⟩
  refine ⟨k, v, ?_, Table.mem_entries_iff.mp (mem_of_getElem? hentry)⟩
  rw [begin, hentry]
  rfl

/-- `y` is the entry that goes to make room for the source. -/
def Evicts (e : SupervisorEntry) (source : ActorId) (first : Nat) (y : ActorId) : Prop :=
  e.perSource.lookup source = none ∧ kMaxTrackedSources ≤ Table.size e.perSource ∧
    y ∈ begin (e.perSource.insert source {}) first

/-- The table after `try_emplace`: as many entries as before, or one more, or one other is gone. -/
structure Emplaced (e : SupervisorEntry) (source : ActorId) (first : Nat) (t : Table ActorId SourceWindow) :
    Prop where
  size : Table.size e.perSource ≤ kMaxTrackedSources → Table.size t ≤ kMaxTrackedSources
  own : t.lookup source = some ((e.perSource.lookup source).getD {})
  other : ∀ y, y ≠ source → t.lookup y = e.perSource.lookup y ∨ t.lookup y = none ∧ e.Evicts source first y

theorem emplaced_spec (h : ∀ victim, e.Evicts source first victim → victim ≠ source) :
    Emplaced e source first (e.emplaced source first) := by
  unfold emplaced
  cases hlookup : e.perSource.lookup source with
  | some w =>
    refine ⟨id, ?_, fun _ _ => .inl rfl⟩
    rw [hlookup]
    rfl
  | none =>
    have hsize := Table.size_insert_of_none (v := ({} : SourceWindow)) hlookup
    dsimp only
    split
    · next hfull =>
      obtain ⟨victim, v, hbegin, hvictim⟩ := begin_some (t := e.perSource.insert source {}) (by omega) first
      have hevicts : e.Evicts source first victim := ⟨hlookup, by omega, hbegin⟩
      rw [hbegin]
      have hne := h victim hevicts
      have herase := Table.size_erase_of_some hvictim
      refine ⟨fun hle => by dsimp only; omega, ?_, fun y hy => ?_⟩
      · dsimp only
        rw [AList.lookup_erase_ne hne.symm, AList.lookup_insert, hlookup]
        rfl
      · by_cases hgone : y = victim
        · subst hgone
          exact .inr ⟨AList.lookup_erase _ _, hevicts⟩
        · dsimp only
          rw [AList.lookup_erase_ne hgone, AList.lookup_insert_ne hy]
          exact .inl rfl
    · next hroom =>
      refine ⟨fun _ => by omega, ?_, fun y hy => .inl ?_⟩
      · rw [AList.lookup_insert, hlookup]
        rfl
      · rw [AList.lookup_insert_ne hy]

theorem emplaced_new (hlookup : e.perSource.lookup source = none)
    (hroom : Table.size e.perSource < kMaxTrackedSources) :
    e.emplaced source first = e.perSource.insert source {} := by
  have hsize := Table.size_insert_of_none (v := ({} : SourceWindow)) hlookup
  rw [emplaced, hlookup]
  exact if_neg (by omega)

/-- In a full table, where the new entry comes first, the entry that is charged is the one that was erased. -/
theorem admitLocked_dangles (hcap : 0 < e.guard.maxPerSource) (hlookup : e.perSource.lookup source = none)
    (hfull : Table.size e.perSource = kMaxTrackedSources) (now : Int) : e.admitLocked source now 0 = none := by
  have hsize := Table.size_insert_of_none (v := ({} : SourceWindow)) hlookup
  have hbegin : begin (e.perSource.insert source {}) 0 = some source := by
    rw [begin, Nat.zero_mod, AList.entries_insert_of_notMem (AList.lookup_eq_none.mp hlookup)]
    rfl
  rw [admitLocked, if_pos hcap, emplaced, hlookup]
  dsimp only
  rw [if_pos (by omega), hbegin]
  dsimp only
  rw [AList.lookup_erase]

def window (e : SupervisorEntry) (source : ActorId) (now : Int) : SourceWindow :=
  ((e.perSource.lookup source).getD {}).roll e.guard now

def charged (g : EscalationGuard) (w : SourceWindow) : SourceWindow :=
  if g.maxPerSource ≤ w.count then w else { w with count := w.count + 1 }

theorem admitLocked_eq (now : Int) (hcap : 0 < e.guard.maxPerSource)
    (h : Emplaced e source first (e.emplaced source first)) :
    e.admitLocked source now first = some (decide ((e.window source now).count < e.guard.maxPerSource),
      { e with perSource := (e.emplaced source first).insert source (charged e.guard (e.window source now)) }) := by
  unfold admitLocked charged
  rw [if_pos hcap]
  dsimp only
  rw [h.own]
  dsimp only
  rw [← window]
  split
  · next hfull => rw [decide_eq_false (by omega)]
  · next hroom => rw [decide_eq_true (by omega)]

end SupervisorEntry

namespace Storm

/-- The table knows the last window of a source, unless that is over, and how many were admitted in it. -/
structure Tracked (s : Storm) (source : ActorId) : Prop where
  absent : s.of source = [] → s.entry.perSource.lookup source = none
  last : ∀ x ∈ (s.of source).getLast?,
    (∃ w, s.entry.perSource.lookup source = some w ∧ w.open_ = true ∧ w.windowStartNs = x.window ∧
      w.count = s.count source x.window) ∨
    s.entry.perSource.lookup source = none ∧ ∃ x' ∈ s.log, s.entry.guard.over x.window x'.time = true
  ordered : ∀ x ∈ (s.of source).getLast?, ∀ x' ∈ s.of source, x'.window ≤ x.window

theorem count_eq_zero {a : Int} (h : ∀ x ∈ s.of source, x.window ≠ a) : s.count source a = 0 := by
  rw [count, countP_eq_zero]
  intro x hx
  simp only [Bool.and_eq_true, decide_eq_true_eq, not_and]
  intro hsource
  exact h x (mem_filter.mpr ⟨hx, decide_eq_true hsource.2⟩)

theorem Tracked.window (h : Tracked s source) (htimes : ∀ x ∈ s.log, x.time ≤ now) :
    (s.entry.window source now).open_ = true ∧ (s.entry.window source now).windowStartNs = s.windowAt source now ∧
    (s.entry.window source now).count = s.count source (s.windowAt source now) ∧
    ∀ x ∈ s.of source, x.window ≤ s.windowAt source now := by
  have hnone (hbefore : ∀ x ∈ s.of source, x.window < now) : s.count source now = 0 :=
    count_eq_zero fun x hx => ne_of_lt (hbefore x hx)
  unfold SupervisorEntry.window windowAt SourceWindow.roll
  cases hlast : (s.of source).getLast? with
  | none =>
    have hnil := getLast?_eq_none_iff.mp hlast
    rw [h.absent hnil]
    exact ⟨rfl, rfl, (hnone (by simp [hnil])).symm, by simp [hnil]⟩
  | some x =>
    have hordered := h.ordered x hlast
    have hbefore (hlate : x.window < now) : ∀ x' ∈ s.of source, x'.window < now :=
      fun x' hx' => lt_of_le_of_lt (hordered x' hx') hlate
    obtain ⟨w, hw, hopen, hstart, hcount⟩ | ⟨hgone, x', hx', hover⟩ := h.last x hlast
    · rw [hw, Option.getD_some, hopen, hstart]
      dsimp only
      by_cases hover : 0 < s.entry.guard.perSourceWindowNs ∧ s.entry.guard.perSourceWindowNs ≤ now - x.window
      · rw [if_pos (.inr hover), if_pos hover]
        have hearlier := hbefore (by omega)
        exact ⟨rfl, rfl, (hnone hearlier).symm, fun x' hx' => le_of_lt (hearlier x' hx')⟩
      · rw [if_neg (by simpa using hover), if_neg hover]
        exact ⟨hopen, hstart, hcount, hordered⟩
    · have htime := htimes x' hx'
      simp only [EscalationGuard.over, decide_eq_true_eq] at hover
      have hearlier := hbefore (by omega)
      rw [hgone]
      dsimp only
      rw [if_pos (show 0 < s.entry.guard.perSourceWindowNs ∧
        s.entry.guard.perSourceWindowNs ≤ now - x.window by omega)]
      exact ⟨rfl, rfl, (hnone hearlier).symm, fun x' hx' => le_of_lt (hearlier x' hx')⟩

theorem of_concat (s : Storm) (e : SupervisorEntry) (x : Escalation) (source : ActorId) :
    of { s with entry := e, log := s.log ++ [x] } source = s.of source ++ if x.source = source then [x] else [] := by
  rw [of, filter_append, of]
  by_cases hsource : x.source = source
  · simp [hsource]
  · simp [hsource]

theorem count_concat (s : Storm) (e : SupervisorEntry) (x : Escalation) (source : ActorId) (a : Int) :
    count { s with entry := e, log := s.log ++ [x] } source a =
      s.count source a + if x.admitted = true ∧ x.source = source ∧ x.window = a then 1 else 0 := by
  rw [count, countP_append, countP_singleton, count]
  simp only [Bool.and_eq_true, decide_eq_true_eq, and_assoc]

/-- What a step does where the guard does not evict the source that it charges. -/
structure Charges (g : EscalationGuard) (s : Storm) (a : StormLabel) (e : SupervisorEntry)
    (x : Escalation) : Prop where
  live : s.dangling = false
  times : ∀ x' ∈ s.log, x'.time ≤ a.now
  emplaced : SupervisorEntry.Emplaced s.entry a.source a.first (s.entry.emplaced a.source a.first)
  guard : e.guard = g
  table : e.perSource = (s.entry.emplaced a.source a.first).insert a.source
    (SupervisorEntry.charged g (s.entry.window a.source a.now))
  source : x.source = a.source
  time : x.time = a.now
  window : x.window = s.windowAt a.source a.now
  admitted : x.admitted = decide ((s.entry.window a.source a.now).count < g.maxPerSource)

theorem Spares.keeps (h : s.Spares a) : ∀ victim, s.entry.Evicts a.source a.first victim → victim ≠ a.source :=
  fun victim ⟨hlookup, hfull, hbegin⟩ => (h hlookup hfull victim hbegin).1

theorem step_charges (hguard : s.entry.guard = g) (hcap : 0 < g.maxPerSource) (hok : s.Spares a)
    (hstep : s.step a = some s') : ∃ e x, Charges g s a e x ∧ s' = { s with entry := e, log := s.log ++ [x] } := by
  have hemplaced := SupervisorEntry.emplaced_spec hok.keeps
  unfold Storm.step SupervisorEntry.sink at hstep
  split at hstep
  · next hready =>
    rw [SupervisorEntry.admitLocked_eq a.now (by rw [hguard]; exact hcap) hemplaced, hguard] at hstep
    dsimp only [Option.map_some] at hstep
    refine ⟨_, _, ⟨hready.1, fun x hx => ?_, hemplaced, rfl, rfl, rfl, rfl, rfl, ?_⟩, (Option.some.inj hstep).symm⟩
    · exact of_decide_eq_true (all_eq_true.mp hready.2 x hx)
    · rw [Escalation.admitted]
      by_cases hroom : (s.entry.window a.source a.now).count < g.maxPerSource
      · rw [decide_eq_true hroom]
        rfl
      · rw [decide_eq_false hroom]
        rfl
  · cases hstep

/-- What holds after every escalation, where the guard has not evicted the source that it was charging. -/
structure Kept (g : EscalationGuard) (s : Storm) : Prop where
  guard : s.entry.guard = g
  size : Table.size s.entry.perSource ≤ kMaxTrackedSources
  live : s.dangling = false
  tracked : ∀ x ∈ s.log.getLast?, (s.entry.perSource.lookup x.source).isSome = true

theorem Kept.step (h : Kept g s) (hcap : 0 < g.maxPerSource) (hok : s.Spares a) (hstep : s.step a = some s') :
    Kept g s' := by
  obtain ⟨e, x, hcharges, rfl⟩ := step_charges h.guard hcap hok hstep
  refine ⟨hcharges.guard, ?_, h.live, fun x' hx' => ?_⟩
  · rw [hcharges.table, Table.size_insert_of_some hcharges.emplaced.own]
    exact hcharges.emplaced.size h.size
  · rw [getLast?_concat] at hx'
    cases hx'
    rw [hcharges.source, hcharges.table, AList.lookup_insert]
    rfl

theorem Tracked.charged (h : Tracked s a.source) (hcharges : Charges g s a e x) :
    Tracked { s with entry := e, log := s.log ++ [x] } a.source := by
  obtain ⟨hopen, hstart, hcount, hordered⟩ := h.window hcharges.times
  have hof := of_concat s e x a.source
  rw [if_pos hcharges.source] at hof
  refine ⟨fun hnil => ?_, fun x' hx' => .inl ?_, fun x' hx' x'' hx'' => ?_⟩
  · rw [hof] at hnil
    exact absurd hnil (append_ne_nil_of_right_ne_nil _ (cons_ne_nil _ _))
  · rw [hof, getLast?_concat] at hx'
    cases hx'
    refine ⟨_, by rw [hcharges.table, AList.lookup_insert], ?_⟩
    rw [count_concat, hcharges.admitted, hcharges.window, ← hcount]
    unfold SupervisorEntry.charged
    split
    · next hfull => exact ⟨hopen, hstart, by simp [not_lt.mpr hfull]⟩
    · next hroom => exact ⟨hopen, hstart, by simp [not_le.mp hroom, hcharges.source]⟩
  · rw [hof, getLast?_concat] at hx'
    cases hx'
    rw [hof, mem_append, mem_singleton] at hx''
    rw [hcharges.window]
    obtain hx'' | rfl := hx''
    · exact hordered x'' hx''
    · rw [hcharges.window]

theorem Tracked.beside (h : Tracked s y) (hcharges : Charges g s a e x) (hguard : s.entry.guard = g)
    (hy : y ≠ a.source) (hevicted : s.entry.Evicts a.source a.first y → s.active a.now y = false) :
    Tracked { s with entry := e, log := s.log ++ [x] } y := by
  have hof := of_concat s e x y
  rw [if_neg (by rw [hcharges.source]; exact hy.symm), append_nil] at hof
  have hlookup : e.perSource.lookup y = (s.entry.emplaced a.source a.first).lookup y := by
    rw [hcharges.table, AList.lookup_insert_ne hy]
  refine ⟨fun hnil => ?_, fun x' hx' => ?_, fun x' hx' x'' hx'' => ?_⟩
  · rw [hof] at hnil
    obtain hsame | ⟨hgone, -⟩ := hcharges.emplaced.other y hy
    · exact hlookup.trans (hsame.trans (h.absent hnil))
    · exact hlookup.trans hgone
  · rw [hof] at hx'
    rw [hlookup, hcharges.guard]
    obtain hsame | ⟨hgone, hevicts⟩ := hcharges.emplaced.other y hy
    · rw [hsame]
      refine (h.last x' hx').imp (fun ⟨w, hw, hopen, hstart, hcount⟩ => ⟨w, hw, hopen, hstart, ?_⟩)
        fun ⟨hnone, x'', hx'', hover⟩ => ⟨hnone, x'', mem_append_left _ hx'', by rw [← hguard]; exact hover⟩
      rw [count_concat, hcount, if_neg (fun hall => hy (hall.2.1.symm.trans hcharges.source)), Nat.add_zero]
    · refine .inr ⟨hgone, x, mem_concat_self, ?_⟩
      have hover := hevicted hevicts
      rw [active, hx', Option.any_some, Bool.not_eq_false', hguard] at hover
      rw [hcharges.time]
      exact hover
  · rw [hof] at hx' hx''
    exact h.ordered x' hx' x'' hx''

/-- What holds as long as the table can hold all sources that are active. -/
structure Held (g : EscalationGuard) (s : Storm) : Prop where
  guard : s.entry.guard = g
  exact : ∀ source, Tracked s source
  capped : ∀ source window, s.count source window ≤ g.maxPerSource

theorem Held.step (h : Held g s) (hcap : 0 < g.maxPerSource) (hok : s.Spares a) (hroom : s.Roomy a)
    (hstep : s.step a = some s') : Held g s' := by
  obtain ⟨e, x, hcharges, rfl⟩ := step_charges h.guard hcap hok hstep
  refine ⟨hcharges.guard, fun y => ?_, fun y window => ?_⟩
  · by_cases hy : y = a.source
    · rw [hy]
      exact (h.exact a.source).charged hcharges
    · exact (h.exact y).beside hcharges h.guard hy fun ⟨hlookup, hfull, hbegin⟩ =>
        (hok hlookup hfull y hbegin).2 hroom
  · have hle := h.capped y window
    rw [count_concat]
    split
    · next hall =>
      obtain ⟨hadmitted, rfl, rfl⟩ := hall
      rw [hcharges.admitted, decide_eq_true_eq] at hadmitted
      obtain ⟨-, -, hcount, -⟩ := (h.exact a.source).window hcharges.times
      rw [hcharges.source, hcharges.window, ← hcount]
      omega
    · omega

theorem Held.start (g : EscalationGuard) : Held g { entry := { guard := g } } :=
  ⟨rfl, fun _ => ⟨fun _ => rfl, by simp [of], by simp [of]⟩, fun _ _ => Nat.zero_le _⟩

/-- Where no escalation finds the guard evicting its own source, or an active one while the table could hold
all that are active: the table is bounded, only entries of the table are used, the last source is in the
table, and every source is held to its cap as long as the table can hold all that are active. -/
theorem guard_holds (hcap : 0 < g.maxPerSource) (h : Reach Storm.step Storm.Spares { entry := { guard := g } } s) :
    Table.size s.entry.perSource ≤ kMaxTrackedSources ∧ s.dangling = false ∧
      (∀ x ∈ s.log.getLast?, (s.entry.perSource.lookup x.source).isSome = true) ∧
      (Reach Storm.step (fun s a => s.Spares a ∧ s.Roomy a) { entry := { guard := g } } s →
        ∀ source window, s.count source window ≤ g.maxPerSource) := by
  have hkept : Kept g s := h.invariant ⟨rfl, Nat.zero_le _, rfl, by simp⟩
    fun _ _ _ hinv hok hstep => hinv.step hcap hok hstep
  refine ⟨hkept.size, hkept.live, hkept.tracked, fun hroomy => ?_⟩
  have hheld : Held g s := hroomy.invariant (Held.start g) fun _ _ _ hinv hok hstep =>
    hinv.step hcap hok.1 hok.2 hstep
  exact hheld.capped

end Storm

end

section

def oneEachSecond : Storm := { entry := { guard := { maxPerSource := 1, perSourceWindowNs := 1000000000 } } }

def twoSources : List StormLabel := [⟨⟨⟨1⟩, 1⟩, 0, 0⟩, ⟨⟨⟨1⟩, 1⟩, 5, 0⟩, ⟨⟨⟨1⟩, 2⟩, 5, 0⟩]

/-- The second one of the first source is dropped. -/
theorem guard_holds_two_sources : ∃ s : Storm, s.log.map Escalation.admitted = [true, false, true] ∧
    s.dangling = false ∧ s.count ⟨⟨1⟩, 1⟩ 0 ≤ 1 := by
  obtain ⟨s, hrun, hroomy, hlog⟩ :
    ∃ s, Machine.run (guarded Storm.step Storm.Spares) oneEachSecond twoSources = some s ∧
      Machine.run (guarded Storm.step fun s a => s.Spares a ∧ s.Roomy a) oneEachSecond twoSources = some s ∧
      s.log.map Escalation.admitted = [true, false, true] := ⟨_, rfl, rfl, by decide +kernel⟩
  obtain ⟨-, hlive, -, hcapped⟩ := Storm.guard_holds (by decide) (reach_of_run hrun)
  exact ⟨s, hlog, hlive, hcapped (reach_of_run hroomy) _ _⟩

def nthSource (n : Nat) : ActorId := ⟨⟨1⟩, UInt64.ofNat n⟩

/-- One escalation of each of `n` sources, where a new entry comes first in the table. -/
def eachSource (n : Nat) : List StormLabel := (List.range n).map fun k => ⟨nthSource k, 0, 0⟩

theorem nthSource_ne {n k : Nat} (hk : k < n) (hn : n ≤ kMaxTrackedSources) : nthSource n ≠ nthSource k := by
  intro heq
  have hkey := congrArg (fun id : ActorId => id.key.toNat) heq
  simp only [nthSource, UInt64.toNat_ofNat'] at hkey
  unfold kMaxTrackedSources at hn
  omega

theorem nthSource_new {n : Nat} {t : Table ActorId SourceWindow} (hn : n ≤ kMaxTrackedSources)
    (h : ∀ y v, t.lookup y = some v → ∃ k, k < n ∧ y = nthSource k) : t.lookup (nthSource n) = none := by
  cases hv : t.lookup (nthSource n) with
  | none => rfl
  | some v =>
    obtain ⟨k, hk, heq⟩ := h _ v hv
    exact absurd heq (nthSource_ne hk hn)

theorem run_eachSource {n : Nat} (hn : n ≤ kMaxTrackedSources) : ∃ s, Machine.run Storm.step oneEachSecond
    (eachSource n) = some s ∧
    s.dangling = false ∧ s.entry.guard = oneEachSecond.entry.guard ∧ (s.log.all fun x => x.time ≤ 0) = true ∧
      Table.size s.entry.perSource = n ∧ ∀ y v, s.entry.perSource.lookup y = some v → ∃ k, k < n ∧
      y = nthSource k := by
  induction n with
  | zero => exact ⟨_, rfl, rfl, rfl, rfl, rfl, nofun⟩
  | succ n ih =>
    obtain ⟨s, hrun, hlive, hguard, htimes, hsize, hknown⟩ := ih (Nat.le_of_succ_le hn)
    have hlookup := nthSource_new (Nat.le_of_succ_le hn) hknown
    have hroom : Table.size s.entry.perSource < kMaxTrackedSources := by omega
    have hemplaced : SupervisorEntry.Emplaced s.entry (nthSource n) 0 (s.entry.emplaced (nthSource n) 0) :=
      SupervisorEntry.emplaced_spec fun _ hevicts => absurd hroom (not_lt.mpr hevicts.2.1)
    have hadmit := SupervisorEntry.admitLocked_eq 0 (by rw [hguard]; decide) hemplaced
    have hstep : ∃ s', s.step ⟨nthSource n, 0, 0⟩ = some s' ∧ s'.dangling = false ∧ s'.entry.guard = s.entry.guard ∧
        s'.entry.perSource = (s.entry.emplaced (nthSource n) 0).insert (nthSource n)
          (SupervisorEntry.charged s.entry.guard (s.entry.window (nthSource n) 0)) ∧
          (s'.log.all fun x => x.time ≤ 0) = true := by
      rw [Storm.step, if_pos ⟨hlive, htimes⟩, SupervisorEntry.sink, hadmit]
      refine ⟨_, rfl, hlive, rfl, rfl, ?_⟩
      rw [all_append, htimes]
      rfl
    obtain ⟨s', hstep, hlive', hguard', hper, htimes'⟩ := hstep
    refine ⟨s', ?_, hlive', hguard'.trans hguard, htimes', ?_, fun y v hv => ?_⟩
    · rw [eachSource, range_succ, map_append]
      exact run_append.mpr ⟨s, hrun, run_cons.mpr ⟨s', hstep, rfl⟩⟩
    · rw [hper, Table.size_insert_of_some hemplaced.own, SupervisorEntry.emplaced_new hlookup hroom,
        Table.size_insert_of_none hlookup, hsize]
    · by_cases hy : y = nthSource n
      · exact ⟨n, Nat.lt_succ_self n, hy⟩
      · rw [hper, AList.lookup_insert_ne hy] at hv
        rw [SupervisorEntry.emplaced_new hlookup hroom, AList.lookup_insert_ne hy] at hv
        obtain ⟨k, hk, heq⟩ := hknown y v hv
        exact ⟨k, Nat.lt_succ_of_lt hk, heq⟩

/-- The escalation of one source more uses an entry that is no longer there. -/
theorem new_source_dangles : ∃ s, Machine.run Storm.step oneEachSecond
    (eachSource (kMaxTrackedSources + 1)) = some s ∧ s.dangling = true := by
  obtain ⟨s, hrun, hlive, hguard, htimes, hsize, hknown⟩ := run_eachSource (Nat.le_refl kMaxTrackedSources)
  have hlookup := nthSource_new le_rfl hknown
  have hstep : s.step ⟨nthSource kMaxTrackedSources, 0, 0⟩ = some { s with dangling := true } := by
    rw [Storm.step, if_pos ⟨hlive, htimes⟩, SupervisorEntry.sink,
      SupervisorEntry.admitLocked_dangles (by rw [hguard]; decide) hlookup hsize]
    rfl
  refine ⟨{ s with dangling := true }, ?_, rfl⟩
  rw [eachSource, range_succ, map_append]
  exact run_append.mpr ⟨s, hrun, run_cons.mpr ⟨_, hstep, rfl⟩⟩

end

end Quark.EscalationStorm
