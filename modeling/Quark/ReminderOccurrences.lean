import Mathlib.Data.List.Chain
import Quark.ReminderService

/-! When reminders fire: no occurrence before it is due, and those of a periodic one a period apart. -/
namespace Quark.Reminder

open Function List Option ReminderService AList

/-- An occurrence that fired, with the period of its row. -/
structure Fired where
  event : FireEvent
  periodNs : Int64
  confirmed : Bool := false
  deriving DecidableEq, Repr

/-- The service, and for each key what its present registration fired, the last one first. -/
structure Occurrences where
  service : ReminderService
  fired : ReminderKey → List Fired := fun _ => []

def Phase.now : Phase → Option WallNs
  | .idle => none
  | .draining now _ _ => some now
  | .firing now _ _ _ _ => some now

def confirmLast : List Fired → List Fired
  | [] => []
  | f :: fs => { f with confirmed := true } :: fs

/-- The occurrence after `f`: one period on, or the same one where the confirmation of `f` failed. -/
def Fired.Follows (f : Fired) (due : WallNs) (periodNs : Int64) : Prop :=
  periodNs = f.periodNs ∧ (0 < f.periodNs →
    due.toInt = f.event.scheduledDueNs.toInt + if f.confirmed then f.periodNs.toInt else 0)

namespace Occurrences

def step (cfg : ReminderConfig) (w : Occurrences) (label : Label) : Option Occurrences :=
  (w.service.step cfg label).map fun s =>
    match label with
    | .remindAt row true => { service := s, fired := update w.fired row.key [] }
    | .drain =>
      match s.phase with
      | .firing now _ _ item row =>
        { service := s
          fired := update w.fired item.key
            (⟨fireEvent now item row, row.periodNs, false⟩ :: w.fired item.key) }
      | _ => { w with service := s }
    | .confirm true =>
      match w.service.phase with
      | .firing _ _ _ item _ =>
        if w.service.live item then
          { service := s, fired := update w.fired item.key (confirmLast (w.fired item.key)) }
        else { w with service := s }
      | _ => { w with service := s }
    | _ => { w with service := s }

/-- The live occurrences that wait are due by `now`. -/
def DueBy (s : ReminderService) (items : List ReadyItem) (now : WallNs) : Prop :=
  ∀ x ∈ items, ∀ l ∈ s.byKey.lookup x.key, l.epoch = x.epoch → l.row.scheduledDueNs ≤ now

/-- A tick comes after the due instants of all that it pulls and of all that waits. -/
def OnTime (cfg : ReminderConfig) (w : Occurrences) : Label → Prop
  | .tick now _ => DueBy w.service (w.service.ready ++ w.service.due cfg now) now
  | _ => True

/-- The row in memory is the one in the store. -/
structure Kept (s : ReminderService) : Prop where
  keyed : ∀ {k r}, s.rows.lookup k = some r → r.key = k
  durable : ∀ {k l}, s.byKey.lookup k = some l → s.rows.lookup k = some l.row

/-- What fired for a key, and the row that the store holds for it. -/
structure Spaced (w : Occurrences) : Prop where
  fresh : w.service.Fresh
  kept : Kept w.service
  next : ∀ {k r}, w.service.rows.lookup k = some r → ∀ f ∈ (w.fired k).head?, f.Follows r.scheduledDueNs r.periodNs
  chain : ∀ k, (w.fired k).IsChain fun later f => f.Follows later.event.scheduledDueNs later.periodNs
  firing : ∀ {now budget fired item row}, w.service.phase = .firing now budget fired item row → ∀ {l},
    w.service.byKey.lookup item.key = some l → l.epoch = item.epoch → l.row = row ∧
      ∀ f ∈ (w.fired item.key).head?, f.event.scheduledDueNs = row.scheduledDueNs ∧ f.periodNs = row.periodNs

structure Punctual (w : Occurrences) : Prop where
  fresh : w.service.Fresh
  due : ∀ now ∈ w.service.phase.now, DueBy w.service w.service.ready now
  fired : ∀ k, ∀ f ∈ w.fired k, f.event.scheduledDueNs ≤ f.event.firedAtNs

section

variable {cfg : ReminderConfig} {w w' : Occurrences} {s s' : ReminderService} {label : Label} {item : ReadyItem}
variable {row : ReminderRow} {rows : List ReminderRow} {k : ReminderKey} {now : WallNs}

theorem Kept.insertIndex (h : Kept s) (hrow : s.rows.lookup row.key = some row) : Kept (s.insertIndex cfg row) where
  keyed := h.keyed
  durable {k l} hl := by
    unfold ReminderService.insertIndex at hl
    by_cases hkey : k = row.key
    · rw [hkey, AList.lookup_insert] at hl
      cases hl
      rw [hkey]
      exact hrow
    · rw [lookup_insert_ne hkey] at hl
      exact h.durable hl

theorem Kept.put (h : Kept s) :
    Kept (ReminderService.insertIndex cfg { s with rows := s.rows.insert row.key row } row) where
  keyed {k r} hr := by
    change (s.rows.insert row.key row).lookup k = some r at hr
    by_cases hkey : k = row.key
    · rw [hkey, AList.lookup_insert] at hr
      cases hr
      exact hkey.symm
    · rw [lookup_insert_ne hkey] at hr
      exact h.keyed hr
  durable {k l} hl := by
    unfold ReminderService.insertIndex at hl ⊢
    by_cases hkey : k = row.key
    · rw [hkey, AList.lookup_insert] at hl
      cases hl
      rw [hkey, lookup_insert]
    · rw [lookup_insert_ne hkey] at hl ⊢
      exact h.durable hl

theorem Kept.insertAll (h : Kept s) (hrows : ∀ row ∈ rows, s.rows.lookup row.key = some row) :
    Kept (rows.foldl (ReminderService.insertIndex cfg) s) := by
  induction rows generalizing s with
  | nil => exact h
  | cons row rows ih =>
    exact ih (h.insertIndex (hrows row mem_cons_self)) fun r hr => hrows r (mem_cons_of_mem _ hr)

theorem Kept.erase (h : Kept s) (hrows : s'.rows = s.rows ∨ s'.rows = s.rows.erase k)
    (hkey : s'.byKey = s.byKey.erase k) : Kept s' where
  keyed {k' r} hr := by
    rcases hrows with hrows | hrows
    · rw [hrows] at hr
      exact h.keyed hr
    · rw [hrows] at hr
      exact h.keyed (Table.lookup_of_erase hr)
  durable {k' l} hl := by
    rw [hkey] at hl
    have hne : k' ≠ k := fun heq => by
      rw [heq, lookup_erase] at hl
      cases hl
    rcases hrows with hrows | hrows
    · rw [hrows]
      exact h.durable (Table.lookup_of_erase hl)
    · rw [hrows, lookup_erase_ne hne]
      exact h.durable (Table.lookup_of_erase hl)

theorem DueBy.sub {items items' : List ReadyItem} (h : DueBy s items now) (hsub : items' ⊆ items)
    (hlive : ∀ x ∈ items', ∀ {l}, s'.byKey.lookup x.key = some l → l.epoch = x.epoch →
    s.byKey.lookup x.key = some l) :
    DueBy s' items' now := fun x hx _ hl hepoch => h x (hsub hx) _ (hlive x hx hl hepoch) hepoch

/-- The registrations of `s'` that wait or fire are those of `s`. -/
def Older (s s' : ReminderService) : Prop :=
  ∀ x : ReadyItem, x.epoch ≤ s.epochCounter → ∀ {l}, s'.byKey.lookup x.key = some l → l.epoch = x.epoch →
    s.byKey.lookup x.key = some l

theorem older_remindAt {stored : Bool} : Older s (s.remindAt cfg row stored) := by
  intro x hx l hl hepoch
  unfold remindAt at hl
  split at hl
  · exact @ReminderService.holds_insertIndex cfg { s with rows := _ } row x l hx hl hepoch
  · exact hl

theorem older_erase (hkey : s'.byKey = s.byKey.erase k) : Older s s' := by
  intro x _ l hl _
  rw [hkey] at hl
  exact Table.lookup_of_erase hl

theorem older_confirmed {stored : Bool} (h : s.confirmed cfg item row stored = some s') :
    Older s s' ∧ s'.ready = s.ready := by
  rcases confirmed_cases h with ⟨-, rfl⟩ | ⟨-, ⟨-, rfl⟩ | ⟨-, next, -, -, rfl⟩ | ⟨-, -, rfl⟩⟩
  · exact ⟨fun x _ l hl _ => hl, rfl⟩
  · exact ⟨fun x hx l hl hepoch => holds_insertIndex hx hl hepoch, rfl⟩
  · exact ⟨fun x hx l hl hepoch => @ReminderService.holds_insertIndex cfg { s with rows := _ } next x l
      hx hl hepoch, rfl⟩
  · exact ⟨older_erase rfl, rfl⟩

theorem punctual_update {fired : ReminderKey → List Fired} {fs : List Fired}
    (h : ∀ k, ∀ f ∈ fired k, f.event.scheduledDueNs ≤ f.event.firedAtNs)
    (hfs : ∀ f ∈ fs, f.event.scheduledDueNs ≤ f.event.firedAtNs) :
    ∀ k', ∀ f ∈ update fired k fs k', f.event.scheduledDueNs ≤ f.event.firedAtNs :=
  (Function.forall_update_iff fired fun _ fs => ∀ f ∈ fs, f.event.scheduledDueNs ≤ f.event.firedAtNs).mpr
    ⟨hfs, fun k _ => h k⟩

theorem mem_confirmLast {f : Fired} {fs : List Fired} (h : f ∈ confirmLast fs) : ∃ g ∈ fs, f.event = g.event := by
  cases fs with
  | nil => cases h
  | cons g fs =>
    rcases mem_cons.mp h with rfl | hin
    · exact ⟨g, mem_cons_self, rfl⟩
    · exact ⟨f, mem_cons_of_mem _ hin, rfl⟩

/-- A step that pulls nothing: what waits and drains at `now` was due by then already. -/
theorem Punctual.kept (h : Punctual w) (hfresh : s'.Fresh) (hphase : ∀ now ∈ s'.phase.now, now ∈ w.service.phase.now)
    (hready : s'.ready ⊆ w.service.ready) (holder : Older w.service s') ⦃fired : ReminderKey → List Fired⦄
    (hfired : ∀ k, ∀ f ∈ fired k, f.event.scheduledDueNs ≤ f.event.firedAtNs) :
    Punctual { service := s', fired } :=
  ⟨hfresh, fun now hnow => (h.due now (hphase now hnow)).sub hready fun x hx =>
    holder x (h.fresh.bounded _ (mem_append_right _ (mem_map_of_mem (hready hx)))), hfired⟩

theorem Punctual.step (h : Punctual w) (hok : OnTime cfg w label) (hstep : w.step cfg label = some w') :
    Punctual w' := by
  obtain ⟨s', hs', rfl⟩ := map_eq_some_iff.mp hstep
  have hfresh := h.fresh.step hs'
  cases does_of_step hs' with
  | @open_ rows hidle hrows =>
    obtain ⟨-, -, -, -, hphase⟩ :=
      @ReminderService.insertAll_frame cfg { w.service with index := [], byKey := ∅, ready := [] } (rows.getD [])
    refine ⟨hfresh, fun now hnow => ?_, h.fired⟩
    rw [open_, hphase, hidle] at hnow
    cases hnow
  | @remindAt row stored hcalls =>
    obtain ⟨hready, -, -, hphase⟩ := remindAt_frame
    have hkept := h.kept hfresh (fun now hnow => by rwa [hphase] at hnow)
      (by rw [hready]; exact List.Subset.refl _) older_remindAt
    cases stored with
    | false => exact hkept h.fired
    | true => exact hkept (punctual_update h.fired nofun)
  | cancel hcalls => exact h.kept hfresh (fun now hnow => hnow) (List.Subset.refl _) (older_erase rfl) h.fired
  | @tick now sorted ready hidle hperm hsorted =>
    refine ⟨hfresh, fun at_ hat => ?_, h.fired⟩
    cases hat
    exact hok.sub (fun x hx => hperm.subset hx) fun x hx l hl hepoch => hl
  | finish hphase => exact h.kept hfresh nofun (List.Subset.refl _) (fun x _ l hl _ => hl) h.fired
  | skip hphase hready hstale =>
    simp only [hphase] at hfresh ⊢
    exact h.kept hfresh (fun now hnow => by rw [hphase]; exact hnow)
      (by rw [hready]; exact subset_cons_self _ _) (fun x _ l hl _ => hl) h.fired
  | @fire now budget fired item ready l hphase hready hbudget hl hepoch =>
    have hdue : l.row.scheduledDueNs ≤ now :=
      h.due now (by rw [hphase]; rfl) item (by rw [hready]; exact mem_cons_self) l hl hepoch
    refine h.kept hfresh (fun now hnow => by rw [hphase]; exact hnow)
      (by rw [hready]; exact subset_cons_self _ _) (fun x _ l hl _ => hl)
      (punctual_update h.fired fun f hf => ?_)
    rcases mem_cons.mp hf with rfl | hf
    · exact hdue
    · exact h.fired _ f hf
  | @confirm now budget fired item row stored mid hphase hmid =>
    obtain ⟨holder, hready⟩ := older_confirmed hmid
    have hkept := h.kept hfresh (fun now hnow => by rw [hphase]; exact hnow)
      (by rw [hready]; exact List.Subset.refl _) holder
    cases stored with
    | false => exact hkept h.fired
    | true =>
      simp only [hphase]
      split
      · refine hkept (punctual_update h.fired fun f hf => ?_)
        obtain ⟨g, hg, heq⟩ := mem_confirmLast hf
        rw [heq]
        exact h.fired _ g hg
      · exact hkept h.fired

theorem Spaced.frame (h : Spaced w) (hfresh : s'.Fresh) (hkept : Kept s')
    (hrows : ∀ {k r}, s'.rows.lookup k = some r → w.service.rows.lookup k = some r)
    (hphase : ∀ {now budget fired item row}, s'.phase = .firing now budget fired item row →
      w.service.phase = .firing now budget fired item row ∧ Older w.service s') :
      Spaced { w with service := s' } where
  fresh := hfresh
  kept := hkept
  next hr := h.next (hrows hr)
  chain := h.chain
  firing hfiring _ hl hepoch :=
    have ⟨hbefore, holder⟩ := hphase hfiring
    h.firing hbefore (holder _ (h.fresh.firing hbefore) hl hepoch) hepoch

theorem head_confirmLast {f : Fired} {fs : List Fired} (h : f ∈ (confirmLast fs).head?) :
    ∃ g ∈ fs.head?, f = { g with confirmed := true } := by
  cases fs with
  | nil => cases h
  | cons g fs =>
    cases h
    exact ⟨g, rfl, rfl⟩

theorem chain_confirmLast {fs : List Fired}
    (h : fs.IsChain fun later f => f.Follows later.event.scheduledDueNs later.periodNs) :
    (confirmLast fs).IsChain fun later f => f.Follows later.event.scheduledDueNs later.periodNs := by
  cases fs with
  | nil => exact .nil
  | cons f fs => exact isChain_cons.mpr (isChain_cons.mp h)

theorem advance_eq {next : ReminderRow} (h : advance row = some next) : next.key = row.key ∧
    next.periodNs = row.periodNs ∧ next.scheduledDueNs.toInt = row.scheduledDueNs.toInt + row.periodNs.toInt := by
  unfold advance at h
  dsimp only at h
  split at h
  · next hrange =>
    cases h
    exact ⟨rfl, rfl, Int64.toInt_ofInt_of_le hrange.1 hrange.2⟩
  · cases h

/-- The occurrence in the callback, where it was not superseded, is that of the row in the store. -/
theorem Spaced.live (h : Spaced w) {budget fired : Nat} (hphase : w.service.phase = .firing now budget fired item row)
    (hlive : w.service.live item = true) : w.service.rows.lookup item.key = some row ∧ row.key = item.key ∧
      ∀ f ∈ (w.fired item.key).head?, f.event.scheduledDueNs = row.scheduledDueNs ∧ f.periodNs = row.periodNs := by
  obtain ⟨l, hl, hepoch⟩ := live_iff.mp hlive
  obtain ⟨rfl, hlast⟩ := h.firing hphase hl hepoch
  have hrow := h.kept.durable hl
  exact ⟨hrow, h.kept.keyed hrow, hlast⟩

theorem Spaced.chain_update (h : Spaced w) {key : ReminderKey} {fs : List Fired}
    (hfs : fs.IsChain fun later f => f.Follows later.event.scheduledDueNs later.periodNs) (k : ReminderKey) :
    (update w.fired key fs k).IsChain fun later f => f.Follows later.event.scheduledDueNs later.periodNs := by
  by_cases hk : k = key
  · rw [hk, update_self]
    exact hfs
  · rw [update_of_ne hk]
    exact h.chain k

/-- The fire callback returned and the store took the row of the next occurrence. -/
theorem Spaced.advanced (h : Spaced w) {budget fired : Nat} {next : ReminderRow}
    (hphase : w.service.phase = .firing now budget fired item row) (hlive : w.service.live item = true)
    (hnext : advance row = some next)
    (hs : s' = insertIndex cfg { w.service with rows := w.service.rows.insert next.key next } next)
    {tokens : ℚ} {phase : Phase} (hfresh : Fresh { s' with tokens, phase })
    (hdrain : ∀ {now budget fired item row}, phase ≠ .firing now budget fired item row) :
    Spaced { service := { s' with tokens, phase }
             fired := update w.fired item.key (confirmLast (w.fired item.key)) } := by
  obtain ⟨hrow, hkey, hlast⟩ := h.live hphase hlive
  obtain ⟨hnextKey, hperiod, hdue⟩ := advance_eq hnext
  have hput := @Kept.put cfg w.service next h.kept
  rw [← hs] at hput
  refine ⟨hfresh, ⟨hput.keyed, hput.durable⟩,
    fun {k r} hr f hf => ?_, fun k => ?_, fun hfiring => absurd hfiring hdrain⟩
  · rw [hs] at hr
    change (w.service.rows.insert next.key next).lookup k = some r at hr
    dsimp only at hf
    by_cases hk : k = item.key
    · rw [hk, update_self] at hf
      obtain ⟨g, hg, rfl⟩ := head_confirmLast hf
      rw [hk, ← hkey, ← hnextKey, lookup_insert] at hr
      cases hr
      obtain ⟨hgdue, hgperiod⟩ := hlast g hg
      refine ⟨hperiod.trans hgperiod.symm, fun _ => ?_⟩
      rw [if_pos rfl, hdue, hgdue, hgperiod]
    · rw [update_of_ne hk] at hf
      rw [lookup_insert_ne (by rwa [hnextKey, hkey])] at hr
      exact h.next hr f hf
  · exact h.chain_update (chain_confirmLast (h.chain _)) k

theorem Spaced.removed (h : Spaced w)
    (hs : s' = { w.service with rows := w.service.rows.erase item.key, byKey := w.service.byKey.erase item.key })
    {tokens : ℚ} {phase : Phase} (hfresh : Fresh { s' with tokens, phase })
    (hdrain : ∀ {now budget fired item row}, phase ≠ .firing now budget fired item row) :
    Spaced { service := { s' with tokens, phase }
             fired := update w.fired item.key (confirmLast (w.fired item.key)) } := by
  subst hs
  refine ⟨hfresh, h.kept.erase (.inr rfl) rfl,
    fun {k r} hr f hf => ?_, fun k => ?_, fun hfiring => absurd hfiring hdrain⟩
  · change (w.service.rows.erase item.key).lookup k = some r at hr
    dsimp only at hf
    by_cases hk : k = item.key
    · rw [hk, lookup_erase] at hr
      cases hr
    · rw [update_of_ne hk] at hf
      exact h.next (Table.lookup_of_erase hr) f hf
  · exact h.chain_update (chain_confirmLast (h.chain _)) k

theorem Spaced.fire (h : Spaced w) {l : Live} {ready : List ReadyItem} {phase : Phase} {budget fired : Nat}
    (hl : w.service.byKey.lookup item.key = some l) (hphase : phase = .firing now budget fired item l.row)
    (hfresh : Fresh { w.service with ready, phase }) :
    Spaced { service := { w.service with ready, phase }
             fired := update w.fired item.key
               (⟨fireEvent now item l.row, l.row.periodNs, false⟩ :: w.fired item.key) } := by
  refine ⟨hfresh, ⟨h.kept.keyed, h.kept.durable⟩, fun {k r} hr f hf => ?_, fun k => ?_, fun hfiring l' hl' _ => ?_⟩
  · dsimp only at hr hf
    by_cases hk : k = item.key
    · rw [hk, update_self] at hf
      cases hf
      rw [hk, h.kept.durable hl] at hr
      cases hr
      exact ⟨rfl, fun _ => (Int.add_zero _).symm⟩
    · rw [update_of_ne hk] at hf
      exact h.next hr f hf
  · exact h.chain_update ((h.chain _).cons fun f hf => h.next (h.kept.durable hl) f hf) k
  · dsimp only at hfiring hl' ⊢
    rw [hphase] at hfiring
    cases hfiring
    rw [hl] at hl'
    cases hl'
    refine ⟨rfl, fun f hf => ?_⟩
    rw [update_self] at hf
    cases hf
    exact ⟨rfl, rfl⟩

theorem Spaced.register (h : Spaced w) (hfresh : (w.service.remindAt cfg row true).Fresh) :
    Spaced { service := w.service.remindAt cfg row true, fired := update w.fired row.key [] } := by
  refine ⟨hfresh, h.kept.put, fun {k r} hr f hf => ?_, fun k => ?_, fun {_ _ _ item _} hfiring l hl hepoch => ?_⟩
  · change (w.service.rows.insert row.key row).lookup k = some r at hr
    dsimp only at hf
    by_cases hk : k = row.key
    · rw [hk, update_self] at hf
      cases hf
    · rw [update_of_ne hk] at hf
      rw [lookup_insert_ne hk] at hr
      exact h.next hr f hf
  · exact h.chain_update .nil k
  · have hphase := (@ReminderService.remindAt_frame cfg w.service row true).2.2.2
    dsimp only at hfiring
    rw [hphase] at hfiring
    obtain ⟨hrow, hlast⟩ := h.firing hfiring (older_remindAt _ (h.fresh.firing hfiring) hl hepoch) hepoch
    refine ⟨hrow, fun f hf => ?_⟩
    dsimp only at hf
    by_cases hk : item.key = row.key
    · rw [hk, update_self] at hf
      cases hf
    · rw [update_of_ne hk] at hf
      exact hlast f hf

theorem Spaced.step (h : Spaced w) (hstep : w.step cfg label = some w') : Spaced w' := by
  obtain ⟨s', hs', rfl⟩ := map_eq_some_iff.mp hstep
  have hfresh := h.fresh.step hs'
  cases does_of_step hs' with
  | @open_ rows hidle hrows =>
    obtain ⟨hrowsKept, -, -, -, hphase⟩ :=
      @ReminderService.insertAll_frame cfg { w.service with index := [], byKey := ∅, ready := [] } (rows.getD [])
    have hkept : Kept (w.service.open_ cfg rows) := by
      refine Kept.insertAll ⟨h.kept.keyed, nofun⟩ fun row hrow => ?_
      obtain ⟨rs, hrs⟩ : ∃ rs, rows = some rs := by
        cases rows with
        | none => cases hrow
        | some rs => exact ⟨rs, rfl⟩
      rw [hrs] at hrow
      obtain ⟨⟨k, r⟩, hin, rfl⟩ := mem_map.mp ((hrows rs (by rw [hrs]; rfl)).subset hrow)
      have hr := Table.mem_entries_iff.mp hin
      rwa [h.kept.keyed hr]
    refine h.frame hfresh hkept (fun hr => ?_) fun hfiring => ?_
    · rwa [open_, hrowsKept] at hr
    · rw [open_, hphase, hidle] at hfiring
      cases hfiring
  | @remindAt row stored hcalls =>
    cases stored with
    | false => exact h
    | true => exact h.register hfresh
  | @cancel actor name stored hcalls =>
    refine h.frame hfresh (h.kept.erase (k := ⟨actor, reminderNameHash name⟩) ?_ rfl) (fun hr => ?_)
      fun hfiring => ⟨hfiring, older_erase rfl⟩
    · cases stored with
      | false => exact .inl rfl
      | true => exact .inr rfl
    · cases stored with
      | false => exact hr
      | true => exact Table.lookup_of_erase hr
  | tick hidle hperm hsorted | finish hphase =>
    exact h.frame hfresh ⟨h.kept.keyed, h.kept.durable⟩ (fun hr => hr) nofun
  | skip hphase hready hstale =>
    simp only [hphase] at hfresh ⊢
    exact h.frame hfresh ⟨h.kept.keyed, h.kept.durable⟩ (fun hr => hr) nofun
  | fire hphase hready hbudget hl hepoch => exact h.fire hl rfl hfresh
  | @confirm now budget fired item row stored mid hphase hmid =>
    rcases confirmed_cases hmid with ⟨hstale, rfl⟩ | ⟨hlive, ⟨rfl, rfl⟩ | ⟨rfl, next, -, hnext, hs⟩ | ⟨rfl, -, hs⟩⟩
    · have hsame : Spaced { w with service := { w.service with
          tokens := if cfg.fireRate = 0 then w.service.tokens else w.service.tokens - 1
          phase := .draining now budget (fired + 1) } } :=
        h.frame hfresh ⟨h.kept.keyed, h.kept.durable⟩ (fun hr => hr) nofun
      cases stored with
      | false => exact hsame
      | true =>
        simp only [hphase, hstale]
        exact hsame
    · obtain ⟨hrow, hkey, -⟩ := h.live hphase hlive
      have hkept := @Kept.insertIndex cfg _ _ h.kept (hkey ▸ hrow)
      exact h.frame hfresh ⟨hkept.keyed, hkept.durable⟩ (fun hr => hr) nofun
    · simp only [hphase, hlive, if_true]
      exact h.advanced hphase hlive hnext hs hfresh nofun
    · simp only [hphase, hlive, if_true]
      exact h.removed hs hfresh nofun

end

/-- In every run whose ticks come after what is due at them no occurrence fires before it is due; in every run
those that one registration of a key fired follow one another by a period, or repeat where the confirmation
failed. -/
theorem fires_when_due {cfg : ReminderConfig} {rows : Table ReminderKey ReminderRow} {w : Occurrences}
    (hrows : ∀ {k r}, rows.lookup k = some r → r.key = k) (k : ReminderKey) :
    (Machine.Reach (step cfg) (OnTime cfg) { service := { rows } } w →
      ∀ f ∈ w.fired k, f.event.scheduledDueNs ≤ f.event.firedAtNs) ∧
    (Machine.Reachable (step cfg) { service := { rows } } w →
      (w.fired k).IsChain fun later f => f.Follows later.event.scheduledDueNs later.periodNs) := by
  refine ⟨fun hreach => ?_, fun hreach => ?_⟩
  · have hpunctual : Punctual w := hreach.invariant ⟨fresh_start rows, nofun, nofun⟩
      fun w label w' h hok hstep => h.step hok hstep
    exact hpunctual.fired k
  · have hspaced : Spaced w := hreach.invariant ⟨fresh_start rows, ⟨hrows, nofun⟩, nofun, fun k => .nil, nofun⟩
      fun w label w' h hstep => h.step hstep
    exact hspaced.chain k

instance (s : ReminderService) (items : List ReadyItem) (now : WallNs) : Decidable (DueBy s items now) :=
  inferInstanceAs (Decidable (∀ x ∈ items, ∀ l ∈ s.byKey.lookup x.key, _ → _))

instance (cfg : ReminderConfig) (w : Occurrences) (label : Label) : Decidable (OnTime cfg w label) :=
  match label with
  | .tick now _ => inferInstanceAs (Decidable (DueBy w.service (w.service.ready ++ w.service.due cfg now) now))
  | .open_ _ | .remindAt _ _ | .cancel _ _ _ | .drain | .confirm _ => inferInstanceAs (Decidable True)

def everySecond : ReminderRow := { reminder 1 1000000000 with periodNs := 1000000000 }

def everySecondLate : ReminderRow := { reminder 1 1900000000 with periodNs := 1000000000 }

theorem fires_when_due_retried :
    (∃ w, Machine.run (Machine.guarded (step {}) (OnTime {})) { service := {} }
        [.remindAt everySecond true, .tick 1000000000 [readyItem 1 1], .drain, .confirm false, .drain,
          .tick 2000000000 [readyItem 1 2], .drain, .confirm true, .drain, .tick 3000000000 [readyItem 1 3], .drain] =
        some w ∧
      (w.fired everySecond.key).map (fun f => (f.event.scheduledDueNs, f.event.firedAtNs, f.confirmed)) =
        [(2000000000, 3000000000, false), (1000000000, 2000000000, true), (1000000000, 1000000000, false)] ∧
      ∀ f ∈ w.fired everySecond.key, f.event.scheduledDueNs ≤ f.event.firedAtNs) ∧
    ∃ w, Machine.run (step {}) { service := {} } [.remindAt everySecondLate true,
      .tick 1000000000 [readyItem 1 1], .drain,
        .confirm true, .drain, .tick 2000000000 [readyItem 1 2], .drain] = some w ∧
      (w.fired everySecondLate.key).map (fun f => (f.event.scheduledDueNs, f.event.firedAtNs, f.confirmed)) =
        [(2900000000, 2000000000, false), (1900000000, 1000000000, true)] ∧
      (w.fired everySecondLate.key).IsChain fun later f => f.Follows later.event.scheduledDueNs later.periodNs := by
  constructor
  · obtain ⟨w, hw, hfired⟩ := map_eq_some_iff.mp (show (Machine.run (Machine.guarded (step {}) (OnTime {}))
      { service := {} } [.remindAt everySecond true, .tick 1000000000 [readyItem 1 1], .drain, .confirm false, .drain,
        .tick 2000000000 [readyItem 1 2], .drain, .confirm true, .drain,
        .tick 3000000000 [readyItem 1 3], .drain]).map
          (fun w => (w.fired everySecond.key).map (fun f => (f.event.scheduledDueNs, f.event.firedAtNs,
          f.confirmed))) =
        some [(2000000000, 3000000000, false), (1000000000, 2000000000, true), (1000000000, 1000000000, false)] by
      decide +kernel)
    exact ⟨w, hw, hfired, (fires_when_due (fun hr => by cases hr) _).1 (Machine.reach_of_run hw)⟩
  · obtain ⟨w, hw, hfired⟩ := map_eq_some_iff.mp (show (Machine.run (step {}) { service := {} }
      [.remindAt everySecondLate true, .tick 1000000000 [readyItem 1 1], .drain, .confirm true, .drain,
        .tick 2000000000 [readyItem 1 2], .drain]).map
          (fun w => (w.fired everySecondLate.key).map (fun f => (f.event.scheduledDueNs, f.event.firedAtNs,
          f.confirmed))) = some [(2900000000, 2000000000, false), (1900000000, 1000000000, true)] by
      decide +kernel)
    exact ⟨w, hw, hfired, (fires_when_due (fun hr => by cases hr) _).2 (Machine.reachable_of_run hw)⟩

/-- The tick at the first second pulls the bucket of a reminder that is due 900 ms later. -/
theorem fires_early_in_bucket : ∃ w, Machine.run (step {}) { service := {} }
      [.remindAt (reminder 1 1900000000) true, .tick 1000000000 [readyItem 1 1], .drain] = some w ∧
    ∃ f ∈ w.fired (reminder 1 1900000000).key, f.event.firedAtNs < f.event.scheduledDueNs := by
  obtain ⟨w, hw, hfired⟩ := map_eq_some_iff.mp (show (Machine.run (step {}) { service := {} }
    [.remindAt (reminder 1 1900000000) true, .tick 1000000000 [readyItem 1 1], .drain]).map
      (fun w => decide (∃ f ∈ w.fired (reminder 1 1900000000).key, f.event.firedAtNs < f.event.scheduledDueNs)) =
        some true by decide +kernel)
  exact ⟨w, hw, of_decide_eq_true hfired⟩

end Occurrences

end Quark.Reminder
