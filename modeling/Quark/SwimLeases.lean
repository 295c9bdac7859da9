import Quark.SwimBooks

/-! The suspension leases of a `SwimMembership`: who holds one, how many there are, when they end, and that a
lease that lapsed is not renewed, in the runs in which every lease that lapses leaves its mark. -/
namespace Quark.Swim

open Machine Function List Option SwimMembership

variable {cfg : Config} {env : Env} {may : Act → Prop} {s : SwimMembership} {n n' : Node}
  {label : Label} {l l' : Ledger}
variable {id node : NodeId} {t : Task} {rest : List Task} {inc : UInt64} {held : Lease} {o : Option Record}
  {cur : Record} {now : Int}

section Holders

def Ledger.Leased (l : Ledger) : Prop :=
  ∀ id held, l.lease id = some held → ∃ r, l.entry id = some r ∧ r.status = .alive ∧ r.verified = true

namespace Ledger.Leased

theorem sure (hl : l.Leased) (hcur : l.entry id = some cur) :
    l.lease id = none ∨ cur.status = .alive ∧ cur.verified = true := by
  cases hlease : l.lease id with
  | none => exact .inl rfl
  | some held =>
    obtain ⟨r, hr, hstatus, hverified⟩ := hl id held hlease
    rw [hcur] at hr
    cases hr
    exact .inr ⟨hstatus, hverified⟩

theorem set (hl : l.Leased) (h : l.lease id = none ∨ ∃ r, o = some r ∧ r.status = .alive ∧ r.verified = true) :
    (l.set id o).Leased := by
  intro id' held hheld
  by_cases hid : id' = id
  · obtain hnone | ⟨r, ho, hr⟩ := h
    · rw [← hid, show l.lease id' = some held from hheld] at hnone
      cases hnone
    · exact ⟨r, by rw [hid, ← ho]; exact update_self .., hr⟩
  · obtain ⟨r, hr, hrest⟩ := hl id' held hheld
    exact ⟨r, (update_of_ne hid ..).trans hr, hrest⟩

theorem touch {r : Record} (hl : l.Leased) (hcur : l.entry id = some cur) (hstatus : r.status = cur.status)
    (hverified : r.verified = cur.verified) : (l.set id (some r)).Leased :=
  hl.set ((hl.sure hcur).imp_right fun h => ⟨r, rfl, hstatus.trans h.1, hverified.trans h.2⟩)

theorem fewer {lease : NodeId → Option Lease} (hl : l.Leased)
    (h : ∀ id held, lease id = some held → l.lease id = some held) :
    ({ l with lease } : Ledger).Leased := fun id held hheld => hl id held (h id held hheld)

end Ledger.Leased

theorem lease_of_free (h : update l.lease node none id = some held) : l.lease id = some held := by
  by_cases hid : id = node
  · rw [hid, update_self] at h
    cases h
  · rwa [update_of_ne hid] at h

theorem lease_of_expire (h : (l.lease id).filter (fun h => !decide (h.until_ ≤ now)) = some held) :
    l.lease id = some held := (filter_eq_some_iff.mp h).1

theorem Edit.leased (hplain : cfg.testFaults = {}) (h : Edit cfg may l l') (hl : l.Leased)
    (hown : l.lease l.me = none)
    (hdoubt : ∀ id, may (.doubt id) → l.lease id = none) : l'.Leased := by
  cases h with
  | refute _ _ _ => exact hl.set (.inl hown)
  | adopt _ _ _ => exact hl.set (.inl hown)
  | rejoin _ => exact hl.set (.inl hown)
  | depart _ _ => exact hl.set (.inl hown)
  | @alter id cur r _ hcur hverified _ _ _ hfree =>
    have hkept : l.lease id = none ∨ ∃ r', some r = some r' ∧ r'.status = .alive ∧ r'.verified = true := by
      obtain hnone | ⟨halive, hsure⟩ := hl.sure hcur
      · exact .inl hnone
      · obtain hstatus | hwas | hnone | hmay := hfree hplain
        · exact .inr ⟨r, rfl, hstatus, hverified hsure⟩
        · exact absurd halive hwas
        · exact .inl hnone
        · exact .inl (hdoubt id hmay)
    exact hl.set hkept
  | evict _ hcur htomb =>
    refine hl.set ((hl.sure hcur).imp_right fun h => ?_)
    rw [Record.tomb, h.1] at htomb
    cases htomb
  | drop _ hcur hsilent _ _ =>
    refine hl.set ((hl.sure hcur).imp_right fun h => ?_)
    rw [hsilent] at h
    cases h.2
  | spend hcur _ => exact hl.touch hcur rfl rfl
  | refresh _ _ => exact hl
  | turn _ => exact hl
  | @lease node cur given _ hcur hstatus hverified _ _ _ =>
    intro id held hheld
    by_cases hid : id = node
    · rw [hid]
      exact ⟨cur, hcur, hstatus, hverified⟩
    · exact hl id held ((update_of_ne hid ..).symm.trans hheld)
  | free => exact hl.fewer fun _ _ => lease_of_free
  | expire _ => exact hl.fewer fun _ _ => lease_of_expire
  | lapse hcur _ _ => exact hl.touch hcur rfl rfl

theorem Edit.lease_from (h : Edit cfg may l l') (hheld : l'.lease id = some held) :
    l.lease id = some held ∨ ∃ inc, may (.lease id inc held) := by
  cases h with
  | @lease node cur given _ _ _ _ _ _ hmay =>
    by_cases hid : id = node
    · rw [hid, show (l.setLease node (some given)).lease node = some given from update_self ..] at hheld
      cases hheld
      exact .inr ⟨cur.incarnation, by rw [hid]; exact hmay⟩
    · exact .inl ((update_of_ne hid ..).symm.trans hheld)
  | free => exact .inl (lease_of_free hheld)
  | expire _ => exact .inl (lease_of_expire hheld)
  | _ => exact .inl hheld

theorem Effect.lease_from (h : Effect cfg may l l') (hheld : l'.lease id = some held) :
    l.lease id = some held ∨ ∃ inc, may (.lease id inc held) := by
  refine h.keeps (I := fun l' => l'.lease id = some held → l.lease id = some held ∨ ∃ inc, may (.lease id inc held))
    (fun l₁ hb hheld => ?_) (fun l₁ l₂ hI he hheld => ?_) hheld
  · rw [hb.lease.1] at hheld
    exact .inl hheld
  · exact (he.lease_from hheld).elim hI .inr

theorem Effect.leased (hplain : cfg.testFaults = {}) (h : Effect cfg may l l') (hl : l.Leased)
    (hown : l.lease l.me = none)
    (hdoubt : ∀ id, may (.doubt id) → l.lease id = none) (hgrant : ∀ id id' inc held, may (.doubt id) →
    ¬ may (.lease id' inc held)) : l'.Leased := by
  have hkept : l'.Leased ∧ l'.lease l'.me = none ∧ ∀ id, may (.doubt id) → l'.lease id = none := by
    refine h.keeps (I := fun l => l.Leased ∧ l.lease l.me = none ∧ ∀ id, may (.doubt id) → l.lease id = none)
      (fun l₁ hb => ?_) fun l₁ l₂ hI he => ⟨he.leased hplain hI.1 hI.2.1 hI.2.2, he.unleased hI.2.1, fun id hid => ?_⟩
    · cases hb with
      | same => exact ⟨hl, hown, hdoubt⟩
      | @create node r hother hnew _ _ _ =>
        have hfree : l.lease node = none := by
          cases hlease : l.lease node with
          | none => rfl
          | some held =>
            obtain ⟨r, hr, -⟩ := hl node held hlease
            rw [hnew] at hr
            cases hr
        exact ⟨hl.set (.inl hfree), hown, hdoubt⟩
    · cases hlease : l₂.lease id with
      | none => rfl
      | some held =>
        obtain hwas | ⟨inc, hmay⟩ := he.lease_from hlease
        · rw [hI.2.2 id hid] at hwas
          cases hwas
        · exact absurd hmay (hgrant id id inc held hid)
  exact hkept.1

end Holders

section Number

def Ledger.leases (l : Ledger) : Nat := Census.census (fun h : Option Lease => h.isSome = true) l.lease

theorem Edit.leases_le (h : Edit cfg may l l') (hl : l.leases ≤ cfg.mobile.maxSuspended) :
    l'.leases ≤ cfg.mobile.maxSuspended := by
  cases h with
  | @lease node cur given _ _ _ _ hroom _ _ =>
    have hgiven := Census.census_update (fun h : Option Lease => h.isSome = true) l.lease node (some given)
    change Census.census _ (update l.lease node (some given)) ≤ _
    by_cases hwas : (l.lease node).isSome = true
    · rw [Census.census_same (by simp [hwas])]
      exact hl
    · have hfew := hroom.resolve_left fun h => hwas (isSome_iff_ne_none.mpr h)
      rw [if_neg hwas, isSome_some, if_pos rfl] at hgiven
      omega
  | free => exact (Census.census_mono fun id h => by
    obtain ⟨held, hheld⟩ := isSome_iff_exists.mp h
    exact isSome_iff_exists.mpr ⟨held, lease_of_free hheld⟩).trans hl
  | expire _ => exact (Census.census_mono fun id h => by
    obtain ⟨held, hheld⟩ := isSome_iff_exists.mp h
    exact isSome_iff_exists.mpr ⟨held, lease_of_expire hheld⟩).trans hl
  | _ => exact hl

theorem Effect.leases_le (h : Effect cfg may l l') (hl : l.leases ≤ cfg.mobile.maxSuspended) :
    l'.leases ≤ cfg.mobile.maxSuspended := by
  refine h.keeps (I := fun l => l.leases ≤ cfg.mobile.maxSuspended) (fun l₁ hb => ?_) fun _ _ hl he => he.leases_le hl
  rw [Ledger.leases, hb.lease.1]
  exact hl

end Number

section Lapses

/-- A lease at `inc` lapsed and left its mark: another lease is at a higher incarnation. -/
def Ledger.Barred (l : Ledger) (id : NodeId) (inc : UInt64) : Prop :=
  (∀ r, l.entry id = some r → r.lapsed ≠ 0 ∧ inc ≤ r.lapsed ∧ r.lapsed ≤ r.incarnation) ∧
    ∀ held, l.lease id = some held → inc < held.incarnation

/-- A lease at `inc` lapsed, and the mark is still to be made. -/
def Ledger.Pending (l : Ledger) (id : NodeId) (inc : UInt64) : Prop :=
  (∃ r, l.entry id = some r ∧ r.tomb = false ∧ r.incarnation ≠ 0 ∧ inc ≤ r.incarnation) ∧ l.lease id = none

namespace Ledger.Barred

theorem set (hb : l.Barred id inc)
    (h : id = node → ∀ r, o = some r → r.lapsed ≠ 0 ∧ inc ≤ r.lapsed ∧ r.lapsed ≤ r.incarnation) :
    (l.set node o).Barred id inc := by
  refine ⟨fun r hr => ?_, hb.2⟩
  by_cases hid : id = node
  · rw [hid, show (l.set node o).entry node = o from update_self ..] at hr
    exact h hid r hr
  · exact hb.1 r ((update_of_ne hid ..).symm.trans hr)

theorem other (hb : l.Barred id inc) (hid : id ≠ node) : (l.set node o).Barred id inc := hb.set fun h => absurd h hid

theorem gone (hb : l.Barred id inc) : (l.set node none).Barred id inc := hb.set nofun

theorem kept {r : Record} (hb : l.Barred id inc) (hcur : l.entry node = some cur) (hlapsed : r.lapsed = cur.lapsed)
    (hinc : cur.incarnation ≤ r.incarnation) : (l.set node (some r)).Barred id inc := by
  refine hb.set fun hid r' hr' => ?_
  cases hr'
  obtain ⟨hmarked, hle, hold⟩ := hb.1 cur (by rw [hid]; exact hcur)
  rw [hlapsed]
  exact ⟨hmarked, hle, UInt64.le_trans hold hinc⟩

theorem fewer {lease : NodeId → Option Lease} (hb : l.Barred id inc)
    (h : ∀ held, lease id = some held → l.lease id = some held) : ({ l with lease } : Ledger).Barred id inc :=
  ⟨hb.1, fun held hheld => hb.2 held (h held hheld)⟩

end Ledger.Barred

theorem Edit.barred (h : Edit cfg may l l') (hb : l.Barred id inc) (hother : id ≠ l.me) : l'.Barred id inc := by
  cases h with
  | refute _ _ _ => exact hb.other hother
  | adopt _ _ _ => exact hb.other hother
  | rejoin _ => exact hb.other hother
  | depart _ _ => exact hb.other hother
  | alter _ hcur _ hinc hlapsed _ _ => exact hb.kept hcur hlapsed hinc
  | evict _ _ _ => exact hb.gone
  | drop _ _ _ _ _ => exact hb.gone
  | spend hcur _ => exact hb.kept hcur rfl (UInt64.le_refl _)
  | refresh _ _ => exact ⟨hb.1, hb.2⟩
  | turn _ => exact ⟨hb.1, hb.2⟩
  | @lease node cur given _ hcur _ _ _ hlapsed _ =>
    refine ⟨hb.1, fun held hheld => ?_⟩
    by_cases hid : id = node
    · rw [hid, show (l.setLease node (some given)).lease node = some given from update_self ..] at hheld
      cases hheld
      obtain ⟨hmarked, hle, -⟩ := hb.1 cur (by rw [hid]; exact hcur)
      exact UInt64.lt_of_le_of_lt hle (hlapsed.resolve_left hmarked)
    · exact hb.2 held ((update_of_ne hid ..).symm.trans hheld)
  | free => exact hb.fewer fun _ => lease_of_free
  | expire _ => exact hb.fewer fun _ => lease_of_expire
  | @lapse node cur hcur _ _ =>
    refine hb.set fun hid r hr => ?_
    cases hr
    obtain ⟨hmarked, hle, hold⟩ := hb.1 cur (by rw [hid]; exact hcur)
    refine ⟨fun hzero => hmarked ?_, UInt64.le_trans hle hold, UInt64.le_refl _⟩
    exact UInt64.le_antisymm (hzero ▸ hold) (UInt64.zero_le)

theorem Effect.barred (h : Effect cfg may l l') (hb : l.Barred id inc) (hother : id ≠ l.me)
    (hknown : l.entry id ≠ none) : l'.Barred id inc := by
  refine (h.keeps (I := fun l => l.Barred id inc ∧ id ≠ l.me) (fun l₁ hbegin => ?_) fun l₁ l₂ hI he =>
    ⟨he.barred hI.1 hI.2, by rw [he.me]; exact hI.2⟩).1
  cases hbegin with
  | same => exact ⟨hb, hother⟩
  | create _ hnew _ _ _ => exact ⟨hb.other fun hid => hknown (by rw [hid]; exact hnew), hother⟩

/-- What a task may not do while a lapsed lease is to be marked. -/
structure Lenient (may : Act → Prop) (id : NodeId) : Prop where
  bury : ¬ may .bury
  drop : ∀ tx, ¬ may (.drop tx)
  lease : ∀ inc held, ¬ may (.lease id inc held)

namespace Ledger.Pending

theorem other (hp : l.Pending id inc) (hid : id ≠ node) : (l.set node o).Pending id inc := by
  obtain ⟨r, hr, hlive⟩ := hp.1
  exact ⟨⟨r, (update_of_ne hid ..).trans hr, hlive⟩, hp.2⟩

theorem kept {r : Record} (hp : l.Pending id inc) (hcur : l.entry node = some cur)
    (hlive : cur.tomb = false → r.tomb = false)
    (hinc : cur.incarnation ≤ r.incarnation) : (l.set node (some r)).Pending id inc := by
  by_cases hid : id = node
  · obtain ⟨r', hr', hwas, hsome, hle⟩ := hp.1
    rw [hid, hcur] at hr'
    cases hr'
    refine ⟨⟨r, by rw [hid]; exact update_self .., hlive hwas, fun hzero => hsome ?_, UInt64.le_trans hle hinc⟩, hp.2⟩
    exact UInt64.le_antisymm (hzero ▸ hinc) UInt64.zero_le
  · exact hp.other hid

end Ledger.Pending

theorem Edit.pending (h : Edit cfg may l l') (hp : l.Pending id inc) (hother : id ≠ l.me)
    (hlenient : Lenient may id) : l'.Pending id inc := by
  cases h with
  | refute _ _ _ => exact hp.other hother
  | adopt _ _ _ => exact hp.other hother
  | rejoin _ => exact hp.other hother
  | depart _ _ => exact hp.other hother
  | @alter node cur r _ hcur _ hinc _ htomb _ =>
    refine hp.kept hcur (fun hlive => ?_) hinc
    cases hdead : r.tomb with
    | false => rfl
    | true => exact absurd ((htomb hdead).resolve_left (by rw [hlive]; nofun)) hlenient.bury
  | @evict node cur _ hcur htomb =>
    refine hp.other fun hid => ?_
    obtain ⟨r, hr, hlive, -⟩ := hp.1
    rw [hid, hcur] at hr
    cases hr
    rw [hlive] at htomb
    cases htomb
  | drop _ _ _ _ hmay => exact absurd hmay (hlenient.drop _)
  | spend hcur _ => exact hp.kept hcur (fun hlive => hlive) (UInt64.le_refl _)
  | refresh _ _ => exact ⟨hp.1, hp.2⟩
  | turn _ => exact ⟨hp.1, hp.2⟩
  | @lease node cur given _ _ _ _ _ _ hmay =>
    refine ⟨hp.1, (update_of_ne (fun hid => ?_) ..).trans hp.2⟩
    rw [← hid] at hmay
    exact hlenient.lease _ _ hmay
  | @free node =>
    refine ⟨hp.1, ?_⟩
    cases hlease : (l.setLease node none).lease id with
    | none => rfl
    | some held => exact absurd (lease_of_free hlease) (by rw [hp.2]; nofun)
  | expire _ => exact ⟨hp.1, (congrArg (Option.filter _) hp.2).trans rfl⟩
  | lapse hcur _ _ => exact hp.kept hcur (fun hlive => hlive) (UInt64.le_refl _)

theorem Effect.pending (h : Effect cfg may l l') (hp : l.Pending id inc) (hother : id ≠ l.me)
    (hlenient : Lenient may id) : l'.Pending id inc := by
  refine (h.keeps (I := fun l => l.Pending id inc ∧ id ≠ l.me) (fun l₁ hbegin => ?_) fun l₁ l₂ hI he =>
    ⟨he.pending hI.1 hI.2 hlenient, by rw [he.me]; exact hI.2⟩).1
  cases hbegin with
  | same => exact ⟨hp, hother⟩
  | create _ hnew _ _ _ =>
    refine ⟨hp.other fun hid => ?_, hother⟩
    obtain ⟨r, hr, -⟩ := hp.1
    rw [hid, hnew] at hr
    cases hr

theorem lapseLease_barred (hother : id ≠ s.self_) (hp : s.ledger.Pending id inc) :
    (s.lapseLease cfg id now).ledger.Barred id inc := by
  obtain ⟨r, hr, hlive, hsome, hle⟩ := hp.1
  obtain ⟨m, hm, rfl⟩ := entry_ledger hr
  generalize hs₁ : s.put id { m with leaseExpiredInc := m.incarnation } = s₁
  have hmarked : s₁.ledger = s.ledger.alter id m.record { m.record with lapsed := m.record.incarnation } := by
    rw [← hs₁]
    exact ledger_mark
  have hbarred : s₁.ledger.Barred id inc := by
    rw [hmarked]
    refine ⟨fun r hr => ?_, fun held hheld => ?_⟩
    · cases (update_self ..).symm.trans hr
      exact ⟨hsome, hle, UInt64.le_refl _⟩
    · cases hp.2.symm.trans hheld
  have heffect : Effect cfg (fun _ => True) s₁.ledger
      (s₁.applyUpdate cfg id m.incarnation .suspect .here now).ledger :=
    (applyUpdate_capped ⟨fun _ _ => trivial, fun _ => trivial, fun _ _ _ => trivial⟩).settles
  unfold lapseLease
  rw [hm]
  dsimp only
  rw [if_neg (by rw [show m.status.isTomb = false from hlive]; nofun), hs₁]
  refine heffect.barred hbarred ?_ ?_
  · rw [hmarked]
    exact hother
  · rw [hmarked]
    exact fun hnone => by cases (update_self ..).symm.trans hnone

end Lapses

section Queue

def Task.accused : Task → Option NodeId
  | .lapseLease id _ => some id
  | .apply node _ .suspect .here _ => some node
  | _ => none

theorem Task.accused_of_outward (h : t.inward = false) : t.accused = none := by
  cases t with
  | lapseLease id now => cases h
  | apply node inc st src now => cases st <;> cases src <;> first | rfl | cases h
  | _ => rfl

theorem Task.May.accused (h : t.May cfg s (.doubt id)) : t.accused = some id := by
  cases h <;> rfl

theorem Task.accused_cases (h : t.accused = some id) :
    (∃ now, t = .lapseLease id now) ∨ ∃ inc now, t = .apply id inc .suspect .here now := by
  unfold Task.accused at h
  split at h <;> cases h
  · exact .inl ⟨_, rfl⟩
  · exact .inr ⟨_, _, rfl⟩

theorem Task.accused_lenient (h : t.accused = some node) : Lenient (t.May cfg s) id := by
  obtain ⟨now, rfl⟩ | ⟨inc, now, rfl⟩ := Task.accused_cases h
  · exact ⟨nofun, nofun, nofun⟩
  · refine ⟨fun hmay => ?_, nofun, nofun⟩
    cases hmay with
    | bury htomb => cases htomb

theorem exec_accused (h : t.accused = some id) : (s.exec cfg env t).todo = [] ∧ Node.callable [t] = false := by
  obtain ⟨now, rfl⟩ | ⟨inc, now, rfl⟩ := Task.accused_cases h <;> exact ⟨rfl, rfl⟩

/-- The accusations come first, and accuse only who has no lease. -/
def Node.Doubting (n : Node) : Prop :=
  ∃ first rest, n.todo = first ++ rest ∧ (∀ t ∈ first, ∃ id, t.accused = some id ∧ n.swim.ledger.lease id = none) ∧
    ∀ t ∈ rest, t.accused = none

namespace Node.Doubting

theorem next (h : n.Doubting) (htodo : n.todo = t :: rest) :
    (∃ id, t.accused = some id ∧ n.swim.ledger.lease id = none) ∨ ∀ u ∈ n.todo, u.accused = none := by
  obtain ⟨first, later, hsplit, haccused, hlater⟩ := h
  cases first with
  | nil => exact .inr (by rw [hsplit]; exact hlater)
  | cons u first =>
    rw [htodo] at hsplit
    cases hsplit
    exact .inl (haccused t mem_cons_self)

theorem none_of_callable (h : n.Doubting) (hcallable : Node.callable n.todo = true) :
    ∀ u ∈ n.todo, u.accused = none := by
  cases htodo : n.todo with
  | nil => exact fun _ hu => absurd hu not_mem_nil
  | cons t rest =>
    rw [htodo] at hcallable
    obtain ⟨id, hid, -⟩ | hnone := h.next htodo
    · obtain ⟨now, rfl⟩ | ⟨inc, now, rfl⟩ := Task.accused_cases hid <;> cases hcallable
    · rwa [htodo] at hnone

theorem of_none (h : ∀ u ∈ n.todo, u.accused = none) : n.Doubting :=
    ⟨[], n.todo, rfl, fun _ ht => absurd ht not_mem_nil, h⟩

end Node.Doubting

theorem lease_expired (cfg : Config) (env : Env) (hid : id ∈ s.expired now) :
    (s.exec cfg env (.expireLeases now)).swim.ledger.lease id = none := by
  obtain ⟨held, hheld, huntil⟩ := mem_expired hid
  simp only [exec]
  rw [ledger_expireLeases]
  dsimp only
  rw [show s.ledger.lease id = some held from hheld, filter_some, decide_eq_true huntil]
  rfl

theorem Node.Doubting.ran (hd : n.Doubting) (hown : n.swim.ledger.Owned) (htodo : n.todo = t :: rest) :
    (n.ran (n.swim.exec cfg env t) rest).Doubting := by
  obtain ⟨first, later, hsplit, haccused, hlater⟩ := hd
  rw [htodo] at hsplit
  cases first with
  | cons u first =>
    cases hsplit
    obtain ⟨id, hid, -⟩ := haccused t mem_cons_self
    refine ⟨first, later, ?_, fun u hu => ?_, hlater⟩
    · exact congrArg (fun todo => todo ++ (first ++ later)) (exec_accused hid).1
    · obtain ⟨id', hid', hfree⟩ := haccused u (mem_cons_of_mem _ hu)
      refine ⟨id', hid', ?_⟩
      have heffect : Effect cfg (t.May cfg n.swim) n.swim.ledger (n.swim.exec cfg env t).swim.ledger :=
        (exec_capped hown.sure).settles
      cases hlease : (n.swim.exec cfg env t).swim.ledger.lease id' with
      | none => exact hlease
      | some held =>
        obtain hwas | ⟨inc, hmay⟩ := heffect.lease_from hlease
        · rw [hfree] at hwas
          cases hwas
        · exact absurd hmay ((Task.accused_lenient hid).lease inc held)
  | nil =>
    cases hsplit
    have hrest : ∀ u ∈ rest, u.accused = none := fun u hu => hlater u (mem_cons_of_mem _ hu)
    obtain hout | ⟨rfl, hdo⟩ | ⟨now, rfl, hdo⟩ | ⟨now, rfl, hprobeable, hsame, hdo⟩ := exec_inward cfg env n.swim t
    · refine .of_none fun u hu => ?_
      rcases mem_append.mp hu with hu | hu
      · exact Task.accused_of_outward (hout u hu)
      · exact hrest u hu
    · refine .of_none fun u hu => ?_
      rcases mem_append.mp hu with hu | hu
      · rw [hdo] at hu
        obtain ⟨id, -, rfl⟩ := mem_map.mp hu
        rfl
      · exact hrest u hu
    · refine ⟨(n.swim.expired now).map fun id => .lapseLease id now, rest, congrArg (fun todo => todo ++ rest) hdo,
        fun u hu => ?_, hrest⟩
      obtain ⟨id, hid, rfl⟩ := mem_map.mp hu
      exact ⟨id, rfl, lease_expired cfg env hid⟩
    · refine ⟨[.apply n.swim.probe.target (n.swim.incarnationOf n.swim.probe.target) .suspect .here now],
        .dropProbe :: rest, congrArg (fun todo => todo ++ rest) hdo, fun u hu => ?_, fun u hu => ?_⟩
      · cases mem_singleton.mp hu
        refine ⟨n.swim.probe.target, rfl, ?_⟩
        rw [Node.ran, hsame]
        unfold probeable at hprobeable
        split at hprobeable
        · cases hprobeable
        · exact isNone_iff_eq_none.mp (Bool.and_eq_true_iff.mp hprobeable).2
      · rcases mem_cons.mp hu with rfl | hu
        · rfl
        · exact hrest u hu

theorem Node.Doubting.step (hd : n.Doubting) (hown : n.swim.ledger.Owned) (h : n.step cfg label = some n') :
    n'.Doubting := by
  obtain ⟨env, t, rest, -, htodo, rfl⟩ | ⟨hsame, -, -, htodo | ⟨c, -, hcallable, rfl⟩⟩ := Node.step_books h
  · exact hd.ran hown htodo
  · obtain ⟨first, later, hsplit, haccused, hlater⟩ := hd
    exact ⟨first, later, htodo.trans hsplit, by rw [hsame]; exact haccused, hlater⟩
  · refine .of_none fun u hu => ?_
    rcases mem_cons.mp hu with rfl | hu
    · rfl
    · rcases mem_cons.mp hu with rfl | hu
      · rfl
      · exact hd.none_of_callable hcallable u hu

/-- What holds of the leases of a node in any run. -/
structure Node.Leasing (cfg : Config) (n : Node) : Prop where
  sound : n.Sound
  leased : n.swim.ledger.Leased
  few : n.swim.ledger.leases ≤ cfg.mobile.maxSuspended
  doubting : n.Doubting

theorem Node.Leasing.step (hplain : cfg.testFaults = {}) (hn : n.Leasing cfg) (h : n.step cfg label = some n') :
    n'.Leasing cfg := by
  have heffect : Effect cfg (label.May cfg n) n.swim.ledger n'.swim.ledger := Node.step_effect h hn.sound.own
  refine ⟨hn.sound.step h, heffect.leased hplain hn.leased hn.sound.unleased ?_ ?_, heffect.leases_le hn.few,
    hn.doubting.step hn.sound.own h⟩
  · rintro id ⟨env, t, rest, rfl, htodo, hmay⟩
    obtain ⟨id', hid', hfree⟩ | hnone := hn.doubting.next htodo
    · cases hid'.symm.trans hmay.accused
      exact hfree
    · cases (hnone t (by rw [htodo]; exact mem_cons_self)).symm.trans hmay.accused
  · rintro id id' inc held ⟨env, t, rest, rfl, htodo, hmay⟩ ⟨env', t', rest', hlabel, htodo', hmay'⟩
    cases htodo.symm.trans htodo'
    exact (Task.accused_lenient hmay.accused).lease inc held hmay'

theorem leasing_start {self_ : NodeId} {drawn : UInt64} {sinks : Nat} :
    (Node.start cfg self_ drawn sinks).Leasing cfg := by
  have hnone : ∀ id, (Node.start cfg self_ drawn sinks).swim.ledger.lease id = none := fun _ => rfl
  refine ⟨sound_start, fun id held hheld => ?_, ?_, .of_none fun _ ht => absurd ht not_mem_nil⟩
  · rw [hnone id] at hheld
    cases hheld
  · exact (census_leases (s := (Node.start cfg self_ drawn sinks).swim)).trans_le (Nat.zero_le _)

end Queue

/-- A node, and what happened to the leases of each member. -/
structure Watch where
  node : Node
  /-- the latest reading of the clock at which a `Suspend` frame of the member was handled -/
  heard : NodeId → Option Int := fun _ => none
  /-- the highest incarnation at which a lease of the member lapsed since its entry is there -/
  lapsed : NodeId → Option UInt64 := fun _ => none

namespace Watch

variable (w : Watch)

def heardAfter (label : Label) (id : NodeId) : Option Int :=
  match label.task w.node with
  | some (.answer m now) =>
    if m.kind = .suspend ∧ m.from_ = id then some (max ((w.heard id).getD now) now) else w.heard id
  | _ => w.heard id

/-- The lease of `id` that a step lets lapse. -/
def expiring (label : Label) (id : NodeId) : Option Lease :=
  match label.task w.node with
  | some (.expireLeases now) => (w.node.swim.leases.lookup id).filter fun held => decide (held.until_ ≤ now)
  | _ => none

def lapsedAfter (label : Label) (n' : Node) (id : NodeId) : Option UInt64 :=
  if (n'.swim.members.lookup id).isNone then none
  else match w.expiring label id with
    | none => w.lapsed id
    | some held => some (max held.incarnation ((w.lapsed id).getD 0))

def start (cfg : Config) (self_ : NodeId) (drawn : UInt64) (sinks : Nat) : Watch where
  node := Node.start cfg self_ drawn sinks

def step (cfg : Config) (w : Watch) (label : Label) : Option Watch :=
  (w.node.step cfg label).map fun n' => { node := n', heard := w.heardAfter label, lapsed := w.lapsedAfter label n' }

end Watch

/-- The entry leaves a mark for a lease that lapses: it is not at 0, nor below the lease. -/
def Lease.leavesMark (held : Lease) (m : Member) : Bool :=
  m.incarnation != 0 && decide (held.incarnation ≤ m.incarnation)

/-- Every lease that the step lets lapse leaves its mark. -/
def Watch.Marks (w : Watch) (label : Label) : Prop :=
  w.node.swim.leases.entries.all (fun e => (w.expiring label e.1).all fun held =>
    (w.node.swim.members.lookup e.1).any held.leavesMark) = true

instance (w : Watch) (label : Label) : Decidable (w.Marks label) :=
  inferInstanceAs (Decidable (w.node.swim.leases.entries.all (fun e => (w.expiring label e.1).all fun held =>
    (w.node.swim.members.lookup e.1).any held.leavesMark) = true))

section Watched

theorem max_of_le {a b : UInt64} (h : b ≤ a) : max a b = a := by
  change (if a ≤ b then b else a) = a
  split
  · next hle => exact UInt64.le_antisymm h hle
  · rfl

variable {w w' : Watch}

theorem expiring_cases (h : w.expiring label id = some held) : ∃ env now rest, label = .run env ∧
    w.node.todo = .expireLeases now :: rest ∧ w.node.swim.leases.lookup id = some held ∧ held.until_ ≤ now := by
  unfold Watch.expiring at h
  split at h
  · next now htask =>
    obtain ⟨hheld, huntil⟩ := filter_eq_some_iff.mp h
    cases label with
    | run env =>
      obtain ⟨rest, hrest⟩ := head?_eq_some_iff.mp htask
      exact ⟨env, now, rest, rfl, hrest, hheld, of_decide_eq_true huntil⟩
    | _ => cases htask
  · cases h

theorem Watch.Marks.mark (hok : w.Marks label) (h : w.expiring label id = some held) :
    ∃ m, w.node.swim.members.lookup id = some m ∧ m.incarnation ≠ 0 ∧ held.incarnation ≤ m.incarnation := by
  obtain ⟨env, now, rest, -, -, hheld, -⟩ := expiring_cases h
  have hmark := all_eq_true.mp hok ⟨id, held⟩ (Table.mem_entries_iff.mpr hheld)
  rw [h, all_some] at hmark
  obtain ⟨m, hm, hmarks⟩ := (any_eq_true _ _).mp hmark
  obtain ⟨hsome, hle⟩ := Bool.and_eq_true_iff.mp hmarks
  exact ⟨m, hm, by simpa using hsome, of_decide_eq_true hle⟩

theorem heardAfter_le {at_ : Int} (h : w.heard id = some at_) (label : Label) :
    ∃ at', w.heardAfter label id = some at' ∧ at_ ≤ at' := by
  unfold Watch.heardAfter
  split
  · split
    · exact ⟨_, rfl, by rw [h]; exact Int.le_max_left ..⟩
    · exact ⟨at_, h, Int.le_refl _⟩
  · exact ⟨at_, h, Int.le_refl _⟩

theorem lapsedAfter_cases {n' : Node} (h : w.lapsedAfter label n' id = some inc) : n'.swim.ledger.entry id ≠ none ∧
    (w.expiring label id = none ∧ w.lapsed id = some inc ∨
      ∃ held, w.expiring label id = some held ∧ inc = max held.incarnation ((w.lapsed id).getD 0)) := by
  unfold Watch.lapsedAfter at h
  split at h
  · cases h
  · next hknown =>
    refine ⟨fun hnone => hknown (isNone_iff_eq_none.mpr (map_eq_none_iff.mp hnone)), ?_⟩
    split at h
    · next hnone => exact .inl ⟨hnone, h⟩
    · next held hheld =>
      cases h
      exact .inr ⟨held, hheld, rfl⟩

/-- Where a lease of the member lapsed: the mark is there, or the next tasks make it. -/
def Node.Spent (n : Node) (id : NodeId) (inc : UInt64) : Prop :=
  id ≠ n.swim.self_ ∧ n.swim.ledger.entry id ≠ none ∧ (n.swim.ledger.Barred id inc ∨
    n.swim.ledger.Pending id inc ∧ ∃ now, .lapseLease id now ∈ n.todo)

theorem Node.Spent.above (h : n.Spent id inc) (hheld : n.swim.leases.lookup id = some held) :
    inc < held.incarnation := by
  obtain ⟨-, -, hbarred | ⟨hpending, -⟩⟩ := h
  · exact hbarred.2 held hheld
  · cases hpending.2.symm.trans hheld

theorem Node.Spent.step (h : n.Spent id inc) (hn : n.Leasing cfg) (hstep : n.step cfg label = some n')
    (hknown : n'.swim.ledger.entry id ≠ none) : n'.Spent id inc := by
  obtain ⟨hother, hwas, hphase⟩ := h
  have heffect : Effect cfg (label.May cfg n) n.swim.ledger n'.swim.ledger := Node.step_effect hstep hn.sound.own
  refine ⟨fun hid => hother (hid.trans heffect.me), hknown, ?_⟩
  obtain hbarred | ⟨hpending, now, hwaits⟩ := hphase
  · exact .inl (heffect.barred hbarred hother hwas)
  · obtain ⟨env, t, rest, rfl, htodo, rfl⟩ | ⟨hsame, -, -, htodo | ⟨c, -, hcallable, rfl⟩⟩ := Node.step_books hstep
    · obtain ⟨id', hid', -⟩ | hnone := hn.doubting.next htodo
      · rw [htodo] at hwaits
        rcases mem_cons.mp hwaits with rfl | hlater
        · exact .inl (lapseLease_barred hother hpending)
        · refine .inr ⟨?_, now, mem_append_right _ hlater⟩
          have hdone : Effect cfg (t.May cfg n.swim) n.swim.ledger (n.swim.exec cfg env t).swim.ledger :=
            (exec_capped hn.sound.own.sure).settles
          exact hdone.pending hpending hother (Task.accused_lenient hid')
      · cases hnone _ hwaits
    · exact .inr ⟨by rw [hsame]; exact hpending, now, by rw [htodo]; exact hwaits⟩
    · cases hn.doubting.none_of_callable hcallable _ hwaits

theorem Node.Leasing.spent (hn : n.Leasing cfg) (hheld : n.swim.leases.lookup id = some held)
    (huntil : held.until_ ≤ now) {m : Member}
    (hm : n.swim.members.lookup id = some m) (hsome : m.incarnation ≠ 0)
    (hle : held.incarnation ≤ m.incarnation) (env : Env) :
    (n.ran (n.swim.exec cfg env (.expireLeases now)) rest).Spent id held.incarnation := by
  have hin : id ∈ n.swim.expired now := by
    rw [expired, sortIds, mem_insertionSort]
    exact mem_map.mpr ⟨⟨id, held⟩, mem_filter.mpr ⟨Table.mem_entries_iff.mpr hheld, decide_eq_true huntil⟩, rfl⟩
  obtain ⟨r, hr, halive, -⟩ := hn.leased id held hheld
  cases (ledger_entry hm).symm.trans hr
  have hentry : (n.ran (n.swim.exec cfg env (.expireLeases now)) rest).swim.ledger.entry id = some m.record := hr
  refine ⟨?_, by rw [hentry]; exact Option.some_ne_none _,
    .inr ⟨⟨⟨m.record, hr, by rw [Record.tomb, halive]; rfl, hsome, hle⟩, lease_expired cfg env hin⟩, now, ?_⟩⟩
  · rintro rfl
    cases hn.sound.unleased.symm.trans hheld
  · exact mem_append_left _ (mem_map.mpr ⟨id, hin, rfl⟩)

/-- What is known of the leases: who holds them, that they are few, when they end, and that none is renewed. -/
structure Watch.Kept (cfg : Config) (w : Watch) : Prop where
  sure : ∀ id held, w.node.swim.leases.lookup id = some held →
    ∃ m, w.node.swim.members.lookup id = some m ∧ m.verified = true ∧ m.status = .alive
  few : w.node.swim.leases.size ≤ cfg.mobile.maxSuspended
  bounded : ∀ id held, w.node.swim.leases.lookup id = some held →
    ∃ at_, w.heard id = some at_ ∧ held.until_ ≤ at_ + cfg.mobile.maxLease
  renewed : ∀ id held inc, w.node.swim.leases.lookup id = some held → w.lapsed id = some inc → inc < held.incarnation

structure Watch.Inv (cfg : Config) (w : Watch) : Prop where
  leasing : w.node.Leasing cfg
  bounded : ∀ id held, w.node.swim.leases.lookup id = some held →
    ∃ at_, w.heard id = some at_ ∧ held.until_ ≤ at_ + cfg.mobile.maxLease
  spent : ∀ id inc, w.lapsed id = some inc → w.node.Spent id inc

theorem Watch.Inv.kept (h : w.Inv cfg) : w.Kept cfg := by
  refine ⟨fun id held hheld => ?_, census_leases.symm.trans_le h.leasing.few, h.bounded, fun id held inc hheld hinc =>
    (h.spent id inc hinc).above hheld⟩
  obtain ⟨r, hr, hstatus, hverified⟩ := h.leasing.leased id held hheld
  obtain ⟨m, hm, rfl⟩ := entry_ledger hr
  exact ⟨m, hm, hverified, hstatus⟩

theorem Watch.Inv.step (hplain : cfg.testFaults = {}) (h : w.Inv cfg) (hok : w.Marks label)
    (hstep : Watch.step cfg w label = some w') :
    w'.Inv cfg := by
  obtain ⟨n', hn', rfl⟩ := map_eq_some_iff.mp hstep
  have heffect : Effect cfg (label.May cfg w.node) w.node.swim.ledger n'.swim.ledger :=
    Node.step_effect hn' h.leasing.sound.own
  refine ⟨h.leasing.step hplain hn', fun id held hheld => ?_, fun id inc hinc => ?_⟩
  · obtain hwas | ⟨inc, env, t, rest, rfl, htodo, hmay⟩ := heffect.lease_from hheld
    · obtain ⟨at_, hat, huntil⟩ := h.bounded id held hwas
      obtain ⟨at', hat', hle⟩ := heardAfter_le hat label
      exact ⟨at', hat', Int.le_trans huntil (Int.add_le_add_right hle _)⟩
    · cases hmay with
      | @lease m now cur _ hkind _ _ _ huntil =>
        have hhead : w.node.todo.head? = some (.answer m now) := by rw [htodo]; rfl
        refine ⟨max ((w.heard m.from_).getD now) now, ?_,
          Int.le_trans huntil (Int.add_le_add_right (Int.le_max_right ..) _)⟩
        change w.heardAfter (.run env) m.from_ = _
        simp only [Watch.heardAfter, Label.task, hhead, hkind, and_self, if_true]
  · obtain ⟨hknown, ⟨-, hwas⟩ | ⟨held, hexpiring, rfl⟩⟩ := lapsedAfter_cases hinc
    · exact (h.spent id inc hwas).step h.leasing hn' hknown
    · obtain ⟨m, hm, hsome, hle⟩ := hok.mark hexpiring
      obtain ⟨env, now, rest, rfl, htodo, hheld, huntil⟩ := expiring_cases hexpiring
      have hhighest : max held.incarnation ((w.lapsed id).getD 0) = held.incarnation := by
        cases hold : w.lapsed id with
        | none => exact max_of_le UInt64.zero_le
        | some old => exact max_of_le (UInt64.le_of_lt ((h.spent id old hold).above hheld))
      rw [hhighest]
      simp only [Node.step, htodo, some.injEq] at hn'
      rw [← hn']
      exact h.leasing.spent hheld huntil hm hsome hle env

/-- In a run in which every lease that lapses leaves its mark, who holds a lease is a verified member that is
alive, there are at most `max_suspended` leases, each ends at most `max_lease_ns` after the last `Suspend`
frame of its holder, and a lease that is held is above those that lapsed. -/
theorem Watch.leases_kept {self_ : NodeId} {drawn : UInt64} {sinks : Nat} (hplain : cfg.testFaults = {})
    (h : Reach (Watch.step cfg) Watch.Marks (Watch.start cfg self_ drawn sinks) w) : w.Kept cfg := by
  refine (h.invariant (I := Watch.Inv cfg) ⟨leasing_start, fun id held hheld => ?_, nofun⟩
    fun w label w' hI hok hstep => hI.step hplain hok hstep).kept
  cases hheld

def admitted : List Label := .call (.admit_ 2 0) :: List.replicate 5 (.run {})

/-- Member 2 announces that it is asleep for 100 ns. -/
def parting (inc : UInt64) : ControlMsg where
  kind := .suspend
  from_ := 2
  fromIncarnation := inc
  subjectIncarnation := SuspendReason.doze.code
  seq := 100
  wireVersion := 2

def asleep (inc : UInt64) (now : Int) : List Label :=
  .call (.frame { from_ := 2, to_ := 1, control := true, payload := some (parting inc) }) ::
    List.replicate 8 (.run { now })

def ticked (now : Int) : List Label := .call .tick :: List.replicate 21 (.run { now })

/-- A lapsed lease is not renewed at 1, but it is at 2. -/
theorem leases_kept_two : ∃ w : Watch,
    Machine.run (guarded (Watch.step (Config.sanitize {})) Watch.Marks) (Watch.start (Config.sanitize {}) 1 0 0)
      (admitted ++ asleep 1 0 ++ ticked 200 ++ asleep 1 300 ++ asleep 2 400) = some w ∧
    w.lapsed 2 = some 1 ∧ w.node.swim.leases.lookup 2 = some ⟨500, 2, 2⟩ ∧ (1 : UInt64) < 2 := by
  obtain ⟨w, hw, hfacts⟩ := map_eq_some_iff.mp (show (Machine.run (guarded (Watch.step (Config.sanitize {}))
    Watch.Marks) (Watch.start (Config.sanitize {}) 1 0 0) (admitted ++ asleep 1 0 ++ ticked 200 ++ asleep 1 300 ++
    asleep 2 400)).map (fun w => (w.lapsed 2, w.node.swim.leases.lookup 2)) = some (some 1, some ⟨500, 2, 2⟩)
      by decide +kernel)
  obtain ⟨hlapsed, hheld⟩ := Prod.mk.inj hfacts
  exact ⟨w, hw, hlapsed, hheld,
    (Watch.leases_kept rfl (reach_of_run hw)).renewed 2 ⟨500, 2, 2⟩ 1 hheld hlapsed⟩

/-- At incarnation 0 no mark is made, and the lease that lapsed is renewed. -/
theorem lapsed_lease_renewed : ∃ w : Watch, Machine.run (Watch.step (Config.sanitize {}))
      (Watch.start (Config.sanitize {}) 1 0 0) (admitted ++ asleep 0 0 ++ ticked 200 ++ asleep 0 300) = some w ∧
    w.lapsed 2 = some 0 ∧ w.node.swim.leases.lookup 2 = some ⟨400, 0, 2⟩ := by
  obtain ⟨w, hw, hfacts⟩ := map_eq_some_iff.mp (show (Machine.run (Watch.step (Config.sanitize {}))
    (Watch.start (Config.sanitize {}) 1 0 0) (admitted ++ asleep 0 0 ++ ticked 200 ++ asleep 0 300)).map (fun w =>
      (w.lapsed 2, w.node.swim.leases.lookup 2)) = some (some 0, some ⟨400, 0, 2⟩) by decide +kernel)
  obtain ⟨hlapsed, hheld⟩ := Prod.mk.inj hfacts
  exact ⟨w, hw, hlapsed, hheld⟩

end Watched

end Quark.Swim
