import Quark.SwimLedger
import Quark.SwimTransitions

/-! What each function of `SwimMembership` does to the books. -/
namespace Quark.Swim

open Function List Option SwimMembership

variable {cfg : Config} {may : Act → Prop} {s s' : SwimMembership} {node id : NodeId} {m cur : Member}
variable {l l' : Ledger} {inc : UInt64} {st prev : MemberStatus} {src : Src} {now : Int}

theorem txPendingAfter_same (n : UInt32) (v : UInt8) : txPendingAfter n v v = n := by
  unfold txPendingAfter
  rw [if_neg fun h => h.2 h.1, if_neg fun h => h.1 h.2]

namespace Ledger

theorem set_same {r : Record} (h : l.entry id = some r) : l.set id (some r) = l := by
  rw [set, ← h, update_eq_self]

theorem alter_alive {cur r : Record} (h : r.tomb = cur.tomb) :
    l.alter id cur r = { l.set id (some r) with txPending := txPendingAfter l.txPending cur.tx r.tx } := by
  unfold alter
  rw [h, Bool.and_not_self, Bool.not_and_self]
  rfl

end Ledger

section Books

theorem ledger_entry (h : s.members.lookup id = some m) : s.ledger.entry id = some m.record :=
    congrArg (Option.map _) h

theorem ledger_entry_none (h : s.members.lookup id = none) : s.ledger.entry id = none := congrArg (Option.map _) h

theorem entry_ledger {r : Record} (h : s.ledger.entry id = some r) :
    ∃ m, s.members.lookup id = some m ∧ m.record = r := map_eq_some_iff.mp h

theorem ledger_mine : s.ledger.mine = ((s.members.lookup s.self_).getD {}).record := by
  have hmine : s.ledger.mine = ((s.members.lookup s.self_).map Member.record).getD {} := rfl
  rw [hmine]
  cases s.members.lookup s.self_ <;> rfl

theorem ledger_members {t : Table NodeId Member} {f : NodeId → Option Record}
    (h : ∀ id, (t.lookup id).map Member.record = f id) :
    ({ s with members := t } : SwimMembership).ledger = { s.ledger with entry := f } := by
  unfold ledger
  rw [← funext h]

theorem ledger_put : (s.put node m).ledger = s.ledger.set node (some m.record) := by
  apply ledger_members
  intro id
  by_cases hid : id = node
  · rw [hid, AList.lookup_insert, update_self, map_some]
  · rw [AList.lookup_insert_ne hid, update_of_ne hid]
    rfl

theorem ledger_put_same (h : s.ledger.entry node = some m.record) : (s.put node m).ledger = s.ledger := by
  rw [ledger_put, Ledger.set_same h]

theorem ledger_put_kept (hcur : s.members.lookup node = some cur) (hm : m.record = cur.record) :
    (s.put node m).ledger = s.ledger := ledger_put_same (by rw [hm]; exact ledger_entry hcur)

theorem ledger_mapVals {f : NodeId → Member → Member} (hf : ∀ id m, (f id m).record = m.record) :
    ({ s with members := Table.mapVals f s.members } : SwimMembership).ledger = s.ledger := by
  apply ledger_members
  intro id
  rw [Table.lookup_mapVals, Option.map_map]
  exact congrArg (fun g => Option.map g (s.members.lookup id)) (funext (hf id))

theorem ledger_unlease : ({ s with leases := s.leases.erase node } : SwimMembership).ledger =
    s.ledger.setLease node none := by
  unfold ledger Ledger.setLease
  congr 1
  funext id
  by_cases hid : id = node
  · rw [hid, AList.lookup_erase, update_self]
  · rw [AList.lookup_erase_ne hid, update_of_ne hid]

theorem ledger_pushEvent {kind : EventKind} : (s.pushEvent kind node m).ledger = s.ledger := by
  unfold pushEvent
  split <;> rfl

theorem ledger_noteTransition (h : s.ledger.entry node = some m.record) :
    (s.noteTransition cfg node m prev).ledger =
      if m.record.tomb = true ∧ cfg.testFaults.keepLeaseOnTombstone = false then s.ledger.setLease node none
      else s.ledger := by
  have hput : ∀ {s₁ : SwimMembership} r, s₁.ledger.entry = s.ledger.entry →
      (s₁.put node { m with reported := r }).ledger = s₁.ledger :=
    fun r hs₁ => ledger_put_same ((congrFun hs₁ node).trans h)
  unfold noteTransition
  dsimp only
  generalize hs₁ : (if cfg.testFaults.keepLeaseOnTombstone then s else { s with leases := s.leases.erase node }) = s₁
  by_cases htomb : m.status.isTomb = true
  · have hfreed : s₁.ledger.entry = s.ledger.entry ∧ s₁.ledger =
        if m.record.tomb = true ∧ cfg.testFaults.keepLeaseOnTombstone = false then s.ledger.setLease node none
        else s.ledger := by
      rw [← hs₁]
      cases cfg.testFaults.keepLeaseOnTombstone with
      | true => exact ⟨rfl, (if_neg fun hc => Bool.false_ne_true hc.2.symm).symm⟩
      | false => exact ⟨rfl, ledger_unlease.trans (if_pos ⟨htomb, rfl⟩).symm⟩
    rw [if_pos htomb, ← hfreed.2]
    split
    · rw [ledger_pushEvent, hput _ hfreed.1]
    · rfl
  · rw [if_neg htomb, if_neg (c := m.record.tomb = true ∧ cfg.testFaults.keepLeaseOnTombstone = false)
      fun hc => htomb hc.1]
    split_ifs
    · rfl
    · rw [ledger_pushEvent, hput _ rfl]
    · exact ledger_pushEvent
    · exact ledger_pushEvent
    · rfl

end Books

theorem Edits.one (h : Edit cfg may l l') : Edits cfg may l l' := Relation.ReflTransGen.single h

theorem Edits.same (h : l' = l) : Edits cfg may l l' := by
  rw [h]

theorem Edits.foldl {A E : Type} {f : A → E → A} {g : A → Ledger} {es : List E} {a : A}
    (hf : ∀ a, ∀ e ∈ es, Edits cfg may (g a) (g (f a e))) : Edits cfg may (g a) (g (es.foldl f a)) :=
  List.foldlRecOn (motive := fun a' => Edits cfg may (g a) (g a')) es f .refl fun a' ha e he => ha.trans (hf a' e he)

theorem noteTransition_edits (h : s.ledger.entry node = some m.record) :
    Edits cfg may s.ledger (s.noteTransition cfg node m prev).ledger := by
  rw [ledger_noteTransition h]
  split
  · exact .one .free
  · exact .refl

theorem altered_edits (hs' : s'.ledger = s.ledger.alter node cur.record m.record) (hother : node ≠ s.self_)
    (hcur : s.members.lookup node = some cur) (hverified : cur.verified = true → m.verified = true)
    (hinc : cur.incarnation ≤ m.incarnation) (hlapsed : m.leaseExpiredInc = cur.leaseExpiredInc)
    (htomb : m.record.tomb = true → cur.record.tomb = true ∨ may .bury)
    (hfree : m.record.tomb = false → cfg.testFaults = {} →
      m.status = .alive ∨ cur.status ≠ .alive ∨ s.ledger.lease node = none ∨ may (.doubt node)) :
    Edits cfg may s.ledger (s'.noteTransition cfg node m prev).ledger := by
  have hentry : s'.ledger.entry node = some m.record := by
    rw [hs']
    exact update_self ..
  rw [ledger_noteTransition hentry, hs']
  split
  · refine .head .free (.single (Edit.alter (l := s.ledger.setLease node none) hother (ledger_entry hcur) hverified
      hinc hlapsed htomb fun _ => .inr (.inr (.inl ?_))))
    exact update_self ..
  · next hkept =>
    refine .one (.alter hother (ledger_entry hcur) hverified hinc hlapsed htomb fun hplain => ?_)
    cases ht : m.record.tomb with
    | false => exact hfree ht hplain
    | true => exact absurd ⟨ht, by rw [hplain]⟩ hkept

theorem ledger_evicted (v : Entry) : ({ s with
    txPending := if v.2.txLeft ≠ 0 then s.txPending - 1 else s.txPending
    members := s.members.erase v.1
    tombCount := s.tombCount - 1
    idsDirty := true } : SwimMembership).ledger = s.ledger.evict v.1 v.2.record := by
  have herased : ({ s with members := s.members.erase v.1 } : SwimMembership).ledger = s.ledger.set v.1 none := by
    apply ledger_members
    intro id
    by_cases hid : id = v.1
    · rw [hid, AList.lookup_erase, update_self, map_none]
    · rw [AList.lookup_erase_ne hid, update_of_ne hid]
      rfl
  rw [Ledger.evict, ← herased]
  rfl

theorem enforceTombCap_edits : Edits cfg may s.ledger (s.enforceTombCap cfg).ledger := by
  unfold enforceTombCap
  generalize s.members.size = n
  induction n generalizing s with
  | zero => exact .refl
  | succ n ih =>
    rw [enforceTombCapFrom]
    split
    · split
      · exact .refl
      · next v hv =>
        obtain ⟨hlookup, htomb, hother⟩ := capVictim_tomb hv
        have hevicted : Edit cfg may s.ledger (s.ledger.evict v.1 v.2.record) :=
          .evict hother (ledger_entry hlookup) htomb
        rw [← ledger_evicted] at hevicted
        exact .head hevicted ih
    · exact .refl

namespace Capped

theorem cap {R : (Act → Prop) → Ledger → Ledger → Prop} (h : R may s.ledger s'.ledger) :
    Capped cfg R may s (s'.enforceTombCap cfg) := .capped h rfl

theorem same (h : s'.ledger = s.ledger) : Capped cfg (Edits cfg) may s s' := .plain (.same h)

theorem effect (h : Capped cfg (Edits cfg) may s s') : Capped cfg (Effect cfg) may s s' := by
  cases h with
  | plain h => exact .plain (.edits h)
  | capped h hcap => exact .capped (.edits h) hcap

theorem after (h : Edits cfg (fun a => may a ∧ a ≠ .bury) s.ledger s'.ledger) {s'' : SwimMembership}
    (h' : Capped cfg (Edits cfg) may s' s'') : Capped cfg (Edits cfg) may s s'' := by
  cases h' with
  | plain h' => exact .plain (h.trans h')
  | capped h' hcap => exact .capped ((h.mono fun _ ha => ha.1).trans h') hcap

end Capped

theorem Capped.settles (h : Capped cfg (Effect cfg) may s s') : Effect cfg may s.ledger s'.ledger := by
  cases h with
  | plain h => exact h.mono fun _ ha => ha.1
  | capped h hcap =>
    rw [hcap]
    exact h.then_ enforceTombCap_edits

theorem own_edits (hm : m.record = { s.ledger.mine with incarnation := inc, status := st })
    (h : Edit cfg may s.ledger (s.ledger.own inc st)) :
    Edits cfg may s.ledger ({ s with selfIncarnation := inc }.put s.self_ m).ledger := by
  rw [ledger_put, hm]
  exact .single h

theorem refute_capped (hmay : st = .suspect ∨ st = .dead → may (.refute inc)) :
    Capped cfg (Edits cfg) may s (s.refute inc st) := by
  unfold refute
  split_ifs with hgone haccused
  · exact .same rfl
  · have hact : may (.refute inc) := by
      apply hmay
      cases st with
      | alive => exact absurd rfl haccused.1
      | suspect => exact .inl rfl
      | dead => exact .inr rfl
      | left => exact absurd (.inr rfl) hgone
    have hhere : s.selfLeft = false := by simpa using fun hleft => hgone (.inl hleft)
    exact .plain (own_edits (by rw [ledger_mine]; rfl) (.refute ⟨hact, nofun⟩ hhere haccused.2))
  · exact .same rfl

theorem createMember_capped (hother : node ≠ s.self_) (hnew : s.members.lookup node = none)
    (hbury : st.isTomb = true → may .bury) :
    Capped cfg (Effect cfg) may s (s.createMember cfg node inc st src now) := by
  unfold createMember
  dsimp only
  split
  · exact (Capped.same rfl).effect
  · split
    · exact (Capped.same rfl).effect
    · next hsuspect =>
      split
      · exact (Capped.same rfl).effect
      · generalize hm : s.newMember node inc st src now = m
        generalize hs₁ : ({ s.put node m with
            txPending := txPendingAfter s.txPending 0 m.txLeft
            tombCount := if st.isTomb then s.tombCount + 1 else s.tombCount
            idsDirty := true } : SwimMembership) = s₁
        have hfresh : m.status = st ∧ m.leaseExpiredInc = 0 := by
          rw [← hm]
          exact ⟨rfl, rfl⟩
        have hcreated : s₁.ledger = s.ledger.create node m.record := by
          rw [← hs₁, Ledger.create, ← ledger_put, Record.tomb, show m.record.status = st from hfresh.1]
          rfl
        have hlisted : (if st.isTomb then s₁ else s₁.republish).ledger = s.ledger.create node m.record := by
          rw [← hcreated]
          split <;> rfl
        have hentry : (if st.isTomb then s₁ else s₁.republish).ledger.entry node = some m.record := by
          rw [hlisted]
          exact update_self ..
        have hnoted : Edits cfg may (if st.isTomb then s₁ else s₁.republish).ledger
            ((if st.isTomb then s₁ else s₁.republish).noteTransition cfg node m .alive).ledger :=
          noteTransition_edits hentry
        rw [hlisted] at hnoted
        have hmay : m.record.tomb = true → may .bury :=
          fun ht => hbury ((congrArg MemberStatus.isTomb hfresh.1).symm.trans ht)
        exact .cap ⟨_, .create hother (ledger_entry_none hnew)
          (fun hc => hsuspect (hfresh.1.symm.trans hc)) hfresh.2 hmay, hnoted⟩

theorem nextStatus_suspect (h : nextStatus cfg cur inc st src now = some .suspect) :
    cur.status = .dead ∨ st = .suspect ∨ st = .dead ∧ src ≠ .here := by
  cases st with
  | alive =>
    simp only [nextStatus] at h
    split at h
    · next htest => exact .inl htest.2.1
    · split at h <;> cases h
  | suspect => exact .inr (.inl rfl)
  | dead =>
    simp only [nextStatus] at h
    split at h
    · split at h <;> cases h
    · next hsrc => exact .inr (.inr ⟨rfl, hsrc⟩)
  | left =>
    simp only [nextStatus] at h
    split at h <;> split at h <;> cases h

theorem lease_of_unsuppressed (hplain : cfg.testFaults = {}) (h : s.suppressed cfg node inc st src = false)
    (haccusing : st = .suspect ∨ st = .dead) (hsrc : src ≠ .here) : s.ledger.lease node = none := by
  unfold suppressed at h
  have hlisten : ((st == .suspect || st == .dead) && src != .here) = true := by
    rcases haccusing with rfl | rfl <;> simp [hsrc]
  rw [hlisten, hplain, Bool.true_and] at h
  change s.leases.lookup node = none
  cases hlease : s.leases.lookup node with
  | none => rfl
  | some held =>
    rw [hlease] at h
    cases h

theorem mergeMember_capped (hother : node ≠ s.self_) (hcur : s.members.lookup node = some cur)
    (hbury : st.isTomb = true → may .bury) (hsuppressed : s.suppressed cfg node inc st src = false)
    (hdoubt : st = .suspect → src = .here → may (.doubt node)) :
    Capped cfg (Edits cfg) may s (s.mergeMember cfg node cur inc st src now) := by
  unfold mergeMember
  dsimp only
  split
  · split
    · generalize hm : ({ cur with
        verified := cur.verified || src.firstHand st, txLeft := s.piggybackCount } : Member) = m
      have hkept : m.status = cur.status ∧ m.incarnation = cur.incarnation ∧ m.leaseExpiredInc = cur.leaseExpiredInc ∧
          m.verified = (cur.verified || src.firstHand st) ∧ m.txLeft = s.piggybackCount := by
        rw [← hm]
        exact ⟨rfl, rfl, rfl, rfl, rfl⟩
      obtain ⟨hstatus, hinc, hlapsed, hverified, hsent⟩ := hkept
      have htomb : m.record.tomb = cur.record.tomb := congrArg MemberStatus.isTomb hstatus
      refine .plain (altered_edits ?_ hother hcur (fun hv => by rw [hverified, hv, Bool.true_or])
        (UInt64.le_of_eq hinc.symm) hlapsed (fun ht => .inl (htomb.symm.trans ht)) fun _ _ => ?_)
      · rw [Ledger.alter_alive htomb, ← ledger_put, show m.record.tx = s.piggybackCount from hsent]
        rfl
      · rw [hstatus]
        exact (em _).imp_right .inl
    · exact .same rfl
  · next next hnext =>
    generalize hm : s.takenMember cfg { cur with verified := cur.verified || src.firstHand st }
      (!cur.verified && src.firstHand st) inc next src now = m
    generalize hs₁ : ({ s.put node m with
      txPending := txPendingAfter s.txPending cur.txLeft m.txLeft
      tombCount := if !cur.status.isTomb && next.isTomb then s.tombCount + 1
        else if cur.status.isTomb && !next.isTomb then s.tombCount - 1 else s.tombCount } : SwimMembership) = s₁
    have htaken : m.status = next ∧ m.incarnation = inc ∧ m.leaseExpiredInc = cur.leaseExpiredInc ∧
        m.verified = (cur.verified || src.firstHand st) := by
      rw [← hm]
      exact ⟨rfl, rfl, rfl, rfl⟩
    obtain ⟨hstatus, hinc, hlapsed, hverified⟩ := htaken
    have haltered : s₁.ledger = s.ledger.alter node cur.record m.record := by
      rw [← hs₁, Ledger.alter, ← ledger_put, show m.record.tomb = next.isTomb from congrArg _ hstatus]
      rfl
    generalize hs₂ : (if cur.status.isTomb = next.isTomb then s₁ else s₁.republish) = s₂
    generalize hs₃ : (if !cur.verified && src.firstHand st then s₂.republish else s₂) = s₃
    have hlisted : s₃.ledger = s.ledger.alter node cur.record m.record := by
      rw [← haltered, ← hs₃, ← hs₂]
      split <;> split <;> rfl
    refine .cap (altered_edits hlisted hother hcur (fun hv => by rw [hverified, hv, Bool.true_or]) ?_ hlapsed
      (fun ht => .inr (hbury ?_)) fun hlive hplain => ?_)
    · rw [hinc]
      exact (nextStatus_precedence hnext).1
    · have htomb : next.isTomb = true := hstatus ▸ ht
      cases next with
      | alive => cases htomb
      | suspect => cases htomb
      | dead => rw [((nextStatus_precedence hnext).2.1 rfl).1]; rfl
      | left => rw [(nextStatus_precedence hnext).2.2.1 rfl]; rfl
    · cases next with
      | alive => exact .inl hstatus
      | suspect =>
        obtain hdead | hst | ⟨hst, hsrc⟩ := nextStatus_suspect hnext
        · exact .inr (.inl (by simp [hdead]))
        · by_cases hsrc : src = .here
          · exact .inr (.inr (.inr (hdoubt hst hsrc)))
          · exact .inr (.inr (.inl (lease_of_unsuppressed hplain hsuppressed (.inl hst) hsrc)))
        · exact .inr (.inr (.inl (lease_of_unsuppressed hplain hsuppressed (.inr hst) hsrc)))
      | dead => rw [Record.tomb, show m.record.status = .dead from hstatus] at hlive; cases hlive
      | left => rw [Record.tomb, show m.record.status = .left from hstatus] at hlive; cases hlive

/-- What an update may do. -/
structure Accuses (may : Act → Prop) (s : SwimMembership) (node : NodeId) (inc : UInt64)
    (st : MemberStatus) (src : Src) : Prop where
  refute : node = s.self_ → st = .suspect ∨ st = .dead → may (.refute inc)
  bury : st.isTomb = true → may .bury
  doubt : node ≠ s.self_ → st = .suspect → src = .here → may (.doubt node)

theorem applyUpdate_cases (cfg : Config) (s : SwimMembership) (node : NodeId) (inc : UInt64)
    (st : MemberStatus) (src : Src)
    (now : Int) : s.applyUpdate cfg node inc st src now = s ∨
    (node = s.self_ ∧ s.applyUpdate cfg node inc st src now = s.refute inc st) ∨
    (node ≠ s.self_ ∧ s.members.lookup node = none ∧
      s.applyUpdate cfg node inc st src now = s.createMember cfg node inc st src now) ∨
    ∃ cur, node ≠ s.self_ ∧ s.members.lookup node = some cur ∧ s.suppressed cfg node inc st src = false ∧
      s.applyUpdate cfg node inc st src now = s.mergeMember cfg node cur inc st src now := by
  unfold applyUpdate
  split_ifs with hclient hdenied hself hsuppressed
  · exact .inl rfl
  · exact .inl rfl
  · exact .inr (.inl ⟨hself, rfl⟩)
  · exact .inl rfl
  · cases hlookup : s.members.lookup node with
    | none => exact .inr (.inr (.inl ⟨hself, rfl, rfl⟩))
    | some cur => exact .inr (.inr (.inr ⟨cur, hself, rfl, Bool.eq_false_of_not_eq_true hsuppressed, rfl⟩))

theorem applyUpdate_known (hcur : s.members.lookup node = some cur) (hmay : Accuses may s node inc st src) :
    Capped cfg (Edits cfg) may s (s.applyUpdate cfg node inc st src now) := by
  obtain hsame | ⟨hself, hrefuted⟩ | ⟨-, hnew, -⟩ | ⟨c, hother, hc, hsuppressed, hmerged⟩ :=
    applyUpdate_cases cfg s node inc st src now
  · rw [hsame]
    exact .same rfl
  · rw [hrefuted]
    exact refute_capped (hmay.refute hself)
  · rw [hcur] at hnew
    cases hnew
  · rw [hmerged]
    exact mergeMember_capped hother hc hmay.bury hsuppressed (hmay.doubt hother)

theorem applyUpdate_capped (hmay : Accuses may s node inc st src) :
    Capped cfg (Effect cfg) may s (s.applyUpdate cfg node inc st src now) := by
  cases hlookup : s.members.lookup node with
  | some cur => exact (applyUpdate_known hlookup hmay).effect
  | none =>
    obtain hsame | ⟨hself, hrefuted⟩ | ⟨hother, -, hcreated⟩ | ⟨c, -, hc, -⟩ :=
      applyUpdate_cases cfg s node inc st src now
    · rw [hsame]
      exact (Capped.same rfl).effect
    · rw [hrefuted]
      exact (refute_capped (hmay.refute hself)).effect
    · rw [hcreated]
      exact createMember_capped hother hlookup hmay.bury
    · rw [hlookup] at hc
      cases hc

theorem evict_capped (hself : node = s.self_ → may (.refute (s.incarnationOf node))) (hbury : may .bury) :
    Capped cfg (Effect cfg) may s (s.evict cfg node now) := by
  have happlied : Capped cfg (Effect cfg) may { s with evicting := true }
      ({ s with evicting := true }.applyUpdate cfg node (s.incarnationOf node) .dead .here now) :=
    applyUpdate_capped ⟨fun hn _ => hself hn, fun _ => hbury, nofun⟩
  cases happlied with
  | plain h => exact .plain h
  | capped h hcap => exact .capped h hcap

theorem entry_foldl {f : Ledger → Entry → Ledger} {g : Member → Option Record}
    (hf : ∀ l e, (f l e).entry = update l.entry e.1 (g e.2)) {es : List Entry} (hes : es.NodupKeys) :
    (es.foldl f l).entry id = match es.dlookup id with
      | some m => g m
      | none => l.entry id := by
  induction es generalizing l with
  | nil => rfl
  | cons e es ih =>
    obtain ⟨hnew, hrest⟩ := nodupKeys_cons.mp hes
    rw [foldl_cons, ih hrest, hf]
    by_cases hid : id = e.1
    · rw [hid, dlookup_eq_none.mpr hnew, update_self, show (e :: es).dlookup e.1 = some e.2 from
        dlookup_cons_eq es e.1 e.2]
    · rw [update_of_ne hid, show (e :: es).dlookup id = es.dlookup id from dlookup_cons_ne es e hid]

theorem edits_foldl {f : Ledger → Entry → Ledger} {g : Member → Option Record} {K : Ledger → Prop}
    (hf : ∀ l e, (f l e).entry = update l.entry e.1 (g e.2)) {es : List Entry} (hes : es.NodupKeys)
    (hedit : ∀ l, K l → ∀ e ∈ es, l.entry e.1 = some e.2.record → Edit cfg may l (f l e) ∧ K (f l e))
    (hl : K l) (hentry : ∀ e ∈ es, l.entry e.1 = some e.2.record) : Edits cfg may l (es.foldl f l) := by
  induction es generalizing l with
  | nil => exact .refl
  | cons e es ih =>
    obtain ⟨hnew, hrest⟩ := nodupKeys_cons.mp hes
    obtain ⟨hfirst, hkept⟩ := hedit l hl e mem_cons_self (hentry e mem_cons_self)
    refine .head hfirst (ih hrest (fun l hl e he => hedit l hl e (mem_cons_of_mem _ he)) hkept fun e' he' => ?_)
    have hne : e'.1 ≠ e.1 := fun heq => hnew (heq ▸ mem_keys_of_mem he')
    rw [hf, update_of_ne hne]
    exact hentry e' (mem_cons_of_mem _ he')

theorem sub_ofNat_succ (n : UInt32) (k : Nat) : n - 1 - UInt32.ofNat k = n - UInt32.ofNat (k + 1) := by
  rw [UInt32.ofNat_add]
  grind

theorem add_ofNat_succ (n : UInt32) (k : Nat) : n + 1 + UInt32.ofNat k = n + UInt32.ofNat (k + 1) := by
  rw [UInt32.ofNat_add]
  grind

section Reapers

def SwimMembership.selected (s : SwimMembership) (p : NodeId → Member → Bool) : List Entry :=
  s.members.entries.filter fun e => p e.1 e.2

def evictEntry (l : Ledger) (e : Entry) : Ledger := l.evict e.1 e.2.record

def dropEntry (l : Ledger) (e : Entry) : Ledger := l.drop e.1

def killEntry (s : SwimMembership) (now : Int) (l : Ledger) (e : Entry) : Ledger :=
  l.alter e.1 e.2.record (s.killed e.2 now).record

theorem foldl_evictEntry (es : List Entry) (l : Ledger) : es.foldl evictEntry l =
    { l with
      entry := (es.foldl evictEntry l).entry
      txPending := l.txPending - UInt32.ofNat (es.filter fun e => e.2.txLeft != 0).length
      tombCount := l.tombCount - UInt32.ofNat es.length
      dirty := l.dirty || !es.isEmpty } := by
  induction es generalizing l with
  | nil => simp
  | cons e es ih =>
    rw [foldl_cons, ih]
    simp only [evictEntry, Ledger.evict, Ledger.set, Bool.true_or, isEmpty_cons, Bool.not_false, Bool.or_true,
      length_cons, sub_ofNat_succ]
    congr 1
    by_cases htx : e.2.txLeft = 0
    · rw [if_neg (not_not.mpr (show e.2.record.tx = 0 from htx)), filter_cons_of_neg (by simp [htx])]
    · rw [if_pos (show e.2.record.tx ≠ 0 from htx), filter_cons_of_pos (by simp [htx]), length_cons,
        sub_ofNat_succ]

theorem foldl_dropEntry (es : List Entry) (l : Ledger) : es.foldl dropEntry l =
    { l with entry := (es.foldl dropEntry l).entry, dirty := l.dirty || !es.isEmpty } := by
  induction es generalizing l with
  | nil => simp
  | cons e es ih =>
    rw [foldl_cons, ih]
    simp [dropEntry, Ledger.drop, Ledger.set]

theorem entry_eraseIf {f : Ledger → Entry → Ledger} {p : NodeId → Member → Bool}
    (hf : ∀ l e, (f l e).entry = update l.entry e.1 none) :
    ({ s with members := Table.eraseIf p s.members } : SwimMembership).ledger.entry =
      ((s.selected p).foldl f s.ledger).entry := by
  funext id
  change ((Table.eraseIf p s.members).lookup id).map Member.record = _
  rw [selected, entry_foldl (g := fun _ => none) hf (s.members.nodupKeys.sublist filter_sublist),
    Table.dlookup_filter, Table.lookup_eraseIf]
  cases hlookup : s.members.lookup id with
  | none => exact (ledger_entry_none hlookup).symm
  | some m =>
    rw [ledger_entry hlookup]
    cases hgone : p id m with
    | true => simp [Option.filter, hgone]
    | false => simp [Option.filter, hgone]

theorem mem_selected {p : NodeId → Member → Bool} {e : Entry}
    (he : e ∈ s.selected p) : s.members.lookup e.1 = some e.2 ∧ p e.1 e.2 = true := by
  obtain ⟨hin, hp⟩ := mem_filter.mp he
  exact ⟨Table.mem_entries_iff.mp hin, hp⟩

theorem erase_edits {f : Ledger → Entry → Ledger} {p : NodeId → Member → Bool}
    (hf : ∀ l e, (f l e).entry = update l.entry e.1 none) (hme : ∀ l e, (f l e).me = l.me)
    (hedit : ∀ l, l.me = s.self_ → ∀ e ∈ s.selected p, p e.1 e.2 = true →
      l.entry e.1 = some e.2.record → Edit cfg may l (f l e)) :
    Edits cfg may s.ledger ((s.selected p).foldl f s.ledger) := by
  refine edits_foldl (g := fun _ => none) (K := fun l => l.me = s.self_) hf
    (s.members.nodupKeys.sublist filter_sublist) ?_ rfl ?_
  · exact fun l hl e he hentry => ⟨hedit l hl e he (mem_selected he).2 hentry, (hme l e).trans hl⟩
  · exact fun e he => ledger_entry (mem_selected he).1

/-- The tombstones that `reap_tombstones` erases. -/
def SwimMembership.outlived (cfg : Config) (s : SwimMembership) (now : Int) (id : NodeId) (m : Member) : Bool :=
  id != s.self_ && m.status.isTomb && decide (cfg.tombstoneTtl ≤ now - m.death)

def SwimMembership.silent (cfg : Config) (s : SwimMembership) (now : Int) (id : NodeId) (m : Member) : Bool :=
  id != s.self_ && !m.verified && !m.status.isTomb && decide (cfg.unverifiedTtl ≤ now - m.firstSeen)

theorem reapTombstones_eq : s.reapTombstones cfg now =
    if s.tombCount = 0 ∨ s.selected (s.outlived cfg now) = [] then s
    else { s with
      members := Table.eraseIf (s.outlived cfg now) s.members
      txPending := s.txPending - UInt32.ofNat ((s.selected (s.outlived cfg now)).filter fun e =>
        e.2.txLeft != 0).length
      tombCount := s.tombCount - UInt32.ofNat (s.selected (s.outlived cfg now)).length
      idsDirty := true } := rfl

theorem reapTombstones_edits : Edits cfg may s.ledger (s.reapTombstones cfg now).ledger := by
  rw [reapTombstones_eq]
  split
  · exact .refl
  · next hgone =>
    have hedits : Edits cfg may s.ledger ((s.selected (s.outlived cfg now)).foldl evictEntry s.ledger) := by
      refine erase_edits (fun _ _ => rfl) (fun _ _ => rfl) fun l hl e _ hp hentry => ?_
      simp only [outlived, Bool.and_eq_true, bne_iff_ne] at hp
      exact .evict (by rw [hl]; exact hp.1.1) hentry hp.1.2
    have hsome : (s.selected (s.outlived cfg now)).isEmpty = false := by
      simpa using fun hnone => hgone (.inr hnone)
    rw [foldl_evictEntry, hsome, Bool.not_false, Bool.or_true, ← entry_eraseIf fun _ _ => rfl] at hedits
    exact hedits

theorem reapUnverified_eq : s.reapUnverified cfg now =
    if cfg.unverifiedTtl ≤ 0 ∨ s.selected (s.silent cfg now) = [] then s
    else { s with members := Table.eraseIf (s.silent cfg now) s.members, idsDirty := true }.republish := rfl

theorem reapUnverified_edits
    (hmay : 0 < cfg.unverifiedTtl → ∀ e ∈ s.selected (s.silent cfg now), may (.drop e.2.txLeft)) :
    Edits cfg may s.ledger (s.reapUnverified cfg now).ledger := by
  rw [reapUnverified_eq]
  split
  · exact .refl
  · next hgone =>
    have hreaps : 0 < cfg.unverifiedTtl := Int.not_le.mp fun hoff => hgone (.inl hoff)
    have hedits : Edits cfg may s.ledger ((s.selected (s.silent cfg now)).foldl dropEntry s.ledger) := by
      refine erase_edits (fun _ _ => rfl) (fun _ _ => rfl) fun l hl e he hp hentry => ?_
      simp only [silent, Bool.and_eq_true, bne_iff_ne, Bool.not_eq_true'] at hp
      exact .drop (by rw [hl]; exact hp.1.1.1) hentry hp.1.1.2 hp.1.2 (hmay hreaps e he)
    have hsome : (s.selected (s.silent cfg now)).isEmpty = false := by
      simpa using fun hnone => hgone (.inr hnone)
    rw [foldl_dropEntry, hsome, Bool.not_false, Bool.or_true, ← entry_eraseIf fun _ _ => rfl] at hedits
    exact hedits

theorem foldl_killEntry (es : List Entry) (l : Ledger) (hes : ∀ e ∈ es, e.2.status = .suspect) :
    es.foldl (killEntry s now) l =
      { l with
        entry := (es.foldl (killEntry s now) l).entry
        txPending := es.foldl (fun n e => txPendingAfter n e.2.txLeft s.piggybackCount) l.txPending
        tombCount := l.tombCount + UInt32.ofNat es.length } := by
  induction es generalizing l with
  | nil => simp
  | cons e es ih =>
    have hbury : ((!e.2.record.tomb && (s.killed e.2 now).record.tomb) = true) := by
      rw [Record.tomb, show e.2.record.status = .suspect from hes e mem_cons_self]
      rfl
    rw [foldl_cons, foldl_cons, ih _ fun e he => hes e (mem_cons_of_mem _ he)]
    simp only [killEntry, Ledger.alter, Ledger.set, hbury, if_true, length_cons, add_ofNat_succ]
    rfl

theorem killSuspects_edits (hown : s.doubted = false) (hbury : may .bury) : Edits cfg may s.ledger
    (s.killSuspects cfg now).ledger := by
  have hlapsed : ∀ e ∈ s.selected (s.lapsed cfg now), s.lapsed cfg now e.1 e.2 = true ∧
      s.ledger.entry e.1 = some e.2.record ∧ e.2.status = .suspect ∧ e.1 ≠ s.self_ := by
    intro e he
    obtain ⟨hlookup, hp⟩ := mem_selected he
    have hsuspect : e.2.status = .suspect := by
      simp only [lapsed, Bool.and_eq_true, beq_iff_eq] at hp
      exact hp.1.1
    refine ⟨hp, ledger_entry hlookup, hsuspect, fun hself => ?_⟩
    rw [doubted, ← hself, hlookup, any_some, hsuspect] at hown
    cases hown
  have hentry : (s.killSuspects cfg now).ledger.entry =
      ((s.selected (s.lapsed cfg now)).foldl (killEntry s now) s.ledger).entry := by
    funext id
    change ((Table.mapVals _ s.members).lookup id).map Member.record = _
    rw [selected, entry_foldl (g := fun m => some (s.killed m now).record) (fun _ _ => rfl)
      (s.members.nodupKeys.sublist filter_sublist), Table.dlookup_filter, Table.lookup_mapVals]
    cases hlookup : s.members.lookup id with
    | none => exact (ledger_entry_none hlookup).symm
    | some m =>
      rw [ledger_entry hlookup]
      cases hdies : s.lapsed cfg now id m with
      | true => simp [Option.filter, hdies]
      | false => simp [Option.filter, hdies]
  have hedits : Edits cfg may s.ledger ((s.selected (s.lapsed cfg now)).foldl (killEntry s now) s.ledger) := by
    refine edits_foldl (g := fun m => some (s.killed m now).record)
      (K := fun l => l.me = s.self_ ∧ l.lease = s.ledger.lease) (fun _ _ => rfl)
      (s.members.nodupKeys.sublist filter_sublist) (fun l hl e he hcur => ⟨?_, hl⟩) ⟨rfl, rfl⟩
      fun e he => (hlapsed e he).2.1
    obtain ⟨hdies, -, -, hother⟩ := hlapsed e he
    refine .alter (by rw [hl.1]; exact hother) hcur id (UInt64.le_refl _) rfl (fun _ => .inr hbury) fun hplain => ?_
    rw [lapsed, hplain] at hdies
    have hfree : s.leases.lookup e.1 = none := by simpa using (Bool.and_eq_true_iff.mp hdies).2
    rw [hl.2]
    exact .inr (.inr (.inl hfree))
  rw [foldl_killEntry _ _ fun e he => (hlapsed e he).2.2.1, ← hentry] at hedits
  exact hedits

theorem noteDied_edits : Edits cfg may s.ledger (s.noteDied cfg id).ledger := by
  unfold noteDied
  split
  · exact .refl
  · next m hm => exact noteTransition_edits (ledger_entry hm)

theorem reapSuspects_capped (hown : s.doubted = false) (hbury : may .bury) :
    Capped cfg (Edits cfg) may s (s.reapSuspects cfg now) := by
  unfold reapSuspects
  dsimp only
  generalize hs₁ : (if s.died cfg now = [] then s.killSuspects cfg now else (s.killSuspects cfg now).republish) = s₁
  have hkilled : Edits cfg may s.ledger s₁.ledger := by
    have hedits : Edits cfg may s.ledger (s.killSuspects cfg now).ledger := killSuspects_edits hown hbury
    rw [← hs₁]
    split
    · exact hedits
    · exact hedits
  exact .cap (hkilled.trans (Edits.foldl (g := ledger) fun _ _ _ => noteDied_edits))

end Reapers

section Leases

theorem leaveSelf_edits (hmay : may (.depart s.ledger.mine.incarnation)) : Edits cfg may s.ledger
    (s.leaveSelf cfg).ledger := by
  unfold leaveSelf
  have hdeparted : s.departed.record =
      { s.ledger.mine with incarnation := s.ledger.mine.incarnation + kLeftBand, status := .left } := by
    rw [ledger_mine]
    rfl
  generalize hs₁ : ({ s.put s.self_ s.departed with
    selfIncarnation := s.departed.incarnation, selfLeft := true } : SwimMembership) = s₁
  have hleft : s₁.ledger =
      { s.ledger.own (s.ledger.mine.incarnation + kLeftBand) .left with left := true } := by
    rw [← hs₁, Ledger.own, ← hdeparted, ← ledger_put,
      show s.ledger.mine.incarnation + kLeftBand = s.departed.incarnation from
      (congrArg Record.incarnation hdeparted).symm]
    rfl
  have hentry : s₁.republish.ledger.entry s.self_ = some s.departed.record := by
    change s₁.ledger.entry s.self_ = _
    rw [hleft, hdeparted]
    exact update_self ..
  refine .head (.depart rfl hmay) ?_
  rw [← hleft]
  exact noteTransition_edits (s := s₁.republish) hentry

theorem clearLeaseOnProofOfLife_edits : Edits cfg may s.ledger (s.clearLeaseOnProofOfLife node).ledger := by
  have hfreed : Edits cfg may s.ledger ({ s with leases := s.leases.erase node } : SwimMembership).ledger := by
    rw [ledger_unlease]
    exact .single .free
  unfold clearLeaseOnProofOfLife
  dsimp only
  split
  · exact .refl
  · split
    · exact hfreed
    · split
      · exact hfreed
      · rw [ledger_pushEvent]
        exact hfreed

theorem onLeasedPeerSpoke_edits {msg : ControlMsg} : Edits cfg may s.ledger (s.onLeasedPeerSpoke msg).ledger := by
  have hfreed : Edits cfg may s.ledger ({ s with leases := s.leases.erase msg.from_ } : SwimMembership).ledger := by
    rw [ledger_unlease]
    exact .single .free
  unfold onLeasedPeerSpoke
  dsimp only
  split
  · exact .refl
  · split
    · exact .refl
    · split
      · exact hfreed
      · rw [ledger_pushEvent]
        exact hfreed

theorem dropProbeOf_ledger : (s.dropProbeOf node).ledger = s.ledger := by
  unfold dropProbeOf
  split <;> rfl

theorem unsuspect_ledger (hlive : cur.status.isTomb = false) (hcur : s.members.lookup node = some cur) :
    (s.unsuspect cfg node cur).ledger = s.ledger.alter node cur.record (s.unsuspected cur).record := by
  unfold unsuspect
  split
  · next hsuspect =>
    have halive : (s.unsuspected cur).record.tomb = false := by
      rw [unsuspected, if_pos hsuspect]
      rfl
    have htomb : (s.unsuspected cur).record.tomb = cur.record.tomb := halive.trans hlive.symm
    generalize hs₁ : ({ s.put node (s.unsuspected cur) with
      txPending := txPendingAfter s.txPending cur.txLeft (s.unsuspected cur).txLeft } : SwimMembership) = s₁
    have haltered : s₁.ledger = s.ledger.alter node cur.record (s.unsuspected cur).record := by
      rw [← hs₁, Ledger.alter_alive htomb, ← ledger_put]
      rfl
    rw [ledger_noteTransition (by rw [haltered]; exact update_self ..), haltered, halive]
    exact if_neg fun hc => Bool.false_ne_true hc.1
  · next hsure =>
    rw [unsuspected, if_neg hsure, Ledger.alter_alive rfl, txPendingAfter_same,
      Ledger.set_same (ledger_entry hcur)]

theorem grant_spec {lease : Int} {reason : UInt64} {leases : Table NodeId Lease}
    (h : s.grant cfg node inc lease reason now = some leases) :
    ∃ held : Lease, leases = s.leases.insert node held ∧ held.incarnation = inc ∧
      held.until_ ≤ now + cfg.mobile.maxLease ∧
      ((s.leases.lookup node).isSome = true ∨ s.leases.size < cfg.mobile.maxSuspended) := by
  unfold grant at h
  split at h
  · cases h
  · split at h
    · cases h
    · next hroom =>
      cases h
      refine ⟨_, rfl, rfl, Int.add_le_add_left (Int.min_le_right _ _) _, ?_⟩
      by_cases hheld : (s.leases.lookup node).isSome = true
      · exact .inl hheld
      · exact .inr (Nat.lt_of_not_le fun hfull => hroom ⟨by simpa using hheld, hfull⟩)

theorem ledger_grant {held : Lease} : ({ s with leases := s.leases.insert node held } : SwimMembership).ledger =
    s.ledger.setLease node (some held) := by
  unfold ledger Ledger.setLease
  congr 1
  funext id
  by_cases hid : id = node
  · rw [hid, AList.lookup_insert, update_self]
  · rw [AList.lookup_insert_ne hid, update_of_ne hid]

theorem census_leases : Census.census (fun h : Option Lease => h.isSome = true) s.ledger.lease = s.leases.size :=
  (Table.census_lookup (by simp)).trans (by simp [Table.size])

theorem unsuspected_record (hlive : cur.status.isTomb = false) :
    (s.unsuspected cur).record = { cur.record with status := .alive, tx := (s.unsuspected cur).txLeft } := by
  unfold unsuspected
  split
  · rfl
  · next hsure =>
    have halive : cur.status = .alive := by
      cases hstatus : cur.status with
      | alive => rfl
      | suspect => exact absurd hstatus hsure
      | dead => rw [hstatus] at hlive; cases hlive
      | left => rw [hstatus] at hlive; cases hlive
    rw [← halive]
    rfl

theorem holdLease_edits {held : Lease} (hother : node ≠ s.self_) (hcur : s.members.lookup node = some cur)
    (hlive : cur.status.isTomb = false) (hverified : cur.verified = true)
    (hlapsed : cur.leaseExpiredInc = 0 ∨ cur.leaseExpiredInc < held.incarnation)
    (hroom : (s.leases.lookup node).isSome = true ∨ s.leases.size < cfg.mobile.maxSuspended)
    (hmay : may (.lease node cur.incarnation held)) :
    Edits cfg may s.ledger (s.holdLease cfg node cur (s.leases.insert node held)).ledger := by
  have hledger : ({ s with leases := s.leases.insert node held }.unsuspect cfg node cur).ledger =
      (s.ledger.alter node cur.record (s.unsuspected cur).record).setLease node (some held) := by
    refine (unsuspect_ledger (s := { s with leases := s.leases.insert node held }) hlive hcur).trans ?_
    rw [ledger_grant]
    rfl
  have hsure : Edit cfg may s.ledger (s.ledger.alter node cur.record (s.unsuspected cur).record) := by
    rw [unsuspected_record hlive]
    exact .alter hother (ledger_entry hcur) id (UInt64.le_refl _) rfl nofun fun _ => .inl rfl
  have hheld : Edit cfg may (s.ledger.alter node cur.record (s.unsuspected cur).record)
      ((s.ledger.alter node cur.record (s.unsuspected cur).record).setLease node (some held)) := by
    rw [unsuspected_record hlive]
    exact .lease hother (update_self ..) rfl hverified (hroom.imp isSome_iff_ne_none.mp
      census_leases.trans_lt) hlapsed hmay
  have hedits : Edits cfg may s.ledger
      ({ s with leases := s.leases.insert node held }.unsuspect cfg node cur).ledger := by
    rw [hledger]
    exact .head hsure (.single hheld)
  unfold holdLease
  dsimp only
  split
  · rw [dropProbeOf_ledger]
    exact hedits
  · rw [ledger_pushEvent, dropProbeOf_ledger]
    exact hedits

/-- What a `Suspend` frame may be granted. -/
def Grants (cfg : Config) (may : Act → Prop) (s : SwimMembership) (msg : ControlMsg) (now : Int) : Prop :=
  ∀ cur held, s.members.lookup msg.from_ = some cur → cur.incarnation ≤ msg.fromIncarnation →
    held.incarnation = msg.fromIncarnation → held.until_ ≤ now + cfg.mobile.maxLease →
    may (.lease msg.from_ cur.incarnation held)

theorem onSuspendAnnounced_edits {msg : ControlMsg} (hmay : Grants cfg may s msg now) :
    Edits cfg may s.ledger (s.onSuspendAnnounced cfg msg now).ledger := by
  unfold onSuspendAnnounced
  split
  · exact .refl
  · next cur hcur =>
    split_ifs with hself hunfit hstale hlapsed
    · exact .refl
    · exact .refl
    · exact .refl
    · exact .refl
    · split
      · exact .refl
      · next leases hgrant =>
        obtain ⟨held, rfl, hinc, huntil, hroom⟩ := grant_spec hgrant
        have hlive : cur.status.isTomb = false := by simpa using fun ht => hunfit (.inl ht)
        have hverified : cur.verified = true := by simpa using fun hv => hunfit (.inr hv)
        have hforward : cur.incarnation ≤ msg.fromIncarnation := UInt64.not_lt.mp hstale
        refine holdLease_edits hself hcur hlive hverified ?_ hroom (hmay cur held hcur hforward hinc huntil)
        rw [hinc]
        exact or_iff_not_imp_left.mpr fun hmarked => UInt64.not_le.mp fun hle => hlapsed ⟨hmarked, hle⟩

theorem ledger_mark : (s.put node { m with leaseExpiredInc := m.incarnation }).ledger =
    s.ledger.alter node m.record { m.record with lapsed := m.record.incarnation } := by
  have htomb : ({ m.record with lapsed := m.record.incarnation } : Record).tomb = m.record.tomb := rfl
  rw [ledger_put, Ledger.alter_alive htomb, txPendingAfter_same]
  rfl

theorem lapseLease_capped (hmay : Accuses may s node (s.incarnationOf node) .suspect .here)
    (hlapse : may (.lapse node)) : Capped cfg (Edits cfg) may s (s.lapseLease cfg node now) := by
  unfold lapseLease
  split
  · exact .same rfl
  · next m hm =>
    split
    · exact .same rfl
    · next hlive =>
      generalize hs₁ : s.put node { m with leaseExpiredInc := m.incarnation } = s₁
      have hledger : s₁.ledger = s.ledger.alter node m.record { m.record with lapsed := m.record.incarnation } := by
        rw [← hs₁]
        exact ledger_mark
      have hmarked : Edits cfg (fun a => may a ∧ a ≠ .bury) s.ledger s₁.ledger := by
        rw [hledger]
        exact .single (.lapse (ledger_entry hm) (Bool.eq_false_of_not_eq_true hlive) ⟨hlapse, nofun⟩)
      have hinc : s.incarnationOf node = m.incarnation := by rw [incarnationOf, hm]; rfl
      have hself : s₁.self_ = s.self_ := by rw [← hs₁]; rfl
      refine .after hmarked (applyUpdate_known (by rw [← hs₁]; exact AList.lookup_insert _) ?_)
      rw [hinc] at hmay
      exact ⟨fun hn => hmay.refute (hn.trans hself), hmay.bury,
        fun hn => hmay.doubt fun hs => hn (hs.trans hself.symm)⟩

end Leases

end Quark.Swim
