import Quark.SwimEdits
import Quark.SwimTasks

/-! Which edits of the books each task of a `SwimMembership` makes. -/
namespace Quark.Swim

open SwimMembership

/-- The acts of a task. -/
inductive Task.May (cfg : Config) (s : SwimMembership) : Task → Act → Prop
  | depart : May cfg s (.enter (.leave s.self_)) (.depart s.ledger.mine.incarnation)
  | adopt {m : ControlMsg} {now : Int} (hkind : m.kind = .joinAck) (hsubject : m.subject = s.self_) :
      May cfg s (.answer m now) (.adopt m.subjectIncarnation)
  | rejoin : May cfg s .rejoin (.rejoin s.selfIncarnation)
  | refute {inc : UInt64} {st : MemberStatus} {src : Src} {now : Int} (haccused : st = .suspect ∨ st = .dead) :
      May cfg s (.apply s.self_ inc st src now) (.refute inc)
  | refuteEviction : May cfg s (.evictOne s.self_) (.refute (s.incarnationOf s.self_))
  | refuteLapse {now : Int} : May cfg s (.lapseLease s.self_ now) (.refute (s.incarnationOf s.self_))
  | bury {node : NodeId} {inc : UInt64} {st : MemberStatus} {src : Src} {now : Int} (htomb : st.isTomb = true) :
      May cfg s (.apply node inc st src now) .bury
  | buryEvicted {node : NodeId} : May cfg s (.evictOne node) .bury
  | buryDied {now : Int} : May cfg s (.reapSuspects now) .bury
  | doubt {node : NodeId} {inc : UInt64} {now : Int} : May cfg s (.apply node inc .suspect .here now) (.doubt node)
  | doubtLapsed {id : NodeId} {now : Int} : May cfg s (.lapseLease id now) (.doubt id)
  | drop {now : Int} {e : Entry} (hreaps : 0 < cfg.unverifiedTtl) (he : e ∈ s.selected (s.silent cfg now)) :
      May cfg s (.reapUnverified now) (.drop e.2.txLeft)
  | lease {m : ControlMsg} {now : Int} {cur : Member} {held : Lease} (hkind : m.kind = .suspend)
      (hcur : s.members.lookup m.from_ = some cur) (hforward : cur.incarnation ≤ m.fromIncarnation)
      (hinc : held.incarnation = m.fromIncarnation) (huntil : held.until_ ≤ now + cfg.mobile.maxLease) :
      May cfg s (.answer m now) (.lease m.from_ cur.incarnation held)
  | expire {now : Int} : May cfg s (.expireLeases now) (.expire now)
  | lapse {id : NodeId} {now : Int} : May cfg s (.lapseLease id now) (.lapse id)
  | send {to_ : NodeId} {m : ControlMsg} : May cfg s (.send to_ m) .send

variable {cfg : Config} {env : Env} {may : Act → Prop} {s s' : SwimMembership} {node id : NodeId} {m cur : Member}
variable {l l' : Ledger} {t : Task} {msg : ControlMsg} {now : Int}

section Aside

theorem ledger_forgive : (s.forgiveLocalState cfg now).ledger = s.ledger := by
  unfold forgiveLocalState
  exact ledger_mapVals (s := { s with probe := {} }) fun id m => by split <;> rfl

theorem ledger_markProbed {targets : List NodeId} : (s.markProbed targets now).ledger = s.ledger := by
  unfold markProbed
  exact ledger_mapVals fun id m => by split <;> rfl

theorem ledger_takeVerifies : (s.takeVerifies cfg).1.ledger = s.ledger := by
  unfold takeVerifies
  refine List.foldlRecOn (motive := fun acc : SwimMembership × List NodeId => acc.1.ledger = s.ledger) _ _ rfl
    fun acc hacc e he => ?_
  dsimp only
  split
  · exact hacc
  · have hentry : acc.1.ledger.entry e.1 = some e.2.record := by
      rw [hacc]
      exact ledger_entry (Table.mem_entries_iff.mp he)
    exact (ledger_put_same (m := { e.2 with verifyPending := false }) hentry).trans hacc

theorem ledger_inWindow : (s.inWindow msg).ledger = s.ledger := by
  unfold inWindow
  dsimp only
  split
  · rfl
  · next cur hcur => exact ledger_put_kept hcur rfl

theorem ledger_heardDirectly : (s.heardDirectly msg now).swim.ledger = s.ledger := by
  unfold heardDirectly
  split
  · rfl
  · next cur hcur =>
    split at hcur
    · cases hcur
    · exact ledger_put_kept hcur rfl

theorem ledger_absorb : (s.absorb msg now).swim.ledger = s.ledger := by
  unfold absorb
  dsimp only
  rw [ledger_heardDirectly]
  split
  · rfl
  · exact ledger_inWindow

theorem ledger_refuse {ver : UInt8} {why : RefusalReason} {byPeer : Bool} :
    (s.refuse cfg node ver why byPeer).ledger = s.ledger := by
  unfold refuse
  dsimp only
  split_ifs <;> rfl

theorem ledger_admitControl : (s.admitControl cfg node now).2.ledger = s.ledger := by
  unfold admitControl
  split <;> rfl

theorem ledger_ackProbe {seq : UInt64} : (s.ackProbe node seq).ledger = s.ledger := by
  unfold ackProbe
  split <;> rfl

theorem ledger_nextProbeTarget : (s.nextProbeTarget cfg).2.ledger = s.ledger := by
  unfold nextProbeTarget reorder
  dsimp only
  split_ifs <;> split <;> try split
  all_goals rfl

end Aside

section Digest

theorem adopt_edits (hmay : msg.subject = s.self_ → may (.adopt msg.subjectIncarnation)) :
    Edits cfg may s.ledger (s.adopt msg).ledger := by
  unfold adopt
  split
  · next hours => exact own_edits (by rw [ledger_mine]; rfl) (.adopt (hmay hours.1) hours.2.1 hours.2.2)
  · exact .refl

theorem rejoin_edits (hmay : may (.rejoin s.selfIncarnation)) : Edits cfg may s.ledger
    (s.rejoin cfg now).swim.ledger := by
  unfold rejoin
  dsimp only
  rw [ledger_forgive]
  exact own_edits (by rw [ledger_mine]; rfl) (.rejoin hmay)

theorem digestPush_edits (acc : SwimMembership × List MemberUpdate) (hmay : may .send)
    (hcur : acc.1.members.lookup node = some m ∨ m.txLeft = 0) :
    Edits cfg may acc.1.ledger (digestPush acc node m).1.ledger := by
  unfold digestPush
  dsimp only
  split
  · exact .refl
  · next hsent =>
    have hlookup := hcur.resolve_right hsent
    have htomb : ({ m.record with tx := m.txLeft - 1 } : Record).tomb = m.record.tomb := rfl
    have hspent : Edit cfg may acc.1.ledger (acc.1.ledger.alter node m.record { m.record with tx := m.txLeft - 1 }) :=
      .spend (ledger_entry hlookup) hmay
    rw [Ledger.alter_alive htomb, show some { m.record with tx := m.txLeft - 1 } =
      some ({ m with txLeft := m.txLeft - 1 } : Member).record from rfl, ← ledger_put] at hspent
    exact .single hspent

theorem lookup_digestPush {acc : SwimMembership × List MemberUpdate} (hid : id ≠ node) :
    (digestPush acc node m).1.members.lookup id = acc.1.members.lookup id := by
  unfold digestPush
  dsimp only
  split
  · rfl
  · exact AList.lookup_insert_ne hid

def passEntry (to_ : NodeId) (suspects : Bool) (cap : Nat) (acc : SwimMembership × List MemberUpdate) (e : Entry) :
    SwimMembership × List MemberUpdate :=
  if cap ≤ acc.2.length ∨ e.1 = to_ ∨ e.1 = acc.1.self_ ∨ e.2.txLeft = 0 ∨ e.2.verified = false ∨
    (e.2.status == .suspect) ≠ suspects then acc
  else digestPush acc e.1 e.2

theorem foldl_passEntry_edits {to_ : NodeId} {suspects : Bool} {cap : Nat} {es : List Entry} (hes : es.NodupKeys)
    {acc : SwimMembership × List MemberUpdate} (hmay : may .send)
    (hentry : ∀ e ∈ es, acc.1.members.lookup e.1 = some e.2) :
    Edits cfg may acc.1.ledger (es.foldl (passEntry to_ suspects cap) acc).1.ledger := by
  induction es generalizing acc with
  | nil => exact .refl
  | cons e es ih =>
    obtain ⟨hnew, hrest⟩ := List.nodupKeys_cons.mp hes
    have hothers : ∀ e' ∈ es, (passEntry to_ suspects cap acc e).1.members.lookup e'.1 = some e'.2 := by
      intro e' he'
      have hne : e'.1 ≠ e.1 := fun heq => hnew (heq ▸ List.mem_keys_of_mem he')
      have hwas := hentry e' (List.mem_cons_of_mem _ he')
      unfold passEntry
      split
      · exact hwas
      · rw [lookup_digestPush hne]
        exact hwas
    refine .trans ?_ (ih hrest hothers)
    unfold passEntry
    split
    · exact .refl
    · exact digestPush_edits acc hmay (.inl (hentry e List.mem_cons_self))

theorem digestPass_edits {to_ : NodeId} {suspects : Bool} {cap : Nat} {acc : SwimMembership × List MemberUpdate}
    (hmay : may .send) : Edits cfg may acc.1.ledger (digestPass to_ suspects cap acc).1.ledger := by
  unfold digestPass
  split
  · exact .refl
  · exact foldl_passEntry_edits acc.1.members.nodupKeys hmay fun e he => Table.mem_entries_iff.mp he

theorem listed_refresh : s.ledger.Listed
    (sortIds ((s.live.filter fun e => e.2.verified || e.1 == s.self_).map Sigma.fst)) := by
  have hnodup : ((s.live.filter fun e => e.2.verified || e.1 == s.self_).map Sigma.fst).Nodup :=
    s.members.nodupKeys.sublist (List.filter_sublist.trans List.filter_sublist)
  refine ⟨?_, fun id => ?_⟩
  · have hsorted : (sortIds ((s.live.filter fun e => e.2.verified || e.1 == s.self_).map Sigma.fst)).Pairwise
        (· ≤ ·) := List.pairwise_insertionSort (· ≤ ·) _
    have hdistinct := ((List.perm_insertionSort (· ≤ ·) _).nodup_iff.mpr hnodup)
    exact (hsorted.and hdistinct).imp fun h => UInt64.lt_of_le_of_ne h.1 h.2
  · rw [sortIds, List.mem_insertionSort, List.mem_map]
    constructor
    · rintro ⟨e, he, rfl⟩
      obtain ⟨hlive, hverified⟩ := List.mem_filter.mp he
      obtain ⟨hin, htomb⟩ := List.mem_filter.mp hlive
      rw [ledger_entry (Table.mem_entries_iff.mp hin), Option.any_some]
      exact Bool.and_eq_true_iff.mpr ⟨htomb, hverified⟩
    · intro h
      obtain ⟨r, hr, hlisted⟩ := (Option.any_eq_true _ _).mp h
      obtain ⟨m, hm, rfl⟩ := entry_ledger hr
      obtain ⟨htomb, hverified⟩ := Bool.and_eq_true_iff.mp hlisted
      exact ⟨⟨id, m⟩, List.mem_filter.mpr ⟨List.mem_filter.mpr ⟨Table.mem_entries_iff.mpr hm, htomb⟩, hverified⟩, rfl⟩

theorem refreshSortedIds_edits (hmay : may .send) : Edits cfg may s.ledger s.refreshSortedIds.ledger := by
  unfold refreshSortedIds
  split
  · exact .single (.refresh listed_refresh hmay)
  · exact .refl

theorem digestRotate_edits {to_ : NodeId} {cap fixed : Nat} (acc : SwimMembership × List MemberUpdate)
    (hmay : may .send) :
    Edits cfg may acc.1.ledger (digestRotate to_ cap fixed acc).1.ledger := by
  unfold digestRotate
  refine Edits.foldl (g := fun acc : SwimMembership × List MemberUpdate => acc.1.ledger) fun acc id _ => ?_
  dsimp only
  split
  · exact .refl
  · split
    · exact .refl
    · split
      · exact .single (.turn hmay)
      · exact .refl

theorem digestHead_edits {to_ : NodeId} (hmay : may .send) : Edits cfg may s.ledger
    (s.digestHead cfg to_).1.ledger := by
  have hown : ∀ acc : SwimMembership × List MemberUpdate,
      acc.1.members.lookup s.self_ = some ((acc.1.members.lookup s.self_).getD {}) ∨
        ((acc.1.members.lookup s.self_).getD {}).txLeft = 0 := by
    intro acc
    cases acc.1.members.lookup s.self_ with
    | none => exact .inr rfl
    | some m => exact .inl rfl
  unfold digestHead
  dsimp only
  split
  · split
    · exact digestPush_edits (s, []) hmay (hown (s, []))
    · exact .refl
  · next m hm =>
    have hfirst : Edits cfg may s.ledger (digestPush (s, []) to_ m).1.ledger := by
      split at hm
      · cases hm
      · exact digestPush_edits (s, []) hmay (.inl hm)
    split
    · exact hfirst.trans (digestPush_edits _ hmay (hown _))
    · exact hfirst

theorem fillDigest_edits {to_ : NodeId} (hmay : may .send) : Edits cfg may s.ledger
    (s.fillDigest cfg to_).1.ledger := by
  unfold fillDigest
  split
  · exact .refl
  · unfold digestTail
    dsimp only
    generalize min ((s.digestHead cfg to_).1.members.size - (s.digestHead cfg to_).2.length) _ = reserved
    have hpassed : Edits cfg may s.ledger (digestPass to_ false (cfg.maxGossipUpdates - reserved)
        (digestPass to_ true (cfg.maxGossipUpdates - reserved) (s.digestHead cfg to_))).1.ledger :=
      ((digestHead_edits hmay).trans (digestPass_edits hmay)).trans (digestPass_edits hmay)
    split
    · exact hpassed
    · exact (hpassed.trans (refreshSortedIds_edits hmay)).trans (digestRotate_edits (_, _) hmay)

end Digest

section Tasks

theorem accuses_apply {inc : UInt64} {st : MemberStatus} {src : Src} :
    Accuses ((Task.apply node inc st src now).May cfg s) s node inc st src := by
  refine ⟨fun hself haccused => ?_, .bury, fun _ hst hsrc => ?_⟩
  · rw [hself]
    exact .refute haccused
  · rw [hst, hsrc]
    exact .doubt

theorem accuses_lapse :
    Accuses ((Task.lapseLease node now).May cfg s) s node (s.incarnationOf node) .suspect .here := by
  refine ⟨fun hself _ => ?_, nofun, fun _ _ _ => .doubtLapsed⟩
  rw [hself]
  exact .refuteLapse

theorem ledger_enterFrame {f : MessageFrame} : (s.enterFrame cfg env f).swim.ledger = s.ledger := by
  have hadmitted : (s.admitControl cfg f.from_ env.now).2.ledger = s.ledger := ledger_admitControl
  unfold enterFrame
  split_ifs
  all_goals try rfl
  dsimp only
  split <;> exact hadmitted

theorem ledger_handle {sender : NodeId} : (s.handle cfg env msg sender).swim.ledger = s.ledger := by
  have hhandled := handled cfg env s msg sender
  generalize s.handle cfg env msg sender = o at hhandled ⊢
  cases hhandled with
  | same | foreign => rfl
  | refused s' ver why byPeer todo hsame hsends =>
    rcases hsame with rfl | rfl
    · exact ledger_refuse
    · exact ledger_refuse
  | absorbed => exact ledger_absorb

theorem ledger_driveProbe : (s.driveProbe cfg now).swim.ledger = s.ledger := by
  unfold driveProbe
  split_ifs
  · rfl
  · rfl
  · rfl
  · split <;> rfl

theorem ledger_indirect {first : Bool} {relays : List NodeId} {target : NodeId} {seq : UInt64} :
    (s.indirect first relays target seq).swim.ledger = s.ledger := by
  unfold indirect
  split
  · rfl
  · split <;> rfl

theorem ledger_startProbe : (s.startProbe cfg now).swim.ledger = s.ledger := by
  have hnext : (s.nextProbeTarget cfg).2.ledger = s.ledger := ledger_nextProbeTarget
  unfold startProbe
  split
  · rfl
  · split
    · next heq =>
      rw [heq] at hnext
      exact hnext
    · next heq =>
      rw [heq] at hnext
      exact hnext

theorem ledger_probeTombstones : (s.probeTombstones cfg now).swim.ledger = s.ledger := by
  unfold probeTombstones
  split
  · rfl
  · exact ledger_markProbed

theorem ledger_monitorCongestion : (s.monitorCongestion cfg env now).swim.ledger = s.ledger := by
  unfold monitorCongestion
  split
  · rfl
  · split_ifs <;> rfl

theorem ledger_acked : (s.acked cfg msg now).swim.ledger = s.ledger := by
  unfold acked
  dsimp only
  split_ifs
  · exact ledger_ackProbe
  · rfl
  · rfl

theorem ledger_flush : s.flush.swim.ledger = s.ledger := by
  unfold flush
  split <;> rfl

theorem ledger_drainRefusals : (s.drainRefusals cfg).swim.ledger = s.ledger := by
  have hrefused : (s.extRefusals.foldl (fun (s : SwimMembership) (r : ExtRefusal) =>
      s.refuse cfg r.node r.version r.reason false) { s with extRefusals := [] }).ledger = s.ledger :=
    List.foldlRecOn (motive := fun s' : SwimMembership => s'.ledger = s.ledger) _ _ rfl
      fun s' hs' r _ => ledger_refuse.trans hs'
  unfold drainRefusals
  dsimp only
  split <;> exact hrefused

theorem ledger_deliver {i j : Nat} : (s.deliver i j).swim.ledger = s.ledger := by
  unfold deliver
  split
  · rfl
  · split <;> rfl

theorem answer_edits (hmay : ∀ a, (Task.answer msg now).May cfg s a → may a) :
    Edits cfg may s.ledger (s.answer cfg msg now).swim.ledger := by
  unfold answer
  split
  · exact .refl
  · exact .refl
  · exact .refl
  · exact .same ledger_ackProbe
  · unfold answerJoin
    split_ifs <;> exact .refl
  · next hkind => exact adopt_edits fun hours => hmay _ (.adopt hkind hours)
  · next hkind =>
    exact onSuspendAnnounced_edits fun cur held hcur hforward hinc huntil =>
      hmay _ (.lease hkind hcur hforward hinc huntil)
  · exact .refl

theorem enter_edits {c : Call} (hmay : ∀ a, (Task.enter c).May cfg s a → may a) :
    Edits cfg may s.ledger (s.enter cfg env c).swim.ledger := by
  cases c with
  | tick =>
    simp only [enter]
    split_ifs <;> exact .refl
  | frame f => exact .same ledger_enterFrame
  | leave who =>
    simp only [enter]
    split
    · next hself =>
      refine leaveSelf_edits (hmay _ ?_)
      rw [hself]
      exact .depart
    · exact .refl
  | admit_ joiner presented =>
    simp only [enter]
    split_ifs <;> exact .refl
  | applyAdmission => exact .refl
  | resume | suspend why lease =>
    simp only [enter]
    split_ifs <;> exact .refl
  | networkChanged =>
    simp only [enter]
    split
    · exact .refl
    · exact .same ledger_forgive
  | requestJoin seed => exact .refl
  | setOnline on => exact .refl
  | setAdmission snap => exact .refl
  | addEventSink => exact .refl

theorem ledger_expireLeases : ({ s with
    leases := Table.eraseIf (fun _ l => decide (l.until_ ≤ now)) s.leases } : SwimMembership).ledger =
      { s.ledger with lease := fun id => (s.ledger.lease id).filter fun h => !decide (h.until_ ≤ now) } := by
  unfold ledger
  congr 1
  funext id
  exact Table.lookup_eraseIf _

/-- What a task does to the books; a task that buries a member ends with the cap. -/
theorem exec_capped (hown : s.doubted = false) :
    Capped cfg (Effect cfg) (t.May cfg s) s (s.exec cfg env t).swim := by
  have plain : ∀ {t : Task} {s' : SwimMembership}, Edits cfg (fun a => t.May cfg s a ∧ a ≠ .bury) s.ledger s'.ledger →
      Capped cfg (Effect cfg) (t.May cfg s) s s' := fun h => .plain (.edits h)
  cases t with
  | enter c => exact plain (enter_edits fun a ha => ⟨ha, by rintro rfl; cases ha⟩)
  | returned c => exact plain .refl
  | outside => exact plain .refl
  | flush => exact plain (.same ledger_flush)
  | evict => exact plain .refl
  | evictOne node =>
    refine evict_capped (fun hself => ?_) .buryEvicted
    rw [hself]
    exact .refuteEviction
  | drainRefusals => exact plain (.same ledger_drainRefusals)
  | deliver i j => exact plain (.same ledger_deliver)
  | handle m sender => exact plain (.same ledger_handle)
  | answer m now => exact plain (answer_edits fun a ha => ⟨ha, by rintro rfl; cases ha⟩)
  | acked m now => exact plain (.same ledger_acked)
  | joined m =>
    refine plain ?_
    simp only [exec, joined]
    split
    · exact .refl
    · exact clearLeaseOnProofOfLife_edits
  | leasedPeerSpoke m => exact plain onLeasedPeerSpoke_edits
  | apply node inc st src now => exact applyUpdate_capped accuses_apply
  | send to_ m =>
    refine plain ?_
    simp only [exec, send]
    split
    · exact .refl
    · exact fillDigest_edits ⟨.send, (by simp)⟩
  | expireLeases now =>
    refine plain ?_
    simp only [exec]
    rw [ledger_expireLeases]
    exact .single (.expire ⟨.expire, (by simp)⟩)
  | lapseLease id now => exact (lapseLease_capped accuses_lapse .lapse).effect
  | reapSuspects now => exact (reapSuspects_capped hown .buryDied).effect
  | reapTombstones now => exact plain reapTombstones_edits
  | reapUnverified now => exact plain (reapUnverified_edits fun hreaps e he => ⟨.drop hreaps he, (by simp)⟩)
  | driveProbe now => exact plain (.same ledger_driveProbe)
  | indirect first relays target seq => exact plain (.same ledger_indirect)
  | settleProbe =>
    refine plain (.same ?_)
    simp only [exec]
    split <;> rfl
  | dropProbe => exact plain .refl
  | startProbe now => exact plain (.same ledger_startProbe)
  | sendVerifies => exact plain (.same ledger_takeVerifies)
  | probeTombstones now => exact plain (.same ledger_probeTombstones)
  | gossipRound now => exact plain .refl
  | monitorCongestion now => exact plain (.same ledger_monitorCongestion)
  | rejoin => exact plain (rejoin_edits ⟨.rejoin, (by simp)⟩)
  | fallAsleep => exact plain .refl

end Tasks

section Inward

/-- The tasks that only the node itself can ask for. -/
def Task.inward : Task → Bool
  | .evictOne _ => true
  | .lapseLease _ _ => true
  | .apply _ _ .suspect .here _ => true
  | _ => false

/-- What outsiders ask for. -/
def Outward (ts : List Task) : Prop := ∀ t ∈ ts, t.inward = false

attribute [local simp] Outward Task.inward

theorem outward_sends {peers : List NodeId} {m : ControlMsg} : Outward (peers.map fun p => Task.send p m) := by
  intro t ht
  obtain ⟨p, -, rfl⟩ := List.mem_map.mp ht
  rfl

theorem outward_enter {c : Call} : Outward (s.enter cfg env c).todo := by
  cases c with
  | tick =>
    simp only [enter]
    split_ifs <;> simp [period]
  | frame f =>
    simp only [enter, enterFrame]
    split_ifs
    all_goals try simp
    split <;> simp
  | leave who | admit_ joiner presented =>
    simp only [enter]
    split <;> simp
  | applyAdmission => simp [enter]
  | resume =>
    simp only [enter]
    split_ifs <;> simp
  | suspend why lease =>
    simp only [enter]
    split
    · simp
    · intro t ht
      rcases List.mem_append.mp ht with ht | ht
      · exact outward_sends t ht
      · rw [List.mem_singleton.mp ht]
        rfl
  | networkChanged =>
    simp only [enter]
    split <;> simp
  | requestJoin seed => simp [enter]
  | setOnline on => simp [enter]
  | setAdmission snap => simp [enter]
  | addEventSink => simp [enter]

theorem outward_gossiped {u : MemberUpdate} (h : gossiped msg now u = some t) : t.inward = false := by
  unfold gossiped at h
  split at h
  · cases h
  · next st hst =>
    split at h
    · cases h
    · cases h
      cases st <;> rfl

theorem outward_heardDirectly : Outward (s.heardDirectly msg now).todo := by
  unfold heardDirectly
  split
  · simp
  · split <;> simp

theorem outward_absorb : Outward (s.absorb msg now).todo := by
  intro t ht
  unfold absorb at ht
  rcases List.mem_append.mp ht with ht | ht
  · rcases List.mem_append.mp ht with ht | ht
    · exact outward_heardDirectly t ht
    · obtain ⟨u, -, hu⟩ := List.mem_filterMap.mp ht
      exact outward_gossiped hu
  · rcases List.mem_cons.mp ht with rfl | ht
    · rfl
    · cases List.mem_singleton.mp ht
      rfl

theorem outward_handle {sender : NodeId} : Outward (s.handle cfg env msg sender).todo := by
  have hhandled := handled cfg env s msg sender
  generalize s.handle cfg env msg sender = o at hhandled ⊢
  cases hhandled with
  | same | foreign => simp
  | refused s' ver why byPeer todo hsame hsends =>
    intro t ht
    obtain ⟨m, rfl⟩ := hsends t ht
    rfl
  | absorbed => exact outward_absorb

theorem outward_answer : Outward (s.answer cfg msg now).todo := by
  unfold answer
  split
  · simp
  · simp
  · simp
  · simp
  · unfold answerJoin
    split_ifs <;> simp
  · intro t ht
    obtain ⟨u, -, rfl⟩ := List.mem_map.mp ht
    rfl
  · simp
  · simp

theorem exec_inward (cfg : Config) (env : Env) (s : SwimMembership) (t : Task) : Outward (s.exec cfg env t).todo ∨
    (t = .evict ∧ (s.exec cfg env t).todo = s.denied.map .evictOne) ∨
    (∃ now, t = .expireLeases now ∧ (s.exec cfg env t).todo = (s.expired now).map fun id => .lapseLease id now) ∨
    (∃ now, t = .driveProbe now ∧ s.probeable s.probe.target = true ∧ (s.exec cfg env t).swim = s ∧
      (s.exec cfg env t).todo =
        [.apply s.probe.target (s.incarnationOf s.probe.target) .suspect .here now, .dropProbe]) := by
  cases t with
  | enter c => exact .inl outward_enter
  | evict => exact .inr (.inl ⟨rfl, rfl⟩)
  | handle m sender => exact .inl outward_handle
  | answer m now => exact .inl outward_answer
  | expireLeases now => exact .inr (.inr (.inl ⟨now, rfl, rfl⟩))
  | driveProbe now =>
    simp only [exec, driveProbe]
    split_ifs with hidle hdone
    · simp
    · simp
    · simp
    · cases hphase : s.probe.phase with
      | direct => simp
      | indirect => exact .inr (.inr (.inr ⟨now, rfl, by simpa using fun h => hdone (.inr h), rfl, rfl⟩))
  | flush =>
      refine .inl ?_
      simp only [exec, flush]
      split_ifs <;> simp
  | drainRefusals =>
    refine .inl ?_
    simp only [exec, drainRefusals]
    split_ifs <;> simp
  | deliver i j =>
    refine .inl ?_
    simp only [exec, deliver]
    split
    · simp
    · split <;> simp
  | acked m now =>
    refine .inl ?_
    simp only [exec, acked]
    split_ifs <;> simp
  | send to_ m =>
    refine .inl ?_
    simp only [exec, send]
    split_ifs <;> simp
  | indirect first relays target seq =>
    refine .inl ?_
    simp only [exec, indirect]
    split
    · simp
    · split <;> simp
  | startProbe now =>
    refine .inl ?_
    simp only [exec, startProbe]
    split
    · simp
    · split <;> simp
  | sendVerifies => exact .inl outward_sends
  | probeTombstones now =>
    refine .inl ?_
    simp only [exec, probeTombstones]
    split
    · simp
    · exact outward_sends
  | gossipRound now => exact .inl outward_sends
  | monitorCongestion now =>
    refine .inl ?_
    simp only [exec, monitorCongestion]
    split
    · simp
    · split_ifs
      · exact outward_sends
      · simp
      · simp
      · simp
  | rejoin => exact .inl outward_sends
  | joined m => exact .inl (by simp [exec, joined])
  | _ => exact .inl (by simp [exec])

end Inward

section Own

def Ledger.Owned (l : Ledger) : Prop :=
  ∃ r, l.entry l.me = some r ∧ r.incarnation = l.incarnation ∧ r.status = if l.left then .left else .alive

theorem Ledger.Owned.mine (h : l.Owned) :
    l.mine.incarnation = l.incarnation ∧ l.mine.status = if l.left then .left else .alive := by
  obtain ⟨r, hr, hinc, hstatus⟩ := h
  rw [Ledger.mine, hr]
  exact ⟨hinc, hstatus⟩

theorem Ledger.Owned.set {r : Option Record} (h : l.Owned) (hother : id ≠ l.me) : (l.set id r).Owned := by
  obtain ⟨mine, hmine, hrest⟩ := h
  exact ⟨mine, (Function.update_of_ne hother.symm ..).trans hmine, hrest⟩

theorem Ledger.Owned.own {inc : UInt64} {st : MemberStatus} (hst : st = if l.left then .left else .alive) :
    (l.own inc st).Owned := ⟨_, Function.update_self .., rfl, hst⟩

theorem Ledger.Owned.departed {inc : UInt64} : ({ l.own inc .left with left := true } : Ledger).Owned :=
  ⟨_, Function.update_self .., rfl, rfl⟩

theorem Ledger.Owned.alter {cur r : Record} (h : l.Owned) (hcur : l.entry id = some cur)
    (hinc : r.incarnation = cur.incarnation) (hstatus : r.status = cur.status) : (l.alter id cur r).Owned := by
  by_cases hid : id = l.me
  · obtain ⟨mine, hmine, hrest⟩ := h
    rw [hid, hmine] at hcur
    cases hcur
    exact ⟨r, by rw [hid]; exact Function.update_self .., hinc.trans hrest.1, hstatus.trans hrest.2⟩
  · exact h.set hid

theorem Edit.owned (h : Edit cfg may l l') (hl : l.Owned) : l'.Owned := by
  cases h with
  | refute _ hhere _ => exact .own (by rw [hhere]; rfl)
  | adopt _ _ _ => exact .own hl.mine.2
  | rejoin _ => exact .own hl.mine.2
  | depart _ _ => exact .departed
  | alter hother _ _ _ _ _ _ => exact hl.set hother
  | evict hother _ _ => exact hl.set hother
  | drop hother _ _ _ _ => exact hl.set hother
  | spend hcur _ => exact hl.alter hcur rfl rfl
  | refresh _ _ => exact hl
  | turn _ => exact hl
  | lease _ _ _ _ _ _ _ => exact hl
  | free => exact hl
  | expire _ => exact hl
  | lapse hcur _ _ => exact hl.alter hcur rfl rfl

theorem Effect.keeps {I : Ledger → Prop} (h : Effect cfg may l l') (hbegin : ∀ l₁, Begin may l l₁ → I l₁)
    (hedit : ∀ l l', I l → Edit cfg may l l' → I l') : I l' := by
  obtain ⟨l₁, hfirst, hedits⟩ := h
  induction hedits with
  | refl => exact hbegin l₁ hfirst
  | tail _ hlast ih => exact hedit _ _ ih hlast

theorem Begin.owned (h : Begin may l l') (hl : l.Owned) : l'.Owned := by
  cases h with
  | same => exact hl
  | create hother _ _ _ _ => exact hl.set hother

theorem Effect.owned (h : Effect cfg may l l') (hl : l.Owned) : l'.Owned :=
  h.keeps (fun _ hb => hb.owned hl) fun _ _ h he => he.owned h

theorem Ledger.Owned.sure (h : s.ledger.Owned) : s.doubted = false := by
  obtain ⟨r, hr, -, hstatus⟩ := h
  obtain ⟨m, hm, rfl⟩ := entry_ledger hr
  rw [doubted, show s.members.lookup s.self_ = some m from hm, Option.any_some,
    show m.status = _ from hstatus]
  split <;> rfl

end Own

section Steps

variable {n n' : Node} {label : Label}

theorem Node.step_books (h : n.step cfg label = some n') :
    (∃ env t rest, label = .run env ∧ n.todo = t :: rest ∧ n' = n.ran (n.swim.exec cfg env t) rest) ∨
    n'.swim.ledger = n.swim.ledger ∧ n'.swim.members.entries.Perm n.swim.members.entries ∧ n'.sent = n.sent ∧
      (n'.todo = n.todo ∨ ∃ c, label = .call c ∧ Node.callable n.todo = true ∧ n' = n.called c) := by
  cases label with
  | call c =>
    simp only [Node.step, Option.ite_none_right_eq_some, Option.some.injEq] at h
    obtain ⟨hcallable, rfl⟩ := h
    exact .inr ⟨rfl, .refl _, rfl, .inr ⟨c, rfl, hcallable, rfl⟩⟩
  | run env =>
    simp only [Node.step] at h
    split at h
    · cases h
    · next t rest htodo =>
      cases h
      exact .inl ⟨env, t, rest, rfl, htodo, rfl⟩
  | publish snap =>
    simp only [Node.step] at h
    split at h
    · cases h
    · split at h
      · cases h
        exact .inr ⟨rfl, .refl _, rfl, .inl rfl⟩
      · cases h
  | markDirty =>
    simp only [Node.step, Option.ite_none_right_eq_some, Option.some.injEq] at h
    obtain ⟨-, rfl⟩ := h
    exact .inr ⟨rfl, .refl _, rfl, .inl rfl⟩
  | noteTransportRefusal r =>
    simp only [Node.step] at h
    split at h <;> cases h <;> exact .inr ⟨rfl, .refl _, rfl, .inl rfl⟩
  | rehash members =>
    simp only [Node.step, Option.ite_none_right_eq_some, Option.some.injEq] at h
    obtain ⟨hperm, rfl⟩ := h
    exact .inr ⟨ledger_members fun id => by rw [AList.perm_lookup hperm], hperm, rfl, .inl rfl⟩

def Label.task (n : Node) : Label → Option Task
  | .run _ => n.todo.head?
  | _ => none

/-- The acts of the task that a step runs. -/
def Label.May (cfg : Config) (n : Node) (label : Label) (a : Act) : Prop :=
  ∃ env t rest, label = .run env ∧ n.todo = t :: rest ∧ t.May cfg n.swim a

theorem Node.step_effect (h : n.step cfg label = some n') (hown : n.swim.ledger.Owned) :
    Effect cfg (label.May cfg n) n.swim.ledger n'.swim.ledger := by
  obtain ⟨env, t, rest, hlabel, htodo, rfl⟩ | ⟨hsame, -⟩ := Node.step_books h
  · exact (exec_capped hown.sure).settles.mono fun a ha => ⟨env, t, rest, hlabel, htodo, ha⟩
  · rw [hsame]
    exact .edits .refl

def Task.Foreign (self_ : NodeId) : Task → Prop
  | .evictOne node => node ≠ self_
  | .lapseLease id _ => id ≠ self_
  | _ => True

theorem Task.foreign_of_outward {self_ : NodeId} (h : t.inward = false) : t.Foreign self_ := by
  cases t with
  | evictOne node => cases h
  | lapseLease id now => cases h
  | _ => trivial

theorem Edit.unleased (h : Edit cfg may l l') (hl : l.lease l.me = none) : l'.lease l'.me = none := by
  cases h with
  | lease hother _ _ _ _ _ _ => exact (Function.update_of_ne hother.symm ..).trans hl
  | @free id =>
    by_cases hid : l.me = id
    · exact (congrArg (Function.update l.lease id none) hid).trans (Function.update_self ..)
    · exact (Function.update_of_ne hid ..).trans hl
  | expire _ => exact (congrArg (Option.filter _) hl).trans rfl
  | _ => exact hl

theorem Begin.lease (h : Begin may l l') : l'.lease = l.lease ∧ l'.me = l.me := by
  cases h <;> exact ⟨rfl, rfl⟩

theorem Edit.me (h : Edit cfg may l l') : l'.me = l.me := by
  cases h <;> rfl

theorem Effect.me (h : Effect cfg may l l') : l'.me = l.me :=
  h.keeps (I := fun l' => l'.me = l.me) (fun _ hb => hb.lease.2) fun _ _ h he => he.me.trans h

/-- We keep our own entry, hold no lease of our own, and never accuse ourselves. -/
structure Node.Sound (n : Node) : Prop where
  own : n.swim.ledger.Owned
  unleased : n.swim.ledger.lease n.swim.self_ = none
  foreign : ∀ t ∈ n.todo, t.Foreign n.swim.self_

theorem sound_start {self_ : NodeId} {drawn : UInt64} {sinks : Nat} :
    (Node.start cfg self_ drawn sinks).Sound :=
  ⟨⟨_, ledger_entry (AList.lookup_insert _), rfl, rfl⟩, rfl, fun _ ht => absurd ht List.not_mem_nil⟩

theorem mem_denied (h : id ∈ s.denied) : id ≠ s.self_ := by
  unfold denied at h
  split at h
  · cases h
  · obtain ⟨e, he, rfl⟩ := List.mem_map.mp h
    have hp := (List.mem_filter.mp he).2
    simp only [Bool.and_eq_true, bne_iff_ne] at hp
    exact hp.1.1

theorem mem_expired (h : id ∈ s.expired now) : ∃ held, s.leases.lookup id = some held ∧ held.until_ ≤ now := by
  rw [expired, sortIds, List.mem_insertionSort] at h
  obtain ⟨e, he, rfl⟩ := List.mem_map.mp h
  obtain ⟨hin, huntil⟩ := List.mem_filter.mp he
  exact ⟨e.2, Table.mem_entries_iff.mp hin, of_decide_eq_true huntil⟩

theorem Node.Sound.step (hn : n.Sound) (h : n.step cfg label = some n') : n'.Sound := by
  have heffect : Effect cfg (label.May cfg n) n.swim.ledger n'.swim.ledger := Node.step_effect h hn.own
  have hme : n'.swim.self_ = n.swim.self_ := heffect.me
  refine ⟨heffect.owned hn.own, ?_, ?_⟩
  · exact heffect.keeps (I := fun l => l.lease l.me = none)
      (fun _ hb => by rw [hb.lease.1, hb.lease.2]; exact hn.unleased)
      fun _ _ hl he => he.unleased hl
  · rw [hme]
    obtain ⟨env, t, rest, -, htodo, rfl⟩ | ⟨-, -, -, htodo | ⟨c, -, -, rfl⟩⟩ := Node.step_books h
    · intro u hu
      rcases List.mem_append.mp hu with hu | hu
      · obtain hout | ⟨rfl, hdo⟩ | ⟨now, rfl, hdo⟩ | ⟨now, rfl, -, -, hdo⟩ := exec_inward cfg env n.swim t
        · exact Task.foreign_of_outward (hout u hu)
        · rw [hdo] at hu
          obtain ⟨id, hid, rfl⟩ := List.mem_map.mp hu
          exact mem_denied hid
        · rw [hdo] at hu
          obtain ⟨id, hid, rfl⟩ := List.mem_map.mp hu
          obtain ⟨held, hheld, -⟩ := mem_expired hid
          rintro rfl
          rw [show n.swim.leases.lookup n.swim.self_ = none from hn.unleased] at hheld
          cases hheld
        · rw [hdo] at hu
          rcases List.mem_cons.mp hu with rfl | hu
          · trivial
          · rw [List.mem_singleton.mp hu]
            trivial
      · exact hn.foreign u (by rw [htodo]; exact List.mem_cons_of_mem _ hu)
    · rw [htodo]
      exact hn.foreign
    · intro u hu
      rcases List.mem_cons.mp hu with rfl | hu
      · trivial
      · rcases List.mem_cons.mp hu with rfl | hu
        · trivial
        · exact hn.foreign u hu

theorem Node.sound {self_ : NodeId} {drawn : UInt64} {sinks : Nat} {ok : Node → Label → Prop}
    (h : Machine.Reach (Node.step cfg) ok (Node.start cfg self_ drawn sinks) n) : n.Sound :=
  h.invariant sound_start fun _ _ _ hn _ hstep => hn.step hstep

/-- In every run a node keeps its own entry, at its own incarnation, alive until it leaves and then Left, and never
leases itself. -/
theorem Node.own_entry_kept {self_ : NodeId} {drawn : UInt64} {sinks : Nat}
    (h : Machine.Reachable (Node.step cfg) (Node.start cfg self_ drawn sinks) n) :
    (∃ m, n.swim.members.lookup n.swim.self_ = some m ∧ m.incarnation = n.swim.selfIncarnation ∧
      m.status = if n.swim.selfLeft then .left else .alive) ∧ n.swim.leases.lookup n.swim.self_ = none := by
  have hsound : n.Sound := h.invariant sound_start fun _ _ _ hn hstep => hn.step hstep
  obtain ⟨r, hr, hincarnation, hstatus⟩ := hsound.own
  obtain ⟨m, hm, rfl⟩ := Option.map_eq_some_iff.mp hr
  exact ⟨⟨m, hm, hincarnation, hstatus⟩, hsound.unleased⟩

theorem Node.own_entry_kept_left : ∃ (n : Node) (m : Member), n.swim.selfLeft = true ∧
    n.swim.members.lookup n.swim.self_ = some m ∧ m.status = .left := by
  obtain ⟨n, hn, hleft⟩ := Option.map_eq_some_iff.mp (show (Machine.run (Node.step (Config.sanitize {}))
    (Node.start (Config.sanitize {}) 1 0 0) (.call (.leave 1) :: List.replicate 3 (.run {}))).map (·.swim.selfLeft) =
      some true by decide +kernel)
  obtain ⟨⟨m, hm, -, hstatus⟩, -⟩ := Node.own_entry_kept (Machine.reachable_of_run hn)
  exact ⟨n, m, hleft, hm, hstatus.trans (if_pos hleft)⟩

end Steps

end Quark.Swim
