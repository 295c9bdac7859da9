import Quark.SwimTransitions

/-! On whose word a task of a `SwimMembership` changes a member, and what each task may do. -/
namespace Quark.Swim

open List Option SwimMembership

/-- What the word of the sender of `m`, in our cluster and in our window, allows. -/
structure Speaks (may : Change → Prop) (m : ControlMsg) : Prop where
  alive : ∀ inc src, src = .direct ∨ src = .join → may (.update m.from_ inc .alive src)
  farewell : ∀ u ∈ m.updates, u.node = m.from_ → MemberStatus.ofCode u.status = some .left →
    may (.update u.node u.incarnation .left .gossip)
  snapshot : m.kind = .joinAck → ∀ u ∈ m.updates, u.status = MemberStatus.alive.code →
    may (.update u.node u.incarnation .alive .joinSnapshot)

/-- The changes a node may make, and the senders that the transport authenticated for a message. -/
structure Trust (cfg : Config) where
  self_ : NodeId
  may : Change → Prop
  heard : NodeId → ControlMsg → Prop
  hearsay : ∀ node inc st, st ≠ .left → may (.update node inc st .gossip)
  suspicion : ∀ node inc, may (.update node inc .suspect .here)
  unsuspect : ∀ node, may (.unsuspect node)
  direct : ∀ m, heard m.from_ m → m.cluster = cfg.clusterId → cfg.wireVerdict m.wireVersion = .none → Speaks may m

def Trust.everyone (cfg : Config) (self_ : NodeId) : Trust cfg where
  self_
  may _ := True
  heard _ _ := True
  hearsay _ _ _ _ := trivial
  suspicion _ _ := trivial
  unsuspect _ := trivial
  direct _ _ _ _ := ⟨fun _ _ _ => trivial, fun _ _ _ _ => trivial, fun _ _ _ _ => trivial⟩

namespace Task

variable {cfg : Config} (trust : Trust cfg)

def plain : Task → Bool
  | drainRefusals => false
  | deliver _ _ => false
  | _ => true

/-- It has the right to the change that it leads to; it is no part of the delivery loop. -/
def Fine : Task → Prop
  | enter (.frame f) =>
    f.to_ = trust.self_ → f.control = true → ∀ m, f.payload = some m → trust.heard f.from_ m
  | enter (.admit_ joiner _) => ∀ inc, trust.may (.update joiner inc .alive .join)
  | enter (.leave who) => ∀ inc, trust.may (.update who inc .left .here)
  | evictOne node => ∀ inc, trust.may (.update node inc .dead .here)
  | handle m authenticatedFrom => trust.heard authenticatedFrom m
  | answer m _ => m.kind = .join ∧ m.cluster ≠ cfg.clusterId ∨ Speaks trust.may m
  | apply node inc st src _ => trust.may (.update node inc st src)
  | drainRefusals => False
  | deliver _ _ => False
  | _ => True

end Task

/-- What handling a message comes to. -/
inductive Handled (cfg : Config) (s : SwimMembership) (msg : ControlMsg) (now : Int) : Outcome → Prop
  | same : Handled cfg s msg now { swim := s }
  | refused (s' : SwimMembership) (ver : UInt8) (why : RefusalReason) (byPeer : Bool) (todo : List Task)
      (hsame : s' = s ∨ s' = { s with ctxFrom := 0 }) (hsends : ∀ t ∈ todo, ∃ m, t = .send msg.from_ m) :
      Handled cfg s msg now { swim := s'.refuse cfg msg.from_ ver why byPeer, todo }
  | foreign : Handled cfg s msg now { swim := { s with ctxFrom := 0 }, todo := [.answer msg now] }
  | absorbed : Handled cfg s msg now (absorb { s with ctxFrom := 0 } msg now)

/-- What a task outside the delivery loop does. -/
structure Outcome.Sound {cfg : Config} (trust : Trust cfg) (s : SwimMembership) (o : Outcome) : Prop where
  moves : Moves cfg trust.may s o.swim
  told : o.told = []
  fine : ∀ t ∈ o.todo, t.Fine trust

section

variable {cfg : Config} {trust : Trust cfg} {env : Env} {s s' : SwimMembership} {o : Outcome} {t : Task}
  {ts : List Task}
variable {msg : ControlMsg} {now : Int} {node : NodeId}

attribute [local simp] Task.Fine

theorem Task.Fine.plain (h : t.Fine trust) : t.plain = true := by
  cases t with
  | drainRefusals => exact h.elim
  | deliver i j => exact h.elim
  | _ => rfl

theorem Speaks.mono {may may' : Change → Prop} (h : Speaks may msg)
    (hmay : ∀ node inc st src, may (.update node inc st src) → may' (.update node inc st src)) : Speaks may' msg :=
  ⟨fun inc src hsrc => hmay _ _ _ _ (h.alive inc src hsrc),
    fun u hu hown hleft => hmay _ _ _ _ (h.farewell u hu hown hleft),
    fun hkind u hu halive => hmay _ _ _ _ (h.snapshot hkind u hu halive)⟩

theorem Task.Fine.mono {trust' : Trust cfg} (h : t.Fine trust) (hself : trust'.self_ = trust.self_)
    (hmay : ∀ node inc st src, trust.may (.update node inc st src) → trust'.may (.update node inc st src))
    (hheard : ∀ id m, trust.heard id m → trust'.heard id m) : t.Fine trust' := by
  cases t with
  | enter c =>
    cases c with
    | frame f => exact fun hto hcontrol m hm => hheard _ _ (h (by rw [← hself]; exact hto) hcontrol m hm)
    | admit_ joiner presented => exact fun inc => hmay _ _ _ _ (h inc)
    | leave who => exact fun inc => hmay _ _ _ _ (h inc)
    | _ => trivial
  | evictOne node => exact fun inc => hmay _ _ _ _ (h inc)
  | handle m authenticatedFrom => exact hheard _ _ h
  | answer m now => exact Or.imp_right (fun hspeaks => hspeaks.mono hmay) h
  | apply node inc st src now => exact hmay _ _ _ _ h
  | drainRefusals => exact h.elim
  | deliver i j => exact h.elim
  | _ => trivial

theorem fine_everyone {self_ : NodeId} (h : t.plain = true) : t.Fine (.everyone cfg self_) := by
  cases t with
  | enter c =>
    cases c with
    | frame f => exact fun _ _ _ _ => trivial
    | admit_ joiner presented => exact fun _ => trivial
    | leave who => exact fun _ => trivial
    | _ => trivial
  | evictOne node => exact fun _ => trivial
  | answer m now => exact .inr ⟨fun _ _ _ => trivial, fun _ _ _ _ => trivial, fun _ _ _ _ => trivial⟩
  | drainRefusals => cases h
  | deliver i j => cases h
  | _ => trivial

theorem Outcome.Sound.swim (h : Moves cfg trust.may s s') : Outcome.Sound trust s { swim := s' } :=
  ⟨h, rfl, by simp⟩

theorem Outcome.Sound.still (h : Still cfg s s') : Outcome.Sound trust s { swim := s' } := .swim (.still h)

theorem Outcome.Sound.same (s : SwimMembership) : Outcome.Sound trust s { swim := s } := .still (.refl s)

theorem sound_ite {p : Prop} [Decidable p] {o' : Outcome} (h : p → o.Sound trust s) (h' : ¬ p → o'.Sound trust s) :
    (if p then o else o').Sound trust s := by
  split
  · next hp => exact h hp
  · next hp => exact h' hp

theorem sound_heardDirectly (hspeaks : Speaks trust.may msg) : (s.heardDirectly msg now).Sound trust s := by
  have hmay := hspeaks.alive msg.fromIncarnation .direct (.inl rfl)
  refine ⟨.still (.quiet quiet_heardDirectly), ?_, ?_⟩
  all_goals unfold heardDirectly
  all_goals split
  · rfl
  · rfl
  · simp
  · split <;> simp [hmay]

theorem fine_gossiped (hspeaks : Speaks trust.may msg) {u : MemberUpdate} (hu : u ∈ msg.updates)
    (ht : gossiped msg now u = some t) : t.Fine trust := by
  unfold gossiped at ht
  split at ht
  · cases ht
  · next st hst =>
    split at ht
    · cases ht
    · next hthird =>
      cases ht
      by_cases hleft : st = .left
      · rw [hleft] at hst ⊢
        exact hspeaks.farewell u hu (not_not.mp fun hne => hthird ⟨hleft, hne⟩) hst
      · exact trust.hearsay _ _ _ hleft

theorem still_absorb : Still cfg s (s.absorb msg now).swim := by
  have hwindow : Quiet s (if msg.from_ = s.self_ then s else s.inWindow msg) := by
    split
    · exact .refl s
    · exact quiet_inWindow
  exact (Still.quiet hwindow).trans (.quiet quiet_heardDirectly)

theorem sound_absorb (hspeaks : Speaks trust.may msg) : (s.absorb msg now).Sound trust s := by
  have hheard : ((if msg.from_ = s.self_ then s else s.inWindow msg).heardDirectly msg now).Sound trust
      (if msg.from_ = s.self_ then s else s.inWindow msg) := sound_heardDirectly hspeaks
  refine ⟨.still still_absorb, rfl, fun t ht => ?_⟩
  unfold absorb at ht
  simp only [append_assoc, mem_append, mem_filterMap, mem_cons, not_mem_nil, or_false] at ht
  rcases ht with ht | ⟨u, hu, ht⟩ | rfl | rfl
  · exact hheard.fine t ht
  · exact fine_gossiped hspeaks hu ht
  · trivial
  · exact .inr hspeaks

theorem handled (cfg : Config) (env : Env) (s : SwimMembership) (msg : ControlMsg) (sender : NodeId) :
    Handled cfg s msg env.now (s.handle cfg env msg sender) := by
  have hnone : ∀ t ∈ ([] : List Task), ∃ m, t = .send msg.from_ m := fun _ ht => absurd ht not_mem_nil
  unfold handle
  refine iteInduction (fun _ => .same) fun _ => iteInduction (fun _ => .same) fun _ => iteInduction (fun _ => .same)
    fun _ => iteInduction (fun _ => ?_) fun _ => ?_
  · exact iteInduction (fun _ => .refused _ _ _ _ _ (.inl rfl) hnone) fun _ =>
      iteInduction (fun _ => .refused _ _ _ _ _ (.inl rfl) hnone) fun _ => .same
  · refine iteInduction (fun _ => .foreign) fun _ => iteInduction (fun _ => .refused _ _ _ _ _ (.inr rfl) ?_)
      fun _ => .absorbed
    split
    · exact fun t ht => ⟨_, mem_singleton.mp ht⟩
    · exact hnone

theorem sound_handle {n : NodeId} (hheard : trust.heard n msg) : (s.handle cfg env msg n).Sound trust s := by
  have hctx : Still cfg s { s with ctxFrom := 0 } := .quiet ⟨rfl, rfl, rfl, rfl, rfl, fun _ _ => rfl, fun h => h⟩
  refine sound_ite (fun _ => .same s) fun hfrom => sound_ite (fun _ => .same s) fun _ =>
    sound_ite (fun _ => .same s) fun hcluster => sound_ite (fun _ => ?_) fun _ => ?_
  · exact sound_ite (fun _ => .still still_refuse) fun _ => sound_ite (fun _ => .still still_refuse) fun _ => .same s
  · refine sound_ite (fun hforeign => ⟨.still hctx, rfl, ?_⟩) fun hours =>
      sound_ite (fun _ => ⟨.still (hctx.trans still_refuse), rfl, ?_⟩) fun hwindow => ?_
    · have hjoin : msg.kind = .join := not_not.mp fun hkind => hcluster ⟨hkind, hforeign⟩
      simp [hjoin, hforeign]
    · dsimp only
      split <;> simp
    · have hspeaks : Speaks trust.may msg := by
        rw [← not_not.mp hfrom] at hheard
        exact trust.direct msg hheard (not_not.mp hours) (not_not.mp hwindow)
      have habsorbed : ({ s with ctxFrom := 0 }.absorb msg env.now).Sound trust { s with ctxFrom := 0 } :=
        sound_absorb hspeaks
      exact ⟨.still (hctx.trans still_absorb), habsorbed.told, habsorbed.fine⟩

theorem sound_answerJoin (hspeaks : msg.cluster = cfg.clusterId → Speaks trust.may msg) :
    (s.answerJoin cfg msg now).Sound trust s := by
  refine sound_ite (fun _ => ⟨.still (.refl s), rfl, by simp⟩) fun hours => sound_ite (fun _ => .same s)
    fun hsubject => ⟨.still (.refl s), rfl, ?_⟩
  have hmay := fun inc => (hspeaks (not_not.mp hours)).alive inc .join (.inr rfl)
  simp [not_not.mp hsubject, hmay]

theorem sound_answer (hfine : (Task.answer msg now).Fine trust) : (s.answer cfg msg now).Sound trust s := by
  have hspeaks : msg.kind ≠ .join ∨ msg.cluster = cfg.clusterId → Speaks trust.may msg := by
    intro hours
    obtain hforeign | hspeaks := hfine
    · exact absurd hours (by simp [hforeign])
    · exact hspeaks
  unfold answer
  split
  · exact ⟨.still (.refl s), rfl, by simp⟩
  · next hkind =>
    have hmay := (hspeaks (.inl (by simp [hkind]))).alive msg.fromIncarnation .direct (.inl rfl)
    exact ⟨.still (.refl s), rfl, by simp [hmay]⟩
  · exact ⟨.still (.refl s), rfl, by simp⟩
  · exact ⟨.still (.quiet quiet_ackProbe), rfl, by simp [trust.hearsay]⟩
  · exact sound_answerJoin fun hours => hspeaks (.inr hours)
  · next hkind =>
    refine ⟨.still (.quiet quiet_adopt), rfl, fun t ht => ?_⟩
    obtain ⟨u, hu, rfl⟩ := mem_map.mp ht
    obtain ⟨hin, halive⟩ := mem_filter.mp hu
    exact (hspeaks (.inl (by simp [hkind]))).snapshot hkind u hin (eq_of_beq halive)
  · exact .swim (moves_onSuspendAnnounced (trust.unsuspect _))
  · exact .same s

theorem sound_acked : (s.acked cfg msg now).Sound trust s := by
  unfold acked
  dsimp only
  split_ifs
  · exact .still (.quiet quiet_ackProbe)
  · exact ⟨.still (.refl s), rfl, by simp⟩
  · exact .same s

theorem sound_joined : (s.joined cfg msg).Sound trust s := by
  refine ⟨.still ?_, rfl, by simp [joined]⟩
  unfold joined
  dsimp only
  split
  · exact .refl s
  · exact still_clearLeaseOnProofOfLife

theorem sound_send {m : ControlMsg} : (s.send cfg env node m).Sound trust s := by
  unfold send
  split
  · exact .same s
  · exact ⟨.still (.quiet quiet_fillDigest), rfl, by simp⟩

theorem fine_sends {peers : List NodeId} {m : ControlMsg} :
    ∀ t ∈ peers.map (fun p => Task.send p m), t.Fine trust := by
  intro t ht
  obtain ⟨p, -, rfl⟩ := mem_map.mp ht
  trivial

theorem still_probe (p : Probe) : Still cfg s { s with probe := p } :=
  .quiet ⟨rfl, rfl, rfl, rfl, rfl, fun _ _ => rfl, fun h => h⟩

theorem sound_driveProbe : (s.driveProbe cfg now).Sound trust s := by
  unfold driveProbe
  split_ifs
  · exact .same s
  · exact .still (still_probe _)
  · exact .same s
  · split
    · exact ⟨.still (still_probe _), rfl, by simp⟩
    · exact ⟨.still (.refl s), rfl, by simp [trust.suspicion]⟩

theorem sound_indirect {first : Bool} {relays : List NodeId} {seq : UInt64} :
    (s.indirect first relays node seq).Sound trust s := by
  unfold indirect
  split
  · exact .same s
  · split
    · exact .same s
    · exact ⟨.still (.refl s), rfl, by simp⟩

theorem sound_startProbe : (s.startProbe cfg now).Sound trust s := by
  have hnext : Quiet s (s.nextProbeTarget cfg).2 := quiet_nextProbeTarget
  unfold startProbe
  split
  · exact .same s
  · split
    · next heq =>
      rw [heq] at hnext
      exact .still (.quiet hnext)
    · next heq =>
      rw [heq] at hnext
      exact ⟨.still (.quiet (hnext.congr rfl rfl rfl rfl rfl rfl)), rfl, by simp⟩

theorem sound_probeTombstones : (s.probeTombstones cfg now).Sound trust s := by
  unfold probeTombstones
  split
  · exact .same s
  · exact ⟨.still (.quiet (quiet_markProbed _)), rfl, fine_sends⟩

theorem sound_monitorCongestion : (s.monitorCongestion cfg env now).Sound trust s := by
  have hquiet : ∀ edge next, Still cfg s { s with congestedEdge := edge, nextCongestionRefresh := next } :=
    fun _ _ => .quiet ⟨rfl, rfl, rfl, rfl, rfl, fun _ _ => rfl, fun h => h⟩
  unfold monitorCongestion
  split
  · exact .same s
  · split_ifs
    · exact ⟨.still (hquiet _ _), rfl, fine_sends⟩
    · exact .same s
    · exact .still (hquiet _ _)
    · exact .same s

theorem sound_rejoin : (s.rejoin cfg now).Sound trust s := ⟨.still (.quiet quiet_rejoin), rfl, fine_sends⟩

theorem sound_enterFrame {f : MessageFrame} (hself : s.self_ = trust.self_)
    (hfine : (Task.enter (.frame f)).Fine trust) : (s.enterFrame cfg env f).Sound trust s := by
  have hquiet : Quiet s (s.admitControl cfg f.from_ env.now).2 := quiet_admitControl
  refine sound_ite (fun _ => .same s) fun hours =>
    sound_ite (fun _ => ⟨.still (.refl s), rfl, by simp⟩) fun hcontrol =>
    sound_ite (fun _ => .same s) fun _ => sound_ite (fun _ => .same s) fun _ =>
    sound_ite (fun _ => ⟨.still (.refl s), rfl, ?_⟩) fun _ => ?_
  · dsimp only
    split <;> simp
  · split
    next ok s' heq =>
      rw [heq] at hquiet
      split
      · exact .still (.quiet hquiet)
      · next m hm =>
        have hheard : trust.heard f.from_ m := by
          refine hfine (by rw [← hself]; exact not_not.mp hours) (by simpa using hcontrol) m ?_
          split at hm
          · exact hm
          · cases hm
        exact ⟨.still (.quiet hquiet), rfl, by simp [hheard]⟩

theorem sound_enter {c : Call} (hself : s.self_ = trust.self_) (hfine : (Task.enter c).Fine trust) :
    (s.enter cfg env c).Sound trust s := by
  cases c with
  | tick =>
    refine sound_ite (fun _ => .same s) fun _ => sound_ite (fun _ => ⟨.still (.refl s), rfl, ?_⟩) fun _ =>
      ⟨.still (.refl s), rfl, ?_⟩
    · dsimp only
      split <;> simp
    · simp [period]
  | frame f => exact sound_enterFrame hself hfine
  | leave who =>
    have hmay : ∀ inc, trust.may (.update who inc .left .here) := hfine
    exact sound_ite (fun _ => ⟨.still (.leave s), rfl, by simp⟩) fun _ =>
      ⟨.still (.refl s), rfl, by simp [hmay]⟩
  | admit_ joiner presented =>
    have hmay : ∀ inc, trust.may (.update joiner inc .alive .join) := hfine
    exact sound_ite (fun _ => .same s) fun _ => ⟨.still (.refl s), rfl, by simp [hmay]⟩
  | applyAdmission => exact ⟨.still (.refl s), rfl, by simp [enter]⟩
  | resume =>
    refine sound_ite (fun _ => .same s) fun _ =>
      ⟨.still (.quiet ⟨rfl, rfl, rfl, rfl, rfl, fun _ _ => rfl, fun h => h⟩), rfl, ?_⟩
    dsimp only
    split <;> simp
  | suspend why lease =>
    refine sound_ite (fun _ => .same s) fun _ => ⟨.still (.refl s), rfl, fun t ht => ?_⟩
    rcases mem_append.mp ht with ht | ht
    · exact fine_sends t ht
    · rw [mem_singleton.mp ht]
      trivial
  | networkChanged => exact sound_ite (fun _ => .same s) fun _ => .still (.quiet quiet_forgive)
  | requestJoin seed => exact ⟨.still (.refl s), rfl, by simp [enter]⟩
  | setOnline on => exact .still (.quiet ⟨rfl, rfl, rfl, rfl, rfl, fun _ _ => rfl, fun h => h⟩)
  | setAdmission snap => exact .still (.quiet ⟨rfl, rfl, rfl, rfl, rfl, fun _ _ => rfl, fun h => h⟩)
  | addEventSink => exact .still (.attach s)

theorem sound_exec (hself : s.self_ = trust.self_) (hfine : t.Fine trust) (hflush : t ≠ .flush)
    (hdenied : t = .evict → ∀ node ∈ s.denied, ∀ inc, trust.may (.update node inc .dead .here))
    (hreap : ∀ now, t = .reapSuspects now → trust.may (.reap now)) :
    (s.exec cfg env t).Sound trust s := by
  cases t with
  | enter c => exact sound_enter hself hfine
  | returned c => exact .same s
  | outside => exact .same s
  | flush => exact absurd rfl hflush
  | evict =>
    refine ⟨.still (.refl s), rfl, fun t ht => ?_⟩
    obtain ⟨id, hid, rfl⟩ := mem_map.mp ht
    exact hdenied rfl id hid
  | evictOne node => exact .swim (moves_evict hfine)
  | drainRefusals => exact hfine.elim
  | deliver i j => exact hfine.elim
  | handle m n => exact sound_handle hfine
  | answer m now => exact sound_answer hfine
  | acked m now => exact sound_acked
  | joined m => exact sound_joined
  | leasedPeerSpoke m => exact .still still_onLeasedPeerSpoke
  | apply node inc st src now => exact .swim (moves_applyUpdate hfine)
  | send node m => exact sound_send
  | expireLeases now =>
    refine ⟨.still (.quiet ⟨rfl, rfl, rfl, rfl, rfl, fun _ _ => rfl, fun h => h⟩), rfl, fun t ht => ?_⟩
    obtain ⟨id, -, rfl⟩ := mem_map.mp ht
    trivial
  | lapseLease id now => exact .swim (moves_lapseLease (trust.suspicion id))
  | reapSuspects now => exact .swim (.reap (hreap now rfl))
  | reapTombstones now => exact .still (.erased erased_reapTombstones)
  | reapUnverified now => exact .still still_reapUnverified
  | driveProbe now => exact sound_driveProbe
  | indirect first relays node seq => exact sound_indirect
  | settleProbe =>
    refine .still ?_
    split
    · exact still_probe _
    · exact .refl s
  | dropProbe => exact .still (still_probe _)
  | startProbe now => exact sound_startProbe
  | sendVerifies => exact ⟨.still (.quiet quiet_takeVerifies), rfl, fine_sends⟩
  | probeTombstones now => exact sound_probeTombstones
  | gossipRound now => exact ⟨.still (.refl s), rfl, fine_sends⟩
  | monitorCongestion now => exact sound_monitorCongestion
  | rejoin => exact sound_rejoin
  | fallAsleep => exact .still (.quiet ⟨rfl, rfl, rfl, rfl, rfl, fun _ _ => rfl, fun h => h⟩)

theorem still_flush : Still cfg s s.flush.swim := by
  unfold flush
  split
  · exact .refl s
  · exact .quiet ⟨rfl, rfl, rfl, rfl, rfl, fun _ _ => rfl, fun h => h⟩

/-- What every task does; those of the delivery loop also take events off the queue. -/
structure Outcome.Fine (trust : Trust cfg) (s : SwimMembership) (o : Outcome) : Prop where
  moves : ∃ s' pending flushing, Moves cfg trust.may s s' ∧ o.swim = { s' with pending, flushing }
  fine : ∀ u ∈ o.todo, u.plain = true → u.Fine trust

theorem fine_flush : s.flush.Fine trust s := by
  refine ⟨⟨s.flush.swim, _, _, .still still_flush, rfl⟩, fun u hu hplain => ?_⟩
  unfold flush at hu
  split at hu
  · cases hu
  · rcases mem_append.mp hu with hu | hu
    · split at hu
      · rw [mem_singleton.mp hu]
        trivial
      · cases hu
    · rw [mem_singleton.mp hu] at hplain
      cases hplain

theorem fine_drainRefusals : (s.drainRefusals cfg).Fine trust s := by
  have hquiet : Quiet s { s with extRefusals := [] } := ⟨rfl, rfl, rfl, rfl, rfl, fun _ _ => rfl, fun h => h⟩
  have hrefused : Moves cfg trust.may s (s.extRefusals.foldl
      (fun s r => s.refuse cfg r.node r.version r.reason false) { s with extRefusals := [] }) :=
    .still ((Still.quiet hquiet).trans still_refuseAll)
  unfold drainRefusals
  dsimp only
  split
  · exact ⟨⟨_, _, _, hrefused, rfl⟩, by simp⟩
  · exact ⟨⟨_, _, _, hrefused, rfl⟩, by simp [Task.plain]⟩

theorem fine_deliver {i j : Nat} : (s.deliver i j).Fine trust s := by
  unfold deliver
  split
  · exact ⟨⟨s, _, _, .still (.refl s), rfl⟩, by simp⟩
  · split
    · exact ⟨⟨s, _, _, .still (.refl s), rfl⟩, by simp [Task.plain]⟩
    · exact ⟨⟨s, _, _, .still (.refl s), rfl⟩, by simp [Task.plain]⟩

theorem fine_exec (hself : s.self_ = trust.self_) (hfine : t.plain = true → t.Fine trust)
    (hdenied : t = .evict → ∀ node ∈ s.denied, ∀ inc, trust.may (.update node inc .dead .here))
    (hreap : ∀ now, t = .reapSuspects now → trust.may (.reap now)) :
    (s.exec cfg env t).Fine trust s := by
  by_cases hplain : t.plain = true
  · by_cases hflush : t = .flush
    · rw [hflush]
      exact fine_flush
    · have hsound : (s.exec cfg env t).Sound trust s := sound_exec hself (hfine hplain) hflush hdenied hreap
      exact ⟨⟨_, _, _, hsound.moves, rfl⟩, fun u hu _ => hsound.fine u hu⟩
  · cases t with
    | drainRefusals => exact fine_drainRefusals
    | deliver i j => exact fine_deliver
    | _ => exact absurd rfl hplain

theorem Node.step_cases {n n' : Node} {l : Label} (h : n.step cfg l = some n') :
    (∃ c, l = .call c ∧ Node.callable n.todo = true ∧ n' = n.called c) ∨
    (∃ env t rest, n.todo = t :: rest ∧ n' = n.ran (n.swim.exec cfg env t) rest) ∨
    ∃ s, Quiet n.swim s ∧ n' = { n with swim := s } := by
  cases l with
  | call c =>
    simp only [Node.step, ite_none_right_eq_some, some.injEq] at h
    exact .inl ⟨c, rfl, h.1, h.2.symm⟩
  | run env =>
    simp only [Node.step] at h
    split at h
    · cases h
    · next t rest htodo =>
      cases h
      exact .inr (.inl ⟨env, t, rest, htodo, rfl⟩)
  | publish snap =>
    simp only [Node.step] at h
    split at h
    · cases h
    · split at h
      · cases h
        exact .inr (.inr ⟨{ n.swim with admission := some snap },
          ⟨rfl, rfl, rfl, rfl, rfl, fun _ _ => rfl, fun hd => hd⟩, rfl⟩)
      · cases h
  | markDirty =>
    simp only [Node.step, ite_none_right_eq_some, some.injEq] at h
    obtain ⟨-, rfl⟩ := h
    exact .inr (.inr ⟨{ n.swim with admissionDirty := true },
          ⟨rfl, rfl, rfl, rfl, rfl, fun _ _ => rfl, fun hd => hd⟩, rfl⟩)
  | noteTransportRefusal r =>
    simp only [Node.step] at h
    split at h
    all_goals cases h
    · exact .inr (.inr ⟨{ n.swim with extRefusals := n.swim.extRefusals ++ [r] },
          ⟨rfl, rfl, rfl, rfl, rfl, fun _ _ => rfl, fun hd => hd⟩, rfl⟩)
    · exact .inr (.inr ⟨n.swim, .refl _, rfl⟩)
  | rehash members =>
    simp only [Node.step, ite_none_right_eq_some, some.injEq] at h
    obtain ⟨hperm, rfl⟩ := h
    exact .inr (.inr ⟨{ n.swim with members }, .table fun id => by rw [AList.perm_lookup hperm], rfl⟩)

end

end Quark.Swim
