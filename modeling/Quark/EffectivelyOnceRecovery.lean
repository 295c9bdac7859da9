import Quark.EffectivelyOnceLog

/-! Runs of one effectively-once lane over its store: the mirrors of the live lane are the replay of the log, as long
as no delivery is marked under an id that two pending entries bear. -/
namespace Quark

open List InMemoryStore StoreEntry EffectivelyOnceLane LaneRecord

/-- Two entries of one id make a delivery mark ambiguous: the live lane drops one of them, the replay both. -/
def SoleId (outbox : List OutboxRecord) (outSender outSeq : UInt64) : Prop :=
  outbox.countP (fun o => o.hasId outSender outSeq) ≤ 1

/-- The entry that call `n` of a sink is about, as long as no entry of its id has gone. -/
def handedTo (outbox : List OutboxRecord) (n : Nat) : Option OutboxRecord :=
  outbox[n]?.bind fun o => outbox.find? fun o' => o'.hasId o.outSender o.outSeq

theorem eraseP_eq_filter {α : Type} {p : α → Bool} {xs : List α} (h : xs.countP p ≤ 1) :
    xs.eraseP p = xs.filter fun x => !p x := by
  induction xs with
  | nil => rfl
  | cons x xs ih =>
    by_cases hx : p x = true
    · rw [countP_cons_of_pos hx] at h
      have hzero : xs.countP p = 0 := by omega
      rw [eraseP_cons_of_pos hx, filter_cons_of_neg (by simp [hx]), eq_comm, filter_eq_self]
      intro y hy
      simpa using countP_eq_zero.mp hzero y hy
    · rw [countP_cons_of_neg hx] at h
      rw [eraseP_cons_of_neg hx, filter_cons_of_pos (by simp [hx]), ih h]

/-- The last number of an accepted batch is the one before the next to be used. -/
theorem increasingFrom_numberFrom {seq prev last : SeqNo} {record : List UInt8} {rest : List (List UInt8)}
    (h : increasingFrom prev (numberFrom seq (record :: rest)) = .ok last) :
    seq + UInt64.ofNat (record :: rest).length = last + 1 := by
  induction rest generalizing seq prev record with
  | nil =>
    simp only [numberFrom, increasingFrom] at h
    split at h
    · cases h
    · cases h
      rfl
  | cons next rest ih =>
    rw [numberFrom, increasingFrom] at h
    split at h
    · cases h
    · rw [← ih h, @List.length_cons _ record (next :: rest), UInt64.ofNat_add, UInt64.add_assoc,
        UInt64.add_comm 1]
      rfl

section

variable {outbox : List OutboxRecord} {a b : UInt64}

theorem SoleId.eraseP (h : SoleId outbox a b) :
    outbox.eraseP (fun o => o.hasId a b) = outbox.filter fun o => !o.hasId a b := eraseP_eq_filter h

theorem OutboxRecord.hasId_iff {o : OutboxRecord} : o.hasId a b = true ↔ (o.outSender, o.outSeq) = (a, b) := by
  simp [OutboxRecord.hasId]

theorem SoleId.filter_eraseP {c d : UInt64} (h : SoleId outbox a b) (hne : (c, d) ≠ (a, b)) :
    (outbox.eraseP fun o => o.hasId a b).filter (fun o => o.hasId c d) = outbox.filter fun o => o.hasId c d := by
  rw [h.eraseP, filter_filter]
  refine filter_congr fun o _ => ?_
  by_cases hcd : o.hasId c d
  · have hab : ¬ o.hasId a b = true := fun hab =>
      hne ((OutboxRecord.hasId_iff.mp hcd).symm.trans (OutboxRecord.hasId_iff.mp hab))
    simp [hcd, hab]
  · simp [hcd]

theorem SoleId.ne {done todo : List OutboxRecord} {o o' : OutboxRecord}
    (h : SoleId (done ++ o :: todo) o.outSender o.outSeq) (ho' : o' ∈ todo) :
    (o'.outSender, o'.outSeq) ≠ (o.outSender, o.outSeq) := by
  intro heq
  have hhere : o.hasId o.outSender o.outSeq = true := OutboxRecord.hasId_iff.mpr rfl
  have hlater : 0 < todo.countP fun x => x.hasId o.outSender o.outSeq :=
    countP_pos_iff.mpr ⟨o', ho', OutboxRecord.hasId_iff.mpr heq⟩
  rw [SoleId, countP_append, countP_cons, if_pos hhere] at h
  omega

end

/-- The actor of a lane, and the caps its activations set. -/
structure LaneConfig where
  self : ActorId
  watermarkCap : Nat
  replyCacheCap : Nat

structure LaneRun where
  lane : EffectivelyOnceLane
  store : InMemoryStore

inductive LaneCall
  | commit (inbound : MsgKey) (staged : List Staged)
  | markDelivered (outSender outSeq : UInt64)
  | deliverOutbox (sink : Nat → OutboxRecord → Result Bool)
  | reactivate

namespace LaneConfig

variable (cfg : LaneConfig)

def fresh (fence : FenceToken) (nextSeq : SeqNo) : EffectivelyOnceLane :=
  (create cfg.self fence nextSeq).setLimits cfg.watermarkCap cfg.replyCacheCap

def start : LaneRun :=
  let store := (({} : InMemoryStore).acquireFence cfg.self).2
  ⟨cfg.fresh (({} : InMemoryStore).entry cfg.self).nextOwner (store.lastSeq cfg.self + 1), store⟩

/-- What `reactivate` does: a new token, and a fresh lane that recovers. -/
def activate (store : InMemoryStore) : Option LaneRun :=
  match store.acquireFence cfg.self with
  | (.error _, _) => none
  | (.ok tok, store) =>
    match (cfg.fresh tok (store.lastSeq cfg.self + 1)).recover (fun _ => .ok ()) store with
    | .error _ => none
    | .ok lane => some ⟨lane, store⟩

def step (s : LaneRun) : LaneCall → Option LaneRun
  | .commit inbound staged =>
    let r := s.lane.commit (s.lane.begin inbound staged) s.store
    some ⟨r.2.1, r.2.2⟩
  | .markDelivered outSender outSeq =>
    let r := s.lane.markDelivered outSender outSeq s.store
    some ⟨r.2.1, r.2.2⟩
  | .deliverOutbox sink =>
    let r := s.lane.deliverOutbox sink s.store
    some ⟨r.2.1, r.2.2⟩
  | .reactivate => cfg.activate s.store

end LaneConfig

/-- No delivery is marked under an id that two pending entries bear. -/
def Unambiguous (s : LaneRun) : LaneCall → Prop
  | .markDelivered outSender outSeq => SoleId s.lane.outbox outSender outSeq
  | .deliverOutbox sink => ∀ n < s.lane.outbox.length, ∀ o ∈ handedTo s.lane.outbox n,
      (∀ k < n, ∀ o' ∈ handedTo s.lane.outbox k, (sink k o').isOk = true) →
        sink n o = .ok true → SoleId s.lane.outbox o.outSender o.outSeq
  | .commit _ _ | .reactivate => True

instance (outbox : List OutboxRecord) (outSender outSeq : UInt64) : Decidable (SoleId outbox outSender outSeq) :=
  inferInstanceAs (Decidable (_ ≤ 1))

instance (s : LaneRun) : (call : LaneCall) → Decidable (Unambiguous s call)
  | .markDelivered outSender outSeq => inferInstanceAs (Decidable (SoleId s.lane.outbox outSender outSeq))
  | .deliverOutbox sink => inferInstanceAs (Decidable (∀ n < s.lane.outbox.length, ∀ o ∈ handedTo s.lane.outbox n,
      (∀ k < n, ∀ o' ∈ handedTo s.lane.outbox k, (sink k o').isOk = true) →
        sink n o = .ok true → SoleId s.lane.outbox o.outSender o.outSeq))
  | .commit _ _ | .reactivate => isTrue trivial

/-- A fresh lane that recovers is the live one, up to its token. -/
structure Recovers (cfg : LaneConfig) (s : LaneRun) : Prop where
  same : ∀ fence seq onEvent lane, (cfg.fresh fence seq).recover onEvent s.store = .ok lane →
    lane = { s.lane with fence }
  total : ∀ fence seq onEvent, (∀ b, onEvent b = .ok ()) →
    ∃ lane, (cfg.fresh fence seq).recover onEvent s.store = .ok lane

/-- The live mirrors are the replay of the log. -/
structure Synced (cfg : LaneConfig) (lane : EffectivelyOnceLane) (store : InMemoryStore) : Prop where
  self : lane.self = cfg.self
  nextSeq : lane.nextSeq = store.lastSeq cfg.self + 1
  log : ∃ recs : List LaneRecord, (store.entry cfg.self).log.map EventRecord.record = recs.map encode ∧
    lane.mirrors = recs.foldl Mirrors.replay (cfg.fresh ⟨0⟩ 0).mirrors

section

variable {cfg : LaneConfig} {lane : EffectivelyOnceLane} {store store' : InMemoryStore} {s s' : LaneRun}

theorem Synced.recover (h : Synced cfg lane store) (fence : FenceToken) (seq : SeqNo)
    (onEvent : List UInt8 → Result Unit) : ∃ recs : List LaneRecord,
      (cfg.fresh fence seq).recover onEvent store = (hearAll onEvent recs).map fun _ => { lane with fence } := by
  obtain ⟨recs, hlog, hmirrors⟩ := h.log
  refine ⟨recs, ?_⟩
  rw [@EffectivelyOnceLane.recover_eq (cfg.fresh fence seq) _ recs store hlog]
  congr 1
  funext _
  have hreplay : recs.foldl Mirrors.replay (cfg.fresh fence seq).mirrors = lane.mirrors := hmirrors.symm
  rw [hreplay]
  have hrecovered : ((cfg.fresh fence seq).withMirrors lane.mirrors).recovered store =
      { lane with self := cfg.self, fence, nextSeq := store.lastSeq cfg.self + 1 } := rfl
  rw [hrecovered, ← h.nextSeq, ← h.self]

theorem Synced.recovers (h : Synced cfg s.lane s.store) : Recovers cfg s := by
  constructor
  · intro fence seq onEvent lane hlane
    obtain ⟨recs, hrecover⟩ := h.recover fence seq onEvent
    rw [hrecover] at hlane
    cases hear : hearAll onEvent recs with
    | error err => rw [hear] at hlane; cases hlane
    | ok u =>
      rw [hear] at hlane
      cases hlane
      rfl
  · intro fence seq onEvent hon
    obtain ⟨recs, hrecover⟩ := h.recover fence seq onEvent
    rw [hrecover, hearAll_ok hon]
    exact ⟨_, rfl⟩

theorem Synced.append {lane' : EffectivelyOnceLane} {last : SeqNo} (h : Synced cfg lane store)
    (records : List (List UInt8)) (recs : List LaneRecord) (hne : records ≠ []) (hrecords : records = recs.map encode)
    (hself : lane'.self = lane.self) (hnext : lane'.nextSeq = lane.nextSeq + UInt64.ofNat records.length)
    (hmirrors : lane'.mirrors = recs.foldl Mirrors.replay lane.mirrors)
    (hlast : increasingFrom (store.entry cfg.self).lastSeq (numberFrom lane.nextSeq records) = .ok last) :
    Synced cfg lane' (store.put cfg.self
    ((store.entry cfg.self).withBatch (numberFrom lane.nextSeq records) last)) := by
  obtain ⟨done, hlog, hreplay⟩ := h.log
  refine ⟨hself.trans h.self, ?_, done ++ recs, ?_, ?_⟩
  · obtain ⟨record, rest, rfl⟩ := exists_cons_of_ne_nil hne
    rw [hnext, increasingFrom_numberFrom hlast]
    simp only [InMemoryStore.lastSeq, InMemoryStore.entry_put, StoreEntry.withBatch]
  · rw [InMemoryStore.entry_put, StoreEntry.withBatch, map_append, map_append, hlog, map_numberFrom,
      hrecords]
  · rw [hmirrors, hreplay, foldl_append]

theorem Synced.unchanged (h : Synced cfg lane store) (hentry : store'.entry cfg.self = store.entry cfg.self) :
    Synced cfg lane store' := by
  refine ⟨h.self, ?_, ?_⟩
  · rw [h.nextSeq, InMemoryStore.lastSeq, InMemoryStore.lastSeq, hentry]
  · rw [hentry]
    exact h.log

theorem Commit.records_ne_nil (c : Commit) : c.records ≠ [] := by
  simp [Commit.records]

theorem Synced.commit {c : Commit} (h : Synced cfg lane store) (hc : c.Addressed) :
    Synced cfg (lane.commit c store).2.1 (lane.commit c store).2.2 := by
  unfold EffectivelyOnceLane.commit
  obtain ⟨err, st, happend, hentry⟩ | ⟨last, -, hlast, happend⟩ :=
    InMemoryStore.appendBatch_cases store lane.self lane.fence (lane.batch c)
  · rw [happend]
    rw [h.self] at hentry
    exact h.unchanged hentry
  · rw [happend]
    rw [h.self] at hlast ⊢
    refine h.append c.records c.laneRecords c.records_ne_nil c.records_eq ?_ rfl ?_ hlast
    · rw [mirror_eq hc]
      rfl
    · rw [mirror_eq hc]
      rfl

theorem Synced.markDelivered {a b : UInt64} (h : Synced cfg lane store) (hsole : SoleId lane.outbox a b) :
    Synced cfg (lane.markDelivered a b store).2.1 (lane.markDelivered a b store).2.2 := by
  unfold EffectivelyOnceLane.markDelivered
  split
  · exact h
  · obtain ⟨err, st, happend, hentry⟩ | ⟨last, -, hlast, happend⟩ :=
      appendBatch_cases store lane.self lane.fence
        [⟨lane.nextSeq, encodeDurable ({ outSender := a, outSeq := b } : DeliveredRecord)⟩]
    · rw [happend]
      rw [h.self] at hentry
      exact h.unchanged hentry
    · rw [happend]
      rw [h.self] at hlast ⊢
      refine h.append [encodeDurable ({ outSender := a, outSeq := b } : DeliveredRecord)]
        [.delivered { outSender := a, outSeq := b }] (cons_ne_nil _ _) rfl h.self.symm rfl ?_ hlast
      simp only [mirrors, hsole.eraseP, foldl_cons, foldl_nil, Mirrors.replay]

theorem outbox_markDelivered (lane : EffectivelyOnceLane) (store : InMemoryStore) (a b : UInt64)
    (hok : (lane.markDelivered a b store).1 = .ok ()) :
    (lane.markDelivered a b store).2.1.outbox = lane.outbox.eraseP fun o => o.hasId a b := by
  unfold markDelivered at hok ⊢
  split
  · next hnone => exact (eraseP_of_forall_not (find?_eq_none.mp hnone)).symm
  · next hsome =>
    simp only [hsome] at hok
    split at hok
    · cases hok
    · rfl

/-- What the sink can be asked about is what it was asked about in the outbox the call began with. -/
theorem Synced.deliverIds {sink : Nat → OutboxRecord → Result Bool} {outbox todo : List OutboxRecord}
    {calls acked : Nat}
    (hok : ∀ n < outbox.length, ∀ o ∈ handedTo outbox n,
      (∀ k < n, ∀ o' ∈ handedTo outbox k, (sink k o').isOk = true) →
        sink n o = .ok true → SoleId outbox o.outSender o.outSeq)
    (hprev : ∀ k < calls, ∀ o' ∈ handedTo outbox k, (sink k o').isOk = true)
    (htodo : outbox.drop calls = todo) (h : Synced cfg lane store)
    (hsame : ∀ o ∈ todo, lane.outbox.filter (fun o' => o'.hasId o.outSender o.outSeq) =
      outbox.filter fun o' => o'.hasId o.outSender o.outSeq) :
    Synced cfg
      (deliverIds sink calls acked lane store (todo.map fun o => (o.outSender, o.outSeq))).2.1
      (deliverIds sink calls acked lane store (todo.map fun o => (o.outSender, o.outSeq))).2.2 := by
  induction todo generalizing calls acked lane store with
  | nil => exact h
  | cons o todo ih =>
    have hnth : outbox[calls]? = some o := by
      have hhead : (outbox.drop calls)[0]? = outbox[calls + 0]? := getElem?_drop
      rw [htodo] at hhead
      exact hhead.symm
    have htail : outbox.drop (calls + 1) = todo := by
      rw [← drop_drop, htodo]
      rfl
    have hsplit : outbox = outbox.take calls ++ o :: todo := by
      rw [← htodo, take_append_drop]
    have hfind : lane.outbox.find? (fun o' => o'.hasId o.outSender o.outSeq) =
        outbox.find? fun o' => o'.hasId o.outSender o.outSeq := by
      rw [← head?_filter, ← head?_filter, hsame o mem_cons_self]
    rw [map_cons, deliverIds, hfind]
    cases hrec : outbox.find? fun o' => o'.hasId o.outSender o.outSeq with
    | none =>
      have hmem : o ∈ outbox := by
        rw [hsplit]
        simp
      exact absurd (OutboxRecord.hasId_iff.mpr rfl) (find?_eq_none.mp hrec o hmem)
    | some rec =>
      have hhanded : handedTo outbox calls = some rec := by
        rw [handedTo, hnth]
        exact hrec
      have hid := find?_some hrec
      simp only [OutboxRecord.hasId_iff, Prod.mk.injEq] at hid
      have hnext : ∀ acked, sink calls rec = .ok acked → ∀ k < calls + 1, ∀ o' ∈ handedTo outbox k,
          (sink k o').isOk = true := by
        intro acked hsink k hk o' ho'
        rcases Nat.lt_succ_iff_lt_or_eq.mp hk with hlt | rfl
        · exact hprev k hlt o' ho'
        · rw [hhanded] at ho'
          cases ho'
          rw [hsink]
          rfl
      have hrest : ∀ o' ∈ todo, o' ∈ o :: todo := fun o' ho' => mem_cons_of_mem _ ho'
      cases hsink : sink calls rec with
      | error err =>
        simp only [hsink]
        exact h
      | ok ack =>
        cases ack with
        | false =>
          simp only [hsink]
          exact ih (hnext _ hsink) htail h fun o' ho' => hsame o' (hrest o' ho')
        | true =>
          simp only [hsink]
          have hsole := hok calls (List.getElem?_eq_some_iff.mp hnth).1 rec hhanded hprev hsink
          rw [hid.1, hid.2] at hsole
          have hsole' : SoleId lane.outbox o.outSender o.outSeq := by
            rw [SoleId, countP_eq_length_filter, hsame o mem_cons_self,
              ← countP_eq_length_filter]
            exact hsole
          have hsynced := h.markDelivered hsole'
          have houtbox := outbox_markDelivered lane store o.outSender o.outSeq
          generalize lane.markDelivered o.outSender o.outSeq store = marked at hsynced houtbox ⊢
          obtain ⟨res, lane', store'⟩ := marked
          cases res with
          | error err => exact hsynced
          | ok u =>
            refine ih (hnext _ hsink) htail hsynced fun o' ho' => ?_
            rw [hsplit] at hsole
            rw [← hsame o' (hrest o' ho'), show lane'.outbox = _ from houtbox rfl]
            exact hsole'.filter_eraseP (hsole.ne ho')

theorem Synced.deliverOutbox {sink : Nat → OutboxRecord → Result Bool} (h : Synced cfg s.lane s.store)
    (hok : Unambiguous s (.deliverOutbox sink)) :
    Synced cfg (s.lane.deliverOutbox sink s.store).2.1 (s.lane.deliverOutbox sink s.store).2.2 :=
  h.deliverIds hok (fun _ hk => absurd hk (Nat.not_lt_zero _)) rfl fun _ _ => rfl

theorem synced_activate (h : Synced cfg s.lane s.store) (hactivate : cfg.activate s.store = some s') :
    Synced cfg s'.lane s'.store := by
  unfold LaneConfig.activate acquireFence at hactivate
  obtain ⟨recs, hlog, -⟩ := h.log
  have hentry : ∀ tok, (s.store.put cfg.self ((s.store.entry cfg.self).withOwner tok)).entry cfg.self =
      (s.store.entry cfg.self).withOwner tok := fun tok => entry_put _ _ _
  simp only at hactivate
  have hlog' : ∀ tok, ((s.store.put cfg.self ((s.store.entry cfg.self).withOwner tok)).entry cfg.self).log.map
      EventRecord.record = recs.map encode := by
    intro tok
    rw [hentry]
    exact hlog
  rw [recover_eq (hlog' _), hearAll_ok fun _ => rfl] at hactivate
  cases hactivate
  refine ⟨rfl, rfl, recs, ?_, rfl⟩
  rw [hentry]
  exact hlog

theorem synced_start : Synced cfg cfg.start.lane cfg.start.store := by
  refine ⟨rfl, rfl, [], ?_, rfl⟩
  simp only [LaneConfig.start, acquireFence, entry_put]
  rfl

theorem synced_step {call : LaneCall} (h : Synced cfg s.lane s.store) (hok : Unambiguous s call)
    (hstep : cfg.step s call = some s') : Synced cfg s'.lane s'.store := by
  cases call with
  | commit inbound staged =>
    cases hstep
    exact h.commit (s.lane.begin_spec inbound staged).1
  | markDelivered outSender outSeq =>
    cases hstep
    exact h.markDelivered hok
  | deliverOutbox sink =>
    cases hstep
    exact h.deliverOutbox hok
  | reactivate => exact synced_activate h hstep

/-- As long as no delivery is marked under an id that two pending entries bear, recovery gives the live lane. -/
theorem recovers_of_reach (h : Machine.Reach cfg.step Unambiguous cfg.start s) : Recovers cfg s :=
  (h.invariant (I := fun s => Synced cfg s.lane s.store) synced_start
    fun _ _ _ hsynced hok hstep => synced_step hsynced hok hstep).recovers

end

section

/-- An actor, one that answers it, and an outbound body. -/
def order : LaneConfig := ⟨⟨⟨1⟩, 7⟩, 0, 0⟩

def inventory : ActorId := ⟨⟨2⟩, 9⟩

/-- Two senders, each with its message 1; its handler sends one message. -/
def fanIn : List LaneCall :=
  [.commit ⟨1, 1⟩ [.send inventory emptyBlob], .commit ⟨2, 1⟩ [.send inventory emptyBlob, .reply emptyBlob]]

def firstOut : MsgKey := deriveOutbound order.self.hash ⟨1, 1⟩ 0

theorem recovers_after_ack : ∃ s, Machine.run (Machine.guarded order.step Unambiguous) order.start
    [.commit ⟨1, 1⟩ [.send inventory emptyBlob, .send inventory emptyBlob],
    .markDelivered firstOut.sender firstOut.seq,
      .reactivate, .commit ⟨2, 1⟩ [.reply emptyBlob], .deliverOutbox fun _ _ => .ok true] = some s ∧
      Recovers order s := by
  obtain ⟨s, hs⟩ := Option.isSome_iff_exists.mp
    (show (Machine.run (Machine.guarded order.step Unambiguous) order.start
    [.commit ⟨1, 1⟩ [.send inventory emptyBlob, .send inventory emptyBlob],
    .markDelivered firstOut.sender firstOut.seq,
      .reactivate, .commit ⟨2, 1⟩ [.reply emptyBlob], .deliverOutbox fun _ _ => .ok true]).isSome = true by
    decide +kernel)
  exact ⟨s, hs, recovers_of_reach (Machine.reach_of_run hs)⟩

/-- What the inventory has not had yet is pending in the live lane, and gone after recovery. -/
theorem outbound_lost : ∃ s, Machine.run order.step order.start
    (fanIn ++ [.markDelivered firstOut.sender firstOut.seq]) = some s ∧ ¬ Recovers order s := by
  have hrun : (Machine.run order.step order.start (fanIn ++ [.markDelivered firstOut.sender firstOut.seq])).map
      (fun s => (s.lane.outbox.length, ((order.fresh ⟨0⟩ 0).recover (fun _ => .ok ()) s.store).map
        fun lane => lane.outbox.length)) = some (1, .ok 0) := by decide +kernel
  obtain ⟨s, hs, hlengths⟩ := Option.map_eq_some_iff.mp hrun
  refine ⟨s, hs, fun h => ?_⟩
  obtain ⟨lane, hlane⟩ := h.total ⟨0⟩ 0 (fun _ => .ok ()) fun _ => rfl
  simp only [hlane, Except.map, Prod.mk.injEq, Except.ok.injEq] at hlengths
  rw [h.same _ _ _ _ hlane] at hlengths
  exact absurd (hlengths.1.symm.trans hlengths.2) (by decide)

end

end Quark
