import Quark.EffectivelyOnce

/-! The durable log of an effectively-once actor as a list of records, and recovery as their replay. -/
namespace Quark

open List

namespace InMemoryStore

variable {st : InMemoryStore} {id : ActorId} {tok : FenceToken} {batch : List EventRecord}

theorem appendBatch_cases (st : InMemoryStore) (id : ActorId) (tok : FenceToken) (batch : List EventRecord) :
    (∃ err st', st.appendBatch id tok batch = (.error err, st') ∧ st'.entry id = st.entry id) ∨
    ∃ last, (st.entry id).fencedOut tok = false ∧ StoreEntry.increasingFrom (st.entry id).lastSeq batch = .ok last ∧
      st.appendBatch id tok batch = (.ok (), st.put id ((st.entry id).withBatch batch last)) := by
  unfold appendBatch
  cases hbatch : (st.entry id).admitBatch tok batch with
  | error err => exact .inl ⟨err, st.put id (st.entry id), by simp only [hbatch], entry_put _ _ _⟩
  | ok last =>
    refine .inr ⟨last, ?_, ?_, by simp only [hbatch]⟩
    · unfold StoreEntry.admitBatch at hbatch
      split at hbatch
      · cases hbatch
      · next hfenced => exact Bool.eq_false_iff.mpr hfenced
    · unfold StoreEntry.admitBatch at hbatch
      split at hbatch
      · cases hbatch
      · exact hbatch

end InMemoryStore

@[simp] theorem map_numberFrom (seq : SeqNo) (records : List (List UInt8)) :
    (numberFrom seq records).map EventRecord.record = records := by
  induction records generalizing seq with
  | nil => rfl
  | cons record rest ih => rw [numberFrom, map_cons, ih]

inductive LaneRecord
  | event (e : DomainEvent)
  | watermark (r : WatermarkRecord)
  | outbox (r : OutboxRecord)
  | reply (r : ReplyRecord)
  | delivered (r : DeliveredRecord)

def LaneRecord.encode : LaneRecord → List UInt8
  | .event e => e.encode
  | .watermark r => encodeDurable r
  | .outbox r => encodeDurable r
  | .reply r => encodeDurable r
  | .delivered r => encodeDurable r

/-- What a lane keeps in memory of the log. -/
structure Mirrors where
  watermark : BoundedMap UInt64 UInt64
  replyCache : BoundedMap UInt64 CachedReply
  outbox : List OutboxRecord

def Mirrors.replay (m : Mirrors) : LaneRecord → Mirrors
  | .event _ => m
  | .watermark r => { m with watermark := m.watermark.touch r.sender 0 (EffectivelyOnceLane.raise r.seq) }
  | .outbox r => { m with outbox := m.outbox ++ [r] }
  | .reply r => { m with replyCache := m.replyCache.touch r.replyTo ⟨0, emptyBlob⟩ fun _ => ⟨r.inSeq, r.body⟩ }
  | .delivered r => { m with outbox := m.outbox.filter fun o => !o.hasId r.outSender r.outSeq }

def LaneRecord.type : LaneRecord → TypeKey
  | .event e => e.type
  | .watermark _ => fingerprint WatermarkRecord
  | .outbox _ => fingerprint OutboxRecord
  | .reply _ => fingerprint ReplyRecord
  | .delivered _ => fingerprint DeliveredRecord

def Commit.laneRecords (c : Commit) : List LaneRecord :=
  c.events.map .event ++ [.watermark { sender := c.inbound.sender, seq := c.inbound.seq }] ++
    c.outbox.map .outbox ++ c.reply.toList.map .reply

theorem LaneRecord.peek_encode (rec : LaneRecord) :
    ∃ version, peekRecordHeader rec.encode = .ok ⟨rec.type, version⟩ := by
  cases rec with
  | event e => exact ⟨_, peek_durableHeader _ _ _⟩
  | watermark r | outbox r | reply r | delivered r => exact ⟨_, peek_encodeDurable r⟩

theorem Commit.records_eq (c : Commit) : c.records = c.laneRecords.map LaneRecord.encode := by
  simp [Commit.records, Commit.laneRecords, LaneRecord.encode, Function.comp_def]

/-- What the caller's fold of the domain says to a record. -/
def LaneRecord.hear (onEvent : List UInt8 → Result Unit) : LaneRecord → Result Unit
  | .event e => onEvent e.encode
  | .watermark _ | .outbox _ | .reply _ | .delivered _ => .ok ()

def hearAll (onEvent : List UInt8 → Result Unit) : List LaneRecord → Result Unit
  | [] => .ok ()
  | rec :: recs =>
    match rec.hear onEvent with
    | .error err => .error err
    | .ok () => hearAll onEvent recs

theorem hearAll_ok {onEvent : List UInt8 → Result Unit} (hon : ∀ b, onEvent b = .ok ()) (recs : List LaneRecord) :
    hearAll onEvent recs = .ok () := by
  induction recs with
  | nil => rfl
  | cons rec recs ih =>
    have hrec : rec.hear onEvent = .ok () := by
      cases rec with
      | event e => exact hon _
      | _ => rfl
    rw [hearAll, hrec]
    exact ih

namespace EffectivelyOnceLane

def mirrors (lane : EffectivelyOnceLane) : Mirrors := ⟨lane.watermark, lane.replyCache, lane.outbox⟩

def withMirrors (lane : EffectivelyOnceLane) (m : Mirrors) : EffectivelyOnceLane :=
  { lane with watermark := m.watermark, replyCache := m.replyCache, outbox := m.outbox }

def replayLog (onEvent : List UInt8 → Result Unit) (lane : EffectivelyOnceLane) (store : InMemoryStore) :
    Result EffectivelyOnceLane := do
  let log ← store.readLog lane.self 0
  log.foldlM (fun lane rec => recoverRecord onEvent lane rec.record) lane

def recovered (lane : EffectivelyOnceLane) (store : InMemoryStore) : EffectivelyOnceLane :=
  { lane with nextSeq := store.lastSeq lane.self + 1 }

section

variable {lane lane' : EffectivelyOnceLane} {onEvent : List UInt8 → Result Unit} {recs : List LaneRecord}
  {store : InMemoryStore}

theorem recoverRecord_encode (rec : LaneRecord) : recoverRecord onEvent lane rec.encode =
    (rec.hear onEvent).map fun _ => lane.withMirrors (lane.mirrors.replay rec) := by
  have hnodup := internalKeys_nodup
  simp only [internalKeys, nodup_cons, mem_cons, not_mem_nil, or_false, not_or] at hnodup
  obtain ⟨⟨hob, hrp, hdl⟩, ⟨hrp', hdl'⟩, hdl'', _⟩ := hnodup
  obtain ⟨version, hpeek⟩ := rec.peek_encode
  unfold recoverRecord
  rw [hpeek]
  cases rec with
  | event e =>
    have hforeign := e.foreign
    simp only [internalKeys, mem_cons, not_mem_nil, or_false, not_or] at hforeign
    obtain ⟨h1, h2, h3, h4⟩ := hforeign
    simp only [LaneRecord.type, h1, h2, h3, h4, if_false]
    rfl
  | watermark r =>
    simp only [LaneRecord.type, if_true, LaneRecord.encode, decode_encodeDurable]
    rfl
  | outbox r =>
    simp only [LaneRecord.type, Ne.symm hob, if_false, if_true, LaneRecord.encode, decode_encodeDurable]
    rfl
  | reply r =>
    simp only [LaneRecord.type, Ne.symm hrp, Ne.symm hrp', if_false, if_true, LaneRecord.encode,
      decode_encodeDurable]
    rfl
  | delivered r =>
    simp only [LaneRecord.type, Ne.symm hdl, Ne.symm hdl', Ne.symm hdl'', if_false, if_true, LaneRecord.encode,
      decode_encodeDurable]
    rfl

theorem foldlM_recoverRecord {log : List EventRecord}
    (hlog : log.map EventRecord.record = recs.map LaneRecord.encode) :
    log.foldlM (fun lane rec => recoverRecord onEvent lane rec.record) lane =
      (hearAll onEvent recs).map fun _ => lane.withMirrors (recs.foldl Mirrors.replay lane.mirrors) := by
  induction recs generalizing log lane with
  | nil =>
    rw [map_nil, map_eq_nil_iff] at hlog
    rw [hlog]
    rfl
  | cons rec recs ih =>
    cases log with
    | nil => cases hlog
    | cons r log =>
      simp only [map_cons, List.cons.injEq] at hlog
      rw [foldlM_cons, hlog.1, recoverRecord_encode, hearAll, foldl_cons]
      cases rec.hear onEvent with
      | error err => rfl
      | ok u => exact ih hlog.2

theorem replayLog_eq (hlog : (store.entry lane.self).log.map EventRecord.record = recs.map LaneRecord.encode) :
    lane.replayLog onEvent store =
      (hearAll onEvent recs).map fun _ => lane.withMirrors (recs.foldl Mirrors.replay lane.mirrors) := by
  have hfilter : (store.entry lane.self).log.filter (fun ev => 0 ≤ ev.seq) = (store.entry lane.self).log := by
    rw [filter_eq_self]
    intro ev _
    simp
  unfold replayLog InMemoryStore.readLog
  rw [hfilter]
  exact foldlM_recoverRecord hlog

theorem recover_eq_replayLog (onEvent : List UInt8 → Result Unit) (lane : EffectivelyOnceLane)
    (store : InMemoryStore) :
    lane.recover onEvent store = (lane.replayLog onEvent store).map fun lane => lane.recovered store := by
  unfold recover replayLog
  simp only [InMemoryStore.readLog, bind, Except.bind, pure, Except.pure, Except.map]
  rfl

theorem recover_eq (hlog : (store.entry lane.self).log.map EventRecord.record = recs.map LaneRecord.encode) :
    lane.recover onEvent store = (hearAll onEvent recs).map fun _ =>
      (lane.withMirrors (recs.foldl Mirrors.replay lane.mirrors)).recovered store := by
  rw [recover_eq_replayLog, replayLog_eq hlog]
  cases hearAll onEvent recs <;> rfl

end

end EffectivelyOnceLane

section

variable {m : Mirrors} {c : Commit} {lane : EffectivelyOnceLane}

theorem foldl_replay_events (es : List DomainEvent) : (es.map LaneRecord.event).foldl Mirrors.replay m = m := by
  induction es with
  | nil => rfl
  | cons e es ih => exact ih

theorem foldl_replay_outbox (os : List OutboxRecord) :
    (os.map LaneRecord.outbox).foldl Mirrors.replay m = { m with outbox := m.outbox ++ os } := by
  induction os generalizing m with
  | nil => simp
  | cons o os ih =>
    rw [map_cons, foldl_cons, ih]
    simp [Mirrors.replay]

def Commit.Addressed (c : Commit) : Prop := ∀ r, c.reply = some r → r.replyTo = c.inbound.sender

theorem Commit.Addressed.stage {h : UInt64} (hc : c.Addressed) (st : Staged) : (c.stage h st).Addressed := by
  cases st with
  | event e => exact hc
  | send target body => exact hc
  | reply body =>
    intro r hr
    cases hr
    rfl

theorem EffectivelyOnceLane.begin_spec (lane : EffectivelyOnceLane) (inbound : MsgKey) (staged : List Staged) :
    (lane.begin inbound staged).Addressed ∧ (lane.begin inbound staged).inbound = inbound := by
  unfold EffectivelyOnceLane.begin
  have hgen : ∀ c : Commit, c.Addressed → (staged.foldl (Commit.stage lane.self.hash) c).Addressed ∧
      (staged.foldl (Commit.stage lane.self.hash) c).inbound = c.inbound := by
    induction staged with
    | nil => exact fun c hc => ⟨hc, rfl⟩
    | cons st staged ih =>
      intro c hc
      obtain ⟨haddressed, hinbound⟩ := ih (c.stage lane.self.hash st) (hc.stage st)
      refine ⟨haddressed, hinbound.trans ?_⟩
      cases st <;> rfl
  exact hgen _ nofun

theorem EffectivelyOnceLane.mirror_eq (hc : c.Addressed) :
    lane.mirror c = lane.withMirrors (c.laneRecords.foldl Mirrors.replay lane.mirrors) := by
  unfold Commit.laneRecords
  rw [foldl_append, foldl_append, foldl_append, foldl_replay_events, foldl_cons, foldl_nil,
    foldl_replay_outbox]
  unfold EffectivelyOnceLane.mirror
  cases hreply : c.reply with
  | none => rfl
  | some r =>
    rw [← hc r hreply]
    rfl

end

end Quark
