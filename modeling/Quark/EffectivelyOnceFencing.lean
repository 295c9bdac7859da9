import Quark.EffectivelyOnceLog

/-! Activations of one effectively-once actor over a shared store: each acquires a token, recovers and handles its
messages, and their steps interleave. -/
namespace Quark

open Function List Option InMemoryStore StoreEntry EffectivelyOnceLane LaneRecord

/-- What the store took: the batch of a commit, or a delivery mark. -/
inductive LogEntry
  | batch (c : Commit)
  | mark (r : DeliveredRecord)

def LogEntry.laneRecords : LogEntry → List LaneRecord
  | .batch c => c.laneRecords
  | .mark r => [.delivered r]

def LogEntry.inbound : LogEntry → Option MsgKey
  | .batch c => some c.inbound
  | .mark _ => none

inductive Phase
  | idle
  | fenced (tok : FenceToken)
  | replayed (lane : EffectivelyOnceLane)
  | live (lane : EffectivelyOnceLane)
  | handling (lane : EffectivelyOnceLane) (inbound : MsgKey)

namespace Phase

def lane : Phase → Option EffectivelyOnceLane
  | .idle | .fenced _ => none
  | .replayed lane | .live lane | .handling lane _ => some lane

def token : Phase → Option FenceToken
  | .idle => none
  | .fenced tok => some tok
  | .replayed lane | .live lane | .handling lane _ => some lane.fence

end Phase

/-- `latest` is who acquired last; `history` is what the store took. -/
structure Fleet (A : Type) where
  store : InMemoryStore
  phase : A → Phase
  latest : Option A
  history : List LogEntry

inductive FleetLabel (A : Type)
  | acquire (a : A)
  | replay (a : A) (nextSeq : SeqNo) (onEvent : List UInt8 → Result Unit)
  | recovered (a : A)
  | receive (a : A) (m : MsgKey)
  | commit (a : A) (staged : List Staged)
  | markDelivered (a : A) (outSender outSeq : UInt64)
  | crash (a : A)

def FleetLabel.activation {A : Type} : FleetLabel A → A
  | .acquire a | .replay a _ _ | .recovered a | .receive a _ | .commit a _ | .markDelivered a _ _ | .crash a => a

namespace Fleet

variable {A : Type}

def start : Fleet A := { store := {}, phase := fun _ => .idle, latest := none, history := [] }

variable [DecidableEq A]

def at_ (s : Fleet A) (a : A) (p : Phase) : Fleet A := { s with phase := update s.phase a p }

def written (s : Fleet A) (a : A) (entry : LogEntry) :
    (Result Unit × EffectivelyOnceLane × InMemoryStore) → Fleet A
  | (.error _, lane, store) => { s with store }.at_ a (.live lane)
  | (.ok (), lane, store) => { s with store, history := s.history ++ [entry] }.at_ a (.live lane)

def step (actor : ActorId) (s : Fleet A) : FleetLabel A → Option (Fleet A)
  | .acquire a =>
    match s.phase a, s.store.acquireFence actor with
    | .idle, (.ok tok, store) => some ({ s with store, latest := some a }.at_ a (.fenced tok))
    | _, _ => none
  | .replay a nextSeq onEvent =>
    match s.phase a with
    | .fenced tok =>
      match (create actor tok nextSeq).replayLog onEvent s.store with
      | .ok lane => some (s.at_ a (.replayed lane))
      | .error _ => some (s.at_ a .idle)
    | _ => none
  | .recovered a =>
    match s.phase a with
    | .replayed lane => some (s.at_ a (.live (lane.recovered s.store)))
    | _ => none
  | .receive a m =>
    match s.phase a with
    | .live lane => if lane.isDuplicate m then some s else some (s.at_ a (.handling lane m))
    | _ => none
  | .commit a staged =>
    match s.phase a with
    | .handling lane m =>
      let c := lane.begin m staged
      let r := lane.commit c s.store
      some (s.written a (.batch c) (r.1.map fun _ => (), r.2))
    | _ => none
  | .markDelivered a outSender outSeq =>
    match s.phase a with
    | .live lane =>
      if lane.outbox.any fun o => o.hasId outSender outSeq then
        some (s.written a (.mark { outSender, outSeq }) (lane.markDelivered outSender outSeq s.store))
      else some s
    | _ => none
  | .crash a => some (s.at_ a .idle)

end Fleet

/-- The token counter does not wrap. -/
def Unwrapped {A : Type} (actor : ActorId) (s : Fleet A) : FleetLabel A → Prop
  | .acquire _ => (s.store.entry actor).owner.value + 1 ≠ 0
  | _ => True

section

variable {m : Mirrors} {k : MsgKey} {rec : LaneRecord} {recs : List LaneRecord}

/-- The message is one that `is_duplicate` reports. -/
def Mirrors.Covers (m : Mirrors) (k : MsgKey) : Prop := ∃ w, m.watermark.find k.sender = some w ∧ k.seq ≤ w

theorem EffectivelyOnceLane.isDuplicate_of_covers {lane : EffectivelyOnceLane} (h : lane.mirrors.Covers k) :
    lane.isDuplicate k = true := by
  obtain ⟨w, hfind, hle⟩ := h
  rw [isDuplicate, show lane.watermark.find k.sender = some w from hfind]
  exact decide_eq_true hle

theorem EffectivelyOnceLane.le_raise (seq w : UInt64) : seq ≤ raise seq w ∧ w ≤ raise seq w := by
  unfold raise
  split
  · next hlt => exact ⟨UInt64.le_refl _, UInt64.le_of_lt hlt⟩
  · next hge => exact ⟨UInt64.not_lt.mp hge, UInt64.le_refl _⟩

@[simp] theorem Mirrors.cap_replay : (m.replay rec).watermark.cap = m.watermark.cap := by
  cases rec with
  | watermark r => exact BoundedMap.cap_touch
  | _ => rfl

theorem Mirrors.cap_foldl : (recs.foldl Mirrors.replay m).watermark.cap = m.watermark.cap := by
  induction recs generalizing m with
  | nil => rfl
  | cons rec recs ih => rw [foldl_cons, ih, cap_replay]

theorem Mirrors.Covers.replay (h : m.Covers k) (hcap : m.watermark.cap = 0) : (m.replay rec).Covers k := by
  obtain ⟨w, hfind, hle⟩ := h
  cases rec with
  | watermark r =>
    by_cases hs : k.sender = r.sender
    · refine ⟨raise r.seq w, ?_, UInt64.le_trans hle (le_raise _ _).2⟩
      rw [hs] at hfind ⊢
      simp only [Mirrors.replay, BoundedMap.find_touch, hfind, getD_some]
    · refine ⟨w, ?_, hle⟩
      simp only [Mirrors.replay, BoundedMap.find_touch_uncapped hcap hs, hfind]
  | _ => exact ⟨w, hfind, hle⟩

theorem Mirrors.covers_replay (m : Mirrors) (r : WatermarkRecord) :
    (m.replay (.watermark r)).Covers ⟨r.sender, r.seq⟩ :=
  ⟨_, BoundedMap.find_touch, (le_raise _ _).1⟩

theorem Mirrors.covers_foldl (hcap : m.watermark.cap = 0)
    (h : m.Covers k ∨ LaneRecord.watermark ⟨k.sender, k.seq⟩ ∈ recs) : (recs.foldl Mirrors.replay m).Covers k := by
  induction recs generalizing m with
  | nil =>
    rcases h with h | h
    · exact h
    · cases h
  | cons rec recs ih =>
    refine ih (by rw [cap_replay, hcap]) ?_
    rcases h with h | h
    · exact .inl (h.replay hcap)
    · rcases mem_cons.mp h with rfl | h
      · exact .inl (covers_replay m _)
      · exact .inr h

theorem Commit.watermark_mem (c : Commit) : watermark ⟨c.inbound.sender, c.inbound.seq⟩ ∈ c.laneRecords := by
  simp [Commit.laneRecords]

/-- The log holds the watermark of every message the history has a batch for. -/
theorem watermark_mem_history {history : List LogEntry} (h : k ∈ history.filterMap LogEntry.inbound) :
    watermark ⟨k.sender, k.seq⟩ ∈ history.flatMap LogEntry.laneRecords := by
  obtain ⟨e, he, hinbound⟩ := mem_filterMap.mp h
  refine mem_flatMap.mpr ⟨e, he, ?_⟩
  cases e with
  | batch c =>
    cases hinbound
    exact c.watermark_mem
  | mark r => cases hinbound

end

section

variable {actor : ActorId} {lane : EffectivelyOnceLane} {store : InMemoryStore} {c : Commit} {x y : UInt64}

/-- What the store answers to the batch of a lane: it takes the records, all of them, from a token that is not
superseded, or the entry is as it was. -/
structure Taken (actor : ActorId) (fence : FenceToken) (entry : LogEntry) (store store' : InMemoryStore) : Prop where
  fenced : (store.entry actor).fencedOut fence = false
  owner : (store'.entry actor).owner = (store.entry actor).owner
  log : (store'.entry actor).log.map EventRecord.record =
    (store.entry actor).log.map EventRecord.record ++ entry.laneRecords.map encode

theorem taken_put {fence : FenceToken} {seq last : SeqNo} (entry : LogEntry)
    (hfenced : (store.entry actor).fencedOut fence = false) : Taken actor fence entry store (store.put actor
      ((store.entry actor).withBatch (numberFrom seq (entry.laneRecords.map encode)) last)) := by
  refine ⟨hfenced, ?_, ?_⟩
  · rw [entry_put]
    rfl
  · rw [entry_put, withBatch, map_append, map_numberFrom]

theorem commit_cases (store : InMemoryStore) (hself : lane.self = actor) (hc : c.Addressed) :
    (∃ err store', lane.commit c store = (.error err, lane, store') ∧ store'.entry actor = store.entry actor) ∨
    ∃ r lane' store', lane.commit c store = (.ok r, lane', store') ∧ Taken actor lane.fence (.batch c) store store' ∧
      lane'.self = actor ∧ lane'.fence = lane.fence ∧
      lane'.mirrors = c.laneRecords.foldl Mirrors.replay lane.mirrors := by
  subst hself
  unfold commit
  obtain ⟨err, st, happend, hentry⟩ | ⟨last, hfenced, -, happend⟩ :=
    appendBatch_cases store lane.self lane.fence (lane.batch c)
  · rw [happend]
    exact .inl ⟨err, st, rfl, hentry⟩
  · rw [happend, batch, c.records_eq]
    refine .inr ⟨_, _, _, rfl, taken_put (.batch c) hfenced, ?_, ?_, ?_⟩
    · rw [mirror_eq hc]
      rfl
    · rw [mirror_eq hc]
      rfl
    · rw [mirror_eq hc]
      rfl

theorem markDelivered_cases (store : InMemoryStore) (hself : lane.self = actor)
    (hpending : lane.outbox.any (fun o => o.hasId x y) = true) :
    (∃ err store', lane.markDelivered x y store = (.error err, lane, store') ∧
      store'.entry actor = store.entry actor) ∨
    ∃ lane' store', lane.markDelivered x y store = (.ok (), lane', store') ∧
      Taken actor lane.fence (.mark ⟨x, y⟩) store store' ∧ lane'.self = actor ∧ lane'.fence = lane.fence ∧
        lane'.watermark = lane.watermark := by
  subst hself
  unfold markDelivered
  obtain ⟨o, hfind⟩ := isSome_iff_exists.mp (find?_isSome.mpr (any_eq_true.mp hpending))
  rw [hfind]
  obtain ⟨err, st, happend, hentry⟩ | ⟨last, hfenced, -, happend⟩ :=
    appendBatch_cases store lane.self lane.fence
      [⟨lane.nextSeq, encodeDurable ({ outSender := x, outSeq := y } : DeliveredRecord)⟩]
  · simp only [happend]
    exact .inl ⟨err, st, rfl, hentry⟩
  · simp only [happend]
    exact .inr ⟨_, _, rfl, taken_put (.mark ⟨x, y⟩) hfenced, rfl, rfl, rfl⟩

end

namespace Fleet

variable {A : Type} {actor : ActorId} {s s' : Fleet A} {a b : A}

/-- What an activation may rely on: only the one that acquired last has a token the store takes, and its mirrors
cover the log. -/
structure PhaseOk (actor : ActorId) (s : Fleet A) (a : A) (p : Phase) : Prop where
  token : ∀ tok, p.token = some tok →
    tok.value ≤ (s.store.entry actor).owner.value ∧
    (s.latest ≠ some a → tok.value < (s.store.entry actor).owner.value)
  lane : ∀ lane, p.lane = some lane → lane.self = actor ∧ lane.watermark.cap = 0
  covers : ∀ lane, s.latest = some a → p.lane = some lane →
    ∀ m ∈ s.history.filterMap LogEntry.inbound, lane.mirrors.Covers m
  handling : ∀ lane m, p = .handling lane m → lane.isDuplicate m = false

structure Fenced (actor : ActorId) (s : Fleet A) : Prop where
  log : (s.store.entry actor).log.map EventRecord.record =
    (s.history.flatMap LogEntry.laneRecords).map encode
  once : (s.history.filterMap LogEntry.inbound).Nodup
  phase : ∀ a, PhaseOk actor s a (s.phase a)

theorem PhaseOk.congr {p : Phase} (h : PhaseOk actor s a p)
    (howner : (s'.store.entry actor).owner = (s.store.entry actor).owner) (hlatest : s'.latest = s.latest)
    (hhistory : s'.history = s.history) : PhaseOk actor s' a p := by
  refine ⟨?_, h.lane, ?_, h.handling⟩
  · rw [howner, hlatest]
    exact h.token
  · rw [hlatest, hhistory]
    exact h.covers

theorem phaseOk_idle : PhaseOk actor s a .idle := by
  constructor <;> simp [Phase.token, Phase.lane]

theorem fenced_start : Fenced actor (start : Fleet A) :=
  ⟨rfl, nodup_nil, fun _ => phaseOk_idle⟩

theorem Fenced.replayed {tok : FenceToken} {nextSeq : SeqNo} {onEvent : List UInt8 → Result Unit}
    {lane : EffectivelyOnceLane} (h : Fenced actor s) (hphase : s.phase a = .fenced tok)
    (hreplay : (create actor tok nextSeq).replayLog onEvent s.store = .ok lane) :
    PhaseOk actor s a (.replayed lane) := by
  have hok := h.phase a
  rw [hphase] at hok
  rw [replayLog_eq h.log] at hreplay
  cases hear : hearAll onEvent (s.history.flatMap LogEntry.laneRecords) with
  | error err =>
    rw [hear] at hreplay
    cases hreplay
  | ok u =>
    rw [hear] at hreplay
    cases hreplay
    refine ⟨hok.token, ?_, ?_, nofun⟩
    · intro l hl
      cases hl
      exact ⟨rfl, Mirrors.cap_foldl⟩
    · intro l _ hl m hm
      cases hl
      exact Mirrors.covers_foldl rfl (.inr (watermark_mem_history hm))

variable [DecidableEq A]

section

variable {p : Phase}

@[simp] theorem phase_at : (s.at_ a p).phase a = p := update_self _ _ _

@[simp] theorem phase_at_ne (h : b ≠ a) : (s.at_ a p).phase b = s.phase b := update_of_ne h _ _

@[simp] theorem store_at : (s.at_ a p).store = s.store := rfl

@[simp] theorem history_at : (s.at_ a p).history = s.history := rfl

theorem Fenced.at_ {store : InMemoryStore} (h : Fenced actor s) (hentry : store.entry actor = s.store.entry actor)
    (hp : PhaseOk actor s a p) : Fenced actor ({ s with store }.at_ a p) := by
  refine ⟨?_, h.once, fun b => ?_⟩
  · rw [store_at, history_at, hentry]
    exact h.log
  · have howner : (store.entry actor).owner = (s.store.entry actor).owner := by rw [hentry]
    by_cases hb : b = a
    · subst hb
      rw [phase_at]
      exact hp.congr howner rfl rfl
    · rw [phase_at_ne hb]
      exact (h.phase b).congr howner rfl rfl

theorem PhaseOk.latest {tok : FenceToken} {entry : LogEntry} {store : InMemoryStore} (h : PhaseOk actor s a p)
    (htok : p.token = some tok) (htaken : Taken actor tok entry s.store store) : s.latest = some a := by
  by_contra hlatest
  have hlt := (h.token tok htok).2 hlatest
  have hfenced := htaken.fenced
  simp [fencedOut, hlt] at hfenced

theorem Fenced.took {store : InMemoryStore} {entry : LogEntry} {lane lane' : EffectivelyOnceLane} (h : Fenced actor s)
    (hlane : (s.phase a).lane = some lane) (htoken : (s.phase a).token = some lane.fence)
    (htaken : Taken actor lane.fence entry s.store store)
    (hnew : ∀ m, entry.inbound = some m → m ∉ s.history.filterMap LogEntry.inbound ∧ lane'.mirrors.Covers m)
    (hself : lane'.self = actor) (hfence : lane'.fence = lane.fence) (hcap : lane'.watermark.cap = 0)
    (hkeep : ∀ m, lane.mirrors.Covers m → lane'.mirrors.Covers m) :
    Fenced actor ({ s with store, history := s.history ++ [entry] }.at_ a (.live lane')) := by
  have hlatest := (h.phase a).latest htoken htaken
  refine ⟨?_, ?_, fun b => ?_⟩
  · rw [store_at, history_at, htaken.log, h.log, flatMap_append, map_append, flatMap_singleton]
  · rw [history_at, filterMap_append]
    cases hm : entry.inbound with
    | none => simpa [hm] using h.once
    | some m =>
      rw [filterMap_cons_some hm, filterMap_nil]
      exact nodup_append.mpr ⟨h.once, nodup_singleton m, fun x hx y hy hxy =>
        (hnew m hm).1 (mem_singleton.mp hy ▸ hxy ▸ hx)⟩
  · by_cases hb : b = a
    · subst hb
      rw [phase_at]
      constructor
      · intro tok htok
        cases htok
        rw [store_at, htaken.owner, hfence]
        exact (h.phase b).token _ htoken
      · intro l hl
        cases hl
        exact ⟨hself, hcap⟩
      · intro l _ hl m hm
        cases hl
        rw [history_at, filterMap_append, mem_append] at hm
        rcases hm with hm | hm
        · exact hkeep m ((h.phase b).covers lane hlatest hlane m hm)
        · obtain ⟨e, he, hm⟩ := mem_filterMap.mp hm
          rw [mem_singleton.mp he] at hm
          exact (hnew m hm).2
      · intro l m hl
        cases hl
    · rw [phase_at_ne hb]
      have hother : s.latest ≠ some b := by
        rw [hlatest]
        exact fun heq => hb (some.inj heq).symm
      refine ⟨?_, (h.phase b).lane, fun l hl => absurd hl hother, (h.phase b).handling⟩
      rw [store_at, htaken.owner]
      exact (h.phase b).token

/-- A step of `a` writes nothing, or `a` acquired last and the store took one entry of it, whole. -/
def WritesWhole (actor : ActorId) (s : Fleet A) (a : A) (s' : Fleet A) : Prop :=
  ((s'.store.entry actor).log = (s.store.entry actor).log ∧ s'.history = s.history) ∨
  s.latest = some a ∧ ∃ entry : LogEntry, s'.history = s.history ++ [entry] ∧
    (s'.store.entry actor).log.map EventRecord.record =
      (s.store.entry actor).log.map EventRecord.record ++ entry.laneRecords.map encode

theorem Fenced.refused {store : InMemoryStore} (h : Fenced actor s) (hentry : store.entry actor = s.store.entry actor)
    (hp : PhaseOk actor s a p) : Fenced actor ({ s with store }.at_ a p) ∧
      WritesWhole actor s a ({ s with store }.at_ a p) :=
  ⟨h.at_ hentry hp, .inl ⟨congrArg StoreEntry.log hentry, rfl⟩⟩

theorem Fenced.commit {lane : EffectivelyOnceLane} {m : MsgKey} {c : Commit} (h : Fenced actor s)
    (hphase : s.phase a = .handling lane m) (hc : c.Addressed) (hinbound : c.inbound = m) :
    let s' := s.written a (.batch c) ((lane.commit c s.store).1.map fun _ => (), (lane.commit c s.store).2)
    Fenced actor s' ∧ WritesWhole actor s a s' := by
  have hok := h.phase a
  rw [hphase] at hok
  obtain ⟨hself, hcap⟩ := hok.lane lane rfl
  obtain ⟨err, store, hcommit, hentry⟩ | ⟨r, lane', store, hcommit, htaken, hself', hfence, hmirrors⟩ :=
    commit_cases s.store hself hc
  · rw [hcommit]
    refine h.refused hentry ⟨hok.token, hok.lane, hok.covers, nofun⟩
  · have hwatermark : lane'.watermark = lane'.mirrors.watermark := rfl
    rw [hcommit]
    refine ⟨h.took (by rw [hphase]; rfl) (by rw [hphase]; rfl) htaken ?_ hself' hfence ?_ ?_, .inr ⟨?_, _, rfl, ?_⟩⟩
    · intro k hk
      cases hk
      refine ⟨fun hmem => ?_, ?_⟩
      · have hdup := isDuplicate_of_covers
          (hok.covers lane (hok.latest rfl htaken) rfl _ hmem)
        rw [hinbound, hok.handling lane m rfl] at hdup
        cases hdup
      · rw [hmirrors]
        exact Mirrors.covers_foldl hcap (.inr c.watermark_mem)
    · rw [hwatermark, hmirrors, Mirrors.cap_foldl]
      exact hcap
    · intro k hk
      rw [hmirrors]
      exact Mirrors.covers_foldl hcap (.inl hk)
    · exact hok.latest rfl htaken
    · exact htaken.log

theorem Fenced.markDelivered {lane : EffectivelyOnceLane} {x y : UInt64} (h : Fenced actor s)
    (hphase : s.phase a = .live lane) (hpending : lane.outbox.any (fun o => o.hasId x y) = true) :
    let s' := s.written a (.mark ⟨x, y⟩) (lane.markDelivered x y s.store)
    Fenced actor s' ∧ WritesWhole actor s a s' := by
  have hok := h.phase a
  rw [hphase] at hok
  obtain ⟨hself, hcap⟩ := hok.lane lane rfl
  obtain ⟨err, store, hmark, hentry⟩ | ⟨lane', store, hmark, htaken, hself', hfence, hwatermark⟩ :=
    markDelivered_cases s.store hself hpending
  · rw [hmark]
    exact h.refused hentry hok
  · rw [hmark]
    refine ⟨h.took (by rw [hphase]; rfl) (by rw [hphase]; rfl) htaken ?_ hself' hfence ?_ ?_, .inr ⟨?_, _, rfl, ?_⟩⟩
    · intro k hk
      cases hk
    · rw [hwatermark]
      exact hcap
    · rintro k ⟨w, hfind, hle⟩
      refine ⟨w, ?_, hle⟩
      rw [show lane'.mirrors.watermark = lane.mirrors.watermark from hwatermark]
      exact hfind
    · exact hok.latest rfl htaken
    · exact htaken.log

theorem Fenced.acquire (h : Fenced actor s) (hwrap : (s.store.entry actor).owner.value + 1 ≠ 0) {tok : FenceToken}
    {store : InMemoryStore} (hacquire : s.store.acquireFence actor = (.ok tok, store)) :
    Fenced actor ({ s with store, latest := some a }.at_ a (.fenced tok)) := by
  cases hacquire
  have hentry : (s.store.put actor ((s.store.entry actor).withOwner (s.store.entry actor).nextOwner)).entry actor =
      (s.store.entry actor).withOwner (s.store.entry actor).nextOwner := entry_put _ _ _
  have hlt : (s.store.entry actor).owner.value < (s.store.entry actor).owner.value + 1 := by
    grind -ring -linarith
  refine ⟨?_, h.once, fun b => ?_⟩
  · rw [store_at, hentry]
    exact h.log
  · by_cases hb : b = a
    · subst hb
      rw [phase_at]
      constructor
      · intro tok htok
        cases htok
        rw [store_at, hentry]
        exact ⟨UInt64.le_refl _, fun hne => absurd rfl hne⟩
      all_goals
        intro l
        simp [Phase.lane]
    · rw [phase_at_ne hb]
      refine ⟨?_, (h.phase b).lane, ?_, (h.phase b).handling⟩
      · intro tok htok
        rw [store_at, hentry]
        have hle := ((h.phase b).token tok htok).1
        have hlt := UInt64.lt_of_le_of_lt hle hlt
        exact ⟨UInt64.le_of_lt hlt, fun _ => hlt⟩
      · intro l hlatest
        exact absurd (some.inj hlatest).symm hb

theorem fenced_step {label : FleetLabel A} (h : Fenced actor s) (hstep : step actor s label = some s') :
    (Unwrapped actor s label → Fenced actor s') ∧ WritesWhole actor s label.activation s' := by
  cases label with
  | acquire a =>
    simp only [step] at hstep
    split at hstep
    · next tok store hphase hacquire =>
      cases hstep
      refine ⟨fun hwrap => h.acquire hwrap hacquire, .inl ⟨?_, rfl⟩⟩
      cases hacquire
      rw [store_at, entry_put]
      rfl
    · cases hstep
  | replay a nextSeq onEvent =>
    simp only [step] at hstep
    split at hstep
    · next tok hphase =>
      split at hstep
      · next lane hreplay =>
        cases hstep
        exact (h.refused rfl (h.replayed hphase hreplay)).imp_left fun hf _ => hf
      · cases hstep
        exact (h.refused rfl phaseOk_idle).imp_left fun hf _ => hf
    · cases hstep
  | recovered a =>
    simp only [step] at hstep
    split at hstep
    · next lane hphase =>
      cases hstep
      have hok := h.phase a
      rw [hphase] at hok
      have hlive : PhaseOk actor s a (.live (lane.recovered s.store)) := by
        refine ⟨hok.token, ?_, ?_, nofun⟩
        · intro l hl
          cases hl
          exact hok.lane lane rfl
        · intro l hlatest hl
          cases hl
          exact hok.covers lane hlatest rfl
      exact (h.refused rfl hlive).imp_left fun hf _ => hf
    · cases hstep
  | receive a m =>
    simp only [step] at hstep
    split at hstep
    · next lane hphase =>
      have hok := h.phase a
      rw [hphase] at hok
      split at hstep
      · cases hstep
        exact ⟨fun _ => h, .inl ⟨rfl, rfl⟩⟩
      · next hnew =>
        cases hstep
        have hhandling : PhaseOk actor s a (.handling lane m) := by
          refine ⟨hok.token, hok.lane, hok.covers, ?_⟩
          intro l k hl
          cases hl
          exact Bool.eq_false_iff.mpr hnew
        exact (h.refused rfl hhandling).imp_left fun hf _ => hf
    · cases hstep
  | commit a staged =>
    simp only [step] at hstep
    split at hstep
    · next lane m hphase =>
      cases hstep
      obtain ⟨hc, hinbound⟩ := lane.begin_spec m staged
      exact (h.commit hphase hc hinbound).imp_left fun hf _ => hf
    · cases hstep
  | markDelivered a x y =>
    simp only [step] at hstep
    split at hstep
    · next lane hphase =>
      split at hstep
      · next hpending =>
        cases hstep
        exact (h.markDelivered hphase hpending).imp_left fun hf _ => hf
      · cases hstep
        exact ⟨fun _ => h, .inl ⟨rfl, rfl⟩⟩
    · cases hstep
  | crash a =>
    cases hstep
    exact (h.refused rfl phaseOk_idle).imp_left fun hf _ => hf

end

/-- The log is made of the batches and the marks that the store took, whole; no message has two batches. -/
structure EffectivelyOnce (actor : ActorId) (s : Fleet A) : Prop where
  whole : (s.store.entry actor).log.map EventRecord.record =
    (s.history.flatMap LogEntry.laneRecords).map encode
  once : (s.history.filterMap LogEntry.inbound).Nodup

/-- Unless the token counter wraps, no message is committed twice, batches are whole, and only the activation that
acquired last adds to the log. -/
theorem effectively_once_of_reach (h : Machine.Reach (step actor) (Unwrapped actor) start s) :
    EffectivelyOnce actor s ∧
      ∀ label s', step actor s label = some s' → WritesWhole actor s label.activation s' := by
  have hfenced : Fenced actor s := h.invariant fenced_start fun _ _ _ hinv hok hstep => (fenced_step hinv hstep).1 hok
  exact ⟨⟨hfenced.log, hfenced.once⟩, fun _ _ hstep => (fenced_step hfenced hstep).2⟩

section

def client : ActorId := ⟨⟨1⟩, 7⟩

def takesAll : List UInt8 → Result Unit := fun _ => .ok ()

instance (s : Fleet A) : (label : FleetLabel A) → Decidable (Unwrapped actor s label)
  | .acquire _ => inferInstanceAs (Decidable (_ ≠ _))
  | .replay .. | .recovered _ | .receive .. | .commit .. | .markDelivered .. | .crash _ => isTrue trivial

/-- The first activation is handling a message when the second takes over and commits it. -/
def takeover : List (FleetLabel Bool) :=
  [.acquire false, .replay false 1 takesAll, .recovered false, .receive false ⟨5, 1⟩, .acquire true,
    .replay true 1 takesAll, .recovered true, .receive true ⟨5, 1⟩, .commit true [.reply emptyBlob]]

theorem effectively_once_after_takeover : ∃ s,
    Machine.run (Machine.guarded (step client) (Unwrapped client)) start takeover = some s ∧ s.latest = some true ∧
      EffectivelyOnce client s ∧
        ∀ label s', step client s label = some s' → WritesWhole client s label.activation s' := by
  obtain ⟨s, hs, hlatest⟩ := map_eq_some_iff.mp (show
    (Machine.run (Machine.guarded (step client) (Unwrapped client)) start takeover).map (fun s => s.latest) =
      some (some true) by decide +kernel)
  exact ⟨s, hs, hlatest, effectively_once_of_reach (Machine.reach_of_run hs)⟩

/-- An activation that acquires and crashes, over and over, counts the token up. -/
theorem run_reacquire (actor : ActorId) (n : Nat) (hidle : s.phase a = .idle) : ∃ s',
    Machine.run (step actor) s (List.replicate n [.acquire a, .crash a]).flatten = some s' ∧
      s'.store.entry actor =
        (s.store.entry actor).withOwner ⟨(s.store.entry actor).owner.value + UInt64.ofNat n⟩ ∧
      s'.phase = s.phase ∧ (n ≠ 0 → s'.latest = some a) := by
  induction n generalizing s with
  | zero => exact ⟨s, rfl, by simp [withOwner], rfl, fun h => absurd rfl h⟩
  | succ n ih =>
    let e := s.store.entry actor
    let mid : Fleet A := ({ s with store := s.store.put actor (e.withOwner e.nextOwner), latest := some a }.at_ a
      (.fenced e.nextOwner)).at_ a .idle
    have hmid : mid.phase = s.phase := by
      change update (update s.phase a _) a _ = _
      rw [update_idem, ← hidle, update_eq_self]
    have hentry : mid.store.entry actor = e.withOwner e.nextOwner := entry_put _ _ _
    obtain ⟨s', hrun, hentry', hphase, hlatest⟩ := ih (s := mid) (by rw [hmid, hidle])
    refine ⟨s', ?_, ?_, hphase.trans hmid, fun _ => ?_⟩
    · rw [replicate_succ, flatten_cons, Machine.run, foldlM_append]
      simp only [foldlM_cons, foldlM_nil, step, hidle, acquireFence]
      exact hrun
    · rw [hentry', hentry]
      have hcount : e.owner.value + 1 + UInt64.ofNat n = e.owner.value + UInt64.ofNat (n + 1) := by
        rw [UInt64.ofNat_add, UInt64.add_assoc, UInt64.add_comm 1]
        rfl
      rw [← hcount]
      rfl
    · by_cases hn : n = 0
      · subst hn
        cases hrun
        rfl
      · exact hlatest hn

theorem superseded_writes_of_wrap {n : Nat} (hwrap : 1 + UInt64.ofNat n = 0) :
    ∃ s s', Machine.run (step client) start
      ([.acquire false, .replay false 1 takesAll, .recovered false, .receive false ⟨5, 1⟩] ++
        (List.replicate n [.acquire true, .crash true]).flatten) = some s ∧ s.latest = some true ∧
      step client s (.commit false []) = some s' ∧ (s'.store.entry client).log ≠ (s.store.entry client).log := by
  let store := (({} : InMemoryStore).acquireFence client).2
  let lane := create client ⟨1⟩ 1
  let mid : Fleet Bool := (((({ (start : Fleet Bool) with store, latest := some false }.at_ false
    (.fenced ⟨1⟩)).at_ false
    (.replayed lane)).at_ false (.live lane)).at_ false (.handling lane ⟨5, 1⟩))
  obtain ⟨s, hrun, hentry, hphase, hlatest⟩ := run_reacquire (s := mid) (a := true) client n rfl
  have hn : n ≠ 0 := by
    rintro rfl
    exact absurd hwrap (by decide)
  have hentry : s.store.entry client = {} := by
    rw [hentry]
    change StoreEntry.mk ⟨1 + UInt64.ofNat n⟩ 0 none [] = {}
    rw [hwrap]
  have hhandling : s.phase false = .handling lane ⟨5, 1⟩ := by rw [hphase]; rfl
  let batch := lane.batch (lane.begin ⟨5, 1⟩ [])
  have happend : s.store.appendBatch lane.self lane.fence batch =
      (.ok (), s.store.put client (({} : StoreEntry).withBatch batch 1)) := by
    unfold appendBatch
    rw [show lane.self = client from rfl, hentry]
    rfl
  refine ⟨s, { s with
      store := s.store.put client (({} : StoreEntry).withBatch batch 1)
      history := s.history ++ [LogEntry.batch (lane.begin ⟨5, 1⟩ [])] }.at_ false
        (.live { lane.mirror (lane.begin ⟨5, 1⟩ []) with nextSeq := 2 }), ?_, hlatest hn, ?_, ?_⟩
  · rw [Machine.run, foldlM_append]
    exact hrun
  · simp only [step, hhandling, commit]
    rw [happend]
    rfl
  · rw [store_at, entry_put, hentry]
    exact cons_ne_nil _ _

/-- After 2 ^ 64 acquisitions the owner is token 0: a token that was superseded writes again. -/
theorem superseded_writes : ∃ s s', Machine.run (step client) start
    ([.acquire false, .replay false 1 takesAll, .recovered false, .receive false ⟨5, 1⟩] ++
      (List.replicate (2 ^ 64 - 1) [.acquire true, .crash true]).flatten) = some s ∧ s.latest = some true ∧
    step client s (.commit false []) = some s' ∧ (s'.store.entry client).log ≠ (s.store.entry client).log :=
  superseded_writes_of_wrap (by decide)

end

end Fleet

end Quark
