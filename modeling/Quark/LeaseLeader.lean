import Mathlib.Data.Rat.Floor
import Quark.Lease

/-! At most one holder believes it is leader, and no term is granted to two. -/
namespace Quark.Lease

open List InMemoryStore

theorem LeaseArbiter.onRequest_to (cfg : Config) (key : ActorId) (available : Bool) (ar : LeaseArbiter)
    (store : InMemoryStore) (now : Ticks) (rq : Request) :
    (ar.onRequest cfg key available store now rq).1.to_ = rq.from_ ∧
      (ar.onRequest cfg key available store now rq).1.id = rq.id := by
  unfold LeaseArbiter.onRequest acquireFence
  split_ifs <;> exact ⟨rfl, rfl⟩

/-- A request is denied, or the holder keeps its term, or a new term begins after the lease and the quiet period. -/
theorem LeaseArbiter.onRequest_cases (cfg : Config) (key : ActorId) (available : Bool) (ar : LeaseArbiter)
    (store : InMemoryStore) (now : Ticks) (rq : Request) :
    ((ar.onRequest cfg key available store now rq).1.granted = false ∧
      (ar.onRequest cfg key available store now rq).2 = (ar, store)) ∨
    (ar.holder = some rq.from_ ∧ ar.onRequest cfg key available store now rq =
      (grant rq ar.term, { ar with expiry := now + cfg.duration }, store)) ∨
    (ar.quietUntil ≤ now ∧ ar.holder ≠ some rq.from_ ∧ (∀ p, ar.holder = some p → ar.expiry ≤ now) ∧
      ar.onRequest cfg key available store now rq =
        (grant rq (store.entry key).nextOwner,
          { ar with holder := some rq.from_, term := (store.entry key).nextOwner, expiry := now + cfg.duration },
          store.put key ((store.entry key).withOwner (store.entry key).nextOwner))) := by
  unfold LeaseArbiter.onRequest acquireFence
  by_cases hquiet : now < ar.quietUntil
  · rw [if_pos hquiet]
    exact .inl ⟨rfl, rfl⟩
  · rw [if_neg hquiet]
    by_cases hsame : ar.holder = some rq.from_
    · rw [if_pos hsame]
      exact .inr (.inl ⟨hsame, rfl⟩)
    · rw [if_neg hsame]
      by_cases hheld : ar.holder.isSome ∧ now < ar.expiry
      · rw [if_pos hheld]
        exact .inl ⟨rfl, rfl⟩
      · rw [if_neg hheld]
        by_cases hup : available = true
        · rw [if_pos hup]
          refine .inr (.inr ⟨not_lt.mp hquiet, hsame, fun p hp => ?_, rfl⟩)
          by_contra hlt
          exact hheld ⟨by rw [hp]; rfl, not_le.mp hlt⟩
        · rw [if_neg hup]
          exact .inl ⟨rfl, rfl⟩

theorem LeaseHolder.tick_cases (cfg : Config) (i : Peer) (h : LeaseHolder) (now : Ticks) :
    h.tick cfg i now = (none, h) ∨ h.tick cfg i now = (some { from_ := i, id := h.nextId + 1 },
      { h with outstanding := true, nextId := h.nextId + 1, curId := h.nextId + 1, sentAt := now }) := by
  unfold LeaseHolder.tick
  dsimp only
  split_ifs
  · exact .inl rfl
  · exact .inl rfl
  · exact .inl rfl
  · exact .inr rfl

/-- A reply changes the belief only if it grants the current request, and then the belief is about its sending. -/
theorem LeaseHolder.onReply_spec (cfg : Config) (h : LeaseHolder) (now : Ticks) (r : Reply) :
    (h.onReply cfg now r).nextId = h.nextId ∧ (h.onReply cfg now r).curId = h.curId ∧
      (h.onReply cfg now r).sentAt = h.sentAt ∧
      ((h.onReply cfg now r).validUntil = h.validUntil ∨
        r.granted = true ∧ r.id = h.curId ∧
        (h.onReply cfg now r).validUntil = h.sentAt + cfg.duration - cfg.margin) := by
  unfold LeaseHolder.onReply
  dsimp only
  split_ifs with hstale hdenied hold hlate
  · exact ⟨rfl, rfl, rfl, .inl rfl⟩
  · exact ⟨rfl, rfl, rfl, .inl rfl⟩
  · exact ⟨rfl, rfl, rfl, .inl rfl⟩
  · exact ⟨rfl, rfl, rfl, .inl rfl⟩
  · simp only [Bool.or_eq_true, Bool.not_eq_true', bne_iff_ne, ne_eq, not_or, Bool.not_eq_false, not_not]
      at hstale hdenied
    exact ⟨rfl, rfl, rfl, .inr ⟨hdenied, hstale.2, rfl⟩⟩

namespace Net

variable {K : Type} [Field K] [LinearOrder K] [FloorSemiring K]
variable {cfg : Config} {clocks : Clocks K cfg} {key : ActorId} {s s' : Net K} {i : Peer}

/-- The later of two grants to different holders is a whole lease later. -/
def Apart (clocks : Clocks K cfg) (x y : Reply × K) : Prop :=
  x.2 ≤ y.2 ∧ (x.1.granted = true → y.1.granted = true → x.1.to_ ≠ y.1.to_ →
    clocks.arbiter.ticks x.2 + cfg.duration ≤ clocks.arbiter.ticks y.2)

/-- What keeps another holder out for a lease after a grant: the quiet period, the expiry, or the past. -/
def Guarded (clocks : Clocks K cfg) (s : Net K) (x : Reply × K) : Prop :=
  (s.arbiter.holder = none → clocks.arbiter.ticks x.2 + cfg.duration ≤ s.arbiter.quietUntil) ∧
  (s.arbiter.holder = some x.1.to_ → clocks.arbiter.ticks x.2 + cfg.duration ≤ s.arbiter.expiry) ∧
  (∀ p, s.arbiter.holder = some p → p ≠ x.1.to_ →
    clocks.arbiter.ticks x.2 + cfg.duration ≤ clocks.arbiter.ticks s.now)

structure ArbiterOk (clocks : Clocks K cfg) (key : ActorId) (s : Net K) : Prop where
  origin : 0 ≤ s.now
  sent : ∀ q ∈ s.requests, 0 ≤ q.2 ∧ q.2 ≤ s.now
  asked : ∀ x ∈ s.replies, ∃ q ∈ s.requests, q.1.from_ = x.1.to_ ∧ q.1.id = x.1.id ∧ q.2 ≤ x.2
  past : ∀ x ∈ s.replies, x.2 ≤ s.now
  apart : s.replies.Pairwise (Apart clocks)
  guarded : ∀ x ∈ s.replies, x.1.granted = true → Guarded clocks s x
  bound : ∀ x ∈ s.replies, x.1.granted = true → x.1.term.value ≤ (s.store.entry key).owner.value
  held : ∀ p, s.arbiter.holder = some p → s.arbiter.term.value ≤ (s.store.entry key).owner.value ∧
    ∀ x ∈ s.replies, x.1.granted = true → x.1.term = s.arbiter.term → x.1.to_ = p
  unique : ∀ x ∈ s.replies, ∀ y ∈ s.replies, x.1.granted = true → y.1.granted = true → x.1.term = y.1.term →
    x.1.to_ = y.1.to_

structure HolderOk (clocks : Clocks K cfg) (s : Net K) (i : Peer) : Prop where
  ids : ∀ q ∈ s.requests, q.1.from_ = i → q.1.id ≤ (s.holder i).nextId
  current : (s.holder i).curId = (s.holder i).nextId
  sentAt : ∀ q ∈ s.requests, q.1.from_ = i → q.1.id = (s.holder i).curId →
    (s.holder i).sentAt = (clocks.holder i).ticks q.2
  belief : (s.holder i).validUntil = 0 ∨ ∃ x ∈ s.replies, x.1.granted = true ∧ x.1.to_ = i ∧ ∃ u, 0 ≤ u ∧ u ≤ x.2 ∧
    (s.holder i).validUntil = (clocks.holder i).ticks u + (cfg.duration - cfg.margin)

theorem HolderOk.frame (h : HolderOk clocks s i) (hholder : s'.holder i = s.holder i)
    (hrequests : ∀ q ∈ s'.requests, q.1.from_ = i → q ∈ s.requests) (hreplies : ∀ x ∈ s.replies, x ∈ s'.replies) :
    HolderOk clocks s' i := by
  constructor
  · intro q hq hfrom
    rw [hholder]
    exact h.ids q (hrequests q hq hfrom) hfrom
  · rw [hholder]
    exact h.current
  · intro q hq hfrom
    rw [hholder]
    exact h.sentAt q (hrequests q hq hfrom) hfrom
  · rw [hholder]
    refine h.belief.imp_right ?_
    rintro ⟨x, hx, hrest⟩
    exact ⟨x, hreplies x hx, hrest⟩

section

variable [IsStrictOrderedRing K]

theorem margin_covers (cfg : Config) : 2 * cfg.drift K * cfg.duration + 1 ≤ (cfg.margin : K) := by
  unfold Config.margin Config.drift
  have hdiv : cfg.duration * 2 * cfg.driftPpmBound ≤
      (cfg.duration * 2 * cfg.driftPpmBound / 1000000 + 1) * 1000000 :=
    le_of_lt ((Nat.div_lt_iff_lt_mul (by decide)).mp (Nat.lt_succ_self _))
  generalize cfg.duration * 2 * cfg.driftPpmBound / 1000000 = q at hdiv ⊢
  have hcast : ((cfg.duration * 2 * cfg.driftPpmBound : Nat) : K) ≤ (((q + 1) * 1000000 : Nat) : K) :=
    Nat.cast_le.mpr hdiv
  push_cast at hcast ⊢
  have hdrift : 2 * ((cfg.driftPpmBound : K) / 1000000) * cfg.duration =
      cfg.duration * 2 * cfg.driftPpmBound / 1000000 := by ring
  have hle : (cfg.duration : K) * 2 * cfg.driftPpmBound / 1000000 ≤ q + 1 := by
    rw [div_le_iff₀ (by norm_num)]
    exact hcast
  rw [hdrift]
  linarith

theorem drift_nonneg (cfg : Config) : 0 ≤ cfg.drift K := by
  unfold Config.drift
  positivity

theorem drift_le_one (hmargin : cfg.margin ≤ cfg.duration) : cfg.drift K ≤ 1 := by
  have hcovers := margin_covers (K := K) cfg
  have hle : (cfg.margin : K) ≤ cfg.duration := Nat.cast_le.mpr hmargin
  have hpos : 0 ≤ (cfg.duration : K) := Nat.cast_nonneg _
  by_contra hlt
  have hlarge : (cfg.duration : K) ≤ cfg.drift K * cfg.duration := le_mul_of_one_le_left hpos (le_of_not_ge hlt)
  linarith

theorem ArbiterOk.later (h : ArbiterOk clocks key s) (hmargin : cfg.margin ≤ cfg.duration) (hnow : s.now ≤ s'.now)
    (harbiter : s'.arbiter = s.arbiter) (hreplies : s'.replies = s.replies)
    (howner : (s.store.entry key).owner.value ≤ (s'.store.entry key).owner.value)
    (hmem : ∀ q ∈ s.requests, q ∈ s'.requests) (hsent : ∀ q ∈ s'.requests, q ∈ s.requests ∨ q.2 = s'.now) :
    ArbiterOk clocks key s' := by
  constructor
  · exact le_trans h.origin hnow
  · intro q hq
    rcases hsent q hq with hq | hq
    · exact ⟨(h.sent q hq).1, le_trans (h.sent q hq).2 hnow⟩
    · rw [hq]
      exact ⟨le_trans h.origin hnow, le_refl _⟩
  · intro x hx
    rw [hreplies] at hx
    obtain ⟨q, hq, hrest⟩ := h.asked x hx
    exact ⟨q, hmem q hq, hrest⟩
  · intro x hx
    rw [hreplies] at hx
    exact le_trans (h.past x hx) hnow
  · rw [hreplies]
    exact h.apart
  · intro x hx hgranted
    rw [hreplies] at hx
    obtain ⟨hnone, hsame, hother⟩ := h.guarded x hx hgranted
    unfold Guarded
    rw [harbiter]
    exact ⟨hnone, hsame, fun p hp hne => le_trans (hother p hp hne)
      (DriftClock.ticks_mono (drift_le_one hmargin) hnow)⟩
  · intro x hx hgranted
    rw [hreplies] at hx
    exact UInt64.le_trans (h.bound x hx hgranted) howner
  · intro p hp
    rw [harbiter] at hp ⊢
    rw [hreplies]
    exact ⟨UInt64.le_trans (h.held p hp).1 howner, (h.held p hp).2⟩
  · rw [hreplies]
    exact h.unique

end

section

variable {t : K} {rq : Request} {r : Reply} {j : Peer} {h' : LeaseHolder}

theorem ArbiterOk.push {x : Reply × K} {ar : LeaseArbiter} {store : InMemoryStore} (h : ArbiterOk clocks key s)
    (hnow : x.2 = s.now) (hasked : ∃ q ∈ s.requests, q.1.from_ = x.1.to_ ∧ q.1.id = x.1.id)
    (hapart : ∀ y ∈ s.replies, y.1.granted = true → x.1.granted = true → y.1.to_ ≠ x.1.to_ →
      clocks.arbiter.ticks y.2 + cfg.duration ≤ clocks.arbiter.ticks s.now)
    (hguarded : ∀ y ∈ s.replies ++ [x], y.1.granted = true → Guarded clocks { s with arbiter := ar } y)
    (hbound : ∀ y ∈ s.replies ++ [x], y.1.granted = true → y.1.term.value ≤ (store.entry key).owner.value)
    (hheld : ∀ p, ar.holder = some p → ar.term.value ≤ (store.entry key).owner.value ∧
      ∀ y ∈ s.replies ++ [x], y.1.granted = true → y.1.term = ar.term → y.1.to_ = p)
    (hunique : ∀ y ∈ s.replies, y.1.granted = true → x.1.granted = true → y.1.term = x.1.term → y.1.to_ = x.1.to_) :
    ArbiterOk clocks key { s with arbiter := ar, store, replies := s.replies ++ [x] } := by
  refine ⟨h.origin, h.sent, ?_, ?_, ?_, hguarded, hbound, hheld, ?_⟩
  · intro y hy
    rcases mem_append.mp hy with hy | hy
    · exact h.asked y hy
    · rw [mem_singleton.mp hy]
      obtain ⟨q, hq, hfrom, hid⟩ := hasked
      exact ⟨q, hq, hfrom, hid, by rw [hnow]; exact (h.sent q hq).2⟩
  · intro y hy
    rcases mem_append.mp hy with hy | hy
    · exact h.past y hy
    · rw [mem_singleton.mp hy, hnow]
  · refine pairwise_append.mpr ⟨h.apart, pairwise_singleton _ _, fun y hy z hz => ?_⟩
    rw [mem_singleton.mp hz]
    exact ⟨by rw [hnow]; exact h.past y hy, by rw [hnow]; exact hapart y hy⟩
  · intro y hy z hz hgy hgz hterm
    rcases mem_append.mp hy with hy | hy
    · rcases mem_append.mp hz with hz | hz
      · exact h.unique y hy z hz hgy hgz hterm
      · rw [mem_singleton.mp hz] at hgz hterm ⊢
        exact hunique y hy hgy hgz hterm
    · rcases mem_append.mp hz with hz | hz
      · rw [mem_singleton.mp hy] at hgy hterm ⊢
        exact (hunique z hz hgz hgy hterm.symm).symm
      · rw [mem_singleton.mp hy, mem_singleton.mp hz]

theorem HolderOk.tick (h : HolderOk clocks s i) (hstep : step clocks key s (.tick t i) = some s') :
    HolderOk clocks s' i := by
  simp only [step] at hstep
  split at hstep
  · cases hstep
    obtain htick | htick := LeaseHolder.tick_cases cfg i (s.holder i) ((clocks.holder i).ticks t)
    · rw [htick]
      refine h.frame holder_setHolder (fun q hq _ => ?_) fun x hx => hx
      simpa [setHolder] using hq
    · rw [htick]
      have hnew : ∀ q ∈ s.requests ++ [(({ from_ := i, id := (s.holder i).nextId + 1 } : Request), t)],
          q ∈ s.requests ∨ q = ({ from_ := i, id := (s.holder i).nextId + 1 }, t) := by
        intro q hq
        simpa using hq
      constructor
      · intro q hq hfrom
        rw [holder_setHolder]
        rcases hnew q hq with hq | rfl
        · exact Nat.le_succ_of_le (h.ids q hq hfrom)
        · exact le_rfl
      · rw [holder_setHolder]
      · intro q hq hfrom hid
        rw [holder_setHolder] at hid ⊢
        rcases hnew q hq with hq | rfl
        · exact absurd (h.ids q hq hfrom) (by rw [hid]; exact Nat.not_succ_le_self _)
        · rfl
      · rw [holder_setHolder]
        exact h.belief
  · cases hstep

theorem HolderOk.onReply (h : HolderOk clocks s r.to_) (ha : ArbiterOk clocks key s)
    (hmargin : cfg.margin ≤ cfg.duration) (hr : r ∈ s.replies.map Prod.fst) {now : Ticks} :
    HolderOk clocks (s.setHolder r.to_ ((s.holder r.to_).onReply cfg now r)) r.to_ := by
  obtain ⟨x, hx, rfl⟩ := mem_map.mp hr
  obtain ⟨hnext, hcur, hsent, hbelief⟩ := LeaseHolder.onReply_spec cfg (s.holder x.1.to_) now x.1
  constructor
  · rw [holder_setHolder, hnext]
    exact h.ids
  · rw [holder_setHolder, hnext, hcur]
    exact h.current
  · rw [holder_setHolder, hsent, hcur]
    exact h.sentAt
  · rw [holder_setHolder]
    rcases hbelief with hkept | ⟨hgranted, hid, hbelief⟩
    · rw [hkept]
      exact h.belief
    · obtain ⟨q, hq, hfrom, hqid, hbefore⟩ := ha.asked x hx
      refine .inr ⟨x, hx, hgranted, rfl, q.2, (ha.sent q hq).1, hbefore, ?_⟩
      rw [hbelief, h.sentAt q hq hfrom (hqid.trans hid), Nat.add_sub_assoc hmargin]

theorem HolderOk.believes (h : HolderOk clocks s i)
    (hbelieves : (s.holder i).believesLeader ((clocks.holder i).ticks t) = true) :
    ∃ x ∈ s.replies, x.1.granted = true ∧ x.1.to_ = i ∧ ∃ u, 0 ≤ u ∧ u ≤ x.2 ∧
      (clocks.holder i).ticks t < (clocks.holder i).ticks u + (cfg.duration - cfg.margin) := by
  unfold LeaseHolder.believesLeader at hbelieves
  have hlt : (clocks.holder i).ticks t < (s.holder i).validUntil := by
    simpa using (Bool.and_eq_true_iff.mp hbelieves).2
  rcases h.belief with hzero | ⟨x, hx, hgranted, hto, u, hu, hux, huntil⟩
  · rw [hzero] at hlt
    exact absurd hlt (Nat.not_lt_zero _)
  · exact ⟨x, hx, hgranted, hto, u, hu, hux, by rw [← huntil]; exact hlt⟩

structure NetOk (clocks : Clocks K cfg) (key : ActorId) (s : Net K) : Prop where
  arbiter : ArbiterOk clocks key s
  holder : ∀ i, HolderOk clocks s i

theorem netOk_start (store : InMemoryStore) : NetOk clocks key (start store) := by
  refine ⟨⟨le_refl _, ?_, ?_, ?_, List.Pairwise.nil, ?_, ?_, ?_, ?_⟩, fun i => ⟨?_, rfl, ?_, .inl rfl⟩⟩
  all_goals
    intro x hx
    cases hx

variable [IsStrictOrderedRing K]

theorem ArbiterOk.grant (h : ArbiterOk clocks key s) (rq : Request) (store : InMemoryStore) (tok : FenceToken)
    (hmargin : cfg.margin ≤ cfg.duration)
    (hasked : ∃ q ∈ s.requests, q.1.from_ = rq.from_ ∧ q.1.id = rq.id)
    (hapart : ∀ y ∈ s.replies, y.1.granted = true → y.1.to_ ≠ rq.from_ →
      clocks.arbiter.ticks y.2 + cfg.duration ≤ clocks.arbiter.ticks s.now)
    (htok : tok.value ≤ (store.entry key).owner.value)
    (howner : (s.store.entry key).owner.value ≤ (store.entry key).owner.value)
    (hown : ∀ y ∈ s.replies, y.1.granted = true → y.1.term = tok → y.1.to_ = rq.from_) :
    ArbiterOk clocks key { s with
      arbiter := { s.arbiter with
        holder := some rq.from_, term := tok, expiry := clocks.arbiter.ticks s.now + cfg.duration }
      store
      replies := s.replies ++ [(LeaseArbiter.grant rq tok, s.now)] } := by
  have hmem : ∀ y ∈ s.replies ++ [(LeaseArbiter.grant rq tok, s.now)],
      y ∈ s.replies ∨ y = (LeaseArbiter.grant rq tok, s.now) := fun y hy => by simpa using hy
  refine h.push rfl hasked (fun y hy hgy _ => hapart y hy hgy) ?_ ?_ ?_ fun y hy hgy _ => hown y hy hgy
  · intro y hy hgy
    refine ⟨nofun, fun _ => ?_, fun p hp hne => ?_⟩
    · rcases hmem y hy with hy | rfl
      · exact Nat.add_le_add_right (DriftClock.ticks_mono (drift_le_one hmargin) (h.past y hy)) _
      · exact le_rfl
    · cases hp
      rcases hmem y hy with hy | rfl
      · exact hapart y hy hgy (Ne.symm hne)
      · exact absurd rfl hne
  · intro y hy hgy
    rcases hmem y hy with hy | rfl
    · exact UInt64.le_trans (h.bound y hy hgy) howner
    · exact htok
  · intro p hp
    cases hp
    refine ⟨htok, fun y hy hgy hty => ?_⟩
    rcases hmem y hy with hy | rfl
    · exact hown y hy hgy hty
    · rfl

theorem ArbiterOk.onRequest {available : Bool} {rep : Reply} {ar : LeaseArbiter} {store : InMemoryStore}
    (h : ArbiterOk clocks key s) (hmargin : cfg.margin ≤ cfg.duration) (hrq : rq ∈ s.requests.map Prod.fst)
    (hcount : (s.store.entry key).owner.value ≤ (store.entry key).owner.value)
    (hanswer : s.arbiter.onRequest cfg key available s.store (clocks.arbiter.ticks s.now) rq = (rep, ar, store)) :
    ArbiterOk clocks key { s with arbiter := ar, store, replies := s.replies ++ [(rep, s.now)] } := by
  obtain ⟨q, hq, rfl⟩ := mem_map.mp hrq
  have hto := LeaseArbiter.onRequest_to cfg key available s.arbiter s.store (clocks.arbiter.ticks s.now) q.1
  have hcases := LeaseArbiter.onRequest_cases cfg key available s.arbiter s.store (clocks.arbiter.ticks s.now) q.1
  rw [hanswer] at hto hcases
  have hasked : ∃ q ∈ s.requests, q.1.from_ = rep.to_ ∧ q.1.id = rep.id := ⟨q, hq, hto.1.symm, hto.2.symm⟩
  obtain ⟨hdenied, hsame⟩ | ⟨hholder, hgrant⟩ | ⟨hquiet, hother, hexpired, hgrant⟩ := hcases
  · have hdenied : rep.granted = false := hdenied
    have hold : ∀ y ∈ s.replies ++ [(rep, s.now)], y.1.granted = true → y ∈ s.replies := by
      intro y hy hgranted
      rcases mem_append.mp hy with hy | hy
      · exact hy
      · rw [mem_singleton.mp hy, hdenied] at hgranted
        cases hgranted
    cases hsame
    refine h.push rfl hasked ?_ ?_ ?_ ?_ ?_
    · intro y _ _ hgranted
      rw [hdenied] at hgranted
      cases hgranted
    · exact fun y hy hgranted => h.guarded y (hold y hy hgranted) hgranted
    · exact fun y hy hgranted => h.bound y (hold y hy hgranted) hgranted
    · exact fun p hp => ⟨(h.held p hp).1, fun y hy hgranted => (h.held p hp).2 y (hold y hy hgranted) hgranted⟩
    · intro y _ _ hgranted
      rw [hdenied] at hgranted
      cases hgranted
  · cases hgrant
    obtain ⟨hle, hterm⟩ := h.held _ hholder
    have hsame := h.grant q.1 s.store s.arbiter.term hmargin hasked
      (fun y hy hgy hne => (h.guarded y hy hgy).2.2 _ hholder (Ne.symm hne)) hle (UInt64.le_refl _) hterm
    rw [← hholder] at hsame
    exact hsame
  · cases hgrant
    have howner : ((s.store.put key ((s.store.entry key).withOwner (s.store.entry key).nextOwner)).entry key).owner =
        (s.store.entry key).nextOwner := by
      rw [entry_put]
      rfl
    have hlt : (s.store.entry key).owner.value < (s.store.entry key).nextOwner.value := by
      rw [howner] at hcount
      change (s.store.entry key).owner.value ≤ (s.store.entry key).owner.value + 1 at hcount
      change (s.store.entry key).owner.value < (s.store.entry key).owner.value + 1
      grind -ring -linarith
    refine h.grant _ _ _ hmargin hasked (fun y hy hgy hne => ?_) (by rw [howner]; exact UInt64.le_refl _) hcount
      fun y hy hgy hty => ?_
    · cases hholder : s.arbiter.holder with
      | none => exact le_trans ((h.guarded y hy hgy).1 hholder) hquiet
      | some p =>
        by_cases hp : p = y.1.to_
        · rw [hp] at hholder
          exact le_trans ((h.guarded y hy hgy).2.1 hholder) (hexpired _ hholder)
        · exact (h.guarded y hy hgy).2.2 p hholder hp
    · have hle := h.bound y hy hgy
      rw [hty] at hle
      exact absurd (UInt64.lt_of_lt_of_le hlt hle) (UInt64.lt_irrefl _)

theorem ArbiterOk.restart (h : ArbiterOk clocks key s) (hmargin : cfg.margin ≤ cfg.duration) :
    ArbiterOk clocks key { s with arbiter := s.arbiter.restart cfg (clocks.arbiter.ticks s.now) } := by
  refine ⟨h.origin, h.sent, h.asked, h.past, h.apart, fun x hx _ => ⟨fun _ => ?_, fun hp => ?_, fun p hp => ?_⟩,
    h.bound, fun p hp => ?_, h.unique⟩
  · exact Nat.add_le_add_right (DriftClock.ticks_mono (drift_le_one hmargin) (h.past x hx)) _
  · cases hp
  · cases hp
  · cases hp

def NoOverflow (clocks : Clocks K cfg) (key : ActorId) (s : Net K) (a : NetLabel K) : Prop :=
  ∀ s' ∈ step clocks key s a, (s.store.entry key).owner.value ≤ (s'.store.entry key).owner.value

theorem NetOk.at_ (h : NetOk clocks key s) (hmargin : cfg.margin ≤ cfg.duration) (hnow : s.now ≤ t) :
    NetOk clocks key { s with now := t } :=
  ⟨h.arbiter.later hmargin hnow rfl rfl (UInt64.le_refl _) (fun _ hq => hq) fun _ hq => .inl hq,
    fun i => (h.holder i).frame rfl (fun _ hq _ => hq) fun _ hx => hx⟩

theorem netOk_step {a : NetLabel K} (h : NetOk clocks key s) (hmargin : cfg.margin ≤ cfg.duration)
    (hok : NoOverflow clocks key s a) (hstep : step clocks key s a = some s') : NetOk clocks key s' := by
  have hcount := hok s' hstep
  cases a with
  | tick t i =>
    have htick := hstep
    simp only [step] at hstep
    split at hstep
    · next hguard =>
      have hnew : ∀ q ∈ s'.requests, q ∈ s.requests ∨ q.1.from_ = i ∧ q.2 = s'.now := by
        cases hstep
        intro q hq
        refine (mem_append.mp hq).imp_right fun hq => ?_
        obtain ⟨rq, hrq, rfl⟩ := mem_map.mp hq
        obtain hnone | hsome := LeaseHolder.tick_cases cfg i (s.holder i) ((clocks.holder i).ticks t)
        · rw [hnone] at hrq
          cases hrq
        · rw [hsome] at hrq
          cases mem_singleton.mp hrq
          exact ⟨rfl, rfl⟩
      refine ⟨?_, fun j => ?_⟩
      · cases hstep
        exact h.arbiter.later hmargin hguard rfl rfl (UInt64.le_refl _) (fun _ hq => mem_append_left _ hq)
          fun q hq => (hnew q hq).imp_right fun hq => hq.2
      · by_cases hj : j = i
        · subst hj
          exact (h.holder j).tick htick
        · refine (h.holder j).frame ?_ (fun q hq hfrom => ?_) ?_
          · cases hstep
            exact holder_setHolder_ne hj
          · exact (hnew q hq).resolve_right fun hq => hj (hfrom.symm.trans hq.1)
          · cases hstep
            exact fun _ hx => hx
    · cases hstep
  | onRequest t rq available =>
    simp only [step] at hstep
    split at hstep
    · next hguard =>
      cases hstep
      have hnow := h.at_ hmargin hguard.1
      exact ⟨hnow.arbiter.onRequest hmargin hguard.2 hcount rfl, fun i => (h.holder i).frame rfl
        (fun _ hq _ => hq) fun _ hx => mem_append_left _ hx⟩
    · cases hstep
  | onReply t r =>
    simp only [step] at hstep
    split at hstep
    · next hguard =>
      cases hstep
      have hnow := h.at_ hmargin hguard.1
      refine ⟨hnow.arbiter.later hmargin (le_refl _) rfl rfl (UInt64.le_refl _) (fun _ hq => hq) fun _ hq => .inl hq,
        fun i => ?_⟩
      by_cases hi : i = r.to_
      · subst hi
        exact (hnow.holder _).onReply hnow.arbiter hmargin hguard.2
      · exact (hnow.holder i).frame (holder_setHolder_ne hi) (fun _ hq _ => hq) fun _ hx => hx
    · cases hstep
  | restart t =>
    simp only [step] at hstep
    split at hstep
    · next hguard =>
      cases hstep
      have hnow := h.at_ hmargin hguard
      exact ⟨hnow.arbiter.restart hmargin, fun i => (hnow.holder i).frame rfl (fun _ hq _ => hq) fun _ hx => hx⟩
    · cases hstep
  | backoffUntil t i ticks =>
    simp only [step] at hstep
    split at hstep
    · next hguard =>
      cases hstep
      have hnow := h.at_ hmargin hguard
      refine ⟨hnow.arbiter.later hmargin (le_refl _) rfl rfl (UInt64.le_refl _) (fun _ hq => hq) fun _ hq => .inl hq,
        fun j => ?_⟩
      by_cases hj : j = i
      · subst hj
        have hself : (s.setHolder j ((s.holder j).backoffUntil ticks)).holder j =
            (s.holder j).backoffUntil ticks := holder_setHolder
        obtain ⟨hids, hcurrent, hsent, hbelief⟩ := hnow.holder j
        refine ⟨?_, ?_, ?_, ?_⟩ <;> rw [holder_setHolder]
        · exact hids
        · exact hcurrent
        · exact hsent
        · exact hbelief
      · exact (hnow.holder j).frame (holder_setHolder_ne hj) (fun _ hq _ => hq) fun _ hx => hx
    · cases hstep
  | fence t =>
    simp only [step] at hstep
    split at hstep
    · next hguard =>
      cases hstep
      exact ⟨h.arbiter.later hmargin hguard rfl rfl hcount (fun _ hq => hq) fun _ hq => .inl hq,
        fun i => (h.holder i).frame rfl (fun _ hq _ => hq) fun _ hx => hx⟩
    · cases hstep

structure OneLeader (clocks : Clocks K cfg) (s : Net K) : Prop where
  leader : ∀ t, s.now ≤ t → ∀ i j, (s.holder i).believesLeader ((clocks.holder i).ticks t) = true →
    (s.holder j).believesLeader ((clocks.holder j).ticks t) = true → i = j
  term : ∀ x ∈ s.replies, ∀ y ∈ s.replies, x.1.granted = true → y.1.granted = true → x.1.term = y.1.term →
    x.1.to_ = y.1.to_

/-- A belief ends before the grant that follows, whatever the clocks do. -/
theorem NetOk.not_apart {x y : Reply × K} {u : K} (h : NetOk clocks key s) (hmargin : cfg.margin ≤ cfg.duration)
    (hnow : s.now ≤ t) (hy : y ∈ s.replies) (hgx : x.1.granted = true) (hgy : y.1.granted = true)
    (hne : x.1.to_ ≠ y.1.to_) (hu : 0 ≤ u) (hux : u ≤ x.2)
    (hlt : (clocks.holder i).ticks t < (clocks.holder i).ticks u + (cfg.duration - cfg.margin))
    (hapart : Apart clocks x y) : False := by
  have hbefore := DriftClock.ends_before (drift_nonneg cfg) (margin_covers cfg) hmargin hu hux hlt
    (hapart.2 hgx hgy hne) hapart.1
  exact absurd (lt_of_lt_of_le hbefore (h.arbiter.past y hy)) (not_lt_of_ge hnow)

theorem NetOk.oneLeader (h : NetOk clocks key s) (hmargin : cfg.margin ≤ cfg.duration) : OneLeader clocks s := by
  refine ⟨fun t hnow i j hi hj => ?_, h.arbiter.unique⟩
  by_contra hij
  obtain ⟨x, hx, hgx, rfl, u, hu, hux, hltx⟩ := (h.holder i).believes hi
  obtain ⟨y, hy, hgy, rfl, v, hv, hvy, hlty⟩ := (h.holder j).believes hj
  have hxy : x ≠ y := by
    rintro rfl
    exact hij rfl
  have hsymm : Std.Symm fun x y : Reply × K => Apart clocks x y ∨ Apart clocks y x := ⟨fun _ _ h => h.symm⟩
  have hpair := (h.arbiter.apart.imp (S := fun x y => Apart clocks x y ∨ Apart clocks y x) Or.inl).forall hx hy hxy
  rcases hpair with hapart | hapart
  · exact h.not_apart hmargin hnow hy hgx hgy hij hu hux hltx hapart
  · exact h.not_apart hmargin hnow hx hgy hgx (Ne.symm hij) hv hvy hlty hapart

/-- Whatever the network does and however the clocks drift within the bound, at most one holder believes it is leader
at any instant, and no term is granted to two. -/
theorem oneLeader_of_reach (hmargin : cfg.margin ≤ cfg.duration) {store : InMemoryStore}
    (h : Machine.Reach (step clocks key) (NoOverflow clocks key) (start store) s) : OneLeader clocks s := by
  have hok : NetOk clocks key s := h.invariant (netOk_start store) fun _ _ _ hinv hok hstep =>
    netOk_step hinv hmargin hok hstep
  exact hok.oneLeader hmargin

end

section

instance {a : NetLabel K} : Decidable (NoOverflow clocks key s a) :=
  inferInstanceAs (Decidable (∀ s' ∈ step clocks key s a, _))

def fastHolders : Clocks ℚ {} where
  arbiter := {
    read := fun t => t
    nonneg := fun _ ht => ht
    slowest := fun t u htu => by
      norm_num [Config.drift]
      linarith
    fastest := fun t u htu => by
      norm_num [Config.drift]
      linarith }
  holder _ := {
    read := fun t => 21 / 20 * t
    nonneg := fun t ht => by positivity
    slowest := fun t u htu => by
      norm_num [Config.drift]
      linarith
    fastest := fun t u htu => by
      norm_num [Config.drift]
      linarith }

/-- Holder 1 leads when the arbiter restarts; a request of holder 2 is denied, and its duplicate is granted. -/
def handover : List (NetLabel ℚ) :=
  [.tick 0 1, .onRequest 1 ⟨1, 1⟩ true, .onReply (3 / 2) (LeaseArbiter.grant ⟨1, 1⟩ ⟨1⟩), .restart 20, .tick 100 2,
    .onRequest 101 ⟨2, 1⟩ true, .onRequest 125 ⟨2, 1⟩ true, .onReply 130 (LeaseArbiter.grant ⟨2, 1⟩ ⟨2⟩)]

theorem oneLeader_after_handover : ∃ s, Machine.run (Machine.guarded (step fastHolders ⟨⟨1⟩, 7⟩)
    (NoOverflow fastHolders ⟨⟨1⟩, 7⟩)) (start {}) handover = some s ∧
      (s.holder 2).believesLeader ((fastHolders.holder 2).ticks 130) = true ∧ OneLeader fastHolders s := by
  obtain ⟨s, hs, hbelieves⟩ := Option.map_eq_some_iff.mp (show (Machine.run (Machine.guarded
    (step fastHolders ⟨⟨1⟩, 7⟩) (NoOverflow fastHolders ⟨⟨1⟩, 7⟩)) (start {}) handover).map (fun s =>
      (s.holder 2).believesLeader ((fastHolders.holder 2).ticks 130)) = some true by decide +kernel)
  have hmargin : ({} : Config).margin ≤ ({} : Config).duration := by decide
  exact ⟨s, hs, hbelieves, oneLeader_of_reach hmargin (Machine.reach_of_run hs)⟩

end

end Net

end Quark.Lease
