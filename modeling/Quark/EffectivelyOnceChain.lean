import Quark.EffectivelyOnceRecovery

/-! A linear chain of effectively-once actors, of any length: a client, and at each position a lane whose only
upstream is the one before it. What a handler sends is committed to the outbox and arrives at the next
position in the order of the outbox. -/
namespace Quark

open EffectivelyOnceLane Function List UInt64

structure Chain where
  client : UInt64
  stage : Nat → LaneConfig

def Chain.upstream (ch : Chain) : Nat → UInt64
  | 0 => ch.client
  | j + 1 => (ch.stage j).self.hash

structure ChainRun where
  run : Nat → LaneRun
  /-- what the upstream sent to a position so far, oldest first -/
  arrived : Nat → List MsgKey := fun _ => []
  taken : Nat → Nat := fun _ => 0
  skipped : Nat → List MsgKey := fun _ => []

inductive ChainLabel
  | client (seq : UInt64)
  /-- a position takes its next message; `staged` is what the handler does -/
  | take (j : Nat) (staged : List Staged)

namespace ChainRun

variable (s : ChainRun)

def arrive (j : Nat) (ms : List MsgKey) : ChainRun :=
  { s with arrived := update s.arrived j (s.arrived j ++ ms) }

def skip (j : Nat) (m : MsgKey) : ChainRun :=
  { s with
    taken := update s.taken j (s.taken j + 1)
    skipped := update s.skipped j (s.skipped j ++ [m]) }

def handled (j : Nat) (r : LaneRun) : ChainRun :=
  { s with
    run := update s.run j r
    taken := update s.taken j (s.taken j + 1) }

end ChainRun

def Commit.outIds (c : Commit) : List MsgKey := c.outbox.map fun o => ⟨o.outSender, o.outSeq⟩

namespace Chain

variable (ch : Chain)

def start : ChainRun where
  run j := (ch.stage j).start

/-- A lane whose commit is fenced out aborts; the client counts upwards. -/
def step (s : ChainRun) : ChainLabel → Option ChainRun
  | .client seq =>
    if (s.arrived 0).all fun m => m.seq < seq then some (s.arrive 0 [⟨ch.client, seq⟩]) else none
  | .take j staged =>
    match (s.arrived j)[s.taken j]? with
    | none => none
    | some m =>
      let lane := (s.run j).lane
      if lane.isDuplicate m then some (s.skip j m)
      else
        let c := lane.begin m staged
        match lane.commit c (s.run j).store with
        | (.error _, _, _) => none
        | (.ok _, lane, store) => some ((s.handled j ⟨lane, store⟩).arrive (j + 1) c.outIds)

end Chain

def Staged.sends : Staged → Bool
  | .send _ _ => true
  | _ => false

def fanOut (staged : List Staged) : Nat := staged.countP Staged.sends

/-- A handler sends as many messages as the stride has room for, and the last id fits a word. -/
def ChainLabel.Fits (s : ChainRun) : ChainLabel → Prop
  | .client _ => True
  | .take j staged =>
    match (s.arrived j)[s.taken j]? with
    | none => True
    | some m => fanOut staged ≤ 2 ^ 20 ∧ (0 < fanOut staged → m.seq.toNat * 2 ^ 20 + fanOut staged < 2 ^ 64)

instance (s : ChainRun) (a : ChainLabel) : Decidable (a.Fits s) := by
  unfold ChainLabel.Fits
  split
  · infer_instance
  · split <;> infer_instance

section

variable {selfHash : UInt64} {inbound : MsgKey} {staged : List Staged} {c : Commit}

theorem outIds_stage (selfHash : UInt64) (inbound : MsgKey) (staged : List Staged) :
    (staged.foldl (Commit.stage selfHash) { inbound }).inbound = inbound ∧
    (staged.foldl (Commit.stage selfHash) { inbound }).outIndex = UInt32.ofNat (fanOut staged) ∧
    (staged.foldl (Commit.stage selfHash) { inbound }).outIds =
      (List.range (fanOut staged)).map fun i => deriveOutbound selfHash inbound (UInt32.ofNat i) := by
  induction staged using List.reverseRecOn with
  | nil => exact ⟨rfl, rfl, rfl⟩
  | append_singleton staged st ih =>
    obtain ⟨hinbound, hindex, hids⟩ := ih
    rw [foldl_concat, fanOut, countP_append]
    cases st with
    | event e => exact ⟨hinbound, hindex, hids⟩
    | reply body => exact ⟨hinbound, hindex, hids⟩
    | send target body =>
      have hone : [Staged.send target body].countP Staged.sends = 1 := rfl
      rw [hone]
      change (staged.foldl (Commit.stage selfHash) { inbound }).inbound = inbound ∧
        (staged.foldl (Commit.stage selfHash) { inbound }).outIndex + 1 = _ ∧ _
      refine ⟨hinbound, ?_, ?_⟩
      · rw [hindex, UInt32.ofNat_add]
        rfl
      · have hid : deriveOutbound selfHash inbound (UInt32.ofNat (fanOut staged)) = deriveOutbound selfHash
            (staged.foldl (Commit.stage selfHash) { inbound }).inbound
            (staged.foldl (Commit.stage selfHash) { inbound }).outIndex := by
          rw [hinbound, hindex]
        rw [range_succ, map_append, ← fanOut, ← hids, map_singleton, hid]
        exact map_append

theorem deriveOutbound_toNat {n i : Nat} (hi : i < n) (hn : n ≤ 2 ^ 20)
    (hfits : inbound.seq.toNat * 2 ^ 20 + n < 2 ^ 64) :
    (deriveOutbound selfHash inbound (UInt32.ofNat i)).seq.toNat = inbound.seq.toNat * 2 ^ 20 + i + 1 := by
  have hindex : (UInt32.ofNat i).toUInt64.toNat = i := by
    rw [UInt32.toNat_toUInt64, UInt32.toNat_ofNat']
    exact Nat.mod_eq_of_lt (by omega)
  have hstride : outboundDerivationStride.toNat = 2 ^ 20 := rfl
  have hone : (1 : UInt64).toNat = 1 := rfl
  rw [deriveOutbound, UInt64.toNat_add, UInt64.toNat_add, UInt64.toNat_mul, hindex, hstride, hone]
  omega

/-- The ids of a handler that fits: above what is derived from earlier messages, and in the order of emission. -/
theorem outIds_increasing (selfHash : UInt64) (hcount : fanOut staged ≤ 2 ^ 20)
    (hfits : 0 < fanOut staged → inbound.seq.toNat * 2 ^ 20 + fanOut staged < 2 ^ 64) :
    (((staged.foldl (Commit.stage selfHash) { inbound }).outIds).map MsgKey.seq).Pairwise (· < ·) ∧
    ∀ m ∈ (staged.foldl (Commit.stage selfHash) { inbound }).outIds, m.sender = selfHash ∧
      inbound.seq.toNat * 2 ^ 20 < m.seq.toNat ∧ m.seq.toNat ≤ (inbound.seq.toNat + 1) * 2 ^ 20 := by
  rw [(outIds_stage selfHash inbound staged).2.2]
  constructor
  · rw [map_map, pairwise_map]
    refine pairwise_lt_range.imp_of_mem ?_
    intro i k hi hk hlt
    rw [mem_range] at hi hk
    rw [Function.comp, Function.comp, lt_iff_toNat_lt, deriveOutbound_toNat hi hcount (hfits (by omega)),
      deriveOutbound_toNat hk hcount (hfits (by omega))]
    omega
  · intro m hm
    obtain ⟨i, hi, rfl⟩ := mem_map.mp hm
    rw [mem_range] at hi
    rw [deriveOutbound_toNat hi hcount (hfits (by omega))]
    exact ⟨rfl, by omega, by omega⟩

end

section

variable {ch : Chain} {s s' : ChainRun} {lane lane' : EffectivelyOnceLane} {c : Commit} {store store' : InMemoryStore}
  {r : CommitResult} {a : ChainLabel} {j : Nat} {m : MsgKey}

theorem commit_ok (h : lane.commit c store = (.ok r, lane', store')) : lane'.self = lane.self ∧
    lane'.watermark = lane.watermark.touch c.inbound.sender 0 (raise c.inbound.seq) := by
  unfold commit at h
  split at h
  · cases h
  · cases h
    unfold mirror
    cases c.reply <;> exact ⟨rfl, rfl⟩

/-- What arrives anywhere is increasing; what a lane has marked is a message that it took. -/
structure InOrder (ch : Chain) (s : ChainRun) : Prop where
  increasing : ∀ j, ((s.arrived j).map MsgKey.seq).Pairwise (· < ·)
  sender : ∀ j, ∀ m ∈ s.arrived j, m.sender = ch.upstream j
  mark : ∀ j w, (s.run j).lane.watermark.find (ch.upstream j) = some w →
    ∃ k < s.taken j, ∃ m, (s.arrived j)[k]? = some m ∧ m.seq = w
  derived : ∀ j, ∀ m ∈ s.arrived (j + 1), ∃ k < s.taken j, ∃ m', (s.arrived j)[k]? = some m' ∧
    m.seq.toNat ≤ (m'.seq.toNat + 1) * 2 ^ 20
  self : ∀ j, (s.run j).lane.self = (ch.stage j).self
  skipped : ∀ j, s.skipped j = []

theorem InOrder.start (ch : Chain) : InOrder ch ch.start := by
  refine ⟨fun j => List.Pairwise.nil, fun j m hm => ?_, fun j w hw => ?_, fun j m hm => ?_, fun j =>
    rfl, fun j => rfl⟩
  · cases hm
  · have hnone : (ch.start.run j).lane.watermark.find (ch.upstream j) = none := by
      cases hfind : (ch.start.run j).lane.watermark.find (ch.upstream j) with
      | none => rfl
      | some w => exact absurd (BoundedMap.find_trim hfind) (Option.some_ne_none w).symm
    rw [hnone] at hw
    cases hw
  · cases hm

theorem InOrder.lt (h : InOrder ch s) {k l : Nat} {m m' : MsgKey} (hk : (s.arrived j)[k]? = some m)
    (hl : (s.arrived j)[l]? = some m') (hlt : k < l) : m.seq < m'.seq := by
  have hincreasing := List.pairwise_map.mp (h.increasing j)
  obtain ⟨hk', rfl⟩ := List.getElem?_eq_some_iff.mp hk
  obtain ⟨hl', rfl⟩ := List.getElem?_eq_some_iff.mp hl
  exact List.pairwise_iff_getElem.mp hincreasing k l hk' hl' hlt

theorem InOrder.fresh (h : InOrder ch s) (hm : (s.arrived j)[s.taken j]? = some m) :
    (s.run j).lane.isDuplicate m = false ∧
      raise m.seq (((s.run j).lane.watermark.find m.sender).getD 0) = m.seq := by
  unfold isDuplicate raise
  rw [h.sender j m (mem_of_getElem? hm)]
  cases hfind : (s.run j).lane.watermark.find (ch.upstream j) with
  | none =>
    refine ⟨rfl, ?_⟩
    rw [Option.getD_none]
    split
    · rfl
    · next hzero => exact (UInt64.not_lt.mp hzero |> UInt64.le_zero_iff.mp).symm
  | some w =>
    obtain ⟨k, hk, m', hm', rfl⟩ := h.mark j w hfind
    have hlt := h.lt hm' hm hk
    exact ⟨decide_eq_false (UInt64.not_le.mpr hlt), if_pos hlt⟩

theorem ChainRun.getElem?_arrive {i k : Nat} {ms : List MsgKey} (h : (s.arrived i)[k]? = some m) :
    ((s.arrive j ms).arrived i)[k]? = some m := by
  unfold ChainRun.arrive
  by_cases hi : i = j
  · subst hi
    dsimp only
    rw [Function.update_self, List.getElem?_append_left (List.getElem?_eq_some_iff.mp h).1]
    exact h
  · dsimp only
    rw [update_of_ne hi]
    exact h

theorem ChainRun.mem_arrive {i : Nat} {ms : List MsgKey} (h : m ∈ (s.arrive j ms).arrived i) :
    m ∈ s.arrived i ∨ i = j ∧ m ∈ ms := by
  unfold ChainRun.arrive at h
  by_cases hi : i = j
  · subst hi
    dsimp only at h
    rw [update_self, mem_append] at h
    exact h.imp id fun hm => ⟨rfl, hm⟩
  · dsimp only at h
    rw [update_of_ne hi] at h
    exact .inl h

theorem InOrder.arrive (h : InOrder ch s) {ms : List MsgKey} (hms : (ms.map MsgKey.seq).Pairwise (· < ·))
    (habove : ∀ m ∈ s.arrived j, ∀ m' ∈ ms, m.seq < m'.seq) (hsender : ∀ m ∈ ms, m.sender = ch.upstream j)
    (hderived : ∀ i, i + 1 = j → ∀ m ∈ ms, ∃ k < s.taken i, ∃ m', (s.arrived i)[k]? = some m' ∧
      m.seq.toNat ≤ (m'.seq.toNat + 1) * 2 ^ 20) : InOrder ch (s.arrive j ms) := by
  refine ⟨fun i => ?_, fun i m hm => ?_, fun i w hw => ?_, fun i m hm => ?_, h.self, h.skipped⟩
  · by_cases hi : i = j
    · subst hi
      unfold ChainRun.arrive
      dsimp only
      rw [update_self, map_append, pairwise_append]
      refine ⟨h.increasing i, hms, fun x hx y hy => ?_⟩
      obtain ⟨m, hm, rfl⟩ := mem_map.mp hx
      obtain ⟨m', hm', rfl⟩ := mem_map.mp hy
      exact habove m hm m' hm'
    · unfold ChainRun.arrive
      dsimp only
      rw [update_of_ne hi]
      exact h.increasing i
  · obtain hm | ⟨hi, hm⟩ := ChainRun.mem_arrive hm
    · exact h.sender i m hm
    · rw [hi]
      exact hsender m hm
  · obtain ⟨k, hk, m, hm, hseq⟩ := h.mark i w hw
    exact ⟨k, hk, m, ChainRun.getElem?_arrive hm, hseq⟩
  · obtain hm | ⟨hi, hm⟩ := ChainRun.mem_arrive hm
    · obtain ⟨k, hk, m', hm', hle⟩ := h.derived i m hm
      exact ⟨k, hk, m', ChainRun.getElem?_arrive hm', hle⟩
    · obtain ⟨k, hk, m', hm', hle⟩ := hderived i hi m hm
      exact ⟨k, hk, m', ChainRun.getElem?_arrive hm', hle⟩

theorem ChainRun.taken_handled {i : Nat} {run : LaneRun} : (s.handled j run).taken i = if i = j then s.taken j + 1
    else s.taken i := by
  unfold ChainRun.handled
  dsimp only
  rw [update_apply]

theorem InOrder.handled (h : InOrder ch s) {run : LaneRun} (hm : (s.arrived j)[s.taken j]? = some m)
    (hself : run.lane.self = (s.run j).lane.self)
    (hmark : run.lane.watermark.find (ch.upstream j) = some m.seq) : InOrder ch (s.handled j run) := by
  have hmore : ∀ i k, k < s.taken i → k < (s.handled j run).taken i := by
    intro i k hk
    rw [ChainRun.taken_handled]
    split
    · next hi =>
      subst hi
      exact Nat.lt_succ_of_lt hk
    · exact hk
  refine ⟨h.increasing, h.sender, fun i w hw => ?_, fun i m hm => ?_, fun i => ?_, h.skipped⟩
  · by_cases hi : i = j
    · subst hi
      unfold ChainRun.handled at hw
      dsimp only at hw
      rw [update_self, hmark] at hw
      cases hw
      refine ⟨s.taken i, ?_, m, hm, rfl⟩
      rw [ChainRun.taken_handled, if_pos rfl]
      exact Nat.lt_succ_self _
    · unfold ChainRun.handled at hw
      dsimp only at hw
      rw [update_of_ne hi] at hw
      obtain ⟨k, hk, hrest⟩ := h.mark i w hw
      exact ⟨k, hmore i k hk, hrest⟩
  · obtain ⟨k, hk, hrest⟩ := h.derived i m hm
    exact ⟨k, hmore i k hk, hrest⟩
  · unfold ChainRun.handled
    dsimp only
    by_cases hi : i = j
    · subst hi
      rw [update_self, hself, h.self]
    · rw [update_of_ne hi, h.self]

theorem InOrder.step (h : InOrder ch s) (hok : a.Fits s) (hstep : ch.step s a = some s') : InOrder ch s' := by
  cases a with
  | client seq =>
    unfold Chain.step at hstep
    dsimp only at hstep
    split at hstep
    swap
    · cases hstep
    next habove =>
    cases hstep
    rw [all_eq_true] at habove
    apply h.arrive
    · exact pairwise_singleton _ _
    · intro m hm m' hm'
      rw [mem_singleton.mp hm']
      exact of_decide_eq_true (habove m hm)
    · intro m hm
      rw [mem_singleton.mp hm]
      rfl
    · intro i hi
      cases hi
  | take j staged =>
    unfold Chain.step at hstep
    unfold ChainLabel.Fits at hok
    dsimp only at hstep hok
    cases hm : (s.arrived j)[s.taken j]? with
    | none =>
      rw [hm] at hstep
      cases hstep
    | some m =>
      rw [hm] at hstep hok
      obtain ⟨hcount, hfits⟩ := hok
      obtain ⟨hfresh, hraise⟩ := h.fresh hm
      dsimp only at hstep
      rw [hfresh, if_neg Bool.false_ne_true] at hstep
      split at hstep
      · cases hstep
      next r lane store hcommit =>
      cases hstep
      obtain ⟨hself, hwatermark⟩ := commit_ok hcommit
      have hsender := h.sender j m (mem_of_getElem? hm)
      have hinbound : ((s.run j).lane.begin m staged).inbound = m := (outIds_stage _ m staged).1
      have hhandled : InOrder ch (s.handled j ⟨lane, store⟩) := by
        refine h.handled hm hself ?_
        rw [hwatermark, hinbound, ← hsender, BoundedMap.find_touch, hraise]
      obtain ⟨hpairwise, hids⟩ := outIds_increasing (s.run j).lane.self.hash hcount hfits
      apply hhandled.arrive
      · exact hpairwise
      · intro m₁ hm₁ m₂ hm₂
        obtain ⟨k, hk, m', hm', hle⟩ := h.derived j m₁ hm₁
        have hlt := h.lt hm' hm hk
        obtain ⟨-, hlow, -⟩ := hids m₂ hm₂
        rw [lt_iff_toNat_lt] at hlt ⊢
        omega
      · intro m' hm'
        rw [(hids m' hm').1, h.self j]
        rfl
      · intro i hi m' hm'
        cases hi
        refine ⟨s.taken j, ?_, m, hm, (hids m' hm').2.2⟩
        rw [ChainRun.taken_handled, if_pos rfl]
        exact Nat.lt_succ_self _

/-- Where every handler fits, what arrives at every actor is strictly increasing, and nothing is taken for a
duplicate. -/
theorem chain_increasing (ch : Chain) (h : Machine.Reach ch.step (fun s a => a.Fits s) ch.start s) (j : Nat) :
    ((s.arrived j).map MsgKey.seq).Pairwise (· < ·) ∧ s.skipped j = [] := by
  have hinorder : InOrder ch s := h.invariant (InOrder.start ch) fun _ _ _ hinv hok hstep => hinv.step hok hstep
  exact ⟨hinorder.increasing j, hinorder.skipped j⟩

end

section

def warehouse : Chain := ⟨7, fun j => ⟨⟨⟨1⟩, UInt64.ofNat j⟩, 0, 0⟩⟩

def passOn : List Staged := [.send inventory emptyBlob]

/-- Two messages of the client, which every actor before the fifth passes on. -/
def relayed : List ChainLabel :=
  [.client 1, .client 2] ++ (List.range 4).flatMap (fun j => [.take j passOn, .take j passOn]) ++
    [.take 4 [], .take 4 []]

theorem chain_increasing_two_hops : ∃ s : ChainRun, (s.arrived 2).length = 3 ∧
    ((s.arrived 2).map MsgKey.seq).Pairwise (· < ·) := by
  obtain ⟨s, hrun, hlength⟩ :=
    Option.map_eq_some_iff.mp (show (Machine.run (Machine.guarded warehouse.step fun s a => a.Fits s)
    warehouse.start [.client 1, .client 2, .take 0 passOn, .take 0 passOn, .take 1 (passOn ++ passOn),
    .take 1 passOn]).map
      (fun s => (s.arrived 2).length) = some 3 by decide +kernel)
  exact ⟨s, hlength, (chain_increasing warehouse (Machine.reach_of_run hrun) 2).1⟩

/-- The fourth derivation wraps: both messages get the same id, and the second one is taken for a duplicate. -/
theorem fourth_hop_skips : ((Machine.run warehouse.step warehouse.start relayed).map fun s =>
    ((s.arrived 4).map MsgKey.seq, (s.skipped 4).map MsgKey.seq)) =
      some ([1152922604119523329, 1152922604119523329], [1152922604119523329]) := by
  decide +kernel

end

end Quark
