import Quark.ControlFrames
import Quark.SwimSubscribers
import Quark.SwimTasks

/-! A node that advertises its capabilities, over one life: what it claims is stamped with the incarnation and the
sequence number of that moment, and a peer keeps the highest stamp. -/
namespace Quark.Swim

open List Option Machine

/-- A node with its registry. The capabilities it published and its own entries that a frame claimed are kept. -/
structure Advertiser where
  node : Node
  registry : CapabilityRegistry := {}
  published : List NodeCapabilities := []
  claimed : List CapabilityDigestEntry := []

namespace Advertiser

inductive Label
  | swim (l : Swim.Label)
  | publishLocal (caps : NodeCapabilities)
  /-- the capability hook absorbs what is not about the node itself -/
  | merge (incoming : List CapabilityDigestEntry)
  | evictDead (id : NodeId)

end Advertiser

def Node.sends (n : Node) : Label → Bool
  | .run env =>
    match n.todo with
    | .send _ _ :: _ => n.swim.online && env.reachable
    | _ => false
  | _ => false

def Label.with (l : Label) (capabilities : List CapabilityDigestEntry) : Label :=
  match l with
  | .run env => .run { env with capabilities }
  | l => l

def CapabilityRegistry.stamped (reg : CapabilityRegistry) (self_ : NodeId) (selfIncarnation : UInt64)
    (caps : NodeCapabilities) : CapabilityDigestEntry :=
  ⟨self_, selfIncarnation, reg.localSeq + 1, encodeNodeCapabilities caps⟩

namespace Advertiser

variable (cfg : GossipConfig)

def start (cfg : GossipConfig) (self_ : NodeId) (drawn : UInt64) (sinks : Nat) : Advertiser where
  node := Node.start cfg.toConfig self_ drawn sinks

/-- What `send_control` attaches to the next frame, and the registry after that. -/
def pulled (a : Advertiser) : List CapabilityDigestEntry × CapabilityRegistry :=
  a.registry.pull a.node.swim.self_ a.node.swim.selfIncarnation cfg.maxCapabilityGossipBytes

def stamped (a : Advertiser) (caps : NodeCapabilities) : CapabilityDigestEntry :=
  a.registry.stamped a.node.swim.self_ a.node.swim.selfIncarnation caps

def claims (a : Advertiser) : Option CapabilityDigestEntry :=
  match a.registry.pending with
  | none => none
  | some caps =>
    if (encodeNodeCapabilities caps).length ≤ kMaxDecodedCapabilityBytes then some (a.stamped caps) else none

def step (a : Advertiser) : Label → Option Advertiser
  | .swim l =>
    if a.node.sends l then
      (a.node.step cfg.toConfig (l.with (a.pulled cfg).1)).map fun n =>
        { a with node := n, registry := (a.pulled cfg).2, claimed := a.claimed ++ a.claims.toList }
    else (a.node.step cfg.toConfig l).map fun n => { a with node := n }
  | .publishLocal caps => some { a with registry := a.registry.publishLocal caps, published := a.published ++ [caps] }
  | .merge incoming =>
    if incoming.all fun e => e.node != a.node.swim.self_ then some { a with registry := a.registry.merge incoming }
    else none
  | .evictDead id => if id = a.node.swim.self_ then none else some { a with registry := a.registry.evictDead id }

/-- What is published fits. When a frame leaves with a publish pending, the stamp of that moment is above
every one that the node used before, those of its earlier lives included, or it is the same entry once
more. -/
def Fresh (stale : List CapabilityDigestEntry) (a : Advertiser) : Label → Prop
  | .swim l => a.node.sends l = true → ∀ caps, a.registry.pending = some caps →
      ∀ old ∈ stale ++ a.claimed, CapabilityRegistry.supersedes old (a.stamped caps) = true ∨ old = a.stamped caps
  | .publishLocal caps => (encodeNodeCapabilities caps).length ≤ kMaxDecodedCapabilityBytes
  | _ => True

end Advertiser

section

variable {cfg : Config} {n n' : Node} {l : Label}

theorem Node.self_step (h : n.step cfg l = some n') : n'.swim.self_ = n.swim.self_ := by
  obtain ⟨c, -, -, rfl⟩ | ⟨env, t, rest, -, rfl⟩ | ⟨s, hquiet, rfl⟩ := Node.step_cases h
  · rfl
  · have hexec : (n.swim.exec cfg env t).Fine (.everyone cfg n.swim.self_) n.swim :=
      fine_exec rfl fine_everyone (fun _ _ _ _ => trivial) fun _ _ => trivial
    obtain ⟨s', pending, flushing, hmoves, heq⟩ := hexec.moves
    rw [Node.ran, heq]
    exact hmoves.keeps.1
  · exact hquiet.self_

end

section

variable {reg peer : CapabilityRegistry} {id : NodeId} {own e : CapabilityDigestEntry}
variable {digest : List CapabilityDigestEntry} {cur : CapabilityRegistry.Entry}

theorem store_other (h : e.node ≠ id) :
    (reg.store e).table.lookup id = reg.table.lookup id ∧ Table.size (reg.store e).table ≤ Table.size reg.table + 1 ∧
      (reg.store e).maxEntries = reg.maxEntries := by
  unfold CapabilityRegistry.store
  split
  · exact ⟨rfl, Nat.le_succ _, rfl⟩
  · exact ⟨AList.lookup_insert_ne (Ne.symm h), Table.size_insert_le _ _ _, rfl⟩

theorem mergeOne_other (h : e.node ≠ id) :
    (reg.mergeOne e).table.lookup id = reg.table.lookup id ∧
    Table.size (reg.mergeOne e).table ≤ Table.size reg.table + 1 ∧ (reg.mergeOne e).maxEntries = reg.maxEntries := by
  unfold CapabilityRegistry.mergeOne
  split
  · split
    · exact ⟨rfl, Nat.le_succ _, rfl⟩
    · exact store_other h
  · split
    · exact store_other h
    · exact ⟨rfl, Nat.le_succ _, rfl⟩

theorem merge_other (id : NodeId) (h : ∀ e ∈ digest, e.node ≠ id) :
    (reg.merge digest).table.lookup id = reg.table.lookup id := by
  induction digest generalizing reg with
  | nil => rfl
  | cons e digest ih =>
    exact (ih fun e he => h e (mem_cons_of_mem _ he)).trans (mergeOne_other (h e mem_cons_self)).1

theorem merge_pending : (reg.merge digest).pending = reg.pending := by
  refine List.foldlRecOn (motive := fun r : CapabilityRegistry => r.pending = reg.pending) _ _ rfl fun r hr e _ => ?_
  have hstore : (r.store e).pending = r.pending := by
    unfold CapabilityRegistry.store
    split <;> rfl
  unfold CapabilityRegistry.mergeOne
  split
  · split
    · exact hr
    · exact hstore.trans hr
  · split
    · exact hstore.trans hr
    · exact hr

def CapabilityRegistry.Stored (reg : CapabilityRegistry) (own : CapabilityDigestEntry) : Prop :=
  ∃ e, reg.table.lookup own.node = some e ∧ e.digest own.node = own

/-- Room for `n` more nodes, or an entry of the node that `own` outranks or is. -/
def CapabilityRegistry.Yields (reg : CapabilityRegistry) (own : CapabilityDigestEntry) (n : Nat) : Prop :=
  (reg.table.lookup own.node = none ∧ reg.table.size + n ≤ reg.maxEntries) ∨
  (∃ e, reg.table.lookup own.node = some e ∧ supersedes (e.digest own.node) own = true) ∨ reg.Stored own

theorem supersedes_irrefl (own : CapabilityDigestEntry) : CapabilityRegistry.supersedes own own = false := by
  unfold CapabilityRegistry.supersedes
  rw [if_neg (not_not.mpr rfl), if_neg (not_not.mpr rfl)]
  exact decide_eq_false (List.lt_irrefl _)

theorem supersedes_asymm (h : CapabilityRegistry.supersedes e own = true) :
    CapabilityRegistry.supersedes own e = false := by
  unfold CapabilityRegistry.supersedes at h ⊢
  by_cases hinc : own.incarnation = e.incarnation
  · rw [if_neg (not_not.mpr hinc)] at h
    rw [if_neg (not_not.mpr hinc.symm)]
    by_cases hseq : own.localSeq = e.localSeq
    · rw [if_neg (not_not.mpr hseq)] at h
      rw [if_neg (not_not.mpr hseq.symm)]
      exact decide_eq_false (List.lt_asymm (of_decide_eq_true h))
    · rw [if_pos hseq] at h
      rw [if_pos (Ne.symm hseq)]
      exact decide_eq_false (UInt32.lt_asymm (of_decide_eq_true h))
  · rw [if_pos hinc] at h
    rw [if_pos (Ne.symm hinc)]
    exact decide_eq_false (UInt64.lt_asymm (of_decide_eq_true h))

theorem mergeOne_own (hdecodes : (decodeNodeCapabilities own.blob).isSome = true) {n : Nat}
    (h : reg.Yields own (n + 1)) :
    (reg.mergeOne own).Stored own := by
  have hstore : (reg.store own).Stored own := by
    unfold CapabilityRegistry.store
    split
    · next hnone =>
      rw [hnone] at hdecodes
      cases hdecodes
    · exact ⟨_, AList.lookup_insert _, rfl⟩
  unfold CapabilityRegistry.mergeOne
  obtain ⟨hnone, hroom⟩ | ⟨e, he, hless⟩ | ⟨e, he, hsame⟩ := h
  · rw [hnone]
    dsimp only
    rw [if_neg (by omega)]
    exact hstore
  · rw [he]
    dsimp only
    rw [if_pos hless]
    exact hstore
  · rw [he]
    dsimp only
    rw [hsame, supersedes_irrefl]
    exact ⟨e, he, hsame⟩

theorem mergeOne_lower (hnode : e.node = own.node) (hless : CapabilityRegistry.supersedes e own = true) {n : Nat}
    (h : reg.Yields own (n + 1)) : (reg.mergeOne e).Yields own n ∧
    (reg.Stored own → (reg.mergeOne e).Stored own) := by
  have hstays : reg.Yields own n := by
    obtain ⟨hnone, hroom⟩ | hrest := h
    · exact .inl ⟨hnone, by omega⟩
    · exact .inr hrest
  have hstore : (reg.store e).Yields own n ∨ reg.store e = reg := by
    unfold CapabilityRegistry.store
    split
    · exact .inr rfl
    · refine .inl (.inr (.inl ⟨_, by rw [hnode]; exact AList.lookup_insert _, ?_⟩))
      rw [← hnode]
      exact hless
  have hyields : (reg.store e).Yields own n := by
    obtain hyields | hsame := hstore
    · exact hyields
    · rw [hsame]
      exact hstays
  unfold CapabilityRegistry.mergeOne
  rw [hnode]
  split
  · next hnone =>
    have hnot : reg.Stored own → False := fun ⟨x, hx, _⟩ => by
      rw [hnone] at hx
      cases hx
    split
    · exact ⟨hstays, fun hsame => hsame⟩
    · exact ⟨hyields, fun hsame => (hnot hsame).elim⟩
  · next cur hcur =>
    split
    · next hhigher =>
      refine ⟨hyields, fun ⟨x, hx, hsame⟩ => ?_⟩
      cases hcur.symm.trans hx
      rw [hsame, supersedes_asymm hless] at hhigher
      cases hhigher
    · exact ⟨hstays, fun hsame => hsame⟩

theorem merge_own (hdecodes : (decodeNodeCapabilities own.blob).isSome = true)
    (hlower : ∀ e ∈ digest, e.node = own.node → CapabilityRegistry.supersedes e own = true ∨ e = own)
    (h : reg.Yields own digest.length) (hin : own ∈ digest ∨ reg.Stored own) : (reg.merge digest).Stored own := by
  induction digest generalizing reg with
  | nil => exact hin.resolve_left (by simp)
  | cons e digest ih =>
    have hrest : ∀ e ∈ digest, e.node = own.node → CapabilityRegistry.supersedes e own = true ∨ e = own :=
      fun e he => hlower e (mem_cons_of_mem _ he)
    by_cases hown : e = own
    · have hstored : (reg.mergeOne e).Stored own := by
        rw [hown]
        exact mergeOne_own hdecodes h
      exact ih hrest (.inr (.inr hstored)) (.inr hstored)
    · have hlater : own ∈ e :: digest → own ∈ digest :=
        fun hmem => (mem_cons.mp hmem).resolve_left fun heq => hown heq.symm
      by_cases hnode : e.node = own.node
      · have hless := (hlower e mem_cons_self hnode).resolve_right hown
        obtain ⟨hyields, hstored⟩ := mergeOne_lower hnode hless h
        exact ih hrest hyields (hin.imp hlater hstored)
      · obtain ⟨hlookup, hsize, hmax⟩ := @mergeOne_other reg own.node e hnode
        have hstored : reg.Stored own → (reg.mergeOne e).Stored own :=
          fun ⟨x, hx, hsame⟩ => ⟨x, hlookup.trans hx, hsame⟩
        refine ih hrest ?_ (hin.imp hlater hstored)
        obtain ⟨hnone, hroom⟩ | ⟨x, hx, hless⟩ | hsame := h
        · rw [length_cons] at hroom
          exact .inl ⟨hlookup.trans hnone, by rw [hmax]; omega⟩
        · exact .inr (.inl ⟨x, hlookup.trans hx, hless⟩)
        · exact .inr (.inr (hstored hsame))

end

namespace Advertiser

variable {cfg : GossipConfig} {self_ : NodeId} {stale : List CapabilityDigestEntry} {a a' : Advertiser} {l : Label}

/-- Of the node's own entry: it is the highest stamp, and it says what was published last. -/
structure Live (self_ : NodeId) (stale : List CapabilityDigestEntry) (a : Advertiser) : Prop where
  same : a.node.swim.self_ = self_
  own : ∀ e, a.registry.table.lookup self_ = some e → e.digest self_ ∈ a.claimed ∧
    ∀ old ∈ stale ++ a.claimed, CapabilityRegistry.supersedes old (e.digest self_) = true ∨ old = e.digest self_
  pending : ∀ caps, a.registry.pending = some caps →
    a.published.getLast? = some caps ∧ (encodeNodeCapabilities caps).length ≤ kMaxDecodedCapabilityBytes
  last : a.registry.pending = none → ∀ e, a.registry.table.lookup self_ = some e → a.published.getLast? = some e.caps

namespace Live

theorem pull (h : Live self_ stale a) (n : Node) (hn : n.swim.self_ = self_)
    (hfresh : ∀ caps, a.registry.pending = some caps → ∀ old ∈ stale ++ a.claimed,
      CapabilityRegistry.supersedes old (a.stamped caps) = true ∨ old = a.stamped caps) :
    Live self_ stale { a with node := n, registry := (a.pulled cfg).2, claimed := a.claimed ++ a.claims.toList } := by
  have hregistry : (a.pulled cfg).2 = a.registry.claimLocal a.node.swim.self_ a.node.swim.selfIncarnation := rfl
  rw [hregistry]
  rw [h.same] at hregistry ⊢
  unfold Advertiser.claims CapabilityRegistry.claimLocal
  cases hpending : a.registry.pending with
  | none =>
    dsimp only
    rw [toList_none, append_nil]
    exact ⟨hn, h.own, h.pending, h.last⟩
  | some caps =>
    obtain ⟨hlast, hsmall⟩ := h.pending caps hpending
    have hstamp : a.stamped caps = ⟨self_, a.node.swim.selfIncarnation, a.registry.localSeq + 1,
        encodeNodeCapabilities caps⟩ := by
      rw [← h.same]
      rfl
    have hnew := hfresh caps hpending
    rw [hstamp] at hnew
    dsimp only
    rw [dif_pos hsmall, if_pos hsmall, hstamp, toList_some]
    refine ⟨hn, fun e he => ?_, nofun, fun _ e he => ?_⟩
    · cases (AList.lookup_insert _).symm.trans he
      refine ⟨mem_concat_self, fun old hold => ?_⟩
      rw [← append_assoc] at hold
      rcases mem_append.mp hold with hold | hold
      · exact hnew old hold
      · exact .inr (mem_singleton.mp hold)
    · cases (AList.lookup_insert _).symm.trans he
      exact hlast

theorem step (h : Live self_ stale a) (hok : Fresh stale a l) (hstep : a.step cfg l = some a') :
    Live self_ stale a' := by
  cases l with
  | swim l =>
    rw [Advertiser.step] at hstep
    split at hstep
    · next hsends =>
      obtain ⟨n, hn, rfl⟩ := map_eq_some_iff.mp hstep
      exact h.pull n ((Node.self_step hn).trans h.same) (hok hsends)
    · obtain ⟨n, hn, rfl⟩ := map_eq_some_iff.mp hstep
      exact ⟨(Node.self_step hn).trans h.same, h.own, h.pending, h.last⟩
  | publishLocal caps =>
    cases hstep
    refine ⟨h.same, h.own, fun c hc => ?_, nofun⟩
    cases hc
    exact ⟨getLast?_concat, hok⟩
  | merge incoming =>
    simp only [Advertiser.step, ite_none_right_eq_some, some.injEq] at hstep
    obtain ⟨hothers, rfl⟩ := hstep
    have hsame : (a.registry.merge incoming).table.lookup self_ = a.registry.table.lookup self_ := by
      refine merge_other _ fun e he => ?_
      rw [h.same] at hothers
      simpa using all_eq_true.mp hothers e he
    refine ⟨h.same, fun e he => h.own e (hsame.symm.trans he), fun caps hcaps => ?_, fun hnone e he => ?_⟩
    · exact h.pending caps (merge_pending.symm.trans hcaps)
    · exact h.last (merge_pending.symm.trans hnone) e (hsame.symm.trans he)
  | evictDead id =>
    simp only [Advertiser.step, ite_none_left_eq_some, some.injEq] at hstep
    obtain ⟨hid, rfl⟩ := hstep
    rw [h.same] at hid
    have hsame : (a.registry.evictDead id).table.lookup self_ = a.registry.table.lookup self_ :=
      AList.lookup_erase_ne (Ne.symm hid)
    exact ⟨h.same, fun e he => h.own e (hsame.symm.trans he), h.pending,
      fun hnone e he => h.last hnone e (hsame.symm.trans he)⟩

end Live

theorem pulled_pending : (a.pulled cfg).2.pending = none := by
  change (a.registry.claimLocal _ _).pending = none
  unfold CapabilityRegistry.claimLocal
  split
  · assumption
  · split <;> rfl

theorem mem_pack {budget : Nat} {es : List (Sigma fun _ : NodeId => CapabilityRegistry.Entry)}
    {d : CapabilityDigestEntry}
    (h : d ∈ CapabilityRegistry.pack budget es) : ∃ e ∈ es, d = e.2.digest e.1 := by
  induction es generalizing budget with
  | nil => cases h
  | cons e es ih =>
    rw [CapabilityRegistry.pack] at h
    split at h
    · obtain ⟨e', he', heq⟩ := ih h
      exact ⟨e', mem_cons_of_mem _ he', heq⟩
    · rcases mem_cons.mp h with heq | h
      · exact ⟨e, mem_cons_self, heq⟩
      · obtain ⟨e', he', heq⟩ := ih h
        exact ⟨e', mem_cons_of_mem _ he', heq⟩

/-- In every run of a life whose claims are all fresh: a peer whose entry of the node is of an earlier life or of this
one, or who has none and room for the whole digest, stores what was published last when it merges a digest with the
node's own entry, as the frame that is about to leave carries it. -/
theorem live_entry_prevails (cfg : GossipConfig) (self_ : NodeId) (drawn : UInt64) (sinks : Nat)
    (stale : List CapabilityDigestEntry) (a : Advertiser) (l : Swim.Label) (own : CapabilityDigestEntry)
    (digest : List CapabilityDigestEntry) (peer : CapabilityRegistry)
    (h : Reach (step cfg) (Fresh stale) (start cfg self_ drawn sinks) a) (hok : Fresh stale a (.swim l))
    (hsends : a.node.sends l = true) (hown : own ∈ (a.pulled cfg).1) (hnode : own.node = self_) (hin : own ∈ digest)
    (hlives : ∀ e ∈ digest, e.node = self_ → e ∈ stale ++ (a.claimed ++ a.claims.toList))
    (hpeer : peer.table.lookup self_ = none ∧ peer.table.size + digest.length ≤ peer.maxEntries ∨
      ∃ e, peer.table.lookup self_ = some e ∧ e.digest self_ ∈ stale ++ (a.claimed ++ a.claims.toList)) :
    ∃ e, (peer.merge digest).table.lookup self_ = some e ∧ a.published.getLast? = some e.caps := by
  have hstart : Live self_ stale (start cfg self_ drawn sinks) :=
    ⟨rfl, nofun, nofun, nofun⟩
  have hlive : Live self_ stale a := Reach.invariant h hstart fun _ _ _ hinv hok hstep => hinv.step hok hstep
  have hpulled := @Live.pull cfg self_ stale a hlive a.node hlive.same (hok hsends)
  obtain ⟨⟨id, e₀⟩, hmem, rfl⟩ := mem_pack hown
  have hid : id = self_ := hnode
  subst hid
  have hentry : (a.pulled cfg).2.table.lookup id = some e₀ := Table.mem_entries_iff.mp hmem
  have hlower : ∀ old ∈ stale ++ (a.claimed ++ a.claims.toList),
      CapabilityRegistry.supersedes old (e₀.digest id) = true ∨ old = e₀.digest id := (hpulled.own e₀ hentry).2
  have hyields : peer.Yields (e₀.digest id) digest.length := by
    obtain hnone | ⟨e, he, hold⟩ := hpeer
    · exact .inl hnone
    · obtain hless | hsame := hlower _ hold
      · exact .inr (.inl ⟨e, he, hless⟩)
      · exact .inr (.inr ⟨e, he, hsame⟩)
  have hdecodes : (decodeNodeCapabilities (e₀.digest id).blob).isSome = true := by
    rw [CapabilityRegistry.digest_blob, e₀.decodes]
    rfl
  obtain ⟨e, he, hsame⟩ := merge_own hdecodes (fun e he hid => hlower e (hlives e he hid)) hyields (.inl hin)
  have hblob : e.blob = e₀.blob := congrArg CapabilityDigestEntry.blob hsame
  have hcaps : e.caps = e₀.caps := by
    have hboth := e.decodes
    rw [hblob, e₀.decodes] at hboth
    exact (some.inj hboth).symm
  exact ⟨e, he, by rw [hcaps]; exact hpulled.last (@pulled_pending cfg a) e₀ hentry⟩

def shipped : GossipConfig := { toConfig := Config.sanitize {} }

def flagged (name : UInt8) : NodeCapabilities := { flags := [[name]] }

def runs (n : Nat) : List Label := List.replicate n (.swim (.run {}))

/-- Up to the `Join` frame that is about to leave. -/
def joining : List Label := [.swim (.call (.requestJoin 2)), .swim (.run {})]

def readmitting : MessageFrame where
  from_ := 2
  to_ := 1
  control := true
  payload := some
    { kind := .joinAck, from_ := 2, fromIncarnation := 1, subject := 1, subjectIncarnation := 2, wireVersion := 2 }

/-- The `Join` frame leaves, and the node adopts what the seed assigned. -/
def readmitted : List Label := runs 3 ++ .swim (.call (.frame readmitting)) :: runs 7

def earlier : List Label := .publishLocal (flagged 0) :: joining ++ runs 3 ++ .publishLocal (flagged 1) :: joining

def staleEntry : CapabilityDigestEntry := ⟨1, 1, 2, encodeNodeCapabilities (flagged 1)⟩

instance (stale : List CapabilityDigestEntry) (a : Advertiser) : (l : Label) → Decidable (Fresh stale a l)
  | .swim l =>
    decidable_of_iff (a.node.sends l = true → ∀ caps ∈ a.registry.pending, ∀ old ∈ stale ++ a.claimed,
        CapabilityRegistry.supersedes old (a.stamped caps) = true ∨ old = a.stamped caps) Iff.rfl
  | .publishLocal _ => inferInstanceAs (Decidable (_ ≤ _))
  | .merge _ => isTrue trivial
  | .evictDead _ => isTrue trivial

theorem live_entry_prevails_published_late : ∃ a,
    Reachable (step shipped) (start shipped 1 9 0) a ∧ a.published = [flagged 2] ∧
    ∃ e, ((({} : CapabilityRegistry).merge [staleEntry]).merge (a.pulled shipped).1).table.lookup 1 = some e ∧
      e.caps = flagged 2 := by
  obtain ⟨a, ha, hfacts⟩ := map_eq_some_iff.mp (show (Machine.run (guarded (step shipped) (Fresh [staleEntry]))
    (start shipped 1 9 0) (joining ++ readmitted ++ .publishLocal (flagged 2) :: joining)).map (fun a =>
      decide (Fresh [staleEntry] a (.swim (.run {})) ∧ a.node.sends (.run {}) = true ∧ a.published = [flagged 2] ∧
        a.claims = some (a.stamped (flagged 2)) ∧ (a.pulled shipped).1 = [a.stamped (flagged 2)] ∧
        (a.stamped (flagged 2)).node = 1)) = some true by decide +kernel)
  obtain ⟨hfresh, hsends, hpublished, hclaims, hpulled, hnode⟩ := of_decide_eq_true hfacts
  have hreach := reach_of_run ha
  have hstale : ((({} : CapabilityRegistry).merge [staleEntry]).table.lookup 1).map (fun e => e.digest 1) =
      some staleEntry := by
    decide +kernel
  obtain ⟨old, hold, hdigest⟩ := map_eq_some_iff.mp hstale
  obtain ⟨e, he, hcaps⟩ := live_entry_prevails shipped 1 9 0 [staleEntry] a (.run {}) (a.stamped (flagged 2))
    (a.pulled shipped).1 (({} : CapabilityRegistry).merge [staleEntry]) hreach hfresh hsends
    (by rw [hpulled]; exact mem_singleton_self _) hnode (by rw [hpulled]; exact mem_singleton_self _)
    (by simp [hpulled, hclaims]) (.inr ⟨old, hold, by rw [hdigest]; exact mem_cons_self⟩)
  refine ⟨a, hreach.reachable, hpublished, e, he, ?_⟩
  rw [hpublished] at hcaps
  exact (some.inj hcaps).symm

/-- The node publishes once and rejoins: the `Join` frame itself claims the new set under the old incarnation, so the
frames that follow the adoption still carry it so, and a peer keeps what the earlier life said. -/
theorem stale_entry_prevails : ∃ a b,
    Reachable (step shipped) (start shipped 1 7 0) a ∧ a.node.sends (.run {}) = true ∧
    (a.pulled shipped).1 = [staleEntry] ∧
    Reachable (step shipped) (start shipped 1 9 0) b ∧ b.node.sends (.run {}) = true ∧
    b.node.swim.selfIncarnation = 2 ∧ b.published = [flagged 2] ∧
    (b.pulled shipped).1 = [⟨1, 1, 1, encodeNodeCapabilities (flagged 2)⟩] ∧
    ∃ e, ((({} : CapabilityRegistry).merge (a.pulled shipped).1).merge (b.pulled shipped).1).table.lookup 1 = some e ∧
      e.caps = flagged 1 := by
  obtain ⟨a, ha, hfacts⟩ := map_eq_some_iff.mp (show (Machine.run (step shipped) (start shipped 1 7 0)
    earlier).map (fun a => decide (a.node.sends (.run {}) = true ∧ (a.pulled shipped).1 = [staleEntry])) = some true
    by decide +kernel)
  obtain ⟨hsends, hstale⟩ := of_decide_eq_true hfacts
  obtain ⟨b, hb, hfacts⟩ := map_eq_some_iff.mp (show (Machine.run (step shipped) (start shipped 1 9 0)
    (.publishLocal (flagged 2) :: joining ++ readmitted ++ joining)).map (fun b =>
      decide (b.node.sends (.run {}) = true ∧ b.node.swim.selfIncarnation = 2 ∧ b.published = [flagged 2] ∧
        (b.pulled shipped).1 = [⟨1, 1, 1, encodeNodeCapabilities (flagged 2)⟩])) = some true by decide +kernel)
  obtain ⟨hsends', hadopted, hpublished, hlive⟩ := of_decide_eq_true hfacts
  refine ⟨a, b, reachable_of_run ha, hsends, hstale, reachable_of_run hb, hsends', hadopted, hpublished,
    hlive, ?_⟩
  rw [hstale, hlive]
  exact map_eq_some_iff.mp (show (((({} : CapabilityRegistry).merge [staleEntry]).merge
    [⟨1, 1, 1, encodeNodeCapabilities (flagged 2)⟩]).table.lookup 1).map (fun e => e.caps) = some (flagged 1)
    by decide +kernel)

end Advertiser

end Quark.Swim
