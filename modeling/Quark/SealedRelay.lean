import Mathlib.Data.Finset.Basic
import Quark.FrameStreamFeed
import Quark.PeerSession

/-! `SealedRelayTransport` of `sealed_relay_transport.hpp` over hops that authenticate the sender of every
frame, in a network where only some nodes run the code. -/
namespace Quark.Net

open Function List Option Bytes Reader
open Swim (NodeId)

def kRelayEnvelopeType : UInt64 := 0x52454C4159454E56

structure SealedRelay where
  self_ : NodeId
  via : Table NodeId (List NodeId) := ∅
  trusted : Finset NodeId := ∅
  admit_ : Option (NodeId → NodeId → Bool) := none
  forwarding : Bool := false
  relayed : UInt64 := 0
  refused : UInt64 := 0

/-- What a frame from the hop leads to. -/
inductive Outcome
  | up (f : MessageFrame)
  | forward (dest : NodeId) (f : MessageFrame)
  | refused

namespace SealedRelay

variable (t : SealedRelay)

def setRelayVia (peer : NodeId) (relays : List NodeId) : SealedRelay :=
  { t with trusted := t.trusted ∪ relays.toFinset, via := t.via.insert peer relays }

def setForwarding (allow : Option (NodeId → NodeId → Bool)) : SealedRelay :=
  { t with admit_ := allow, forwarding := true }

/-- The first relay on the list for `to_`; 0 for none. -/
def relayFor (to_ : NodeId) : NodeId := ((t.via.lookup to_).bind List.head?).getD 0

def wrap (to_ : NodeId) (inner : MessageFrame) : MessageFrame where
  from_ := t.self_
  to_ := to_
  target := ⟨⟨0⟩, 0⟩
  msgType := ⟨kRelayEnvelopeType⟩
  mode := 1
  kind := if inner.kind = Secure.FrameKind.control then Secure.FrameKind.control else Secure.FrameKind.data
  deadlineNs := 0
  traceId := 0
  principal := {}
  payload := encodeFrameBody inner

/-- What `send` hands to the hop. -/
def send (to_ : NodeId) (f : MessageFrame) : NodeId × MessageFrame :=
  let relay := t.relayFor to_
  if relay = 0 then (to_, f) else (relay, t.wrap relay f)

def refuse : SealedRelay × Outcome := ({ t with refused := t.refused + 1 }, .refused)

def onHopFrame (f : MessageFrame) : SealedRelay × Outcome :=
  if f.msgType.value ≠ kRelayEnvelopeType ∨ f.kind = Secure.FrameKind.authenticate ∨
    f.kind = Secure.FrameKind.schema then (t, .up f)
  else
    match decodeFrameBody f.payload with
    | none => t.refuse
    | some inner =>
      if inner.to_ = t.self_ then
        if inner.from_ = f.from_ ∨ f.from_ ∈ t.trusted then (t, .up inner) else t.refuse
      else
        match if t.forwarding then t.admit_ else none with
        | none => t.refuse
        | some allow =>
          if inner.from_ ≠ f.from_ ∨ !allow f.from_ inner.to_ then t.refuse
          else ({ t with relayed := t.relayed + 1 }, .forward inner.to_ (t.wrap inner.to_ inner))

end SealedRelay

/-- A frame on its way over the hop session between `frame.from_` and `to_`: the hop vouches for the sender. -/
structure Flight where
  to_ : NodeId
  frame : MessageFrame

inductive RelayEvent
  | configured (node peer : NodeId) (relays : List NodeId)
  | sent (node to_ : NodeId) (f : MessageFrame)
  | handedUp (node session : NodeId) (f : MessageFrame)
  deriving DecidableEq

/-- Frames stay on the wire: they may come late, twice or never. -/
structure Network where
  nodes : NodeId → SealedRelay := fun n => { self_ := n }
  wire : List Flight := []
  log : List RelayEvent := []

inductive RelayLabel
  | setRelayVia (node peer : NodeId) (relays : List NodeId)
  | setForwarding (node : NodeId) (allow : Option (NodeId → NodeId → Bool))
  | send (node to_ : NodeId) (f : MessageFrame)
  | misbehave (to_ : NodeId) (f : MessageFrame)
  | deliver (i : Nat)

namespace Network

variable (honest : NodeId → Bool) (s : Network)

def setNode (n : NodeId) (t : SealedRelay) : Network := { s with nodes := update s.nodes n t }

def put (w : Flight) : Network := { s with wire := s.wire ++ [w] }

def note (e : RelayEvent) : Network := { s with log := s.log ++ [e] }

/-- An honest node runs the code; its application sends in its own name and keeps off the reserved type. -/
def step : RelayLabel → Option Network
  | .setRelayVia n peer relays =>
    if honest n then
      some ((s.setNode n ((s.nodes n).setRelayVia peer relays)).note (.configured n peer relays))
    else none
  | .setForwarding n allow => if honest n then some (s.setNode n ((s.nodes n).setForwarding allow)) else none
  | .send n to_ f =>
    if honest n ∧ f.from_ = n ∧ f.to_ = to_ ∧ f.msgType.value ≠ kRelayEnvelopeType then
      let (hop, frame) := (s.nodes n).send to_ f
      some ((s.put ⟨hop, frame⟩).note (.sent n to_ f))
    else none
  | .misbehave to_ f => if honest f.from_ then none else some (s.put ⟨to_, f⟩)
  | .deliver i =>
    (s.wire[i]?).bind fun w =>
      if !honest w.to_ then none
      else
        match (s.nodes w.to_).onHopFrame w.frame with
        | (t, .up f) => some ((s.setNode w.to_ t).note (.handedUp w.to_ w.frame.from_ f))
        | (t, .forward dest f) => some ((s.setNode w.to_ t).put ⟨dest, f⟩)
        | (t, .refused) => some (s.setNode w.to_ t)

end Network

def MessageFrame.onWire (f : MessageFrame) : MessageFrame :=
  { f with payload := f.payload.take (f.payload.length % 2 ^ 32) }

section

variable {f g : MessageFrame} {bs : List UInt8}

theorem MessageFrame.onWire_length (f : MessageFrame) : f.onWire.payload.length = f.payload.length % 2 ^ 32 := by
  rw [onWire, length_take]
  exact Nat.min_eq_left (Nat.mod_le _ _)

theorem MessageFrame.onWire_of_small (h : f.payload.length < 2 ^ 32) : f.onWire = f := by
  rw [onWire, Nat.mod_eq_of_lt h, take_length]

theorem encodeFrameBody_onWire (f : MessageFrame) :
    encodeFrameBody f = encodeFrameBody f.onWire ++ f.payload.drop (f.payload.length % 2 ^ 32) := by
  have hcount : UInt32.ofNat f.onWire.payload.length = UInt32.ofNat f.payload.length := by
    rw [f.onWire_length]
    apply UInt32.toNat.inj
    rw [UInt32.toNat_ofNat', UInt32.toNat_ofNat', Nat.mod_mod]
  have hpayload : f.payload = f.onWire.payload ++ f.payload.drop (f.payload.length % 2 ^ 32) :=
    (take_append_drop _ _).symm
  rw [encodeFrameBody, encodeFrameBody, hcount]
  simp only [append_assoc]
  rw [← hpayload]
  rfl

/-- A body gives back its frame, except that a payload of 2 ^ 32 bytes or more is cut. -/
theorem decodeFrameBody_encode (f : MessageFrame) : decodeFrameBody (encodeFrameBody f) = some f.onWire := by
  have hsmall : f.onWire.payload.length < 2 ^ 32 := f.onWire_length ▸ Nat.mod_lt _ (by decide)
  rw [decodeFrameBody, encodeFrameBody_onWire, reads_frame hsmall]
  rfl

theorem ensures_frame : Ensures readFrame fun f => f.payload.length < 2 ^ 32 :=
  .skip fun _ => .skip fun _ => .skip fun _ => .skip fun _ => .skip fun _ => .skip fun _ =>
    .skip fun _ => .skip fun _ =>
    .skip fun _ => .skip fun _ => .skip fun _ => .skip fun plen => (ensures_bytes plen.toNat).bind fun _ hlen =>
      ensures_pure (hlen ▸ plen.toNat_lt)

theorem onWire_of_decode (h : decodeFrameBody bs = some g) : g.onWire = g := by
  obtain ⟨⟨g', rest⟩, hrun, rfl⟩ := map_eq_some_iff.mp h
  exact MessageFrame.onWire_of_small (ensures_frame bs g' rest hrun)

end

section

variable {honest : NodeId → Bool} {s s' : Network} {t t' : SealedRelay} {f f' g : MessageFrame}
  {n m to_ session dest : NodeId}
  {w : Flight} {log : List RelayEvent} {e : RelayEvent}

/-- What is handed up arrived on the session of the sender it claims, or on that of a trusted relay. -/
theorem SealedRelay.onHopFrame_up (h : t.onHopFrame f = (t', .up g)) :
    t' = t ∧ (g = f ∧ (f.msgType.value ≠ kRelayEnvelopeType ∨ f.kind = Secure.FrameKind.authenticate ∨
        f.kind = Secure.FrameKind.schema) ∨
      f.msgType.value = kRelayEnvelopeType ∧ decodeFrameBody f.payload = some g ∧ g.to_ = t.self_ ∧
        (g.from_ = f.from_ ∨ f.from_ ∈ t.trusted)) := by
  rw [onHopFrame] at h
  split at h
  · next hplain =>
    cases h
    exact ⟨rfl, .inl ⟨rfl, hplain⟩⟩
  · next henvelope =>
    rw [not_or, not_not] at henvelope
    split at h
    · cases h
    · next inner hinner =>
      split at h
      · next hself =>
        split at h
        · next hfrom =>
          cases h
          exact ⟨rfl, .inr ⟨henvelope.1, hinner, hself, hfrom⟩⟩
        · cases h
      · split at h
        · cases h
        · split at h
          · cases h
          · cases h

/-- What is forwarded arrived on the session of the sender it claims, and the relay admits it. -/
theorem SealedRelay.onHopFrame_forward (h : t.onHopFrame f = (t', .forward dest g)) :
    f.msgType.value = kRelayEnvelopeType ∧ t'.self_ = t.self_ ∧ t'.trusted = t.trusted ∧
      ∃ inner allow, decodeFrameBody f.payload = some inner ∧ inner.to_ = dest ∧ inner.from_ = f.from_ ∧
        t.forwarding = true ∧ t.admit_ = some allow ∧ allow inner.from_ dest = true ∧ g = t.wrap dest inner := by
  rw [onHopFrame] at h
  split at h
  · cases h
  · next henvelope =>
    rw [not_or, not_not] at henvelope
    split at h
    · cases h
    · next inner hinner =>
      split at h
      · split at h
        · cases h
        · cases h
      · split at h
        · cases h
        · next allow hallow =>
          split at h
          · cases h
          · next hfrom =>
            cases h
            rw [not_or, not_not, Bool.not_eq_true', Bool.not_eq_false] at hfrom
            by_cases hon : t.forwarding = true
            · rw [if_pos hon] at hallow
              exact ⟨henvelope.1, rfl, rfl, inner, allow, hinner, rfl, hfrom.1, hon, hallow, hfrom.1 ▸ hfrom.2, rfl⟩
            · rw [if_neg hon] at hallow
              cases hallow

theorem SealedRelay.onHopFrame_refused (h : t.onHopFrame f = (t', .refused)) : t'.self_ = t.self_ ∧
    t'.trusted = t.trusted := by
  have hrefuse : ∀ {t' : SealedRelay}, t.refuse = (t', .refused) → t'.self_ = t.self_ ∧ t'.trusted = t.trusted := by
    intro t' heq
    cases heq
    exact ⟨rfl, rfl⟩
  rw [onHopFrame] at h
  split at h
  · cases h
  · split at h
    · exact hrefuse h
    · split at h
      · split at h
        · cases h
        · exact hrefuse h
      · split at h
        · exact hrefuse h
        · split at h
          · exact hrefuse h
          · cases h

def Genuine (log : List RelayEvent) (g : MessageFrame) : Prop := ∃ f, .sent g.from_ g.to_ f ∈ log ∧ g = f.onWire

def Own (honest : NodeId → Bool) (log : List RelayEvent) (w : Flight) : Prop :=
  w.frame.msgType.value ≠ kRelayEnvelopeType ∧ .sent w.frame.from_ w.to_ w.frame ∈ log ∨
    w.frame.msgType.value = kRelayEnvelopeType ∧ w.frame.kind ≠ Secure.FrameKind.authenticate ∧
      w.frame.kind ≠ Secure.FrameKind.schema ∧ ∃ g, decodeFrameBody w.frame.payload = some g ∧
      (honest g.from_ = true → Genuine log g)

/-- `session` is a relay that node `n` has configured for some peer. -/
def Configured (log : List RelayEvent) (n session : NodeId) : Prop :=
  ∃ peer relays, .configured n peer relays ∈ log ∧ session ∈ relays

structure Authentic (honest : NodeId → Bool) (s : Network) : Prop where
  self_ : ∀ n, (s.nodes n).self_ = n
  trusted : ∀ n r, r ∈ (s.nodes n).trusted ↔ Configured s.log n r
  wire : ∀ w ∈ s.wire, honest w.frame.from_ = true → Own honest s.log w
  session : ∀ n r g, .handedUp n r g ∈ s.log → r = g.from_ ∨ Configured s.log n r
  handed : ∀ n r g, .handedUp n r g ∈ s.log → honest g.from_ = true → honest r = true →
    ∃ f, .sent g.from_ n f ∈ s.log ∧ (g = f ∨ g = f.onWire)

theorem Genuine.more (h : Genuine log g) : Genuine (log ++ [e]) g := by
  obtain ⟨f, hsent, hwire⟩ := h
  exact ⟨f, mem_append_left _ hsent, hwire⟩

theorem Own.more (h : Own honest log w) : Own honest (log ++ [e]) w := by
  rcases h with ⟨htype, hsent⟩ | ⟨htype, hauth, hschema, g, hdecode, hgenuine⟩
  · exact .inl ⟨htype, mem_append_left _ hsent⟩
  · exact .inr ⟨htype, hauth, hschema, g, hdecode, fun hon => (hgenuine hon).more⟩

theorem Configured.more (h : Configured log n session) : Configured (log ++ [e]) n session := by
  obtain ⟨peer, relays, hmem, hin⟩ := h
  exact ⟨peer, relays, mem_append_left _ hmem, hin⟩

theorem configured_concat (he : ∀ n peer relays, e ≠ .configured n peer relays) :
    Configured (log ++ [e]) n session ↔ Configured log n session := by
  refine ⟨?_, Configured.more⟩
  rintro ⟨peer, relays, hmem, hin⟩
  rcases mem_append.mp hmem with hold | hnew
  · exact ⟨peer, relays, hold, hin⟩
  · exact absurd (mem_singleton.mp hnew).symm (he n peer relays)

theorem wrap_own (hgenuine : honest f.from_ = true → Genuine log f.onWire) : Own honest log ⟨to_, t.wrap dest f⟩ := by
  refine .inr ⟨rfl, ?_, ?_, f.onWire, decodeFrameBody_encode f, hgenuine⟩
  · change (if f.kind = Secure.FrameKind.control then Secure.FrameKind.control else Secure.FrameKind.data) ≠ _
    split <;> decide
  · change (if f.kind = Secure.FrameKind.control then Secure.FrameKind.control else Secure.FrameKind.data) ≠ _
    split <;> decide

theorem send_own (hfrom : f.from_ = n) (hto : f.to_ = to_) (htype : f.msgType.value ≠ kRelayEnvelopeType)
    (hself : t.self_ = n) : Own honest (log ++ [.sent n to_ f]) ⟨(t.send to_ f).1, (t.send to_ f).2⟩ := by
  subst hfrom hto
  have hsent : RelayEvent.sent f.from_ f.to_ f ∈ log ++ [.sent f.from_ f.to_ f] :=
    mem_append_right _ mem_cons_self
  rw [SealedRelay.send]
  split
  · exact .inl ⟨htype, hsent⟩
  · exact wrap_own fun _ => ⟨f, hsent, rfl⟩

theorem Authentic.start (honest : NodeId → Bool) : Authentic honest {} where
  self_ _ := rfl
  trusted n r := by
    refine ⟨fun hin => absurd hin (Finset.notMem_empty r), ?_⟩
    rintro ⟨_, _, hmem, _⟩
    cases hmem
  wire _ hw := by cases hw
  session _ _ _ hmem := by cases hmem
  handed _ _ _ hmem := by cases hmem

/-- A node changes in what it does not trust others with, and an honest frame may go out. -/
theorem Authentic.setNode (h : Authentic honest s) (hself : t.self_ = (s.nodes n).self_)
    (htrusted : t.trusted = (s.nodes n).trusted) : Authentic honest (s.setNode n t) := by
  have hnode : ∀ m, (update s.nodes n t m).self_ = (s.nodes m).self_ ∧
      (update s.nodes n t m).trusted = (s.nodes m).trusted := by
    intro m
    by_cases hm : m = n
    · subst hm
      rw [update_self]
      exact ⟨hself, htrusted⟩
    · rw [update_of_ne hm]
      exact ⟨rfl, rfl⟩
  exact { h with
    self_ := fun m => (hnode m).1.trans (h.self_ m)
    trusted := fun m r => by
      change r ∈ (update s.nodes n t m).trusted ↔ _
      rw [(hnode m).2]
      exact h.trusted m r }

theorem Authentic.put (h : Authentic honest s) (hw : honest w.frame.from_ = true → Own honest s.log w) :
    Authentic honest (s.put w) :=
  { h with
    wire := fun w' hw' => by
      rcases mem_append.mp hw' with hold | hnew
      · exact h.wire w' hold
      · rw [mem_singleton.mp hnew]
        exact hw }

theorem Authentic.note (h : Authentic honest s) (hconfigured : ∀ n peer relays, e ≠ .configured n peer relays)
    (hhanded : ∀ n r g, e = .handedUp n r g → (r = g.from_ ∨ Configured s.log n r) ∧
      (honest g.from_ = true → honest r = true → ∃ f, .sent g.from_ n f ∈ s.log ∧ (g = f ∨ g = f.onWire))) :
    Authentic honest (s.note e) where
  self_ := h.self_
  trusted n r := by
    change _ ↔ Configured (s.log ++ [e]) n r
    rw [configured_concat hconfigured]
    exact h.trusted n r
  wire w hw hon := (h.wire w hw hon).more
  session n r g hmem := by
    rcases mem_append.mp hmem with hold | hnew
    · exact (h.session n r g hold).imp_right Configured.more
    · exact (hhanded n r g (mem_singleton.mp hnew).symm).1.imp_right Configured.more
  handed n r g hmem hon hr := by
    rcases mem_append.mp hmem with hold | hnew
    · obtain ⟨f, hsent, heq⟩ := h.handed n r g hold hon hr
      exact ⟨f, mem_append_left _ hsent, heq⟩
    · obtain ⟨f, hsent, heq⟩ := (hhanded n r g (mem_singleton.mp hnew).symm).2 hon hr
      exact ⟨f, mem_append_left _ hsent, heq⟩

theorem Authentic.configure {peer : NodeId} {relays : List NodeId} (h : Authentic honest s) :
    Authentic honest ((s.setNode n ((s.nodes n).setRelayVia peer relays)).note (.configured n peer relays)) where
  self_ m := by
    change (update s.nodes n _ m).self_ = m
    by_cases hm : m = n
    · subst hm
      rw [update_self]
      exact h.self_ m
    · rw [update_of_ne hm]
      exact h.self_ m
  trusted m r := by
    change r ∈ (update s.nodes n _ m).trusted ↔ Configured (s.log ++ [_]) m r
    by_cases hm : m = n
    · subst hm
      rw [update_self, SealedRelay.setRelayVia, Finset.mem_union, List.mem_toFinset, h.trusted m r]
      refine ⟨fun hin => ?_, ?_⟩
      · rcases hin with hold | hnew
        · exact hold.more
        · exact ⟨peer, relays, mem_append_right _ mem_cons_self, hnew⟩
      · rintro ⟨peer', relays', hmem, hin⟩
        rcases mem_append.mp hmem with hold | hnew
        · exact .inl ⟨peer', relays', hold, hin⟩
        · cases mem_singleton.mp hnew
          exact .inr hin
    · rw [update_of_ne hm, h.trusted m r]
      refine ⟨Configured.more, ?_⟩
      rintro ⟨peer', relays', hmem, hin⟩
      rcases mem_append.mp hmem with hold | hnew
      · exact ⟨peer', relays', hold, hin⟩
      · cases mem_singleton.mp hnew
        exact absurd rfl hm
  wire w hw hon := (h.wire w hw hon).more
  session m r g hmem := by
    rcases mem_append.mp hmem with hold | hnew
    · exact (h.session m r g hold).imp_right Configured.more
    · cases mem_singleton.mp hnew
  handed m r g hmem hon hr := by
    rcases mem_append.mp hmem with hold | hnew
    · obtain ⟨f, hsent, heq⟩ := h.handed m r g hold hon hr
      exact ⟨f, mem_append_left _ hsent, heq⟩
    · cases mem_singleton.mp hnew

/-- What an honest node hands up is what an honest sender sent, where the session is that of an honest node. -/
theorem Authentic.up (h : Authentic honest s) (hw : w ∈ s.wire)
    (hup : (s.nodes w.to_).onHopFrame w.frame = (t, .up g)) :
    (w.frame.from_ = g.from_ ∨ Configured s.log w.to_ w.frame.from_) ∧
      (honest g.from_ = true → honest w.frame.from_ = true →
        ∃ f, .sent g.from_ w.to_ f ∈ s.log ∧ (g = f ∨ g = f.onWire)) := by
  obtain ⟨-, ⟨rfl, hplain⟩ | ⟨htype, hdecode, hself, hfrom⟩⟩ := SealedRelay.onHopFrame_up hup
  · refine ⟨.inl rfl, fun _ hon => ?_⟩
    rcases h.wire w hw hon with ⟨-, hsent⟩ | ⟨htype, hauth, hschema, -⟩
    · exact ⟨w.frame, hsent, .inl rfl⟩
    · exact absurd hplain (by simp [htype, hauth, hschema])
  · rw [h.self_] at hself
    refine ⟨hfrom.imp Eq.symm (h.trusted w.to_ w.frame.from_).mp, fun hsender hon => ?_⟩
    rcases h.wire w hw hon with ⟨hplain, -⟩ | ⟨-, -, -, g', hdecode', hgenuine⟩
    · exact absurd htype hplain
    · cases hdecode.symm.trans hdecode'
      obtain ⟨f, hsent, hwire⟩ := hgenuine hsender
      exact ⟨f, hself ▸ hsent, .inr hwire⟩

/-- What an honest relay forwards is genuine where what it got was. -/
theorem Authentic.forward (h : Authentic honest s) (hw : w ∈ s.wire)
    (hforward : (s.nodes w.to_).onHopFrame w.frame = (t, .forward dest g)) :
    honest g.from_ = true → Own honest s.log ⟨dest, g⟩ := by
  obtain ⟨htype, -, -, inner, allow, hdecode, -, hfrom, -, -, -, rfl⟩ := SealedRelay.onHopFrame_forward hforward
  refine fun _ => wrap_own fun hsender => ?_
  have hsender : honest w.frame.from_ = true := hfrom ▸ hsender
  rcases h.wire w hw hsender with ⟨hplain, -⟩ | ⟨-, -, -, g', hdecode', hgenuine⟩
  · exact absurd htype hplain
  · cases hdecode.symm.trans hdecode'
    rw [onWire_of_decode hdecode]
    exact hgenuine (hfrom ▸ hsender)

theorem Authentic.step {l : RelayLabel} (h : Authentic honest s) (hstep : s.step honest l = some s') :
    Authentic honest s' := by
  cases l with
  | setRelayVia n peer relays =>
    rw [Network.step] at hstep
    split at hstep
    · cases hstep
      exact h.configure
    · cases hstep
  | setForwarding n allow =>
    rw [Network.step] at hstep
    split at hstep
    · cases hstep
      exact h.setNode rfl rfl
    · cases hstep
  | send n to_ f =>
    rw [Network.step] at hstep
    split at hstep
    · next hguard =>
      cases hstep
      obtain ⟨-, hfrom, hto, htype⟩ := hguard
      have hnoted : Authentic honest (s.note (.sent n to_ f)) :=
        h.note nofun nofun
      exact hnoted.put fun _ => send_own hfrom hto htype (h.self_ n)
    · cases hstep
  | misbehave to_ f =>
    rw [Network.step] at hstep
    split at hstep
    · cases hstep
    · next hdishonest =>
      cases hstep
      exact h.put fun hon => absurd hon hdishonest
  | deliver i =>
    obtain ⟨w, hget, hstep⟩ := bind_eq_some_iff.mp hstep
    have hw := mem_of_getElem? hget
    split at hstep
    · cases hstep
    · split at hstep
      · next t g hup =>
        cases hstep
        obtain ⟨rfl, -⟩ := SealedRelay.onHopFrame_up hup
        refine (h.setNode rfl rfl).note nofun fun n r g' heq => ?_
        cases heq
        exact h.up hw hup
      · next t dest g hforward =>
        cases hstep
        obtain ⟨-, hself, htrusted, -⟩ := SealedRelay.onHopFrame_forward hforward
        exact (h.setNode hself htrusted).put (h.forward hw hforward)
      · next t hrefused =>
        cases hstep
        obtain ⟨hself, htrusted⟩ := SealedRelay.onHopFrame_refused hrefused
        exact h.setNode hself htrusted

/-- In every network whose hops vouch for senders, with any nodes misbehaving: a frame handed up arrived on
the session of the sender it claims or of a relay that the receiver configured for some peer; an honest relay
forwards a frame only from the session of its sender, where it admits it; and where the sender and every relay
that the receiver configured are honest, the sender sent the frame to the receiver. -/
theorem relayed_frames_authentic (hrun : Machine.Reachable (Network.step honest) {} s) :
    (∀ n r g, .handedUp n r g ∈ s.log → r = g.from_ ∨ Configured s.log n r) ∧
    (∀ w ∈ s.wire, ∀ t dest g, (s.nodes w.to_).onHopFrame w.frame = (t, .forward dest g) →
      ∃ inner allow, decodeFrameBody w.frame.payload = some inner ∧ inner.to_ = dest ∧ inner.from_ = w.frame.from_ ∧
        (s.nodes w.to_).forwarding = true ∧ (s.nodes w.to_).admit_ = some allow ∧ allow inner.from_ dest = true ∧
        g = (s.nodes w.to_).wrap dest inner) ∧
    ∀ n r g, .handedUp n r g ∈ s.log → honest g.from_ = true → (∀ r, Configured s.log n r → honest r = true) →
      ∃ f, .sent g.from_ n f ∈ s.log ∧ (g = f ∨ g = f.onWire) := by
  have hinv : Authentic honest s := hrun.invariant (.start honest) fun _ _ _ h hstep => h.step hstep
  refine ⟨hinv.session, fun w _ t dest g hforward => ?_, fun n r g hmem hsender hrelays => ?_⟩
  · obtain ⟨-, -, -, hfacts⟩ := SealedRelay.onHopFrame_forward hforward
    exact hfacts
  · refine hinv.handed n r g hmem hsender ?_
    rcases hinv.session n r g hmem with rfl | hconfigured
    · exact hsender
    · exact hrelays r hconfigured

def sampleFrame (from_ to_ : NodeId) : MessageFrame :=
  ⟨from_, to_, ⟨⟨5⟩, 6⟩, ⟨7⟩, 1, Secure.FrameKind.data, 0, 0, {}, [1, 2, 3]⟩

/-- 2 reaches 1 through relay 3, which admits it. -/
def relayed : List RelayLabel :=
  [.setRelayVia 1 2 [3], .setRelayVia 2 1 [3], .setForwarding 3 (some fun origin dest => origin == 2 && dest == 1),
    .send 2 1 (sampleFrame 2 1), .deliver 0, .deliver 1]

theorem relayed_frames_authentic_relayed : ∃ s : Network, .handedUp 1 3 (sampleFrame 2 1) ∈ s.log ∧
    ∃ f, .sent 2 1 f ∈ s.log ∧ (sampleFrame 2 1 = f ∨ sampleFrame 2 1 = f.onWire) := by
  obtain ⟨s, hrun, hlog⟩ := map_eq_some_iff.mp (show
    (Machine.run (Network.step fun n => n == 1 || n == 2 || n == 3) {} relayed).map Network.log =
      some [.configured 1 2 [3], .configured 2 1 [3], .sent 2 1 (sampleFrame 2 1), .handedUp 1 3 (sampleFrame 2 1)] by
    decide +kernel)
  have hup : .handedUp 1 3 (sampleFrame 2 1) ∈ s.log := by
    rw [hlog]
    decide
  refine ⟨s, hup, (relayed_frames_authentic (Machine.reachable_of_run hrun)).2.2 1 3 _ hup rfl ?_⟩
  rintro r ⟨peer, relays, hmem, hin⟩
  rw [hlog] at hmem
  simp only [mem_cons, not_mem_nil, RelayEvent.configured.injEq, or_false, reduceCtorEq] at hmem
  rcases hmem with ⟨-, -, rfl⟩ | ⟨-, -, rfl⟩
  · rw [mem_singleton.mp hin]
    rfl
  · rw [mem_singleton.mp hin]
    rfl

/-- A relay configured for one peer hands in a frame in the name of another. -/
def laundered : List RelayLabel :=
  [.setRelayVia 1 4 [3], .misbehave 1 (({ self_ := 3 } : SealedRelay).wrap 1 (sampleFrame 2 1)), .deliver 0]

/-- Node 2 is honest and sent nothing; node 1 configured no relay for it. -/
theorem relayed_frames_laundered : ∃ s : Network, Machine.Reachable (Network.step fun n => n == 1 || n == 2) {} s ∧
    .handedUp 1 3 (sampleFrame 2 1) ∈ s.log ∧ (∀ relays, .configured 1 2 relays ∉ s.log) ∧
    ∀ to_ f, .sent 2 to_ f ∉ s.log := by
  obtain ⟨s, hrun, hlog⟩ := map_eq_some_iff.mp (show
    (Machine.run (Network.step fun n => n == 1 || n == 2) {} laundered).map Network.log =
      some [.configured 1 4 [3], .handedUp 1 3 (sampleFrame 2 1)] by decide +kernel)
  refine ⟨s, Machine.reachable_of_run hrun, ?_, fun relays hmem => ?_, fun to_ f hmem => ?_⟩
  · rw [hlog]
    decide
  · rw [hlog] at hmem
    simp at hmem
  · rw [hlog] at hmem
    simp at hmem

end

end Quark.Net
