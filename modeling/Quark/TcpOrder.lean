import Quark.TcpEvents

/-! Two nodes: what holds of both in every state of a run, and what the receivers are given of what was sent. -/
namespace Quark.Tcp

open List Option
open Net (MessageFrame FrameStream encodeFrame)
open Secure.FrameKind (data control)
open Swim (NodeId)
open scoped List

section

variable {p : Pair} {me x : Side} {k : UInt8} {far far' n n' : Node} {c : Conn} {l : LinkId} {out : LinkId → Prop}
  {s s' : Network}

theorem Reads.grows (h : Reads p me far n c) (hwrote : ∀ l, far.wrote l <+: far'.wrote l) : Reads p me far' n c := by
  have htake : (far'.wrote c.link).take (n.read c.link) = (far.wrote c.link).take (n.read c.link) := by
    obtain ⟨more, hmore⟩ := hwrote c.link
    rw [← hmore, take_append_of_le_length h.read]
  refine ⟨h.read.trans (hwrote c.link).length_le, h.cap, fun hr => ?_, fun hr => ?_⟩
  · rw [htake]
    exact h.hello hr
  · rw [htake]
    exact h.frames hr

theorem Holds.grows (h : Holds p me far out n) (hwrote : ∀ l, far.wrote l <+: far'.wrote l)
    (hput : ∀ l, far.put l <+: far'.put l) : Holds p me far' out n :=
  ⟨h.links, fun l => (h.took l).trans (hput l), h.queue, h.lanes,
    fun c hc hlive hn => ⟨(h.conn c hc hlive hn).1, (h.conn c hc hlive hn).2.1.grows hwrote,
    (h.conn c hc hlive hn).2.2⟩, h.husk,
    fun c hc hn => ⟨(h.pending c hc hn).1, (h.pending c hc hn).2.grows hwrote⟩, h.nodup, h.apart⟩

theorem Holds.closings (h : Holds p me far out n) (cls : List Closing) : Holds p me far out
    { n with closings := cls } :=
  h.transfer rfl rfl (fun _ _ => .placed) (fun _ _ _ => id) (fun l _ => (h.links l).agrees .placed)
    (fun l _ => h.took l) h.queue
    h.lanes (Nat.le_refl _)

theorem Goes.put (h : Goes me k far n n') (l : LinkId) : n.put l <+: n'.put l := by
  obtain ⟨es, -, hput, -⟩ := h.sent
  obtain ⟨fs, hfs, -⟩ := hput l
  exact ⟨fs, hfs.symm⟩

/-- In every state of a run: each node by itself, and what each knows of the other. -/
structure Sound (p : Pair) (k : UInt8) (s : Network) : Prop where
  inv : ∀ x, Inv p x (s.node x.far) (s.node x)
  taken : ∀ x, ∀ l ∈ (s.node x).settleTimeouts, l ∈ (s.node x.far).accepted ∧ (s.node x.far).pending l = false
  dialled : ∀ x, ∀ l ∈ (s.node x).accepted, l.dialer ≠ x ∧ l.serial < (s.node x.far).dials
  order : ∀ x, lane k ((s.node x.far).trail (s.node x) ++ (s.node x).backlog) <+ lane k (s.node x).sent
  begun : ∀ x, lane k ((s.node x).begun ++ (s.node x).backlog) <+ lane k (s.node x).sent

theorem Side.eq_far (h : me ≠ x) : me = x.far := by
  cases me with
  | left =>
    cases x with
    | left => exact absurd rfl h
    | right => rfl
  | right =>
    cases x with
    | left => rfl
    | right => exact absurd rfl h

/-- A dial is confirmed for a hint of the other node, and that only comes from `conns_`; or by a timer, and
then the other node has decided. -/
theorem Sound.dry (h : Sound p k s) (x : Side) : Dry x (s.node x.far) (s.node x) := by
  have hinv := h.inv x
  have hfar := h.inv x.far
  rw [Side.far_far] at hfar
  have htaken := h.taken x.far
  rw [Side.far_far] at htaken
  intro l hl
  by_contra hput
  obtain hpend | hfresh := hl
  · obtain ⟨w, hw, rfl⟩ := pending_iff.mp hpend
    have hwait := (hinv.pending w hw id).1
    obtain ⟨f, hf, hkind, flags, hpayload, hconfirms⟩ | htime :=
      ((hfar.links w.link).mine (Side.eq_far hwait.theirs)).2 hput
    · have hmine := (hfar.took w.link).subset hf
      cases hidentified : w.identified with
      | false =>
        rw [(hwait.unread hidentified).2.2] at hmine
        cases hmine
      | true =>
        obtain ⟨-, -, flags', hone, hnot, -⟩ := hwait.rejected hidentified
        rw [hone] at hmine
        rw [mem_singleton.mp hmine] at hpayload
        cases hpayload
        rw [hconfirms] at hnot
        cases hnot
    · rw [(htaken w.link htime).2] at hpend
      cases hpend
  · by_cases hdialer : l.dialer = x
    · have hunknown : (s.node x.far).Fresh x.far l := by
        refine (if_neg (hdialer ▸ x.ne_far)).mpr fun hacc => ?_
        have hserial := (h.dialled x.far l hacc).2
        rw [Side.far_far] at hserial
        exact absurd hserial (Nat.not_lt.mpr ((if_pos hdialer).mp hfresh))
      exact hput ((hfar.links l).fresh hunknown).1
    · have hnew : l ∉ (s.node x).accepted := (if_neg hdialer).mp hfresh
      obtain ⟨f, hf, -⟩ | htime := ((hfar.links l).mine (Side.eq_far hdialer)).2 hput
      · have hmine := (hfar.took l).subset hf
        rw [((hinv.links l).fresh hfresh).1] at hmine
        cases hmine
      · exact hnew (htaken l htime).1

/-- The condition on a step: frames of the application are sent, and a settle timer confirms no dial that the
other node has not decided about, or holds as a rejected one. -/
def Settled (p : Pair) (s : Network) : Label → Prop
  | .event x e => SendsApp p x e ∧ SettlesTaken (s.node x.far) s.now (s.node x) e
  | .tick _ => True

instance (s : Network) (a : Label) : Decidable (Settled p s a) := by
  unfold Settled
  split
  · infer_instance
  · infer_instance

theorem SettlesTaken.closings {now : Nat} {e : Event} (h : SettlesTaken far now n e) (cls : List Closing) :
    SettlesTaken far now { n with closings := cls } e := by
  cases e with
  | settleTimer i script => exact h
  | send f connects script => trivial
  | accept l kept => trivial
  | connected l script => trivial
  | writable l script => trivial
  | readable l n admitted s₁ s₂ => trivial
  | reset l => trivial
  | posted script => trivial
  | reconnectTimer i connects => trivial
  | discardTimer i => trivial

theorem Goes.closings (cls : List Closing) : Goes me k far n { n with closings := cls } :=
  ⟨idle_sent rfl rfl rfl rfl, fun _ => prefix_refl _, .refl _,
    fun _ hp => .inl hp, fun _ hl => hl, fun _ hl => .inl hl, Nat.le_refl _, fun _ hl => .inl hl⟩

theorem Sound.node {e : Event} (hk : k ≠ FrameKind.dialHint) (h : Sound p k s) (happ : SendsApp p x e)
    (htaken : SettlesTaken (s.node x.far) s.now (s.node x) e)
    (hstep : Node.step p x s.now (s.node x.far).wrote (s.node x.far).dials
    { s.node x with closings := [] } e = some n') :
    Inv p x (s.node x.far) n' ∧ Goes x k (s.node x.far) (s.node x) n' := by
  have hlinks := (h.inv x.far).links
  obtain ⟨hinv, hgoes⟩ := step_spec hk ((h.inv x).closings []) hlinks (h.dry x) happ (htaken.closings []) hstep
  exact ⟨hinv, (Goes.closings []).trans hgoes⟩

theorem trail_begun {b : List MessageFrame} (htook : ∀ l, far.took l <+: n.put l)
    (hput : ∀ l, ∃ fs, n'.put l = n.put l ++ fs ∧ lane k (fs ++ n'.backlog) <+ lane k b) :
    lane k (far.trail n' ++ n'.backlog) <+ lane k (far.trail n ++ b) := by
  unfold Node.trail
  cases far.live with
  | none =>
    obtain ⟨fs, -, hlane⟩ := hput ⟨.left, 0⟩
    have hleft : lane k n'.backlog <+ lane k (fs ++ n'.backlog) := lane_sublist (sublist_append_right ..)
    exact lane_append_left (hleft.trans hlane)
  | some l =>
    obtain ⟨fs, hfs, hlane⟩ := hput l
    rw [elim_some, elim_some, hfs, drop_append_of_le_length (htook l).length_le, ← append_assoc,
      append_assoc _ fs]
    exact lane_append_left hlane

theorem Sound.step {a : Label} (hk : k ≠ FrameKind.dialHint) (h : Sound p k s) (hok : Settled p s a)
    (hstep : step p s a = some s') : Sound p k s' := by
  cases a with
  | tick ns =>
    cases hstep
    refine ⟨fun x => ?_, h.taken, h.dialled, h.order, h.begun⟩
    exact ((h.inv x).closings []).grows (fun l => prefix_refl _) fun l => prefix_refl _
  | event x e =>
    obtain ⟨n', hnode, rfl⟩ := map_eq_some_iff.mp hstep
    obtain ⟨hinv, hgoes⟩ := h.node hk hok.1 hok.2 hnode
    have hfar : x.far ≠ x := x.ne_far.symm
    obtain ⟨es, hsent, hput, hbegun⟩ := hgoes.sent
    have htook := (h.inv x.far).took
    rw [Side.far_far] at htook
    refine ⟨fun y => ?_, fun y => ?_, fun y => ?_, fun y => ?_, fun y => ?_⟩
    · by_cases hy : y = x
      · subst hy
        simp only [if_true, if_neg hfar]
        exact hinv.grows (fun l => prefix_refl _) fun l => prefix_refl _
      · obtain rfl := Side.eq_far hy
        simp only [Side.far_far, if_true, if_neg hfar]
        have hother := h.inv x.far
        rw [Side.far_far] at hother
        exact (hother.closings []).grows hgoes.wrote hgoes.put
    · by_cases hy : y = x
      · subst hy
        simp only [if_true, if_neg hfar]
        exact fun l hl => (hgoes.timeouts l hl).elim (h.taken y l) id
      · obtain rfl := Side.eq_far hy
        simp only [Side.far_far, if_true, if_neg hfar]
        intro l hl
        have htaken := h.taken x.far l hl
        rw [Side.far_far] at htaken
        refine ⟨hgoes.kept l htaken.1, ?_⟩
        by_contra hp
        obtain hp | hp := hgoes.pending l (Bool.not_eq_false _ ▸ hp)
        · rw [htaken.2] at hp
          cases hp
        · exact hp htaken.1
    · by_cases hy : y = x
      · subst hy
        simp only [if_true, if_neg hfar]
        exact fun l hl => (hgoes.accepted l hl).elim (h.dialled y l) id
      · obtain rfl := Side.eq_far hy
        simp only [Side.far_far, if_true, if_neg hfar]
        intro l hl
        have hdialled := h.dialled x.far l hl
        rw [Side.far_far] at hdialled
        exact ⟨hdialled.1, Nat.lt_of_lt_of_le hdialled.2 hgoes.dials⟩
    · by_cases hy : y = x
      · subst hy
        simp only [if_true, if_neg hfar]
        have horder := (h.order y).append_right (lane k es)
        rw [← lane_append, ← lane_append, append_assoc] at horder
        rw [hsent]
        exact (trail_begun htook hput).trans horder
      · obtain rfl := Side.eq_far hy
        simp only [Side.far_far, if_true, if_neg hfar]
        have horder := h.order x.far
        rw [Side.far_far] at horder
        refine .trans ?_ horder
        rw [lane_append, lane_append]
        exact hgoes.trail.append_right _
    · by_cases hy : y = x
      · subst hy
        simp only [if_true]
        obtain ⟨fs, hfs, hlane⟩ := hbegun
        have horder := (h.begun y).append_right (lane k es)
        rw [← lane_append, ← lane_append, append_assoc] at horder
        rw [hsent, hfs, append_assoc]
        exact (lane_append_left hlane).trans horder
      · obtain rfl := Side.eq_far hy
        simp only [if_neg hfar]
        exact h.begun x.far

theorem Sound.start (p : Pair) (k : UInt8) (now : Nat) : Sound p k { now } := by
  refine ⟨fun x => ?_, fun x l hl => (by cases hl), fun x l hl => (by cases hl), fun x => .refl _, fun x => .refl _⟩
  refine ⟨fun l => ⟨List.nil_prefix, fun _ => ⟨fun f hf => (by cases hf), fun hne => absurd rfl hne⟩,
    fun _ => .inl rfl,
    fun _ => ⟨rfl, rfl, rfl, rfl⟩⟩, fun l => prefix_refl _, fun f hf => (by cases hf), fun f hf => (by cases hf),
    fun c hc => (by cases hc), fun c hc => (by cases hc), fun c hc => (by cases hc), nodup_nil,
    fun c hc => (by cases hc)⟩

theorem Sound.reach {now : Nat} (hk : k ≠ FrameKind.dialHint) (h : Machine.Reach (Tcp.step p) (Settled p) { now } s) :
    Sound p k s :=
  h.invariant (Sound.start p k now) fun _ _ _ hs hok hstep => hs.step hk hok hstep

/-- Where a settle timer confirms no dial that the other node has not decided about or holds as a rejected
one, a receiver is given frames of a lane as they were sent and in that order, and every frame is begun on at
most one connection and in that order. -/
theorem received_in_order (now : Nat) (h : Machine.Reach (Tcp.step p) (Settled p) { now } s)
    (hk : k = data ∨ k = control)
    (x : Side) : lane k (s.node x.far).received <+ lane k (s.node x).sent ∧ lane k (s.node x).begun <+ lane k
    (s.node x).sent := by
  have hk : k ≠ FrameKind.dialHint := by
    obtain rfl | rfl := hk
    · decide
    · decide
  have hsound := Sound.reach hk h
  refine ⟨.trans ?_ (hsound.order x), .trans ?_ (hsound.begun x)⟩
  · rw [Node.trail, append_assoc]
    exact lane_sublist (sublist_append_left ..)
  · exact lane_sublist (sublist_append_left ..)

end

namespace Sample

def duo : Pair where
  id := fun | .left => 2 | .right => 1
  options := fun _ => {}
  distinct := by decide
  settles := fun _ => by decide

def message (kind : UInt8) (me : Side) (x : UInt8) : MessageFrame :=
  { from_ := duo.id me, to_ := duo.id me.far, target := ⟨⟨0⟩, 0⟩, msgType := ⟨0⟩, mode := 0, kind,
    deadlineNs := 0, traceId := 0
    principal := {}, payload := [x] }

def first (x : Side) : LinkId := ⟨x, 0⟩

/-- The left node is told that its dial is rejected in favour of the dial of the right one, which it has
accepted and lost. -/
def rejection : List Label :=
  [.event .right (.send (message control .right 9) true []), .event .right (.connected (first .right) [.wrote 14]),
    .event .left (.accept (first .right) true), .event .left (.writable (first .right) [.wrote 14]),
    .event .left (.readable (first .right) 14 true [.wrote 100] []),
    .event .left (.send (message data .left 1) true [.wrote 200]),
    .event .left (.reset (first .right)), .tick 20000000,
    .event .left (.reconnectTimer 0 true), .event .left (.connected (first .left) [.wrote 14]),
    .event .right (.accept (first .left) true), .event .right (.writable (first .left) [.wrote 14]),
    .event .left (.readable (first .left) 14 true [] []), .tick 1,
    .event .right (.readable (first .left) 14 true [.wouldBlock] []),
    .event .right (.writable (first .left) [.wrote 100]),
    .event .left (.readable (first .left) 200 true [] []), .event .left (.posted [])]

/-- The settle timer runs out all the same, before the right node discards the dial and reads the other connection. -/
def overtaking : List Label :=
  [.tick 499999999, .event .left (.settleTimer 0 []), .event .left (.send (message data .left 2) true [.wrote 200]),
    .event .right (.readable (first .left) 200 true [] []), .event .right (.readable (first .right) 14 true [] []),
    .event .right (.readable (first .right) 300 true [] [])]

/-- The right node discards the dial first; the settle timer then confirms a connection from which nothing is
read any more. -/
def settling : List Label :=
  [.tick 500000000, .event .right (.discardTimer 0), .event .left (.settleTimer 0 []),
    .event .left (.send (message data .left 2) true [.wrote 200]),
    .event .right (.readable (first .right) 14 true [] []), .event .right (.readable (first .right) 300 true [] [])]

end Sample

open Sample

/-- A lost connection, a rejected dial and a settle timer: of the two frames the receiver is given the first. -/
theorem received_in_order_settled : ∃ s : Network, (s.node .left).settleTimeouts = [⟨.left, 0⟩] ∧
    (s.node .left).begun = [message data .left 1, message data .left 2] ∧
    (s.node .right).received = [message data .left 1] ∧
    lane data (s.node .right).received <+ lane data (s.node .left).sent ∧
    lane data (s.node .left).begun <+ lane data (s.node .left).sent := by
  obtain ⟨s, hrun, hview⟩ := map_eq_some_iff.mp
      (show (Machine.run (Machine.guarded (step duo) (Settled duo)) { now := 1 }
    (rejection ++ settling)).map
      (fun s => ((s.node .left).settleTimeouts, (s.node .left).begun, (s.node .right).received)) =
      some ([⟨.left, 0⟩], [message data .left 1, message data .left 2], [message data .left 1]) by decide +kernel)
  simp only [Prod.mk.injEq] at hview
  exact ⟨s, hview.1, hview.2.1, hview.2.2, received_in_order 1 (Machine.reach_of_run hrun) (.inl rfl) .left⟩

/-- The hint of the rejected dial has come within the settle timeout, and the later frame is given to the
receiver before the earlier one. -/
theorem rejected_dial_overtakes :
    ((Machine.run (step duo) { now := 1 } rejection).any fun s => (s.node .left).conn.any fun c =>
        c.link = first .left ∧ c.hintReceived = true ∧ confirms c.hintFlags = false ∧
          s.now < 20000001 + 500000000) = true ∧
      ((Machine.run (step duo) { now := 1 } (rejection ++ overtaking)).any fun s =>
        (lane data (s.node .left).sent = [message data .left 1, message data .left 2] ∧
          lane data (s.node .right).received = [message data .left 2, message data .left 1] : Bool)) = true := by
  decide +kernel

end Quark.Tcp
