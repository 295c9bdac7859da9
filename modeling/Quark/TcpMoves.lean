import Quark.TcpSettle

/-! What the functions of the transport do to the frames on their way: those that a node begins leave its
queue in order, and a connection gets into `conns_` from `pending_in_` or as a new dial. -/
namespace Quark.Tcp

open Function List
open Net (MessageFrame)
open Swim (NodeId)
open scoped List

def lane (k : UInt8) (fs : List MessageFrame) : List MessageFrame := fs.filter (·.kind = k)

/-- The connection in `conns_` unless that is a husk. -/
def Node.live (n : Node) : Option LinkId := n.conn.bind fun c => if c.st = .backoff then none else some c.link

/-- The frames that may still be begun, with `c` in the hands of a function. -/
def Node.stock (n : Node) (c : Conn) : List MessageFrame :=
  (if n.registered c.link then c.unsent else n.conn.elim [] Conn.unsent) ++ n.outq.all

def Node.backlog (n : Node) : List MessageFrame := n.conn.elim [] Conn.unsent ++ n.outq.all

/-- From `n` with the frames `b` still to be begun to `n'` with `b'`; nothing has been read. -/
structure Moves (me : Side) (k : UInt8) (n : Node) (b : List MessageFrame) (n' : Node) (b' : List MessageFrame) :
    Prop where
  put : ∀ l, ∃ fs, n'.put l = n.put l ++ fs ∧ lane k (fs ++ b') <+ lane k b
  begun : ∃ fs, n'.begun = n.begun ++ fs ∧ lane k (fs ++ b') <+ lane k b
  wrote : ∀ l, n.wrote l <+: n'.wrote l
  live : n'.live = n.live ∨ n'.live = none ∨ ∃ l, n'.live = some l ∧ (n.pending l = true ∨ n.Fresh me l)
  pending : ∀ l, n'.pending l = true → n.pending l = true
  dials : n.dials ≤ n'.dials
  read : n'.read = n.read
  took : n'.took = n.took
  received : n'.received = n.received
  sent : n'.sent = n.sent
  accepted : n'.accepted = n.accepted
  timeouts : n'.settleTimeouts = n.settleTimeouts

section

variable {p : Pair} {me : Side} {k : UInt8} {far n n' n'' : Node} {c c' : Conn} {l : LinkId}
  {b b' b'' fs gs : List MessageFrame}
  {now : Nat} {script : List SendResult}

theorem lane_append : lane k (fs ++ gs) = lane k fs ++ lane k gs := filter_append ..

theorem lane_append_left {hs : List MessageFrame} (h : lane k gs <+ lane k hs) : lane k (fs ++ gs) <+ lane k
    (fs ++ hs) := by
  rw [lane_append, lane_append]
  exact h.append_left _

theorem lane_sublist (h : fs <+ gs) : lane k fs <+ lane k gs := h.filter _

theorem Moves.refl (me : Side) (k : UInt8) (n : Node) (b : List MessageFrame) : Moves me k n b n b :=
  ⟨fun _ => ⟨[], (append_nil _).symm, .refl _⟩, ⟨[], (append_nil _).symm, .refl _⟩, fun _ => prefix_refl _, .inl rfl,
    fun _ h => h, Nat.le_refl _, rfl, rfl, rfl, rfl, rfl, rfl⟩

theorem Moves.fresh (h : Moves me k n b n' b') (hf : n'.Fresh me l) : n.Fresh me l := by
  unfold Node.Fresh at hf ⊢
  split
  · next hm =>
    rw [if_pos hm] at hf
    exact h.dials.trans hf
  · next hm =>
    rw [if_neg hm, h.accepted] at hf
    exact hf

theorem Moves.trans (h : Moves me k n b n' b') (h' : Moves me k n' b' n'' b'') : Moves me k n b n'' b'' := by
  have hjoin : ∀ fs gs, lane k (fs ++ b') <+ lane k b → lane k (gs ++ b'') <+ lane k b' →
      lane k (fs ++ gs ++ b'') <+ lane k b := by
    intro fs gs hfs hgs
    rw [append_assoc, lane_append]
    rw [lane_append] at hfs
    exact (hgs.append_left _).trans hfs
  refine ⟨fun l => ?_, ?_, fun l => (h.wrote l).trans (h'.wrote l), ?_, fun l hp => h.pending l (h'.pending l hp),
    h.dials.trans h'.dials, h'.read.trans h.read, h'.took.trans h.took, h'.received.trans h.received,
    h'.sent.trans h.sent, h'.accepted.trans h.accepted, h'.timeouts.trans h.timeouts⟩
  · obtain ⟨fs, hput, hfs⟩ := h.put l
    obtain ⟨gs, hput', hgs⟩ := h'.put l
    exact ⟨fs ++ gs, by rw [hput', hput, append_assoc], hjoin fs gs hfs hgs⟩
  · obtain ⟨fs, hbegun, hfs⟩ := h.begun
    obtain ⟨gs, hbegun', hgs⟩ := h'.begun
    exact ⟨fs ++ gs, by rw [hbegun', hbegun, append_assoc], hjoin fs gs hfs hgs⟩
  · obtain hsame | hnone | ⟨l, hl, hfrom⟩ := h'.live
    · rw [hsame]
      exact h.live
    · exact .inr (.inl hnone)
    · exact .inr (.inr ⟨l, hl, hfrom.imp (h.pending l) h.fresh⟩)

theorem Moves.placed {conn : Option Conn} {pendingIn : List Conn} {outq : PeerQueue} {posted : Nat}
    {settleTimers : List (UInt32 × Nat)} {reconnectTimers : List Nat} {discardTimers : List (LinkId × Nat)}
    {closings : List Closing} (hb : lane k b' <+ lane k b)
    (hlive : Node.live { n with conn } = n.live ∨ Node.live { n with conn } = none ∨
      ∃ l, Node.live { n with conn } = some l ∧ n.pending l = true)
    (hpend : ∀ l, Node.pending { n with pendingIn } l = true → n.pending l = true) :
    Moves me k n b
      { n with conn, pendingIn, outq, posted, settleTimers, reconnectTimers, discardTimers, closings } b' :=
  ⟨fun _ => ⟨[], (append_nil _).symm, hb⟩, ⟨[], (append_nil _).symm, hb⟩, fun _ => prefix_refl _,
    hlive.imp_right fun h => h.imp_right fun ⟨l, hl, hfrom⟩ => ⟨l, hl, .inl hfrom⟩, hpend, Nat.le_refl _, rfl,
    rfl, rfl, rfl, rfl, rfl⟩

theorem live_iff : n.live = some l ↔ n.registered l = true := by
  unfold Node.live
  rw [registered_iff, Option.bind_eq_some_iff]
  refine exists_congr fun c => and_congr_right fun _ => ?_
  split
  · next hst => simp [hst]
  · next hst => simp [hst]

theorem stock_registered (h : n.registered c.link = true) : n.stock c = c.unsent ++ n.outq.all := by
  rw [Node.stock, if_pos h]

theorem stock_pending (h : n.registered c.link = false) : n.stock c = n.backlog := by
  rw [Node.stock, h]
  rfl

theorem stock_conn (h : n.conn = some c) : n.stock c = n.backlog := by
  unfold Node.stock Node.backlog
  rw [h]
  split
  · rfl
  · rfl

theorem store_moves (hlive : c.st ≠ .backoff) : Moves me k n (n.stock c) (n.store c) (n.store c).backlog := by
  unfold Node.store
  split
  · next hreg =>
    rw [stock_registered hreg]
    refine .placed (.refl _) (.inl ?_) fun l h => h
    rw [live_iff.mpr hreg]
    exact if_neg hlive
  · next hreg =>
    rw [stock_pending (Bool.eq_false_iff.mpr hreg)]
    refine .placed (.refl _) (.inl rfl) fun l h => ?_
    obtain ⟨w, hw, hl⟩ := pending_iff.mp h
    obtain ⟨w', hw', rfl⟩ := mem_map.mp hw
    refine pending_iff.mpr ⟨w', hw', ?_⟩
    split at hl
    · next heq => rw [heq, hl]
    · exact hl

theorem erasePending_pending (h : (n.erasePending l).pending l' = true) : n.pending l' = true := by
  obtain ⟨w, hw, hl⟩ := pending_iff.mp h
  exact pending_iff.mpr ⟨w, (mem_filter.mp hw).1, hl⟩

theorem handleDead_moves (hc : c.Cursors) (hreg : n.registered c.link = true → n.pending c.link = false)
    (hpend : n.registered c.link = false → c.unsent = []) :
    Moves me k n (n.stock c) (n.handleDead p me now c) (n.handleDead p me now c).backlog := by
  obtain ⟨hall, -⟩ := afterDeath_sublist n.outq hc
  rw [handleDead_eq]
  cases h : n.registered c.link with
  | true =>
    rw [hreg h, stock_registered h]
    simp only [Bool.false_eq_true, if_false, if_true]
    split
    · exact .placed (lane_sublist hall) (.inr (.inl rfl)) fun l h => h
    · exact .placed (nil_sublist _) (.inr (.inl rfl)) fun l h => h
  | false =>
    have hleft : lane k (n.conn.elim [] Conn.unsent ++ (n.outq.afterDeath c).all) <+ lane k n.backlog := by
      rw [hpend h] at hall
      exact lane_sublist (hall.append_left _)
    rw [stock_pending h]
    split
    · exact .placed hleft (.inl rfl) fun l => erasePending_pending
    · exact .placed hleft (.inl rfl) fun l h => h

/-- The functions are called with a connection of the node, of which the pending ones have nothing to send. -/
structure InHand (n : Node) (c : Conn) : Prop where
  cursors : c.Cursors
  registered : n.registered c.link = true → n.pending c.link = false
  pending : n.registered c.link = false → c.out = none
  live : c.st ≠ .backoff

theorem unsent_none (h : c.out = none) : c.unsent = [] := by
  unfold Conn.unsent
  rw [h]
  split
  · rfl
  · rfl

theorem InHand.dead_moves (h : InHand n c) :
    Moves me k n (n.stock c) (n.handleDead p me now c) (n.handleDead p me now c).backlog :=
  handleDead_moves h.cursors h.registered fun hreg => unsent_none (h.pending hreg)

theorem flushed_moves (p : Pair) (me : Side) (k : UInt8) (script : List SendResult) (h : InHand n c)
    (hconfirmed : n.registered c.link = false → c.confirmed = false) : let r := flush (p.id me) script n.outq c
    Moves me k n (n.stock c) (n.flushed c.link r) ((n.flushed c.link r).stock r.conn) ∧
    InHand (n.flushed c.link r) r.conn := by
  obtain ⟨hspec, hquiet⟩ := flush_spec (p.id me) script n.outq h.cursors
  generalize flush (p.id me) script n.outq c = r at *
  obtain ⟨hlink, hst, -, -⟩ := hspec.wrote.same
  have hreg : (n.flushed c.link r).registered r.conn.link = n.registered c.link := by
    rw [hlink]
    rfl
  have hstock : r.begun ++ (n.flushed c.link r).stock r.conn = n.stock c := by
    cases hr : n.registered c.link with
    | true =>
      rw [stock_registered hr, stock_registered (hreg.trans hr)]
      exact hspec.taken
    | false =>
      obtain ⟨hbegun, hqueue, -⟩ := hquiet (hconfirmed hr)
      rw [stock_pending hr, stock_pending (hreg.trans hr), hbegun]
      change n.conn.elim [] Conn.unsent ++ r.outq.all = _
      rw [hqueue]
      rfl
  refine ⟨⟨fun l => ?_, ⟨r.begun, rfl, ?_⟩, fun l => ?_, .inl rfl, fun l h => h, Nat.le_refl _, rfl, rfl,
    rfl, rfl, rfl, rfl⟩, ⟨hspec.cursors, fun hr => ?_, fun hr => ?_, hst ▸ h.live⟩⟩
  · by_cases hl : l = c.link
    · subst hl
      refine ⟨r.begun, flushed_put, ?_⟩
      rw [hstock]
    · refine ⟨[], ?_, ?_⟩
      · rw [append_nil]
        exact update_of_ne hl ..
      · rw [← hstock]
        exact lane_sublist (sublist_append_right ..)
  · rw [hstock]
  · by_cases hl : l = c.link
    · subst hl
      rw [flushed_wrote]
      exact prefix_append ..
    · change _ <+: update n.wrote c.link _ l
      rw [update_of_ne hl]
  · rw [hlink]
    exact h.registered (hreg ▸ hr)
  · have hr : n.registered c.link = false := hreg ▸ hr
    rw [(hquiet (hconfirmed hr)).2.2]
    exact h.pending hr

theorem pump_moves (h : InHand n c) (hconfirmed : n.registered c.link = false → c.confirmed = false) :
    Moves me k n (n.stock c) (n.pump p me now script c) (n.pump p me now script c).backlog := by
  obtain ⟨hmoves, hhand⟩ := flushed_moves p me k script h hconfirmed
  unfold Node.pump
  dsimp only at hmoves hhand ⊢
  split
  · exact hmoves.trans hhand.dead_moves
  · exact hmoves.trans (store_moves hhand.live)

theorem confirmConn_moves (h : InHand n c) (hreg : n.registered c.link = true) :
    Moves me k n (n.stock c) (n.confirmConn p me now script c) (n.confirmConn p me now script c).backlog := by
  unfold Node.confirmConn
  split
  · exact store_moves h.live
  · have hopen : (if c.st = .connecting then .open_ else c.st) ≠ St.backoff := by
      split
      · exact St.noConfusion
      · exact h.live
    apply pump_moves (c := { c with
      confirmed := true, confirmedNs := now, settleArmed := false, settleEpoch := c.settleEpoch + 1,
        openMarked := true
      st := if c.st = .connecting then .open_ else c.st })
    · exact ⟨⟨h.cursors.hello, h.cursors.hint, h.cursors.out⟩, h.registered, h.pending, hopen⟩
    · intro hr
      rw [show n.registered c.link = false from hr] at hreg
      cases hreg

theorem Moves.of_eq (h : Moves me k n b n' b') (hb : b = b'') : Moves me k n b'' n' b' := by
  subst hb
  exact h

theorem settle_moves (h : InHand n c) (hreg : n.registered c.link = true) :
    Moves me k n (n.stock c) (n.settle p me now script c) (n.settle p me now script c).backlog := by
  unfold Node.settle
  split
  · exact store_moves h.live
  · split
    · exact confirmConn_moves h hreg
    · split
      · unfold Node.backoffUnconfirmed
        have hall := salvage_all n.outq c h.cursors.out_none
        rw [stock_registered hreg, ← hall]
        exact .placed (.refl _) (.inr (.inl rfl)) fun l h => h
      · split
        · exact store_moves h.live
        · exact confirmConn_moves h hreg

theorem confirmOrSettle_moves (h : InHand n c) (hreg : n.registered c.link = true) :
    Moves me k n (n.stock c) (n.confirmOrSettle p me now script c) (n.confirmOrSettle p me now script c).backlog := by
  unfold Node.confirmOrSettle
  split
  · exact confirmConn_moves h hreg
  · split
    · exact confirmConn_moves h hreg
    · have htimer : ∀ timers, Moves me k n (n.stock c) { n with settleTimers := timers }
          (Node.stock { n with settleTimers := timers }
          { c with settleArmed := true, settleEpoch := c.settleEpoch + 1 }) :=
        fun timers => .placed (.refl _) (.inl rfl) fun l h => h
      have hhand : ∀ timers, InHand { n with settleTimers := timers }
          { c with settleArmed := true, settleEpoch := c.settleEpoch + 1 } := fun timers =>
        ⟨⟨h.cursors.hello, h.cursors.hint, h.cursors.out⟩, h.registered, h.pending, h.live⟩
      dsimp only
      split
      · apply (htimer _).trans
        apply settle_moves
        · exact hhand _
        · exact hreg
      · apply (htimer _).trans
        apply store_moves
        exact h.live

theorem queueDialHint_moves (p : Pair) (me : Side) (script : List SendResult) (hk : k ≠ FrameKind.dialHint)
    (h : InHand n c) (hreg : n.registered c.link = false)
    (hconfirmed : c.confirmed = false) (flags : UInt8) :
    Moves me k n n.backlog (n.queueDialHint p me script c flags).1 (n.queueDialHint p me script c flags).1.backlog ∧
      InHand (n.queueDialHint p me script c flags).1 (n.queueDialHint p me script c flags).2.conn := by
  let n₁ : Node := { n with put := update n.put c.link (n.put c.link ++ [hintFrame p me flags]) }
  let c₁ : Conn := { c with hint := some (hintFrame p me flags), hintSent := 0, hintFlags := flags }
  have hhint : Moves me k n n.backlog n₁ n₁.backlog := by
    refine ⟨fun l => ?_, ⟨[], (append_nil _).symm, .refl _⟩, fun l => prefix_refl _, .inl rfl,
      fun l h => h, Nat.le_refl _, rfl, rfl, rfl, rfl, rfl, rfl⟩
    by_cases hl : l = c.link
    · subst hl
      refine ⟨[hintFrame p me flags], update_self .., ?_⟩
      have hkind : ¬ decide ((hintFrame p me flags).kind = k) = true := fun h => hk (of_decide_eq_true h).symm
      rw [lane, singleton_append, filter_cons, if_neg hkind]
      exact .refl _
    · exact ⟨[], (update_of_ne hl ..).trans (append_nil _).symm, .refl _⟩
  have hhand : InHand n₁ c₁ := ⟨⟨h.cursors.hello, Nat.zero_le _, h.cursors.out⟩, h.registered, h.pending, h.live⟩
  have hwritten := flushed_moves p me k script hhand fun _ => hconfirmed
  have heq : n.queueDialHint p me script c flags =
      (n₁.flushed c.link (flush (p.id me) script n.outq c₁), flush (p.id me) script n.outq c₁) := rfl
  rw [heq]
  have hlink : (flush (p.id me) script n.outq c₁).conn.link = c.link := queueDialHint_link p me _ _ h.cursors flags
  have hregs : (n₁.flushed c.link (flush (p.id me) script n.outq c₁)).registered
      (flush (p.id me) script n.outq c₁).conn.link = false := by
    rw [hlink]
    exact hreg
  refine ⟨hhint.trans ?_, hwritten.2⟩
  have hmoves := hwritten.1
  rw [stock_pending (show n₁.registered c₁.link = false from hreg), stock_pending hregs] at hmoves
  exact hmoves

theorem closeRejectedPending_moves (h : InHand n c) (hreg : n.registered c.link = false) (resident : LinkId) :
    Moves me k n n.backlog (n.closeRejectedPending p me now c resident)
    (n.closeRejectedPending p me now c resident).backlog := by
  unfold Node.closeRejectedPending
  split
  · exact .placed (.refl _) (.inl rfl) fun l => erasePending_pending
  · have hstore : Moves me k n (n.stock c) (n.store c) (n.store c).backlog := store_moves h.live
    rw [stock_pending hreg] at hstore
    exact hstore.trans (.placed (.refl _) (.inl rfl) fun l h => h)

theorem install_moves (h : InHand n c) (hpend : n.pending c.link = true) (hreg : n.registered c.link = false) :
    Moves me k n n.outq.all ((n.install c).confirmConn p me now script c)
      ((n.install c).confirmConn p me now script c).backlog := by
  have hin : (n.install c).registered c.link = true := registered_iff.mpr ⟨c, rfl, rfl, h.live⟩
  have hinstall : Moves me k n n.outq.all (n.install c) ((n.install c).stock c) := by
    rw [stock_registered hin, unsent_none (h.pending hreg)]
    refine .placed (.refl _) (.inr (.inr ⟨c.link, ?_, hpend⟩)) fun l => erasePending_pending
    exact if_neg h.live
  refine hinstall.trans (confirmConn_moves ⟨h.cursors, fun _ => ?_, fun hr => ?_, h.live⟩ hin)
  · refine pending_false_iff.mpr fun w hw => ?_
    exact of_decide_eq_true (mem_filter.mp hw).2
  · rw [hin] at hr
    cases hr

theorem elect_moves {accepted aged : Bool} (h : InHand n c) (hpend : n.pending c.link = true)
    (hreg : n.registered c.link = false) (hlive : ∀ e, n.conn = some e → e.st ≠ .backoff ∧ e.Cursors) :
    Moves me k n n.backlog (n.elect p me now script c accepted aged).1
    (n.elect p me now script c accepted aged).1.backlog := by
  unfold Node.elect
  cases he : n.conn with
  | none =>
    have hb : n.outq.all = n.backlog := by
      unfold Node.backlog
      rw [he]
      rfl
    exact (install_moves h hpend hreg).of_eq hb
  | some e =>
    dsimp only
    split
    · exact closeRejectedPending_moves h hreg e.link
    · let n₁ := (n.salvageOut e).close { link := e.link, kept := some c.link, aged }
      have hsalvage : Moves me k n n.backlog n₁ n₁.outq.all := by
        refine .placed ?_ (.inl rfl) fun l h => h
        change lane k (n.outq.salvage e).all <+ _
        rw [salvage_all n.outq e (hlive e he).2.out_none, Node.backlog, he]
        exact .refl _
      refine hsalvage.trans (install_moves ⟨h.cursors, h.registered, h.pending, h.live⟩ hpend hreg)

theorem dropHusk_moves (hhusk : ∀ e, n.conn = some e → e.st = .backoff → e.out = none) :
    Moves me k n n.backlog n.dropHusk n.dropHusk.backlog := by
  unfold Node.dropHusk
  split
  · next hany =>
    simp only [Option.any_eq_true, decide_eq_true_eq] at hany
    obtain ⟨e, he, hst⟩ := hany
    have hb : n.backlog = n.outq.all := by
      rw [Node.backlog, he, Option.elim_some, unsent_none (hhusk e he hst), nil_append]
    rw [hb]
    exact .placed (.refl _) (.inr (.inl rfl)) fun l h => h
  · exact .refl me k n _

theorem electInbound_moves {s₁ s₂ : List SendResult} (hk : k ≠ FrameKind.dialHint) (h : InHand n c)
    (hcap : c.hintCapable = true)
    (hpend : n.pending c.link = true) (hreg : n.registered c.link = false) (hconfirmed : c.confirmed = false)
    (hconn : ∀ e, n.conn = some e → e.Cursors) (hhusk : ∀ e, n.conn = some e → e.st = .backoff → e.out = none) :
    Moves me k n n.backlog (n.electInbound p me now s₁ s₂ c).1 (n.electInbound p me now s₁ s₂ c).1.backlog := by
  obtain ⟨hlive, hregs, hpends, -⟩ := dropHusk_spec n
  have hdrop : Moves me k n n.backlog n.dropHusk n.dropHusk.backlog := dropHusk_moves hhusk
  have hpend' : n.dropHusk.pending c.link = true := by
    rw [← hpend]
    change List.any n.dropHusk.pendingIn _ = List.any n.pendingIn _
    rw [hpends]
  have hhand : InHand n.dropHusk c := by
    refine ⟨h.cursors, fun hr => ?_, fun _ => h.pending hreg, h.live⟩
    rw [hregs, hreg] at hr
    cases hr
  have hconn' : ∀ e, n.dropHusk.conn = some e → e.st ≠ .backoff ∧ e.Cursors := by
    intro e he
    refine ⟨hlive e he, hconn e ?_⟩
    unfold Node.dropHusk at he
    split at he
    · cases he
    · exact he
  have hreg' : n.dropHusk.registered c.link = false := (hregs _).trans hreg
  obtain ⟨hhint, hafter⟩ := queueDialHint_moves p me s₁ hk hhand hreg' hconfirmed
    (n.answer p me now)
  have hlink := queueDialHint_link p me n.dropHusk s₁ h.cursors (n.answer p me now)
  have hreg'' : Node.registered (n.dropHusk.queueDialHint p me s₁ c (n.answer p me now)).1
      (n.dropHusk.queueDialHint p me s₁ c (n.answer p me now)).2.conn.link = false := by
    rw [hlink]
    exact hreg'
  rw [electInbound_eq hcap]
  dsimp only
  split
  · exact (hdrop.trans hhint).trans (hafter.dead_moves.of_eq (stock_pending hreg''))
  · refine (hdrop.trans hhint).trans (elect_moves hafter ?_ hreg'' hconn')
    rw [hlink]
    exact hpend'

theorem registerIdentified_moves {admitted : Bool} {s₁ s₂ : List SendResult} {ver : UInt16}
    (hk : k ≠ FrameKind.dialHint)
    (h : InHand n c) (hcap : Conn.hintCapable { c with identified := true, peerHelloVersion := ver } = true)
    (hconfirmed : n.registered c.link = false → c.confirmed = false)
    (hplace : if c.initiatedBySelf then n.registered c.link = true else n.registered c.link = false ∧
    n.pending c.link = true)
    (hconn : ∀ e, n.conn = some e → e.Cursors) (hhusk : ∀ e, n.conn = some e → e.st = .backoff → e.out = none) :
    Moves me k n (n.stock c) (n.registerIdentified p me now admitted s₁ s₂ c ver).1
      (n.registerIdentified p me now admitted s₁ s₂ c ver).1.backlog := by
  unfold Node.registerIdentified
  split
  · exact h.dead_moves
  · dsimp only
    split
    · next hself =>
      rw [if_pos hself] at hplace
      apply confirmOrSettle_moves (c := { c with identified := true, peerHelloVersion := ver })
      · exact ⟨⟨h.cursors.hello, h.cursors.hint, h.cursors.out⟩, h.registered, h.pending, h.live⟩
      · exact hplace
    · next hself =>
      rw [if_neg hself] at hplace
      rw [stock_pending hplace.1]
      apply electInbound_moves
      · exact hk
      · exact ⟨⟨h.cursors.hello, h.cursors.hint, h.cursors.out⟩, h.registered, h.pending, h.live⟩
      · exact hcap
      · exact hplace.2
      · exact hplace.1
      · exact hconfirmed hplace.1
      · exact hconn
      · exact hhusk

end

end Quark.Tcp
