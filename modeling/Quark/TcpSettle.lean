import Quark.TcpLinks

/-! The functions that decide over connections keep the invariant: confirming, settling a dial, the election
at a hello, and what the loop of a read does. -/
namespace Quark.Tcp

open Function List Option Bytes Reassembly
open Net (MessageFrame FrameStream encodeFrame takeFrame framer)
open Swim (NodeId)
open scoped List

section

variable {p : Pair} {me : Side} {far n n' : Node} {c c' : Conn} {l : LinkId} {out : LinkId → Prop} {now : Nat}
  {script : List SendResult}

theorem Open.touched {st : St} {confirmedNs : Nat} {openMarked settleArmed appDataReceived : Bool}
    {helloIn : List UInt8} {input : FrameStream} {settleEpoch : UInt32} (h : Open p me n c) :
    Open p me n { c with st, confirmedNs, openMarked, settleArmed, appDataReceived, helloIn, input, settleEpoch } :=
  ⟨⟨h.stream, ⟨h.cursors.hello, h.cursors.hint, h.cursors.out⟩, h.out, h.known⟩, h.identified, h.role,
    h.inbound, h.noHint, h.silent, h.isSealed, h.hinted, h.heard, h.capable⟩

theorem Open.greeted {ver : UInt16} (h : Open p me n c) (hver : 2 ≤ ver) :
    Open p me n { c with peerHelloRead := true, peerHelloVersion := ver } :=
  ⟨⟨h.stream, ⟨h.cursors.hello, h.cursors.hint, h.cursors.out⟩, h.out, h.known⟩, h.identified, h.role,
    fun ht => ⟨(h.inbound ht).1, rfl, (h.inbound ht).2.2⟩, h.noHint, h.silent, h.isSealed, h.hinted, h.heard,
    fun _ => by simp [Conn.hintCapable, helloVersion, hver]⟩

theorem Reads.touched {st : St} {confirmedNs : Nat} {confirmed openMarked settleArmed : Bool} {settleEpoch : UInt32}
    (h : Reads p me far n c) :
    Reads p me far n { c with st, confirmedNs, confirmed, openMarked, settleArmed, settleEpoch } :=
  ⟨h.read, h.cap, h.hello, h.frames⟩

theorem confirmConn_inv (hn : Holds p me far (· = c.link) n) (hreg : n.registered c.link = true)
    (hlive : c.st ≠ .backoff)
    (hopen : Open p me n c) (hreads : Reads p me far n c) (hsealed : c.link.dialer = me → n.Sealed c.link) :
    Inv p me far (n.confirmConn p me now script c) := by
  unfold Node.confirmConn
  split
  · next hc =>
    refine Held.store (.conn hreg hlive hopen hreads fun _ hun => ?_) hn
    rw [hc] at hun
    cases hun
  · apply pump_inv
    · exact hn
    refine .conn hreg ?_ ?_ hreads.touched ?_
    · dsimp only
      split
      · exact St.noConfusion
      · exact hlive
    · exact ⟨⟨hopen.stream, ⟨hopen.cursors.hello, hopen.cursors.hint, hopen.cursors.out⟩,
        fun f hf => ⟨(hopen.out f hf).1, rfl⟩,
          hopen.known⟩, hopen.identified, hopen.role, fun ht => ⟨rfl, (hopen.inbound ht).2⟩, hopen.noHint,
        fun _ hun => (by cases hun), fun hm _ => hsealed hm, hopen.hinted, hopen.heard, hopen.capable⟩
    · intro _ hun
      cases hun

theorem Holds.close (h : Holds p me far out n) (cl : Closing) : Holds p me far out (n.close cl) :=
  h.transfer rfl rfl (fun _ _ => .placed) (fun _ _ _ => id) (fun l _ => (h.links l).agrees .placed)
    (fun l _ => h.took l) h.queue h.lanes
    (Nat.le_refl _)

theorem Holds.salvageOut (h : Holds p me far out n) (hw : Writes p me n c) : Holds p me far out (n.salvageOut c) := by
  refine h.outq (fun f hf => ?_) fun f hf => h.lanes f (salvage_data n.outq c ▸ hf)
  rw [salvage_all _ _ hw.cursors.out_none, mem_append] at hf
  exact hf.elim (fun hu => (hw.out f (mem_unsent hu)).1) (h.queue f)

theorem settle_inv (hn : Holds p me far (· = c.link) n) (hreg : n.registered c.link = true) (hlive : c.st ≠ .backoff)
    (hopen : Open p me n c) (hreads : Reads p me far n c) : Inv p me far (n.settle p me now script c) := by
  have hput : Due n c → Inv p me far (n.store c) := fun hdue =>
    Held.store (.conn hreg hlive hopen hreads hdue) hn
  unfold Node.settle
  split
  · next hidle =>
    refine hput fun hr hun _ => ?_
    simp only [Bool.or_eq_true, Bool.not_eq_true', decide_eq_true_eq, hr, hun, Bool.false_eq_true, or_false,
      hlive] at hidle
    have htheirs : c.link.dialer ≠ me := fun hm => by
      rw [hopen.role.mpr hm] at hidle
      simp at hidle
    rw [(hopen.inbound htheirs).1] at hun
    cases hun
  · next hidle =>
    simp only [Bool.or_eq_true, Bool.not_eq_true', not_or, Bool.not_eq_false] at hidle
    have hreceived : c.hintReceived = true := hidle.1.2
    have hconfirm : confirms c.hintFlags = true → Inv p me far (n.confirmConn p me now script c) := fun hf => by
      obtain ⟨f, hf', hkind, hpayload⟩ := hopen.hinted (hopen.role.mp hidle.1.1.1) hreceived
      exact confirmConn_inv hn hreg hlive hopen hreads fun _ => .inl ⟨f, hf', hkind, c.hintFlags, hpayload, hf⟩
    unfold confirms at hconfirm
    split
    · next haccepted => exact hconfirm (by rw [haccepted]; rfl)
    · split
      · unfold Node.backoffUnconfirmed
        refine Holds.scheduleReconnect (l := c.link) ((hn.salvageOut hopen.toWrites).close _)
          (hn.of_registered hreg) ?_ ?_ now
        · exact hopen.role.mp
        · exact hreads.cap
      · split
        · next hno hestablished houtbound =>
          refine hput fun _ _ hf => ?_
          unfold confirms at hf
          rw [houtbound, Bool.eq_false_iff.mpr hno] at hf
          simp at hf
        · next hno hestablished houtbound =>
          exact hconfirm (by rw [Bool.eq_false_iff.mpr hestablished, Bool.eq_false_iff.mpr houtbound]; simp)

theorem confirmOrSettle_inv (hn : Holds p me far (· = c.link) n) (hreg : n.registered c.link = true)
    (hlive : c.st ≠ .backoff) (hopen : Open p me n c) (hreads : Reads p me far n c) (hcap : c.hintCapable = true) :
    Inv p me far (n.confirmOrSettle p me now script c) := by
  unfold Node.confirmOrSettle
  split
  · next hrole =>
    refine confirmConn_inv hn hreg hlive hopen hreads fun hm => ?_
    rw [hopen.role.mpr hm] at hrole
    cases hrole
  · split
    · next hlegacy =>
      rw [hcap, decide_eq_false (Nat.ne_of_gt (p.settles me))] at hlegacy
      cases hlegacy
    · have htimer : ∀ due, Holds p me far (· = c.link) { n with settleTimers := n.settleTimers ++ [due] } := fun _ =>
        hn.transfer rfl rfl (fun _ _ => .placed) (fun _ _ _ => id) (fun l _ => (hn.links l).agrees .placed)
          (fun l _ => hn.took l) hn.queue hn.lanes (Nat.le_refl _)
      dsimp only
      split
      · exact settle_inv (htimer _) hreg hlive (hopen.touched.agrees .placed) (hreads.touched.agrees .placed)
      · next hnone =>
        refine Held.store (.conn hreg hlive (hopen.touched.agrees .placed) (hreads.touched.agrees .placed)
          fun hr => ?_) (htimer _)
        exact absurd hr hnone

/-- An accepted connection whose hello has been read, before the election. -/
structure Greeted (p : Pair) (me : Side) (far n : Node) (c : Conn) : Prop extends Writes p me n c where
  theirs : c.link.dialer ≠ me
  accepted : c.initiatedBySelf = false
  unconfirmed : c.confirmed = false
  isOpen : c.st = .open_
  identified : c.identified = true
  hello : c.peerHelloRead = true
  capable : c.hintCapable = true
  reads : Reads p me far n c
  registered : n.registered c.link = false

theorem Greeted.role (h : Greeted p me far n c) (hself : c.initiatedBySelf = true) : c.link.dialer = me := by
  rw [h.accepted] at hself
  cases hself

theorem Greeted.out_none (h : Greeted p me far n c) : c.out = none := by
  by_contra hne
  obtain ⟨f, hf⟩ := ne_none_iff_exists'.mp hne
  have hun := h.unconfirmed
  rw [(h.out f hf).2] at hun
  cases hun

theorem hintFrame_fits (p : Pair) (me x : Side) (flags : UInt8) : Fits (frameCap p x) (hintFrame p me flags) := by
  have hlen : (Net.encodeFrameBody (hintFrame p me flags)).length = 79 := Net.encodeFrameBody_length _
  unfold Fits
  rw [hlen]
  exact ⟨by decide, fun _ => by decide⟩

theorem queueDialHint_link (p : Pair) (me : Side) (n : Node) (script : List SendResult) (hc : c.Cursors)
    (flags : UInt8) : (n.queueDialHint p me script c flags).2.conn.link = c.link := by
  have hcursors : Conn.Cursors { c with hint := some (hintFrame p me flags), hintSent := 0, hintFlags := flags } :=
    ⟨hc.hello, Nat.zero_le _, hc.out⟩
  exact (flush_spec (p.id me) script n.outq hcursors).1.wrote.same.1

theorem queueDialHint_spec (script : List SendResult) (hn : Holds p me far (· = c.link) n) (hc : Greeted p me far n c)
    (hput : n.put c.link = [])
    (hhint : c.hint = none) (flags : UInt8) :
    Holds p me far (· = c.link) (n.queueDialHint p me script c flags).1 ∧
      Greeted p me far (n.queueDialHint p me script c flags).1 (n.queueDialHint p me script c flags).2.conn ∧
      (n.queueDialHint p me script c flags).2.conn.link = c.link ∧
      (n.queueDialHint p me script c flags).2.conn.hint = some (hintFrame p me flags) ∧
      (n.queueDialHint p me script c flags).1.put c.link = [hintFrame p me flags] := by
  let n₁ : Node := { n with put := update n.put c.link (n.put c.link ++ [hintFrame p me flags]) }
  let c₁ : Conn := { c with hint := some (hintFrame p me flags), hintSent := 0, hintFlags := flags }
  have hput₁ : n₁.put c.link = [hintFrame p me flags] := by
    change update n.put c.link _ c.link = _
    rw [update_self, hput]
    rfl
  have hw₁ : Writes p me n₁ c₁ := by
    refine ⟨?_, ⟨hc.cursors.hello, Nat.zero_le _, hc.cursors.out⟩, fun f hf => ?_, hc.known⟩
    · have hstream := hc.stream
      have htorn : c.torn = [] := if_pos (hc.cursors.out_none hc.out_none)
      rw [hput, Conn.owing, Conn.hintBytes, hhint, htorn] at hstream
      change n.wrote c.link ++ ((buildHello (p.id me)).drop c.helloSent ++
        ((encodeFrame (hintFrame p me flags)).drop 0 ++ c.torn)) =
        buildHello (p.id me) ++ (n₁.put c.link).flatMap encodeFrame
      simp only [flatMap_nil, append_nil, elim_none, drop_nil] at hstream
      rw [htorn, hput₁, flatMap_singleton, drop_zero, append_nil, ← append_assoc, hstream]
    · rw [show c₁.out = c.out from rfl, hc.out_none] at hf
      cases hf
  have hwent : Went p me n₁ c₁ (flush (p.id me) script n.outq c₁) := went_flush hw₁ script
  obtain ⟨hbegun, hqueue, hsame⟩ := hwent.quiet hc.unconfirmed
  have hafter := hwent.writes hw₁ hn.queue
  obtain ⟨_, _, _, _, _, _, hconn⟩ := hwent.flushes.wrote
  have hput₂ : (n₁.flushed c.link (flush (p.id me) script n.outq c₁)).put c.link = [hintFrame p me flags] := by
    rw [flushed_put, hbegun, hput₁]
    rfl
  have heq : n.queueDialHint p me script c flags =
      (n₁.flushed c.link (flush (p.id me) script n.outq c₁), flush (p.id me) script n.outq c₁) := rfl
  rw [heq]
  refine ⟨?_, ?_, by rw [hconn], by rw [hconn], hput₂⟩
  · refine hn.transfer rfl rfl (fun k hk => ?_) (fun _ _ _ => id) (fun k hk => ?_)
      (fun k _ => hn.took k) ?_ ?_ (Nat.le_refl _)
    · have hagree : Agrees me n n₁ k := ⟨rfl, update_of_ne hk .., rfl, rfl, id, id⟩
      exact hagree.trans (flushed_agrees hk)
    · subst hk
      have hstream := hafter.stream
      rw [hconn] at hstream
      refine ⟨⟨_, hstream⟩, fun hmine => absurd hmine hc.theirs, fun _ => .inr ⟨flags, [], hput₂, ?_, ?_⟩,
        fun hfresh => absurd hfresh hc.known⟩
      · intro f hf
        cases hf
      · intro hne
        exact absurd rfl hne
    · intro f hf
      exact hn.queue f (hqueue ▸ hf)
    · intro f hf
      exact hn.lanes f (hqueue ▸ hf)
  · rw [hconn] at hafter ⊢
    exact ⟨hafter, hc.theirs, hc.accepted, hc.unconfirmed, hc.isOpen, hc.identified, hc.hello, hc.capable,
      ⟨hc.reads.read, hc.reads.cap, hc.reads.hello, hc.reads.frames⟩, hc.registered⟩

theorem confirms_hint {e : Conn} (hlive : e.st ≠ .backoff) (o : Options) (want : Bool) :
    let flags := e.dialHintFlags o now
    let accepted := (!e.initiatedBySelf || has flags kHintEstablishedAged) ||
      (!has flags kHintHasEstablished && !want)
    confirms (flags ||| if accepted then kHintAccepted else 0) = accepted := by
  unfold Conn.dialHintFlags
  rw [if_neg hlive]
  generalize e.confirmed = confirmed
  generalize e.initiatedBySelf = initiated
  generalize e.dataBearing = bearing
  generalize e.confirmedAged o now = aged
  revert confirmed initiated bearing aged want
  decide

theorem install_inv {flags : UInt8} (hn : Holds p me far (· = c.link) n) (hc : Greeted p me far n c)
    (hhint : c.hint = some (hintFrame p me flags)) (hput : n.put c.link = [hintFrame p me flags])
    (hconfirms : confirms flags = true) : Inv p me far ((n.install c).confirmConn p me now script c) := by
  have hlive : c.st ≠ .backoff := by
    rw [hc.isOpen]
    exact St.noConfusion
  have hinstalled : Holds p me far (· = c.link) (n.install c) := by
    refine ⟨fun l => (hn.links l).agrees .placed, hn.took, hn.queue, hn.lanes,
      fun e he _ hne => ?_, fun e he hst => ?_,
      fun w hw hne => ?_, hn.nodup.sublist (filter_sublist.map _), fun e he _ w hw => ?_⟩
    · cases he
      exact absurd rfl hne
    · cases he
      exact absurd hst hlive
    · obtain ⟨hwait, hreads⟩ := hn.pending w (mem_filter.mp hw).1 hne
      exact ⟨hwait.agrees .placed id, hreads.agrees .placed⟩
    · cases he
      exact of_decide_eq_true (mem_filter.mp hw).2
  unfold Node.confirmConn
  rw [if_neg (by rw [hc.unconfirmed]; exact Bool.noConfusion)]
  apply pump_inv
  · exact hinstalled
  refine .conn (registered_iff.mpr ⟨c, rfl, rfl, hlive⟩) ?_ ?_ (hc.reads.touched.agrees .placed) ?_
  · dsimp only
    rw [hc.isOpen]
    exact St.noConfusion
  · refine ⟨⟨hc.stream, ⟨hc.cursors.hello, hc.cursors.hint, hc.cursors.out⟩,
      fun f hf => ⟨(hc.out f hf).1, rfl⟩, hc.known⟩,
      hc.identified, ?_, fun _ => ⟨rfl, hc.hello, flags, [], hput, hconfirms, hhint⟩, fun hm => absurd hm hc.theirs,
      fun _ hun => (by cases hun), fun hm => absurd hm hc.theirs, fun hm => absurd hm hc.theirs, fun hm =>
        absurd hm hc.theirs, fun _ => hc.capable⟩
    rw [hc.accepted]
    exact ⟨fun h => (by cases h), fun hm => absurd hm hc.theirs⟩
  · intro _ hun
    cases hun

theorem closeRejectedPending_inv {flags : UInt8} (hn : Holds p me far (· = c.link) n) (hc : Greeted p me far n c)
    (hhint : c.hint = some (hintFrame p me flags)) (hput : n.put c.link = [hintFrame p me flags])
    (hconfirms : confirms flags = false) (hpend : n.pending c.link = true) (resident : LinkId) :
    Inv p me far (n.closeRejectedPending p me now c resident) := by
  unfold Node.closeRejectedPending
  split
  · exact (hn.erasePending hc.registered).close _
  · let n₁ : Node := { n with
      discardTimers := n.discardTimers ++ [(c.link, now + (p.options me).dialSettleTimeoutNs)] }
    have hagree : ∀ l, Agrees me n n₁ l := fun l =>
      .placed
    have hholds : Holds p me far (· = c.link) n₁ :=
      hn.transfer rfl rfl (fun l _ => hagree l)
        (fun w _ _ h => by
          rw [map_append]
          exact mem_append_left _ h)
        (fun l _ => (hn.links l).agrees (hagree l)) (fun l _ => hn.took l) hn.queue
        hn.lanes (Nat.le_refl _)
    have hstore : n₁.store c =
        { n.store c with discardTimers := n.discardTimers ++
        [(c.link, now + (p.options me).dialSettleTimeoutNs)] } := by
      unfold Node.store
      rw [show n₁.registered c.link = n.registered c.link from rfl, hc.registered]
      rfl
    rw [← hstore]
    refine Held.store (.pending hc.registered hpend ⟨hc.toWrites.agrees (hagree _), hc.theirs,
      hc.accepted, hc.unconfirmed, hc.isOpen, fun hi => ?_, fun _ => ⟨hc.hello, ?_, flags, hput, hconfirms, hhint⟩⟩
      (hc.reads.agrees (hagree _))) hholds
    · rw [hc.identified] at hi
      cases hi
    · change c.link ∈ List.map Prod.fst (n.discardTimers ++ [_])
      rw [map_append]
      exact mem_append_right _ (.head _)

theorem Greeted.agrees (h : Greeted p me far n c) (ha : Agrees me n n' c.link)
    (hreg : n'.registered c.link = n.registered c.link) : Greeted p me far n' c :=
  ⟨h.toWrites.agrees ha, h.theirs, h.accepted, h.unconfirmed, h.isOpen, h.identified, h.hello, h.capable,
    h.reads.agrees ha, hreg.trans h.registered⟩

theorem elect_inv {flags : UInt8} {accepted aged : Bool} (hn : Holds p me far (· = c.link) n)
    (hc : Greeted p me far n c)
    (hhint : c.hint = some (hintFrame p me flags)) (hput : n.put c.link = [hintFrame p me flags])
    (hpend : n.pending c.link = true) (hlive : ∀ e, n.conn = some e → e.st ≠ .backoff)
    (hflags : confirms flags = (n.conn.isNone || accepted)) : Inv p me far
    (n.elect p me now script c accepted aged).1 := by
  unfold Node.elect
  cases he : n.conn with
  | none =>
    rw [he] at hflags
    exact install_inv hn hc hhint hput hflags
  | some e =>
    rw [he] at hflags
    dsimp only
    split
    · next hrejected => exact closeRejectedPending_inv hn hc hhint hput (by simpa [hflags] using hrejected) hpend _
    · next haccepted =>
      have hother := ne_of_registered hc.registered he (hlive e he)
      have hopen := (hn.conn e he (hlive e he) hother).1
      refine install_inv ((hn.salvageOut hopen.toWrites).close _) (hc.agrees .placed rfl) hhint hput ?_
      simpa [hflags] using haccepted

theorem dropHusk_spec (n : Node) : (∀ e, n.dropHusk.conn = some e → e.st ≠ .backoff) ∧
    (∀ l, n.dropHusk.registered l = n.registered l) ∧ n.dropHusk.pendingIn = n.pendingIn ∧
    ∀ me l, Agrees me n n.dropHusk l := by
  unfold Node.dropHusk
  cases hconn : n.conn with
  | none =>
    refine ⟨fun e he => ?_, fun l => rfl, rfl, fun me l => .refl me n l⟩
    have he : n.conn = some e := he
    rw [hconn] at he
    cases he
  | some e =>
    by_cases hst : e.st = .backoff
    · rw [if_pos (by simpa using hst)]
      refine ⟨fun e he => (by cases he), fun l => ?_, rfl, fun me l => .placed⟩
      unfold Node.registered
      rw [hconn]
      simp [hst]
    · rw [if_neg (by simpa using hst)]
      refine ⟨fun e' he' => ?_, fun l => rfl, rfl, fun me l => .refl me n l⟩
      rw [hconn] at he'
      cases he'
      exact hst

theorem Holds.dropHusk (h : Holds p me far out n) : Holds p me far out n.dropHusk := by
  unfold Node.dropHusk
  split
  · refine ⟨fun l => (h.links l).agrees .placed, h.took, h.queue, h.lanes,
      fun e he => (by cases he), fun e he => (by cases he), fun w hw hn => ?_, h.nodup, fun e he => (by cases he)⟩
    obtain ⟨hwait, hreads⟩ := h.pending w hw hn
    exact ⟨hwait.agrees .placed id, hreads.agrees .placed⟩
  · exact h

theorem registerIdentified_dialed {admitted : Bool} {s₁ s₂ : List SendResult} {ver : UInt16}
    (hn : Holds p me far (· = c.link) n) (hreg : n.registered c.link = true) (hlive : c.st ≠ .backoff)
    (hopen : Open p me n c) (hreads : Reads p me far n c) (hrole : c.initiatedBySelf = true)
    (hread : c.peerHelloRead = true) (hver : c.peerHelloVersion = ver) :
    Inv p me far (n.registerIdentified p me now admitted s₁ s₂ c ver).1 := by
  have hsame : ({ c with identified := true, peerHelloVersion := ver } : Conn) = c := by
    have hidentified := hopen.identified
    cases c
    dsimp only at hidentified hver ⊢
    rw [hidentified, hver]
  unfold Node.registerIdentified
  split
  · next hinbound =>
    rw [hrole] at hinbound
    cases hinbound
  · dsimp only
    rw [if_pos hrole, hsame]
    exact confirmOrSettle_inv hn hreg hlive hopen hreads (hopen.capable hread)

def Node.rivalFlags (p : Pair) (me : Side) (now : Nat) (n : Node) : UInt8 :=
  n.dropHusk.conn.elim 0 (Conn.dialHintFlags (p.options me) now)

def Node.accepts (p : Pair) (me : Side) (now : Nat) (n : Node) : Bool :=
  let flags := n.rivalFlags p me now
  n.dropHusk.conn.isNone ||
    (n.dropHusk.conn.isSome &&
      ((n.dropHusk.conn.any fun e => !e.initiatedBySelf) || has flags kHintEstablishedAged)) ||
    (!has flags kHintHasEstablished && !keepLocalDial (p.id me) (p.id me.far))

def Node.answer (p : Pair) (me : Side) (now : Nat) (n : Node) : UInt8 :=
  n.rivalFlags p me now ||| if n.accepts p me now then kHintAccepted else 0

theorem electInbound_eq {s₁ s₂ : List SendResult} (hcap : c.hintCapable = true) : n.electInbound p me now s₁ s₂ c =
    let q := n.dropHusk.queueDialHint p me s₁ c (n.answer p me now)
    if q.2.result = .dead then (q.1.handleDead p me now q.2.conn, false)
    else q.1.elect p me now s₂ q.2.conn (n.accepts p me now) (has (n.rivalFlags p me now) kHintEstablishedAged) := by
  unfold Node.electInbound
  dsimp only
  rw [if_pos hcap]
  rfl

theorem confirms_answer : confirms (n.answer p me now) = (n.dropHusk.conn.isNone || n.accepts p me now) := by
  have hlive := (dropHusk_spec n).1
  unfold Node.answer Node.accepts Node.rivalFlags
  cases hconn : n.dropHusk.conn with
  | none =>
    simp only [isNone_none, Bool.true_or, if_true, elim_none]
    decide
  | some e => exact confirms_hint (hlive e hconn) (p.options me) (keepLocalDial (p.id me) (p.id me.far))

theorem electInbound_inv {s₁ s₂ : List SendResult} (hn : Holds p me far (· = c.link) n) (hc : Greeted p me far n c)
    (hhint : c.hint = none) (hput : n.put c.link = []) (hpend : n.pending c.link = true) :
    Inv p me far (n.electInbound p me now s₁ s₂ c).1 := by
  obtain ⟨hlive, hregs, hpends, hagree⟩ := dropHusk_spec n
  obtain ⟨hholds, hgreeted, hlink, hhint', hput'⟩ := queueDialHint_spec s₁ hn.dropHusk
    (hc.agrees (hagree me _) (hregs _)) (((hagree me _).put).trans hput) hhint
    (n.answer p me now)
  rw [← hlink] at hholds hput'
  rw [electInbound_eq hc.capable]
  dsimp only
  split
  · exact handleDead_inv hholds hgreeted.toWrites hgreeted.role hgreeted.reads.cap now
  · refine elect_inv hholds hgreeted hhint' hput' ?_ hlive confirms_answer
    rw [hlink, ← hpend]
    change List.any n.dropHusk.pendingIn _ = List.any n.pendingIn _
    rw [hpends]

theorem registerIdentified_accepted {admitted : Bool} {s₁ s₂ : List SendResult} {ver : UInt16}
    (hn : Holds p me far (· = c.link) n)
    (hc : Greeted p me far n { c with identified := true, peerHelloVersion := ver })
    (hhint : c.hint = none) (hput : n.put c.link = []) (hpend : n.pending c.link = true) :
    Inv p me far (n.registerIdentified p me now admitted s₁ s₂ c ver).1 := by
  unfold Node.registerIdentified
  split
  · exact handleDead_inv hn ⟨hc.stream, ⟨hc.cursors.hello, hc.cursors.hint, hc.cursors.out⟩, hc.out, hc.known⟩ hc.role
      hc.reads.cap now
  · dsimp only
    rw [if_neg (by rw [show c.initiatedBySelf = false from hc.accepted]; exact Bool.noConfusion)]
    exact electInbound_inv hn hc hhint hput hpend

end

end Quark.Tcp
