import Quark.TcpStream

/-! What holds of a node between two events: of each connection it ever had, of the one in `conns_` and of those that
are pending; and how the functions of the transport keep it. -/
namespace Quark.Tcp

open Function List Bytes
open Net (MessageFrame FrameStream encodeFrame takeFrame framer)
open Swim (NodeId)
open scoped List

/-- The flags of a hint at which `settle` confirms the dial. -/
def confirms (flags : UInt8) : Bool :=
  has flags (kHintAccepted ||| kHintEstablishedAged) ||
    (!has flags (kHintHasEstablished ||| kHintEstablishedHasData) && !has flags kHintHasOutbound)

def Node.Fresh (me : Side) (n : Node) (l : LinkId) : Prop := if l.dialer = me then n.dials ≤ l.serial
    else l ∉ n.accepted

def frameCap (p : Pair) (x : Side) : UInt32 := (FrameStream.create (p.options x).maxFrameBody).maxBody

/-- A frame of the application, which the other node can take off the stream or refuse. -/
def App (p : Pair) (me : Side) (f : MessageFrame) : Prop := f.kind ≠ FrameKind.dialHint ∧ Fits (frameCap p me.far) f

def Node.Sealed (n : Node) (l : LinkId) : Prop :=
  (∃ f ∈ n.took l, f.kind = FrameKind.dialHint ∧ ∃ flags, f.payload = [flags] ∧ confirms flags = true) ∨
    l ∈ n.settleTimeouts

section

variable (p : Pair) (me : Side)

/-- What was ever put on a connection: on a dial frames only once it is confirmed, on an accepted connection the hint
first and more only if the hint lets the dialer confirm. -/
structure Links (n : Node) (l : LinkId) : Prop where
  wrote : n.wrote l <+: buildHello (p.id me) ++ (n.put l).flatMap encodeFrame
  mine : l.dialer = me → (∀ f ∈ n.put l, App p me f) ∧ (n.put l ≠ [] → n.Sealed l)
  theirs : l.dialer ≠ me → n.put l = [] ∨
    ∃ flags fs, n.put l = hintFrame p me flags :: fs ∧ (∀ f ∈ fs, App p me f) ∧ (fs ≠ [] → confirms flags = true)
  fresh : n.Fresh me l → n.put l = [] ∧ n.wrote l = [] ∧ n.took l = [] ∧ n.read l = 0

/-- The state of a reader is that of the bytes received. -/
structure Reads (far n : Node) (c : Conn) : Prop where
  read : n.read c.link ≤ (far.wrote c.link).length
  cap : c.input.maxBody = frameCap p me
  hello : c.peerHelloRead = false → c.helloIn = (far.wrote c.link).take (n.read c.link) ∧ n.read c.link < helloSize ∧
    n.took c.link = [] ∧ c.input.buf = []
  frames : c.peerHelloRead = true →
    (far.wrote c.link).take (n.read c.link) =
        buildHello (p.id me.far) ++ ((n.took c.link).flatMap encodeFrame ++ c.input.buf) ∧
      takeFrame c.input.maxBody c.input.buf = .wait

/-- What has been written and what is due make the frames that were begun. -/
structure Writes (n : Node) (c : Conn) : Prop where
  stream : n.wrote c.link ++ c.owing (p.id me) = buildHello (p.id me) ++ (n.put c.link).flatMap encodeFrame
  cursors : c.Cursors
  out : ∀ f, c.out = some f → App p me f ∧ c.confirmed = true
  known : ¬ n.Fresh me c.link

/-- The connection in `conns_`. -/
structure Open (n : Node) (c : Conn) : Prop extends Writes p me n c where
  identified : c.identified = true
  role : c.initiatedBySelf = true ↔ c.link.dialer = me
  inbound : c.link.dialer ≠ me → c.confirmed = true ∧ c.peerHelloRead = true ∧
    ∃ flags fs, n.put c.link = hintFrame p me flags :: fs ∧ confirms flags = true ∧
    c.hint = some (hintFrame p me flags)
  noHint : c.link.dialer = me → c.hint = none
  silent : c.link.dialer = me → c.confirmed = false → n.put c.link = []
  isSealed : c.link.dialer = me → c.confirmed = true → n.Sealed c.link
  hinted : c.link.dialer = me → c.hintReceived = true →
    ∃ f ∈ n.took c.link, f.kind = FrameKind.dialHint ∧ f.payload = [c.hintFlags]
  heard : c.link.dialer = me → ∀ f ∈ n.took c.link, f.kind = FrameKind.dialHint → c.hintReceived = true
  capable : c.peerHelloRead = true → c.hintCapable = true

/-- A pending connection: without a hint, or with one that turned the dialer away and a timer. -/
structure Waiting (n : Node) (c : Conn) : Prop extends Writes p me n c where
  theirs : c.link.dialer ≠ me
  accepted : c.initiatedBySelf = false
  unconfirmed : c.confirmed = false
  isOpen : c.st = .open_
  unread : c.identified = false → c.peerHelloRead = false ∧ c.hint = none ∧ n.put c.link = []
  rejected : c.identified = true → c.peerHelloRead = true ∧ c.link ∈ n.discardTimers.map Prod.fst ∧
    ∃ flags, n.put c.link = [hintFrame p me flags] ∧ confirms flags = false ∧ c.hint = some (hintFrame p me flags)

/-- A hint that lets the dial be confirmed is not forgotten. -/
def Due (n : Node) (c : Conn) : Prop :=
  c.hintReceived = true → c.confirmed = false → confirms c.hintFlags = true → 0 < n.posted

/-- A husk is ready to be dialled again. -/
structure Husk (c : Conn) : Prop where
  role : c.initiatedBySelf = true → c.link.dialer = me
  unconfirmed : c.confirmed = false
  helloSent : c.helloSent = 0
  helloIn : c.helloIn = []
  peerHelloRead : c.peerHelloRead = false
  out : c.out = none
  outSent : c.outSent = 0
  cap : c.input.maxBody = frameCap p me
  buf : c.input.buf = []
  hint : c.hint = none
  hintSent : c.hintSent = 0
  hintReceived : c.hintReceived = false

/-- The invariant of a node with the connections left out that are in the hands of a function. -/
structure Holds (far : Node) (out : LinkId → Prop) (n : Node) : Prop where
  links : ∀ l, Links p me n l
  took : ∀ l, n.took l <+: far.put l
  queue : ∀ f ∈ n.outq.all, App p me f
  lanes : ∀ f ∈ n.outq.data, f.kind ≠ Secure.FrameKind.control
  conn : ∀ c, n.conn = some c → c.st ≠ .backoff → ¬ out c.link → Open p me n c ∧ Reads p me far n c ∧ Due n c
  husk : ∀ c, n.conn = some c → c.st = .backoff → Husk p me c
  pending : ∀ c ∈ n.pendingIn, ¬ out c.link → Waiting p me n c ∧ Reads p me far n c
  nodup : (n.pendingIn.map Conn.link).Nodup
  apart : ∀ c, n.conn = some c → c.st ≠ .backoff → ∀ w ∈ n.pendingIn, w.link ≠ c.link

abbrev Inv (far n : Node) : Prop := Holds p me far (fun _ => False) n

/-- A connection in the hands of a function, as it stands in the node. -/
inductive Held (far n : Node) (c : Conn) : Prop
  | conn (hreg : n.registered c.link = true) (hlive : c.st ≠ .backoff) (hopen : Open p me n c)
      (hreads : Reads p me far n c) (hdue : Due n c) : Held far n c
  | pending (hreg : n.registered c.link = false) (hpend : n.pending c.link = true) (hwait : Waiting p me n c)
      (hreads : Reads p me far n c) : Held far n c

/-- What the connections on `l` see of the node is the same in both. -/
structure Agrees (n n' : Node) (l : LinkId) : Prop where
  wrote : n'.wrote l = n.wrote l
  put : n'.put l = n.put l
  read : n'.read l = n.read l
  took : n'.took l = n.took l
  known : n'.Fresh me l → n.Fresh me l
  timeouts : l ∈ n.settleTimeouts → l ∈ n'.settleTimeouts

end

section

variable {p : Pair} {me : Side} {far n n' : Node} {c c' : Conn} {l : LinkId} {out : LinkId → Prop}

theorem Agrees.refl (me : Side) (n : Node) (l : LinkId) : Agrees me n n l := ⟨rfl, rfl, rfl, rfl, id, id⟩

theorem Agrees.placed {conn : Option Conn} {pendingIn : List Conn} {outq : PeerQueue} {posted : Nat}
    {settleTimers : List (UInt32 × Nat)} {reconnectTimers : List Nat} {closings : List Closing}
    {discardTimers : List (LinkId × Nat)} {sent received : List MessageFrame} :
    Agrees me n { n with
      conn, pendingIn, outq, posted, settleTimers, reconnectTimers, discardTimers, closings, sent, received } l :=
  ⟨rfl, rfl, rfl, rfl, id, id⟩

theorem Agrees.trans {n'' : Node} (h : Agrees me n n' l) (h' : Agrees me n' n'' l) : Agrees me n n'' l :=
  ⟨h'.wrote.trans h.wrote, h'.put.trans h.put, h'.read.trans h.read, h'.took.trans h.took,
    fun hf => h.known (h'.known hf), fun ht => h'.timeouts (h.timeouts ht)⟩

theorem Node.Sealed.agrees (h : n.Sealed l) (ha : Agrees me n n' l) : n'.Sealed l := by
  obtain htook | htime := h
  · exact .inl (ha.took ▸ htook)
  · exact .inr (ha.timeouts htime)

theorem Links.agrees (h : Links p me n l) (ha : Agrees me n n' l) : Links p me n' l := by
  refine ⟨?_, fun hmine => ?_, fun htheirs => ?_, fun hfresh => ?_⟩
  · rw [ha.wrote, ha.put]
    exact h.wrote
  · rw [ha.put]
    exact ⟨(h.mine hmine).1, fun hne => ((h.mine hmine).2 hne).agrees ha⟩
  · rw [ha.put]
    exact h.theirs htheirs
  · rw [ha.put, ha.wrote, ha.took, ha.read]
    exact h.fresh (ha.known hfresh)

theorem Reads.agrees (h : Reads p me far n c) (ha : Agrees me n n' c.link) : Reads p me far n' c := by
  refine ⟨?_, h.cap, fun hr => ?_, fun hr => ?_⟩
  · rw [ha.read]
    exact h.read
  · rw [ha.read, ha.took]
    exact h.hello hr
  · rw [ha.read, ha.took]
    exact h.frames hr

theorem Writes.agrees (h : Writes p me n c) (ha : Agrees me n n' c.link) : Writes p me n' c := by
  refine ⟨?_, h.cursors, h.out, fun hf => h.known (ha.known hf)⟩
  rw [ha.wrote, ha.put]
  exact h.stream

theorem Open.agrees (h : Open p me n c) (ha : Agrees me n n' c.link) : Open p me n' c := by
  refine ⟨h.toWrites.agrees ha, h.identified, h.role, ?_, h.noHint, ?_,
    fun hm hc => (h.isSealed hm hc).agrees ha, ?_, ?_, h.capable⟩
  · rw [ha.put]
    exact h.inbound
  · rw [ha.put]
    exact h.silent
  · rw [ha.took]
    exact h.hinted
  · rw [ha.took]
    exact h.heard

theorem Waiting.agrees (h : Waiting p me n c) (ha : Agrees me n n' c.link)
    (hd : c.link ∈ n.discardTimers.map Prod.fst → c.link ∈ n'.discardTimers.map Prod.fst) : Waiting p me n' c := by
  refine ⟨h.toWrites.agrees ha, h.theirs, h.accepted, h.unconfirmed, h.isOpen, ?_, fun hi => ?_⟩
  · rw [ha.put]
    exact h.unread
  · rw [ha.put]
    exact ⟨(h.rejected hi).1, hd (h.rejected hi).2.1, (h.rejected hi).2.2⟩

theorem Holds.weaken {out' : LinkId → Prop} (h : Holds p me far out n) (hout : ∀ l, out l → out' l) :
    Holds p me far out' n :=
  ⟨h.links, h.took, h.queue, h.lanes, fun c hc hlive hn => h.conn c hc hlive fun ho => hn (hout _ ho), h.husk,
    fun c hc hn => h.pending c hc fun ho => hn (hout _ ho), h.nodup, h.apart⟩

theorem Holds.all (h : Holds p me far out n) (hconn : ∀ c, n.conn = some c → c.st ≠ .backoff → ¬ out c.link)
    (hpend : ∀ c ∈ n.pendingIn, ¬ out c.link) : Inv p me far n :=
  ⟨h.links, h.took, h.queue, h.lanes, fun c hc hlive _ => h.conn c hc hlive (hconn c hc hlive), h.husk,
    fun c hc _ => h.pending c hc (hpend c hc), h.nodup, h.apart⟩

theorem Holds.transfer (h : Holds p me far out n) (hconn : n'.conn = n.conn) (hpend : n'.pendingIn = n.pendingIn)
    (hagree : ∀ l, ¬ out l → Agrees me n n' l)
    (hdiscards : ∀ c ∈ n.pendingIn, ¬ out c.link → c.link ∈ n.discardTimers.map Prod.fst →
      c.link ∈ n'.discardTimers.map Prod.fst)
    (hlinks : ∀ l, out l → Links p me n' l)
    (htook : ∀ l, out l → n'.took l <+: far.put l) (hqueue : ∀ f ∈ n'.outq.all, App p me f)
    (hlanes : ∀ f ∈ n'.outq.data, f.kind ≠ Secure.FrameKind.control) (hposted : n.posted ≤ n'.posted) :
    Holds p me far out n' := by
  refine ⟨fun l => ?_, fun l => ?_, hqueue, hlanes,
    fun c hc hlive hn => ?_, fun c hc hst => ?_, fun c hc hn => ?_, ?_, fun c hc hlive => ?_⟩
  · by_cases hl : out l
    · exact hlinks l hl
    · exact (h.links l).agrees (hagree l hl)
  · by_cases hl : out l
    · exact htook l hl
    · rw [(hagree l hl).took]
      exact h.took l
  · obtain ⟨hopen, hreads, hdue⟩ := h.conn c (hconn ▸ hc) hlive hn
    exact ⟨hopen.agrees (hagree _ hn), hreads.agrees (hagree _ hn),
      fun hr hu hf => Nat.lt_of_lt_of_le (hdue hr hu hf) hposted⟩
  · exact h.husk c (hconn ▸ hc) hst
  · obtain ⟨hwait, hreads⟩ := h.pending c (hpend ▸ hc) hn
    exact ⟨hwait.agrees (hagree _ hn) (hdiscards _ (hpend ▸ hc) hn), hreads.agrees (hagree _ hn)⟩
  · rw [hpend]
    exact h.nodup
  · rw [hpend]
    exact h.apart c (hconn ▸ hc) hlive

theorem registered_iff : n.registered l = true ↔ ∃ c, n.conn = some c ∧ c.link = l ∧ c.st ≠ .backoff := by
  simp only [Node.registered, Option.any_eq_true, Bool.and_eq_true, decide_eq_true_eq]

theorem ne_of_registered (hreg : n.registered l = false) (hc : n.conn = some c) (hlive : c.st ≠ .backoff) :
    c.link ≠ l := by
  intro heq
  rw [registered_iff.mpr ⟨c, hc, heq, hlive⟩] at hreg
  cases hreg

theorem pending_iff : n.pending l = true ↔ ∃ c ∈ n.pendingIn, c.link = l := by
  simp only [Node.pending, any_eq_true, decide_eq_true_eq]

theorem pending_false_iff : n.pending l = false ↔ ∀ c ∈ n.pendingIn, c.link ≠ l := by
  simp only [Node.pending, any_eq_false, decide_eq_true_eq, ne_eq]

theorem Holds.of_registered (h : Holds p me far out n) (hreg : n.registered l = true) : n.pending l = false := by
  obtain ⟨e, he, rfl, hlive⟩ := registered_iff.mp hreg
  exact pending_false_iff.mpr (h.apart e he hlive)

theorem Holds.lookup (h : Inv p me far n) (hc : n.lookup l = some c) : Held p me far n c ∧ c.link = l := by
  unfold Node.lookup at hc
  split at hc
  · next hreg =>
    obtain ⟨e, he, rfl, hlive⟩ := registered_iff.mp hreg
    rw [he] at hc
    cases hc
    obtain ⟨hopen, hreads, hdue⟩ := h.conn c he hlive id
    exact ⟨.conn hreg hlive hopen hreads hdue, rfl⟩
  · next hreg =>
    have hin := mem_of_find?_eq_some hc
    have hl : c.link = l := by simpa using find?_some hc
    obtain ⟨hwait, hreads⟩ := h.pending c hin id
    exact ⟨.pending (by rw [hl]; exact Bool.eq_false_iff.mpr hreg) (pending_iff.mpr ⟨c, hin, rfl⟩) hwait hreads, hl⟩

theorem Held.writes (h : Held p me far n c) : Writes p me n c := by
  cases h with
  | conn _ _ hopen => exact hopen.toWrites
  | pending _ _ hwait => exact hwait.toWrites

theorem Held.role (h : Held p me far n c) (hself : c.initiatedBySelf = true) : c.link.dialer = me := by
  cases h with
  | conn _ _ hopen => exact hopen.role.mp hself
  | pending _ _ hwait =>
    rw [hwait.accepted] at hself
    cases hself

theorem Held.reads (h : Held p me far n c) : Reads p me far n c := by
  cases h with
  | conn _ _ _ hreads => exact hreads
  | pending _ _ _ hreads => exact hreads

theorem Held.store (hh : Held p me far n c) (h : Holds p me far (· = c.link) n) : Inv p me far (n.store c) := by
  cases hh with
  | conn hreg hlive hopen hreads hdue =>
    have hpend := pending_false_iff.mp (h.of_registered hreg)
    unfold Node.store
    rw [if_pos hreg]
    refine ⟨fun l => (h.links l).agrees .placed, h.took, h.queue, h.lanes, fun c' hc' _ _ => ?_, fun c' hc' hst => ?_,
      fun w hw _ => ?_, h.nodup, fun c' hc' _ w hw => ?_⟩
    · cases hc'
      exact ⟨hopen.agrees .placed, hreads.agrees .placed, hdue⟩
    · cases hc'
      exact absurd hst hlive
    · obtain ⟨hwait, hwreads⟩ := h.pending w hw (hpend w hw)
      exact ⟨hwait.agrees .placed id, hwreads.agrees .placed⟩
    · cases hc'
      exact hpend w hw
  | pending hreg hpend hwait hreads =>
    have hlinks : (n.pendingIn.map fun w => if w.link = c.link then c else w).map Conn.link =
        n.pendingIn.map Conn.link := by
      rw [map_map]
      refine map_congr_left fun w _ => ?_
      change Conn.link (if w.link = c.link then c else w) = w.link
      split
      · next heq => exact heq.symm
      · rfl
    have hmem : ∀ w ∈ n.pendingIn.map (fun w => if w.link = c.link then c else w),
        w = c ∨ w ∈ n.pendingIn ∧ w.link ≠ c.link := by
      intro w hw
      obtain ⟨w', hw', rfl⟩ := mem_map.mp hw
      split
      · exact .inl rfl
      · next hne => exact .inr ⟨hw', hne⟩
    unfold Node.store
    rw [hreg]
    refine ⟨fun l => (h.links l).agrees .placed, h.took, h.queue, h.lanes, fun e he hlive _ => ?_, h.husk,
      fun w hw _ => ?_, ?_, fun e he hlive w hw => ?_⟩
    · obtain ⟨hopen, hereads, hdue⟩ := h.conn e he hlive (ne_of_registered hreg he hlive)
      exact ⟨hopen.agrees .placed, hereads.agrees .placed, hdue⟩
    · obtain rfl | ⟨hw, hne⟩ := hmem w hw
      · exact ⟨hwait.agrees .placed id, hreads.agrees .placed⟩
      · obtain ⟨hwwait, hwreads⟩ := h.pending w hw hne
        exact ⟨hwwait.agrees .placed id, hwreads.agrees .placed⟩
    · change (List.map Conn.link (List.map _ _)).Nodup
      rw [hlinks]
      exact h.nodup
    · obtain rfl | ⟨hw, -⟩ := hmem w hw
      · exact (ne_of_registered hreg he hlive).symm
      · exact h.apart e he hlive w hw

theorem Holds.erasePending (h : Holds p me far (· = l) n) (hreg : n.registered l = false) :
    Inv p me far (n.erasePending l) := by
  refine ⟨fun k => (h.links k).agrees .placed, h.took, h.queue, h.lanes, fun e he hlive _ => ?_, h.husk,
    fun w hw _ => ?_, ?_, fun e he hlive w hw => h.apart e he hlive w (mem_filter.mp hw).1⟩
  · obtain ⟨hopen, hereads, hdue⟩ := h.conn e he hlive (ne_of_registered hreg he hlive)
    exact ⟨hopen.agrees .placed, hereads.agrees .placed, hdue⟩
  · obtain ⟨hw, hne⟩ := mem_filter.mp hw
    obtain ⟨hwait, hreads⟩ := h.pending w hw (of_decide_eq_true hne)
    exact ⟨hwait.agrees .placed id, hreads.agrees .placed⟩
  · exact h.nodup.sublist (filter_sublist.map _)

theorem Holds.outq {q : PeerQueue} (h : Holds p me far out n) (hqueue : ∀ f ∈ q.all, App p me f)
    (hlanes : ∀ f ∈ q.data, f.kind ≠ Secure.FrameKind.control) : Holds p me far out { n with outq := q } :=
  h.transfer rfl rfl (fun _ _ => .placed) (fun _ _ _ => id) (fun l _ => (h.links l).agrees .placed)
    (fun l _ => h.took l) hqueue
    hlanes (Nat.le_refl _)

theorem Holds.scheduleReconnect (h : Holds p me far (· = l) n) (hpend : n.pending l = false)
    (hrole : c.initiatedBySelf = true → c.link.dialer = me) (hcap : c.input.maxBody = frameCap p me) (now : Nat) :
    Inv p me far (n.scheduleReconnect p me now c) := by
  refine ⟨fun k => (h.links k).agrees .placed, h.took, h.queue, h.lanes, fun e he hlive _ => ?_, fun e he _ => ?_,
    fun w hw _ => ?_, h.nodup, fun e he hlive => ?_⟩
  · cases he
    exact absurd rfl hlive
  · cases he
    exact ⟨hrole, rfl, rfl, rfl, rfl, rfl, rfl, hcap, rfl, rfl, rfl, rfl⟩
  · obtain ⟨hwait, hreads⟩ := h.pending w hw (pending_false_iff.mp hpend w hw)
    exact ⟨hwait.agrees .placed id, hreads.agrees .placed⟩
  · cases he
    exact absurd rfl hlive

theorem salvage_all (q : PeerQueue) (c : Conn) (hout : c.out = none → c.outSent = 0) :
    (q.salvage c).all = c.unsent ++ q.all := by
  unfold PeerQueue.salvage Conn.unsent
  cases hc : c.out with
  | none => rw [if_pos (hout hc)]; rfl
  | some f =>
    dsimp only
    split
    · rfl
    · rfl

theorem salvage_data (q : PeerQueue) (c : Conn) : (q.salvage c).data = q.data := by
  unfold PeerQueue.salvage
  split
  · split
    · rfl
    · rfl
  · rfl

theorem mem_unsent {f : MessageFrame} (h : f ∈ c.unsent) : c.out = some f := by
  unfold Conn.unsent at h
  split at h
  · exact Option.mem_toList.mp h
  · cases h

theorem Conn.Cursors.out_none (h : c.Cursors) (hnone : c.out = none) : c.outSent = 0 := by
  obtain ⟨-, hzero⟩ | hlt := h.out
  · exact hzero
  · rw [Conn.outBytes, hnone] at hlt
    exact absurd hlt (Nat.not_lt_zero _)

def PeerQueue.afterDeath (q : PeerQueue) (c : Conn) : PeerQueue :=
  if c.openMarked && c.identified then (q.salvage c).purgeAuthenticate else q.salvage c

theorem afterDeath_sublist (q : PeerQueue) (hc : c.Cursors) :
    (q.afterDeath c).all <+ c.unsent ++ q.all ∧ (q.afterDeath c).data = q.data := by
  rw [← salvage_all q c hc.out_none]
  unfold PeerQueue.afterDeath
  split
  · exact ⟨filter_sublist.append_right _, salvage_data q c⟩
  · exact ⟨.refl _, salvage_data q c⟩

theorem Holds.afterDeath (h : Holds p me far out n) (hw : Writes p me n c) :
    Holds p me far out { n with outq := n.outq.afterDeath c } := by
  obtain ⟨hall, hdata⟩ := afterDeath_sublist n.outq hw.cursors
  refine h.outq (fun f hf => ?_) fun f hf => h.lanes f (hdata ▸ hf)
  obtain hunsent | hqueued := mem_append.mp (hall.subset hf)
  · exact (hw.out f (mem_unsent hunsent)).1
  · exact h.queue f hqueued

theorem handleDead_eq (now : Nat) : n.handleDead p me now c =
    if n.pending c.link then { n with outq := n.outq.afterDeath c }.erasePending c.link
    else if n.registered c.link then
      if (p.options me).endpoint then { n with outq := n.outq.afterDeath c }.scheduleReconnect p me now c
      else { n with conn := none, outq := {} }
    else { n with outq := n.outq.afterDeath c } := by
  unfold Node.handleDead PeerQueue.afterDeath
  dsimp only [Node.salvageOut]
  change (if n.pending c.link then _ else if (!n.registered c.link) = true then _ else _) = _
  cases n.registered c.link with
  | false => rfl
  | true => rfl

theorem handleDead_inv (h : Holds p me far (· = c.link) n) (hw : Writes p me n c)
    (hrole : c.initiatedBySelf = true → c.link.dialer = me) (hcap : c.input.maxBody = frameCap p me) (now : Nat) :
    Inv p me far (n.handleDead p me now c) := by
  have hafter := h.afterDeath hw
  rw [handleDead_eq]
  split
  · next hpend =>
    refine hafter.erasePending ?_
    cases hreg : n.registered c.link with
    | false => exact hreg
    | true =>
      rw [h.of_registered hreg] at hpend
      cases hpend
  · next hpend =>
    have hpend : n.pending c.link = false := Bool.eq_false_iff.mpr hpend
    split
    · next hreg =>
      split
      · exact hafter.scheduleReconnect hpend hrole hcap now
      · refine ⟨fun k => (h.links k).agrees .placed, h.took, fun f hf => (by cases hf), fun f hf => (by cases hf),
          fun e he => (by cases he), fun e he => (by cases he), fun w hw _ => ?_, h.nodup, fun e he => (by cases he)⟩
        obtain ⟨hwait, hreads⟩ := h.pending w hw (pending_false_iff.mp hpend w hw)
        exact ⟨hwait.agrees .placed id, hreads.agrees .placed⟩
    · next hreg =>
      have hreg : n.registered c.link = false := Bool.eq_false_iff.mpr hreg
      exact hafter.all (fun e he hlive => ne_of_registered hreg he hlive) (pending_false_iff.mp hpend)

/-- A connection after some writing, with the frames begun in it. -/
structure Went (p : Pair) (me : Side) (n : Node) (c : Conn) (r : Flushed) : Prop where
  flushes : Flushes (Conn.owing (p.id me)) n.outq c r
  quiet : c.confirmed = false → r.begun = [] ∧ r.outq = n.outq ∧ r.conn.out = c.out

theorem went_flush (hw : Writes p me n c) (script : List SendResult) : Went p me n c
    (flush (p.id me) script n.outq c) :=
  ⟨(flush_spec _ _ _ hw.cursors).1, (flush_spec _ _ _ hw.cursors).2⟩

section

variable {r : Flushed}

theorem flushed_put : (n.flushed l r).put l = n.put l ++ r.begun := update_self ..

theorem flushed_wrote : (n.flushed l r).wrote l = n.wrote l ++ r.bytes := update_self ..

theorem flushed_agrees {k : LinkId} (hk : k ≠ l) : Agrees me n (n.flushed l r) k :=
  ⟨update_of_ne hk .., update_of_ne hk .., rfl, rfl, id, id⟩

theorem Went.app (h : Went p me n c r) (hw : Writes p me n c) (hqueue : ∀ f ∈ n.outq.all, App p me f) :
    (∀ f ∈ r.begun, App p me f) ∧ (∀ f ∈ r.outq.all, App p me f) ∧ ∀ f, r.conn.out = some f → App p me f := by
  have hall : ∀ f ∈ r.begun ++ (r.conn.unsent ++ r.outq.all), App p me f := by
    intro f hf
    rw [h.flushes.taken, mem_append] at hf
    obtain hunsent | hqueued := hf
    · exact (hw.out f (mem_unsent hunsent)).1
    · exact hqueue f hqueued
  refine ⟨fun f hf => hall f (mem_append_left _ hf),
    fun f hf => hall f (mem_append_right _ (mem_append_right _ hf)), fun f hf => ?_⟩
  obtain hsame | hqueued := h.flushes.out f hf
  · exact (hw.out f hsame).1
  · exact hqueue f hqueued

theorem Went.writes (h : Went p me n c r) (hw : Writes p me n c) (hqueue : ∀ f ∈ n.outq.all, App p me f) :
    Writes p me (n.flushed c.link r) r.conn := by
  obtain ⟨hlink, -, hconfirmed, -⟩ := h.flushes.wrote.same
  refine ⟨?_, h.flushes.cursors, fun f hf => ⟨(h.app hw hqueue).2.2 f hf, ?_⟩, ?_⟩
  · have hstream := h.flushes.stream
    have hbefore := hw.stream
    rw [hlink, flushed_put, flushed_wrote, flatMap_append, ← append_assoc, ← hbefore, append_assoc,
      append_assoc, hstream]
  · rw [hconfirmed]
    by_contra hun
    have hun : c.confirmed = false := Bool.eq_false_iff.mpr hun
    rw [(h.quiet hun).2.2] at hf
    rw [(hw.out f hf).2] at hun
    cases hun
  · rw [hlink]
    exact hw.known

theorem Went.holds (h : Went p me n c r) (hn : Holds p me far (· = c.link) n) (hh : Held p me far n c) :
    Holds p me far (· = c.link) (n.flushed c.link r) := by
  have hw := hh.writes
  obtain ⟨hbegun, hqueue, -⟩ := h.app hw hn.queue
  have hafter := h.writes hw hn.queue
  have hlink := h.flushes.wrote.same.1
  refine hn.transfer rfl rfl (fun k hk => flushed_agrees hk) (fun _ _ _ => id) (fun k hk => ?_)
    (fun k _ => hn.took k) hqueue
    (fun f hf => hn.lanes f (h.flushes.data.subset hf)) (Nat.le_refl _)
  subst hk
  have hold := hn.links c.link
  have hstream := hafter.stream
  rw [hlink] at hstream
  refine ⟨⟨_, hstream⟩, fun hmine => ⟨fun f hf => ?_, fun hne => ?_⟩, fun htheirs => ?_, fun hfresh =>
    absurd hfresh hw.known⟩
  · rw [flushed_put, mem_append] at hf
    exact hf.elim ((hold.mine hmine).1 f) (hbegun f)
  · cases hh with
    | pending _ _ hwait => exact absurd hmine hwait.theirs
    | conn _ _ hopen =>
      cases hconfirmed : c.confirmed with
      | true => exact hopen.isSealed hmine hconfirmed
      | false =>
        rw [flushed_put, (h.quiet hconfirmed).1, hopen.silent hmine hconfirmed] at hne
        exact absurd rfl hne
  · rw [flushed_put]
    cases hh with
    | pending _ _ hwait =>
      rw [(h.quiet hwait.unconfirmed).1, append_nil]
      exact hold.theirs htheirs
    | conn _ _ hopen =>
      obtain ⟨-, -, flags, fs, hput, hconfirms, -⟩ := hopen.inbound htheirs
      refine .inr ⟨flags, fs ++ r.begun, by rw [hput]; rfl, fun f hf => ?_, fun _ => hconfirms⟩
      obtain hempty | ⟨flags', fs', hput', hfs', -⟩ := hold.theirs htheirs
      · rw [hempty] at hput
        cases hput
      · rw [hput] at hput'
        cases hput'
        exact (mem_append.mp hf).elim (hfs' f) (hbegun f)

theorem Went.held (h : Went p me n c r) (hqueue : ∀ f ∈ n.outq.all, App p me f) (hh : Held p me far n c) :
    Held p me far (n.flushed c.link r) r.conn := by
  have hafter := h.writes hh.writes hqueue
  have hquiet := h.quiet
  obtain ⟨_, _, _, _, _, _, hconn⟩ := h.flushes.wrote
  rw [hconn] at hafter ⊢
  cases hh with
  | conn hreg hlive hopen hreads hdue =>
    refine .conn hreg hlive ⟨hafter, hopen.identified, hopen.role, fun htheirs => ?_, hopen.noHint,
      fun hmine hun => ?_,
      hopen.isSealed, hopen.hinted, hopen.heard, hopen.capable⟩ ⟨hreads.read, hreads.cap, hreads.hello,
      hreads.frames⟩ hdue
    · obtain ⟨hconfirmed, hread, flags, fs, hput, hconfirms, hhint⟩ := hopen.inbound htheirs
      exact ⟨hconfirmed, hread, flags, fs ++ r.begun, by rw [flushed_put, hput]; rfl, hconfirms, hhint⟩
    · change (n.flushed c.link r).put c.link = []
      rw [flushed_put, (hquiet hun).1, hopen.silent hmine hun]
      rfl
  | pending hreg hpend hwait hreads =>
    have hput : (n.flushed c.link r).put c.link = n.put c.link := by
      rw [flushed_put, (hquiet hwait.unconfirmed).1, append_nil]
    refine .pending hreg hpend ⟨hafter, hwait.theirs, hwait.accepted, hwait.unconfirmed, hwait.isOpen, fun hi => ?_,
      fun hi => ?_⟩ ⟨hreads.read, hreads.cap, hreads.hello, hreads.frames⟩
    · exact ⟨(hwait.unread hi).1, (hwait.unread hi).2.1, hput.trans (hwait.unread hi).2.2⟩
    · obtain ⟨hread, htimer, flags, hold, hconfirms, hhint⟩ := hwait.rejected hi
      exact ⟨hread, htimer, flags, hput.trans hold, hconfirms, hhint⟩

end

theorem pump_inv (hn : Holds p me far (· = c.link) n) (hh : Held p me far n c) (now : Nat)
    (script : List SendResult) : Inv p me far (n.pump p me now script c) := by
  have hwent := went_flush hh.writes script
  have hheld := hwent.held hn.queue hh
  have hholds := hwent.holds hn hh
  have hlink := hwent.flushes.wrote.same.1
  rw [← hlink] at hholds hheld
  unfold Node.pump
  dsimp only
  split
  · rw [← hlink]
    exact handleDead_inv hholds hheld.writes hheld.role hheld.reads.cap now
  · rw [← hlink]
    exact hheld.store hholds

end

end Quark.Tcp
