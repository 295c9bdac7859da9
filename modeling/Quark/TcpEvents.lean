import Quark.TcpReading

/-! Every event of a node keeps its invariant, and keeps the frames on their way in order: those it may still
begin, those that wait for it on the connection in `conns_`, and those that it has given to the receiver. -/
namespace Quark.Tcp

open Function List Option
open Net (MessageFrame FrameStream encodeFrame)
open Secure.FrameKind (data control)
open Swim (NodeId)
open scoped List

/-- What was given to the receiver of a node, and what may still be: the frames on the connection in `conns_`. -/
def Node.trail (n far : Node) : List MessageFrame :=
  n.received ++ n.live.elim [] fun l => (far.put l).drop (n.took l).length

/-- From one state of a node to a later one, with the other node as it is. -/
structure Goes (me : Side) (k : UInt8) (far n n' : Node) : Prop where
  sent : ∃ es, n'.sent = n.sent ++ es ∧
    (∀ l, ∃ fs, n'.put l = n.put l ++ fs ∧ lane k (fs ++ n'.backlog) <+ lane k (n.backlog ++ es)) ∧
    ∃ fs, n'.begun = n.begun ++ fs ∧ lane k (fs ++ n'.backlog) <+ lane k (n.backlog ++ es)
  wrote : ∀ l, n.wrote l <+: n'.wrote l
  trail : lane k (n'.trail far) <+ lane k (n.trail far)
  pending : ∀ l, n'.pending l = true → n.pending l = true ∨ l ∉ n.accepted
  kept : ∀ l ∈ n.accepted, l ∈ n'.accepted
  accepted : ∀ l ∈ n'.accepted, l ∈ n.accepted ∨ l.dialer ≠ me ∧ l.serial < far.dials
  dials : n.dials ≤ n'.dials
  timeouts : ∀ l ∈ n'.settleTimeouts, l ∈ n.settleTimeouts ∨ l ∈ far.accepted ∧ far.pending l = false

/-- The other node has begun nothing on a connection that this one has not taken into `conns_`. -/
def Dry (me : Side) (far n : Node) : Prop := ∀ l, n.pending l = true ∨ n.Fresh me l → far.put l = []

section

variable {p : Pair} {me : Side} {k : UInt8} {far n n' n'' : Node} {c c' : Conn} {l : LinkId}
  {b b' fs : List MessageFrame}
  {now : Nat} {script : List SendResult}

theorem Goes.trans (h : Goes me k far n n') (h' : Goes me k far n' n'') : Goes me k far n n'' := by
  obtain ⟨es, hsent, hput, hbegun⟩ := h.sent
  obtain ⟨es', hsent', hput', hbegun'⟩ := h'.sent
  have hjoin : ∀ fs gs, lane k (fs ++ n'.backlog) <+ lane k (n.backlog ++ es) →
      lane k (gs ++ n''.backlog) <+ lane k (n'.backlog ++ es') →
      lane k (fs ++ gs ++ n''.backlog) <+ lane k (n.backlog ++ (es ++ es')) := by
    intro fs gs hfs hgs
    have hfirst := hfs.append_right (lane k es')
    have hthen := hgs.append_left (lane k fs)
    rw [← lane_append, ← lane_append] at hfirst hthen
    rw [append_assoc fs n'.backlog, append_assoc n.backlog] at hfirst
    rw [append_assoc]
    exact hthen.trans hfirst
  refine ⟨⟨es ++ es', by rw [hsent', hsent, append_assoc], fun l => ?_, ?_⟩, fun l => (h.wrote l).trans (h'.wrote l),
    h'.trail.trans h.trail, fun l hp => ?_, fun l hl => h'.kept l (h.kept l hl), fun l hl => ?_,
    h.dials.trans h'.dials, fun l hl => ?_⟩
  · obtain ⟨fs, hfs, hlane⟩ := hput l
    obtain ⟨gs, hgs, hlane'⟩ := hput' l
    exact ⟨fs ++ gs, by rw [hgs, hfs, append_assoc], hjoin fs gs hlane hlane'⟩
  · obtain ⟨fs, hfs, hlane⟩ := hbegun
    obtain ⟨gs, hgs, hlane'⟩ := hbegun'
    exact ⟨fs ++ gs, by rw [hgs, hfs, append_assoc], hjoin fs gs hlane hlane'⟩
  · exact (h'.pending l hp).elim (h.pending l) fun hno => .inr fun hl => hno (h.kept l hl)
  · exact (h'.accepted l hl).elim (h.accepted l) .inr
  · exact (h'.timeouts l hl).elim (h.timeouts l) .inr

theorem idle_sent (hput : n'.put = n.put) (hbegun : n'.begun = n.begun) (hsent : n'.sent = n.sent)
    (hbacklog : n'.backlog = n.backlog) :
    ∃ es, n'.sent = n.sent ++ es ∧
      (∀ l, ∃ fs, n'.put l = n.put l ++ fs ∧ lane k (fs ++ n'.backlog) <+ lane k (n.backlog ++ es)) ∧
      ∃ fs, n'.begun = n.begun ++ fs ∧ lane k (fs ++ n'.backlog) <+ lane k (n.backlog ++ es) := by
  have hsame : lane k ([] ++ n'.backlog) <+ lane k (n.backlog ++ []) := by
    rw [hbacklog, append_nil]
    exact .refl _
  exact ⟨[], by rw [hsent, append_nil], fun l => ⟨[], by rw [hput, append_nil], hsame⟩,
    [], by rw [hbegun, append_nil], hsame⟩

theorem Moves.goes (h : Moves me k n n.backlog n' n'.backlog) (hdry : Dry me far n) : Goes me k far n n' := by
  refine ⟨⟨[], by rw [h.sent, append_nil], fun l => ?_, ?_⟩, h.wrote, ?_, fun l hp => .inl (h.pending l hp),
    fun l hl => h.accepted ▸ hl, fun l hl => .inl (h.accepted ▸ hl), h.dials, fun l hl => .inl (h.timeouts ▸ hl)⟩
  · obtain ⟨fs, hfs, hlane⟩ := h.put l
    exact ⟨fs, hfs, by rwa [append_nil]⟩
  · obtain ⟨fs, hfs, hlane⟩ := h.begun
    exact ⟨fs, hfs, by rwa [append_nil]⟩
  · unfold Node.trail
    rw [h.received, h.took]
    obtain hsame | hnone | ⟨l, hl, hfrom⟩ := h.live
    · rw [hsame]
    · rw [hnone]
      exact lane_sublist ((nil_sublist _).append_left _)
    · rw [hl, elim_some, hdry l hfrom, drop_nil]
      exact lane_sublist ((nil_sublist _).append_left _)

theorem lookup_stock (hc : n.lookup l = some c) : n.stock c = n.backlog := by
  unfold Node.lookup at hc
  split at hc
  · exact stock_conn hc
  · next hreg =>
    have hl : c.link = l := by simpa using find?_some hc
    exact stock_pending (by rw [hl]; exact Bool.eq_false_iff.mpr hreg)

theorem fed_goes {frames : List MessageFrame} {read : LinkId → Nat} {posted : Nat}
    (hput : n.took l ++ frames <+: far.put l) (hlive : n.live ≠ some l → far.put l = []) :
    Goes me k far n { n with
      read, posted, took := update n.took l (n.took l ++ frames), received := n.received ++ given p me frames } := by
  refine ⟨idle_sent rfl rfl rfl rfl, fun l => prefix_refl _, ?_,
    fun l hp => .inl hp, fun l hl => hl, fun l hl => .inl hl, Nat.le_refl _, fun l hl => .inl hl⟩
  · have hgiven : given p me frames <+ frames := filter_sublist
    change lane k ((n.received ++ given p me frames) ++
      n.live.elim [] fun i => (far.put i).drop (update n.took l (n.took l ++ frames) i).length) <+ _
    by_cases hl : n.live = some l
    · obtain ⟨rest, hrest⟩ := hput
      rw [Node.trail, hl, elim_some, elim_some, update_self, ← hrest, drop_left, append_assoc,
        append_assoc (n.took l), drop_left]
      exact lane_sublist ((hgiven.append_right rest).append_left _)
    · have hnone : frames = [] := by
        rw [hlive hl] at hput
        exact (append_eq_nil_iff.mp (prefix_nil.mp hput)).2
      rw [hnone, given, filter_nil, append_nil, append_nil, update_eq_self]
      exact .refl _

theorem feed_goes {bytes : List UInt8} (hn : Holds p me far (· = c.link) n) (hh : Held p me far n c)
    (hread : c.peerHelloRead = true) (hlinks : Links p me.far far c.link)
    (hbytes : bytes <+: (far.wrote c.link).drop (n.read c.link)) (hstock : n.stock c = n.backlog)
    (hdry : Dry me far n) : Goes me k far n (n.feed p me now c bytes) := by
  obtain ⟨hput, -, -⟩ := hh.reads.feed hread hlinks (hn.took c.link) hbytes
  have hhand := hh.inHand hn
  have hlive : n.live ≠ some c.link → far.put c.link = [] := fun hne => by
    cases hh with
    | conn hreg => exact absurd (live_iff.mpr hreg) hne
    | pending _ hpend => exact hdry _ (.inl hpend)
  unfold Node.feed
  generalize c.input.feed bytes = r at hput
  obtain ⟨frames, stop, input⟩ := r
  have hnoted := onFrames_noted p me (n.receive c.link bytes.length) { c with input } frames
  dsimp only at hput ⊢
  generalize frames.foldl (Node.onFrame p me) (n.receive c.link bytes.length, { c with input }) = nc at hnoted ⊢
  obtain ⟨n₂, c₂⟩ := nc
  obtain ⟨posted, hn₂⟩ := hnoted.node
  obtain ⟨hintFlags, hintReceived, bearing, hc₂⟩ := hnoted.conn
  dsimp only at hn₂ hc₂ ⊢
  have hfed : Goes me k far n n₂ := hn₂ ▸ fed_goes hput hlive
  have hstock₂ : n₂.stock c₂ = n₂.backlog := by
    rw [hn₂, hc₂]
    exact hstock
  have hhand₂ : InHand n₂ c₂ := by
    rw [hn₂, hc₂]
    exact ⟨⟨hhand.cursors.hello, hhand.cursors.hint, hhand.cursors.out⟩, hhand.registered, hhand.pending, hhand.live⟩
  have hdry₂ : Dry me far n₂ := by
    rw [hn₂]
    exact hdry
  split
  · exact hfed.trans ((hhand₂.dead_moves.of_eq hstock₂).goes hdry₂)
  · exact hfed.trans (((store_moves hhand₂.live).of_eq hstock₂).goes hdry₂)

theorem receive_goes (l : LinkId) (count : Nat) : Goes me k far n (n.receive l count) :=
  ⟨idle_sent rfl rfl rfl rfl, fun _ => prefix_refl _, .refl _,
    fun _ hp => .inl hp, fun _ hl => hl, fun _ hl => .inl hl, Nat.le_refl _, fun _ hl => .inl hl⟩

theorem Moves.dry (h : Moves me k n b n' b') (hdry : Dry me far n) : Dry me far n' :=
  fun l hl => hdry l (hl.imp (h.pending l) h.fresh)

theorem doRead_goes {admitted : Bool} {s₁ s₂ : List SendResult} {bytes : List UInt8} (hk : k ≠ FrameKind.dialHint)
    (h : Inv p me far n) (hc : n.lookup l = some c) (hlinks : Links p me.far far l) (hdry : Dry me far n)
    (hbytes : bytes <+: (far.wrote l).drop (n.read l)) : Goes me k far n
    (n.doRead p me now admitted s₁ s₂ c bytes) := by
  obtain ⟨hh, rfl⟩ := h.lookup hc
  have hstock := lookup_stock hc
  rw [doRead_eq hh.reads hlinks hbytes]
  split
  · next hread => exact feed_goes (h.hand _) hh hread hlinks hbytes hstock hdry
  · next hread =>
    have hread : c.peerHelloRead = false := Bool.eq_false_iff.mpr hread
    have hlive := (hh.inHand (h.hand _)).live
    split
    · refine (receive_goes c.link (c.helloPart bytes).length).trans (Moves.goes ?_ hdry)
      exact (store_moves (c := c.withHello bytes) hlive).of_eq hstock
    · next hlong =>
      have hlong := Nat.le_of_not_lt hlong
      obtain ⟨-, -, -, hwhole⟩ := hh.reads.helloPart hread hlinks hbytes
      obtain ⟨-, -, hrest⟩ := hwhole hlong
      have hinv : Inv p me far ((n.receive c.link (c.helloPart bytes).length).registerIdentified p me
        now admitted s₁ s₂ (c.greeted bytes) 2).1 := greeted_inv (h.hand _) hh hread hlinks hbytes hlong
      have hmoves : Moves me k (n.receive c.link (c.helloPart bytes).length) (n.stock c)
        ((n.receive c.link (c.helloPart bytes).length).registerIdentified p me now admitted s₁ s₂
        (c.greeted bytes) 2).1 _ :=
        greeted_moves hk h hh hread
      have hcursors := hh.writes.cursors
      obtain ⟨hsurvives, -⟩ := registerIdentified_survives p me now
        (n.receive c.link (c.helloPart bytes).length) admitted
        s₁ s₂ (c.greeted bytes) 2 ⟨hcursors.hello, hcursors.hint, hcursors.out⟩ rfl
      have hcount := (greeted_reads hh.reads hread hlinks hbytes hlong).2
      dsimp only
      generalize (n.receive c.link (c.helloPart bytes).length).registerIdentified p me now admitted s₁ s₂
        (c.greeted bytes) 2 = r at *
      rw [← hmoves.read] at hcount
      have hfirst : Goes me k far n r.1 := (receive_goes _ _).trans ((hmoves.of_eq hstock).goes hdry)
      split
      · next hs =>
        obtain ⟨e, he, hlink, hheld, hgreeted⟩ := hinv.survivor (hsurvives hs) hcount
        have hlink : e.link = c.link := hlink
        rw [he, elim_some]
        rw [← hlink] at hlinks hrest hcount
        refine hfirst.trans (feed_goes (hinv.hand _) hheld hgreeted hlinks ?_ (stock_conn he) (hmoves.dry hdry))
        rw [hcount]
        exact hrest
      · exact hfirst.trans (receive_goes _ _)

/-- A husk, or a connection as it is created, on a socket that has not been used. -/
def Conn.redialed (c : Conn) (l : LinkId) : Conn :=
  { c with link := l, st := .connecting, initiatedBySelf := true, identified := true }

theorem Husk.writes (hc : Husk p me c) (hput : n.put l = []) (hwrote : n.wrote l = [])
    (hknown : ¬ n.Fresh me l) : Writes p me n (c.redialed l) := by
  refine ⟨?_, ⟨?_, ?_, .inl ⟨hc.out, hc.outSent⟩⟩, fun f hf => ?_, hknown⟩
  · have howing : (c.redialed l).owing (p.id me) = buildHello (p.id me) := by
      change (buildHello (p.id me)).drop c.helloSent ++ (c.hintBytes.drop c.hintSent ++ c.torn) = _
      rw [hc.helloSent, Conn.hintBytes, hc.hint, Conn.torn, hc.outSent]
      simp
    change n.wrote l ++ _ = _ ++ (n.put l).flatMap encodeFrame
    rw [howing, hwrote, hput, flatMap_nil, append_nil, nil_append]
  · exact hc.helloSent ▸ Nat.zero_le _
  · exact hc.hintSent ▸ Nat.zero_le _
  · have hnone : c.out = none := hc.out
    rw [show c.out = some f from hf] at hnone
    cases hnone

theorem Husk.open (hc : Husk p me c) (hl : l.dialer = me) (hput : n.put l = []) (hwrote : n.wrote l = [])
    (htook : n.took l = []) (hknown : ¬ n.Fresh me l) : Open p me n (c.redialed l) := by
  have hunconfirmed : c.confirmed = false := hc.unconfirmed
  have hreceived : c.hintReceived = false := hc.hintReceived
  have hread : c.peerHelloRead = false := hc.peerHelloRead
  refine ⟨hc.writes hput hwrote hknown, rfl, ⟨fun _ => hl, fun _ => rfl⟩, fun hm => absurd hl hm, fun _ => hc.hint,
    fun _ _ => hput, fun _ hconf => ?_, fun _ hr => ?_, fun _ f hf => ?_, fun hr => ?_⟩
  · rw [show c.confirmed = true from hconf] at hunconfirmed
    cases hunconfirmed
  · rw [show c.hintReceived = true from hr] at hreceived
    cases hreceived
  · rw [show n.took (c.redialed l).link = [] from htook] at hf
    cases hf
  · rw [show c.peerHelloRead = true from hr] at hread
    cases hread

theorem Husk.reads (hc : Husk p me c) (htook : n.took l = []) (hread : n.read l = 0) : Reads p me far n
    (c.redialed l) := by
  have hunread : c.peerHelloRead = false := hc.peerHelloRead
  refine ⟨?_, hc.cap, fun _ => ⟨?_, ?_, htook, hc.buf⟩, fun hr => ?_⟩
  · exact hread ▸ Nat.zero_le _
  · change c.helloIn = (far.wrote l).take (n.read l)
    rw [hread, hc.helloIn, take_zero]
  · exact hread ▸ (by decide)
  · rw [show c.peerHelloRead = true from hr] at hunread
    cases hunread

theorem dialed_inv (h : Inv p me far n) (hc : Husk p me c) :
    Inv p me far { n with conn := some (c.redialed (n.socket me)), dials := n.dials + 1 } := by
  have hfresh : n.Fresh me (n.socket me) := (if_pos rfl).mpr (Nat.le_refl n.dials)
  obtain ⟨hput, hwrote, htook, hread⟩ := (h.links _).fresh hfresh
  have hknown : ¬ Node.Fresh me { n with conn := some (c.redialed (n.socket me)), dials := n.dials + 1 }
      (n.socket me) := by
    intro hf
    exact Nat.not_succ_le_self n.dials ((if_pos rfl).mp hf)
  have hagree : ∀ l, Agrees me n { n with conn := some (c.redialed (n.socket me)), dials := n.dials + 1 } l := by
    refine fun l => ⟨rfl, rfl, rfl, rfl, fun hf => ?_, id⟩
    unfold Node.Fresh at hf ⊢
    split
    · next hm =>
      rw [if_pos hm] at hf
      exact Nat.le_of_succ_le hf
    · next hm =>
      rw [if_neg hm] at hf
      exact hf
  refine ⟨fun l => (h.links l).agrees (hagree l), h.took, h.queue, h.lanes, fun e he _ _ => ?_, fun e he hst => ?_,
    fun w hw hn => ?_, h.nodup, fun e he _ w hw => ?_⟩
  · cases he
    refine ⟨hc.open rfl hput hwrote htook hknown, hc.reads htook hread, fun hr => ?_⟩
    have hreceived : c.hintReceived = false := hc.hintReceived
    rw [show c.hintReceived = true from hr] at hreceived
    cases hreceived
  · cases he
    cases hst
  · obtain ⟨hwait, hreads⟩ := h.pending w hw hn
    exact ⟨hwait.agrees (hagree _) id, hreads.agrees (hagree _)⟩
  · cases he
    have htheirs := (h.pending w hw id).1.theirs
    exact fun heq => htheirs (heq ▸ rfl)

theorem dialed_moves (hb : lane k n.outq.all <+ lane k b) (hout : c.out = none) :
    Moves me k n b { n with conn := some (c.redialed (n.socket me)), dials := n.dials + 1 }
      (Node.backlog { n with conn := some (c.redialed (n.socket me)), dials := n.dials + 1 }) := by
  have hunsent : (c.redialed (n.socket me)).unsent = [] := unsent_none hout
  have hsame : lane k ((c.redialed (n.socket me)).unsent ++ n.outq.all) <+ lane k b := by
    rw [hunsent]
    exact hb
  refine ⟨fun l => ⟨[], (append_nil _).symm, hsame⟩, ⟨[], (append_nil _).symm, hsame⟩, fun l => prefix_refl _,
    .inr (.inr ⟨n.socket me, rfl, .inr ?_⟩), fun l h => h, Nat.le_succ _, rfl, rfl, rfl, rfl, rfl, rfl⟩
  · exact (if_pos rfl).mpr (Nat.le_refl n.dials)

theorem doReconnect_inv {connects : Bool} (h : Inv p me far n) : Inv p me far (n.doReconnect p me now connects) := by
  unfold Node.doReconnect
  cases he : n.conn with
  | none => exact h
  | some c =>
    dsimp only
    split
    · exact h
    · next hst =>
      have hst : c.st = .backoff := not_not.mp hst
      have hhusk := h.husk c he hst
      split
      · refine ⟨fun l => (h.links l).agrees .placed, h.took, fun f hf => (by cases hf), fun f hf => (by cases hf),
          fun e he => (by cases he), fun e he => (by cases he), fun w hw hn => ?_, h.nodup, fun e he => (by cases he)⟩
        obtain ⟨hwait, hreads⟩ := h.pending w hw hn
        exact ⟨hwait.agrees .placed id, hreads.agrees .placed⟩
      · split
        · refine ⟨fun l => (h.links l).agrees .placed, h.took, h.queue, h.lanes,
            fun e he hlive => ?_, fun e he _ => ?_, fun w hw hn => ?_, h.nodup, fun e he hlive => ?_⟩
          · cases he
            exact absurd rfl hlive
          · cases he
            exact ⟨hhusk.role, rfl, rfl, rfl, rfl, rfl, rfl, hhusk.cap, rfl, rfl, rfl, rfl⟩
          · obtain ⟨hwait, hreads⟩ := h.pending w hw hn
            exact ⟨hwait.agrees .placed id, hreads.agrees .placed⟩
          · cases he
            exact absurd rfl hlive
        · exact dialed_inv h hhusk

theorem doReconnect_moves {connects : Bool} (h : Inv p me far n) :
    Moves me k n n.backlog (n.doReconnect p me now connects) (n.doReconnect p me now connects).backlog := by
  unfold Node.doReconnect
  cases he : n.conn with
  | none => exact .refl me k n _
  | some c =>
    dsimp only
    split
    · exact .refl me k n _
    · next hst =>
      have hhusk := h.husk c he (not_not.mp hst)
      have hb : n.backlog = n.outq.all := by
        rw [Node.backlog, he, elim_some, unsent_none hhusk.out, nil_append]
      rw [hb]
      split
      · exact .placed (nil_sublist _) (.inr (.inl rfl)) fun l h => h
      · split
        · exact .placed (.refl _) (.inr (.inl rfl)) fun l h => h
        · exact dialed_moves (.refl _) hhusk.out

theorem dial_husk (p : Pair) (me : Side) (l : LinkId) :
    Husk p me { link := l, input := FrameStream.create (p.options me).maxFrameBody } :=
  ⟨fun h => (by cases h), rfl, rfl, rfl, rfl, rfl, rfl, rfl, rfl, rfl, rfl, rfl⟩

theorem ensureConn_spec (connects : Bool) (h : Inv p me far n) : Inv p me far (n.ensureConn p me connects) ∧
    Moves me k n n.backlog (n.ensureConn p me connects) (n.ensureConn p me connects).backlog := by
  unfold Node.ensureConn
  split
  · next hnew =>
    have hnone : n.conn = none := by
      cases hconn : n.conn with
      | none => rfl
      | some c =>
        rw [hconn] at hnew
        cases hnew
    have hb : n.backlog = n.outq.all := by
      rw [Node.backlog, hnone]
      rfl
    refine ⟨dialed_inv h (dial_husk p me (n.socket me)), ?_⟩
    rw [hb]
    exact dialed_moves (.refl _) (dial_husk p me (n.socket me)).out
  · exact ⟨h, .refl me k n _⟩

theorem pushBack_lane (q : PeerQueue) (f : MessageFrame) (hlanes : ∀ g ∈ q.data, g.kind ≠ control) :
    lane k (q.pushBack f (f.kind = control)).all = lane k (q.all ++ [f]) := by
  unfold PeerQueue.pushBack PeerQueue.all
  by_cases hf : f.kind = control
  · rw [if_pos (decide_eq_true hf)]
    dsimp only
    rw [lane_append, lane_append, lane_append, lane_append]
    by_cases hk : k = control
    · have hnone : lane k q.data = [] := filter_eq_nil_iff.mpr fun g hg => by
        rw [hk]
        simpa using hlanes g hg
      rw [hnone, append_nil, append_nil]
    · have hnone : lane k [f] = [] := filter_eq_nil_iff.mpr fun g hg => by
        cases mem_singleton.mp hg
        rw [hf]
        simpa using Ne.symm hk
      rw [hnone, append_nil, append_nil]
  · rw [if_neg (by simpa using hf), append_assoc]

theorem queued_goes {q : PeerQueue} {f : MessageFrame} (hq : lane k q.all <+ lane k (n.outq.all ++ [f])) :
    Goes me k far n { n with sent := n.sent ++ [f], outq := q } := by
  have hmore : lane k ([] ++ Node.backlog { n with sent := n.sent ++ [f], outq := q }) <+ lane k
      (n.backlog ++ [f]) := by
    rw [nil_append, Node.backlog, Node.backlog, append_assoc, lane_append, lane_append]
    exact hq.append_left _
  exact ⟨⟨[f], rfl, fun l => ⟨[], (append_nil _).symm, hmore⟩, [], (append_nil _).symm, hmore⟩,
    fun l => prefix_refl _, .refl _, fun l hp => .inl hp, fun l hl => hl, fun l hl => .inl hl, Nat.le_refl _,
    fun l hl => .inl hl⟩

theorem ensureConn_sent {connects : Bool} (n : Node) (fs : List MessageFrame) :
    Node.ensureConn p me connects { n with sent := fs } = { n.ensureConn p me connects with sent := fs } := by
  unfold Node.ensureConn
  change (if (n.conn.isNone && (p.options me).endpoint && connects) = true then _ else _) = _
  split
  · rfl
  · rfl

theorem enqueueTo_spec {connects : Bool} {f : MessageFrame} (h : Inv p me far n) (hf : App p me f)
    (hdry : Dry me far n) :
    Inv p me far (n.enqueueTo p me now connects script f) ∧
    Goes me k far n (n.enqueueTo p me now connects script f) := by
  obtain ⟨hinv, hmoves⟩ := ensureConn_spec (k := k) connects h
  have hfirst := hmoves.goes hdry
  have hdry₁ := hmoves.dry hdry
  have hsent₁ : (n.ensureConn p me connects).sent = n.sent := hmoves.sent
  unfold Node.enqueueTo
  rw [ensureConn_sent, ← hsent₁]
  generalize n.ensureConn p me connects = n₁ at *
  have hdropped : Inv p me far { n₁ with sent := n₁.sent ++ [f] } ∧
      Goes me k far n { n₁ with sent := n₁.sent ++ [f] } := by
    refine ⟨hinv.transfer rfl rfl (fun _ _ => .placed) (fun _ _ _ => id) (fun l _ => (hinv.links l).agrees .placed)
      (fun l _ => hinv.took l) hinv.queue hinv.lanes (Nat.le_refl _), hfirst.trans (queued_goes ?_)⟩
    rw [lane_append]
    exact sublist_append_left ..
  dsimp only
  split
  · exact hdropped
  · next c he =>
    generalize (if f.kind = data then (p.options me).maxOutboundDataBytes else _) = cap
    generalize (if f.kind = data then PeerQueue.size n₁.outq.data else _) = queued
    split
    · exact hdropped
    · have hlanes : ∀ g ∈ (n₁.outq.pushBack f (f.kind = control)).data, g.kind ≠ control := by
        intro g hg
        unfold PeerQueue.pushBack at hg
        split at hg
        · exact hinv.lanes g hg
        · next hkind =>
          obtain hg | hg := mem_append.mp hg
          · exact hinv.lanes g hg
          · cases mem_singleton.mp hg
            simpa using hkind
      have hall : ∀ g ∈ (n₁.outq.pushBack f (f.kind = control)).all, App p me g := by
        intro g hg
        unfold PeerQueue.pushBack PeerQueue.all at hg
        have hmem : g ∈ n₁.outq.all ∨ g = f := by
          split at hg
          · simp only [PeerQueue.all, mem_append, mem_singleton] at hg ⊢
            tauto
          · simp only [PeerQueue.all, mem_append, mem_singleton] at hg ⊢
            tauto
        exact hmem.elim (hinv.queue g) fun heq => heq ▸ hf
      have hqueued : Inv p me far { n₁ with
          sent := n₁.sent ++ [f], outq := n₁.outq.pushBack f (f.kind = control) } :=
        hinv.transfer rfl rfl (fun _ _ => .placed) (fun _ _ _ => id) (fun l _ => (hinv.links l).agrees .placed)
          (fun l _ => hinv.took l) hall hlanes (Nat.le_refl _)
      have hgoes : Goes me k far n { n₁ with
          sent := n₁.sent ++ [f], outq := n₁.outq.pushBack f (f.kind = control) } := by
        refine hfirst.trans (queued_goes ?_)
        rw [pushBack_lane _ _ hinv.lanes]
      split
      · next hready =>
        simp only [Bool.and_eq_true, decide_eq_true_eq] at hready
        have hlive : c.st ≠ .backoff := by
          rw [hready.2]
          exact St.noConfusion
        have hreg : Node.registered { n₁ with
            sent := n₁.sent ++ [f], outq := n₁.outq.pushBack f (f.kind = control) } c.link = true :=
          registered_iff.mpr ⟨c, he, rfl, hlive⟩
        obtain ⟨hopen, hreads, hdue⟩ := hqueued.conn c he hlive id
        have hh : Held p me far { n₁ with
            sent := n₁.sent ++ [f], outq := n₁.outq.pushBack f (f.kind = control) } c :=
              .conn hreg hlive hopen hreads hdue
        refine ⟨pump_inv (hqueued.hand _) hh now script, hgoes.trans (Moves.goes ?_ hdry₁)⟩
        refine (pump_moves (hh.inHand (hqueued.hand _)) fun hr => ?_).of_eq (stock_conn he)
        rw [hreg] at hr
        cases hr
      · exact ⟨hqueued, hgoes⟩

theorem accept_spec {kept : Bool} (h : Inv p me far n) (hl : l.dialer ≠ me) (hserial : l.serial < far.dials)
    (hnew : l ∉ n.accepted) :
    Inv p me far (if kept then Node.onAccept p me { n with accepted := n.accepted ++ [l] } l
        else { n with accepted := n.accepted ++ [l] }) ∧
      Goes me k far n (if kept then Node.onAccept p me { n with accepted := n.accepted ++ [l] } l
        else { n with accepted := n.accepted ++ [l] }) := by
  have hfresh : n.Fresh me l := (if_neg hl).mpr hnew
  obtain ⟨hput, hwrote, htook, hread⟩ := (h.links l).fresh hfresh
  have hother : ∀ c, ¬ n.Fresh me c → c ≠ l := fun c hknown heq => hknown (heq ▸ hfresh)
  have hagree : ∀ i, Agrees me n { n with accepted := n.accepted ++ [l] } i := by
    refine fun i => ⟨rfl, rfl, rfl, rfl, fun hf => ?_, id⟩
    unfold Node.Fresh at hf ⊢
    split
    · next hm =>
      rw [if_pos hm] at hf
      exact hf
    · next hm =>
      rw [if_neg hm] at hf
      exact fun hi => hf (mem_append_left _ hi)
  have hknown : ¬ Node.Fresh me { n with accepted := n.accepted ++ [l] } l := fun hf =>
    (if_neg hl).mp hf (mem_append_right _ (.head _))
  have hpresent : Inv p me far { n with accepted := n.accepted ++ [l] } :=
    h.transfer rfl rfl (fun i _ => hagree i) (fun _ _ _ => id) (fun i _ => (h.links i).agrees (hagree i))
      (fun i _ => h.took i)
      h.queue h.lanes (Nat.le_refl _)
  have hgoes : ∀ ws : List Conn, (∀ w ∈ ws, w.link = l) →
      Goes me k far n { n with accepted := n.accepted ++ [l], pendingIn := n.pendingIn ++ ws } := by
    intro ws hws
    refine ⟨idle_sent rfl rfl rfl rfl, fun i => prefix_refl _, .refl _, fun i hp => ?_,
      fun i hi => mem_append_left _ hi, fun i hi => ?_, Nat.le_refl _, fun i hi => .inl hi⟩
    · obtain ⟨w, hw, rfl⟩ := pending_iff.mp hp
      obtain hw | hw := mem_append.mp hw
      · exact .inl (pending_iff.mpr ⟨w, hw, rfl⟩)
      · exact .inr (hws w hw ▸ hnew)
    · obtain hi | hi := mem_append.mp hi
      · exact .inl hi
      · cases mem_singleton.mp hi
        exact .inr ⟨hl, hserial⟩
  split
  · refine ⟨?_, hgoes _ fun w hw => (by cases mem_singleton.mp hw; rfl)⟩
    unfold Node.onAccept
    refine ⟨fun i => (hpresent.links i).agrees .placed, h.took, h.queue, h.lanes, fun e he hlive hn => ?_, h.husk,
      fun w hw _ => ?_, ?_, fun e he hlive w hw => ?_⟩
    · obtain ⟨hopen, hreads, hdue⟩ := hpresent.conn e he hlive hn
      exact ⟨hopen.agrees .placed, hreads.agrees .placed, hdue⟩
    · obtain hw | hw := mem_append.mp hw
      · obtain ⟨hwait, hreads⟩ := hpresent.pending w hw id
        exact ⟨hwait.agrees .placed id, hreads.agrees .placed⟩
      · cases mem_singleton.mp hw
        refine ⟨⟨⟨?_, ⟨Nat.zero_le _, Nat.zero_le _, .inl ⟨rfl, rfl⟩⟩, fun f hf => (by cases hf), hknown⟩,
          hl, rfl, rfl, rfl,
          fun _ => ⟨rfl, rfl, hput⟩, fun hi => (by cases hi)⟩, ⟨?_, rfl, fun _ => ⟨?_, ?_, htook, rfl⟩,
          fun hr => (by cases hr)⟩⟩
        · change n.wrote l ++ ((buildHello (p.id me)).drop 0 ++ []) = buildHello (p.id me) ++
            (n.put l).flatMap encodeFrame
          rw [hwrote, hput, drop_zero]
          rfl
        · change n.read l ≤ _
          rw [hread]
          exact Nat.zero_le _
        · change [] = (far.wrote l).take (n.read l)
          rw [hread, take_zero]
        · change n.read l < helloSize
          rw [hread]
          decide
    · change (List.map Conn.link (n.pendingIn ++ _)).Nodup
      rw [map_append]
      refine nodup_append.mpr ⟨h.nodup, nodup_singleton _, fun i hi j hj heq => ?_⟩
      obtain ⟨w, hw, rfl⟩ := mem_map.mp hi
      cases mem_singleton.mp hj
      exact hother _ (h.pending w hw id).1.known heq
    · obtain hw | hw := mem_append.mp hw
      · exact h.apart e he hlive w hw
      · cases mem_singleton.mp hw
        exact (hother _ (h.conn e he hlive id).1.known).symm
  · refine ⟨hpresent, ?_⟩
    have hnothing := hgoes [] fun w hw => (by cases hw)
    rwa [append_nil] at hnothing

theorem writable_spec (h : Inv p me far n) (hc : n.lookup l = some c) (hdry : Dry me far n) :
    Inv p me far (n.pump p me now script c) ∧ Goes me k far n (n.pump p me now script c) := by
  obtain ⟨hh, rfl⟩ := h.lookup hc
  refine ⟨pump_inv (h.hand _) hh now script,
    Moves.goes ((pump_moves (hh.inHand (h.hand _)) fun hr => ?_).of_eq (lookup_stock hc)) hdry⟩
  cases hh with
  | conn hreg =>
    rw [hreg] at hr
    cases hr
  | pending _ _ hwait => exact hwait.unconfirmed

theorem connected_spec (h : Inv p me far n) (hc : n.lookup l = some c) (hst : c.st = .connecting)
    (hdry : Dry me far n) : Inv p me far (n.pump p me now script { c with st := .open_, openMarked := true }) ∧
      Goes me k far n (n.pump p me now script { c with st := .open_, openMarked := true }) := by
  obtain ⟨hh, rfl⟩ := h.lookup hc
  cases hh with
  | pending _ _ hwait =>
    have hopen := hwait.isOpen
    rw [hst] at hopen
    cases hopen
  | conn hreg hlive hopen hreads hdue =>
    have hh : Held p me far n { c with st := .open_, openMarked := true } :=
      .conn hreg St.noConfusion hopen.touched hreads.touched hdue
    have hstock : n.stock c = n.backlog := lookup_stock hc
    refine ⟨pump_inv (h.hand _) hh now script, Moves.goes ?_ hdry⟩
    refine (pump_moves (hh.inHand (h.hand _)) fun hr => ?_).of_eq hstock
    rw [show n.registered c.link = false from hr] at hreg
    cases hreg

theorem reset_spec (h : Inv p me far n) (hc : n.lookup l = some c) (hdry : Dry me far n) :
    Inv p me far (n.handleDead p me now c) ∧ Goes me k far n (n.handleDead p me now c) := by
  obtain ⟨hh, rfl⟩ := h.lookup hc
  exact ⟨handleDead_inv (h.hand _) hh.writes hh.role hh.reads.cap now,
    Moves.goes ((hh.inHand (h.hand _)).dead_moves.of_eq (lookup_stock hc)) hdry⟩

theorem store_husk (hst : c.st = .backoff) (hreg : n.conn = some c) (hother : ∀ w ∈ n.pendingIn, w.link ≠ c.link) :
    n.store c = n := by
  have hgone : n.registered c.link = false := by
    by_contra hne
    obtain ⟨e, he, -, hlive⟩ := registered_iff.mp (Bool.not_eq_false _ ▸ hne)
    rw [hreg] at he
    cases he
    exact hlive hst
  have hsame : n.pendingIn.map (fun w => if w.link = c.link then c else w) = n.pendingIn := by
    refine (map_congr_left fun w hw => ?_).trans (map_id _)
    exact if_neg (hother w hw)
  unfold Node.store
  rw [hgone, hsame]
  rfl

theorem Holds.posted {x : Nat} {out : LinkId → Prop} (h : Holds p me far out n)
    (hdue : ∀ e, n.conn = some e → e.st ≠ .backoff → ¬ out e.link → Due { n with posted := x } e) :
    Holds p me far out { n with posted := x } := by
  refine ⟨fun l => (h.links l).agrees .placed, h.took, h.queue, h.lanes, fun e he hlive hn => ?_, h.husk,
    fun w hw hn => ?_, h.nodup, h.apart⟩
  · obtain ⟨hopen, hreads, -⟩ := h.conn e he hlive hn
    exact ⟨hopen.agrees .placed, hreads.agrees .placed, hdue e he hlive hn⟩
  · obtain ⟨hwait, hreads⟩ := h.pending w hw hn
    exact ⟨hwait.agrees .placed id, hreads.agrees .placed⟩

theorem elim_cases {P : Node → Prop} {o : Option Conn} {g : Conn → Node} (hnone : o = none → P n)
    (hsome : ∀ c, o = some c → P (g c)) : P (o.elim n g) := by
  cases o with
  | none => exact hnone rfl
  | some c => exact hsome c rfl

theorem posted_spec (now : Nat) (script : List SendResult) (x : Nat) (h : Inv p me far n) (hdry : Dry me far n) :
    let n₁ : Node := { n with posted := x }
    let n' := n₁.conn.elim n₁ fun c => if !c.initiatedBySelf || c.confirmed then n₁ else n₁.settle p me now script c
    Inv p me far n' ∧ Goes me k far n n' := by
  have hgoes : Goes me k far n { n with posted := x } := (Moves.placed (.refl _) (.inl rfl) fun l h => h).goes hdry
  refine elim_cases (P := fun n' => Inv p me far n' ∧ Goes me k far n n') (fun he => ?_) fun c he => ?_
  · refine ⟨h.posted fun e hconn => ?_, hgoes⟩
    rw [show n.conn = none from he] at hconn
    cases hconn
  · have he : n.conn = some c := he
    split
    · next hsettled =>
      refine ⟨h.posted fun e hconn hlive hn hr hun => ?_, hgoes⟩
      rw [he] at hconn
      cases hconn
      have hopen := (h.conn c he hlive hn).1
      rw [hun, Bool.or_false, Bool.not_eq_true'] at hsettled
      have htheirs : c.link.dialer ≠ me := fun hm => by
        rw [hopen.role.mpr hm] at hsettled
        cases hsettled
      rw [(hopen.inbound htheirs).1] at hun
      cases hun
    · next hsettled =>
      simp only [Bool.or_eq_true, Bool.not_eq_true', not_or, Bool.not_eq_false, Bool.not_eq_true] at hsettled
      by_cases hst : c.st = .backoff
      · have hother : ∀ w ∈ n.pendingIn, w.link ≠ c.link := fun w hw heq =>
          (h.pending w hw id).1.theirs (heq ▸ (h.husk c he hst).role hsettled.1)
        have hstore : Node.settle p me now script { n with posted := x } c = { n with posted := x } := by
          unfold Node.settle
          rw [if_pos (by simp [hst])]
          exact store_husk hst he hother
        rw [hstore]
        refine ⟨h.posted fun e hconn hlive => ?_, hgoes⟩
        rw [he] at hconn
        cases hconn
        exact absurd hst hlive
      · have hreg : Node.registered { n with posted := x } c.link = true := registered_iff.mpr ⟨c, he, rfl, hst⟩
        obtain ⟨hopen, hreads, hdue⟩ := h.conn c he hst id
        have hholds : Holds p me far (· = c.link) { n with posted := x } :=
          (h.hand c.link).posted fun e hconn hlive hne => by
          rw [he] at hconn
          cases hconn
          exact absurd rfl hne
        have hh : Held p me far n c := .conn hreg hst hopen hreads hdue
        have hhand := hh.inHand (h.hand _)
        have hhand : InHand { n with posted := x } c := ⟨hhand.cursors, hhand.registered, hhand.pending, hhand.live⟩
        refine ⟨settle_inv hholds hreg hst (hopen.agrees .placed) (hreads.agrees .placed),
          hgoes.trans (Moves.goes ?_ hdry)⟩
        exact (settle_moves hhand hreg).of_eq (stock_conn he)

/-- What a settle timer that has run out confirms is a dial that the other node has taken into `conns_`, or
has given up. -/
def SettlesTaken (far : Node) (now : Nat) (n : Node) : Event → Prop
  | .settleTimer i _ =>
    match n.settleTimers[i]?, n.conn with
    | some (epoch, due), some c =>
      due ≤ now → c.settleEpoch = epoch → c.confirmed = false → c.st ≠ .backoff →
        c.link ∈ far.accepted ∧ far.pending c.link = false
    | _, _ => True
  | _ => True

instance (far : Node) (now : Nat) (n : Node) (e : Event) : Decidable (SettlesTaken far now n e) := by
  unfold SettlesTaken
  split
  · split
    · infer_instance
    · infer_instance
  · infer_instance

theorem settleTimer_spec (now : Nat) (script : List SendResult) (timers : List (UInt32 × Nat)) (e : UInt32)
    (h : Inv p me far n)
    (hok : ∀ c, n.conn = some c → c.settleEpoch = e → c.confirmed = false → c.st ≠ .backoff →
      c.link ∈ far.accepted ∧ far.pending c.link = false) (hdry : Dry me far n) :
    let n₁ : Node := { n with settleTimers := timers }
    let n' := n₁.conn.elim n₁ fun c =>
      if c.settleEpoch ≠ e ∨ c.confirmed = true ∨ c.st = .backoff then n₁
      else { n₁ with settleTimeouts := n₁.settleTimeouts ++ [c.link] }.confirmConn p me now script c
    Inv p me far n' ∧ Goes me k far n n' := by
  have hquiet : Inv p me far { n with settleTimers := timers } ∧ Goes me k far n { n with settleTimers := timers } :=
    ⟨h.transfer rfl rfl (fun _ _ => .placed) (fun _ _ _ => id) (fun l _ => (h.links l).agrees .placed)
      (fun l _ => h.took l)
      h.queue h.lanes (Nat.le_refl _), (Moves.placed (.refl _) (.inl rfl) fun l h => h).goes hdry⟩
  refine elim_cases (P := fun n' => Inv p me far n' ∧ Goes me k far n n') (fun _ => hquiet) fun c he => ?_
  have he : n.conn = some c := he
  split
  · exact hquiet
  · next hdue =>
    simp only [not_or, not_not, Bool.not_eq_true] at hdue
    obtain ⟨hepoch, hun, hst⟩ := hdue
    obtain ⟨hopen, hreads, hdue⟩ := h.conn c he hst id
    have hreg : n.registered c.link = true := registered_iff.mpr ⟨c, he, rfl, hst⟩
    have hh : Held p me far n c := .conn hreg hst hopen hreads hdue
    have hhand := hh.inHand (h.hand _)
    have hagree : ∀ l, Agrees me n
        { n with settleTimers := timers, settleTimeouts := n.settleTimeouts ++ [c.link] } l :=
      fun l => ⟨rfl, rfl, rfl, rfl, id, fun hl => mem_append_left _ hl⟩
    refine ⟨?_, ?_⟩
    · apply confirmConn_inv
      · exact (h.hand c.link).transfer rfl rfl (fun l _ => hagree l) (fun _ _ _ => id)
          (fun l _ => (h.links l).agrees (hagree l)) (fun l _ => h.took l) h.queue h.lanes (Nat.le_refl _)
      · exact hreg
      · exact hst
      · exact hopen.agrees (hagree _)
      · exact hreads.agrees (hagree _)
      · exact fun _ => .inr (mem_append_right _ (.head _))
    · have htimed : Goes me k far n
          { n with settleTimers := timers, settleTimeouts := n.settleTimeouts ++ [c.link] } := by
        refine ⟨idle_sent rfl rfl rfl rfl, fun l => prefix_refl _, .refl _, fun l hp => .inl hp, fun l hl => hl,
          fun l hl => .inl hl, Nat.le_refl _, fun l hl => ?_⟩
        obtain hl | hl := mem_append.mp hl
        · exact .inl hl
        · cases mem_singleton.mp hl
          exact .inr (hok c he hepoch hun hst)
      refine htimed.trans (Moves.goes (Moves.of_eq (b := Node.stock _ c) ?_ (stock_conn he)) hdry)
      apply confirmConn_moves
      · exact ⟨hhand.cursors, hhand.registered, hhand.pending, hhand.live⟩
      · exact hreg

theorem reconnectTimer_spec {connects : Bool} {timers : List Nat} (h : Inv p me far n) (hdry : Dry me far n) :
    Inv p me far (Node.doReconnect p me now connects { n with reconnectTimers := timers }) ∧
      Goes me k far n (Node.doReconnect p me now connects { n with reconnectTimers := timers }) := by
  have hinv : Inv p me far { n with reconnectTimers := timers } :=
    h.transfer rfl rfl (fun _ _ => .placed) (fun _ _ _ => id) (fun l _ => (h.links l).agrees .placed)
      (fun l _ => h.took l)
      h.queue h.lanes (Nat.le_refl _)
  have hfirst : Goes me k far n { n with reconnectTimers := timers } :=
    (Moves.placed (.refl _) (.inl rfl) fun l h => h).goes hdry
  exact ⟨doReconnect_inv hinv, hfirst.trans ((doReconnect_moves hinv).goes hdry)⟩

theorem discardTimer_spec {i due : Nat} (h : Inv p me far n) (hi : n.discardTimers[i]? = some (l, due))
    (hdry : Dry me far n) :
    let n₁ : Node := { n with discardTimers := n.discardTimers.eraseIdx i }
    let n' := if n₁.pending l then (n₁.erasePending l).close { link := l } else n₁
    Inv p me far n' ∧ Goes me k far n n' := by
  have hleft : ∀ w ∈ n.pendingIn, w.link ≠ l → w.link ∈ n.discardTimers.map Prod.fst →
      w.link ∈ (n.discardTimers.eraseIdx i).map Prod.fst := by
    intro w _ hne hmem
    obtain ⟨t, ht, heq⟩ := mem_map.mp hmem
    obtain ⟨j, hj⟩ := getElem?_of_mem ht
    refine mem_map.mpr ⟨t, mem_eraseIdx_iff_getElem?.mpr ⟨j, fun hji => hne ?_, hj⟩, heq⟩
    rw [hji, hi] at hj
    cases hj
    exact heq.symm
  have hfirst : Goes me k far n { n with discardTimers := n.discardTimers.eraseIdx i } :=
    (Moves.placed (.refl _) (.inl rfl) fun l h => h).goes hdry
  dsimp only
  split
  · next hpend =>
    have hreg : n.registered l = false := by
      by_contra hne
      have hnot := h.of_registered (Bool.not_eq_false _ ▸ hne)
      rw [show n.pending l = true from hpend] at hnot
      cases hnot
    have hholds : Holds p me far (· = l) { n with discardTimers := n.discardTimers.eraseIdx i } :=
      (h.hand l).transfer rfl rfl (fun _ _ => .placed) (fun w hw hne => hleft w hw hne)
        (fun l _ => (h.links l).agrees .placed)
        (fun l _ => h.took l) h.queue h.lanes (Nat.le_refl _)
    refine ⟨(hholds.erasePending hreg).close _, hfirst.trans (Moves.goes ?_ hdry)⟩
    exact .placed (.refl _) (.inl rfl) fun l => erasePending_pending
  · next hpend =>
    have hother := pending_false_iff.mp (Bool.eq_false_iff.mpr hpend)
    exact ⟨h.transfer rfl rfl (fun _ _ => .placed) (fun w hw _ => hleft w hw (hother w hw))
      (fun l _ => (h.links l).agrees .placed) (fun l _ => h.took l) h.queue h.lanes (Nat.le_refl _), hfirst⟩

/-- A frame that is sent is one of the application. -/
def SendsApp (p : Pair) (me : Side) : Event → Prop
  | .send f _ _ => App p me f
  | _ => True

instance (e : Event) : Decidable (SendsApp p me e) := by
  unfold SendsApp
  split
  · exact inferInstanceAs (Decidable (_ ∧ _))
  · infer_instance

theorem step_spec {e : Event} (hk : k ≠ FrameKind.dialHint) (h : Inv p me far n) (hlinks : ∀ l, Links p me.far far l)
    (hdry : Dry me far n) (happ : SendsApp p me e) (htaken : SettlesTaken far now n e)
    (hstep : n.step p me now far.wrote far.dials e = some n') : Inv p me far n' ∧ Goes me k far n n' := by
  cases e with
  | send f connects script =>
    cases hstep
    exact enqueueTo_spec h happ hdry
  | accept l kept =>
    unfold Node.step at hstep
    dsimp only at hstep
    split at hstep
    · cases hstep
    · next hguard =>
      simp only [not_or, Nat.not_le] at hguard
      cases hstep
      exact accept_spec h hguard.1 hguard.2.1 hguard.2.2
  | connected l script =>
    unfold Node.step at hstep
    dsimp only at hstep
    split at hstep
    · next c hc =>
      split at hstep
      · cases hstep
      · next hst =>
        cases hstep
        exact connected_spec h hc (not_not.mp hst) hdry
    · cases hstep
  | writable l script =>
    unfold Node.step at hstep
    dsimp only at hstep
    split at hstep
    · next c hc =>
      split at hstep
      · cases hstep
      · cases hstep
        exact writable_spec h hc hdry
    · cases hstep
  | readable l count admitted s₁ s₂ =>
    unfold Node.step at hstep
    dsimp only at hstep
    split at hstep
    · next c hc =>
      split at hstep
      · cases hstep
      · cases hstep
        have hbytes := take_prefix count ((far.wrote l).drop (n.read l))
        exact ⟨doRead_inv h hc (hlinks l) (fun hp => hdry l (.inl hp)) hbytes,
          doRead_goes hk h hc (hlinks l) hdry hbytes⟩
    · cases hstep
  | reset l =>
    obtain ⟨c, hc, rfl⟩ := map_eq_some_iff.mp hstep
    exact reset_spec h hc hdry
  | posted script =>
    unfold Node.step at hstep
    dsimp only at hstep
    split at hstep
    · cases hstep
    · cases hstep
      exact posted_spec now script (n.posted - 1) h hdry
  | settleTimer i script =>
    unfold Node.step at hstep
    dsimp only at hstep
    split at hstep
    · next epoch due htimer =>
      split at hstep
      · cases hstep
      · next hnow =>
        cases hstep
        refine settleTimer_spec now script (n.settleTimers.eraseIdx i) epoch h (fun c hc hepoch hun hlive => ?_) hdry
        unfold SettlesTaken at htaken
        dsimp only at htaken
        rw [htimer, hc] at htaken
        exact htaken (Nat.le_of_not_lt hnow) hepoch hun hlive
    · cases hstep
  | reconnectTimer i connects =>
    unfold Node.step at hstep
    dsimp only at hstep
    split at hstep
    · split at hstep
      · cases hstep
      · cases hstep
        exact reconnectTimer_spec h hdry
    · cases hstep
  | discardTimer i =>
    unfold Node.step at hstep
    dsimp only at hstep
    split at hstep
    · next l due htimer =>
      split at hstep
      · cases hstep
      · cases hstep
        exact discardTimer_spec h htimer hdry
    · cases hstep

end

end Quark.Tcp
