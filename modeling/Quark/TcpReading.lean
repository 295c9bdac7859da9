import Quark.TcpMoves

/-! A receive: the hello once, then frames, which come in the order in which the other node began them. -/
namespace Quark.Tcp

open Function List Node Bytes Reassembly
open Net (MessageFrame FrameStream encodeFrame takeFrame framer)
open Secure.FrameKind (data control)
open Swim (NodeId)
open scoped List

@[simp] theorem Side.far_far (x : Side) : x.far.far = x := by
  cases x with
  | left => rfl
  | right => rfl

theorem Side.ne_far (x : Side) : x ≠ x.far := by
  cases x with
  | left => exact Side.noConfusion
  | right => exact Side.noConfusion

section

variable {p : Pair} {me : Side} {k : UInt8} {far n n' : Node} {c c' : Conn} {l : LinkId} {now : Nat}
  {bytes : List UInt8}
  {frames : List MessageFrame}

theorem buildHello_length (self : NodeId) : (buildHello self).length = helloSize := by
  simp [buildHello, helloSize]

theorem checkHello_buildHello (self : NodeId) : checkHello (buildHello self) = some (self, 2) := by
  have hversion : leValue (((buildHello self).drop 4).take 2) = 2 := by
    unfold buildHello
    rw [drop_left' (putU32_length _), take_left' (putU16_length _)]
    rfl
  have hself : getU64 ((buildHello self).drop 6) = self := by
    have hdrop : (buildHello self).drop 6 = putU64 self := by
      unfold buildHello
      rw [← append_assoc]
      exact drop_left' rfl
    rw [hdrop, ← append_nil (putU64 self), getU64_putU64]
  have hmagic : getU32 (buildHello self) = helloMagic := getU32_putU32 _ _
  unfold checkHello
  simp only [hversion, hself, hmagic, ne_eq, not_true_eq_false, if_false]
  rfl

def given (p : Pair) (me : Side) (frames : List MessageFrame) : List MessageFrame :=
  frames.filter fun f => f.kind ≠ FrameKind.dialHint ∧ f.from_ = p.id me.far

/-- What a node notes of the frames that came in on a connection. -/
structure Noted (p : Pair) (me : Side) (n : Node) (c : Conn) (frames : List MessageFrame) (n' : Node)
    (c' : Conn) : Prop where
  node : ∃ posted, n' = { n with
    took := update n.took c.link (n.took c.link ++ frames), received := n.received ++ given p me frames, posted }
  conn : ∃ hintFlags hintReceived appDataReceived, c' = { c with hintFlags, hintReceived, appDataReceived }
  posted : n.posted ≤ n'.posted
  flags : c'.hintFlags = c.hintFlags ∧ c'.hintReceived = c.hintReceived ∨
    0 < n'.posted ∧ ∃ f ∈ frames, f.kind = FrameKind.dialHint ∧ f.payload = [c'.hintFlags]
  kept : c.hintReceived = true → c'.hintReceived = true
  heard : c.initiatedBySelf = true → c.identified = true → c.hintCapable = true →
    ∀ flags, hintFrame p me.far flags ∈ frames → c'.hintReceived = true

theorem applyDialHint_noted (p : Pair) (me : Side) (n : Node) (c : Conn) (f : MessageFrame) :
    n.applyDialHint p me c f = (n, c) ∧ (c.initiatedBySelf = true → c.identified = true → c.hintCapable = true →
        ∀ flags, hintFrame p me.far flags ≠ f) ∨
      ∃ flags, f.payload = [flags] ∧
        n.applyDialHint p me c f = ({ n with posted := n.posted + 1 },
        { c with hintFlags := flags, hintReceived := true }) := by
  unfold applyDialHint
  split
  · next hother =>
    refine .inl ⟨rfl, fun hself hidentified hcapable => ?_⟩
    rw [hself, hidentified, hcapable] at hother
    cases hother
  · split
    · next hends =>
      refine .inl ⟨rfl, fun _ _ _ flags heq => ?_⟩
      subst heq
      refine hends.elim (fun h => h rfl) fun h => h ?_
      exact congrArg p.id (Side.far_far me)
    · split
      · next flags hpayload => exact .inr ⟨flags, hpayload, rfl⟩
      · next hpayload =>
        refine .inl ⟨rfl, fun _ _ _ flags heq => ?_⟩
        subst heq
        exact hpayload flags rfl

theorem onFrame_noted (n : Node) (c : Conn) (f : MessageFrame) :
    Noted p me n c [f] (onFrame p me (n, c) f).1 (onFrame p me (n, c) f).2 := by
  unfold onFrame
  dsimp only
  split
  · next hkind =>
    have hgiven : given p me [f] = [] := filter_eq_nil_iff.mpr fun g hg => by
      cases mem_singleton.mp hg
      simp [hkind]
    obtain ⟨heq, hnot⟩ | ⟨flags, hpayload, heq⟩ := applyDialHint_noted
      p me { n with took := update n.took c.link (n.took c.link ++ [f]) } c f
    · rw [heq]
      refine ⟨⟨n.posted, ?_⟩, ⟨_, _, _, rfl⟩, Nat.le_refl _, .inl ⟨rfl, rfl⟩, id, fun hs hi hc flags hmem => ?_⟩
      · rw [hgiven, append_nil]
      · exact absurd (mem_singleton.mp hmem) (hnot hs hi hc flags)
    · rw [heq]
      refine ⟨⟨n.posted + 1, ?_⟩, ⟨_, _, _, rfl⟩, Nat.le_succ _,
        .inr ⟨Nat.succ_pos _, f, .head _, hkind, hpayload⟩, fun _ => rfl, fun _ _ _ _ _ => rfl⟩
      rw [hgiven, append_nil]
  · next hkind =>
    have hnode : (if f.from_ = p.id me.far then
        { n with took := update n.took c.link (n.took c.link ++ [f]), received := n.received ++ [f] }
        else { n with took := update n.took c.link (n.took c.link ++ [f]) }) =
        { n with
          took := update n.took c.link (n.took c.link ++ [f]), received := n.received ++ given p me [f] } := by
      split
      · next hfrom => rw [given, filter_cons, if_pos (by simp [hkind, hfrom]), filter_nil]
      · next hfrom => rw [given, filter_cons, if_neg (by simp [hfrom]), filter_nil, append_nil]
    have hconn : ∃ bearing, (if f.kind = data ∧ c.identified = true then { c with appDataReceived := true } else c) =
        { c with appDataReceived := bearing } := by
      split
      · exact ⟨_, rfl⟩
      · exact ⟨_, rfl⟩
    obtain ⟨bearing, hconn⟩ := hconn
    rw [hnode, hconn]
    refine ⟨⟨_, rfl⟩, ⟨_, _, _, rfl⟩, Nat.le_refl _, .inl ⟨rfl, rfl⟩, id, fun _ _ _ flags hmem => ?_⟩
    cases mem_singleton.mp hmem
    exact absurd rfl hkind

theorem Noted.append {fs gs : List MessageFrame} {n'' : Node} {c'' : Conn} (h : Noted p me n c fs n' c')
    (h' : Noted p me n' c' gs n'' c'') : Noted p me n c (fs ++ gs) n'' c'' := by
  obtain ⟨posted, hn⟩ := h.node
  obtain ⟨posted', hn'⟩ := h'.node
  obtain ⟨flags, received, bearing, hc⟩ := h.conn
  obtain ⟨flags', received', bearing', hc'⟩ := h'.conn
  have hlink : c'.link = c.link := by rw [hc]
  refine ⟨⟨posted', ?_⟩, ⟨flags', received', bearing', ?_⟩, h.posted.trans h'.posted, ?_,
    fun hr => h'.kept (h.kept hr), ?_⟩
  · rw [hn', hlink, hn]
    dsimp only
    rw [update_idem, update_self, append_assoc, append_assoc]
    congr 1
    rw [given, given, given, filter_append]
  · rw [hc', hc]
  · obtain ⟨hflags', hreceived'⟩ | ⟨hposted, f, hf, hkind, hpayload⟩ := h'.flags
    · obtain ⟨hflags, hreceived⟩ | ⟨hposted, f, hf, hkind, hpayload⟩ := h.flags
      · exact .inl ⟨hflags'.trans hflags, hreceived'.trans hreceived⟩
      · exact .inr ⟨Nat.lt_of_lt_of_le hposted h'.posted, f, mem_append_left _ hf, hkind, hflags' ▸ hpayload⟩
    · exact .inr ⟨hposted, f, mem_append_right _ hf, hkind, hpayload⟩
  · intro hself hidentified hcapable flags hmem
    obtain hmem | hmem := mem_append.mp hmem
    · exact h'.kept (h.heard hself hidentified hcapable flags hmem)
    · refine h'.heard ?_ ?_ ?_ flags hmem
      · rw [hc]
        exact hself
      · rw [hc]
        exact hidentified
      · rw [hc]
        exact hcapable

theorem onFrames_noted (p : Pair) (me : Side) (n : Node) (c : Conn) (frames : List MessageFrame) :
    Noted p me n c frames (frames.foldl (onFrame p me) (n, c)).1 (frames.foldl (onFrame p me) (n, c)).2 := by
  induction frames generalizing n c with
  | nil =>
    refine ⟨⟨n.posted, ?_⟩, ⟨_, _, _, rfl⟩, Nat.le_refl _, .inl ⟨rfl, rfl⟩, id, fun _ _ _ flags hmem => by cases hmem⟩
    change n = _
    simp [given]
  | cons f frames ih => exact (onFrame_noted n c f).append (ih _ _)

theorem Links.fits (h : Links p me.far far l) : ∀ f ∈ far.put l, Fits (frameCap p me) f := by
  have happ : ∀ f, App p me.far f → Fits (frameCap p me) f := fun f hf => by
    have hfits := hf.2
    rwa [Side.far_far] at hfits
  intro f hf
  by_cases hdialer : l.dialer = me.far
  · exact happ f ((h.mine hdialer).1 f hf)
  · obtain hempty | ⟨flags, fs, hput, hfs, -⟩ := h.theirs hdialer
    · rw [hempty] at hf
      cases hf
    · rw [hput] at hf
      obtain rfl | hf := mem_cons.mp hf
      · exact hintFrame_fits p me.far me flags
      · exact happ f (hfs f hf)

/-- Between two hellos nothing else is a hint than what the acceptor begins with. -/
theorem Links.hint_of_dialHint (h : Links p me.far far l) (hdialer : l.dialer = me) {f : MessageFrame}
    (hf : f ∈ far.put l)
    (hkind : f.kind = FrameKind.dialHint) :
    ∃ flags fs, far.put l = hintFrame p me.far flags :: fs ∧ f = hintFrame p me.far flags ∧
    (fs ≠ [] → confirms flags = true) := by
  have hne : l.dialer ≠ me.far := hdialer ▸ me.ne_far
  obtain hempty | ⟨flags, fs, hput, hfs, hconfirms⟩ := h.theirs hne
  · rw [hempty] at hf
    cases hf
  · rw [hput] at hf
    obtain rfl | hf := mem_cons.mp hf
    · exact ⟨flags, fs, hput, rfl, hconfirms⟩
    · exact absurd hkind (hfs f hf).1

theorem Reads.feed (h : Reads p me far n c) (hread : c.peerHelloRead = true) (hlinks : Links p me.far far c.link)
    (htook : n.took c.link <+: far.put c.link) (hbytes : bytes <+: (far.wrote c.link).drop (n.read c.link)) :
    n.took c.link ++ (c.input.feed bytes).1 <+: far.put c.link ∧
      n.read c.link + bytes.length ≤ (far.wrote c.link).length ∧
      ((c.input.feed bytes).2.1 = none →
        (far.wrote c.link).take (n.read c.link + bytes.length) = buildHello (p.id me.far) ++
            ((n.took c.link ++ (c.input.feed bytes).1).flatMap encodeFrame ++ (c.input.feed bytes).2.2.buf) ∧
          takeFrame c.input.maxBody (c.input.feed bytes).2.2.buf = .wait) := by
  obtain ⟨rest, hrest⟩ := htook
  obtain ⟨hstream, -⟩ := h.frames hread
  have hlen : n.read c.link + bytes.length ≤ (far.wrote c.link).length := by
    have hle := hbytes.length_le
    have hread := h.read
    rw [length_drop] at hle
    omega
  have htake : (far.wrote c.link).take (n.read c.link + bytes.length) =
      buildHello (p.id me.far) ++ ((n.took c.link).flatMap encodeFrame ++ (c.input.buf ++ bytes)) := by
    rw [take_add, hstream, ← prefix_iff_eq_take.mp hbytes, append_assoc, append_assoc]
  have hpart : c.input.buf ++ bytes <+: rest.flatMap encodeFrame := by
    have hfront := (List.take_prefix (n.read c.link + bytes.length) (far.wrote c.link)).trans hlinks.wrote
    rw [htake, ← hrest, flatMap_append] at hfront
    exact (prefix_append_right_inj _).mp ((prefix_append_right_inj _).mp hfront)
  have hfits : ∀ f ∈ rest, Fits c.input.maxBody f := fun f hf => by
    rw [h.cap]
    exact hlinks.fits f (hrest ▸ mem_append_right _ hf)
  obtain ⟨hframes, hbuf⟩ := drain_frames hfits hpart
  refine ⟨?_, hlen, fun hnone => ?_⟩
  · rw [← hrest]
    exact (prefix_append_right_inj _).mpr hframes
  · have hnone : ((framer c.input.maxBody).drain (c.input.buf ++ bytes)).2.1 = none := hnone
    have hleft : (c.input.feed bytes).2.2.buf = ((framer c.input.maxBody).drain (c.input.buf ++ bytes)).2.2 := by
      unfold FrameStream.feed
      dsimp only
      rw [hnone]
      rfl
    refine ⟨?_, ?_⟩
    · rw [htake, hleft, flatMap_append, append_assoc]
      congr 2
      exact hbuf hnone
    · rw [hleft]
      exact Framer.step_rest (F := framer c.input.maxBody) hnone

section

variable {read : LinkId → Nat} {took : LinkId → List MessageFrame} {received : List MessageFrame} {posted : Nat}
  {helloIn : List UInt8} {input : FrameStream} {hintFlags : UInt8} {hintReceived appDataReceived : Bool}

theorem Node.Sealed.fed (h : n.Sealed l) (htook : n.took l <+: took l) :
    Sealed { n with read, took, received, posted } l :=
  h.imp_left fun ⟨f, hf, hflags⟩ => ⟨f, htook.subset hf, hflags⟩

theorem Links.fed (h : Links p me n l) (htook : n.took l <+: took l) (hknown : ¬ n.Fresh me l) :
    Links p me { n with read, took, received, posted } l :=
  ⟨h.wrote, fun hm => ⟨(h.mine hm).1, fun hne => ((h.mine hm).2 hne).fed htook⟩, h.theirs, fun hf => absurd hf hknown⟩

theorem Open.fed (h : Open p me n c) (htook : n.took c.link <+: took c.link)
    (hhinted : c.link.dialer = me → hintReceived = true →
      ∃ f ∈ took c.link, f.kind = FrameKind.dialHint ∧ f.payload = [hintFlags])
    (hheard : c.link.dialer = me → ∀ f ∈ took c.link, f.kind = FrameKind.dialHint → hintReceived = true) :
    Open p me { n with read, took, received, posted }
    { c with helloIn, input, hintFlags, hintReceived, appDataReceived } :=
  ⟨⟨h.stream, ⟨h.cursors.hello, h.cursors.hint, h.cursors.out⟩, h.out, h.known⟩, h.identified, h.role,
    h.inbound, h.noHint, h.silent, fun hm hc => (h.isSealed hm hc).fed htook, hhinted, hheard, h.capable⟩

theorem Waiting.fed (h : Waiting p me n c) :
    Waiting p me { n with read, took, received, posted }
    { c with helloIn, input, hintFlags, hintReceived, appDataReceived } :=
  ⟨⟨h.stream, ⟨h.cursors.hello, h.cursors.hint, h.cursors.out⟩, h.out, h.known⟩, h.theirs, h.accepted,
    h.unconfirmed, h.isOpen, h.unread, h.rejected⟩

theorem Holds.fed (h : Holds p me far (· = l) n) (hread : ∀ i, i ≠ l → read i = n.read i)
    (htook : ∀ i, i ≠ l → took i = n.took i) (hgrow : n.took l <+: took l) (hput : took l <+: far.put l)
    (hknown : ¬ n.Fresh me l) (hposted : n.posted ≤ posted) :
    Holds p me far (· = l) { n with read, took, received, posted } := by
  refine h.transfer rfl rfl (fun i hi => ⟨rfl, rfl, hread i hi, htook i hi, id, id⟩) (fun _ _ _ => id)
    (fun i hi => ?_)
    (fun i hi => ?_) h.queue h.lanes hposted
  · subst hi
    exact (h.links i).fed hgrow hknown
  · subst hi
    exact hput

end

theorem feed_inv (hn : Holds p me far (· = c.link) n) (hh : Held p me far n c) (hread : c.peerHelloRead = true)
    (hlinks : Links p me.far far c.link) (hbytes : bytes <+: (far.wrote c.link).drop (n.read c.link)) :
    Inv p me far (n.feed p me now c bytes) := by
  have htook := hn.took c.link
  obtain ⟨hput, hlen, hrest⟩ := hh.reads.feed hread hlinks htook hbytes
  unfold feed
  generalize hfeed : c.input.feed bytes = r at hput hrest
  obtain ⟨frames, stop, input⟩ := r
  have hmax : input.maxBody = c.input.maxBody := by
    have hinput : input = (c.input.feed bytes).2.2 := by rw [hfeed]
    rw [hinput]
    rfl
  have hnoted := onFrames_noted p me (n.receive c.link bytes.length) { c with input } frames
  dsimp only at hput hrest ⊢
  generalize frames.foldl (onFrame p me) (n.receive c.link bytes.length, { c with input }) = nc at hnoted ⊢
  obtain ⟨n₂, c₂⟩ := nc
  obtain ⟨posted, hn₂⟩ := hnoted.node
  obtain ⟨hintFlags, hintReceived, bearing, hc₂⟩ := hnoted.conn
  have hposted := hnoted.posted
  have hflags := hnoted.flags
  have hkept := hnoted.kept
  have hheard := hnoted.heard
  dsimp only at hn₂ hc₂ hposted hflags hkept hheard ⊢
  subst hn₂ hc₂
  dsimp only [receive] at hposted hflags hkept hheard ⊢
  have hgrow : n.took c.link <+: update n.took c.link (n.took c.link ++ frames) c.link := by
    rw [update_self]
    exact prefix_append ..
  have hholds : Holds p me far (· = c.link) { n with
      read := update n.read c.link (n.read c.link + bytes.length)
      took := update n.took c.link (n.took c.link ++ frames)
      received := n.received ++ given p me frames, posted } := by
    refine hn.fed (fun i hi => update_of_ne hi ..) (fun i hi => update_of_ne hi ..) hgrow ?_ hh.writes.known
      hposted
    rw [update_self]
    exact hput
  split
  · apply handleDead_inv
    · exact hholds
    · have hw := hh.writes
      exact ⟨hw.stream, ⟨hw.cursors.hello, hw.cursors.hint, hw.cursors.out⟩, hw.out, hw.known⟩
    · exact hh.role
    · exact hmax.trans hh.reads.cap
  · next hstop =>
    obtain ⟨hstream, hwait⟩ := hrest (by simpa using hstop)
    have hreads : Reads p me far { n with
        read := update n.read c.link (n.read c.link + bytes.length)
        took := update n.took c.link (n.took c.link ++ frames)
        received := n.received ++ given p me frames, posted }
        { c with input, hintFlags, hintReceived, appDataReceived := bearing } := by
      refine ⟨?_, hmax.trans hh.reads.cap, fun hr => ?_, fun _ => ⟨?_, ?_⟩⟩
      · dsimp only
        rw [update_self]
        exact hlen
      · rw [show c.peerHelloRead = false from hr] at hread
        cases hread
      · dsimp only
        rw [update_self, update_self]
        exact hstream
      · change takeFrame input.maxBody input.buf = .wait
        rw [hmax]
        exact hwait
    apply Held.store
    · cases hh with
      | conn hreg hlive hopen _ hdue =>
        refine .conn hreg hlive (hopen.fed hgrow (fun hm hr => ?_) fun hm f hf hkind => ?_) hreads fun hr hun hc => ?_
        · rw [update_self]
          obtain ⟨hsame, hsame'⟩ | ⟨-, f, hf, hkind, hpayload⟩ := hflags
          · obtain ⟨f, hf, hkind, hpayload⟩ := hopen.hinted hm (hsame' ▸ hr)
            exact ⟨f, mem_append_left _ hf, hkind, hsame ▸ hpayload⟩
          · exact ⟨f, mem_append_right _ hf, hkind, hpayload⟩
        · rw [update_self] at hf
          obtain hf | hf := mem_append.mp hf
          · exact hkept (hopen.heard hm f hf hkind)
          · obtain ⟨flags, -, -, rfl, -⟩ :=
              hlinks.hint_of_dialHint hm (hput.subset (mem_append_right _ hf)) hkind
            exact hheard (hopen.role.mpr hm) hopen.identified (hopen.capable hread) flags hf
        · obtain ⟨hsame, hsame'⟩ | ⟨hpos, -⟩ := hflags
          · exact Nat.lt_of_lt_of_le (hdue (hsame' ▸ hr) hun (hsame ▸ hc)) hposted
          · exact hpos
      | pending hreg hpend hwaiting _ => exact .pending hreg hpend hwaiting.fed hreads
    · exact hholds

def Conn.helloPart (c : Conn) (bytes : List UInt8) : List UInt8 := bytes.take (helloSize - c.helloIn.length)

def Conn.withHello (c : Conn) (bytes : List UInt8) : Conn := { c with helloIn := c.helloIn ++ c.helloPart bytes }

def Conn.greeted (c : Conn) (bytes : List UInt8) : Conn :=
  { c.withHello bytes with peerHelloRead := true, peerHelloVersion := 2 }

theorem Reads.helloPart (h : Reads p me far n c) (hread : c.peerHelloRead = false)
    (hlinks : Links p me.far far c.link)
    (hbytes : bytes <+: (far.wrote c.link).drop (n.read c.link)) :
    n.read c.link + (c.helloPart bytes).length ≤ (far.wrote c.link).length ∧
      (c.withHello bytes).helloIn = (far.wrote c.link).take (n.read c.link + (c.helloPart bytes).length) ∧
      (c.withHello bytes).helloIn.length = n.read c.link + (c.helloPart bytes).length ∧
      (helloSize ≤ (c.withHello bytes).helloIn.length → (c.withHello bytes).helloIn = buildHello (p.id me.far) ∧
        n.read c.link + (c.helloPart bytes).length = helloSize ∧
        bytes.drop (helloSize - c.helloIn.length) <+: (far.wrote c.link).drop helloSize) := by
  obtain ⟨hin, hshort, -, -⟩ := h.hello hread
  have hle := h.read
  have hinlen : c.helloIn.length = n.read c.link := by
    rw [hin, length_take]
    omega
  have hlen := hbytes.length_le
  rw [length_drop] at hlen
  have hpart : (c.helloPart bytes).length = min (helloSize - n.read c.link) bytes.length := by
    rw [Conn.helloPart, length_take, hinlen]
  have hpre : c.helloPart bytes <+: (far.wrote c.link).drop (n.read c.link) := (List.take_prefix _ _).trans hbytes
  have hnow : (c.withHello bytes).helloIn = (far.wrote c.link).take (n.read c.link + (c.helloPart bytes).length) := by
    change c.helloIn ++ c.helloPart bytes = _
    rw [take_add, ← hin, ← prefix_iff_eq_take.mp hpre]
  have hnowlen : (c.withHello bytes).helloIn.length = n.read c.link + (c.helloPart bytes).length := by
    change (c.helloIn ++ c.helloPart bytes).length = _
    rw [length_append, hinlen]
  refine ⟨by omega, hnow, hnowlen, fun hwhole => ?_⟩
  have hsum : n.read c.link + (c.helloPart bytes).length = helloSize := by omega
  have hlong : helloSize ≤ (far.wrote c.link).length := by omega
  refine ⟨?_, hsum, ?_⟩
  · have htake : (far.wrote c.link).take helloSize <+: buildHello (p.id me.far) := by
      refine prefix_of_prefix_length_le ((List.take_prefix ..).trans hlinks.wrote) (prefix_append ..) ?_
      rw [length_take, buildHello_length]
      omega
    rw [hnow, hsum]
    refine htake.eq_of_length ?_
    rw [length_take, buildHello_length]
    omega
  · obtain ⟨tail, htail⟩ := hbytes
    have hcut : helloSize - c.helloIn.length ≤ bytes.length := by omega
    refine ⟨tail, ?_⟩
    have hsplit : (far.wrote c.link).drop helloSize = ((far.wrote c.link).drop (n.read c.link)).drop
        (helloSize - n.read c.link) := by
      rw [drop_drop]
      congr 1
      omega
    rw [hsplit, ← htail, hinlen, drop_append_of_le_length (by omega)]

theorem doRead_eq {admitted : Bool} {s₁ s₂ : List SendResult} (h : Reads p me far n c)
    (hlinks : Links p me.far far c.link)
    (hbytes : bytes <+: (far.wrote c.link).drop (n.read c.link)) :
    n.doRead p me now admitted s₁ s₂ c bytes =
      if c.peerHelloRead then n.feed p me now c bytes
      else if (c.withHello bytes).helloIn.length < helloSize then
        (n.receive c.link (c.helloPart bytes).length).store (c.withHello bytes)
      else
        let r := (n.receive c.link (c.helloPart bytes).length).registerIdentified p me now admitted s₁ s₂
          (c.greeted bytes) 2
        let rest := bytes.drop (helloSize - c.helloIn.length)
        if r.2 then r.1.conn.elim r.1 fun c => r.1.feed p me now c rest else r.1.receive c.link rest.length := by
  unfold doRead
  split
  · rfl
  · next hread =>
    have hread : c.peerHelloRead = false := Bool.eq_false_iff.mpr hread
    obtain ⟨-, -, -, hwhole⟩ := h.helloPart hread hlinks hbytes
    by_cases hshort : (c.withHello bytes).helloIn.length < helloSize
    · rw [if_pos hshort]
      exact if_pos hshort
    · rw [if_neg hshort]
      refine (if_neg hshort).trans ?_
      have hcheck : checkHello (c.helloIn ++ bytes.take (helloSize - c.helloIn.length)) = some (p.id me.far, 2) := by
        rw [← checkHello_buildHello, ← (hwhole (Nat.le_of_not_lt hshort)).1]
        rfl
      rw [hcheck]
      dsimp only
      rw [if_neg (fun h => h rfl)]
      rfl

theorem elect_survives {script : List SendResult} {accepted aged : Bool}
    (h : (n.elect p me now script c accepted aged).2 = true) :
    (n.elect p me now script c accepted aged).1.registered c.link = true := by
  unfold elect at h ⊢
  cases he : n.conn with
  | none =>
    rw [he] at h
    exact h
  | some e =>
    rw [he] at h
    dsimp only at h ⊢
    split at h
    · cases h
    · next haccepted =>
      rw [if_neg haccepted]
      exact h

theorem registerIdentified_survives (p : Pair) (me : Side) (now : Nat) (n : Node) (admitted : Bool)
    (s₁ s₂ : List SendResult) (c : Conn) (ver : UInt16) (hc : c.Cursors)
    (hcap : Conn.hintCapable { c with identified := true, peerHelloVersion := ver } = true) :
    ((n.registerIdentified p me now admitted s₁ s₂ c ver).2 = true →
        (n.registerIdentified p me now admitted s₁ s₂ c ver).1.registered c.link = true) ∧
      (c.initiatedBySelf = true → (n.registerIdentified p me now admitted s₁ s₂ c ver).2 =
        (n.registerIdentified p me now admitted s₁ s₂ c ver).1.registered c.link) := by
  unfold registerIdentified
  split
  · next hinbound =>
    refine ⟨fun h => (by cases h), fun hself => ?_⟩
    rw [hself] at hinbound
    cases hinbound
  · dsimp only
    split
    · exact ⟨fun h => h, fun _ => rfl⟩
    · next hself =>
      refine ⟨fun h => ?_, fun h => absurd h hself⟩
      rw [electInbound_eq hcap] at h ⊢
      dsimp only at h ⊢
      split at h
      · cases h
      · next hdead =>
        rw [if_neg hdead]
        have hlink := queueDialHint_link p me n.dropHusk s₁
            (c := { c with identified := true, peerHelloVersion := ver })
          ⟨hc.hello, hc.hint, hc.out⟩ (n.answer p me now)
        have hsurvives := elect_survives h
        rw [hlink] at hsurvives
        exact hsurvives

theorem Holds.hand (h : Inv p me far n) (l : LinkId) : Holds p me far (· = l) n := h.weaken fun _ hf => hf.elim

theorem hello_holds (hn : Holds p me far (· = l) n) (hknown : ¬ n.Fresh me l) (count : Nat) :
    Holds p me far (· = l) (n.receive l count) :=
  hn.fed (fun _ hi => update_of_ne hi ..) (fun _ _ => rfl) (prefix_refl _) (hn.took _) hknown (Nat.le_refl _)

theorem hello_held (hh : Held p me far n c) (hread : c.peerHelloRead = false) (hlinks : Links p me.far far c.link)
    (hbytes : bytes <+: (far.wrote c.link).drop (n.read c.link))
    (hshort : (c.withHello bytes).helloIn.length < helloSize) :
    Held p me far (n.receive c.link (c.helloPart bytes).length) (c.withHello bytes) := by
  obtain ⟨-, -, htook, hbuf⟩ := hh.reads.hello hread
  obtain ⟨hle, hnow, hlen, -⟩ := hh.reads.helloPart hread hlinks hbytes
  have hcount : (n.receive c.link (c.helloPart bytes).length).read c.link =
      n.read c.link + (c.helloPart bytes).length :=
    update_self ..
  have hreads : Reads p me far (n.receive c.link (c.helloPart bytes).length) (c.withHello bytes) := by
    refine ⟨?_, hh.reads.cap, fun _ => ⟨?_, ?_, htook, hbuf⟩, fun hr => ?_⟩
    · exact hcount ▸ hle
    · exact hcount ▸ hnow
    · exact hcount ▸ hlen ▸ hshort
    · rw [show c.peerHelloRead = true from hr] at hread
      cases hread
  cases hh with
  | conn hreg hlive hopen _ hdue =>
    exact .conn hreg hlive (hopen.fed (prefix_refl _) hopen.hinted hopen.heard) hreads hdue
  | pending hreg hpend hwait _ => exact .pending hreg hpend hwait.fed hreads

theorem greeted_reads (hr : Reads p me far n c) (hread : c.peerHelloRead = false) (hlinks : Links p me.far far c.link)
    (hbytes : bytes <+: (far.wrote c.link).drop (n.read c.link))
    (hlong : helloSize ≤ (c.withHello bytes).helloIn.length) :
    Reads p me far (n.receive c.link (c.helloPart bytes).length) (c.greeted bytes) ∧
      (n.receive c.link (c.helloPart bytes).length).read c.link = helloSize := by
  obtain ⟨-, -, htook, hbuf⟩ := hr.hello hread
  obtain ⟨hle, hnow, -, hwhole⟩ := hr.helloPart hread hlinks hbytes
  obtain ⟨hhello, hsum, -⟩ := hwhole hlong
  have hcount : (n.receive c.link (c.helloPart bytes).length).read c.link = helloSize := (update_self ..).trans hsum
  refine ⟨⟨?_, hr.cap, fun h => (by cases h), fun _ => ⟨?_, ?_⟩⟩, hcount⟩
  · exact hcount ▸ hsum ▸ hle
  · change (far.wrote c.link).take ((n.receive c.link (c.helloPart bytes).length).read c.link) =
      buildHello (p.id me.far) ++ ((n.took c.link).flatMap encodeFrame ++ c.input.buf)
    rw [hcount, ← hsum, ← hnow, hhello, htook, hbuf]
    exact (append_nil _).symm
  · change takeFrame c.input.maxBody c.input.buf = .wait
    rw [hbuf]
    exact if_pos (by decide)

theorem Open.dialed (h : Open p me n c) (hread : c.peerHelloRead = false) : c.initiatedBySelf = true := by
  by_contra hself
  have hinbound := (h.inbound fun hm => hself (h.role.mpr hm)).2.1
  rw [hinbound] at hread
  cases hread

theorem greeted_inv {admitted : Bool} {s₁ s₂ : List SendResult} (hn : Holds p me far (· = c.link) n)
    (hh : Held p me far n c)
    (hread : c.peerHelloRead = false) (hlinks : Links p me.far far c.link)
    (hbytes : bytes <+: (far.wrote c.link).drop (n.read c.link))
    (hlong : helloSize ≤ (c.withHello bytes).helloIn.length) :
    Inv p me far ((n.receive c.link (c.helloPart bytes).length).registerIdentified p me now admitted s₁ s₂
      (c.greeted bytes) 2).1 := by
  have hreads := (greeted_reads hh.reads hread hlinks hbytes hlong).1
  have hholds := hello_holds hn hh.writes.known (c.helloPart bytes).length
  cases hh with
  | conn hreg hlive hopen _ _ =>
    have hdialed := hopen.dialed hread
    apply registerIdentified_dialed
    · exact hholds
    · exact hreg
    · exact hlive
    · exact (hopen.fed (prefix_refl _) hopen.hinted hopen.heard).greeted (by decide)
    · exact hreads
    · exact hdialed
    · rfl
    · rfl
  | pending hreg hpend hwait _ =>
    have hidentified : c.identified = false := by
      by_contra hi
      have hhello := (hwait.rejected (Bool.not_eq_false _ ▸ hi)).1
      rw [hhello] at hread
      cases hread
    obtain ⟨-, hhint, hput⟩ := hwait.unread hidentified
    apply registerIdentified_accepted
    · exact hholds
    · exact ⟨⟨hwait.stream, ⟨hwait.cursors.hello, hwait.cursors.hint, hwait.cursors.out⟩, hwait.out,
        hwait.known⟩, hwait.theirs, hwait.accepted, hwait.unconfirmed, hwait.isOpen, rfl, rfl, rfl,
        ⟨hreads.read, hreads.cap, hreads.hello, hreads.frames⟩, hreg⟩
    · exact hhint
    · exact hput
    · exact hpend

theorem Held.inHand (hh : Held p me far n c) (hn : Holds p me far (· = c.link) n) : InHand n c := by
  refine ⟨hh.writes.cursors, hn.of_registered, fun hr => ?_, ?_⟩
  · cases hh with
    | conn hreg => exact absurd hreg (by rw [hr]; exact Bool.noConfusion)
    | pending _ _ hwait =>
      by_contra hne
      obtain ⟨f, hf⟩ := Option.ne_none_iff_exists'.mp hne
      have hun := hwait.unconfirmed
      rw [(hwait.out f hf).2] at hun
      cases hun
  · cases hh with
    | conn _ hlive => exact hlive
    | pending _ _ hwait =>
      rw [hwait.isOpen]
      exact St.noConfusion

theorem Held.place (hh : Held p me far n c) (hread : c.peerHelloRead = false) :
    if c.initiatedBySelf then n.registered c.link = true else n.registered c.link = false ∧
    n.pending c.link = true := by
  cases hh with
  | conn hreg _ hopen => rwa [if_pos (hopen.dialed hread)]
  | pending hreg hpend hwait =>
    rw [hwait.accepted]
    exact ⟨hreg, hpend⟩

theorem Holds.cursors (h : Inv p me far n) {e : Conn} (he : n.conn = some e) : e.Cursors := by
  by_cases hst : e.st = .backoff
  · have hhusk := (h.husk e he hst)
    refine ⟨?_, ?_, .inl ⟨hhusk.out, hhusk.outSent⟩⟩
    · rw [hhusk.helloSent]
      exact Nat.zero_le _
    · rw [hhusk.hintSent]
      exact Nat.zero_le _
  · exact (h.conn e he hst id).1.cursors

theorem greeted_moves {admitted : Bool} {s₁ s₂ : List SendResult} (hk : k ≠ FrameKind.dialHint) (h : Inv p me far n)
    (hh : Held p me far n c) (hread : c.peerHelloRead = false) :
    Moves me k (n.receive c.link (c.helloPart bytes).length) (n.stock c)
      ((n.receive c.link (c.helloPart bytes).length).registerIdentified p me now admitted s₁ s₂ (c.greeted bytes) 2).1
      ((n.receive c.link (c.helloPart bytes).length).registerIdentified p me now admitted s₁ s₂
      (c.greeted bytes) 2).1.backlog := by
  have hhand := hh.inHand (h.hand c.link)
  refine (registerIdentified_moves (c := c.greeted bytes) hk ?_ ?_ ?_ ?_ ?_ ?_).of_eq rfl
  · exact ⟨⟨hhand.cursors.hello, hhand.cursors.hint, hhand.cursors.out⟩, hhand.registered, hhand.pending, hhand.live⟩
  · rfl
  · intro hr
    cases hh with
    | conn hreg =>
      rw [show n.registered c.link = false from hr] at hreg
      cases hreg
    | pending _ _ hwait => exact hwait.unconfirmed
  · exact hh.place hread
  · exact fun e he => h.cursors he
  · exact fun e he hst => (h.husk e he hst).out

theorem Holds.survivor (h : Inv p me far n) (hreg : n.registered l = true) (hcount : n.read l = helloSize) :
    ∃ e, n.conn = some e ∧ e.link = l ∧ Held p me far n e ∧ e.peerHelloRead = true := by
  obtain ⟨e, he, hlink, hlive⟩ := registered_iff.mp hreg
  obtain ⟨hopen, hreads, hdue⟩ := h.conn e he hlive id
  refine ⟨e, he, hlink, .conn (hlink ▸ hreg) hlive hopen hreads hdue, ?_⟩
  by_contra hun
  have hshort := (hreads.hello (Bool.eq_false_iff.mpr hun)).2.1
  rw [hlink, hcount] at hshort
  exact Nat.lt_irrefl _ hshort

theorem receive_zero (n : Node) (l : LinkId) : n.receive l 0 = n := by
  unfold receive
  rw [Nat.add_zero, update_eq_self]

theorem receive_inv (h : Inv p me far n) (hreg : n.registered l = false) (hpend : n.pending l = false)
    (hknown : ¬ n.Fresh me l) (count : Nat) : Inv p me far (n.receive l count) :=
  (hello_holds (h.hand l) hknown count).all
    (fun _ he hlive => ne_of_registered hreg he hlive) (pending_false_iff.mp hpend)

/-- A receive keeps the invariant, where nothing was begun on a connection that is still pending. -/
theorem doRead_inv {admitted : Bool} {s₁ s₂ : List SendResult} (h : Inv p me far n) (hc : n.lookup l = some c)
    (hlinks : Links p me.far far l) (hdry : n.pending l = true → far.put l = [])
    (hbytes : bytes <+: (far.wrote l).drop (n.read l)) : Inv p me far (n.doRead p me now admitted s₁ s₂ c bytes) := by
  obtain ⟨hh, rfl⟩ := h.lookup hc
  have hn := h.hand c.link
  rw [doRead_eq hh.reads hlinks hbytes]
  split
  · next hread => exact feed_inv hn hh hread hlinks hbytes
  · next hread =>
    have hread : c.peerHelloRead = false := Bool.eq_false_iff.mpr hread
    split
    · next hshort => exact (hello_held hh hread hlinks hbytes hshort).store (hello_holds hn hh.writes.known _)
    · next hlong =>
      have hlong := Nat.le_of_not_lt hlong
      obtain ⟨-, -, hlen, hwhole⟩ := hh.reads.helloPart hread hlinks hbytes
      obtain ⟨-, hsum, hrest⟩ := hwhole hlong
      have hinv : Inv p me far ((n.receive c.link (c.helloPart bytes).length).registerIdentified p me
        now admitted s₁ s₂ (c.greeted bytes) 2).1 := greeted_inv hn hh hread hlinks hbytes hlong
      have hmoves : Moves me data (n.receive c.link (c.helloPart bytes).length) (n.stock c)
        ((n.receive c.link (c.helloPart bytes).length).registerIdentified p me now admitted s₁ s₂
        (c.greeted bytes) 2).1 _ :=
        greeted_moves (by decide) h hh hread
      have hcursors := hh.writes.cursors
      obtain ⟨hsurvives, hdialed⟩ :=
        registerIdentified_survives p me now (n.receive c.link (c.helloPart bytes).length) admitted
        s₁ s₂ (c.greeted bytes) 2 ⟨hcursors.hello, hcursors.hint, hcursors.out⟩ rfl
      have hcount := (greeted_reads hh.reads hread hlinks hbytes hlong).2
      dsimp only
      generalize (n.receive c.link (c.helloPart bytes).length).registerIdentified p me now admitted s₁ s₂
        (c.greeted bytes) 2 = r at *
      rw [← hmoves.read] at hcount
      split
      · next hs =>
        obtain ⟨e, he, hlink, hheld, hgreeted⟩ := hinv.survivor (hsurvives hs) hcount
        have hlink : e.link = c.link := hlink
        rw [he, Option.elim_some]
        rw [← hlink] at hlinks hrest hcount
        apply feed_inv (hinv.hand _)
        · exact hheld
        · exact hgreeted
        · exact hlinks
        · rw [hcount]
          exact hrest
      · next hs =>
        cases hh with
        | conn hreg _ hopen =>
          refine receive_inv hinv ?_ ?_ (fun hf => hopen.known (hmoves.fresh hf)) _
          · have hself := hdialed (hopen.dialed hread)
            exact hself.symm.trans (Bool.eq_false_iff.mpr hs)
          · by_contra hp
            have hp := hmoves.pending c.link (Bool.not_eq_false _ ▸ hp)
            have hnot := h.of_registered hreg
            rw [show n.pending c.link = true from hp] at hnot
            cases hnot
        | pending _ hpend _ =>
          -- no byte follows the hello of a dial that has begun nothing
          have hend := hlinks.wrote.length_le
          rw [hdry hpend, flatMap_nil, append_nil, buildHello_length] at hend
          rw [drop_eq_nil_of_le hend] at hrest
          rw [prefix_nil.mp hrest, length_nil, receive_zero]
          exact hinv

end

end Quark.Tcp
