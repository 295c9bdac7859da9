import Quark.SecureTransport

/-! The nonces of a transport without the handshake, where all sessions share one cipher: they are fresh as
long as no peer's counter has reached a number that gives the nonce of another peer, and no session is
erased. -/
namespace Quark.Secure

open Machine State
open Swim (NodeId isClientNode)

/-- What the ordered pair of ids puts into a nonce. -/
def pairHash (src dst : NodeId) : UInt64 := splitmix64 (hashCombine src dst)

def wordLane (w : UInt64) : Lane := if w < 0x8000000000000000 then .data else .control

def wordSeq (w : UInt64) : UInt64 := w &&& 0x7FFFFFFFFFFFFFFF

/-- The session of `peer` has used the number that gives it the nonce of word `w` for `to_`. -/
def PeerSession.reached (se : PeerSession) (self_ to_ peer : NodeId) (w : UInt64) : Bool :=
  let v := pairHash self_ peer ^^^ (pairHash self_ to_ ^^^ w)
  wordSeq v ≠ 0 && wordSeq v ≤ se.sendSeq (wordLane v)

/-- The condition on the step of one call: it seals under a nonce that no other peer's counter has reached,
and as the end of a sweep it erases no session. -/
def Call.fresh (cfg : Config) (s : State) : Call → Bool
  | .frame (.holding to_ f sid) =>
    (s.heap[sid]?).all fun se => s.sessions.entries.all fun e =>
      e.1 = to_ || (s.heap[e.2]?).all fun other =>
        !other.reached cfg.self_ to_ e.1 (nonceWord (laneOf f.kind) (se.sendSeq (laneOf f.kind) + 1))
  | .upkeep (.retiring _ _ clients) => clients.isEmpty
  | _ => true

def Label.fresh (cfg : Config) (s : State) : Label → Bool
  | .go i _ _ => (s.threads[i]?).all fun t => t.call.fresh cfg s
  | _ => true

/-- The nonce of a call of `seal`. -/
def Event.nonce (self_ : NodeId) : Event → Option UInt64
  | .sent to_ f _ _ seq => some (nonceFor self_ to_ (laneOf f.kind) seq)
  | _ => none

def Event.sends (peer : NodeId) (lane : Lane) : Event → Bool
  | .sent to_ f .. => to_ = peer && laneOf f.kind = lane
  | _ => false

def sentCount (log : List Event) (peer : NodeId) (lane : Lane) : Nat := log.countP (Event.sends peer lane)

def nonces (self_ : NodeId) (log : List Event) : List UInt64 := log.filterMap (Event.nonce self_)

/-- A call that knows a session of `to_` knows the one that is open; no handshake is under way. -/
def Call.Known (s : State) : Call → Prop
  | .frame (.looked to_ _ sid) | .frame (.holding to_ _ sid) => s.sessions.lookup to_ = some sid
  | .frame _ => True
  | .handshake (.requesting _) | .handshake (.authenticating _) => True
  | .handshake _ => False
  | .upkeep _ | .done => True

structure Counted (cfg : Config) (s : State) : Prop where
  sessions : ∀ p sid, s.sessions.lookup p = some sid → ∃ se : PeerSession, s.heap[sid]? = some se ∧ se.peer = p ∧
    se.sendCipher = sharedCipher ∧ ∀ lane, se.sendSeq lane = UInt64.ofNat (sentCount s.log p lane)
  calls : ∀ t ∈ s.threads, t.call.Known s
  sent : ∀ to_ f fp cipher seq, .sent to_ f fp cipher seq ∈ s.log → cipher = sharedCipher ∧
    (s.sessions.lookup to_).isSome = true ∧ ∃ n, 0 < n ∧ n ≤ sentCount s.log to_ (laneOf f.kind) ∧
    seq = UInt64.ofNat n
  nodup : (∀ p lane, sentCount s.log p lane < 2 ^ 63) → (nonces cfg.self_ s.log).Nodup

theorem nonceFor_eq (self_ to_ : NodeId) (lane : Lane) (seq : UInt64) :
    nonceFor self_ to_ lane seq = pairHash self_ to_ ^^^ nonceWord lane seq := rfl

section

variable {n m : Nat} {lane lane' : Lane}

theorem toNat_nonceWord (hn : n < 2 ^ 63) :
    (nonceWord lane (UInt64.ofNat n)).toNat = n + lane.index.toNat * 2 ^ 63 := by
  have hmod : n % 2 ^ 64 = n := Nat.mod_eq_of_lt (by omega)
  cases lane with
  | data =>
    rw [nonceWord, Lane.index, UInt64.toNat_or, UInt64.toNat_ofNat', hmod]
    exact Nat.or_zero n
  | control =>
    rw [nonceWord, Lane.index, UInt64.toNat_or, UInt64.toNat_ofNat', hmod, Nat.or_comm]
    change 2 ^ 63 * 1 ||| n = n + 1 * 2 ^ 63
    rw [← Nat.two_pow_add_eq_or_of_lt hn 1]
    omega

theorem wordSeq_nonceWord (hn : n < 2 ^ 63) : wordSeq (nonceWord lane (UInt64.ofNat n)) = UInt64.ofNat n := by
  apply UInt64.toNat.inj
  have hmod : n % 2 ^ 64 = n := Nat.mod_eq_of_lt (by omega)
  rw [wordSeq, UInt64.toNat_and, toNat_nonceWord hn, UInt64.toNat_ofNat', hmod]
  change (n + lane.index.toNat * 2 ^ 63) &&& (2 ^ 63 - 1) = n
  rw [Nat.and_two_pow_sub_one_eq_mod, Nat.add_mul_mod_self_right, Nat.mod_eq_of_lt hn]

theorem wordLane_nonceWord (hn : n < 2 ^ 63) : wordLane (nonceWord lane (UInt64.ofNat n)) = lane := by
  have hword : nonceWord lane (UInt64.ofNat n) < 0x8000000000000000 ↔ n + lane.index.toNat * 2 ^ 63 < 2 ^ 63 := by
    rw [UInt64.lt_iff_toNat_lt, toNat_nonceWord hn]
    exact Iff.rfl
  cases lane with
  | data => exact if_pos (hword.mpr (by rw [Lane.index]; simpa using hn))
  | control => exact if_neg (fun hlt => by have := hword.mp hlt; rw [Lane.index] at this; simp at this)

theorem nonceWord_inj (hn : n < 2 ^ 63) (hm : m < 2 ^ 63)
    (h : nonceWord lane (UInt64.ofNat n) = nonceWord lane' (UInt64.ofNat m)) : lane = lane' ∧ n = m := by
  have hlane := congrArg wordLane h
  have hseq := congrArg (fun w => (wordSeq w).toNat) h
  rw [wordLane_nonceWord hn, wordLane_nonceWord hm] at hlane
  rw [wordSeq_nonceWord hn, wordSeq_nonceWord hm, UInt64.toNat_ofNat', UInt64.toNat_ofNat'] at hseq
  exact ⟨hlane, by omega⟩

end

section

variable {cfg : Config} {s s' u : State} {i : Nat} {t : Thread} {call : Call} {new : List Event} {e : Event}
  {sid : SessionId}
  {p peer to_ : NodeId} {lane : Lane} {log : List Event}

theorem Counted.start (cfg : Config) : Counted cfg {} where
  sessions _ _ hlookup := by cases hlookup
  calls _ ht := by cases ht
  sent _ _ _ _ _ hmem := by cases hmem
  nodup _ := List.nodup_nil

def Event.seals : Event → Bool
  | .sent .. => true
  | _ => false

theorem sentCount_silent (hnew : ∀ e ∈ new, e.seals = false) : sentCount
    (log ++ new) p lane = sentCount log p lane := by
  have hzero : new.countP (Event.sends p lane) = 0 := by
    refine List.countP_eq_zero.mpr fun e he => ?_
    have hsilent := hnew e he
    cases e with
    | sent => cases hsilent
    | delivered | authenticate | installed | dialed | identified | rejected | reset | closed | supplied | swept
    | publishing | published => exact Bool.false_ne_true
  rw [sentCount, List.countP_append, hzero]
  rfl

theorem nonces_silent {self_ : NodeId} (hnew : ∀ e ∈ new, e.seals = false) :
    nonces self_ (log ++ new) = nonces self_ log := by
  have hnil : new.filterMap (Event.nonce self_) = [] := by
    refine List.filterMap_eq_nil_iff.mpr fun e he => ?_
    have hsilent := hnew e he
    cases e with
    | sent => cases hsilent
    | delivered | authenticate | installed | dialed | identified | rejected | reset | closed | supplied | swept
    | publishing | published => rfl
  rw [nonces, List.filterMap_append, hnil, List.append_nil]
  rfl

theorem Call.Known.of_sessions (h : call.Known s) (hsessions : u.sessions = s.sessions) : call.Known u := by
  rcases call with f | k | _ | _
  · cases f with
    | looked | holding =>
      rw [Call.Known, hsessions]
      exact h
    | sending | receiving | opening | handing => trivial
  · cases k with
    | requesting | authenticating => trivial
    | starting | opener | admitted | reserved | driving | anonymous | completed | installing | swapping | creating
    | binding | replying | failed | erasing => cases h
  · trivial
  · trivial

theorem Counted.next (h : Counted cfg s) (hsessions : u.sessions = s.sessions)
    (hheap : ∀ (sid : SessionId) (se : PeerSession), s.heap[sid]? = some se → ∃ se' : PeerSession,
      u.heap[sid]? = some se' ∧ se'.peer = se.peer ∧ se'.sendCipher = se.sendCipher ∧ se'.sendSeq = se.sendSeq)
    (hlog : u.log = s.log ++ new) (hnew : ∀ e ∈ new, e.seals = false)
    (hcalls : ∀ t ∈ u.threads, t ∈ s.threads ∨ t.call.Known u) : Counted cfg u where
  sessions p sid hlookup := by
    obtain ⟨se, hse, hpeer, hcipher, hseq⟩ := h.sessions p sid (hsessions ▸ hlookup)
    obtain ⟨se', hse', hpeer', hcipher', hseq'⟩ := hheap sid se hse
    refine ⟨se', hse', hpeer'.trans hpeer, hcipher'.trans hcipher, fun lane => ?_⟩
    rw [hseq', hlog, sentCount_silent hnew]
    exact hseq lane
  calls t ht := (hcalls t ht).elim (fun hold => (h.calls t hold).of_sessions hsessions) id
  sent to_ f fp cipher seq hmem := by
    rw [hlog] at hmem
    rcases List.mem_append.mp hmem with hold | hin
    · rw [hsessions, hlog, sentCount_silent hnew]
      exact h.sent to_ f fp cipher seq hold
    · cases hnew _ hin
  nodup hfew := by
    rw [hlog, nonces_silent hnew]
    refine h.nodup fun p lane => ?_
    have hless := hfew p lane
    rw [hlog, sentCount_silent hnew] at hless
    exact hless

theorem heap_same : ∀ (sid : SessionId) (se : PeerSession), s.heap[sid]? = some se → ∃ se' : PeerSession,
    s.heap[sid]? = some se' ∧ se'.peer = se.peer ∧ se'.sendCipher = se.sendCipher ∧ se'.sendSeq = se.sendSeq :=
  fun _ se hse => ⟨se, hse, rfl, rfl, rfl⟩

theorem heap_setSession {se se' : PeerSession} (hse : s.heap[sid]? = some se) (hpeer : se'.peer = se.peer)
    (hcipher : se'.sendCipher = se.sendCipher) (hseq : se'.sendSeq = se.sendSeq) :
    ∀ (sid' : SessionId) (se₁ : PeerSession), s.heap[sid']? = some se₁ → ∃ se₂ : PeerSession,
      (s.setSession sid se').heap[sid']? = some se₂ ∧ se₂.peer = se₁.peer ∧ se₂.sendCipher = se₁.sendCipher ∧
        se₂.sendSeq = se₁.sendSeq := by
  intro sid' se₁ hse₁
  by_cases hsid : sid = sid'
  · subst hsid
    rw [hse] at hse₁
    cases hse₁
    exact ⟨se', List.getElem?_set_self (List.getElem?_eq_some_iff.mp hse).1, hpeer, hcipher, hseq⟩
  · exact ⟨se₁, (List.getElem?_set_ne hsid).trans hse₁, rfl, rfl, rfl⟩

theorem Counted.goto (h : Counted cfg s) (hsessions : u.sessions = s.sessions)
    (hheap : ∀ (sid : SessionId) (se : PeerSession), s.heap[sid]? = some se → ∃ se' : PeerSession,
      u.heap[sid]? = some se' ∧ se'.peer = se.peer ∧ se'.sendCipher = se.sendCipher ∧ se'.sendSeq = se.sendSeq)
    (hlog : u.log = s.log ++ new) (hnew : ∀ e ∈ new, e.seals = false) (hthreads : u.threads = s.threads)
    (hcall : call.Known u) : Counted cfg (u.goto i t call) := by
  refine h.next hsessions hheap hlog hnew fun t' ht' => ?_
  rcases mem_goto ht' with hold | rfl
  · exact .inl (hthreads ▸ hold)
  · exact .inr (hcall.of_sessions rfl)

theorem Counted.finish (h : Counted cfg s) (hsessions : u.sessions = s.sessions)
    (hheap : ∀ (sid : SessionId) (se : PeerSession), s.heap[sid]? = some se → ∃ se' : PeerSession,
      u.heap[sid]? = some se' ∧ se'.peer = se.peer ∧ se'.sendCipher = se.sendCipher ∧ se'.sendSeq = se.sendSeq)
    (hlog : u.log = s.log ++ new) (hnew : ∀ e ∈ new, e.seals = false) (hthreads : u.threads = s.threads) :
    Counted cfg (u.finish i) := by
  refine h.next hsessions hheap hlog hnew fun t' ht' => ?_
  rcases mem_finish ht' with hold | rfl
  · exact .inl (hthreads ▸ hold)
  · exact .inr trivial

theorem Counted.spawn {b : Bool} (h : Counted cfg s) (hsessions : u.sessions = s.sessions) (hheap : u.heap = s.heap)
    (hlog : u.log = s.log ++ new) (hnew : ∀ e ∈ new, e.seals = false) (hthreads : u.threads = s.threads)
    (hcall : call.Known u) : Counted cfg (u.spawn call b) := by
  have hsame : (u.spawn call b).heap = s.heap := hheap
  refine h.next hsessions (hsame ▸ heap_same) hlog hnew fun t' ht' => ?_
  rcases List.mem_append.mp ht' with hold | hin
  · exact .inl (hthreads ▸ hold)
  · rw [List.mem_singleton.mp hin]
    exact .inr (hcall.of_sessions rfl)

theorem Counted.moved (h : Counted cfg s) (hcall : call.Known s) : Counted cfg (s.goto i t call) :=
  h.goto rfl heap_same (List.append_nil _).symm nofun rfl hcall

theorem Counted.returned (h : Counted cfg s) : Counted cfg (s.finish i) :=
  h.finish rfl heap_same (List.append_nil _).symm nofun rfl

theorem Counted.none_sent (h : Counted cfg s) (hlookup : s.sessions.lookup p = none) :
    sentCount s.log p lane = 0 := by
  refine List.countP_eq_zero.mpr fun e he hsends => ?_
  cases e with
  | sent to_ f fp cipher seq =>
    rw [Event.sends, Bool.and_eq_true, decide_eq_true_iff] at hsends
    have hopen := (h.sent to_ f fp cipher seq he).2.1
    rw [hsends.1, hlookup] at hopen
    cases hopen
  | delivered | authenticate | installed | dialed | identified | rejected | reset | closed | supplied | swept
  | publishing | published => cases hsends

theorem Counted.vivify {now : Int} (h : Counted cfg s) (hlookup : s.sessions.lookup peer = none)
    (hcall : call.Known (s.vivify peer now)) : Counted cfg ((s.vivify peer now).goto i t call) := by
  have hne : ∀ {q sid}, s.sessions.lookup q = some sid → q ≠ peer := by
    intro q sid hq heq
    rw [heq, hlookup] at hq
    cases hq
  have hkept : ∀ {q sid}, s.sessions.lookup q = some sid → (s.vivify peer now).sessions.lookup q = some sid :=
    fun hq => (AList.lookup_insert_ne (hne hq)).trans hq
  refine ⟨fun q sid hq => ?_, fun v hv => ?_, fun q f fp cipher seq hmem => ?_, h.nodup⟩
  · by_cases hpeer : q = peer
    · subst hpeer
      rw [State.goto, State.vivify, State.putSession, AList.lookup_insert] at hq
      cases hq
      refine ⟨_, List.getElem?_concat_length, rfl, rfl, fun lane => ?_⟩
      change (0 : UInt64) = UInt64.ofNat (sentCount s.log q lane)
      rw [h.none_sent hlookup]
      rfl
    · have hold : s.sessions.lookup q = some sid := (AList.lookup_insert_ne hpeer).symm.trans hq
      obtain ⟨se, hse, hfacts⟩ := h.sessions q sid hold
      exact ⟨se, (List.getElem?_append_left (List.getElem?_eq_some_iff.mp hse).1).trans hse, hfacts⟩
  · rcases mem_goto hv with hold | rfl
    · have hknown := h.calls v hold
      rcases hcall' : v.call with f | k | _ | _ <;> rw [hcall'] at hknown
      · cases f with
        | looked | holding => exact hkept hknown
        | sending | receiving | opening | handing => trivial
      · cases k with
        | requesting | authenticating => trivial
        | starting | opener | admitted | reserved | driving | anonymous | completed | installing | swapping | creating
        | binding | replying | failed | erasing => cases hknown
      · trivial
      · trivial
    · exact hcall.of_sessions rfl
  · obtain ⟨hcipher, hopen, hseq⟩ := h.sent q f fp cipher seq hmem
    obtain ⟨sid, hq⟩ := Option.isSome_iff_exists.mp hopen
    exact ⟨hcipher, Option.isSome_of_eq_some (hkept hq), hseq⟩

theorem sentCount_concat_self {f : Net.MessageFrame} {fp : Swim.Fingerprint} {cipher : Cipher} {seq : UInt64} :
    sentCount (log ++ [.sent to_ f fp cipher seq]) p lane =
      sentCount log p lane + if to_ = p ∧ laneOf f.kind = lane then 1 else 0 := by
  rw [sentCount, List.countP_append, List.countP_singleton]
  simp [Event.sends, sentCount]

theorem Counted.next_fresh {f : Net.MessageFrame} {se : PeerSession} (h : Counted cfg s)
    (hlookup : s.sessions.lookup to_ = some sid) (hse : s.heap[sid]? = some se)
    (hfresh : (Call.frame (.holding to_ f sid)).fresh cfg s = true)
    (hfew : ∀ p lane, sentCount s.log p lane < 2 ^ 63) (hnext : sentCount s.log to_ (laneOf f.kind) + 1 < 2 ^ 63) :
    nonceFor cfg.self_ to_ (laneOf f.kind) (UInt64.ofNat (sentCount s.log to_ (laneOf f.kind) + 1)) ∉
      nonces cfg.self_ s.log := by
  intro hmem
  obtain ⟨e, he, hnonce⟩ := List.mem_filterMap.mp hmem
  cases e with
  | sent q f' fp cipher seq =>
    obtain ⟨-, hopen, m, hpos, hm, rfl⟩ := h.sent q f' fp cipher seq he
    have hsmall : m < 2 ^ 63 := lt_of_le_of_lt hm (hfew q _)
    have heq := Option.some.inj hnonce
    rw [nonceFor_eq, nonceFor_eq] at heq
    by_cases hq : q = to_
    · -- to the same peer: the word has the next number of its lane
      subst hq
      obtain ⟨hlane, hnum⟩ := nonceWord_inj hsmall hnext ((UInt64.xor_right_inj _).mp heq)
      rw [hlane, hnum] at hm
      exact Nat.not_succ_le_self _ hm
    · -- to another peer: its counter has reached the number, against the condition
      obtain ⟨sid', hq'⟩ := Option.isSome_iff_exists.mp hopen
      obtain ⟨other, hother, -, -, hseq⟩ := h.sessions q sid' hq'
      obtain ⟨se', hse', -, -, hcount⟩ := h.sessions to_ sid hlookup
      cases hse.symm.trans hse'
      rw [Call.fresh, hse, Option.all_some, List.all_eq_true] at hfresh
      have hcond := hfresh ⟨q, sid'⟩ (Table.mem_entries_iff.mpr hq')
      rw [hother, Option.all_some, Bool.or_eq_true, decide_eq_true_iff] at hcond
      have hnot := hcond.resolve_left hq
      have hword : pairHash cfg.self_ q ^^^ (pairHash cfg.self_ to_ ^^^ nonceWord (laneOf f.kind)
          (se.sendSeq (laneOf f.kind) + 1)) = nonceWord (laneOf f'.kind) (UInt64.ofNat m) := by
        rw [hcount, show UInt64.ofNat (sentCount s.log to_ (laneOf f.kind)) + 1 =
          UInt64.ofNat (sentCount s.log to_ (laneOf f.kind) + 1) from (UInt64.ofNat_add _ 1).symm, ← heq,
          ← UInt64.xor_assoc, UInt64.xor_self, UInt64.zero_xor]
      rw [PeerSession.reached, hword, wordLane_nonceWord hsmall, wordSeq_nonceWord hsmall, hseq] at hnot
      rw [Bool.not_eq_true', Bool.and_eq_false_iff, decide_eq_false_iff_not, decide_eq_false_iff_not, not_not] at hnot
      rcases hnot with hzero | hless
      · have hnat := congrArg UInt64.toNat hzero
        rw [UInt64.toNat_ofNat', Nat.mod_eq_of_lt (by omega)] at hnat
        exact absurd hnat (by simpa using Nat.pos_iff_ne_zero.mp hpos)
      · refine hless ?_
        rw [UInt64.le_iff_toNat_le, UInt64.toNat_ofNat', UInt64.toNat_ofNat', Nat.mod_eq_of_lt (by omega),
          Nat.mod_eq_of_lt (lt_trans (hfew q _) (by decide))]
        exact hm
  | delivered | authenticate | installed | dialed | identified | rejected | reset | closed | supplied | swept
  | publishing | published => cases hnonce

theorem Counted.sealed {f : Net.MessageFrame} {se : PeerSession} (h : Counted cfg s)
    (hlookup : s.sessions.lookup to_ = some sid) (hse : s.heap[sid]? = some se)
    (hfresh : (Call.frame (.holding to_ f sid)).fresh cfg s = true) :
    let r := se.sealFrame cfg.aead cfg.clusterId cfg.self_ to_ f
    Counted cfg (((s.setSession sid { r.1 with sessionMu := none }).note
      (.sent to_ r.2 se.peerFingerprint se.sendCipher (r.1.sendSeq (laneOf f.kind)))).finish i) := by
  intro r
  have hi : sid < s.heap.length := (List.getElem?_eq_some_iff.mp hse).1
  obtain ⟨se', hse', hpeer, hcipher, hcount⟩ := h.sessions to_ sid hlookup
  cases hse.symm.trans hse'
  have hkind : r.2.kind = f.kind := rfl
  have hseq : r.1.sendSeq (laneOf f.kind) = UInt64.ofNat (sentCount s.log to_ (laneOf f.kind) + 1) := by
    change Function.update se.sendSeq (laneOf f.kind) (se.sendSeq (laneOf f.kind) + 1) (laneOf f.kind) = _
    rw [Function.update_self, hcount, UInt64.ofNat_add]
    rfl
  have hmono : ∀ q lane, sentCount s.log q lane ≤ sentCount (s.log ++ [.sent to_ r.2 se.peerFingerprint se.sendCipher
      (r.1.sendSeq (laneOf f.kind))]) q lane := fun q lane => by
    rw [sentCount_concat_self]
    exact Nat.le_add_right _ _
  have hself : sentCount (s.log ++ [.sent to_ r.2 se.peerFingerprint se.sendCipher (r.1.sendSeq (laneOf f.kind))]) to_
      (laneOf f.kind) = sentCount s.log to_ (laneOf f.kind) + 1 := by
    rw [sentCount_concat_self, if_pos ⟨rfl, rfl⟩]
  refine ⟨fun q sid' hq => ?_, fun v hv => ?_, fun q f' fp cipher seq hmem => ?_, fun hfew => ?_⟩
  · have hq : s.sessions.lookup q = some sid' := hq
    by_cases hsid : sid = sid'
    · subst hsid
      obtain ⟨se₁, hse₁, hpeer₁, -⟩ := h.sessions q sid hq
      cases hse.symm.trans hse₁
      obtain rfl : q = to_ := hpeer₁.symm.trans hpeer
      refine ⟨_, List.getElem?_set_self hi, hpeer, hcipher, fun lane => ?_⟩
      change Function.update se.sendSeq (laneOf f.kind) (se.sendSeq (laneOf f.kind) + 1) lane =
        UInt64.ofNat (sentCount (s.log ++ [_]) q lane)
      rw [sentCount_concat_self]
      by_cases hlane : lane = laneOf f.kind
      · subst hlane
        rw [Function.update_self, if_pos ⟨rfl, rfl⟩, hcount, UInt64.ofNat_add]
        rfl
      · rw [Function.update_of_ne hlane, if_neg fun heq => hlane heq.2.symm]
        exact hcount lane
    · obtain ⟨se₁, hse₁, hpeer₁, hcipher₁, hcount₁⟩ := h.sessions q sid' hq
      have hne : to_ ≠ q := by
        rintro rfl
        rw [hlookup] at hq
        exact hsid (Option.some.inj hq)
      refine ⟨se₁, (List.getElem?_set_ne hsid).trans hse₁, hpeer₁, hcipher₁, fun lane => ?_⟩
      change se₁.sendSeq lane = UInt64.ofNat (sentCount (s.log ++ [_]) q lane)
      rw [sentCount_concat_self, if_neg fun heq => hne heq.1]
      exact hcount₁ lane
  · rcases mem_finish hv with hold | rfl
    · exact (h.calls v hold).of_sessions rfl
    · trivial
  · rcases List.mem_append.mp hmem with hold | hin
    · obtain ⟨hcipher', hopen, n, hpos, hn, hseq'⟩ := h.sent q f' fp cipher seq hold
      exact ⟨hcipher', hopen, n, hpos, hn.trans (hmono q _), hseq'⟩
    · cases List.mem_singleton.mp hin
      exact ⟨hcipher, Option.isSome_of_eq_some hlookup, _, Nat.succ_pos _, (hself ▸ le_rfl), hseq⟩
  · change (nonces cfg.self_ (s.log ++ [_])).Nodup
    have hold : ∀ q lane, sentCount s.log q lane < 2 ^ 63 := fun q lane => lt_of_le_of_lt (hmono q lane) (hfew q lane)
    have hnext : sentCount s.log to_ (laneOf f.kind) + 1 < 2 ^ 63 := hself ▸ hfew to_ (laneOf f.kind)
    rw [nonces, List.filterMap_append, List.nodup_append]
    refine ⟨h.nodup hold, List.nodup_singleton _, fun nonce hin nonce' hin' heq => ?_⟩
    rw [heq, List.mem_singleton.mp hin', hkind, hseq] at hin
    exact h.next_fresh hlookup hse hfresh hold hnext hin

theorem Counted.stepFrame {f : FrameCall} {now : Int} (h : Counted cfg s) (hcfg : cfg.handshake = false)
    (hknown : (Call.frame f).Known s) (hfresh : (Call.frame f).fresh cfg s = true)
    (hstep : s.stepFrame cfg i t now f = some s') : Counted cfg s' := by
  have hoff : ¬cfg.handshake = true := by
    rw [hcfg]
    exact Bool.false_ne_true
  cases f with
  | sending to_ f =>
    rw [State.stepFrame] at hstep
    split at hstep
    · next sid hlookup =>
      cases hstep
      exact h.moved hlookup
    · next hlookup =>
      rw [if_neg hoff] at hstep
      cases hstep
      exact h.vivify hlookup (AList.lookup_insert s.sessions)
  | looked to_ f sid =>
    obtain ⟨se, hse, hstep⟩ := Option.bind_eq_some_iff.mp hstep
    split at hstep
    · cases hstep
    · split at hstep
      · cases hstep
        exact h.returned
      · cases hstep
        exact h.goto rfl (heap_setSession hse rfl rfl rfl) (List.append_nil _).symm nofun rfl hknown
  | holding to_ f sid =>
    obtain ⟨se, hse, hstep⟩ := Option.bind_eq_some_iff.mp hstep
    cases hstep
    exact h.sealed hknown hse hfresh
  | receiving f =>
    rw [State.stepFrame] at hstep
    split at hstep
    · cases hstep
      exact h.returned
    · split at hstep
      · cases hstep
        exact h.moved trivial
      · next hlookup =>
        cases hstep
        exact h.vivify hlookup trivial
  | opening f sid =>
    obtain ⟨se, hse, hstep⟩ := Option.bind_eq_some_iff.mp hstep
    split at hstep
    · cases hstep
    · split at hstep
      · cases hstep
        exact h.returned
      · split at hstep
        · cases hstep
          exact h.returned
        · next se' f' hopen =>
          cases hstep
          obtain ⟨recvHigh, rfl⟩ := PeerSession.openFrame_eq hopen
          exact h.goto rfl (heap_setSession hse rfl rfl rfl) (List.append_nil _).symm nofun rfl
            trivial
  | handing f sid =>
    obtain ⟨se, hse, hstep⟩ := Option.bind_eq_some_iff.mp hstep
    cases hstep
    rw [noteIf_eq]
    refine h.finish rfl heap_same rfl (fun e he => ?_) rfl
    split at he
    · rw [List.mem_singleton.mp he]
      rfl
    · cases he

theorem Counted.stepHandshake {k : HandshakeCall} {now : Int} {a : Advance} (h : Counted cfg s)
    (hcfg : cfg.handshake = false) (hknown : (Call.handshake k).Known s)
    (hstep : s.stepHandshake cfg i t now a k = some s') : Counted cfg s' := by
  cases k with
  | requesting peer =>
    rw [State.stepHandshake, hcfg, if_pos (.inl rfl)] at hstep
    cases hstep
    exact h.returned
  | authenticating r =>
    rw [State.stepHandshake, hcfg, Bool.not_false, if_pos rfl] at hstep
    cases hstep
    exact h.returned
  | starting | opener | admitted | reserved | driving | anonymous | completed | installing | swapping | creating
  | binding | replying | failed | erasing => cases hknown

theorem Counted.stepUpkeep {k : UpkeepCall} (h : Counted cfg s) (hcfg : cfg.handshake = false)
    (hfresh : (Call.upkeep k).fresh cfg s = true) (hstep : s.stepUpkeep cfg i t k = some s') : Counted cfg s' := by
  have hoff : ¬cfg.handshake = true := by
    rw [hcfg]
    exact Bool.false_ne_true
  cases k with
  | listing revoked supply =>
    cases hstep
    exact h.moved trivial
  | scanning revoked supply todo clients =>
    cases todo with
    | nil =>
      cases hstep
      exact h.moved trivial
    | cons sid todo =>
      obtain ⟨se, hse, hstep⟩ := Option.bind_eq_some_iff.mp hstep
      split at hstep
      · cases hstep
        exact h.goto rfl (heap_setSession hse rfl rfl rfl) (List.append_nil _).symm nofun rfl trivial
      · cases hstep
        exact h.moved trivial
  | retiring revoked supply clients =>
    cases hstep
    obtain rfl : clients = [] := List.isEmpty_iff.mp hfresh
    obtain ⟨new, hreset, hnew⟩ := resetClients_eq cfg { s with sessions := s.eraseClients [] } []
    rw [hreset, swept, noteIf_eq]
    refine h.finish rfl heap_same (List.append_assoc ..) (fun e he => ?_) rfl
    rcases List.mem_append.mp he with hin | hin
    · obtain ⟨peer, rfl⟩ := hnew e hin
      rfl
    · split at hin
      · rw [List.mem_singleton.mp hin]
        rfl
      · cases hin
  | disconnecting peer =>
    cases hstep
    exact h.finish rfl heap_same (List.append_nil _).symm nofun rfl
  | swapped snap inside =>
    rw [State.stepUpkeep] at hstep
    split at hstep
    · cases hstep
    · cases hstep
      exact h.moved trivial
  | fenced snap | aborting snap doomed =>
    cases hstep
    exact h.moved trivial
  | closing snap doomed =>
    cases doomed with
    | nil =>
      cases hstep
      refine h.finish rfl heap_same rfl (fun e he => ?_) rfl
      rw [List.mem_singleton.mp he]
      rfl
    | cons p doomed =>
      rw [State.stepUpkeep, if_neg hoff] at hstep
      cases hstep
      exact h.moved trivial
  | purging snap p doomed =>
    cases hstep
    rw [noteIf_eq]
    refine h.goto rfl heap_same rfl (fun e he => ?_) rfl trivial
    split at he
    · rw [List.mem_singleton.mp he]
      rfl
    · cases he

theorem Counted.step {l : Label} (h : Counted cfg s) (hcfg : cfg.handshake = false) (hfresh : l.fresh cfg s = true)
    (hstep : s.step cfg l = some s') : Counted cfg s' := by
  have hoff : ¬cfg.handshake = true := by
    rw [hcfg]
    exact Bool.false_ne_true
  have hsame : s.log = s.log ++ [] := (List.append_nil _).symm
  have hnone : ∀ e ∈ ([] : List Event), e.seals = false := nofun
  have hsupply : ∀ revoked, Counted cfg (s.supply revoked) := fun revoked =>
    h.next rfl heap_same rfl (fun e he => by rw [List.mem_singleton.mp he]; rfl) fun _ ht => .inl ht
  cases l with
  | send to_ f =>
    rw [State.step] at hstep
    split at hstep
    · cases hstep
      exact h.spawn rfl rfl hsame hnone rfl trivial
    · cases hstep
      exact h
  | receive r now =>
    rw [State.step] at hstep
    split at hstep
    · split at hstep
      · cases hstep
        exact h
      · cases hstep
        exact h.spawn rfl rfl hsame hnone rfl trivial
    · split at hstep
      · cases hstep
        exact h.spawn rfl rfl hsame hnone rfl trivial
      · cases hstep
        exact h
  | request peer =>
    cases hstep
    exact h.spawn rfl rfl hsame hnone rfl trivial
  | renegotiate peer =>
    rw [State.step, if_neg hoff] at hstep
    cases hstep
    exact h
  | inboundReady token =>
    rw [State.step, hcfg] at hstep
    cases (if_pos (.inr (.inl rfl))).symm.trans hstep
    exact h
  | setRevoked revoked =>
    cases hstep
    exact hsupply revoked
  | sweepRevocations revoked =>
    cases revoked with
    | none =>
      cases hstep
      exact hsupply none
    | some set =>
      rw [State.step] at hstep
      split at hstep
      · cases hstep
        exact (hsupply (some set)).next rfl heap_same rfl
          (fun e he => by rw [List.mem_singleton.mp he]; rfl) fun _ ht => .inl ht
      · cases hstep
        exact (hsupply (some set)).spawn rfl rfl (List.append_nil _).symm hnone rfl trivial
  | disconnected peer =>
    rw [State.step, if_neg hoff] at hstep
    cases hstep
    exact h.spawn rfl rfl hsame hnone rfl trivial
  | publish snap inside =>
    rw [State.step] at hstep
    split at hstep
    · cases hstep
    · split at hstep
      · cases hstep
        exact h
      · cases hstep
        exact h.spawn rfl rfl rfl (fun e he => by rw [List.mem_singleton.mp he]; rfl) rfl trivial
  | go i now a =>
    obtain ⟨t, hget, hgo⟩ := Option.bind_eq_some_iff.mp hstep
    have hknown := h.calls t (List.mem_of_getElem? hget)
    rw [Label.fresh, hget, Option.all_some] at hfresh
    split at hgo
    · next hcall =>
      rw [hcall] at hknown hfresh
      exact h.stepFrame hcfg hknown hfresh hgo
    · next hcall =>
      rw [hcall] at hknown
      exact h.stepHandshake hcfg hknown hgo
    · next hcall =>
      rw [hcall] at hfresh
      exact h.stepUpkeep hcfg hfresh hgo
    · cases hgo

/-- In every run without the handshake in which no frame is sealed under a number that the counter of another
peer has reached, and no sweep erases a session, and with fewer than 2 ^ 63 frames to each peer on each lane,
no nonce comes twice. -/
theorem shared_cipher_nonces_fresh (hcfg : cfg.handshake = false)
    (hrun : Reach (State.step cfg) (fun s l => l.fresh cfg s = true) {} s)
    (hfew : ∀ peer lane, sentCount s.log peer lane < 2 ^ 63) :
    (nonces cfg.self_ s.log).Nodup ∧ ∀ to_ f fp cipher seq, .sent to_ f fp cipher seq ∈ s.log →
    cipher = sharedCipher := by
  have hinv : Counted cfg s := hrun.invariant (.start cfg) fun _ _ _ h hfresh hstep => h.step hcfg hfresh hstep
  exact ⟨hinv.nodup hfew, fun to_ f fp cipher seq hmem => (hinv.sent to_ f fp cipher seq hmem).1⟩

end

section

namespace Sample

def bare : Config := { self_ := 1, handshake := false, aead := fun _ => clear }

/-- Its hash differs from that of 2 by 3. -/
def colliding : NodeId := 3888708237805282295

def client : NodeId := 0x8000000000000002

end Sample

open Sample

theorem sentCount_lt {log : List Event} (h : log.length < 2 ^ 63) (peer : NodeId) (lane : Lane) :
    sentCount log peer lane < 2 ^ 63 := lt_of_le_of_lt List.countP_le_length h

theorem shared_cipher_nonces_fresh_two : ∃ s : State, s.log.length = 4 ∧ (nonces 1 s.log).Nodup := by
  obtain ⟨s, hrun, hlength⟩ := Option.map_eq_some_iff.mp (show (Machine.run
    (guarded (State.step bare) fun s l => l.fresh bare s = true) {}
      (sends 0 2 ++ (sends 1 3 ++ (sends 2 2 ++ sends 3 3)))).map (fun s => s.log.length) = some 4 by decide +kernel)
  exact ⟨s, hlength, (shared_cipher_nonces_fresh rfl (reach_of_run hrun)
    (sentCount_lt (hlength ▸ (by decide)))).1⟩

def Event.numbered : Event → Option (NodeId × UInt64)
  | .sent to_ _ _ _ seq => some (to_, seq)
  | _ => none

def repeats (s : State) : List (NodeId × UInt64) × Nat × Bool :=
  (s.log.filterMap Event.numbered, s.log.length, decide (nonces 1 s.log).Nodup)

/-- The second frame to the one peer has the nonce of the first to the other. And a client's session that a
sweep erases counts from one again. -/
theorem shared_cipher_nonces_repeat :
    (∃ s : State, Reachable (State.step bare) {} s ∧ (∀ peer lane, sentCount s.log peer lane < 2 ^ 63) ∧
      s.log.filterMap Event.numbered = [(2, 1), (colliding, 1), (colliding, 2)] ∧ ¬(nonces 1 s.log).Nodup) ∧
    ∃ s : State, Reachable (State.step bare) {} s ∧ (∀ peer lane, sentCount s.log peer lane < 2 ^ 63) ∧
      s.log.filterMap Event.numbered = [(client, 1), (client, 1)] ∧ ¬(nonces 1 s.log).Nodup := by
  obtain ⟨s, hrun, hfacts⟩ := Option.map_eq_some_iff.mp (show (Machine.run (State.step bare) {}
    (sends 0 2 ++ (sends 1 colliding ++ sends 2 colliding))).map repeats =
      some ([(2, 1), (colliding, 1), (colliding, 2)], 3, false) by decide +kernel)
  obtain ⟨s', hrun', hfacts'⟩ := Option.map_eq_some_iff.mp (show (Machine.run (State.step bare) {}
    (sends 0 client ++ (.sweepRevocations (some {noFingerprint}) :: List.replicate 4 (.go 1 0 .failed) ++
      sends 2 client))).map repeats = some ([(client, 1), (client, 1)], 4, false) by decide +kernel)
  rw [repeats, Prod.mk.injEq, Prod.mk.injEq, decide_eq_false_iff_not] at hfacts hfacts'
  exact ⟨⟨s, reachable_of_run hrun, sentCount_lt (hfacts.2.1 ▸ (by decide)), hfacts.1, hfacts.2.2⟩,
    s', reachable_of_run hrun', sentCount_lt (hfacts'.2.1 ▸ (by decide)), hfacts'.1, hfacts'.2.2⟩

end

end Quark.Secure
