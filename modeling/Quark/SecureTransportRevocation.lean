import Quark.SecureTransport

/-! Revocation: after a sweep has returned, no frame passes on a session whose fingerprint is in its set, as
long as no older handshake completes with such a fingerprint and no call is caught past its check. -/
namespace Quark.Secure

open Finset Machine State
open Swim (NodeId Fingerprint)

/-- What the sweeps that have returned still forbid: everything up to the next store of a set. -/
def enforced (log : List Event) : Finset Fingerprint :=
  log.foldl (fun acc e =>
    match e with
    | .supplied => ∅
    | .swept revoked => acc ∪ revoked
    | _ => acc) ∅

def Thread.scans (t : Thread) : Option (Finset Fingerprint × Nat) :=
  match t.call with
  | .upkeep (.scanning revoked supply ..) | .upkeep (.retiring revoked supply _) => some (revoked, supply)
  | _ => none

/-- Some sweep that has taken its list, of the set that is still the current one, revokes `fp`. -/
def State.watches (s : State) (fp : Fingerprint) : Bool :=
  fp ∈ enforced s.log || s.threads.any fun t => t.scans.any fun r => r.2 = s.supplies && fp ∈ r.1

/-- The call finds session `sid` revoked, or its fingerprint is not in the set. -/
def State.barred (s : State) (set : Finset Fingerprint) (sid : SessionId) : Bool :=
  (s.heap[sid]?).all fun se => se.peerFingerprint ∉ set || se.revoked

def State.clear (s : State) (set : Finset Fingerprint) (sid : SessionId) : Bool :=
  (s.heap[sid]?).all fun se => se.peerFingerprint ∉ set

/-- A frame call will not pass a frame on a session with a fingerprint in `set`: its check is still to come
and will find the session revoked, or the session is another one. -/
def FrameCall.settled (s : State) (set : Finset Fingerprint) : FrameCall → Bool
  | .looked _ _ sid | .opening _ sid => s.barred set sid
  | .holding _ _ sid | .handing _ sid => s.clear set sid
  | _ => true

def Call.settled (s : State) (set : Finset Fingerprint) : Call → Bool
  | .frame c => c.settled s set
  | _ => true

/-- The condition on the step of one call: a handshake that installs was made under the current set, or has a
fingerprint that no sweep watches; and a sweep that returns leaves no frame call past its check. -/
def Call.timely (s : State) : Call → Bool
  | .handshake (.swapping c _) | .handshake (.creating c) =>
    c.captured = s.revokedSnapshot || !s.watches c.result.peerFingerprint
  | .upkeep (.retiring revoked supply _) => supply ≠ s.supplies || s.threads.all fun t => t.call.settled s revoked
  | _ => true

def Label.timely (s : State) : Label → Bool
  | .go i _ _ => (s.threads[i]?).all fun t => t.call.timely s
  | _ => true

def Event.frameOn : Event → Option Fingerprint
  | .sent _ _ fp .. | .delivered _ fp => some fp
  | _ => none

/-- Every open session with a fingerprint in `set` is revoked or among `todo`. -/
def Covered (s : State) (set : Finset Fingerprint) (todo : List SessionId) : Prop :=
  ∀ p sid se, s.sessions.lookup p = some sid → s.heap[sid]? = some se → se.peerFingerprint ∈ set →
    se.revoked = true ∨ sid ∈ todo

/-- A sweep is not ahead of the stores, and the current one has the current set. -/
def Supplied (s : State) (revoked : Finset Fingerprint) (supply : Nat) : Prop :=
  supply ≤ s.supplies ∧ (supply = s.supplies → s.revokedSnapshot = some revoked)

def Fine (s : State) : Call → Prop
  | .frame c => c.settled s (enforced s.log) = true
  | .handshake (.completed c) | .handshake (.installing c) | .handshake (.swapping c _) | .handshake (.creating c) =>
    c.captured.all (c.result.peerFingerprint ∉ ·) = true
  | .upkeep (.listing revoked supply) => Supplied s revoked supply
  | .upkeep (.scanning revoked supply todo _) =>
    Supplied s revoked supply ∧ (supply = s.supplies → Covered s revoked todo)
  | .upkeep (.retiring revoked supply _) => Supplied s revoked supply ∧ (supply = s.supplies → Covered s revoked [])
  | _ => True

/-- After a return, no frame has passed with a fingerprint of its set. -/
def Silent (log : List Event) : Prop :=
  ∀ before e after, log = before ++ e :: after → ∀ fp, e.frameOn = some fp → fp ∉ enforced before

structure Enforcing (s : State) : Prop where
  covered : Covered s (enforced s.log) []
  current : ∀ fp ∈ enforced s.log, s.revokedSnapshot.any (fp ∈ ·) = true
  calls : ∀ t ∈ s.threads, Fine s t.call
  silent : Silent s.log

/-- A step that brings no session a watched fingerprint and takes no mark away. -/
structure Tame (s s' : State) : Prop where
  snapshot : s'.revokedSnapshot = s.revokedSnapshot
  supplies : s'.supplies = s.supplies
  heap : ∀ (sid : SessionId) (se' : PeerSession), s'.heap[sid]? = some se' →
    (∃ se : PeerSession, s.heap[sid]? = some se ∧ se'.peerFingerprint = se.peerFingerprint ∧
      (se.revoked = true → se'.revoked = true)) ∨ s.watches se'.peerFingerprint = false
  sessions : ∀ p (sid : SessionId) (se' : PeerSession), s'.sessions.lookup p = some sid → s'.heap[sid]? = some se' →
    s.sessions.lookup p = some sid ∨ s.watches se'.peerFingerprint = false

/-- An event that neither stores nor enforces a set, and passes no frame that is forbidden. -/
def Event.Quiet (set : Finset Fingerprint) : Event → Prop
  | .supplied | .swept _ => False
  | .sent _ _ fp .. | .delivered _ fp => fp ∉ set
  | _ => True

section

variable {cfg : Config} {s s' : State} {fp : Fingerprint} {set : Finset Fingerprint} {e : Event} {t : Thread}
  {log new : List Event} {sid : SessionId} {c : Call}

theorem enforced_concat (log : List Event) (e : Event) :
    enforced (log ++ [e]) = match e with
      | .supplied => ∅
      | .swept revoked => enforced log ∪ revoked
      | _ => enforced log := by
  rw [enforced, List.foldl_append]
  rfl

theorem enforced_quiet (he : e.Quiet set) : enforced (log ++ [e]) = enforced log := by
  rw [enforced_concat]
  cases e with
  | supplied | swept => cases he
  | sent | delivered | authenticate | installed | dialed | identified | rejected | reset | closed | publishing
  | published => rfl

theorem subset_enforced {before after : List Event} (hafter : ∀ e ∈ after, e ≠ .supplied) :
    set ⊆ enforced (before ++ .swept set :: after) := by
  induction after using List.reverseRecOn with
  | nil =>
    rw [enforced_concat]
    exact subset_union_right
  | append_singleton after e ih =>
    have hmem := ih fun e' he' => hafter e' (List.mem_append_left _ he')
    have hne := hafter e (List.mem_append_right _ List.mem_cons_self)
    rw [← List.cons_append, ← List.append_assoc, enforced_concat]
    cases e with
    | supplied => exact absurd rfl hne
    | swept => exact hmem.trans subset_union_left
    | sent | delivered | authenticate | installed | dialed | identified | rejected | reset | closed | publishing
    | published => exact hmem

theorem quiet_of_minor (he : e.minor = true) : e.Quiet set := by
  cases e with
  | sent | delivered | installed | supplied | swept | publishing | published => cases he
  | authenticate | dialed | identified | rejected | reset | closed => trivial

theorem Silent.concat (h : Silent log) (he : ∀ fp, e.frameOn = some fp → fp ∉ enforced log) :
    Silent (log ++ [e]) := by
  intro before e' after heq
  rcases List.eq_nil_or_concat after with rfl | ⟨after, last, rfl⟩
  · obtain ⟨rfl, hlast⟩ := List.append_inj' heq rfl
    cases hlast
    exact he
  · rw [List.concat_eq_append, ← List.cons_append, ← List.append_assoc] at heq
    exact h before e' after (List.append_inj' heq rfl).1

theorem watches_of_enforced (h : fp ∈ enforced s.log) : s.watches fp = true := by
  rw [watches, decide_eq_true h, Bool.true_or]

theorem watches_of_scans (ht : t ∈ s.threads) (hscan : t.scans = some (set, s.supplies)) (h : fp ∈ set) :
    s.watches fp = true := by
  rw [watches, Bool.or_eq_true, List.any_eq_true]
  refine .inr ⟨t, ht, ?_⟩
  rw [hscan, Option.any_some, decide_eq_true rfl, Bool.true_and]
  exact decide_eq_true h

theorem barred_iff : s.barred set sid = true ↔
    ∀ se, s.heap[sid]? = some se → se.peerFingerprint ∈ set → se.revoked = true := by
  rw [barred]
  cases s.heap[sid]? with
  | none => simp
  | some se => simp [or_iff_not_imp_left]

theorem clear_iff : s.clear set sid = true ↔ ∀ se, s.heap[sid]? = some se → se.peerFingerprint ∉ set := by
  rw [clear]
  cases s.heap[sid]? with
  | none => simp
  | some se => simp

theorem settled_union {f : FrameCall} {set' : Finset Fingerprint} (h : f.settled s set = true)
    (h' : f.settled s set' = true) : f.settled s (set ∪ set') = true := by
  cases f with
  | looked _ _ sid | opening _ sid =>
    refine barred_iff.mpr fun se hse hfp => ?_
    rcases mem_union.mp hfp with hin | hin
    · exact barred_iff.mp h se hse hin
    · exact barred_iff.mp h' se hse hin
  | holding _ _ sid | handing _ sid =>
    refine clear_iff.mpr fun se hse hfp => ?_
    rcases mem_union.mp hfp with hin | hin
    · exact clear_iff.mp h se hse hin
    · exact clear_iff.mp h' se hse hin
  | sending | receiving => rfl

theorem settled_none (c : Call) : c.settled s ∅ = true := by
  rcases c with f | _ | _ | _
  · cases f with
    | looked | opening => exact barred_iff.mpr nofun
    | holding | handing => exact clear_iff.mpr nofun
    | sending | receiving => rfl
  · rfl
  · rfl
  · rfl

theorem Covered.tame {todo : List SessionId} (h : Covered s set todo) (htame : Tame s s')
    (hset : ∀ fp ∈ set, s.watches fp = true) : Covered s' set todo := by
  intro p sid se' hlookup hheap hfp
  have hwatched := hset _ hfp
  rcases htame.sessions p sid se' hlookup hheap with hold | hfree
  · rcases htame.heap sid se' hheap with ⟨se, hse, hsame, hmark⟩ | hfree
    · rcases h p sid se hold hse (hsame ▸ hfp) with hrevoked | hin
      · exact .inl (hmark hrevoked)
      · exact .inr hin
    · rw [hwatched] at hfree
      cases hfree
  · rw [hwatched] at hfree
    cases hfree

theorem barred_tame (h : s.barred set sid = true) (htame : Tame s s') (hset : ∀ fp ∈ set, s.watches fp = true) :
    s'.barred set sid = true := by
  rw [barred_iff] at h ⊢
  intro se' hheap hfp
  rcases htame.heap sid se' hheap with ⟨se, hse, hsame, hmark⟩ | hfree
  · exact hmark (h se hse (hsame ▸ hfp))
  · rw [hset _ hfp] at hfree
    cases hfree

theorem clear_tame (h : s.clear set sid = true) (htame : Tame s s') (hset : ∀ fp ∈ set, s.watches fp = true) :
    s'.clear set sid = true := by
  rw [clear_iff] at h ⊢
  intro se' hheap hfp
  rcases htame.heap sid se' hheap with ⟨se, hse, hsame, -⟩ | hfree
  · exact h se hse (hsame ▸ hfp)
  · rw [hset _ hfp] at hfree
    cases hfree

theorem settled_tame {f : FrameCall} (h : f.settled s set = true) (htame : Tame s s')
    (hset : ∀ fp ∈ set, s.watches fp = true) : f.settled s' set = true := by
  cases f with
  | looked | opening => exact barred_tame h htame hset
  | holding | handing => exact clear_tame h htame hset
  | sending | receiving => rfl

theorem Supplied.tame {supply : Nat} (h : Supplied s set supply) (htame : Tame s s') : Supplied s' set supply := by
  rw [Supplied, htame.supplies, htame.snapshot]
  exact h

theorem Supplied.stale {supply : Nat} {revoked : Option (Finset Fingerprint)} (h : Supplied s set supply) :
    Supplied (s.supply revoked) set supply :=
  ⟨Nat.le_succ_of_le h.1, fun hnow => absurd (le_of_eq_of_le hnow.symm h.1) (Nat.not_succ_le_self s.supplies)⟩

theorem fine_handshake_iff {k : HandshakeCall} : Fine s (.handshake k) ↔
    ∀ c, k.completion = some c → c.captured.all (c.result.peerFingerprint ∉ ·) = true := by
  cases k with
  | completed c | installing c | swapping c _ | creating c =>
    refine ⟨fun h c' hc => ?_, fun h => h c rfl⟩
    cases hc
    exact h
  | requesting | starting | authenticating | opener | admitted | reserved | driving | anonymous | binding | replying
  | failed | erasing => exact ⟨nofun, fun _ => trivial⟩

theorem Fine.handshake {k : HandshakeCall} (h : Fine s (.handshake k)) : Fine s' (.handshake k) :=
  fine_handshake_iff.mpr (fine_handshake_iff.mp h)

theorem Fine.tame (hfine : Fine s t.call) (ht : t ∈ s.threads) (htame : Tame s s')
    (hlog : enforced s'.log = enforced s.log) : Fine s' t.call := by
  rcases hcall : t.call with f | c | c | _
  · rw [hcall, Fine] at hfine
    rw [Fine, hlog]
    exact settled_tame hfine htame fun fp => watches_of_enforced
  · rw [hcall] at hfine
    exact hfine.handshake
  · rw [hcall] at hfine
    cases c with
    | listing => exact Supplied.tame hfine htame
    | scanning set supply todo clients | retiring set supply clients =>
      refine ⟨hfine.1.tame htame, fun hnow => (hfine.2 (hnow.trans htame.supplies)).tame htame fun fp hfp => ?_⟩
      rw [htame.supplies] at hnow
      exact watches_of_scans ht (by rw [Thread.scans, hcall, hnow]) hfp
    | disconnecting | swapped | fenced | aborting | closing | purging => trivial
  · trivial

theorem quiet_events (hsilent : Silent log) (hnew : ∀ e ∈ new, e.Quiet (enforced log)) :
    enforced (log ++ new) = enforced log ∧ Silent (log ++ new) := by
  induction new using List.reverseRecOn with
  | nil =>
    rw [List.append_nil]
    exact ⟨rfl, hsilent⟩
  | append_singleton new e ih =>
    obtain ⟨hsame, hprefix⟩ := ih fun e' he' => hnew e' (List.mem_append_left _ he')
    have he := hnew e (List.mem_append_right _ List.mem_cons_self)
    rw [← List.append_assoc]
    refine ⟨(enforced_quiet he).trans hsame, hprefix.concat fun fp hframe => ?_⟩
    rw [hsame]
    cases e with
    | sent | delivered =>
      cases hframe
      exact he
    | supplied | swept => cases he
    | authenticate | installed | dialed | identified | rejected | reset | closed | publishing | published =>
      cases hframe

theorem Enforcing.next (h : Enforcing s) (htame : Tame s s') (hlog : s'.log = s.log ++ new)
    (hnew : ∀ e ∈ new, e.Quiet (enforced s.log)) (hcalls : ∀ t ∈ s'.threads, t ∈ s.threads ∨ Fine s' t.call) :
    Enforcing s' := by
  obtain ⟨hsame, hsilent⟩ := quiet_events h.silent hnew
  rw [← hlog] at hsame hsilent
  refine ⟨?_, ?_, ?_, hsilent⟩
  · rw [hsame]
    exact h.covered.tame htame fun fp => watches_of_enforced
  · rw [hsame, htame.snapshot]
    exact h.current
  · intro t ht
    rcases hcalls t ht with hold | hfine
    · exact (h.calls t hold).tame hold htame hsame
    · exact hfine

/-! The steps, by what they do to the sessions. -/

theorem Tame.of_eq (hheap : s'.heap = s.heap) (hsessions : s'.sessions = s.sessions)
    (hsnapshot : s'.revokedSnapshot = s.revokedSnapshot) (hsupplies : s'.supplies = s.supplies) : Tame s s' where
  snapshot := hsnapshot
  supplies := hsupplies
  heap _ se' h := .inl ⟨se', hheap ▸ h, rfl, id⟩
  sessions _ _ _ h _ := .inl (hsessions ▸ h)

theorem Tame.refl (s : State) : Tame s s := .of_eq rfl rfl rfl rfl

theorem Tame.erased (h : ∀ p sid, s'.sessions.lookup p = some sid → s.sessions.lookup p = some sid)
    (hheap : s'.heap = s.heap) (hsnapshot : s'.revokedSnapshot = s.revokedSnapshot)
    (hsupplies : s'.supplies = s.supplies) : Tame s s' where
  snapshot := hsnapshot
  supplies := hsupplies
  heap _ se' h := .inl ⟨se', hheap ▸ h, rfl, id⟩
  sessions p sid _ h' _ := .inl (h p sid h')

/-- A session changes, but not its fingerprint or its mark, or it comes to a fingerprint that nobody watches. -/
theorem Tame.setSession {se se' : PeerSession} (hse : s.heap[sid]? = some se)
    (h : (se'.peerFingerprint = se.peerFingerprint ∧ (se.revoked = true → se'.revoked = true)) ∨
      s.watches se'.peerFingerprint = false) : Tame s (s.setSession sid se') where
  snapshot := rfl
  supplies := rfl
  heap sid' se'' hget := by
    rw [State.setSession] at hget
    dsimp only at hget
    by_cases hsid : sid = sid'
    · subst hsid
      rw [List.getElem?_set_self' , hse] at hget
      cases hget
      rcases h with ⟨hsame, hmark⟩ | hfree
      · exact .inl ⟨se, hse, hsame, hmark⟩
      · exact .inr hfree
    · rw [List.getElem?_set_ne hsid] at hget
      exact .inl ⟨se'', hget, rfl, id⟩
  sessions _ _ _ hlookup _ := .inl hlookup

theorem Tame.putSession {se : PeerSession} (h : s.watches se.peerFingerprint = false) : Tame s (s.putSession se) where
  snapshot := rfl
  supplies := rfl
  heap sid se' hget := by
    rw [State.putSession] at hget
    dsimp only at hget
    rw [List.getElem?_append] at hget
    split at hget
    · exact .inl ⟨se', hget, rfl, id⟩
    · rw [List.mem_singleton.mp (List.mem_of_getElem? hget)]
      exact .inr h
  sessions p sid se' hlookup hget := by
    rw [State.putSession] at hlookup hget
    dsimp only at hlookup hget
    by_cases hp : p = se.peer
    · rw [hp, AList.lookup_insert] at hlookup
      cases hlookup
      rw [List.getElem?_concat_length] at hget
      cases hget
      exact .inr h
    · rw [AList.lookup_insert_ne hp] at hlookup
      exact .inl hlookup

theorem Tame.trans_eq {s'' : State} (h : Tame s s') (hheap : s''.heap = s'.heap)
    (hsessions : s''.sessions = s'.sessions)
    (hsnapshot : s''.revokedSnapshot = s'.revokedSnapshot) (hsupplies : s''.supplies = s'.supplies) : Tame s s'' where
  snapshot := hsnapshot.trans h.snapshot
  supplies := hsupplies.trans h.supplies
  heap sid se' hget := h.heap sid se' (hheap ▸ hget)
  sessions p sid se' hlookup hget := h.sessions p sid se' (hsessions ▸ hlookup) (hheap ▸ hget)

section

variable {i : Nat} {u : State}

theorem Enforcing.goto (h : Enforcing s) (htame : Tame s u) (hthreads : u.threads = s.threads)
    (hlog : u.log = s.log ++ new) (hnew : ∀ e ∈ new, e.Quiet (enforced s.log)) (hfine : Fine u c) :
    Enforcing (u.goto i t c) := by
  refine h.next (htame.trans_eq rfl rfl rfl rfl) hlog hnew fun t' ht' => ?_
  rcases mem_goto ht' with hold | rfl
  · exact .inl (hthreads ▸ hold)
  · exact .inr hfine

theorem Enforcing.finish (h : Enforcing s) (htame : Tame s u) (hthreads : u.threads = s.threads)
    (hlog : u.log = s.log ++ new) (hnew : ∀ e ∈ new, e.Quiet (enforced s.log)) : Enforcing (u.finish i) :=
  @Enforcing.goto s { call := .done } new .done i u h htame hthreads hlog hnew trivial

theorem Enforcing.spawn {b : Bool} (h : Enforcing s) (htame : Tame s u) (hthreads : u.threads = s.threads)
    (hlog : u.log = s.log ++ new) (hnew : ∀ e ∈ new, e.Quiet (enforced s.log)) (hfine : Fine u c) :
    Enforcing (u.spawn c b) := by
  refine h.next (htame.trans_eq rfl rfl rfl rfl) hlog hnew fun t' ht' => ?_
  rcases List.mem_append.mp ht' with hold | hnew
  · exact .inl (hthreads ▸ hold)
  · rw [List.mem_singleton.mp hnew]
    exact .inr hfine

theorem Enforcing.moved (h : Enforcing s) (hfine : Fine s c) : Enforcing (s.goto i t c) :=
  h.goto (Tame.refl s) rfl (List.append_nil _).symm nofun hfine

theorem Enforcing.returned (h : Enforcing s) : Enforcing (s.finish i) :=
  h.finish (Tame.refl s) rfl (List.append_nil _).symm nofun

theorem quiet_singleton {E : Finset Fingerprint} (he : e.Quiet E) : ∀ e' ∈ [e], e'.Quiet E := by
  intro e' he'
  rw [List.mem_singleton.mp he']
  exact he

theorem Enforcing.notedIf {b : Bool} (h : Enforcing s) (he : e.Quiet (enforced s.log)) :
    Enforcing ((s.noteIf b e).finish i) := by
  cases b with
  | true => exact h.finish (.of_eq rfl rfl rfl rfl) rfl rfl (quiet_singleton he)
  | false => exact h.returned

theorem Enforcing.open_barred {peer : NodeId} (h : Enforcing s) (hlookup : s.sessions.lookup peer = some sid) :
    s.barred (enforced s.log) sid = true := by
  rw [barred_iff]
  intro se hse hfp
  rcases h.covered peer sid se hlookup hse hfp with hrevoked | hin
  · exact hrevoked
  · cases hin

theorem clear_of_barred {se : PeerSession} (h : s.barred set sid = true) (hse : s.heap[sid]? = some se)
    (hrevoked : se.revoked = false) : se.peerFingerprint ∉ set := fun hfp => by
  rw [barred_iff.mp h se hse hfp] at hrevoked
  cases hrevoked

theorem getElem?_setSession {se se' : PeerSession} (hse : s.heap[sid]? = some se) :
    (s.setSession sid se').heap[sid]? = some se' :=
  List.getElem?_set_self (List.getElem?_eq_some_iff.mp hse).1

theorem Enforcing.stepFrame {f : FrameCall} {now : Int} (h : Enforcing s) (hcfg : cfg.handshake = true)
    (hf : f.settled s (enforced s.log) = true) (hstep : s.stepFrame cfg i t now f = some s') : Enforcing s' := by
  cases f with
  | sending to_ f =>
    rw [State.stepFrame] at hstep
    split at hstep
    · next sid hlookup =>
      cases hstep
      exact h.moved (h.open_barred hlookup)
    · rw [if_pos hcfg] at hstep
      cases hstep
      exact h.moved trivial
  | looked to_ f sid =>
    obtain ⟨se, hse, hstep⟩ := Option.bind_eq_some_iff.mp hstep
    split at hstep
    · cases hstep
    · split at hstep
      · cases hstep
        exact h.returned
      · next hrevoked =>
        cases hstep
        refine h.goto (.setSession hse (.inl ⟨rfl, id⟩)) rfl (List.append_nil _).symm nofun ?_
        have hfree : se.peerFingerprint ∉ enforced s.log :=
          clear_of_barred hf hse (Bool.not_eq_true _ ▸ hrevoked)
        refine clear_iff.mpr fun se' hse' => ?_
        rw [getElem?_setSession hse] at hse'
        cases hse'
        exact hfree
  | holding to_ f sid =>
    obtain ⟨se, hse, hstep⟩ := Option.bind_eq_some_iff.mp hstep
    cases hstep
    have htame : Tame s (s.setSession sid
        { (se.sealFrame cfg.aead cfg.clusterId cfg.self_ to_ f).1 with sessionMu := none }) :=
      .setSession hse (.inl ⟨rfl, id⟩)
    exact h.finish (htame.trans_eq rfl rfl rfl rfl) rfl rfl (quiet_singleton (clear_iff.mp hf se hse))
  | receiving f =>
    rw [State.stepFrame] at hstep
    split at hstep
    · cases hstep
      exact h.returned
    · split at hstep
      · next sid hlookup =>
        cases hstep
        exact h.moved (h.open_barred hlookup)
      · cases hstep
        exact h.returned
  | opening f sid =>
    obtain ⟨se, hse, hstep⟩ := Option.bind_eq_some_iff.mp hstep
    split at hstep
    · cases hstep
    · split at hstep
      · cases hstep
        exact h.returned
      · next hrevoked =>
        split at hstep
        · cases hstep
          exact h.returned
        · next se' f' hopen =>
          cases hstep
          obtain ⟨recvHigh, rfl⟩ := PeerSession.openFrame_eq hopen
          have hfree : se.peerFingerprint ∉ enforced s.log :=
            clear_of_barred hf hse (Bool.not_eq_true _ ▸ hrevoked)
          refine h.goto (.setSession hse (.inl ⟨rfl, id⟩)) rfl (List.append_nil _).symm
            nofun ?_
          refine clear_iff.mpr fun se' hse' => ?_
          rw [getElem?_setSession hse] at hse'
          cases hse'
          exact hfree
  | handing f sid =>
    obtain ⟨se, hse, hstep⟩ := Option.bind_eq_some_iff.mp hstep
    cases hstep
    exact h.notedIf (clear_iff.mp hf se hse)

theorem Enforcing.scans_current {supply : Nat} (h : Enforcing s) (ht : t ∈ s.threads)
    (hscans : t.scans = some (set, supply)) (hnow : supply = s.supplies) : s.revokedSnapshot = some set := by
  have hfine := h.calls t ht
  rw [Thread.scans] at hscans
  split at hscans
  · next hcall =>
    cases hscans
    rw [hcall] at hfine
    exact hfine.1.2 hnow
  · next hcall =>
    cases hscans
    rw [hcall] at hfine
    exact hfine.1.2 hnow
  · cases hscans

/-- A handshake that was made under the current set, or has a fingerprint nobody watches, brings no watched one. -/
theorem Enforcing.unwatched {captured : Option (Finset Fingerprint)} (h : Enforcing s)
    (haccepts : captured.all (fp ∉ ·) = true) (htimely : (captured = s.revokedSnapshot || !s.watches fp) = true) :
    s.watches fp = false := by
  rcases (Bool.or_eq_true _ _).mp htimely with hcurrent | hfree
  · rw [decide_eq_true_iff] at hcurrent
    rw [hcurrent, Option.all_eq_true] at haccepts
    rw [watches, Bool.or_eq_false_iff, decide_eq_false_iff_not, List.any_eq_false]
    constructor
    · intro hfp
      obtain ⟨set, hset, hin⟩ := (Option.any_eq_true _ _).mp (h.current fp hfp)
      have hout := haccepts set hset
      rw [decide_eq_true_iff] at hin hout
      exact hout hin
    · intro t ht hscan
      obtain ⟨⟨set, supply⟩, hscans, hin⟩ := (Option.any_eq_true _ _).mp hscan
      rw [Bool.and_eq_true, decide_eq_true_iff, decide_eq_true_iff] at hin
      have hout := haccepts set (h.scans_current ht hscans hin.1)
      rw [decide_eq_true_iff] at hout
      exact hout hin.2
  · rw [Bool.not_eq_true'] at hfree
    exact hfree

theorem Enforcing.installed {d : Completion} (h : Enforcing s) (htame : Tame s u) (hthreads : u.threads = s.threads)
    (hlog : u.log = s.log ++ new) (hnew : ∀ e ∈ new, e.Quiet (enforced s.log)) : Enforcing (u.installed i t d) := by
  obtain ⟨k', hinstalled, hplain⟩ := installed_eq u i t d
  rw [hinstalled]
  refine h.goto htame hthreads hlog hnew (fine_handshake_iff.mpr fun c hc => ?_)
  rw [hplain] at hc
  cases hc

theorem Enforcing.stepHandshake {k : HandshakeCall} {now : Int} {a : Advance} (h : Enforcing s)
    (hk : Fine s (.handshake k)) (htimely : (Call.handshake k).timely s = true)
    (hstep : s.stepHandshake cfg i t now a k = some s') : Enforcing s' := by
  rcases stepHandshake_effect hstep with ⟨pending, new, t', call, rfl, hnew,
    honward⟩ | ⟨c, sid, se, rfl, hse, -, rfl⟩ |
    ⟨c, rfl, rfl⟩ | ⟨peer, rfl, rfl⟩
  · refine h.goto (.of_eq rfl rfl rfl rfl) rfl rfl (fun e he => quiet_of_minor (hnew e he)) ?_
    cases call with
    | frame | upkeep => cases honward
    | done => trivial
    | handshake k' =>
      refine fine_handshake_iff.mpr fun c hc => ?_
      rcases honward.1 c hc with hsame | haccepts
      · exact fine_handshake_iff.mp hk c hsame
      · exact haccepts
  · have htame : Tame s (s.setSession sid (se.installRenegotiated c.result.sendCipher c.result.recvCipher
        c.result.peerFingerprint now)) := .setSession hse (.inr (h.unwatched hk htimely))
    exact h.installed (htame.trans_eq rfl rfl rfl rfl) rfl rfl (quiet_singleton trivial)
  · have htame : Tame s (s.putSession
        { peer := c.peer, sendCipher := c.result.sendCipher, recvCipher := c.result.recvCipher,
          peerFingerprint := c.result.peerFingerprint, renegotiatedAt := now }) :=
      .putSession (h.unwatched hk htimely)
    exact h.installed (htame.trans_eq rfl rfl rfl rfl) rfl rfl (quiet_singleton trivial)
  · rw [noteIf_eq]
    refine h.finish (.erased (fun _ _ => Table.lookup_of_erase) rfl rfl rfl) rfl rfl fun e he => ?_
    split at he
    · rw [List.mem_singleton.mp he]
      trivial
    · cases he

/-- A sweep returns while its set is the current one, all open sessions with such a fingerprint are revoked,
and no frame call is past its check. -/
theorem Enforcing.swept (h : Enforcing s) (hcurrent : s.revokedSnapshot = some set) (hcovered : Covered s set [])
    (hsettled : ∀ t ∈ s.threads, t.call.settled s set = true) : Enforcing (s.note (.swept set)) := by
  have hlog : enforced (s.note (.swept set)).log = enforced s.log ∪ set := enforced_concat s.log (.swept set)
  refine ⟨?_, ?_, ?_, h.silent.concat nofun⟩
  · rw [hlog]
    intro p sid se hlookup hse hfp
    rcases mem_union.mp hfp with hold | hnew
    · exact h.covered p sid se hlookup hse hold
    · exact hcovered p sid se hlookup hse hnew
  · rw [hlog]
    intro fp hfp
    rcases mem_union.mp hfp with hold | hnew
    · exact h.current fp hold
    · show s.revokedSnapshot.any _ = true
      rw [hcurrent, Option.any_some]
      exact decide_eq_true hnew
  · intro t ht
    have hfine := h.calls t ht
    have hset := hsettled t ht
    rcases hcall : t.call with f | c | c | _
    · rw [hcall] at hfine hset
      rw [Fine, hlog]
      exact settled_union hfine hset
    · rw [hcall] at hfine
      exact hfine.handshake
    · rw [hcall] at hfine
      cases c with
      | listing | scanning | retiring => exact hfine
      | disconnecting | swapped | fenced | aborting | closing | purging => trivial
    · trivial

theorem Enforcing.supply (h : Enforcing s) (revoked : Option (Finset Fingerprint)) : Enforcing
    (s.supply revoked) := by
  have hlog : enforced (s.supply revoked).log = ∅ := enforced_concat s.log .supplied
  refine ⟨?_, ?_, ?_, h.silent.concat nofun⟩
  · rw [hlog]
    intro _ _ _ _ _ hfp
    cases hfp
  · rw [hlog]
    intro _ hfp
    cases hfp
  · intro t ht
    have hfine := h.calls t ht
    rcases hcall : t.call with f | c | c | _
    · rw [Fine, hlog]
      exact settled_none (.frame f)
    · rw [hcall] at hfine
      exact hfine.handshake
    · rw [hcall] at hfine
      cases c with
      | listing => exact hfine.stale
      | scanning | retiring =>
        exact ⟨hfine.1.stale, fun hnow =>
          absurd (le_of_eq_of_le hnow.symm hfine.1.1) (Nat.not_succ_le_self s.supplies)⟩
      | disconnecting | swapped | fenced | aborting | closing | purging => trivial
    · trivial

theorem settled_congr (hheap : s'.heap = s.heap) (h : c.settled s set = true) : c.settled s' set = true := by
  rcases c with f | _ | _ | _
  · cases f with
    | looked | opening =>
      rw [Call.settled, FrameCall.settled, barred, hheap]
      exact h
    | holding | handing =>
      rw [Call.settled, FrameCall.settled, clear, hheap]
      exact h
    | sending | receiving => rfl
  · rfl
  · rfl
  · rfl

theorem Enforcing.scanned {supply : Nat} {todo clients clients' : List SessionId} {se : PeerSession} (h : Enforcing s)
    (ht : t ∈ s.threads) (hcall : t.call = .upkeep (.scanning set supply (sid :: todo) clients))
    (hse : s.heap[sid]? = some se) :
    Enforcing ((s.setSession sid se.revoke).goto i t (.upkeep (.scanning set supply todo clients'))) ∧
      (¬(se.revoked = false ∧ se.peerFingerprint ∈ set) →
        Enforcing (s.goto i t (.upkeep (.scanning set supply todo clients')))) := by
  have hfine := h.calls t ht
  rw [hcall] at hfine
  have htame : Tame s (s.setSession sid se.revoke) := .setSession hse (.inl ⟨rfl, fun _ => rfl⟩)
  constructor
  · refine h.goto htame rfl (List.append_nil _).symm nofun ⟨hfine.1.tame htame, fun hnow => ?_⟩
    have hcovered := (hfine.2 hnow).tame htame fun fp hfp =>
      watches_of_scans ht (by rw [Thread.scans, hcall, hnow]; rfl) hfp
    intro p sid' se' hlookup hheap hfp
    rcases hcovered p sid' se' hlookup hheap hfp with hrevoked | hin
    · exact .inl hrevoked
    · rcases List.mem_cons.mp hin with rfl | hin
      · rw [getElem?_setSession hse] at hheap
        cases hheap
        exact .inl rfl
      · exact .inr hin
  · intro hskip
    refine h.moved ⟨hfine.1, fun hnow p sid' se' hlookup hheap hfp => ?_⟩
    rcases hfine.2 hnow p sid' se' hlookup hheap hfp with hrevoked | hin
    · exact .inl hrevoked
    · rcases List.mem_cons.mp hin with rfl | hin
      · rw [hse] at hheap
        cases hheap
        exact .inl (Bool.not_eq_false _ ▸ fun hr => hskip ⟨hr, hfp⟩)
      · exact .inr hin

theorem Enforcing.retired {supply : Nat} {clients : List SessionId} (h : Enforcing s) (ht : t ∈ s.threads)
    (hcall : t.call = .upkeep (.retiring set supply clients))
    (htimely : (Call.upkeep (.retiring set supply clients)).timely s = true) :
    Enforcing (({ s with sessions := s.eraseClients clients }.resetClients cfg clients).swept set supply) := by
  have hfine := h.calls t ht
  rw [hcall] at hfine
  obtain ⟨new, hreset, hnew⟩ := resetClients_eq cfg { s with sessions := s.eraseClients clients } clients
  rw [hreset, State.swept, State.noteIf]
  have htame : Tame s { s with sessions := s.eraseClients clients, log := s.log ++ new } :=
    .erased (fun _ _ => lookup_eraseClients) rfl rfl rfl
  have herased : Enforcing { s with sessions := s.eraseClients clients, log := s.log ++ new } := by
    refine h.next htame rfl (fun e he => ?_) fun _ ht => .inl ht
    obtain ⟨peer, rfl⟩ := hnew e he
    trivial
  split
  · next hnow =>
    have hnow : supply = s.supplies := (decide_eq_true_iff.mp hnow).symm
    rw [Call.timely, Bool.or_eq_true, decide_eq_true_iff, List.all_eq_true] at htimely
    refine herased.swept (hfine.1.2 hnow) ((hfine.2 hnow).tame htame fun fp hfp =>
      watches_of_scans ht (by rw [Thread.scans, hcall, hnow]) hfp) fun u hu => ?_
    exact settled_congr rfl (htimely.resolve_left (not_not_intro hnow) u hu)
  · exact herased

theorem Enforcing.stepUpkeep {k : UpkeepCall} (h : Enforcing s) (ht : t ∈ s.threads) (hcall : t.call = .upkeep k)
    (htimely : (Call.upkeep k).timely s = true) (hstep : s.stepUpkeep cfg i t k = some s') : Enforcing s' := by
  have hfine := h.calls t ht
  rw [hcall] at hfine
  cases k with
  | listing set supply =>
    cases hstep
    refine h.moved ⟨hfine, fun _ p sid se hlookup _ _ => .inr ?_⟩
    exact List.mem_map.mpr ⟨⟨p, sid⟩, Table.mem_entries_iff.mpr hlookup, rfl⟩
  | scanning set supply todo clients =>
    cases todo with
    | nil =>
      cases hstep
      exact h.moved hfine
    | cons sid todo =>
      obtain ⟨se, hse, hstep⟩ := Option.bind_eq_some_iff.mp hstep
      split at hstep
      · cases hstep
        exact (h.scanned ht hcall hse).1
      · next hskip =>
        cases hstep
        exact (h.scanned ht hcall hse).2 hskip
  | retiring set supply clients =>
    cases hstep
    exact (h.retired ht hcall htimely).returned
  | disconnecting peer =>
    cases hstep
    exact h.finish (.of_eq rfl rfl rfl rfl) rfl (List.append_nil _).symm nofun
  | swapped snap inside =>
    rw [State.stepUpkeep] at hstep
    split at hstep
    · cases hstep
    · cases hstep
      exact h.moved trivial
  | fenced snap | aborting snap doomed =>
    cases hstep
    exact h.moved trivial
  | closing snap doomed =>
    cases doomed with
    | nil =>
      cases hstep
      exact h.finish (.of_eq rfl rfl rfl rfl) rfl rfl (quiet_singleton trivial)
    | cons p doomed =>
      rw [State.stepUpkeep] at hstep
      split at hstep
      · cases hstep
        exact h.goto (.erased (fun _ _ => Table.lookup_of_erase) rfl rfl rfl) rfl (List.append_nil _).symm
          nofun trivial
      · cases hstep
        exact h.moved trivial
  | purging snap p doomed =>
    cases hstep
    rw [noteIf_eq]
    refine h.goto (.of_eq rfl rfl rfl rfl) rfl rfl (fun e he => ?_) trivial
    split at he
    · rw [List.mem_singleton.mp he]
      trivial
    · cases he

theorem Enforcing.step {l : Label} (h : Enforcing s) (hcfg : cfg.handshake = true) (htimely : l.timely s = true)
    (hstep : s.step cfg l = some s') : Enforcing s' := by
  cases l with
  | send to_ f =>
    rw [State.step] at hstep
    split at hstep
    · cases hstep
      exact h.spawn (Tame.refl s) rfl (List.append_nil _).symm nofun rfl
    · cases hstep
      exact h
  | receive r now =>
    rw [State.step] at hstep
    split at hstep
    · split at hstep
      · cases hstep
        exact h
      · cases hstep
        exact h.spawn (.of_eq rfl rfl rfl rfl) rfl (List.append_nil _).symm nofun trivial
    · split at hstep
      · cases hstep
        exact h.spawn (Tame.refl s) rfl (List.append_nil _).symm nofun rfl
      · cases hstep
        exact h
  | request peer =>
    cases hstep
    exact h.spawn (Tame.refl s) rfl (List.append_nil _).symm nofun trivial
  | renegotiate peer =>
    rw [State.step, if_pos hcfg] at hstep
    cases hstep
    exact h.spawn (Tame.refl s) rfl (List.append_nil _).symm nofun trivial
  | inboundReady token =>
    rw [State.step] at hstep
    split at hstep
    · cases hstep
      exact h
    · split at hstep
      · cases hstep
        exact h.next (.of_eq rfl rfl rfl rfl) rfl (quiet_singleton trivial) fun _ ht => .inl ht
      · cases hstep
        exact h.spawn (.of_eq rfl rfl rfl rfl) rfl rfl (quiet_singleton trivial) trivial
  | setRevoked revoked =>
    cases hstep
    exact h.supply revoked
  | sweepRevocations revoked =>
    have hsupply := h.supply revoked
    cases revoked with
    | none =>
      cases hstep
      exact hsupply
    | some set =>
      rw [State.step] at hstep
      split at hstep
      · next hempty =>
        cases hstep
        subst hempty
        exact hsupply.swept rfl nofun fun t _ => settled_none t.call
      · cases hstep
        exact hsupply.spawn (Tame.refl _) rfl (List.append_nil _).symm nofun
          ⟨le_rfl, fun _ => rfl⟩
  | disconnected peer =>
    rw [State.step, if_pos hcfg] at hstep
    cases hstep
    exact h.spawn (.erased (fun _ _ => Table.lookup_of_erase) rfl rfl rfl) rfl (List.append_nil _).symm
      nofun trivial
  | publish snap inside =>
    rw [State.step] at hstep
    split at hstep
    · cases hstep
    · split at hstep
      · cases hstep
        exact h
      · cases hstep
        exact h.spawn (.of_eq rfl rfl rfl rfl) rfl rfl (quiet_singleton trivial) trivial
  | go i now a =>
    obtain ⟨t, hget, hgo⟩ := Option.bind_eq_some_iff.mp hstep
    have ht := List.mem_of_getElem? hget
    have hfine := h.calls t ht
    rw [Label.timely, hget, Option.all_some] at htimely
    split at hgo
    · next hcall =>
      rw [hcall] at hfine
      exact h.stepFrame hcfg hfine hgo
    · next hcall =>
      rw [hcall] at hfine htimely
      exact h.stepHandshake hfine htimely hgo
    · next hcall =>
      rw [hcall] at htimely
      exact h.stepUpkeep ht hcall htimely hgo
    · cases hgo

end

end

section

variable {cfg : Config} {s : State} {before after : List Event} {set : Finset Fingerprint} {e : Event}
  {fp : Fingerprint}

theorem Enforcing.start : Enforcing {} where
  covered _ _ _ hlookup := by cases hlookup
  current _ hfp := by cases hfp
  calls _ ht := by cases ht
  silent before e after heq := by cases before <;> cases heq

/-- Once a sweep of `set` has returned and until another set is stored, no frame is sent or delivered on a
session with a fingerprint in it, in every run in which no handshake made under another set installs such a
fingerprint once the sweep has listed the sessions, and no frame call is past its check when the sweep
returns. -/
theorem swept_sessions_silent (hcfg : cfg.handshake = true)
    (hrun : Reach (State.step cfg) (fun s l => l.timely s = true) {} s)
    (hlog : s.log = before ++ .swept set :: after) (hcurrent : ∀ e ∈ after, e ≠ .supplied) (he : e ∈ after)
    (hframe : e.frameOn = some fp) : fp ∉ set := by
  have hinv : Enforcing s := hrun.invariant Enforcing.start fun _ _ _ h hok hstep => h.step hcfg hok hstep
  obtain ⟨middle, rest, rfl⟩ := List.append_of_mem he
  have hset : set ⊆ enforced (before ++ .swept set :: middle) :=
    subset_enforced fun e' he' => hcurrent e' (List.mem_append_left _ he')
  intro hfp
  refine hinv.silent (before ++ .swept set :: middle) e rest ?_ fp hframe (hset hfp)
  rw [hlog, List.append_assoc]
  rfl

end

section

open Sample

def Event.sweptSet : Event → Option (Finset Fingerprint)
  | .swept set => some set
  | _ => none

def Event.isSupplied : Event → Bool
  | .supplied => true
  | _ => false

theorem split_at_swept {log : List Event} {n : Nat} {set : Finset Fingerprint}
    (h : (log[n]?).bind Event.sweptSet = some set) : log = log.take n ++ .swept set :: log.drop (n + 1) := by
  obtain ⟨e, he, hset⟩ := Option.bind_eq_some_iff.mp h
  obtain ⟨hn, rfl⟩ := List.getElem?_eq_some_iff.mp he
  have hswept : log[n] = .swept set := by
    cases hevent : log[n] with
    | swept set' =>
      rw [hevent] at hset
      cases hset
      rfl
    | sent | delivered | authenticate | installed | dialed | identified | rejected | reset | closed | supplied
    | publishing | published =>
      rw [hevent] at hset
      cases hset
  rw [← hswept, List.getElem_cons_drop, List.take_append_drop]

theorem not_supplied_of_all {log : List Event} (h : log.all (!·.isSupplied) = true) : ∀ e ∈ log, e ≠ .supplied := by
  intro e he hsupplied
  have hnot := List.all_eq_true.mp h e he
  rw [hsupplied] at hnot
  cases hnot

/-- What a sample run shows: its `n`-th event is the return of a sweep, no set was stored after, and these
frames passed. -/
def passedAfter (n : Nat) (s : State) : Option (Finset Fingerprint) × Bool × List Fingerprint :=
  ((s.log[n]?).bind Event.sweptSet, (s.log.drop (n + 1)).all (!·.isSupplied),
    (s.log.drop (n + 1)).filterMap Event.frameOn)

/-- Sessions with 2 and 3; 2 is revoked, and a frame goes to 3. -/
theorem swept_sessions_silent_other : ∃ (s : State) (before after : List Event) (e : Event),
    s.log = before ++ .swept {certificate 2} :: after ∧ e ∈ after ∧ e.frameOn = some (certificate 3) ∧
    certificate 3 ∉ ({certificate 2} : Finset Fingerprint) := by
  obtain ⟨s, hrun, hfacts⟩ := Option.map_eq_some_iff.mp (show (Machine.run
    (guarded (State.step node) fun s l => l.timely s = true) {}
      (opening 0 (.request 2) 4 ++ (answered 1 2 (certificate 2) ++ (opening 2 (.request 3) 4 ++
        (answered 3 3 (certificate 3) ++
        (.sweepRevocations (some {certificate 2}) :: List.replicate 5 (.go 4 0 .failed) ++
          sends 5 3)))))).map (passedAfter 5) = some (some {certificate 2}, true, [certificate 3]) by decide +kernel)
  rw [passedAfter, Prod.mk.injEq, Prod.mk.injEq] at hfacts
  have hlog := split_at_swept hfacts.1
  obtain ⟨e, he, hframe⟩ := List.mem_filterMap.mp (hfacts.2.2 ▸ List.mem_cons_self : certificate 3 ∈ _)
  exact ⟨s, _, _, e, hlog, he, hframe, swept_sessions_silent rfl (reach_of_run hrun) hlog
    (not_supplied_of_all hfacts.2.1) he hframe⟩

/-- The handshake with 2 was pending when its certificate was revoked. It completes, and a frame goes to 2. -/
theorem pending_handshake_escapes_sweep : ∃ (s : State) (before after : List Event) (e : Event),
    Reachable (State.step node) {} s ∧ s.log = before ++ .swept {certificate 2} :: after ∧
    (∀ e ∈ after, e ≠ .supplied) ∧ e ∈ after ∧ e.frameOn = some (certificate 2) := by
  obtain ⟨s, hrun, hfacts⟩ := Option.map_eq_some_iff.mp (show (Machine.run (State.step node) {}
    (opening 0 (.request 2) 4 ++ (.sweepRevocations (some {certificate 2}) :: List.replicate 3 (.go 1 0 .failed) ++
      (answered 2 2 (certificate 2) ++ sends 3 2)))).map (passedAfter 2) =
        some (some {certificate 2}, true, [certificate 2]) by decide +kernel)
  rw [passedAfter, Prod.mk.injEq, Prod.mk.injEq] at hfacts
  obtain ⟨e, he, hframe⟩ := List.mem_filterMap.mp (hfacts.2.2 ▸ List.mem_cons_self : certificate 2 ∈ _)
  exact ⟨s, _, _, e, reachable_of_run hrun, split_at_swept hfacts.1, not_supplied_of_all hfacts.2.1, he, hframe⟩

end

end Quark.Secure
