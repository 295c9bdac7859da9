import Quark.SecureTransport

/-! Forged Authenticate frames: whoever cannot complete a handshake as a peer leaves its session alone, unless
an engine fails where the transport takes the failure for its own. -/
namespace Quark.Secure

open Machine State
open Swim (NodeId isClientNode)

def Advance.isDone : Advance → Bool
  | .done .. => true
  | _ => false

/-- The labels of an adversary that has no credentials of `peer`: any Authenticate frame in its name, and the
calls that such frames started, whose engines do not reach `Done`. `first` is the first thread that is not
older. -/
def Label.forges (peer : NodeId) (first : Nat) : Label → Bool
  | .receive r _ => r.frame.kind = FrameKind.authenticate && r.frame.from_ = peer
  | .go i _ a => first ≤ i && !a.isDone
  | _ => false

/-- A failure of this engine costs the peer something: this side started it and the frame is empty, or the peer is a
client and a reset hook is set. -/
def Drive.costly (cfg : Config) (d : Drive) : Bool :=
  (d.input.isEmpty && d.initiatedHere) || (isClientNode d.peer && cfg.resetHook)

def Thread.drive (t : Thread) : Option Drive :=
  match t.call with
  | .handshake (.driving d) => some d
  | _ => none

def Label.spares (cfg : Config) (s : State) : Label → Bool
  | .go i _ .failed => ((s.threads[i]?).bind Thread.drive).all fun d => !d.costly cfg
  | _ => true

/-- The hooks were not called for `peer`. -/
def Event.Mild (peer : NodeId) (e : Event) : Prop := e ≠ .reset peer ∧ e ≠ .closed peer

/-- Where a call that a forged frame started can stand. -/
def HandshakeCall.Forged (cfg : Config) (peer : NodeId) : HandshakeCall → Prop
  | .authenticating r | .opener r | .admitted r | .reserved r => r.frame.from_ = peer
  | .driving d => d.peer = peer
  | .failed p own initiatedHere => ((own && initiatedHere) || (isClientNode p && cfg.resetHook)) = false
  | .anonymous .. | .replying .. => True
  | _ => False

def Call.Forged (cfg : Config) (peer : NodeId) : Call → Prop
  | .handshake c => c.Forged cfg peer
  | .done => True
  | _ => False

/-- What the forged frames leave as it was in `s₀`. -/
structure Spared (cfg : Config) (peer : NodeId) (s₀ s : State) : Prop where
  sessions : s.sessions = s₀.sessions
  heap : s.heap = s₀.heap
  log : ∃ new, s.log = s₀.log ++ new ∧ ∀ e ∈ new, e.Mild peer
  older : s₀.threads.length ≤ s.threads.length
  calls : ∀ i t, s₀.threads.length ≤ i → s.threads[i]? = some t → t.call.Forged cfg peer

section

variable {cfg : Config} {peer : NodeId} {s₀ s s' : State} {i : Nat} {t : Thread} {now : Int}
  {a : Advance} {call : Call}

theorem Spared.refl (cfg : Config) (peer : NodeId) (s : State) : Spared cfg peer s s where
  sessions := rfl
  heap := rfl
  log := ⟨[], (List.append_nil s.log).symm, nofun⟩
  older := le_rfl
  calls i t hi ht := by
    rw [List.getElem?_eq_none hi] at ht
    cases ht

theorem Spared.goto (h : Spared cfg peer s₀ s) (hcall : call.Forged cfg peer) :
    Spared cfg peer s₀ (s.goto i t call) where
  sessions := h.sessions
  heap := h.heap
  log := h.log
  older := by
    show _ ≤ (s.threads.set i _).length
    rw [List.length_set]
    exact h.older
  calls j u hj hu := by
    rw [State.goto] at hu
    dsimp only at hu
    by_cases hij : i = j
    · subst hij
      rw [List.getElem?_set_self'] at hu
      obtain ⟨_, -, rfl⟩ := Option.map_eq_some_iff.mp hu
      exact hcall
    · rw [List.getElem?_set_ne hij] at hu
      exact h.calls j u hj hu

theorem Spared.note {e : Event} (h : Spared cfg peer s₀ s) (he : e.Mild peer) : Spared cfg peer s₀ (s.note e) where
  sessions := h.sessions
  heap := h.heap
  log := by
    obtain ⟨new, heq, hmild⟩ := h.log
    refine ⟨new ++ [e], ?_, ?_⟩
    · rw [State.note, heq, List.append_assoc]
    · intro e' he'
      rcases List.mem_append.mp he' with hin | hin
      · exact hmild e' hin
      · rw [List.mem_singleton.mp hin]
        exact he
  older := h.older
  calls := h.calls

theorem Spared.noteIf {e : Event} {b : Bool} (h : Spared cfg peer s₀ s) (he : b = true → e.Mild peer) :
    Spared cfg peer s₀ (s.noteIf b e) := by
  cases b with
  | true => exact h.note (he rfl)
  | false => exact h

theorem Spared.finish (h : Spared cfg peer s₀ s) (i : Nat) : Spared cfg peer s₀ (s.finish i) :=
  @Spared.goto cfg peer s₀ s i { call := .done } .done h trivial

theorem Spared.pending (h : Spared cfg peer s₀ s) (pending : Table NodeId PendingHandshake) :
    Spared cfg peer s₀ { s with pending } where
  sessions := h.sessions
  heap := h.heap
  log := h.log
  older := h.older
  calls := h.calls

theorem Spared.stepHandshake {c : HandshakeCall} (h : Spared cfg peer s₀ s) (hc : c.Forged cfg peer)
    (hdone : a.isDone = false) (hspares : a = .failed → ∀ d, c = .driving d → d.costly cfg = false)
    (hstep : s.stepHandshake cfg i t now a c = some s') : Spared cfg peer s₀ s' := by
  cases c with
  | authenticating r =>
    rw [State.stepHandshake] at hstep
    split at hstep
    · cases hstep
      exact h.finish i
    · split at hstep
      · split at hstep
        · cases hstep
          exact (h.note ⟨by simp, by simp⟩).finish i
        · cases hstep
          exact h.goto trivial
      · split at hstep
        · cases hstep
          exact h.finish i
        · obtain ⟨pending, heq⟩ := takePending_eq cfg s r.frame.from_ r.source now
          split at hstep <;> next htake =>
            rw [htake] at heq
            cases heq
            cases hstep
            first
            | exact (h.pending pending).finish i
            | exact (h.pending pending).goto hc
  | opener r =>
    rw [State.stepHandshake] at hstep
    split at hstep
    · cases hstep
      exact h.finish i
    · cases hstep
      exact h.goto hc
  | admitted r =>
    rw [State.stepHandshake] at hstep
    split at hstep
    · cases hstep
      exact (h.pending _).goto hc
    · cases hstep
      exact h.finish i
  | reserved r =>
    cases hstep
    exact h.goto hc
  | driving d =>
    cases a with
    | want out =>
      cases hstep
      exact (h.pending _).goto trivial
    | done r out => cases hdone
    | failed =>
      obtain ⟨pending, heq⟩ := releaseReservation_eq s d.peer
      have hcheap := hspares rfl d rfl
      rw [stepHandshake, heq] at hstep
      cases hstep
      exact (h.pending pending).goto hcheap
  | anonymous token engine =>
    cases a with
    | done r out => cases hdone
    | want out | failed =>
      cases hstep
      exact (h.note ⟨by simp, by simp⟩).finish i
  | replying p out =>
    cases hstep
    exact (h.noteIf fun _ => ⟨by simp, by simp⟩).finish i
  | failed p own initiatedHere =>
    rw [HandshakeCall.Forged, Bool.or_eq_false_iff] at hc
    rw [State.stepHandshake, Bool.and_comm initiatedHere, hc.1, hc.2, Bool.and_false] at hstep
    cases hstep
    exact h.finish i
  | requesting _ | starting _ | completed _ | installing _ | swapping _ _ | creating _ | binding _ _ _ | erasing _ =>
    cases hc

theorem Spared.spawn {b : Bool} (h : Spared cfg peer s₀ s) (hcall : call.Forged cfg peer) :
    Spared cfg peer s₀ (s.spawn call b) where
  sessions := h.sessions
  heap := h.heap
  log := h.log
  older := h.older.trans (List.length_append ▸ Nat.le_add_right _ _)
  calls j u hj hu := by
    rw [State.spawn, List.getElem?_append] at hu
    split at hu
    · exact h.calls j u hj hu
    · rw [List.mem_singleton.mp (List.mem_of_getElem? hu)]
      exact hcall

theorem Spared.step {l : Label} (h : Spared cfg peer s₀ s) (hforges : l.forges peer s₀.threads.length = true)
    (hspares : l.spares cfg s = true) (hstep : s.step cfg l = some s') : Spared cfg peer s₀ s' := by
  cases l with
  | receive r now =>
    rw [Label.forges, Bool.and_eq_true, decide_eq_true_iff, decide_eq_true_iff] at hforges
    rw [State.step, if_pos hforges.1] at hstep
    split at hstep
    · cases hstep
      exact h
    · cases hstep
      exact (h.pending _).spawn hforges.2
  | go i now a =>
    rw [Label.forges, Bool.and_eq_true, decide_eq_true_iff, Bool.not_eq_true'] at hforges
    obtain ⟨t, ht, hgo⟩ := Option.bind_eq_some_iff.mp hstep
    have hcall := h.calls i t hforges.1 ht
    split at hgo
    · next hc =>
      rw [hc] at hcall
      cases hcall
    · next c hc =>
      rw [hc] at hcall
      refine h.stepHandshake hcall hforges.2 (fun hfail d hd => ?_) hgo
      subst hfail hd
      rw [Label.spares, ht, Option.bind_some, Thread.drive, hc, Option.all_some, Bool.not_eq_true'] at hspares
      exact hspares
    · next hc =>
      rw [hc] at hcall
      cases hcall
    · cases hgo
  | send | request | renegotiate | inboundReady | setRevoked | sweepRevocations | disconnected | publish =>
    cases hforges

end

section

variable {cfg : Config} {peer : NodeId} {sid : SessionId} {se : PeerSession} {s s' : State}

/-- Forged Authenticate frames for a peer with a live session, from any state, in any order and timing: as long as no
engine fails at a cost, the session stays as it is and neither hook is called for the peer. -/
theorem forged_frames_spare_session (hlive : s.sessions.lookup peer = some sid) (hsession : s.heap[sid]? = some se)
    (hrun : Reach (State.step cfg)
      (fun now l => l.forges peer s.threads.length = true ∧ l.spares cfg now = true) s s') :
    s'.sessions.lookup peer = some sid ∧ s'.heap[sid]? = some se ∧
      ∃ new, s'.log = s.log ++ new ∧ ∀ e ∈ new, e ≠ .reset peer ∧ e ≠ .closed peer := by
  have hspared : Spared cfg peer s s' :=
    hrun.invariant (Spared.refl cfg peer s) fun _ _ _ h hok hstep => h.step hok.1 hok.2 hstep
  refine ⟨?_, ?_, hspared.log⟩
  · rw [hspared.sessions]
    exact hlive
  · rw [hspared.heap]
    exact hsession

section

open Sample

/-- Node 1 and member 2 have a session, and node 1 is renegotiating. -/
def renegotiating : List Label :=
  opening 0 (.request 2) 4 ++ (answered 1 2 noFingerprint ++ opening 2 (.renegotiate 2) 3)

def forgedFrame (payload : List UInt8) : List Label :=
  .receive { frame := authenticateFrame 2 1 payload } 0 :: List.replicate 4 (.go 3 0 .failed)

theorem renegotiating_live : (Machine.run (State.step node) {} renegotiating).map
    (fun s => (s.sessions.lookup 2, s.heap.length, s.threads.length)) = some (some 0, 1, 3) := by decide +kernel

theorem forged_frames_spare_session_garbage : ∃ (s s' : State) (se : PeerSession), Reachable (State.step node) {} s ∧
    s.sessions.lookup 2 = some 0 ∧ s.heap[0]? = some se ∧
    s'.sessions.lookup 2 = some 0 ∧ s'.heap[0]? = some se ∧
    ∃ new, s'.log = s.log ++ new ∧ ∀ e ∈ new, e ≠ .reset 2 ∧ e ≠ .closed 2 := by
  obtain ⟨s, hs, hfacts⟩ := Option.map_eq_some_iff.mp renegotiating_live
  rw [Prod.mk.injEq, Prod.mk.injEq] at hfacts
  have hlen : 0 < s.heap.length := by omega
  obtain ⟨s', hrun, -⟩ := Option.map_eq_some_iff.mp
    (show ((Machine.run (State.step node) {} renegotiating).bind fun s =>
    Machine.run (guarded (State.step node) fun now l => l.forges 2 3 = true ∧ l.spares node now = true) s
      ((forgedFrame [9]).take 4)).map (fun _ => ()) = some () by decide +kernel)
  rw [hs, Option.bind_some] at hrun
  have hreach := reach_of_run hrun
  rw [← hfacts.2.2] at hreach
  exact ⟨s, s', s.heap[0], reachable_of_run hs, hfacts.1, List.getElem?_eq_getElem hlen,
    forged_frames_spare_session hfacts.1 (List.getElem?_eq_getElem hlen) hreach⟩

/-- One empty frame in the name of the peer, while node 1 renegotiates, and the session is gone. -/
theorem empty_frame_erases_session : ∃ s s' : State, Reachable (State.step node) {} s ∧
    s.sessions.lookup 2 = some 0 ∧
    Reach (State.step node) (fun _ l => l.forges 2 s.threads.length = true) s s' ∧
    s'.sessions.lookup 2 = none := by
  obtain ⟨s, hs, hfacts⟩ := Option.map_eq_some_iff.mp renegotiating_live
  rw [Prod.mk.injEq, Prod.mk.injEq] at hfacts
  obtain ⟨s', hrun, hend⟩ := Option.map_eq_some_iff.mp
    (show ((Machine.run (State.step node) {} renegotiating).bind fun s =>
    Machine.run (guarded (State.step node) fun _ l => l.forges 2 3 = true) s (forgedFrame [])).map
      (fun s => s.sessions.lookup 2) = some none by decide +kernel)
  rw [hs, Option.bind_some] at hrun
  have hreach := reach_of_run hrun
  rw [← hfacts.2.2] at hreach
  exact ⟨s, s', reachable_of_run hs, hfacts.1, hreach, hend⟩

end

end

end Quark.Secure
