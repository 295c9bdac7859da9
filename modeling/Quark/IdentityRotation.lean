import Quark.PeerSession

/-! `overlapped_material.hpp`, and what `secure_transport.hpp` does with a node's identity: each handshake is
created with a snapshot, the session is labelled when it completes, and `sweep_rotation` compares the
labels. -/
namespace Quark.Secure

open Swim (NodeId)

variable {T : Type}

/-- The material in use and, while its grace window is open, the one before. -/
structure OverlappedMaterial (T : Type) where
  current : T
  generation : UInt64 := 0
  previous : Option T := none
  previousGeneration : UInt64 := 0
  previousDeadlineNs : Int64 := 0

namespace OverlappedMaterial

structure Snapshot (T : Type) where
  current : T
  generation : UInt64 := 0
  previous : Option T := none
  previousGeneration : UInt64 := 0

/-- Where the grace window of a rotation ends. The sum of an overflow is not defined. -/
def deadline (nowNs graceNs : Int64) : Option Int64 :=
  if 0 < graceNs then
    if nowNs.toInt + graceNs.toInt < 2 ^ 63 then some (Int64.ofInt (nowNs.toInt + graceNs.toInt)) else none
  else some nowNs

def rotate (m : OverlappedMaterial T) (next : T) (nowNs graceNs : Int64) : Option (OverlappedMaterial T) :=
  (deadline nowNs graceNs).map fun previousDeadlineNs =>
    { current := next, generation := m.generation + 1, previous := some m.current
      previousGeneration := m.generation, previousDeadlineNs }

def snapshot (m : OverlappedMaterial T) (nowNs : Int64) : Snapshot T :=
  if m.previous.isSome ∧ nowNs < m.previousDeadlineNs then
    { current := m.current, generation := m.generation
      previous := m.previous, previousGeneration := m.previousGeneration }
  else { current := m.current, generation := m.generation }

end OverlappedMaterial

namespace Rotation

open OverlappedMaterial (Snapshot)

/-- What `sweep_rotation` reads of a session. -/
structure Session where
  generation : UInt64
  framesSealedOnKey : UInt64 := 0
  renegotiatedAtNs : Int64
  revoked : Bool := false
  deriving DecidableEq, Repr

def Session.installRenegotiated (se : Session) (generation : UInt64) (nowNs : Int64) : Session :=
  { se with generation, framesSealedOnKey := 0, renegotiatedAtNs := nowNs }

/-- A handshake engine, with the snapshot that it was created with. -/
structure Engine (T : Type) where
  peer : NodeId
  identity : Snapshot T

structure Config where
  handshake : Bool := true
  maxFramesPerKey : UInt64 := 1000000
  renegotiateIntervalNs : Int64 := 3600000000000

structure Node (T : Type) where
  identity : OverlappedMaterial T
  engines : List (Engine T) := []
  sessions : Table NodeId Session := ∅

namespace Node

/-- The end of `install_session_from_result`: the session takes the generation that is current by now. -/
def install (w : Node T) (peer : NodeId) (nowNs : Int64) : Node T :=
  { w with
    sessions := w.sessions.insert peer
      (match w.sessions.lookup peer with
      | some se => se.installRenegotiated w.identity.generation nowNs
      | none => { generation := w.identity.generation, renegotiatedAtNs := nowNs }) }

end Node

/-- The first of the three triggers of `sweep_rotation`. -/
def ownIdentityStale (snap : Snapshot T) (se : Session) : Bool :=
  se.generation ≠ snap.generation && !(snap.previous.isSome && se.generation = snap.previousGeneration)

def sweepRotation (cfg : Config) (w : Node T) (nowNs : Int64) : List NodeId :=
  if cfg.handshake then
    (w.sessions.entries.filter fun e =>
      !e.2.revoked && (ownIdentityStale (w.identity.snapshot nowNs) e.2 || e.2.framesSealedOnKey ≥
        cfg.maxFramesPerKey ||
        nowNs.toInt - e.2.renegotiatedAtNs.toInt ≥ cfg.renegotiateIntervalNs.toInt)).map Sigma.fst
  else []

inductive Label (T : Type)
  | rotate (next : T) (nowNs graceNs : Int64)
  | create (peer : NodeId) (nowNs : Int64)
  | abandon (i : Nat)
  | complete (i : Nat) (nowNs : Int64)
  | noteSealed (peer : NodeId)
  | revoke (peer : NodeId)
  | erase (peer : NodeId)

def Node.update (w : Node T) (peer : NodeId) (f : Session → Session) : Option (Node T) :=
  (w.sessions.lookup peer).map fun se => { w with sessions := w.sessions.insert peer (f se) }

def Node.step (w : Node T) : Label T → Option (Node T)
  | .rotate next nowNs graceNs => (w.identity.rotate next nowNs graceNs).map fun identity => { w with identity }
  | .create peer nowNs => some { w with engines := w.engines ++ [⟨peer, w.identity.snapshot nowNs⟩] }
  | .abandon i => some { w with engines := w.engines.eraseIdx i }
  | .complete i nowNs =>
    (w.engines[i]?).map fun e => { w with engines := w.engines.eraseIdx i }.install e.peer nowNs
  | .noteSealed peer => w.update peer fun se => { se with framesSealedOnKey := se.framesSealedOnKey + 1 }
  | .revoke peer => w.update peer fun se => { se with revoked := true }
  | .erase peer => some { w with sessions := w.sessions.erase peer }

/-- The node, where the grace window of each rotation ended, the rotations before each engine was created, and those
before the engine of each session was created and before it completed. -/
structure Watch (T : Type) where
  node : Node T
  ends : List Int64 := []
  created : List Nat := []
  used : NodeId → Nat := fun _ => 0
  completed : NodeId → Nat := fun _ => 0

namespace Watch

def step (w : Watch T) (label : Label T) : Option (Watch T) :=
  (w.node.step label).map fun node =>
    match label with
    | .rotate _ nowNs graceNs => { w with node, ends := w.ends ++ (OverlappedMaterial.deadline nowNs graceNs).toList }
    | .create _ _ => { w with node, created := w.created ++ [w.ends.length] }
    | .abandon i => { w with node, created := w.created.eraseIdx i }
    | .complete i _ =>
      match w.node.engines[i]? with
      | some e =>
        { w with
          node, created := w.created.eraseIdx i
          used := Function.update w.used e.peer (w.created[i]?.getD 0)
          completed := Function.update w.completed e.peer w.ends.length }
      | none => { w with node }
    | _ => { w with node }

/-- The identity that the session was negotiated under was replaced, and the window of that rotation is over. -/
def Expired (w : Watch T) (peer : NodeId) (t : Int64) : Prop := ∃ e ∈ w.ends[w.used peer]?, e ≤ t

def since (w : Watch T) (peer : NodeId) : UInt64 := .ofNat w.ends.length - .ofNat (w.completed peer)

/-- No rotation since: the identity used is not past its window. One since: its window and that of the last
rotation are both over or both open. More: its window is over. -/
def Timely (w : Watch T) (peer : NodeId) (t : Int64) : Prop :=
  if w.since peer = 0 then ¬w.Expired peer t
  else if w.since peer = 1 then (w.Expired peer t ↔ ∀ e ∈ w.ends.getLast?, e ≤ t)
  else w.Expired peer t

/-- What the material remembers of the rotations, and the sessions of their handshakes. -/
structure Labelled (w : Watch T) : Prop where
  generation : w.node.identity.generation = .ofNat w.ends.length
  previous : w.node.identity.previous.isSome = true →
    ∃ past e, w.ends = past ++ [e] ∧ w.node.identity.previousGeneration = .ofNat past.length ∧
      w.node.identity.previousDeadlineNs = e
  first : w.node.identity.previous.isSome = false → w.ends = []
  sessions : ∀ {peer se}, w.node.sessions.lookup peer = some se → se.generation = .ofNat (w.completed peer)

section

variable {w w' : Watch T} {node : Node T} {label : Label T} {peer : NodeId} {se : Session} {t : Int64}

theorem Labelled.frame (h : Labelled w) {engines : List (Engine T)} {sessions : Table NodeId Session}
    {created : List Nat}
    {used completed : NodeId → Nat}
    (hsessions : ∀ {peer se}, sessions.lookup peer = some se → se.generation = .ofNat (completed peer)) :
    Labelled
      { node := { identity := w.node.identity, engines, sessions }, ends := w.ends, created, used, completed } :=
  ⟨h.generation, h.previous, h.first, hsessions⟩

theorem Labelled.update (h : Labelled w) (f : Session → Session) (hf : ∀ se, (f se).generation = se.generation)
    (hnode : w.node.update peer f = some node) : Labelled { w with node } := by
  obtain ⟨se, hse, rfl⟩ := Option.map_eq_some_iff.mp hnode
  refine h.frame fun {p se'} hse' => ?_
  by_cases hp : p = peer
  · rw [hp, AList.lookup_insert] at hse'
    cases hse'
    rw [hf, hp]
    exact h.sessions hse
  · rw [AList.lookup_insert_ne hp] at hse'
    exact h.sessions hse'

theorem Labelled.complete (h : Labelled w) {engines : List (Engine T)} {created : List Nat}
    {nowNs : Int64} {n : Nat} :
    Labelled { node := { w.node with engines }.install peer nowNs, ends := w.ends, created
               used := Function.update w.used peer n
               completed := Function.update w.completed peer w.ends.length } := by
  refine h.frame fun {p se} hse => ?_
  dsimp only at hse
  by_cases hp : p = peer
  · rw [hp, AList.lookup_insert] at hse
    rw [hp, Function.update_self, ← h.generation]
    split at hse
    · cases hse
      rfl
    · cases hse
      rfl
  · rw [AList.lookup_insert_ne hp] at hse
    rw [Function.update_of_ne hp]
    exact h.sessions hse

theorem Labelled.rotate (h : Labelled w) {identity : OverlappedMaterial T} {next : T} {nowNs graceNs : Int64}
    (hrotate : w.node.identity.rotate next nowNs graceNs = some identity) :
    Labelled { w with
      node := { w.node with identity }
      ends := w.ends ++ (OverlappedMaterial.deadline nowNs graceNs).toList } := by
  obtain ⟨e, he, rfl⟩ := Option.map_eq_some_iff.mp hrotate
  rw [he, Option.toList_some]
  refine ⟨?_, fun _ => ⟨w.ends, e, rfl, h.generation, rfl⟩, nofun, h.sessions⟩
  dsimp only
  rw [List.length_append, h.generation]
  exact (UInt64.ofNat_add _ _).symm

theorem Labelled.step (h : Labelled w) (hstep : w.step label = some w') : Labelled w' := by
  obtain ⟨node, hnode, rfl⟩ := Option.map_eq_some_iff.mp hstep
  cases label with
  | rotate next nowNs graceNs =>
    obtain ⟨identity, hidentity, rfl⟩ := Option.map_eq_some_iff.mp hnode
    exact h.rotate hidentity
  | create peer nowNs | abandon i =>
    cases hnode
    exact h.frame h.sessions
  | complete i nowNs =>
    obtain ⟨e, he, rfl⟩ := Option.map_eq_some_iff.mp hnode
    simp only [he]
    exact h.complete
  | noteSealed peer =>
    exact h.update (fun se => { se with framesSealedOnKey := se.framesSealedOnKey + 1 }) (fun se => rfl) hnode
  | revoke peer => exact h.update (fun se => { se with revoked := true }) (fun se => rfl) hnode
  | erase peer =>
    cases hnode
    refine h.frame fun {p se} hse => ?_
    change (w.node.sessions.erase peer).lookup p = some se at hse
    exact h.sessions (Table.lookup_of_erase hse)

theorem Labelled.same_iff (h : Labelled w) (hse : w.node.sessions.lookup peer = some se) :
    se.generation = w.node.identity.generation ↔ w.since peer = 0 := by
  rw [h.sessions hse, h.generation, since]
  grind

theorem Labelled.one_iff (h : Labelled w) (hse : w.node.sessions.lookup peer = some se)
    {past : List Int64} {e : Int64}
    (hends : w.ends = past ++ [e]) : se.generation = .ofNat past.length ↔ w.since peer = 1 := by
  have hlength : UInt64.ofNat w.ends.length = .ofNat past.length + 1 := by
    rw [hends, List.length_append]
    exact UInt64.ofNat_add _ _
  rw [h.sessions hse, since, hlength]
  grind

theorem ownIdentityStale_snapshot (m : OverlappedMaterial T) : ownIdentityStale (m.snapshot t) se = true ↔
    se.generation ≠ m.generation ∧
      ¬((m.previous.isSome = true ∧ t < m.previousDeadlineNs) ∧ se.generation = m.previousGeneration) := by
  unfold ownIdentityStale OverlappedMaterial.snapshot
  by_cases hopen : m.previous.isSome = true ∧ t < m.previousDeadlineNs
  · rw [if_pos hopen]
    simp [hopen]
  · rw [if_neg hopen]
    simp [hopen]

theorem Labelled.stale_iff (h : Labelled w) (hse : w.node.sessions.lookup peer = some se) :
    ownIdentityStale (w.node.identity.snapshot t) se = true ↔
      w.since peer ≠ 0 ∧ (w.since peer = 1 → ∀ e ∈ w.ends.getLast?, e ≤ t) := by
  rw [ownIdentityStale_snapshot, Ne, h.same_iff hse]
  refine and_congr_right fun _ => ?_
  cases hprevious : w.node.identity.previous.isSome with
  | false =>
    rw [h.first hprevious]
    exact iff_of_true (fun hopen => Bool.false_ne_true hopen.1.1) nofun
  | true =>
    obtain ⟨past, e, hends, hgeneration, hdeadline⟩ := h.previous hprevious
    rw [hgeneration, h.one_iff hse hends, hdeadline]
    have hlast : w.ends.getLast? = some e := by rw [hends, List.getLast?_concat]
    rw [hlast]
    constructor
    · intro hclosed hone e' he'
      cases he'
      exact Int64.not_lt.mp fun hlt => hclosed ⟨⟨rfl, hlt⟩, hone⟩
    · rintro hover ⟨⟨-, hlt⟩, hone⟩
      exact Int64.not_lt.mpr (hover hone e rfl) hlt

end

/-- After any rotations and handshakes, a sweep at `t` classifies a session by the identity its handshake used
exactly where the rotations since its completion allow it. -/
theorem classified_iff {current : T} {w : Watch T}
    (hreach : Machine.Reachable step { node := { identity := { current } } } w) {peer : NodeId} {se : Session}
    (hse : w.node.sessions.lookup peer = some se) (t : Int64) :
    (ownIdentityStale (w.node.identity.snapshot t) se = true ↔ w.Expired peer t) ↔ w.Timely peer t := by
  have h : Labelled w := hreach.invariant
    ⟨rfl, nofun, fun _ => rfl, nofun⟩ fun w label w' h hstep => h.step hstep
  rw [h.stale_iff hse, Timely]
  split
  · next hnone => simp [hnone]
  · next hsome =>
    split
    · next hone =>
      rw [and_iff_right hsome, imp_iff_right hone]
      exact iff_comm
    · next hmore =>
      rw [and_iff_left fun hone => absurd hone hmore]
      exact iff_true_left hsome

instance (w : Watch T) (peer : NodeId) (t : Int64) : Decidable (w.Expired peer t) :=
  Option.decidableExistsMem w.ends[w.used peer]?

/-- A session with peer 2, and then one rotation with a window of 100 ns. -/
def rotated : List (Label Nat) := [.create 2 0, .complete 0 0, .rotate 1 10 100]

/-- Within the window the session is fresh, after it the session is stale. -/
theorem classified_iff_window : ∃ w se, Machine.run (@step Nat) { node := { identity := { current := 0 } } } rotated =
      some w ∧ w.node.sessions.lookup 2 = some se ∧
    ownIdentityStale (w.node.identity.snapshot 109) se = false ∧
      ownIdentityStale (w.node.identity.snapshot 110) se = true ∧
    ∀ t, ((ownIdentityStale (w.node.identity.snapshot t) se = true ↔ w.Expired 2 t) ↔ w.Timely 2 t) := by
  obtain ⟨w, hw, hfacts⟩ := Option.map_eq_some_iff.mp (show (Machine.run (@step Nat)
    { node := { identity := { current := 0 } } } rotated).map (fun w =>
      (w.node.sessions.lookup 2).map fun se => (ownIdentityStale (w.node.identity.snapshot 109) se,
        ownIdentityStale (w.node.identity.snapshot 110) se)) = some (some (false, true)) by decide +kernel)
  obtain ⟨se, hse, heq⟩ := Option.map_eq_some_iff.mp hfacts
  obtain ⟨hfresh, hstale⟩ := Prod.mk.inj heq
  exact ⟨w, se, hw, hse, hfresh, hstale, classified_iff (Machine.reachable_of_run hw) hse⟩

/-- A second rotation closes the window of the first one at once, and a rotation during a handshake goes unseen. -/
theorem window_cut_short_or_missed :
    (∃ w se, Machine.run (@step Nat) { node := { identity := { current := 0 } } } (rotated ++ [.rotate 2 20 100]) =
        some w ∧ w.node.sessions.lookup 2 = some se ∧
      ownIdentityStale (w.node.identity.snapshot 20) se = true ∧ ¬w.Expired 2 20) ∧
    ∃ w se, Machine.run (@step Nat) { node := { identity := { current := 0 } } }
        [.create 2 0, .rotate 1 10 0, .complete 0 20] = some w ∧ w.node.sessions.lookup 2 = some se ∧
      ownIdentityStale (w.node.identity.snapshot 20) se = false ∧ w.Expired 2 20 := by
  constructor
  · obtain ⟨w, hw, hfacts⟩ := Option.map_eq_some_iff.mp (show (Machine.run (@step Nat)
      { node := { identity := { current := 0 } } } (rotated ++ [.rotate 2 20 100])).map (fun w =>
        (w.node.sessions.lookup 2).map fun se =>
          (ownIdentityStale (w.node.identity.snapshot 20) se, decide (w.Expired 2 20))) = some (some (true, false)) by
      decide +kernel)
    obtain ⟨se, hse, heq⟩ := Option.map_eq_some_iff.mp hfacts
    obtain ⟨hstale, hopen⟩ := Prod.mk.inj heq
    exact ⟨w, se, hw, hse, hstale, of_decide_eq_false hopen⟩
  · obtain ⟨w, hw, hfacts⟩ := Option.map_eq_some_iff.mp (show (Machine.run (@step Nat)
      { node := { identity := { current := 0 } } } [.create 2 0, .rotate 1 10 0, .complete 0 20]).map (fun w =>
        (w.node.sessions.lookup 2).map fun se =>
          (ownIdentityStale (w.node.identity.snapshot 20) se, decide (w.Expired 2 20))) = some (some (false, true)) by
      decide +kernel)
    obtain ⟨se, hse, heq⟩ := Option.map_eq_some_iff.mp hfacts
    obtain ⟨hfresh, hover⟩ := Prod.mk.inj heq
    exact ⟨w, se, hw, hse, hfresh, of_decide_eq_true hover⟩

end Watch

end Rotation

end Quark.Secure
