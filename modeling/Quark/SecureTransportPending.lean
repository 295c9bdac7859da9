import Quark.SecureTransport

/-! The slots of `pending_`: how many handshakes may be parked, for whom, from one address, and for how long. -/
namespace Quark.Secure

open Function List Option State
open Swim (NodeId)

/-- The transport, and the address of the frame that opened each pending handshake, where it had a valid one. -/
structure Tally where
  state : State := {}
  opened : NodeId → Option UInt64 := fun _ => none

abbrev Slot := Sigma fun _ : NodeId => PendingHandshake

def Call.parks (cfg : Config) : Call → Option (NodeId × Option UInt64 × Bool)
  | .handshake (.reserved r) => some (r.frame.from_, r.source, cfg.knownPeer r.frame.from_)
  | .handshake (.driving d) => some (d.peer, d.source, d.known)
  | _ => none

def HandshakeCall.opens (cfg : Config) (s : State) (now : Int) : HandshakeCall → Option (NodeId × Option UInt64)
  | .starting peer =>
    if localIsClient cfg.self_ peer && (s.startHandshake cfg peer now).2.isSome then some (peer, none) else none
  | .admitted r => if s.hasRoom cfg r.frame.from_ r.source then some (r.frame.from_, r.source) else none
  | _ => none

def State.opens (cfg : Config) (s : State) : Label → Option (NodeId × Option UInt64)
  | .go i now _ =>
    match (s.threads[i]?).map Thread.call with
    | some (.handshake k) => k.opens cfg s now
    | _ => none
  | _ => none

namespace Tally

def step (cfg : Config) (w : Tally) (label : Label) : Option Tally :=
  (w.state.step cfg label).map fun state =>
    { state
      opened := match w.state.opens cfg label with
        | some (peer, source) => update w.opened peer source
        | none => w.opened }

/-- Calls are handled one at a time: while one drives an engine no other is at `pending_`. Others may begin while it
sends. -/
def Alone (cfg : Config) (s : State) : Label → Prop
  | .receive _ _ => ∀ t ∈ s.threads, t.call.parks cfg = none
  | .go i _ _ => ∀ t ∈ s.threads.eraseIdx i, t.call.parks cfg = none
  | _ => True

/-- No handshake that a frame from a valid address opened is parked anew for a frame without one. -/
def Sourced (cfg : Config) (w : Tally) : Label → Prop
  | .go i _ (.want _) => ∀ t ∈ w.state.threads[i]?, ∀ parked ∈ t.call.parks cfg, parked.2.1 = none →
      w.opened parked.1 = none
  | _ => True

def Handled (cfg : Config) (w : Tally) (label : Label) : Prop := Alone cfg w.state label ∧ Sourced cfg w label

/-- Thread `i` goes on as `x`, which drives no engine. -/
structure Moves (cfg : Config) (s s' : State) (i : Nat) : Prop where
  pending : s'.pending.entries.Sublist s.pending.entries
  threads : ∃ x, s'.threads = s.threads.set i x ∧ x.call.parks cfg = none

/-- What a step of a handshake does to `pending_`: nothing but to free slots, or one of the five that end with
an engine to drive or park one. -/
inductive Goes (cfg : Config) (s : State) (i : Nat) (t : Thread) (now : Int) (a : Advance) :
    HandshakeCall → State → Prop
  | moves {k : HandshakeCall} {s' : State} (hmoves : Moves cfg s s' i) (hopens : k.opens cfg s now = none) :
      Goes cfg s i t now a k s'
  | starts {peer : NodeId} {engine : Engine} (hclient : localIsClient cfg.self_ peer = true)
      (hroom : (s.erasePending peer).pending.size < cfg.maxPendingHandshakes)
      (hstart : s.startHandshake cfg peer now =
      ((s.erasePending peer).reservePending peer none false now, some engine)) :
      Goes cfg s i t now a (.starting peer)
        (((s.erasePending peer).reservePending peer none false now).goto i t
          (.handshake (.driving { peer, engine, initiatedHere := true })))
  | takes {r : Inbound} {ph : PendingHandshake} {engine : Engine} (hslot : s.pending.lookup r.frame.from_ = some ph)
      (hsource : r.source = none ∨ ph.source = none ∨ ph.source = r.source) :
      Goes cfg s i t now a (.authenticating r)
        ((s.erasePending r.frame.from_).goto i t (.handshake (.driving
          { peer := r.frame.from_, engine, input := r.frame.payload, source := r.source,
            known := cfg.knownPeer r.frame.from_, initiatedHere := ph.initiatedHere })))
  | claims {r : Inbound} (hroom : s.hasRoom cfg r.frame.from_ r.source = true) :
      Goes cfg s i t now a (.admitted r)
        ((s.reservePending r.frame.from_ r.source (cfg.knownPeer r.frame.from_) now).goto i t
        (.handshake (.reserved r)))
  | drives {r : Inbound} {engine : Engine} :
      Goes cfg s i t now a (.reserved r)
        (s.goto i t (.handshake (.driving
          { peer := r.frame.from_, engine, input := r.frame.payload, source := r.source,
            known := cfg.knownPeer r.frame.from_ })))
  | parks {d : Drive} {ph : PendingHandshake} {out : List UInt8} (hwant : a = .want out)
      (hsource : ph.source = d.source)
      (hknown : ph.known = d.known) :
      Goes cfg s i t now a (.driving d)
        (({ s with pending := s.pending.insert d.peer ph } : State).goto i t (.handshake (.replying d.peer out)))

/-- What the caps keep of the slots. -/
structure Slots (cfg : Config) (opened : NodeId → Option UInt64) (l : List Slot) : Prop where
  flags : ∀ e ∈ l, e.2.known = true → cfg.knownPeer e.1 = true
  sources : ∀ e ∈ l, ∀ a, opened e.1 = some a → e.2.source = some a
  general : l.countP (fun e => !e.2.known) ≤ cfg.maxPendingHandshakes
  total : l.length ≤ cfg.maxPendingHandshakes + cfg.reservedHandshakeSlots
  perIp : cfg.maxPendingPerIp ≠ 0 → ∀ a, l.countP (fun e => opened e.1 = some a) ≤ cfg.maxPendingPerIp

/-- The engine that a call drives still has its slot, as far as the caps are concerned. -/
def Midway (cfg : Config) (opened : NodeId → Option UInt64) (l : List Slot) (peer : NodeId) (source : Option UInt64)
    (known : Bool) : Prop :=
  (known = true → cfg.knownPeer peer = true) ∧ (∀ a, opened peer = some a → source = some a ∨ source = none) ∧
    ∃ ph : PendingHandshake, (ph.known = true → known = true) ∧ Slots cfg opened (⟨peer, ph⟩ :: List.kerase peer l)

structure Held (cfg : Config) (w : Tally) : Prop where
  slots : Slots cfg w.opened w.state.pending.entries
  midway : ∀ t ∈ w.state.threads, ∀ peer source known, t.call.parks cfg = some (peer, source, known) →
    Midway cfg w.opened w.state.pending.entries peer source known

section

variable {cfg : Config} {opened : NodeId → Option UInt64} {l l' : List Slot} {peer : NodeId}
  {ph ph' : PendingHandshake}
variable {source : Option UInt64}

theorem Slots.subperm (h : Slots cfg opened l) (hsub : l'.Subperm l) : Slots cfg opened l' where
  flags e he := h.flags e (hsub.subset he)
  sources e he := h.sources e (hsub.subset he)
  general := (hsub.countP_le _).trans h.general
  total := hsub.length_le.trans h.total
  perIp hcap a := (hsub.countP_le _).trans (h.perIp hcap a)

theorem ne_of_mem_kerase (hnodup : l.NodupKeys) : ∀ e ∈ List.kerase peer l, e.1 ≠ peer := by
  intro e he heq
  have hin := mem_keys_of_mem he
  rw [heq] at hin
  exact notMem_keys_kerase peer hnodup hin

theorem Slots.reopen (h : Slots cfg opened l) (hne : ∀ e ∈ l, e.1 ≠ peer) :
    Slots cfg (update opened peer source) l := by
  have hsame : ∀ e ∈ l, update opened peer source e.1 = opened e.1 := fun e he => update_of_ne (hne e he) _ _
  refine ⟨h.flags, fun e he a ha => h.sources e he a ((hsame e he).symm.trans ha), h.general, h.total,
    fun hcap a => ?_⟩
  rw [countP_congr fun e he => by rw [hsame e he]]
  exact h.perIp hcap a

theorem Slots.park (h : Slots cfg opened (⟨peer, ph⟩ :: l)) (hflag : ph'.known = true → cfg.knownPeer peer = true)
    (hknown : ph.known = true → ph'.known = true) (hsource : ∀ a, opened peer = some a → ph'.source = some a) :
    Slots cfg opened (⟨peer, ph'⟩ :: l) where
  flags e he := by
    rcases mem_cons.mp he with rfl | he
    · exact hflag
    · exact h.flags e (mem_cons_of_mem _ he)
  sources e he := by
    rcases mem_cons.mp he with rfl | he
    · exact hsource
    · exact h.sources e (mem_cons_of_mem _ he)
  general := by
    refine le_trans ?_ h.general
    rw [countP_cons, countP_cons]
    refine Nat.add_le_add_left ?_ _
    cases hph : ph.known with
    | false => split <;> simp
    | true => simp [hknown hph]
  total := h.total
  perIp hcap a := by
    have hcount := h.perIp hcap a
    rw [countP_cons] at hcount ⊢
    exact hcount

theorem Slots.claim {rest : List Slot} (h : Slots cfg opened l) (hsub : rest.Sublist l) (hne : ∀ e ∈ rest, e.1 ≠ peer)
    (hflag : ph.known = true → cfg.knownPeer peer = true)
    (hroom : l.length < cfg.maxPendingHandshakes ∨
      ph.known = true ∧ l.countP (fun e => e.2.known) < cfg.reservedHandshakeSlots)
    (hcapped : cfg.maxPendingPerIp ≠ 0 → ∀ a, ph.source = some a →
      l.countP (fun e => e.2.source = some a) < cfg.maxPendingPerIp) :
    Slots cfg (update opened peer ph.source) (⟨peer, ph⟩ :: rest) := by
  have hrest : Slots cfg (update opened peer ph.source) rest := (h.subperm hsub.subperm).reopen hne
  have hlength := hsub.length_le
  have hknown : rest.countP (fun e => e.2.known) ≤ l.countP (fun e => e.2.known) := hsub.countP_le
  have hsplit : rest.length = rest.countP (fun e => e.2.known) + rest.countP (fun e => !e.2.known) := by
    rw [length_eq_countP_add_countP (fun e : Slot => e.2.known)]
    simp
  have hgeneral := hrest.general
  constructor
  · intro e he
    rcases mem_cons.mp he with rfl | he
    · exact hflag
    · exact hrest.flags e he
  · intro e he a ha
    rcases mem_cons.mp he with rfl | he
    · rwa [update_self] at ha
    · exact hrest.sources e he a ha
  · rw [countP_cons]
    rcases hroom with hroom | ⟨hph, -⟩
    · split <;> omega
    · rw [hph]
      exact hgeneral
  · rw [length_cons]
    omega
  · intro hcap a
    rw [countP_cons]
    by_cases ha : ph.source = some a
    · -- those opened from `a` are among those with the source `a`
      have hle : rest.countP (fun e => update opened peer ph.source e.1 = some a) < cfg.maxPendingPerIp := by
        refine lt_of_le_of_lt (countP_mono_left fun e he hopened => ?_)
          (lt_of_le_of_lt (hsub.countP_le) (hcapped hcap a ha))
        exact decide_eq_true (hrest.sources e he a (of_decide_eq_true hopened))
      split <;> omega
    · rw [if_neg (by simpa using ha)]
      exact hrest.perIp hcap a

end

section

variable {cfg : Config} {w : Tally} {s s' : State} {i : Nat} {t x : Thread} {now : Int} {a : Advance} {peer : NodeId}
variable {opened : NodeId → Option UInt64} {ph : PendingHandshake} {source : Option UInt64} {known : Bool}

/-- Before, only `pending_`, which may lose slots, and what the transport shows to others have changed. -/
theorem Moves.goto {u : State} {call : Call} (hcall : call.parks cfg = none)
    (hpending : u.pending.entries.Sublist s.pending.entries) (hthreads : u.threads = s.threads) :
    Moves cfg s (u.goto i t call) i :=
  ⟨hpending, _, by rw [← hthreads]; rfl, hcall⟩

theorem Moves.finish {u : State} (hpending : u.pending.entries.Sublist s.pending.entries)
    (hthreads : u.threads = s.threads) :
    Moves cfg s (u.finish i) i :=
  ⟨hpending, { call := .done }, by rw [← hthreads]; rfl, rfl⟩

theorem noteIf_pending {b : Bool} {e : Event} : (s.noteIf b e).pending = s.pending ∧
    (s.noteIf b e).threads = s.threads := by
  rw [noteIf_eq]
  exact ⟨rfl, rfl⟩

theorem Moves.noteIf {u : State} {b : Bool} {e : Event} (hpending : u.pending.entries.Sublist s.pending.entries)
    (hthreads : u.threads = s.threads) : Moves cfg s ((u.noteIf b e).finish i) i :=
  .finish (by rw [noteIf_pending.1]; exact hpending) (noteIf_pending.2.trans hthreads)

theorem moves_installed {u : State} {c : Completion} (hpending : u.pending.entries.Sublist s.pending.entries)
    (hthreads : u.threads = s.threads) : Moves cfg s (u.installed i t c) i := by
  rw [installed]
  split
  · exact .goto rfl hpending hthreads
  · exact .goto rfl hpending hthreads

theorem moves_stepFrame {c : FrameCall} (hstep : s.stepFrame cfg i t now c = some s') : Moves cfg s s' i := by
  cases c with
  | sending to_ f =>
    rw [stepFrame] at hstep
    split at hstep
    · cases hstep
      exact .goto rfl (.refl _) rfl
    · split at hstep
      · cases hstep
        exact .goto rfl (.refl _) rfl
      · cases hstep
        exact .goto rfl (.refl _) rfl
  | looked to_ f sid =>
    obtain ⟨se, -, hstep⟩ := bind_eq_some_iff.mp hstep
    split at hstep
    · cases hstep
    · split at hstep
      · cases hstep
        exact .finish (.refl _) rfl
      · cases hstep
        exact .goto rfl (.refl _) rfl
  | holding to_ f sid =>
    obtain ⟨se, -, hstep⟩ := bind_eq_some_iff.mp hstep
    cases hstep
    exact .finish (.refl _) rfl
  | receiving f =>
    rw [stepFrame] at hstep
    split at hstep
    · cases hstep
      exact .finish (.refl _) rfl
    · split at hstep
      · cases hstep
        exact .goto rfl (.refl _) rfl
      · split at hstep
        · cases hstep
          exact .finish (.refl _) rfl
        · cases hstep
          exact .goto rfl (.refl _) rfl
  | opening f sid =>
    obtain ⟨se, -, hstep⟩ := bind_eq_some_iff.mp hstep
    split at hstep
    · cases hstep
    · split at hstep
      · cases hstep
        exact .finish (.refl _) rfl
      · split at hstep
        · cases hstep
          exact .finish (.refl _) rfl
        · cases hstep
          exact .goto rfl (.refl _) rfl
  | handing f sid =>
    obtain ⟨se, -, hstep⟩ := bind_eq_some_iff.mp hstep
    cases hstep
    exact .noteIf (.refl _) rfl

theorem moves_stepUpkeep {c : UpkeepCall} (hstep : s.stepUpkeep cfg i t c = some s') : Moves cfg s s' i := by
  cases c with
  | listing revoked supply =>
    cases hstep
    exact .goto rfl (.refl _) rfl
  | scanning revoked supply todo clients =>
    cases todo with
    | nil =>
      cases hstep
      exact .goto rfl (.refl _) rfl
    | cons sid todo =>
      obtain ⟨se, -, hstep⟩ := bind_eq_some_iff.mp hstep
      split at hstep
      · cases hstep
        exact .goto rfl (.refl _) rfl
      · cases hstep
        exact .goto rfl (.refl _) rfl
  | retiring revoked supply clients =>
    obtain ⟨new, hreset, -⟩ := resetClients_eq cfg { s with sessions := s.eraseClients clients } clients
    rw [stepUpkeep, hreset] at hstep
    cases hstep
    exact .noteIf (.refl _) rfl
  | disconnecting peer =>
    cases hstep
    exact ⟨kerase_sublist _ _, _, rfl, rfl⟩
  | swapped snap inside =>
    rw [stepUpkeep] at hstep
    split at hstep
    · cases hstep
    · cases hstep
      exact .goto rfl (.refl _) rfl
  | fenced snap | aborting snap doomed =>
    cases hstep
    exact .goto rfl (.refl _) rfl
  | closing snap doomed =>
    cases doomed with
    | nil =>
      cases hstep
      exact .finish (.refl _) rfl
    | cons p doomed =>
      cases hstep
      refine .goto rfl ?_ ?_
      · split <;> exact .refl _
      · split <;> rfl
  | purging snap p doomed =>
    cases hstep
    refine .goto rfl ?_ noteIf_pending.2
    rw [noteIf_pending.1]
    exact kerase_sublist _ _

theorem starts_stepHandshake (hstep : s.stepHandshake cfg i t now a (.starting peer) = some s') :
    Goes cfg s i t now a (.starting peer) s' := by
  rw [stepHandshake] at hstep
  split at hstep
  · next hclient =>
    by_cases hbusy : ((s.pending.lookup peer).any fun ph => now - ph.lastProgress < cfg.handshakeTimeout) = true
    · rw [startHandshake, if_pos hbusy] at hstep
      cases hstep
      exact .moves (.finish (.refl _) rfl) (by simp [HandshakeCall.opens, startHandshake, hbusy])
    · have hstart := @rfl _ (s.startHandshake cfg peer now)
      conv at hstart => rhs; rw [startHandshake, if_neg hbusy]
      dsimp only at hstart
      split at hstart
      · rw [hstart] at hstep
        cases hstep
        exact .moves (.finish (kerase_sublist _ _) rfl) (by simp [HandshakeCall.opens, hstart])
      · next hroom =>
        rw [hstart] at hstep
        cases hstep
        exact .starts hclient (Nat.lt_of_not_le hroom) hstart
  · next hserver =>
    cases hstep
    exact .moves (.finish (.refl _) rfl) (by simp [HandshakeCall.opens, hserver])

theorem takes_stepHandshake {r : Inbound} (hstep : s.stepHandshake cfg i t now a (.authenticating r) = some s') :
    Goes cfg s i t now a (.authenticating r) s' := by
  rw [stepHandshake] at hstep
  split at hstep
  · cases hstep
    exact .moves (.finish (.refl _) rfl) rfl
  · split at hstep
    · split at hstep
      · cases hstep
        exact .moves (.finish (.refl _) rfl) rfl
      · cases hstep
        exact .moves (.goto rfl (.refl _) rfl) rfl
    · split at hstep
      · cases hstep
        exact .moves (.finish (.refl _) rfl) rfl
      · rw [takePending] at hstep
        cases hslot : s.pending.lookup r.frame.from_ with
        | none =>
          rw [hslot] at hstep
          cases hstep
          exact .moves (.goto rfl (.refl _) rfl) rfl
        | some ph =>
          rw [hslot] at hstep
          dsimp only at hstep
          by_cases hspoof : r.source.isSome = true ∧ ph.source.isSome = true ∧ ph.source ≠ r.source
          · rw [if_pos hspoof] at hstep
            cases hstep
            exact .moves (.finish (.refl _) rfl) rfl
          · rw [if_neg hspoof] at hstep
            have hsource : r.source = none ∨ ph.source = none ∨ ph.source = r.source := by
              by_contra hall
              simp only [not_or, ← isSome_iff_ne_none] at hall
              exact hspoof hall
            have hgone : Moves cfg s ((s.erasePending r.frame.from_).goto i t (.handshake (.opener r))) i :=
              .goto rfl (kerase_sublist _ _) rfl
            by_cases hfresh : now - ph.lastProgress < cfg.handshakeTimeout
            · rw [if_pos hfresh] at hstep
              cases hengine : ph.engine with
              | none =>
                rw [hengine] at hstep
                cases hstep
                exact .moves hgone rfl
              | some engine =>
                rw [hengine] at hstep
                cases hstep
                exact .takes hslot hsource
            · rw [if_neg hfresh] at hstep
              cases hstep
              exact .moves hgone rfl

theorem release_sublist : (s.releaseReservation peer).pending.entries.Sublist s.pending.entries ∧
    (s.releaseReservation peer).threads = s.threads := by
  rw [releaseReservation]
  split
  · split
    · exact ⟨kerase_sublist _ _, rfl⟩
    · exact ⟨.refl _, rfl⟩
  · exact ⟨.refl _, rfl⟩

theorem goes_stepHandshake {k : HandshakeCall} (hstep : s.stepHandshake cfg i t now a k = some s') :
    Goes cfg s i t now a k s' := by
  cases k with
  | requesting peer =>
    rw [stepHandshake] at hstep
    split at hstep
    · cases hstep
      exact .moves (.finish (.refl _) rfl) rfl
    · split at hstep
      · cases hstep
        exact .moves (.goto rfl (.refl _) rfl) rfl
      · cases hstep
        exact .moves (.noteIf (.refl _) rfl) rfl
  | starting peer => exact starts_stepHandshake hstep
  | authenticating r => exact takes_stepHandshake hstep
  | opener r =>
    rw [stepHandshake] at hstep
    split at hstep
    · cases hstep
      exact .moves (.finish (.refl _) rfl) rfl
    · cases hstep
      exact .moves (.goto rfl (.refl _) rfl) rfl
  | admitted r =>
    rw [stepHandshake] at hstep
    split at hstep
    · next hroom =>
      cases hstep
      exact .claims hroom
    · next hfull =>
      cases hstep
      exact .moves (.finish (.refl _) rfl) (by simp [HandshakeCall.opens, hfull])
  | reserved r =>
    cases hstep
    exact .drives
  | driving d =>
    cases a with
    | want out =>
      cases hstep
      exact .parks rfl rfl rfl
    | done r out =>
      rw [stepHandshake] at hstep
      split at hstep
      · cases hstep
        exact .moves (.goto rfl release_sublist.1 release_sublist.2) rfl
      · cases hstep
    | failed =>
      cases hstep
      exact .moves (.goto rfl release_sublist.1 release_sublist.2) rfl
  | anonymous token engine =>
    cases a with
    | done r out =>
      rw [stepHandshake] at hstep
      split at hstep
      · cases hstep
      · split at hstep
        · cases hstep
          exact .moves (.finish (.refl _) rfl) rfl
        · cases hstep
          exact .moves (.goto rfl (.refl _) rfl) rfl
    | want out | failed =>
      cases hstep
      exact .moves (.finish (.refl _) rfl) rfl
  | completed c =>
    rw [stepHandshake] at hstep
    split at hstep
    · cases hstep
      exact .moves (moves_installed (.refl _) rfl) rfl
    · split at hstep
      · obtain ⟨new, hrefuse, -⟩ := refuse_eq cfg s c
        rw [hrefuse] at hstep
        cases hstep
        exact .moves (.finish (.refl _) rfl) rfl
      · cases hstep
        exact .moves (.goto rfl (.refl _) rfl) rfl
  | installing c =>
    rw [stepHandshake] at hstep
    split at hstep
    · cases hstep
      exact .moves (.goto rfl (.refl _) rfl) rfl
    · cases hstep
      exact .moves (.goto rfl (.refl _) rfl) rfl
  | swapping c sid =>
    obtain ⟨se, -, hstep⟩ := bind_eq_some_iff.mp hstep
    split at hstep
    · cases hstep
    · cases hstep
      exact .moves (moves_installed (.refl _) rfl) rfl
  | creating c =>
    cases hstep
    exact .moves (moves_installed (.refl _) rfl) rfl
  | binding token peer out =>
    rw [stepHandshake] at hstep
    split at hstep
    · cases hstep
      exact .moves (.finish (.refl _) rfl) rfl
    · split at hstep
      · cases hstep
      · split at hstep
        · cases hstep
          exact .moves (.finish (.refl _) rfl) rfl
        · cases hstep
          exact .moves (.goto rfl (.refl _) rfl) rfl
  | replying peer out =>
    cases hstep
    exact .moves (.noteIf (.refl _) rfl) rfl
  | failed peer own initiatedHere =>
    rw [stepHandshake] at hstep
    split at hstep
    · cases hstep
      exact .moves (.goto rfl (.refl _) rfl) rfl
    · cases hstep
      exact .moves (.noteIf (.refl _) rfl) rfl
  | erasing peer =>
    cases hstep
    exact .moves (.noteIf (.refl _) rfl) rfl

theorem quiet_others (halone : ∀ t ∈ s.threads.eraseIdx i, t.call.parks cfg = none) :
    ∀ t ∈ s.threads.set i x, t = x ∨ t.call.parks cfg = none := by
  intro t ht
  obtain ⟨j, hj⟩ := mem_iff_getElem?.mp ht
  by_cases hij : i = j
  · rw [hij, getElem?_set_self'] at hj
    obtain ⟨_, -, rfl⟩ := map_eq_some_iff.mp hj
    exact .inl rfl
  · rw [getElem?_set_ne hij] at hj
    exact .inr (halone t (mem_eraseIdx_iff_getElem?.mpr ⟨j, Ne.symm hij, hj⟩))

theorem Held.moves (h : Held cfg w) (hmoves : Moves cfg w.state s' i)
    (halone : ∀ t ∈ w.state.threads.eraseIdx i, t.call.parks cfg = none) :
    Held cfg { w with state := s' } := by
  obtain ⟨x, hthreads, hx⟩ := hmoves.threads
  refine ⟨h.slots.subperm hmoves.pending.subperm, fun t ht peer source known hparks => ?_⟩
  rw [hthreads] at ht
  rcases quiet_others halone t ht with rfl | hnone
  · rw [hx] at hparks
    cases hparks
  · rw [hnone] at hparks
    cases hparks

theorem Held.drive (hslots : Slots cfg opened s'.pending.entries) (hthreads : s'.threads = w.state.threads.set i x)
    (halone : ∀ t ∈ w.state.threads.eraseIdx i, t.call.parks cfg = none)
    (hx : x.call.parks cfg = some (peer, source, known))
    (hmid : Midway cfg opened s'.pending.entries peer source known) : Held cfg { state := s', opened } := by
  refine ⟨hslots, fun t ht peer' source' known' hparks => ?_⟩
  rw [hthreads] at ht
  rcases quiet_others halone t ht with rfl | hnone
  · rw [hx] at hparks
    cases hparks
    exact hmid
  · rw [hnone] at hparks
    cases hparks

theorem midway_insert {pending : Table NodeId PendingHandshake}
    (h : Slots cfg opened (pending.insert peer ph).entries) :
    Midway cfg opened (pending.insert peer ph).entries peer ph.source ph.known := by
  rw [AList.entries_insert] at h ⊢
  refine ⟨h.flags _ mem_cons_self, fun a ha => .inl (h.sources _ mem_cons_self a ha), ph, id, ?_⟩
  rw [@List.kerase_cons_eq NodeId (fun _ => PendingHandshake) _ peer ⟨peer, ph⟩ _ rfl]
  exact h

theorem slot_subperm {pending : Table NodeId PendingHandshake} (hslot : pending.lookup peer = some ph) :
    (⟨peer, ph⟩ :: List.kerase peer (pending.erase peer).entries : List Slot).Subperm pending.entries := by
  have hkey := AList.mem_keys.mp (AList.lookup_isSome.mp (isSome_of_eq_some hslot))
  obtain ⟨ph', before, after, -, hentries, hrest⟩ := exists_of_kerase hkey
  have hin : (⟨peer, ph'⟩ : Slot) ∈ pending.entries := by
    rw [hentries]
    exact mem_append_right _ mem_cons_self
  rw [Table.mem_entries_iff, hslot] at hin
  cases hin
  rw [hentries]
  refine List.Subperm.trans (List.Sublist.subperm ?_) perm_middle.symm.subperm
  rw [← hrest]
  exact (kerase_sublist _ _).cons_cons _

theorem Held.start (h : Held cfg w) (hget : w.state.threads[i]? = some t)
    (hcall : t.call = .handshake (.starting peer))
    (halone : ∀ t ∈ w.state.threads.eraseIdx i, t.call.parks cfg = none)
    (hclient : localIsClient cfg.self_ peer = true) {engine : Engine}
    (hroom : (w.state.erasePending peer).pending.size < cfg.maxPendingHandshakes)
    (hstart : w.state.startHandshake cfg peer now =
      ((w.state.erasePending peer).reservePending peer none false now, some engine)) :
    Held cfg
      { state := ((w.state.erasePending peer).reservePending peer none false now).goto i t
          (.handshake (.driving { peer, engine, initiatedHere := true }))
        opened := match w.state.opens cfg (.go i now a) with
          | some (peer, source) => update w.opened peer source
          | none => w.opened } := by
  have hopens : w.state.opens cfg (.go i now a) = some (peer, none) := by
    simp only [opens, hget, map_some, hcall, HandshakeCall.opens, hstart, hclient]
    rfl
  rw [hopens]
  have hslots : Slots cfg (update w.opened peer none)
      ((w.state.erasePending peer).reservePending peer none false now).pending.entries :=
    @Slots.claim cfg _ _ peer { lastProgress := now, source := none, known := false } _
      (h.slots.subperm (kerase_sublist peer _).subperm) (kerase_sublist peer _)
      (ne_of_mem_kerase (w.state.pending.erase peer).nodupKeys) nofun (.inl hroom)
      nofun
  exact .drive hslots rfl halone rfl (midway_insert hslots)

theorem room_of_hasRoom (hroom : s.hasRoom cfg peer source = true) :
    (s.pending.entries.length < cfg.maxPendingHandshakes ∨ cfg.knownPeer peer = true ∧
      s.pending.entries.countP (fun e => e.2.known) < cfg.reservedHandshakeSlots) ∧
    (cfg.maxPendingPerIp ≠ 0 → ∀ a, source = some a →
      s.pending.entries.countP (fun e => e.2.source = some a) < cfg.maxPendingPerIp) := by
  unfold hasRoom at hroom
  dsimp only at hroom
  rw [countP_map, countP_map] at hroom
  simp only [Bool.and_eq_true, Bool.not_eq_true', Bool.and_eq_false_iff, Bool.or_eq_false_iff,
    decide_eq_false_iff_not, Bool.not_eq_false', not_le, ge_iff_le] at hroom
  obtain ⟨hgeneral, hperIp⟩ := hroom
  refine ⟨hgeneral, fun hcap a ha => ?_⟩
  subst ha
  exact hperIp.resolve_left fun hnone => hnone.elim (fun hzero => hzero hcap) nofun

theorem Held.claim (h : Held cfg w) {r : Inbound} (hget : w.state.threads[i]? = some t)
    (hcall : t.call = .handshake (.admitted r))
    (halone : ∀ t ∈ w.state.threads.eraseIdx i, t.call.parks cfg = none)
    (hroom : w.state.hasRoom cfg r.frame.from_ r.source = true) :
    Held cfg
      { state := (w.state.reservePending r.frame.from_ r.source (cfg.knownPeer r.frame.from_) now).goto i t
          (.handshake (.reserved r))
        opened := match w.state.opens cfg (.go i now a) with
          | some (peer, source) => update w.opened peer source
          | none => w.opened } := by
  have hopens : w.state.opens cfg (.go i now a) = some (r.frame.from_, r.source) := by
    simp only [opens, hget, map_some, hcall, HandshakeCall.opens, hroom]
    rfl
  rw [hopens]
  obtain ⟨hfree, hcapped⟩ := room_of_hasRoom hroom
  have hslots : Slots cfg (update w.opened r.frame.from_ r.source)
      (w.state.reservePending r.frame.from_ r.source (cfg.knownPeer r.frame.from_) now).pending.entries :=
    @Slots.claim cfg _ _ _ { lastProgress := now, source := r.source, known := cfg.knownPeer r.frame.from_ } _ h.slots
      (kerase_sublist _ _) (ne_of_mem_kerase w.state.pending.nodupKeys) id hfree hcapped
  exact .drive hslots rfl halone rfl (midway_insert hslots)

theorem Held.take (h : Held cfg w) {r : Inbound} {d : Drive}
    (halone : ∀ t ∈ w.state.threads.eraseIdx i, t.call.parks cfg = none)
    (hslot : w.state.pending.lookup r.frame.from_ = some ph)
    (hsource : r.source = none ∨ ph.source = none ∨ ph.source = r.source)
    (hd : (Call.handshake (.driving d)).parks cfg = some (r.frame.from_, r.source, cfg.knownPeer r.frame.from_)) :
    Held cfg { w with state := (w.state.erasePending r.frame.from_).goto i t (.handshake (.driving d)) } := by
  have hslots := h.slots.subperm (slot_subperm hslot)
  refine .drive (h.slots.subperm (kerase_sublist _ _).subperm) rfl halone hd
    ⟨id, fun a ha => ?_, ph, fun hknown => hslots.flags _ mem_cons_self hknown, hslots⟩
  have hold := hslots.sources _ mem_cons_self a ha
  rcases hsource with hnone | hnone | hsame
  · exact .inr hnone
  · rw [hnone] at hold
    cases hold
  · exact .inl (hsame.symm.trans hold)

theorem Held.park (h : Held cfg w) {d : Drive} (hget : w.state.threads[i]? = some t)
    (hcall : t.call = .handshake (.driving d))
    (halone : ∀ t ∈ w.state.threads.eraseIdx i, t.call.parks cfg = none)
    (hsourced : d.source = none → w.opened d.peer = none) (hsource : ph.source = d.source)
    (hknown : ph.known = d.known)
    {call : Call} (hquiet : call.parks cfg = none) :
    Held cfg { w with
      state := ({ w.state with pending := w.state.pending.insert d.peer ph } : State).goto i t call } := by
  obtain ⟨hflag, hopened, ph', hflags, hslots⟩ :=
    h.midway t (mem_of_getElem? hget) d.peer d.source d.known (by rw [hcall]; rfl)
  refine ⟨?_, fun t' ht peer source known hparks => ?_⟩
  · refine hslots.park (fun hph => hflag (hknown ▸ hph)) (fun hph => hknown ▸ hflags hph) fun a ha => ?_
    rw [hsource]
    refine (hopened a ha).resolve_right fun hnone => ?_
    rw [hsourced hnone] at ha
    cases ha
  · rcases quiet_others halone t' ht with rfl | hnone
    · rw [hquiet] at hparks
      cases hparks
    · rw [hnone] at hparks
      cases hparks

theorem Held.go (h : Held cfg w) (hok : Handled cfg w (.go i now a))
    (hstep : w.state.step cfg (.go i now a) = some s') :
    Held cfg
      { state := s'
        opened := match w.state.opens cfg (.go i now a) with
          | some (peer, source) => update w.opened peer source
          | none => w.opened } := by
  obtain ⟨halone, hsourced⟩ := hok
  obtain ⟨t, hget, hstep⟩ := bind_eq_some_iff.mp hstep
  cases hcall : t.call with
  | frame c =>
    rw [hcall] at hstep
    simp only [opens, hget, map_some, hcall]
    exact h.moves (moves_stepFrame hstep) halone
  | upkeep c =>
    rw [hcall] at hstep
    simp only [opens, hget, map_some, hcall]
    exact h.moves (moves_stepUpkeep hstep) halone
  | done =>
    rw [hcall] at hstep
    cases hstep
  | handshake k =>
    rw [hcall] at hstep
    cases goes_stepHandshake hstep with
    | starts hclient hroom hstart => exact h.start hget hcall halone hclient hroom hstart
    | claims hroom => exact h.claim hget hcall halone hroom
    | takes hslot hsource =>
      simp only [opens, hget, map_some, hcall, HandshakeCall.opens]
      exact h.take halone hslot hsource rfl
    | drives =>
      simp only [opens, hget, map_some, hcall, HandshakeCall.opens]
      exact .drive h.slots rfl halone rfl (h.midway t (mem_of_getElem? hget) _ _ _ (by rw [hcall]; rfl))
    | parks hwant hsource hknown =>
      simp only [opens, hget, map_some, hcall, HandshakeCall.opens]
      subst hwant
      refine h.park hget hcall halone (fun hnone => ?_) hsource hknown rfl
      exact hsourced t hget (_, _, _) (by rw [hcall]; rfl) hnone
    | moves hmoves hopens =>
      simp only [opens, hget, map_some, hcall, hopens]
      exact h.moves hmoves halone

theorem Held.begin (h : Held cfg w) (hpending : s'.pending = w.state.pending) {new : List Thread}
    (hthreads : s'.threads = w.state.threads ++ new) (hnew : ∀ t ∈ new, t.call.parks cfg = none) :
    Held cfg { w with state := s' } := by
  refine ⟨by rw [hpending]; exact h.slots, fun t ht peer source known hparks => ?_⟩
  rw [hthreads] at ht
  dsimp only
  rw [hpending]
  rcases mem_append.mp ht with ht | ht
  · exact h.midway t ht peer source known hparks
  · rw [hnew t ht] at hparks
    cases hparks

theorem Held.spawn (h : Held cfg w) (u : State) (hpending : u.pending = w.state.pending)
    (hthreads : u.threads = w.state.threads) {call : Call} {b : Bool} (hcall : call.parks cfg = none) :
    Held cfg { w with state := u.spawn call b } := by
  refine @Held.begin cfg w (u.spawn call b) h hpending [{ call, scope := b }] (by rw [← hthreads]; rfl) fun t ht => ?_
  rw [mem_singleton.mp ht]
  exact hcall

theorem Held.still (h : Held cfg w) (hpending : s'.pending = w.state.pending)
    (hthreads : s'.threads = w.state.threads) : Held cfg { w with state := s' } :=
  h.begin hpending (by rw [hthreads, append_nil]) fun t ht => by cases ht

theorem Held.reap (h : Held cfg w) (hquiet : ∀ t ∈ w.state.threads, t.call.parks cfg = none) {r : Inbound} :
    Held cfg { w with state := (w.state.reapStalePending cfg now).spawn (.handshake (.authenticating r)) false } := by
  refine ⟨h.slots.subperm filter_sublist.subperm, fun t ht peer source known hparks => ?_⟩
  rcases mem_append.mp ht with ht | ht
  · rw [hquiet t ht] at hparks
    cases hparks
  · rw [mem_singleton.mp ht] at hparks
    cases hparks

theorem Held.step (h : Held cfg w) {label : Label} (hok : Handled cfg w label) {w' : Tally}
    (hstep : w.step cfg label = some w') : Held cfg w' := by
  obtain ⟨s', hs', rfl⟩ := map_eq_some_iff.mp hstep
  cases label with
  | go i now a => exact h.go hok hs'
  | send to_ f =>
    rw [State.step] at hs'
    split at hs' <;> cases hs'
    · exact h.spawn _ rfl rfl rfl
    · exact h
  | receive r now =>
    rw [State.step] at hs'
    split at hs'
    · split at hs' <;> cases hs'
      · exact h
      · exact h.reap hok.1
    · split at hs' <;> cases hs'
      · exact h.spawn _ rfl rfl rfl
      · exact h
  | request peer =>
    cases hs'
    exact h.spawn _ rfl rfl rfl
  | renegotiate peer =>
    rw [State.step] at hs'
    split at hs' <;> cases hs'
    · exact h.spawn _ rfl rfl rfl
    · exact h
  | inboundReady token =>
    rw [State.step] at hs'
    split at hs'
    · cases hs'
      exact h
    · split at hs' <;> cases hs'
      · exact h.still rfl rfl
      · exact h.spawn (w.state.note (.identified token cfg.inboundSessionPeer)) rfl rfl rfl
  | setRevoked revoked =>
    cases hs'
    exact h.still rfl rfl
  | sweepRevocations revoked =>
    cases revoked with
    | none =>
      cases hs'
      exact h.still rfl rfl
    | some set =>
      simp only [State.step] at hs'
      split at hs' <;> cases hs'
      · exact h.still rfl rfl
      · exact h.spawn (w.state.supply (some set)) rfl rfl rfl
  | disconnected peer =>
    cases hs'
    refine h.spawn (if cfg.handshake then w.state.eraseSession peer else w.state) ?_ ?_ rfl
    · split <;> rfl
    · split <;> rfl
  | publish snap inside =>
    rw [State.step] at hs'
    split at hs'
    · cases hs'
    · split at hs' <;> cases hs'
      · exact h
      · exact @Held.spawn cfg w h ({ w.state with admission := snap }.note (.publishing snap)) rfl rfl
          (.upkeep (.swapped snap inside)) false rfl

end

theorem held_start (cfg : Config) : Held cfg {} where
  slots := ⟨fun _ he => absurd he not_mem_nil, fun _ he => absurd he not_mem_nil, Nat.zero_le _, Nat.zero_le _,
    fun _ _ => Nat.zero_le _⟩
  midway t ht := by cases ht

/-- In every run that handles one call at a time and parks no handshake anew for a frame that lost its
address: the caps hold, and what was stale when an Authenticate frame came is gone. -/
theorem pending_capped {cfg : Config} {w : Tally} (hreach : Machine.Reach (step cfg) (Handled cfg) {} w) :
    w.state.pending.size ≤ cfg.maxPendingHandshakes + cfg.reservedHandshakeSlots ∧
    w.state.pending.entries.countP (fun e => !cfg.knownPeer e.1) ≤ cfg.maxPendingHandshakes ∧
    (cfg.maxPendingPerIp ≠ 0 →
      ∀ a, w.state.pending.entries.countP (fun e => w.opened e.1 = some a) ≤ cfg.maxPendingPerIp) ∧
    ∀ r now s', r.frame.kind = FrameKind.authenticate → r.frame.payload.length ≤ maxAuthenticateFrameBytes →
      w.state.step cfg (.receive r now) = some s' →
        ∀ peer ph, s'.pending.lookup peer = some ph → now - ph.lastProgress < cfg.handshakeTimeout := by
  have h : Held cfg w := hreach.invariant (held_start cfg) fun w label w' h hok hstep => h.step hok hstep
  refine ⟨h.slots.total, ?_, h.slots.perIp, fun r now s' hkind hsize hstep peer ph hslot => ?_⟩
  · refine le_trans (countP_mono_left fun e he hunknown => ?_) h.slots.general
    -- a slot that is flagged is that of a known peer
    cases hflag : e.2.known with
    | false => rfl
    | true =>
      rw [h.slots.flags e he hflag] at hunknown
      cases hunknown
  · rw [State.step, if_pos hkind, if_neg (Nat.not_lt.mpr hsize)] at hstep
    cases hstep
    change (w.state.pending.eraseIf _).lookup peer = some ph at hslot
    rw [Table.lookup_eraseIf, filter_eq_some_iff] at hslot
    simpa using hslot.2

instance (cfg : Config) (s : State) (label : Label) : Decidable (Alone cfg s label) :=
  match label with
  | .receive _ _ => inferInstanceAs (Decidable (∀ t ∈ s.threads, t.call.parks cfg = none))
  | .go i _ _ => inferInstanceAs (Decidable (∀ t ∈ s.threads.eraseIdx i, t.call.parks cfg = none))
  | .send _ _ | .request _ | .renegotiate _ | .inboundReady _ | .setRevoked _ | .sweepRevocations _ | .disconnected _
  | .publish _ _ => inferInstanceAs (Decidable True)

instance (cfg : Config) (w : Tally) (label : Label) : Decidable (Sourced cfg w label) :=
  match label with
  | .go i _ (.want _) =>
    @Option.decidableForallMem Thread
      (fun t => ∀ parked ∈ t.call.parks cfg, parked.2.1 = none → w.opened parked.1 = none)
      (fun t => Option.decidableForallMem (t.call.parks cfg)) w.state.threads[i]?
  | .go _ _ (.done _ _) | .go _ _ .failed => inferInstanceAs (Decidable True)
  | .receive _ _ | .send _ _ | .request _ | .renegotiate _ | .inboundReady _ | .setRevoked _ | .sweepRevocations _
  | .disconnected _ | .publish _ _ => inferInstanceAs (Decidable True)

instance (cfg : Config) (w : Tally) (label : Label) : Decidable (Handled cfg w label) :=
  inferInstanceAs (Decidable (_ ∧ _))

open Sample

/-- Node 9 answers; one handshake at a time from each address. -/
def answerer : Config := { node with self_ := 9, maxPendingPerIp := 1 }

/-- An Authenticate frame in the name of `peer`, and the `n` steps of thread `i` that handles it. -/
def opener (i : Nat) (peer : NodeId) (source : Option UInt64) (n : Nat) : List Label :=
  .receive { frame := authenticateFrame peer 9 [1], source } 0 :: .replicate n (.go i 0 (.want [2]))

/-- A second opener from one address finds no room. -/
theorem pending_capped_second : ∃ w, Machine.run (Machine.guarded (step answerer) (Handled answerer)) {}
      (opener 0 5 (some 7) 6 ++ opener 1 6 (some 7) 3) = some w ∧ w.state.pending.keys = [5] ∧
    w.state.pending.size ≤ 272 ∧ w.state.pending.entries.countP (fun e => w.opened e.1 = some 7) ≤ 1 := by
  obtain ⟨w, hw, hkeys⟩ := map_eq_some_iff.mp
    (show (Machine.run (Machine.guarded (step answerer) (Handled answerer)) {}
    (opener 0 5 (some 7) 6 ++ opener 1 6 (some 7) 3)).map (fun w => w.state.pending.keys) =
    some [5] by decide +kernel)
  obtain ⟨hsize, -, hperIp, -⟩ := pending_capped (Machine.reach_of_run hw)
  exact ⟨w, hw, hkeys, hsize, hperIp (by decide) 7⟩

/-- A frame without an address goes on with the first handshake, which is no longer counted for its address then. -/
theorem address_forgotten : ∃ w, Machine.run (Machine.guarded (step answerer) fun w l => Alone answerer w.state l) {}
      (opener 0 5 (some 7) 6 ++ opener 1 5 none 3 ++ opener 2 6 (some 7) 6) = some w ∧
    answerer.maxPendingPerIp < w.state.pending.entries.countP (fun e => w.opened e.1 = some 7) := by
  obtain ⟨w, hw, hcount⟩ := map_eq_some_iff.mp (show (Machine.run (Machine.guarded (step answerer) fun w l =>
    Alone answerer w.state l) {} (opener 0 5 (some 7) 6 ++ opener 1 5 none 3 ++ opener 2 6 (some 7) 6)).map (fun w =>
      w.state.pending.entries.countP (fun e => w.opened e.1 = some 7)) = some 2 by decide +kernel)
  exact ⟨w, hw, by rw [hcount]; decide⟩

end Tally

end Quark.Secure
