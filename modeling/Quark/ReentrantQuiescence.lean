import Quark.ReentrantFrames

/-! Quiescence: a handler that waits for it is made ready as soon as it is the last in flight, unless the last other
one leaves by a fault. -/
namespace Quark.Reentrant

open List Machine

variable {M W P : Type}

def SealState.Sealed : SealState → Prop
  | .draining | .cancelling => True
  | .opened | .paused => False

/-- A frame has left the in-flight set, or the lane is in `begin_quiesce`: the lane is not back in its drain loop. -/
def Role.Between : Role → Prop
  | .fires _ | .left | .pushes _ | .restarts | .settles => True
  | .plain | .gated | .claims _ | .runs _ => False

/-- On the way from the completion of a frame to the wake of the waiter. -/
def Role.Readies : Role → Prop
  | .left | .pushes _ => True
  | _ => False

/-- Quiescence is not waited for after it has been reached, and the gate stays sealed only for a handler that waits
or holds a guard, for a restart, or for good on a stopped actor. -/
structure Quiesces (s : State M W P) : Prop where
  woken : ∀ f ∈ s.awaiting, (∀ g ∈ s.live, g = f) → f ∈ s.ready ∨ ∃ w, (s.worker w).role.Readies
  sealed : s.sealState.Sealed → s.awaiting ≠ [] ∨ s.guards ≠ [] ∨ s.stopped ∨ s.restarting ∧ s.live ≠ [] ∨
    ∃ w, (s.worker w).role.Between
  released : ∀ w s', stepRelease s w = some s' → s'.sealState = .opened

def Frames.LastBeside (c : Frames) (f : Nat) : Prop := ∃ g, c.waiterFrame = some g ∧ ∀ h ∈ c.live, h = f ∨ h = g

def Single (s : State M W P) : Label M W P → Prop
  | .quiesce _ _ => s.awaiting = [] ∧ s.guards = []
  | _ => True

def Faultless (s : State M W P) : Label M W P → Prop
  | .fault w _ _ => ∀ f, (s.worker w).role = .runs f → ¬ s.frames.LastBeside f
  | _ => True

namespace Frames

structure Quiescing (c : Frames) (r : Role) : Prop where
  accounted : c.Accounted r
  waits : ∀ f, c.waiterFrame = some f → f ∈ c.awaiting ∧ c.sealState.Sealed ∧ c.guards = [] ∧
    (r = .left ∨ ∃ g ∈ c.live, g ≠ f)
  awaits : ∀ f ∈ c.awaiting, c.waiterFrame = some f ∨ f ∈ c.ready ∨ r = .pushes f
  single : c.awaiting = [] ∨ c.guards = [] ∧ ∃ f, c.awaiting = [f]
  fires : ∀ f, r = .fires f → c.awaiting = [] ∧ c.guards = [] ∧ c.sealState.Sealed
  restarts : r = .restarts → c.restarting
  sealed : c.sealState.Sealed → c.awaiting ≠ [] ∨ c.guards ≠ [] ∨ c.stopped ∨
    c.restarting ∧ (c.live ≠ [] ∨ r.Between) ∨ ∃ f, r = .fires f

def Fair (c : Frames) (r : Role) : Event → Prop
  | .quiesce => c.awaiting = [] ∧ c.guards = []
  | .fault => ∀ f, r = .runs f → ¬ c.LastBeside f
  | _ => True

theorem exists_ne_of_nodup {live : List Nat} (hnodup : live.Nodup) (hmore : ¬ live.length ≤ 1) (f : Nat) :
    ∃ g ∈ live, g ≠ f := by
  by_contra hnone
  push Not at hnone
  rw [eq_replicate_of_mem hnone] at hnodup
  exact hmore (nodup_replicate.mp hnodup)

theorem exists_ne_of_ne_singleton {live : List Nat} {f : Nat} (hnodup : live.Nodup) (hf : f ∈ live)
    (hne : live ≠ [f]) : ∃ g ∈ live, g ≠ f := by
  refine exists_ne_of_nodup hnodup (fun hone => hne ?_) f
  have hpos := length_pos_of_mem hf
  obtain ⟨g, hg⟩ := length_eq_one_iff.mp (show live.length = 1 by omega)
  rw [hg, mem_singleton] at hf
  rw [hg, hf]

theorem exists_beside {c : Frames} {f g : Nat} (hwaiter : c.waiterFrame = some g) (hnot : ¬ c.LastBeside f) :
    ∃ h ∈ c.live.erase f, h ≠ g := by
  by_contra hnone
  refine hnot ⟨g, hwaiter, fun h hh => ?_⟩
  by_cases heq : h = f
  · exact Or.inl heq
  · refine Or.inr ?_
    by_contra hne
    exact hnone ⟨h, (mem_erase_of_ne heq).mpr hh, hne⟩

attribute [local grind =] Role.claimed Role.frame faulted deadLetter doStop hold await fireCancelAll
  SealState.Sealed Role.Between Role.Readies Fair

section

variable {cfg : Config} {c c' : Frames} {r r' : Role} {e : Event}

theorem Quiescing.initial : Quiescing {} .plain := by
  constructor
  · exact .initial
  all_goals grind -ring -linarith

theorem Quiescing.single_step (h : c.Quiescing r) (hfair : c.Fair r e) (hstep : Step cfg c r e c' r') :
    c'.awaiting = [] ∨ c'.guards = [] ∧ ∃ f, c'.awaiting = [f] := by
  have hsingle := h.single
  have hfires := h.fires
  cases hstep <;> grind -ring -linarith

theorem Quiescing.fires_step (h : c.Quiescing r) (hfair : c.Fair r e) (hstep : Step cfg c r e c' r') :
    ∀ f, r' = .fires f → c'.awaiting = [] ∧ c'.guards = [] ∧ c'.sealState.Sealed := by
  have hfires := h.fires
  cases hstep <;> grind -ring -linarith

theorem Quiescing.restarts_step (h : c.Quiescing r) (hstep : Step cfg c r e c' r') :
    r' = .restarts → c'.restarting := by
  have hrestarts := h.restarts
  cases hstep <;> grind -ring -linarith

theorem Quiescing.awaits_step (h : c.Quiescing r) (hfair : c.Fair r e) (hstep : Step cfg c r e c' r') :
    ∀ f ∈ c'.awaiting, c'.waiterFrame = some f ∨ f ∈ c'.ready ∨ r' = .pushes f := by
  have hawaits := h.awaits
  have hwaits := h.waits
  have hfires := h.fires
  have hsingle := h.single
  cases hstep <;> grind -ring -linarith

theorem Quiescing.sealed_step (h : c.Quiescing r) (hstep : Step cfg c r e c' r') :
    c'.sealState.Sealed → c'.awaiting ≠ [] ∨ c'.guards ≠ [] ∨ c'.stopped ∨
      c'.restarting ∧ (c'.live ≠ [] ∨ r'.Between) ∨ ∃ f, r' = .fires f := by
  have hsealed := h.sealed
  have hrestarts := h.restarts
  have hmem := fun f => h.accounted.frame_mem (f := f)
  cases hstep with
  | dispatch e f =>
    intro hs
    obtain hsealed | hsealed | hsealed | ⟨hrestarting, _⟩ | ⟨g, hg⟩ := hsealed hs
    · exact Or.inl hsealed
    · exact Or.inr (Or.inl hsealed)
    · exact Or.inr (Or.inr (Or.inl hsealed))
    · exact Or.inr (Or.inr (Or.inr (Or.inl ⟨hrestarting, Or.inl (by simp)⟩)))
    · cases hg
  | _ => grind -ring -linarith

theorem Quiescing.waits_step (h : c.Quiescing r) (hfair : c.Fair r e) (hstep : Step cfg c r e c' r') :
    ∀ f, c'.waiterFrame = some f → f ∈ c'.awaiting ∧ c'.sealState.Sealed ∧ c'.guards = [] ∧
      (r' = .left ∨ ∃ g ∈ c'.live, g ≠ f) := by
  have hfires := h.fires
  have hwaits := h.waits
  have hsingle := h.single
  have hplaced := h.accounted.placed
  have hbeside := fun f g => exists_beside (c := c) (f := f) (g := g)
  cases hstep with
  | popWaiter e hready hin =>
    -- who is ready is not the waiter, and nobody else waits
    intro f hf
    change c.waiterFrame = some f at hf
    obtain ⟨hwait, _⟩ := hwaits f hf
    have hcount := hplaced f
    have hle := nodup_iff_count_le_one.mp h.accounted.nodup f
    grind -ring -linarith
  | dispatch e f =>
    intro g hg
    obtain ⟨hin, hseal, hguards, hor⟩ := hwaits g hg
    refine ⟨hin, hseal, hguards, Or.inr ?_⟩
    rcases hor with hor | ⟨k, hk, hne⟩
    · cases hor
    · exact ⟨k, mem_append_left _ hk, hne⟩
  | drainAwait f hmore =>
    intro g hg
    cases hg
    exact ⟨mem_cons_self, trivial, hfair.2, Or.inr (exists_ne_of_nodup h.accounted.nodup hmore f)⟩
  | cancelAwait e f hmore =>
    intro g hg
    cases hg
    obtain ⟨_, hguards, hseal⟩ := hfires f rfl
    exact ⟨mem_cons_self, hseal, hguards, Or.inr (exists_ne_of_nodup h.accounted.nodup hmore f)⟩
  | noWaiter e hnot =>
    intro f hf
    obtain ⟨hin, hseal, hguards, _⟩ := hwaits f hf
    have hlive : f ∈ c.live := by
      have hcount := hplaced f
      refine count_pos_iff.mp ?_
      grind -ring -linarith
    refine ⟨hin, hseal, hguards, Or.inr (exists_ne_of_ne_singleton h.accounted.nodup hlive (hnot f hf ?_))⟩
    grind -ring -linarith
  | _ => grind -ring -linarith

theorem Quiescing.step (h : c.Quiescing r) (hfair : c.Fair r e) (hstep : Step cfg c r e c' r') : c'.Quiescing r' where
  accounted := h.accounted.step hstep
  waits := h.waits_step hfair hstep
  awaits := h.awaits_step hfair hstep
  single := h.single_step hfair hstep
  fires := h.fires_step hfair hstep
  restarts := h.restarts_step hstep
  sealed := h.sealed_step hstep

end

end Frames

section

variable {s s' : State M W P} {r : Role}

theorem Frames.Quiescing.quiesces (h : s.frames.Quiescing r) (hr : s.OnLane r) : Quiesces s := by
  refine ⟨fun f hf hlast => ?_, fun hseal => ?_, ?_⟩
  · rcases h.awaits f hf with hwaiter | hready | hpushes
    · obtain ⟨_, _, _, hleft | ⟨g, hg, hne⟩⟩ := h.waits f hwaiter
      · obtain ⟨w, hw⟩ := hr.exists_worker (by rw [hleft]; simp)
        refine Or.inr ⟨w, ?_⟩
        rw [hw, hleft]
        trivial
      · exact absurd (hlast g hg) hne
    · exact Or.inl hready
    · obtain ⟨w, hw⟩ := hr.exists_worker (by rw [hpushes]; simp)
      refine Or.inr ⟨w, ?_⟩
      rw [hw, hpushes]
      trivial
  · have hbetween : r.Between → ∃ w, (s.worker w).role.Between := by
      intro hb
      obtain ⟨w, hw⟩ := hr.exists_worker (by rintro rfl; exact hb)
      exact ⟨w, by rw [hw]; exact hb⟩
    rcases h.sealed hseal with hin | hin | hin | ⟨hin, hlive | hb⟩ | ⟨f, hf⟩
    · exact Or.inl hin
    · exact Or.inr (Or.inl hin)
    · exact Or.inr (Or.inr (Or.inl hin))
    · exact Or.inr (Or.inr (Or.inr (Or.inl ⟨hin, hlive⟩)))
    · exact Or.inr (Or.inr (Or.inr (Or.inr (hbetween hb))))
    · refine Or.inr (Or.inr (Or.inr (Or.inr (hbetween ?_))))
      rw [hf]
      trivial
  · intro w s' hstep
    unfold stepRelease at hstep
    split at hstep
    · split at hstep
      · cases hstep
        rfl
      · cases hstep
    · cases hstep

section

variable [DecidableEq W] {cfg : Config} {w : W} {l : Local} {via : Via} {f : Nat} {src : FailureSource} {now : Int}

/-- Whoever waits for quiescence is left where it is, and the lane goes on. -/
structure LeavesWaiting (s : State M W P) (w : W) (live : List Nat) (s' : State M W P) : Prop where
  live_eq : s'.live = live
  ready_eq : s'.ready = s.ready
  awaiting_eq : s'.awaiting = s.awaiting
  goes : ∃ pc, s'.worker = Function.update s.worker w pc ∧ (pc.role = .settles ∨ pc.role = .restarts)

theorem leavesWaiting_restart : LeavesWaiting s w s.live (doRestartReentrant cfg s w l via now) := by
  unfold doRestartReentrant
  split
  · exact ⟨rfl, rfl, rfl, .finishRestart l via, rfl, Or.inl rfl⟩
  · split
    · exact ⟨rfl, rfl, rfl, .restartSeal l via, rfl, Or.inr rfl⟩
    · exact ⟨rfl, rfl, rfl, .finishRestart l via, rfl, Or.inl rfl⟩

theorem leavesWaiting_fault : LeavesWaiting s w (s.live.erase f) (onFaultReentrant cfg s w l via f src now) := by
  unfold onFaultReentrant
  split
  · exact ⟨rfl, rfl, rfl, .finishRestart l via, rfl, Or.inl rfl⟩
  · split
    · exact ⟨rfl, rfl, rfl, .finishRestart l via, rfl, Or.inl rfl⟩
    · have h : LeavesWaiting { s.deadLetter f with live := s.live.erase f } w (s.live.erase f)
          (doRestartReentrant cfg { s.deadLetter f with live := s.live.erase f } w l via now) := leavesWaiting_restart
      exact ⟨h.live_eq, h.ready_eq, h.awaiting_eq, h.goes⟩
    · exact ⟨rfl, rfl, rfl, .finishRestart l via, rfl, Or.inl rfl⟩
    · exact ⟨rfl, rfl, rfl, .finishRestart l via, rfl, Or.inl rfl⟩

/-- The condition is exact: after such a fault only the waiter is in flight, and nothing is to wake it. -/
theorem not_quiesces_of_fault (h : s.frames.Quiescing r) (hl : Laned s) (hw : s.worker w = .handler l via f)
    (hlast : s.frames.LastBeside f) : ¬ Quiesces (onFaultReentrant cfg s w l via f src now) := by
  intro hquiesces
  obtain ⟨g, hwaiter, hlast⟩ := hlast
  have hleaves : LeavesWaiting s w (s.live.erase f) (onFaultReentrant cfg s w l via f src now) := leavesWaiting_fault
  obtain ⟨hlive, hready, hawaiting, pc, hworker, hpc⟩ := hleaves
  have honly : ∀ k ∈ (onFaultReentrant cfg s w l via f src now).live, k = g := by
    intro k hk
    rw [hlive] at hk
    obtain ⟨hne, hin⟩ := (List.Nodup.mem_erase_iff h.accounted.nodup).mp hk
    exact (hlast k hin).resolve_left hne
  rcases hquiesces.woken g (by rw [hawaiting]; exact (h.waits g hwaiter).1) honly with hin | ⟨w', hw'⟩
  · rw [hready] at hin
    have hcount := h.accounted.placed g
    have hle := nodup_iff_count_le_one.mp h.accounted.nodup g
    have hpos := count_pos_iff.mpr (show g ∈ s.frames.ready from hin)
    rw [hwaiter] at hcount
    simp only [Option.toList, count_cons_self, count_nil] at hcount
    omega
  · rw [hworker] at hw'
    by_cases hne : w' = w
    · rw [hne, Function.update_self] at hw'
      rcases hpc with hpc | hpc <;> (rw [hpc] at hw'; exact hw')
    · rw [Function.update_of_ne hne] at hw'
      have hnone := hl.others (w := w) (by rw [hw]; rfl) hne
      cases hpc' : s.worker w' <;> rw [hpc'] at hnone hw' <;> first | exact hw' | cases hnone

end

end

section

variable [DecidableEq M] [DecidableEq W] [DecidableEq P]

theorem quiescing_of_reach {cfg : Config} {s : State M W P}
    (hreach : Reach (step cfg) (fun s a => Single s a ∧ Faultless s a) {} s) : s.Lanes Frames.Quiescing := by
  refine lanes_of_reach hreach .initial ?_
  intro s s' a r r' ⟨hsingle, hfaultless⟩ hstep hr h hframes
  refine h.step ?_ hframes
  cases a with
  | quiesce w mode => exact hsingle
  | fault w src now =>
    intro f hf
    refine hfaultless f ?_
    simp only [step, stepFault] at hstep
    split at hstep
    · next l via f' hw =>
      rw [← hf]
      exact hr.owner w (by rw [hw]; rfl)
    · cases hstep
  | worker w ok =>
    simp only [State.event]
    cases s.worker w <;> trivial
  | _ => trivial

/-- In every run in which one handler at a time asks for quiescence and none leaves by a fault as the last one beside
the handler that waits. -/
theorem quiescence_reached (cfg : Config) : ∀ s : State M W P,
    Reach (step cfg) (fun s a => Single s a ∧ Faultless s a) {} s → Quiesces s := by
  intro s hreach
  obtain ⟨_, r, hr, h⟩ := quiescing_of_reach hreach
  exact h.quiesces hr

end

section

instance (c : Frames) (f : Nat) : Decidable (c.LastBeside f) :=
  decidable_of_iff (∃ g ∈ c.waiterFrame, ∀ h ∈ c.live, h = f ∨ h = g) Iff.rfl

instance (s : State M W P) : (a : Label M W P) → Decidable (Single s a)
  | .quiesce _ _ => inferInstanceAs (Decidable (_ ∧ _))
  | .post _ _ | .completeOne _ | .watchdog _ _ | .caller _ | .pauseAdmission | .resumeAdmission | .select _
  | .worker _ _ | .release _ | .suspend _ | .finish _ | .fault _ _ _ => .isTrue trivial

instance (s : State M W P) : (a : Label M W P) → Decidable (Faultless s a)
  | .fault w _ _ => decidable_of_iff (∀ f ∈ (s.worker w).role.frame, (s.worker w).role = .runs f →
  ¬ s.frames.LastBeside f)
      ⟨fun h f hf => h f (by rw [hf]; rfl) hf, fun h f _ hf => h f hf⟩
  | .post _ _ | .completeOne _ | .watchdog _ _ | .caller _ | .pauseAdmission | .resumeAdmission | .select _
  | .worker _ _ | .quiesce _ _ | .release _ | .suspend _ | .finish _ => .isTrue trivial

def duo : Config := { maxConcurrency := 2, budget := 64, busySpinLimit := 4 }

/-- The handler of message 1 suspends, that of message 2 asks for quiescence, and the first is resumed. -/
def asksBeside : List (Label Nat Unit Bool) :=
  List.flatten [[.post false 1], List.replicate 4 (.caller false), [.post false 2], List.replicate 2 (.caller false),
    [.select ()], List.replicate 8 (.worker () true), [.suspend ()], List.replicate 10 (.worker () true),
    [.quiesce () .drain], List.replicate 8 (.worker () true), [.completeOne true], List.replicate 2 (.caller true),
    [.select ()], List.replicate 3 (.worker () true)]

set_option maxRecDepth 4000 in
/-- The first completes: the second is resumed, and releases its guard. -/
theorem quiescence_reached_after_finish : ∃ s : State Nat Unit Bool,
    s.completed = [0] ∧ s.live = [1] ∧ s.sealState = .opened ∧ Quiesces s := by
  have hrun : (Machine.run (guarded (step duo) (fun s a => Single s a ∧ Faultless s a))
      ({} : State Nat Unit Bool)
      (asksBeside ++ [Label.finish ()] ++ List.replicate 4 (Label.worker () true) ++ [Label.release ()])).map
        (fun s => (s.completed, s.live, s.sealState)) = some ([0], [1], .opened) := by
    decide +kernel
  obtain ⟨s, hs, hview⟩ := Option.map_eq_some_iff.mp hrun
  simp only [Prod.mk.injEq] at hview
  obtain ⟨hcompleted, hlive, hopened⟩ := hview
  exact ⟨s, hcompleted, hlive, hopened, quiescence_reached duo s (reach_of_run hs)⟩

set_option maxRecDepth 4000 in
/-- The first faults: the lane parks with the second waiting alone. -/
theorem quiescence_missed : ¬ ∀ s : State Nat Unit Bool,
    Reach (step duo) Single {} s → Quiesces s := by
  intro hall
  have hrun : (Machine.run (guarded (step duo) Single) ({} : State Nat Unit Bool)
      (asksBeside ++ [Label.fault () .handlerThrow 0] ++ List.replicate 10 (Label.worker () true))).map
        (fun s => (s.awaiting, s.live, s.ready, s.worker ())) = some ([1], [1], [], .away) := by
    decide +kernel
  obtain ⟨s, hs, hview⟩ := Option.map_eq_some_iff.mp hrun
  simp only [Prod.mk.injEq] at hview
  obtain ⟨hawaiting, hlive, hready, hworker⟩ := hview
  have hwoken := (hall s (reach_of_run hs)).woken 1 (by rw [hawaiting]; simp) (by rw [hlive]; simp)
  rcases hwoken with hin | ⟨w, hw⟩
  · rw [hready] at hin
    cases hin
  · rw [hworker] at hw
    exact hw

end

end Quark.Reentrant
