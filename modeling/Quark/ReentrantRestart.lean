import Quark.ReentrantQuiescence

/-! Restart episodes: nothing is dispatched to a state that is to be replaced, unless a quiescence guard that is
released in the episode has opened the gate. -/
namespace Quark.Reentrant

open List Machine

variable {M W P : Type}

/-- What holds of the restart episodes in a state, and of the steps from it. -/
structure Episodes [DecidableEq M] [DecidableEq W] [DecidableEq P] (cfg : Config) (s : State M W P) : Prop where
  fenced : s.restarting → ∀ f ∈ s.live, f ∈ s.poisoned
  once : s.episodes = s.reconstructions + s.abandoned + if s.restarting then 1 else 0
  unwound : ∀ a s', step cfg s a = some s' → s'.reconstructions ≠ s.reconstructions →
    s.restarting ∧ ∀ f ∈ s.poisoned, f ∈ s.completed ∨ f ∈ s.deadLettered
  givenUp : ∀ a s', step cfg s a = some s' → s'.abandoned ≠ s.abandoned → s.stopped
  pending : s.restarting → s.live ≠ [] ∨ ∃ w, (s.worker w).role.Between
  absorbed : ∀ a s', step cfg s a = some s' → s.restarting → s'.window = s.window ∧ s'.episodes = s.episodes
  reclaimed : ∀ f < s.dequeued.length, s.live.count f + s.reclaimed.count f ≤ 1 ∧
    (f ∈ s.live ∨ f ∈ s.reclaimed ∨ ∃ w, (s.worker w).role = .claims f)
  outcome : ∀ f, s.completed.count f + s.deadLettered.count f + s.tombstones.count f = s.reclaimed.count f

def WorkerPc.isGate : WorkerPc M → Bool
  | .gate _ => true
  | _ => false

def Gated (s : State M W P) : Label M W P → Prop
  | .worker w _ => (s.worker w).isGate → s.restarting → s.sealState ≠ .opened
  | _ => True

namespace Frames

structure Episodic (c : Frames) (r : Role) : Prop where
  accounted : c.Accounted r
  fenced : c.restarting → ∀ f ∈ c.live, f ∈ c.poisoned
  entered : r = .gated ∨ (∃ f, r = .claims f) → c.restarting = false
  unwound : ∀ f ∈ c.poisoned, f ∈ c.live ∨ f ∈ c.completed ∨ f ∈ c.deadLettered
  once : c.episodes = c.reconstructions + c.abandoned + if c.restarting then 1 else 0
  pending : c.restarting → c.live ≠ [] ∨ r.Between

def Shut (c : Frames) : Event → Prop
  | .gate => c.restarting → c.sealState ≠ .opened
  | _ => True

attribute [local grind =] Role.claimed Role.frame faulted deadLetter doStop hold await fireCancelAll Role.Between Shut

section

variable {cfg : Config} {c c' : Frames} {r r' : Role} {e : Event}

theorem Step.reconstructs (hstep : Step cfg c r e c' r') (hne : c'.reconstructions ≠ c.reconstructions) :
    c.restarting ∧ c.live = [] := by
  cases hstep <;> grind -ring -linarith

theorem Step.abandons (hstep : Step cfg c r e c' r') (hne : c'.abandoned ≠ c.abandoned) : c.stopped := by
  cases hstep <;> grind -ring -linarith

theorem Step.absorbed (hstep : Step cfg c r e c' r') (hrestarting : c.restarting) :
    c'.window = c.window ∧ c'.episodes = c.episodes := by
  cases hstep <;> grind -ring -linarith

theorem Episodic.initial : Episodic {} .plain := by
  constructor
  · exact .initial
  all_goals grind -ring -linarith

theorem Episodic.live_step (h : c.Episodic r) (hshut : c.Shut e) (hstep : Step cfg c r e c' r') :
    c'.restarting → ∀ f ∈ c'.live, f ∈ c'.poisoned := by
  have hfenced := h.fenced
  have hentered := h.entered
  cases hstep <;> grind -ring -linarith

theorem Episodic.entered_step (h : c.Episodic r) (hshut : c.Shut e) (hstep : Step cfg c r e c' r') :
    r' = .gated ∨ (∃ f, r' = .claims f) → c'.restarting = false := by
  have hentered := h.entered
  cases hstep <;> grind -ring -linarith

theorem Episodic.unwound_step (h : c.Episodic r) (hstep : Step cfg c r e c' r') :
    ∀ f ∈ c'.poisoned, f ∈ c'.live ∨ f ∈ c'.completed ∨ f ∈ c'.deadLettered := by
  have hunwound := h.unwound
  cases hstep <;> grind -ring -linarith

theorem Episodic.once_step (hdecision : cfg.sup.decision = .restart) (h : c.Episodic r)
    (hstep : Step cfg c r e c' r') :
    c'.episodes = c'.reconstructions + c'.abandoned + if c'.restarting then 1 else 0 := by
  have honce := h.once
  cases hstep <;> grind -ring -linarith

theorem Episodic.pending_step (h : c.Episodic r) (hstep : Step cfg c r e c' r') :
    c'.restarting → c'.live ≠ [] ∨ r'.Between := by
  have hpending := h.pending
  have hframe := fun f hf => ne_nil_of_mem (h.accounted.frame_mem (f := f) hf)
  cases hstep with
  | dispatch e f => exact fun _ => Or.inl (by simp)
  | cancelHold e f hone => exact fun _ => Or.inl (hframe f rfl)
  | _ => grind -ring -linarith

theorem Episodic.step (hdecision : cfg.sup.decision = .restart) (h : c.Episodic r) (hshut : c.Shut e)
    (hstep : Step cfg c r e c' r') : c'.Episodic r' where
  accounted := h.accounted.step hstep
  fenced := h.live_step hshut hstep
  entered := h.entered_step hshut hstep
  unwound := h.unwound_step hstep
  once := h.once_step hdecision hstep
  pending := h.pending_step hstep

end

end Frames

section

variable {cfg : Config} {s : State M W P} {r : Role}

theorem Frames.Episodic.reclaimed (h : s.frames.Episodic r) (hr : s.OnLane r) {f : Nat} (hf : f < s.dequeued.length) :
    s.live.count f + s.reclaimed.count f ≤ 1 ∧
      (f ∈ s.live ∨ f ∈ s.reclaimed ∨ ∃ w, (s.worker w).role = .claims f) := by
  have honce := h.accounted.once f
  rw [if_pos (show f < s.frames.dequeued from hf)] at honce
  change _ + s.live.count f + s.reclaimed.count f = 1 at honce
  refine ⟨by omega, ?_⟩
  by_cases hlive : f ∈ s.live
  · exact Or.inl hlive
  by_cases hreclaimed : f ∈ s.reclaimed
  · exact Or.inr (Or.inl hreclaimed)
  rw [count_eq_zero_of_not_mem hlive, count_eq_zero_of_not_mem hreclaimed] at honce
  have hclaimed : f ∈ r.claimed.toList := count_pos_iff.mp (by omega)
  have hrole : r = .claims f := by
    cases r <;> simp [Role.claimed] at hclaimed
    rw [hclaimed]
  obtain ⟨w, hw⟩ := hr.exists_worker (by rw [hrole]; simp)
  exact Or.inr (Or.inr ⟨w, by rw [hw, hrole]⟩)

variable [DecidableEq M] [DecidableEq W] [DecidableEq P]

theorem Frames.Episodic.episodes (h : s.frames.Episodic r) (hl : Laned s) (hr : s.OnLane r) : Episodes cfg s where
  fenced := h.fenced
  once := h.once
  unwound a s' hstep hne := by
    obtain ⟨r', hfollows⟩ := Follows.step hl hr hstep
    obtain ⟨hrestarting, hlive⟩ := hfollows.frames.reconstructs hne
    refine ⟨hrestarting, fun f hf => ?_⟩
    rcases h.unwound f hf with hin | hin
    · rw [hlive] at hin
      cases hin
    · exact hin
  givenUp a s' hstep hne := by
    obtain ⟨r', hfollows⟩ := Follows.step hl hr hstep
    exact hfollows.frames.abandons hne
  pending hrestarting := by
    rcases h.pending hrestarting with hlive | hbetween
    · exact Or.inl hlive
    · obtain ⟨w, hw⟩ := hr.exists_worker (by rintro rfl; exact hbetween)
      exact Or.inr ⟨w, by rw [hw]; exact hbetween⟩
  absorbed a s' hstep hrestarting := by
    obtain ⟨r', hfollows⟩ := Follows.step hl hr hstep
    exact hfollows.frames.absorbed hrestarting
  reclaimed _ hf := h.reclaimed hr hf
  outcome := h.accounted.outcome

theorem episodic_of_reach (hdecision : cfg.sup.decision = .restart)
    (hreach : Reach (step cfg) Gated {} s) : s.Lanes Frames.Episodic := by
  refine lanes_of_reach hreach .initial ?_
  intro s s' a r r' hgated hstep hr h hframes
  refine h.step hdecision ?_ hframes
  cases a with
  | worker w ok =>
    simp only [State.event]
    cases hw : s.worker w with
    | gate l => exact hgated (by rw [hw]; rfl)
    | _ => trivial
  | _ => trivial

/-- In every run in which the lane does not come to an open gate while an episode is open. -/
theorem episodes_of_reach (cfg : Config) (hdecision : cfg.sup.decision = .restart) :
    ∀ s : State M W P, Reach (step cfg) Gated {} s → Episodes cfg s := by
  intro s hreach
  obtain ⟨hl, r, hr, h⟩ := episodic_of_reach hdecision hreach
  exact h.episodes hl hr

end

section

instance (s : State M W P) : (a : Label M W P) → Decidable (Gated s a)
  | .worker _ _ => inferInstanceAs (Decidable (_ → _ → _))
  | .post _ _ | .completeOne _ | .watchdog _ _ | .caller _ | .pauseAdmission | .resumeAdmission | .select _
  | .quiesce _ _ | .release _ | .suspend _ | .finish _ | .fault _ _ _ => .isTrue trivial

/-- Message 3 is queued. The handler of message 1 suspends, that of message 2 faults, and the first is resumed. -/
def faultsBeside : List (Label Nat Unit Bool) :=
  List.flatten [[.post false 1], List.replicate 4 (.caller false), [.post false 2], List.replicate 2 (.caller false),
    [.post false 3], List.replicate 2 (.caller false), [.select ()],
    List.replicate 8 (.worker () true), [.suspend ()],
    List.replicate 6 (.worker () true), [.fault () .handlerThrow 0], List.replicate 5 (.worker () true)]

set_option maxRecDepth 4000 in
/-- The first completes, and the actor is reconstructed. -/
theorem episodes_of_reach_after_fault : duo.sup.decision = .restart ∧ ∃ s : State Nat Unit Bool,
    s.completed = [0] ∧ s.deadLettered = [1] ∧ s.reconstructions = 1 ∧ Episodes duo s := by
  have hrun : (Machine.run (guarded (step duo) Gated) ({} : State Nat Unit Bool)
      (faultsBeside ++ [Label.finish ()] ++ List.replicate 2 (Label.worker () true))).map
        (fun s => (s.completed, s.deadLettered, s.reconstructions)) = some ([0], [1], 1) := by
    decide +kernel
  obtain ⟨s, hs, hview⟩ := Option.map_eq_some_iff.mp hrun
  simp only [Prod.mk.injEq] at hview
  obtain ⟨hcompleted, hdead, hreconstructions⟩ := hview
  exact ⟨rfl, s, hcompleted, hdead, hreconstructions, episodes_of_reach duo rfl s (reach_of_run hs)⟩

set_option maxRecDepth 4000 in
/-- The first asks for quiescence, releases its guard and suspends again: message 3 is dispatched in the episode. -/
theorem dispatched_in_episode : ¬ ∀ (cfg : Config) (s : State Nat Unit Bool), cfg.sup.decision = .restart →
    Reachable (step cfg) {} s → Episodes cfg s := by
  intro hall
  have hrun : (Machine.run (step duo) ({} : State Nat Unit Bool)
      (faultsBeside ++ [Label.quiesce () .drain, Label.release (), Label.suspend ()] ++
      List.replicate 9 (Label.worker () true))).map
        (fun s => (s.restarting, s.live, s.poisoned)) = some (true, [0, 2], [0]) := by
    decide +kernel
  obtain ⟨s, hs, hview⟩ := Option.map_eq_some_iff.mp hrun
  simp only [Prod.mk.injEq] at hview
  obtain ⟨hrestarting, hlive, hpoisoned⟩ := hview
  have hfenced := (hall duo s rfl (reachable_of_run hs)).fenced hrestarting 2 (by rw [hlive]; simp)
  rw [hpoisoned] at hfenced
  simp at hfenced

end

end Quark.Reentrant
