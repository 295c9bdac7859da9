import Mathlib.Data.List.Basic
import Mathlib.Data.List.Induction

/-! Labelled machines: an executable step, runs over lists of labels, runs whose steps all meet a
condition, and the invariant rule. -/
namespace Machine

open List Option

variable {σ α : Type}

/-- Take the labels one after another; `none` if one of them is not enabled. -/
def run (step : σ → α → Option σ) (s : σ) (labels : List α) : Option σ := labels.foldlM step s

/-- `Reach step ok start s`: a run from `start` ends in `s` and each of its steps meets `ok`. -/
inductive Reach (step : σ → α → Option σ) (ok : σ → α → Prop) (start : σ) : σ → Prop
  | start : Reach step ok start start
  | step {s s' : σ} {a : α} (h : Reach step ok start s) (hok : ok s a) (hstep : step s a = some s') :
      Reach step ok start s'

/-- Each step that the labels make from `s` meets the condition. -/
def Along (step : σ → α → Option σ) (ok : σ → α → Prop) : σ → List α → Prop
  | _, [] => True
  | s, a :: labels => ∀ s', step s a = some s' → ok s a ∧ Along step ok s' labels

def Reachable (step : σ → α → Option σ) (start s : σ) : Prop := Reach step (fun _ _ => True) start s

section

variable {step : σ → α → Option σ} {ok : σ → α → Prop} {start s : σ}

/-- What holds at the start and is kept by every step that meets the condition holds throughout. -/
theorem Reach.invariant {I : σ → Prop} (h : Reach step ok start s) (hstart : I start)
    (hkeep : ∀ s a s', I s → ok s a → step s a = some s' → I s') : I s := by
  induction h with
  | start => exact hstart
  | step _ hok hstep ih => exact hkeep _ _ _ ih hok hstep

theorem Reachable.invariant {I : σ → Prop} (h : Reachable step start s) (hstart : I start)
    (hkeep : ∀ s a s', I s → step s a = some s' → I s') : I s :=
  Reach.invariant h hstart fun s a s' hinv _ hstep => hkeep s a s' hinv hstep

/-- Two conditions that agree wherever a run can get. -/
theorem Along.congr {ok' : σ → α → Prop} {labels : List α} {s : σ} (h : Reachable step start s)
    (hagree : ∀ s a s', Reachable step start s → step s a = some s' → (ok s a ↔ ok' s a)) :
    Along step ok s labels ↔ Along step ok' s labels := by
  induction labels generalizing s with
  | nil => exact Iff.rfl
  | cons a labels ih =>
    refine forall_congr' fun s' => forall_congr' fun hstep => ?_
    exact and_congr (hagree s a s' h hstep) (ih (.step h trivial hstep))

theorem Reach.reachable (h : Reach step ok start s) : Reachable step start s := by
  induction h with
  | start => exact .start
  | step _ _ hstep ih => exact .step ih trivial hstep

theorem Reach.trans {mid : σ} (h : Reach step ok start mid) (h' : Reach step ok mid s) : Reach step ok start s := by
  induction h' with
  | start => exact h
  | step _ hok hstep ih => exact ih.step hok hstep

theorem Reachable.run {labels : List α} {s' : σ} (h : Reachable step start s)
    (hrun : run step s labels = some s') : Reachable step start s' := by
  induction labels generalizing s with
  | nil =>
    cases hrun
    exact h
  | cons a labels ih =>
    simp only [Machine.run, foldlM_cons] at hrun
    cases hstep : step s a with
    | none => rw [hstep] at hrun; cases hrun
    | some mid =>
      rw [hstep] at hrun
      exact ih (.step h trivial hstep) hrun

theorem reachable_of_run {labels : List α} (hrun : run step start labels = some s) :
    Reachable step start s := Reachable.run .start hrun

theorem run_concat {labels : List α} {a : α} (hrun : run step start (labels ++ [a]) = some s) :
    ∃ mid, run step start labels = some mid ∧ step mid a = some s := by
  rw [run, foldlM_append] at hrun
  obtain ⟨mid, hmid, hlast⟩ := bind_eq_some_iff.mp hrun
  rw [foldlM_cons] at hlast
  obtain ⟨s', hstep, heq⟩ := bind_eq_some_iff.mp hlast
  cases heq
  exact ⟨mid, hmid, hstep⟩

theorem run_cons {labels : List α} {a : α} {s' : σ} :
    run step s (a :: labels) = some s' ↔ ∃ mid, step s a = some mid ∧ run step mid labels = some s' := by
  rw [run, foldlM_cons]
  exact bind_eq_some_iff

theorem run_append {before after : List α} {s' : σ} :
    run step s (before ++ after) = some s' ↔ ∃ mid, run step s before = some mid ∧ run step mid after = some s' := by
  rw [run, foldlM_append]
  exact bind_eq_some_iff

/-- An invariant that knows what happened so far. -/
theorem run_invariant {I : List α → σ → Prop} {labels : List α} (hrun : run step start labels = some s)
    (hstart : I [] start) (hkeep : ∀ past s a s', run step start past = some s → I past s → step s a = some s' →
      I (past ++ [a]) s') : I labels s := by
  induction labels using List.reverseRecOn generalizing s with
  | nil =>
    cases hrun
    exact hstart
  | append_singleton labels a ih =>
    obtain ⟨mid, hmid, hstep⟩ := run_concat hrun
    exact hkeep labels mid a s hmid (ih hmid) hstep

def guarded (step : σ → α → Option σ) (ok : σ → α → Prop) [∀ s a, Decidable (ok s a)] (s : σ) (a : α) :
    Option σ :=
  if ok s a then step s a else none

theorem Reach.run [∀ s a, Decidable (ok s a)] {labels : List α} {s' : σ} (h : Reach step ok start s)
    (hrun : run (guarded step ok) s labels = some s') : Reach step ok start s' := by
  induction labels generalizing s with
  | nil =>
    cases hrun
    exact h
  | cons a labels ih =>
    simp only [Machine.run, foldlM_cons, guarded] at hrun
    split at hrun
    · next hok =>
      cases hstep : step s a with
      | none => rw [hstep] at hrun; cases hrun
      | some mid =>
        rw [hstep] at hrun
        exact ih (.step h hok hstep) hrun
    · cases hrun

theorem reach_of_run [∀ s a, Decidable (ok s a)] {labels : List α}
    (hrun : run (guarded step ok) start labels = some s) : Reach step ok start s := Reach.run .start hrun

end

end Machine
