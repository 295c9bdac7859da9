import Mathlib.Data.List.Basic

/-! Reassembly of frames from a stream: a step looks at the bytes that are there and waits, stops, or takes a
frame off the front. What a receiver gets does not depend on how the stream is cut if no cut changes what a
step sees. -/
namespace Reassembly

open List

inductive Step (B A E : Type)
  | wait
  | halt (e : E)
  | emit (a : A) (rest : List B)

/-- A step that takes something off whenever it emits. -/
structure Framer (B A E : Type) where
  step : List B → Step B A E
  progress : ∀ bs a rest, step bs = .emit a rest → rest.length < bs.length

namespace Framer

variable {B A E : Type}

/-- Frames, the reason to stop if there is one, and the bytes that are left. -/
def drainFrom (F : Framer B A E) : Nat → List B → List A × Option E × List B
  | 0, bs => ([], none, bs)
  | n + 1, bs =>
    match F.step bs with
    | .wait => ([], none, bs)
    | .halt e => ([], some e, bs)
    | .emit a rest => (a :: (F.drainFrom n rest).1, (F.drainFrom n rest).2)

def drain (F : Framer B A E) (bs : List B) : List A × Option E × List B := F.drainFrom (bs.length + 1) bs

/-- One chunk after another on top of what is left; after a stop the receiver is not fed again. -/
def feedAll (F : Framer B A E) : List B → List (List B) → List A × Option E
  | _, [] => ([], none)
  | buf, chunk :: chunks =>
    match F.drain (buf ++ chunk) with
    | (as, some e, _) => (as, some e)
    | (as, none, rest) => (as ++ (F.feedAll rest chunks).1, (F.feedAll rest chunks).2)

/-- The positions in a stream at which a step is taken. -/
inductive Visits (F : Framer B A E) : List B → List B → Prop
  | here (bs : List B) : Visits F bs bs
  | next {bs rest bs' : List B} {a : A} (h : F.step bs = .emit a rest) (hrest : Visits F rest bs') : Visits F bs bs'

def Uncut (F : Framer B A E) (bs : List B) : Prop :=
  ∀ xs ys, bs = xs ++ ys → F.step xs = .wait ∨ (∃ e, F.step xs = .halt e ∧ F.step bs = .halt e) ∨
    ∃ a rest, F.step xs = .emit a rest ∧ F.step bs = .emit a (rest ++ ys)

section

variable {F : Framer B A E} {bs rest : List B} {a : A} {e : E}

attribute [local simp] drainFrom

theorem drainFrom_fuel {n m : Nat} (hn : bs.length < n) (hm : bs.length < m) :
    F.drainFrom n bs = F.drainFrom m bs := by
  induction n generalizing bs m with
  | zero => exact absurd hn (Nat.not_lt_zero _)
  | succ n ih =>
    cases m with
    | zero => exact absurd hm (Nat.not_lt_zero _)
    | succ m =>
      rw [drainFrom, drainFrom]
      cases hstep : F.step bs with
      | wait => rfl
      | halt e => rfl
      | emit a rest =>
        have hlt := F.progress bs a rest hstep
        dsimp only
        rw [ih (m := m) (by omega) (by omega)]

theorem drain_wait (h : F.step bs = .wait) : F.drain bs = ([], none, bs) := by
  rw [drain, drainFrom, h]

theorem drain_halt (h : F.step bs = .halt e) : F.drain bs = ([], some e, bs) := by
  rw [drain, drainFrom, h]

theorem drain_emit (h : F.step bs = .emit a rest) : F.drain bs = (a :: (F.drain rest).1, (F.drain rest).2) := by
  have hlt := F.progress bs a rest h
  rw [drain, drainFrom, h]
  dsimp only
  rw [drain, drainFrom_fuel hlt (Nat.lt_succ_self _)]

theorem step_rest (h : (F.drain bs).2.1 = none) : F.step (F.drain bs).2.2 = .wait := by
  induction hn : bs.length using Nat.strongRecOn generalizing bs with
  | ind n ih =>
    cases hstep : F.step bs with
    | wait =>
      rw [drain_wait hstep]
      exact hstep
    | halt e =>
      rw [drain_halt hstep] at h
      cases h
    | emit a rest =>
      rw [drain_emit hstep] at h ⊢
      exact ih rest.length (hn ▸ F.progress bs a rest hstep) h rfl

theorem exists_halt (h : (F.drain bs).2.1 = some e) : ∃ bs', F.Visits bs bs' ∧ F.step bs' = .halt e := by
  induction hn : bs.length using Nat.strongRecOn generalizing bs with
  | ind n ih =>
    cases hstep : F.step bs with
    | wait =>
      rw [drain_wait hstep] at h
      cases h
    | halt e' =>
      rw [drain_halt hstep] at h
      cases h
      exact ⟨bs, .here bs, hstep⟩
    | emit a rest =>
      rw [drain_emit hstep] at h
      obtain ⟨bs', hvisits, hhalt⟩ := ih rest.length (hn ▸ F.progress bs a rest hstep) h rfl
      exact ⟨bs', .next hstep hvisits, hhalt⟩

/-- Draining a part first: it stops the same way, or what is left is drained with the other part. -/
theorem drain_append {xs ys : List B} (h : ∀ bs, F.Visits (xs ++ ys) bs → F.Uncut bs) :
    (∀ e, (F.drain xs).2.1 = some e → (F.drain (xs ++ ys)).1 = (F.drain xs).1 ∧ (F.drain (xs ++ ys)).2.1 = some e) ∧
      ((F.drain xs).2.1 = none → (∀ bs, F.Visits ((F.drain xs).2.2 ++ ys) bs → F.Visits (xs ++ ys) bs) ∧
        F.drain (xs ++ ys) =
          ((F.drain xs).1 ++ (F.drain ((F.drain xs).2.2 ++ ys)).1, (F.drain ((F.drain xs).2.2 ++ ys)).2)) := by
  induction hn : xs.length using Nat.strongRecOn generalizing xs with
  | ind n ih =>
    rcases h _ (.here _) xs ys rfl with hwait | ⟨e, hhalt, hhalt'⟩ | ⟨a, rest, hemit, hemit'⟩
    · rw [drain_wait hwait]
      exact ⟨nofun, fun _ => ⟨fun _ hv => hv, by rw [nil_append]⟩⟩
    · rw [drain_halt hhalt, drain_halt hhalt']
      exact ⟨fun e' he => ⟨rfl, he⟩, nofun⟩
    · obtain ⟨hstop, hmore⟩ := ih rest.length (hn ▸ F.progress xs a rest hemit)
        (fun bs hbs => h bs (.next hemit' hbs)) rfl
      rw [drain_emit hemit, drain_emit hemit']
      refine ⟨fun e he => ?_, fun hnone => ?_⟩
      · obtain ⟨hframes, hreason⟩ := hstop e he
        exact ⟨congrArg (a :: ·) hframes, hreason⟩
      · obtain ⟨hvisits, heq⟩ := hmore hnone
        refine ⟨fun bs hbs => .next hemit' (hvisits bs hbs), ?_⟩
        rw [heq]
        rfl

/-- However the stream is cut, the receiver gets what it gets from the stream in one piece. -/
theorem feedAll_eq {buf : List B} {chunks : List (List B)} (hbuf : F.step buf = .wait)
    (h : ∀ bs, F.Visits (buf ++ chunks.flatten) bs → F.Uncut bs) :
    F.feedAll buf chunks = ((F.drain (buf ++ chunks.flatten)).1, (F.drain (buf ++ chunks.flatten)).2.1) := by
  induction chunks generalizing buf with
  | nil =>
    rw [flatten_nil, append_nil, drain_wait hbuf]
    rfl
  | cons chunk chunks ih =>
    rw [flatten_cons, ← append_assoc] at h ⊢
    obtain ⟨hstop, hmore⟩ := drain_append h
    rw [feedAll]
    rcases hdrain : F.drain (buf ++ chunk) with ⟨as, reason, rest⟩
    rw [hdrain] at hstop hmore
    cases reason with
    | some e =>
      obtain ⟨hframes, hreason⟩ := hstop e rfl
      rw [hframes, hreason]
    | none =>
      obtain ⟨hvisits, heq⟩ := hmore rfl
      have hwait : F.step rest = .wait := by
        have hrest := @step_rest _ _ _ F (buf ++ chunk) (by rw [hdrain])
        rwa [hdrain] at hrest
      rw [heq]
      dsimp only
      rw [ih hwait fun bs hbs => h bs (hvisits bs hbs)]

end

end Framer

end Reassembly
