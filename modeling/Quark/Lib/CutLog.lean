import Mathlib.Data.List.Basic

/-! A log is a sequence of frames. What a reader that stops after `n` of its bytes has of whole frames,
and what cutting the log there would leave. -/
namespace CutLog

open List

variable {α : Type}

/-- The end of the last frame that lies whole within the first `n` bytes. -/
def wholeUpTo : List (List α) → Nat → Nat
  | [], _ => 0
  | f :: frames, n => if f.length ≤ n then f.length + wholeUpTo frames (n - f.length) else 0

/-- The first `n` bytes hold the whole log, or end where a frame ends. -/
def EndsFrame (frames : List (List α)) (n : Nat) : Prop :=
  frames.flatten.length ≤ n ∨ ∃ k, n = (frames.take k).flatten.length

attribute [local simp] wholeUpTo

theorem wholeUpTo_le (frames : List (List α)) (n : Nat) : wholeUpTo frames n ≤ n := by
  induction frames generalizing n with
  | nil => exact Nat.zero_le n
  | cons f frames ih =>
    rw [wholeUpTo]
    split
    · have hrest := ih (n - f.length)
      omega
    · exact Nat.zero_le n

theorem wholeUpTo_of_length_le {frames : List (List α)} {n : Nat} (h : frames.flatten.length ≤ n) :
    wholeUpTo frames n = frames.flatten.length := by
  induction frames generalizing n with
  | nil => rfl
  | cons f frames ih =>
    rw [flatten_cons, length_append] at h ⊢
    rw [wholeUpTo, if_pos (by omega), ih (by omega)]

/-- Reading stopped between two frames exactly when nothing of a frame is left over. -/
theorem wholeUpTo_eq_iff (frames : List (List α)) (n : Nat) :
    wholeUpTo frames n = n ↔ ∃ k, n = (frames.take k).flatten.length := by
  induction frames generalizing n with
  | nil =>
    constructor
    · intro h
      exact ⟨0, h.symm⟩
    · rintro ⟨k, hk⟩
      rw [hk, take_nil]
      rfl
  | cons f frames ih =>
    rw [wholeUpTo]
    constructor
    · intro h
      split at h
      · obtain ⟨k, hk⟩ := (ih (n - f.length)).mp (by omega)
        refine ⟨k + 1, ?_⟩
        rw [take_succ_cons, flatten_cons, length_append]
        omega
      · exact ⟨0, h.symm⟩
    · rintro ⟨k, hk⟩
      cases k with
      | zero =>
        rw [take_zero, flatten_nil, length_nil] at hk
        split
        · have hrest := wholeUpTo_le frames (n - f.length)
          omega
        · exact hk.symm
      | succ k =>
        rw [take_succ_cons, flatten_cons, length_append] at hk
        rw [if_pos (by omega), (ih (n - f.length)).mpr ⟨k, by omega⟩]
        omega

/-- A loop that takes frames off the front of what was read. It stops at an offset, where it may have
found the log unusable; a frame that is not whole only ends it. -/
structure FrameLoop (α β σ : Type) where
  frame : β → List α
  apply : σ → β → Option σ
  run : Nat → σ → List α → Nat → Nat × Bool
  frame_pos : ∀ b, 0 < (frame b).length
  run_frame : ∀ fuel s s' b rest off, apply s b = some s' →
    run (fuel + 1) s (frame b ++ rest) off = run fuel s' rest (off + (frame b).length)
  run_part : ∀ fuel s b k off, k < (frame b).length → run fuel s ((frame b).take k) off = (off, false)
  le_run : ∀ fuel s bs off, off ≤ (run fuel s bs off).1

namespace FrameLoop

variable {β σ : Type} (L : FrameLoop α β σ)

def log (bs : List β) : List α := (bs.map L.frame).flatten

@[simp] theorem log_cons (b : β) (bs : List β) : L.log (b :: bs) = L.frame b ++ L.log bs := by
  rw [log, log, map_cons, flatten_cons]

/-- However much of a log was read, the loop stops no earlier than at the last frame read whole; where
the log was not read to its end, it stops there. -/
theorem run_take {bs : List β} {s s' : σ} (happly : bs.foldlM L.apply s = some s') (tail : List α)
    {fuel n : Nat} (hfuel : n ≤ fuel) (off : Nat) :
    off + wholeUpTo (bs.map L.frame) n ≤ (L.run fuel s ((L.log bs ++ tail).take n) off).1 ∧
      (n < (L.log bs).length →
        L.run fuel s ((L.log bs ++ tail).take n) off = (off + wholeUpTo (bs.map L.frame) n, false)) := by
  induction bs generalizing s fuel n off with
  | nil =>
    constructor
    · exact L.le_run _ _ _ _
    · intro h
      exact absurd h (Nat.not_lt_zero n)
  | cons b bs ih =>
    have hpos := L.frame_pos b
    simp only [foldlM_cons] at happly
    obtain ⟨mid, hb, hrest⟩ := Option.bind_eq_some_iff.mp happly
    rw [log_cons, map_cons, wholeUpTo, append_assoc, length_append]
    by_cases hwhole : (L.frame b).length ≤ n
    · -- the first frame was read whole: one turn of the loop, then the rest
      obtain ⟨fuel, rfl⟩ : ∃ more, fuel = more + 1 := ⟨fuel - 1, by omega⟩
      have hless : n - (L.frame b).length ≤ fuel := by omega
      obtain ⟨hle, heq⟩ := ih hrest hless (off + (L.frame b).length)
      rw [if_pos hwhole, take_append, take_of_length_le hwhole, L.run_frame _ _ _ _ _ _ hb]
      constructor
      · omega
      · intro h
        rw [heq (by omega), Nat.add_assoc]
    · rw [if_neg hwhole, take_append_of_le_length (by omega), L.run_part _ _ _ _ _ (by omega)]
      constructor
      · exact Nat.le_refl _
      · intro _
        rfl

/-- What opening makes of a file of which `n` bytes were read: an unusable one is left alone, else what
lies after the loop's last frame is cut off, if it can be. -/
def settled (cuts : Bool) (file : List α) (n : Nat) (stop : Nat × Bool) : List α :=
  if stop.2 = false ∧ stop.1 ≠ n ∧ cuts = true then file.take stop.1 else file

/-- A file that starts with the log still does after `n` bytes of it were read and the rest was taken for
a torn tail exactly when no cut is made, or reading stopped where a frame ends. -/
theorem settled_keeps_iff {bs : List β} {s s' : σ} (happly : bs.foldlM L.apply s = some s') (tail : List α)
    (n : Nat) (cuts : Bool) :
    L.log bs <+: settled cuts (L.log bs ++ tail) n (L.run n s ((L.log bs ++ tail).take n) 0) ↔
      cuts = false ∨ EndsFrame (bs.map L.frame) n := by
  obtain ⟨hle, heq⟩ := L.run_take happly tail (Nat.le_refl n) 0
  rw [Nat.zero_add] at hle heq
  by_cases hshort : n < (L.log bs).length
  · rw [heq hshort, settled]
    have hwhole := wholeUpTo_le (bs.map L.frame) n
    constructor
    · intro hprefix
      by_cases hcut : wholeUpTo (bs.map L.frame) n ≠ n ∧ cuts = true
      · -- what the cut keeps is no longer than what was read
        rw [if_pos ⟨rfl, hcut⟩] at hprefix
        have hlen := hprefix.length_le
        rw [length_take] at hlen
        omega
      · by_cases hend : wholeUpTo (bs.map L.frame) n = n
        · exact Or.inr (Or.inr ((wholeUpTo_eq_iff _ n).mp hend))
        · left
          rw [← Bool.not_eq_true]
          intro hcuts
          exact hcut ⟨hend, hcuts⟩
    · rintro (hnot | hall | hend)
      · rw [if_neg (by rw [hnot]; simp)]
        exact prefix_append _ _
      · exact absurd hall (Nat.not_le_of_lt hshort)
      · rw [if_neg (fun hcut => hcut.2.1 ((wholeUpTo_eq_iff _ n).mpr hend))]
        exact prefix_append _ _
  · have hall : (bs.map L.frame).flatten.length ≤ n := Nat.le_of_not_lt hshort
    rw [wholeUpTo_of_length_le hall, ← log] at hle
    refine iff_of_true ?_ (Or.inr (Or.inl hall))
    rw [settled]
    split
    · rw [take_append, take_of_length_le hle]
      exact prefix_append _ _
    · exact prefix_append _ _

end FrameLoop

/-- What one read call does: it returns some of what is left (at least one byte), or an error. -/
inductive ReadResult
  | bytes (n : Nat)
  | error
  deriving DecidableEq, Repr

/-- A read loop that ends at an error as it does at the end of the file. Calls past the list do
not fail. -/
def readLoop : List ReadResult → List α → List α
  | [], rest => rest
  | .error :: _, _ => []
  | .bytes n :: reads, rest => rest.take (n + 1) ++ readLoop reads (rest.drop (n + 1))

/-- However the reads go, what the loop has is the start of the file. -/
theorem readLoop_eq_take (reads : List ReadResult) (file : List α) :
    readLoop reads file = file.take (readLoop reads file).length := by
  induction reads generalizing file with
  | nil => rw [readLoop, take_length]
  | cons r reads ih =>
    cases r with
    | error => rfl
    | bytes n =>
      rw [readLoop]
      generalize hmore : readLoop reads (file.drop (n + 1)) = more
      have hrest := ih (file.drop (n + 1))
      rw [hmore] at hrest
      by_cases hlen : n + 1 ≤ file.length
      · have htake : (file.take (n + 1)).length = n + 1 := by rw [length_take]; omega
        have hsplit : file.take (n + 1 + more.length)
            = file.take (n + 1) ++ (file.drop (n + 1)).take more.length := take_add
        rw [length_append, htake, hsplit, ← hrest]
      · have hdrop : file.drop (n + 1) = [] := drop_of_length_le (by omega)
        rw [hdrop, take_nil] at hrest
        rw [hrest, append_nil, take_of_length_le (by omega), take_length]

end CutLog
