import Mathlib.Data.List.Basic

/-! Go-back-N over a link that loses, duplicates and reorders, for one sender. The receiver may forget its mark. -/
namespace GoBackN

open List

variable {B : Type}

/-- A body is numbered from 1 by its place. Frames carry the number, the first unacknowledged one, and the body;
what was ever on the link may arrive. -/
structure Flow (B : Type) where
  sent : List B := []
  acked : Nat := 0
  deferred : Nat := 0
  mark : Option Nat := none
  delivered : List (Nat × B) := []
  frames : List (Nat × Nat × B) := []
  acks : List Nat := []

/-- The steps that a condition is about. -/
inductive Event
  | first (seq : Nat) | apply (cum : Nat) | forget | other

inductive Flow.Step : Flow B → Event → Flow B → Prop
  | stay (c) : Step c .other c
  | enqueue (c) (b : B) : Step c .other { c with sent := c.sent ++ [b] }
  | send (c) {seq b} (hseq : c.acked < seq) (hbody : c.sent[seq - 1]? = some b) :
      Step c .other { c with frames := c.frames ++ [(seq, c.acked + 1, b)] }
  | emit (c) : Step c .other { c with acks := c.acks ++ [c.mark.getD 0] }
  | defer (c) {cum} (hin : cum ∈ c.acks) : Step c .other { c with deferred := max c.deferred cum }
  | apply (c) {cum} (hin : cum ∈ c.acks ∨ cum = c.deferred) : Step c (.apply cum) { c with acked := max c.acked cum }
  | first (c) {seq b} (hnone : c.mark = none) (hin : (seq, seq, b) ∈ c.frames) :
      Step c (.first seq) { c with mark := some seq, delivered := c.delivered ++ [(seq, b)] }
  | next (c) {w base b} (hmark : c.mark = some w) (hin : (w + 1, base, b) ∈ c.frames) :
      Step c .other { c with mark := some (w + 1), delivered := c.delivered ++ [(w + 1, b)] }
  | forget (c) : Step c .forget { c with mark := none }

namespace Flow

variable {c c' : Flow B} {e : Event} {n m : Nat}

/-- Everything up to `n` was delivered at least once. -/
def Covers (c : Flow B) (n : Nat) : Prop := ∀ t, 0 < t → t ≤ n → ∃ b, (t, b) ∈ c.delivered

/-- Nothing was delivered before all that precedes it. -/
def InOrder (delivered : List (Nat × B)) : Prop :=
  ∀ done s b rest, delivered = done ++ (s, b) :: rest → ∀ t, 0 < t → t < s → ∃ b', (t, b') ∈ done

theorem Covers.zero : c.Covers 0 := fun t hpos ht => absurd hpos (by omega)

theorem Covers.mono (h : c.Covers n) (hle : m ≤ n) : c.Covers m := fun t hpos ht => h t hpos (by omega)

theorem Covers.max (hn : c.Covers n) (hm : c.Covers m) : c.Covers (max n m) := by
  rcases Nat.le_total n m with hle | hle
  · rwa [Nat.max_eq_right hle]
  · rwa [Nat.max_eq_left hle]

theorem Covers.more (h : c.Covers n) (hmore : ∀ p ∈ c.delivered, p ∈ c'.delivered) : c'.Covers n := by
  intro t hpos ht
  obtain ⟨b, hb⟩ := h t hpos ht
  exact ⟨b, hmore _ hb⟩

theorem Covers.next {b : B} (h : c.Covers n) (hmore : ∀ p ∈ c.delivered, p ∈ c'.delivered)
    (hin : (n + 1, b) ∈ c'.delivered) : c'.Covers (n + 1) := by
  intro t hpos ht
  rcases Nat.lt_or_eq_of_le ht with hlt | heq
  · exact h.more hmore t hpos (by omega)
  · exact ⟨b, by rw [heq]; exact hin⟩

theorem InOrder.nil : InOrder ([] : List (Nat × B)) := by
  intro done s b rest h
  cases done <;> cases h

theorem InOrder.concat {s : Nat} {b : B} (h : InOrder c.delivered) (hs : c.Covers (s - 1)) :
    InOrder (c.delivered ++ [(s, b)]) := by
  intro done s' b' rest heq t hpos ht
  rcases eq_nil_or_concat rest with hrest | ⟨rest', p, hrest⟩
  · rw [hrest] at heq
    obtain ⟨hdone, hlast⟩ := append_inj' heq rfl
    cases hlast
    rw [← hdone]
    exact hs t hpos (by omega)
  · rw [hrest, concat_eq_append, ← cons_append, ← append_assoc] at heq
    obtain ⟨hdone, _⟩ := append_inj' heq rfl
    exact h done s' b' rest' hdone t hpos ht

/-- What holds whatever the receiver forgets. -/
structure Safe (c : Flow B) : Prop where
  acked : c.Covers c.acked
  deferred : c.Covers c.deferred
  acks : ∀ cum ∈ c.acks, c.Covers cum
  mark : ∀ w, c.mark = some w → c.Covers w
  frames : ∀ seq base b, (seq, base, b) ∈ c.frames → 0 < base ∧ base ≤ c.acked + 1 ∧ c.sent[seq - 1]? = some b
  bodies : ∀ s b, (s, b) ∈ c.delivered → 0 < s ∧ c.sent[s - 1]? = some b
  inOrder : InOrder c.delivered

theorem Safe.initial : Safe ({} : Flow B) := by
  constructor
  · exact .zero
  · exact .zero
  · simp
  · simp
  · simp
  · simp
  · exact .nil

theorem Safe.deliver {s : Nat} {b : B} (h : c.Safe) (hpos : 0 < s) (hcovers : c.Covers (s - 1))
    (hbody : c.sent[s - 1]? = some b) :
    Safe { c with mark := some s, delivered := c.delivered ++ [(s, b)] } := by
  have hmore : ∀ p ∈ c.delivered, p ∈ c.delivered ++ [(s, b)] := fun p hp => mem_append_left _ hp
  have hs : Covers { c with mark := some s, delivered := c.delivered ++ [(s, b)] } s := by
    have hin : (s - 1 + 1, b) ∈ c.delivered ++ [(s, b)] := by
      rw [Nat.sub_add_cancel hpos]
      simp
    have hnext : Covers { c with mark := some s, delivered := c.delivered ++ [(s, b)] } (s - 1 + 1) :=
      hcovers.next hmore hin
    rwa [Nat.sub_add_cancel hpos] at hnext
  constructor
  · exact h.acked.more hmore
  · exact h.deferred.more hmore
  · exact fun cum hin => (h.acks cum hin).more hmore
  · intro w hw
    cases hw
    exact hs
  · exact h.frames
  · intro s' b' hin
    rcases mem_append.mp hin with hin | hin
    · exact h.bodies s' b' hin
    · cases mem_singleton.mp hin
      exact ⟨hpos, hbody⟩
  · exact h.inOrder.concat hcovers

theorem Safe.step (h : c.Safe) (hstep : Step c e c') : c'.Safe := by
  cases hstep with
  | stay => exact h
  | enqueue b =>
    have hkeep : ∀ s b', c.sent[s - 1]? = some b' → (c.sent ++ [b])[s - 1]? = some b' := by
      intro s b' hs
      obtain ⟨hlt, hget⟩ := List.getElem?_eq_some_iff.mp hs
      rw [List.getElem?_append_left hlt, hs]
    refine ⟨h.acked, h.deferred, h.acks, h.mark, fun seq base b' hin => ?_, fun s b' hin => ?_, h.inOrder⟩
    · obtain ⟨hpos, hle, hbody⟩ := h.frames seq base b' hin
      exact ⟨hpos, hle, hkeep _ _ hbody⟩
    · exact ⟨(h.bodies s b' hin).1, hkeep _ _ (h.bodies s b' hin).2⟩
  | send hseq hbody =>
    refine ⟨h.acked, h.deferred, h.acks, h.mark, fun seq base b' hin => ?_, h.bodies, h.inOrder⟩
    rcases mem_append.mp hin with hin | hin
    · exact h.frames seq base b' hin
    · cases mem_singleton.mp hin
      exact ⟨by omega, Nat.le_refl _, hbody⟩
  | emit =>
    refine ⟨h.acked, h.deferred, fun cum hin => ?_, h.mark, h.frames, h.bodies, h.inOrder⟩
    rcases mem_append.mp hin with hin | hin
    · exact h.acks cum hin
    · rw [mem_singleton.mp hin]
      cases hmark : c.mark with
      | none => exact .zero
      | some w => exact h.mark w hmark
  | defer hin => exact ⟨h.acked, h.deferred.max (h.acks _ hin), h.acks, h.mark, h.frames, h.bodies, h.inOrder⟩
  | apply hin =>
    refine ⟨h.acked.max ?_, h.deferred, h.acks, h.mark, fun seq base b' hin => ?_, h.bodies, h.inOrder⟩
    · rcases hin with hin | rfl
      · exact h.acks _ hin
      · exact h.deferred
    · obtain ⟨hpos, hle, hbody⟩ := h.frames seq base b' hin
      exact ⟨hpos, by change base ≤ max _ _ + 1; omega, hbody⟩
  | first hnone hin =>
    obtain ⟨hpos, hle, hbody⟩ := h.frames _ _ _ hin
    exact h.deliver hpos (h.acked.mono (by omega)) hbody
  | next hmark hin =>
    obtain ⟨_, _, hbody⟩ := h.frames _ _ _ hin
    exact h.deliver (Nat.succ_pos _) (h.mark _ hmark) hbody
  | forget => exact ⟨h.acked, h.deferred, h.acks, nofun, h.frames, h.bodies, h.inOrder⟩

/-- The receiver has never forgotten: it has delivered the first bodies, each once. -/
structure Exact (c : Flow B) : Prop where
  safe : c.Safe
  delivered : c.delivered.map Prod.fst = List.range' 1 c.delivered.length
  mark : c.mark = if c.delivered.length = 0 then none else some c.delivered.length

theorem Covers.le_of_exact (hexact : c.delivered.map Prod.fst = List.range' 1 c.delivered.length) (h : c.Covers n) :
    n ≤ c.delivered.length := by
  by_contra hlt
  obtain ⟨b, hb⟩ := h n (by omega) (Nat.le_refl _)
  have hmem := mem_map_of_mem (f := Prod.fst) hb
  rw [hexact, mem_range'_1] at hmem
  change 1 ≤ n ∧ n < 1 + c.delivered.length at hmem
  omega

theorem Exact.deliver {b : B} (h : c.Exact) (hsafe : Safe { c with
      mark := some (c.delivered.length + 1), delivered := c.delivered ++ [(c.delivered.length + 1, b)] }) :
    Exact { c with
      mark := some (c.delivered.length + 1), delivered := c.delivered ++ [(c.delivered.length + 1, b)] } := by
  refine ⟨hsafe, ?_, ?_⟩
  · change (c.delivered ++ _).map _ = List.range' 1 (c.delivered ++ _).length
    rw [map_append, h.delivered, length_append, length_singleton, range'_concat]
    simp [Nat.add_comm]
  · change _ = if (c.delivered ++ _).length = 0 then _ else some (c.delivered ++ _).length
    simp

theorem Exact.step (h : c.Exact) (hkeeps : e ≠ .forget) (hstep : Step c e c') : c'.Exact := by
  have hsafe := h.safe.step hstep
  cases hstep with
  | forget => exact absurd rfl hkeeps
  | @first seq b hnone hin =>
    have hzero : c.delivered.length = 0 := by
      by_contra hne
      rw [h.mark, if_neg hne] at hnone
      cases hnone
    obtain ⟨hpos, hle, _⟩ := h.safe.frames _ _ _ hin
    have hacked := h.safe.acked.le_of_exact h.delivered
    obtain rfl : seq = c.delivered.length + 1 := by omega
    exact h.deliver hsafe
  | next hmark hin =>
    have hmark' := h.mark
    rw [hmark] at hmark'
    split at hmark'
    · cases hmark'
    · cases hmark'
      exact h.deliver hsafe
  | stay => exact h
  | enqueue | send | emit | defer | apply => exact ⟨hsafe, h.delivered, h.mark⟩

theorem Exact.bodies_isPrefix (h : c.Exact) : c.delivered.map Prod.snd <+: c.sent := by
  refine prefix_iff_getElem?.mpr fun i hi => ?_
  rw [length_map] at hi
  have hfst : (c.delivered[i]).1 = i + 1 := by
    have hget := congrArg (fun l => l[i]?) h.delivered
    simp only [getElem?_map, getElem?_eq_getElem hi, Option.map_some, getElem?_range' hi] at hget
    have := Option.some.inj hget
    omega
  have hbody := (h.safe.bodies (i + 1) (c.delivered[i]).2 (by rw [← hfst]; exact getElem_mem hi)).2
  rw [getElem_map]
  simpa using hbody

/-- What a step must not do while the receiver can forget: take up a sender behind what it has dropped, or apply an
acknowledgement from before. -/
def Fresh (c : Flow B) : Event → Prop
  | .first seq => c.acked ≤ seq
  | .apply cum => ∀ w, c.mark = some w → cum ≤ w
  | .forget | .other => True

/-- The mark, if there is one, is not behind what the sender has dropped. -/
def Level (c : Flow B) : Prop := ∀ w, c.mark = some w → c.acked ≤ w

theorem Level.step (h : c.Level) (hfresh : c.Fresh e) (hstep : Step c e c') : c'.Level := by
  cases hstep with
  | first hnone hin =>
    intro w hw
    cases hw
    exact hfresh
  | next hmark hin =>
    intro w hw
    cases hw
    exact Nat.le_succ_of_le (h _ hmark)
  | apply hin => exact fun w hw => Nat.max_le.mpr ⟨h w hw, hfresh w hw⟩
  | forget =>
    intro w hw
    cases hw
  | stay | enqueue | send | emit | defer => exact h

end Flow

end GoBackN
