import Quark.RevocationRatchet

/-! What the success of a `revoke` says: whether the fingerprint was in the snapshot when the call last looked. -/
namespace Quark.Revocation

open RevocationRegistry
open Swim (Fingerprint)

def Call.succeeded : Call → Bool
  | .revoked (.ok ()) => true
  | _ => false

/-- The registry, and for each `revoke` whether its fingerprint was in the snapshot when the call last held
the lock, and whether its record had lapsed by then: expired by the latest prune and not revoked otherwise. -/
structure Watch where
  state : State
  looked : Nat → Bool := fun _ => false
  lapsed : Nat → Bool := fun _ => false

namespace Watch

def lapses (reg : RevocationRegistry) (rec_ : SignedRevocation) (now : UInt64) : Bool :=
  reg.limits.expired rec_ (max now reg.lastPrune) && decide (rec_.fingerprint ∉ reg.snapshot)

def step (w : Watch) (label : Label) : Option Watch :=
  (Revocation.step w.state label).map fun state =>
    match label with
    | .revoke i rec_ _ =>
      { state
        looked := Function.update w.looked i (decide (rec_.fingerprint ∈ state.reg.snapshot))
        lapsed := Function.update w.lapsed i false }
    | .apply i =>
      match w.state.calls i with
      | .revokeVerified c now =>
        { state
          looked := Function.update w.looked i (decide (c.rec_.fingerprint ∈ state.reg.snapshot))
          lapsed := Function.update w.lapsed i (lapses w.state.reg c.rec_ now) }
      | _ => { w with state }
    | _ => { w with state }

def Seen (c : Call) (looked lapsed : Bool) : Prop :=
  match c with
  | .revoke c _ _ => c.held.isSome = true → looked = true ∧ lapsed = false
  | .revoked (.ok ()) => looked = true ↔ lapsed = false
  | _ => True

structure Honest (w : Watch) : Prop where
  inv : Inv w.state
  seen : ∀ i, Seen (w.state.calls i) (w.looked i) (w.lapsed i)

section

variable {w w' : Watch} {s : State} {reg : RevocationRegistry} {rec_ : SignedRevocation}
  {c : Candidate} {now : UInt64}
variable {label : Label} {i : Nat} {call : Call} {looked lapsed : Bool}

theorem mem_snapshot (h : reg.Coherent) {copy : SignedRevocation} {fp : Fingerprint}
    (hcopy : reg.signed.lookup fp = some copy) : fp ∈ reg.snapshot := by
  rw [h.snapshot]
  exact mem_union.mpr (.inr (.inr (AList.lookup_isSome.mp (Option.isSome_of_eq_some hcopy))))

/-- The first section answers, or goes on with a copy that it saw held, or with none. -/
theorem seen_selected (h : reg.Coherent) :
    Seen (.selected reg now (reg.revokeSelect rec_ now)) (decide (rec_.fingerprint ∈ reg.snapshot)) false := by
  unfold revokeSelect
  split
  · trivial
  · split
    · trivial
    · split
      · next copy hcopy =>
        have hin := decide_eq_true (mem_snapshot h hcopy)
        split
        · exact iff_of_true hin rfl
        · exact fun _ => ⟨hin, rfl⟩
      · split
        · trivial
        · exact nofun

/-- The last section refuses, finds or puts the fingerprint into the snapshot, or leaves a record that has expired. -/
theorem revokeApply_cases (h : reg.Coherent) : (∃ e, (reg.revokeApply c now).1 = .error e) ∨
    ((reg.revokeApply c now).1 = .ok () ∧ c.rec_.fingerprint ∈ (reg.revokeApply c now).2.snapshot ∧
      reg.limits.expired c.rec_ (max now reg.lastPrune) = false) ∨
    (reg.revokeApply c now = (.ok (), reg) ∧ reg.limits.expired c.rec_ (max now reg.lastPrune) = true) := by
  unfold revokeApply apply
  cases hexpired : reg.limits.expired c.rec_ (max now reg.lastPrune) with
  | true => exact .inr (.inr ⟨rfl, rfl⟩)
  | false =>
    rw [if_neg Bool.false_ne_true]
    cases hcopy : reg.signed.lookup c.rec_.fingerprint with
    | some copy =>
      have hin := mem_snapshot h hcopy
      dsimp only
      by_cases hheld : c.held = some copy.anchorKeyId
      · rw [if_pos hheld]
        exact .inr (.inl ⟨rfl, hin, rfl⟩)
      · rw [if_neg hheld]
        exact .inr (.inl ⟨rfl, hin, rfl⟩)
    | none =>
      dsimp only
      by_cases hfull : reg.limits.maxSigned ≤ reg.signed.size
      · rw [if_pos hfull]
        exact .inl ⟨_, rfl⟩
      · rw [if_neg hfull]
        refine .inr (.inl ⟨rfl, mem_union.mpr (.inr (.inr ?_)), rfl⟩)
        exact (AList.mem_insert _).mpr (.inl rfl)

/-- A success of the last section: the record has lapsed, or its fingerprint is revoked. -/
theorem seen_applied (h : reg.Coherent) :
    Seen (.revoked (reg.revokeApply c now).1) (decide (c.rec_.fingerprint ∈ (reg.revokeApply c now).2.snapshot))
      (lapses reg c.rec_ now) := by
  rcases @revokeApply_cases reg c now h with ⟨e, hrefused⟩ | ⟨hok, hin, hlasts⟩ | ⟨hkept, hexpired⟩
  · rw [hrefused]
    trivial
  · rw [hok, lapses, hlasts]
    exact iff_of_true (decide_eq_true hin) rfl
  · rw [hkept, lapses, hexpired]
    change decide _ = true ↔ (true && decide _) = false
    simp

/-- Outside the lock a call returns success only for a copy that it saw held. -/
theorem seen_verified {v : TrustAnchorVerifier} {call' : Call} (h : Seen call looked lapsed)
    (hverify : call.verify v = some call') : Seen call' looked lapsed := by
  cases call with
  | revoke c cluster now =>
    rw [Call.verify] at hverify
    split at hverify
    · next hunwanted =>
      cases hverify
      have hheld : c.held.isSome = true := by
        cases hc : c.held with
        | none => simp [Candidate.wanted, hc] at hunwanted
        | some held => rfl
      obtain ⟨hlooked, hlapsed⟩ := h hheld
      exact iff_of_true hlooked hlapsed
    · split at hverify <;> cases hverify <;> trivial
  | merge todo verified bad refund cluster now =>
    cases todo with
    | nil => cases hverify
    | cons c todo =>
      rw [Call.verify] at hverify
      split at hverify
      · cases hverify
        trivial
      · split at hverify <;> cases hverify <;> trivial
  | idle | revokeVerified _ _ | revokeBad | revoked _ | merged _ => cases hverify

theorem seen_update {calls : Nat → Call} {f g : Nat → Bool} (h : ∀ j, Seen (calls j) (f j) (g j))
    (hi : Seen call looked lapsed) (j : Nat) :
    Seen (Function.update calls i call j) (Function.update f i looked j) (Function.update g i lapsed j) := by
  by_cases hj : j = i
  · rw [hj, Function.update_self, Function.update_self, Function.update_self]
    exact hi
  · rw [Function.update_of_ne hj, Function.update_of_ne hj, Function.update_of_ne hj]
    exact h j

theorem seen_setCall {calls : Nat → Call} {f g : Nat → Bool} (h : ∀ j, Seen (calls j) (f j) (g j))
    (hi : Seen call (f i) (g i)) (j : Nat) : Seen (Function.update calls i call j) (f j) (g j) := by
  have hupdated := @seen_update i call (f i) (g i) calls f g h hi j
  rwa [Function.update_eq_self, Function.update_eq_self] at hupdated

theorem Honest.step (h : Honest w) (hstep : w.step label = some w') : Honest w' := by
  obtain ⟨s', hs', rfl⟩ := Option.map_eq_some_iff.mp hstep
  have hinv := (step_keeps h.inv hs').1
  cases label with
  | protect fp | setAuthorityOnly on | merge incoming | revokeLocally fp | enableSigned verifier cluster limits
  | pruneExpired now =>
    cases hs'
    exact ⟨hinv, h.seen⟩
  | sampleSigned max =>
    obtain ⟨r, -, rfl⟩ := Option.map_eq_some_iff.mp hs'
    exact ⟨hinv, h.seen⟩
  | revoke i rec_ now =>
    rw [Revocation.step] at hs'
    split at hs'
    · cases hs'
      exact ⟨hinv, seen_update h.seen (seen_selected h.inv.coherent)⟩
    · cases hs'
  | mergeSigned i blobs now =>
    rw [Revocation.step] at hs'
    split at hs'
    · split at hs'
      · cases hs'
        exact ⟨hinv, seen_setCall h.seen trivial⟩
      · split at hs' <;> cases hs' <;> exact ⟨hinv, seen_setCall h.seen trivial⟩
    · cases hs'
  | verify i v =>
    obtain ⟨call', hverify, rfl⟩ := Option.map_eq_some_iff.mp hs'
    exact ⟨hinv, seen_setCall h.seen (seen_verified (h.seen i) hverify)⟩
  | apply i =>
    obtain ⟨⟨call', reg'⟩, happly, rfl⟩ := Option.map_eq_some_iff.mp hs'
    cases hcall : w.state.calls i with
    | revokeVerified c now =>
      rw [hcall] at happly
      cases happly
      simp only [hcall]
      exact ⟨hinv, seen_update h.seen (seen_applied h.inv.coherent)⟩
    | revokeBad =>
      rw [hcall] at happly
      cases happly
      simp only [hcall]
      exact ⟨hinv, seen_setCall h.seen trivial⟩
    | merge todo verified bad refund cluster now =>
      rw [hcall] at happly
      cases todo with
      | nil =>
        cases happly
        simp only [hcall]
        exact ⟨hinv, seen_setCall h.seen trivial⟩
      | cons c todo => cases happly
    | idle | revoke _ _ _ | revoked _ | merged _ =>
      rw [hcall] at happly
      cases happly

end

/-- In every run a `revoke` that returned success saw its fingerprint in the snapshot when it last looked,
exactly where its record had not lapsed. -/
theorem success_iff {maxEntries : Nat} {w : Watch}
    (hreach : Machine.Reachable step { state := .initial maxEntries } w) {i : Nat}
    (hsuccess : (w.state.calls i).succeeded = true) : w.looked i = true ↔ w.lapsed i = false := by
  have h : Honest w := hreach.invariant ⟨inv_initial maxEntries,
    fun _ => trivial⟩ fun w label w' h hstep => h.step hstep
  have hseen := h.seen i
  cases hcall : w.state.calls i with
  | revoked r =>
    rw [hcall] at hseen hsuccess
    cases r with
    | ok => exact hseen
    | error e => cases hsuccess
  | idle | revoke _ _ _ | revokeVerified _ _ | revokeBad | merge _ _ _ _ _ _ | merged _ =>
    rw [hcall] at hsuccess
    cases hsuccess

def applied (prune : UInt64) : List Label :=
  [.enableSigned true 7 {}, .pruneExpired prune, .revoke 0 (leaf 1 1500) 1000, .verify 0 trusting, .apply 0]

theorem success_iff_applied : ∃ w, Machine.run step { state := .initial 4 } (applied 1600) = some w ∧
    (w.state.calls 0).succeeded = true ∧ w.looked 0 = true ∧ (w.looked 0 = true ↔ w.lapsed 0 = false) := by
  obtain ⟨w, hw, hfacts⟩ := Option.map_eq_some_iff.mp
      (show (Machine.run step { state := .initial 4 } (applied 1600)).map
    (fun w => ((w.state.calls 0).succeeded, w.looked 0)) = some (true, true) by decide +kernel)
  obtain ⟨hsuccess, hlooked⟩ := Prod.mk.inj hfacts
  exact ⟨w, hw, hsuccess, hlooked, success_iff (Machine.reachable_of_run hw) hsuccess⟩

/-- A prune by a later clock had passed the record's end: the call succeeds, and its fingerprint was never in
the snapshot. -/
theorem success_without_effect : ∃ w, Machine.run step { state := .initial 4 } (applied 2000) = some w ∧
    (w.state.calls 0).succeeded = true ∧ w.looked 0 = false ∧ fingerprint 1 ∉ w.state.reg.snapshot := by
  obtain ⟨w, hw, hfacts⟩ := Option.map_eq_some_iff.mp
      (show (Machine.run step { state := .initial 4 } (applied 2000)).map
    (fun w => ((w.state.calls 0).succeeded, w.looked 0, decide (fingerprint 1 ∈ w.state.reg.snapshot))) =
      some (true, false, false) by decide +kernel)
  obtain ⟨hsuccess, hrest⟩ := Prod.mk.inj hfacts
  obtain ⟨hlooked, hout⟩ := Prod.mk.inj hrest
  exact ⟨w, hw, hsuccess, hlooked, of_decide_eq_false hout⟩

end Watch

end Quark.Revocation
