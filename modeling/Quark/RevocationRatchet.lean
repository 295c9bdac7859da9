import Mathlib.Data.List.Nodup
import Quark.RevocationRegistry

/-! What holds of the registry between locked sections: the snapshot is the union, the order lists the signed records,
what had expired stays away, and sampling comes round to every record. -/
namespace Quark.Revocation

open Machine
open Swim (Fingerprint)

theorem SignedRevocationLimits.expired_mono {limits : SignedRevocationLimits} {rec_ : SignedRevocation}
    {now later : UInt64}
    (hle : now ≤ later) (h : limits.expired rec_ now = true) : limits.expired rec_ later = true := by
  simp only [expired, Bool.and_eq_true, decide_eq_true_eq] at h ⊢
  obtain ⟨hnot, hskew⟩ := h
  have hnot' : rec_.notAfter ≤ later := UInt64.le_trans hnot hle
  refine ⟨hnot', ?_⟩
  rw [UInt64.lt_iff_toNat_lt, UInt64.toNat_sub_of_le _ _ hnot] at hskew
  rw [UInt64.lt_iff_toNat_lt, UInt64.toNat_sub_of_le _ _ hnot']
  rw [UInt64.le_iff_toNat_le] at hle
  omega

theorem le_max_right (a b : UInt64) : b ≤ max a b := by
  change b ≤ if a ≤ b then b else a
  split
  · exact UInt64.le_refl b
  · exact UInt64.le_of_lt (UInt64.not_le.mp ‹_›)

theorem le_max_left (a b : UInt64) : a ≤ max a b := by
  change a ≤ if a ≤ b then b else a
  split
  · exact ‹_›
  · exact UInt64.le_refl a

namespace RevocationRegistry

variable {reg reg' : RevocationRegistry} {acc : Bool × RevocationRegistry} {c : Candidate} {now : UInt64}
variable {fp : Fingerprint} {rec_ : SignedRevocation}

/-- What holds of the signed set throughout. -/
structure Held (reg : RevocationRegistry) : Prop where
  nodup : reg.order.Nodup
  listed : ∀ fp, fp ∈ reg.order ↔ fp ∈ reg.signed
  cap : reg.signed.size ≤ reg.limits.maxSigned
  unexpired : ∀ fp rec_, reg.signed.lookup fp = some rec_ → reg.limits.expired rec_ reg.lastPrune = false
  unsigned : reg.verifier = false → reg.signed = ∅

/-- What holds between locked sections. -/
structure Coherent (reg : RevocationRegistry) : Prop extends Held reg where
  snapshot : reg.snapshot = reg.local_ ∪ reg.gossiped ∪ reg.signed.keys.toFinset

/-- A step that takes nothing out of the snapshot. -/
structure Grows (reg reg' : RevocationRegistry) : Prop where
  snapshot : reg.snapshot ⊆ reg'.snapshot
  order : reg.order <+: reg'.order
  limits : reg'.limits = reg.limits
  verifier : reg'.verifier = reg.verifier
  lastPrune : reg'.lastPrune = reg.lastPrune
  cursor : reg'.sampleCursor = reg.sampleCursor

/-- How far a locked section has come before it publishes; the flag is its `changed`. -/
structure Underway (reg : RevocationRegistry) (acc : Bool × RevocationRegistry) : Prop where
  held : Held acc.2
  snapshot : acc.2.snapshot = reg.snapshot
  order : reg.order <+: acc.2.order
  limits : acc.2.limits = reg.limits
  verifier : acc.2.verifier = reg.verifier
  lastPrune : acc.2.lastPrune = reg.lastPrune
  cursor : acc.2.sampleCursor = reg.sampleCursor
  grows : reg.union ⊆ acc.2.union
  same : acc.1 = false → acc.2.union = reg.union

theorem mem_union : fp ∈ reg.union ↔ fp ∈ reg.local_ ∨ fp ∈ reg.gossiped ∨ fp ∈ reg.signed := by
  rw [union, Finset.mem_union, Finset.mem_union, List.mem_toFinset, or_assoc]
  rfl

theorem Underway.publish (hreg : Coherent reg) (h : Underway reg acc) :
    Coherent (if acc.1 then acc.2.republish else acc.2) ∧ Grows reg (if acc.1 then acc.2.republish else acc.2) := by
  have hsnapshot : reg.snapshot = reg.union := hreg.snapshot
  cases hchanged : acc.1 with
  | true =>
    refine ⟨⟨⟨h.held.nodup, h.held.listed, h.held.cap, h.held.unexpired, h.held.unsigned⟩, rfl⟩, ?_, h.order,
      h.limits, h.verifier, h.lastPrune, h.cursor⟩
    rw [hsnapshot]
    exact h.grows
  | false =>
    refine ⟨⟨h.held, ?_⟩, ?_, h.order, h.limits, h.verifier, h.lastPrune, h.cursor⟩
    · change acc.2.snapshot = acc.2.union
      rw [h.snapshot, hsnapshot, h.same hchanged]
    · exact (Finset.subset_of_eq h.snapshot.symm)

/-- A step that touches neither a set nor a limit. -/
structure Same (reg reg' : RevocationRegistry) : Prop where
  local_ : reg'.local_ = reg.local_
  gossiped : reg'.gossiped = reg.gossiped
  signed : reg'.signed = reg.signed
  order : reg'.order = reg.order
  limits : reg'.limits = reg.limits
  lastPrune : reg'.lastPrune = reg.lastPrune
  verifier : reg'.verifier = reg.verifier
  snapshot : reg'.snapshot = reg.snapshot
  cursor : reg'.sampleCursor = reg.sampleCursor

theorem Same.refl (reg : RevocationRegistry) : Same reg reg := ⟨rfl, rfl, rfl, rfl, rfl, rfl, rfl, rfl, rfl⟩

theorem Same.trans {reg'' : RevocationRegistry} (h : Same reg reg') (h' : Same reg' reg'') : Same reg reg'' :=
  ⟨h'.local_.trans h.local_, h'.gossiped.trans h.gossiped, h'.signed.trans h.signed, h'.order.trans h.order,
    h'.limits.trans h.limits, h'.lastPrune.trans h.lastPrune, h'.verifier.trans h.verifier,
    h'.snapshot.trans h.snapshot, h'.cursor.trans h.cursor⟩

theorem Same.held (h : Same reg reg') (hheld : Held reg) : Held reg' := by
  refine ⟨?_, ?_, ?_, ?_, ?_⟩
  · rw [h.order]
    exact hheld.nodup
  · rw [h.order, h.signed]
    exact hheld.listed
  · rw [h.signed, h.limits]
    exact hheld.cap
  · rw [h.signed, h.limits, h.lastPrune]
    exact hheld.unexpired
  · rw [h.signed, h.verifier]
    exact hheld.unsigned

theorem Same.keeps (h : Same reg reg') (hreg : Coherent reg) : Coherent reg' ∧ Grows reg reg' := by
  refine ⟨⟨h.held hreg.toHeld, ?_⟩, Finset.subset_of_eq h.snapshot.symm, h.order ▸ List.prefix_refl _, h.limits,
    h.verifier, h.lastPrune, h.cursor⟩
  rw [h.snapshot, h.local_, h.gossiped, h.signed]
  exact hreg.snapshot

theorem Same.underway (h : Same reg reg') (hheld : Held reg) : Underway reg (false, reg') := by
  have hunion : reg'.union = reg.union := by
    rw [union, union, h.local_, h.gossiped, h.signed]
  exact ⟨h.held hheld, h.snapshot, h.order ▸ List.prefix_refl _, h.limits, h.verifier, h.lastPrune, h.cursor,
    Finset.subset_of_eq hunion.symm, fun _ => hunion⟩

section

theorem size_eq_length_keys (t : Table Fingerprint SignedRevocation) : t.size = t.keys.length :=
  (List.length_map _).symm

theorem size_insert_of_mem (h : fp ∈ reg.signed) : Table.size (reg.signed.insert fp rec_) = reg.signed.size := by
  have hkeys : fp ∈ reg.signed.keys := AList.mem_keys.mp h
  rw [size_eq_length_keys, size_eq_length_keys, AList.keys_insert, List.length_cons,
    @List.length_erase_of_mem _ instBEqOfDecidableEq _ _ _ hkeys]
  exact Nat.sub_add_cancel (List.length_pos_of_mem hkeys)

theorem lookup_insert_cases {copy : SignedRevocation} {fp' : Fingerprint}
    (h : (reg.signed.insert fp rec_).lookup fp' = some copy) : copy = rec_ ∨ reg.signed.lookup fp' = some copy := by
  by_cases heq : fp' = fp
  · subst heq
    rw [AList.lookup_insert] at h
    exact .inl (Option.some.inj h).symm
  · rw [AList.lookup_insert_ne heq] at h
    exact .inr h

theorem apply_cases (reg : RevocationRegistry) (c : Candidate) (now : UInt64) :
    (∃ result, result ≠ .changed ∧ reg.apply c now = (result, reg)) ∨
      (c.rec_.fingerprint ∈ reg.signed ∧ reg.limits.expired c.rec_ (max now reg.lastPrune) = false ∧
        reg.apply c now = (.unchanged, { reg with signed := reg.signed.insert c.rec_.fingerprint c.rec_ })) ∨
      (c.rec_.fingerprint ∉ reg.signed ∧ reg.limits.expired c.rec_ (max now reg.lastPrune) = false ∧
        reg.signed.size < reg.limits.maxSigned ∧ reg.apply c now = (.changed, { reg with
          signed := reg.signed.insert c.rec_.fingerprint c.rec_, order := reg.order ++ [c.rec_.fingerprint] })) := by
  unfold apply
  split
  · exact .inl ⟨_, by simp, rfl⟩
  · next hexpired =>
    rw [Bool.not_eq_true] at hexpired
    split
    · next copy hcopy =>
      split
      · exact .inr (.inl ⟨AList.lookup_isSome.mp (by rw [hcopy]; rfl), hexpired, rfl⟩)
      · exact .inl ⟨_, by simp, rfl⟩
    · next hnone =>
      split
      · exact .inl ⟨_, by simp, rfl⟩
      · next hroom => exact .inr (.inr ⟨AList.lookup_eq_none.mp hnone, hexpired, Nat.not_le.mp hroom, rfl⟩)

theorem unexpired_of_max (h : reg.limits.expired rec_ (max now reg.lastPrune) = false) :
    reg.limits.expired rec_ reg.lastPrune = false := by
  by_contra hexpired
  rw [Bool.not_eq_false] at hexpired
  rw [SignedRevocationLimits.expired_mono (le_max_right now reg.lastPrune) hexpired] at h
  cases h

theorem Underway.apply (h : Underway reg acc) (hverifier : reg.verifier = true) (c : Candidate) (now : UInt64) :
    Underway reg (acc.1 || (acc.2.apply c now).1 = .changed, (acc.2.apply c now).2) := by
  have hunexpired : ∀ {fp copy}, acc.2.limits.expired c.rec_ (max now acc.2.lastPrune) = false →
      (acc.2.signed.insert c.rec_.fingerprint c.rec_).lookup fp = some copy →
      acc.2.limits.expired copy acc.2.lastPrune = false := by
    intro fp copy hexpired hcopy
    rcases lookup_insert_cases hcopy with rfl | hcopy
    · exact unexpired_of_max hexpired
    · exact h.held.unexpired _ _ hcopy
  have hsome : acc.2.verifier ≠ false := by
    rw [h.verifier, hverifier]
    exact Bool.noConfusion
  rcases acc.2.apply_cases c now with ⟨result, hresult, heq⟩ | ⟨hmem, hexpired, heq⟩ | ⟨hnew, hexpired, hroom, heq⟩
  · rw [heq, decide_eq_false hresult, Bool.or_false]
    exact h
  · have hmemInsert : ∀ fp, fp ∈ acc.2.signed.insert c.rec_.fingerprint c.rec_ ↔ fp ∈ acc.2.signed := by
      intro fp
      rw [AList.mem_insert]
      exact ⟨fun hor => hor.elim (fun heq => heq ▸ hmem) id, .inr⟩
    have hunion : { acc.2 with signed := acc.2.signed.insert c.rec_.fingerprint c.rec_ }.union = acc.2.union := by
      ext fp
      rw [mem_union, mem_union, hmemInsert]
    rw [heq, decide_eq_false (by simp), Bool.or_false]
    refine ⟨⟨h.held.nodup, fun fp => ?_, ?_, fun fp copy => hunexpired hexpired, fun hnone => absurd hnone hsome⟩,
      h.snapshot, h.order, h.limits, h.verifier, h.lastPrune, h.cursor, ?_, fun hsame => ?_⟩
    · rw [hmemInsert]
      exact h.held.listed fp
    · rw [size_insert_of_mem hmem]
      exact h.held.cap
    · rw [hunion]
      exact h.grows
    · rw [hunion]
      exact h.same hsame
  · rw [heq, decide_eq_true rfl, Bool.or_true]
    refine ⟨⟨?_, fun fp => ?_, ?_, fun fp copy => hunexpired hexpired, fun hnone => absurd hnone hsome⟩,
      h.snapshot, h.order.trans (List.prefix_append _ _), h.limits, h.verifier, h.lastPrune, h.cursor,
      fun fp hfp => ?_, nofun⟩
    · rw [← h.held.listed] at hnew
      exact List.nodup_append.mpr ⟨h.held.nodup, List.nodup_singleton _, fun a ha b hb heq =>
        hnew (List.mem_singleton.mp hb ▸ heq ▸ ha)⟩
    · rw [AList.mem_insert, List.mem_append, List.mem_singleton, h.held.listed, or_comm]
    · exact (Table.size_insert_le _ _ _).trans hroom
    · have hold := mem_union.mp (h.grows hfp)
      rw [mem_union, AList.mem_insert]
      exact hold.imp_right (.imp_right .inr)

theorem Underway.count (h : Underway reg acc) (n : UInt64) : Underway reg
    (acc.1, { acc.2 with signedCapRefused := n }) :=
  ⟨⟨h.held.nodup, h.held.listed, h.held.cap, h.held.unexpired, h.held.unsigned⟩, h.snapshot, h.order, h.limits,
    h.verifier, h.lastPrune, h.cursor, h.grows, h.same⟩

theorem Underway.applyVerified (h : Underway reg acc) (hverifier : reg.verifier = true) (c : Candidate)
    (now : UInt64) : Underway reg (RevocationRegistry.applyVerified now acc c) := by
  have happly := h.apply hverifier c now
  unfold RevocationRegistry.applyVerified
  rcases hresult : acc.2.apply c now with ⟨result, reg'⟩
  rw [hresult] at happly
  cases result with
  | changed =>
    rw [decide_eq_true rfl, Bool.or_true] at happly
    exact happly
  | unchanged =>
    rw [decide_eq_false (by simp), Bool.or_false] at happly
    exact happly
  | capFull =>
    rw [decide_eq_false (by simp), Bool.or_false] at happly
    exact happly.count _

theorem Underway.mergeOne (h : Underway reg acc) (fp : Fingerprint) : Underway reg
    (RevocationRegistry.mergeOne acc fp) := by
  unfold RevocationRegistry.mergeOne
  split
  · exact h
  · split
    · exact ⟨⟨h.held.nodup, h.held.listed, h.held.cap, h.held.unexpired, h.held.unsigned⟩, h.snapshot, h.order,
        h.limits, h.verifier, h.lastPrune, h.cursor, h.grows, h.same⟩
    · refine ⟨⟨h.held.nodup, h.held.listed, h.held.cap, h.held.unexpired, h.held.unsigned⟩, h.snapshot, h.order,
        h.limits, h.verifier, h.lastPrune, h.cursor, fun fp' hfp => ?_, nofun⟩
      have hold := mem_union.mp (h.grows hfp)
      rw [mem_union, Finset.mem_insert]
      exact hold.imp_right (.imp_left .inr)

theorem Underway.foldl {A : Type} {f : Bool × RevocationRegistry → A → Bool × RevocationRegistry}
    (hf : ∀ acc a, Underway reg acc → Underway reg (f acc a)) (h : Underway reg acc) (as : List A) :
    Underway reg (as.foldl f acc) := by
  induction as generalizing acc with
  | nil => exact h
  | cons a as ih => exact ih (hf acc a h)

end

section

/-! The operations that take nothing out of the snapshot. -/

theorem Coherent.merge (h : Coherent reg) (incoming : List Fingerprint) :
    Coherent (reg.merge incoming).2 ∧ Grows reg (reg.merge incoming).2 := by
  unfold RevocationRegistry.merge
  split
  · exact (Same.refl reg).keeps h
  · split
    · exact Same.keeps ⟨rfl, rfl, rfl, rfl, rfl, rfl, rfl, rfl, rfl⟩ h
    · split
      · exact Same.keeps ⟨rfl, rfl, rfl, rfl, rfl, rfl, rfl, rfl, rfl⟩ h
      · have hloop := ((Same.refl reg).underway h.toHeld).foldl (fun acc fp hacc => hacc.mergeOne fp) incoming
        have hpublish := hloop.publish h
        dsimp only
        split
        · next hchanged =>
          rw [hchanged] at hpublish
          exact hpublish
        · next hchanged =>
          rw [Bool.eq_false_of_not_eq_true hchanged] at hpublish
          exact hpublish

theorem Coherent.revokeLocally (h : Coherent reg) (fp : Fingerprint) :
    Coherent (reg.revokeLocally fp) ∧ Grows reg (reg.revokeLocally fp) := by
  unfold RevocationRegistry.revokeLocally
  split
  · exact (Same.refl reg).keeps h
  · refine ⟨⟨⟨h.nodup, h.listed, h.cap, h.unexpired, h.unsigned⟩, rfl⟩,
      fun fp' hfp => ?_, List.prefix_refl _, rfl, rfl, rfl, rfl⟩
    have hold : fp' ∈ reg.union := by
      rw [h.snapshot] at hfp
      exact hfp
    rw [mem_union] at hold
    exact mem_union.mpr (hold.imp_left (Finset.mem_insert_of_mem))

theorem same_refill (reg : RevocationRegistry) (now : UInt64) : Same reg (reg.refill now) := by
  unfold refill
  split
  · exact ⟨rfl, rfl, rfl, rfl, rfl, rfl, rfl, rfl, rfl⟩
  · dsimp only
    split <;> exact ⟨rfl, rfl, rfl, rfl, rfl, rfl, rfl, rfl, rfl⟩

theorem same_selectHeld (sel : Selection) (rec_ : SignedRevocation) (held : Option AnchorKeyId) :
    Same sel.reg (selectHeld sel rec_ held).reg := by
  unfold selectHeld
  split <;> exact ⟨rfl, rfl, rfl, rfl, rfl, rfl, rfl, rfl, rfl⟩

theorem same_selectBlob (now : UInt64) (sel : Selection) (blob : List UInt8) :
    Same sel.reg (selectBlob now sel blob).reg := by
  unfold selectBlob
  dsimp only
  split
  · exact ⟨rfl, rfl, rfl, rfl, rfl, rfl, rfl, rfl, rfl⟩
  · split
    · exact ⟨rfl, rfl, rfl, rfl, rfl, rfl, rfl, rfl, rfl⟩
    · unfold selectRecord
      split
      · exact Same.refl _
      · dsimp only
        split
        · exact ⟨rfl, rfl, rfl, rfl, rfl, rfl, rfl, rfl, rfl⟩
        · split
          · split
            · exact Same.refl _
            · exact same_selectHeld { sel with seen := _ :: sel.seen } _ _
          · split
            · exact ⟨rfl, rfl, rfl, rfl, rfl, rfl, rfl, rfl, rfl⟩
            · exact same_selectHeld { sel with seen := _ :: sel.seen } _ _

theorem same_mergeSelect (reg : RevocationRegistry) (blobs : List (List UInt8)) (now : UInt64) :
    Same reg (reg.mergeSelect blobs now).2 := by
  have hloop : ∀ sel : Selection, Same reg sel.reg → Same reg (blobs.foldl (selectBlob now) sel).reg := by
    induction blobs with
    | nil => exact fun sel hsel => hsel
    | cons blob blobs ih => exact fun sel hsel => ih _ (hsel.trans (same_selectBlob now sel blob))
  unfold mergeSelect
  split
  · exact Same.refl reg
  · exact hloop _ (same_refill reg now)

theorem Coherent.mergeApply (h : Coherent reg) (hverifier : reg.verifier = true) (verified : List Candidate)
    (bad : UInt64) (refund : UInt32) (now : UInt64) :
    Coherent (reg.mergeApply verified bad refund now).2 ∧ Grows reg (reg.mergeApply verified bad refund now).2 := by
  unfold RevocationRegistry.mergeApply
  have hsame : Same reg { reg with
      signedRejected := reg.signedRejected + bad
      tokens := (min reg.limits.verifyBurst.toUInt64 (reg.tokens.toUInt64 + refund.toUInt64)).toUInt32 } :=
    ⟨rfl, rfl, rfl, rfl, rfl, rfl, rfl, rfl, rfl⟩
  have hloop := (hsame.underway h.toHeld).foldl (fun acc c hacc => hacc.applyVerified hverifier c now) verified
  have hpublish := hloop.publish h
  dsimp only
  split
  · next hchanged =>
    rw [hchanged] at hpublish
    exact hpublish
  · next hchanged =>
    rw [Bool.eq_false_of_not_eq_true hchanged] at hpublish
    exact hpublish

theorem Coherent.revokeApply (h : Coherent reg) (hverifier : reg.verifier = true) (c : Candidate) (now : UInt64) :
    Coherent (reg.revokeApply c now).2 ∧ Grows reg (reg.revokeApply c now).2 := by
  have hpublish := (((Same.refl reg).underway h.toHeld).apply hverifier c now).publish h
  unfold RevocationRegistry.revokeApply
  dsimp only at hpublish
  rcases hresult : reg.apply c now with ⟨result, reg'⟩
  rw [hresult] at hpublish
  cases result with
  | changed => exact hpublish
  | unchanged => exact hpublish
  | capFull => exact hpublish

end

section

/-! The two operations that remove. -/

theorem Coherent.enableSigned (h : Coherent reg) (verifier : Bool) (cluster : UInt64)
    (limits : SignedRevocationLimits) : Coherent (reg.enableSigned verifier cluster limits).2 ∧
      (reg.enableSigned verifier cluster limits).2.lastPrune = reg.lastPrune ∧
      (reg.enableSigned verifier cluster limits).2.order = reg.order ∧
      (reg.enableSigned verifier cluster limits).2.sampleCursor = reg.sampleCursor ∧
      (reg.verifier = true → (reg.enableSigned verifier cluster limits).2 = reg) := by
  unfold RevocationRegistry.enableSigned
  split
  · exact ⟨h, rfl, rfl, rfl, fun _ => rfl⟩
  · split
    · exact ⟨h, rfl, rfl, rfl, fun _ => rfl⟩
    · split
      · exact ⟨h, rfl, rfl, rfl, fun _ => rfl⟩
      · next hverifier =>
        have hempty := h.unsigned (Bool.eq_false_of_not_eq_true hverifier)
        refine ⟨⟨⟨h.nodup, h.listed, ?_, fun fp rec_ hlookup => ?_, nofun⟩, rfl⟩, rfl, rfl,
          rfl, fun hsome => absurd hsome hverifier⟩
        · change reg.signed.size ≤ _
          rw [hempty]
          exact Nat.zero_le _
        · change reg.signed.lookup fp = some rec_ at hlookup
          rw [hempty, AList.lookup_empty] at hlookup
          cases hlookup

theorem eraseIf_eq_self {p : Fingerprint → SignedRevocation → Bool} {t : Table Fingerprint SignedRevocation}
    (h : t.size - (t.eraseIf p).size = 0) : t.eraseIf p = t := by
  refine AList.ext ?_
  change t.entries.filter _ = t.entries
  refine List.filter_sublist.eq_of_length_le ?_
  exact Nat.sub_eq_zero_iff_le.mp h

theorem expired_max (limits : SignedRevocationLimits) (rec_ : SignedRevocation) {a b : UInt64}
    (ha : limits.expired rec_ a = false) (hb : limits.expired rec_ b = false) : limits.expired rec_
    (max a b) = false := by
  change limits.expired rec_ (if a ≤ b then b else a) = false
  split
  · exact hb
  · exact ha

theorem mem_eraseIf {p : Fingerprint → SignedRevocation → Bool} :
    fp ∈ reg.signed.eraseIf p ↔ ∃ rec_, reg.signed.lookup fp = some rec_ ∧ p fp rec_ = false := by
  rw [← AList.lookup_isSome, Table.lookup_eraseIf, Option.isSome_iff_exists]
  refine exists_congr fun rec_ => ?_
  rw [Option.filter_eq_some_iff, Bool.not_eq_true']

theorem Coherent.pruneExpired (h : Coherent reg) (now : UInt64) :
    Coherent (reg.pruneExpired now).2 ∧ (reg.pruneExpired now).2.lastPrune = max reg.lastPrune now ∧
      (reg.pruneExpired now).2.limits = reg.limits ∧ (reg.pruneExpired now).2.verifier = reg.verifier ∧
      (reg.pruneExpired now).2.order.Sublist reg.order ∧
      (reg.pruneExpired now).2.sampleCursor = reg.sampleCursor := by
  have hunexpired : ∀ fp rec_, (reg.signed.eraseIf fun _ rec_ => reg.limits.expired rec_ now).lookup fp = some rec_ →
      reg.limits.expired rec_ (max reg.lastPrune now) = false := by
    intro fp rec_ hlookup
    rw [Table.lookup_eraseIf, Option.filter_eq_some_iff, Bool.not_eq_true'] at hlookup
    exact expired_max _ _ (h.unexpired fp rec_ hlookup.1) hlookup.2
  have hcap : (reg.signed.eraseIf fun _ rec_ => reg.limits.expired rec_ now).size ≤ reg.limits.maxSigned :=
    (List.filter_sublist.length_le).trans h.cap
  have hunsigned : reg.verifier = false → (reg.signed.eraseIf fun _ rec_ => reg.limits.expired rec_ now) = ∅ := by
    intro hverifier
    rw [h.unsigned hverifier]
    rfl
  unfold RevocationRegistry.pruneExpired
  dsimp only
  split
  · refine ⟨⟨⟨h.nodup.filter _, fun fp => ?_, hcap, hunexpired, hunsigned⟩, rfl⟩, rfl, rfl, rfl,
      List.filter_sublist, rfl⟩
    change fp ∈ reg.order.filter _ ↔ _
    rw [List.mem_filter, AList.lookup_isSome, h.listed]
    refine and_iff_right_of_imp fun hmem => ?_
    obtain ⟨rec_, hlookup, -⟩ := mem_eraseIf.mp hmem
    exact AList.lookup_isSome.mp (by rw [hlookup]; rfl)
  · next hpruned =>
    have hsame := eraseIf_eq_self (not_not.mp hpruned)
    refine ⟨⟨⟨h.nodup, fun fp => ?_, hcap, hunexpired, hunsigned⟩, ?_⟩, rfl, rfl, rfl,
      List.Sublist.refl _, rfl⟩
    · change fp ∈ reg.order ↔ fp ∈ reg.signed.eraseIf _
      rw [hsame]
      exact h.listed fp
    · change reg.snapshot = reg.local_ ∪ reg.gossiped ∪ (reg.signed.eraseIf _).keys.toFinset
      rw [hsame]
      exact h.snapshot

end

section

/-! Sampling. -/

def slot (reg : RevocationRegistry) (i : Nat) : Option (List UInt8) :=
  (reg.order[i % reg.order.length]?.bind reg.signed.lookup).map encodeSignedRevocation

theorem Held.slot_isSome (h : Held reg) (hpos : 0 < reg.order.length) (i : Nat) : ∃ bs, reg.slot i = some bs := by
  have hlt := Nat.mod_lt i hpos
  have hmem : reg.order[i % reg.order.length] ∈ reg.signed := (h.listed _).mp (List.getElem_mem hlt)
  obtain ⟨rec_, hrec⟩ := Option.isSome_iff_exists.mp (AList.lookup_isSome.mpr hmem)
  refine ⟨encodeSignedRevocation rec_, ?_⟩
  rw [slot, List.getElem?_eq_getElem hlt, Option.bind_some, hrec, Option.map_some]

theorem Held.sampleSigned (h : Held reg) (max : Nat) :
    ∃ out cursor, reg.sampleSigned max = some (out, { reg with sampleCursor := cursor }) ∧
      cursor % reg.order.length = (reg.sampleCursor + min max reg.order.length) % reg.order.length ∧
      ∀ i < min max reg.order.length, ∃ bs ∈ out, reg.slot (reg.sampleCursor + i) = some bs := by
  unfold RevocationRegistry.sampleSigned
  dsimp only
  by_cases hzero : min max reg.order.length = 0
  · rw [if_pos hzero]
    exact ⟨[], reg.sampleCursor, rfl, by rw [hzero, Nat.add_zero], fun i hi => absurd hi (by omega)⟩
  · have hpos : 0 < reg.order.length := by omega
    choose wire hwire using fun i => h.slot_isSome hpos i
    have hslot : (fun i => (reg.order[(reg.sampleCursor % reg.order.length + i) % reg.order.length]?.bind
        reg.signed.lookup).map encodeSignedRevocation) = fun i => pure (wire (reg.sampleCursor + i)) := by
      funext i
      rw [Nat.mod_add_mod]
      exact hwire _
    rw [if_neg hzero, hslot, List.mapM_pure]
    refine ⟨_, _, rfl, ?_, fun i hi => ⟨wire (reg.sampleCursor + i), ?_, hwire _⟩⟩
    · rw [Nat.mod_mod, Nat.mod_add_mod]
    · exact List.mem_map.mpr ⟨i, List.mem_range.mpr hi, rfl⟩

theorem Held.slot_surjective (h : Held reg) (hlookup : reg.signed.lookup fp = some rec_) {start total : Nat}
    (htotal : reg.order.length ≤ total) : ∃ i < total, reg.slot (start + i) = some (encodeSignedRevocation rec_) := by
  have hmem : fp ∈ reg.order := (h.listed fp).mpr (AList.lookup_isSome.mp (by rw [hlookup]; rfl))
  obtain ⟨j, hj, hfp⟩ := List.getElem_of_mem hmem
  have hmod := Nat.mod_lt start (Nat.zero_lt_of_lt hj)
  refine ⟨(j + (reg.order.length - start % reg.order.length)) % reg.order.length,
    (Nat.mod_lt _ (Nat.zero_lt_of_lt hj)).trans_le htotal, ?_⟩
  have hpos : (start + (j + (reg.order.length - start % reg.order.length)) % reg.order.length) %
      reg.order.length = j := by
    rw [Nat.add_mod_mod, ← Nat.mod_add_mod, show start % reg.order.length +
      (j + (reg.order.length - start % reg.order.length)) = j + reg.order.length by omega, Nat.add_mod_right,
      Nat.mod_eq_of_lt hj]
  rw [slot, hpos, List.getElem?_eq_getElem hj, Option.bind_some, hfp, hlookup, Option.map_some]

theorem Held.length_order (h : Held reg) : reg.order.length = reg.signed.size := by
  rw [size_eq_length_keys]
  exact ((List.perm_ext_iff_of_nodup h.nodup reg.signed.keys_nodup).mpr h.listed).length_eq

end

end RevocationRegistry

/-! Runs. -/

def Call.inFlight : Call → Bool
  | .revoke .. | .revokeVerified .. | .merge .. => true
  | _ => false

def Label.removes : Label → Bool
  | .pruneExpired _ | .enableSigned .. => true
  | _ => false

def Label.samples : Label → Nat
  | .sampleSigned max => max
  | _ => 0

structure Inv (s : State) : Prop where
  coherent : s.reg.Coherent
  calls : ∀ i, (s.calls i).inFlight = true → s.reg.verifier = true

/-- What a step does to the registry. -/
structure Advances (s : State) (a : Label) (s' : State) : Prop where
  snapshot : a.removes = false → s.reg.snapshot ⊆ s'.reg.snapshot
  order : s.reg.order.Sublist s'.reg.order ∨ s'.reg.order.Sublist s.reg.order
  limits : s.reg.verifier = true → s'.reg.limits = s.reg.limits
  verifier : s.reg.verifier = true → s'.reg.verifier = true
  lastPrune : s.reg.lastPrune ≤ s'.reg.lastPrune
  pruned : ∀ now, a = .pruneExpired now → now ≤ s'.reg.lastPrune
  cursor : (∀ max, a ≠ .sampleSigned max) → s'.reg.sampleCursor = s.reg.sampleCursor

section

variable {s s' mid : State} {a : Label} {i : Nat} {c : Call} {reg : RevocationRegistry} {labels : List Label}

theorem inv_initial (maxEntries : Nat) : Inv (.initial maxEntries) := by
  refine ⟨⟨⟨List.nodup_nil, fun fp => ?_, Nat.zero_le _, fun fp rec_ hlookup => ?_, fun _ => rfl⟩, rfl⟩, nofun⟩
  · exact ⟨nofun, fun h => absurd h (AList.notMem_empty fp)⟩
  · change (∅ : Table Fingerprint SignedRevocation).lookup fp = some rec_ at hlookup
    rw [AList.lookup_empty] at hlookup
    cases hlookup

theorem grow (hreg : reg.Coherent ∧ s.reg.Grows reg) (hremoves : a.removes = false)
    (hcalls : ∀ i, (s'.calls i).inFlight = true → s.reg.verifier = true) (heq : s'.reg = reg) :
    Inv s' ∧ Advances s a s' := by
  obtain ⟨hcoherent, hgrows⟩ := hreg
  subst heq
  refine ⟨⟨hcoherent, fun i hi => hgrows.verifier.trans (hcalls i hi)⟩, fun _ => hgrows.snapshot,
    .inl hgrows.order.sublist,
    fun _ => hgrows.limits, fun hv => hgrows.verifier.trans hv, hgrows.lastPrune ▸ UInt64.le_refl _, ?_,
    fun _ => hgrows.cursor⟩
  rintro now rfl
  cases hremoves

theorem Inv.setCall (h : Inv s) (hc : c.inFlight = true → s.reg.verifier = true) (j : Nat) :
    (Function.update s.calls i c j).inFlight = true → s.reg.verifier = true := by
  by_cases hj : j = i
  · rw [hj, Function.update_self]
    exact hc
  · rw [Function.update_of_ne hj]
    exact h.calls j

theorem Call.selected_inFlight {now : UInt64} {rec_ : SignedRevocation}
    (h : (Call.selected reg now (reg.revokeSelect rec_ now)).inFlight = true) : reg.verifier = true := by
  by_contra hverifier
  rw [RevocationRegistry.revokeSelect, if_pos (Bool.eq_false_of_not_eq_true hverifier)] at h
  cases h

theorem Call.verify_inFlight {v : TrustAnchorVerifier} {c' : Call} (h : c.verify v = some c') :
    c.inFlight = true := by
  cases c with
  | revoke c cluster now => rfl
  | merge todo verified bad refund cluster now => rfl
  | _ => cases h

theorem step_keeps (h : Inv s) (hstep : step s a = some s') : Inv s' ∧ Advances s a s' := by
  cases a with
  | protect fp =>
    cases hstep
    have hsame : s.reg.Same (s.reg.protect fp) := ⟨rfl, rfl, rfl, rfl, rfl, rfl, rfl, rfl, rfl⟩
    exact grow (hsame.keeps h.coherent) rfl h.calls rfl
  | setAuthorityOnly on =>
    cases hstep
    have hsame : s.reg.Same (s.reg.setAuthorityOnly on) := ⟨rfl, rfl, rfl, rfl, rfl, rfl, rfl, rfl, rfl⟩
    exact grow (hsame.keeps h.coherent) rfl h.calls rfl
  | merge incoming =>
    cases hstep
    exact grow (h.coherent.merge incoming) rfl h.calls rfl
  | revokeLocally fp =>
    cases hstep
    exact grow (h.coherent.revokeLocally fp) rfl h.calls rfl
  | enableSigned verifier cluster limits =>
    cases hstep
    obtain ⟨hcoherent, hprune, horder, hcursor, hsame⟩ := h.coherent.enableSigned verifier cluster limits
    have hverifier : s.reg.verifier = true → (s.reg.enableSigned verifier cluster limits).2.verifier = true :=
      fun hv => by rw [hsame hv, hv]
    exact ⟨⟨hcoherent, fun i hi => hverifier (h.calls i hi)⟩, nofun, .inl (horder ▸ List.Sublist.refl _),
      fun hv => (by rw [hsame hv]), hverifier, hprune ▸ UInt64.le_refl _, nofun, fun _ => hcursor⟩
  | revoke i rec_ now =>
    rw [step] at hstep
    split at hstep
    · cases hstep
      exact grow ((RevocationRegistry.Same.refl s.reg).keeps h.coherent) rfl (h.setCall Call.selected_inFlight) rfl
    · cases hstep
  | mergeSigned i blobs now =>
    rw [step] at hstep
    have hsame := RevocationRegistry.same_mergeSelect s.reg blobs now
    split at hstep
    · split at hstep
      · cases hstep
        exact grow ((RevocationRegistry.Same.refl s.reg).keeps h.coherent) rfl
          (h.setCall nofun) rfl
      · split at hstep
        · next reg' hselect =>
          rw [hselect] at hsame
          cases hstep
          exact grow (hsame.keeps h.coherent) rfl (h.setCall nofun) rfl
        · next todo reg' hselect =>
          rw [hselect] at hsame
          cases hstep
          refine grow (hsame.keeps h.coherent) rfl (h.setCall fun _ => ?_) rfl
          by_contra hverifier
          rw [RevocationRegistry.mergeSelect, if_pos (Bool.eq_false_of_not_eq_true hverifier)] at hselect
          cases hselect
    · cases hstep
  | verify i v =>
    obtain ⟨c, hc, rfl⟩ := Option.map_eq_some_iff.mp hstep
    exact grow ((RevocationRegistry.Same.refl s.reg).keeps h.coherent) rfl
      (h.setCall fun _ => h.calls i (Call.verify_inFlight hc)) rfl
  | apply i =>
    obtain ⟨⟨c, reg'⟩, hc, rfl⟩ := Option.map_eq_some_iff.mp hstep
    have hdone : ∀ {c : Call}, c.inFlight = false → c.inFlight = true → s.reg.verifier = true := fun hf ht => by
      rw [hf] at ht
      cases ht
    have hcall := h.calls i
    cases hi : s.calls i with
    | revokeVerified c now =>
      rw [hi] at hc hcall
      cases hc
      exact grow (h.coherent.revokeApply (hcall rfl) c now) rfl (h.setCall (hdone rfl)) rfl
    | revokeBad =>
      rw [hi] at hc
      cases hc
      have hsame : s.reg.Same { s.reg with signedRejected := s.reg.signedRejected + 1 } :=
        ⟨rfl, rfl, rfl, rfl, rfl, rfl, rfl, rfl, rfl⟩
      exact grow (hsame.keeps h.coherent) rfl (h.setCall (hdone rfl)) rfl
    | merge todo verified bad refund cluster now =>
      rw [hi] at hc hcall
      cases todo with
      | nil =>
        cases hc
        exact grow (h.coherent.mergeApply (hcall rfl) verified bad refund now) rfl (h.setCall (hdone rfl)) rfl
      | cons c todo => cases hc
    | _ =>
      rw [hi] at hc
      cases hc
  | sampleSigned max =>
    obtain ⟨out, cursor, hsample, -⟩ := h.coherent.toHeld.sampleSigned max
    rw [step, hsample] at hstep
    cases hstep
    have hco := h.coherent
    exact ⟨⟨⟨⟨hco.nodup, hco.listed, hco.cap, hco.unexpired, hco.unsigned⟩, hco.snapshot⟩, h.calls⟩,
      fun _ => Finset.Subset.refl _, .inl (List.Sublist.refl _), fun _ => rfl, id, UInt64.le_refl _,
      nofun, fun hmax => absurd rfl (hmax max)⟩
  | pruneExpired now =>
    cases hstep
    obtain ⟨hcoherent, hprune, hlimits, hverifier, horder, hcursor⟩ := h.coherent.pruneExpired now
    refine ⟨⟨hcoherent, fun i hi => hverifier.trans (h.calls i hi)⟩, nofun, .inr horder,
      fun _ => hlimits, fun hv => hverifier.trans hv, ?_, fun now' heq => ?_, fun _ => hcursor⟩
    · change s.reg.lastPrune ≤ (s.reg.pruneExpired now).2.lastPrune
      rw [hprune]
      exact le_max_left _ _
    · cases heq
      change now ≤ (s.reg.pruneExpired now).2.lastPrune
      rw [hprune]
      exact le_max_right _ _

theorem inv_run (h : Inv s) (hrun : Machine.run step s labels = some s') : Inv s' :=
  run_invariant hrun h fun _ _ _ _ _ hinv hstep => (step_keeps hinv hstep).1

theorem lastPrune_run (h : Inv s) (hrun : Machine.run step s labels = some s') :
    s.reg.lastPrune ≤ s'.reg.lastPrune ∧
      (s.reg.verifier = true → s'.reg.verifier = true ∧ s'.reg.limits = s.reg.limits) := by
  have hkept := run_invariant (I := fun _ mid => Inv mid ∧ s.reg.lastPrune ≤ mid.reg.lastPrune ∧
    (s.reg.verifier = true → mid.reg.verifier = true ∧ mid.reg.limits = s.reg.limits)) hrun
    ⟨h, UInt64.le_refl _, fun hv => ⟨hv, rfl⟩⟩ fun _ mid a next _ hmid hstep => by
      obtain ⟨hinv, hle, hsigned⟩ := hmid
      obtain ⟨hnext, hadvances⟩ := step_keeps hinv hstep
      refine ⟨hnext, UInt64.le_trans hle hadvances.lastPrune, fun hv => ?_⟩
      obtain ⟨hverifier, hlimits⟩ := hsigned hv
      exact ⟨hadvances.verifier hverifier, (hadvances.limits hverifier).trans hlimits⟩
  exact hkept.2

def emittedBy (s : State) : Label → List (List UInt8)
  | .sampleSigned max => ((s.reg.sampleSigned max).map Prod.fst).getD []
  | _ => []

def emitted (s : State) : List Label → List (List UInt8)
  | [] => []
  | a :: labels => emittedBy s a ++ (step s a).elim [] fun mid => emitted mid labels

def Unchanged (s : State) (labels : List Label) : Prop :=
  ∀ before mid, before <+: labels → Machine.run step s before = some mid → mid.reg.signed = s.reg.signed

theorem Unchanged.tail (h : Unchanged s (a :: labels)) (hstep : step s a = some mid) :
    mid.reg.signed = s.reg.signed ∧ Unchanged mid labels := by
  have hmid : mid.reg.signed = s.reg.signed :=
    h [a] mid ⟨labels, rfl⟩ (run_cons.mpr ⟨mid, hstep, rfl⟩)
  refine ⟨hmid, fun before next hbefore hrun => ?_⟩
  rw [hmid]
  exact h (a :: before) next (List.cons_prefix_cons.mpr ⟨rfl, hbefore⟩) (run_cons.mpr ⟨mid, hstep, hrun⟩)

theorem Advances.order_eq (h : Inv s) (h' : Inv s') (hadvances : Advances s a s')
    (hsigned : s'.reg.signed = s.reg.signed) : s'.reg.order = s.reg.order := by
  have hlength : s'.reg.order.length = s.reg.order.length := by
    rw [h'.coherent.toHeld.length_order, h.coherent.toHeld.length_order, hsigned]
  rcases hadvances.order with hsub | hsub
  · exact (hsub.eq_of_length hlength.symm).symm
  · exact hsub.eq_of_length hlength

theorem emitted_slots (h : Inv s) (hrun : Machine.run step s labels = some s') (hsame : Unchanged s labels) :
    ∀ i < (labels.map fun a => min a.samples s.reg.order.length).sum,
      ∃ bs ∈ emitted s labels, s.reg.slot (s.reg.sampleCursor + i) = some bs := by
  induction labels generalizing s with
  | nil => exact fun i hi => absurd hi (Nat.not_lt_zero i)
  | cons a labels ih =>
    obtain ⟨mid, hstep, hrest⟩ := run_cons.mp hrun
    obtain ⟨hinv, hadvances⟩ := step_keeps h hstep
    obtain ⟨hsigned, htail⟩ := hsame.tail hstep
    have horder := hadvances.order_eq h hinv hsigned
    have hslot : ∀ i, mid.reg.slot i = s.reg.slot i := fun i => by
      rw [RevocationRegistry.slot, RevocationRegistry.slot, horder, hsigned]
    have hmid := ih hinv hrest htail
    rw [horder] at hmid
    intro i hi
    rw [List.map_cons, List.sum_cons] at hi
    rw [emitted, hstep, Option.elim_some]
    by_cases hfirst : i < min a.samples s.reg.order.length
    · cases a with
      | sampleSigned max =>
        obtain ⟨out, cursor, hsample, -, hout⟩ := h.coherent.toHeld.sampleSigned max
        obtain ⟨bs, hbs, heq⟩ := hout i hfirst
        refine ⟨bs, List.mem_append_left _ ?_, heq⟩
        rw [emittedBy, hsample]
        exact hbs
      | _ => exact absurd hfirst (by simp [Label.samples])
    · obtain ⟨bs, hbs, heq⟩ := hmid (i - min a.samples s.reg.order.length) (by omega)
      refine ⟨bs, List.mem_append_right _ hbs, ?_⟩
      rw [hslot] at heq
      rw [← heq]
      have hcursor : mid.reg.sampleCursor % s.reg.order.length =
          (s.reg.sampleCursor + min a.samples s.reg.order.length) % s.reg.order.length := by
        cases a with
        | sampleSigned max =>
          obtain ⟨out, cursor, hsample, hcursor, -⟩ := h.coherent.toHeld.sampleSigned max
          rw [step, hsample] at hstep
          cases hstep
          exact hcursor
        | _ =>
          rw [hadvances.cursor nofun]
          change _ = (s.reg.sampleCursor + min 0 _) % _
          rw [Nat.zero_min, Nat.add_zero]
      have hmod : (mid.reg.sampleCursor + (i - min a.samples s.reg.order.length)) % s.reg.order.length =
          (s.reg.sampleCursor + i) % s.reg.order.length := by
        rw [← Nat.mod_add_mod, hcursor, Nat.mod_add_mod, Nat.add_assoc,
          Nat.add_sub_cancel' (Nat.not_lt.mp hfirst)]
      rw [RevocationRegistry.slot, RevocationRegistry.slot, hmod]

theorem le_sum_min {n : Nat} {ms : List Nat} (h : n ≤ ms.sum) : n ≤ (ms.map fun m => min m n).sum := by
  by_cases hall : ∀ m ∈ ms, m ≤ n
  · rwa [List.map_congr_left fun m hm => Nat.min_eq_left (hall m hm), List.map_id']
  · push Not at hall
    obtain ⟨m, hm, hlt⟩ := hall
    calc
      n = min m n := (Nat.min_eq_right hlt.le).symm
      _ ≤ _ := List.single_le_sum (fun _ _ => Nat.zero_le _) _ (List.mem_map.mpr ⟨m, hm, rfl⟩)

theorem emitted_all (h : Inv s) (hrun : Machine.run step s labels = some s') (hsame : Unchanged s labels)
    (hbudget : s.reg.signed.size ≤ (labels.map Label.samples).sum) {fp : Fingerprint} {rec_ : SignedRevocation}
    (hlookup : s.reg.signed.lookup fp = some rec_) : encodeSignedRevocation rec_ ∈ emitted s labels := by
  have hheld := h.coherent.toHeld
  rw [← hheld.length_order] at hbudget
  have htotal := le_sum_min hbudget
  rw [List.map_map] at htotal
  obtain ⟨i, hi, hslot⟩ := @RevocationRegistry.Held.slot_surjective _ _ _ hheld hlookup s.reg.sampleCursor _ htotal
  obtain ⟨bs, hbs, heq⟩ := emitted_slots h hrun hsame i hi
  rw [hslot] at heq
  cases heq
  exact hbs

/-- What holds after a run of a registry. -/
structure Settled (maxEntries : Nat) (labels : List Label) (s : State) : Prop where
  coherent : s.reg.Coherent
  ratchet : ∀ a s', step s a = some s' → a.removes = false → s.reg.snapshot ⊆ s'.reg.snapshot
  pruned : ∀ before now after mid, labels = before ++ .pruneExpired now :: after →
    Machine.run step (.initial maxEntries) before = some mid → ∀ fp rec_, s.reg.signed.lookup fp = some rec_ →
      s.reg.limits.expired rec_ now = false ∧
        (mid.reg.verifier = true → mid.reg.limits.expired rec_ now = false)
  sampled : ∀ max, (s.reg.sampleSigned max).isSome
  gossiped : ∀ more s', Machine.run step s more = some s' → Unchanged s more →
    s.reg.signed.size ≤ (more.map Label.samples).sum →
      ∀ fp rec_, s.reg.signed.lookup fp = some rec_ → encodeSignedRevocation rec_ ∈ emitted s more

theorem expired_of_le {limits : SignedRevocationLimits} {rec_ : SignedRevocation} {now later : UInt64}
    (hle : now ≤ later) (h : limits.expired rec_ later = false) : limits.expired rec_ now = false := by
  by_contra hexpired
  rw [Bool.not_eq_false] at hexpired
  rw [SignedRevocationLimits.expired_mono hle hexpired] at h
  cases h

/-- Between any locked sections the snapshot is the union, only `pruneExpired` and `enableSigned` take from it, what a
prune found expired is not held, and the samples come round to every record. -/
theorem registry_settles {maxEntries : Nat} (hrun : Machine.run step (.initial maxEntries) labels = some s) :
    Settled maxEntries labels s := by
  have hinv := inv_run (inv_initial maxEntries) hrun
  refine ⟨hinv.coherent, fun a s' hstep hremoves => (step_keeps hinv hstep).2.snapshot hremoves, ?_, fun max => ?_,
    fun more s' hmore hsame hbudget fp rec_ hlookup => emitted_all hinv hmore hsame hbudget hlookup⟩
  · rintro before now after mid rfl hbefore fp rec_ hlookup
    obtain ⟨mid', hmid', hrest⟩ := run_append.mp hrun
    rw [hbefore] at hmid'
    cases hmid'
    obtain ⟨next, hstep, hafter⟩ := run_cons.mp hrest
    have hmidInv := inv_run (inv_initial maxEntries) hbefore
    obtain ⟨hnextInv, hadvances⟩ := step_keeps hmidInv hstep
    obtain ⟨hle, hsigned⟩ := lastPrune_run hnextInv hafter
    have hunexpired := hinv.coherent.unexpired fp rec_ hlookup
    have hnow : s.reg.limits.expired rec_ now = false :=
      expired_of_le (UInt64.le_trans (hadvances.pruned now rfl) hle) hunexpired
    refine ⟨hnow, fun hverifier => ?_⟩
    rwa [← hadvances.limits hverifier, ← (hsigned (hadvances.verifier hverifier)).2]
  · obtain ⟨out, cursor, hsample, -⟩ := hinv.coherent.toHeld.sampleSigned max
    rw [hsample]
    rfl

end

def fingerprint (n : UInt8) : Fingerprint := ⟨List.replicate 32 n, Swim.fingerprint_length n⟩

def leaf (n : UInt8) (notAfter : UInt64) : SignedRevocation where
  cluster := 7
  fingerprint := fingerprint n
  notAfter
  issuedAt := 0
  anchorKeyId := ⟨List.replicate 32 9, List.length_replicate⟩
  signature := [n]

def trusting : TrustAnchorVerifier where
  verify _ _ _ := true
  isCurrentRoot _ := true

def twoRecords : List Label :=
  [.enableSigned true 7 { maxSigned := 2 }, .revoke 0 (leaf 1 1500) 1000,
    .mergeSigned 1 [encodeSignedRevocation (leaf 2 1000), encodeSignedRevocation (leaf 3 1600), [0]] 1000,
    .verify 0 trusting,
    .pruneExpired 1400, .verify 1 trusting, .verify 1 trusting, .apply 1, .apply 0, .sampleSigned 1]

theorem registry_settles_two : ∃ s, s.reg.order = [fingerprint 3, fingerprint 1] ∧ Settled 4 twoRecords s := by
  obtain ⟨s, hs, hfacts⟩ := Option.map_eq_some_iff.mp
    (show (Machine.run step (.initial 4) twoRecords).map (fun s => s.reg.order) =
      some [fingerprint 3, fingerprint 1] by decide +kernel)
  exact ⟨s, hfacts, registry_settles hs⟩

/-- A prune before `enableSigned` goes by the default tolerance, and a record that had expired by it is held after the
mode was enabled with a larger one. -/
theorem expired_record_is_held :
    (State.initial 4).reg.limits.expired (leaf 1 600) 1000 = true ∧
      ∃ s, Machine.run step (.initial 4) [.pruneExpired 1000, .enableSigned true 7 { expirySkew := 1000 },
          .revoke 0 (leaf 1 600) 1000, .verify 0 trusting, .apply 0] = some s ∧
        s.reg.signed.lookup (fingerprint 1) = some (leaf 1 600) := by
  refine ⟨by decide, ?_⟩
  obtain ⟨s, hs, hfacts⟩ := Option.map_eq_some_iff.mp
    (show (Machine.run step (.initial 4) [.pruneExpired 1000, .enableSigned true 7 { expirySkew := 1000 },
      .revoke 0 (leaf 1 600) 1000, .verify 0 trusting, .apply 0]).map (fun s => s.reg.signed.lookup (fingerprint 1)) =
      some (some (leaf 1 600)) by decide +kernel)
  exact ⟨s, hs, hfacts⟩

end Quark.Revocation
