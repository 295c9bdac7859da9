import Mathlib.Data.List.Perm.Lattice

/-! Items kept at places: no item at two places, none twice at one, none of those that count lost. -/
namespace Quark

open List

/-- `at_ p` is what place `p` keeps; `counts` are the items that must not be lost, `known` those that there
have been. -/
structure Custody {Place Item : Type} (at_ : Place → List Item) (counts known : Item → Prop) : Prop where
  nodup : ∀ p, (at_ p).Nodup
  apart : ∀ p q c, c ∈ at_ p → c ∈ at_ q → p = q
  kept : ∀ c, counts c → ∃ p, c ∈ at_ p
  known : ∀ p c, c ∈ at_ p → known c

namespace Custody

variable {Place Item : Type} {at_ at' : Place → List Item} {counts counts' known known' : Item → Prop}
  {a b : Place} {c : Item}

/-- Items stay where they are or go; of those that count none goes. -/
theorem sublist (h : Custody at_ counts known) (hsub : ∀ p, (at' p).Sublist (at_ p))
    (hcounts : ∀ c, counts' c → ∀ p, c ∈ at_ p → c ∈ at' p) (hless : ∀ c, counts' c → counts c) :
    Custody at' counts' known where
  nodup p := (hsub p).nodup (h.nodup p)
  apart p q c hp hq := h.apart p q c ((hsub p).subset hp) ((hsub q).subset hq)
  kept c hc := by
    obtain ⟨p, hp⟩ := h.kept c (hless c hc)
    exact ⟨p, hcounts c hc p hp⟩
  known p c hc := h.known p c ((hsub p).subset hc)

theorem congr (h : Custody at_ counts known) (hat : ∀ p, at' p = at_ p) (hless : ∀ c, counts' c → counts c) :
    Custody at' counts' known :=
  h.sublist (fun p => by rw [hat]) (fun c _ p hp => by rwa [hat]) hless

theorem mem_pair {p : Place} (hp : p = a ∨ p = b) (hc : c ∈ at_ p) : c ∈ at_ a ++ at_ b := by
  rcases hp with rfl | rfl
  · exact mem_append_left _ hc
  · exact mem_append_right _ hc

/-- Items go from one place to another. -/
theorem move (h : Custody at_ counts known) (hne : a ≠ b) (hperm : (at' a ++ at' b).Perm (at_ a ++ at_ b))
    (hrest : ∀ p, p ≠ a → p ≠ b → at' p = at_ p) (hless : ∀ c, counts' c → counts c) : Custody at' counts' known := by
  have hboth : (at_ a ++ at_ b).Nodup :=
    nodup_append.mpr ⟨h.nodup a, h.nodup b, fun x hx y hy hxy => hne (h.apart a b x hx (hxy ▸ hy))⟩
  obtain ⟨hnodupA, hnodupB, hdisjoint⟩ := nodup_append.mp (hperm.nodup_iff.mpr hboth)
  have hpair : ∀ p x, (p = a ∨ p = b) → x ∈ at' p → x ∈ at_ a ∨ x ∈ at_ b := fun p x hp hx =>
    mem_append.mp (hperm.mem_iff.mp (mem_pair hp hx))
  have hout : ∀ p, ¬(p = a ∨ p = b) → at' p = at_ p := fun p hp => hrest p (fun e => hp (.inl e)) fun e => hp (.inr e)
  -- what was outside the two places is at neither of them afterwards
  have hcross : ∀ p q x, (p = a ∨ p = b) → ¬(q = a ∨ q = b) → x ∈ at' p → x ∉ at' q := by
    intro p q x hp hq hxp hxq
    rw [hout q hq] at hxq
    rcases hpair p x hp hxp with hold | hold
    · exact hq (.inl (h.apart q a x hxq hold))
    · exact hq (.inr (h.apart q b x hxq hold))
  refine ⟨fun p => ?_, fun p q x hxp hxq => ?_, fun x hx => ?_, fun p x hx => ?_⟩
  · by_cases hp : p = a ∨ p = b
    · rcases hp with rfl | rfl
      · exact hnodupA
      · exact hnodupB
    · rw [hout p hp]
      exact h.nodup p
  · by_cases hp : p = a ∨ p = b <;> by_cases hq : q = a ∨ q = b
    · rcases hp with rfl | rfl <;> rcases hq with rfl | rfl
      · rfl
      · exact absurd rfl (hdisjoint x hxp x hxq)
      · exact absurd rfl (hdisjoint x hxq x hxp)
      · rfl
    · exact absurd hxq (hcross p q x hp hq hxp)
    · exact absurd hxp (hcross q p x hq hp hxq)
    · rw [hout p hp] at hxp
      rw [hout q hq] at hxq
      exact h.apart p q x hxp hxq
  · obtain ⟨p, hp⟩ := h.kept x (hless x hx)
    by_cases hin : p = a ∨ p = b
    · rcases mem_append.mp (hperm.mem_iff.mpr (mem_pair hin hp)) with hnew | hnew
      · exact ⟨a, hnew⟩
      · exact ⟨b, hnew⟩
    · exact ⟨p, (hout p hin).symm ▸ hp⟩
  · by_cases hp : p = a ∨ p = b
    · rcases hpair p x hp hx with hold | hold
      · exact h.known a x hold
      · exact h.known b x hold
    · exact h.known p x (hout p hp ▸ hx)

/-- A new item comes to a place. -/
theorem add (h : Custody at_ counts known) (hfresh : ¬known c) (hat : at' a = c :: at_ a)
    (hrest : ∀ p, p ≠ a → at' p = at_ p)
    (hless : ∀ x, counts' x → x = c ∨ counts x) (hknown : ∀ x, x = c ∨ known x → known' x) :
    Custody at' counts' known' := by
  have hnew : ∀ p, c ∉ at_ p := fun p hp => hfresh (h.known p c hp)
  have hfrom : ∀ p x, x ∈ at' p → x = c ∧ p = a ∨ x ∈ at_ p := by
    intro p x hx
    by_cases hp : p = a
    · rw [hp, hat, mem_cons] at hx
      exact hx.imp (fun e => ⟨e, hp⟩) fun hx => hp ▸ hx
    · exact .inr (hrest p hp ▸ hx)
  have hto : ∀ p x, x ∈ at_ p → x ∈ at' p := by
    intro p x hx
    by_cases hp : p = a
    · rw [hp, hat]
      exact mem_cons_of_mem c (hp ▸ hx)
    · exact (hrest p hp).symm ▸ hx
  refine ⟨fun p => ?_, fun p q x hp hq => ?_, fun x hx => ?_, fun p x hx => ?_⟩
  · by_cases hp : p = a
    · rw [hp, hat]
      exact nodup_cons.mpr ⟨hnew a, h.nodup a⟩
    · rw [hrest p hp]
      exact h.nodup p
  · rcases hfrom p x hp with ⟨rfl, rfl⟩ | hpold <;> rcases hfrom q x hq with ⟨hxc, rfl⟩ | hqold
    · rfl
    · exact absurd hqold (hnew q)
    · exact absurd (hxc ▸ hpold) (hnew p)
    · exact h.apart p q x hpold hqold
  · rcases hless x hx with rfl | hold
    · exact ⟨a, hat ▸ mem_cons_self⟩
    · obtain ⟨p, hp⟩ := h.kept x hold
      exact ⟨p, hto p x hp⟩
  · rcases hfrom p x hx with ⟨hxc, -⟩ | hold
    · exact hknown x (.inl hxc)
    · exact hknown x (.inr (h.known p x hold))

theorem weaken (h : Custody at_ counts known) (hless : ∀ c, counts' c → counts c) (hknown : ∀ c, known c → known' c) :
    Custody at_ counts' known' :=
  ⟨h.nodup, h.apart, fun c hc => h.kept c (hless c hc), fun p c hc => hknown c (h.known p c hc)⟩

/-- An item that counts is at exactly one place, once. -/
theorem count_eq [DecidableEq Place] [DecidableEq Item] (h : Custody at_ counts known) (hc : counts c) :
    ∃ p, ∀ q, (at_ q).count c = if q = p then 1 else 0 := by
  obtain ⟨p, hp⟩ := h.kept c hc
  refine ⟨p, fun q => ?_⟩
  split
  · next hq => exact hq ▸ count_eq_one_of_mem (h.nodup p) hp
  · next hq => exact count_eq_zero.mpr fun hin => hq (h.apart q p c hin hp)

end Custody

end Quark
