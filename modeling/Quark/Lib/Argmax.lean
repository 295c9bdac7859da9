import Mathlib.Data.List.MinMax

/-! The element of a list with the highest score, where no two elements have the same one. -/
namespace Argmax

open List

variable {α β : Type} [LinearOrder β] {f : α → β} {l l' : List α} {m n : α}

theorem argmax_eq_some_iff (hf : Function.Injective f) : l.argmax f = some m ↔ m ∈ l ∧ ∀ a ∈ l, f a ≤ f m := by
  constructor
  · intro h
    exact ⟨argmax_mem h, fun a ha => le_of_mem_argmax ha h⟩
  · rintro ⟨hm, hle⟩
    have hsome : l.argmax f ≠ none := fun hnone => ne_nil_of_mem hm (argmax_eq_none.mp hnone)
    obtain ⟨m', hm'⟩ := Option.ne_none_iff_exists'.mp hsome
    rw [hm', Option.some.injEq]
    exact hf (le_antisymm (hle m' (argmax_mem hm')) (le_of_mem_argmax hm hm'))

/-- Neither order nor repetition counts. -/
theorem argmax_congr (hf : Function.Injective f) (h : ∀ a, a ∈ l ↔ a ∈ l') : l.argmax f = l'.argmax f := by
  refine Option.ext fun m => ?_
  rw [argmax_eq_some_iff hf, argmax_eq_some_iff hf]
  simp only [h]

/-- One more element has the highest score, or nothing changes. -/
theorem argmax_insert (hf : Function.Injective f) (h : ∀ a, a ∈ l' ↔ a = n ∨ a ∈ l) :
    l'.argmax f = some n ∨ l'.argmax f = l.argmax f := by
  cases hm : l'.argmax f with
  | none =>
    rw [argmax_eq_none] at hm
    have hnone := (h n).mpr (.inl rfl)
    rw [hm] at hnone
    cases hnone
  | some m =>
    obtain ⟨hin, hle⟩ := (argmax_eq_some_iff hf).mp hm
    obtain rfl | hold := (h m).mp hin
    · exact .inl rfl
    · exact .inr ((argmax_eq_some_iff hf).mpr ⟨hold, fun a ha => hle a ((h a).mpr (.inr ha))⟩).symm

theorem argmax_subset (hf : Function.Injective f) (hm : m ∈ l') (hl : l' ⊆ l) (h : l.argmax f = some m) :
    l'.argmax f = some m :=
  (argmax_eq_some_iff hf).mpr ⟨hm, fun a ha => ((argmax_eq_some_iff hf).mp h).2 a (hl ha)⟩

end Argmax
