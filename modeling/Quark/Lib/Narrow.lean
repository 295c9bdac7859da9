import Mathlib.Data.List.Basic

/-! A list narrowed by one filter after another. -/
namespace Narrow

open List

variable {α μ : Type} {f : List α → μ → List α} {a : α}

theorem narrow_subset (hf : ∀ l m, f l m ⊆ l) (ms : List μ) (l : List α) : ms.foldl f l ⊆ l := by
  induction ms generalizing l with
  | nil => exact List.Subset.refl l
  | cons m ms ih => exact List.Subset.trans (ih (f l m)) (hf l m)

/-- What every filter lets through is still there. -/
theorem narrow_keeps {ms : List μ} {l : List α} (hkeep : ∀ m ∈ ms, ∀ l, a ∈ l → a ∈ f l m) (ha : a ∈ l) :
    a ∈ ms.foldl f l := by
  induction ms generalizing l with
  | nil => exact ha
  | cons m ms ih =>
    exact ih (fun m' hm' => hkeep m' (mem_cons_of_mem _ hm')) (hkeep m mem_cons_self l ha)

theorem narrow_drops {ms : List μ} {m : μ} (hf : ∀ l m, f l m ⊆ l) (hm : m ∈ ms)
    (hdrop : ∀ l, a ∉ f l m) (l : List α) :
    a ∉ ms.foldl f l := by
  obtain ⟨before, after, rfl⟩ := append_of_mem hm
  rw [foldl_append, foldl_cons]
  exact fun h => hdrop _ (narrow_subset hf after _ h)

theorem narrow_stays {ms : List μ} {l : List α} (h : ∀ m ∈ ms, f l m = l) : ms.foldl f l = l := by
  induction ms with
  | nil => rfl
  | cons m ms ih =>
    rw [foldl_cons, h m mem_cons_self]
    exact ih fun m' hm' => h m' (mem_cons_of_mem _ hm')

/-- Once one filter leaves a single element, the others leave it too. -/
theorem narrow_pins {ms : List μ} {m : μ} {l : List α} (hm : m ∈ ms) (hpin : ∀ l, a ∈ l → f l m = [a])
    (hkeep : ∀ m ∈ ms, ∀ l, a ∈ l → a ∈ f l m) (hstay : ∀ m ∈ ms, f [a] m = [a]) (ha : a ∈ l) :
    ms.foldl f l = [a] := by
  obtain ⟨before, after, rfl⟩ := append_of_mem hm
  have hbefore := narrow_keeps (fun m' hm' => hkeep m' (mem_append_left _ hm')) ha
  rw [foldl_append, foldl_cons, hpin _ hbefore]
  exact narrow_stays fun m' hm' => hstay m' (mem_append_right _ (mem_cons_of_mem _ hm'))

end Narrow
