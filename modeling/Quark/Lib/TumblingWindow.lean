import Mathlib.Data.List.Basic

/-! Limits per window. Times are split into windows that open one after another, and the first `n` times of
each window are let through. How far that keeps to `n` in every interval of the window's length. -/
namespace TumblingWindow

open List

/-- The windows of `cur ++ ts`, where a window is open since `start` and holds `cur` so far: the first time that
comes later than `w` after `start` opens the next. -/
def split (w start : Int) (cur : List Int) : List Int → List (List Int)
  | [] => [cur]
  | t :: ts => if w < t - start then cur :: split w t [t] ts else split w start (cur ++ [t]) ts

def windows (w : Int) : List Int → List (List Int)
  | [] => []
  | t :: ts => split w t [t] ts

def admitted (n : Nat) (ws : List (List Int)) : List Int := ws.flatMap (List.take n)

/-- `t` lies in the interval of length `w` from `a` on. -/
def within (w a t : Int) : Bool := decide (a ≤ t ∧ t ≤ a + w)

/-- The `j`-th of the second window comes later than `w` after that of the first from which on there are
`n` up to it. -/
def Apart (n : Nat) (w : Int) (v v' : List Int) : Prop :=
  ∀ i j x y, (v.take n)[i]? = some x → (v'.take n)[j]? = some y → i + n = (v.take n).length + j → w < y - x

instance (n : Nat) (w : Int) (v v' : List Int) : Decidable (Apart n w v v') :=
  decidable_of_iff (∀ i (_ : i < (v.take n).length), ∀ j (_ : j < (v'.take n).length),
      i + n = (v.take n).length + j → w < (v'.take n)[j] - (v.take n)[i]) (by
    constructor
    · intro h i j x y hx hy hij
      obtain ⟨hi, rfl⟩ := List.getElem?_eq_some_iff.mp hx
      obtain ⟨hj, rfl⟩ := List.getElem?_eq_some_iff.mp hy
      exact h i hi j hj hij
    · intro h i hi j hj hij
      exact h i j _ _ (getElem?_eq_getElem hi) (getElem?_eq_getElem hj) hij)

/-- Windows that are not next to each other lie more than `w` apart. -/
def Spread (w : Int) : List (List Int) → Prop
  | v :: v' :: rest => (∀ x ∈ v, ∀ z ∈ rest.flatten, w < z - x) ∧ Spread w (v' :: rest)
  | _ => True

attribute [local simp] split

theorem flatten_split (w start : Int) (cur ts : List Int) : (split w start cur ts).flatten = cur ++ ts := by
  induction ts generalizing start cur with
  | nil => rw [split, flatten_cons, flatten_nil]
  | cons t ts ih =>
    rw [split]
    split
    · rw [flatten_cons, ih]
      rfl
    · rw [ih, append_assoc]
      rfl

theorem split_head (w start : Int) (cur ts : List Int) : ∃ v rest, split w start cur ts = (cur ++ v) :: rest := by
  induction ts generalizing cur with
  | nil => exact ⟨[], [], by rw [split, append_nil]⟩
  | cons t ts ih =>
    rw [split]
    split
    · exact ⟨[], _, by rw [append_nil]⟩
    · obtain ⟨v, rest, heq⟩ := ih (cur ++ [t])
      exact ⟨t :: v, rest, by rw [heq, ← append_cons]⟩

theorem flatten_windows (w : Int) (ts : List Int) : (windows w ts).flatten = ts := by
  cases ts with
  | nil => rfl
  | cons t ts => exact flatten_split w t [t] ts

theorem split_spread (w start : Int) (cur ts : List Int) (hsorted : (cur ++ ts).Pairwise (· ≤ ·)) :
    ∃ v rest, split w start cur ts = v :: rest ∧ (∀ z ∈ rest.flatten, w < z - start) ∧ Spread w (v :: rest) := by
  induction ts generalizing start cur with
  | nil => exact ⟨cur, [], rfl, by simp, trivial⟩
  | cons t ts ih =>
    rw [split]
    split
    · next hlate =>
      have htail := (pairwise_append.mp hsorted).2.1
      obtain ⟨v, rest, heq, hfar, hspread⟩ := ih t [t] htail
      have hall : (v :: rest).flatten = [t] ++ ts := by rw [← heq, flatten_split]
      refine ⟨cur, v :: rest, by rw [heq], ?_, ?_⟩
      · intro z hz
        rw [hall] at hz
        rcases mem_cons.mp hz with rfl | hz
        · exact hlate
        · have hle := rel_of_pairwise_cons htail hz
          omega
      · refine ⟨fun x hx z hz => ?_, hspread⟩
        have hle := (pairwise_append.mp hsorted).2.2 x hx t mem_cons_self
        have hz' := hfar z hz
        omega
    · rw [append_cons] at hsorted
      exact ih start (cur ++ [t]) hsorted

theorem windows_spread (w : Int) {ts : List Int} (hsorted : ts.Pairwise (· ≤ ·)) : Spread w (windows w ts) := by
  cases ts with
  | nil => trivial
  | cons t ts =>
    obtain ⟨v, rest, heq, _, hspread⟩ := split_spread w t [t] ts hsorted
    rw [windows, heq]
    exact hspread

section

variable {n : Nat} {w a : Int} {l : List Int} {i : Nat} {x : Int}

theorem take_le (hsorted : l.Pairwise (· ≤ ·)) (hx : l[i]? = some x) : ∀ u ∈ l.take (i + 1), u ≤ x := by
  intro u hu
  obtain ⟨k, hk, rfl⟩ := List.mem_take_iff_getElem.mp hu
  obtain ⟨hi, rfl⟩ := List.getElem?_eq_some_iff.mp hx
  by_cases hki : k = i
  · subst hki
    exact Int.le_refl _
  · exact pairwise_iff_getElem.mp hsorted k i (by omega) hi (by omega)

theorem le_drop (hsorted : l.Pairwise (· ≤ ·)) (hx : l[i]? = some x) : ∀ u ∈ l.drop i, x ≤ u := by
  intro u hu
  obtain ⟨k, hk, rfl⟩ := List.mem_drop_iff_getElem.mp hu
  obtain ⟨hi, rfl⟩ := List.getElem?_eq_some_iff.mp hx
  by_cases hk0 : k = 0
  · subst hk0
    exact Int.le_refl _
  · have hki : k + i = i + k := Nat.add_comm k i
    exact pairwise_iff_getElem.mp hsorted i (i + k) hi (hki ▸ hk) (by omega)

theorem countP_split (p : Int → Bool) (l : List Int) (i : Nat) :
    l.countP p = (l.take i).countP p + (l.drop i).countP p := by
  rw [← countP_append, take_append_drop]

/-- What comes before an element that is too early is too early. -/
theorem countP_within_le_of_lt (hsorted : l.Pairwise (· ≤ ·)) (hx : l[i]? = some x) (hlt : x < a) :
    l.countP (within w a) ≤ l.length - (i + 1) := by
  have hnone : (l.take (i + 1)).countP (within w a) = 0 := by
    rw [countP_eq_zero]
    intro u hu
    have hle := take_le hsorted hx u hu
    simp only [within, decide_eq_true_eq]
    omega
  rw [countP_split _ l (i + 1), hnone, Nat.zero_add, ← length_drop]
  exact countP_le_length

/-- What comes from an element that is too late on is too late. -/
theorem countP_within_le_of_gt (hsorted : l.Pairwise (· ≤ ·)) (hx : l[i]? = some x) (hlt : a + w < x) :
    l.countP (within w a) ≤ i := by
  have hnone : (l.drop i).countP (within w a) = 0 := by
    rw [countP_eq_zero]
    intro u hu
    have hle := le_drop hsorted hx u hu
    simp only [within, decide_eq_true_eq]
    omega
  rw [countP_split _ l i, hnone, Nat.add_zero]
  have hle : (l.take i).countP (within w a) ≤ (l.take i).length := countP_le_length
  rw [length_take] at hle
  omega

/-- From an element on that is not too early, all count that are not too late. -/
theorem countP_le_of_drop (hsorted : l.Pairwise (· ≤ ·)) (hx : l[i]? = some a) (hle : ∀ u ∈ l, u ≤ a + w) :
    l.length - i ≤ l.countP (within w a) := by
  have hall : (l.drop i).countP (within w a) = (l.drop i).length := by
    rw [countP_eq_length]
    intro u hu
    simp only [within, decide_eq_true_eq]
    exact ⟨le_drop hsorted hx u hu, hle u (mem_of_mem_drop hu)⟩
  rw [countP_split _ l i, hall, length_drop]
  exact Nat.le_add_left _ _

/-- Up to an element that is not too late, all count that are not too early. -/
theorem countP_le_of_take (hsorted : l.Pairwise (· ≤ ·)) (hx : l[i]? = some x) (hle : ∀ u ∈ l, a ≤ u)
    (hlate : x ≤ a + w) : i + 1 ≤ l.countP (within w a) := by
  have hall : (l.take (i + 1)).countP (within w a) = (l.take (i + 1)).length := by
    rw [countP_eq_length]
    intro u hu
    have hux := take_le hsorted hx u hu
    simp only [within, decide_eq_true_eq]
    exact ⟨hle u (List.mem_of_mem_take hu), by omega⟩
  have hi : i < l.length := (List.getElem?_eq_some_iff.mp hx).1
  rw [countP_split _ l (i + 1), hall, List.length_take]
  omega

end

theorem mem_flatten_of_admitted {n : Nat} {ws : List (List Int)} {z : Int} (hz : z ∈ admitted n ws) :
    z ∈ ws.flatten := by
  obtain ⟨v, hv, hzv⟩ := mem_flatMap.mp hz
  exact mem_flatten.mpr ⟨v, hv, mem_of_mem_take hzv⟩

/-- Two windows next to each other that are apart let through at most `n` in any interval. -/
theorem Apart.count_le {n : Nat} {w : Int} {v v' : List Int} (h : Apart n w v v') (hv : v.Pairwise (· ≤ ·))
    (hv' : v'.Pairwise (· ≤ ·)) (a : Int) :
    (v.take n).countP (within w a) + (v'.take n).countP (within w a) ≤ n := by
  have hp : (v.take n).countP (within w a) ≤ (v.take n).length := countP_le_length
  have hq : (v'.take n).countP (within w a) ≤ (v'.take n).length := countP_le_length
  have hm : (v.take n).length ≤ n := length_take_le n v
  have hm' : (v'.take n).length ≤ n := length_take_le n v'
  by_contra hmore
  generalize hq' : (v'.take n).countP (within w a) = q at *
  generalize hp' : (v.take n).countP (within w a) = p at *
  -- the last of the second window inside, and the one of the first that is `n` before it
  obtain ⟨y, hy⟩ : ∃ y, (v'.take n)[q - 1]? = some y := ⟨_, getElem?_eq_getElem (by omega)⟩
  obtain ⟨x, hx⟩ : ∃ x, (v.take n)[(v.take n).length + (q - 1) - n]? = some x :=
    ⟨_, getElem?_eq_getElem (by omega)⟩
  have hlate := h _ _ x y hx hy (by omega)
  by_cases hxa : x < a
  · have hle := countP_within_le_of_lt (w := w) (hv.sublist (take_sublist n v)) hx hxa
    omega
  · have hle := countP_within_le_of_gt (w := w) (a := a) (hv'.sublist (take_sublist n v')) hy (by omega)
    omega

/-- In every interval of length `w` at most `n` are let through exactly when windows next to each other
are apart. -/
theorem admitted_within_iff (n : Nat) (w : Int) (ws : List (List Int)) (hsorted : ws.flatten.Pairwise (· ≤ ·))
    (hspread : Spread w ws) :
    (∀ a, (admitted n ws).countP (within w a) ≤ n) ↔ ws.IsChain (Apart n w) := by
  induction ws with
  | nil => simp [admitted]
  | cons v ws ih =>
    have hv : v.Pairwise (· ≤ ·) := (pairwise_append.mp hsorted).1
    have htail : ws.flatten.Pairwise (· ≤ ·) := (pairwise_append.mp hsorted).2.1
    have hcons : ∀ a, (admitted n (v :: ws)).countP (within w a) =
        (v.take n).countP (within w a) + (admitted n ws).countP (within w a) := by
      intro a
      rw [admitted, flatMap_cons, countP_append]
      rfl
    cases ws with
    | nil =>
      refine iff_of_true (fun a => ?_) (List.IsChain.singleton v)
      have hle : (v.take n).countP (within w a) ≤ (v.take n).length := countP_le_length
      have hm : (v.take n).length ≤ n := length_take_le n v
      rw [hcons]
      change _ + 0 ≤ n
      omega
    | cons v' rest =>
      have hv' : v'.Pairwise (· ≤ ·) := (pairwise_append.mp htail).1
      rw [isChain_cons_cons, ← ih htail hspread.2]
      constructor
      · intro hall
        constructor
        · intro i j x y hx hy hij
          by_contra hnear
          have hle := hall x
          have hfirst := countP_le_of_drop (w := w) (a := x) (hv.sublist (take_sublist n v)) hx fun u hu => by
            have huy := (pairwise_append.mp hsorted).2.2 u (mem_of_mem_take hu) y
              (mem_append_left _ (mem_of_mem_take (mem_of_getElem? hy)))
            omega
          have hsecond := countP_le_of_take (w := w) (a := x) (hv'.sublist (take_sublist n v')) hy fun u hu =>
            (pairwise_append.mp hsorted).2.2 x (mem_of_mem_take (mem_of_getElem? hx)) u
              (mem_append_left _ (mem_of_mem_take hu))
          have hsplit : (v'.take n).countP (within w x) ≤ (admitted n (v' :: rest)).countP (within w x) := by
            rw [admitted, flatMap_cons, countP_append]
            exact Nat.le_add_right _ _
          rw [hcons] at hle
          have hnear' : y ≤ x + w := by omega
          have hi : i < (v.take n).length := (List.getElem?_eq_some_iff.mp hx).1
          have hsecond := hsecond hnear'
          omega
        · intro a
          have hle := hall a
          rw [hcons] at hle
          omega
      · rintro ⟨hapart, hrest⟩ a
        rw [hcons]
        by_cases hnone : (v.take n).countP (within w a) = 0
        · rw [hnone, Nat.zero_add]
          exact hrest a
        · obtain ⟨x, hx, hxa⟩ := countP_pos_iff.mp (Nat.pos_of_ne_zero hnone)
          simp only [within, decide_eq_true_eq] at hxa
          have hout : (admitted n rest).countP (within w a) = 0 := by
            rw [countP_eq_zero]
            intro z hz
            have hfar := hspread.1 x (mem_of_mem_take hx) z (mem_flatten_of_admitted hz)
            simp only [within, decide_eq_true_eq]
            omega
          have hsplit : (admitted n (v' :: rest)).countP (within w a) = (v'.take n).countP (within w a) := by
            rw [admitted, flatMap_cons, countP_append]
            change _ + (admitted n rest).countP _ = _
            rw [hout, Nat.add_zero]
          rw [hsplit]
          exact hapart.count_le hv hv' a

end TumblingWindow
