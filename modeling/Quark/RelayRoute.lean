import Mathlib.Algebra.Order.BigOperators.Group.Finset
import Quark.ClusterTopology

/-! The routes of `RelayOverlay` over a full roster. Each hop comes nearer, so a route fails only at its cap;
the default cap is large enough just for small rosters and for large buckets. -/
namespace Quark.Topology

open List XorWalk

section

variable {roster path : List NodeId} {k : UInt32} {src dst cur next : NodeId} {n : Nat}

theorem lookup_emplaced (build : NodeId → KademliaTable) (l : List NodeId) (tables : Table NodeId KademliaTable)
    (h : ∀ t, tables.lookup cur = some t → t = build cur) :
    (cur ∈ l ∨ (tables.lookup cur).isSome = true) →
    (l.foldl (fun tables n => RelayOverlay.emplace tables n (build n)) tables).lookup cur = some (build cur) := by
  induction l generalizing tables with
  | nil =>
    intro hin
    obtain ⟨t, ht⟩ := Option.isSome_iff_exists.mp (hin.resolve_left (by simp))
    rw [foldl_nil, ht, h t ht]
  | cons n l ih =>
    intro hin
    rw [foldl_cons]
    have hnext : (∀ t, (RelayOverlay.emplace tables n (build n)).lookup cur = some t → t = build cur) ∧
        (cur = n ∨ (tables.lookup cur).isSome = true →
          ((RelayOverlay.emplace tables n (build n)).lookup cur).isSome = true) := by
      unfold RelayOverlay.emplace
      split
      · next hnone =>
        by_cases heq : cur = n
        · rw [heq, AList.lookup_insert]
          exact ⟨fun t ht => by cases ht; rfl, fun _ => rfl⟩
        · rw [AList.lookup_insert_ne heq]
          exact ⟨h, fun hin => hin.resolve_left heq⟩
      · next t ht => exact ⟨h, fun hin => by
          obtain rfl | hsome := hin
          · rw [ht]
            rfl
          · exact hsome⟩
    refine ih _ hnext.1 ?_
    obtain hin | hsome := hin
    · exact (mem_cons.mp hin).symm.imp_right fun heq => hnext.2 (.inl heq)
    · exact .inr (hnext.2 (.inr hsome))

theorem nextHop_overlay (hnodup : roster.Nodup) (hk : k ≠ 0) (hcur : cur ∈ roster) (hdst : dst ∈ roster)
    (hne : cur ≠ dst) : ∃ m, (RelayOverlay.build roster k).nextHop cur dst = some m ∧ Relay roster k.toNat dst cur m ∧
      Hop (roster.toFinset.image (dist dst)) k.toNat (dist dst cur) (dist dst m) := by
  have hperm := perm_insertionSort (fun a b : NodeId => a.toNat ≤ b.toNat) roster
  have hset := toFinset_eq_of_perm _ _ hperm
  obtain ⟨m, hm, hrelay, hhop⟩ :=
    KademliaTable.nextHop_relay (hperm.nodup_iff.mpr hnodup) hk (hperm.mem_iff.mpr hdst) hne
  have hbeyond : beyond roster dst cur = beyond (roster.insertionSort fun a b => a.toNat ≤ b.toNat) dst cur := by
    rw [beyond, beyond, hset]
  have hlookup : (RelayOverlay.build roster k).tables.lookup cur =
      some (KademliaTable.build cur (roster.insertionSort fun a b => a.toNat ≤ b.toNat) k) :=
    lookup_emplaced (fun n => KademliaTable.build n (roster.insertionSort fun a b => a.toNat ≤ b.toNat) k) _ ∅
      (by simp) (.inl (hperm.mem_iff.mpr hcur))
  refine ⟨m, ?_, ⟨?_, ?_, ?_⟩, ?_⟩
  · unfold RelayOverlay.nextHop
    rw [hlookup]
    exact hm
  · rw [hbeyond]
    exact hrelay.mem
  · rw [hbeyond]
    exact hrelay.near
  · rw [hbeyond]
    exact hrelay.nearest
  · rw [← hset]
    exact hhop

/-- Where the route goes from `cur`. -/
def RelayOverlay.hop (o : RelayOverlay) (dst cur : NodeId) : NodeId := (o.nextHop cur dst).getD cur

theorem hop_overlay (hnodup : roster.Nodup) (hk : k ≠ 0) (hdst : dst ∈ roster) (hcur : cur ∈ roster)
    (hne : dist dst cur ≠ 0) : (RelayOverlay.build roster k).hop dst cur ∈ roster ∧
      Hop (roster.toFinset.image (dist dst)) k.toNat (dist dst cur)
      (dist dst ((RelayOverlay.build roster k).hop dst cur)) := by
  obtain ⟨m, hm, hrelay, hhop⟩ := nextHop_overlay hnodup hk hcur hdst fun heq => hne (dist_eq_zero.mpr heq)
  rw [RelayOverlay.hop, hm]
  exact ⟨mem_toFinset.mp (Finset.mem_filter.mp hrelay.mem).1, hhop⟩

/-- The path leads from `src` to `dst`, and every hop comes nearer to it. -/
structure Delivers (src dst : NodeId) (path : List NodeId) : Prop where
  arrives : (src :: path).getLast? = some dst
  once : (src :: path).Nodup
  nearer : (src :: path).IsChain fun a b => dist dst b < dist dst a

theorem delivers_nil : Delivers dst dst [] := ⟨rfl, nodup_singleton dst, .singleton dst⟩

theorem Delivers.cons (h : Delivers next dst path) (hless : dist dst next < dist dst cur) :
    Delivers cur dst (next :: path) := by
  have hchain : (cur :: next :: path).IsChain fun a b => dist dst b < dist dst a :=
    isChain_cons_cons.mpr ⟨hless, h.nearer⟩
  refine ⟨?_, ?_, hchain⟩
  · rw [getLast?_cons_cons]
    exact h.arrives
  · have htrans : IsTrans NodeId fun a b => dist dst b < dist dst a := ⟨fun _ _ _ hab hbc => hbc.trans hab⟩
    exact (isChain_iff_pairwise.mp hchain).imp fun hab heq => by
      rw [heq] at hab
      exact lt_irrefl _ hab

theorem routeFrom_spec (hnodup : roster.Nodup) (hk : k ≠ 0) (hdst : dst ∈ roster) (hcur : cur ∈ roster)
    (hne : cur ≠ dst) : (Arrives (dist dst) ((RelayOverlay.build roster k).hop dst) n cur →
      ∃ p, (RelayOverlay.build roster k).routeFrom dst n cur path = path ++ p ∧ Delivers cur dst p) ∧
    (¬ Arrives (dist dst) ((RelayOverlay.build roster k).hop dst) n cur →
      (RelayOverlay.build roster k).routeFrom dst n cur path = []) := by
  have hd : dist dst cur ≠ 0 := fun hzero => hne (dist_eq_zero.mp hzero)
  induction n generalizing cur path with
  | zero => exact ⟨fun harr => absurd harr hd, fun _ => rfl⟩
  | succ n ih =>
    obtain ⟨m, hm, hrelay, hhop⟩ := nextHop_overlay hnodup hk hcur hdst hne
    have hmem : m ∈ roster := mem_toFinset.mp (Finset.mem_filter.mp hrelay.mem).1
    have hless : dist dst m < dist dst cur := hhop.lt hd
    have hmoves : m ≠ cur := fun heq => by
      rw [heq] at hless
      exact lt_irrefl _ hless
    have hnext : (RelayOverlay.build roster k).hop dst cur = m := by
      rw [RelayOverlay.hop, hm]
      rfl
    have harrives : Arrives (dist dst) ((RelayOverlay.build roster k).hop dst) (n + 1) cur ↔
        Arrives (dist dst) ((RelayOverlay.build roster k).hop dst) n m := by
      rw [Arrives, hnext]
      exact or_iff_right hd
    rw [harrives]
    unfold RelayOverlay.routeFrom
    rw [if_neg hne, hm]
    dsimp only
    rw [if_neg hmoves]
    by_cases hlast : m = dst
    · rw [if_pos hlast]
      refine ⟨fun _ => ⟨[m], rfl, ?_⟩, fun hnot => absurd (arrives_of_eq (dist_eq_zero.mpr hlast) n) hnot⟩
      rw [hlast] at hless ⊢
      exact delivers_nil.cons hless
    · rw [if_neg hlast]
      obtain ⟨hgo, hfail⟩ := @ih (path ++ [m]) m hmem hlast fun hzero => hlast (dist_eq_zero.mp hzero)
      refine ⟨fun harr => ?_, hfail⟩
      obtain ⟨p, hp, hdelivers⟩ := hgo harr
      exact ⟨m :: p, by rw [hp, append_assoc]; rfl, hdelivers.cons hless⟩

theorem route_delivers (hnodup : roster.Nodup) (hk : k ≠ 0) (hdst : dst ∈ roster) (hsrc : src ∈ roster) :
    Delivers src dst ((RelayOverlay.build roster k).route src dst n) ↔
      Arrives (dist dst) ((RelayOverlay.build roster k).hop dst) n src := by
  by_cases hne : src = dst
  · rw [hne]
    refine iff_of_true ?_ (arrives_of_eq (dist_self dst) n)
    have hempty : (RelayOverlay.build roster k).route dst dst n = [] := by
      unfold RelayOverlay.route
      cases n with
      | zero => rfl
      | succ n => exact if_pos rfl
    rw [hempty]
    exact delivers_nil
  · obtain ⟨hgo, hfail⟩ := @routeFrom_spec roster [] k dst src n hnodup hk hdst hsrc hne
    constructor
    · intro hdelivers
      by_contra hnot
      rw [RelayOverlay.route, hfail hnot] at hdelivers
      exact hne (Option.some.inj hdelivers.arrives)
    · intro harr
      obtain ⟨p, hp, hdelivers⟩ := hgo harr
      rw [RelayOverlay.route, hp]
      exact hdelivers

/-- From `src` to `dst` in `n` relays. -/
inductive Relayed (roster : List NodeId) (k : ℕ) (dst : NodeId) : ℕ → NodeId → Prop
  | arrived : Relayed roster k dst 0 dst
  | relay {n : ℕ} {src next : NodeId} (h : Relay roster k dst src next) (hrest : Relayed roster k dst n next) :
      Relayed roster k dst (n + 1) src

theorem arrives_relayed (hnodup : roster.Nodup) (hk : k ≠ 0) (hdst : dst ∈ roster) (hcur : cur ∈ roster) :
    Arrives (dist dst) ((RelayOverlay.build roster k).hop dst) n cur ↔ ∃ c ≤ n, Relayed roster k.toNat dst c cur := by
  induction n generalizing cur with
  | zero =>
    constructor
    · intro hzero
      cases dist_eq_zero.mp hzero
      exact ⟨0, Nat.le_refl 0, .arrived⟩
    · rintro ⟨c, hc, hrelayed⟩
      cases hrelayed with
      | arrived => exact dist_self dst
      | relay h hrest => omega
  | succ n ih =>
    by_cases hne : cur = dst
    · rw [hne]
      exact iff_of_true (.inl (dist_self dst)) ⟨0, Nat.zero_le _, .arrived⟩
    · obtain ⟨m, hm, hrelay, -⟩ := nextHop_overlay hnodup hk hcur hdst hne
      have hmem : m ∈ roster := mem_toFinset.mp (Finset.mem_filter.mp hrelay.mem).1
      have hnext : (RelayOverlay.build roster k).hop dst cur = m := by
        rw [RelayOverlay.hop, hm]
        rfl
      rw [Arrives, hnext, ih hmem, or_iff_right fun hzero => hne (dist_eq_zero.mp hzero)]
      constructor
      · rintro ⟨c, hc, hrelayed⟩
        exact ⟨c + 1, Nat.succ_le_succ hc, .relay hrelay hrelayed⟩
      · rintro ⟨c, hc, hrelayed⟩
        cases hrelayed with
        | arrived => exact absurd rfl hne
        | relay h hrest =>
          cases hrelay.unique h
          exact ⟨_, Nat.le_of_succ_le_succ hc, hrest⟩

/-- With so few members, or so large buckets, every walk arrives within `n` hops. -/
theorem arrives_within (hnodup : roster.Nodup) (hk : k ≠ 0) (hdst : dst ∈ roster) (hsrc : src ∈ roster)
    (h : roster.length ≤ k.toNat * n + 1 ∨ 64 ≤ n + Nat.clog 2 k.toNat) :
    Arrives (dist dst) ((RelayOverlay.build roster k).hop dst) n src := by
  have hstep : ∀ a, a ∈ roster → dist dst a ≠ 0 → (RelayOverlay.build roster k).hop dst a ∈ roster ∧
      Hop (roster.toFinset.image (dist dst)) k.toNat (dist dst a)
      (dist dst ((RelayOverlay.build roster k).hop dst a)) :=
    fun a ha hne => hop_overlay hnodup hk hdst ha hne
  have htarget : 0 ∈ roster.toFinset.image (dist dst) :=
    Finset.mem_image.mpr ⟨dst, mem_toFinset.mpr hdst, dist_self dst⟩
  by_cases hzero : dist dst src = 0
  · exact arrives_of_eq hzero n
  · obtain hfew | hlarge := h
    · refine arrives_of_card hstep htarget hsrc ?_
      have hsub : (roster.toFinset.image (dist dst)).filter (· < 2 ^ (dist dst src).log2) ⊂
          roster.toFinset.image (dist dst) := by
        refine Finset.filter_ssubset.mpr ⟨dist dst src, Finset.mem_image.mpr ⟨src, mem_toFinset.mpr hsrc, rfl⟩, ?_⟩
        exact not_lt.mpr (Nat.log2_self_le hzero)
      have hcard := (Finset.card_lt_card hsub).trans_le Finset.card_image_le
      rw [toFinset_card_of_nodup hnodup] at hcard
      omega
    · have hk' : 1 ≤ k.toNat := Nat.one_le_iff_ne_zero.mpr fun heq => hk (UInt32.toNat_inj.mp heq)
      have hhalf : 2 ^ Nat.clog 2 k.toNat < 2 * k.toNat := by
        by_cases hone : k.toNat = 1
        · rw [hone]
          decide
        · have hlow := Nat.pow_pred_clog_lt_self (b := 2) (by decide) (show 1 < k.toNat by omega)
          have hpos := Nat.clog_pos (b := 2) (by decide) (show 1 < k.toNat by omega)
          rw [← Nat.succ_pred_eq_of_pos hpos, pow_succ]
          omega
      have hsmall : Nat.clog 2 k.toNat ≤ 32 := Nat.clog_le_of_le_pow (UInt32.toNat_lt k).le
      refine Arrives.mono (arrives_of_bits (n := 62 - Nat.clog 2 k.toNat) hstep hhalf hsrc ?_) (by omega)
      have hexp : Nat.clog 2 k.toNat + 2 + (62 - Nat.clog 2 k.toNat) = 64 := by omega
      rw [hexp]
      exact dist_lt dst src

end

section

variable {K c e m x d : ℕ}

/-- Where the walk that is hardest for buckets of `K` stands after `m` hops. -/
def stone (K : ℕ) : ℕ → ℕ
  | 0 => 2 ^ 64 - 1
  | m + 1 => 2 ^ (63 - m) - K

/-- The `K` members that hide the target after `m` hops. -/
def crowd (K m : ℕ) : Finset ℕ := Finset.Ico (2 ^ (63 - m) - K) (2 ^ (63 - m))

def stones (K c : ℕ) : Finset ℕ := insert 0 (insert (2 ^ 64 - 1) ((Finset.range c).biUnion (crowd K)))

theorem stones_card : (stones K c).card ≤ K * c + 2 := by
  have hcrowds : ((Finset.range c).biUnion (crowd K)).card ≤ (Finset.range c).card * K :=
    Finset.card_biUnion_le_card_mul _ _ _ fun m _ => by
      rw [crowd, Nat.card_Ico]
      omega
  rw [Finset.card_range, mul_comm] at hcrowds
  have hsrc := Finset.card_insert_le (2 ^ 64 - 1) ((Finset.range c).biUnion (crowd K))
  have hdst := Finset.card_insert_le 0 (insert (2 ^ 64 - 1) ((Finset.range c).biUnion (crowd K)))
  rw [stones]
  omega

theorem stone_succ_mem (hK : 1 ≤ K) : stone K (m + 1) ∈ crowd K m := by
  have hpos := Nat.two_pow_pos (63 - m)
  refine Finset.mem_Ico.mpr ⟨le_rfl, ?_⟩
  rw [stone]
  omega

theorem stones_lt (h : x ∈ stones K c) : x < 2 ^ 64 := by
  rcases Finset.mem_insert.mp h with rfl | h
  · decide
  · rcases Finset.mem_insert.mp h with rfl | h
    · decide
    · obtain ⟨m, -, hx⟩ := Finset.mem_biUnion.mp h
      have hpow : 2 ^ (63 - m) ≤ 2 ^ 64 := Nat.pow_le_pow_right (by decide) (by omega)
      exact (Finset.mem_Ico.mp hx).2.trans_le hpow

theorem stone_mem (hK : 1 ≤ K) (hm : m ≤ c) : stone K m ∈ stones K c := by
  cases m with
  | zero => exact Finset.mem_insert_of_mem (Finset.mem_insert_self _ _)
  | succ m =>
    refine Finset.mem_insert_of_mem (Finset.mem_insert_of_mem (Finset.mem_biUnion.mpr ⟨m, ?_, stone_succ_mem hK⟩))
    exact Finset.mem_range.mpr hm

theorem stone_bounds (he : m + e = 62) (hK : 1 ≤ K ∧ K ≤ 2 ^ e) : 3 * 2 ^ e ≤ stone K m ∧ stone K m < 4 * 2 ^ e := by
  have hpos := Nat.two_pow_pos e
  cases m with
  | zero =>
    have heq : e = 62 := by omega
    rw [stone, heq]
    decide
  | succ m =>
    have hexp : 63 - m = e + 2 := by omega
    rw [stone, hexp, pow_add]
    omega

theorem stone_log2 (he : m + e = 62) (hK : 1 ≤ K ∧ K ≤ 2 ^ e) : (stone K m).log2 = e + 1 := by
  obtain ⟨hlow, hhigh⟩ := stone_bounds he hK
  have hpos := Nat.two_pow_pos e
  refine (Nat.log2_eq_iff (by omega)).mpr ⟨?_, ?_⟩
  · rw [pow_succ]
    omega
  · rw [pow_succ, pow_succ]
    omega

theorem crowd_bounds (he : m + e = 62) (hK : 1 ≤ K ∧ K ≤ 2 ^ e) (hx : x ∈ crowd K m) : 2 ^ e ≤ x ∧ x < 2 * 2 ^ e := by
  have hexp : 63 - m = e + 1 := by omega
  obtain ⟨hlow, hhigh⟩ := Finset.mem_Ico.mp hx
  rw [hexp, pow_succ] at hlow hhigh
  omega

theorem beyond_crowd (he : m + e = 62) (hK : 1 ≤ K ∧ K ≤ 2 ^ e) (hx : x ∈ stones K c) (hlt : x < 2 * 2 ^ e)
    (hout : x ∉ crowd K m) : x < 2 ^ e := by
  have hpos := Nat.two_pow_pos e
  rcases Finset.mem_insert.mp hx with rfl | hx
  · exact hpos
  · rcases Finset.mem_insert.mp hx with rfl | hx
    · have hpow : 2 ^ e ≤ 2 ^ 62 := Nat.pow_le_pow_right (by decide) (by omega)
      omega
    · obtain ⟨j, -, hj⟩ := Finset.mem_biUnion.mp hx
      obtain ⟨hlow, hhigh⟩ := Finset.mem_Ico.mp hj
      obtain hless | rfl | hmore := Nat.lt_trichotomy j m
      · have hpow : 2 ^ (e + 2) ≤ 2 ^ (63 - j) := Nat.pow_le_pow_right (by decide) (by omega)
        rw [pow_add] at hpow
        omega
      · exact absurd hj hout
      · exact hhigh.trans_le (Nat.pow_le_pow_right (by decide) (by omega))

theorem crowd_nearer (he : m + e = 62) (hK : 1 ≤ K ∧ K ≤ 2 ^ e) (hx : x ∈ crowd K m) (hd : d < 2 ^ e) :
    x ^^^ stone K m < d ^^^ stone K m := by
  have hpos := Nat.two_pow_pos e
  obtain ⟨hlow, hhigh⟩ := crowd_bounds he hK hx
  obtain ⟨hslow, hshigh⟩ := stone_bounds he hK
  have hstone : stone K m / 2 ^ e = 3 := Nat.div_eq_of_lt_le hslow (by omega)
  have hhead : x / 2 ^ e = 1 := Nat.div_eq_of_lt_le (by omega) (by omega)
  have hleft : (x ^^^ stone K m) / 2 ^ e = 2 := by
    rw [Nat.xor_div_two_pow, hstone, hhead]
    decide
  have hright : (d ^^^ stone K m) / 2 ^ e = 3 := by
    rw [Nat.xor_div_two_pow, hstone, Nat.div_eq_of_lt hd]
    decide
  exact Nat.lt_of_div_lt_div (by rw [hleft, hright]; decide)

end

section

variable {K c e m : ℕ}

noncomputable def hardRoster (K c : ℕ) : List NodeId := ((stones K c).image UInt64.ofNat).toList

theorem dist_ofNat {x : ℕ} (hx : x < 2 ^ 64) : dist 0 (UInt64.ofNat x) = x := by
  rw [dist, xorDistance, UInt64.xor_zero]
  exact UInt64.toNat_ofNat_of_lt' hx

theorem mem_hardRoster {n : NodeId} : n ∈ hardRoster K c ↔ dist 0 n ∈ stones K c := by
  rw [hardRoster, Finset.mem_toList, Finset.mem_image]
  constructor
  · rintro ⟨x, hx, rfl⟩
    rw [dist_ofNat (stones_lt hx)]
    exact hx
  · intro hn
    exact ⟨dist 0 n, hn, dist_inj.mp (dist_ofNat (dist_lt 0 n))⟩

theorem hardRoster_nodup : (hardRoster K c).Nodup := Finset.nodup_toList _

theorem hardRoster_length : (hardRoster K c).length ≤ K * c + 2 := by
  rw [hardRoster, Finset.length_toList]
  exact Finset.card_image_le.trans stones_card

theorem dist_stone (hK : 1 ≤ K) : dist 0 (UInt64.ofNat (stone K m)) = stone K m :=
    dist_ofNat (stones_lt (stone_mem hK (Nat.le_refl m)))

theorem relay_stone (he : m + e = 62) (hK : 1 ≤ K ∧ K ≤ 2 ^ e) (hm : m < c) :
    Relay (hardRoster K c) K 0 (UInt64.ofNat (stone K m)) (UInt64.ofNat (stone K (m + 1))) := by
  have hside : 2 ^ (dist 0 (UInt64.ofNat (stone K m))).log2 = 2 * 2 ^ e := by
    rw [dist_stone hK.1, stone_log2 he hK, pow_succ, mul_comm]
  have hbeyond : ∀ x, x ∈ beyond (hardRoster K c) 0 (UInt64.ofNat (stone K m)) ↔
      dist 0 x ∈ stones K c ∧ dist 0 x < 2 * 2 ^ e := by
    intro x
    rw [beyond, Finset.mem_filter, List.mem_toFinset, mem_hardRoster, hside]
  have hfrom : ∀ x, dist (UInt64.ofNat (stone K m)) x = dist 0 x ^^^ stone K m := by
    intro x
    have hxor := dist_xor 0 x (UInt64.ofNat (stone K m))
    rw [dist_stone hK.1] at hxor
    exact hxor
  have hnext : stone K (m + 1) ∈ crowd K m := stone_succ_mem hK.1
  have hmine : ∀ x ∈ crowd K m, UInt64.ofNat x ∈ beyond (hardRoster K c) 0 (UInt64.ofNat (stone K m)) := by
    intro x hx
    have hin : x ∈ stones K c := Finset.mem_insert_of_mem (Finset.mem_insert_of_mem
      (Finset.mem_biUnion.mpr ⟨m, Finset.mem_range.mpr hm, hx⟩))
    rw [hbeyond, dist_ofNat (stones_lt hin)]
    exact ⟨hin, (crowd_bounds he hK hx).2⟩
  have hcard : (crowd K m).card = K := by
    have hexp : 63 - m = e + 1 := by omega
    rw [crowd, Nat.card_Ico, hexp, pow_succ]
    omega
  refine ⟨hmine _ hnext, ?_, fun x hx hfew => ?_⟩
  · have hsub : ((beyond (hardRoster K c) 0 (UInt64.ofNat (stone K m))).filter fun x =>
        dist (UInt64.ofNat (stone K m)) x < dist (UInt64.ofNat (stone K m)) (UInt64.ofNat (stone K (m + 1)))).image
          (dist 0) ⊂ crowd K m := by
      refine (Finset.ssubset_iff_of_subset fun y hy => ?_).mpr ⟨stone K (m + 1), hnext, fun hin => ?_⟩
      · obtain ⟨x, hx, rfl⟩ := Finset.mem_image.mp hy
        obtain ⟨hx, hless⟩ := Finset.mem_filter.mp hx
        obtain ⟨hin, hlt⟩ := (hbeyond x).mp hx
        by_contra hout
        have hmore := crowd_nearer he hK hnext (beyond_crowd he hK hin hlt hout)
        rw [hfrom, hfrom, dist_stone hK.1] at hless
        omega
      · obtain ⟨x, hx, heq⟩ := Finset.mem_image.mp hin
        have hless := (Finset.mem_filter.mp hx).2
        rw [hfrom, hfrom, dist_stone hK.1, heq] at hless
        exact lt_irrefl _ hless
    have hlt := Finset.card_lt_card hsub
    rw [Finset.card_image_of_injective _ fun _ _ heq => dist_inj.mp heq, hcard] at hlt
    exact hlt
  · rw [dist_stone hK.1]
    obtain ⟨hin, hlt⟩ := (hbeyond x).mp hx
    by_cases hcrowd : dist 0 x ∈ crowd K m
    · exact (Finset.mem_Ico.mp hcrowd).1
    · have hlow := beyond_crowd he hK hin hlt hcrowd
      have hsub : (crowd K m).image UInt64.ofNat ⊆
        (beyond (hardRoster K c) 0 (UInt64.ofNat (stone K m))).filter fun y =>
          dist (UInt64.ofNat (stone K m)) y < dist (UInt64.ofNat (stone K m)) x := by
        intro y hy
        obtain ⟨z, hz, rfl⟩ := Finset.mem_image.mp hy
        refine Finset.mem_filter.mpr ⟨hmine z hz, ?_⟩
        rw [hfrom, hfrom, dist_ofNat ((crowd_bounds he hK hz).2.trans_le ?_)]
        · exact crowd_nearer he hK hz hlow
        · have hpow : 2 ^ e ≤ 2 ^ 62 := Nat.pow_le_pow_right (by decide) (by omega)
          omega
      have hle := Finset.card_le_card hsub
      rw [Finset.card_image_of_injOn ?_, hcard] at hle
      · exact absurd hfew (not_lt.mpr hle)
      · intro y hy z hz heq
        have hpow : 2 ^ e ≤ 2 ^ 62 := Nat.pow_le_pow_right (by decide) (by omega)
        have hy := (crowd_bounds he hK hy).2
        have hz := (crowd_bounds he hK hz).2
        rw [← @dist_ofNat y (by omega), ← @dist_ofNat z (by omega), heq]

theorem stone_pos (hK : 1 ≤ K) (hc : m + Nat.clog 2 K ≤ 63) : 0 < stone K m := by
  cases m with
  | zero =>
    rw [stone]
    decide
  | succ m =>
    have hpow : 2 ^ (Nat.clog 2 K + 1) ≤ 2 ^ (63 - m) := Nat.pow_le_pow_right (by decide) (by omega)
    have hle := Nat.le_pow_clog (b := 2) (by decide) K
    rw [pow_succ] at hpow
    rw [stone]
    omega

theorem relayed_stone (hK : 1 ≤ K) (hc : c + Nat.clog 2 K ≤ 63) {j n : ℕ} (hj : j + m = c)
    (h : Relayed (hardRoster K c) K 0 n (UInt64.ofNat (stone K m))) : j < n := by
  have hpos : UInt64.ofNat (stone K m) ≠ 0 := by
    intro heq
    have hzero := dist_eq_zero.mpr heq
    rw [dist_stone hK] at hzero
    exact Nat.ne_of_gt (stone_pos hK (by omega)) hzero
  induction j generalizing m n with
  | zero =>
    generalize UInt64.ofNat (stone K m) = src at h hpos
    cases h with
    | arrived => exact absurd rfl hpos
    | relay h hrest => exact Nat.succ_pos _
  | succ j ih =>
    obtain ⟨e, he⟩ : ∃ e, m + e = 62 := ⟨62 - m, by omega⟩
    have hK' : K ≤ 2 ^ e := (Nat.le_pow_clog (by decide) K).trans (Nat.pow_le_pow_right (by decide) (by omega))
    have hstone := @relay_stone K c e m he ⟨hK, hK'⟩ (by omega)
    generalize UInt64.ofNat (stone K m) = src at h hpos hstone
    cases h with
    | arrived => exact absurd rfl hpos
    | relay h hrest =>
      cases dist_inj.mp (le_antisymm (h.nearest _ hstone.mem hstone.near) (hstone.nearest _ h.mem h.near))
      refine Nat.succ_lt_succ (@ih (m + 1) _ (by omega) hrest fun heq => ?_)
      have hzero := dist_eq_zero.mpr heq
      rw [dist_stone hK] at hzero
      exact Nat.ne_of_gt (stone_pos hK (by omega)) hzero

end

/-- With the default cap every pair of every roster is served just if the cap covers the roster `k` members at a time,
or the buckets leave that few bits. One pair is served just if the cap covers the relays between them. -/
theorem relay_delivers (maxNodes : UInt64) (k : UInt32) (hk : k ≠ 0) :
    ((∀ roster : List NodeId, roster.Nodup → roster.length ≤ maxNodes.toNat → ∀ src ∈ roster, ∀ dst ∈ roster,
      Delivers src dst ((RelayOverlay.build roster k).route src dst
        ({ maxNodes } : ClusterTopologyConfig).effectiveRelayCap)) ↔
      maxNodes.toNat ≤ k.toNat * Nat.clog 2 (max maxNodes.toNat 2) + 1 ∨
        64 ≤ Nat.clog 2 (max maxNodes.toNat 2) + Nat.clog 2 k.toNat) ∧
    ∀ roster : List NodeId, roster.Nodup → ∀ src ∈ roster, ∀ dst ∈ roster, ∀ n,
      (Delivers src dst ((RelayOverlay.build roster k).route src dst n) ↔
      ∃ c ≤ n, Relayed roster k.toNat dst c src) := by
  rw [effectiveRelayCap_default]
  generalize hcap : Nat.clog 2 (max maxNodes.toNat 2) = cap
  have hpos : 1 ≤ k.toNat := Nat.one_le_iff_ne_zero.mpr fun heq => hk (UInt32.toNat_inj.mp heq)
  have hpair : ∀ roster : List NodeId, roster.Nodup → ∀ src ∈ roster, ∀ dst ∈ roster, ∀ n,
      (Delivers src dst ((RelayOverlay.build roster k).route src dst n) ↔
      ∃ c ≤ n, Relayed roster k.toNat dst c src) :=
    fun roster hnodup src hsrc dst hdst n =>
      (route_delivers hnodup hk hdst hsrc).trans (arrives_relayed hnodup hk hdst hsrc)
  refine ⟨⟨fun hall => ?_, fun hcond roster hnodup hlen src hsrc dst hdst => ?_⟩, hpair⟩
  · by_contra hnot
    obtain ⟨hmany, hbits⟩ := not_or.mp hnot
    have hsrc : UInt64.ofNat (stone k.toNat 0) ∈ hardRoster k.toNat cap := by
      rw [mem_hardRoster, dist_stone hpos]
      exact stone_mem hpos (Nat.zero_le _)
    have hdst : (0 : NodeId) ∈ hardRoster k.toNat cap := by
      rw [mem_hardRoster, dist_self]
      exact Finset.mem_insert_self _ _
    have hdelivers := hall _ hardRoster_nodup (hardRoster_length.trans (by omega)) _ hsrc 0 hdst
    obtain ⟨c, hc, hrelayed⟩ := (hpair _ hardRoster_nodup _ hsrc 0 hdst cap).mp hdelivers
    exact absurd (relayed_stone hpos (by omega) (add_zero cap) hrelayed) (not_lt.mpr hc)
  · exact (route_delivers hnodup hk hdst hsrc).mpr
      (arrives_within hnodup hk hdst hsrc (hcond.imp_left fun hfew => hlen.trans hfew))

theorem relay_delivers_three : Delivers 8 15 ((RelayOverlay.build [8, 12, 15] 1).route 8 15
    ({ maxNodes := 3 } : ClusterTopologyConfig).effectiveRelayCap) :=
  (relay_delivers 3 1 (by decide)).1.mpr (.inl (by decide)) [8, 12, 15] (by decide) (by decide) 8
    (by decide) 15 (by decide)

/-- Four members in a chain of prefixes are three hops apart, and the cap of a cluster of four is two. -/
theorem relay_cap_exceeded : (RelayOverlay.build [8, 12, 14, 15] 1).route 8 15
      ({ maxNodes := 4 } : ClusterTopologyConfig).effectiveRelayCap = [] ∧
    ¬ Delivers 8 15 ((RelayOverlay.build [8, 12, 14, 15] 1).route 8 15
      ({ maxNodes := 4 } : ClusterTopologyConfig).effectiveRelayCap) := by
  have hempty : (RelayOverlay.build [8, 12, 14, 15] 1).route 8 15
      ({ maxNodes := 4 } : ClusterTopologyConfig).effectiveRelayCap = [] := by decide +kernel
  rw [hempty]
  exact ⟨rfl, fun h => absurd h.arrives (by decide)⟩

end Quark.Topology
