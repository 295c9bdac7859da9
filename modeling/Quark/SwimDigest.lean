import Quark.SwimBooks

/-! What `fill_digest` puts into a frame. -/
namespace Quark.Swim

open List SwimMembership

variable {cfg : Config} {s : SwimMembership} {to_ node id : NodeId} {m : Member}
variable {acc : SwimMembership × List MemberUpdate} {suspects : Bool} {cap fixed : Nat}

section Prefix

theorem prefix_foldl {E : Type} {f : SwimMembership × List MemberUpdate → E → SwimMembership × List MemberUpdate}
    {es : List E} (hf : ∀ acc e, acc.2 <+: (f acc e).2) : acc.2 <+: (es.foldl f acc).2 :=
  List.foldlRecOn (motive := fun acc' => acc.2 <+: acc'.2) es f (prefix_refl _)
    fun acc' h e _ => h.trans (hf acc' e)

theorem prefix_digestPush : acc.2 <+: (digestPush acc node m).2 := ⟨_, rfl⟩

theorem prefix_digestPass : acc.2 <+: (digestPass to_ suspects cap acc).2 := by
  unfold digestPass
  split
  · exact prefix_refl _
  · apply prefix_foldl
    intro acc e
    split
    · exact prefix_refl _
    · exact prefix_digestPush

theorem prefix_digestRotate (acc : SwimMembership × List MemberUpdate) :
    acc.2 <+: (digestRotate to_ cap fixed acc).2 := by
  unfold digestRotate
  apply prefix_foldl
  intro acc id
  dsimp only
  split
  · exact prefix_refl _
  · split
    · exact prefix_refl _
    · split
      · exact ⟨_, rfl⟩
      · exact prefix_refl _

theorem prefix_digestTail : acc.2 <+: (digestTail cfg to_ acc).2 := by
  unfold digestTail
  dsimp only
  generalize min (acc.1.members.size - acc.2.length) _ = reserved
  have hpassed : acc.2 <+: (digestPass to_ false (cfg.maxGossipUpdates - reserved)
      (digestPass to_ true (cfg.maxGossipUpdates - reserved) acc)).2 :=
    prefix_digestPass.trans prefix_digestPass
  generalize digestPass to_ false (cfg.maxGossipUpdates - reserved)
    (digestPass to_ true (cfg.maxGossipUpdates - reserved) acc) = passed at *
  split
  · exact hpassed
  · exact hpassed.trans (prefix_digestRotate (passed.1.refreshSortedIds, passed.2))

end Prefix

def SwimMembership.receiver (s : SwimMembership) (to_ : NodeId) : Option Member :=
  if to_ = s.self_ then none else s.members.lookup to_

theorem digestHead_updates (hcap : 2 ≤ cfg.maxGossipUpdates) (hown : s.members.lookup s.self_ = some m) :
    (s.digestHead cfg to_).2 = ((s.receiver to_).toList.map fun r => ⟨to_, r.incarnation, r.status.code⟩) ++
      [⟨s.self_, m.incarnation, m.status.code⟩] := by
  unfold digestHead receiver
  by_cases hself : to_ = s.self_
  · rw [if_pos hself]
    dsimp only
    rw [if_pos (by rw [length_nil]; omega), hown]
    rfl
  · rw [if_neg hself]
    cases hto : s.members.lookup to_ with
    | none =>
      dsimp only
      rw [if_pos (by rw [length_nil]; omega), hown]
      rfl
    | some r =>
      have hkept : (digestPush (s, []) to_ r).1.members.lookup s.self_ = some m :=
        (lookup_digestPush (Ne.symm hself)).trans hown
      dsimp only
      rw [if_pos (show (digestPush (s, []) to_ r).2.length < _ by
        rw [digestPush]; exact hcap), hkept]
      rfl

theorem own_in_digest (to_ : NodeId) (hcap : 2 ≤ cfg.maxGossipUpdates) (hown : s.members.lookup s.self_ = some m) :
    ⟨s.self_, m.incarnation, m.status.code⟩ ∈ (s.fillDigest cfg to_).2 := by
  have hhead : ⟨s.self_, m.incarnation, m.status.code⟩ ∈ (s.digestHead cfg to_).2 := by
    rw [digestHead_updates hcap hown]
    exact mem_append_right _ (mem_singleton.mpr rfl)
  unfold fillDigest
  rw [if_neg (by omega)]
  exact prefix_digestTail.subset hhead

end Quark.Swim
