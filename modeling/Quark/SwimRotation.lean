import Quark.Lib.RoundRobin
import Quark.SwimDigest

/-! The rotation of `fill_digest`: whom it walks, and that it comes round. -/
namespace Quark.Swim

open Machine SwimMembership

namespace SwimMembership

variable (s : SwimMembership)

def rota : NodeId × List NodeId × Bool × UInt64 := (s.self_, s.sortedIds, s.idsDirty, s.digestCursor)

/-- Up to ourselves, `ids` are the live verified members. -/
def Lists (ids : List NodeId) : Prop := ∀ id, id ≠ s.self_ → (id ∈ ids ↔ s.shows id = true)

/-- Those that the rotation walks next, in order. -/
def due : List NodeId := RoundRobin.turn s.digestCursor (s.refreshSortedIds.sortedIds.filter fun id => id != s.self_)

/-- The sorted ids are up to date, or due to be rebuilt. -/
structure Rostered : Prop where
  sorted : s.sortedIds.Pairwise (· < ·)
  lists : s.idsDirty = true ∨ s.Lists s.sortedIds

end SwimMembership

variable {cfg : Config} {env : Env} {may : Act → Prop} {s s' : SwimMembership} {to_ node id x y : NodeId} {m : Member}
variable {acc : SwimMembership × List MemberUpdate} {suspects : Bool} {cap fixed : Nat}
  {ids before after : List NodeId}
variable {l l' : Ledger}

section Roster

theorem refreshed_ids : s.refreshSortedIds.idsDirty = false ∧ s.refreshSortedIds.members = s.members ∧
    s.refreshSortedIds.self_ = s.self_ ∧ s.refreshSortedIds.digestCursor = s.digestCursor := by
  unfold refreshSortedIds
  cases hdirty : s.idsDirty with
  | true => exact ⟨rfl, rfl, rfl, rfl⟩
  | false => exact ⟨hdirty, rfl, rfl, rfl⟩

theorem lists_fresh :
    s.Lists (sortIds ((s.live.filter fun e => e.2.verified || e.1 == s.self_).map Sigma.fst)) := by
  intro id hother
  have hshown : s.ledger.entry id = (s.members.lookup id).map Member.record := rfl
  rw [listed_refresh.2 id, hshown, Option.any_map, shows]
  cases s.members.lookup id with
  | none => rfl
  | some m =>
    have hme : (id == s.ledger.me) = false := beq_eq_false_iff_ne.mpr hother
    simp only [Option.any_some, hme, Bool.or_false, Member.placeable, Bool.and_comm]
    rfl

namespace SwimMembership.Rostered

theorem refreshed (h : s.Rostered) : s.refreshSortedIds.sortedIds.Pairwise (· < ·) ∧
    s.Lists s.refreshSortedIds.sortedIds := by
  unfold refreshSortedIds
  cases hdirty : s.idsDirty with
  | true => exact ⟨listed_refresh.1, lists_fresh⟩
  | false => exact ⟨h.sorted, h.lists.resolve_left (by rw [hdirty]; exact nofun)⟩

theorem mem_due (h : s.Rostered) : id ∈ s.due ↔ id ≠ s.self_ ∧ s.shows id = true := by
  rw [due, RoundRobin.mem_turn, List.mem_filter, bne_iff_ne, and_comm]
  exact and_congr_right fun hother => h.refreshed.2 id hother

theorem rotated_filter (h : s.Rostered) :
    s.refreshSortedIds.rotated.filter (fun id => id != s.self_) = s.due := by
  rw [due, ← RoundRobin.filter_turn, ← RoundRobin.drop_append_take h.refreshed.1, rotated,
    refreshed_ids.2.2.2]

theorem nodup_due (h : s.Rostered) : s.due.Nodup :=
  RoundRobin.turn_perm.nodup_iff.mpr ((h.refreshed.1.filter _).imp fun hlt => UInt64.ne_of_lt hlt)

theorem kept (h : s.Rostered) (hself : s'.self_ = s.self_) (hcursor : s'.digestCursor = s.digestCursor)
    (hshows : ∀ id, id ≠ s.self_ → s'.shows id = s.shows id) (h' : s'.Rostered) : s'.due = s.due := by
  have hsame : (s'.refreshSortedIds.sortedIds.filter fun id => id != s.self_) =
      s.refreshSortedIds.sortedIds.filter fun id => id != s.self_ := by
    refine List.Pairwise.eq_of_mem_iff (h'.refreshed.1.filter _) (h.refreshed.1.filter _) fun id => ?_
    rw [List.mem_filter, List.mem_filter, bne_iff_ne]
    refine and_congr_left fun hother => ?_
    rw [h'.refreshed.2 id (by rw [hself]; exact hother), h.refreshed.2 id hother, hshows id hother]
  rw [due, due, hcursor, hself, hsame]

theorem moved (h : s.Rostered) (hrota : s'.rota = s.rota) (hshows : ∀ id, id ≠ s.self_ → s'.shows id = s.shows id) :
    s'.Rostered := by
  obtain ⟨hself, hrest⟩ := Prod.mk.inj hrota
  obtain ⟨hids, hrest⟩ := Prod.mk.inj hrest
  refine ⟨by rw [hids]; exact h.sorted, ?_⟩
  rw [hids, show s'.idsDirty = s.idsDirty from (Prod.mk.inj hrest).1]
  refine h.lists.imp_right fun hlists id hother => ?_
  rw [hself] at hother
  rw [hshows id hother]
  exact hlists id hother

end SwimMembership.Rostered

end Roster

section Digest

theorem rota_digestPush : (digestPush acc node m).1.rota = acc.1.rota := by
  unfold digestPush
  dsimp only
  split <;> rfl

theorem rota_digestPass : (digestPass to_ suspects cap acc).1.rota = acc.1.rota := by
  unfold digestPass
  split
  · rfl
  · refine List.foldlRecOn (motive := fun acc' : SwimMembership × List MemberUpdate => acc'.1.rota =
      acc.1.rota) _ _ rfl
      fun acc' h e _ => ?_
    split
    · exact h
    · exact rota_digestPush.trans h

theorem rota_digestHead : (s.digestHead cfg to_).1.rota = s.rota := by
  unfold digestHead
  dsimp only
  split
  · split
    · exact rota_digestPush
    · rfl
  · split
    · exact rota_digestPush.trans rota_digestPush
    · exact rota_digestPush

theorem room_digestPass (h : acc.2.length ≤ cap) : (digestPass to_ suspects cap acc).2.length ≤ cap := by
  unfold digestPass
  split
  · exact h
  · refine List.foldlRecOn (motive := fun acc' : SwimMembership × List MemberUpdate => acc'.2.length ≤ cap) _ _ h
      fun acc' h e _ => ?_
    split
    · exact h
    · next htake =>
      have hroom : acc'.2.length < cap := Nat.lt_of_not_le fun hfull => htake (.inl hfull)
      simp only [digestPush, List.length_append, List.length_singleton]
      exact hroom

theorem rotateStep_cases (to_ : NodeId) (cap fixed : Nat) (acc : SwimMembership × List MemberUpdate) (id : NodeId) :
    rotateStep to_ cap fixed acc id = acc ∨ id ≠ acc.1.self_ ∧
      ∃ u, rotateStep to_ cap fixed acc id = ({ acc.1 with digestCursor := id }, acc.2 ++ [u]) := by
  unfold rotateStep
  split
  · exact .inl rfl
  · next htake =>
    split
    · exact .inl rfl
    · split
      · exact .inr ⟨fun hself => htake (.inr (.inr (.inl hself))), _, rfl⟩
      · exact .inl rfl

theorem foldl_rotateStep_full (h : cap ≤ acc.2.length) : ids.foldl (rotateStep to_ cap fixed) acc = acc := by
  induction ids with
  | nil => rfl
  | cons id ids ih =>
    rw [List.foldl_cons, rotateStep, if_pos (.inl h)]
    exact ih

theorem prefix_rotateStep : acc.2 <+: (ids.foldl (rotateStep to_ cap fixed) acc).2 := by
  refine prefix_foldl fun acc id => ?_
  obtain hsame | ⟨-, u, hserved⟩ := rotateStep_cases to_ cap fixed acc id
  · rw [hsame]
  · rw [hserved]
    exact ⟨[u], rfl⟩

/-- A live verified member that is walked is served, or the one who was served last stands before it. -/
theorem rotate_serves (fixed : Nat) (before after : List NodeId) (acc : SwimMembership × List MemberUpdate)
    (hroom : acc.2.length < cap) (hto : x ≠ to_) (hself : x ≠ acc.1.self_)
    (hx : acc.1.members.lookup x = some m) (hverified : m.verified = true) :
    (∃ u ∈ ((before ++ x :: after).foldl (rotateStep to_ cap fixed) acc).2, u.node = x) ∨
    ∃ earlier y between, before = earlier ++ y :: between ∧ y ≠ acc.1.self_ ∧
      ((before ++ x :: after).foldl (rotateStep to_ cap fixed) acc).1 = { acc.1 with digestCursor := y } := by
  induction before generalizing acc with
  | nil =>
    refine .inl ?_
    rw [List.nil_append, List.foldl_cons]
    have hserved : ∃ u ∈ (rotateStep to_ cap fixed acc x).2, u.node = x := by
      unfold rotateStep
      split
      · next hskip =>
        obtain hfull | hreceiver | hown | hpresent := hskip
        · exact absurd hfull (not_le.mpr hroom)
        · exact absurd hreceiver hto
        · exact absurd hown hself
        · obtain ⟨u, hu, hnode⟩ := List.any_eq_true.mp hpresent
          exact ⟨u, List.mem_of_mem_drop hu, eq_of_beq hnode⟩
      · rw [hx]
        dsimp only
        rw [if_pos hverified]
        exact ⟨_, List.mem_append_right _ (List.mem_singleton.mpr rfl), rfl⟩
    obtain ⟨u, hu, hnode⟩ := hserved
    exact ⟨u, prefix_rotateStep.subset hu, hnode⟩
  | cons id before ih =>
    rw [List.cons_append, List.foldl_cons]
    obtain hsame | ⟨hother, u, hserved⟩ := rotateStep_cases to_ cap fixed acc id
    · rw [hsame]
      obtain hin | ⟨earlier, y, between, rfl, hy, hlast⟩ := ih acc hroom hself hx
      · exact .inl hin
      · exact .inr ⟨id :: earlier, y, between, rfl, hy, hlast⟩
    · rw [hserved]
      by_cases hfull : cap ≤ (acc.2 ++ [u]).length
      · rw [foldl_rotateStep_full hfull]
        exact .inr ⟨[], id, before, rfl, hother, rfl⟩
      · obtain hin | ⟨earlier, y, between, rfl, hy, hlast⟩ :=
          ih ({ acc.1 with digestCursor := id }, acc.2 ++ [u]) (not_le.mp hfull) hself hx
        · exact .inl hin
        · exact .inr ⟨id :: earlier, y, between, rfl, hy, hlast⟩

theorem rotate_cursor (to_ : NodeId) (cap fixed : Nat) (ids : List NodeId)
    (acc : SwimMembership × List MemberUpdate) :
    ∃ c, (ids.foldl (rotateStep to_ cap fixed) acc).1 = { acc.1 with digestCursor := c } := by
  refine List.foldlRecOn (motive := fun acc' : SwimMembership × List MemberUpdate =>
    ∃ c, acc'.1 = { acc.1 with digestCursor := c }) _ _ ⟨_, rfl⟩ fun acc' h id _ => ?_
  obtain ⟨c, hc⟩ := h
  obtain hsame | ⟨-, u, hserved⟩ := rotateStep_cases to_ cap fixed acc' id
  · rw [hsame]
    exact ⟨c, hc⟩
  · rw [hserved, hc]
    exact ⟨id, rfl⟩

theorem SwimMembership.Rostered.turned (h : s.Rostered) (c : UInt64) :
    ({ s.refreshSortedIds with digestCursor := c } : SwimMembership).Rostered := by
  refine ⟨h.refreshed.1, .inr fun id hother => ?_⟩
  have hlisted := h.refreshed.2 id (by rw [← refreshed_ids.2.2.1]; exact hother)
  rw [hlisted, shows, ← refreshed_ids.2.1]
  rfl

theorem due_turned (c : UInt64) : ({ s.refreshSortedIds with digestCursor := c } : SwimMembership).due =
    (RoundRobin.turn c s.refreshSortedIds.sortedIds).filter fun id => id != s.self_ := by
  have hclean : ({ s.refreshSortedIds with digestCursor := c } : SwimMembership).refreshSortedIds =
      { s.refreshSortedIds with digestCursor := c } := by
    conv_lhs => rw [refreshSortedIds]
    rw [if_neg]
    rw [refreshed_ids.1]
    exact Bool.false_ne_true
  rw [due, hclean, RoundRobin.filter_turn, refreshed_ids.2.2.1]

/-- A live verified member that is due is in the frame, or it is due sooner. -/
theorem rotate_sooner {out : List MemberUpdate} (h : s.Rostered) (hroom : out.length < cap) (hto : x ≠ to_)
    (hself : x ≠ s.self_) (hx : s.shows x = true) (hdue : s.due = before ++ x :: after) :
    (∃ u ∈ (digestRotate to_ cap fixed (s.refreshSortedIds, out)).2, u.node = x) ∨
    ∃ before' after', (digestRotate to_ cap fixed (s.refreshSortedIds, out)).1.due = before' ++ x :: after' ∧
      before'.length < before.length := by
  obtain ⟨m, hm, hplaceable⟩ := (Option.any_eq_true _ _).mp hx
  have hself' : x ≠ s.refreshSortedIds.self_ := by rw [refreshed_ids.2.2.1]; exact hself
  have hm' : s.refreshSortedIds.members.lookup x = some m := by rw [refreshed_ids.2.1]; exact hm
  rw [← h.rotated_filter] at hdue
  obtain ⟨low, high, hrotated, hlow, hhigh⟩ := List.filter_eq_append_iff.mp hdue
  obtain ⟨skipped, rest, rfl, hskipped, -, -⟩ := List.filter_eq_cons_iff.mp hhigh
  rw [← List.append_assoc] at hrotated
  rw [digestRotate_eq, hrotated]
  obtain hin | ⟨earlier, y, between, hbefore, hy, hlast⟩ := rotate_serves fixed (low ++ skipped) rest
    (s.refreshSortedIds, out) hroom hto hself' hm' (Bool.and_eq_true_iff.mp hplaceable).1
  · exact .inl hin
  · refine .inr ⟨between.filter fun id => id != s.self_, (rest ++ earlier ++ [y]).filter fun id =>
      id != s.self_, ?_, ?_⟩
    · have hturn : RoundRobin.turn s.refreshSortedIds.digestCursor s.refreshSortedIds.sortedIds =
          earlier ++ y :: (between ++ x :: rest) := by
        rw [← RoundRobin.drop_append_take h.refreshed.1]
        rw [hbefore, List.append_assoc, List.cons_append] at hrotated
        exact hrotated
      rw [hlast, due_turned, RoundRobin.turn_sooner h.refreshed.1 hturn, List.filter_append,
        List.filter_cons_of_pos (by simpa using hself)]
    · have hfiltered : before = (earlier ++ y :: between).filter fun id => id != s.self_ := by
        rw [← hbefore, List.filter_append, hlow, List.filter_eq_nil_iff.mpr hskipped, List.append_nil]
      rw [refreshed_ids.2.2.1] at hy
      rw [hfiltered, List.filter_append, List.filter_cons_of_pos (by simpa using hy), List.length_append,
        List.length_cons]
      omega

end Digest

section Frame

theorem shows_quiet (h : Quiet s s') (hother : id ≠ s.self_) : s'.shows id = s.shows id :=
  h.any (fun p => p.2.1 && !p.1.isTomb) hother

/-- What the passes leave for the rotation: room, where more nodes are known than the head of the frame names. -/
theorem fillDigest_passes (to_ : NodeId) (hcap : 3 ≤ cfg.maxGossipUpdates)
    (hown : s.members.lookup s.self_ = some m) : ∃ acc,
    Quiet s acc.1 ∧ acc.1.rota = s.rota ∧ (s.digestHead cfg to_).2 <+: acc.2 ∧
    ((s.digestHead cfg to_).2.length < (s.digestHead cfg to_).1.members.size → acc.2.length < cfg.maxGossipUpdates) ∧
    s.fillDigest cfg to_ = if cfg.maxGossipUpdates ≤ acc.2.length then acc
      else digestRotate to_ cfg.maxGossipUpdates (s.digestHead cfg to_).2.length
        (acc.1.refreshSortedIds, acc.2) := by
  have hhead : (s.digestHead cfg to_).2.length ≤ 2 := by
    rw [digestHead_updates (by omega) hown]
    cases s.receiver to_ <;> simp
  unfold fillDigest digestTail
  rw [if_neg (by omega)]
  dsimp only
  generalize hreserved : min ((s.digestHead cfg to_).1.members.size - (s.digestHead cfg to_).2.length)
    (if 2 < cfg.maxGossipUpdates then (cfg.maxGossipUpdates - 1) / 2 else 0) = reserved
  rw [if_pos (by omega)] at hreserved
  refine ⟨_, ?_, ?_, ?_, ?_, rfl⟩
  · exact (quiet_digestHead.trans quiet_digestPass).trans quiet_digestPass
  · exact (rota_digestPass.trans rota_digestPass).trans rota_digestHead
  · exact prefix_digestPass.trans prefix_digestPass
  · intro hmore
    have hroom : (s.digestHead cfg to_).2.length ≤ cfg.maxGossipUpdates - reserved := by omega
    exact lt_of_le_of_lt (room_digestPass (room_digestPass hroom)) (by omega)

theorem rostered_fillDigest (hcap : 3 ≤ cfg.maxGossipUpdates) (hown : s.members.lookup s.self_ = some m)
    (h : s.Rostered) : (s.fillDigest cfg to_).1.Rostered := by
  obtain ⟨acc, hquiet, hrota, -, -, hfilled⟩ := fillDigest_passes to_ hcap hown
  have hpassed : acc.1.Rostered := h.moved hrota fun id hother => shows_quiet hquiet hother
  rw [hfilled]
  split
  · exact hpassed
  · obtain ⟨c, hc⟩ := rotate_cursor to_ cfg.maxGossipUpdates (s.digestHead cfg to_).2.length
      acc.1.refreshSortedIds.rotated (acc.1.refreshSortedIds, acc.2)
    rw [digestRotate_eq, hc]
    exact hpassed.turned c

/-- The head of the frame names us and the receiver; whoever else is known makes room for the rotation. -/
theorem head_lt_size (hcap : 3 ≤ cfg.maxGossipUpdates) (hown : s.ledger.Owned) (hto : x ≠ to_) (hself : x ≠ s.self_)
    (hx : s.shows x = true) : (s.digestHead cfg to_).2.length < (s.digestHead cfg to_).1.members.size := by
  have hquiet : Quiet s (s.digestHead cfg to_).1 := quiet_digestHead
  have hknown : ∀ id, id ≠ s.self_ → (s.members.lookup id).isSome = true →
      ((s.digestHead cfg to_).1.members.lookup id).isSome = true := by
    intro id hother hid
    rw [← Option.isSome_map, hquiet.standing id hother, Option.isSome_map]
    exact hid
  have hus : ((s.digestHead cfg to_).1.members.lookup s.self_).isSome = true := by
    have hedits : Edits cfg (fun _ => True) s.ledger (s.digestHead cfg to_).1.ledger := digestHead_edits trivial
    obtain ⟨r, hr, -⟩ := (Effect.edits hedits).owned hown
    obtain ⟨m, hm, -⟩ := entry_ledger hr
    rw [← hquiet.self_]
    exact Option.isSome_of_eq_some hm
  have hthem : ((s.digestHead cfg to_).1.members.lookup x).isSome = true := by
    obtain ⟨m, hm, -⟩ := (Option.any_eq_true _ _).mp hx
    exact hknown x hself (Option.isSome_of_eq_some hm)
  obtain ⟨r, hr, -⟩ := hown
  obtain ⟨m, hm, -⟩ := entry_ledger hr
  rw [digestHead_updates (by omega) hm, List.length_append, List.length_map, List.length_singleton]
  cases hreceiver : s.receiver to_ with
  | none => exact Table.length_le_size [s.self_, x] (by simpa using Ne.symm hself) (by simp [hus, hthem])
  | some r =>
    unfold receiver at hreceiver
    split at hreceiver
    · cases hreceiver
    · next hother =>
      have hthere := hknown to_ hother (Option.isSome_of_eq_some hreceiver)
      refine Table.length_le_size [to_, s.self_, x] ?_ (by simp [hus, hthem, hthere])
      simpa [hother, Ne.symm hself] using Ne.symm hto

theorem receiver_in_frame (hcap : 3 ≤ cfg.maxGossipUpdates) (hown : s.members.lookup s.self_ = some m)
    (hself : x ≠ s.self_) (hx : s.shows x = true) : ∃ u ∈ (s.fillDigest cfg x).2, u.node = x := by
  obtain ⟨r, hr, -⟩ := (Option.any_eq_true _ _).mp hx
  have hhead : ⟨x, r.incarnation, r.status.code⟩ ∈ (s.digestHead cfg x).2 := by
    rw [digestHead_updates (by omega) hown, receiver, if_neg hself, hr]
    exact List.mem_append_left _ (List.mem_singleton.mpr rfl)
  unfold fillDigest
  rw [if_neg (by omega)]
  exact ⟨_, prefix_digestTail.subset hhead, rfl⟩

/-- A live verified member that is due is in the next frame, or it is due sooner after it. -/
theorem fillDigest_sooner (to_ : NodeId) (hcap : 3 ≤ cfg.maxGossipUpdates) (hown : s.ledger.Owned) (h : s.Rostered)
    (hself : x ≠ s.self_) (hx : s.shows x = true) (hdue : s.due = before ++ x :: after) :
    (∃ u ∈ (s.fillDigest cfg to_).2, u.node = x) ∨
    ∃ before' after', (s.fillDigest cfg to_).1.due = before' ++ x :: after' ∧ before'.length < before.length := by
  obtain ⟨r, hr, -⟩ := id hown
  obtain ⟨m, hm, -⟩ := entry_ledger hr
  by_cases hto : x = to_
  · rw [← hto]
    exact .inl (receiver_in_frame hcap hm hself hx)
  · obtain ⟨acc, hquiet, hrota, -, hroom, hfilled⟩ := fillDigest_passes to_ hcap hm
    have hfree := hroom (head_lt_size hcap hown hto hself hx)
    have hshows : ∀ id, id ≠ s.self_ → acc.1.shows id = s.shows id := fun id hother => shows_quiet hquiet hother
    have hpassed : acc.1.Rostered := h.moved hrota hshows
    have hcursor : acc.1.digestCursor = s.digestCursor := congrArg (fun rota => rota.2.2.2) hrota
    rw [← h.kept hquiet.self_ hcursor hshows hpassed] at hdue
    rw [hfilled, if_neg (not_le.mpr hfree)]
    exact rotate_sooner hpassed hfree hto (by rw [hquiet.self_]; exact hself) ((hshows x hself).trans hx) hdue

end Frame

section Kept

/-- Without frames the walk stays as it is; where the list is not due to be rebuilt, no entry came or went. -/
structure Ledger.Keeps (l l' : Ledger) : Prop where
  me : l'.me = l.me
  ids : l'.ids = l.ids
  cursor : l'.cursor = l.cursor
  dirty : l'.dirty = false → l.dirty = false ∧ ∀ id, (l'.entry id).isSome = (l.entry id).isSome

theorem Ledger.Keeps.trans {l'' : Ledger} (h : l.Keeps l') (h' : l'.Keeps l'') : l.Keeps l'' := by
  refine ⟨h'.me.trans h.me, h'.ids.trans h.ids, h'.cursor.trans h.cursor, fun hclean => ?_⟩
  obtain ⟨hclean', hsame'⟩ := h'.dirty hclean
  obtain ⟨hwas, hsame⟩ := h.dirty hclean'
  exact ⟨hwas, fun id => (hsame' id).trans (hsame id)⟩

theorem Ledger.Keeps.refl (l : Ledger) : l.Keeps l := ⟨rfl, rfl, rfl, fun hclean => ⟨hclean, fun _ => rfl⟩⟩

theorem isSome_set {r : Record} (hcur : (l.entry node).isSome = true) (id : NodeId) :
    ((l.set node (some r)).entry id).isSome = (l.entry id).isSome := by
  by_cases hid : id = node
  · rw [hid, hcur]
    exact congrArg Option.isSome (Function.update_self node (some r) l.entry)
  · have hkept : (l.set node (some r)).entry id = l.entry id := Function.update_of_ne hid ..
    rw [hkept]

theorem Edit.keeps (h : Edit cfg may l l') (hsend : ¬ may .send) (hown : l.Owned) : l.Keeps l' := by
  obtain ⟨mine, hmine, -⟩ := hown
  have hours : ∀ r id, ((l.set l.me (some r)).entry id).isSome = (l.entry id).isSome :=
    fun r => isSome_set (Option.isSome_of_eq_some hmine)
  cases h with
  | refute _ _ _ => exact ⟨rfl, rfl, rfl, fun hclean => ⟨hclean, hours _⟩⟩
  | adopt _ _ _ => exact ⟨rfl, rfl, rfl, fun hclean => ⟨hclean, hours _⟩⟩
  | rejoin _ => exact ⟨rfl, rfl, rfl, fun hclean => ⟨hclean, hours _⟩⟩
  | depart _ _ => exact ⟨rfl, rfl, rfl, fun hclean => ⟨hclean, hours _⟩⟩
  | alter _ hcur _ _ _ _ _ =>
    exact ⟨rfl, rfl, rfl, fun hclean => ⟨hclean, isSome_set (Option.isSome_of_eq_some hcur)⟩⟩
  | evict _ _ _ => exact ⟨rfl, rfl, rfl, nofun⟩
  | drop _ _ _ _ _ => exact ⟨rfl, rfl, rfl, nofun⟩
  | spend _ hmay => exact absurd hmay hsend
  | refresh _ hmay => exact absurd hmay hsend
  | turn hmay => exact absurd hmay hsend
  | lease _ _ _ _ _ _ _ => exact ⟨rfl, rfl, rfl, fun hclean => ⟨hclean, fun _ => rfl⟩⟩
  | free => exact ⟨rfl, rfl, rfl, fun hclean => ⟨hclean, fun _ => rfl⟩⟩
  | expire _ => exact ⟨rfl, rfl, rfl, fun hclean => ⟨hclean, fun _ => rfl⟩⟩
  | lapse hcur _ _ => exact ⟨rfl, rfl, rfl, fun hclean => ⟨hclean, isSome_set (Option.isSome_of_eq_some hcur)⟩⟩

theorem Effect.keeps_rota (h : Effect cfg may l l') (hsend : ¬ may .send) (hown : l.Owned) : l.Keeps l' := by
  refine (h.keeps (I := fun l' => l'.Owned ∧ l.Keeps l') (fun l₁ hb => ⟨hb.owned hown, ?_⟩) fun _ _ hI he =>
    ⟨he.owned hI.1, hI.2.trans (he.keeps hsend hI.1)⟩).2
  cases hb with
  | same => exact .refl l
  | create _ _ _ _ _ => exact ⟨rfl, rfl, rfl, nofun⟩

end Kept

section Sent

variable {t : Task} {msg : ControlMsg} {now : Int}

theorem sent_enter {c : Call} : (s.enter cfg env c).sent = [] := by
  cases c with
  | frame f =>
    simp only [enter, enterFrame]
    split_ifs
    all_goals try rfl
    split <;> rfl
  | _ =>
    simp only [enter]
    try split_ifs
    all_goals rfl

theorem sent_handle {sender : NodeId} : (s.handle cfg env msg sender).sent = [] := by
  have hhandled := handled cfg env s msg sender
  generalize s.handle cfg env msg sender = o at hhandled ⊢
  cases hhandled <;> rfl

theorem sent_answer : (s.answer cfg msg now).sent = [] := by
  unfold answer answerJoin
  split
  all_goals try split_ifs
  all_goals rfl

theorem exec_sent (h : ∀ to_ m, t ≠ .send to_ m) : (s.exec cfg env t).sent = [] := by
  cases t with
  | send to_ m => exact absurd rfl (h to_ m)
  | enter c => exact sent_enter
  | handle m sender => exact sent_handle
  | answer m now => exact sent_answer
  | flush =>
    simp only [exec, flush]
    split <;> rfl
  | drainRefusals =>
    simp only [exec, drainRefusals]
    split <;> rfl
  | deliver i j =>
    simp only [exec, deliver]
    split
    · rfl
    · split <;> rfl
  | acked m now =>
    simp only [exec, acked]
    split_ifs <;> rfl
  | driveProbe now =>
    simp only [exec, driveProbe]
    split_ifs
    all_goals try rfl
    split <;> rfl
  | indirect first relays target seq =>
    simp only [exec, indirect]
    split
    · rfl
    · split <;> rfl
  | startProbe now =>
    simp only [exec, startProbe]
    split
    · rfl
    · split <;> rfl
  | probeTombstones now =>
    simp only [exec, probeTombstones]
    split <;> rfl
  | monitorCongestion now =>
    simp only [exec, monitorCongestion]
    split
    · rfl
    · split_ifs <;> rfl
  | _ => rfl

end Sent

section Runs

variable {n n' : Node} {label : Label} {t : Task} {rest : List Task}

/-- Unless the list is due to be rebuilt before the step or after it, no entry of another node that stays
becomes a live verified one, or is one no longer. -/
def Node.Settled (cfg : Config) (n : Node) (label : Label) : Prop :=
  (n.step cfg label).all (fun n' => n.swim.idsDirty || n'.swim.idsDirty || n.swim.members.entries.all fun e =>
    e.1 == n.swim.self_ || (n'.swim.members.lookup e.1).all fun m => m.placeable == e.2.placeable) = true

instance (n : Node) (label : Label) : Decidable (n.Settled cfg label) := inferInstanceAs (Decidable (_ = true))

theorem Node.step_frame (h : n.step cfg label = some n') (hown : n.swim.ledger.Owned) :
    (∃ to_ f, n'.sent = n.sent ++ [(to_, f)] ∧ f.updates = (n.swim.fillDigest cfg to_).2 ∧
      n'.swim = (n.swim.fillDigest cfg to_).1) ∨
    n'.sent = n.sent ∧ n.swim.ledger.Keeps n'.swim.ledger := by
  obtain ⟨env, t, rest, -, -, rfl⟩ | ⟨hsame, -, hsent, -⟩ := Node.step_books h
  · by_cases hsend : ∃ to_ m, t = .send to_ m
    · obtain ⟨to_, m, rfl⟩ := hsend
      simp only [Node.ran, exec, send]
      split
      · exact .inr ⟨List.append_nil _, .refl _⟩
      · exact .inl ⟨to_, _, rfl, rfl, rfl⟩
    · have hother : ∀ to_ m, t ≠ .send to_ m := fun to_ m heq => hsend ⟨to_, m, heq⟩
      have hmay : ¬ t.May cfg n.swim .send := fun hmay => by
        cases hmay
        exact hother _ _ rfl
      refine .inr ⟨?_, (exec_capped hown.sure).settles.keeps_rota hmay hown⟩
      rw [Node.ran, exec_sent hother, List.append_nil]
  · exact .inr ⟨hsent, by rw [hsame]; exact .refl _⟩

theorem Node.rostered_step (hcap : 3 ≤ cfg.maxGossipUpdates) (hown : n.swim.ledger.Owned) (hn : n.swim.Rostered)
    (hok : n.Settled cfg label) (h : n.step cfg label = some n') : n'.swim.Rostered := by
  obtain ⟨to_, f, -, -, hsent⟩ | ⟨-, hkeeps⟩ := Node.step_frame h hown
  · obtain ⟨r, hr, -⟩ := id hown
    obtain ⟨m, hm, -⟩ := entry_ledger hr
    rw [hsent]
    exact rostered_fillDigest hcap hm hn
  · have hself : n'.swim.self_ = n.swim.self_ := hkeeps.me
    have hids : n'.swim.sortedIds = n.swim.sortedIds := hkeeps.ids
    refine ⟨by rw [hids]; exact hn.sorted, ?_⟩
    cases hdirty : n'.swim.idsDirty with
    | true => exact .inl rfl
    | false =>
      obtain ⟨hclean, hpresent⟩ := hkeeps.dirty hdirty
      have hwas : n.swim.idsDirty = false := hclean
      rw [Node.Settled, h, Option.all_some, hwas, hdirty, Bool.false_or, Bool.false_or, List.all_eq_true] at hok
      have hlists := hn.lists.resolve_left (by rw [hwas]; exact nofun)
      refine .inr fun id hother => ?_
      rw [hself] at hother
      rw [hids, hlists id hother]
      have hthere : (n'.swim.members.lookup id).isSome = (n.swim.members.lookup id).isSome := by
        have hisSome := hpresent id
        unfold ledger at hisSome
        rw [Option.isSome_map, Option.isSome_map] at hisSome
        exact hisSome
      unfold shows
      cases hm : n.swim.members.lookup id with
      | none =>
        rw [hm] at hthere
        rw [Option.isNone_iff_eq_none.mp (Option.isSome_eq_false_iff.mp hthere)]
      | some m =>
        rw [hm] at hthere
        obtain ⟨m', hm'⟩ := Option.isSome_iff_exists.mp hthere
        have hsame := hok ⟨id, m⟩ (Table.mem_entries_iff.mpr hm)
        rw [hm', Option.all_some, Bool.or_eq_true] at hsame
        rw [hm', Option.any_some, Option.any_some, eq_of_beq (hsame.resolve_left (by simpa using hother))]

theorem rostered_start {self_ : NodeId} {drawn : UInt64} {sinks : Nat} :
    (Node.start cfg self_ drawn sinks).swim.Rostered := ⟨List.Pairwise.nil, .inl rfl⟩

/-- What of an entry other nodes are told, and whether we vouch for it. -/
def Member.face (m : Member) : MemberStatus × Bool × UInt64 := (m.status, m.verified, m.incarnation)

def SwimMembership.sameFaces (s s' : SwimMembership) : Bool :=
  s.members.entries.all (fun e => (s'.members.lookup e.1).any fun m => m.face == e.2.face) &&
    s'.members.entries.all fun e => (s.members.lookup e.1).isSome

/-- No entry is created, erased or changed. -/
def Node.Freezes (cfg : Config) (n : Node) (label : Label) : Prop :=
  (n.step cfg label).all (fun n' => n.swim.sameFaces n'.swim) = true

instance (n : Node) (label : Label) : Decidable (n.Freezes cfg label) := inferInstanceAs (Decidable (_ = true))

theorem face_of_same (h : s.sameFaces s' = true) (id : NodeId) :
    (s'.members.lookup id).map Member.face = (s.members.lookup id).map Member.face := by
  obtain ⟨hkept, hknown⟩ := Bool.and_eq_true_iff.mp h
  rw [List.all_eq_true] at hkept hknown
  cases hm : s.members.lookup id with
  | some m =>
    obtain ⟨m', hm', hface⟩ := (Option.any_eq_true _ _).mp (hkept ⟨id, m⟩ (Table.mem_entries_iff.mpr hm))
    rw [hm', Option.map_some, Option.map_some, eq_of_beq hface]
  | none =>
    cases hm' : s'.members.lookup id with
    | none => rfl
    | some m' =>
      have hwas := hknown ⟨id, m'⟩ (Table.mem_entries_iff.mpr hm')
      rw [hm] at hwas
      cases hwas

theorem shows_of_same (h : s.sameFaces s' = true) : s'.shows id = s.shows id := by
  have hany := congrArg (Option.any fun p : MemberStatus × Bool × UInt64 => p.2.1 && !p.1.isTomb) (face_of_same h id)
  rw [Option.any_map, Option.any_map] at hany
  exact hany

theorem Node.Freezes.settled (h : n.Freezes cfg label) : n.Settled cfg label := by
  unfold Node.Freezes at h
  unfold Node.Settled
  cases hstep : n.step cfg label with
  | none => rfl
  | some n' =>
    rw [hstep, Option.all_some] at h
    rw [Option.all_some, Bool.or_eq_true, List.all_eq_true]
    refine .inr fun e he => ?_
    have hface := face_of_same h e.1
    rw [Table.mem_entries_iff.mp he] at hface
    cases hm' : n'.swim.members.lookup e.1 with
    | none => rw [Option.all_none, Bool.or_true]
    | some m' =>
      rw [hm', Option.map_some, Option.map_some, Option.some.injEq] at hface
      have hplaceable : m'.placeable = e.2.placeable :=
        congrArg (fun p : MemberStatus × Bool × UInt64 => p.2.1 && !p.1.isTomb) hface
      rw [Option.all_some, hplaceable, beq_self_eq_true, Bool.or_true]

/-- `x` is named by one of the frames, or fewer than `k` members and frames are before it. -/
def SwimMembership.Served (s : SwimMembership) (k : Nat) (frames : List (NodeId × ControlMsg)) (x : NodeId) : Prop :=
  (∃ f ∈ frames, ∃ u ∈ f.2.updates, u.node = x) ∨
    ∃ before after, s.due = before ++ x :: after ∧ before.length + frames.length < k

/-- A run in which the entries stay what they were: what each frame and the walk say. -/
structure Node.Round (n : Node) (n' : Node) : Prop where
  sound : n'.Sound
  rostered : n'.swim.Rostered
  self_ : n'.swim.self_ = n.swim.self_
  shows : ∀ id, n'.swim.shows id = n.swim.shows id
  served : ∃ frames, n'.sent = n.sent ++ frames ∧
    (∀ f ∈ frames, ∃ u ∈ f.2.updates, u.node = n.swim.self_) ∧
    ∀ x, x ≠ n.swim.self_ → n.swim.shows x = true → n'.swim.Served n.swim.members.size frames x

theorem Node.Round.start (hn : n.Sound) (hr : n.swim.Rostered) : n.Round n := by
  refine ⟨hn, hr, rfl, fun _ => rfl, [], (List.append_nil _).symm, fun _ hf => absurd hf List.not_mem_nil,
    fun x hself hx => .inr ?_⟩
  obtain ⟨before, after, hdue⟩ := List.append_of_mem (hr.mem_due.mpr ⟨hself, hx⟩)
  refine ⟨before, after, hdue, ?_⟩
  have hknown := Table.length_le_size _ hr.nodup_due fun id hid => by
    obtain ⟨m, hm, -⟩ := (Option.any_eq_true _ _).mp (hr.mem_due.mp hid).2
    exact Option.isSome_of_eq_some hm
  rw [hdue, List.length_append, List.length_cons] at hknown
  exact lt_of_lt_of_le (by rw [List.length_nil]; omega) hknown

theorem Node.Round.step {n₁ n₂ : Node} (hcap : 3 ≤ cfg.maxGossipUpdates) (hn : n.Round n₁)
    (hok : n₁.Freezes cfg label)
    (h : n₁.step cfg label = some n₂) : n.Round n₂ := by
  have hsame : n₁.swim.sameFaces n₂.swim = true := by
    unfold Node.Freezes at hok
    rw [h, Option.all_some] at hok
    exact hok
  have hrostered : n₂.swim.Rostered := Node.rostered_step hcap hn.sound.own hn.rostered hok.settled h
  have hself : n₂.swim.self_ = n₁.swim.self_ := (Node.step_effect h hn.sound.own).me
  obtain ⟨frames, hframes, hown, hserved⟩ := hn.served
  refine ⟨hn.sound.step h, hrostered, hself.trans hn.self_, fun id => (shows_of_same hsame).trans (hn.shows id), ?_⟩
  obtain ⟨to_, f, hsent, hupdates, hswim⟩ | ⟨hsent, hkeeps⟩ := Node.step_frame h hn.sound.own
  · refine ⟨frames ++ [(to_, f)], by rw [hsent, hframes, List.append_assoc], ?_, fun x hother hx => ?_⟩
    · obtain ⟨r, hr, -⟩ := hn.sound.own
      obtain ⟨m, hm, -⟩ := entry_ledger hr
      refine List.forall_mem_append.mpr ⟨hown, List.forall_mem_singleton.mpr
        ⟨⟨n₁.swim.self_, m.incarnation, m.status.code⟩, ?_, hn.self_⟩⟩
      rw [hupdates]
      exact own_in_digest to_ (by omega) hm
    · obtain ⟨g, hg, hin⟩ | ⟨before, after, hdue, hlt⟩ := hserved x hother hx
      · exact .inl ⟨g, List.mem_append_left _ hg, hin⟩
      · obtain ⟨u, hu, hnode⟩ | ⟨before', after', hdue', hsooner⟩ := fillDigest_sooner to_ hcap hn.sound.own
          hn.rostered (by rw [hn.self_]; exact hother) ((hn.shows x).trans hx) hdue
        · exact .inl ⟨_, List.mem_append_right _ (List.mem_singleton.mpr rfl), u, by rw [hupdates]; exact hu, hnode⟩
        · refine .inr ⟨before', after', by rw [hswim]; exact hdue', ?_⟩
          rw [List.length_append, List.length_singleton]
          omega
  · refine ⟨frames, hsent.trans hframes, hown, fun x hother hx => (hserved x hother hx).imp_right ?_⟩
    rintro ⟨before, after, hdue, hlt⟩
    have hcursor : n₂.swim.digestCursor = n₁.swim.digestCursor := hkeeps.cursor
    exact ⟨before, after, (hn.rostered.kept hself hcursor (fun id _ => shows_of_same hsame) hrostered).trans hdue,
      hlt⟩

/-- In a run where no entry that stays becomes a live verified one, or is one no longer, in a step that
neither finds nor leaves the list of the rotation due to be rebuilt: the rotation walks exactly the live
verified members, and of so many frames as there are entries, sent while the entries stay what they are, some
frame names each of them. -/
theorem Node.rotation_comes_round {self_ : NodeId} {drawn : UInt64} {sinks : Nat} (hcap : 3 ≤ cfg.maxGossipUpdates)
    (h : Reach (Node.step cfg) (Node.Settled cfg) (Node.start cfg self_ drawn sinks) n) :
    ((n.swim.refreshSortedIds.rotated.filter fun id => id != n.swim.self_).Nodup ∧
      ∀ id, id ∈ (n.swim.refreshSortedIds.rotated.filter fun id => id != n.swim.self_) ↔
        id ≠ n.swim.self_ ∧ (n.swim.members.lookup id).any Member.placeable = true) ∧
    ∀ n' frames, Reach (Node.step cfg) (Node.Freezes cfg) n n' → n'.sent = n.sent ++ frames →
      n.swim.members.size ≤ frames.length → ∀ id, (n.swim.members.lookup id).any Member.placeable = true →
        ∃ f ∈ frames, ∃ u ∈ f.2.updates, u.node = id := by
  obtain ⟨hsound, hrostered⟩ : n.Sound ∧ n.swim.Rostered := h.invariant (I := fun n => n.Sound ∧ n.swim.Rostered)
    ⟨sound_start, rostered_start⟩ fun _ _ _ hI hok hstep =>
      ⟨hI.1.step hstep, Node.rostered_step hcap hI.1.own hI.2 hok hstep⟩
  refine ⟨?_, fun n' frames hrun hsent hlength id hshows => ?_⟩
  · rw [hrostered.rotated_filter]
    exact ⟨hrostered.nodup_due, fun id => hrostered.mem_due⟩
  · have hround : n.Round n' := hrun.invariant (.start hsound hrostered) fun _ _ _ hI hok hstep =>
      hI.step hcap hok hstep
    obtain ⟨frames', hframes, hown, hserved⟩ := hround.served
    obtain rfl : frames = frames' := List.append_cancel_left (hsent.symm.trans hframes)
    by_cases hself : id = n.swim.self_
    · obtain ⟨m, hm, -⟩ := (Option.any_eq_true _ _).mp hshows
      have hsize : 0 < n.swim.members.size :=
        Table.length_le_size [id] (List.nodup_singleton id) (by simpa using Option.isSome_of_eq_some hm)
      obtain ⟨f, hf⟩ := List.exists_mem_of_length_pos (lt_of_lt_of_le hsize hlength)
      obtain ⟨u, hu, hnode⟩ := hown f hf
      exact ⟨f, hf, u, hu, hnode.trans hself.symm⟩
    · obtain hin | ⟨before, after, -, hlt⟩ := hserved id hself hshows
      · exact hin
      · omega

end Runs

section Instances

def admits (node : NodeId) : List Label := .call (.admit_ node 0) :: List.replicate 5 (.run {})

def leaves (node : NodeId) : List Label := .call (.leave node) :: List.replicate 5 (.run {})

/-- A frame to node 3, which is no member. -/
def knocks : List Label := .call (.requestJoin 3) :: List.replicate 4 (.run {})

def narrow : Config := { Config.sanitize {} with maxGossipUpdates := 3 }

/-- Four peers, two of which fit into a frame. -/
theorem rotation_comes_round_four : ∃ n n',
    Machine.run (guarded (Node.step narrow) (Node.Settled narrow)) (Node.start narrow 1 0 0)
      (admits 2 ++ admits 4 ++ admits 5 ++ admits 6) = some n ∧
    Machine.run (guarded (Node.step narrow) (Node.Freezes narrow)) n (List.replicate 5 knocks).flatten = some n' ∧
    n'.sent.length = 5 ∧ ∀ id ∈ [2, 4, 5, 6], ∃ f ∈ n'.sent, ∃ u ∈ f.2.updates, u.node = id := by
  obtain ⟨n, hn, hfacts⟩ := Option.map_eq_some_iff.mp (show (Machine.run
    (guarded (Node.step narrow) (Node.Settled narrow)) (Node.start narrow 1 0 0)
    (admits 2 ++ admits 4 ++ admits 5 ++ admits 6)).map (fun n => ((n.sent.length, n.swim.members.size,
      [2, 4, 5, 6].all fun id => (n.swim.members.lookup id).any Member.placeable),
      (Machine.run (guarded (Node.step narrow) (Node.Freezes narrow)) n (List.replicate 5 knocks).flatten).map
        fun n' => n'.sent.length)) = some ((0, 5, true), some 5) by decide +kernel)
  obtain ⟨hbefore, hafter⟩ := Prod.mk.inj hfacts
  obtain ⟨hsent, hbefore⟩ := Prod.mk.inj hbefore
  obtain ⟨hsize, hshows⟩ := Prod.mk.inj hbefore
  obtain ⟨n', hn', hframes⟩ := Option.map_eq_some_iff.mp hafter
  refine ⟨n, n', hn, hn', hframes, fun id hid => ?_⟩
  refine (Node.rotation_comes_round (by decide) (reach_of_run hn)).2 n' n'.sent (reach_of_run hn') ?_ ?_ id
    (List.all_eq_true.mp hshows id hid)
  · rw [List.eq_nil_of_length_eq_zero hsent, List.nil_append]
  · rw [hsize, hframes]

/-- A frame to node 3 holds our own entry only, and sending it changes nothing. -/
structure SwimMembership.Dull (s : SwimMembership) : Prop where
  online : s.online = true
  unknown : s.members.lookup 3 = none
  foreign : s.self_ ≠ 3
  own : ((s.members.lookup s.self_).getD {}).txLeft = 0
  sent : s.txPending = 0
  clean : s.idsDirty = false
  alone : s.sortedIds = [s.self_]

theorem SwimMembership.Dull.fillDigest (h : s.Dull) (hcap : 3 ≤ cfg.maxGossipUpdates) : ∃ u : MemberUpdate,
    u.node = s.self_ ∧ s.fillDigest cfg 3 = (s, [u]) := by
  obtain ⟨u, hu, hhead⟩ : ∃ u : MemberUpdate, u.node = s.self_ ∧ s.digestHead cfg 3 = (s, [u]) := by
    refine ⟨⟨s.self_, ((s.members.lookup s.self_).getD {}).incarnation,
      ((s.members.lookup s.self_).getD {}).status.code⟩,
      rfl, ?_⟩
    unfold digestHead
    rw [if_neg (Ne.symm h.foreign), h.unknown]
    dsimp only
    rw [if_pos (by rw [List.length_nil]; omega), digestPush]
    dsimp only
    rw [if_pos h.own]
    rfl
  have hpass : ∀ suspects cap, digestPass 3 suspects cap (s, [u]) = (s, [u]) := fun suspects cap => by
    rw [digestPass, if_pos h.sent]
  refine ⟨u, hu, ?_⟩
  unfold SwimMembership.fillDigest
  rw [if_neg (by omega), hhead]
  unfold SwimMembership.digestTail
  dsimp only
  rw [hpass, hpass, if_neg (by rw [List.length_singleton]; omega), refreshSortedIds, h.clean,
    if_neg Bool.false_ne_true, digestRotate_eq]
  have hwalk : ∀ id ∈ s.rotated, id = s.self_ := by
    intro id hid
    rw [rotated, h.alone, List.mem_append] at hid
    obtain hid | hid := hid
    · exact List.mem_singleton.mp (List.mem_of_mem_drop hid)
    · exact List.mem_singleton.mp (List.mem_of_mem_take hid)
  generalize s.rotated = ids at hwalk
  induction ids with
  | nil => rfl
  | cons id ids ih =>
    rw [List.foldl_cons, rotateStep, if_pos (.inr (.inr (.inl (hwalk id List.mem_cons_self))))]
    exact ih fun id hid => hwalk id (List.mem_cons_of_mem _ hid)

theorem sameFaces_refl : s.sameFaces s = true := by
  refine Bool.and_eq_true_iff.mpr ⟨List.all_eq_true.mpr fun e he => ?_, List.all_eq_true.mpr fun e he => ?_⟩
  · rw [Table.mem_entries_iff.mp he, Option.any_some, beq_self_eq_true]
  · exact Option.isSome_of_eq_some (Table.mem_entries_iff.mp he)

theorem dull_round {n₀ n : Node} (hcap : 3 ≤ cfg.maxGossipUpdates)
    (h : Reach (Node.step cfg) (Node.Freezes cfg) n₀ n) (hdull : n.swim.Dull) (hidle : n.todo = []) : ∃ n' f,
    Reach (Node.step cfg) (Node.Freezes cfg) n₀ n' ∧ n'.swim = n.swim ∧ n'.todo = [] ∧
      n'.sent = n.sent ++ [f] ∧ ∀ u ∈ f.2.updates, u.node = n.swim.self_ := by
  have hnext : ∀ {n₁ n₂ : Node} (label : Label), Reach (Node.step cfg) (Node.Freezes cfg) n₀ n₁ →
      n₁.step cfg label = some n₂ → n₂.swim = n₁.swim → Reach (Node.step cfg) (Node.Freezes cfg) n₀ n₂ := by
    intro n₁ n₂ label hreach hstep hswim
    refine hreach.step ?_ hstep
    rw [Node.Freezes, hstep, Option.all_some, hswim]
    exact sameFaces_refl
  obtain ⟨u, hu, hfilled⟩ := hdull.fillDigest hcap
  obtain ⟨f, hf, hsent⟩ : ∃ f : ControlMsg, f.updates = [u] ∧ n.swim.exec cfg {} (.send 3
      { kind := .join, subject := n.swim.self_, subjectIncarnation := n.swim.selfIncarnation }) =
        { swim := n.swim, todo := [.outside], sent := [(3, f)] } := by
    simp only [exec, send]
    rw [if_neg (by rw [hdull.online]; exact (by simp)), hfilled]
    exact ⟨_, rfl, rfl⟩
  obtain ⟨swim, todo, delivered, sent, received, admitted⟩ := n
  obtain rfl : todo = [] := hidle
  have hcalled := hnext (.call (.requestJoin 3)) h rfl rfl
  have hentered := hnext (.run {}) hcalled rfl rfl
  have hgone := hnext (.run {}) hentered
    (congrArg (fun o => some (Node.ran _ o [.returned (.requestJoin 3)])) hsent) rfl
  have hback := hnext (.run {}) hgone rfl rfl
  have hover := hnext (.run {}) hback rfl rfl
  refine ⟨_, (3, f), hover, rfl, rfl, ?_, ?_⟩
  · simp [Node.ran, Node.called, exec, enter]
  · rw [hf]
    exact List.forall_mem_singleton.mpr hu

theorem dull_rounds {n : Node} (hcap : 3 ≤ cfg.maxGossipUpdates) (hdull : n.swim.Dull)
    (hidle : n.todo = []) (k : Nat) :
    ∃ n' frames, Reach (Node.step cfg) (Node.Freezes cfg) n n' ∧ n'.swim = n.swim ∧ n'.todo = [] ∧
      n'.sent = n.sent ++ frames ∧ frames.length = k ∧ ∀ f ∈ frames, ∀ u ∈ f.2.updates, u.node = n.swim.self_ := by
  induction k with
  | zero => exact ⟨n, [], .start, rfl, hidle, (List.append_nil _).symm, rfl, nofun⟩
  | succ k ih =>
    obtain ⟨n₁, frames, hreach, hswim, hdone, hsent, hlength, hframes⟩ := ih
    obtain ⟨n₂, f, hreach', hswim', hdone', hsent', hf⟩ := dull_round hcap hreach (by rw [hswim]; exact hdull) hdone
    refine ⟨n₂, frames ++ [f], hreach', hswim'.trans hswim, hdone', ?_, ?_, ?_⟩
    · rw [hsent', hsent, List.append_assoc]
    · rw [List.length_append, hlength, List.length_singleton]
    · rw [hswim] at hf
      exact List.forall_mem_append.mpr ⟨hframes, List.forall_mem_singleton.mpr hf⟩

/-- Node 2 left, a frame rebuilt the list, node 2 was admitted again and its six frames were sent: it is a
live verified member that no further frame to node 3 names, however many there are. -/
theorem returned_never_named : ∃ n, Machine.run (Node.step (Config.sanitize {}))
    (Node.start (Config.sanitize {}) 1 0 0)
      (admits 2 ++ leaves 2 ++ knocks ++ admits 2 ++ (List.replicate 6 knocks).flatten) = some n ∧
    (n.swim.members.lookup 2).any Member.placeable = true ∧ n.swim.members.size = 2 ∧
    ∀ k, ∃ n' frames, Reach (Node.step (Config.sanitize {})) (Node.Freezes (Config.sanitize {})) n n' ∧
      n'.sent = n.sent ++ frames ∧ frames.length = k ∧ ∀ f ∈ frames, ∀ u ∈ f.2.updates, u.node ≠ 2 := by
  obtain ⟨n, hn, hfacts⟩ := Option.map_eq_some_iff.mp (show (Machine.run (Node.step (Config.sanitize {}))
    (Node.start (Config.sanitize {}) 1 0 0)
    (admits 2 ++ leaves 2 ++ knocks ++ admits 2 ++ (List.replicate 6 knocks).flatten)).map (fun n =>
      ((n.swim.members.lookup 2).any Member.placeable, n.swim.members.size, n.todo.length, n.swim.self_,
        decide (n.swim.online = true ∧ (n.swim.members.lookup 3).isNone = true ∧
          ((n.swim.members.lookup n.swim.self_).getD {}).txLeft = 0 ∧ n.swim.txPending = 0 ∧ n.swim.idsDirty = false ∧
          n.swim.sortedIds = [1]))) = some (true, 2, 0, 1, true) by decide +kernel)
  simp only [Prod.mk.injEq, decide_eq_true_eq] at hfacts
  obtain ⟨hshows, hsize, htodo, hself, honline, hunknown, hown, hsent, hclean, halone⟩ := hfacts
  have hdull : n.swim.Dull := ⟨honline, Option.isNone_iff_eq_none.mp hunknown, by rw [hself]; decide, hown, hsent,
    hclean, by rw [hself]; exact halone⟩
  refine ⟨n, hn, hshows, hsize, fun k => ?_⟩
  obtain ⟨n', frames, hreach, -, -, hframes, hlength, hnodes⟩ :=
    dull_rounds (show 3 ≤ (Config.sanitize {}).maxGossipUpdates by decide) hdull
      (List.eq_nil_of_length_eq_zero htodo) k
  refine ⟨n', frames, hreach, hframes, hlength, fun f hf u hu => ?_⟩
  rw [hnodes f hf u hu, hself]
  decide

end Instances

end Quark.Swim
