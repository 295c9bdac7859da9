import Quark.SwimNode

/-! What the functions of `SwimMembership` do to the standing of the members: most leave it alone, `apply_update`
and the reapers change it. -/
namespace Quark.Swim

open AList Option SwimMembership

def Member.placeable (m : Member) : Bool := m.verified && !m.status.isTomb

def SwimMembership.shows (s : SwimMembership) (id : NodeId) : Bool := (s.members.lookup id).any Member.placeable

/-- What the views, the subscribers and the other nodes depend on. -/
def Member.standing (m : Member) : MemberStatus × Bool × UInt8 × UInt64 :=
  (m.status, m.verified, m.reported, m.incarnation)

def SwimMembership.doubted (s : SwimMembership) : Bool := (s.members.lookup s.self_).any fun m => m.status == .suspect

/-- Neither the standing of another node nor what was published changes. -/
structure Quiet (s s' : SwimMembership) : Prop where
  self_ : s'.self_ = s.self_
  sinks : s'.sinks = s.sinks
  view : s'.verifiedSnapshot = s.verifiedSnapshot
  pending : s'.pending = s.pending
  flushing : s'.flushing = s.flushing
  standing : ∀ id, id ≠ s.self_ →
    (s'.members.lookup id).map Member.standing = (s.members.lookup id).map Member.standing
  own : s'.doubted = true → s.doubted = true

variable {cfg : Config} {env : Env} {s s' s'' : SwimMembership} {node id : NodeId} {m cur : Member}
variable {inc : UInt64} {st prev : MemberStatus} {src : Src} {now : Int}

theorem doubted_of_own (h : ((s.members.lookup s.self_).getD {}).status = .suspect) : s.doubted = true := by
  unfold doubted
  cases hm : s.members.lookup s.self_ with
  | none =>
    rw [hm] at h
    cases h
  | some m =>
    rw [hm] at h
    exact beq_iff_eq.mpr h

namespace Quiet

theorem refl (s : SwimMembership) : Quiet s s := ⟨rfl, rfl, rfl, rfl, rfl, fun _ _ => rfl, fun h => h⟩

theorem trans (h : Quiet s s') (h' : Quiet s' s'') : Quiet s s'' := by
  refine ⟨h'.self_.trans h.self_, h'.sinks.trans h.sinks, h'.view.trans h.view, h'.pending.trans h.pending,
    h'.flushing.trans h.flushing, fun id hid => ?_, fun hd => h.own (h'.own hd)⟩
  rw [h'.standing id (by rw [h.self_]; exact hid), h.standing id hid]

theorem any (h : Quiet s s') (p : MemberStatus × Bool × UInt8 × UInt64 → Bool) (hid : id ≠ s.self_) :
    (s'.members.lookup id).any (fun m => p m.standing) = (s.members.lookup id).any fun m => p m.standing := by
  have hstanding := congrArg (Option.any p) (h.standing id hid)
  rwa [any_map, any_map] at hstanding

theorem table {t : Table NodeId Member}
    (h : ∀ id, (t.lookup id).map Member.standing = (s.members.lookup id).map Member.standing) :
    Quiet s { s with members := t } := by
  refine ⟨rfl, rfl, rfl, rfl, rfl, fun id _ => h id, fun hd => ?_⟩
  have hown := congrArg (Option.any fun p : MemberStatus × Bool × UInt8 × UInt64 => p.1 == .suspect) (h s.self_)
  rw [any_map, any_map] at hown
  exact hown.symm.trans hd

theorem put (hcur : s.members.lookup node = some cur) (hm : m.standing = cur.standing) : Quiet s (s.put node m) := by
  refine table fun id => ?_
  by_cases hid : id = node
  · rw [hid, lookup_insert, hcur, map_some, map_some, hm]
  · rw [lookup_insert_ne hid]

theorem putSelfAfter (h : Quiet s s') (hm : m.status = .suspect → s.doubted = true) : Quiet s (s'.put s.self_ m) := by
  refine ⟨h.self_, h.sinks, h.view, h.pending, h.flushing, fun id hid => ?_, fun hd => hm ?_⟩
  · rw [SwimMembership.put, lookup_insert_ne hid, h.standing id hid]
  · unfold SwimMembership.doubted SwimMembership.put at hd
    rw [h.self_, lookup_insert, any_some] at hd
    exact eq_of_beq hd

theorem putSelf (hm : m.status = .suspect → s.doubted = true) : Quiet s (s.put s.self_ m) :=
  putSelfAfter (refl s) hm

theorem mapVals {f : NodeId → Member → Member} (hf : ∀ id m, (f id m).standing = m.standing) :
    Quiet s { s with members := Table.mapVals f s.members } := by
  refine table fun id => ?_
  rw [Table.lookup_mapVals, map_map]
  congr 1
  funext m
  exact hf id m

end Quiet

theorem quiet_refute : Quiet s (s.refute inc st) := by
  unfold refute
  split_ifs
  · exact .refl s
  · have hraised : Quiet s { s with selfIncarnation := inc + 1 } :=
      ⟨rfl, rfl, rfl, rfl, rfl, fun _ _ => rfl, fun h => h⟩
    exact hraised.putSelfAfter nofun
  · exact .refl s

theorem quiet_forgive : Quiet s (s.forgiveLocalState cfg now) := by
  have hprobe : Quiet s { s with probe := {} } := ⟨rfl, rfl, rfl, rfl, rfl, fun _ _ => rfl, fun h => h⟩
  refine hprobe.trans (.mapVals fun id m => ?_)
  split <;> rfl

theorem quiet_markProbed (targets : List NodeId) : Quiet s (s.markProbed targets now) := by
  refine .mapVals fun id m => ?_
  split <;> rfl

namespace Quiet

theorem putAfter (h : Quiet s s') (hcur : s.members.lookup node = some cur) (hm : m.standing = cur.standing) :
    Quiet s (s'.put node m) := by
  refine ⟨h.self_, h.sinks, h.view, h.pending, h.flushing, fun id hid => ?_, fun hd => ?_⟩
  · by_cases heq : id = node
    · rw [heq, SwimMembership.put, lookup_insert, hcur, map_some, map_some, hm]
    · rw [SwimMembership.put, lookup_insert_ne heq, h.standing id hid]
  · by_cases hself : s.self_ = node
    · unfold SwimMembership.doubted SwimMembership.put at hd
      unfold SwimMembership.doubted
      rw [h.self_, hself, lookup_insert, any_some] at hd
      rw [hself, hcur, any_some, ← show m.status = cur.status from congrArg Prod.fst hm]
      exact hd
    · refine h.own ?_
      unfold SwimMembership.doubted SwimMembership.put at hd
      rw [lookup_insert_ne (by rw [h.self_]; exact hself)] at hd
      exact hd

theorem congr (h : Quiet s s') (hself : s''.self_ = s'.self_) (hsinks : s''.sinks = s'.sinks)
    (hview : s''.verifiedSnapshot = s'.verifiedSnapshot) (hpending : s''.pending = s'.pending)
    (hflushing : s''.flushing = s'.flushing) (hmembers : s''.members = s'.members) : Quiet s s'' :=
  h.trans ⟨hself, hsinks, hview, hpending, hflushing, fun id _ => by rw [hmembers], fun hd => by
    unfold doubted at hd
    rw [hself, hmembers] at hd
    exact hd⟩

theorem foldl {A E : Type} {f : A → E → A} {g : A → SwimMembership} {l : List E} {a : A} (h : Quiet s (g a))
    (hf : ∀ a, ∀ e ∈ l, Quiet s (g a) → Quiet s (g (f a e))) : Quiet s (g (l.foldl f a)) :=
  List.foldlRecOn (motive := fun a => Quiet s (g a)) l f h fun a ha e he => hf a e he ha

end Quiet

theorem quiet_inWindow {msg : ControlMsg} : Quiet s (s.inWindow msg) := by
  unfold inWindow
  have hctx : Quiet s { s with
    refusals := s.refusals.erase msg.from_, ctxFrom := msg.from_, ctxVersion := msg.wireVersion } :=
    ⟨rfl, rfl, rfl, rfl, rfl, fun _ _ => rfl, fun h => h⟩
  dsimp only
  split
  · exact hctx
  · next cur hcur => exact hctx.putAfter hcur rfl

theorem quiet_heardDirectly {msg : ControlMsg} : Quiet s (s.heardDirectly msg now).swim := by
  unfold heardDirectly
  split
  · exact .refl s
  · next cur hcur =>
    split at hcur
    · cases hcur
    · exact .put hcur rfl

theorem quiet_admitControl {n : NodeId} : Quiet s (s.admitControl cfg n now).2 := by
  unfold admitControl
  split
  · exact .refl s
  · exact ⟨rfl, rfl, rfl, rfl, rfl, fun _ _ => rfl, fun h => h⟩

theorem quiet_ackProbe {n : NodeId} {seq : UInt64} : Quiet s (s.ackProbe n seq) := by
  unfold ackProbe
  split
  · exact ⟨rfl, rfl, rfl, rfl, rfl, fun _ _ => rfl, fun h => h⟩
  · exact .refl s

theorem quiet_adopt {msg : ControlMsg} : Quiet s (s.adopt msg) := by
  unfold adopt
  split
  · have hraised : Quiet s { s with selfIncarnation := msg.subjectIncarnation } :=
      ⟨rfl, rfl, rfl, rfl, rfl, fun _ _ => rfl, fun h => h⟩
    exact hraised.putSelfAfter doubted_of_own
  · exact .refl s

theorem quiet_rejoin : Quiet s (s.rejoin cfg now).swim := by
  have hraised : Quiet s { s with selfIncarnation := s.selfIncarnation + 1 } :=
    ⟨rfl, rfl, rfl, rfl, rfl, fun _ _ => rfl, fun h => h⟩
  refine Quiet.trans (hraised.putSelfAfter (m := _) fun hstatus => ?_) quiet_forgive
  exact doubted_of_own hstatus

theorem quiet_takeVerifies : Quiet s (s.takeVerifies cfg).1 := by
  unfold takeVerifies
  refine Quiet.foldl (g := Prod.fst) (.refl s) fun acc e he h => ?_
  dsimp only
  split
  · exact h
  · exact h.putAfter (Table.mem_entries_iff.mp he) rfl

theorem quiet_nextProbeTarget : Quiet s (s.nextProbeTarget cfg).2 := by
  unfold nextProbeTarget reorder
  dsimp only
  split_ifs <;> split <;> try split
  all_goals exact ⟨rfl, rfl, rfl, rfl, rfl, fun _ _ => rfl, fun h => h⟩

theorem quiet_digestPush {acc : SwimMembership × List MemberUpdate} (h : Quiet s acc.1)
    (hcur : node = s.self_ ∧ (m.status = .suspect → s.doubted = true) ∨ s.members.lookup node = some m) :
    Quiet s (digestPush acc node m).1 := by
  unfold digestPush
  dsimp only
  split
  · exact h
  · have hput : Quiet s (acc.1.put node { m with txLeft := m.txLeft - 1 }) := by
      rcases hcur with ⟨rfl, hstatus⟩ | hcur
      · exact h.putSelfAfter hstatus
      · exact h.putAfter hcur rfl
    exact hput.congr rfl rfl rfl rfl rfl rfl

theorem quiet_digestPass {suspects : Bool} {cap : Nat} {acc : SwimMembership × List MemberUpdate} :
    Quiet acc.1 (digestPass node suspects cap acc).1 := by
  unfold digestPass
  split
  · exact .refl _
  · refine Quiet.foldl (g := Prod.fst) (.refl _) fun acc' e he h => ?_
    split
    · exact h
    · exact quiet_digestPush h (.inr (Table.mem_entries_iff.mp he))

theorem quiet_refreshSortedIds : Quiet s s.refreshSortedIds := by
  unfold refreshSortedIds
  split
  · exact ⟨rfl, rfl, rfl, rfl, rfl, fun _ _ => rfl, fun h => h⟩
  · exact .refl s

theorem quiet_digestRotate {cap fixed : Nat} {out : List MemberUpdate} :
    Quiet s (digestRotate node cap fixed (s, out)).1 := by
  unfold digestRotate
  refine Quiet.foldl (g := Prod.fst) (.refl _) fun acc' id _ h => ?_
  dsimp only
  split
  · exact h
  · split
    · exact h
    · split
      · exact h.congr rfl rfl rfl rfl rfl rfl
      · exact h

theorem quiet_digestHead : Quiet s (s.digestHead cfg node).1 := by
  unfold digestHead
  dsimp only
  split
  · split
    · exact quiet_digestPush (.refl s) (.inl ⟨rfl, doubted_of_own⟩)
    · exact .refl s
  · next m hm =>
    have hpushed : Quiet s (digestPush (s, []) node m).1 := by
      split at hm
      · cases hm
      · exact quiet_digestPush (.refl s) (.inr hm)
    split
    · refine quiet_digestPush hpushed (.inl ⟨rfl, fun hstatus => hpushed.own (doubted_of_own ?_)⟩)
      rw [hpushed.self_]
      exact hstatus
    · exact hpushed

theorem quiet_digestTail {acc : SwimMembership × List MemberUpdate} :
    Quiet acc.1 (digestTail cfg node acc).1 := by
  unfold digestTail
  dsimp only
  generalize min (acc.1.members.size - acc.2.length) _ = reserved
  split
  · exact quiet_digestPass.trans quiet_digestPass
  · exact ((quiet_digestPass.trans quiet_digestPass).trans quiet_refreshSortedIds).trans quiet_digestRotate

theorem quiet_fillDigest : Quiet s (s.fillDigest cfg node).1 := by
  unfold fillDigest
  split
  · exact .refl s
  · exact quiet_digestHead.trans quiet_digestTail

theorem pushEvent_members {kind : EventKind} : (s.pushEvent kind node m).verifiedSnapshot = s.verifiedSnapshot ∧
    (s.pushEvent kind node m).members = s.members := by
  unfold pushEvent
  split <;> exact ⟨rfl, rfl⟩

theorem nextStatus_precedence {next : MemberStatus}
    (h : nextStatus cfg cur inc st src now = some next) :
    cur.incarnation ≤ inc ∧ (next = .dead → st = .dead ∧ src = .here) ∧ (next = .left → st = .left) ∧
      (cur.status.isTomb = true → next.isTomb = false → cur.incarnation < inc ∨
        cur.status = .dead ∧ next = .suspect ∧ st = .alive ∧ src = .joinSnapshot) := by
  have hreach : cur.incarnation < inc ∨ inc = cur.incarnation ∧ cur.status = .alive → cur.incarnation ≤ inc ∧
      (cur.status.isTomb = true → cur.incarnation < inc) := by
    rintro (hlt | ⟨rfl, halive⟩)
    · exact ⟨UInt64.le_of_lt hlt, fun _ => hlt⟩
    · exact ⟨UInt64.le_refl _, fun htomb => by rw [halive] at htomb; cases htomb⟩
  cases st with
  | alive =>
    simp only [nextStatus] at h
    split at h
    · next htest =>
      cases h
      exact ⟨htest.2.2, by simp, by simp, fun _ _ => .inr ⟨htest.2.1, rfl, rfl, htest.1⟩⟩
    · split at h
      · next hlt =>
        cases h
        exact ⟨UInt64.le_of_lt hlt, by simp, by simp, fun _ _ => .inl hlt⟩
      · cases h
  | suspect =>
    simp only [nextStatus] at h
    split at h
    · next htake =>
      cases h
      exact ⟨(hreach htake).1, by simp, by simp, fun htomb _ => .inl ((hreach htake).2 htomb)⟩
    · cases h
  | dead =>
    simp only [nextStatus] at h
    split at h
    · next hhere =>
      split at h
      · next htake =>
        cases h
        exact ⟨htake.2, fun _ => ⟨rfl, hhere⟩, by simp, by simp [MemberStatus.isTomb]⟩
      · cases h
    · split at h
      · cases h
      · split at h
        · cases h
        · split at h
          · next htake =>
            cases h
            exact ⟨(hreach htake).1, by simp, by simp, fun htomb _ => .inl ((hreach htake).2 htomb)⟩
          · cases h
  | left =>
    simp only [nextStatus] at h
    split at h
    · split at h
      · next hlt =>
        cases h
        exact ⟨UInt64.le_of_lt hlt, by simp, fun _ => rfl, by simp [MemberStatus.isTomb]⟩
      · cases h
    · split at h
      · next hle =>
        cases h
        exact ⟨hle, by simp, fun _ => rfl, by simp [MemberStatus.isTomb]⟩
      · cases h

theorem lookup_noteTransition {A : Type} (f : Member → A) (hf : ∀ m r, f { m with reported := r } = f m)
    (hm : s.members.lookup node = some m) :
    ((s.noteTransition cfg node m prev).members.lookup id).map f = (s.members.lookup id).map f := by
  have hput : ∀ r, ((s.members.insert node { m with reported := r }).lookup id).map f =
      (s.members.lookup id).map f := by
    intro r
    by_cases hid : id = node
    · rw [hid, lookup_insert, hm, map_some, map_some, hf]
    · rw [lookup_insert_ne hid]
  unfold noteTransition
  dsimp only
  split_ifs
  all_goals try rw [pushEvent_members.2]
  all_goals first
    | exact hput _
    | rfl

/-- The entry of `node` is replaced or added, and what is published follows; nobody is told yet. -/
structure Changed (s : SwimMembership) (node : NodeId) (vouched : Bool) (s' : SwimMembership)
    (m : Member) : Prop where
  other : node ≠ s.self_
  self_ : s'.self_ = s.self_
  sinks : s'.sinks = s.sinks
  pending : s'.pending = s.pending
  flushing : s'.flushing = s.flushing
  members : s'.members = s.members.insert node m
  reported : m.reported = ((s.members.lookup node).map Member.reported).getD 0
  verified : m.verified = (((s.members.lookup node).map Member.verified).getD false || vouched)
  view : s'.verifiedSnapshot = s.verifiedSnapshot ∧ m.placeable = (s.members.lookup node).any Member.placeable ∨
    s'.verifiedSnapshot = s'.republish.verifiedSnapshot

/-- A change that subscribers are then told of; the cap on tombstones may follow. -/
inductive Transition (cfg : Config) (s : SwimMembership) (node : NodeId) (vouched : Bool) : SwimMembership → Prop
  | quiet {s' : SwimMembership} (h : Quiet s s') : Transition cfg s node vouched s'
  | note {s' : SwimMembership} {m : Member} {prev : MemberStatus} (h : Changed s node vouched s' m) :
      Transition cfg s node vouched (s'.noteTransition cfg node m prev)
  | cap {s' : SwimMembership} {m : Member} {prev : MemberStatus} (h : Changed s node vouched s' m) :
      Transition cfg s node vouched ((s'.noteTransition cfg node m prev).enforceTombCap cfg)

theorem createMember_transition (hother : node ≠ s.self_) (hnew : s.members.lookup node = none) :
    Transition cfg s node (src.firstHand st) (s.createMember cfg node inc st src now) := by
  unfold createMember
  split_ifs with hsecond hsuspect hfull htomb
  · exact .quiet (.refl s)
  · exact .quiet (.refl s)
  · exact .quiet (.refl s)
  · refine .cap ⟨hother, rfl, rfl, rfl, rfl, rfl, by rw [hnew]; rfl, by rw [hnew]; rfl, .inl ⟨rfl, ?_⟩⟩
    rw [hnew]
    simp [Member.placeable, newMember, htomb]
  · exact .cap ⟨hother, rfl, rfl, rfl, rfl, rfl, by rw [hnew]; rfl, by rw [hnew]; rfl, .inr rfl⟩

theorem mergeMember_transition (hother : node ≠ s.self_) (hcur : s.members.lookup node = some cur) :
    Transition cfg s node (src.firstHand st) (s.mergeMember cfg node cur inc st src now) := by
  unfold mergeMember
  dsimp only
  split
  · split
    · refine .note ⟨hother, rfl, rfl, rfl, rfl, rfl, by rw [hcur]; rfl, by rw [hcur]; rfl, .inr rfl⟩
    · exact .quiet (.refl s)
  · next next hnext =>
    generalize hm : s.takenMember cfg { cur with verified := cur.verified || src.firstHand st }
      (!cur.verified && src.firstHand st) inc next src now = m
    have hreported : m.reported = ((s.members.lookup node).map Member.reported).getD 0 := by
      rw [hcur, ← hm]
      rfl
    have hverified : m.verified = (((s.members.lookup node).map Member.verified).getD false || src.firstHand st) := by
      rw [hcur, ← hm]
      rfl
    by_cases hfresh : (!cur.verified && src.firstHand st) = true
    · rw [if_pos hfresh]
      split <;> exact .cap ⟨hother, rfl, rfl, rfl, rfl, rfl, hreported, hverified, .inr rfl⟩
    · rw [if_neg hfresh]
      by_cases hsame : cur.status.isTomb = next.isTomb
      · rw [if_pos hsame]
        refine .cap ⟨hother, rfl, rfl, rfl, rfl, rfl, hreported, hverified, .inl ⟨rfl, ?_⟩⟩
        have hstatus : m.status = next := by
          rw [← hm]
          rfl
        have hvouched : (cur.verified || src.firstHand st) = cur.verified := by
          cases hv : cur.verified with
          | true => rfl
          | false => simpa [hv] using hfresh
        rw [Member.placeable, hverified, hcur, any_some, Member.placeable, map_some, getD_some,
          hvouched, hstatus, hsame]
      · rw [if_neg hsame]
        exact .cap ⟨hother, rfl, rfl, rfl, rfl, rfl, hreported, hverified, .inr rfl⟩

theorem applyUpdate_transition :
    Transition cfg s node (src.firstHand st) (s.applyUpdate cfg node inc st src now) := by
  unfold applyUpdate
  split_ifs with hclient hdenied hself hsuppressed
  · exact .quiet (.refl s)
  · exact .quiet (.refl s)
  · exact .quiet quiet_refute
  · exact .quiet (.refl s)
  · split
    · next hnew => exact createMember_transition hself hnew
    · next cur hcur => exact mergeMember_transition hself hcur

/-- Entries that the placement view does not show are erased. -/
structure Erased (s s' : SwimMembership) : Prop where
  self_ : s'.self_ = s.self_
  sinks : s'.sinks = s.sinks
  view : s'.verifiedSnapshot = s.verifiedSnapshot
  pending : s'.pending = s.pending
  flushing : s'.flushing = s.flushing
  entry : ∀ id, s'.members.lookup id = s.members.lookup id ∨
    s'.members.lookup id = none ∧ (s.members.lookup id).any Member.placeable = false

theorem not_placeable_of_tomb (h : m.status.isTomb = true) : m.placeable = false := by
  rw [Member.placeable, h, Bool.not_true, Bool.and_false]

theorem Erased.own (h : Erased s s') : s'.doubted = true → s.doubted = true := by
  unfold doubted
  rw [h.self_]
  obtain hsame | ⟨hnone, -⟩ := h.entry s.self_
  · rw [hsame]
    exact fun hd => hd
  · rw [hnone]
    exact nofun

theorem Erased.refl (s : SwimMembership) : Erased s s := ⟨rfl, rfl, rfl, rfl, rfl, fun _ => .inl rfl⟩

theorem Erased.trans (h : Erased s s') (h' : Erased s' s'') : Erased s s'' := by
  refine ⟨h'.self_.trans h.self_, h'.sinks.trans h.sinks, h'.view.trans h.view, h'.pending.trans h.pending,
    h'.flushing.trans h.flushing, fun id => ?_⟩
  obtain hsame' | ⟨hnone', hshown'⟩ := h'.entry id
  · rw [hsame']
    exact h.entry id
  · obtain hsame | ⟨-, hshown⟩ := h.entry id
    · exact .inr ⟨hnone', by rw [← hsame]; exact hshown'⟩
    · exact .inr ⟨hnone', hshown⟩

theorem erased_eraseIf {p : NodeId → Member → Bool} (hp : ∀ id m, p id m = true → m.placeable = false) :
    Erased s { s with members := Table.eraseIf p s.members } := by
  refine ⟨rfl, rfl, rfl, rfl, rfl, fun id => ?_⟩
  rw [Table.lookup_eraseIf]
  cases hlookup : s.members.lookup id with
  | none => exact .inl rfl
  | some m =>
    cases hgone : p id m with
    | true => exact .inr ⟨by simp [hgone], hp id m hgone⟩
    | false => exact .inl (by simp [hgone])

theorem capVictim_tomb {v : Entry} (h : s.capVictim = some v) :
    s.members.lookup v.1 = some v.2 ∧ v.2.status.isTomb = true ∧ v.1 ≠ s.self_ := by
  have hall : ∀ v, s.capVictim = some v → v ∈ s.members.entries ∧ v.2.status.isTomb = true ∧ v.1 ≠ s.self_ := by
    unfold capVictim
    refine List.foldlRecOn (motive := fun best : Option Entry => ∀ v, best = some v →
      v ∈ s.members.entries ∧ v.2.status.isTomb = true ∧ v.1 ≠ s.self_) _ _
      (fun _ hnone => absurd hnone.symm (Option.some_ne_none _)) fun best hbest e he w hw => ?_
    split at hw
    · exact hbest w hw
    · next hskip =>
      simp only [Bool.or_eq_true, Bool.not_eq_true', not_or] at hskip
      have htomb : e.2.status.isTomb = true := by simpa using hskip.2
      have hother : e.1 ≠ s.self_ := by simpa using hskip.1
      cases best with
      | none =>
        cases hw
        exact ⟨he, htomb, hother⟩
      | some v' =>
        dsimp only at hw
        split at hw
        · cases hw
          exact ⟨he, htomb, hother⟩
        · exact hbest w hw
  exact ⟨Table.mem_entries_iff.mp (hall v h).1, (hall v h).2⟩

theorem erased_enforceTombCapFrom (n : Nat) : Erased s (enforceTombCapFrom cfg n s) := by
  induction n generalizing s with
  | zero => exact .refl s
  | succ n ih =>
    rw [enforceTombCapFrom]
    split
    · split
      · exact .refl s
      · next v hv =>
        obtain ⟨hlookup, htomb, -⟩ := capVictim_tomb hv
        refine Erased.trans ?_ ih
        refine ⟨rfl, rfl, rfl, rfl, rfl, fun id => ?_⟩
        by_cases hid : id = v.1
        · rw [hid, lookup_erase, hlookup]
          exact .inr ⟨rfl, not_placeable_of_tomb htomb⟩
        · exact .inl (lookup_erase_ne hid)
    · exact .refl s

theorem erased_reapTombstones : Erased s (s.reapTombstones cfg now) := by
  unfold reapTombstones
  dsimp only
  split
  · exact .refl s
  · have herased := erased_eraseIf (s := s) (p := fun id m =>
      id != s.self_ && m.status.isTomb && decide (cfg.tombstoneTtl ≤ now - m.death)) fun id m hp => by
        simp only [Bool.and_eq_true] at hp
        exact not_placeable_of_tomb hp.1.2
    exact herased.trans ⟨rfl, rfl, rfl, rfl, rfl, fun _ => .inl rfl⟩

theorem reapUnverified_cases (cfg : Config) (s : SwimMembership) (now : Int) :
    s.reapUnverified cfg now = s ∨
    ∃ s', Erased s s' ∧ s.reapUnverified cfg now = s'.republish := by
  unfold reapUnverified
  dsimp only
  split
  · exact .inl rfl
  · refine .inr ⟨_, ?_, rfl⟩
    have herased := erased_eraseIf (s := s) (p := fun id m =>
      id != s.self_ && !m.verified && !m.status.isTomb && decide (cfg.unverifiedTtl ≤ now - m.firstSeen))
        fun id m hp => by
        simp only [Bool.and_eq_true, Bool.not_eq_true'] at hp
        rw [Member.placeable, hp.1.1.2, Bool.false_and]
    exact herased.trans ⟨rfl, rfl, rfl, rfl, rfl, fun _ => .inl rfl⟩

def EventKind.aside : EventKind → Bool
  | .joined => false
  | .dead => false
  | .left => false
  | .evicted => false
  | _ => true

/-- What leaves the standing of the other nodes alone, or erases entries that the placement view does not show. -/
inductive Still (cfg : Config) : SwimMembership → SwimMembership → Prop
  | quiet {s s' : SwimMembership} (h : Quiet s s') : Still cfg s s'
  | erased {s s' : SwimMembership} (h : Erased s s') : Still cfg s s'
  | republish (s : SwimMembership) : Still cfg s s.republish
  | remark {s : SwimMembership} {e : Event} (h : e.kind.aside = true) :
      Still cfg s { s with pending := s.pending ++ [e] }
  | attach (s : SwimMembership) : Still cfg s { s with sinks := s.sinks + 1 }
  | leave (s : SwimMembership) : Still cfg s (s.leaveSelf cfg)
  | trans {s s' s'' : SwimMembership} (h : Still cfg s s') (h' : Still cfg s' s'') : Still cfg s s''

/-- What may change the standing of another node. -/
inductive Change
  | update (node : NodeId) (inc : UInt64) (st : MemberStatus) (src : Src)
  | unsuspect (node : NodeId)
  | reap (now : Int)

/-- A task makes at most one change, and only one of those it `may` make. -/
inductive Moves (cfg : Config) (may : Change → Prop) (s : SwimMembership) : SwimMembership → Prop
  | still {s' : SwimMembership} (h : Still cfg s s') : Moves cfg may s s'
  | update {s₁ s' : SwimMembership} {node : NodeId} {inc : UInt64} {st : MemberStatus} {src : Src} {now : Int}
      (h : Quiet s s₁) (hmay : may (.update node inc st src))
      (h' : Still cfg (s₁.applyUpdate cfg node inc st src now) s') : Moves cfg may s s'
  | unsuspect {s₁ s' : SwimMembership} {node : NodeId} {cur : Member} (h : Quiet s s₁)
      (hmay : may (.unsuspect node)) (hother : node ≠ s₁.self_) (hcur : s₁.members.lookup node = some cur)
      (h' : Still cfg (s₁.unsuspect cfg node cur) s') : Moves cfg may s s'
  | reap {now : Int} (hmay : may (.reap now)) : Moves cfg may s (s.reapSuspects cfg now)

section

variable {may : Change → Prop}

theorem Still.refl (s : SwimMembership) : Still cfg s s := .quiet (.refl s)

theorem still_pushEvent {kind : EventKind} (haside : kind.aside = true) : Still cfg s (s.pushEvent kind node m) := by
  unfold pushEvent
  split
  · exact .refl s
  · exact .remark haside

theorem still_refuse {ver : UInt8} {why : RefusalReason} {byPeer : Bool} :
    Still cfg s (s.refuse cfg node ver why byPeer) := by
  unfold refuse
  dsimp only
  split
  · exact .refl s
  · generalize hknown : (if (s.refusals.lookup node).isSome = true ∨ s.refusals.size < cfg.maxLiveMembers then
      { s with refusals := s.refusals.insert node ⟨why, ver⟩ } else s) = s₁
    have hquiet : Quiet s s₁ := by
      rw [← hknown]
      split
      · exact ⟨rfl, rfl, rfl, rfl, rfl, fun _ _ => rfl, fun h => h⟩
      · exact .refl s
    refine (Still.quiet hquiet).trans ?_
    split
    · exact .refl s₁
    · exact .remark rfl

theorem still_refuseAll {refusals : List ExtRefusal} :
    Still cfg s (refusals.foldl (fun s r => s.refuse cfg r.node r.version r.reason false) s) := by
  induction refusals generalizing s with
  | nil => exact .refl s
  | cons r refusals ih => exact still_refuse.trans ih

theorem moves_applyUpdate (hmay : may (.update node inc st src)) :
    Moves cfg may s (s.applyUpdate cfg node inc st src now) := .update (.refl s) hmay (.refl _)

theorem moves_evict (hmay : ∀ inc, may (.update node inc .dead .here)) : Moves cfg may s (s.evict cfg node now) := by
  have hon : Quiet s { s with evicting := true } := ⟨rfl, rfl, rfl, rfl, rfl, fun _ _ => rfl, fun h => h⟩
  exact .update hon (hmay _) (.quiet ⟨rfl, rfl, rfl, rfl, rfl, fun _ _ => rfl, fun h => h⟩)

theorem moves_lapseLease (hmay : ∀ inc, may (.update id inc .suspect .here)) :
    Moves cfg may s (s.lapseLease cfg id now) := by
  unfold lapseLease
  split
  · exact .still (.refl s)
  · next m hm =>
    split
    · exact .still (.refl s)
    · have hput : Quiet s (s.put id { m with leaseExpiredInc := m.incarnation }) := .put hm rfl
      exact .update hput (hmay _) (.refl _)

theorem still_onLeasedPeerSpoke {msg : ControlMsg} : Still cfg s (s.onLeasedPeerSpoke msg) := by
  unfold onLeasedPeerSpoke
  have hcleared : Still cfg s { s with leases := s.leases.erase msg.from_ } :=
    .quiet ⟨rfl, rfl, rfl, rfl, rfl, fun _ _ => rfl, fun h => h⟩
  split
  · exact .refl s
  · dsimp only
    split
    · exact .refl s
    · split
      · exact hcleared
      · exact hcleared.trans (still_pushEvent rfl)

theorem still_clearLeaseOnProofOfLife : Still cfg s (s.clearLeaseOnProofOfLife node) := by
  unfold clearLeaseOnProofOfLife
  have hcleared : Still cfg s { s with leases := s.leases.erase node } :=
    .quiet ⟨rfl, rfl, rfl, rfl, rfl, fun _ _ => rfl, fun h => h⟩
  dsimp only
  split
  · exact .refl s
  · split
    · exact hcleared
    · split
      · exact hcleared
      · exact hcleared.trans (still_pushEvent rfl)

theorem unsuspect_transition (hother : node ≠ s.self_) (hcur : s.members.lookup node = some cur) :
    Transition cfg s node false (s.unsuspect cfg node cur) := by
  unfold unsuspect
  split
  · next hsuspect =>
    generalize hm : s.unsuspected cur = m
    unfold unsuspected at hm
    rw [if_pos hsuspect] at hm
    have hchanged : Changed s node false
        { s.put node m with txPending := txPendingAfter s.txPending cur.txLeft m.txLeft } m := by
      refine ⟨hother, rfl, rfl, rfl, rfl, rfl, ?_, ?_, .inl ⟨rfl, ?_⟩⟩
      · rw [hcur, ← hm]
        rfl
      · rw [hcur, Bool.or_false, ← hm]
        rfl
      · rw [hcur, any_some, Member.placeable, Member.placeable, hsuspect, ← hm]
        rfl
    exact .note hchanged
  · exact .quiet (.refl s)

theorem quiet_dropProbeOf : Quiet s (s.dropProbeOf node) := by
  unfold dropProbeOf
  split
  · exact ⟨rfl, rfl, rfl, rfl, rfl, fun _ _ => rfl, fun h => h⟩
  · exact .refl s

theorem moves_onSuspendAnnounced {msg : ControlMsg} (hmay : may (.unsuspect msg.from_)) :
    Moves cfg may s (s.onSuspendAnnounced cfg msg now) := by
  unfold onSuspendAnnounced
  split
  · exact .still (.refl s)
  · next cur hcur =>
    split_ifs with hself htomb hstale hlapsed
    · exact .still (.refl s)
    · exact .still (.refl s)
    · exact .still (.refl s)
    · exact .still (.refl s)
    · split
      · exact .still (.refl s)
      · next leases _ =>
        have hleased : Quiet s { s with leases } := ⟨rfl, rfl, rfl, rfl, rfl, fun _ _ => rfl, fun h => h⟩
        have hdropped : Still cfg ({ s with leases }.unsuspect cfg msg.from_ cur)
            (({ s with leases }.unsuspect cfg msg.from_ cur).dropProbeOf msg.from_) := .quiet quiet_dropProbeOf
        refine .unsuspect hleased hmay hself hcur ?_
        unfold holdLease
        dsimp only
        split
        · exact hdropped
        · exact hdropped.trans (still_pushEvent rfl)

theorem still_reapUnverified : Still cfg s (s.reapUnverified cfg now) := by
  obtain hsame | ⟨s', herased, heq⟩ := reapUnverified_cases cfg s now
  · rw [hsame]
    exact .refl s
  · rw [heq]
    exact (Still.erased herased).trans (.republish _)

end

end Quark.Swim
