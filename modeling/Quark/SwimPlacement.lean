import Quark.SwimSubscribers
import Quark.SwimTasks

/-! How a node gets into the placement view of a `SwimMembership`: the host admitted it, or it was heard itself. -/
namespace Quark.Swim

open List Option SwimMembership

/-- The transport authenticated `sender` for a frame to this node that decodes to `m`. -/
def Node.heard (self_ : NodeId) (n : Node) (sender : NodeId) (m : ControlMsg) : Prop :=
  ∃ f ∈ n.received, f.from_ = sender ∧ f.to_ = self_ ∧ f.control = true ∧ f.payload = some m

/-- The host admitted the node, or it sent us a frame of our cluster and in our window. -/
def Node.known (cfg : Config) (self_ : NodeId) (n : Node) (id : NodeId) : Prop :=
  id ∈ n.admitted ∨ ∃ m, n.heard self_ id m ∧ m.from_ = id ∧ m.cluster = cfg.clusterId ∧
    cfg.wireVerdict m.wireVersion = .none

def Change.vouchedBy (known : NodeId → Prop) : Change → Prop
  | .update node _ st src => src.firstHand st = true → known node
  | _ => True

/-- Only known nodes are verified or in the placement view. -/
structure Placed (known : NodeId → Prop) (s : SwimMembership) : Prop where
  members : ∀ id, id ≠ s.self_ → (s.members.lookup id).any Member.verified = true → known id
  view : ∀ id, id ≠ s.self_ → id ∈ s.placementView → known id

section

variable {cfg : Config} {s s' : SwimMembership} {node id : NodeId} {m : Member} {prev : MemberStatus}
variable {known known' : NodeId → Prop}

theorem verified_of_republish (hid : id ≠ s.self_) (hin : id ∈ s.republish.verifiedSnapshot) :
    (s.members.lookup id).any Member.verified = true := by
  obtain ⟨m, hm, hplaceable⟩ := (any_eq_true _ _).mp ((mem_republish hid).mp hin)
  rw [Member.placeable, Bool.and_eq_true] at hplaceable
  rw [hm]
  exact hplaceable.1

namespace Placed

theorem same (h : Placed known s) (hself : s'.self_ = s.self_) (hview : s'.verifiedSnapshot = s.verifiedSnapshot)
    (hverified : ∀ id, id ≠ s.self_ →
      (s'.members.lookup id).any Member.verified = true → (s.members.lookup id).any Member.verified = true) :
    Placed known s' := by
  refine ⟨fun id hid hany => ?_, fun id hid hin => ?_⟩
  · rw [hself] at hid
    exact h.members id hid (hverified id hid hany)
  · rw [hself] at hid
    rw [placementView, hview] at hin
    exact h.view id hid hin

theorem quiet (h : Placed known s) (hquiet : Quiet s s') : Placed known s' := by
  refine h.same hquiet.self_ hquiet.view fun id hid hany => ?_
  have hsame := hquiet.any (fun p => p.2.1) hid
  exact hsame.symm.trans hany

theorem erased (h : Placed known s) (herased : Erased s s') : Placed known s' := by
  refine h.same herased.self_ herased.view fun id hid hany => ?_
  obtain hsame | ⟨hnone, -⟩ := herased.entry id
  · rwa [hsame] at hany
  · rw [hnone] at hany
    cases hany

theorem republish (h : Placed known s) : Placed known s.republish :=
  ⟨h.members, fun id hid hin => h.members id hid (verified_of_republish hid hin)⟩

end Placed

theorem verified_noteTransition (hm : s.members.lookup node = some m) :
    (s.noteTransition cfg node m prev).verifiedSnapshot = s.verifiedSnapshot ∧
      ∀ id, ((s.noteTransition cfg node m prev).members.lookup id).any Member.verified =
        (s.members.lookup id).any Member.verified := by
  refine ⟨?_, fun id => ?_⟩
  · unfold noteTransition
    dsimp only
    split_ifs
    all_goals try rw [pushEvent_members.1]
    all_goals rfl
  · have hsame : ((s.noteTransition cfg node m prev).members.lookup id).map Member.verified =
        (s.members.lookup id).map Member.verified := lookup_noteTransition _ (fun _ _ => rfl) hm
    have hany := congrArg (Option.any fun b => b) hsame
    rwa [Option.any_map, Option.any_map] at hany

namespace Placed

theorem noted (h : Placed known s) (hm : s.members.lookup node = some m) :
    Placed known (s.noteTransition cfg node m prev) := by
  refine h.same self_noteTransition.1 (verified_noteTransition hm).1 fun id _ hany => ?_
  rwa [(verified_noteTransition hm).2] at hany

theorem changed {fresh : Bool} (h : Placed known s) (hchanged : Changed s node fresh s' m)
    (hfresh : fresh = true → known node) : Placed known s' := by
  have hmembers : ∀ id, id ≠ s'.self_ → (s'.members.lookup id).any Member.verified = true → known id := by
    intro id hid hany
    rw [hchanged.self_] at hid
    by_cases hnode : id = node
    · rw [hnode, hchanged.members, AList.lookup_insert, any_some, hchanged.verified, Bool.or_eq_true] at hany
      rw [hnode]
      obtain hwas | hnew := hany
      · refine h.members node hchanged.other ?_
        cases hcur : s.members.lookup node with
        | none =>
          rw [hcur] at hwas
          cases hwas
        | some cur =>
          rw [hcur] at hwas
          exact hwas
      · exact hfresh hnew
    · rw [hchanged.members, AList.lookup_insert_ne hnode] at hany
      exact h.members id hid hany
  refine ⟨hmembers, fun id hid hin => ?_⟩
  obtain ⟨hview, -⟩ | hview := hchanged.view
  · rw [placementView, hview] at hin
    rw [hchanged.self_] at hid
    exact h.view id hid hin
  · rw [placementView, hview] at hin
    exact hmembers id hid (verified_of_republish hid hin)

theorem transition {fresh : Bool} (h : Placed known s) (htransition : Transition cfg s node fresh s')
    (hfresh : fresh = true → known node) : Placed known s' := by
  cases htransition with
  | quiet hquiet => exact h.quiet hquiet
  | note hchanged =>
    exact (h.changed hchanged hfresh).noted (by rw [hchanged.members, AList.lookup_insert])
  | cap hchanged =>
    refine Placed.erased ?_ (erased_enforceTombCapFrom _)
    exact (h.changed hchanged hfresh).noted (by rw [hchanged.members, AList.lookup_insert])

theorem left (h : Placed known s) : Placed known (s.leaveSelf cfg) := by
  unfold leaveSelf
  have hput : Quiet s { s.put s.self_ s.departed with
      selfIncarnation := s.departed.incarnation, selfLeft := true } := by
    refine Quiet.congr (.putSelf (m := s.departed) fun hsuspect => ?_) rfl rfl rfl rfl rfl rfl
    cases hsuspect
  generalize s.departed = me at hput ⊢
  exact (h.quiet hput).republish.noted (AList.lookup_insert _)

theorem noteAll {ids : List NodeId} (h : Placed known s) :
    Placed known (ids.foldl (noteDied cfg) s) := by
  induction ids generalizing s with
  | nil => exact h
  | cons id ids ih =>
    refine ih ?_
    unfold noteDied
    split
    · exact h
    · next m hm => exact h.noted hm

theorem reaped {now : Int} (h : Placed known s) : Placed known (s.reapSuspects cfg now) := by
  have hkilled : Placed known (s.killSuspects cfg now) := by
    refine h.same rfl rfl fun id _ hany => ?_
    rwa [any_killSuspects fun _ => rfl] at hany
  unfold reapSuspects
  refine Placed.erased (noteAll ?_) (erased_enforceTombCapFrom _)
  split
  · exact hkilled
  · exact hkilled.republish

theorem still (h : Placed known s) (hstill : Still cfg s s') : Placed known s' := by
  induction hstill with
  | quiet hquiet => exact h.quiet hquiet
  | erased herased => exact h.erased herased
  | republish s => exact h.republish
  | remark _ => exact ⟨h.members, h.view⟩
  | attach s => exact ⟨h.members, h.view⟩
  | leave s => exact h.left
  | trans _ _ ih ih' => exact ih' (ih h)

theorem moves (h : Placed known s) (hmoves : Moves cfg (Change.vouchedBy known) s s') : Placed known s' := by
  cases hmoves with
  | still hstill => exact h.still hstill
  | update hbefore hmay hafter => exact ((h.quiet hbefore).transition applyUpdate_transition hmay).still hafter
  | unsuspect hbefore _ hother hcur hafter =>
    exact ((h.quiet hbefore).transition (unsuspect_transition hother hcur) nofun).still hafter
  | reap _ => exact h.reaped

theorem mono (h : Placed known s) (hknown : ∀ id, known id → known' id) : Placed known' s :=
  ⟨fun id hid hany => hknown id (h.members id hid hany), fun id hid hin => hknown id (h.view id hid hin)⟩

end Placed

/-- What a node knows of the others so far. -/
def Node.trust (cfg : Config) (self_ : NodeId) (n : Node) : Trust cfg where
  self_
  may := Change.vouchedBy (n.known cfg self_)
  heard := n.heard self_
  hearsay _ _ st _ hfirst := by cases st <;> cases hfirst
  suspicion _ _ hfirst := by cases hfirst
  unsuspect _ := trivial
  direct m hheard hours hwindow :=
    { alive := fun _ _ _ _ => .inr ⟨m, hheard, rfl, hours, hwindow⟩
      farewell := nofun
      snapshot := fun _ _ _ _ hfirst => by cases hfirst }

/-- A node between two tasks. -/
structure Founded (cfg : Config) (self_ : NodeId) (n : Node) : Prop where
  same : n.swim.self_ = self_
  placed : Placed (n.known cfg self_) n.swim
  fine : ∀ t ∈ n.todo, t.plain = true → t.Fine (n.trust cfg self_)

namespace Founded

variable {self_ : NodeId} {env : Env} {n n' : Node} {t : Task} {rest : List Task} {l : Label}

theorem ran (h : Founded cfg self_ n) (htodo : n.todo = t :: rest) :
    Founded cfg self_ (n.ran (n.swim.exec cfg env t) rest) := by
  have hhead : t.plain = true → t.Fine (n.trust cfg self_) := h.fine t (by rw [htodo]; exact mem_cons_self)
  obtain ⟨⟨s', pending, flushing, hmoves, heq⟩, hfine⟩ :=
    fine_exec h.same hhead (fun _ => nofun) fun _ _ => trivial
  have hplaced : Placed (n.known cfg self_) s' := h.placed.moves hmoves
  refine ⟨?_, ?_, fun u hu hplain => ?_⟩
  · rw [Node.ran, heq]
    exact hmoves.keeps.1.trans h.same
  · change Placed (n.known cfg self_) (n.swim.exec cfg env t).swim
    rw [heq]
    exact ⟨hplaced.members, hplaced.view⟩
  · rcases mem_append.mp hu with hu | hu
    · exact hfine u hu hplain
    · exact h.fine u (by rw [htodo]; exact mem_cons_of_mem _ hu) hplain

theorem called (h : Founded cfg self_ n) (c : Call) : Founded cfg self_ (n.called c) := by
  have hreceived : ∀ f ∈ n.received, f ∈ (n.called c).received := by
    intro f hf
    cases c with
    | frame g => exact mem_append_left _ hf
    | _ => exact hf
  have hheard : ∀ id m, n.heard self_ id m → (n.called c).heard self_ id m := by
    rintro id m ⟨f, hf, hauthentic⟩
    exact ⟨f, hreceived f hf, hauthentic⟩
  have hknown : ∀ id, n.known cfg self_ id → (n.called c).known cfg self_ id := by
    rintro id (hadmitted | ⟨m, hm, hours⟩)
    · refine .inl ?_
      cases c with
      | admit_ joiner presented => exact mem_append_left _ hadmitted
      | _ => exact hadmitted
    · exact .inr ⟨m, hheard id m hm, hours⟩
  refine ⟨h.same, h.placed.mono hknown, fun t ht hplain => ?_⟩
  rcases mem_cons.mp ht with rfl | ht
  · cases c with
    | frame f => exact fun hto hcontrol m hm => ⟨f, mem_concat_self, rfl, hto, hcontrol, hm⟩
    | admit_ joiner presented => exact fun _ _ => .inl mem_concat_self
    | leave who => exact nofun
    | _ => trivial
  · rcases mem_cons.mp ht with rfl | ht
    · trivial
    · exact (h.fine t ht hplain).mono rfl (fun node _ _ _ hmay hfirst => hknown node (hmay hfirst)) hheard

theorem beside {s : SwimMembership} (h : Founded cfg self_ n) (hquiet : Quiet n.swim s) :
    Founded cfg self_ { n with swim := s } :=
  ⟨hquiet.self_.trans h.same, h.placed.quiet hquiet, h.fine⟩

theorem step (h : Founded cfg self_ n) (hstep : n.step cfg l = some n') : Founded cfg self_ n' := by
  obtain ⟨c, -, -, rfl⟩ | ⟨env, t, rest, htodo, rfl⟩ | ⟨s, hquiet, rfl⟩ := Node.step_cases hstep
  · exact h.called c
  · exact h.ran htodo
  · exact h.beside hquiet

theorem start {drawn : UInt64} {sinks : Nat} : Founded cfg self_ (Node.start cfg self_ drawn sinks) := by
  have hmembers : ∀ id, id ≠ self_ →
      ((Node.start cfg self_ drawn sinks).swim.members.lookup id).any Member.verified = true → False := by
    intro id hid hany
    rw [show (Node.start cfg self_ drawn sinks).swim.members.lookup id = none from
      (AList.lookup_insert_ne hid).trans (AList.lookup_empty id)] at hany
    cases hany
  refine ⟨rfl, ⟨fun id hid hany => (hmembers id hid hany).elim, fun id hid hin => ?_⟩,
    fun _ ht _ => absurd ht not_mem_nil⟩
  exact (hmembers id hid (verified_of_republish hid hin)).elim

end Founded

/-- Another node is placed only if the host admitted it or it was heard itself, whatever the others sent. -/
theorem placementView_only_known (cfg : Config) (self_ : NodeId) (drawn : UInt64) (sinks : Nat) (n : Node)
    (h : Machine.Reachable (Node.step cfg.sanitize) (Node.start cfg.sanitize self_ drawn sinks) n) (id : NodeId)
    (hother : id ≠ self_) (hplaced : id ∈ n.swim.placementView) : n.known cfg.sanitize self_ id := by
  have hfounded : Founded cfg.sanitize self_ n :=
    Machine.Reachable.invariant h Founded.start fun _ _ _ hinv hstep => hinv.step hstep
  exact hfounded.placed.view id (by rw [hfounded.same]; exact hother) hplaced

def acknowledgement : MessageFrame where
  from_ := 2
  to_ := 1
  control := true
  payload := some { kind := .ack, from_ := 2, fromIncarnation := 1, wireVersion := 2, updates := [⟨3, 1, 0⟩] }

theorem placementView_only_known_heard : ∃ n, Machine.run (Node.step (Config.sanitize {}))
      (Node.start (Config.sanitize {}) 1 0 1)
      (.call (.frame acknowledgement) :: List.replicate 8 (.run {})) = some n ∧
    n.admitted = [] ∧ n.swim.view = [1, 2, 3] ∧ 2 ∈ n.swim.placementView ∧ n.known (Config.sanitize {}) 1 2 := by
  obtain ⟨n, hn, hfacts⟩ := map_eq_some_iff.mp (show (Machine.run (Node.step (Config.sanitize {}))
    (Node.start (Config.sanitize {}) 1 0 1) (.call (.frame acknowledgement) ::
    List.replicate 8 (.run {}))).map (fun n =>
      (n.admitted, n.swim.view, n.swim.placementView)) = some ([], [1, 2, 3], [1, 2]) by decide +kernel)
  obtain ⟨hadmitted, hfacts⟩ := Prod.mk.inj hfacts
  obtain ⟨hview, hplacement⟩ := Prod.mk.inj hfacts
  have hplaced : 2 ∈ n.swim.placementView := by
    rw [hplacement]
    decide
  exact ⟨n, hn, hadmitted, hview, hplaced,
    placementView_only_known {} 1 0 1 n (Machine.reachable_of_run hn) 2 (by decide) hplaced⟩

end

end Quark.Swim
