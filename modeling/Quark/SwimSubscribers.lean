import Mathlib.Data.Finset.Basic
import Quark.SwimTransitions

/-! What a subscriber makes of the events of a `SwimMembership`: the nodes it was told of are those of the placement
view. -/
namespace Quark.Swim

open AList List Option SwimMembership

/-- `Joined` adds a node, `Dead`, `Left` and `Evicted` remove it. -/
def hears (nodes : Finset NodeId) (e : Event) : Finset NodeId :=
  match e.kind with
  | .joined => insert e.node nodes
  | .dead => nodes.erase e.node
  | .left => nodes.erase e.node
  | .evicted => nodes.erase e.node
  | _ => nodes

def roster (es : List Event) : Finset NodeId := es.foldl hears ∅

/-- No `Joined` for a node that is there already. -/
def FreshJoins (es : List Event) : Prop :=
  ∀ before e after, es = before ++ e :: after → e.kind = .joined → e.node ∉ roster before

section

variable {nodes : Finset NodeId} {es : List Event} {e : Event} {id : NodeId}

@[simp] theorem roster_concat : roster (es ++ [e]) = hears (roster es) e := by
  simp [roster, foldl_append]

theorem mem_hears_of_ne (hne : id ≠ e.node) : id ∈ hears nodes e ↔ id ∈ nodes := by
  unfold hears
  split <;> simp [hne]

theorem not_mem_roster (h : ∀ e ∈ es, e.kind = .joined → e.node ≠ id) : id ∉ roster es := by
  induction es using List.reverseRecOn with
  | nil => exact Finset.notMem_empty id
  | append_singleton es e ih =>
    have hbefore : id ∉ roster es := ih fun e' he' => h e' (mem_append_left _ he')
    rw [roster_concat]
    by_cases heq : id = e.node
    · have hkind : e.kind ≠ .joined := fun hk => h e (mem_append_right _ mem_cons_self) hk heq.symm
      unfold hears
      split <;> simp_all
    · rwa [mem_hears_of_ne heq]

theorem FreshJoins.nil : FreshJoins [] := by
  intro before e after heq
  cases before <;> cases heq

theorem FreshJoins.concat (h : FreshJoins es) (he : e.kind = .joined → e.node ∉ roster es) :
    FreshJoins (es ++ [e]) := by
  intro before e' after heq hkind
  rcases eq_nil_or_concat after with rfl | ⟨after', last, rfl⟩
  · obtain ⟨rfl, hlast⟩ := append_inj' heq rfl
    cases hlast
    exact he hkind
  · rw [concat_eq_append, ← cons_append, ← append_assoc] at heq
    obtain ⟨rfl, -⟩ := append_inj' heq rfl
    exact h before e' after' rfl hkind

theorem FreshJoins.of_append {es' : List Event} (h : FreshJoins (es ++ es')) : FreshJoins es := by
  intro before e after heq hkind
  refine h before e (after ++ es') ?_ hkind
  rw [heq, append_assoc, cons_append]

end

namespace SwimMembership

variable (s : SwimMembership)

def tells (id : NodeId) : Bool := (s.members.lookup id).any fun m => m.reported == 1

end SwimMembership

/-- The events raised so far and the published view follow the member table; of a dirty node the subscribers are
still to be told. -/
structure Follows (raised : List Event) (s : SwimMembership) (dirty : NodeId → Prop) : Prop where
  sinks : s.sinks ≠ 0
  sure : ¬ s.doubted = true
  others : ∀ e ∈ raised, e.kind = .joined → e.node ≠ s.self_
  fresh : FreshJoins raised
  view : ∀ id, id ≠ s.self_ → (id ∈ s.verifiedSnapshot ↔ s.shows id = true)
  told : ∀ id, id ≠ s.self_ → (id ∈ roster raised ↔ s.tells id = true)
  vouched : ∀ id, id ≠ s.self_ → s.tells id = true → (s.members.lookup id).any Member.verified = true
  settled : ∀ id, id ≠ s.self_ → ¬ dirty id → s.tells id = s.shows id

/-- Of every node they have been told. -/
def InStep (raised : List Event) (s : SwimMembership) : Prop := Follows raised s fun _ => False

/-- `s'` comes from `s` by raising events, and view and subscribers stay in step. -/
def Keeps (s s' : SwimMembership) : Prop :=
  s'.self_ = s.self_ ∧ s'.flushing = s.flushing ∧
    ∀ raised, InStep raised s → ∃ es, s'.pending = s.pending ++ es ∧ InStep (raised ++ es) s'

section

variable {cfg : Config} {env : Env} {s s' s'' : SwimMembership} {node id : NodeId} {m cur : Member}
variable {inc : UInt64} {st prev : MemberStatus} {src : Src} {now : Int} {raised : List Event}
variable {dirty : NodeId → Prop} {e : Event}

theorem mem_sortIds {ids : List NodeId} : id ∈ sortIds ids ↔ id ∈ ids := by
  rw [sortIds, mem_insertionSort]

theorem mem_republish (hid : id ≠ s.self_) : id ∈ s.republish.verifiedSnapshot ↔ s.shows id = true := by
  simp only [republish, live, mem_sortIds, List.mem_map, List.mem_filter]
  rw [shows, Option.any_eq_true]
  constructor
  · rintro ⟨⟨id', m⟩, ⟨⟨hin, hlive⟩, hverified⟩, rfl⟩
    refine ⟨m, Table.mem_entries_iff.mp hin, ?_⟩
    simpa [Member.placeable, hid, hlive] using hverified
  · rintro ⟨m, hm, hplaceable⟩
    simp only [Member.placeable, Bool.and_eq_true, Bool.not_eq_true'] at hplaceable
    exact ⟨⟨id, m⟩, ⟨⟨Table.mem_entries_iff.mpr hm, by simp [hplaceable.2]⟩, by simp [hplaceable.1]⟩, rfl⟩

theorem Follows.congr (h : Follows raised s dirty) (hself : s'.self_ = s.self_) (hsinks : s'.sinks ≠ 0)
    (hview : s'.verifiedSnapshot = s.verifiedSnapshot) (hshows : ∀ id, id ≠ s.self_ → s'.shows id = s.shows id)
    (htells : ∀ id, id ≠ s.self_ → s'.tells id = s.tells id)
    (hvouched : ∀ id, id ≠ s.self_ → s'.tells id = true → (s'.members.lookup id).any Member.verified = true)
    (hown : s'.doubted = true → s.doubted = true) : Follows raised s' dirty := by
  refine ⟨hsinks, fun hd => h.sure (hown hd), by rw [hself]; exact h.others, h.fresh, ?_, ?_, ?_, ?_⟩
  all_goals rw [hself]; intro id hid
  · rw [hview, hshows id hid]
    exact h.view id hid
  · rw [htells id hid]
    exact h.told id hid
  · exact hvouched id hid
  · rw [htells id hid, hshows id hid]
    exact h.settled id hid

theorem Follows.same (h : Follows raised s dirty) (hself : s'.self_ = s.self_) (hsinks : s'.sinks ≠ 0)
    (hview : s'.verifiedSnapshot = s.verifiedSnapshot) (hmembers : s'.members = s.members) :
    Follows raised s' dirty := by
  have htells : ∀ id, s'.tells id = s.tells id := fun id => by rw [tells, hmembers]; rfl
  refine h.congr hself hsinks hview (fun id _ => by rw [shows, hmembers]; rfl) (fun id _ => htells id)
    (fun id hid htold => ?_) fun hd => ?_
  · rw [hmembers]
    exact h.vouched id hid (by rw [← htells]; exact htold)
  · unfold doubted at hd
    rw [hself, hmembers] at hd
    exact hd

theorem Follows.quiet (h : Follows raised s dirty) (hquiet : Quiet s s') : Follows raised s' dirty := by
  have htells : ∀ id, id ≠ s.self_ → s'.tells id = s.tells id := fun id hid => hquiet.any (fun p => p.2.2.1 == 1) hid
  refine h.congr hquiet.self_ (by rw [hquiet.sinks]; exact h.sinks) hquiet.view
    (fun id hid => hquiet.any (fun p => p.2.1 && !p.1.isTomb) hid) htells ?_ hquiet.own
  intro id hid htold
  have hverified : (s'.members.lookup id).any Member.verified = (s.members.lookup id).any Member.verified :=
    hquiet.any (fun p => p.2.1) hid
  rw [hverified]
  exact h.vouched id hid (by rw [← htells id hid]; exact htold)

theorem Follows.republish (h : Follows raised s dirty) : Follows raised s.republish dirty :=
  ⟨h.sinks, h.sure, h.others, h.fresh, fun _ hid => mem_republish hid, h.told, h.vouched, h.settled⟩

theorem Follows.relax {dirty' : NodeId → Prop} (h : Follows raised s dirty)
    (hsettled : ∀ id, id ≠ s.self_ → ¬ dirty' id → s.tells id = s.shows id) : Follows raised s dirty' :=
  { h with settled := hsettled }

theorem Follows.othersConcat (h : Follows raised s dirty) (he : e.kind = .joined → e.node ≠ s.self_) :
    ∀ e' ∈ raised ++ [e], e'.kind = .joined → e'.node ≠ s.self_ := by
  intro e' he'
  rcases mem_append.mp he' with hin | hlast
  · exact h.others e' hin
  · rw [mem_singleton.mp hlast]
    exact he

theorem Follows.tell {r : UInt8} (h : Follows raised s dirty) (hother : node ≠ s.self_)
    (hm : s.members.lookup node = some m) (he : e.node = node) (hnew : m.reported ≠ r)
    (hkind : (e.kind = .joined ∧ r = 1 ∧ m.placeable = true) ∨
      ((∀ nodes, hears nodes e = nodes.erase node) ∧ e.kind ≠ .joined ∧ r ≠ 1 ∧ m.placeable = false)) :
    Follows (raised ++ [e]) (s.put node { m with reported := r }) fun id => dirty id ∧ id ≠ node := by
  have hlookup : ∀ id, id ≠ node → (s.members.insert node { m with reported := r }).lookup id = s.members.lookup id :=
    fun id hid => lookup_insert_ne hid
  have htells : (s.put node { m with reported := r }).tells node = (r == 1) := by
    rw [tells, put, lookup_insert]
    rfl
  have hshows : (s.put node { m with reported := r }).shows node = m.placeable := by
    rw [shows, put, lookup_insert]
    rfl
  have hwas : s.tells node = (m.reported == 1) := by
    rw [tells, hm]
    rfl
  have hshown : s.shows node = m.placeable := by
    rw [shows, hm]
    rfl
  have hother' : ∀ id, id ≠ node → (s.put node { m with reported := r }).tells id = s.tells id ∧
      (s.put node { m with reported := r }).shows id = s.shows id := by
    intro id hid
    rw [tells, shows, put, hlookup id hid]
    exact ⟨rfl, rfl⟩
  refine ⟨h.sinks, fun hd => h.sure ?_, h.othersConcat fun _ => by rw [he]; exact hother, h.fresh.concat fun hk => ?_,
    fun id hid => ?_, fun id hid => ?_, fun id hid htold => ?_, fun id hid hclean => ?_⟩
  · unfold doubted put at hd
    rw [hlookup _ hother.symm] at hd
    exact hd
  · obtain ⟨-, rfl, -⟩ | ⟨-, hno, -⟩ := hkind
    · rw [he, h.told node hother, hwas]
      simpa using hnew
    · exact absurd hk hno
  · by_cases hne : id = node
    · rw [hne, hshows, ← hshown]
      exact h.view node hother
    · rw [(hother' id hne).2]
      exact h.view id hid
  · by_cases hne : id = node
    · rw [hne, roster_concat, htells]
      obtain ⟨hk, rfl, -⟩ | ⟨herase, -, hr, -⟩ := hkind
      · simp [hears, hk, he]
      · simp [herase, hr]
    · rw [roster_concat, mem_hears_of_ne (by rw [he]; exact hne), (hother' id hne).1]
      exact h.told id hid
  · by_cases hne : id = node
    · subst hne
      rw [htells] at htold
      obtain ⟨-, -, hplaceable⟩ | ⟨-, -, hr, -⟩ := hkind
      · rw [put, lookup_insert]
        rw [Member.placeable, Bool.and_eq_true] at hplaceable
        exact hplaceable.1
      · exact absurd (by simpa using htold) hr
    · rw [put, hlookup id hne]
      exact h.vouched id hid (by rw [← (hother' id hne).1]; exact htold)
  · by_cases hne : id = node
    · rw [hne, htells, hshows]
      obtain ⟨-, rfl, hplaceable⟩ | ⟨-, -, hr, hplaceable⟩ := hkind
      · rw [hplaceable]
        rfl
      · rw [hplaceable]
        simpa using hr
    · rw [(hother' id hne).1, (hother' id hne).2]
      exact h.settled id hid fun hdirty => hclean ⟨hdirty, hne⟩

theorem Follows.silent (h : Follows raised s dirty) (hm : s.members.lookup node = some m)
    (hsettled : (m.reported == 1) = m.placeable) : Follows raised s fun id => dirty id ∧ id ≠ node := by
  refine h.relax fun id hid hclean => ?_
  by_cases hne : id = node
  · rw [hne, tells, shows, hm]
    exact hsettled
  · exact h.settled id hid fun hdirty => hclean ⟨hdirty, hne⟩

theorem pushEvent_eq (hsinks : s.sinks ≠ 0) (kind : EventKind) (node : NodeId) (m : Member) :
    ∃ e, e.kind = kind ∧ e.node = node ∧ s.pushEvent kind node m = { s with pending := s.pending ++ [e] } := by
  unfold pushEvent
  rw [if_neg hsinks]
  exact ⟨_, rfl, rfl, rfl⟩

theorem Follows.remark (h : Follows raised s dirty) (hjoined : e.kind ≠ .joined)
    (hkind : e.node = s.self_ ∨ ∀ nodes, hears nodes e = nodes) :
    Follows (raised ++ [e]) { s with pending := s.pending ++ [e] } dirty := by
  refine ⟨h.sinks, h.sure, h.othersConcat fun hk => absurd hk hjoined, h.fresh.concat fun hk => absurd hk hjoined,
    h.view, fun id hid => ?_, h.vouched, h.settled⟩
  rw [roster_concat]
  obtain hself | hsame := hkind
  · rw [mem_hears_of_ne (by rw [hself]; exact hid)]
    exact h.told id hid
  · rw [hsame]
    exact h.told id hid

theorem Follows.push {kind : EventKind} (h : Follows raised s dirty) (hjoined : kind ≠ .joined)
    (hkind : node = s.self_ ∨ ∀ nodes e, e.kind = kind → hears nodes e = nodes) (m : Member) :
    ∃ es, (s.pushEvent kind node m).pending = s.pending ++ es ∧ Follows (raised ++ es)
    (s.pushEvent kind node m) dirty := by
  obtain ⟨e, hk, hnode, heq⟩ := pushEvent_eq h.sinks kind node m
  rw [heq]
  refine ⟨[e], rfl, h.remark (by rw [hk]; exact hjoined) ?_⟩
  exact hkind.imp (fun hself => hnode.trans hself) fun hneutral nodes => hneutral nodes e hk

theorem Follows.noteSelf (h : Follows raised s dirty) (cfg : Config) (hgone : m.status.isTomb = true)
    (prev : MemberStatus) : ∃ es, (s.noteTransition cfg s.self_ m prev).pending = s.pending ++ es ∧
      Follows (raised ++ es) (s.noteTransition cfg s.self_ m prev) dirty := by
  have hsure : ∀ r, ({ m with reported := r } : Member).status = .suspect → s.doubted = true := by
    intro r hsuspect
    rw [show m.status = .suspect from hsuspect] at hgone
    cases hgone
  have hput : ∀ r, Follows raised (s.put s.self_ { m with reported := r }) dirty :=
    fun r => h.quiet (.putSelf (hsure r))
  have hleases : Follows raised { s with leases := s.leases.erase s.self_ } dirty := h.same rfl h.sinks rfl rfl
  have hputLeases : ∀ r, Follows raised
      ({ s with leases := s.leases.erase s.self_ }.put s.self_ { m with reported := r }) dirty :=
    fun r => hleases.quiet (.putSelf (hsure r))
  unfold noteTransition
  rw [if_pos hgone]
  dsimp only
  split_ifs
  all_goals first
    | exact (hput _).push (by decide) (.inl rfl) m
    | exact (hputLeases _).push (by decide) (.inl rfl) m
    | exact ⟨[], (append_nil _).symm, by rw [append_nil]; exact h⟩
    | exact ⟨[], (append_nil _).symm, by rw [append_nil]; exact hleases⟩

theorem Follows.note (h : Follows raised s dirty) (hother : node ≠ s.self_) (hm : s.members.lookup node = some m) :
    ∃ es, (s.noteTransition cfg node m prev).pending = s.pending ++ es ∧
      Follows (raised ++ es) (s.noteTransition cfg node m prev) fun id => dirty id ∧ id ≠ node := by
  have hvouched : (m.reported == 1) = true → m.verified = true := by
    intro hreported
    have hv := h.vouched node hother (by rw [tells, hm]; exact hreported)
    rwa [hm] at hv
  unfold noteTransition
  by_cases htomb : m.status.isTomb = true
  · rw [if_pos htomb]
    have hgone : m.placeable = false := by rw [Member.placeable, htomb, Bool.not_true, Bool.and_false]
    generalize hcleared : (if cfg.testFaults.keepLeaseOnTombstone = true then s
      else { s with leases := s.leases.erase node }) = s₁
    obtain ⟨hself, hpending, hmembers, hfollows⟩ : s₁.self_ = s.self_ ∧ s₁.pending = s.pending ∧
        s₁.members = s.members ∧ Follows raised s₁ dirty := by
      rw [← hcleared]
      split
      · exact ⟨rfl, rfl, rfl, h⟩
      · exact ⟨rfl, rfl, rfl, h.same rfl h.sinks rfl rfl⟩
    rw [← hpending]
    rw [← hmembers] at hm
    dsimp only
    split
    · next hreported =>
      obtain ⟨e, hkind, hnode, heq⟩ := pushEvent_eq (s := s₁.put node { m with reported := m.status.code })
        hfollows.sinks (if m.status = .left then .left else if s₁.evicting then .evicted else .dead) node m
      rw [heq]
      have hcode : m.status.code ≠ 1 := by
        cases hstatus : m.status <;> rw [hstatus] at htomb <;> first | decide | cases htomb
      have herase : (∀ nodes, hears nodes e = nodes.erase node) ∧ e.kind ≠ .joined := by
        rw [← hnode]
        unfold hears
        rw [hkind]
        split_ifs <;> exact ⟨fun _ => rfl, by decide⟩
      exact ⟨[e], rfl, (hfollows.tell (by rw [hself]; exact hother) hm hnode hreported.2
        (.inr ⟨herase.1, herase.2, hcode, hgone⟩)).same rfl hfollows.sinks rfl rfl⟩
    · next hreported =>
      refine ⟨[], (append_nil _).symm, ?_⟩
      rw [append_nil]
      refine hfollows.silent hm ?_
      rw [hgone, beq_eq_false_iff_ne]
      rintro hone
      refine hreported ⟨by rw [hone]; decide, ?_⟩
      rw [hone]
      cases hstatus : m.status <;> rw [hstatus] at htomb <;> first | decide | cases htomb
  · rw [if_neg htomb]
    have hlive : m.placeable = m.verified := by
      rw [Member.placeable, Bool.eq_false_iff.mpr htomb, Bool.not_false, Bool.and_true]
    by_cases hunverified : m.verified = false
    · rw [if_pos ⟨hunverified, hother⟩]
      refine ⟨[], (append_nil _).symm, ?_⟩
      rw [append_nil]
      refine h.silent hm ?_
      rw [hlive, hunverified, Bool.eq_false_iff]
      intro hreported
      rw [hvouched hreported] at hunverified
      cases hunverified
    · rw [if_neg fun hboth => hunverified hboth.1]
      have hverified : m.verified = true := by simpa using hunverified
      by_cases hnew : m.reported ≠ 1
      · rw [if_pos hnew]
        obtain ⟨e, hkind, hnode, heq⟩ :=
            pushEvent_eq (s := s.put node { m with reported := 1 }) h.sinks .joined node m
        rw [heq]
        exact ⟨[e], rfl, (h.tell hother hm hnode hnew
          (.inl ⟨hkind, rfl, by rw [hlive, hverified]⟩)).same rfl h.sinks rfl rfl⟩
      · rw [if_neg hnew]
        have hsilent : Follows raised s fun id => dirty id ∧ id ≠ node :=
          h.silent hm (by rw [hlive, hverified, not_not.mp hnew]; rfl)
        split_ifs
        · exact hsilent.push (by decide) (.inr fun _ _ hk => by rw [hears, hk]) m
        · exact hsilent.push (by decide) (.inr fun _ _ hk => by rw [hears, hk]) m
        · exact ⟨[], (append_nil _).symm, by rw [append_nil]; exact hsilent⟩

theorem InStep.erased (h : InStep raised s) (herased : Erased s s') : InStep raised s' := by
  have hsame : ∀ id, id ≠ s.self_ → s'.shows id = s.shows id ∧ s'.tells id = s.tells id := by
    intro id hid
    obtain hentry | ⟨hnone, hshown⟩ := herased.entry id
    · rw [shows, tells, hentry]
      exact ⟨rfl, rfl⟩
    · have hshows : s.shows id = false := hshown
      rw [h.settled id hid not_false, hshows, shows, tells, hnone]
      exact ⟨rfl, rfl⟩
  refine Follows.congr h herased.self_ (by rw [herased.sinks]; exact h.sinks) herased.view
    (fun id hid => (hsame id hid).1) (fun id hid => (hsame id hid).2) (fun id hid htold => ?_) herased.own
  obtain hentry | ⟨hnone, -⟩ := herased.entry id
  · rw [hentry]
    exact h.vouched id hid (by rw [← (hsame id hid).2]; exact htold)
  · rw [tells, hnone] at htold
    cases htold

theorem InStep.changed {vouched : Bool} (h : InStep raised s) (hchanged : Changed s node vouched s' m) :
    Follows raised s' (· = node) := by
  have hlookup : ∀ id, id ≠ node → s'.members.lookup id = s.members.lookup id := fun id hid => by
    rw [hchanged.members, lookup_insert_ne hid]
  have hnode : s'.members.lookup node = some m := by rw [hchanged.members, lookup_insert]
  have hothers : ∀ id, id ≠ node → s'.shows id = s.shows id ∧ s'.tells id = s.tells id := fun id hid => by
    rw [shows, tells, hlookup id hid]
    exact ⟨rfl, rfl⟩
  have htells : s'.tells node = s.tells node := by
    rw [tells, tells, hnode, any_some, hchanged.reported]
    cases s.members.lookup node <;> rfl
  refine ⟨by rw [hchanged.sinks]; exact h.sinks, fun hd => h.sure ?_, by rw [hchanged.self_]; exact h.others, h.fresh,
    ?_, ?_, ?_, ?_⟩
  · unfold doubted at hd
    rw [hchanged.self_, hlookup _ hchanged.other.symm] at hd
    exact hd
  all_goals intro id hid
  all_goals rw [hchanged.self_] at hid
  · obtain ⟨hview, hsame⟩ | hview := hchanged.view
    · rw [hview, h.view id hid]
      by_cases hne : id = node
      · rw [hne, shows, shows, hnode, any_some, hsame]
      · rw [(hothers id hne).1]
    · rw [hview]
      exact mem_republish (by rw [hchanged.self_]; exact hid)
  · by_cases hne : id = node
    · rw [hne, htells]
      exact h.told node hchanged.other
    · rw [(hothers id hne).2]
      exact h.told id hid
  · intro htold
    by_cases hne : id = node
    · rw [hne, htells] at htold
      have hwas := h.vouched node hchanged.other htold
      rw [hne, hnode, any_some, hchanged.verified]
      cases hlook : s.members.lookup node with
      | none =>
        rw [hlook] at hwas
        cases hwas
      | some cur =>
        rw [hlook, any_some] at hwas
        rw [map_some, getD_some, hwas, Bool.true_or]
    · rw [hlookup id hne]
      exact h.vouched id hid (by rw [← (hothers id hne).2]; exact htold)
  · intro hne
    rw [(hothers id hne).1, (hothers id hne).2]
    exact h.settled id hid not_false

theorem Follows.inStep (h : Follows raised s dirty) (hclean : ∀ id, ¬ dirty id) : InStep raised s :=
  h.relax fun id hid _ => h.settled id hid (hclean id)

namespace Keeps

theorem quiet (h : Quiet s s') : Keeps s s' :=
  ⟨h.self_, h.flushing, fun raised hin => ⟨[], by rw [h.pending, append_nil], by
    rw [append_nil]
    exact Follows.quiet hin h⟩⟩

theorem refl (s : SwimMembership) : Keeps s s := quiet (.refl s)

theorem trans (h : Keeps s s') (h' : Keeps s' s'') : Keeps s s'' := by
  refine ⟨h'.1.trans h.1, h'.2.1.trans h.2.1, fun raised hin => ?_⟩
  obtain ⟨es, hpending, hin⟩ := h.2.2 raised hin
  obtain ⟨es', hpending', hin⟩ := h'.2.2 _ hin
  exact ⟨es ++ es', by rw [hpending', hpending, append_assoc], by rw [← append_assoc]; exact hin⟩

theorem erased (h : Erased s s') : Keeps s s' :=
  ⟨h.self_, h.flushing, fun raised hin => ⟨[], by rw [h.pending, append_nil], by
    rw [append_nil]
    exact InStep.erased hin h⟩⟩

theorem republish (s : SwimMembership) : Keeps s s.republish :=
  ⟨rfl, rfl, fun raised hin => ⟨[], (append_nil _).symm, by
    rw [append_nil]
    exact Follows.republish hin⟩⟩

end Keeps

theorem self_pushEvent {kind : EventKind} : (s.pushEvent kind node m).self_ = s.self_ ∧
    (s.pushEvent kind node m).flushing = s.flushing := by
  unfold pushEvent
  split <;> exact ⟨rfl, rfl⟩

theorem self_noteTransition : (s.noteTransition cfg node m prev).self_ = s.self_ ∧
    (s.noteTransition cfg node m prev).flushing = s.flushing := by
  unfold noteTransition
  split_ifs <;> first | exact ⟨rfl, rfl⟩ | exact self_pushEvent

theorem Changed.note {vouched : Bool} (h : Changed s node vouched s' m) :
    Keeps s (s'.noteTransition cfg node m prev) := by
  refine ⟨self_noteTransition.1.trans h.self_, self_noteTransition.2.trans h.flushing, fun raised hin => ?_⟩
  have hnode : s'.members.lookup node = some m := by rw [h.members, lookup_insert]
  obtain ⟨es, hpending, hfollows⟩ :=
    (InStep.changed hin h).note (by rw [h.self_]; exact h.other) hnode
  refine ⟨es, by rw [hpending, h.pending], hfollows.inStep fun id hdirty => hdirty.2 hdirty.1⟩

theorem Transition.keeps {vouched : Bool} (h : Transition cfg s node vouched s') : Keeps s s' := by
  cases h with
  | quiet h => exact .quiet h
  | note h => exact h.note
  | cap h => exact h.note.trans (.erased (erased_enforceTombCapFrom _))

theorem Keeps.noteSelf (hgone : m.status.isTomb = true) : Keeps s (s.noteTransition cfg s.self_ m prev) :=
  ⟨self_noteTransition.1, self_noteTransition.2, fun _ hin => Follows.noteSelf hin cfg hgone prev⟩

theorem keeps_departure (me : Member) (hleft : me.status = .left) :
    Keeps s
      ({ s.put s.self_ me with selfIncarnation := inc, selfLeft := true }.republish.noteTransition cfg s.self_ me
        prev) := by
  have hput : Quiet s { s.put s.self_ me with selfIncarnation := inc, selfLeft := true } :=
    (Quiet.putSelf fun hsuspect => by rw [hleft] at hsuspect; cases hsuspect).congr rfl rfl rfl rfl rfl rfl
  exact ((Keeps.quiet hput).trans (.republish _)).trans (.noteSelf (by rw [hleft]; rfl))

theorem keeps_leaveSelf : Keeps s (s.leaveSelf cfg) := by
  unfold leaveSelf
  exact keeps_departure s.departed rfl

theorem Follows.absent (h : Follows raised s dirty) (hnone : s.members.lookup node = none) :
    Follows raised s fun id => dirty id ∧ id ≠ node := by
  refine h.relax fun id hid hclean => ?_
  by_cases hne : id = node
  · rw [hne, tells, shows, hnone]
    rfl
  · exact h.settled id hid fun hdirty => hclean ⟨hdirty, hne⟩

theorem self_noteDied : (s.noteDied cfg node).self_ = s.self_ ∧ (s.noteDied cfg node).flushing = s.flushing := by
  unfold noteDied
  split
  · exact ⟨rfl, rfl⟩
  · exact self_noteTransition

theorem self_noteAll {ids : List NodeId} : (ids.foldl (noteDied cfg) s).self_ = s.self_ ∧
    (ids.foldl (noteDied cfg) s).flushing = s.flushing := by
  induction ids generalizing s with
  | nil => exact ⟨rfl, rfl⟩
  | cons id ids ih => exact ⟨ih.1.trans self_noteDied.1, ih.2.trans self_noteDied.2⟩

theorem Follows.noteDied (h : Follows raised s dirty) (cfg : Config) (hother : node ≠ s.self_) :
    ∃ es, (s.noteDied cfg node).pending = s.pending ++ es ∧
      Follows (raised ++ es) (s.noteDied cfg node) fun id => dirty id ∧ id ≠ node := by
  unfold SwimMembership.noteDied
  split
  · next hnone => exact ⟨[], (append_nil _).symm, by rw [append_nil]; exact h.absent hnone⟩
  · next m hm => exact h.note hother hm

theorem Follows.noteAll {ids : List NodeId} (h : Follows raised s dirty) (cfg : Config) (hothers : s.self_ ∉ ids) :
    ∃ es, (ids.foldl (SwimMembership.noteDied cfg) s).pending = s.pending ++ es ∧
      Follows (raised ++ es) (ids.foldl (SwimMembership.noteDied cfg) s) fun id => dirty id ∧ id ∉ ids := by
  induction ids generalizing s raised dirty with
  | nil => exact ⟨[], (append_nil _).symm, by simpa using h⟩
  | cons node ids ih =>
    obtain ⟨hother, hothers⟩ := ne_and_not_mem_of_not_mem_cons hothers
    obtain ⟨es, hpending, hnoted⟩ := h.noteDied cfg hother.symm
    obtain ⟨es', hpending', hrest⟩ := ih hnoted (by rw [self_noteDied.1]; exact hothers)
    rw [foldl_cons]
    refine ⟨es ++ es', by rw [hpending', hpending, append_assoc], ?_⟩
    rw [← append_assoc]
    refine hrest.relax fun id hid hclean => ?_
    refine hrest.settled id hid fun hdirty => hclean ⟨hdirty.1.1, fun hin => ?_⟩
    rcases mem_cons.mp hin with heq | hin
    · exact hdirty.1.2 heq
    · exact hdirty.2 hin

theorem InStep.notDied (h : InStep raised s) : s.self_ ∉ (s.died cfg now).map Sigma.fst := by
  intro hdied
  obtain ⟨e, he, hself⟩ := mem_map.mp hdied
  obtain ⟨hin, hlapsed⟩ := mem_filter.mp he
  refine h.sure ?_
  unfold doubted
  rw [← hself, Table.mem_entries_iff.mp hin, any_some]
  unfold lapsed at hlapsed
  simp only [Bool.and_eq_true] at hlapsed
  exact hlapsed.1.1

theorem any_killSuspects {p : Member → Bool} (hp : ∀ m, p (s.killed m now) = p m) :
    ((s.killSuspects cfg now).members.lookup id).any p = (s.members.lookup id).any p := by
  rw [show (s.killSuspects cfg now).members.lookup id = (s.members.lookup id).map fun m =>
    if s.lapsed cfg now id m then s.killed m now else m from Table.lookup_mapVals _]
  cases s.members.lookup id with
  | none => rfl
  | some m =>
    rw [map_some, any_some, any_some]
    split
    · exact hp m
    · rfl

theorem InStep.killed (h : InStep raised s) : Follows raised
    (if s.died cfg now = [] then s.killSuspects cfg now else (s.killSuspects cfg now).republish)
    (· ∈ (s.died cfg now).map Sigma.fst) := by
  have hlookup : ∀ id, (s.killSuspects cfg now).members.lookup id = (s.members.lookup id).map fun m =>
      if s.lapsed cfg now id m then s.killed m now else m := fun id => Table.lookup_mapVals _
  have htells : ∀ id, (s.killSuspects cfg now).tells id = s.tells id := fun id => any_killSuspects fun _ => rfl
  have hclean : ∀ id, id ∉ (s.died cfg now).map Sigma.fst →
      (s.killSuspects cfg now).members.lookup id = s.members.lookup id := by
    intro id hid
    rw [hlookup]
    cases hm : s.members.lookup id with
    | none => rfl
    | some m =>
      rw [map_some, if_neg fun hlapsed => hid (mem_map.mpr
        ⟨⟨id, m⟩, mem_filter.mpr ⟨Table.mem_entries_iff.mpr hm, hlapsed⟩, rfl⟩)]
  split
  · next hnone =>
    have hsame : ∀ id, (s.killSuspects cfg now).members.lookup id = s.members.lookup id := fun id =>
      hclean id (by rw [hnone]; exact not_mem_nil)
    have htable : Quiet s { s with members := (s.killSuspects cfg now).members } := .table fun id => by rw [hsame]
    refine Follows.quiet ?_ (htable.congr rfl rfl rfl rfl rfl rfl)
    exact h.relax fun id hid _ => h.settled id hid not_false
  · refine ⟨h.sinks, fun hd => h.sure ?_, h.others, h.fresh, fun id hid => mem_republish hid, fun id hid => ?_,
      fun id hid htold => ?_, fun id hid hdead => ?_⟩
    · unfold doubted
      rw [← hclean s.self_ h.notDied]
      exact hd
    · rw [show (s.killSuspects cfg now).republish.tells id = s.tells id from htells id]
      exact h.told id hid
    · rw [show ((s.killSuspects cfg now).republish.members.lookup id).any Member.verified =
        (s.members.lookup id).any Member.verified from any_killSuspects fun _ => rfl]
      exact h.vouched id hid (by rw [← htells]; exact htold)
    · rw [show (s.killSuspects cfg now).republish.tells id = s.tells id from htells id, h.settled id hid not_false]
      change (s.members.lookup id).any Member.placeable = ((s.killSuspects cfg now).members.lookup id).any
        Member.placeable
      rw [hclean id hdead]

theorem keeps_reapSuspects : Keeps s (s.reapSuspects cfg now) := by
  have hnoted : Keeps s ((sortIds ((s.died cfg now).map Sigma.fst)).foldl (noteDied cfg)
      (if s.died cfg now = [] then s.killSuspects cfg now else (s.killSuspects cfg now).republish)) := by
    have hothers : ∀ {ids : List NodeId}, s.self_ ∉ ids → (if s.died cfg now = [] then s.killSuspects cfg now
        else (s.killSuspects cfg now).republish).self_ ∉ ids := by
      intro ids hids
      split <;> exact hids
    refine ⟨self_noteAll.1.trans (by split <;> rfl), self_noteAll.2.trans (by split <;> rfl), fun raised hin => ?_⟩
    obtain ⟨es, hpending, hfollows⟩ := (InStep.killed hin).noteAll cfg
      (hothers (mem_sortIds.not.mpr hin.notDied))
    refine ⟨es, hpending.trans (by split <;> rfl), hfollows.inStep fun id hdirty => ?_⟩
    exact hdirty.2 (mem_sortIds.mpr hdirty.1)
  exact hnoted.trans (.erased (erased_enforceTombCapFrom _))

theorem hears_aside (h : e.kind.aside = true) (nodes : Finset NodeId) : hears nodes e = nodes := by
  unfold hears
  split <;> simp_all [EventKind.aside]

theorem Still.keeps (h : Still cfg s s') : Keeps s s' := by
  induction h with
  | quiet h => exact .quiet h
  | erased h => exact .erased h
  | republish s => exact .republish s
  | remark haside =>
    refine ⟨rfl, rfl, fun raised hin => ⟨_, rfl, Follows.remark hin ?_ (.inr (hears_aside haside))⟩⟩
    rintro hjoined
    rw [hjoined] at haside
    cases haside
  | attach s =>
    refine ⟨rfl, rfl, fun raised hin => ⟨[], (append_nil _).symm, ?_⟩⟩
    rw [append_nil]
    exact Follows.same hin rfl (Nat.succ_ne_zero _) rfl rfl
  | leave s => exact keeps_leaveSelf
  | trans _ _ ih ih' => exact ih.trans ih'

theorem Moves.keeps {may : Change → Prop} (h : Moves cfg may s s') : Keeps s s' := by
  cases h with
  | still h => exact h.keeps
  | update h _ h' => exact ((Keeps.quiet h).trans applyUpdate_transition.keeps).trans h'.keeps
  | unsuspect h _ hother hcur h' =>
    exact ((Keeps.quiet h).trans (unsuspect_transition hother hcur).keeps).trans h'.keeps
  | reap _ => exact keeps_reapSuspects

end

end Quark.Swim
