import Quark.SwimPlacement

/-! What becomes of another member of a `SwimMembership`: its incarnation only grows, and it dies, leaves and comes
back only on the grounds that `apply_update` and `reap_suspects` ask for. -/
namespace Quark.Swim

open Node AList List Option SwimMembership

/-- What decides between two updates. -/
def Member.core (m : Member) : MemberStatus × UInt64 := (m.status, m.incarnation)

/-- The entry is erased, or neither its status nor its incarnation changes. -/
def Mild (before after : Option Member) : Prop :=
  after = none ∨ after.map Member.core = before.map Member.core

/-- What may become of an entry in one step. -/
structure Fate (expired : Int → Prop) (denied leaves : Prop) (listed : UInt64 → Prop)
    (before after : Option Member) : Prop where
  forward : ∀ m m', before = some m → after = some m' → m.incarnation ≤ m'.incarnation
  dead : ∀ m', after = some m' → m'.status = .dead → (∀ m, before = some m → m.status ≠ .dead) →
    (∃ m, before = some m ∧ m.status = .suspect ∧ expired m.suspectDeadline) ∨ denied
  left : ∀ m', after = some m' → m'.status = .left → (∀ m, before = some m → m.status ≠ .left) → leaves
  lifted : ∀ m m', before = some m → after = some m' → m.status.isTomb = true → m'.status.isTomb = false →
    m.incarnation < m'.incarnation ∨
      m.status = .dead ∧ m'.status = .suspect ∧ m.incarnation ≤ m'.incarnation ∧ listed m'.incarnation

section

variable {cfg : Config} {s s' s'' : SwimMembership} {node id : NodeId} {m cur : Member} {prev : MemberStatus}
variable {before mid after : Option Member} {inc : UInt64} {st : MemberStatus} {src : Src} {now : Int}
variable {expired : Int → Prop} {denied leaves : Prop} {listed : UInt64 → Prop}

namespace Mild

theorem refl (before : Option Member) : Mild before before := .inr rfl

theorem trans (h : Mild before mid) (h' : Mild mid after) : Mild before after := by
  obtain hnone' | hsame' := h'
  · exact .inl hnone'
  · obtain hnone | hsame := h
    · rw [hnone, map_none, map_eq_none_iff] at hsame'
      exact .inl hsame'
    · exact .inr (hsame'.trans hsame)

theorem core (h : Mild before after) {m' : Member} (hafter : after = some m') :
    ∃ m, before = some m ∧ m.status = m'.status ∧ m.incarnation = m'.incarnation := by
  obtain hnone | hsame := h
  · rw [hnone] at hafter
    cases hafter
  · rw [hafter, map_some] at hsame
    obtain ⟨m, hm, hcore⟩ := map_eq_some_iff.mp hsame.symm
    obtain ⟨hstatus, hinc⟩ := Prod.mk.inj hcore
    exact ⟨m, hm, hstatus, hinc⟩

theorem fate (h : Mild before after) : Fate expired denied leaves listed before after := by
  refine ⟨fun m m' hm hm' => ?_, fun m' hm' hdead hnot => ?_, fun m' hm' hleft hnot => ?_,
    fun m m' hm hm' htomb hlive => ?_⟩
  all_goals obtain ⟨m₀, hm₀, hstatus, hinc⟩ := h.core hm'
  · cases hm.symm.trans hm₀
    rw [hinc]
    exact UInt64.le_refl _
  · exact absurd (hstatus.trans hdead) (hnot m₀ hm₀)
  · exact absurd (hstatus.trans hleft) (hnot m₀ hm₀)
  · cases hm.symm.trans hm₀
    rw [hstatus, hlive] at htomb
    cases htomb

end Mild

namespace Fate

theorem quiet (hsame : mid.map Member.core = before.map Member.core)
    (h : Fate (fun _ => False) denied leaves listed mid after) : Fate expired denied leaves listed before after := by
  have hcore : ∀ m, before = some m → ∃ m₀, mid = some m₀ ∧ m₀.status = m.status ∧ m₀.incarnation = m.incarnation :=
    fun m hm => Mild.core (.inr hsame.symm) hm
  have hback : ∀ m₀, mid = some m₀ → ∃ m, before = some m ∧ m.status = m₀.status ∧ m.incarnation = m₀.incarnation :=
    fun m₀ hm₀ => Mild.core (.inr hsame) hm₀
  refine ⟨fun m m' hm hm' => ?_, fun m' hm' hdead hnot => ?_, fun m' hm' hleft hnot => ?_,
    fun m m' hm hm' htomb hlive => ?_⟩
  · obtain ⟨m₀, hm₀, -, hinc⟩ := hcore m hm
    rw [← hinc]
    exact h.forward m₀ m' hm₀ hm'
  · refine (h.dead m' hm' hdead fun m₀ hm₀ hwas => ?_).imp_left fun ⟨_, _, _, hfalse⟩ => hfalse.elim
    obtain ⟨m, hm, hstatus, -⟩ := hback m₀ hm₀
    exact hnot m hm (hstatus.trans hwas)
  · refine h.left m' hm' hleft fun m₀ hm₀ hwas => ?_
    obtain ⟨m, hm, hstatus, -⟩ := hback m₀ hm₀
    exact hnot m hm (hstatus.trans hwas)
  · obtain ⟨m₀, hm₀, hstatus, hinc⟩ := hcore m hm
    rw [← hinc, ← hstatus]
    exact h.lifted m₀ m' hm₀ hm' (by rw [hstatus]; exact htomb) hlive

theorem mild (h : Fate expired denied leaves listed before mid) (h' : Mild mid after) :
    Fate expired denied leaves listed before after := by
  refine ⟨fun m m' hm hm' => ?_, fun m' hm' hdead hnot => ?_, fun m' hm' hleft hnot => ?_,
    fun m m' hm hm' htomb hlive => ?_⟩
  all_goals obtain ⟨m₀, hm₀, hstatus, hinc⟩ := h'.core hm'
  · rw [← hinc]
    exact h.forward m m₀ hm hm₀
  · exact h.dead m₀ hm₀ (hstatus.trans hdead) hnot
  · exact h.left m₀ hm₀ (hstatus.trans hleft) hnot
  · rw [← hinc, ← hstatus]
    rw [← hstatus] at hlive
    exact h.lifted m m₀ hm hm₀ htomb hlive

end Fate

theorem Quiet.entry (h : Quiet s s') (hid : id ≠ s.self_) :
    (s'.members.lookup id).map Member.core = (s.members.lookup id).map Member.core := by
  have hstanding := congrArg (Option.map fun p : MemberStatus × Bool × UInt8 × UInt64 => (p.1, p.2.2.2))
    (h.standing id hid)
  rwa [Option.map_map, Option.map_map] at hstanding

theorem Erased.mild (h : Erased s s') : Mild (s.members.lookup id) (s'.members.lookup id) := by
  obtain hsame | ⟨hnone, -⟩ := h.entry id
  · rw [hsame]
    exact .refl _
  · exact .inl hnone

theorem core_noteTransition (hm : s.members.lookup node = some m) :
    ((s.noteTransition cfg node m prev).members.lookup id).map Member.core =
      (s.members.lookup id).map Member.core := lookup_noteTransition _ (fun _ _ => rfl) hm

theorem core_leaveSelf (hid : id ≠ s.self_) : ((s.leaveSelf cfg).members.lookup id).map Member.core =
    (s.members.lookup id).map Member.core := by
  unfold leaveSelf
  generalize s.departed = me
  rw [core_noteTransition (lookup_insert _)]
  exact congrArg _ (lookup_insert_ne hid)

theorem Still.mild (h : Still cfg s s') (hid : id ≠ s.self_) :
    Mild (s.members.lookup id) (s'.members.lookup id) ∧ s'.self_ = s.self_ := by
  induction h with
  | quiet h => exact ⟨.inr (h.entry hid), h.self_⟩
  | erased h => exact ⟨h.mild, h.self_⟩
  | republish s => exact ⟨.refl _, rfl⟩
  | remark _ => exact ⟨.refl _, rfl⟩
  | attach s => exact ⟨.refl _, rfl⟩
  | leave s => exact ⟨.inr (core_leaveSelf hid), keeps_leaveSelf.1⟩
  | trans _ _ ih ih' =>
    obtain ⟨hmild, hself⟩ := ih hid
    obtain ⟨hmild', hself'⟩ := ih' (by rw [hself]; exact hid)
    exact ⟨hmild.trans hmild', hself'.trans hself⟩

theorem mild_settled (hm : s.members.lookup node = some m) :
    Mild (s.members.lookup id) (((s.noteTransition cfg node m prev).enforceTombCap cfg).members.lookup id) :=
  Mild.trans (.inr (core_noteTransition hm)) (erased_enforceTombCapFrom _).mild

/-- What an update needs to make a member die, leave or come back. -/
structure Grounded (denied leaves : Prop) (listed : UInt64 → Prop) (inc : UInt64) (st : MemberStatus) (src : Src) :
    Prop where
  dead : st = .dead → src = .here → denied
  left : st = .left → leaves
  listed : st = .alive → src = .joinSnapshot → listed inc

theorem Fate.born (hgrounded : Grounded denied leaves listed inc st src) (hsecond : st.isTomb = true → src = .here)
    (hstatus : m.status = st) : Fate expired denied leaves listed none (some m) := by
  refine ⟨fun _ _ hm => ?_, fun m' hm' hdead _ => ?_, fun m' hm' hleft _ => ?_, fun _ _ hm => ?_⟩
  · cases hm
  · cases hm'
    rw [hstatus] at hdead
    exact .inr (hgrounded.dead hdead (hsecond (by rw [hdead]; rfl)))
  · cases hm'
    exact hgrounded.left (hstatus.symm.trans hleft)
  · cases hm

theorem Fate.taken {next : MemberStatus} (hgrounded : Grounded denied leaves listed inc st src)
    (hnext : nextStatus cfg cur inc st src now = some next) (hstatus : m.status = next)
    (hinc : m.incarnation = inc) : Fate expired denied leaves listed (some cur) (some m) := by
  obtain ⟨hforward, hdead, hleft, hlifted⟩ := nextStatus_precedence hnext
  refine ⟨fun c m' hc hm' => ?_, fun m' hm' hnew _ => ?_, fun m' hm' hnew _ => ?_,
    fun c m' hc hm' htomb hlive => ?_⟩
  · cases hc
    cases hm'
    rw [hinc]
    exact hforward
  · cases hm'
    obtain ⟨hst, hsrc⟩ := hdead (hstatus.symm.trans hnew)
    exact .inr (hgrounded.dead hst hsrc)
  · cases hm'
    exact hgrounded.left (hleft (hstatus.symm.trans hnew))
  · cases hc
    cases hm'
    rw [hstatus] at hlive ⊢
    rw [hinc]
    exact (hlifted htomb hlive).imp_right fun ⟨hwas, hnow, hst, hsrc⟩ =>
      ⟨hwas, hnow, hforward, hgrounded.listed hst hsrc⟩

theorem Fate.put (hput : s'.members = s.members.insert node m)
    (hnode : id = node → Fate expired denied leaves listed (s.members.lookup id) (some m))
    (hafter : Mild (s'.members.lookup id) after) :
    Fate expired denied leaves listed (s.members.lookup id) after := by
  refine Fate.mild ?_ hafter
  rw [hput]
  by_cases hid : id = node
  · rw [hid, lookup_insert, ← hid]
    exact hnode hid
  · rw [lookup_insert_ne hid]
    exact (Mild.refl _).fate

theorem settled_fate (hput : s'.members = s.members.insert node m)
    (hnode : id = node → Fate expired denied leaves listed (s.members.lookup id) (some m)) :
    Fate expired denied leaves listed (s.members.lookup id)
      (((s'.noteTransition cfg node m prev).enforceTombCap cfg).members.lookup id) :=
  Fate.put hput hnode (mild_settled (by rw [hput, lookup_insert]))

theorem createMember_fate (hgrounded : id = node → Grounded denied leaves listed inc st src)
    (hnew : s.members.lookup node = none) : Fate expired denied leaves listed (s.members.lookup id)
      ((s.createMember cfg node inc st src now).members.lookup id) := by
  unfold createMember
  split_ifs with hsecond hsuspect hfull htomb
  · exact (Mild.refl _).fate
  · exact (Mild.refl _).fate
  · exact (Mild.refl _).fate
  all_goals
    refine settled_fate rfl fun hid => ?_
    rw [hid, hnew]
    exact Fate.born (hgrounded hid) (fun htomb => not_not.mp fun hsrc => hsecond ⟨htomb, hsrc⟩) rfl

theorem mergeMember_fate (hgrounded : id = node → Grounded denied leaves listed inc st src)
    (hcur : s.members.lookup node = some cur) : Fate expired denied leaves listed (s.members.lookup id)
      ((s.mergeMember cfg node cur inc st src now).members.lookup id) := by
  unfold mergeMember
  dsimp only
  split
  · split
    · refine Fate.put (m := _) rfl (fun hid => ?_) (.inr (core_noteTransition (lookup_insert _)))
      rw [hid, hcur]
      exact Mild.fate (.inr rfl)
    · exact (Mild.refl _).fate
  · next next hnext =>
    generalize hm : s.takenMember cfg { cur with verified := cur.verified || src.firstHand st }
      (!cur.verified && src.firstHand st) inc next src now = m
    have htaken : id = node → Fate expired denied leaves listed (s.members.lookup id) (some m) := by
      intro hid
      rw [hid, hcur]
      exact Fate.taken (hgrounded hid) hnext (by rw [← hm]; rfl) (by rw [← hm]; rfl)
    split_ifs <;> exact settled_fate rfl htaken

theorem applyUpdate_fate (hid : id ≠ s.self_) (hgrounded : id = node → Grounded denied leaves listed inc st src) :
    Fate expired denied leaves listed (s.members.lookup id)
      ((s.applyUpdate cfg node inc st src now).members.lookup id) := by
  unfold applyUpdate
  split_ifs with hclient hdenied hself hsuppressed
  · exact (Mild.refl _).fate
  · exact (Mild.refl _).fate
  · exact Mild.fate (.inr (quiet_refute.entry hid))
  · exact (Mild.refl _).fate
  · split
    · next hnew => exact createMember_fate hgrounded hnew
    · next cur hcur => exact mergeMember_fate hgrounded hcur

theorem unsuspect_fate (hcur : s.members.lookup node = some cur) :
    Fate expired denied leaves listed (s.members.lookup id) ((s.unsuspect cfg node cur).members.lookup id) := by
  unfold unsuspect
  split
  · next hsuspect =>
    refine Fate.put (m := s.unsuspected cur) rfl (fun hid => ?_) (.inr (core_noteTransition (lookup_insert _)))
    rw [hid, hcur, unsuspected, if_pos hsuspect]
    refine ⟨fun m m' hm hm' => ?_, fun m' hm' hdead _ => ?_, fun m' hm' hleft _ => ?_, fun m m' hm _ htomb _ => ?_⟩
    · cases hm
      cases hm'
      exact UInt64.le_refl _
    · cases hm'
      cases hdead
    · cases hm'
      cases hleft
    · cases hm
      rw [hsuspect] at htomb
      cases htomb
  · exact (Mild.refl _).fate

theorem mild_noteAll {ids : List NodeId} :
    Mild (s.members.lookup id) ((ids.foldl (noteDied cfg) s).members.lookup id) := by
  induction ids generalizing s with
  | nil => exact .refl _
  | cons node ids ih =>
    refine Mild.trans ?_ ih
    unfold noteDied
    split
    · exact .refl _
    · next m hm => exact .inr (core_noteTransition hm)

theorem killSuspects_fate (hexpired : ∀ d, d ≤ now → expired d) : Fate expired denied leaves listed
    (s.members.lookup id) ((s.killSuspects cfg now).members.lookup id) := by
  rw [killSuspects, Table.lookup_mapVals]
  cases hm : s.members.lookup id with
  | none => exact (Mild.refl _).fate
  | some m =>
    rw [map_some]
    split
    · next hlapsed =>
      simp only [lapsed, Bool.and_eq_true, beq_iff_eq, decide_eq_true_eq] at hlapsed
      obtain ⟨⟨hsuspect, hdeadline⟩, -⟩ := hlapsed
      refine ⟨fun c m' hc hm' => ?_, fun m' hm' _ _ => ?_, fun m' hm' hleft _ => ?_, fun c m' _ hm' _ hlive => ?_⟩
      · cases hc
        cases hm'
        exact UInt64.le_refl _
      · exact .inl ⟨m, rfl, hsuspect, hexpired _ hdeadline⟩
      · cases hm'
        cases hleft
      · cases hm'
        cases hlive
    · exact (Mild.refl _).fate

theorem reapSuspects_fate (hexpired : ∀ d, d ≤ now → expired d) : Fate expired denied leaves listed
    (s.members.lookup id) ((s.reapSuspects cfg now).members.lookup id) := by
  have hkilled : Fate expired denied leaves listed (s.members.lookup id)
      ((s.killSuspects cfg now).members.lookup id) := killSuspects_fate hexpired
  unfold reapSuspects
  refine Fate.mild ?_ (mild_noteAll.trans (erased_enforceTombCapFrom _).mild)
  split
  · exact hkilled
  · exact hkilled

theorem Moves.fate {may : Change → Prop} (h : Moves cfg may s s') (hid : id ≠ s.self_)
    (hgrounded : ∀ inc st src, may (.update id inc st src) → Grounded denied leaves listed inc st src)
    (hexpired : ∀ now d, may (.reap now) → d ≤ now → expired d) :
    Fate expired denied leaves listed (s.members.lookup id) (s'.members.lookup id) := by
  cases h with
  | still h => exact (h.mild hid).1.fate
  | @update s₁ _ node inc st src now h hmay h' =>
    have hid₁ : id ≠ s₁.self_ := by rwa [h.self_]
    have hself : (s₁.applyUpdate cfg node inc st src now).self_ = s₁.self_ := applyUpdate_transition.keeps.1
    refine Fate.quiet (h.entry hid) (Fate.mild (applyUpdate_fate hid₁ fun hnode => ?_) (h'.mild ?_).1)
    · rw [← hnode] at hmay
      exact hgrounded inc st src hmay
    · rwa [hself]
  | @unsuspect s₁ _ node cur h _ hother hcur h' =>
    have hself : (s₁.unsuspect cfg node cur).self_ = s₁.self_ := (unsuspect_transition hother hcur).keeps.1
    refine Fate.quiet (h.entry hid) (Fate.mild (unsuspect_fate hcur) (h'.mild ?_).1)
    rwa [hself, h.self_]
  | reap hmay => exact reapSuspects_fate fun d => hexpired _ d hmay

def underway : List Task → Option Call
  | [] => none
  | .returned c :: _ => some c
  | _ :: rest => underway rest

/-- The frame that is handled is one of `sender` to this node and decodes to `m`. -/
def Hears (self_ : NodeId) (call : Option Call) (sender : NodeId) (m : ControlMsg) : Prop :=
  ∃ f, call = some (.frame f) ∧ f.from_ = sender ∧ f.to_ = self_ ∧ f.control = true ∧ f.payload = some m

/-- The host declares that the node left, or the node says so in the frame that is handled. -/
def Departs (self_ : NodeId) (call : Option Call) (id : NodeId) : Prop :=
  call = some (.leave id) ∨ ∃ m, Hears self_ call id m ∧ m.from_ = id ∧
    ∃ u ∈ m.updates, u.node = id ∧ MemberStatus.ofCode u.status = some .left

/-- The frame that is handled is a `JoinAck` that lists the node as alive. -/
def Lists (self_ : NodeId) (call : Option Call) (id : NodeId) (inc : UInt64) : Prop :=
  ∃ m, Hears self_ call m.from_ m ∧ m.kind = .joinAck ∧ ⟨id, inc, MemberStatus.alive.code⟩ ∈ m.updates

def Node.evicting (n : Node) : Bool :=
  match n.todo with
  | .evictOne _ :: _ => true
  | _ => false

/-- The eviction that is going on began at a snapshot that denies the node. -/
def DeniedIn (cfg : Config) (start : Node) (labels : List Label) (n : Node) (id : NodeId) : Prop :=
  ∃ past l sweep n₀ n₁, labels = past ++ l :: sweep ∧ Machine.run (Node.step cfg) start past = some n₀ ∧
    n₀.todo.head? = some .evict ∧ n₀.swim.denies id = true ∧ n₀.step cfg l = some n₁ ∧
    Machine.run (Machine.guarded (Node.step cfg) fun n _ => n.evicting = true) n₁ sweep = some n

/-- What a task of the call allows, where `doomed` is evicted; suspects may be reaped at the times that
`reaps` allows. -/
def Change.grounded (self_ : NodeId) (call : Option Call) (doomed : NodeId → Prop) (reaps : Int → Prop) : Change →
    Prop
  | .update node inc st src => Grounded (doomed node) (Departs self_ call node) (Lists self_ call node) inc st src
  | .unsuspect _ => True
  | .reap now => reaps now

def grounds (cfg : Config) (self_ : NodeId) (call : Option Call) (doomed : NodeId → Prop) (reaps : Int → Prop) :
    Trust cfg where
  self_
  may := Change.grounded self_ call doomed reaps
  heard := Hears self_ call
  hearsay _ _ _ hleft :=
    { dead := nofun
      left := fun hst => absurd hst hleft
      listed := fun _ hsrc => by cases hsrc }
  suspicion _ _ :=
    { dead := nofun
      left := nofun
      listed := fun hst => by cases hst }
  unsuspect _ := trivial
  direct m hheard _ _ :=
    { alive := fun inc src hsrc =>
        { dead := nofun
          left := nofun
          listed := fun _ hsnapshot => by rw [hsnapshot] at hsrc; simp at hsrc }
      farewell := fun u hu hown hleft =>
        { dead := nofun
          left := fun _ => .inr ⟨m, by rw [hown]; exact hheard, hown.symm, u, hu, rfl, hleft⟩
          listed := fun hst => by cases hst }
      snapshot := fun hkind u hu halive =>
        { dead := nofun
          left := nofun
          listed := fun _ _ => ⟨m, hheard, hkind, by rw [← halive]; exact hu⟩ } }

variable {self_ : NodeId} {start n n' : Node} {labels : List Label} {l : Label}
variable {env : Env} {t : Task} {rest new : List Task} {call : Option Call}
variable {doomed doomed' : NodeId → Prop} {reaps reaps' : Int → Prop}

def Task.inner : Task → Bool
  | .enter _ | .returned _ => false
  | _ => true

theorem underway_append (h : ∀ u ∈ new, u.inner = true) : underway (new ++ rest) = underway rest := by
  induction new with
  | nil => rfl
  | cons u new ih =>
    have hrest := ih fun u hu => h u (mem_cons_of_mem _ hu)
    have hu := h u mem_cons_self
    cases u with
    | returned c => cases hu
    | _ => exact hrest

theorem inner_absorb {msg : ControlMsg} : ∀ u ∈ (s.absorb msg now).todo, u.inner = true := by
  intro u hu
  unfold absorb at hu
  simp only [append_assoc, mem_append, mem_filterMap, mem_cons, not_mem_nil, or_false] at hu
  rcases hu with hu | ⟨w, -, hw⟩ | rfl | rfl
  · unfold heardDirectly at hu
    grind [Task.inner]
  · unfold gossiped at hw
    grind [Task.inner]
  · rfl
  · rfl

theorem inner_handle {msg : ControlMsg} : ∀ u ∈ (s.handle cfg env msg node).todo, u.inner = true := by
  have hhandled := handled cfg env s msg node
  generalize s.handle cfg env msg node = o at hhandled ⊢
  cases hhandled with
  | same | foreign => simp [Task.inner]
  | refused s' ver why byPeer todo hsame hsends =>
    intro u hu
    obtain ⟨m, rfl⟩ := hsends u hu
    rfl
  | absorbed => exact inner_absorb

theorem inner_exec : ∀ u ∈ (s.exec cfg env t).todo, u.inner = true := by
  cases t with
  | enter c =>
    cases c with
    | tick =>
      simp only [SwimMembership.exec, enter, period]
      split_ifs <;> simp [Task.inner]
    | _ =>
      simp only [SwimMembership.exec, enter, enterFrame]
      grind [Task.inner]
  | handle m n => exact inner_handle
  | _ =>
    simp only [SwimMembership.exec, flush, drainRefusals, deliver, answer, answerJoin, acked, joined,
      send, driveProbe, indirect, startProbe, probeTombstones, pings, monitorCongestion, rejoin]
    grind [Task.inner]

theorem fine_grounds (h : t.Fine (grounds cfg self_ call doomed reaps)) (hdoomed : ∀ id, doomed id → doomed' id) :
    t.Fine (grounds cfg self_ call doomed' reaps') :=
  h.mono rfl (fun _ _ _ _ hmay => ⟨fun hst hsrc => hdoomed _ (hmay.dead hst hsrc), hmay.left, hmay.listed⟩)
    fun _ _ hheard => hheard

/-- Every task has the right, in its call, to what it leads to. -/
def AllFine (cfg : Config) (self_ : NodeId) : List Task → Prop
  | [] => True
  | t :: rest =>
    (t.plain = true → t.Fine (grounds cfg self_ (underway (t :: rest)) (fun id => t = .evictOne id) fun _ => False)) ∧
      AllFine cfg self_ rest

theorem AllFine.append (h : AllFine cfg self_ rest) (hinner : ∀ u ∈ new, u.inner = true)
    (hnew : ∀ u ∈ new, u.plain = true →
      u.Fine (grounds cfg self_ (underway rest) (fun id => u = .evictOne id) fun _ => False)) :
    AllFine cfg self_ (new ++ rest) := by
  induction new with
  | nil => exact h
  | cons u new ih =>
    refine ⟨fun hplain => ?_, ih (fun v hv => hinner v (mem_cons_of_mem _ hv)) fun v hv =>
      hnew v (mem_cons_of_mem _ hv)⟩
    change u.Fine (grounds cfg self_ (underway (u :: new ++ rest)) _ _)
    rw [underway_append hinner]
    exact hnew u mem_cons_self hplain

/-- A node after a run of `labels`, between two tasks; what is left of an eviction comes first. -/
structure Lived (cfg : Config) (self_ : NodeId) (start : Node) (labels : List Label) (n : Node) : Prop where
  same : n.swim.self_ = self_
  fine : AllFine cfg self_ n.todo
  evictions : ∃ (ids : List NodeId) (rest : List Task), n.todo = ids.map .evictOne ++ rest ∧
    (∀ id, .evictOne id ∉ rest) ∧ ∀ id ∈ ids, DeniedIn cfg start labels n id

theorem DeniedIn.concat (h : DeniedIn cfg start labels n id) (hevicting : n.evicting = true)
    (hstep : n.step cfg l = some n') : DeniedIn cfg start (labels ++ [l]) n' id := by
  obtain ⟨past, l₀, sweep, n₀, n₁, rfl, hpast, hhead, hdenies, hbegun, hsweep⟩ := h
  refine ⟨past, l₀, sweep ++ [l], n₀, n₁, by simp, hpast, hhead, hdenies, hbegun, ?_⟩
  refine Machine.run_append.mpr ⟨n, hsweep, Machine.run_cons.mpr ⟨n', ?_, rfl⟩⟩
  rw [Machine.guarded, if_pos hevicting]
  exact hstep

namespace Lived

theorem beside (h : Lived cfg self_ start labels n) (hself : n'.swim.self_ = n.swim.self_) (htodo : n'.todo = n.todo)
    (hstep : n.step cfg l = some n') : Lived cfg self_ start (labels ++ [l]) n' := by
  obtain ⟨ids, rest, hids, hrest, hdenied⟩ := h.evictions
  refine ⟨hself.trans h.same, by rw [htodo]; exact h.fine, ids, rest, htodo.trans hids, hrest, fun id hid => ?_⟩
  refine (hdenied id hid).concat ?_ hstep
  cases ids with
  | nil => cases hid
  | cons x ids => rw [Node.evicting, hids]; rfl

theorem calm (h : Lived cfg self_ start labels n) (hcalm : n.evicting = false) : ∀ id, .evictOne id ∉ n.todo := by
  obtain ⟨ids, rest, hids, hrest, -⟩ := h.evictions
  cases ids with
  | nil => exact hids ▸ hrest
  | cons x ids =>
    rw [Node.evicting, hids] at hcalm
    cases hcalm

theorem deniedIn (h : Lived cfg self_ start labels n) (htodo : n.todo = .evictOne id :: rest) :
    DeniedIn cfg start labels n id := by
  obtain ⟨ids, later, hids, hlater, hdenied⟩ := h.evictions
  rw [htodo] at hids
  cases ids with
  | nil =>
    change .evictOne id :: rest = later at hids
    exact absurd (by rw [← hids]; exact mem_cons_self) (hlater id)
  | cons x ids =>
    obtain ⟨hx, -⟩ := cons.inj hids
    cases hx
    exact hdenied id mem_cons_self

theorem called {c : Call} (h : Lived cfg self_ start labels n) (hcallable : Node.callable n.todo = true) :
    Lived cfg self_ start (labels ++ [.call c]) (n.called c) := by
  have hcalm : n.evicting = false := by
    unfold Node.evicting
    split
    · next htodo => rw [htodo] at hcallable; cases hcallable
    · rfl
  refine ⟨h.same, ⟨fun _ => ?_, fun _ => trivial, h.fine⟩, [], _, rfl, fun id hid => ?_, fun _ hid =>
    absurd hid not_mem_nil⟩
  · cases c with
    | frame f => exact fun hto hcontrol m hm => ⟨f, rfl, rfl, hto, hcontrol, hm⟩
    | admit_ joiner presented => exact fun _ => ⟨by simp, by simp, by simp⟩
    | leave who => exact fun _ => ⟨by simp, fun _ => .inl rfl, by simp⟩
    | _ => trivial
  · exact h.calm hcalm id (by simpa [Node.called] using hid)

theorem denies_of_mem (hnode : node ∈ s.denied) : s.denies node = true := by
  unfold denied at hnode
  unfold denies
  split at hnode
  · cases hnode
  · next snap _ =>
    obtain ⟨e, he, rfl⟩ := mem_map.mp hnode
    simp only [mem_filter, Bool.and_eq_true] at he
    exact he.2.2

theorem exec (h : Lived cfg self_ start labels n) (htodo : n.todo = t :: rest) (hevict : t ≠ .evict)
    (hreaps : ∀ now, t = .reapSuspects now → reaps now) :
    (n.swim.exec cfg env t).Fine (grounds cfg self_ (underway n.todo) (fun id => t = .evictOne id) reaps) n.swim := by
  have hfine := h.fine
  rw [htodo] at hfine ⊢
  exact fine_exec h.same (fun hplain => fine_grounds (hfine.1 hplain) fun _ => id)
    (fun heq => absurd heq hevict) hreaps

theorem evicts (h : Lived cfg self_ start labels n) (hrun : Machine.run (Node.step cfg) start labels = some n)
    (htodo : n.todo = .evict :: rest) (hstep : n.step cfg l = some (n.ran (n.swim.exec cfg env .evict) rest)) :
    Lived cfg self_ start (labels ++ [l]) (n.ran (n.swim.exec cfg env .evict) rest) := by
  have hcalm : ∀ id, .evictOne id ∉ n.todo := h.calm (by rw [Node.evicting, htodo])
  have hfine := h.fine
  rw [htodo] at hfine
  refine ⟨h.same, hfine.2.append inner_exec fun u hu _ => ?_, n.swim.denied, rest, rfl,
    fun id hid => hcalm id (by rw [htodo]; exact mem_cons_of_mem _ hid), fun id hid => ?_⟩
  · obtain ⟨id, -, rfl⟩ := mem_map.mp hu
    exact fun _ => ⟨fun _ _ => rfl, by simp, by simp⟩
  · exact ⟨labels, l, [], n, _, rfl, hrun, by rw [htodo]; rfl, denies_of_mem hid, hstep, rfl⟩

theorem ran (h : Lived cfg self_ start labels n) (htodo : n.todo = t :: rest) (hevict : t ≠ .evict)
    (hstep : n.step cfg l = some (n.ran (n.swim.exec cfg env t) rest)) :
    Lived cfg self_ start (labels ++ [l]) (n.ran (n.swim.exec cfg env t) rest) := by
  have hexec : (n.swim.exec cfg env t).Fine (grounds cfg self_ (underway n.todo) (fun id => t = .evictOne id)
    fun _ => True) n.swim := h.exec htodo hevict fun _ _ => trivial
  obtain ⟨s', pending, flushing, hmoves, heq⟩ := hexec.moves
  have hfine := h.fine
  rw [htodo] at hfine
  obtain ⟨ids, later, hids, hlater, hdenied⟩ := h.evictions
  refine ⟨?_, hfine.2.append inner_exec fun u hu hplain => ?_, ?_⟩
  · rw [Node.ran, heq]
    exact hmoves.keeps.1.trans h.same
  · have hu' := hexec.fine u hu hplain
    cases t with
    | evictOne id => cases hu
    | returned c => cases hu
    | _ =>
      rw [htodo] at hu'
      exact fine_grounds hu' fun _ heq => by cases heq
  · cases ids with
    | nil =>
      refine ⟨[], _, rfl, fun id hid => ?_, fun _ hid => absurd hid not_mem_nil⟩
      rw [map_nil, nil_append] at hids
      rcases mem_append.mp hid with hid | hid
      · have hdoomed : t = .evictOne id := (hexec.fine _ hid rfl 0).dead rfl rfl
        exact hlater id (by rw [← hids, htodo, hdoomed]; exact mem_cons_self)
      · exact hlater id (by rw [← hids, htodo]; exact mem_cons_of_mem _ hid)
    | cons x ids =>
      rw [htodo, map_cons, cons_append] at hids
      obtain ⟨rfl, rfl⟩ := cons.inj hids
      refine ⟨ids, later, rfl, hlater, fun id hid => ?_⟩
      exact (hdenied id (mem_cons_of_mem _ hid)).concat (by rw [Node.evicting, htodo]) hstep

theorem step (h : Lived cfg self_ start labels n) (hrun : Machine.run (Node.step cfg) start labels = some n)
    (hstep : n.step cfg l = some n') : Lived cfg self_ start (labels ++ [l]) n' := by
  obtain ⟨c, rfl, hcallable, rfl⟩ | ⟨env, t, rest, htodo, rfl⟩ | ⟨s, hquiet, rfl⟩ := step_cases hstep
  · exact h.called hcallable
  · by_cases hevict : t = .evict
    · subst hevict
      exact h.evicts hrun htodo hstep
    · exact h.ran htodo hevict hstep
  · exact h.beside hquiet.self_ rfl hstep

end Lived

/-- In every step of every run: the incarnation of another member only grows, it dies of its lapsed suspicion
window or is evicted by a snapshot that denies it, it departs on its own word in the frame that is handled or
on the host's, and it comes back above its tombstone or, dead, as a suspect that the `JoinAck` that is handled
lists. -/
theorem member_fate (cfg : Config) (self_ : NodeId) (drawn : UInt64) (sinks : Nat) (labels : List Label) (n n' : Node)
    (l : Label) (id : NodeId)
    (hrun : Machine.run (Node.step cfg.sanitize) (Node.start cfg.sanitize self_ drawn sinks) labels = some n)
    (hstep : n.step cfg.sanitize l = some n') (hother : id ≠ self_) :
    Fate (fun deadline => ∃ now rest, n.todo = .reapSuspects now :: rest ∧ deadline ≤ now)
      ((∃ rest, n.todo = .evictOne id :: rest) ∧
        DeniedIn cfg.sanitize (Node.start cfg.sanitize self_ drawn sinks) labels n id)
      (Departs self_ (underway n.todo) id) (Lists self_ (underway n.todo) id)
      (n.swim.members.lookup id) (n'.swim.members.lookup id) := by
  have hlived : Lived cfg.sanitize self_ (Node.start cfg.sanitize self_ drawn sinks) labels n :=
    Machine.run_invariant hrun ⟨rfl, trivial, [], [], rfl, nofun, nofun⟩ fun _ _ _ _ hrun h hstep => h.step hrun hstep
  have hid : id ≠ n.swim.self_ := by
    rw [hlived.same]
    exact hother
  obtain ⟨c, -, -, rfl⟩ | ⟨env, t, rest, htodo, rfl⟩ | ⟨s, hquiet, rfl⟩ := step_cases hstep
  · exact (Mild.refl _).fate
  · by_cases hevict : t = .evict
    · rw [hevict]
      exact (Mild.refl _).fate
    have hexec : (n.swim.exec cfg.sanitize env t).Fine (grounds cfg.sanitize self_ (underway n.todo)
        (fun id => t = .evictOne id) fun now => t = .reapSuspects now) n.swim :=
        hlived.exec htodo hevict fun _ heq => heq
    obtain ⟨s', pending, flushing, hmoves, heq⟩ := hexec.moves
    rw [ran, heq]
    refine hmoves.fate hid (fun inc st src hmay => ⟨fun hst hsrc => ?_, hmay.left, hmay.listed⟩)
      fun now deadline hreap hdeadline => ?_
    · have hdoomed : t = .evictOne id := hmay.dead hst hsrc
      rw [hdoomed] at htodo
      exact ⟨⟨rest, htodo⟩, hlived.deniedIn htodo⟩
    · exact ⟨now, rest, by rw [htodo, show t = .reapSuspects now from hreap], hdeadline⟩
  · exact Mild.fate (.inr (hquiet.entry hid))

def hearsay (inc : UInt64) : MessageFrame where
  from_ := 3
  to_ := 1
  control := true
  payload := some { kind := .gossip, from_ := 3, fromIncarnation := 1, wireVersion := 2, updates := [⟨2, inc, 0⟩] }

/-- Node 1 heard of node 2; its host declares that node 2 left. -/
def departing : List Label :=
  .call (.frame (hearsay 1)) :: List.replicate 8 (.run {}) ++ [.call (.leave 2), .run {}]

theorem member_fate_leave : ∃ n n',
    Machine.run (Node.step (Config.sanitize {})) (Node.start (Config.sanitize {}) 1 0 1) departing = some n ∧
    n.step (Config.sanitize {}) (.run {}) = some n' ∧
    (n.swim.members.lookup 2).map Member.core = some (.alive, 1) ∧
    (n'.swim.members.lookup 2).map Member.core = some (.left, 0x100000001) ∧ Departs 1 (underway n.todo) 2 := by
  obtain ⟨n, hn, hfacts⟩ := map_eq_some_iff.mp (show (Machine.run (Node.step (Config.sanitize {}))
    (start (Config.sanitize {}) 1 0 1) departing).map (fun n => ((n.swim.members.lookup 2).map Member.core,
      (n.step (Config.sanitize {}) (.run {})).map fun n' => (n'.swim.members.lookup 2).map Member.core)) =
        some (some (.alive, 1), some (some (.left, 0x100000001))) by decide +kernel)
  obtain ⟨hbefore, hfacts⟩ := Prod.mk.inj hfacts
  obtain ⟨n', hn', hafter⟩ := map_eq_some_iff.mp hfacts
  refine ⟨n, n', hn, hn', hbefore, hafter, ?_⟩
  obtain ⟨m, hm, hcore⟩ := map_eq_some_iff.mp hbefore
  obtain ⟨m', hm', hcore'⟩ := map_eq_some_iff.mp hafter
  refine (member_fate {} 1 0 1 departing n n' (.run {}) 2 hn hn' (by decide)).left m' hm' ?_ fun c hc => ?_
  · exact (Prod.mk.inj hcore').1
  · cases hc.symm.trans hm
    rw [(Prod.mk.inj hcore).1]
    decide

/-- A third party names a higher incarnation of a member that left: it is live again, though it was never
heard and the host did not admit it. -/
theorem hearsay_resurrects : ∃ n n',
    Machine.run (Node.step (Config.sanitize {})) (Node.start (Config.sanitize {}) 1 0 1)
      (departing ++ List.replicate 4 (.run {}) ++ .call (.frame (hearsay 0x200000000)) ::
      List.replicate 2 (.run {})) =
        some n ∧
    n.step (Config.sanitize {}) (.run {}) = some n' ∧
    (n.swim.members.lookup 2).map Member.core = some (.left, 0x100000001) ∧
    (n'.swim.members.lookup 2).map Member.core = some (.alive, 0x200000000) ∧
    n.admitted = [] ∧ n.received = [hearsay 1, hearsay 0x200000000] := by
  obtain ⟨n, hn, hfacts⟩ := map_eq_some_iff.mp (show (Machine.run (Node.step (Config.sanitize {}))
    (start (Config.sanitize {}) 1 0 1) (departing ++ List.replicate 4 (.run {}) ++
      .call (.frame (hearsay 0x200000000)) :: List.replicate 2 (.run {}))).map (fun n =>
        (decide (n.admitted = [] ∧ n.received = [hearsay 1, hearsay 0x200000000]),
          (n.swim.members.lookup 2).map Member.core,
          (n.step (Config.sanitize {}) (.run {})).map fun n' => (n'.swim.members.lookup 2).map Member.core)) =
      some (true, some (.left, 0x100000001), some (some (.alive, 0x200000000)))
    by decide +kernel)
  obtain ⟨hunheard, hfacts⟩ := Prod.mk.inj hfacts
  obtain ⟨hbefore, hfacts⟩ := Prod.mk.inj hfacts
  obtain ⟨n', hn', hafter⟩ := map_eq_some_iff.mp hfacts
  exact ⟨n, n', hn, hn', hbefore, hafter, of_decide_eq_true hunheard⟩

end

end Quark.Swim
