import Quark.SwimDigest

/-! The incarnation of a `SwimMembership` never falls, and passes every accusation that was handled, in the runs where
no raise runs past 64 bits. -/
namespace Quark.Swim

open Machine List Option SwimMembership

def Task.raise (s : SwimMembership) : Task → Option (UInt64 × UInt64)
  | .apply node inc st _ _ =>
    if node = s.self_ ∧ (st = .suspect ∨ st = .dead) ∧ s.selfLeft = false then some (inc, 1) else none
  | .rejoin => some (s.selfIncarnation, 1)
  | .enter (.leave who) => if who = s.self_ then some (s.selfIncarnation, kLeftBand) else none
  | _ => none

/-- The raise that a step makes ends within 64 bits. -/
def Node.Fits (n : Node) (label : Label) : Prop :=
  ((label.task n).bind fun t => t.raise n.swim).all (fun r => decide (r.1.toNat + r.2.toNat < 2 ^ 64)) = true

instance (n : Node) (label : Label) : Decidable (n.Fits label) :=
  inferInstanceAs (Decidable (((label.task n).bind fun t => t.raise n.swim).all (fun r =>
    decide (r.1.toNat + r.2.toNat < 2 ^ 64)) = true))

variable {cfg : Config} {env : Env} {may : Act → Prop} {s : SwimMembership} {n n' : Node}
  {label : Label} {l l' : Ledger}
variable {self_ : NodeId} {t : Task} {rest : List Task} {inc : UInt64} {st : MemberStatus} {src : Src} {now : Int}

theorem lt_raised {by_ : UInt64} (h : inc.toNat + by_.toNat < 2 ^ 64) (hpos : 0 < by_.toNat) : inc < inc + by_ := by
  rw [UInt64.lt_iff_toNat_lt, UInt64.toNat_add, Nat.mod_eq_of_lt h]
  omega

/-- Where the raises fit, our incarnation only grows. -/
structure Ledger.Grows (l l' : Ledger) : Prop where
  me : l'.me = l.me
  incarnation : l.incarnation ≤ l'.incarnation
  left : l.left = true → l'.left = true

namespace Ledger.Grows

theorem refl (l : Ledger) : l.Grows l := ⟨rfl, UInt64.le_refl _, id⟩

theorem trans {l'' : Ledger} (h : l.Grows l') (h' : l'.Grows l'') : l.Grows l'' :=
  ⟨h'.me.trans h.me, UInt64.le_trans h.incarnation h'.incarnation, fun hleft => h'.left (h.left hleft)⟩

end Ledger.Grows

/-- The raises that are allowed end within 64 bits. -/
structure Raises (may : Act → Prop) (left : Bool) : Prop where
  refute : ∀ inc, may (.refute inc) → left = false → inc < inc + 1
  rejoin : ∀ inc, may (.rejoin inc) → inc < inc + 1
  depart : ∀ inc, may (.depart inc) → inc < inc + kLeftBand

theorem Edit.grows {l₀ : Ledger} (h : Edit cfg may l l') (hraises : Raises may l₀.left) (hl : l₀.Grows l)
    (hown : l.Owned) : l.incarnation ≤ l'.incarnation ∧ (l.left = true → l'.left = true) := by
  cases h with
  | refute hmay hhere hle =>
    have hwas : l₀.left = false := by
      cases hleft : l₀.left with
      | false => rfl
      | true => exact (hl.left hleft).symm.trans hhere
    exact ⟨UInt64.le_of_lt (UInt64.lt_of_le_of_lt hle (hraises.refute _ hmay hwas)), id⟩
  | adopt _ _ hlt => exact ⟨UInt64.le_of_lt hlt, id⟩
  | rejoin hmay => exact ⟨UInt64.le_of_lt (hraises.rejoin _ hmay), id⟩
  | depart hinc hmay =>
    have hband := hraises.depart _ hmay
    rw [← hinc, hown.mine.1] at hband
    exact ⟨UInt64.le_of_lt hband, fun _ => rfl⟩
  | _ => exact ⟨UInt64.le_refl _, id⟩

theorem Effect.grows (h : Effect cfg may l l') (hraises : Raises may l.left) (hown : l.Owned) : l.Grows l' := by
  refine (h.keeps (I := fun l' => l.Grows l' ∧ l'.Owned) (fun l₁ hb => ⟨?_, hb.owned hown⟩) fun l₁ l₂ hl he => ?_).1
  · cases hb with
    | same => exact .refl l
    | create _ _ _ _ _ => exact ⟨rfl, UInt64.le_refl _, id⟩
  · have hgrown := he.grows hraises hl.1 hl.2
    exact ⟨hl.1.trans ⟨he.me, hgrown.1, hgrown.2⟩, he.owned hl.2⟩

section Steps

variable {m : ControlMsg} {u : MemberUpdate} {sender : NodeId}

theorem Node.Fits.task (h : n.Fits (.run env)) (htodo : n.todo = t :: rest) {r : UInt64 × UInt64}
    (hr : t.raise n.swim = some r) (hpos : 0 < r.2.toNat) : r.1 < r.1 + r.2 := by
  have hfits := h
  unfold Node.Fits at hfits
  rw [Label.task, htodo, head?_cons, bind_some, hr, all_some] at hfits
  exact lt_raised (of_decide_eq_true hfits) hpos

theorem Node.Fits.raises (h : n.Fits label) (hn : n.Sound) : Raises (label.May cfg n) n.swim.ledger.left := by
  refine ⟨?_, ?_, ?_⟩
  · rintro inc ⟨env, t, rest, rfl, htodo, hmay⟩ hhere
    cases hmay with
    | refute haccused => exact h.task htodo (if_pos ⟨rfl, haccused, hhere⟩) (show 0 < (1 : UInt64).toNat by decide)
    | refuteEviction => exact absurd rfl (hn.foreign (.evictOne _) (by rw [htodo]; exact mem_cons_self))
    | refuteLapse => exact absurd rfl (hn.foreign (.lapseLease _ _) (by rw [htodo]; exact mem_cons_self))
  · rintro inc ⟨env, t, rest, rfl, htodo, hmay⟩
    cases hmay
    exact h.task htodo rfl (show 0 < (1 : UInt64).toNat by decide)
  · rintro inc ⟨env, t, rest, rfl, htodo, hmay⟩
    cases hmay
    rw [hn.own.mine.1]
    exact h.task htodo (if_pos rfl) (show 0 < kLeftBand.toNat by decide)

theorem Node.step_grows (h : n.step cfg label = some n') (hfits : n.Fits label) (hn : n.Sound) :
    n.swim.ledger.Grows n'.swim.ledger := (Node.step_effect h hn.own).grows (hfits.raises hn) hn.own

theorem Node.reach_grows (h : Reach (Node.step cfg) Node.Fits n n') (hn : n.Sound) :
    n'.Sound ∧ n.swim.ledger.Grows n'.swim.ledger := by
  refine h.invariant (I := fun n' => n'.Sound ∧ n.swim.ledger.Grows n'.swim.ledger) ⟨hn, .refl _⟩ ?_
  exact fun n₁ label n₂ hI hfits hstep => ⟨hI.1.step hstep, hI.2.trans (Node.step_grows hstep hfits hI.1)⟩

theorem apply_refutes (hmember : isClientNode s.self_ = false) (haccused : st = .suspect ∨ st = .dead)
    (hfits : s.selfLeft = false → inc < inc + 1) :
    (s.applyUpdate cfg s.self_ inc st src now).selfLeft = true ∨
      inc < (s.applyUpdate cfg s.self_ inc st src now).selfIncarnation := by
  have hst : st ≠ .alive ∧ st ≠ .left := by
    rcases haccused with rfl | rfl <;> exact ⟨nofun, nofun⟩
  unfold applyUpdate
  rw [if_neg (by simp [hmember]), if_neg (by simp), if_pos rfl]
  unfold refute
  split
  · next hgone => exact .inl (hgone.resolve_right hst.2)
  · next hhere =>
    have hleft : s.selfLeft = false := by simpa using fun hleft => hhere (.inl hleft)
    split
    · exact .inr (hfits hleft)
    · next hlower => exact .inr (UInt64.not_le.mp fun hle => hlower ⟨hst.1, hle⟩)

/-- The node left, or passed the accusation, or has the accusation still to apply, before the last `depth` tasks. -/
def Node.Answered (inc : UInt64) (depth : Nat) (n : Node) : Prop :=
  n.swim.selfLeft = true ∨ inc < n.swim.selfIncarnation ∨
    ∃ before st src now after, n.todo = before ++ .apply n.swim.self_ inc st src now :: after ∧
      (st = .suspect ∨ st = .dead) ∧ depth ≤ after.length

theorem Node.Answered.step {depth : Nat} (h : n.Answered inc depth) (hmember : isClientNode n.swim.self_ = false)
    (hn : n.Sound) (hfits : n.Fits label) (hstep : n.step cfg label = some n') : n'.Answered inc depth := by
  have hgrows := Node.step_grows hstep hfits hn
  obtain hleft | hpassed | ⟨before, st, src, now, after, htodo, haccused, hdepth⟩ := h
  · exact .inl (hgrows.left hleft)
  · exact .inr (.inl (UInt64.lt_of_lt_of_le hpassed hgrows.incarnation))
  · have hself : n'.swim.self_ = n.swim.self_ := hgrows.me
    obtain ⟨env, t, rest, rfl, hhead, rfl⟩ | ⟨-, -, -, hsame | ⟨c, -, -, rfl⟩⟩ := Node.step_books hstep
    · cases before with
      | nil =>
        rw [nil_append, hhead] at htodo
        cases htodo
        have hraised : n.swim.selfLeft = false → inc < inc + 1 :=
          fun hhere => hfits.task hhead (if_pos ⟨rfl, haccused, hhere⟩) (show 0 < (1 : UInt64).toNat by decide)
        exact (apply_refutes hmember haccused hraised).imp_right .inl
      | cons b before =>
        rw [cons_append, hhead] at htodo
        cases htodo
        refine .inr (.inr ⟨(n.swim.exec cfg env t).todo ++ before, st, src, now, after, ?_, haccused, hdepth⟩)
        rw [hself, append_assoc]
        rfl
    · exact .inr (.inr ⟨before, st, src, now, after, by rw [hsame, htodo, hself], haccused, hdepth⟩)
    · refine .inr (.inr ⟨.enter c :: .returned c :: before, st, src, now, after, ?_, haccused, hdepth⟩)
      rw [hself]
      exact congrArg (fun todo => .enter c :: .returned c :: todo) htodo

/-- The checks that a frame passes before it is absorbed. -/
def Accepted (cfg : Config) (m : ControlMsg) (sender : NodeId) : Prop :=
  m.from_ = sender ∧ (m.kind = .join → m.subject = m.from_) ∧ m.cluster = cfg.clusterId ∧ m.kind ≠ .joinReject ∧
    cfg.wireVerdict m.wireVersion = .none

theorem gossiped_accusation (now : Int) (haccused : u.status = MemberStatus.suspect.code ∨
    u.status = MemberStatus.dead.code) : ∃ st, gossiped m now u = some (.apply u.node u.incarnation st .gossip now) ∧
      (st = .suspect ∨ st = .dead) := by
  unfold gossiped
  rcases haccused with hcode | hcode
  · exact ⟨.suspect, by rw [hcode]; rfl, .inl rfl⟩
  · exact ⟨.dead, by rw [hcode]; rfl, .inr rfl⟩

theorem handle_accusation (env : Env) (hm : Accepted cfg m sender) (hu : u ∈ m.updates)
    (haccused : u.status = MemberStatus.suspect.code ∨ u.status = MemberStatus.dead.code) :
    ∃ before st after, (s.handle cfg env m sender).todo =
      before ++ .apply u.node u.incarnation st .gossip env.now :: after ∧ (st = .suspect ∨ st = .dead) := by
  obtain ⟨hfrom, hjoin, hcluster, hkind, hversion⟩ := hm
  obtain ⟨st, hgossiped, hst⟩ := gossiped_accusation (m := m) env.now haccused
  obtain ⟨early, late, hupdates⟩ := append_of_mem hu
  unfold handle
  dsimp only
  rw [if_neg (not_not.mpr hfrom), if_neg fun h => h.2 (hjoin h.1), if_neg fun h => h.2 hcluster, if_neg hkind,
    if_neg (not_not.mpr hcluster), if_neg (not_not.mpr hversion)]
  unfold absorb
  dsimp only
  rw [hupdates, filterMap_append, filterMap_cons_some hgossiped]
  generalize (heardDirectly _ m env.now).todo = heard
  exact ⟨heard ++ early.filterMap (gossiped m env.now), st,
    late.filterMap (gossiped m env.now) ++ [.outside, .answer m env.now], by simp, hst⟩

theorem own_entry (hn : n.Sound) : ∃ me, n.swim.members.lookup n.swim.self_ = some me ∧
    me.incarnation = n.swim.selfIncarnation ∧ (n.swim.selfLeft = false → me.status = .alive) := by
  obtain ⟨r, hr, hinc, hstatus⟩ := hn.own
  obtain ⟨me, hme, rfl⟩ := entry_ledger hr
  exact ⟨me, hme, hinc, fun hhere =>
    hstatus.trans (if_neg (by rw [show n.swim.ledger.left = false from hhere]; nofun))⟩

/-- The frame waits to be handled, or its accusation is answered once its tasks are done. -/
theorem Node.answered_after (hmember : isClientNode n.swim.self_ = false) (hn : n.Sound)
    (htodo : n.todo = .handle m sender :: rest) (hm : Accepted cfg m sender) (hu : u ∈ m.updates)
    (hnode : u.node = n.swim.self_)
    (haccused : u.status = MemberStatus.suspect.code ∨ u.status = MemberStatus.dead.code)
    (hn' : Reach (Node.step cfg) Node.Fits n n') :
    n'.todo = .handle m sender :: rest ∨ n'.Answered u.incarnation rest.length := by
  have hI : n'.Sound ∧ n'.swim.self_ = n.swim.self_ ∧
      (n'.todo = .handle m sender :: rest ∨ n'.Answered u.incarnation rest.length) := by
    refine hn'.invariant (I := fun n' => n'.Sound ∧ n'.swim.self_ = n.swim.self_ ∧
      (n'.todo = .handle m sender :: rest ∨ n'.Answered u.incarnation rest.length)) ⟨hn, rfl, .inl htodo⟩ ?_
    intro n₁ label n₂ hI hfits hstep
    obtain ⟨hsound, hself, hphase⟩ := hI
    have hself₂ : n₂.swim.self_ = n₁.swim.self_ := (Node.step_grows hstep hfits hsound).me
    refine ⟨hsound.step hstep, hself₂.trans hself, ?_⟩
    obtain hwaits | hanswered := hphase
    · obtain ⟨env, t, rest', rfl, hhead, rfl⟩ | ⟨-, -, -, hsame | ⟨c, -, hcallable, rfl⟩⟩ := Node.step_books hstep
      · rw [hwaits] at hhead
        cases hhead
        obtain ⟨before, st, after, hdo, hst⟩ := handle_accusation (s := n₁.swim) env hm hu haccused
        refine .inr (.inr (.inr ⟨before, st, .gossip, env.now, after ++ rest, ?_, hst, by simp⟩))
        rw [hnode, ← hself, ← hself₂] at hdo
        exact (congrArg (fun todo => todo ++ rest) hdo).trans (by simp)
      · exact .inl (hsame.trans hwaits)
      · rw [hwaits] at hcallable
        cases hcallable
    · exact .inr (hanswered.step (by rw [hself]; exact hmember) hsound hfits hstep)
  exact hI.2.2

end Steps

/-- In a run whose raises fit, our incarnation never falls; once a frame that accuses us is handled and we did not
leave, our incarnation is above the accusation, the entry that every frame carries for us says so, and whoever still
holds the accusation takes it. -/
theorem Node.outranks_accusers {drawn : UInt64} {sinks : Nat} (hmember : isClientNode self_ = false)
    (hn : Reach (Node.step cfg) Node.Fits (Node.start cfg self_ drawn sinks) n)
    (hn' : Reach (Node.step cfg) Node.Fits n n') :
    n.swim.selfIncarnation ≤ n'.swim.selfIncarnation ∧
    ∀ m sender rest u, n.todo = .handle m sender :: rest → Accepted cfg m sender → u ∈ m.updates → u.node = self_ →
      u.status = MemberStatus.suspect.code ∨ u.status = MemberStatus.dead.code →
      n'.todo.length ≤ rest.length → n'.swim.selfLeft = false →
      u.incarnation < n'.swim.selfIncarnation ∧
      (2 ≤ cfg.maxGossipUpdates → ∀ to_, ⟨self_, n'.swim.selfIncarnation, MemberStatus.alive.code⟩ ∈
        (n'.swim.fillDigest cfg to_).2) ∧
      ∀ (cfg' : Config) (cur : Member) (src : Src) (now : Int), cur.incarnation ≤ u.incarnation →
      src ≠ .joinSnapshot → nextStatus cfg' cur n'.swim.selfIncarnation .alive src now = some .alive := by
  have hsound : n.Sound := Node.sound hn
  have hself : n.swim.self_ = self_ :=
    hn.invariant (I := fun n => n.Sound ∧ n.swim.self_ = self_) ⟨sound_start, rfl⟩ (fun _ _ _ hI hfits hstep =>
      ⟨hI.1.step hstep, (Node.step_grows hstep hfits hI.1).me.trans hI.2⟩) |>.2
  obtain ⟨hsound', hgrows⟩ := Node.reach_grows hn' hsound
  refine ⟨hgrows.incarnation, fun m sender rest u htodo hm hu hnode haccused hover hhere => ?_⟩
  have hpassed : u.incarnation < n'.swim.selfIncarnation := by
    obtain hwaits | hleft | hpassed | ⟨before, st, src, now, after, hwaits, -, hdepth⟩ :=
      Node.answered_after (by rw [hself]; exact hmember) hsound htodo hm hu (hnode.trans hself.symm) haccused hn'
    · rw [hwaits, length_cons] at hover
      omega
    · rw [hhere] at hleft
      cases hleft
    · exact hpassed
    · rw [hwaits, length_append, length_cons] at hover
      omega
  refine ⟨hpassed, fun hcap to_ => ?_, fun cfg' cur src now hcur hsrc => ?_⟩
  · obtain ⟨me, hme, hinc, halive⟩ := own_entry hsound'
    have hin : _ ∈ (n'.swim.fillDigest cfg to_).2 := own_in_digest to_ hcap hme
    rw [hinc, halive hhere, show n'.swim.self_ = self_ from hgrows.me.trans hself] at hin
    exact hin
  · rw [nextStatus, if_neg fun h => hsrc h.1, if_pos (UInt64.lt_of_le_of_lt hcur hpassed)]

def accusation (inc : UInt64) : ControlMsg :=
  { kind := .gossip, from_ := 2, fromIncarnation := 1, wireVersion := 2,
    updates := [⟨1, inc, MemberStatus.suspect.code⟩] }

def accused (inc : UInt64) : List Label :=
  [.call (.frame { from_ := 2, to_ := 1, control := true, payload := some (accusation inc) }), .run {}]

def Task.handlesAccusation (inc : UInt64) : List Task → Bool
  | [.handle m sender, _, _] => decide (m = accusation inc ∧ sender = 2)
  | _ => false

theorem outranks_accusers_five : ∃ n n',
    Machine.run (guarded (Node.step (Config.sanitize {})) Node.Fits) (Node.start (Config.sanitize {}) 1 0 0)
      (accused 5) = some n ∧
    Machine.run (guarded (Node.step (Config.sanitize {})) Node.Fits) n (List.replicate 4 (.run {})) = some n' ∧
    n'.swim.selfIncarnation = 6 ∧ 5 < n'.swim.selfIncarnation ∧
    ⟨1, n'.swim.selfIncarnation, MemberStatus.alive.code⟩ ∈ (n'.swim.fillDigest (Config.sanitize {}) 2).2 := by
  obtain ⟨n, hn, hfacts⟩ := map_eq_some_iff.mp (show (Machine.run
    (guarded (Node.step (Config.sanitize {})) Node.Fits) (Node.start (Config.sanitize {}) 1 0 0)
    (accused 5)).map (fun n => (Task.handlesAccusation 5 n.todo,
      (Machine.run (guarded (Node.step (Config.sanitize {})) Node.Fits) n (List.replicate 4 (.run {}))).map
        fun n' => (n'.swim.selfIncarnation, n'.swim.selfLeft, n'.todo.length))) = some (true, some (6, false, 2))
      by decide +kernel)
  obtain ⟨hnext, hfacts⟩ := Prod.mk.inj hfacts
  obtain ⟨n', hn', hafter⟩ := map_eq_some_iff.mp hfacts
  obtain ⟨hinc, hafter⟩ := Prod.mk.inj hafter
  obtain ⟨hhere, hover⟩ := Prod.mk.inj hafter
  obtain ⟨a, b, htodo⟩ : ∃ a b, n.todo = [.handle (accusation 5) 2, a, b] := by
    unfold Task.handlesAccusation at hnext
    split at hnext
    · next m sender a b htodo =>
      obtain ⟨rfl, rfl⟩ := of_decide_eq_true hnext
      exact ⟨a, b, htodo⟩
    · cases hnext
  obtain ⟨hpassed, hsent, -⟩ := (Node.outranks_accusers (by decide) (reach_of_run hn)
    (reach_of_run hn')).2 (accusation 5) 2 [a, b] ⟨1, 5, MemberStatus.suspect.code⟩ htodo (by unfold Accepted; decide)
    mem_cons_self rfl (.inl rfl) (by rw [hover]; rfl) hhere
  exact ⟨n, n', hn, hn', hinc, hpassed, hsent (by decide) 2⟩

/-- An accusation at the highest incarnation there is: the refutation starts again at 0. -/
theorem top_accusation_wins : ∃ n n',
    Machine.run (Node.step (Config.sanitize {})) (Node.start (Config.sanitize {}) 1 0 0)
    (accused 0xFFFFFFFFFFFFFFFF) =
      some n ∧
    Machine.run (Node.step (Config.sanitize {})) n (List.replicate 4 (.run {})) = some n' ∧
    n.swim.selfIncarnation = 1 ∧ n'.swim.selfIncarnation = 0 ∧ n'.swim.selfLeft = false := by
  obtain ⟨n, hn, hfacts⟩ := map_eq_some_iff.mp (show (Machine.run (Node.step (Config.sanitize {}))
    (Node.start (Config.sanitize {}) 1 0 0) (accused 0xFFFFFFFFFFFFFFFF)).map (fun n => (n.swim.selfIncarnation,
      (Machine.run (Node.step (Config.sanitize {})) n (List.replicate 4 (.run {}))).map fun n' =>
        (n'.swim.selfIncarnation, n'.swim.selfLeft))) = some (1, some (0, false)) by decide +kernel)
  obtain ⟨hbefore, hfacts⟩ := Prod.mk.inj hfacts
  obtain ⟨n', hn', hafter⟩ := map_eq_some_iff.mp hfacts
  obtain ⟨hinc, hleft⟩ := Prod.mk.inj hafter
  exact ⟨n, n', hn, hn', hbefore, hinc, hleft⟩

end Quark.Swim
