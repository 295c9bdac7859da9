import Quark.SecureTransport

/-! Admission: the scopes, the barrier, the question at completion and the sweep together keep a denied peer
out from the return of a publish to the next one. -/
namespace Quark.Secure

open Net (MessageFrame)
open Swim (NodeId Fingerprint AdmissionVerdict AdmissionSnapshot)

def Call.snapshot : Call → Option AdmissionSnapshot
  | .upkeep (.swapped snap _) | .upkeep (.fenced snap) | .upkeep (.aborting snap _) | .upkeep (.closing snap _)
  | .upkeep (.purging snap _ _) => some snap
  | _ => none

def Call.waits : Call → Bool
  | .upkeep (.swapped ..) => true
  | _ => false

def Call.reentrant : Call → Bool
  | .upkeep (.swapped _ inside) => inside
  | _ => false

/-- A publish in progress that has the session of `peer` still to close. -/
def Call.mayClose (peer : NodeId) : Call → Prop
  | .upkeep (.swapped ..) | .upkeep (.fenced _) | .upkeep (.aborting ..) => True
  | .upkeep (.closing _ doomed) | .upkeep (.purging _ _ doomed) => peer ∈ doomed
  | _ => False

/-- What a call in a scope has asked, `snap` permits. -/
def Call.Gated (snap : AdmissionSnapshot) : Call → Prop
  | .frame (.sending to_ f) | .frame (.looked to_ f _) | .frame (.holding to_ f _) =>
    permits (snap.lookup to_) f.kind = true
  | .frame (.receiving f) | .frame (.opening f _) | .frame (.handing f _) =>
      permits (snap.lookup f.from_) f.kind = true
  | .handshake k => ∀ c, k.installs = some c → snap.lookup c.peer ≠ .deny
  | _ => True

def Call.isFrame : Call → Bool
  | .frame _ => true
  | _ => false

/-- What happens while `snap` is the snapshot of the last publish: no frame passes and no session is installed that it
forbids, and no publish returns that has not begun. -/
def Event.Permitted (snap : AdmissionSnapshot) : Event → Prop
  | .sent to_ f .. => permits (snap.lookup to_) f.kind = true
  | .delivered f _ => permits (snap.lookup f.from_) f.kind = true
  | .installed peer _ => snap.lookup peer ≠ .deny
  | .published _ => False
  | _ => True

/-- The snapshot whose publish has returned and that no later one has begun to replace. -/
def current (log : List Event) : Option AdmissionSnapshot :=
  log.foldl (fun acc e =>
    match e with
    | .publishing _ => none
    | .published snap => some snap
    | _ => acc) none

def Event.generation : Event → Option UInt64
  | .publishing snap => some snap.generation
  | _ => none

def generations (log : List Event) : List UInt64 := log.filterMap Event.generation

structure Admitted (cfg : Config) (s : State) : Prop where
  single : ∀ (i j : Nat) (t t' : Thread), s.threads[i]? = some t → s.threads[j]? = some t' →
    t.call.snapshot.isSome = true → t'.call.snapshot.isSome = true → i = j
  snaps : ∀ t ∈ s.threads, ∀ snap, t.call.snapshot = some snap → snap = s.admission
  outside : ∀ t ∈ s.threads, t.call.reentrant = false
  scopes : ∀ t ∈ s.threads, t.call.isFrame = true → t.scope = true
  gated : (∀ t ∈ s.threads, t.call.waits = false) → ∀ t ∈ s.threads, t.call.Gated s.admission
  sessions : cfg.handshake = true → ∀ p sid, s.sessions.lookup p = some sid → s.admission.lookup p = .deny →
    ∃ t ∈ s.threads, t.call.mayClose p
  clean : ∀ before e after, s.log = before ++ e :: after → ∀ snap, current before = some snap → e.Permitted snap
  now : ∀ snap, current s.log = some snap → snap = s.admission ∧ ∀ t ∈ s.threads, t.call.snapshot = none
  increasing : (generations s.log).Pairwise (· < ·)
  bounded : ∀ g ∈ generations s.log, g ≤ s.admission.generation

def Label.outside : Label → Bool
  | .publish _ inside => !inside
  | _ => true

section

variable {cfg : Config} {s s' u : State} {i : Nat} {t t' : Thread} {call : Call} {e : Event} {new : List Event}
  {snap : AdmissionSnapshot} {log : List Event}

theorem Admitted.start (cfg : Config) : Admitted cfg {} where
  single _ _ _ _ ht := by cases ht
  snaps _ ht := by cases ht
  outside _ ht := by cases ht
  scopes _ ht := by cases ht
  gated _ _ ht := by cases ht
  sessions _ _ _ hlookup := by cases hlookup
  clean before _ _ heq := by cases before <;> cases heq
  now _ hcurrent := by cases hcurrent
  increasing := .nil
  bounded _ hg := by cases hg

def Event.plain : Event → Bool
  | .publishing _ | .published _ => false
  | _ => true

theorem current_concat_plain (he : e.plain = true) : current (log ++ [e]) = current log := by
  rw [current, List.foldl_append]
  cases e with
  | publishing | published => cases he
  | sent | delivered | authenticate | installed | dialed | identified | rejected | reset | closed
    | supplied | swept => rfl

theorem generations_concat_plain (he : e.plain = true) : generations (log ++ [e]) = generations log := by
  rw [generations, List.filterMap_append]
  cases e with
  | publishing | published => cases he
  | sent | delivered | authenticate | installed | dialed | identified | rejected | reset | closed
    | supplied | swept =>
    exact List.append_nil _

theorem clean_concat (h : ∀ before e after, log = before ++ e :: after → ∀ snap, current before = some snap →
    e.Permitted snap)
    (he : ∀ snap, current log = some snap → e.Permitted snap) :
    ∀ before e' after, log ++ [e] = before ++ e' :: after → ∀ snap, current before = some snap →
    e'.Permitted snap := by
  intro before e' after heq snap
  rcases List.eq_nil_or_concat after with rfl | ⟨after, last, rfl⟩
  · obtain ⟨rfl, hlast⟩ := List.append_inj' heq rfl
    cases hlast
    exact he snap
  · rw [List.concat_eq_append, ← List.cons_append, ← List.append_assoc] at heq
    exact h before e' after (List.append_inj' heq rfl).1 snap

theorem plain_events
    (h : ∀ before e after, log = before ++ e :: after → ∀ snap, current before = some snap → e.Permitted snap)
    (hnew : ∀ e ∈ new, e.plain = true ∧ ∀ snap, current log = some snap → e.Permitted snap) :
    current (log ++ new) = current log ∧ generations (log ++ new) = generations log ∧
      ∀ before e after, log ++ new = before ++ e :: after → ∀ snap, current before = some snap →
      e.Permitted snap := by
  induction new using List.reverseRecOn with
  | nil =>
    rw [List.append_nil]
    exact ⟨rfl, rfl, h⟩
  | append_singleton new e ih =>
    obtain ⟨hcurrent, hgens, hclean⟩ := ih fun e' he' => hnew e' (List.mem_append_left _ he')
    obtain ⟨hplain, hpermitted⟩ := hnew e (List.mem_append_right _ List.mem_cons_self)
    rw [← List.append_assoc]
    refine ⟨(current_concat_plain hplain).trans hcurrent, (generations_concat_plain hplain).trans hgens,
      clean_concat hclean fun snap hsnap => hpermitted snap (hcurrent ▸ hsnap)⟩

/-- What a call that goes on as `t'` in the place of `t` must keep, where `u` has the sessions and `s` had the
others. -/
structure Follows (cfg : Config) (s u : State) (t t' : Thread) : Prop where
  snapshot : ∀ snap, t'.call.snapshot = some snap → t.call.snapshot = some snap
  outside : t'.call.reentrant = false
  scope : t'.call.isFrame = true → t'.scope = true
  gated : (∀ t ∈ s.threads, t.call.Gated s.admission) → t'.call.Gated s.admission
  closes : cfg.handshake = true → ∀ p sid, u.sessions.lookup p = some sid → s.admission.lookup p = .deny →
    t.call.mayClose p → t'.call.mayClose p

/-- One call takes a step: either nobody waited at the barrier on its account, or everything is gated. -/
theorem Admitted.next (h : Admitted cfg s) (hget : s.threads[i]? = some t)
    (hwaits : t.call.waits = false ∨ (∀ v ∈ s.threads, v.call.Gated s.admission))
    (hadmission : u.admission = s.admission) (hthreads : u.threads = s.threads) (hlog : u.log = s.log ++ new)
    (hnew : ∀ e ∈ new, e.plain = true ∧ ∀ snap, current s.log = some snap → e.Permitted snap)
    (hsessions : cfg.handshake = true → ∀ p sid, u.sessions.lookup p = some sid → s.admission.lookup p = .deny →
      ∃ t ∈ s.threads, t.call.mayClose p)
    (hfollows : Follows cfg s u t t') : Admitted cfg { u with threads := u.threads.set i t' } := by
  have hi : i < s.threads.length := (List.getElem?_eq_some_iff.mp hget).1
  obtain ⟨hcurrent, hgens, hclean⟩ := plain_events h.clean hnew
  rw [← hlog] at hcurrent hgens hclean
  have hback : ∀ j v, (s.threads.set i t')[j]? = some v → (j = i ∧ v = t') ∨ s.threads[j]? = some v := by
    intro j v hv
    by_cases hj : i = j
    · subst hj
      rw [List.getElem?_set_self hi] at hv
      cases hv
      exact .inl ⟨rfl, rfl⟩
    · rw [List.getElem?_set_ne hj] at hv
      exact .inr hv
  have hmem : ∀ v ∈ s.threads.set i t', v = t' ∨ v ∈ s.threads := fun v hv =>
    (List.mem_or_eq_of_mem_set hv).symm
  have hold : ∀ v ∈ s.threads, v = t ∨ v ∈ s.threads.set i t' := by
    intro v hv
    obtain ⟨j, hj⟩ := List.mem_iff_getElem?.mp hv
    by_cases hij : i = j
    · subst hij
      rw [hget] at hj
      cases hj
      exact .inl rfl
    · exact .inr (List.mem_of_getElem? ((List.getElem?_set_ne hij).trans hj))
  have hin : t' ∈ s.threads.set i t' := List.mem_set hi t'
  obtain ⟨_, sessions, _, _, _, _, _, log'⟩ := u
  dsimp only at hadmission hthreads hcurrent hgens hclean
  subst hadmission hthreads
  constructor <;> dsimp only
  · intro j k v w hv hw hvs hws
    have hpublishes : t'.call.snapshot.isSome = true → t.call.snapshot.isSome = true := fun hsome => by
      obtain ⟨snap, hsnap⟩ := Option.isSome_iff_exists.mp hsome
      exact Option.isSome_of_eq_some (hfollows.snapshot snap hsnap)
    rcases hback j v hv with ⟨rfl, rfl⟩ | hv'
    · rcases hback k w hw with ⟨rfl, rfl⟩ | hw'
      · rfl
      · exact h.single _ k t w hget hw' (hpublishes hvs) hws
    · rcases hback k w hw with ⟨rfl, rfl⟩ | hw'
      · exact h.single j _ v t hv' hget hvs (hpublishes hws)
      · exact h.single j k v w hv' hw' hvs hws
  · intro v hv snap hsnap
    rcases hmem v hv with rfl | hv'
    · exact h.snaps t (List.mem_of_getElem? hget) snap (hfollows.snapshot snap hsnap)
    · exact h.snaps v hv' snap hsnap
  · intro v hv
    rcases hmem v hv with rfl | hv'
    · exact hfollows.outside
    · exact h.outside v hv'
  · intro v hv hframe
    rcases hmem v hv with rfl | hv'
    · exact hfollows.scope hframe
    · exact h.scopes v hv' hframe
  · intro hnone v hv
    have hgated : ∀ w ∈ s.threads, w.call.Gated s.admission := by
      rcases hwaits with hwaits | hgated
      · refine h.gated fun w hw => ?_
        rcases hold w hw with rfl | hw'
        · exact hwaits
        · exact hnone w hw'
      · exact hgated
    rcases hmem v hv with rfl | hv'
    · exact hfollows.gated hgated
    · exact hgated v hv'
  · intro hcfg p sid hlookup hdeny
    obtain ⟨v, hv, hcloses⟩ := hsessions hcfg p sid hlookup hdeny
    rcases hold v hv with rfl | hv'
    · exact ⟨t', hin, hfollows.closes hcfg p sid hlookup hdeny hcloses⟩
    · exact ⟨v, hv', hcloses⟩
  · exact hclean
  · rw [hcurrent]
    intro snap hsnap
    obtain ⟨heq, hnone⟩ := h.now snap hsnap
    refine ⟨heq, fun v hv => ?_⟩
    rcases hmem v hv with rfl | hv'
    · refine Option.eq_none_iff_forall_not_mem.mpr fun snap' hsnap' => ?_
      have hprior := hfollows.snapshot snap' hsnap'
      rw [hnone t (List.mem_of_getElem? hget)] at hprior
      cases hprior
    · exact hnone v hv'
  · rw [hgens]
    exact h.increasing
  · rw [hgens]
    exact h.bounded

theorem Admitted.spawn {b : Bool} (h : Admitted cfg s) (hadmission : u.admission = s.admission)
    (hthreads : u.threads = s.threads) (hlog : u.log = s.log ++ new)
    (hnew : ∀ e ∈ new, e.plain = true ∧ ∀ snap, current s.log = some snap → e.Permitted snap)
    (hsessions : ∀ p sid, u.sessions.lookup p = some sid → s.sessions.lookup p = some sid)
    (hsnapshot : call.snapshot = none) (hreentrant : call.reentrant = false) (hscope : call.isFrame = true → b = true)
    (hgated : call.Gated s.admission) : Admitted cfg (u.spawn call b) := by
  obtain ⟨hcurrent, hgens, hclean⟩ := plain_events h.clean hnew
  rw [← hlog] at hcurrent hgens hclean
  have hmem : ∀ v ∈ s.threads ++ [{ call, scope := b }], v = { call, scope := b } ∨ v ∈ s.threads := fun v hv =>
    (List.mem_append.mp hv).symm.imp_left List.mem_singleton.mp
  have hback : ∀ (j : Nat) (v : Thread), (s.threads ++ [{ call, scope := b }])[j]? = some v →
      v.call.snapshot.isSome = true → s.threads[j]? = some v := by
    intro j v hv hsome
    rw [List.getElem?_append] at hv
    split at hv
    · exact hv
    · rw [List.mem_singleton.mp (List.mem_of_getElem? hv), hsnapshot] at hsome
      cases hsome
  obtain ⟨_, sessions, _, _, _, _, _, log'⟩ := u
  dsimp only at hadmission hthreads hcurrent hgens hclean
  subst hadmission hthreads
  constructor <;> dsimp only [State.spawn]
  · intro j k v w hv hw hvs hws
    exact h.single j k v w (hback j v hv hvs) (hback k w hw hws) hvs hws
  · intro v hv snap hsnap
    rcases hmem v hv with rfl | hv'
    · rw [hsnapshot] at hsnap
      cases hsnap
    · exact h.snaps v hv' snap hsnap
  · intro v hv
    rcases hmem v hv with rfl | hv'
    · exact hreentrant
    · exact h.outside v hv'
  · intro v hv hframe
    rcases hmem v hv with rfl | hv'
    · exact hscope hframe
    · exact h.scopes v hv' hframe
  · intro hnone v hv
    rcases hmem v hv with rfl | hv'
    · exact hgated
    · exact h.gated (fun w hw => hnone w (List.mem_append_left _ hw)) v hv'
  · intro hcfg p sid hlookup hdeny
    obtain ⟨v, hv, hcloses⟩ := h.sessions hcfg p sid (hsessions p sid hlookup) hdeny
    exact ⟨v, List.mem_append_left _ hv, hcloses⟩
  · exact hclean
  · rw [hcurrent]
    intro snap hsnap
    obtain ⟨heq, hnone⟩ := h.now snap hsnap
    refine ⟨heq, fun v hv => ?_⟩
    rcases hmem v hv with rfl | hv'
    · exact hsnapshot
    · exact hnone v hv'
  · rw [hgens]
    exact h.increasing
  · rw [hgens]
    exact h.bounded

theorem waits_of_snapshot (h : call.snapshot = none) : call.waits = false := by
  rcases call with _ | _ | c | _
  · rfl
  · rfl
  · cases c with
    | swapped => cases h
    | listing | scanning | retiring | disconnecting | fenced | aborting | closing | purging => rfl
  · rfl

theorem not_mayClose_of_snapshot {p : NodeId} (h : call.snapshot = none) : ¬call.mayClose p := by
  intro hcloses
  rcases call with _ | _ | c | _
  · cases hcloses
  · cases hcloses
  · cases c with
    | swapped | fenced | aborting | closing | purging => cases h
    | listing | scanning | retiring | disconnecting => cases hcloses
  · cases hcloses

/-- Where a publish has returned, nobody waits at the barrier and every call is gated by its snapshot. -/
theorem Admitted.gated_now (h : Admitted cfg s) (hcurrent : current s.log = some snap) (ht : t ∈ s.threads) :
    t.call.Gated snap := by
  obtain ⟨rfl, hnone⟩ := h.now snap hcurrent
  exact h.gated (fun v hv => waits_of_snapshot (hnone v hv)) t ht

theorem Admitted.goto (h : Admitted cfg s) (hget : s.threads[i]? = some t) (hwaits : t.call.waits = false)
    (hadmission : u.admission = s.admission) (hthreads : u.threads = s.threads) (hlog : u.log = s.log ++ new)
    (hnew : ∀ e ∈ new, e.plain = true ∧ ∀ snap, current s.log = some snap → e.Permitted snap)
    (hsessions : ∀ p sid, u.sessions.lookup p = some sid → s.sessions.lookup p = some sid)
    (hfollows : Follows cfg s u t { t' with call }) : Admitted cfg (u.goto i t' call) :=
  h.next hget (.inl hwaits) hadmission hthreads hlog hnew
    (fun hcfg p sid hlookup hdeny => h.sessions hcfg p sid (hsessions p sid hlookup) hdeny) hfollows

theorem Follows.plain (hcalls : t.call.snapshot = none) (hsnapshot : t'.call.snapshot = none)
    (hreentrant : t'.call.reentrant = false) (hscope : t'.call.isFrame = true → t'.scope = true)
    (hgated : (∀ t ∈ s.threads, t.call.Gated s.admission) → t'.call.Gated s.admission) : Follows cfg s u t t' where
  snapshot snap hsnap := by
    rw [hsnapshot] at hsnap
    cases hsnap
  outside := hreentrant
  scope := hscope
  gated := hgated
  closes _ _ _ _ _ hcloses := absurd hcloses (not_mayClose_of_snapshot hcalls)

theorem gated_of_plain {k : HandshakeCall} (hplain : k.completion = none) : (Call.handshake k).Gated snap := by
  intro c hc
  cases k with
  | installing | swapping | creating => cases hplain
  | requesting | starting | authenticating | opener | admitted | reserved | driving | anonymous | completed | binding
  | replying | failed | erasing => cases hc

theorem mayClose_of_waits {p : NodeId} (h : call.waits = true) : call.mayClose p := by
  rcases call with _ | _ | c | _
  · cases h
  · cases h
  · cases c with
    | swapped => trivial
    | listing | scanning | retiring | disconnecting | fenced | aborting | closing | purging => cases h
  · cases h

theorem Follows.done (hcalls : t.call.snapshot = none) : Follows cfg s u t { call := .done } :=
  .plain hcalls rfl rfl nofun fun _ => trivial

theorem Admitted.finish (h : Admitted cfg s) (hget : s.threads[i]? = some t) (hwaits : t.call.waits = false)
    (hadmission : u.admission = s.admission) (hthreads : u.threads = s.threads) (hlog : u.log = s.log ++ new)
    (hnew : ∀ e ∈ new, e.plain = true ∧ ∀ snap, current s.log = some snap → e.Permitted snap)
    (hsessions : ∀ p sid, u.sessions.lookup p = some sid → s.sessions.lookup p = some sid)
    (hsnapshot : t.call.snapshot = none) : Admitted cfg (u.finish i) :=
  h.next hget (.inl hwaits) hadmission hthreads hlog hnew
    (fun hcfg p sid hlookup hdeny => h.sessions hcfg p sid (hsessions p sid hlookup) hdeny) (.done hsnapshot)

theorem Admitted.frameNext {f : FrameCall} (h : Admitted cfg s) (hget : s.threads[i]? = some t)
    (hcall : t.call = .frame f)
    (hadmission : u.admission = s.admission) (hthreads : u.threads = s.threads) (hlog : u.log = s.log)
    (hsessions : cfg.handshake = true → u.sessions = s.sessions) (hsnapshot : call.snapshot = none)
    (hreentrant : call.reentrant = false) (hgated : (Call.frame f).Gated s.admission → call.Gated s.admission) :
    Admitted cfg (u.goto i t call) := by
  have ht := List.mem_of_getElem? hget
  refine h.next hget (.inl (by rw [hcall]; rfl)) hadmission hthreads (hlog.trans (List.append_nil _).symm) nofun
    (fun hcfg p sid hlookup hdeny => h.sessions hcfg p sid (hsessions hcfg ▸ hlookup) hdeny)
    (.plain (by rw [hcall]; rfl) hsnapshot hreentrant (fun _ => h.scopes t ht (by rw [hcall]; rfl)) fun hall => ?_)
  have hgate := hall t ht
  rw [hcall] at hgate
  exact hgated hgate

theorem Admitted.frameDone {f : FrameCall} (h : Admitted cfg s) (hget : s.threads[i]? = some t)
    (hcall : t.call = .frame f)
    (hadmission : u.admission = s.admission) (hthreads : u.threads = s.threads) (hsessions : u.sessions = s.sessions)
    (hlog : u.log = s.log ++ new)
    (hnew : ∀ e ∈ new, e.plain = true ∧ ∀ snap, (Call.frame f).Gated snap → e.Permitted snap) :
    Admitted cfg (u.finish i) := by
  have ht := List.mem_of_getElem? hget
  refine h.finish hget (by rw [hcall]; rfl) hadmission hthreads hlog
    (fun e he => ⟨(hnew e he).1, fun snap hsnap => ?_⟩) (fun _ _ hlookup => hsessions ▸ hlookup)
    (by rw [hcall]; rfl)
  have hgate := h.gated_now hsnap ht
  rw [hcall] at hgate
  exact (hnew e he).2 snap hgate

theorem Admitted.stepFrame {f : FrameCall} (h : Admitted cfg s) (hget : s.threads[i]? = some t)
    (hcall : t.call = .frame f) {now : Int} (hstep : s.stepFrame cfg i t now f = some s') : Admitted cfg s' := by
  have hdone : Admitted cfg (s.finish i) :=
    h.frameDone hget hcall rfl rfl rfl (List.append_nil _).symm nofun
  cases f with
  | sending to_ f =>
    rw [State.stepFrame] at hstep
    split at hstep
    · cases hstep
      exact h.frameNext hget hcall rfl rfl rfl (fun _ => rfl) rfl rfl id
    · split at hstep
      · cases hstep
        exact h.frameNext hget hcall rfl rfl rfl (fun _ => rfl) rfl rfl nofun
      · next hcfg =>
        cases hstep
        exact h.frameNext hget hcall rfl rfl rfl (fun hon => absurd hon hcfg) rfl rfl id
  | looked to_ f sid =>
    obtain ⟨se, hse, hstep⟩ := Option.bind_eq_some_iff.mp hstep
    split at hstep
    · cases hstep
    · split at hstep
      · cases hstep
        exact hdone
      · cases hstep
        exact h.frameNext hget hcall rfl rfl rfl (fun _ => rfl) rfl rfl id
  | holding to_ f sid =>
    obtain ⟨se, hse, hstep⟩ := Option.bind_eq_some_iff.mp hstep
    cases hstep
    refine h.frameDone hget hcall rfl rfl rfl rfl fun e he => ?_
    rw [List.mem_singleton.mp he]
    exact ⟨rfl, fun _ hgate => hgate⟩
  | receiving f =>
    rw [State.stepFrame] at hstep
    split at hstep
    · cases hstep
      exact hdone
    · split at hstep
      · cases hstep
        exact h.frameNext hget hcall rfl rfl rfl (fun _ => rfl) rfl rfl id
      · split at hstep
        · cases hstep
          exact hdone
        · next hcfg =>
          cases hstep
          exact h.frameNext hget hcall rfl rfl rfl (fun hon => absurd hon hcfg) rfl rfl id
  | opening f sid =>
    obtain ⟨se, hse, hstep⟩ := Option.bind_eq_some_iff.mp hstep
    split at hstep
    · cases hstep
    · split at hstep
      · cases hstep
        exact hdone
      · split at hstep
        · cases hstep
          exact hdone
        · next se' f' hopen =>
          cases hstep
          obtain ⟨_, -, -, rfl⟩ := PeerSession.openFrame_spec hopen
          exact h.frameNext hget hcall rfl rfl rfl (fun _ => rfl) rfl rfl id
  | handing f sid =>
    obtain ⟨se, hse, hstep⟩ := Option.bind_eq_some_iff.mp hstep
    cases hstep
    rw [State.noteIf_eq]
    refine h.frameDone hget hcall rfl rfl rfl rfl fun e he => ?_
    split at he
    · rw [List.mem_singleton.mp he]
      exact ⟨rfl, fun _ hgate => hgate⟩
    · cases he

theorem plain_of_minor (he : e.minor = true) : e.plain = true ∧ ∀ snap, e.Permitted snap := by
  cases e with
  | sent | delivered | installed | supplied | swept | publishing | published => cases he
  | authenticate | dialed | identified | rejected | reset | closed => exact ⟨rfl, fun _ => trivial⟩

theorem Admitted.stepHandshake {k : HandshakeCall} (h : Admitted cfg s) (hbound : cfg.admissionBound = true)
    (hget : s.threads[i]? = some t) (hcall : t.call = .handshake k) {now : Int} {a : Advance}
    (hstep : s.stepHandshake cfg i t now a k = some s') : Admitted cfg s' := by
  have ht := List.mem_of_getElem? hget
  have hwaits : t.call.waits = false := by rw [hcall]; rfl
  have hsnapshot : t.call.snapshot = none := by rw [hcall]; rfl
  have hgate : ∀ snap, t.call.Gated snap → ∀ c, k.installs = some c → snap.lookup c.peer ≠ .deny := by
    intro snap hgated
    rw [hcall] at hgated
    exact hgated
  rcases stepHandshake_effect hstep with ⟨pending, new, t', call, rfl, hnew,
    honward⟩ | ⟨c, sid, se, rfl, hse, -, rfl⟩ |
    ⟨c, rfl, rfl⟩ | ⟨peer, rfl, rfl⟩
  · refine h.goto hget hwaits rfl rfl rfl (fun e he => ⟨(plain_of_minor (hnew e he)).1, fun snap _ =>
      (plain_of_minor (hnew e he)).2 snap⟩) (fun _ _ => id) ?_
    cases call with
    | frame | upkeep => cases honward
    | done => exact .plain hsnapshot rfl rfl nofun fun _ => trivial
    | handshake k' =>
      refine .plain hsnapshot rfl rfl nofun fun hall c hc => ?_
      rcases honward.2 c hc with hsame | hadmitted
      · exact hgate _ (hall t ht) c hsame
      · rw [State.denied, hbound, Bool.true_and, decide_eq_false_iff_not] at hadmitted
        exact hadmitted
  · obtain ⟨k', hinstalled, hplain⟩ :=
      State.installed_eq ((s.setSession sid (se.installRenegotiated c.result.sendCipher
      c.result.recvCipher c.result.peerFingerprint now)).note (.installed c.peer c.result.peerFingerprint)) i t c
    rw [hinstalled]
    refine h.goto hget hwaits rfl rfl rfl (fun e he => ?_) (fun _ _ => id)
      (.plain hsnapshot rfl rfl nofun fun _ => gated_of_plain hplain)
    rw [List.mem_singleton.mp he]
    exact ⟨rfl, fun snap hsnap => hgate snap (h.gated_now hsnap ht) c rfl⟩
  · obtain ⟨k', hinstalled, hplain⟩ := State.installed_eq ((s.putSession
        { peer := c.peer, sendCipher := c.result.sendCipher, recvCipher := c.result.recvCipher,
          peerFingerprint := c.result.peerFingerprint, renegotiatedAt := now }).note
        (.installed c.peer c.result.peerFingerprint)) i t c
    rw [hinstalled]
    refine h.next hget (.inl hwaits) rfl rfl rfl (fun e he => ?_) (fun hcfg p sid hlookup hdeny => ?_)
      (.plain hsnapshot rfl rfl nofun fun _ => gated_of_plain hplain)
    · rw [List.mem_singleton.mp he]
      exact ⟨rfl, fun snap hsnap => hgate snap (h.gated_now hsnap ht) c rfl⟩
    · by_cases hp : p = c.peer
      · -- either a publish still waits at the barrier, or the peer was asked for under the current snapshot
        by_cases hnone : ∀ v ∈ s.threads, v.call.waits = false
        · exact absurd (hp ▸ hdeny) (hgate _ (h.gated hnone t ht) c rfl)
        · push Not at hnone
          obtain ⟨v, hv, hwaiting⟩ := hnone
          exact ⟨v, hv, mayClose_of_waits (Bool.not_eq_false _ ▸ hwaiting)⟩
      · have hold : s.sessions.lookup p = some sid := (AList.lookup_insert_ne hp).symm.trans hlookup
        exact h.sessions hcfg p sid hold hdeny
  · rw [State.noteIf_eq]
    refine h.finish hget hwaits rfl rfl rfl (fun e he => ?_) (fun _ _ => Table.lookup_of_erase) hsnapshot
    split at he
    · rw [List.mem_singleton.mp he]
      exact ⟨rfl, fun _ _ => trivial⟩
    · cases he

theorem Thread.gated_of_outside (hscopes : t.call.isFrame = true → t.scope = true) (hscope : t.inScope = false) :
    t.call.Gated snap := by
  rcases t with ⟨f | k | _ | _, b⟩
  · rw [Thread.inScope, hscopes rfl] at hscope
    cases hscope
  · rw [Thread.inScope, Bool.or_eq_false_iff] at hscope
    intro c hc
    cases k with
    | installing | swapping | creating => cases hscope.2
    | requesting | starting | authenticating | opener | admitted | reserved | driving | anonymous
      | completed | binding
    | replying | failed | erasing => cases hc
  · trivial
  · trivial

/-- Past the barrier, everything that is still in a scope has asked the new snapshot. -/
theorem Admitted.fenced {inside : Bool} (h : Admitted cfg s) (hget : s.threads[i]? = some t)
    (hcall : t.call = .upkeep (.swapped snap inside)) (hfence : ∀ t ∈ s.threads, t.inScope = false) :
    Admitted cfg (s.goto i t (.upkeep (.fenced snap))) := by
  refine h.next hget (.inr fun v hv => Thread.gated_of_outside (h.scopes v hv) (hfence v hv)) rfl rfl
    (List.append_nil _).symm nofun h.sessions ⟨fun snap' hsnap => ?_, rfl, nofun,
      fun _ => trivial, fun _ _ _ _ _ _ => trivial⟩
  rw [hcall]
  exact hsnap

theorem Admitted.published (h : Admitted cfg s) (hget : s.threads[i]? = some t)
    (hcall : t.call = .upkeep (.closing snap [])) : Admitted cfg ((s.note (.published snap)).finish i) := by
  have ht := List.mem_of_getElem? hget
  have hi : i < s.threads.length := (List.getElem?_eq_some_iff.mp hget).1
  have hsome : t.call.snapshot.isSome = true := by
    rw [hcall]
    rfl
  have hsnap : snap = s.admission := h.snaps t ht snap (by rw [hcall]; rfl)
  have hback : ∀ j v, (s.threads.set i { call := .done })[j]? = some v →
      v = { call := .done } ∨ j ≠ i ∧ s.threads[j]? = some v := by
    intro j v hv
    by_cases hj : i = j
    · subst hj
      rw [List.getElem?_set_self hi] at hv
      cases hv
      exact .inl rfl
    · rw [List.getElem?_set_ne hj] at hv
      exact .inr ⟨fun heq => hj heq.symm, hv⟩
  have hothers : ∀ j v, j ≠ i → s.threads[j]? = some v → v.call.snapshot = none := by
    intro j v hj hv
    rw [← Option.not_isSome_iff_eq_none]
    exact fun hpublishes => hj (h.single j i v t hv hget hpublishes hsome)
  have hmem : ∀ v ∈ s.threads.set i { call := .done }, v = { call := .done } ∨ v ∈ s.threads := fun v hv =>
    (List.mem_or_eq_of_mem_set hv).symm
  have hquiet : ∀ v ∈ s.threads, v.call.waits = false := by
    intro v hv
    obtain ⟨j, hj⟩ := List.mem_iff_getElem?.mp hv
    by_cases hij : j = i
    · rw [hij, hget] at hj
      cases hj
      rw [hcall]
      rfl
    · exact waits_of_snapshot (hothers j v hij hj)
  constructor <;> dsimp only [State.finish, State.note]
  · intro j k v w hv hw hvs hws
    rcases hback j v hv with rfl | ⟨hj, hv'⟩
    · cases hvs
    · rw [hothers j v hj hv'] at hvs
      cases hvs
  · intro v hv snap' hsnap'
    rcases hmem v hv with rfl | hv'
    · cases hsnap'
    · exact h.snaps v hv' snap' hsnap'
  · intro v hv
    rcases hmem v hv with rfl | hv'
    · rfl
    · exact h.outside v hv'
  · intro v hv hframe
    rcases hmem v hv with rfl | hv'
    · cases hframe
    · exact h.scopes v hv' hframe
  · intro _ v hv
    rcases hmem v hv with rfl | hv'
    · trivial
    · exact h.gated hquiet v hv'
  · intro hcfg p sid hlookup hdeny
    obtain ⟨v, hv, hcloses⟩ := h.sessions hcfg p sid hlookup hdeny
    obtain ⟨j, hj⟩ := List.mem_iff_getElem?.mp hv
    by_cases hij : j = i
    · rw [hij, hget] at hj
      cases hj
      rw [hcall] at hcloses
      cases hcloses
    · exact absurd hcloses (not_mayClose_of_snapshot (hothers j v hij hj))
  · refine clean_concat h.clean fun snap' hcurrent => ?_
    have hnone := (h.now snap' hcurrent).2 t ht
    rw [hnone] at hsome
    cases hsome
  · intro snap' hcurrent
    rw [current, List.foldl_append] at hcurrent
    cases hcurrent
    refine ⟨hsnap, fun v hv => ?_⟩
    obtain ⟨j, hj⟩ := List.mem_iff_getElem?.mp hv
    rcases hback j v hj with rfl | ⟨hij, hv'⟩
    · rfl
    · exact hothers j v hij hv'
  · rw [generations, List.filterMap_append]
    exact (List.append_nil (generations s.log)).symm ▸ h.increasing
  · rw [generations, List.filterMap_append]
    exact (List.append_nil (generations s.log)).symm ▸ h.bounded

theorem Admitted.upkeepNext {k k' : UpkeepCall} (h : Admitted cfg s) (hget : s.threads[i]? = some t)
    (hcall : t.call = .upkeep k) (hbefore : (Call.upkeep k).snapshot = none)
    (hafter : (Call.upkeep k').snapshot = none)
    (hadmission : u.admission = s.admission) (hthreads : u.threads = s.threads) (hlog : u.log = s.log)
    (hsessions : u.sessions = s.sessions) : Admitted cfg (u.goto i t (.upkeep k')) := by
  rw [← hcall] at hbefore
  refine h.goto hget (waits_of_snapshot hbefore) hadmission hthreads (hlog.trans (List.append_nil _).symm)
    nofun (fun _ _ hlookup => hsessions ▸ hlookup)
    (.plain hbefore hafter ?_ nofun fun _ => trivial)
  cases k' with
  | swapped | fenced | aborting | closing | purging => cases hafter
  | listing | scanning | retiring | disconnecting => rfl

theorem Admitted.publishNext {k k' : UpkeepCall} (h : Admitted cfg s) (hget : s.threads[i]? = some t)
    (hcall : t.call = .upkeep k) (hwaits : (Call.upkeep k).waits = false)
    (hsnapshot : (Call.upkeep k').snapshot = (Call.upkeep k).snapshot)
    (hreentrant : (Call.upkeep k').reentrant = false)
    (hadmission : u.admission = s.admission) (hthreads : u.threads = s.threads) (hlog : u.log = s.log ++ new)
    (hnew : ∀ e ∈ new, e.minor = true)
    (hsessions : ∀ p sid, u.sessions.lookup p = some sid → s.sessions.lookup p = some sid)
    (hcloses : cfg.handshake = true → ∀ p sid, u.sessions.lookup p = some sid → s.admission.lookup p = .deny →
      (Call.upkeep k).mayClose p → (Call.upkeep k').mayClose p) : Admitted cfg (u.goto i t (.upkeep k')) := by
  rw [← hcall] at hwaits hsnapshot hcloses
  refine h.goto hget hwaits hadmission hthreads hlog (fun e he => ?_) hsessions
    ⟨fun snap hsnap => ?_, hreentrant, nofun, fun _ => trivial, hcloses⟩
  · exact ⟨(plain_of_minor (hnew e he)).1, fun snap _ => (plain_of_minor (hnew e he)).2 snap⟩
  · exact hsnapshot ▸ hsnap

theorem Admitted.retiring {revoked : Finset Fingerprint} {supply : Nat} {clients : List SessionId}
    (h : Admitted cfg s)
    (hget : s.threads[i]? = some t) (hcall : t.call = .upkeep (.retiring revoked supply clients)) :
    Admitted cfg ((({ s with sessions := s.eraseClients clients }.resetClients cfg clients).swept
    revoked supply).finish
      i) := by
  obtain ⟨new, hreset, hnew⟩ := resetClients_eq cfg { s with sessions := s.eraseClients clients } clients
  rw [hreset, State.swept, State.noteIf_eq]
  refine h.finish hget (by rw [hcall]; rfl) rfl rfl (List.append_assoc ..) (fun e he => ?_)
    (fun _ _ => lookup_eraseClients) (by rw [hcall]; rfl)
  rcases List.mem_append.mp he with hin | hin
  · obtain ⟨peer, rfl⟩ := hnew e hin
    exact ⟨rfl, fun _ _ => trivial⟩
  · split at hin
    · rw [List.mem_singleton.mp hin]
      exact ⟨rfl, fun _ _ => trivial⟩
    · cases hin

theorem Admitted.stepUpkeep {k : UpkeepCall} (h : Admitted cfg s) (hget : s.threads[i]? = some t)
    (hcall : t.call = .upkeep k) (hstep : s.stepUpkeep cfg i t k = some s') : Admitted cfg s' := by
  have ht := List.mem_of_getElem? hget
  cases k with
  | listing revoked supply =>
    cases hstep
    exact h.upkeepNext hget hcall rfl rfl rfl rfl rfl rfl
  | scanning revoked supply todo clients =>
    cases todo with
    | nil =>
      cases hstep
      exact h.upkeepNext hget hcall rfl rfl rfl rfl rfl rfl
    | cons sid todo =>
      obtain ⟨se, hse, hstep⟩ := Option.bind_eq_some_iff.mp hstep
      split at hstep
      · cases hstep
        exact h.upkeepNext hget hcall rfl rfl rfl rfl rfl rfl
      · cases hstep
        exact h.upkeepNext hget hcall rfl rfl rfl rfl rfl rfl
  | retiring revoked supply clients =>
    cases hstep
    exact h.retiring hget hcall
  | disconnecting peer =>
    cases hstep
    exact h.finish hget (by rw [hcall]; rfl) rfl rfl (List.append_nil _).symm nofun (fun _ _ => id)
      (by rw [hcall]; rfl)
  | swapped snap inside =>
    have houtside : inside = false := by
      have hthread := h.outside t ht
      rw [hcall] at hthread
      exact hthread
    rw [State.stepUpkeep, houtside, Bool.not_false, Bool.true_and] at hstep
    split at hstep
    · cases hstep
    · next hfence =>
      cases hstep
      refine h.fenced hget hcall fun v hv => ?_
      exact Bool.not_eq_true _ ▸ fun hin => hfence (List.any_eq_true.mpr ⟨v, hv, hin⟩)
  | fenced snap =>
    cases hstep
    exact h.publishNext hget hcall rfl rfl rfl rfl rfl (List.append_nil _).symm nofun
      (fun _ _ => id) fun _ _ _ _ _ _ => trivial
  | aborting snap doomed =>
    cases hstep
    refine h.publishNext hget hcall rfl rfl rfl rfl rfl (List.append_nil _).symm nofun
      (fun _ _ => id) fun hcfg p sid hlookup hdeny _ => ?_
    -- the list of sessions is taken under the snapshot that is the current one
    have hsnap : snap = s.admission := h.snaps t ht snap (by rw [hcall]; rfl)
    refine List.mem_append_right _ ?_
    rw [if_pos hcfg, List.mem_filter]
    refine ⟨AList.mem_keys.mpr (AList.lookup_isSome.mp (Option.isSome_of_eq_some hlookup)), ?_⟩
    rw [hsnap]
    exact decide_eq_true hdeny
  | closing snap doomed =>
    cases doomed with
    | nil =>
      cases hstep
      exact h.published hget hcall
    | cons q doomed =>
      rw [State.stepUpkeep] at hstep
      split at hstep
      · cases hstep
        refine h.publishNext hget hcall rfl rfl rfl rfl rfl (List.append_nil _).symm nofun
          (fun _ _ => Table.lookup_of_erase) fun _ p sid hlookup _ hcloses => ?_
        rcases List.mem_cons.mp hcloses with rfl | hin
        · rw [State.eraseSession, AList.lookup_erase] at hlookup
          cases hlookup
        · exact hin
      · next hcfg =>
        cases hstep
        exact h.publishNext hget hcall rfl rfl rfl rfl rfl (List.append_nil _).symm nofun
          (fun _ _ => id) fun hon => absurd hon hcfg
  | purging snap q doomed =>
    cases hstep
    rw [State.noteIf_eq]
    refine h.publishNext hget hcall rfl rfl rfl rfl rfl rfl (fun e he => ?_) (fun _ _ => id) fun _ _ _ _ _ => id
    split at he
    · rw [List.mem_singleton.mp he]
      rfl
    · cases he

theorem publishes_eq (t : Thread) : t.publishes = t.call.snapshot.isSome := by
  rcases t with ⟨_ | _ | k | _, _⟩
  · rfl
  · rfl
  · cases k with
    | listing | scanning | retiring | disconnecting | swapped | fenced | aborting | closing | purging => rfl
  · rfl

theorem Admitted.publishing (h : Admitted cfg s) (hfree : ∀ t ∈ s.threads, t.call.snapshot = none)
    (hnewer : s.admission.generation < snap.generation) :
    Admitted cfg (({ s with admission := snap }.note (.publishing snap)).spawn
    (.upkeep (.swapped snap false)) false) := by
  have hmem : ∀ v ∈ s.threads ++ [{ call := .upkeep (.swapped snap false), scope := false }],
      v = { call := .upkeep (.swapped snap false), scope := false } ∨ v ∈ s.threads := fun v hv =>
    (List.mem_append.mp hv).symm.imp_left List.mem_singleton.mp
  have hback : ∀ (j : Nat) (v : Thread),
      (s.threads ++ [{ call := .upkeep (.swapped snap false), scope := false }])[j]? = some v →
        v.call.snapshot.isSome = true → j = s.threads.length := by
    intro j v hv hsome
    rw [List.getElem?_append] at hv
    split at hv
    · rw [hfree v (List.mem_of_getElem? hv)] at hsome
      cases hsome
    · have hj := (List.getElem?_eq_some_iff.mp hv).1
      rw [List.length_singleton] at hj
      omega
  have hgens : generations (s.log ++ [.publishing snap]) = generations s.log ++ [snap.generation] := by
    rw [generations, List.filterMap_append]
    rfl
  constructor <;> dsimp only [State.spawn, State.note]
  · intro j k v w hv hw hvs hws
    rw [hback j v hv hvs, hback k w hw hws]
  · intro v hv snap' hsnap'
    rcases hmem v hv with rfl | hv'
    · cases hsnap'
      rfl
    · rw [hfree v hv'] at hsnap'
      cases hsnap'
  · intro v hv
    rcases hmem v hv with rfl | hv'
    · rfl
    · exact h.outside v hv'
  · intro v hv hframe
    rcases hmem v hv with rfl | hv'
    · cases hframe
    · exact h.scopes v hv' hframe
  · intro hnone
    cases hnone _ (List.mem_append_right _ List.mem_cons_self)
  · intro _ _ _ _ _
    exact ⟨_, List.mem_append_right _ List.mem_cons_self, trivial⟩
  · exact clean_concat h.clean fun _ _ => trivial
  · intro snap' hcurrent
    rw [current, List.foldl_append] at hcurrent
    cases hcurrent
  · rw [hgens, List.pairwise_append]
    refine ⟨h.increasing, List.pairwise_singleton _ _, fun g hg g' hg' => ?_⟩
    rw [List.mem_singleton.mp hg']
    exact UInt64.lt_of_le_of_lt (h.bounded g hg) hnewer
  · rw [hgens]
    intro g hg
    rcases List.mem_append.mp hg with hold | hnew
    · exact UInt64.le_of_lt (UInt64.lt_of_le_of_lt (h.bounded g hold) hnewer)
    · rw [List.mem_singleton.mp hnew]
      exact UInt64.le_refl _

theorem Admitted.note (h : Admitted cfg s) (he : e.plain = true) (hpermitted : ∀ snap, e.Permitted snap) :
    Admitted cfg (s.note e) := by
  have hnew : ∀ e' ∈ [e], e'.plain = true ∧ ∀ snap, current s.log = some snap → e'.Permitted snap := by
    intro e' he'
    rw [List.mem_singleton.mp he']
    exact ⟨he, fun snap _ => hpermitted snap⟩
  obtain ⟨hcurrent, hgens, hclean⟩ := plain_events h.clean hnew
  exact { h with
    clean := hclean
    now := fun snap hsnap => h.now snap (hcurrent ▸ hsnap)
    increasing := hgens ▸ h.increasing
    bounded := fun g hg => h.bounded g (hgens ▸ hg) }

theorem Admitted.supply {revoked : Option (Finset Fingerprint)} (h : Admitted cfg s) : Admitted cfg
    (s.supply revoked) := by
  have hbase : Admitted cfg { s with revokedSnapshot := revoked, supplies := s.supplies + 1 } := { h with }
  exact hbase.note rfl fun _ => trivial

theorem Admitted.swept {set : Finset Fingerprint} (h : Admitted cfg s) : Admitted cfg (s.note (.swept set)) :=
  h.note rfl fun _ => trivial

theorem gate_bound (hbound : cfg.admissionBound = true) {peer : NodeId} {kind : UInt8}
    (hgate : s.gate cfg peer kind = true) : permits (s.admission.lookup peer) kind = true := by
  rw [State.gate, hbound, Bool.not_true, Bool.false_or] at hgate
  exact hgate

theorem Admitted.begin (h : Admitted cfg s) (hadmission : u.admission = s.admission)
    (hthreads : u.threads = s.threads)
    (hlog : u.log = s.log ++ new) (hnew : ∀ e ∈ new, e.plain = true ∧ ∀ snap, e.Permitted snap)
    (hsessions : ∀ p sid, u.sessions.lookup p = some sid → s.sessions.lookup p = some sid)
    (hsnapshot : call.snapshot = none) (hreentrant : call.reentrant = false) (hframe : call.isFrame = false)
    (hgated : call.Gated s.admission) : Admitted cfg (u.spawn call false) := by
  refine h.spawn hadmission hthreads hlog (fun e he => ⟨(hnew e he).1, fun snap _ => (hnew e he).2 snap⟩) hsessions
    hsnapshot hreentrant (fun hsome => ?_) hgated
  rw [hframe] at hsome
  cases hsome

theorem Admitted.step {l : Label} (h : Admitted cfg s) (hbound : cfg.admissionBound = true) (hout : l.outside = true)
    (hstep : s.step cfg l = some s') : Admitted cfg s' := by
  have hsame : s.log = s.log ++ [] := (List.append_nil _).symm
  have hnone : ∀ e ∈ ([] : List Event), e.plain = true ∧ ∀ snap, e.Permitted snap := nofun
  have hone : ∀ {e : Event}, e.minor = true ∨ e = .supplied → ∀ e' ∈ [e], e'.plain = true ∧
      ∀ snap, e'.Permitted snap := by
    intro e he e' he'
    rw [List.mem_singleton.mp he']
    rcases he with hminor | rfl
    · exact plain_of_minor hminor
    · exact ⟨rfl, fun _ => trivial⟩
  cases l with
  | send to_ f =>
    rw [State.step] at hstep
    split at hstep
    · next hgate =>
      cases hstep
      exact h.spawn rfl rfl hsame nofun (fun _ _ => id) rfl rfl (fun _ => hbound)
        (gate_bound hbound hgate)
    · cases hstep
      exact h
  | receive r now =>
    rw [State.step] at hstep
    split at hstep
    · split at hstep
      · cases hstep
        exact h
      · cases hstep
        exact h.begin rfl rfl hsame hnone (fun _ _ => id) rfl rfl rfl (gated_of_plain rfl)
    · split at hstep
      · next hgate =>
        cases hstep
        exact h.spawn rfl rfl hsame nofun (fun _ _ => id) rfl rfl (fun _ => hbound)
          (gate_bound hbound hgate)
      · cases hstep
        exact h
  | request peer =>
    cases hstep
    exact h.begin rfl rfl hsame hnone (fun _ _ => id) rfl rfl rfl (gated_of_plain rfl)
  | renegotiate peer =>
    rw [State.step] at hstep
    split at hstep
    · cases hstep
      exact h.begin rfl rfl hsame hnone (fun _ _ => id) rfl rfl rfl (gated_of_plain rfl)
    · cases hstep
      exact h
  | inboundReady token =>
    rw [State.step] at hstep
    split at hstep
    · cases hstep
      exact h
    · split at hstep
      · cases hstep
        exact h.note rfl fun _ => trivial
      · cases hstep
        exact h.begin rfl rfl rfl (hone (.inl rfl)) (fun _ _ => id) rfl rfl rfl (gated_of_plain rfl)
  | setRevoked revoked =>
    cases hstep
    exact h.supply
  | sweepRevocations revoked =>
    cases revoked with
    | none =>
      cases hstep
      exact h.supply
    | some set =>
      rw [State.step] at hstep
      split at hstep
      · cases hstep
        exact h.supply.swept
      · cases hstep
        exact h.supply.begin rfl rfl (List.append_nil _).symm hnone (fun _ _ => id) rfl rfl rfl trivial
  | disconnected peer =>
    rw [State.step] at hstep
    split at hstep
    · cases hstep
      exact h.begin rfl rfl hsame hnone (fun _ _ => Table.lookup_of_erase) rfl rfl rfl trivial
    · cases hstep
      exact h.begin rfl rfl hsame hnone (fun _ _ => id) rfl rfl rfl trivial
  | publish snap inside =>
    rw [State.step] at hstep
    split at hstep
    · cases hstep
    · next hfree =>
      rw [Bool.or_eq_true, not_or] at hfree
      split at hstep
      · cases hstep
        exact h
      · next hnewer =>
        cases hstep
        obtain rfl : inside = false := by
          cases inside with
          | true => cases hout
          | false => rfl
        refine h.publishing (fun t ht => ?_) (UInt64.not_le.mp hnewer)
        rw [← Option.not_isSome_iff_eq_none, ← publishes_eq]
        exact fun hpublishes => hfree.2 (List.any_eq_true.mpr ⟨t, ht, hpublishes⟩)
  | go i now a =>
    obtain ⟨t, hget, hgo⟩ := Option.bind_eq_some_iff.mp hstep
    split at hgo
    · next hcall => exact h.stepFrame hget hcall hgo
    · next hcall => exact h.stepHandshake hbound hget hcall hgo
    · next hcall => exact h.stepUpkeep hget hcall hgo
    · cases hgo

theorem current_of_published {before after rest : List Event}
    (hclean : ∀ before e after, log = before ++ e :: after → ∀ snap, current before = some snap → e.Permitted snap)
    (hlog : log = before ++ .published snap :: (after ++ rest)) (hafter : ∀ e ∈ after, e.generation = none) :
    current (before ++ .published snap :: after) = some snap := by
  induction after using List.reverseRecOn generalizing rest with
  | nil =>
    rw [current, List.foldl_append]
    rfl
  | append_singleton after e ih =>
    rw [List.append_assoc] at hlog
    have hcurrent := ih hlog fun e' he' => hafter e' (List.mem_append_left _ he')
    have hpermitted : e.Permitted snap := by
      refine hclean (before ++ .published snap :: after) e rest ?_ snap hcurrent
      rw [hlog, List.append_assoc]
      rfl
    have hgen := hafter e (List.mem_append_right _ List.mem_cons_self)
    rw [← List.cons_append, ← List.append_assoc, current_concat_plain]
    · exact hcurrent
    · cases e with
      | publishing => cases hgen
      | published => cases hpermitted
      | sent | delivered | authenticate | installed | dialed | identified | rejected | reset | closed | supplied
      | swept => rfl

/-- In every run whose publishes all wait at the barrier the generations increase, and from the return of a
publish to the next one no sealed frame is sent to, delivered from or session installed for a peer that its
snapshot denies, only Control frames pass where it says so, and with the handshake no denied peer has a
session. -/
theorem publish_settles (hbound : cfg.admissionBound = true)
    (hrun : Machine.Reach (State.step cfg) (fun _ l => l.outside = true) {} s) :
    (generations s.log).Pairwise (· < ·) ∧
      ∀ (before after : List Event) (snap : AdmissionSnapshot), s.log = before ++ .published snap :: after →
        (∀ e ∈ after, e.generation = none) →
          (∀ e ∈ after, e.Permitted snap) ∧
            (cfg.handshake = true → ∀ p, snap.lookup p = .deny → s.sessions.lookup p = none) := by
  have hinv : Admitted cfg s := hrun.invariant (.start cfg) fun _ _ _ h hout hstep => h.step hbound hout hstep
  refine ⟨hinv.increasing, fun before after snap hlog hafter => ⟨fun e he => ?_, fun hcfg p hdeny => ?_⟩⟩
  · obtain ⟨middle, rest, rfl⟩ := List.append_of_mem he
    have hcurrent := current_of_published hinv.clean hlog fun e' he' => hafter e' (List.mem_append_left _ he')
    refine hinv.clean (before ++ .published snap :: middle) e rest ?_ snap hcurrent
    rw [hlog, List.append_assoc]
    rfl
  · have hcurrent : current s.log = some snap := by
      rw [hlog]
      exact current_of_published hinv.clean (hlog.trans (by rw [List.append_nil])) hafter
    obtain ⟨rfl, hnone⟩ := hinv.now snap hcurrent
    refine Option.eq_none_iff_forall_not_mem.mpr fun sid hlookup => ?_
    obtain ⟨t, ht, hcloses⟩ := hinv.sessions hcfg p sid hlookup hdeny
    exact not_mayClose_of_snapshot (hnone t ht) hcloses

end

section

namespace Sample

def open_ : AdmissionSnapshot := { generation := 1, lookup := fun _ => .admit_ }

def closed : AdmissionSnapshot := { generation := 2, lookup := fun p => if p = 2 then .deny else .admit_ }

def gated (handshake : Bool) : Config := { self_ := 1, handshake, aead := fun _ => clear, admissionBound := true }

/-- A publish with `n` peers to close: thread `i`. -/
def publishes (i : Nat) (snap : AdmissionSnapshot) (inside : Bool) (n : Nat) : List Label :=
  .publish snap inside :: List.replicate (4 + 2 * n) (.go i 0 .failed)

/-- The first data frame of `peer`, as it comes in. -/
def frameOf (peer : NodeId) : MessageFrame :=
  { authenticateFrame peer 1 [1, 0, 0, 0, 0, 0, 0, 0] with kind := FrameKind.data }

end Sample

open Sample

def Event.verdict (peer : NodeId) : Event → Option AdmissionVerdict
  | .published snap => some (snap.lookup peer)
  | _ => none

def Event.receiver : Event → Option NodeId
  | .sent to_ .. => some to_
  | _ => none

/-- What a sample run shows: its `n`-th event is the return of a publish, none began after, these peers were
sent frames, and node 2 has a session. -/
def settledAfter (n : Nat) (s : State) : Option AdmissionVerdict × Bool × List NodeId × Bool :=
  ((s.log[n]?).bind (Event.verdict 2), (s.log.drop (n + 1)).all (·.generation.isNone),
    (s.log.drop (n + 1)).filterMap Event.receiver, (s.sessions.lookup 2).isSome)

theorem settledAfter_spec {s : State} {n : Nat} {verdict : AdmissionVerdict} {receivers : List NodeId} {open_ : Bool}
    (h : settledAfter n s = (some verdict, true, receivers, open_)) :
    ∃ (before after : List Event) (snap : AdmissionSnapshot), s.log = before ++ .published snap :: after ∧
      snap.lookup 2 = verdict ∧ (∀ e ∈ after, e.generation = none) ∧ after.filterMap Event.receiver = receivers ∧
      (s.sessions.lookup 2).isSome = open_ := by
  rw [settledAfter, Prod.mk.injEq, Prod.mk.injEq, Prod.mk.injEq] at h
  obtain ⟨hverdict, hnone, hreceivers, hopen⟩ := h
  obtain ⟨e, he, hverdict⟩ := Option.bind_eq_some_iff.mp hverdict
  obtain ⟨hn, rfl⟩ := List.getElem?_eq_some_iff.mp he
  cases hevent : s.log[n] with
  | published snap =>
    rw [hevent] at hverdict
    refine ⟨s.log.take n, s.log.drop (n + 1), snap, ?_, Option.some.inj hverdict, fun e he => ?_, hreceivers, hopen⟩
    · rw [← hevent, List.getElem_cons_drop, List.take_append_drop]
    · exact Option.isNone_iff_eq_none.mp (List.all_eq_true.mp hnone e he)
  | sent | delivered | authenticate | installed | dialed | identified | rejected | reset | closed | supplied | swept
  | publishing =>
    rw [hevent] at hverdict
    cases hverdict

/-- Node 2 has a session and is then denied; a frame goes to 3. -/
theorem publish_settles_denied : ∃ (s : State) (before after : List Event) (snap : AdmissionSnapshot),
    s.log = before ++ .published snap :: after ∧ snap.lookup 2 = .deny ∧ after.filterMap Event.receiver = [3] ∧
    (generations s.log).Pairwise (· < ·) ∧ (∀ e ∈ after, e.Permitted snap) ∧ s.sessions.lookup 2 = none := by
  obtain ⟨s, hrun, hfacts⟩ := Option.map_eq_some_iff.mp (show (Machine.run
    (Machine.guarded (State.step (gated true)) fun _ l => l.outside = true) {}
      (publishes 0 open_ false 0 ++ (opening 1 (.request 2) 4 ++ (answered 2 2 (certificate 2) ++
        (publishes 3 closed false 1 ++
        (opening 4 (.request 3) 4 ++ (answered 5 3 (certificate 3) ++ sends 6 3))))))).map
          (settledAfter 5) = some (some .deny, true, [3], false) by decide +kernel)
  obtain ⟨before, after, snap, hlog, hdeny, hnone, hreceivers, -⟩ := settledAfter_spec hfacts
  obtain ⟨hincreasing, hsettled⟩ := publish_settles rfl (Machine.reach_of_run hrun)
  obtain ⟨hpermitted, hclosed⟩ := hsettled before after snap hlog hnone
  exact ⟨s, before, after, snap, hlog, hdeny, hreceivers, hincreasing, hpermitted, hclosed rfl 2 hdeny⟩

/-- Node 2 is denied by a publish from inside the delivery of its frame. A send that has asked the snapshot
before passes its frame after, and without the handshake the session stays. -/
theorem publish_inside_overtaken : ∃ (s : State) (before after : List Event) (snap : AdmissionSnapshot),
    Machine.Reachable (State.step (gated false)) {} s ∧ s.log = before ++ .published snap :: after ∧
    snap.lookup 2 = .deny ∧ (∀ e ∈ after, e.generation = none) ∧ after.filterMap Event.receiver = [2] ∧
    (s.sessions.lookup 2).isSome = true := by
  obtain ⟨s, hrun, hfacts⟩ := Option.map_eq_some_iff.mp (show (Machine.run (State.step (gated false)) {}
    (publishes 0 open_ false 0 ++ (.send 2 { authenticateFrame 1 2 [] with kind := FrameKind.data } ::
      .receive { frame := frameOf 2 } 0 :: .go 2 0 .failed :: .go 2 0 .failed :: publishes 3 closed true 0 ++
        List.replicate 3 (.go 1 0 .failed)))).map (settledAfter 3) =
        some (some .deny, true, [2], true) by decide +kernel)
  obtain ⟨before, after, snap, hlog, hdeny, hnone, hreceivers, hopen⟩ := settledAfter_spec hfacts
  exact ⟨s, before, after, snap, Machine.reachable_of_run hrun, hlog, hdeny, hnone, hreceivers, hopen⟩

end

end Quark.Secure
