import Quark.SwimSubscribers
import Quark.SwimTasks

/-! Events and placement view of a `SwimMembership` over whole runs, with calls from inside sinks, hooks and sends:
what was delivered, followed by what is queued, always gives the placement view, and nothing is queued when an
outermost call returns. -/
namespace Quark.Swim

open Machine List SwimMembership

namespace Task

def delivers : Task → Bool
  | deliver _ _ => true
  | _ => false

def drains : Task → Bool
  | flush => true
  | drainRefusals => true
  | deliver _ _ => true
  | _ => false

def raises : Task → Bool
  | enter _ => false
  | returned _ => false
  | outside => false
  | send _ _ => false
  | fallAsleep => false
  | flush => false
  | drainRefusals => false
  | deliver _ _ => false
  | _ => true

def evicts : Task → Bool
  | evict => true
  | evictOne _ => true
  | _ => false

end Task

def given : List Task → Nat
  | [] => 0
  | .deliver i j :: _ => if j = 0 then i else i + 1
  | _ :: rest => given rest

def Node.queued (n : Node) : List Event := n.swim.pending.drop (given n.todo)

/-- Every task that may raise events has the end of its call before it. -/
def Guarded : List Task → Prop
  | [] => True
  | t :: rest => (t.raises = true → rest.any Task.drains = true) ∧ Guarded rest

/-- What a task that raises nothing does: nothing that follows it raises unheard events. -/
structure Outcome.Tidy (s : SwimMembership) (o : Outcome) : Prop where
  guarded : Guarded o.todo
  raised : o.swim.pending = s.pending ∨ o.todo.any Task.drains = true

section

variable {cfg : Config} {env : Env} {s s' : SwimMembership} {o : Outcome} {t : Task} {ts rest : List Task}
variable {msg : ControlMsg} {now : Int} {node : NodeId}

attribute [local simp] Guarded Task.raises Task.drains

theorem Guarded.of_drains (hdrains : rest.any Task.drains = true) (h : Guarded rest) : Guarded (ts ++ rest) := by
  induction ts with
  | nil => exact h
  | cons t ts ih =>
    refine ⟨fun _ => ?_, ih⟩
    change (ts ++ rest).any Task.drains = true
    rw [any_append, hdrains, Bool.or_true]

theorem Guarded.append (h : Guarded ts) (hrest : Guarded rest) : Guarded (ts ++ rest) := by
  induction ts with
  | nil => exact hrest
  | cons t ts ih =>
    refine ⟨fun hraises => ?_, ih h.2⟩
    change (ts ++ rest).any Task.drains = true
    rw [any_append, h.1 hraises, Bool.true_or]

theorem guarded_of_forall (h : ∀ t ∈ ts, t.raises = false) : Guarded ts := by
  induction ts with
  | nil => trivial
  | cons t ts ih =>
    refine ⟨fun hraises => ?_, ih fun u hu => h u (mem_cons_of_mem _ hu)⟩
    rw [h t mem_cons_self] at hraises
    cases hraises

theorem tidy_ite {p : Prop} [Decidable p] {o' : Outcome} (h : o.Tidy s) (h' : o'.Tidy s) :
    (if p then o else o').Tidy s := by
  split
  · exact h
  · exact h'

theorem tidy_enterFrame {f : MessageFrame} : (s.enterFrame cfg env f).Tidy s := by
  have hquiet : Quiet s (s.admitControl cfg f.from_ env.now).2 := quiet_admitControl
  unfold enterFrame
  repeat' apply tidy_ite
  · exact ⟨trivial, .inl rfl⟩
  · exact ⟨by simp, .inl rfl⟩
  · exact ⟨trivial, .inl rfl⟩
  · exact ⟨trivial, .inl rfl⟩
  · refine ⟨?_, .inl rfl⟩
    dsimp only
    split <;> simp
  · split
    next ok s' heq =>
      rw [heq] at hquiet
      split
      · exact ⟨trivial, .inl hquiet.pending⟩
      · exact ⟨by simp, .inl hquiet.pending⟩

theorem tidy_enter {c : Call} : (s.enter cfg env c).Tidy s := by
  cases c with
  | tick =>
    refine tidy_ite ⟨trivial, .inl rfl⟩ (tidy_ite ⟨?_, .inl rfl⟩ ⟨?_, .inl rfl⟩)
    · dsimp only
      split <;> simp
    · simp [period]
  | frame f => exact tidy_enterFrame
  | leave who =>
    exact tidy_ite ⟨by simp, .inr rfl⟩ ⟨by simp, .inl rfl⟩
  | admit_ joiner presented =>
    exact tidy_ite ⟨trivial, .inl rfl⟩ ⟨by simp, .inl rfl⟩
  | applyAdmission => exact ⟨by simp [enter], .inl rfl⟩
  | resume =>
    refine tidy_ite ⟨trivial, .inl rfl⟩ ⟨?_, .inl rfl⟩
    dsimp only
    split <;> simp
  | suspend why lease =>
    refine tidy_ite ⟨trivial, .inl rfl⟩ ⟨guarded_of_forall fun t ht => ?_, .inl rfl⟩
    rcases mem_append.mp ht with ht | ht
    · obtain ⟨peer, -, rfl⟩ := mem_map.mp ht
      rfl
    · rw [mem_singleton.mp ht]
      rfl
  | networkChanged => exact tidy_ite ⟨trivial, .inl rfl⟩ ⟨trivial, .inl quiet_forgive.pending⟩
  | requestJoin seed => exact ⟨by simp [enter], .inl rfl⟩
  | setOnline on => exact ⟨trivial, .inl rfl⟩
  | setAdmission snap => exact ⟨trivial, .inl rfl⟩
  | addEventSink => exact ⟨trivial, .inl rfl⟩

theorem tidy_flush : s.flush.Tidy s := by
  refine tidy_ite ⟨trivial, .inl rfl⟩ ⟨?_, .inl rfl⟩
  dsimp only
  split <;> simp

theorem tidy_send {m : ControlMsg} : (s.send cfg env node m).Tidy s :=
  tidy_ite ⟨trivial, .inl rfl⟩ ⟨by simp, .inl quiet_fillDigest.pending⟩

theorem tidy_exec (hplain : t.plain = true) (hraises : t.raises = false) : (s.exec cfg env t).Tidy s := by
  cases t with
  | enter c => exact tidy_enter
  | returned c => exact ⟨trivial, .inl rfl⟩
  | outside => exact ⟨trivial, .inl rfl⟩
  | flush => exact tidy_flush
  | send node m => exact tidy_send
  | fallAsleep => exact ⟨trivial, .inl rfl⟩
  | drainRefusals => cases hplain
  | deliver i j => cases hplain
  | _ => cases hraises

theorem exec_evicts (hevicts : t.evicts = true) : ∀ u ∈ (s.exec cfg env t).todo, u.evicts = true := by
  cases t with
  | evict =>
    intro u hu
    obtain ⟨id, -, rfl⟩ := mem_map.mp hu
    rfl
  | evictOne node =>
    intro u hu
    cases hu
  | _ => cases hevicts

theorem plain_not_delivers (h : t.plain = true) : t.delivers = false := by
  cases t with
  | deliver i j => cases h
  | _ => rfl

theorem given_cons (h : t.delivers = false) : given (t :: rest) = given rest := by
  cases t with
  | deliver i j => cases h
  | _ => rfl

theorem given_append (h : ∀ t ∈ ts, t.delivers = false) : given (ts ++ rest) = given rest := by
  induction ts with
  | nil => rfl
  | cons t ts ih => exact (given_cons (h t mem_cons_self)).trans (ih fun u hu => h u (mem_cons_of_mem _ hu))

theorem given_of_none (h : ts.countP Task.delivers = 0) : given ts = 0 := by
  induction ts with
  | nil => rfl
  | cons t ts ih =>
    rw [countP_cons] at h
    cases t with
    | deliver i j => simp [Task.delivers] at h
    | _ => exact ih (Nat.eq_zero_of_add_eq_zero_right h)

theorem count_cons (h : t.delivers = false) : (t :: rest).countP Task.delivers = rest.countP Task.delivers := by
  rw [countP_cons, h]
  rfl

theorem count_append (h : ∀ t ∈ ts, t.delivers = false) :
    (ts ++ rest).countP Task.delivers = rest.countP Task.delivers := by
  rw [countP_append, countP_eq_zero.mpr fun t ht => by rw [h t ht]; decide, Nat.zero_add]

end

/-- Between the end of a call and the delivery loop there are only evictions. -/
def Draining (ts : List Task) : Prop :=
  ∃ evictions rest, ts = evictions ++ .drainRefusals :: rest ∧ (∀ t ∈ evictions, t.evicts = true) ∧
    .drainRefusals ∉ rest

/-- A node between two tasks. -/
structure Orderly (self_ : NodeId) (n : Node) : Prop where
  self_ : n.swim.self_ = self_
  inStep : InStep (n.delivered ++ n.queued) n.swim
  guarded : Guarded n.todo
  drains : n.swim.pending = [] ∨ n.todo.any Task.drains = true
  loop : n.todo.countP Task.delivers = if n.swim.flushing then 1 else 0
  bound : given n.todo ≤ n.swim.pending.length
  draining : .drainRefusals ∈ n.todo → n.swim.flushing = false ∧ Draining n.todo

section

variable {cfg : Config} {env : Env} {n n' : Node} {self_ : NodeId} {t : Task} {ts rest : List Task} {l : Label}

theorem Draining.uncons (h : Draining (t :: rest)) (ht : t ≠ .drainRefusals) : t.evicts = true ∧ Draining rest := by
  obtain ⟨evictions, rest', heq, hevicts, hlast⟩ := h
  cases evictions with
  | nil =>
    cases heq
    exact absurd rfl ht
  | cons u evictions =>
    cases heq
    exact ⟨hevicts _ mem_cons_self, evictions, rest', rfl, fun v hv => hevicts v (mem_cons_of_mem _ hv), hlast⟩

theorem Draining.append (h : Draining rest) (hts : ∀ t ∈ ts, t.evicts = true) : Draining (ts ++ rest) := by
  obtain ⟨evictions, rest', rfl, hevicts, hlast⟩ := h
  refine ⟨ts ++ evictions, rest', (append_assoc _ _ _).symm, fun t ht => ?_, hlast⟩
  rcases mem_append.mp ht with ht | ht
  · exact hts t ht
  · exact hevicts t ht

theorem plain_not_mem (h : ∀ t ∈ ts, t.plain = true) : .drainRefusals ∉ ts := by
  intro hin
  have hplain := h _ hin
  cases hplain

namespace Orderly

theorem ran {o : Outcome} (h : Orderly self_ n) (htodo : n.todo = t :: rest) (hhead : t.delivers = false)
    (hkeeps : Keeps n.swim o.swim) (htold : o.told = []) (hloop : ∀ u ∈ o.todo, u.delivers = false)
    (hguarded : Guarded (o.todo ++ rest)) (hdrains : o.swim.pending = [] ∨ (o.todo ++ rest).any Task.drains = true)
    (hdraining : .drainRefusals ∈ o.todo ++ rest → o.swim.flushing = false ∧ Draining (o.todo ++ rest)) :
    Orderly self_ (n.ran o rest) := by
  obtain ⟨hself, hflushing, hkeeps⟩ := hkeeps
  obtain ⟨es, hpending, hin⟩ := hkeeps _ h.inStep
  have hbound := h.bound
  have hcount := h.loop
  rw [Node.queued, htodo, given_cons hhead] at hin
  rw [htodo, given_cons hhead] at hbound
  rw [htodo, count_cons hhead] at hcount
  refine ⟨hself.trans h.self_, ?_, hguarded, hdrains, ?_, ?_, hdraining⟩
  · change InStep ((n.delivered ++ o.told) ++ o.swim.pending.drop (given (o.todo ++ rest))) o.swim
    rw [htold, append_nil, given_append hloop, hpending, drop_append_of_le_length hbound, ← append_assoc]
    exact hin
  · change (o.todo ++ rest).countP Task.delivers = if o.swim.flushing then 1 else 0
    rw [count_append hloop, hflushing, hcount]
  · change given (o.todo ++ rest) ≤ o.swim.pending.length
    rw [given_append hloop, hpending, length_append]
    exact hbound.trans (Nat.le_add_right _ _)

theorem ran_plain (h : Orderly self_ n) (htodo : n.todo = t :: rest) (hplain : t.plain = true) (hflush : t ≠ .flush) :
    Orderly self_ (n.ran (n.swim.exec cfg env t) rest) := by
  have hsound : (n.swim.exec cfg env t).Sound (.everyone cfg self_) n.swim :=
    sound_exec h.self_ (fine_everyone hplain) hflush (fun _ _ _ _ => trivial) fun _ _ => trivial
  have hguarded := h.guarded
  have hdrains := h.drains
  rw [htodo] at hguarded hdrains
  have hbefore : t.drains = false := by
    cases t with
    | flush => exact absurd rfl hflush
    | drainRefusals => cases hplain
    | deliver i j => cases hplain
    | _ => rfl
  rw [any_cons, hbefore, Bool.false_or] at hdrains
  refine h.ran htodo (plain_not_delivers hplain) hsound.moves.keeps hsound.told
    (fun u hu => plain_not_delivers (hsound.fine u hu).plain) ?_ ?_ fun hin => ?_
  · by_cases hraises : t.raises = true
    · exact .of_drains (hguarded.1 hraises) hguarded.2
    · exact (tidy_exec hplain (Bool.eq_false_iff.mpr hraises)).guarded.append hguarded.2
  · rw [any_append, Bool.or_eq_true]
    by_cases hraises : t.raises = true
    · exact .inr (.inr (hguarded.1 hraises))
    · obtain hsame | hlater := (tidy_exec hplain (Bool.eq_false_iff.mpr hraises)).raised
      · rw [hsame]
        exact hdrains.imp (fun hnil => hnil) .inr
      · exact .inr (.inl hlater)
  · have hrest : .drainRefusals ∈ rest :=
      (mem_append.mp hin).resolve_left (plain_not_mem fun u hu => (hsound.fine u hu).plain)
    have hdraining := h.draining (by rw [htodo]; exact mem_cons_of_mem _ hrest)
    rw [htodo] at hdraining
    obtain ⟨hevicts, hlater⟩ := hdraining.2.uncons (by rintro rfl; cases hplain)
    exact ⟨hsound.moves.keeps.2.1.trans hdraining.1, hlater.append (exec_evicts hevicts)⟩

theorem not_draining (h : Orderly self_ n) (htodo : n.todo = t :: rest) (ht : t ≠ .drainRefusals)
    (hevicts : t.evicts = false) : .drainRefusals ∉ rest := by
  intro hin
  have hdraining := h.draining (by rw [htodo]; exact mem_cons_of_mem _ hin)
  rw [htodo] at hdraining
  rw [(hdraining.2.uncons ht).1] at hevicts
  cases hevicts

theorem ran_flush (h : Orderly self_ n) (htodo : n.todo = .flush :: rest) :
    Orderly self_ (n.ran n.swim.flush rest) := by
  have hrest : .drainRefusals ∉ rest := h.not_draining htodo (by simp) rfl
  have hguarded := h.guarded
  rw [htodo] at hguarded
  by_cases hflushing : n.swim.flushing = true
  · have hloop := h.loop
    rw [htodo, hflushing, count_cons rfl] at hloop
    have hdrains : rest.any Task.drains = true := by
      obtain ⟨t, ht, hdelivers⟩ := countP_pos_iff.mp (show 0 < rest.countP Task.delivers by rw [hloop]; decide)
      refine any_eq_true.mpr ⟨t, ht, ?_⟩
      cases t with
      | deliver i j => rfl
      | _ => cases hdelivers
    rw [show n.swim.flush = { swim := n.swim } from if_pos hflushing]
    exact h.ran htodo rfl (.refl _) rfl (by simp) hguarded.2 (.inr hdrains) fun hin => absurd hin hrest
  · have heq : n.swim.flush = { swim := { n.swim with admissionDirty := false }
                                todo := (if n.swim.admissionDirty then [.evict] else []) ++ [.drainRefusals] } :=
      if_neg hflushing
    have hevicts : ∀ t ∈ (if n.swim.admissionDirty then [Task.evict] else []), t.evicts = true := by
      split <;> simp [Task.evicts]
    rw [heq]
    refine h.ran htodo rfl (.quiet ⟨rfl, rfl, rfl, rfl, rfl, fun _ _ => rfl, fun hd => hd⟩) rfl ?_ ?_ (.inr ?_)
      fun _ => ⟨Bool.eq_false_iff.mpr hflushing, ?_⟩
    · split <;> simp [Task.delivers]
    · refine Guarded.append ?_ hguarded.2
      split <;> simp [Guarded, Task.raises, Task.drains]
    · rw [any_append, any_append]
      simp [Task.drains]
    · rw [append_assoc]
      exact ⟨_, rest, rfl, hevicts, hrest⟩

theorem ran_drainRefusals (h : Orderly self_ n) (htodo : n.todo = .drainRefusals :: rest) :
    Orderly self_ (n.ran (n.swim.drainRefusals cfg) rest) := by
  obtain ⟨hflushing, evictions, rest', heq, hevicts, hrest⟩ := h.draining (by rw [htodo]; exact mem_cons_self)
  rw [htodo] at heq
  have hnone : .drainRefusals ∉ rest := by
    cases evictions with
    | nil =>
      cases heq
      exact hrest
    | cons t evictions =>
      cases heq
      cases hevicts _ mem_cons_self
  have hguarded := h.guarded
  have hcount := h.loop
  rw [htodo] at hguarded
  rw [htodo, hflushing, count_cons rfl] at hcount
  have hrefused : Keeps n.swim (n.swim.extRefusals.foldl
      (fun s r => s.refuse cfg r.node r.version r.reason false) { n.swim with extRefusals := [] }) := by
    refine Keeps.trans ?_ (@Still.keeps cfg _ _ still_refuseAll)
    exact .quiet ⟨rfl, rfl, rfl, rfl, rfl, fun _ _ => rfl, fun hd => hd⟩
  unfold drainRefusals
  dsimp only
  generalize n.swim.extRefusals.foldl (fun s r => s.refuse cfg r.node r.version r.reason false)
    { n.swim with extRefusals := [] } = s at hrefused ⊢
  split
  · next hempty =>
    exact h.ran htodo rfl hrefused rfl (by simp) hguarded.2 (.inl hempty) fun hin => absurd hin hnone
  · obtain ⟨hself, -, hkeeps⟩ := hrefused
    obtain ⟨es, hpending, hin⟩ := hkeeps _ h.inStep
    rw [Node.queued, htodo, given_cons rfl, given_of_none hcount, drop_zero, append_assoc, ← hpending] at hin
    refine ⟨hself.trans h.self_, ?_, ⟨by simp [Task.raises], hguarded.2⟩, .inr rfl, ?_, Nat.zero_le _,
      fun hin' => ?_⟩
    · change InStep ((n.delivered ++ []) ++ s.pending.drop 0) { s with flushing := true }
      rw [append_nil, drop_zero]
      exact Follows.same hin rfl hin.sinks rfl rfl
    · change (Task.deliver 0 0 :: rest).countP Task.delivers = 1
      rw [countP_cons_of_pos rfl, hcount]
      rfl
    · obtain heq' | hin' := mem_cons.mp hin'
      · cases heq'
      · exact absurd hin' hnone

theorem ran_deliver {i j : Nat} (h : Orderly self_ n) (htodo : n.todo = .deliver i j :: rest) :
    Orderly self_ (n.ran (n.swim.deliver i j) rest) := by
  have hnone : .drainRefusals ∉ rest := h.not_draining htodo (by simp) rfl
  have hguarded := h.guarded
  have hcount := h.loop
  have hbound := h.bound
  have hin := h.inStep
  rw [htodo] at hguarded
  rw [htodo, countP_cons_of_pos rfl] at hcount
  have hflushing : n.swim.flushing = true := by
    by_contra hidle
    rw [if_neg hidle] at hcount
    cases hcount
  rw [hflushing, if_pos rfl] at hcount
  have hlast : rest.countP Task.delivers = 0 := Nat.succ_inj.mp hcount
  rw [htodo] at hbound
  rw [Node.queued, htodo] at hin
  change (if j = 0 then i else i + 1) ≤ _ at hbound
  change InStep (n.delivered ++ n.swim.pending.drop (if j = 0 then i else i + 1)) _ at hin
  unfold deliver
  split
  · next hend =>
    -- the queue ends where the loop stands
    have hlength := getElem?_eq_none_iff.mp hend
    rw [drop_eq_nil_of_le (by split <;> omega), append_nil] at hin
    refine ⟨h.self_, ?_, hguarded.2, .inl rfl, hlast, ?_, fun hin' => absurd hin' hnone⟩
    · change InStep ((n.delivered ++ []) ++ List.drop (given rest) [])
        { n.swim with pending := [], flushing := false }
      rw [drop_nil, append_nil, append_nil]
      exact Follows.same hin rfl hin.sinks rfl rfl
    · exact (given_of_none hlast).le
  · next e he =>
    obtain ⟨hlength, hget⟩ := List.getElem?_eq_some_iff.mp he
    have hdrop : n.swim.pending.drop i = e :: n.swim.pending.drop (i + 1) := by
      rw [List.drop_eq_getElem_cons hlength, hget]
    split
    · refine ⟨h.self_, ?_, ⟨by simp [Task.raises], by simp [Task.raises], hguarded.2⟩, .inr rfl, ?_, hlength,
        fun hin' => absurd hin' (by simpa [Node.ran] using hnone)⟩
      · change InStep ((n.delivered ++ if j = 0 then [e] else []) ++ n.swim.pending.drop (i + 1)) n.swim
        by_cases hj : j = 0
        · rw [if_pos hj, hdrop] at hin
          rw [if_pos hj, append_assoc]
          exact hin
        · rw [if_neg hj] at hin
          rw [if_neg hj, append_nil]
          exact hin
      · change (Task.outside :: Task.deliver i (j + 1) :: rest).countP Task.delivers =
          if n.swim.flushing then 1 else 0
        rw [count_cons rfl, countP_cons_of_pos rfl, hlast, hflushing]
        rfl
    · next hsinks =>
      have hj : j ≠ 0 := fun hzero => hin.sinks (by omega)
      rw [if_neg hj] at hin
      refine ⟨h.self_, ?_, ⟨by simp [Task.raises], hguarded.2⟩, .inr rfl, ?_, hlength,
        fun hin' => absurd hin' (by simpa [Node.ran] using hnone)⟩
      · change InStep ((n.delivered ++ []) ++ n.swim.pending.drop (i + 1)) n.swim
        rw [append_nil]
        exact hin
      · change (Task.deliver (i + 1) 0 :: rest).countP Task.delivers = if n.swim.flushing then 1 else 0
        rw [countP_cons_of_pos rfl, hlast, hflushing]
        rfl

theorem ran_exec (h : Orderly self_ n) (htodo : n.todo = t :: rest) :
    Orderly self_ (n.ran (n.swim.exec cfg env t) rest) := by
  by_cases hplain : t.plain = true
  · by_cases hflush : t = .flush
    · rw [hflush] at htodo ⊢
      exact h.ran_flush htodo
    · exact h.ran_plain htodo hplain hflush
  · cases t with
    | drainRefusals => exact h.ran_drainRefusals htodo
    | deliver i j => exact h.ran_deliver htodo
    | _ => exact absurd rfl hplain

theorem beside {s : SwimMembership} (h : Orderly self_ n) (hquiet : Quiet n.swim s) :
    Orderly self_ { n with swim := s } := by
  refine ⟨hquiet.self_.trans h.self_, ?_, h.guarded, ?_, ?_, ?_, fun hin => ?_⟩
  · change InStep (n.delivered ++ s.pending.drop (given n.todo)) s
    rw [hquiet.pending]
    exact Follows.quiet h.inStep hquiet
  · change s.pending = [] ∨ n.todo.any Task.drains = true
    rw [hquiet.pending]
    exact h.drains
  · change n.todo.countP Task.delivers = if s.flushing then 1 else 0
    rw [hquiet.flushing]
    exact h.loop
  · change given n.todo ≤ s.pending.length
    rw [hquiet.pending]
    exact h.bound
  · obtain ⟨hflushing, hdraining⟩ := h.draining hin
    exact ⟨hquiet.flushing.trans hflushing, hdraining⟩

theorem called {c : Call} (h : Orderly self_ n) (hcallable : Node.callable n.todo = true) : Orderly self_
    (n.called c) := by
  have hnone : .drainRefusals ∉ n.todo := by
    intro hin
    obtain ⟨-, evictions, rest, heq, hevicts, -⟩ := h.draining hin
    rw [heq] at hcallable
    cases evictions with
    | nil => cases hcallable
    | cons t evictions =>
      have ht := hevicts t mem_cons_self
      cases t with
      | outside => cases ht
      | _ => cases hcallable
  refine ⟨h.self_, h.inStep, ⟨by simp [Task.raises], by simp [Task.raises], h.guarded⟩, ?_, ?_,
    h.bound, fun hin => ?_⟩
  · exact h.drains
  · exact (count_cons rfl).trans ((count_cons rfl).trans h.loop)
  · exact absurd hin (by simpa [Node.called] using hnone)

theorem step (h : Orderly self_ n) (hstep : n.step cfg l = some n') : Orderly self_ n' := by
  obtain ⟨c, -, hcallable, rfl⟩ | ⟨env, t, rest, htodo, rfl⟩ | ⟨s, hquiet, rfl⟩ := Node.step_cases hstep
  · exact h.called hcallable
  · exact h.ran_exec htodo
  · exact h.beside hquiet

theorem start {drawn : UInt64} {sinks : Nat} (hsinks : sinks ≠ 0) : Orderly self_
    (Node.start cfg self_ drawn sinks) := by
  have hlookup : ∀ id, id ≠ self_ → (Node.start cfg self_ drawn sinks).swim.members.lookup id = none :=
    fun id hid => (AList.lookup_insert_ne hid).trans (AList.lookup_empty id)
  have hself : (Node.start cfg self_ drawn sinks).swim.members.lookup self_ =
      some { incarnation := 1, verified := true, reported := 1, wireVersion := cfg.wireVersion } :=
      AList.lookup_insert _
  refine ⟨rfl, ?_, trivial, .inl rfl, rfl, Nat.zero_le _, by simp [Node.start]⟩
  refine ⟨hsinks, fun hdoubted => ?_, fun e he => absurd he not_mem_nil, .nil,
    fun id hid => mem_republish hid, fun id hid => ?_, fun id hid htold => ?_, fun id hid _ => ?_⟩
  · rw [doubted] at hdoubted
    change (((Node.start cfg self_ drawn sinks).swim.members.lookup self_).any _) = true at hdoubted
    rw [hself] at hdoubted
    cases hdoubted
  · rw [tells, hlookup id hid]
    exact ⟨fun hin => absurd hin (Finset.notMem_empty id), fun hshows => by cases hshows⟩
  · rw [tells, hlookup id hid] at htold
    cases htold
  · rw [tells, shows, hlookup id hid]
    rfl

theorem reachable {drawn : UInt64} {sinks : Nat} (hsinks : sinks ≠ 0)
    (h : Reachable (Node.step cfg) (Node.start cfg self_ drawn sinks) n) : Orderly self_ n :=
  Reachable.invariant h (start hsinks) fun _ _ _ hinv hstep => hinv.step hstep

theorem roster_raised (h : Orderly self_ n) :
    roster (n.delivered ++ n.queued) = n.swim.placementView.toFinset.erase self_ := by
  have hin := h.inStep
  ext id
  rw [Finset.mem_erase, List.mem_toFinset]
  by_cases hid : id = self_
  · refine ⟨fun hself => absurd hself (not_mem_roster ?_), fun hview => absurd hid hview.1⟩
    rw [hid, ← h.self_]
    exact hin.others
  · have hother : id ≠ n.swim.self_ := by rwa [h.self_]
    rw [hin.told id hother, hin.settled id hother not_false, ← hin.view id hother]
    exact ⟨fun hview => ⟨hid, hview⟩, fun hview => hview.2⟩

theorem queued_nil (h : Orderly self_ n) (hdone : n.todo.any Task.drains = false) : n.queued = [] := by
  have hempty : n.swim.pending = [] := h.drains.resolve_right (by rw [hdone]; decide)
  rw [Node.queued, hempty, drop_nil]

end Orderly

/-- Whatever calls, frames and callbacks a node has seen, the delivered events give the nodes of the placement view
when an outermost call returns; within a call, the queued events make up the difference. -/
theorem delivered_events_follow_placementView (cfg : Config) (self_ : NodeId) (drawn : UInt64) (sinks : Nat)
    (hsinks : sinks ≠ 0) (n : Node)
    (h : Reachable (Node.step cfg.sanitize) (Node.start cfg.sanitize self_ drawn sinks) n) :
    FreshJoins n.delivered ∧ roster (n.delivered ++ n.queued) = n.swim.placementView.toFinset.erase self_ ∧
      (∀ c, n.todo = [.returned c] → roster n.delivered = n.swim.placementView.toFinset.erase self_) := by
  have horderly := Orderly.reachable hsinks h
  refine ⟨horderly.inStep.fresh.of_append, horderly.roster_raised, fun c hreturned => ?_⟩
  rw [← horderly.roster_raised, horderly.queued_nil (by rw [hreturned]; rfl), append_nil]

/-- A `leave` or an `admit` is about to return. -/
def Task.returns : Task → Option (EventKind × NodeId)
  | returned (.leave who) => some (.left, who)
  | returned (.admit_ joiner _) => some (.joined, joiner)
  | _ => none

/-- Node 1, with one sink, is asked to admit node 2. -/
def admitting : List Label := .call (.admit_ 2 0) :: List.replicate 5 (.run {})

theorem delivered_events_follow_placementView_admit : ∃ n,
    Machine.run (Node.step (Config.sanitize {})) (Node.start (Config.sanitize {}) 1 0 1)
      (admitting ++ List.replicate 3 (.run {})) = some n ∧
    roster n.delivered = {2} ∧ roster n.delivered = n.swim.placementView.toFinset.erase 1 := by
  obtain ⟨n, hn, hfacts⟩ := Option.map_eq_some_iff.mp (show (Machine.run (Node.step (Config.sanitize {}))
    (Node.start (Config.sanitize {}) 1 0 1) (admitting ++ List.replicate 3 (.run {}))).map (fun n =>
      (n.todo.map Task.returns, roster n.delivered)) = some ([some (.joined, 2)], {2}) by decide +kernel)
  obtain ⟨htodo, hroster⟩ := Prod.mk.inj hfacts
  obtain ⟨c, hreturned⟩ : ∃ c, n.todo = [.returned c] := by
    obtain ⟨t, ht, hreturns⟩ := map_eq_singleton_iff.mp htodo
    cases t with
    | returned c => exact ⟨c, ht⟩
    | _ => cases hreturns
  exact ⟨n, hn, hroster,
    (delivered_events_follow_placementView {} 1 0 1 (by decide) n (reachable_of_run hn)).2.2 c hreturned⟩

/-- The sink lets node 2 leave as soon as it hears of it: that call returns before the sink hears `Left`. -/
theorem nested_leave_returns_early : ∃ n,
    Reachable (Node.step (Config.sanitize {})) (Node.start (Config.sanitize {}) 1 0 1) n ∧
    (∃ rest, n.todo = .returned (.leave 2) :: rest) ∧
    roster n.delivered ≠ n.swim.placementView.toFinset.erase 1 := by
  obtain ⟨n, hn, hfacts⟩ := Option.map_eq_some_iff.mp (show (Machine.run (Node.step (Config.sanitize {}))
    (Node.start (Config.sanitize {}) 1 0 1) (admitting ++ .call (.leave 2) ::
    List.replicate 3 (.run {}))).map (fun n =>
      (n.todo.head?.bind Task.returns, decide (roster n.delivered = n.swim.placementView.toFinset.erase 1))) =
        some (some (.left, 2), false) by decide +kernel)
  obtain ⟨htodo, hroster⟩ := Prod.mk.inj hfacts
  refine ⟨n, reachable_of_run hn, ?_, of_decide_eq_false hroster⟩
  obtain ⟨t, ht, hreturns⟩ := Option.bind_eq_some_iff.mp htodo
  obtain ⟨rest, hrest⟩ := head?_eq_some_iff.mp ht
  cases t with
  | returned c =>
    cases c with
    | leave who =>
      cases hreturns
      exact ⟨rest, hrest⟩
    | _ => cases hreturns
  | _ => cases hreturns

end

end Quark.Swim
