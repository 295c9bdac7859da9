import Quark.StatelessPool

/-! What a fault costs the other messages of a `StatelessPool<A>`. -/
set_option linter.unusedSectionVars false

namespace Quark.StatelessPool

open Function List Option State Machine Vyukov Census
open Activation (Desc)
open Drain (ProducerPc LanePc)

variable {M P : Type} {n : Nat} {cfg : Config}

def carries : ProducerPc M → Option M
  | .count m | .exchange (.message m) => some m
  | _ => none

namespace PosterPc

def message : PosterPc M n → Option M
  | .idle | .inside _ => none
  | .fetch m | .enqueuedA m _ _ | .drainedA m _ _ _ | .enqueuedB m _ _ _ | .drainedB m _ _ _ _ | .enter m _ => some m

end PosterPc

def State.carriedAt (s : State M P n) (p : P) : PosterPc M n → Option M
  | .inside i => carries ((s.slots i).act.producer p)
  | pc => pc.message

def State.carried (s : State M P n) (p : P) : Option M := s.carriedAt p (s.posters p)

def Slot.waiting (sl : Slot M P) : List (Desc M) := sl.act.lane.hand.toList ++ sl.act.mail.flatMap Node.toList

section

variable [DecidableEq M] [DecidableEq P]

theorem stepProducer_carries {act act' : Drain.State M P} {p : P} (hplain : Plain (act.producer p))
    (hstep : Drain.stepProducer act p = some act') :
    (∃ pc, act'.producer = update act.producer p pc)
      ∧ (act'.posted = act.posted ∧ carries (act'.producer p) = carries (act.producer p)
        ∨ ∃ m, act'.posted = act.posted ++ [.item (.message m)] ∧ carries (act.producer p) = some m
            ∧ carries (act'.producer p) = none) := by
  rw [Drain.stepProducer] at hstep
  cases hpc : act.producer p with
  | idle =>
    rw [hpc] at hstep
    cases hstep
  | loadEnqueued | loadDrained | overflow =>
    rw [hpc] at hplain
    cases hplain
  | count m | linking d =>
    rw [hpc] at hstep
    cases hstep
    exact ⟨⟨_, rfl⟩, .inl ⟨rfl, by rw [Drain.producer_setProducer, if_pos rfl]; rfl⟩⟩
  | exchange d =>
    rw [hpc] at hstep hplain
    simp only [ite_none_right_eq_some, some.injEq] at hstep
    obtain ⟨_, rfl⟩ := hstep
    cases d with
    | deactivate => cases hplain
    | message m => exact ⟨⟨_, rfl⟩, .inr ⟨m, rfl, rfl, by rw [Drain.producer_setProducer, if_pos rfl]; rfl⟩⟩

variable [Fintype P]

theorem stepLane_posted (act : Drain.State M P) (v : Drain.Verdict) :
    (Drain.stepLane (governance cfg) act v).posted = act.posted := by
  have hkind : (governance cfg).kind = .governed := rfl
  rw [Drain.stepLane]
  cases hlane : act.lane with
  | dequeue l =>
    simp only
    rcases Drain.stepDequeue_cases hkind act l with ⟨mail, c, pc, heq, _⟩ | ⟨mail, c, d, heq⟩ <;> rw [heq]
  | claim l d resident => exact (Drain.stepClaim_frame (governance cfg) act l d resident v).2.2.1
  | _ => rfl

def Accounted (s : State M P n) : Prop :=
  ∀ m, s.posts.count m = (∑ i, (s.slots i).act.posted.count (.item (.message m))) + census (· = some m) s.carried

structure Clean (s : State M P n) : Prop where
  slots : ∀ i, (s.slots i).Clean
  outside : ∀ p i, s.posters p ≠ .inside i → (s.slots i).act.producer p = .idle
  posts : Accounted s

theorem Clean.initial : Clean ({} : State M P n) where
  slots _ := .initial
  outside _ _ _ := rfl
  posts m := by
    have hnone : census (· = some m) ({} : State M P n).carried = 0 := by
      by_contra hne
      obtain ⟨p, hp⟩ := census_pos.mp (pos_of_ne_zero hne)
      cases hp
    have hempty : ∑ i, (({} : State M P n).slots i).act.posted.count (.item (.message m)) = 0 :=
      Finset.sum_eq_zero fun _ _ => rfl
    rw [hnone, hempty]
    rfl

variable {s s' : State M P n} {p : P} {m : M} {i : Fin n}

theorem carried_eq {pc : PosterPc M n} (hposters : s'.posters = update s.posters p pc)
    (hproducers : ∀ j q, q ≠ p → (s'.slots j).act.producer q = (s.slots j).act.producer q) :
    s'.carried = update s.carried p (s'.carried p) := by
  funext q
  by_cases hq : q = p
  · rw [hq, update_self]
  · rw [update_of_ne hq, carried, carried, hposters, update_of_ne hq]
    cases s.posters q with
    | inside j => exact congrArg carries (hproducers j q hq)
    | _ => rfl

theorem Accounted.move (h : Accounted s) {more : List M} (slot : M → Nat) (hposts : s'.posts = s.posts ++ more)
    (hslots : ∀ m, (∑ i, (s'.slots i).act.posted.count (.item (.message m)))
      = (∑ i, (s.slots i).act.posted.count (.item (.message m))) + slot m)
    (hcarried : s'.carried = update s.carried p (s'.carried p))
    (hbalance : ∀ m, more.count m + (if s.carried p = some m then 1 else 0) = slot m + if s'.carried p = some m
    then 1 else 0) : Accounted s' := by
  intro m
  have hcensus := census_update (· = some m) s.carried p (s'.carried p)
  rw [← hcarried] at hcensus
  have hbefore := h m
  have hm := hbalance m
  rw [hposts, count_append, hslots]
  omega

theorem Clean.setPoster (h : Clean s) (hidle : ∀ j, (s.slots j).act.producer p = .idle) (pc : PosterPc M n)
    (hto : ∀ j, pc ≠ .inside j) (more : List M)
    (hbalance : ∀ m, more.count m + (if s.carried p = some m then 1 else 0) = if pc.message = some m then 1 else 0)
    {seq : UInt64} {posts : List M} (hposts : posts = s.posts ++ more) :
    Clean ({ s with seq, posts }.setPoster p pc) where
  slots := h.slots
  outside q j hq := by
    by_cases heq : q = p
    · exact heq ▸ hidle j
    · refine h.outside q j fun hin => hq ?_
      rw [← hin]
      exact update_of_ne heq ..
  posts := by
    have hcarried : ({ s with seq, posts }.setPoster p pc).carried p = pc.message := by
      refine (congrArg (s.carriedAt p) (update_self p pc s.posters)).trans ?_
      cases pc with
      | inside j => exact absurd rfl (hto j)
      | _ => rfl
    refine h.posts.move (fun _ => 0) hposts (fun _ => rfl) (carried_eq rfl fun _ _ _ => rfl) fun m => ?_
    rw [hcarried, zero_add, hbalance]

theorem Clean.post (h : Clean s) (hpc : s.posters p = .idle) (pc : PosterPc M n) (hto : ∀ j, pc ≠ .inside j)
    (hmessage : pc.message = some m) : Clean ({ s with posts := s.posts ++ [m] }.setPoster p pc) := by
  refine h.setPoster (fun j => h.outside p j (by rw [hpc]; nofun)) pc hto [m] (fun x => ?_) rfl
  rw [carried, hpc, hmessage, count_singleton]
  simp [carriedAt, PosterPc.message]

theorem Clean.routes (h : Clean s) (hfrom : ∀ j, s.posters p ≠ .inside j) (pc : PosterPc M n)
    (hto : ∀ j, pc ≠ .inside j)
    (hmessage : pc.message = (s.posters p).message) {seq : UInt64} : Clean ({ s with seq }.setPoster p pc) := by
  refine h.setPoster (fun j => h.outside p j (hfrom j)) pc hto [] (fun x => ?_) (append_nil _).symm
  have hcarried : s.carried p = (s.posters p).message := by
    rw [carried]
    cases hpc : s.posters p with
    | inside j => exact absurd hpc (hfrom j)
    | _ => rfl
  rw [hcarried, hmessage, count_nil, zero_add]

theorem sum_posted {sl : Slot M P} {x : Node (Desc M)} {k : Nat}
    (hcount : sl.act.posted.count x = (s.slots i).act.posted.count x + k) :
    (∑ j, ((s.setSlot i sl).slots j).act.posted.count x) = (∑ j, (s.slots j).act.posted.count x) + k := by
  have hrest : ∑ j ∈ Finset.univ.erase i, ((s.setSlot i sl).slots j).act.posted.count x
      = ∑ j ∈ Finset.univ.erase i, (s.slots j).act.posted.count x :=
    Finset.sum_congr rfl fun j hj => by rw [setSlot_ne (Finset.ne_of_mem_erase hj)]
  rw [← Finset.add_sum_erase _ _ (Finset.mem_univ i), hrest, setSlot_self, hcount,
    ← Finset.add_sum_erase _ _ (Finset.mem_univ i)]
  omega

theorem setSlot_clean (h : Clean s) {sl : Slot M P} (hsl : sl.Clean) (j : Fin n) : ((s.setSlot i sl).slots j).Clean :=
  (Function.forall_update_iff s.slots fun _ sl => sl.Clean).mpr ⟨hsl, fun j _ => h.slots j⟩ j

theorem setSlot_producer {sl : Slot M P} {q : P} (hsl : sl.act.producer q = (s.slots i).act.producer q) (j : Fin n) :
    ((s.setSlot i sl).slots j).act.producer q = (s.slots j).act.producer q := by
  by_cases hj : j = i
  · rw [hj, setSlot_self, hsl]
  · rw [setSlot_ne hj]

theorem setSlot_producer_ne {sl : Slot M P} {q : P} {j : Fin n} (hj : j ≠ i) :
    ((s.setSlot i sl).slots j).act.producer q = (s.slots j).act.producer q := by rw [setSlot_ne hj]

theorem setSlot_producer_self {sl : Slot M P} {q : P} :
    ((s.setSlot i sl).slots i).act.producer q = sl.act.producer q := by
  rw [setSlot_self]

theorem routeSlot_message [NeZero n] (cfg : Config) (t : UInt64) (m : M) :
    (routeSlot cfg t m : PosterPc M n).message = some m ∧ ∀ j, (routeSlot cfg t m : PosterPc M n) ≠ .inside j := by
  unfold routeSlot
  cases cfg.route <;> exact ⟨rfl, nofun⟩

theorem Clean.enter (h : Clean s) (hpc : s.posters p = .enter m i) {act : Drain.State M P}
    (hstep : Drain.stepPost (governance cfg) (s.slots i).act p m true = some act) :
    Clean ((s.setSlot i { s.slots i with act, used := true }).setPoster p (.inside i)) := by
  obtain ⟨hidle, rfl, hclean⟩ := (h.slots i).post true hstep
  have hothers : ∀ j q, q ≠ p → ((s.setSlot i { s.slots i with
      act := (s.slots i).act.setProducer p (.count m), used := true }).slots j).act.producer q =
        (s.slots j).act.producer q :=
    fun j q hq => setSlot_producer (update_of_ne hq ..) j
  refine ⟨setSlot_clean h hclean, fun q j hq => ?_, ?_⟩
  · by_cases heq : q = p
    · have hne : j ≠ i := fun hj => hq (by rw [heq, hj, setPoster_self])
      refine (setSlot_producer_ne hne).trans (h.outside q j ?_)
      rw [heq, hpc]
      nofun
    · exact (hothers j q heq).trans (h.outside q j fun hin => hq ((setPoster_ne heq).trans hin))
  · have hposts : s.posts = s.posts ++ ([] : List M) := (append_nil _).symm
    refine h.posts.move (fun _ => 0) hposts (fun x => sum_posted rfl) (carried_eq rfl hothers) fun x => ?_
    have hbefore : s.carried p = some m := by rw [carried, hpc]; rfl
    have hafter : ((s.setSlot i { s.slots i with
        act := (s.slots i).act.setProducer p (.count m), used := true }).setPoster p (.inside i)).carried
          p = some m := by
      rw [carried, setPoster_self]
      show carries (((s.setSlot i _).slots i).act.producer p) = some m
      simp only [setSlot_producer_self, Drain.producer_setProducer, if_true, carries]
    rw [hbefore, hafter, count_nil]

theorem Clean.producer (h : Clean s) (hpc : s.posters p = .inside i)
    (hok : (s.slots i).act.stopped = true → enqueues ((s.slots i).act.producer p) = none) {act : Drain.State M P}
    (hstep : Drain.stepProducer (s.slots i).act p = some act) : Clean (s.setAct i act) := by
  obtain ⟨⟨pc, hproducer⟩, hposted⟩ := stepProducer_carries ((h.slots i).producers p) hstep
  have hclean := ((h.slots i).producer hok hstep).1
  have hothers : ∀ j q, q ≠ p → ((s.setAct i act).slots j).act.producer q = (s.slots j).act.producer q :=
    fun j q hq => setSlot_producer (by rw [hproducer, update_of_ne hq]) j
  have hposters : (s.setAct i act).posters = update s.posters p (.inside i) := by
    rw [← hpc, update_eq_self]
    rfl
  have hbefore : s.carried p = carries ((s.slots i).act.producer p) := by rw [carried, hpc]; rfl
  have hafter : (s.setAct i act).carried p = carries (act.producer p) := by
    rw [carried, hposters, update_self]
    exact congrArg carries setSlot_producer_self
  have hposts : s.posts = s.posts ++ ([] : List M) := (append_nil _).symm
  refine ⟨setSlot_clean h hclean, fun q j hq => ?_, ?_⟩
  · by_cases heq : q = p
    · have hne : j ≠ i := fun hj => hq (by rw [heq, hj]; exact hpc)
      exact (setSlot_producer_ne hne).trans (h.outside q j hq)
    · exact (hothers j q heq).trans (h.outside q j hq)
  · obtain ⟨hsame, hcarries⟩ | ⟨m, hmore, hcarried, hnone⟩ := hposted
    · refine h.posts.move (fun _ => 0) hposts (fun x => sum_posted (by rw [hsame]; rfl)) (carried_eq hposters hothers)
        fun x => ?_
      rw [hbefore, hafter, hcarries, count_nil]
    · refine h.posts.move (fun x => if m = x then 1 else 0) hposts (fun x => sum_posted ?_)
        (carried_eq hposters hothers)
        fun x => ?_
      · rw [hmore, count_append, count_singleton]
        simp
      · rw [hbefore, hafter, hcarried, hnone, count_nil]
        simp

theorem Clean.leave (h : Clean s) (hpc : s.posters p = .inside i) (hidle : (s.slots i).act.producer p = .idle) :
    Clean (s.setPoster p .idle) := by
  have hall : ∀ j, (s.slots j).act.producer p = .idle := fun j => by
    by_cases hj : j = i
    · rw [hj, hidle]
    · refine h.outside p j ?_
      rw [hpc]
      exact fun heq => hj (PosterPc.inside.inj heq).symm
  refine h.setPoster hall .idle nofun [] (fun x => ?_) (append_nil _).symm
  have hcarried : s.carried p = none := by
    rw [carried, hpc]
    exact congrArg carries hidle
  rw [hcarried]
  rfl

theorem Clean.drain (h : Clean s) {throws : Bool} (hok : (s.slots i).faults throws ≠ [] → (s.slots i).act.mail = []) :
    Clean (s.setSlot i ((s.slots i).drain cfg throws)) := by
  have hproducers : ∀ q j, ((s.setSlot i ((s.slots i).drain cfg throws)).slots j).act.producer q =
      (s.slots j).act.producer q :=
    fun q j => setSlot_producer (congrFun (Drain.stepLane_counters rfl (s.slots i).act (verdict throws)).1 q) j
  have hcarried : (s.setSlot i ((s.slots i).drain cfg throws)).carried = s.carried := by
    funext q
    rw [carried, carried]
    show carriedAt _ q (s.posters q) = _
    cases s.posters q with
    | inside j => exact congrArg carries (hproducers q j)
    | _ => rfl
  refine ⟨setSlot_clean h ((h.slots i).drain hok),
    fun q j hq => (hproducers q j).trans (h.outside q j hq), fun m => ?_⟩
  rw [hcarried, sum_posted (k := 0) (congrArg (List.count _) (stepLane_posted _ _))]
  exact h.posts m

variable [NeZero n]

theorem Clean.step {a : Label M P n} (h : Clean s) (hok : Isolated s a)
    (hstep : step cfg s a = some s') : Clean s' := by
  cases a with
  | post p m =>
    simp only [StatelessPool.step] at hstep
    split at hstep
    · next hpc =>
      cases hstep
      exact h.post hpc (.fetch m) nofun rfl
    · cases hstep
  | postTo p i m =>
    simp only [StatelessPool.step] at hstep
    split at hstep
    · next hpc =>
      cases hstep
      exact h.post hpc (.enter m i) nofun rfl
    · cases hstep
  | lane i throws =>
    cases hstep
    exact h.drain hok
  | poster p =>
    simp only [StatelessPool.step, stepPoster] at hstep
    cases hpc : s.posters p with
    | idle =>
      simp only [hpc] at hstep
      cases hstep
    | fetch m =>
      simp only [hpc] at hstep
      cases hstep
      obtain ⟨hmessage, hto⟩ := routeSlot_message cfg s.seq m (n := n)
      exact h.routes (by rw [hpc]; nofun) _ hto (by rw [hpc, hmessage]; rfl)
    | enqueuedA m a b =>
      simp only [hpc] at hstep
      cases hstep
      exact h.routes (by rw [hpc]; nofun) (.drainedA m a b _) nofun (by rw [hpc]; rfl)
    | drainedA m a b enqueued =>
      simp only [hpc] at hstep
      cases hstep
      exact h.routes (by rw [hpc]; nofun) (.enqueuedB m a b _) nofun (by rw [hpc]; rfl)
    | enqueuedB m a b depthA =>
      simp only [hpc] at hstep
      cases hstep
      exact h.routes (by rw [hpc]; nofun) (.drainedB m a b depthA _) nofun (by rw [hpc]; rfl)
    | drainedB m a b depthA enqueued =>
      simp only [hpc] at hstep
      cases hstep
      exact h.routes (by rw [hpc]; nofun) (.enter m _) nofun (by rw [hpc]; rfl)
    | enter m i =>
      simp only [hpc] at hstep
      obtain ⟨act, hact, rfl⟩ := map_eq_some_iff.mp hstep
      exact h.enter hpc hact
    | inside i =>
      simp only [hpc] at hstep
      simp only [Isolated, hpc] at hok
      split at hstep
      · next hidle =>
        cases hstep
        exact h.leave hpc hidle
      · obtain ⟨act, hact, rfl⟩ := map_eq_some_iff.mp hstep
        exact h.producer hpc hok hact

theorem Slot.Clean.count_posted {sl : Slot M P} (h : sl.Clean) (d : Desc M) :
    sl.act.posted.count (.item d) = sl.act.dispatched.count d + sl.waiting.count d := by
  obtain ⟨items, hinv⟩ := h.inv
  have hinjective : Function.Injective (Node.item (α := Desc M)) := fun a b hab => Node.item.inj hab
  have hmail : sl.act.mail.flatMap Node.toList = items := by
    rw [Drain.State.mail, hinv.posted, drop_left, flatMap_map]
    exact flatMap_singleton' items
  rw [hinv.count_posted, ← h.handled, count_map_of_injective _ _ hinjective, count_append, Slot.waiting, hmail,
    count_append, add_assoc]

/-- In every run in which nothing is enqueued on a stopped slot and each fault is the last message of its
slot, what is dead-lettered is what faulted, each message posted is handled once, waits in a slot or is with
the thread that posts it, and none waits in a stopped slot. -/
theorem fault_costs_itself (h : Reach (step cfg) Isolated ({} : State M P n) s) :
    (∀ i, (s.slots i).act.deadLettered = (s.slots i).faulted ∧ (s.slots i).faulted.Sublist (s.slots i).act.dispatched)
      ∧ (∀ m, s.posts.count m = (∑ i, (s.slots i).act.dispatched.count (.message m))
          + (∑ i, (s.slots i).waiting.count (.message m)) + census (· = some m) s.carried)
      ∧ ∀ i, (s.slots i).act.stopped = true → (s.slots i).waiting = [] := by
  have hclean : Clean s := h.invariant .initial fun _ _ _ hclean hok hstep => hclean.step hok hstep
  refine ⟨fun i => ⟨(hclean.slots i).dead, (hclean.slots i).faulted⟩, fun m => ?_, fun i hstop => ?_⟩
  · rw [hclean.posts, ← Finset.sum_add_distrib]
    exact congrArg (· + _) (Finset.sum_congr rfl fun i _ => (hclean.slots i).count_posted _)
  · obtain ⟨hmail, hhand⟩ := (hclean.slots i).stopped hstop
    rw [Slot.waiting, hmail, hhand]
    rfl

/-- What is enqueued on a slot that was stopped, or waits there, is never handled, in any run. -/
theorem stopped_handles_nothing (hstop : (s.slots i).act.stopped = true) (h : Reachable (step cfg) s s') :
    (s'.slots i).act.stopped = true ∧ (s'.slots i).act.dispatched = (s.slots i).act.dispatched := by
  let Halted (sl : Slot M P) : Prop := sl.act.stopped = true ∧ sl.act.dispatched = (s.slots i).act.dispatched
  have hset : ∀ {x : State M P n} {j sl}, Halted (x.slots i) → (Halted (x.slots j) → Halted sl) →
      Halted ((x.setSlot j sl).slots i) := by
    intro x j sl hx hsl
    by_cases hj : i = j
    · subst hj
      rw [setSlot_self]
      exact hsl hx
    · rwa [setSlot_ne hj]
  refine Reachable.invariant (I := fun x => Halted (x.slots i)) h ⟨hstop, rfl⟩ fun x a x' hx hstep => ?_
  cases a with
  | post p m | postTo p j m =>
    simp only [StatelessPool.step] at hstep
    split at hstep <;> cases hstep
    exact hx
  | lane j throws =>
    cases hstep
    exact hset hx fun hj => (Drain.stepLane_stopped hj.1 _).imp_right (·.trans hj.2)
  | poster p =>
    simp only [StatelessPool.step, stepPoster] at hstep
    split at hstep
    · cases hstep
    case h_7 =>
      obtain ⟨act, hact, rfl⟩ := map_eq_some_iff.mp hstep
      refine hset hx fun hj => ?_
      simp only [Drain.stepPost, ite_none_right_eq_some, some.injEq] at hact
      obtain ⟨-, rfl⟩ := hact
      exact hj
    case h_8 =>
      split at hstep
      · cases hstep
        exact hx
      · obtain ⟨act, hact, rfl⟩ := map_eq_some_iff.mp hstep
        obtain ⟨hstays, hsame⟩ := Drain.stepProducer_stopped hact
        exact hset hx fun hj => ⟨hstays.trans hj.1, hsame.trans hj.2⟩
    all_goals
      cases hstep
      exact hx

end

/-- A call of `post` alone on a rotating pool. -/
def postCall (p : P) (m : M) : List (Label M P n) := .post p m :: List.replicate 6 (.poster p)

def drainCall (i : Fin n) (throws : Bool) : List (Label M P n) := List.replicate 17 (.lane i throws)

theorem fault_costs_itself_one : ∃ s : State Nat Unit 2,
    Reach (step { route := .roundRobin }) Isolated {} s ∧ s.posts = [5, 6] ∧ (s.slots 0).act.stopped = true
      ∧ (s.slots 0).act.deadLettered = [.message 5] ∧ (s.slots 1).act.dispatched = [.message 6]
      ∧ (s.slots 0).waiting = [] := by
  obtain ⟨s, hrun, hposts, hstop, hdead, hhandled⟩ : ∃ s : State Nat Unit 2,
      run (guarded (step { route := .roundRobin }) Isolated) {}
          (postCall () 5 ++ drainCall 0 true ++ postCall () 6 ++ drainCall 1 false) = some s
        ∧ s.posts = [5, 6] ∧ (s.slots 0).act.stopped = true ∧ (s.slots 0).act.deadLettered = [.message 5]
        ∧ (s.slots 1).act.dispatched = [.message 6] := ⟨_, rfl, rfl, rfl, rfl, rfl⟩
  have hreach := reach_of_run hrun
  exact ⟨s, hreach, hposts, hstop, hdead, hhandled, (fault_costs_itself hreach).2.2 0 hstop⟩

/-- The rotation comes back to the slot whose handler threw: the message is dead-lettered, though another slot
is idle. -/
theorem healthy_message_dead_lettered : ∃ s : State Nat Unit 2,
    run (step { route := .roundRobin }) {}
        (postCall () 5 ++ drainCall 0 true ++ postCall () 6 ++ drainCall 1 false ++ postCall () 7 ++
        drainCall 0 false) = some s
      ∧ (s.slots 0).act.deadLettered = [.message 5, .message 7] ∧ (s.slots 0).faulted = [.message 5]
      ∧ (s.slots 0).act.dispatched = [.message 5] ∧ (s.slots 1).act.dispatched = [.message 6]
      ∧ (s.slots 1).act.stopped = false := ⟨_, rfl, rfl, rfl, rfl, rfl, rfl⟩

theorem stopped_handles_nothing_more : ∃ s s' : State Nat Unit 2, (s.slots 0).act.stopped = true ∧
    s'.posts = [5, 6, 7]
    ∧ (s'.slots 0).act.dispatched = (s.slots 0).act.dispatched := by
  obtain ⟨s, s', hrun, hstop, hposts⟩ : ∃ s s' : State Nat Unit 2, run (step { route := .roundRobin }) s
      (postCall () 6 ++ drainCall 1 false ++ postCall () 7 ++ drainCall 0 false) = some s'
        ∧ (s.slots 0).act.stopped = true ∧ s'.posts = [5, 6, 7] :=
    ⟨((run (step { route := .roundRobin }) {} (postCall () 5 ++ drainCall 0 true)).getD {}), _, rfl, rfl, rfl⟩
  exact ⟨s, s', hstop, hposts, (stopped_handles_nothing hstop (reachable_of_run hrun)).2⟩

end Quark.StatelessPool
