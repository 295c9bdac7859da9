import Quark.Lib.TumblingWindow
import Quark.Supervision

/-! The restart budget `MaxRestarts<N, Within<W>>` over whole runs of an activation. `charge_restart` keeps one
count and the start of one window, so it limits restarts per window, and per interval only as far as windows
next to each other allow. -/
namespace Quark.RestartBudget

open List TumblingWindow
open Reentrant (SupervisionPolicy Window)

/-- The answers of `charge_restart` at these times, one after another. -/
def charges (p : SupervisionPolicy) (win : Window) : List Int → List (Int × Bool)
  | [] => []
  | t :: ts => (t, (win.charge p t).2) :: charges p (win.charge p t).1 ts

def spend (p : SupervisionPolicy) (win : Window) (ts : List Int) : Window :=
  ts.foldl (fun win t => (win.charge p t).1) win

def restarts (cs : List (Int × Bool)) : List Int := (cs.filter Prod.snd).map Prod.fst

/-- What the budget is for: no interval of length `w` has more than `n` restarts, and the budget is refused
only behind `n` restarts within the last `w`. -/
structure Limited (n : Nat) (w : Int) (cs : List (Int × Bool)) : Prop where
  atMost : ∀ a, (restarts cs).countP (within w a) ≤ n
  onlyThen : ∀ past t later, cs = past ++ (t, false) :: later → n ≤ (restarts past).countP (within w (t - w))

/-- The times at which that is so: the declared `n` and the charges of one window fit the counter, and the
windows next to each other are apart. -/
structure Steady (n : Nat) (w : Int) (ts : List Int) : Prop where
  fits : n < 2 ^ 32
  counted : ∀ v ∈ windows w ts, v.length < 2 ^ 32
  apart : (windows w ts).IsChain (Apart n w)

section

variable {p : SupervisionPolicy} {win : Window} {t : Int}

theorem restarts_cons (t : Int) (granted : Bool) (cs : List (Int × Bool)) :
    restarts ((t, granted) :: cs) = (if granted then [t] else []) ++ restarts cs := by
  cases granted <;> rfl

theorem charge_opens (hw : 0 < p.windowNs) (hopens : win.windowOpen = false ∨ p.windowNs < t - win.windowStart) :
    win.charge p t = ({ windowOpen := true, windowStart := t, restartCount := 1 }, decide (1 ≤ p.maxRestarts)) := by
  simp only [Window.charge, hw, hopens, and_self, if_true]
  rfl

theorem charge_counts (hopen : win.windowOpen = true) (hnear : ¬ p.windowNs < t - win.windowStart)
    (hcount : win.restartCount + 1 < 2 ^ 32) :
    win.charge p t = ({ win with restartCount := win.restartCount + 1 },
      decide (win.restartCount + 1 ≤ p.maxRestarts)) := by
  have hnot : ¬ (0 < p.windowNs ∧ (win.windowOpen = false ∨ p.windowNs < t - win.windowStart)) := by
    rintro ⟨_, hclosed | hlate⟩
    · rw [hopen] at hclosed
      cases hclosed
    · exact hnear hlate
  simp only [Window.charge, hnot, if_false, Nat.mod_eq_of_lt hcount]

theorem take_concat (n : Nat) (cur : List Int) (t : Int) :
    (cur ++ [t]).take n = cur.take n ++ if cur.length + 1 ≤ n then [t] else [] := by
  rw [take_append]
  split
  · rw [take_of_length_le (l := [t]) (by simp; omega)]
  · next hfull => rw [show n - cur.length = 0 by omega, take_zero]

theorem take_singleton (n : Nat) (t : Int) : [t].take n = if 1 ≤ n then [t] else [] := by
  cases n with
  | zero => rfl
  | succ n => rw [if_pos (Nat.le_add_left 1 n), take_succ_cons, take_nil]

theorem restarts_split (hw : 0 < p.windowNs) (win : Window) (cur ts : List Int) (hopen : win.windowOpen = true)
    (hcount : win.restartCount = cur.length)
    (hfits : ∀ v ∈ split p.windowNs win.windowStart cur ts, v.length < 2 ^ 32) :
    cur.take p.maxRestarts ++ restarts (charges p win ts) =
      admitted p.maxRestarts (split p.windowNs win.windowStart cur ts) := by
  induction ts generalizing win cur with
  | nil =>
    rw [split, admitted, flatMap_cons, flatMap_nil]
    rfl
  | cons t ts ih =>
    rw [split] at hfits ⊢
    by_cases hlate : p.windowNs < t - win.windowStart
    · rw [if_pos hlate] at hfits ⊢
      have hnext := ih ⟨true, t, 1⟩ [t] rfl rfl
        (fun v hv => hfits v (mem_cons_of_mem _ hv))
      rw [charges, charge_opens hw (Or.inr hlate), restarts_cons, admitted, flatMap_cons]
      change _ = _ ++ admitted _ _
      rw [← hnext]
      rw [take_singleton]
      simp
    · rw [if_neg hlate] at hfits ⊢
      have hlen : (cur ++ [t]).length < 2 ^ 32 := by
        obtain ⟨v, rest, heq⟩ : ∃ v rest, split p.windowNs win.windowStart (cur ++ [t]) ts =
            (cur ++ [t] ++ v) :: rest :=
          split_head _ _ _ _
        have hv := hfits _ (by rw [heq]; exact mem_cons_self)
        rw [length_append] at hv
        omega
      rw [length_append, length_singleton] at hlen
      have hnext := ih { win with restartCount := win.restartCount + 1 } (cur ++ [t]) hopen
        (by rw [hcount, length_append, length_singleton]) hfits
      rw [charges, charge_counts hopen hlate (by omega), restarts_cons, ← hnext, take_concat, hcount]
      simp

theorem restarts_eq_admitted (hw : 0 < p.windowNs) (ts : List Int)
    (hfits : ∀ v ∈ windows p.windowNs ts, v.length < 2 ^ 32) :
    restarts (charges p {} ts) = admitted p.maxRestarts (windows p.windowNs ts) := by
  cases ts with
  | nil => rfl
  | cons t ts =>
    have hrest := restarts_split hw ⟨true, t, 1⟩ [t] ts rfl rfl hfits
    rw [windows, ← hrest, charges, charge_opens hw (Or.inl rfl), restarts_cons, take_singleton]
    simp

/-- The budget is refused only behind `n` charges granted in the open window. -/
theorem refused_split (hw : 0 < p.windowNs) (win : Window) (cur ts : List Int) (hopen : win.windowOpen = true)
    (hcount : win.restartCount = cur.length) (hne : cur ≠ []) (hstart : ∀ u ∈ cur, win.windowStart ≤ u)
    (hsorted : (cur ++ ts).Pairwise (· ≤ ·))
    (hfits : ∀ v ∈ split p.windowNs win.windowStart cur ts, v.length < 2 ^ 32) {past later : List (Int × Bool)}
    {t : Int} (hrefused : charges p win ts = past ++ (t, false) :: later) :
    p.maxRestarts ≤ (cur.take p.maxRestarts ++ restarts past).countP (within p.windowNs (t - p.windowNs)) := by
  induction ts generalizing win cur past with
  | nil =>
    rw [charges] at hrefused
    exact absurd hrefused (by simp)
  | cons u ts ih =>
    rw [split] at hfits
    by_cases hlate : p.windowNs < u - win.windowStart
    · rw [if_pos hlate] at hfits
      rw [charges, charge_opens hw (Or.inr hlate)] at hrefused
      have htail := (pairwise_append.mp hsorted).2.1
      cases past with
      | nil =>
        obtain ⟨hhead, _⟩ := List.cons.inj hrefused
        have hzero : ¬ 1 ≤ p.maxRestarts := by simpa using congrArg Prod.snd hhead
        omega
      | cons c past =>
        obtain ⟨rfl, hrest⟩ := List.cons.inj hrefused
        have hnext := ih ⟨true, u, 1⟩ [u] rfl rfl (cons_ne_nil _ _) (by simp) htail
          (fun v hv => hfits v (mem_cons_of_mem _ hv)) hrest
        rw [take_singleton] at hnext
        rw [restarts_cons, countP_append]
        simp only [decide_eq_true_eq] at hnext ⊢
        omega
    · rw [if_neg hlate] at hfits
      have hlen : win.restartCount + 1 < 2 ^ 32 := by
        obtain ⟨v, rest, heq⟩ := split_head p.windowNs win.windowStart (cur ++ [u]) ts
        have hv := hfits _ (by rw [heq]; exact mem_cons_self)
        rw [length_append, length_append, length_singleton] at hv
        omega
      rw [charges, charge_counts hopen hlate hlen] at hrefused
      have hle := (pairwise_append.mp hsorted).2.2
      cases past with
      | nil =>
        obtain ⟨hhead, _⟩ := List.cons.inj hrefused
        have hfull : ¬ win.restartCount + 1 ≤ p.maxRestarts := by simpa using congrArg Prod.snd hhead
        have ht : u = t := congrArg Prod.fst hhead
        -- everything in the open window is within its length of now
        have hall : (cur.take p.maxRestarts).countP (within p.windowNs (t - p.windowNs)) =
            (cur.take p.maxRestarts).length := by
          rw [countP_eq_length]
          intro x hx
          have hxs := hstart x (mem_of_mem_take hx)
          have hxu := hle x (mem_of_mem_take hx) u mem_cons_self
          simp only [within, decide_eq_true_eq]
          omega
        rw [countP_append, hall, length_take]
        omega
      | cons c past =>
        obtain ⟨rfl, hrest⟩ := List.cons.inj hrefused
        have hsorted' : (cur ++ [u] ++ ts).Pairwise (· ≤ ·) := by rwa [← append_cons]
        have hstart' : ∀ x ∈ cur ++ [u], win.windowStart ≤ x := by
          intro x hx
          rcases mem_append.mp hx with hx | hx
          · exact hstart x hx
          · obtain ⟨y, hy⟩ := exists_mem_of_ne_nil cur hne
            rw [mem_singleton.mp hx]
            exact Int.le_trans (hstart y hy) (hle y hy u mem_cons_self)
        have hnext := ih { win with restartCount := win.restartCount + 1 } (cur ++ [u]) hopen
          (by rw [hcount, length_append, length_singleton]) (by simp) hstart' hsorted' hfits hrest
        rw [take_concat, append_assoc] at hnext
        rw [restarts_cons, hcount]
        simpa using hnext

theorem refused_after {ts : List Int} (hw : 0 < p.windowNs) (hsorted : ts.Pairwise (· ≤ ·))
    (hfits : ∀ v ∈ windows p.windowNs ts, v.length < 2 ^ 32) {past later : List (Int × Bool)} {t : Int}
    (hrefused : charges p {} ts = past ++ (t, false) :: later) :
    p.maxRestarts ≤ (restarts past).countP (within p.windowNs (t - p.windowNs)) := by
  cases ts with
  | nil =>
    rw [charges] at hrefused
    exact absurd hrefused (by simp)
  | cons u ts =>
    rw [charges, charge_opens hw (Or.inl rfl)] at hrefused
    cases past with
    | nil =>
      obtain ⟨hhead, _⟩ := List.cons.inj hrefused
      have hzero : ¬ 1 ≤ p.maxRestarts := by simpa using congrArg Prod.snd hhead
      omega
    | cons c past =>
      obtain ⟨rfl, hrest⟩ := List.cons.inj hrefused
      have hnext := refused_split hw ⟨true, u, 1⟩ [u] ts rfl rfl (cons_ne_nil _ _) (by simp)
        hsorted hfits hrest
      rw [take_singleton] at hnext
      rw [restarts_cons]
      simpa using hnext

theorem limited_of_steady {n : Nat} {ts : List Int} (hw : 0 < p.windowNs) (hn : p.maxRestarts = n % 2 ^ 32)
    (hsorted : ts.Pairwise (· ≤ ·)) (h : Steady n p.windowNs ts) : Limited n p.windowNs (charges p {} ts) := by
  rw [Nat.mod_eq_of_lt h.fits] at hn
  constructor
  · rw [restarts_eq_admitted hw ts h.counted, hn]
    have hflat : (windows p.windowNs ts).flatten.Pairwise (· ≤ ·) := by rwa [flatten_windows]
    exact (admitted_within_iff n p.windowNs _ hflat (windows_spread _ hsorted)).mpr h.apart
  · intro past t later hrefused
    rw [← hn]
    exact refused_after hw hsorted h.counted hrefused

theorem limited_iff {ts : List Int} (hw : 0 < p.windowNs) (hsorted : ts.Pairwise (· ≤ ·))
    (hfits : ∀ v ∈ windows p.windowNs ts, v.length < 2 ^ 32) :
    Limited p.maxRestarts p.windowNs (charges p {} ts) ↔
      (windows p.windowNs ts).IsChain (Apart p.maxRestarts p.windowNs) := by
  have hflat : (windows p.windowNs ts).flatten.Pairwise (· ≤ ·) := by rwa [flatten_windows]
  rw [← admitted_within_iff p.maxRestarts p.windowNs _ hflat (windows_spread _ hsorted),
    ← restarts_eq_admitted hw ts hfits]
  constructor
  · intro h
    exact h.atMost
  · intro h
    exact ⟨h, fun past t later hrefused => refused_after hw hsorted hfits hrefused⟩

theorem limited_iff_close : Limited 2 100 (charges { maxRestarts := 2, windowNs := 100 } {} [0, 99, 100, 101]) ↔
    (windows 100 [0, 99, 100, 101]).IsChain (Apart 2 100) :=
  limited_iff (p := { maxRestarts := 2, windowNs := 100 }) (by decide) (by decide) (by decide +kernel)

end

theorem charges_append (p : SupervisionPolicy) (win : Window) (ts : List Int) (t : Int) :
    charges p win (ts ++ [t]) = charges p win ts ++ [(t, ((spend p win ts).charge p t).2)] := by
  induction ts generalizing win with
  | nil => rfl
  | cons u ts ih =>
    rw [cons_append, charges, ih, charges]
    rfl

theorem spend_append (p : SupervisionPolicy) (win : Window) (ts : List Int) (t : Int) :
    spend p win (ts ++ [t]) = ((spend p win ts).charge p t).1 := by
  rw [spend, foldl_append]
  rfl

theorem charges_times (p : SupervisionPolicy) (win : Window) (ts : List Int) :
    (charges p win ts).map Prod.fst = ts := by
  induction ts generalizing win with
  | nil => rfl
  | cons t ts ih => rw [charges, map_cons, ih]

theorem restarts_append (cs cs' : List (Int × Bool)) : restarts (cs ++ cs') = restarts cs ++ restarts cs' := by
  rw [restarts, filter_append, map_append]
  rfl

section

open Supervision hiding SupervisionPolicy

def charged? : Event → Option (Int × Bool)
  | ⟨_, .charged now granted⟩ => some (now, granted)
  | _ => none

def chargesOf (log : List Event) : List (Int × Bool) := log.filterMap charged?

/-- The log's charges are what the window says, and the restarts counted are those granted, but for `owed`
granted last. -/
structure Tallied (p : SupervisionPolicy) (owed : Nat) (s : State) : Prop where
  charges_eq : ∃ ts, chargesOf s.log = charges p {} ts ∧ s.window = spend p {} ts
  counted : s.restartsTotal + owed = (restarts (chargesOf s.log)).length

variable {p : Supervision.SupervisionPolicy} {owed : Nat} {s s' : State} {m : Nat}

theorem Tallied.same (h : Tallied p.toSupervisionPolicy owed s) (s' : State)
    (hlog : chargesOf s'.log = chargesOf s.log)
    (hwindow : s'.window = s.window) (hrestarts : s'.restartsTotal = s.restartsTotal) :
    Tallied p.toSupervisionPolicy owed s' := by
  constructor
  · rw [hlog, hwindow]
    exact h.charges_eq
  · rw [hlog, hrestarts]
    exact h.counted

theorem Tallied.record (h : Tallied p.toSupervisionPolicy owed s) {kind : EventKind}
    (hnot : charged? ⟨m, kind⟩ = none) : Tallied p.toSupervisionPolicy owed (s.record m kind) := by
  have hlog : chargesOf (s.record m kind).log = chargesOf s.log := by
    rw [State.record, chargesOf, filterMap_append, filterMap_cons_none hnot, filterMap_nil,
      append_nil]
    rfl
  exact h.same _ hlog rfl rfl

theorem Tallied.charge (h : Tallied p.toSupervisionPolicy 0 s) (m : Nat) (now : Int) :
    Tallied p.toSupervisionPolicy (s.chargeRestart p m now).1.toNat (s.chargeRestart p m now).2 := by
  obtain ⟨⟨ts, hcharges, hwindow⟩, hcounted⟩ := h
  have hlog : chargesOf (s.chargeRestart p m now).2.log =
      chargesOf s.log ++ [(now, (s.window.charge p.toSupervisionPolicy now).2)] := by
    rw [State.chargeRestart, State.record, chargesOf, filterMap_append]
    rfl
  constructor
  · refine ⟨ts ++ [now], ?_, ?_⟩
    · rw [hlog, charges_append, hcharges, hwindow]
    · rw [spend_append, ← hwindow]
      rfl
  · rw [hlog, restarts_append, length_append, ← hcounted]
    change s.restartsTotal + (s.window.charge p.toSupervisionPolicy now).2.toNat = _
    cases (s.window.charge p.toSupervisionPolicy now).2 <;> rfl

theorem Tallied.countRestart (h : Tallied p.toSupervisionPolicy 1 s) :
    Tallied p.toSupervisionPolicy 0 s.countRestart :=
  ⟨h.charges_eq, h.counted⟩

theorem Tallied.deadLetter (h : Tallied p.toSupervisionPolicy owed s) (m : Nat) (err : Error) :
    Tallied p.toSupervisionPolicy owed (s.deadLetterAndReclaim m err) :=
  ((h.same { s with deadLetters := s.deadLetters + 1 } rfl rfl rfl).record rfl).record rfl

theorem Tallied.complete (h : Tallied p.toSupervisionPolicy owed s) (m : Nat) :
    Tallied p.toSupervisionPolicy owed (s.completeAndReclaim m) :=
  ((h.same { s with messagesProcessed := s.messagesProcessed + 1 } rfl rfl rfl).record rfl).record rfl

theorem Tallied.escalate (h : Tallied p.toSupervisionPolicy owed s) (m : Nat) :
    Tallied p.toSupervisionPolicy owed (s.doEscalate m) :=
  ((h.same { s with escalations := s.escalations + 1 } rfl rfl rfl).record rfl).same _ rfl rfl rfl

theorem Tallied.reconstruct (h : Tallied p.toSupervisionPolicy owed s) (m : Nat) (wired : Bool) :
    Tallied p.toSupervisionPolicy owed (s.reconstructNow m wired) := by
  have hnew : Tallied p.toSupervisionPolicy owed ({ s with used := s.used && !s.factory }.record m
      (.reconstructed wired)) := (h.same { s with used := s.used && !s.factory } rfl rfl rfl).record rfl
  cases wired with
  | true => exact hnew
  | false => exact hnew.escalate m

theorem Tallied.destroy (h : Tallied p.toSupervisionPolicy owed s) (m frame : Nat) :
    Tallied p.toSupervisionPolicy owed (s.destroy m frame) := h.record rfl

theorem Tallied.run (h : Tallied p.toSupervisionPolicy owed s) (m : Nat) (retry : Bool) (outcome : Outcome) :
    Tallied p.toSupervisionPolicy owed (s.run m retry outcome) := by
  have hran : Tallied p.toSupervisionPolicy owed ({ s with used := true }.record m (.ran retry (!s.used))) :=
    (h.same { s with used := true } rfl rfl rfl).record rfl
  generalize hs₁ : ({ s with used := true } : State).record m (.ran retry (!s.used)) = s₁ at hran
  have hframe : Tallied p.toSupervisionPolicy owed
      ({ s₁ with frames := s₁.frames + 1 }.record m (.created s₁.frames)) :=
    (hran.same { s₁ with frames := s₁.frames + 1 } rfl rfl rfl).record rfl
  subst hs₁
  cases outcome with
  | returned => exact hran
  | threw resource => exact hran
  | asyncDone => exact hframe
  | asyncFaulted resource => exact hframe
  | suspended => exact hframe

theorem Tallied.countFault (h : Tallied p.toSupervisionPolicy owed s) :
    Tallied p.toSupervisionPolicy owed s.countFault := h.same _ rfl rfl rfl

theorem Tallied.doRestart (h : Tallied p.toSupervisionPolicy 0 s) (m : Nat) (a : Attempt) :
    Tallied p.toSupervisionPolicy 0 (s.doRestart p m a) := by
  have hcharge := h.charge m a.now
  rw [State.doRestart]
  generalize s.chargeRestart p m a.now = charge at hcharge
  obtain ⟨granted, s₁⟩ := charge
  cases granted with
  | false => exact hcharge.escalate m
  | true => exact hcharge.countRestart.reconstruct m a.wired

theorem Tallied.handleRestartRetry (h : Tallied p.toSupervisionPolicy 0 s) (m : Nat) (attempts : Nat → Attempt)
    (left attempt : Nat) (err : Error) :
    Tallied p.toSupervisionPolicy 0 (s.handleRestartRetry p m attempts left attempt err) := by
  induction left generalizing s attempt err with
  | zero => exact h.deadLetter m err
  | succ left ih =>
    have hcharge := h.charge m (attempts attempt).now
    rw [State.handleRestartRetry]
    generalize s.chargeRestart p m (attempts attempt).now = charge at hcharge
    obtain ⟨granted, s₁⟩ := charge
    cases granted with
    | false => exact (hcharge.deadLetter m err).escalate m
    | true =>
      have hnew := hcharge.countRestart.reconstruct m (attempts attempt).wired
      simp only
      split
      · exact hnew.deadLetter m err
      · have hran := hnew.run m true (attempts attempt).outcome
        split
        · exact hran.complete m
        · exact ih hran.countFault _ _
        · exact (hran.destroy m _).complete m
        · exact ih (hran.destroy m _).countFault _ _
        · exact ih (hran.destroy m _).countFault _ _

theorem Tallied.onFault (h : Tallied p.toSupervisionPolicy 0 s) (m : Nat) (attempts : Nat → Attempt)
    (src : Reentrant.FailureSource) (err : Error) :
    Tallied p.toSupervisionPolicy 0 (s.onFaultSequential p m attempts src err) := by
  have hfault := h.countFault
  have hdead := hfault.deadLetter m err
  simp only [State.onFaultSequential]
  split
  · exact hfault.handleRestartRetry m attempts _ _ err
  · split
    · exact hdead
    · split
      · exact hdead
      · exact hdead.doRestart m _
      · exact hdead.same _ rfl rfl rfl
      · exact hdead.escalate m

theorem Tallied.dispatch (h : Tallied p.toSupervisionPolicy 0 s) (outcome : Outcome) (attempts : Nat → Attempt) :
    Tallied p.toSupervisionPolicy 0 (s.dispatch p outcome attempts) := by
  have hclaimed : Tallied p.toSupervisionPolicy 0 s.claimed := h.same _ rfl rfl rfl
  have hran := hclaimed.run s.dispatched false outcome
  simp only [State.dispatch]
  split
  · exact hclaimed.deadLetter _ _
  · split
    · exact hran.complete _
    · exact hran.onFault _ _ _ _
    · exact (hran.destroy _ _).complete _
    · exact (hran.destroy _ _).onFault _ _ _ _
    · exact hran.same _ rfl rfl rfl

theorem Tallied.step (h : Tallied p.toSupervisionPolicy 0 s) (label : Label) :
    Tallied p.toSupervisionPolicy 0 (step p s label) := by
  cases label with
  | dispatch outcome attempts =>
    rw [Supervision.step]
    split
    · exact h.dispatch outcome attempts
    · exact h
  | resume resumption attempts =>
    rw [Supervision.step]
    split
    · exact h
    · next m frame _ =>
      have hfree : Tallied p.toSupervisionPolicy 0 ({ s with parked := none }.destroy m frame) :=
        (h.same { s with parked := none } rfl rfl rfl).destroy m frame
      cases resumption with
      | suspendedAgain => exact h
      | done => exact hfree.complete m
      | faulted resource => exact hfree.onFault m attempts _ _
      | threw => exact hfree.onFault m attempts _ _

theorem tallied_run (p : Supervision.SupervisionPolicy) (factory : Bool) (labels : List Label) :
    Tallied p.toSupervisionPolicy 0 (run p factory labels) := by
  induction labels using List.reverseRecOn with
  | nil => exact ⟨⟨[], rfl, rfl⟩, rfl⟩
  | append_singleton labels label ih =>
    rw [run, foldl_append]
    exact ih.step label

end

section

open Reentrant

variable {M W P : Type} {cfg : Config} {s s' : State M W P}

/-- The charge that a step of a Reentrant activation makes, if it makes one: a fault that asks for a restart
outside an episode. -/
def chargeAt (cfg : Config) (s : State M W P) : Label M W P → Option (Int × Bool)
  | .fault w src now =>
    match s.worker w with
    | .handler _ _ f =>
      if f ∈ s.guards ∨ src.transient ∨ cfg.sup.decision ≠ .restart ∨ s.restarting then none
      else some (now, (s.window.charge cfg.sup now).2)
    | _ => none
  | _ => none

def chargesAlong [DecidableEq M] [DecidableEq W] [DecidableEq P] (cfg : Config) (s : State M W P) :
    List (Label M W P) → List (Int × Bool)
  | [] => []
  | a :: labels =>
    match step cfg s a with
    | none => []
    | some s' => (chargeAt cfg s a).toList ++ chargesAlong cfg s' labels

attribute [local grind =] State.setWorker State.setCaller
attribute [local grind] stepDrainReady stepDequeue drained maybeResumeWaiter finishRestartIfDrained quiesced
  stepAdmit State.fireCancelAll State.deadLetter State.doStop doRestartReentrant onFaultReentrant

theorem stepWorker_budget [DecidableEq M] [DecidableEq W] {w : W} {ok : Bool} (h : stepWorker cfg s w ok = some s') :
    s'.window = s.window ∧ s'.episodes = s.episodes := by
  unfold stepWorker at h
  grind

theorem stepFault_budget [DecidableEq W] {w : W} {src : FailureSource} {now : Int}
    (h : stepFault cfg s w src now = some s') :
    match chargeAt cfg s (.fault w src now : Label M W P) with
    | none => s'.window = s.window ∧ s'.episodes = s.episodes
    | some (now, granted) => granted = (s.window.charge cfg.sup now).2 ∧
        s'.window = (s.window.charge cfg.sup now).1 ∧ s'.episodes = s.episodes + granted.toNat := by
  unfold stepFault at h
  unfold chargeAt
  grind

theorem step_budget [DecidableEq M] [DecidableEq W] [DecidableEq P] {a : Label M W P}
    (h : step cfg s a = some s') :
    match chargeAt cfg s a with
    | none => s'.window = s.window ∧ s'.episodes = s.episodes
    | some (now, granted) => granted = (s.window.charge cfg.sup now).2 ∧
        s'.window = (s.window.charge cfg.sup now).1 ∧ s'.episodes = s.episodes + granted.toNat := by
  cases a with
  | fault w src now => exact stepFault_budget h
  | worker w ok => exact stepWorker_budget h
  | post p m => grind [step, chargeAt, stepPost]
  | completeOne p => grind [step, chargeAt, stepCompleteOne]
  | watchdog p expired => grind [step, chargeAt, stepWatchdog]
  | caller p => grind [step, chargeAt, stepCaller]
  | pauseAdmission => grind [step, chargeAt, stepPause]
  | resumeAdmission => grind [step, chargeAt, stepResume]
  | select w => grind [step, chargeAt, stepSelect]
  | quiesce w mode => grind [step, chargeAt, stepQuiesce]
  | release w => grind [step, chargeAt, stepRelease]
  | suspend w => grind [step, chargeAt, stepSuspend]
  | finish w => grind [step, chargeAt, stepFinish]

/-- The charges along a run are what the window says, and the episodes opened are those granted. -/
theorem chargesAlong_eq [DecidableEq M] [DecidableEq W] [DecidableEq P] {labels : List (Label M W P)}
    (hrun : Machine.run (step cfg) s labels = some s') :
    (∃ ts, chargesAlong cfg s labels = charges cfg.sup s.window ts ∧ s'.window = spend cfg.sup s.window ts) ∧
      s'.episodes = s.episodes + (restarts (chargesAlong cfg s labels)).length := by
  induction labels generalizing s with
  | nil =>
    cases hrun
    exact ⟨⟨[], rfl, rfl⟩, rfl⟩
  | cons a labels ih =>
    obtain ⟨mid, hstep, hrest⟩ := Machine.run_cons.mp hrun
    obtain ⟨⟨ts, hcharges, hwindow⟩, hepisodes⟩ := ih hrest
    have hbudget := step_budget hstep
    simp only [chargesAlong, hstep]
    cases hcharge : chargeAt cfg s a with
    | none =>
      rw [hcharge] at hbudget
      rw [hbudget.1] at hcharges hwindow
      exact ⟨⟨ts, hcharges, hwindow⟩, by rw [hepisodes, hbudget.2]; rfl⟩
    | some charge =>
      obtain ⟨now, granted⟩ := charge
      rw [hcharge] at hbudget
      obtain ⟨hgranted, hwindow', hepisodes'⟩ := hbudget
      rw [hwindow'] at hcharges hwindow
      refine ⟨⟨now :: ts, ?_, ?_⟩, ?_⟩
      · rw [charges, ← hgranted, hcharges]
        rfl
      · rw [hwindow]
        rfl
      · rw [hepisodes, hepisodes', restarts_append, length_append, add_assoc]
        cases granted <;> rfl

end

/-- `OnFailure<Decision, MaxRestarts<n, Within<ms>>>`: the budget is kept in 32 bits, the window in
nanoseconds. -/
def maxRestarts (decision : Reentrant.SupervisionDirective) (n : Nat) (ms : Int) : SupervisionPolicy :=
  { decision, maxRestarts := n % 2 ^ 32, windowNs := ms * 1000000 }

/-- Sequential with any number of retries, or Reentrant: if the clock does not go back and the times of the
charges are steady, then at most `n` restarts are within any interval of the window's length, and the budget is
refused only behind `n` restarts within the last one. -/
theorem restarts_within_budget (decision : Reentrant.SupervisionDirective) (n : Nat) (ms : Int) (hms : 0 < ms) :
    (∀ (retries : Nat) (factory : Bool) (labels : List Supervision.Label),
      let s := Supervision.run { maxRestarts decision n ms with maxAskRetries := retries } factory labels
      let ts := (chargesOf s.log).map Prod.fst
      ts.Pairwise (· ≤ ·) → Steady n (ms * 1000000) ts →
        Limited n (ms * 1000000) (chargesOf s.log) ∧ s.restartsTotal = (restarts (chargesOf s.log)).length) ∧
    ∀ (M W P : Type) [DecidableEq M] [DecidableEq W] [DecidableEq P] (cfg : Reentrant.Config)
      (labels : List (Reentrant.Label M W P)) (s : Reentrant.State M W P),
      cfg.sup = maxRestarts decision n ms → Machine.run (Reentrant.step cfg) {} labels = some s →
      let ts := (chargesAlong cfg {} labels).map Prod.fst
      ts.Pairwise (· ≤ ·) → Steady n (ms * 1000000) ts →
        Limited n (ms * 1000000) (chargesAlong cfg {} labels) ∧
          s.episodes = (restarts (chargesAlong cfg {} labels)).length := by
  have hw : 0 < (maxRestarts decision n ms).windowNs := Int.mul_pos hms (by decide)
  constructor
  · intro retries factory labels s ts hsorted hsteady
    obtain ⟨⟨times, hcharges, _⟩, hcounted⟩ :=
      tallied_run { maxRestarts decision n ms with maxAskRetries := retries } factory labels
    have htimes : ts = times := by
      change (chargesOf s.log).map Prod.fst = times
      rw [hcharges, charges_times]
    rw [htimes] at hsorted hsteady
    refine ⟨?_, hcounted⟩
    rw [hcharges]
    exact limited_of_steady hw rfl hsorted hsteady
  · intro M W P _ _ _ cfg labels s hsup hrun ts hsorted hsteady
    obtain ⟨⟨times, hcharges, _⟩, hepisodes⟩ := chargesAlong_eq hrun
    have htimes : ts = times := by
      change (chargesAlong cfg {} labels).map Prod.fst = times
      rw [hcharges, charges_times]
    rw [htimes] at hsorted hsteady
    refine ⟨?_, ?_⟩
    · rw [hcharges, hsup]
      exact limited_of_steady hw rfl hsorted hsteady
    · rw [hepisodes]
      exact zero_add _

def throwsAt (ts : List Int) : List Supervision.Label :=
  ts.map fun t => .dispatch (.threw none) fun _ => { now := t * 1000000 }

def twoAtOnce : Reentrant.Config :=
  { maxConcurrency := 2, budget := 64, busySpinLimit := 4, sup := maxRestarts .restart 2 100 }

def faultsOnce (now : Int) : List (Reentrant.Label Nat Unit Bool) :=
  List.flatten [[.post false 1], List.replicate 4 (.caller false), [.select ()], List.replicate 12 (.worker () true),
    [.fault () .handlerThrow now]]

/-- Two restarts in one window and one in the next, and one restart of a Reentrant activation. -/
theorem restarts_within_budget_apart :
    Limited 2 (100 * 1000000) (chargesOf (Supervision.run { maxRestarts .restart 2 100 with maxAskRetries := 0 } true
      (throwsAt [0, 99, 250])).log) ∧
    Limited 2 (100 * 1000000) (chargesAlong twoAtOnce {} (faultsOnce 7)) := by
  have hbudget := restarts_within_budget .restart 2 100 (by decide)
  constructor
  · have htimes : (chargesOf (Supervision.run { maxRestarts .restart 2 100 with maxAskRetries := 0 } true
        (throwsAt [0, 99, 250])).log).map Prod.fst = [0, 99000000, 250000000] := by decide +kernel
    refine (hbudget.1 0 true (throwsAt [0, 99, 250]) ?_ ?_).1
    · rw [htimes]
      decide
    · rw [htimes]
      exact ⟨by decide, by decide, by decide⟩
  · have hrun : (Machine.run (Reentrant.step twoAtOnce) {} (faultsOnce 7)).isSome := by decide +kernel
    obtain ⟨s, hs⟩ := Option.isSome_iff_exists.mp hrun
    have htimes : (chargesAlong twoAtOnce {} (faultsOnce 7)).map Prod.fst = [7] := by decide +kernel
    refine (hbudget.2 Nat Unit Bool twoAtOnce (faultsOnce 7) s rfl hs ?_ ?_).1
    · rw [htimes]
      decide
    · rw [htimes]
      exact ⟨by decide, by decide, by decide⟩

/-- `MaxRestarts<2, Within<100>>`, and faults 0, 99, 101 and 102 milliseconds into the run: the last three are
all restarted. -/
theorem burst_over_edge :
    ((chargesOf (Supervision.run { maxRestarts .restart 2 100 with maxAskRetries := 0 } true
      (throwsAt [0, 99, 101, 102])).log).map Prod.fst).Pairwise (· ≤ ·) ∧
    ¬ Limited 2 (100 * 1000000) (chargesOf
      (Supervision.run { maxRestarts .restart 2 100 with maxAskRetries := 0 } true
      (throwsAt [0, 99, 101, 102])).log) := by
  have hcharges : chargesOf (Supervision.run { maxRestarts .restart 2 100 with maxAskRetries := 0 } true
      (throwsAt [0, 99, 101, 102])).log =
        [(0, true), (99000000, true), (101000000, true), (102000000, true)] := by decide +kernel
  rw [hcharges]
  constructor
  · decide
  · intro h
    have hle := h.atMost 99000000
    revert hle
    decide

end Quark.RestartBudget
