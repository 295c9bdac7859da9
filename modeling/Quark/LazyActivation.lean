import Mathlib.Algebra.Group.Nat.Defs
import Mathlib.Data.List.Basic
import Mathlib.Data.List.Count

/-! The lazy-activation broker of `engine.hpp`: `handle_wake` on one shard, with the one point at which a step
may fail or throw, and what becomes of the actor and of the first message. Objects are numbered: a number is
one object, not one address. -/
set_option linter.unusedSectionVars false

namespace Quark.LazyActivation

open List

/-- An actor, a schedulable or an activation on the heap. -/
abbrev Obj := Nat

/-- What `handle_wake` reads of a type's metadata. -/
structure ActorMetadata where
  wire : Bool := false
  scope : Bool := false
  fenceAcquire : Bool := false
  recover : Bool := false
  flush : Bool := false
  idleTimeoutMs : Nat := 0
  band : Nat := 0
  drainBudget : Nat := 0
  deriving DecidableEq, Repr

structure EngineConfig where
  idleTickMs : Nat := 10
  drainBudget : Nat := 64
  bands : Nat := 1
  deriving DecidableEq, Repr

structure Activation where
  actor : Obj
  /-- the token of the flush sink, if there is one -/
  deactivateFlush : Option Nat := none
  idleTicks : Nat := 0
  deriving DecidableEq, Repr

structure Schedulable where
  self : Obj
  band : Nat
  budget : Nat
  deriving DecidableEq, Repr

/-- A record of `lazy_owned`; its actor is null once it was moved from. -/
structure LazyOwned (Id : Type) where
  actor : Option Obj
  act : Option Activation
  sched : Option Schedulable
  id : Id
  deriving DecidableEq, Repr

structure Wake (Id Msg : Type) where
  id : Id
  first : Msg
  deriving DecidableEq, Repr

/-- The points at which `handle_wake` may fail or throw. -/
inductive Fault
  | construct
  | wireThrew
  | wireFailed
  | fenceThrew
  | fenceFailed
  | recoverThrew
  | recoverFailed
  | makeActivation
  | typeCell
  | buildSchedulable
  /-- `lazy_owned` has no memory for its node -/
  | emplaceNode
  /-- the node is there, and the table cannot grow for it -/
  | emplaceRehash
  | insert
  deriving DecidableEq, Repr

/-- A shard, with the counts of the objects made so far and of the tokens issued, and what was done to actors
and messages. -/
structure Shard (Id Msg : Type) where
  idTable : List (Id × Obj) := []
  lazyOwned : List (Obj × LazyOwned Id) := []
  objects : Nat := 0
  tokens : Nat := 0
  constructed : List Obj := []
  destroyed : List Obj := []
  posted : List (Obj × Msg) := []
  reclaimed : List Msg := []

variable {Id Msg : Type} [DecidableEq Id]

def LazyOwned.move (lo : LazyOwned Id) : LazyOwned Id × LazyOwned Id :=
  (lo, { lo with actor := none, act := none, sched := none })

namespace Shard

/-- `ShardIdTable::find`: the newest entry of that id. -/
def find (sh : Shard Id Msg) (id : Id) : Option Obj := (sh.idTable.find? fun e => e.1 = id).map Prod.snd

def post (sh : Shard Id Msg) (s : Obj) (d : Msg) : Shard Id Msg := { sh with posted := (s, d) :: sh.posted }

def reclaim (sh : Shard Id Msg) (d : Msg) : Shard Id Msg := { sh with reclaimed := d :: sh.reclaimed }

def destroy (sh : Shard Id Msg) (a : Obj) : Shard Id Msg := { sh with destroyed := a :: sh.destroyed }

def construct (sh : Shard Id Msg) : Shard Id Msg :=
  { sh with objects := sh.objects + 1, constructed := sh.objects :: sh.constructed }

def unwind (sh : Shard Id Msg) (lo : LazyOwned Id) : Shard Id Msg :=
  match lo.actor with
  | some a => sh.destroy a
  | none => sh

end Shard

/-- What the `catch` block sees of `handle_wake`. -/
structure Frame (Id Msg : Type) where
  sh : Shard Id Msg
  actor : Option Obj := none
  owned : Bool := false

/-- The body of the `try` block. -/
abbrev Try (Id Msg : Type) := ExceptT Unit (StateM (Frame Id Msg))

def may (fault : Option Fault) (point : Fault) : Try Id Msg Unit :=
  if fault = some point then throw () else pure ()

def onShard (f : Shard Id Msg → Shard Id Msg) : Try Id Msg Unit := modify fun fr => { fr with sh := f fr.sh }

/-- `false` where the wire failed or there is no scope to wire from. -/
def wire (m : ActorMetadata) (fault : Option Fault) : Try Id Msg Bool := do
  if !m.wire then return true
  if !m.scope then return false
  may fault .wireThrew
  return fault ≠ some .wireFailed

def acquireFence (m : ActorMetadata) (fault : Option Fault) : Try Id Msg (Option Nat) := do
  if !m.fenceAcquire then return some 0
  may fault .fenceThrew
  if fault = some .fenceFailed then return none
  onShard fun sh => { sh with tokens := sh.tokens + 1 }
  return some (← get).sh.tokens

def recover (m : ActorMetadata) (fault : Option Fault) : Try Id Msg Bool := do
  if !m.recover then return true
  may fault .recoverThrew
  return fault ≠ some .recoverFailed

def idleTicks (cfg : EngineConfig) (m : ActorMetadata) : Nat :=
  if m.idleTimeoutMs = 0 then 0 else max 1 (m.idleTimeoutMs / cfg.idleTickMs) % 2 ^ 32

def buildSchedulable (cfg : EngineConfig) (m : ActorMetadata) (self : Obj) : Schedulable where
  self := self
  band := if m.band < cfg.bands then m.band else cfg.bands - 1
  budget := if m.drainBudget ≠ 0 then m.drainBudget else cfg.drainBudget

/-- `lazy_owned.emplace(raw, std::move(lo))` and the end of the scope of `lo`. -/
def emplace (fault : Option Fault) (raw : Obj) (lo : LazyOwned Id) : Try Id Msg Unit := do
  if fault = some .emplaceNode then
    onShard fun sh => sh.unwind lo
    throw ()
  let (node, left) := lo.move
  if fault = some .emplaceRehash then
    onShard fun sh => (sh.unwind node).unwind left
    throw ()
  onShard fun sh => { sh with lazyOwned := (raw, node) :: sh.lazyOwned }.unwind left

/-- From the activation to the record in the id table. -/
def publish (cfg : EngineConfig) (m : ActorMetadata) (fault : Option Fault) (w : Wake Id Msg) (actor : Obj)
    (fence : Nat) : Try Id Msg Unit := do
  may fault .makeActivation
  let act : Activation :=
    { actor, deactivateFlush := if m.flush then some fence else none, idleTicks := idleTicks cfg m }
  may fault .typeCell
  may fault .buildSchedulable
  let raw := (← get).sh.objects
  onShard fun sh => { sh with objects := sh.objects + 1 }
  emplace fault raw { actor := some actor, act := some act, sched := some (buildSchedulable cfg m raw), id := w.id }
  modify fun fr => { fr with owned := true }
  may fault .insert
  onShard fun sh => { sh with idTable := (w.id, raw) :: sh.idTable }
  onShard fun sh => sh.post raw w.first

def giveUp (actor : Obj) (w : Wake Id Msg) : Try Id Msg Unit :=
  onShard fun sh => (sh.destroy actor).reclaim w.first

def tryWake (cfg : EngineConfig) (m : ActorMetadata) (fault : Option Fault) (w : Wake Id Msg) : Try Id Msg Unit := do
  may fault .construct
  let actor := (← get).sh.objects
  modify fun fr => { fr with sh := fr.sh.construct, actor := some actor }
  if !(← wire m fault) then giveUp actor w else
    match ← acquireFence m fault with
    | none => giveUp actor w
    | some fence => if !(← recover m fault) then giveUp actor w else publish cfg m fault w actor fence

def handleWake (cfg : EngineConfig) (m : ActorMetadata) (fault : Option Fault) (sh : Shard Id Msg)
    (w : Wake Id Msg) : Shard Id Msg :=
  match sh.find w.id with
  | some existing => sh.post existing w.first
  | none =>
    match (tryWake cfg m fault w).run.run { sh } with
    | (.ok (), fr) => fr.sh
    | (.error (), fr) =>
      match fr.owned, fr.actor with
      | false, some actor => (fr.sh.destroy actor).reclaim w.first
      | _, _ => fr.sh.reclaim w.first

def InsertionFails (m : ActorMetadata) (fault : Option Fault) : Prop :=
  (m.wire = true → m.scope = true) ∧ (fault = some .emplaceNode ∨ fault = some .emplaceRehash ∨ fault = some .insert)

/-- The shard with its new actor, which nothing refers to yet. -/
structure Made (sh sh' : Shard Id Msg) : Prop where
  idTable : sh'.idTable = sh.idTable
  lazyOwned : sh'.lazyOwned = sh.lazyOwned
  objects : sh.objects < sh'.objects
  constructed : sh'.constructed = sh.objects :: sh.constructed
  destroyed : sh'.destroyed = sh.destroyed
  posted : sh'.posted = sh.posted
  reclaimed : sh'.reclaimed = sh.reclaimed

namespace Shard

def own (sh : Shard Id Msg) (raw : Obj) (lo : LazyOwned Id) : Shard Id Msg :=
  { sh with lazyOwned := (raw, lo) :: sh.lazyOwned }

end Shard

/-- How the `try` block ends. -/
inductive Ends (sh : Shard Id Msg) (m : ActorMetadata) (fault : Option Fault) (w : Wake Id Msg) :
    Except Unit Unit × Frame Id Msg → Prop
  | nothing (hnot : ¬ InsertionFails m fault) : Ends sh m fault w (.error (), { sh })
  | gaveUp (sh' : Shard Id Msg) (hmade : Made sh sh') (hnot : ¬ InsertionFails m fault) :
      Ends sh m fault w (.ok (), { sh := (sh'.destroy sh.objects).reclaim w.first, actor := some sh.objects })
  | threw (sh' : Shard Id Msg) (hmade : Made sh sh') (hnot : ¬ InsertionFails m fault) :
      Ends sh m fault w (.error (), { sh := sh', actor := some sh.objects })
  | notEmplaced (sh' : Shard Id Msg) (hmade : Made sh sh') (hfails : InsertionFails m fault) :
      Ends sh m fault w (.error (), { sh := sh'.destroy sh.objects, actor := some sh.objects })
  | notInserted (sh' : Shard Id Msg) (raw : Obj) (lo : LazyOwned Id) (hmade : Made sh sh') (hlt : raw < sh'.objects)
      (hlo : lo.actor = some sh.objects) (hfails : InsertionFails m fault) :
      Ends sh m fault w (.error (), { sh := sh'.own raw lo, actor := some sh.objects, owned := true })
  | published (sh' : Shard Id Msg) (raw : Obj) (lo : LazyOwned Id) (hmade : Made sh sh') (hlt : raw < sh'.objects)
      (hlo : lo.actor = some sh.objects) (hnot : ¬ InsertionFails m fault) :
      Ends sh m fault w (.ok (),
        { sh := { sh'.own raw lo with idTable := (w.id, raw) :: sh.idTable }.post raw w.first,
          actor := some sh.objects, owned := true })

section

variable {cfg : EngineConfig} {m : ActorMetadata} {fault : Option Fault} {w : Wake Id Msg} {fr : Frame Id Msg}

theorem bind_run {α β : Type} (x : Try Id Msg α) (f : α → Try Id Msg β) (fr : Frame Id Msg) :
    (x >>= f).run.run fr =
      match x.run.run fr with
      | (.ok a, fr') => (f a).run.run fr'
      | (.error e, fr') => (.error e, fr') := by
  rw [ExceptT.run_bind, StateT.run_bind]
  rcases x.run.run fr with ⟨r | r, fr'⟩ <;> rfl

theorem get_run (fr : Frame Id Msg) : (get : Try Id Msg _).run.run fr = (.ok fr, fr) := rfl

theorem modify_run (f : Frame Id Msg → Frame Id Msg) (fr : Frame Id Msg) :
    (modify f : Try Id Msg _).run.run fr = (.ok (), f fr) := rfl

theorem onShard_run (f : Shard Id Msg → Shard Id Msg) (fr : Frame Id Msg) :
    (onShard f).run.run fr = (.ok (), { fr with sh := f fr.sh }) := rfl

theorem may_run (fault : Option Fault) (point : Fault) (fr : Frame Id Msg) :
    (may fault point).run.run fr = (if fault = some point then .error () else .ok (), fr) := by
  rw [may]
  split <;> rfl

theorem wire_run (fr : Frame Id Msg) :
    (wire m fault).run.run fr =
      (if m.wire ∧ m.scope ∧ fault = some .wireThrew then .error ()
        else .ok (decide (m.wire = true → m.scope = true ∧ fault ≠ some .wireFailed)), fr) := by
  unfold wire may
  cases m.wire <;> cases m.scope <;> by_cases hf : fault = some .wireThrew <;> simp [hf] <;> rfl

theorem recover_run (fr : Frame Id Msg) :
    (recover m fault).run.run fr =
      (if m.recover ∧ fault = some .recoverThrew then .error ()
        else .ok (decide (m.recover = true → fault ≠ some .recoverFailed)), fr) := by
  unfold recover may
  cases m.recover <;> by_cases hf : fault = some .recoverThrew <;> simp [hf] <;> rfl

theorem acquireFence_run (m : ActorMetadata) (fault : Option Fault) (fr : Frame Id Msg) : ∃ fence tokens,
    (acquireFence m fault).run.run fr =
      (if m.fenceAcquire ∧ fault = some .fenceThrew then .error ()
        else .ok (if m.fenceAcquire ∧ fault = some .fenceFailed then none else some fence),
        { fr with sh := { fr.sh with tokens := tokens } }) := by
  unfold acquireFence may onShard
  cases m.fenceAcquire
  · exact ⟨0, fr.sh.tokens, by simp; rfl⟩
  · by_cases hthrew : fault = some .fenceThrew
    · exact ⟨0, fr.sh.tokens, by simp [hthrew]; rfl⟩
    · by_cases hfailed : fault = some .fenceFailed
      · exact ⟨0, fr.sh.tokens, by simp [hfailed]; rfl⟩
      · exact ⟨fr.sh.tokens + 1, fr.sh.tokens + 1, by simp [hthrew, hfailed]; rfl⟩

theorem emplace_run (raw a : Obj) (lo : LazyOwned Id) (hlo : lo.actor = some a) (fr : Frame Id Msg) :
    (emplace fault raw lo).run.run fr =
      if fault = some .emplaceNode ∨ fault = some .emplaceRehash then
        (.error (), { fr with sh := fr.sh.destroy a })
      else (.ok (), { fr with sh := fr.sh.own raw lo }) := by
  unfold emplace onShard Shard.unwind LazyOwned.move
  by_cases hnode : fault = some .emplaceNode
  · simp [hnode, hlo]
    rfl
  · by_cases hrehash : fault = some .emplaceRehash
    · simp [hrehash, hlo]
      rfl
    · simp [hnode, hrehash]
      rfl

variable {sh sh' : Shard Id Msg}

theorem Made.more (h : Made sh sh') {objects tokens : Nat} (hobjects : sh'.objects ≤ objects) :
    Made sh { sh' with objects := objects, tokens := tokens } :=
  ⟨h.idTable, h.lazyOwned, Nat.lt_of_lt_of_le h.objects hobjects, h.constructed, h.destroyed, h.posted, h.reclaimed⟩

theorem not_insertionFails {point : Fault} (hpoint : fault = some point)
    (hne : point ≠ .emplaceNode ∧ point ≠ .emplaceRehash ∧ point ≠ .insert) : ¬ InsertionFails m fault := by
  rintro ⟨_, h | h | h⟩ <;> simp_all

theorem publish_ends (hmade : Made sh sh') (hscope : m.wire = true → m.scope = true) (fence : Nat) :
    Ends sh m fault w ((publish cfg m fault w sh.objects fence).run.run { sh := sh', actor := some sh.objects }) := by
  unfold publish
  by_cases h1 : fault = some .makeActivation
  · simp only [bind_run, may_run, if_pos h1]
    exact .threw sh' hmade (not_insertionFails h1 (by decide))
  by_cases h2 : fault = some .typeCell
  · simp only [bind_run, may_run, if_neg h1, if_pos h2]
    exact .threw sh' hmade (not_insertionFails h2 (by decide))
  by_cases h3 : fault = some .buildSchedulable
  · simp only [bind_run, may_run, if_neg h1, if_neg h2, if_pos h3]
    exact .threw sh' hmade (not_insertionFails h3 (by decide))
  simp only [bind_run, may_run, if_neg h1, if_neg h2, if_neg h3, get_run, onShard_run, modify_run]
  have hnext : Made sh { sh' with objects := sh'.objects + 1 } := hmade.more (Nat.le_succ _)
  rw [emplace_run _ sh.objects _ rfl]
  by_cases h4 : fault = some .emplaceNode ∨ fault = some .emplaceRehash
  · rw [if_pos h4]
    exact .notEmplaced _ hnext ⟨hscope, by tauto⟩
  rw [if_neg h4]
  by_cases h5 : fault = some .insert
  · simp only [if_pos h5]
    exact .notInserted _ _ _ hnext (Nat.lt_succ_self _) rfl ⟨hscope, by tauto⟩
  simp only [if_neg h5]
  have hend : Ends sh m fault w _ := Ends.published _ sh'.objects
    { actor := some sh.objects,
      act := some
        { actor := sh.objects, deactivateFlush := if m.flush then some fence else none,
          idleTicks := idleTicks cfg m },
      sched := some (buildSchedulable cfg m sh'.objects), id := w.id } hnext (Nat.lt_succ_self _) rfl
      (fun h => by rcases h.2 with h | h | h <;> tauto)
  rw [← hmade.idTable] at hend
  exact hend

theorem tryWake_ends (cfg : EngineConfig) (m : ActorMetadata) (fault : Option Fault) (w : Wake Id Msg)
    (sh : Shard Id Msg) : Ends sh m fault w ((tryWake cfg m fault w).run.run { sh }) := by
  unfold tryWake
  by_cases h0 : fault = some .construct
  · simp only [bind_run, may_run, if_pos h0]
    exact .nothing (not_insertionFails h0 (by decide))
  simp only [bind_run, may_run, if_neg h0, get_run, modify_run, wire_run]
  have hmade : Made sh sh.construct := by
    constructor <;> first | rfl | exact Nat.lt_succ_self _
  by_cases h1 : m.wire ∧ m.scope ∧ fault = some .wireThrew
  · rw [if_pos h1]
    exact .threw _ hmade (not_insertionFails h1.2.2 (by decide))
  rw [if_neg h1]
  by_cases h2 : m.wire = true → m.scope = true ∧ fault ≠ some .wireFailed
  · have hscope : m.wire = true → m.scope = true := fun hw => (h2 hw).1
    rw [decide_eq_true h2]
    obtain ⟨fence, tokens, hfence⟩ := acquireFence_run m fault
      ({ sh := sh.construct, actor := some sh.objects } : Frame Id Msg)
    simp only [Bool.not_true, Bool.false_eq_true, if_false, bind_run, hfence]
    have hissued : Made sh { sh.construct with tokens := tokens } := hmade.more (Nat.le_refl _)
    by_cases h3 : m.fenceAcquire ∧ fault = some .fenceThrew
    · rw [if_pos h3]
      exact .threw _ hissued (not_insertionFails h3.2 (by decide))
    rw [if_neg h3]
    by_cases h4 : m.fenceAcquire ∧ fault = some .fenceFailed
    · rw [if_pos h4]
      exact .gaveUp _ hissued (not_insertionFails h4.2 (by decide))
    rw [if_neg h4]
    simp only [bind_run, recover_run]
    by_cases h5 : m.recover ∧ fault = some .recoverThrew
    · rw [if_pos h5]
      exact .threw _ hissued (not_insertionFails h5.2 (by decide))
    rw [if_neg h5]
    by_cases h6 : m.recover = true → fault ≠ some .recoverFailed
    · rw [decide_eq_true h6]
      exact publish_ends hissued hscope fence
    · rw [decide_eq_false h6]
      have hfailed : fault = some .recoverFailed := by
        by_contra hne
        exact h6 fun _ => hne
      exact .gaveUp _ hissued (not_insertionFails hfailed (by decide))
  · rw [decide_eq_false h2]
    apply Ends.gaveUp _ hmade
    rintro ⟨hscope, hfails⟩
    apply h2
    intro hw
    refine ⟨hscope hw, ?_⟩
    rcases hfails with h | h | h <;> simp [h]

end

inductive Handled (sh : Shard Id Msg) (m : ActorMetadata) (fault : Option Fault) (w : Wake Id Msg) :
    Shard Id Msg → Prop
  | delivered (existing : Obj) (hfind : sh.find w.id = some existing) :
      Handled sh m fault w (sh.post existing w.first)
  | nothing (hnot : ¬ InsertionFails m fault) : Handled sh m fault w (sh.reclaim w.first)
  | dropped (sh' : Shard Id Msg) (hmade : Made sh sh') (hnot : ¬ InsertionFails m fault) :
      Handled sh m fault w ((sh'.destroy sh.objects).reclaim w.first)
  | destroyedTwice (sh' : Shard Id Msg) (hfind : sh.find w.id = none) (hmade : Made sh sh')
      (hfails : InsertionFails m fault) :
      Handled sh m fault w (((sh'.destroy sh.objects).destroy sh.objects).reclaim w.first)
  | unreached (sh' : Shard Id Msg) (raw : Obj) (lo : LazyOwned Id) (hfind : sh.find w.id = none)
      (hmade : Made sh sh') (hlt : raw < sh'.objects) (hlo : lo.actor = some sh.objects)
      (hfails : InsertionFails m fault) : Handled sh m fault w ((sh'.own raw lo).reclaim w.first)
  | published (sh' : Shard Id Msg) (raw : Obj) (lo : LazyOwned Id) (hfind : sh.find w.id = none)
      (hmade : Made sh sh') (hlt : raw < sh'.objects) (hlo : lo.actor = some sh.objects)
      (hnot : ¬ InsertionFails m fault) :
      Handled sh m fault w ({ sh'.own raw lo with idTable := (w.id, raw) :: sh.idTable }.post raw w.first)

theorem handleWake_cases (cfg : EngineConfig) (m : ActorMetadata) (fault : Option Fault) (w : Wake Id Msg)
    (sh : Shard Id Msg) : Handled sh m fault w (handleWake cfg m fault sh w) := by
  rw [handleWake]
  cases hfind : sh.find w.id with
  | some existing => exact .delivered existing hfind
  | none =>
    have hends := tryWake_ends cfg m fault w sh
    revert hends
    generalize (tryWake cfg m fault w).run.run { sh } = r
    intro hends
    cases hends with
    | nothing hnot => exact .nothing hnot
    | gaveUp sh' hmade hnot => exact .dropped sh' hmade hnot
    | threw sh' hmade hnot => exact .dropped sh' hmade hnot
    | notEmplaced sh' hmade hfails => exact .destroyedTwice sh' hfind hmade hfails
    | notInserted sh' raw lo hmade hlt hlo hfails => exact .unreached sh' raw lo hfind hmade hlt hlo hfails
    | published sh' raw lo hmade hlt hlo hnot => exact .published sh' raw lo hfind hmade hlt hlo hnot

/-- The objects that the shard knows have been made. -/
structure Known (sh : Shard Id Msg) : Prop where
  owned : ∀ e ∈ sh.lazyOwned, e.1 < sh.objects ∧ ∀ a, e.2.actor = some a → a < sh.objects
  destroyed : ∀ a ∈ sh.destroyed, a < sh.objects
  constructed : ∀ a ∈ sh.constructed, a < sh.objects

/-- The records of `lazy_owned` that own the actor. -/
def owners (sh : Shard Id Msg) (a : Obj) : List (Obj × LazyOwned Id) :=
  sh.lazyOwned.filter fun e => e.2.actor = some a

/-- The actor is gone for good, or in the hands of the one record that the id table leads to. -/
def ActorSettled (sh : Shard Id Msg) (id : Id) (a : Obj) : Prop :=
  (sh.destroyed.count a = 1 ∧ owners sh a = []) ∨
    sh.destroyed.count a = 0 ∧ ∃ e, owners sh a = [e] ∧ sh.find id = some e.1

/-- The actor of this wake, if it made one, and the first message. -/
structure Settled (w : Wake Id Msg) (sh sh' : Shard Id Msg) : Prop where
  actor : sh'.constructed = sh.constructed ∨ ∃ a, sh'.constructed = a :: sh.constructed ∧ ActorSettled sh' w.id a
  message : (∃ s, sh'.posted = (s, w.first) :: sh.posted) ∧ sh'.reclaimed = sh.reclaimed ∨
    sh'.posted = sh.posted ∧ sh'.reclaimed = w.first :: sh.reclaimed

section

variable {cfg : EngineConfig} {m : ActorMetadata} {fault : Option Fault} {w : Wake Id Msg} {sh sh' : Shard Id Msg}

theorem Made.fresh (hknown : Known sh) (h : Made sh sh') :
    sh'.destroyed.count sh.objects = 0 ∧ owners sh' sh.objects = [] := by
  constructor
  · rw [h.destroyed, count_eq_zero]
    intro hmem
    exact Nat.lt_irrefl _ (hknown.destroyed _ hmem)
  · rw [owners, h.lazyOwned, filter_eq_nil_iff]
    intro e he hactor
    exact Nat.lt_irrefl _ ((hknown.owned e he).2 _ (of_decide_eq_true hactor))

theorem owners_own (sh : Shard Id Msg) (raw a : Obj) {lo : LazyOwned Id} (hlo : lo.actor = some a) :
    owners (sh.own raw lo) a = (raw, lo) :: owners sh a := by
  rw [owners, Shard.own, filter_cons_of_pos (by simp [hlo])]
  rfl

theorem Made.destroyed_once (hknown : Known sh) (h : Made sh sh') (w : Wake Id Msg) :
    Settled w sh ((sh'.destroy sh.objects).reclaim w.first) := by
  obtain ⟨hcount, howners⟩ := h.fresh hknown
  constructor
  · right
    refine ⟨sh.objects, h.constructed, Or.inl ⟨?_, howners⟩⟩
    change (sh.objects :: sh'.destroyed).count sh.objects = 1
    rw [count_cons_self, hcount]
  · exact Or.inr ⟨h.posted, congrArg _ h.reclaimed⟩

theorem Made.settled (h : Made sh sh') {last : Shard Id Msg} (hsettled : Settled w sh last)
    (hlast : last.constructed = sh'.constructed) : ActorSettled last w.id sh.objects := by
  rw [h.constructed] at hlast
  obtain hsame | ⟨a, hmade, hactor⟩ := hsettled.actor
  · rw [hsame] at hlast
    simp at hlast
  · rw [hmade] at hlast
    obtain ⟨rfl, -⟩ := List.cons.inj hlast
    exact hactor

/-- Destroyed by the unwinding of `lazy_owned.emplace`, and once more by the `catch` block. -/
theorem Made.destroyed_twice (hknown : Known sh) (h : Made sh sh') (w : Wake Id Msg) :
    ¬ Settled w sh (((sh'.destroy sh.objects).destroy sh.objects).reclaim w.first) := by
  obtain ⟨hcount, _⟩ := h.fresh hknown
  intro hsettled
  have hactor := h.settled hsettled rfl
  have htwice : (((sh'.destroy sh.objects).destroy sh.objects).reclaim w.first).destroyed.count sh.objects = 2 := by
    change (sh.objects :: sh.objects :: sh'.destroyed).count sh.objects = 2
    rw [count_cons_self, count_cons_self, hcount]
  rcases hactor with ⟨hone, _⟩ | ⟨hzero, _⟩ <;> omega

theorem Made.unreached (hknown : Known sh) (h : Made sh sh') (hfind : sh.find w.id = none) (raw : Obj)
    (lo : LazyOwned Id) :
    ¬ Settled w sh ((sh'.own raw lo).reclaim w.first) := by
  obtain ⟨hcount, _⟩ := h.fresh hknown
  have hnone : ((sh'.own raw lo).reclaim w.first).find w.id = none := by
    rw [← hfind, Shard.find, Shard.find]
    change (sh'.idTable.find? _).map _ = _
    rw [h.idTable]
  intro hsettled
  rcases h.settled hsettled rfl with ⟨hone, _⟩ | ⟨_, e, _, hreached⟩
  · have hzero : ((sh'.own raw lo).reclaim w.first).destroyed.count sh.objects = 0 := hcount
    omega
  · rw [hnone] at hreached
    cases hreached

theorem Made.reached (hknown : Known sh) (h : Made sh sh') (w : Wake Id Msg) (raw : Obj) {lo : LazyOwned Id}
    (hlo : lo.actor = some sh.objects) :
    Settled w sh ({ sh'.own raw lo with idTable := (w.id, raw) :: sh.idTable }.post raw w.first) := by
  obtain ⟨hcount, howners⟩ := h.fresh hknown
  constructor
  · right
    refine ⟨sh.objects, h.constructed, Or.inr ⟨hcount, (raw, lo), ?_, ?_⟩⟩
    · change owners (sh'.own raw lo) sh.objects = _
      rw [owners_own sh' raw _ hlo, howners]
    · simp [Shard.find, Shard.post]
  · exact Or.inl ⟨⟨raw, congrArg _ h.posted⟩, h.reclaimed⟩

/-- After every wake the actor and the message are settled exactly if neither insertion fails. -/
theorem wake_settles_iff (cfg : EngineConfig) (m : ActorMetadata) (fault : Option Fault) (w : Wake Id Msg)
    (sh : Shard Id Msg) (hknown : Known sh) :
    Settled w sh (handleWake cfg m fault sh w) ↔ (sh.find w.id = none → ¬ InsertionFails m fault) := by
  have hcases := handleWake_cases cfg m fault w sh
  revert hcases
  generalize handleWake cfg m fault sh w = sh''
  intro hcases
  cases hcases with
  | delivered existing hfind =>
    apply iff_of_true ⟨Or.inl rfl, Or.inl ⟨⟨existing, rfl⟩, rfl⟩⟩
    rw [hfind]
    nofun
  | nothing hnot => exact iff_of_true ⟨Or.inl rfl, Or.inr ⟨rfl, rfl⟩⟩ fun _ => hnot
  | dropped sh' hmade hnot => exact iff_of_true (hmade.destroyed_once hknown w) fun _ => hnot
  | destroyedTwice sh' hfind hmade hfails =>
    exact iff_of_false (hmade.destroyed_twice hknown w) fun h => h hfind hfails
  | unreached sh' raw lo hfind hmade _ _ hfails =>
    exact iff_of_false (hmade.unreached hknown hfind raw lo) fun h => h hfind hfails
  | published sh' raw lo _ hmade _ hlo hnot => exact iff_of_true (hmade.reached hknown w raw hlo) fun _ => hnot

end

/-- A wake of a new id, on an empty shard. -/
theorem wake_settles_iff_wired : Settled ({ id := 7, first := () } : Wake Nat Unit) {}
    (handleWake {} { wire := true, scope := true } (some .recoverThrew) {} { id := 7, first := () }) :=
  (wake_settles_iff {} { wire := true, scope := true } (some .recoverThrew) { id := 7, first := () } {}
    ⟨nofun, nofun, nofun⟩).mpr fun _ h => by rcases h.2 with h | h | h <;> cases h

/-- `lazy_owned` cannot grow: the unwinding destroys the actor, and then the `catch` block does. Then the id
table has no memory: the actor stays in a record that no id leads to, and the next wake makes another. -/
theorem insertion_fails_unsettled :
    (handleWake {} {} (some .emplaceRehash) {} ({ id := 7, first := () } : Wake Nat Unit)).destroyed = [0, 0] ∧
    (owners (handleWake {} {} (some .insert) {} ({ id := 7, first := () } : Wake Nat Unit)) 0).length = 1 ∧
    (handleWake {} {} (some .insert) {} ({ id := 7, first := () } : Wake Nat Unit)).find 7 = none ∧
    ¬ Settled ({ id := 7, first := () } : Wake Nat Unit) {}
      (handleWake {} {} (some .emplaceRehash) {} { id := 7, first := () }) ∧
    ¬ Settled ({ id := 7, first := () } : Wake Nat Unit) {}
      (handleWake {} {} (some .insert) {} { id := 7, first := () }) := by
  refine ⟨rfl, rfl, rfl, ?_, ?_⟩
  all_goals
    rintro ⟨hsame | ⟨a, hmade, hactor⟩, _⟩
    · cases hsame
    · cases hmade
      rcases hactor with ⟨hone, hnone⟩ | ⟨hzero, e, _, hreached⟩
      all_goals first | cases hone | cases hreached

section

variable {cfg : EngineConfig} {m : ActorMetadata} {fault : Option Fault} {w : Wake Id Msg} {sh sh' : Shard Id Msg}

theorem Made.known (h : Made sh sh') (hknown : Known sh) : Known sh' := by
  constructor
  · intro e he
    rw [h.lazyOwned] at he
    obtain ⟨hself, hactor⟩ := hknown.owned e he
    exact ⟨Nat.lt_trans hself h.objects, fun a ha => Nat.lt_trans (hactor a ha) h.objects⟩
  · intro a ha
    rw [h.destroyed] at ha
    exact Nat.lt_trans (hknown.destroyed a ha) h.objects
  · intro a ha
    rw [h.constructed] at ha
    rcases mem_cons.mp ha with rfl | ha
    · exact h.objects
    · exact Nat.lt_trans (hknown.constructed a ha) h.objects

theorem Known.destroy (h : Known sh) {a : Obj} (ha : a < sh.objects) : Known (sh.destroy a) := by
  constructor
  · exact h.owned
  · intro b hb
    rcases mem_cons.mp hb with rfl | hb
    · exact ha
    · exact h.destroyed b hb
  · exact h.constructed

theorem Known.own (h : Known sh) {raw a : Obj} {lo : LazyOwned Id} (hraw : raw < sh.objects)
    (hlo : lo.actor = some a) (ha : a < sh.objects) : Known (sh.own raw lo) := by
  constructor
  · intro e he
    rcases mem_cons.mp he with rfl | he
    · refine ⟨hraw, fun b hb => ?_⟩
      rw [hlo] at hb
      cases hb
      exact ha
    · exact h.owned e he
  · exact h.destroyed
  · exact h.constructed

theorem Known.handleWake (h : Known sh) (cfg : EngineConfig) (m : ActorMetadata) (fault : Option Fault)
    (w : Wake Id Msg) : Known (handleWake cfg m fault sh w) := by
  have hcases := handleWake_cases cfg m fault w sh
  revert hcases
  generalize LazyActivation.handleWake cfg m fault sh w = sh''
  intro hcases
  cases hcases with
  | delivered existing hfind => exact ⟨h.owned, h.destroyed, h.constructed⟩
  | nothing hnot => exact ⟨h.owned, h.destroyed, h.constructed⟩
  | dropped sh' hmade hnot =>
    have hkept := (hmade.known h).destroy hmade.objects
    exact ⟨hkept.owned, hkept.destroyed, hkept.constructed⟩
  | destroyedTwice sh' hfind hmade hfails =>
    have hkept := ((hmade.known h).destroy hmade.objects).destroy hmade.objects
    exact ⟨hkept.owned, hkept.destroyed, hkept.constructed⟩
  | unreached sh' raw lo hfind hmade hlt hlo hfails | published sh' raw lo hfind hmade hlt hlo hnot =>
    have hkept := (hmade.known h).own hlt hlo hmade.objects
    exact ⟨hkept.owned, hkept.destroyed, hkept.constructed⟩

end

end Quark.LazyActivation
