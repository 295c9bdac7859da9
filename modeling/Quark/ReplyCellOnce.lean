import Quark.ReplyCell

/-! Every ask gets the answer of its own responder, once, as long as no ask is dropped inside its `resolve`. -/
namespace Quark

open Function List

variable {R : Type}

namespace Future

def owns : Future R → Bool
  | .idle | .done _ => false
  | _ => true

def isOpen : Future R → Bool
  | .idle | .done _ | .clearing _ | .bumping _ | .resetting _ | .pushing _ => false
  | _ => true

def cleared : Future R → Bool
  | .bumping _ | .resetting _ | .pushing _ => true
  | _ => false

def result : Future R → Option (Result R)
  | .clearing res | .bumping res | .resetting res | .pushing res | .done res => res
  | _ => none

end Future

namespace Responder

def pending : Responder R → Bool
  | .armed | .called _ | .checked _ | .deposited => true
  | _ => false

def inWindow : Responder R → Bool
  | .checked _ | .deposited | .won | .handed _ _ | .notified _ _ => true
  | _ => false

def hasWon : Responder R → Bool
  | .won | .handed _ _ | .notified _ _ => true
  | _ => false

end Responder

/-- A future and a responder over the cell they share. -/
structure Joint (a : AskId) (k : Ask R) (c : ReplyCell R) : Prop where
  gen : k.future.isOpen = true → c.gen = k.gen
  pending : k.responder.pending = true → c.st ≠ .resolved ∧ k.future ≠ .finishing ∧ k.future.result = none
  waiter : k.responder.pending = true → k.future.isOpen = true → (c.st = .waiter ↔ k.future = .suspended)
  bare : k.responder.pending = true → k.responder ≠ .deposited → c.value = none
  deposited : k.responder = .deposited → c.value = k.supplied
  cont : k.future = .publishing ∨ k.future = .suspended → k.responder.pending = true ∨ k.responder = .won →
    c.cont = some a
  settled : k.responder.pending = false → k.future.isOpen = true → c.st = .resolved ∧ c.value = k.supplied
  won : k.responder.hasWon = true → k.future = .suspended
  handed : ∀ h sink, k.responder = .handed h sink ∨ k.responder = .notified h sink → h = some a
  lost : k.responder = .lost ∨ k.responder = .spent → k.future ≠ .suspended
  parked : k.responder = .spent → ∀ st, k.future ≠ .parked st
  loaded : ∀ st, k.future = .loaded st ∨ k.future = .parked st → st ≠ .resolved
  cleared : k.future.cleared = true → c.value = none
  supplied : k.responder ≠ .armed → k.supplied.isSome = true

/-- What holds of an ask with or without a cell. -/
structure Sound (k : Ask R) : Prop where
  window : k.responder.inWindow = true → k.future.isOpen = true
  armed : k.responder = .armed → k.supplied = none
  called : ∀ v, k.responder = .called v ∨ k.responder = .checked v → k.supplied = some v
  result : ∀ v, k.future.result = some v → k.supplied = some v
  resumes : k.resumes ≤ 1
  unresumed : k.future.isOpen = true → k.future ≠ .finishing → k.resumes = 0

namespace AskPool

structure Inv (s : AskPool R) : Prop where
  joint : ∀ a, (s.asks a).future.owns = true → Joint a (s.asks a) (s.cellOf a)
  sound : ∀ a, Sound (s.asks a)
  apart : ∀ a b, (s.asks a).future.owns = true → (s.asks b).future.owns = true →
    (s.asks a).cell = (s.asks b).cell → a = b
  placed : ∀ a, (s.asks a).future.owns = true → (s.asks a).cell < s.size ∧ (s.asks a).cell ∉ s.free
  nodup : s.free.Nodup
  bound : ∀ i ∈ s.free, i < s.size
  bare : ∀ i, i ∈ s.free ∨ s.size ≤ i → (s.cells i).value = none
  fault : s.fault = false

/-- No ask is dropped while its responder is inside `resolve`, past the check of the generation; and none passes that
check for an ask that is being dropped. -/
def Unraced (s : AskPool R) : AskLabel R → Prop
  | .drop a => (s.asks a).responder.inWindow = false
  | .check a => (s.cellOf a).gen = (s.asks a).gen → (s.asks a).future.isOpen = true
  | _ => True

section

variable {s s' : AskPool R} {a b : AskId} {k : Ask R} {c : ReplyCell R} {i : Nat}

theorem Inv.change (h : Inv s) {cells : Nat → ReplyCell R} (hcell : k.cell = (s.asks a).cell)
    (howns : k.future.owns = (s.asks a).future.owns)
    (hcells : ∀ i, (s.asks a).future.owns = false ∨ i ≠ (s.asks a).cell → cells i = s.cells i)
    (hjoint : (s.asks a).future.owns = true → Joint a k (cells (s.asks a).cell)) (hsound : Sound k) :
    Inv ({ s with cells }.setAsk a k) := by
  have hask : ∀ b, ({ s with cells }.setAsk a k).asks b = if b = a then k else s.asks b := fun b =>
    update_apply _ _ _ _
  have hplace : ∀ b, (({ s with cells }.setAsk a k).asks b).cell = (s.asks b).cell := fun b => by
    rw [hask]
    split
    · next hb => rw [hb, hcell]
    · rfl
  have howner : ∀ b, (({ s with cells }.setAsk a k).asks b).future.owns = (s.asks b).future.owns := fun b => by
    rw [hask]
    split
    · next hb => rw [hb, howns]
    · rfl
  refine ⟨fun b hb => ?_, fun b => ?_, fun b d hb hd hbd => ?_, fun b hb => ?_, h.nodup, h.bound,
    fun i hi => ?_, h.fault⟩
  · rw [howner] at hb
    rw [cellOf, hplace, hask]
    split
    · next hba =>
      subst hba
      exact hjoint hb
    · next hba =>
      have hsame : cells (s.asks b).cell = s.cells (s.asks b).cell := by
        refine hcells _ ?_
        by_cases hown : (s.asks a).future.owns = true
        · exact .inr fun heq => hba (h.apart b a hb hown heq)
        · exact .inl (Bool.eq_false_iff.mpr hown)
      change Joint b (s.asks b) (cells (s.asks b).cell)
      rw [hsame]
      exact h.joint b hb
  · rw [hask]
    split
    · exact hsound
    · exact h.sound b
  · rw [howner] at hb hd
    rw [hplace, hplace] at hbd
    exact h.apart b d hb hd hbd
  · rw [howner] at hb
    rw [hplace]
    exact h.placed b hb
  · change (cells i).value = none
    have hsame : cells i = s.cells i := by
      refine hcells _ ?_
      by_cases hown : (s.asks a).future.owns = true
      · obtain ⟨hlt, hfree⟩ := h.placed a hown
        refine .inr ?_
        rintro rfl
        exact hi.elim hfree fun hle => not_le.mpr hlt hle
      · exact .inl (Bool.eq_false_iff.mpr hown)
    rw [hsame]
    exact h.bare i hi

theorem Inv.setCell (h : Inv s) (hown : (s.asks a).future.owns = true) (hcell : k.cell = (s.asks a).cell)
    (howns : k.future.owns = true) (hjoint : Joint a k c) (hsound : Sound k) :
    Inv ((s.setCell (s.asks a).cell c).setAsk a k) := by
  refine h.change hcell (howns.trans hown.symm) (fun i hi => ?_) (fun _ => ?_) hsound
  · exact update_of_ne (hi.resolve_left (by rw [hown]; exact Bool.noConfusion)) _ _
  · rw [update_self]
    exact hjoint

theorem Inv.setAsk (h : Inv s) (hcell : k.cell = (s.asks a).cell) (howns : k.future.owns = (s.asks a).future.owns)
    (hjoint : (s.asks a).future.owns = true → Joint a k (s.cellOf a)) (hsound : Sound k) : Inv (s.setAsk a k) :=
  h.change hcell howns (fun _ _ => rfl) hjoint hsound

end

end AskPool

section

variable {a : AskId} {k : Ask R} {c : ReplyCell R} {v : Result R}

attribute [local grind =] Future.owns Future.isOpen Future.cleared Future.result Responder.pending Responder.inWindow
  Responder.hasWon

attribute [local grind cases] Joint

theorem Future.owns_of_isOpen {f : Future R} (h : f.isOpen = true) : f.owns = true := by
  cases f <;> simp_all [Future.isOpen, Future.owns]

theorem Future.not_cleared_of_isOpen {f : Future R} (h : f.isOpen = true) : f.cleared = false ∧ f.result = none := by
  cases f <;> simp_all [Future.isOpen, Future.cleared, Future.result]

theorem Responder.not_hasWon {r : Responder R} (h : r.inWindow = false) : r.hasWon = false := by
  cases r <;> simp_all [Responder.inWindow, Responder.hasWon]

theorem Joint.call (h : Joint a k c) (hr : k.responder = .armed) :
    Joint a { k with responder := .called v, supplied := some v } c := by
  constructor <;> grind -ring -linarith

theorem Joint.check (h : Joint a k c) (hr : k.responder = .called v) :
    Joint a { k with responder := .checked v } c := by
  constructor <;> grind -ring -linarith

theorem Joint.stale (h : Joint a k c) (hr : k.responder = .called v) (hopen : k.future.isOpen = false) :
    Joint a { k with responder := .spent } c := by
  constructor <;> grind -ring -linarith

theorem Joint.deposit (h : Joint a k c) (hs : Sound k) (hr : k.responder = .checked v) :
    Joint a { k with responder := .deposited } { c with value := some v } := by
  have hopen := hs.window (by rw [hr]; rfl)
  have hcleared := Future.not_cleared_of_isOpen hopen
  have hcalled := hs.called v (.inr hr)
  constructor <;> grind -ring -linarith

theorem Joint.exchange (h : Joint a k c) (hs : Sound k) (hr : k.responder = .deposited) :
    Joint a { k with responder := if c.st = .waiter then .won else .lost } { c with st := .resolved } := by
  have hopen := hs.window (by rw [hr]; rfl)
  have hcleared := Future.not_cleared_of_isOpen hopen
  obtain ⟨gen, pending, waiter, bare, deposited, cont, settled, won, handed, lost, parked, loaded,
      cleared, supplied⟩ := h
  by_cases hw : c.st = .waiter
  · rw [if_pos hw]
    constructor <;> grind -ring -linarith
  · rw [if_neg hw]
    constructor <;> grind -ring -linarith

theorem Joint.readCont (h : Joint a k c) (hr : k.responder = .won) :
    Joint a { k with responder := .handed c.cont c.resumeSink } c := by
  constructor <;> grind -ring -linarith

theorem Joint.notifyWaiter {x : Option AskId} {sink : Bool} (h : Joint a k c) (hr : k.responder = .handed x sink) :
    Joint a { k with responder := .notified x sink } c := by
  constructor <;> grind -ring -linarith

theorem Joint.resume {x : Option AskId} {sink : Bool} (h : Joint a k c) (hr : k.responder = .notified x sink) :
    Joint a { k with responder := .spent, future := .finishing, resumes := k.resumes + 1 } c := by
  constructor <;> grind -ring -linarith

theorem Joint.notify (h : Joint a k c) (hr : k.responder = .lost) (hparked : ∀ st, k.future ≠ .parked st) :
    Joint a { k with responder := .spent } c := by
  constructor <;> grind -ring -linarith

theorem Joint.awaitReady (h : Joint a k c) (hf : k.future = .held) :
    Joint a { k with future := if c.st = .resolved then .finishing else .suspending } c := by
  obtain ⟨gen, pending, waiter, bare, deposited, cont, settled, won, handed, lost, parked, loaded,
      cleared, supplied⟩ := h
  by_cases hst : c.st = .resolved
  · rw [if_pos hst]
    constructor <;> grind -ring -linarith
  · rw [if_neg hst]
    constructor <;> grind -ring -linarith

theorem Joint.publish {sink : Bool} (h : Joint a k c) (hf : k.future = .suspending) :
    Joint a { k with future := .publishing } { c with cont := some a, resumeSink := sink } := by
  constructor <;> grind -ring -linarith

theorem Joint.suspend (h : Joint a k c) (hf : k.future = .publishing) (hst : c.st = .empty) :
    Joint a { k with future := .suspended } { c with st := .waiter } := by
  constructor <;> grind -ring -linarith

theorem Joint.carryOn (h : Joint a k c) (hf : k.future = .publishing) (hst : c.st ≠ .empty) :
    Joint a { k with future := .finishing } c := by
  have hsettled : k.responder.pending = false := by
    by_contra hpending
    rw [Bool.not_eq_false] at hpending
    have hwaiter := h.waiter hpending (by rw [hf]; rfl)
    have hresolved := (h.pending hpending).1
    cases hc : c.st with
    | empty => exact hst hc
    | waiter => exact absurd (hwaiter.mp hc) (by rw [hf]; simp)
    | resolved => exact hresolved hc
  constructor <;> grind -ring -linarith

theorem Joint.blockWait (h : Joint a k c) (hf : k.future = .held) : Joint a { k with future := .waiting } c := by
  constructor <;> grind -ring -linarith

theorem Joint.load (h : Joint a k c) (hf : k.future = .waiting) :
    Joint a { k with future := if c.st = .resolved then .finishing else .loaded c.st } c := by
  obtain ⟨gen, pending, waiter, bare, deposited, cont, settled, won, handed, lost, parked, loaded,
      cleared, supplied⟩ := h
  by_cases hst : c.st = .resolved
  · rw [if_pos hst]
    constructor <;> grind -ring -linarith
  · rw [if_neg hst]
    constructor <;> grind -ring -linarith

theorem Joint.wait {st : CellState} (h : Joint a k c) (hf : k.future = .loaded st) :
    Joint a { k with future := if c.st = st then .parked st else .waiting } c := by
  obtain ⟨gen, pending, waiter, bare, deposited, cont, settled, won, handed, lost, parked, loaded,
      cleared, supplied⟩ := h
  by_cases hst : c.st = st
  · rw [if_pos hst]
    constructor <;> grind -ring -linarith
  · rw [if_neg hst]
    constructor <;> grind -ring -linarith

theorem Joint.finishing (h : Joint a k c) (hf : k.future = .finishing) :
    k.responder.inWindow = false ∧ c.value = k.supplied ∧ k.supplied.isSome = true := by
  obtain ⟨gen, pending, waiter, bare, deposited, cont, settled, won, handed, lost, parked, loaded,
      cleared, supplied⟩ := h
  have hopen : k.future.isOpen = true := by rw [hf]; rfl
  have hpending : k.responder.pending = false := by
    by_contra hpending
    exact (pending (Bool.not_eq_false _ ▸ hpending)).2.1 hf
  have hwon : k.responder.hasWon = false := by
    by_contra hwon
    have hsuspended := won (Bool.not_eq_false _ ▸ hwon)
    rw [hf] at hsuspended
    cases hsuspended
  refine ⟨?_, (settled hpending hopen).2, supplied ?_⟩
  · cases hr : k.responder <;> simp_all [Responder.pending, Responder.hasWon, Responder.inWindow]
  · intro hr
    rw [hr] at hpending
    cases hpending

theorem Joint.take (h : Joint a k c) (hf : k.future = .finishing) :
    Joint a { k with future := .clearing (some v) } { c with value := none } := by
  constructor <;> grind -ring -linarith

theorem Joint.drop (h : Joint a k c)
    (hwindow : k.responder.inWindow = false) : Joint a { k with future := .clearing none } c := by
  have hwon := Responder.not_hasWon hwindow
  constructor <;> grind -ring -linarith

theorem Joint.clear {res : Option (Result R)} (h : Joint a k c) (hs : Sound k) (hf : k.future = .clearing res) :
    Joint a { k with future := .bumping res } { c with value := none, cont := none, resumeSink := false } := by
  have hwindow := hs.window
  constructor <;> grind -ring -linarith

theorem Joint.bump {res : Option (Result R)} (h : Joint a k c) (hf : k.future = .bumping res) :
    Joint a { k with future := .resetting res } { c with gen := c.gen + 1 } := by
  constructor <;> grind -ring -linarith

theorem Joint.reset {res : Option (Result R)} (h : Joint a k c) (hf : k.future = .resetting res) :
    Joint a { k with future := .pushing res } { c with st := .empty } := by
  constructor <;> grind -ring -linarith

theorem Joint.woken (h : Joint a k c) : Joint a k.woken c := by
  cases hf : k.future with
  | parked st =>
    obtain ⟨gen, pending, waiter, bare, deposited, cont, settled, won, handed, lost, parked, loaded,
        cleared, supplied⟩ := h
    rw [Ask.woken, hf]
    constructor <;> grind -ring -linarith
  | _ =>
    rw [Ask.woken, hf]
    exact h

end

section

variable {k : Ask R}

attribute [local grind =] Future.owns Future.isOpen Future.result Responder.inWindow

attribute [local grind cases] Sound

theorem Ask.woken_eq (k : Ask R) : k.woken = k ∨ ∃ st, k.future = .parked st ∧
    k.woken = { k with future := .loaded st } := by
  unfold Ask.woken
  split
  · next st hf => exact .inr ⟨st, hf, rfl⟩
  · exact .inl rfl

theorem Ask.woken_frame (k : Ask R) : k.woken.cell = k.cell ∧ k.woken.responder = k.responder ∧
    k.woken.future.owns = k.future.owns ∧ ∀ st, k.woken.future ≠ .parked st := by
  unfold Ask.woken
  split
  · next st hf => exact ⟨rfl, rfl, by rw [hf]; rfl, fun _ => by simp⟩
  · next hf => exact ⟨rfl, rfl, rfl, hf⟩

theorem Sound.woken (h : Sound k) : Sound k.woken := by
  obtain heq | ⟨st, hf, heq⟩ := k.woken_eq
  · rw [heq]
    exact h
  · rw [heq]
    constructor <;> grind -ring -linarith

/-- A step of the future that keeps it open, or begins its release with nothing or with what was supplied. -/
theorem Sound.future {f : Future R} (h : Sound k) (hopen : k.responder.inWindow = true → f.isOpen = true)
    (hresult : ∀ v, f.result = some v → k.supplied = some v)
    (hresumes : f.isOpen = true → f ≠ .finishing → k.resumes = 0) : Sound { k with future := f } := by
  constructor <;> grind -ring -linarith

theorem Sound.onward {f : Future R} (h : Sound k) (hopen : k.future.isOpen = true)
    (hfinishing : k.future ≠ .finishing)
    (hf : f.isOpen = true) : Sound { k with future := f } := by
  refine h.future (fun _ => hf) (fun v hv => ?_) fun _ _ => h.unresumed hopen hfinishing
  rw [(Future.not_cleared_of_isOpen hf).2] at hv
  cases hv

theorem Sound.release {f : Future R} (h : Sound k) (hwindow : k.responder.inWindow = false) (hf : f.isOpen = false)
    (hresult : ∀ v, f.result = some v → k.supplied = some v) : Sound { k with future := f } := by
  refine h.future (fun hw => ?_) hresult fun hopen => ?_
  · rw [hwindow] at hw
    cases hw
  · rw [hf] at hopen
    cases hopen

theorem Sound.responder {r : Responder R} (h : Sound k) (hwindow : r.inWindow = true → k.future.isOpen = true)
    (harmed : r ≠ .armed) (hcalled : ∀ v, r = .called v ∨ r = .checked v → k.supplied = some v) :
    Sound { k with responder := r } := by
  constructor <;> grind -ring -linarith

theorem Sound.call {v : Result R} (h : Sound k) (hr : k.responder = .armed) :
    Sound { k with responder := .called v, supplied := some v } := by
  constructor <;> grind -ring -linarith

end

namespace AskPool

variable {s s' : AskPool R} {a b : AskId} {i : Nat}

@[simp] theorem setAsk_setAsk {k k' : Ask R} : (s.setAsk a k).setAsk a k' = s.setAsk a k' := by
  simp only [AskPool.setAsk, update_idem]

theorem Inv.notifyAll (h : Inv s) (i : Nat) : Inv (s.notifyAll i) := by
  have hask : ∀ b, (s.notifyAll i).asks b = s.asks b ∨ (s.notifyAll i).asks b = (s.asks b).woken := fun b => by
    change (if (s.asks b).cell = i then (s.asks b).woken else s.asks b) = _ ∨ _ = _
    split
    · exact .inr (if_pos ‹_›)
    · exact .inl rfl
  have hframe : ∀ b, ((s.notifyAll i).asks b).cell = (s.asks b).cell ∧
      ((s.notifyAll i).asks b).future.owns = (s.asks b).future.owns := fun b => by
    rcases hask b with hb | hb
    · rw [hb]
      exact ⟨rfl, rfl⟩
    · rw [hb]
      exact ⟨(s.asks b).woken_frame.1, (s.asks b).woken_frame.2.2.1⟩
  refine ⟨fun b hb => ?_, fun b => ?_, fun b d hb hd hbd => ?_, fun b hb => ?_, h.nodup, h.bound, h.bare, h.fault⟩
  · rw [(hframe b).2] at hb
    rw [cellOf, (hframe b).1]
    rcases hask b with heq | heq
    · rw [heq]
      exact h.joint b hb
    · rw [heq]
      exact (h.joint b hb).woken
  · rcases hask b with heq | heq
    · rw [heq]
      exact h.sound b
    · rw [heq]
      exact (h.sound b).woken
  · rw [(hframe b).2] at hb
    rw [(hframe d).2] at hd
    rw [(hframe b).1, (hframe d).1] at hbd
    exact h.apart b d hb hd hbd
  · rw [(hframe b).2] at hb
    rw [(hframe b).1]
    exact h.placed b hb

theorem joint_arm (a : AskId) (i : Nat) {c : ReplyCell R} (hbare : c.value = none) :
    Joint a { cell := i, gen := c.gen, future := .held, responder := .armed } c.arm := by
  constructor <;> simp [ReplyCell.arm, hbare, Responder.pending, Responder.hasWon, Future.isOpen, Future.cleared,
    Future.result]

theorem sound_arm (i : Nat) (gen : UInt64) :
    Sound ({ cell := i, gen, future := .held, responder := .armed } : Ask R) := by
  constructor <;> simp [Responder.inWindow, Future.result]

theorem Inv.acquired {size : Nat} {free : List Nat} (h : Inv s)
    (hunused : ∀ b, (s.asks b).future.owns = true → (s.asks b).cell ≠ i) (hbare : (s.cells i).value = none)
    (hsize : s.size ≤ size) (hi : i < size ∧ i ∉ free) (hfree : ∀ j ∈ free, j ∈ s.free) (hnodup : free.Nodup) :
    Inv ({ s with size, free }.acquired a i) := by
  have hnew : ({ s with size, free }.acquired a i).asks a =
      { cell := i, gen := (s.cells i).gen, future := .held, responder := .armed } := update_self _ _ _
  have hold : ∀ b, b ≠ a → ({ s with size, free }.acquired a i).asks b = s.asks b := fun b hb =>
    update_of_ne hb _ _
  have hcell : ∀ j, j ≠ i → ({ s with size, free }.acquired a i).cells j = s.cells j := fun j hj =>
    update_of_ne hj _ _
  refine ⟨fun b hb => ?_, fun b => ?_, fun b d hb hd hbd => ?_, fun b hb => ?_, hnodup,
    fun j hj => lt_of_lt_of_le (h.bound j (hfree j hj)) hsize, fun j hj => ?_, h.fault⟩
  · by_cases hba : b = a
    · subst hba
      have harm : ({ s with size, free }.acquired b i).cellOf b = (s.cells i).arm := by
        rw [cellOf, hnew]
        exact update_self _ _ _
      rw [hnew, harm]
      exact joint_arm b i hbare
    · rw [hold b hba] at hb
      rw [cellOf, hold b hba, hcell _ (hunused b hb)]
      exact h.joint b hb
  · by_cases hba : b = a
    · subst hba
      rw [hnew]
      exact sound_arm _ _
    · rw [hold b hba]
      exact h.sound b
  · by_cases hba : b = a
    · by_cases hda : d = a
      · rw [hba, hda]
      · rw [hold d hda] at hd hbd
        rw [hba, hnew] at hbd
        exact absurd hbd.symm (hunused d hd)
    · rw [hold b hba] at hb hbd
      by_cases hda : d = a
      · rw [hda, hnew] at hbd
        exact absurd hbd (hunused b hb)
      · rw [hold d hda] at hd hbd
        exact h.apart b d hb hd hbd
  · by_cases hba : b = a
    · subst hba
      rw [hnew]
      exact hi
    · rw [hold b hba] at hb ⊢
      obtain ⟨hlt, hmem⟩ := h.placed b hb
      exact ⟨lt_of_lt_of_le hlt hsize, fun hf => hmem (hfree _ hf)⟩
  · have hji : j ≠ i := by
      rintro rfl
      exact hj.elim hi.2 (not_le.mpr hi.1)
    rw [hcell j hji]
    exact h.bare j (hj.imp (hfree j) (le_trans hsize))

theorem Inv.push {res : Option (Result R)} (h : Inv s) (hf : (s.asks a).future = .pushing res) :
    Inv ({ s with free := (s.asks a).cell :: s.free }.setFuture a (.done res)) := by
  have hown : (s.asks a).future.owns = true := by rw [hf]; rfl
  have hnew : ({ s with free := (s.asks a).cell :: s.free }.setFuture a (.done res)).asks a =
      { s.asks a with future := .done res } := update_self _ _ _
  have hold : ∀ b, b ≠ a → ({ s with free := (s.asks a).cell :: s.free }.setFuture a (.done res)).asks b = s.asks b :=
    fun b hb => update_of_ne hb _ _
  have hother : ∀ b, (({ s with free := (s.asks a).cell :: s.free }.setFuture a (.done res)).asks b).future.owns =
    true →
      b ≠ a := by
    rintro b hb rfl
    rw [hnew] at hb
    cases hb
  obtain ⟨hlt, hmem⟩ := h.placed a hown
  refine ⟨fun b hb => ?_, fun b => ?_, fun b d hb hd hbd => ?_, fun b hb => ?_, nodup_cons.mpr ⟨hmem, h.nodup⟩,
    fun j hj => ?_, fun j hj => ?_, h.fault⟩
  · have hba := hother b hb
    rw [hold b hba] at hb
    rw [cellOf, hold b hba]
    exact h.joint b hb
  · by_cases hba : b = a
    · subst hba
      rw [hnew]
      refine (h.sound b).future (fun hwindow => ?_) (fun v hv => ?_) nofun
      · have hopen := (h.sound b).window hwindow
        rw [hf] at hopen
        cases hopen
      · exact (h.sound b).result v (by rw [hf]; exact hv)
    · rw [hold b hba]
      exact h.sound b
  · have hba := hother b hb
    have hda := hother d hd
    rw [hold b hba] at hb hbd
    rw [hold d hda] at hd hbd
    exact h.apart b d hb hd hbd
  · have hba := hother b hb
    rw [hold b hba] at hb ⊢
    refine ⟨(h.placed b hb).1, fun hfree => ?_⟩
    rcases mem_cons.mp hfree with heq | hfree
    · exact hba (h.apart b a hb hown heq)
    · exact (h.placed b hb).2 hfree
  · rcases mem_cons.mp hj with rfl | hj
    · exact hlt
    · exact h.bound j hj
  · change (s.cells j).value = none
    rcases hj with hj | hj
    · rcases mem_cons.mp hj with rfl | hj
      · exact (h.joint a hown).cleared (by rw [hf]; rfl)
      · exact h.bare j (.inl hj)
    · exact h.bare j (.inr hj)

theorem Inv.respond {r : Responder R} {c : ReplyCell R} (h : Inv s) (hopen : (s.asks a).future.isOpen = true)
    (hjoint : Joint a { s.asks a with responder := r } c) (harmed : r ≠ .armed)
    (hcalled : ∀ v, r = .called v ∨ r = .checked v → (s.asks a).supplied = some v) :
    Inv ((s.setCell (s.asks a).cell c).setResponder a r) := by
  have hown := Future.owns_of_isOpen hopen
  exact h.setCell (k := { s.asks a with responder := r }) hown rfl hown hjoint
    ((h.sound a).responder (fun _ => hopen) harmed hcalled)

theorem Inv.await {f : Future R} {c : ReplyCell R} (h : Inv s) (hown : (s.asks a).future.owns = true)
    (hf : f.owns = true) (hjoint : Joint a { s.asks a with future := f } c)
    (hsound : Sound { s.asks a with future := f }) : Inv ((s.setCell (s.asks a).cell c).setFuture a f) :=
  h.setCell (k := { s.asks a with future := f }) hown rfl hf hjoint hsound

theorem Inv.setResponder {r : Responder R} (h : Inv s)
    (hjoint : (s.asks a).future.owns = true → Joint a { s.asks a with responder := r } (s.cellOf a))
    (hwindow : r.inWindow = true → (s.asks a).future.isOpen = true) (harmed : r ≠ .armed)
    (hcalled : ∀ v, r = .called v ∨ r = .checked v → (s.asks a).supplied = some v) : Inv (s.setResponder a r) :=
  h.setAsk (k := { s.asks a with responder := r }) rfl rfl hjoint ((h.sound a).responder hwindow harmed hcalled)

theorem Inv.setFuture {f : Future R} (h : Inv s) (hown : (s.asks a).future.owns = true) (hf : f.owns = true)
    (hjoint : Joint a { s.asks a with future := f } (s.cellOf a)) (hsound : Sound { s.asks a with future := f }) :
    Inv (s.setFuture a f) :=
  h.setAsk (k := { s.asks a with future := f }) rfl (hf.trans hown.symm) (fun _ => hjoint) hsound

theorem Inv.notified (h : Inv s) (a : AskId) : Inv (s.notifyAll (s.asks a).cell) ∧
    ((s.notifyAll (s.asks a).cell).asks a).responder = (s.asks a).responder ∧
    ∀ st, ((s.notifyAll (s.asks a).cell).asks a).future ≠ .parked st := by
  have hask : (s.notifyAll (s.asks a).cell).asks a = (s.asks a).woken := if_pos rfl
  rw [hask]
  exact ⟨h.notifyAll _, (s.asks a).woken_frame.2.1, (s.asks a).woken_frame.2.2.2⟩

theorem Inv.onward {f : Future R} (h : Inv s) (hopen : (s.asks a).future.isOpen = true)
    (hfinishing : (s.asks a).future ≠ .finishing) (hf : f.isOpen = true)
    (hjoint : Joint a { s.asks a with future := f } (s.cellOf a)) : Inv (s.setFuture a f) :=
  h.setFuture (Future.owns_of_isOpen hopen) (Future.owns_of_isOpen hf) hjoint
    ((h.sound a).onward hopen hfinishing hf)

theorem Inv.onwardCell {f : Future R} {c : ReplyCell R} (h : Inv s) (hopen : (s.asks a).future.isOpen = true)
    (hfinishing : (s.asks a).future ≠ .finishing) (hf : f.isOpen = true)
    (hjoint : Joint a { s.asks a with future := f } c) : Inv ((s.setCell (s.asks a).cell c).setFuture a f) :=
  h.await (Future.owns_of_isOpen hopen) (Future.owns_of_isOpen hf) hjoint ((h.sound a).onward hopen hfinishing hf)

theorem Inv.releaseCell {f : Future R} {c : ReplyCell R} (h : Inv s) (hown : (s.asks a).future.owns = true)
    (hreleasing : (s.asks a).future.isOpen = false) (hf : f.owns = true) (hclosed : f.isOpen = false)
    (hresult : f.result = (s.asks a).future.result)
    (hjoint : (s.asks a).future.owns = true → Joint a { s.asks a with future := f } c) :
    Inv ((s.setCell (s.asks a).cell c).setFuture a f) := by
  refine h.await hown hf (hjoint hown) ((h.sound a).release ?_ hclosed fun v hv => ?_)
  · by_contra hwindow
    rw [(h.sound a).window (Bool.not_eq_false _ ▸ hwindow)] at hreleasing
    cases hreleasing
  · exact (h.sound a).result v (hresult ▸ hv)

/-- The coroutine that a responder has found in the cell is the one that awaits its ask. -/
theorem Inv.resume {x : Option AskId} {sink : Bool} (h : Inv s) (hr : (s.asks a).responder = .notified x sink) :
    x = some a ∧ Inv ((s.setResponder a .spent).resumed a) := by
  have hopen := (h.sound a).window (by rw [hr]; rfl)
  have hown := Future.owns_of_isOpen hopen
  have hjoint := h.joint a hown
  have hsuspended := hjoint.won (by rw [hr]; rfl)
  have hself : (s.setResponder a .spent).asks a = { s.asks a with responder := .spent } := update_self _ _ _
  refine ⟨hjoint.handed x sink (.inr hr), ?_⟩
  rw [resumed, hself]
  simp only [hsuspended]
  have hzero := (h.sound a).unresumed hopen (by rw [hsuspended]; simp)
  have hsound : Sound { s.asks a with
      responder := .spent, future := .finishing, resumes := (s.asks a).resumes + 1 } := by
    refine ⟨nofun, nofun, fun v hv => (by simp at hv), nofun, ?_,
      fun _ hne => absurd rfl hne⟩
    rw [hzero]
  have hinv := h.setAsk (a := a) (k := { s.asks a with
    responder := .spent, future := .finishing, resumes := (s.asks a).resumes + 1 }) rfl (by rw [hown]; rfl)
    (fun _ => hjoint.resume hr) hsound
  rw [AskPool.setResponder, setAsk_setAsk]
  exact hinv

attribute [local simp] step

theorem Inv.step_acquire (h : Inv s) (hstep : step s (.acquire a) = some s') : Inv s' := by
  simp only [step] at hstep
  split at hstep
  · next hf hfree =>
    cases hstep
    refine h.acquired (fun b hb => ne_of_lt (h.placed b hb).1) (h.bare _ (.inr le_rfl))
      (Nat.le_succ _) ⟨Nat.lt_succ_self _, fun hmem => lt_irrefl _ (h.bound _ hmem)⟩ (fun j hj => hj) h.nodup
  · next i free hf hfree =>
    cases hstep
    have hmem : i ∈ s.free := by rw [hfree]; exact mem_cons_self
    have hnodup := h.nodup
    rw [hfree, nodup_cons] at hnodup
    refine h.acquired (fun b hb heq => (h.placed b hb).2 (heq ▸ hmem)) (h.bare _ (.inl hmem)) le_rfl
      ⟨h.bound i hmem, hnodup.1⟩ (fun j hj => ?_) hnodup.2
    rw [hfree]
    exact mem_cons_of_mem _ hj
  · cases hstep

theorem Inv.step_call {v : Result R} (h : Inv s) (hstep : step s (.call a v) = some s') : Inv s' := by
  simp only [step] at hstep
  split at hstep
  · next hr =>
    cases hstep
    exact h.setAsk (k := { s.asks a with responder := .called v, supplied := some v }) rfl rfl
      (fun hown => (h.joint a hown).call hr) ((h.sound a).call hr)
  · cases hstep

theorem Inv.step_check (h : Inv s) (hok : (s.cellOf a).gen = (s.asks a).gen → (s.asks a).future.isOpen = true)
    (hstep : step s (.check a) = some s') : Inv s' := by
  simp only [step] at hstep
  split at hstep
  · next v hr =>
    cases hstep
    have hcalled := (h.sound a).called v (.inl hr)
    by_cases hgen : (s.cellOf a).gen = (s.asks a).gen
    · rw [if_pos hgen]
      refine h.setResponder (fun hown => (h.joint a hown).check hr) (fun _ => hok hgen) (by simp) fun w hw => ?_
      simp only [reduceCtorEq, Responder.checked.injEq, false_or] at hw
      rw [← hw, hcalled]
    · rw [if_neg hgen]
      have hopen : (s.asks a).future.isOpen = false := by
        by_contra hopen
        rw [Bool.not_eq_false] at hopen
        exact hgen ((h.joint a (Future.owns_of_isOpen hopen)).gen hopen)
      exact h.setResponder (fun hown => (h.joint a hown).stale hr hopen) nofun (by simp)
        fun w hw => (by simp at hw)
  · cases hstep

theorem Inv.step_deposit (h : Inv s) (hstep : step s (.deposit a) = some s') : Inv s' := by
  simp only [step] at hstep
  split at hstep
  · next v hr =>
    cases hstep
    have hopen := (h.sound a).window (by rw [hr]; rfl)
    exact h.respond hopen ((h.joint a (Future.owns_of_isOpen hopen)).deposit (h.sound a) hr) (by simp)
      fun w hw => (by simp at hw)
  · cases hstep

theorem Inv.step_exchange (h : Inv s) (hstep : step s (.exchange a) = some s') : Inv s' := by
  simp only [step] at hstep
  split at hstep
  · next hr =>
    cases hstep
    have hopen := (h.sound a).window (by rw [hr]; rfl)
    refine h.respond hopen ((h.joint a (Future.owns_of_isOpen hopen)).exchange (h.sound a) hr) ?_ fun w hw => ?_
    · split <;> simp
    · split at hw <;> simp at hw
  · cases hstep

theorem Inv.step_readCont (h : Inv s) (hstep : step s (.readCont a) = some s') : Inv s' := by
  simp only [step] at hstep
  split at hstep
  · next hr =>
    cases hstep
    have hopen := (h.sound a).window (by rw [hr]; rfl)
    exact h.setResponder (fun hown => (h.joint a hown).readCont hr) (fun _ => hopen) (by simp)
      fun w hw => (by simp at hw)
  · cases hstep

theorem Inv.step_notifyWaiter (h : Inv s) (hstep : step s (.notifyWaiter a) = some s') : Inv s' := by
  simp only [step] at hstep
  split at hstep
  · next x sink hr =>
    cases hstep
    obtain ⟨hinv, hr', -⟩ := h.notified a
    rw [hr] at hr'
    have hopen := (hinv.sound a).window (by rw [hr']; rfl)
    exact hinv.setResponder (fun hown => (hinv.joint a hown).notifyWaiter hr') (fun _ => hopen) (by simp)
      fun w hw => (by simp at hw)
  · cases hstep

theorem Inv.step_resume (h : Inv s) (hstep : step s (.resume a) = some s') : Inv s' := by
  simp only [step] at hstep
  split at hstep
  · next b sink hr =>
    cases hstep
    obtain ⟨heq, hinv⟩ := h.resume hr
    cases heq
    exact hinv
  · next hr => cases (h.resume hr).1
  · next hr => cases (h.resume hr).1
  · cases hstep

theorem Inv.step_notify (h : Inv s) (hstep : step s (.notify a) = some s') : Inv s' := by
  simp only [step] at hstep
  split at hstep
  · next hr =>
    cases hstep
    obtain ⟨hinv, hr', hparked⟩ := h.notified a
    rw [hr] at hr'
    exact hinv.setResponder (fun hown => (hinv.joint a hown).notify hr' hparked) nofun (by simp)
      fun w hw => (by simp at hw)
  · cases hstep

theorem Inv.step_awaitReady (h : Inv s) (hstep : step s (.awaitReady a) = some s') : Inv s' := by
  simp only [step] at hstep
  split at hstep
  · next hf =>
    cases hstep
    have hown : (s.asks a).future.owns = true := by rw [hf]; rfl
    refine h.onward (by rw [hf]; rfl) (by rw [hf]; simp) ?_ ((h.joint a hown).awaitReady hf)
    split <;> rfl
  · cases hstep

theorem Inv.step_publish {sink : Bool} (h : Inv s) (hstep : step s (.publish a sink) = some s') : Inv s' := by
  simp only [step] at hstep
  split at hstep
  · next hf =>
    cases hstep
    have hown : (s.asks a).future.owns = true := by rw [hf]; rfl
    exact h.onwardCell (by rw [hf]; rfl) (by rw [hf]; simp) rfl ((h.joint a hown).publish hf)
  · cases hstep

theorem Inv.step_cas (h : Inv s) (hstep : step s (.cas a) = some s') : Inv s' := by
  simp only [step] at hstep
  split at hstep
  · next hf =>
    have hown : (s.asks a).future.owns = true := by rw [hf]; rfl
    split at hstep
    · next hst =>
      cases hstep
      exact h.onwardCell (by rw [hf]; rfl) (by rw [hf]; simp) rfl ((h.joint a hown).suspend hf hst)
    · next hst =>
      cases hstep
      exact h.onward (by rw [hf]; rfl) (by rw [hf]; simp) rfl ((h.joint a hown).carryOn hf hst)
  · cases hstep

theorem Inv.step_blockWait (h : Inv s) (hstep : step s (.blockWait a) = some s') : Inv s' := by
  simp only [step] at hstep
  split at hstep
  · next hf =>
    cases hstep
    have hown : (s.asks a).future.owns = true := by rw [hf]; rfl
    exact h.onward (by rw [hf]; rfl) (by rw [hf]; simp) rfl ((h.joint a hown).blockWait hf)
  · cases hstep

theorem Inv.step_load (h : Inv s) (hstep : step s (.load a) = some s') : Inv s' := by
  simp only [step] at hstep
  split at hstep
  · next hf =>
    cases hstep
    have hown : (s.asks a).future.owns = true := by rw [hf]; rfl
    refine h.onward (by rw [hf]; rfl) (by rw [hf]; simp) ?_ ((h.joint a hown).load hf)
    split <;> rfl
  · cases hstep

theorem Inv.step_wait (h : Inv s) (hstep : step s (.wait a) = some s') : Inv s' := by
  simp only [step] at hstep
  split at hstep
  · next st hf =>
    cases hstep
    have hown : (s.asks a).future.owns = true := by rw [hf]; rfl
    refine h.onward (by rw [hf]; rfl) (by rw [hf]; simp) ?_ ((h.joint a hown).wait hf)
    split <;> rfl
  · cases hstep

theorem Inv.step_take (h : Inv s) (hstep : step s (.take a) = some s') : Inv s' := by
  simp only [step] at hstep
  split at hstep
  · next v hf hvalue =>
    cases hstep
    have hown : (s.asks a).future.owns = true := by rw [hf]; rfl
    have hjoint := h.joint a hown
    obtain ⟨hwindow, hsupplied, -⟩ := hjoint.finishing hf
    refine h.await hown rfl (hjoint.take hf) ((h.sound a).release hwindow rfl fun w hw => ?_)
    cases hw
    rw [← hsupplied, hvalue]
  · next hf hvalue =>
    have hown : (s.asks a).future.owns = true := by rw [hf]; rfl
    have hjoint := h.joint a hown
    obtain ⟨-, hsupplied, hsome⟩ := hjoint.finishing hf
    rw [← hsupplied, hvalue] at hsome
    cases hsome
  · cases hstep

theorem Inv.step_drop (h : Inv s) (hwindow : (s.asks a).responder.inWindow = false)
    (hstep : step s (.drop a) = some s') : Inv s' := by
  simp only [step] at hstep
  split at hstep
  · next hf =>
    cases hstep
    have hown : (s.asks a).future.owns = true := by rw [hf]; rfl
    exact h.setFuture hown rfl ((h.joint a hown).drop hwindow) ((h.sound a).release hwindow rfl
      nofun)
  · next hf =>
    cases hstep
    have hown : (s.asks a).future.owns = true := by rw [hf]; rfl
    exact h.setFuture hown rfl ((h.joint a hown).drop hwindow) ((h.sound a).release hwindow rfl
      nofun)
  · cases hstep

theorem Inv.step_clear (h : Inv s) (hstep : step s (.clear a) = some s') : Inv s' := by
  simp only [step] at hstep
  split at hstep
  · next res hf =>
    cases hstep
    exact h.releaseCell (by rw [hf]; rfl) (by rw [hf]; rfl) rfl rfl (by rw [hf]; rfl)
      fun hown => (h.joint a hown).clear (h.sound a) hf
  · cases hstep

theorem Inv.step_bump (h : Inv s) (hstep : step s (.bump a) = some s') : Inv s' := by
  simp only [step] at hstep
  split at hstep
  · next res hf =>
    cases hstep
    exact h.releaseCell (by rw [hf]; rfl) (by rw [hf]; rfl) rfl rfl (by rw [hf]; rfl)
      fun hown => (h.joint a hown).bump hf
  · cases hstep

theorem Inv.step_reset (h : Inv s) (hstep : step s (.reset a) = some s') : Inv s' := by
  simp only [step] at hstep
  split at hstep
  · next res hf =>
    cases hstep
    exact h.releaseCell (by rw [hf]; rfl) (by rw [hf]; rfl) rfl rfl (by rw [hf]; rfl)
      fun hown => (h.joint a hown).reset hf
  · cases hstep

theorem Inv.step_push (h : Inv s) (hstep : step s (.push a) = some s') : Inv s' := by
  simp only [step] at hstep
  split at hstep
  · next res hf =>
    cases hstep
    exact h.push hf
  · cases hstep

theorem inv_step {label : AskLabel R} (h : Inv s) (hok : Unraced s label) (hstep : step s label = some s') :
    Inv s' := by
  cases label with
  | acquire a => exact h.step_acquire hstep
  | call a v => exact h.step_call hstep
  | check a => exact h.step_check hok hstep
  | deposit a => exact h.step_deposit hstep
  | exchange a => exact h.step_exchange hstep
  | readCont a => exact h.step_readCont hstep
  | notifyWaiter a => exact h.step_notifyWaiter hstep
  | resume a => exact h.step_resume hstep
  | notify a => exact h.step_notify hstep
  | awaitReady a => exact h.step_awaitReady hstep
  | publish a sink => exact h.step_publish hstep
  | cas a => exact h.step_cas hstep
  | blockWait a => exact h.step_blockWait hstep
  | load a => exact h.step_load hstep
  | wait a => exact h.step_wait hstep
  | take a => exact h.step_take hstep
  | drop a => exact h.step_drop hok hstep
  | clear a => exact h.step_clear hstep
  | bump a => exact h.step_bump hstep
  | reset a => exact h.step_reset hstep
  | push a => exact h.step_push hstep

theorem inv_start (capacity : Nat) : Inv (start capacity : AskPool R) := by
  refine ⟨nofun, fun a => ?_, nofun, nofun, ?_, ?_,
    fun _ _ => rfl, rfl⟩
  · constructor <;> simp [start, Responder.inWindow, Future.result]
  · exact nodup_reverse.mpr nodup_range
  · intro i hi
    simpa [start] using hi

/-- What every ask may count on. -/
structure Answered (s : AskPool R) : Prop where
  own : ∀ a v, (s.asks a).future.result = some v → (s.asks a).supplied = some v
  once : ∀ a, (s.asks a).resumes ≤ 1
  suspended : ∀ a, (s.asks a).future = .suspended →
    (s.asks a).resumes = 0 ∧ (s.asks a).responder ≠ .lost ∧ (s.asks a).responder ≠ .spent
  parked : ∀ a st, (s.asks a).future = .parked st → (s.asks a).responder ≠ .spent
  fault : s.fault = false

theorem Inv.answered (h : Inv s) : Answered s := by
  refine ⟨fun a => (h.sound a).result, fun a => (h.sound a).resumes, fun a hf => ?_, fun a st hf hr => ?_, h.fault⟩
  · have hopen : (s.asks a).future.isOpen = true := by rw [hf]; rfl
    have hlost := (h.joint a (Future.owns_of_isOpen hopen)).lost
    exact ⟨(h.sound a).unresumed hopen (by rw [hf]; simp), fun hr => hlost (.inl hr) hf, fun hr => hlost (.inr hr) hf⟩
  · exact (h.joint a (by rw [hf]; rfl)).parked hr st hf

def responderOf : AskLabel R → Option AskId
  | .call a _ | .check a | .deposit a | .exchange a | .readCont a | .notifyWaiter a | .resume a | .notify a => some a
  | _ => none

def Spares (s : AskPool R) (a : AskId) (s' : AskPool R) : Prop :=
  ∀ b, b ≠ a → (s.asks b).future.owns = true →
    s'.cellOf b = s.cellOf b ∧ (s'.asks b).resumes = (s.asks b).resumes

theorem spares_setAsk {k : Ask R} : Spares s a (s.setAsk a k) := by
  intro b hb _
  have hsame : (s.setAsk a k).asks b = s.asks b := update_of_ne hb _ _
  rw [cellOf, hsame]
  exact ⟨rfl, rfl⟩

theorem Inv.spares_setCell {c : ReplyCell R} {k : Ask R} (h : Inv s) (hown : (s.asks a).future.owns = true) :
    Spares s a ((s.setCell (s.asks a).cell c).setAsk a k) := by
  intro b hb hbown
  have hsame : ((s.setCell (s.asks a).cell c).setAsk a k).asks b = s.asks b := update_of_ne hb _ _
  have hcell : ((s.setCell (s.asks a).cell c).setAsk a k).cells (s.asks b).cell = s.cells (s.asks b).cell :=
    update_of_ne (fun heq => hb (h.apart b a hbown hown heq)) _ _
  rw [cellOf, hsame, hcell]
  exact ⟨rfl, rfl⟩

theorem spares_notifyAll {k : Ask R} : Spares s a ((s.notifyAll i).setAsk a k) := by
  intro b hb _
  have hask : ((s.notifyAll i).setAsk a k).asks b = if (s.asks b).cell = i then (s.asks b).woken else s.asks b :=
    update_of_ne hb _ _
  have hresumes : (s.asks b).woken.resumes = (s.asks b).resumes := by
    obtain heq | ⟨st, -, heq⟩ := (s.asks b).woken_eq <;> rw [heq]
  rw [cellOf, hask]
  split
  · rw [(s.asks b).woken_frame.1]
    exact ⟨rfl, hresumes⟩
  · exact ⟨rfl, rfl⟩

theorem spares_step {label : AskLabel R} (h : Inv s) (ha : responderOf label = some a)
    (hstep : step s label = some s') : Spares s a s' := by
  have hown : ∀ b, (s.asks b).responder.inWindow = true → (s.asks b).future.owns = true := fun b hw =>
    Future.owns_of_isOpen ((h.sound b).window hw)
  cases label with
  | call b v | check b =>
    cases ha
    simp only [step] at hstep
    split at hstep
    · cases hstep
      exact spares_setAsk
    · cases hstep
  | deposit b | exchange b =>
    cases ha
    simp only [step] at hstep
    split at hstep
    · next hr =>
      cases hstep
      exact h.spares_setCell (hown _ (by rw [hr]; rfl))
    · cases hstep
  | readCont b =>
    cases ha
    simp only [step] at hstep
    split at hstep
    · cases hstep
      exact spares_setAsk
    · cases hstep
  | notifyWaiter b | notify b =>
    cases ha
    simp only [step] at hstep
    split at hstep
    · cases hstep
      exact spares_notifyAll
    · cases hstep
  | resume b =>
    cases ha
    simp only [step] at hstep
    split at hstep
    · next d sink hr =>
      cases hstep
      cases (h.resume hr).1
      have hself : (s.setResponder a .spent).asks a = { s.asks a with responder := .spent } :=
        update_self _ _ _
      have hsuspended := (h.joint a (hown a (by rw [hr]; rfl))).won (by rw [hr]; rfl)
      rw [resumed, hself]
      simp only [hsuspended]
      rw [AskPool.setResponder, setAsk_setAsk]
      exact spares_setAsk
    · next hr => cases (h.resume hr).1
    · next hr => cases (h.resume hr).1
    · cases hstep
  | _ => cases ha

/-- As long as no ask is dropped inside the `resolve` of its responder, every ask gets its own answer, every
awaiter is resumed or woken once, and no responder touches the cell of another ask. -/
theorem answered_of_reach {capacity : Nat} (h : Machine.Reach step Unraced (start capacity) s) :
    Answered s ∧ ∀ label a s', responderOf label = some a → step s label = some s' → Spares s a s' := by
  have hinv : Inv s := h.invariant (inv_start capacity) fun _ _ _ hinv hok hstep => inv_step hinv hok hstep
  exact ⟨hinv.answered, fun _ _ _ ha hstep => spares_step hinv ha hstep⟩

instance (s : AskPool R) : (label : AskLabel R) → Decidable (Unraced s label)
  | .drop _ => inferInstanceAs (Decidable (_ = _))
  | .check _ => inferInstanceAs (Decidable (_ → _))
  | .acquire _ | .call _ _ | .deposit _ | .exchange _ | .readCont _ | .notifyWaiter _ | .resume _ | .notify _
  | .awaitReady _ | .publish _ _ | .cas _ | .blockWait _ | .load _ | .wait _ | .take _ | .clear _ | .bump _ | .reset _
  | .push _ => isTrue trivial

def answer (a : AskId) (v : Result Nat) : List (AskLabel Nat) :=
  [.acquire a, .awaitReady a, .publish a true, .cas a, .call a v, .check a, .deposit a, .exchange a, .readCont a,
    .notifyWaiter a, .resume a, .take a]

def release (a : AskId) : List (AskLabel Nat) := [.clear a, .bump a, .reset a, .push a]

/-- The cell of a dropped ask is used again before its responder fires. -/
theorem answered_after_reuse : ∃ s, Machine.run (Machine.guarded step Unraced) (start 1)
    (List.flatten [[.acquire 0, .drop 0], release 0, answer 1 (.ok 5), [.call 0 noReply, .check 0],
    release 1]) = some s ∧ (s.asks 1).future = .done (some (.ok 5)) ∧ Answered s ∧
        ∀ label a s', responderOf label = some a → step s label = some s' → Spares s a s' := by
  obtain ⟨s, hs, hdone⟩ := Option.map_eq_some_iff.mp (show (Machine.run (Machine.guarded step Unraced) (start 1)
    (List.flatten [[.acquire 0, .drop 0], release 0, answer 1 (.ok 5), [.call 0 noReply, .check 0], release 1])).map
      (fun s => (s.asks 1).future) = some (.done (some (.ok 5))) by decide +kernel)
  exact ⟨s, hs, hdone, answered_of_reach (Machine.reach_of_run hs)⟩

/-- Dropped between the check and the deposit: the next ask of the cell gets the value. -/
theorem answered_by_another : ∃ s, Machine.run step (start 1) (List.flatten [[.acquire 0, .call 0 (.ok 7), .check 0,
    .drop 0], release 0, [.acquire 1, .deposit 0, .exchange 0, .awaitReady 1, .take 1]]) = some s ∧ ¬ Answered s := by
  obtain ⟨s, hs, hsupplied⟩ := Option.map_eq_some_iff.mp (show (Machine.run step (start 1) (List.flatten
    [[.acquire 0, .call 0 (.ok 7), .check 0, .drop 0], release 0,
      [.acquire 1, .deposit 0, .exchange 0, .awaitReady 1, .take 1]])).map
      (fun s => ((s.asks 1).future.result, (s.asks 1).supplied)) = some (some (.ok 7), none) by decide +kernel)
  refine ⟨s, hs, fun h => ?_⟩
  simp only [Prod.mk.injEq] at hsupplied
  have hown := h.own 1 _ hsupplied.1
  rw [hsupplied.2] at hown
  cases hown

end AskPool

end Quark
