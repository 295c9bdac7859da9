import Mathlib.Data.List.Basic
import Quark.Lib.Table

/-! `LanDiscovery` of `lan_discovery.hpp`: one scope that browses for the rotating names of known devices and
advertises its own. Strings are their characters. -/
namespace Quark.LanDiscovery

open List Option AList

/-! The label of an instance: base32 without padding. -/

def kMaxInstanceIdBytes : Nat := 36

def kAlpha : List Char := "abcdefghijklmnopqrstuvwxyz234567".toList

/-- The accumulator of both loops; `acc` holds the last `bits` bits. -/
structure BitBuffer where
  acc : UInt32 := 0
  bits : Nat := 0

def symbol (v : UInt32) : List Char := (kAlpha[(v &&& 31).toNat]?).toList

def encodeByte (s : List Char × BitBuffer) (b : UInt8) : List Char × BitBuffer :=
  let acc := s.2.acc <<< 8 ||| b.toUInt32
  let bits := s.2.bits + 8
  -- the inner loop takes five bits while there are five
  (s.1 ++ (List.range (bits / 5)).flatMap fun i => symbol (acc >>> UInt32.ofNat (bits - 5 * (i + 1))),
   ⟨acc &&& (1 <<< UInt32.ofNat (bits % 5) - 1), bits % 5⟩)

def encodeInstanceLabel (bytes : List UInt8) : List Char :=
  let s := bytes.foldl encodeByte ([], {})
  if 0 < s.2.bits then s.1 ++ symbol (s.2.acc <<< UInt32.ofNat (5 - s.2.bits)) else s.1

def digit (c : Char) : Option UInt32 :=
  if 'a' ≤ c ∧ c ≤ 'z' then some (c.val - 97) else if '2' ≤ c ∧ c ≤ '7' then some (c.val - 50 + 26) else none

def decodeChar (s : List UInt8 × BitBuffer) (c : Char) : Option (List UInt8 × BitBuffer) :=
  (digit c).map fun v =>
    let acc := s.2.acc <<< 5 ||| v
    let bits := s.2.bits + 5
    if 8 ≤ bits then
      (s.1 ++ [(acc >>> UInt32.ofNat (bits - 8)).toUInt8], ⟨acc &&& (1 <<< UInt32.ofNat (bits - 8) - 1), bits - 8⟩)
    else (s.1, ⟨acc &&& (1 <<< UInt32.ofNat bits - 1), bits⟩)

/-- The strict inverse: the alphabet only, and no spare bits but zeros, fewer than five. -/
def decodeInstanceLabel (label : List Char) : Option (List UInt8) :=
  if label.isEmpty || (kMaxInstanceIdBytes * 8 + 4) / 5 < label.length then none
  else
    (label.foldlM decodeChar ([], {})).bind fun s =>
      if s.2.acc ≠ 0 then none else if 5 ≤ s.2.bits then none else some s.1

structure DnsSdSighting where
  serviceType : List Char
  instanceLabel : List Char
  hostLabel : List Char
  ipv4 : UInt32
  port : UInt16
  deriving DecidableEq, Repr

inductive DnsSdEventKind
  | found | lost
  deriving DecidableEq, Repr

structure DiscoveryWindow where
  advertiseId : List UInt8 := []
  acceptIds : List (List UInt8) := []
  hostLabel : List Char := []
  acceptPreviousIds : List (List UInt8) := []
  deriving DecidableEq, Repr

structure DiscoveredPeer where
  instanceId : List UInt8
  hostLabel : List Char
  ipv4 : UInt32
  port : UInt16
  previousWindow : Bool
  deriving DecidableEq, Repr

/-- A label at an address and port. -/
structure Place where
  label : List Char
  ipv4 : UInt32
  port : UInt16
  deriving DecidableEq, Repr

def DnsSdSighting.place (w : DnsSdSighting) : Place := ⟨w.instanceLabel, w.ipv4, w.port⟩

def Place.key (p : Place) : List Char :=
  p.label ++ '|' :: (Nat.toDigits 10 p.ipv4.toNat ++ '|' :: Nat.toDigits 10 p.port.toNat)

structure Scope where
  serviceType : List Char
  win : DiscoveryWindow := {}
  /-- The ids accepted, and whether only as those of the previous window. -/
  accept : Table (List UInt8) Bool := ∅
  adv : Option UInt64 := none
  browse : Option UInt64 := none
  ownLabel : List Char := []
  seen : Table (List Char) DiscoveredPeer := ∅
  /-- Calls into the platform that have not returned yet. -/
  registering : Nat := 0
  starting : Nat := 0

/-- What the application is told, and that browsing stopped. -/
inductive Notice
  | found (place : Place) (peer : DiscoveredPeer)
  | lost (place : Place) (peer : DiscoveredPeer)
  | stopped
  deriving DecidableEq, Repr

inductive Label
  | startAdvertising (w : DiscoveryWindow)
  | stopAdvertising
  | startBrowsing (w : DiscoveryWindow)
  | stopBrowsing
  | windowBoundary (w : DiscoveryWindow)
  | registered (h : Option UInt64)
  | browsing (h : Option UInt64)
  /-- The platform reports an event; it may do so before either call returns. -/
  | event (kind : DnsSdEventKind) (what : DnsSdSighting)
  deriving DecidableEq, Repr

def acceptTable (w : DiscoveryWindow) : Table (List UInt8) Bool :=
  let previous := w.acceptPreviousIds.foldl (fun t id =>
    if id = [] then t else if (t.lookup id).isSome then t else t.insert id true) ∅
  w.acceptIds.foldl (fun t id => if id = [] then t else t.insert id false) previous

namespace Scope

def setWindow (s : Scope) (w : DiscoveryWindow) : Scope := { s with win := w, accept := acceptTable w }

/-- `register_current` up to the call of the platform. -/
def registerCurrent (s : Scope) : Scope :=
  if s.win.advertiseId = [] ∨ kMaxInstanceIdBytes < s.win.advertiseId.length ∨ s.win.hostLabel = [] then s
  else { s with ownLabel := encodeInstanceLabel s.win.advertiseId, registering := s.registering + 1 }

def stopBrowse (s : Scope) : Scope × List Notice :=
  if s.browse.isSome then ({ s with browse := none, seen := ∅ }, [.stopped]) else (s, [])

def onEvent (s : Scope) (kind : DnsSdEventKind) (what : DnsSdSighting) : Scope × List Notice :=
  if s.browse.isNone ∨ what.serviceType ≠ s.serviceType then (s, [])
  else if what.instanceLabel = s.ownLabel then (s, [])
  else
    match decodeInstanceLabel what.instanceLabel with
    | none => (s, [])
    | some bytes =>
      match s.accept.lookup bytes with
      | none => (s, [])
      | some previous =>
        match kind with
        | .found =>
          if (s.seen.lookup what.place.key).isSome then (s, [])
          else
            let p : DiscoveredPeer := ⟨bytes, what.hostLabel, what.ipv4, what.port, previous⟩
            ({ s with seen := s.seen.insert what.place.key p }, [.found what.place p])
        | .lost =>
          match s.seen.lookup what.place.key with
          | none => (s, [])
          | some p => ({ s with seen := s.seen.erase what.place.key }, [.lost what.place p])

def step (s : Scope) : Label → Option (Scope × List Notice)
  | .startAdvertising w => some (if s.adv.isSome then s else (s.setWindow w).registerCurrent, [])
  | .stopAdvertising => some ({ s with adv := none }, [])
  | .startBrowsing w =>
    some (if s.browse.isSome then s else { s.setWindow w with browse := some 0, starting := s.starting + 1 }, [])
  | .stopBrowsing => some s.stopBrowse
  | .windowBoundary w =>
    some (if s.adv.isSome then { s.setWindow w with adv := none }.registerCurrent else s.setWindow w, [])
  | .registered h =>
    if s.registering = 0 then none
    else some (if h.isSome then { s with adv := h, registering := s.registering - 1 }
      else { s with ownLabel := [], registering := s.registering - 1 }, [])
  | .browsing h =>
    if s.starting = 0 then none
    else some ({ s with browse := h, starting := s.starting - 1 }, if h.isSome then [] else [.stopped])
  | .event kind what => some (s.onEvent kind what)

end Scope

/-- One step of a run: the scope before it, what the application had been told, the call or event, and what it
is told. -/
structure Moment where
  before : Scope
  past : List Notice
  label : Label
  notices : List Notice

def Reported (past : List Notice) (place : Place) (peer : DiscoveredPeer) : Prop :=
  ∃ a b, past = a ++ .found place peer :: b ∧ (∀ q, .lost place q ∉ b) ∧ .stopped ∉ b

def moments (s : Scope) (past : List Notice) : List Label → Option (List Moment)
  | [] => some []
  | l :: labels => (s.step l).bind fun r => (moments r.1 (past ++ r.2) labels).map (⟨s, past, l, r.2⟩ :: ·)

namespace Moment

/-- Who is found is accepted in the window in force, is not the scope itself, and is not reported already. -/
def SoundFound (m : Moment) : Prop :=
  ∀ place peer, .found place peer ∈ m.notices →
    decodeInstanceLabel place.label = some peer.instanceId ∧ peer.instanceId ≠ [] ∧
      (peer.instanceId ∈ m.before.win.acceptIds ∨ peer.instanceId ∈ m.before.win.acceptPreviousIds) ∧
      place.label ≠ m.before.ownLabel ∧ ∀ q, ¬Reported m.past place q

/-- The network reports a peer gone that was reported: the application is told so once. -/
def SoundLost (m : Moment) : Prop :=
  ∀ what peer, m.label = .event .lost what → what.serviceType = m.before.serviceType →
    Reported m.past what.place peer → m.notices = [.lost what.place peer]

/-- When a reported peer goes, its id is accepted in the window in force, and its label is not the scope's own. -/
def Heard (m : Moment) : Prop :=
  ∀ what peer, m.label = .event .lost what → what.serviceType = m.before.serviceType →
    Reported m.past what.place peer →
      what.instanceLabel ≠ m.before.ownLabel ∧
        (peer.instanceId ∈ m.before.win.acceptIds ∨ peer.instanceId ∈ m.before.win.acceptPreviousIds)

end Moment

section

variable {s s' : Scope} {past : List Notice} {place place' : Place} {peer peer' : DiscoveredPeer}
  {w : DiscoveryWindow}
  {id : List UInt8} {what : DnsSdSighting} {l : Label} {notices : List Notice} {label : List Char}

theorem digit_bar : digit '|' = none := rfl

theorem foldlM_digit {acc acc' : List UInt8 × BitBuffer} (h : label.foldlM decodeChar acc = some acc') :
    ∀ c ∈ label, (digit c).isSome = true := by
  induction label generalizing acc with
  | nil => exact nofun
  | cons c label ih =>
    rw [foldlM_cons] at h
    obtain ⟨acc₁, hchar, hrest⟩ := bind_eq_some_iff.mp h
    refine forall_mem_cons.mpr ⟨?_, ih hrest⟩
    obtain ⟨v, hv, -⟩ := map_eq_some_iff.mp hchar
    rw [hv]
    rfl

theorem decoded_bar (h : (decodeInstanceLabel label).isSome = true) : '|' ∉ label := by
  intro hbar
  unfold decodeInstanceLabel at h
  split at h
  · cases h
  · obtain ⟨bytes, hbytes⟩ := isSome_iff_exists.mp h
    obtain ⟨acc, hfold, -⟩ := bind_eq_some_iff.mp hbytes
    have hdigit := foldlM_digit hfold '|' hbar
    rw [digit_bar] at hdigit
    cases hdigit

theorem bar_digits (n : Nat) : '|' ∉ Nat.toDigits 10 n := fun h => by
  have hdigit := Nat.isDigit_of_mem_toDigits (by decide) (by decide) h
  revert hdigit
  decide

theorem toDigits_inj {m n : Nat} (h : Nat.toDigits 10 m = Nat.toDigits 10 n) : m = n := by
  rw [← Nat.ofDigitChars_toDigits (b := 10) (n := m) (by decide) (by decide), h,
    Nat.ofDigitChars_toDigits (by decide) (by decide)]

theorem split_bar {xs ys xs' ys' : List Char} (h : '|' ∉ xs) (h' : '|' ∉ xs')
    (heq : xs ++ '|' :: ys = xs' ++ '|' :: ys') :
    xs = xs' ∧ ys = ys' := by
  induction xs generalizing xs' with
  | nil =>
    cases xs' with
    | nil => exact ⟨rfl, (List.cons.inj heq).2⟩
    | cons x xs' => exact absurd ((List.cons.inj heq).1 ▸ mem_cons_self) h'
  | cons x xs ih =>
    cases xs' with
    | nil => exact absurd ((List.cons.inj heq).1 ▸ mem_cons_self) h
    | cons x' xs' =>
      obtain ⟨rfl, htail⟩ := List.cons.inj heq
      obtain ⟨rfl, hys⟩ := ih (not_mem_of_not_mem_cons h) (not_mem_of_not_mem_cons h') htail
      exact ⟨rfl, hys⟩

theorem key_inj (h : '|' ∉ place.label) (h' : '|' ∉ place'.label) (heq : place.key = place'.key) :
    place = place' := by
  obtain ⟨label, ip, port⟩ := place
  obtain ⟨label', ip', port'⟩ := place'
  obtain ⟨rfl, hrest⟩ := split_bar h h' heq
  obtain ⟨hip, hport⟩ := split_bar (bar_digits _) (bar_digits _) hrest
  obtain rfl := UInt32.toNat_inj.mp (toDigits_inj hip)
  obtain rfl := UInt16.toNat_inj.mp (toDigits_inj hport)
  rfl

theorem lookup_foldl {join : Table (List UInt8) Bool → List UInt8 → Table (List UInt8) Bool}
    (hjoin : ∀ t x, ((join t x).lookup id).isSome = true ↔ (t.lookup id).isSome = true ∨ id = x)
    (ids : List (List UInt8))
    (t : Table (List UInt8) Bool) :
    ((ids.foldl (fun t id => if id = [] then t else join t id) t).lookup id).isSome = true ↔
      (t.lookup id).isSome = true ∨ id ≠ [] ∧ id ∈ ids := by
  induction ids generalizing t with
  | nil => simp
  | cons x ids ih =>
    rw [foldl_cons, ih, mem_cons]
    by_cases hx : x = []
    · rw [if_pos hx]
      subst hx
      tauto
    · rw [if_neg hx, hjoin]
      constructor
      · rintro ((hold | rfl) | hrest)
        · exact .inl hold
        · exact .inr ⟨hx, .inl rfl⟩
        · exact .inr ⟨hrest.1, .inr hrest.2⟩
      · tauto

theorem acceptTable_lookup : ((acceptTable w).lookup id).isSome = true ↔
    id ≠ [] ∧ (id ∈ w.acceptIds ∨ id ∈ w.acceptPreviousIds) := by
  have hcurrent : ∀ (t : Table (List UInt8) Bool) x,
      ((t.insert x false).lookup id).isSome = true ↔ (t.lookup id).isSome = true ∨ id = x := fun t x => by
    by_cases hx : id = x
    · subst hx
      simp
    · rw [lookup_insert_ne hx]
      simp [hx]
  have hprevious : ∀ (t : Table (List UInt8) Bool) x,
      ((if (t.lookup x).isSome then t else t.insert x true).lookup id).isSome = true ↔
      (t.lookup id).isSome = true ∨ id = x :=
    fun t x => by
      by_cases hx : id = x
      · subst hx
        split <;> simp [*]
      · split
        · simp [hx]
        · rw [lookup_insert_ne hx]
          simp [hx]
  rw [acceptTable, lookup_foldl hcurrent, lookup_foldl hprevious, lookup_empty]
  simp only [isSome_none, Bool.false_eq_true, false_or]
  tauto

theorem reported_append {n : Notice} (h : Reported (past ++ [n]) place peer) :
    n = .found place peer ∨ Reported past place peer ∧ (∀ q, n ≠ .lost place q) ∧ n ≠ .stopped := by
  obtain ⟨a, b, hpast, hlost, hstopped⟩ := h
  rcases eq_nil_or_concat b with rfl | ⟨b, last, rfl⟩
  · obtain ⟨-, hlast⟩ := append_inj' hpast rfl
    exact .inl (List.cons.inj hlast).1
  · rw [concat_eq_append, ← cons_append, ← append_assoc] at hpast
    obtain ⟨hinit, hlast⟩ := append_inj' hpast rfl
    obtain rfl := (List.cons.inj hlast).1
    simp only [concat_eq_append, mem_append, mem_singleton, not_or] at hlost hstopped
    exact .inr ⟨⟨a, b, hinit, fun q => (hlost q).1, hstopped.1⟩,
      fun q heq => (hlost q).2 heq.symm, Ne.symm hstopped.2⟩

/-- What the table of peers seen and the lookup of the window have to do with what the application was told. -/
structure Inv (s : Scope) (past : List Notice) : Prop where
  accept : s.accept = acceptTable s.win
  reported : ∀ place peer, Reported past place peer → s.seen.lookup place.key = some peer ∧ s.browse.isSome = true ∧
    decodeInstanceLabel place.label = some peer.instanceId ∧ peer.instanceId ≠ []

namespace Inv

theorem keep (h : Inv s past) (haccept : s'.accept = acceptTable s'.win) (hseen : s'.seen = s.seen)
    (hbrowse : s.browse.isSome = true → s'.browse.isSome = true) : Inv s' (past ++ []) where
  accept := haccept
  reported place peer hreported := by
    rw [append_nil] at hreported
    obtain ⟨hlookup, hsome, hdecodes⟩ := h.reported place peer hreported
    exact ⟨hseen ▸ hlookup, hbrowse hsome, hdecodes⟩

theorem stopped (haccept : s'.accept = acceptTable s'.win) : Inv s' (past ++ [.stopped]) where
  accept := haccept
  reported place peer hreported := by
    rcases reported_append hreported with hn | ⟨-, -, hn⟩
    · cases hn
    · exact absurd rfl hn

theorem found (h : Inv s past) (hbrowse : s.browse.isSome = true) (hnew : s.seen.lookup place.key = none)
    (hdecodes : decodeInstanceLabel place.label = some peer.instanceId) (hid : peer.instanceId ≠ []) :
    Inv { s with seen := s.seen.insert place.key peer } (past ++ [.found place peer]) where
  accept := h.accept
  reported place' peer' hreported := by
    rcases reported_append hreported with hn | ⟨hold, -, -⟩
    · cases hn
      exact ⟨lookup_insert .., hbrowse, hdecodes, hid⟩
    · obtain ⟨hlookup, -, hdecodes'⟩ := h.reported place' peer' hold
      refine ⟨?_, hbrowse, hdecodes'⟩
      rw [lookup_insert_ne]
      · exact hlookup
      · intro hkey
        rw [hkey, hnew] at hlookup
        cases hlookup

theorem lost (h : Inv s past) (hdecodes : (decodeInstanceLabel place.label).isSome = true) :
    Inv { s with seen := s.seen.erase place.key } (past ++ [.lost place peer]) where
  accept := h.accept
  reported place' peer' hreported := by
    rcases reported_append hreported with hn | ⟨hold, hother, -⟩
    · cases hn
    · obtain ⟨hlookup, hbrowse, hdecodes'⟩ := h.reported place' peer' hold
      refine ⟨?_, hbrowse, hdecodes'⟩
      rw [lookup_erase_ne]
      · exact hlookup
      · intro hkey
        obtain rfl := key_inj (decoded_bar (by rw [hdecodes'.1]; rfl)) (decoded_bar hdecodes) hkey
        exact hother peer rfl

end Inv

/-- What the filters let through: an event of the browsing that names a device of the window, and not the scope. -/
structure Passes (s : Scope) (what : DnsSdSighting) (id : List UInt8) : Prop where
  browsing : s.browse.isSome = true
  serviceType : what.serviceType = s.serviceType
  other : what.instanceLabel ≠ s.ownLabel
  decodes : decodeInstanceLabel what.instanceLabel = some id
  accepted : (s.accept.lookup id).isSome = true

theorem onEvent_filtered (h : ∀ id, ¬Passes s what id) (kind : DnsSdEventKind) : s.onEvent kind what = (s, []) := by
  unfold Scope.onEvent
  split
  · rfl
  · next hopen =>
    rw [not_or, not_not] at hopen
    split
    · rfl
    · next hother =>
      split
      · rfl
      · next id hdecodes =>
        split
        · rfl
        · next previous haccepted =>
          have hbrowsing := isSome_iff_ne_none.mpr fun hnone => hopen.1 (isNone_iff_eq_none.mpr hnone)
          exact absurd ⟨hbrowsing, hopen.2, hother, hdecodes, by rw [haccepted]; rfl⟩ (h id)

theorem onEvent_passes (h : Passes s what id) : ∃ previous,
    s.onEvent .found what = (if (s.seen.lookup what.place.key).isSome then (s, [])
      else ({ s with seen := s.seen.insert what.place.key ⟨id, what.hostLabel, what.ipv4, what.port, previous⟩ },
        [.found what.place ⟨id, what.hostLabel, what.ipv4, what.port, previous⟩])) ∧
    s.onEvent .lost what = (match s.seen.lookup what.place.key with
      | none => (s, [])
      | some p => ({ s with seen := s.seen.erase what.place.key }, [.lost what.place p])) := by
  obtain ⟨previous, hprevious⟩ := isSome_iff_exists.mp h.accepted
  have hopen : ¬(s.browse.isNone = true ∨ what.serviceType ≠ s.serviceType) := by
    rw [not_or, not_not]
    exact ⟨fun hnone => isSome_iff_ne_none.mp h.browsing (isNone_iff_eq_none.mp hnone), h.serviceType⟩
  refine ⟨previous, ?_, ?_⟩
  · rw [Scope.onEvent, if_neg hopen, if_neg h.other, h.decodes]
    simp only [hprevious]
  · rw [Scope.onEvent, if_neg hopen, if_neg h.other, h.decodes]
    simp only [hprevious]

theorem registerCurrent_keeps (s : Scope) : s.registerCurrent.accept = s.accept ∧ s.registerCurrent.win = s.win ∧
    s.registerCurrent.seen = s.seen ∧ s.registerCurrent.browse = s.browse := by
  unfold Scope.registerCurrent
  split
  · exact ⟨rfl, rfl, rfl, rfl⟩
  · exact ⟨rfl, rfl, rfl, rfl⟩

namespace Inv

theorem event (h : Inv s past) (kind : DnsSdEventKind) (what : DnsSdSighting) :
    Inv (s.onEvent kind what).1 (past ++ (s.onEvent kind what).2) := by
  have hsilent : Inv s (past ++ []) := h.keep h.accept rfl fun hsome => hsome
  by_cases hpasses : ∃ id, Passes s what id
  · obtain ⟨id, hpasses⟩ := hpasses
    obtain ⟨previous, hfound, hlost⟩ := onEvent_passes hpasses
    cases kind with
    | found =>
      rw [hfound]
      split
      · exact hsilent
      · next hseen =>
        have haccepted := hpasses.accepted
        rw [h.accept, acceptTable_lookup] at haccepted
        exact h.found hpasses.browsing (not_isSome_iff_eq_none.mp hseen) hpasses.decodes haccepted.1
    | lost =>
      rw [hlost]
      split
      · exact hsilent
      · exact h.lost (by rw [DnsSdSighting.place, hpasses.decodes]; rfl)
  · rw [onEvent_filtered (not_exists.mp hpasses)]
    exact hsilent

theorem registerCurrent (h : Inv s past) (haccept : s'.accept = acceptTable s'.win) (hseen : s'.seen = s.seen)
    (hbrowse : s'.browse = s.browse) : Inv s'.registerCurrent (past ++ []) := by
  obtain ⟨haccept', hwin', hseen', hbrowse'⟩ := registerCurrent_keeps s'
  refine h.keep ?_ (hseen'.trans hseen) fun hsome => ?_
  · rw [haccept', hwin', haccept]
  · rwa [hbrowse', hbrowse]

theorem step (h : Inv s past) (hstep : s.step l = some (s', notices)) : Inv s' (past ++ notices) := by
  cases l with
  | startAdvertising w =>
    obtain ⟨rfl, rfl⟩ := Prod.mk.inj (some.inj hstep)
    split
    · exact h.keep h.accept rfl id
    · exact h.registerCurrent rfl rfl rfl
  | stopAdvertising =>
    cases hstep
    exact h.keep h.accept rfl id
  | startBrowsing w =>
    obtain ⟨rfl, rfl⟩ := Prod.mk.inj (some.inj hstep)
    split
    · exact h.keep h.accept rfl id
    · exact h.keep rfl rfl fun _ => rfl
  | stopBrowsing =>
    obtain hstep := some.inj hstep
    unfold Scope.stopBrowse at hstep
    split at hstep
    · cases hstep
      exact .stopped h.accept
    · cases hstep
      exact h.keep h.accept rfl id
  | windowBoundary w =>
    obtain ⟨rfl, rfl⟩ := Prod.mk.inj (some.inj hstep)
    split
    · exact h.registerCurrent rfl rfl rfl
    · exact h.keep rfl rfl id
  | registered hd =>
    rw [Scope.step] at hstep
    split at hstep
    · cases hstep
    · obtain ⟨rfl, rfl⟩ := Prod.mk.inj (some.inj hstep)
      split
      · exact h.keep h.accept rfl id
      · exact h.keep h.accept rfl id
  | browsing hd =>
    rw [Scope.step] at hstep
    split at hstep
    · cases hstep
    · cases hd with
      | none =>
        cases hstep
        exact .stopped h.accept
      | some b =>
        cases hstep
        exact h.keep h.accept rfl fun _ => rfl
  | event kind what =>
    have hevent := h.event kind what
    rwa [some.inj hstep] at hevent

end Inv

theorem Inv.start (serviceType : List Char) : Inv { serviceType } [] where
  accept := rfl
  reported := by
    rintro place peer ⟨a, b, hpast, -⟩
    cases a <;> cases hpast

theorem moments_inv {labels : List Label} {ms : List Moment} (hinv : Inv s past)
    (h : moments s past labels = some ms) :
    ∀ m ∈ ms, Inv m.before m.past ∧ ∃ s', m.before.step m.label = some (s', m.notices) := by
  induction labels generalizing s past ms with
  | nil =>
    cases h
    exact nofun
  | cons l labels ih =>
    obtain ⟨⟨s', notices⟩, hstep, hrest⟩ := bind_eq_some_iff.mp h
    obtain ⟨ms', hms', rfl⟩ := map_eq_some_iff.mp hrest
    refine forall_mem_cons.mpr ⟨⟨hinv, s', hstep⟩, ih (hinv.step hstep) hms'⟩

theorem found_of_step (hstep : s.step l = some (s', notices)) (hfound : .found place peer ∈ notices) :
    ∃ what, Passes s what peer.instanceId ∧ s.seen.lookup what.place.key = none ∧ place = what.place := by
  cases l with
  | startAdvertising w | stopAdvertising | startBrowsing w | windowBoundary w =>
    obtain ⟨-, rfl⟩ := Prod.mk.inj (some.inj hstep)
    cases hfound
  | stopBrowsing =>
    have hstop : s.stopBrowse = (s', notices) := some.inj hstep
    unfold Scope.stopBrowse at hstop
    split at hstop
    · cases hstop
      cases mem_singleton.mp hfound
    · cases hstop
      cases hfound
  | registered hd =>
    rw [Scope.step] at hstep
    split at hstep
    · cases hstep
    · obtain ⟨-, rfl⟩ := Prod.mk.inj (some.inj hstep)
      cases hfound
  | browsing hd =>
    rw [Scope.step] at hstep
    split at hstep
    · cases hstep
    · cases hd with
      | none =>
        cases hstep
        cases mem_singleton.mp hfound
      | some b =>
        cases hstep
        cases hfound
  | event kind what =>
    have hevent : s.onEvent kind what = (s', notices) := some.inj hstep
    by_cases hpasses : ∃ id, Passes s what id
    · obtain ⟨id, hpasses⟩ := hpasses
      obtain ⟨previous, hfoundEq, hlostEq⟩ := onEvent_passes hpasses
      cases kind with
      | found =>
        rw [hfoundEq] at hevent
        split at hevent
        · cases hevent
          cases hfound
        · next hseen =>
          cases hevent
          cases mem_singleton.mp hfound
          exact ⟨what, hpasses, not_isSome_iff_eq_none.mp hseen, rfl⟩
      | lost =>
        rw [hlostEq] at hevent
        split at hevent
        · cases hevent
          cases hfound
        · cases hevent
          cases mem_singleton.mp hfound
    · rw [onEvent_filtered (not_exists.mp hpasses)] at hevent
      cases hevent
      cases hfound

namespace Moment

variable {m : Moment}

theorem soundFound (h : Inv m.before m.past) (hstep : m.before.step m.label = some (s', m.notices)) :
    m.SoundFound := by
  intro place peer hfound
  obtain ⟨what, hpasses, hseen, rfl⟩ := found_of_step hstep hfound
  have haccepted := hpasses.accepted
  rw [h.accept, acceptTable_lookup] at haccepted
  refine ⟨hpasses.decodes, haccepted.1, haccepted.2, hpasses.other, fun q hreported => ?_⟩
  cases hseen.symm.trans (h.reported _ q hreported).1

theorem soundLost_iff (h : Inv m.before m.past) (hstep : m.before.step m.label = some (s', m.notices)) :
    m.SoundLost ↔ m.Heard := by
  refine forall₂_congr fun what peer => forall₂_congr fun hlabel htype => forall_congr' fun hreported => ?_
  rw [hlabel] at hstep
  have hnotices : (m.before.onEvent .lost what).2 = m.notices := congrArg Prod.snd (some.inj hstep)
  obtain ⟨hseen, hbrowsing, hdecodes, hid⟩ := h.reported _ peer hreported
  constructor
  · intro hlost
    by_cases hpasses : ∃ id, Passes m.before what id
    · obtain ⟨id, hpasses⟩ := hpasses
      obtain rfl : peer.instanceId = id := some.inj (hdecodes.symm.trans hpasses.decodes)
      have haccepted := hpasses.accepted
      rw [h.accept, acceptTable_lookup] at haccepted
      exact ⟨hpasses.other, haccepted.2⟩
    · rw [onEvent_filtered (not_exists.mp hpasses), hlost] at hnotices
      cases hnotices
  · rintro ⟨hother, haccepted⟩
    have hpasses : Passes m.before what peer.instanceId :=
      ⟨hbrowsing, htype, hother, hdecodes, by rw [h.accept, acceptTable_lookup]; exact ⟨hid, haccepted⟩⟩
    obtain ⟨previous, -, heq⟩ := onEvent_passes hpasses
    rw [heq, hseen] at hnotices
    exact hnotices.symm

end Moment

end

/-- The scope is right about who it finds in every run, and about who it loses exactly in the runs in which a
peer that goes is one of the window in force. -/
theorem found_and_lost (serviceType : List Char) (labels : List Label) (ms : List Moment)
    (h : moments { serviceType } [] labels = some ms) :
    (∀ m ∈ ms, m.SoundFound) ∧ ((∀ m ∈ ms, m.SoundLost) ↔ ∀ m ∈ ms, m.Heard) := by
  have hinv := moments_inv (.start serviceType) h
  refine ⟨fun m hm => ?_, forall₂_congr fun m hm => ?_⟩
  · obtain ⟨hbefore, s', hstep⟩ := hinv m hm
    exact Moment.soundFound hbefore hstep
  · obtain ⟨hbefore, s', hstep⟩ := hinv m hm
    exact Moment.soundLost_iff hbefore hstep

def sighting : DnsSdSighting := ⟨"_quark._tcp".toList, encodeInstanceLabel [1], "host".toList, 0x0A000001, 7000⟩

/-- It goes in the window after the one in which it was found. -/
def goesAtOnce : List Label :=
  [.startBrowsing { acceptIds := [[1]] }, .browsing (some 1), .event .found sighting,
    .windowBoundary { acceptIds := [[2]], acceptPreviousIds := [[1]] }, .event .lost sighting]

theorem found_and_lost_at_once : ∃ ms, moments { serviceType := "_quark._tcp".toList } [] goesAtOnce = some ms ∧
    (ms.map Moment.notices).flatten = [.found sighting.place ⟨[1], "host".toList, 0x0A000001, 7000, false⟩,
      .lost sighting.place ⟨[1], "host".toList, 0x0A000001, 7000, false⟩] ∧
    (∀ m ∈ ms, m.SoundFound) ∧ ∀ m ∈ ms, m.SoundLost := by
  obtain ⟨ms, hms⟩ : ∃ ms, moments { serviceType := "_quark._tcp".toList } [] goesAtOnce = some ms := ⟨_, rfl⟩
  have hboth := found_and_lost _ goesAtOnce ms hms
  cases hms
  refine ⟨_, rfl, rfl, hboth.1, hboth.2.mpr ?_⟩
  simp only [forall_mem_cons]
  refine ⟨nofun, nofun, nofun, nofun, fun what peer hlabel _ hreported => ?_, fun _ hm => absurd hm not_mem_nil⟩
  cases hlabel
  -- the one report in the past is that of the device
  obtain ⟨a, b, hpast, -, -⟩ := hreported
  have hin : Notice.found sighting.place peer ∈ a ++ .found sighting.place peer :: b :=
    mem_append_right a mem_cons_self
  rw [← hpast] at hin
  replace hin : Notice.found sighting.place peer ∈
    [Notice.found sighting.place ⟨[1], "host".toList, 0x0A000001, 7000, false⟩] := hin
  cases mem_singleton.mp hin
  exact ⟨by decide, .inr mem_cons_self⟩

def goesLater : List Label :=
  [.startBrowsing { acceptIds := [[1]] }, .browsing (some 1), .event .found sighting,
    .windowBoundary { acceptIds := [[2]], acceptPreviousIds := [[1]] },
    .windowBoundary { acceptIds := [[3]], acceptPreviousIds := [[2]] }, .event .lost sighting]

theorem lost_unheard : ∃ ms m, moments { serviceType := "_quark._tcp".toList } [] goesLater = some ms ∧
    m ∈ ms ∧ ¬m.SoundLost := by
  refine ⟨_, _, rfl, mem_of_getElem? (i := 5) rfl, fun hsound => ?_⟩
  cases hsound sighting ⟨[1], "host".toList, 0x0A000001, 7000, false⟩ rfl rfl ⟨[], [], rfl, nofun, nofun⟩

end Quark.LanDiscovery
