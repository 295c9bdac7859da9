import Mathlib.Data.List.Perm.Basic
import Quark.Enrollment

/-! Every presentation is answered once; a ticket gives one issuance and takes so many wrong tags, as long as no two
tickets draw one id. -/
namespace Quark.Enrol

open AList Machine State List Option UInt32

/-- Where the reply of a presentation still is with the presentation itself. -/
def Call.opened : Call → Bool
  | .checking .. | .consuming .. => true
  | _ => false

def Call.reserves (id : TicketId) : Call → Bool
  | .checking req .. | .consuming req .. => req.ticketId = id
  | _ => false

def Call.hands (id : TicketId) : Call → Bool
  | .handing r => r.ticketId = id
  | _ => false

namespace State

variable (s : State)

/-- How often the reply of presentation `i` is held: by itself, by an answer on its way, by an issuance in
flight, or by the answers given. -/
def opened (i : Nat) : Nat := if s.calls[i]?.any Call.opened then 1 else 0
def waiting (i : Nat) : Nat := s.answers.countP fun a => a.call = i
def inFlight (i : Nat) : Nat := s.shared.pending.entries.countP fun e => e.2.reply = i
def answered (i : Nat) : Nat := s.log.countP fun a => a.call = i
def held (i : Nat) : Nat := s.opened i + s.waiting i + s.inFlight i + s.answered i

def reserved (id : TicketId) : Nat := s.calls.countP (Call.reserves id)
def handing (id : TicketId) : Nat := s.calls.countP (Call.hands id)
def issuedFor (id : TicketId) : Nat := s.issued.countP fun r => r.ticketId = id

end State

/-- The issuances in flight. -/
structure Flights (cfg : Config) (s : State) : Prop where
  keys : ∀ id ∈ s.shared.pending, id ≤ s.shared.nextRequestId
  room : s.shared.pending.size ≤ cfg.maxPendingIssues
  down : s.down = true → s.shared.pending = ∅ ∧ s.calls.all Call.isDone = true

/-- No reply is lost or doubled. -/
def Once (s : State) : Prop := ∀ i, s.held i = if i < s.calls.length then 1 else 0

/-- What is owed to one ticket: its reservations and wrong tags against its attempts, and its one issuance. -/
structure Account (cfg : Config) (s : State) (id : TicketId) : Prop where
  bounded : s.reserved id + s.wrong.count id ≤ cfg.maxAttemptsPerTicket.toNat
  covered : ∀ t, s.shared.tickets.lookup id = some t → s.reserved id + s.wrong.count id ≤ t.attempts.toNat ∧
    t.attempts ≤ cfg.maxAttemptsPerTicket
  single : s.started.count id ≤ 1
  unused : ∀ t, s.shared.tickets.lookup id = some t → t.consumed = false → s.started.count id = 0
  handed : s.issuedFor id + s.handing id = s.started.count id
  undrawn : id ∉ s.drawn → s.shared.tickets.lookup id = none ∧ s.reserved id + s.wrong.count id = 0 ∧
    s.started.count id = 0

section

variable {cfg : Config} {crypto : EnrolCrypto} {s s' : State} {i j : Nat} {id : TicketId} {c : Call}

theorem countP_set_add {A : Type} {p : A → Bool} {l : List A} {a : A} (h : i < l.length) :
    (l.set i a).countP p + (if p l[i] then 1 else 0) = l.countP p + if p a then 1 else 0 := by
  have hpos : p l[i] = true → 0 < l.countP p := fun hp => countP_pos_iff.mpr ⟨_, getElem_mem h, hp⟩
  rw [countP_set h]
  split
  · next hp =>
    have := hpos hp
    omega
  · omega

theorem opened_set (h : i < s.calls.length) :
    ({ s with calls := s.calls.set i c } : State).opened j =
      if j = i then (if c.opened then 1 else 0) else s.opened j := by
  rw [opened, opened]
  dsimp only
  by_cases hj : j = i
  · subst hj
    rw [getElem?_set_self h, if_pos rfl]
    rfl
  · rw [getElem?_set_ne (Ne.symm hj), if_neg hj]

theorem opened_of_get (h : s.calls[i]? = some c) : s.opened i = if c.opened then 1 else 0 := by
  rw [opened, h]
  rfl

/-- The reply of presentation `i`, wherever it was, is held once more than before in the open. -/
def Moves (s s' : State) (i : Nat) : Prop :=
  ∀ j, s'.held j + (if j = i then s.opened i else 0) = s.held j + if j = i then 1 else 0

/-- Presentation `i` has no answer yet, or is a new one. -/
def Owed (s : State) (i : Nat) : Prop :=
  ∀ j, s.held j + (if j = i then 1 else 0) = (if j < s.calls.length then 1 else 0) + if j = i then s.opened i else 0

theorem Moves.once (h : Moves s s' i) (howed : Owed s i) (hlength : s'.calls.length = s.calls.length) : Once s' := by
  intro j
  have hmoves := h j
  have hj := howed j
  rw [hlength]
  omega

theorem Once.owed (h : Once s) (hopened : s.opened i = 1) : Owed s i := by
  intro j
  rw [h j, hopened]

theorem moves_refuse {req : EnrolRequest} {role : Option Role} {status : Status} (h : i < s.calls.length) :
    Moves s (s.refuse i req role status) i := by
  intro j
  have hopened : (s.refuse i req role status).opened j = if j = i then 0 else s.opened j := opened_set h
  have hwaiting : (s.refuse i req role status).waiting j = s.waiting j + if j = i then 1 else 0 := by
    rw [waiting, waiting, refuse, countP_append, countP_singleton]
    by_cases hj : j = i
    · rw [if_pos hj, if_pos (by simp [hj])]
    · rw [if_neg hj, if_neg (by simpa using fun heq => hj heq.symm)]
  rw [held, held, hopened, hwaiting]
  change _ + _ + s.inFlight j + s.answered j + _ = _
  by_cases hj : j = i
  · subst hj
    rw [if_pos rfl, if_pos rfl, if_pos rfl]
    omega
  · rw [if_neg hj, if_neg hj, if_neg hj]
    omega

theorem moves_set (h : i < s.calls.length) (hc : c.opened = true) :
    Moves s { s with calls := s.calls.set i c } i := by
  intro j
  rw [held, held, opened_set h, hc]
  change _ + s.waiting j + s.inFlight j + s.answered j + _ = _
  by_cases hj : j = i
  · subst hj
    rw [if_pos rfl, if_pos rfl, if_pos rfl, if_pos rfl]
    omega
  · rw [if_neg hj, if_neg hj, if_neg hj]

theorem countP_insert {K V : Type} [DecidableEq K] {t : Table K V} {k : K} {v : V} {p : (Sigma fun _ : K => V) → Bool}
    (h : k ∉ t) : (t.insert k v).entries.countP p = t.entries.countP p + if p ⟨k, v⟩ then 1 else 0 := by
  rw [entries_insert_of_notMem h, countP_cons]

theorem countP_erase {K V : Type} [DecidableEq K] {t : Table K V} {k : K} {v : V} {p : (Sigma fun _ : K => V) → Bool}
    (h : t.lookup k = some v) : (t.erase k).entries.countP p + (if p ⟨k, v⟩ then 1 else 0) = t.entries.countP p := by
  have hmem : k ∈ t.keys := mem_keys.mp (lookup_isSome.mp (by rw [h]; rfl))
  obtain ⟨v', front, back, hnot, hentries, herase⟩ := exists_of_kerase hmem
  have hv : v' = v := by
    have hin : (⟨k, v'⟩ : Sigma fun _ : K => V) ∈ t.entries := hentries ▸ mem_append_right _ mem_cons_self
    exact some.inj ((Table.mem_entries_iff.mp hin).symm.trans h)
  change (t.entries.kerase k).countP p + _ = _
  rw [herase, hentries, hv, countP_append, countP_append, countP_cons]
  omega

theorem moves_begin {shared : Shared} {p : Pending} {n : Nat} {started : List TicketId} (h : i < s.calls.length)
    (hc : c.opened = false) (hnew : n ∉ s.shared.pending) (hp : p.reply = i)
    (hpending : shared.pending = s.shared.pending.insert n p) :
    Moves s { s with shared, calls := s.calls.set i c, started } i := by
  intro j
  have hflight : ({ s with shared, calls := s.calls.set i c, started } : State).inFlight j =
      s.inFlight j + if j = i then 1 else 0 := by
    rw [inFlight, inFlight, hpending, countP_insert hnew]
    by_cases hj : j = i
    · rw [if_pos hj, if_pos (by simp [hj, hp])]
    · rw [if_neg hj, if_neg (by simpa [hp] using fun heq => hj heq.symm)]
  have hopened : ({ s with shared, calls := s.calls.set i c, started } : State).opened j =
      if j = i then 0 else s.opened j := by
    have := @opened_set s i j c h
    rw [hc] at this
    exact this
  rw [held, held, hopened, hflight]
  change _ + s.waiting j + _ + s.answered j + _ = _
  by_cases hj : j = i
  · subst hj
    rw [if_pos rfl, if_pos rfl, if_pos rfl]
    omega
  · rw [if_neg hj, if_neg hj, if_neg hj]
    omega

theorem held_complete (s : State) (n : Nat) (outcome : Option Issued) (nowUnix : UInt64) (j : Nat) :
    (s.complete cfg crypto n outcome nowUnix).held j = s.held j := by
  unfold complete
  split
  · rfl
  · next p hp =>
    have hcall : (p.complete cfg crypto outcome nowUnix).call = p.reply := by
      unfold Pending.complete
      dsimp only
      split
      · rfl
      · split <;> rfl
    have hflight := @countP_erase _ _ _ _ _ _ (fun e => decide (e.2.reply = j)) hp
    rw [held, held, waiting, inFlight]
    dsimp only
    rw [countP_append, countP_singleton, hcall]
    change s.opened j + (s.waiting j + _) + _ + s.answered j = _
    rw [show s.inFlight j = _ from hflight.symm]
    dsimp only
    omega

theorem countP_cut (ps : List Pending) (status : Status) (j : Nat) :
    (ps.map (Pending.cut status)).countP (fun a => a.call = j) = ps.countP fun p => p.reply = j := by
  rw [countP_map]
  rfl

theorem held_expire (s : State) (now : Ticks) (j : Nat) : (s.expire cfg now).held j = s.held j := by
  have hsplit : ∀ (es : List (Sigma fun _ : Nat => Pending)) (late : Pending → Bool),
      (((es.reverse.map Sigma.snd).filter late).map (Pending.cut .timedOut)).countP (fun a => a.call = j) +
        (es.filter fun e => !late e.2).countP (fun e => e.2.reply = j) = es.countP fun e => e.2.reply = j := by
    intro es late
    rw [countP_cut, map_reverse, filter_reverse, countP_reverse]
    induction es with
    | nil => rfl
    | cons e es ih =>
      rw [map_cons, filter_cons, filter_cons, countP_cons]
      cases hlate : late e.2 with
      | true =>
        rw [if_pos rfl, if_neg (by simp), countP_cons]
        omega
      | false =>
        rw [if_neg (by simp), if_pos (by simp), countP_cons]
        omega
  let late : Pending → Bool := fun p => cfg.issueTimeout ≤ since now p.started
  have hwaiting : (s.expire cfg now).waiting j = s.waiting j +
      (((s.shared.pending.entries.reverse.map Sigma.snd).filter late).map (Pending.cut .timedOut)).countP
        fun a => a.call = j := countP_append
  have hflight : (s.expire cfg now).inFlight j =
      (s.shared.pending.entries.filter fun e => !late e.2).countP fun e => e.2.reply = j := rfl
  have hentries : _ = s.inFlight j := hsplit s.shared.pending.entries late
  rw [held, held, hwaiting, hflight, ← hentries]
  change s.opened j + _ + _ + s.answered j = _
  omega

theorem held_shutdown (s : State) (j : Nat) : s.shutdown.held j = s.held j := by
  have hwaiting : s.shutdown.waiting j = s.waiting j + s.inFlight j := by
    rw [waiting, shutdown, countP_append, countP_cut, map_reverse, countP_reverse,
      countP_map]
    rfl
  rw [held, held, hwaiting]
  change s.opened j + _ + 0 + s.answered j = _
  omega

theorem held_answer {k : Nat} {a : Answer} (h : s.answers[k]? = some a) (j : Nat) :
    ({ s with answers := s.answers.eraseIdx k, log := s.log ++ [a] } : State).held j = s.held j := by
  obtain ⟨hk, ha⟩ := List.getElem?_eq_some_iff.mp h
  have hwaiting := (List.getElem_cons_eraseIdx_perm hk).countP_eq fun a => decide (a.call = j)
  rw [List.countP_cons, ha] at hwaiting
  rw [held, held, waiting, answered]
  dsimp only
  rw [countP_append, countP_singleton]
  change s.opened j + _ + s.inFlight j + (s.answered j + _) = s.opened j + s.waiting j + s.inFlight j + s.answered j
  have hflight : s.waiting j = _ := hwaiting.symm
  omega

end

section

variable {cfg : Config} {crypto : EnrolCrypto} {s s' : State} {i : Nat} {id : TicketId} {c c' : Call}

attribute [local simp] Call.reserves Call.hands

theorem reserved_set (h : s.calls[i]? = some c) :
    (s.calls.set i c').countP (Call.reserves id) + (if c.reserves id then 1 else 0) =
      s.reserved id + if c'.reserves id then 1 else 0 := by
  obtain ⟨hi, rfl⟩ := List.getElem?_eq_some_iff.mp h
  exact countP_set_add hi

theorem handing_set (h : s.calls[i]? = some c) :
    (s.calls.set i c').countP (Call.hands id) + (if c.hands id then 1 else 0) =
      s.handing id + if c'.hands id then 1 else 0 := by
  obtain ⟨hi, rfl⟩ := List.getElem?_eq_some_iff.mp h
  exact countP_set_add hi

theorem Account.mono (h : Account cfg s id)
    (howed : s'.reserved id + s'.wrong.count id ≤ s.reserved id + s.wrong.count id)
    (htickets : ∀ t, s'.shared.tickets.lookup id = some t → s.shared.tickets.lookup id = some t)
    (hstarted : s'.started = s.started) (hhanded : s'.issuedFor id + s'.handing id = s.issuedFor id + s.handing id)
    (hdrawn : ∀ id ∈ s.drawn, id ∈ s'.drawn) : Account cfg s' id := by
  refine ⟨howed.trans h.bounded, fun t ht => ?_, hstarted ▸ h.single, fun t ht hconsumed => ?_, ?_, fun hnot => ?_⟩
  · obtain ⟨hcovered, hmax⟩ := h.covered t (htickets t ht)
    exact ⟨howed.trans hcovered, hmax⟩
  · rw [hstarted]
    exact h.unused t (htickets t ht) hconsumed
  · rw [hhanded, hstarted]
    exact h.handed
  · obtain ⟨hnone, hzero, hcount⟩ := h.undrawn fun hin => hnot (hdrawn id hin)
    refine ⟨?_, Nat.le_zero.mp (hzero ▸ howed), hstarted ▸ hcount⟩
    by_contra hsome
    obtain ⟨t, ht⟩ := ne_none_iff_exists'.mp hsome
    rw [htickets t ht] at hnone
    cases hnone

theorem Account.drawn (h : Account cfg s id) {t : TicketState} (ht : s.shared.tickets.lookup id = some t) :
    id ∈ s.drawn := by
  by_contra hnot
  rw [(h.undrawn hnot).1] at ht
  cases ht

theorem Account.write (h : Account cfg s id) {key : TicketId} {t t' : TicketState}
    (ht : s.shared.tickets.lookup key = some t) (htickets : s'.shared.tickets = s.shared.tickets.insert key t')
    (hwrong : s'.wrong = s.wrong) (hdrawn : s'.drawn = s.drawn)
    (hhanded : s'.issuedFor id + s'.handing id = s'.started.count id)
    (hothers : key ≠ id → s'.reserved id = s.reserved id ∧ s'.started.count id = s.started.count id)
    (hown : key = id → s'.reserved id + s.wrong.count id ≤ t'.attempts.toNat ∧
    t'.attempts ≤ cfg.maxAttemptsPerTicket ∧
      s'.started.count id ≤ 1 ∧ (t'.consumed = false → s'.started.count id = 0)) : Account cfg s' id := by
  by_cases hid : key = id
  · subst hid
    obtain ⟨hcovered, hmax, hsingle, hunused⟩ := hown rfl
    have hself : ∀ u, s'.shared.tickets.lookup key = some u → u = t' := fun u hu => by
      rw [htickets, lookup_insert] at hu
      exact (some.inj hu).symm
    refine ⟨?_, fun u hu => ?_, hsingle, fun u hu hconsumed => ?_, hhanded,
      fun hnot => absurd (h.drawn ht) (hdrawn ▸ hnot)⟩
    · rw [hwrong]
      exact hcovered.trans (le_iff_toNat_le.mp hmax)
    · rw [hself u hu, hwrong]
      exact ⟨hcovered, hmax⟩
    · exact hunused (hself u hu ▸ hconsumed)
  · obtain ⟨hreserved, hstarted⟩ := hothers hid
    have hsame : s'.shared.tickets.lookup id = s.shared.tickets.lookup id := by
      rw [htickets, lookup_insert_ne (Ne.symm hid)]
    refine ⟨?_, ?_, hstarted ▸ h.single, ?_, hhanded, ?_⟩
    · rw [hreserved, hwrong]
      exact h.bounded
    · rw [hsame, hreserved, hwrong]
      exact h.covered
    · rw [hsame, hstarted]
      exact h.unused
    · rw [hsame, hreserved, hwrong, hstarted, hdrawn]
      exact h.undrawn

theorem Account.reserve (h : Account cfg s id) {req : EnrolRequest} {now : Ticks} {t : TicketState} {shared : Shared}
    (hcall : s.calls[i]? = some .done) (ht : s.shared.tickets.lookup req.ticketId = some t)
    (hroom : t.attempts < cfg.maxAttemptsPerTicket)
    (htickets : shared.tickets = s.shared.tickets.insert req.ticketId { t with attempts := t.attempts + 1 }) :
    Account cfg { s with shared, calls := s.calls.set i (.checking req now t.role t.secret) } id := by
  have hreserved := @reserved_set s i id _ (.checking req now t.role t.secret) hcall
  have hhanding := @handing_set s i id _ (.checking req now t.role t.secret) hcall
  simp only [Call.reserves, Call.hands, Bool.false_eq_true, if_false, add_zero, decide_eq_true_eq]
    at hreserved hhanding
  have hlt := lt_iff_toNat_lt.mp hroom
  have hnext : (t.attempts + 1).toNat = t.attempts.toNat + 1 := by
    have hmax := cfg.maxAttemptsPerTicket.toNat_lt
    rw [UInt32.toNat_add, show (1 : UInt32).toNat = 1 from rfl, Nat.mod_eq_of_lt (by omega)]
  have hcount : reserved { s with shared, calls := s.calls.set i (.checking req now t.role t.secret) } id =
      s.reserved id + if req.ticketId = id then 1 else 0 := hreserved
  refine h.write ht htickets rfl rfl ((congrArg (s.issuedFor id + ·) hhanding).trans h.handed)
    (fun hid => ?_) fun hid => ?_
  · rw [hcount, if_neg hid]
    exact ⟨rfl, rfl⟩
  · subst hid
    obtain ⟨hcovered, -⟩ := h.covered t ht
    rw [hcount, if_pos rfl, hnext, le_iff_toNat_le, hnext]
    exact ⟨by omega, hlt, h.single, h.unused t ht⟩

theorem Account.refund (h : Account cfg s id) {req : EnrolRequest} {now : Ticks} {role : Role} {spki : List UInt8}
    {t : TicketState} {shared : Shared} {answers : List Answer}
    (hcall : s.calls[i]? = some (.consuming req now role spki))
    (ht : s.shared.tickets.lookup req.ticketId = some t)
    (htickets : shared.tickets = s.shared.tickets.insert req.ticketId { t with attempts := t.attempts - 1 }) :
    Account cfg { s with shared, calls := s.calls.set i .done, answers } id := by
  have hreserved := @reserved_set s i id _ .done hcall
  have hhanding := @handing_set s i id _ .done hcall
  simp only [Call.reserves, Call.hands, Bool.false_eq_true, if_false, add_zero, decide_eq_true_eq]
    at hreserved hhanding
  have hcount : reserved { s with shared, calls := s.calls.set i .done, answers } id +
      (if req.ticketId = id then 1 else 0) = s.reserved id := hreserved
  refine h.write ht htickets rfl rfl ((congrArg (s.issuedFor id + ·) hhanding).trans h.handed)
    (fun hid => ?_) fun hid => ?_
  · rw [if_neg hid] at hcount
    exact ⟨hcount, rfl⟩
  · subst hid
    rw [if_pos rfl] at hcount
    obtain ⟨hcovered, hmax⟩ := h.covered t ht
    have hpos : (1 : UInt32) ≤ t.attempts := by
      rw [le_iff_toNat_le, show (1 : UInt32).toNat = 1 from rfl]
      omega
    rw [UInt32.le_iff_toNat_le] at hmax ⊢
    rw [UInt32.toNat_sub_of_le _ _ hpos, show (1 : UInt32).toNat = 1 from rfl]
    exact ⟨by omega, by omega, h.single, h.unused t ht⟩

theorem Account.begin (h : Account cfg s id) {req : EnrolRequest} {now : Ticks} {role : Role} {spki : List UInt8}
    {t : TicketState} {shared : Shared} {r : IssueRequest} (hcall : s.calls[i]? = some (.consuming req now role spki))
    (ht : s.shared.tickets.lookup req.ticketId = some t) (hunused : t.consumed = false)
    (hr : r.ticketId = req.ticketId)
    (htickets : shared.tickets = s.shared.tickets.insert req.ticketId { t with consumed := true }) :
    Account cfg
      { s with shared, calls := s.calls.set i (.handing r), started := s.started ++ [req.ticketId] } id := by
  have hreserved := @reserved_set s i id _ (.handing r) hcall
  have hhanding := @handing_set s i id _ (.handing r) hcall
  simp only [Call.reserves, Call.hands, Bool.false_eq_true, if_false, add_zero, decide_eq_true_eq, hr]
    at hreserved hhanding
  have hcount : reserved { s with
      shared, calls := s.calls.set i (.handing r), started := s.started ++ [req.ticketId] } id +
      (if req.ticketId = id then 1 else 0) = s.reserved id := hreserved
  have hstarted : (s.started ++ [req.ticketId]).count id = s.started.count id + if req.ticketId = id
      then 1 else 0 := by
    rw [count_append, count_singleton]
    simp only [beq_iff_eq]
  have hhanded : s.issuedFor id + (s.calls.set i (.handing r)).countP (Call.hands id) =
      (s.started ++ [req.ticketId]).count id := by
    rw [hhanding, hstarted, ← add_assoc, h.handed]
  refine h.write ht htickets rfl rfl hhanded (fun hid => ?_) fun hid => ?_
  · rw [if_neg hid] at hcount hstarted
    exact ⟨hcount, hstarted⟩
  · subst hid
    rw [if_pos rfl] at hcount hstarted
    obtain ⟨hcovered, hmax⟩ := h.covered t ht
    refine ⟨?_, hmax, ?_, nofun⟩
    · change _ + s.wrong.count _ ≤ t.attempts.toNat
      omega
    · change (s.started ++ [req.ticketId]).count _ ≤ 1
      rw [hstarted, h.unused t ht hunused]

end

structure Inv (cfg : Config) (s : State) : Prop where
  flights : Flights cfg s
  once : Once s
  account : ∀ id, Account cfg s id

/-- The random generator does not repeat the id of a ticket. -/
def Fresh (s : State) : Label → Prop
  | .issueTicket _ _ _ (some (id, _)) => id ∉ s.drawn
  | _ => True

instance (s : State) (a : Label) : Decidable (Fresh s a) := by
  unfold Fresh
  split <;> infer_instance

section

variable {cfg : Config} {crypto : EnrolCrypto} {s s' : State} {sh sh' : Shared} {i : Nat} {id : TicketId} {c : Call}
variable {a : Label}

/-- Tickets only go. -/
structure Shrinks (sh sh' : Shared) : Prop where
  tickets : ∀ id t, sh'.tickets.lookup id = some t → sh.tickets.lookup id = some t
  pending : sh'.pending = sh.pending
  next : sh'.nextRequestId = sh.nextRequestId

theorem Shrinks.refl (sh : Shared) : Shrinks sh sh := ⟨fun _ _ h => h, rfl, rfl⟩

theorem shrinks_prune (sh : Shared) (now : Ticks) : Shrinks sh (sh.pruneTickets now) := by
  refine ⟨fun id t ht => ?_, rfl, rfl⟩
  rw [Shared.pruneTickets, Table.lookup_eraseIf, filter_eq_some_iff] at ht
  exact ht.1

theorem shrinks_revoke (sh : Shared) (id : TicketId) : Shrinks sh (sh.revokeTicket id).2 := by
  unfold Shared.revokeTicket
  split
  · exact Shrinks.refl sh
  · split
    · exact Shrinks.refl sh
    · refine ⟨fun id' t ht => ?_, rfl, rfl⟩
      by_cases hid : id' = id
      · rw [hid, lookup_erase] at ht
        cases ht
      · rwa [lookup_erase_ne hid] at ht

theorem issueTicket_cases (cfg : Config) (sh : Shared) (role : Role) (ttl now : Ticks)
    (drawn : Option (TicketId × TicketSecret)) :
    (∃ e, (sh.issueTicket cfg role ttl now drawn).1 = .error e ∧
    Shrinks sh (sh.issueTicket cfg role ttl now drawn).2) ∨ ∃ id secret, drawn = some (id, secret) ∧
        (sh.issueTicket cfg role ttl now drawn).1 = .ok ⟨id, secret, role, now + ttl⟩ ∧
        (sh.issueTicket cfg role ttl now drawn).2 = { sh.pruneTickets now with
          tickets := (sh.pruneTickets now).tickets.insert id { secret, role, expiresAt := now + ttl } } := by
  unfold Shared.issueTicket
  split
  · exact .inl ⟨_, rfl, Shrinks.refl sh⟩
  · split
    · exact .inl ⟨_, rfl, Shrinks.refl sh⟩
    · next id secret =>
      dsimp only
      split
      · exact .inl ⟨_, rfl, shrinks_prune sh now⟩
      · split
        · exact .inl ⟨_, rfl, shrinks_prune sh now⟩
        · exact .inr ⟨id, secret, rfl, rfl, rfl⟩

theorem admitSource_frame (cfg : Config) (sh : Shared) (source : List UInt8) (now : Ticks) :
    (sh.admitSource cfg source now).2.tickets = sh.tickets ∧ (sh.admitSource cfg source now).2.pending = sh.pending ∧
      (sh.admitSource cfg source now).2.nextRequestId = sh.nextRequestId := by
  have hcount : ∀ (sh : Shared) w, (sh.countSource cfg source w).2.tickets = sh.tickets ∧
      (sh.countSource cfg source w).2.pending = sh.pending ∧
      (sh.countSource cfg source w).2.nextRequestId = sh.nextRequestId := by
    intro sh w
    unfold Shared.countSource
    split <;> exact ⟨rfl, rfl, rfl⟩
  unfold Shared.admitSource
  split
  · exact hcount _ _
  · generalize (if cfg.maxSources ≤ sh.sources.size then
      sh.sources.eraseIf fun _ w => decide (cfg.sourceWindow ≤ since now w.windowStart) else sh.sources) = sources
    dsimp only
    split
    · exact ⟨rfl, rfl, rfl⟩
    · exact hcount _ _

theorem reserveAttempt_cases (cfg : Config) (sh : Shared) (id : TicketId) (now : Ticks) :
    (∃ role status, sh.reserveAttempt cfg id now = (role, .error status, sh)) ∨
      ∃ t, sh.tickets.lookup id = some t ∧ t.attempts < cfg.maxAttemptsPerTicket ∧
        sh.reserveAttempt cfg id now = (some t.role, .ok (t.role, t.secret),
          { sh with tickets := sh.tickets.insert id { t with attempts := t.attempts + 1 } }) := by
  unfold Shared.reserveAttempt
  split
  · exact .inl ⟨_, _, rfl⟩
  · next t ht =>
    split
    · exact .inl ⟨_, _, rfl⟩
    · split
      · exact .inl ⟨_, _, rfl⟩
      · split
        · exact .inl ⟨_, _, rfl⟩
        · next hroom =>
          split
          · exact .inl ⟨_, _, rfl⟩
          · exact .inr ⟨t, ht, UInt32.not_le.mp hroom, rfl⟩

theorem consume_cases (cfg : Config) (sh : Shared) (i : Nat) (req : EnrolRequest) (now : Ticks) (role : Role)
    (spki : List UInt8) :
    (∃ status, sh.consume cfg i req now role spki = (.error status, sh)) ∨
      (∃ t, sh.tickets.lookup req.ticketId = some t ∧ sh.consume cfg i req now role spki =
        (.error .busy, { sh with tickets := sh.tickets.insert req.ticketId { t with attempts := t.attempts - 1 } })) ∨
      ∃ t, sh.tickets.lookup req.ticketId = some t ∧ now < t.expiresAt ∧ t.consumed = false ∧
        sh.pending.size < cfg.maxPendingIssues ∧
        sh.consume cfg i req now role spki = (.ok (sh.nextRequestId + 1), { sh with
          tickets := sh.tickets.insert req.ticketId { t with consumed := true }
          nextRequestId := sh.nextRequestId + 1
          pending := sh.pending.insert (sh.nextRequestId + 1)
            { reply := i, ticketId := req.ticketId, role, spkiDer := spki, source := req.source,
              started := now } }) := by
  unfold Shared.consume
  split
  · exact .inl ⟨_, rfl⟩
  · next t ht =>
    split
    · exact .inl ⟨_, rfl⟩
    · next hexpires =>
      split
      · exact .inl ⟨_, rfl⟩
      · next hconsumed =>
        split
        · exact .inr (.inl ⟨t, ht, rfl⟩)
        · next hroom =>
          exact .inr (.inr ⟨t, ht, UInt64.not_le.mp hexpires, Bool.eq_false_of_not_eq_true hconsumed,
            not_le.mp hroom, rfl⟩)

theorem Flights.frame (h : Flights cfg s) (hpending : s'.shared.pending = s.shared.pending)
    (hnext : s'.shared.nextRequestId = s.shared.nextRequestId)
    (hdown : s'.down = true → s.down = true ∧ s'.calls = s.calls) : Flights cfg s' := by
  refine ⟨?_, ?_, fun hd => ?_⟩
  · rw [hpending, hnext]
    exact h.keys
  · rw [hpending]
    exact h.room
  · obtain ⟨hd, hcalls⟩ := hdown hd
    rw [hpending, hcalls]
    exact h.down hd

theorem Flights.not_down (h : Flights cfg s) (hcall : s.calls[i]? = some c) (hc : c.isDone = false) :
    s.down ≠ true := by
  intro hd
  have hdone := all_eq_true.mp (h.down hd).2 c (mem_of_getElem? hcall)
  rw [hc] at hdone
  cases hdone

theorem held_frame (hcalls : s'.calls = s.calls) (hanswers : s'.answers = s.answers)
    (hpending : s'.shared.pending = s.shared.pending) (hlog : s'.log = s.log) (j : Nat) : s'.held j = s.held j := by
  rw [held, held, opened, waiting, inFlight, answered, hcalls, hanswers, hpending, hlog]
  rfl

theorem Once.frame (h : Once s) (hheld : ∀ j, s'.held j = s.held j) (hcalls : s'.calls.length = s.calls.length) :
    Once s' := by
  intro j
  rw [hheld, hcalls]
  exact h j

theorem Account.shrink (h : Account cfg s id) (hcalls : s'.calls = s.calls)
    (htickets : ∀ t, s'.shared.tickets.lookup id = some t → s.shared.tickets.lookup id = some t)
    (hstarted : s'.started = s.started) (hwrong : s'.wrong = s.wrong) (hissued : s'.issued = s.issued)
    (hdrawn : s'.drawn = s.drawn) : Account cfg s' id := by
  have hreserved : s'.reserved id = s.reserved id := by rw [reserved, reserved, hcalls]
  have hhanding : s'.handing id = s.handing id := by rw [handing, handing, hcalls]
  have hfor : s'.issuedFor id = s.issuedFor id := by rw [issuedFor, issuedFor, hissued]
  refine h.mono (le_of_eq ?_) htickets hstarted ?_ fun id hin => hdrawn ▸ hin
  · rw [hreserved, hwrong]
  · rw [hfor, hhanding]

end

section

variable {cfg : Config} {crypto : EnrolCrypto} {s s' : State} {i : Nat} {id : TicketId} {c : Call} {a : Label}
variable {req : EnrolRequest} {now : Ticks} {role : Role} {spki : List UInt8} {secret : TicketSecret}

theorem Flights.refuse {r : Option Role} {status : Status} (h : Flights cfg s) (hdown : s.down ≠ true) :
    Flights cfg (s.refuse i req r status) :=
  h.frame rfl rfl fun hd => absurd hd hdown

theorem Account.refuse {r : Option Role} {status : Status} (h : Account cfg s id) (hcall : s.calls[i]? = some c)
    (hc : c.hands id = false) : Account cfg (s.refuse i req r status) id := by
  have hreserved := @reserved_set s i id _ .done hcall
  have hhanding := @handing_set s i id _ .done hcall
  rw [hc] at hhanding
  refine h.mono ?_ (fun _ ht => ht) rfl (congrArg (s.issuedFor id + ·) hhanding) fun _ hin => hin
  change (s.calls.set i .done).countP _ + _ ≤ _
  rw [show (Call.done).reserves id = false from rfl, if_neg Bool.false_ne_true] at hreserved
  change _ + s.wrong.count id ≤ _
  omega

theorem inv_refuse {r : Option Role} {status : Status} (hflights : Flights cfg s) (howed : Owed s i)
    (haccount : ∀ id, Account cfg s id) (hdown : s.down ≠ true) (hcall : s.calls[i]? = some c)
    (hc : ∀ id, c.hands id = false) : Inv cfg (s.refuse i req r status) := by
  obtain ⟨hi, -⟩ := List.getElem?_eq_some_iff.mp hcall
  exact ⟨hflights.refuse hdown, (moves_refuse hi).once howed (List.length_set ..),
    fun id => (haccount id).refuse hcall (hc id)⟩

theorem Inv.submit (h : Inv cfg s) (hdown : s.down ≠ true) (req : EnrolRequest) (now : Ticks) :
    Inv cfg (s.submit cfg req now) := by
  have hnew : ∀ shared : Shared, shared.tickets = s.shared.tickets → shared.pending = s.shared.pending →
      shared.nextRequestId = s.shared.nextRequestId →
      Flights cfg { s with shared, calls := s.calls ++ [.done] } ∧
        Owed { s with shared, calls := s.calls ++ [.done] } s.calls.length ∧
        ∀ id, Account cfg { s with shared, calls := s.calls ++ [.done] } id := by
    intro shared htickets hpending hnext
    refine ⟨h.flights.frame hpending hnext fun hd => absurd hd hdown, fun j => ?_, fun id => ?_⟩
    · have hopened : ∀ j, opened { s with shared, calls := s.calls ++ [.done] } j = s.opened j := by
        intro j
        rw [opened, opened]
        dsimp only
        rcases Nat.lt_trichotomy j s.calls.length with hj | hj | hj
        · rw [getElem?_append_left hj]
        · rw [hj, getElem?_concat_length, getElem?_eq_none le_rfl]
          rfl
        · rw [getElem?_eq_none (le_of_lt hj), getElem?_eq_none]
          rw [length_append, length_singleton]
          exact hj
      have hflight : inFlight { s with shared, calls := s.calls ++ [.done] } j = s.inFlight j := by
        rw [inFlight, inFlight, hpending]
      have hlast : s.opened s.calls.length = 0 := by
        rw [opened, getElem?_eq_none le_rfl]
        rfl
      rw [held, hopened, hopened, hflight, hlast]
      have honce := h.once j
      rw [held] at honce
      change s.opened j + s.waiting j + s.inFlight j + s.answered j + _ = (if j < (s.calls ++ [Call.done]).length
        then 1 else 0) + _
      rw [honce, length_append, length_singleton]
      split_ifs <;> omega
    · refine (h.account id).mono (le_of_eq ?_) (fun t ht => htickets ▸ ht) rfl ?_ fun _ hin => hin
      · rw [reserved, countP_append]
        rfl
      · rw [handing, countP_append]
        rfl
  have hget : ∀ shared : Shared, ({ s with shared, calls := s.calls ++ [.done] } : State).calls[s.calls.length]? =
      some .done := fun _ => getElem?_concat_length
  unfold State.submit
  dsimp only
  obtain ⟨htickets, hpending, hnext⟩ := admitSource_frame cfg s.shared (req.source.take kMaxSourceKey) now
  obtain ⟨hflights, howed, haccount⟩ := hnew _ htickets hpending hnext
  rcases hadmitted : s.shared.admitSource cfg (req.source.take kMaxSourceKey) now with ⟨_ | status, shared⟩
  · rw [hadmitted] at hflights howed haccount
    dsimp only
    rcases reserveAttempt_cases cfg shared req.ticketId now with ⟨r, status, heq⟩ | ⟨t, ht, hroom, heq⟩
    · rw [heq]
      exact inv_refuse hflights howed haccount hdown (hget _) fun _ => rfl
    · rw [heq]
      have hlt : s.calls.length < (s.calls ++ [Call.done]).length := by
        rw [length_append, length_singleton]
        exact Nat.lt_succ_self _
      refine ⟨hflights.frame rfl rfl fun hd => absurd hd hdown, ?_, fun id => ?_⟩
      · have hmoves := @moves_set { s with shared, calls := s.calls ++ [.done] } s.calls.length
          (.checking { req with source := req.source.take kMaxSourceKey } now t.role t.secret) hlt rfl
        exact hmoves.once howed (length_set ..)
      · exact (haccount id).reserve (hget _) ht hroom rfl
  · rw [hadmitted] at hflights howed haccount
    exact inv_refuse hflights howed haccount hdown (hget _) fun _ => rfl

theorem Inv.check (h : Inv cfg s) (hcall : s.calls[i]? = some (.checking req now role secret)) :
    Inv cfg (s.check cfg crypto i req now role secret) := by
  have hdown := h.flights.not_down hcall rfl
  have howed := h.once.owed (opened_of_get hcall)
  obtain ⟨hi, -⟩ := List.getElem?_eq_some_iff.mp hcall
  unfold State.check
  split
  · refine ⟨Flights.refuse (h.flights.frame rfl rfl fun hd => ⟨hd, rfl⟩) hdown, ?_, fun id => ?_⟩
    · exact Moves.once (moves_refuse hi) howed (length_set ..)
    · have hreserved := @reserved_set s i id _ .done hcall
      have hhanding := @handing_set s i id _ .done hcall
      refine (h.account id).mono ?_ (fun _ ht => ht) rfl (congrArg (s.issuedFor id + ·) hhanding) fun _ hin => hin
      simp only [Call.reserves, Bool.false_eq_true, if_false, add_zero, decide_eq_true_eq] at hreserved
      change (s.calls.set i .done).countP _ + (s.wrong ++ [req.ticketId]).count id ≤ _
      rw [count_append, count_singleton]
      simp only [beq_iff_eq]
      omega
  · split
    · exact inv_refuse h.flights howed h.account hdown hcall fun _ => rfl
    · refine ⟨h.flights.frame rfl rfl fun hd => absurd hd hdown, (moves_set hi rfl).once howed (length_set ..),
        fun id => ?_⟩
      have hreserved := @reserved_set s i id _ (.consuming req now role ‹_›) hcall
      have hhanding := @handing_set s i id _ (.consuming req now role ‹_›) hcall
      refine (h.account id).mono (le_of_eq ?_) (fun _ ht => ht) rfl (congrArg (s.issuedFor id + ·) hhanding)
        fun _ hin => hin
      exact congrArg (· + s.wrong.count id) (Nat.add_right_cancel hreserved)

theorem Inv.consume (h : Inv cfg s) (hcall : s.calls[i]? = some (.consuming req now role spki)) :
    Inv cfg (s.consume cfg i req now role spki) := by
  have hdown := h.flights.not_down hcall rfl
  have howed := h.once.owed (opened_of_get hcall)
  obtain ⟨hi, -⟩ := List.getElem?_eq_some_iff.mp hcall
  unfold State.consume
  rcases consume_cases cfg s.shared i req now role spki with ⟨status, heq⟩ | ⟨t, ht, heq⟩ |
    ⟨t, ht, -, hunused, hroom, heq⟩
  · rw [heq]
    exact inv_refuse h.flights howed h.account hdown hcall fun _ => rfl
  · rw [heq]
    refine ⟨Flights.refuse (h.flights.frame rfl rfl fun hd => ⟨hd, rfl⟩) hdown, ?_,
      fun id => (h.account id).refund hcall ht rfl⟩
    exact Moves.once (moves_refuse hi) howed (length_set ..)
  · rw [heq]
    have hnew : s.shared.nextRequestId + 1 ∉ s.shared.pending := fun hmem =>
      Nat.not_succ_le_self _ (h.flights.keys _ hmem)
    refine ⟨⟨fun n hn => ?_, ?_, fun hd => absurd hd hdown⟩, ?_,
      fun id => (h.account id).begin hcall ht hunused rfl rfl⟩
    · rcases (mem_insert _).mp hn with rfl | hn
      · exact le_rfl
      · exact Nat.le_succ_of_le (h.flights.keys n hn)
    · exact (Table.size_insert_le _ _ _).trans hroom
    · exact (moves_begin hi rfl hnew rfl rfl).once howed (length_set ..)

theorem Inv.handOff {r : IssueRequest} (h : Inv cfg s) (hcall : s.calls[i]? = some (.handing r)) :
    Inv cfg { s with calls := s.calls.set i .done, issued := s.issued ++ [r] } := by
  have hdown := h.flights.not_down hcall rfl
  obtain ⟨hi, -⟩ := List.getElem?_eq_some_iff.mp hcall
  refine ⟨h.flights.frame rfl rfl fun hd => absurd hd hdown,
    h.once.frame (fun j => ?_) (List.length_set ..), fun id => ?_⟩
  · have hopened : opened { s with calls := s.calls.set i .done, issued := s.issued ++ [r] } j = s.opened j := by
      have hset := @opened_set s i j .done hi
      refine hset.trans ?_
      by_cases hj : j = i
      · rw [if_pos hj, hj, opened_of_get hcall]
        rfl
      · exact if_neg hj
    rw [held, hopened]
    rfl
  · have hreserved := @reserved_set s i id _ .done hcall
    have hhanding := @handing_set s i id _ .done hcall
    refine (h.account id).mono (le_of_eq (congrArg (· + s.wrong.count id) hreserved)) (fun _ ht => ht) rfl ?_
      fun _ hin => hin
    simp only [Call.hands, Bool.false_eq_true, if_false, add_zero, decide_eq_true_eq] at hhanding
    change (s.issued ++ [r]).countP _ + (s.calls.set i .done).countP _ = _
    rw [countP_append, countP_singleton]
    simp only [decide_eq_true_eq]
    change s.issuedFor id + _ + _ = _
    omega

theorem Inv.complete (h : Inv cfg s) (n : Nat) (outcome : Option Issued) (nowUnix : UInt64) :
    Inv cfg (s.complete cfg crypto n outcome nowUnix) := by
  have hheld := fun j => @held_complete cfg crypto s n outcome nowUnix j
  unfold State.complete at hheld ⊢
  split
  · exact h
  · next p hp =>
    rw [hp] at hheld
    refine ⟨⟨fun n' hn' => h.flights.keys n' (mem_erase.mp hn').2, ?_, fun hd => ?_⟩, h.once.frame hheld rfl,
      fun id => (h.account id).shrink rfl (fun _ ht => ht) rfl rfl rfl rfl⟩
    · exact ((kerase_sublist n s.shared.pending.entries).length_le).trans h.flights.room
    · have hempty := (h.flights.down hd).1
      rw [hempty, lookup_empty] at hp
      cases hp

theorem Inv.expire (h : Inv cfg s) (hdown : s.down ≠ true) (now : Ticks) : Inv cfg (s.expire cfg now) := by
  refine ⟨⟨fun n hn => ?_, ?_, fun hd => absurd hd hdown⟩, h.once.frame (held_expire s now) rfl, fun id => ?_⟩
  · exact h.flights.keys n (mem_keys.mpr ((filter_sublist.map Sigma.fst).subset (mem_keys.mp hn)))
  · exact (filter_sublist.length_le).trans h.flights.room
  · exact (h.account id).shrink rfl ((shrinks_prune s.shared now).tickets id) rfl rfl rfl rfl

theorem Inv.shutdown (h : Inv cfg s) (hdone : s.calls.all Call.isDone = true) : Inv cfg s.shutdown :=
  ⟨⟨fun _ hn => absurd hn (notMem_empty _), Nat.zero_le _, fun _ => ⟨rfl, hdone⟩⟩,
    h.once.frame (held_shutdown s) rfl, fun id => (h.account id).shrink rfl (fun _ ht => ht) rfl rfl rfl rfl⟩

theorem Inv.issueTicket {ttl : Ticks} {drawn : Option (TicketId × TicketSecret)} (h : Inv cfg s)
    (hfresh : Fresh s (.issueTicket role ttl now drawn)) : Inv cfg (s.issueTicket cfg role ttl now drawn) := by
  unfold State.issueTicket
  dsimp only
  rcases issueTicket_cases cfg s.shared role ttl now drawn with ⟨e, herror, hshrinks⟩ | ⟨id, secret,
    rfl, hok, hshared⟩
  · rw [herror]
    exact ⟨h.flights.frame hshrinks.pending hshrinks.next fun hd => ⟨hd, rfl⟩,
      h.once.frame (held_frame rfl rfl hshrinks.pending rfl) rfl,
      fun id => (h.account id).shrink rfl (hshrinks.tickets id) rfl rfl rfl rfl⟩
  · rw [hok, hshared]
    refine ⟨h.flights.frame rfl rfl fun hd => ⟨hd, rfl⟩, h.once.frame (held_frame rfl rfl rfl rfl) rfl, fun id' => ?_⟩
    by_cases hid : id' = id
    · subst hid
      obtain ⟨-, hzero, hcount⟩ := (h.account id').undrawn hfresh
      refine ⟨?_, fun t ht => ?_, (h.account id').single, fun _ _ _ => hcount, (h.account id').handed, fun hnot => ?_⟩
      · exact (h.account id').bounded
      · rw [lookup_insert] at ht
        cases ht
        exact ⟨Nat.le_of_eq hzero, le_iff_toNat_le.mpr (Nat.zero_le _)⟩
      · exact absurd (mem_append_right _ (mem_singleton.mpr rfl)) hnot
    · refine (h.account id').mono (Nat.le_refl _) (fun t ht => ?_) rfl rfl fun _ hin => mem_append_left _ hin
      rw [lookup_insert_ne hid] at ht
      exact (shrinks_prune s.shared now).tickets id' t ht

theorem inv_step (h : Inv cfg s) (hfresh : Fresh s a) (hstep : step cfg crypto s a = some s') : Inv cfg s' := by
  cases a with
  | issueTicket role ttl now drawn =>
    obtain ⟨hdown, heq⟩ := ite_none_left_eq_some.mp hstep
    cases heq
    exact h.issueTicket hfresh
  | revokeTicket id =>
    obtain ⟨hdown, heq⟩ := ite_none_left_eq_some.mp hstep
    cases heq
    have hshrinks := shrinks_revoke s.shared id
    exact ⟨h.flights.frame hshrinks.pending hshrinks.next fun hd => ⟨hd, rfl⟩,
      h.once.frame (held_frame rfl rfl hshrinks.pending rfl) rfl,
      fun id' => (h.account id').shrink rfl (hshrinks.tickets id') rfl rfl rfl rfl⟩
  | submit req now =>
    obtain ⟨hdown, heq⟩ := ite_none_left_eq_some.mp hstep
    cases heq
    exact h.submit hdown req now
  | check i =>
    rw [step] at hstep
    split at hstep
    · next hcall =>
      cases hstep
      exact h.check hcall
    · cases hstep
  | consume i =>
    rw [step] at hstep
    split at hstep
    · next hcall =>
      cases hstep
      exact h.consume hcall
    · cases hstep
  | handOff i =>
    rw [step] at hstep
    split at hstep
    · next hcall =>
      cases hstep
      exact h.handOff hcall
    · cases hstep
  | complete n outcome nowUnix =>
    cases hstep
    exact h.complete n outcome nowUnix
  | expire now =>
    obtain ⟨hdown, heq⟩ := ite_none_left_eq_some.mp hstep
    cases heq
    exact h.expire hdown now
  | answer k =>
    rw [step] at hstep
    split at hstep
    · next hk =>
      cases hstep
      exact ⟨h.flights.frame rfl rfl fun hd => ⟨hd, rfl⟩, h.once.frame (held_answer hk) rfl,
        fun id => (h.account id).shrink rfl (fun _ ht => ht) rfl rfl rfl rfl⟩
    · cases hstep
  | shutdown =>
    obtain ⟨hdown, heq⟩ := ite_none_left_eq_some.mp hstep
    cases heq
    exact h.shutdown (Bool.eq_true_of_not_eq_false fun hdone => hdown (.inr hdone))

theorem inv_start (cfg : Config) : Inv cfg {} := by
  refine ⟨⟨fun _ hn => absurd hn (notMem_empty _), Nat.zero_le _, nofun⟩, fun _ => rfl,
    fun id => ⟨Nat.zero_le _, fun t ht => ?_, Nat.zero_le _, fun _ _ _ => rfl, rfl, fun _ => ⟨?_, rfl, rfl⟩⟩⟩
  · rw [lookup_empty] at ht
    cases ht
  · exact lookup_empty id

theorem inv_reach (h : Inv cfg s) (hreach : Reach (step cfg crypto) Fresh s s') : Inv cfg s' :=
  hreach.invariant h fun _ _ _ hinv hfresh hstep => inv_step hinv hfresh hstep

/-- Only the second locked section of `submit` begins an issuance, on a ticket that is there, unused and unexpired. -/
theorem started_step (hstep : step cfg crypto s a = some s') : s'.started = s.started ∨
    ∃ i req now role spki t, a = .consume i ∧ s.calls[i]? = some (.consuming req now role spki) ∧
      s.shared.tickets.lookup req.ticketId = some t ∧ now < t.expiresAt ∧ t.consumed = false ∧
      s'.started = s.started ++ [req.ticketId] := by
  cases a with
  | consume i =>
    rw [step] at hstep
    split at hstep
    · next req now role spki hcall =>
      cases hstep
      unfold consume
      rcases consume_cases cfg s.shared i req now role spki with ⟨status, heq⟩ | ⟨t, ht, heq⟩ |
        ⟨t, ht, hexpires, hunused, -, heq⟩
      · rw [heq]
        exact .inl rfl
      · rw [heq]
        exact .inl rfl
      · rw [heq]
        exact .inr ⟨i, req, now, role, spki, t, rfl, hcall, ht, hexpires, hunused, rfl⟩
    · cases hstep
  | submit req now =>
    obtain ⟨-, heq⟩ := ite_none_left_eq_some.mp hstep
    cases heq
    unfold submit
    dsimp only
    split
    · exact .inl rfl
    · split <;> exact .inl rfl
  | check i =>
    rw [step] at hstep
    split at hstep
    · cases hstep
      unfold check
      split
      · exact .inl rfl
      · split <;> exact .inl rfl
    · cases hstep
  | handOff i =>
    rw [step] at hstep
    split at hstep
    · cases hstep
      exact .inl rfl
    · cases hstep
  | complete n outcome nowUnix =>
    cases hstep
    unfold complete
    split <;> exact .inl rfl
  | answer k =>
    rw [step] at hstep
    split at hstep
    · cases hstep
      exact .inl rfl
    · cases hstep
  | _ =>
    obtain ⟨-, heq⟩ := ite_none_left_eq_some.mp hstep
    cases heq
    exact .inl rfl

theorem absent_step (hfresh : Fresh s a) (hdrawn : id ∈ s.drawn) (habsent : id ∉ s.shared.tickets)
    (hstep : step cfg crypto s a = some s') : id ∈ s'.drawn ∧ id ∉ s'.shared.tickets := by
  have hsub : ∀ {t t' : Table TicketId TicketState}, (∀ u, t'.lookup id = some u → t.lookup id = some u) → id ∉ t →
      id ∉ t' := by
    intro t t' hlookup hnot hin
    obtain ⟨u, hu⟩ := isSome_iff_exists.mp (lookup_isSome.mpr hin)
    exact hnot (lookup_isSome.mp (by rw [hlookup u hu]; rfl))
  have hinsert : ∀ {t : Table TicketId TicketState} {id' u v}, t.lookup id' = some u → id ∉ t →
      id ∉ t.insert id' v := by
    intro t id' u v hu hnot hin
    rcases (mem_insert _).mp hin with rfl | hin
    · exact hnot (lookup_isSome.mp (by rw [hu]; rfl))
    · exact hnot hin
  cases a with
  | issueTicket role ttl now drawn =>
    obtain ⟨-, heq⟩ := ite_none_left_eq_some.mp hstep
    cases heq
    unfold issueTicket
    dsimp only
    rcases issueTicket_cases cfg s.shared role ttl now drawn with ⟨e, herror, hshrinks⟩ | ⟨id', secret,
      rfl, hok, hshared⟩
    · rw [herror]
      exact ⟨hdrawn, hsub (hshrinks.tickets id) habsent⟩
    · rw [hok, hshared]
      refine ⟨mem_append_left _ hdrawn, fun hin => ?_⟩
      rcases (mem_insert _).mp hin with rfl | hin
      · exact hfresh hdrawn
      · exact hsub ((shrinks_prune s.shared now).tickets id) habsent hin
  | revokeTicket id' =>
    obtain ⟨-, heq⟩ := ite_none_left_eq_some.mp hstep
    cases heq
    exact ⟨hdrawn, hsub ((shrinks_revoke s.shared id').tickets id) habsent⟩
  | submit req now =>
    obtain ⟨-, heq⟩ := ite_none_left_eq_some.mp hstep
    cases heq
    obtain ⟨htickets, -, -⟩ := admitSource_frame cfg s.shared (req.source.take kMaxSourceKey) now
    unfold submit
    dsimp only
    rcases hadmitted : s.shared.admitSource cfg (req.source.take kMaxSourceKey) now with ⟨_ | status, shared⟩
    · rw [hadmitted] at htickets
      have hshared : id ∉ shared.tickets := htickets ▸ habsent
      dsimp only
      rcases reserveAttempt_cases cfg shared req.ticketId now with ⟨r, status, heq⟩ | ⟨t, ht, -, heq⟩
      · rw [heq]
        exact ⟨hdrawn, hshared⟩
      · rw [heq]
        exact ⟨hdrawn, hinsert ht hshared⟩
    · rw [hadmitted] at htickets
      exact ⟨hdrawn, show id ∉ shared.tickets from htickets ▸ habsent⟩
  | check i =>
    rw [step] at hstep
    split at hstep
    · cases hstep
      unfold check
      split
      · exact ⟨hdrawn, habsent⟩
      · split <;> exact ⟨hdrawn, habsent⟩
    · cases hstep
  | consume i =>
    rw [step] at hstep
    split at hstep
    · next req now role spki hcall =>
      cases hstep
      unfold consume
      rcases consume_cases cfg s.shared i req now role spki with ⟨status, heq⟩ | ⟨t, ht, heq⟩ | ⟨t, ht, -, -, -, heq⟩
      · rw [heq]
        exact ⟨hdrawn, habsent⟩
      · rw [heq]
        exact ⟨hdrawn, hinsert ht habsent⟩
      · rw [heq]
        exact ⟨hdrawn, hinsert ht habsent⟩
    · cases hstep
  | handOff i =>
    rw [step] at hstep
    split at hstep
    · cases hstep
      exact ⟨hdrawn, habsent⟩
    · cases hstep
  | complete n outcome nowUnix =>
    cases hstep
    unfold complete
    split <;> exact ⟨hdrawn, habsent⟩
  | expire now =>
    obtain ⟨-, heq⟩ := ite_none_left_eq_some.mp hstep
    cases heq
    exact ⟨hdrawn, hsub ((shrinks_prune s.shared now).tickets id) habsent⟩
  | answer k =>
    rw [step] at hstep
    split at hstep
    · cases hstep
      exact ⟨hdrawn, habsent⟩
    · cases hstep
  | shutdown =>
    obtain ⟨-, heq⟩ := ite_none_left_eq_some.mp hstep
    cases heq
    exact ⟨hdrawn, habsent⟩

theorem absent_reach (hdrawn : id ∈ s.drawn) (habsent : id ∉ s.shared.tickets)
    (hreach : Reach (step cfg crypto) Fresh s s') : s'.started.count id = s.started.count id := by
  have hkept : id ∈ s'.drawn ∧ id ∉ s'.shared.tickets ∧ s'.started.count id = s.started.count id :=
    hreach.invariant (I := fun mid => id ∈ mid.drawn ∧ id ∉ mid.shared.tickets ∧
      mid.started.count id = s.started.count id) ⟨hdrawn, habsent, rfl⟩ fun mid a next hmid hfresh hstep => by
      obtain ⟨hdrawn, habsent, hcount⟩ := hmid
      obtain ⟨hdrawn', habsent'⟩ := absent_step hfresh hdrawn habsent hstep
      refine ⟨hdrawn', habsent', ?_⟩
      rcases started_step hstep with heq | ⟨i, req, now, role, spki, t, -, -, ht, -, -, heq⟩
      · rw [heq, hcount]
      · have hne : req.ticketId ≠ id := fun hid => habsent (lookup_isSome.mp (by rw [← hid, ht]; rfl))
        rw [heq, count_append, count_singleton, if_neg fun heq => hne (eq_of_beq heq),
          add_zero, hcount]
  exact hkept.2.2

/-- What holds of an enrolment in every state. -/
structure Enrolled (cfg : Config) (crypto : EnrolCrypto) (s : State) : Prop where
  once : ∀ i, s.answered i ≤ 1
  kept : ∀ i < s.calls.length, s.answered i = 1 ∨ s.opened i = 1 ∨ s.waiting i = 1 ∨ s.inFlight i = 1
  settled : s.down = true → s.answers = [] → ∀ i < s.calls.length, s.answered i = 1
  single : ∀ id, s.issuedFor id ≤ 1
  tags : ∀ id, s.wrong.count id ≤ cfg.maxAttemptsPerTicket.toNat
  room : s.shared.pending.size ≤ cfg.maxPendingIssues
  starts : ∀ a s', step cfg crypto s a = some s' → s'.started = s.started ∨
    ∃ i req now role spki t, a = .consume i ∧ s.calls[i]? = some (.consuming req now role spki) ∧
      s.shared.tickets.lookup req.ticketId = some t ∧ now < t.expiresAt ∧ t.consumed = false ∧
      s'.started = s.started ++ [req.ticketId]
  withdrawn : ∀ id s' s'', (s.shared.revokeTicket id).1 = true → step cfg crypto s (.revokeTicket id) = some s' →
    Reach (step cfg crypto) Fresh s' s'' → s''.started.count id = 0
  pruned : ∀ id t now s' s'', s.shared.tickets.lookup id = some t → t.expiresAt ≤ now →
    step cfg crypto s (.expire now) = some s' → Reach (step cfg crypto) Fresh s' s'' →
      s''.started.count id = s.started.count id

theorem Inv.settled (h : Inv cfg s) (hdown : s.down = true) (hanswers : s.answers = []) (hi : i < s.calls.length) :
    s.answered i = 1 := by
  obtain ⟨hempty, hdone⟩ := h.flights.down hdown
  have honce := h.once i
  have hopened : s.opened i = 0 := by
    have hget := getElem?_eq_getElem hi
    have hcall := all_eq_true.mp hdone s.calls[i] (getElem_mem hi)
    rw [opened_of_get hget]
    cases hc : s.calls[i] with
    | done => rfl
    | handing r => rfl
    | _ =>
      rw [hc] at hcall
      cases hcall
  have hwaiting : s.waiting i = 0 := by
    rw [waiting, hanswers]
    rfl
  have hflight : s.inFlight i = 0 := by
    rw [inFlight, hempty]
    rfl
  rw [if_pos hi, held] at honce
  omega

/-- Every presentation is answered once, with its audit record; a ticket is issued for once, takes so many
wrong tags, and gives nothing once it is expired, pruned or withdrawn. -/
theorem enrollment_settles (hreach : Reach (step cfg crypto) Fresh {} s) : Enrolled cfg crypto s := by
  have h := inv_reach (inv_start cfg) hreach
  refine ⟨fun i => ?_, fun i hi => ?_, fun hdown hanswers i hi => h.settled hdown hanswers hi,
    fun id => ?_, fun id => ?_,
    h.flights.room, fun a s' hstep => started_step hstep, fun id s' s'' hrevoked hstep hafter => ?_,
    fun id t now s' s'' ht hexpired hstep hafter => ?_⟩
  · have honce := h.once i
    rw [held] at honce
    split_ifs at honce <;> omega
  · have honce := h.once i
    rw [if_pos hi, held] at honce
    omega
  · have haccount := h.account id
    have hhanded := haccount.handed
    have hsingle := haccount.single
    omega
  · have hbounded := (h.account id).bounded
    omega
  · obtain ⟨-, heq⟩ := ite_none_left_eq_some.mp hstep
    cases heq
    unfold Shared.revokeTicket at hrevoked
    split at hrevoked
    · cases hrevoked
    · next t ht =>
      split at hrevoked
      · cases hrevoked
      · next hconsumed =>
        have habsent : id ∉ (s.shared.revokeTicket id).2.tickets := by
          rw [Shared.revokeTicket, ht]
          dsimp only
          rw [if_neg hconsumed]
          exact fun hin => (mem_erase.mp hin).1 rfl
        have hcount := (h.account id).unused t ht (Bool.eq_false_of_not_eq_true hconsumed)
        exact (@absent_reach _ _ { s with shared := (s.shared.revokeTicket id).2 } _ _ ((h.account id).drawn ht)
          habsent hafter).trans hcount
  · obtain ⟨-, heq⟩ := ite_none_left_eq_some.mp hstep
    cases heq
    have habsent : id ∉ (s.expire cfg now).shared.tickets := by
      refine fun hin => ?_
      obtain ⟨u, hu⟩ := isSome_iff_exists.mp (lookup_isSome.mpr hin)
      change (s.shared.pruneTickets now).tickets.lookup id = some u at hu
      rw [Shared.pruneTickets, Table.lookup_eraseIf, filter_eq_some_iff, ht] at hu
      obtain ⟨heq, hkeep⟩ := hu
      cases heq
      simp [hexpired] at hkeep
    exact @absent_reach _ _ (s.expire cfg now) _ _ ((h.account id).drawn ht) habsent hafter

end

def ticketId (n : UInt8) : TicketId := ⟨List.replicate 16 n, length_replicate⟩
def ticketSecret (n : UInt8) : TicketSecret := ⟨List.replicate 32 n, length_replicate⟩

def present (n : UInt8) (right : Bool) : EnrolRequest where
  ticketId := ticketId n
  csrDer := [n]
  tag := ⟨List.replicate 32 (if right then n else 0), length_replicate⟩
  source := [n]

/-- Tags are right where they repeat the secret. -/
def echo : EnrolCrypto where
  hmacEqual secret _ tag := secret.val = tag.val
  csrPublicKey csrDer := some csrDer
  issuedOk _ _ := true

/-- Four presentations of one ticket: a wrong tag, an issuance, one that comes too late, one of a ticket withdrawn. -/
def fourPresentations : List Label :=
  [.issueTicket .member 10 10 (some (ticketId 1, ticketSecret 1)), .submit (present 1 false) 11,
    .submit (present 1 true) 12,
    .submit (present 1 true) 12, .check 0, .check 1, .check 2, .consume 1, .consume 2, .handOff 1, .expire 13,
    .complete 1 (some ⟨5, [7]⟩) 0, .issueTicket .client 10 14 (some (ticketId 2, ticketSecret 2)),
    .revokeTicket (ticketId 2), .submit (present 2 true) 15, .answer 3, .answer 0, .answer 0, .answer 0, .shutdown]

theorem enrollment_settles_four : ∃ s, s.down = true ∧
    s.log.map (fun a => (a.call, a.reply.status)) =
      [(3, .unknownTicket), (0, .badMac), (2, .ticketUsed), (1, .issued)] ∧ Enrolled {} echo s := by
  obtain ⟨s, hs, hfacts⟩ := map_eq_some_iff.mp
    (show (Machine.run (guarded (step {} echo) Fresh) {} fourPresentations).map
        (fun s => (s.down, s.log.map fun a => (a.call, a.reply.status))) =
      some (true, [(3, .unknownTicket), (0, .badMac), (2, .ticketUsed), (1, .issued)]) by decide +kernel)
  obtain ⟨hdown, hlog⟩ := Prod.mk.inj hfacts
  exact ⟨s, hdown, hlog, enrollment_settles (reach_of_run hs)⟩

/-- A ticket expires at 20. One presentation is told so at 30, and then one that came at 10 begins an issuance. -/
theorem stale_reading_starts : ∃ s s' t, s.shared.tickets.lookup (ticketId 1) = some t ∧ t.expiresAt = 20 ∧
    Machine.run (step {} echo) {} [.issueTicket .member 10 10 (some (ticketId 1, ticketSecret 1)),
      .submit (present 1 true) 10, .submit (present 1 true) 30, .check 0] = some s ∧
    s.answers.map (fun a => (a.call, a.reply.status)) = [(1, .unknownTicket)] ∧ s.started = [] ∧
    step {} echo s (.consume 0) = some s' ∧ s'.started = [ticketId 1] := by
  obtain ⟨s, hs, hfacts⟩ := map_eq_some_iff.mp
    (show (Machine.run (step {} echo) {} [.issueTicket .member 10 10 (some (ticketId 1, ticketSecret 1)),
        .submit (present 1 true) 10, .submit (present 1 true) 30, .check 0]).map
        (fun s => decide ((s.shared.tickets.lookup (ticketId 1)).map TicketState.expiresAt = some 20 ∧
          s.answers.map (fun a => (a.call, a.reply.status)) = [(1, .unknownTicket)] ∧ s.started = [] ∧
          (step {} echo s (.consume 0)).map started = some [ticketId 1])) = some true by decide +kernel)
  obtain ⟨hticket, hanswers, hstarted, hstep⟩ := of_decide_eq_true hfacts
  obtain ⟨t, ht, hexpires⟩ := map_eq_some_iff.mp hticket
  obtain ⟨s', hs', hstarted'⟩ := map_eq_some_iff.mp hstep
  exact ⟨s, s', t, ht, hexpires, hs, hanswers, hstarted, hs', hstarted'⟩

end Quark.Enrol
