import Quark.SwimBooks

/-! The counters of a `SwimMembership` against its table: how many entries are still to be sent, how many are
tombstones. -/
namespace Quark.Swim

open UInt32 SwimMembership

def Record.isTomb (o : Option Record) : Prop := o.any Record.tomb = true

def Record.isSending (o : Option Record) : Prop := o.any Record.sending = true

instance : DecidablePred Record.isTomb := fun o => inferInstanceAs (Decidable (o.any Record.tomb = true))

instance : DecidablePred Record.isSending := fun o => inferInstanceAs (Decidable (o.any Record.sending = true))

namespace Ledger

def sendings (l : Ledger) : Nat := Census.census Record.isSending l.entry

def tombs (l : Ledger) : Nat := Census.census Record.isTomb (Function.update l.entry l.me none)

/-- The counters say what the table holds. -/
structure Counted (l : Ledger) : Prop where
  sending : l.txPending = UInt32.ofNat l.sendings
  tomb : l.tombCount = UInt32.ofNat l.tombs

end Ledger

variable {cfg : Config} {env : Env} {may : Act → Prop} {l l' : Ledger} {id : NodeId} {cur r : Record}
  {s s' : SwimMembership}

section Count

theorem adjust_ofNat {c c' : Nat} {old new : Bool}
    (h : c' + (if old = true then 1 else 0) = c + if new = true then 1 else 0) :
    (if !old && new then UInt32.ofNat c + 1 else if old && !new then UInt32.ofNat c - 1 else UInt32.ofNat c) =
      UInt32.ofNat c' := by
  cases old with
  | false =>
    cases new with
    | false => exact congrArg UInt32.ofNat (by simpa using h.symm)
    | true =>
      rw [show c' = c + 1 by simpa using h, ofNat_add]
      rfl
  | true =>
    cases new with
    | false =>
      rw [show c = c' + 1 by simpa using h.symm, ofNat_add]
      simp
    | true => exact congrArg UInt32.ofNat (by simpa using h.symm)

theorem txPendingAfter_adjusts (n : UInt32) (old v : UInt8) : txPendingAfter n old v =
    if !(old != 0) && (v != 0) then n + 1 else if (old != 0) && !(v != 0) then n - 1 else n := by
  unfold txPendingAfter
  by_cases hold : old = 0 <;> by_cases hv : v = 0 <;> simp [hold, hv]

theorem sendings_set (o : Option Record) :
    (l.set id o).sendings + (if (l.entry id).any Record.sending = true then 1 else 0) =
    l.sendings + if o.any Record.sending = true then 1 else 0 := Census.census_update Record.isSending l.entry id o

theorem tombs_set (hother : id ≠ l.me) (o : Option Record) :
    (l.set id o).tombs + (if (l.entry id).any Record.tomb = true then 1 else 0) =
      l.tombs + if o.any Record.tomb = true then 1 else 0 := by
  have hmoved := Census.census_update Record.isTomb (Function.update l.entry l.me none) id o
  rw [Function.update_of_ne hother, Function.update_comm (Ne.symm hother)] at hmoved
  exact hmoved

theorem tombs_set_own (o : Option Record) : (l.set l.me o).tombs = l.tombs := by
  unfold Ledger.tombs Ledger.set
  rw [Function.update_idem]

end Count

section Edits

theorem counted_sending {n : UInt32} (h : l.Counted) {old : Option Record} {o : Option Record}
    (hold : l.entry id = old) (hn : n = if !old.any Record.sending && o.any Record.sending then l.txPending + 1
      else if old.any Record.sending && !o.any Record.sending then l.txPending - 1 else l.txPending) :
    n = UInt32.ofNat (l.set id o).sendings := by
  rw [hn, h.sending]
  refine adjust_ofNat ?_
  rw [← hold]
  exact sendings_set o

theorem counted_tomb {n : UInt32} (h : l.Counted) (hother : id ≠ l.me) {old : Option Record} {o : Option Record}
    (hold : l.entry id = old) (hn : n = if !old.any Record.tomb && o.any Record.tomb then l.tombCount + 1
      else if old.any Record.tomb && !o.any Record.tomb then l.tombCount - 1 else l.tombCount) :
    n = UInt32.ofNat (l.set id o).tombs := by
  rw [hn, h.tomb]
  refine adjust_ofNat ?_
  rw [← hold]
  exact tombs_set hother o

theorem Ledger.Counted.alter (h : l.Counted) (hother : id ≠ l.me) (hcur : l.entry id = some cur) :
    (l.alter id cur r).Counted :=
  ⟨counted_sending h hcur (txPendingAfter_adjusts ..), counted_tomb h hother hcur rfl⟩

theorem Ledger.Counted.touch (h : l.Counted) (hcur : l.entry id = some cur) (htomb : r.tomb = cur.tomb) :
    (l.alter id cur r).Counted := by
  by_cases hid : id = l.me
  · rw [Ledger.alter_alive htomb]
    refine ⟨counted_sending h hcur (txPendingAfter_adjusts ..), ?_⟩
    exact h.tomb.trans (congrArg UInt32.ofNat (hid ▸ (tombs_set_own _).symm))
  · exact h.alter hid hcur

theorem Ledger.Counted.create (h : l.Counted) (hother : id ≠ l.me) (hnew : l.entry id = none) :
    (l.create id r).Counted := by
  refine ⟨counted_sending h hnew ?_, counted_tomb h hother hnew ?_⟩
  · exact txPendingAfter_adjusts _ 0 r.tx
  · simp [Ledger.create]

theorem Ledger.Counted.evict (h : l.Counted) (hother : id ≠ l.me) (hcur : l.entry id = some cur)
    (htomb : cur.tomb = true) : (l.evict id cur).Counted := by
  refine ⟨counted_sending h hcur ?_, counted_tomb h hother hcur ?_⟩
  · simp [Ledger.evict, Record.sending]
  · simp [Ledger.evict, htomb]

theorem Ledger.Counted.drop (h : l.Counted) (hother : id ≠ l.me) (hcur : l.entry id = some cur)
    (hlive : cur.tomb = false) (hsent : cur.tx = 0) : (l.drop id).Counted := by
  refine ⟨counted_sending h hcur ?_, counted_tomb h hother hcur ?_⟩
  · simp [Ledger.drop, Ledger.set, Record.sending, hsent]
  · simp [Ledger.drop, Ledger.set, hlive]

theorem Ledger.Counted.own {inc : UInt64} {st : MemberStatus} (h : l.Counted) : (l.own inc st).Counted := by
  refine ⟨counted_sending h rfl ?_, h.tomb.trans (congrArg UInt32.ofNat (tombs_set_own _).symm)⟩
  rw [Ledger.mine]
  cases hme : l.entry l.me with
  | none => rfl
  | some mine => simp [Ledger.own, Ledger.set, Record.sending]

theorem Edit.counted (h : Edit cfg may l l') (hl : l.Counted) (hmay : ∀ tx, may (.drop tx) → tx = 0) :
    l'.Counted := by
  cases h with
  | refute _ _ _ => exact hl.own
  | adopt _ _ _ => exact hl.own
  | rejoin _ => exact hl.own
  | depart _ _ => exact ⟨hl.own.sending, hl.own.tomb⟩
  | alter hother hcur _ _ _ _ _ => exact hl.alter hother hcur
  | evict hother hcur htomb => exact hl.evict hother hcur htomb
  | drop hother hcur _ hlive hdrop => exact hl.drop hother hcur hlive (hmay _ hdrop)
  | spend hcur _ => exact hl.touch hcur rfl
  | refresh _ _ => exact ⟨hl.sending, hl.tomb⟩
  | turn _ => exact ⟨hl.sending, hl.tomb⟩
  | lease _ _ _ _ _ _ _ => exact ⟨hl.sending, hl.tomb⟩
  | free => exact ⟨hl.sending, hl.tomb⟩
  | expire _ => exact ⟨hl.sending, hl.tomb⟩
  | lapse hcur _ _ => exact hl.touch hcur rfl

theorem Effect.counted (h : Effect cfg may l l') (hl : l.Counted) (hmay : ∀ tx, may (.drop tx) → tx = 0) :
    l'.Counted := by
  refine h.keeps (fun l₁ hb => ?_) fun _ _ hl he => he.counted hl hmay
  cases hb with
  | same => exact hl
  | create hother hnew _ _ _ => exact hl.create hother hnew

end Edits

section Table

theorem sendings_ledger : s.ledger.sendings = (s.members.entries.filter fun e => e.2.txLeft != 0).length := by
  have hcount := Table.census_lookup (t := s.members) (q := fun o => Record.isSending (o.map Member.record)) nofun
  simp only [Record.isSending, Option.map_some, Option.any_some, Record.sending] at hcount
  exact hcount.trans (congrArg List.length (List.filter_congr fun e _ => Bool.decide_eq_true))

theorem tombs_ledger : s.ledger.tombs =
    (s.members.entries.filter fun e => e.1 != s.self_ && e.2.status.isTomb).length := by
  have hothers : Function.update s.ledger.entry s.ledger.me none =
      fun id => ((Table.eraseIf (fun id _ => id == s.self_) s.members).lookup id).map Member.record := by
    funext id
    rw [Table.lookup_eraseIf]
    by_cases hid : id = s.self_
    · rw [hid]
      refine (Function.update_self ..).trans ?_
      cases s.members.lookup s.self_ <;> simp [Option.filter]
    · refine (Function.update_of_ne hid ..).trans ?_
      change (s.members.lookup id).map Member.record = _
      cases s.members.lookup id <;> simp [Option.filter, hid]
  have hcount := Table.census_lookup (t := Table.eraseIf (fun id _ => id == s.self_) s.members)
    (q := fun o => Record.isTomb (o.map Member.record)) nofun
  rw [Ledger.tombs, hothers]
  simp only [Record.isTomb, Option.map_some, Option.any_some, Record.tomb, Table.eraseIf,
    List.filter_filter] at hcount
  refine hcount.trans (congrArg List.length (List.filter_congr fun e _ => ?_))
  rw [Bool.and_comm]
  exact congrArg (fun b => (e.1 != s.self_) && b) Bool.decide_eq_true

theorem tombs_le_size : s.ledger.tombs ≤ s.members.size := by
  rw [tombs_ledger]
  exact List.length_filter_le _ _

theorem foldl_none (skips : Entry → Bool) {f : Option Entry → Entry → Option Entry}
    (hf : ∀ best e, f best e = none → best = none ∧ skips e = true) (es : List Entry) {best : Option Entry}
    (hbest : es.foldl f best = none) : best = none ∧ ∀ e ∈ es, skips e = true := by
  induction es generalizing best with
  | nil => exact ⟨hbest, fun _ he => absurd he List.not_mem_nil⟩
  | cons e es ih =>
    obtain ⟨hnext, hrest⟩ := ih hbest
    exact ⟨(hf best e hnext).1, List.forall_mem_cons.mpr ⟨(hf best e hnext).2, hrest⟩⟩

theorem capVictim_none (h : s.capVictim = none) : s.ledger.tombs = 0 := by
  rw [tombs_ledger, List.length_eq_zero_iff, List.filter_eq_nil_iff]
  intro e he
  have hskip : (e.1 == s.self_ || !e.2.status.isTomb) = true := by
    refine (foldl_none (fun e => e.1 == s.self_ || !e.2.status.isTomb) (fun best e hnext => ?_) _ h).2 e he
    split at hnext
    · next hskip => exact ⟨hnext, hskip⟩
    · cases best with
      | none => cases hnext
      | some v =>
        dsimp only at hnext
        split at hnext <;> cases hnext
  simp only [Bool.or_eq_true, beq_iff_eq, Bool.not_eq_true'] at hskip
  rcases hskip with hself | hlive
  · simp [hself]
  · simp [hlive]

theorem enforceTombCap_fits (cfg : Config) (h : s.ledger.Counted) :
    (s.enforceTombCap cfg).tombCount ≤ cfg.maxTombstones := by
  have hfuel : s.ledger.tombs ≤ s.members.size := tombs_le_size
  unfold enforceTombCap
  generalize s.members.size = n at hfuel
  have hnone : ∀ {s : SwimMembership}, s.ledger.Counted → s.ledger.tombs = 0 → s.tombCount ≤ cfg.maxTombstones := by
    intro s hs hzero
    have hcount : s.tombCount = UInt32.ofNat s.ledger.tombs := hs.tomb
    rw [hcount, hzero]
    exact UInt32.zero_le
  induction n generalizing s with
  | zero => exact hnone h (Nat.le_zero.mp hfuel)
  | succ n ih =>
    rw [enforceTombCapFrom]
    split
    · split
      · next hv => exact hnone h (capVictim_none hv)
      · next v hv =>
        obtain ⟨hlookup, htomb, hother⟩ := capVictim_tomb hv
        have hcur := ledger_entry hlookup
        have hleft : (s.ledger.set v.1 none).tombs + 1 = s.ledger.tombs := by
          have hset := tombs_set (l := s.ledger) hother none
          rw [hcur, Option.any_some, if_pos (show v.2.record.tomb = true from htomb)] at hset
          simpa using hset
        have hnext := h.evict hother hcur htomb
        rw [← ledger_evicted] at hnext
        exact ih hnext (by rw [ledger_evicted]; exact Nat.le_of_lt_succ (by rw [← hleft] at hfuel; exact hfuel))
    · next hfits => exact UInt32.not_lt.mp hfits

end Table

section Bound

variable {o : Option Record}

theorem tombs_set_le (h : id ≠ l.me → o.any Record.tomb = true → (l.entry id).any Record.tomb = true) :
    (l.set id o).tombs ≤ l.tombs := by
  by_cases hid : id = l.me
  · rw [hid, tombs_set_own]
  · have hset := tombs_set hid o
    by_cases htomb : o.any Record.tomb = true
    · rw [if_pos htomb, if_pos (h hid htomb)] at hset
      exact le_of_eq (Nat.add_right_cancel hset)
    · rw [if_neg htomb, add_zero] at hset
      exact Nat.le.intro hset

theorem Edit.tombs_le (h : Edit cfg may l l') (hmay : ¬ may .bury) : l'.tombs ≤ l.tombs := by
  have hkept : ∀ {id : NodeId} {cur r : Record}, l.entry id = some cur → r.tomb = cur.tomb →
      (l.alter id cur r).tombs ≤ l.tombs := by
    intro id cur r hcur htomb
    have hset : (l.set id (some r)).tombs ≤ l.tombs := by
      refine tombs_set_le fun _ hr => ?_
      rw [hcur, Option.any_some, ← htomb]
      exact hr
    exact hset
  cases h with
  | refute _ _ _ => exact tombs_set_le fun hother => absurd rfl hother
  | adopt _ _ _ => exact tombs_set_le fun hother => absurd rfl hother
  | rejoin _ => exact tombs_set_le fun hother => absurd rfl hother
  | depart _ _ => exact tombs_set_le fun hother => absurd rfl hother
  | @alter id cur r _ hcur _ _ _ htomb _ =>
    have hset : (l.set id (some r)).tombs ≤ l.tombs := by
      refine tombs_set_le fun _ hr => ?_
      rw [hcur, Option.any_some]
      exact (htomb hr).resolve_right hmay
    exact hset
  | evict _ _ _ => exact tombs_set_le nofun
  | drop _ _ _ _ _ => exact tombs_set_le nofun
  | spend hcur _ => exact hkept hcur rfl
  | lapse hcur _ _ => exact hkept hcur rfl
  | _ => exact le_rfl

theorem Effect.tombs_le (h : Effect cfg may l l') (hmay : ¬ may .bury) : l'.tombs ≤ l.tombs := by
  refine h.keeps (I := fun l' => l'.tombs ≤ l.tombs) (fun l₁ hb => ?_) fun _ _ hl he => (he.tombs_le hmay).trans hl
  cases hb with
  | same => exact le_rfl
  | @create id r _ _ _ _ htomb =>
    have hset : (l.set id (some r)).tombs ≤ l.tombs := tombs_set_le fun _ hr => absurd (htomb hr) hmay
    exact hset

def Ledger.population (l : Ledger) : Nat := Census.census (fun o : Option Record => o.isSome = true) l.entry

theorem population_set (l : Ledger) (id : NodeId) (o : Option Record) :
    (l.set id o).population + (if (l.entry id).isSome = true then 1 else 0) =
    l.population + if o.isSome = true then 1 else 0 :=
  Census.census_update (fun o : Option Record => o.isSome = true) l.entry id o

theorem population_set_le (h : o.isSome = true → (l.entry id).isSome = true) :
    (l.set id o).population ≤ l.population := by
  have hset := population_set l id o
  by_cases ho : o.isSome = true
  · rw [if_pos ho, if_pos (h ho)] at hset
    exact le_of_eq (Nat.add_right_cancel hset)
  · rw [if_neg ho, add_zero] at hset
    exact Nat.le.intro hset

theorem Edit.population_le (h : Edit cfg may l l') (hl : l.Owned) : l'.population ≤ l.population := by
  obtain ⟨mine, hmine, -⟩ := hl
  have hkept : ∀ {id : NodeId} {cur r : Record}, l.entry id = some cur →
      (l.alter id cur r).population ≤ l.population := by
    intro id cur r hcur
    have hset : (l.set id (some r)).population ≤ l.population := population_set_le fun _ =>
      Option.isSome_of_eq_some hcur
    exact hset
  cases h with
  | refute _ _ _ => exact population_set_le fun _ => Option.isSome_of_eq_some hmine
  | adopt _ _ _ => exact population_set_le fun _ => Option.isSome_of_eq_some hmine
  | rejoin _ => exact population_set_le fun _ => Option.isSome_of_eq_some hmine
  | depart _ _ => exact population_set_le fun _ => Option.isSome_of_eq_some hmine
  | alter _ hcur _ _ _ _ _ => exact hkept hcur
  | evict _ _ _ => exact population_set_le nofun
  | drop _ _ _ _ _ => exact population_set_le nofun
  | spend hcur _ => exact hkept hcur
  | lapse hcur _ _ => exact hkept hcur
  | _ => exact le_rfl

theorem Effect.population_le (h : Effect cfg may l l') (hl : l.Owned) : l'.population ≤ l.population + 1 := by
  refine (h.keeps (I := fun l' => l'.Owned ∧ l'.population ≤ l.population + 1) (fun l₁ hb => ⟨hb.owned hl, ?_⟩)
    fun _ _ hI he => ⟨he.owned hI.1, (he.population_le hI.1).trans hI.2⟩).2
  cases hb with
  | same => exact Nat.le_succ _
  | @create id r _ hnew _ _ _ =>
    have hset : (l.set id (some r)).population + (if (l.entry id).isSome = true then 1 else 0) = l.population + 1 :=
      population_set ..
    exact Nat.le_of_add_right_le (le_of_eq hset)

theorem population_ledger : s.ledger.population = s.members.size := by
  have hcount := Table.census_lookup (t := s.members)
    (q := fun o => (o.map Member.record).isSome = true) nofun
  exact hcount.trans (by simp [Table.size])

end Bound

section Runs

/-- The entries that a task erases without telling the counters. -/
def Task.dropped (cfg : Config) (s : SwimMembership) : Task → List Entry
  | .reapUnverified now => if cfg.unverifiedTtl ≤ 0 then [] else s.selected (s.silent cfg now)
  | _ => []

/-- An entry that is dropped was sent as often as it should be; the table does not outgrow the counters. -/
def Node.Spares (cfg : Config) (n : Node) (label : Label) : Prop :=
  ((label.task n).toList.flatMap fun t => t.dropped cfg n.swim).all (fun e => e.2.txLeft == 0) = true ∧
    n.swim.members.size + 1 < 2 ^ 32

instance (n : Node) (label : Label) : Decidable (n.Spares cfg label) := inferInstanceAs (Decidable (_ ∧ _))

variable {n n' : Node} {label : Label}

theorem Node.Spares.drop (h : n.Spares cfg label) (tx : UInt8) (hmay : label.May cfg n (.drop tx)) : tx = 0 := by
  obtain ⟨env, t, rest, rfl, htodo, hdrop⟩ := hmay
  have hall := h.1
  rw [Label.task, htodo, List.head?_cons, Option.toList_some, List.flatMap_singleton, List.all_eq_true] at hall
  cases hdrop with
  | drop hreaps he =>
    rw [Task.dropped, if_neg (Int.not_le.mpr hreaps)] at hall
    exact eq_of_beq (hall _ he)

/-- The counters are exact, and the tombstones within their cap. -/
structure Node.Tallied (cfg : Config) (n : Node) : Prop where
  sound : n.Sound
  counted : n.swim.ledger.Counted
  small : n.swim.members.size < 2 ^ 32
  fits : n.swim.tombCount ≤ cfg.maxTombstones

theorem tombCount_le (h : s.ledger.Counted) (h' : s'.ledger.Counted) (hsmall : s.members.size < 2 ^ 32)
    (htombs : s'.ledger.tombs ≤ s.ledger.tombs) : s'.tombCount ≤ s.tombCount := by
  have hbound : s.ledger.tombs < 2 ^ 32 := lt_of_le_of_lt tombs_le_size hsmall
  have hcount : s.tombCount = UInt32.ofNat s.ledger.tombs := h.tomb
  have hcount' : s'.tombCount = UInt32.ofNat s'.ledger.tombs := h'.tomb
  rw [hcount, hcount', le_iff_toNat_le, toNat_ofNat_of_lt' hbound,
    toNat_ofNat_of_lt' (lt_of_le_of_lt htombs hbound)]
  exact htombs

theorem Node.Tallied.step (hn : n.Tallied cfg) (hok : n.Spares cfg label) (h : n.step cfg label = some n') :
    n'.Tallied cfg := by
  have heffect : Effect cfg (label.May cfg n) n.swim.ledger n'.swim.ledger := Node.step_effect h hn.sound.own
  have hcounted : n'.swim.ledger.Counted := heffect.counted hn.counted hok.drop
  have hgrown := heffect.population_le hn.sound.own
  rw [population_ledger, population_ledger] at hgrown
  refine ⟨hn.sound.step h, hcounted, lt_of_le_of_lt hgrown hok.2, ?_⟩
  obtain ⟨env, t, rest, rfl, htodo, rfl⟩ | ⟨hsame, -⟩ := Node.step_books h
  · have hexec : Capped cfg (Effect cfg) (t.May cfg n.swim) n.swim (n.swim.exec cfg env t).swim :=
      exec_capped hn.sound.own.sure
    obtain hplain | ⟨hburied, hcap⟩ := hexec
    · have htombs := hplain.tombs_le fun hbury => hbury.2 rfl
      exact UInt32.le_trans (tombCount_le hn.counted hcounted hn.small htombs) hn.fits
    · have hfits := enforceTombCap_fits cfg
        (hburied.counted hn.counted fun tx hdrop => hok.drop tx ⟨env, t, rest, rfl, htodo, hdrop⟩)
      exact UInt32.le_trans (UInt32.le_of_eq (congrArg Ledger.tombCount hcap)) hfits
  · rw [show n'.swim.tombCount = n.swim.tombCount from congrArg Ledger.tombCount hsame]
    exact hn.fits

theorem tallied_start {self_ : NodeId} {drawn : UInt64} {sinks : Nat} :
    (Node.start cfg self_ drawn sinks).Tallied cfg := by
  have hcounted : (Node.start cfg self_ drawn sinks).swim.ledger.Counted := by
    refine ⟨?_, ?_⟩
    · rw [sendings_ledger]
      rfl
    · have hlive : MemberStatus.isTomb .alive = false := rfl
      have hnone : ((Node.start cfg self_ drawn sinks).swim.members.entries.filter fun e =>
          e.1 != (Node.start cfg self_ drawn sinks).swim.self_ && e.2.status.isTomb) = [] :=
        List.filter_cons_of_neg (by simp [hlive])
      rw [tombs_ledger, hnone]
      rfl
  exact ⟨sound_start, hcounted, show 1 < 2 ^ 32 by decide, UInt32.zero_le⟩

/-- In a run where no unverified entry is dropped that is still to be sent, both counters are exact in every state
reached, and there are never more tombstones than allowed. -/
theorem Node.counters_exact {self_ : NodeId} {drawn : UInt64} {sinks : Nat}
    (h : Machine.Reach (Node.step cfg) (Node.Spares cfg) (Node.start cfg self_ drawn sinks) n) :
    n.swim.txPending.toNat = (n.swim.members.entries.filter fun e => e.2.txLeft != 0).length ∧
    n.swim.tombCount.toNat = (n.swim.members.entries.filter fun e =>
      e.1 != n.swim.self_ && e.2.status.isTomb).length ∧ n.swim.tombCount ≤ cfg.maxTombstones := by
  have hn : n.Tallied cfg := h.invariant tallied_start fun _ _ _ hn hok hstep => hn.step hok hstep
  have hsending : n.swim.txPending = UInt32.ofNat n.swim.ledger.sendings := hn.counted.sending
  have htomb : n.swim.tombCount = UInt32.ofNat n.swim.ledger.tombs := hn.counted.tomb
  have hbound : ∀ p : Entry → Bool, (n.swim.members.entries.filter p).length < 2 ^ 32 :=
    fun p => lt_of_le_of_lt (List.length_filter_le _ _) hn.small
  refine ⟨?_, ?_, hn.fits⟩
  · rw [hsending, sendings_ledger, toNat_ofNat_of_lt' (hbound _)]
  · rw [htomb, tombs_ledger, toNat_ofNat_of_lt' (hbound _)]

end Runs

/-- Node 3 says of node 2, which node 1 does not know, that it is alive at `inc`. -/
def sighting (inc : UInt64) : ControlMsg :=
  { kind := .gossip, from_ := 3, fromIncarnation := 1, wireVersion := 2,
    updates := [⟨2, inc, MemberStatus.alive.code⟩] }

def secondhand (inc : UInt64) : List Label :=
  .call (.frame { from_ := 3, to_ := 1, control := true, payload := some (sighting inc) }) ::
    List.replicate 8 (.run { now := 1 })

theorem counters_exact_left : ∃ n, Machine.run (Machine.guarded (Node.step (Config.sanitize {}))
      (Node.Spares (Config.sanitize {}))) (Node.start (Config.sanitize {}) 1 0 0)
      (secondhand 1 ++ .call (.leave 2) :: List.replicate 3 (.run {})) = some n ∧
    n.swim.txPending = 1 ∧ n.swim.tombCount = 1 ∧
    n.swim.txPending.toNat = (n.swim.members.entries.filter fun e => e.2.txLeft != 0).length ∧
    n.swim.tombCount.toNat = (n.swim.members.entries.filter fun e =>
      e.1 != n.swim.self_ && e.2.status.isTomb).length ∧ n.swim.tombCount ≤ 256 := by
  obtain ⟨n, hn, hcounts⟩ := Option.map_eq_some_iff.mp
    (show (Machine.run (Machine.guarded (Node.step (Config.sanitize {}))
    (Node.Spares (Config.sanitize {}))) (Node.start (Config.sanitize {}) 1 0 0)
    (secondhand 1 ++ .call (.leave 2) :: List.replicate 3 (.run {}))).map (fun n =>
      (n.swim.txPending, n.swim.tombCount)) =
      some (1, 1) by decide +kernel)
  obtain ⟨hsending, htomb⟩ := Prod.mk.inj hcounts
  exact ⟨n, hn, hsending, htomb, Node.counters_exact (Machine.reach_of_run hn)⟩

/-- Node 2 is heard of twice, so that its entry is to be sent, and is then forgotten: it stays counted. -/
theorem forgotten_stays_counted : ∃ n, Machine.run (Node.step (Config.sanitize {}))
      (Node.start (Config.sanitize {}) 1 0 0)
      (secondhand 1 ++ secondhand 2 ++ .call .tick :: List.replicate 5 (.run { now := 30000000001 })) = some n ∧
    n.swim.txPending = 1 ∧ (n.swim.members.entries.filter fun e => e.2.txLeft != 0) = [] := by
  obtain ⟨n, hn, hfacts⟩ := Option.map_eq_some_iff.mp (show (Machine.run (Node.step (Config.sanitize {}))
    (Node.start (Config.sanitize {}) 1 0 0)
    (secondhand 1 ++ secondhand 2 ++ .call .tick :: List.replicate 5 (.run { now := 30000000001 }))).map (fun n =>
      (n.swim.txPending, n.swim.members.entries.filter fun e => e.2.txLeft != 0)) = some (1, []) by decide +kernel)
  obtain ⟨hcounted, hnone⟩ := Prod.mk.inj hfacts
  exact ⟨n, hn, hcounted, hnone⟩

end Quark.Swim
