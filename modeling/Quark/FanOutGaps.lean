import Quark.FanOutMoves

/-! What a subscriber of an evicting fan-out is told: the messages it pops and the gaps reported to it. -/
namespace Quark.FanOut

open Function List

def Report.ids : Report → List Int
  | .popped id => [(id : Int)]
  | .gap g => (List.range (g.last + 1 - g.first).toNat).map fun (k : Nat) => g.first + (k : Int)

def Report.pushed : Report → Bool
  | .popped _ => true
  | .gap _ => false

def Report.fates (r : Report) : List (Int × Bool) := r.ids.map fun id => (id, r.pushed)

namespace Lane

variable (l : Lane)

def covered : List Int := l.reports.flatMap Report.ids

def told : List (Int × Bool) := l.reports.flatMap Report.fates

/-- The messages dropped for the lane. -/
def missed : List Nat := (l.fates.filter fun f => !f.2).map Prod.fst

/-- No message that is queued is older than a drop that is counted. -/
def calm : Bool := (l.pushed.drop l.ring.disp).all fun e => decide (l.evicted ≤ (l.missed.filter (· < e.id)).length)

end Lane

/-- The step is not a counter read of `take_trailing_gap`, or the lane is calm at it. -/
def State.calm (s : State) : Label → Bool
  | .consumer i => decide ((s.lanes i).consumer ≠ .trailing) || (s.lanes i).calm
  | _ => true

def Publisher.hand (i : Nat) : Publisher → List Nat
  | .pushing p lane _ => if lane = i then [p.id] else []
  | _ => []

def Publisher.owed (i : Nat) : Publisher → List (Nat × Bool)
  | .undoing p lane _ | .counting p lane => if lane = i then [(p.id, false)] else []
  | _ => []

def known (fates : List (Nat × Bool)) : List (Int × Bool) := fates.map fun f => ((f.1 : Int), f.2)

def Consumer.live : Consumer → Bool
  | .drain | .drainRelease _ | .gone => false
  | _ => true

section

variable {xs ys fates done rest owed : List (Nat × Bool)} {hand : List Nat} {a b : Nat} {l l' : Lane} {e : Envelope}

theorem consecutive_append :
    (xs ++ ys).map Prod.fst = List.range' a (xs ++ ys).length ↔
      xs.map Prod.fst = List.range' a xs.length ∧ ys.map Prod.fst = List.range' (a + xs.length) ys.length := by
  rw [map_append, length_append, ← range'_append_1]
  refine ⟨fun h => append_inj h (by rw [length_map, length_range']), fun h => ?_⟩
  rw [h.1, h.2]

theorem known_drops (hids : xs.map Prod.fst = List.range' b xs.length) (hdrops : ∀ f ∈ xs, f.2 = false) :
    known xs = (Report.gap ⟨b, b + xs.length - 1, xs.length⟩).fates := by
  have hlength : (((b : Int) + xs.length - 1) + 1 - b).toNat = xs.length := by omega
  have hknown : known xs = (xs.map Prod.fst).map fun (id : Nat) => ((id : Int), false) := by
    rw [known, map_map]
    exact map_congr_left fun f hf => by rw [Function.comp_apply, hdrops f hf]
  rw [hknown, hids, Report.fates, Report.ids, hlength, range'_eq_map_range, map_map, map_map]
  exact map_congr_left fun k _ => by
    simp only [Function.comp_apply, Int.natCast_add, Report.pushed]

/-- The history of a lane: `done` is what its subscriber was told of, `rest` what follows it, `owed` the drop
yet to be counted. -/
structure Lane.Tracked (l : Lane) (hand : List Nat) (owed : List (Nat × Bool)) (a : Nat)
    (done rest : List (Nat × Bool)) : Prop where
  offered : l.offered = l.fates.map Prod.fst ++ hand
  consecutive : l.offered = List.range' a l.offered.length
  delivered : l.pushed.map Envelope.id = (l.fates.filter Prod.snd).map Prod.fst
  fates : l.fates = done ++ rest ++ owed
  owed : ∀ f ∈ owed, f.2 = false
  evicted : l.evicted = (done ++ rest).countP fun f => !f.2
  first : ∀ f fs, l.fates = f :: fs → f.2 = true ∨ l.ring.cap = 0
  told : l.told = known done
  disp : l.consumer.live = true → l.ring.disp = done.countP Prod.snd
  gapReported : l.consumer.live = true → l.gapReported = (done.countP fun f => !f.2 : Nat)
  base : l.consumer.live = true → (l.haveBase = false ↔ done = [])
  next : l.consumer.live = true → l.haveBase = true → l.nextExpected = a + done.length

namespace Lane.Tracked

theorem start (cap : Nat) : Lane.Tracked { ring := { cap } } [] [] a [] [] :=
  ⟨rfl, rfl, rfl, rfl, nofun, rfl, nofun, rfl, fun _ => rfl, fun _ => rfl,
    fun _ => ⟨fun _ => rfl, fun _ => rfl⟩, nofun⟩

theorem congr (h : l.Tracked hand owed a done rest) (hoffered : l'.offered = l.offered)
    (hpushed : l'.pushed = l.pushed)
    (hfates : l'.fates = l.fates) (hevicted : l'.evicted = l.evicted) (hreports : l'.reports = l.reports)
    (hcap : l'.ring.cap = l.ring.cap) (hlive : l'.consumer.live = true → l.consumer.live = true ∧
    l'.ring.disp = l.ring.disp ∧
      l'.gapReported = l.gapReported ∧ l'.haveBase = l.haveBase ∧ l'.nextExpected = l.nextExpected) :
    l'.Tracked hand owed a done rest where
  offered := by rw [hoffered, hfates, h.offered]
  consecutive := by
    rw [hoffered]
    exact h.consecutive
  delivered := by rw [hpushed, hfates, h.delivered]
  fates := by rw [hfates, h.fates]
  owed := h.owed
  evicted := by rw [hevicted, h.evicted]
  first := by
    rw [hfates, hcap]
    exact h.first
  told := by
    rw [Lane.told, hreports]
    exact h.told
  disp hl := by
    obtain ⟨hon, hdisp, -⟩ := hlive hl
    rw [hdisp, h.disp hon]
  gapReported hl := by
    obtain ⟨hon, -, hgaps, -⟩ := hlive hl
    rw [hgaps, h.gapReported hon]
  base hl := by
    obtain ⟨hon, -, -, hbase, -⟩ := hlive hl
    rw [hbase]
    exact h.base hon
  next hl := by
    obtain ⟨hon, -, -, hbase, hnext⟩ := hlive hl
    rw [hbase, hnext]
    exact h.next hon

theorem ids (h : l.Tracked hand owed a done rest) : l.fates.map Prod.fst = List.range' a l.fates.length := by
  have hall := h.consecutive
  rw [h.offered, length_append, length_map, ← range'_append_1] at hall
  exact (append_inj hall (by rw [length_map, length_range'])).1

theorem offer {id : Nat} (h : l.Tracked [] [] a done rest) (hdue : l.offered = [] ∨ id = a + l.offered.length) :
    ∃ b, (l.offer id).Tracked [id] [] b done rest := by
  have hoffered : l.offered ++ [id] = l.fates.map Prod.fst ++ [id] := by
    rw [h.offered, append_nil]
  rcases hdue with hnone | hid
  · have hnothing : done = [] ∧ rest = [] := by
      have hfates := h.offered
      rw [hnone, append_nil, eq_comm, map_eq_nil_iff, h.fates, append_nil, append_eq_nil_iff] at hfates
      exact hfates
    obtain ⟨rfl, rfl⟩ := hnothing
    refine ⟨id, { h with offered := hoffered, consecutive := ?_, next := fun hl hbase => ?_ }⟩
    · change l.offered ++ [id] = List.range' id (l.offered ++ [id]).length
      rw [hnone]
      rfl
    · have hbase : l.haveBase = true := hbase
      rw [(h.base hl).mpr rfl] at hbase
      cases hbase
  · refine ⟨a, { h with offered := hoffered, consecutive := ?_ }⟩
    change l.offered ++ [id] = List.range' a (l.offered ++ [id]).length
    rw [length_append, length_singleton, range'_1_concat, ← h.consecutive, hid]

theorem store (h : l.Tracked [e.id] [] a done rest) :
    (l.store e).Tracked [] [] a done (rest ++ [(e.id, true)]) := by
  have hfates : l.fates = done ++ rest := by
    rw [h.fates, append_nil]
  refine { h with offered := ?_, delivered := ?_, fates := ?_, evicted := ?_, first := fun f fs hf => ?_ }
  · change l.offered = (l.fates ++ [(e.id, true)]).map Prod.fst ++ []
    rw [h.offered, map_append, append_nil]
    rfl
  · change (l.pushed ++ [e]).map Envelope.id = ((l.fates ++ [(e.id, true)]).filter Prod.snd).map Prod.fst
    rw [map_append, filter_append, map_append, h.delivered]
    rfl
  · change l.fates ++ [(e.id, true)] = _
    rw [hfates, append_nil, append_assoc]
  · change l.evicted = _
    rw [h.evicted, ← append_assoc, countP_append, countP_append, countP_append]
    rfl
  · have hf : l.fates ++ [(e.id, true)] = f :: fs := hf
    cases hold : l.fates with
    | nil =>
      rw [hold] at hf
      cases hf
      exact .inl rfl
    | cons f' fs' =>
      rw [hold] at hf
      cases hf
      exact h.first f _ hold

theorem miss {id : Nat} (h : l.Tracked [id] [] a done rest) (hring : l.ring.Holds l.pushed)
    (hfull : l.ring.full = true) :
    (l.miss id).Tracked [] [(id, false)] a done rest := by
  refine { h with offered := ?_, delivered := ?_, fates := ?_, owed := fun f hf => ?_, first := fun f fs hf => ?_ }
  · change l.offered = (l.fates ++ [(id, false)]).map Prod.fst ++ []
    rw [h.offered, map_append, append_nil]
    rfl
  · change l.pushed.map Envelope.id = ((l.fates ++ [(id, false)]).filter Prod.snd).map Prod.fst
    rw [filter_append, map_append, h.delivered]
    exact (append_nil _).symm
  · change l.fates ++ [(id, false)] = _
    rw [h.fates, append_nil]
  · rw [mem_singleton.mp hf]
  · have hf : l.fates ++ [(id, false)] = f :: fs := hf
    cases hold : l.fates with
    | nil =>
      have hnothing : l.ring.head = 0 := by
        have hpushed := h.delivered
        rw [hold] at hpushed
        rw [hring.head, map_eq_nil_iff.mp hpushed]
        rfl
      rw [CreditRing.full, decide_eq_true_iff, hnothing, Nat.zero_sub, Nat.le_zero] at hfull
      exact .inr hfull
    | cons f' fs' =>
      rw [hold] at hf
      cases hf
      exact h.first f _ hold

theorem count {id : Nat} (h : l.Tracked [] [(id, false)] a done rest) :
    l.count.Tracked [] [] a done (rest ++ [(id, false)]) := by
  refine { h with fates := ?_, owed := nofun, evicted := ?_ }
  · change l.fates = _
    rw [h.fates, append_nil, append_assoc]
  · change l.evicted + 1 = _
    rw [h.evicted, ← append_assoc, countP_append, countP_append, countP_append]
    rfl

theorem queued (h : l.Tracked hand owed a done rest) (hlive : l.consumer.live = true)
    (hnext : l.pushed[l.ring.disp]? = some e) :
    ∃ drops after, rest = drops ++ (e.id, true) :: after ∧ ∀ f ∈ drops, f.2 = false := by
  have howed : owed.filter Prod.snd = [] :=
    filter_eq_nil_iff.mpr fun f hf => by rw [h.owed f hf]; decide
  have hids : l.pushed.map Envelope.id = (done.filter Prod.snd).map Prod.fst ++
      (rest.filter Prod.snd).map Prod.fst := by
    rw [h.delivered, h.fates, filter_append, filter_append, howed, append_nil, map_append]
  have hdisp : l.ring.disp = ((done.filter Prod.snd).map Prod.fst).length := by
    rw [h.disp hlive, length_map, countP_eq_length_filter]
  have hid : ((rest.filter Prod.snd).map Prod.fst)[0]? = some e.id := by
    have hget : (l.pushed.map Envelope.id)[l.ring.disp]? = some e.id := by
      rw [getElem?_map, hnext]
      rfl
    rw [hids, hdisp, getElem?_append_right (Nat.le_refl _), Nat.sub_self] at hget
    exact hget
  cases hfilter : rest.filter Prod.snd with
  | nil =>
    rw [hfilter] at hid
    cases hid
  | cons f fs =>
    rw [hfilter] at hid
    have hf : f.1 = e.id := Option.some.inj hid
    obtain ⟨drops, after, hrest, hdrops, hpushed, -⟩ := filter_eq_cons_iff.mp hfilter
    have hcons : f = (e.id, true) := Prod.ext hf hpushed
    exact ⟨drops, after, hcons ▸ hrest, fun g hg => Bool.eq_false_iff.mpr (hdrops g hg)⟩

/-- What a pop reports: the drops before the message, as a gap, and the message. -/
theorem pop (h : l.Tracked hand owed a done rest) (hring : l.ring.Holds l.pushed) (hlive : l.consumer.live = true)
    (hmore : l.ring.disp < l.ring.head) (hnext : l.pushed[l.ring.disp]? = some e) :
    ∃ drops after, (l.pop e).Tracked hand owed a (done ++ (drops ++ [(e.id, true)])) after := by
  obtain ⟨drops, after, rfl, hdrops⟩ := h.queued hlive hnext
  have hids := h.ids
  rw [h.fates, append_assoc, consecutive_append, append_assoc, consecutive_append] at hids
  obtain ⟨-, hgap, hid⟩ := hids
  have hid : e.id = a + done.length + drops.length := (List.cons.inj hid).1
  have hcap : l.ring.cap ≠ 0 := by
    have hwindow := hring.window
    have htail := hring.tail_le
    omega
  -- before its first message a lane drops nothing, so that the first pop sets the base
  have hfirst : l.haveBase = false → drops = [] := by
    intro hbase
    have hdone := (h.base hlive).mp hbase
    cases drops with
    | nil => rfl
    | cons f fs =>
      have hfates := h.fates
      rw [hdone, nil_append, cons_append, cons_append] at hfates
      rcases h.first f _ hfates with hpushed | hnone
      · rw [hdrops f mem_cons_self] at hpushed
        cases hpushed
      · exact absurd hnone hcap
  have hbefore : (l.gapBefore e.id).count = drops.length ∧
      (drops ≠ [] → l.gapBefore e.id = ⟨(a + done.length : Nat), (a + done.length : Nat) + drops.length - 1,
      drops.length⟩) := by
    rw [gapBefore]
    split
    · next hgapped =>
      have hnextId := h.next hlive hgapped.1
      rw [hnextId, hid]
      refine ⟨?_, fun _ => ?_⟩
      · change ((a + done.length + drops.length : Nat) : Int) - (a + done.length) = drops.length
        omega
      · rw [Gap.mk.injEq]
        omega
    · next hsame =>
      have hnil : drops = [] := by
        cases hbase : l.haveBase with
        | false => exact hfirst hbase
        | true =>
          have hnextId := h.next hlive hbase
          have hsame : ¬(e.id : Int) ≠ l.nextExpected := fun hne => hsame ⟨hbase, hne⟩
          exact eq_nil_of_length_eq_zero (by omega)
      exact ⟨hnil ▸ rfl, fun hne => absurd hnil hne⟩
  have hreports : (inBand (l.gapBefore e.id) e.id).flatMap Report.fates = known drops ++ [((e.id : Int), true)] := by
    rw [inBand, hbefore.1]
    cases drops with
    | nil => rfl
    | cons f fs =>
      rw [if_neg (by rw [length_cons]; omega), hbefore.2 (cons_ne_nil _ _), known_drops hgap hdrops]
      rfl
  refine ⟨drops, after, { h with
    fates := ?_, evicted := ?_, told := ?_, disp := fun _ => ?_, gapReported := fun _ => ?_, base := fun _ => ?_
    next := fun _ _ => ?_ }⟩
  · change l.fates = _
    rw [h.fates]
    simp only [append_assoc, cons_append, nil_append]
  · change l.evicted = _
    rw [h.evicted]
    simp only [append_assoc, cons_append, nil_append]
  · change (l.reports ++ inBand (l.gapBefore e.id) e.id).flatMap Report.fates = _
    rw [flatMap_append, hreports, show l.reports.flatMap Report.fates = known done from h.told]
    simp only [known, map_append, map_cons, map_nil]
  · have hnone : drops.countP Prod.snd = 0 := countP_eq_zero.mpr fun f hf => by rw [hdrops f hf]; decide
    change l.ring.disp + 1 = _
    rw [h.disp hlive, countP_append, countP_append, hnone, zero_add]
    rfl
  · have hcount : drops.countP (fun f => !f.2) = drops.length :=
      countP_eq_length.mpr fun f hf => by rw [hdrops f hf]; decide
    change l.gapReported + (l.gapBefore e.id).count = _
    rw [h.gapReported hlive, hbefore.1, countP_append, countP_append, hcount]
    simp
  · exact ⟨nofun, fun hnil => (by simp at hnil)⟩
  · change (e.id : Int) + 1 = _
    rw [hid, length_append, length_append, length_singleton]
    push_cast
    omega

/-- At a calm counter read, the drops that are counted and not reported all stand before what is queued. -/
theorem owing (h : l.Tracked hand owed a done rest) (hring : l.ring.Holds l.pushed) (hlive : l.consumer.live = true)
    (hcalm : l.calm = true) : ∃ drops after, rest = drops ++ after ∧ (∀ f ∈ drops, f.2 = false) ∧
    l.pending = drops.length := by
  have hpending : l.pending = (rest.countP fun f => !f.2 : Nat) := by
    rw [pending, h.evicted, h.gapReported hlive, countP_append]
    omega
  rcases lt_or_ge l.ring.disp l.ring.head with hmore | hempty
  · obtain ⟨e, hnext⟩ : ∃ e, l.pushed[l.ring.disp]? = some e :=
      ⟨_, getElem?_eq_getElem (hring.head ▸ hmore)⟩
    obtain ⟨drops, after, rfl, hdrops⟩ := h.queued hlive hnext
    refine ⟨drops, (e.id, true) :: after, rfl, hdrops, ?_⟩
    have hqueued : e ∈ l.pushed.drop l.ring.disp := by
      rw [drop_eq_getElem?_toList_append, hnext]
      exact mem_cons_self
    have hcounted := of_decide_eq_true (all_eq_true.mp hcalm e hqueued)
    have hids := h.ids
    rw [h.fates, append_assoc, consecutive_append, append_assoc, consecutive_append] at hids
    obtain ⟨-, -, htail⟩ := hids
    have hlater : ∀ f ∈ (e.id, true) :: after ++ owed, e.id ≤ f.1 := by
      intro f hf
      have hin := htail ▸ mem_map_of_mem hf
      have hhead : e.id = a + done.length + drops.length := (List.cons.inj htail).1
      rw [hhead]
      exact (mem_range'_1.mp hin).1
    have hmissed : (l.missed.filter (· < e.id)).length ≤ (done.countP fun f => !f.2) + drops.length := by
      rw [missed, filter_map, length_map, filter_filter, ← countP_eq_length_filter, h.fates,
        append_assoc, countP_append, append_assoc, countP_append]
      have hnone : ((e.id, true) :: after ++ owed).countP (fun f => decide (f.1 < e.id) && !f.2) = 0 := by
        refine countP_eq_zero.mpr fun f hf => ?_
        rw [decide_eq_false (not_lt.mpr (hlater f hf))]
        exact Bool.false_ne_true
      have hdone : done.countP (fun f => decide (f.1 < e.id) && !f.2) ≤ done.countP fun f => !f.2 :=
        countP_mono_left fun f _ hf => (Bool.and_eq_true_iff.mp hf).2
      have hdrops : drops.countP (fun f => decide (f.1 < e.id) && !f.2) ≤ drops.length := countP_le_length
      exact Nat.add_le_add hdone (by rw [← add_zero drops.length]; exact Nat.add_le_add hdrops (le_of_eq hnone))
    have hall : drops.countP (fun f => !f.2) = drops.length :=
      countP_eq_length.mpr fun f hf => by rw [hdrops f hf]; decide
    rw [h.evicted, countP_append, countP_append, hall] at hcounted
    rw [hpending, countP_append, hall]
    omega
  · have hpushed : l.ring.head = l.fates.countP Prod.snd := by
      rw [hring.head, countP_eq_length_filter, ← length_map Prod.fst, ← h.delivered, length_map]
    rw [h.fates, countP_append, countP_append] at hpushed
    have hnone : rest.countP Prod.snd = 0 := by
      rw [h.disp hlive] at hempty
      omega
    have hdrops : ∀ f ∈ rest, f.2 = false := fun f hf => Bool.eq_false_iff.mpr (countP_eq_zero.mp hnone f hf)
    refine ⟨rest, [], (append_nil _).symm, hdrops, ?_⟩
    rw [hpending, countP_eq_length.mpr fun f hf => by rw [hdrops f hf]; decide]

theorem takeTrailing (h : l.Tracked hand owed a done rest) (hring : l.ring.Holds l.pushed)
    (hlive : l.consumer.live = true)
    (hbase : l.haveBase = true) (hcalm : l.calm = true) :
    ∃ drops after, l.takeTrailing.Tracked hand owed a (done ++ drops) after := by
  obtain ⟨drops, after, rfl, hdrops, hpending⟩ := h.owing hring hlive hcalm
  refine ⟨drops, after, ?_⟩
  rw [Lane.takeTrailing]
  split
  · next hnone =>
    have hnil : drops = [] := eq_nil_of_length_eq_zero (by omega)
    subst hnil
    rw [append_nil]
    exact h.congr rfl rfl rfl rfl rfl rfl fun _ => ⟨hlive, rfl, rfl, rfl, rfl⟩
  · next hsome =>
    have hids := h.ids
    rw [h.fates, append_assoc, consecutive_append, append_assoc, consecutive_append] at hids
    have hgap := known_drops hids.2.1 hdrops
    have hnext := h.next hlive hbase
    refine { h with
      fates := ?_, evicted := ?_, told := ?_, disp := fun _ => ?_, gapReported := fun _ => ?_, base := fun _ => ?_
      next := fun _ _ => ?_ }
    · change l.fates = _
      rw [h.fates, append_assoc done drops]
    · change l.evicted = _
      rw [h.evicted, append_assoc done drops]
    · change (l.reports ++ [Report.gap ⟨l.nextExpected, l.nextExpected + l.pending - 1, l.pending⟩]).flatMap
        Report.fates = _
      rw [flatMap_append, show l.reports.flatMap Report.fates = known done from h.told, known, known, map_append]
      refine congrArg _ ?_
      rw [show drops.map (fun f => ((f.1 : Int), f.2)) = _ from hgap, hnext, hpending]
      simp
    · have hnone : drops.countP Prod.snd = 0 := countP_eq_zero.mpr fun f hf => by rw [hdrops f hf]; decide
      change l.ring.disp = _
      rw [h.disp hlive, countP_append, hnone, add_zero]
    · have hcount : drops.countP (fun f => !f.2) = drops.length :=
        countP_eq_length.mpr fun f hf => by rw [hdrops f hf]; decide
      change l.gapReported + l.pending = _
      rw [h.gapReported hlive, hpending, countP_append, hcount]
      exact (Int.natCast_add _ _).symm
    · have hdone : done ≠ [] := fun hnil => by
        rw [(h.base hlive).mpr hnil] at hbase
        cases hbase
      exact ⟨fun hoff => absurd (hbase.symm.trans hoff) (by decide), fun hnil =>
        absurd (append_eq_nil_iff.mp hnil).1 hdone⟩
    · change l.nextExpected + l.pending = _
      rw [hnext, hpending, length_append, Int.natCast_add]
      omega

end Lane.Tracked

end

def Publisher.publication : Publisher → Option Publication
  | .choosing p | .pushing p _ _ | .undoing p _ _ | .counting p _ => some p
  | _ => none

/-- The id that the publisher will bring to a lane next. -/
def Publisher.due (seq i : Nat) (pb : Publisher) : Nat := if i ∈ pb.rest then seq - 1 else seq

/-- Every lane has its history, and the publisher brings it the ids one after the other. -/
structure Exact (s : State) : Prop where
  rings : Rings s
  lane : ∀ i, ∃ a done rest, (s.lanes i).Tracked (s.publisher.hand i) (s.publisher.owed i) a done rest
  based : ∀ i, (s.lanes i).consumer = .trailing → (s.lanes i).haveBase = true
  due : ∀ i, (s.lanes i).active = true → ∀ k, (s.lanes i).offered.getLast? = some k → k + 1 = s.publisher.due s.seq i
  stage : ∀ p i pc, s.publisher = .pushing p i pc → pc = .tryPush ∨ pc = .store
  ids : ∀ p, s.publisher.publication = some p → p.id + 1 = s.seq

namespace Exact

variable {cap : Nat} {s s' : State} {a : Label} {i : Nat} {l : Lane} {c : Consumer}

theorem start : Exact {} where
  rings := .start
  lane _ := ⟨0, [], [], (Lane.Tracked.start 0).congr rfl rfl rfl rfl rfl rfl nofun⟩
  based _ hpc := by cases hpc
  due _ hon := by cases hon
  stage _ _ _ hpc := by cases hpc
  ids _ hp := by cases hp

theorem of_lane (h : Exact s) (hrings : Rings s') (hlanes : s'.lanes = update s.lanes i l)
    (hothers : ∀ j, j ≠ i → s'.publisher.hand j = s.publisher.hand j ∧ s'.publisher.owed j = s.publisher.owed j ∧
    ((s.lanes j).active = true → s'.publisher.due s'.seq j = s.publisher.due s.seq j))
    (htracked : ∃ a done rest, l.Tracked (s'.publisher.hand i) (s'.publisher.owed i) a done rest)
    (hdue : l.active = true → ∀ k, l.offered.getLast? = some k → k + 1 = s'.publisher.due s'.seq i)
    (hbased : l.consumer = .trailing → l.haveBase = true)
    (hstage : ∀ p i pc, s'.publisher = .pushing p i pc → pc = .tryPush ∨ pc = .store)
    (hids : ∀ p, s'.publisher.publication = some p → p.id + 1 = s'.seq) : Exact s' := by
  have hself : s'.lanes i = l := by rw [hlanes, update_self]
  have hne : ∀ j, j ≠ i → s'.lanes j = s.lanes j := fun j hj => by rw [hlanes, update_of_ne hj]
  refine ⟨hrings, fun j => ?_, fun j => ?_, fun j => ?_, hstage, hids⟩
  · by_cases hj : j = i
    · subst hj
      rw [hself]
      exact htracked
    · rw [hne j hj, (hothers j hj).1, (hothers j hj).2.1]
      exact h.lane j
  · by_cases hj : j = i
    · subst hj
      rw [hself]
      exact hbased
    · rw [hne j hj]
      exact h.based j
  · by_cases hj : j = i
    · subst hj
      rw [hself]
      exact hdue
    · rw [hne j hj]
      intro hon
      rw [(hothers j hj).2.2 hon]
      exact h.due j hon

theorem of_publisher (h : Exact s) (hrings : Rings s') (hlanes : s'.lanes = s.lanes)
    (hsame : ∀ j, s'.publisher.hand j = s.publisher.hand j ∧ s'.publisher.owed j = s.publisher.owed j ∧
    ((s.lanes j).active = true → s'.publisher.due s'.seq j = s.publisher.due s.seq j))
    (hstage : ∀ p i pc, s'.publisher = .pushing p i pc → pc = .tryPush ∨ pc = .store)
    (hids : ∀ p, s'.publisher.publication = some p → p.id + 1 = s'.seq) : Exact s' := by
  refine h.of_lane (i := 0) (l := s.lanes 0) hrings (hlanes.trans (update_eq_self 0 s.lanes).symm)
    (fun j _ => hsame j) ?_ ?_
    (h.based 0) hstage hids
  · rw [(hsame 0).1, (hsame 0).2.1]
    exact h.lane 0
  · intro hon
    rw [(hsame 0).2.2 hon]
    exact h.due 0 hon

theorem of_thread (h : Exact s) (hrings : Rings s') (hlanes : s'.lanes = update s.lanes i l)
    (hpublisher : s'.publisher = s.publisher) (hseq : s'.seq = s.seq)
    (htracked : ∃ a done rest, l.Tracked (s.publisher.hand i) (s.publisher.owed i) a done rest)
    (hactive : l.active = true → (s.lanes i).active = true) (hoffered : l.offered = (s.lanes i).offered)
    (hbased : l.consumer = .trailing → l.haveBase = true) : Exact s' := by
  refine h.of_lane hrings hlanes (fun j _ => ?_) ?_ (fun hon => ?_) hbased ?_ ?_
  · rw [hpublisher, hseq]
    exact ⟨rfl, rfl, fun _ => rfl⟩
  · rw [hpublisher]
    exact htracked
  · rw [hoffered, hpublisher, hseq]
    exact h.due i (hactive hon)
  · rw [hpublisher]
    exact h.stage
  · rw [hpublisher, hseq]
    exact h.ids

theorem notify_eq (h : Exact s) : s.notify i = s := by
  unfold State.notify
  split
  · next p lane g hpc =>
    rcases h.stage p lane _ hpc with hstage | hstage <;> cases hstage
  · rfl

theorem due_congr {pb pb' : Publisher} {q j : Nat} (h : j ∈ pb'.rest ↔ j ∈ pb.rest) : pb'.due q j = pb.due q j := by
  simp only [Publisher.due, h]

theorem of_pc {pb pb' : Publisher} (h : Exact s) (hrings : Rings s') (hpc : s.publisher = pb)
    (hpc' : s'.publisher = pb')
    (hlanes : s'.lanes = s.lanes) (hseq : s'.seq = s.seq) (hhand : ∀ j, pb'.hand j = pb.hand j)
    (howed : ∀ j, pb'.owed j = pb.owed j)
    (hrest : ∀ j, (s.lanes j).active = true → (j ∈ pb'.rest ↔ j ∈ pb.rest)) (hstage : ∀ p i pc, pb' ≠ .pushing p i pc)
    (hpub : ∀ p, pb'.publication = some p → ∃ q, pb.publication = some q ∧ p.id = q.id) : Exact s' := by
  refine h.of_publisher hrings hlanes (fun j => ?_) (fun p i pc hnext => ?_) fun p hnext => ?_
  · rw [hpc, hpc', hseq]
    exact ⟨hhand j, howed j, fun hon => due_congr (hrest j hon)⟩
  · rw [hpc'] at hnext
    exact absurd hnext (hstage p i pc)
  · rw [hpc'] at hnext
    obtain ⟨q, hq, hid⟩ := hpub p hnext
    rw [hid, hseq]
    exact h.ids q (hpc ▸ hq)

theorem of_face {pb pb' : Publisher} {lane : Nat} (h : Exact s) (hrings : Rings s') (hpc : s.publisher = pb)
    (hpc' : s'.publisher = pb') (hlanes : s'.lanes = update s.lanes lane l) (hseq : s'.seq = s.seq)
    (hothers : ∀ j, j ≠ lane → pb'.hand j = pb.hand j ∧ pb'.owed j = pb.owed j ∧ (j ∈ pb'.rest ↔ j ∈ pb.rest))
    (htracked : ∃ a done rest, l.Tracked (pb'.hand lane) (pb'.owed lane) a done rest)
    (hdue : l.active = true → ∀ k, l.offered.getLast? = some k → k + 1 = pb'.due s.seq lane)
    (hconsumer : l.consumer = (s.lanes lane).consumer) (hbase : l.haveBase = (s.lanes lane).haveBase)
    (hstage : ∀ p i pc, pb' = .pushing p i pc → pc = .tryPush ∨ pc = .store)
    (hpub : ∀ p, pb'.publication = some p → ∃ q, pb.publication = some q ∧ p.id = q.id) : Exact s' := by
  refine h.of_lane hrings hlanes (fun j hj => ?_) (hpc' ▸ htracked) (hpc' ▸ hseq ▸ hdue) ?_
    (hpc' ▸ hstage) fun p hnext => ?_
  · rw [hpc, hpc', hseq]
    obtain ⟨hhand, howed, hrest⟩ := hothers j hj
    exact ⟨hhand, howed, fun _ => due_congr hrest⟩
  · rw [hconsumer, hbase]
    exact h.based lane
  · rw [hpc'] at hnext
    obtain ⟨q, hq, hid⟩ := hpub p hnext
    rw [hid, hseq]
    exact h.ids q (hpc ▸ hq)

theorem of_at (h : Exact s) (hrings : Rings s') (hlanes : s'.lanes = update s.lanes i l)
    (hpublisher : s'.publisher = s.publisher)
    (hseq : s'.seq = s.seq) (hactive : l.active = (s.lanes i).active) (hoffered : l.offered = (s.lanes i).offered)
    (hpushed : l.pushed = (s.lanes i).pushed) (hfates : l.fates = (s.lanes i).fates)
    (hevicted : l.evicted = (s.lanes i).evicted)
    (hreports : l.reports = (s.lanes i).reports) (hcap : l.ring.cap = (s.lanes i).ring.cap)
    (hlive : l.consumer.live = true → (s.lanes i).consumer.live = true ∧ l.ring.disp = (s.lanes i).ring.disp ∧
      l.gapReported = (s.lanes i).gapReported ∧ l.haveBase = (s.lanes i).haveBase ∧
      l.nextExpected = (s.lanes i).nextExpected)
    (hbased : l.consumer = .trailing → l.haveBase = true) : Exact s' := by
  obtain ⟨a, done, rest, htracked⟩ := h.lane i
  exact h.of_thread hrings hlanes hpublisher hseq
    ⟨a, done, rest, htracked.congr hoffered hpushed hfates hevicted hreports hcap hlive⟩
    (fun hon => hactive ▸ hon) hoffered hbased

theorem offer {p : Publication} {lane : Nat} {rest : List Nat} {s' : State} (h : Exact s) (hrings : Rings s')
    (hpc : s.publisher = .choosing p) (hrest : p.rest = lane :: rest) (hactive : (s.lanes lane).active = true)
    (hpc' : s'.publisher = .pushing { p with rest } lane .tryPush)
    (hlanes : s'.lanes = update s.lanes lane ((s.lanes lane).offer p.id)) (hseq : s'.seq = s.seq) : Exact s' := by
  have hvisits : (lane :: rest).Nodup := by
    have hvisits := h.rings.visits
    rw [hpc] at hvisits
    exact hrest ▸ hvisits
  have hid : p.id + 1 = s.seq := h.ids p (hpc ▸ rfl)
  refine h.of_face hrings hpc hpc' hlanes hseq (fun j hj => ?_) ?_ (fun _ k hk => ?_) rfl rfl
    (fun _ _ _ hnext => ?_) fun q hnext => ?_
  · refine ⟨if_neg (Ne.symm hj), rfl, ?_⟩
    rw [Publisher.rest, Publisher.rest, hrest, mem_cons, or_iff_right hj]
  · obtain ⟨a, done, after, htracked⟩ := h.lane lane
    rw [hpc] at htracked
    have hdue := h.due lane hactive
    rw [hpc, Publisher.due, Publisher.rest, hrest, if_pos mem_cons_self] at hdue
    have hnext : (s.lanes lane).offered = [] ∨ p.id = a + (s.lanes lane).offered.length := by
      refine or_iff_not_imp_left.mpr fun hsome => ?_
      have hpos := length_pos_iff.mpr hsome
      have hlast : (s.lanes lane).offered.getLast? = some (a + (s.lanes lane).offered.length - 1) := by
        rw [htracked.consecutive, getLast?_range', if_neg (by omega), length_range']
      have hseqs := hdue _ hlast
      omega
    obtain ⟨b, hoffered⟩ := htracked.offer hnext
    refine ⟨b, done, after, ?_⟩
    rw [Publisher.hand, if_pos rfl]
    exact hoffered
  · have hk : ((s.lanes lane).offered ++ [p.id]).getLast? = some k := hk
    rw [getLast?_concat] at hk
    cases hk
    rw [Publisher.due, Publisher.rest, if_neg (nodup_cons.mp hvisits).1, hid]
  · cases hnext
    exact .inl rfl
  · cases hnext
    exact ⟨p, rfl, rfl⟩

theorem subscribe {id : ActorId} (h : Exact s)
    (hrings : Rings { s.setLane s.made { ring := { cap } } with
      registry := s.registry ++ [(id, s.made)], made := s.made + 1 }) :
    Exact { s.setLane s.made { ring := { cap } } with
      registry := s.registry ++ [(id, s.made)], made := s.made + 1 } := by
  refine h.of_lane hrings rfl (fun _ _ => ⟨rfl, rfl, fun _ => rfl⟩) ?_ (by simp) (by simp)
    h.stage h.ids
  have hunvisited : s.made ∉ s.publisher.facing := fun hin => lt_irrefl _ (h.rings.facing_made hin)
  have hhand : s.publisher.hand s.made = [] ∧ s.publisher.owed s.made = [] := by
    cases hpc : s.publisher with
    | pushing p lane pc =>
      rw [hpc] at hunvisited
      exact ⟨if_neg fun heq => hunvisited (mem_singleton.mpr heq.symm), rfl⟩
    | undoing p lane r | counting p lane =>
      rw [hpc] at hunvisited
      exact ⟨rfl, if_neg fun heq => hunvisited (mem_singleton.mpr heq.symm)⟩
    | idle | entered | choosing | dropping | leaving | returning => exact ⟨rfl, rfl⟩
  refine ⟨0, [], [], ?_⟩
  change Lane.Tracked _ (s.publisher.hand s.made) (s.publisher.owed s.made) 0 [] []
  rw [hhand.1, hhand.2]
  exact .start cap

theorem load (h : Exact s) (hpc : s.publisher = .entered)
    (hrings : Rings { s with
      pool := s.pool.acquire.2, seq := s.seq + 1
      publisher := .choosing ⟨s.registry.map Prod.snd, s.registry.map Prod.snd, s.pool.acquire.1, s.seq⟩ }) :
    Exact { s with
      pool := s.pool.acquire.2, seq := s.seq + 1
      publisher := .choosing ⟨s.registry.map Prod.snd, s.registry.map Prod.snd, s.pool.acquire.1, s.seq⟩ } := by
  refine h.of_publisher hrings rfl (fun j => ?_) (by simp) fun _ hnext => ?_
  · rw [hpc]
    refine ⟨rfl, rfl, fun hon => ?_⟩
    obtain ⟨e, he, rfl⟩ := h.rings.active j hon
    exact if_pos (mem_map_of_mem he)
  · cases hnext
    rfl

theorem pushing {p : Publication} {lane : Nat} {pc pc' : Pushing} (h : Exact s)
    (hpc : s.publisher = .pushing p lane pc)
    (hstep : (s.lanes lane).pushStep .evictAfter p.envelope pc = .at_ pc' l)
    (hrings : Rings { s.setLane lane l with publisher := .pushing p lane pc' }) :
    Exact { s.setLane lane l with publisher := .pushing p lane pc' } := by
  obtain ⟨⟨b, rfl⟩, -⟩ := Lane.pushStep_at hstep
  obtain ⟨a, done, rest, htracked⟩ := h.lane lane
  have hdue := h.due lane
  rw [hpc] at htracked hdue
  refine h.of_face hrings hpc rfl rfl rfl (fun _ _ => ⟨rfl, rfl, Iff.rfl⟩)
    ⟨a, done, rest, htracked.congr rfl rfl rfl rfl rfl rfl fun hl => ⟨hl, rfl, rfl, rfl, rfl⟩⟩ hdue rfl rfl
    (fun q i pc'' hnext => ?_) fun q hnext => ?_
  · cases hnext
    rcases h.stage p lane pc hpc with rfl | rfl
    · rw [Lane.pushStep] at hstep
      split at hstep
      · cases hstep
      · exact .inr (Lane.Pushed.at_.inj hstep).1.symm
    · cases hstep
  · cases hnext
    exact ⟨p, rfl, rfl⟩

theorem delivered {p : Publication} {lane : Nat} {pc : Pushing} (h : Exact s) (hpc : s.publisher = .pushing p lane pc)
    (hstep : (s.lanes lane).pushStep .evictAfter p.envelope pc = .delivered l)
    (hrings : Rings { s.setLane lane l with publisher := .choosing p }) :
    Exact { s.setLane lane l with publisher := .choosing p } := by
  obtain ⟨rfl, rfl⟩ := Lane.pushStep_delivered hstep
  obtain ⟨a, done, rest, htracked⟩ := h.lane lane
  have hdue := h.due lane
  rw [hpc] at htracked hdue
  rw [Publisher.hand, if_pos rfl] at htracked
  refine h.of_face hrings hpc rfl rfl rfl (fun j hj => ⟨(if_neg (Ne.symm hj)).symm, rfl, Iff.rfl⟩)
    ⟨a, done, _, Lane.Tracked.store (e := p.envelope) htracked⟩ hdue rfl rfl (by simp) fun q hnext => ?_
  cases hnext
  exact ⟨p, rfl, rfl⟩

theorem refused {p : Publication} {lane : Nat} {pc : Pushing} (h : Exact s) (hpc : s.publisher = .pushing p lane pc)
    (hstep : (s.lanes lane).pushStep .evictAfter p.envelope pc = .refused l)
    (hrings : Rings { s.setLane lane l with publisher := .undoing p lane (.dec p.cell) }) :
    Exact { s.setLane lane l with publisher := .undoing p lane (.dec p.cell) } := by
  rcases Lane.pushStep_refused hstep with ⟨-, rfl, hfull, rfl⟩ | ⟨-, hother⟩
  · obtain ⟨a, done, rest, htracked⟩ := h.lane lane
    have hdue := h.due lane
    rw [hpc] at htracked hdue
    rw [Publisher.hand, if_pos rfl] at htracked
    refine h.of_face hrings hpc rfl rfl rfl (fun j hj => ⟨(if_neg (Ne.symm hj)).symm, if_neg (Ne.symm hj), Iff.rfl⟩)
      ⟨a, done, rest, ?_⟩ hdue rfl rfl (by simp) fun q hnext => ?_
    · rw [Publisher.owed, if_pos rfl]
      exact htracked.miss (h.rings.steady lane).ring hfull
    · cases hnext
      exact ⟨p, rfl, rfl⟩
  · rcases h.stage p lane pc hpc with rfl | rfl
    · rcases hother with ⟨heq, -⟩ | heq <;> cases heq
    · rcases hother with ⟨heq, -⟩ | heq <;> cases heq

theorem count {p : Publication} {lane : Nat} (h : Exact s) (hpc : s.publisher = .counting p lane)
    (hrings : Rings { s.setLane lane (s.lanes lane).count with publisher := .choosing p }) :
    Exact { s.setLane lane (s.lanes lane).count with publisher := .choosing p } := by
  obtain ⟨a, done, rest, htracked⟩ := h.lane lane
  have hdue := h.due lane
  rw [hpc] at htracked hdue
  rw [Publisher.owed, if_pos rfl] at htracked
  refine h.of_face hrings hpc rfl rfl rfl (fun j hj => ⟨rfl, (if_neg (Ne.symm hj)).symm, Iff.rfl⟩)
    ⟨a, done, _, htracked.count⟩ hdue rfl rfl (by simp) fun q hnext => ?_
  cases hnext
  exact ⟨p, rfl, rfl⟩

theorem dispatch {e : Envelope} (h : Exact s) (hpc : (s.lanes i).consumer = .dispatch)
    (hslot : (s.lanes i).ring.slotAt (s.lanes i).ring.disp = some e)
    (hrings : Rings (s.setLane i ((s.lanes i).pop e))) : Exact (s.setLane i ((s.lanes i).pop e)) := by
  have hsteady := h.rings.steady i
  obtain ⟨a, done, rest, htracked⟩ := h.lane i
  have hmore := hsteady.dispatch hpc
  have hnext := (hsteady.ring.next hmore).symm.trans hslot
  obtain ⟨drops, after, hpopped⟩ := htracked.pop hsteady.ring (hpc ▸ rfl) hmore hnext
  exact h.of_thread hrings rfl rfl rfl ⟨a, _, after, hpopped⟩ (fun hon => hon) rfl (by intros; contradiction)

theorem takeTrailing (h : Exact s) (hpc : (s.lanes i).consumer = .trailing) (hcalm : s.calm (.consumer i) = true)
    (hrings : Rings (s.setLane i (s.lanes i).takeTrailing)) : Exact (s.setLane i (s.lanes i).takeTrailing) := by
  obtain ⟨a, done, rest, htracked⟩ := h.lane i
  rw [State.calm, hpc, decide_eq_false (fun hne => hne rfl), Bool.false_or] at hcalm
  obtain ⟨drops, after, htaken⟩ := htracked.takeTrailing (h.rings.steady i).ring (hpc ▸ rfl) (h.based i hpc) hcalm
  have hrest : (s.lanes i).takeTrailing.active = (s.lanes i).active ∧
    (s.lanes i).takeTrailing.offered = (s.lanes i).offered ∧ (s.lanes i).takeTrailing.consumer = .idle := by
    rw [Lane.takeTrailing]
    split <;> exact ⟨rfl, rfl, rfl⟩
  refine h.of_thread hrings rfl rfl rfl ⟨a, _, after, htaken⟩ (fun hon => hrest.1 ▸ hon) hrest.2.1 fun hc => ?_
  rw [hrest.2.2] at hc
  cases hc

theorem step (h : Exact s) (hmove : Move .evictAfter cap s a s') (hcalm : s.calm a = true) : Exact s' := by
  have hrings := h.rings.step hmove
  cases hmove with
  | none_ => exact h
  | subscribe id hunlocked hnew => exact h.subscribe hrings
  | unsubscribe id lane hunlocked hfind =>
    obtain ⟨a, done, rest, htracked⟩ := h.lane lane
    exact h.of_thread hrings rfl rfl rfl ⟨a, done, rest,
      htracked.congr rfl rfl rfl rfl rfl rfl fun hl => ⟨hl, rfl, rfl, rfl, rfl⟩⟩
      (by simp) rfl (h.based lane)
  | swap i id lane hget => exact h.of_publisher hrings rfl (fun _ => ⟨rfl, rfl, fun _ => rfl⟩) h.stage h.ids
  | leaveDisarm i id lane hget | leaveBump i id lane hget =>
    exact h.of_at hrings rfl rfl rfl rfl rfl rfl rfl rfl rfl rfl (fun hl => ⟨hl, rfl, rfl, rfl, rfl⟩) (h.based lane)
  | leaveNotify i id lane hget =>
    rw [h.notify_eq] at hrings ⊢
    exact h.of_publisher hrings rfl (fun _ => ⟨rfl, rfl, fun _ => rfl⟩) h.stage h.ids
  | quiesced i id lane hget hnone => exact h.of_publisher hrings rfl (fun _ => ⟨rfl, rfl, fun _ => rfl⟩) h.stage h.ids
  | publish hpc | nobody hpc hempty =>
    exact h.of_pc hrings hpc rfl rfl rfl (fun _ => rfl) (fun _ => rfl) (fun _ _ => Iff.rfl) (by simp)
      (by intros; contradiction)
  | load hpc hsome => exact h.load hpc hrings
  | finish p hpc hrest =>
    refine h.of_pc hrings hpc rfl rfl rfl (fun _ => rfl) (fun _ => rfl) (fun _ _ => ?_) (by simp)
      (by intros; contradiction)
    rw [show (Publisher.choosing p).rest = [] from hrest]
    exact Iff.rfl
  | pass p lane rest hpc hrest hgone =>
    refine h.of_pc hrings hpc rfl rfl rfl (fun _ => rfl) (fun _ => rfl) (fun j hon => ?_) (by simp)
      fun q hnext => ?_
    · have hne : j ≠ lane := fun heq => by
        rw [heq, hgone] at hon
        cases hon
      rw [show (Publisher.choosing p).rest = lane :: rest from hrest, mem_cons, or_iff_right hne]
      exact Iff.rfl
    · cases hnext
      exact ⟨p, rfl, rfl⟩
  | offer p lane rest hpc hrest hactive => exact h.offer hrings hpc hrest hactive rfl rfl rfl
  | pushing p lane pc pc' l hpc hstep => exact h.pushing hpc hstep hrings
  | delivered p lane pc l hpc hstep => exact h.delivered hpc hstep hrings
  | refused p lane pc l hpc hstep => exact h.refused hpc hstep hrings
  | undoing p lane r r' hpc hmore | undone p lane r hpc hlast =>
    refine h.of_pc hrings hpc rfl rfl rfl (fun _ => rfl) (fun _ => rfl) (fun _ _ => Iff.rfl) (by simp)
      fun q hnext => ?_
    cases hnext
    exact ⟨p, rfl, rfl⟩
  | count p lane hpc => exact h.count hpc hrings
  | dropping snap r r' hpc hmore | dropped snap r hpc hlast | leaving snap hpc | returning snap hpc =>
    exact h.of_pc hrings hpc rfl rfl rfl (fun _ => rfl) (fun _ => rfl) (fun _ _ => Iff.rfl) (by simp)
      (by intros; contradiction)
  | tryPop i hpc hhandle hmore =>
    exact h.of_at hrings rfl rfl rfl rfl rfl rfl rfl rfl rfl rfl (fun _ => ⟨hpc ▸ rfl, rfl, rfl, rfl, rfl⟩)
      (by intros; contradiction)
  | trail i hpc hhandle hbase hempty =>
    exact h.of_at hrings rfl rfl rfl rfl rfl rfl rfl rfl rfl rfl (fun _ => ⟨hpc ▸ rfl, rfl, rfl, rfl, rfl⟩) fun _ =>
      hbase
  | dispatch i e hpc hslot => exact h.dispatch hpc hslot hrings
  | copy i e hpc | releasing i r r' hpc hmore | released i r hpc hlast =>
    exact h.of_at hrings rfl rfl rfl rfl rfl rfl rfl rfl rfl rfl (fun _ => ⟨hpc ▸ rfl, rfl, rfl, rfl, rfl⟩)
      (fun h => by cases h)
  | credit i hpc =>
    exact h.of_at hrings rfl rfl rfl rfl rfl rfl rfl rfl rfl rfl (fun _ => ⟨hpc ▸ rfl, rfl, rfl, rfl, rfl⟩)
      (by intros; contradiction)
  | unstall i hpc =>
    refine h.of_at hrings rfl rfl rfl rfl rfl rfl rfl rfl rfl rfl (fun _ => ⟨hpc ▸ rfl, rfl, rfl, rfl,
      rfl⟩) fun hc => ?_
    rw [Lane.unstall] at hc
    cases hstalled : (s.lanes i).stalled <;> rw [hstalled] at hc <;> cases hc
  | bump i hpc =>
    exact h.of_at hrings rfl rfl rfl rfl rfl rfl rfl rfl rfl rfl (fun _ => ⟨hpc ▸ rfl, rfl, rfl, rfl, rfl⟩)
      (by intros; contradiction)
  | notify i hpc =>
    have hmoved : Exact (s.setLane i ((s.lanes i).at_ .idle)) :=
      h.of_at (h.rings.thread (by rw [hpc]; decide) (by simp) (by intros; contradiction)) rfl rfl rfl
        rfl rfl rfl rfl rfl
        rfl rfl (fun _ => ⟨hpc ▸ rfl, rfl, rfl, rfl, rfl⟩) (by intros; contradiction)
    rw [hmoved.notify_eq]
    exact hmoved
  | takeTrailing i hpc => exact h.takeTrailing hpc hcalm hrings
  | drained i hpc hempty | discarding i r r' hpc hmore =>
    exact h.of_at hrings rfl rfl rfl rfl rfl rfl rfl rfl rfl rfl (fun h => by cases h) (fun h => by cases h)
  | discard i e hpc hmore hslot | discarded i r hpc hlast =>
    exact h.of_at hrings rfl rfl rfl rfl rfl rfl rfl rfl rfl rfl (fun h => by cases h) (by intros; contradiction)
  | drop i hpc hhandle =>
    exact h.of_at hrings rfl rfl rfl rfl rfl rfl rfl rfl rfl rfl (fun hl => ⟨hl, rfl, rfl, rfl, rfl⟩) (h.based i)
  | destroy i hpc hunheld =>
    exact h.of_at hrings rfl rfl rfl rfl rfl rfl rfl rfl rfl rfl (fun h => by cases h) (by intros; contradiction)

theorem of_reach (hrun : Machine.Reach (State.step .evictAfter cap) (fun s a => s.calm a = true) {} s) : Exact s :=
  hrun.invariant .start fun _ _ _ h hcalm hstep => h.step (.of_step hstep) hcalm

end Exact

section

variable {cap : Nat} {s : State}

theorem covered_eq (l : Lane) : l.told.map Prod.fst = l.covered := by
  rw [Lane.told, Lane.covered, map_flatMap]
  refine congrArg l.reports.flatMap (funext fun r => ?_)
  rw [Report.fates, map_map]
  exact map_id _

theorem known_fst (fates : List (Nat × Bool)) :
    (known fates).map Prod.fst = (fates.map Prod.fst).map fun (id : Nat) => (id : Int) := by
  rw [known, map_map, map_map]
  rfl

/-- In every run of an evicting fan-out whose counter reads are calm: the ids that a subscriber popped and
those of the gaps reported to it are, in the order reported, the first of the consecutive ids published while
it was attached; what a gap covers was dropped for it, and what it popped was pushed. -/
theorem reports_exact (hrun : Machine.Reach (State.step .evictAfter cap) (fun s a => s.calm a = true) {} s)
    (i : Nat) :
    (∃ a, (s.lanes i).offered = List.range' a (s.lanes i).offered.length) ∧
    (s.lanes i).covered <+: (s.lanes i).offered.map (fun (id : Nat) => (id : Int)) ∧
    (∀ g, .gap g ∈ (s.lanes i).reports → ∀ id ∈ (Report.gap g).ids, ∃ k ∈ (s.lanes i).missed, id = k) ∧
    (∀ id, .popped id ∈ (s.lanes i).reports → id ∈ (s.lanes i).pushed.map Envelope.id) ∧
    ∀ k ∈ (s.lanes i).missed, k ∉ (s.lanes i).pushed.map Envelope.id := by
  obtain ⟨a, done, rest, h⟩ := (Exact.of_reach hrun).lane i
  have hknown : ∀ r ∈ (s.lanes i).reports, ∀ id ∈ r.ids, ∃ k, (k, r.pushed) ∈ (s.lanes i).fates ∧ id = k := by
    intro r hr id hid
    have hin : (id, r.pushed) ∈ known done :=
      h.told ▸ mem_flatMap.mpr ⟨r, hr, mem_map.mpr ⟨id, hid, rfl⟩⟩
    obtain ⟨f, hf, heq⟩ := mem_map.mp hin
    refine ⟨f.1, ?_, (congrArg Prod.fst heq).symm⟩
    rw [h.fates, ← show f.2 = r.pushed from congrArg Prod.snd heq]
    exact mem_append_left _ (mem_append_left _ hf)
  refine ⟨⟨a, h.consecutive⟩, ?_, fun g hg id hid => ?_, fun id hpop => ?_, fun k hk hpushed => ?_⟩
  · rw [← covered_eq, h.told, known_fst, h.offered, h.fates]
    simp only [map_append, append_assoc]
    exact prefix_append _ _
  · obtain ⟨k, hk, heq⟩ := hknown _ hg id hid
    exact ⟨k, mem_map.mpr ⟨_, mem_filter.mpr ⟨hk, rfl⟩, rfl⟩, heq⟩
  · obtain ⟨k, hk, heq⟩ := hknown _ hpop id mem_cons_self
    rw [h.delivered, Int.ofNat.inj heq]
    exact mem_map.mpr ⟨_, mem_filter.mpr ⟨hk, rfl⟩, rfl⟩
  · rw [h.delivered] at hpushed
    obtain ⟨f, hf, hfk⟩ := mem_map.mp hk
    obtain ⟨g, hg, hgk⟩ := mem_map.mp hpushed
    have hids : (s.lanes i).fates.map Prod.fst = List.range' a (s.lanes i).fates.length := h.ids
    have hnodup : ((s.lanes i).fates.map Prod.fst).Nodup := hids ▸ nodup_range'
    have hsame := inj_on_of_nodup_map hnodup (mem_filter.mp hf).1 (mem_filter.mp hg).1 (hfk.trans hgk.symm)
    have hdrop := (mem_filter.mp hf).2
    rw [hsame, (mem_filter.mp hg).2] at hdrop
    cases hdrop

end

/-- A `publish` that delivers, one that evicts, and a `try_pop` of a message of which nobody else holds a
reference. -/
def delivering : List Label := .publish :: List.replicate 8 .publisher

def evicting : List Label := .publish :: List.replicate 11 .publisher

def popping : List Label := .tryPop 0 :: List.replicate 7 (.consumer 0)

def view (s : State) : List Report × List Nat × List Nat :=
  ((s.lanes 0).reports, (s.lanes 0).pushed.map Envelope.id, (s.lanes 0).missed)

theorem reports_exact_trailing : ∃ s, view s = ([.popped 0, .gap ⟨1, 1, 1⟩], [0], [1]) ∧
    (s.lanes 0).covered <+: (s.lanes 0).offered.map (fun (id : Nat) => (id : Int)) := by
  obtain ⟨s, hrun, hview⟩ := Option.map_eq_some_iff.mp (show (Machine.run
    (Machine.guarded (State.step .evictAfter 1) fun s a => s.calm a = true) {}
    ([.subscribe ⟨⟨1⟩, 7⟩] ++ delivering ++ evicting ++ popping ++ [.takeTrailingGap 0, .consumer 0])).map view =
      some ([.popped 0, .gap ⟨1, 1, 1⟩], [0], [1]) by decide +kernel)
  exact ⟨s, hview, (reports_exact (Machine.reach_of_run hrun) 0).2.1⟩

/-- The lane is seen empty; then one message is pushed and the next one dropped, and the trailing gap names
the one that was pushed. The subscriber pops it afterwards, behind a gap of count -1. -/
theorem reports_pushed_as_dropped : ∃ s, Machine.Reachable (State.step .evictAfter 1) {} s ∧
    view s = ([.popped 0, .gap ⟨1, 1, 1⟩, .gap ⟨2, 0, -1⟩, .popped 1], [0, 1], [2]) ∧
    1 ∈ (Report.gap ⟨1, 1, 1⟩).ids ∧ ¬(s.lanes 0).covered.Nodup := by
  obtain ⟨s, hrun, hview⟩ := Option.map_eq_some_iff.mp (show (Machine.run (State.step .evictAfter 1) {}
    ([.subscribe ⟨⟨1⟩, 7⟩] ++ delivering ++ popping ++ [.takeTrailingGap 0] ++ delivering ++ evicting ++
    [.consumer 0] ++ popping)).map view = some ([.popped 0, .gap ⟨1, 1, 1⟩, .gap ⟨2, 0, -1⟩, .popped 1], [0, 1],
      [2]) by decide +kernel)
  refine ⟨s, Machine.reachable_of_run hrun, hview, by decide, ?_⟩
  rw [Lane.covered, show (s.lanes 0).reports = _ from congrArg Prod.fst hview]
  decide

end Quark.FanOut
