import Quark.Lib.GoBackN
import Quark.ReliableLink

/-! What the receiver delivers, with and without a cap on the senders it remembers. The link of one sender is a
go-back-N flow. -/
namespace Quark.Reliable

open Function List Option Machine GoBackN

variable {K B : Type}

def itemsFrom (n : Nat) : List B → List (Item B)
  | [] => []
  | b :: bs => ⟨n + 1, b⟩ :: itemsFrom (n + 1) bs

section

variable {n : Nat} {bs : List B} {item : Item B}

@[simp] theorem length_itemsFrom : (itemsFrom n bs).length = bs.length := by
  induction bs generalizing n with
  | nil => rfl
  | cons b bs ih => simp only [itemsFrom, length_cons, ih]

theorem itemsFrom_concat {b : B} : itemsFrom n (bs ++ [b]) = itemsFrom n bs ++ [⟨n + bs.length + 1, b⟩] := by
  induction bs generalizing n with
  | nil => rfl
  | cons b' bs ih =>
    simp only [cons_append, itemsFrom, ih, length_cons]
    rw [show n + 1 + bs.length + 1 = n + (bs.length + 1) + 1 by omega]

theorem mem_itemsFrom (h : item ∈ itemsFrom n bs) : n < item.seq ∧ bs[item.seq - n - 1]? = some item.body := by
  induction bs generalizing n with
  | nil => cases h
  | cons b bs ih =>
    rcases mem_cons.mp h with rfl | h
    · simp
    · obtain ⟨hlt, hbody⟩ := ih h
      refine ⟨by omega, ?_⟩
      rw [show item.seq - n - 1 = (item.seq - (n + 1) - 1) + 1 by omega, getElem?_cons_succ, hbody]

theorem exists_mem_itemsFrom {t : Nat} (hlt : n < t) (hle : t ≤ n + bs.length) :
    ∃ item ∈ itemsFrom n bs, item.seq = t := by
  induction bs generalizing n with
  | nil =>
    simp only [length_nil] at hle
    omega
  | cons b bs ih =>
    by_cases heq : t = n + 1
    · exact ⟨⟨n + 1, b⟩, mem_cons_self, heq.symm⟩
    · rw [length_cons] at hle
      obtain ⟨item, hin, hseq⟩ := ih (n := n + 1) (by omega) (by omega)
      exact ⟨item, mem_cons_of_mem _ hin, hseq⟩

theorem dropWhile_itemsFrom {cum : Nat} :
    (itemsFrom n bs).dropWhile (fun item => item.seq ≤ cum) = itemsFrom (max n cum) (bs.drop (cum - n)) := by
  induction bs generalizing n with
  | nil =>
    rw [drop_nil]
    rfl
  | cons b bs ih =>
    by_cases hle : n + 1 ≤ cum
    · rw [itemsFrom, dropWhile_cons_of_pos (by simpa using hle), ih,
        show cum - n = (cum - (n + 1)) + 1 by omega, drop_succ_cons,
        show max (n + 1) cum = max n cum by omega]
    · rw [itemsFrom, dropWhile_cons_of_neg (by simpa using hle), show cum - n = 0 by omega,
        show max n cum = n by omega]
      rfl

end

/-- What is pending at a sender is the end of what was enqueued. -/
structure Windowed (snd : ReliableSender K B) (k : K) (enqueued : List B) : Prop where
  named : snd.sender = k
  next : snd.next = enqueued.length + 1
  window : ∃ n ≤ enqueued.length, snd.pending = itemsFrom n (enqueued.drop n)

def acked (snd : ReliableSender K B) (enqueued : List B) : Nat := enqueued.length - snd.pending.length

section

variable {snd snd' : ReliableSender K B} {k : K} {enqueued : List B} {cum : Nat}

theorem Windowed.pending_eq (h : Windowed snd k enqueued) :
    acked snd enqueued ≤ enqueued.length ∧
      snd.pending = itemsFrom (acked snd enqueued) (enqueued.drop (acked snd enqueued)) := by
  obtain ⟨n, hn, hpending⟩ := h.window
  have hacked : acked snd enqueued = n := by
    unfold acked
    rw [hpending, length_itemsFrom, length_drop]
    omega
  rw [hacked]
  exact ⟨hn, hpending⟩

theorem Windowed.same (h : Windowed snd k enqueued) (hsender : snd'.sender = snd.sender)
    (hnext : snd'.next = snd.next)
    (hpending : snd'.pending = snd.pending) : Windowed snd' k enqueued :=
  ⟨by rw [hsender, h.named], by rw [hnext, h.next], by rw [hpending]; exact h.window⟩

theorem Windowed.enqueue (h : Windowed snd k enqueued) (b : B) :
    Windowed (snd.enqueue b).2 k (enqueued ++ [b]) ∧ acked (snd.enqueue b).2
    (enqueued ++ [b]) = acked snd enqueued := by
  obtain ⟨n, hn, hpending⟩ := h.window
  have hpending' : (snd.enqueue b).2.pending = itemsFrom n ((enqueued ++ [b]).drop n) := by
    rw [drop_append_of_le_length hn, itemsFrom_concat, ← hpending, length_drop,
      show n + (enqueued.length - n) + 1 = enqueued.length + 1 by omega, ← h.next]
    rfl
  refine ⟨⟨h.named, ?_, n, ?_, hpending'⟩, ?_⟩
  · rw [length_append]
    exact congrArg (· + 1) h.next
  · rw [length_append]
    omega
  · unfold acked
    rw [hpending', hpending]
    simp only [length_itemsFrom, length_drop, length_append, length_singleton]
    omega

theorem Windowed.drop (h : Windowed snd k enqueued) (hcum : cum ≤ enqueued.length)
    (hsender : snd'.sender = snd.sender)
    (hnext : snd'.next = snd.next) (hpending : snd'.pending = snd.pending.dropWhile fun item => item.seq ≤ cum) :
    Windowed snd' k enqueued ∧ acked snd' enqueued = max (acked snd enqueued) cum := by
  obtain ⟨hle, hwindow⟩ := h.pending_eq
  have hpending' : snd'.pending =
      itemsFrom (max (acked snd enqueued) cum) (enqueued.drop (max (acked snd enqueued) cum)) := by
    rw [hpending, hwindow, dropWhile_itemsFrom, drop_drop,
      show acked snd enqueued + (cum - acked snd enqueued) = max (acked snd enqueued) cum by omega]
  refine ⟨⟨by rw [hsender, h.named], by rw [hnext, h.next], _, by omega, hpending'⟩, ?_⟩
  rw [acked, hpending', length_itemsFrom, length_drop]
  omega

theorem Windowed.mem (h : Windowed snd k enqueued) {item : Item B} (hin : item ∈ snd.pending) :
    acked snd enqueued < item.seq ∧ enqueued[item.seq - 1]? = some item.body := by
  obtain ⟨hle, hpending⟩ := h.pending_eq
  rw [hpending] at hin
  obtain ⟨hlt, hbody⟩ := mem_itemsFrom hin
  refine ⟨hlt, ?_⟩
  rwa [getElem?_drop, show acked snd enqueued + (item.seq - acked snd enqueued - 1) = item.seq - 1 by omega] at hbody

theorem Windowed.head (h : Windowed snd k enqueued) {front : Item B} (hfront : snd.pending.head? = some front) :
    front.seq = acked snd enqueued + 1 := by
  obtain ⟨hle, hpending⟩ := h.pending_eq
  rw [hpending] at hfront
  cases hdrop : enqueued.drop (acked snd enqueued) with
  | nil =>
    rw [hdrop] at hfront
    cases hfront
  | cons b bs =>
    rw [hdrop] at hfront
    cases hfront
    rfl

theorem Windowed.dropped (h : Windowed snd k enqueued) {t : Nat} (hlt : t < snd.next)
    (hnot : ∀ item ∈ snd.pending, item.seq ≠ t) : t ≤ acked snd enqueued := by
  obtain ⟨hle, hpending⟩ := h.pending_eq
  by_contra hgt
  rw [h.next] at hlt
  have hwithin : t ≤ acked snd enqueued + (enqueued.drop (acked snd enqueued)).length := by
    rw [length_drop]
    omega
  obtain ⟨item, hin, hseq⟩ := exists_mem_itemsFrom (by omega) hwithin
  exact hnot item (by rw [hpending]; exact hin) hseq

end

section

variable {snd : ReliableSender K B}

theorem leavePump_spec (snd : ReliableSender K B) : snd.leavePump.sender = snd.sender ∧
    snd.leavePump.next = snd.next ∧ snd.leavePump.deferredAck = snd.deferredAck ∧
      snd.leavePump.pending = match snd.flushed with
        | some cum => snd.pending.dropWhile fun item => item.seq ≤ cum
        | none => snd.pending := by
  unfold ReliableSender.leavePump ReliableSender.flushed
  cases snd.pumps with
  | nil => exact ⟨rfl, rfl, rfl, rfl⟩
  | cons call rest =>
    by_cases houter : call.outermost
    · by_cases hhas : snd.hasDeferredAck
      · simp [houter, hhas, ReliableSender.onAck]
      · simp [houter, hhas]
    · simp [houter]

theorem flushed_eq {cum : Nat} (h : snd.flushed = some cum) : cum = snd.deferredAck := by
  unfold ReliableSender.flushed at h
  split at h
  · split at h <;> cases h
    rfl
  · cases h

theorem nextFrame_spec {f : ReliableFrame K} {body : B} (h : snd.nextFrame = some (f, body)) :
    f.sender = snd.sender ∧ (⟨f.seq, body⟩ : Item B) ∈ snd.pending ∧
      ∃ front, snd.pending.head? = some front ∧ f.base = front.seq := by
  unfold ReliableSender.nextFrame at h
  split at h
  · next call rest front hpumps hfront =>
    split at h
    · obtain ⟨item, hitem, heq⟩ := map_eq_some_iff.mp h
      cases heq
      exact ⟨rfl, mem_of_find?_eq_some hitem, front, hfront, rfl⟩
    · cases h
  · cases h

end

variable [DecidableEq K]

def Link.flow (s : Link K B) (k : K) : Flow B where
  sent := s.enqueued k
  acked := acked (s.sender k) (s.enqueued k)
  deferred := (s.sender k).deferredAck
  mark := s.receiver.wm.find k
  delivered := s.delivered k
  frames := (s.frames.filter fun p => p.1.sender = k).map fun p => (p.1.seq, p.1.base, p.2)
  acks := (s.acks.filter fun p => p.1 = k).map Prod.snd

def Link.Current (s : Link K B) (k : K) (cumulative : Nat) : Prop :=
  ∀ w, s.receiver.wm.find k = some w → cumulative ≤ w

def ReliableSender.base (snd : ReliableSender K B) : Nat := (snd.pending.head?.map Item.seq).getD snd.next

/-- A receiver that does not know the sender takes it up no earlier than just before its oldest unacked frame, and
no acknowledgement from before an eviction is applied that is ahead of the new watermark. -/
def Fresh (s : Link K B) : Label K B → Prop
  | .accept f _ => s.receiver.wm.find f.sender = none → f.seq = f.base → (s.sender f.sender).base ≤ f.seq + 1
  | .onAck k cumulative => (s.sender k).inPump = false → s.Current k cumulative
  | .round k => (s.sender k).nextFrame = none → ∀ cum ∈ (s.sender k).flushed, s.Current k cum
  | .unwind k => ∀ cum ∈ (s.sender k).flushed, s.Current k cum
  | .enqueue _ _ | .pump _ _ | .ackFor _ => True

/-- The step does to the flow of the sender what a flow can do; it forgets only under a cap. -/
def Follows (s s' : Link K B) (fresh : Prop) (k : K) : Prop :=
  Windowed (s'.sender k) k (s'.enqueued k) ∧
    ∃ e, Flow.Step (s.flow k) e (s'.flow k) ∧ (fresh → (s.flow k).Fresh e) ∧ (s.receiver.wm.cap = 0 → e ≠ .forget)

section

variable {s s' : Link K B} {k k' : K} {fresh : Prop}

theorem Follows.stay (h : Windowed (s.sender k) k (s.enqueued k)) (hsender : s'.sender k = s.sender k)
    (henqueued : s'.enqueued k = s.enqueued k) (hflow : s'.flow k = s.flow k) : Follows s s' fresh k := by
  refine ⟨by rw [hsender, henqueued]; exact h, .other, ?_, fun _ => trivial, fun _ => by simp⟩
  rw [hflow]
  exact .stay _

theorem Follows.other {snd : ReliableSender K B} (h : Windowed (s.sender k') k' (s.enqueued k')) (hne : k' ≠ k)
    (hsender : s'.sender = update s.sender k snd) (henqueued : s'.enqueued k' = s.enqueued k')
    (hreceiver : s'.receiver = s.receiver) (hdelivered : s'.delivered = s.delivered)
    (hframes : s'.frames = s.frames ∨ ∃ f b, f.sender = k ∧ s'.frames = s.frames ++ [(f, b)])
    (hacks : s'.acks = s.acks) : Follows s s' fresh k' := by
  have hsender' : s'.sender k' = s.sender k' := by rw [hsender, update_of_ne hne]
  refine .stay h hsender' henqueued ?_
  have hframes' : s'.frames.filter (fun p => p.1.sender = k') = s.frames.filter fun p => p.1.sender = k' := by
    rcases hframes with hframes | ⟨f, b, hf, hframes⟩
    · rw [hframes]
    · rw [hframes, filter_append]
      have hfk : ¬ f.sender = k' := fun heq => hne (heq.symm.trans hf)
      simp [hfk]
  unfold Link.flow
  rw [hsender', henqueued, hreceiver, hdelivered, hframes', hacks]

/-- An acknowledgement that is applied drops a prefix of the window. -/
theorem Follows.apply {cum : Nat} (h : Windowed (s.sender k) k (s.enqueued k)) (hsafe : (s.flow k).Safe)
    (hin : cum ∈ (s.flow k).acks ∨ cum = (s.flow k).deferred) {snd : ReliableSender K B}
    (hsender : snd.sender = (s.sender k).sender) (hnext : snd.next = (s.sender k).next)
    (hdeferred : snd.deferredAck = (s.sender k).deferredAck)
    (hpending : snd.pending = (s.sender k).pending.dropWhile fun item => item.seq ≤ cum)
    (hfresh : fresh → s.Current k cum) : Follows s (s.setSender k snd) fresh k := by
  have hcovers : (s.flow k).Covers cum := by
    rcases hin with hin | rfl
    · exact hsafe.acks cum hin
    · exact hsafe.deferred
  have hcum : cum ≤ (s.enqueued k).length := by
    rcases Nat.eq_zero_or_pos cum with hzero | hpos
    · omega
    · obtain ⟨b, hb⟩ := hcovers cum hpos (le_refl _)
      obtain ⟨hlt, _⟩ := List.getElem?_eq_some_iff.mp (hsafe.bodies cum b hb).2
      change cum - 1 < (s.enqueued k).length at hlt
      omega
  obtain ⟨hwindowed, hacked⟩ := h.drop hcum hsender hnext hpending
  have hself : (s.setSender k snd).sender k = snd := update_self ..
  refine ⟨by rw [hself]; exact hwindowed, .apply cum, ?_, hfresh, fun _ => by simp⟩
  have hflow : (s.setSender k snd).flow k = { s.flow k with acked := max (s.flow k).acked cum } := by
    unfold Link.flow
    rw [hself, hdeferred]
    simp only [Link.setSender, hacked]
  rw [hflow]
  exact .apply _ hin

theorem Follows.leavePump (h : Windowed (s.sender k) k (s.enqueued k)) (hsafe : (s.flow k).Safe)
    (hfresh : fresh → ∀ cum ∈ (s.sender k).flushed, s.Current k cum) :
    Follows s (s.setSender k (s.sender k).leavePump) fresh k := by
  obtain ⟨hsender, hnext, hdeferred, hpending⟩ := leavePump_spec (s.sender k)
  cases hflushed : (s.sender k).flushed with
  | some cum =>
    rw [hflushed] at hpending
    exact .apply h hsafe (Or.inr (flushed_eq hflushed)) hsender hnext hdeferred hpending
      fun hf => hfresh hf cum hflushed
  | none =>
    rw [hflushed] at hpending
    have hself : (s.setSender k (s.sender k).leavePump).sender k = (s.sender k).leavePump := update_self ..
    refine ⟨by rw [hself]; exact h.same hsender hnext hpending, .other, ?_, fun _ => trivial,
      fun _ => by simp⟩
    have hflow : (s.setSender k (s.sender k).leavePump).flow k = s.flow k := by
      unfold Link.flow
      rw [hself, hdeferred]
      simp only [Link.setSender, acked, hpending]
    rw [hflow]
    exact .stay _

theorem accept_cases (r : ReliableReceiver K) (f : ReliableFrame K) :
    (r.accept f = (.deliver, ⟨r.wm.touch f.sender 0 fun _ => f.seq⟩) ∧
      (r.wm.find f.sender = none ∧ f.seq = f.base ∨ ∃ w, r.wm.find f.sender = some w ∧ f.seq = w + 1)) ∨
    (r.accept f).2 = r ∧ (r.accept f).1 ≠ .deliver := by
  unfold ReliableReceiver.accept
  cases hfind : r.wm.find f.sender with
  | none =>
    by_cases hbase : f.seq = f.base
    · left
      simp [hbase]
    · right
      simp [hbase]
  | some w =>
    by_cases hle : f.seq ≤ w
    · right
      simp [hle]
    · by_cases hnext : f.seq = w + 1
      · left
        simp [hnext]
      · right
        simp [hle, hnext]

/-- A delivery for the sender of the frame; another sender may be evicted by it. -/
theorem Follows.deliver {f : ReliableFrame K} {body : B} (hwindowed : ∀ k, Windowed (s.sender k) k (s.enqueued k))
    (hin : (f, body) ∈ s.frames)
    (hnew : s.receiver.wm.find f.sender = none ∧ f.seq = f.base ∨
      ∃ w, s.receiver.wm.find f.sender = some w ∧ f.seq = w + 1)
    (hfresh : fresh → s.receiver.wm.find f.sender = none → f.seq = f.base →
      (s.sender f.sender).base ≤ f.seq + 1) (k : K) :
    Follows s { s with
      receiver := ⟨s.receiver.wm.touch f.sender 0 fun _ => f.seq⟩
      delivered := update s.delivered f.sender (s.delivered f.sender ++ [(f.seq, body)]) } fresh k := by
  refine ⟨hwindowed k, ?_⟩
  by_cases hk : k = f.sender
  · subst hk
    have hframe : (f.seq, f.base, body) ∈ (s.flow f.sender).frames :=
      mem_map.mpr ⟨(f, body), mem_filter.mpr ⟨hin, by simp⟩, rfl⟩
    have hflow : Link.flow { s with
        receiver := ⟨s.receiver.wm.touch f.sender 0 fun _ => f.seq⟩
        delivered := update s.delivered f.sender (s.delivered f.sender ++ [(f.seq, body)]) } f.sender =
        { s.flow f.sender with
          mark := some f.seq, delivered := (s.flow f.sender).delivered ++ [(f.seq, body)] } := by
      simp [Link.flow]
    rcases hnew with ⟨hnone, hbase⟩ | ⟨w, hsome, hseq⟩
    · refine ⟨.first f.seq, ?_, fun hf => ?_, fun _ => by simp⟩
      · rw [hflow]
        rw [← hbase] at hframe
        exact .first _ hnone hframe
      · have hle := hfresh hf hnone hbase
        change acked (s.sender f.sender) (s.enqueued f.sender) ≤ f.seq
        unfold ReliableSender.base at hle
        obtain ⟨hacked, hpending⟩ := (hwindowed f.sender).pending_eq
        cases hhead : (s.sender f.sender).pending.head? with
        | some front =>
          rw [hhead] at hle
          have hfront := (hwindowed f.sender).head hhead
          simp only [map_some, getD_some] at hle
          omega
        | none =>
          rw [hhead] at hle
          simp only [map_none, getD_none, (hwindowed f.sender).next] at hle
          omega
    · refine ⟨.other, ?_, fun _ => trivial, fun _ => by simp⟩
      rw [hflow]
      rw [hseq] at hframe ⊢
      exact .next _ hsome hframe
  · have hflow : ∀ mark, (s.receiver.wm.touch f.sender 0 fun _ => f.seq).find k = mark → Link.flow { s with
        receiver := ⟨s.receiver.wm.touch f.sender 0 fun _ => f.seq⟩
        delivered := update s.delivered f.sender (s.delivered f.sender ++ [(f.seq, body)]) } k =
        { s.flow k with mark := mark } := by
      intro mark hmark
      simp [Link.flow, hmark, update_of_ne hk]
    cases hmark : (s.receiver.wm.touch f.sender 0 fun _ => f.seq).find k with
    | some w =>
      refine ⟨.other, ?_, fun _ => trivial, fun _ => by simp⟩
      rw [hflow _ hmark, ← BoundedMap.find_touch_ne hk hmark]
      exact .stay _
    | none =>
      by_cases hcap : s.receiver.wm.cap = 0
      · refine ⟨.other, ?_, fun _ => trivial, fun _ => by simp⟩
        rw [hflow _ hmark, ← hmark, BoundedMap.find_touch_uncapped hcap hk]
        exact .stay _
      · refine ⟨.forget, ?_, fun _ => trivial, fun h => absurd h hcap⟩
        rw [hflow _ hmark]
        exact .forget _

theorem Follows.round (hwindowed : ∀ k, Windowed (s.sender k) k (s.enqueued k)) (hsafe : ∀ k, (s.flow k).Safe)
    (hstep : stepRound s k = some s') : Follows s s' (Fresh s (.round k : Label K B)) k' := by
  unfold stepRound at hstep
  split at hstep
  · cases hstep
  · split at hstep
    · next f body hnext =>
      cases hstep
      obtain ⟨hsender, hin, front, hfront, hbase⟩ := nextFrame_spec hnext
      by_cases hne : k' = k
      · subst hne
        have hadvance : ∀ snd : ReliableSender K B, (snd.advance f.seq).sender = snd.sender ∧
            (snd.advance f.seq).next = snd.next ∧ (snd.advance f.seq).pending = snd.pending ∧
              (snd.advance f.seq).deferredAck = snd.deferredAck := by
          intro snd
          unfold ReliableSender.advance
          split <;> exact ⟨rfl, rfl, rfl, rfl⟩
        obtain ⟨hsender', hnext', hpending', hdeferred'⟩ := hadvance (s.sender k')
        have hself : (({ s with frames := s.frames ++ [(f, body)] } : Link K B).setSender k'
            ((s.sender k').advance f.seq)).sender k' = (s.sender k').advance f.seq := update_self ..
        refine ⟨by rw [hself]; exact (hwindowed k').same hsender' hnext' hpending', .other, ?_, fun _ => trivial,
          fun _ => by simp⟩
        have hf : f.sender = k' := hsender.trans (hwindowed k').named
        have hflow : (({ s with frames := s.frames ++ [(f, body)] } : Link K B).setSender k'
            ((s.sender k').advance f.seq)).flow k' =
              { s.flow k' with frames := (s.flow k').frames ++ [(f.seq, (s.flow k').acked + 1, body)] } := by
          unfold Link.flow
          rw [hself, hdeferred']
          simp [Link.setSender, acked, hpending', hf, hbase, (hwindowed k').head hfront]
        rw [hflow]
        obtain ⟨hlt, hbody⟩ := (hwindowed k').mem hin
        exact .send _ hlt hbody
      · exact .other (hwindowed k') hne rfl rfl rfl rfl
          (Or.inr ⟨f, body, hsender.trans (hwindowed k).named, rfl⟩) rfl
    · next hnext =>
      cases hstep
      by_cases hne : k' = k
      · subst hne
        exact .leavePump (hwindowed k') (hsafe k') fun hf => hf hnext
      · exact .other (hwindowed k') hne rfl rfl rfl rfl (Or.inl rfl) rfl

variable [DecidableEq B]

theorem Follows.accept {f : ReliableFrame K} {body : B} (hwindowed : ∀ k, Windowed (s.sender k) k (s.enqueued k))
    (hstep : stepAccept s f body = some s') :
    s'.receiver.wm.cap = s.receiver.wm.cap ∧ ∀ k, Follows s s' (Fresh s (.accept f body : Label K B)) k := by
  unfold stepAccept at hstep
  split at hstep
  · next hin =>
    rcases accept_cases s.receiver f with ⟨hdeliver, hnew⟩ | ⟨hsame, hnot⟩
    · rw [hdeliver] at hstep
      cases hstep
      exact ⟨BoundedMap.cap_touch, fun k => .deliver hwindowed hin hnew id k⟩
    · split at hstep
      · next heq =>
        rw [heq] at hnot
        exact absurd rfl hnot
      · next heq =>
        rw [heq] at hsame
        cases hstep
        change _ = _ at hsame
        subst hsame
        exact ⟨rfl, fun k => .stay (hwindowed k) rfl rfl rfl⟩
  · cases hstep

theorem Follows.step {l : Label K B} (hwindowed : ∀ k, Windowed (s.sender k) k (s.enqueued k))
    (hsafe : ∀ k, (s.flow k).Safe) (hstep : step s l = some s') :
    s'.receiver.wm.cap = s.receiver.wm.cap ∧ ∀ k, Follows s s' (Fresh s l) k := by
  cases l with
  | enqueue k body =>
    cases hstep
    refine ⟨rfl, fun k' => ?_⟩
    by_cases hne : k' = k
    · subst hne
      obtain ⟨hwin, hacked⟩ := (hwindowed k').enqueue body
      have hself : ∀ t : Link K B, (t.setSender k' ((s.sender k').enqueue body).2).sender k' =
          ((s.sender k').enqueue body).2 := fun t => update_self ..
      have henq : update s.enqueued k' (s.enqueued k' ++ [body]) k' = s.enqueued k' ++ [body] :=
        update_self ..
      refine ⟨?_, .other, ?_, fun _ => trivial, fun _ => by simp⟩
      · rw [hself]
        change Windowed _ _ (update s.enqueued k' _ k')
        rw [henq]
        exact hwin
      · have hflow : (({ s with enqueued := update s.enqueued k' (s.enqueued k' ++ [body]) } :
            Link K B).setSender k' ((s.sender k').enqueue body).2).flow k' =
              { s.flow k' with sent := (s.flow k').sent ++ [body] } := by
          unfold Link.flow
          rw [hself]
          simp only [Link.setSender, henq, hacked]
          rfl
        rw [hflow]
        exact .enqueue _ _
    · exact .other (hwindowed k') hne rfl (update_of_ne hne ..) rfl rfl (Or.inl rfl) rfl
  | pump k window =>
    cases hstep
    refine ⟨rfl, fun k' => ?_⟩
    by_cases hne : k' = k
    · subst hne
      have hstart : ((s.sender k').startPump window).sender = (s.sender k').sender ∧
          ((s.sender k').startPump window).next = (s.sender k').next ∧
            ((s.sender k').startPump window).pending = (s.sender k').pending ∧
              ((s.sender k').startPump window).deferredAck = (s.sender k').deferredAck := by
        unfold ReliableSender.startPump
        split
        · exact ⟨rfl, rfl, rfl, rfl⟩
        · exact ⟨rfl, rfl, rfl, rfl⟩
      obtain ⟨hsender, hnext, hpending, hdeferred⟩ := hstart
      have hself : (s.setSender k' ((s.sender k').startPump window)).sender k' = (s.sender k').startPump window :=
        update_self ..
      refine ⟨by rw [hself]; exact (hwindowed k').same hsender hnext hpending, .other, ?_, fun _ => trivial,
        fun _ => by simp⟩
      have hflow : (s.setSender k' ((s.sender k').startPump window)).flow k' = s.flow k' := by
        unfold Link.flow
        rw [hself, hdeferred]
        simp only [Link.setSender, acked, hpending]
      rw [hflow]
      exact .stay _
    · exact .other (hwindowed k') hne rfl rfl rfl rfl (Or.inl rfl) rfl
  | round k =>
    refine ⟨?_, fun k' => .round hwindowed hsafe hstep⟩
    simp only [Reliable.step, stepRound] at hstep
    split at hstep
    · cases hstep
    · split at hstep <;> (cases hstep; rfl)
  | unwind k =>
    simp only [Reliable.step] at hstep
    split at hstep
    · cases hstep
    · cases hstep
      refine ⟨rfl, fun k' => ?_⟩
      by_cases hne : k' = k
      · subst hne
        exact .leavePump (hwindowed k') (hsafe k') id
      · exact .other (hwindowed k') hne rfl rfl rfl rfl (Or.inl rfl) rfl
  | accept f body => exact Follows.accept hwindowed hstep
  | ackFor k =>
    cases hstep
    refine ⟨rfl, fun k' => ?_⟩
    by_cases hne : k' = k
    · subst hne
      refine ⟨hwindowed k', .other, ?_, fun _ => trivial, fun _ => by simp⟩
      have hflow : Link.flow { s with acks := s.acks ++ [(k', s.receiver.ackFor k')] } k' =
          { s.flow k' with acks := (s.flow k').acks ++ [(s.flow k').mark.getD 0] } := by
        simp [Link.flow, ReliableReceiver.ackFor]
      rw [hflow]
      exact .emit _
    · refine .stay (hwindowed k') rfl rfl ?_
      simp [Link.flow, Ne.symm hne]
  | onAck k cumulative =>
    simp only [Reliable.step] at hstep
    split at hstep
    · next hin =>
      cases hstep
      refine ⟨rfl, fun k' => ?_⟩
      by_cases hne : k' = k
      · subst hne
        have hack : cumulative ∈ (s.flow k').acks :=
          mem_map.mpr ⟨(k', cumulative), mem_filter.mpr ⟨hin, by simp⟩, rfl⟩
        unfold ReliableSender.onAck
        by_cases hpump : (s.sender k').inPump
        · rw [if_pos hpump]
          have hself : ∀ snd : ReliableSender K B, (s.setSender k' snd).sender k' = snd :=
            fun snd => update_self ..
          refine ⟨by rw [hself]; exact (hwindowed k').same rfl rfl rfl, .other, ?_, fun _ => trivial,
            fun _ => by simp⟩
          have hflow : (s.setSender k' { s.sender k' with
              deferredAck := max (s.sender k').deferredAck cumulative, hasDeferredAck := true }).flow k' =
                { s.flow k' with deferred := max (s.flow k').deferred cumulative } := by
            unfold Link.flow
            rw [hself]
            rfl
          rw [hflow]
          exact .defer _ hack
        · rw [if_neg hpump]
          exact .apply (hwindowed k') (hsafe k') (Or.inl hack) rfl rfl rfl rfl fun hf => hf (by simpa using hpump)
      · exact .other (hwindowed k') hne rfl rfl rfl rfl (Or.inl rfl) rfl
    · cases hstep

end

def ReliableSender.Dropped (snd : ReliableSender K B) (t : Nat) : Prop :=
  0 < t ∧ t < snd.next ∧ ∀ item ∈ snd.pending, item.seq ≠ t

/-- For each sender the bodies delivered are the first ones enqueued, in order and once, and what is dropped was
delivered. -/
structure DeliversPrefix (s : Link K B) : Prop where
  delivered : ∀ k, (s.delivered k).map Prod.snd <+: s.enqueued k
  dropped : ∀ k t, (s.sender k).Dropped t → ∃ b, (t, b) ∈ s.delivered k

/-- A body is delivered after all that precede it, each at least once, and what is dropped was delivered. -/
structure NoneSkipped (s : Link K B) : Prop where
  bodies : ∀ k t b, (t, b) ∈ s.delivered k → 0 < t ∧ (s.enqueued k)[t - 1]? = some b
  inOrder : ∀ k, Flow.InOrder (s.delivered k)
  dropped : ∀ k t, (s.sender k).Dropped t → ∃ b, (t, b) ∈ s.delivered k

/-- The receiver does not take the oldest unacked frame for a gap. -/
def Unstuck (s : Link K B) : Prop :=
  ∀ k item, (s.sender k).pending.head? = some item → (s.receiver.accept ⟨k, item.seq, item.seq⟩).1 ≠ .gap

def Inv (s : Link K B) : Prop := ∀ k, Windowed (s.sender k) k (s.enqueued k) ∧ (s.flow k).Safe

section

variable {s s' : Link K B} {cap : Nat}

theorem Inv.initial : Inv (start cap : Link K B) := by
  intro k
  refine ⟨⟨rfl, rfl, 0, Nat.zero_le _, rfl⟩, ?_⟩
  have hcap : (BoundedMap.setCap ({} : BoundedMap K Nat) cap).find k = none := by
    cases hfind : (BoundedMap.setCap ({} : BoundedMap K Nat) cap).find k with
    | none => rfl
    | some w => cases BoundedMap.find_trim hfind
  have hflow : (start cap : Link K B).flow k = {} := by
    simp only [Link.flow, start, ReliableReceiver.ofCap, hcap]
    rfl
  rw [hflow]
  exact .initial

theorem Inv.dropped (h : Inv s) {k : K} {t : Nat} (ht : (s.sender k).Dropped t) : ∃ b, (t, b) ∈ s.delivered k := by
  obtain ⟨hpos, hlt, hnot⟩ := ht
  exact (h k).2.acked t hpos ((h k).1.dropped hlt hnot)

theorem Inv.noneSkipped (h : Inv s) : NoneSkipped s :=
  ⟨fun k t b hin => (h k).2.bodies t b hin, fun k => (h k).2.inOrder, fun _ _ ht => h.dropped ht⟩

theorem Inv.unstuck (h : Inv s) (hlevel : ∀ k, (s.flow k).Level) : Unstuck s := by
  intro k item hitem
  have hseq := (h k).1.head hitem
  unfold ReliableReceiver.accept
  cases hfind : s.receiver.wm.find k with
  | none => simp
  | some w =>
    have hle : acked (s.sender k) (s.enqueued k) ≤ w := hlevel k w hfind
    by_cases hdup : item.seq ≤ w
    · simp [hdup]
    · have hnext : item.seq = w + 1 := by omega
      rw [hnext] at hdup ⊢
      simp [hdup]

variable [DecidableEq B]

theorem Inv.step {l : Label K B} (h : Inv s) (hstep : step s l = some s') :
    Inv s' ∧ s'.receiver.wm.cap = s.receiver.wm.cap ∧ ∀ k, Follows s s' (Fresh s l) k := by
  obtain ⟨hcap, hfollows⟩ := Follows.step (fun k => (h k).1) (fun k => (h k).2) hstep
  refine ⟨fun k => ?_, hcap, hfollows⟩
  obtain ⟨hwindowed, e, hflow, _⟩ := hfollows k
  exact ⟨hwindowed, (h k).2.step hflow⟩

theorem exact_of_reachable (hreach : Reachable step (start 0) s) :
    Inv s ∧ s.receiver.wm.cap = 0 ∧ ∀ k, (s.flow k).Exact := by
  refine Reachable.invariant (I := fun s : Link K B => Inv s ∧ s.receiver.wm.cap = 0 ∧ ∀ k, (s.flow k).Exact)
    hreach ⟨.initial, rfl, fun k => ⟨(Inv.initial k).2, rfl, rfl⟩⟩ ?_
  intro s l s' ⟨h, hcap, hexact⟩ hstep
  obtain ⟨h', hcap', hfollows⟩ := h.step hstep
  refine ⟨h', by rw [hcap', hcap], fun k => ?_⟩
  obtain ⟨_, e, hflow, _, hkeeps⟩ := hfollows k
  exact (hexact k).step (hkeeps hcap) hflow

theorem level_of_reach (hreach : Reach step Fresh (start cap) s) : Inv s ∧ ∀ k, (s.flow k).Level := by
  refine hreach.invariant (I := fun s : Link K B => Inv s ∧ ∀ k, (s.flow k).Level) ⟨.initial, fun k w hw => ?_⟩ ?_
  · change acked _ [] ≤ w
    exact Nat.zero_le _
  · intro s l s' ⟨h, hlevel⟩ hfresh hstep
    obtain ⟨h', _, hfollows⟩ := h.step hstep
    refine ⟨h', fun k => ?_⟩
    obtain ⟨_, e, hflow, hfair, _⟩ := hfollows k
    exact (hlevel k).step (hfair hfresh) hflow

theorem inv_of_reachable (hreach : Reachable step (start cap) s) : Inv s :=
  hreach.invariant .initial fun _ _ _ h hstep => (h.step hstep).1

end

theorem delivers_prefix [DecidableEq B] :
    ∀ s : Link K B, Reachable step (start 0) s → DeliversPrefix s := by
  intro s hreach
  obtain ⟨h, _, hexact⟩ := exact_of_reachable hreach
  exact ⟨fun k => (hexact k).bodies_isPrefix, fun _ _ ht => h.dropped ht⟩

/-- The sink enqueues a second body, and passes on the acknowledgement of the first. -/
theorem delivers_prefix_of_two : ∃ s : Link Bool Nat, s.delivered true = [(1, 7), (2, 8)] ∧
    (s.sender true).pending = [⟨2, 8⟩] ∧ DeliversPrefix s := by
  have hrun : (Machine.run step (start 0 : Link Bool Nat)
      [.enqueue true 7, .pump true 0, .round true, .enqueue true 8, .accept ⟨true, 1, 1⟩ 7, .ackFor true,
        .onAck true 1, .round true, .accept ⟨true, 2, 1⟩ 8, .accept ⟨true, 1, 1⟩ 7, .round true]).map
          (fun s => (s.delivered true, (s.sender true).pending)) = some ([(1, 7), (2, 8)], [⟨2, 8⟩]) := by
    decide +kernel
  obtain ⟨s, hs, hview⟩ := map_eq_some_iff.mp hrun
  simp only [Prod.mk.injEq] at hview
  obtain ⟨hdelivered, hpending⟩ := hview
  exact ⟨s, hdelivered, hpending, delivers_prefix s (reachable_of_run hs)⟩

/-- Nothing is skipped in any run, and nobody is stuck in a run whose steps all meet the condition. -/
theorem none_skipped_none_stuck [DecidableEq B] : ∀ (cap : Nat) (s : Link K B),
    (Reachable step (start cap) s → NoneSkipped s) ∧
      (Reach step Fresh (start cap) s → NoneSkipped s ∧ Unstuck s) := by
  intro cap s
  refine ⟨fun hreach => (inv_of_reachable hreach).noneSkipped, fun hreach => ?_⟩
  obtain ⟨h, hlevel⟩ := level_of_reach hreach
  exact ⟨h.noneSkipped, h.unstuck hlevel⟩

section

instance (s : Link K B) (k : K) (cumulative : Nat) : Decidable (s.Current k cumulative) :=
  decidable_of_iff (∀ w ∈ s.receiver.wm.find k, cumulative ≤ w) Iff.rfl

instance (s : Link K B) : (l : Label K B) → Decidable (Fresh s l)
  | .accept _ _ => inferInstanceAs (Decidable (_ → _ → _))
  | .onAck _ _ => inferInstanceAs (Decidable (_ → _))
  | .round _ => decidable_of_iff (_ = true → _) (by rw [isNone_iff_eq_none]; exact Iff.rfl)
  | .unwind _ => inferInstanceAs (Decidable (∀ _ ∈ _, _))
  | .enqueue _ _ | .pump _ _ | .ackFor _ => .isTrue trivial

/-- Two bodies of one sender are delivered and acknowledged, a third is enqueued, and the body of another sender
takes the only entry of the receiver. -/
def evicts : List (Label Bool Nat) :=
  [.enqueue true 7, .enqueue true 8, .pump true 0, .round true, .round true, .round true, .accept ⟨true, 1, 1⟩ 7,
    .accept ⟨true, 2, 1⟩ 8, .ackFor true, .onAck true 2, .enqueue true 9, .enqueue false 5, .pump false 0,
    .round false, .accept ⟨false, 1, 1⟩ 5]

/-- The third body is sent, and the receiver takes its sender up again. -/
theorem none_skipped_none_stuck_after_eviction : ∃ s : Link Bool Nat, s.receiver.wm.evictions = 2 ∧
    s.delivered true = [(1, 7), (2, 8), (3, 9)] ∧ (NoneSkipped s ∧ Unstuck s) ∧ NoneSkipped s := by
  have hrun : (Machine.run (guarded step Fresh) (start 1 : Link Bool Nat)
      (evicts ++ [.pump true 1, .round true, .accept ⟨true, 3, 3⟩ 9])).map
        (fun s => (s.receiver.wm.evictions, s.delivered true)) = some (2, [(1, 7), (2, 8), (3, 9)]) := by
    decide +kernel
  obtain ⟨s, hs, hview⟩ := map_eq_some_iff.mp hrun
  simp only [Prod.mk.injEq] at hview
  obtain ⟨hevictions, hdelivered⟩ := hview
  have hreach := reach_of_run hs
  exact ⟨s, hevictions, hdelivered, (none_skipped_none_stuck 1 s).2 hreach,
    (none_skipped_none_stuck 1 s).1 hreach.reachable⟩

/-- A copy of the first frame arrives late: the receiver takes its sender up behind what that has dropped. -/
theorem stuck_after_eviction : ¬ ∀ (cap : Nat) (s : Link Bool Nat),
    Reachable step (start cap) s → NoneSkipped s ∧ Unstuck s := by
  intro hall
  have hrun : (Machine.run step (start 1 : Link Bool Nat) (evicts ++ [.accept ⟨true, 1, 1⟩ 7])).map
      (fun s => ((s.sender true).pending.head?, (s.receiver.accept ⟨true, 3, 3⟩).1)) = some (some ⟨3, 9⟩, .gap) := by
    decide +kernel
  obtain ⟨s, hs, hview⟩ := map_eq_some_iff.mp hrun
  simp only [Prod.mk.injEq] at hview
  exact (hall 1 s (reachable_of_run hs)).2 true ⟨3, 9⟩ hview.1 hview.2

end

end Quark.Reliable
