import Mathlib.Data.List.Chain
import Mathlib.Logic.Function.Basic
import Mathlib.Data.List.Nodup

/-! The intrusive multi-producer single-consumer Vyukov queue, one shared access a step. A
producer exchanges the tail and then links its node; the consumer walks the links and puts the stub
back behind the last node it takes. -/
namespace Vyukov

open Function List Option

inductive Node (α : Type)
  | stub
  | item (a : α)
  deriving DecidableEq, Repr

def Node.toList {α : Type} : Node α → List α
  | .stub => []
  | .item a => [a]

/-- `pred n` is the local of the thread that has exchanged `n` in and not yet linked it: the node
whose link it is about to store. -/
structure Queue (α : Type) where
  head : Node α := .stub
  tail : Node α := .stub
  next : Node α → Option (Node α) := fun _ => none
  pred : Node α → Option (Node α) := fun _ => none

/-- Where the consumer is inside a call. Its local `front` is `head` throughout. -/
inductive Consumer
  | idle
  | first
  | stubTail
  /-- the stub was skipped: before the load of the new `front`'s link -/
  | second
  | checkTail
  /-- `front` is the last node: before the exchange that puts the stub behind it -/
  | rearm
  | rearmLink
  | reload
  deriving DecidableEq, Repr

def Consumer.rank : Consumer → Nat
  | .idle => 0
  | .reload | .stubTail => 1
  | .rearmLink => 2
  | .rearm => 3
  | .checkTail => 4
  | .second => 5
  | .first => 6

inductive Outcome (α : Type)
  | message (front : Node α)
  | empty
  | busy
  deriving DecidableEq, Repr

namespace Queue

variable {α : Type}

section

variable [DecidableEq α]

/-- Clear the node's link and exchange it into the tail. No other thread reads the link of a node
that is outside the queue, so the two stores are one step. -/
def exchange (q : Queue α) (n : Node α) : Queue α where
  head := q.head
  tail := n
  next := update q.next n none
  pred := update q.pred n (some q.tail)

def link (q : Queue α) (n : Node α) : Queue α :=
  match q.pred n with
  | none => q
  | some p => { q with next := update q.next p (some n), pred := update q.pred n none }

attribute [local simp] link

@[simp] theorem exchange_head (q : Queue α) (n : Node α) : (q.exchange n).head = q.head := rfl

@[simp] theorem exchange_tail (q : Queue α) (n : Node α) : (q.exchange n).tail = n := rfl

@[simp] theorem exchange_pred_self (q : Queue α) (n : Node α) : (q.exchange n).pred n = some q.tail :=
  update_self n _ _

theorem exchange_pred_ne (q : Queue α) {m n : Node α} (h : m ≠ n) : (q.exchange n).pred m = q.pred m :=
  update_of_ne h _ _

@[simp] theorem link_head (q : Queue α) (n : Node α) : (q.link n).head = q.head := by
  rw [link]
  cases q.pred n <;> rfl

@[simp] theorem link_tail (q : Queue α) (n : Node α) : (q.link n).tail = q.tail := by
  rw [link]
  cases q.pred n <;> rfl

@[simp] theorem link_pred_self (q : Queue α) (n : Node α) : (q.link n).pred n = none := by
  rw [link]
  cases hp : q.pred n with
  | none => exact hp
  | some p => exact update_self n _ _

theorem link_pred_ne (q : Queue α) {m n : Node α} (h : m ≠ n) : (q.link n).pred m = q.pred m := by
  rw [link]
  cases q.pred n with
  | none => rfl
  | some p => exact update_of_ne h _ _

def pop (q : Queue α) (n : Node α) : Queue α × Consumer × Option (Outcome α) :=
  ({ q with head := n }, .idle, some (.message q.head))

/-- One step of the consumer; a finished call reports its outcome. -/
def consume (q : Queue α) : Consumer → Queue α × Consumer × Option (Outcome α)
  | .idle => (q, .first, none)
  | .first =>
    match q.next q.head with
    | none => (q, if q.head = .stub then .stubTail else .checkTail, none)
    | some n => if q.head = .stub then ({ q with head := n }, .second, none) else q.pop n
  | .stubTail => (q, .idle, some (if q.tail = .stub then .empty else .busy))
  | .second =>
    match q.next q.head with
    | none => (q, .checkTail, none)
    | some n => q.pop n
  | .checkTail => if q.head ≠ q.tail then (q, .idle, some .busy) else (q, .rearm, none)
  | .rearm => (q.exchange .stub, .rearmLink, none)
  | .rearmLink => (q.link .stub, .reload, none)
  | .reload =>
    match q.next q.head with
    | none => (q, .idle, some .busy)
    | some n => q.pop n

end

/-- Two neighbours: linked, or still to be linked by the thread that pushed the second. -/
def Joined (q : Queue α) (a b : Node α) : Prop :=
  (q.next a = some b ∧ q.pred b = none) ∨ (q.next a = none ∧ q.pred b = some a)

/-- The nodes from the head to the tail, in order. -/
structure Chain (q : Queue α) (nodes : List (Node α)) : Prop where
  head : nodes.head? = some q.head
  last : nodes.getLast? = some q.tail
  nodup : nodes.Nodup
  joined : nodes.IsChain q.Joined
  ends : q.next q.tail = none
  pending : ∀ n, q.pred n ≠ none → n ∈ nodes.tail

/-- What each place in a call knows: whether `front` is the stub, and where the stub is. -/
def At (q : Queue α) (nodes : List (Node α)) : Consumer → Prop
  | .idle | .first => True
  | .stubTail => q.head = .stub
  | .second | .checkTail => q.head ≠ .stub
  | .reload => q.head ≠ .stub ∧ q.head ≠ q.tail
  | .rearm => q.head ≠ .stub ∧ Node.stub ∉ nodes
  | .rearmLink => q.head ≠ .stub ∧ q.pred .stub ≠ none

/-- The queue holds `items`, oldest first, and the consumer is at `c`. -/
structure Holds (q : Queue α) (c : Consumer) (items : List α) : Prop where
  chained : ∃ nodes, q.Chain nodes ∧ nodes.flatMap Node.toList = items ∧ q.At nodes c
  stub_pred : q.pred .stub ≠ none → c = .rearmLink

theorem exists_before {β : Type} {n : β} {nodes : List β} (h : n ∈ nodes.tail) :
    ∃ l a r, nodes = l ++ a :: n :: r := by
  cases nodes with
  | nil => cases h
  | cons x rest =>
    obtain ⟨l, r, hsplit⟩ := append_of_mem h
    rw [tail_cons] at hsplit
    rcases eq_nil_or_concat l with hl | ⟨l', a, hl⟩
    · exact ⟨[], x, r, by rw [hsplit, hl]; rfl⟩
    · exact ⟨x :: l', a, r, by rw [hsplit, hl]; simp⟩

section

variable {q : Queue α} {nodes : List (Node α)} {n : Node α}

theorem Chain.tail_mem (h : q.Chain nodes) : q.tail ∈ nodes := mem_of_getLast? h.last

theorem Chain.head_mem (h : q.Chain nodes) : q.head ∈ nodes := mem_of_mem_head? h.head

/-- If the head is linked, the next node is the second of the chain, and it has no pending link. -/
theorem Chain.next_head (h : q.Chain nodes) (hn : q.next q.head = some n) :
    ∃ rest, nodes = q.head :: n :: rest ∧ ({ q with head := n } : Queue α).Chain (n :: rest) := by
  have hhead := h.head
  cases nodes with
  | nil => cases hhead
  | cons x rest =>
    cases hhead
    cases rest with
    | nil =>
      have hlast := h.last
      have hends := h.ends
      have hsame : q.head = q.tail := some.inj hlast
      rw [← hsame, hn] at hends
      cases hends
    | cons y rest =>
      obtain ⟨hxy, hrest⟩ := isChain_cons_cons.mp h.joined
      rcases hxy with ⟨hsome, hnone⟩ | ⟨hnone, _⟩
      · rw [hn] at hsome
        cases hsome
        refine ⟨rest, rfl, ?_⟩
        constructor
        · rfl
        · exact h.last
        · exact h.nodup.of_cons
        · exact hrest
        · exact h.ends
        · intro m hm
          rcases mem_cons.mp (h.pending m hm) with rfl | hmem
          · exact absurd hnone hm
          · exact hmem
      · rw [hn] at hnone
        cases hnone

theorem Chain.eq_singleton (h : q.Chain nodes) (heq : q.head = q.tail) : nodes = [q.head] := by
  have hhead := h.head
  have hlast := h.last
  cases nodes with
  | nil => cases hhead
  | cons x rest =>
    cases hhead
    cases rest with
    | nil => rfl
    | cons y rest =>
      rw [getLast?_cons_cons, ← heq] at hlast
      exact absurd (mem_of_getLast? hlast) (nodup_cons.mp h.nodup).1

variable [DecidableEq α]

/-- A push puts the node behind the last one. -/
theorem Chain.exchange (h : q.Chain nodes) (hn : n ∉ nodes) : (q.exchange n).Chain (nodes ++ [n]) := by
  have hkept : ∀ m ∈ nodes, (q.exchange n).next m = q.next m ∧ (q.exchange n).pred m = q.pred m := by
    intro m hm
    have hne : m ≠ n := fun heq => hn (heq ▸ hm)
    exact ⟨update_of_ne hne _ _, update_of_ne hne _ _⟩
  have hne : nodes ≠ [] := ne_nil_of_mem h.head_mem
  constructor
  · rw [head?_append_of_ne_nil _ hne]
    exact h.head
  · rw [getLast?_concat]
    rfl
  · exact List.Nodup.append h.nodup (nodup_singleton n) (by simpa using hn)
  · refine List.IsChain.append ?_ (isChain_singleton n) ?_
    · refine h.joined.imp_of_mem_imp fun a b ha hb hab => ?_
      rw [Joined, (hkept a ha).1, (hkept b hb).2]
      exact hab
    · intro a ha b hb
      rw [h.last] at ha
      cases ha
      cases hb
      refine Or.inr ⟨?_, update_self n _ _⟩
      rw [(hkept q.tail h.tail_mem).1]
      exact h.ends
  · exact update_self n _ _
  · intro m hm
    rw [tail_append_of_ne_nil hne]
    by_cases heq : m = n
    · exact mem_append_right _ (by simp [heq])
    · simp only [Queue.exchange, update_of_ne heq] at hm
      exact mem_append_left _ (h.pending m hm)

theorem Chain.link (h : q.Chain nodes) (n : Node α) : (q.link n).Chain nodes := by
  cases hp : q.pred n with
  | none =>
    rw [Queue.link, hp]
    exact h
  | some p =>
    have hlink : q.link n =
        { q with next := update q.next p (some n), pred := update q.pred n none } := by
      rw [Queue.link, hp]
    obtain ⟨l, a, r, hsplit⟩ := exists_before (h.pending n (by rw [hp]; simp))
    have hjoined := h.joined
    have hnodup := h.nodup
    rw [hsplit] at hjoined hnodup
    obtain ⟨hleft, hmid, hright⟩ := isChain_append_cons_cons.mp hjoined
    have hap : a = p := by
      rcases hmid with ⟨_, hnone⟩ | ⟨_, hsome⟩
      · rw [hp] at hnone
        cases hnone
      · exact some.inj (hsome.symm.trans hp)
    subst hap
    have hl : a ∉ l ∧ n ∉ l ∧ a ≠ n ∧ a ∉ r ∧ n ∉ r := by
      simp only [nodup_append, nodup_cons, mem_cons, not_or] at hnodup
      refine ⟨fun ha => ?_, fun hn => ?_, hnodup.2.1.1.1, hnodup.2.1.1.2, hnodup.2.1.2.1⟩
      · exact hnodup.2.2 a ha a (Or.inl rfl) rfl
      · exact hnodup.2.2 n hn n (Or.inr (Or.inl rfl)) rfl
    have hkept : ∀ x y, x ≠ a → y ≠ n → q.Joined x y → (q.link n).Joined x y := by
      intro x y hx hy hxy
      rw [hlink, Joined]
      simp only [update_of_ne hx, update_of_ne hy]
      exact hxy
    have htail : q.tail ∈ n :: r := by
      have hlast := h.last
      rw [hsplit, getLast?_append_of_ne_nil _ (by simp), getLast?_cons_cons] at hlast
      exact mem_of_getLast? hlast
    constructor
    · rw [hlink]
      exact h.head
    · rw [hlink]
      exact h.last
    · exact h.nodup
    · rw [hsplit]
      refine isChain_append_cons_cons.mpr ⟨?_, ?_, ?_⟩
      · refine isChain_append.mpr ⟨?_, isChain_singleton a, ?_⟩
        · refine (isChain_append.mp hleft).1.imp_of_mem_imp fun x y hx hy hxy => ?_
          exact hkept x y (fun he => hl.1 (he ▸ hx)) (fun he => hl.2.1 (he ▸ hy)) hxy
        · intro x hx y hy
          cases hy
          exact hkept x a (fun he => hl.1 (he ▸ mem_of_getLast? hx)) hl.2.2.1
            ((isChain_append.mp hleft).2.2 x hx a rfl)
      · rw [hlink]
        exact Or.inl ⟨update_self a _ _, update_self n _ _⟩
      · refine hright.imp_of_mem_tail_imp fun x y hx hy hxy => ?_
        refine hkept x y (fun he => ?_) (fun he => hl.2.2.2.2 (he ▸ hy)) hxy
        rcases mem_cons.mp hx with hx | hx
        · exact hl.2.2.1 (he.symm.trans hx)
        · exact hl.2.2.2.1 (he ▸ hx)
    · rw [hlink]
      refine (update_of_ne (fun he => ?_) _ _).trans h.ends
      rw [he] at htail
      rcases mem_cons.mp htail with ht | ht
      · exact hl.2.2.1 ht
      · exact hl.2.2.2.1 ht
    · intro m hm
      rw [hlink] at hm
      by_cases heq : m = n
      · exact absurd (by rw [heq]; exact update_self n _ _) hm
      · simp only [update_of_ne heq] at hm
        exact h.pending m hm

end

section

variable {q : Queue α} {c : Consumer} {items : List α}

theorem Holds.initial : ({} : Queue α).Holds .idle [] := by
  refine ⟨⟨[.stub], ?_, rfl, trivial⟩, fun h => absurd rfl h⟩
  exact ⟨rfl, rfl, nodup_singleton _, isChain_singleton _, rfl, fun n h => absurd rfl h⟩

theorem Holds.stub_linked (h : q.Holds c items) (hc : c ≠ .rearmLink) : q.pred .stub = none := by
  by_contra hp
  exact hc (h.stub_pred hp)

/-- The call ends or goes on without touching the queue. -/
theorem Holds.goto {c' : Consumer} (h : q.Holds c items) (hc : c ≠ .rearmLink)
    (hat : ∀ nodes, q.Chain nodes → q.At nodes c') : q.Holds c' items := by
  obtain ⟨nodes, hchain, hitems, _⟩ := h.chained
  exact ⟨⟨nodes, hchain, hitems, hat nodes hchain⟩, fun hp => absurd (h.stub_linked hc) hp⟩

/-- What a step of the consumer can do: go on, return the oldest item, find the queue empty, or meet a
producer half-way through its push. -/
inductive Consumed (q : Queue α) (items : List α) : Queue α × Consumer × Option (Outcome α) → Prop
  | going {q' : Queue α} {c' : Consumer} (h : q'.Holds c' items) : Consumed q items (q', c', none)
  | message {q' : Queue α} {a : α} {rest : List α} (hitems : items = a :: rest) (h : q'.Holds .idle rest) :
      Consumed q items (q', .idle, some (.message (.item a)))
  | empty (hitems : items = []) (htail : q.tail = .stub) (h : q.Holds .idle items) :
      Consumed q items (q, .idle, some .empty)
  | busy (h : q.Holds .idle items) : Consumed q items (q, .idle, some .busy)

theorem Holds.nodup (h : q.Holds c items) : items.Nodup := by
  obtain ⟨nodes, hchain, hitems, _⟩ := h.chained
  rw [← hitems]
  refine nodup_flatMap.mpr ⟨fun n _ => ?_, ?_⟩
  · cases n with
    | stub => exact nodup_nil
    | item a => exact nodup_singleton a
  · refine hchain.nodup.imp fun {m n} hne => ?_
    intro a hm hn
    cases m with
    | stub => cases hm
    | item b =>
      cases n with
      | stub => cases hn
      | item c =>
        rw [Node.toList, mem_singleton] at hm hn
        exact hne (by rw [← hm, ← hn])

theorem Holds.pop {n : Node α} (h : q.Holds c items) (hc : c ≠ .rearmLink) (hhead : q.head ≠ .stub)
    (hn : q.next q.head = some n) : Consumed q items (q.pop n) := by
  obtain ⟨nodes, hchain, hitems, _⟩ := h.chained
  obtain ⟨rest, rfl, hrest⟩ := hchain.next_head hn
  cases hfront : q.head with
  | stub => exact absurd hfront hhead
  | item a =>
    rw [Queue.pop, hfront]
    rw [hfront, flatMap_cons] at hitems
    exact .message hitems.symm ⟨⟨n :: rest, hrest, rfl, trivial⟩, fun hp => absurd (h.stub_linked hc) hp⟩

theorem Holds.skip {n : Node α} (h : q.Holds c items) (hc : c ≠ .rearmLink) (hhead : q.head = .stub)
    (hn : q.next q.head = some n) : ({ q with head := n } : Queue α).Holds .second items := by
  obtain ⟨nodes, hchain, hitems, _⟩ := h.chained
  obtain ⟨rest, rfl, hrest⟩ := hchain.next_head hn
  rw [hhead, flatMap_cons] at hitems
  refine ⟨⟨n :: rest, hrest, hitems, fun hstub => ?_⟩, fun hp => absurd (h.stub_linked hc) hp⟩
  have hnodup := hchain.nodup
  rw [hhead, show n = Node.stub from hstub] at hnodup
  exact (nodup_cons.mp hnodup).1 mem_cons_self

/-- No producer is between its exchange and its link. -/
def Quiet (q : Queue α) : Prop := ∀ a, q.pred (.item a) = none

/-- With every push finished, a head that is not the tail is linked to its successor. -/
theorem Holds.head_linked (h : q.Holds c items) (hc : c ≠ .rearmLink) (hquiet : Quiet q)
    (hne : q.head ≠ q.tail) : ∃ n, q.next q.head = some n := by
  obtain ⟨nodes, hchain, _, _⟩ := h.chained
  have hhead := hchain.head
  have hlast := hchain.last
  cases nodes with
  | nil => cases hhead
  | cons x rest =>
    cases hhead
    cases rest with
    | nil => exact absurd (some.inj hlast) hne
    | cons y rest =>
      rcases (isChain_cons_cons.mp hchain.joined).1 with ⟨hnext, _⟩ | ⟨_, hpred⟩
      · exact ⟨y, hnext⟩
      · cases y with
        | stub => rw [h.stub_linked hc] at hpred; cases hpred
        | item a => rw [hquiet a] at hpred; cases hpred

variable [DecidableEq α]

attribute [local simp] Queue.consume At

/-- A producer's exchange appends its node to what the queue holds. -/
theorem Holds.exchange {a : α} (h : q.Holds c items) (ha : a ∉ items) :
    (q.exchange (.item a)).Holds c (items ++ [a]) := by
  obtain ⟨nodes, hchain, hitems, hat⟩ := h.chained
  have hn : Node.item a ∉ nodes := by
    intro hmem
    refine ha ?_
    rw [← hitems]
    exact mem_flatMap.mpr ⟨.item a, hmem, mem_singleton.mpr rfl⟩
  have hstub : (q.exchange (.item a)).pred .stub = q.pred .stub := q.exchange_pred_ne (by simp)
  refine ⟨⟨nodes ++ [.item a], hchain.exchange hn, ?_, ?_⟩, ?_⟩
  · rw [flatMap_append, hitems]
    rfl
  · cases c with
    | idle | first => trivial
    | stubTail | second | checkTail => exact hat
    | rearm => exact ⟨hat.1, by simpa using hat.2⟩
    | rearmLink => exact ⟨hat.1, by rw [hstub]; exact hat.2⟩
    | reload =>
      refine ⟨hat.1, fun heq => hn ?_⟩
      rw [exchange_head, exchange_tail] at heq
      exact heq ▸ hchain.head_mem
  · rw [hstub]
    exact h.stub_pred

/-- A producer's link changes nothing that the queue holds. -/
theorem Holds.link (h : q.Holds c items) (a : α) : (q.link (.item a)).Holds c items := by
  obtain ⟨nodes, hchain, hitems, hat⟩ := h.chained
  have hstub : (q.link (.item a)).pred .stub = q.pred .stub := q.link_pred_ne (by simp)
  refine ⟨⟨nodes, hchain.link _, hitems, ?_⟩, ?_⟩
  · cases c with
    | idle | first => trivial
    | stubTail | second | checkTail | rearm | rearmLink | reload =>
      simp only [At, link_head, link_tail, hstub] at hat ⊢
      exact hat
  · rw [hstub]
    exact h.stub_pred

/-- The consumer's exchange puts the stub behind everything the queue holds. -/
theorem Holds.rearm (h : q.Holds .rearm items) : (q.exchange .stub).Holds .rearmLink items := by
  obtain ⟨nodes, hchain, hitems, hhead, hstub⟩ := h.chained
  refine ⟨⟨nodes ++ [.stub], hchain.exchange hstub, ?_, hhead, ?_⟩, fun _ => rfl⟩
  · rw [flatMap_append, hitems]
    exact append_nil items
  · rw [exchange_pred_self]
    exact some_ne_none _

theorem Holds.rearmLink (h : q.Holds .rearmLink items) : (q.link .stub).Holds .reload items := by
  obtain ⟨nodes, hchain, hitems, hhead, hpred⟩ := h.chained
  refine ⟨⟨nodes, hchain.link _, hitems, ?_⟩, fun hnot => absurd (q.link_pred_self _) hnot⟩
  rw [At, link_head, link_tail]
  refine ⟨hhead, fun heq => ?_⟩
  have hmem := hchain.pending .stub hpred
  rw [hchain.eq_singleton heq] at hmem
  cases hmem

/-- Every step of the consumer does one of these four things. -/
theorem Holds.consume (h : q.Holds c items) : Consumed q items (q.consume c) := by
  cases c with
  | idle => exact .going (h.goto (by simp) fun _ _ => trivial)
  | first =>
    simp only [Queue.consume]
    cases hn : q.next q.head with
    | none =>
      by_cases hhead : q.head = .stub
      · rw [if_pos hhead]
        exact .going (h.goto (by simp) fun _ _ => hhead)
      · rw [if_neg hhead]
        exact .going (h.goto (by simp) fun _ _ => hhead)
    | some n =>
      by_cases hhead : q.head = .stub
      · simp only [if_pos hhead]
        exact .going (h.skip (by simp) hhead hn)
      · simp only [if_neg hhead]
        exact h.pop (by simp) hhead hn
  | stubTail =>
    have hidle : q.Holds .idle items := h.goto (by simp) fun _ _ => trivial
    simp only [Queue.consume]
    by_cases htail : q.tail = .stub
    · rw [if_pos htail]
      obtain ⟨nodes, hchain, hitems, hhead⟩ := h.chained
      have hone := hchain.eq_singleton (hhead.trans htail.symm)
      rw [hone, show q.head = Node.stub from hhead] at hitems
      exact .empty hitems.symm htail hidle
    · rw [if_neg htail]
      exact .busy hidle
  | second =>
    obtain ⟨nodes, hchain, hitems, hhead⟩ := h.chained
    simp only [Queue.consume]
    cases hn : q.next q.head with
    | none => exact .going (h.goto (by simp) fun _ _ => hhead)
    | some n => exact h.pop (by simp) hhead hn
  | checkTail =>
    obtain ⟨nodes, hchain, hitems, hhead⟩ := h.chained
    simp only [Queue.consume]
    by_cases htail : q.head = q.tail
    · rw [if_neg (not_not.mpr htail)]
      refine .going (h.goto (by simp) fun nodes hchain => ⟨hhead, ?_⟩)
      rw [hchain.eq_singleton htail, mem_singleton]
      exact fun heq => hhead heq.symm
    · rw [if_pos htail]
      exact .busy (h.goto (by simp) fun _ _ => trivial)
  | rearm => exact .going h.rearm
  | rearmLink => exact .going h.rearmLink
  | reload =>
    obtain ⟨nodes, hchain, hitems, hhead, _⟩ := h.chained
    simp only [Queue.consume]
    cases hn : q.next q.head with
    | none => exact .busy (h.goto (by simp) fun _ _ => trivial)
    | some n => exact h.pop (by simp) hhead hn

end

section

variable [DecidableEq α] {q : Queue α} {c : Consumer} {items : List α}

def returned : Option (Outcome α) → List (Node α)
  | some (.message n) => [n]
  | _ => []

/-- The consumer alone for `n` steps, call after call, and the nodes its calls return. -/
def serve : Nat → Queue α → Consumer → Queue α × Consumer × List (Node α)
  | 0, q, c => (q, c, [])
  | n+1, q, c =>
    let r := q.consume c
    let s := serve n r.1 r.2.1
    (s.1, s.2.1, returned r.2.2 ++ s.2.2)

/-- Alone, the consumer returns exactly `items` in finitely many steps and is between calls then. -/
def Serves (q : Queue α) (c : Consumer) (items : List α) : Prop :=
  ∃ n q', serve n q c = (q', .idle, items.map .item)

attribute [local simp] Queue.pop Queue.consume returned serve

theorem Serves.going {q' : Queue α} {c' : Consumer} (hstep : q.consume c = (q', c', none))
    (h : Serves q' c' items) : Serves q c items := by
  obtain ⟨n, last, hn⟩ := h
  exact ⟨n + 1, last, by rw [serve, hstep]; simp only [hn, returned, nil_append]⟩

theorem Serves.busy {out : Outcome α} (hout : returned (some out) = [])
    (hstep : q.consume c = (q, .idle, some out)) (h : Serves q .idle items) : Serves q c items := by
  obtain ⟨n, last, hn⟩ := h
  exact ⟨n + 1, last, by rw [serve, hstep]; simp only [hn, hout, nil_append]⟩

theorem Serves.message {q' : Queue α} {a : α} (hstep : q.consume c = (q', .idle, some (.message (.item a))))
    (h : Serves q' .idle items) : Serves q c (a :: items) := by
  obtain ⟨n, last, hn⟩ := h
  refine ⟨n + 1, last, ?_⟩
  rw [serve, hstep]
  simp only [hn, returned, map_cons, singleton_append]

theorem Quiet.consume (h : Quiet q) (c : Consumer) : Quiet (q.consume c).1 := by
  have hlink : Quiet (q.link .stub) := fun a => by rw [q.link_pred_ne (by simp)]; exact h a
  have hexchange : Quiet (q.exchange .stub) := fun a => by rw [q.exchange_pred_ne (by simp)]; exact h a
  cases c with
  | idle | stubTail => exact h
  | first =>
    simp only [Queue.consume]
    cases q.next q.head with
    | none => exact h
    | some n =>
      simp only
      split <;> exact h
  | second | reload =>
    simp only [Queue.consume]
    cases q.next q.head with
    | none => exact h
    | some n => exact h
  | checkTail =>
    simp only [Queue.consume]
    split <;> exact h
  | rearm => exact hexchange
  | rearmLink => exact hlink

section

variable (hnext : ∀ a rest, items = a :: rest → ∀ q' : Queue α, q'.Holds .idle rest → Quiet q' → Serves q' .idle rest)

include hnext

theorem Holds.pop_serves {n : Node α} (h : q.Holds c items) (hc : c ≠ .rearmLink) (hquiet : Quiet q)
    (hhead : q.head ≠ .stub) (hn : q.next q.head = some n) (hstep : q.consume c = q.pop n) :
    Serves q c items := by
  have hpop := h.pop hc hhead hn
  have hafter := hquiet.consume c
  rw [← hstep] at hpop
  generalize hr : q.consume c = r at hpop hafter
  cases hpop with
  | message hitems hholds =>
    rw [hitems]
    exact Serves.message hr (hnext _ _ hitems _ hholds hafter)
  | going _ | empty _ _ _ | busy _ =>
    rw [hr] at hstep
    simp [Queue.pop] at hstep

theorem Holds.reload_serves (h : q.Holds .reload items) (hquiet : Quiet q) : Serves q .reload items := by
  obtain ⟨_, _, _, hhead, hne⟩ := h.chained
  obtain ⟨n, hn⟩ := h.head_linked (by simp) hquiet hne
  exact h.pop_serves hnext (by simp) hquiet hhead hn (by simp only [Queue.consume, hn])

theorem Holds.checkTail_serves (h : q.Holds .checkTail items) (hquiet : Quiet q)
    (hnone : q.next q.head = none) : Serves q .checkTail items := by
  have htail : q.head = q.tail := by
    by_contra hne
    obtain ⟨n, hn⟩ := h.head_linked (by simp) hquiet hne
    rw [hnone] at hn
    cases hn
  have hrearm : q.consume .checkTail = (q, .rearm, none) := by
    rw [Queue.consume, if_neg (not_not.mpr htail)]
  have hspec := h.consume
  rw [hrearm] at hspec
  cases hspec with
  | going hholds =>
    refine .going hrearm (.going rfl (.going rfl ?_))
    exact hholds.rearm.rearmLink.reload_serves hnext ((hquiet.consume .rearm).consume .rearmLink)

theorem Holds.second_serves (h : q.Holds .second items) (hquiet : Quiet q) : Serves q .second items := by
  obtain ⟨_, _, _, hhead⟩ := h.chained
  cases hn : q.next q.head with
  | some n => exact h.pop_serves hnext (by simp) hquiet hhead hn (by simp only [Queue.consume, hn])
  | none =>
    have hstep : q.consume .second = (q, .checkTail, none) := by simp only [Queue.consume, hn]
    have hcheck : q.Holds .checkTail items := h.goto (by simp) fun _ _ => hhead
    exact .going hstep (hcheck.checkTail_serves hnext hquiet hn)

theorem Holds.first_serves {a : α} {rest : List α} (h : q.Holds .first items) (hitems : items = a :: rest)
    (hquiet : Quiet q) : Serves q .first items := by
  by_cases hhead : q.head = .stub
  · have hne : q.head ≠ q.tail := by
      intro htail
      obtain ⟨nodes, hchain, hnodes, _⟩ := h.chained
      rw [hchain.eq_singleton htail, hhead, hitems] at hnodes
      cases hnodes
    obtain ⟨n, hn⟩ := h.head_linked (by simp) hquiet hne
    have hstep : q.consume .first = ({ q with head := n }, .second, none) := by
      simp only [Queue.consume, hn, if_pos hhead]
    exact .going hstep ((h.skip (by simp) hhead hn).second_serves hnext hquiet)
  · cases hn : q.next q.head with
    | some n => exact h.pop_serves hnext (by simp) hquiet hhead hn (by simp only [Queue.consume, hn, if_neg hhead])
    | none =>
      have hstep : q.consume .first = (q, .checkTail, none) := by
        simp only [Queue.consume, hn, if_neg hhead]
      have hcheck : q.Holds .checkTail items := h.goto (by simp) fun _ _ => hhead
      exact .going hstep (hcheck.checkTail_serves hnext hquiet hn)

end

/-- Between calls, with every push finished, the next calls return what the queue holds, in order. -/
theorem Holds.idle_serves (h : q.Holds .idle items) (hquiet : Quiet q) : Serves q .idle items := by
  induction items generalizing q with
  | nil => exact ⟨0, q, rfl⟩
  | cons a rest ih =>
    have hfirst : q.Holds .first (a :: rest) := h.goto (by simp) fun _ _ => trivial
    refine .going rfl (hfirst.first_serves ?_ rfl hquiet)
    intro b rest' heq q' hholds hq'
    cases heq
    exact ih hholds hq'

/-- A call that goes on gets nearer to its end. -/
theorem consume_rank {q' : Queue α} {c' : Consumer} (hc : c ≠ .idle) (h : q.consume c = (q', c', none)) :
    c' ≠ .idle ∧ c'.rank < c.rank := by
  cases c with
  | idle => exact absurd rfl hc
  | first =>
    simp only [Queue.consume, Queue.pop] at h
    split at h
    · cases h
      split <;> simp [Consumer.rank]
    · split at h <;> cases h
      simp [Consumer.rank]
  | stubTail => cases h
  | second =>
    simp only [Queue.consume, Queue.pop] at h
    split at h <;> cases h
    simp [Consumer.rank]
  | checkTail =>
    simp only [Queue.consume] at h
    split at h <;> cases h
    simp [Consumer.rank]
  | rearm | rearmLink =>
    cases h
    simp [Consumer.rank]
  | reload =>
    simp only [Queue.consume, Queue.pop] at h
    split at h <;> cases h

/-- The same from the middle of a call, which may first end without a node. -/
theorem Holds.serves (h : q.Holds c items) (hquiet : Quiet q) : Serves q c items := by
  by_cases hc : c = .idle
  · subst hc
    exact h.idle_serves hquiet
  · induction hrank : c.rank using Nat.strong_induction_on generalizing q c with
    | _ rank ih =>
      have hspec := h.consume
      have hafter := hquiet.consume c
      generalize hr : q.consume c = r at hspec hafter
      cases hspec with
      | going hholds =>
        obtain ⟨hc', hlt⟩ := consume_rank hc hr
        rw [hrank] at hlt
        exact .going hr (ih _ hlt hholds hafter hc' rfl)
      | message hitems hholds =>
        rw [hitems]
        exact .message hr (hholds.idle_serves hafter)
      | empty _ _ hholds => exact .busy rfl hr (hholds.idle_serves hquiet)
      | busy hholds => exact .busy rfl hr (hholds.idle_serves hquiet)

end

end Queue

end Vyukov
