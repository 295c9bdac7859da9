import Quark.Lib.Vyukov

/-! The Vyukov queue with one thread: a call runs to its end before the next one begins. -/
namespace Vyukov.Queue

open List Option Node

variable {α : Type}

section

variable [DecidableEq α]

def push (q : Queue α) (a : α) : Queue α := (q.exchange (.item a)).link (.item a)

/-- The end of a call, from the first load of the link of a `front` that is no stub. -/
def takeFront (q : Queue α) : Queue α × Outcome α :=
  match q.next q.head with
  | some n => ({ q with head := n }, .message q.head)
  | none =>
    if q.head ≠ q.tail then (q, .busy)
    else
      let q := (q.exchange .stub).link .stub
      match q.next q.head with
      | some n => ({ q with head := n }, .message q.head)
      | none => (q, .busy)

def take (q : Queue α) : Queue α × Outcome α :=
  if q.head = .stub then
    match q.next q.head with
    | none => (q, if q.tail = .stub then .empty else .busy)
    | some n => takeFront { q with head := n }
  else takeFront q

end

/-- The queue holds `items`, oldest first, nothing is half-done, and a stub is only ever at the head. -/
structure Rests (q : Queue α) (items : List α) : Prop where
  chained : ∃ nodes, q.Chain nodes ∧ nodes.flatMap Node.toList = items ∧ .stub ∉ nodes.tail
  linked : ∀ n, q.pred n = none

variable {q : Queue α} {items : List α} {a : α}

theorem Rests.initial : ({} : Queue α).Rests [] := by
  obtain ⟨nodes, hchain, hitems, _⟩ := (Holds.initial : ({} : Queue α).Holds .idle []).chained
  cases hchain.eq_singleton rfl
  exact ⟨⟨_, hchain, hitems, not_mem_nil⟩, fun _ => rfl⟩

theorem mem_items {nodes : List (Node α)} : a ∈ nodes.flatMap Node.toList ↔ .item a ∈ nodes := by
  rw [mem_flatMap]
  constructor
  · rintro ⟨n, hn, ha⟩
    cases n with
    | stub => cases ha
    | item b =>
      rw [Node.toList, mem_singleton] at ha
      exact ha ▸ hn
  · exact fun h => ⟨_, h, mem_singleton.mpr rfl⟩

theorem Chain.next_second {n m : Node α} {rest : List (Node α)} (h : q.Chain (n :: m :: rest))
    (hlinked : ∀ n, q.pred n = none) : q.next n = some m := by
  obtain ⟨hnext, _⟩ | ⟨_, hpred⟩ := (isChain_cons_cons.mp h.joined).1
  · exact hnext
  · rw [hlinked] at hpred
    cases hpred

theorem Chain.step {n m : Node α} {rest : List (Node α)} (h : q.Chain (n :: m :: rest))
    (hlinked : ∀ n, q.pred n = none) : q.head = n ∧ q.next q.head = some m ∧ ({ q with head := m } : Queue α).Chain
    (m :: rest) := by
  have hhead : q.head = n := (some.inj h.head).symm
  have hnext : q.next q.head = some m := by rw [hhead, h.next_second hlinked]
  obtain ⟨rest', heq, hrest⟩ := h.next_head hnext
  cases heq
  exact ⟨hhead, hnext, hrest⟩

section

variable [DecidableEq α]

theorem link_linked {n : Node α} (h : ∀ m, m ≠ n → q.pred m = none) : ∀ m, (q.link n).pred m = none := by
  intro m
  by_cases hm : m = n
  · rw [hm, link_pred_self]
  · rw [link_pred_ne q hm, h m hm]

theorem Rests.push (h : q.Rests items) (ha : a ∉ items) : (q.push a).Rests (items ++ [a]) := by
  obtain ⟨nodes, hchain, rfl, hstub⟩ := h.chained
  have hnew : item a ∉ nodes := fun hmem => ha (mem_items.mpr hmem)
  refine ⟨⟨nodes ++ [item a], (hchain.exchange hnew).link (.item a), ?_, ?_⟩, ?_⟩
  · rw [flatMap_append]
    rfl
  · rw [tail_append_of_ne_nil (ne_nil_of_mem hchain.head_mem), mem_append, not_or]
    exact ⟨hstub, by simp⟩
  · exact link_linked fun m hm => (q.exchange_pred_ne hm).trans (h.linked m)

theorem Chain.takeFront {rest : List (Node α)} (h : q.Chain (.item a :: rest)) (hlinked : ∀ n, q.pred n = none)
    (hstub : .stub ∉ rest) : q.takeFront.2 = .message (.item a) ∧ q.takeFront.1.Rests (rest.flatMap Node.toList) := by
  cases rest with
  | cons n rest =>
    obtain ⟨hhead, hnext, hrest⟩ := h.step hlinked
    simp only [Queue.takeFront, hnext]
    exact ⟨congrArg Outcome.message hhead, ⟨⟨_, hrest, rfl, fun hmem => hstub (mem_cons_of_mem _ hmem)⟩, hlinked⟩⟩
  | nil =>
    have hhead : q.head = .item a := (some.inj h.head).symm
    have htail : q.tail = .item a := (some.inj h.last).symm
    have hnext : q.next q.head = none := by
      rw [hhead, ← htail]
      exact h.ends
    have hrearmed : ((q.exchange .stub).link .stub).Chain [.item a, .stub] := (h.exchange (by simp)).link .stub
    have hlinked' : ∀ n, ((q.exchange .stub).link .stub).pred n = none :=
      link_linked fun m hm => (q.exchange_pred_ne hm).trans (hlinked m)
    obtain ⟨hhead', hnext', hrest⟩ := hrearmed.step hlinked'
    simp only [Queue.takeFront, hnext, if_neg (not_not.mpr (hhead.trans htail.symm)), hnext']
    exact ⟨congrArg Outcome.message hhead', ⟨⟨_, hrest, rfl, not_mem_nil⟩, hlinked'⟩⟩

theorem Rests.take_cons (h : q.Rests (a :: items)) : q.take.2 = .message (.item a) ∧ q.take.1.Rests items := by
  obtain ⟨nodes, hchain, hitems, hstub⟩ := h.chained
  cases nodes with
  | nil => cases hitems
  | cons front rest =>
    have hhead : q.head = front := (some.inj hchain.head).symm
    cases front with
    | item b =>
      cases hitems
      rw [Queue.take, if_neg (by rw [hhead]; simp)]
      exact hchain.takeFront h.linked hstub
    | stub =>
      cases rest with
      | nil => cases hitems
      | cons n rest =>
        obtain ⟨-, hnext, hrest⟩ := hchain.step h.linked
        cases n with
        | stub => exact absurd mem_cons_self hstub
        | item b =>
          cases hitems
          simp only [Queue.take, if_pos hhead, hnext]
          exact hrest.takeFront h.linked fun hmem => hstub (mem_cons_of_mem _ hmem)

end

/-- The probe of the tail alone tells whether the queue is empty. -/
theorem Rests.tail_eq_stub (h : q.Rests items) : q.tail = .stub ↔ items = [] := by
  obtain ⟨nodes, hchain, rfl, hstub⟩ := h.chained
  cases nodes with
  | nil => cases hchain.head
  | cons front rest =>
    cases rest with
    | nil =>
      have htail : q.tail = front := (some.inj hchain.last).symm
      rw [htail]
      cases front with
      | stub => exact iff_of_true rfl rfl
      | item a => exact iff_of_false (by simp) (by simp [Node.toList])
    | cons n rest =>
      have hlast : q.tail ∈ n :: rest := mem_of_getLast? (by rw [← getLast?_cons_cons]; exact hchain.last)
      refine iff_of_false (fun htail => hstub (htail ▸ hlast)) ?_
      cases n with
      | stub => exact absurd mem_cons_self hstub
      | item b => exact ne_nil_of_mem (mem_items.mpr (mem_cons_of_mem _ mem_cons_self))

end Vyukov.Queue
