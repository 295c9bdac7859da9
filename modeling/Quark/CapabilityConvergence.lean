import Mathlib.Data.List.Dedup
import Quark.CapabilityFreshness

/-! What comes of the digests that a registry merges, whatever the order and the batches, and the map it publishes. -/
namespace Quark.Swim

open List Option

namespace CapabilityRegistry

def accepts (reg : CapabilityRegistry) (e : CapabilityDigestEntry) : Bool :=
  match reg.table.lookup e.node with
  | none => if reg.maxEntries ≤ reg.table.size then false else (decodeNodeCapabilities e.blob).isSome
  | some cur => if supersedes (cur.digest e.node) e then (decodeNodeCapabilities e.blob).isSome else false

def rejects (reg : CapabilityRegistry) (e : CapabilityDigestEntry) : Bool :=
  match reg.table.lookup e.node with
  | none => if reg.maxEntries ≤ reg.table.size then true else (decodeNodeCapabilities e.blob).isNone
  | some cur => if supersedes (cur.digest e.node) e then (decodeNodeCapabilities e.blob).isNone else false

end CapabilityRegistry

/-- The registry with what the other threads read of it. -/
structure SharedRegistry where
  registry : CapabilityRegistry
  published : NodeId → Option NodeCapabilities
  size : Nat
  rejected : UInt64 := 0

namespace SharedRegistry

def snapshot (s : SharedRegistry) (node : NodeId) : Option NodeCapabilities :=
  (s.registry.table.lookup node).map CapabilityRegistry.Entry.caps

def publishSnapshot (s : SharedRegistry) : SharedRegistry :=
  { s with published := s.snapshot, size := s.registry.table.size }

/-- `merge_one`, and whether the batch has changed something by then. -/
def mergeOne (acc : SharedRegistry × Bool) (e : CapabilityDigestEntry) : SharedRegistry × Bool :=
  ({ acc.1 with
     registry := acc.1.registry.mergeOne e
     rejected := if acc.1.registry.rejects e then acc.1.rejected + 1 else acc.1.rejected },
   acc.2 || acc.1.registry.accepts e)

/-- `merge`: the map is built anew where the batch reports a change. -/
def merge (s : SharedRegistry) (incoming : List CapabilityDigestEntry) : SharedRegistry :=
  let r := incoming.foldl mergeOne (s, false)
  if r.2 then r.1.publishSnapshot else r.1

def Candidate (s : SharedRegistry) (es : List CapabilityDigestEntry) (node : NodeId) (c : CapabilityDigestEntry) :
    Prop :=
  (∃ own, s.registry.table.lookup node = some own ∧ own.digest node = c) ∨
    (c ∈ es ∧ c.node = node ∧ (decodeNodeCapabilities c.blob).isSome = true)

def named (s : SharedRegistry) (es : List CapabilityDigestEntry) : List NodeId :=
  (s.registry.table.keys ++ es.map CapabilityDigestEntry.node).dedup

def Greatest (s : SharedRegistry) (es : List CapabilityDigestEntry) (node : NodeId) :
    Option CapabilityRegistry.Entry → Prop
  | none => ∀ c, ¬s.Candidate es node c
  | some e => s.Candidate es node (e.digest node) ∧
      ∀ c, s.Candidate es node c → CapabilityRegistry.supersedes (e.digest node) c = false

def Improves (s : SharedRegistry) (es : List CapabilityDigestEntry) : Prop :=
  ∃ node c, s.Candidate es node c ∧
    ∀ own, s.registry.table.lookup node = some own → CapabilityRegistry.supersedes (own.digest node) c = true

end SharedRegistry

section

variable {reg : CapabilityRegistry} {a b c e : CapabilityDigestEntry} {s s₀ : SharedRegistry}
  {es es' done : List CapabilityDigestEntry} {node : NodeId} {x y : CapabilityRegistry.Entry}

theorem supersedes_iff : CapabilityRegistry.supersedes a b = true ↔ a.incarnation < b.incarnation ∨
    a.incarnation = b.incarnation ∧ (a.localSeq < b.localSeq ∨ a.localSeq = b.localSeq ∧ a.blob < b.blob) := by
  unfold CapabilityRegistry.supersedes
  split
  · next hinc => simp [Ne.symm hinc]
  · next hinc =>
    rw [not_not.mp hinc]
    split
    · next hseq => simp [Ne.symm hseq]
    · next hseq => simp [not_not.mp hseq]

theorem supersedes_trans (h : CapabilityRegistry.supersedes a b = true)
    (h' : CapabilityRegistry.supersedes b c = true) : CapabilityRegistry.supersedes a c = true := by
  rw [supersedes_iff] at h h' ⊢
  rcases h with hinc | ⟨hinc, h⟩
  · rcases h' with hinc' | ⟨hinc', -⟩
    · exact .inl (UInt64.lt_trans hinc hinc')
    · exact .inl (hinc' ▸ hinc)
  rcases h' with hinc' | ⟨hinc', h'⟩
  · exact .inl (hinc ▸ hinc')
  refine .inr ⟨hinc.trans hinc', ?_⟩
  rcases h with hseq | ⟨hseq, hblob⟩
  · rcases h' with hseq' | ⟨hseq', -⟩
    · exact .inl (UInt32.lt_trans hseq hseq')
    · exact .inl (hseq' ▸ hseq)
  rcases h' with hseq' | ⟨hseq', hblob'⟩
  · exact .inl (hseq ▸ hseq')
  · exact .inr ⟨hseq.trans hseq', List.lt_trans hblob hblob'⟩

theorem supersedes_antisymm (hnode : a.node = b.node) (h : CapabilityRegistry.supersedes a b = false)
    (h' : CapabilityRegistry.supersedes b a = false) : a = b := by
  rw [← Bool.not_eq_true, supersedes_iff, not_or, not_and, not_or, not_and] at h h'
  have hinc : a.incarnation = b.incarnation := UInt64.le_antisymm (UInt64.not_lt.mp h'.1) (UInt64.not_lt.mp h.1)
  obtain ⟨hseq, hblob⟩ := h.2 hinc
  obtain ⟨hseq', hblob'⟩ := h'.2 hinc.symm
  have hseq : a.localSeq = b.localSeq := UInt32.le_antisymm (UInt32.not_lt.mp hseq') (UInt32.not_lt.mp hseq)
  have hblob : a.blob = b.blob := List.le_antisymm (hblob' hseq.symm) (hblob hseq)
  obtain ⟨node, inc, seq, blob⟩ := a
  obtain ⟨node', inc', seq', blob'⟩ := b
  cases hnode
  cases hinc
  cases hseq
  cases hblob
  rfl

theorem entry_ext (h : x.digest node = y.digest node) : x = y := by
  obtain ⟨inc, seq, blob, caps, hdecodes⟩ := x
  obtain ⟨inc', seq', blob', caps', hdecodes'⟩ := y
  cases h
  obtain rfl : caps = caps' := some.inj (hdecodes.symm.trans hdecodes')
  rfl

namespace CapabilityRegistry

theorem store_none (h : decodeNodeCapabilities e.blob = none) : reg.store e = reg := by
  unfold store
  split
  · rfl
  · next caps hcaps => cases h.symm.trans hcaps

theorem mergeOne_rejected (h : reg.accepts e = false) : reg.mergeOne e = reg := by
  unfold accepts at h
  unfold mergeOne
  split
  · next hlookup =>
    rw [hlookup] at h
    split
    · rfl
    · next hroom =>
      refine store_none (isSome_eq_false_iff.mp ?_ |> isNone_iff_eq_none.mp)
      simpa only [if_neg hroom] using h
  · next cur hlookup =>
    rw [hlookup] at h
    split
    · next hhigher =>
      refine store_none (isSome_eq_false_iff.mp ?_ |> isNone_iff_eq_none.mp)
      simpa only [if_pos hhigher] using h
    · rfl

theorem store_decodes (h : (decodeNodeCapabilities e.blob).isSome = true) :
    ∃ x, x.digest e.node = e ∧ (reg.store e).maxEntries = reg.maxEntries ∧
      (reg.store e).table = reg.table.insert e.node x := by
  unfold store
  split
  · next hnone =>
    rw [hnone] at h
    cases h
  · next caps hcaps => exact ⟨⟨e.incarnation, e.localSeq, e.blob, caps, hcaps⟩, rfl, rfl, rfl⟩

theorem accepts_decodes (h : reg.accepts e = true) : (decodeNodeCapabilities e.blob).isSome = true := by
  unfold accepts at h
  split at h
  · split at h
    · cases h
    · exact h
  · split at h
    · exact h
    · cases h

theorem accepts_higher (h : reg.accepts e = true) (hx : reg.table.lookup e.node = some x) :
    supersedes (x.digest e.node) e = true := by
  by_contra hlower
  simp only [accepts, hx, if_neg hlower, Bool.false_eq_true] at h

theorem mergeOne_accepted (h : reg.accepts e = true) :
    ∃ x, x.digest e.node = e ∧ (reg.mergeOne e).maxEntries = reg.maxEntries ∧
      (reg.mergeOne e).table = reg.table.insert e.node x := by
  have hstore : reg.mergeOne e = reg.store e := by
    unfold mergeOne
    split
    · next hlookup =>
      refine if_neg fun hfull => ?_
      simp only [accepts, hlookup, if_pos hfull, Bool.false_eq_true] at h
    · next cur hlookup => exact if_pos (accepts_higher h hlookup)
  rw [hstore]
  exact store_decodes (accepts_decodes h)

theorem mergeOne_max : (reg.mergeOne e).maxEntries = reg.maxEntries := by
  cases haccepts : reg.accepts e with
  | false => rw [mergeOne_rejected haccepts]
  | true =>
    obtain ⟨x, -, hmax, -⟩ := mergeOne_accepted haccepts
    exact hmax

/-- An entry that decodes is refused for want of room, or because the entry there outranks it or is the same. -/
theorem accepts_of_higher (hdecodes : (decodeNodeCapabilities e.blob).isSome = true)
    (hroom : reg.table.lookup e.node = none → reg.table.size < reg.maxEntries)
    (hhigher : ∀ x, reg.table.lookup e.node = some x → supersedes (x.digest e.node) e = true) :
    reg.accepts e = true := by
  unfold accepts
  split
  · next hlookup => rwa [if_neg (not_le.mpr (hroom hlookup))]
  · next cur hlookup => rwa [if_pos (hhigher cur hlookup)]

end CapabilityRegistry

namespace SharedRegistry

theorem Candidate.mono (h : s.Candidate es node c) (hsub : ∀ e ∈ es, e ∈ es') : s.Candidate es' node c := by
  rcases h with hown | ⟨hmem, hnode, hdecodes⟩
  · exact .inl hown
  · exact .inr ⟨hsub c hmem, hnode, hdecodes⟩

theorem Greatest.congr {x : Option CapabilityRegistry.Entry} (h : s.Greatest es node x)
    (hsame : ∀ e, e ∈ es ↔ e ∈ es') :
    s.Greatest es' node x := by
  cases x with
  | none => exact fun c hc => h c (hc.mono fun e => (hsame e).mpr)
  | some x => exact ⟨h.1.mono fun e => (hsame e).mp, fun c hc => h.2 c (hc.mono fun e => (hsame e).mpr)⟩

theorem Greatest.unique {x y : Option CapabilityRegistry.Entry} (h : s.Greatest es node x)
    (h' : s.Greatest es node y) :
    x = y := by
  cases x with
  | none =>
    cases y with
    | none => rfl
    | some y => exact absurd h'.1 (h _)
  | some x =>
    cases y with
    | none => exact absurd h.1 (h' _)
    | some y =>
      exact congrArg some (entry_ext (supersedes_antisymm (a := x.digest node) rfl (h.2 _ h'.1) (h'.2 _ h.1)))

/-- Merging has begun with `s`, and `done` has come in. -/
structure Merging (s : SharedRegistry) (done : List CapabilityDigestEntry) (reg : CapabilityRegistry) : Prop where
  max : reg.maxEntries = s.registry.maxEntries
  keys : ∀ node ∈ reg.table.keys, node ∈ s.named done
  greatest : ∀ node, s.Greatest done node (reg.table.lookup node)

theorem mem_named : node ∈ s.named es ↔ node ∈ s.registry.table.keys ∨ ∃ e ∈ es, e.node = node := by
  rw [named, List.mem_dedup, List.mem_append, List.mem_map]

theorem candidate_append : s.Candidate (done ++ [e]) node c ↔
    s.Candidate done node c ∨ c = e ∧ e.node = node ∧ (decodeNodeCapabilities e.blob).isSome = true := by
  constructor
  · rintro (hown | ⟨hmem, hnode, hdecodes⟩)
    · exact .inl (.inl hown)
    · rcases mem_append.mp hmem with hdone | hlast
      · exact .inl (.inr ⟨hdone, hnode, hdecodes⟩)
      · obtain rfl := mem_singleton.mp hlast
        exact .inr ⟨rfl, hnode, hdecodes⟩
  · rintro (hdone | ⟨rfl, hnode, hdecodes⟩)
    · exact hdone.mono fun e he => mem_append_left _ he
    · exact .inr ⟨mem_append_right _ mem_cons_self, hnode, hdecodes⟩

theorem Greatest.append (h : s.Greatest done node (reg.table.lookup node))
    (hlow : e.node = node → (decodeNodeCapabilities e.blob).isSome = true →
      ∃ x, reg.table.lookup node = some x ∧ CapabilityRegistry.supersedes (x.digest node) e = false) :
    s.Greatest (done ++ [e]) node (reg.table.lookup node) := by
  cases hlookup : reg.table.lookup node with
  | none =>
    intro c hc
    rw [hlookup] at h hlow
    rcases candidate_append.mp hc with hdone | ⟨-, hnode, hdecodes⟩
    · exact h c hdone
    · obtain ⟨x, hx, -⟩ := hlow hnode hdecodes
      cases hx
  | some x =>
    rw [hlookup] at h hlow
    refine ⟨candidate_append.mpr (.inl h.1), fun c hc => ?_⟩
    rcases candidate_append.mp hc with hdone | ⟨rfl, hnode, hdecodes⟩
    · exact h.2 c hdone
    · obtain ⟨y, hy, hlow⟩ := hlow hnode hdecodes
      cases hy
      exact hlow

theorem Greatest.replace (h : s.Greatest done e.node (reg.table.lookup e.node)) (hx : x.digest e.node = e)
    (haccepts : reg.accepts e = true) : s.Greatest (done ++ [e]) e.node (some x) := by
  refine ⟨candidate_append.mpr (.inr ⟨hx, rfl, CapabilityRegistry.accepts_decodes haccepts⟩), fun c hc => ?_⟩
  rw [hx]
  rcases candidate_append.mp hc with hdone | ⟨rfl, -⟩
  · cases hlookup : reg.table.lookup e.node with
    | none =>
      rw [hlookup] at h
      exact absurd hdone (h c)
    | some y =>
      rw [hlookup] at h
      by_contra hhigher
      have hyc := supersedes_trans (CapabilityRegistry.accepts_higher haccepts hlookup)
        (Bool.not_eq_false _ ▸ hhigher)
      rw [h.2 c hdone] at hyc
      cases hyc
  · exact supersedes_irrefl _

namespace Merging

theorem start (s : SharedRegistry) : Merging s [] s.registry where
  max := rfl
  keys node hnode := mem_named.mpr (.inl hnode)
  greatest node := by
    cases hlookup : s.registry.table.lookup node with
    | none =>
      rintro c (⟨own, hown, -⟩ | ⟨hmem, -⟩)
      · cases hlookup.symm.trans hown
      · cases hmem
    | some x =>
      refine ⟨.inl ⟨x, hlookup, rfl⟩, ?_⟩
      rintro c (⟨own, hown, rfl⟩ | ⟨hmem, -⟩)
      · cases hlookup.symm.trans hown
        exact supersedes_irrefl _
      · cases hmem

theorem room (h : Merging s done reg) (hroom : (s.named es).length ≤ s.registry.maxEntries)
    (hsub : ∀ e ∈ done, e ∈ es)
    (he : e ∈ es) (hlookup : reg.table.lookup e.node = none) : reg.table.size < reg.maxEntries := by
  have hnew : e.node ∉ reg.table.keys := AList.lookup_eq_none.mp hlookup
  have hnamed : e.node :: reg.table.keys ⊆ s.named es := by
    intro node hnode
    rcases mem_cons.mp hnode with rfl | hkey
    · exact mem_named.mpr (.inr ⟨e, he, rfl⟩)
    · rcases mem_named.mp (h.keys node hkey) with hold | ⟨e', he', heq⟩
      · exact mem_named.mpr (.inl hold)
      · exact mem_named.mpr (.inr ⟨e', hsub e' he', heq⟩)
  have hlength := ((nodup_cons.mpr ⟨hnew, reg.table.keys_nodup⟩).subperm hnamed).length_le
  rw [length_cons, ← Table.size_eq_keys] at hlength
  rw [h.max]
  omega

theorem mergeOne (h : Merging s done reg) (hroom : (s.named es).length ≤ s.registry.maxEntries)
    (hsub : ∀ e ∈ done, e ∈ es) (he : e ∈ es) : Merging s (done ++ [e]) (reg.mergeOne e) where
  max := CapabilityRegistry.mergeOne_max.trans h.max
  keys node hnode := by
    have hgrow : node ∈ s.named done → node ∈ s.named (done ++ [e]) := fun hold => by
      rcases mem_named.mp hold with hold | ⟨e', he', heq⟩
      · exact mem_named.mpr (.inl hold)
      · exact mem_named.mpr (.inr ⟨e', mem_append_left _ he', heq⟩)
    cases haccepts : reg.accepts e with
    | false =>
      rw [CapabilityRegistry.mergeOne_rejected haccepts] at hnode
      exact hgrow (h.keys node hnode)
    | true =>
      obtain ⟨x, -, -, htable⟩ := CapabilityRegistry.mergeOne_accepted haccepts
      rw [htable, AList.keys_insert] at hnode
      rcases mem_cons.mp hnode with rfl | hold
      · exact mem_named.mpr (.inr ⟨e, mem_append_right _ mem_cons_self, rfl⟩)
      · exact hgrow (h.keys node (mem_of_mem_erase hold))
  greatest node := by
    cases haccepts : reg.accepts e with
    | false =>
      rw [CapabilityRegistry.mergeOne_rejected haccepts]
      refine (h.greatest node).append fun hnode hdecodes => ?_
      subst hnode
      by_contra hnone
      have hall := not_exists.mp hnone
      rw [CapabilityRegistry.accepts_of_higher hdecodes (h.room hroom hsub he) fun x hx =>
        Bool.not_eq_false _ ▸ fun hlow => hall x ⟨hx, hlow⟩] at haccepts
      cases haccepts
    | true =>
      obtain ⟨x, hx, -, htable⟩ := CapabilityRegistry.mergeOne_accepted haccepts
      rw [htable]
      by_cases hnode : node = e.node
      · subst hnode
        rw [AList.lookup_insert]
        exact (h.greatest e.node).replace hx haccepts
      · rw [AList.lookup_insert_ne hnode]
        exact (h.greatest node).append fun heq => absurd heq.symm hnode

end Merging

theorem Improves.mono (h : s.Improves es) (hsub : ∀ e ∈ es, e ∈ es') : s.Improves es' := by
  obtain ⟨node, c, hc, hown⟩ := h
  exact ⟨node, c, hc.mono hsub, hown⟩

theorem Merging.improves (h : Merging s done reg) (haccepts : reg.accepts e = true) : s.Improves (done ++ [e]) := by
  refine ⟨e.node, e, candidate_append.mpr (.inr ⟨rfl, rfl, CapabilityRegistry.accepts_decodes haccepts⟩),
    fun own hown => ?_⟩
  have hcandidate : s.Candidate done e.node (own.digest e.node) := .inl ⟨own, hown, rfl⟩
  have hgreatest := h.greatest e.node
  cases hlookup : reg.table.lookup e.node with
  | none =>
    rw [hlookup] at hgreatest
    exact absurd hcandidate (hgreatest _)
  | some y =>
    rw [hlookup] at hgreatest
    have hlow := hgreatest.2 _ hcandidate
    have hhigh := CapabilityRegistry.accepts_higher haccepts hlookup
    by_contra hnot
    have hnot := Bool.eq_false_of_not_eq_true hnot
    cases hback : CapabilityRegistry.supersedes e (own.digest e.node) with
    | true =>
      rw [supersedes_trans hhigh hback] at hlow
      cases hlow
    | false =>
      have hsame : own.digest e.node = e := supersedes_antisymm rfl hnot hback
      rw [hsame, hhigh] at hlow
      cases hlow

theorem Merging.ne_of_improves (h : Merging s es reg) (himproves : s.Improves es) : reg.table ≠ s.registry.table := by
  intro hsame
  obtain ⟨node, c, hc, hown⟩ := himproves
  have hgreatest := h.greatest node
  rw [hsame] at hgreatest
  cases hlookup : s.registry.table.lookup node with
  | none =>
    rw [hlookup] at hgreatest
    exact hgreatest c hc
  | some own =>
    rw [hlookup] at hgreatest
    have hlow := hgreatest.2 c hc
    rw [hown own hlookup] at hlow
    cases hlow

/-- The map is that of the table now, or nothing has changed. -/
structure Publishing (s : SharedRegistry) (done : List CapabilityDigestEntry) (r : SharedRegistry) : Prop where
  merging : Merging s done r.registry
  published : (r.registry.table = s.registry.table ∧ r.published = s.published) ∨
    (s.Improves done ∧ r.published = r.snapshot)

theorem foldl_mergeOne {r₀ : SharedRegistry} {incoming : List CapabilityDigestEntry} {acc : SharedRegistry × Bool}
    (hroom : (s.named es).length ≤ s.registry.maxEntries) (hsub : ∀ e ∈ done ++ incoming, e ∈ es)
    (hmerging : Merging s done acc.1.registry) (hpublished : acc.1.published = r₀.published)
    (hchanged : if acc.2 then s.Improves done else acc.1.registry = r₀.registry) :
    let r := incoming.foldl mergeOne acc
    Merging s (done ++ incoming) r.1.registry ∧ r.1.published = r₀.published ∧
      if r.2 then s.Improves (done ++ incoming) else r.1.registry = r₀.registry := by
  induction incoming generalizing done acc with
  | nil =>
    rw [append_nil]
    exact ⟨hmerging, hpublished, hchanged⟩
  | cons e incoming ih =>
    rw [append_cons] at hsub ⊢
    have hdone : ∀ e' ∈ done, e' ∈ es := fun e' he' => hsub e' (mem_append_left _ (mem_append_left _ he'))
    have he : e ∈ es := hsub e (mem_append_left _ (mem_append_right _ mem_cons_self))
    refine ih hsub (hmerging.mergeOne hroom hdone he) hpublished ?_
    cases haccepts : acc.1.registry.accepts e with
    | true =>
      rw [mergeOne, haccepts, Bool.or_true, if_pos rfl]
      exact hmerging.improves haccepts
    | false =>
      rw [mergeOne, haccepts, Bool.or_false]
      by_cases hflag : acc.2 = true
      · rw [if_pos hflag] at hchanged ⊢
        exact hchanged.mono fun e he => mem_append_left _ he
      · rw [if_neg hflag] at hchanged ⊢
        exact (CapabilityRegistry.mergeOne_rejected haccepts).trans hchanged

theorem Publishing.merge {r : SharedRegistry} {incoming : List CapabilityDigestEntry} (h : Publishing s done r)
    (hroom : (s.named es).length ≤ s.registry.maxEntries) (hsub : ∀ e ∈ done ++ incoming, e ∈ es) :
    Publishing s (done ++ incoming) (r.merge incoming) := by
  obtain ⟨hmerging, hpublished, hchanged⟩ := @foldl_mergeOne _ _ _ r incoming (r, false) hroom hsub h.merging rfl rfl
  by_cases hflag : (incoming.foldl SharedRegistry.mergeOne (r, false)).2 = true
  · have hmerge : r.merge incoming = (incoming.foldl SharedRegistry.mergeOne (r, false)).1.publishSnapshot :=
      if_pos hflag
    rw [if_pos hflag] at hchanged
    rw [hmerge]
    exact ⟨hmerging, .inr ⟨hchanged, rfl⟩⟩
  · have hmerge : r.merge incoming = (incoming.foldl SharedRegistry.mergeOne (r, false)).1 := if_neg hflag
    rw [if_neg hflag] at hchanged
    rw [hmerge]
    refine ⟨hmerging, ?_⟩
    rcases h.published with ⟨htable, hsame⟩ | ⟨himproves, hsnapshot⟩
    · exact .inl ⟨by rw [hchanged, htable], hpublished.trans hsame⟩
    · refine .inr ⟨himproves.mono fun e he => mem_append_left _ he, hpublished.trans (hsnapshot.trans ?_)⟩
      funext node
      rw [snapshot, snapshot, hchanged]

theorem Publishing.run (hroom : (s.named es).length ≤ s.registry.maxEntries)
    (batches : List (List CapabilityDigestEntry))
    (hsub : ∀ e ∈ batches.flatten, e ∈ es) : Publishing s batches.flatten (batches.foldl SharedRegistry.merge s) := by
  induction batches using List.reverseRecOn with
  | nil => exact ⟨.start s, .inl ⟨rfl, rfl⟩⟩
  | append_singleton batches batch ih =>
    rw [flatten_append, flatten_singleton] at hsub ⊢
    rw [foldl_append]
    exact (ih fun e he => hsub e (mem_append_left _ he)).merge hroom hsub

end SharedRegistry

end

/-- Whatever the order, the repetitions and the batches, the same table and the same published map: for each node the
greatest of what competes for it. -/
theorem merge_converges (s : SharedRegistry) (es : List CapabilityDigestEntry)
    (hroom : (s.named es).length ≤ s.registry.maxEntries) (batches batches' : List (List CapabilityDigestEntry))
    (h : ∀ e, e ∈ batches.flatten ↔ e ∈ es) (h' : ∀ e, e ∈ batches'.flatten ↔ e ∈ es) :
    let r := batches.foldl SharedRegistry.merge s
    let r' := batches'.foldl SharedRegistry.merge s
    (∀ node, s.Greatest es node (r.registry.table.lookup node)) ∧
      (∀ node, r.registry.table.lookup node = r'.registry.table.lookup node) ∧ r.published = r'.published ∧
      (s.published = s.snapshot → r.published = r.snapshot) := by
  intro r r'
  have hrun := SharedRegistry.Publishing.run hroom batches fun e => (h e).mp
  have hrun' := SharedRegistry.Publishing.run hroom batches' fun e => (h' e).mp
  have hgreatest := fun node => (hrun.merging.greatest node).congr h
  have hsame : ∀ node, r.registry.table.lookup node = r'.registry.table.lookup node := fun node =>
    (hgreatest node).unique ((hrun'.merging.greatest node).congr h')
  refine ⟨hgreatest, hsame, ?_, fun hsynced => ?_⟩
  · rcases hrun.published with ⟨htable, hpublished⟩ | ⟨himproves, hpublished⟩
    · rcases hrun'.published with ⟨-, hpublished'⟩ | ⟨himproves', -⟩
      · exact hpublished.trans hpublished'.symm
      · exact absurd htable (hrun.merging.ne_of_improves (himproves'.mono fun e he => (h e).mpr ((h' e).mp he)))
    · rcases hrun'.published with ⟨htable', -⟩ | ⟨-, hpublished'⟩
      · exact absurd htable' (hrun'.merging.ne_of_improves (himproves.mono fun e he => (h' e).mpr ((h e).mp he)))
      · refine hpublished.trans (Eq.trans ?_ hpublished'.symm)
        funext node
        rw [SharedRegistry.snapshot, SharedRegistry.snapshot, hsame]
  · rcases hrun.published with ⟨htable, hpublished⟩ | ⟨-, hpublished⟩
    · refine hpublished.trans (hsynced.trans ?_)
      funext node
      rw [SharedRegistry.snapshot, SharedRegistry.snapshot, htable]
    · exact hpublished

/-- Two entries of one node and one that does not decode, in one batch, and backwards in three with a repetition. -/
theorem merge_converges_shuffled :
    let low : CapabilityDigestEntry := ⟨7, 1, 1, encodeNodeCapabilities { flags := [[1]] }⟩
    let high : CapabilityDigestEntry := ⟨7, 2, 1, encodeNodeCapabilities { flags := [[2]] }⟩
    let malformed : CapabilityDigestEntry := ⟨7, 3, 1, [9]⟩
    let s : SharedRegistry := ⟨{}, fun _ => none, 0, 0⟩
    ([[low, high, malformed]].foldl SharedRegistry.merge s).published =
      ([[malformed, high], [low], [low, malformed]].foldl SharedRegistry.merge s).published := by
  intro low high malformed s
  refine (merge_converges s [low, high, malformed] (by decide) _ _ (fun e => ?_) fun e => ?_).2.2.1
  · simp
  · simp only [flatten_cons, flatten_nil, mem_append, mem_cons, not_mem_nil, or_false]
    tauto

end Quark.Swim
