import Mathlib.Logic.Relation
import Quark.AtRest

/-! The decorator over a store that an adversary rearranges between the calls, all actors under one key. -/
namespace Quark

open List Bytes

/-- An ideal `Aead`: it opens only what was sealed under the same nonce and associated data. -/
def DataKey.Ideal (key : DataKey) : Prop :=
  ∀ nonce aad nonce' aad' plaintext opened,
    key.open_ nonce aad (key.seal_ nonce' aad' plaintext) = some opened → nonce = nonce' ∧ aad = aad' ∧
    opened = plaintext

/-- One record that a call hands to `seal_at_rest`, and whether the inner store took it. -/
structure Written where
  ctx : AtRestContext
  bytes : List UInt8
  draw : Draw
  accepted : Bool
  deriving DecidableEq, Repr

def Written.sealed_ (key : DataKey) (w : Written) : List UInt8 := sealAtRest key w.ctx w.draw w.bytes

def AtRestCall.written (id : ActorId) (accepted : Bool) : AtRestCall → List Written
  | .saveSnapshot tok snap d => [⟨snapshotContext id snap.throughSeq tok, snap.record, d, accepted⟩]
  | .append _ seq bytes d => [⟨eventContext id seq, bytes, d, accepted⟩]
  | .appendBatch _ batch => batch.map fun r => ⟨eventContext id r.1.seq, r.1.record, r.2, accepted⟩
  | _ => []

def InMemoryStore.Holds (st : InMemoryStore) (records : List UInt8 → Prop) : Prop :=
  ∀ id, (∀ snap ∈ (st.entry id).snapshot, records snap.record) ∧ ∀ r ∈ (st.entry id).log, records r.record

structure Tampered where
  store : EncryptedStore := {}
  written : List Written := []

namespace Tampered

variable (key : DataKey) (sees : Written → Prop)

/-- What may lie in the inner store: what it took, and what the adversary saw. -/
def Sealed (s : Tampered) (record : List UInt8) : Prop :=
  ∃ w ∈ s.written, (w.accepted = true ∨ sees w) ∧ record = w.sealed_ key

def call (s : Tampered) (id : ActorId) (c : AtRestCall) : Tampered where
  store := (s.store.call (fun _ => key) id c).2
  written := s.written ++ c.written id (s.store.call (fun _ => key) id c).1.acknowledged

/-- Between two calls the adversary puts any store made of sealed records in the place of the inner one. -/
inductive Step (s : Tampered) : Tampered → Prop
  | call (id : ActorId) (c : AtRestCall) : Step s (s.call key id c)
  | rearrange (inner : InMemoryStore) (h : inner.Holds (s.Sealed key sees)) : Step s { s with store := ⟨inner⟩ }

end Tampered

section

variable {key : DataKey} {sees : Written → Prop} {s s' : Tampered} {st : InMemoryStore} {id : ActorId}
  {e : StoreEntry}
  {records records' : List UInt8 → Prop}

namespace InMemoryStore.Holds

theorem mono (h : st.Holds records) (hsub : ∀ r, records r → records' r) : st.Holds records' := fun id =>
  ⟨fun snap hsnap => hsub _ ((h id).1 snap hsnap), fun r hr => hsub _ ((h id).2 r hr)⟩

theorem put (h : st.Holds records) (hsnapshot : ∀ snap ∈ e.snapshot, records snap.record)
    (hlog : ∀ r ∈ e.log, records r.record) : (st.put id e).Holds records := by
  intro other
  by_cases hother : other = id
  · subst hother
    rw [entry_put]
    exact ⟨hsnapshot, hlog⟩
  · rw [entry_put_ne _ _ hother]
    exact h other

theorem saveSnapshot {tok : FenceToken} {snap : SnapshotRecord} (h : st.Holds records)
    (hnew : (st.saveSnapshot id tok snap).1.isOk = true → records snap.record) :
    (st.saveSnapshot id tok snap).2.Holds records := by
  rw [saveSnapshot_answer] at hnew
  cases hallowed : (st.entry id).admitSnapshot tok snap with
  | error err =>
    rw [InMemoryStore.saveSnapshot, hallowed]
    exact h.put (h id).1 (h id).2
  | ok u =>
    rw [hallowed] at hnew
    rw [InMemoryStore.saveSnapshot, hallowed]
    refine h.put (fun snap' hsnap' => ?_) (h id).2
    cases hsnap'
    exact hnew rfl

theorem appendBatch {tok : FenceToken} {batch : List EventRecord} (h : st.Holds records)
    (hnew : (st.appendBatch id tok batch).1.isOk = true → ∀ r ∈ batch, records r.record) :
    (st.appendBatch id tok batch).2.Holds records := by
  rw [appendBatch_answer] at hnew
  cases hallowed : (st.entry id).admitBatch tok batch with
  | error err =>
    rw [InMemoryStore.appendBatch, hallowed]
    exact h.put (h id).1 (h id).2
  | ok last =>
    rw [hallowed] at hnew
    rw [InMemoryStore.appendBatch, hallowed]
    refine h.put (h id).1 fun r hr => ?_
    rcases mem_append.mp hr with hold | hadded
    · exact (h id).2 r hold
    · exact hnew rfl r hadded

end InMemoryStore.Holds

namespace Tampered

theorem sealed_call {c : AtRestCall} {record : List UInt8} (h : s.Sealed key sees record) :
    (s.call key id c).Sealed key sees record := by
  obtain ⟨w, hw, hseen, hrecord⟩ := h
  exact ⟨w, mem_append_left _ hw, hseen, hrecord⟩

theorem sealed_new {c : AtRestCall} {w : Written} (hanswer : (s.store.call (fun _ => key) id c).1.acknowledged = true)
    (hw : w ∈ c.written id true) : (s.call key id c).Sealed key sees (w.sealed_ key) := by
  have haccepted : w.accepted = true := by
    cases c with
    | saveSnapshot tok snap d | append tok seq bytes d =>
      rw [mem_singleton.mp hw]
    | appendBatch tok batch =>
      obtain ⟨r, -, rfl⟩ := mem_map.mp hw
      rfl
    | acquireFence | loadSnapshot | readLog from_ | lastSeq => cases hw
  refine ⟨w, mem_append_right _ ?_, .inl haccepted, rfl⟩
  rwa [hanswer]

theorem holds_appendBatch {tok : FenceToken} {batch : List (EventRecord × Draw)}
    (h : s.store.inner.Holds (s.Sealed key sees)) :
    (s.call key id (.appendBatch tok batch)).store.inner.Holds
    ((s.call key id (.appendBatch tok batch)).Sealed key sees) := by
  refine (h.mono fun _ => sealed_call).appendBatch fun hok r hr => ?_
  obtain ⟨r, hmem, rfl⟩ := mem_map.mp hr
  exact sealed_new (c := .appendBatch tok batch) hok (mem_map_of_mem hmem)

theorem holds_call {c : AtRestCall} (h : s.store.inner.Holds (s.Sealed key sees)) :
    (s.call key id c).store.inner.Holds ((s.call key id c).Sealed key sees) := by
  have hold : s.store.inner.Holds ((s.call key id c).Sealed key sees) := h.mono fun _ => sealed_call
  cases c with
  | acquireFence => exact hold.put (hold id).1 (hold id).2
  | saveSnapshot tok snap d =>
    exact hold.saveSnapshot fun hok => sealed_new (c := .saveSnapshot tok snap d) hok mem_cons_self
  | append tok seq bytes d =>
    have hbatch : (s.call key id (.appendBatch tok [(⟨seq, bytes⟩, d)])).store.inner.Holds
        ((s.call key id (.appendBatch tok [(⟨seq, bytes⟩, d)])).Sealed key sees) := holds_appendBatch h
    rwa [Tampered.call, ← EncryptedStore.call_append] at hbatch
  | appendBatch tok batch => exact holds_appendBatch h
  | loadSnapshot | readLog from_ | lastSeq => exact hold

theorem holds_step (h : s.store.inner.Holds (s.Sealed key sees)) (hstep : Step key sees s s') :
    s'.store.inner.Holds (s'.Sealed key sees) := by
  cases hstep with
  | call id c => exact holds_call h
  | rearrange inner hinner => exact hinner

theorem holds_run (h : Relation.ReflTransGen (Step key sees) {} s) : s.store.inner.Holds (s.Sealed key sees) := by
  induction h with
  | refl => exact fun id => ⟨nofun, nofun⟩
  | tail _ hstep ih => exact holds_step ih hstep

end Tampered

theorem putU64_append_inj {v v' : UInt64} {rest rest' : List UInt8} (h : putU64 v ++ rest = putU64 v' ++ rest') :
    v = v' ∧ rest = rest' := by
  obtain ⟨hv, hrest⟩ := append_inj h ((putU64_length v).trans (putU64_length v').symm)
  have hget := congrArg getU64 h
  rw [getU64_putU64, getU64_putU64] at hget
  exact ⟨hget, hrest⟩

theorem atRestAad_injective : Function.Injective atRestAad := by
  intro ctx ctx' h
  simp only [atRestAad, flatMap_cons, flatMap_nil, append_nil] at h
  obtain ⟨htype, h⟩ := putU64_append_inj h
  obtain ⟨hkey, h⟩ := putU64_append_inj h
  obtain ⟨hkind, h⟩ := putU64_append_inj h
  obtain ⟨hseq, h⟩ := putU64_append_inj h
  rw [← append_nil (putU64 ctx.fence.value), ← append_nil (putU64 ctx'.fence.value)] at h
  obtain ⟨hfence, -⟩ := putU64_append_inj h
  obtain ⟨⟨⟨type⟩, key⟩, kind, seq, ⟨fence⟩⟩ := ctx
  obtain ⟨⟨⟨type'⟩, key'⟩, kind', seq', ⟨fence'⟩⟩ := ctx'
  cases htype
  cases hkey
  cases hseq
  cases hfence
  cases kind <;> cases kind' <;> first | rfl | cases hkind

/-- Wherever a sealed record lies, it opens only at the position that it was sealed for. -/
theorem Tampered.Sealed.opens (hideal : key.Ideal) {record opened : List UInt8} {ctx : AtRestContext}
    (h : s.Sealed key sees record) (hopen : openAtRest key ctx record = .ok opened) :
    ∃ w ∈ s.written, (w.accepted = true ∨ sees w) ∧ w.ctx = ctx ∧ w.bytes = opened := by
  obtain ⟨w, hw, hseen, rfl⟩ := h
  refine ⟨w, hw, hseen, ?_⟩
  rw [Written.sealed_, sealAtRest, openAtRest_prefix, sealInto] at hopen
  split at hopen
  · cases hopen
  · next out hout =>
    cases hopen
    split at hout
    · rw [key.open_empty] at hout
      cases hout
    · obtain ⟨-, haad, hbytes⟩ := hideal _ _ _ _ _ _ hout
      exact ⟨(atRestAad_injective haad).symm, hbytes.symm⟩

theorem EncryptedStore.openLog_mem {keys : ActorId → DataKey} {xs ys : List EventRecord}
    (h : openLog keys id xs = .ok ys) {y : EventRecord} (hy : y ∈ ys) :
    ∃ x ∈ xs, openAtRest (keys id) (eventContext id y.seq) x.record = .ok y.record := by
  induction xs generalizing ys with
  | nil =>
    cases h
    cases hy
  | cons x xs ih =>
    rw [openLog] at h
    cases hhead : openAtRest (keys id) (eventContext id x.seq) x.record with
    | error err =>
      rw [hhead] at h
      cases h
    | ok opened =>
      rw [hhead] at h
      cases htail : openLog keys id xs with
      | error err =>
        rw [htail] at h
        cases h
      | ok rest =>
        rw [htail] at h
        cases h
        rcases mem_cons.mp hy with rfl | hrest
        · exact ⟨x, mem_cons_self, hhead⟩
        · obtain ⟨x', hx', hopen⟩ := ih htail hrest
          exact ⟨x', mem_cons_of_mem x hx', hopen⟩

/-- After any run, a read fails or answers with what was written for exactly that position. -/
theorem encrypted_store_splice (key : DataKey) (hideal : key.Ideal) (sees : Written → Prop) (s : Tampered)
    (h : Relation.ReflTransGen (Tampered.Step key sees) {} s) (id : ActorId) :
    (∀ snap, s.store.loadSnapshot (fun _ => key) id = .ok (some snap) →
      ∃ w ∈ s.written, (w.accepted = true ∨ sees w) ∧ w.ctx = ⟨id, .snapshot, snap.throughSeq, snap.fence⟩ ∧
        w.bytes = snap.record) ∧
    ∀ from_ entries, s.store.readLog (fun _ => key) id from_ = .ok entries → ∀ r ∈ entries,
      ∃ w ∈ s.written, (w.accepted = true ∨ sees w) ∧ w.ctx = ⟨id, .event, r.seq, ⟨0⟩⟩ ∧ w.bytes = r.record := by
  have hholds := Tampered.holds_run h id
  refine ⟨fun snap hload => ?_, fun from_ entries hread r hr => ?_⟩
  · rw [EncryptedStore.loadSnapshot, InMemoryStore.loadSnapshot] at hload
    cases hstored : (s.store.inner.entry id).snapshot with
    | none =>
      rw [hstored] at hload
      cases hload
    | some stored =>
      rw [hstored] at hload
      simp only [EncryptedStore.openSnapshot] at hload
      cases hopen : openAtRest key (snapshotContext id stored.throughSeq stored.fence) stored.record with
      | error err =>
        rw [hopen] at hload
        cases hload
      | ok opened =>
        rw [hopen] at hload
        cases hload
        exact (hholds.1 stored hstored).opens hideal hopen
  · obtain ⟨x, hx, hopen⟩ := EncryptedStore.openLog_mem hread hr
    exact (hholds.2 x (mem_filter.mp hx).1).opens hideal hopen

end

/-! A box that shows the nonce and the associated data in front of the plaintext is ideal. -/
namespace BoxCipher

def label (aad : List UInt8) : List UInt8 := aad.flatMap (fun b => [1, b]) ++ [0]

def header (nonce : UInt64) (aad : List UInt8) : List UInt8 := putU64 nonce ++ label aad

def open_ (nonce : UInt64) (aad sealed_ : List UInt8) : Option (List UInt8) :=
  if sealed_.take (header nonce aad).length = header nonce aad
    then some (sealed_.drop (header nonce aad).length) else none

theorem label_append_inj {aad aad' rest rest' : List UInt8} (h : label aad ++ rest = label aad' ++ rest') :
    aad = aad' ∧ rest = rest' := by
  induction aad generalizing aad' with
  | nil =>
    cases aad' with
    | nil => exact ⟨rfl, append_cancel_left h⟩
    | cons b' aad' => cases h
  | cons b aad ih =>
    cases aad' with
    | nil => cases h
    | cons b' aad' =>
      injection h with _ h
      injection h with hb h
      obtain ⟨haad, hrest⟩ := ih h
      exact ⟨by rw [hb, haad], hrest⟩

theorem open_header {nonce : UInt64} {aad plaintext : List UInt8} :
    open_ nonce aad (header nonce aad ++ plaintext) = some plaintext := by
  rw [open_, if_pos take_left, drop_left]

end BoxCipher

def boxCipher : DataKey where
  seal_ nonce aad plaintext := BoxCipher.header nonce aad ++ plaintext
  open_ := BoxCipher.open_
  open_seal _ _ _ := BoxCipher.open_header
  open_empty _ _ := rfl

theorem boxCipher_ideal : boxCipher.Ideal := by
  intro nonce aad nonce' aad' plaintext opened h
  change BoxCipher.open_ nonce aad (BoxCipher.header nonce' aad' ++ plaintext) = some opened at h
  have hopen := h
  rw [BoxCipher.open_] at hopen
  split at hopen
  · next hstarts =>
    have hrest := take_append_drop (BoxCipher.header nonce aad).length (BoxCipher.header nonce' aad' ++ plaintext)
    rw [hstarts] at hrest
    generalize (BoxCipher.header nonce' aad' ++ plaintext).drop _ = rest at hrest
    rw [BoxCipher.header, BoxCipher.header, append_assoc, append_assoc] at hrest
    obtain ⟨rfl, hlabels⟩ := putU64_append_inj hrest
    obtain ⟨rfl, -⟩ := BoxCipher.label_append_inj hlabels
    rw [BoxCipher.open_header] at h
    exact ⟨rfl, rfl, (Option.some.inj h).symm⟩
  · cases hopen

def eventWritten : Tampered :=
  (({} : Tampered).call boxCipher ⟨⟨1⟩, 2⟩ .acquireFence).call boxCipher ⟨⟨1⟩, 2⟩ (.append ⟨1⟩ 1 [10, 11] ⟨77, false⟩)

def eventCopied : Tampered :=
  { eventWritten with store := ⟨eventWritten.store.inner.put ⟨⟨1⟩, 3⟩ (eventWritten.store.inner.entry ⟨⟨1⟩, 2⟩)⟩ }

/-- The first actor reads its event, the other reads an error. -/
theorem encrypted_store_splice_copied :
    (∃ w ∈ eventCopied.written, w.accepted = true ∧ w.ctx = ⟨⟨⟨1⟩, 2⟩, .event, 1, ⟨0⟩⟩ ∧ w.bytes = [10, 11]) ∧
      eventCopied.store.readLog (fun _ => boxCipher) ⟨⟨1⟩, 3⟩ 1 =
        fail .serialization "at-rest AEAD open failed (tamper / wrong actor/seq/fence / wrong key)" := by
  have hwritten : Relation.ReflTransGen (Tampered.Step boxCipher fun _ => False) {} eventWritten :=
    .tail (.single (.call _ _)) (.call _ _)
  have hholds := Tampered.holds_run hwritten
  have hcopied : Relation.ReflTransGen (Tampered.Step boxCipher fun _ => False) {} eventCopied :=
    hwritten.tail (.rearrange _ (hholds.put (hholds ⟨⟨1⟩, 2⟩).1 (hholds ⟨⟨1⟩, 2⟩).2))
  have hread : eventCopied.store.readLog (fun _ => boxCipher) ⟨⟨1⟩, 2⟩ 1 = .ok [⟨1, [10, 11]⟩] := by decide +kernel
  obtain ⟨w, hw, hseen, hctx, hbytes⟩ :=
    (encrypted_store_splice boxCipher boxCipher_ideal (fun _ => False) eventCopied hcopied
    ⟨⟨1⟩, 2⟩).2 1 _ hread _ mem_cons_self
  exact ⟨⟨w, hw, hseen.resolve_right id, hctx, hbytes⟩, by decide +kernel⟩

end Quark
