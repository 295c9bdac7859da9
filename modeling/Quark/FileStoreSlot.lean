import Quark.FileStoreReplay

/-! One actor of the store: a loaded entry that holds what its file replays to, and how loading and
writing keep it so. Stores are compared actor by actor: no two actors share a file. -/
namespace Quark.FileStore

open List StoreEntry AList Bytes

/-- The file layer opens, reads and truncates without an error. -/
structure Sound (pal : Pal) : Prop where
  opens : pal.opens = true
  reads : pal.readError = none
  truncates : pal.truncates = true

theorem healthy : Sound {} := ⟨rfl, rfl, rfl⟩

def Recovers (file : Option (List UInt8)) (e : StoreEntry) (tail : List UInt8) : Prop :=
  ∃ bodies, Journals bodies e ∧ file.getD [] = wal bodies ++ tail

/-- The loaded entry is `e`, the file replays to `e` up to the append offset, and past that offset
the file has `stale`. -/
structure Slot.Holds (s : Slot) (e : StoreEntry) (stale : List UInt8) : Prop where
  entry_eq : s.entry.toStoreEntry = e
  opened : s.entry.fd = true
  intact : s.entry.corrupt = false
  journaled : ∃ bodies, Journals bodies e ∧ s.file = some (wal bodies ++ stale) ∧
    s.entry.writeOff = (wal bodies).length

theorem Recovers.empty : Recovers none {} [] := ⟨[], Journals.nil, rfl⟩

theorem Slot.Holds.recovers {s : Slot} {e : StoreEntry} {stale : List UInt8} (h : s.Holds e stale) :
    Recovers s.file e stale := by
  obtain ⟨bodies, hj, hf, _⟩ := h.journaled
  exact ⟨bodies, hj, by rw [hf, Option.getD_some]⟩

theorem Slot.Holds.ordered {s : Slot} {e : StoreEntry} {stale : List UInt8} (h : s.Holds e stale) :
    Ordered e := by
  obtain ⟨bodies, hj, _⟩ := h.journaled
  exact hj.ordered

theorem Recovers.snoc {file : Option (List UInt8)} {e e' : StoreEntry} {body tail : List UInt8}
    (h : Recovers file e (frame body ++ tail)) (hb : body.length < 2 ^ 32)
    (ha : applyRecord e body = some e') (ho : Ordered e') : Recovers file e' tail := by
  obtain ⟨bodies, hj, hf⟩ := h
  exact ⟨bodies ++ [body], hj.snoc hb ha ho, by rw [hf, wal_snoc, append_assoc]⟩

theorem load_holds {pal : Pal} (hp : Sound pal) {file : Option (List UInt8)} {e : StoreEntry}
    {tail : List UInt8} (h : Recovers file e tail) (ht : Torn tail) : (load pal file).Holds e [] := by
  obtain ⟨bodies, hj, hf⟩ := h
  have hfuel : ∃ fuel, (wal bodies ++ tail).length = fuel + bodies.length := by
    have hle := length_le_wal bodies
    refine ⟨(wal bodies ++ tail).length - bodies.length, ?_⟩
    rw [length_append]
    omega
  obtain ⟨fuel, hfuel⟩ := hfuel
  have hloop : replayLoop (wal bodies ++ tail).length {} (wal bodies ++ tail) 0 =
      { entry := e, off := (wal bodies).length } := by
    rw [hfuel, replayLoop_wal hj.bounded hj.replays, replayLoop_torn ht, zero_add]
  have hcut : (if (wal bodies).length ≠ (wal bodies ++ tail).length
      then fileTruncate pal (wal bodies ++ tail) (wal bodies).length else wal bodies ++ tail) = wal bodies := by
    split
    · simp only [fileTruncate, hp.truncates, if_true, take_left' rfl]
    · next hlen =>
      have hnil : tail = [] := by
        rw [← length_eq_zero_iff]
        simp only [length_append] at hlen
        omega
      rw [hnil, append_nil]
  simp only [load, hp.opens, if_true, replay, readAll, hp.reads, hf, hloop, settle,
    Bool.false_eq_true, if_false, hcut]
  exact ⟨rfl, rfl, rfl, bodies, hj, by rw [append_nil], rfl⟩

namespace Slot

theorem Holds.durableAppend_flushed {s : Slot} {e e' : StoreEntry} {stale body : List UInt8}
    (h : s.Holds e stale) (pal : Pal) (hp : pal.append = .flushed) (hb : body.length < 2 ^ 32)
    (ha : applyRecord e body = some e') (ho : Ordered e') :
    (s.durableAppend pal body).1 = true ∧
      ((s.durableAppend pal body).2.withEntry e').Holds e' (stale.drop (frame body).length) := by
  obtain ⟨bodies, hj, hf, hoff⟩ := h.journaled
  have hd : s.durableAppend pal body =
      (true, { file := some (writeAt s.bytes (frame body) s.entry.writeOff),
               entry := { s.entry with writeOff := s.entry.writeOff + (frame body).length } }) := by
    simp only [durableAppend, h.opened, hp, Bool.not_true, Bool.false_eq_true, if_false]
  rw [hd]
  refine ⟨rfl, rfl, h.opened, h.intact, bodies ++ [body], hj.snoc hb ha ho, ?_, ?_⟩
  · simp only [withEntry, bytes, hf, Option.getD_some, hoff, writeAt_append, wal_snoc]
  · simp only [withEntry, hoff, wal_snoc, length_append]

theorem Holds.durableAppend_failed {s : Slot} {e : StoreEntry} {stale : List UInt8} {k : Nat}
    (h : s.Holds e stale) (pal : Pal) (hp : pal.append = .failed k) (body : List UInt8) :
    (s.durableAppend pal body).1 = false ∧
      (s.durableAppend pal body).2.Holds e
        ((frame body).take k ++ stale.drop ((frame body).take k).length) := by
  obtain ⟨bodies, hj, hf, hoff⟩ := h.journaled
  have hd : s.durableAppend pal body =
      (false, { s with file := some (writeAt s.bytes ((frame body).take k) s.entry.writeOff) }) := by
    simp only [durableAppend, h.opened, hp, Bool.not_true, Bool.false_eq_true, if_false]
  rw [hd]
  refine ⟨rfl, h.entry_eq, h.opened, h.intact, bodies, hj, ?_, hoff⟩
  simp only [bytes, hf, Option.getD_some, hoff, writeAt_append, append_assoc]

def notDurable : StoreOp → Error
  | .acquireFence => ⟨.internal, "FileStore: could not durably record the new fence owner"⟩
  | _ => ⟨.internal, "FileStore: durable write failed"⟩

theorem durableAppend_entry (pal : Pal) (s : Slot) (body : List UInt8) :
    (s.durableAppend pal body).2.entry.toStoreEntry = s.entry.toStoreEntry := by
  simp only [durableAppend]
  split
  · rfl
  · split <;> rfl

/-- The common end of the writes: the record, then the same update of the entry. -/
theorem durableAppendR_then (pal : Pal) (s : Slot) (body : List UInt8) (update : StoreEntry → StoreEntry) :
    (match s.durableAppendR pal body with
      | (.error err, s') => (.error err, s')
      | (.ok (), s') => (.ok (), s'.withEntry (update s'.entry.toStoreEntry))) =
      match s.durableAppend pal body with
      | (false, s') => ((fail .internal "FileStore: durable write failed" : Result Unit), s')
      | (true, s') => (.ok (), s'.withEntry (update s.entry.toStoreEntry)) := by
  have hentry := durableAppend_entry pal s body
  rw [durableAppendR]
  generalize s.durableAppend pal body = r at hentry ⊢
  rcases r with ⟨ok, s'⟩
  cases ok with
  | false => rfl
  | true => simp only at hentry; simp only [hentry]

theorem call_eq {s : Slot} (pal : Pal) (hs : s.entry.corrupt = false) (op : StoreOp) :
    s.call pal op =
      match s.entry.apply op with
      | (.error err, _) => (.error err, s)
      | (.ok (), e') =>
        match s.durableAppend pal (op.body s.entry.toStoreEntry) with
        | (false, s') => (.error (notDurable op), s')
        | (true, s') => (.ok (), s'.withEntry e') := by
  cases op with
  | acquireFence =>
    have hentry := durableAppend_entry pal s (fenceBody s.entry.nextOwner)
    simp only [call, acquireFence, hs, Bool.false_eq_true, if_false, apply, StoreOp.body]
    generalize s.durableAppend pal (fenceBody s.entry.nextOwner) = r at hentry ⊢
    rcases r with ⟨ok, s'⟩
    cases ok with
    | false => rfl
    | true => simp only at hentry; simp only [hentry, Except.map]
  | saveSnapshot tok snap =>
    simp only [call, saveSnapshot, hs, Bool.false_eq_true, if_false, apply, StoreOp.body]
    cases s.entry.admitSnapshot tok snap with
    | error err => rfl
    | ok u => exact durableAppendR_then pal s _ fun e => e.withSnapshot { snap with fence := tok }
  | append tok seq bytes =>
    simp only [call, append, appendBatch, hs, Bool.false_eq_true, if_false, apply, StoreOp.body]
    cases s.entry.admitBatch tok [⟨seq, bytes⟩] with
    | error err => rfl
    | ok last => exact durableAppendR_then pal s _ fun e => e.withBatch [⟨seq, bytes⟩] last
  | appendBatch tok batch =>
    simp only [call, appendBatch, hs, Bool.false_eq_true, if_false, apply, StoreOp.body]
    cases s.entry.admitBatch tok batch with
    | error err => rfl
    | ok last => exact durableAppendR_then pal s _ fun e => e.withBatch batch last

theorem Holds.call_flushed {s : Slot} {e : StoreEntry} {stale : List UInt8} {op : StoreOp}
    (h : s.Holds e stale) (pal : Pal) (hp : pal.append = .flushed) (hb : op.Bounded) :
    (s.call pal op).1 = (e.apply op).1 ∧
      ∃ n, (s.call pal op).2.Holds (e.apply op).2 (stale.drop n) := by
  rw [call_eq pal h.intact op, h.entry_eq]
  cases happ : e.apply op with
  | mk res e' =>
    cases res with
    | error err =>
      refine ⟨rfl, 0, ?_⟩
      rw [apply_error happ, drop_zero]
      exact h
    | ok u =>
      obtain ⟨hok, hholds⟩ := h.durableAppend_flushed pal hp (hb e) (applyRecord_body hb happ)
        (h.ordered.apply hb happ)
      revert hok hholds
      rcases s.durableAppend pal (op.body e) with ⟨ok, s'⟩
      rintro rfl hholds
      exact ⟨rfl, _, hholds⟩

end Slot

theorem hexDigits_inj {n v w : Nat} (hv : v < 16 ^ n) (hw : w < 16 ^ n)
    (h : hexDigits n v = hexDigits n w) : v = w := by
  induction n generalizing v w with
  | zero => omega
  | succ n ih =>
    rw [pow_succ] at hv hw
    obtain ⟨hhigh, hlow⟩ := append_inj' h rfl
    have hdigit : ∀ a < 16, ∀ b < 16, Nat.digitChar a = Nat.digitChar b → a = b := by decide
    have hlow := hdigit (v % 16) (by omega) (w % 16) (by omega) (singleton_inj.mp hlow)
    have hhigh := ih (by omega) (by omega) hhigh
    omega

@[simp] theorem hexDigits_length (n v : Nat) : (hexDigits n v).length = n := by
  induction n generalizing v with
  | zero => rfl
  | succ n ih => simp only [hexDigits, length_append, ih, length_singleton]

theorem pathFor_injective (st : FileStore) : Function.Injective st.pathFor := by
  rintro ⟨⟨t⟩, k⟩ ⟨⟨t'⟩, k'⟩ h
  have h := (List.cons.inj (append_cancel_left h)).2
  obtain ⟨htype, h⟩ := append_inj h (by simp)
  obtain ⟨hkey, _⟩ := append_inj (List.cons.inj h).2 (by simp)
  have ht : t = t' := UInt64.toNat_inj.mp (hexDigits_inj t.toNat_lt t'.toNat_lt htype)
  have hk : k = k' := UInt64.toNat_inj.mp (hexDigits_inj k.toNat_lt k'.toNat_lt hkey)
  rw [ht, hk]

theorem file_put (st : FileStore) (id : ActorId) (s : Slot) :
    (st.put id s).disk.lookup (st.pathFor id) = s.file := by
  cases hs : s.file with
  | none => simp only [put, hs]; exact lookup_erase _ _
  | some file => simp only [put, hs]; exact lookup_insert _

theorem file_put_ne (st : FileStore) {id other : ActorId} (s : Slot) (h : other ≠ id) :
    (st.put id s).disk.lookup (st.pathFor other) = st.disk.lookup (st.pathFor other) := by
  have hpath : st.pathFor other ≠ st.pathFor id := fun hp => h (st.pathFor_injective hp)
  cases hs : s.file with
  | none => simp only [put, hs]; exact lookup_erase_ne hpath
  | some file => simp only [put, hs]; exact lookup_insert_ne hpath

@[simp] theorem entry_put (pal : Pal) (st : FileStore) (id : ActorId) (s : Slot) :
    (st.put id s).entry pal id = s := by
  have hfile : (st.put id s).disk.lookup ((st.put id s).pathFor id) = s.file := st.file_put id s
  have htable : (st.put id s).table.lookup id = some s.entry := lookup_insert _
  rw [entry, htable, hfile]

theorem entry_put_ne (pal : Pal) (st : FileStore) {id other : ActorId} (s : Slot) (h : other ≠ id) :
    (st.put id s).entry pal other = st.entry pal other := by
  have hfile : (st.put id s).disk.lookup ((st.put id s).pathFor other) = st.disk.lookup (st.pathFor other) :=
    st.file_put_ne s h
  have htable : (st.put id s).table.lookup other = st.table.lookup other := lookup_insert_ne h
  rw [entry, entry, htable, hfile]

theorem entry_sound {pal : Pal} (hp : Sound pal) (st : FileStore) (id : ActorId) :
    st.entry pal id = st.entry {} id := by
  simp only [entry, load, replay, readAll, settle, fileTruncate, hp.opens, hp.reads, hp.truncates]

theorem reopen_put (pal : Pal) (st : FileStore) (id : ActorId) (s : Slot) :
    (st.put id s).reopen.entry pal id = load pal s.file := congrArg (load pal) (st.file_put id s)

theorem reopen_put_ne (pal : Pal) (st : FileStore) {id other : ActorId} (s : Slot) (h : other ≠ id) :
    (st.put id s).reopen.entry pal other = st.reopen.entry pal other :=
  congrArg (load pal) (st.file_put_ne s h)

theorem reopen_holds {st : FileStore} {id : ActorId} {e : StoreEntry} {stale : List UInt8}
    (h : (st.entry {} id).Holds e stale) (ht : st.table.lookup id ≠ none → Torn stale) :
    ∃ stale', (stale' = [] ∨ stale' = stale) ∧ (st.reopen.entry {} id).Holds e stale' := by
  have hreopen : st.reopen.entry {} id = load {} (st.disk.lookup (st.pathFor id)) := rfl
  cases hl : st.table.lookup id with
  | none =>
    refine ⟨stale, Or.inr rfl, ?_⟩
    have hsame : st.entry {} id = load {} (st.disk.lookup (st.pathFor id)) := by simp only [entry, hl]
    rwa [hreopen, ← hsame]
  | some entry' =>
    refine ⟨[], Or.inl rfl, ?_⟩
    have hfile : (st.entry {} id).file = st.disk.lookup (st.pathFor id) := by simp only [entry, hl]
    rw [hreopen, ← hfile]
    exact load_holds healthy h.recovers (ht (by simp [hl]))

end Quark.FileStore
