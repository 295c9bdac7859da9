import Quark.TaglessCodec

/-! What the checked tagless reader accepts: the bytes of every value within its bounds, and nothing the unchecked
reader would read differently. -/
namespace Quark.Tagless

open List Option Bytes

def SizedVector {α : Type} (sized : α → Prop) (m : List α) : Prop := m.length < 2 ^ 32 ∧ ∀ e ∈ m, sized e

def CappedVector {α : Type} (write : α → List UInt8) (capped : α → Prop) (m : List α) : Prop :=
  m.length ≤ kMaxTaglessElements ∧ ∀ e ∈ m, write e ≠ [] ∧ capped e

mutual

def Composite.Sized : (c : Composite) → c.Val → Prop
  | .string, m => List.length m < 2 ^ 32
  | .array size, m => List.length m < 2 ^ 32 ∧ List.length m * size < 2 ^ 64
  | .vector c, m => SizedVector c.Sized m
  | .object ms, m => ms.Sized m

def Members.Sized : (ms : Members) → ms.Val → Prop
  | .nil, _ => True
  | .trivial _ rest, m => rest.Sized m.2
  | .composite c rest, m => c.Sized m.1 ∧ rest.Sized m.2

end

mutual

/-- Vectors of elements that are not trivially copyable have at most `kMaxTaglessElements` of them, each of at least a
byte. -/
def Composite.Capped : (c : Composite) → c.Val → Prop
  | .string, _ => True
  | .array _, _ => True
  | .vector c, m => CappedVector (taglessWriteValue c) c.Capped m
  | .object ms, m => ms.Capped m

def Members.Capped : (ms : Members) → ms.Val → Prop
  | .nil, _ => True
  | .trivial _ rest, m => rest.Capped m.2
  | .composite c rest, m => c.Capped m.1 ∧ rest.Capped m.2

end

section

variable {α : Type} {bs rest : List UInt8} {n size : Nat}

theorem take_append (h : bs.length = n) : take n (bs ++ rest) = some (bs, rest) := by
  rw [take, if_neg (by rw [length_append]; omega), take_left' h, drop_left' h]

theorem readCount_putCount (h : n < 2 ^ 32) (rest : List UInt8) : readCount
    (putCount n ++ rest) = some (n, rest) := by
  rw [readCount, putCount, take_append (putU32_length _), map_some]
  have hget := getU32_putU32 (UInt32.ofNat n) []
  rw [append_nil] at hget
  rw [hget, UInt32.toNat_ofNat_of_lt' h]

theorem copyRaw_append (m : Raw size) (rest : List UInt8) : copyRaw size (m.1 ++ rest) = m := by
  obtain ⟨bs, rfl⟩ := m
  exact Subtype.ext (takeD_left bs rest 0)

theorem copyArray_flatMap (m : List (Raw size)) (rest : List UInt8) :
    copyArray size m.length (m.flatMap Subtype.val ++ rest) = m := by
  induction m with
  | nil => rfl
  | cons e m ih =>
    rw [length_cons, copyArray, flatMap_cons, append_assoc, copyRaw_append, drop_left' e.2, ih]

theorem flatMap_raw_length (m : List (Raw size)) : (m.flatMap Subtype.val).length = m.length * size := by
  induction m with
  | nil => exact (zero_mul _).symm
  | cons e m ih => rw [flatMap_cons, length_append, ih, e.2, length_cons, Nat.succ_mul, add_comm]

theorem readTimes_flatMap {read : List UInt8 → Option (α × List UInt8)} {write : α → List UInt8} (es : List α)
    (h : ∀ e ∈ es, ∀ rest, read (write e ++ rest) = some (e, rest)) (rest : List UInt8) :
    readTimes read es.length (es.flatMap write ++ rest) = some (es, rest) := by
  induction es with
  | nil => rfl
  | cons e es ih =>
    rw [length_cons, readTimes, flatMap_cons, append_assoc, h e mem_cons_self, bind_some,
      ih fun e he => h e (mem_cons_of_mem _ he)]
    rfl

theorem length_le_flatMap {write : α → List UInt8} {es : List α} (h : ∀ e ∈ es, write e ≠ []) :
    es.length ≤ (es.flatMap write).length := by
  induction es with
  | nil => exact Nat.le_refl 0
  | cons e es ih =>
    have hpos := length_pos_iff.mpr (h e mem_cons_self)
    have hle := ih fun e he => h e (mem_cons_of_mem _ he)
    rw [flatMap_cons, length_append, length_cons]
    omega

theorem readTimes_mono {read read' : List UInt8 → Option (α × List UInt8)}
    (h : ∀ bs r, read bs = some r → read' bs = some r) {r : List α × List UInt8}
    (hread : readTimes read n bs = some r) : readTimes read' n bs = some r := by
  induction n generalizing bs r with
  | zero => exact hread
  | succ n ih =>
    rw [readTimes] at hread ⊢
    obtain ⟨e, he, hrest⟩ := bind_eq_some_iff.mp hread
    obtain ⟨es, hes, heq⟩ := map_eq_some_iff.mp hrest
    rw [h bs e he, bind_some, ih hes, map_some, heq]

theorem putCount_room (bs : List UInt8) : ¬ (putCount n ++ bs).length < 4 := by
  rw [length_append, putCount, putU32_length]
  omega

theorem checked_string {m : List UInt8} (h : m.length < 2 ^ 32) (rest : List UInt8) :
    readStringChecked (writeString m ++ rest) = some (m, rest) := by
  rw [writeString, append_assoc, readStringChecked, if_neg (putCount_room _), readCount_putCount h,
    bind_some, if_neg (by rw [length_append]; omega), take_append rfl]

theorem checked_array {m : List (Raw size)} (h : m.length < 2 ^ 32) (hmemory : m.length * size < 2 ^ 64)
    (rest : List UInt8) : readArrayChecked size (writeArray m ++ rest) = some (m, rest) := by
  have hbytes : arrayBytes m.length size = (m.flatMap Subtype.val).length := by
    rw [arrayBytes, Nat.mod_eq_of_lt hmemory, flatMap_raw_length]
  have hdiv : ¬ (size ≠ 0 ∧ (m.flatMap Subtype.val).length / size ≠ m.length) := by
    rintro ⟨hsize, hne⟩
    rw [flatMap_raw_length, Nat.mul_div_cancel _ (pos_of_ne_zero hsize)] at hne
    exact hne rfl
  have hcopy := copyArray_flatMap m []
  rw [append_nil] at hcopy
  rw [writeArray, append_assoc, readArrayChecked, if_neg (putCount_room _), readCount_putCount h, bind_some,
    hbytes, if_neg hdiv, if_neg (by rw [length_append]; omega), take_append rfl, map_some, hcopy]

theorem checked_vector {read : List UInt8 → Option (α × List UInt8)} {write : α → List UInt8} {m : List α}
    (h : m.length < 2 ^ 32) (hcap : m.length ≤ kMaxTaglessElements) (hne : ∀ e ∈ m, write e ≠ [])
    (hread : ∀ e ∈ m, ∀ rest, read (write e ++ rest) = some (e, rest)) (rest : List UInt8) :
    readVectorChecked read (writeVector write m ++ rest) = some (m, rest) := by
  have hle := length_le_flatMap hne
  have hguard : ¬ (kMaxTaglessElements < m.length ∨ (m.flatMap write ++ rest).length < m.length) := by
    rw [length_append]
    omega
  rw [writeVector, append_assoc, readVectorChecked, if_neg (putCount_room _), readCount_putCount h,
    bind_some, if_neg hguard, readTimes_flatMap m hread]

theorem checked_refuses_long {read : List UInt8 → Option (α × List UInt8)} {write : α → List UInt8} {m : List α}
    (h : m.length < 2 ^ 32) (hlong : kMaxTaglessElements < m.length) (rest : List UInt8) :
    readVectorChecked read (writeVector write m ++ rest) = none := by
  rw [writeVector, append_assoc, readVectorChecked, if_neg (putCount_room _), readCount_putCount h,
    bind_some, if_pos (.inl hlong)]

theorem readString_of_checked {r : List UInt8 × List UInt8} (h : readStringChecked bs = some r) :
    readString bs = some r := by
  rw [readStringChecked] at h
  split at h
  · cases h
  · obtain ⟨count, hcount, h⟩ := bind_eq_some_iff.mp h
    split at h
    · cases h
    · rw [readString, hcount, bind_some, h]

theorem readArray_of_checked {r : List (Raw size) × List UInt8} (h : readArrayChecked size bs = some r) :
    readArray size bs = some r := by
  rw [readArrayChecked] at h
  split at h
  · cases h
  · obtain ⟨count, hcount, h⟩ := bind_eq_some_iff.mp h
    split at h
    · cases h
    · split at h
      · cases h
      · rw [readArray, hcount, bind_some, h]

theorem readVector_of_checked {read read' : List UInt8 → Option (α × List UInt8)}
    (hread : ∀ bs r, read bs = some r → read' bs = some r) {r : List α × List UInt8}
    (h : readVectorChecked read bs = some r) : readVector read' bs = some r := by
  rw [readVectorChecked] at h
  split at h
  · cases h
  · obtain ⟨count, hcount, h⟩ := bind_eq_some_iff.mp h
    split at h
    · cases h
    · rw [readVector, hcount, bind_some]
      exact readTimes_mono hread h

theorem size_string (m : List UInt8) : (writeString m).length = 4 + m.length := by
  rw [writeString, length_append, putCount, putU32_length]

theorem writeString_ne_nil (m : List UInt8) : writeString m ≠ [] := by
  intro hnil
  have hsize := size_string m
  rw [hnil, length_nil] at hsize
  omega

theorem size_array (m : List (Raw size)) : (writeArray m).length = 4 + m.length * size := by
  rw [writeArray, length_append, flatMap_raw_length, putCount, putU32_length]

theorem size_vector {write : α → List UInt8} {sizeOf : α → Nat} (h : ∀ e, (write e).length = sizeOf e) (m : List α) :
    (writeVector write m).length = 4 + (m.map sizeOf).sum := by
  rw [writeVector, length_append, length_flatMap, putCount, putU32_length]
  exact congrArg (fun s => 4 + List.sum s) (map_congr_left fun e _ => h e)

end

mutual

theorem size_value : (c : Composite) → (m : c.Val) → (taglessWriteValue c m).length = taglessValueSize c m
  | .string, m => size_string m
  | .array _, m => size_array m
  | .vector c, m => size_vector (size_value c) m
  | .object ms, m => size_object ms m

theorem size_object : (ms : Members) → (m : ms.Val) → (taglessWriteObject ms m).length = taglessObjectSize ms m
  | .nil, _ => rfl
  | .trivial size rest, m => by
    rw [taglessWriteObject, length_append, m.1.2, size_object rest m.2]
    rfl
  | .composite c rest, m => by
    rw [taglessWriteObject, length_append, size_value c m.1, size_object rest m.2]
    rfl

end

mutual

/-- The checked reader takes the bytes of a value within its bounds. -/
theorem checked_value : (c : Composite) → (m : c.Val) → c.Sized m → c.Capped m → (rest : List UInt8) →
    taglessReadValueChecked c (taglessWriteValue c m ++ rest) = some (m, rest)
  | .string, _, hsized, _, rest => checked_string hsized rest
  | .array _, _, hsized, _, rest => checked_array hsized.1 hsized.2 rest
  | .vector c, _, hsized, hcapped, rest =>
    checked_vector hsized.1 hcapped.1 (fun e he => (hcapped.2 e he).1)
      (fun e he rest => checked_value c e (hsized.2 e he) (hcapped.2 e he).2 rest) rest
  | .object ms, m, hsized, hcapped, rest => checked_object ms m hsized hcapped rest

theorem checked_object : (ms : Members) → (m : ms.Val) → ms.Sized m → ms.Capped m → (rest : List UInt8) →
    taglessReadObjectChecked ms (taglessWriteObject ms m ++ rest) = some (m, rest)
  | .nil, _, _, _, _ => rfl
  | .trivial size members, m, hsized, hcapped, rest => by
    rw [taglessWriteObject, append_assoc, taglessReadObjectChecked,
      if_neg (by rw [length_append, m.1.2]; omega), take_append m.1.2, bind_some,
      checked_object members m.2 hsized hcapped rest, map_some]
    have hcopy := copyRaw_append m.1 []
    rw [append_nil] at hcopy
    exact congrArg (fun v => some ((v, m.2), rest)) hcopy
  | .composite c members, m, hsized, hcapped, rest => by
    rw [taglessWriteObject, append_assoc, taglessReadObjectChecked, checked_value c m.1 hsized.1 hcapped.1,
      bind_some, checked_object members m.2 hsized.2 hcapped.2 rest]
    rfl

end

mutual

/-- What the checked reader accepts the unchecked one reads the same, inside the bytes. -/
theorem unchecked_value : (c : Composite) → (bs : List UInt8) → (r : c.Val × List UInt8) →
    taglessReadValueChecked c bs = some r → taglessReadValue c bs = some r
  | .string, _, _, h => readString_of_checked h
  | .array _, _, _, h => readArray_of_checked h
  | .vector c, _, _, h => readVector_of_checked (unchecked_value c) h
  | .object ms, bs, r, h => unchecked_object ms bs r h

theorem unchecked_object : (ms : Members) → (bs : List UInt8) → (r : ms.Val × List UInt8) →
    taglessReadObjectChecked ms bs = some r → taglessReadObject ms bs = some r
  | .nil, _, _, h => h
  | .trivial size members, bs, r, h => by
    rw [taglessReadObjectChecked] at h
    split at h
    · cases h
    · obtain ⟨m, hm, h⟩ := bind_eq_some_iff.mp h
      obtain ⟨s, hs, heq⟩ := map_eq_some_iff.mp h
      rw [taglessReadObject, hm, bind_some, unchecked_object members m.2 s hs, map_some, heq]
  | .composite c members, bs, r, h => by
    rw [taglessReadObjectChecked] at h
    obtain ⟨m, hm, h⟩ := bind_eq_some_iff.mp h
    obtain ⟨s, hs, heq⟩ := map_eq_some_iff.mp h
    rw [taglessReadObject, unchecked_value c bs m hm, bind_some, unchecked_object members m.2 s hs,
      map_some, heq]

end

section

variable {ms : Members}

/-- The checked decoder accepts what was encoded within its bounds; what it accepts the unchecked one decodes to the
same value, and reads only inside the bytes. -/
theorem tagless_round_trip (ms : Members) :
    (∀ x : ms.Val, ms.Sized x → ms.Capped x → (encodeTagless ms x).length = taglessSize ms x ∧
      decodeTaglessChecked ms (encodeTagless ms x) = some x) ∧
    ∀ bs x, decodeTaglessChecked ms bs = some x → ∃ n, n ≤ bs.length ∧ decodeTagless ms bs = some (x, n) := by
  refine ⟨fun x hsized hcapped => ⟨size_object ms x, ?_⟩, fun bs x h => ?_⟩
  · have hread := checked_object ms x hsized hcapped []
    rw [append_nil] at hread
    rw [decodeTaglessChecked, encodeTagless, hread]
    rfl
  · obtain ⟨r, hr, rfl⟩ := map_eq_some_iff.mp h
    refine ⟨bs.length - r.2.length, Nat.sub_le _ _, ?_⟩
    rw [decodeTagless, unchecked_object ms bs r hr]
    rfl

def roster : Members := .composite (.vector .string) (.trivial 4 .nil)

theorem tagless_round_trip_roster :
    (encodeTagless roster ([[65, 100], []], ⟨[1, 2, 3, 4], rfl⟩, ())).length =
        taglessSize roster ([[65, 100], []], ⟨[1, 2, 3, 4], rfl⟩, ()) ∧
      decodeTaglessChecked roster (encodeTagless roster ([[65, 100], []], ⟨[1, 2, 3, 4], rfl⟩, ())) =
        some ([[65, 100], []], ⟨[1, 2, 3, 4], rfl⟩, ()) := by
  refine (tagless_round_trip roster).1 ([[65, 100], []], ⟨[1, 2, 3, 4], rfl⟩,
    ()) ⟨⟨?_, ?_⟩, trivial⟩ ⟨⟨?_, ?_⟩, trivial⟩
  · exact (by decide : ([[65, 100], []] : List (List UInt8)).length < 2 ^ 32)
  · exact (by decide : ∀ e ∈ ([[65, 100], []] : List (List UInt8)), e.length < 2 ^ 32)
  · exact (by decide : ([[65, 100], []] : List (List UInt8)).length ≤ kMaxTaglessElements)
  · exact fun e _ => ⟨writeString_ne_nil e, trivial⟩

theorem decode_refuses_long {c : Composite} {m : List c.Val} (hcount : m.length < 2 ^ 32)
    (hlong : kMaxTaglessElements < m.length) :
    decodeTaglessChecked (.composite (.vector c) .nil)
    (encodeTagless (.composite (.vector c) .nil) (m, ())) = none := by
  have hrefused :=
    @checked_refuses_long c.Val (taglessReadValueChecked c) (taglessWriteValue c) m hcount hlong []
  unfold decodeTaglessChecked taglessReadObjectChecked
  exact congrArg (Option.map Prod.fst) (congrArg (fun o => Option.bind o _) hrefused)

/-- One name more than the cap, or one element without bytes: the decoder refuses what was encoded. -/
theorem encoded_vectors_refused :
    (∃ names : List (List UInt8), (Members.composite (.vector .string) .nil).Sized (names, ()) ∧
      decodeTaglessChecked (.composite (.vector .string) .nil)
        (encodeTagless (.composite (.vector .string) .nil) (names, ())) = none) ∧
    (Members.composite (.vector (.object .nil)) .nil).Sized ([()], ()) ∧
      decodeTaglessChecked (.composite (.vector (.object .nil)) .nil)
        (encodeTagless (.composite (.vector (.object .nil)) .nil) ([()], ())) = none := by
  have hlen : (List.replicate (kMaxTaglessElements + 1) ([] : List UInt8)).length = kMaxTaglessElements + 1 :=
    length_replicate
  refine ⟨⟨List.replicate (kMaxTaglessElements + 1) [], ⟨⟨?_, fun e he => ?_⟩, trivial⟩, decode_refuses_long ?_ ?_⟩,
    ⟨⟨(by decide : [()].length < 2 ^ 32), fun _ _ => trivial⟩, trivial⟩, rfl⟩
  · exact hlen.trans_lt (by decide)
  · exact (congrArg List.length (eq_of_mem_replicate he)).trans_lt (by decide)
  · exact hlen.trans_lt (by decide)
  · exact Nat.lt_of_lt_of_eq (Nat.lt_succ_self _) hlen.symm

end

end Quark.Tagless
