import Quark.TaggedCodec

/-! The round trip of the tagged codec: the size, the write and the read pass meet at the bytes of a value. -/
namespace Quark.Wire

open List Bytes

def prefixed (bs : List UInt8) : List UInt8 := Leb128.put (UInt64.ofNat bs.length) ++ bs

mutual

def valueBytes : (t : Ty) → t.Val → List UInt8
  | .bool, m => Leb128.put (bif m then 1 else 0)
  | .enum u, m => Leb128.put (u.toWord m)
  | .double, m => putU64 (.ofBitVec m)
  | .float, m => putU32 (.ofBitVec m)
  | .int w signed, m => Leb128.put (intToWord w signed m)
  | .string, m => prefixed m
  | .vector t, m => prefixed (m.flatMap fun e => valueBytes t e)
  | .object _ _ fs, m => prefixed (objectBytes fs m)

def objectBytes : (fs : Fields) → fs.Val → List UInt8
  | .nil, _ => []
  | .cons tag t rest, m => Leb128.put (keyOf tag t) ++ (valueBytes t m.1 ++ objectBytes rest m.2)

end

section

variable {v : UInt64} {bs : List UInt8}

theorem ulebGroups_length (n v : Nat) : ulebGroups n v = (Leb128.putGroups n v).length := by
  induction n generalizing v with
  | zero => rfl
  | succ n ih =>
    rw [ulebGroups, Leb128.putGroups]
    split
    · rfl
    · rw [length_cons, ih]

theorem ulebSize_length (v : UInt64) : ulebSize v = (Leb128.put v).length := ulebGroups_length 10 v.toNat

theorem sum_length {α : Type} {size : α → Nat} {bytes : α → List UInt8} (h : ∀ e, size e = (bytes e).length)
    (es : List α) : (es.map size).sum = (es.flatMap bytes).length := by
  rw [length_flatMap]
  exact congrArg List.sum (map_congr_left fun e _ => h e)

theorem prefixedSize_length : prefixedSize bs.length = (prefixed bs).length := by
  rw [prefixedSize, prefixed, length_append, ulebSize_length]

mutual

theorem size_value : (t : Ty) → (m : t.Val) → taggedValueSize t m = (valueBytes t m).length
  | .bool, m => by
    unfold taggedValueSize valueBytes
    cases m <;> decide
  | .enum u, m => ulebSize_length _
  | .double, m => (putU64_length _).symm
  | .float, m => (putU32_length _).symm
  | .int w signed, m => ulebSize_length _
  | .string, m => prefixedSize_length
  | .vector t, m => by
    have hsum := sum_length (fun e => size_value t e) m
    exact (congrArg prefixedSize hsum).trans prefixedSize_length
  | .object _ _ fs, m => by rw [taggedValueSize, valueBytes, size_object fs m, prefixedSize_length]

theorem size_object : (fs : Fields) → (m : fs.Val) → taggedObjectSize fs m = (objectBytes fs m).length
  | .nil, _ => rfl
  | .cons tag t rest, m => by
    rw [taggedObjectSize, objectBytes, length_append, length_append, ulebSize_length, size_value t m.1,
      size_object rest m.2, add_assoc]

end

end

namespace ByteWriter

def Fits (w : ByteWriter) (bs : List UInt8) : Prop := w.written.length + bs.length ≤ w.cap

def extend (w : ByteWriter) (bs : List UInt8) : ByteWriter := { w with written := w.written ++ bs }

variable {w : ByteWriter} {b : UInt8} {bs cs : List UInt8}

theorem Fits.split (h : w.Fits (bs ++ cs)) : w.Fits bs ∧ (w.extend bs).Fits cs := by
  unfold Fits extend at *
  simp only [length_append] at h ⊢
  omega

theorem extend_extend : (w.extend bs).extend cs = w.extend (bs ++ cs) := by
  simp only [extend, append_assoc]

theorem putByte_fits (h : w.Fits [b]) : w.putByte b = (true, w.extend [b]) := by
  unfold Fits at h
  rw [length_singleton] at h
  rw [putByte, if_neg (by omega)]
  rfl

theorem putBytes_fits (h : w.Fits bs) : w.putBytes bs = (true, w.extend bs) := by
  unfold Fits at h
  rw [putBytes, if_neg (by omega)]
  rfl

theorem putEach_fits (h : w.Fits bs) : w.putEach bs = (true, w.extend bs) := by
  induction bs generalizing w with
  | nil => simp [putEach, extend]
  | cons b bs ih =>
    obtain ⟨hb, hbs⟩ := @Fits.split w [b] bs h
    rw [putEach, putByte_fits hb]
    dsimp only
    rw [ih hbs, extend_extend]
    rfl

theorem putUleb_fits {v : UInt64} (h : w.Fits (Leb128.put v)) : w.putUleb v = (true, w.extend (Leb128.put v)) :=
  putEach_fits h

theorem writeEach_fits {α : Type} {write : α → ByteWriter → Bool × ByteWriter} {bytes : α → List UInt8} {es : List α}
    (hwrite : ∀ e w, w.ok = true → w.Fits (bytes e) → write e w = (true, w.extend (bytes e))) (hok : w.ok = true)
    (h : w.Fits (es.flatMap bytes)) : writeEach write w es = (true, w.extend (es.flatMap bytes)) := by
  induction es generalizing w with
  | nil => simp [writeEach, extend]
  | cons e es ih =>
    obtain ⟨he, hes⟩ := Fits.split h
    rw [writeEach, hwrite e w hok he]
    dsimp only
    rw [@ih (w.extend (bytes e)) hok hes, extend_extend]
    rfl

theorem prefixed_fits {n : Nat} {next : ByteWriter → Bool × ByteWriter} (hn : n = bs.length)
    (h : w.Fits (prefixed bs))
    (hnext : ∀ w', w'.ok = w.ok → w'.Fits bs → next w' = (true, w'.extend bs)) :
    andThen (w.putUleb (UInt64.ofNat n)) next = (true, w.extend (prefixed bs)) := by
  obtain ⟨hlen, hbs⟩ := Fits.split h
  rw [hn, putUleb_fits hlen, andThen, if_pos rfl]
  dsimp only
  rw [hnext (w.extend _) rfl hbs, extend_extend]
  rfl

end ByteWriter

open ByteWriter in
mutual

/-- Into a writer with room the write pass puts the bytes of the value. -/
theorem write_value : (t : Ty) → (m : t.Val) → (w : ByteWriter) → w.ok = true → w.Fits (valueBytes t m) →
    taggedWriteValue t m w = (true, w.extend (valueBytes t m))
  | .bool, _, _, _, h => putUleb_fits h
  | .enum _, _, _, _, h => putUleb_fits h
  | .double, _, _, _, h => putBytes_fits h
  | .float, _, _, _, h => putBytes_fits h
  | .int _ _, _, _, _, h => putUleb_fits h
  | .string, _, _, _, h => prefixed_fits rfl h fun _ _ hfits => putBytes_fits hfits
  | .vector t, m, w, hok, h => by
    have hsum := sum_length (fun e => size_value t e) m
    exact prefixed_fits hsum h fun w' hok' hfits =>
      writeEach_fits (fun e w hw he => write_value t e w hw he) (hok'.trans hok) hfits
  | .object _ _ fs, m, w, hok, h => by
    refine prefixed_fits (size_object fs m) h fun w' hok' hfits => ?_
    rw [write_fields fs m w' (hok'.trans hok) hfits, extend, hok', hok]

theorem write_fields : (fs : Fields) → (m : fs.Val) → (w : ByteWriter) → w.ok = true → w.Fits (objectBytes fs m) →
    taggedWriteFields fs m w = w.extend (objectBytes fs m)
  | .nil, _, w, _, _ => by simp [taggedWriteFields, objectBytes, extend]
  | .cons tag t rest, m, w, hok, h => by
    obtain ⟨hkey, h⟩ := Fits.split h
    obtain ⟨hvalue, hrest⟩ := Fits.split h
    rw [taggedWriteFields, putUleb_fits hkey, andThen, if_pos rfl]
    dsimp only
    rw [write_value t m.1 (w.extend _) hok hvalue,
      write_fields rest m.2 ((w.extend _).extend _) hok hrest, extend_extend,
      extend_extend, objectBytes]

end

/-! Words. -/

def signWord (s : Bool) : BitVec 64 := if s then BitVec.allOnes 64 else 0

theorem getLsbD_signWord (s : Bool) (i : Nat) : (signWord s).getLsbD i = (s && decide (i < 64)) := by
  cases s with
  | false => simp [signWord]
  | true => rw [signWord, if_pos rfl, BitVec.getLsbD_allOnes, Bool.true_and]

theorem getLsbD_zigzag (v : BitVec 64) (i : Nat) : (zigzag v).getLsbD i =
    ((decide (i < 64) && !decide (i < 1) && v.getLsbD (i - 1)) ^^ (v.msb && decide (i < 64))) := by
  unfold zigzag
  rw [BitVec.getLsbD_xor, BitVec.getLsbD_shiftLeft, BitVec.getLsbD_sshiftRight]
  by_cases hi : i < 64
  · by_cases h0 : i = 0
    · subst h0
      simp [BitVec.msb_eq_getLsbD_last]
    · simp [hi, show ¬ 63 + i < 64 by omega]
  · simp [hi]

theorem negate_low {s : Bool} {u : BitVec 64} (h : u.getLsbD 0 = s) : ~~~(u &&& 1) + 1 = signWord s := by
  have hlow : u &&& 1 = BitVec.setWidth 64 (BitVec.ofBool s) := by
    rw [← h]
    exact BitVec.and_one_eq_setWidth_ofBool_getLsbD
  rw [hlow]
  cases s <;> decide

theorem unzigzag_zigzag (v : BitVec 64) : unzigzag (zigzag v) = v := by
  have hlow : (zigzag v).getLsbD 0 = v.msb := by
    rw [getLsbD_zigzag]
    simp
  unfold unzigzag
  rw [negate_low hlow]
  refine BitVec.eq_of_getLsbD_eq fun i hi => ?_
  rw [BitVec.getLsbD_xor, BitVec.getLsbD_ushiftRight, getLsbD_zigzag, getLsbD_signWord]
  by_cases hlast : i = 63
  · subst hlast
    simp [BitVec.msb_eq_getLsbD_last]
  · have hnext : 1 + i < 64 := by omega
    simp [hi, hnext]

theorem setWidth_signExtend {n : Nat} (hn : n ≤ 64) (m : BitVec n) : (m.signExtend 64).setWidth n = m := by
  refine BitVec.eq_of_getLsbD_eq fun i hi => ?_
  rw [BitVec.getLsbD_setWidth, BitVec.getLsbD_signExtend]
  simp [hi, show i < 64 by omega]

theorem setWidth_setWidth {n : Nat} (hn : n ≤ 64) (m : BitVec n) : (m.setWidth 64).setWidth n = m := by
  rw [BitVec.setWidth_setWidth_of_le m hn, BitVec.setWidth_eq]

theorem Integral.ofWord_toWord : (u : Integral) → (m : u.Val) → u.ofWord (u.toWord m) = m
  | .bool, m => by
    cases m <;> decide
  | .int w true, m => setWidth_signExtend w.bits_le m
  | .int w false, m => setWidth_setWidth w.bits_le m

theorem intOfWord_intToWord (w : Width) (signed : Bool) (m : BitVec w.bits) :
    intOfWord w signed (intToWord w signed m) = m := by
  cases signed with
  | false => exact setWidth_setWidth w.bits_le m
  | true =>
    change (unzigzag (zigzag (m.signExtend 64))).setWidth w.bits = m
    rw [unzigzag_zigzag, setWidth_signExtend w.bits_le]

theorem keyOf_tag (tag : UInt32) (t : Ty) : UInt32.ofNat ((keyOf tag t).toNat / 8) = tag := by
  have htag := tag.toNat_lt
  have hwire : wireTypeOf t < 8 := by cases t <;> simp [wireTypeOf]
  rw [keyOf, UInt64.toNat_ofNat_of_lt' (show tag.toNat * 8 + wireTypeOf t < 2 ^ 64 by omega),
    show (tag.toNat * 8 + wireTypeOf t) / 8 = tag.toNat by omega, UInt32.ofNat_toNat]

/-! The read pass. -/

section

variable {α : Type} {bs rest tail : List UInt8}

theorem readPrefixed_prefixed {m : α} {read : List UInt8 → Option α} (hlen : bs.length < 2 ^ 64)
    (hread : read bs = some m) :
    readPrefixed (prefixed bs ++ rest) read = some (m, rest) := by
  have htoNat : (UInt64.ofNat bs.length).toNat = bs.length := UInt64.toNat_ofNat_of_lt' hlen
  rw [readPrefixed, prefixed, append_assoc, Leb128.get_put]
  dsimp only
  rw [htoNat, if_neg (by rw [length_append]; omega), take_left' rfl, drop_left' rfl, hread]
  rfl

theorem readEach_flatMap {bytes : α → List UInt8} {read : List UInt8 → Option (α × List UInt8)}
    {es done : List α} {n : Nat}
    (hread : ∀ e ∈ es, ∀ rest, read (bytes e ++ rest) = some (e, rest)) (hne : ∀ e, bytes e ≠ [])
    (hn : (es.flatMap bytes).length ≤ n) : readEach read n done (es.flatMap bytes) = some (done ++ es) := by
  induction es generalizing n done with
  | nil =>
    rw [append_nil]
    cases n <;> rfl
  | cons e es ih =>
    have hpos := length_pos_iff.mpr (hne e)
    rw [flatMap_cons, length_append] at hn
    obtain ⟨n, rfl⟩ : ∃ n', n = n' + 1 := ⟨n - 1, by omega⟩
    have hstep : readEach read (n + 1) done (bytes e ++ es.flatMap bytes) =
        (read (bytes e ++ es.flatMap bytes)).bind fun r => readEach read n (done ++ [r.1]) r.2 := by
      cases hbytes : bytes e with
      | nil => exact absurd hbytes (hne e)
      | cons b bs => rfl
    rw [flatMap_cons, hstep, hread e mem_cons_self, Option.bind_some,
      ih (fun e' he' => hread e' (mem_cons_of_mem _ he')) (by omega), append_assoc]
    rfl

theorem readFields_step {decode : UInt32 → α → List UInt8 → Decoded α} {key : UInt64} {out out' : α} {n : Nat}
    (h : decode (UInt32.ofNat (key.toNat / 8)) out rest = .read out' tail) :
    readFields decode (n + 1) out (Leb128.put key ++ rest) = readFields decode n out' tail := by
  have hget := Leb128.get_put key rest
  cases hput : Leb128.put key with
  | nil => exact absurd hput (Leb128.put_ne_nil key)
  | cons b bs =>
    rw [hput] at hget
    rw [cons_append] at hget ⊢
    rw [readFields, hget]
    dsimp only
    rw [h]

theorem Decoded.map_map {β γ : Type} (f : α → β) (g : β → γ) (d : Decoded α) :
    (d.map f).map g = d.map fun m => g (f m) := by
  cases d <;> rfl

theorem valueBytes_ne_nil (t : Ty) (m : t.Val) : valueBytes t m ≠ [] := by
  have hprefixed : ∀ bs, prefixed bs ≠ [] := fun bs hnil => Leb128.put_ne_nil _ (append_eq_nil_iff.mp hnil).1
  cases t with
  | bool => exact Leb128.put_ne_nil _
  | enum u => exact Leb128.put_ne_nil _
  | int w signed => exact Leb128.put_ne_nil _
  | double => exact ne_nil_of_length_eq_add_one (putU64_length _)
  | float => exact ne_nil_of_length_eq_add_one (putU32_length _)
  | string => exact hprefixed _
  | vector t => exact hprefixed _
  | object name salt fs => exact hprefixed _

end

section

variable {defaults : Defaults}

theorem prefixed_small {bs : List UInt8} (h : (prefixed bs).length < 2 ^ 64) : bs.length < 2 ^ 64 := by
  rw [prefixed, length_append] at h
  omega

theorem element_small {α : Type} {bytes : α → List UInt8} {es : List α} (h : (es.flatMap bytes).length < 2 ^ 64) :
    ∀ e ∈ es, (bytes e).length < 2 ^ 64 := by
  intro e he
  exact lt_of_le_of_lt (sublist_flatten_of_mem (mem_map_of_mem he)).length_le h

theorem map_get_put {α : Type} (f : UInt64 → α) (v : UInt64) (rest : List UInt8) :
    ((Leb128.get (Leb128.put v ++ rest)).map fun r => (f r.1, r.2)) = some (f v, rest) := by
  rw [Leb128.get_put, Option.map_some]

mutual

/-- The bytes of a value are read back, whatever stood in the member before. -/
theorem read_value : (t : Ty) → t.distinct = true → (out m : t.Val) → (valueBytes t m).length < 2 ^ 64 →
    (rest : List UInt8) → taggedReadValue defaults t out (valueBytes t m ++ rest) = some (m, rest)
  | .bool, _, _, m, _, rest => by
    rw [taggedReadValue, valueBytes, Leb128.get_put]
    cases m <;> rfl
  | .enum u, _, _, m, _, rest =>
    (map_get_put u.ofWord (u.toWord m) rest).trans (congrArg (fun v => some (v, rest)) (u.ofWord_toWord m))
  | .int w signed, _, _, m, _, rest =>
    (map_get_put (intOfWord w signed) (intToWord w signed m) rest).trans
      (congrArg (fun v => some (v, rest)) (intOfWord_intToWord w signed m))
  | .double, _, _, m, _, rest => by
    rw [taggedReadValue, valueBytes, if_neg (by rw [length_append, putU64_length]; omega), getU64_putU64,
      drop_left' (putU64_length _)]
  | .float, _, _, m, _, rest => by
    rw [taggedReadValue, valueBytes, if_neg (by rw [length_append, putU32_length]; omega), getU32_putU32,
      drop_left' (putU32_length _)]
  | .string, _, _, m, hsmall, rest => readPrefixed_prefixed (prefixed_small hsmall) rfl
  | .vector t, hdistinct, _, m, hsmall, rest => by
    have hcontent := prefixed_small hsmall
    refine readPrefixed_prefixed hcontent ?_
    exact readEach_flatMap (fun e he rest => read_value t hdistinct (defaults t) e (element_small hcontent e he) rest)
      (valueBytes_ne_nil t) le_rfl
  | .object _ _ fs, hdistinct, out, m, hsmall, rest =>
    readPrefixed_prefixed (prefixed_small hsmall) (read_fields fs hdistinct (taggedReadField defaults fs) (fun v => v)
      (fun _ _ m bs => by cases taggedReadField defaults fs _ m bs <;> rfl) _ out m le_rfl (prefixed_small hsmall))

/-- The members are read one after another; `plug` puts those still to come behind those already read. -/
theorem read_fields {α : Type} : (todo : Fields) → todo.distinct = true →
    (decode : UInt32 → α → List UInt8 → Decoded α) →
    (plug : todo.Val → α) →
    (∀ tag ∈ todo.tags, ∀ m bs, decode tag (plug m) bs = (taggedReadField defaults todo tag m bs).map plug) →
    (n : Nat) → (out m : todo.Val) → (objectBytes todo m).length ≤ n → (objectBytes todo m).length < 2 ^ 64 →
    readFields decode n (plug out) (objectBytes todo m) = some (plug m)
  | .nil, _, decode, plug, _, n, out, m, _, _ => by
    cases n <;> rfl
  | .cons tag t rest, hdistinct, decode, plug, hdecode, n, out, m, hn, hsmall => by
    obtain ⟨hnew, hrest⟩ : (tag ∉ rest.tags ∧ t.distinct = true) ∧ rest.distinct = true := by
      simpa [Fields.distinct] using hdistinct
    have hkey := length_pos_iff.mpr (Leb128.put_ne_nil (keyOf tag t))
    rw [objectBytes, length_append, length_append] at hn hsmall
    obtain ⟨n, rfl⟩ : ∃ n', n = n' + 1 := ⟨n - 1, by omega⟩
    have hfirst : decode tag (plug out) (valueBytes t m.1 ++ objectBytes rest m.2) =
        .read (plug (m.1, out.2)) (objectBytes rest m.2) := by
      rw [hdecode tag mem_cons_self, taggedReadField, if_pos rfl, read_value t hnew.2 out.1 m.1 (by omega)]
      rfl
    rw [objectBytes, readFields_step (by rw [keyOf_tag]; exact hfirst)]
    refine read_fields rest hrest decode (fun v => plug (m.1, v)) (fun tag' htag' v bs => ?_) n out.2 m.2 (by omega)
      (by omega)
    have hne : tag ≠ tag' := fun heq => hnew.1 (heq ▸ htag')
    have hlater : taggedReadField defaults (.cons tag t rest) tag' (m.1, v) bs =
        (taggedReadField defaults rest tag' v bs).map fun v => (m.1, v) := if_neg hne
    exact (hdecode tag' (mem_cons_of_mem _ htag') (m.1, v) bs).trans
      ((congrArg (Decoded.map plug) hlater).trans (Decoded.map_map _ _ _))

end

end

section

variable {d : DescribedType} {defaults : Defaults} {m : d.Val}

theorem decodeTagged_objectBytes (hsmall : (objectBytes d.fields m).length < 2 ^ 64) (out : d.Val) :
    decodeTagged defaults d (objectBytes d.fields m) out = .ok m := by
  have hread := read_fields d.fields d.distinct (taggedReadField defaults d.fields) (fun v => v)
    (fun tag _ m bs => by cases taggedReadField defaults d.fields tag m bs <;> rfl) _ out m le_rfl hsmall
  rw [decodeTagged, hread]

theorem encodeDurable_eq (d : DescribedType) (m : d.Val) :
    encodeDurable d m = .ok (durableHeader d.fingerprint d.schemaVersion ++ objectBytes d.fields m) := by
  have hsize := size_object d.fields m
  have hkey : (ByteWriter.mk (durableHeaderSize + taggedObjectSize d.fields m) [] true).Fits
      (putU64 d.fingerprint.value) := by
    simp only [ByteWriter.Fits, durableHeaderSize, length_nil, putU64_length]
    omega
  have hversion : ((ByteWriter.mk (durableHeaderSize + taggedObjectSize d.fields m) [] true).extend
      (putU64 d.fingerprint.value)).Fits (putU32 d.schemaVersion) := by
    simp only [ByteWriter.Fits, ByteWriter.extend, durableHeaderSize, nil_append, putU64_length, putU32_length]
    omega
  have hbody : (((ByteWriter.mk (durableHeaderSize + taggedObjectSize d.fields m) [] true).extend
      (putU64 d.fingerprint.value)).extend (putU32 d.schemaVersion)).Fits (objectBytes d.fields m) := by
    simp [ByteWriter.Fits, ByteWriter.extend, durableHeaderSize, hsize]
  unfold encodeDurable encodeRecord
  dsimp only
  rw [ByteWriter.putBytes_fits hkey]
  dsimp only
  rw [ByteWriter.putBytes_fits hversion]
  dsimp only
  rw [write_fields d.fields m _ rfl hbody]
  exact congrArg Except.ok (take_of_length_le le_rfl)

end

/-- Every object of every described type goes through its bytes and through its durable record. -/
theorem tagged_round_trip (d : DescribedType) (defaults : Defaults) (x : d.Obj) (out : d.Val) :
    (encodeTagged d x.1 (taggedObjectSize d.fields x.1)).1 = .ok (taggedObjectSize d.fields x.1) ∧
      (encodeTagged d x.1 (taggedObjectSize d.fields x.1)).2.length = taggedObjectSize d.fields x.1 ∧
      decodeTagged defaults d (encodeTagged d x.1 (taggedObjectSize d.fields x.1)).2 out = .ok x.1 ∧
      ∃ bytes, encodeDurable d x.1 = .ok bytes ∧ bytes.length = durableHeaderSize + taggedObjectSize d.fields x.1 ∧
        decodeDurable defaults d bytes = .ok x.1 := by
  have hsize := size_object d.fields x.1
  have hsmall : (objectBytes d.fields x.1).length < 2 ^ 64 := hsize ▸ x.2
  have hwrite : taggedWriteFields d.fields x.1 { cap := taggedObjectSize d.fields x.1 } =
      ByteWriter.extend { cap := taggedObjectSize d.fields x.1 } (objectBytes d.fields x.1) := by
    refine write_fields d.fields x.1 _ rfl ?_
    rw [ByteWriter.Fits, hsize]
    simp
  have hheader : (durableHeader d.fingerprint d.schemaVersion).length = durableHeaderSize := by
    rw [durableHeader, length_append, putU64_length, putU32_length]
    rfl
  refine ⟨?_, ?_, ?_, _, encodeDurable_eq d x.1, ?_, ?_⟩
  · rw [encodeTagged, hwrite]
    simp [ByteWriter.extend, hsize]
  · rw [encodeTagged, hwrite]
    simp [ByteWriter.extend, hsize]
  · rw [encodeTagged, hwrite]
    exact decodeTagged_objectBytes hsmall out
  · rw [length_append, hheader, hsize]
  · rw [decodeDurable, decodeRecord, peek_durableHeader]
    dsimp only
    rw [if_neg (fun hne => hne rfl), drop_left' hheader]
    exact decodeTagged_objectBytes hsmall _

def sampleType : DescribedType where
  name := "Sample"
  fields := .cons 7 (.int .w32 true) (.cons 1 .string (.cons 300 (.vector (.object "Point" none
    (.cons 2 .bool (.cons 1 (.enum (.int .w8 true)) .nil)))) (.cons 4 .double .nil)))
  distinct := rfl

example : decodeTagged Ty.zero sampleType (encodeTagged sampleType
    (BitVec.ofInt 32 (-3), [104, 105], [(true, BitVec.ofInt 8 (-1), ()), (false, 5#8, ())], 1#64, ()) 64).2
      (Ty.zero sampleType.type) =
    .ok (BitVec.ofInt 32 (-3), [104, 105], [(true, BitVec.ofInt 8 (-1), ()), (false, 5#8, ())], 1#64, ()) := by
  rfl

end Quark.Wire
