import Quark.EnrolWire

/-! The text of a join code: base32 gives a byte string its one spelling, and the typed form adds
only dashes, spaces and letter case. -/
namespace Quark.Enrol.Wire

open List Option UInt32 BitString

def digitChar (d : Nat) : UInt8 := kB32.getD d 0

def spell (digits : List Nat) : List UInt8 := digits.map digitChar

theorem letter_eq (v : UInt32) : letter v = digitChar (v.toNat % 2 ^ 5) := by
  rw [letter, digitChar, UInt32.toNat_and]
  exact congrArg (kB32.getD · 0) (Nat.and_two_pow_sub_one_eq_mod v.toNat 5)

theorem digitValue_digitChar {d : Nat} (h : d < 32) : digitValue (digitChar d) = some (UInt32.ofNat d) := by
  revert d
  decide

theorem digitChar_digitValue {ch : UInt8} {v : UInt32} (h : digitValue ch = some v) :
    v.toNat < 2 ^ 5 ∧ digitChar v.toNat = ch := by
  have hall : ∀ n < 256, (digitValue (UInt8.ofNat n)).all fun v =>
      decide (v.toNat < 2 ^ 5 ∧ digitChar v.toNat = UInt8.ofNat n) := by
    decide +kernel
  have hch := hall ch.toNat ch.toNat_lt
  rw [UInt8.ofNat_toNat, h, all_some] at hch
  exact of_decide_eq_true hch

theorem drain_spells (acc : UInt32) (bits : Nat) (hbits : bits ≤ 32) : ∃ digits, (drain acc bits).1 = spell digits ∧
    (∀ d ∈ digits, d < 2 ^ 5) ∧ (drain acc bits).2 < 5 ∧
    words 5 digits ++ held (drain acc bits).2 acc = held bits acc := by
  induction bits using drain.induct (acc) with
  | case1 bits ih =>
    obtain ⟨digits, hout, hlt, hleft, hbitstring⟩ := ih (by omega)
    refine ⟨((acc >>> UInt32.ofNat bits).toNat % 2 ^ 5) :: digits, ?_, ?_, hleft, ?_⟩
    · rw [drain, hout, letter_eq]
      rfl
    · exact forall_mem_cons.mpr ⟨Nat.mod_lt _ (by decide), hlt⟩
    · have hsplit : held (bits + 5) acc = held 5 (acc >>> UInt32.ofNat bits) ++ held bits acc := by
        rw [add_comm, held_split (by omega)]
      rw [words_cons, append_assoc, word_mod (Nat.le_refl 5)]
      apply Eq.trans _ hsplit.symm
      exact congrArg (held 5 (acc >>> UInt32.ofNat bits) ++ ·) hbitstring
  | case2 bits hsmall =>
    have hdrain : drain acc bits = ([], bits) := by
      rw [drain]
      exact hsmall
    have hlt : bits < 5 := by
      by_contra hge
      exact hsmall (bits - 5) (by omega)
    rw [hdrain]
    exact ⟨[], rfl, by simp, hlt, rfl⟩

def octets (bs : List UInt8) : List Nat := bs.map UInt8.toNat

theorem octets_lt {bs : List UInt8} : ∀ v ∈ octets bs, v < 2 ^ 8 := by
  intro v hv
  obtain ⟨b, -, rfl⟩ := mem_map.mp hv
  exact b.toNat_lt

theorem base32From_spells (bs : List UInt8) : ∀ (acc : UInt32) (bits : Nat), bits < 5 →
    ∃ digits, base32From acc bits bs = spell digits ∧ (∀ d ∈ digits, d < 2 ^ 5) ∧
      ∃ pad < 5, words 5 digits = held bits acc ++ words 8 (octets bs) ++ List.replicate pad false := by
  induction bs with
  | nil =>
    intro acc bits hbits
    rcases Nat.eq_zero_or_pos bits with rfl | hpos
    · exact ⟨[], rfl, by simp, 0, by decide, rfl⟩
    · refine ⟨[(acc <<< UInt32.ofNat (5 - bits)).toNat % 2 ^ 5], ?_, ?_, 5 - bits, by omega, ?_⟩
      · rw [base32From, if_pos hpos, letter_eq]
        rfl
      · exact forall_mem_singleton.mpr (Nat.mod_lt _ (by decide))
      · have hpush := @held_shiftLeft (5 - bits) bits acc (by omega) (by omega)
        rw [Nat.add_sub_of_le hbits.le] at hpush
        rw [words_cons, words_nil, word_mod (Nat.le_refl 5)]
        rw [octets, map_nil, words_nil, append_nil, append_nil]
        exact hpush
  | cons x rest ih =>
    intro acc bits hbits
    have hpush : held (bits + 8) (acc <<< 8 ||| x.toUInt32) = held bits acc ++ word 8 x.toNat :=
      held_push (m := 8) (by decide) (by omega) x.toNat_lt
    obtain ⟨front, hout, hfront, hleft, hdrained⟩ := drain_spells (acc <<< 8 ||| x.toUInt32) (bits + 8) (by omega)
    obtain ⟨back, hback, hlt, pad, hpad, hwords⟩ := ih (acc <<< 8 ||| x.toUInt32) _ hleft
    refine ⟨front ++ back, ?_, ?_, pad, hpad, ?_⟩
    · rw [base32From, hout, hback]
      exact map_append.symm
    · exact forall_mem_append.mpr ⟨hfront, hlt⟩
    · have hocts : words 8 (octets (x :: rest)) = word 8 x.toNat ++ words 8 (octets rest) := words_cons _
      rw [words_append, hwords, hocts, ← append_assoc, ← append_assoc, hdrained, hpush]
      simp only [append_assoc]

theorem base32_regroups (bs : List UInt8) : ∃ digits, base32 bs = spell digits ∧ Regroups 5 8 digits (octets bs) := by
  obtain ⟨digits, hout, hlt, pad, hpad, hwords⟩ := base32From_spells bs 0 0 (by decide)
  exact ⟨digits, hout, hlt, octets_lt, pad, hpad, hwords⟩

theorem masked_eq_zero {acc : UInt32} {bits : Nat} (hbits : bits < 32) :
    acc &&& ((1 <<< UInt32.ofNat bits) - 1) = 0 ↔ held bits acc = List.replicate bits false := by
  have hone : ((1 : UInt32) <<< UInt32.ofNat bits).toNat = 2 ^ bits := by
    have hlt : 2 ^ bits < 2 ^ 32 := Nat.pow_lt_pow_right (by decide) hbits
    rw [UInt32.toNat_shiftLeft, shift_amount hbits, UInt32.toNat_one, Nat.one_shiftLeft, Nat.mod_eq_of_lt hlt]
  have hmask : ((1 <<< UInt32.ofNat bits) - 1 : UInt32).toNat = 2 ^ bits - 1 := by
    rw [UInt32.toNat_sub_of_le, hone, UInt32.toNat_one]
    rw [UInt32.le_iff_toNat_le, hone, UInt32.toNat_one]
    exact Nat.one_le_two_pow
  rw [held, word_eq_zeros, ← UInt32.toNat_inj, UInt32.toNat_and, hmask, Nat.and_two_pow_sub_one_eq_mod,
    UInt32.toNat_zero]

theorem octet_first {acc : UInt32} {bits : Nat} (hlow : 8 ≤ bits) (hhigh : bits < 32) :
    held bits acc = word 8 (acc >>> UInt32.ofNat (bits - 8)).toUInt8.toNat ++ held (bits - 8) acc := by
  have hsplit := @held_split 8 (bits - 8) acc (by omega)
  rw [Nat.add_sub_of_le hlow] at hsplit
  rw [hsplit, toNat_toUInt8, word_mod (Nat.le_refl 8), held]

/-- Reading on with `bits` bits held back: the text spells what is held and what is read, no byte
more, and only zeros are left over. -/
theorem unbase32From_eq_some {text : List UInt8} : ∀ {acc : UInt32} {bits : Nat} {bs : List UInt8}, bits < 8 →
    (unbase32From acc bits text = some bs ↔ ∃ digits, text = spell digits ∧ (∀ d ∈ digits, d < 2 ^ 5) ∧
      ∃ pad < 5, held bits acc ++ words 5 digits = words 8 (octets bs) ++ List.replicate pad false) := by
  induction text with
  | nil =>
    intro acc bits bs hbits
    have hdone : unbase32From acc bits [] = some bs ↔
        (bits < 5 ∧ held bits acc = List.replicate bits false) ∧ bs = [] := by
      rw [unbase32From, ← masked_eq_zero (by omega)]
      split
      · rename_i h
        rw [some.injEq, eq_comm, and_iff_right h]
      · rename_i h
        simp only [h, false_and, reduceCtorEq]
    rw [hdone]
    constructor
    · rintro ⟨⟨hlt, hzeros⟩, rfl⟩
      refine ⟨[], rfl, by simp, bits, hlt, ?_⟩
      rw [hzeros]
      exact append_nil _
    · rintro ⟨digits, hnil, -, pad, hpad, hwords⟩
      obtain rfl := map_eq_nil_iff.mp hnil.symm
      rw [words_nil, append_nil] at hwords
      have hlen := congrArg List.length hwords
      rw [held_length, length_append, words_length, length_replicate, octets, length_map] at hlen
      obtain rfl : bs = [] := length_eq_zero_iff.mp (by omega)
      obtain rfl : bits = pad := by simpa using hlen
      exact ⟨⟨hpad, hwords⟩, rfl⟩
  | cons ch rest ih =>
    intro acc bits bs hbits
    have hpush : ∀ {v : UInt32}, v.toNat < 2 ^ 5 → held (bits + 5) (acc <<< 5 ||| v) = held bits acc ++
        word 5 v.toNat :=
      fun hv => held_push (m := 5) (by decide) (by omega) hv
    rw [unbase32From]
    constructor
    · intro h
      obtain ⟨v, hv, hrest⟩ := bind_eq_some_iff.mp h
      obtain ⟨hlt, rfl⟩ := digitChar_digitValue hv
      dsimp only at hrest
      split at hrest
      · rename_i hfull
        obtain ⟨tail, htail, rfl⟩ := map_eq_some_iff.mp hrest
        obtain ⟨digits, rfl, hdigits, pad, hpad, hwords⟩ := (ih (by omega)).mp htail
        refine ⟨v.toNat :: digits, rfl, forall_mem_cons.mpr ⟨hlt, hdigits⟩, pad, hpad, ?_⟩
        rw [words_cons, ← append_assoc, ← hpush hlt, octet_first hfull (by omega), append_assoc, hwords,
          ← append_assoc]
        rfl
      · obtain ⟨digits, rfl, hdigits, pad, hpad, hwords⟩ := (ih (by omega)).mp hrest
        refine ⟨v.toNat :: digits, rfl, forall_mem_cons.mpr ⟨hlt, hdigits⟩, pad, hpad, ?_⟩
        rw [words_cons, ← append_assoc, ← hpush hlt, hwords]
    · rintro ⟨digits, htext, hdigits, pad, hpad, hwords⟩
      obtain ⟨d, ds, rfl, rfl, rfl⟩ := map_eq_cons_iff.mp htext.symm
      obtain ⟨hd, hds⟩ := forall_mem_cons.mp hdigits
      have hv : (UInt32.ofNat d).toNat = d := toNat_ofNat_of_lt' (by exact lt_trans hd (by decide))
      have hheld := hpush (v := UInt32.ofNat d) (by rwa [hv])
      rw [hv] at hheld
      rw [words_cons, ← append_assoc, ← hheld] at hwords
      rw [digitValue_digitChar hd, bind_some]
      dsimp only
      split
      · rename_i hfull
        rw [octet_first hfull (by omega), append_assoc] at hwords
        match bs, hwords with
        | [], hwords =>
          have hlen := congrArg List.length hwords
          simp [octets] at hlen
          omega
        | b :: bs, hwords =>
          rw [octets, map_cons, words_cons, append_assoc] at hwords
          obtain ⟨hhead, htail⟩ := append_inj hwords (by rw [word_length, word_length])
          have hb := UInt8.toNat_inj.mp (word_inj (UInt8.toNat_lt _) b.toNat_lt hhead)
          rw [hb, (ih (by omega)).mpr ⟨ds, rfl, hds, pad, hpad, htail⟩, map_some]
      · exact (ih (by omega)).mpr ⟨ds, rfl, hds, pad, hpad, hwords⟩

theorem unbase32_eq_some {text bs : List UInt8} : unbase32 text = some bs ↔ text = base32 bs := by
  obtain ⟨digits, hout, hregroups⟩ := base32_regroups bs
  rw [unbase32, unbase32From_eq_some (by decide), hout]
  constructor
  · rintro ⟨digits', rfl, hlt, hspelled⟩
    rw [Regroups.digits_unique ⟨hlt, octets_lt, hspelled⟩ hregroups]
  · rintro rfl
    exact ⟨digits, rfl, hregroups.digits_lt, hregroups.spelled⟩

theorem base32_length_le (bs : List UInt8) : 5 * (base32 bs).length < 8 * bs.length + 5 := by
  obtain ⟨digits, hout, -, -, pad, hpad, hwords⟩ := base32_regroups bs
  have hlen := congrArg List.length hwords
  rw [words_length, length_append, words_length, length_replicate, octets, length_map] at hlen
  rw [hout, spell, length_map]
  omega

def Plain (ch : UInt8) : Prop := ch ≠ '-'.toUInt8 ∧ ch ≠ ' '.toUInt8 ∧ upper ch = ch

theorem plain_digitChar {d : Nat} (h : d < 32) : Plain (digitChar d) := by
  unfold Plain
  revert d
  decide

theorem plain_base32 (bs : List UInt8) : ∀ ch ∈ base32 bs, Plain ch := by
  obtain ⟨digits, hout, hlt, -⟩ := base32_regroups bs
  rw [hout]
  exact forall_mem_map.mpr fun d hd => plain_digitChar (hlt d hd)

theorem flattened_cons_plain {ch : UInt8} {text : List UInt8} (h : Plain ch) :
    flattened (ch :: text) = ch :: flattened text := by
  obtain ⟨hdash, hspace, hupper⟩ := h
  rw [flattened, filter_cons_of_pos (by simp only [ne_eq, hdash, hspace, not_false_eq_true, and_self, decide_true]),
    map_cons, hupper, flattened]

theorem flattened_dash (text : List UInt8) : flattened ('-'.toUInt8 :: text) = flattened text := rfl

theorem flattened_groupedFrom {flat : List UInt8} (h : ∀ ch ∈ flat, Plain ch) (i : Nat) :
    flattened (groupedFrom i flat) = flat := by
  induction flat generalizing i with
  | nil => rfl
  | cons ch rest ih =>
    obtain ⟨hch, hrest⟩ := forall_mem_cons.mp h
    rw [groupedFrom]
    split
    · rw [flattened_dash, flattened_cons_plain hch, ih hrest]
    · rw [flattened_cons_plain hch, ih hrest]

theorem groupedFrom_length_le (flat : List UInt8) (i : Nat) : (groupedFrom i flat).length ≤ 2 * flat.length := by
  induction flat generalizing i with
  | nil => exact Nat.zero_le _
  | cons ch rest ih =>
    have htail := ih (i + 1)
    rw [groupedFrom]
    split <;> simp only [length_cons] <;> omega

end Quark.Enrol.Wire
