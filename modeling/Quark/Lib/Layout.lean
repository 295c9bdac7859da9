import Quark.Lib.Bytes

/-! Fields of a fixed width, laid end to end: what is written in one is read from it, and the bytes
of a field are what is written for the value read from them. -/

structure Layout (A : Type) where
  width : Nat
  put : A → List UInt8
  get : List UInt8 → A
  put_length : ∀ v, (put v).length = width
  get_put : ∀ v rest, get (put v ++ rest) = v
  put_get : ∀ {bs : List UInt8}, width ≤ bs.length → put (get bs) = bs.take width

namespace Layout

open List Bytes

variable {A B : Type} {bs rest : List UInt8}

/-- A byte string begins with a value's field exactly when the value is read there. -/
theorem eq_put_append_iff (L : Layout A) {v : A} :
    bs = L.put v ++ rest ↔ L.width ≤ bs.length ∧ L.get bs = v ∧ bs.drop L.width = rest := by
  constructor
  · rintro rfl
    refine ⟨?_, L.get_put v rest, drop_left' (L.put_length v)⟩
    rw [length_append, L.put_length]
    exact Nat.le_add_right _ _
  · rintro ⟨hlen, rfl, rfl⟩
    rw [L.put_get hlen, take_append_drop]

theorem eq_put_iff (L : Layout A) {v : A} : bs = L.put v ↔ bs.length = L.width ∧ L.get bs = v := by
  rw [← append_nil (L.put v), L.eq_put_append_iff, drop_eq_nil_iff, Nat.le_antisymm_iff]
  tauto

/-- Two fields, one after the other. -/
def seq (L : Layout A) (M : Layout B) : Layout (A × B) where
  width := L.width + M.width
  put v := L.put v.1 ++ M.put v.2
  get bs := (L.get bs, M.get (bs.drop L.width))
  put_length v := by rw [length_append, L.put_length, M.put_length]
  get_put v rest := by
    rw [append_assoc, L.get_put, drop_left' (L.put_length v.1), M.get_put]
  put_get hlen := by
    rw [L.put_get (by omega), M.put_get (by rw [length_drop]; omega), take_add]

def number (n : Nat) (A : Type) (toNat : A → Nat) (ofNat : Nat → A) (hof : ∀ v, ofNat (toNat v) = v)
    (hto : ∀ k < 256 ^ n, toNat (ofNat k) = k) (hlt : ∀ v, toNat v < 256 ^ n) : Layout A where
  width := n
  put v := leBytes n (toNat v)
  get bs := ofNat (leValue (bs.take n))
  put_length _ := leBytes_length n _
  get_put v rest := by
    rw [take_left' (leBytes_length n _), leValue_leBytes, Nat.mod_eq_of_lt (hlt v), hof]
  put_get {bs} hlen := by
    have hsize : (bs.take n).length = n := length_take_of_le hlen
    have hvalue := leValue_lt (bs.take n)
    have hback := leBytes_leValue (bs.take n)
    rw [hsize] at hvalue hback
    rw [hto _ hvalue, hback]

def u8 : Layout UInt8 :=
  number 1 UInt8 UInt8.toNat UInt8.ofNat (fun _ => UInt8.ofNat_toNat) (fun _ hk => UInt8.toNat_ofNat_of_lt' hk)
    UInt8.toNat_lt

theorem put_u8 (v : UInt8) : u8.put v = [v] := congrArg (· :: []) UInt8.ofNat_toNat

def u16 : Layout UInt16 :=
  number 2 UInt16 UInt16.toNat UInt16.ofNat (fun _ => UInt16.ofNat_toNat) (fun _ hk => UInt16.toNat_ofNat_of_lt' hk)
    UInt16.toNat_lt

def u32 : Layout UInt32 :=
  number 4 UInt32 UInt32.toNat UInt32.ofNat (fun _ => UInt32.ofNat_toNat) (fun _ hk => UInt32.toNat_ofNat_of_lt' hk)
    UInt32.toNat_lt

def u64 : Layout UInt64 :=
  number 8 UInt64 UInt64.toNat UInt64.ofNat (fun _ => UInt64.ofNat_toNat) (fun _ hk => UInt64.toNat_ofNat_of_lt' hk)
    UInt64.toNat_lt

/-- `n` bytes as they are. Bytes that are missing are read as zeros. -/
def octets (n : Nat) : Layout { bs : List UInt8 // bs.length = n } where
  width := n
  put v := v.val
  get bs := ⟨(bs ++ List.replicate n 0).take n, by
    rw [length_take, length_append, length_replicate]
    omega⟩
  put_length v := v.property
  get_put v rest := by
    apply Subtype.ext
    change (v.val ++ rest ++ List.replicate n 0).take n = v.val
    rw [append_assoc, take_left' v.property]
  put_get hlen := take_append_of_le_length hlen

theorem octets_get {n : Nat} (hlen : n ≤ bs.length) (h : (bs.take n).length = n) :
    (octets n).get bs = ⟨bs.take n, h⟩ :=
  Subtype.ext (take_append_of_le_length hlen)

end Layout
