import Quark.TaggedRoundTrip

/-! Reading what another schema wrote: streams that carry the fields of a writer, and further fields among them, read
by a type that shares some of the tags. -/
namespace Quark.Wire

open List Option Bytes

def Payload (wire : Nat) (bs : List UInt8) : Prop :=
  (wire = 0 ∧ ∃ v, Leb128.get bs = some (v, [])) ∨ (wire = 1 ∧ bs.length = 8) ∨ (wire = 5 ∧ bs.length = 4) ∨
  (wire = 2 ∧ ∃ len content, Leb128.get bs = some (len, content) ∧ content.length = len.toNat)

/-- A key of a stream and the bytes behind it. -/
structure Item where
  key : UInt64
  payload : List UInt8
  deriving DecidableEq, Repr

namespace Item

def tag (i : Item) : Nat := i.key.toNat / 8

def narrow (i : Item) : UInt32 := UInt32.ofNat i.tag

def bytes (i : Item) : List UInt8 := Leb128.put i.key ++ i.payload

def WellFormed (i : Item) : Prop := Payload (i.key.toNat % 8) i.payload

def Unknown (tags : List UInt32) (i : Item) : Prop := i.WellFormed ∧ ∀ tag ∈ tags, tag.toNat ≠ i.tag

def Unclashed (tags : List UInt32) (i : Item) : Prop := i.WellFormed ∧ i.narrow ∉ tags

end Item

def streamBytes (items : List Item) : List UInt8 := items.flatMap Item.bytes

mutual

/-- The bytes carry the value; its objects have further fields among their own. -/
def Ty.Carried (further : List UInt32 → Item → Prop) : (t : Ty) → t.Val → List UInt8 → Prop
  | .bool, m, bs => bs = valueBytes .bool m
  | .enum u, m, bs => bs = valueBytes (.enum u) m
  | .double, m, bs => bs = valueBytes .double m
  | .float, m, bs => bs = valueBytes .float m
  | .int w signed, m, bs => bs = valueBytes (.int w signed) m
  | .string, m, bs => bs = valueBytes .string m
  | .vector t, m, bs =>
    ∃ parts, List.Forall₂ (fun e part => t.Carried further e part) m parts ∧ bs = prefixed parts.flatten
  | .object _ _ fs, m, bs => ∃ items, fs.Carried further (further fs.tags) m items ∧ bs = prefixed (streamBytes items)

/-- The items are the members, in any order, and others that `other` allows. -/
def Fields.Carried (further : List UInt32 → Item → Prop) (other : Item → Prop) :
    (fs : Fields) → fs.Val → List Item → Prop
  | .nil, _, items => ∀ i ∈ items, other i
  | .cons tag t rest, m, items =>
    ∃ before payload after, items = before ++ ⟨keyOf tag t, payload⟩ :: after ∧ t.Carried further m.1 payload ∧
      rest.Carried further other m.2 (before ++ after)

end

def Fields.typeOf : Fields → UInt32 → Option Ty
  | .nil, _ => none
  | .cons tag t rest, want => if tag = want then some t else rest.typeOf want

def Fields.lookup : (fs : Fields) → fs.Val → UInt32 → Option (Σ t : Ty, t.Val)
  | .nil, _, _ => none
  | .cons tag t rest, m, want => if tag = want then some ⟨t, m.1⟩ else rest.lookup m.2 want

/-- What a reader with the type `R` makes of the items: it takes the members it shares with the writer, and has the
defaults elsewhere. -/
def Evolves (defaults : Defaults) (W R : DescribedType) (m : W.Val) (items : List Item) : Prop :=
  ∃ out, decodeTagged defaults R (streamBytes items) (defaults R.type) = .ok out ∧
    ∀ tag ∈ R.fields.tags,
      R.fields.lookup out tag = (W.fields.lookup m tag).or (R.fields.lookup (defaults R.type) tag)

def Compatible (W R : DescribedType) : Prop :=
  ∀ tag ∈ W.fields.tags, tag ∈ R.fields.tags → W.fields.typeOf tag = R.fields.typeOf tag

section

variable {fs : Fields} {tag want : UInt32} {t : Ty} {m m' : fs.Val}

attribute [local simp] Fields.typeOf Fields.lookup

theorem typeOf_of_lookup {x : Σ t : Ty, t.Val} (h : fs.lookup m tag = some x) : fs.typeOf tag = some x.1 := by
  induction fs with
  | nil => cases h
  | cons tag' t rest ih =>
    rw [Fields.lookup] at h
    rw [Fields.typeOf]
    split at h
    · next heq =>
      cases h
      rw [if_pos heq]
    · next hne =>
      rw [if_neg hne]
      exact ih h

theorem lookup_of_mem (m : fs.Val) (h : tag ∈ fs.tags) : ∃ x, fs.lookup m tag = some x := by
  induction fs with
  | nil => cases h
  | cons tag' t rest ih =>
    rw [Fields.lookup]
    by_cases heq : tag' = tag
    · exact ⟨_, if_pos heq⟩
    · rw [if_neg heq]
      exact ih m.2 ((mem_cons.mp h).resolve_left fun h => heq h.symm)

theorem mem_of_lookup {x : Σ t : Ty, t.Val} (h : fs.lookup m tag = some x) : tag ∈ fs.tags := by
  induction fs with
  | nil => cases h
  | cons tag' t rest ih =>
    rw [Fields.lookup] at h
    split at h
    · next heq =>
      rw [← heq]
      exact mem_cons_self
    · exact mem_cons_of_mem _ (ih h)

theorem lookup_ext (hdistinct : fs.distinct = true) (h : ∀ tag ∈ fs.tags, fs.lookup m tag = fs.lookup m' tag) :
    m = m' := by
  induction fs with
  | nil => rfl
  | cons tag t rest ih =>
    obtain ⟨⟨hnew, -⟩, hrest⟩ : (tag ∉ rest.tags ∧ t.distinct = true) ∧ rest.distinct = true := by
      simpa [Fields.distinct] using hdistinct
    have hhead := h tag mem_cons_self
    simp only [Fields.lookup, if_true, some.injEq, Sigma.mk.injEq, heq_eq_eq, true_and] at hhead
    have htail : m.2 = m'.2 := by
      refine ih hrest fun tag' htag' => ?_
      have hne : tag ≠ tag' := fun heq => hnew (heq ▸ htag')
      have hlookup := h tag' (mem_cons_of_mem _ htag')
      simpa only [Fields.lookup, if_neg hne] using hlookup
    exact Prod.ext hhead htail

end

section

variable {defaults : Defaults} {bs rest : List UInt8}

theorem getGroups_append {n scale result : Nat} {r : Nat × List UInt8} (tail : List UInt8)
    (h : Leb128.getGroups n scale result bs = some r) :
    Leb128.getGroups n scale result (bs ++ tail) = some (r.1, r.2 ++ tail) := by
  induction n generalizing bs scale result with
  | zero => cases h
  | succ n ih =>
    cases bs with
    | nil => cases h
    | cons b bs =>
      rw [cons_append]
      simp only [Leb128.getGroups] at h ⊢
      split at h
      · next hlast =>
        cases h
        rw [if_pos hlast]
      · next hmore =>
        rw [if_neg hmore]
        exact ih h

theorem get_append {v : UInt64} (tail : List UInt8) (h : Leb128.get bs = some (v, rest)) :
    Leb128.get (bs ++ tail) = some (v, rest ++ tail) := by
  unfold Leb128.get at h ⊢
  obtain ⟨r, hr, heq⟩ := map_eq_some_iff.mp h
  cases heq
  rw [getGroups_append tail hr]
  rfl

theorem Item.WellFormed.skipped {i : Item} (h : i.WellFormed) (tail : List UInt8) :
    Tagged.skipValue (i.key.toNat % 8) (i.payload ++ tail) = some tail := by
  have hskip : ∀ n, i.payload.length = n → Tagged.skip n (i.payload ++ tail) = some tail := by
    intro n hn
    rw [Tagged.skip, if_neg (by rw [length_append]; omega), drop_left' hn]
  obtain ⟨hwire, v, hget⟩ | ⟨hwire, hlen⟩ | ⟨hwire, hlen⟩ | ⟨hwire, len, content, hget, hlen⟩ := h
  · rw [hwire, Tagged.skipValue, get_append tail hget]
    rfl
  · rw [hwire]
    exact hskip 8 hlen
  · rw [hwire]
    exact hskip 4 hlen
  · have hlong : ¬ (content ++ tail).length < len.toNat := by
      rw [length_append]
      omega
    rw [hwire, Tagged.skipValue, get_append tail hget, bind_some, Tagged.skip, if_neg hlong,
      drop_left' hlen]

theorem skip_prefixed (h : bs.length < 2 ^ 64) : Tagged.skipValue 2 (prefixed bs ++ rest) = some rest := by
  rw [Tagged.skipValue, prefixed, append_assoc, Leb128.get_put, bind_some, Tagged.skip,
    UInt64.toNat_ofNat_of_lt' h, if_neg (by rw [length_append]; omega), drop_left' rfl]

theorem carried_skipped {further : List UInt32 → Item → Prop} {t : Ty} {m : t.Val} (h : t.Carried further m bs)
    (hsmall : bs.length < 2 ^ 64) (rest : List UInt8) :
    Tagged.skipValue (wireTypeOf t) (bs ++ rest) = some rest := by
  have hvarint : ∀ v, Tagged.skipValue 0 (Leb128.put v ++ rest) = some rest := by
    intro v
    rw [Tagged.skipValue, Leb128.get_put]
    rfl
  cases t with
  | bool | enum u | int w signed =>
    rw [show bs = _ from h]
    exact hvarint _
  | double =>
    rw [show bs = _ from h]
    change Tagged.skip 8 (putU64 _ ++ rest) = _
    rw [Tagged.skip, if_neg (by rw [length_append, putU64_length]; omega), drop_left' (putU64_length _)]
  | float =>
    rw [show bs = _ from h]
    change Tagged.skip 4 (putU32 _ ++ rest) = _
    rw [Tagged.skip, if_neg (by rw [length_append, putU32_length]; omega), drop_left' (putU32_length _)]
  | string =>
    rw [show bs = _ from h] at hsmall ⊢
    exact skip_prefixed (prefixed_small hsmall)
  | vector t =>
    obtain ⟨parts, -, rfl⟩ := h
    exact skip_prefixed (prefixed_small hsmall)
  | object name salt fs =>
    obtain ⟨items, -, rfl⟩ := h
    exact skip_prefixed (prefixed_small hsmall)

end

/-! The fields of a type, one item after another. -/

section

variable {defaults : Defaults} {R : Fields} {tag : UInt32} {out : R.Val} {bs rest : List UInt8}

theorem readField_unknown (h : tag ∉ R.tags) (out : R.Val) :
    taggedReadField defaults R tag out bs = .unknown := by
  induction R with
  | nil => rfl
  | cons tag' t rest ih =>
    obtain ⟨hne, hrest⟩ := not_or.mp fun hor => h (mem_cons.mpr hor)
    rw [taggedReadField, if_neg (fun heq => hne heq.symm), ih hrest]
    rfl

theorem readField_known {t : Ty} {v : t.Val} (h : R.typeOf tag = some t) (out : R.Val)
    (hread : ∀ m, taggedReadValue defaults t m bs = some (v, rest)) :
    ∃ out', taggedReadField defaults R tag out bs = .read out' rest ∧
      ∀ tag', R.lookup out' tag' = if tag' = tag then some ⟨t, v⟩ else R.lookup out tag' := by
  induction R with
  | nil => cases h
  | cons tag' t' fs ih =>
    rw [Fields.typeOf] at h
    split at h
    · next heq =>
      cases h
      refine ⟨(v, out.2), ?_, fun want => ?_⟩
      · rw [taggedReadField, if_pos heq, hread]
        rfl
      · simp only [Fields.lookup, heq]
        by_cases hw : want = tag
        · rw [if_pos hw.symm, if_pos hw]
        · rw [if_neg (fun h => hw h.symm), if_neg hw, if_neg (fun h => hw h.symm)]
    · next hne =>
      obtain ⟨out', hfield, hlookup⟩ := ih h out.2
      refine ⟨(out.1, out'), ?_, fun want => ?_⟩
      · rw [taggedReadField, if_neg hne, hfield]
        rfl
      · simp only [Fields.lookup]
        by_cases hw : tag' = want
        · rw [if_pos hw, if_pos hw, if_neg (fun h => hne (hw.trans h))]
        · rw [if_neg hw, if_neg hw]
          exact hlookup want

end

/-! A stream of items. -/

section

variable {defaults : Defaults} {R : Fields}

/-- What the reader does with an item: it skips it, or takes it as the member `values` has under the tag. -/
def Item.Handled (defaults : Defaults) (R : Fields) (values : UInt32 → Option (Σ t : Ty, t.Val)) (i : Item) : Prop :=
  (i.narrow ∉ R.tags ∧ ∀ tail, Tagged.skipValue (i.key.toNat % 8) (i.payload ++ tail) = some tail) ∨
  ∃ t v, R.typeOf i.narrow = some t ∧ values i.narrow = some ⟨t, v⟩ ∧
    ∀ m tail, taggedReadValue defaults t m (i.payload ++ tail) = some (v, tail)

theorem Item.bytes_ne_nil (i : Item) : 0 < i.bytes.length := by
  have hkey := length_pos_iff.mpr (Leb128.put_ne_nil i.key)
  rw [Item.bytes, length_append]
  omega

theorem readFields_skip {i : Item} {n : Nat} (hunknown : i.narrow ∉ R.tags) (tail : List UInt8)
    (hskip : Tagged.skipValue (i.key.toNat % 8) (i.payload ++ tail) = some tail) (out : R.Val) :
    readFields (taggedReadField defaults R) (n + 1) out (i.bytes ++ tail) =
      readFields (taggedReadField defaults R) n out tail := by
  have hget := Leb128.get_put i.key (i.payload ++ tail)
  have hfield : taggedReadField defaults R (UInt32.ofNat (i.key.toNat / 8)) out (i.payload ++ tail) = .unknown :=
    readField_unknown hunknown out
  rw [Item.bytes, append_assoc]
  cases hput : Leb128.put i.key with
  | nil => exact absurd hput (Leb128.put_ne_nil _)
  | cons b bs =>
    rw [hput] at hget
    rw [cons_append] at hget ⊢
    rw [readFields, hget]
    dsimp only
    rw [hfield]
    dsimp only
    rw [hskip, bind_some]

theorem streamBytes_cons (i : Item) (items : List Item) : streamBytes (i :: items) = i.bytes ++ streamBytes items :=
  flatMap_cons

theorem streamBytes_concat (items : List Item) (i : Item) :
    streamBytes (items ++ [i]) = streamBytes items ++ i.bytes := by
  rw [streamBytes, flatMap_append, flatMap_singleton, streamBytes]

/-- The items are read one after another; in the end the members are those of the items, and what they were before
under the tags no item has. -/
theorem read_items {values : UInt32 → Option (Σ t : Ty, t.Val)} (items : List Item)
    (h : ∀ i ∈ items, i.Handled defaults R values) (out : R.Val) (tail : List UInt8) (n : Nat)
    (hn : (streamBytes items ++ tail).length ≤ n) : ∃ out' n', tail.length ≤ n' ∧
      readFields (taggedReadField defaults R) n out (streamBytes items ++ tail) =
        readFields (taggedReadField defaults R) n' out' tail ∧
      ∀ tag ∈ R.tags, R.lookup out' tag =
        if ∃ i ∈ items, i.narrow = tag then values tag else R.lookup out tag := by
  induction items generalizing out n with
  | nil => exact ⟨out, n, hn, rfl, fun tag _ => by simp⟩
  | cons i items ih =>
    have hpos := i.bytes_ne_nil
    rw [streamBytes_cons, append_assoc] at hn ⊢
    rw [length_append] at hn
    obtain ⟨n, rfl⟩ : ∃ n', n = n' + 1 := ⟨n - 1, by omega⟩
    have hitems : ∀ j ∈ items, j.Handled defaults R values := fun j hj => h j (mem_cons_of_mem _ hj)
    rcases h i mem_cons_self with ⟨hunknown, hskip⟩ | ⟨t, v, htype, hvalue, hread⟩
    · obtain ⟨out', n', hn', heq, hlookup⟩ := ih hitems out n (by omega)
      refine ⟨out', n', hn', ?_, fun tag htag => ?_⟩
      · rw [readFields_skip hunknown _ (hskip _)]
        exact heq
      · have hne : i.narrow ≠ tag := fun heq => hunknown (heq ▸ htag)
        rw [hlookup tag htag]
        simp only [mem_cons, exists_eq_or_imp, hne, false_or]
    · obtain ⟨mid, hfield, hmid⟩ := readField_known htype out fun m => hread m (streamBytes items ++ tail)
      obtain ⟨out', n', hn', heq, hlookup⟩ := ih hitems mid n (by omega)
      refine ⟨out', n', hn', ?_, fun tag htag => ?_⟩
      · rw [Item.bytes, append_assoc, readFields_step (show taggedReadField defaults R
          (UInt32.ofNat (i.key.toNat / 8)) out _ = _ from hfield)]
        exact heq
      · rw [hlookup tag htag, hmid tag]
        by_cases heq : tag = i.narrow
        · subst heq
          simp only [mem_cons, exists_eq_or_imp, true_or, if_true, hvalue]
          split <;> rfl
        · simp only [mem_cons, exists_eq_or_imp, if_neg heq, show ¬ i.narrow = tag from fun h => heq h.symm,
            false_or]

theorem carried_items {further : List UInt32 → Item → Prop} {other : Item → Prop} {fs : Fields} {m : fs.Val}
    {items : List Item} (hdistinct : fs.distinct = true) (h : fs.Carried further other m items) :
    (∀ i ∈ items, other i ∨ ∃ tag t v, i.key = keyOf tag t ∧ fs.lookup m tag = some ⟨t, v⟩ ∧
      t.Carried further v i.payload) ∧ ∀ tag ∈ fs.tags, ∃ i ∈ items, i.narrow = tag := by
  induction fs generalizing items with
  | nil => exact ⟨fun i hi => .inl (h i hi), nofun⟩
  | cons tag t rest ih =>
    obtain ⟨⟨hnew, -⟩, hrest⟩ : (tag ∉ rest.tags ∧ t.distinct = true) ∧ rest.distinct = true := by
      simpa [Fields.distinct] using hdistinct
    obtain ⟨before, payload, after, rfl, hvalue, hothers⟩ := h
    obtain ⟨hitems, htags⟩ := ih hrest hothers
    have hkeep : ∀ i, i ∈ before ++ after → i ∈ before ++ ⟨keyOf tag t, payload⟩ :: after := by
      intro i hi
      rcases mem_append.mp hi with hi | hi
      · exact mem_append_left _ hi
      · exact mem_append_right _ (mem_cons_of_mem _ hi)
    refine ⟨fun i hi => ?_, fun tag' htag' => ?_⟩
    · have hcases : i ∈ before ++ after ∨ i = ⟨keyOf tag t, payload⟩ := by
        rcases mem_append.mp hi with hi | hi
        · exact .inl (mem_append_left _ hi)
        · rcases mem_cons.mp hi with hi | hi
          · exact .inr hi
          · exact .inl (mem_append_right _ hi)
      rcases hcases with hi | rfl
      · rcases hitems i hi with hother | ⟨tag', t', v, hkey, hlookup, hcarried⟩
        · exact .inl hother
        · refine .inr ⟨tag', t', v, hkey, ?_, hcarried⟩
          have hne : tag ≠ tag' := fun heq => hnew (heq ▸ mem_of_lookup hlookup)
          rw [Fields.lookup, if_neg hne]
          exact hlookup
      · exact .inr ⟨tag, t, m.1, rfl, by rw [Fields.lookup, if_pos rfl], hvalue⟩
    · rcases mem_cons.mp htag' with rfl | htag'
      · exact ⟨_, mem_append_right _ mem_cons_self, keyOf_tag _ t⟩
      · obtain ⟨i, hi, hnarrow⟩ := htags tag' htag'
        exact ⟨i, hkeep i hi, hnarrow⟩

end

/-! What carries a value reads as the value. -/

section

variable {α : Type} {further : List UInt32 → Item → Prop}

theorem prefixed_ne_nil (bs : List UInt8) : prefixed bs ≠ [] := fun hnil =>
  Leb128.put_ne_nil _ (append_eq_nil_iff.mp hnil).1

theorem carried_ne_nil {t : Ty} {v : t.Val} {bs : List UInt8} (h : t.Carried further v bs) : bs ≠ [] := by
  cases t with
  | vector t =>
    obtain ⟨parts, -, rfl⟩ := h
    exact prefixed_ne_nil _
  | object name salt fs =>
    obtain ⟨items, -, rfl⟩ := h
    exact prefixed_ne_nil _
  | bool | enum u | double | float | int w signed | string =>
    rw [show bs = _ from h]
    exact valueBytes_ne_nil _ v

theorem readEach_parts {read : List UInt8 → Option (α × List UInt8)} {es done : List α} {parts : List (List UInt8)}
    {n : Nat} (h : List.Forall₂ (fun e part => part ≠ [] ∧ ∀ rest, read (part ++ rest) = some (e, rest)) es parts)
    (hn : parts.flatten.length ≤ n) : readEach read n done parts.flatten = some (done ++ es) := by
  induction h generalizing n done with
  | nil =>
    rw [append_nil]
    cases n <;> rfl
  | @cons e part es parts hpart _ ih =>
    obtain ⟨hne, hread⟩ := hpart
    have hpos := length_pos_iff.mpr hne
    rw [flatten_cons, length_append] at hn
    obtain ⟨n, rfl⟩ : ∃ n', n = n' + 1 := ⟨n - 1, by omega⟩
    have hstep : readEach read (n + 1) done (part ++ parts.flatten) =
        (read (part ++ parts.flatten)).bind fun r => readEach read n (done ++ [r.1]) r.2 := by
      cases part with
      | nil => exact absurd rfl hne
      | cons b bs => rfl
    rw [flatten_cons, hstep, hread, bind_some, ih (by omega), append_assoc]
    rfl

theorem forall₂_small {p : α → List UInt8 → Prop} {es : List α} {parts : List (List UInt8)} {n : Nat}
    (h : List.Forall₂ p es parts) (hn : parts.flatten.length < n) :
    List.Forall₂ (fun e part => p e part ∧ part.length < n) es parts := by
  induction h with
  | nil => exact .nil
  | cons hpart _ ih =>
    rw [flatten_cons, length_append] at hn
    exact .cons ⟨hpart, by omega⟩ (ih (by omega))

theorem payload_le {items : List Item} {i : Item} (h : i ∈ items) :
    i.payload.length ≤ (streamBytes items).length := by
  have hle := (sublist_flatten_of_mem (mem_map_of_mem (f := Item.bytes) h)).length_le
  rw [Item.bytes, length_append] at hle
  exact le_trans (Nat.le_add_left _ _) hle

end

section

variable {defaults : Defaults}

/-- What a reader handles: the further fields whose narrowed tag it does not know, and the members of the writer. -/
theorem handled_of_carried {W R : Fields} {m : W.Val} {items : List Item} (hdistinct : W.distinct = true)
    (hshared : ∀ tag ∈ W.tags, tag ∈ R.tags → W.typeOf tag = R.typeOf tag)
    (hread : ∀ tag t v, W.lookup m tag = some ⟨t, v⟩ → ∀ bs, t.Carried Item.Unclashed v bs → bs.length < 2 ^ 64 →
      ∀ out rest, taggedReadValue defaults t out (bs ++ rest) = some (v, rest))
    (h : W.Carried Item.Unclashed (Item.Unclashed R.tags) m items) (hsmall : (streamBytes items).length < 2 ^ 64) :
    ∀ i ∈ items, i.Handled defaults R (W.lookup m) := by
  intro i hi
  have hpayload : i.payload.length < 2 ^ 64 := lt_of_le_of_lt (payload_le hi) hsmall
  rcases (carried_items hdistinct h).1 i hi with ⟨hwell, hunknown⟩ | ⟨tag, t, v, hkey, hlookup, hcarried⟩
  · exact .inl ⟨hunknown, hwell.skipped⟩
  · have hnarrow : i.narrow = tag := by
      rw [Item.narrow, Item.tag, hkey, keyOf_tag]
    have hwire : i.key.toNat % 8 = wireTypeOf t := by
      have htag := tag.toNat_lt
      have hlt : wireTypeOf t < 8 := by cases t <;> simp [wireTypeOf]
      rw [hkey, keyOf, UInt64.toNat_ofNat_of_lt' (show tag.toNat * 8 + wireTypeOf t < 2 ^ 64 by omega)]
      omega
    by_cases hmem : tag ∈ R.tags
    · refine .inr ⟨t, v, ?_, ?_, hread tag t v hlookup _ hcarried hpayload⟩
      · rw [hnarrow, ← hshared tag (mem_of_lookup hlookup) hmem, typeOf_of_lookup hlookup]
      · rw [hnarrow, hlookup]
    · refine .inl ⟨?_, ?_⟩
      · rw [hnarrow]
        exact hmem
      · rw [hwire]
        exact carried_skipped hcarried hpayload

mutual

theorem read_carried : (t : Ty) → t.distinct = true → (v : t.Val) → (bs : List UInt8) →
    t.Carried Item.Unclashed v bs → bs.length < 2 ^ 64 → (out : t.Val) → (rest : List UInt8) →
    taggedReadValue defaults t out (bs ++ rest) = some (v, rest)
  | .bool, hd, v, bs, h, hsmall, out, rest => by
    rw [show bs = _ from h] at hsmall ⊢
    exact read_value _ hd out v hsmall rest
  | .enum u, hd, v, bs, h, hsmall, out, rest => by
    rw [show bs = _ from h] at hsmall ⊢
    exact read_value _ hd out v hsmall rest
  | .double, hd, v, bs, h, hsmall, out, rest => by
    rw [show bs = _ from h] at hsmall ⊢
    exact read_value _ hd out v hsmall rest
  | .float, hd, v, bs, h, hsmall, out, rest => by
    rw [show bs = _ from h] at hsmall ⊢
    exact read_value _ hd out v hsmall rest
  | .int w signed, hd, v, bs, h, hsmall, out, rest => by
    rw [show bs = _ from h] at hsmall ⊢
    exact read_value _ hd out v hsmall rest
  | .string, hd, v, bs, h, hsmall, out, rest => by
    rw [show bs = _ from h] at hsmall ⊢
    exact read_value _ hd out v hsmall rest
  | .vector t, hd, v, bs, h, hsmall, out, rest => by
    obtain ⟨parts, hparts, rfl⟩ := h
    have hcontent := prefixed_small hsmall
    refine readPrefixed_prefixed hcontent ?_
    exact readEach_parts ((forall₂_small hparts hcontent).imp fun e part hpart =>
      ⟨carried_ne_nil hpart.1, read_carried t hd e part hpart.1 hpart.2 (defaults t)⟩) le_rfl
  | .object _ _ fs, hd, v, bs, h, hsmall, out, rest => by
    obtain ⟨items, hitems, rfl⟩ := h
    have hcontent := prefixed_small hsmall
    refine readPrefixed_prefixed hcontent ?_
    have hhandled := handled_of_carried (R := fs) hd (fun _ _ _ => rfl) (reads_fields fs hd v) hitems hcontent
    obtain ⟨out', n', -, hread, hlookup⟩ := read_items items hhandled out [] _ le_rfl
    rw [append_nil] at hread
    have hval : out' = v := by
      refine lookup_ext hd fun tag htag => ?_
      rw [hlookup tag htag, if_pos ((carried_items hd hitems).2 tag htag)]
    rw [hval] at hread
    exact hread.trans (by cases n' <;> rfl)

theorem reads_fields : (fs : Fields) → fs.distinct = true → (m : fs.Val) → ∀ tag t v, fs.lookup m tag = some ⟨t, v⟩ →
    ∀ bs, t.Carried Item.Unclashed v bs → bs.length < 2 ^ 64 → ∀ out rest,
      taggedReadValue defaults t out (bs ++ rest) = some (v, rest)
  | .nil, _, _, _, _, _, h, _, _, _, _, _ => by cases h
  | .cons tag t fs, hd, m, want, t', v, h, bs, hcarried, hsmall, out, rest => by
    obtain ⟨⟨-, ht⟩, hrest⟩ : (tag ∉ fs.tags ∧ t.distinct = true) ∧ fs.distinct = true := by
      simpa [Fields.distinct] using hd
    rw [Fields.lookup] at h
    split at h
    · cases h
      exact read_carried t ht _ bs hcarried hsmall out rest
    · exact reads_fields fs hrest m.2 want t' v h bs hcarried hsmall out rest

end

end

section

variable {defaults : Defaults} {W R : DescribedType} {m : W.Val} {items : List Item}

theorem decodeTagged_of_read {d : DescribedType} {bs : List UInt8} {out out' : d.Val}
    (h : readFields (taggedReadField defaults d.fields) bs.length out bs = some out') :
    decodeTagged defaults d bs out = .ok out' := by
  rw [decodeTagged, h]

theorem read_of_decodeTagged {d : DescribedType} {bs : List UInt8} {out out' : d.Val}
    (h : decodeTagged defaults d bs out = .ok out') :
    readFields (taggedReadField defaults d.fields) bs.length out bs = some out' := by
  unfold decodeTagged at h
  split at h
  · cases h
  · next hread =>
    cases h
    exact hread

theorem evolves_of_unclashed (hcompatible : Compatible W R)
    (h : W.fields.Carried Item.Unclashed (Item.Unclashed R.fields.tags) m items)
    (hsmall : (streamBytes items).length < 2 ^ 64) : Evolves defaults W R m items := by
  have hhandled := @handled_of_carried defaults _ _ _ _ W.distinct hcompatible
    (reads_fields W.fields W.distinct m) h hsmall
  obtain ⟨out, n, -, hread, hlookup⟩ := read_items items hhandled (defaults R.type) [] _ le_rfl
  rw [append_nil] at hread
  refine ⟨out, ?_, fun tag htag => ?_⟩
  · have hdone : readFields (taggedReadField defaults R.fields) n out [] = some out := by cases n <;> rfl
    exact decodeTagged_of_read (hread.trans hdone)
  · rw [hlookup tag htag]
    cases hw : W.fields.lookup m tag with
    | some x => rw [if_pos ((carried_items W.distinct h).2 tag (mem_of_lookup hw)), some_or]
    | none =>
      rw [if_neg, none_or]
      rintro ⟨i, hi, rfl⟩
      rcases hhandled i hi with ⟨hunknown, -⟩ | ⟨t, v, -, hvalue, -⟩
      · exact hunknown htag
      · rw [hw] at hvalue
        cases hvalue

end

/-! A further field that clashes. -/

section

variable {α : Type} {defaults : Defaults}

/-- What is read is not the value, or it is not all there is and what is left has no key. -/
def Misread (v : α) (r : Option (α × List UInt8)) : Prop :=
  r = none ∨ (∃ v', r = some (v', []) ∧ v' ≠ v) ∨ ∃ v' b bs, r = some (v', b :: bs) ∧ Leb128.get (b :: bs) = none

theorem misread_varint {f : UInt64 → α} (hf : f 0 ≠ f 1) (v : α) {wire : Nat}
    (hwire : wire = 0 ∨ wire = 1 ∨ wire = 5 ∨ wire = 2) :
    ∃ bs, bs.length ≤ 8 ∧ Payload wire bs ∧ Misread v ((Leb128.get bs).map fun r => (f r.1, r.2)) := by
  obtain rfl | rfl | rfl | rfl := hwire
  · by_cases hv : f 0 = v
    · exact ⟨[1], by decide, .inl ⟨rfl, 1, rfl⟩, .inr (.inl ⟨f 1, rfl, fun h => hf (hv.trans h.symm)⟩)⟩
    · exact ⟨[0], by decide, .inl ⟨rfl, 0, rfl⟩, .inr (.inl ⟨f 0, rfl, hv⟩)⟩
  · exact ⟨List.replicate 8 255, by decide, .inr (.inl ⟨rfl, rfl⟩), .inl rfl⟩
  · exact ⟨List.replicate 4 255, by decide, .inr (.inr (.inl ⟨rfl, rfl⟩)), .inl rfl⟩
  · exact ⟨[1, 255], by decide, .inr (.inr (.inr ⟨rfl, 1, [255], rfl, rfl⟩)), .inr (.inr ⟨f 1, 255, [], rfl, rfl⟩)⟩

theorem misread_prefixed {ι : Type} {read : ι → List UInt8 → Option α} (v : α)
    (hread : (∀ i, read i [] ≠ some v) ∨ ∀ i, read i [255] ≠ some v)
    {wire : Nat} (hwire : wire = 0 ∨ wire = 1 ∨ wire = 5 ∨ wire = 2) :
    ∃ bs, bs.length ≤ 8 ∧ Payload wire bs ∧ ∀ i, Misread v (readPrefixed bs (read i)) := by
  have hcontent : ∀ i content, read i content ≠ some v → Misread v ((read i content).map fun m => (m, [])) := by
    intro i content hne
    cases hr : read i content with
    | none => exact .inl rfl
    | some v' => exact .inr (.inl ⟨v', rfl, fun h => hne (hr.trans (congrArg some h))⟩)
  obtain rfl | rfl | rfl | rfl := hwire
  · exact ⟨[1], by decide, .inl ⟨rfl, 1, rfl⟩, fun _ => .inl rfl⟩
  · exact ⟨List.replicate 8 255, by decide, .inr (.inl ⟨rfl, rfl⟩), fun _ => .inl rfl⟩
  · exact ⟨List.replicate 4 255, by decide, .inr (.inr (.inl ⟨rfl, rfl⟩)), fun _ => .inl rfl⟩
  · rcases hread with hempty | hfull
    · exact ⟨[0], by decide, .inr (.inr (.inr ⟨rfl, 0, [], rfl, rfl⟩)), fun i => hcontent i [] (hempty i)⟩
    · exact ⟨[1, 255], by decide, .inr (.inr (.inr ⟨rfl, 1, [255], rfl, rfl⟩)), fun i => hcontent i [255] (hfull i)⟩

theorem misread_double (v : BitVec 64) {wire : Nat} (hwire : wire = 0 ∨ wire = 1 ∨ wire = 5 ∨ wire = 2) :
    ∃ bs, bs.length ≤ 8 ∧ Payload wire bs ∧ ∀ m, Misread v (taggedReadValue defaults .double m bs) := by
  obtain rfl | rfl | rfl | rfl := hwire
  · exact ⟨[0], by decide, .inl ⟨rfl, 0, rfl⟩, fun _ => .inl rfl⟩
  · by_cases hv : v = 0#64
    · exact ⟨putU64 1, by decide, .inr (.inl ⟨rfl, rfl⟩), fun _ => .inr (.inl ⟨1#64, rfl, by rw [hv]; decide⟩)⟩
    · exact ⟨putU64 0, by decide, .inr (.inl ⟨rfl, rfl⟩), fun _ => .inr (.inl ⟨0#64, rfl, fun h => hv h.symm⟩)⟩
  · exact ⟨List.replicate 4 255, by decide, .inr (.inr (.inl ⟨rfl, rfl⟩)), fun _ => .inl rfl⟩
  · exact ⟨[0], by decide, .inr (.inr (.inr ⟨rfl, 0, [], rfl, rfl⟩)), fun _ => .inl rfl⟩

theorem misread_float (v : BitVec 32) {wire : Nat} (hwire : wire = 0 ∨ wire = 1 ∨ wire = 5 ∨ wire = 2) :
    ∃ bs, bs.length ≤ 8 ∧ Payload wire bs ∧ ∀ m, Misread v (taggedReadValue defaults .float m bs) := by
  obtain rfl | rfl | rfl | rfl := hwire
  · exact ⟨[0], by decide, .inl ⟨rfl, 0, rfl⟩, fun _ => .inl rfl⟩
  · exact ⟨List.replicate 8 255, by decide, .inr (.inl ⟨rfl, rfl⟩), fun _ =>
      .inr (.inr ⟨_, 255, [255, 255, 255], rfl, rfl⟩)⟩
  · by_cases hv : v = 0#32
    · exact ⟨putU32 1, by decide, .inr (.inr (.inl ⟨rfl, rfl⟩)), fun _ => .inr (.inl ⟨1#32, rfl, by rw [hv]; decide⟩)⟩
    · exact ⟨putU32 0, by decide, .inr (.inr (.inl ⟨rfl, rfl⟩)), fun _ => .inr (.inl ⟨0#32, rfl, fun h => hv h.symm⟩)⟩
  · exact ⟨[0], by decide, .inr (.inr (.inr ⟨rfl, 0, [], rfl, rfl⟩)), fun _ => .inl rfl⟩

theorem read_ones (t : Ty) (m : t.Val) : taggedReadValue defaults t m [255] = none := by
  cases t <;> rfl

/-- Whatever the type and the value, some bytes of each wire type are misread. -/
theorem exists_misread (t : Ty) (v : t.Val) {wire : Nat} (hwire : wire = 0 ∨ wire = 1 ∨ wire = 5 ∨ wire = 2) :
    ∃ bs, bs.length ≤ 8 ∧ Payload wire bs ∧ ∀ m, Misread v (taggedReadValue defaults t m bs) := by
  cases t with
  | bool =>
    obtain ⟨bs, hlen, hbs, hmis⟩ := misread_varint (f := fun w : UInt64 => w != 0) (by decide) v hwire
    exact ⟨bs, hlen, hbs, fun _ => hmis⟩
  | enum u =>
    have hf : u.ofWord 0 ≠ u.ofWord 1 := by
      cases u with
      | bool => decide
      | int w s => cases w <;> cases s <;> decide
    obtain ⟨bs, hlen, hbs, hmis⟩ := misread_varint hf v hwire
    exact ⟨bs, hlen, hbs, fun _ => hmis⟩
  | int w signed =>
    have hf : intOfWord w signed 0 ≠ intOfWord w signed 1 := by
      cases w <;> cases signed <;> decide
    obtain ⟨bs, hlen, hbs, hmis⟩ := misread_varint hf v hwire
    exact ⟨bs, hlen, hbs, fun _ => hmis⟩
  | double => exact misread_double v hwire
  | float => exact misread_float v hwire
  | string =>
    have hcontent : (List UInt8 → ([] : List UInt8) ≠ v) ∨ (List UInt8 → [255] ≠ v) := by
      by_cases hv : v = []
      · refine .inr fun _ h => ?_
        rw [hv] at h
        cases h
      · exact .inl fun _ h => hv h.symm
    exact misread_prefixed v (hcontent.imp (fun h i heq => h i (some.inj heq))
      fun h i heq => h i (some.inj heq)) hwire
  | vector t =>
    refine misread_prefixed v (.inr fun i heq => ?_) hwire
    change ((taggedReadValue defaults t (defaults t) [255]).bind _) = _ at heq
    rw [read_ones] at heq
    cases heq
  | object name salt fs => exact misread_prefixed v (.inr nofun) hwire

theorem readField_eq {R : Fields} {tag : UInt32} {t : Ty} (h : R.typeOf tag = some t) (out : R.Val) :
    ∃ m, ∃ plug : t.Val → R.Val,
      (∀ bs, taggedReadField defaults R tag out bs = (Decoded.ofOption (taggedReadValue defaults t m bs)).map plug) ∧
        ∀ v, R.lookup (plug v) tag = some ⟨t, v⟩ := by
  induction R with
  | nil => cases h
  | cons tag' t' fs ih =>
    rw [Fields.typeOf] at h
    split at h
    · next heq =>
      cases h
      refine ⟨out.1, fun v => (v, out.2), fun bs => ?_, fun v => ?_⟩
      · rw [taggedReadField, if_pos heq]
      · exact if_pos heq
    · next hne =>
      obtain ⟨m, plug, hfield, hlookup⟩ := ih h out.2
      refine ⟨m, fun v => (out.1, plug v), fun bs => ?_, fun v => ?_⟩
      · rw [taggedReadField, if_neg hne, hfield]
        exact Decoded.map_map _ _ _
      · exact (if_neg hne).trans (hlookup v)

/-- After a field that is misread the object is not the one expected. -/
theorem readFields_misread {R : Fields} {i : Item} {t : Ty} {v : t.Val} {out out' : R.Val} {n : Nat}
    (htype : R.typeOf i.narrow = some t) (hmis : ∀ m, Misread v (taggedReadValue defaults t m i.payload))
    (hread : readFields (taggedReadField defaults R) n out i.bytes = some out') :
    R.lookup out' i.narrow ≠ some ⟨t, v⟩ := by
  obtain ⟨m, plug, hfield, hplug⟩ := @readField_eq defaults _ _ _ htype out
  have hget := Leb128.get_put i.key i.payload
  have hfield : taggedReadField defaults R (UInt32.ofNat (i.key.toNat / 8)) out i.payload = _ := hfield i.payload
  rw [Item.bytes] at hread
  cases hput : Leb128.put i.key with
  | nil => exact absurd hput (Leb128.put_ne_nil _)
  | cons b bs =>
    rw [hput] at hget hread
    rw [cons_append] at hget hread
    cases n with
    | zero => cases hread
    | succ n =>
      rw [readFields, hget] at hread
      dsimp only at hread
      rw [hfield] at hread
      rcases hmis m with hnone | ⟨v', hsome, hne⟩ | ⟨v', c, cs, hsome, hbad⟩
      · rw [hnone] at hread
        cases hread
      · rw [hsome] at hread
        have heq : plug v' = out' := by
          cases n <;> exact some.inj hread
        rw [← heq, hplug]
        intro h
        cases h
        exact hne rfl
      · rw [hsome] at hread
        cases n with
        | zero => cases hread
        | succ n =>
          simp only [Decoded.ofOption, Decoded.map, readFields, hbad] at hread
          cases hread

/-- A field that clashes can be given bytes which spoil what the reader returns. -/
theorem exists_spoiling {W R : DescribedType} {m : W.Val} {items : List Item} (hcompatible : Compatible W R)
    (h : W.fields.Carried Item.Unclashed (Item.Unclashed R.fields.tags) m items)
    (hsmall : (streamBytes items).length < 2 ^ 64) {key : UInt64}
    (hwire : key.toNat % 8 = 0 ∨ key.toNat % 8 = 1 ∨ key.toNat % 8 = 5 ∨ key.toNat % 8 = 2)
    (hclash : UInt32.ofNat (key.toNat / 8) ∈ R.fields.tags) :
    ∃ bs, bs.length ≤ 8 ∧ Payload (key.toNat % 8) bs ∧ ¬ Evolves defaults W R m (items ++ [⟨key, bs⟩]) := by
  obtain ⟨⟨t, v⟩, hexpected⟩ : ∃ x, (W.fields.lookup m (UInt32.ofNat (key.toNat / 8))).or
      (R.fields.lookup (defaults R.type) (UInt32.ofNat (key.toNat / 8))) = some x := by
    cases hw : W.fields.lookup m (UInt32.ofNat (key.toNat / 8)) with
    | some x => exact ⟨x, some_or⟩
    | none =>
      rw [none_or]
      exact lookup_of_mem (defaults R.type) hclash
  have htype : R.fields.typeOf (UInt32.ofNat (key.toNat / 8)) = some t := by
    cases hw : W.fields.lookup m (UInt32.ofNat (key.toNat / 8)) with
    | some x =>
      rw [hw, some_or] at hexpected
      cases hexpected
      rw [← hcompatible _ (mem_of_lookup hw) hclash]
      exact typeOf_of_lookup hw
    | none =>
      rw [hw, none_or] at hexpected
      exact typeOf_of_lookup hexpected
  obtain ⟨bs, hlen, hbs, hmis⟩ := @exists_misread defaults t v _ hwire
  refine ⟨bs, hlen, hbs, ?_⟩
  rintro ⟨out, hdecode, hlookup⟩
  have hhandled := @handled_of_carried defaults _ _ _ _ W.distinct hcompatible
    (reads_fields W.fields W.distinct m) h hsmall
  obtain ⟨mid, n, -, hread, -⟩ := read_items items hhandled (defaults R.type) (Item.bytes ⟨key, bs⟩) _ le_rfl
  have hfinal : readFields (taggedReadField defaults R.fields) n mid (Item.bytes ⟨key, bs⟩) = some out := by
    rw [← hread, ← streamBytes_concat]
    exact read_of_decodeTagged hdecode
  exact readFields_misread (i := ⟨key, bs⟩) htype hmis hfinal ((hlookup _ hclash).trans hexpected)

theorem carried_concat {further : List UInt32 → Item → Prop} {other : Item → Prop} {fs : Fields} {m : fs.Val}
    {items : List Item} {i : Item} (h : fs.Carried further other m items) (hi : other i) :
    fs.Carried further other m (items ++ [i]) := by
  induction fs generalizing items with
  | nil =>
    intro j hj
    rcases mem_append.mp hj with hj | hj
    · exact h j hj
    · rw [mem_singleton.mp hj]
      exact hi
  | cons tag t rest ih =>
    obtain ⟨before, payload, after, rfl, hvalue, hothers⟩ := h
    refine ⟨before, payload, after ++ [i], by rw [append_assoc, cons_append], hvalue, ?_⟩
    rw [← append_assoc]
    exact ih hothers

theorem put_length_le (v : UInt64) : (Leb128.put v).length ≤ 10 := by
  have hgroups : ∀ n v, (Leb128.putGroups n v).length ≤ n := by
    intro n
    induction n with
    | zero => exact fun _ => Nat.le_refl 0
    | succ n ih =>
      intro v
      rw [Leb128.putGroups]
      split
      · exact Nat.succ_le_succ (Nat.zero_le n)
      · exact Nat.succ_le_succ (ih _)
  exact hgroups 10 v.toNat

/-- A reader takes from a stream the members it shares with the writer, wherever further fields stand, as long as none
of them has the narrowed tag of a member; and for a further field at the end that is what it takes. -/
theorem schema_evolution {W R : DescribedType} {m : W.Val} {items : List Item} (hcompatible : Compatible W R)
    (h : W.fields.Carried Item.Unclashed (Item.Unclashed R.fields.tags) m items)
    (hsmall : (streamBytes items).length < 2 ^ 64) :
    Evolves defaults W R m items ∧
      ((streamBytes items).length + 32 < 2 ^ 64 → ∀ key : UInt64,
        (key.toNat % 8 = 0 ∨ key.toNat % 8 = 1 ∨ key.toNat % 8 = 5 ∨ key.toNat % 8 = 2) →
        ((∀ bs, Payload (key.toNat % 8) bs → (streamBytes (items ++ [⟨key, bs⟩])).length < 2 ^ 64 →
            Evolves defaults W R m (items ++ [⟨key, bs⟩])) ↔
          UInt32.ofNat (key.toNat / 8) ∉ R.fields.tags)) := by
  refine ⟨evolves_of_unclashed hcompatible h hsmall,
    fun hroom key hwire => ⟨fun hall hclash => ?_, fun hfree bs hbs hlen => ?_⟩⟩
  · obtain ⟨bs, hlen, hbs, hspoiled⟩ := @exists_spoiling defaults _ _ _ _ hcompatible h hsmall _ hwire hclash
    refine hspoiled (hall bs hbs ?_)
    have hput := put_length_le key
    rw [streamBytes_concat, length_append]
    change _ + (Leb128.put key ++ bs).length < 2 ^ 64
    rw [length_append]
    omega
  · exact evolves_of_unclashed hcompatible (carried_concat h ⟨hbs, hfree⟩) hlen

/-- A counter, and what a later version wrote in its place. -/
def counter : DescribedType where
  name := "Counter"
  fields := .cons 1 (.int .w64 false) (.cons 3 .bool .nil)
  distinct := rfl

def namedCounter : DescribedType where
  name := "Counter"
  fields := .cons 1 (.int .w64 false) (.cons 2 .string .nil)
  distinct := rfl

theorem counters_compatible : Compatible namedCounter counter := by
  intro tag hw hr
  simp only [namedCounter, counter, Fields.tags, mem_cons, not_mem_nil, or_false] at hw hr
  obtain rfl | rfl := hw
  · rfl
  · exact absurd hr (by decide)

/-- The name first, a field of tag `2 ^ 37`, and the count. -/
def namedItems : List Item :=
  [⟨keyOf 2 .string, prefixed [104, 105]⟩, ⟨0x10000000000, [9]⟩, ⟨keyOf 1 (.int .w64 false), Leb128.put 5⟩]

theorem named_carried : namedCounter.fields.Carried Item.Unclashed (Item.Unclashed counter.fields.tags)
    (5#64, [104, 105], ()) namedItems := by
  refine ⟨namedItems.take 2, _, [], rfl, rfl, [], _, [⟨0x10000000000, [9]⟩], rfl, rfl, ?_⟩
  intro i hi
  rw [mem_singleton.mp hi]
  exact ⟨.inl ⟨by decide, 9, rfl⟩, by decide⟩

theorem schema_evolution_named : Evolves Ty.zero namedCounter counter (5#64, [104, 105], ()) namedItems ∧
    ((streamBytes namedItems).length + 32 < 2 ^ 64 → ∀ key : UInt64,
      (key.toNat % 8 = 0 ∨ key.toNat % 8 = 1 ∨ key.toNat % 8 = 5 ∨ key.toNat % 8 = 2) →
      ((∀ bs, Payload (key.toNat % 8) bs → (streamBytes (namedItems ++ [⟨key, bs⟩])).length < 2 ^ 64 →
          Evolves Ty.zero namedCounter counter (5#64, [104, 105], ()) (namedItems ++ [⟨key, bs⟩])) ↔
        UInt32.ofNat (key.toNat / 8) ∉ counter.fields.tags)) :=
  schema_evolution counters_compatible named_carried (by decide)

/-- The field of tag `2 ^ 32 + 1` is unknown, and is taken for the member of tag 1. -/
theorem narrowed_tag_is_taken :
    namedCounter.fields.Carried Item.Unknown (Item.Unknown counter.fields.tags) (5#64, [104, 105], ())
        (namedItems ++ [⟨0x800000008, [9]⟩]) ∧
      decodeTagged Ty.zero counter (streamBytes (namedItems ++ [⟨0x800000008, [9]⟩])) (Ty.zero counter.type) =
        .ok (9#64, false, ()) ∧
      ¬ Evolves Ty.zero namedCounter counter (5#64, [104, 105], ()) (namedItems ++ [⟨0x800000008, [9]⟩]) := by
  have hdecode : decodeTagged Ty.zero counter (streamBytes (namedItems ++ [⟨0x800000008, [9]⟩]))
      (Ty.zero counter.type) = .ok (9#64, false, ()) := rfl
  refine ⟨?_, hdecode, ?_⟩
  · refine ⟨namedItems.take 2, _, [⟨0x800000008, [9]⟩], rfl, rfl, [], _,
      [⟨0x10000000000, [9]⟩, ⟨0x800000008, [9]⟩], rfl, rfl, ?_⟩
    intro i hi
    rcases mem_cons.mp hi with rfl | hi
    · exact ⟨.inl ⟨by decide, 9, rfl⟩, by simp [counter, Fields.tags, Item.tag]⟩
    · rw [mem_singleton.mp hi]
      exact ⟨.inl ⟨by decide, 9, rfl⟩, by simp [counter, Fields.tags, Item.tag]⟩
  · rintro ⟨out, hout, hlookup⟩
    rw [hdecode] at hout
    cases hout
    have hone := hlookup 1 (by decide)
    have hval : (⟨.int .w64 false, 9#64⟩ : Σ t : Ty, t.Val) = ⟨.int .w64 false, 5#64⟩ := some.inj hone
    cases hval

end

end Quark.Wire
