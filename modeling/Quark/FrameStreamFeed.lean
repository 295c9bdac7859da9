import Quark.FrameStream

/-! Feeding a frame stream: every cut of the bytes gives the same frames, as long as no length on the way makes the
size of a frame wrap. -/
namespace Quark.Net

open List UInt32 Bytes Reader Reassembly

section

variable {f : MessageFrame} {maxBody : UInt32} {bs rest tail : List UInt8}

theorem encodeFrameBody_length (f : MessageFrame) : (encodeFrameBody f).length = 78 + f.payload.length := by
  simp only [encodeFrameBody, length_append, putU64_length, putU32_length, length_singleton]
  omega

theorem reads_frame (h : f.payload.length < 2 ^ 32) : Reads readFrame (encodeFrameBody f) f := by
  have hlen : (UInt32.ofNat f.payload.length).toNat = f.payload.length := toNat_ofNat_of_lt' h
  have hpayload : Reads (bytes (UInt32.ofNat f.payload.length).toNat) f.payload f.payload := by
    rw [hlen]
    exact reads_bytes _
  exact (reads_u64 _).bind ((reads_u64 _).bind ((reads_u64 _).bind ((reads_u64 _).bind ((reads_u64 _).bind
    ((reads_u8 _).bind ((reads_u8 _).bind ((reads_u64 _).bind ((reads_u64 _).bind ((reads_u64 _).bind
      ((reads_u64 _).bind ((reads_u32 _).bind hpayload.map)))))))))))

theorem decode_encodeFrameBody (h : (encodeFrameBody f).length < 2 ^ 32) : decodeFrameBody
    (encodeFrameBody f) = some f := by
  rw [encodeFrameBody_length] at h
  rw [decodeFrameBody, (reads_frame (by omega)).run]
  rfl

/-- The bytes declare a length that is accepted and makes the size of the frame wrap. -/
def Wrapping (maxBody : UInt32) (bs : List UInt8) : Prop :=
  4 ≤ bs.length ∧ getU32 bs ≤ maxBody ∧ 2 ^ 32 - 4 ≤ (getU32 bs).toNat

theorem getU32_append (h : 4 ≤ bs.length) : getU32 (bs ++ tail) = getU32 bs := by
  rw [getU32, getU32, take_append_of_le_length h]

theorem whole_of_small (h : (getU32 bs).toNat < 2 ^ 32 - 4) : (4 + getU32 bs).toNat = 4 + (getU32 bs).toNat := by
  rw [UInt32.toNat_add, show (4 : UInt32).toNat = 4 from rfl, Nat.mod_eq_of_lt (by omega)]

theorem takeFrame_small (hfour : 4 ≤ bs.length) (hmax : getU32 bs ≤ maxBody)
    (hsmall : (getU32 bs).toNat < 2 ^ 32 - 4) : takeFrame maxBody bs =
      if getU32 bs = 0 then .halt .protocolError
      else if bs.length < 4 + (getU32 bs).toNat then .wait
      else (decodeFrameBody ((bs.drop 4).take (getU32 bs).toNat)).elim (.halt .protocolError) fun f =>
        .emit f (bs.drop (4 + (getU32 bs).toNat)) := by
  have hsize := whole_of_small hsmall
  have hne : 4 + getU32 bs ≠ 0 := fun hz => by
    rw [hz, UInt32.toNat_zero] at hsize
    omega
  unfold takeFrame
  dsimp only
  rw [if_neg (by omega), if_neg (UInt32.not_lt.mpr hmax), hsize]
  split
  · rfl
  · split
    · rfl
    · rw [if_neg (by omega)]

theorem take_body (h : 4 + (getU32 bs).toNat ≤ bs.length) :
    ((bs ++ tail).drop 4).take (getU32 bs).toNat = (bs.drop 4).take (getU32 bs).toNat := by
  rw [drop_append_of_le_length (by omega), take_append_of_le_length (by rw [length_drop]; omega)]

theorem uncut_of_small (hsmall : ¬ Wrapping maxBody bs) : (framer maxBody).Uncut bs := by
  rintro xs ys rfl
  by_cases hfour : xs.length < 4
  · exact .inl (if_pos hfour)
  · have hget : getU32 (xs ++ ys) = getU32 xs := getU32_append (by omega)
    have hlength : (xs ++ ys).length = xs.length + ys.length := length_append
    by_cases hmax : getU32 xs ≤ maxBody
    · have hlen : (getU32 xs).toNat < 2 ^ 32 - 4 := by
        refine not_le.mp fun hle => hsmall ⟨by omega, ?_, ?_⟩
        · rwa [hget]
        · rwa [hget]
      have hxs := takeFrame_small (by omega) hmax hlen
      have hall := @takeFrame_small maxBody (xs ++ ys) (by omega) (by rwa [hget]) (by rwa [hget])
      rw [hget] at hall
      change takeFrame maxBody xs = _ ∨ (∃ e, takeFrame maxBody xs = _ ∧ takeFrame maxBody (xs ++ ys) = _) ∨
        ∃ f rest, takeFrame maxBody xs = _ ∧ takeFrame maxBody (xs ++ ys) = _
      rw [hxs, hall]
      by_cases hzero : getU32 xs = 0
      · rw [if_pos hzero, if_pos hzero]
        exact .inr (.inl ⟨_, rfl, rfl⟩)
      · by_cases hwait : xs.length < 4 + (getU32 xs).toNat
        · exact .inl ((if_neg hzero).trans (if_pos hwait))
        · rw [if_neg hzero, if_neg hwait, if_neg hzero, if_neg (by omega), take_body (by omega),
            drop_append_of_le_length (by omega)]
          cases decodeFrameBody ((xs.drop 4).take (getU32 xs).toNat) with
          | none => exact .inr (.inl ⟨_, rfl, rfl⟩)
          | some f => exact .inr (.inr ⟨_, _, rfl, rfl⟩)
    · have hlt := UInt32.not_le.mp hmax
      refine .inr (.inl ⟨.protocolError, (if_neg hfour).trans (if_pos hlt), ?_⟩)
      change takeFrame maxBody (xs ++ ys) = _
      unfold takeFrame
      dsimp only
      rw [if_neg (by omega), hget, if_pos hlt]

theorem takeFrame_append (hsmall : ¬ Wrapping maxBody bs) (h : takeFrame maxBody bs = .emit f rest) :
    ∃ head, bs = head ++ rest ∧ ∀ ys, takeFrame maxBody (head ++ ys) = .emit f ys := by
  obtain ⟨hfour, hmax, hzero, hbody, -, -, hdecode, hrest⟩ := takeFrame_emit h
  have hlen : (getU32 bs).toNat < 2 ^ 32 - 4 := not_le.mp fun hle => hsmall ⟨hfour, hmax, hle⟩
  rw [whole_of_small hlen] at hrest
  have hhead : (bs.take (4 + (getU32 bs).toNat)).length = 4 + (getU32 bs).toNat := by
    rw [length_take]
    omega
  refine ⟨bs.take (4 + (getU32 bs).toNat), by rw [hrest, take_append_drop], fun ys => ?_⟩
  have hget : getU32 (bs.take (4 + (getU32 bs).toNat) ++ ys) = getU32 bs := by
    rw [getU32_append (by omega), getU32, getU32, take_take, Nat.min_eq_left (by omega)]
  have htake : ((bs.take (4 + (getU32 bs).toNat) ++ ys).drop 4).take (getU32 bs).toNat =
      (bs.drop 4).take (getU32 bs).toNat := by
    rw [drop_append_of_le_length (by omega), take_append_of_le_length (by rw [length_drop]; omega),
      drop_take, Nat.add_sub_cancel_left, take_take, Nat.min_self]
  have hlength : (bs.take (4 + (getU32 bs).toNat) ++ ys).length = 4 + (getU32 bs).toNat + ys.length := by
    rw [length_append, hhead]
  rw [takeFrame_small (by omega) (by rwa [hget]) (by rwa [hget]), hget, if_neg hzero,
    if_neg (by omega), htake, hdecode, drop_left' hhead]
  rfl

/-- At four bytes that wrap, the reassembler reads behind the buffer. -/
theorem takeFrame_wrapping (h : Wrapping maxBody bs) : takeFrame maxBody (bs.take 4) = .halt .outOfBounds := by
  obtain ⟨hfour, hmax, hbig⟩ := h
  have hlength : (bs.take 4).length = 4 := by
    rw [length_take]
    omega
  have hget : getU32 (bs.take 4) = getU32 bs := by
    rw [getU32, getU32, take_take, Nat.min_self]
  have hlt := (getU32 bs).toNat_lt
  have hwhole : (4 + getU32 bs).toNat < 4 := by
    rw [UInt32.toNat_add, show (4 : UInt32).toNat = 4 from rfl]
    omega
  have hzero : getU32 bs ≠ 0 := fun hz => by
    rw [hz] at hbig
    exact absurd hbig (by decide)
  unfold takeFrame
  dsimp only
  rw [hget, hlength, if_neg (by decide), if_neg (UInt32.not_lt.mpr hmax), if_neg hzero, if_neg (by omega),
    if_pos (by omega)]

theorem halt_of_small {stop : Stop} (hsmall : ¬ Wrapping maxBody bs) (h : takeFrame maxBody bs = .halt stop) :
    stop = .protocolError := by
  by_cases hfour : bs.length < 4
  · rw [show takeFrame maxBody bs = .wait from if_pos hfour] at h
    cases h
  · by_cases hmax : getU32 bs ≤ maxBody
    · have hlen : (getU32 bs).toNat < 2 ^ 32 - 4 := not_le.mp fun hle => hsmall ⟨by omega, hmax, hle⟩
      rw [takeFrame_small (by omega) hmax hlen] at h
      split at h
      · cases h
        rfl
      · split at h
        · cases h
        · cases hdecode : decodeFrameBody ((bs.drop 4).take (getU32 bs).toNat) with
          | none =>
            rw [hdecode] at h
            cases h
            rfl
          | some f =>
            rw [hdecode] at h
            cases h
    · rw [show takeFrame maxBody bs = .halt .protocolError from
        (if_neg hfour).trans (if_pos (UInt32.not_le.mp hmax))] at h
      cases h
      rfl

end

namespace FrameStream

variable {max : UInt32} {f : MessageFrame} {frames : List MessageFrame} {bytes bs p tail : List UInt8}

/-- The frames whose last byte is among the first `n`. -/
def completed : Nat → List MessageFrame → List MessageFrame
  | _, [] => []
  | n, f :: fs => if (encodeFrame f).length ≤ n then f :: completed (n - (encodeFrame f).length) fs else []

def Delivers (max : UInt32) (frames : List MessageFrame) : Prop :=
  ∀ chunks : List (List UInt8), chunks.flatten <+: frames.flatMap encodeFrame →
    (create max).feedAll chunks = (completed chunks.flatten.length frames, none)

def Independent (max : UInt32) (bytes : List UInt8) : Prop :=
  ∃ frames stop, stop.all (· = .protocolError) ∧
    ∀ chunks : List (List UInt8), chunks.flatten = bytes → (create max).feedAll chunks = (frames, stop)

theorem feedAll_framer (s : FrameStream) (chunks : List (List UInt8)) :
    s.feedAll chunks = (framer s.maxBody).feedAll s.buf chunks := by
  induction chunks generalizing s with
  | nil => rfl
  | cons chunk chunks ih =>
    rw [feedAll, Framer.feedAll, feed]
    rcases (framer s.maxBody).drain (s.buf ++ chunk) with ⟨fs, stop, rest⟩
    cases stop with
    | some e => rfl
    | none =>
      dsimp only
      rw [ih]
      rfl

theorem create_buf (max : UInt32) : (create max).buf = [] := rfl

theorem feedAll_of_small {chunks : List (List UInt8)}
    (h : ∀ bs, (framer (create max).maxBody).Visits chunks.flatten bs → ¬ Wrapping (create max).maxBody bs) :
    (create max).feedAll chunks = (((framer (create max).maxBody).drain chunks.flatten).1,
      ((framer (create max).maxBody).drain chunks.flatten).2.1) := by
  rw [feedAll_framer, create_buf]
  exact Framer.feedAll_eq rfl fun bs hbs => uncut_of_small (h bs hbs)

/-- A wrapping length on the way is met by a cut that makes the reassembler read behind the buffer. -/
theorem drain_wrapping {maxBody : UInt32} (h : (framer maxBody).Visits bytes bs) (hwrap : Wrapping maxBody bs) :
    ∃ xs ys, bytes = xs ++ ys ∧ ((framer maxBody).drain xs).2.1 = some .outOfBounds := by
  have hcut : ∀ bs, Wrapping maxBody bs →
      ∃ xs ys, bs = xs ++ ys ∧ ((framer maxBody).drain xs).2.1 = some .outOfBounds := fun bs hbs =>
    ⟨bs.take 4, bs.drop 4, (take_append_drop 4 bs).symm, by
      rw [Framer.drain_halt (F := framer maxBody) (takeFrame_wrapping hbs)]⟩
  induction h with
  | here bs => exact hcut bs hwrap
  | @next bs rest _ f hstep _ ih =>
    by_cases hbs : Wrapping maxBody bs
    · exact hcut bs hbs
    · obtain ⟨head, rfl, hhead⟩ := takeFrame_append hbs hstep
      obtain ⟨xs, ys, rfl, hxs⟩ := ih hwrap
      refine ⟨head ++ xs, ys, (append_assoc _ _ _).symm, ?_⟩
      rw [Framer.drain_emit (F := framer maxBody) (hhead xs)]
      exact hxs

theorem feedAll_wrapping (h : (framer (create max).maxBody).Visits bytes bs)
    (hwrap : Wrapping (create max).maxBody bs) :
    ∃ xs ys, bytes = xs ++ ys ∧ ((create max).feedAll [xs, ys]).2 = some .outOfBounds ∧
      ((create max).feedAll [xs]).2 = some .outOfBounds := by
  obtain ⟨xs, ys, hbytes, hxs⟩ := drain_wrapping h hwrap
  refine ⟨xs, ys, hbytes, ?_, ?_⟩
  · rw [feedAll_framer, create_buf, Framer.feedAll, nil_append]
    rcases hdrain : (framer (create max).maxBody).drain xs with ⟨fs, stop, rest⟩
    rw [hdrain] at hxs
    cases hxs
    rfl
  · rw [feedAll_framer, create_buf, Framer.feedAll, nil_append]
    rcases hdrain : (framer (create max).maxBody).drain xs with ⟨fs, stop, rest⟩
    rw [hdrain] at hxs
    cases hxs
    rfl

theorem independent_iff :
    Independent max bytes ↔
      ∀ bs, (framer (create max).maxBody).Visits bytes bs → ¬ Wrapping (create max).maxBody bs := by
  constructor
  · rintro ⟨frames, stop, hstop, hall⟩ bs hvisits hwrap
    obtain ⟨xs, ys, rfl, hout, -⟩ := feedAll_wrapping hvisits hwrap
    rw [hall [xs, ys] (by rw [flatten_cons, flatten_cons, flatten_nil, append_nil])] at hout
    cases hout
    cases hstop
  · intro hsmall
    refine ⟨((framer (create max).maxBody).drain bytes).1, ((framer (create max).maxBody).drain bytes).2.1, ?_,
      fun chunks hchunks => ?_⟩
    · cases hstop : ((framer (create max).maxBody).drain bytes).2.1 with
      | none => rfl
      | some stop =>
        obtain ⟨bs, hvisits, hhalt⟩ := Framer.exists_halt hstop
        rw [halt_of_small (hsmall bs hvisits) hhalt]
        rfl
    · rw [feedAll_of_small (by rwa [hchunks]), hchunks]

theorem encodeFrame_length (f : MessageFrame) : (encodeFrame f).length = 4 + (encodeFrameBody f).length := by
  rw [encodeFrame, length_append, putU32_length]

/-- A part of a stream of frames: less than the first of them, or the first and a part of the others. -/
theorem prefix_frame {maxBody : UInt32} (hmax : (encodeFrameBody f).length ≤ maxBody.toNat)
    (hsmall : (encodeFrameBody f).length < 2 ^ 32 - 4) (h : p <+: encodeFrame f ++ tail) :
    ¬ Wrapping maxBody p ∧
      (p.length < (encodeFrame f).length ∧ takeFrame maxBody p = .wait ∨
        ∃ q, p = encodeFrame f ++ q ∧ q <+: tail ∧ takeFrame maxBody p = .emit f q) := by
  obtain ⟨back, hback⟩ := h
  have hlen : (UInt32.ofNat (encodeFrameBody f).length).toNat = (encodeFrameBody f).length :=
    toNat_ofNat_of_lt' (by change _ < 2 ^ 32; omega)
  have hget : 4 ≤ p.length → getU32 p = UInt32.ofNat (encodeFrameBody f).length := fun hfour => by
    have hfront : getU32 (p ++ back) = getU32 p := getU32_append hfour
    rw [← hfront, hback, encodeFrame, append_assoc, getU32_putU32]
  have hle : UInt32.ofNat (encodeFrameBody f).length ≤ maxBody := by
    rwa [le_iff_toNat_le, hlen]
  have hnonzero : UInt32.ofNat (encodeFrameBody f).length ≠ 0 := fun hz => by
    rw [hz, encodeFrameBody_length] at hlen
    exact absurd hlen (by rw [UInt32.toNat_zero]; omega)
  refine ⟨fun ⟨hfour, _, hbig⟩ => ?_, ?_⟩
  · rw [hget hfour, hlen] at hbig
    omega
  · by_cases hshort : p.length < (encodeFrame f).length
    · refine .inl ⟨hshort, ?_⟩
      by_cases hfour : p.length < 4
      · exact if_pos hfour
      · have hp := hget (by omega)
        rw [encodeFrame_length] at hshort
        rw [takeFrame_small (by omega) (by rwa [hp]) (by rwa [hp, hlen]), hp, if_neg hnonzero, hlen,
          if_pos (by omega)]
    · obtain ⟨q, rfl⟩ : encodeFrame f <+: p :=
        prefix_of_prefix_length_le ⟨tail, rfl⟩ ⟨back, hback⟩ (not_lt.mp hshort)
      rw [append_assoc, append_cancel_left_eq] at hback
      refine .inr ⟨q, rfl, ⟨back, hback⟩, ?_⟩
      have hlength : (encodeFrame f ++ q).length = 4 + (encodeFrameBody f).length + q.length := by
        rw [length_append, encodeFrame_length]
      have hp := hget (by omega)
      have hbody : ((encodeFrame f ++ q).drop 4).take (encodeFrameBody f).length = encodeFrameBody f := by
        rw [encodeFrame, append_assoc, drop_left' (putU32_length _), take_left']
        rfl
      rw [takeFrame_small (by omega) (by rwa [hp]) (by rwa [hp, hlen]), hp, if_neg hnonzero, hlen, if_neg (by omega),
        hbody, decode_encodeFrameBody (by omega), drop_left' (encodeFrame_length f)]
      rfl

theorem drain_prefix {maxBody : UInt32} (hmax : ∀ f ∈ frames, (encodeFrameBody f).length ≤ maxBody.toNat)
    (hsmall : ∀ f ∈ frames, (encodeFrameBody f).length < 2 ^ 32 - 4) (h : p <+: frames.flatMap encodeFrame) :
    (∀ bs, (framer maxBody).Visits p bs → ¬ Wrapping maxBody bs) ∧
      ((framer maxBody).drain p).1 = completed p.length frames ∧ ((framer maxBody).drain p).2.1 = none := by
  induction frames generalizing p with
  | nil =>
    obtain rfl := prefix_nil.mp h
    rw [Framer.drain_wait (F := framer maxBody) rfl]
    refine ⟨fun bs hbs => ?_, rfl, rfl⟩
    cases hbs with
    | here => exact fun hwrap => absurd hwrap.1 (by decide)
    | next hstep _ => cases hstep
  | cons f frames ih =>
    obtain ⟨hwrap, ⟨hshort, hwait⟩ | ⟨q, rfl, hq, hemit⟩⟩ :=
      prefix_frame (hmax f (.head _)) (hsmall f (.head _)) h
    · rw [Framer.drain_wait (F := framer maxBody) hwait, completed, if_neg (by omega)]
      refine ⟨fun bs hbs => ?_, rfl, rfl⟩
      cases hbs with
      | here => exact hwrap
      | next hstep _ =>
        rw [show (framer maxBody).step p = .wait from hwait] at hstep
        cases hstep
    · obtain ⟨hvisits, hframes, hstop⟩ :=
        ih (fun f hf => hmax f (.tail _ hf)) (fun f hf => hsmall f (.tail _ hf)) hq
      have hstep : (framer maxBody).step (encodeFrame f ++ q) = .emit f q := hemit
      rw [Framer.drain_emit hstep, completed, length_append, if_pos (Nat.le_add_right _ _),
        Nat.add_sub_cancel_left]
      refine ⟨fun bs hbs => ?_, congrArg (f :: ·) hframes, hstop⟩
      cases hbs with
      | here => exact hwrap
      | next hnext hrest =>
        rw [hstep] at hnext
        cases hnext
        exact hvisits bs hrest

theorem visits_large {maxBody : UInt32} (hmax : ∀ f ∈ frames, (encodeFrameBody f).length ≤ maxBody.toNat)
    (hlarge : ∃ f ∈ frames, 2 ^ 32 - 4 ≤ (encodeFrameBody f).length) :
    ∃ bs, (framer maxBody).Visits (frames.flatMap encodeFrame) bs ∧ Wrapping maxBody bs := by
  induction frames with
  | nil =>
    obtain ⟨f, hf, -⟩ := hlarge
    cases hf
  | cons f frames ih =>
    have hle := hmax f (.head _)
    by_cases hf : 2 ^ 32 - 4 ≤ (encodeFrameBody f).length
    · refine ⟨_, .here _, ?_⟩
      have hlt := maxBody.toNat_lt
      have hlen : (UInt32.ofNat (encodeFrameBody f).length).toNat = (encodeFrameBody f).length :=
        toNat_ofNat_of_lt' (by change _ < 2 ^ 32; omega)
      have hget : getU32 ((f :: frames).flatMap encodeFrame) = UInt32.ofNat (encodeFrameBody f).length := by
        rw [flatMap_cons, encodeFrame, append_assoc, getU32_putU32]
      refine ⟨?_, ?_, ?_⟩
      · rw [flatMap_cons, length_append, encodeFrame_length]
        omega
      · rwa [hget, le_iff_toNat_le, hlen]
      · rwa [hget, hlen]
    · obtain ⟨g, hg, hlarge⟩ := hlarge
      have hg : g ∈ frames := (mem_cons.mp hg).resolve_left fun heq => hf (heq ▸ hlarge)
      obtain ⟨bs, hvisits, hwrap⟩ := ih (fun f hf => hmax f (.tail _ hf)) ⟨g, hg, hlarge⟩
      obtain ⟨-, ⟨hshort, -⟩ | ⟨q, hq, -, hemit⟩⟩ :=
        prefix_frame hle (not_le.mp hf) (prefix_refl ((f :: frames).flatMap encodeFrame))
      · rw [flatMap_cons, length_append] at hshort
        omega
      · rw [flatMap_cons, append_cancel_left_eq] at hq
        subst hq
        exact ⟨bs, .next hemit hvisits, hwrap⟩

theorem delivers_iff (hmax : ∀ f ∈ frames, (encodeFrameBody f).length ≤ (create max).maxBody.toNat) :
    Delivers max frames ↔ ∀ f ∈ frames, (encodeFrameBody f).length < 2 ^ 32 - 4 := by
  constructor
  · intro hdelivers
    by_contra hnot
    push Not at hnot
    obtain ⟨bs, hvisits, hwrap⟩ := visits_large hmax hnot
    obtain ⟨xs, ys, hbytes, -, hout⟩ := feedAll_wrapping hvisits hwrap
    have hall := hdelivers [xs] ⟨ys, by rw [flatten_cons, flatten_nil, append_nil, hbytes]⟩
    rw [hall] at hout
    cases hout
  · intro hsmall chunks hchunks
    obtain ⟨hvisits, hframes, hstop⟩ := drain_prefix hmax hsmall hchunks
    rw [feedAll_of_small hvisits, hframes, hstop]

/-- Frames that fit the cap come out, each with its last byte, and what comes out does not depend on the
chunks, exactly when no length on the way makes the size of its frame wrap. -/
theorem feed_reassembles (max : UInt32) (frames : List MessageFrame) (bytes : List UInt8)
    (hmax : ∀ f ∈ frames, (encodeFrameBody f).length ≤ (create max).maxBody.toNat) :
    (Delivers max frames ↔ ∀ f ∈ frames, (encodeFrameBody f).length < 2 ^ 32 - 4) ∧
      (Independent max bytes ↔
        ∀ bs, (framer (create max).maxBody).Visits bytes bs → ¬ Wrapping (create max).maxBody bs) :=
  ⟨delivers_iff hmax, independent_iff⟩

def probe (payload : List UInt8) : MessageFrame :=
  { from_ := 1, to_ := 2, target := ⟨⟨3⟩, 4⟩, msgType := ⟨5⟩, mode := 0, kind := 1, deadlineNs := -1, traceId := 6
    principal := ⟨7, 8⟩, payload }

theorem feed_reassembles_probe :
    Delivers 4194304 [probe [1, 2, 3], probe []] ∧ Independent 0 (encodeFrame (probe []) ++ [0, 0, 0, 0]) := by
  have hbodies : ∀ f ∈ [probe [1, 2, 3], probe []], (encodeFrameBody f).length ≤ 81 := by decide
  refine ⟨(feed_reassembles 4194304 [probe [1, 2, 3], probe []] [] ?_).1.mpr ?_,
    (feed_reassembles 0 [] (encodeFrame (probe []) ++ [0, 0, 0, 0]) ?_).2.mpr ?_⟩
  · intro f hf
    exact (hbodies f hf).trans (by decide)
  · intro f hf
    exact (hbodies f hf).trans_lt (by decide)
  · intro f hf
    cases hf
  · intro bs hbs hwrap
    exact absurd (le_iff_toNat_le.mp hwrap.2.1) (not_le.mpr (lt_of_lt_of_le (by decide) hwrap.2.2))

/-- At the largest cap a header on its own makes the reassembler read behind it, and a frame of that length
never comes out of every cut. -/
theorem header_reads_behind :
    (create 0xFFFFFFFF).feedAll [[0xFC, 0xFF, 0xFF, 0xFF]] = ([], some .outOfBounds) ∧
      ¬ Independent 0xFFFFFFFF [0xFC, 0xFF, 0xFF, 0xFF] ∧
      ∃ f : MessageFrame, (encodeFrameBody f).length = 2 ^ 32 - 4 ∧ ¬ Delivers 0xFFFFFFFF [f] := by
  obtain ⟨payload, hpayload⟩ : ∃ payload : List UInt8, payload.length = 2 ^ 32 - 82 :=
    ⟨List.replicate _ 0, length_replicate⟩
  have hlen : (encodeFrameBody (probe payload)).length = 2 ^ 32 - 4 := by
    rw [encodeFrameBody_length, probe, hpayload]
    omega
  refine ⟨by decide, fun hindependent => ?_, probe payload, hlen, fun hdelivers => ?_⟩
  · obtain ⟨frames, stop, hstop, hall⟩ := hindependent
    have hfeed := hall [[0xFC, 0xFF, 0xFF, 0xFF]] rfl
    rw [show (create 0xFFFFFFFF).feedAll [[0xFC, 0xFF, 0xFF, 0xFF]] = ([], some .outOfBounds) by decide] at hfeed
    cases hfeed
    cases hstop
  · have hsmall := (delivers_iff fun f hf => ?_).mp hdelivers _ (.head _)
    · rw [hlen] at hsmall
      exact lt_irrefl _ hsmall
    · rw [mem_singleton.mp hf, hlen]
      decide

end FrameStream

end Quark.Net
