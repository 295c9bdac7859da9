import Quark.TcpTransport

/-! What a flush puts on a connection, and what a reader takes off it: the bytes are those of a hello and of whole
frames, and the frames come out in the order they went in. -/
namespace Quark.Tcp

open List Bytes Reassembly
open Net (MessageFrame FrameStream encodeFrame encodeFrameBody takeFrame framer)
open Swim (NodeId)
open scoped List

section

variable {maxBody : UInt32} {f : MessageFrame} {frames : List MessageFrame} {bytes tail : List UInt8}

def Fits (maxBody : UInt32) (f : MessageFrame) : Prop :=
  (encodeFrameBody f).length < 2 ^ 32 ∧
    ((encodeFrameBody f).length ≤ maxBody.toNat → (encodeFrameBody f).length < 2 ^ 32 - 4)

instance (maxBody : UInt32) (f : MessageFrame) : Decidable (Fits maxBody f) := inferInstanceAs (Decidable (_ ∧ _))

theorem encodeFrame_ne_nil (f : MessageFrame) : encodeFrame f ≠ [] := by
  intro h
  have hlen := FrameStream.encodeFrame_length f
  rw [h] at hlen
  exact absurd hlen (by rw [length_nil]; omega)

theorem takeFrame_over (hlen : (encodeFrameBody f).length < 2 ^ 32)
    (hover : maxBody.toNat < (encodeFrameBody f).length)
    (h : bytes <+: encodeFrame f ++ tail) (hfour : 4 ≤ bytes.length) :
    takeFrame maxBody bytes = .halt .protocolError := by
  obtain ⟨back, hback⟩ := h
  have hget : getU32 bytes = UInt32.ofNat (encodeFrameBody f).length := by
    have hfront : getU32 (bytes ++ back) = getU32 bytes := Net.getU32_append hfour
    rw [← hfront, hback, encodeFrame, append_assoc, getU32_putU32]
  have hlt : maxBody < getU32 bytes := by
    rwa [hget, UInt32.lt_iff_toNat_lt, UInt32.toNat_ofNat_of_lt' (by change _ < 2 ^ 32; omega)]
  unfold takeFrame
  rw [if_neg (by omega)]
  exact if_pos hlt

/-- Of a part of a stream of frames the reader waits for more, stops, or takes off the first frame. -/
theorem takeFrame_part (hfits : Fits maxBody f) (h : bytes <+: encodeFrame f ++ tail) :
    takeFrame maxBody bytes = .wait ∧ bytes.length < (encodeFrame f).length ∨
      (∃ stop, takeFrame maxBody bytes = .halt stop) ∨
      ∃ q, bytes = encodeFrame f ++ q ∧ q <+: tail ∧ takeFrame maxBody bytes = .emit f q := by
  by_cases hmax : (encodeFrameBody f).length ≤ maxBody.toNat
  · obtain ⟨-, ⟨hshort, hwait⟩ | hemit⟩ := FrameStream.prefix_frame hmax (hfits.2 hmax) h
    · exact .inl ⟨hwait, hshort⟩
    · exact .inr (.inr hemit)
  · by_cases hfour : 4 ≤ bytes.length
    · exact .inr (.inl ⟨_, takeFrame_over hfits.1 (Nat.lt_of_not_le hmax) h hfour⟩)
    · refine .inl ⟨if_pos (by omega), ?_⟩
      rw [FrameStream.encodeFrame_length]
      omega

/-- What comes out of a part of a stream of frames is its first frames, and what stays is the bytes behind them. -/
theorem drain_frames (hfits : ∀ f ∈ frames, Fits maxBody f) (h : bytes <+: frames.flatMap encodeFrame) :
    ((framer maxBody).drain bytes).1 <+: frames ∧ (((framer maxBody).drain bytes).2.1 = none →
      bytes = ((framer maxBody).drain bytes).1.flatMap encodeFrame ++ ((framer maxBody).drain bytes).2.2) := by
  induction frames generalizing bytes with
  | nil =>
    obtain rfl := prefix_nil.mp h
    rw [Framer.drain_wait (F := framer maxBody) rfl]
    exact ⟨prefix_refl _, fun _ => rfl⟩
  | cons f frames ih =>
    rw [flatMap_cons] at h
    obtain ⟨hwait, -⟩ | ⟨stop, hhalt⟩ | ⟨q, rfl, hq, hemit⟩ := takeFrame_part (hfits f (.head _)) h
    · rw [Framer.drain_wait (F := framer maxBody) hwait]
      exact ⟨List.nil_prefix, fun _ => rfl⟩
    · rw [Framer.drain_halt (F := framer maxBody) hhalt]
      exact ⟨List.nil_prefix, nofun⟩
    · obtain ⟨hfront, hrest⟩ := ih (fun g hg => hfits g (.tail _ hg)) hq
      have hstep : (framer maxBody).step (encodeFrame f ++ q) = .emit f q := hemit
      rw [Framer.drain_emit hstep]
      refine ⟨(prefix_cons_inj f).mpr hfront, fun hnone => ?_⟩
      rw [flatMap_cons, append_assoc, ← hrest hnone]

end

section

variable {self : NodeId} {script : List SendResult} {q : PeerQueue} {c : Conn}

theorem slice_append (bs : List UInt8) {i j : Nat} (h : i ≤ j) : slice bs i j ++ bs.drop j = bs.drop i := by
  rw [slice, ← drop_take_append_drop bs i (j - i)]
  congr 1
  · rw [take_drop]
    congr 2
    omega
  · congr 1
    omega

theorem sendLoop_spec (size sent : Nat) (script : List SendResult) :
    sent ≤ (sendLoop size sent script).1 ∧ (sent ≤ size → (sendLoop size sent script).1 ≤ size) ∧
      ((sendLoop size sent script).2.1 = .done → size ≤ (sendLoop size sent script).1) := by
  induction script generalizing sent with
  | nil =>
    unfold sendLoop
    split
    · next hle => exact ⟨Nat.le_refl _, fun h => h, fun _ => hle⟩
    · exact ⟨Nat.le_refl _, fun h => h, nofun⟩
  | cons result script ih =>
    unfold sendLoop
    split
    · next hle => exact ⟨Nat.le_refl _, fun h => h, fun _ => hle⟩
    · next hlt =>
      cases result with
      | wouldBlock => exact ⟨Nat.le_refl _, fun h => h, nofun⟩
      | failed => exact ⟨Nat.le_refl _, fun h => h, nofun⟩
      | wrote n =>
        dsimp only
        split
        · exact ⟨Nat.le_refl _, fun h => h, nofun⟩
        · obtain ⟨hle, hsize, hdone⟩ := ih (sent + min n (size - sent))
          exact ⟨by omega, fun h => hsize (by omega), hdone⟩

namespace PeerQueue

def all (q : PeerQueue) : List MessageFrame := q.control ++ q.data

theorem popNext_all (q : PeerQueue) : q.popNext.1.toList ++ q.popNext.2.all = q.all := by
  rcases q with ⟨control, data⟩
  cases control with
  | cons f control => rfl
  | nil =>
    cases data with
    | cons f data => rfl
    | nil => rfl

theorem popNext_sublist (q : PeerQueue) : q.popNext.2.control <+ q.control ∧ q.popNext.2.data <+ q.data := by
  rcases q with ⟨control, data⟩
  cases control with
  | cons f control => exact ⟨sublist_cons_self f control, .refl _⟩
  | nil =>
    cases data with
    | cons f data => exact ⟨.refl _, sublist_cons_self f data⟩
    | nil => exact ⟨.refl _, .refl _⟩

end PeerQueue

namespace Conn

def torn (c : Conn) : List UInt8 := if c.outSent = 0 then [] else c.outBytes.drop c.outSent

/-- What a connection still has to write before the next frame. -/
def owing (self : NodeId) (c : Conn) : List UInt8 :=
  (buildHello self).drop c.helloSent ++ (c.hintBytes.drop c.hintSent ++ c.torn)

def unsent (c : Conn) : List MessageFrame := if c.outSent = 0 then c.out.toList else []

/-- The cursors stand within what they run over, and a loaded frame is not through. -/
structure Cursors (c : Conn) : Prop where
  hello : c.helloSent ≤ helloSize
  hint : c.hintSent ≤ c.hintBytes.length
  out : c.out = none ∧ c.outSent = 0 ∨ c.outSent < c.outBytes.length

/-- `c'` is `c` after some writing. -/
def Wrote (c c' : Conn) : Prop :=
  ∃ helloSent hintSent out outSent outIsData appDataSent,
    c' = { c with helloSent, hintSent, out, outSent, outIsData, appDataSent }

theorem Wrote.refl (c : Conn) : c.Wrote c := ⟨_, _, _, _, _, _, rfl⟩

theorem Wrote.same {c c' : Conn} (h : c.Wrote c') :
    c'.link = c.link ∧ c'.st = c.st ∧ c'.confirmed = c.confirmed ∧ c'.hint = c.hint := by
  obtain ⟨_, _, _, _, _, _, rfl⟩ := h
  exact ⟨rfl, rfl, rfl, rfl⟩

theorem Wrote.trans {c c' c'' : Conn} (h : c.Wrote c') (h' : c'.Wrote c'') : c.Wrote c'' := by
  obtain ⟨_, _, _, _, _, _, rfl⟩ := h
  obtain ⟨_, _, _, _, _, _, rfl⟩ := h'
  exact ⟨_, _, _, _, _, _, rfl⟩

end Conn

/-- What a flush adds to a connection, of which `owed` is missing, and what it takes from the queue. -/
structure Flushes (owed : Conn → List UInt8) (q : PeerQueue) (c : Conn) (r : Flushed) : Prop where
  stream : owed c ++ r.begun.flatMap encodeFrame = r.bytes ++ owed r.conn
  taken : r.begun ++ (r.conn.unsent ++ r.outq.all) = c.unsent ++ q.all
  control : r.outq.control <+ q.control
  data : r.outq.data <+ q.data
  wrote : c.Wrote r.conn
  out : ∀ f, r.conn.out = some f → c.out = some f ∨ f ∈ q.all
  cursors : r.conn.Cursors

theorem loadNextFrame_spec (hhello : c.helloSent ≤ helloSize) (hhint : c.hintSent ≤ c.hintBytes.length)
    (result : Sent) :
    Flushes Conn.torn q c { outq := (loadNextFrame q c).1, conn := (loadNextFrame q c).2, result } := by
  unfold loadNextFrame
  split
  · next hlt => exact ⟨append_nil _, rfl, .refl _, .refl _, .refl _, fun f hf => .inl hf, ⟨hhello, hhint, .inr hlt⟩⟩
  · next hge =>
    have hpop := q.popNext_all
    have htorn : c.torn = [] := by
      unfold Conn.torn
      split
      · rfl
      · exact drop_eq_nil_of_le (Nat.le_of_not_lt hge)
    have hunsent : c.unsent = [] := by
      unfold Conn.unsent
      split
      · next hzero =>
        cases hc : c.out with
        | none => rfl
        | some f =>
          rw [hzero, Conn.outBytes, hc] at hge
          exact absurd (length_pos_iff.mpr (encodeFrame_ne_nil f)) hge
      · rfl
    refine ⟨by rw [htorn]; rfl, ?_, q.popNext_sublist.1, q.popNext_sublist.2, ⟨_, _, _, _, _, _, rfl⟩,
      fun f hf => .inr ?_, ⟨hhello, hhint, ?_⟩⟩
    · rw [hunsent]
      exact hpop
    · have hf : q.popNext.1 = some f := hf
      rw [← hpop, hf]
      exact .head _
    · change q.popNext.1 = none ∧ 0 = 0 ∨ 0 < (q.popNext.1.elim [] encodeFrame).length
      cases q.popNext.1 with
      | none => exact .inl ⟨rfl, rfl⟩
      | some f => exact .inr (length_pos_iff.mpr (encodeFrame_ne_nil f))

theorem mem_all_of_sublist {q q' : PeerQueue} {f : MessageFrame} (hcontrol : q'.control <+ q.control)
    (hdata : q'.data <+ q.data) (h : f ∈ q'.all) : f ∈ q.all := by
  rw [PeerQueue.all, mem_append] at h ⊢
  exact h.imp (fun h => hcontrol.subset h) fun h => hdata.subset h

theorem Flushes.write {f : MessageFrame} {upTo : Nat} {r : Flushed} {sent : Bool} (hf : c.out = some f)
    (hzero : c.outSent < upTo)
    (h : Flushes Conn.torn q { c with outSent := upTo, appDataSent := sent } r) :
    Flushes Conn.torn q c
      { r with
        bytes := slice (encodeFrame f) c.outSent upTo ++ r.bytes
        begun := (if c.outSent = 0 then [f] else []) ++ r.begun } := by
  have hbytes : c.outBytes = encodeFrame f := by rw [Conn.outBytes, hf]; rfl
  have htorn : Conn.torn { c with outSent := upTo, appDataSent := sent } = (encodeFrame f).drop upTo := by
    rw [← hbytes]
    exact if_neg (Nat.ne_of_gt (Nat.zero_lt_of_lt hzero))
  have hunsent : Conn.unsent { c with outSent := upTo, appDataSent := sent } = [] :=
    if_neg (Nat.ne_of_gt (Nat.zero_lt_of_lt hzero))
  have hstream := h.stream
  have htaken := h.taken
  rw [htorn] at hstream
  rw [hunsent, nil_append] at htaken
  refine ⟨?_, ?_, h.control, h.data, .trans ⟨_, _, _, _, _, _, rfl⟩ h.wrote, h.out, h.cursors⟩
  · have hjoin := slice_append (encodeFrame f) (Nat.le_of_lt hzero)
    change c.torn ++ _ = slice (encodeFrame f) c.outSent upTo ++ r.bytes ++ r.conn.torn
    rw [append_assoc, ← hstream, ← append_assoc, hjoin, Conn.torn, hbytes]
    split
    · next hz =>
      rw [hz]
      simp only [nil_append, drop_zero, cons_append, flatMap_cons]
    · rfl
  · change _ ++ r.begun ++ (r.conn.unsent ++ r.outq.all) = _
    rw [append_assoc, htaken, Conn.unsent, hf]
    rfl

theorem Flushes.trans {q' : PeerQueue} {c' : Conn} {r : Flushed} {result : Sent}
    (h : Flushes Conn.torn q c { outq := q', conn := c', result }) (h' : Flushes Conn.torn q' c' r) :
    Flushes Conn.torn q c r := by
  have hstream := h.stream
  have htaken := h.taken
  rw [flatMap_nil, append_nil, nil_append] at hstream
  rw [nil_append] at htaken
  refine ⟨by rw [hstream]; exact h'.stream, by rw [h'.taken]; exact htaken, h'.control.trans h.control,
    h'.data.trans h.data, h.wrote.trans h'.wrote, fun f hf => ?_, h'.cursors⟩
  obtain hsame | hin := h'.out f hf
  · exact h.out f hsame
  · exact .inr (mem_all_of_sublist h.control h.data hin)

theorem flushFrames_spec (hhello : c.helloSent ≤ helloSize) (hhint : c.hintSent ≤ c.hintBytes.length) :
    Flushes Conn.torn q c (flushFrames script q c) := by
  induction script generalizing q c with
  | nil =>
    have hload := loadNextFrame_spec (q := q) hhello hhint
    unfold flushFrames
    generalize loadNextFrame q c = loaded at hload ⊢
    obtain ⟨q', c'⟩ := loaded
    dsimp only at hload ⊢
    cases hf : c'.out with
    | none => exact hload _
    | some f => exact hload _
  | cons result script ih =>
    have hload := loadNextFrame_spec (q := q) hhello hhint
    unfold flushFrames
    generalize loadNextFrame q c = loaded at hload ⊢
    obtain ⟨q', c'⟩ := loaded
    dsimp only at hload ⊢
    cases hf : c'.out with
    | none => exact hload _
    | some f =>
      cases result with
      | wouldBlock => exact hload _
      | failed => exact hload _
      | wrote n =>
        dsimp only
        split
        · exact hload _
        · next hn =>
          have hcursors := (hload .done).cursors
          have hlt : c'.outSent < (encodeFrame f).length := by
            obtain ⟨hnone, -⟩ | hlt := hcursors.out
            · rw [hf] at hnone
              cases hnone
            · rwa [Conn.outBytes, hf] at hlt
          have hrest := ih (q := q') (c :=
            { c' with
              outSent := c'.outSent + min n ((encodeFrame f).length - c'.outSent)
              appDataSent := c'.appDataSent || c'.outIsData }) hcursors.hello hcursors.hint
          have hmore := (hload .done).trans (.write hf (by omega) hrest)
          rwa [hf] at hmore

theorem loadNextFrame_front : (loadNextFrame q c).2.helloSent = c.helloSent ∧
    (loadNextFrame q c).2.hintSent = c.hintSent := by
  unfold loadNextFrame
  split
  · exact ⟨rfl, rfl⟩
  · exact ⟨rfl, rfl⟩

theorem flushFrames_front :
    (flushFrames script q c).conn.helloSent = c.helloSent ∧ (flushFrames script q c).conn.hintSent = c.hintSent := by
  induction script generalizing q c with
  | nil =>
    have hload := loadNextFrame_front (q := q) (c := c)
    unfold flushFrames
    dsimp only
    cases (loadNextFrame q c).2.out with
    | none => exact hload
    | some f => exact hload
  | cons result script ih =>
    have hload := loadNextFrame_front (q := q) (c := c)
    unfold flushFrames
    dsimp only
    cases (loadNextFrame q c).2.out with
    | none => exact hload
    | some f =>
      cases result with
      | wouldBlock => exact hload
      | failed => exact hload
      | wrote n =>
        dsimp only
        split
        · exact hload
        · exact ⟨ih.1.trans hload.1, ih.2.trans hload.2⟩

theorem Flushes.of_front {front : List UInt8} {result : Sent} {helloSent hintSent : Nat}
    (hstream : c.owing self = front ++ Conn.owing self { c with helloSent, hintSent })
    (hcursors : Conn.Cursors { c with helloSent, hintSent }) :
    Flushes (Conn.owing self) q c { outq := q, conn := { c with helloSent, hintSent }, bytes := front, result } :=
  ⟨by rw [hstream]; exact append_nil _, rfl, .refl _, .refl _, ⟨_, _, _, _, _, _, rfl⟩, fun f hf => .inl hf, hcursors⟩

theorem flush_spec (self : NodeId) (script : List SendResult) (q : PeerQueue) (hc : c.Cursors) :
    Flushes (Conn.owing self) q c (flush self script q c) ∧
    (c.confirmed = false → (flush self script q c).begun = [] ∧ (flush self script q c).outq = q ∧
      (flush self script q c).conn.out = c.out) := by
  obtain ⟨hle, hsize, hdone⟩ := sendLoop_spec helloSize c.helloSent script
  unfold flush
  generalize sendLoop helloSize c.helloSent script = loop at *
  obtain ⟨upTo, result, script⟩ := loop
  obtain ⟨hle₂, hsize₂, hdone₂⟩ := sendLoop_spec c.hintBytes.length c.hintSent script
  have hhello := slice_append (buildHello self) hle
  have hhint := slice_append c.hintBytes hle₂
  have hsame : Conn.hintBytes { c with helloSent := upTo } = c.hintBytes := rfl
  dsimp only at hle hsize hdone hhello ⊢
  rw [hsame]
  generalize sendLoop c.hintBytes.length c.hintSent script = loop at *
  obtain ⟨upTo₂, result₂, script₂⟩ := loop
  dsimp only at hsize₂ hdone₂ hhint ⊢
  split
  · refine ⟨.of_front ?_ ⟨hsize hc.hello, hc.hint, hc.out⟩, fun _ => ⟨rfl, rfl, rfl⟩⟩
    rw [Conn.owing, ← hhello, append_assoc]
    rfl
  · next hhellodone =>
    have hfull : (buildHello self).drop upTo = [] := drop_eq_nil_of_le (hdone (not_not.mp hhellodone))
    have howing : c.owing self = slice (buildHello self) c.helloSent upTo ++
        (slice c.hintBytes c.hintSent upTo₂ ++ (c.hintBytes.drop upTo₂ ++ c.torn)) := by
      rw [Conn.owing, ← hhello, hfull, append_nil, ← hhint, append_assoc]
    have hcursors : Conn.Cursors { c with helloSent := upTo, hintSent := upTo₂ } :=
      ⟨hsize hc.hello, hsize₂ hc.hint, hc.out⟩
    split
    · refine ⟨.of_front ?_ hcursors, fun _ => ⟨rfl, rfl, rfl⟩⟩
      rw [howing, append_assoc, Conn.owing, hfull]
      rfl
    · next hhintdone =>
      have hnone : c.hintBytes.drop upTo₂ = [] := drop_eq_nil_of_le (hdone₂ (not_not.mp hhintdone))
      split
      · next hconfirmed =>
        have hframes : Flushes Conn.torn q { c with helloSent := upTo, hintSent := upTo₂ }
            (flushFrames script₂ q { c with helloSent := upTo, hintSent := upTo₂ }) :=
          flushFrames_spec hcursors.hello hcursors.hint
        have hfront : (flushFrames script₂ q { c with helloSent := upTo, hintSent := upTo₂ }).conn.helloSent = upTo ∧
            (flushFrames script₂ q { c with helloSent := upTo, hintSent := upTo₂ }).conn.hintSent = upTo₂ :=
          flushFrames_front
        have hhints : (flushFrames script₂ q { c with helloSent := upTo, hintSent := upTo₂ }).conn.hintBytes =
            c.hintBytes := by
          rw [Conn.hintBytes, hframes.wrote.same.2.2.2]
          rfl
        refine ⟨⟨?_, hframes.taken, hframes.control, hframes.data, .trans ⟨_, _, _, _, _, _, rfl⟩ hframes.wrote,
          hframes.out, hframes.cursors⟩, fun h => ?_⟩
        · have hstream := hframes.stream
          change c.owing self ++ _ = slice _ _ _ ++ (slice _ _ _ ++ _) ++ Conn.owing self _
          rw [howing, Conn.owing, hfront.1, hfront.2, hhints, hfull, hnone, nil_append, nil_append,
            nil_append, append_assoc, append_assoc, append_assoc, append_assoc, ← hstream]
          rfl
        · rw [hconfirmed] at h
          cases h
      · next hunconfirmed =>
        refine ⟨.of_front ?_ hcursors, fun _ => ⟨rfl, rfl, rfl⟩⟩
        rw [howing, append_assoc, Conn.owing, hfull]
        rfl

end

end Quark.Tcp
