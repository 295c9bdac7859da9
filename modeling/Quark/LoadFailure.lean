import Quark.ReminderStore

/-! Read errors while a log is loaded. Both loaders leave their read loop at an error as they do at the end
of the file, and take what was not read for a torn tail. -/
namespace Quark

open Bytes CutLog

namespace FileStore

/-- A log of acknowledged records, and what they say. -/
structure AckedLog where
  bodies : List {body : List UInt8 // body.length < 2 ^ 32}
  entry : StoreEntry
  replays : bodies.foldlM (fun e body => applyRecord e body.1) {} = some entry

namespace AckedLog

def frames (log : AckedLog) : List (List UInt8) := log.bodies.map fun body => frame body.1

def bytes (log : AckedLog) : List UInt8 := log.frames.flatten

end AckedLog

/-- `entry(id)` for a file whose reads go as `reads` says. -/
def loadReading (reads : List ReadResult) (opens truncates : Bool) (file : List UInt8) : Slot :=
  load { opens, readError := some (readLoop reads file).length, truncates } (some file)

/-- The bytes the read loop of `read_all` returns are those the model's replay works on. -/
theorem readAll_readLoop (reads : List ReadResult) (opens truncates : Bool) (file : List UInt8) :
    readAll { opens, readError := some (readLoop reads file).length, truncates } file = readLoop reads file :=
  (readLoop_eq_take reads file).symm

theorem le_replayLoop (fuel : Nat) (e : StoreEntry) (bs : List UInt8) (off : Nat) :
    off ≤ (replayLoop fuel e bs off).off := by
  induction fuel generalizing e bs off with
  | zero => exact le_rfl
  | succ fuel ih =>
    simp only [replayLoop]
    split
    · exact le_rfl
    · split
      · exact le_rfl
      · split
        · exact le_rfl
        · split
          · exact le_rfl
          · next e' _ =>
            have hrest := ih e' ((bs.drop 8).drop (getU32 bs).toNat) (off + 8 + (getU32 bs).toNat)
            omega

def frameLoop : FrameLoop UInt8 {body : List UInt8 // body.length < 2 ^ 32} StoreEntry where
  frame body := frame body.1
  apply e body := applyRecord e body.1
  run fuel e bs off := ((replayLoop fuel e bs off).off, (replayLoop fuel e bs off).corrupt)
  frame_pos body := by
    rw [frame_length]
    omega
  run_frame fuel e e' body rest off happly := by
    rw [replayLoop_frame body.2, happly]
  run_part fuel e body k off hk := by
    rw [replayLoop_torn (Torn.take_frame body.2 hk)]
  le_run := le_replayLoop

theorem settle_bytes (pal : Pal) (file : List UInt8) (n : Nat) (r : Replayed) :
    (settle pal file n r).bytes = FrameLoop.settled pal.truncates file n (r.off, r.corrupt) := by
  cases r with
  | mk e off corrupt =>
    cases corrupt <;> cases hcuts : pal.truncates <;>
      simp [settle, Slot.bytes, fileTruncate, FrameLoop.settled, hcuts]

theorem load_bytes (reads : List ReadResult) (truncates : Bool) (file : List UInt8) :
    (loadReading reads true truncates file).bytes =
      FrameLoop.settled truncates file (readLoop reads file).length
        (frameLoop.run (readLoop reads file).length {} (readLoop reads file) 0) := by
  rw [loadReading, load, if_pos rfl, Option.getD_some, replay, readAll_readLoop, settle_bytes]
  rfl

/-- The acknowledged records are still whole in the file exactly when it was not opened, could not be cut,
or was read as far as the end of a record. -/
theorem load_keeps_iff (log : AckedLog) (tail : List UInt8) (reads : List ReadResult) (opens truncates : Bool) :
    log.bytes <+: (loadReading reads opens truncates (log.bytes ++ tail)).bytes ↔
      opens = false ∨ truncates = false ∨
        EndsFrame log.frames (readLoop reads (log.bytes ++ tail)).length := by
  cases opens with
  | false => exact iff_of_true (List.prefix_append _ _) (Or.inl rfl)
  | true =>
    have hkeeps := frameLoop.settled_keeps_iff log.replays tail
      (readLoop reads (log.bytes ++ tail)).length truncates
    rw [show frameLoop.log log.bodies = log.bytes from rfl, ← readLoop_eq_take, ← load_bytes] at hkeeps
    rw [hkeeps]
    simp [AckedLog.frames, frameLoop]

end FileStore

namespace ReminderStore

theorem Record.frame_pos (r : Record) : 0 < r.frame.length := by
  rw [Record.frame, frameWrite_eq, FileStore.frame_length]
  omega

def frameLoop : FrameLoop UInt8 {r : Record // r.Bounded} Rows where
  frame r := r.1.frame
  apply s r := some (r.1.apply s)
  run fuel s bs pos := ((replayLoop fuel s bs pos).good, (replayLoop fuel s bs pos).corrupt)
  frame_pos r := r.1.frame_pos
  run_frame fuel s s' r rest pos happly := by
    rw [Record.frame, frameWrite_eq, replayLoop_frame r.2 (List.cons_ne_nil _ _), applyRecord_record r.2, happly]
  run_part fuel s r k pos hk := by
    rw [Record.frame, frameWrite_eq] at hk ⊢
    rw [replayLoop_torn (FileStore.Torn.take_frame r.2 hk)]
  le_run := le_replayLoop

theorem foldlM_frameLoop (log : AckedLog) (s : Rows) :
    log.foldlM frameLoop.apply s = some (log.foldl (fun s r => r.1.apply s) s) := by
  induction log generalizing s with
  | nil => rfl
  | cons r log ih => exact ih (r.1.apply s)

end ReminderStore

namespace FileReminderStore

open ReminderStore

theorem cutTail_eq (pal : ReminderPal) (file : List UInt8) {n : Nat} {r : Replayed} (hle : r.good ≤ n) :
    cutTail pal file n r =
      FrameLoop.settled (pal.opensAgain && pal.truncates) file n (r.good, r.corrupt) := by
  have hlt : r.good < n ↔ r.good ≠ n := Nat.lt_iff_le_and_ne.trans (and_iff_right hle)
  rw [cutTail, FrameLoop.settled]
  cases r.corrupt with
  | true => simp
  | false => cases hcuts : (pal.opensAgain && pal.truncates) <;> simp [hlt]

theorem replay_bytes (pal : ReminderPal) (hopens : pal.opens = true) (file : List UInt8) :
    (replay pal (some file)).bytes =
      FrameLoop.settled (pal.opensAgain && pal.truncates) file (buffered pal file).length
        (frameLoop.run (buffered pal file).length {} (buffered pal file) 0) := by
  have hle := replayLoop_good_le (buffered pal file).length {} (buffered pal file) 0
  rw [zero_add] at hle
  rw [frameLoop, ← cutTail_eq pal file hle]
  simp [replay, hopens, bytes]

theorem openAppend_bytes (pal : ReminderPal) (st : FileReminderStore) : (openAppend pal st).bytes = st.bytes := by
  rw [openAppend]
  split
  · rfl
  · rfl

theorem construct_bytes (pal : ReminderPal) (file : Option (List UInt8)) :
    (construct pal file).bytes = (replay pal file).bytes := by
  simp only [construct]
  split
  · rfl
  · exact openAppend_bytes pal _

theorem buffered_eq_take (pal : ReminderPal) (file : List UInt8) :
    buffered pal file = file.take (buffered pal file).length := by
  rw [buffered]
  split
  · exact readLoop_eq_take pal.reads file
  · rfl

theorem construct_keeps_iff (log : AckedLog) (tail : List UInt8) (pal : ReminderPal) :
    log.bytes <+: (construct pal (some (log.bytes ++ tail))).bytes ↔
      pal.opens = false ∨ (pal.opensAgain && pal.truncates) = false ∨
        EndsFrame log.frames (buffered pal (log.bytes ++ tail)).length := by
  rw [construct_bytes]
  cases hopens : pal.opens with
  | false =>
    refine iff_of_true ?_ (Or.inl rfl)
    rw [replay, hopens]
    exact List.prefix_append _ _
  | true =>
    have hkeeps := frameLoop.settled_keeps_iff (foldlM_frameLoop log {}) tail
      (buffered pal (log.bytes ++ tail)).length (pal.opensAgain && pal.truncates)
    have hlog : frameLoop.log log = log.bytes := rfl
    rw [hlog, ← buffered_eq_take, ← replay_bytes pal hopens] at hkeeps
    rw [hkeeps]
    simp [AckedLog.frames, frameLoop]

end FileReminderStore

/-- Loading either log leaves its acknowledged records whole in the file exactly when the file was not
opened, no cut could be made, or what was read ends where a record ends. -/
theorem loading_keeps_acknowledged_iff (log : FileStore.AckedLog) (tail : List UInt8) (reads : List ReadResult)
    (opens truncates : Bool) (reminders : ReminderStore.AckedLog) (rest : List UInt8) (pal : ReminderPal) :
    (log.bytes <+: (FileStore.loadReading reads opens truncates (log.bytes ++ tail)).bytes ↔
        opens = false ∨ truncates = false ∨
          EndsFrame log.frames (readLoop reads (log.bytes ++ tail)).length) ∧
      (reminders.bytes <+: (FileReminderStore.construct pal (some (reminders.bytes ++ rest))).bytes ↔
        pal.opens = false ∨ (pal.opensAgain && pal.truncates) = false ∨
          EndsFrame reminders.frames (FileReminderStore.buffered pal (reminders.bytes ++ rest)).length) :=
  ⟨FileStore.load_keeps_iff log tail reads opens truncates,
    FileReminderStore.construct_keeps_iff reminders rest pal⟩

def twoFences : FileStore.AckedLog where
  bodies := [⟨FileStore.fenceBody ⟨1⟩, by decide⟩, ⟨FileStore.fenceBody ⟨2⟩, by decide⟩]
  entry := { owner := ⟨2⟩ }
  replays := by simp [FileStore.applyRecord_fence, StoreEntry.withOwner]

theorem bounded_checkpoint (bucket : Int64) : (ReminderStore.Record.checkpoint bucket).Bounded := by
  simp [ReminderStore.Record.Bounded, ReminderStore.Record.body]

def twoCheckpoints : ReminderStore.AckedLog :=
  [⟨.checkpoint 1, bounded_checkpoint 1⟩, ⟨.checkpoint 2, bounded_checkpoint 2⟩]

/-- A read returns twenty bytes and the next one fails, with every record of the file acknowledged: both
loaders cut the second record off. -/
theorem read_error_cuts_acknowledged :
    ¬ twoFences.bytes <+: (FileStore.loadReading [.bytes 19, .error] true true twoFences.bytes).bytes ∧
      ¬ twoCheckpoints.bytes <+:
        (FileReminderStore.construct { reads := [.bytes 19, .error] } (some twoCheckpoints.bytes)).bytes := by
  constructor
  · intro hprefix
    have hlen : (FileStore.loadReading [.bytes 19, .error] true true twoFences.bytes).bytes.length = 17 := by
      decide +kernel
    have hall : twoFences.bytes.length = 34 := by decide +kernel
    have hle := hprefix.length_le
    omega
  · intro hprefix
    have hlen : (FileReminderStore.construct { reads := [.bytes 19, .error] }
        (some twoCheckpoints.bytes)).bytes.length = 17 := by decide +kernel
    have hall : twoCheckpoints.bytes.length = 34 := by decide +kernel
    have hle := hprefix.length_le
    omega

end Quark
