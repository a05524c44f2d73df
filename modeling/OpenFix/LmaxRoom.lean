import OpenFix.FixParse.Room
import OpenFix.Lmax

/-!
# The room the messages of `lmax.h` need

`create_*` pass `buf_size` to the writer, which does not look at it. How long their messages are
depends on the strings of the configuration: a logon has `sender_id` three times.

* `Lmax.create_ok_iff`: when a message fits into its buffer.
* `Lmax.bounds_iff`: the same for any calls on a writer besides.
-/

namespace OpenFix

open Client (PostKind)
open FixWriter (fieldsBytes signedCheck)

namespace Lmax

/-- The bytes between BodyLength and CheckSum. -/
def bodyLength (lmax : Lmax) (time : List UInt8) (seq : Int) : PostKind → Nat
  | .logon =>
      49 + lmax.targetId.length + 3 * lmax.senderId.length + time.length + (fmtInt seq).length
  | .heartbeat =>
      21 + lmax.targetId.length + lmax.senderId.length + time.length + (fmtInt seq).length
  | .marketRequest =>
      118 + lmax.targetId.length + lmax.senderId.length + time.length + (fmtInt seq).length

/-- The bytes in front of CheckSum. -/
def headLength (lmax : Lmax) (kind : PostKind) (time : List UInt8) (seq : Int) : Nat :=
  3 + lmax.fixVer.length + (3 + (Decimal.text (lmax.bodyLength time seq kind)).length) +
    lmax.bodyLength time seq kind

/-- The message has at most `bufSize` bytes, and an `int` counts those that are summed. -/
def HasRoom (lmax : Lmax) (kind : PostKind) (time : List UInt8) (seq : Int) (bufSize : Nat) :
    Prop :=
  lmax.headLength kind time seq < 2 ^ 31 ∧
    lmax.headLength kind time seq + 4 +
      (fmtInt03 (signedCheck (lmax.head kind time seq))).length ≤ bufSize

/-- The widths of tags and numbers. -/
def widths (numbers : List Int) : List Nat := numbers.map fun n => (fmtInt n).length

theorem length_fieldsBytes (lmax : Lmax) (kind : PostKind) (time : List UInt8) (seq : Int) :
    (fieldsBytes (lmax.fields kind time seq)).length = lmax.bodyLength time seq kind := by
  have header : widths [FixSpec.MsgType, FixSpec.TargetCompID, FixSpec.SenderCompID,
      FixSpec.SendingTime, FixSpec.MsgSeqNum] = [2, 2, 2, 2, 2] := by decide +kernel
  have logon : widths [FixSpec.ResetSeqNumFlag, FixSpec.EncryptMethod, 0, FixSpec.HeartBtInt, 30,
      FixSpec.Username, FixSpec.Password] = [3, 2, 1, 3, 2, 3, 3] := by decide +kernel
  have request : widths [FixSpec.MDReqID, FixSpec.SubscriptionRequestType, 1, FixSpec.MarketDepth,
      FixSpec.NoMDEntryTypes, 2, FixSpec.MDEntryType, FixSpec.NoRelatedSym, 4,
      FixSpec.SecurityID, 5002, 5003, 5004, 5005, FixSpec.SecurityIDSource, 8] =
        [3, 3, 1, 3, 3, 1, 3, 3, 1, 2, 4, 4, 4, 4, 2, 1] := by decide +kernel
  simp only [widths, List.map_cons, List.map_nil, List.cons.injEq] at header logon request
  cases kind with
  | logon =>
      simp only [fields, logonFields, fieldsBytes, List.flatMap_cons, List.flatMap_nil,
        List.length_append, length_field, List.length_nil, List.length_cons, bodyLength]
      omega
  | heartbeat =>
      simp only [fields, heartbeatFields, fieldsBytes, List.flatMap_cons, List.flatMap_nil,
        List.length_append, length_field, List.length_nil, List.length_cons, bodyLength]
      omega
  | marketRequest =>
      simp only [fields, marketRequestFields, fieldsBytes, List.flatMap_cons, List.flatMap_nil,
        List.length_append, length_field, List.length_nil, List.length_cons, bodyLength]
      omega

theorem length_head (lmax : Lmax) (kind : PostKind) (time : List UInt8) (seq : Int) :
    (lmax.head kind time seq).length = lmax.headLength kind time seq := by
  have tags : widths [FixSpec.BeginString, FixSpec.BodyLength] = [1, 1] := by decide +kernel
  simp only [widths, List.map_cons, List.map_nil, List.cons.injEq] at tags
  simp only [head, frameHead, List.length_append, length_field, length_fieldsBytes, headLength]
  omega

/-- `create_*`. In a buffer at the end of the allocation. -/
theorem create_ok_iff {mem : Mem} {buf bufSize : Nat} (ends : buf + bufSize = mem.length)
    (lmax : Lmax) (kind : PostKind) (time : List UInt8) (seq : Int) :
    (∃ mem' size, lmax.create kind mem buf bufSize time seq = .ok (mem', size) ∧
        size ≤ bufSize) ↔ lmax.HasRoom kind time seq bufSize := by
  have checkSum : (fmtInt FixSpec.CheckSum).length = 2 := by decide +kernel
  have length : (frame lmax.fixVer (fieldsBytes (lmax.fields kind time seq))
      (signedCheck (lmax.head kind time seq))).length =
        lmax.headLength kind time seq + 4 +
          (fmtInt03 (signedCheck (lmax.head kind time seq))).length := by
    rw [← length_head, frame, List.length_append, length_field, checkSum, head]
    omega
  have written : (∃ w, FixWriter.write mem buf bufSize lmax.fixVer (lmax.fields kind time seq) =
      .ok w ∧ w.size ≤ bufSize) ↔ (lmax.head kind time seq).length < 2 ^ 31 ∧
        (frame lmax.fixVer (fieldsBytes (lmax.fields kind time seq))
          (signedCheck (lmax.head kind time seq))).length ≤ bufSize :=
    FixWriter.write_ok_iff ends (lmax.fields_ne_nil kind time seq)
      (lmax.fields_notBegin kind time seq)
  rw [length_head, length] at written
  rw [HasRoom, ← written]
  constructor
  · rintro ⟨mem', size, run, fits⟩
    obtain ⟨w, written, same⟩ := of_bind_ok run
    cases same
    exact ⟨w, written, fits⟩
  · rintro ⟨w, run, fits⟩
    refine ⟨w.mem, w.size, ?_, fits⟩
    rw [create, run]
    rfl

/-- **The buffer.** `create_*` stay in their buffer, and any calls on a writer in its own, exactly
when what they write fits and each trailer is behind a header and a body: no length is looked at. -/
theorem bounds_iff {mem : Mem} {buf bufSize : Nat} (ends : buf + bufSize = mem.length) :
    (∀ (lmax : Lmax) (kind : PostKind) (time : List UInt8) (seq : Int),
      (∃ mem' size, lmax.create kind mem buf bufSize time seq = .ok (mem', size) ∧
        size ≤ bufSize) ↔ lmax.HasRoom kind time seq bufSize) ∧
      ∀ pushes, FixWriter.InBounds mem buf bufSize pushes ↔
        FixWriter.Draft.empty.Completes bufSize pushes :=
  ⟨create_ok_iff ends, FixWriter.inBounds_iff ends⟩

/-- `20240101-00:00:00.000`. -/
def sampleTime : List UInt8 :=
  [50, 48, 50, 52, 48, 49, 48, 49, 45, 48, 48, 58, 48, 48, 58, 48, 48, 46, 48, 48, 48]

/-- A heartbeat in a buffer of 128 bytes. -/
theorem bounds_iff_sample :
    ∃ mem' size, sample.create .heartbeat (List.replicate 128 0) 0 128 sampleTime 1 =
      .ok (mem', size) ∧ size ≤ 128 := by
  have room : sample.HasRoom .heartbeat sampleTime 1 128 := by
    unfold HasRoom
    decide +kernel
  exact ((bounds_iff (by decide +kernel)).1 sample .heartbeat sampleTime 1).mpr room

/-- A `sender_id` of 700 bytes, in a buffer of 2048. -/
theorem not_bounds_sender :
    ¬ ∀ (lmax : Lmax) (kind : PostKind) (time : List UInt8) (seq : Int) (mem : Mem)
        (buf bufSize : Nat), buf + bufSize = mem.length →
      ∃ mem' size, lmax.create kind mem buf bufSize time seq = .ok (mem', size) ∧
        size ≤ bufSize := by
  intro law
  let lmax : Lmax := { sample with senderId := List.replicate 700 120 }
  have ends : 0 + 2048 = (List.replicate 2048 (0 : UInt8)).length := by
    rw [List.length_replicate]
  have room := (create_ok_iff ends lmax .logon sampleTime 1).mp
    (law lmax .logon sampleTime 1 _ 0 2048 ends)
  have sender : lmax.senderId.length = 700 := List.length_replicate
  have long : 3 * 700 ≤ lmax.headLength .logon sampleTime 1 := by
    simp only [headLength, bodyLength, sender]
    omega
  have short := room.2
  omega

end Lmax

end OpenFix
