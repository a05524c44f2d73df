import OpenFix.Client.State
import OpenFix.FixParse.Writer

/-!
# `lmax.h`

The broker of `lmax_cli`: `create_logon`, `create_heartbeat` and `create_market_request`
push their fields with `fix_writer`, the number of `next_seq` in MsgSeqNum. The text of the
clock in SendingTime is an argument.

* `Lmax.create_eq`: in a buffer with room for it, `create_*` leaves the frame of its fields
  there, returns its length, and touches no other byte.
* `Lmax.broker`: the broker the client model runs with.
-/

namespace OpenFix

open Client (PostKind Broker)

/-- `lmax_t` without its two counters. -/
structure Lmax : Type where
  fixVer : List UInt8
  targetId : List UInt8
  senderId : List UInt8

namespace Lmax

/-- What `create_logon` pushes between header and trailer. -/
def logonFields (lmax : Lmax) (time : List UInt8) (seq : Int) : List (Int × List UInt8) :=
  [(FixSpec.MsgType, [65]),
    (FixSpec.TargetCompID, lmax.targetId),
    (FixSpec.SenderCompID, lmax.senderId),
    (FixSpec.SendingTime, time),
    (FixSpec.MsgSeqNum, fmtInt seq),
    (FixSpec.ResetSeqNumFlag, [89]),
    (FixSpec.EncryptMethod, fmtInt 0),
    (FixSpec.HeartBtInt, fmtInt 30),
    (FixSpec.Username, lmax.senderId),
    (FixSpec.Password, lmax.senderId)]

/-- What `create_heartbeat` pushes between header and trailer. -/
def heartbeatFields (lmax : Lmax) (time : List UInt8) (seq : Int) : List (Int × List UInt8) :=
  [(FixSpec.MsgType, [48]),
    (FixSpec.TargetCompID, lmax.targetId),
    (FixSpec.SenderCompID, lmax.senderId),
    (FixSpec.SendingTime, time),
    (FixSpec.MsgSeqNum, fmtInt seq)]

/-- What `create_market_request` pushes between header and trailer. -/
def marketRequestFields (lmax : Lmax) (time : List UInt8) (seq : Int) :
    List (Int × List UInt8) :=
  [(FixSpec.MsgType, [86]),
    (FixSpec.TargetCompID, lmax.targetId),
    (FixSpec.SenderCompID, lmax.senderId),
    (FixSpec.SendingTime, time),
    (FixSpec.MsgSeqNum, fmtInt seq),
    (FixSpec.MDReqID, [84, 69, 83, 84]),
    (FixSpec.SubscriptionRequestType, fmtInt 1),
    (FixSpec.MarketDepth, fmtInt 0),
    (FixSpec.NoMDEntryTypes, fmtInt 2),
    (FixSpec.MDEntryType, fmtInt 0),
    (FixSpec.MDEntryType, fmtInt 1),
    (FixSpec.NoRelatedSym, fmtInt 4),
    (FixSpec.SecurityID, fmtInt 5002),
    (FixSpec.SecurityIDSource, fmtInt 8),
    (FixSpec.SecurityID, fmtInt 5003),
    (FixSpec.SecurityIDSource, fmtInt 8),
    (FixSpec.SecurityID, fmtInt 5004),
    (FixSpec.SecurityIDSource, fmtInt 8),
    (FixSpec.SecurityID, fmtInt 5005),
    (FixSpec.SecurityIDSource, fmtInt 8)]

def fields (lmax : Lmax) : PostKind → List UInt8 → Int → List (Int × List UInt8)
  | .logon => lmax.logonFields
  | .heartbeat => lmax.heartbeatFields
  | .marketRequest => lmax.marketRequestFields

/-- `create_logon`, `create_heartbeat`, `create_market_request`: the allocation afterwards
and the returned size. -/
def create (lmax : Lmax) (kind : PostKind) (mem : Mem) (buf bufSize : Nat) (time : List UInt8)
    (seq : Int) : Except Fault (Mem × Nat) := do
  let wr ← FixWriter.write mem buf bufSize lmax.fixVer (lmax.fields kind time seq)
  return (wr.mem, wr.size)

/-- The bytes before the trailer. -/
def head (lmax : Lmax) (kind : PostKind) (time : List UInt8) (seq : Int) : List UInt8 :=
  frameHead lmax.fixVer (FixWriter.fieldsBytes (lmax.fields kind time seq))

/-- The whole message. -/
def bytes (lmax : Lmax) (kind : PostKind) (time : List UInt8) (seq : Int) : List UInt8 :=
  frame lmax.fixVer (FixWriter.fieldsBytes (lmax.fields kind time seq))
    (FixWriter.signedCheck (lmax.head kind time seq))

/-- Every message carries the number of `next_seq`. -/
theorem seqNum_mem_fields (lmax : Lmax) (kind : PostKind) (time : List UInt8) (seq : Int) :
    (FixSpec.MsgSeqNum, fmtInt seq) ∈ lmax.fields kind time seq := by
  cases kind with
  | logon => exact List.mem_of_getElem? (i := 4) rfl
  | heartbeat => exact List.mem_of_getElem? (i := 4) rfl
  | marketRequest => exact List.mem_of_getElem? (i := 4) rfl

theorem fields_ne_nil (lmax : Lmax) (kind : PostKind) (time : List UInt8) (seq : Int) :
    lmax.fields kind time seq ≠ [] :=
  List.ne_nil_of_mem (lmax.seqNum_mem_fields kind time seq)

theorem fields_notBegin (lmax : Lmax) (kind : PostKind) (time : List UInt8) (seq : Int) :
    ∀ f ∈ lmax.fields kind time seq, f.1 ≠ FixSpec.BeginString := by
  have tags : ∀ tag ∈ (lmax.fields kind time seq).map Prod.fst, tag ≠ FixSpec.BeginString := by
    cases kind with
    | logon => simp only [fields, logonFields, List.map_cons, List.map_nil]; decide
    | heartbeat => simp only [fields, heartbeatFields, List.map_cons, List.map_nil]; decide
    | marketRequest => simp only [fields, marketRequestFields, List.map_cons, List.map_nil]; decide
  exact fun f member => tags f.1 (List.mem_map_of_mem member)

/-- `create_*`. -/
theorem create_eq (lmax : Lmax) (kind : PostKind) {mem : Mem} {buf : Nat} (bufSize : Nat)
    (time : List UInt8) (seq : Int) (short : (lmax.head kind time seq).length < 2 ^ 31)
    (room : buf + (lmax.head kind time seq).length + 8 ≤ mem.length) :
    lmax.create kind mem buf bufSize time seq =
      .ok (Bytes.overwrite mem buf (lmax.bytes kind time seq),
        (lmax.bytes kind time seq).length) := by
  have written := FixWriter.write_eq bufSize (lmax.fields_ne_nil kind time seq)
    (lmax.fields_notBegin kind time seq) room
  unfold head at short
  rw [if_pos short] at written
  rcases written with ⟨w, run, holds⟩
  unfold create
  rw [run, ok_bind, holds.size, holds.mem, ← List.append_assoc]
  rfl

/-- The broker of the client: any text of the clock. -/
def broker (lmax : Lmax) : Broker where
  creates kind seq bytes := ∃ time, Clean time ∧ bytes = lmax.bytes kind time seq

/-- `fix_tcp_client` with `lmax_t`: 64 buffers of 2048 bytes, queues of 64 entries. -/
def fixTcpClient (lmax : Lmax) : Client.Params where
  bufSize := 2048
  bufpoolSize := 64
  outSize := 64
  inSize := 64
  broker := lmax.broker
  bufSize_pos := by decide

/-- A configuration as in `fix.json`. -/
def sample : Lmax where
  fixVer := [70, 73, 88, 46, 52, 46, 52]
  targetId := [76, 77, 88, 66, 76, 77]
  senderId := [67, 76, 73]

/-- Its logon with an empty SendingTime. -/
theorem sample_creates (seq : Int) :
    sample.broker.creates .logon seq (sample.bytes .logon [] seq) :=
  ⟨[], nofun, rfl⟩

end Lmax

end OpenFix
