import OpenFix.FixClient.Handler
import OpenFix.FixParse.RoundTrip

/-!
# `fix_handler` on streams of messages

What the handler pushes when its buffer holds whole messages, and what the reads of one
connection amount to.

* `run_wire`: a buffer of whole messages, one behind the other, with arbitrary bytes
  around them. The induction is over the messages that are left, along a run that stands at
  the loop test with `end_` at the first of them.
* `run_written`: the same for messages of the writer.
* `received_wire`: a connection whose reads end at message boundaries.
-/

namespace OpenFix

/-- A message as the parser accepts it: the framing fields with their own numbers, the
MsgType field first in the body, and anything behind it. -/
structure WireMessage : Type where
  beginString : List UInt8
  type : UInt8
  typeRest : List UInt8
  rest : List UInt8
  check : Int
  cleanBegin : Clean beginString
  cleanType : Clean (type :: typeRest)
  short : (frameBody (type :: typeRest) rest).length < 2 ^ 31
  checkLow : -2 ^ 31 ≤ check
  checkHigh : check < 2 ^ 31

namespace WireMessage

def bytes (m : WireMessage) : List UInt8 :=
  frame m.beginString (frameBody (m.type :: m.typeRest) m.rest) m.check

def checksum (m : WireMessage) : UInt8 := toUInt8 m.check

theorem bytes_length_pos (m : WireMessage) : 0 < m.bytes.length := by
  rw [bytes, frame, List.length_append, length_field]
  omega

end WireMessage

namespace FixHandler

variable {mem : Mem} {buf len : Nat} {garbage : StackGarbage}

/-- The entries for the messages with these types and checksums: the last one is final. -/
def entriesOf (buf : Nat) : List (UInt8 × UInt8) → List FixMsg
  | [] => []
  | m :: later => ⟨m.1, m.2, buf, later.isEmpty⟩ :: entriesOf buf later

/-! ## Whole messages in one buffer -/

theorem run_succ {n : Nat} {pc pc' : HandlerPc} {pushed : List FixMsg} {entry : Option FixMsg}
    (at_ : run mem buf len garbage n = (pc, pushed))
    (stepped : step mem buf len garbage pc = (pc', entry)) :
    run mem buf len garbage (n + 1) = (pc', pushed ++ entry.toList) := by
  simp only [run, at_, stepped]

/-- One parse of a whole message. -/
theorem parse_wire (buf len : Nat) {msg : FixMessage} (m : WireMessage) {after : List UInt8}
    (bytes : mem.drop msg.begin_ = m.bytes ++ after) :
    ∃ msg', msg'.end_ = some (msg.begin_ + m.bytes.length) ∧
      parse mem buf len msg = (.loop msg', some ⟨m.type, m.checksum, buf,
        decide (msg.begin_ + m.bytes.length = buf + len)⟩) := by
  obtain ⟨beginIt, -, parsed⟩ := FixMessage.init_frame msg bytes m.cleanBegin m.cleanType
    m.short m.checkLow m.checkHigh
  exact ⟨_, rfl, parse_accept parsed rfl rfl⟩

/-- From a parse of the first of `messages`, which end where the read ended, the call
returns and has pushed their entries. -/
theorem run_parse_wire {n : Nat} {pc : HandlerPc} {msg : FixMessage} {pushed : List FixMsg}
    (m : WireMessage) (messages : List WireMessage) {after : List UInt8}
    (at_ : run mem buf len garbage n = (pc, pushed))
    (stepped : step mem buf len garbage pc = parse mem buf len msg)
    (bytes : mem.drop msg.begin_ = (m :: messages).flatMap WireMessage.bytes ++ after)
    (ends : msg.begin_ + ((m :: messages).flatMap WireMessage.bytes).length = buf + len) :
    ∃ n', run mem buf len garbage n' = (.returned false,
      pushed ++ entriesOf buf ((m :: messages).map fun m => (m.type, m.checksum))) := by
  induction messages generalizing m n pc msg pushed with
  | nil =>
      rw [List.flatMap_singleton] at bytes ends
      obtain ⟨msg', ends', parsed⟩ := parse_wire buf len m bytes
      have looped := run_succ at_ (stepped.trans parsed)
      have returned := run_succ looped (step_reached ends' (Nat.le_of_eq ends.symm))
      refine ⟨n + 1 + 1, returned.trans ?_⟩
      simp only [ends, decide_true, Option.toList, List.append_nil, List.map_cons, List.map_nil,
        entriesOf, List.isEmpty_nil]
  | cons next messages ih =>
      rw [List.flatMap_cons, List.append_assoc] at bytes
      rw [List.flatMap_cons, List.length_append] at ends
      obtain ⟨msg', ends', parsed⟩ := parse_wire buf len m bytes
      have positive := next.bytes_length_pos
      have length : ((next :: messages).flatMap WireMessage.bytes).length =
          next.bytes.length + (messages.flatMap WireMessage.bytes).length := by
        rw [List.flatMap_cons, List.length_append]
      have before : msg.begin_ + m.bytes.length < buf + len := by omega
      have laterEnds : (msg.begin_ + m.bytes.length) +
          ((next :: messages).flatMap WireMessage.bytes).length = buf + len := by
        omega
      have looped := run_succ at_ (stepped.trans parsed)
      obtain ⟨n', returned⟩ := ih next looped (step_before ends' before)
        (Bytes.drop_add_length bytes) laterEnds
      refine ⟨n', returned.trans ?_⟩
      rw [decide_eq_false (by omega), Option.toList, List.append_assoc]
      rfl

/-- A buffer of whole messages. -/
theorem run_wire (garbage : StackGarbage) {messages : List WireMessage} (some_ : messages ≠ [])
    {after : List UInt8}
    (bytes : mem.drop buf = messages.flatMap WireMessage.bytes ++ after) :
    ∃ n, run mem buf (messages.flatMap WireMessage.bytes).length garbage n = (.returned false,
      entriesOf buf (messages.map fun m => (m.type, m.checksum))) := by
  obtain ⟨m, messages, rfl⟩ := List.exists_cons_of_ne_nil some_
  have called : run mem buf ((m :: messages).flatMap WireMessage.bytes).length garbage 0 =
      (.call, []) := rfl
  exact run_parse_wire m messages called rfl bytes rfl

end FixHandler

/-! ## Messages of the writer -/

/-- A message `fix_writer` produced in a buffer with room for it: header, a MsgType field,
any further fields, trailer. -/
structure WrittenMessage : Type where
  mem : Mem
  begin : Nat
  len : Nat
  beginString : List UInt8
  msgType : List UInt8
  pairs : List (Int × List UInt8)
  writer : FixWriter
  cleanBegin : Clean beginString
  cleanType : Clean msgType
  typed : msgType ≠ []
  values : ∀ p ∈ pairs, Clean p.2
  room : begin + (frameHead beginString
    (FixWriter.fieldsBytes ((FixSpec.MsgType, msgType) :: pairs))).length + 8 ≤ mem.length
  written : FixWriter.write mem begin len beginString ((FixSpec.MsgType, msgType) :: pairs) =
    .ok writer

namespace WrittenMessage

/-- The bytes before the trailer. -/
def head (m : WrittenMessage) : List UInt8 :=
  frameHead m.beginString (FixWriter.fieldsBytes ((FixSpec.MsgType, m.msgType) :: m.pairs))

def bytes (m : WrittenMessage) : List UInt8 := m.writer.bytes

def type (m : WrittenMessage) : UInt8 := m.msgType.head m.typed

def checksum (m : WrittenMessage) : UInt8 := toUInt8 (byteSum m.head)

/-- What the writer produces, the parser accepts. A second BeginString field would move
`m_body_len` behind itself. -/
theorem exists_wire (m : WrittenMessage) (notBegin : ∀ p ∈ m.pairs, p.1 ≠ FixSpec.BeginString) :
    ∃ wire : WireMessage, wire.bytes = m.bytes ∧ wire.type = m.type ∧
      wire.checksum = m.checksum := by
  obtain ⟨mem, begin, len, beginString, msgType, pairs, writer, cleanBegin, cleanType, typed,
    values, room, written⟩ := m
  obtain ⟨type, typeRest, rfl⟩ := List.exists_cons_of_ne_nil typed
  have noBegin : ∀ f ∈ (FixSpec.MsgType, type :: typeRest) :: pairs,
      f.1 ≠ FixSpec.BeginString := by
    intro f member
    rcases List.mem_cons.mp member with rfl | member
    · exact (by decide : FixSpec.MsgType ≠ FixSpec.BeginString)
    · exact notBegin f member
  have run := FixWriter.write_eq len (List.cons_ne_nil _ pairs) noBegin room
  split at run
  case isTrue short =>
    obtain ⟨w, run, holds⟩ := run
    cases run.symm.trans written
    generalize checkEq : FixWriter.signedCheck (frameHead beginString
      (FixWriter.fieldsBytes ((FixSpec.MsgType, type :: typeRest) :: pairs))) = check at holds
    obtain ⟨low, high⟩ : -256 < check ∧ check < 256 := checkEq ▸ FixWriter.signedCheck_range _
    have bodyShort : (frameBody (type :: typeRest) (FixWriter.fieldsBytes pairs)).length <
        2 ^ 31 := by
      rw [frameHead, List.length_append] at short
      exact Nat.lt_of_le_of_lt (Nat.le_add_left _ _) short
    exact ⟨⟨beginString, type, typeRest, FixWriter.fieldsBytes pairs, check, cleanBegin,
      cleanType, bodyShort, by omega, by omega⟩, holds.bytes.symm, rfl,
      toUInt8_congr (checkEq ▸ FixWriter.signedCheck_emod_256 _)⟩
  case isFalse long => cases run.symm.trans written

theorem exists_wires {messages : List WrittenMessage}
    (notBegin : ∀ m ∈ messages, ∀ p ∈ m.pairs, p.1 ≠ FixSpec.BeginString) :
    ∃ wires : List WireMessage, wires.flatMap WireMessage.bytes = messages.flatMap bytes ∧
      wires.map (fun m => (m.type, m.checksum)) = messages.map fun m => (m.type, m.checksum) := by
  induction messages with
  | nil => exact ⟨[], rfl, rfl⟩
  | cons m messages ih =>
      obtain ⟨wire, bytesEq, typeEq, checksumEq⟩ :=
        m.exists_wire (notBegin m List.mem_cons_self)
      obtain ⟨wires, flat, mapped⟩ :=
        ih fun m' member => notBegin m' (List.mem_cons_of_mem m member)
      refine ⟨wire :: wires, ?_, ?_⟩
      · rw [List.flatMap_cons, List.flatMap_cons, bytesEq, flat]
      · rw [List.map_cons, List.map_cons, typeEq, checksumEq, mapped]

/-- `8=F|9=5|35=0|10=062|`. -/
def heartbeat : WrittenMessage where
  mem := List.replicate 64 0
  begin := 0
  len := 64
  beginString := [70]
  msgType := [48]
  pairs := []
  writer := ⟨[56, 61, 70, 1, 57, 61, 53, 1, 51, 53, 61, 48, 1, 49, 48, 61, 48, 54, 50, 1] ++
    List.replicate 44 0, 0, 64, 20, some 4⟩
  cleanBegin := clean_beginString
  cleanType := clean_heartbeat
  typed := by decide
  values := List.forall_mem_nil _
  room := by decide +kernel
  written := by decide +kernel

/-- A second BeginString field in the body: `8=F|35=0|8=F|9=5|58=y|10=030|`. -/
def twoBeginStrings : WrittenMessage where
  mem := List.replicate 64 0
  begin := 0
  len := 64
  beginString := [70]
  msgType := [48]
  pairs := [(8, [70]), (58, [121])]
  writer := ⟨[56, 61, 70, 1, 51, 53, 61, 48, 1, 56, 61, 70, 1, 57, 61, 53, 1, 53, 56, 61, 121, 1,
    49, 48, 61, 48, 51, 48, 1] ++ List.replicate 35 0, 0, 64, 29, some 13⟩
  cleanBegin := clean_beginString
  cleanType := clean_heartbeat
  typed := by decide
  values := by decide +kernel
  room := by decide +kernel
  written := by decide +kernel

end WrittenMessage

namespace FixHandler

/-- **Splitting.** On the concatenation of any messages of the writer, none of which has a
second BeginString field, with arbitrary bytes before and behind, the handler returns
`false` and has pushed one entry for each, the last of them final. -/
theorem run_written (messages : List WrittenMessage) (some_ : messages ≠ [])
    (notBegin : ∀ m ∈ messages, ∀ p ∈ m.pairs, p.1 ≠ FixSpec.BeginString)
    (before after : List UInt8) (garbage : StackGarbage) :
    ∃ n, run (before ++ messages.flatMap WrittenMessage.bytes ++ after) before.length
        (messages.flatMap WrittenMessage.bytes).length garbage n =
      (.returned false,
        entriesOf before.length (messages.map fun m => (m.type, m.checksum))) := by
  obtain ⟨wires, flat, mapped⟩ := WrittenMessage.exists_wires notBegin
  have someWires : wires ≠ [] := by
    rintro rfl
    exact some_ (List.map_eq_nil_iff.mp mapped.symm)
  rw [← flat, ← mapped]
  exact run_wire garbage someWires (by rw [List.append_assoc, List.drop_left])

/-- Two heartbeats, one behind the other, in a buffer with stale bytes behind them. -/
theorem run_written_heartbeats :
    ∃ n, run ([7] ++ [WrittenMessage.heartbeat, .heartbeat].flatMap WrittenMessage.bytes ++
        [56, 61]) 1 40 ⟨0, 0⟩ n =
      (.returned false, [⟨48, 62, 1, false⟩, ⟨48, 62, 1, true⟩]) :=
  run_written [.heartbeat, .heartbeat] (List.cons_ne_nil _ _) (by decide +kernel) [7] [56, 61]
    ⟨0, 0⟩

/-! ## The reads of a connection -/

theorem run_returned {n : Nat} {ret : Bool} {pushed : List FixMsg}
    (returned : run mem buf len garbage n = (.returned ret, pushed)) (k : Nat) :
    run mem buf len garbage (n + k) = (.returned ret, pushed) := by
  induction k with
  | zero => exact returned
  | succ k ih => exact (run_succ ih rfl).trans (by rw [Option.toList_none, List.append_nil])

/-- A call returns at most once. -/
theorem returned_unique {n n' : Nat} {ret ret' : Bool} {pushed pushed' : List FixMsg}
    (returned : run mem buf len garbage n = (.returned ret, pushed))
    (returned' : run mem buf len garbage n' = (.returned ret', pushed')) :
    ret = ret' ∧ pushed = pushed' := by
  have late := run_returned returned n'
  rw [Nat.add_comm, run_returned returned' n] at late
  cases late
  exact ⟨rfl, rfl⟩

/-- The field 9 of `twoBeginStrings` is not its second field: the handler rejects it. -/
theorem run_written_twoBeginStrings :
    ¬ ∀ messages : List WrittenMessage, messages ≠ [] →
      ∀ (before after : List UInt8) (garbage : StackGarbage),
        ∃ n, run (before ++ messages.flatMap WrittenMessage.bytes ++ after) before.length
            (messages.flatMap WrittenMessage.bytes).length garbage n =
          (.returned false,
            entriesOf before.length (messages.map fun m => (m.type, m.checksum))) := by
  intro splits
  obtain ⟨n, returned⟩ := splits [.twoBeginStrings] (List.cons_ne_nil _ _) [] [] ⟨0, 0⟩
  have rejected : run ([] ++ [WrittenMessage.twoBeginStrings].flatMap WrittenMessage.bytes ++ [])
      0 29 ⟨0, 0⟩ 1 = (.returned true, []) := by
    decide +kernel
  exact Bool.noConfusion (returned_unique rejected returned).1

end FixHandler

/-- One `read( buf, m_bufpool.obj_size )` of `poll`: the allocation before it with whatever
its buffers hold, the buffer taken from the pool, and what `recv` stores there. -/
structure Read : Type where
  mem : Mem
  buf : Nat
  bytes : List UInt8
  garbage : StackGarbage

/-- `recv` stores between one byte and a whole buffer. -/
structure Read.Fits (bufSize : Nat) (read : Read) : Prop where
  some_ : 1 ≤ read.bytes.length
  full : read.bytes.length ≤ bufSize
  inside : read.buf + bufSize ≤ read.mem.length

instance (bufSize : Nat) (read : Read) : Decidable (read.Fits bufSize) :=
  decidable_of_iff (1 ≤ read.bytes.length ∧ read.bytes.length ≤ bufSize ∧
    read.buf + bufSize ≤ read.mem.length)
    ⟨fun ⟨some_, full, inside⟩ => ⟨some_, full, inside⟩,
      fun ⟨some_, full, inside⟩ => ⟨some_, full, inside⟩⟩

/-- The handler is called for each read in turn and returns each time; `pushed` are the
entries of all calls. -/
inductive Received : List Read → List FixMsg → Prop
  | nil : Received [] []
  | cons (read : Read) {reads : List Read} {n : Nat} {ret : Bool} {pushed later : List FixMsg} :
    FixHandler.run (Bytes.overwrite read.mem read.buf read.bytes) read.buf read.bytes.length
      read.garbage n = (.returned ret, pushed) →
    Received reads later → Received (read :: reads) (pushed ++ later)

theorem Received.unique {reads : List Read} {pushed pushed' : List FixMsg}
    (received : Received reads pushed) (received' : Received reads pushed') :
    pushed = pushed' := by
  induction received generalizing pushed' with
  | nil =>
      cases received'
      rfl
  | cons _ returned _ ih =>
      cases received' with
      | cons _ returned' later' =>
          rw [(FixHandler.returned_unique returned returned').2, ih later']

theorem map_entriesOf (buf : Nat) (messages : List (UInt8 × UInt8)) :
    (FixHandler.entriesOf buf messages).map (fun e => (e.type, e.checksum)) = messages := by
  induction messages with
  | nil => rfl
  | cons m later ih => rw [FixHandler.entriesOf, List.map_cons, ih]

/-- **Reads that end at message boundaries.** When each read holds whole messages, the
entries pushed over all reads are the messages of the stream, in order, each once. -/
theorem received_wire (bufSize : Nat) (reads : List Read) (groups : List (List WireMessage))
    (fits : ∀ read ∈ reads, read.Fits bufSize)
    (whole : List.Forall₂ (fun (read : Read) group => read.bytes =
      group.flatMap WireMessage.bytes) reads groups) :
    ∃ pushed, Received reads pushed ∧
      pushed.map (fun e => (e.type, e.checksum)) =
        groups.flatten.map fun m => (m.type, m.checksum) := by
  induction whole with
  | nil => exact ⟨[], .nil, rfl⟩
  | @cons read group reads groups bytes _ ih =>
      obtain ⟨later, received, mapped⟩ :=
        ih fun other member => fits other (List.mem_cons_of_mem read member)
      obtain ⟨nonempty, full, inside⟩ := fits read List.mem_cons_self
      have some_ : group ≠ [] := by
        rintro rfl
        rw [bytes] at nonempty
        exact absurd nonempty (by decide)
      have content : (Bytes.overwrite read.mem read.buf read.bytes).drop read.buf =
          group.flatMap WireMessage.bytes ++
            read.mem.drop (read.buf + read.bytes.length) := by
        rw [Bytes.overwrite, List.append_assoc, List.drop_left' (by rw [List.length_take]; omega),
          bytes]
      obtain ⟨n, returned⟩ := FixHandler.run_wire read.garbage some_ content
      rw [← bytes] at returned
      refine ⟨_, .cons read returned received, ?_⟩
      rw [List.map_append, map_entriesOf, mapped, List.flatten_cons, List.map_append]

/-- `8=F|9=5|35=0|10=062|`. -/
def WireMessage.heartbeat : WireMessage where
  beginString := [70]
  type := 48
  typeRest := []
  rest := []
  check := 62
  cleanBegin := clean_beginString
  cleanType := clean_heartbeat
  short := by decide +kernel
  checkLow := by decide
  checkHigh := by decide

/-- A read of two messages and a read of one, into a buffer that was used before. -/
theorem received_wire_heartbeats :
    ∃ pushed, Received
        [⟨List.replicate 100 55, 3, [WireMessage.heartbeat, .heartbeat].flatMap (·.bytes), ⟨0, 0⟩⟩,
          ⟨List.replicate 100 55, 3, [WireMessage.heartbeat].flatMap (·.bytes), ⟨0, 0⟩⟩] pushed ∧
      pushed.map (fun e => (e.type, e.checksum)) = [(48, 62), (48, 62), (48, 62)] :=
  received_wire 64 _ [[.heartbeat, .heartbeat], [.heartbeat]] (by decide +kernel)
    (.cons rfl (.cons rfl .nil))

/-- A message cut behind its fifth byte: neither read holds a message that parses. -/
theorem received_cut :
    ¬ ∀ (bufSize : Nat) (messages : List WireMessage) (reads : List Read),
      (∀ m ∈ messages, m.check = byteSum (frameHead m.beginString
        (frameBody (m.type :: m.typeRest) m.rest)) % 256 ∧ m.bytes.length ≤ bufSize) →
      (∀ read ∈ reads, read.Fits bufSize) →
      reads.flatMap Read.bytes = messages.flatMap WireMessage.bytes →
      ∃ pushed, Received reads pushed ∧
        pushed.map (fun e => (e.type, e.checksum)) =
          messages.map fun m => (m.type, m.checksum) := by
  intro lossless
  let read₁ : Read := ⟨List.replicate 64 0, 0, [56, 61, 70, 1, 57], ⟨0, 0⟩⟩
  let read₂ : Read := ⟨List.replicate 64 0, 0,
    [61, 53, 1, 51, 53, 61, 48, 1, 49, 48, 61, 48, 54, 50, 1], ⟨0, 0⟩⟩
  have rejected₁ : FixHandler.run (Bytes.overwrite read₁.mem read₁.buf read₁.bytes) read₁.buf
      read₁.bytes.length read₁.garbage 1 = (.returned true, []) := by
    decide +kernel
  have rejected₂ : FixHandler.run (Bytes.overwrite read₂.mem read₂.buf read₂.bytes) read₂.buf
      read₂.bytes.length read₂.garbage 1 = (.returned true, []) := by
    decide +kernel
  have nothing := Received.cons read₁ rejected₁ (.cons read₂ rejected₂ .nil)
  obtain ⟨pushed, received, mapped⟩ :=
    lossless 64 [.heartbeat] [read₁, read₂] (by decide +kernel) (by decide +kernel)
      (by decide +kernel)
  rw [received.unique nothing] at mapped
  exact absurd mapped (by decide)

end OpenFix
