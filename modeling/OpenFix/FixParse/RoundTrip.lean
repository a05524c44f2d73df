import OpenFix.FixParse.WireFormat

/-!
# Round trip of writer and parser

What `fix_writer` produces, `fix_message_t` accepts, whatever bytes follow the message.
Iteration ends because the cursor that comes field by field and the cursor that jumped
over `BodyLength` bytes meet at the trailer: `FixMessage.walk_fields` is the induction
over the fields, with the distance to the trailer as its invariant.

The checksum the parser reports is right even where the spelled one has a minus sign:
`uint8_t` reduces it modulo 256.
-/

namespace OpenFix

namespace FixMessage

open FixWriter (fieldsBytes fieldsBytes_cons)

/-- The fields a walk visits from offset `b` on. -/
def fieldsAt (b : Nat) : List (Int × List UInt8) → List FixField
  | [] => []
  | p :: pairs =>
      (pastField p.1 p.2 b).cur :: fieldsAt (b + (field p.1 p.2).length) pairs

/-- The cursor a step to offset `b` reaches: the first field there, or the trailer. -/
def cursorAt (b : Nat) (stop : FixFieldIterator) : List (Int × List UInt8) → FixFieldIterator
  | [] => stop
  | p :: _ => pastField p.1 p.2 b

variable {mem : Mem} {after check : List UInt8} {stop : FixFieldIterator}

/-- The tags and values of message fields, as `push_field` and `next` can carry them. -/
def Carried (pairs : List (Int × List UInt8)) : Prop :=
  ∀ p ∈ pairs, 0 ≤ p.1 ∧ p.1 < 2 ^ 31 ∧ Clean p.2

theorem next_cursorAt {b : Nat} {pairs : List (Int × List UInt8)} (it : FixFieldIterator)
    (at_ : it.cur.begin = some b) (carried : Carried pairs) (cleanCheck : Clean check)
    (bytes : mem.drop b = fieldsBytes pairs ++ (field FixSpec.CheckSum check ++ after))
    (trailer : stop = pastField FixSpec.CheckSum check (b + (fieldsBytes pairs).length)) :
    FixFieldIterator.next SOH mem it = .ok (cursorAt b stop pairs) := by
  cases pairs with
  | nil =>
      rw [trailer]
      exact next_field it at_ bytes (by decide) (by decide) cleanCheck
  | cons p pairs =>
      obtain ⟨nonneg, fits, clean⟩ := carried p List.mem_cons_self
      rw [fieldsBytes_cons, List.append_assoc] at bytes
      exact next_field it at_ bytes nonneg fits clean

/-- A field before the trailer is not the trailer. -/
theorem pastField_differs {b : Nat} {p : Int × List UInt8} {pairs : List (Int × List UInt8)}
    (trailer : stop = pastField FixSpec.CheckSum check (b + (fieldsBytes (p :: pairs)).length)) :
    (pastField p.1 p.2 b).differs stop = true := by
  have length : (fieldsBytes (p :: pairs)).length =
      (field p.1 p.2).length + (fieldsBytes pairs).length := by
    rw [fieldsBytes_cons, List.length_append]
  have positive := List.length_pos_of_ne_nil (field_ne_nil FixSpec.CheckSum check)
  simp only [trailer, FixFieldIterator.differs, begin_pastField, decide_eq_true_eq, ne_eq,
    Option.some.injEq]
  omega

theorem differs_self (it : FixFieldIterator) : it.differs it = false := by
  simp only [FixFieldIterator.differs, ne_eq, not_true_eq_false, decide_false]

/-- The bytes behind the first field. -/
theorem bytes_behind {b : Nat} {p : Int × List UInt8} {pairs : List (Int × List UInt8)}
    (bytes : mem.drop b = fieldsBytes (p :: pairs) ++ (field FixSpec.CheckSum check ++ after)) :
    mem.drop (b + (field p.1 p.2).length) =
        fieldsBytes pairs ++ (field FixSpec.CheckSum check ++ after) ∧
      b + (fieldsBytes (p :: pairs)).length =
        b + (field p.1 p.2).length + (fieldsBytes pairs).length := by
  rw [fieldsBytes_cons, List.append_assoc] at bytes
  refine ⟨Bytes.drop_add_length bytes, ?_⟩
  rw [fieldsBytes_cons, List.length_append, Nat.add_assoc]

/-- Iteration. The walk visits the fields in order and stops at the trailer. -/
theorem walk_fields {b : Nat} {pairs : List (Int × List UInt8)} (carried : Carried pairs)
    (cleanCheck : Clean check)
    (bytes : mem.drop b = fieldsBytes pairs ++ (field FixSpec.CheckSum check ++ after))
    (trailer : stop = pastField FixSpec.CheckSum check (b + (fieldsBytes pairs).length)) :
    walk mem stop (pairs.length + 1) (cursorAt b stop pairs) = .ok (some (fieldsAt b pairs)) := by
  induction pairs generalizing b with
  | nil =>
      rw [walk, cursorAt, differs_self]
      rfl
  | cons p pairs ih =>
      obtain ⟨behind, length⟩ := bytes_behind bytes
      have carriedRest : Carried pairs :=
        fun q member => carried q (List.mem_cons_of_mem p member)
      have trailerRest := trailer
      rw [length] at trailerRest
      have step := next_cursorAt (pastField p.1 p.2 b) (begin_pastField p.1 p.2 b) carriedRest
        cleanCheck behind trailerRest
      have rest := ih carriedRest behind trailerRest
      rw [List.length_cons, walk, cursorAt, if_pos (pastField_differs trailer), step, ok_bind, rest]
      rfl

/-- Search. `find` stops at the first field with the tag, or at the trailer. -/
theorem findFrom_fields {b : Nat} {pairs : List (Int × List UInt8)} (carried : Carried pairs)
    (cleanCheck : Clean check)
    (bytes : mem.drop b = fieldsBytes pairs ++ (field FixSpec.CheckSum check ++ after))
    (trailer : stop = pastField FixSpec.CheckSum check (b + (fieldsBytes pairs).length))
    (tag : Int) :
    findFrom mem stop tag (pairs.length + 1) (cursorAt b stop pairs) =
      .ok (some
        ((((fieldsAt b pairs).find? (·.tag = tag)).map FixFieldIterator.mk).getD stop)) := by
  induction pairs generalizing b with
  | nil =>
      rw [findFrom, cursorAt, differs_self]
      rfl
  | cons p pairs ih =>
      obtain ⟨behind, length⟩ := bytes_behind bytes
      have carriedRest : Carried pairs :=
        fun q member => carried q (List.mem_cons_of_mem p member)
      have trailerRest := trailer
      rw [length] at trailerRest
      have step := next_cursorAt (pastField p.1 p.2 b) (begin_pastField p.1 p.2 b) carriedRest
        cleanCheck behind trailerRest
      have rest := ih carriedRest behind trailerRest
      rw [List.length_cons, findFrom, cursorAt, if_pos (pastField_differs trailer),
        tag_pastField, fieldsAt]
      by_cases found : p.1 = tag
      · rw [if_pos found, List.find?_cons, tag_pastField, decide_eq_true found]
        rfl
      · rw [if_neg found, List.find?_cons, tag_pastField, decide_eq_false found, step, ok_bind,
          rest]

/-- The visited fields carry the pushed tags and values. -/
theorem fieldsAt_values {b : Nat} {pairs : List (Int × List UInt8)}
    (bytes : mem.drop b = fieldsBytes pairs ++ (field FixSpec.CheckSum check ++ after)) :
    (fieldsAt b pairs).map (fun f => (f.tag, f.asString mem)) =
      pairs.map fun p => (p.1, .ok p.2) := by
  induction pairs generalizing b with
  | nil => rfl
  | cons p pairs ih =>
      obtain ⟨behind, -⟩ := bytes_behind bytes
      rw [fieldsBytes_cons, List.append_assoc] at bytes
      rw [fieldsAt, List.map_cons, List.map_cons, ih behind, asString_pastField bytes,
        tag_pastField]

/-- A visited field is a pushed one, at the offset where it was written. -/
theorem exists_of_mem_fieldsAt {b : Nat} {pairs : List (Int × List UInt8)} {f : FixField}
    (bytes : mem.drop b = fieldsBytes pairs ++ (field FixSpec.CheckSum check ++ after))
    (member : f ∈ fieldsAt b pairs) :
    ∃ p ∈ pairs, ∃ offset rest, f = (pastField p.1 p.2 offset).cur ∧
      mem.drop offset = field p.1 p.2 ++ rest := by
  induction pairs generalizing b with
  | nil => cases member
  | cons p pairs ih =>
      obtain ⟨behind, -⟩ := bytes_behind bytes
      rcases List.mem_cons.mp member with rfl | later
      · rw [fieldsBytes_cons, List.append_assoc] at bytes
        exact ⟨p, List.mem_cons_self, b, _, rfl, bytes⟩
      · obtain ⟨q, pushed, rest⟩ := ih behind later
        exact ⟨q, List.mem_cons_of_mem p pushed, rest⟩

/-- The walk over a frame whose body is a MsgType field and a list of fields starts at the
offset `b` of the first of these. -/
theorem read_frame_at (msg : FixMessage) {beginString value : List UInt8} {type : UInt8}
    {pairs : List (Int × List UInt8)} {checkSum : Int}
    (bytes : mem.drop msg.begin_ =
      frame beginString (frameBody (type :: value) (fieldsBytes pairs)) checkSum ++ after)
    (cleanBegin : Clean beginString) (cleanType : Clean (type :: value)) (carried : Carried pairs)
    (short : (frameBody (type :: value) (fieldsBytes pairs)).length < 2 ^ 31)
    (low : -2 ^ 31 ≤ checkSum) (high : checkSum < 2 ^ 31) :
    ∃ (beginIt : FixFieldIterator) (b : Nat),
      let msg' := accepted msg.begin_ beginString (frameBody (type :: value) (fieldsBytes pairs))
        checkSum type beginIt
      msg.init mem = .ok msg' ∧
      mem.drop b = fieldsBytes pairs ++ (field FixSpec.CheckSum (fmtInt03 checkSum) ++ after) ∧
      msg'.fields mem (pairs.length + 1) = .ok (some (fieldsAt b pairs)) ∧
      ∀ tag, msg'.find mem tag (pairs.length + 1) =
        .ok (some ((((fieldsAt b pairs).find? (·.tag = tag)).map
          FixFieldIterator.mk).getD msg'.endIt)) := by
  obtain ⟨beginIt, first, run⟩ := init_frame msg bytes cleanBegin cleanType short low high
  generalize framing : field FixSpec.BeginString beginString ++ field FixSpec.BodyLength
    (Decimal.text (frameBody (type :: value) (fieldsBytes pairs)).length) = before at first
  -- the walk starts behind MsgType, at offset `b`
  generalize bEq : msg.begin_ + (before ++ field FixSpec.MsgType (type :: value)).length = b
  have layout : frame beginString (frameBody (type :: value) (fieldsBytes pairs)) checkSum ++
      after = (before ++ field FixSpec.MsgType (type :: value)) ++
        (fieldsBytes pairs ++ (field FixSpec.CheckSum (fmtInt03 checkSum) ++ after)) := by
    simp only [frame, frameHead, frameBody, ← framing, List.append_assoc]
  rw [layout] at bytes
  have behind := Bytes.drop_add_length bytes
  rw [bEq] at behind
  have start : (pastField FixSpec.MsgType (type :: value)
      (msg.begin_ + before.length)).cur.begin = some b := by
    rw [begin_pastField, ← bEq, List.length_append, Nat.add_assoc]
  have trailer : pastField FixSpec.CheckSum (fmtInt03 checkSum)
        (msg.begin_ +
          (frameHead beginString (frameBody (type :: value) (fieldsBytes pairs))).length) =
      pastField FixSpec.CheckSum (fmtInt03 checkSum) (b + (fieldsBytes pairs).length) := by
    congr 1
    simp only [← bEq, ← framing, frameHead, frameBody, List.length_append]
    omega
  have cleanCheck := clean_fmtInt03 checkSum
  have cursor := next_cursorAt _ start carried cleanCheck behind trailer
  cases first.symm.trans cursor
  exact ⟨_, b, run, behind, walk_fields carried cleanCheck behind trailer,
    findFrom_fields carried cleanCheck behind trailer⟩

/-- The reader. A frame whose body is a MsgType field and a list of fields, with any
bytes around it and whatever the message object held: the fields are visited in order,
and searched up to the trailer. -/
theorem read_frame (msg : FixMessage) {beginString value : List UInt8} {type : UInt8}
    {pairs : List (Int × List UInt8)} {checkSum : Int}
    (bytes : mem.drop msg.begin_ =
      frame beginString (frameBody (type :: value) (fieldsBytes pairs)) checkSum ++ after)
    (cleanBegin : Clean beginString) (cleanType : Clean (type :: value)) (carried : Carried pairs)
    (short : (frameBody (type :: value) (fieldsBytes pairs)).length < 2 ^ 31)
    (low : -2 ^ 31 ≤ checkSum) (high : checkSum < 2 ^ 31) :
    ∃ (beginIt : FixFieldIterator) (fields : List FixField),
      let msg' := accepted msg.begin_ beginString (frameBody (type :: value) (fieldsBytes pairs))
        checkSum type beginIt
      msg.init mem = .ok msg' ∧
      msg'.fields mem (pairs.length + 1) = .ok (some fields) ∧
      (fields.map fun f => (f.tag, f.asString mem)) = (pairs.map fun p => (p.1, .ok p.2)) ∧
      ∀ tag, msg'.find mem tag (pairs.length + 1) =
        .ok (some (((fields.find? (·.tag = tag)).map FixFieldIterator.mk).getD msg'.endIt)) := by
  obtain ⟨beginIt, b, run, behind, visited, found⟩ :=
    read_frame_at msg bytes cleanBegin cleanType carried short low high
  exact ⟨beginIt, fieldsAt b pairs, run, visited, fieldsAt_values behind, found⟩

end FixMessage

/-! ## The round trip -/

/-- **Round trip.** A message written into a buffer with room for it parses, for every
content of the bytes behind it and every garbage in the new message object: `init` accepts
it and reports its type, end and checksum, iteration visits exactly the pushed pairs, and
`find` the first field with a tag or `end( )`. -/
theorem FixWriter.write_roundTrip (mem : Mem) (begin len : Nat)
    (beginString msgType : List UInt8) (pairs : List (Int × List UInt8))
    (cleanBegin : Clean beginString) (cleanType : Clean msgType) (typed : msgType ≠ [])
    (tags : ∀ p ∈ pairs, 0 ≤ p.1 ∧ p.1 < 2 ^ 31 ∧ p.1 ≠ FixSpec.BeginString)
    (values : ∀ p ∈ pairs, Clean p.2)
    (short : (frameHead beginString (fieldsBytes ((FixSpec.MsgType, msgType) :: pairs))).length
      < 2 ^ 31)
    (room : begin + (frameHead beginString
      (fieldsBytes ((FixSpec.MsgType, msgType) :: pairs))).length + 8 ≤ mem.length) :
    ∃ (w : FixWriter) (check : List UInt8),
      write mem begin len beginString ((FixSpec.MsgType, msgType) :: pairs) = .ok w ∧
      w.bytes = frameHead beginString (fieldsBytes ((FixSpec.MsgType, msgType) :: pairs)) ++
        field FixSpec.CheckSum check ∧
      ∀ (after : List UInt8) (garbage : StackGarbage),
        let mem' := w.mem.take w.mCur ++ after
        ∃ (msg : FixMessage) (fields : List FixField),
          (FixMessage.new begin garbage).init mem' = .ok msg ∧
          msg.valid = true ∧
          some msg.type = msgType.head? ∧
          msg.end_ = some (begin + w.size) ∧
          msg.checksum.toNat = byteSum (frameHead beginString
            (fieldsBytes ((FixSpec.MsgType, msgType) :: pairs))) % 256 ∧
          msg.fields mem' (pairs.length + 1) = .ok (some fields) ∧
          (fields.map fun f => (f.tag, f.asString mem')) = (pairs.map fun p => (p.1, .ok p.2)) ∧
          ∀ tag, msg.find mem' tag (pairs.length + 1) =
            .ok (some (((fields.find? (·.tag = tag)).map FixFieldIterator.mk).getD msg.endIt)) := by
  obtain ⟨type, value, rfl⟩ := List.exists_cons_of_ne_nil typed
  have notBegin : ∀ f ∈ (FixSpec.MsgType, type :: value) :: pairs, f.1 ≠ FixSpec.BeginString := by
    intro f member
    rcases List.mem_cons.mp member with rfl | member
    · exact (by decide : FixSpec.MsgType ≠ FixSpec.BeginString)
    · exact (tags f member).2.2
  have written := write_eq len (List.cons_ne_nil _ pairs) notBegin room
  rw [if_pos short] at written
  obtain ⟨w, run, holds⟩ := written
  have body : fieldsBytes ((FixSpec.MsgType, type :: value) :: pairs) =
      frameBody (type :: value) (fieldsBytes pairs) := fieldsBytes_cons _ _
  rw [body] at short holds ⊢
  generalize headEq : frameHead beginString (frameBody (type :: value) (fieldsBytes pairs)) = head
    at short holds ⊢
  have range := signedCheck_range head
  have congruent := signedCheck_emod_256 head
  have start : w.mBegin = begin := by
    rw [holds.begin_, List.length_take]
    omega
  have bodyShort : (frameBody (type :: value) (fieldsBytes pairs)).length < 2 ^ 31 := by
    rw [← headEq, frameHead, List.length_append] at short
    omega
  have carried : FixMessage.Carried pairs :=
    fun p member => ⟨(tags p member).1, (tags p member).2.1, values p member⟩
  refine ⟨w, fmtInt03 (signedCheck head), run, ?_, fun after garbage => ?_⟩
  · rw [holds.bytes, frame, headEq]
  · intro mem'
    have bytes := holds.drop_take after
    rw [start] at bytes
    obtain ⟨beginIt, fields, parsed, visited, values, found⟩ :=
      FixMessage.read_frame (FixMessage.new begin garbage) bytes cleanBegin cleanType carried
        bodyShort (by omega) (by omega)
    refine ⟨_, fields, parsed, rfl, rfl, ?_, ?_, visited, values, found⟩
    · rw [holds.size]
      rfl
    · have checksum := toNat_toUInt8 (signedCheck head)
      change (toUInt8 (signedCheck head)).toNat = _
      omega

/-- A NewOrderSingle with a repeated tag, an `'='` and a byte above 127 in its values. -/
theorem FixWriter.write_roundTrip_order :
    ∃ (w : FixWriter) (check : List UInt8),
      write (List.replicate 64 0) 0 64 [70, 73, 88]
          ((35, [68]) :: [(58, [97, 61, 200]), (44, [49]), (58, [])]) = .ok w ∧
      w.bytes = frameHead [70, 73, 88] (fieldsBytes
          ((35, [68]) :: [(58, [97, 61, 200]), (44, [49]), (58, [])])) ++
        field FixSpec.CheckSum check ∧
      ∀ (after : List UInt8) (garbage : StackGarbage),
        let mem' := w.mem.take w.mCur ++ after
        ∃ (msg : FixMessage) (fields : List FixField),
          (FixMessage.new 0 garbage).init mem' = .ok msg ∧
          msg.valid = true ∧
          some msg.type = some 68 ∧
          msg.end_ = some (0 + w.size) ∧
          msg.checksum.toNat = byteSum (frameHead [70, 73, 88] (fieldsBytes
            ((35, [68]) :: [(58, [97, 61, 200]), (44, [49]), (58, [])]))) % 256 ∧
          msg.fields mem' 4 = .ok (some fields) ∧
          (fields.map fun f => (f.tag, f.asString mem')) =
            [(58, .ok [97, 61, 200]), (44, .ok [49]), (58, .ok [])] ∧
          ∀ tag, msg.find mem' tag 4 =
            .ok (some (((fields.find? (·.tag = tag)).map FixFieldIterator.mk).getD msg.endIt)) :=
  write_roundTrip (List.replicate 64 0) 0 64 [70, 73, 88] [68]
    [(58, [97, 61, 200]), (44, [49]), (58, [])] (by decide +kernel) (by decide +kernel)
    (by decide +kernel) (by decide +kernel) (by decide +kernel) (by decide +kernel)
    (by decide +kernel)

end OpenFix
