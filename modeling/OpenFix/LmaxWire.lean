import OpenFix.FixClient.Deframe
import OpenFix.Lmax

/-!
# The messages of `lmax.h` on the wire

* `Lmax.wireMessage`: with a configuration without NUL and SOH, each message is one that
  `fix_message_t` accepts, whatever the clock and the number.
* `Lmax.read_create`: what a new `fix_message_t` reads back from a buffer in which `create_*`
  left its message, field by field, the numbers by `as_int`.
-/

namespace OpenFix

open Client (PostKind)
open FixWriter (fieldsBytes fieldsBytes_cons signedCheck signedCheck_range)

/-- A number in front of a delimiter reads back. -/
theorem strtol_fmtInt {n : Int} (low : -2 ^ 31 ≤ n) (high : n < 2 ^ 31) (rest : List UInt8) :
    strtol (fmtInt n ++ SOH :: rest) = .ok n := by
  rw [fmtInt]
  split
  case isTrue negative =>
    have digits : ∀ c ∈ Decimal.text n.natAbs, Decimal.isDigit c = true :=
      fun c member => Decimal.isDigit_of_mem_text member
    rw [strtol_minus_digits digits rfl rest, Decimal.value_text]
    congr 1
    omega
  case isFalse nonneg =>
    rw [strtol_text n.natAbs (by omega) rest]
    congr 1
    omega

namespace FixMessage

variable {mem : Mem} {b : Nat} {pairs : List (Int × List UInt8)} {check after : List UInt8}

/-- A visited field whose text is a number is that number to `as_int`. -/
theorem asInt_of_asString {f : FixField} {n : Int}
    (bytes : mem.drop b = fieldsBytes pairs ++ (field FixSpec.CheckSum check ++ after))
    (member : f ∈ fieldsAt b pairs) (text : f.asString mem = .ok (fmtInt n))
    (low : -2 ^ 31 ≤ n) (high : n < 2 ^ 31) : f.asInt mem = .ok n := by
  obtain ⟨p, -, offset, rest, rfl, at_⟩ := exists_of_mem_fieldsAt bytes member
  rw [asString_pastField at_] at text
  injection text with value
  refine asInt_pastField at_ ?_ low high
  rw [value]
  exact strtol_fmtInt low high rest

/-- The first field with a tag that only one text was pushed with. -/
theorem find?_fieldsAt {tag : Int} {value : List UInt8}
    (bytes : mem.drop b = fieldsBytes pairs ++ (field FixSpec.CheckSum check ++ after))
    (pushed : (tag, value) ∈ pairs) (unique : ∀ p ∈ pairs, p.1 = tag → p.2 = value) :
    ∃ f ∈ fieldsAt b pairs, (fieldsAt b pairs).find? (·.tag = tag) = some f ∧
      f.asString mem = .ok value := by
  have tags : (fieldsAt b pairs).map (·.tag) = pairs.map Prod.fst := by
    have values := congrArg (List.map Prod.fst) (fieldsAt_values bytes)
    simpa only [List.map_map, Function.comp_def] using values
  have visited : tag ∈ (fieldsAt b pairs).map (·.tag) := by
    rw [tags]
    exact List.mem_map_of_mem pushed
  obtain ⟨g, memberG, tagG⟩ := List.mem_map.mp visited
  cases found : (fieldsAt b pairs).find? (·.tag = tag) with
  | none => exact absurd tagG (by simpa using List.find?_eq_none.mp found g memberG)
  | some f =>
      have tagF : f.tag = tag := by simpa using List.find?_some found
      have member := List.mem_of_find?_eq_some found
      obtain ⟨p, memberP, offset, rest, rfl, at_⟩ := exists_of_mem_fieldsAt bytes member
      refine ⟨_, member, rfl, ?_⟩
      rw [asString_pastField at_, unique p memberP tagF]

end FixMessage

namespace Lmax

/-- No string of the configuration has a NUL or a delimiter. -/
structure Plain (lmax : Lmax) : Prop where
  fixVer : Clean lmax.fixVer
  targetId : Clean lmax.targetId
  senderId : Clean lmax.senderId

/-- The MsgType of a message. -/
def msgType : PostKind → UInt8
  | .logon => 65
  | .heartbeat => 48
  | .marketRequest => 86

/-- The fields behind MsgType. -/
def pairs (lmax : Lmax) (kind : PostKind) (time : List UInt8) (seq : Int) :
    List (Int × List UInt8) :=
  (lmax.fields kind time seq).tail

variable {lmax : Lmax} {time : List UInt8} {seq : Int}

theorem fields_eq (lmax : Lmax) (kind : PostKind) (time : List UInt8) (seq : Int) :
    lmax.fields kind time seq =
      (FixSpec.MsgType, [msgType kind]) :: lmax.pairs kind time seq := by
  cases kind with
  | logon => rfl
  | heartbeat => rfl
  | marketRequest => rfl

theorem clean_msgType (kind : PostKind) : Clean [msgType kind] := by
  cases kind with
  | logon => exact clean_logon
  | heartbeat => exact clean_heartbeat
  | marketRequest => decide +kernel

/-- The fields behind MsgSeqNum. -/
def body (lmax : Lmax) (kind : PostKind) : List (Int × List UInt8) :=
  (lmax.pairs kind [] 0).drop 4

theorem pairs_eq (lmax : Lmax) (kind : PostKind) (time : List UInt8) (seq : Int) :
    lmax.pairs kind time seq =
      [(FixSpec.TargetCompID, lmax.targetId), (FixSpec.SenderCompID, lmax.senderId),
        (FixSpec.SendingTime, time)] ++ (FixSpec.MsgSeqNum, fmtInt seq) :: lmax.body kind := by
  cases kind with
  | logon => rfl
  | heartbeat => rfl
  | marketRequest => rfl

theorem tags_body (lmax : Lmax) (kind : PostKind) :
    ∀ p ∈ lmax.body kind, 0 ≤ p.1 ∧ p.1 < 2 ^ 31 ∧ p.1 ≠ FixSpec.MsgSeqNum := by
  have tags : ∀ tag ∈ (lmax.body kind).map Prod.fst,
      0 ≤ tag ∧ tag < 2 ^ 31 ∧ tag ≠ FixSpec.MsgSeqNum := by
    cases kind with
    | logon =>
        simp only [body, pairs, fields, logonFields, List.tail_cons, List.drop_succ_cons,
          List.drop_zero, List.map_cons, List.map_nil]
        decide
    | heartbeat => exact fun _ member => (List.not_mem_nil member).elim
    | marketRequest =>
        simp only [body, pairs, fields, marketRequestFields, List.tail_cons, List.drop_succ_cons,
          List.drop_zero, List.map_cons, List.map_nil]
        decide
  exact fun p member => tags p.1 (List.mem_map_of_mem member)

theorem Plain.body (plain : lmax.Plain) (kind : PostKind) : ∀ p ∈ lmax.body kind, Clean p.2 := by
  have number := clean_fmtInt
  have none_ : ∀ p ∈ ([] : List (Int × List UInt8)), Clean p.2 :=
    fun _ member => (List.not_mem_nil member).elim
  cases kind with
  | logon =>
      have yes : Clean [89] := by decide +kernel
      simp only [Lmax.body, pairs, fields, logonFields, List.tail_cons, List.drop_succ_cons,
        List.drop_zero, List.forall_mem_cons]
      exact ⟨yes, number 0, number 30, plain.senderId, plain.senderId, none_⟩
  | heartbeat => exact none_
  | marketRequest =>
      have test : Clean [84, 69, 83, 84] := by decide +kernel
      simp only [Lmax.body, pairs, fields, marketRequestFields, List.tail_cons,
        List.drop_succ_cons, List.drop_zero, List.forall_mem_cons]
      exact ⟨test, number 1, number 0, number 2, number 0, number 1, number 4, number 5002,
        number 8, number 5003, number 8, number 5004, number 8, number 5005, number 8, none_⟩

/-- The fields are those that `push_field` and `next` can carry. -/
theorem Plain.carried (plain : lmax.Plain) (kind : PostKind) (clean : Clean time) :
    FixMessage.Carried (lmax.pairs kind time seq) := by
  intro p member
  rw [pairs_eq] at member
  have tags : ∀ tag ∈ [FixSpec.TargetCompID, FixSpec.SenderCompID, FixSpec.SendingTime,
      FixSpec.MsgSeqNum], 0 ≤ tag ∧ tag < 2 ^ 31 := by decide
  simp only [List.cons_append, List.nil_append, List.mem_cons] at member
  simp only [List.forall_mem_cons] at tags
  obtain ⟨target, sender, sending, number, -⟩ := tags
  rcases member with rfl | rfl | rfl | rfl | member
  · exact ⟨target.1, target.2, plain.targetId⟩
  · exact ⟨sender.1, sender.2, plain.senderId⟩
  · exact ⟨sending.1, sending.2, clean⟩
  · exact ⟨number.1, number.2, clean_fmtInt seq⟩
  · obtain ⟨nonneg, fits, -⟩ := lmax.tags_body kind p member
    exact ⟨nonneg, fits, plain.body kind p member⟩

/-- MsgSeqNum is pushed once, with the number of `next_seq`. -/
theorem seqNum_pairs (lmax : Lmax) (kind : PostKind) (time : List UInt8) (seq : Int) :
    (FixSpec.MsgSeqNum, fmtInt seq) ∈ lmax.pairs kind time seq ∧
      ∀ p ∈ lmax.pairs kind time seq, p.1 = FixSpec.MsgSeqNum → p.2 = fmtInt seq := by
  rw [pairs_eq]
  refine ⟨List.mem_append_right _ List.mem_cons_self, fun p member same => ?_⟩
  have others : FixSpec.TargetCompID ≠ FixSpec.MsgSeqNum ∧
      FixSpec.SenderCompID ≠ FixSpec.MsgSeqNum ∧ FixSpec.SendingTime ≠ FixSpec.MsgSeqNum := by
    decide
  obtain ⟨target, sender, sending⟩ := others
  simp only [List.cons_append, List.nil_append, List.mem_cons] at member
  rcases member with rfl | rfl | rfl | rfl | member
  · exact absurd same target
  · exact absurd same sender
  · exact absurd same sending
  · rfl
  · exact absurd same (lmax.tags_body kind p member).2.2

/-! ## The message as the parser sees it -/

/-- The bytes between BodyLength and CheckSum. -/
theorem fieldsBytes_fields (lmax : Lmax) (kind : PostKind) (time : List UInt8) (seq : Int) :
    fieldsBytes (lmax.fields kind time seq) =
      frameBody [msgType kind] (fieldsBytes (lmax.pairs kind time seq)) := by
  rw [fields_eq, fieldsBytes_cons]
  rfl

theorem bytes_eq (lmax : Lmax) (kind : PostKind) (time : List UInt8) (seq : Int) :
    lmax.bytes kind time seq =
      frame lmax.fixVer (frameBody [msgType kind] (fieldsBytes (lmax.pairs kind time seq)))
        (signedCheck (lmax.head kind time seq)) := by
  rw [bytes, fieldsBytes_fields]

theorem short_body {kind : PostKind} (short : (lmax.head kind time seq).length < 2 ^ 31) :
    (frameBody [msgType kind] (fieldsBytes (lmax.pairs kind time seq))).length < 2 ^ 31 := by
  rw [head, frameHead, List.length_append, fieldsBytes_fields] at short
  omega

/-- A message of the client, for its peer. -/
def wireMessage (plain : lmax.Plain) (kind : PostKind) (time : List UInt8) (seq : Int)
    (short : (lmax.head kind time seq).length < 2 ^ 31) : WireMessage where
  beginString := lmax.fixVer
  type := msgType kind
  typeRest := []
  rest := fieldsBytes (lmax.pairs kind time seq)
  check := signedCheck (lmax.head kind time seq)
  cleanBegin := plain.fixVer
  cleanType := clean_msgType kind
  short := short_body short
  checkLow := (by decide : (-2 ^ 31 : Int) ≤ -256).trans (signedCheck_range _).1.le
  checkHigh := (signedCheck_range _).2.trans (by decide)

theorem bytes_wireMessage (plain : lmax.Plain) (kind : PostKind) (time : List UInt8) (seq : Int)
    (short : (lmax.head kind time seq).length < 2 ^ 31) :
    (wireMessage plain kind time seq short).bytes = lmax.bytes kind time seq :=
  (lmax.bytes_eq kind time seq).symm

/-- What a new `fix_message_t` on offset `b` reads there: the fields in order, those spelled as
an `int` by `as_int`, and behind `find` the number of the message. -/
def Read (lmax : Lmax) (kind : PostKind) (time : List UInt8) (seq : Int) (mem : Mem) (b : Nat) :
    Prop :=
  ∀ garbage, ∃ (msg : FixMessage) (fields : List FixField) (number : FixFieldIterator),
    let passes := (lmax.pairs kind time seq).length + 1
    (FixMessage.new b garbage).init mem = .ok msg ∧
    msg.valid = true ∧ msg.type = msgType kind ∧
    msg.end_ = some (b + (lmax.bytes kind time seq).length) ∧
    msg.fields mem passes = .ok (some fields) ∧
    (fields.map fun f => (f.tag, f.asString mem)) =
      ((lmax.pairs kind time seq).map fun p => (p.1, .ok p.2)) ∧
    (∀ f ∈ fields, ∀ n : Int, f.asString mem = .ok (fmtInt n) → -2 ^ 31 ≤ n → n < 2 ^ 31 →
      f.asInt mem = .ok n) ∧
    msg.find mem FixSpec.MsgSeqNum passes = .ok (some number) ∧
    number.cur.asInt mem = .ok seq

theorem read_bytes {kind : PostKind} {mem : Mem} {b : Nat} {after : List UInt8}
    (bytes : mem.drop b = lmax.bytes kind time seq ++ after) (plain : lmax.Plain)
    (clean : Clean time) (low : -2 ^ 31 ≤ seq) (high : seq < 2 ^ 31)
    (short : (lmax.head kind time seq).length < 2 ^ 31) : lmax.Read kind time seq mem b := by
  intro garbage
  obtain ⟨lower, upper⟩ := signedCheck_range (lmax.head kind time seq)
  rw [bytes_eq] at bytes
  obtain ⟨beginIt, start, parsed, behind, visited, found⟩ :=
    FixMessage.read_frame_at (FixMessage.new b garbage) bytes plain.fixVer
      (clean_msgType kind) (plain.carried kind clean) (short_body short) (by omega) (by omega)
  obtain ⟨pushed, unique⟩ := lmax.seqNum_pairs kind time seq
  obtain ⟨f, member, first, text⟩ := FixMessage.find?_fieldsAt behind pushed unique
  refine ⟨_, _, ⟨f⟩, parsed, rfl, rfl, ?_, visited, FixMessage.fieldsAt_values behind,
    fun g memberG n spelled => FixMessage.asInt_of_asString behind memberG spelled, ?_,
    FixMessage.asInt_of_asString behind member text low high⟩
  · rw [bytes_eq]
    rfl
  · rw [found, first]
    rfl

/-- **What `create_*` sends, a peer reads,** whatever is behind the buffer and in the new
message object. -/
theorem read_create (lmax : Lmax) (plain : lmax.Plain) (kind : PostKind) (mem : Mem)
    (buf bufSize : Nat) (time : List UInt8) (clean : Clean time) (seq : Int)
    (low : -2 ^ 31 ≤ seq) (high : seq < 2 ^ 31)
    (short : (lmax.head kind time seq).length < 2 ^ 31)
    (room : buf + (lmax.head kind time seq).length + 8 ≤ mem.length) :
    ∃ mem' size, lmax.create kind mem buf bufSize time seq = .ok (mem', size) ∧
      size = (lmax.bytes kind time seq).length ∧ lmax.Read kind time seq mem' buf := by
  refine ⟨_, _, lmax.create_eq kind bufSize time seq short room, rfl, ?_⟩
  have start : buf ≤ mem.length := by omega
  have written : (Bytes.overwrite mem buf (lmax.bytes kind time seq)).drop buf =
      lmax.bytes kind time seq ++ mem.drop (buf + (lmax.bytes kind time seq).length) := by
    rw [Bytes.overwrite, List.append_assoc,
      List.drop_left' (by rw [List.length_take, Nat.min_eq_left start])]
  exact read_bytes written plain clean low high short

theorem plain_sample : sample.Plain :=
  ⟨by decide +kernel, by decide +kernel, by decide +kernel⟩

/-- A market request with number 7. -/
theorem read_create_marketRequest :
    ∃ mem' size, sample.create .marketRequest (List.replicate 512 0) 0 512 [] 7 =
        .ok (mem', size) ∧
      ∀ garbage, ∃ msg number, (FixMessage.new 0 garbage).init mem' = .ok msg ∧
        msg.type = 86 ∧ msg.end_ = some (0 + size) ∧
        msg.find mem' FixSpec.MsgSeqNum 20 = .ok (some number) ∧
        number.cur.asInt mem' = .ok 7 := by
  have short : (sample.head .marketRequest [] 7).length < 2 ^ 31 := by decide +kernel
  have room : 0 + (sample.head .marketRequest [] 7).length + 8 ≤
      (List.replicate 512 (0 : UInt8)).length := by decide +kernel
  obtain ⟨mem', size, created, length, reads⟩ := read_create sample plain_sample .marketRequest
    (List.replicate 512 0) 0 512 [] nofun 7 (by decide) (by decide) short room
  refine ⟨mem', size, created, fun garbage => ?_⟩
  obtain ⟨msg, -, number, parsed, -, type, ends, -, -, -, found, reads⟩ := reads garbage
  exact ⟨msg, number, parsed, type, length ▸ ends, found, reads⟩

end Lmax

end OpenFix
