import OpenFix.FixParse.Message

/-!
# FIX frames

The wire form of a message, `8=v|9=N|` body `10=CCC|`, and what `init` makes of it.

`FixMessage.init_frame` is the parser's specification: on a frame at its start, with any
bytes before and after and whatever the message object held, `init` accepts, reports
the type and the checksum of the frame, and puts `end_` right behind it.
-/

namespace OpenFix

open FixFieldIterator (fieldBytes afterField)

/-- `tag=value<SOH>` for an integer tag. -/
def field (tag : Int) (value : List UInt8) : List UInt8 := fieldBytes (fmtInt tag) value

/-- The bytes the checksum runs over: BeginString, BodyLength and the body. -/
def frameHead (beginString body : List UInt8) : List UInt8 :=
  field FixSpec.BeginString beginString ++
    field FixSpec.BodyLength (Decimal.text body.length) ++ body

/-- A whole message with the number `check` spelled in its CheckSum field. -/
def frame (beginString body : List UInt8) (check : Int) : List UInt8 :=
  frameHead beginString body ++ field FixSpec.CheckSum (fmtInt03 check)

/-- The body of a message: the MsgType field first. -/
def frameBody (msgType rest : List UInt8) : List UInt8 := field FixSpec.MsgType msgType ++ rest

/-- The sum of the bytes, each as 0..255. -/
def byteSum (bytes : List UInt8) : Nat := (bytes.map UInt8.toNat).sum

/-! ## The numbers in the framing fields -/

theorem clean_fmtInt (n : Int) : Clean (fmtInt n) := by
  have digits : Clean (Decimal.text n.natAbs) :=
    clean_of_isDigit fun c member => Decimal.isDigit_of_mem_text member
  rw [fmtInt]
  split
  · intro c member
    rcases List.mem_cons.mp member with rfl | member
    · decide
    · exact digits c member
  · exact digits

/-- A BeginString and two MsgTypes. -/
theorem clean_beginString : Clean [70] := by decide +kernel

theorem clean_heartbeat : Clean [48] := by decide +kernel

theorem clean_logon : Clean [65] := by decide +kernel

theorem short_logon : (frameBody [65] []).length < 2 ^ 31 := by decide +kernel

theorem equalSign_notMem_fmtInt (n : Int) : equalSign ∉ fmtInt n := by
  have digits : equalSign ∉ Decimal.text n.natAbs :=
    fun member => absurd (Decimal.isDigit_of_mem_text member) (by decide)
  rw [fmtInt]
  split
  · exact List.not_mem_cons_of_ne_of_not_mem (by decide) digits
  · exact digits

theorem atoiText_fmtInt {n : Int} (nonneg : 0 ≤ n) (fits : n < 2 ^ 31) :
    Details.atoiText 10 (fmtInt n) = n :=
  Details.atoiText_fmtInt (by omega)

theorem strtol_text (n : Nat) (fits : n < 2 ^ 31) (rest : List UInt8) :
    strtol (Decimal.text n ++ SOH :: rest) = .ok n := by
  rw [strtol_digits (fun c member => Decimal.isDigit_of_mem_text member) (Decimal.text_ne_nil n)
    rfl rest, Decimal.value_text]
  congr 1
  omega

/-- A checksum text reads back, the sign of a negative one included. -/
theorem strtol_fmtInt03 {check : Int} (low : -2 ^ 31 ≤ check) (high : check < 2 ^ 31)
    (rest : List UInt8) : strtol (fmtInt03 check ++ SOH :: rest) = .ok check := by
  have all (k : Nat) : ∀ c ∈ Decimal.padded k check.natAbs, Decimal.isDigit c = true :=
    fun c member => Decimal.isDigit_of_mem_padded member
  rw [fmtInt03]
  split
  · rw [strtol_minus_digits (all 2) rfl rest, Decimal.value_padded]
    congr 1
    omega
  · have nonempty : Decimal.padded 3 check.natAbs ≠ [] :=
      List.append_ne_nil_of_right_ne_nil _ (Decimal.text_ne_nil _)
    rw [strtol_digits (all 3) nonempty rfl rest, Decimal.value_padded]
    congr 1
    omega

theorem clean_fmtInt03 (n : Int) : Clean (fmtInt03 n) := by
  have digits (k : Nat) : Clean (Decimal.padded k n.natAbs) :=
    clean_of_isDigit fun c member => Decimal.isDigit_of_mem_padded member
  rw [fmtInt03]
  split
  · intro c member
    rcases List.mem_cons.mp member with rfl | member
    · decide
    · exact digits 2 c member
  · exact digits 3

/-! ## Steps of the cursor over a field -/

theorem length_field (tag : Int) (value : List UInt8) :
    (field tag value).length = (fmtInt tag).length + value.length + 2 :=
  FixFieldIterator.length_fieldBytes _ _

theorem field_ne_nil (tag : Int) (value : List UInt8) : field tag value ≠ [] := by
  rw [← List.length_pos_iff, length_field]
  omega

/-- Whatever precedes a field, its delimiter lies ahead. -/
theorem delimiter_ahead (before : List UInt8) (tag : Int) (value after : List UInt8) :
    before ++ (field tag value ++ after) =
      (before ++ fmtInt tag ++ equalSign :: value) ++ SOH :: after := by
  simp only [field, fieldBytes, List.append_assoc, List.cons_append, List.nil_append]

/-- The cursor after the step over `field tag value` at offset `b`. -/
def pastField (tag : Int) (value : List UInt8) (b : Nat) : FixFieldIterator :=
  afterField tag (fmtInt tag) value b

@[simp] theorem tag_pastField (tag : Int) (value : List UInt8) (b : Nat) :
    (pastField tag value b).cur.tag = tag :=
  rfl

@[simp] theorem begin_pastField (tag : Int) (value : List UInt8) (b : Nat) :
    (pastField tag value b).cur.begin = some (b + (field tag value).length) :=
  rfl

theorem next_field {mem : Mem} (it : FixFieldIterator) {b : Nat} {tag : Int}
    {value rest : List UInt8} (at_ : it.cur.begin = some b)
    (bytes : mem.drop b = field tag value ++ rest) (nonneg : 0 ≤ tag) (fits : tag < 2 ^ 31)
    (clean : Clean value) :
    FixFieldIterator.next SOH mem it = .ok (pastField tag value b) := by
  rw [FixFieldIterator.next_field it at_ bytes (clean_fmtInt tag) (equalSign_notMem_fmtInt tag)
      clean,
    atoiText_fmtInt nonneg fits, pastField]

/-- The value of a field starts behind its `'='`. -/
theorem drop_value {mem : Mem} {b : Nat} {tag : Int} {value rest : List UInt8}
    (bytes : mem.drop b = field tag value ++ rest) :
    mem.drop (b + (fmtInt tag).length + 1) = value ++ SOH :: rest := by
  have layout : field tag value ++ rest =
      (fmtInt tag ++ [equalSign]) ++ (value ++ SOH :: rest) := by
    simp only [field, fieldBytes, List.append_assoc, List.cons_append, List.nil_append]
  rw [layout] at bytes
  have rest := Bytes.drop_add_length bytes
  rwa [List.length_append, List.length_singleton, ← Nat.add_assoc] at rest

theorem asString_pastField {mem : Mem} {b : Nat} {tag : Int} {value rest : List UInt8}
    (bytes : mem.drop b = field tag value ++ rest) :
    (pastField tag value b).cur.asString mem = .ok value := by
  simp only [FixField.asString, pastField, afterField, Bytes.slice]
  rw [drop_value bytes, Nat.add_sub_cancel_left, List.take_left]

theorem asInt_pastField {mem : Mem} {b : Nat} {tag n : Int} {value rest : List UInt8}
    (bytes : mem.drop b = field tag value ++ rest)
    (spelled : strtol (value ++ SOH :: rest) = .ok n) (low : -2 ^ 31 ≤ n) (high : n < 2 ^ 31) :
    (pastField tag value b).cur.asInt mem = .ok n := by
  simp only [FixField.asInt, pastField, afterField, stdAtoi]
  rw [drop_value bytes, spelled, Except.map, wrap32_of_range low high]

theorem asChar_pastField {mem : Mem} {b : Nat} {tag : Int} {c : UInt8} {value rest : List UInt8}
    (bytes : mem.drop b = field tag (c :: value) ++ rest) :
    (pastField tag (c :: value) b).cur.asChar mem = .ok c := by
  have head : mem[b + (fmtInt tag).length + 1]? = some c := by
    have first := congrArg (fun cs : List UInt8 => cs[0]?) (drop_value bytes)
    rwa [List.getElem?_drop, Nat.add_zero] at first
  simp only [FixField.asChar, pastField, afterField, head]

/-! ## `init` on a frame -/

/-- The message object `init` leaves on a frame at `b`, apart from its forward cursor. -/
def FixMessage.accepted (b : Nat) (beginString body : List UInt8) (check : Int) (type : UInt8)
    (beginIt : FixFieldIterator) : FixMessage where
  begin_ := b
  end_ := some (b + (frame beginString body check).length)
  beginIt := beginIt
  endIt := pastField FixSpec.CheckSum (fmtInt03 check) (b + (frameHead beginString body).length)
  checksum := toUInt8 check
  type := type
  valid := true

/-- The parser on a frame. Nothing the message object held before matters, nor any
byte before or behind the frame; the body behind the MsgType field is arbitrary. -/
theorem FixMessage.init_frame {mem : Mem} (msg : FixMessage)
    {beginString value rest after : List UInt8} {type : UInt8} {check : Int}
    (bytes : mem.drop msg.begin_ =
      frame beginString (frameBody (type :: value) rest) check ++ after)
    (cleanBegin : Clean beginString) (cleanType : Clean (type :: value))
    (short : (frameBody (type :: value) rest).length < 2 ^ 31)
    (low : -2 ^ 31 ≤ check) (high : check < 2 ^ 31) :
    ∃ beginIt,
      FixFieldIterator.next SOH mem (pastField FixSpec.MsgType (type :: value)
        (msg.begin_ + (field FixSpec.BeginString beginString ++ field FixSpec.BodyLength
          (Decimal.text (frameBody (type :: value) rest).length)).length)) = .ok beginIt ∧
      msg.init mem = .ok (accepted msg.begin_ beginString (frameBody (type :: value) rest) check
        type beginIt) := by
  generalize bodyEq : frameBody (type :: value) rest = body at *
  have layout : frame beginString body check ++ after =
      field FixSpec.BeginString beginString ++
        (field FixSpec.BodyLength (Decimal.text body.length) ++
          (body ++ (field FixSpec.CheckSum (fmtInt03 check) ++ after))) := by
    simp only [frame, frameHead, List.append_assoc]
  rw [layout] at bytes
  -- the four places a cursor steps from: the fields 8, 9, 10 and 35
  have bytes9 := Bytes.drop_add_length bytes
  have bytes35 := Bytes.drop_add_length bytes9
  have bytes10 := Bytes.drop_add_length bytes35
  generalize p9Eq : msg.begin_ + (field FixSpec.BeginString beginString).length = p9 at *
  generalize p35Eq : p9 + (field FixSpec.BodyLength (Decimal.text body.length)).length = p35 at *
  generalize p10Eq : p35 + body.length = p10 at *
  have inside := Bytes.add_length_le bytes10 (field_ne_nil _ _)
  have step8 := next_field ⟨{ msg.beginIt.cur with begin := some msg.begin_ }⟩ rfl bytes
    (by decide) (by decide) cleanBegin
  have step9 := next_field (pastField FixSpec.BeginString beginString msg.begin_)
    (by rw [← p9Eq]; rfl) bytes9 (by decide) (by decide)
    (clean_of_isDigit fun c member => Decimal.isDigit_of_mem_text member)
  have bodyLength := asInt_pastField bytes9 (strtol_text body.length short _) (by omega) (by omega)
  have step10 := next_field ⟨{ msg.endIt.cur with begin := some p10 }⟩ rfl bytes10
    (by decide) (by decide) (clean_fmtInt03 check)
  have checkSum := asInt_pastField bytes10 (strtol_fmtInt03 low high _) low high
  have bodyFirst : mem.drop p35 = field FixSpec.MsgType (type :: value) ++
      (rest ++ (field FixSpec.CheckSum (fmtInt03 check) ++ after)) := by
    rw [bytes35, ← bodyEq, frameBody, List.append_assoc]
  have step35 := next_field
    (pastField FixSpec.BodyLength (Decimal.text body.length) p9)
    (by rw [← p35Eq]; rfl) bodyFirst (by decide) (by decide) cleanType
  have typeChar := asChar_pastField bodyFirst
  -- behind MsgType the cursor only needs a delimiter ahead: the trailer's
  obtain ⟨beginIt, stepRest⟩ := FixFieldIterator.next_total
    (pastField FixSpec.MsgType (type :: value) p35) rfl
    (Bytes.drop_add_length bodyFirst |>.trans (delimiter_ahead rest _ _ after)) (.inr rfl)
  have jump : movePtr mem
      (pastField FixSpec.BodyLength (Decimal.text body.length) p9).cur.valEnd
      (body.length + 1) = .ok (some p10) := by
    apply movePtr_of_le
    · rw [length_field] at p35Eq
      omega
    · omega
  have stop : movePtr mem (pastField FixSpec.CheckSum (fmtInt03 check) p10).cur.valEnd 1 =
      .ok (some (p10 + (field FixSpec.CheckSum (fmtInt03 check)).length)) := by
    apply movePtr_of_le
    · rw [length_field]
      omega
    · exact inside
  have nonzero : (body.length : Int) ≠ 0 := by
    rw [← bodyEq, frameBody, List.length_append, length_field]
    omega
  have start35 : msg.begin_ + (field FixSpec.BeginString beginString ++
      field FixSpec.BodyLength (Decimal.text body.length)).length = p35 := by
    rw [List.length_append]
    omega
  have end_ : msg.begin_ + (frame beginString body check).length =
      p10 + (field FixSpec.CheckSum (fmtInt03 check)).length := by
    simp only [frame, frameHead, List.length_append]
    omega
  have trailer : msg.begin_ + (frameHead beginString body).length = p10 := by
    simp only [frameHead, List.length_append]
    omega
  refine ⟨beginIt, by rw [start35]; exact stepRest, ?_⟩
  simp only [FixMessage.init, step8, step9, bodyLength, jump, step10, stop, checkSum, step35,
    typeChar, stepRest, ok_bind, tag_pastField, ne_eq, not_true_eq_false, nonzero, if_false]
  rw [FixMessage.accepted, end_, trailer]
  rfl

end OpenFix
