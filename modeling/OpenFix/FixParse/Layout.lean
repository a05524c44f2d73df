import OpenFix.FixParse.Grammar

/-!
# Where BodyLength leads

`init` jumps over the number of bytes that field 9 spells, and looks at nothing but the tag
where it lands.

* `Jumps.framing_eq`: up to the jump.
* `Layout`: what stands around an accepted message, as text.
* `FixMessage.framed_iff`: when it is framed as the FIX format has it.
-/

namespace OpenFix

open FixFieldIterator (fieldBytes)

/-! ## Fields where they are read -/

@[simp] theorem TextField.placed_tag (f : TextField) (b : Nat) : (f.placed b).tag = f.tag := rfl

/-- `as_int` on the value of a field. -/
theorem TextField.stdAtoi_placed {mem : Mem} {b : Nat} {f : TextField} {rest : List UInt8}
    (bytes : mem.drop b = f.bytes ++ rest) :
    stdAtoi mem (some (f.placed b).valBegin) = .ok f.number := by
  have layout : f.bytes ++ rest = (f.tagText ++ [equalSign]) ++ (f.value ++ [SOH] ++ rest) := by
    simp only [TextField.bytes, fieldBytes, List.append_assoc, List.cons_append, List.nil_append]
  rw [layout] at bytes
  have window := Bytes.drop_add_length bytes
  rw [List.length_append, List.length_singleton, ← Nat.add_assoc] at window
  have inside : Inside (strtol (f.value ++ [SOH])) := strtol_inside f.value (.inr rfl) []
  simp only [stdAtoi, TextField.placed, TextField.number]
  rw [window, strtol_extends (f.value ++ [SOH]) rest inside]
  cases read : strtol (f.value ++ [SOH]) with
  | ok n => rfl
  | error fault => exact (inside (strtol_overrun read ▸ read)).elim

/-- In front of a NUL there is a field, or none. -/
theorem field_or_none {mem : Mem} {p : Nat} {t after : List UInt8}
    (bytes : mem.drop p = t ++ 0 :: after) :
    (∃ (f : TextField) (rest : List UInt8), t = f.bytes ++ rest ∧
      wholeField mem (some p) = .ok (some (f.placed p))) ∨
    (∀ (f : TextField) (rest : List UInt8), t ≠ f.bytes ++ rest) ∧
      wholeField mem (some p) = .ok none := by
  obtain ⟨found, read⟩ := wholeField_total bytes
  cases found with
  | some field =>
      obtain ⟨f, rest, split, rfl⟩ := wholeField_iff.mp read
      obtain ⟨rest, begins, -⟩ := TextField.prefix_of_nul (bytes.symm.trans split)
      exact .inl ⟨f, rest, begins, read⟩
  | none =>
      refine .inr ⟨?_, read⟩
      intro f rest begins
      rw [begins, List.append_assoc] at bytes
      cases read.symm.trans (wholeField_of_text bytes)

/-! ## Up to the jump and behind it -/

/-- Fields 8 and 9 with a number that is not 0, and what is behind them. -/
structure Jumps (s : List UInt8) (first second : TextField) (rest : List UInt8) : Prop where
  bytes : s = first.bytes ++ (second.bytes ++ rest)
  tag8 : first.tag = FixSpec.BeginString
  tag9 : second.tag = FixSpec.BodyLength
  nonzero : second.number ≠ 0

theorem Jumps.unique {s rest rest' : List UInt8} {first first' second second' : TextField}
    (jumps : Jumps s first second rest) (jumps' : Jumps s first' second' rest') :
    first = first' ∧ second = second' := by
  obtain ⟨same, behind⟩ := TextField.unique (jumps.bytes.symm.trans jumps'.bytes)
  exact ⟨same, (TextField.unique behind).1⟩

/-- What `framing` does from the landing place on, with field 9 at `length`. -/
def landed (mem : Mem) (length : WholeField) (landing : Ptr) : Except Fault Framing := do
  match ← wholeField mem landing with
  | none => return .noTrailer
  | some trailer =>
      if trailer.tag ≠ FixSpec.CheckSum then
        return .malformed
      let checksum ← stdAtoi mem (some trailer.valBegin)
      match ← wholeField mem (some (length.valEnd + 1)) with
      | none => return .malformed
      | some type =>
          if type.tag ≠ FixSpec.MsgType then
            return .malformed
          let first ← type.past.cur.asChar mem
          let beginIt ← FixFieldIterator.next SOH mem type.past
          return .message (trailer.valEnd + 1) beginIt trailer.past (toUInt8 checksum) first

section

variable {mem : Mem} {b : Nat} {first second : TextField} {rest : List UInt8}

/-- Field 9 behind field 8. -/
theorem Jumps.drop_second (jumps : Jumps (mem.drop b) first second rest) :
    mem.drop (b + first.bytes.length) = second.bytes ++ rest :=
  Bytes.drop_add_length jumps.bytes

theorem Jumps.drop_body (jumps : Jumps (mem.drop b) first second rest) :
    mem.drop (b + first.bytes.length + second.bytes.length) = rest :=
  Bytes.drop_add_length jumps.drop_second

theorem Jumps.framing_eq (jumps : Jumps (mem.drop b) first second rest) :
    framing mem b =
      (movePtr mem (some (second.placed (b + first.bytes.length)).valEnd) (second.number + 1) >>=
        landed mem (second.placed (b + first.bytes.length))) := by
  have behind := jumps.drop_second
  unfold framing
  rw [wholeField_of_text jumps.bytes, ok_bind]
  dsimp only
  rw [first.placed_tag, if_neg (not_not.mpr jumps.tag8), first.valEnd_placed,
    wholeField_of_text behind, ok_bind]
  dsimp only
  rw [second.placed_tag, if_neg (not_not.mpr jumps.tag9), TextField.stdAtoi_placed behind,
    ok_bind, if_neg jumps.nonzero]
  rfl

/-- `init` accepts nothing without the jump. -/
theorem exists_jumps {end_ : Nat} {beginIt endIt : FixFieldIterator} {checksum type : UInt8}
    (framed : framing mem b = .ok (.message end_ beginIt endIt checksum type)) :
    ∃ first second rest, Jumps (mem.drop b) first second rest := by
  unfold framing at framed
  obtain ⟨found8, read8, framed⟩ := of_bind_ok framed
  cases found8 with
  | none => cases framed
  | some first =>
  obtain ⟨first, rest8, bytes8, rfl⟩ := wholeField_iff.mp read8
  dsimp only at framed
  split at framed
  case isTrue => cases framed
  case isFalse tag8 =>
  obtain ⟨found9, read9, framed⟩ := of_bind_ok framed
  cases found9 with
  | none => cases framed
  | some length =>
  rw [TextField.valEnd_placed] at read9
  obtain ⟨second, rest9, bytes9, rfl⟩ := wholeField_iff.mp read9
  dsimp only at framed
  split at framed
  case isTrue => cases framed
  case isFalse tag9 =>
  rw [TextField.stdAtoi_placed bytes9, ok_bind] at framed
  split at framed
  case isTrue => cases framed
  case isFalse nonzero =>
  refine ⟨first, second, rest9, ?_, not_not.mp tag8, not_not.mp tag9, nonzero⟩
  rw [bytes8, ← bytes9, Bytes.drop_add_length bytes8]

/-- What `init` finds behind the jump when it accepts. -/
theorem landed_message {length : WholeField} {landing end_ : Nat} {beginIt endIt : FixFieldIterator}
    {checksum type : UInt8}
    (framed : landed mem length (some landing) = .ok (.message end_ beginIt endIt checksum type)) :
    ∃ (checkSum msgType : TextField) (behind rest : List UInt8),
      mem.drop landing = checkSum.bytes ++ behind ∧ checkSum.tag = FixSpec.CheckSum ∧
        end_ = landing + checkSum.bytes.length ∧ endIt = (checkSum.placed landing).past ∧
      mem.drop (length.valEnd + 1) = msgType.bytes ++ rest ∧ msgType.tag = FixSpec.MsgType ∧
        FixFieldIterator.next SOH mem (msgType.placed (length.valEnd + 1)).past = .ok beginIt := by
  unfold landed at framed
  obtain ⟨found10, read10, framed⟩ := of_bind_ok framed
  cases found10 with
  | none => cases framed
  | some trailer =>
  obtain ⟨checkSum, behind, bytes10, rfl⟩ := wholeField_iff.mp read10
  dsimp only at framed
  split at framed
  case isTrue => cases framed
  case isFalse tag10 =>
  rw [TextField.stdAtoi_placed bytes10, ok_bind] at framed
  obtain ⟨found35, read35, framed⟩ := of_bind_ok framed
  cases found35 with
  | none => cases framed
  | some field35 =>
  obtain ⟨msgType, rest, bytes35, rfl⟩ := wholeField_iff.mp read35
  dsimp only at framed
  split at framed
  case isTrue => cases framed
  case isFalse tag35 =>
  obtain ⟨char, -, framed⟩ := of_bind_ok framed
  obtain ⟨beginIt, step, framed⟩ := of_bind_ok framed
  cases framed
  exact ⟨checkSum, msgType, behind, rest, bytes10, not_not.mp tag10,
    checkSum.valEnd_placed landing, rfl, bytes35, not_not.mp tag35, step⟩

end

/-! ## Around an accepted message -/

/-- The framing fields of a message at `b`, the bytes behind field 35, and where the jump
over the number of field 9 lands. -/
structure Layout (mem : Mem) (b : Nat) : Type where
  beginString : TextField
  bodyLength : TextField
  msgType : TextField
  rest : List UInt8
  landing : Nat
  checkSum : TextField
  behind : List UInt8
  tag8 : beginString.tag = FixSpec.BeginString
  tag9 : bodyLength.tag = FixSpec.BodyLength
  nonzero : bodyLength.number ≠ 0
  tag10 : checkSum.tag = FixSpec.CheckSum
  tag35 : msgType.tag = FixSpec.MsgType
  starts : mem.drop b = beginString.bytes ++ (bodyLength.bytes ++ (msgType.bytes ++ rest))
  jumps : (landing : Int) = (b + beginString.bytes.length + bodyLength.bytes.length : Nat) +
    bodyLength.number
  lands : mem.drop landing = checkSum.bytes ++ behind

namespace Layout

variable {mem : Mem} {b : Nat}

/-- Where the body starts. -/
def body (l : Layout mem b) : Nat := b + l.beginString.bytes.length + l.bodyLength.bytes.length

/-- The byte behind the trailer. -/
def end_ (l : Layout mem b) : Nat := l.landing + l.checkSum.bytes.length

theorem drop_body (l : Layout mem b) : mem.drop l.body = l.msgType.bytes ++ l.rest :=
  Bytes.drop_add_length (Bytes.drop_add_length l.starts)

end Layout

/-- What is framed at a position. -/
theorem framing_layout {mem : Mem} {b end_ : Nat} {beginIt endIt : FixFieldIterator}
    {checksum type : UInt8}
    (framed : framing mem b = .ok (.message end_ beginIt endIt checksum type)) :
    ∃ l : Layout mem b, end_ = l.end_ ∧ endIt = (l.checkSum.placed l.landing).past ∧
      FixFieldIterator.next SOH mem (l.msgType.placed l.body).past = .ok beginIt := by
  obtain ⟨beginString, bodyLength, rest, jumps⟩ := exists_jumps framed
  rw [jumps.framing_eq] at framed
  obtain ⟨target, moved, framed⟩ := of_bind_ok framed
  obtain ⟨landing, rfl⟩ := movePtr_ok moved
  obtain ⟨checkSum, msgType, behind, rest35, lands, tag10, ends, trailer, bytes35, tag35, step⟩ :=
    landed_message framed
  rw [bodyLength.valEnd_placed] at bytes35 step
  have starts : mem.drop b =
      beginString.bytes ++ (bodyLength.bytes ++ (msgType.bytes ++ rest35)) := by
    rw [jumps.bytes, ← bytes35]
    exact congrArg (fun tail => _ ++ (_ ++ tail)) jumps.drop_body.symm
  obtain ⟨o, r, at_, same, moved⟩ := movePtr_target moved
  cases same
  have landing_eq : (landing : Int) =
      (b + beginString.bytes.length + bodyLength.bytes.length : Nat) + bodyLength.number := by
    have past := bodyLength.valEnd_placed (b + beginString.bytes.length)
    have start := Option.some.inj at_
    omega
  let l : Layout mem b :=
    { beginString, bodyLength, msgType, rest := rest35, landing, checkSum, behind
      tag8 := jumps.tag8
      tag9 := jumps.tag9
      nonzero := jumps.nonzero
      jumps := landing_eq
      tag10, tag35, starts, lands }
  exact ⟨l, ends, trailer, step⟩

/-- What a new object has accepted. -/
theorem FixMessage.exists_layout {mem : Mem} {b : Nat} {garbage : StackGarbage} {msg : FixMessage}
    (run : (new b garbage).init mem = .ok msg) (valid : msg.valid = true) :
    ∃ l : Layout mem b, msg.begin_ = b ∧ msg.end_ = some l.end_ ∧
      msg.endIt = (l.checkSum.placed l.landing).past ∧
      FixFieldIterator.next SOH mem (l.msgType.placed l.body).past = .ok msg.beginIt := by
  have inits := (new b garbage).inits mem
  rw [run] at inits
  have kept (same : msg.valid = (new b garbage).valid) : False := by
    cases valid.symm.trans same
  generalize framed : framing mem (new b garbage).begin_ = framing at inits
  cases inits with
  | message end_ beginIt endIt checksum type =>
      obtain ⟨l, rfl, rfl, step⟩ := framing_layout framed
      exact ⟨l, rfl, rfl, rfl, step⟩
  | noField _ same => exact (kept same).elim
  | noTrailer _ same => exact (kept same).elim
  | malformed same => exact (kept same).elim

/-! ## The format -/

/-- The delimiter of a field is its last byte, and its first one. -/
theorem TextField.length_le_of_delimiter {f : TextField} {rest : List UInt8} {i : Nat}
    (found : (f.bytes ++ rest)[i]? = some SOH) : f.bytes.length ≤ i + 1 := by
  by_contra past
  have layout : f.bytes ++ rest = (f.tagText ++ equalSign :: f.value) ++ SOH :: rest := by
    simp only [TextField.bytes, fieldBytes, List.append_assoc, List.cons_append, List.nil_append]
  have short : i < (f.tagText ++ equalSign :: f.value).length := by
    rw [f.length_bytes] at past
    simp only [List.length_append, List.length_cons]
    omega
  rw [layout, List.getElem?_append_left short] at found
  rcases List.mem_append.mp (List.mem_of_getElem? found) with tag | value
  · exact (f.cleanTag SOH tag).2 rfl
  · rcases List.mem_cons.mp value with same | value
    · exact absurd same (by decide)
    · exact (f.cleanValue SOH value).2 rfl

/-- A message as the format has it: BodyLength counts the bytes from field 35 up to the trailer,
and a delimiter stands in front of the trailer. -/
structure FramedMessage : Type where
  beginString : TextField
  bodyLength : TextField
  msgType : TextField
  rest : List UInt8
  checkSum : TextField
  tag8 : beginString.tag = FixSpec.BeginString
  tag9 : bodyLength.tag = FixSpec.BodyLength
  tag35 : msgType.tag = FixSpec.MsgType
  tag10 : checkSum.tag = FixSpec.CheckSum
  counted : bodyLength.number = (msgType.bytes ++ rest).length
  delimited : (msgType.bytes ++ rest).getLast? = some SOH

namespace FramedMessage

def body (m : FramedMessage) : List UInt8 := m.msgType.bytes ++ m.rest

def bytes (m : FramedMessage) : List UInt8 :=
  m.beginString.bytes ++ (m.bodyLength.bytes ++ (m.body ++ m.checkSum.bytes))

/-- A body that begins with field 35 and ends with a delimiter, counted by BodyLength. -/
theorem exists_of_body {beginString bodyLength msgType checkSum : TextField}
    {body rest : List UInt8} (tag8 : beginString.tag = FixSpec.BeginString)
    (tag9 : bodyLength.tag = FixSpec.BodyLength) (tag35 : msgType.tag = FixSpec.MsgType)
    (tag10 : checkSum.tag = FixSpec.CheckSum) (begins : body = msgType.bytes ++ rest)
    (counted : bodyLength.number = body.length) (delimited : body.getLast? = some SOH) :
    ∃ m : FramedMessage,
      m.bytes = beginString.bytes ++ (bodyLength.bytes ++ (body ++ checkSum.bytes)) := by
  subst begins
  exact ⟨⟨beginString, bodyLength, msgType, rest, checkSum, tag8, tag9, tag35, tag10, counted,
    delimited⟩, rfl⟩

end FramedMessage

/-- The number of the second field leads from behind that field to behind a delimiter. -/
def LeadsBehindDelimiter (s : List UInt8) : Prop :=
  ∃ (first second : TextField) (rest : List UInt8), s = first.bytes ++ (second.bytes ++ rest) ∧
    0 < second.number ∧ rest[second.number.toNat - 1]? = some SOH

theorem FramedMessage.leads (m : FramedMessage) (later : List UInt8) :
    LeadsBehindDelimiter (m.bytes ++ later) := by
  have positive : 0 < m.body.length := by
    rw [FramedMessage.body, List.length_append, TextField.length_bytes]
    omega
  refine ⟨m.beginString, m.bodyLength, m.body ++ (m.checkSum.bytes ++ later), ?_, ?_, ?_⟩
  · simp only [FramedMessage.bytes, List.append_assoc]
  · rw [m.counted]
    exact Int.natCast_pos.mpr positive
  · have last := m.delimited
    rw [List.getLast?_eq_getElem?] at last
    rw [m.counted, Int.toNat_natCast, List.getElem?_append_left (by
      change m.body.length - 1 < m.body.length
      omega)]
    exact last

/-- **BodyLength framing.** An accepted message is framed as the format has it exactly when its
BodyLength is positive and leads to right behind a delimiter of the string. -/
theorem FixMessage.framed_iff (before s after : List UInt8) (garbage : StackGarbage)
    (msg : FixMessage)
    (run : (new before.length garbage).init (before ++ (s ++ 0 :: after)) = .ok msg)
    (valid : msg.valid = true) :
    (∃ (m : FramedMessage) (later : List UInt8), s = m.bytes ++ later ∧
        msg.end_ = some (before.length + m.bytes.length)) ↔ LeadsBehindDelimiter s := by
  constructor
  · rintro ⟨m, later, rfl, -⟩
    exact m.leads later
  · rintro ⟨first, second, rest, split, positive, delimiter⟩
    obtain ⟨l, -, ends, -⟩ := exists_layout run valid
    have starts : first.bytes ++ (second.bytes ++ (rest ++ 0 :: after)) =
        l.beginString.bytes ++ (l.bodyLength.bytes ++ (l.msgType.bytes ++ l.rest)) := by
      rw [← l.starts, List.drop_left, split]
      simp only [List.append_assoc]
    obtain ⟨rfl, behind8⟩ := TextField.unique starts
    obtain ⟨rfl, behind9⟩ := TextField.unique behind8
    obtain ⟨n, number⟩ : ∃ n : Nat, l.bodyLength.number = n :=
      ⟨_, (Int.toNat_of_nonneg (Int.le_of_lt positive)).symm⟩
    rw [number] at positive
    rw [number, Int.toNat_natCast] at delimiter
    have landing : l.landing = l.body + n := by
      have jumps := l.jumps
      rw [number] at jumps
      unfold Layout.body
      omega
    -- The body reaches up to the delimiter, so it has the whole of field 35.
    have inside : n ≤ rest.length := by
      have bound := (List.getElem?_eq_some_iff.mp delimiter).1
      omega
    have lands : rest.drop n ++ 0 :: after = l.checkSum.bytes ++ l.behind := by
      rw [← l.lands, landing, ← List.drop_drop, l.drop_body, ← behind9,
        List.drop_append_of_le_length inside]
    obtain ⟨later, trailer, -⟩ := TextField.prefix_of_nul lands
    obtain ⟨rest35, rfl, -⟩ := TextField.prefix_of_nul behind9
    have whole : l.msgType.bytes.length ≤ n := by
      have short := TextField.length_le_of_delimiter delimiter
      omega
    have body : l.msgType.bytes ++ rest35.take (n - l.msgType.bytes.length) =
        (l.msgType.bytes ++ rest35).take n := by
      rw [List.take_append, List.take_of_length_le whole]
    have counted : ((l.msgType.bytes ++ rest35).take n).length = n := by
      rw [List.length_take]
      omega
    have delimited : ((l.msgType.bytes ++ rest35).take n).getLast? = some SOH := by
      rw [List.getLast?_take, if_neg (by omega), delimiter]
      rfl
    obtain ⟨m, bytes⟩ := FramedMessage.exists_of_body l.tag8 l.tag9 l.tag35 l.tag10 body.symm
      (by rw [number, counted]) delimited
    refine ⟨m, later, ?_, ?_⟩
    · rw [split, bytes]
      simp only [List.append_assoc]
      rw [← trailer, List.take_append_drop]
    · rw [ends, bytes]
      simp only [List.length_append, counted]
      rw [Layout.end_, landing, Layout.body]
      congr 1
      omega

/-- `8=F`. -/
def TextField.header : TextField :=
  ⟨[56], [70], by decide +kernel, by decide, by decide +kernel⟩

/-- `9=3`. -/
def TextField.three : TextField :=
  ⟨[57], [51], by decide +kernel, by decide, by decide +kernel⟩

/-- `9=9`. -/
def TextField.nine : TextField :=
  ⟨[57], [57], by decide +kernel, by decide, by decide +kernel⟩

/-- A heartbeat is framed. -/
theorem FixMessage.framed_iff_heartbeat :
    ∃ (msg : FixMessage) (m : FramedMessage),
      msg.valid = true ∧ msg.end_ = some m.bytes.length := by
  have run : (new 0 ⟨0, 0⟩).init ([] ++ ([56, 61, 70, 1, 57, 61, 53, 1, 51, 53, 61, 48, 1, 49, 48,
      61, 48, 54, 50, 1] ++ 0 :: [])) = .ok reused := by
    decide +kernel
  have leads : LeadsBehindDelimiter
      [56, 61, 70, 1, 57, 61, 53, 1, 51, 53, 61, 48, 1, 49, 48, 61, 48, 54, 50, 1] :=
    ⟨.header, ⟨[57], [53], by decide +kernel, by decide, by decide +kernel⟩,
      [51, 53, 61, 48, 1, 49, 48, 61, 48, 54, 50, 1], rfl, by decide, rfl⟩
  obtain ⟨m, later, -, ends⟩ := (framed_iff [] _ [] ⟨0, 0⟩ reused run rfl).mpr leads
  refine ⟨reused, m, rfl, ?_⟩
  rw [ends, List.length_nil, Nat.zero_add]

/-- `8=F|9=3|35=10=062|`: the trailer is found in the value of MsgType. -/
theorem FixMessage.not_framed_inside :
    ¬ ∀ (before s after : List UInt8) (garbage : StackGarbage) (msg : FixMessage),
      (new before.length garbage).init (before ++ (s ++ 0 :: after)) = .ok msg →
      msg.valid = true →
      ∃ (m : FramedMessage) (later : List UInt8), s = m.bytes ++ later ∧
        msg.end_ = some (before.length + m.bytes.length) := by
  intro law
  have accepts : ∃ msg, (new 0 ⟨0, 0⟩).init
      ([] ++ ([56, 61, 70, 1, 57, 61, 51, 1, 51, 53, 61, 49, 48, 61, 48, 54, 50, 1] ++ 0 :: [])) =
        .ok msg ∧ msg.valid = true :=
    ⟨⟨0, some 18, ⟨⟨35, none, none, none⟩⟩, ⟨⟨10, some 14, some 17, some 18⟩⟩, 62, 49, true⟩,
      by decide +kernel, rfl⟩
  obtain ⟨msg, run, valid⟩ := accepts
  obtain ⟨m, later, split, -⟩ := law [] _ [] ⟨0, 0⟩ msg run valid
  obtain ⟨first, second, rest, fields, -, delimiter⟩ := m.leads later
  rw [← split] at fields
  have known : TextField.header.bytes ++ (TextField.three.bytes ++
      [51, 53, 61, 49, 48, 61, 48, 54, 50, 1]) = first.bytes ++ (second.bytes ++ rest) := fields
  obtain ⟨rfl, behind8⟩ := TextField.unique known
  obtain ⟨rfl, rfl⟩ := TextField.unique behind8
  revert delimiter
  decide +kernel

end OpenFix
