import OpenFix.FixParse.Frame

/-!
# `fix_writer`

The message writer of `fix_parse.h` over a buffer inside the allocation. No push looks
at `m_len`; a store past the allocation is a fault. `pushTrailer` moves the body up by
the width of the BodyLength field, writes that field into the gap, and sums the bytes
as signed `char`s in an `int`.

* `FixWriter.Holds w before bytes after`: what the writer has produced so far, as a window.
* `FixWriter.write_eq`: the bytes of a whole message, and when the byte counter of the
  checksum loop overflows instead.
-/

namespace OpenFix

structure FixWriter : Type where
  mem : Mem
  mBegin : Nat
  mLen : Nat
  mCur : Nat
  mBodyLen : Ptr
  deriving DecidableEq, Repr

namespace FixWriter

/-- `fix_writer( char *begin, const size_t len )`. -/
def new (mem : Mem) (begin len : Nat) : FixWriter where
  mem := mem
  mBegin := begin
  mLen := len
  mCur := begin
  mBodyLen := none

/-- `m_cur = fmt::format_to( m_cur, … )` for an already formatted text. -/
def formatTo (w : FixWriter) (text : List UInt8) : Except Fault FixWriter := do
  let mem ← writeBytes w.mem w.mCur text
  return { w with mem, mCur := w.mCur + text.length }

/-- `fix_writer::push_field`; `arg` is the text `{}` makes of the argument. -/
def pushField (w : FixWriter) (tag : Int) (arg : List UInt8) : Except Fault FixWriter := do
  let w ← w.formatTo (fmtInt tag ++ equalSign :: arg ++ [SOH])
  if tag = FixSpec.BeginString then
    return { w with mBodyLen := some w.mCur }
  return w

/-- `fix_writer::push_header`. -/
def pushHeader (w : FixWriter) (beginString : List UInt8) : Except Fault FixWriter :=
  w.pushField FixSpec.BeginString beginString

/-- `fix_writer::push_timestamp`; `time` is the text of `{:%Y%m%d-%H:%M:%S}`, `ms` the
milliseconds behind the second. -/
def pushTimestamp (w : FixWriter) (tag : Int) (time : List UInt8) (ms : Int) :
    Except Fault FixWriter :=
  w.formatTo (fmtInt tag ++ equalSign :: time ++ 46 :: fmtInt03 ms ++ [SOH])

/-- The checksum loop of `push_trailer` over the bytes from index `i` on: the counter
is an `int`, the sum an `int` to which each `char` is added as `uint`. -/
def checksumLoop : List UInt8 → Int → Int → Except Fault Int
  | [], _, checksum => .ok checksum
  | c :: cs, i, checksum =>
      if i = intMax then .error .overflow
      else checksumLoop cs (i + 1) (wrap32 (checksum + schar c))

/-- `std::memmove` inside the allocation. -/
def memmove (mem : Mem) (dst src n : Nat) : Except Fault Mem :=
  writeBytes mem dst (Bytes.slice mem src n)

/-- `fix_writer::push_trailer`. With an empty body `log10( 0 )` has no `int` value: nothing is
moved, the field 9 is stored, and where `m_cur` goes is not defined. -/
def pushTrailer (w : FixWriter) : Except Fault FixWriter :=
  match w.mBodyLen with
  | none => .error .nullPointer
  | some mBodyLen =>
      let bodyLen := w.mCur - mBodyLen
      if bodyLen = 0 then do
        let _ ← writeBytes w.mem mBodyLen
          (fmtInt FixSpec.BodyLength ++ equalSign :: Decimal.text bodyLen ++ [SOH])
        .error .overflow
      else do
        let digNum := Nat.log 10 bodyLen + 1
        let strLen := digNum + 3
        let mem ← memmove w.mem (mBodyLen + strLen) mBodyLen (w.mCur - mBodyLen)
        let mem ← writeBytes mem mBodyLen
          (fmtInt FixSpec.BodyLength ++ equalSign :: Decimal.text bodyLen ++ [SOH])
        let w := { w with mem, mCur := w.mCur + strLen }
        let checksum ← checksumLoop (Bytes.slice w.mem w.mBegin (w.mCur - w.mBegin)) 0 0
        w.formatTo (fmtInt FixSpec.CheckSum ++ equalSign :: fmtInt03 (checksum.tmod 256) ++ [SOH])

/-- `fix_writer::size`. -/
def size (w : FixWriter) : Nat := w.mCur - w.mBegin

/-- The bytes `[ m_begin, m_begin + size( ) )`. -/
def bytes (w : FixWriter) : List UInt8 := Bytes.slice w.mem w.mBegin w.size

/-- Consecutive `push_field` calls. -/
def pushFields (w : FixWriter) (fields : List (Int × List UInt8)) : Except Fault FixWriter :=
  fields.foldlM (fun w f => w.pushField f.1 f.2) w

/-- A message written into a buffer: header, fields, trailer. -/
def write (mem : Mem) (begin len : Nat) (beginString : List UInt8)
    (fields : List (Int × List UInt8)) : Except Fault FixWriter := do
  let w ← (new mem begin len).pushHeader beginString
  let w ← w.pushFields fields
  w.pushTrailer

/-! ## The written window -/

/-- The writer has produced `bytes`, behind `before`, with `after` still in front of it. -/
structure Holds (w : FixWriter) (before bytes after : List UInt8) : Prop where
  mem : w.mem = before ++ (bytes ++ after)
  begin_ : w.mBegin = before.length
  cur : w.mCur = before.length + bytes.length

variable {w : FixWriter} {before produced after : List UInt8}

/-- What a reader finds at `m_begin` when anything stands behind the written bytes. -/
theorem Holds.drop_take (holds : w.Holds before produced after) (later : List UInt8) :
    (w.mem.take w.mCur ++ later).drop w.mBegin = produced ++ later := by
  have written : w.mem.take w.mCur = before ++ produced := by
    rw [holds.mem, holds.cur, ← List.append_assoc, ← List.length_append, List.take_left]
  rw [written, holds.begin_, List.append_assoc, List.drop_left]

theorem Holds.size (holds : w.Holds before produced after) : w.size = produced.length := by
  rw [FixWriter.size, holds.begin_, holds.cur]
  omega

theorem Holds.bytes (holds : w.Holds before produced after) : w.bytes = produced := by
  rw [FixWriter.bytes, holds.size, holds.mem, holds.begin_, ← List.append_assoc,
    Bytes.slice_append]

theorem formatTo_holds (holds : w.Holds before produced after) {text : List UInt8}
    (room : text.length ≤ after.length) :
    ∃ w', w.formatTo text = .ok w' ∧
      w'.Holds before (produced ++ text) (after.drop text.length) ∧ w'.mBodyLen = w.mBodyLen := by
  have fits : w.mCur + text.length ≤ w.mem.length := by
    rw [holds.mem, holds.cur]
    simp only [List.length_append]
    omega
  have image : Bytes.overwrite w.mem w.mCur text =
      before ++ (produced ++ text ++ after.drop text.length) := by
    rw [holds.mem, holds.cur, ← List.append_assoc, ← List.length_append,
      Bytes.overwrite_prefix]
    simp only [List.append_assoc]
  refine ⟨{ w with mem := Bytes.overwrite w.mem w.mCur text, mCur := w.mCur + text.length },
    ?_, ⟨image, holds.begin_, ?_⟩, rfl⟩
  · simp only [formatTo, writeBytes, if_pos fits, ok_bind]
    rfl
  · simp only [holds.cur, List.length_append]
    omega

theorem pushField_holds (holds : w.Holds before produced after) {tag : Int} {arg : List UInt8}
    (room : (field tag arg).length ≤ after.length) (notBegin : tag ≠ FixSpec.BeginString) :
    ∃ w', w.pushField tag arg = .ok w' ∧
      w'.Holds before (produced ++ field tag arg) (after.drop (field tag arg).length) ∧
      w'.mBodyLen = w.mBodyLen := by
  obtain ⟨w', written, holds', bodyLen⟩ := formatTo_holds holds room
  refine ⟨w', ?_, holds', bodyLen⟩
  simp only [field, FixFieldIterator.fieldBytes] at written
  simp only [pushField, written, ok_bind, if_neg notBegin]
  rfl

/-- The header push remembers where the body starts. -/
theorem pushHeader_holds (holds : w.Holds before [] after) {beginString : List UInt8}
    (room : (field FixSpec.BeginString beginString).length ≤ after.length) :
    ∃ w', w.pushHeader beginString = .ok w' ∧
      w'.Holds before (field FixSpec.BeginString beginString)
        (after.drop (field FixSpec.BeginString beginString).length) ∧
      w'.mBodyLen = some (before.length + (field FixSpec.BeginString beginString).length) := by
  obtain ⟨w', written, holds', -⟩ := formatTo_holds holds room
  rw [List.nil_append] at holds'
  refine ⟨{ w' with mBodyLen := some w'.mCur }, ?_, ⟨holds'.mem, holds'.begin_, holds'.cur⟩, ?_⟩
  · simp only [field, FixFieldIterator.fieldBytes] at written
    simp only [pushHeader, pushField, written, ok_bind]
    rfl
  · rw [holds'.cur]

/-- The concatenated `tag=value<SOH>` of a list of pushes. -/
def fieldsBytes (fields : List (Int × List UInt8)) : List UInt8 :=
  fields.flatMap fun f => field f.1 f.2

theorem fieldsBytes_cons (f : Int × List UInt8) (fields : List (Int × List UInt8)) :
    fieldsBytes (f :: fields) = field f.1 f.2 ++ fieldsBytes fields :=
  List.flatMap_cons

theorem pushFields_holds {fields : List (Int × List UInt8)}
    (holds : w.Holds before produced after)
    (room : (fieldsBytes fields).length ≤ after.length)
    (notBegin : ∀ f ∈ fields, f.1 ≠ FixSpec.BeginString) :
    ∃ w', w.pushFields fields = .ok w' ∧
      w'.Holds before (produced ++ fieldsBytes fields) (after.drop (fieldsBytes fields).length) ∧
      w'.mBodyLen = w.mBodyLen := by
  induction fields generalizing w produced after with
  | nil =>
      refine ⟨w, rfl, ?_, rfl⟩
      simpa only [fieldsBytes, List.flatMap_nil, List.append_nil, List.length_nil,
        List.drop_zero] using holds
  | cons f fields ih =>
      rw [fieldsBytes_cons, List.length_append] at room
      have room₀ : (field f.1 f.2).length ≤ after.length := by omega
      obtain ⟨w₁, written, holds₁, bodyLen₁⟩ :=
        pushField_holds holds room₀ (notBegin f List.mem_cons_self)
      have room₁ : (fieldsBytes fields).length ≤ (after.drop (field f.1 f.2).length).length := by
        rw [List.length_drop]
        omega
      obtain ⟨w₂, later, holds₂, bodyLen₂⟩ :=
        ih holds₁ room₁ fun g member => notBegin g (List.mem_cons_of_mem f member)
      refine ⟨w₂, ?_, ?_, bodyLen₂.trans bodyLen₁⟩
      · rw [pushFields, List.foldlM_cons, written]
        exact later
      · rw [fieldsBytes_cons, ← List.append_assoc, List.length_append, ← List.drop_drop]
        exact holds₂

/-! ## The trailer -/

/-- The sum of the bytes, each as a signed `char`. -/
def signedSum (bytes : List UInt8) : Int := (bytes.map schar).sum

theorem signedSum_cons (c : UInt8) (cs : List UInt8) :
    signedSum (c :: cs) = schar c + signedSum cs :=
  List.sum_cons

/-- The number `push_trailer` spells for the bytes before the trailer. -/
def signedCheck (bytes : List UInt8) : Int := (wrap32 (signedSum bytes)).tmod 256

theorem checksumLoop_ok {cs : List UInt8} {i checksum : Int} (fits : i + cs.length ≤ intMax)
    (low : -2 ^ 31 ≤ checksum) (high : checksum < 2 ^ 31) :
    checksumLoop cs i checksum = .ok (wrap32 (checksum + signedSum cs)) := by
  induction cs generalizing i checksum with
  | nil =>
      rw [checksumLoop, signedSum, List.map_nil, List.sum_nil, Int.add_zero,
        wrap32_of_range low high]
  | cons c cs ih =>
      rw [List.length_cons] at fits
      obtain ⟨low', high'⟩ := wrap32_range (checksum + schar c)
      rw [checksumLoop, if_neg (by omega), ih (by omega) low' high', wrap32_add_left,
        signedSum_cons, Int.add_assoc]

/-- From `2 ^ 31` bytes on the `int` counter overflows. -/
theorem checksumLoop_overflow {cs : List UInt8} {i : Int} (checksum : Int) (low : i ≤ intMax)
    (long : intMax < i + cs.length) : checksumLoop cs i checksum = .error .overflow := by
  induction cs generalizing i checksum with
  | nil =>
      rw [List.length_nil] at long
      omega
  | cons c cs ih =>
      rw [List.length_cons] at long
      rw [checksumLoop]
      split
      · rfl
      · exact ih _ (by omega) (by omega)

theorem signedCheck_range (bytes : List UInt8) :
    -256 < signedCheck bytes ∧ signedCheck bytes < 256 := by
  have upper := Int.tmod_lt_of_pos (wrap32 (signedSum bytes)) (b := 256) (by omega)
  have lower := Int.lt_tmod_of_pos (wrap32 (signedSum bytes)) (b := 256) (by omega)
  exact ⟨lower, upper⟩

/-- The BodyLength field is as wide as the gap `push_trailer` opens for it. -/
theorem length_bodyLength {n : Nat} (positive : 0 < n) :
    (field FixSpec.BodyLength (Decimal.text n)).length = Nat.log 10 n + 1 + 3 := by
  have tag : (fmtInt FixSpec.BodyLength).length = 1 := rfl
  rw [length_field, Decimal.length_text positive, tag]
  omega

theorem length_checkSum_le (bytes : List UInt8) :
    (field FixSpec.CheckSum (fmtInt03 (signedCheck bytes))).length ≤ 8 := by
  obtain ⟨lower, upper⟩ := signedCheck_range bytes
  have narrow : (Decimal.text (signedCheck bytes).natAbs).length ≤ 3 :=
    Decimal.length_text_le (by omega) (by omega)
  have tag : (fmtInt FixSpec.CheckSum).length = 2 := rfl
  rw [length_field, tag, fmtInt03]
  split
  · rw [List.length_cons, Decimal.length_padded_eq_max]
    omega
  · rw [Decimal.length_padded_eq_max]
    omega

/-- The body moved up and the BodyLength field written into the gap. -/
theorem shiftBody (before hd : List UInt8) {body after : List UInt8} (nonempty : body ≠ [])
    (room : (field FixSpec.BodyLength (Decimal.text body.length)).length ≤ after.length) :
    ∃ moved,
      memmove (before ++ (hd ++ body ++ after))
        (before.length + hd.length + (Nat.log 10 body.length + 1 + 3))
        (before.length + hd.length) body.length = .ok moved ∧
      writeBytes moved (before.length + hd.length)
        (field FixSpec.BodyLength (Decimal.text body.length)) =
        .ok (before ++ (hd ++ field FixSpec.BodyLength (Decimal.text body.length) ++ body ++
          after.drop (field FixSpec.BodyLength (Decimal.text body.length)).length)) := by
  have width := length_bodyLength (List.length_pos_of_ne_nil nonempty)
  generalize field FixSpec.BodyLength (Decimal.text body.length) = nine at *
  rw [← width]
  have window : Bytes.slice (before ++ (hd ++ body ++ after)) (before.length + hd.length)
      body.length = body := by
    rw [← List.append_assoc, ← List.append_assoc, ← List.length_append, Bytes.slice_append]
  -- the gap holds what was there before: the first bytes of the body and of what follows
  have gap : ((body ++ after).take nine.length).length = nine.length := by
    rw [List.length_take, List.length_append]
    omega
  refine ⟨before ++ hd ++ ((body ++ after).take nine.length ++ (body ++ after.drop nine.length)),
    ?_, ?_⟩
  · have layout : before ++ (hd ++ body ++ after) =
        (before ++ hd ++ (body ++ after).take nine.length) ++ (body ++ after).drop nine.length := by
      simp only [List.append_assoc, List.take_append_drop]
    have start : before.length + hd.length + nine.length =
        (before ++ hd ++ (body ++ after).take nine.length).length := by
      rw [List.length_append, List.length_append, gap]
    have rest : ((body ++ after).drop nine.length).drop body.length = after.drop nine.length := by
      rw [List.drop_drop, Nat.add_comm, ← List.drop_drop, List.drop_left]
    rw [memmove, window, layout, start, writeBytes_prefix, rest]
    · simp only [List.append_assoc]
    · rw [List.length_drop, List.length_append]
      omega
  · rw [← List.length_append, writeBytes_prefix, List.drop_left' gap]
    · simp only [List.append_assoc]
    · rw [List.length_append, gap]
      omega

/-- The part of `push_trailer` up to the CheckSum field. -/
theorem pushTrailer_run {hd body : List UInt8} (nonempty : body ≠ [])
    (holds : w.Holds before (hd ++ body) after)
    (bodyLen : w.mBodyLen = some (before.length + hd.length))
    (room : (field FixSpec.BodyLength (Decimal.text body.length)).length ≤ after.length) :
    let bytes := hd ++ field FixSpec.BodyLength (Decimal.text body.length) ++ body
    ∃ w₁ : FixWriter, w₁.mBodyLen = w.mBodyLen ∧
      w₁.Holds before bytes
        (after.drop (field FixSpec.BodyLength (Decimal.text body.length)).length) ∧
      w.pushTrailer = (checksumLoop bytes 0 0 >>= fun checksum => w₁.formatTo
        (fmtInt FixSpec.CheckSum ++ equalSign :: fmtInt03 (checksum.tmod 256) ++ [SOH])) := by
  have start : w.mCur - (before.length + hd.length) = body.length := by
    rw [holds.cur, List.length_append]
    omega
  have nonzero : body.length ≠ 0 := fun zero => nonempty (List.eq_nil_of_length_eq_zero zero)
  have width := length_bodyLength (List.length_pos_of_ne_nil nonempty)
  obtain ⟨moved, memmoved, written⟩ := shiftBody before hd nonempty room
  generalize nineEq : field FixSpec.BodyLength (Decimal.text body.length) = nine at *
  intro bytes
  have nineText : fmtInt FixSpec.BodyLength ++ equalSign :: Decimal.text body.length ++ [SOH] =
      nine := nineEq
  let w₁ : FixWriter :=
    { w with mem := before ++ (bytes ++ after.drop nine.length), mCur := w.mCur + nine.length }
  have holds₁ : w₁.Holds before bytes (after.drop nine.length) := by
    refine ⟨rfl, holds.begin_, ?_⟩
    simp only [w₁, bytes, holds.cur, List.length_append]
    omega
  have summed : Bytes.slice w₁.mem w₁.mBegin (w₁.mCur - w₁.mBegin) = bytes := holds₁.bytes
  refine ⟨w₁, rfl, holds₁, ?_⟩
  rw [← summed]
  simp only [pushTrailer, bodyLen, start, if_neg nonzero, holds.mem, memmoved, ok_bind, nineText,
    written, w₁, bytes, width]

/-- `push_trailer`. Below `2 ^ 31` bytes the writer produces the frame of its body,
with the signed sum of the bytes in the CheckSum field; from there on the loop counter
of the checksum overflows. -/
theorem pushTrailer_holds {hd body : List UInt8} (nonempty : body ≠ [])
    (holds : w.Holds before (hd ++ body) after)
    (bodyLen : w.mBodyLen = some (before.length + hd.length))
    (room : (field FixSpec.BodyLength (Decimal.text body.length)).length + 8 ≤ after.length) :
    let bytes := hd ++ field FixSpec.BodyLength (Decimal.text body.length) ++ body
    if bytes.length < 2 ^ 31 then
      ∃ w', w.pushTrailer = .ok w' ∧
        w'.Holds before (bytes ++ field FixSpec.CheckSum (fmtInt03 (signedCheck bytes)))
          (after.drop ((field FixSpec.BodyLength (Decimal.text body.length)).length +
            (field FixSpec.CheckSum (fmtInt03 (signedCheck bytes))).length))
    else w.pushTrailer = .error .overflow := by
  obtain ⟨w₁, -, holds₁, run⟩ := pushTrailer_run nonempty holds bodyLen (by omega)
  generalize field FixSpec.BodyLength (Decimal.text body.length) = nine at *
  intro bytes
  change w.pushTrailer = (checksumLoop bytes 0 0 >>= _) at run
  split
  case isTrue short =>
    have roomTrailer : (field FixSpec.CheckSum (fmtInt03 (signedCheck bytes))).length ≤
        (after.drop nine.length).length := by
      have := length_checkSum_le bytes
      rw [List.length_drop]
      omega
    obtain ⟨w', pushed, holds', -⟩ := formatTo_holds holds₁ roomTrailer
    rw [List.drop_drop] at holds'
    refine ⟨w', ?_, holds'⟩
    rw [run, checksumLoop_ok (by rw [intMax]; omega) (by omega) (by omega), Int.zero_add, ok_bind]
    exact pushed
  case isFalse long =>
    rw [run, checksumLoop_overflow 0 (by decide) (by rw [intMax]; omega), error_bind]

theorem fieldsBytes_ne_nil {fields : List (Int × List UInt8)} (nonempty : fields ≠ []) :
    fieldsBytes fields ≠ [] := by
  obtain ⟨f, fields, rfl⟩ := List.exists_cons_of_ne_nil nonempty
  rw [fieldsBytes_cons]
  exact List.append_ne_nil_of_left_ne_nil (field_ne_nil f.1 f.2) _

/-- A new writer has written nothing. -/
theorem new_holds {mem : Mem} {begin : Nat} (len : Nat) (bound : begin ≤ mem.length) :
    (new mem begin len).Holds (mem.take begin) [] (mem.drop begin) := by
  have beforeLength : (mem.take begin).length = begin := by
    rw [List.length_take, Nat.min_eq_left bound]
  refine ⟨?_, beforeLength.symm, ?_⟩
  · rw [List.nil_append, List.take_append_drop, new]
  · rw [beforeLength]
    rfl

/-- The bytes of a written message. -/
theorem write_eq {mem : Mem} {begin : Nat} (len : Nat) {beginString : List UInt8}
    {fields : List (Int × List UInt8)} (nonempty : fields ≠ [])
    (notBegin : ∀ f ∈ fields, f.1 ≠ FixSpec.BeginString)
    (room : begin + (frameHead beginString (fieldsBytes fields)).length + 8 ≤ mem.length) :
    if (frameHead beginString (fieldsBytes fields)).length < 2 ^ 31 then
      ∃ w, write mem begin len beginString fields = .ok w ∧
        w.Holds (mem.take begin) (frame beginString (fieldsBytes fields)
          (signedCheck (frameHead beginString (fieldsBytes fields))))
          (mem.drop (begin + (frame beginString (fieldsBytes fields)
            (signedCheck (frameHead beginString (fieldsBytes fields)))).length))
    else write mem begin len beginString fields = .error .overflow := by
  have headLength : (frameHead beginString (fieldsBytes fields)).length =
      (field FixSpec.BeginString beginString).length +
        (field FixSpec.BodyLength (Decimal.text (fieldsBytes fields).length)).length +
        (fieldsBytes fields).length := by
    simp only [frameHead, List.length_append]
  have holds₀ : (new mem begin len).Holds (mem.take begin) [] (mem.drop begin) :=
    new_holds len (by omega)
  have room₁ : (field FixSpec.BeginString beginString).length ≤ (mem.drop begin).length := by
    rw [List.length_drop]
    omega
  obtain ⟨w₁, header, holds₁, bodyLen₁⟩ := pushHeader_holds holds₀ room₁
  have room₂ : (fieldsBytes fields).length ≤
      ((mem.drop begin).drop (field FixSpec.BeginString beginString).length).length := by
    rw [List.length_drop, List.length_drop]
    omega
  obtain ⟨w₂, body, holds₂, bodyLen₂⟩ := pushFields_holds holds₁ room₂ notBegin
  have room₃ : (field FixSpec.BodyLength (Decimal.text (fieldsBytes fields).length)).length + 8 ≤
      (((mem.drop begin).drop (field FixSpec.BeginString beginString).length).drop
        (fieldsBytes fields).length).length := by
    rw [List.length_drop, List.length_drop, List.length_drop]
    omega
  have trailer := pushTrailer_holds (fieldsBytes_ne_nil nonempty) holds₂
    (bodyLen₂.trans bodyLen₁) room₃
  have run : write mem begin len beginString fields = w₂.pushTrailer := by
    rw [write, header, ok_bind, body, ok_bind]
  rw [run]
  dsimp only at trailer
  split
  case isTrue short =>
    rw [if_pos (by exact short), List.drop_drop, List.drop_drop, List.drop_drop] at trailer
    rcases trailer with ⟨w, pushed, holds⟩
    refine ⟨w, pushed, ?_⟩
    have length : begin + (frame beginString (fieldsBytes fields)
        (signedCheck (frameHead beginString (fieldsBytes fields)))).length =
        begin + ((field FixSpec.BeginString beginString).length + ((fieldsBytes fields).length +
          ((field FixSpec.BodyLength (Decimal.text (fieldsBytes fields).length)).length +
            (field FixSpec.CheckSum (fmtInt03
              (signedCheck (frameHead beginString (fieldsBytes fields))))).length))) := by
      rw [frame, List.length_append, headLength]
      omega
    rw [length]
    exact holds
  case isFalse long =>
    rw [if_neg (by exact long)] at trailer
    exact trailer

end FixWriter

end OpenFix
