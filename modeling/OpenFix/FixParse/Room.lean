import OpenFix.FixParse.Writer

/-!
# The room `fix_writer` needs

Any calls on a writer whose allocation ends where its buffer does: `m_len` is stored and never
read, so a call that does not fit stores behind the end, which is a fault here. `Draft` is what
the calls write, in terms of their arguments alone.

* `push_cases`: what a call comes to.
* `inBounds_iff`: when all calls of a sequence stay in the buffer.
-/

namespace OpenFix

namespace FixWriter

/-- A call, with the texts of its arguments. -/
inductive Push : Type
  | header (beginString : List UInt8)
  | field (tag : Int) (arg : List UInt8)
  | timestamp (tag : Int) (time : List UInt8) (ms : Int)
  | trailer
  deriving DecidableEq, Repr

def push (w : FixWriter) : Push → Except Fault FixWriter
  | .header beginString => w.pushHeader beginString
  | .field tag arg => w.pushField tag arg
  | .timestamp tag time ms => w.pushTimestamp tag time ms
  | .trailer => w.pushTrailer

def pushAll (w : FixWriter) (pushes : List Push) : Except Fault FixWriter := pushes.foldlM push w

/-- The bytes written, and how many of them stand in front of the body. -/
structure Draft : Type where
  bytes : List UInt8
  body : Option Nat
  deriving DecidableEq, Repr

namespace Draft

def empty : Draft := ⟨[], none⟩

/-- The bytes that the checksum runs over, for a body behind the first `b` bytes. -/
def head (d : Draft) (b : Nat) : List UInt8 :=
  d.bytes.take b ++ OpenFix.field FixSpec.BodyLength (Decimal.text (d.bytes.drop b).length) ++
    d.bytes.drop b

/-- The bytes behind a call. -/
def stores (d : Draft) : Push → List UInt8
  | .header beginString => d.bytes ++ OpenFix.field FixSpec.BeginString beginString
  | .field tag arg => d.bytes ++ OpenFix.field tag arg
  | .timestamp tag time ms => d.bytes ++ OpenFix.field tag (time ++ 46 :: fmtInt03 ms)
  | .trailer =>
      match d.body with
      | none => d.bytes
      | some b => d.head b ++ OpenFix.field FixSpec.CheckSum (fmtInt03 (signedCheck (d.head b)))

/-- A trailer needs a header, a body, and bytes that an `int` can count. -/
def Defined (d : Draft) : Push → Prop
  | .trailer => ∃ b, d.body = some b ∧ d.bytes.drop b ≠ [] ∧ (d.head b).length < 2 ^ 31
  | _ => True

/-- Behind the call. -/
def after (d : Draft) (p : Push) : Draft where
  bytes := d.stores p
  body :=
    match p with
    | .header _ => some (d.stores p).length
    | .field tag _ => if tag = FixSpec.BeginString then some (d.stores p).length else d.body
    | _ => d.body

theorem length_head {bytes : List UInt8} {b : Nat} :
    (head ⟨bytes, some b⟩ b).length = bytes.length +
      (OpenFix.field FixSpec.BodyLength (Decimal.text (bytes.drop b).length)).length := by
  have whole := congrArg List.length (List.take_append_drop b bytes)
  simp only [head, List.length_append] at whole ⊢
  omega

/-- A trailer only adds. -/
theorem length_le_stores (bytes : List UInt8) (b : Nat) :
    (head ⟨bytes, some b⟩ b).length ≤ (stores ⟨bytes, some b⟩ .trailer).length := by
  rw [stores, List.length_append]
  exact Nat.le_add_right _ _

theorem length_le_trailer (d : Draft) : d.bytes.length ≤ (d.stores .trailer).length := by
  obtain ⟨bytes, body⟩ := d
  cases body with
  | none => exact Nat.le_refl _
  | some b =>
      have least := length_le_stores bytes b
      rw [length_head] at least
      exact Nat.le_trans (Nat.le_add_right _ _) least

/-- Behind each call there are at most `len` bytes, and all are defined. -/
def Completes (len : Nat) : Draft → List Push → Prop
  | _, [] => True
  | d, p :: later => ((d.stores p).length ≤ len ∧ d.Defined p) ∧ Completes len (d.after p) later

end Draft

/-- In an allocation that ends at `begin + len`, every call returns, so none has stored at or
behind that end, and `m_cur` never gets past it. -/
structure InBounds (mem : Mem) (begin len : Nat) (pushes : List Push) : Prop where
  returns : ∃ w, (new mem begin len).pushAll pushes = .ok w
  cur : ∀ before w, before <+: pushes → (new mem begin len).pushAll before = .ok w →
    w.mCur ≤ begin + len

/-! ## One call -/

/-- The writer has written `bytes`, and `m_begin + len` is the end of its allocation. -/
def At (w : FixWriter) (len : Nat) (bytes : List UInt8) : Prop :=
  ∃ before after, w.Holds before bytes after ∧ bytes.length + after.length = len

/-- The writer has written the draft. -/
structure Wrote (w : FixWriter) (len : Nat) (d : Draft) : Prop where
  at_ : At w len d.bytes
  body : w.mBodyLen = d.body.map (w.mBegin + ·)
  inside : ∀ b, d.body = some b → b ≤ d.bytes.length

variable {w : FixWriter} {len : Nat} {d : Draft}

theorem At.cur {bytes : List UInt8} (at_ : At w len bytes) : w.mCur = w.mBegin + bytes.length := by
  obtain ⟨before, after, holds, -⟩ := at_
  rw [holds.cur, holds.begin_]

/-- `m_body_len` has no part in it. -/
theorem At.mark {bytes : List UInt8} (at_ : At w len bytes) (mBodyLen : Ptr) :
    At { w with mBodyLen } len bytes := by
  obtain ⟨before, after, holds, ends⟩ := at_
  exact ⟨before, after, ⟨holds.mem, holds.begin_, holds.cur⟩, ends⟩

theorem At.size {bytes : List UInt8} (at_ : At w len bytes) : w.size = bytes.length := by
  rw [FixWriter.size, at_.cur]
  exact Nat.add_sub_cancel_left _ _

theorem At.short {bytes : List UInt8} (at_ : At w len bytes) : bytes.length ≤ len := by
  obtain ⟨before, after, -, ends⟩ := at_
  omega

/-- What `format_to` comes to. -/
theorem formatTo_cases {bytes : List UInt8} (at_ : At w len bytes) (text : List UInt8) :
    len < (bytes ++ text).length ∧ w.formatTo text = .error .overrun ∨
      (bytes ++ text).length ≤ len ∧ ∃ w', w.formatTo text = .ok w' ∧ At w' len (bytes ++ text) ∧
        w'.mBodyLen = w.mBodyLen ∧ w'.mBegin = w.mBegin := by
  obtain ⟨before, after, holds, ends⟩ := at_
  rw [List.length_append]
  rcases Nat.lt_or_ge after.length text.length with long | room
  · have fault : ¬ w.mCur + text.length ≤ w.mem.length := by
      rw [holds.mem, holds.cur]
      simp only [List.length_append]
      omega
    refine .inl ⟨by omega, ?_⟩
    rw [formatTo, writeBytes, if_neg fault]
    rfl
  · obtain ⟨w', run, holds', bodyLen⟩ := formatTo_holds holds room
    refine .inr ⟨by omega, w', run, ⟨before, _, holds', ?_⟩, bodyLen, ?_⟩
    · rw [List.length_append, List.length_drop]
      omega
    · rw [holds'.begin_, holds.begin_]

theorem Wrote.formatTo_cases (wrote : Wrote w len d) (text : List UInt8) :
    len < (d.bytes ++ text).length ∧ w.formatTo text = .error .overrun ∨
      (d.bytes ++ text).length ≤ len ∧ ∃ w', w.formatTo text = .ok w' ∧
        Wrote w' len ⟨d.bytes ++ text, d.body⟩ ∧ w'.mBegin = w.mBegin := by
  rcases FixWriter.formatTo_cases wrote.at_ text with
    fault | ⟨room, w', run, at_, bodyLen, begin_⟩
  · exact .inl fault
  · refine .inr ⟨room, w', run, ⟨at_, ?_, fun b same => ?_⟩, begin_⟩
    · rw [bodyLen, begin_]
      exact wrote.body
    · have before := wrote.inside b same
      change b ≤ (d.bytes ++ text).length
      rw [List.length_append]
      omega

/-- The body begins at `m_cur`. -/
theorem Wrote.mark (wrote : Wrote w len d) :
    Wrote { w with mBodyLen := some w.mCur } len ⟨d.bytes, some d.bytes.length⟩ := by
  refine ⟨wrote.at_.mark _, congrArg some wrote.at_.cur, fun b same => ?_⟩
  cases same
  exact Nat.le_refl _

/-- What `push_field` comes to. -/
theorem pushField_cases (wrote : Wrote w len d) (tag : Int) (arg : List UInt8) :
    len < (d.bytes ++ OpenFix.field tag arg).length ∧ w.pushField tag arg = .error .overrun ∨
      (d.bytes ++ OpenFix.field tag arg).length ≤ len ∧
        ∃ w', w.pushField tag arg = .ok w' ∧ Wrote w' len (d.after (.field tag arg)) ∧
          w'.mBegin = w.mBegin := by
  have text : fmtInt tag ++ equalSign :: arg ++ [SOH] = OpenFix.field tag arg := rfl
  rw [pushField, text]
  rcases wrote.formatTo_cases (OpenFix.field tag arg) with
    ⟨long, run⟩ | ⟨room, w', run, wrote', begin_⟩
  · exact .inl ⟨long, by rw [run, error_bind]⟩
  · refine .inr ⟨room, ?_⟩
    rw [run, ok_bind]
    split
    case isTrue header =>
      have after : d.after (.field tag arg) = ⟨d.bytes ++ OpenFix.field tag arg,
          some (d.bytes ++ OpenFix.field tag arg).length⟩ :=
        congrArg (Draft.mk _) (if_pos header)
      rw [after]
      exact ⟨_, rfl, wrote'.mark, begin_⟩
    case isFalse other =>
      have after : d.after (.field tag arg) = ⟨d.bytes ++ OpenFix.field tag arg, d.body⟩ :=
        congrArg (Draft.mk _) (if_neg other)
      rw [after]
      exact ⟨w', rfl, wrote', begin_⟩

/-- What `push_timestamp` comes to. -/
theorem pushTimestamp_cases (wrote : Wrote w len d) (tag : Int) (time : List UInt8) (ms : Int) :
    len < (d.stores (.timestamp tag time ms)).length ∧
        w.pushTimestamp tag time ms = .error .overrun ∨
      (d.stores (.timestamp tag time ms)).length ≤ len ∧
        ∃ w', w.pushTimestamp tag time ms = .ok w' ∧
          Wrote w' len (d.after (.timestamp tag time ms)) ∧ w'.mBegin = w.mBegin := by
  have text : fmtInt tag ++ equalSign :: time ++ 46 :: fmtInt03 ms ++ [SOH] =
      OpenFix.field tag (time ++ 46 :: fmtInt03 ms) := by
    simp only [OpenFix.field, FixFieldIterator.fieldBytes, List.append_assoc, List.cons_append]
  rw [pushTimestamp, text]
  exact wrote.formatTo_cases _

/-- The shift of `push_trailer` does not fit. -/
theorem pushTrailer_overrun {before hd body after : List UInt8} (nonempty : body ≠ [])
    (holds : w.Holds before (hd ++ body) after)
    (bodyLen : w.mBodyLen = some (before.length + hd.length))
    (room : after.length < (OpenFix.field FixSpec.BodyLength (Decimal.text body.length)).length) :
    w.pushTrailer = .error .overrun := by
  have start : w.mCur - (before.length + hd.length) = body.length := by
    rw [holds.cur, List.length_append]
    omega
  have nonzero : body.length ≠ 0 := fun zero => nonempty (List.eq_nil_of_length_eq_zero zero)
  rw [length_bodyLength (List.length_pos_of_ne_nil nonempty)] at room
  have length : (Bytes.slice w.mem (before.length + hd.length) body.length).length =
      body.length := by
    apply Bytes.length_slice
    rw [holds.mem]
    simp only [List.length_append]
    omega
  have long : ¬ before.length + hd.length + (Nat.log 10 body.length + 1 + 3) +
      (Bytes.slice w.mem (before.length + hd.length) body.length).length ≤ w.mem.length := by
    rw [length, holds.mem]
    simp only [List.length_append]
    omega
  have moved : memmove w.mem (before.length + hd.length + (Nat.log 10 body.length + 1 + 3))
      (before.length + hd.length) body.length = .error .overrun := by
    rw [memmove, writeBytes, if_neg long]
  simp only [pushTrailer, bodyLen, start, if_neg nonzero, moved, error_bind]

/-- What `push_trailer` comes to behind a header and a body. -/
theorem pushTrailer_body {bytes : List UInt8} {b : Nat} (at_ : At w len bytes)
    (mBodyLen : w.mBodyLen = some (w.mBegin + b)) (bound : b ≤ bytes.length)
    (body : bytes.drop b ≠ []) :
    ¬ ((Draft.stores ⟨bytes, some b⟩ .trailer).length ≤ len ∧
        (Draft.head ⟨bytes, some b⟩ b).length < 2 ^ 31) ∧
        (∃ fault, w.pushTrailer = .error fault) ∨
      ((Draft.stores ⟨bytes, some b⟩ .trailer).length ≤ len ∧
        (Draft.head ⟨bytes, some b⟩ b).length < 2 ^ 31) ∧
        ∃ w', w.pushTrailer = .ok w' ∧ At w' len (Draft.stores ⟨bytes, some b⟩ .trailer) ∧
          w'.mBodyLen = w.mBodyLen ∧ w'.mBegin = w.mBegin := by
  obtain ⟨before, after, holds, ends⟩ := at_
  have holdsBody : w.Holds before (bytes.take b ++ bytes.drop b) after := by
    rw [List.take_append_drop]
    exact holds
  have bodyLen : w.mBodyLen = some (before.length + (bytes.take b).length) := by
    rw [mBodyLen, holds.begin_, List.length_take, Nat.min_eq_left bound]
  have length : (Draft.head ⟨bytes, some b⟩ b).length = _ := Draft.length_head
  rcases Nat.lt_or_ge after.length
    (OpenFix.field FixSpec.BodyLength (Decimal.text (bytes.drop b).length)).length with long | room
  · refine .inl ⟨fun takes => ?_, .overrun, pushTrailer_overrun body holdsBody bodyLen long⟩
    have least := Draft.length_le_stores bytes b
    omega
  obtain ⟨w₁, bodyLen₁, holds₁, run⟩ := pushTrailer_run body holdsBody bodyLen room
  change w.pushTrailer = (checksumLoop (Draft.head ⟨bytes, some b⟩ b) 0 0 >>= _) at run
  have at₁ : At w₁ len (Draft.head ⟨bytes, some b⟩ b) := by
    refine ⟨before, _, holds₁, ?_⟩
    have rest := after.length_drop
      (i := (OpenFix.field FixSpec.BodyLength (Decimal.text (bytes.drop b).length)).length)
    omega
  rcases Nat.lt_or_ge (Draft.head ⟨bytes, some b⟩ b).length (2 ^ 31) with short | long
  · rw [checksumLoop_ok (by rw [intMax]; omega) (by omega) (by omega), Int.zero_add,
      ok_bind] at run
    rcases formatTo_cases at₁ (OpenFix.field FixSpec.CheckSum
        (fmtInt03 (signedCheck (Draft.head ⟨bytes, some b⟩ b)))) with
      ⟨long, fault⟩ | ⟨room, w', written, at', bodyLen', begin_⟩
    · exact .inl ⟨fun takes => Nat.not_lt.mpr takes.1 long, .overrun, run.trans fault⟩
    · refine .inr ⟨⟨room, short⟩, w', run.trans written, at', bodyLen'.trans bodyLen₁, ?_⟩
      rw [begin_, holds₁.begin_, holds.begin_]
  · refine .inl ⟨fun takes => Nat.not_lt.mpr long takes.2, .overflow, ?_⟩
    rw [run, checksumLoop_overflow 0 (by decide) (by rw [intMax]; omega), error_bind]

/-- With an empty body `push_trailer` does not return. -/
theorem pushTrailer_empty {mBodyLen : Nat} (mark : w.mBodyLen = some mBodyLen)
    (empty : w.mCur - mBodyLen = 0) : ∃ fault, w.pushTrailer = .error fault := by
  simp only [pushTrailer, mark, empty, if_true]
  cases writeBytes w.mem mBodyLen
      (fmtInt FixSpec.BodyLength ++ equalSign :: Decimal.text 0 ++ [SOH]) with
  | error fault => exact ⟨fault, rfl⟩
  | ok _ => exact ⟨.overflow, rfl⟩

/-- What `push_trailer` comes to. -/
theorem pushTrailer_cases (wrote : Wrote w len d) :
    ¬ ((d.stores .trailer).length ≤ len ∧ d.Defined .trailer) ∧
        (∃ fault, w.pushTrailer = .error fault) ∨
      ((d.stores .trailer).length ≤ len ∧ d.Defined .trailer) ∧
        ∃ w', w.pushTrailer = .ok w' ∧ Wrote w' len (d.after .trailer) ∧
          w'.mBegin = w.mBegin := by
  obtain ⟨at_, mBodyLen, inside⟩ := wrote
  obtain ⟨bytes, body⟩ := d
  cases body with
  | none =>
      refine .inl ⟨?_, .nullPointer, ?_⟩
      · rintro ⟨-, b, none_, -⟩
        cases none_
      · rw [pushTrailer, mBodyLen]
        rfl
  | some b =>
      have bound : b ≤ bytes.length := inside b rfl
      rw [Option.map_some] at mBodyLen
      by_cases body : bytes.drop b = []
      · have empty : w.mCur - (w.mBegin + b) = 0 := by
          have past := List.drop_eq_nil_iff.mp body
          have cur : w.mCur = w.mBegin + bytes.length := at_.cur
          omega
        refine .inl ⟨?_, pushTrailer_empty mBodyLen empty⟩
        rintro ⟨-, b', same, nonempty, -⟩
        cases same
        exact nonempty body
      · rcases pushTrailer_body at_ mBodyLen bound body with
          ⟨refused, fault⟩ | ⟨⟨room, short⟩, w', run, at', bodyLen', begin_⟩
        · refine .inl ⟨?_, fault⟩
          rintro ⟨room, b', same, -, short⟩
          cases same
          exact refused ⟨room, short⟩
        · refine .inr ⟨⟨room, b, rfl, body, short⟩, w', run, ⟨at', ?_, fun b' same => ?_⟩, begin_⟩
          · rw [bodyLen', begin_]
            exact mBodyLen
          · cases same
            have least := Draft.length_le_stores bytes b
            rw [Draft.length_head] at least
            change b ≤ (Draft.stores ⟨bytes, some b⟩ .trailer).length
            omega

/-- What a call comes to. -/
theorem push_cases (wrote : Wrote w len d) (p : Push) :
    ¬ ((d.stores p).length ≤ len ∧ d.Defined p) ∧ (∃ fault, w.push p = .error fault) ∨
      ((d.stores p).length ≤ len ∧ d.Defined p) ∧
        ∃ w', w.push p = .ok w' ∧ Wrote w' len (d.after p) ∧ w'.mBegin = w.mBegin := by
  have written {stored : List UInt8} {run : Except Fault FixWriter} {d' : Draft}
      (cases_ : len < stored.length ∧ run = .error .overrun ∨ stored.length ≤ len ∧
        ∃ w', run = .ok w' ∧ Wrote w' len d' ∧ w'.mBegin = w.mBegin) :
      ¬ (stored.length ≤ len ∧ True) ∧ (∃ fault, run = .error fault) ∨
        (stored.length ≤ len ∧ True) ∧
          ∃ w', run = .ok w' ∧ Wrote w' len d' ∧ w'.mBegin = w.mBegin :=
    cases_.imp (fun ⟨long, fault⟩ => ⟨fun takes => Nat.not_lt.mpr takes.1 long, .overrun, fault⟩)
      fun ⟨room, run⟩ => ⟨⟨room, trivial⟩, run⟩
  cases p with
  | header beginString => exact written (pushField_cases wrote FixSpec.BeginString beginString)
  | field tag arg => exact written (pushField_cases wrote tag arg)
  | timestamp tag time ms => exact written (pushTimestamp_cases wrote tag time ms)
  | trailer => exact pushTrailer_cases wrote

/-- A writer whose calls returned is where its draft ends. -/
theorem Wrote.pushAll (wrote : Wrote w len d) {pushes : List Push} {w' : FixWriter}
    (run : w.pushAll pushes = .ok w') : ∃ d', Wrote w' len d' ∧ w'.mBegin = w.mBegin := by
  induction pushes generalizing w d with
  | nil =>
      cases run
      exact ⟨d, wrote, rfl⟩
  | cons p later ih =>
      rw [FixWriter.pushAll, List.foldlM_cons] at run
      obtain ⟨w₁, first, rest⟩ := of_bind_ok run
      rcases push_cases wrote p with ⟨-, fault, run⟩ | ⟨-, w₂, run, wrote', same⟩
      · cases run.symm.trans first
      · cases run.symm.trans first
        obtain ⟨d', wrote', begin_⟩ := ih wrote' rest
        exact ⟨d', wrote', begin_.trans same⟩

/-- Any calls. -/
theorem pushAll_iff (wrote : Wrote w len d) (pushes : List Push) :
    (∃ w', w.pushAll pushes = .ok w') ↔ d.Completes len pushes := by
  induction pushes generalizing w d with
  | nil => exact iff_of_true ⟨w, rfl⟩ trivial
  | cons p later ih =>
      rw [Draft.Completes, FixWriter.pushAll, List.foldlM_cons]
      rcases push_cases wrote p with ⟨refused, fault, run⟩ | ⟨takes, w', run, wrote', -⟩
      · rw [run]
        exact iff_of_false (fun ⟨_, ok⟩ => nomatch ok) fun completes => refused completes.1
      · rw [run, ok_bind, and_iff_right takes]
        exact ih wrote'

theorem new_wrote {mem : Mem} {begin : Nat} (ends : begin + len = mem.length) :
    Wrote (new mem begin len) len .empty := by
  refine ⟨⟨mem.take begin, mem.drop begin, new_holds len (by omega), ?_⟩, rfl, nofun⟩
  rw [List.length_drop]
  change 0 + _ = _
  omega

/-- The end of the buffer. -/
theorem inBounds_iff {mem : Mem} {begin : Nat} (ends : begin + len = mem.length)
    (pushes : List Push) : InBounds mem begin len pushes ↔ Draft.Completes len .empty pushes := by
  have returns := pushAll_iff (new_wrote ends) pushes
  refine ⟨fun inBounds => returns.mp inBounds.returns, fun fits => ⟨returns.mpr fits, ?_⟩⟩
  intro before w _ run
  obtain ⟨d, wrote, begin_⟩ := (new_wrote ends).pushAll run
  have cur := wrote.at_.cur
  have short := wrote.at_.short
  rw [begin_] at cur
  change w.mCur = begin + _ at cur
  omega

/-! ## Whole messages -/

/-- Calls that all return leave a size that the buffer has. -/
theorem pushAll_ok_iff (wrote : Wrote w len d) (pushes : List Push) :
    (∃ w', w.pushAll pushes = .ok w' ∧ w'.size ≤ len) ↔ d.Completes len pushes := by
  rw [← pushAll_iff wrote]
  refine exists_congr fun w' => and_iff_left_of_imp fun run => ?_
  obtain ⟨d', wrote', -⟩ := wrote.pushAll run
  rw [wrote'.at_.size]
  exact wrote'.at_.short

/-- The calls of `write`. -/
def calls (beginString : List UInt8) (fields : List (Int × List UInt8)) : List Push :=
  .header beginString :: ((fields.map fun f => .field f.1 f.2) ++ [.trailer])

theorem write_calls (mem : Mem) (begin len : Nat) (beginString : List UInt8)
    (fields : List (Int × List UInt8)) :
    write mem begin len beginString fields =
      (new mem begin len).pushAll (calls beginString fields) := by
  have trailer (w : FixWriter) : w.pushAll [.trailer] = w.pushTrailer := bind_pure _
  have inner (w : FixWriter) :
      w.pushAll ((fields.map fun f => .field f.1 f.2) ++ [.trailer]) =
        (w.pushFields fields >>= fun w => w.pushTrailer) := by
    rw [FixWriter.pushAll, List.foldlM_append, List.foldlM_map]
    exact congrArg (_ >>= ·) (funext trailer)
  rw [calls, FixWriter.pushAll, List.foldlM_cons, write]
  exact congrArg (_ >>= ·) (funext fun w => (inner w).symm)

/-- The fields leave their bytes to the trailer. -/
theorem completes_fields {fields : List (Int × List UInt8)}
    (notBegin : ∀ f ∈ fields, f.1 ≠ FixSpec.BeginString) :
    d.Completes len ((fields.map fun f => Push.field f.1 f.2) ++ [.trailer]) ↔
      Draft.Completes len ⟨d.bytes ++ fieldsBytes fields, d.body⟩ [.trailer] := by
  induction fields generalizing d with
  | nil =>
      rw [fieldsBytes, List.flatMap_nil, List.append_nil]
      rfl
  | cons f fields ih =>
      have after : d.after (.field f.1 f.2) = ⟨d.bytes ++ field f.1 f.2, d.body⟩ :=
        congrArg (Draft.mk _) (if_neg (notBegin f List.mem_cons_self))
      rw [List.map_cons, List.cons_append, Draft.Completes, after,
        ih fun g member => notBegin g (List.mem_cons_of_mem f member), fieldsBytes_cons,
        ← List.append_assoc]
      refine and_iff_right_of_imp fun completes => ⟨?_, trivial⟩
      have whole := Nat.le_trans (Draft.length_le_trailer _) completes.1.1
      rw [List.length_append] at whole
      exact Nat.le_trans (Nat.le_add_right _ _) whole

/-- The trailer of a whole message. -/
theorem completes_trailer (beginString : List UInt8) {body : List UInt8} (nonempty : body ≠ []) :
    Draft.Completes len ⟨OpenFix.field FixSpec.BeginString beginString ++ body,
        some (OpenFix.field FixSpec.BeginString beginString).length⟩ [.trailer] ↔
      (frameHead beginString body).length < 2 ^ 31 ∧
        (frame beginString body (signedCheck (frameHead beginString body))).length ≤ len := by
  have front : (OpenFix.field FixSpec.BeginString beginString ++ body).drop
      (OpenFix.field FixSpec.BeginString beginString).length = body := List.drop_left
  have head : Draft.head ⟨OpenFix.field FixSpec.BeginString beginString ++ body,
      some (OpenFix.field FixSpec.BeginString beginString).length⟩
      (OpenFix.field FixSpec.BeginString beginString).length = frameHead beginString body := by
    simp only [Draft.head, front, List.take_left, frameHead]
  have stores : Draft.stores ⟨OpenFix.field FixSpec.BeginString beginString ++ body,
      some (OpenFix.field FixSpec.BeginString beginString).length⟩ .trailer =
        frame beginString body (signedCheck (frameHead beginString body)) := by
    rw [Draft.stores]
    dsimp only
    rw [head]
    rfl
  rw [Draft.Completes, stores]
  constructor
  · rintro ⟨⟨room, _, same, -, short⟩, -⟩
    cases same
    rw [head] at short
    exact ⟨short, room⟩
  · rintro ⟨short, room⟩
    exact ⟨⟨room, _, rfl, by rw [front]; exact nonempty, by rw [head]; exact short⟩, trivial⟩

/-- A whole message. -/
theorem write_ok_iff {mem : Mem} {begin : Nat} (ends : begin + len = mem.length)
    {beginString : List UInt8} {fields : List (Int × List UInt8)} (nonempty : fields ≠ [])
    (notBegin : ∀ f ∈ fields, f.1 ≠ FixSpec.BeginString) :
    (∃ w, write mem begin len beginString fields = .ok w ∧ w.size ≤ len) ↔
      (frameHead beginString (fieldsBytes fields)).length < 2 ^ 31 ∧
        (frame beginString (fieldsBytes fields)
          (signedCheck (frameHead beginString (fieldsBytes fields)))).length ≤ len := by
  have header : Draft.empty.after (.header beginString) =
      ⟨field FixSpec.BeginString beginString,
        some (field FixSpec.BeginString beginString).length⟩ := rfl
  rw [write_calls, pushAll_ok_iff (new_wrote ends), calls, Draft.Completes, header,
    completes_fields notBegin, completes_trailer beginString (fieldsBytes_ne_nil nonempty)]
  refine and_iff_right_of_imp fun completes => ⟨?_, trivial⟩
  have whole := completes.2
  simp only [frame, frameHead, List.length_append] at whole
  change (OpenFix.field FixSpec.BeginString beginString).length ≤ len
  omega

end FixWriter

end OpenFix
