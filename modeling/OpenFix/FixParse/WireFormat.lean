import OpenFix.FixParse.Writer

/-!
# The wire format of `fix_writer`

`push_trailer` adds `( uint )m_begin[ i ]` for signed `char`s and reduces with C's `%`,
so the CheckSum field has a minus sign when the 32-bit sum of the signed bytes is
negative and no multiple of 256. `FixWriter.write_wireFormat_iff` says that this, and
the `int` loop counter from `2 ^ 31` bytes on, are the only departures from the
specified format.
-/

namespace OpenFix

/-- The specified format: `8=v|9=N|`, the fields, and a three-digit CheckSum over the
bytes before it, each as 0..255. -/
def wireFormat (beginString : List UInt8) (fields : List (Int × List UInt8)) : List UInt8 :=
  let head := frameHead beginString (FixWriter.fieldsBytes fields)
  head ++ field FixSpec.CheckSum (Decimal.padded 3 (byteSum head % 256))

/-- The checksum loop counts the bytes in an `int`, and their sum as signed `char`s in an
`int` is nonnegative or a multiple of 256. -/
def SignedSumSafe (bytes : List UInt8) : Prop :=
  bytes.length < 2 ^ 31 ∧
    (0 ≤ wrap32 (FixWriter.signedSum bytes) ∨ 256 ∣ wrap32 (FixWriter.signedSum bytes))

instance (bytes : List UInt8) : Decidable (SignedSumSafe bytes) :=
  inferInstanceAs (Decidable (_ ∧ _))

namespace FixWriter

theorem signedSum_emod_256 (bytes : List UInt8) :
    signedSum bytes % 256 = (byteSum bytes : Int) % 256 := by
  induction bytes with
  | nil => rfl
  | cons c cs ih =>
      have head := schar_emod_256 c
      have sum : byteSum (c :: cs) = c.toNat + byteSum cs := List.sum_cons
      rw [signedSum_cons, sum]
      omega

/-- The spelled number is the byte sum modulo 256, or its negative representative. -/
theorem signedCheck_emod_256 (bytes : List UInt8) :
    signedCheck bytes % 256 = (byteSum bytes : Int) % 256 := by
  have wrapped := wrap32_emod_256 (signedSum bytes)
  have bytewise := signedSum_emod_256 bytes
  have division := Int.mul_tdiv_add_tmod (wrap32 (signedSum bytes)) 256
  rw [signedCheck]
  omega

theorem signedCheck_nonneg_iff (bytes : List UInt8) :
    0 ≤ signedCheck bytes ↔
      0 ≤ wrap32 (signedSum bytes) ∨ 256 ∣ wrap32 (signedSum bytes) := by
  generalize sumEq : wrap32 (signedSum bytes) = sum
  rw [signedCheck, sumEq]
  constructor
  · intro nonneg
    by_contra bad
    obtain ⟨negative, indivisible⟩ := not_or.mp bad
    have nonpos : sum.tmod 256 ≤ 0 := by
      have mirrored := Int.tmod_nonneg 256 (by omega : 0 ≤ -sum)
      rw [Int.neg_tmod] at mirrored
      omega
    exact indivisible (Int.dvd_of_tmod_eq_zero (by omega))
  · rintro (nonneg | divisible)
    · exact Int.tmod_nonneg 256 nonneg
    · rw [Int.tmod_eq_zero_of_dvd divisible]

/-- `{:03}` spells the specified three digits exactly when it spells no sign. -/
theorem fmtInt03_signedCheck_iff (bytes : List UInt8) :
    fmtInt03 (signedCheck bytes) = Decimal.padded 3 (byteSum bytes % 256) ↔
      0 ≤ signedCheck bytes := by
  have congruent := signedCheck_emod_256 bytes
  obtain ⟨lower, upper⟩ := signedCheck_range bytes
  rw [fmtInt03]
  split
  case isTrue negative =>
    refine ⟨fun spelled => ?_, fun nonneg => by omega⟩
    have digit : Decimal.isDigit minusSign = true := by
      apply Decimal.isDigit_of_mem_padded (k := 3) (n := byteSum bytes % 256)
      rw [← spelled]
      exact List.mem_cons_self
    exact absurd digit (by decide)
  case isFalse nonneg =>
    refine ⟨fun _ => by omega, fun _ => ?_⟩
    congr 1
    omega

/-- **Wire format.** In a buffer with room for the message, the written bytes are the
specified ones if and only if the signed sum of the bytes before the trailer is safe. -/
theorem write_wireFormat_iff (mem : Mem) (begin len : Nat) (beginString : List UInt8)
    (fields : List (Int × List UInt8)) (nonempty : fields ≠ [])
    (notBegin : ∀ f ∈ fields, f.1 ≠ FixSpec.BeginString)
    (room : begin + (frameHead beginString (fieldsBytes fields)).length + 8 ≤ mem.length) :
    (∃ w, write mem begin len beginString fields = .ok w ∧
        w.bytes = wireFormat beginString fields) ↔
      SignedSumSafe (frameHead beginString (fieldsBytes fields)) := by
  have written := write_eq len nonempty notBegin room
  rw [SignedSumSafe, ← signedCheck_nonneg_iff, ← fmtInt03_signedCheck_iff]
  split at written
  case isTrue short =>
    obtain ⟨w, run, holds⟩ := written
    constructor
    · rintro ⟨w', run', bytes⟩
      cases run.symm.trans run'
      rw [holds.bytes, frame, wireFormat, List.append_cancel_left_eq, field, field,
        FixFieldIterator.fieldBytes, FixFieldIterator.fieldBytes, List.append_cancel_right_eq,
        List.append_cancel_left_eq, List.cons.injEq] at bytes
      exact ⟨short, bytes.2⟩
    · rintro ⟨-, spelled⟩
      refine ⟨w, run, ?_⟩
      rw [holds.bytes, frame, wireFormat, spelled]
  case isFalse long =>
    constructor
    · rintro ⟨w, run, -⟩
      cases written.symm.trans run
    · rintro ⟨short, -⟩
      exact absurd short long

/-- A message of ASCII bytes. -/
theorem write_wireFormat_heartbeat :
    ∃ w, write (List.replicate 64 0) 0 64 [70, 73, 88] [(35, [48])] = .ok w ∧
      w.bytes = wireFormat [70, 73, 88] [(35, [48])] :=
  (write_wireFormat_iff _ 0 64 [70, 73, 88] [(35, [48])] (by decide) (by decide)
    (by decide)).mpr (by decide)

/-- Twenty bytes 0x80 in a Text field make the signed sum negative: the trailer is `10=-…`. -/
theorem write_wireFormat_highBytes :
    ¬ ∃ w, write (List.replicate 128 0) 0 128 [70, 73, 88, 46, 52, 46, 52]
        [(58, List.replicate 20 128)] = .ok w ∧
      w.bytes = wireFormat [70, 73, 88, 46, 52, 46, 52] [(58, List.replicate 20 128)] := by
  rintro ⟨w, run, bytes⟩
  have written : (write (List.replicate 128 0) 0 128 [70, 73, 88, 46, 52, 46, 52]
      [(58, List.replicate 20 128)]).map FixWriter.bytes =
        .ok (wireFormat [70, 73, 88, 46, 52, 46, 52] [(58, List.replicate 20 128)]) := by
    rw [run, ← bytes]
    rfl
  revert written
  decide +kernel

end FixWriter

end OpenFix
