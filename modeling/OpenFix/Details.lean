import OpenFix.CRuntime

/-!
# `details.h`

`details::atoi`, the parser's own digit reader. It checks no digit: every byte
but a leading minus sign is taken as `*begin - '0'`, in wrapping `int` arithmetic.
On the decimal spelling of an `int` it returns that `int`.
-/

namespace OpenFix.Details

/-- The loop of `atoi` over the bytes from `begin` to `end`. -/
def atoiLoop (base : Int) : List UInt8 → Int → Int
  | [], ret => ret
  | c :: cs, ret => atoiLoop base cs (wrap32 (wrap32 (ret * base) + (schar c - 48)))

/-- `atoi` on the bytes between its two pointers. Without bytes the byte at `begin`
is compared with `'-'` all the same, which leaves the result 0. -/
def atoiText (base : Int) : List UInt8 → Int
  | [] => 0
  | c :: cs =>
      if c = minusSign then wrap32 (-atoiLoop base cs 0) else atoiLoop base (c :: cs) 0

/-- `details::atoi`. -/
def atoi (mem : Mem) (begin end_ : Ptr) (base : Int) : Except Fault Int :=
  match begin, end_ with
  | some b, some e =>
      if b < mem.length ∧ e ≤ mem.length then .ok (atoiText base (Bytes.slice mem b (e - b)))
      else .error .overrun
  | _, _ => .ok intMax

/-- While the digits spell an `int` on top of the accumulator, nothing wraps. -/
theorem atoiLoop_digits {cs : List UInt8} (all : ∀ c ∈ cs, Decimal.isDigit c = true)
    (acc : Nat) (fits : Decimal.read acc cs < 2 ^ 31) :
    atoiLoop 10 cs acc = Decimal.read acc cs := by
  induction cs generalizing acc with
  | nil => rfl
  | cons c cs ih =>
      have range := Decimal.isDigit_iff.mp (all c List.mem_cons_self)
      have step : Decimal.read acc (c :: cs) = Decimal.read (acc * 10 + (c.toNat - 48)) cs := rfl
      have bound := Decimal.le_read (acc * 10 + (c.toNat - 48)) cs
      have value : wrap32 (wrap32 ((acc : Int) * 10) + (schar c - 48)) =
          ((acc * 10 + (c.toNat - 48) : Nat) : Int) := by
        rw [schar_of_isDigit (all c List.mem_cons_self), wrap32_add_left,
          wrap32_of_range (by omega) (by omega)]
        omega
      rw [step] at fits ⊢
      rw [atoiLoop, value]
      exact ih (fun d member => all d (List.mem_cons_of_mem c member)) _ fits

/-- A digit string that spells an `int` reads back. -/
theorem atoiText_digits {cs : List UInt8} (nonempty : cs ≠ [])
    (all : ∀ c ∈ cs, Decimal.isDigit c = true) (fits : Decimal.value cs < 2 ^ 31) :
    atoiText 10 cs = Decimal.value cs := by
  have run := atoiLoop_digits all 0 fits
  obtain ⟨c, cs, rfl⟩ := List.exists_cons_of_ne_nil nonempty
  have noMinus : c ≠ minusSign := by
    rintro rfl
    exact absurd (all minusSign List.mem_cons_self) (by decide)
  rw [atoiText, if_neg noMinus]
  exact run

/-- The decimal text of a nonnegative `int` reads back. -/
theorem atoiText_text {n : Nat} (fits : n < 2 ^ 31) : atoiText 10 (Decimal.text n) = n := by
  have value : Decimal.value (Decimal.text n) = n := Decimal.value_text n
  rw [atoiText_digits (Decimal.text_ne_nil n)
    (fun c member => Decimal.isDigit_of_mem_text member) (by rw [value]; exact fits), value]

/-- The text of a number, by its sign. -/
theorem fmtInt_cases (n : Int) :
    n < 0 ∧ fmtInt n = minusSign :: Decimal.text n.natAbs ∨
      0 ≤ n ∧ ∃ c cs, c ≠ minusSign ∧ fmtInt n = c :: cs ∧ Decimal.text n.natAbs = c :: cs := by
  rcases lt_or_ge n 0 with negative | unsigned
  · exact .inl ⟨negative, if_pos negative⟩
  · have text : fmtInt n = Decimal.text n.natAbs := if_neg (by omega)
    obtain ⟨c, cs, digits⟩ := List.exists_cons_of_ne_nil (Decimal.text_ne_nil n.natAbs)
    refine .inr ⟨unsigned, c, cs, ?_, text.trans digits, digits⟩
    rintro rfl
    have digit : Decimal.isDigit minusSign = true :=
      Decimal.isDigit_of_mem_text (digits ▸ List.mem_cons_self)
    exact absurd digit (by decide)

theorem atoiLoop_text {n : Nat} (fits : n < 2 ^ 31) : atoiLoop 10 (Decimal.text n) 0 = n := by
  have value : Decimal.read 0 (Decimal.text n) = n := Decimal.value_text n
  have run : atoiLoop 10 (Decimal.text n) 0 = Decimal.read 0 (Decimal.text n) :=
    atoiLoop_digits (fun c member => Decimal.isDigit_of_mem_text member) 0 (by rwa [value])
  rw [run, value]

/-- The text of every `int` but the least reads back. -/
theorem atoiText_fmtInt {n : Int} (fits : n.natAbs < 2 ^ 31) : atoiText 10 (fmtInt n) = n := by
  rcases fmtInt_cases n with ⟨negative, text⟩ | ⟨unsigned, c, cs, other, text, digits⟩
  · rw [text, atoiText, if_pos rfl, atoiLoop_text fits, wrap32_of_range (by omega) (by omega)]
    omega
  · rw [text, ← digits, atoiText_text fits]
    omega

end OpenFix.Details
