import Mathlib.Data.Nat.Digits.Lemmas
import Mathlib.Data.Nat.Log
import Mathlib.Tactic.Common
import Mathlib.Tactic.Ring

/-!
# Decimal numerals in ASCII

`text n` spells `n` without leading zeros, `padded k n` with leading zeros up to
width `k`; `value cs` reads a string of digits back. Reading inverts both
spellings, and the length of `text n` is the integer logarithm of `n` plus one.
-/

namespace Decimal

/-- The ASCII digit for `d`. -/
def digit (d : Nat) : UInt8 := UInt8.ofNat (48 + d)

def isDigit (c : UInt8) : Bool := 48 ≤ c && c ≤ 57

/-- The canonical decimal spelling of `n`. -/
def text (n : Nat) : List UInt8 :=
  if n = 0 then [digit 0] else (Nat.digits 10 n).reverse.map digit

/-- The spelling of `n` with leading zeros up to width `k`. -/
def padded (k n : Nat) : List UInt8 :=
  List.replicate (k - (text n).length) (digit 0) ++ text n

/-- Read digits onto an accumulator, most significant digit first. -/
def read (acc : Nat) (cs : List UInt8) : Nat :=
  cs.foldl (fun acc c => acc * 10 + (c.toNat - 48)) acc

/-- The number a string of digits spells. -/
def value (cs : List UInt8) : Nat := read 0 cs

/-- The digits of `n`, the last one first; 0 has none. -/
def reversed (n : Nat) : List UInt8 := (Nat.digits 10 n).map digit

@[simp] theorem reversed_zero : reversed 0 = [] := by
  rw [reversed, Nat.digits_zero, List.map_nil]

theorem reversed_of_pos {n : Nat} (positive : 0 < n) :
    reversed n = digit (n % 10) :: reversed (n / 10) := by
  rw [reversed, Nat.digits_def' (by decide) positive, List.map_cons, reversed]

/-- A positive number has its digits the other way round. -/
theorem text_of_pos {n : Nat} (positive : 0 < n) : text n = (reversed n).reverse := by
  rw [text, if_neg (by omega), reversed, List.map_reverse]

theorem toNat_digit {d : Nat} (small : d < 10) : (digit d).toNat = 48 + d := by
  rw [digit, UInt8.toNat_ofNat']
  omega

theorem isDigit_iff {c : UInt8} : isDigit c = true ↔ 48 ≤ c.toNat ∧ c.toNat ≤ 57 := by
  simp only [isDigit, Bool.and_eq_true, decide_eq_true_eq, UInt8.le_iff_toNat_le]
  rfl

theorem isDigit_digit {d : Nat} (small : d < 10) : isDigit (digit d) = true := by
  rw [isDigit_iff, toNat_digit small]
  omega

theorem isDigit_of_mem_text {n : Nat} {c : UInt8} (member : c ∈ text n) :
    isDigit c = true := by
  rw [text] at member
  split at member
  · rw [List.mem_singleton.mp member]
    exact isDigit_digit (by omega)
  · obtain ⟨d, dMember, rfl⟩ := List.mem_map.mp member
    exact isDigit_digit (Nat.digits_lt_base (by omega) (List.mem_reverse.mp dMember))

theorem isDigit_of_mem_padded {k n : Nat} {c : UInt8} (member : c ∈ padded k n) :
    isDigit c = true := by
  rcases List.mem_append.mp member with zero | member
  · rw [(List.mem_replicate.mp zero).2]
    exact isDigit_digit (by omega)
  · exact isDigit_of_mem_text member

/-- The spelling of a positive number has one digit more than its logarithm. -/
theorem length_text {n : Nat} (positive : 0 < n) :
    (text n).length = Nat.log 10 n + 1 := by
  rw [text, if_neg (by omega), List.length_map, List.length_reverse,
    Nat.length_digits 10 n (by omega) (by omega)]

theorem text_ne_nil (n : Nat) : text n ≠ [] := by
  rw [text]
  split
  · exact List.cons_ne_nil _ _
  case isFalse nonzero =>
    simpa only [ne_eq, List.map_eq_nil_iff, List.reverse_eq_nil_iff,
      Nat.digits_eq_nil_iff_eq_zero] using nonzero

/-- A number below `10 ^ k` takes at most `k` digits. -/
theorem length_text_le {n k : Nat} (width : 0 < k) (below : n < 10 ^ k) :
    (text n).length ≤ k := by
  rcases Nat.eq_zero_or_pos n with rfl | positive
  · exact width
  · rw [length_text positive]
    exact Nat.log_lt_of_lt_pow (by omega) below

theorem length_padded_eq_max (k n : Nat) : (padded k n).length = max k (text n).length := by
  rw [padded, List.length_append, List.length_replicate]
  omega

theorem read_append (acc : Nat) (cs ds : List UInt8) :
    read acc (cs ++ ds) = read (read acc cs) ds :=
  List.foldl_append

/-- Reading further digits never lowers the accumulator. -/
theorem le_read (acc : Nat) (cs : List UInt8) : acc ≤ read acc cs := by
  induction cs generalizing acc with
  | nil => exact Nat.le_refl acc
  | cons c cs ih => exact Nat.le_trans (by omega) (ih (acc * 10 + (c.toNat - 48)))

theorem read_eq (acc : Nat) (cs : List UInt8) : read acc cs = acc * 10 ^ cs.length + value cs := by
  induction cs generalizing acc with
  | nil => exact (Nat.mul_one acc).symm
  | cons c cs ih =>
      have onto (acc : Nat) : read acc (c :: cs) = read (acc * 10 + (c.toNat - 48)) cs := rfl
      rw [value, onto, onto, ih, ih, List.length_cons]
      ring

/-- A digit in front. -/
theorem value_cons (c : UInt8) (cs : List UInt8) :
    value (c :: cs) = (c.toNat - 48) * 10 ^ cs.length + value cs := by
  rw [← read_eq]
  exact congrArg (read · cs) (Nat.zero_add _)

theorem value_lt {cs : List UInt8} (all : ∀ c ∈ cs, isDigit c = true) :
    value cs < 10 ^ cs.length := by
  induction cs with
  | nil => exact Nat.one_pos
  | cons c cs ih =>
      obtain ⟨first, all⟩ := List.forall_mem_cons.mp all
      have range := isDigit_iff.mp first
      have rest := ih all
      have lead : (c.toNat - 48) * 10 ^ cs.length ≤ 9 * 10 ^ cs.length :=
        Nat.mul_le_mul_right _ (by omega)
      rw [value_cons, List.length_cons, Nat.pow_succ]
      omega

theorem read_replicate_zero (k : Nat) : read 0 (List.replicate k (digit 0)) = 0 := by
  induction k with
  | zero => rfl
  | succ k ih => exact ih

/-- Reading the digits of a base-10 expansion, most significant first, is
evaluating the expansion. -/
theorem value_map_digit_reverse {ds : List Nat} (small : ∀ d ∈ ds, d < 10) :
    value (ds.reverse.map digit) = Nat.ofDigits 10 ds := by
  induction ds with
  | nil => rfl
  | cons d ds ih =>
      have rest := ih fun e member => small e (List.mem_cons_of_mem d member)
      have head := toNat_digit (small d List.mem_cons_self)
      rw [value] at rest ⊢
      rw [List.reverse_cons, List.map_append, read_append, rest, Nat.ofDigits_cons]
      simp only [List.map_cons, List.map_nil, read, List.foldl_cons, List.foldl_nil, head]
      omega

@[simp] theorem value_text (n : Nat) : value (text n) = n := by
  rw [text]
  split
  case isTrue zero => rw [zero]; rfl
  case isFalse =>
    rw [value_map_digit_reverse fun d member => Nat.digits_lt_base (by omega) member,
      Nat.ofDigits_digits]

/-- The spelling of a positive number starts with another digit than 0. -/
theorem text_cases {n : Nat} (positive : 0 < n) :
    ∃ c cs, text n = c :: cs ∧ isDigit c = true ∧ c ≠ digit 0 ∧
      ∀ d ∈ cs, isDigit d = true := by
  obtain ⟨c, cs, split⟩ := List.exists_cons_of_ne_nil (text_ne_nil n)
  have all : ∀ d ∈ c :: cs, isDigit d = true := fun d member =>
    isDigit_of_mem_text (split ▸ member)
  obtain ⟨first, rest⟩ := List.forall_mem_cons.mp all
  refine ⟨c, cs, split, first, ?_, rest⟩
  rintro rfl
  -- Without the leading zero the spelling would be too short.
  have length := length_text positive
  have value := value_text n
  have small := value_lt rest
  have least := Nat.pow_log_le_self 10 (Nat.ne_of_gt positive)
  rw [split, List.length_cons] at length
  rw [split, value_cons, toNat_digit (by omega)] at value
  have log : Nat.log 10 n = cs.length := by omega
  rw [log] at least
  omega

@[simp] theorem value_padded (k n : Nat) : value (padded k n) = n := by
  rw [value, padded, read_append, read_replicate_zero]
  exact value_text n

end Decimal
