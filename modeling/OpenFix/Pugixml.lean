import OpenFix.CRuntime

/-!
# `pugixml.cpp`

What the dictionary uses of the vendored parser: the nodes of a document, the access to their
children and attributes, and the conversion of an attribute to `int`. A handle that may be null is
an `Option`.

* `stringToInteger_fmtInt`: the conversion takes a decimal text to the closest `int`.
-/

namespace OpenFix.Pugi

/-- A node, with its attributes in order. A text has neither a name nor attributes. -/
structure Node : Type where
  name : List UInt8
  attributes : List (List UInt8 × List UInt8)
  children : List Node

/-- `child( )`: the first with the name. -/
def child (node : Option Node) (name : String) : Option Node :=
  node.bind fun node => node.children.find? fun child => child.name = ascii name

/-- `children( )`. -/
def children (node : Option Node) : List Node :=
  match node with
  | some node => node.children
  | none => []

/-- `attribute( )`: the value of the first with the name. -/
def attribute_ (node : Node) (name : String) : Option (List UInt8) :=
  node.attributes.lookup (ascii name)

/-- `as_string( )`. -/
def asString (value : Option (List UInt8)) : List UInt8 := value.getD []

/-! ## `string_to_integer` -/

/-- `ct_space`. -/
def isCtSpace (c : UInt8) : Bool := c = 9 || c = 10 || c = 13 || c = 32

/-- A digit of base 10. -/
def decDigit (c : UInt8) : Option Nat :=
  if 48 ≤ c.toNat ∧ c.toNat < 58 then some (c.toNat - 48) else none

/-- A digit of base 16. -/
def hexDigit (c : UInt8) : Option Nat :=
  if 48 ≤ c.toNat ∧ c.toNat < 58 then some (c.toNat - 48)
  else if 97 ≤ (c ||| 32).toNat ∧ (c ||| 32).toNat < 103 then some ((c ||| 32).toNat - 97 + 10)
  else none

/-- A digit loop: the unsigned result and the number of digits. -/
def digitLoop (base : Nat) (digit : UInt8 → Option Nat) :
    List UInt8 → Nat → Nat → Nat × Nat
  | [], result, digits => (result, digits)
  | c :: cs, result, digits =>
      match digit c with
      | some d => digitLoop base digit cs ((result * base + d) % 2 ^ 32) (digits + 1)
      | none => (result, digits)

/-- The digits behind `0x`, and whether they overflow. -/
def hexadecimal (s : List UInt8) : Nat × Bool :=
  let (result, digits) := digitLoop 16 hexDigit (s.dropWhile (· = 48)) 0 0
  (result, 8 < digits)

/-- Decimal digits, and whether they overflow: ten with a lead that is too large, or more. -/
def decimal (s : List UInt8) : Nat × Bool :=
  let s := s.dropWhile (· = 48)
  let (result, digits) := digitLoop 10 decDigit s 0 0
  let lead := s.headD 0
  (result, 10 ≤ digits && !(digits = 10 && (lead < 52 || (lead = 52 && 2 ^ 31 ≤ result))))

/-- Digits of either base. -/
def anyDigits : List UInt8 → Nat × Bool
  | 48 :: x :: s => if x ||| 32 = 120 then hexadecimal s else decimal (48 :: x :: s)
  | s => decimal s

/-- `string_to_integer< unsigned int >` between `INT_MIN` and `INT_MAX`. -/
def stringToInteger (value : List UInt8) : Int :=
  let s := value.dropWhile isCtSpace
  let negative := s.head? = some minusSign
  let s := if s.head? = some 43 ∨ negative then s.tail else s
  let (result, overflow) := anyDigits s
  if negative then
    if overflow || 2 ^ 31 < result then -2 ^ 31 else -result
  else if overflow || 2 ^ 31 - 1 < result then 2 ^ 31 - 1 else result

/-- `as_int( )`. -/
def asInt (value : Option (List UInt8)) : Int :=
  match value with
  | some value => stringToInteger value
  | none => 0

/-! ## Decimal texts -/

theorem decDigit_of_isDigit {c : UInt8} (digit : Decimal.isDigit c = true) :
    decDigit c = some (c.toNat - 48) := by
  have range := Decimal.isDigit_iff.mp digit
  rw [decDigit, if_pos (by omega)]

/-- The loop over decimal digits keeps the number modulo 2^32. -/
theorem digitLoop_digits {cs : List UInt8} (all : ∀ c ∈ cs, Decimal.isDigit c = true)
    (acc digits : Nat) :
    digitLoop 10 decDigit cs (acc % 2 ^ 32) digits =
      (Decimal.read acc cs % 2 ^ 32, digits + cs.length) := by
  induction cs generalizing acc digits with
  | nil => rfl
  | cons c cs ih =>
      obtain ⟨first, all⟩ := List.forall_mem_cons.mp all
      have onto : Decimal.read acc (c :: cs) = Decimal.read (acc * 10 + (c.toNat - 48)) cs := rfl
      have wrapped : (acc % 2 ^ 32 * 10 + (c.toNat - 48)) % 2 ^ 32 =
          (acc * 10 + (c.toNat - 48)) % 2 ^ 32 := by
        omega
      rw [digitLoop, decDigit_of_isDigit first]
      dsimp only
      rw [wrapped, ih all, onto, List.length_cons]
      congr 1
      omega

/-- Decimal digits overflow where the number is no `unsigned int`. -/
theorem decimal_text {n : Nat} (positive : 0 < n) :
    decimal (Decimal.text n) = (n % 2 ^ 32, decide (2 ^ 32 ≤ n)) := by
  obtain ⟨c, cs, split, first, nonzero, rest⟩ := Decimal.text_cases positive
  have all : ∀ d ∈ c :: cs, Decimal.isDigit d = true := List.forall_mem_cons.mpr ⟨first, rest⟩
  have other : c ≠ 48 := nonzero
  have kept : (c :: cs).dropWhile (· = 48) = c :: cs :=
    List.dropWhile_cons_of_neg (by simpa using other)
  have loop := digitLoop_digits all 0 0
  have value : Decimal.value (c :: cs) = n := split ▸ Decimal.value_text n
  have lead := Decimal.value_cons c cs
  have small := Decimal.value_lt rest
  have range := Decimal.isDigit_iff.mp first
  rw [← Decimal.value, value, Nat.zero_add, List.length_cons, Nat.zero_mod] at loop
  rw [split, decimal]
  dsimp only
  rw [kept, loop]
  refine Prod.ext rfl (Bool.eq_iff_iff.mpr ?_)
  simp only [List.headD_cons, Bool.and_eq_true, Bool.not_eq_true', Bool.and_eq_false_iff,
    Bool.or_eq_false_iff, decide_eq_true_eq, decide_eq_false_iff_not, UInt8.lt_iff_toNat_lt,
    ← UInt8.toNat_inj]
  have bound : UInt8.toNat 52 = 52 := rfl
  have noZero : c.toNat ≠ 48 := fun same => other (UInt8.toNat_inj.mp same)
  rw [value] at lead
  -- Below ten digits nothing overflows, above ten everything does, and at ten the lead decides.
  rcases lt_trichotomy cs.length 9 with few | ten | many
  · have power : 10 ^ cs.length ≤ 10 ^ 8 := Nat.pow_le_pow_right (by decide) (by omega)
    have product : (c.toNat - 48) * 10 ^ cs.length ≤ 9 * 10 ^ 8 :=
      Nat.mul_le_mul (by omega) power
    omega
  · rw [ten] at lead small ⊢
    omega
  · have power : 10 ^ 10 ≤ 10 ^ cs.length := Nat.pow_le_pow_right (by decide) (by omega)
    have product : 1 * 10 ^ 10 ≤ (c.toNat - 48) * 10 ^ cs.length :=
      Nat.mul_le_mul (by omega) power
    omega

theorem anyDigits_text {n : Nat} (positive : 0 < n) :
    anyDigits (Decimal.text n) = (n % 2 ^ 32, decide (2 ^ 32 ≤ n)) := by
  have digits := decimal_text positive
  obtain ⟨c, cs, split_, -, nonzero, -⟩ := Decimal.text_cases positive
  rw [split_] at digits ⊢
  rw [← digits]
  unfold anyDigits
  split
  case h_1 same => exact absurd (List.cons.inj same).1 nonzero
  case h_2 => rfl

/-- `as_int` on the decimal text of a number gives the `int` that is closest to it. -/
theorem stringToInteger_fmtInt (n : Int) :
    stringToInteger (fmtInt n) = max (-2 ^ 31) (min n (2 ^ 31 - 1)) := by
  rcases Int.lt_trichotomy n 0 with negative | rfl | positive
  · have text : fmtInt n = minusSign :: Decimal.text n.natAbs := if_pos negative
    have unspaced : (minusSign :: Decimal.text n.natAbs).dropWhile isCtSpace =
        minusSign :: Decimal.text n.natAbs := List.dropWhile_cons_of_neg (by decide)
    have digits : anyDigits (Decimal.text n.natAbs) = _ := anyDigits_text (by omega)
    rw [text, stringToInteger, unspaced]
    simp only [List.head?_cons, or_true, if_true, List.tail_cons, digits, Bool.or_eq_true,
      decide_eq_true_eq]
    split <;> omega
  · decide +kernel
  · have text : fmtInt n = Decimal.text n.natAbs := if_neg (by omega)
    have digits : anyDigits (Decimal.text n.natAbs) = _ := anyDigits_text (by omega)
    have nonzero : 0 < n.natAbs := by omega
    obtain ⟨c, cs, split_, first, -, -⟩ := Decimal.text_cases nonzero
    have range := Decimal.isDigit_iff.mp first
    have apart (d : UInt8) (low : d.toNat < 48) : c ≠ d := by
      rintro rfl
      omega
    have noSpace : isCtSpace c = false := by
      simp only [isCtSpace, apart 9 (by decide), apart 10 (by decide), apart 13 (by decide),
        apart 32 (by decide), decide_false, Bool.or_self]
    have noPlus : ¬ some c = some 43 := fun same => apart 43 (by decide) (Option.some.inj same)
    have noMinus : ¬ some c = some minusSign := fun same =>
      apart minusSign (by decide) (Option.some.inj same)
    have unspaced : (c :: cs).dropWhile isCtSpace = c :: cs :=
      List.dropWhile_cons_of_neg (ne_true_of_eq_false noSpace)
    rw [split_] at text digits
    rw [text, stringToInteger, unspaced]
    simp only [List.head?_cons, noPlus, noMinus, or_self, if_false, digits, Bool.or_eq_true,
      decide_eq_true_eq]
    split <;> omega

end OpenFix.Pugi
