import OpenFix.Lib.Bytes
import OpenFix.Lib.Decimal

/-!
# The C++ runtime under the model

What the modelled functions use of the language and its library, on the x86-64
Linux target: a flat allocation addressed by offsets, the ways an access goes
wrong, two's complement `int`, signed `char`, `std::atoi`, and the `fmt`
formats `{}` and `{:03}`.

A pointer is an offset into the allocation, or null. Reading outside the
allocation is a fault, so every theorem that concludes `.ok` also says that the
code stayed inside.
-/

namespace OpenFix

/-- How a run leaves defined behaviour. -/
inductive Fault : Type
  /-- A null pointer was dereferenced or moved. -/
  | nullPointer
  /-- An access before the start of the allocation. -/
  | underrun
  /-- An access past the end of the allocation. -/
  | overrun
  /-- An arithmetic result its type cannot hold. -/
  | overflow
  deriving DecidableEq, Repr

@[simp] theorem ok_bind {α β : Type} (a : α) (f : α → Except Fault β) :
    (Except.ok a >>= f) = f a :=
  rfl

@[simp] theorem error_bind {α β : Type} (fault : Fault) (f : α → Except Fault β) :
    (Except.error fault >>= f) = .error fault :=
  rfl

theorem of_bind_ok {α β : Type} {x : Except Fault α} {f : α → Except Fault β} {b : β}
    (run : (x >>= f) = .ok b) : ∃ a, x = .ok a ∧ f a = .ok b := by
  cases x with
  | error fault => cases run
  | ok a => exact ⟨a, rfl, run⟩

/-- The bytes of the allocation that holds every modelled buffer. -/
abbrev Mem := List UInt8

/-- An offset into the allocation; `none` is `nullptr`. -/
abbrev Ptr := Option Nat

/-- `'\001'`, the FIX field delimiter. -/
def SOH : UInt8 := 1

/-- `'='`. -/
def equalSign : UInt8 := 61

/-- `'-'`. -/
def minusSign : UInt8 := 45

/-! ## Integers -/

/-- The `int` congruent to `x` modulo `2 ^ 32`. -/
def wrap32 (x : Int) : Int := (x + 2 ^ 31) % 2 ^ 32 - 2 ^ 31

/-- `std::numeric_limits< int >::max( )`. -/
def intMax : Int := 2 ^ 31 - 1

/-- The value of a byte as a (signed) `char`. -/
def schar (c : UInt8) : Int := if c.toNat < 128 then c.toNat else c.toNat - 256

/-- Conversion to `uint8_t`. -/
def toUInt8 (x : Int) : UInt8 := UInt8.ofNat (x % 256).toNat

theorem wrap32_of_range {x : Int} (low : -2 ^ 31 ≤ x) (high : x < 2 ^ 31) : wrap32 x = x := by
  rw [wrap32]
  omega

theorem wrap32_range (x : Int) : -2 ^ 31 ≤ wrap32 x ∧ wrap32 x < 2 ^ 31 := by
  rw [wrap32]
  omega

/-- Wrapping an operand does not change the wrapped sum. -/
theorem wrap32_add_left (x y : Int) : wrap32 (wrap32 x + y) = wrap32 (x + y) := by
  simp only [wrap32]
  omega

theorem wrap32_emod_256 (x : Int) : wrap32 x % 256 = x % 256 := by
  rw [wrap32]
  omega

theorem schar_emod_256 (c : UInt8) : schar c % 256 = c.toNat % 256 := by
  rw [schar]
  split <;> omega

theorem schar_of_isDigit {c : UInt8} (digit : Decimal.isDigit c = true) :
    schar c = c.toNat := by
  have range := Decimal.isDigit_iff.mp digit
  rw [schar, if_pos (by omega)]

theorem toNat_toUInt8 (x : Int) : ((toUInt8 x).toNat : Int) = x % 256 := by
  rw [toUInt8, UInt8.toNat_ofNat']
  omega

theorem toUInt8_congr {x y : Int} (congruent : x % 256 = y % 256) : toUInt8 x = toUInt8 y := by
  rw [toUInt8, congruent, toUInt8]

/-! ## Pointers -/

/-- Pointer arithmetic, defined only inside the allocation and one past it. -/
def movePtr (mem : Mem) (p : Ptr) (k : Int) : Except Fault Ptr :=
  match p with
  | none => .error .nullPointer
  | some p =>
      if p + k < 0 then .error .underrun
      else if mem.length < p + k then .error .overrun
      else .ok (some (p + k).toNat)

/-- Moving a pointer to a place inside the allocation. -/
theorem movePtr_of_le {mem : Mem} {p q : Nat} {k : Int} (target : (p : Int) + k = q)
    (inside : q ≤ mem.length) : movePtr mem (some p) k = .ok (some q) := by
  rw [movePtr, if_neg (by omega), if_neg (by omega), target, Int.toNat_natCast]

/-- Moved pointers are not null. -/
theorem movePtr_ok {mem : Mem} {p q : Ptr} {k : Int} (moved : movePtr mem p k = .ok q) :
    ∃ offset, q = some offset := by
  cases p with
  | none => cases moved
  | some p =>
      rw [movePtr] at moved
      split at moved
      · cases moved
      · split at moved
        · cases moved
        · cases moved
          exact ⟨_, rfl⟩

/-- Store bytes at an offset, as `fmt::format_to` and `recv` do. -/
def writeBytes (mem : Mem) (start : Nat) (bytes : List UInt8) : Except Fault Mem :=
  if start + bytes.length ≤ mem.length then .ok (Bytes.overwrite mem start bytes)
  else .error .overrun

theorem writeBytes_prefix {before rest bytes : List UInt8} (room : bytes.length ≤ rest.length) :
    writeBytes (before ++ rest) before.length bytes =
      .ok (before ++ bytes ++ rest.drop bytes.length) := by
  have fits : before.length + bytes.length ≤ (before ++ rest).length := by
    rw [List.length_append]
    omega
  rw [writeBytes, if_pos fits, Bytes.overwrite_prefix]

/-! ## `std::atoi` -/

/-- `isspace` in the C locale. -/
def isSpace (c : UInt8) : Bool := c = 32 || (9 ≤ c && c ≤ 13)

/-- The digit loop of `strtol`, up to the first byte that is no digit. -/
def strtolDigits : List UInt8 → Nat → Except Fault Nat
  | [], _ => .error .overrun
  | c :: cs, acc =>
      if Decimal.isDigit c then strtolDigits cs (acc * 10 + (c.toNat - 48)) else .ok acc

/-- `strtol` on the bytes from its argument on: white space, an optional sign,
digits. The result saturates at the ends of `long`. -/
def strtol (bytes : List UInt8) : Except Fault Int :=
  let unspaced := bytes.dropWhile isSpace
  let negative := unspaced.head? = some minusSign
  let unsigned := if negative ∨ unspaced.head? = some 43 then unspaced.tail else unspaced
  match strtolDigits unsigned 0 with
  | .error fault => .error fault
  | .ok n => .ok (if negative then max (-n) (-2 ^ 63) else min n (2 ^ 63 - 1))

/-- `std::atoi`: `strtol` converted to `int`. -/
def stdAtoi (mem : Mem) (p : Ptr) : Except Fault Int :=
  match p with
  | none => .error .nullPointer
  | some p => (strtol (mem.drop p)).map wrap32

theorem strtolDigits_append {digits : List UInt8} (all : ∀ c ∈ digits, Decimal.isDigit c = true)
    (acc : Nat) {stop : UInt8} (noDigit : Decimal.isDigit stop = false) (rest : List UInt8) :
    strtolDigits (digits ++ stop :: rest) acc = .ok (Decimal.read acc digits) := by
  induction digits generalizing acc with
  | nil =>
      rw [List.nil_append, strtolDigits, noDigit]
      rfl
  | cons c cs ih =>
      have head := all c List.mem_cons_self
      have tail := ih (fun d member => all d (List.mem_cons_of_mem c member))
        (acc * 10 + (c.toNat - 48))
      rw [List.cons_append, strtolDigits, if_pos head, tail]
      rfl

/-- A digit string is neither white space nor a sign at its head. -/
theorem strtol_digits {digits : List UInt8} (all : ∀ c ∈ digits, Decimal.isDigit c = true)
    (nonempty : digits ≠ []) {stop : UInt8} (noDigit : Decimal.isDigit stop = false)
    (rest : List UInt8) :
    strtol (digits ++ stop :: rest) = .ok (min (Decimal.value digits) (2 ^ 63 - 1)) := by
  have run := strtolDigits_append all 0 noDigit rest
  obtain ⟨c, cs, rfl⟩ := List.exists_cons_of_ne_nil nonempty
  have range := Decimal.isDigit_iff.mp (all c List.mem_cons_self)
  have noSpace : isSpace c = false := by
    rw [isSpace, Bool.or_eq_false_iff, Bool.and_eq_false_iff]
    simp only [decide_eq_false_iff_not, UInt8.le_iff_toNat_le, ← UInt8.toNat_inj]
    change ¬ c.toNat = 32 ∧ (¬ 9 ≤ c.toNat ∨ ¬ c.toNat ≤ 13)
    omega
  have noMinus : c ≠ minusSign := by
    rintro rfl
    exact absurd range.1 (by decide)
  have noPlus : c ≠ 43 := by
    rintro rfl
    exact absurd range.1 (by decide)
  have unspaced : (c :: (cs ++ stop :: rest)).dropWhile isSpace = c :: (cs ++ stop :: rest) :=
    List.dropWhile_cons_of_neg (by rw [noSpace]; exact Bool.false_ne_true)
  rw [List.cons_append] at run ⊢
  simp only [strtol, unspaced, List.head?_cons, Option.some.injEq, noMinus, noPlus, or_self,
    if_false, run]
  rfl

/-- A minus sign before a digit string. -/
theorem strtol_minus_digits {digits : List UInt8}
    (all : ∀ c ∈ digits, Decimal.isDigit c = true) {stop : UInt8}
    (noDigit : Decimal.isDigit stop = false) (rest : List UInt8) :
    strtol (minusSign :: digits ++ stop :: rest) =
      .ok (max (-(Decimal.value digits : Int)) (-2 ^ 63)) := by
  have run := strtolDigits_append all 0 noDigit rest
  have unspaced : (minusSign :: (digits ++ stop :: rest)).dropWhile isSpace =
      minusSign :: (digits ++ stop :: rest) :=
    List.dropWhile_cons_of_neg (by decide)
  rw [List.cons_append]
  simp only [strtol, unspaced, List.head?_cons, List.tail_cons, true_or, if_true, run]
  rfl

/-! ## C strings -/

/-- The bytes of a string literal. -/
def ascii (s : String) : List UInt8 := s.toList.map fun c => UInt8.ofNat c.toNat

/-- `strcmp` on the bytes in front of the NULs: the sign of its result. -/
def strcmp : List UInt8 → List UInt8 → Int
  | [], [] => 0
  | [], _ :: _ => -1
  | _ :: _, [] => 1
  | c :: cs, d :: ds => if c = d then strcmp cs ds else if c < d then -1 else 1

theorem strcmp_eq_zero_iff {cs ds : List UInt8} : strcmp cs ds = 0 ↔ cs = ds := by
  induction cs generalizing ds with
  | nil =>
      cases ds with
      | nil => exact iff_of_true rfl rfl
      | cons d ds =>
          have less : (-1 : Int) ≠ 0 := by decide
          exact iff_of_false less nofun
  | cons c cs ih =>
      cases ds with
      | nil =>
          have more : (1 : Int) ≠ 0 := by decide
          exact iff_of_false more nofun
      | cons d ds =>
          rw [strcmp, List.cons.injEq]
          by_cases same : c = d
          · rw [if_pos same, ih, and_iff_right same]
          · rw [if_neg same]
            refine iff_of_false ?_ fun equal => same equal.1
            split <;> decide

/-! ## `fmt` -/

/-- `{}` of an `int`. -/
def fmtInt (n : Int) : List UInt8 :=
  if n < 0 then minusSign :: Decimal.text n.natAbs else Decimal.text n.natAbs

/-- `{:03}` of an `int`: zeros between the sign and the digits, up to width 3. -/
def fmtInt03 (n : Int) : List UInt8 :=
  if n < 0 then minusSign :: Decimal.padded 2 n.natAbs else Decimal.padded 3 n.natAbs

end OpenFix
