import OpenFix.Details

/-!
# `details::itoa`

The digits come from a loop that runs as long as there is a quotient, the last one first, and are
turned round at the end. The loop does not run for 0, and the sign is taken off by a negation that
the least value of the type does not have.

* `itoaLoop_eq`: what the loop leaves.
* `itoa_leaves`: what `itoa` returns and writes.
* `renders_iff`: when `itoa` writes the decimal text and `atoi` reads it back.
-/

namespace OpenFix.Details

/-- A signed integer type, at least as wide as `int`. -/
structure SignedType : Type where
  size : Nat
  wide : 4 ≤ size

namespace SignedType

/-- `std::numeric_limits::min( )` of the type. -/
def min (T : SignedType) : Int := -2 ^ (8 * T.size - 1)

theorem min_neg (T : SignedType) : T.min < 0 :=
  neg_neg_of_pos (Int.pow_pos (by decide))

/-- A value of the type. -/
structure Num (T : SignedType) : Type where
  value : Int
  low : T.min ≤ value
  high : value < -T.min

/-- `-num`. -/
def Num.neg {T : SignedType} (num : T.Num) : Except Fault T.Num :=
  if least : num.value = T.min then .error .overflow
  else .ok ⟨-num.value, by have high := num.high; omega, by have low := num.low; omega⟩

def int : SignedType := ⟨4, by decide⟩

end SignedType

/-! ## The function -/

/-- `std::reverse( buf, ptr )`. -/
def reverse (mem : Mem) (buf ptr : Nat) : Except Fault Mem :=
  writeBytes mem buf (Bytes.slice mem buf (ptr - buf)).reverse

/-- The loop of `itoa`, on a `num` that is not negative: `ptr` and `ret` behind it, or none where
it returns early. No type has so many digits that `ret` overflows. -/
def itoaLoop (buf len : Nat) (num : Nat) (mem : Mem) (ptr : Nat) (ret : Int) :
    Except Fault (Mem × Option (Nat × Int)) :=
  if num = 0 then .ok (mem, some (ptr, ret))
  else if buf + len ≤ ptr then .ok (mem, none)
  else do
    let mem ← writeBytes mem ptr [Decimal.digit (num % 10)]
    itoaLoop buf len (num / 10) mem (ptr + 1) (ret + 1)
termination_by num
decreasing_by omega

/-- `details::itoa`: the memory it leaves and what it returns. -/
def itoa {T : SignedType} (num : T.Num) (mem : Mem) (buf len : Nat) :
    Except Fault (Mem × Int) := do
  let negative := num.value < 0
  let num ← if negative then num.neg else pure num
  if len < T.size + 1 then
    return (mem, -1)
  match ← itoaLoop buf len num.value.toNat mem buf 0 with
  | (mem, none) => return (mem, -1)
  | (mem, some (ptr, ret)) =>
      if negative then
        if buf + len ≤ ptr then
          return (mem, -1)
        let mem ← writeBytes mem ptr [minusSign]
        return (← reverse mem buf (ptr + 1), ret + 1)
      return (← reverse mem buf ptr, ret)

/-! ## The loop -/

/-- A store of one byte. -/
theorem writeByte_eq (before rest : List UInt8) (old c : UInt8) :
    writeBytes (before ++ old :: rest) before.length [c] = .ok (before ++ [c] ++ rest) :=
  writeBytes_prefix (Nat.le_add_left _ _)

/-- What the loop leaves behind the digits of earlier passes: all its own, or as many as there is
room for. -/
theorem itoaLoop_eq (before done rest : List UInt8) {len : Nat} (num : Nat)
    (short : done.length ≤ len) (room : len ≤ done.length + rest.length) :
    itoaLoop before.length len num (before ++ done ++ rest) (before.length + done.length)
        done.length =
      if (done ++ Decimal.reversed num).length ≤ len then
        .ok (before ++ (done ++ Decimal.reversed num) ++
            rest.drop (Decimal.reversed num).length,
          some (before.length + (done ++ Decimal.reversed num).length,
            ((done ++ Decimal.reversed num).length : Nat)))
      else
        .ok (before ++ (done ++ Decimal.reversed num).take len ++
          rest.drop (len - done.length), none) := by
  induction num using Nat.strongRecOn generalizing done rest with
  | _ num ih =>
  unfold itoaLoop
  rcases Nat.eq_zero_or_pos num with rfl | positive
  · rw [if_pos rfl, Decimal.reversed_zero, List.append_nil, if_pos short, List.length_nil,
      List.drop_zero]
  rw [if_neg (by omega)]
  have digits := Decimal.reversed_of_pos positive
  by_cases full : before.length + len ≤ before.length + done.length
  · have exact_ : done.length = len := by omega
    have long : ¬ (done ++ Decimal.reversed num).length ≤ len := by
      rw [digits, List.length_append, List.length_cons]
      omega
    rw [if_pos full, if_neg long, ← exact_, List.take_left, Nat.sub_self, List.drop_zero]
  · obtain ⟨old, rest, rfl⟩ := List.exists_cons_of_length_pos (l := rest) (by omega)
    rw [List.length_cons] at room
    generalize Decimal.digit (num % 10) = c at digits ⊢
    have stored : writeBytes (before ++ done ++ old :: rest) (before.length + done.length) [c] =
        .ok (before ++ (done ++ [c]) ++ rest) := by
      rw [← List.length_append, writeByte_eq, List.append_assoc before]
    have length : (done ++ [c]).length = done.length + 1 := List.length_append
    have next := ih (num / 10) (Nat.div_lt_self positive (by decide)) (done ++ [c]) rest
      (by omega) (by omega)
    have same : done ++ [c] ++ Decimal.reversed (num / 10) = done ++ Decimal.reversed num := by
      rw [digits, List.append_assoc, List.singleton_append]
    have behind : (old :: rest).drop (Decimal.reversed num).length =
        rest.drop (Decimal.reversed (num / 10)).length := by
      rw [digits, List.length_cons, List.drop_succ_cons]
    have left_ : (old :: rest).drop (len - done.length) = rest.drop (len - (done.length + 1)) := by
      have more : len - done.length = len - (done.length + 1) + 1 := by omega
      rw [more, List.drop_succ_cons]
    rw [if_neg full, stored, ok_bind, behind, left_, ← same, ← length]
    rw [length] at next ⊢
    exact next

theorem reverse_eq (before xs after : List UInt8) :
    reverse (before ++ xs ++ after) before.length (before.length + xs.length) =
      .ok (before ++ xs.reverse ++ after) := by
  have room : before.length + xs.reverse.length ≤ (before ++ xs ++ after).length := by
    simp only [List.length_append, List.length_reverse]
    omega
  rw [reverse, Nat.add_sub_cancel_left, Bytes.slice_append, writeBytes, if_pos room,
    Bytes.overwrite_append List.length_reverse.symm]

/-! ## What `itoa` does -/

section

variable {T : SignedType} {num : T.Num} {before tail : List UInt8} {len : Nat}

theorem itoa_least (least : num.value = T.min) (mem : Mem) (buf len : Nat) :
    itoa num mem buf len = .error .overflow := by
  have negative : num.value < 0 := least ▸ T.min_neg
  rw [itoa, if_pos negative, SignedType.Num.neg, dif_pos least]
  rfl

/-- The loop on a new buffer. -/
theorem itoaLoop_new (before : List UInt8) (n : Nat) (room : len ≤ tail.length) :
    itoaLoop before.length len n (before ++ tail) before.length 0 =
      if (Decimal.reversed n).length ≤ len then
        .ok (before ++ Decimal.reversed n ++ tail.drop (Decimal.reversed n).length,
          some (before.length + (Decimal.reversed n).length, ((Decimal.reversed n).length : Nat)))
      else .ok (before ++ (Decimal.reversed n).take len ++ tail.drop len, none) := by
  have run := itoaLoop_eq before [] tail n (Nat.zero_le len)
    (room.trans (Nat.le_add_left _ _))
  rw [List.append_nil] at run
  exact run

/-- The text at the start of the buffer and its length, or as much as there is room for and -1. -/
def Leaves (before tail text : List UInt8) (len : Nat) (run : Except Fault (Mem × Int)) : Prop :=
  if text.length ≤ len then run = .ok (before ++ text ++ tail.drop text.length, text.length)
  else ∃ written, written.length = len ∧ run = .ok (before ++ written ++ tail.drop len, -1)

/-- A positive number. -/
theorem itoa_pos (positive : 0 < num.value) (room : len ≤ tail.length) (long : T.size + 1 ≤ len) :
    Leaves before tail (fmtInt num.value) len (itoa num (before ++ tail) before.length len) := by
  have unsigned : ¬ num.value < 0 := by omega
  have enough : ¬ len < T.size + 1 := by omega
  have text : fmtInt num.value = (Decimal.reversed num.value.toNat).reverse := by
    rw [fmtInt, if_neg unsigned, ← Decimal.text_of_pos (by omega)]
    congr 1
    omega
  have run := itoaLoop_new before num.value.toNat room
  rw [text, Leaves, List.length_reverse]
  unfold itoa
  dsimp only
  rw [if_neg unsigned, pure_bind, if_neg enough, run]
  split
  case isTrue fits =>
    rw [ok_bind]
    dsimp only
    rw [reverse_eq]
    rfl
  case isFalse =>
    refine ⟨_, ?_, rfl⟩
    rw [List.length_take]
    omega

/-- A negative number that is not the least. -/
theorem itoa_neg (negative : num.value < 0) (other : num.value ≠ T.min) (room : len ≤ tail.length)
    (long : T.size + 1 ≤ len) :
    Leaves before tail (fmtInt num.value) len (itoa num (before ++ tail) before.length len) := by
  have enough : ¬ len < T.size + 1 := by omega
  have text : fmtInt num.value =
      (Decimal.reversed (-num.value).toNat ++ [minusSign]).reverse := by
    have same : num.value.natAbs = (-num.value).toNat := by omega
    rw [fmtInt, if_pos negative, same, Decimal.text_of_pos (by omega), List.reverse_append]
    rfl
  have run := itoaLoop_new before (-num.value).toNat room
  rw [text, Leaves, List.length_reverse, List.length_append, List.length_singleton]
  unfold itoa
  dsimp only
  rw [if_pos negative, SignedType.Num.neg, dif_neg other, ok_bind, if_neg enough, run]
  generalize Decimal.reversed (-num.value).toNat = digits
  split
  case isTrue fits =>
    -- The sign goes behind the digits, on a byte that is still there.
    obtain ⟨old, rest, behind⟩ :=
      List.exists_cons_of_length_pos (l := tail.drop digits.length)
        (by rw [List.length_drop]; omega)
    have past : tail.drop (digits.length + 1) = rest := by
      rw [← List.drop_drop, behind]
      rfl
    have open_ : ¬ before.length + len ≤ before.length + digits.length := by omega
    have stored : writeBytes (before ++ digits ++ old :: rest) (before.length + digits.length)
        [minusSign] = .ok (before ++ (digits ++ [minusSign]) ++ rest) := by
      rw [← List.length_append, writeByte_eq, List.append_assoc before]
    have turned := reverse_eq before (digits ++ [minusSign]) rest
    rw [List.length_append, List.length_singleton, ← Nat.add_assoc] at turned
    rw [if_pos (by omega), ok_bind]
    dsimp only
    rw [if_neg open_, behind, stored, ok_bind, turned, past]
    rfl
  case isFalse long =>
    split
    case isTrue fits =>
      have full : digits.length = len := by omega
      rw [ok_bind]
      dsimp only
      rw [if_pos (by omega)]
      exact ⟨digits, full, by rw [full]; rfl⟩
    case isFalse longer =>
      refine ⟨_, ?_, rfl⟩
      rw [List.length_take]
      omega

/-- What `itoa` leaves, for a number that is neither 0 nor the least. -/
theorem itoa_leaves (nonzero : num.value ≠ 0) (other : num.value ≠ T.min) (room : len ≤ tail.length)
    (long : T.size + 1 ≤ len) :
    Leaves before tail (fmtInt num.value) len (itoa num (before ++ tail) before.length len) := by
  rcases Int.lt_or_gt_of_ne nonzero with negative | positive
  · exact itoa_neg negative other room long
  · exact itoa_pos positive room long

/-- 0 has no digit. -/
theorem itoa_zero (before tail : List UInt8) (zero : num.value = 0) (long : T.size + 1 ≤ len) :
    itoa num (before ++ tail) before.length len = .ok (before ++ tail, 0) := by
  have unsigned : ¬ num.value < 0 := by omega
  have enough : ¬ len < T.size + 1 := by omega
  have run : itoaLoop before.length len 0 (before ++ tail) before.length 0 =
      .ok (before ++ tail, some (before.length, 0)) := by
    rw [itoaLoop, if_pos rfl]
  have turned : reverse (before ++ tail) before.length before.length = .ok (before ++ tail) := by
    have empty := reverse_eq before [] tail
    rw [List.reverse_nil, List.append_nil] at empty
    exact empty
  unfold itoa
  dsimp only
  rw [if_neg unsigned, pure_bind, if_neg enough, zero, Int.toNat_zero, run, ok_bind]
  dsimp only
  rw [turned]
  rfl

end

/-! ## Reading back -/

/-- A value that `int` has. -/
def InInt (n : Int) : Prop := -2 ^ 31 ≤ n ∧ n < 2 ^ 31

instance (n : Int) : Decidable (InInt n) :=
  inferInstanceAs (Decidable (-2 ^ 31 ≤ n ∧ n < 2 ^ 31))

/-- No `int` overflows in the loop of `atoi`. -/
def AtoiLoopFits (base : Int) : List UInt8 → Int → Prop
  | [], _ => True
  | c :: cs, ret =>
      InInt (ret * base) ∧ InInt (ret * base + (schar c - 48)) ∧
        AtoiLoopFits base cs (ret * base + (schar c - 48))

/-- No `int` overflows in `atoi`. -/
def AtoiFits (base : Int) : List UInt8 → Prop
  | [] => True
  | c :: cs =>
      if c = minusSign then AtoiLoopFits base cs 0 ∧ InInt (-atoiLoop base cs 0)
      else AtoiLoopFits base (c :: cs) 0

theorem atoiLoopFits_iff (cs : List UInt8) (acc : Nat)
    (all : ∀ c ∈ cs, Decimal.isDigit c = true) (small : acc < 2 ^ 31) :
    AtoiLoopFits 10 cs acc ↔ Decimal.read acc cs < 2 ^ 31 := by
  induction cs generalizing acc with
  | nil => exact iff_of_true trivial small
  | cons c cs ih =>
      have range := Decimal.isDigit_iff.mp (all c List.mem_cons_self)
      have step : Decimal.read acc (c :: cs) = Decimal.read (acc * 10 + (c.toNat - 48)) cs := rfl
      have value : (acc : Int) * 10 + (schar c - 48) = (acc * 10 + (c.toNat - 48) : Nat) := by
        rw [schar_of_isDigit (all c List.mem_cons_self)]
        omega
      rw [AtoiLoopFits, step, value]
      by_cases fits : acc * 10 + (c.toNat - 48) < 2 ^ 31
      · have product : InInt ((acc : Int) * 10) := ⟨by omega, by omega⟩
        have sum : InInt (acc * 10 + (c.toNat - 48) : Nat) := ⟨by omega, by omega⟩
        rw [and_iff_right product, and_iff_right sum]
        exact ih _ (fun d member => all d (List.mem_cons_of_mem c member)) fits
      · have least := Decimal.le_read (acc * 10 + (c.toNat - 48)) cs
        refine iff_of_false (fun loop => ?_) (by omega)
        have high := loop.2.1.2
        omega

theorem length_fmtInt_least {n : Int} (least : n = -2 ^ 31) : (fmtInt n).length = 11 := by
  rw [least]
  decide +kernel

theorem atoiFits_fmtInt (n : Int) : AtoiFits 10 (fmtInt n) ↔ n.natAbs < 2 ^ 31 := by
  have loop : AtoiLoopFits 10 (Decimal.text n.natAbs) 0 ↔ n.natAbs < 2 ^ 31 := by
    have value : Decimal.read 0 (Decimal.text n.natAbs) = n.natAbs := Decimal.value_text _
    have fits := atoiLoopFits_iff (Decimal.text n.natAbs) 0
      (fun c member => Decimal.isDigit_of_mem_text member) (by decide)
    rw [value] at fits
    exact fits
  rcases fmtInt_cases n with ⟨negative, text⟩ | ⟨unsigned, c, cs, other, text, digits⟩
  · rw [text, AtoiFits, if_pos rfl, loop]
    refine and_iff_left_of_imp fun small => ?_
    rw [atoiLoop_text small]
    exact ⟨by omega, by omega⟩
  · rw [text, AtoiFits, if_neg other, ← digits, loop]

/-- `atoi` on the first `length` bytes of `buf` gives `n`, and no `int` overflows. -/
def ReadsBack (mem : Mem) (buf length : Nat) (n : Int) : Prop :=
  AtoiFits 10 (Bytes.slice mem buf length) ∧ atoi mem (some buf) (some (buf + length)) 10 = .ok n

theorem readsBack_iff {before after : List UInt8} {n : Int} (fits : InInt n) :
    ReadsBack (before ++ fmtInt n ++ after) before.length (fmtInt n).length n ↔
      n ≠ -2 ^ 31 := by
  have nonempty : 0 < (fmtInt n).length := by
    rcases fmtInt_cases n with ⟨-, text⟩ | ⟨-, c, cs, -, text, -⟩
    · rw [text]
      exact Nat.succ_pos _
    · rw [text]
      exact Nat.succ_pos _
  have inside : before.length < (before ++ fmtInt n ++ after).length ∧
      before.length + (fmtInt n).length ≤ (before ++ fmtInt n ++ after).length := by
    simp only [List.length_append]
    omega
  obtain ⟨low, high⟩ := fits
  rw [ReadsBack, Bytes.slice_append, atoiFits_fmtInt, atoi]
  rw [if_pos inside, Nat.add_sub_cancel_left, Bytes.slice_append]
  constructor
  · rintro ⟨small, -⟩
    omega
  · intro other
    have small : n.natAbs < 2 ^ 31 := by omega
    exact ⟨small, congrArg Except.ok (atoiText_fmtInt small)⟩

/-- Every `int` reads back that is not the least, whose text has eleven bytes. -/
theorem reads_iff {before after : List UInt8} {n : Int} {len : Nat}
    (fits : (fmtInt n).length ≤ len) :
    (InInt n → ReadsBack (before ++ fmtInt n ++ after) before.length (fmtInt n).length n) ↔
      (n = -2 ^ 31 → len < 11) := by
  by_cases int : InInt n
  · rw [imp_iff_right int, readsBack_iff int]
    refine ⟨fun other lowest => absurd lowest other, fun short lowest => ?_⟩
    have length := length_fmtInt_least lowest
    have small := short lowest
    omega
  · refine iff_of_true (fun inside => absurd inside int) fun lowest => ?_
    exact absurd (lowest ▸ ⟨by decide, by decide⟩ : InInt n) int

/-! ## `itoa` and `atoi` -/

/-- `itoa` returns -1 when the decimal text is longer than `len`. Else it writes that text to the
start of `buf` and returns its length, and `atoi` reads the number back when it is an `int`. -/
def Renders {T : SignedType} (num : T.Num) (mem : Mem) (buf len : Nat) : Prop :=
  if (fmtInt num.value).length ≤ len then
    itoa num mem buf len =
        .ok (Bytes.overwrite mem buf (fmtInt num.value), (fmtInt num.value).length) ∧
      (InInt num.value →
        ReadsBack (Bytes.overwrite mem buf (fmtInt num.value)) buf (fmtInt num.value).length
          num.value)
  else ∃ mem', itoa num mem buf len = .ok (mem', -1)

/-- **`itoa` and `atoi`** are inverse, but for 0, for the least value of the type, and for the
least `int` of a wider type, over which `atoi` overflows. -/
theorem renders_iff {T : SignedType} (num : T.Num) {mem : Mem} {buf len : Nat}
    (room : buf + len ≤ mem.length) (long : T.size + 1 ≤ len) :
    Renders num mem buf len ↔
      num.value ≠ 0 ∧ num.value ≠ T.min ∧ (num.value = -2 ^ 31 → len < 11) := by
  obtain ⟨before, tail, rfl, rfl⟩ : ∃ before tail, mem = before ++ tail ∧ before.length = buf :=
    ⟨mem.take buf, mem.drop buf, (List.take_append_drop buf mem).symm,
      (List.length_take).trans (Nat.min_eq_left (by omega))⟩
  rw [List.length_append] at room
  rw [Renders, Bytes.overwrite_prefix]
  by_cases zero : num.value = 0
  · refine iff_of_false (fun renders => ?_) fun cond => cond.1 zero
    have one : (fmtInt num.value).length = 1 := by
      rw [zero]
      decide +kernel
    have wide := T.wide
    rw [if_pos (by omega), itoa_zero before tail zero long, one] at renders
    have returned : (0 : Int) = 1 := congrArg Prod.snd (Except.ok.inj renders.1)
    exact absurd returned (by decide)
  by_cases least : num.value = T.min
  · refine iff_of_false (fun renders => ?_) fun cond => cond.2.1 least
    rw [itoa_least least] at renders
    split at renders
    case isTrue => cases renders.1
    case isFalse => exact nomatch renders.choose_spec
  have leaves : Leaves before tail (fmtInt num.value) len
      (itoa num (before ++ tail) before.length len) := itoa_leaves zero least (by omega) long
  rw [Leaves] at leaves
  rw [and_iff_right zero, and_iff_right least]
  split
  case isTrue fits =>
    rw [if_pos fits] at leaves
    rw [and_iff_right leaves, reads_iff fits]
  case isFalse short =>
    rw [if_neg short] at leaves
    obtain ⟨written, -, run⟩ := leaves
    refine iff_of_true ⟨_, run⟩ fun lowest => ?_
    have length := length_fmtInt_least lowest
    omega

theorem renders_iff_negative :
    Renders (T := .int) ⟨-35, by decide, by decide⟩ (List.replicate 8 0) 1 5 :=
  (renders_iff (T := .int) ⟨-35, by decide, by decide⟩ (by decide) (by decide)).mpr
    ⟨by decide, by decide, fun lowest => absurd lowest (by decide)⟩

/-- `itoa( 0, buf, 5 )` returns 0 and writes nothing. -/
theorem not_renders_zero :
    ¬ ∀ (T : SignedType) (num : T.Num) (mem : Mem) (buf len : Nat),
      buf + len ≤ mem.length → T.size + 1 ≤ len → Renders num mem buf len := by
  intro all
  have renders := all .int ⟨0, by decide, by decide⟩ (List.replicate 8 0) 0 5 (by decide)
    (by decide)
  rw [Renders, if_pos (by decide +kernel)] at renders
  have run : itoa (T := .int) ⟨0, by decide, by decide⟩ (List.replicate 8 0) 0 5 =
      .ok (List.replicate 8 0, 0) := itoa_zero [] _ rfl (by decide)
  rw [run] at renders
  have returned : (0 : Int) = 1 := congrArg Prod.snd (Except.ok.inj renders.1)
  exact absurd returned (by decide)

end OpenFix.Details
