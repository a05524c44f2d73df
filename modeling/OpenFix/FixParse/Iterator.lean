import OpenFix.Details

/-!
# `fix_field_iterator_t`

The field cursor of `fix_parse.h`. `next` scans from `cur.begin` for the first `'='`
and the first delimiter, and stops at NUL. When one of the two is missing it nulls
`cur.begin` and leaves the old tag in place.

* `FixFieldIterator.next_field`: on a field spelled `tag=value<delim>` the step
  returns the tag, the window of the value, and the byte after the delimiter.
* `FixFieldIterator.next_total`: a step whose scan meets a NUL or a delimiter returns.
-/

namespace OpenFix

/-- A byte string without NUL and without the delimiter. -/
def Clean (cs : List UInt8) : Prop := ∀ c ∈ cs, c ≠ 0 ∧ c ≠ SOH

instance (cs : List UInt8) : Decidable (Clean cs) :=
  inferInstanceAs (Decidable (∀ c ∈ cs, c ≠ 0 ∧ c ≠ SOH))

theorem Clean.of_cons {c : UInt8} {cs : List UInt8} (clean : Clean (c :: cs)) :
    (c ≠ 0 ∧ c ≠ SOH) ∧ Clean cs :=
  ⟨clean c List.mem_cons_self, fun d member => clean d (List.mem_cons_of_mem c member)⟩

theorem clean_of_isDigit {cs : List UInt8} (all : ∀ c ∈ cs, Decimal.isDigit c = true) :
    Clean cs := by
  intro c member
  have digit := all c member
  exact ⟨by rintro rfl; exact absurd digit (by decide),
    by rintro rfl; exact absurd digit (by decide)⟩

/-- `fix_field_t` with its `field_val_t` (`val.begin`, `val.end`). -/
structure FixField : Type where
  tag : Int
  valBegin : Ptr
  valEnd : Ptr
  begin : Ptr
  deriving DecidableEq, Repr

/-- `field_val_t::as_int`. -/
def FixField.asInt (mem : Mem) (field : FixField) : Except Fault Int :=
  stdAtoi mem field.valBegin

/-- `field_val_t::as_char`. -/
def FixField.asChar (mem : Mem) (field : FixField) : Except Fault UInt8 :=
  match field.valBegin with
  | none => .error .nullPointer
  | some p =>
      match mem[p]? with
      | none => .error .overrun
      | some c => .ok c

/-- `field_val_t::as_string`. -/
def FixField.asString (mem : Mem) (field : FixField) : Except Fault (List UInt8) :=
  match field.valBegin, field.valEnd with
  | some b, some e => .ok (Bytes.slice mem b (e - b))
  | _, _ => .error .nullPointer

/-- `fix_field_iterator_t`. -/
structure FixFieldIterator : Type where
  cur : FixField
  deriving DecidableEq, Repr

namespace FixFieldIterator

/-- The `for` loop of `next` over the bytes from `i` on, with `cur.val.begin` so far;
the result is `cur.val.begin` and `cur.val.end`. -/
def scan (delim : UInt8) : List UInt8 → Nat → Ptr → Except Fault (Ptr × Ptr)
  | [], _, _ => .error .overrun
  | c :: cs, i, valBegin =>
      if c = 0 then .ok (valBegin, none)
      else if c = equalSign ∧ valBegin = none then scan delim cs (i + 1) (some (i + 1))
      else if c = delim then .ok (valBegin, some i)
      else scan delim cs (i + 1) valBegin

/-- `fix_field_iterator_t::next`, also `operator++`. -/
def next (delim : UInt8) (mem : Mem) (it : FixFieldIterator) :
    Except Fault FixFieldIterator :=
  match it.cur.begin with
  | none => .error .nullPointer
  | some b =>
      match scan delim (mem.drop b) b none with
      | .error fault => .error fault
      | .ok (some valBegin, some valEnd) =>
          match Details.atoi mem (some b) (some (valBegin - 1)) 10 with
          | .error fault => .error fault
          | .ok tag => .ok ⟨⟨tag, some valBegin, some valEnd, some (valEnd + 1)⟩⟩
      | .ok (valBegin, valEnd) => .ok ⟨⟨it.cur.tag, valBegin, valEnd, none⟩⟩

/-- `operator!=`: cursors are compared by position only. -/
def differs (it other : FixFieldIterator) : Bool := it.cur.begin ≠ other.cur.begin

/-! ## The scan -/

/-- Inside a value only NUL and the delimiter stop the scan. -/
theorem scan_value {cs : List UInt8} (clean : Clean cs) (rest : List UInt8) (i p : Nat) :
    scan SOH (cs ++ SOH :: rest) i (some p) = .ok (some p, some (i + cs.length)) := by
  induction cs generalizing i with
  | nil => rfl
  | cons c cs ih =>
      obtain ⟨⟨notNul, notDelim⟩, clean⟩ := clean.of_cons
      rw [List.cons_append, scan, if_neg notNul, if_neg (fun h => nomatch h.2), if_neg notDelim,
        ih clean, List.length_cons]
      congr 3
      omega

/-- Before the first `'='` the scan also stops to record where the value starts. -/
theorem scan_tag {cs : List UInt8} (clean : Clean cs) (noEqual : equalSign ∉ cs)
    (rest : List UInt8) (i : Nat) :
    scan SOH (cs ++ equalSign :: rest) i none =
      scan SOH rest (i + cs.length + 1) (some (i + cs.length + 1)) := by
  induction cs generalizing i with
  | nil =>
      rw [List.nil_append, scan, if_neg (by decide), if_pos ⟨rfl, rfl⟩]
      rfl
  | cons c cs ih =>
      obtain ⟨⟨notNul, notDelim⟩, clean⟩ := clean.of_cons
      obtain ⟨notEqual, noEqual⟩ := not_or.mp (List.mem_cons.not.mp noEqual)
      rw [List.cons_append, scan, if_neg notNul, if_neg (fun h => notEqual h.1.symm),
        if_neg notDelim, ih clean noEqual, List.length_cons]
      congr 2 <;> omega

/-- A scan that meets a NUL or a delimiter returns, whatever stands before it. -/
theorem scan_total {stop : UInt8} (stops : stop = 0 ∨ stop = SOH) (cs rest : List UInt8) (i : Nat)
    (valBegin : Ptr) : ∃ result, scan SOH (cs ++ stop :: rest) i valBegin = .ok result := by
  induction cs generalizing i valBegin with
  | nil =>
      rcases stops with rfl | rfl
      · exact ⟨(valBegin, none), rfl⟩
      · exact ⟨(valBegin, some i), rfl⟩
  | cons c cs ih =>
      rw [List.cons_append]
      unfold scan
      split
      case isTrue => exact ⟨_, rfl⟩
      case isFalse =>
        split
        case isTrue => exact ih _ _
        case isFalse =>
          split
          case isTrue => exact ⟨_, rfl⟩
          case isFalse => exact ih _ _

/-- The positions a scan reports: the value starts inside the bytes it walked over, and not
behind the delimiter, which stands where the value ends. -/
theorem scan_range {delim : UInt8} {cs : List UInt8} {i : Nat} {valBegin first last : Ptr}
    (scanned : scan delim cs i valBegin = .ok (first, last)) :
    (∀ p, first = some p → valBegin = some p ∨ i < p ∧ p < i + cs.length) ∧
      ∀ q, last = some q → (∃ k, q = i + k ∧ cs[k]? = some delim) ∧
        ∀ p, first = some p → valBegin = some p ∨ p ≤ q := by
  induction cs generalizing i valBegin with
  | nil => cases scanned
  | cons c cs ih =>
      unfold scan at scanned
      rw [List.length_cons]
      split at scanned
      case isTrue =>
        cases scanned
        exact ⟨fun p first => .inl first, fun q last => nomatch last⟩
      case isFalse =>
        split at scanned
        case isTrue =>
          have more : 0 < cs.length := by
            rcases cs with _ | ⟨d, ds⟩
            · cases scanned
            · exact Nat.succ_pos _
          rcases ih scanned with ⟨begins, ends⟩
          refine ⟨fun p first => .inr ?_, fun q last => ?_⟩
          · rcases begins p first with here | later
            · have := Option.some.inj here
              omega
            · omega
          · rcases ends q last with ⟨⟨k, at_, found⟩, ordered⟩
            refine ⟨⟨k + 1, by omega, found⟩, fun p first => .inr ?_⟩
            rcases ordered p first with here | below
            · have := Option.some.inj here
              omega
            · exact below
        case isFalse =>
          split at scanned
          case isTrue found =>
            cases scanned
            refine ⟨fun p first => .inl first,
              fun q last => ⟨⟨0, ?_, ?_⟩, fun p first => .inl first⟩⟩
            · exact (Option.some.inj last).symm
            · rw [List.getElem?_cons_zero, found]
          case isFalse =>
            rcases ih scanned with ⟨begins, ends⟩
            refine ⟨fun p first => (begins p first).imp id fun later => ?_, fun q last => ?_⟩
            · omega
            · rcases ends q last with ⟨⟨k, at_, found⟩, ordered⟩
              exact ⟨⟨k + 1, by omega, found⟩, ordered⟩

/-! ## One step of the cursor -/

/-- `tag=value<SOH>`. -/
def fieldBytes (tag value : List UInt8) : List UInt8 :=
  tag ++ equalSign :: value ++ [SOH]

/-- The cursor right after the step over a field at offset `b`. -/
def afterField (tag : Int) (tagText value : List UInt8) (b : Nat) : FixFieldIterator :=
  ⟨⟨tag, some (b + tagText.length + 1), some (b + tagText.length + 1 + value.length),
    some (b + (fieldBytes tagText value).length)⟩⟩

theorem length_fieldBytes (tag value : List UInt8) :
    (fieldBytes tag value).length = tag.length + value.length + 2 := by
  simp only [fieldBytes, List.length_append, List.length_cons, List.length_nil]
  omega

/-- The step over a well-formed field. -/
theorem next_field {mem : Mem} (it : FixFieldIterator) {b : Nat} {tagText value rest : List UInt8}
    (at_ : it.cur.begin = some b) (bytes : mem.drop b = fieldBytes tagText value ++ rest)
    (cleanTag : Clean tagText) (noEqual : equalSign ∉ tagText) (cleanValue : Clean value) :
    next SOH mem it = .ok (afterField (Details.atoiText 10 tagText) tagText value b) := by
  have layout : fieldBytes tagText value ++ rest =
      tagText ++ equalSign :: (value ++ SOH :: rest) := by
    simp only [fieldBytes, List.append_assoc, List.cons_append, List.nil_append]
  have scanned : scan SOH (mem.drop b) b none =
      .ok (some (b + tagText.length + 1), some (b + tagText.length + 1 + value.length)) := by
    rw [bytes, layout, scan_tag cleanTag noEqual, scan_value cleanValue]
  have window : Bytes.slice mem b (b + tagText.length + 1 - 1 - b) = tagText := by
    rw [Bytes.slice, bytes, layout, show b + tagText.length + 1 - 1 - b = tagText.length by omega,
      List.take_left]
  have length : mem.length - b = (fieldBytes tagText value ++ rest).length := by
    rw [← bytes, List.length_drop]
  rw [List.length_append, length_fieldBytes] at length
  have inside : b < mem.length ∧ b + tagText.length + 1 - 1 ≤ mem.length := by omega
  have stop : b + tagText.length + 1 + value.length + 1 =
      b + (tagText.length + value.length + 2) := by
    omega
  simp only [next, at_, scanned, Details.atoi, if_pos inside, window, afterField,
    length_fieldBytes, stop]

/-- A step whose scan returns, returns. -/
theorem next_of_scan {delim : UInt8} {mem : Mem} (it : FixFieldIterator) {b : Nat}
    {first last : Ptr} (at_ : it.cur.begin = some b)
    (scanned : scan delim (mem.drop b) b none = .ok (first, last)) :
    ∃ it', next delim mem it = .ok it' := by
  have nonempty : b < mem.length := by
    by_contra past
    rw [List.drop_eq_nil_of_le (by omega)] at scanned
    cases scanned
  obtain ⟨begins, -⟩ := scan_range scanned
  cases first with
  | none =>
      simp only [next, at_, scanned]
      exact ⟨_, rfl⟩
  | some p =>
      cases last with
      | none =>
          simp only [next, at_, scanned]
          exact ⟨_, rfl⟩
      | some q =>
          have inside : p - 1 ≤ mem.length := by
            have range := (begins p rfl).resolve_left nofun
            rw [List.length_drop] at range
            omega
          simp only [next, at_, scanned, Details.atoi, if_pos (And.intro nonempty inside)]
          exact ⟨_, rfl⟩

/-- A step from a position with a NUL or a delimiter ahead returns. -/
theorem next_total {mem : Mem} (it : FixFieldIterator) {b : Nat} {stop : UInt8}
    {cs rest : List UInt8} (at_ : it.cur.begin = some b)
    (bytes : mem.drop b = cs ++ stop :: rest) (stops : stop = 0 ∨ stop = SOH) :
    ∃ it', next SOH mem it = .ok it' := by
  obtain ⟨⟨first, last⟩, scanned⟩ := scan_total stops cs rest b none
  rw [← bytes] at scanned
  exact next_of_scan it at_ scanned

end FixFieldIterator

end OpenFix
