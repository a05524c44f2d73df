import OpenFix.FixParse.Extent
import OpenFix.FixParse.Framing

/-!
# A buffer by itself

What the parser makes of the bytes `c` of one buffer, at an offset `i` in it, it makes of them
in the allocation, where the buffer begins at `b`: as long as it reads no byte outside `c`, the
results are those of `c` with every pointer moved by `b`.

* `next_relocate`, `wholeField_relocate`: one field.
* `framing_relocate`: what stands at a position.
-/

namespace OpenFix

/-- A pointer into the buffer as a pointer into the allocation. -/
def Ptr.shift (b : Nat) (p : Ptr) : Ptr := p.map (b + ·)

@[simp] theorem Ptr.shift_some (b p : Nat) : Ptr.shift b (some p) = some (b + p) := rfl

@[simp] theorem Ptr.shift_none (b : Nat) : Ptr.shift b none = none := rfl

def FixFieldIterator.shift (b : Nat) (it : FixFieldIterator) : FixFieldIterator :=
  ⟨⟨it.cur.tag, it.cur.valBegin.shift b, it.cur.valEnd.shift b, it.cur.begin.shift b⟩⟩

def WholeField.shift (b : Nat) (field : WholeField) : WholeField :=
  ⟨field.tag, b + field.valBegin, b + field.valEnd⟩

theorem WholeField.tag_shift (b : Nat) (field : WholeField) :
    (field.shift b).tag = field.tag := rfl

theorem WholeField.past_shift (b : Nat) (field : WholeField) :
    (field.shift b).past = field.past.shift b := rfl

def Framing.shift (b : Nat) : Framing → Framing
  | .message end_ beginIt endIt checksum type =>
      .message (b + end_) (beginIt.shift b) (endIt.shift b) checksum type
  | .noField => .noField
  | .noTrailer => .noTrailer
  | .malformed => .malformed

variable {mem c : Mem} {b : Nat}

/-! ## Pointers and numbers -/

/-- From an offset on, the allocation goes on as the buffer does. -/
theorem drop_relocate (lies : c <+: mem.drop b) (i : Nat) :
    ∃ rest, mem.drop (b + i) = c.drop i ++ rest := by
  obtain ⟨rest, split⟩ := lies
  refine ⟨rest.drop (i - c.length), ?_⟩
  rw [← List.drop_drop, ← split, List.drop_append]

theorem length_relocate (lies : c <+: mem.drop b) (some_ : c ≠ []) :
    b + c.length ≤ mem.length := by
  have fits := lies.length_le
  have positive := List.length_pos_iff.mpr some_
  rw [List.length_drop] at fits
  omega

theorem movePtr_relocate (lies : c <+: mem.drop b) (some_ : c ≠ []) {p q : Nat} {k : Int}
    (moved : movePtr c (some p) k = .ok (some q)) :
    movePtr mem (some (b + p)) k = .ok (some (b + q)) := by
  have room := length_relocate lies some_
  obtain ⟨o, l, here, there, distance⟩ := movePtr_target moved
  cases here
  cases there
  refine movePtr_of_le (by omega) ?_
  unfold movePtr at moved
  dsimp only at moved
  split at moved
  case isTrue => cases moved
  case isFalse =>
    split at moved
    case isTrue => cases moved
    case isFalse => omega

theorem stdAtoi_relocate (lies : c <+: mem.drop b) {p : Nat} {n : Int}
    (read : stdAtoi c (some p) = .ok n) : stdAtoi mem (some (b + p)) = .ok n := by
  obtain ⟨rest, later⟩ := drop_relocate lies p
  unfold stdAtoi at read ⊢
  dsimp only at read ⊢
  rw [later, strtol_extends (c.drop p) rest fun overrun => ?_]
  · exact read
  · rw [overrun] at read
    cases read

theorem atoi_relocate (lies : c <+: mem.drop b) {i e : Nat} {n : Int}
    (read : Details.atoi c (some i) (some e) 10 = .ok n) :
    Details.atoi mem (some (b + i)) (some (b + e)) 10 = .ok n := by
  obtain ⟨rest, later⟩ := drop_relocate lies i
  unfold Details.atoi at read ⊢
  dsimp only at read ⊢
  split at read
  case isFalse => cases read
  case isTrue range =>
    have some_ : c ≠ [] := List.ne_nil_of_length_pos (by omega)
    have room := length_relocate lies some_
    have window : Bytes.slice mem (b + i) (b + e - (b + i)) = Bytes.slice c i (e - i) := by
      rw [Nat.add_sub_add_left, Bytes.slice, Bytes.slice, later,
        List.take_append_of_le_length (by rw [List.length_drop]; omega)]
    rw [if_pos (by omega), window]
    exact read

/-! ## Fields -/

namespace FixFieldIterator

theorem scan_relocate {delim : UInt8} {cs : List UInt8} {i : Nat} {v p q : Ptr} (b : Nat)
    (rest : List UInt8) (scanned : scan delim cs i v = .ok (p, q)) :
    scan delim (cs ++ rest) (b + i) (v.shift b) = .ok (p.shift b, q.shift b) := by
  have isNone : v.shift b = none ↔ v = none := Option.map_eq_none_iff
  induction cs generalizing i v with
  | nil => cases scanned
  | cons c cs ih =>
      rw [List.cons_append]
      unfold scan at scanned ⊢
      split at scanned
      case isTrue nul =>
        cases scanned
        rw [if_pos nul]
        rfl
      case isFalse notNul =>
        rw [if_neg notNul]
        split at scanned
        case isTrue equal =>
          rw [if_pos ⟨equal.1, isNone.mpr equal.2⟩]
          exact ih scanned Option.map_eq_none_iff
        case isFalse notEqual =>
          rw [if_neg fun equal => notEqual ⟨equal.1, isNone.mp equal.2⟩]
          split at scanned
          case isTrue found =>
            cases scanned
            rw [if_pos found]
            rfl
          case isFalse notFound =>
            rw [if_neg notFound]
            exact ih scanned isNone

/-- The scan of a field in the buffer, in the allocation. -/
theorem scan_drop_relocate (lies : c <+: mem.drop b) {i : Nat} {p q : Ptr}
    (scanned : scan SOH (c.drop i) i none = .ok (p, q)) :
    scan SOH (mem.drop (b + i)) (b + i) none = .ok (p.shift b, q.shift b) := by
  obtain ⟨rest, later⟩ := drop_relocate lies i
  rw [later]
  exact scan_relocate b rest scanned

/-- The value starts behind the place where the scan starts. -/
theorem scan_begins {i v : Nat} {q : Ptr} (scanned : scan SOH (c.drop i) i none = .ok (some v, q)) :
    i < v :=
  (((scan_range scanned).1 v rfl).resolve_left nofun).1

theorem next_relocate (lies : c <+: mem.drop b) {it it' : FixFieldIterator}
    (stepped : next SOH c it = .ok it') : next SOH mem (it.shift b) = .ok (it'.shift b) := by
  cases at_ : it.cur.begin with
  | none =>
      unfold next at stepped
      rw [at_] at stepped
      cases stepped
  | some i =>
      have moved : (it.shift b).cur.begin = some (b + i) := congrArg (Ptr.shift b) at_
      rw [next_scan at_] at stepped
      rw [next_scan moved]
      obtain ⟨⟨first, last⟩, scanned, stepped⟩ := of_bind_ok stepped
      rw [scan_drop_relocate lies scanned, ok_bind]
      rcases first with _ | v
      · cases stepped
        rcases last with _ | q <;> rfl
      · rcases last with _ | q
        · cases stepped
          rfl
        · obtain ⟨tag, read, stepped⟩ := of_bind_ok stepped
          cases stepped
          have behind := scan_begins scanned
          have tagged := atoi_relocate lies read
          rw [← Nat.add_sub_assoc (by omega)] at tagged
          dsimp only [Ptr.shift_some]
          rw [tagged]
          rfl

end FixFieldIterator

theorem wholeField_nonempty {i : Nat} {field : Option WholeField}
    (found : wholeField c (some i) = .ok field) : c ≠ [] := by
  rintro rfl
  have scanned : FixFieldIterator.scan SOH (([] : Mem).drop i) i none = .error .overrun := by
    rw [List.drop_nil]
    rfl
  simp only [wholeField, scanned] at found
  cases found

theorem wholeField_relocate (lies : c <+: mem.drop b) {p : Ptr} {field : Option WholeField}
    (found : wholeField c p = .ok field) :
    wholeField mem (p.shift b) = .ok (field.map (·.shift b)) := by
  rcases p with _ | i
  · cases found
  · unfold wholeField at found ⊢
    dsimp only [Ptr.shift_some] at found ⊢
    cases scanned : FixFieldIterator.scan SOH (c.drop i) i none with
    | error fault =>
        rw [scanned] at found
        cases found
    | ok ends =>
        rcases ends with ⟨first, last⟩
        rw [scanned] at found
        rw [FixFieldIterator.scan_drop_relocate lies scanned]
        rcases first with _ | v
        · cases found
          rcases last with _ | q <;> rfl
        · rcases last with _ | q
          · cases found
            rfl
          · dsimp only [Ptr.shift_some] at found ⊢
            have behind := FixFieldIterator.scan_begins scanned
            cases read : Details.atoi c (some i) (some (v - 1)) 10 with
            | error fault =>
                rw [read] at found
                cases found
            | ok tag =>
                rw [read] at found
                cases found
                have tagged := atoi_relocate lies read
                rw [← Nat.add_sub_assoc (by omega)] at tagged
                rw [tagged]
                rfl

theorem asChar_relocate (lies : c <+: mem.drop b) {field : FixField} {char : UInt8}
    (read : field.asChar c = .ok char) :
    (FixFieldIterator.shift b ⟨field⟩).cur.asChar mem = .ok char := by
  unfold FixField.asChar at read ⊢
  cases at_ : field.valBegin with
  | none =>
      rw [at_] at read
      cases read
  | some v =>
      rw [at_] at read
      simp only [FixFieldIterator.shift, at_, Ptr.shift_some]
      dsimp only at read
      split at read
      case h_1 => cases read
      case h_2 d found =>
        have there : mem[b + v]? = some d := by
          obtain ⟨rest, split⟩ := lies
          rw [← List.getElem?_drop, ← split,
            List.getElem?_append_left (List.getElem?_eq_some_iff.mp found).1, found]
        rw [there]
        exact read

/-! ## What stands at a position -/

/-- What stands in the buffer, stands in the allocation. -/
theorem framing_relocate (lies : c <+: mem.drop b) {i : Nat} {framed : Framing}
    (read : framing c i = .ok framed) : framing mem (b + i) = .ok (framed.shift b) := by
  unfold framing at read ⊢
  obtain ⟨first, found, read⟩ := of_bind_ok read
  have some_ := wholeField_nonempty found
  rw [← Ptr.shift_some, wholeField_relocate lies found, ok_bind]
  rcases first with _ | first
  · cases read
    rfl
  dsimp only [Option.map_some, WholeField.shift] at read ⊢
  split at read
  case isTrue other =>
    cases read
    rw [if_pos other]
    rfl
  case isFalse tag8 =>
  rw [if_neg tag8]
  -- the field 9 and the jump
  obtain ⟨length, found, read⟩ := of_bind_ok read
  rw [Nat.add_assoc, ← Ptr.shift_some, wholeField_relocate lies found, ok_bind]
  rcases length with _ | length
  · cases read
    rfl
  dsimp only [Option.map_some, WholeField.shift] at read ⊢
  split at read
  case isTrue other =>
    cases read
    rw [if_pos other]
    rfl
  case isFalse tag9 =>
  rw [if_neg tag9]
  obtain ⟨bLen, number, read⟩ := of_bind_ok read
  rw [stdAtoi_relocate lies number, ok_bind]
  split at read
  case isTrue zero =>
    cases read
    rw [if_pos zero]
    rfl
  case isFalse nonzero =>
  rw [if_neg nonzero]
  obtain ⟨landing, moved, read⟩ := of_bind_ok read
  obtain ⟨landing, rfl⟩ := movePtr_ok moved
  rw [movePtr_relocate lies some_ moved, ok_bind]
  -- the trailer
  obtain ⟨trailer, found, read⟩ := of_bind_ok read
  rw [← Ptr.shift_some, wholeField_relocate lies found, ok_bind]
  rcases trailer with _ | trailer
  · cases read
    rfl
  dsimp only [Option.map_some, WholeField.shift] at read ⊢
  split at read
  case isTrue other =>
    cases read
    rw [if_pos other]
    rfl
  case isFalse tag10 =>
  rw [if_neg tag10]
  obtain ⟨checksum, number, read⟩ := of_bind_ok read
  rw [stdAtoi_relocate lies number, ok_bind]
  -- the field 35
  obtain ⟨type, found, read⟩ := of_bind_ok read
  rw [Nat.add_assoc, ← Ptr.shift_some, wholeField_relocate lies found, ok_bind]
  rcases type with _ | type
  · cases read
    rfl
  dsimp only [Option.map_some] at read ⊢
  rw [WholeField.tag_shift]
  split at read
  case isTrue other =>
    cases read
    rw [if_pos other]
    rfl
  case isFalse tag35 =>
  rw [if_neg tag35, WholeField.past_shift]
  obtain ⟨char, letter, read⟩ := of_bind_ok read
  rw [asChar_relocate lies letter, ok_bind]
  obtain ⟨beginIt, stepped, read⟩ := of_bind_ok read
  rw [FixFieldIterator.next_relocate lies stepped, ok_bind]
  cases read
  rfl

end OpenFix
