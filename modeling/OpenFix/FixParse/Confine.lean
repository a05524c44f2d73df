import OpenFix.FixParse.Layout

/-!
# The parser inside its string

`init` of a new object on a string and its NUL, with nothing allocated around them: what reads
outside is a fault. Only the jump over BodyLength can lead outside, and only the tags that a new
object starts with can lead to a null pointer.

* `framing_surveyed`: what stands at the beginning of the string, by its fields.
* `FixMessage.staysInside_iff`: when `init` stays inside.
-/

namespace OpenFix

/-! ## Reading outside -/

theorem error_of_bind {α β : Type} {x : Except Fault α} {f : α → Except Fault β} {fault : Fault}
    (run : (x >>= f) = .error fault) :
    x = .error fault ∨ ∃ a, x = .ok a ∧ f a = .error fault := by
  cases x with
  | error other =>
      cases run
      exact .inl rfl
  | ok a => exact .inr ⟨a, rfl, run⟩

/-- Behind the last byte there is nothing to read. -/
theorem wholeField_end {mem : Mem} {b : Nat} (past : mem.length ≤ b) :
    wholeField mem (some b) = .error .overrun := by
  unfold wholeField
  simp only
  rw [List.drop_eq_nil_of_le past]
  rfl

/-- A jump to a place without a byte. -/
theorem jump_outside {mem : Mem} {p : Nat} {k : Int}
    (outside : ¬ (0 ≤ (p : Int) + k ∧ (p : Int) + k < mem.length)) :
    ∃ fault, (movePtr mem (some p) k >>= fun landing => wholeField mem landing) =
      .error fault := by
  by_cases below : (p : Int) + k < 0
  · refine ⟨.underrun, ?_⟩
    rw [movePtr, if_pos below]
    rfl
  · by_cases last : (p : Int) + k = mem.length
    · refine ⟨.overrun, ?_⟩
      rw [movePtr_of_le last (Nat.le_refl _), ok_bind]
      exact wholeField_end (Nat.le_refl _)
    · refine ⟨.overrun, ?_⟩
      rw [movePtr, if_neg below, if_pos (by omega)]
      rfl

/-- `as_char` on the value of a field: an empty one has the delimiter there. -/
theorem TextField.asChar_placed {mem : Mem} {b : Nat} {f : TextField} {rest : List UInt8}
    (bytes : mem.drop b = f.bytes ++ rest) :
    ∃ c, (f.placed b).past.cur.asChar mem = .ok c := by
  have inside := Bytes.add_length_le bytes f.bytes_ne_nil
  rw [f.length_bytes] at inside
  have bound : b + f.tagText.length + 1 < mem.length := by omega
  refine ⟨mem[b + f.tagText.length + 1], ?_⟩
  simp only [FixField.asChar, WholeField.past, TextField.placed, List.getElem?_eq_getElem bound]

/-! ## By the fields of the string -/

/-- Where the jump leads. -/
def jumpTarget (first second : TextField) : Int :=
  (first.bytes.length + second.bytes.length : Nat) + second.number

/-- The string begins with a field. -/
def BeginsWithField (s : List UInt8) : Prop :=
  ∃ (f : TextField) (rest : List UInt8), s = f.bytes ++ rest

/-- What stands at the beginning of a string, by its fields. -/
inductive Surveyed (s : List UInt8) : Except Fault Framing → Prop
  | noField : ¬ BeginsWithField s → Surveyed s (.ok .noField)
  | outside {first second : TextField} {rest : List UInt8} {fault : Fault} :
    Jumps s first second rest →
    ¬ (0 ≤ jumpTarget first second ∧ jumpTarget first second ≤ s.length) →
    Surveyed s (.error fault)
  | noTrailer {first second : TextField} {rest : List UInt8} {landing : Nat} :
    Jumps s first second rest → (landing : Int) = jumpTarget first second → landing ≤ s.length →
    ¬ BeginsWithField (s.drop landing) → Surveyed s (.ok .noTrailer)
  | settled {framed : Framing} : BeginsWithField s →
    (∀ first second rest, Jumps s first second rest → ∃ landing : Nat,
      (landing : Int) = jumpTarget first second ∧ landing ≤ s.length ∧
        BeginsWithField (s.drop landing)) →
    framed ≠ .noField → framed ≠ .noTrailer → Surveyed s (.ok framed)

/-- A jump in front of the NUL. -/
theorem Jumps.nul {s rest : List UInt8} {first second : TextField}
    (jumps : Jumps s first second rest) :
    Jumps ((s ++ [0]).drop 0) first second (rest ++ [0]) where
  bytes := by
    rw [List.drop_zero, jumps.bytes]
    simp only [List.append_assoc]
  tag8 := jumps.tag8
  tag9 := jumps.tag9
  nonzero := jumps.nonzero

/-- A string that begins with no field. -/
theorem framing_noField {s : List UInt8} (none_ : ¬ BeginsWithField s) :
    framing (s ++ [0]) 0 = .ok .noField := by
  have start : (s ++ [0]).drop 0 = s ++ 0 :: [] := rfl
  rcases field_or_none start with ⟨first, rest, bytes, -⟩ | ⟨-, found⟩
  · exact (none_ ⟨first, rest, bytes⟩).elim
  · rw [framing, found]
    rfl

/-- A string that begins with a field, and from which there is no jump. -/
theorem framing_malformed {s : List UInt8} (begins : BeginsWithField s)
    (stays : ∀ first second rest, ¬ Jumps s first second rest) :
    framing (s ++ [0]) 0 = .ok .malformed := by
  obtain ⟨first, rest8, bytes8⟩ := begins
  have start : (s ++ [0]).drop 0 = first.bytes ++ (rest8 ++ 0 :: []) := by
    rw [List.drop_zero, bytes8, List.append_assoc]
  have behind8 : (s ++ [0]).drop (0 + first.bytes.length) = rest8 ++ 0 :: [] :=
    Bytes.drop_add_length start
  unfold framing
  rw [wholeField_of_text start, ok_bind]
  dsimp only
  split
  case isTrue => rfl
  case isFalse tag8 =>
  rw [first.valEnd_placed]
  rcases field_or_none behind8 with ⟨second, rest9, bytes9, found9⟩ | ⟨-, found9⟩
  case inr =>
    rw [found9]
    rfl
  rw [found9, ok_bind]
  dsimp only
  split
  case isTrue => rfl
  case isFalse tag9 =>
  have text9 : (s ++ [0]).drop (0 + first.bytes.length) =
      second.bytes ++ (rest9 ++ 0 :: []) := by
    rw [behind8, bytes9, List.append_assoc]
  rw [TextField.stdAtoi_placed text9, ok_bind]
  split
  case isTrue => rfl
  case isFalse nonzero =>
    have jumps : Jumps s first second rest9 :=
      ⟨by rw [bytes8, bytes9], not_not.mp tag8, not_not.mp tag9, nonzero⟩
    exact (stays _ _ _ jumps).elim

section

variable {s rest : List UInt8} {first second : TextField} {landing : Nat}

/-- A jump out of the string faults. -/
theorem Jumps.framing_outside (jumps : Jumps s first second rest)
    (outside : ¬ (0 ≤ jumpTarget first second ∧ jumpTarget first second ≤ s.length)) :
    ∃ fault, framing (s ++ [0]) 0 = .error fault := by
  have ends := second.valEnd_placed (0 + first.bytes.length)
  unfold jumpTarget at outside
  obtain ⟨fault, run⟩ : ∃ fault, (movePtr (s ++ [0])
      (some (second.placed (0 + first.bytes.length)).valEnd) (second.number + 1) >>=
        fun landing => wholeField (s ++ [0]) landing) = .error fault :=
    jump_outside (by rw [List.length_append, List.length_singleton]; omega)
  refine ⟨fault, ?_⟩
  rw [jumps.nul.framing_eq]
  rcases error_of_bind run with moved | ⟨landing, moved, found⟩
  · rw [moved]
    rfl
  · rw [moved, ok_bind, landed, found]
    rfl

/-- A jump into the string. -/
theorem Jumps.framing_inside (jumps : Jumps s first second rest)
    (target : (landing : Int) = jumpTarget first second) (bound : landing ≤ s.length) :
    framing (s ++ [0]) 0 =
      landed (s ++ [0]) (second.placed (0 + first.bytes.length)) (some landing) := by
  have ends := second.valEnd_placed (0 + first.bytes.length)
  have at_ : ((second.placed (0 + first.bytes.length)).valEnd : Int) + (second.number + 1) =
      (landing : Int) := by
    rw [target, jumpTarget]
    omega
  rw [jumps.nul.framing_eq, movePtr_of_le at_ (by rw [List.length_append]; omega), ok_bind]

/-- No field where the jump leads. -/
theorem landed_noTrailer {length : WholeField} (bound : landing ≤ s.length)
    (none_ : ¬ BeginsWithField (s.drop landing)) :
    landed (s ++ [0]) length (some landing) = .ok .noTrailer := by
  rcases field_or_none (List.drop_append_of_le_length bound) with
    ⟨f, rest, bytes, -⟩ | ⟨-, found⟩
  · exact (none_ ⟨f, rest, bytes⟩).elim
  · rw [landed, found]
    rfl

/-- A field where the jump leads: what follows stays in the string. -/
theorem Jumps.landed_settled (jumps : Jumps s first second rest) (bound : landing ≤ s.length)
    (begins : BeginsWithField (s.drop landing)) :
    ∃ framed, landed (s ++ [0]) (second.placed (0 + first.bytes.length)) (some landing) =
      .ok framed ∧ framed ≠ .noField ∧ framed ≠ .noTrailer := by
  obtain ⟨trailer, rest10, bytes10⟩ := begins
  have text10 : (s ++ [0]).drop landing = trailer.bytes ++ (rest10 ++ [0]) := by
    rw [List.drop_append_of_le_length bound, bytes10, List.append_assoc]
  unfold landed
  rw [wholeField_of_text text10, ok_bind]
  dsimp only
  split
  case isTrue => exact ⟨_, rfl, nofun, nofun⟩
  case isFalse =>
  rw [TextField.stdAtoi_placed text10, ok_bind, second.valEnd_placed]
  rcases field_or_none jumps.nul.drop_body with ⟨type, rest35, bytes35, found35⟩ | ⟨-, found35⟩
  case inr =>
    rw [found35]
    exact ⟨_, rfl, nofun, nofun⟩
  rw [found35, ok_bind]
  dsimp only
  split
  case isTrue => exact ⟨_, rfl, nofun, nofun⟩
  case isFalse =>
  have text35 : (s ++ [0]).drop (0 + first.bytes.length + second.bytes.length) =
      type.bytes ++ (rest35 ++ 0 :: []) := by
    rw [jumps.nul.drop_body, bytes35, List.append_assoc]
  obtain ⟨char, read⟩ := TextField.asChar_placed text35
  obtain ⟨beginIt, step⟩ := FixFieldIterator.next_total
    (type.placed (0 + first.bytes.length + second.bytes.length)).past
    (congrArg some (type.valEnd_placed _)) (Bytes.drop_add_length text35) (.inl rfl)
  rw [read, ok_bind, step, ok_bind]
  exact ⟨_, rfl, nofun, nofun⟩

end

/-- The beginning of a string, by its fields. -/
theorem framing_surveyed (s : List UInt8) : Surveyed s (framing (s ++ [0]) 0) := by
  by_cases begins : BeginsWithField s
  case neg =>
    rw [framing_noField begins]
    exact .noField begins
  by_cases some_ : ∃ first second rest, Jumps s first second rest
  case neg =>
    have stays : ∀ first second rest, ¬ Jumps s first second rest :=
      fun first second rest jumps => some_ ⟨first, second, rest, jumps⟩
    rw [framing_malformed begins stays]
    exact .settled begins (fun _ _ _ jumps => (stays _ _ _ jumps).elim) nofun nofun
  obtain ⟨first, second, rest, jumps⟩ := some_
  by_cases inside : 0 ≤ jumpTarget first second ∧ jumpTarget first second ≤ s.length
  case neg =>
    obtain ⟨fault, run⟩ := jumps.framing_outside inside
    rw [run]
    exact .outside jumps inside
  obtain ⟨landing, target⟩ := Int.eq_ofNat_of_zero_le inside.1
  have bound : landing ≤ s.length := by omega
  rw [jumps.framing_inside target.symm bound]
  by_cases lands : BeginsWithField (s.drop landing)
  case neg =>
    rw [landed_noTrailer bound lands]
    exact .noTrailer jumps target.symm bound lands
  obtain ⟨framed, run, field, trailed⟩ := jumps.landed_settled bound lands
  rw [run]
  refine .settled begins (fun first' second' rest' jumps' => ?_) field trailed
  obtain ⟨rfl, rfl⟩ := jumps.unique jumps'
  exact ⟨landing, target.symm, bound, lands⟩

/-! ## When `init` stays inside -/

/-- The jump leads to no byte of the string and not to its NUL. -/
def PointsOutside (s : List UInt8) : Prop :=
  ∃ first second rest, Jumps s first second rest ∧
    ¬ (0 ≤ jumpTarget first second ∧ jumpTarget first second ≤ s.length)

/-- `init` of a new object reads the string and its NUL only and no null pointer, and rejects
a BodyLength that points outside. -/
def FixMessage.StaysInside (s : List UInt8) (garbage : StackGarbage) : Prop :=
  ∃ msg, (new 0 garbage).init (s ++ [0]) = .ok msg ∧ (PointsOutside s → msg.valid = false)

/-- The jump leads into the string, and where there is no field the tag that the object starts
with is not the one tested. -/
structure Confined (s : List UInt8) (garbage : StackGarbage) : Prop where
  starts : ¬ BeginsWithField s → garbage.beginTag ≠ FixSpec.BeginString
  jumps : ∀ first second rest, Jumps s first second rest → ∃ landing : Nat,
    (landing : Int) = jumpTarget first second ∧ landing ≤ s.length ∧
      (¬ BeginsWithField (s.drop landing) → garbage.endTag ≠ FixSpec.CheckSum)

variable {s : List UInt8} {garbage : StackGarbage}

/-- A jump that leads into the string does not point outside. -/
theorem Confined.not_pointsOutside (confined : Confined s garbage) : ¬ PointsOutside s := by
  rintro ⟨first, second, rest, jumps, outside⟩
  obtain ⟨landing, target, bound, -⟩ := confined.jumps first second rest jumps
  exact outside (by omega)

/-- Without a field there is no jump. -/
theorem Confined.of_noField (none_ : ¬ BeginsWithField s)
    (other : garbage.beginTag ≠ FixSpec.BeginString) : Confined s garbage :=
  ⟨fun _ => other, fun first _ _ jumps => (none_ ⟨first, _, jumps.bytes⟩).elim⟩

/-- A call that returns. -/
theorem FixMessage.staysInside_of_ok {msg : FixMessage}
    (run : (new 0 garbage).init (s ++ [0]) = .ok msg) (confined : Confined s garbage) :
    StaysInside s garbage ↔ Confined s garbage :=
  iff_of_true ⟨msg, run, fun outside => (confined.not_pointsOutside outside).elim⟩ confined

/-- A call that leaves the string, or steps from a null pointer. -/
theorem FixMessage.staysInside_of_error {fault : Fault}
    (run : (new 0 garbage).init (s ++ [0]) = .error fault) (loose : ¬ Confined s garbage) :
    StaysInside s garbage ↔ Confined s garbage := by
  refine iff_of_false ?_ loose
  rintro ⟨msg, inside, -⟩
  cases run.symm.trans inside

/-- **Inside the string.** -/
theorem FixMessage.staysInside_iff (s : List UInt8) (garbage : StackGarbage) :
    StaysInside s garbage ↔ Confined s garbage := by
  have surveyed := framing_surveyed s
  have inits := (new 0 garbage).inits (s ++ [0])
  generalize framed : framing (s ++ [0]) (new 0 garbage).begin_ = framing_ at inits
  generalize ran : (new 0 garbage).init (s ++ [0]) = result at inits
  rw [show framing (s ++ [0]) 0 = framing_ from framed] at surveyed
  cases surveyed with
  | noField none_ =>
      cases inits with
      | staleField stale =>
          exact staysInside_of_error ran fun confined => confined.starts none_ stale
      | noField other _ => exact staysInside_of_ok ran (.of_noField none_ other)
  | outside jumps outside =>
      cases inits with
      | fault _ => exact staysInside_of_error ran fun confined =>
          confined.not_pointsOutside ⟨_, _, _, jumps, outside⟩
  | @noTrailer first second rest landing jumps target bound none_ =>
      have unique {first' second' : TextField} {rest' : List UInt8}
          (jumps' : Jumps s first' second' rest') :
          (landing : Int) = jumpTarget first' second' := by
        obtain ⟨rfl, rfl⟩ := jumps.unique jumps'
        exact target
      cases inits with
      | staleTrailer stale =>
          refine staysInside_of_error ran fun confined => ?_
          obtain ⟨landing', target', -, other⟩ := confined.jumps first second rest jumps
          have same : landing' = landing := by omega
          rw [same] at other
          exact other none_ stale
      | noTrailer other _ =>
          refine staysInside_of_ok ran ⟨fun bare => (bare ⟨first, _, jumps.bytes⟩).elim, ?_⟩
          intro first' second' rest' jumps'
          exact ⟨landing, unique jumps', bound, fun _ => other⟩
  | settled begins lands noField noTrailer =>
      have confined : Confined s garbage := by
        refine ⟨fun bare => (bare begins).elim, ?_⟩
        intro first second rest jumps
        obtain ⟨landing, target, bound, field⟩ := lands first second rest jumps
        exact ⟨landing, target, bound, fun bare => (bare field).elim⟩
      cases inits with
      | message => exact staysInside_of_ok ran confined
      | staleField => exact (noField rfl).elim
      | noField => exact (noField rfl).elim
      | staleTrailer => exact (noTrailer rfl).elim
      | noTrailer => exact (noTrailer rfl).elim
      | malformed => exact staysInside_of_ok ran confined

/-- The string of `test/fix_parse/main.cpp`: its BodyLength is 149, its body has 133 bytes. -/
def fixBuf : List UInt8 :=
  [56, 61, 70, 73, 88, 46, 52, 46, 52, 1, 57, 61, 49, 52, 57, 1, 51, 53, 61, 65, 1, 57, 56, 61,
    48, 1, 53, 53, 51, 61, 70, 110, 86, 102, 119, 50, 78, 83, 53, 53, 52, 61, 116, 112, 66, 76,
    82, 113, 76, 86, 55, 118, 107, 112, 53, 108, 103, 87, 88, 97, 57, 115, 116, 54, 79, 86, 43,
    108, 53, 119, 73, 86, 48, 48, 82, 52, 79, 80, 106, 86, 70, 83, 57, 111, 48, 61, 1, 57, 54, 61,
    49, 54, 56, 54, 55, 48, 48, 57, 54, 56, 48, 52, 50, 46, 72, 112, 105, 78, 51, 117, 70, 75,
    100, 118, 76, 79, 120, 72, 74, 69, 87, 106, 79, 48, 112, 80, 107, 43, 106, 118, 110, 66, 87,
    78, 103, 55, 82, 80, 88, 89, 118, 112, 73, 121, 109, 52, 73, 61, 1, 49, 48, 61, 49, 56, 53, 1]

/-- The jump leads nine bytes behind the NUL. -/
theorem FixMessage.not_staysInside_fixBuf :
    ¬ ∀ (s : List UInt8) (garbage : StackGarbage), (0 : UInt8) ∉ s → StaysInside s garbage := by
  intro law
  have outside : (new 0 ⟨0, 0⟩).init (fixBuf ++ [0]) = .error .overrun := by
    decide +kernel
  obtain ⟨msg, run, -⟩ := law fixBuf ⟨0, 0⟩ (by decide +kernel)
  cases outside.symm.trans run

end OpenFix
