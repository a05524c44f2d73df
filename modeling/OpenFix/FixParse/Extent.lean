import OpenFix.FixParse.Message

/-!
# What `init` reads

The parser knows no length, so it may read on behind the bytes it was given. Over a
prefix `p` of the allocation and a tail behind it:

* `FixMessage.init_append`: where `init` on `p` alone does not run off its end, no tail
  changes it.
* `FixMessage.init_digits`: where it does, it also runs off the end of a tail of digits.
* `FixMessage.init_zeros`: a tail of zeros, longer than any `BodyLength` jump, stops every
  scan that reaches it.
-/

namespace OpenFix

/-- `y` is `x` unless `x` runs off the end. -/
def Extends {α : Type} (x y : Except Fault α) : Prop := x ≠ .error .overrun → y = x

/-- A result other than running off the end. -/
def Inside {α : Type} (x : Except Fault α) : Prop := x ≠ .error .overrun

theorem Extends.refl {α : Type} (x : Except Fault α) : Extends x x := fun _ => rfl

theorem Extends.bind {α β : Type} {x y : Except Fault α} {f g : α → Except Fault β}
    (first : Extends x y) (rest : ∀ a, x = .ok a → Extends (f a) (g a)) :
    Extends (x >>= f) (y >>= g) := by
  intro inside
  cases x with
  | error fault =>
      rw [first fun overrun => inside (by rw [overrun, error_bind])]
      rfl
  | ok a =>
      rw [first nofun]
      exact rest a rfl inside

theorem Extends.ite {α : Type} {c : Prop} [Decidable c] {x x' y y' : Except Fault α}
    (yes : c → Extends x y) (no : ¬ c → Extends x' y') :
    Extends (if c then x else x') (if c then y else y') := by
  split
  case isTrue isC => exact yes isC
  case isFalse notC => exact no notC

theorem Inside.bind {α β : Type} {x : Except Fault α} {f : α → Except Fault β}
    (first : Inside x) (rest : ∀ a, x = .ok a → Inside (f a)) : Inside (x >>= f) := by
  cases x with
  | error fault => exact fun overrun => first (by cases overrun; rfl)
  | ok a => exact rest a rfl

theorem Inside.ite {α : Type} {c : Prop} [Decidable c] {x y : Except Fault α}
    (yes : c → Inside x) (no : ¬ c → Inside y) : Inside (if c then x else y) := by
  split
  case isTrue isC => exact yes isC
  case isFalse notC => exact no notC

theorem bind_congr_ok {α β : Type} {x y : Except Fault α} {f g : α → Except Fault β}
    (first : y = x) (rest : ∀ a, x = .ok a → g a = f a) : (y >>= g) = (x >>= f) := by
  rw [first]
  cases x with
  | error fault => rfl
  | ok a => exact rest a rfl

theorem ite_congr_not {α : Type} {c : Prop} [Decidable c] {x y z : α} (no : ¬ c → y = z) :
    (if c then x else y) = if c then x else z := by
  split
  case isTrue => rfl
  case isFalse notC => exact no notC

/-! ## Pointers and numbers -/

theorem movePtr_extends (p t : Mem) (q : Ptr) (k : Int) :
    Extends (movePtr p q k) (movePtr (p ++ t) q k) := by
  unfold movePtr
  cases q with
  | none => exact .refl _
  | some q =>
      apply Extends.ite (fun _ => .refl _)
      intro _ inside
      have fits : ¬ (p.length : Int) < q + k := fun past => inside (if_pos past)
      rw [if_neg fits, if_neg (by rw [List.length_append]; omega)]

theorem movePtr_inside {mem : Mem} {q : Ptr} {k : Int}
    (fits : ∀ o, q = some o → (o : Int) + k ≤ mem.length) : Inside (movePtr mem q k) := by
  unfold movePtr
  rcases q with _ | o
  · exact nofun
  · have := fits o rfl
    exact .ite (fun _ => nofun) fun _ => .ite (fun past => by omega) fun _ => nofun

/-- A moved pointer was not null, and moved by `k`. -/
theorem movePtr_target {mem : Mem} {q r : Ptr} {k : Int} (moved : movePtr mem q k = .ok r) :
    ∃ o l : Nat, q = some o ∧ r = some l ∧ (l : Int) = o + k := by
  unfold movePtr at moved
  rcases q with _ | o
  · cases moved
  · dsimp only at moved
    split at moved
    case isTrue => cases moved
    case isFalse above =>
      split at moved
      case isTrue => cases moved
      case isFalse =>
        cases moved
        exact ⟨o, _, rfl, rfl, by omega⟩

theorem strtolDigits_extends (cs t : List UInt8) (acc : Nat) :
    Extends (strtolDigits cs acc) (strtolDigits (cs ++ t) acc) := by
  induction cs generalizing acc with
  | nil => exact fun inside => (inside rfl).elim
  | cons c cs ih => exact .ite (fun _ => ih _) fun _ => .refl _

/-- `strtol` behind the white space. -/
theorem strtol_unspaced {bytes cs : List UInt8} {c : UInt8}
    (unspaced : bytes.dropWhile isSpace = c :: cs) :
    strtol bytes = (strtolDigits (if c = minusSign ∨ c = 43 then cs else c :: cs) 0).map
      fun n : Nat =>
        if c = minusSign then max (-(n : Int)) (-2 ^ 63) else min (n : Int) (2 ^ 63 - 1) := by
  unfold strtol
  simp only [unspaced, List.head?_cons, Option.some.injEq, List.tail_cons]
  cases strtolDigits (if c = minusSign ∨ c = 43 then cs else c :: cs) 0 with
  | error fault => rfl
  | ok n => rfl

theorem Extends.map {α β : Type} {x y : Except Fault α} (first : Extends x y) (f : α → β) :
    Extends (x.map f) (y.map f) := by
  intro inside
  rw [first]
  intro overrun
  exact inside (by rw [overrun]; rfl)

theorem Inside.map {α β : Type} {x : Except Fault α} (first : Inside x) (f : α → β) :
    Inside (x.map f) := by
  cases x with
  | error fault => exact fun overrun => first (by cases overrun; rfl)
  | ok a => exact nofun

theorem strtol_extends (bytes t : List UInt8) : Extends (strtol bytes) (strtol (bytes ++ t)) := by
  cases unspaced : bytes.dropWhile isSpace with
  | nil =>
      have overrun : strtol bytes = .error .overrun := by
        unfold strtol
        rw [unspaced]
        rfl
      exact fun inside => (inside overrun).elim
  | cons c cs =>
      have later : (bytes ++ t).dropWhile isSpace = c :: (cs ++ t) := by
        rw [List.dropWhile_append, unspaced]
        rfl
      rw [strtol_unspaced unspaced, strtol_unspaced later]
      apply Extends.map
      split
      case isTrue => exact strtolDigits_extends cs t 0
      case isFalse => exact strtolDigits_extends (c :: cs) t 0

theorem strtolDigits_inside (cs : List UInt8) (acc : Nat) {stop : UInt8}
    (noDigit : Decimal.isDigit stop = false) (rest : List UInt8) :
    Inside (strtolDigits (cs ++ stop :: rest) acc) := by
  induction cs generalizing acc with
  | nil =>
      rw [List.nil_append]
      unfold strtolDigits
      rw [noDigit]
      intro run
      cases run
  | cons c cs ih =>
      refine .ite (fun _ => ih _) fun _ => ?_
      intro run
      cases run

/-- A byte that is no digit, no sign and no white space stops `strtol`. -/
theorem strtol_inside (cs : List UInt8) {stop : UInt8} (stops : stop = 0 ∨ stop = SOH)
    (rest : List UInt8) : Inside (strtol (cs ++ stop :: rest)) := by
  have noDigit : Decimal.isDigit stop = false := by rcases stops with rfl | rfl <;> rfl
  have noSpace : isSpace stop = false := by rcases stops with rfl | rfl <;> rfl
  have noSign : ¬ (stop = minusSign ∨ stop = 43) := by rcases stops with rfl | rfl <;> decide
  cases unspaced : cs.dropWhile isSpace with
  | nil =>
      have here : (cs ++ stop :: rest).dropWhile isSpace = stop :: rest := by
        rw [List.dropWhile_append, unspaced, List.dropWhile_cons, noSpace]
        rfl
      rw [strtol_unspaced here, if_neg noSign]
      exact (strtolDigits_inside [] 0 noDigit rest).map _
  | cons c ds =>
      have here : (cs ++ stop :: rest).dropWhile isSpace = c :: (ds ++ stop :: rest) := by
        rw [List.dropWhile_append, unspaced]
        rfl
      rw [strtol_unspaced here]
      apply Inside.map
      split
      case isTrue => exact strtolDigits_inside ds 0 noDigit rest
      case isFalse => exact strtolDigits_inside (c :: ds) 0 noDigit rest

/-! ## Steps of the cursor -/

namespace FixFieldIterator

/-- `next` as the scan followed by the reading of the tag. -/
theorem next_scan {delim : UInt8} {mem : Mem} {it : FixFieldIterator} {b : Nat}
    (at_ : it.cur.begin = some b) :
    next delim mem it = (scan delim (mem.drop b) b none >>= fun ends =>
      match ends with
      | (some valBegin, some valEnd) =>
          Details.atoi mem (some b) (some (valBegin - 1)) 10 >>= fun tag =>
            .ok ⟨⟨tag, some valBegin, some valEnd, some (valEnd + 1)⟩⟩
      | (valBegin, valEnd) => .ok ⟨⟨it.cur.tag, valBegin, valEnd, none⟩⟩) := by
  unfold next
  rw [at_]
  dsimp only
  cases scan delim (mem.drop b) b none with
  | error fault => rfl
  | ok ends =>
      rcases ends with ⟨_ | valBegin, _ | valEnd⟩
      · rfl
      · rfl
      · rfl
      · dsimp only [ok_bind]
        cases Details.atoi mem (some b) (some (valBegin - 1)) 10 <;> rfl

/-- What a step leaves. The value starts inside the allocation; where there is an end,
a delimiter stands there and the value does not start behind it; the cursor is behind the
end; and the tag is the old one unless both ends were found. -/
theorem next_ok {mem : Mem} {it it' : FixFieldIterator} (run : next SOH mem it = .ok it') :
    (∀ v, it'.cur.valBegin = some v → v < mem.length) ∧
    (∀ q, it'.cur.valEnd = some q →
      mem[q]? = some SOH ∧ ∀ v, it'.cur.valBegin = some v → v ≤ q) ∧
    (∀ b, it'.cur.begin = some b → ∃ q, it'.cur.valEnd = some q ∧ b = q + 1) ∧
    (it'.cur.tag ≠ it.cur.tag →
      ∃ v q, it'.cur.valBegin = some v ∧ it'.cur.valEnd = some q) := by
  cases at_ : it.cur.begin with
  | none =>
      unfold next at run
      rw [at_] at run
      cases run
  | some b =>
      rw [next_scan at_] at run
      rcases of_bind_ok run with ⟨⟨first, last⟩, scanned, run⟩
      rcases scan_range scanned with ⟨begins, ends⟩
      have starts (v : Nat) (found : first = some v) : v < mem.length := by
        rcases begins v found with none_ | range
        · cases none_
        · rw [List.length_drop] at range
          omega
      have stops (q : Nat) (found : last = some q) :
          mem[q]? = some SOH ∧ ∀ v, first = some v → v ≤ q := by
        rcases ends q found with ⟨⟨k, rfl, byte⟩, ordered⟩
        rw [List.getElem?_drop] at byte
        exact ⟨byte, fun v begin => (ordered v begin).resolve_left nofun⟩
      rcases first with _ | v
      · rcases last with _ | q <;> cases run <;>
          exact ⟨starts, stops, nofun, fun moved => (moved rfl).elim⟩
      · rcases last with _ | q
        · cases run
          exact ⟨starts, stops, nofun, fun moved => (moved rfl).elim⟩
        · rcases of_bind_ok run with ⟨tag, -, run⟩
          cases run
          exact ⟨starts, stops, fun b begin => ⟨q, rfl, (Option.some.inj begin).symm⟩,
            fun _ => ⟨v, q, rfl, rfl⟩⟩

theorem scan_extends (delim : UInt8) (cs t : List UInt8) (i : Nat) (valBegin : Ptr) :
    Extends (scan delim cs i valBegin) (scan delim (cs ++ t) i valBegin) := by
  induction cs generalizing i valBegin with
  | nil => exact fun inside => (inside rfl).elim
  | cons c cs ih =>
      exact .ite (fun _ => .refl _) fun _ => .ite (fun _ => ih _ _) fun _ =>
        .ite (fun _ => .refl _) fun _ => ih _ _

theorem atoi_extends (p t : Mem) (begin end_ : Ptr) :
    Extends (Details.atoi p begin end_ 10) (Details.atoi (p ++ t) begin end_ 10) := by
  unfold Details.atoi
  rcases begin with _ | b
  · exact .refl _
  rcases end_ with _ | e
  · exact .refl _
  intro inside
  have range : b < p.length ∧ e ≤ p.length := by
    by_contra outside
    exact inside (if_neg outside)
  have window : Bytes.slice (p ++ t) b (e - b) = Bytes.slice p b (e - b) := by
    unfold Bytes.slice
    rw [List.drop_append_of_le_length (by omega),
      List.take_append_of_le_length (by rw [List.length_drop]; omega)]
  dsimp only
  rw [if_pos range, if_pos (by rw [List.length_append]; omega), window]

/-- A step that stays inside `p` is the same with anything behind `p`. -/
theorem next_extends (p t : Mem) (it : FixFieldIterator) :
    Extends (next SOH p it) (next SOH (p ++ t) it) := by
  cases at_ : it.cur.begin with
  | none =>
      unfold next
      rw [at_]
      exact .refl _
  | some b =>
      rw [next_scan at_, next_scan at_, List.drop_append]
      refine .bind (scan_extends SOH _ _ b none) ?_
      rintro ⟨_ | valBegin, _ | valEnd⟩ -
      · exact .refl _
      · exact .refl _
      · exact .refl _
      · exact .bind (atoi_extends p t _ _) fun _ _ => .refl _

theorem scan_replicate_digit (n : Nat) (i : Nat) (valBegin : Ptr) :
    scan SOH (List.replicate n 48) i valBegin = .error .overrun := by
  induction n generalizing i with
  | zero => rfl
  | succ n ih => exact ih (i + 1)

/-- A step that runs off the end of `p` runs through digits behind `p`. -/
theorem next_digits (p : Mem) (n : Nat) (it : FixFieldIterator) :
    next SOH (p ++ List.replicate n 48) it = next SOH p it := by
  by_cases overrun : next SOH p it = .error .overrun
  · rw [overrun]
    cases at_ : it.cur.begin with
    | none =>
        unfold next at overrun
        rw [at_] at overrun
        cases overrun
    | some b =>
        have scanned : scan SOH (p.drop b) b none = .error .overrun := by
          cases scanned : scan SOH (p.drop b) b none with
          | ok ends =>
              rcases next_of_scan it at_ scanned with ⟨it', run⟩
              cases run.symm.trans overrun
          | error fault =>
              rw [next_scan at_, scanned, error_bind] at overrun
              rw [Except.error.inj overrun]
        have through (cs : List UInt8) (m i : Nat) (valBegin : Ptr)
            (scanned : scan SOH cs i valBegin = .error .overrun) :
            scan SOH (cs ++ List.replicate m 48) i valBegin = .error .overrun := by
          induction cs generalizing i valBegin with
          | nil => exact scan_replicate_digit m i valBegin
          | cons c cs ih =>
              rw [List.cons_append]
              unfold scan at scanned ⊢
              split at scanned
              case isTrue => cases scanned
              case isFalse notNul =>
                rw [if_neg notNul]
                split at scanned
                case isTrue equal =>
                  rw [if_pos equal]
                  exact ih _ _ scanned
                case isFalse notEqual =>
                  rw [if_neg notEqual]
                  split at scanned
                  case isTrue => cases scanned
                  case isFalse notDelim =>
                    rw [if_neg notDelim]
                    exact ih _ _ scanned
        rw [next_scan at_, List.drop_append, List.drop_replicate, through _ _ _ _ scanned]
        rfl
  · exact next_extends p _ it overrun

end FixFieldIterator

/-! ## `init` -/

theorem asInt_extends (p t : Mem) (f : FixField) : Extends (f.asInt p) (f.asInt (p ++ t)) := by
  unfold FixField.asInt stdAtoi
  rcases f.valBegin with _ | v
  · exact .refl _
  · dsimp only
    rw [List.drop_append]
    exact (strtol_extends _ _).map _

theorem asChar_extends (p t : Mem) (f : FixField) :
    Extends (f.asChar p) (f.asChar (p ++ t)) := by
  unfold FixField.asChar
  rcases f.valBegin with _ | v
  · exact .refl _
  · dsimp only
    intro inside
    cases read : p[v]? with
    | none =>
        rw [read] at inside
        exact (inside rfl).elim
    | some c =>
        rw [List.getElem?_append_left (List.getElem?_eq_some_iff.mp read).1, read]

/-- `as_int` reads up to a NUL or a delimiter at the latest. -/
theorem asInt_inside {mem : Mem} {f : FixField} {stop : UInt8} (stops : stop = 0 ∨ stop = SOH)
    (ahead : ∀ v, f.valBegin = some v → ∃ q, v ≤ q ∧ mem[q]? = some stop) :
    Inside (f.asInt mem) := by
  unfold FixField.asInt stdAtoi
  cases start : f.valBegin with
  | none => exact nofun
  | some v =>
      rcases ahead v start with ⟨q, after, byte⟩
      have split : mem.drop v = (mem.drop v).take (q - v) ++ stop :: mem.drop (q + 1) := by
        rcases List.getElem?_eq_some_iff.mp byte with ⟨inside, rfl⟩
        rw [← List.drop_eq_getElem_cons inside, show q = v + (q - v) by omega, ← List.drop_drop,
          Nat.add_sub_cancel_left, List.take_append_drop]
      dsimp only
      rw [split]
      exact (strtol_inside _ stops _).map _

/-- The delimiter behind the value of a field stops `as_int`. -/
theorem asInt_inside_of_next {mem : Mem} {it it' : FixFieldIterator} {q : Nat}
    (run : FixFieldIterator.next SOH mem it = .ok it') (stop : it'.cur.valEnd = some q) :
    Inside (it'.cur.asInt mem) := by
  obtain ⟨-, stops, -, -⟩ := FixFieldIterator.next_ok run
  exact asInt_inside (.inr rfl) fun v start =>
    ⟨q, (stops q stop).2 v start, (stops q stop).1⟩

theorem asChar_inside {mem : Mem} {f : FixField}
    (before : ∀ v, f.valBegin = some v → v < mem.length) : Inside (f.asChar mem) := by
  unfold FixField.asChar
  cases start : f.valBegin with
  | none => exact nofun
  | some v =>
      dsimp only
      rw [List.getElem?_eq_getElem (before v start)]
      exact nofun

namespace FixMessage

/-- No tail changes a parse that stays inside. -/
theorem init_append {p : Mem} {msg : FixMessage} (inside : Inside (msg.init p)) (t : Mem) :
    msg.init (p ++ t) = msg.init p := by
  suffices extends_ : Extends (msg.init p) (msg.init (p ++ t)) from extends_ inside
  unfold init
  apply Extends.bind (FixFieldIterator.next_extends p t _)
  intro begin8 _
  apply Extends.ite (fun _ => .refl _)
  intro _
  apply Extends.bind (FixFieldIterator.next_extends p t _)
  intro begin9 _
  apply Extends.ite (fun _ => .refl _)
  intro _
  apply Extends.bind (asInt_extends p t _)
  intro bLen _
  apply Extends.ite (fun _ => .refl _)
  intro _
  apply Extends.bind (movePtr_extends p t _ _)
  intro landing _
  apply Extends.bind (FixFieldIterator.next_extends p t _)
  intro end10 _
  apply Extends.ite (fun _ => .refl _)
  intro _
  apply Extends.bind (movePtr_extends p t _ _)
  intro end_ _
  apply Extends.bind (asInt_extends p t _)
  intro checksum _
  apply Extends.bind (FixFieldIterator.next_extends p t _)
  intro begin35 _
  apply Extends.ite (fun _ => .refl _)
  intro _
  apply Extends.bind (asChar_extends p t _)
  intro type _
  exact .bind (FixFieldIterator.next_extends p t _) fun _ _ => .refl _

/-- The jump over `BodyLength` bytes and the step from its landing. -/
theorem jump_digits {β : Type} (p : Mem) (n : Nat) (q : Ptr) (k : Int) (cur : FixField)
    {f g : FixFieldIterator → Except Fault β}
    (rest : ∀ landing it, FixFieldIterator.next SOH p ⟨{ cur with begin := landing }⟩ = .ok it →
      g it = f it) :
    (movePtr (p ++ List.replicate n 48) q k >>= fun landing =>
        FixFieldIterator.next SOH (p ++ List.replicate n 48)
          ⟨{ cur with begin := landing }⟩ >>= g) =
      (movePtr p q k >>= fun landing =>
        FixFieldIterator.next SOH p ⟨{ cur with begin := landing }⟩ >>= f) := by
  by_cases overrun : movePtr p q k = .error .overrun
  · cases moved : movePtr (p ++ List.replicate n 48) q k with
    | error fault =>
        rw [overrun]
        unfold movePtr at overrun moved
        rcases q with _ | o
        · cases overrun
        · dsimp only at overrun moved
          split at overrun
          case isTrue => cases overrun
          case isFalse above =>
            rw [if_neg above] at moved
            split at moved
            case isTrue =>
              cases moved
              rfl
            case isFalse => cases moved
    | ok landing =>
        -- a landing behind `p` has only digits ahead
        rcases movePtr_target moved with ⟨o, l, rfl, rfl, target⟩
        have behind : p.length ≤ l := by
          by_contra before
          rw [movePtr_of_le target.symm (by omega)] at overrun
          cases overrun
        have stuck : FixFieldIterator.next SOH p ⟨{ cur with begin := some l }⟩ =
            .error .overrun := by
          rw [FixFieldIterator.next_scan rfl, List.drop_eq_nil_of_le behind]
          rfl
        rw [overrun, ok_bind, FixFieldIterator.next_digits, stuck]
        rfl
  · refine bind_congr_ok (movePtr_extends p _ q k overrun) fun landing _ => ?_
    exact bind_congr_ok (FixFieldIterator.next_digits p n _) (rest landing)

/-- Digits behind a parse that runs off the end. -/
theorem init_digits (p : Mem) (n : Nat) (msg : FixMessage) :
    msg.init (p ++ List.replicate n 48) = msg.init p := by
  unfold init
  apply bind_congr_ok (FixFieldIterator.next_digits p n _)
  intro begin8 _
  apply ite_congr_not
  intro tag8
  apply bind_congr_ok (FixFieldIterator.next_digits p n _)
  intro begin9 run9
  apply ite_congr_not
  intro tag9
  rcases FixFieldIterator.next_ok run9 with ⟨-, -, -, found9⟩
  have moved9 : begin9.cur.tag ≠ begin8.cur.tag := by
    rw [not_not.mp tag8, not_not.mp tag9]
    decide
  rcases found9 moved9 with ⟨-, q9, -, stop9⟩
  apply bind_congr_ok (asInt_extends p _ _ (asInt_inside_of_next run9 stop9))
  intro bLen _
  apply ite_congr_not
  intro _
  apply jump_digits p n _ _ _
  intro landing end10 run10
  apply ite_congr_not
  intro _
  rcases FixFieldIterator.next_ok run10 with ⟨-, stops10, -, -⟩
  have inside10 : Inside (movePtr p end10.cur.valEnd 1) := by
    refine movePtr_inside fun q stop => ?_
    have below := (List.getElem?_eq_some_iff.mp (stops10 q stop).1).1
    omega
  apply bind_congr_ok (movePtr_extends p _ _ _ inside10)
  intro end_ moved
  rcases movePtr_target moved with ⟨q10, -, stop10, -, -⟩
  apply bind_congr_ok (asInt_extends p _ _ (asInt_inside_of_next run10 stop10))
  intro checksum _
  apply bind_congr_ok (FixFieldIterator.next_digits p n _)
  intro begin35 run35
  apply ite_congr_not
  intro _
  have inside35 : Inside (begin35.cur.asChar p) :=
    asChar_inside (FixFieldIterator.next_ok run35).1
  apply bind_congr_ok (asChar_extends p _ _ inside35)
  intro type _
  exact bind_congr_ok (FixFieldIterator.next_digits p n _) fun _ _ => rfl

/-! ## Zeros behind the prefix -/

section Zeros

variable {p : Mem} {k : Nat}

/-- Wherever a cursor stands inside, a zero lies ahead. -/
theorem zero_ahead {b : Nat} (positive : 0 < k) (before : b < p.length + k) :
    (p ++ List.replicate k 0).drop b =
      p.drop b ++ 0 :: List.replicate (k - (b - p.length) - 1) 0 := by
  have count : k - (b - p.length) - 1 + 1 = k - (b - p.length) := by omega
  rw [List.drop_append, List.drop_replicate, ← List.replicate_succ, count]

theorem next_zeros {it : FixFieldIterator} (positive : 0 < k)
    (before : ∀ b, it.cur.begin = some b → b < p.length + k) :
    Inside (FixFieldIterator.next SOH (p ++ List.replicate k 0) it) := by
  cases at_ : it.cur.begin with
  | none =>
      unfold FixFieldIterator.next
      rw [at_]
      exact nofun
  | some b =>
      rcases FixFieldIterator.next_total it at_ (zero_ahead positive (before b at_)) (.inl rfl) with
        ⟨it', run⟩
      rw [run]
      exact nofun

/-- What a step finds ends in `p`. -/
theorem next_zeros_ok {it it' : FixFieldIterator}
    (run : FixFieldIterator.next SOH (p ++ List.replicate k 0) it = .ok it') :
    (∀ v, it'.cur.valBegin = some v → v < p.length + k) ∧
    (∀ q, it'.cur.valEnd = some q → q < p.length) ∧
    ∀ b, it'.cur.begin = some b → b ≤ p.length := by
  rcases FixFieldIterator.next_ok run with ⟨starts, stops, behind, -⟩
  have ends (q : Nat) (stop : it'.cur.valEnd = some q) : q < p.length := by
    by_contra past
    have byte := (stops q stop).1
    rw [List.getElem?_append_right (by omega), List.getElem?_replicate] at byte
    split at byte
    case isTrue => exact absurd (Option.some.inj byte) (by decide)
    case isFalse => cases byte
  refine ⟨fun v start => ?_, ends, fun b begin => ?_⟩
  · have := starts v start
    rwa [List.length_append, List.length_replicate] at this
  · rcases behind b begin with ⟨q, stop, rfl⟩
    have := ends q stop
    omega

theorem asInt_zeros {f : FixField} (positive : 0 < k)
    (before : ∀ v, f.valBegin = some v → v < p.length + k) :
    Inside (f.asInt (p ++ List.replicate k 0)) := by
  refine asInt_inside (.inl rfl) fun v start => ⟨p.length + k - 1, ?_, ?_⟩
  · have := before v start
    omega
  · rw [List.getElem?_append_right (by omega), List.getElem?_replicate, if_pos (by omega)]

theorem asInt_range {mem : Mem} {f : FixField} {n : Int} (read : f.asInt mem = .ok n) :
    -2 ^ 31 ≤ n ∧ n < 2 ^ 31 := by
  unfold FixField.asInt at read
  cases start : f.valBegin with
  | none =>
      rw [start] at read
      cases read
  | some v =>
    rw [start] at read
    unfold stdAtoi at read
    dsimp only at read
    cases number : strtol (mem.drop v) with
    | error fault =>
        rw [number] at read
        cases read
    | ok m =>
        rw [number] at read
        cases read
        exact wrap32_range m

/-- Zeros behind a prefix. No jump over a `BodyLength` passes `2 ^ 31` zeros, and every
scan stops at the first of them. -/
theorem init_zeros (msg : FixMessage) (long : 2 ^ 31 ≤ k) (before : msg.begin_ ≤ p.length) :
    Inside (msg.init (p ++ List.replicate k 0)) := by
  unfold init
  have positive : 0 < k := by omega
  have start8 : ∀ b, some msg.begin_ = some b → b < p.length + k := by
    intro b start
    have := Option.some.inj start
    omega
  refine .bind (next_zeros positive start8) fun begin8 run8 => ?_
  rcases next_zeros_ok run8 with ⟨-, -, behind8⟩
  refine .ite (fun _ => nofun) fun _ => ?_
  refine .bind (next_zeros positive fun b at_ => ?_) fun begin9 run9 => ?_
  · have := behind8 b at_
    omega
  rcases next_zeros_ok run9 with ⟨starts9, ends9, behind9⟩
  refine .ite (fun _ => nofun) fun _ => ?_
  refine .bind (asInt_zeros positive starts9) fun bLen read => ?_
  rcases asInt_range read with ⟨-, small⟩
  refine .ite (fun _ => nofun) fun _ => ?_
  have total : (p ++ List.replicate k 0).length = p.length + k := by
    rw [List.length_append, List.length_replicate]
  refine .bind (movePtr_inside fun q stop => ?_) fun landing moved => ?_
  · have := ends9 q stop
    rw [total]
    omega
  rcases movePtr_target moved with ⟨q, l, stop, rfl, target⟩
  have below := ends9 q stop
  refine .bind (next_zeros positive fun b at_ => ?_) fun end10 run10 => ?_
  · have := Option.some.inj at_
    omega
  rcases next_zeros_ok run10 with ⟨starts10, ends10, -⟩
  refine .ite (fun _ => nofun) fun _ => ?_
  refine .bind (movePtr_inside fun q stop => ?_) fun end_ _ => ?_
  · have := ends10 q stop
    rw [total]
    omega
  refine .bind (asInt_zeros positive starts10) fun checksum _ => ?_
  refine .bind (next_zeros positive fun b at_ => ?_) fun begin35 run35 => ?_
  · have := behind9 b at_
    omega
  rcases next_zeros_ok run35 with ⟨starts35, -, behind35⟩
  refine .ite (fun _ => nofun) fun _ => ?_
  have typeInside : Inside (begin35.cur.asChar (p ++ List.replicate k 0)) :=
    asChar_inside fun v start => total ▸ starts35 v start
  refine .bind typeInside fun type _ => ?_
  refine .bind (next_zeros positive fun b at_ => ?_) fun _ _ => nofun
  have := behind35 b at_
  omega

end Zeros

end FixMessage

end OpenFix
