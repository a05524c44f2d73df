import OpenFix.CRuntime

/-!
# `json.h`

What loading the configuration uses of the vendored `nlohmann::json`: a document, the access to
its members, and the conversions to the types of the configuration. `F` is the type of its
floating-point numbers, and `cast` their conversion to `int`.

* `getTo_ok_iff`: which values a conversion accepts, and as what.
* `denotes_toJson`: a value that is written is read back, as the parser gives it.
-/

namespace OpenFix

/-- What `json.h` throws, with its text behind `[json.exception. …]`. -/
inductive Exception : Type
  | parseError (what : String)
  | typeError (id : Nat) (what : String)
  | outOfRange (id : Nat) (what : String)
  deriving DecidableEq

/-- A document. An object has its members by key. -/
inductive Json (F : Type) : Type
  | null
  | boolean (value : Bool)
  | numberUnsigned (value : Nat)
  | numberInteger (value : Int)
  | numberFloat (value : F)
  | string (value : List UInt8)
  | array (elements : List (Json F))
  | object (members : List (List UInt8 × Json F))

namespace Json

variable {F : Type}

/-- `type_name( )`. -/
def typeName : Json F → String
  | .null => "null"
  | .object _ => "object"
  | .array _ => "array"
  | .string _ => "string"
  | .boolean _ => "boolean"
  | .numberUnsigned _ | .numberInteger _ | .numberFloat _ => "number"

/-- `empty( )`. -/
def empty : Json F → Bool
  | .null => true
  | .array elements => elements.isEmpty
  | .object members => members.isEmpty
  | _ => false

/-- `operator[]` on a document that may change: null becomes an object, and a key that it does not
have is put in with null. -/
def index (j : Json F) (key : String) : Except Exception (Json F) :=
  match j with
  | .null => .ok .null
  | .object members => .ok ((members.lookup (ascii key)).getD .null)
  | j =>
      .error (.typeError 305
        ("cannot use operator[] with a string argument with " ++ j.typeName))

/-- `at( )`. -/
def at_ (j : Json F) (key : String) : Except Exception (Json F) :=
  match j with
  | .object members =>
      match members.lookup (ascii key) with
      | some value => .ok value
      | none => .error (.outOfRange 403 ("key '" ++ key ++ "' not found"))
  | j => .error (.typeError 304 ("cannot use at() with " ++ j.typeName))

/-- The error of a conversion. -/
def mustBe (type : String) (j : Json F) : Exception :=
  .typeError 302 ("type must be " ++ type ++ ", but is " ++ j.typeName)

/-- `from_json` of a `std::string`. -/
def getString : Json F → Except Exception (List UInt8)
  | .string value => .ok value
  | j => .error (mustBe "string" j)

/-- The types of the members of a configuration. -/
inductive Kind : Type
  | string
  | int
  | strings
  | bool

/-- The values of a type. -/
def Kind.Value : Kind → Type
  | .string => List UInt8
  | .int => Int
  | .strings => List (List UInt8)
  | .bool => Bool

/-- `get_to( )`: the value it assigns. -/
def getTo (cast : F → Int) : (kind : Kind) → Json F → Except Exception kind.Value
  | .string, j => j.getString
  | .int, .numberUnsigned value => .ok (wrap32 value)
  | .int, .numberInteger value => .ok (wrap32 value)
  | .int, .numberFloat value => .ok (cast value)
  | .int, .boolean value => .ok value.toInt
  | .int, j => .error (mustBe "number" j)
  | .strings, .array elements => elements.mapM getString
  | .strings, j => .error (mustBe "array" j)
  | .bool, .boolean value => .ok value
  | .bool, j => .error (mustBe "boolean" j)

/-- The values of the right type: what they are as a member of a configuration. -/
inductive Denotes (cast : F → Int) : (kind : Kind) → Json F → kind.Value → Prop
  | string (value : List UInt8) : Denotes cast .string (.string value) value
  | numberUnsigned (value : Nat) : Denotes cast .int (.numberUnsigned value) (wrap32 value)
  | numberInteger (value : Int) : Denotes cast .int (.numberInteger value) (wrap32 value)
  | numberFloat (value : F) : Denotes cast .int (.numberFloat value) (cast value)
  | boolean (value : Bool) : Denotes cast .int (.boolean value) value.toInt
  | strings (values : List (List UInt8)) :
    Denotes cast .strings (.array (values.map .string)) values
  | bool (value : Bool) : Denotes cast .bool (.boolean value) value

theorem getString_ok_iff {j : Json F} {value : List UInt8} :
    j.getString = .ok value ↔ j = .string value := by
  constructor
  · intro run
    cases j with
    | string text =>
        cases run
        rfl
    | _ => cases run
  · rintro rfl
    rfl

theorem mapM_getString_ok_iff {elements : List (Json F)} {values : List (List UInt8)} :
    elements.mapM getString = .ok values ↔ elements = values.map .string := by
  induction elements generalizing values with
  | nil =>
      rw [List.mapM_nil]
      constructor
      · rintro ⟨⟩
        rfl
      · intro empty
        rw [List.map_eq_nil_iff.mp empty.symm]
        rfl
  | cons j elements ih =>
      rw [List.mapM_cons]
      cases first : j.getString with
      | error e =>
          refine iff_of_false nofun fun same => ?_
          obtain ⟨value, values, rfl, rfl, -⟩ := List.map_eq_cons_iff.mp same.symm
          cases first
      | ok value =>
          obtain rfl := getString_ok_iff.mp first
          cases rest : elements.mapM getString with
          | error e =>
              refine iff_of_false nofun fun same => ?_
              obtain ⟨-, others, -, -, behind⟩ := List.map_eq_cons_iff.mp same.symm
              cases rest.symm.trans (ih.mpr behind.symm)
          | ok others =>
              obtain rfl := ih.mp rest
              constructor
              · rintro ⟨⟩
                rfl
              · intro same
                obtain ⟨value', others', rfl, head, behind⟩ := List.map_eq_cons_iff.mp same.symm
                cases head
                cases ih.mpr behind.symm ▸ rest
                rfl

/-- Which values a conversion accepts, and as what. -/
theorem getTo_ok_iff {cast : F → Int} {kind : Kind} {j : Json F} {value : kind.Value} :
    getTo cast kind j = .ok value ↔ Denotes cast kind j value := by
  constructor
  · intro run
    cases kind with
    | string =>
        obtain rfl := getString_ok_iff.mp run
        exact .string value
    | int =>
        cases j with
        | numberUnsigned n =>
            obtain rfl := Except.ok.inj run
            exact .numberUnsigned n
        | numberInteger n =>
            obtain rfl := Except.ok.inj run
            exact .numberInteger n
        | numberFloat x =>
            obtain rfl := Except.ok.inj run
            exact .numberFloat x
        | boolean b =>
            obtain rfl := Except.ok.inj run
            exact .boolean b
        | _ => cases run
    | strings =>
        cases j with
        | array elements =>
            obtain rfl := mapM_getString_ok_iff.mp run
            exact .strings value
        | _ => cases run
    | bool =>
        cases j with
        | boolean b =>
            obtain rfl := Except.ok.inj run
            exact .bool b
        | _ => cases run
  · intro denotes
    cases denotes with
    | strings values => exact mapM_getString_ok_iff.mpr rfl
    | _ => rfl

/-! ## Writing -/

/-- `emplace` of a key into the map of an object, which is in the order of the keys, and the
assignment to the value that stands there then. -/
def store (key : List UInt8) (value : Json F) :
    List (List UInt8 × Json F) → List (List UInt8 × Json F)
  | [] => [(key, value)]
  | (k, w) :: members =>
      if key = k then (k, value) :: members
      else if key < k then (key, value) :: (k, w) :: members
      else (k, w) :: store key value members

/-- An assignment to what `operator[]` gives. Where it throws, the document is as it was. -/
def setAt (j : Json F) (key : String) (value : Json F) : Except Exception (Json F) :=
  match j with
  | .null => .ok (.object (store (ascii key) value []))
  | .object members => .ok (.object (store (ascii key) value members))
  | j =>
      .error (.typeError 305
        ("cannot use operator[] with a string argument with " ++ j.typeName))

/-- `to_json` of the types of a configuration. -/
def toJson : (kind : Kind) → kind.Value → Json F
  | .string, value => .string value
  | .int, value => .numberInteger value
  | .strings, values => .array (values.map .string)
  | .bool, value => .boolean value

/-- The values that a variable of the type can hold. -/
def Kind.Holds (kind : Kind) (value : kind.Value) : Prop :=
  match kind with
  | .int => wrap32 value = value
  | _ => True

theorem lookup_entry (key other : List UInt8) (value : Json F)
    (members : List (List UInt8 × Json F)) :
    ((key, value) :: members).lookup other =
      if other = key then some value else members.lookup other := by
  rw [List.lookup_cons]
  by_cases here : other = key
  · rw [if_pos here, beq_iff_eq.mpr here]
  · rw [if_neg here, beq_eq_false_iff_ne.mpr here]

theorem lookup_store (key other : List UInt8) (value : Json F)
    (members : List (List UInt8 × Json F)) :
    (store key value members).lookup other =
      if other = key then some value else members.lookup other := by
  induction members with
  | nil => exact lookup_entry key other value []
  | cons entry members ih =>
      obtain ⟨k, w⟩ := entry
      rw [store]
      by_cases same : key = k
      · subst same
        simp only [if_pos, lookup_entry]
        split <;> rfl
      · by_cases before : key < k
        · rw [if_neg same, if_pos before, lookup_entry]
        · rw [if_neg same, if_neg before]
          simp only [lookup_entry, ih]
          -- The entry in front has another key.
          by_cases there : other = k
          · have elsewhere : other ≠ key := fun here => same (here.symm.trans there)
            simp only [if_pos there, if_neg elsewhere]
          · simp only [if_neg there]

/-- The same value: what was written as a signed number, the parser gives as an unsigned one where
it has no sign. -/
inductive Same : Json F → Json F → Prop
  | refl (j : Json F) : Same j j
  | unsigned (value : Nat) : Same (.numberInteger value) (.numberUnsigned value)

/-- A value that is written is read back. -/
theorem denotes_toJson (cast : F → Int) {kind : Kind} {value : kind.Value} {j : Json F}
    (held : kind.Holds value) (same : Same (toJson kind value) j) : Denotes cast kind j value := by
  cases kind with
  | string =>
      cases same
      exact .string value
  | int =>
      have kept : wrap32 value = value := held
      generalize written : toJson .int value = j' at same
      cases same with
      | refl =>
          cases written
          have read : Denotes cast .int (.numberInteger value) (wrap32 value) :=
            .numberInteger value
          rwa [kept] at read
      | unsigned n =>
          have number : value = (n : Int) := Json.numberInteger.inj written
          have read : Denotes cast .int (.numberUnsigned n) (wrap32 n) := .numberUnsigned n
          rwa [← number, kept] at read
  | strings =>
      cases same
      exact .strings value
  | bool =>
      cases same
      exact .bool value

end Json

end OpenFix
