import OpenFix.Json
import OpenFix.Lib.Record

/-!
# `config.h`

`get_cli_config` parses the file outside of its `try` block, and inside it `from_json` writes the
members of `out` one after the other. The parser and the conversion of a floating-point number are
parameters.

* `getCliConfig_allOrNothing_iff`: when loading is all or nothing.
* `toJson_rewrites`: a configuration that is written is loaded again.
-/

namespace OpenFix.Config

open Json (Kind Denotes)

/-- `client_fix_cfg_t`. -/
structure ClientFixCfg : Type where
  toFile : Bool
  port : Int
  logName : List UInt8
  targetId : List UInt8
  senderId : List UInt8
  host : List UInt8
  fixVer : List UInt8
  marketSubscriptions : List (List UInt8)
  deriving DecidableEq

/-! ## The members -/

inductive Member : Type
  | targetId
  | senderId
  | host
  | port
  | fixVer
  | marketSubscriptions
  | logName
  | toFile
  deriving DecidableEq

def Member.key : Member → String
  | .targetId => "target_id"
  | .senderId => "sender_id"
  | .host => "host"
  | .port => "port"
  | .fixVer => "fix_ver"
  | .marketSubscriptions => "market_subscriptions"
  | .logName => "log_name"
  | .toFile => "to_file"

def Member.kind : Member → Kind
  | .targetId | .senderId | .host | .fixVer | .logName => .string
  | .port => .int
  | .marketSubscriptions => .strings
  | .toFile => .bool

def ClientFixCfg.get (cfg : ClientFixCfg) : (m : Member) → m.kind.Value
  | .targetId => cfg.targetId
  | .senderId => cfg.senderId
  | .host => cfg.host
  | .port => cfg.port
  | .fixVer => cfg.fixVer
  | .marketSubscriptions => cfg.marketSubscriptions
  | .logName => cfg.logName
  | .toFile => cfg.toFile

def ClientFixCfg.set (cfg : ClientFixCfg) : (m : Member) → m.kind.Value → ClientFixCfg
  | .targetId, v => { cfg with targetId := v }
  | .senderId, v => { cfg with senderId := v }
  | .host, v => { cfg with host := v }
  | .port, v => { cfg with port := v }
  | .fixVer, v => { cfg with fixVer := v }
  | .marketSubscriptions, v => { cfg with marketSubscriptions := v }
  | .logName, v => { cfg with logName := v }
  | .toFile, v => { cfg with toFile := v }

/-- A configuration is what its members say. -/
def record : Record (fun m : Member => m.kind.Value) ClientFixCfg where
  get := ClientFixCfg.get
  set := ClientFixCfg.set
  get_set_self _ m _ := by cases m <;> rfl
  get_set_of_ne _ m _ n other := by
    cases m <;> cases n <;> first | rfl | exact absurd rfl other
  ext s t same := by
    obtain ⟨_, _, _, _, _, _, _, _⟩ := s
    obtain ⟨_, _, _, _, _, _, _, _⟩ := t
    cases same .targetId
    cases same .senderId
    cases same .host
    cases same .port
    cases same .fixVer
    cases same .marketSubscriptions
    cases same .logName
    cases same .toFile
    rfl

/-! ## The functions -/

variable {F : Type}

/-- The members in the order of `NLOHMANN_DEFINE_TYPE_NON_INTRUSIVE`. -/
def members : List Member :=
  [.targetId, .senderId, .host, .port, .fixVer, .marketSubscriptions, .logName, .toFile]

/-- `at( key ).get_to( )`: the value it assigns. -/
def read (cast : F → Int) (j : Json F) (m : Member) : Except Exception m.kind.Value := do
  Json.getTo cast m.kind (← j.at_ m.key)

/-- `from_json`, as the macro writes it: what it throws, and what it leaves of `out`. -/
def fromJson (cast : F → Int) (j : Json F) (out : ClientFixCfg) :
    Except Exception Unit × ClientFixCfg :=
  record.assign (read cast j) members out

/-- `to_json`, as the macro writes it. Where it throws, the document is as it was. -/
def toJson (j : Json F) (cfg : ClientFixCfg) : Except Exception (Json F) :=
  members.foldlM (fun j m => j.setAt m.key (Json.toJson m.kind (cfg.get m))) j

/-- `get_cli_config` on the bytes of the file, none where it cannot be opened: what it returns or
throws, and what it leaves of `out`. -/
def getCliConfig (parse : List UInt8 → Except Exception (Json F)) (cast : F → Int)
    (file : Option (List UInt8)) (out : ClientFixCfg) : Except Exception Bool × ClientFixCfg :=
  match file with
  | none => (.ok false, out)
  | some f =>
      match parse f with
      | .error e => (.error e, out)
      | .ok j =>
          if j.empty then (.ok false, out)
          else
            match j.index "client" with
            | .error _ => (.ok false, out)
            | .ok client =>
                match fromJson cast client out with
                | (.error _, out) => (.ok false, out)
                | (.ok (), out) => (.ok true, out)

/-! ## What is expected -/

/-- The `"client"` member of a document. -/
def IsClient (doc client : Json F) : Prop :=
  ∃ members, doc = .object members ∧ members.lookup (ascii "client") = some client

/-- A client has this member with the right type and this value. -/
def Has (cast : F → Int) (client : Json F) (m : Member) (v : m.kind.Value) : Prop :=
  ∃ members j, client = .object members ∧ members.lookup (ascii m.key) = some j ∧
    Denotes cast m.kind j v

/-- A client has all members with the right types, and the values that `cfg` holds. -/
def Holds (cast : F → Int) (client : Json F) (cfg : ClientFixCfg) : Prop :=
  ∀ m, Has cast client m (cfg.get m)

/-- The file is a document whose client holds `cfg`. -/
def Describes (parse : List UInt8 → Except Exception (Json F)) (cast : F → Int)
    (file : Option (List UInt8)) (cfg : ClientFixCfg) : Prop :=
  ∃ text doc client, file = some text ∧ parse text = .ok doc ∧ IsClient doc client ∧
    Holds cast client cfg

/-- Loading throws nothing, returns true with what the file describes, and else returns false with
`out` as it was. -/
def AllOrNothing (parse : List UInt8 → Except Exception (Json F)) (cast : F → Int)
    (file : Option (List UInt8)) (out : ClientFixCfg) : Prop :=
  match getCliConfig parse cast file out with
  | (.error _, _) => False
  | (.ok true, out') => Describes parse cast file out'
  | (.ok false, out') => (¬ ∃ cfg, Describes parse cast file cfg) ∧ out' = out

/-- Each member of a client in front of the first that is missing or has the wrong type has the
value that `out` has. -/
def Untouched (cast : F → Int) (client : Json F) (out : ClientFixCfg) : Prop :=
  ∀ m v, Record.Reached (Has cast client) members m v → out.get m = v

/-! ## Reading a client -/

section

variable {cast : F → Int} {doc client : Json F} {out : ClientFixCfg}

theorem members_nodup : members.Nodup := by decide

theorem mem_members (m : Member) : m ∈ members := by
  cases m <;> decide

theorem read_ok_iff {m : Member} {v : m.kind.Value} :
    read cast client m = .ok v ↔ Has cast client m v := by
  constructor
  · intro run
    cases client with
    | object entries =>
        cases found : entries.lookup (ascii m.key) with
        | some j =>
            rw [read, Json.at_, found] at run
            exact ⟨entries, j, rfl, found, Json.getTo_ok_iff.mp run⟩
        | none =>
            rw [read, Json.at_, found] at run
            cases run
    | _ => cases run
  · rintro ⟨entries, j, rfl, found, denotes⟩
    rw [read, Json.at_, found]
    exact Json.getTo_ok_iff.mpr denotes

/-- Behind a success `out` is what the client holds. -/
theorem holds_fromJson (success : (fromJson cast client out).1 = .ok ()) :
    Holds cast client (fromJson cast client out).2 := by
  have all := (Record.assign_ok_iff out).mp success
  intro m
  obtain ⟨v, value⟩ := all m (mem_members m)
  have written : (fromJson cast client out).2.get m = v :=
    Record.get_assign_of_ok (R := record) members_nodup all (mem_members m) value out
  rw [written]
  exact read_ok_iff.mp value

theorem fromJson_of_holds {cfg : ClientFixCfg} (holds : Holds cast client cfg) :
    fromJson cast client out = (.ok (), cfg) := by
  have all : ∀ m ∈ members, ∃ v, read cast client m = .ok v :=
    fun m _ => ⟨cfg.get m, read_ok_iff.mpr (holds m)⟩
  refine Prod.ext ((Record.assign_ok_iff out).mpr all) (record.ext _ _ fun m => ?_)
  exact Record.get_assign_of_ok members_nodup all (mem_members m) (read_ok_iff.mpr (holds m)) out

theorem fromJson_unchanged_iff :
    (fromJson cast client out).2 = out ↔ Untouched cast client out := by
  have same : (fun m v => read cast client m = .ok v) = Has cast client := by
    funext m v
    exact propext read_ok_iff
  rw [fromJson, Record.assign_unchanged_iff members_nodup, same]
  exact Iff.rfl

/-! ## The client of a document -/

theorem IsClient.unique {client' : Json F} (first : IsClient doc client)
    (second : IsClient doc client') : client = client' := by
  obtain ⟨entries, rfl, found⟩ := first
  obtain ⟨_, ⟨⟩, found'⟩ := second
  exact Option.some.inj (found.symm.trans found')

theorem IsClient.not_empty (isClient : IsClient doc client) : doc.empty = false := by
  obtain ⟨entries, rfl, found⟩ := isClient
  cases entries with
  | nil => cases found
  | cons => rfl

theorem IsClient.index (isClient : IsClient doc client) : doc.index "client" = .ok client := by
  obtain ⟨entries, rfl, found⟩ := isClient
  rw [Json.index, found]
  rfl

/-- Without a client there is nothing to read: `operator[]` throws, or gives null. -/
theorem index_of_no_client (none_ : ¬ ∃ client, IsClient doc client) :
    (∃ e, doc.index "client" = .error e) ∨ doc.index "client" = .ok .null := by
  cases doc with
  | null => exact .inr rfl
  | object entries =>
      cases found : entries.lookup (ascii "client") with
      | some client => exact absurd ⟨client, entries, rfl, found⟩ none_
      | none =>
          rw [Json.index, found]
          exact .inr rfl
  | _ => exact .inl ⟨_, rfl⟩

theorem fromJson_null (cast : F → Int) (out : ClientFixCfg) :
    ∃ e, fromJson cast .null out = (.error e, out) :=
  ⟨_, rfl⟩

end

/-! ## Loading -/

section

variable {parse : List UInt8 → Except Exception (Json F)} {cast : F → Int} {text : List UInt8}
  {doc client : Json F} {out : ClientFixCfg}

theorem getCliConfig_no_client (parsed : parse text = .ok doc)
    (none_ : ¬ ∃ client, IsClient doc client) :
    getCliConfig parse cast (some text) out = (.ok false, out) := by
  unfold getCliConfig
  dsimp only
  rw [parsed]
  dsimp only
  split
  case isTrue => rfl
  case isFalse =>
    rcases index_of_no_client none_ with ⟨e, thrown⟩ | null
    · rw [thrown]
    · obtain ⟨e, thrown⟩ := fromJson_null cast out
      rw [null]
      dsimp only
      rw [thrown]

theorem getCliConfig_client (parsed : parse text = .ok doc) (isClient : IsClient doc client) :
    getCliConfig parse cast (some text) out =
      (.ok (fromJson cast client out).1.isOk, (fromJson cast client out).2) := by
  have occupied : ¬ doc.empty = true := ne_true_of_eq_false isClient.not_empty
  unfold getCliConfig
  dsimp only
  rw [parsed]
  dsimp only
  rw [if_neg occupied, isClient.index]
  dsimp only
  rcases fromJson cast client out with ⟨_ | _, left_⟩
  · rfl
  · rfl

theorem describes_iff (parsed : parse text = .ok doc) (isClient : IsClient doc client)
    {cfg : ClientFixCfg} : Describes parse cast (some text) cfg ↔ Holds cast client cfg := by
  constructor
  · rintro ⟨_, doc', client', ⟨⟩, parsed', isClient', holds⟩
    cases parsed.symm.trans parsed'
    cases isClient.unique isClient'
    exact holds
  · intro holds
    exact ⟨text, doc, client, rfl, parsed, isClient, holds⟩

theorem allOrNothing_client (parsed : parse text = .ok doc) (isClient : IsClient doc client) :
    AllOrNothing parse cast (some text) out ↔
      (∃ cfg, Holds cast client cfg) ∨ Untouched cast client out := by
  rw [AllOrNothing, getCliConfig_client parsed isClient]
  cases success : (fromJson cast client out).1 with
  | ok =>
      have holds := holds_fromJson success
      exact iff_of_true ((describes_iff parsed isClient).mpr holds) (.inl ⟨_, holds⟩)
  | error e =>
      have nothing : ¬ ∃ cfg, Holds cast client cfg := by
        rintro ⟨cfg, holds⟩
        rw [fromJson_of_holds holds] at success
        cases success
      have undescribed : ¬ ∃ cfg, Describes parse cast (some text) cfg := fun described =>
        nothing (described.imp fun cfg => (describes_iff parsed isClient).mp)
      rw [or_iff_right nothing, ← fromJson_unchanged_iff]
      exact and_iff_right undescribed

/-- **Loading the configuration** is all or nothing if the parser takes the text, and each member
of the client in front of the first that is missing or has the wrong type has the value that `out`
has already. -/
theorem getCliConfig_allOrNothing_iff (parse : List UInt8 → Except Exception (Json F))
    (cast : F → Int) (file : Option (List UInt8)) (out : ClientFixCfg) :
    AllOrNothing parse cast file out ↔
      ∀ text, file = some text → ∃ doc, parse text = .ok doc ∧
        ∀ client, IsClient doc client →
          (∃ cfg, Holds cast client cfg) ∨ Untouched cast client out := by
  cases file with
  | none =>
      refine iff_of_true ⟨?_, rfl⟩ nofun
      rintro ⟨cfg, text, doc, client, ⟨⟩, -⟩
  | some text =>
      simp only [Option.some.injEq, forall_eq']
      cases parsed : parse text with
      | error e =>
          have thrown : getCliConfig parse cast (some text) out = (.error e, out) := by
            unfold getCliConfig
            dsimp only
            rw [parsed]
          rw [AllOrNothing, thrown]
          exact iff_of_false id nofun
      | ok doc =>
          simp only [Except.ok.injEq, exists_eq_left']
          by_cases some_ : ∃ client, IsClient doc client
          · obtain ⟨client, isClient⟩ := some_
            rw [allOrNothing_client parsed isClient]
            constructor
            · intro complete client' isClient'
              exact isClient.unique isClient' ▸ complete
            · intro each
              exact each client isClient
          · rw [AllOrNothing, getCliConfig_no_client parsed some_]
            refine iff_of_true ⟨?_, rfl⟩ fun client isClient => absurd ⟨client, isClient⟩ some_
            rintro ⟨cfg, _, doc', client, ⟨⟩, parsed', isClient, -⟩
            cases parsed.symm.trans parsed'
            exact some_ ⟨client, isClient⟩

/-- A client that has only `"target_id"` leaves that member in `out`. -/
theorem not_allOrNothing_target_id :
    ¬ ∀ (parse : List UInt8 → Except Exception (Json Unit)) (cast : Unit → Int)
      (file : Option (List UInt8)) (out : ClientFixCfg), AllOrNothing parse cast file out := by
  intro all
  let doc : Json Unit :=
    .object [(ascii "client", .object [(ascii "target_id", .string (ascii "X"))])]
  let out : ClientFixCfg := ⟨false, 0, [], [], [], [], [], []⟩
  have loaded := all (fun _ => .ok doc) (fun _ => 0)
    (some (ascii "\x7b\"client\": \x7b\"target_id\": \"X\"\x7d\x7d")) out
  have unchanged : ({ out with targetId := ascii "X" } : ClientFixCfg) = out := loaded.2
  exact absurd unchanged (by decide)

end

/-! ## Writing -/

section

variable {cast : F → Int} {value : Member → Json F} {ms : List Member}

theorem Member.key_injective : Function.Injective fun m : Member => ascii m.key := by
  intro m n same
  cases m <;> cases n <;> first | rfl | exact absurd same (by decide)

/-- The members of an object behind writing `ms`. -/
def stores (value : Member → Json F) (ms : List Member) (entries : List (List UInt8 × Json F)) :
    List (List UInt8 × Json F) :=
  ms.foldl (fun entries m => Json.store (ascii m.key) (value m) entries) entries

/-- A key that is not written keeps what it has. -/
theorem lookup_stores_of_not_mem {key : List UInt8} (other : ∀ m ∈ ms, key ≠ ascii m.key)
    (entries : List (List UInt8 × Json F)) :
    (stores value ms entries).lookup key = entries.lookup key := by
  induction ms generalizing entries with
  | nil => rfl
  | cons m ms ih =>
      obtain ⟨first, rest⟩ := List.forall_mem_cons.mp other
      rw [stores, List.foldl_cons, ← stores, ih rest, Json.lookup_store, if_neg first]

/-- A member that is written has its value. -/
theorem lookup_stores_of_mem {m : Member} (distinct : ms.Nodup) (member : m ∈ ms)
    (entries : List (List UInt8 × Json F)) :
    (stores value ms entries).lookup (ascii m.key) = some (value m) := by
  induction ms generalizing entries with
  | nil => exact absurd member List.not_mem_nil
  | cons first ms ih =>
      obtain ⟨absent, distinct⟩ := List.nodup_cons.mp distinct
      rw [stores, List.foldl_cons, ← stores]
      rcases List.mem_cons.mp member with rfl | member
      · -- No later member has the key again.
        have other : ∀ n ∈ ms, ascii m.key ≠ ascii n.key := fun n behind same =>
          absent (Member.key_injective same ▸ behind)
        rw [lookup_stores_of_not_mem other, Json.lookup_store, if_pos rfl]
      · exact ih distinct member _

theorem foldlM_setAt_object (ms : List Member) (entries : List (List UInt8 × Json F)) :
    ms.foldlM (fun j m => Json.setAt j m.key (value m)) (.object entries) =
      .ok (.object (stores value ms entries)) := by
  induction ms generalizing entries with
  | nil => rfl
  | cons m ms ih =>
      rw [List.foldlM_cons]
      exact ih _

/-- The object that a document is for `operator[]`. -/
def AsObject (j : Json F) (entries : List (List UInt8 × Json F)) : Prop :=
  j = .object entries ∨ j = .null ∧ entries = []

theorem toJson_of_asObject {j : Json F} {entries : List (List UInt8 × Json F)}
    (object : AsObject j entries) (cfg : ClientFixCfg) :
    toJson j cfg =
      .ok (.object (stores (fun m => Json.toJson m.kind (cfg.get m)) members entries)) := by
  rcases object with rfl | ⟨rfl, rfl⟩
  · exact foldlM_setAt_object members entries
  · rfl

theorem toJson_ok {j j' : Json F} {cfg : ClientFixCfg} (written : toJson j cfg = .ok j') :
    ∃ entries, AsObject j entries ∧
      j' = .object (stores (fun m => Json.toJson m.kind (cfg.get m)) members entries) := by
  cases j with
  | null =>
      have object : AsObject (.null : Json F) [] := .inr ⟨rfl, rfl⟩
      have run := toJson_of_asObject object cfg
      exact ⟨[], object, Except.ok.inj (written.symm.trans run)⟩
  | object entries =>
      have object : AsObject (.object entries) entries := .inl rfl
      have run := toJson_of_asObject object cfg
      exact ⟨entries, object, Except.ok.inj (written.symm.trans run)⟩
  | _ => cases written

/-- The object `other` has what `client` has under the keys of a configuration. -/
def Matches (client other : Json F) : Prop :=
  ∃ entries entries', client = .object entries ∧ other = .object entries' ∧
    ∀ m : Member, ∃ j j', entries.lookup (ascii m.key) = some j ∧
      entries'.lookup (ascii m.key) = some j' ∧ Json.Same j j'

/-- What is written holds the configuration. -/
theorem holds_stores {cfg : ClientFixCfg} {other : Json F} (port : wrap32 cfg.port = cfg.port)
    (entries : List (List UInt8 × Json F))
    (same : Matches
      (.object (stores (fun m => Json.toJson m.kind (cfg.get m)) members entries)) other) :
    Holds cast other cfg := by
  obtain ⟨_, entries', ⟨⟩, rfl, same⟩ := same
  intro m
  have held : m.kind.Holds (cfg.get m) := by
    cases m with
    | port => exact port
    | _ => trivial
  have written : (stores (fun m => Json.toJson m.kind (cfg.get m)) members entries).lookup
      (ascii m.key) = some (Json.toJson m.kind (cfg.get m)) :=
    lookup_stores_of_mem members_nodup (mem_members m) entries
  obtain ⟨j, j', found, found', same⟩ := same m
  cases written.symm.trans found
  exact ⟨entries', j', rfl, found', Json.denotes_toJson cast held same⟩

/-- The document `j` became `client`, which has what `j` had beside the members of a configuration,
and whatever `out` was, loading a file whose client has the same members gives `cfg`. -/
structure Rewrites (j client : Json F) (cfg : ClientFixCfg) : Prop where
  kept : ∃ entries entries', AsObject j entries ∧ client = .object entries' ∧
    ∀ key, (∀ m : Member, key ≠ ascii m.key) → entries'.lookup key = entries.lookup key
  loaded : ∀ (parse : List UInt8 → Except Exception (Json F)) (cast : F → Int) (text : List UInt8)
    (doc other : Json F) (out : ClientFixCfg), parse text = .ok doc → IsClient doc other →
      Matches client other → getCliConfig parse cast (some text) out = (.ok true, cfg)

/-- **A configuration that is written** into null or any object is loaded again. Into anything else
it is not written. -/
theorem toJson_rewrites (cfg : ClientFixCfg) (low : -2 ^ 31 ≤ cfg.port)
    (high : cfg.port < 2 ^ 31) (j : Json F) :
    match toJson j cfg with
    | .ok client => Rewrites j client cfg
    | .error e =>
        e = .typeError 305 ("cannot use operator[] with a string argument with " ++ j.typeName) ∧
          ¬ ∃ entries, AsObject j entries := by
  split
  case h_1 client written =>
    obtain ⟨entries, object, rfl⟩ := toJson_ok written
    refine ⟨⟨entries, _, object, rfl, fun key other => ?_⟩, ?_⟩
    · exact lookup_stores_of_not_mem (fun m _ => other m) entries
    · intro parse cast text doc other out parsed isClient same
      have holds : Holds cast other cfg := holds_stores (wrap32_of_range low high) entries same
      rw [getCliConfig_client parsed isClient, fromJson_of_holds holds]
      rfl
  case h_2 e thrown =>
    have none_ : ¬ ∃ entries, AsObject j entries := by
      rintro ⟨entries, object⟩
      rw [toJson_of_asObject object] at thrown
      cases thrown
    refine ⟨?_, none_⟩
    cases j with
    | null => exact absurd ⟨[], .inr ⟨rfl, rfl⟩⟩ none_
    | object entries => exact absurd ⟨entries, .inl rfl⟩ none_
    | _ => exact (Except.error.inj thrown).symm

/-- The client of `configs/fix.json`. -/
def fixCfg : ClientFixCfg where
  toFile := false
  port := 1516
  logName := ascii "FIX"
  targetId := ascii "LMXBLM"
  senderId := ascii "AshishDigUAT1"
  host := ascii "127.0.0.1"
  fixVer := ascii "FIX.4.4"
  marketSubscriptions := [ascii "5002"]

/-- The client of `configs/fix.json` as the parser gives it. -/
def fixClient : Json Unit :=
  .object [(ascii "fix_ver", .string (ascii "FIX.4.4")),
    (ascii "host", .string (ascii "127.0.0.1")), (ascii "log_name", .string (ascii "FIX")),
    (ascii "market_subscriptions", .array [.string (ascii "5002")]),
    (ascii "port", .numberUnsigned 1516), (ascii "sender_id", .string (ascii "AshishDigUAT1")),
    (ascii "target_id", .string (ascii "LMXBLM")), (ascii "to_file", .boolean false)]

/-- Written into an empty document, and loaded from the file. -/
theorem toJson_rewrites_fix :
    ∃ client : Json Unit, toJson .null fixCfg = .ok client ∧ Rewrites .null client fixCfg ∧
      ∀ text out, getCliConfig (fun _ => .ok (.object [(ascii "client", fixClient)])) (fun _ => 0)
        (some text) out = (.ok true, fixCfg) := by
  have rewrites : Rewrites (.null : Json Unit) _ fixCfg :=
    toJson_rewrites fixCfg (by decide) (by decide) .null
  refine ⟨_, rfl, rewrites, fun text out => ?_⟩
  refine rewrites.loaded _ _ text _ fixClient out rfl ⟨_, rfl, rfl⟩ ⟨_, _, rfl, rfl, fun m => ?_⟩
  cases m with
  | port => exact ⟨_, _, rfl, rfl, .unsigned 1516⟩
  | _ => exact ⟨_, _, rfl, rfl, .refl _⟩

end

end OpenFix.Config
