import OpenFix.FixParse.Iterator
import OpenFix.FixSpec

/-!
# `fix_message_t`

The message object of `fix_parse.h` at its default delimiter. `init` checks the
framing fields 8, 9, 10 and 35 with two cursors, `beginIt` walking forward and
`endIt` landing on the trailer by a jump over `BodyLength` bytes. Each early return
keeps what was stored before it; `valid` is set at the end and never cleared.

`walk` is the range-based `for` over a message, `find` its `std::find`; both take the
number of passes they may make and return `none` when these do not suffice.
-/

namespace OpenFix

structure FixMessage : Type where
  begin_ : Nat
  end_ : Ptr
  beginIt : FixFieldIterator
  endIt : FixFieldIterator
  checksum : UInt8
  type : UInt8
  valid : Bool
  deriving DecidableEq, Repr

/-- What the default-initialised cursors of a new message object hold in their tags. -/
structure StackGarbage : Type where
  beginTag : Int
  endTag : Int
  deriving DecidableEq, Repr

namespace FixMessage

/-- `fix_message_t( const char *b_ )`. -/
def new (begin_ : Nat) (garbage : StackGarbage) : FixMessage where
  begin_ := begin_
  end_ := none
  beginIt := ⟨⟨garbage.beginTag, none, none, none⟩⟩
  endIt := ⟨⟨garbage.endTag, none, none, none⟩⟩
  checksum := 0
  type := 0
  valid := false

/-- `fix_message_t::init`. -/
def init (mem : Mem) (msg : FixMessage) : Except Fault FixMessage := do
  let beginIt ← FixFieldIterator.next SOH mem ⟨{ msg.beginIt.cur with begin := some msg.begin_ }⟩
  let msg := { msg with beginIt }
  if beginIt.cur.tag ≠ FixSpec.BeginString then
    return msg
  let beginIt ← FixFieldIterator.next SOH mem beginIt
  let msg := { msg with beginIt }
  if beginIt.cur.tag ≠ FixSpec.BodyLength then
    return msg
  let bLen ← beginIt.cur.asInt mem
  if bLen = 0 then
    return msg
  let landing ← movePtr mem beginIt.cur.valEnd (bLen + 1)
  let endIt ← FixFieldIterator.next SOH mem ⟨{ msg.endIt.cur with begin := landing }⟩
  let msg := { msg with endIt }
  if endIt.cur.tag ≠ FixSpec.CheckSum then
    return msg
  let end_ ← movePtr mem endIt.cur.valEnd 1
  let checksum ← endIt.cur.asInt mem
  let msg := { msg with end_, checksum := toUInt8 checksum }
  let beginIt ← FixFieldIterator.next SOH mem beginIt
  let msg := { msg with beginIt }
  if beginIt.cur.tag ≠ FixSpec.MsgType then
    return msg
  let type ← beginIt.cur.asChar mem
  let beginIt ← FixFieldIterator.next SOH mem beginIt
  return { msg with type, beginIt, valid := true }

/-- What `init` stores. It returns early before it stored `end_` and `checksum`, or
before it stored `type`, or it runs to its end. -/
theorem init_cases {mem : Mem} {msg msg' : FixMessage} (run : msg.init mem = .ok msg') :
    (∃ beginIt endIt, msg' = { msg with beginIt, endIt }) ∨
    (∃ beginIt endIt end_ checksum,
      msg' = { msg with beginIt, endIt, end_ := some end_, checksum }) ∨
    ∃ beginIt endIt end_ checksum type,
      msg' = { msg with beginIt, endIt, end_ := some end_, checksum, type, valid := true } := by
  rw [init] at run
  obtain ⟨begin8, -, run⟩ := of_bind_ok run
  split at run
  · cases run
    exact .inl ⟨begin8, msg.endIt, rfl⟩
  obtain ⟨begin9, -, run⟩ := of_bind_ok run
  split at run
  · cases run
    exact .inl ⟨begin9, msg.endIt, rfl⟩
  obtain ⟨bLen, -, run⟩ := of_bind_ok run
  split at run
  · cases run
    exact .inl ⟨begin9, msg.endIt, rfl⟩
  obtain ⟨landing, -, run⟩ := of_bind_ok run
  obtain ⟨end10, -, run⟩ := of_bind_ok run
  split at run
  · cases run
    exact .inl ⟨begin9, end10, rfl⟩
  obtain ⟨stop, moved, run⟩ := of_bind_ok run
  obtain ⟨end_, rfl⟩ := movePtr_ok moved
  obtain ⟨checksum, -, run⟩ := of_bind_ok run
  obtain ⟨begin35, -, run⟩ := of_bind_ok run
  split at run
  · cases run
    exact .inr (.inl ⟨begin35, end10, end_, _, rfl⟩)
  obtain ⟨type, -, run⟩ := of_bind_ok run
  obtain ⟨beginIt, -, run⟩ := of_bind_ok run
  cases run
  exact .inr (.inr ⟨beginIt, end10, end_, _, type, rfl⟩)

/-- An object marked valid has an end. -/
def Ended (msg : FixMessage) : Prop := msg.valid = true → ∃ e, msg.end_ = some e

theorem ended_new (begin_ : Nat) (garbage : StackGarbage) : (new begin_ garbage).Ended :=
  fun valid => nomatch valid

theorem Ended.init {mem : Mem} {msg msg' : FixMessage} (ended : msg.Ended)
    (run : msg.init mem = .ok msg') : msg'.Ended := by
  rcases init_cases run with ⟨_, _, rfl⟩ | ⟨_, _, e, _, rfl⟩ | ⟨_, _, e, _, _, rfl⟩
  · exact ended
  · exact fun _ => ⟨e, rfl⟩
  · exact fun _ => ⟨e, rfl⟩

/-- `init` never clears `valid`. -/
theorem valid_init {mem : Mem} {msg msg' : FixMessage} (valid : msg.valid = true)
    (run : msg.init mem = .ok msg') : msg'.valid = true := by
  rcases init_cases run with ⟨_, _, rfl⟩ | ⟨_, _, _, _, rfl⟩ | ⟨_, _, _, _, _, rfl⟩
  · exact valid
  · exact valid
  · rfl

/-- `for ( auto &f : msg )`: the fields from `it` up to `stop`. -/
def walk (mem : Mem) (stop : FixFieldIterator) :
    Nat → FixFieldIterator → Except Fault (Option (List FixField))
  | 0, _ => .ok none
  | passes + 1, it =>
      if it.differs stop then do
        let later ← FixFieldIterator.next SOH mem it
        let fields ← walk mem stop passes later
        return fields.map (it.cur :: ·)
      else
        .ok (some [])

/-- `std::find( begin( ), end( ), tag )` from `it` on. -/
def findFrom (mem : Mem) (stop : FixFieldIterator) (tag : Int) :
    Nat → FixFieldIterator → Except Fault (Option FixFieldIterator)
  | 0, _ => .ok none
  | passes + 1, it =>
      if it.differs stop then
        if it.cur.tag = tag then .ok (some it)
        else do
          let later ← FixFieldIterator.next SOH mem it
          findFrom mem stop tag passes later
      else
        .ok (some it)

/-- The fields a range-based `for` over the message visits. -/
def fields (mem : Mem) (msg : FixMessage) (passes : Nat) : Except Fault (Option (List FixField)) :=
  walk mem msg.endIt passes msg.beginIt

/-- `fix_message_t::find`. -/
def find (mem : Mem) (msg : FixMessage) (tag : Int) (passes : Nat) :
    Except Fault (Option FixFieldIterator) :=
  findFrom mem msg.endIt tag passes msg.beginIt

end FixMessage

end OpenFix
