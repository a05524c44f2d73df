import OpenFix.FixClient.Deframe

/-!
# What the entries of a buffer point at

`ptr` of an entry is the buffer to release behind the last message of a read, for every message
of the read. A consumer that parses from `ptr` sees the first message.
-/

namespace OpenFix

/-- A new message object at `ptr` comes to a message with this type and checksum. -/
def FixMsg.Finds (mem : Mem) (e : FixMsg) (type checksum : UInt8) : Prop :=
  ∀ garbage, ∃ msg, (FixMessage.new e.ptr garbage).init mem = .ok msg ∧ msg.valid = true ∧
    msg.type = type ∧ msg.checksum = checksum

theorem FixMsg.Finds.unique {mem : Mem} {e : FixMsg} {type type' checksum checksum' : UInt8}
    (finds : e.Finds mem type checksum) (finds' : e.Finds mem type' checksum') :
    type = type' ∧ checksum = checksum' := by
  obtain ⟨msg, parsed, -, rfl, rfl⟩ := finds ⟨0, 0⟩
  obtain ⟨msg', parsed', -, rfl, rfl⟩ := finds' ⟨0, 0⟩
  cases parsed.symm.trans parsed'
  exact ⟨rfl, rfl⟩

/-- What is found at a whole message. -/
theorem FixMsg.finds_wire {mem : Mem} {e : FixMsg} (m : WireMessage) {after : List UInt8}
    (bytes : mem.drop e.ptr = m.bytes ++ after) : e.Finds mem m.type m.checksum := by
  intro garbage
  obtain ⟨beginIt, -, parsed⟩ := FixMessage.init_frame (.new e.ptr garbage) bytes m.cleanBegin
    m.cleanType m.short m.checkLow m.checkHigh
  exact ⟨_, parsed, rfl, rfl, rfl⟩

namespace FixHandler

variable {mem : Mem} {buf len : Nat} {garbage : StackGarbage}

theorem mem_pushed_add {e : FixMsg} {k : Nat} (pushed : e ∈ (run mem buf len garbage k).2)
    (j : Nat) : e ∈ (run mem buf len garbage (k + j)).2 := by
  induction j with
  | zero => exact pushed
  | succ j ih => exact List.mem_append_left _ ih

/-- What is pushed before a call returns is among what it has pushed then. -/
theorem mem_pushed_of_returned {n k : Nat} {ret : Bool} {pushed : List FixMsg}
    (returned : run mem buf len garbage n = (.returned ret, pushed)) {e : FixMsg}
    (earlier : e ∈ (run mem buf len garbage k).2) : e ∈ pushed := by
  have later := mem_pushed_add earlier n
  rw [Nat.add_comm, run_returned returned k] at later
  exact later

theorem ptr_entriesOf {e : FixMsg} {messages : List (UInt8 × UInt8)}
    (member : e ∈ entriesOf buf messages) : e.ptr = buf := by
  induction messages with
  | nil => cases member
  | cons m later ih =>
      rcases List.mem_cons.mp member with rfl | member
      · rfl
      · exact ih member

/-- **Entries.** The entries of a buffer of whole messages have the types and checksums of its
messages, in order, and all point at the first message: an entry agrees with what it points at
exactly when the first message has its type and checksum. -/
theorem entries_wire (garbage : StackGarbage) (m : WireMessage) (messages : List WireMessage)
    (after : List UInt8)
    (bytes : mem.drop buf = (m :: messages).flatMap WireMessage.bytes ++ after) :
    (∃ n pushed, run mem buf ((m :: messages).flatMap WireMessage.bytes).length garbage n =
        (.returned false, pushed) ∧
      pushed.map (fun e => (e.type, e.checksum)) =
        (m :: messages).map fun m => (m.type, m.checksum)) ∧
    ∀ k, ∀ e ∈ (run mem buf ((m :: messages).flatMap WireMessage.bytes).length garbage k).2,
      e.ptr = buf ∧ e.Finds mem m.type m.checksum ∧
        (e.Finds mem e.type e.checksum ↔ e.type = m.type ∧ e.checksum = m.checksum) := by
  obtain ⟨n, returned⟩ := run_wire garbage (List.cons_ne_nil m messages) bytes
  refine ⟨⟨n, _, returned, map_entriesOf buf _⟩, fun k e pushed => ?_⟩
  have ptr := ptr_entriesOf (mem_pushed_of_returned returned pushed)
  have first : e.Finds mem m.type m.checksum := by
    rw [List.flatMap_cons, List.append_assoc, ← ptr] at bytes
    exact FixMsg.finds_wire m bytes
  refine ⟨ptr, first, fun own => own.unique first, ?_⟩
  rintro ⟨type, checksum⟩
  rw [type, checksum]
  exact first

/-- `8=F|9=5|35=A|10=079|`. -/
def logon : WireMessage where
  beginString := [70]
  type := 65
  typeRest := []
  rest := []
  check := 79
  cleanBegin := clean_beginString
  cleanType := clean_logon
  short := short_logon
  checkLow := by decide
  checkHigh := by decide

/-- A logon and a heartbeat in one buffer: at the entry of the heartbeat the logon is found. -/
theorem entries_wire_logon :
    (∃ n pushed, run ([logon, .heartbeat].flatMap WireMessage.bytes ++ []) 0
        ([logon, .heartbeat].flatMap WireMessage.bytes).length ⟨0, 0⟩ n =
        (.returned false, pushed) ∧
      pushed.map (fun e => (e.type, e.checksum)) = [(65, 79), (48, 62)]) ∧
    FixMsg.Finds ([logon, .heartbeat].flatMap WireMessage.bytes ++ []) ⟨48, 62, 0, true⟩ 65 79 := by
  have bytes : ([logon, .heartbeat].flatMap WireMessage.bytes ++ []).drop 0 =
      [logon, .heartbeat].flatMap WireMessage.bytes ++ [] := rfl
  obtain ⟨pushed, found⟩ := entries_wire ⟨0, 0⟩ logon [.heartbeat] [] bytes
  have member : ⟨48, 62, 0, true⟩ ∈ (run ([logon, .heartbeat].flatMap WireMessage.bytes ++ []) 0
      ([logon, .heartbeat].flatMap WireMessage.bytes).length ⟨0, 0⟩ 2).2 := by
    decide +kernel
  exact ⟨pushed, (found 2 _ member).2.1⟩

/-- The entry of the heartbeat points at the logon. -/
theorem not_entries_own :
    ¬ ∀ (mem : Mem) (buf : Nat) (garbage : StackGarbage) (messages : List WireMessage)
        (after : List UInt8), messages ≠ [] →
      mem.drop buf = messages.flatMap WireMessage.bytes ++ after →
      ∀ k, ∀ e ∈ (run mem buf (messages.flatMap WireMessage.bytes).length garbage k).2,
        e.Finds mem e.type e.checksum := by
  intro law
  let mem : Mem := [logon, .heartbeat].flatMap WireMessage.bytes
  have pushed : ⟨48, 62, 0, true⟩ ∈ (run mem 0 mem.length ⟨0, 0⟩ 2).2 := by decide +kernel
  have own := law mem 0 ⟨0, 0⟩ [logon, .heartbeat] [] (List.cons_ne_nil _ _)
    (List.append_nil _).symm 2 _ pushed
  have bytes : mem.drop 0 = logon.bytes ++ WireMessage.heartbeat.bytes := by decide +kernel
  exact absurd (own.unique (FixMsg.finds_wire logon bytes)).1 (by decide)

end FixHandler

end OpenFix
