import OpenFix.Client.Dispatch
import OpenFix.FixParse.Language

/-!
# The session state and the connection

`broker.state` is written by the constructor and by the consumer of a logon, and the socket
is closed and replaced elsewhere: by `poll( )` in three places and by `connect( )`. The runs
here begin with a new client, `connect( )` and `poll( )` are called one after the other on
one thread, and `consume_fix_msg` whenever its thread likes.

* `Track`: which connection each entry was read on, and the bytes it was read from.
* `FixHandler.type_of_push`: an entry has the type of the message just parsed, or that of the
  message before it in the same call.
* `Current.step`: what a lasting step keeps.
* `attached_of_lasting`: the law for every run of such steps.
-/

namespace OpenFix

/-! ## The types of the entries -/

namespace FixHandler

variable {mem : Mem} {b len : Nat} {garbage : StackGarbage}

/-- The type in the object is that of the message `init` finds, or it was there before. -/
theorem type_of_accept {msg msg' : FixMessage} (run : msg.init mem = .ok msg')
    (valid : msg'.valid = true) :
    (∃ l : Layout mem msg.begin_, l.msgType.char = msg'.type) ∨
      msg.valid = true ∧ msg.type = msg'.type := by
  have inits := msg.inits mem
  rw [run] at inits
  generalize framed : framing mem msg.begin_ = framing at inits
  cases inits with
  | message end_ beginIt endIt checksum type =>
      obtain ⟨l, -, -, step⟩ := framing_layout framed
      cases framed.symm.trans (l.framing_eq step)
      exact .inl ⟨l, rfl⟩
  | noField _ marked same => exact .inr ⟨marked.symm.trans valid, same.symm⟩
  | noTrailer _ marked same => exact .inr ⟨marked.symm.trans valid, same.symm⟩
  | malformed marked same => exact .inr ⟨marked.symm.trans valid, same.symm⟩

/-- The entry pushed by a step has the type of the message that stands where the handler parses,
or the one that the object had. -/
theorem type_of_push {pc pc' : HandlerPc} {e : FixMsg}
    (stepped : step mem b len garbage pc = (pc', some e)) :
    ∃ msg', pc' = .loop msg' ∧ msg'.type = e.type ∧
      ((∃ i, pc.position b (b + len) = some i ∧ ∃ l : Layout mem i, l.msgType.char = e.type) ∨
        ∃ msg, pc = .loop msg ∧ msg.type = e.type) := by
  cases stepped_of_step stepped with
  | call parsed =>
      cases parsed with
      | @accept msg' _ run valid _ =>
          rcases type_of_accept run valid with ⟨l, char⟩ | ⟨marked, -⟩
          · exact ⟨msg', rfl, rfl, .inl ⟨b, rfl, l, char⟩⟩
          · cases marked
  | @next msg _ _ i ends before parsed =>
      cases parsed with
      | @accept msg' _ run valid _ =>
          rcases type_of_accept run valid with ⟨l, char⟩ | ⟨-, same⟩
          · exact ⟨msg', rfl, rfl, .inl ⟨i, HandlerPc.position_loop ends before, l, char⟩⟩
          · exact ⟨msg', rfl, rfl, .inr ⟨msg, rfl, same⟩⟩

/-- A step without an entry leaves the loop. -/
theorem leaves_of_silent {pc pc' : HandlerPc} (stepped : step mem b len garbage pc = (pc', none))
    (msg : FixMessage) : pc' ≠ .loop msg := by
  cases stepped_of_step stepped with
  | call parsed => cases parsed with | _ => exact nofun
  | null _ => exact nofun
  | next i _ _ parsed => cases parsed with | _ => exact nofun
  | leave _ _ _ => exact nofun
  | returned ret => exact nofun
  | faulted fault => exact nofun

end FixHandler

namespace Client

open Transition (Reaches always)

variable {ι : Type}

/-- A new client: `m_fd` is -1, nothing is called yet. -/
def State.created (P : Params) (ι : Type) : State ι :=
  { State.connected P ι (-1) with
    poll := .done
    consumer := .done }

/-- What `connect( )` does: `getaddrinfo` fails and `m_fd` stays, no address accepts or an
option cannot be set and `m_fd` is -1, or the socket is connected. -/
inductive Connect : Type
  | unresolved
  | failed
  | connected (fd : Nat)
  deriving DecidableEq, Repr

inductive SessionAct (ι : Type) : Type
  | client (act : Act ι)
  | connect (outcome : Connect)
  /-- `poll( )` is called. -/
  | poll
  /-- `consume_fix_msg` is called. -/
  | consume

/-- An entry of `in_queue`, the connection it was read on, and the bytes received in its read
from where its message starts. -/
structure Arrival : Type where
  entry : FixMsg
  connection : Nat
  received : List UInt8

/-- The number of connections so far, the bytes of the last read, the entries the consumer has
still to react to, and those it has reacted to. -/
structure Track : Type where
  connection : Nat
  read : List UInt8
  waiting : List Arrival
  consumed : List Arrival

def Track.start : Track := ⟨0, [], [], []⟩

/-- The bytes of the last read, which went to the buffer `b`, from position `i` on. -/
def Track.received (track : Track) (b i : Nat) : List UInt8 :=
  if b ≤ i then track.read.drop (i - b) else []

/-- The bytes received from where `poll( )` parses next. -/
def Track.parsed (track : Track) : PollPc → List UInt8
  | .handle b len _ _ pc => ((pc.position b (b + len)).map (track.received b)).getD []
  | _ => []

/-- The consumer reacts to the first entry. -/
def Track.react (track : Track) : Track :=
  { track with
    waiting := track.waiting.tail
    consumed := track.consumed ++ track.waiting.head?.toList }

/-- Entries are read on the present connection: `poll( )` and `connect( )` take turns. -/
def Track.after (track : Track) (s : State ι) (act : Act ι) (s' : State ι) : Track :=
  match act with
  | .poll (.recv data _) => { track with read := data }
  | .poll .handle =>
      { track with
        waiting := track.waiting ++ (s'.inQueue.drop s.inQueue.length).map fun e =>
          ⟨e, track.connection, track.parsed s.poll⟩ }
  | .consumer act => if act.reaction.isSome then track.react else track
  | _ => track

/-- The bytes begin with a Logon: a FIX message whose MsgType is `"A"`. -/
def IsLogon (bytes : List UInt8) : Prop :=
  ∃ m : FramedMessage, m.msgType.value = [65] ∧ m.bytes <+: bytes

/-- A Logon that was received on this connection. -/
def Arrival.Logon (a : Arrival) (connection : Nat) : Prop :=
  a.connection = connection ∧ IsLogon a.received

variable [DecidableEq ι]

/-- A step in the life of a client. -/
inductive Lived (P : Params) : State ι × Track → SessionAct ι → State ι × Track → Prop
  | client {s s' : State ι} {track : Track} {act : Act ι} : Step P s act s' →
    Lived P (s, track) (.client act) (s', track.after s act s')
  | unresolved {s : State ι} {track : Track} : s.poll = .done →
    Lived P (s, track) (.connect .unresolved) (s, track)
  | failed {s : State ι} {track : Track} : s.poll = .done →
    Lived P (s, track) (.connect .failed) ({ s with fd := -1 }, track)
  | connected {s : State ι} {track : Track} (fd : Nat) : s.poll = .done →
    Lived P (s, track) (.connect (.connected fd))
      ({ s with fd := fd }, { track with connection := track.connection + 1 })
  | poll {s : State ι} {track : Track} : s.poll = .done →
    Lived P (s, track) .poll ({ s with poll := .top }, track)
  | consume {s : State ι} {track : Track} : s.consumer = .top ∨ s.consumer = .done →
    Lived P (s, track) .consume ({ s with consumer := .tryPop }, track)

/-- The session state tracks the connection. -/
def Attached (s : State ι) (track : Track) : Prop :=
  s.session = .LoggedIn → 0 < s.fd ∧ ∃ a ∈ track.consumed, a.Logon track.connection

/-! ## Steps that last -/

/-- The socket goes, or another one takes its place. -/
def SessionAct.replaces : SessionAct ι → Bool
  | .client (.poll .close) => true
  | .connect .failed => true
  | .connect (.connected _) => true
  | _ => false

/-- The session is logged in, or an entry that will log it in is on its way to the consumer. -/
def LoggingIn (s : State ι) : Prop :=
  s.session = .LoggedIn ∨ ∃ e ∈ s.consumer.dispatching ++ s.inQueue, e.type = 65

/-- No socket goes while a logon of it is around; and where the handler parses a message whose
MsgType begins with `'A'`, the bytes received have a Logon. -/
structure Lasting (x : State ι × Track) (act : SessionAct ι) : Prop where
  stays : act.replaces = true → ¬ LoggingIn x.1
  logons : act = .client (.poll .handle) →
    ∀ b len out garbage pc i, x.1.poll = .handle b len out garbage pc →
      pc.position b (b + len) = some i →
        ∀ l : Layout x.1.mem i, l.msgType.value.head? = some 65 → IsLogon (x.2.received b i)

/-! ## What lasts -/

/-- Each entry of type `'A'` that waits is a Logon or waits behind one; `before` are the entries
in front. -/
def Led (connection : Nat) : List Arrival → List Arrival → Prop
  | _, [] => True
  | before, a :: waiting =>
      (a.entry.type = 65 → ∃ l ∈ before ++ [a], l.Logon connection) ∧
        Led connection (before ++ [a]) waiting

theorem led_of_none {connection : Nat} {before waiting : List Arrival}
    (none_ : ∀ a ∈ waiting, a.entry.type ≠ 65) : Led connection before waiting := by
  induction waiting generalizing before with
  | nil => trivial
  | cons a waiting ih =>
      refine ⟨fun type => (none_ a List.mem_cons_self type).elim, ih ?_⟩
      intro later member
      exact none_ later (List.mem_cons_of_mem a member)

theorem Led.append {connection : Nat} {before waiting : List Arrival} {a : Arrival}
    (led : Led connection before waiting)
    (behind : a.entry.type = 65 → ∃ l ∈ before ++ waiting ++ [a], l.Logon connection) :
    Led connection before (waiting ++ [a]) := by
  induction waiting generalizing before with
  | nil =>
      rw [List.append_nil] at behind
      exact ⟨behind, trivial⟩
  | cons first waiting ih =>
      refine ⟨led.1, ih led.2 ?_⟩
      rw [List.append_assoc before]
      exact behind

/-- `poll( )` works on the socket. -/
def PollPc.inside : PollPc → Bool
  | .top => false
  | .done => false
  | _ => true

/-- The object of the handler has the type `'A'`. -/
def PollPc.marked : PollPc → Bool
  | .handle _ _ _ _ (.loop msg) => msg.type = 65
  | _ => false

/-- What holds of a run of lasting steps. -/
structure Current (s : State ι) (track : Track) : Prop where
  entries : track.waiting.map (·.entry) = s.consumer.dispatching ++ s.inQueue
  inside : s.poll.inside = true → 0 < s.fd
  open_ : ∀ a ∈ track.waiting, a.entry.type = 65 → 0 < s.fd
  led : Led track.connection track.consumed track.waiting
  marked : s.poll.marked = true →
    ∃ a ∈ track.consumed ++ track.waiting, a.Logon track.connection
  attached : Attached s track

variable {P : Params} {s s' : State ι} {track : Track}

theorem marked_afterIn (out : Bool) : (PollPc.afterIn out).marked = false := by
  cases out
  · rfl
  · rfl

theorem marked_afterRelease (next : AfterRelease) : (PollPc.afterRelease next).marked = false := by
  cases next with
  | close => rfl
  | out pollOut => exact marked_afterIn pollOut

omit [DecidableEq ι] in
/-- Neither the entries nor the socket nor the session state changes. -/
theorem Current.move (current : Current s track)
    (entries : s'.consumer.dispatching ++ s'.inQueue = s.consumer.dispatching ++ s.inQueue)
    (same : s'.fd = s.fd ∧ s'.session = s.session) (inside : s'.poll.inside = true → 0 < s.fd)
    (marked : s'.poll.marked = true → s.poll.marked = true) : Current s' track := by
  refine ⟨current.entries.trans entries.symm, ?_, ?_, current.led,
    fun type => current.marked (marked type), ?_⟩
  · rw [same.1]
    exact inside
  · rw [same.1]
    exact current.open_
  · unfold Attached
    rw [same.1, same.2]
    exact current.attached

omit [DecidableEq ι] in
theorem Current.read (current : Current s track) (data : List UInt8) :
    Current s { track with read := data } :=
  ⟨current.entries, current.inside, current.open_, current.led, current.marked, current.attached⟩

omit [DecidableEq ι] in
/-- Another socket, or none, when no logon is around. -/
theorem Current.replace (current : Current s track) (none_ : ¬ LoggingIn s)
    (same : s'.consumer = s.consumer ∧ s'.inQueue = s.inQueue ∧ s'.session = s.session)
    (outside : s'.poll.inside = false ∧ s'.poll.marked = false) (connection : Nat) :
    Current s' { track with connection } := by
  have others : ∀ a ∈ track.waiting, a.entry.type ≠ 65 := by
    intro a member type
    have around : a.entry ∈ s.consumer.dispatching ++ s.inQueue := by
      rw [← current.entries]
      exact List.mem_map_of_mem member
    exact none_ (.inr ⟨a.entry, around, type⟩)
  refine ⟨?_, ?_, ?_, led_of_none others, ?_, ?_⟩
  · rw [same.1, same.2.1]
    exact current.entries
  · intro inside
    cases outside.1.symm.trans inside
  · intro a member type
    exact (others a member type).elim
  · intro marked
    cases outside.2.symm.trans marked
  · intro session
    rw [same.2.2] at session
    exact (none_ (.inl session)).elim

omit [DecidableEq ι] in
/-- A step of the handler. -/
theorem Current.handle (current : Current s track) {b len : Nat} {out : Bool}
    {garbage : StackGarbage} {pc pc' : HandlerPc} {entry : Option FixMsg}
    (at_ : s.poll = .handle b len out garbage pc)
    (handler : FixHandler.step s.mem b len garbage pc = (pc', entry))
    (logons : ∀ i, pc.position b (b + len) = some i →
      ∀ l : Layout s.mem i, l.msgType.value.head? = some 65 → IsLogon (track.received b i)) :
    Current { s with inQueue := s.inQueue ++ entry.toList, poll := .handle b len out garbage pc' }
      { track with
        waiting := track.waiting ++ entry.toList.map fun e =>
          ⟨e, track.connection, track.parsed s.poll⟩ } := by
  have socket : 0 < s.fd := current.inside (by rw [at_]; rfl)
  cases entry with
  | none =>
      have leaves := FixHandler.leaves_of_silent handler
      have unmarked : (PollPc.handle b len out garbage pc').marked = false := by
        cases pc' with
        | loop msg => exact (leaves msg rfl).elim
        | _ => rfl
      simp only [Option.toList_none, List.map_nil, List.append_nil]
      refine current.move rfl ⟨rfl, rfl⟩ (fun _ => socket) ?_
      intro marked
      cases unmarked.symm.trans marked
  | some e =>
      obtain ⟨msg', rfl, type', source⟩ := FixHandler.type_of_push handler
      -- an entry of type `'A'` is a Logon, or the object had the type before
      have behind (type : e.type = 65) :
          ∃ l ∈ track.consumed ++ track.waiting ++
            [(⟨e, track.connection, track.parsed s.poll⟩ : Arrival)], l.Logon track.connection := by
        rcases source with ⟨i, position, l, char⟩ | ⟨msg, rfl, same⟩
        · have head : l.msgType.value.head? = some 65 := by
            rw [type, TextField.char] at char
            cases value : l.msgType.value with
            | nil =>
                rw [value] at char
                exact absurd char (by decide)
            | cons c later =>
                rw [value] at char
                exact congrArg some char
          refine ⟨_, List.mem_append_right _ (List.mem_singleton_self _), rfl, ?_⟩
          simp only [Track.parsed, at_, position, Option.map_some, Option.getD_some]
          exact logons i position l head
        · have marked : s.poll.marked = true := by
            rw [at_]
            exact decide_eq_true (same.trans type)
          obtain ⟨l, member, logon⟩ := current.marked marked
          exact ⟨l, List.mem_append_left _ member, logon⟩
      refine ⟨?_, fun _ => socket, fun _ _ _ => socket, current.led.append behind, ?_,
        current.attached⟩
      · simp only [Option.toList_some, List.map_append, List.map_singleton, current.entries,
          List.append_assoc]
      · intro marked
        rw [← List.append_assoc]
        exact behind (type'.symm.trans (of_decide_eq_true marked))

omit [DecidableEq ι] in
theorem PollStep.current {act : PollAct} (current : Current s track)
    (lasting : Lasting (s, track) (.client (.poll act) : SessionAct ι))
    (stepped : PollStep P s act s') : Current s' (track.after s (.poll act) s') := by
  have open_ {poll : PollPc} (at_ : s.poll = poll) (inside : poll.inside = true) : 0 < s.fd :=
    current.inside (by rw [at_, inside])
  have same : s.fd = s.fd ∧ s.session = s.session := ⟨rfl, rfl⟩
  -- behind the handler the object is gone
  have move {s'' : State ι}
      (entries : s''.consumer.dispatching ++ s''.inQueue = s.consumer.dispatching ++ s.inQueue)
      (same : s''.fd = s.fd ∧ s''.session = s.session) (inside : s''.poll.inside = true → 0 < s.fd)
      (unmarked : s''.poll.marked = false) : Current s'' track := by
    refine current.move entries same inside ?_
    intro marked
    cases unmarked.symm.trans marked
  cases stepped with
  | error at_ socket => exact move rfl same (fun _ => socket) rfl
  | events pollIn pollOut at_ socket =>
      refine move rfl same (fun _ => socket) ?_
      cases pollIn
      · exact marked_afterIn pollOut
      · rfl
  | leave at_ _ => exact move rfl same (by intro inside; cases inside) rfl
  | takeBuf at_ _ => exact move rfl same (fun _ => open_ at_ rfl) rfl
  | recv data garbage at_ _ _ =>
      refine Current.read ?_ data
      exact move rfl same (fun _ => open_ at_ rfl) rfl
  | recvFail at_ => exact move rfl same (fun _ => open_ at_ rfl) rfl
  | @handle b len out garbage pc pc' entry at_ runs handler room =>
      simp only [Track.after, List.drop_left]
      refine current.handle at_ handler ?_
      intro i position
      exact lasting.logons rfl b len out garbage pc i at_ position
  | @handled b len out ret garbage at_ =>
      refine move rfl same (fun _ => open_ at_ rfl) ?_
      cases ret
      · exact marked_afterIn out
      · rfl
  | release at_ _ => exact move rfl same (fun _ => open_ at_ rfl) (marked_afterRelease _)
  | popEmpty at_ _ => exact move rfl same (fun _ => open_ at_ rfl) rfl
  | popOut at_ _ => exact move rfl same (fun _ => open_ at_ rfl) rfl
  | send ret at_ _ _ => exact move rfl same (fun _ => open_ at_ rfl) rfl
  | sendFail at_ => exact move rfl same (fun _ => open_ at_ rfl) rfl
  | close at_ =>
      refine current.replace (lasting.stays rfl) ?_ ?_ track.connection
      · exact ⟨rfl, rfl, rfl⟩
      · exact ⟨rfl, rfl⟩

omit [DecidableEq ι] in
/-- The consumer reacts to the entry it has. -/
theorem Current.react (current : Current s track) {e : FixMsg}
    (at_ : s.consumer = .dispatch e) (done : s'.consumer.dispatching = [])
    (same : s'.fd = s.fd ∧ s'.inQueue = s.inQueue ∧ s'.poll = s.poll)
    (session : s'.session = .LoggedIn → s.session = .LoggedIn ∨ e.type = 65) :
    Current s' track.react := by
  have entries := current.entries
  rw [at_, ConsumerPc.dispatching, List.singleton_append] at entries
  obtain ⟨first, rest, waiting⟩ := List.exists_cons_of_ne_nil (l := track.waiting) (by
    intro empty
    rw [empty] at entries
    cases entries)
  have reacted : track.react =
      { track with waiting := rest, consumed := track.consumed ++ [first] } := by
    rw [Track.react, waiting]
    rfl
  have led := current.led
  rw [waiting] at led
  rw [waiting, List.map_cons] at entries
  injection entries with head tail
  rw [reacted]
  refine ⟨?_, ?_, ?_, led.2, ?_, ?_⟩
  · rw [done, same.2.1]
    exact tail
  · rw [same.1, same.2.2]
    exact current.inside
  · rw [same.1]
    intro a member
    exact current.open_ a (by rw [waiting]; exact List.mem_cons_of_mem first member)
  · rw [same.2.2, List.append_assoc]
    intro marked
    have around := current.marked marked
    rw [waiting] at around
    exact around
  · intro logged
    rw [same.1]
    rcases session logged with before | type
    · obtain ⟨socket, a, member, logon⟩ := current.attached before
      exact ⟨socket, a, List.mem_append_left _ member, logon⟩
    · have type' : first.entry.type = 65 := by rw [head, type]
      exact ⟨current.open_ first (by rw [waiting]; exact List.mem_cons_self) type', led.1 type'⟩

theorem ConsumerStep.current {act : ConsumerAct} (current : Current s track)
    (stepped : ConsumerStep P s act s') : Current s' (track.after s (.consumer act) s') := by
  have same : s.fd = s.fd ∧ s.session = s.session := ⟨rfl, rfl⟩
  have moved : s.fd = s.fd ∧ s.inQueue = s.inQueue ∧ s.poll = s.poll := ⟨rfl, rfl, rfl⟩
  have move {s'' : State ι}
      (entries : s''.consumer.dispatching ++ s''.inQueue = s.consumer.dispatching ++ s.inQueue)
      (same : s''.fd = s.fd ∧ s''.session = s.session) (polls : s''.poll = s.poll) :
      Current s'' track := by
    refine current.move entries same ?_ ?_
    · rw [polls]
      exact current.inside
    · rw [polls]
      exact id
  cases stepped with
  | loop at_ _ => exact move (by rw [at_]; rfl) same rfl
  | leave at_ _ => exact move (by rw [at_]; rfl) same rfl
  | popEmpty at_ _ => exact move (by rw [at_]; rfl) same rfl
  | pop at_ queue => exact move (by rw [at_, queue]; rfl) same rfl
  | reply at_ _ _ => exact current.react at_ rfl moved .inl
  | logIn at_ type => exact current.react at_ rfl moved fun _ => .inr type
  | pass at_ _ _ _ => exact current.react at_ rfl moved .inl
  | replied at_ _ => exact move (by rw [at_]; rfl) same rfl
  | onceDone at_ _ => exact move (by rw [at_]; rfl) same rfl
  | subscribe at_ _ _ _ => exact move (by rw [at_]; rfl) same rfl
  | onceEarly at_ _ _ => exact move (by rw [at_]; rfl) same rfl
  | subscribed at_ _ => exact move (by rw [at_]; rfl) same rfl
  | final at_ _ => exact move (by rw [at_]; rfl) same rfl

theorem PostStep.current {t : Option ι} {act : PostAct} (current : Current s track)
    (stepped : PostStep P s t act s') : Current s' (track.after s (.post t act) s') := by
  cases stepped with
  | _ => exact current.move rfl ⟨rfl, rfl⟩ current.inside id

/-- A lasting step. -/
theorem Current.step {act : SessionAct ι} {track' : Track} (current : Current s track)
    (lasting : Lasting (s, track) act) (lived : Lived P (s, track) act (s', track')) :
    Current s' track' := by
  cases lived with
  | @client _ _ _ act stepped =>
      cases stepped with
      | poll stepped => exact stepped.current current lasting
      | consumer stepped => exact stepped.current current
      | post stepped => exact stepped.current current
  | unresolved at_ => exact current
  | failed at_ =>
      refine current.replace (lasting.stays rfl) ?_ ?_ track.connection
      · exact ⟨rfl, rfl, rfl⟩
      · exact ⟨congrArg PollPc.inside at_, congrArg PollPc.marked at_⟩
  | connected fd at_ =>
      refine current.replace (lasting.stays rfl) ?_ ?_ (track.connection + 1)
      · exact ⟨rfl, rfl, rfl⟩
      · exact ⟨congrArg PollPc.inside at_, congrArg PollPc.marked at_⟩
  | poll at_ =>
      exact current.move rfl ⟨rfl, rfl⟩ (by intro inside; cases inside)
        (by intro marked; cases marked)
  | consume at_ =>
      refine current.move ?_ ⟨rfl, rfl⟩ current.inside id
      rcases at_ with at_ | at_
      · rw [at_]
        rfl
      · rw [at_]
        rfl

/-- **Session state.** In every run of a client in which no socket is closed or replaced while a
logon of it is consumed or waits, and each message that is parsed for a logon is one as it was
received, `LoggedIn` means an open socket and a Logon consumed that was received on the present
connection. -/
theorem attached_of_lasting (P : Params) (s : State ι) (track : Track)
    (reaches : Reaches (Lived P) Lasting (State.created P ι, .start) (s, track)) :
    Attached s track := by
  have start : Current (State.created P ι) .start :=
    ⟨rfl, nofun, nofun, trivial, nofun, nofun⟩
  have current : Current s track := by
    refine reaches.invariant (I := fun x => Current x.1 x.2) start ?_
    intro x act x' _ current lasting lived
    exact current.step lasting lived
  exact current.attached

/-! ## A logon -/

omit [DecidableEq ι] in
/-- A step that leaves the socket alone and parses nothing. -/
theorem lasting_of_quiet {x : State ι × Track} {act : SessionAct ι} (stays : act.replaces = false)
    (quiet : act ≠ .client (.poll .handle)) : Lasting x act := by
  constructor
  · intro replaces
    cases stays.symm.trans replaces
  · intro parses
    exact (quiet parses).elim

omit [DecidableEq ι] in
/-- The bytes that are parsed begin with a Logon. -/
theorem lasting_of_logon {b len : Nat} {out : Bool} {garbage : StackGarbage} {pc : HandlerPc}
    {i : Nat} (at_ : s.poll = .handle b len out garbage pc)
    (position : pc.position b (b + len) = some i) (logon : IsLogon (track.received b i)) :
    Lasting (s, track) (.client (.poll .handle) : SessionAct ι) := by
  constructor
  · intro replaces
    cases replaces
  · intro _ b' len' out' garbage' pc' i' at_' position' _ _
    cases at_.symm.trans at_'
    cases position.symm.trans position'
    exact logon

/-- A step of the client that leaves the socket alone and parses nothing. -/
theorem lived_next {x : State ι × Track} {act : Act ι}
    (reaches : Reaches (Lived P) Lasting x (s, track))
    (stays : SessionAct.replaces (.client act) = false)
    (quiet : SessionAct.client act ≠ .client (.poll .handle))
    (stepped : Step P s act s') : Reaches (Lived P) Lasting x (s', track.after s act s') :=
  reaches.next (lasting_of_quiet stays quiet) (.client stepped)

/-- The bytes of `logon` are a FIX message with MsgType `"A"`. -/
theorem isLogon_logon : IsLogon logon.bytes := by
  let m : FramedMessage :=
    { beginString := ⟨[56], [70], by decide +kernel, by decide, by decide +kernel⟩
      bodyLength := ⟨[57], [53], by decide +kernel, by decide, by decide +kernel⟩
      msgType := ⟨[51, 53], [65], by decide +kernel, by decide, by decide +kernel⟩
      rest := []
      checkSum := ⟨[49, 48], [48, 55, 57], by decide +kernel, by decide, by decide +kernel⟩
      tag8 := by decide +kernel
      tag9 := by decide +kernel
      tag35 := by decide +kernel
      tag10 := by decide +kernel
      counted := by decide +kernel
      delimited := by decide +kernel }
  have same : m.bytes = logon.bytes := by decide +kernel
  exact ⟨m, rfl, same ▸ List.prefix_refl _⟩

/-- A client connects, and the logon it reads is consumed. -/
theorem logon_run :
    ∃ (s : State Empty) (track : Track) (msg : FixMessage) (len : Nat),
      Reaches (Lived Lmax.sample.fixTcpClient) Lasting
        (State.created Lmax.sample.fixTcpClient Empty, .start) (s, track) ∧
      s.session = .LoggedIn ∧ s.fd = 3 ∧ s.poll = .handle 0 len false ⟨0, 0⟩ (.loop msg) ∧
      msg.end_ = some len := by
  have small : logon.bytes.length ≤ 2048 := by decide +kernel
  have open_ : (0 : Int) < 3 := by decide
  have room : 0 < 64 := by decide
  have content : (Bytes.overwrite (List.replicate (2048 * 64) 0) 0 logon.bytes).drop
      (FixMessage.new 0 ⟨0, 0⟩).begin_ =
        logon.bytes ++ (List.replicate (2048 * 64) 0).drop (0 + logon.bytes.length) := rfl
  obtain ⟨msg, ends, parsed⟩ := FixHandler.parse_wire 0 logon.bytes.length logon content
  have nothing : ¬ LoggingIn (State.created Lmax.sample.fixTcpClient Empty) := by
    intro around
    rcases around with logged | ⟨e, member, -⟩
    · cases logged
    · cases member
  have connected : Reaches (Lived Lmax.sample.fixTcpClient) Lasting
      (State.created Lmax.sample.fixTcpClient Empty, Track.start) _ :=
    Reaches.start.next (a := .connect (.connected 3)) ⟨fun _ => nothing, nofun⟩ (.connected 3 rfl)
  have called := connected.next (a := .poll) (lasting_of_quiet rfl nofun) (.poll rfl)
  have polled := lived_next called rfl (by intro same; cases same)
    (.poll (.events true false rfl open_))
  have taken := lived_next polled rfl (by intro same; cases same) (.poll (.takeBuf rfl rfl))
  have received := lived_next taken rfl (by intro same; cases same)
    (.poll (.recv logon.bytes ⟨0, 0⟩ rfl logon.bytes_length_pos small))
  have pushed := received.next (lasting_of_logon rfl rfl isLogon_logon)
    (.client (.poll (.handle rfl rfl parsed fun _ => room)))
  have consuming := pushed.next (a := .consume) (lasting_of_quiet rfl nofun) (.consume (.inr rfl))
  have popped := lived_next consuming rfl (by intro same; cases same) (.consumer (.pop rfl rfl))
  have consumed := lived_next popped rfl (by intro same; cases same) (.consumer (.logIn rfl rfl))
  exact ⟨_, _, msg, logon.bytes.length, consumed, rfl, rfl, rfl, ends.trans (by rfl)⟩

/-- Behind the logon the session is attached. -/
theorem attached_of_lasting_logon :
    ∃ (s : State Empty) (track : Track), s.session = .LoggedIn ∧ Attached s track := by
  obtain ⟨s, track, msg, len, reaches, session, -⟩ := logon_run
  exact ⟨s, track, session, attached_of_lasting Lmax.sample.fixTcpClient s track reaches⟩

/-- The server hangs up behind the logon: the socket is closed, the session state stays. -/
theorem not_attached_hangup :
    ¬ ∀ (s : State Empty) (track : Track),
      Reaches (Lived Lmax.sample.fixTcpClient) always
        (State.created Lmax.sample.fixTcpClient Empty, .start) (s, track) → Attached s track := by
  intro law
  obtain ⟨s, track, msg, len, reaches, session, fd, at_, ends⟩ := logon_run
  have left : FixHandler.step s.mem 0 len ⟨0, 0⟩ (.loop msg) = (.returned false, none) :=
    FixHandler.step_reached ends (by omega)
  have consumed : Reaches (Lived Lmax.sample.fixTcpClient) always _ (s, track) :=
    reaches.mono fun _ _ _ => trivial
  have returned := consumed.step
    (.client (.poll (.handle at_ rfl left fun some_ => (some_ rfl).elim)))
  have topped := returned.step (.client (.poll (.handled rfl)))
  have hungUp := topped.step (.client (.poll (.error rfl (by rw [fd]; decide))))
  have closed := hungUp.step (.client (.poll (.close rfl)))
  have open_ : (0 : Int) < -1 := (law _ _ closed session).1
  exact absurd open_ (by decide)

end Client

end OpenFix
