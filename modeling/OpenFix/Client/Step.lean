import Mathlib.Logic.Function.Basic
import OpenFix.Client.State
import OpenFix.Lib.Transition

/-!
# Steps of the client

One rule for each thing a thread does that another thread can see, in the order of the
source. A pop from an empty queue and a push onto a full one wait: they have no step.
`::poll`, `recv` and `send` may return anything they are documented to return.
-/

namespace OpenFix

namespace Client

/-- The steps of `poll( )`. -/
inductive PollAct : Type
  | error
  | events (pollIn pollOut : Bool)
  | leave
  | takeBuf
  | recv (data : List UInt8) (garbage : StackGarbage)
  | recvFail
  | handle
  | handled
  | release
  | popEmpty
  | popOut
  | send (ret : Nat)
  | sendFail
  | close
  deriving DecidableEq, Repr

/-- The steps of `consume_in` outside the `post_*` it calls. -/
inductive ConsumerAct : Type
  | loop
  | leave
  | popEmpty
  | pop
  | reply
  | logIn
  | pass
  | replied
  | onceDone
  | subscribe
  | onceEarly
  | subscribed
  | final
  deriving DecidableEq, Repr

/-- The steps of a `post_*`. -/
inductive PostAct : Type
  | start
  | takeBuf
  | create (len : Nat)
  | push
  deriving DecidableEq, Repr

inductive Act (ι : Type) : Type
  | poll (act : PollAct)
  | consumer (act : ConsumerAct)
  | post (thread : Option ι) (act : PostAct)

/-- A handler that has neither returned nor left defined behaviour. -/
def running : HandlerPc → Bool
  | .call => true
  | .loop _ => true
  | .returned _ => false
  | .faulted _ => false

/-- Behind the POLLIN branch: the POLLOUT branch, or the loop test. -/
def PollPc.afterIn (out : Bool) : PollPc := if out then .popOut else .top

def PollPc.afterRelease : AfterRelease → PollPc
  | .close => .closing
  | .out pollOut => .afterIn pollOut

variable {ι : Type}

/-- `tcp_client_impl::poll`. -/
inductive PollStep (P : Params) : State ι → PollAct → State ι → Prop
  /-- `::poll` fails, or reports POLLHUP. -/
  | error {s : State ι} : s.poll = .top → 0 < s.fd → PollStep P s .error { s with poll := .closing }
  | events {s : State ι} (pollIn pollOut : Bool) : s.poll = .top → 0 < s.fd →
    PollStep P s (.events pollIn pollOut)
      { s with poll := if pollIn then .getBuf pollOut else .afterIn pollOut }
  | leave {s : State ι} : s.poll = .top → ¬ 0 < s.fd → PollStep P s .leave { s with poll := .done }
  | takeBuf {s : State ι} {out : Bool} {b : Nat} {rest : List Nat} :
    s.poll = .getBuf out → s.pool = b :: rest →
    PollStep P s .takeBuf { s with pool := rest, poll := .read b out }
  | recv {s : State ι} {b : Nat} {out : Bool} (data : List UInt8) (garbage : StackGarbage) :
    s.poll = .read b out → 1 ≤ data.length → data.length ≤ P.bufSize →
    PollStep P s (.recv data garbage)
      { s with
        mem := Bytes.overwrite s.mem b data
        poll := .handle b data.length out garbage .call }
  | recvFail {s : State ι} {b : Nat} {out : Bool} : s.poll = .read b out →
    PollStep P s .recvFail { s with poll := .release b .close }
  /-- A step of the handler; a push waits for room. -/
  | handle {s : State ι} {b len : Nat} {out : Bool} {garbage : StackGarbage} {pc pc' : HandlerPc}
    {entry : Option FixMsg} : s.poll = .handle b len out garbage pc → running pc = true →
    FixHandler.step s.mem b len garbage pc = (pc', entry) →
    (entry ≠ none → s.inQueue.length < P.inSize) →
    PollStep P s .handle
      { s with
        inQueue := s.inQueue ++ entry.toList
        poll := .handle b len out garbage pc' }
  /-- The handler has returned. -/
  | handled {s : State ι} {b len : Nat} {out ret : Bool} {garbage : StackGarbage} :
    s.poll = .handle b len out garbage (.returned ret) →
    PollStep P s .handled
      { s with poll := if ret then .release b (.out out) else .afterIn out }
  | release {s : State ι} {b : Nat} {next : AfterRelease} : s.poll = .release b next →
    s.pool.length < P.bufpoolSize →
    PollStep P s .release { s with pool := s.pool ++ [b], poll := .afterRelease next }
  | popEmpty {s : State ι} : s.poll = .popOut → s.outgoing = [] →
    PollStep P s .popEmpty { s with poll := .top }
  | popOut {s : State ι} {msg : TcpMsg} {rest : List TcpMsg} :
    s.poll = .popOut → s.outgoing = msg :: rest →
    PollStep P s .popOut
      { s with outgoing := rest, popped := s.popped ++ [msg], poll := .send msg }
  /-- The socket accepts `ret` bytes, perhaps fewer than asked for. -/
  | send {s : State ι} {msg : TcpMsg} (ret : Nat) : s.poll = .send msg →
    1 ≤ ret → ret ≤ msg.len →
    PollStep P s (.send ret)
      { s with
        wire := s.wire ++ Bytes.slice s.mem msg.buf ret
        poll := .release msg.buf (.out false) }
  | sendFail {s : State ι} {msg : TcpMsg} : s.poll = .send msg →
    PollStep P s .sendFail { s with poll := .closing }
  | close {s : State ι} : s.poll = .closing →
    PollStep P s .close { s with fd := -1, poll := .done }

variable [DecidableEq ι]

/-- Thread `t` moves inside a `post_*`. -/
def State.setPosting (s : State ι) (t : Option ι) (pc : PostPc) : State ι :=
  { s with posting := Function.update s.posting t pc }

@[simp] theorem State.setPosting_posting (s : State ι) (t : Option ι) (pc : PostPc) :
    (s.setPosting t pc).posting t = pc :=
  Function.update_self ..

/-- `consume_in` with `fix_client::consume_fix_msg`. -/
inductive ConsumerStep (P : Params) : State ι → ConsumerAct → State ι → Prop
  | loop {s : State ι} : s.consumer = .top → 0 < s.fd →
    ConsumerStep P s .loop { s with consumer := .tryPop }
  | leave {s : State ι} : s.consumer = .top → ¬ 0 < s.fd →
    ConsumerStep P s .leave { s with consumer := .done }
  | popEmpty {s : State ι} : s.consumer = .tryPop → s.inQueue = [] →
    ConsumerStep P s .popEmpty { s with consumer := .top }
  | pop {s : State ι} {msg : FixMsg} {rest : List FixMsg} :
    s.consumer = .tryPop → s.inQueue = msg :: rest →
    ConsumerStep P s .pop { s with inQueue := rest, consumer := .dispatch msg }
  /-- Types `'0'` and `'1'`: `post_heartbeat( )`. -/
  | reply {s : State ι} {msg : FixMsg} : s.consumer = .dispatch msg →
    msg.type = 48 ∨ msg.type = 49 → s.posting none = .idle →
    ConsumerStep P s .reply
      ({ s with consumer := .reply msg }.setPosting none (.getBuf .heartbeat))
  /-- Type `'A'`. -/
  | logIn {s : State ι} {msg : FixMsg} : s.consumer = .dispatch msg → msg.type = 65 →
    ConsumerStep P s .logIn { s with session := .LoggedIn, consumer := .once msg }
  | pass {s : State ι} {msg : FixMsg} : s.consumer = .dispatch msg →
    msg.type ≠ 48 → msg.type ≠ 49 → msg.type ≠ 65 →
    ConsumerStep P s .pass { s with consumer := .once msg }
  | replied {s : State ι} {msg : FixMsg} : s.consumer = .reply msg → s.posting none = .idle →
    ConsumerStep P s .replied { s with consumer := .once msg }
  | onceDone {s : State ι} {msg : FixMsg} : s.consumer = .once msg → s.once = true →
    ConsumerStep P s .onceDone { s with consumer := .final msg }
  /-- The first message: the lambda runs, and posts when the session is logged in. -/
  | subscribe {s : State ι} {msg : FixMsg} : s.consumer = .once msg → s.once = false →
    s.session = .LoggedIn → s.posting none = .idle →
    ConsumerStep P s .subscribe
      ({ s with once := true, consumer := .subscribe msg }.setPosting none
        (.getBuf .marketRequest))
  | onceEarly {s : State ι} {msg : FixMsg} : s.consumer = .once msg → s.once = false →
    s.session ≠ .LoggedIn →
    ConsumerStep P s .onceEarly { s with once := true, consumer := .final msg }
  | subscribed {s : State ι} {msg : FixMsg} : s.consumer = .subscribe msg →
    s.posting none = .idle → ConsumerStep P s .subscribed { s with consumer := .final msg }
  | final {s : State ι} {msg : FixMsg} : s.consumer = .final msg →
    (msg.isFinal = true → s.pool.length < P.bufpoolSize) →
    ConsumerStep P s .final
      { s with
        pool := s.pool ++ if msg.isFinal then [msg.ptr] else []
        consumer := .top }

/-- `post_logon`, `post_heartbeat`, `post_market_request`. The null check behind `get_buf`
is dead code: `get_buf` waits. The writer does not look at `m_len`: a message that is longer
than its buffer goes on in the buffers behind it. -/
inductive PostStep (P : Params) : State ι → Option ι → PostAct → State ι → Prop
  | start {s : State ι} (i : ι) (kind : PostKind) : s.posting (some i) = .idle →
    PostStep P s (some i) .start (s.setPosting (some i) (.getBuf kind))
  | takeBuf {s : State ι} {t : Option ι} {kind : PostKind} {b : Nat} {rest : List Nat} :
    s.posting t = .getBuf kind → s.pool = b :: rest →
    PostStep P s t .takeBuf ({ s with pool := rest }.setPosting t (.create kind b))
  /-- `create_*` with its `next_seq( )`. There is no step behind the end of the allocation. -/
  | create {s : State ι} {t : Option ι} {kind : PostKind} {b : Nat} {bytes : List UInt8} :
    s.posting t = .create kind b → P.broker.creates kind s.seq bytes →
    b + bytes.length ≤ P.bufSize * P.bufpoolSize →
    PostStep P s t (.create bytes.length)
      ({ s with
        mem := Bytes.overwrite s.mem b bytes
        seq := wrap32 (s.seq + 1) }.setPosting t (.push ⟨b, bytes.length, kind, s.seq, bytes⟩))
  | push {s : State ι} {t : Option ι} {msg : TcpMsg} :
    s.posting t = .push msg → s.outgoing.length < P.outSize →
    PostStep P s t .push
      ({ s with
        outgoing := s.outgoing ++ [msg]
        posted := s.posted ++ [msg] }.setPosting t .idle)

/-- One step of any thread. -/
inductive Step (P : Params) : State ι → Act ι → State ι → Prop
  | poll {s s' : State ι} {act : PollAct} : PollStep P s act s' → Step P s (.poll act) s'
  | consumer {s s' : State ι} {act : ConsumerAct} :
    ConsumerStep P s act s' → Step P s (.consumer act) s'
  | post {s s' : State ι} {t : Option ι} {act : PostAct} :
    PostStep P s t act s' → Step P s (.post t act) s'

/-- A message that is created fits its buffer. -/
def Fits (P : Params) (_ : State ι) (act : Act ι) : Prop :=
  ∀ t len, act = .post t (.create len) → len ≤ P.bufSize

omit [DecidableEq ι] in
theorem fits_poll (P : Params) (s : State ι) (act : PollAct) : Fits P s (.poll act) := by
  intro t len same
  cases same

omit [DecidableEq ι] in
theorem fits_consumer (P : Params) (s : State ι) (act : ConsumerAct) :
    Fits P s (.consumer act) := by
  intro t len same
  cases same

end Client

end OpenFix
