import OpenFix.Lib.Transition
import OpenFix.Server.State

/-!
# Steps of the server

One rule for each way through a branch of `tcp_server_impl::run`, in the order of the source,
and one for a thread that calls `post`. A pop from the empty pool and a push onto a full queue
wait: they have no step. `poll`, `accept`, `read` and `write` may return anything they are
documented to return; on a descriptor that is not open `poll` reports none of the three
events, and `read` and `write` fail.
-/

namespace OpenFix

namespace Server

/-- What `poll` may report for an entry. -/
def Reports (sockets : List Int) (entry : PollFd) (revents : Events) : Prop :=
  (revents.pollIn = true → entry.events.pollIn = true ∧ entry.fd ∈ sockets) ∧
    (revents.pollOut = true → entry.events.pollOut = true ∧ entry.fd ∈ sockets) ∧
    (revents.pollHup = true → entry.fd ∈ sockets)

instance (sockets : List Int) (entry : PollFd) (revents : Events) :
    Decidable (Reports sockets entry revents) :=
  inferInstanceAs (Decidable (_ ∧ _ ∧ _))

/-- The entries behind a `poll` that reports `revents`. -/
def reported (pollfds : List PollFd) (revents : List Events) : List PollFd :=
  List.zipWith (fun entry revents => { entry with revents }) pollfds revents

/-- The slots the loop over the clients visits. -/
def slots (pollfds stale : List PollFd) : List PollFd := pollfds ++ stale

inductive Act : Type
  | leave
  | pollError
  | pollNone
  | poll (revents : List Events)
  | scanEnd
  | hangUp
  | accept (fd : Int)
  | acceptFail
  | readable
  | unreadable
  | takeBuf
  | read (data : List UInt8)
  | readFail
  | push
  | handled
  | release
  | unwritable
  | popEmpty
  | popBroadcast
  | popAccept
  | popFilter
  | write
  | writeFail
  | broadcastEnd
  | listener
  | accepted
  | filter
  | writeTo
  | writeToFail
  | eraseEnd
  | post (msg : TaggedTcpMsg)
  deriving DecidableEq, Repr

variable {η : Type}

/-- `m_pollfds.erase( it )`. -/
def State.erase (s : State η) (i : Nat) : State η := { s with pollfds := s.pollfds.eraseIdx i }

/-- The slots behind `end( )` after that. -/
def staleBehind (pollfds stale : List PollFd) : List PollFd := pollfds.getLast?.toList ++ stale

def State.goto (s : State η) (pc : Pc) : State η := { s with pc }

def State.emit (s : State η) (event : Event) : State η := { s with log := event :: s.log }

/-- `tcp_server_impl::run`, and `post` of another thread. -/
inductive Step (H : Handler η) (P : Params) : State η → Act → State η → Prop
  | leave {s : State η} : s.pc = .top → s.pollfds = [] → Step H P s .leave (s.goto .done)
  | pollError {s : State η} : s.pc = .top → s.pollfds ≠ [] → Step H P s .pollError (s.goto .done)
  | pollNone {s : State η} : s.pc = .top → s.pollfds ≠ [] → Step H P s .pollNone s
  | poll {s : State η} (revents : List Events) : s.pc = .top →
    List.Forall₂ (Reports s.sockets) s.pollfds revents →
    Step H P s (.poll revents) { s with pollfds := reported s.pollfds revents, pc := .scan 0 }
  | scanEnd {s : State η} {i : Nat} : s.pc = .scan i → s.pollfds.length ≤ i →
    Step H P s .scanEnd (s.goto .top)
  | hangUp {s : State η} {i : Nat} {c : PollFd} : s.pc = .scan i → s.pollfds[i]? = some c →
    c.revents.pollHup = true →
    Step H P s .hangUp
      ((({ s with handler := H.onDisconnect s.handler c.fd }.emit (.disconnect c.fd)).close
        c.fd).erase i |>.goto .top)
  /-- `accept` returns a descriptor that is not in use. -/
  | accept {s : State η} {i : Nat} {c : PollFd} (fd : Int) : s.pc = .scan i →
    s.pollfds[i]? = some c → c.revents.pollHup = false → c.revents.pollIn = true → c.fd = P.fd →
    P.fd ∈ s.sockets → 0 ≤ fd → fd ∉ s.sockets →
    Step H P s (.accept fd)
      { s with
        pollfds := s.pollfds ++ [⟨fd, ⟨true, true, true⟩, .none⟩]
        sockets := s.sockets ++ [fd]
        handler := H.onConnect s.handler fd
        log := .connect fd :: .accept fd :: s.log
        pc := .top }
  | acceptFail {s : State η} {i : Nat} {c : PollFd} : s.pc = .scan i → s.pollfds[i]? = some c →
    c.revents.pollHup = false → c.revents.pollIn = true → c.fd = P.fd →
    Step H P s .acceptFail (s.goto (.scan (i + 1)))
  | readable {s : State η} {i : Nat} {c : PollFd} : s.pc = .scan i → s.pollfds[i]? = some c →
    c.revents.pollHup = false → c.revents.pollIn = true → c.fd ≠ P.fd →
    Step H P s .readable (s.goto (.getBuf i))
  | unreadable {s : State η} {i : Nat} {c : PollFd} : s.pc = .scan i → s.pollfds[i]? = some c →
    c.revents.pollHup = false → c.revents.pollIn = false →
    Step H P s .unreadable (s.goto (.out i))
  | takeBuf {s : State η} {i b : Nat} {rest : List Nat} : s.pc = .getBuf i →
    s.bufpool = b :: rest → Step H P s .takeBuf { s with bufpool := rest, pc := .read i b }
  | read {s : State η} {i b : Nat} {c : PollFd} {handler : η} {posts : List TaggedTcpMsg}
    {ret : Bool} (data : List UInt8) : s.pc = .read i b → s.pollfds[i]? = some c →
    c.fd ∈ s.sockets → 1 ≤ data.length → data.length ≤ P.bufSize →
    H.onRead s.handler c.fd b data = (handler, posts, ret) →
    Step H P s (.read data)
      { s with
        bufs := Function.update s.bufs b (data ++ (s.bufs b).drop data.length)
        handler := handler
        log := .read c.fd b data :: s.log
        pc := .onRead i b posts ret }
  | readFail {s : State η} {i b : Nat} {c : PollFd} : s.pc = .read i b →
    s.pollfds[i]? = some c →
    Step H P s .readFail (((s.close c.fd).erase i).goto (.release b .top))
  /-- A `post` of the handler. -/
  | push {s : State η} {i b : Nat} {msg : TaggedTcpMsg} {rest : List TaggedTcpMsg} {ret : Bool} :
    s.pc = .onRead i b (msg :: rest) ret → s.outQueue.length < P.outSize →
    Step H P s .push { s with outQueue := s.outQueue ++ [msg], pc := .onRead i b rest ret }
  | handled {s : State η} {i b : Nat} {ret : Bool} : s.pc = .onRead i b [] ret →
    Step H P s .handled (s.goto (if ret then .release b (.out i) else .out i))
  | release {s : State η} {b : Nat} {next : After} : s.pc = .release b next →
    s.bufpool.length < P.bufPoolSize →
    Step H P s .release
      { s with bufpool := s.bufpool ++ [b], pc := next.pc, log := .release b :: s.log }
  | unwritable {s : State η} {i : Nat} {c : PollFd} : s.pc = .out i → s.pollfds[i]? = some c →
    c.revents.pollOut = false → Step H P s .unwritable (s.goto (.scan (i + 1)))
  | popEmpty {s : State η} {i : Nat} {c : PollFd} : s.pc = .out i → s.pollfds[i]? = some c →
    c.revents.pollOut = true → s.outQueue = [] → Step H P s .popEmpty (s.goto (.scan (i + 1)))
  | popBroadcast {s : State η} {i : Nat} {c : PollFd} {msg : TaggedTcpMsg}
    {rest : List TaggedTcpMsg} : s.pc = .out i → s.pollfds[i]? = some c →
    c.revents.pollOut = true → s.outQueue = msg :: rest → msg.fd = 0 →
    Step H P s .popBroadcast { s with outQueue := rest, pc := .broadcast i msg 0 [] }
  | popAccept {s : State η} {i : Nat} {c : PollFd} {msg : TaggedTcpMsg}
    {rest : List TaggedTcpMsg} {handler : η} : s.pc = .out i → s.pollfds[i]? = some c →
    c.revents.pollOut = true → s.outQueue = msg :: rest → msg.fd ≠ 0 →
    H.onOut s.handler msg = (handler, true) →
    Step H P s .popAccept
      ({ s with outQueue := rest, handler := handler, pc := .write i msg }.emit (.out msg.fd true))
  /-- The filter: `continue` without `release_buf`. -/
  | popFilter {s : State η} {i : Nat} {c : PollFd} {msg : TaggedTcpMsg}
    {rest : List TaggedTcpMsg} {handler : η} : s.pc = .out i → s.pollfds[i]? = some c →
    c.revents.pollOut = true → s.outQueue = msg :: rest → msg.fd ≠ 0 →
    H.onOut s.handler msg = (handler, false) →
    Step H P s .popFilter
      ({ s with outQueue := rest, handler := handler, pc := .scan (i + 1) }.emit
        (.out msg.fd false))
  /-- The descriptor may also be one that the process has open elsewhere. -/
  | write {s : State η} {i : Nat} {msg : TaggedTcpMsg} : s.pc = .write i msg → 0 ≤ msg.fd →
    Step H P s .write
      ((s.emit (.write msg.fd (s.bytes msg) true)).goto (.release msg.buf (.next i)))
  /-- The entry erased is the one of the scan. -/
  | writeFail {s : State η} {i : Nat} {msg : TaggedTcpMsg} : s.pc = .write i msg →
    i < s.pollfds.length →
    Step H P s .writeFail
      ((((s.emit (.write msg.fd (s.bytes msg) false)).close msg.fd).erase i).goto
        (.release msg.buf (.next i)))
  | broadcastEnd {s : State η} {i k : Nat} {msg : TaggedTcpMsg} {stale : List PollFd} :
    s.pc = .broadcast i msg k stale → (slots s.pollfds stale).length ≤ k →
    Step H P s .broadcastEnd (s.goto (.release msg.buf (.next i)))
  | listener {s : State η} {i k : Nat} {msg : TaggedTcpMsg} {stale : List PollFd} {c : PollFd} :
    s.pc = .broadcast i msg k stale → (slots s.pollfds stale)[k]? = some c → c.fd = P.fd →
    Step H P s .listener (s.goto (.broadcast i msg (k + 1) stale))
  | accepted {s : State η} {i k : Nat} {msg : TaggedTcpMsg} {stale : List PollFd} {c : PollFd}
    {handler : η} : s.pc = .broadcast i msg k stale → (slots s.pollfds stale)[k]? = some c →
    c.fd ≠ P.fd → H.onOut s.handler { msg with fd := c.fd } = (handler, true) →
    Step H P s .accepted
      ({ s with handler := handler, pc := .writeTo i msg k stale }.emit (.out c.fd true))
  | filter {s : State η} {i k : Nat} {msg : TaggedTcpMsg} {stale : List PollFd} {c : PollFd}
    {handler : η} : s.pc = .broadcast i msg k stale → (slots s.pollfds stale)[k]? = some c →
    c.fd ≠ P.fd → H.onOut s.handler { msg with fd := c.fd } = (handler, false) →
    Step H P s .filter
      ({ s with handler := handler, pc := .broadcast i msg (k + 1) stale }.emit (.out c.fd false))
  | writeTo {s : State η} {i k : Nat} {msg : TaggedTcpMsg} {stale : List PollFd} {c : PollFd} :
    s.pc = .writeTo i msg k stale → (slots s.pollfds stale)[k]? = some c → c.fd ∈ s.sockets →
    Step H P s .writeTo
      ((s.emit (.write c.fd (s.bytes msg) true)).goto (.broadcast i msg (k + 1) stale))
  /-- The entry erased is the one of the scan, not the one written to. -/
  | writeToFail {s : State η} {i k : Nat} {msg : TaggedTcpMsg} {stale : List PollFd} {c : PollFd} :
    s.pc = .writeTo i msg k stale → (slots s.pollfds stale)[k]? = some c →
    i < s.pollfds.length →
    Step H P s .writeToFail
      ((((s.emit (.write c.fd (s.bytes msg) false)).close c.fd).erase i).goto
        (.broadcast i msg (k + 1) (staleBehind s.pollfds stale)))
  /-- An earlier failure has erased the last entry. -/
  | eraseEnd {s : State η} {i k : Nat} {msg : TaggedTcpMsg} {stale : List PollFd} {c : PollFd} :
    s.pc = .writeTo i msg k stale → (slots s.pollfds stale)[k]? = some c →
    s.pollfds.length ≤ i →
    Step H P s .eraseEnd
      (((s.emit (.write c.fd (s.bytes msg) false)).close c.fd).goto (.faulted msg))
  | post {s : State η} (msg : TaggedTcpMsg) : s.outQueue.length < P.outSize →
    Step H P s (.post msg) { s with outQueue := s.outQueue ++ [msg] }

end Server

end OpenFix
