import OpenFix.CRuntime

/-!
# `tcp_server_impl`

The server of `tcp_server.h` behind a successful `bind`: its members, the sockets the kernel
holds for it, and where `run( )` stands. A buffer is its number in the pool; `bufs` are the
contents. `m_fd` never changes while `run( )` runs.

`m_pollfds` is a list, an iterator into it an index. `erase` moves the elements behind it one
slot down and leaves the last slot as it was, which a loop that remembers the old end still
visits: `stale` are the slots between `end( )` and that old end.
-/

namespace OpenFix

namespace Server

/-- `tagged_tcp_msg_t`. -/
structure TaggedTcpMsg : Type where
  buf : Nat
  len : Nat
  fd : Int
  deriving DecidableEq, Repr

/-- The bits of `events` and `revents` that the server asks for and tests. -/
structure Events : Type where
  pollIn : Bool
  pollHup : Bool
  pollOut : Bool
  deriving DecidableEq, Repr

def Events.none : Events := ⟨false, false, false⟩

structure PollFd : Type where
  fd : Int
  events : Events
  revents : Events
  deriving DecidableEq, Repr

/-- `Handler`: its four functions on a state of its own. `onRead` is given the buffer with
what was read into it, and returns the messages it posts, in order, with its result. -/
structure Handler (η : Type) : Type where
  onConnect : η → Int → η
  onDisconnect : η → Int → η
  onOut : η → TaggedTcpMsg → η × Bool
  onRead : η → Int → Nat → List UInt8 → η × List TaggedTcpMsg × Bool

/-- `tcp_server_impl< MaxClients, OutSize, BufSize, BufPoolSize, Handler >` with its `m_fd`. -/
structure Params : Type where
  outSize : Nat
  bufSize : Nat
  bufPoolSize : Nat
  fd : Int

/-- Behind `release_buf`: `break`, the test of POLLOUT, or the next entry. -/
inductive After : Type
  | top
  | out (i : Nat)
  | next (i : Nat)
  deriving DecidableEq, Repr

/-- Where `run( )` stands; `i` is `it`. -/
inductive Pc : Type
  /-- At the test of the loop and `poll`. -/
  | top
  /-- At the test of the scan, and the tests of POLLHUP and POLLIN. -/
  | scan (i : Nat)
  | getBuf (i : Nat)
  | read (i buf : Nat)
  /-- In `on_read`, with the messages it has still to post, and its result. -/
  | onRead (i buf : Nat) (posts : List TaggedTcpMsg) (ret : Bool)
  | release (buf : Nat) (next : After)
  /-- At the test of POLLOUT. -/
  | out (i : Nat)
  /-- In the loop over the clients, at slot `k`. -/
  | broadcast (i : Nat) (msg : TaggedTcpMsg) (k : Nat) (stale : List PollFd)
  /-- At the `write` to the client in slot `k`. -/
  | writeTo (i : Nat) (msg : TaggedTcpMsg) (k : Nat) (stale : List PollFd)
  /-- At the `write` of an addressed message. -/
  | write (i : Nat) (msg : TaggedTcpMsg)
  | done
  /-- `erase( end( ) )`. -/
  | faulted (msg : TaggedTcpMsg)
  deriving DecidableEq, Repr

def After.pc : After → Pc
  | .top => .top
  | .out i => .out i
  | .next i => .scan (i + 1)

/-- What happened at the sockets and the handler. `sent` is whether `write` returned more
than 0; `close` of a descriptor that is not open is no event. -/
inductive Event : Type
  | accept (fd : Int)
  | connect (fd : Int)
  | disconnect (fd : Int)
  | close (fd : Int)
  | read (fd : Int) (buf : Nat) (data : List UInt8)
  | out (fd : Int) (accepted : Bool)
  | write (fd : Int) (bytes : List UInt8) (sent : Bool)
  | release (buf : Nat)
  deriving DecidableEq, Repr

/-- The server. `sockets` are the descriptors open in the kernel, the listening one and those
of the clients; `log` has the events of the run, the latest first. -/
structure State (η : Type) : Type where
  pollfds : List PollFd
  bufpool : List Nat
  outQueue : List TaggedTcpMsg
  handler : η
  bufs : Nat → List UInt8
  sockets : List Int
  pc : Pc
  log : List Event

variable {η : Type}

/-- Behind `bind`. -/
def State.bound (P : Params) (handler : η) : State η where
  pollfds := [⟨P.fd, ⟨true, false, false⟩, .none⟩]
  bufpool := List.range P.bufPoolSize
  outQueue := []
  handler := handler
  bufs := fun _ => List.replicate P.bufSize 0
  sockets := [P.fd]
  pc := .top
  log := []

/-- The descriptors in `m_pollfds`. -/
def State.fds (s : State η) : List Int := s.pollfds.map (·.fd)

/-- `::close( fd )`. -/
def State.close (s : State η) (fd : Int) : State η :=
  { s with
    sockets := s.sockets.erase fd
    log := if fd ∈ s.sockets then .close fd :: s.log else s.log }

/-- The bytes `[ buf, buf + len )`. -/
def State.bytes (s : State η) (msg : TaggedTcpMsg) : List UInt8 := (s.bufs msg.buf).take msg.len

end Server

end OpenFix
