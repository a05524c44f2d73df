import Mathlib.Data.List.Nodup
import OpenFix.FixClient.Handler

/-!
# The client of `lmax_cli`

`fix_client< Broker >` over `tcp_client_impl`, as the three kinds of threads of `lmax_cli`
see it: the `poll( )` thread, the `consume_in` thread, and any threads that call
`post_logon`, `post_heartbeat` and `post_market_request`. Each thread stands at one of the
points between which it touches nothing another thread can see; `State` holds where each
stands and what they share.

The pool is one allocation of `bufpoolSize` buffers of `bufSize` bytes, a buffer is its
offset, and the queues are bounded FIFOs. Log lines, time stamps and latencies are left out.
-/

namespace OpenFix

namespace Client

/-- The three messages a broker creates. -/
inductive PostKind : Type
  | logon
  | heartbeat
  | marketRequest
  deriving DecidableEq, Repr

/-- `Broker`: the bytes `create_*` may leave in its buffer, for the number `next_seq`
returned. What else they depend on (the clock) is not fixed. -/
structure Broker : Type where
  creates : PostKind → Int → List UInt8 → Prop

/-- `tcp_client_impl< BufSize, BufpoolSize, OutSize, fix_handler< InSize > >`. -/
structure Params : Type where
  bufSize : Nat
  bufpoolSize : Nat
  outSize : Nat
  inSize : Nat
  broker : Broker
  bufSize_pos : 0 < bufSize

/-- The buffers of the pool, in the order the constructor of `object_pool` pushes them. -/
def Params.buffers (P : Params) : List Nat := (List.range P.bufpoolSize).map (P.bufSize * ·)

/-- `tcp_msg_t`, the entries of `m_outgoing`, with what the model remembers of it: the kind,
the sequence number, and the bytes `[ buf, buf + len )` when it was created. -/
structure TcpMsg : Type where
  buf : Nat
  len : Nat
  kind : PostKind
  seq : Int
  bytes : List UInt8
  deriving DecidableEq, Repr

/-- `fix_session_state`. -/
inductive SessionState : Type
  | Offline
  | Connected
  | LoggedIn
  deriving DecidableEq, Repr

/-! ## Where the threads stand -/

/-- Behind `release_buf` in `poll`: the `close( )` of a failed read, or the test of POLLOUT,
with that bit of `revents`. -/
inductive AfterRelease : Type
  | close
  | out (pollOut : Bool)
  deriving DecidableEq, Repr

/-- Where `poll( )` stands; `out` is the POLLOUT bit of `revents`. -/
inductive PollPc : Type
  /-- At the test of the loop and `::poll`. -/
  | top
  | getBuf (out : Bool)
  | read (buf : Nat) (out : Bool)
  /-- In the handler, on the `len` bytes read into `buf`. -/
  | handle (buf len : Nat) (out : Bool) (garbage : StackGarbage) (pc : HandlerPc)
  | release (buf : Nat) (next : AfterRelease)
  | popOut
  | send (msg : TcpMsg)
  | closing
  | done

/-- Where `consume_in` stands; `msg` is the entry it works on. -/
inductive ConsumerPc : Type
  | top
  | tryPop
  /-- At the tests of `msg.type`. -/
  | dispatch (msg : FixMsg)
  /-- In `post_heartbeat`. -/
  | reply (msg : FixMsg)
  /-- At `std::call_once`. -/
  | once (msg : FixMsg)
  /-- In `post_market_request`. -/
  | subscribe (msg : FixMsg)
  /-- At the test of `is_final`. -/
  | final (msg : FixMsg)
  | done
  deriving DecidableEq, Repr

/-- Where a thread stands in one of the three `post_*`. -/
inductive PostPc : Type
  | idle
  | getBuf (kind : PostKind)
  | create (kind : PostKind) (buf : Nat)
  | push (msg : TcpMsg)
  deriving DecidableEq, Repr

/-- The client. `posting none` is the consumer thread inside a `post_*`, `posting (some i)`
another thread. The last three fields record the run: the messages pushed onto
`m_outgoing`, those popped from it, and the bytes the socket accepted. -/
structure State (ι : Type) : Type where
  fd : Int
  mem : Mem
  pool : List Nat
  outgoing : List TcpMsg
  inQueue : List FixMsg
  seq : Int
  session : SessionState
  once : Bool
  poll : PollPc
  consumer : ConsumerPc
  posting : Option ι → PostPc
  posted : List TcpMsg
  popped : List TcpMsg
  wire : List UInt8

/-- The connected client before any thread runs. -/
def State.connected (P : Params) (ι : Type) (fd : Int) : State ι where
  fd := fd
  mem := List.replicate (P.bufSize * P.bufpoolSize) 0
  pool := P.buffers
  outgoing := []
  inQueue := []
  seq := 1
  session := .Offline
  once := false
  poll := .top
  consumer := .top
  posting := fun _ => .idle
  posted := []
  popped := []
  wire := []

/-! ## The buffers of the pool -/

theorem Params.buffers_nodup (P : Params) : P.buffers.Nodup := by
  apply List.Nodup.map
  · intro i j same
    exact Nat.eq_of_mul_eq_mul_left P.bufSize_pos same
  · exact List.nodup_range

theorem Params.buffers_length (P : Params) : P.buffers.length = P.bufpoolSize := by
  rw [buffers, List.length_map, List.length_range]

/-- A buffer lies inside the allocation. -/
theorem Params.buffer_inside {P : Params} {b : Nat} (member : b ∈ P.buffers) :
    b + P.bufSize ≤ P.bufSize * P.bufpoolSize := by
  rcases List.mem_map.mp member with ⟨i, below, rfl⟩
  have next : i + 1 ≤ P.bufpoolSize := List.mem_range.mp below
  calc P.bufSize * i + P.bufSize = P.bufSize * (i + 1) := (Nat.mul_succ P.bufSize i).symm
    _ ≤ P.bufSize * P.bufpoolSize := Nat.mul_le_mul_left P.bufSize next

/-- Two buffers do not overlap. -/
theorem Params.buffers_disjoint {P : Params} {b c : Nat} (memberB : b ∈ P.buffers)
    (memberC : c ∈ P.buffers) (different : b ≠ c) :
    b + P.bufSize ≤ c ∨ c + P.bufSize ≤ b := by
  rcases List.mem_map.mp memberB with ⟨i, -, rfl⟩
  rcases List.mem_map.mp memberC with ⟨j, -, rfl⟩
  rcases Nat.lt_trichotomy i j with less | rfl | greater
  · exact .inl (by
      calc P.bufSize * i + P.bufSize = P.bufSize * (i + 1) := (Nat.mul_succ P.bufSize i).symm
        _ ≤ P.bufSize * j := Nat.mul_le_mul_left P.bufSize less)
  · exact (different rfl).elim
  · exact .inr (by
      calc P.bufSize * j + P.bufSize = P.bufSize * (j + 1) := (Nat.mul_succ P.bufSize j).symm
        _ ≤ P.bufSize * i := Nat.mul_le_mul_left P.bufSize greater)

end Client

end OpenFix
