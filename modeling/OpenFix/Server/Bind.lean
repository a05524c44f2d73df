import OpenFix.Server.State

/-!
# `tcp_server_impl::bind`

The way to the loop of the server: an address, a socket, and the calls that make it listen. Each
of them may fail, and the server may be asked again.

* `bind_cases`: what a call comes to.
* `Accounted`: what the calls so far have left; `Accounted.bind` is one call, `accounted_of_called`
  a run of them.
* `bound_of_called`: where `run( )` starts.
-/

namespace OpenFix

namespace Server

/-- What the calls of the kernel return in one call of `bind( )`; `none` is a `socket` that
fails. -/
structure Replies : Type where
  getaddrinfo : Int
  socket : Option Nat
  bind : Int
  fcntl : Int
  setsockopt : Int
  listen : Int
  deriving DecidableEq, Repr

/-- The server in front of `run( )`: `m_fd` and `m_pollfds`, the descriptors open in the kernel
and those that listen, and how many address lists were allocated and freed. -/
structure Binding : Type where
  fd : Int
  pollfds : List PollFd
  sockets : List Int
  listening : List Int
  allocated : Nat
  freed : Nat
  deriving DecidableEq, Repr

namespace Binding

/-- A new server. -/
def new : Binding := ⟨-1, [], [], [], 0, 0⟩

/-- `m_fd = socket( .. )`. -/
def socket (s : Binding) : Option Nat → Binding
  | none => { s with fd := -1 }
  | some fd => { s with fd := fd, sockets := s.sockets ++ [(fd : Int)] }

/-- `freeaddrinfo( res )`. -/
def freeaddrinfo (s : Binding) : Binding := { s with freed := s.freed + 1 }

/-- `close( )` of `tcp_session`. -/
def close (s : Binding) : Binding := { s with fd := -1, sockets := s.sockets.erase s.fd }

/-- `pollfd{ fd, POLLIN }`. -/
def listener (fd : Int) : PollFd := ⟨fd, ⟨true, false, false⟩, .none⟩

/-- `bind`: what it returns, and what it leaves. -/
def bind (r : Replies) (s : Binding) : Int × Binding :=
  if r.getaddrinfo ≠ 0 then (r.getaddrinfo, s)
  else
    let s := { s with allocated := s.allocated + 1 }.socket r.socket
    if s.fd < 0 then (-1, s.freeaddrinfo)
    else if r.bind ≠ 0 then (r.bind, s.close.freeaddrinfo)
    else
      let s := s.freeaddrinfo
      if r.fcntl < 0 then (r.fcntl, s.close)
      else if r.setsockopt ≠ 0 then (r.setsockopt, s.close)
      else if r.listen ≠ 0 then (r.listen, s.close)
      else
        (0, { s with
          listening := s.listening ++ [s.fd]
          pollfds := s.pollfds ++ [listener s.fd] })

/-- The calls of `bind( )` on one server, with what they returned. A new socket has a descriptor
that is not open. -/
inductive Called : Binding → List (Replies × Int) → Prop
  | new : Called .new []
  | call {s : Binding} {calls : List (Replies × Int)} (r : Replies) :
    Called s calls → (∀ fd, r.socket = some fd → (fd : Int) ∉ s.sockets) →
    Called (s.bind r).2 (calls ++ [(r, (s.bind r).1)])

/-- What the calls returned. -/
def results (calls : List (Replies × Int)) : List Int := calls.map Prod.snd

theorem results_concat (calls : List (Replies × Int)) (r : Replies) (code : Int) :
    results (calls ++ [(r, code)]) = results calls ++ [code] := List.map_append

/-! ## One call -/

/-- No call of the kernel fails. -/
def Succeeds (r : Replies) : Prop :=
  r.getaddrinfo = 0 ∧ r.socket ≠ none ∧ r.bind = 0 ∧ 0 ≤ r.fcntl ∧ r.setsockopt = 0 ∧ r.listen = 0

/-- Behind a failure: the addresses are freed, and a socket is closed again. -/
def failed (s : Binding) : Binding :=
  { s with fd := -1, allocated := s.allocated + 1, freed := s.freed + 1 }

/-- Behind a success. -/
def bound (s : Binding) (fd : Int) : Binding :=
  ⟨fd, s.pollfds ++ [listener fd], s.sockets ++ [fd], s.listening ++ [fd], s.allocated + 1,
    s.freed + 1⟩

theorem erase_new {sockets : List Int} {fd : Int} (fresh : fd ∉ sockets) :
    (sockets ++ [fd]).erase fd = sockets := by
  rw [List.erase_append_right [fd] fresh, List.erase_cons_head, List.append_nil]

variable {s : Binding} {r : Replies} {calls : List (Replies × Int)}

/-- What a call comes to. -/
theorem bind_cases (fresh : ∀ fd, r.socket = some fd → (fd : Int) ∉ s.sockets) :
    (∃ code, code ≠ 0 ∧ ¬ Succeeds r ∧ (s.bind r = (code, s) ∨ s.bind r = (code, s.failed))) ∨
      ∃ fd : Nat, r.socket = some fd ∧ Succeeds r ∧ s.bind r = (0, s.bound fd) := by
  unfold bind
  split
  case isTrue unresolved =>
    exact .inl ⟨_, unresolved, fun succeeds => unresolved succeeds.1, .inl rfl⟩
  case isFalse resolved =>
    cases opened : r.socket with
    | none =>
        have fails : ¬ Succeeds r := fun succeeds => succeeds.2.1 opened
        exact .inl ⟨-1, by decide, fails, .inr rfl⟩
    | some fd =>
        have positive : ¬ (fd : Int) < 0 := not_lt.mpr (Int.natCast_nonneg fd)
        have erased := erase_new (fresh fd opened)
        simp only [socket, close, freeaddrinfo, erased, if_neg positive]
        split
        case isTrue fails =>
          exact .inl ⟨_, fails, fun succeeds => fails succeeds.2.2.1, .inr rfl⟩
        case isFalse bind_ =>
          split
          case isTrue fails =>
            exact .inl ⟨_, ne_of_lt fails, fun succeeds => not_le.mpr fails succeeds.2.2.2.1,
              .inr rfl⟩
          case isFalse fcntl =>
            split
            case isTrue fails =>
              exact .inl ⟨_, fails, fun succeeds => fails succeeds.2.2.2.2.1, .inr rfl⟩
            case isFalse setsockopt =>
              split
              case isTrue fails =>
                exact .inl ⟨_, fails, fun succeeds => fails succeeds.2.2.2.2.2, .inr rfl⟩
              case isFalse listen =>
                refine .inr ⟨fd, rfl, ⟨not_not.mp resolved, ?_, not_not.mp bind_, not_lt.mp fcntl,
                  not_not.mp setsockopt, not_not.mp listen⟩, rfl⟩
                rw [opened]
                exact Option.some_ne_none fd

/-! ## Any number of calls -/

/-- What the calls so far have left. Every list of addresses is freed, each call that returned 0
has left one listening socket, which is polled for reading, and the others have left nothing. -/
structure Accounted (s : Binding) (calls : List (Replies × Int)) : Prop where
  returned : ∀ call ∈ calls, call.2 = 0 ↔ Succeeds call.1
  freed : s.freed = s.allocated
  distinct : s.sockets.Nodup
  listening : s.listening = s.sockets
  pollfds : s.pollfds = s.sockets.map listener
  count : s.sockets.length = (results calls).count 0
  fd : s.fd = -1 ∨ s.sockets.getLast? = some s.fd
  last : (results calls).getLast? = some 0 → s.sockets.getLast? = some s.fd

theorem accounted_new : Accounted .new [] :=
  ⟨List.forall_mem_nil _, rfl, List.nodup_nil, rfl, rfl, rfl, .inl rfl, nofun⟩

/-- A call that fails leaves the sockets and what is polled as they are. -/
theorem Accounted.fails (accounted : Accounted s calls) {s' : Binding} {code : Int}
    (fails : code ≠ 0) (not_ : ¬ Succeeds r) (came : s' = s ∨ s' = s.failed) :
    Accounted s' (calls ++ [(r, code)]) := by
  obtain ⟨returned, freed, distinct, listening, pollfds, count, fd, -⟩ := accounted
  have returned' : ∀ call ∈ calls ++ [(r, code)], call.2 = 0 ↔ Succeeds call.1 := by
    intro call member
    rcases List.mem_append.mp member with earlier | last
    · exact returned call earlier
    · obtain rfl := List.mem_singleton.mp last
      exact iff_of_false fails not_
  have count' : s.sockets.length = (results (calls ++ [(r, code)])).count 0 := by
    rw [results_concat, List.count_append, List.count_singleton,
      if_neg (by simpa using fails), Nat.add_zero]
    exact count
  have last : (results (calls ++ [(r, code)])).getLast? ≠ some 0 := by
    rw [results_concat, List.getLast?_concat]
    exact fun same => fails (Option.some.inj same)
  rcases came with rfl | rfl
  · exact ⟨returned', freed, distinct, listening, pollfds, count', fd, fun same => (last same).elim⟩
  · exact ⟨returned', congrArg (· + 1) freed, distinct, listening, pollfds, count', .inl rfl,
      fun same => (last same).elim⟩

/-- One call. -/
theorem Accounted.bind (accounted : Accounted s calls)
    (fresh : ∀ fd, r.socket = some fd → (fd : Int) ∉ s.sockets) :
    Accounted (s.bind r).2 (calls ++ [(r, (s.bind r).1)]) := by
  rcases bind_cases fresh with ⟨code, fails, not_, unresolved | failed⟩ | ⟨fd, opened, all, bound⟩
  · rw [unresolved]
    exact accounted.fails fails not_ (.inl rfl)
  · rw [failed]
    exact accounted.fails fails not_ (.inr rfl)
  · obtain ⟨returned, freed, distinct, listening, pollfds, count, -, -⟩ := accounted
    have last : (s.sockets ++ [(fd : Int)]).getLast? = some (fd : Int) := List.getLast?_concat
    rw [bound]
    refine ⟨fun call member => ?_, congrArg (· + 1) freed, ?_, ?_, ?_, ?_, .inr last, fun _ => last⟩
    · rcases List.mem_append.mp member with earlier | new
      · exact returned call earlier
      · obtain rfl := List.mem_singleton.mp new
        exact iff_of_true rfl all
    · refine distinct.append (List.nodup_singleton _) ?_
      rintro x member (_ | ⟨_, ⟨⟩⟩)
      exact fresh fd opened member
    · exact congrArg (· ++ [(fd : Int)]) listening
    · rw [Binding.bound, pollfds, List.map_append]
      rfl
    · rw [Binding.bound, List.length_append, count, results_concat, List.count_append]
      rfl

/-- Runs. -/
theorem accounted_of_called (called : Called s calls) : Accounted s calls := by
  induction called with
  | new => exact accounted_new
  | call r _ fresh ih => exact ih.bind fresh

end Binding

/-! ## Where `run( )` starts -/

open Binding (Called Accounted results)

/-- The server with its pool, its queue and its handler, at the start of `run( )`. -/
def Binding.start {η : Type} (s : Binding) (P : Params) (handler : η) : State η where
  pollfds := s.pollfds
  bufpool := List.range P.bufPoolSize
  outQueue := []
  handler := handler
  bufs := fun _ => List.replicate P.bufSize 0
  sockets := s.sockets
  pc := .top
  log := []

/-- **Up to the loop.** Calls of `bind( )` that fail leave no socket open and nothing to poll, and
behind the first that returns 0 the server is as `run( )` expects it. -/
theorem bound_of_called {s : Binding} {calls : List (Replies × Int)} (called : Called s calls) :
    Accounted s calls ∧
      (0 ∉ results calls → s.sockets = [] ∧ s.pollfds = [] ∧ s.fd = -1) ∧
      ∀ failures, results calls = failures ++ [0] → 0 ∉ failures →
        ∀ (η : Type) (outSize bufSize bufPoolSize : Nat) (handler : η),
          s.start ⟨outSize, bufSize, bufPoolSize, s.fd⟩ handler =
            State.bound ⟨outSize, bufSize, bufPoolSize, s.fd⟩ handler := by
  have accounted := Binding.accounted_of_called called
  refine ⟨accounted, fun none_ => ?_,
    fun failures last none_ _ outSize bufSize bufPoolSize handler => ?_⟩
  · have empty : s.sockets = [] := by
      rw [← List.length_eq_zero_iff, accounted.count, List.count_eq_zero]
      exact none_
    refine ⟨empty, ?_, ?_⟩
    · rw [accounted.pollfds, empty]
      rfl
    · refine accounted.fd.resolve_right ?_
      rw [empty]
      exact nofun
  · have one : s.sockets.length = 1 := by
      rw [accounted.count, last, List.count_append, List.count_eq_zero.mpr none_]
      rfl
    obtain ⟨fd, sockets⟩ := List.length_eq_one_iff.mp one
    have same := accounted.last (last ▸ List.getLast?_concat)
    rw [sockets] at same
    obtain rfl : fd = s.fd := Option.some.inj same
    rw [Binding.start, accounted.pollfds, sockets]
    rfl

/-- The port is taken at first, and free at the second call. -/
theorem bound_of_called_second :
    (⟨4, [⟨4, ⟨true, false, false⟩, .none⟩], [4], [4], 2, 2⟩ : Binding).start ⟨16, 128, 64, 4⟩ () =
      State.bound ⟨16, 128, 64, 4⟩ () := by
  have taken : Binding.new.bind ⟨0, some 3, -1, 0, 0, 0⟩ = (-1, ⟨-1, [], [], [], 1, 1⟩) := by
    decide
  have free : Binding.bind ⟨0, some 4, 0, 0, 0, 0⟩ ⟨-1, [], [], [], 1, 1⟩ =
      (0, ⟨4, [⟨4, ⟨true, false, false⟩, .none⟩], [4], [4], 2, 2⟩) := by
    decide
  have first := Called.call ⟨0, some 3, -1, 0, 0, 0⟩ .new fun fd _ => List.not_mem_nil
  rw [taken] at first
  have second := Called.call ⟨0, some 4, 0, 0, 0, 0⟩ first fun fd _ => List.not_mem_nil
  rw [free] at second
  exact (bound_of_called second).2.2 [-1] rfl (by decide) Unit 16 128 64 ()

end Server

end OpenFix
