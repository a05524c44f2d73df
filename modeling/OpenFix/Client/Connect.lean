import OpenFix.Client.Session

/-!
# `tcp_client_impl::connect`

The loop over the addresses of `getaddrinfo` as a small-step machine: one step is one attempt,
or the exit at a null pointer. Its update takes `info->ai_next`, the node behind the first, and
not the one behind `cur`, so behind a second failure the loop tries the second address again.

* `Ended`: what holds wherever the loop stands; `Ended.step` is its step, `ended_run` its run.
* `Stuck`: where the loop stands behind two failures.
* `sound_iff`: when the loop goes through the addresses.
* `lived_of_connect`: a call of `connect( )` is a step in the life of the client.
-/

namespace OpenFix

namespace Client

/-- `tcp_error`. -/
inductive TcpError : Type
  | ok
  | getaddrinfoErr
  | connectErr
  | sockErr
  deriving DecidableEq, Repr

/-- The list of a successful `getaddrinfo`: its nodes are 0 up to `nodes`, one or more. -/
structure AddrInfo : Type where
  nodes : Nat
  some_ : 0 < nodes

/-- `ai_next` of node `i`. -/
def AddrInfo.next (info : AddrInfo) (i : Nat) : Option Nat :=
  if i + 1 < info.nodes then some (i + 1) else none

/-- What `socket` and `::connect` return in one pass of the loop. -/
structure Attempt : Type where
  socket : Option Nat
  connect : Bool
  deriving DecidableEq, Repr

def Attempt.connects (attempt : Attempt) : Bool := attempt.socket.isSome && attempt.connect

/-- What the calls of the kernel return: in each pass of the loop, and behind it whether
`fcntl` and `setsockopt` succeed. -/
structure Kernel : Type where
  attempt : Nat → Attempt
  nonblock : Bool
  noDelay : Bool

/-- `m_fd`, the nodes tried, and the descriptors opened and closed so far. -/
structure Connecting : Type where
  fd : Int
  tried : List Nat
  opened : List Int
  closed : List Int
  deriving DecidableEq, Repr

/-- `close( )` of `tcp_session`. -/
def Connecting.close (c : Connecting) : Connecting :=
  { c with fd := -1, closed := c.closed ++ [c.fd] }

/-- Where the loop stands: at its test of `cur`, or behind it. -/
inductive LoopPc : Type
  | test (cur : Option Nat)
  | left
  deriving DecidableEq, Repr

/-- The body of the loop at node `i`. -/
def body (info : AddrInfo) (kernel : Kernel) (i : Nat) (c : Connecting) : LoopPc × Connecting :=
  match (kernel.attempt c.tried.length).socket with
  | none => (.test (info.next 0), { c with fd := -1, tried := c.tried ++ [i] })
  | some fd =>
      if (kernel.attempt c.tried.length).connect then
        (.left, { c with fd := fd, tried := c.tried ++ [i], opened := c.opened ++ [(fd : Int)] })
      else
        (.test (info.next 0),
          { c with fd := fd, tried := c.tried ++ [i], opened := c.opened ++ [(fd : Int)] }.close)

def loopStep (info : AddrInfo) (kernel : Kernel) : LoopPc × Connecting → LoopPc × Connecting
  | (.test (some i), c) => body info kernel i c
  | (_, c) => (.left, c)

/-- The first `n` steps, from `cur = info`. -/
def loop (info : AddrInfo) (kernel : Kernel) (fd : Int) : Nat → LoopPc × Connecting
  | 0 => (.test (some 0), ⟨fd, [], [], []⟩)
  | n + 1 => loopStep info kernel (loop info kernel fd n)

/-- Behind the loop. -/
def finish (kernel : Kernel) (c : Connecting) : TcpError × Connecting :=
  if c.fd < 0 then (.connectErr, c)
  else if kernel.nonblock = false then (.sockErr, c.close)
  else if kernel.noDelay = false then (.sockErr, c.close)
  else (.ok, c)

/-- A call of `connect( )` that returns; `none` is a `getaddrinfo` that fails. -/
inductive Returns (kernel : Kernel) (fd : Int) :
    Option AddrInfo → TcpError → Connecting → Prop
  | unresolved : Returns kernel fd none .getaddrinfoErr ⟨fd, [], [], []⟩
  | loop {info : AddrInfo} {n : Nat} {c : Connecting} :
    loop info kernel fd n = (.left, c) →
    Returns kernel fd (some info) (finish kernel c).1 (finish kernel c).2

/-- What the caller of `connect( )` wants of a return behind the loop. -/
structure Tried (info : AddrInfo) (kernel : Kernel) (result : TcpError) (c : Connecting) :
    Prop where
  inOrder : c.tried = List.range c.tried.length
  once : c.tried.length ≤ info.nodes
  stops : ∀ k, k + 1 < c.tried.length → (kernel.attempt k).connects = false
  all : (∀ k, k < c.tried.length → (kernel.attempt k).connects = false) →
    c.tried.length = info.nodes
  ok : result = .ok → ∃ k, k < c.tried.length ∧ (kernel.attempt k).connects = true
  error : result ≠ .ok → c.closed = c.opened ∧ c.fd = -1

/-- The loop ends, and has gone through the addresses. -/
structure Sound (info : AddrInfo) (kernel : Kernel) (fd : Int) : Prop where
  returns : ∃ result c, Returns kernel fd (some info) result c
  tried : ∀ result c, Returns kernel fd (some info) result c → Tried info kernel result c

/-! ## What every run keeps -/

variable {info : AddrInfo} {kernel : Kernel} {fd : Int} {c c' : Connecting}

/-- No attempt has connected, and no descriptor is left open. -/
structure Failed (kernel : Kernel) (c : Connecting) : Prop where
  closed : c.closed = c.opened
  none_ : ∀ k, k < c.tried.length → (kernel.attempt k).connects = false

/-- The last attempt has connected, and its descriptor is the one left open. -/
structure Succeeded (kernel : Kernel) (c : Connecting) : Prop where
  fd : 0 ≤ c.fd
  opened : c.opened = c.closed ++ [c.fd]
  none_ : ∀ k, k + 1 < c.tried.length → (kernel.attempt k).connects = false
  last : ∃ k, k < c.tried.length ∧ (kernel.attempt k).connects = true

theorem Failed.concat (failed : Failed kernel c) {i : Nat} (tried : c'.tried = c.tried ++ [i])
    (closed : c'.closed = c'.opened)
    (last : (kernel.attempt c.tried.length).connects = false) : Failed kernel c' := by
  refine ⟨closed, fun k before => ?_⟩
  rw [tried, List.length_append, List.length_singleton] at before
  rcases Nat.lt_succ_iff_lt_or_eq.mp before with earlier | rfl
  · exact failed.none_ k earlier
  · exact last

theorem Failed.connect (failed : Failed kernel c) {i : Nat} (tried : c'.tried = c.tried ++ [i])
    (fd : 0 ≤ c'.fd) (opened : c'.opened = c'.closed ++ [c'.fd])
    (last : (kernel.attempt c.tried.length).connects = true) : Succeeded kernel c' := by
  have length : c'.tried.length = c.tried.length + 1 := by
    rw [tried, List.length_append, List.length_singleton]
  refine ⟨fd, opened, fun k before => failed.none_ k (by omega), c.tried.length, by omega, last⟩

/-- What a pass of the loop comes to. -/
theorem body_cases (info : AddrInfo) (i : Nat) (failed : Failed kernel c) :
    ∃ c', c'.tried = c.tried ++ [i] ∧
      ((kernel.attempt c.tried.length).connects = true ∧ Succeeded kernel c' ∧
          body info kernel i c = (.left, c') ∨
        (kernel.attempt c.tried.length).connects = false ∧ Failed kernel c' ∧ c'.fd = -1 ∧
          body info kernel i c = (.test (info.next 0), c')) := by
  unfold body
  cases socket : (kernel.attempt c.tried.length).socket with
  | none =>
      have refused : (kernel.attempt c.tried.length).connects = false := by
        rw [Attempt.connects, socket]
        rfl
      exact ⟨{ c with fd := -1, tried := c.tried ++ [i] }, rfl,
        .inr ⟨refused, failed.concat rfl failed.closed refused, rfl, rfl⟩⟩
  | some fd =>
      cases answer : (kernel.attempt c.tried.length).connect with
      | true =>
          have connects : (kernel.attempt c.tried.length).connects = true := by
            rw [Attempt.connects, socket, answer]
            rfl
          refine ⟨_, rfl, .inl ⟨connects, failed.connect rfl ?_ ?_ connects, rfl⟩⟩
          · exact Int.natCast_nonneg fd
          · exact congrArg (· ++ [(fd : Int)]) failed.closed.symm
      | false =>
          have refused : (kernel.attempt c.tried.length).connects = false := by
            rw [Attempt.connects, socket, answer]
            rfl
          refine ⟨_, rfl, .inr ⟨refused, failed.concat rfl ?_ refused, rfl, rfl⟩⟩
          exact congrArg (· ++ [(fd : Int)]) failed.closed

/-- What holds where the loop stands. In front of the first pass `m_fd` is what it was. -/
def Ended (kernel : Kernel) : LoopPc × Connecting → Prop
  | (.test (some _), c) => Failed kernel c
  | (.test none, c) => Failed kernel c ∧ c.fd = -1
  | (.left, c) => Succeeded kernel c ∨ Failed kernel c ∧ c.fd = -1

theorem Ended.step {x : LoopPc × Connecting} (ended : Ended kernel x) :
    Ended kernel (loopStep info kernel x) := by
  obtain ⟨pc, c⟩ := x
  match pc with
  | .test (some i) =>
      obtain ⟨c', -, ⟨-, succeeded, left_⟩ | ⟨-, failed, fd, again⟩⟩ :=
        body_cases info i ended
      · rw [loopStep, left_]
        exact .inl succeeded
      · rw [loopStep, again]
        cases info.next 0 with
        | none => exact ⟨failed, fd⟩
        | some => exact failed
  | .test none => exact .inr ended
  | .left => exact ended

theorem ended_run (info : AddrInfo) (kernel : Kernel) (fd : Int) (n : Nat) :
    Ended kernel (loop info kernel fd n) := by
  induction n with
  | zero => exact ⟨rfl, fun _ before => absurd before (Nat.not_lt_zero _)⟩
  | succ n ih => exact ih.step

/-- What the tests behind the loop come to. -/
theorem finish_cases (ended : Ended kernel (.left, c)) :
    (finish kernel c).2.tried = c.tried ∧
      ((finish kernel c).1 = .ok → Succeeded kernel c ∧ (finish kernel c).2 = c) ∧
      ((finish kernel c).1 ≠ .ok → (finish kernel c).2.closed = (finish kernel c).2.opened ∧
        (finish kernel c).2.fd = -1) := by
  unfold finish
  rcases ended with succeeded | ⟨failed, fd⟩
  · have closed : c.close.closed = c.close.opened := succeeded.opened.symm
    rw [if_neg (not_lt.mpr succeeded.fd)]
    split
    case isTrue => exact ⟨rfl, nofun, fun _ => ⟨closed, rfl⟩⟩
    case isFalse =>
      split
      case isTrue => exact ⟨rfl, nofun, fun _ => ⟨closed, rfl⟩⟩
      case isFalse => exact ⟨rfl, fun _ => ⟨succeeded, rfl⟩, fun other => absurd rfl other⟩
  · rw [if_pos (by rw [fd]; decide)]
    exact ⟨rfl, nofun, fun _ => ⟨failed.closed, fd⟩⟩

theorem Ended.stops (ended : Ended kernel (.left, c)) (k : Nat) (before : k + 1 < c.tried.length) :
    (kernel.attempt k).connects = false := by
  rcases ended with succeeded | ⟨failed, -⟩
  · exact succeeded.none_ k before
  · exact failed.none_ k (by omega)

/-- A loop that is left stays so. -/
theorem loop_left {n : Nat} (at_ : loop info kernel fd n = (.left, c)) (k : Nat) :
    loop info kernel fd (n + k) = (.left, c) := by
  induction k with
  | zero => exact at_
  | succ k ih => rw [← Nat.add_assoc, loop, ih]; rfl

theorem left_unique {n n' : Nat} (at_ : loop info kernel fd n = (.left, c))
    (at_' : loop info kernel fd n' = (.left, c')) : c = c' := by
  have late := loop_left at_ n'
  rw [Nat.add_comm, loop_left at_' n] at late
  exact (congrArg Prod.snd late).symm

/-! ## Through the addresses -/

/-- The loop is left, having gone through the addresses as it should. -/
structure Walked (info : AddrInfo) (kernel : Kernel) (c : Connecting) : Prop where
  inOrder : c.tried = List.range c.tried.length
  once : c.tried.length ≤ info.nodes
  all : (∀ k, k < c.tried.length → (kernel.attempt k).connects = false) →
    c.tried.length = info.nodes

theorem sound_of_walked {n : Nat} (at_ : loop info kernel fd n = (.left, c))
    (walked : Walked info kernel c) : Sound info kernel fd := by
  refine ⟨⟨_, _, .loop at_⟩, fun result c' returns => ?_⟩
  cases returns with
  | @loop _ m c'' at_' =>
      obtain rfl := left_unique at_ at_'
      have ended := ended_run info kernel fd n
      rw [at_] at ended
      obtain ⟨tried, ok, error⟩ := finish_cases ended
      refine ⟨?_, ?_, ?_, ?_, fun fine => ?_, error⟩
      · rw [tried]
        exact walked.inOrder
      · rw [tried]
        exact walked.once
      · rw [tried]
        exact ended.stops
      · rw [tried]
        exact walked.all
      · rw [tried]
        exact (ok fine).1.last

/-- Behind the first attempt. -/
theorem loop_one (info : AddrInfo) (kernel : Kernel) (fd : Int) :
    ∃ c, c.tried = [0] ∧
      ((kernel.attempt 0).connects = true ∧ loop info kernel fd 1 = (.left, c) ∨
        (kernel.attempt 0).connects = false ∧ Failed kernel c ∧
          loop info kernel fd 1 = (.test (info.next 0), c)) := by
  have start : Failed kernel ⟨fd, [], [], []⟩ := ended_run info kernel fd 0
  obtain ⟨c, tried, ⟨connects, -, at_⟩ | ⟨refused, failed, -, at_⟩⟩ :=
    body_cases info 0 start
  · exact ⟨c, tried, .inl ⟨connects, at_⟩⟩
  · exact ⟨c, tried, .inr ⟨refused, failed, at_⟩⟩

/-- Behind the second. -/
theorem loop_two (fd : Int) (more : info.next 0 = some 1)
    (refused : (kernel.attempt 0).connects = false) :
    ∃ c, c.tried = [0, 1] ∧
      ((kernel.attempt 1).connects = true ∧ loop info kernel fd 2 = (.left, c) ∨
        (kernel.attempt 1).connects = false ∧ loop info kernel fd 2 = (.test (some 1), c)) := by
  obtain ⟨c, tried, ⟨connects, -⟩ | ⟨-, failed, at_⟩⟩ := loop_one info kernel fd
  · cases refused.symm.trans connects
  · rw [more] at at_
    have step : loop info kernel fd 2 = body info kernel 1 c := by
      rw [loop, at_]
      rfl
    obtain ⟨c', tried', cases_⟩ := body_cases info 1 failed
    rw [tried, more] at cases_
    refine ⟨c', by rw [tried', tried]; rfl, ?_⟩
    rw [step]
    rcases cases_ with ⟨connects, -, at_'⟩ | ⟨refused', -, -, at_'⟩
    · exact .inl ⟨connects, at_'⟩
    · exact .inr ⟨refused', at_'⟩

/-- Where the loop stands behind two failures: it does not get on to a third address. -/
def Stuck : LoopPc × Connecting → Prop
  | (.test cur, c) => cur = some 1 ∧ (c.tried = [0, 1] ∨ [0, 1, 1] <+: c.tried)
  | (.left, c) => [0, 1, 1] <+: c.tried

theorem Stuck.step {x : LoopPc × Connecting} (more : info.next 0 = some 1)
    (ended : Ended kernel x) (stuck : Stuck x) : Stuck (loopStep info kernel x) := by
  obtain ⟨pc, c⟩ := x
  match pc with
  | .test cur =>
      obtain ⟨rfl, before⟩ := stuck
      obtain ⟨c', tried, cases_⟩ := body_cases info 1 ended
      have again : [0, 1, 1] <+: c'.tried := by
        rw [tried]
        rcases before with two | again
        · rw [two]
          exact List.prefix_refl _
        · exact again.trans (List.prefix_append _ _)
      rcases cases_ with ⟨-, -, left_⟩ | ⟨-, -, -, next⟩
      · rw [loopStep, left_]
        exact again
      · rw [loopStep, next]
        exact ⟨more, .inr again⟩
  | .left => exact stuck

theorem stuck_run {n : Nat} (more : info.next 0 = some 1) (stuck : Stuck (loop info kernel fd n))
    (k : Nat) : Stuck (loop info kernel fd (n + k)) := by
  induction k with
  | zero => exact stuck
  | succ k ih => exact ih.step more (ended_run info kernel fd (n + k))

/-- Stuck, it does not return, or has tried the second address twice. -/
theorem not_sound_of_stuck {n : Nat} (more : info.next 0 = some 1)
    (stuck : Stuck (loop info kernel fd n)) : ¬ Sound info kernel fd := by
  intro sound
  obtain ⟨result, c', returns⟩ := sound.returns
  have order := (sound.tried result c' returns).inOrder
  cases returns with
  | @loop _ m c at_ =>
      have ended := ended_run info kernel fd m
      rw [at_] at ended
      rw [(finish_cases ended).1] at order
      have late := stuck_run more stuck m
      rw [Nat.add_comm, loop_left at_ n] at late
      obtain ⟨rest, tried⟩ := late
      have third : c.tried[2]? = some 1 := by
        rw [← tried]
        rfl
      rw [order] at third
      obtain ⟨bound, second⟩ := List.getElem?_eq_some_iff.mp third
      rw [List.getElem_range] at second
      cases second

/-- **The address loop.** It goes through the addresses exactly when there is one, or one of the
first two attempts connects. -/
theorem sound_iff (info : AddrInfo) (kernel : Kernel) (fd : Int) :
    Sound info kernel fd ↔ info.nodes = 1 ∨
      (kernel.attempt 0).connects = true ∨ (kernel.attempt 1).connects = true := by
  obtain ⟨c, tried, ⟨connects, at_⟩ | ⟨refused, -, at_⟩⟩ := loop_one info kernel fd
  · refine iff_of_true (sound_of_walked at_ ⟨?_, ?_, fun none_ => ?_⟩) (.inr (.inl connects))
    · rw [tried]
      rfl
    · rw [tried]
      exact info.some_
    · cases (none_ 0 (by rw [tried]; exact Nat.one_pos)).symm.trans connects
  · by_cases one : info.nodes = 1
    · have last : info.next 0 = none := if_neg (by omega)
      have left_ : loop info kernel fd 2 = (.left, c) := by
        rw [loop, at_, last]
        rfl
      refine iff_of_true (sound_of_walked left_ ⟨?_, ?_, fun _ => ?_⟩) (.inl one)
      · rw [tried]
        rfl
      · rw [tried]
        exact info.some_
      · rw [tried, one]
        rfl
    · have more : info.next 0 = some 1 := by
        have some_ := info.some_
        exact if_pos (by omega)
      obtain ⟨c, tried, ⟨connects, at_⟩ | ⟨refused', again⟩⟩ := loop_two fd more refused
      · refine iff_of_true (sound_of_walked at_ ⟨?_, ?_, fun none_ => ?_⟩)
          (.inr (.inr connects))
        · rw [tried]
          rfl
        · rw [tried]
          have some_ := info.some_
          change 2 ≤ info.nodes
          omega
        · cases (none_ 1 (by rw [tried]; exact Nat.one_lt_two)).symm.trans connects
      · refine iff_of_false (fun sound => ?_) ?_
        · have stuck : Stuck (loop info kernel fd 2) := by
            rw [again]
            exact ⟨rfl, .inl tried⟩
          exact not_sound_of_stuck more stuck sound
        · rintro (single | connects | connects)
          · exact one single
          · cases refused.symm.trans connects
          · cases refused'.symm.trans connects

/-- Three addresses, and none but the third listens: the loop stays at the second. -/
theorem not_sound_third :
    ¬ ∀ (info : AddrInfo) (kernel : Kernel) (fd : Int), Sound info kernel fd := by
  intro law
  have stuck : Stuck (loop ⟨3, by decide⟩ ⟨fun _ => ⟨some 3, false⟩, true, true⟩ (-1) 2) :=
    ⟨rfl, .inl rfl⟩
  exact not_sound_of_stuck rfl stuck (law _ _ _)

/-! ## In the life of the client -/

variable {ι : Type} [DecidableEq ι]

/-- A call of `connect( )` is a step of the client: `m_fd` stays, or is -1, or is a socket that
is connected. -/
theorem lived_of_connect {P : Params} {s : State ι} {track : Track} {resolved : Option AddrInfo}
    {result : TcpError} (between : s.poll = .done)
    (returns : Returns kernel s.fd resolved result c) :
    ∃ outcome track', Lived P (s, track) (.connect outcome) ({ s with fd := c.fd }, track') ∧
      (result = .ok ↔ ∃ fd, outcome = .connected fd) := by
  cases returns with
  | unresolved => exact ⟨.unresolved, track, .unresolved between, nofun, nofun⟩
  | @loop info n c at_ =>
      have ended := ended_run info kernel s.fd n
      rw [at_] at ended
      obtain ⟨-, ok, error⟩ := finish_cases ended
      by_cases fine : (finish kernel c).1 = .ok
      · obtain ⟨succeeded, same⟩ := ok fine
        obtain ⟨fd, socket⟩ := Int.eq_ofNat_of_zero_le succeeded.fd
        rw [same, socket]
        exact ⟨.connected fd, _, .connected fd between, fun _ => ⟨fd, rfl⟩, fun _ => fine⟩
      · have closed := (error fine).2
        rw [closed]
        exact ⟨.failed, track, .failed between, fun fine' => absurd fine' fine, nofun⟩

end Client

end OpenFix
