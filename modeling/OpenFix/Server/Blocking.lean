import OpenFix.Server.Buffers

/-!
# The test server on one thread

`run( )` is the producer and the consumer of both the queue and the pool, so a push onto the
full queue or a pop from the empty pool waits for ever. The pool is four times the queue and is
never empty; the queue is as long as active clients are read while none is writable.

* `Unaddressed`: the handler posts for all clients, so nothing is addressed and nothing
  filtered out of the queue.
* `not_blocked_of_roomy`: nothing waits in a run that reads an active client with room in
  the queue.
-/

namespace OpenFix

namespace Server

open Transition (Reaches always)

variable {η : Type}

/-- What `on_read` has still to post. -/
def Pc.posts : Pc → List TaggedTcpMsg
  | .onRead _ _ posts _ => posts
  | _ => []

/-- `run( )` is in a push onto the full queue, or in a pop from the empty pool. -/
inductive Blocked (P : Params) (s : State η) : Prop
  | push {i b : Nat} {msg : TaggedTcpMsg} {rest : List TaggedTcpMsg} {ret : Bool} :
    s.pc = .onRead i b (msg :: rest) ret → P.outSize ≤ s.outQueue.length → Blocked P s
  | pop {i : Nat} : s.pc = .getBuf i → s.bufpool = [] → Blocked P s

/-- The client whose data `act` reads. -/
def State.reader (s : State η) : Act → Option Int
  | .read _ =>
      match s.pc with
      | .read i _ => s.fds[i]?
      | _ => none
  | _ => none

/-- `run( )` alone, and an active client is read when the queue is not full. -/
def Roomy (P : Params) (s : State (List Int)) (act : Act) : Prop :=
  act.own = true ∧ ∀ fd ∈ s.reader act, fd ∈ s.handler → s.outQueue.length < P.outSize

instance (P : Params) (s : State (List Int)) (act : Act) : Decidable (Roomy P s act) :=
  inferInstanceAs (Decidable (_ ∧ ∀ fd ∈ s.reader act, _ → _))

/-! ## What the handler posts -/

theorem tcpHandler_onRead {active active' : List Int} {fd : Int} {buf : Nat} {data : List UInt8}
    {posts : List TaggedTcpMsg} {ret : Bool}
    (answer : tcpHandler.onRead active fd buf data = (active', posts, ret)) :
    (fd ∈ active ∧ active' = active ∧ posts = [⟨buf, data.length, 0⟩]) ∨
      (fd ∉ active ∧ active' = (if sub <:+: data then active ++ [fd] else active) ∧
        posts = []) := by
  by_cases member : fd ∈ active
  · simp only [tcpHandler, if_pos member] at answer
    cases answer
    exact .inl ⟨member, rfl, rfl⟩
  · simp only [tcpHandler, if_neg member] at answer
    cases answer
    exact .inr ⟨member, rfl, rfl⟩

/-- Every message is for all clients. -/
structure Unaddressed (s : State η) : Prop where
  queue : ∀ msg ∈ s.outQueue, msg.fd = 0
  posts : ∀ msg ∈ s.pc.posts, msg.fd = 0
  write : ∀ i msg, s.pc ≠ .write i msg

theorem Unaddressed.head {s : State η} (unaddressed : Unaddressed s) {msg : TaggedTcpMsg}
    {rest : List TaggedTcpMsg} (queue : s.outQueue = msg :: rest) : msg.fd = 0 := by
  apply unaddressed.queue
  rw [queue]
  exact List.mem_cons_self

variable {P : Params} {s s' : State (List Int)} {act : Act}

/-- The queue gets nothing, and `run( )` is elsewhere. -/
theorem Unaddressed.move (unaddressed : Unaddressed s) (queue : s'.outQueue ⊆ s.outQueue)
    (posts : s'.pc.posts = []) (write : ∀ i msg, s'.pc ≠ .write i msg) : Unaddressed s' := by
  refine ⟨?_, ?_, write⟩
  · intro msg member
    exact unaddressed.queue msg (queue member)
  · intro msg member
    rw [posts] at member
    cases member

theorem Unaddressed.step (unaddressed : Unaddressed s) (own : act.own = true)
    (stepped : Step tcpHandler P s act s') : Unaddressed s' := by
  cases stepped with
  | @read i b c handler posts ret data at_ _ _ _ _ answer =>
      refine ⟨unaddressed.queue, ?_, nofun⟩
      intro msg member
      rcases tcpHandler_onRead answer with ⟨_, _, rfl⟩ | ⟨_, _, rfl⟩
      · rw [List.mem_singleton.mp member]
      · cases member
  | @push i b msg rest ret at_ _ =>
      have posts := unaddressed.posts
      rw [at_] at posts
      refine ⟨?_, ?_, nofun⟩
      · intro m member
        rcases List.mem_append.mp member with old | new
        · exact unaddressed.queue m old
        · rw [List.mem_singleton.mp new]
          exact posts msg List.mem_cons_self
      · intro m member
        exact posts m (List.mem_cons_of_mem msg member)
  | @release b next at_ _ =>
      cases next with
      | _ => exact unaddressed.move (List.Subset.refl _) rfl nofun
  | @handled i b ret at_ =>
      cases ret with
      | _ => exact unaddressed.move (List.Subset.refl _) rfl nofun
  | @popBroadcast i c msg rest at_ _ _ queue _ =>
      refine unaddressed.move ?_ rfl nofun
      rw [queue]
      exact List.subset_cons_self msg rest
  | popAccept _ _ _ queue addressed _ => exact absurd (unaddressed.head queue) addressed
  | popFilter _ _ _ queue addressed _ => exact absurd (unaddressed.head queue) addressed
  | write at_ => exact absurd at_ (unaddressed.write _ _)
  | writeFail at_ => exact absurd at_ (unaddressed.write _ _)
  | pollNone => exact unaddressed
  | post msg => exact absurd own Bool.false_ne_true
  | _ => exact unaddressed.move (List.Subset.refl _) rfl nofun

theorem unaddressed_of_own {cond : State (List Int) → Act → Prop}
    (own : ∀ s act, cond s act → act.own = true)
    (reaches : Reaches (Step tcpHandler P) cond (State.bound P []) s) : Unaddressed s := by
  have start : Unaddressed (State.bound P ([] : List Int)) := ⟨nofun, nofun, nofun⟩
  apply reaches.invariant start
  intro s act s' _ unaddressed meets stepped
  exact unaddressed.step (own s act meets) stepped

/-- Nothing is filtered out of the queue, so every run keeps its buffers. -/
theorem conserved_of_own {cond : State (List Int) → Act → Prop}
    (own : ∀ s act, cond s act → act.own = true)
    (reaches : Reaches (Step tcpHandler P) cond (State.bound P []) s) : Conserved P s := by
  have sent : Reaches (Step tcpHandler P) Sent (State.bound P []) s := by
    apply reaches.meets
    intro s act s' before meets stepped
    refine ⟨own s act meets, ?_⟩
    rintro rfl
    cases stepped with
    | popFilter _ _ _ queue addressed _ =>
        exact addressed ((unaddressed_of_own own before).head queue)
  exact conserved_of_reaches tcpHandler_disciplined sent

/-! ## Room in the queue -/

/-- What is still to be posted has room. -/
def Fits (P : Params) (s : State η) : Prop :=
  s.outQueue.length + s.pc.posts.length ≤ P.outSize

theorem Fits.move (fits : Fits P s) (queue : s'.outQueue.length ≤ s.outQueue.length)
    (posts : s'.pc.posts = []) : Fits P s' := by
  unfold Fits at fits ⊢
  rw [posts, List.length_nil]
  omega

theorem Fits.pop (fits : Fits P s) {msg : TaggedTcpMsg} {rest : List TaggedTcpMsg}
    (queue : s.outQueue = msg :: rest) (queue' : s'.outQueue = rest) (posts : s'.pc.posts = []) :
    Fits P s' := by
  apply fits.move _ posts
  rw [queue, queue']
  exact Nat.le_succ _

/-- A step with room. -/
theorem Fits.step (fits : Fits P s) (roomy : Roomy P s act)
    (stepped : Step tcpHandler P s act s') : Fits P s' := by
  cases stepped with
  | @read i b c handler posts ret data at_ entry _ _ _ answer =>
      rcases tcpHandler_onRead answer with ⟨active, _, rfl⟩ | ⟨_, _, rfl⟩
      · have reader : c.fd ∈ s.reader (.read data) := by
          simp only [State.reader, at_]
          exact State.fds_getElem? entry
        exact roomy.2 c.fd reader active
      · exact fits.move (Nat.le_refl _) rfl
  | @push i b msg rest ret at_ _ =>
      unfold Fits at fits ⊢
      rw [at_] at fits
      simp only [Pc.posts, List.length_append, List.length_cons, List.length_nil] at fits ⊢
      omega
  | @release b next at_ _ =>
      cases next with
      | _ => exact fits.move (Nat.le_refl _) rfl
  | @handled i b ret at_ =>
      cases ret with
      | _ => exact fits.move (Nat.le_refl _) rfl
  | popBroadcast _ _ _ queue _ => exact fits.pop queue rfl rfl
  | popAccept _ _ _ queue _ _ => exact fits.pop queue rfl rfl
  | popFilter _ _ _ queue _ _ => exact fits.pop queue rfl rfl
  | pollNone => exact fits
  | post msg => exact absurd roomy.1 Bool.false_ne_true
  | _ => exact fits.move (Nat.le_refl _) rfl

theorem fits_of_roomy
    (reaches : Reaches (Step tcpHandler P) (Roomy P) (State.bound P []) s) : Fits P s := by
  have start : Fits P (State.bound P ([] : List Int)) := Nat.zero_le _
  apply reaches.invariant start
  intro s act s' _ fits roomy stepped
  exact fits.step roomy stepped

/-- Without room the read is the last step. -/
theorem Step.blocked (own : act.own = true) (tight : ¬ Roomy P s act)
    (stepped : Step tcpHandler P s act s') : Blocked P s' := by
  cases stepped with
  | @read i b c handler posts ret data at_ entry open_ some_ room answer =>
      have reader : s.reader (.read data) = some c.fd := by
        simp only [State.reader, at_]
        exact State.fds_getElem? entry
      rcases tcpHandler_onRead answer with ⟨_, _, rfl⟩ | ⟨inactive, _, _⟩
      · apply Blocked.push rfl
        by_contra free
        exact tight ⟨own, fun _ _ _ => Nat.lt_of_not_le free⟩
      · refine absurd ⟨own, ?_⟩ tight
        intro fd reads member
        cases reader.symm.trans reads
        exact absurd member inactive
  | _ => exact absurd ⟨own, nofun⟩ tight

/-- **Blocking.** In every run of the test server in which an active client is read when the
queue is not full, `run( )` never waits for room in the queue or for a buffer. -/
theorem not_blocked_of_roomy (fd : Int) (s : State (List Int))
    (reaches : Reaches (Step tcpHandler (tcpServer fd)) (Roomy (tcpServer fd))
      (State.bound (tcpServer fd) []) s) : ¬ Blocked (tcpServer fd) s := by
  have fits := fits_of_roomy reaches
  have conserved := conserved_of_own (fun _ _ roomy => roomy.1) reaches
  intro blocked
  cases blocked with
  | push at_ full =>
      unfold Fits at fits
      rw [at_, Pc.posts, List.length_cons] at fits
      omega
  | pop at_ empty =>
      have all := conserved.length_eq
      unfold State.account at all
      rw [empty, at_] at all
      simp only [Pc.held, List.nil_append, List.append_nil, List.length_map, List.length_range]
        at all
      have queue : s.outQueue.length ≤ 16 := Nat.le_trans (Nat.le_add_right _ _) fits
      have pool : s.outQueue.length = 64 := all
      omega

/-- The queue is full. -/
theorem not_blocked_of_roomy_full :
    ∃ s : State (List Int), s.outQueue.length = 16 ∧ ¬ Blocked (tcpServer 3) s := by
  have run : ∃ s, Reaches (Step tcpHandler (tcpServer 3)) (Roomy (tcpServer 3))
      (State.bound (tcpServer 3) []) s ∧ s.outQueue.length = 16 :=
    exists_of_play (List.flatten (twoActive :: List.replicate 16 posting)) (by decide +kernel)
  obtain ⟨s, reaches, full⟩ := run
  exact ⟨s, full, not_blocked_of_roomy 3 s reaches⟩

/-- The message after that: `on_read` is in the push onto the full queue. -/
theorem blocked_flood :
    ¬ ∀ s : State (List Int),
      Reaches (Step tcpHandler (tcpServer 3)) Own (State.bound (tcpServer 3) []) s →
      ¬ Blocked (tcpServer 3) s := by
  intro law
  have run : ∃ s, Reaches (Step tcpHandler (tcpServer 3)) Own (State.bound (tcpServer 3) []) s ∧
      s.pc = .onRead 1 18 [⟨18, 1, 0⟩] false ∧ s.outQueue.length = 16 :=
    exists_of_play (List.flatten [twoActive, (List.replicate 16 posting).flatten,
      [.poll [quiet, readableOnly, quiet]], passing, [.readable, .takeBuf, .read [1]]])
      (by decide +kernel)
  obtain ⟨s, reaches, at_, full⟩ := run
  exact law s reaches (.push at_ (Nat.le_of_eq full.symm))

end Server

end OpenFix
