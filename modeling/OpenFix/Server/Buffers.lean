import OpenFix.Server.Notify

/-!
# The buffers of the server

A buffer is in the pool, in the queue, or in the hands of `run( )`. Every way through the loop
gives back what it holds, but for the filter of an addressed message: its `continue` leaves
`release_buf` out.

* `Step.account`: where the buffers are, before and behind a step.
* `conserved_of_sent`: no buffer is lost or doubled as long as no addressed message is
  filtered.
-/

namespace OpenFix

namespace Server

open Transition (Reaches always)

variable {η : Type}

/-- `on_read` returns true and posts nothing, or false and posts its buffer once. -/
def Handler.Disciplined (H : Handler η) : Prop :=
  ∀ handler fd buf data,
    (H.onRead handler fd buf data).2 = ([], true) ∨
      ∃ msg : TaggedTcpMsg, (H.onRead handler fd buf data).2 = ([msg], false) ∧ msg.buf = buf

/-- A step of `run( )`, not of another thread that posts. -/
def Act.own : Act → Bool
  | .post _ => false
  | _ => true

/-- `run( )` alone. -/
def Own (_ : State η) (act : Act) : Prop := act.own = true

instance (s : State η) (act : Act) : Decidable (Own s act) :=
  inferInstanceAs (Decidable (_ = _))

/-- The buffers in the hands of `run( )`. -/
def Pc.held : Pc → List Nat
  | .read _ b => [b]
  | .onRead _ b posts ret => posts.map (·.buf) ++ if ret then [b] else []
  | .release b _ => [b]
  | .broadcast _ msg _ _ => [msg.buf]
  | .writeTo _ msg _ _ => [msg.buf]
  | .write _ msg => [msg.buf]
  | .faulted msg => [msg.buf]
  | _ => []

/-- Where the buffers are. -/
def State.account (s : State η) : List Nat := s.bufpool ++ s.outQueue.map (·.buf) ++ s.pc.held

/-- Each buffer is in one place. -/
def Conserved (P : Params) (s : State η) : Prop := s.account.Perm (List.range P.bufPoolSize)

/-- `run( )` alone, and no addressed message is filtered. -/
def Sent (_ : State η) (act : Act) : Prop := act.own = true ∧ act ≠ .popFilter

instance (s : State η) (act : Act) : Decidable (Sent s act) :=
  inferInstanceAs (Decidable (_ ∧ _))

/-! ## What a step does -/

variable {H : Handler η} {P : Params} {s s' : State η} {act : Act}

/-- Pool and queue stay, and the hands hold what they held. -/
theorem State.account_move {pc : Pc} (pool : s'.bufpool = s.bufpool)
    (queue : s'.outQueue = s.outQueue) (at_ : s.pc = pc) (held : s'.pc.held = pc.held) :
    s'.account.Perm s.account := by
  unfold account
  rw [pool, queue, held, at_]

/-- The first message of the queue comes into the hands. -/
theorem State.account_pop {pc : Pc} {msg : TaggedTcpMsg} {rest : List TaggedTcpMsg}
    (pool : s'.bufpool = s.bufpool) (queue : s.outQueue = msg :: rest)
    (queue' : s'.outQueue = rest) (at_ : s.pc = pc) (empty : pc.held = [])
    (held : s'.pc.held = [msg.buf]) : s'.account.Perm s.account := by
  unfold account
  rw [pool, queue, queue', held, at_, empty, List.append_nil, List.append_assoc]
  exact (List.perm_append_singleton msg.buf _).append_left s.bufpool

/-- A step. Buffers move and none is lost. -/
theorem Step.account (disciplined : H.Disciplined) (sent : Sent s act)
    (stepped : Step H P s act s') : s'.account.Perm s.account := by
  cases stepped with
  | leave at_ _ => exact State.account_move rfl rfl at_ rfl
  | pollError at_ _ => exact State.account_move rfl rfl at_ rfl
  | pollNone at_ _ => exact List.Perm.refl _
  | poll revents at_ _ => exact State.account_move rfl rfl at_ rfl
  | scanEnd at_ _ => exact State.account_move rfl rfl at_ rfl
  | hangUp at_ _ _ => exact State.account_move rfl rfl at_ rfl
  | accept fd at_ => exact State.account_move rfl rfl at_ rfl
  | acceptFail at_ => exact State.account_move rfl rfl at_ rfl
  | readable at_ => exact State.account_move rfl rfl at_ rfl
  | unreadable at_ => exact State.account_move rfl rfl at_ rfl
  | @takeBuf i b rest at_ pool =>
      unfold State.account
      rw [pool, at_]
      simp only [Pc.held, List.append_nil, List.cons_append]
      exact List.perm_append_singleton b _
  | @read i b c handler posts ret data at_ _ _ _ _ answer =>
      have held : (Pc.onRead i b posts ret).held = [b] := by
        rcases disciplined s.handler c.fd b data with keeps | ⟨msg, gives, buf⟩
        · rw [answer] at keeps
          cases keeps
          rfl
        · rw [answer] at gives
          cases gives
          exact congrArg (fun b => [b]) buf
      exact State.account_move rfl rfl at_ held
  | readFail at_ _ => exact State.account_move rfl rfl at_ rfl
  | @push i b msg rest ret at_ _ =>
      unfold State.account
      rw [at_]
      simp only [Pc.held, List.map_append, List.map_cons, List.map_nil, List.append_assoc,
        List.cons_append, List.nil_append]
      exact List.Perm.refl _
  | @handled i b ret at_ =>
      cases ret with
      | true => exact State.account_move rfl rfl at_ rfl
      | false => exact State.account_move rfl rfl at_ rfl
  | @release b next at_ _ =>
      have empty : next.pc.held = [] := by
        cases next with
        | _ => rfl
      unfold State.account
      rw [empty, at_, List.append_nil, List.append_assoc, List.append_assoc]
      exact List.perm_append_comm.append_left s.bufpool
  | unwritable at_ => exact State.account_move rfl rfl at_ rfl
  | popEmpty at_ => exact State.account_move rfl rfl at_ rfl
  | popBroadcast at_ _ _ queue => exact State.account_pop rfl queue rfl at_ rfl rfl
  | popAccept at_ _ _ queue => exact State.account_pop rfl queue rfl at_ rfl rfl
  | popFilter => exact absurd rfl sent.2
  | write at_ => exact State.account_move rfl rfl at_ rfl
  | writeFail at_ => exact State.account_move rfl rfl at_ rfl
  | broadcastEnd at_ => exact State.account_move rfl rfl at_ rfl
  | listener at_ => exact State.account_move rfl rfl at_ rfl
  | accepted at_ => exact State.account_move rfl rfl at_ rfl
  | filter at_ => exact State.account_move rfl rfl at_ rfl
  | writeTo at_ => exact State.account_move rfl rfl at_ rfl
  | writeToFail at_ => exact State.account_move rfl rfl at_ rfl
  | eraseEnd at_ => exact State.account_move rfl rfl at_ rfl
  | post msg => exact absurd sent.1 Bool.false_ne_true

/-! ## Runs -/

theorem conserved_of_reaches (disciplined : H.Disciplined) {handler : η}
    (reaches : Reaches (Step H P) Sent (State.bound P handler) s) : Conserved P s := by
  have start : Conserved P (State.bound P handler) := by
    unfold Conserved State.account
    exact List.Perm.of_eq (by simp [State.bound, Pc.held])
  apply reaches.invariant start
  intro s act s' _ conserved sent stepped
  exact (stepped.account disciplined sent).trans conserved

theorem Step.account_length (disciplined : H.Disciplined) (own : act.own = true)
    (stepped : Step H P s act s') :
    s'.account.length + (if act = .popFilter then 1 else 0) = s.account.length := by
  by_cases filtered : act = .popFilter
  · rw [if_pos filtered]
    subst filtered
    cases stepped with
    | popFilter at_ _ _ queue =>
        unfold State.account
        rw [at_, queue]
        simp [State.emit, Pc.held]
        omega
  · rw [if_neg filtered]
    exact (stepped.account disciplined ⟨own, filtered⟩).length_eq

/-- A filtered message costs a buffer for ever. -/
theorem not_conserved_of_filtered (disciplined : H.Disciplined) {s₁ : State η}
    (conserved : Conserved P s) (filtered : Step H P s .popFilter s₁)
    (later : Reaches (Step H P) Own s₁ s') : ¬ Conserved P s' := by
  have lost := filtered.account_length disciplined rfl
  rw [if_pos rfl] at lost
  have fewer : s'.account.length < s.account.length := by
    refine later.invariant (I := fun t => t.account.length < s.account.length) (by omega) ?_
    intro t act t' _ fewer own stepped
    have counted := stepped.account_length disciplined own
    omega
  intro conserved'
  have all := conserved.length_eq
  have all' := conserved'.length_eq
  omega

/-- **Buffers.** In every run of `run( )` with such a handler in which no addressed message is
filtered, at the top of the loop each of the buffers is in one of the pool and the queue, and
there once. -/
theorem conserved_of_sent (H : Handler η) (disciplined : H.Disciplined) (P : Params)
    (handler : η) (s : State η)
    (reaches : Reaches (Step H P) Sent (State.bound P handler) s) (top : s.pc = .top) :
    (s.bufpool ++ s.outQueue.map (·.buf)).Perm (List.range P.bufPoolSize) := by
  have conserved := conserved_of_reaches disciplined reaches
  have empty : s.pc.held = [] := by
    rw [top]
    rfl
  unfold Conserved State.account at conserved
  rw [empty, List.append_nil] at conserved
  exact conserved

/-! ## The handler of the test server, and one that answers -/

theorem tcpHandler_disciplined : tcpHandler.Disciplined := by
  intro active fd buf data
  by_cases member : fd ∈ active
  · refine .inr ⟨⟨buf, data.length, 0⟩, ?_, rfl⟩
    simp only [tcpHandler, if_pos member]
  · refine .inl ?_
    simp only [tcpHandler, if_neg member]

/-- A message of client 4 waits. -/
theorem conserved_of_sent_waiting :
    ∃ s : State (List Int), s.outQueue = [⟨2, 1, 0⟩] ∧
      (s.bufpool ++ s.outQueue.map (·.buf)).Perm (List.range 64) := by
  have run : ∃ s, Reaches (Step tcpHandler (tcpServer 3)) Sent (State.bound (tcpServer 3) []) s ∧
      s.pc = .top ∧ s.outQueue = [⟨2, 1, 0⟩] :=
    exists_of_play (List.flatten [twoActive, posting]) (by decide +kernel)
  obtain ⟨s, reaches, top, queue⟩ := run
  exact ⟨s, queue,
    conserved_of_sent tcpHandler tcpHandler_disciplined (tcpServer 3) [] s reaches top⟩

/-- A handler that sends what it reads back to the client, with a filter that lets nothing
through. -/
def muteEcho : Handler Unit where
  onConnect _ _ := ()
  onDisconnect _ _ := ()
  onOut _ _ := ((), false)
  onRead _ fd buf data := ((), [⟨buf, data.length, fd⟩], false)

theorem muteEcho_disciplined : muteEcho.Disciplined :=
  fun _ fd buf data => .inr ⟨⟨buf, data.length, fd⟩, rfl, rfl⟩

/-- The filter takes an answer out of the queue, and its buffer is gone. -/
theorem not_conserved_filter :
    ¬ ∀ H : Handler Unit, H.Disciplined → ∀ s : State Unit,
      Reaches (Step H (tcpServer 3)) Own (State.bound (tcpServer 3) ()) s →
      s.pc = .top → (s.bufpool ++ s.outQueue.map (·.buf)).Perm (List.range 64) := by
  intro law
  have run : ∃ s, Reaches (Step muteEcho (tcpServer 3)) Own (State.bound (tcpServer 3) ()) s ∧
      s.pc = .top ∧ 0 ∉ s.bufpool ∧ s.outQueue = [] :=
    exists_of_play (List.flatten [accepting 0 4, [.poll [quiet, ⟨true, false, true⟩]], passing,
      [.readable, .takeBuf, .read [1], .push, .handled, .popFilter, .scanEnd]]) (by decide +kernel)
  obtain ⟨s, reaches, top, gone, queue⟩ := run
  have conserved := law muteEcho muteEcho_disciplined s reaches top
  have lost : 0 ∈ s.bufpool ++ s.outQueue.map (·.buf) :=
    conserved.mem_iff.mpr (List.mem_range.mpr (by decide))
  rw [queue, List.map_nil, List.append_nil] at lost
  exact gone lost

end Server

end OpenFix
