import OpenFix.Server.PollSet

/-!
# `on_connect` and `on_disconnect`

`on_disconnect` is called in one of the four places in which a client's descriptor is closed,
at POLLHUP. `paired_of_notified` is the law for the runs in which the other three close
nothing that is open: each connection of a descriptor is one `on_connect` and one
`on_disconnect`, before the next.
-/

namespace OpenFix

namespace Server

open Transition (Reaches always)

variable {η : Type}

/-- The descriptors with `on_connect` and no `on_disconnect` since. -/
def connected : List Event → List Int
  | [] => []
  | .connect fd :: log => connected log ++ [fd]
  | .disconnect fd :: log => (connected log).erase fd
  | _ :: log => connected log

/-- An event in the life of a connection with the descriptor `fd`. -/
def Event.concerns (fd : Int) : Event → Bool
  | .accept f => f == fd
  | .connect f => f == fd
  | .disconnect f => f == fd
  | .close f => f == fd
  | _ => false

def history (fd : Int) (log : List Event) : List Event := log.filter (Event.concerns fd)

/-- The connections with the descriptor `fd` one after the other, the latest first: `accept`
and `on_connect`, then `close` and `on_disconnect` in either order. The flag is whether the
last one is open. -/
inductive Lives (fd : Int) : List Event → Bool → Prop
  | fresh : Lives fd [] false
  | connect {log : List Event} : Lives fd log false →
    Lives fd (.connect fd :: .accept fd :: log) true
  | disconnectClose {log : List Event} : Lives fd log true →
    Lives fd (.close fd :: .disconnect fd :: log) false
  | closeDisconnect {log : List Event} : Lives fd log true →
    Lives fd (.disconnect fd :: .close fd :: log) false

/-- The notifications pair up, and the clients told of are those that are open. -/
structure Paired (P : Params) (s : State η) : Prop where
  lives : ∀ fd, fd ≠ P.fd → Lives fd (history fd s.log) (decide (fd ∈ clients s.log))
  connected_eq : connected s.log = clients s.log

/-- An open client is closed at POLLHUP. -/
def Notified (s : State η) (act : Act) : Prop :=
  ∀ x ∈ s.closing act, x.2 ∈ clients s.log → act = .hangUp

instance (s : State η) (act : Act) : Decidable (Notified s act) :=
  inferInstanceAs (Decidable (∀ x ∈ s.closing act, _ → _))

/-! ## The log -/

theorem connected_sessions (log : List Event) : connected (sessions log) = connected log := by
  induction log with
  | nil => rfl
  | cons event log ih =>
      unfold sessions at ih
      cases event with
      | connect fd => exact congrArg (· ++ [fd]) ih
      | disconnect fd => exact congrArg (List.erase · fd) ih
      | _ => exact ih

theorem history_sessions (fd : Int) (log : List Event) :
    history fd (sessions log) = history fd log := by
  unfold history sessions
  rw [List.filter_filter]
  apply List.filter_congr
  intro event _
  cases event with
  | read | out | write | release => rfl
  | _ => exact Bool.and_true _

theorem connected_eq_of_sessions {log log' : List Event} (same : sessions log = log') :
    connected log = connected log' := by
  rw [← same, connected_sessions]

theorem history_eq_of_sessions {log log' : List Event} (fd : Int) (same : sessions log = log') :
    history fd log = history fd log' := by
  rw [← same, history_sessions]

/-! ## Runs -/

variable {H : Handler η} {P : Params} {s s' : State η} {act : Act}

/-- No client is entered twice, and all that are entered are open. -/
structure Entered (P : Params) (s : State η) : Prop extends Paired P s where
  nodup : s.fds.Nodup
  open_ : ∀ fd ∈ s.fds, fd ≠ P.fd → fd ∈ clients s.log

theorem Open.not_mem_clients (opened : Open P s) {fd : Int} (closed : fd ∉ s.sockets) :
    fd ∉ clients s.log := by
  rw [opened.clients_eq]
  exact fun member => closed (List.mem_of_mem_erase member)

theorem Open.clients_nodup (opened : Open P s) : (clients s.log).Nodup := by
  rw [opened.clients_eq]
  exact opened.distinct.erase P.fd

theorem Open.ne_of_mem_clients (opened : Open P s) {fd : Int} (member : fd ∈ clients s.log) :
    fd ≠ P.fd := by
  rintro rfl
  rw [opened.clients_eq] at member
  exact opened.distinct.not_mem_erase member

/-- Nothing that this law is about changes. -/
theorem Entered.same (entered : Entered P s) (fds : List.Sublist s'.fds s.fds)
    (lives : ∀ fd, fd ≠ P.fd → history fd s'.log = history fd s.log)
    (connected_ : connected s'.log = connected s.log) (clients_ : clients s'.log = clients s.log) :
    Entered P s' := by
  refine ⟨⟨?_, ?_⟩, fds.nodup entered.nodup, ?_⟩
  · intro fd client
    rw [lives fd client, clients_]
    exact entered.lives fd client
  · rw [connected_, clients_]
    exact entered.connected_eq
  · intro fd member
    rw [clients_]
    exact entered.open_ fd (fds.subset member)

/-- No event of a connection. -/
theorem Entered.quiet (entered : Entered P s) (fds : List.Sublist s'.fds s.fds)
    (log : sessions s'.log = sessions s.log) : Entered P s' := by
  apply entered.same fds
  · intro fd _
    rw [history_eq_of_sessions fd log, history_sessions]
  · rw [connected_eq_of_sessions log, connected_sessions]
  · rw [clients_eq_of_sessions log, clients_sessions]

/-- The listening socket goes. -/
theorem Entered.listener (entered : Entered P s) (opened : Open P s)
    (fds : List.Sublist s'.fds s.fds)
    (log : sessions s'.log = s.closed P.fd ++ (act.notice P.fd ++ sessions s.log)) :
    Entered P s' := by
  have absent : P.fd ∉ clients s.log := fun member => opened.ne_of_mem_clients member rfl
  apply entered.same fds
  · intro fd client
    have silent : history fd (act.notice P.fd ++ sessions s.log) = history fd s.log := by
      rw [← history_sessions fd s.log]
      cases act with
      | hangUp => simp [history, Act.notice, Event.concerns, client.symm]
      | _ => rfl
    rw [history_eq_of_sessions fd log, ← silent, State.closed]
    split
    case isTrue => simp [history, Event.concerns, client.symm]
    case isFalse => rfl
  · have silent : connected (act.notice P.fd ++ sessions s.log) = connected s.log := by
      cases act with
      | hangUp =>
          have told : P.fd ∉ connected (sessions s.log) := by
            rw [connected_sessions, entered.connected_eq]
            exact absent
          exact (List.erase_of_not_mem told).trans (connected_sessions s.log)
      | _ => exact connected_sessions s.log
    rw [connected_eq_of_sessions log, ← silent, State.closed]
    split
    case isTrue => rfl
    case isFalse => rfl
  · rw [clients_eq_of_sessions log, clients_closed, List.erase_of_not_mem absent, ite_self]

theorem Entered.arrive (entered : Entered P s) (opened : Open P s) {fd : Int}
    (listening : P.fd ∈ s.sockets) (fresh : fd ∉ s.sockets) (fds : s'.fds = s.fds ++ [fd])
    (log : sessions s'.log = .connect fd :: .accept fd :: sessions s.log) : Entered P s' := by
  have clients_ : clients s'.log = clients s.log ++ [fd] := by
    rw [clients_eq_of_sessions log, ← clients_sessions s.log]
    rfl
  refine ⟨⟨?_, ?_⟩, ?_, ?_⟩
  · intro f client
    have before := entered.lives f client
    rw [history_eq_of_sessions f log, clients_]
    by_cases same : fd = f
    · subst same
      rw [decide_eq_false (opened.not_mem_clients fresh)] at before
      have events : history fd (.connect fd :: .accept fd :: sessions s.log) =
          .connect fd :: .accept fd :: history fd s.log := by
        rw [← history_sessions fd s.log]
        simp [history, Event.concerns]
      rw [events, decide_eq_true (List.mem_append_right _ (List.mem_singleton_self fd))]
      exact before.connect
    · have events : history f (.connect fd :: .accept fd :: sessions s.log) =
          history f s.log := by
        rw [← history_sessions f s.log]
        simp [history, Event.concerns, same]
      rw [events]
      simpa [Ne.symm same] using before
  · rw [connected_eq_of_sessions log, clients_, ← entered.connected_eq,
      ← connected_sessions s.log]
    rfl
  · have client : fd ≠ P.fd := fun same => fresh (same ▸ listening)
    rw [fds]
    exact entered.nodup.append (List.nodup_singleton fd)
      (List.disjoint_singleton.mpr fun member =>
        opened.not_mem_clients fresh (entered.open_ fd member client))
  · rw [fds, clients_]
    intro f member client
    rcases List.mem_append.mp member with old | new
    · exact List.mem_append_left _ (entered.open_ f old client)
    · exact List.mem_append_right _ new

theorem Entered.hangUp (entered : Entered P s) (opened : Open P s) {i : Nat} {fd : Int}
    (entry : s.fds[i]? = some fd) (fds : s'.fds = s.fds.eraseIdx i) (open_ : fd ∈ clients s.log)
    (log : sessions s'.log = .close fd :: .disconnect fd :: sessions s.log) : Entered P s' := by
  have clients_ : clients s'.log = (clients s.log).erase fd := by
    rw [clients_eq_of_sessions log, ← clients_sessions s.log]
    rfl
  refine ⟨⟨?_, ?_⟩, ?_, ?_⟩
  · intro f client
    have before := entered.lives f client
    rw [history_eq_of_sessions f log, clients_]
    by_cases same : fd = f
    · subst same
      rw [decide_eq_true open_] at before
      have events : history fd (.close fd :: .disconnect fd :: sessions s.log) =
          .close fd :: .disconnect fd :: history fd s.log := by
        rw [← history_sessions fd s.log]
        simp [history, Event.concerns]
      rw [events, decide_eq_false opened.clients_nodup.not_mem_erase]
      exact before.disconnectClose
    · have events : history f (.close fd :: .disconnect fd :: sessions s.log) =
          history f s.log := by
        rw [← history_sessions f s.log]
        simp [history, Event.concerns, same]
      rw [events]
      simpa [List.mem_erase_of_ne (Ne.symm same)] using before
  · rw [connected_eq_of_sessions log, clients_, ← entered.connected_eq,
      ← connected_sessions s.log]
    rfl
  · rw [fds]
    exact entered.nodup.eraseIdx i
  · rw [fds, clients_, Erase.eraseIdx_eq_erase entered.nodup entry]
    intro f member client
    obtain ⟨other, before⟩ := entered.nodup.mem_erase_iff.mp member
    exact (List.mem_erase_of_ne other).mpr (entered.open_ f before client)

theorem State.closing_hangUp {i : Nat} {fd : Int} (closing : s.closing .hangUp = some (i, fd)) :
    s.fds[i]? = some fd := by
  cases at_ : s.pc with
  | scan j =>
      simp only [State.closing, at_] at closing
      obtain ⟨_, entry, same⟩ := Option.map_eq_some_iff.mp closing
      cases same
      exact entry
  | _ =>
      simp only [State.closing, at_] at closing
      cases closing

theorem Act.notice_eq_nil (other : act ≠ .hangUp) (fd : Int) : act.notice fd = [] := by
  cases act with
  | hangUp => exact absurd rfl other
  | _ => rfl

/-- A step that closes clients at POLLHUP only. -/
theorem Entered.step (entered : Entered P s) (opened : Open P s) (notified : Notified s act)
    (stepped : Step H P s act s') : Entered P s' := by
  cases stepped.change with
  | keep _ fds _ log => exact entered.quiet (by rw [fds]) log
  | arrive fd _ _ listening fresh fds _ log =>
      exact entered.arrive opened listening fresh fds log
  | drop i fd closing fds _ log =>
      have sublist : List.Sublist s'.fds s.fds := by
        rw [fds]
        exact List.eraseIdx_sublist ..
      by_cases open_ : fd ∈ clients s.log
      · cases notified (i, fd) closing open_
        have socket : fd ∈ s.sockets := by
          rw [opened.clients_eq] at open_
          exact List.mem_of_mem_erase open_
        rw [State.closed, if_pos socket] at log
        exact entered.hangUp opened (State.closing_hangUp closing) fds open_ log
      · by_cases client : fd = P.fd
        · subst client
          exact entered.listener opened sublist log
        · have closed : fd ∉ s.sockets := by
            rw [opened.clients_eq] at open_
            exact fun socket => open_ ((List.mem_erase_of_ne client).mpr socket)
          -- A hang-up is of what is entered, and a client entered is open.
          have other : act ≠ .hangUp := by
            rintro rfl
            have entry := State.closing_hangUp closing
            exact open_ (entered.open_ fd (List.mem_of_getElem? entry) client)
          rw [State.closed, if_neg closed, Act.notice_eq_nil other] at log
          exact entered.quiet sublist log

theorem Entered.bound (P : Params) (handler : η) : Entered P (State.bound P handler) :=
  ⟨⟨fun _ _ => .fresh, rfl⟩, List.nodup_singleton P.fd, fun _ member client =>
    absurd (List.mem_singleton.mp member) client⟩

/-- A client closed elsewhere is not told of. -/
theorem Step.notified_of_paired (opened : Open P s) (paired : Paired P s)
    (stepped : Step H P s act s') (paired' : Paired P s') : Notified s act := by
  rintro ⟨i, fd⟩ closing open_
  by_contra elsewhere
  obtain ⟨_, log, left⟩ := stepped.change.of_closing closing
  have socket : fd ∈ s.sockets := by
    rw [opened.clients_eq] at open_
    exact List.mem_of_mem_erase open_
  have told : connected s'.log = connected s.log := by
    rw [Act.notice_eq_nil elsewhere, State.closed, if_pos socket] at log
    exact (connected_eq_of_sessions log).trans (connected_sessions s.log)
  rw [paired.connected_eq, paired'.connected_eq, left, if_pos socket] at told
  exact opened.clients_nodup.not_mem_erase (told ▸ open_)

/-- **Notifications.** In every run in which `run( )` closes an open client at POLLHUP
only, each connection of each descriptor is told to the handler once when it begins and once
when it ends, before the next, and the clients told of and not yet gone are those open. -/
theorem paired_of_notified (H : Handler η) (P : Params) (handler : η) (s : State η)
    (reaches : Reaches (Step H P) Notified (State.bound P handler) s) : Paired P s := by
  have entered : Entered P s := by
    apply reaches.invariant (Entered.bound P handler)
    intro s act s' before entered notified stepped
    exact entered.step (open_of_reaches before) notified stepped
  exact entered.toPaired

/-- Client 4 hangs up, and its descriptor is accepted again. -/
theorem paired_of_notified_again :
    ∃ s : State (List Int),
      s.log = [.connect 4, .accept 4, .close 4, .disconnect 4, .connect 4, .accept 4] ∧
        Paired (tcpServer 3) s := by
  have run : ∃ s,
      Reaches (Step tcpHandler (tcpServer 3)) Notified (State.bound (tcpServer 3) []) s ∧
      s.log = [.connect 4, .accept 4, .close 4, .disconnect 4, .connect 4, .accept 4] :=
    exists_of_play (List.flatten [accepting 0 4, [.poll [quiet, ⟨false, true, false⟩]], passing,
      [.hangUp], accepting 0 4]) (by decide +kernel)
  obtain ⟨s, reaches, log⟩ := run
  exact ⟨s, log, paired_of_notified tcpHandler (tcpServer 3) [] s reaches⟩

/-- Client 4 reaches the end of its stream: it is closed and not told of. -/
theorem not_paired_endOfFile :
    ¬ ∀ s : State (List Int),
      Reaches (Step tcpHandler (tcpServer 3)) always (State.bound (tcpServer 3) []) s →
      s.pc = .top → Paired (tcpServer 3) s := by
  intro law
  have run : ∃ s, Reaches (Step tcpHandler (tcpServer 3)) always (State.bound (tcpServer 3) []) s ∧
      s.pc = .top ∧ connected s.log = [4] ∧ clients s.log = [] :=
    exists_of_play (List.flatten [accepting 0 4, [.poll [quiet, readableOnly]], passing,
      [.readable, .takeBuf, .readFail, .release]]) (by decide +kernel)
  obtain ⟨s, reaches, top, told, open_⟩ := run
  have same := (law s reaches top).connected_eq
  rw [told, open_] at same
  cases same

end Server

end OpenFix
