import OpenFix.Lib.Erase
import OpenFix.Server.TcpHandler

/-!
# The poll set

`run( )` adds to `m_pollfds` in one place and erases in four. Each erases the entry of the scan
and closes the descriptor that failed, and a failing write may be to another client.

* `Step.change`: what a step does to the entries and to the open descriptors.
* `tracked_of_aligned`: as long as each descriptor closed is that of the client scanned, the
  entries are the listening socket and the clients accepted and not closed, and a failure
  takes nothing else away.
-/

namespace OpenFix

namespace Server

open Transition (Reaches always)

variable {η : Type}

/-- The descriptors accepted and not closed since. -/
def clients : List Event → List Int
  | [] => []
  | .accept fd :: log => clients log ++ [fd]
  | .close fd :: log => (clients log).erase fd
  | _ :: log => clients log

/-- Whether an event is one in the life of a connection. -/
def Event.session : Event → Bool
  | .accept _ => true
  | .connect _ => true
  | .disconnect _ => true
  | .close _ => true
  | _ => false

def sessions (log : List Event) : List Event := log.filter Event.session

/-- In a failure: the index of the entry erased, and the descriptor closed. -/
def State.closing (s : State η) : Act → Option (Nat × Int)
  | .hangUp =>
      match s.pc with
      | .scan i => s.fds[i]?.map (i, ·)
      | _ => none
  | .readFail =>
      match s.pc with
      | .read i _ => s.fds[i]?.map (i, ·)
      | _ => none
  | .writeFail =>
      match s.pc with
      | .write i msg => some (i, msg.fd)
      | _ => none
  | .writeToFail | .eraseEnd =>
      match s.pc with
      | .writeTo i _ k stale => (slots s.pollfds stale)[k]?.map fun c => (i, c.fd)
      | _ => none
  | _ => none

/-- `m_pollfds` has the listening socket and the clients that are open, each once. -/
structure Tracked (P : Params) (s : State η) : Prop where
  nodup : (P.fd :: clients s.log).Nodup
  entries : s.fds.Perm (P.fd :: clients s.log)

/-- A failure closes and removes one client. -/
def Confined (s : State η) (act : Act) (s' : State η) : Prop :=
  ∀ i fd, s.closing act = some (i, fd) →
    s'.fds = s.fds.erase fd ∧ clients s'.log = (clients s.log).erase fd

/-- The descriptor closed is that of the client scanned. -/
def Aligned (P : Params) (s : State η) (act : Act) : Prop :=
  ∀ x ∈ s.closing act, s.fds[x.1]? = some x.2 ∧ x.2 ≠ P.fd

instance (P : Params) (s : State η) (act : Act) : Decidable (Aligned P s act) :=
  inferInstanceAs (Decidable (∀ x ∈ s.closing act, _ ∧ _))

/-! ## What a step does -/

/-- `close`, as an event. -/
def State.closed (s : State η) (fd : Int) : List Event :=
  if fd ∈ s.sockets then [.close fd] else []

/-- What `on_disconnect` is told. -/
def Act.notice : Act → Int → List Event
  | .hangUp, fd => [.disconnect fd]
  | _, _ => []

/-- A step leaves the entries and the descriptors, adds a client, or takes one entry and one
descriptor away. -/
inductive Change (P : Params) (s : State η) (act : Act) (s' : State η) : Prop
  | keep : s.closing act = none → s'.fds = s.fds → s'.sockets = s.sockets →
    sessions s'.log = sessions s.log → Change P s act s'
  | arrive (fd : Int) : s.closing act = none → act = .accept fd → P.fd ∈ s.sockets →
    fd ∉ s.sockets → s'.fds = s.fds ++ [fd] → s'.sockets = s.sockets ++ [fd] →
    sessions s'.log = .connect fd :: .accept fd :: sessions s.log → Change P s act s'
  | drop (i : Nat) (fd : Int) : s.closing act = some (i, fd) → s'.fds = s.fds.eraseIdx i →
    s'.sockets = s.sockets.erase fd →
    sessions s'.log = s.closed fd ++ (act.notice fd ++ sessions s.log) →
    Change P s act s'

theorem clients_sessions (log : List Event) : clients (sessions log) = clients log := by
  induction log with
  | nil => rfl
  | cons event log ih =>
      unfold sessions at ih
      cases event with
      | accept fd => exact congrArg (· ++ [fd]) ih
      | close fd => exact congrArg (List.erase · fd) ih
      | _ => exact ih

theorem State.fds_getElem? {s : State η} {i : Nat} {c : PollFd} (entry : s.pollfds[i]? = some c) :
    s.fds[i]? = some c.fd := by
  unfold fds
  rw [List.getElem?_map, entry]
  rfl

theorem State.fds_erase (s : State η) (i : Nat) : (s.erase i).fds = s.fds.eraseIdx i :=
  (List.eraseIdx_map ..).symm

theorem State.close_log (s : State η) (fd : Int) : (s.close fd).log = s.closed fd ++ s.log := by
  unfold close closed
  dsimp only
  split
  case isTrue => rfl
  case isFalse => rfl

theorem State.sessions_close (s : State η) (fd : Int) :
    sessions (s.close fd).log = s.closed fd ++ sessions s.log := by
  unfold close closed
  dsimp only
  split
  case isTrue => rfl
  case isFalse => rfl

theorem fds_reported {sockets : List Int} {pollfds : List PollFd} {revents : List Events}
    (reports : List.Forall₂ (Reports sockets) pollfds revents) :
    (reported pollfds revents).map (·.fd) = pollfds.map (·.fd) := by
  induction reports with
  | nil => rfl
  | cons _ _ ih => exact congrArg (List.cons _) ih

variable {H : Handler η} {P : Params} {s s' : State η} {act : Act}

theorem Step.change (stepped : Step H P s act s') : Change P s act s' := by
  cases stepped with
  | poll revents _ reports => exact .keep rfl (fds_reported reports) rfl rfl
  | accept fd _ _ _ _ _ listening _ fresh =>
      apply Change.arrive fd rfl rfl listening fresh
      · exact List.map_append ..
      · rfl
      · rfl
  | @hangUp i c at_ entry _ =>
      apply Change.drop i c.fd
      · simp only [State.closing, at_, State.fds_getElem? entry, Option.map_some]
      · exact State.fds_erase s i
      · rfl
      · exact State.sessions_close _ c.fd
  | @readFail i b c at_ entry =>
      apply Change.drop i c.fd
      · simp only [State.closing, at_, State.fds_getElem? entry, Option.map_some]
      · exact State.fds_erase s i
      · rfl
      · exact State.sessions_close s c.fd
  | @writeFail i msg at_ _ =>
      apply Change.drop i msg.fd
      · rw [State.closing, at_]
      · exact State.fds_erase s i
      · rfl
      · exact State.sessions_close _ msg.fd
  | @writeToFail i k msg stale c at_ entry _ =>
      apply Change.drop i c.fd
      · simp only [State.closing, at_, entry, Option.map_some]
      · exact State.fds_erase s i
      · rfl
      · exact State.sessions_close _ c.fd
  | @eraseEnd i k msg stale c at_ entry past =>
      apply Change.drop i c.fd
      · simp only [State.closing, at_, entry, Option.map_some]
      · exact (List.eraseIdx_of_length_le (by rwa [State.fds, List.length_map])).symm
      · rfl
      · exact State.sessions_close _ c.fd
  | _ => exact .keep rfl rfl rfl rfl

/-- The entry erased is there, but for `erase( end( ) )`. -/
theorem Step.closing_lt {i : Nat} {fd : Int} (stepped : Step H P s act s')
    (stays : act ≠ .eraseEnd) (closing : s.closing act = some (i, fd)) : i < s.fds.length := by
  have bound {c : PollFd} (entry : s.pollfds[i]? = some c) : i < s.fds.length :=
    (List.getElem?_eq_some_iff.mp (State.fds_getElem? entry)).1
  cases stepped with
  | hangUp at_ entry _ =>
      simp only [State.closing, at_, State.fds_getElem? entry, Option.map_some] at closing
      cases closing
      exact bound entry
  | readFail at_ entry =>
      simp only [State.closing, at_, State.fds_getElem? entry, Option.map_some] at closing
      cases closing
      exact bound entry
  | writeFail at_ inside =>
      simp only [State.closing, at_] at closing
      cases closing
      rwa [State.fds, List.length_map]
  | writeToFail at_ entry inside =>
      simp only [State.closing, at_, entry, Option.map_some] at closing
      cases closing
      rwa [State.fds, List.length_map]
  | eraseEnd => exact absurd rfl stays
  | _ => cases closing

/-! ## The open descriptors -/

/-- In every run the clients accepted and not closed are what is open besides the listening
socket. -/
structure Open (P : Params) (s : State η) : Prop where
  distinct : s.sockets.Nodup
  clients_eq : clients s.log = s.sockets.erase P.fd

theorem clients_eq_of_sessions {log log' : List Event} (same : sessions log = log') :
    clients log = clients log' := by
  rw [← same, clients_sessions]

theorem clients_notice (act : Act) (fd : Int) (log : List Event) :
    clients (act.notice fd ++ log) = clients log := by
  cases act with
  | _ => rfl

theorem clients_closed (act : Act) (fd : Int) (log : List Event) :
    clients (s.closed fd ++ (act.notice fd ++ sessions log)) =
      if fd ∈ s.sockets then (clients log).erase fd else clients log := by
  have silent : clients (act.notice fd ++ sessions log) = clients log :=
    (clients_notice act fd _).trans (clients_sessions log)
  unfold State.closed
  split
  case isTrue => exact congrArg (List.erase · fd) silent
  case isFalse => exact silent

theorem Open.bound (P : Params) (handler : η) : Open P (State.bound P handler) :=
  ⟨List.nodup_singleton P.fd, (List.erase_cons_head ..).symm⟩

/-- A step. -/
theorem Open.step (open_ : Open P s) (stepped : Step H P s act s') : Open P s' := by
  cases stepped.change with
  | keep _ _ sockets log =>
      constructor
      · rw [sockets]
        exact open_.distinct
      · rw [clients_eq_of_sessions log, clients_sessions, sockets]
        exact open_.clients_eq
  | arrive fd _ _ listening fresh _ sockets log =>
      constructor
      · rw [sockets]
        exact open_.distinct.append (List.nodup_singleton fd) (List.disjoint_singleton.mpr fresh)
      · rw [clients_eq_of_sessions log, sockets, List.erase_append_left _ listening,
          ← open_.clients_eq, ← clients_sessions s.log]
        rfl
  | drop i fd _ _ sockets log =>
      constructor
      · rw [sockets]
        exact open_.distinct.erase fd
      · rw [clients_eq_of_sessions log, clients_closed, sockets, open_.clients_eq]
        split
        case isTrue => exact List.erase_comm ..
        case isFalse closed => rw [List.erase_of_not_mem closed]

theorem open_of_reaches {cond : State η → Act → Prop} {handler : η}
    (reaches : Reaches (Step H P) cond (State.bound P handler) s) : Open P s := by
  apply reaches.invariant (Open.bound P handler)
  intro s act s' _ open_ _ stepped
  exact open_.step stepped

/-- What a failure does. -/
theorem Change.of_closing {i : Nat} {fd : Int} (change : Change P s act s')
    (closing : s.closing act = some (i, fd)) :
    s'.fds = s.fds.eraseIdx i ∧
      sessions s'.log = s.closed fd ++ (act.notice fd ++ sessions s.log) ∧
      clients s'.log = if fd ∈ s.sockets then (clients s.log).erase fd else clients s.log := by
  cases change with
  | keep none_ => cases none_.symm.trans closing
  | arrive _ none_ => cases none_.symm.trans closing
  | drop _ _ closing' fds _ log =>
      cases closing'.symm.trans closing
      refine ⟨fds, log, ?_⟩
      rw [clients_eq_of_sessions log, clients_closed]

/-! ## Runs of aligned steps -/

/-- The entries are what is open. -/
structure PollSet (P : Params) (s : State η) : Prop where
  listening : P.fd ∈ s.sockets
  entries : s.fds.Perm s.sockets

theorem PollSet.tracked (set : PollSet P s) (open_ : Open P s) : Tracked P s := by
  have clients : s.sockets.Perm (P.fd :: clients s.log) := by
    rw [open_.clients_eq]
    exact List.perm_cons_erase set.listening
  constructor
  · exact clients.nodup_iff.mp open_.distinct
  · exact set.entries.trans clients

/-- An aligned failure. -/
theorem Change.confined (change : Change P s act s') (set : PollSet P s) (open_ : Open P s)
    (aligned : Aligned P s act) : Confined s act s' := by
  intro i fd closing
  obtain ⟨entry, _⟩ := aligned (i, fd) closing
  obtain ⟨fds, _, clients_⟩ := change.of_closing closing
  have member : fd ∈ s.sockets := set.entries.mem_iff.mp (List.mem_of_getElem? entry)
  constructor
  · rw [fds]
    exact Erase.eraseIdx_eq_erase (set.entries.nodup_iff.mpr open_.distinct) entry
  · rw [clients_, if_pos member]

/-- An aligned step. -/
theorem PollSet.step (set : PollSet P s) (open_ : Open P s) (aligned : Aligned P s act)
    (stepped : Step H P s act s') : PollSet P s' := by
  have confined := stepped.change.confined set open_ aligned
  cases stepped.change with
  | keep _ fds sockets _ =>
      constructor
      · rw [sockets]
        exact set.listening
      · rw [fds, sockets]
        exact set.entries
  | arrive fd _ _ listening _ fds sockets _ =>
      constructor
      · rw [sockets]
        exact List.mem_append_left _ listening
      · rw [fds, sockets]
        exact set.entries.append_right [fd]
  | drop i fd closing _ sockets _ =>
      obtain ⟨_, client⟩ := aligned (i, fd) closing
      constructor
      · rw [sockets]
        exact (List.mem_erase_of_ne client.symm).mpr set.listening
      · rw [(confined i fd closing).1, sockets]
        exact set.entries.erase fd

theorem pollSet_of_aligned {handler : η}
    (reaches : Reaches (Step H P) (Aligned P) (State.bound P handler) s) : PollSet P s := by
  have start : PollSet P (State.bound P handler) :=
    ⟨List.mem_singleton_self P.fd, List.Perm.refl [P.fd]⟩
  apply reaches.invariant start
  intro s act s' before set aligned stepped
  exact set.step (open_of_reaches before) aligned stepped

/-- A failure that is not aligned breaks the poll set; `erase( end( ) )` breaks the program. -/
theorem Step.aligned_of_tracked (tracked : Tracked P s) (stays : act ≠ .eraseEnd)
    (stepped : Step H P s act s') (tracked' : Tracked P s') : Aligned P s act := by
  rintro ⟨i, fd⟩ closing
  have entered : ∃ f, s.fds[i]? = some f := by
    have bound : i < s.fds.length := stepped.closing_lt stays closing
    exact ⟨s.fds[i], List.getElem?_eq_getElem bound⟩
  obtain ⟨f, entry⟩ := entered
  obtain ⟨fds, _, clients_⟩ := stepped.change.of_closing closing
  have distinct : s.fds.Nodup := tracked.entries.nodup_iff.mpr tracked.nodup
  have out : f ∉ P.fd :: clients s'.log := by
    rw [← tracked'.entries.mem_iff, fds, Erase.eraseIdx_eq_erase distinct entry]
    exact distinct.not_mem_erase
  have in_ : f ∈ P.fd :: clients s.log :=
    tracked.entries.mem_iff.mp (List.mem_of_getElem? entry)
  have client : f ≠ P.fd := fun same => out (same ▸ List.mem_cons_self)
  have same : f = fd := by
    by_contra other
    apply out
    apply List.mem_cons_of_mem
    have open_ := List.mem_of_ne_of_mem client in_
    rw [clients_]
    split
    case isTrue => exact (List.mem_erase_of_ne other).mpr open_
    case isFalse => exact open_
  subst same
  exact ⟨entry, client⟩

/-- **The poll set.** In every run in which each descriptor that `run( )` closes is that of the
client at the position of the scan, the entries are the listening socket and the open clients,
each once, in every state, and each such step closes and removes one client. -/
theorem tracked_of_aligned (H : Handler η) (P : Params) (handler : η) (s : State η)
    (reaches : Reaches (Step H P) (Aligned P) (State.bound P handler) s) :
    Tracked P s ∧
      ∀ act s', Aligned P s act → Step H P s act s' → Confined s act s' := by
  have set := pollSet_of_aligned reaches
  have open_ := open_of_reaches reaches
  refine ⟨set.tracked open_, ?_⟩
  intro act s' aligned stepped
  exact stepped.change.confined set open_ aligned

/-- Client 4 hangs up, client 5 stays. -/
theorem tracked_of_aligned_hangUp :
    ∃ s : State (List Int), s.fds = [3, 5] ∧ Tracked (tcpServer 3) s := by
  have run : ∃ s, Reaches (Step tcpHandler (tcpServer 3)) (Aligned (tcpServer 3))
      (State.bound (tcpServer 3) []) s ∧ s.fds = [3, 5] :=
    exists_of_play (List.flatten [accepting 0 4, accepting 1 5,
      [.poll [quiet, ⟨true, true, false⟩, quiet]], passing, [.hangUp]]) (by decide +kernel)
  obtain ⟨s, reaches, fds⟩ := run
  exact ⟨s, fds, (tracked_of_aligned tcpHandler (tcpServer 3) [] s reaches).1⟩

/-- Clients 4 and 5 are active. While 4 is scanned its message goes to both, and the write to 5
fails: 5 is closed and the entry of 4 erased. -/
theorem not_tracked_broadcast :
    ¬ ∀ s : State (List Int),
      Reaches (Step tcpHandler (tcpServer 3)) always (State.bound (tcpServer 3) []) s →
      s.pc = .top → Tracked (tcpServer 3) s := by
  intro law
  have run : ∃ s, Reaches (Step tcpHandler (tcpServer 3)) always (State.bound (tcpServer 3) []) s ∧
      s.pc = .top ∧ s.fds = [3, 5] ∧ clients s.log = [4] :=
    exists_of_play (List.flatten [twoActive, broadcasting,
      [.listener, .accepted, .writeTo, .accepted, .writeToFail, .broadcastEnd, .release, .scanEnd]])
      (by decide +kernel)
  obtain ⟨s, reaches, top, fds, log⟩ := run
  have entries := (law s reaches top).entries
  rw [fds, log] at entries
  exact absurd entries (by decide)

end Server

end OpenFix
