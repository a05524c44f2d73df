import OpenFix.Server.Blocking

/-!
# Where `run( )` stops

`run( )` holds an iterator into `m_pollfds` over all the branches of the loop, and erases from
it. `InRange` says that it stands on an entry wherever the branch uses one.

* `InRange.step`: each step keeps that.
* `moves_of_own`: so `run( )` moves unless it is done, waits for itself, or is in `erase( end( ) )`.
-/

namespace OpenFix

namespace Server

open Transition (Reaches always)

variable {η : Type} {H : Handler η} {P : Params} {s s' : State η} {act : Act}

/-- The entries that the branch uses are there. -/
def Pc.InRange (pollfds : List PollFd) : Pc → Prop
  | .getBuf i => i < pollfds.length
  | .read i _ => i < pollfds.length
  | .onRead i _ _ _ => i < pollfds.length
  | .release _ (.out i) => i < pollfds.length
  | .out i => i < pollfds.length
  | .writeTo _ _ k stale => k < (slots pollfds stale).length
  | .write i _ => i < pollfds.length
  | _ => True

theorem lt_of_entry {pollfds : List PollFd} {i : Nat} {c : PollFd}
    (entry : pollfds[i]? = some c) : i < pollfds.length :=
  (List.getElem?_eq_some_iff.mp entry).1

/-- A step. -/
theorem InRange.step (inRange : s.pc.InRange s.pollfds) (stepped : Step H P s act s') :
    s'.pc.InRange s'.pollfds := by
  cases stepped with
  | leave => trivial
  | pollError => trivial
  | pollNone => exact inRange
  | poll => trivial
  | scanEnd => trivial
  | hangUp => trivial
  | accept => trivial
  | acceptFail => trivial
  | readable at_ entry _ _ _ => exact lt_of_entry entry
  | unreadable at_ entry _ _ => exact lt_of_entry entry
  | takeBuf at_ _ =>
      rw [at_] at inRange
      exact inRange
  | read data at_ entry _ _ _ _ => exact lt_of_entry entry
  | readFail => trivial
  | push at_ _ =>
      rw [at_] at inRange
      exact inRange
  | @handled i b ret at_ =>
      rw [at_] at inRange
      cases ret with
      | true => exact inRange
      | false => exact inRange
  | @release b next at_ _ =>
      rw [at_] at inRange
      cases next with
      | out i => exact inRange
      | _ => trivial
  | unwritable => trivial
  | popEmpty => trivial
  | popBroadcast => trivial
  | popAccept at_ entry _ _ _ _ => exact lt_of_entry entry
  | popFilter => trivial
  | write => trivial
  | writeFail => trivial
  | broadcastEnd => trivial
  | listener => trivial
  | accepted at_ entry _ _ => exact lt_of_entry entry
  | filter => trivial
  | writeTo => trivial
  | writeToFail => trivial
  | eraseEnd => trivial
  | post msg _ => exact inRange

/-! ## What may stop it -/

/-- `run( )` has returned, waits for a push or a pop of its own, or is in `erase( end( ) )`. -/
inductive Stopped (P : Params) (s : State η) : Prop
  | done : s.pc = .done → Stopped P s
  | faulted {msg : TaggedTcpMsg} : s.pc = .faulted msg → Stopped P s
  | blocked : Blocked P s → Stopped P s

theorem Step.not_stopped (own : act.own = true) (stepped : Step H P s act s') :
    ¬ Stopped P s := by
  rintro (done | faulted | ⟨at_', full⟩ | ⟨at_', empty⟩)
  · cases stepped with
    | poll _ at_ _ => cases at_.symm.trans done
    | accept _ at_ => cases at_.symm.trans done
    | read _ at_ => cases at_.symm.trans done
    | post msg => exact absurd own Bool.false_ne_true
    | _ at_ => cases at_.symm.trans done
  · cases stepped with
    | poll _ at_ _ => cases at_.symm.trans faulted
    | accept _ at_ => cases at_.symm.trans faulted
    | read _ at_ => cases at_.symm.trans faulted
    | post msg => exact absurd own Bool.false_ne_true
    | _ at_ => cases at_.symm.trans faulted
  · cases stepped with
    | poll _ at_ _ => cases at_.symm.trans at_'
    | accept _ at_ => cases at_.symm.trans at_'
    | read _ at_ => cases at_.symm.trans at_'
    | push at_ room =>
        cases at_.symm.trans at_'
        exact absurd room (Nat.not_lt.mpr full)
    | post msg => exact absurd own Bool.false_ne_true
    | _ at_ => cases at_.symm.trans at_'
  · cases stepped with
    | poll _ at_ _ => cases at_.symm.trans at_'
    | accept _ at_ => cases at_.symm.trans at_'
    | read _ at_ => cases at_.symm.trans at_'
    | takeBuf at_ pool => cases pool.symm.trans empty
    | post msg => exact absurd own Bool.false_ne_true
    | _ at_ => cases at_.symm.trans at_'

/-- `run( )` makes a step of its own. -/
def Moves (H : Handler η) (P : Params) (s : State η) : Prop :=
  ∃ act s', act.own = true ∧ Step H P s act s'

/-- At an entry of the scan. -/
theorem moves_scan {i : Nat} (at_ : s.pc = .scan i) : Moves H P s := by
  rcases Nat.lt_or_ge i s.pollfds.length with inside | past
  · have entry := List.getElem?_eq_getElem inside
    cases hup : s.pollfds[i].revents.pollHup with
    | true => exact ⟨_, _, rfl, .hangUp at_ entry hup⟩
    | false =>
        cases readable : s.pollfds[i].revents.pollIn with
        | false => exact ⟨_, _, rfl, .unreadable at_ entry hup readable⟩
        | true =>
            by_cases listener : s.pollfds[i].fd = P.fd
            · exact ⟨_, _, rfl, .acceptFail at_ entry hup readable listener⟩
            · exact ⟨_, _, rfl, .readable at_ entry hup readable listener⟩
  · exact ⟨_, _, rfl, .scanEnd at_ past⟩

/-- At the test of POLLOUT. -/
theorem moves_out {i : Nat} (at_ : s.pc = .out i) (inside : i < s.pollfds.length) :
    Moves H P s := by
  have entry := List.getElem?_eq_getElem inside
  cases writable : s.pollfds[i].revents.pollOut with
  | false => exact ⟨_, _, rfl, .unwritable at_ entry writable⟩
  | true =>
      cases queue : s.outQueue with
      | nil => exact ⟨_, _, rfl, .popEmpty at_ entry writable queue⟩
      | cons msg rest =>
          by_cases all : msg.fd = 0
          · exact ⟨_, _, rfl, .popBroadcast at_ entry writable queue all⟩
          · rcases answer : H.onOut s.handler msg with ⟨handler, accepted⟩
            cases accepted with
            | true => exact ⟨_, _, rfl, .popAccept at_ entry writable queue all answer⟩
            | false => exact ⟨_, _, rfl, .popFilter at_ entry writable queue all answer⟩

/-- In the loop over the clients. -/
theorem moves_broadcast {i k : Nat} {msg : TaggedTcpMsg} {stale : List PollFd}
    (at_ : s.pc = .broadcast i msg k stale) : Moves H P s := by
  rcases Nat.lt_or_ge k (slots s.pollfds stale).length with inside | past
  · have entry := List.getElem?_eq_getElem inside
    by_cases listener : (slots s.pollfds stale)[k].fd = P.fd
    · exact ⟨_, _, rfl, .listener at_ entry listener⟩
    · rcases answer : H.onOut s.handler { msg with fd := (slots s.pollfds stale)[k].fd } with
        ⟨handler, accepted⟩
      cases accepted with
      | true => exact ⟨_, _, rfl, .accepted at_ entry listener answer⟩
      | false => exact ⟨_, _, rfl, .filter at_ entry listener answer⟩
  · exact ⟨_, _, rfl, .broadcastEnd at_ past⟩

theorem moves_iff (inRange : s.pc.InRange s.pollfds)
    (account : s.account.length ≤ P.bufPoolSize) : Moves H P s ↔ ¬ Stopped P s := by
  refine ⟨fun ⟨_, _, own, stepped⟩ => stepped.not_stopped own, fun stops => ?_⟩
  cases at_ : s.pc with
  | top =>
      by_cases empty : s.pollfds = []
      · exact ⟨_, _, rfl, .leave at_ empty⟩
      · exact ⟨_, _, rfl, .pollNone at_ empty⟩
  | scan i => exact moves_scan at_
  | getBuf i =>
      cases pool : s.bufpool with
      | nil => exact absurd (.blocked (.pop at_ pool)) stops
      | cons b rest => exact ⟨_, _, rfl, .takeBuf at_ pool⟩
  | read i b =>
      rw [at_] at inRange
      exact ⟨_, _, rfl, .readFail at_ (List.getElem?_eq_getElem inRange)⟩
  | onRead i b posts ret =>
      cases posts with
      | nil => exact ⟨_, _, rfl, .handled at_⟩
      | cons msg rest =>
          by_cases room : s.outQueue.length < P.outSize
          · exact ⟨_, _, rfl, .push at_ room⟩
          · exact absurd (.blocked (.push at_ (Nat.not_lt.mp room))) stops
  | release b next =>
      refine ⟨_, _, rfl, .release at_ ?_⟩
      -- the buffer in hand is not in the pool
      unfold State.account at account
      rw [at_] at account
      simp only [Pc.held, List.length_append, List.length_singleton] at account
      omega
  | out i =>
      rw [at_] at inRange
      exact moves_out at_ inRange
  | broadcast i msg k stale => exact moves_broadcast at_
  | writeTo i msg k stale =>
      rw [at_] at inRange
      have entry := List.getElem?_eq_getElem inRange
      rcases Nat.lt_or_ge i s.pollfds.length with inside | past
      · exact ⟨_, _, rfl, .writeToFail at_ entry inside⟩
      · exact ⟨_, _, rfl, .eraseEnd at_ entry past⟩
  | write i msg =>
      rw [at_] at inRange
      exact ⟨_, _, rfl, .writeFail at_ inRange⟩
  | done => exact absurd (.done at_) stops
  | faulted msg => exact absurd (.faulted at_) stops

/-- **Where `run( )` stops.** With a handler that hands each buffer back or posts it once, in every
state of a run `it` stands on an entry of `m_pollfds` wherever it is used, and `run( )` moves unless
it has returned, waits for room in the queue or for a buffer, or is in `erase( end( ) )`. No
`release_buf` waits. -/
theorem moves_of_own (H : Handler η) (disciplined : H.Disciplined) (P : Params) (handler : η)
    (s : State η) (reaches : Reaches (Step H P) Own (State.bound P handler) s) :
    s.pc.InRange s.pollfds ∧ (Moves H P s ↔ ¬ Stopped P s) := by
  have kept : s.pc.InRange s.pollfds ∧ s.account.length ≤ P.bufPoolSize := by
    refine reaches.invariant
      (I := fun s => s.pc.InRange s.pollfds ∧ s.account.length ≤ P.bufPoolSize)
      ⟨trivial, (by simp [State.account, State.bound, Pc.held])⟩ ?_
    intro s act s' _ kept own stepped
    have counted := stepped.account_length disciplined own
    exact ⟨InRange.step kept.1 stepped, (Nat.le_add_right _ _).trans (counted.le.trans kept.2)⟩
  exact ⟨kept.1, moves_iff kept.1 kept.2⟩

/-- Client 4 has sent a message, which is in the hands of the handler. -/
theorem moves_of_own_posting :
    ∃ s : State (List Int), s.pc = .onRead 1 2 [⟨2, 1, 0⟩] false ∧
      s.pc.InRange s.pollfds ∧
      (Moves tcpHandler (tcpServer 3) s ↔ ¬ Stopped (tcpServer 3) s) := by
  have run : ∃ s, Reaches (Step tcpHandler (tcpServer 3)) Own (State.bound (tcpServer 3) []) s ∧
      s.pc = .onRead 1 2 [⟨2, 1, 0⟩] false :=
    exists_of_play (List.flatten [twoActive, [.poll [quiet, readableOnly, quiet]], passing,
      [.readable, .takeBuf, .read [1]]]) (by decide +kernel)
  obtain ⟨s, reaches, at_⟩ := run
  exact ⟨s, at_, moves_of_own tcpHandler tcpHandler_disciplined (tcpServer 3) [] s reaches⟩

end Server

end OpenFix
