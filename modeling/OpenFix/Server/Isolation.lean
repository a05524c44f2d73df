import OpenFix.Server.Blocking

/-!
# Subscriptions

`active_clients` holds descriptors, and `on_disconnect` alone takes one out. The law is about
connections: what is written to one, and what was read from which. It holds in the runs in
which no descriptor that is still listed is accepted again.

* `Subscribed`, `Heard`: what the events of a connection say.
* `Listed.step`: the list has connections that have subscribed, and what waits was read from
  one.
* `isolated_of_fresh`: the law.
-/

namespace OpenFix

namespace Server

open Transition (Reaches always)

variable {η : Type}

/-- "/sub" was read from the connection that has the descriptor `fd`: since it was accepted. -/
def Subscribed (fd : Int) : List Event → Prop
  | [] => False
  | .read f _ data :: log => (f = fd ∧ sub <:+: data) ∨ Subscribed fd log
  | .accept f :: log => f ≠ fd ∧ Subscribed fd log
  | _ :: log => Subscribed fd log

/-- The last read into `buf` was of `bytes`, from a connection that had subscribed. -/
def Heard (buf : Nat) (bytes : List UInt8) : List Event → Prop
  | [] => False
  | .read fd b data :: log =>
      if b = buf then data = bytes ∧ Subscribed fd log else Heard buf bytes log
  | _ :: log => Heard buf bytes log

/-- Every write is to a connection that has subscribed, of what a buffer had last been read into
from one that had. -/
def Lawful (log : List Event) : Prop :=
  ∀ later fd bytes sent before, log = later ++ .write fd bytes sent :: before →
    Subscribed fd before ∧ ∃ buf, Heard buf bytes before

/-- The writes so far, and the message in the loop over the clients: what its buffer has was read
from a connection that had subscribed. -/
structure Isolated (s : State η) : Prop where
  writes : Lawful s.log
  broadcasts : ∀ i msg k stale,
    s.pc = .broadcast i msg k stale ∨ s.pc = .writeTo i msg k stale →
      Heard msg.buf (s.bytes msg) s.log

def Act.accepts : Act → Option Int
  | .accept fd => some fd
  | _ => none

/-- `run( )` alone, and a descriptor accepted is not listed. -/
def Fresh (s : State (List Int)) (act : Act) : Prop :=
  act.own = true ∧ ∀ fd ∈ act.accepts, fd ∉ s.handler

instance (s : State (List Int)) (act : Act) : Decidable (Fresh s act) :=
  inferInstanceAs (Decidable (_ ∧ ∀ fd ∈ act.accepts, _))

/-! ## More events -/

/-- No `accept`, no `read` and no `write`. -/
def Event.quiet : Event → Bool
  | .accept _ => false
  | .read _ _ _ => false
  | .write _ _ _ => false
  | _ => true

theorem Subscribed.cons {fd : Int} {log : List Event} (subscribed : Subscribed fd log)
    {event : Event} (other : event ≠ .accept fd) : Subscribed fd (event :: log) := by
  cases event with
  | read f b data => exact .inr subscribed
  | accept f =>
      refine ⟨?_, subscribed⟩
      rintro rfl
      exact other rfl
  | _ => exact subscribed

theorem Heard.cons {buf : Nat} {bytes : List UInt8} {log : List Event}
    (heard : Heard buf bytes log) {event : Event}
    (other : ∀ fd data, event ≠ .read fd buf data) : Heard buf bytes (event :: log) := by
  cases event with
  | read fd b data =>
      have elsewhere : b ≠ buf := by
        rintro rfl
        exact other fd data rfl
      exact (if_neg elsewhere).mpr heard
  | _ => exact heard

theorem Lawful.cons {log : List Event} (lawful : Lawful log) {event : Event}
    (meets : ∀ fd bytes sent, event = .write fd bytes sent →
      Subscribed fd log ∧ ∃ buf, Heard buf bytes log) : Lawful (event :: log) := by
  intro later fd bytes sent before split
  cases later with
  | nil =>
      injection split with head tail
      subst tail
      exact meets fd bytes sent head
  | cons _ later =>
      injection split with _ tail
      exact lawful later fd bytes sent before tail

/-- Quiet events change nothing. -/
theorem Subscribed.append {fd : Int} {log : List Event} (subscribed : Subscribed fd log)
    {events : List Event} (quiet : ∀ event ∈ events, event.quiet = true) :
    Subscribed fd (events ++ log) := by
  induction events with
  | nil => exact subscribed
  | cons event events ih =>
      have rest := ih fun event member => quiet event (List.mem_cons_of_mem _ member)
      apply rest.cons
      rintro rfl
      cases quiet _ List.mem_cons_self

theorem Heard.append {buf : Nat} {bytes : List UInt8} {log : List Event}
    (heard : Heard buf bytes log) {events : List Event}
    (quiet : ∀ event ∈ events, event.quiet = true) : Heard buf bytes (events ++ log) := by
  induction events with
  | nil => exact heard
  | cons event events ih =>
      have rest := ih fun event member => quiet event (List.mem_cons_of_mem _ member)
      apply rest.cons
      rintro fd data rfl
      cases quiet _ List.mem_cons_self

theorem Lawful.append {log : List Event} (lawful : Lawful log) {events : List Event}
    (quiet : ∀ event ∈ events, event.quiet = true) : Lawful (events ++ log) := by
  induction events with
  | nil => exact lawful
  | cons event events ih =>
      have rest := ih fun event member => quiet event (List.mem_cons_of_mem _ member)
      apply rest.cons
      rintro fd bytes sent rfl
      cases quiet _ List.mem_cons_self

theorem State.closed_quiet (s : State η) (fd : Int) :
    ∀ event ∈ s.closed fd, event.quiet = true := by
  unfold closed
  split
  case isTrue =>
    intro event member
    rw [List.mem_singleton.mp member]
    rfl
  case isFalse => exact nofun

/-! ## Steps -/

/-- The messages in the hands of `run( )`. -/
def Pc.msgs : Pc → List TaggedTcpMsg
  | .onRead _ _ posts _ => posts
  | .broadcast _ msg _ _ => [msg]
  | .writeTo _ msg _ _ => [msg]
  | _ => []

/-- Whether `run( )` is at the `write` of a broadcast. -/
def Pc.writing : Pc → Bool
  | .writeTo _ _ _ _ => true
  | _ => false

/-- What holds of a run of fresh steps. -/
structure Listed (s : State (List Int)) : Prop where
  active : ∀ fd ∈ s.handler, Subscribed fd s.log
  msgs : ∀ msg ∈ s.outQueue ++ s.pc.msgs, Heard msg.buf (s.bytes msg) s.log
  writeTo : ∀ i msg k stale c, s.pc = .writeTo i msg k stale →
    (slots s.pollfds stale)[k]? = some c → c.fd ∈ s.handler
  writes : Lawful s.log

variable {P : Params} {s s' : State (List Int)} {act : Act}

/-- Quiet events, with nobody and nothing new. -/
theorem Listed.quietly (listed : Listed s) (events : List Event) (log : s'.log = events ++ s.log)
    (quiet : ∀ event ∈ events, event.quiet = true) (handler : s'.handler ⊆ s.handler)
    (bufs : s'.bufs = s.bufs) (msgs : s'.outQueue ++ s'.pc.msgs ⊆ s.outQueue ++ s.pc.msgs)
    (writeTo : ∀ i msg k stale c, s'.pc = .writeTo i msg k stale →
      (slots s'.pollfds stale)[k]? = some c → c.fd ∈ s'.handler) : Listed s' := by
  refine ⟨?_, ?_, writeTo, ?_⟩
  · intro fd member
    rw [log]
    exact (listed.active fd (handler member)).append quiet
  · intro msg member
    have same : s'.bytes msg = s.bytes msg :=
      congrArg (fun bufs => (bufs msg.buf).take msg.len) bufs
    rw [log, same]
    exact (listed.msgs msg (msgs member)).append quiet
  · rw [log]
    exact listed.writes.append quiet

theorem Pc.not_writeTo {pc : Pc} {i k : Nat} {msg : TaggedTcpMsg} {stale : List PollFd}
    (at_ : pc = .writeTo i msg k stale) (elsewhere : pc.writing = false) : False := by
  rw [at_] at elsewhere
  cases elsewhere

theorem Listed.move (listed : Listed s) (events : List Event) (log : s'.log = events ++ s.log)
    (quiet : ∀ event ∈ events, event.quiet = true) (handler : s'.handler ⊆ s.handler)
    (bufs : s'.bufs = s.bufs) (msgs : s'.outQueue ++ s'.pc.msgs ⊆ s.outQueue ++ s.pc.msgs)
    (elsewhere : s'.pc.writing = false) : Listed s' := by
  apply listed.quietly events log quiet handler bufs msgs
  intro _ _ _ _ _ at_
  exact (Pc.not_writeTo at_ elsewhere).elim

/-- Nothing happens, and the hands are empty. -/
theorem Listed.idle (listed : Listed s)
    (same : s'.log = s.log ∧ s'.handler = s.handler ∧ s'.bufs = s.bufs ∧ s'.outQueue = s.outQueue)
    (msgs : s'.pc.msgs = []) (elsewhere : s'.pc.writing = false) : Listed s' := by
  apply listed.move [] same.1 nofun _ same.2.2.1 _ elsewhere
  · rw [same.2.1]
    exact List.Subset.refl _
  · rw [msgs, same.2.2.2, List.append_nil]
    exact List.subset_append_left ..

/-- The write of a broadcast. -/
theorem Listed.written (listed : Listed s) {i k : Nat} {msg : TaggedTcpMsg} {stale : List PollFd}
    {c : PollFd} (at_ : s.pc = .writeTo i msg k stale)
    (entry : (slots s.pollfds stale)[k]? = some c) (sent : Bool) :
    Listed (s.emit (.write c.fd (s.bytes msg) sent)) := by
  have subscribed := listed.active c.fd (listed.writeTo i msg k stale c at_ entry)
  have heard : Heard msg.buf (s.bytes msg) s.log := by
    apply listed.msgs
    rw [at_]
    exact List.mem_append_right _ (List.mem_singleton_self msg)
  refine ⟨?_, ?_, listed.writeTo, ?_⟩
  · intro fd member
    exact (listed.active fd member).cons (by intro same; cases same)
  · intro m member
    exact (listed.msgs m member).cons nofun
  · apply listed.writes.cons
    intro fd bytes sent same
    cases same
    exact ⟨subscribed, msg.buf, heard⟩

/-- The buffer that is read into is of no message that waits. -/
theorem Conserved.ne_of_read (conserved : Conserved P s) {i b : Nat} (at_ : s.pc = .read i b) :
    ∀ msg ∈ s.outQueue, msg.buf ≠ b := by
  have distinct : s.account.Nodup := conserved.nodup_iff.mpr List.nodup_range
  unfold State.account at distinct
  rw [at_] at distinct
  intro msg member same
  have waiting : msg.buf ∈ s.bufpool ++ s.outQueue.map (·.buf) :=
    List.mem_append_right _ (List.mem_map_of_mem member)
  exact List.disjoint_of_nodup_append distinct waiting (by
    rw [same]
    exact List.mem_singleton_self b)

/-- What is read is posted by an active client, or makes the client one. -/
theorem Listed.read (listed : Listed s) (conserved : Conserved P s) {data : List UInt8}
    (stepped : Step tcpHandler P s (.read data) s') : Listed s' := by
  cases stepped with
  | @read i b c handler posts ret _ at_ _ _ _ _ answer =>
      have old : ∀ msg ∈ s.outQueue,
          Heard msg.buf (((Function.update s.bufs b (data ++ (s.bufs b).drop data.length))
            msg.buf).take msg.len) (.read c.fd b data :: s.log) := by
        intro msg member
        have elsewhere := conserved.ne_of_read at_ msg member
        rw [Function.update_of_ne elsewhere]
        apply (listed.msgs msg (List.mem_append_left _ member)).cons
        intro fd data' same
        cases same
        exact elsewhere rfl
      have writes : Lawful (.read c.fd b data :: s.log) := by
        apply listed.writes.cons
        intro fd bytes sent same
        cases same
      have active : ∀ fd ∈ s.handler, Subscribed fd (.read c.fd b data :: s.log) := by
        intro fd member
        exact (listed.active fd member).cons (by intro same; cases same)
      rcases tcpHandler_onRead answer with ⟨member, rfl, rfl⟩ | ⟨member, rfl, rfl⟩
      · refine ⟨active, ?_, fun _ _ _ _ _ at_ => (Pc.not_writeTo at_ rfl).elim, writes⟩
        intro msg among
        rcases List.mem_append.mp among with before | new
        · exact old msg before
        · rw [List.mem_singleton.mp new]
          refine (if_pos rfl).mpr ⟨?_, listed.active c.fd member⟩
          simp only [State.bytes, Function.update_self, List.take_left]
      · refine ⟨?_, ?_, fun _ _ _ _ _ at_ => (Pc.not_writeTo at_ rfl).elim, writes⟩
        · intro fd among
          split at among
          case isTrue asks =>
            rcases List.mem_append.mp among with before | new
            · exact active fd before
            · rw [List.mem_singleton.mp new]
              exact .inl ⟨rfl, asks⟩
          case isFalse => exact active fd among
        · intro msg among
          rw [Pc.msgs, List.append_nil] at among
          exact old msg among

theorem Listed.accept (listed : Listed s) {fd : Int} (fresh : Fresh s (.accept fd))
    (stepped : Step tcpHandler P s (.accept fd) s') : Listed s' := by
  cases stepped with
  | accept _ at_ =>
      have unlisted : fd ∉ s.handler := fresh.2 fd rfl
      refine ⟨?_, ?_, fun _ _ _ _ _ at_ => (Pc.not_writeTo at_ rfl).elim, ?_⟩
      · intro f member
        have other : Event.accept fd ≠ .accept f := by
          intro same
          cases same
          exact unlisted member
        exact ((listed.active f member).cons other).cons (by intro same; cases same)
      · intro msg member
        have waiting : msg ∈ s.outQueue ++ [] := member
        rw [List.append_nil] at waiting
        have before := listed.msgs msg (List.mem_append_left _ waiting)
        have accepted : Heard msg.buf (s.bytes msg) (.accept fd :: s.log) :=
          before.cons (by intro _ _ same; cases same)
        exact accepted.cons (by intro _ _ same; cases same)
      · have accepted : Lawful (.accept fd :: s.log) := by
          apply listed.writes.cons
          intro f bytes sent same
          cases same
        apply accepted.cons
        intro f bytes sent same
        cases same

theorem tcpHandler_onOut {active active' : List Int} {msg : TaggedTcpMsg} {accepted : Bool}
    (answer : tcpHandler.onOut active msg = (active', accepted)) :
    active' = active ∧ (accepted = true → msg.fd ∈ active) := by
  obtain ⟨rfl, rfl⟩ := Prod.mk.injEq .. ▸ answer
  exact ⟨rfl, of_decide_eq_true⟩

/-- A fresh step. -/
theorem Listed.step (listed : Listed s) (conserved : Conserved P s)
    (unaddressed : Unaddressed s) (fresh : Fresh s act) (stepped : Step tcpHandler P s act s') :
    Listed s' := by
  have silent : ∀ event ∈ ([] : List Event), event.quiet = true := nofun
  have handler : s.handler ⊆ s.handler := List.Subset.refl _
  have idle : s.outQueue ++ [] ⊆ s.outQueue ++ s.pc.msgs := by
    rw [List.append_nil]
    exact List.subset_append_left ..
  cases stepped with
  | accept fd at_ entry hup in_ listening open_ negative unused =>
      exact listed.accept fresh (.accept fd at_ entry hup in_ listening open_ negative unused)
  | read data at_ entry open_ some_ room answer =>
      exact listed.read conserved (.read data at_ entry open_ some_ room answer)
  | @hangUp i c at_ entry hup =>
      apply listed.move (s.closed c.fd ++ [.disconnect c.fd])
      · rw [List.append_assoc]
        exact State.close_log _ c.fd
      · intro event member
        rcases List.mem_append.mp member with closed | told
        · exact s.closed_quiet c.fd event closed
        · rw [List.mem_singleton.mp told]
          rfl
      · exact List.erase_subset
      · rfl
      · exact idle
      · rfl
  | @readFail i b c at_ entry =>
      exact listed.move (s.closed c.fd) (s.close_log c.fd) (s.closed_quiet c.fd) handler rfl idle
        rfl
  | @push i b msg rest ret at_ room =>
      refine listed.move [] rfl silent handler rfl ?_ rfl
      rw [at_]
      intro m member
      exact (List.append_assoc s.outQueue [msg] rest) ▸ member
  | @handled i b ret at_ =>
      cases ret with
      | _ => exact listed.idle ⟨rfl, rfl, rfl, rfl⟩ rfl rfl
  | @release b next at_ room =>
      have quiet : ∀ event ∈ [Event.release b], event.quiet = true := by simp [Event.quiet]
      cases next with
      | _ => exact listed.move [.release b] rfl quiet handler rfl idle rfl
  | @popBroadcast i c msg rest at_ entry out queue all =>
      refine listed.move [] rfl silent handler rfl ?_ rfl
      rw [queue]
      intro m member
      apply List.mem_append_left
      rcases List.mem_append.mp member with later | first
      · exact List.mem_cons_of_mem msg later
      · rw [List.mem_singleton.mp first]
        exact List.mem_cons_self
  | popAccept _ _ _ queue addressed _ => exact absurd (unaddressed.head queue) addressed
  | popFilter _ _ _ queue addressed _ => exact absurd (unaddressed.head queue) addressed
  | write at_ => exact absurd at_ (unaddressed.write _ _)
  | writeFail at_ => exact absurd at_ (unaddressed.write _ _)
  | @listener i k msg stale c at_ entry own =>
      refine listed.move [] rfl silent handler rfl ?_ rfl
      rw [at_]
      exact List.Subset.refl _
  | @accepted i k msg stale c answered at_ entry other answer =>
      obtain ⟨rfl, member⟩ := tcpHandler_onOut answer
      have quiet : ∀ event ∈ [Event.out c.fd true], event.quiet = true := by simp [Event.quiet]
      refine listed.quietly [.out c.fd true] rfl quiet handler rfl ?_ ?_
      · rw [at_]
        exact List.Subset.refl _
      · intro _ _ _ _ c' same entry'
        cases same
        cases entry.symm.trans entry'
        exact member rfl
  | @filter i k msg stale c answered at_ entry other answer =>
      obtain ⟨rfl, _⟩ := tcpHandler_onOut answer
      have quiet : ∀ event ∈ [Event.out c.fd false], event.quiet = true := by simp [Event.quiet]
      refine listed.move [.out c.fd false] rfl quiet handler rfl ?_ rfl
      rw [at_]
      exact List.Subset.refl _
  | @writeTo i k msg stale c at_ entry open_ =>
      have written := listed.written at_ entry true
      refine written.move [] rfl silent handler rfl ?_ rfl
      exact at_ ▸ List.Subset.refl _
  | @writeToFail i k msg stale c at_ entry bound =>
      have written := listed.written at_ entry false
      refine written.move (s.closed c.fd) (State.close_log _ c.fd) (s.closed_quiet c.fd) handler rfl
        ?_ rfl
      exact at_ ▸ List.Subset.refl _
  | @eraseEnd i k msg stale c at_ entry past =>
      have written := listed.written at_ entry false
      refine written.move (s.closed c.fd) (State.close_log _ c.fd) (s.closed_quiet c.fd) handler rfl
        ?_ rfl
      rw [State.emit, at_]
      intro m member
      have waiting : m ∈ s.outQueue ++ [] := member
      rw [List.append_nil] at waiting
      exact List.mem_append_left _ waiting
  | post msg => exact absurd fresh.1 Bool.false_ne_true
  | pollNone => exact listed
  | _ => exact listed.idle ⟨rfl, rfl, rfl, rfl⟩ rfl rfl

theorem listed_of_fresh (reaches : Reaches (Step tcpHandler P) Fresh (State.bound P []) s) :
    Listed s := by
  have start : Listed (State.bound P ([] : List Int)) := by
    refine ⟨nofun, nofun, fun _ _ _ _ _ at_ => (Pc.not_writeTo at_ rfl).elim, ?_⟩
    intro later fd bytes sent before empty
    exact absurd empty.symm (List.append_ne_nil_of_right_ne_nil later (List.cons_ne_nil _ _))
  apply reaches.invariant start
  intro s act s' before listed fresh stepped
  have conserved := conserved_of_own (fun _ _ fresh => fresh.1) before
  have unaddressed := unaddressed_of_own (fun _ _ fresh => fresh.1) before
  exact listed.step conserved unaddressed fresh stepped

/-- **Subscriptions.** In every run of the test server in which no descriptor accepted is still
in `active_clients`, what is written to a connection was read from one that had subscribed,
and goes to one that has; and the message being broadcast was read into its buffer from one that
had. -/
theorem isolated_of_fresh (P : Params) (s : State (List Int))
    (reaches : Reaches (Step tcpHandler P) Fresh (State.bound P []) s) : Isolated s := by
  have listed := listed_of_fresh reaches
  refine ⟨listed.writes, ?_⟩
  intro i msg k stale at_
  apply listed.msgs
  apply List.mem_append_right
  rcases at_ with at_ | at_
  · rw [at_]
    exact List.mem_singleton_self msg
  · rw [at_]
    exact List.mem_singleton_self msg

/-- A message of client 4 is written to client 4. -/
theorem isolated_of_fresh_broadcast :
    ∃ s : State (List Int), (∃ log, s.log = .write 4 [1] true :: log) ∧ Isolated s := by
  have run : ∃ s, Reaches (Step tcpHandler (tcpServer 3)) Fresh (State.bound (tcpServer 3) []) s ∧
      s.log.head? = some (.write 4 [1] true) :=
    exists_of_play (List.flatten [twoActive, broadcasting, [.listener, .accepted, .writeTo]])
      (by decide +kernel)
  obtain ⟨s, reaches, first⟩ := run
  exact ⟨s, List.head?_eq_some_iff.mp first, isolated_of_fresh (tcpServer 3) s reaches⟩

/-- Client 4 subscribes and closes, and its descriptor goes to another client. That one is
listed: what it sends is broadcast, and it is written to. -/
theorem not_isolated_reused :
    ¬ ∀ s : State (List Int),
      Reaches (Step tcpHandler (tcpServer 3)) Own (State.bound (tcpServer 3) []) s →
      Isolated s := by
  intro law
  have run : ∃ s, Reaches (Step tcpHandler (tcpServer 3)) Own (State.bound (tcpServer 3) []) s ∧
      s.log = [.write 4 [1] true, .out 4 true, .read 4 2 [1], .connect 4, .accept 4, .release 1,
        .close 4, .release 0, .read 4 0 sub, .connect 4, .accept 4] :=
    exists_of_play (List.flatten [accepting 0 4, [.poll [quiet, readableOnly]], passing,
      sending sub, [.scanEnd, .poll [quiet, readableOnly]], passing,
      [.readable, .takeBuf, .readFail, .release], accepting 0 4,
      [.poll [quiet, ⟨true, false, true⟩]], passing,
      [.readable, .takeBuf, .read [1], .push, .handled, .popBroadcast, .listener, .accepted,
        .writeTo]]) (by decide +kernel)
  obtain ⟨s, reaches, log⟩ := run
  obtain ⟨subscribed, _⟩ := (law s reaches).writes [] 4 [1] true _ log
  rcases subscribed with ⟨_, asks⟩ | ⟨other, _⟩
  · exact absurd asks (by decide)
  · exact other rfl

end Server

end OpenFix
