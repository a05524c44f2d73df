import OpenFix.Client.Ownership
import OpenFix.Client.Runs
import OpenFix.FixClient.Deframe
import OpenFix.Lmax

/-!
# Threads that wait for each other

The `poll( )` thread and the consumer thread of `lmax_cli`, from the state in which `main`
starts them. Both take buffers from one pool with a pop that waits, and only `poll( )` gives
the outgoing ones back.

* `Deadlocked`: each thread waits for what only the other one can give; `Deadlocked.no_step`
  says that no thread moves again.
* `State.current`, `State.later`: the buffers that the consumer takes and gives back, in turn, for
  the entry it works on and for those behind; `Supplied`, that the free ones are enough where
  `poll( )` may come to wait.
* `not_deadlocked_of_supplied`: the law for every run of supplied steps.
* `not_deadlock_free`: 63 heartbeats, answered while the socket takes no data.
-/

namespace OpenFix

namespace Client

open Transition (Reaches always)

/-! ## Waiting -/

/-- The next step of the handler pushes an entry. -/
def pushes (mem : Mem) (b len : Nat) (garbage : StackGarbage) (pc : HandlerPc) : Prop :=
  (FixHandler.step mem b len garbage pc).2 ≠ none

variable {P : Params} {ι : Type} {s s' : State ι}

/-- `poll( )` waits in `get_buf`, or in a push onto `in_queue`. -/
def State.pollWaits (P : Params) (s : State ι) : Prop :=
  match s.poll with
  | .getBuf _ => s.pool = []
  | .handle b len _ garbage pc => pushes s.mem b len garbage pc ∧ P.inSize ≤ s.inQueue.length
  | _ => False

/-- The consumer waits in `get_buf`, or in a push onto `m_outgoing`. -/
def State.consumerWaits (P : Params) (s : State ι) : Prop :=
  match s.posting none with
  | .getBuf _ => s.pool = []
  | .push _ => P.outSize ≤ s.outgoing.length
  | _ => False

theorem consumerWaits_getBuf (kind : PostKind) (at_ : s.posting none = .getBuf kind) :
    s.consumerWaits P ↔ s.pool = [] := by
  unfold State.consumerWaits
  rw [at_]

def Deadlocked (P : Params) (s : State ι) : Prop := s.pollWaits P ∧ s.consumerWaits P

/-- `m_outgoing` has room for every buffer, so its push never waits. -/
theorem State.consumerWaits.getBuf [Fintype ι] (waits : s.consumerWaits P)
    (below : owned s ≤ P.buffers) (sizes : P.bufpoolSize ≤ P.outSize) :
    (∃ kind, s.posting none = .getBuf kind) ∧ s.pool = [] := by
  unfold State.consumerWaits at waits
  split at waits
  case h_1 kind at_ => exact ⟨⟨kind, at_⟩, waits⟩
  case h_2 msg at_ =>
    have member : msg ∈ Tally.tally PostPc.pushing s.posting := by
      refine Tally.mem_tally.mpr ⟨none, ?_⟩
      rw [at_]
      exact Multiset.mem_singleton_self msg
    have own := Multiset.card_pos_iff_exists_mem.mpr ⟨msg, member⟩
    have count := Multiset.card_le_card below
    rw [Multiset.coe_card, P.buffers_length, owned, live] at count
    simp only [Multiset.card_add, Multiset.card_map, Multiset.coe_card] at count
    omega
  case h_3 => exact waits.elim

/-! ## What the consumer needs -/

/-- What the consumer does to the pool. -/
inductive Move : Type
  | take
  | give
  deriving DecidableEq, Repr

/-- With `free` buffers in the pool, and what they give back, the moves need not wait. -/
def Suffices : Nat → List Move → Prop
  | _, [] => True
  | 0, .take :: _ => False
  | free + 1, .take :: moves => Suffices free moves
  | free, .give :: moves => Suffices (free + 1) moves

/-- `post_heartbeat` takes a buffer for types `'0'` and `'1'`. -/
def answers (e : FixMsg) : List Move := if e.type = 48 ∨ e.type = 49 then [.take] else []

/-- So does `post_market_request`, once. -/
def subscribes (once : Bool) (session : SessionState) : List Move :=
  if once = false ∧ session = .LoggedIn then [.take] else []

/-- The buffer of the entry goes back behind the final one. -/
def gives (e : FixMsg) : List Move := if e.isFinal then [.give] else []

/-- The session state behind the entry. -/
def SessionState.behind (session : SessionState) (e : FixMsg) : SessionState :=
  if e.type = 65 then .LoggedIn else session

/-- The moves for an entry. -/
def handles (once : Bool) (session : SessionState) (e : FixMsg) : List Move :=
  answers e ++ (subscribes once (session.behind e) ++ gives e)

/-- The moves for entries that wait. -/
def pending : Bool → SessionState → List FixMsg → List Move
  | _, _, [] => []
  | once, session, e :: entries =>
      handles once session e ++ pending true (session.behind e) entries

/-- A `post_*` that has no buffer yet. -/
def PostPc.asks : PostPc → List Move
  | .getBuf _ => [.take]
  | _ => []

/-- The moves for the entry that the consumer works on. -/
def State.current (s : State ι) : List Move :=
  match s.consumer with
  | .dispatch e => handles s.once s.session e
  | .reply e => (s.posting none).asks ++ (subscribes s.once s.session ++ gives e)
  | .once e => subscribes s.once s.session ++ gives e
  | .subscribe e => (s.posting none).asks ++ gives e
  | .final e => gives e
  | _ => []

/-- The moves for the entries behind it. -/
def State.later (s : State ι) : List Move :=
  match s.consumer with
  | .dispatch e => pending true (s.session.behind e) s.inQueue
  | .reply _ => pending true s.session s.inQueue
  | .once _ => pending true s.session s.inQueue
  | .done => []
  | _ => pending s.once s.session s.inQueue

/-- Where `poll( )` may come to wait, the free buffers are enough. When POLLIN is reported that is
for all entries; when the handler has to parse with `in_queue` full, for the one that the consumer
works on, since a pop makes room. -/
def Supplied (P : Params) (s : State ι) : Act ι → Prop
  | .poll (.events pollIn _) => pollIn = true → Suffices s.pool.length (s.current ++ s.later)
  | .poll (.recv _ _) => P.inSize ≤ s.inQueue.length → Suffices s.pool.length s.current
  | .poll .handle => ∀ b len out garbage pc pc' entry, s.poll = .handle b len out garbage pc →
      FixHandler.step s.mem b len garbage pc = (pc', entry) → (pc'.position b (b + len)).isSome →
        P.inSize ≤ (s.inQueue ++ entry.toList).length → Suffices s.pool.length s.current
  | _ => True

/-! ## What supplied steps keep -/

/-- `poll( )` may wait where it stands. -/
def State.mayWait (P : Params) (s : State ι) : Prop :=
  match s.poll with
  | .getBuf _ => True
  | .handle b len _ _ pc => (pc.position b (b + len)).isSome ∧ P.inSize ≤ s.inQueue.length
  | _ => False

/-- The moves of the consumer while `poll( )` waits. -/
def State.needs (s : State ι) : List Move :=
  match s.poll with
  | .getBuf _ => s.current ++ s.later
  | _ => s.current

theorem State.pollWaits.mayWait (waits : s.pollWaits P) : s.mayWait P := by
  unfold State.pollWaits at waits
  unfold State.mayWait
  split at waits
  case h_1 => trivial
  case h_2 b len out garbage pc at_ =>
    refine ⟨?_, waits.2⟩
    cases stepped : FixHandler.step s.mem b len garbage pc with
    | mk pc' entry =>
        cases entry with
        | none =>
            have silent := waits.1
            rw [pushes, stepped] at silent
            exact (silent rfl).elim
        | some e =>
            obtain ⟨i, position⟩ := FixHandler.position_of_push stepped
            rw [position]
            rfl
  case h_3 => exact waits.elim

theorem not_mayWait_afterIn (out : Bool) (at_ : s.poll = PollPc.afterIn out) :
    ¬ s.mayWait P := by
  unfold State.mayWait
  rw [at_]
  cases out
  · exact id
  · exact id

/-- While `poll( )` may wait, the free buffers are enough for the consumer. -/
structure Served (P : Params) (s : State ι) : Prop where
  room : s.inQueue.length ≤ P.inSize
  enough : s.mayWait P → Suffices s.pool.length s.needs

theorem PollStep.room {act : PollAct} (room : s.inQueue.length ≤ P.inSize)
    (stepped : PollStep P s act s') : s'.inQueue.length ≤ P.inSize := by
  cases stepped with
  | @handle _ _ _ _ _ _ entry _ _ _ space =>
      cases entry with
      | none =>
          rw [Option.toList_none, List.append_nil]
          exact room
      | some e =>
          rw [Option.toList_some, List.length_append]
          exact space nofun
  | _ => exact room

theorem PollStep.served {act : PollAct} (served : Served P s) (supplied : Supplied P s (.poll act))
    (stepped : PollStep P s act s') : Served P s' := by
  refine ⟨stepped.room served.room, fun may => ?_⟩
  cases stepped with
  | events pollIn pollOut at_ _ =>
      cases pollIn with
      | false => exact (not_mayWait_afterIn pollOut rfl may).elim
      | true => exact supplied rfl
  | recv data garbage at_ _ _ => exact supplied may.2
  | @handle b len out garbage pc pc' entry at_ runs handler room =>
      exact supplied b len out garbage pc pc' entry at_ handler may.1 may.2
  | @handled b len out ret garbage at_ =>
      cases ret
      · exact (not_mayWait_afterIn out rfl may).elim
      · exact may.elim
  | @release b next at_ _ =>
      rcases next with _ | out
      · exact may.elim
      · exact (not_mayWait_afterIn out rfl may).elim
  | _ => exact may.elim

theorem PollStep.not_pollWaits {act : PollAct} (stepped : PollStep P s act s') :
    ¬ s.pollWaits P := by
  intro waits
  unfold State.pollWaits at waits
  cases stepped with
  | takeBuf at_ pool =>
      rw [at_] at waits
      cases pool.symm.trans waits
  | handle at_ runs handler room =>
      rw [at_] at waits
      have entry := waits.1
      unfold pushes at entry
      rw [handler] at entry
      exact absurd (room entry) (Nat.not_lt.mpr waits.2)
  | handled at_ =>
      rw [at_] at waits
      exact waits.1 rfl
  | events pollIn pollOut at_ _ =>
      rw [at_] at waits
      exact waits
  | recv data garbage at_ _ _ =>
      rw [at_] at waits
      exact waits
  | send ret at_ _ _ =>
      rw [at_] at waits
      exact waits
  | _ at_ =>
      rw [at_] at waits
      exact waits

/-- A step of the consumer: it goes on with its entry, or takes up the next one. -/
inductive Serves (s s' : State ι) : Prop
  | work : s'.poll = s.poll → s'.inQueue = s.inQueue → s'.later = s.later →
    (∀ moves, Suffices s'.pool.length (s'.current ++ moves) ↔
      Suffices s.pool.length (s.current ++ moves)) → Serves s s'
  | pop : s'.poll = s.poll → s'.inQueue.length < s.inQueue.length → s'.pool = s.pool →
    s.current = [] → s'.current ++ s'.later = s.later → Serves s s'

theorem Serves.poll (serves : Serves s s') : s'.poll = s.poll := by
  cases serves with
  | work poll _ _ _ => exact poll
  | pop poll _ _ _ _ => exact poll

theorem Serves.all (serves : Serves s s') :
    Suffices s'.pool.length (s'.current ++ s'.later) ↔
      Suffices s.pool.length (s.current ++ s.later) := by
  cases serves with
  | work _ _ later current =>
      rw [later]
      exact current s.later
  | pop _ _ pool none_ next => rw [pool, none_, next, List.nil_append]

theorem Served.serves (served : Served P s) (serves : Serves s s') : Served P s' := by
  cases serves with
  | work poll queue later current =>
      refine ⟨queue ▸ served.room, fun may => ?_⟩
      unfold State.mayWait at may
      rw [poll, queue] at may
      have enough := served.enough may
      unfold State.needs at enough ⊢
      rw [poll]
      split at enough
      · rw [later]
        exact (current s.later).mpr enough
      · have same := current []
        rw [List.append_nil, List.append_nil] at same
        exact same.mpr enough
  | pop poll queue pool none_ next =>
      refine ⟨queue.le.trans served.room, fun may => ?_⟩
      have less := Nat.lt_of_lt_of_le queue served.room
      unfold State.mayWait at may
      rw [poll] at may
      split at may
      case h_1 at_ =>
        have enough := served.enough (by rw [State.mayWait, at_]; trivial)
        unfold State.needs at enough ⊢
        rw [poll, at_]
        rw [at_, none_] at enough
        rw [pool, next]
        exact enough
      case h_2 => exact absurd may.2 (Nat.not_le.mpr less)
      case h_3 => exact may.elim

variable [DecidableEq ι]

theorem ConsumerStep.serves {act : ConsumerAct} (stays : act ≠ .leave)
    (stepped : ConsumerStep P s act s') : Serves s s' := by
  have same {s' : State ι} (poll : s'.poll = s.poll) (queue : s'.inQueue = s.inQueue)
      (pool : s'.pool = s.pool) (current : s'.current = s.current) (later : s'.later = s.later) :
      Serves s s' :=
    .work poll queue later fun moves => by rw [pool, current]
  cases stepped with
  | loop at_ _ =>
      exact same rfl rfl rfl (by simp only [State.current, at_]) (by simp only [State.later, at_])
  | leave at_ _ => exact absurd rfl stays
  | popEmpty at_ _ =>
      exact same rfl rfl rfl (by simp only [State.current, at_]) (by simp only [State.later, at_])
  | @pop msg rest at_ queue =>
      refine .pop rfl ?_ rfl (by simp only [State.current, at_]) ?_
      · rw [queue]
        exact Nat.lt_succ_self _
      · simp only [State.current, State.later, at_, queue, pending]
  | @reply msg at_ type _ =>
      have session : s.session.behind msg = s.session := by
        refine if_neg fun logon => ?_
        rw [logon] at type
        exact absurd type (by decide)
      refine same rfl rfl rfl ?_ ?_
      · simp only [State.current, at_, handles, answers, if_pos type, session,
          State.setPosting_posting]
        rfl
      · simp only [State.later, at_, session]
        rfl
  | @logIn msg at_ type =>
      have silent : answers msg = [] := if_neg (by rw [type]; decide)
      have session : s.session.behind msg = .LoggedIn := if_pos type
      refine same rfl rfl rfl ?_ ?_
      · simp only [State.current, at_, handles, silent, session, List.nil_append]
      · simp only [State.later, at_, session]
  | @pass msg at_ other other' notLogon =>
      have silent : answers msg = [] := if_neg (not_or.mpr ⟨other, other'⟩)
      have session : s.session.behind msg = s.session := if_neg notLogon
      refine same rfl rfl rfl ?_ ?_
      · simp only [State.current, at_, handles, silent, session, List.nil_append]
      · simp only [State.later, at_, session]
  | replied at_ idle =>
      refine same rfl rfl rfl ?_ (by simp only [State.later, at_])
      simp only [State.current, at_, idle, PostPc.asks, List.nil_append]
  | @onceDone msg at_ once =>
      refine same rfl rfl rfl ?_ (by simp only [State.later, at_, once])
      simp only [State.current, at_, once, subscribes, Bool.true_eq_false, false_and, if_false,
        List.nil_append]
  | @subscribe msg at_ once session _ =>
      refine same rfl rfl rfl ?_ ?_
      · simp only [State.current, at_, once, session, subscribes, and_self, if_true,
          State.setPosting_posting]
        rfl
      · simp only [State.later, at_]
        rfl
  | @onceEarly msg at_ once session =>
      refine same rfl rfl rfl ?_ (by simp only [State.later, at_])
      simp only [State.current, at_, once, session, subscribes, and_false, if_false,
        List.nil_append]
  | subscribed at_ idle =>
      refine same rfl rfl rfl ?_ (by simp only [State.later, at_])
      simp only [State.current, at_, idle, PostPc.asks, List.nil_append]
  | @final msg at_ _ =>
      refine .work rfl rfl (by simp only [State.later, at_]) fun moves => ?_
      simp only [State.current, at_, gives]
      split
      case isTrue final =>
        rw [List.length_append]
        rfl
      case isFalse more => rw [List.append_nil]

theorem ConsumerStep.served {act : ConsumerAct} (served : Served P s)
    (stepped : ConsumerStep P s act s') : Served P s' := by
  by_cases leaves : act = .leave
  · cases stepped with
    | leave at_ _ =>
        refine ⟨served.room, fun _ => ?_⟩
        unfold State.needs
        split <;> trivial
    | _ => cases leaves
  · exact served.serves (stepped.serves leaves)

/-! ## Two threads -/

/-- The client when `main` starts the two threads of `lmax_cli`: it has posted the logon. -/
def State.launched (P : Params) (fd : Int) (bytes : List UInt8) : State Empty :=
  (State.connected P Empty fd).posts none .logon 0 P.buffers.tail bytes

/-- In a `post_*` of its own the consumer stands at the call. -/
def ConsumerPc.calls : ConsumerPc → Bool
  | .reply _ => true
  | .subscribe _ => true
  | _ => false

def Calls (s : State ι) : Prop := s.posting none ≠ .idle → s.consumer.calls = true

/-- The consumer steps outside its `post_*` only. -/
theorem ConsumerStep.idle {act : ConsumerAct} (kept : Calls s)
    (stepped : ConsumerStep P s act s') : s.posting none = .idle := by
  have outside {consumer : ConsumerPc} (at_ : s.consumer = consumer)
      (calls : consumer.calls = false) : s.posting none = .idle := by
    by_contra busy
    have inside := kept busy
    rw [at_, calls] at inside
    cases inside
  cases stepped with
  | loop at_ _ => exact outside at_ rfl
  | leave at_ _ => exact outside at_ rfl
  | popEmpty at_ _ => exact outside at_ rfl
  | pop at_ _ => exact outside at_ rfl
  | reply _ _ idle => exact idle
  | logIn at_ _ => exact outside at_ rfl
  | pass at_ _ _ _ => exact outside at_ rfl
  | replied _ idle => exact idle
  | onceDone at_ _ => exact outside at_ rfl
  | subscribe _ _ _ idle => exact idle
  | onceEarly at_ _ _ => exact outside at_ rfl
  | subscribed _ idle => exact idle
  | final at_ _ => exact outside at_ rfl

theorem ConsumerStep.calls {act : ConsumerAct} (kept : Calls s)
    (stepped : ConsumerStep P s act s') : Calls s' := by
  have idle := stepped.idle kept
  cases stepped with
  | reply _ _ _ => exact fun _ => rfl
  | subscribe _ _ _ _ => exact fun _ => rfl
  | _ => exact fun busy => (busy idle).elim

theorem PostStep.not_consumerWaits {act : PostAct} (stepped : PostStep P s none act s') :
    ¬ s.consumerWaits P := by
  intro waits
  unfold State.consumerWaits at waits
  cases stepped with
  | takeBuf at_ pool =>
      rw [at_] at waits
      cases pool.symm.trans waits
  | create at_ creates fits =>
      rw [at_] at waits
      exact waits
  | push at_ room =>
      rw [at_] at waits
      exact absurd room (Nat.not_lt.mpr waits)

theorem Step.calls {s s' : State Empty} {act : Act Empty} (kept : Calls s)
    (stepped : Step P s act s') : Calls s' := by
  cases stepped with
  | poll stepped => cases stepped with | _ => exact kept
  | consumer stepped => exact stepped.calls kept
  | @post _ t act stepped =>
      have busy {pc : PostPc} (at_ : s.posting t = pc) (inside : pc ≠ .idle) :
          s.consumer.calls = true := by
        rcases t with _ | i
        · exact kept (at_ ▸ inside)
        · exact i.elim
      cases stepped with
      | start i _ _ => exact i.elim
      | takeBuf at_ _ => exact fun _ => busy at_ nofun
      | create at_ _ _ => exact fun _ => busy at_ nofun
      | push at_ _ => exact fun _ => busy at_ nofun

omit [DecidableEq ι] in
/-- In a `post_*` of the consumer the moves begin with what it asks for. -/
theorem current_of_calls (calls : s.consumer.calls = true) :
    ∃ rest, s.current = (s.posting none).asks ++ rest ∧
      ∀ s' : State ι, s'.consumer = s.consumer → s'.inQueue = s.inQueue →
        s'.once = s.once ∧ s'.session = s.session →
          s'.current = (s'.posting none).asks ++ rest ∧ s'.later = s.later := by
  cases at_ : s.consumer with
  | reply e =>
      refine ⟨_, by rw [State.current, at_], fun s' consumer queue same => ?_⟩
      simp only [State.current, State.later, at_, consumer, queue, same.1, same.2, and_self]
  | subscribe e =>
      refine ⟨_, by rw [State.current, at_], fun s' consumer queue same => ?_⟩
      simp only [State.current, State.later, at_, consumer, queue, same.1, same.2, and_self]
  | _ =>
      rw [at_] at calls
      cases calls

theorem PostStep.serves {act : PostAct} (kept : Calls s) (stepped : PostStep P s none act s') :
    Serves s s' := by
  have busy : s.posting none ≠ .idle := by
    intro idle
    cases stepped with
    | _ at_ => cases at_.symm.trans idle
  obtain ⟨rest, current, goes⟩ := current_of_calls (kept busy)
  have move {s' : State ι} (same : s'.poll = s.poll ∧ s'.consumer = s.consumer ∧
        s'.inQueue = s.inQueue ∧ s'.once = s.once ∧ s'.session = s.session)
      (asks : ∀ moves, Suffices s'.pool.length ((s'.posting none).asks ++ moves) ↔
        Suffices s.pool.length ((s.posting none).asks ++ moves)) : Serves s s' := by
    obtain ⟨poll, consumer, queue, same⟩ := same
    obtain ⟨current', later⟩ := goes s' consumer queue same
    refine .work poll queue later fun moves => ?_
    rw [current', current, List.append_assoc, List.append_assoc]
    exact asks (rest ++ moves)
  cases stepped with
  | takeBuf at_ pool =>
      refine move ⟨rfl, rfl, rfl, rfl, rfl⟩ fun moves => ?_
      rw [State.setPosting_posting, at_, pool]
      rfl
  | create at_ _ _ =>
      refine move ⟨rfl, rfl, rfl, rfl, rfl⟩ fun moves => ?_
      rw [State.setPosting_posting, at_]
      rfl
  | push at_ _ =>
      refine move ⟨rfl, rfl, rfl, rfl, rfl⟩ fun moves => ?_
      rw [State.setPosting_posting, at_]
      rfl

/-- A supplied step. -/
theorem Step.served {s s' : State Empty} {act : Act Empty} (served : Served P s) (kept : Calls s)
    (supplied : Supplied P s act) (stepped : Step P s act s') : Served P s' := by
  cases stepped with
  | poll stepped => exact stepped.served served supplied
  | consumer stepped => exact stepped.served served
  | @post _ t act stepped =>
      rcases t with _ | i
      · exact served.serves (stepped.serves kept)
      · exact i.elim

/-- A consumer that waits for a buffer has too few. -/
theorem not_suffices_of_waits {s : State Empty} (waits : s.consumerWaits P) (kept : Calls s)
    (below : owned s ≤ P.buffers) (sizes : P.bufpoolSize ≤ P.outSize) :
    ¬ Suffices s.pool.length s.needs := by
  intro enough
  obtain ⟨⟨kind, at_⟩, empty⟩ := waits.getBuf below sizes
  obtain ⟨rest, current, -⟩ := current_of_calls (kept (by rw [at_]; exact nofun))
  rw [at_] at current
  unfold State.needs at enough
  rw [current, empty] at enough
  split at enough
  · exact enough
  · exact enough

theorem not_deadlocked_of_served {s : State Empty} (served : Served P s) (kept : Calls s)
    (below : owned s ≤ P.buffers) (sizes : P.bufpoolSize ≤ P.outSize) : ¬ Deadlocked P s :=
  fun deadlocked => not_suffices_of_waits deadlocked.2 kept below sizes
    (served.enough deadlocked.1.mayWait)

/-- In a deadlock no thread moves. -/
theorem Deadlocked.no_step {s s' : State Empty} {act : Act Empty} (deadlocked : Deadlocked P s)
    (calls : Calls s) : ¬ Step P s act s' := by
  rcases deadlocked with ⟨pollWaits, consumerWaits⟩
  intro stepped
  cases stepped with
  | poll stepped => exact stepped.not_pollWaits pollWaits
  | consumer stepped =>
      unfold State.consumerWaits at consumerWaits
      rw [stepped.idle calls] at consumerWaits
      exact consumerWaits
  | @post _ t act stepped =>
      rcases t with _ | i
      · exact stepped.not_consumerWaits consumerWaits
      · exact i.elim

theorem calls_of_reaches {s : State Empty} {cond : State Empty → Act Empty → Prop} {fd : Int}
    {bytes : List UInt8} (reaches : Reaches (Step P) cond (State.launched P fd bytes) s) :
    Calls s := by
  refine reaches.invariant (I := Calls) (fun busy => (busy rfl).elim) ?_
  intro s act s' _ calls _ stepped
  exact stepped.calls calls

theorem no_step_of_deadlocked {s s' : State Empty} {act : Act Empty}
    {cond : State Empty → Act Empty → Prop} {fd : Int} {bytes : List UInt8}
    (reaches : Reaches (Step P) cond (State.launched P fd bytes) s) (deadlocked : Deadlocked P s) :
    ¬ Step P s act s' :=
  deadlocked.no_step (calls_of_reaches reaches)

/-! ## The law -/

theorem owned_posts [Fintype ι] {t : Option ι} {b : Nat} {rest : List Nat} (kind : PostKind)
    (bytes : List UInt8) (idle : s.posting t = .idle) (pool : s.pool = b :: rest) :
    owned (s.posts t kind b rest bytes) = owned s := by
  have account := owned_setPosting
    { s with
      pool := rest
      mem := Bytes.overwrite s.mem b bytes
      seq := wrap32 (s.seq + 1)
      outgoing := s.outgoing ++ [s.message kind b bytes]
      posted := s.posted ++ [s.message kind b bytes] } t .idle
  rw [idle, owns_idle, add_zero, add_zero] at account
  apply account.trans
  unfold owned live spare
  rw [pool]
  simp only [← Multiset.coe_add, ← Multiset.cons_coe, ← Multiset.singleton_add, Multiset.map_add,
    Multiset.coe_nil, add_zero, Multiset.map_singleton, State.message]
  abel

variable {fd : Int} {cond : State Empty → Act Empty → Prop} {bytes : List UInt8}

theorem owned_launched {lmax : Lmax} {s : State Empty} (reaches : Reaches (Step lmax.fixTcpClient)
    cond (State.launched lmax.fixTcpClient fd bytes) s) :
    owned s ≤ lmax.fixTcpClient.buffers := by
  refine owned_le_of_reaches ?_ reaches
  have start := owned_posts (s := State.connected lmax.fixTcpClient Empty fd) (t := none) .logon
    bytes rfl rfl
  rw [owned_connected] at start
  exact start.le

/-- **No deadlock.** In every run of the two threads in which the free buffers, with those given
back meanwhile, are enough for the messages that wait whenever POLLIN is reported, and for the one
in work whenever the handler has to parse with `in_queue` full, `poll( )` and the consumer never
both wait. -/
theorem not_deadlocked_of_supplied (lmax : Lmax) (fd : Int) (bytes : List UInt8)
    (s : State Empty)
    (reaches : Reaches (Step lmax.fixTcpClient) (Supplied lmax.fixTcpClient)
      (State.launched lmax.fixTcpClient fd bytes) s) :
    ¬ Deadlocked lmax.fixTcpClient s := by
  have served : Served lmax.fixTcpClient s := by
    refine reaches.invariant (I := Served lmax.fixTcpClient)
      ⟨Nat.zero_le _, fun may => may.elim⟩ ?_
    intro s act s' before served supplied stepped
    exact stepped.served served (calls_of_reaches before) supplied
  exact not_deadlocked_of_served served (calls_of_reaches reaches) (owned_launched reaches) le_rfl

/-- The first read of the connection. -/
theorem not_deadlocked_of_supplied_read :
    ¬ Deadlocked Lmax.sample.fixTcpClient
      { State.launched Lmax.sample.fixTcpClient 3 (Lmax.sample.bytes .logon [] 1) with
        poll := .getBuf true } :=
  not_deadlocked_of_supplied Lmax.sample 3 (Lmax.sample.bytes .logon [] 1) _
    (Reaches.start.next (a := .poll (.events true true)) (fun _ => trivial)
      (.poll (.events true true rfl (by decide))))

/-! ## A run into a deadlock -/

/-- Between two messages: `n` heartbeats are answered, and none of the answers is sent. -/
structure Resting (n : Nat) (s : State Empty) : Prop where
  poll : s.poll = .top
  consumer : s.consumer = .top
  idle : s.posting none = .idle
  queue : s.inQueue = []
  open_ : 0 < s.fd
  session : s.session ≠ .LoggedIn
  seq : s.seq = n + 2
  outgoing : s.outgoing.length = n + 1
  pool : s.pool.length + n = 63
  length : s.mem.length = 2048 * 64
  inside : ∀ b ∈ s.pool, b + 2048 ≤ 2048 * 64

theorem heartbeat_fits :
    ∀ n < 62, (Lmax.sample.bytes .heartbeat [] ((n : Nat) + 2)).length ≤ 2048 := by
  decide +kernel

/-- The run of one heartbeat: a buffer more waits for the socket. -/
theorem Resting.next {n : Nat} {s : State Empty} (resting : Resting n s) (more : n < 62) :
    ∃ s', Reaches (Step Lmax.sample.fixTcpClient) always s s' ∧ Resting (n + 1) s' := by
  have count := resting.pool
  rcases pool : s.pool with _ | ⟨b, _ | ⟨c, rest⟩⟩
  · rw [pool, List.length_nil] at count
    omega
  · rw [pool, List.length_singleton] at count
    omega
  · rw [pool, List.length_cons, List.length_cons] at count
    have insideB := resting.inside b (by rw [pool]; exact List.mem_cons_self)
    have insideC := resting.inside c
      (by rw [pool]; exact List.mem_cons_of_mem b List.mem_cons_self)
    have small : WireMessage.heartbeat.bytes.length ≤ 2048 := by decide +kernel
    have fits : (Lmax.sample.bytes .heartbeat [] s.seq).length ≤ 2048 := by
      rw [resting.seq]
      exact heartbeat_fits n more
    have fitsC : c + (Lmax.sample.bytes .heartbeat [] s.seq).length ≤ 2048 * 64 := by omega
    have length := resting.length
    have room : s.outgoing.length < 64 := by
      rw [resting.outgoing]
      omega
    have space : rest.length < 64 := by omega
    have read := read_run (P := Lmax.sample.fixTcpClient) .heartbeat resting.poll resting.open_
      pool small (by omega) (by rw [resting.queue]; decide)
    have consumed := read.trans (consume_run (P := Lmax.sample.fixTcpClient) resting.consumer
      resting.open_ (by rw [resting.queue]; rfl) (.inl rfl) rfl resting.idle resting.session rfl
      ⟨[], nofun, rfl⟩ fitsC room space)
    have lengthB : (Bytes.overwrite s.mem b WireMessage.heartbeat.bytes).length = s.mem.length :=
      Bytes.length_overwrite (by omega)
    refine ⟨_, consumed, resting.poll, resting.consumer, rfl, rfl,
      resting.open_, resting.session, ?_, ?_, ?_, ?_, ?_⟩
    · have number : wrap32 (s.seq + 1) = (n + 1 : Nat) + 2 := by
        rw [resting.seq, wrap32_of_range (by omega) (by omega)]
        omega
      exact number
    · apply List.length_append.trans
      rw [resting.outgoing]
      rfl
    · apply (congrArg (· + (n + 1)) List.length_append).trans
      rw [List.length_singleton]
      omega
    · have lengthC : (Bytes.overwrite (Bytes.overwrite s.mem b WireMessage.heartbeat.bytes) c
          (Lmax.sample.bytes .heartbeat [] s.seq)).length = s.mem.length := by
        rw [Bytes.length_overwrite (by omega), lengthB]
      exact lengthC.trans length
    · intro d member
      refine resting.inside d ?_
      rw [pool]
      rcases List.mem_append.mp member with old | back
      · exact List.mem_cons_of_mem b (List.mem_cons_of_mem c old)
      · rw [List.mem_singleton.mp back]
        exact List.mem_cons_self

theorem resting_launched :
    Resting 0 (State.launched Lmax.sample.fixTcpClient 3 (Lmax.sample.bytes .logon [] 1)) := by
  have small : (Lmax.sample.bytes .logon [] 1).length ≤ 2048 := by decide +kernel
  have length : (Bytes.overwrite (List.replicate (2048 * 64) (0 : UInt8)) 0
      (Lmax.sample.bytes .logon [] 1)).length = 2048 * 64 := by
    rw [Bytes.length_overwrite (by rw [List.length_replicate]; omega), List.length_replicate]
  refine ⟨rfl, rfl, rfl, rfl, by decide, nofun, rfl, rfl, by decide +kernel, length, ?_⟩
  intro b member
  exact Params.buffer_inside (P := Lmax.sample.fixTcpClient) (List.mem_of_mem_tail member)

theorem resting_reached (n : Nat) (most : n ≤ 62) :
    ∃ s, Reaches (Step Lmax.sample.fixTcpClient) always
      (State.launched Lmax.sample.fixTcpClient 3 (Lmax.sample.bytes .logon [] 1)) s ∧
      Resting n s := by
  induction n with
  | zero => exact ⟨_, .start, resting_launched⟩
  | succ n ih =>
      rcases ih (by omega) with ⟨s, reaches, resting⟩
      rcases resting.next (by omega) with ⟨s', later, resting'⟩
      exact ⟨s', reaches.trans later, resting'⟩

/-- The server sends 63 heartbeats and reads nothing: the 62 answers and the logon wait in
`m_outgoing`, the last heartbeat has the last buffer, the consumer waits for one to answer
it, and `poll( )` for one to read into. -/
theorem not_deadlock_free :
    ¬ ∀ s : State Empty,
      Reaches (Step Lmax.sample.fixTcpClient) always
        (State.launched Lmax.sample.fixTcpClient 3 (Lmax.sample.bytes .logon [] 1)) s →
      0 < s.fd → ¬ Deadlocked Lmax.sample.fixTcpClient s := by
  intro free
  rcases resting_reached 62 le_rfl with ⟨s, reaches, resting⟩
  have count := resting.pool
  rcases pool : s.pool with _ | ⟨b, _ | ⟨c, rest⟩⟩
  · rw [pool, List.length_nil] at count
    omega
  · have inside := resting.inside b (by rw [pool]; exact List.mem_singleton_self b)
    have length := resting.length
    have read := reaches.trans (read_run .heartbeat resting.poll resting.open_ pool
      (by decide +kernel) (by omega) (by rw [resting.queue]; decide))
    have replying := read.trans (reply_run resting.consumer resting.open_
      (by rw [resting.queue]; rfl) (.inl rfl) resting.idle)
    have waiting := replying.step (.poll (.events true false resting.poll resting.open_))
    exact free _ waiting resting.open_ ⟨rfl, rfl⟩
  · rw [pool, List.length_cons, List.length_cons] at count
    omega

end Client

end OpenFix
