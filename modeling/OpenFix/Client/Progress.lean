import OpenFix.Client.Sequence
import OpenFix.Client.Deadlock

/-!
# Where the threads of `lmax_cli` stop

A thread moves again unless it waits, is done, or has left defined behaviour: the parser of
`poll( )` has, or the message of the consumer goes on behind the allocation.

* `poll_moves_iff`, `consumer_moves_iff`: each thread by itself, on the accounts that every
  reached state keeps.
* `moves_of_launched`: both, in every state of the program.
* `waits_of_short`: the consumer by itself, with fewer buffers than it needs; behind a step that
  is not supplied that ends in a deadlock.
-/

namespace OpenFix

namespace Client

open Transition (Reaches always)

variable {ι : Type} {P : Params} {s s' : State ι}

/-! ## The `poll( )` thread -/

/-- The parser has left defined behaviour. -/
def State.pollFaulted (s : State ι) : Prop :=
  ∃ b len out garbage fault, s.poll = .handle b len out garbage (.faulted fault)

/-- `poll( )` does not move again by itself. -/
def State.pollStops (P : Params) (s : State ι) : Prop :=
  s.pollWaits P ∨ s.poll = .done ∨ s.pollFaulted

theorem PollStep.not_pollStops {act : PollAct} (stepped : PollStep P s act s') :
    ¬ s.pollStops P := by
  rintro (waits | done | ⟨b, len, out, garbage, fault, faulted⟩)
  · exact stepped.not_pollWaits waits
  · cases stepped with
    | events pollIn pollOut at_ _ => cases at_.symm.trans done
    | recv data garbage at_ _ _ => cases at_.symm.trans done
    | send ret at_ _ _ => cases at_.symm.trans done
    | _ at_ => cases at_.symm.trans done
  · cases stepped with
    | events pollIn pollOut at_ _ => cases at_.symm.trans faulted
    | recv data garbage at_ _ _ => cases at_.symm.trans faulted
    | send ret at_ _ _ => cases at_.symm.trans faulted
    | handle at_ runs _ _ =>
        cases at_.symm.trans faulted
        cases runs
    | _ at_ => cases at_.symm.trans faulted

/-- The pool has room for a buffer that a place has. -/
theorem room_of_owned [Fintype ι] (below : owned s ≤ P.buffers) {b : Nat} (outside : Multiset Nat)
    (held : (s.pool : Multiset Nat) + {b} + outside = owned s) :
    s.pool.length < P.bufpoolSize := by
  have count := Multiset.card_le_card below
  rw [← held, Multiset.coe_card, P.buffers_length, Multiset.card_add, Multiset.card_add,
    Multiset.coe_card, Multiset.card_singleton] at count
  omega

theorem poll_moves_iff [Fintype ι] (below : owned s ≤ P.buffers) :
    (∃ act s', PollStep P s act s') ↔ ¬ s.pollStops P := by
  refine ⟨?_, fun stops => ?_⟩
  · rintro ⟨act, s', stepped⟩
    exact stepped.not_pollStops
  · cases at_ : s.poll with
    | top =>
        by_cases open_ : 0 < s.fd
        · exact ⟨_, _, .error at_ open_⟩
        · exact ⟨_, _, .leave at_ open_⟩
    | getBuf out =>
        cases pool : s.pool with
        | nil =>
            refine absurd (.inl ?_) stops
            unfold State.pollWaits
            rw [at_]
            exact pool
        | cons b rest => exact ⟨_, _, .takeBuf at_ pool⟩
    | read b out => exact ⟨_, _, .recvFail at_⟩
    | handle b len out garbage pc =>
        rcases stepped : FixHandler.step s.mem b len garbage pc with ⟨pc', entry⟩
        by_cases runs : running pc = true
        · by_cases full : entry ≠ none ∧ P.inSize ≤ s.inQueue.length
          · refine absurd (.inl ?_) stops
            unfold State.pollWaits pushes
            rw [at_]
            dsimp only
            rw [stepped]
            exact full
          · refine ⟨_, _, .handle at_ runs stepped fun some_ => ?_⟩
            by_contra none_
            exact full ⟨some_, Nat.not_lt.mp none_⟩
        · cases pc with
          | call => exact absurd rfl runs
          | loop msg => exact absurd rfl runs
          | returned ret => exact ⟨_, _, .handled at_⟩
          | faulted fault => exact absurd (.inr (.inr ⟨b, len, out, garbage, fault, at_⟩)) stops
    | release b next =>
        refine ⟨_, _, .release at_ (room_of_owned below (b := b) ((live s).map (·.buf) +
          finalPtrs s.inQueue + finalPtrs s.consumer.entry +
          Tally.tally PostPc.held s.posting) ?_)⟩
        unfold owned spare
        rw [at_]
        simp only [PollPc.held, Multiset.coe_singleton]
        abel
    | popOut =>
        cases outgoing : s.outgoing with
        | nil => exact ⟨_, _, .popEmpty at_ outgoing⟩
        | cons msg rest => exact ⟨_, _, .popOut at_ outgoing⟩
    | send msg => exact ⟨_, _, .sendFail at_⟩
    | closing => exact ⟨_, _, .close at_⟩
    | done => exact absurd (.inr (.inl at_)) stops

/-! ## The consumer -/

/-- The consumer is in a `create_*` whose message goes on behind the allocation. -/
def State.overflows (P : Params) (s : State ι) : Prop :=
  ∃ kind b, s.posting none = .create kind b ∧
    ∀ bytes, P.broker.creates kind s.seq bytes → P.bufSize * P.bufpoolSize < b + bytes.length

/-- The consumer does not move again by itself. -/
def State.consumerStops (P : Params) (s : State ι) : Prop :=
  s.consumerWaits P ∨ s.consumer = .done ∨ s.overflows P

variable [DecidableEq ι]

/-- The consumer moves, in a `post_*` or outside. -/
def ConsumerMoves (P : Params) (s : State ι) : Prop :=
  (∃ act s', ConsumerStep P s act s') ∨ ∃ act s', PostStep P s none act s'

theorem PostStep.not_consumerStops {act : PostAct} (calls : Calls s)
    (stepped : PostStep P s none act s') : ¬ s.consumerStops P := by
  rintro (waits | done | ⟨kind, b, at_, long⟩)
  · exact stepped.not_consumerWaits waits
  · have inside : s.posting none ≠ .idle := by
      intro idle
      cases stepped with
      | _ at_ => cases at_.symm.trans idle
    have stands := calls inside
    rw [done] at stands
    cases stands
  · cases stepped with
    | create at_' creates fits =>
        cases at_'.symm.trans at_
        exact absurd fits (Nat.not_le.mpr (long _ creates))
    | _ at_' => cases at_'.symm.trans at_

theorem ConsumerStep.not_consumerStops {act : ConsumerAct} (calls : Calls s)
    (stepped : ConsumerStep P s act s') : ¬ s.consumerStops P := by
  have idle := stepped.idle calls
  rintro (waits | done | ⟨kind, b, at_, -⟩)
  · unfold State.consumerWaits at waits
    rw [idle] at waits
    exact waits
  · cases stepped with
    | _ at_ => cases at_.symm.trans done
  · cases idle.symm.trans at_

theorem consumer_moves_iff [Fintype ι] (below : owned s ≤ P.buffers) (calls : Calls s) :
    ConsumerMoves P s ↔ ¬ s.consumerStops P := by
  refine ⟨?_, fun stops => ?_⟩
  · rintro (⟨act, s', stepped⟩ | ⟨act, s', stepped⟩)
    · exact stepped.not_consumerStops calls
    · exact stepped.not_consumerStops calls
  · cases posting : s.posting none with
    | getBuf kind =>
        refine .inr ?_
        cases pool : s.pool with
        | nil => exact absurd (.inl ((consumerWaits_getBuf kind posting).mpr pool)) stops
        | cons b rest => exact ⟨_, _, .takeBuf posting pool⟩
    | create kind b =>
        by_cases inside : ∃ bytes, P.broker.creates kind s.seq bytes ∧
            b + bytes.length ≤ P.bufSize * P.bufpoolSize
        · rcases inside with ⟨bytes, creates, inside⟩
          exact .inr ⟨_, _, .create posting creates inside⟩
        · refine absurd (.inr (.inr ⟨kind, b, posting, fun bytes creates => ?_⟩)) stops
          exact Nat.not_le.mp fun short => inside ⟨bytes, creates, short⟩
    | push msg =>
        by_cases room : s.outgoing.length < P.outSize
        · exact .inr ⟨_, _, .push posting room⟩
        · refine absurd (.inl ?_) stops
          unfold State.consumerWaits
          rw [posting]
          exact Nat.not_lt.mp room
    | idle =>
        refine .inl ?_
        cases at_ : s.consumer with
        | top =>
            by_cases open_ : 0 < s.fd
            · exact ⟨_, _, .loop at_ open_⟩
            · exact ⟨_, _, .leave at_ open_⟩
        | tryPop =>
            cases queue : s.inQueue with
            | nil => exact ⟨_, _, .popEmpty at_ queue⟩
            | cons msg rest => exact ⟨_, _, .pop at_ queue⟩
        | dispatch msg =>
            by_cases replies : msg.type = 48 ∨ msg.type = 49
            · exact ⟨_, _, .reply at_ replies posting⟩
            · by_cases logon : msg.type = 65
              · exact ⟨_, _, .logIn at_ logon⟩
              · exact ⟨_, _, .pass at_ (fun same => replies (.inl same))
                  (fun same => replies (.inr same)) logon⟩
        | reply msg => exact ⟨_, _, .replied at_ posting⟩
        | once msg =>
            cases once : s.once with
            | true => exact ⟨_, _, .onceDone at_ once⟩
            | false =>
                by_cases session : s.session = .LoggedIn
                · exact ⟨_, _, .subscribe at_ once session posting⟩
                · exact ⟨_, _, .onceEarly at_ once session⟩
        | subscribe msg => exact ⟨_, _, .subscribed at_ posting⟩
        | final msg =>
            refine ⟨_, _, .final at_ fun final => room_of_owned below (b := msg.ptr)
              ((live s).map (·.buf) + finalPtrs s.inQueue + s.poll.held +
                Tally.tally PostPc.held s.posting) ?_⟩
            unfold owned spare
            rw [at_]
            simp only [ConsumerPc.entry, finalPtrs_singleton, final, if_true,
              Multiset.coe_singleton]
            abel
        | done => exact absurd (.inr (.inl at_)) stops

/-! ## Too few buffers -/

def PostPc.rank : PostPc → Nat
  | .idle => 0
  | .push _ => 1
  | .create _ _ => 2
  | .getBuf _ => 3

def ConsumerPc.rank : ConsumerPc → Nat
  | .done => 0
  | .tryPop => 0
  | .top => 1
  | .final _ => 2
  | .subscribe _ => 3
  | .once _ => 7
  | .reply _ => 8
  | .dispatch _ => 12

/-- At most so many steps of the consumer until it has handled the entries. -/
def State.remaining (s : State ι) : Nat :=
  13 * s.inQueue.length + (s.consumer.rank + (s.posting none).rank)

theorem ConsumerStep.remaining {act : ConsumerAct} (calls : Calls s)
    (some_ : act = .popEmpty → s.inQueue ≠ []) (stepped : ConsumerStep P s act s') :
    s'.remaining < s.remaining := by
  have idle := stepped.idle calls
  unfold State.remaining
  cases stepped with
  | popEmpty at_ queue => exact absurd queue (some_ rfl)
  | pop at_ queue =>
      rw [at_, queue, idle, List.length_cons]
      simp only [ConsumerPc.rank, PostPc.rank]
      omega
  | reply at_ _ _ =>
      rw [at_, idle, State.setPosting_posting]
      simp only [ConsumerPc.rank, PostPc.rank, State.setPosting]
      omega
  | subscribe at_ _ _ _ =>
      rw [at_, idle, State.setPosting_posting]
      simp only [ConsumerPc.rank, PostPc.rank, State.setPosting]
      omega
  | _ at_ =>
      rw [at_, idle]
      simp only [ConsumerPc.rank, PostPc.rank]
      omega

theorem PostStep.remaining {act : PostAct} (stepped : PostStep P s none act s') :
    s'.remaining < s.remaining := by
  unfold State.remaining
  cases stepped with
  | _ at_ =>
      rw [at_, State.setPosting_posting]
      simp only [PostPc.rank, State.setPosting]
      omega

omit [DecidableEq ι] in
theorem suffices_of_nothing {free : Nat} (current : s.current = []) (later : s.later = []) :
    Suffices free s.needs := by
  unfold State.needs
  rw [current, later]
  split
  · trivial
  · trivial

omit [DecidableEq ι] in
/-- The consumer stays short where `poll( )` may wait: a pop would end that, and there is none while
it lacks a buffer for its entry. -/
theorem Serves.short (serves : Serves s s') (may : s.mayWait P)
    (short : ¬ Suffices s.pool.length s.needs) :
    s'.mayWait P ∧ ¬ Suffices s'.pool.length s'.needs := by
  unfold State.needs at short ⊢
  unfold State.mayWait at may ⊢
  rw [serves.poll]
  cases at_ : s.poll with
  | getBuf out =>
      rw [at_] at short
      exact ⟨trivial, fun enough => short (serves.all.mp enough)⟩
  | handle b len out garbage pc =>
      rw [at_] at short may
      cases serves with
      | work _ queue _ current =>
          refine ⟨queue ▸ may, fun enough => short ?_⟩
          have same := current []
          rw [List.append_nil, List.append_nil] at same
          exact same.mp enough
      | pop _ _ _ none_ _ =>
          rw [none_] at short
          exact (short trivial).elim
  | _ =>
      rw [at_] at may
      exact may.elim

/-- With too few buffers for what it has before it, the consumer alone comes to wait, unless its
message goes on behind the allocation. -/
theorem waits_of_short {s : State Empty} (below : owned s ≤ P.buffers) (calls : Calls s)
    (open_ : ∀ out, s.poll = .getBuf out → 0 < s.fd) (may : s.mayWait P)
    (short : ¬ Suffices s.pool.length s.needs) :
    ∃ s', Reaches (Step P) always s s' ∧ s'.mayWait P ∧
      (s'.consumerWaits P ∨ s'.overflows P) := by
  induction steps : s.remaining using Nat.strong_induction_on generalizing s with
  | _ steps_ ih =>
    subst steps
    -- a step that keeps what is said of the state
    have onward {act : Act Empty} {s₁ : State Empty} (stepped : Step P s act s₁)
        (fd : s₁.fd = s.fd) (serves : Serves s s₁) (less : s₁.remaining < s.remaining) :
        ∃ s', Reaches (Step P) always s s' ∧ s'.mayWait P ∧
          (s'.consumerWaits P ∨ s'.overflows P) := by
      have kept := serves.short may short
      have open₁ : ∀ out, s₁.poll = .getBuf out → 0 < s₁.fd := by
        rw [fd, serves.poll]
        exact open_
      obtain ⟨s', reaches, ends⟩ := ih s₁.remaining less (stepped.owned_le.trans below)
        (stepped.calls calls) open₁ kept.1 kept.2 rfl
      exact ⟨s', (Reaches.start.step stepped).trans reaches, ends⟩
    by_cases stops : s.consumerStops P
    · rcases stops with waits | done | overflows
      · exact ⟨s, .start, may, .inl waits⟩
      · exact (short (suffices_of_nothing (by rw [State.current, done])
          (by rw [State.later, done]))).elim
      · exact ⟨s, .start, may, .inr overflows⟩
    · rcases (consumer_moves_iff below calls).mpr stops with ⟨act, s₁, stepped⟩ | ⟨act, s₁, stepped⟩
      · have fd : s₁.fd = s.fd := by cases stepped with | _ => rfl
        have stays : act ≠ .leave := by
          rintro rfl
          cases stepped with
          | leave at_ closed =>
              have none_ : s.current = [] := by rw [State.current, at_]
              refine short ?_
              unfold State.needs
              split
              case h_1 out polled => exact absurd (open_ out polled) closed
              case h_2 =>
                rw [none_]
                trivial
        have some_ : act = .popEmpty → s.inQueue ≠ [] := by
          rintro rfl queue
          cases stepped with
          | popEmpty at_ _ =>
              exact short (suffices_of_nothing (by rw [State.current, at_])
                (by simp only [State.later, at_, queue, pending]))
        exact onward (.consumer stepped) fd (stepped.serves stays) (stepped.remaining calls some_)
      · have fd : s₁.fd = s.fd := by cases stepped with | _ => rfl
        exact onward (.post stepped) fd (stepped.serves calls) stepped.remaining

/-! ## The program -/

/-- In every state of the program, `poll( )` moves unless it waits in `get_buf` or for room in
`in_queue`, is done, or has left defined behaviour in the parser; the consumer moves unless it
waits in `get_buf` or for room in `m_outgoing`, is done, or its message goes on behind the
allocation; and nothing moves exactly when both have stopped. No `release_buf` waits. -/
theorem moves_of_launched (lmax : Lmax) (fd : Int) (bytes : List UInt8) (s : State Empty)
    (reaches : Reaches (Step lmax.fixTcpClient) always
      (State.launched lmax.fixTcpClient fd bytes) s) :
    ((∃ act s', PollStep lmax.fixTcpClient s act s') ↔ ¬ s.pollStops lmax.fixTcpClient) ∧
      (ConsumerMoves lmax.fixTcpClient s ↔ ¬ s.consumerStops lmax.fixTcpClient) ∧
      ((∀ act s', ¬ Step lmax.fixTcpClient s act s') ↔
        s.pollStops lmax.fixTcpClient ∧ s.consumerStops lmax.fixTcpClient) := by
  have calls : Calls s := by
    refine reaches.invariant (I := Calls) (fun busy => (busy rfl).elim) ?_
    intro s act s' _ calls _ stepped
    exact stepped.calls calls
  have poll := poll_moves_iff (owned_launched reaches)
  have consumer := consumer_moves_iff (owned_launched reaches) calls
  refine ⟨poll, consumer, ?_⟩
  constructor
  · intro stuck
    refine ⟨not_not.mp fun moves => ?_, not_not.mp fun moves => ?_⟩
    · rcases poll.mpr moves with ⟨act, s', stepped⟩
      exact stuck _ _ (.poll stepped)
    · rcases consumer.mpr moves with ⟨act, s', stepped⟩ | ⟨act, s', stepped⟩
      · exact stuck _ _ (.consumer stepped)
      · exact stuck _ _ (.post stepped)
  · rintro ⟨pollStops, consumerStops⟩ act s' stepped
    cases stepped with
    | poll stepped => exact poll.mp ⟨_, _, stepped⟩ pollStops
    | consumer stepped => exact consumer.mp (.inl ⟨_, _, stepped⟩) consumerStops
    | @post _ t act stepped =>
        rcases t with _ | i
        · exact consumer.mp (.inr ⟨_, _, stepped⟩) consumerStops
        · exact i.elim

/-- Behind a hang-up `poll( )` closes, and the consumer goes on. -/
theorem moves_of_launched_hangup : ∃ s : State Empty, s.poll = .closing ∧
    ((∃ act s', PollStep Lmax.sample.fixTcpClient s act s') ↔
      ¬ s.pollStops Lmax.sample.fixTcpClient) ∧
    (ConsumerMoves Lmax.sample.fixTcpClient s ↔ ¬ s.consumerStops Lmax.sample.fixTcpClient) ∧
    ((∀ act s', ¬ Step Lmax.sample.fixTcpClient s act s') ↔
      s.pollStops Lmax.sample.fixTcpClient ∧ s.consumerStops Lmax.sample.fixTcpClient) :=
  ⟨_, rfl, moves_of_launched Lmax.sample 3 (Lmax.sample.bytes .logon [] 1) _
    (Reaches.start.step (.poll (.error rfl (by decide))))⟩

/-- Behind a step that is not supplied `poll( )` may wait, and the consumer is short. -/
theorem short_of_not_supplied {s s₁ : State Empty} {act : Act Empty} (stepped : Step P s act s₁)
    (short : ¬ Supplied P s act) :
    s₁.mayWait P ∧ ¬ Suffices s₁.pool.length s₁.needs ∧
      ∀ out, s₁.poll = .getBuf out → 0 < s₁.fd := by
  cases stepped with
  | poll stepped =>
      cases stepped with
      | events pollIn pollOut at_ open_ =>
          cases pollIn with
          | false => exact (short nofun).elim
          | true => exact ⟨trivial, fun enough => short fun _ => enough, fun _ _ => open_⟩
      | recv data garbage at_ _ _ =>
          by_cases full : P.inSize ≤ s.inQueue.length
          · exact ⟨⟨rfl, full⟩, fun enough => short fun _ => enough, nofun⟩
          · exact (short fun full' => absurd full' full).elim
      | @handle b len out garbage pc pc' entry at_ _ handler _ =>
          by_contra none_
          refine short fun b len out garbage pc pc' entry at' handler' goes full => ?_
          cases at_.symm.trans at'
          cases handler.symm.trans handler'
          by_contra few
          exact none_ ⟨⟨goes, full⟩, few, nofun⟩
      | _ => exact (short trivial).elim
  | consumer _ => exact (short trivial).elim
  | post _ => exact (short trivial).elim

/-- Where a step is not supplied, a deadlock can be reached: the consumer goes on by itself until it
waits. Its message may go on behind the allocation before that, and the parse that `poll( )` has
before it may push nothing. -/
theorem deadlocked_of_not_supplied (lmax : Lmax) (fd : Int) (bytes : List UInt8)
    {cond : State Empty → Act Empty → Prop} {s s₁ : State Empty} {act : Act Empty}
    (reaches : Reaches (Step lmax.fixTcpClient) cond (State.launched lmax.fixTcpClient fd bytes) s)
    (stepped : Step lmax.fixTcpClient s act s₁) (short : ¬ Supplied lmax.fixTcpClient s act) :
    ∃ s₂, Reaches (Step lmax.fixTcpClient) always s₁ s₂ ∧
      (Deadlocked lmax.fixTcpClient s₂ ∨ s₂.overflows lmax.fixTcpClient ∨
        ∃ b len out garbage pc, s₂.poll = .handle b len out garbage pc ∧
          ¬ pushes s₂.mem b len garbage pc) := by
  have next := reaches.mono (fun _ _ _ => trivial) |>.step stepped
  obtain ⟨may, few, open_⟩ := short_of_not_supplied stepped short
  obtain ⟨s₂, rest, may', waits | overflows⟩ := waits_of_short (owned_launched next)
    (calls_of_reaches next) open_ may few
  · refine ⟨s₂, rest, ?_⟩
    have empty := (waits.getBuf (owned_launched (next.trans rest)) le_rfl).2
    unfold State.mayWait at may'
    split at may'
    case h_1 out polled =>
      refine .inl ⟨?_, waits⟩
      rw [State.pollWaits, polled]
      exact empty
    case h_2 b len out garbage pc polled =>
      by_cases entry : pushes s₂.mem b len garbage pc
      · refine .inl ⟨?_, waits⟩
        rw [State.pollWaits, polled]
        exact ⟨entry, may'.2⟩
      · exact .inr (.inr ⟨b, len, out, garbage, pc, polled, entry⟩)
    case h_3 => exact may'.elim
  · exact ⟨s₂, rest, .inr (.inl overflows)⟩

end Client

end OpenFix
