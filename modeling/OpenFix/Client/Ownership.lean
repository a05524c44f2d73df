import OpenFix.Client.Step
import OpenFix.Lib.Tally

/-!
# Who owns the buffers of the pool

`owned s` is the multiset of the buffers that some place of the client accounts for: the
pool, the outgoing messages on their way from `create_*` to the socket, the final entries of
`in_queue` and of the consumer, and the threads that will post or release a buffer.

* `Step.ledger`: one step leaves `owned` as it is, but for what `lost` names: the buffer of a
  message whose `send` failed, and a buffer whose last message ends behind the read.
* `owned_le`: hence in every run no buffer is in two places.
-/

namespace OpenFix

namespace Client

open Transition (Reaches always)
open Tally (tally tally_update)

/-! ## The places -/

/-- The buffers that entries hand over: those of the final ones. -/
def finalPtrs (entries : List FixMsg) : List Nat := (entries.filter (·.isFinal)).map (·.ptr)

/-- The handler, on a read that ends at `stop`, has pushed no final entry so far. -/
def keeps (stop : Nat) : HandlerPc → Bool
  | .call => true
  | .loop msg => msg.end_ ≠ some stop
  | .returned ret => ret
  | .faulted _ => true

/-- The handler is about to leave the loop behind a message that ends behind the read. -/
def overshoots (stop : Nat) : HandlerPc → Bool
  | .loop msg => match msg.end_ with
    | none => false
    | some end_ => stop < end_
  | _ => false

/-- The outgoing message of `poll( )`. -/
def PollPc.sending : PollPc → List TcpMsg
  | .send msg => [msg]
  | _ => []

/-- The buffer that `poll( )` has, and has not handed over. -/
def PollPc.held : PollPc → List Nat
  | .read b _ => [b]
  | .handle b len _ _ pc => if keeps (b + len) pc then [b] else []
  | .release b _ => [b]
  | _ => []

/-- The entry `consume_in` works on. -/
def ConsumerPc.entry : ConsumerPc → List FixMsg
  | .dispatch msg => [msg]
  | .reply msg => [msg]
  | .once msg => [msg]
  | .subscribe msg => [msg]
  | .final msg => [msg]
  | _ => []

/-- The created message of a `post_*`. -/
def PostPc.pushing : PostPc → Multiset TcpMsg
  | .push msg => {msg}
  | _ => 0

/-- The buffer in which a `post_*` creates its message. -/
def PostPc.held : PostPc → Multiset Nat
  | .create _ b => {b}
  | _ => 0

variable {ι : Type} [Fintype ι]

/-- The outgoing messages, from their creation to the result of `send`. -/
def live (s : State ι) : Multiset TcpMsg :=
  (s.outgoing : Multiset TcpMsg) + s.poll.sending + tally PostPc.pushing s.posting

/-- The buffers that hold no outgoing message. -/
def spare (s : State ι) : Multiset Nat :=
  (s.pool : Multiset Nat) + finalPtrs s.inQueue + s.poll.held + finalPtrs s.consumer.entry +
    tally PostPc.held s.posting

def owned (s : State ι) : Multiset Nat := (live s).map (·.buf) + spare s

/-- The buffers that a step from `s` drops. -/
def lost (s : State ι) : Act ι → List Nat
  | .poll .sendFail => s.poll.sending.map (·.buf)
  | .poll .handle => match s.poll with
    | .handle b len _ _ pc => if overshoots (b + len) pc then [b] else []
    | _ => []
  | _ => []

theorem finalPtrs_nil : finalPtrs [] = [] := rfl

theorem finalPtrs_append (entries later : List FixMsg) :
    finalPtrs (entries ++ later) = finalPtrs entries ++ finalPtrs later := by
  unfold finalPtrs
  rw [List.filter_append, List.map_append]

theorem finalPtrs_cons (e : FixMsg) (later : List FixMsg) :
    finalPtrs (e :: later) = finalPtrs [e] ++ finalPtrs later :=
  finalPtrs_append [e] later

theorem finalPtrs_singleton (e : FixMsg) :
    finalPtrs [e] = if e.isFinal then [e.ptr] else [] := by
  unfold finalPtrs
  cases final : e.isFinal with
  | true => rw [List.filter_singleton, final]; rfl
  | false => rw [List.filter_singleton, final]; rfl

/-! ## The handler's account -/

/-- A parse hands the buffer over with a final entry, or keeps it. -/
theorem parse_ledger {mem : Mem} {b len : Nat} {msg : FixMessage} {pc : HandlerPc}
    {entry : Option FixMsg} (parsed : FixHandler.Parsed mem b len msg pc entry) :
    ((if keeps (b + len) pc then [b] else []) ++ finalPtrs entry.toList : List Nat) = [b] := by
  cases parsed with
  | fault fault => rfl
  | reject _ _ => rfl
  | @accept msg' end_ _ _ ends =>
      have keepsIff : keeps (b + len) (.loop msg') = !decide (end_ = b + len) := by
        simp only [keeps, ends, Option.some.injEq, decide_not]
      rw [keepsIff, Option.toList, finalPtrs_singleton, FixHandler.entryOf]
      cases decide (end_ = b + len) with
      | true => rfl
      | false => rfl

/-- The handler's account. A step hands the buffer over, keeps it, or drops it. -/
theorem handler_ledger {mem : Mem} {b len : Nat} {garbage : StackGarbage} {pc pc' : HandlerPc}
    {entry : Option FixMsg} (runs : running pc = true)
    (stepped : FixHandler.Stepped mem b len garbage pc pc' entry) :
    ((if keeps (b + len) pc' then [b] else []) ++ finalPtrs entry.toList ++
        if overshoots (b + len) pc then [b] else [] : List Nat) =
      if keeps (b + len) pc then [b] else [] := by
  have keepsIff {msg : FixMessage} {i : Nat} (ends : msg.end_ = some i) :
      keeps (b + len) (.loop msg) = !decide (i = b + len) := by
    simp only [keeps, ends, Option.some.injEq, decide_not]
  have overIff {msg : FixMessage} {i : Nat} (ends : msg.end_ = some i) :
      overshoots (b + len) (.loop msg) = decide (b + len < i) := by
    simp only [overshoots, ends]
  cases stepped with
  | call parsed =>
      rw [parse_ledger parsed]
      rfl
  | null ends =>
      simp only [keeps, overshoots, ends]
      rfl
  | next i ends before parsed =>
      rw [keepsIff ends, overIff ends, parse_ledger parsed, decide_eq_false (by omega),
        decide_eq_false (by omega)]
      rfl
  | leave i ends reached =>
      rw [keepsIff ends, overIff ends]
      rcases Nat.eq_or_lt_of_le reached with exact_ | beyond
      · rw [decide_eq_false (by omega), decide_eq_true exact_.symm]
        rfl
      · rw [decide_eq_true beyond, decide_eq_false (by omega)]
        rfl
  | returned ret => cases runs
  | faulted fault => cases runs

/-! ## The account of a step -/

variable {P : Params} {s s' : State ι}

theorem afterIn_places (out : Bool) :
    (PollPc.afterIn out).sending = [] ∧ (PollPc.afterIn out).held = [] := by
  cases out
  · exact ⟨rfl, rfl⟩
  · exact ⟨rfl, rfl⟩

theorem afterRelease_places (next : AfterRelease) :
    (PollPc.afterRelease next).sending = [] ∧ (PollPc.afterRelease next).held = [] := by
  cases next with
  | close => exact ⟨rfl, rfl⟩
  | out pollOut => exact afterIn_places pollOut

theorem PollStep.ledger {act : PollAct} (stepped : PollStep P s act s') :
    owned s' + lost s (.poll act) = owned s := by
  unfold owned live spare lost
  cases stepped with
  | error at_ _ =>
      rw [at_]
      exact add_zero _
  | events pollIn pollOut at_ _ =>
      have places : (if pollIn then PollPc.getBuf pollOut else .afterIn pollOut).sending = [] ∧
          (if pollIn then PollPc.getBuf pollOut else .afterIn pollOut).held = [] := by
        cases pollIn
        · exact afterIn_places pollOut
        · exact ⟨rfl, rfl⟩
      rw [at_, places.1, places.2]
      exact add_zero _
  | leave at_ _ =>
      rw [at_]
      exact add_zero _
  | @takeBuf out b rest at_ pool =>
      rw [at_, pool]
      simp only [PollPc.sending, PollPc.held, ← Multiset.cons_coe, ← Multiset.singleton_add,
        Multiset.coe_nil]
      abel
  | recv data garbage at_ some_ fits =>
      rw [at_]
      exact add_zero _
  | recvFail at_ =>
      rw [at_]
      exact add_zero _
  | @handle b len out garbage pc pc' entry at_ runs handler room =>
      have account := congrArg Multiset.ofList
        (handler_ledger runs (FixHandler.stepped_of_step handler))
      rw [at_]
      simp only [PollPc.sending, PollPc.held, finalPtrs_append, ← Multiset.coe_add] at account ⊢
      rw [← account]
      abel
  | @handled b len out ret garbage at_ =>
      rw [at_]
      cases ret with
      | false =>
          rw [if_neg Bool.false_ne_true, (afterIn_places out).1, (afterIn_places out).2]
          exact add_zero _
      | true => exact add_zero _
  | @release b next at_ room =>
      rw [at_, (afterRelease_places next).1, (afterRelease_places next).2]
      simp only [PollPc.sending, PollPc.held, ← Multiset.coe_add, Multiset.coe_nil]
      abel
  | popEmpty at_ empty =>
      rw [at_]
      exact add_zero _
  | @popOut msg rest at_ out =>
      rw [at_, out]
      simp only [PollPc.sending, PollPc.held, ← Multiset.cons_coe, ← Multiset.singleton_add,
        Multiset.map_add, Multiset.coe_nil]
      abel
  | send ret at_ some_ fits =>
      rw [at_]
      simp only [PollPc.sending, PollPc.held, Multiset.map_add, Multiset.coe_nil,
        Multiset.coe_singleton, Multiset.map_singleton, Multiset.map_zero]
      abel
  | sendFail at_ =>
      rw [at_]
      simp only [PollPc.sending, PollPc.held, Multiset.map_add, Multiset.coe_nil,
        Multiset.coe_singleton, Multiset.map_singleton, Multiset.map_zero]
      abel
  | close at_ =>
      rw [at_]
      exact add_zero _

/-- No thread posts at first. -/
theorem tally_connected {M : Type} [AddCommMonoid M] {f : PostPc → M} (none_ : f .idle = 0)
    (P : Params) (fd : Int) : tally f (State.connected P ι fd).posting = 0 :=
  Finset.sum_eq_zero fun _ _ => none_

theorem owned_connected (P : Params) (fd : Int) :
    owned (State.connected P ι fd) = P.buffers := by
  unfold owned live spare
  rw [tally_connected (f := PostPc.pushing) rfl, tally_connected (f := PostPc.held) rfl]
  simp only [State.connected, PollPc.sending, PollPc.held, ConsumerPc.entry, finalPtrs_nil,
    Multiset.coe_nil, Multiset.map_zero, add_zero, zero_add]

/-- What a thread inside a `post_*` owns. -/
def PostPc.owns (pc : PostPc) : Multiset Nat := pc.pushing.map (·.buf) + pc.held

theorem owns_idle : PostPc.idle.owns = 0 := rfl

theorem owns_getBuf (kind : PostKind) : (PostPc.getBuf kind).owns = 0 := rfl

theorem owns_create (kind : PostKind) (b : Nat) : (PostPc.create kind b).owns = {b} := rfl

theorem owns_push (msg : TcpMsg) : (PostPc.push msg).owns = {msg.buf} := rfl

variable [DecidableEq ι]

/-- A move inside a `post_*` changes the account by what the thread owns. -/
theorem owned_setPosting (s : State ι) (t : Option ι) (pc : PostPc) :
    owned (s.setPosting t pc) + (s.posting t).owns = owned s + pc.owns := by
  have pushing := congrArg (Multiset.map TcpMsg.buf) (tally_update PostPc.pushing s.posting t pc)
  have held := tally_update PostPc.held s.posting t pc
  rw [Multiset.map_add, Multiset.map_add] at pushing
  unfold owned live spare State.setPosting PostPc.owns
  simp only [Multiset.map_add]
  calc _ = ((s.outgoing : Multiset TcpMsg).map TcpMsg.buf +
          (s.poll.sending : Multiset TcpMsg).map TcpMsg.buf +
          ((tally PostPc.pushing (Function.update s.posting t pc)).map TcpMsg.buf +
            (s.posting t).pushing.map TcpMsg.buf)) +
        (s.pool + finalPtrs s.inQueue + s.poll.held + finalPtrs s.consumer.entry +
          (tally PostPc.held (Function.update s.posting t pc) + (s.posting t).held)) := by
        abel
    _ = _ := by
        rw [pushing, held]
        abel

theorem ConsumerStep.ledger {act : ConsumerAct} (stepped : ConsumerStep P s act s') :
    owned s' = owned s := by
  have calls (s : State ι) (kind : PostKind) (idle : s.posting none = .idle) :
      owned (s.setPosting none (.getBuf kind)) = owned s := by
    have account := owned_setPosting s none (.getBuf kind)
    rwa [idle, owns_idle, owns_getBuf, add_zero, add_zero] at account
  cases stepped with
  | loop at_ _ => unfold owned live spare; rw [at_]; rfl
  | leave at_ _ => unfold owned live spare; rw [at_]; rfl
  | popEmpty at_ _ => unfold owned live spare; rw [at_]; rfl
  | @pop msg rest at_ queue =>
      unfold owned live spare
      rw [at_, queue, finalPtrs_cons msg rest]
      simp only [ConsumerPc.entry, ← Multiset.coe_add, finalPtrs_nil,
        Multiset.coe_nil]
      abel
  | @reply msg at_ type idle =>
      rw [calls { s with consumer := .reply msg } _ idle]
      unfold owned live spare
      rw [at_]
      rfl
  | logIn at_ _ => unfold owned live spare; rw [at_]; rfl
  | pass at_ _ _ _ => unfold owned live spare; rw [at_]; rfl
  | replied at_ _ => unfold owned live spare; rw [at_]; rfl
  | onceDone at_ _ => unfold owned live spare; rw [at_]; rfl
  | @subscribe msg at_ once session idle =>
      rw [calls { s with once := true, consumer := .subscribe msg } _ idle]
      unfold owned live spare
      rw [at_]
      rfl
  | onceEarly at_ _ _ => unfold owned live spare; rw [at_]; rfl
  | subscribed at_ _ => unfold owned live spare; rw [at_]; rfl
  | @final msg at_ room =>
      unfold owned live spare
      rw [at_]
      simp only [ConsumerPc.entry, finalPtrs_singleton, ← Multiset.coe_add,
        finalPtrs_nil, Multiset.coe_nil]
      abel

theorem PostStep.ledger {t : Option ι} {act : PostAct} (stepped : PostStep P s t act s') :
    owned s' = owned s := by
  cases stepped with
  | start i kind idle =>
      have account := owned_setPosting s (some i) (.getBuf kind)
      rwa [idle, owns_idle, owns_getBuf, add_zero, add_zero] at account
  | @takeBuf _ kind b rest at_ pool =>
      have account := owned_setPosting { s with pool := rest } t (.create kind b)
      rw [at_, owns_getBuf, owns_create, add_zero] at account
      have taken : owned { s with pool := rest } + {b} = owned s := by
        unfold owned live spare
        rw [pool]
        simp only [← Multiset.cons_coe, ← Multiset.singleton_add]
        abel
      rw [← taken]
      exact account
  | @create _ kind b bytes at_ creates fits =>
      have account := owned_setPosting
        { s with mem := Bytes.overwrite s.mem b bytes, seq := wrap32 (s.seq + 1) } t
        (.push ⟨b, bytes.length, kind, s.seq, bytes⟩)
      rw [at_, owns_create, owns_push] at account
      exact add_right_cancel account
  | @push _ msg at_ room =>
      have account := owned_setPosting
        { s with outgoing := s.outgoing ++ [msg], posted := s.posted ++ [msg] } t .idle
      rw [at_, owns_push, owns_idle, add_zero] at account
      have pushed : owned { s with outgoing := s.outgoing ++ [msg], posted := s.posted ++ [msg] } =
          owned s + {msg.buf} := by
        unfold owned live spare
        simp only [← Multiset.coe_add, Multiset.map_add, Multiset.coe_singleton,
          Multiset.map_singleton]
        abel
      rw [pushed] at account
      exact add_right_cancel account

/-- The account of a step. -/
theorem Step.ledger {act : Act ι} (stepped : Step P s act s') :
    owned s' + lost s act = owned s := by
  cases stepped with
  | poll stepped => exact stepped.ledger
  | consumer stepped => exact (add_zero _).trans stepped.ledger
  | post stepped => exact (add_zero _).trans stepped.ledger

/-! ## Runs -/

variable {cond : State ι → Act ι → Prop} {s₀ : State ι} {fd : Int}

theorem Step.owned_le {act : Act ι} (stepped : Step P s act s') : owned s' ≤ owned s :=
  (Multiset.le_add_right _ _).trans stepped.ledger.le

/-- No buffer is duplicated. In every run the places own at most the buffers of the
pool, each at most once. -/
theorem owned_le_of_reaches (start : owned s₀ ≤ P.buffers) (reaches : Reaches (Step P) cond s₀ s) :
    owned s ≤ P.buffers := by
  apply reaches.invariant (I := fun s => owned s ≤ P.buffers) start
  intro s act s' _ below _ stepped
  exact stepped.owned_le.trans below

theorem owned_le (reaches : Reaches (Step P) cond (State.connected P ι fd) s) :
    owned s ≤ P.buffers :=
  owned_le_of_reaches (owned_connected P fd).le reaches

omit [DecidableEq ι] in
/-- The buffer of `poll( )` is not the one in which a thread creates its message. -/
theorem held_apart (below : owned s ≤ P.buffers) {b c : Nat} {t : Option ι}
    (polled : b ∈ s.poll.held) (created : c ∈ (s.posting t).held) :
    b ∈ P.buffers ∧ c ∈ P.buffers ∧ b ≠ c := by
  have writes : c ∈ tally PostPc.held s.posting := Tally.mem_tally.mpr ⟨t, created⟩
  have owns : b ∈ (s.pool : Multiset Nat) + finalPtrs s.inQueue + s.poll.held +
      finalPtrs s.consumer.entry := by
    simp only [Multiset.mem_add, Multiset.mem_coe, polled, true_or, or_true]
  have nodup : (owned s).Nodup :=
    Multiset.nodup_of_le below (Multiset.coe_nodup.mpr P.buffers_nodup)
  refine ⟨?_, ?_, ?_⟩
  · exact Multiset.mem_of_le below (Multiset.mem_add.mpr (.inr (Multiset.mem_add.mpr (.inl owns))))
  · exact Multiset.mem_of_le below
      (Multiset.mem_add.mpr (.inr (Multiset.mem_add.mpr (.inr writes))))
  · rintro rfl
    have apart := (Multiset.nodup_add.mp (Multiset.nodup_add.mp nodup).2.1).2.2
    exact Multiset.disjoint_left.mp apart owns writes

end Client

end OpenFix
