import OpenFix.Client.Ownership
import OpenFix.Client.Runs
import OpenFix.Lmax

/-!
# The output stream

The bytes the socket accepted against the messages posted, in post order.

* `Output`: the four things a step can do to the messages and the accepted bytes.
* `Stored`: from its creation to the result of `send` a message stays in its buffer as it
  was created, because no buffer is in two places.
* `InOrder.step`, `Whole.step`: what a step without a `send` behind a short one keeps, and
  what a step without a short one keeps.
* `wire_law`: the law for every run of such steps. A `send` behind a short one skips the rest
  of that message.
-/

namespace OpenFix

namespace Client

open Transition (Reaches always)

variable {ι : Type} {P : Params} {s s' : State ι}

/-! ## What a step does to the output -/

/-- `poll( )` goes on: no result of `::poll`, `recv` or `send` has told it to close. -/
def PollPc.serves : PollPc → Bool
  | .closing => false
  | .done => false
  | _ => true

/-- The four things a step can do to the messages and the accepted bytes. -/
inductive Output (s : State ι) : Act ι → State ι → Prop
  /-- Messages are pushed, or none. -/
  | keep {act : Act ι} {s' : State ι} (more : List TcpMsg) :
    s'.posted = s.posted ++ more → s'.outgoing = s.outgoing ++ more → s'.popped = s.popped →
    s'.wire = s.wire → s'.poll.sending = s.poll.sending →
    (s'.poll.serves = true → s.poll.serves = true) → Output s act s'
  | pop {s' : State ι} (msg : TcpMsg) : s'.posted = s.posted → s.outgoing = msg :: s'.outgoing →
    s'.popped = s.popped ++ [msg] → s'.wire = s.wire → s.poll.sending = [] →
    s'.poll.sending = [msg] → s.poll.serves = true → Output s (.poll .popOut) s'
  | send {s' : State ι} (msg : TcpMsg) (ret : Nat) : s.poll = .send msg → ret ≤ msg.len →
    s'.posted = s.posted → s'.outgoing = s.outgoing → s'.popped = s.popped →
    s'.wire = s.wire ++ Bytes.slice s.mem msg.buf ret → s'.poll.sending = [] →
    Output s (.poll (.send ret)) s'
  | fail {s' : State ι} : s'.posted = s.posted → s'.outgoing = s.outgoing →
    s'.popped = s.popped → s'.wire = s.wire → s'.poll.sending = [] → s'.poll.serves = false →
    Output s (.poll .sendFail) s'

/-- `poll( )` moves on without a message. -/
theorem Output.idle {act : Act ι} {poll : PollPc} (at_ : s.poll = poll)
    (before : poll.sending = []) (after : s'.poll.sending = [])
    (serves : s'.poll.serves = true → poll.serves = true)
    (same : s'.posted = s.posted ∧ s'.outgoing = s.outgoing ∧ s'.popped = s.popped ∧
      s'.wire = s.wire) : Output s act s' := by
  rcases same with ⟨posted, outgoing, popped, wire⟩
  refine .keep [] ?_ ?_ popped wire ?_ ?_
  · rw [posted, List.append_nil]
  · rw [outgoing, List.append_nil]
  · rw [after, at_, before]
  · rw [at_]
    exact serves

theorem PollStep.output {act : PollAct} (stepped : PollStep P s act s') :
    Output s (.poll act) s' := by
  have same : s.posted = s.posted ∧ s.outgoing = s.outgoing ∧ s.popped = s.popped ∧
      s.wire = s.wire := ⟨rfl, rfl, rfl, rfl⟩
  cases stepped with
  | error at_ _ => exact .idle at_ rfl rfl (fun _ => rfl) same
  | events pollIn pollOut at_ _ =>
      refine .idle at_ rfl ?_ (fun _ => rfl) same
      cases pollIn
      · exact (afterIn_places pollOut).1
      · rfl
  | leave at_ _ => exact .idle at_ rfl rfl (fun _ => rfl) same
  | takeBuf at_ _ => exact .idle at_ rfl rfl (fun _ => rfl) same
  | recv data garbage at_ _ _ => exact .idle at_ rfl rfl (fun _ => rfl) same
  | recvFail at_ => exact .idle at_ rfl rfl (fun _ => rfl) same
  | handle at_ _ _ _ => exact .idle at_ rfl rfl (fun _ => rfl) same
  | @handled b len out ret garbage at_ =>
      refine .idle at_ rfl ?_ (fun _ => rfl) same
      cases ret
      · exact (afterIn_places out).1
      · rfl
  | @release b next at_ _ =>
      exact .idle at_ rfl (afterRelease_places next).1 (fun _ => rfl) same
  | popEmpty at_ _ => exact .idle at_ rfl rfl (fun _ => rfl) same
  | popOut at_ outgoing =>
      exact .pop _ rfl outgoing rfl rfl (by rw [at_]; rfl) rfl (by rw [at_]; rfl)
  | send ret at_ _ most => exact .send _ ret at_ most rfl rfl rfl rfl rfl
  | sendFail at_ => exact .fail rfl rfl rfl rfl rfl rfl
  | close at_ => exact .idle at_ rfl rfl id same

section Output

variable [DecidableEq ι]

theorem ConsumerStep.output {act : ConsumerAct} (stepped : ConsumerStep P s act s') :
    Output s (.consumer act) s' := by
  have posted : s.posted = s.posted ++ [] := (List.append_nil _).symm
  have outgoing : s.outgoing = s.outgoing ++ [] := (List.append_nil _).symm
  cases stepped with
  | _ => exact .keep [] posted outgoing rfl rfl rfl id

theorem PostStep.output {t : Option ι} {act : PostAct} (stepped : PostStep P s t act s') :
    Output s (.post t act) s' := by
  have posted : s.posted = s.posted ++ [] := (List.append_nil _).symm
  have outgoing : s.outgoing = s.outgoing ++ [] := (List.append_nil _).symm
  cases stepped with
  | start i kind idle => exact .keep [] posted outgoing rfl rfl rfl id
  | takeBuf at_ pool => exact .keep [] posted outgoing rfl rfl rfl id
  | create at_ creates fits => exact .keep [] posted outgoing rfl rfl rfl id
  | @push _ msg at_ room => exact .keep [msg] rfl rfl rfl rfl rfl id

theorem Step.output {act : Act ι} (stepped : Step P s act s') : Output s act s' := by
  cases stepped with
  | poll stepped => exact stepped.output
  | consumer stepped => exact stepped.output
  | post stepped => exact stepped.output

variable {cond : State ι → Act ι → Prop} {fd : Int}

omit [DecidableEq ι] in
theorem Output.queue {act : Act ι} (queue : s.posted = s.popped ++ s.outgoing)
    (stepped : Output s act s') : s'.posted = s'.popped ++ s'.outgoing := by
  cases stepped with
  | keep more posted outgoing popped _ _ _ =>
      rw [posted, outgoing, popped, queue, List.append_assoc]
  | pop msg posted outgoing popped _ _ _ _ =>
      rw [posted, popped, queue, outgoing, List.append_assoc, List.singleton_append]
  | send msg ret _ _ posted outgoing popped _ _ => rw [posted, outgoing, popped, queue]
  | fail posted outgoing popped _ _ _ => rw [posted, outgoing, popped, queue]

/-- `m_outgoing` is a queue. -/
theorem posted_eq (reaches : Reaches (Step P) cond (State.connected P ι fd) s) :
    s.posted = s.popped ++ s.outgoing := by
  apply reaches.invariant (I := fun s => s.posted = s.popped ++ s.outgoing) rfl
  intro s act s' _ queue _ stepped
  exact stepped.output.queue queue

end Output

/-! ## Messages in their buffers -/

variable [Fintype ι]

/-- The outgoing messages are in their buffers as they were created. -/
structure Stored (P : Params) (s : State ι) : Prop where
  length : s.mem.length = P.bufSize * P.bufpoolSize
  stored : ∀ m ∈ live s, m.len = m.bytes.length ∧ m.len ≤ P.bufSize ∧
    Bytes.slice s.mem m.buf m.len = m.bytes

/-- A write to a buffer without outgoing message. -/
theorem Stored.overwrite (stored : Stored P s) (below : owned s ≤ P.buffers) {b : Nat}
    {data : List UInt8} (free : b ∈ spare s) (fits : data.length ≤ P.bufSize) :
    (Bytes.overwrite s.mem b data).length = P.bufSize * P.bufpoolSize ∧
      ∀ m ∈ live s, m.len = m.bytes.length ∧ m.len ≤ P.bufSize ∧
        Bytes.slice (Bytes.overwrite s.mem b data) m.buf m.len = m.bytes := by
  have memberB : b ∈ P.buffers :=
    Multiset.mem_of_le below (Multiset.mem_add.mpr (.inr free))
  have inside := Params.buffer_inside memberB
  have room : b + data.length ≤ s.mem.length := by
    rw [stored.length]
    omega
  refine ⟨by rw [Bytes.length_overwrite room, stored.length], fun m member => ?_⟩
  rcases stored.stored m member with ⟨length, small, content⟩
  have used : m.buf ∈ (live s).map (·.buf) := Multiset.mem_map_of_mem _ member
  have memberM : m.buf ∈ P.buffers :=
    Multiset.mem_of_le below (Multiset.mem_add.mpr (.inl used))
  have nodup : (owned s).Nodup :=
    Multiset.nodup_of_le below (Multiset.coe_nodup.mpr P.buffers_nodup)
  have different : m.buf ≠ b := by
    intro same
    exact Multiset.disjoint_left.mp (Multiset.nodup_add.mp nodup).2.2 used (same ▸ free)
  refine ⟨length, small, ?_⟩
  rw [Bytes.slice_overwrite_of_disjoint room, content]
  rcases Params.buffers_disjoint memberM memberB different with left | right
  · exact .inl (by omega)
  · exact .inr (by omega)

/-- The same memory, and no new outgoing message. -/
theorem Stored.shrink (stored : Stored P s) (mem : s'.mem = s.mem) (fewer : live s' ≤ live s) :
    Stored P s' := by
  refine ⟨by rw [mem, stored.length], fun m member => ?_⟩
  rw [mem]
  exact stored.stored m (Multiset.mem_of_le fewer member)

/-- No message on its way to the socket. -/
theorem Stored.settle (stored : Stored P s) (sending : s'.poll.sending = [])
    (same : s'.mem = s.mem ∧ s'.outgoing = s.outgoing ∧ s'.posting = s.posting) :
    Stored P s' := by
  apply stored.shrink same.1
  unfold live
  rw [same.2.1, same.2.2, sending, Multiset.coe_nil, add_zero, add_right_comm]
  exact Multiset.le_add_right _ _

theorem PollStep.stored {act : PollAct} (stored : Stored P s) (below : owned s ≤ P.buffers)
    (stepped : PollStep P s act s') : Stored P s' := by
  have same : s.mem = s.mem ∧ s.outgoing = s.outgoing ∧ s.posting = s.posting := ⟨rfl, rfl, rfl⟩
  cases stepped with
  | events pollIn pollOut at_ _ =>
      cases pollIn
      · exact stored.settle (afterIn_places pollOut).1 same
      · exact stored.settle rfl same
  | @recv b out data garbage at_ some_ fits =>
      have free : b ∈ spare s := by
        unfold spare
        rw [at_]
        simp only [PollPc.held, Multiset.mem_add, Multiset.mem_coe, List.mem_singleton, true_or,
          or_true]
      rcases stored.overwrite below free fits with ⟨length, content⟩
      have written : Stored P { s with mem := Bytes.overwrite s.mem b data } := ⟨length, content⟩
      exact written.settle rfl ⟨rfl, rfl, rfl⟩
  | @handled b len out ret garbage at_ =>
      cases ret
      · exact stored.settle (afterIn_places out).1 same
      · exact stored.settle rfl same
  | @release b next at_ _ => exact stored.settle (afterRelease_places next).1 same
  | @popOut msg rest at_ outgoing =>
      refine stored.shrink rfl (le_of_eq ?_)
      unfold live
      rw [at_, outgoing]
      simp only [PollPc.sending, ← Multiset.cons_coe, ← Multiset.singleton_add, Multiset.coe_nil]
      abel
  | _ => exact stored.settle rfl same

variable [DecidableEq ι]

theorem live_setPosting (s : State ι) (t : Option ι) (pc : PostPc) :
    live (s.setPosting t pc) + (s.posting t).pushing = live s + pc.pushing := by
  unfold live State.setPosting
  dsimp only
  rw [add_assoc, Tally.tally_update, ← add_assoc]

/-- A thread moves between two places without a created message. -/
theorem live_setPosting_of_none {t : Option ι} {pc : PostPc} (before : (s.posting t).pushing = 0)
    (after : pc.pushing = 0) : live (s.setPosting t pc) = live s := by
  have moved := live_setPosting s t pc
  rwa [before, after, add_zero, add_zero] at moved

theorem ConsumerStep.stored {act : ConsumerAct} (stored : Stored P s)
    (stepped : ConsumerStep P s act s') : Stored P s' := by
  cases stepped with
  | @reply msg at_ _ idle =>
      refine stored.shrink rfl (le_of_eq ?_)
      exact live_setPosting_of_none (s := { s with consumer := .reply msg })
        (congrArg PostPc.pushing idle) rfl
  | @subscribe msg at_ _ _ idle =>
      refine stored.shrink rfl (le_of_eq ?_)
      exact live_setPosting_of_none (s := { s with once := true, consumer := .subscribe msg })
        (congrArg PostPc.pushing idle) rfl
  | _ => exact stored.shrink rfl le_rfl

theorem PostStep.stored {t : Option ι} {act : PostAct} (stored : Stored P s)
    (below : owned s ≤ P.buffers) (fits : Fits P s (.post t act))
    (stepped : PostStep P s t act s') : Stored P s' := by
  cases stepped with
  | start i kind idle =>
      refine stored.shrink rfl (le_of_eq ?_)
      exact live_setPosting_of_none (congrArg PostPc.pushing idle) rfl
  | @takeBuf _ kind b rest at_ pool =>
      refine stored.shrink rfl (le_of_eq ?_)
      exact live_setPosting_of_none (s := { s with pool := rest }) (congrArg PostPc.pushing at_) rfl
  | @create _ kind b bytes at_ creates _ =>
      have small := fits t bytes.length rfl
      have moved := live_setPosting
        { s with mem := Bytes.overwrite s.mem b bytes, seq := wrap32 (s.seq + 1) } t
        (.push ⟨b, bytes.length, kind, s.seq, bytes⟩)
      rw [at_] at moved
      have lives := (add_zero _).symm.trans moved
      have free : b ∈ spare s := by
        have held : b ∈ PostPc.held (s.posting t) := by
          rw [at_]
          exact Multiset.mem_singleton_self b
        exact Multiset.mem_add.mpr (.inr (Tally.mem_tally.mpr ⟨t, held⟩))
      have memberB : b ∈ P.buffers :=
        Multiset.mem_of_le below (Multiset.mem_add.mpr (.inr free))
      have inside := Params.buffer_inside memberB
      have room : b + bytes.length ≤ s.mem.length := by
        rw [stored.length]
        omega
      rcases stored.overwrite below free small with ⟨length, content⟩
      refine ⟨length, fun m member => ?_⟩
      rw [lives] at member
      rcases Multiset.mem_add.mp member with old | new
      · exact content m old
      · cases Multiset.mem_singleton.mp new
        exact ⟨rfl, small, Bytes.slice_overwrite_self room⟩
  | @push _ msg at_ room =>
      have moved := live_setPosting
        { s with outgoing := s.outgoing ++ [msg], posted := s.posted ++ [msg] } t .idle
      rw [at_] at moved
      refine stored.shrink rfl (le_of_eq (add_right_cancel (b := ({msg} : Multiset TcpMsg)) ?_))
      apply moved.trans
      unfold live
      simp only [← Multiset.coe_add, Multiset.coe_singleton, PostPc.pushing]
      abel

/-- A step leaves the outgoing messages in their buffers. -/
theorem Step.stored {act : Act ι} (stored : Stored P s) (below : owned s ≤ P.buffers)
    (fits : Fits P s act) (stepped : Step P s act s') : Stored P s' := by
  cases stepped with
  | poll stepped => exact stepped.stored stored below
  | consumer stepped => exact stepped.stored stored
  | post stepped => exact stepped.stored stored below fits

omit [DecidableEq ι] in
theorem stored_connected (P : Params) (fd : Int) : Stored P (State.connected P ι fd) := by
  refine ⟨List.length_replicate, fun m member => ?_⟩
  have idle : live (State.connected P ι fd) = 0 := by
    unfold live
    rw [tally_connected (f := PostPc.pushing) rfl]
    rfl
  rw [idle] at member
  exact (Multiset.notMem_zero m member).elim

variable {cond : State ι → Act ι → Prop} {fd : Int}

/-- As long as the messages fit. A longer one is written over the next buffers. -/
theorem stored_of_reaches (reaches : Reaches (Step P) cond (State.connected P ι fd) s)
    (fits : ∀ s act, cond s act → Fits P s act) : Stored P s := by
  apply reaches.invariant (I := Stored P) (stored_connected P fd)
  intro s act s' before stored meets stepped
  exact stepped.stored stored (owned_le before) (fits s act meets)

/-! ## The law -/

/-- The full contents of messages, one behind the other. -/
def contents (msgs : List TcpMsg) : List UInt8 := msgs.flatMap (·.bytes)

/-- Every `send` accepts the whole message. -/
def WholeSends (s : State ι) (act : Act ι) : Prop :=
  ∀ msg ret, s.poll = .send msg → act = .poll (.send ret) → ret = msg.len

/-- Every message fits its buffer, and every `send` accepts the whole message. -/
def WholeFits (P : Params) (s : State ι) (act : Act ι) : Prop := Fits P s act ∧ WholeSends s act

/-- No `send` comes behind a short one: the socket has accepted as many bytes as the
messages popped before hold. -/
def WholeBefore (s : State ι) (act : Act ι) : Prop :=
  ∀ msg ret, s.poll = .send msg → act = .poll (.send ret) →
    s.wire.length = (contents s.popped.dropLast).length

/-- The accepted bytes are a prefix of the messages popped and handed to `send`. -/
def InOrder (s : State ι) : Prop :=
  ∃ before, s.popped = before ++ s.poll.sending ∧ s.wire <+: contents before

/-- As long as `poll( )` goes on, they are those messages. -/
def Whole (s : State ι) : Prop :=
  s.poll.serves = true → ∃ before, s.popped = before ++ s.poll.sending ∧ s.wire = contents before

theorem contents_append (msgs later : List TcpMsg) :
    contents (msgs ++ later) = contents msgs ++ contents later :=
  List.flatMap_append

theorem contents_singleton (msg : TcpMsg) : contents [msg] = msg.bytes :=
  List.flatMap_singleton _ _

omit [DecidableEq ι] in
/-- What `send` reads from the buffer. -/
theorem Stored.sending (stored : Stored P s) {msg : TcpMsg} (at_ : s.poll = .send msg) :
    msg.len = msg.bytes.length ∧
      ∀ ret, ret ≤ msg.len → Bytes.slice s.mem msg.buf ret = msg.bytes.take ret := by
  have member : msg ∈ live s := by
    unfold live
    rw [at_]
    simp only [PollPc.sending, Multiset.mem_add, Multiset.mem_coe, List.mem_singleton, true_or,
      or_true]
  rcases stored.stored msg member with ⟨length, -, content⟩
  refine ⟨length, fun ret most => ?_⟩
  rw [← content, Bytes.slice, Bytes.slice, List.take_take, Nat.min_eq_left most]

omit [DecidableEq ι] in
theorem InOrder.step {act : Act ι} (order : InOrder s) (stored : Stored P s)
    (meets : WholeBefore s act) (stepped : Output s act s') : InOrder s' := by
  rcases order with ⟨before, split, accepted⟩
  cases stepped with
  | keep more _ _ popped wire sending _ =>
      refine ⟨before, ?_, ?_⟩
      · rw [popped, sending, split]
      · rw [wire]
        exact accepted
  | pop msg _ _ popped wire idle sending _ =>
      rw [idle, List.append_nil] at split
      refine ⟨before, ?_, ?_⟩
      · rw [popped, sending, split]
      · rw [wire]
        exact accepted
  | send msg ret at_ most _ _ popped wire sending =>
      have length := meets msg ret at_ rfl
      rw [at_] at split
      rw [split, PollPc.sending, List.dropLast_concat] at length
      have whole : s.wire = contents before := accepted.eq_of_length length
      refine ⟨before ++ [msg], ?_, ?_⟩
      · rw [popped, sending, List.append_nil, split, PollPc.sending]
      · rw [wire, (stored.sending at_).2 ret most, whole, contents_append, contents_singleton]
        exact List.prefix_append_right_inj _ |>.mpr (List.take_prefix ret msg.bytes)
  | fail _ _ popped wire sending _ =>
      refine ⟨s.popped, ?_, ?_⟩
      · rw [popped, sending, List.append_nil]
      · rw [wire, split, contents_append]
        exact accepted.trans (List.prefix_append _ _)

omit [DecidableEq ι] in
/-- A send. Nothing is skipped behind it exactly when it accepted the whole message. -/
theorem Whole.send_iff {msg : TcpMsg} {ret : Nat} (whole : Whole s) (stored : Stored P s)
    (at_ : s.poll = .send msg) (stepped : PollStep P s (.send ret) s') :
    Whole s' ↔ ret = msg.len := by
  have serves : s.poll.serves = true := by
    rw [at_]
    rfl
  rcases whole serves with ⟨before, split, accepted⟩
  rcases stored.sending at_ with ⟨length, reads⟩
  rw [at_, PollPc.sending] at split
  have total : contents s.popped = s.wire ++ msg.bytes := by
    rw [split, contents_append, contents_singleton, accepted]
  cases stepped with
  | send ret at' some_ most =>
      cases at_.symm.trans at'
      constructor
      · intro whole'
        rcases whole' rfl with ⟨before', split', accepted'⟩
        dsimp only [PollPc.sending] at split' accepted'
        rw [List.append_nil] at split'
        rw [← split', total, reads ret most] at accepted'
        have lengths := congrArg List.length (List.append_cancel_left accepted')
        rw [List.length_take, Nat.min_eq_left (most.trans length.le)] at lengths
        exact lengths.trans length.symm
      · intro full _
        refine ⟨s.popped, (List.append_nil _).symm, ?_⟩
        rw [total, reads ret most, full, length, List.take_length]

theorem Whole.step {act : Act ι} (whole : Whole s) (stored : Stored P s)
    (meets : WholeSends s act) (stepped : Step P s act s') : Whole s' := by
  cases stepped.output with
  | keep more _ _ popped wire sending serves =>
      intro serves'
      rcases whole (serves serves') with ⟨before, split, accepted⟩
      refine ⟨before, ?_, ?_⟩
      · rw [popped, sending, split]
      · rw [wire, accepted]
  | pop msg _ _ popped wire idle sending serves =>
      intro _
      rcases whole serves with ⟨before, split, accepted⟩
      rw [idle, List.append_nil] at split
      refine ⟨before, ?_, ?_⟩
      · rw [popped, sending, split]
      · rw [wire, accepted]
  | send msg ret at_ _ _ _ _ _ _ =>
      cases stepped with
      | poll stepped => exact (whole.send_iff stored at_ stepped).mpr (meets msg ret at_ rfl)
  | fail _ _ _ _ _ serves =>
      intro serves'
      cases serves.symm.trans serves'

theorem inOrder_of_reaches (reaches : Reaches (Step P)
    (fun s act => Fits P s act ∧ WholeBefore s act) (State.connected P ι fd) s) :
    InOrder s := by
  apply reaches.invariant (I := InOrder) ⟨[], rfl, List.prefix_refl []⟩
  intro s act s' before order meets stepped
  exact order.step (stored_of_reaches before fun _ _ => And.left) meets.2 stepped.output

theorem whole_of_reaches
    (reaches : Reaches (Step P) (WholeFits P) (State.connected P ι fd) s) :
    InOrder s ∧ Whole s := by
  refine reaches.invariant (I := fun s => InOrder s ∧ Whole s)
    ⟨⟨[], rfl, List.prefix_refl []⟩, fun _ => ⟨[], rfl, rfl⟩⟩ ?_
  intro s act s' before kept meets stepped
  rcases kept with ⟨order, whole⟩
  have stored := stored_of_reaches before fun _ _ => And.left
  refine ⟨order.step stored ?_ stepped.output, whole.step stored meets.2 stepped⟩
  intro msg ret at_ _
  have serves : s.poll.serves = true := by
    rw [at_]
    rfl
  rcases whole serves with ⟨done, split, accepted⟩
  rw [accepted, split, at_, PollPc.sending, List.dropLast_concat]

omit [Fintype ι] [DecidableEq ι] in
theorem InOrder.accepted (order : InOrder s) (queue : s.posted = s.popped ++ s.outgoing) :
    s.wire <+: contents s.posted := by
  rcases order with ⟨before, split, accepted⟩
  rw [queue, split, contents_append, contents_append, List.append_assoc]
  exact accepted.trans (List.prefix_append _ _)

/-- In every run in which each message fits its buffer and each `send` accepts the whole
message, the accepted bytes are a prefix of the posted messages, and until `poll( )` closes,
the rest of those is what waits in the client. Without a `send` behind a short one the accepted
bytes are still such a prefix. -/
theorem wire_law (P : Params) (fd : Int) (s : State ι) :
    (Reaches (Step P) (WholeFits P) (State.connected P ι fd) s →
      s.wire <+: contents s.posted ∧
        (s.poll.serves = true →
          s.wire ++ contents (s.poll.sending ++ s.outgoing) = contents s.posted)) ∧
      (Reaches (Step P) (fun s act => Fits P s act ∧ WholeBefore s act)
          (State.connected P ι fd) s →
        s.wire <+: contents s.posted) := by
  refine ⟨fun reaches => ?_, fun reaches => ?_⟩
  · rcases whole_of_reaches reaches with ⟨order, whole⟩
    have queue := posted_eq reaches
    refine ⟨order.accepted queue, fun serves => ?_⟩
    rcases whole serves with ⟨before, split, accepted⟩
    rw [accepted, queue, split, contents_append, contents_append, contents_append,
      List.append_assoc]
  · exact (inOrder_of_reaches reaches).accepted (posted_eq reaches)

/-- A pass of `poll( )` on a reached state that sends `ret` bytes of the message `msg`. -/
theorem sent_run {cond : State ι → Act ι → Prop} {fd : Int} {msg : TcpMsg} {rest : List TcpMsg}
    (reaches : Reaches (Step P) cond (State.connected P ι fd) s)
    (fits : ∀ s act, cond s act → Fits P s act) (ret : Nat) (at_ : s.poll = .top)
    (open_ : 0 < s.fd) (outgoing : s.outgoing = msg :: rest) (some_ : 1 ≤ ret)
    (most : ret ≤ msg.len) (room : s.pool.length < P.bufpoolSize)
    (meets : ∀ s act, (∀ ret, act ≠ .send ret) → cond s (.poll act))
    (sends : ∀ s : State ι, s.poll = .send msg → cond s (.poll (.send ret))) :
    Reaches (Step P) cond (State.connected P ι fd)
      { s with
        outgoing := rest
        popped := s.popped ++ [msg]
        wire := s.wire ++ msg.bytes.take ret
        pool := s.pool ++ [msg.buf] } := by
  have sending := reaches.trans (popOut_run at_ open_ outgoing meets)
  rw [← ((stored_of_reaches sending fits).sending rfl).2 ret most]
  exact reaches.trans (send_run ret at_ open_ outgoing some_ most room meets sends)

/-- A posted logon that the socket accepts whole. -/
theorem wire_law_logon :
    ∃ s : State Unit, s.wire = Lmax.sample.bytes .logon [] 1 ∧ s.wire <+: contents s.posted ∧
      (s.poll.serves = true →
        s.wire ++ contents (s.poll.sending ++ s.outgoing) = contents s.posted) := by
  have posted : Reaches (Step Lmax.sample.fixTcpClient) (WholeFits Lmax.sample.fixTcpClient)
      (State.connected Lmax.sample.fixTcpClient Unit 3) _ :=
    post_run_of_idle (i := ()) rfl rfl (Lmax.sample_creates 1) (by decide +kernel) (by decide)
      fun _ _ of => ⟨PostAct.fits of (by decide +kernel) _ _, fun _ _ _ => nofun⟩
  have sent := sent_run posted (fun _ _ => And.left) (Lmax.sample.bytes .logon [] 1).length rfl
    (by decide) rfl (by decide +kernel) le_rfl (by decide +kernel)
    (fun _ _ other => ⟨fits_poll _ _ _, fun _ _ _ same => by
      cases same
      exact (other _ rfl).elim⟩)
    (fun _ at_ => ⟨fits_poll _ _ _, fun _ _ at' same => by
      cases same
      cases at_.symm.trans at'
      rfl⟩)
  refine ⟨_, ?_, (wire_law Lmax.sample.fixTcpClient 3 _).1 sent⟩
  exact (List.nil_append _).trans List.take_length

/-- Two logons, and a socket that accepts one byte of each: the rest of the first is
skipped. -/
theorem not_wire_law_shortSend :
    ¬ ∀ s : State Unit,
      Reaches (Step Lmax.sample.fixTcpClient) always
        (State.connected Lmax.sample.fixTcpClient Unit 3) s →
      s.wire <+: contents s.posted := by
  intro law
  have first : Reaches (Step Lmax.sample.fixTcpClient) (Fits Lmax.sample.fixTcpClient)
      (State.connected Lmax.sample.fixTcpClient Unit 3) _ :=
    post_run_of_idle (i := ()) rfl rfl (Lmax.sample_creates 1) (by decide +kernel) (by decide)
      fun _ _ of => PostAct.fits of (by decide +kernel) _ _
  have second := first.trans (post_run_of_idle (i := ()) rfl rfl (Lmax.sample_creates 2)
    (by decide +kernel) (by decide) fun _ _ of => PostAct.fits of (by decide +kernel) _ _)
  have sent := sent_run second (fun _ _ => id) 1 rfl (by decide) rfl (by decide)
    (by decide +kernel) (by decide +kernel) (fun _ act _ => fits_poll _ _ act)
    fun _ _ => fits_poll _ _ _
  have skipped := sent_run sent (fun _ _ => id) 1 rfl (by decide) rfl (by decide)
    (by decide +kernel) (by decide +kernel) (fun _ act _ => fits_poll _ _ act)
    fun _ _ => fits_poll _ _ _
  have prefix_ :
      (Lmax.sample.bytes .logon [] 1).take 1 ++ (Lmax.sample.bytes .logon [] 2).take 1 <+:
      Lmax.sample.bytes .logon [] 1 ++ (Lmax.sample.bytes .logon [] 2 ++ []) :=
    law _ (skipped.mono fun _ _ _ => trivial)
  revert prefix_
  decide +kernel

end Client

end OpenFix
