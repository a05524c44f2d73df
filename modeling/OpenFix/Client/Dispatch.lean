import OpenFix.Client.Output

/-!
# Dispatch by message type

`init` keeps the first byte of MsgType, `consume_fix_msg` compares that byte with `'0'`,
`'1'` and `'A'`. A run is watched together with what it received and what the consumer did.

* `handler_holds`: on a buffer of whole messages the handler pushes the type of the first
  one that is left.
* `Accounted`: what was received is what was consumed, what waits in the queue, and what the
  handler still has before it; no other thread writes there.
* `dispatched_iff`: when the consumer goes by the whole MsgType.
-/

namespace OpenFix

/-- The value of the MsgType field. -/
def WireMessage.msgType (m : WireMessage) : List UInt8 := m.type :: m.typeRest

namespace Client

open Transition (Reaches always)
open Tally (tally)

/-- What the consumer does with a message. -/
inductive Reaction : Type
  | heartbeat
  | logIn
  | pass
  deriving DecidableEq, Repr

/-- The reaction to an entry, by its type byte. -/
def reactionTo (type : UInt8) : Reaction :=
  if type = 48 ∨ type = 49 then .heartbeat
  else if type = 65 then .logIn
  else .pass

/-- The reaction to a message, by its whole MsgType: `"0"` and `"1"`, `"A"`, and the rest. -/
def due (m : WireMessage) : Reaction :=
  if m.msgType = [48] ∨ m.msgType = [49] then .heartbeat
  else if m.msgType = [65] then .logIn
  else .pass

/-- The first byte of its MsgType says what to do with the message. -/
def Plain (m : WireMessage) : Prop := m.typeRest = [] ∨ reactionTo m.type = .pass

def PollAct.receives : PollAct → Bool
  | .recv _ _ => true
  | _ => false

def ConsumerAct.reaction : ConsumerAct → Option Reaction
  | .reply => some .heartbeat
  | .logIn => some .logIn
  | .pass => some .pass
  | _ => none

/-- A run so far: the messages received, what the consumer did with them in turn, and the
kinds of the messages it pushed onto `m_outgoing` itself. -/
structure History : Type where
  received : List WireMessage
  reactions : List Reaction
  pushed : List PostKind

def History.start : History := ⟨[], [], []⟩

/-- The messages the consumer has dealt with. -/
def History.consumed (h : History) : List WireMessage := h.received.take h.reactions.length

variable {ι : Type} [DecidableEq ι]

/-- A step of a client that receives whole messages, one or more in a read. -/
inductive Watched (P : Params) : State ι × History → Act ι → State ι × History → Prop
  | recv {s s' : State ι} {h : History} {group : List WireMessage} {garbage : StackGarbage} :
    group ≠ [] → Step P s (.poll (.recv (group.flatMap WireMessage.bytes) garbage)) s' →
    Watched P (s, h) (.poll (.recv (group.flatMap WireMessage.bytes) garbage))
      (s', { h with received := h.received ++ group })
  | react {s s' : State ι} {h : History} {act : ConsumerAct} {reaction : Reaction} :
    act.reaction = some reaction → Step P s (.consumer act) s' →
    Watched P (s, h) (.consumer act) (s', { h with reactions := h.reactions ++ [reaction] })
  | push {s s' : State ι} {h : History} {msg : TcpMsg} : s.posting none = .push msg →
    Step P s (.post none .push) s' →
    Watched P (s, h) (.post none .push) (s', { h with pushed := h.pushed ++ [msg.kind] })
  | quiet {s s' : State ι} {h : History} {act : Act ι} :
    (∀ poll, act = .poll poll → poll.receives = false) →
    (∀ consumer, act = .consumer consumer → consumer.reaction = none) →
    act ≠ .post none .push → Step P s act s' → Watched P (s, h) act (s', h)

theorem Watched.step {P : Params} {s s' : State ι} {h h' : History} {act : Act ι}
    (watched : Watched P (s, h) act (s', h')) : Step P s act s' := by
  cases watched with
  | recv _ stepped => exact stepped
  | react _ stepped => exact stepped
  | push _ stepped => exact stepped
  | quiet _ _ _ stepped => exact stepped

/-- The messages fit their buffers. -/
def FitsWatched (P : Params) (x : State ι × History) (act : Act ι) : Prop := Fits P x.1 act

/-- A watched run is a run. -/
theorem reaches_of_watched {P : Params} {fd : Int} {s : State ι} {h : History}
    (reaches : Reaches (Watched P) (FitsWatched P) (State.connected P ι fd, .start) (s, h)) :
    Reaches (Step P) (Fits P) (State.connected P ι fd) s := by
  apply reaches.invariant
    (I := fun x => Reaches (Step P) (Fits P) (State.connected P ι fd) x.1) .start
  intro x act x' _ before fits watched
  exact before.next fits watched.step

/-! ## The handler on whole messages -/

/-- The messages `rest` lie between `i` and `stop`. -/
def Intact (mem : Mem) (i stop : Nat) (rest : List WireMessage) : Prop :=
  i + (rest.flatMap WireMessage.bytes).length = stop ∧
    Bytes.slice mem i (stop - i) = rest.flatMap WireMessage.bytes

/-- The messages that the handler has still to parse. -/
def Holds (mem : Mem) (b len : Nat) (rest : List WireMessage) : HandlerPc → Prop
  | .call => rest ≠ [] ∧ Intact mem b (b + len) rest
  | .loop msg => ∃ i, msg.end_ = some i ∧ b ≤ i ∧ Intact mem i (b + len) rest
  | .returned _ => rest = []
  | .faulted _ => False

theorem Intact.head {mem : Mem} {i stop : Nat} {m : WireMessage} {rest : List WireMessage}
    (intact : Intact mem i stop (m :: rest)) :
    (∃ after, mem.drop i = m.bytes ++ after) ∧ Intact mem (i + m.bytes.length) stop rest := by
  obtain ⟨ends, content⟩ := intact
  rw [List.flatMap_cons] at ends content
  rw [List.length_append] at ends
  have split : mem.drop i = m.bytes ++ (rest.flatMap WireMessage.bytes ++
      (mem.drop i).drop (stop - i)) := by
    rw [← List.append_assoc, ← content]
    exact (List.take_append_drop _ _).symm
  refine ⟨⟨_, split⟩, by omega, ?_⟩
  rw [Bytes.slice, Bytes.drop_add_length split]
  exact List.take_left' (by omega)

variable {mem : Mem} {b len : Nat} {garbage : StackGarbage}

/-- A parse of the first of the messages that are left. -/
theorem holds_parse (msg : FixMessage) {m : WireMessage} {rest : List WireMessage}
    (intact : Intact mem msg.begin_ (b + len) (m :: rest)) (inside : b ≤ msg.begin_) :
    ∃ pc e, FixHandler.parse mem b len msg = (pc, some e) ∧ e.type = m.type ∧
      Holds mem b len rest pc := by
  obtain ⟨⟨after, bytes⟩, intact⟩ := intact.head
  obtain ⟨msg', ends, parsed⟩ := FixHandler.parse_wire b len m bytes
  exact ⟨_, _, parsed, rfl, _, ends, by omega, intact⟩

/-- The handler on whole messages. A step pushes the type of the first message that is
left, or there is none. -/
theorem handler_holds {pc pc' : HandlerPc} {entry : Option FixMsg} {rest : List WireMessage}
    (holds : Holds mem b len rest pc) (runs : running pc = true)
    (stepped : FixHandler.step mem b len garbage pc = (pc', entry)) :
    (∃ m later e, rest = m :: later ∧ entry = some e ∧ e.type = m.type ∧
      Holds mem b len later pc') ∨
    rest = [] ∧ entry = none ∧ Holds mem b len [] pc' := by
  cases pc with
  | call =>
      obtain ⟨some_, intact⟩ := holds
      obtain ⟨m, later, rfl⟩ := List.exists_cons_of_ne_nil some_
      obtain ⟨pc, e, parsed, type, holds⟩ := holds_parse (.new b garbage) intact le_rfl
      cases parsed.symm.trans stepped
      exact .inl ⟨m, later, e, rfl, rfl, type, holds⟩
  | loop msg =>
      obtain ⟨i, ends, inside, intact⟩ := holds
      cases rest with
      | nil =>
          have reached := intact.1
          rw [List.flatMap_nil, List.length_nil] at reached
          cases (FixHandler.step_reached ends (by omega)).symm.trans stepped
          exact .inr ⟨rfl, rfl, rfl⟩
      | cons m later =>
          have positive := m.bytes_length_pos
          have length := intact.1
          rw [List.flatMap_cons, List.length_append] at length
          have before : i < b + len := by omega
          have next : FixHandler.step mem b len garbage (.loop msg) =
              FixHandler.parse mem b len { msg with begin_ := i } :=
            FixHandler.step_before ends before
          obtain ⟨pc, e, parsed, type, holds⟩ :=
            holds_parse { msg with begin_ := i } intact inside
          cases (next.trans parsed).symm.trans stepped
          exact .inl ⟨m, later, e, rfl, rfl, type, holds⟩
  | returned ret => cases runs
  | faulted fault => cases runs

/-- A write elsewhere leaves the messages that are left. -/
theorem Holds.overwrite {pc : HandlerPc} {rest : List WireMessage} {c size : Nat}
    {data : List UInt8} (holds : Holds mem b len rest pc) (fits : len ≤ size)
    (small : data.length ≤ size) (room : c + data.length ≤ mem.length)
    (apart : keeps (b + len) pc = true → b + size ≤ c ∨ c + size ≤ b) :
    Holds (Bytes.overwrite mem c data) b len rest pc := by
  cases pc with
  | call =>
      obtain ⟨some_, ends, content⟩ := holds
      refine ⟨some_, ends, ?_⟩
      rw [Bytes.slice_overwrite_of_disjoint room, content]
      rcases apart rfl with left | right
      · exact .inl (by omega)
      · exact .inr (by omega)
  | loop msg =>
      obtain ⟨i, ends, inside, stops, content⟩ := holds
      refine ⟨i, ends, inside, stops, ?_⟩
      rcases Nat.lt_or_ge i (b + len) with before | reached
      · have kept : keeps (b + len) (.loop msg) = true := by
          simp only [keeps, ends, ne_eq, Option.some.injEq, decide_eq_true_eq]
          omega
        rw [Bytes.slice_overwrite_of_disjoint room, content]
        rcases apart kept with left | right
        · exact .inl (by omega)
        · exact .inr (by omega)
      · have empty : b + len - i = 0 := by omega
        rw [← content, empty]
        rfl
  | returned ret => exact holds
  | faulted fault => exact holds

/-! ## The messages on their way -/

/-- The entry at the tests of its type. -/
def ConsumerPc.dispatching : ConsumerPc → List FixMsg
  | .dispatch msg => [msg]
  | _ => []

def PollPc.handling : PollPc → Bool
  | .handle _ _ _ _ _ => true
  | _ => false

/-- The messages the handler has still before it. -/
def Ahead (P : Params) (s : State ι) (rest : List WireMessage) : Prop :=
  match s.poll with
  | .handle b len _ _ pc => len ≤ P.bufSize ∧ Holds s.mem b len rest pc
  | _ => rest = []

/-- What was received is what was consumed, what waits, and what the handler has before it. -/
def Accounted (P : Params) (s : State ι) (h : History) : Prop :=
  ∃ consumed waiting rest, h.received = consumed ++ waiting ++ rest ∧
    h.reactions = consumed.map (fun m => reactionTo m.type) ∧
    (s.consumer.dispatching ++ s.inQueue).map (·.type) = waiting.map (·.type) ∧ Ahead P s rest

omit [DecidableEq ι] in
theorem ahead_of_idle {P : Params} {s : State ι} {rest : List WireMessage}
    (idle : s.poll.handling = false) : Ahead P s rest ↔ rest = [] := by
  unfold Ahead
  cases at_ : s.poll with
  | handle b len out garbage pc =>
      rw [at_] at idle
      cases idle
  | _ => exact Iff.rfl

theorem handling_afterIn (out : Bool) : (PollPc.afterIn out).handling = false := by
  cases out
  · rfl
  · rfl

theorem handling_afterRelease (next : AfterRelease) :
    (PollPc.afterRelease next).handling = false := by
  cases next with
  | close => rfl
  | out pollOut => exact handling_afterIn pollOut

variable {P : Params} {s s' : State ι} {h : History}

omit [DecidableEq ι] in
/-- Nothing moves on its way to the consumer. -/
theorem Accounted.settle (accounted : Accounted P s h)
    (entries : s'.consumer.dispatching ++ s'.inQueue = s.consumer.dispatching ++ s.inQueue)
    (ahead : ∀ rest, Ahead P s rest → Ahead P s' rest) : Accounted P s' h := by
  obtain ⟨consumed, waiting, rest, received, reactions, types, before⟩ := accounted
  exact ⟨consumed, waiting, rest, received, reactions, by rw [entries, types], ahead rest before⟩

omit [DecidableEq ι] in
/-- `poll( )` moves on outside the handler. -/
theorem Accounted.idle (accounted : Accounted P s h) {poll : PollPc} (at_ : s.poll = poll)
    (before : poll.handling = false) (after : s'.poll.handling = false)
    (same : s'.consumer = s.consumer ∧ s'.inQueue = s.inQueue) : Accounted P s' h := by
  apply accounted.settle
  · rw [same.1, same.2]
  · intro rest ahead
    rw [← at_] at before
    exact (ahead_of_idle after).mpr ((ahead_of_idle before).mp ahead)

omit [DecidableEq ι] in
theorem PollStep.accounted {act : PollAct} (accounted : Accounted P s h)
    (silent : act.receives = false) (stepped : PollStep P s act s') : Accounted P s' h := by
  have same : s.consumer = s.consumer ∧ s.inQueue = s.inQueue := ⟨rfl, rfl⟩
  cases stepped with
  | error at_ _ => exact accounted.idle at_ rfl rfl same
  | events pollIn pollOut at_ _ =>
      refine accounted.idle at_ rfl ?_ same
      cases pollIn
      · exact handling_afterIn pollOut
      · rfl
  | leave at_ _ => exact accounted.idle at_ rfl rfl same
  | takeBuf at_ _ => exact accounted.idle at_ rfl rfl same
  | recv data garbage _ _ _ => cases silent
  | recvFail at_ => exact accounted.idle at_ rfl rfl same
  | @handle b len out garbage pc pc' entry at_ runs handler room =>
      obtain ⟨consumed, waiting, rest, received, reactions, types, ahead⟩ := accounted
      unfold Ahead at ahead
      rw [at_] at ahead
      rcases handler_holds ahead.2 runs handler with
        ⟨m, later, e, rfl, rfl, type, holds⟩ | ⟨rfl, rfl, holds⟩
      · refine ⟨consumed, waiting ++ [m], later, ?_, reactions, ?_, ahead.1, holds⟩
        · simp only [received, List.append_assoc, List.cons_append, List.nil_append]
        · rw [Option.toList, ← List.append_assoc, List.map_append, types, List.map_append,
            List.map_singleton, List.map_singleton, type]
      · refine ⟨consumed, waiting, [], received, reactions, ?_, ahead.1, holds⟩
        rw [Option.toList_none, List.append_nil, types]
  | @handled b len out ret garbage at_ =>
      refine accounted.settle rfl fun rest ahead => ?_
      unfold Ahead at ahead
      rw [at_] at ahead
      have idle : (if ret then PollPc.release b (.out out) else .afterIn out).handling = false := by
        cases ret
        · exact handling_afterIn out
        · rfl
      exact (ahead_of_idle idle).mpr ahead.2
  | release at_ _ => exact accounted.idle at_ rfl (handling_afterRelease _) same
  | popEmpty at_ _ => exact accounted.idle at_ rfl rfl same
  | popOut at_ _ => exact accounted.idle at_ rfl rfl same
  | send ret at_ _ _ => exact accounted.idle at_ rfl rfl same
  | sendFail at_ => exact accounted.idle at_ rfl rfl same
  | close at_ => exact accounted.idle at_ rfl rfl same

omit [DecidableEq ι] in
/-- A read stores the messages of its group. -/
theorem PollStep.accounted_recv {group : List WireMessage} (some_ : group ≠ [])
    (accounted : Accounted P s h)
    (room : ∀ b ∈ s.poll.held, b + P.bufSize ≤ s.mem.length)
    (stepped : PollStep P s (.recv (group.flatMap WireMessage.bytes) garbage) s') :
    Accounted P s' { h with received := h.received ++ group } := by
  cases stepped with
  | @recv b out _ _ at_ _ fits =>
      obtain ⟨consumed, waiting, rest, received, reactions, types, ahead⟩ := accounted
      rw [ahead_of_idle (by rw [at_]; rfl)] at ahead
      cases ahead
      have inside : b + P.bufSize ≤ s.mem.length := by
        apply room b
        rw [at_]
        exact List.mem_singleton_self b
      refine ⟨consumed, waiting, group, ?_, reactions, types, fits, some_, rfl, ?_⟩
      · rw [received, List.append_nil]
      · rw [Nat.add_sub_cancel_left]
        exact Bytes.slice_overwrite_self (by omega)

theorem ConsumerStep.accounted {act : ConsumerAct} (accounted : Accounted P s h)
    (quiet : act.reaction = none) (stepped : ConsumerStep P s act s') : Accounted P s' h := by
  have ahead : ∀ rest, Ahead P s rest → Ahead P s rest := fun _ => id
  cases stepped with
  | loop at_ _ => exact accounted.settle (by rw [at_]; rfl) ahead
  | leave at_ _ => exact accounted.settle (by rw [at_]; rfl) ahead
  | popEmpty at_ _ => exact accounted.settle (by rw [at_]; rfl) ahead
  | pop at_ queue => exact accounted.settle (by rw [at_, queue]; rfl) ahead
  | reply _ _ _ => cases quiet
  | logIn _ _ => cases quiet
  | pass _ _ _ _ => cases quiet
  | replied at_ _ => exact accounted.settle (by rw [at_]; rfl) ahead
  | onceDone at_ _ => exact accounted.settle (by rw [at_]; rfl) ahead
  | subscribe at_ _ _ _ => exact accounted.settle (by rw [at_]; rfl) ahead
  | onceEarly at_ _ _ => exact accounted.settle (by rw [at_]; rfl) ahead
  | subscribed at_ _ => exact accounted.settle (by rw [at_]; rfl) ahead
  | final at_ _ => exact accounted.settle (by rw [at_]; rfl) ahead

omit [DecidableEq ι] in
/-- The consumer reacts to the entry it has, by its type. -/
theorem Accounted.react (accounted : Accounted P s h) {e : FixMsg} {reaction : Reaction}
    (at_ : s.consumer = .dispatch e) (reacts : reaction = reactionTo e.type)
    (done : s'.consumer.dispatching = []) (same : s'.inQueue = s.inQueue)
    (ahead : ∀ rest, Ahead P s rest → Ahead P s' rest) :
    Accounted P s' { h with reactions := h.reactions ++ [reaction] } := by
  obtain ⟨consumed, waiting, rest, received, reactions, types, before⟩ := accounted
  rw [at_, ConsumerPc.dispatching, List.singleton_append, List.map_cons] at types
  obtain ⟨m, waiting, rfl⟩ := List.exists_cons_of_ne_nil (l := waiting) (by
    rintro rfl
    cases types)
  rw [List.map_cons] at types
  injection types with type types
  refine ⟨consumed ++ [m], waiting, rest, ?_, ?_, ?_, ahead rest before⟩
  · simp only [received, List.append_assoc, List.cons_append, List.nil_append]
  · rw [reactions, List.map_append, reacts, type, List.map_singleton]
  · rw [done, same, List.nil_append, types]

theorem ConsumerStep.accounted_react {act : ConsumerAct} {reaction : Reaction}
    (accounted : Accounted P s h) (reacts : act.reaction = some reaction)
    (stepped : ConsumerStep P s act s') :
    Accounted P s' { h with reactions := h.reactions ++ [reaction] } := by
  have ahead : ∀ rest, Ahead P s rest → Ahead P s rest := fun _ => id
  cases stepped with
  | @reply e at_ type _ =>
      cases reacts
      exact accounted.react at_ (if_pos type).symm rfl rfl ahead
  | @logIn e at_ type =>
      cases reacts
      exact accounted.react at_ (by rw [type]; rfl) rfl rfl ahead
  | @pass e at_ other other' notLogon =>
      cases reacts
      exact accounted.react at_ (by
        rw [reactionTo, if_neg (not_or.mpr ⟨other, other'⟩), if_neg notLogon]) rfl rfl ahead
  | _ => cases reacts

section Threads

variable [Fintype ι]

omit [DecidableEq ι] in
/-- A thread that creates a message does not write where the handler has messages before it. -/
theorem Ahead.overwrite {rest : List WireMessage} {c : Nat} {data : List UInt8}
    (ahead : Ahead P s rest) (below : owned s ≤ P.buffers) (stored : Stored P s) {t : Option ι}
    (held : c ∈ (s.posting t).held) (small : data.length ≤ P.bufSize)
    (same : s'.poll = s.poll ∧ s'.mem = Bytes.overwrite s.mem c data) : Ahead P s' rest := by
  unfold Ahead at ahead ⊢
  rw [same.1, same.2]
  cases at_ : s.poll with
  | handle b len out garbage pc =>
      rw [at_] at ahead
      have writes : c ∈ tally PostPc.held s.posting := Tally.mem_tally.mpr ⟨t, held⟩
      have memberC : c ∈ P.buffers :=
        Multiset.mem_of_le below (Multiset.mem_add.mpr (.inr (Multiset.mem_add.mpr (.inr writes))))
      have inside := Params.buffer_inside memberC
      refine ⟨ahead.1, ahead.2.overwrite ahead.1 small (by rw [stored.length]; omega) ?_⟩
      intro keeps_
      have polled : b ∈ s.poll.held := by
        rw [at_, PollPc.held, if_pos keeps_]
        exact List.mem_singleton_self b
      rcases held_apart below polled held with ⟨memberB, -, different⟩
      exact Params.buffers_disjoint memberB memberC different
  | _ =>
      rw [at_] at ahead
      exact ahead

theorem PostStep.accounted {t : Option ι} {act : PostAct} (accounted : Accounted P s h)
    (below : owned s ≤ P.buffers) (stored : Stored P s) (fits : Fits P s (.post t act))
    (stepped : PostStep P s t act s') : Accounted P s' h := by
  have ahead : ∀ rest, Ahead P s rest → Ahead P s rest := fun _ => id
  cases stepped with
  | start i kind idle => exact accounted.settle rfl ahead
  | takeBuf at_ pool => exact accounted.settle rfl ahead
  | @create _ kind b bytes at_ creates _ =>
      have held : b ∈ (s.posting t).held := by
        rw [at_]
        exact Multiset.mem_singleton_self b
      exact accounted.settle rfl fun rest before =>
        before.overwrite below stored held (fits t bytes.length rfl) ⟨rfl, rfl⟩
  | push at_ room => exact accounted.settle rfl ahead

/-- A watched step keeps the account of the messages. -/
theorem Watched.accounted {h' : History} {act : Act ι} (accounted : Accounted P s h)
    (below : owned s ≤ P.buffers) (stored : Stored P s) (fits : Fits P s act)
    (watched : Watched P (s, h) act (s', h')) : Accounted P s' h' := by
  cases watched with
  | recv some_ stepped =>
      cases stepped with
      | poll stepped =>
          refine stepped.accounted_recv some_ accounted fun b held => ?_
          rw [stored.length]
          have free : b ∈ owned s := by
            unfold owned spare
            simp only [Multiset.mem_add, Multiset.mem_coe, held, true_or, or_true]
          exact Params.buffer_inside (Multiset.mem_of_le below free)
  | react reacts stepped =>
      cases stepped with
      | consumer stepped => exact stepped.accounted_react accounted reacts
  | push at_ stepped =>
      cases stepped with
      | post stepped => exact stepped.accounted accounted below stored fits
  | quiet silent quiet _ stepped =>
      cases stepped with
      | poll stepped => exact stepped.accounted accounted (silent _ rfl)
      | consumer stepped => exact stepped.accounted accounted (quiet _ rfl)
      | post stepped => exact stepped.accounted accounted below stored fits

end Threads

/-! ## The answers -/

/-- The kind of message a thread is posting. -/
def PostPc.kind : PostPc → Option PostKind
  | .idle => none
  | .getBuf kind => some kind
  | .create kind _ => some kind
  | .push msg => some msg.kind

/-- The heartbeat that the consumer is posting. -/
def answering (s : State ι) : Nat := if (s.posting none).kind = some .heartbeat then 1 else 0

/-- The heartbeats the consumer pushed are those it reacted with. -/
def Answered (s : State ι) (h : History) : Prop :=
  h.pushed.count .heartbeat + answering s = h.reactions.count .heartbeat

theorem kind_setPosting {t : Option ι} {pc : PostPc}
    (same : t = none → pc.kind = (s.posting t).kind) :
    ((s.setPosting t pc).posting none).kind = (s.posting none).kind := by
  cases t with
  | none => rw [State.setPosting_posting, same rfl]
  | some i => rfl

theorem answering_setPosting {t : Option ι} {pc : PostPc}
    (same : t = none → pc.kind = (s.posting t).kind) :
    answering (s.setPosting t pc) = answering s := by
  unfold answering
  rw [kind_setPosting same]

theorem PostStep.answering {t : Option ι} {act : PostAct} (quiet : t = none → act ≠ .push)
    (stepped : PostStep P s t act s') : answering s' = answering s := by
  cases stepped with
  | start i kind idle => exact answering_setPosting nofun
  | @takeBuf _ kind b rest at_ pool =>
      exact answering_setPosting (s := { s with pool := rest }) fun _ => by rw [at_]; rfl
  | @create _ kind b bytes at_ creates fits =>
      exact answering_setPosting
        (s := { s with mem := Bytes.overwrite s.mem b bytes, seq := wrap32 (s.seq + 1) })
        fun _ => by rw [at_]; rfl
  | @push _ msg at_ room =>
      exact answering_setPosting
        (s := { s with outgoing := s.outgoing ++ [msg], posted := s.posted ++ [msg] })
        fun none_ => absurd rfl (quiet none_)

theorem ConsumerStep.answering {act : ConsumerAct} (quiet : act ≠ .reply)
    (stepped : ConsumerStep P s act s') : answering s' = answering s := by
  cases stepped with
  | reply _ _ _ => exact absurd rfl quiet
  | @subscribe msg at_ once session idle =>
      unfold Client.answering
      rw [State.setPosting_posting, idle]
      rfl
  | _ => rfl

theorem Watched.answered {h' : History} {act : Act ι} (answered : Answered s h)
    (watched : Watched P (s, h) act (s', h')) : Answered s' h' := by
  unfold Answered at answered ⊢
  cases watched with
  | recv _ stepped =>
      cases stepped with
      | poll stepped =>
          cases stepped
          exact answered
  | @react _ _ _ act reaction reacts stepped =>
      cases stepped with
      | consumer stepped =>
          rw [List.count_append, ← answered]
          by_cases reply : act = .reply
          · cases reply
            cases reacts
            cases stepped with
            | reply at_ type idle =>
                unfold answering
                rw [State.setPosting_posting, idle]
                rfl
          · rw [stepped.answering reply]
            have other : reaction ≠ .heartbeat := by
              rintro rfl
              cases act with
              | reply => exact reply rfl
              | _ => cases reacts
            rw [List.count_singleton, if_neg (by simpa using other), Nat.add_zero]
  | @push _ _ _ msg at_ stepped =>
      cases stepped with
      | post stepped =>
          cases stepped with
          | push at' room =>
              cases at_.symm.trans at'
              rw [List.count_append, List.count_singleton, ← answered]
              unfold answering
              rw [State.setPosting_posting, at_]
              cases kind : msg.kind <;> simp [PostPc.kind, kind]
  | quiet _ quiet noPush stepped =>
      rw [← answered]
      congr 1
      cases stepped with
      | poll stepped =>
          cases stepped with
          | _ => rfl
      | consumer stepped =>
          apply stepped.answering
          rintro rfl
          cases quiet _ rfl
      | post stepped =>
          apply stepped.answering
          rintro rfl rfl
          exact noPush rfl

/-! ## The session state -/

/-- The session is logged in only behind a reaction to a logon. -/
def LoggedBy (s : State ι) (h : History) : Prop := s.session = .LoggedIn → .logIn ∈ h.reactions

theorem ConsumerStep.session {act : ConsumerAct} (quiet : act ≠ .logIn)
    (stepped : ConsumerStep P s act s') : s'.session = s.session := by
  cases stepped with
  | logIn _ _ => exact absurd rfl quiet
  | _ => rfl

theorem Step.session {act : Act ι} (quiet : act ≠ .consumer .logIn)
    (stepped : Step P s act s') : s'.session = s.session := by
  cases stepped with
  | poll stepped =>
      cases stepped with
      | _ => rfl
  | consumer stepped => exact stepped.session fun same => quiet (by rw [same])
  | post stepped =>
      cases stepped with
      | _ => rfl

theorem Watched.loggedBy {h' : History} {act : Act ι} (logged : LoggedBy s h)
    (watched : Watched P (s, h) act (s', h')) : LoggedBy s' h' := by
  intro session
  cases watched with
  | recv _ stepped =>
      exact logged ((stepped.session (by intro same; cases same)).symm.trans session)
  | @react _ _ _ act reaction reacts stepped =>
      by_cases logsIn : act = .logIn
      · cases logsIn
        cases reacts
        exact List.mem_append_right _ (List.mem_singleton_self _)
      · have before := (stepped.session fun same => logsIn (by injection same)).symm.trans session
        exact List.mem_append_left _ (logged before)
  | push _ stepped =>
      exact logged ((stepped.session (by intro same; cases same)).symm.trans session)
  | quiet _ quiet _ stepped =>
      refine logged ((stepped.session ?_).symm.trans session)
      rintro rfl
      cases quiet _ rfl

/-! ## The law -/

/-- The consumer goes by the whole MsgType: its reactions are those due to the messages it
consumed, it has logged in only behind the MsgType `"A"`, and the heartbeats it pushed, with
the one it is posting, are as many as the messages with MsgType `"0"` or `"1"`. -/
structure Dispatched (s : State ι) (h : History) : Prop where
  reactions : h.reactions = h.consumed.map due
  loggedIn : s.session = .LoggedIn → ∃ m ∈ h.consumed, m.msgType = [65]
  heartbeats : h.pushed.count .heartbeat + answering s =
    (h.consumed.filter fun m => m.msgType = [48] ∨ m.msgType = [49]).length

theorem due_eq_heartbeat {m : WireMessage} :
    due m = .heartbeat ↔ m.msgType = [48] ∨ m.msgType = [49] := by
  unfold due
  split
  case isTrue type => exact ⟨fun _ => type, fun _ => rfl⟩
  case isFalse other =>
    split
    · exact ⟨nofun, fun type => absurd type other⟩
    · exact ⟨nofun, fun type => absurd type other⟩

theorem due_eq_logIn {m : WireMessage} (logsIn : due m = .logIn) : m.msgType = [65] := by
  unfold due at logsIn
  split at logsIn
  · cases logsIn
  · split at logsIn
    case isTrue type => exact type
    case isFalse => cases logsIn

/-- The type byte decides as the MsgType does exactly for plain messages. -/
theorem reactionTo_eq_due {m : WireMessage} : reactionTo m.type = due m ↔ Plain m := by
  have single (c : UInt8) : m.msgType = [c] ↔ m.type = c ∧ m.typeRest = [] := by
    rw [WireMessage.msgType, List.cons.injEq]
  by_cases short : m.typeRest = []
  · have same : reactionTo m.type = due m := by
      simp only [reactionTo, due, single, short, and_true]
    exact ⟨fun _ => .inl short, fun _ => same⟩
  · have passes : due m = .pass := by
      simp only [due, single, short, and_false, or_self, if_false]
    rw [passes]
    exact ⟨.inr, fun plain => plain.resolve_left short⟩

theorem map_eq_map_due {messages : List WireMessage} :
    messages.map (fun m => reactionTo m.type) = messages.map due ↔ ∀ m ∈ messages, Plain m := by
  rw [List.map_inj_left]
  exact forall₂_congr fun m _ => reactionTo_eq_due

variable [Fintype ι] {fd : Int}

/-- What holds of every watched run. -/
theorem watched_invariant
    (reaches : Reaches (Watched P) (FitsWatched P) (State.connected P ι fd, .start) (s, h)) :
    Accounted P s h ∧ Answered s h ∧ LoggedBy s h := by
  have start : Accounted P (State.connected P ι fd) .start :=
    ⟨[], [], [], rfl, rfl, rfl, rfl⟩
  have silent : Answered (State.connected P ι fd) .start := rfl
  have offline : LoggedBy (State.connected P ι fd) .start := by
    intro session
    cases session
  refine reaches.invariant
    (I := fun x => Accounted P x.1 x.2 ∧ Answered x.1 x.2 ∧ LoggedBy x.1 x.2)
    ⟨start, silent, offline⟩ ?_
  intro x act x' before kept fits watched
  have run := reaches_of_watched before
  obtain ⟨accounted, answered, logged⟩ := kept
  exact ⟨watched.accounted accounted (owned_le run) (stored_of_reaches run fun _ _ => id) fits,
    watched.answered answered, watched.loggedBy logged⟩

/-- In every state of every run over received messages, in any groups and with any interleaving
of the threads whose own messages fit their buffers, the consumer has gone by the whole MsgType
exactly when each message it consumed has a MsgType of one character, or one that does not begin
with `'0'`, `'1'` or `'A'`. -/
theorem dispatched_iff (P : Params) (fd : Int) (s : State ι) (h : History)
    (reaches : Reaches (Watched P) (FitsWatched P) (State.connected P ι fd, .start) (s, h)) :
    Dispatched s h ↔ ∀ m ∈ h.consumed, Plain m := by
  obtain ⟨⟨consumed, waiting, rest, received, reactions, -, -⟩, answered, logged⟩ :=
    watched_invariant reaches
  have length : h.reactions.length = consumed.length := by rw [reactions, List.length_map]
  have taken : h.consumed = consumed := by
    rw [History.consumed, received, length, List.append_assoc, List.take_left]
  rw [taken, ← map_eq_map_due, ← reactions]
  constructor
  · intro dispatched
    exact taken ▸ dispatched.reactions
  · intro whole
    constructor
    · rw [taken, whole]
    · intro session
      have logsIn := logged session
      rw [whole] at logsIn
      obtain ⟨m, member, due_⟩ := List.mem_map.mp logsIn
      exact ⟨m, taken ▸ member, due_eq_logIn due_⟩
    · rw [answered, whole, taken, List.count, List.countP_map, List.countP_eq_length_filter]
      congr 2
      funext m
      rw [Function.comp_apply, beq_eq_decide]
      exact decide_eq_decide.mpr due_eq_heartbeat

/-! ## One message -/

section Stretches

variable {x : State ι × History}

omit [Fintype ι] in
theorem poll_quiet {act : PollAct} (reaches : Reaches (Watched P) (FitsWatched P) x (s, h))
    (silent : act.receives = false) (stepped : PollStep P s act s') :
    Reaches (Watched P) (FitsWatched P) x (s', h) := by
  refine reaches.next (a := .poll act) (fits_poll P s act) (.quiet ?_
    (by intro _ same; cases same) (by intro same; cases same) (.poll stepped))
  intro poll same
  cases same
  exact silent

omit [Fintype ι] in
theorem consumer_quiet {act : ConsumerAct}
    (reaches : Reaches (Watched P) (FitsWatched P) x (s, h)) (quiet : act.reaction = none)
    (stepped : ConsumerStep P s act s') : Reaches (Watched P) (FitsWatched P) x (s', h) := by
  refine reaches.next (a := .consumer act) (fits_consumer P s act) (.quiet
    (by intro _ same; cases same) ?_ (by intro same; cases same) (.consumer stepped))
  intro consumer same
  cases same
  exact quiet

end Stretches

/-- A message with this MsgType and nothing behind it. -/
def WireMessage.short (type : UInt8) (typeRest : List UInt8) (cleanType : Clean (type :: typeRest))
    (short : (frameBody (type :: typeRest) []).length < 2 ^ 31) (check : Fin 256) :
    WireMessage where
  beginString := [70]
  type := type
  typeRest := typeRest
  rest := []
  check := check
  cleanBegin := clean_beginString
  cleanType := cleanType
  short := short
  checkLow := by omega
  checkHigh := by omega

/-- A message whose MsgType begins with `'A'` is received and consumed. -/
theorem logIn_run (m : WireMessage) (type : m.type = 65) (fits : m.bytes.length ≤ 2048) :
    ∃ s : State Empty, s.session = .LoggedIn ∧
      Reaches (Watched Lmax.sample.fixTcpClient) (FitsWatched Lmax.sample.fixTcpClient)
        (State.connected Lmax.sample.fixTcpClient Empty 3, .start) (s, ⟨[m], [.logIn], []⟩) := by
  have single : [m].flatMap WireMessage.bytes = m.bytes := List.flatMap_singleton _ _
  have length : ([m].flatMap WireMessage.bytes).length ≤ 2048 := by
    rw [single]
    exact fits
  have some_ : 1 ≤ ([m].flatMap WireMessage.bytes).length := by
    rw [single]
    exact m.bytes_length_pos
  have content : (Bytes.overwrite (List.replicate (2048 * 64) 0) 0
      ([m].flatMap WireMessage.bytes)).drop (FixMessage.new 0 ⟨0, 0⟩).begin_ =
        m.bytes ++ (List.replicate (2048 * 64) 0).drop (0 + m.bytes.length) := by
    rw [single, Bytes.overwrite]
    rfl
  have open_ : (0 : Int) < 3 := by decide
  have room : 0 < 64 := by decide
  obtain ⟨msg, -, parsed⟩ :=
    FixHandler.parse_wire 0 ([m].flatMap WireMessage.bytes).length m content
  have polled : Reaches (Watched Lmax.sample.fixTcpClient)
      (FitsWatched Lmax.sample.fixTcpClient)
      (State.connected Lmax.sample.fixTcpClient Empty 3, .start) (_, .start) :=
    poll_quiet .start rfl (.events true false rfl open_)
  have taken := poll_quiet polled rfl (.takeBuf rfl rfl)
  have received := taken.next (a := .poll (.recv _ _)) (by intro _ _ same; cases same)
    (.recv (List.cons_ne_nil m []) (.poll (.recv _ ⟨0, 0⟩ rfl some_ length)))
  have pushed := poll_quiet received rfl (.handle rfl rfl parsed fun _ => room)
  have looped := consumer_quiet pushed rfl (.loop rfl open_)
  have popped := consumer_quiet looped rfl (.pop rfl rfl)
  exact ⟨_, rfl, popped.next (a := .consumer .logIn) (by intro _ _ same; cases same)
    (.react rfl (.consumer (.logIn rfl type)))⟩

/-- `8=F|9=5|35=A|10=079|`. -/
def logon : WireMessage :=
  WireMessage.short 65 [] clean_logon short_logon 79

/-- `8=F|9=6|35=AJ|10=154|`, the QuoteResponse of `gemini_fix.xml`. -/
def quoteResponse : WireMessage :=
  WireMessage.short 65 [74] (by decide +kernel) (by decide +kernel) 154

/-- A logon, received and consumed. -/
theorem dispatched_iff_logon :
    ∃ (s : State Empty) (h : History), s.session = .LoggedIn ∧ h.consumed = [logon] ∧
      Dispatched s h := by
  obtain ⟨s, session, reaches⟩ := logIn_run logon rfl (by decide +kernel)
  refine ⟨s, _, session, rfl, (dispatched_iff Lmax.sample.fixTcpClient 3 s _ reaches).mpr ?_⟩
  intro m member
  have only : m = logon := List.mem_singleton.mp member
  exact .inl (by rw [only]; rfl)

/-- A QuoteResponse logs in. -/
theorem not_dispatched_quoteResponse :
    ¬ ∀ (s : State Empty) (h : History),
      Reaches (Watched Lmax.sample.fixTcpClient) always
        (State.connected Lmax.sample.fixTcpClient Empty 3, .start) (s, h) → Dispatched s h := by
  intro law
  obtain ⟨s, session, reaches⟩ := logIn_run quoteResponse rfl (by decide +kernel)
  obtain ⟨m, member, type⟩ := (law s _ (reaches.mono fun _ _ _ => trivial)).loggedIn session
  have only : m = quoteResponse := List.mem_singleton.mp member
  rw [only] at type
  exact absurd type (by decide)

end Client

end OpenFix
