import OpenFix.Client.Output
import OpenFix.FixClient.HandOver

/-!
# Conservation of the buffers

In runs that lose no buffer, every buffer of the pool is in exactly one place, and the
non-final entries of a buffer are behind nothing: its final entry follows them in the
queue, or its handler goes on to push it.

* `Backed`: that discipline of the entries, over the queue with the consumer's entry in front.
* `Step.backed`: a step keeps it; the handler is the only one that adds entries.
* `PollPc.Onward`: the handler works on bytes that by themselves lead it to the end of the
  read, and no other thread writes there.
* `conserved_of_careful`: the law for every run of careful steps.
-/

namespace OpenFix

namespace Client

open Transition (Reaches always)

/-- The handler has pushed entries, and no final one so far. -/
def midway (stop : Nat) : HandlerPc → Bool
  | .loop msg => msg.end_ ≠ some stop
  | .faulted _ => true
  | _ => false

/-- `poll( )` is in a handler that has pushed entries of `b`, and no final one so far. -/
def PollPc.owes (b : Nat) : PollPc → Prop
  | .handle b' len _ _ pc => b' = b ∧ midway (b' + len) pc = true
  | _ => False

/-- Every non-final entry is followed by the final one of its buffer, or that one is owed. -/
def Backed (owed : Nat → Prop) : List FixMsg → Prop
  | [] => True
  | e :: later =>
      (e.isFinal = false → (∃ f ∈ later, f.isFinal = true ∧ f.ptr = e.ptr) ∨ owed e.ptr) ∧
        Backed owed later

theorem Backed.mono {owed owed' : Nat → Prop} {entries : List FixMsg}
    (backed : Backed owed entries) (more : ∀ b, owed b → owed' b) : Backed owed' entries := by
  induction entries with
  | nil => trivial
  | cons e later ih =>
      exact ⟨fun notFinal => (backed.1 notFinal).imp id (more _), ih backed.2⟩

/-- A non-final entry of a buffer whose final one is owed. -/
theorem Backed.append_owed {owed : Nat → Prop} {entries : List FixMsg} {e : FixMsg}
    (backed : Backed owed entries) (owes : owed e.ptr) : Backed owed (entries ++ [e]) := by
  induction entries with
  | nil => exact ⟨fun _ => .inr owes, trivial⟩
  | cons d later ih =>
      refine ⟨fun notFinal => (backed.1 notFinal).imp ?_ id, ih backed.2⟩
      intro paid
      rcases paid with ⟨f, member, final⟩
      exact ⟨f, List.mem_append_left [e] member, final⟩

/-- The final entry pays what was owed for its buffer. -/
theorem Backed.append_final {owed owed' : Nat → Prop} {entries : List FixMsg} {e : FixMsg}
    (backed : Backed owed entries) (final : e.isFinal = true)
    (pays : ∀ b, owed b → b = e.ptr ∨ owed' b) : Backed owed' (entries ++ [e]) := by
  induction entries with
  | nil => exact ⟨fun notFinal => (Bool.false_ne_true (notFinal.symm.trans final)).elim, trivial⟩
  | cons d later ih =>
      refine ⟨fun notFinal => ?_, ih backed.2⟩
      rcases backed.1 notFinal with ⟨f, member, paid⟩ | owes
      · exact .inl ⟨f, List.mem_append_left [e] member, paid⟩
      · refine (pays _ owes).imp (fun same => ?_) id
        exact ⟨e, List.mem_append_right later List.mem_cons_self, final, same.symm⟩

/-! ## The handler -/

/-- A handler at the loop test holds a message marked valid. -/
def HandlerValid : HandlerPc → Prop
  | .loop msg => msg.valid = true
  | _ => True

/-- A parse leaves a message marked valid, and its entry is final exactly when nothing is
owed behind it; without an entry it faults, or rejects an object not marked valid. -/
theorem parse_backed {mem : Mem} {b len : Nat} {msg : FixMessage} {pc : HandlerPc}
    {entry : Option FixMsg} (parsed : FixHandler.Parsed mem b len msg pc entry) :
    HandlerValid pc ∧
      ((∃ e, entry = some e ∧ e.ptr = b ∧ midway (b + len) pc = !e.isFinal) ∨
        entry = none ∧ (msg.valid = true → midway (b + len) pc = true)) := by
  cases parsed with
  | fault fault => exact ⟨trivial, .inr ⟨rfl, fun _ => rfl⟩⟩
  | reject init invalid =>
      refine ⟨trivial, .inr ⟨rfl, fun valid => ?_⟩⟩
      rw [FixMessage.valid_init valid init] at invalid
      cases invalid
  | @accept msg' end_ _ valid ends =>
      refine ⟨valid, .inl ⟨_, rfl, rfl, ?_⟩⟩
      simp only [midway, ends, FixHandler.entryOf, ne_eq, Option.some.injEq, decide_not]

/-- A step of the handler. It pushes the final entry, or a non-final one while the final
one is owed, from a buffer that is not handed over; or nothing, and then what was owed stays
owed, unless it leaves its loop behind a message that ends behind the read. -/
theorem handler_entries {mem : Mem} {b len : Nat} {garbage : StackGarbage} {pc pc' : HandlerPc}
    {entry : Option FixMsg} (valid : HandlerValid pc)
    (stepped : FixHandler.Stepped mem b len garbage pc pc' entry) :
    HandlerValid pc' ∧
      ((∃ e, entry = some e ∧ e.ptr = b ∧ keeps (b + len) pc = true ∧
          midway (b + len) pc' = !e.isFinal) ∨
        entry = none ∧ (midway (b + len) pc = true →
          midway (b + len) pc' = true ∨ overshoots (b + len) pc = true)) := by
  cases stepped with
  | call parsed =>
      rcases parse_backed parsed with ⟨valid', ⟨e, some_, ptr, owes⟩ | ⟨none_, -⟩⟩
      · exact ⟨valid', .inl ⟨e, some_, ptr, rfl, owes⟩⟩
      · exact ⟨valid', .inr ⟨none_, nofun⟩⟩
  | null ends => exact ⟨trivial, .inr ⟨rfl, fun _ => .inl rfl⟩⟩
  | next i ends before parsed =>
      rcases parse_backed parsed with ⟨valid', ⟨e, some_, ptr, owes⟩ | ⟨none_, owes⟩⟩
      · refine ⟨valid', .inl ⟨e, some_, ptr, ?_, owes⟩⟩
        simp only [keeps, ends, ne_eq, Option.some.injEq, decide_eq_true_eq]
        omega
      · exact ⟨valid', .inr ⟨none_, fun _ => .inl (owes valid)⟩⟩
  | leave i ends reached =>
      refine ⟨trivial, .inr ⟨rfl, fun owes => .inr ?_⟩⟩
      simp only [midway, ends, ne_eq, Option.some.injEq, decide_eq_true_eq] at owes
      simp only [overshoots, ends, decide_eq_true_eq]
      omega
  | returned ret => exact ⟨trivial, .inr ⟨rfl, .inl⟩⟩
  | faulted fault => exact ⟨trivial, .inr ⟨rfl, .inl⟩⟩

/-- A step of a handler that does not leave its loop behind a message that ends behind the
read. -/
theorem handler_backed {mem : Mem} {b len : Nat} {garbage : StackGarbage} {pc pc' : HandlerPc}
    {entry : Option FixMsg} (valid : HandlerValid pc)
    (inside : overshoots (b + len) pc = false)
    (stepped : FixHandler.Stepped mem b len garbage pc pc' entry) :
    HandlerValid pc' ∧
      ((∃ e, entry = some e ∧ e.ptr = b ∧ midway (b + len) pc' = !e.isFinal) ∨
        entry = none ∧ (midway (b + len) pc = true → midway (b + len) pc' = true)) := by
  rcases handler_entries valid stepped with ⟨valid', ⟨e, some_, ptr, -, owes⟩ | ⟨none_, stays⟩⟩
  · exact ⟨valid', .inl ⟨e, some_, ptr, owes⟩⟩
  · refine ⟨valid', .inr ⟨none_, fun owed => (stays owed).resolve_right ?_⟩⟩
    rw [inside]
    exact Bool.false_ne_true

/-! ## The entries -/

variable {ι : Type} {P : Params} {s s' : State ι}

/-- The handler of `poll( )` is about to leave its loop behind a message that ends behind the
read. -/
def PollPc.overshoots : PollPc → Bool
  | .handle b len _ _ pc => Client.overshoots (b + len) pc
  | _ => false

/-- A handler of `poll( )` holds a message marked valid. -/
def PollPc.Valid : PollPc → Prop
  | .handle _ _ _ _ pc => HandlerValid pc
  | _ => True

theorem valid_afterIn (out : Bool) : (PollPc.afterIn out).Valid := by
  cases out
  · trivial
  · trivial

/-- The invariant of the entries. -/
structure EntriesBacked (s : State ι) : Prop where
  backed : Backed (fun b => s.poll.owes b) (s.consumer.entry ++ s.inQueue)
  valid : s.poll.Valid

/-- Outside the handler nothing is owed before a step, and the queue stays. -/
theorem EntriesBacked.move (kept : EntriesBacked s)
    (settled : ∀ b, s.poll.owes b → s'.poll.owes b) (valid : s'.poll.Valid)
    (entries : s'.consumer.entry ++ s'.inQueue = s.consumer.entry ++ s.inQueue) :
    EntriesBacked s' := by
  refine ⟨?_, valid⟩
  rw [entries]
  exact kept.backed.mono settled

theorem PollStep.backed {act : PollAct} (kept : EntriesBacked s)
    (inside : s.poll.overshoots = false) (stepped : PollStep P s act s') : EntriesBacked s' := by
  have idle {poll : PollPc} (at_ : s.poll = poll) (none_ : ∀ b, ¬ poll.owes b) (poll' : PollPc) :
      ∀ b, s.poll.owes b → poll'.owes b := by
    intro b owes
    rw [at_] at owes
    exact (none_ b owes).elim
  cases stepped with
  | error at_ _ => exact kept.move (idle at_ (fun _ => id) _) trivial rfl
  | events pollIn pollOut at_ _ =>
      refine kept.move (idle at_ (fun _ => id) _) ?_ rfl
      cases pollIn
      · exact valid_afterIn pollOut
      · trivial
  | leave at_ _ => exact kept.move (idle at_ (fun _ => id) _) trivial rfl
  | takeBuf at_ _ => exact kept.move (idle at_ (fun _ => id) _) trivial rfl
  | recv data garbage at_ _ _ => exact kept.move (idle at_ (fun _ => id) _) trivial rfl
  | recvFail at_ => exact kept.move (idle at_ (fun _ => id) _) trivial rfl
  | @handle b len out garbage pc pc' entry at_ runs handler room =>
      have valid := kept.valid
      have backed := kept.backed
      rw [at_] at valid backed inside
      rcases handler_backed valid inside (FixHandler.stepped_of_step handler) with
        ⟨valid', ⟨e, rfl, rfl, owes⟩ | ⟨rfl, owes⟩⟩
      · refine ⟨?_, valid'⟩
        rw [Option.toList, ← List.append_assoc]
        cases final : e.isFinal with
        | true => exact backed.append_final final fun c owed => .inl owed.1.symm
        | false =>
            rw [final] at owes
            exact (backed.mono fun c owed => ⟨owed.1, owes⟩).append_owed ⟨rfl, owes⟩
      · refine ⟨?_, valid'⟩
        rw [Option.toList_none, List.append_nil]
        exact backed.mono fun c owed => ⟨owed.1, owes owed.2⟩
  | @handled b len out ret garbage at_ =>
      refine kept.move (idle at_ (fun c owed => Bool.false_ne_true owed.2) _) ?_ rfl
      cases ret
      · exact valid_afterIn out
      · trivial
  | @release b next at_ _ =>
      refine kept.move (idle at_ (fun _ => id) _) ?_ rfl
      rcases next with _ | out
      · trivial
      · exact valid_afterIn out
  | popEmpty at_ _ => exact kept.move (idle at_ (fun _ => id) _) trivial rfl
  | popOut at_ _ => exact kept.move (idle at_ (fun _ => id) _) trivial rfl
  | send ret at_ _ _ => exact kept.move (idle at_ (fun _ => id) _) trivial rfl
  | sendFail at_ => exact kept.move (idle at_ (fun _ => id) _) trivial rfl
  | close at_ => exact kept.move (idle at_ (fun _ => id) _) trivial rfl

variable [DecidableEq ι]

theorem ConsumerStep.backed {act : ConsumerAct} (kept : EntriesBacked s)
    (stepped : ConsumerStep P s act s') : EntriesBacked s' := by
  have same {s' : State ι} (entries : s'.consumer.entry ++ s'.inQueue =
      s.consumer.entry ++ s.inQueue) (poll : s'.poll = s.poll) : EntriesBacked s' :=
    kept.move (fun b owes => poll ▸ owes) (poll ▸ kept.valid) entries
  cases stepped with
  | loop at_ _ => exact same (by rw [at_]; rfl) rfl
  | leave at_ _ => exact same (by rw [at_]; rfl) rfl
  | popEmpty at_ _ => exact same (by rw [at_]; rfl) rfl
  | pop at_ queue => exact same (by rw [at_, queue]; rfl) rfl
  | reply at_ _ _ => exact same (by rw [at_]; rfl) rfl
  | logIn at_ _ => exact same (by rw [at_]; rfl) rfl
  | pass at_ _ _ _ => exact same (by rw [at_]; rfl) rfl
  | replied at_ _ => exact same (by rw [at_]; rfl) rfl
  | onceDone at_ _ => exact same (by rw [at_]; rfl) rfl
  | subscribe at_ _ _ _ => exact same (by rw [at_]; rfl) rfl
  | onceEarly at_ _ _ => exact same (by rw [at_]; rfl) rfl
  | subscribed at_ _ => exact same (by rw [at_]; rfl) rfl
  | final at_ _ =>
      have backed := kept.backed
      rw [at_] at backed
      exact ⟨backed.2, kept.valid⟩

theorem PostStep.backed {t : Option ι} {act : PostAct} (kept : EntriesBacked s)
    (stepped : PostStep P s t act s') : EntriesBacked s' := by
  cases stepped with
  | start i kind idle => exact ⟨kept.backed, kept.valid⟩
  | takeBuf at_ pool => exact ⟨kept.backed, kept.valid⟩
  | create at_ creates fits => exact ⟨kept.backed, kept.valid⟩
  | push at_ room => exact ⟨kept.backed, kept.valid⟩

theorem Step.backed {act : Act ι} (kept : EntriesBacked s) (inside : s.poll.overshoots = false)
    (stepped : Step P s act s') : EntriesBacked s' := by
  cases stepped with
  | poll stepped => exact stepped.backed kept inside
  | consumer stepped => exact stepped.backed kept
  | post stepped => exact stepped.backed kept

/-! ## The bytes of the handler -/

/-- The handler that has not handed its buffer over works on bytes that lead it there by
themselves. -/
def PollPc.Onward (P : Params) (mem : Mem) : PollPc → Prop
  | .handle b len _ garbage pc =>
      keeps (b + len) pc = true → FixHandler.Onward (Bytes.slice mem b P.bufSize) b len garbage pc
  | _ => True

omit [DecidableEq ι] in
theorem onward_afterIn (mem : Mem) (out : Bool) : (PollPc.afterIn out).Onward P mem := by
  cases out
  · trivial
  · trivial

omit [DecidableEq ι] in
/-- The buffer is in the allocation. -/
theorem slice_prefix_drop (mem : Mem) (b : Nat) : Bytes.slice mem b P.bufSize <+: mem.drop b :=
  List.take_prefix _ _

omit [DecidableEq ι] in
/-- On such bytes no message ends behind the read. -/
theorem PollPc.Onward.inside {mem : Mem} {poll : PollPc} (onward : poll.Onward P mem) :
    poll.overshoots = false := by
  cases poll with
  | handle b len out garbage pc =>
      cases pc with
      | loop msg =>
          cases ends : msg.end_ with
          | none => simp only [overshoots, Client.overshoots, ends]
          | some e =>
              simp only [overshoots, Client.overshoots, ends, decide_eq_false_iff_not]
              by_cases last : e = b + len
              · omega
              · have kept : keeps (b + len) (.loop msg) = true := by
                  simp only [keeps, ends, ne_eq, Option.some.injEq, last, not_false_eq_true,
                    decide_true]
                obtain ⟨-, i, ends', rest⟩ := onward kept
                cases ends.symm.trans ends'
                cases rest with
                | here => omega
                | next before _ _ => omega
      | _ => rfl
  | _ => rfl

/-- A step that drops no buffer: `send` does not fail, a message that is created fits its
buffer, and a read leaves bytes in its buffer that by themselves hold no message at their start,
or lead from it to the end of the read. -/
structure Careful (P : Params) (s : State ι) (act : Act ι) : Prop where
  sends : ∀ msg, s.poll = .send msg → act ≠ .poll .sendFail
  fits : Fits P s act
  reads : ∀ b out data garbage, s.poll = .read b out → act = .poll (.recv data garbage) →
    FixHandler.Complete (Bytes.slice (Bytes.overwrite s.mem b data) b P.bufSize) data.length
      garbage

omit [DecidableEq ι] in
theorem PollStep.onward {act : PollAct} (onward : s.poll.Onward P s.mem)
    (careful : Careful P s (.poll act)) (stepped : PollStep P s act s') :
    s'.poll.Onward P s'.mem := by
  cases stepped with
  | events pollIn pollOut at_ _ =>
      cases pollIn
      · exact onward_afterIn s.mem pollOut
      · trivial
  | @recv b out data garbage at_ _ _ => exact fun _ => careful.reads b out data garbage at_ rfl
  | @handle b len out garbage pc pc' entry at_ runs handler room =>
      intro kept'
      have account := handler_ledger runs (FixHandler.stepped_of_step handler)
      rw [if_pos kept'] at account
      have kept : keeps (b + len) pc = true := by
        by_contra gave
        rw [if_neg gave] at account
        cases account
      rw [at_] at onward
      exact (onward kept).step (slice_prefix_drop s.mem b) handler
  | @handled b len out ret garbage at_ =>
      cases ret
      · exact onward_afterIn s.mem out
      · trivial
  | @release b next at_ _ =>
      rcases next with _ | out
      · trivial
      · exact onward_afterIn s.mem out
  | _ => trivial

section Threads

variable [Fintype ι]

/-- A thread that creates a message does not write into the buffer of the handler. -/
theorem PostStep.onward {t : Option ι} {act : PostAct} (onward : s.poll.Onward P s.mem)
    (below : owned s ≤ P.buffers) (length : s.mem.length = P.bufSize * P.bufpoolSize)
    (fits : Fits P s (.post t act)) (stepped : PostStep P s t act s') :
    s'.poll.Onward P s'.mem := by
  cases stepped with
  | start i kind idle => exact onward
  | takeBuf at_ pool => exact onward
  | @create _ kind c bytes at_ creates _ =>
      have small := fits t bytes.length rfl
      change s.poll.Onward P (Bytes.overwrite s.mem c bytes)
      cases poll : s.poll with
      | handle b len out garbage pc =>
          rw [poll] at onward
          intro kept
          have polled : b ∈ s.poll.held := by
            rw [poll, PollPc.held, if_pos kept]
            exact List.mem_singleton_self b
          have created : c ∈ (s.posting t).held := by
            rw [at_]
            exact Multiset.mem_singleton_self c
          rcases held_apart below polled created with ⟨memberB, memberC, different⟩
          have inside := Params.buffer_inside memberC
          rw [Bytes.slice_overwrite_of_disjoint (by omega)]
          · exact onward kept
          · rcases Params.buffers_disjoint memberB memberC different with left | right
            · exact .inl (by omega)
            · exact .inr (by omega)
      | _ => trivial
  | push at_ room => exact onward

theorem Step.onward {act : Act ι} (onward : s.poll.Onward P s.mem) (below : owned s ≤ P.buffers)
    (length : s.mem.length = P.bufSize * P.bufpoolSize) (careful : Careful P s act)
    (stepped : Step P s act s') : s'.poll.Onward P s'.mem := by
  cases stepped with
  | poll stepped => exact stepped.onward onward careful
  | consumer stepped =>
      cases stepped with
      | _ => exact onward
  | post stepped => exact stepped.onward onward below length careful.fits

end Threads

/-- `poll( )` is in a handler that goes on to push the final entry of `b`. -/
def PollPc.finishes (mem : Mem) (b : Nat) : PollPc → Prop
  | .handle b' len _ garbage pc => b' = b ∧ FixHandler.Finishes mem b' len garbage pc
  | _ => False

variable [Fintype ι]

/-- Every buffer is in exactly one place: in the pool, in one outgoing message, handed over
by one final entry, or with one thread. The handler that has one goes on to hand it over, and no
entry refers to a buffer that is given back before it. -/
structure Conserved (P : Params) (s : State ι) : Prop where
  once : ∀ b ∈ P.buffers, (owned s).count b = 1
  only : ∀ b ∈ owned s, b ∈ P.buffers
  settles : ∀ b len out garbage pc, s.poll = .handle b len out garbage pc →
    keeps (b + len) pc = true → FixHandler.Settles s.mem b len garbage pc
  backed : Backed (fun b => s.poll.finishes s.mem b) (s.consumer.entry ++ s.inQueue)

omit [DecidableEq ι] [Fintype ι] in
/-- What is owed, the handler goes on to push. -/
theorem PollPc.Onward.finishes {mem : Mem} {poll : PollPc} (onward : poll.Onward P mem) {b : Nat}
    (owes : poll.owes b) : poll.finishes mem b := by
  cases poll with
  | handle b' len out garbage pc =>
      obtain ⟨rfl, owes⟩ := owes
      refine ⟨rfl, ?_⟩
      cases pc with
      | loop msg =>
          have some_ : msg.end_ ≠ some (b' + len) := of_decide_eq_true owes
          exact (onward owes).finishes (slice_prefix_drop mem b') some_
      | faulted fault => exact (onward rfl).elim
      | _ => cases owes
  | _ => exact owes.elim

omit [DecidableEq ι] [Fintype ι] in
theorem PollPc.Onward.settles {mem : Mem} {b len : Nat} {out : Bool} {garbage : StackGarbage}
    {pc : HandlerPc} (onward : (PollPc.handle b len out garbage pc).Onward P mem)
    (kept : keeps (b + len) pc = true) : FixHandler.Settles mem b len garbage pc := by
  have bytes := onward kept
  cases pc with
  | call => exact FixHandler.settles_of_complete bytes (slice_prefix_drop mem b)
  | loop msg => exact .finishes (bytes.finishes (slice_prefix_drop mem b) (of_decide_eq_true kept))
  | returned ret =>
      cases (kept : ret = true)
      exact .returned
  | faulted fault => exact bytes.elim

end Client

end OpenFix
