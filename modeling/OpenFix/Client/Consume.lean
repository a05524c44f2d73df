import OpenFix.Client.Step

/-!
# The market request of `consume_in`

What `consume_in` of `lmax_cli` does with the messages it takes, one after the other. The flag
of `std::call_once` is set by the first message, whatever its type.

* `requested_iff`: when the market request follows the logon.
* `Recorded`: the steps of the client with what the consumer does in them.
* `follows_run`: the consumer of every run does what `consumeIn` says.
-/

namespace OpenFix

namespace Client

/-- What the consumer does that others see. -/
inductive Deed : Type
  | pop (msg : FixMsg)
  | post (kind : PostKind)
  | release (ptr : Nat)
  deriving DecidableEq, Repr

/-- The consumer between two statements: `broker.state`, `g_once`, and what it has done. -/
structure Consumption : Type where
  session : SessionState
  once : Bool
  deeds : List Deed
  deriving DecidableEq, Repr

namespace Consumption

def start : Consumption := ⟨.Offline, false, []⟩

def deed (c : Consumption) (d : Deed) : Consumption := { c with deeds := c.deeds ++ [d] }

/-- `consume_fix_msg`, when `try_pop` has given `msg`. -/
def consumeFixMsg (c : Consumption) (msg : FixMsg) : Consumption :=
  if msg.type = 48 ∨ msg.type = 49 then (c.deed (.pop msg)).deed (.post .heartbeat)
  else if msg.type = 65 then { c.deed (.pop msg) with session := .LoggedIn }
  else c.deed (.pop msg)

/-- `std::call_once`. -/
def callOnce (c : Consumption) : Consumption :=
  if c.once then c
  else if c.session = .LoggedIn then { c with once := true }.deed (.post .marketRequest)
  else { c with once := true }

/-- The test of `is_final`. -/
def release (c : Consumption) (msg : FixMsg) : Consumption :=
  if msg.isFinal then c.deed (.release msg.ptr) else c

/-- The body of the loop. -/
def consume (c : Consumption) (msg : FixMsg) : Consumption :=
  ((c.consumeFixMsg msg).callOnce).release msg

end Consumption

/-- `consume_in` on the messages it takes. -/
def consumeIn (msgs : List FixMsg) : Consumption := msgs.foldl .consume .start

/-- One market request when a logon was taken, none otherwise, and none in front of it. -/
structure Requested (msgs : List FixMsg) : Prop where
  once : (consumeIn msgs).deeds.count (.post .marketRequest) =
    if ∃ msg ∈ msgs, msg.type = 65 then 1 else 0
  behind : ∀ before after, (consumeIn msgs).deeds = before ++ .post .marketRequest :: after →
    ∃ msg, .pop msg ∈ before ∧ msg.type = 65

/-! ## One message -/

namespace Consumption

variable {c : Consumption} {msg : FixMsg}

theorem session_consumeFixMsg :
    (c.consumeFixMsg msg).session = if msg.type = 65 then .LoggedIn else c.session := by
  unfold consumeFixMsg
  split
  case isTrue heartbeat =>
    have other : msg.type ≠ 65 := by
      rintro logon
      rcases heartbeat with same | same <;> exact absurd (logon.symm.trans same) (by decide)
    rw [if_neg other]
    rfl
  case isFalse => split <;> rfl

theorem once_consumeFixMsg : (c.consumeFixMsg msg).once = c.once := by
  unfold consumeFixMsg
  split
  case isTrue => rfl
  case isFalse => split <;> rfl

theorem deeds_consumeFixMsg : (c.consumeFixMsg msg).deeds = c.deeds ++
    .pop msg :: if msg.type = 48 ∨ msg.type = 49 then [.post .heartbeat] else [] := by
  unfold consumeFixMsg
  split
  case isTrue => exact List.append_assoc _ _ _
  case isFalse => split <;> rfl

theorem callOnce_done (done : c.once = true) : c.callOnce = c := if_pos done

theorem callOnce_in (first : c.once = false) (session : c.session = .LoggedIn) :
    c.callOnce = { c with once := true }.deed (.post .marketRequest) := by
  rw [callOnce, if_neg (Bool.eq_false_iff.mp first), if_pos session]

theorem callOnce_out (first : c.once = false) (session : c.session ≠ .LoggedIn) :
    c.callOnce = { c with once := true } := by
  rw [callOnce, if_neg (Bool.eq_false_iff.mp first), if_neg session]

/-- What `std::call_once` comes to. -/
theorem callOnce_cases : c.callOnce.once = true ∧ c.callOnce.deeds = c.deeds ++
    if c.once = false ∧ c.session = .LoggedIn then [.post .marketRequest] else [] := by
  cases once : c.once with
  | true =>
      rw [callOnce_done once, if_neg fun first => nomatch first.1]
      exact ⟨once, (List.append_nil _).symm⟩
  | false =>
      by_cases session : c.session = .LoggedIn
      · rw [callOnce_in once session, if_pos ⟨rfl, session⟩]
        exact ⟨rfl, rfl⟩
      · rw [callOnce_out once session, if_neg fun first => session first.2, List.append_nil]
        exact ⟨rfl, rfl⟩

theorem once_release : (c.release msg).once = c.once := by
  unfold release
  split <;> rfl

theorem deeds_release :
    (c.release msg).deeds = c.deeds ++ if msg.isFinal then [.release msg.ptr] else [] := by
  unfold release
  split
  case isTrue => rfl
  case isFalse => exact (List.append_nil _).symm

theorem once_consume : (c.consume msg).once = true := once_release.trans callOnce_cases.1

/-- One message. -/
theorem deeds_consume : (c.consume msg).deeds = c.deeds ++
    .pop msg :: ((if msg.type = 48 ∨ msg.type = 49 then [.post .heartbeat] else []) ++
      (if c.once = false ∧ (msg.type = 65 ∨ c.session = .LoggedIn) then [.post .marketRequest]
        else []) ++
      if msg.isFinal then [.release msg.ptr] else []) := by
  have logged : (if msg.type = 65 then .LoggedIn else c.session) = SessionState.LoggedIn ↔
      msg.type = 65 ∨ c.session = .LoggedIn := by
    by_cases logon : msg.type = 65
    · rw [if_pos logon]
      exact iff_of_true rfl (.inl logon)
    · rw [if_neg logon, or_iff_right logon]
  rw [consume, deeds_release, callOnce_cases.2, deeds_consumeFixMsg, once_consumeFixMsg,
    session_consumeFixMsg]
  simp only [logged, List.append_assoc, List.cons_append]

/-- How often the market request was posted. -/
def requests (c : Consumption) : Nat := c.deeds.count (.post .marketRequest)

theorem requests_consume : (c.consume msg).requests = c.requests +
    if c.once = false ∧ (msg.type = 65 ∨ c.session = .LoggedIn) then 1 else 0 := by
  have heartbeat : (if msg.type = 48 ∨ msg.type = 49 then [Deed.post .heartbeat] else []).count
      (.post .marketRequest) = 0 := by
    split <;> rfl
  have released : (if msg.isFinal then [Deed.release msg.ptr] else []).count
      (.post .marketRequest) = 0 := by
    split <;> rfl
  have other : Deed.pop msg ≠ .post .marketRequest := by
    intro same
    cases same
  rw [requests, deeds_consume, List.count_append, List.count_cons_of_ne other, List.count_append,
    List.count_append, heartbeat, released, Nat.zero_add, Nat.add_zero, requests]
  split <;> rfl

/-- Behind the first message the lambda does not run. -/
theorem requests_foldl (done : c.once = true) (msgs : List FixMsg) :
    (msgs.foldl consume c).requests = c.requests := by
  induction msgs generalizing c with
  | nil => rfl
  | cons msg msgs ih =>
      rw [List.foldl_cons, ih once_consume, requests_consume, done]
      rfl

/-- What is done stays done. -/
theorem deeds_foldl (msgs : List FixMsg) :
    ∃ more, (msgs.foldl consume c).deeds = c.deeds ++ more := by
  induction msgs generalizing c with
  | nil => exact ⟨[], (List.append_nil _).symm⟩
  | cons msg msgs ih =>
      obtain ⟨more, rest⟩ := ih (c := c.consume msg)
      rw [List.foldl_cons, rest, deeds_consume, List.append_assoc]
      exact ⟨_, rfl⟩

end Consumption

/-! ## The law -/

/-- The first message decides. -/
theorem requests_consumeIn (first : FixMsg) (later : List FixMsg) :
    (consumeIn (first :: later)).requests = if first.type = 65 then 1 else 0 := by
  rw [consumeIn, List.foldl_cons, Consumption.requests_foldl Consumption.once_consume,
    Consumption.requests_consume]
  simp only [Consumption.start, true_and, reduceCtorEq, or_false]
  exact Nat.zero_add _

/-- The deeds begin with the first message. -/
theorem deeds_consumeIn (first : FixMsg) (later : List FixMsg) :
    ∃ more, (consumeIn (first :: later)).deeds = .pop first :: more := by
  obtain ⟨more, rest⟩ := Consumption.deeds_foldl (c := Consumption.start.consume first) later
  rw [consumeIn, List.foldl_cons, rest, Consumption.deeds_consume]
  exact ⟨_, rfl⟩

/-- **The market request.** It follows the logon exactly when no message is one, or the first
is. -/
theorem requested_iff (msgs : List FixMsg) :
    Requested msgs ↔ (∀ msg ∈ msgs, msg.type ≠ 65) ∨
      ∃ first later, msgs = first :: later ∧ first.type = 65 := by
  cases msgs with
  | nil =>
      refine iff_of_true ⟨rfl, fun before after split => ?_⟩ (.inl (List.forall_mem_nil _))
      exact (List.append_ne_nil_of_right_ne_nil before (List.cons_ne_nil _ _) split.symm).elim
  | cons first later =>
      have count := requests_consumeIn first later
      by_cases logon : first.type = 65
      · rw [if_pos logon] at count
        refine iff_of_true ⟨?_, fun before _ split => ?_⟩ (.inr ⟨first, later, rfl, logon⟩)
        · rw [if_pos ⟨first, List.mem_cons_self, logon⟩]
          exact count
        · obtain ⟨more, deeds⟩ := deeds_consumeIn first later
          cases before with
          | nil => cases deeds.symm.trans split
          | cons d before =>
              obtain rfl : Deed.pop first = d := (List.cons.inj (deeds.symm.trans split)).1
              exact ⟨first, List.mem_cons_self, logon⟩
      · rw [if_neg logon] at count
        constructor
        · intro requested
          refine .inl fun msg member type => ?_
          have once := requested.once
          rw [if_pos ⟨msg, member, type⟩] at once
          cases count.symm.trans once
        · rintro (none_ | ⟨_, _, same, type⟩)
          · refine ⟨?_, fun before after split => ?_⟩
            · rw [if_neg fun ⟨msg, member, type⟩ => none_ msg member type]
              exact count
            · have posted : Deed.post .marketRequest ∈ (consumeIn (first :: later)).deeds := by
                rw [split]
                exact List.mem_append_right before List.mem_cons_self
              exact (List.count_eq_zero.mp count posted).elim
          · cases same
            exact (logon type).elim

/-- A heartbeat in front of the logon. -/
theorem not_requested_heartbeat : ¬ ∀ msgs, Requested msgs := by
  intro law
  have once := (law [⟨48, 62, 0, true⟩, ⟨65, 79, 2048, true⟩]).once
  revert once
  decide +kernel

/-! ## In a run of the client -/

open Transition (Reaches)

variable {ι : Type}

/-- What the consumer does in a step. -/
def State.deeds (s : State ι) : Act ι → List Deed
  | .consumer .pop => s.inQueue.head?.toList.map .pop
  | .consumer .reply => [.post .heartbeat]
  | .consumer .subscribe => [.post .marketRequest]
  | .consumer .final =>
      match s.consumer with
      | .final msg => if msg.isFinal then [.release msg.ptr] else []
      | _ => []
  | _ => []

/-- The consumer of the client as `consumeIn` sees it. -/
def State.consumption (s : State ι) (deeds : List Deed) : Consumption where
  session := s.session
  once := s.once
  deeds := deeds

/-- Where the consumer stands, it has done what `consumeIn` does with the messages taken. -/
def Follows (s : State ι) (deeds : List Deed) : Prop :=
  ∃ msgs, match s.consumer with
    | .top | .tryPop | .done => s.consumption deeds = consumeIn msgs
    | .dispatch msg => s.consumption deeds = (consumeIn msgs).deed (.pop msg)
    | .reply msg | .once msg => s.consumption deeds = (consumeIn msgs).consumeFixMsg msg
    | .subscribe msg | .final msg =>
        s.consumption deeds = ((consumeIn msgs).consumeFixMsg msg).callOnce

/-- The steps of the client, with what the consumer has done. -/
inductive Recorded [DecidableEq ι] (P : Params) :
    State ι × List Deed → Act ι → State ι × List Deed → Prop
  | step {s s' : State ι} {deeds : List Deed} {act : Act ι} : Step P s act s' →
    Recorded P (s, deeds) act (s', deeds ++ s.deeds act)

variable {P : Params} {s s' : State ι} {deeds : List Deed}

theorem State.consumption_silent (session : s'.session = s.session) (once : s'.once = s.once) :
    s'.consumption (deeds ++ []) = s.consumption deeds := by
  unfold consumption
  rw [session, once, List.append_nil]

/-- No step of the consumer. -/
theorem Follows.same (follows : Follows s deeds) (consumer : s'.consumer = s.consumer)
    (session : s'.session = s.session) (once : s'.once = s.once) :
    Follows s' (deeds ++ []) := by
  unfold Follows
  rw [consumer, State.consumption_silent session once]
  exact follows

theorem PollStep.follows {act : PollAct} (follows : Follows s deeds)
    (stepped : PollStep P s act s') : Follows s' (deeds ++ s.deeds (.poll act)) := by
  cases stepped <;> exact follows.same rfl rfl rfl

variable [DecidableEq ι]

theorem PostStep.follows {t : Option ι} {act : PostAct} (follows : Follows s deeds)
    (stepped : PostStep P s t act s') : Follows s' (deeds ++ s.deeds (.post t act)) := by
  cases stepped <;> exact follows.same rfl rfl rfl

theorem ConsumerStep.follows {act : ConsumerAct} (follows : Follows s deeds)
    (stepped : ConsumerStep P s act s') : Follows s' (deeds ++ s.deeds (.consumer act)) := by
  obtain ⟨msgs, follows⟩ := follows
  cases stepped with
  | loop at_ _ | leave at_ _ | popEmpty at_ _ =>
      rw [at_] at follows
      exact ⟨msgs, (State.consumption_silent rfl rfl).trans follows⟩
  | @pop msg rest at_ queue =>
      have popped : s.deeds (.consumer .pop) = [.pop msg] := by rw [State.deeds, queue]; rfl
      rw [at_] at follows
      rw [popped]
      exact ⟨msgs, congrArg (Consumption.deed · (.pop msg)) follows⟩
  | @reply msg at_ type _ =>
      rw [at_] at follows
      refine ⟨msgs, (congrArg (Consumption.deed · (.post .heartbeat)) follows).trans ?_⟩
      exact (if_pos type).symm
  | @logIn msg at_ type =>
      rw [at_] at follows
      have noHeartbeat : ¬ (msg.type = 48 ∨ msg.type = 49) := by rw [type]; decide
      refine ⟨msgs, ?_⟩
      change (⟨.LoggedIn, s.once, deeds ++ []⟩ : Consumption) = _
      rw [Consumption.consumeFixMsg, if_neg noHeartbeat, if_pos type, ← follows, List.append_nil]
      rfl
  | @pass msg at_ not48 not49 not65 =>
      rw [at_] at follows
      have noHeartbeat : ¬ (msg.type = 48 ∨ msg.type = 49) := not_or.mpr ⟨not48, not49⟩
      refine ⟨msgs, ((State.consumption_silent rfl rfl).trans follows).trans ?_⟩
      rw [Consumption.consumeFixMsg, if_neg noHeartbeat, if_neg not65]
  | replied at_ _ =>
      rw [at_] at follows
      exact ⟨msgs, (State.consumption_silent rfl rfl).trans follows⟩
  | onceDone at_ done =>
      rw [at_] at follows
      refine ⟨msgs, (State.consumption_silent rfl rfl).trans ?_⟩
      rw [← follows]
      exact (Consumption.callOnce_done (c := s.consumption deeds) done).symm
  | subscribe at_ first session _ =>
      rw [at_] at follows
      refine ⟨msgs, ?_⟩
      change _ = Consumption.callOnce _
      rw [← follows, Consumption.callOnce_in (c := s.consumption deeds) first session]
      rfl
  | onceEarly at_ first session =>
      rw [at_] at follows
      refine ⟨msgs, ?_⟩
      change _ = Consumption.callOnce _
      rw [← follows, Consumption.callOnce_out (c := s.consumption deeds) first session]
      exact congrArg (Consumption.mk s.session true) (List.append_nil deeds)
  | subscribed at_ _ =>
      rw [at_] at follows
      exact ⟨msgs, (State.consumption_silent rfl rfl).trans follows⟩
  | @final msg at_ _ =>
      have released : s.deeds (.consumer .final) =
          if msg.isFinal then [.release msg.ptr] else [] := by
        rw [State.deeds, at_]
      rw [at_] at follows
      refine ⟨msgs ++ [msg], ?_⟩
      change _ = consumeIn (msgs ++ [msg])
      rw [consumeIn, List.foldl_append, released]
      change _ = ((consumeIn msgs).consumeFixMsg msg).callOnce.release msg
      rw [← follows, Consumption.release]
      split
      case isTrue => rfl
      case isFalse => exact State.consumption_silent rfl rfl

theorem Step.follows {act : Act ι} (follows : Follows s deeds) (stepped : Step P s act s') :
    Follows s' (deeds ++ s.deeds act) := by
  cases stepped with
  | poll stepped => exact stepped.follows follows
  | consumer stepped => exact stepped.follows follows
  | post stepped => exact stepped.follows follows

/-- In every run the consumer does what `consumeIn` says. -/
theorem follows_run {fd : Int} {cond : State ι × List Deed → Act ι → Prop}
    (reaches : Reaches (Recorded P) cond (State.connected P ι fd, []) (s, deeds)) :
    Follows s deeds := by
  refine reaches.invariant (I := fun x => Follows x.1 x.2) ⟨[], rfl⟩ ?_
  rintro _ act _ - follows - ⟨stepped⟩
  exact stepped.follows follows

end Client

end OpenFix
