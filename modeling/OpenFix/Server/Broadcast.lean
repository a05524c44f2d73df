import OpenFix.Server.Buffers

/-!
# One message for all clients

The loop over the clients calls `on_out` and `write` for each entry, and at a failing write
erases the entry of the outer scan from the vector it ranges over.

* `deliveries`: what each client is due.
* `sweep`: the loop over clients whose writes do not fail.
* `delivered_of_settled`: every client gets its due if no write fails, or the client scanned is
  the first whose write fails and at most one stands behind it.
* `settled_of_delivered`: and in no other case. What the first failure leaves, the rest of the
  loop does not repair.
-/

namespace OpenFix

namespace Server

open Transition (Reaches Determined Final always)

variable {η : Type}

/-- What a message does at a client. -/
inductive Delivery : Type
  | filtered
  | sent
  | failed
  deriving DecidableEq, Repr

/-- The events of it, the latest first. -/
def Delivery.events (bytes : List UInt8) (fd : Int) : Delivery → List Event
  | .filtered => [.out fd false]
  | .sent => [.write fd bytes true, .out fd true]
  | .failed => [.close fd, .write fd bytes false, .out fd true]

/-- At a client with `fd`, where `fails` are the clients whose write fails. -/
def delivery (H : Handler η) (msg : TaggedTcpMsg) (fails : Int → Bool) (handler : η)
    (fd : Int) : Delivery :=
  match (H.onOut handler { msg with fd }).2, fails fd with
  | false, _ => .filtered
  | true, false => .sent
  | true, true => .failed

/-- The handler behind `on_out` for each of `cs`. -/
def asked (H : Handler η) (msg : TaggedTcpMsg) (handler : η) (cs : List PollFd) : η :=
  cs.foldl (fun handler c => (H.onOut handler { msg with fd := c.fd }).1) handler

/-- What each of `cs` is due, in order. -/
def deliveries (H : Handler η) (msg : TaggedTcpMsg) (fails : Int → Bool) :
    η → List PollFd → List (PollFd × Delivery)
  | _, [] => []
  | handler, c :: cs =>
      (c, delivery H msg fails handler c.fd) ::
        deliveries H msg fails (H.onOut handler { msg with fd := c.fd }).1 cs

/-- The log behind `due`. -/
def record (bytes : List UInt8) (due : List (PollFd × Delivery)) (log : List Event) :
    List Event :=
  due.foldl (fun log x => x.2.events bytes x.1.fd ++ log) log

/-- The clients whose write does not fail. -/
def survivors (due : List (PollFd × Delivery)) : List PollFd :=
  (due.filter fun x => x.2 ≠ .failed).map (·.1)

/-- `run( )` has popped a message for all clients at the POLLOUT of the client `j` of `cs`, and
every client is open. -/
structure Popped (P : Params) (s : State η) (msg : TaggedTcpMsg) (listener : PollFd)
    (cs : List PollFd) (j : Nat) : Prop where
  pc : s.pc = .broadcast (j + 1) msg 0 []
  pollfds : s.pollfds = listener :: cs
  listening : listener.fd = P.fd
  distinct : s.fds.Nodup
  open_ : ∀ c ∈ cs, c.fd ∈ s.sockets
  scanned : j < cs.length
  room : s.bufpool.length < P.bufPoolSize

/-- The message is handled: every client got its due in order, those whose write failed and no
others are closed and gone, and the buffer is released. -/
structure Delivered (msg : TaggedTcpMsg) (listener : PollFd) (j : Nat)
    (due : List (PollFd × Delivery)) (s s' : State η) : Prop where
  pc : s'.pc = .scan (j + 2)
  log : s'.log = .release msg.buf :: record (s.bytes msg) due s.log
  pollfds : s'.pollfds = listener :: survivors due
  bufpool : s'.bufpool = s.bufpool ++ [msg.buf]

/-- No write fails, or the first to fail is at the client scanned and at most one stands behind
it. -/
def Settled (due : List (PollFd × Delivery)) (j : Nat) : Prop :=
  (∀ x ∈ due, x.2 ≠ .failed) ∨
    ((∀ x ∈ due.take j, x.2 ≠ .failed) ∧ (∃ x ∈ due[j]?, x.2 = .failed) ∧ due.length ≤ j + 2)

/-! ## The loop -/

/-- The steps of the loop over the clients, and `release_buf` behind it. -/
def Act.delivers : Act → Bool
  | .broadcastEnd => true
  | .listener => true
  | .accepted => true
  | .filter => true
  | .writeTo => true
  | .writeToFail => true
  | .eraseEnd => true
  | .release => true
  | _ => false

def Act.fails : Act → Option Bool
  | .writeTo => some false
  | .writeToFail => some true
  | .eraseEnd => some true
  | _ => none

/-- The client that is written to. -/
def State.target (s : State η) : Option Int :=
  match s.pc with
  | .writeTo _ _ k stale => (slots s.pollfds stale)[k]?.map (·.fd)
  | _ => none

/-- The message is being handled, and the writes that fail are those to `fails`. -/
def Agrees (fails : Int → Bool) (s : State η) (act : Act) : Prop :=
  act.delivers = true ∧ ∀ failed ∈ act.fails, ∀ fd ∈ s.target, fails fd = failed

variable {H : Handler η} {P : Params} {fails : Int → Bool} {s s' : State η} {act : Act}

theorem State.target_eq {i k : Nat} {msg : TaggedTcpMsg} {stale : List PollFd} {c : PollFd}
    (at_ : s.pc = .writeTo i msg k stale) (entry : (slots s.pollfds stale)[k]? = some c) :
    s.target = some c.fd := by
  simp only [target, at_, entry, Option.map_some]

/-- The state behind the step that agrees with `fails`. -/
def State.onward (H : Handler η) (P : Params) (fails : Int → Bool) (s : State η) : State η :=
  match s.pc with
  | .broadcast i msg k stale =>
      match (slots s.pollfds stale)[k]? with
      | none => s.goto (.release msg.buf (.next i))
      | some c =>
          if c.fd = P.fd then s.goto (.broadcast i msg (k + 1) stale)
          else
            match H.onOut s.handler { msg with fd := c.fd } with
            | (handler, true) =>
                { s with handler := handler, pc := .writeTo i msg k stale }.emit (.out c.fd true)
            | (handler, false) =>
                { s with handler := handler, pc := .broadcast i msg (k + 1) stale }.emit
                  (.out c.fd false)
  | .writeTo i msg k stale =>
      match (slots s.pollfds stale)[k]? with
      | none => s
      | some c =>
          if fails c.fd = false then
            (s.emit (.write c.fd (s.bytes msg) true)).goto (.broadcast i msg (k + 1) stale)
          else if i < s.pollfds.length then
            (((s.emit (.write c.fd (s.bytes msg) false)).close c.fd).erase i).goto
              (.broadcast i msg (k + 1) (staleBehind s.pollfds stale))
          else ((s.emit (.write c.fd (s.bytes msg) false)).close c.fd).goto (.faulted msg)
  | .release b next =>
      { s with bufpool := s.bufpool ++ [b], pc := next.pc, log := .release b :: s.log }
  | _ => s

theorem Step.eq_onward (agrees : Agrees fails s act) (stepped : Step H P s act s') :
    s' = s.onward H P fails := by
  cases stepped with
  | broadcastEnd at_ past => simp only [State.onward, at_, List.getElem?_eq_none past]
  | listener at_ entry own => simp only [State.onward, at_, entry, if_pos own]
  | accepted at_ entry other answer =>
      simp only [State.onward, at_, entry, if_neg other]
      rw [answer]
  | filter at_ entry other answer =>
      simp only [State.onward, at_, entry, if_neg other]
      rw [answer]
  | writeTo at_ entry _ =>
      have works := agrees.2 false rfl _ (State.target_eq at_ entry)
      simp only [State.onward, at_, entry, if_pos works]
  | writeToFail at_ entry bound =>
      have broken := agrees.2 true rfl _ (State.target_eq at_ entry)
      simp only [State.onward, at_, entry, broken, if_pos bound, Bool.true_eq_false, if_false]
  | eraseEnd at_ entry past =>
      have broken := agrees.2 true rfl _ (State.target_eq at_ entry)
      simp only [State.onward, at_, entry, broken, if_neg (Nat.not_lt.mpr past), Bool.true_eq_false,
        if_false]
  | release at_ _ => simp only [State.onward, at_]
  | _ => cases agrees.1

theorem agrees_determined : Determined (Step H P) (Agrees fails) := by
  intro s a s₁ b s₂ agrees₁ step₁ agrees₂ step₂
  rw [step₁.eq_onward agrees₁, step₂.eq_onward agrees₂]

/-- Back in the scan the message is handled. -/
theorem agrees_final {i : Nat} (pc : s.pc = .scan i) : Final (Step H P) (Agrees fails) s := by
  intro act s' agrees stepped
  cases stepped with
  | broadcastEnd at_ => cases pc.symm.trans at_
  | listener at_ => cases pc.symm.trans at_
  | accepted at_ => cases pc.symm.trans at_
  | filter at_ => cases pc.symm.trans at_
  | writeTo at_ => cases pc.symm.trans at_
  | writeToFail at_ => cases pc.symm.trans at_
  | eraseEnd at_ => cases pc.symm.trans at_
  | release at_ => cases pc.symm.trans at_
  | _ => cases agrees.1

/-! ## One client -/

section Visit

variable {i k : Nat} {msg : TaggedTcpMsg} {stale : List PollFd} {c : PollFd}

theorem Agrees.of_none (delivers : act.delivers = true) (silent : act.fails = none) :
    Agrees fails s act := by
  refine ⟨delivers, ?_⟩
  intro failed some_
  rw [silent] at some_
  cases some_

/-- A write that is as `fails` says. -/
theorem Agrees.of_target {failed : Bool} (delivers : act.delivers = true)
    (outcome : act.fails = some failed) (at_ : s.pc = .writeTo i msg k stale)
    (entry : (slots s.pollfds stale)[k]? = some c) (same : fails c.fd = failed) :
    Agrees fails s act := by
  refine ⟨delivers, ?_⟩
  intro failed' some_ fd target
  rw [outcome] at some_
  cases some_
  cases (State.target_eq at_ entry).symm.trans target
  exact same

theorem delivery_filtered {handler : η} {fd : Int}
    (answer : (H.onOut handler { msg with fd }).2 = false) :
    delivery H msg fails handler fd = .filtered := by
  unfold delivery
  rw [answer]

theorem delivery_sent {handler : η} {fd : Int}
    (answer : (H.onOut handler { msg with fd }).2 = true) (works : fails fd = false) :
    delivery H msg fails handler fd = .sent := by
  unfold delivery
  rw [answer, works]

theorem of_delivery_failed {handler : η} {fd : Int}
    (failed : delivery H msg fails handler fd = .failed) :
    (H.onOut handler { msg with fd }).2 = true ∧ fails fd = true := by
  unfold delivery at failed
  split at failed
  case h_1 => cases failed
  case h_2 => cases failed
  case h_3 answer broken => exact ⟨answer, broken⟩

/-- A client whose write does not fail. -/
theorem visit (at_ : s.pc = .broadcast i msg k stale)
    (entry : (slots s.pollfds stale)[k]? = some c) (client : c.fd ≠ P.fd)
    (works : delivery H msg fails s.handler c.fd ≠ .failed) (open_ : c.fd ∈ s.sockets) :
    Reaches (Step H P) (Agrees fails) s
      { s with
        handler := (H.onOut s.handler { msg with fd := c.fd }).1
        log := (delivery H msg fails s.handler c.fd).events (s.bytes msg) c.fd ++ s.log
        pc := .broadcast i msg (k + 1) stale } := by
  obtain ⟨handler, accepted, answer⟩ :
      ∃ handler accepted, H.onOut s.handler { msg with fd := c.fd } = (handler, accepted) :=
    ⟨_, _, rfl⟩
  cases accepted with
  | false =>
      rw [delivery_filtered (congrArg Prod.snd answer), answer]
      exact Reaches.start.next (.of_none rfl rfl) (.filter at_ entry client answer)
  | true =>
      cases outcome : fails c.fd with
      | false =>
          rw [delivery_sent (congrArg Prod.snd answer) outcome, answer]
          have asked : Reaches (Step H P) (Agrees fails) s _ :=
            Reaches.start.next (.of_none rfl rfl) (.accepted at_ entry client answer)
          exact asked.next (.of_target rfl rfl rfl entry outcome) (.writeTo rfl entry open_)
      | true =>
          have failed : delivery H msg fails s.handler c.fd = .failed := by
            unfold delivery
            rw [answer, outcome]
          exact absurd failed works

/-- A client whose write fails. -/
theorem visit_failed (at_ : s.pc = .broadcast i msg k stale)
    (entry : (slots s.pollfds stale)[k]? = some c) (client : c.fd ≠ P.fd)
    (failed : delivery H msg fails s.handler c.fd = .failed) (open_ : c.fd ∈ s.sockets)
    (bound : i < s.pollfds.length) :
    Reaches (Step H P) (Agrees fails) s
      { s with
        handler := (H.onOut s.handler { msg with fd := c.fd }).1
        log := (delivery H msg fails s.handler c.fd).events (s.bytes msg) c.fd ++ s.log
        sockets := s.sockets.erase c.fd
        pollfds := s.pollfds.eraseIdx i
        pc := .broadcast i msg (k + 1) (staleBehind s.pollfds stale) } := by
  obtain ⟨answer, broken⟩ := of_delivery_failed failed
  have asked : Reaches (Step H P) (Agrees fails) s _ :=
    Reaches.start.next (.of_none rfl rfl) (.accepted at_ entry client (Prod.ext rfl answer))
  have written := asked.next (.of_target rfl rfl rfl entry broken) (.writeToFail rfl entry bound)
  simp only [State.emit, State.close, State.erase, State.goto, open_, if_true] at written
  rw [failed]
  exact written

/-- Clients whose writes do not fail, one after the other. -/
theorem sweep {cs tail : List PollFd} (at_ : s.pc = .broadcast i msg k stale)
    (ahead : (slots s.pollfds stale).drop k = cs ++ tail) (clients : ∀ c ∈ cs, c.fd ≠ P.fd)
    (works : ∀ x ∈ deliveries H msg fails s.handler cs, x.2 ≠ .failed)
    (open_ : ∀ c ∈ cs, c.fd ∈ s.sockets) :
    Reaches (Step H P) (Agrees fails) s
      { s with
        handler := asked H msg s.handler cs
        log := record (s.bytes msg) (deliveries H msg fails s.handler cs) s.log
        pc := .broadcast i msg (k + cs.length) stale } := by
  induction cs generalizing s k with
  | nil =>
      have same : s = { s with pc := .broadcast i msg k stale } := by
        rw [← at_]
      exact same ▸ .start
  | cons c cs ih =>
      have entry : (slots s.pollfds stale)[k]? = some c := by
        rw [← List.head?_drop, ahead]
        rfl
      have behind : (slots s.pollfds stale).drop (k + 1) = cs ++ tail := by
        rw [← List.tail_drop, ahead]
        rfl
      have visited := visit at_ entry (clients c List.mem_cons_self)
        (works _ List.mem_cons_self) (open_ c List.mem_cons_self)
      have length : k + (c :: cs).length = k + 1 + cs.length := by
        rw [List.length_cons, Nat.add_comm cs.length, Nat.add_assoc]
      rw [length]
      refine visited.trans (ih ?_ ?_ ?_ ?_ ?_)
      · rfl
      · exact behind
      · intro c member
        exact clients c (List.mem_cons_of_mem _ member)
      · intro x member
        exact works x (List.mem_cons_of_mem _ member)
      · intro c member
        exact open_ c (List.mem_cons_of_mem _ member)

/-- Behind the last slot. -/
theorem finish (at_ : s.pc = .broadcast i msg k stale)
    (past : (slots s.pollfds stale).length ≤ k) (room : s.bufpool.length < P.bufPoolSize) :
    Reaches (Step H P) (Agrees fails) s
      { s with
        bufpool := s.bufpool ++ [msg.buf]
        log := .release msg.buf :: s.log
        pc := .scan (i + 1) } := by
  have ended : Reaches (Step H P) (Agrees fails) s _ :=
    Reaches.start.next (.of_none rfl rfl) (.broadcastEnd at_ past)
  have released : Step H P (s.goto (.release msg.buf (.next i))) .release _ := .release rfl room
  exact ended.next (.of_none rfl rfl) released

end Visit

/-! ## What is due -/

section Due

variable {msg : TaggedTcpMsg} {handler : η} {bytes : List UInt8} {cs before after : List PollFd}

theorem deliveries_append (handler : η) (before after : List PollFd) :
    deliveries H msg fails handler (before ++ after) =
      deliveries H msg fails handler before ++
        deliveries H msg fails (asked H msg handler before) after := by
  induction before generalizing handler with
  | nil => rfl
  | cons c before ih => exact congrArg (List.cons _) (ih _)

theorem deliveries_map (handler : η) (cs : List PollFd) :
    (deliveries H msg fails handler cs).map (·.1) = cs := by
  induction cs generalizing handler with
  | nil => rfl
  | cons c cs ih => exact congrArg (List.cons c) (ih _)

theorem deliveries_length (handler : η) (cs : List PollFd) :
    (deliveries H msg fails handler cs).length = cs.length := by
  rw [← List.length_map, deliveries_map]

theorem record_append (bytes : List UInt8) (first rest : List (PollFd × Delivery))
    (log : List Event) :
    record bytes (first ++ rest) log = record bytes rest (record bytes first log) :=
  List.foldl_append ..

theorem survivors_append (first rest : List (PollFd × Delivery)) :
    survivors (first ++ rest) = survivors first ++ survivors rest := by
  unfold survivors
  rw [List.filter_append, List.map_append]

theorem survivors_subset (due : List (PollFd × Delivery)) : survivors due ⊆ due.map (·.1) :=
  (List.filter_sublist.map _).subset

/-- Nobody fails, and everybody stays. -/
theorem survivors_of_works {due : List (PollFd × Delivery)} (works : ∀ x ∈ due, x.2 ≠ .failed) :
    survivors due = due.map (·.1) := by
  unfold survivors
  rw [List.filter_eq_self.mpr]
  intro x member
  exact decide_eq_true (works x member)

/-- The first client whose write fails, if there is one. -/
theorem first_failed (H : Handler η) (msg : TaggedTcpMsg) (fails : Int → Bool) (handler : η)
    (cs : List PollFd) :
    (∀ x ∈ deliveries H msg fails handler cs, x.2 ≠ .failed) ∨
      ∃ before c after, cs = before ++ c :: after ∧
        (∀ x ∈ deliveries H msg fails handler before, x.2 ≠ .failed) ∧
        delivery H msg fails (asked H msg handler before) c.fd = .failed := by
  induction cs generalizing handler with
  | nil => exact .inl (List.forall_mem_nil _)
  | cons c cs ih =>
      by_cases failed : delivery H msg fails handler c.fd = .failed
      · exact .inr ⟨[], c, cs, rfl, List.forall_mem_nil _, failed⟩
      · rcases ih (H.onOut handler { msg with fd := c.fd }).1 with works | split
        · refine .inl ?_
          intro x member
          rcases List.mem_cons.mp member with rfl | later
          · exact failed
          · exact works x later
        · obtain ⟨before, d, after, rfl, works, failed'⟩ := split
          refine .inr ⟨c :: before, d, after, rfl, ?_, failed'⟩
          intro x member
          rcases List.mem_cons.mp member with rfl | later
          · exact failed
          · exact works x later

end Due

/-! ## Up to the first failure -/

variable {msg : TaggedTcpMsg} {listener c : PollFd} {cs before after rest : List PollFd} {j : Nat}

theorem Popped.client (popped : Popped P s msg listener cs j) : ∀ c ∈ cs, c.fd ≠ P.fd := by
  have distinct := popped.distinct
  unfold State.fds at distinct
  rw [popped.pollfds, List.map_cons, List.nodup_cons, popped.listening] at distinct
  intro c member same
  exact distinct.1 (same ▸ List.mem_map_of_mem member)

/-- No other client has the descriptor of `c`. -/
theorem Popped.apart (popped : Popped P s msg listener (before ++ c :: after) j) :
    ∀ d ∈ before ++ after, d.fd ≠ c.fd := by
  have distinct := popped.distinct
  unfold State.fds at distinct
  rw [popped.pollfds, List.map_cons, List.map_append, List.map_cons] at distinct
  have clients := List.nodup_middle.mp (List.nodup_cons.mp distinct).2
  rw [← List.map_append] at clients
  intro d member same
  exact (List.nodup_cons.mp clients).1 (same ▸ List.mem_map_of_mem member)

/-- The listening socket, and the clients before `rest`. -/
theorem Popped.sweep (popped : Popped P s msg listener (before ++ rest) j)
    (works : ∀ x ∈ deliveries H msg fails s.handler before, x.2 ≠ .failed) :
    Reaches (Step H P) (Agrees fails) s
      { s with
        handler := asked H msg s.handler before
        log := record (s.bytes msg) (deliveries H msg fails s.handler before) s.log
        pc := .broadcast (j + 1) msg (1 + before.length) [] } := by
  have first : (slots s.pollfds [])[0]? = some listener := by
    rw [slots, List.append_nil, popped.pollfds]
    rfl
  have passed : Reaches (Step H P) (Agrees fails) s (s.goto (.broadcast (j + 1) msg 1 [])) :=
    Reaches.start.next (.of_none rfl rfl) (.listener popped.pc first popped.listening)
  have ahead : (slots s.pollfds []).drop 1 = before ++ rest := by
    rw [slots, List.append_nil, popped.pollfds]
    rfl
  refine passed.trans (Server.sweep rfl ahead ?_ works ?_)
  · intro c member
    exact popped.client c (List.mem_append_left _ member)
  · intro c member
    exact popped.open_ c (List.mem_append_left _ member)

/-- Behind the failing write to `c`. -/
def State.dropped (s : State η) (H : Handler η) (fails : Int → Bool) (msg : TaggedTcpMsg)
    (before : List PollFd) (c : PollFd) (j : Nat) : State η :=
  { s with
    handler := asked H msg s.handler (before ++ [c])
    log := record (s.bytes msg) (deliveries H msg fails s.handler (before ++ [c])) s.log
    sockets := s.sockets.erase c.fd
    pollfds := s.pollfds.eraseIdx (j + 1)
    pc := .broadcast (j + 1) msg (1 + before.length + 1) (staleBehind s.pollfds []) }

theorem Popped.dropped (popped : Popped P s msg listener (before ++ c :: after) j)
    (works : ∀ x ∈ deliveries H msg fails s.handler before, x.2 ≠ .failed)
    (failed : delivery H msg fails (asked H msg s.handler before) c.fd = .failed) :
    Reaches (Step H P) (Agrees fails) s (s.dropped H fails msg before c j) := by
  have member : c ∈ before ++ c :: after := List.mem_append_right _ List.mem_cons_self
  have entry : (slots s.pollfds [])[1 + before.length]? = some c := by
    rw [slots, List.append_nil, popped.pollfds, Nat.add_comm, List.getElem?_cons_succ,
      List.getElem?_append_right (Nat.le_refl _), Nat.sub_self]
    rfl
  have bound : j + 1 < s.pollfds.length := by
    rw [popped.pollfds, List.length_cons]
    exact Nat.succ_lt_succ popped.scanned
  unfold State.dropped
  rw [deliveries_append, record_append]
  unfold asked
  rw [List.foldl_append]
  exact (popped.sweep works).trans
    (visit_failed rfl entry (popped.client c member) failed (popped.open_ c member) bound)

/-! ## When every client gets its due -/

theorem delivered_of_works (popped : Popped P s msg listener cs j)
    (works : ∀ x ∈ deliveries H msg fails s.handler cs, x.2 ≠ .failed) :
    ∃ s', Reaches (Step H P) (Agrees fails) s s' ∧
      Delivered msg listener j (deliveries H msg fails s.handler cs) s s' := by
  have whole : Popped P s msg listener (cs ++ []) j := by
    rw [List.append_nil]
    exact popped
  have past : (slots s.pollfds []).length ≤ 1 + cs.length := by
    rw [slots, List.append_nil, popped.pollfds, List.length_cons, Nat.add_comm]
  refine ⟨_, (whole.sweep works).trans (finish rfl past popped.room), rfl, rfl, ?_, rfl⟩
  rw [survivors_of_works works, deliveries_map]
  exact popped.pollfds

/-- The failing client is the one scanned: its own entry is erased. -/
theorem Popped.dropped_pollfds
    (popped : Popped P s msg listener (before ++ c :: after) before.length) :
    (s.dropped H fails msg before c before.length).pollfds = listener :: (before ++ after) := by
  unfold State.dropped
  rw [popped.pollfds, List.eraseIdx_cons_succ, Erase.eraseIdx_middle]

theorem survivors_failed (c : PollFd) (due : List (PollFd × Delivery)) :
    survivors ((c, .failed) :: due) = survivors due :=
  rfl

theorem deliveries_failed
    (failed : delivery H msg fails (asked H msg s.handler before) c.fd = .failed) :
    deliveries H msg fails s.handler (before ++ [c]) =
      deliveries H msg fails s.handler before ++ [(c, .failed)] := by
  rw [deliveries_append, ← failed]
  rfl

/-- The client scanned is the first whose write fails, and nobody stands behind it. -/
theorem delivered_of_last (popped : Popped P s msg listener (before ++ [c]) before.length)
    (works : ∀ x ∈ deliveries H msg fails s.handler before, x.2 ≠ .failed)
    (failed : delivery H msg fails (asked H msg s.handler before) c.fd = .failed) :
    ∃ s', Reaches (Step H P) (Agrees fails) s s' ∧
      Delivered msg listener before.length (deliveries H msg fails s.handler (before ++ [c]))
        s s' := by
  have pollfds : (s.dropped H fails msg before c before.length).pollfds = listener :: before := by
    rw [popped.dropped_pollfds, List.append_nil]
  have stale : staleBehind s.pollfds [] = [c] := by
    rw [popped.pollfds, staleBehind, ← List.cons_append, List.getLast?_concat]
    rfl
  have past : (slots (s.dropped H fails msg before c before.length).pollfds
      (staleBehind s.pollfds [])).length ≤ 1 + before.length + 1 := by
    rw [slots, pollfds, stale, List.length_append, List.length_cons, Nat.add_comm 1]
    exact Nat.le_refl _
  refine ⟨_, (popped.dropped works failed).trans (finish rfl past popped.room), rfl, rfl, ?_, rfl⟩
  rw [deliveries_failed failed, survivors_append, survivors_of_works works, deliveries_map]
  exact pollfds.trans (congrArg (List.cons listener) (List.append_nil before).symm)

/-- One client stands behind it: it is visited in the slot that the erased entry left. -/
theorem delivered_of_next {d : PollFd}
    (popped : Popped P s msg listener (before ++ [c, d]) before.length)
    (works : ∀ x ∈ deliveries H msg fails s.handler before, x.2 ≠ .failed)
    (failed : delivery H msg fails (asked H msg s.handler before) c.fd = .failed) :
    ∃ s', Reaches (Step H P) (Agrees fails) s s' ∧
      Delivered msg listener before.length (deliveries H msg fails s.handler (before ++ [c, d]))
        s s' := by
  have pollfds : (s.dropped H fails msg before c before.length).pollfds =
      listener :: (before ++ [d]) := popped.dropped_pollfds
  have stale : staleBehind s.pollfds [] = [d] := by
    rw [popped.pollfds, staleBehind, ← List.cons_append, List.append_cons, List.getLast?_concat]
    rfl
  have length : (listener :: (before ++ [d])).length = 1 + before.length + 1 := by
    rw [List.length_cons, List.length_append, Nat.add_comm 1]
    rfl
  have entry : (slots (s.dropped H fails msg before c before.length).pollfds
      (staleBehind s.pollfds []))[1 + before.length + 1]? = some d := by
    rw [slots, pollfds, stale, List.getElem?_append_right (Nat.le_of_eq length), length,
      Nat.sub_self]
    rfl
  have member : d ∈ before ++ [c, d] := by simp
  have other : d.fd ≠ c.fd := popped.apart d (by simp)
  have open_ : d.fd ∈ (s.dropped H fails msg before c before.length).sockets :=
    (List.mem_erase_of_ne other).mpr (popped.open_ d member)
  have due : deliveries H msg fails s.handler (before ++ [c, d]) =
      deliveries H msg fails s.handler (before ++ [c]) ++
        [(d, delivery H msg fails (asked H msg s.handler (before ++ [c])) d.fd)] := by
    rw [List.append_cons, deliveries_append]
    rfl
  have rest : survivors (deliveries H msg fails s.handler (before ++ [c])) = before := by
    rw [deliveries_failed failed, survivors_append, survivors_of_works works, deliveries_map]
    exact List.append_nil before
  have dropped := popped.dropped works failed
  rw [due]
  by_cases failed' : delivery H msg fails (asked H msg s.handler (before ++ [c])) d.fd = .failed
  · -- The entry erased is that of `d`, which has moved to the place of `c`.
    have bound :
        before.length + 1 < (s.dropped H fails msg before c before.length).pollfds.length := by
      rw [pollfds, length, Nat.add_comm 1]
      exact Nat.lt_succ_self _
    have pollfds' : (s.dropped H fails msg before c before.length).pollfds.eraseIdx
        (before.length + 1) = listener :: before := by
      rw [pollfds, List.eraseIdx_cons_succ, Erase.eraseIdx_middle, List.append_nil]
    have stale' : staleBehind (s.dropped H fails msg before c before.length).pollfds
        (staleBehind s.pollfds []) = [d, d] := by
      rw [stale, pollfds, staleBehind, ← List.cons_append, List.getLast?_concat]
      rfl
    have past : (slots ((s.dropped H fails msg before c before.length).pollfds.eraseIdx
        (before.length + 1)) (staleBehind (s.dropped H fails msg before c before.length).pollfds
          (staleBehind s.pollfds []))).length ≤ 1 + before.length + 1 + 1 := by
      rw [slots, pollfds', stale', List.length_append, List.length_cons, Nat.add_comm 1]
      exact Nat.le_refl _
    have visited := dropped.trans
      (visit_failed rfl entry (popped.client d member) failed' open_ bound)
    refine ⟨_, visited.trans (finish rfl past popped.room), rfl, ?_, ?_, rfl⟩
    · rw [record_append]
      rfl
    · rw [survivors_append, rest, failed']
      exact pollfds'.trans (congrArg (List.cons listener) (List.append_nil before).symm)
  · have past : (slots (s.dropped H fails msg before c before.length).pollfds
        (staleBehind s.pollfds [])).length ≤ 1 + before.length + 1 + 1 := by
      rw [slots, pollfds, stale, List.length_append, length]
      exact Nat.le_refl _
    have visited := dropped.trans (visit rfl entry (popped.client d member) failed' open_)
    refine ⟨_, visited.trans (finish rfl past popped.room), rfl, ?_, ?_, rfl⟩
    · rw [record_append]
      rfl
    · rw [survivors_append, rest, survivors_of_works (by simpa using failed')]
      exact pollfds

theorem deliveries_take (handler : η) :
    (deliveries H msg fails handler (before ++ rest)).take before.length =
      deliveries H msg fails handler before := by
  have length : before.length = (deliveries H msg fails handler before).length :=
    (deliveries_length handler before).symm
  rw [deliveries_append, length, List.take_left]

theorem deliveries_getElem? (handler : η) :
    (deliveries H msg fails handler (before ++ c :: after))[before.length]? =
      some (c, delivery H msg fails (asked H msg handler before) c.fd) := by
  rw [deliveries_append, List.getElem?_append_right (Nat.le_of_eq (deliveries_length ..)),
    deliveries_length, Nat.sub_self]
  rfl

/-- Every client gets its due. -/
theorem delivered_of_settled (popped : Popped P s msg listener cs j)
    (settled : Settled (deliveries H msg fails s.handler cs) j) :
    ∃ s', Reaches (Step H P) (Agrees fails) s s' ∧
      Delivered msg listener j (deliveries H msg fails s.handler cs) s s' := by
  rcases settled with works | ⟨before_, ⟨x, scanned, failed⟩, short⟩
  · exact delivered_of_works popped works
  · obtain ⟨before, c, after, rfl, rfl⟩ : ∃ before c after, cs = before ++ c :: after ∧
        before.length = j := by
      have bound := popped.scanned
      exact ⟨cs.take j, cs[j], cs.drop (j + 1), by simp, by simp [Nat.le_of_lt bound]⟩
    rw [deliveries_take] at before_
    cases (deliveries_getElem? s.handler).symm.trans scanned
    rw [deliveries_length, List.length_append, List.length_cons] at short
    match after with
    | [] => exact delivered_of_last popped before_ failed
    | [d] => exact delivered_of_next popped before_ failed
    | _ :: _ :: _ =>
        rw [List.length_cons, List.length_cons] at short
        omega

/-! ## What a failure leaves -/

/-- The loop's `it`, its slot, and the slots behind `end( )`. -/
def Pc.slot : Pc → Option (Nat × Nat × List PollFd)
  | .broadcast i _ k stale => some (i, k, stale)
  | .writeTo i _ k stale => some (i, k, stale)
  | _ => none

theorem After.slot (next : After) : next.pc.slot = none := by
  cases next with
  | _ => rfl

/-- The loop erases at `it` only, and leaves `it` alone. -/
theorem Step.erases (agrees : Agrees fails s act) (stepped : Step H P s act s') :
    (s'.pollfds = s.pollfds ∨
        ∃ i k stale, s.pc.slot = some (i, k, stale) ∧ s'.pollfds = s.pollfds.eraseIdx i) ∧
      (s'.pc.slot.map (·.1) = s.pc.slot.map (·.1) ∨ s'.pc.slot = none) := by
  cases stepped with
  | broadcastEnd at_ => exact ⟨.inl rfl, .inr rfl⟩
  | listener at_ => exact ⟨.inl rfl, .inl (by rw [at_]; rfl)⟩
  | accepted at_ => exact ⟨.inl rfl, .inl (by rw [at_]; rfl)⟩
  | filter at_ => exact ⟨.inl rfl, .inl (by rw [at_]; rfl)⟩
  | writeTo at_ => exact ⟨.inl rfl, .inl (by rw [at_]; rfl)⟩
  | writeToFail at_ => exact ⟨.inr ⟨_, _, _, by rw [at_]; rfl, rfl⟩, .inl (by rw [at_]; rfl)⟩
  | eraseEnd at_ => exact ⟨.inl rfl, .inr rfl⟩
  | release at_ => exact ⟨.inl rfl, .inr (After.slot _)⟩
  | _ => cases agrees.1

/-- An entry in front of `it` stays. -/
theorem kept {i m : Nat} (reaches : Reaches (Step H P) (Agrees fails) s s') (front : m < i)
    (at_ : s.pc.slot.map (·.1) = some i) (entry : s.pollfds[m]? = some c) :
    s'.pollfds[m]? = some c := by
  have start : (s.pc.slot.map (·.1) = some i ∨ s.pc.slot = none) ∧ s.pollfds[m]? = some c :=
    ⟨.inl at_, entry⟩
  have both : (s'.pc.slot.map (·.1) = some i ∨ s'.pc.slot = none) ∧ s'.pollfds[m]? = some c := by
    refine reaches.invariant
      (I := fun s => (s.pc.slot.map (·.1) = some i ∨ s.pc.slot = none) ∧ s.pollfds[m]? = some c)
      start ?_
    intro s act s' _ inv agrees stepped
    obtain ⟨pollfds, slot⟩ := stepped.erases agrees
    constructor
    · rcases slot with same | none_
      · rcases inv.1 with it | none_
        · exact .inl (same.trans it)
        · rw [none_] at same
          exact .inr (Option.map_eq_none_iff.mp same)
      · exact .inr none_
    · rcases pollfds with same | ⟨i', k, stale, slot, erased⟩
      · rw [same]
        exact inv.2
      · rcases inv.1 with it | none_
        · rw [slot] at it
          cases it
          rw [erased, List.getElem?_eraseIdx_of_lt front]
          exact inv.2
        · cases none_.symm.trans slot
  exact both.2

/-- A client that is not entered stays out. -/
theorem gone {fd : Int} (reaches : Reaches (Step H P) (Agrees fails) s s') (out : fd ∉ s.fds) :
    fd ∉ s'.fds := by
  refine reaches.invariant (I := fun s => fd ∉ s.fds) out ?_
  intro s act s' _ out agrees stepped
  have sublist : List.Sublist s'.fds s.fds := by
    rcases (stepped.erases agrees).1 with same | ⟨i, k, stale, slot, erased⟩
    · unfold State.fds
      rw [same]
    · unfold State.fds
      rw [erased]
      exact (List.eraseIdx_sublist ..).map _
  exact fun member => out (sublist.subset member)

/-- The client with `fd` is in no slot ahead, and has not been asked about since `before`. -/
structure Skipped (fd : Int) (before : List Event) (s : State η) : Prop where
  ahead : ∀ i k stale, s.pc.slot = some (i, k, stale) →
    i ≤ k ∧ ∀ c ∈ (slots s.pollfds stale).drop k, c.fd ≠ fd
  log : ∃ new, s.log = new ++ before ∧ ∀ accepted, Event.out fd accepted ∉ new

theorem Skipped.log_append {fd : Int} {before : List Event} (skipped : Skipped fd before s)
    {events : List Event} (silent : ∀ accepted, Event.out fd accepted ∉ events) :
    ∃ new, events ++ s.log = new ++ before ∧ ∀ accepted, Event.out fd accepted ∉ new := by
  obtain ⟨new, log, none_⟩ := skipped.log
  refine ⟨events ++ new, ?_, ?_⟩
  · rw [log, List.append_assoc]
  · intro accepted member
    rcases List.mem_append.mp member with here | old
    · exact silent accepted here
    · exact none_ accepted old

theorem drop_succ_subset (pollfds stale : List PollFd) (k : Nat) :
    (slots pollfds stale).drop (k + 1) ⊆ (slots pollfds stale).drop k :=
  (List.drop_sublist_drop_left _ (Nat.le_succ k)).subset

theorem Skipped.step {fd : Int} {before : List Event} (skipped : Skipped fd before s)
    (agrees : Agrees fails s act) (stepped : Step H P s act s') : Skipped fd before s' := by
  have further {i k : Nat} {stale : List PollFd} (slot : s.pc.slot = some (i, k, stale)) :
      i ≤ k + 1 ∧ ∀ c ∈ (slots s.pollfds stale).drop (k + 1), c.fd ≠ fd := by
    obtain ⟨front, others⟩ := skipped.ahead i k stale slot
    exact ⟨Nat.le_succ_of_le front, fun c member => others c (drop_succ_subset _ _ k member)⟩
  have here {i k : Nat} {stale : List PollFd} {c : PollFd} (slot : s.pc.slot = some (i, k, stale))
      (entry : (slots s.pollfds stale)[k]? = some c) : c.fd ≠ fd := by
    apply (skipped.ahead i k stale slot).2
    rw [← List.head?_drop] at entry
    exact List.mem_of_head? entry
  have unlogged (event : Event) (other : ∀ accepted, event ≠ .out fd accepted) :
      ∀ accepted, Event.out fd accepted ∉ [event] := by
    intro accepted member
    exact other accepted (List.mem_singleton.mp member).symm
  have dropped (c : PollFd) (bytes : List UInt8) :
      ∃ new, ((s.emit (.write c.fd bytes false)).close c.fd).log = new ++ before ∧
        ∀ accepted, Event.out fd accepted ∉ new := by
    have log : ((s.emit (.write c.fd bytes false)).close c.fd).log =
        (s.closed c.fd ++ [.write c.fd bytes false]) ++ s.log := by
      rw [List.append_assoc]
      exact State.close_log _ c.fd
    rw [log]
    apply skipped.log_append
    intro accepted member
    unfold State.closed at member
    split at member
    case isTrue => simp at member
    case isFalse => simp at member
  cases stepped with
  | broadcastEnd at_ => exact ⟨nofun, skipped.log⟩
  | @listener i k msg stale c at_ entry own =>
      refine ⟨?_, skipped.log⟩
      rintro _ _ _ ⟨⟩
      exact further (by rw [at_]; rfl)
  | @accepted i k msg stale c handler at_ entry other answer =>
      have slot : s.pc.slot = some (i, k, stale) := by rw [at_]; rfl
      refine ⟨?_, skipped.log_append (unlogged (.out c.fd true) ?_)⟩
      · rintro _ _ _ ⟨⟩
        exact skipped.ahead i k stale slot
      · rintro accepted ⟨⟩
        exact here slot entry rfl
  | @filter i k msg stale c handler at_ entry other answer =>
      have slot : s.pc.slot = some (i, k, stale) := by rw [at_]; rfl
      refine ⟨?_, skipped.log_append (unlogged (.out c.fd false) ?_)⟩
      · rintro _ _ _ ⟨⟩
        exact further slot
      · rintro accepted ⟨⟩
        exact here slot entry rfl
  | @writeTo i k msg stale c at_ entry open_ =>
      refine ⟨?_, skipped.log_append (unlogged (.write c.fd (s.bytes msg) true) nofun)⟩
      rintro _ _ _ ⟨⟩
      exact further (by rw [at_]; rfl)
  | @writeToFail i k msg stale c at_ entry bound =>
      have slot : s.pc.slot = some (i, k, stale) := by rw [at_]; rfl
      refine ⟨?_, dropped c (s.bytes msg)⟩
      rintro _ _ _ ⟨⟩
      obtain ⟨front, others⟩ := further slot
      refine ⟨front, fun d member => others d ?_⟩
      exact Erase.drop_slots (skipped.ahead i k stale slot).1 bound member
  | @eraseEnd i k msg stale c at_ entry past => exact ⟨nofun, dropped c (s.bytes msg)⟩
  | @release b next at_ room =>
      refine ⟨?_, skipped.log_append (unlogged (.release b) nofun)⟩
      intro i k stale slot
      cases (After.slot next).symm.trans slot
  | _ => cases agrees.1

/-! ## When some client does not -/

theorem Delivery.asks (d : Delivery) (bytes : List UInt8) (fd : Int) :
    ∃ accepted, Event.out fd accepted ∈ d.events bytes fd := by
  cases d with
  | filtered => exact ⟨false, by simp [events]⟩
  | sent => exact ⟨true, by simp [events]⟩
  | failed => exact ⟨true, by simp [events]⟩

theorem exists_record (bytes : List UInt8) (due : List (PollFd × Delivery)) (log : List Event) :
    ∃ events, record bytes due log = events ++ log := by
  induction due generalizing log with
  | nil => exact ⟨[], rfl⟩
  | cons x due ih =>
      obtain ⟨events, same⟩ := ih (x.2.events bytes x.1.fd ++ log)
      exact ⟨events ++ x.2.events bytes x.1.fd, same.trans (List.append_assoc ..).symm⟩

theorem deliveries_split (handler : η)
    (failed : delivery H msg fails (asked H msg handler before) c.fd = .failed) :
    deliveries H msg fails handler (before ++ c :: after) =
      deliveries H msg fails handler before ++ (c, .failed) ::
        deliveries H msg fails (asked H msg handler (before ++ [c])) after := by
  rw [deliveries_append, ← failed]
  unfold asked
  rw [List.foldl_append]
  rfl

/-- The failing client stands in front of the one scanned, and is not erased. -/
theorem not_delivered_earlier (popped : Popped P s msg listener (before ++ c :: after) j)
    (failed : delivery H msg fails (asked H msg s.handler before) c.fd = .failed)
    (rest : Reaches (Step H P) (Agrees fails) (s.dropped H fails msg before c j) s')
    (earlier : before.length < j) :
    ¬ Delivered msg listener j (deliveries H msg fails s.handler (before ++ c :: after)) s s' := by
  intro delivered
  have entry : (s.dropped H fails msg before c j).pollfds[before.length + 1]? = some c := by
    unfold State.dropped
    rw [popped.pollfds, List.getElem?_eraseIdx_of_lt (Nat.succ_lt_succ earlier),
      List.getElem?_cons_succ, List.getElem?_append_right (Nat.le_refl _), Nat.sub_self]
    rfl
  have stays := kept rest (Nat.succ_lt_succ earlier) rfl entry
  rw [delivered.pollfds, List.getElem?_cons_succ] at stays
  have member := List.mem_of_getElem? stays
  rw [deliveries_split s.handler failed, survivors_append, survivors_failed] at member
  have other : c ∈ before ++ after := by
    rcases List.mem_append.mp member with left | right
    · have subset := survivors_subset _ left
      rw [deliveries_map] at subset
      exact List.mem_append_left _ subset
    · have subset := survivors_subset _ right
      rw [deliveries_map] at subset
      exact List.mem_append_right _ subset
  exact popped.apart c other rfl

/-- The failing client stands behind the one scanned, and that one is erased. -/
theorem not_delivered_later (popped : Popped P s msg listener (before ++ c :: after) j)
    (works : ∀ x ∈ deliveries H msg fails s.handler before, x.2 ≠ .failed)
    (rest : Reaches (Step H P) (Agrees fails) (s.dropped H fails msg before c j) s')
    (later : j < before.length) :
    ¬ Delivered msg listener j (deliveries H msg fails s.handler (before ++ c :: after)) s s' := by
  intro delivered
  have entry : s.fds[j + 1]? = some before[j].fd := by
    apply State.fds_getElem?
    rw [popped.pollfds, List.getElem?_cons_succ, List.getElem?_append_left later,
      List.getElem?_eq_getElem later]
  have out : before[j].fd ∉ (s.dropped H fails msg before c j).fds := by
    have erased : (s.dropped H fails msg before c j).fds = s.fds.erase before[j].fd :=
      (State.fds_erase s (j + 1)).trans (Erase.eraseIdx_eq_erase popped.distinct entry)
    rw [erased]
    exact popped.distinct.not_mem_erase
  apply gone rest out
  have stays : before[j] ∈ survivors (deliveries H msg fails s.handler (before ++ c :: after)) := by
    rw [deliveries_append, survivors_append, survivors_of_works works, deliveries_map]
    exact List.mem_append_left _ (List.getElem_mem later)
  unfold State.fds
  rw [delivered.pollfds]
  exact List.mem_map_of_mem (List.mem_cons_of_mem _ stays)

/-- The client behind the one scanned takes its place, and is skipped. -/
theorem not_delivered_skipped {d e : PollFd} {more : List PollFd}
    (popped : Popped P s msg listener (before ++ c :: d :: e :: more) before.length)
    (rest : Reaches (Step H P) (Agrees fails) (s.dropped H fails msg before c before.length) s') :
    ¬ Delivered msg listener before.length
      (deliveries H msg fails s.handler (before ++ c :: d :: e :: more)) s s' := by
  intro delivered
  have split : before ++ c :: d :: e :: more = (before ++ [c]) ++ d :: e :: more :=
    List.append_cons ..
  have apart : ∀ x ∈ e :: more, x.fd ≠ d.fd := by
    have popped' := popped
    rw [split] at popped'
    intro x member
    exact popped'.apart x (List.mem_append_right _ member)
  have start : Skipped d.fd (s.dropped H fails msg before c before.length).log
      (s.dropped H fails msg before c before.length) := by
    refine ⟨?_, [], rfl, nofun⟩
    rintro _ _ _ ⟨⟩
    refine ⟨by omega, ?_⟩
    have pollfds : s.pollfds = (listener :: (before ++ [c, d])) ++ e :: more := by
      rw [popped.pollfds]
      simp
    have left : (s.dropped H fails msg before c before.length).pollfds =
        (listener :: (before ++ [d])) ++ e :: more := by
      rw [popped.dropped_pollfds]
      simp
    have length : (listener :: (before ++ [d])).length = 1 + before.length + 1 := by
      rw [List.length_cons, List.length_append, Nat.add_comm 1]
      rfl
    obtain ⟨last, isLast⟩ : ∃ last, (e :: more).getLast? = some last :=
      ⟨_, List.getLast?_eq_some_getLast (List.cons_ne_nil e more)⟩
    have stale : staleBehind s.pollfds [] = [last] := by
      rw [pollfds, staleBehind, List.getLast?_append, isLast]
      rfl
    rw [slots, left, stale, List.append_assoc, ← length, List.drop_left]
    intro x member
    rcases List.mem_append.mp member with ahead | again
    · exact apart x ahead
    · rw [List.mem_singleton.mp again]
      exact apart last (List.mem_of_getLast? isLast)
  have skipped : Skipped d.fd (s.dropped H fails msg before c before.length).log s' := by
    apply rest.invariant start
    intro s act s' _ skipped agrees stepped
    exact skipped.step agrees stepped
  obtain ⟨new, log, silent⟩ := skipped.log
  rw [delivered.log, split, deliveries_append, record_append] at log
  -- Behind the record for `d` there is `on_out` for it, and nothing like it was logged.
  obtain ⟨events, same⟩ := exists_record (s.bytes msg)
    (deliveries H msg fails (H.onOut (asked H msg s.handler (before ++ [c]))
      { msg with fd := d.fd }).1 (e :: more))
    ((delivery H msg fails (asked H msg s.handler (before ++ [c])) d.fd).events (s.bytes msg)
        d.fd ++
      (s.dropped H fails msg before c before.length).log)
  have whole : .release msg.buf :: (events ++ (delivery H msg fails
      (asked H msg s.handler (before ++ [c])) d.fd).events (s.bytes msg) d.fd) ++
        (s.dropped H fails msg before c before.length).log =
      new ++ (s.dropped H fails msg before c before.length).log := by
    rw [← log, List.cons_append, List.append_assoc, ← same]
    rfl
  have both := List.append_cancel_right whole
  obtain ⟨accepted, asks⟩ := Delivery.asks
    (delivery H msg fails (asked H msg s.handler (before ++ [c])) d.fd) (s.bytes msg) d.fd
  apply silent accepted
  rw [← both]
  exact List.mem_cons_of_mem _ (List.mem_append_right _ asks)

/-- And in no other case. -/
theorem settled_of_delivered (popped : Popped P s msg listener cs j)
    (reaches : Reaches (Step H P) (Agrees fails) s s')
    (delivered : Delivered msg listener j (deliveries H msg fails s.handler cs) s s') :
    Settled (deliveries H msg fails s.handler cs) j := by
  rcases first_failed H msg fails s.handler cs with works | ⟨before, c, after, rfl, works, failed⟩
  · exact .inl works
  · have rest := (popped.dropped works failed).rest agrees_determined reaches
      (agrees_final delivered.pc)
    rcases Nat.lt_trichotomy before.length j with earlier | rfl | later
    · exact absurd delivered (not_delivered_earlier popped failed rest earlier)
    · match after with
      | [] | [_] =>
          refine .inr ⟨?_, ⟨_, deliveries_getElem? s.handler, failed⟩, ?_⟩
          · rw [deliveries_take]
            exact works
          · rw [deliveries_length, List.length_append]
            simp
      | _ :: _ :: _ => exact absurd delivered (not_delivered_skipped popped rest)
    · exact absurd delivered (not_delivered_later popped works rest later)

/-- **Broadcast.** For every list of open clients, every client scanned, every filter and every
set of clients whose write fails: every client gets its due if and only if no write fails, or
the first to fail is at the client scanned and at most one stands behind it. -/
theorem delivered_iff (H : Handler η) (P : Params) (s : State η) (msg : TaggedTcpMsg)
    (listener : PollFd) (cs : List PollFd) (j : Nat) (fails : Int → Bool)
    (popped : Popped P s msg listener cs j) :
    (∃ s', Reaches (Step H P) (Agrees fails) s s' ∧
        Delivered msg listener j (deliveries H msg fails s.handler cs) s s') ↔
      Settled (deliveries H msg fails s.handler cs) j := by
  constructor
  · rintro ⟨s', reaches, delivered⟩
    exact settled_of_delivered popped reaches delivered
  · exact delivered_of_settled popped

/-! ## Where a message is popped -/

/-- The listening socket is the first entry, and `poll` is not asked whether it is writable. -/
structure Front (P : Params) (s : State η) : Prop where
  head : s.fds.head? = some P.fd
  silent : ∀ c ∈ s.pollfds, c.fd = P.fd → c.events.pollOut = false ∧ c.revents.pollOut = false

theorem of_mem_reported {sockets : List Int} {pollfds : List PollFd} {revents : List Events}
    (reports : List.Forall₂ (Reports sockets) pollfds revents) {c : PollFd}
    (member : c ∈ reported pollfds revents) :
    ∃ entry ∈ pollfds, Reports sockets entry c.revents ∧ c.fd = entry.fd ∧
      c.events = entry.events := by
  induction reports with
  | nil => cases member
  | @cons entry _ _ _ report _ ih =>
      rcases List.mem_cons.mp member with rfl | later
      · exact ⟨entry, List.mem_cons_self, report, rfl, rfl⟩
      · obtain ⟨entry', among, report', same⟩ := ih later
        exact ⟨entry', List.mem_cons_of_mem _ among, report', same⟩

/-- What a step does to the entries themselves. -/
theorem Step.entries (stepped : Step H P s act s') :
    s'.pollfds ⊆ s.pollfds ∨
      (∃ fd, act = .accept fd ∧ s'.pollfds = s.pollfds ++ [⟨fd, ⟨true, true, true⟩, .none⟩]) ∨
      ∃ revents, List.Forall₂ (Reports s.sockets) s.pollfds revents ∧
        s'.pollfds = reported s.pollfds revents := by
  have same : s.pollfds ⊆ s.pollfds := List.Subset.refl _
  cases stepped with
  | poll revents _ reports => exact .inr (.inr ⟨revents, reports, rfl⟩)
  | accept fd => exact .inr (.inl ⟨fd, rfl, rfl⟩)
  | hangUp => exact .inl (List.eraseIdx_sublist ..).subset
  | readFail => exact .inl (List.eraseIdx_sublist ..).subset
  | writeFail => exact .inl (List.eraseIdx_sublist ..).subset
  | writeToFail => exact .inl (List.eraseIdx_sublist ..).subset
  | _ => exact .inl same

theorem Front.step (front : Front P s) (aligned : Aligned P s act)
    (stepped : Step H P s act s') : Front P s' := by
  constructor
  · cases stepped.change with
    | keep _ fds =>
        rw [fds]
        exact front.head
    | arrive fd _ _ _ _ fds =>
        rw [fds, List.head?_append, front.head]
        rfl
    | drop i fd closing fds =>
        obtain ⟨entry, client⟩ := aligned (i, fd) closing
        have behind : 0 < i := by
          apply Nat.pos_of_ne_zero
          rintro rfl
          rw [← List.head?_eq_getElem?, front.head] at entry
          cases entry
          exact client rfl
        rw [fds, List.head?_eq_getElem?, List.getElem?_eraseIdx_of_lt behind,
          ← List.head?_eq_getElem?]
        exact front.head
  · intro c member listening
    rcases stepped.entries with subset | ⟨fd, rfl, pollfds⟩ | ⟨revents, reports, pollfds⟩
    · exact front.silent c (subset member) listening
    · rw [pollfds] at member
      rcases List.mem_append.mp member with old | new
      · exact front.silent c old listening
      · rw [List.mem_singleton.mp new] at listening
        cases stepped.change with
        | keep _ fds =>
            have longer := congrArg List.length fds
            unfold State.fds at longer
            rw [pollfds] at longer
            simp at longer
        | arrive fd' _ same open_ fresh =>
            cases same
            have again : fd = P.fd := listening
            rw [again] at fresh
            exact absurd open_ fresh
        | drop i fd' closing => cases closing
    · rw [pollfds] at member
      obtain ⟨entry, among, report, same, events⟩ := of_mem_reported reports member
      obtain ⟨unasked, _⟩ := front.silent entry among (same ▸ listening)
      refine ⟨events ▸ unasked, ?_⟩
      by_contra writable
      have asked := (report.2.1 (Bool.eq_true_of_not_eq_false writable)).1
      cases unasked.symm.trans asked

/-- In a run that keeps its clients and its buffers, a message for all clients is popped in
such a state. -/
theorem popped_of_popBroadcast (disciplined : H.Disciplined) {handler : η}
    (reaches : Reaches (Step H P) (fun s act => Aligned P s act ∧ Sent s act)
      (State.bound P handler) s)
    (stepped : Step H P s .popBroadcast s') :
    ∃ msg listener cs j, Popped P s' msg listener cs j := by
  have front : Front P s := by
    have start : Front P (State.bound P handler) := by
      refine ⟨rfl, ?_⟩
      intro c member _
      rw [List.mem_singleton.mp member]
      exact ⟨rfl, rfl⟩
    apply reaches.invariant start
    intro s act s' _ front meets stepped
    exact front.step meets.1 stepped
  have set := pollSet_of_aligned (reaches.mono fun _ _ meets => meets.1)
  have opened := open_of_reaches reaches
  have conserved := conserved_of_reaches disciplined (reaches.mono fun _ _ meets => meets.2)
  have distinct : s.fds.Nodup := set.entries.nodup_iff.mpr opened.distinct
  cases stepped with
  | @popBroadcast i c msg rest at_ entry out queue all =>
      obtain ⟨listener, cs, pollfds⟩ : ∃ listener cs, s.pollfds = listener :: cs :=
        List.exists_cons_of_ne_nil (List.ne_nil_of_mem (List.mem_of_getElem? entry))
      have listening : listener.fd = P.fd := by
        have head := front.head
        unfold State.fds at head
        rw [pollfds] at head
        exact Option.some.inj head
      cases i with
      | zero =>
          rw [pollfds] at entry
          have first : listener = c := Option.some.inj entry
          rw [← first] at out
          have silent := (front.silent listener (pollfds ▸ List.mem_cons_self) listening).2
          cases silent.symm.trans out
      | succ j =>
          refine ⟨msg, listener, cs, j, rfl, pollfds, listening, distinct, ?_, ?_, ?_⟩
          · intro d member
            apply set.entries.subset
            unfold State.fds
            rw [pollfds]
            exact List.mem_map_of_mem (List.mem_cons_of_mem _ member)
          · rw [pollfds, List.getElem?_cons_succ] at entry
            exact (List.getElem?_eq_some_iff.mp entry).1
          · have all := conserved.length_eq
            unfold State.account at all
            rw [queue] at all
            simp only [List.length_append, List.length_map, List.length_cons, List.length_range]
              at all
            dsimp only
            omega

/-! ## Two clients -/

def listening : PollFd := ⟨3, ⟨true, false, false⟩, .none⟩

def client (fd : Int) (revents : Events) : PollFd := ⟨fd, ⟨true, true, true⟩, revents⟩

def twoClients : List PollFd := [client 4 ⟨true, false, true⟩, client 5 .none]

/-- A message of client 4 is popped for clients 4 and 5, while 4 is scanned. -/
theorem popped_run :
    ∃ s : State (List Int),
      Reaches (Step tcpHandler (tcpServer 3)) always (State.bound (tcpServer 3) []) s ∧
        Popped (tcpServer 3) s ⟨2, 1, 0⟩ listening twoClients 0 ∧ s.handler = [4, 5] := by
  have run : ∃ s, Reaches (Step tcpHandler (tcpServer 3)) always (State.bound (tcpServer 3) []) s ∧
      s.pc = .broadcast 1 ⟨2, 1, 0⟩ 0 [] ∧ s.pollfds = listening :: twoClients ∧
        s.sockets = [3, 4, 5] ∧ s.bufpool.length = 63 ∧ s.handler = [4, 5] :=
    exists_of_play (List.flatten [twoActive, broadcasting]) (by decide +kernel)
  obtain ⟨s, reaches, pc, pollfds, sockets, room, handler⟩ := run
  refine ⟨s, reaches, ⟨pc, pollfds, rfl, ?_, ?_, by decide, ?_⟩, handler⟩
  · unfold State.fds
    rw [pollfds]
    decide
  · rw [sockets]
    decide
  · rw [room]
    decide

/-- The write to client 4 fails: it is dropped, and client 5 has the message. -/
theorem delivered_iff_scanned :
    ∃ s s' : State (List Int),
      Delivered ⟨2, 1, 0⟩ listening 0
        [(client 4 ⟨true, false, true⟩, .failed), (client 5 .none, .sent)] s s' := by
  obtain ⟨s, _, popped, handler⟩ := popped_run
  have due : deliveries tcpHandler ⟨2, 1, 0⟩ (· == 4) s.handler twoClients =
      [(client 4 ⟨true, false, true⟩, .failed), (client 5 .none, .sent)] := by
    rw [handler]
    decide
  have settled : Settled (deliveries tcpHandler ⟨2, 1, 0⟩ (· == 4) s.handler twoClients) 0 := by
    rw [due]
    exact .inr ⟨List.forall_mem_nil _, ⟨_, rfl, rfl⟩, Nat.le_refl 2⟩
  obtain ⟨s', _, delivered⟩ := (delivered_iff tcpHandler (tcpServer 3) s ⟨2, 1, 0⟩ listening
    twoClients 0 (· == 4) popped).mpr settled
  rw [due] at delivered
  exact ⟨s, s', delivered⟩

/-- The write to client 5 fails, and client 4 is erased. -/
theorem not_delivered_other :
    ¬ ∀ (s : State (List Int)) (fails : Int → Bool),
      Reaches (Step tcpHandler (tcpServer 3)) always (State.bound (tcpServer 3) []) s →
      Popped (tcpServer 3) s ⟨2, 1, 0⟩ listening twoClients 0 →
      ∃ s', Reaches (Step tcpHandler (tcpServer 3)) (Agrees fails) s s' ∧
        Delivered ⟨2, 1, 0⟩ listening 0
          (deliveries tcpHandler ⟨2, 1, 0⟩ fails s.handler twoClients) s s' := by
  intro law
  obtain ⟨s, reaches, popped, handler⟩ := popped_run
  obtain ⟨s', handled, delivered⟩ := law s (· == 5) reaches popped
  have settled := settled_of_delivered popped handled delivered
  have due : deliveries tcpHandler ⟨2, 1, 0⟩ (· == 5) s.handler twoClients =
      [(client 4 ⟨true, false, true⟩, .sent), (client 5 .none, .failed)] := by
    rw [handler]
    decide
  rw [due] at settled
  rcases settled with works | ⟨_, ⟨x, first, failed⟩, _⟩
  · exact works _ (List.mem_cons_of_mem _ List.mem_cons_self) rfl
  · cases first
    cases failed

end Server

end OpenFix
