import OpenFix.Server.Isolation

/-!
# What the test server relays

With `tcp_handler_t` the server is a relay: what an active client sends goes to every active
client. `Relay` records of a run what is to be relayed, in the order in which it was read, how
much of it has been taken out of the queue, and where in this order each connection joined.

* `Fed`: what holds of the queue, of the loop over the clients and of each client.
* `relayed_of_delivering`: as long as no write fails, each active client has received exactly
  what was taken out of the queue since it joined, whole and in order, and the rest waits in
  the queue.
-/

namespace OpenFix

namespace Server

open Transition (Reaches)

/-- What active clients have sent, how many of these messages have been taken out of the
queue, and how many had been when a connection joined. -/
structure Relay : Type where
  heard : List (List UInt8)
  popped : Nat
  joined : Int → Nat

def Relay.start : Relay := ⟨[], 0, fun _ => 0⟩

/-- A connection joins: what is taken out of the queue from now on is for it too. -/
def Relay.join (r : Relay) (fd : Int) : Relay :=
  { r with joined := Function.update r.joined fd r.popped }

theorem Relay.join_self (r : Relay) (fd : Int) : (r.join fd).joined fd = r.popped :=
  Function.update_self ..

theorem Relay.join_of_ne (r : Relay) {fd f : Int} (other : f ≠ fd) :
    (r.join fd).joined f = r.joined f :=
  Function.update_of_ne other ..

/-- What an active client sends is to be relayed; one that is not joins with "/sub". -/
def Relay.hear (r : Relay) (active : List Int) (fd : Int) (data : List UInt8) : Relay :=
  if fd ∈ active then { r with heard := r.heard ++ [data] }
  else if sub <:+: data then r.join fd
  else r

/-- The record behind `act`. A connection whose descriptor is still listed joins when it is
accepted. -/
def Relay.next (s : State (List Int)) (r : Relay) : Act → Relay
  | .accept fd => r.join fd
  | .read data =>
      match s.reader (.read data) with
      | some fd => r.hear s.handler fd data
      | none => r
  | .popBroadcast => { r with popped := r.popped + 1 }
  | _ => r

/-- The server and the record of its run. -/
def Relays (P : Params) (x : State (List Int) × Relay) (act : Act)
    (y : State (List Int) × Relay) : Prop :=
  Step tcpHandler P x.1 act y.1 ∧ y.2 = x.2.next x.1 act

/-- `run( )` alone, and no write to a client fails. -/
def Delivering (act : Act) : Prop := act.own = true ∧ act ≠ .writeToFail ∧ act ≠ .eraseEnd

instance (act : Act) : Decidable (Delivering act) := inferInstanceAs (Decidable (_ ∧ _ ∧ _))

/-- What was written to the connection with the descriptor `fd`: since it was accepted. -/
def written (fd : Int) : List Event → List (List UInt8)
  | [] => []
  | .write f bytes _ :: log => if f = fd then written fd log ++ [bytes] else written fd log
  | .accept f :: log => if f = fd then [] else written fd log
  | _ :: log => written fd log

/-- The queue has what was not taken out yet, and each client has what was since it joined. -/
structure Relayed (P : Params) (s : State (List Int)) (r : Relay) : Prop where
  waiting : s.outQueue.map s.bytes = r.heard.drop r.popped
  active : ∀ fd ∈ s.fds, fd ≠ P.fd → fd ∈ s.handler →
    written fd s.log = (r.heard.take r.popped).drop (r.joined fd)
  others : ∀ fd ∈ s.fds, fd ≠ P.fd → fd ∉ s.handler → written fd s.log = []

/-! ## What holds in a run -/

/-- How many messages have come to the client in slot `j`. -/
def Pc.delivered (pc : Pc) (popped j : Nat) : Nat :=
  match pc with
  | .broadcast _ _ k _ => if j < k then popped else popped - 1
  | .writeTo _ _ k _ => if j < k then popped else popped - 1
  | _ => popped

/-- What a connection has received when the first `n` messages have come to it. -/
def Served (s : State (List Int)) (r : Relay) (fd : Int) (n : Nat) : Prop :=
  if fd ∈ s.handler then r.joined fd ≤ n ∧ written fd s.log = (r.heard.take n).drop (r.joined fd)
  else written fd s.log = []

/-- `run( )` is in the loop over the clients with `msg`, in front of slot `k`. -/
def Pc.passes (pc : Pc) (msg : TaggedTcpMsg) (k : Nat) (stale : List PollFd) : Prop :=
  ∃ i, pc = .broadcast i msg k stale ∨ pc = .writeTo i msg k stale

structure Fed (P : Params) (s : State (List Int)) (r : Relay) : Prop where
  distinct : s.fds.Nodup
  open_ : s.fds ⊆ s.sockets
  count : r.popped ≤ r.heard.length
  waiting : (s.outQueue ++ s.pc.posts).map s.bytes = r.heard.drop r.popped
  passing : ∀ msg k stale, s.pc.passes msg k stale → stale = [] ∧ 0 < r.popped ∧
    r.heard.drop (r.popped - 1) = s.bytes msg :: r.heard.drop r.popped
  target : ∀ i msg k stale c, s.pc = .writeTo i msg k stale → s.pollfds[k]? = some c →
    c.fd ∈ s.handler
  clients : ∀ j fd, s.fds[j]? = some fd → fd ≠ P.fd → Served s r fd (s.pc.delivered r.popped j)

variable {P : Params} {s s' : State (List Int)} {r r' : Relay} {act : Act}

/-- Outside the loop over the clients. -/
def Pc.calm : Pc → Bool
  | .broadcast _ _ _ _ => false
  | .writeTo _ _ _ _ => false
  | _ => true

theorem Pc.delivered_of_calm {pc : Pc} (calm : pc.calm = true) (n j : Nat) :
    pc.delivered n j = n := by
  cases pc with
  | broadcast i msg k stale => cases calm
  | writeTo i msg k stale => cases calm
  | _ => rfl

theorem Pc.not_passes_of_calm {pc : Pc} (calm : pc.calm = true) {msg : TaggedTcpMsg} {k : Nat}
    {stale : List PollFd} (passes : pc.passes msg k stale) : False := by
  rcases passes with ⟨i, rfl | rfl⟩
  · cases calm
  · cases calm

/-- Between two broadcasts every client has got every message that was taken out. -/
theorem Fed.served (fed : Fed P s r) (calm : s.pc.calm = true) {fd : Int} (member : fd ∈ s.fds)
    (client : fd ≠ P.fd) : Served s r fd r.popped := by
  obtain ⟨j, at_⟩ := List.mem_iff_getElem?.mp member
  have served := fed.clients j fd at_ client
  rwa [Pc.delivered_of_calm calm] at served

theorem Fed.of_calm (calm : s'.pc.calm = true) (distinct : s'.fds.Nodup)
    (open_ : s'.fds ⊆ s'.sockets) (count : r'.popped ≤ r'.heard.length)
    (waiting : (s'.outQueue ++ s'.pc.posts).map s'.bytes = r'.heard.drop r'.popped)
    (served : ∀ fd ∈ s'.fds, fd ≠ P.fd → Served s' r' fd r'.popped) : Fed P s' r' where
  distinct := distinct
  open_ := open_
  count := count
  waiting := waiting
  passing _ _ _ passes := (Pc.not_passes_of_calm calm passes).elim
  target _ _ _ _ _ at_ _ := (Pc.not_passes_of_calm calm ⟨_, .inr at_⟩).elim
  clients j fd at_ client := by
    rw [Pc.delivered_of_calm calm]
    exact served fd (List.mem_of_getElem? at_) client

theorem Served.keep {fd : Int} {n : Nat} (served : Served s r fd n)
    (listed : fd ∈ s'.handler ↔ fd ∈ s.handler) (log : written fd s'.log = written fd s.log) :
    Served s' r fd n := by
  unfold Served at served ⊢
  rw [log]
  by_cases member : fd ∈ s.handler
  · rw [if_pos (listed.mpr member)]
    rwa [if_pos member] at served
  · rw [if_neg fun listed' => member (listed.mp listed')]
    rwa [if_neg member] at served

/-- Nothing is heard, taken out or written, and clients may leave. -/
theorem Fed.still (fed : Fed P s r) (calm : s.pc.calm = true) (calm' : s'.pc.calm = true)
    (fds : s'.fds.Sublist s.fds) (open_ : s'.fds ⊆ s'.sockets)
    (waiting : (s'.outQueue ++ s'.pc.posts).map s'.bytes =
      (s.outQueue ++ s.pc.posts).map s.bytes)
    (listed : ∀ fd ∈ s'.fds, (fd ∈ s'.handler ↔ fd ∈ s.handler))
    (log : ∀ fd, written fd s'.log = written fd s.log) : Fed P s' r := by
  refine .of_calm calm' (fed.distinct.sublist fds) open_ fed.count (waiting.trans fed.waiting) ?_
  intro fd member client
  exact (fed.served calm (fds.subset member) client).keep (listed fd member) (log fd)

/-- Only the place of `run( )` changes. -/
theorem Fed.goto (fed : Fed P s r) {pc : Pc} (at_ : s.pc = pc) (calm : pc.calm = true)
    (calm' : s'.pc.calm = true)
    (same : s'.fds = s.fds ∧ s'.sockets = s.sockets ∧ s'.outQueue = s.outQueue ∧
      s'.bufs = s.bufs ∧ s'.handler = s.handler)
    (posts : s'.pc.posts = pc.posts) (log : ∀ fd, written fd s'.log = written fd s.log) :
    Fed P s' r := by
  obtain ⟨fds, sockets, queue, bufs, handler⟩ := same
  refine fed.still (at_ ▸ calm) calm' (fds ▸ List.Sublist.refl _) ?_ ?_ ?_ log
  · rw [fds, sockets]
    exact fed.open_
  · rw [queue, posts, at_]
    have bytes : s'.bytes = s.bytes := by
      unfold State.bytes
      rw [bufs]
    rw [bytes]
  · intro fd _
    rw [handler]

/-! ## Reading and accepting -/

/-- The first `n` of what was heard are still the first. -/
theorem Served.hear {fd : Int} (served : Served s r fd r.popped) (count : r.popped ≤ r.heard.length)
    (listed : fd ∈ s'.handler ↔ fd ∈ s.handler) (log : written fd s'.log = written fd s.log)
    (data : List UInt8) : Served s' { r with heard := r.heard ++ [data] } fd r.popped := by
  have kept := served.keep listed log
  unfold Served at kept ⊢
  rwa [List.take_append_of_le_length count]

/-- A connection that has received nothing joins. -/
theorem Served.join {fd : Int} (r : Relay) (log : written fd s'.log = []) :
    Served s' (r.join fd) fd r.popped := by
  have none_ : (r.heard.take r.popped).drop r.popped = [] :=
    List.drop_eq_nil_of_le (List.length_take_le _ _)
  unfold Served
  rw [r.join_self]
  split
  case isTrue => exact ⟨Nat.le_refl _, log.trans none_.symm⟩
  case isFalse => exact log

theorem Served.other {fd f : Int} {n : Nat} (served : Served s r f n) (other : f ≠ fd) :
    Served s (r.join fd) f n := by
  unfold Served at served ⊢
  rwa [r.join_of_ne other]

/-- What waits is in its buffers as it was. -/
theorem Conserved.bytes_read (conserved : Conserved P s) {i b : Nat} {content : List UInt8}
    (at_ : s.pc = .read i b) (bufs : s'.bufs = Function.update s.bufs b content) :
    s.outQueue.map s'.bytes = s.outQueue.map s.bytes := by
  apply List.map_congr_left
  intro msg member
  unfold State.bytes
  rw [bufs, Function.update_of_ne (conserved.ne_of_read at_ msg member)]

theorem Fed.read (fed : Fed P s r) (conserved : Conserved P s) {data : List UInt8}
    (stepped : Step tcpHandler P s (.read data) s') : Fed P s' (r.next s (.read data)) := by
  cases stepped with
  | @read i b c handler posts ret _ at_ entry _ _ _ answer =>
      have reader : s.reader (.read data) = some c.fd := by
        rw [State.reader, at_]
        exact State.fds_getElem? entry
      have calm : s.pc.calm = true := by
        rw [at_]
        rfl
      have waiting : s.outQueue.map s.bytes = r.heard.drop r.popped := by
        have waiting := fed.waiting
        rw [at_] at waiting
        simpa only [Pc.posts, List.append_nil] using waiting
      rw [Relay.next, reader]
      dsimp only
      rcases tcpHandler_onRead answer with ⟨member, rfl, rfl⟩ | ⟨member, rfl, rfl⟩
      · rw [Relay.hear, if_pos member]
        refine .of_calm rfl fed.distinct fed.open_ ?_ ?_ ?_
        · exact fed.count.trans (by simp)
        · rw [List.drop_append_of_le_length fed.count, ← waiting, List.map_append]
          refine congrArg₂ _ (conserved.bytes_read at_ rfl) ?_
          simp [State.bytes, Pc.posts]
        · intro fd among client
          exact (fed.served calm among client).hear fed.count Iff.rfl rfl data
      · rw [Relay.hear, if_neg member]
        by_cases asks : sub <:+: data
        · simp only [if_pos asks]
          refine .of_calm rfl fed.distinct fed.open_ fed.count ?_ ?_
          · simp only [Pc.posts, List.append_nil]
            exact (conserved.bytes_read at_ rfl).trans waiting
          · intro fd among client
            by_cases here : fd = c.fd
            · subst here
              have served := fed.served calm among client
              rw [Served, if_neg member] at served
              exact .join r served
            · refine Served.other ((fed.served calm among client).keep ?_ rfl) here
              dsimp only
              rw [List.mem_append, List.mem_singleton]
              exact or_iff_left here
        · simp only [if_neg asks]
          refine .of_calm rfl fed.distinct fed.open_ fed.count ?_ ?_
          · simp only [Pc.posts, List.append_nil]
            exact (conserved.bytes_read at_ rfl).trans waiting
          · intro fd among client
            exact (fed.served calm among client).keep Iff.rfl rfl

theorem Fed.accept (fed : Fed P s r) {fd : Int} (stepped : Step tcpHandler P s (.accept fd) s') :
    Fed P s' (r.join fd) := by
  cases stepped with
  | @accept i c _ at_ _ _ _ _ _ _ fresh =>
      have calm : s.pc.calm = true := by
        rw [at_]
        rfl
      have unused : fd ∉ s.fds := fun member => fresh (fed.open_ member)
      have fds : (s.pollfds ++ [(⟨fd, ⟨true, true, true⟩, .none⟩ : PollFd)]).map (·.fd) =
          s.fds ++ [fd] := List.map_append ..
      have waiting := fed.waiting
      rw [at_] at waiting
      refine .of_calm rfl ?_ ?_ fed.count waiting ?_
      · unfold State.fds
        rw [fds]
        exact fed.distinct.append (List.nodup_singleton fd) (List.disjoint_singleton.mpr unused)
      · unfold State.fds
        rw [fds]
        exact List.append_subset.mpr
          ⟨List.subset_append_of_subset_left _ fed.open_, List.subset_append_right ..⟩
      · intro f member client
        unfold State.fds at member
        rw [fds] at member
        by_cases here : f = fd
        · subst here
          exact .join r (if_pos rfl)
        · have before : f ∈ s.fds := by
            rcases List.mem_append.mp member with before | new
            · exact before
            · exact absurd (List.mem_singleton.mp new) here
          exact Served.other ((fed.served calm before client).keep Iff.rfl (if_neg (Ne.symm here)))
            here

/-! ## The loop over the clients -/

theorem Fed.pop (fed : Fed P s r) (stepped : Step tcpHandler P s .popBroadcast s') :
    Fed P s' { r with popped := r.popped + 1 } := by
  cases stepped with
  | @popBroadcast i c msg rest at_ entry out queue all =>
      have calm : s.pc.calm = true := by
        rw [at_]
        rfl
      have front : r.heard.drop r.popped = s.bytes msg :: rest.map s.bytes := by
        have waiting := fed.waiting
        rw [at_, queue] at waiting
        simpa only [Pc.posts, List.append_nil, List.map_cons] using waiting.symm
      have behind : r.heard.drop (r.popped + 1) = rest.map s.bytes := by
        rw [← List.tail_drop, front, List.tail_cons]
      have some_ : r.popped < r.heard.length := by
        have length := congrArg List.length front
        rw [List.length_drop, List.length_cons] at length
        omega
      refine ⟨fed.distinct, fed.open_, some_, ?_, ?_, ?_, ?_⟩
      · simp only [Pc.posts, List.append_nil]
        exact behind.symm
      · rintro m k stale ⟨j, same | same⟩
        · cases same
          exact ⟨rfl, Nat.succ_pos _, front.trans (congrArg _ behind.symm)⟩
        · cases same
      · intro _ _ _ _ _ same
        cases same
      · intro j fd member client
        exact (fed.served calm (List.mem_of_getElem? member) client).keep Iff.rfl rfl

/-- On to the next slot, when the client in slot `k` has got the message or is not due any. -/
theorem Fed.pass (fed : Fed P s r) {i k : Nat} {msg : TaggedTcpMsg} {stale : List PollFd}
    (at_ : s.pc.passes msg k stale) (at' : s'.pc = .broadcast i msg (k + 1) stale)
    (same : s'.pollfds = s.pollfds ∧ s'.sockets = s.sockets ∧ s'.outQueue = s.outQueue ∧
      s'.bufs = s.bufs ∧ s'.handler = s.handler)
    (log : ∀ fd, s.fds[k]? ≠ some fd → written fd s'.log = written fd s.log)
    (here : ∀ fd, s.fds[k]? = some fd → fd ≠ P.fd → Served s' r fd r.popped) : Fed P s' r := by
  obtain ⟨pollfds, sockets, queue, bufs, handler⟩ := same
  have fds : s'.fds = s.fds := by
    unfold State.fds
    rw [pollfds]
  have bytes : s'.bytes = s.bytes := by
    unfold State.bytes
    rw [bufs]
  have posts : s.pc.posts = [] := by
    rcases at_ with ⟨j, same | same⟩
    · rw [same]
      rfl
    · rw [same]
      rfl
  refine ⟨fds ▸ fed.distinct, ?_, fed.count, ?_, ?_, ?_, ?_⟩
  · rw [fds, sockets]
    exact fed.open_
  · have waiting := fed.waiting
    rw [posts] at waiting
    rw [queue, bytes, at']
    exact waiting
  · rintro m k' stale' ⟨j, same | same⟩
    · cases at'.symm.trans same
      rw [bytes]
      exact fed.passing msg k stale at_
    · cases at'.symm.trans same
  · intro _ _ _ _ _ same
    cases at'.symm.trans same
  · intro j fd member client
    rw [fds] at member
    have served := fed.clients j fd member client
    rw [at', Pc.delivered]
    by_cases now : j = k
    · subst now
      rw [if_pos (Nat.lt_succ_self j)]
      exact here fd member client
    · have apart : s.fds[k]? ≠ some fd := by
        intro same
        have bound := (List.getElem?_eq_some_iff.mp member).1
        exact now ((List.getElem?_inj bound fed.distinct).mp (member.trans same.symm))
      have before : s.pc.delivered r.popped j = if j < k then r.popped else r.popped - 1 := by
        rcases at_ with ⟨i, same | same⟩
        · rw [same]
          rfl
        · rw [same]
          rfl
      have later : j < k + 1 ↔ j < k := by omega
      rw [before] at served
      simp only [later]
      exact served.keep (by rw [handler]) (log fd apart)

/-- The client in the slot gets the message. -/
theorem Served.write {fd : Int} {n : Nat} {bytes : List UInt8} (served : Served s r fd (n - 1))
    (listed : fd ∈ s.handler) (handler : s'.handler = s.handler) (some_ : 0 < n)
    (count : n ≤ r.heard.length) (front : r.heard.drop (n - 1) = bytes :: r.heard.drop n)
    (log : written fd s'.log = written fd s.log ++ [bytes]) : Served s' r fd n := by
  unfold Served at served ⊢
  rw [if_pos listed] at served
  rw [handler, if_pos listed, log, served.2]
  have taken : r.heard.take n = r.heard.take (n - 1) ++ [bytes] := by
    have length : n = n - 1 + 1 := by omega
    conv_lhs => rw [length, List.take_add, front]
    rfl
  have joined : r.joined fd ≤ (r.heard.take (n - 1)).length := by
    rw [List.length_take]
    omega
  rw [taken, List.drop_append_of_le_length joined]
  exact ⟨by omega, rfl⟩

theorem Fed.writeTo (fed : Fed P s r) (stepped : Step tcpHandler P s .writeTo s') :
    Fed P s' r := by
  cases stepped with
  | @writeTo i k msg stale c at_ entry open_ =>
      have passes : s.pc.passes msg k stale := ⟨i, .inr at_⟩
      obtain ⟨rfl, some_, front⟩ := fed.passing msg k stale passes
      rw [slots, List.append_nil] at entry
      have slot := State.fds_getElem? entry
      refine fed.pass passes rfl ⟨rfl, rfl, rfl, rfl, rfl⟩ ?_ ?_
      · intro fd other
        refine if_neg ?_
        rintro rfl
        exact other slot
      · intro fd same client
        cases slot.symm.trans same
        have served := fed.clients k c.fd slot client
        rw [at_, Pc.delivered, if_neg (Nat.lt_irrefl k)] at served
        exact served.write (fed.target i msg k [] c at_ entry) rfl some_ fed.count front
          (if_pos rfl)

theorem Fed.accepted (fed : Fed P s r) (stepped : Step tcpHandler P s .accepted s') :
    Fed P s' r := by
  cases stepped with
  | @accepted i k msg stale c handler at_ entry client answer =>
      obtain ⟨rfl, member⟩ := tcpHandler_onOut answer
      obtain ⟨rfl, some_, front⟩ := fed.passing msg k stale ⟨i, .inl at_⟩
      rw [slots, List.append_nil] at entry
      have waiting := fed.waiting
      rw [at_] at waiting
      refine ⟨fed.distinct, fed.open_, fed.count, waiting, ?_, ?_, ?_⟩
      · rintro m j stale ⟨_, same | same⟩
        · cases same
        · cases same
          exact ⟨rfl, some_, front⟩
      · intro _ _ _ _ c' same entry'
        cases same
        cases entry.symm.trans entry'
        exact member rfl
      · intro j fd member client
        have served := fed.clients j fd member client
        rw [at_] at served
        exact served.keep Iff.rfl rfl

theorem Fed.filter (fed : Fed P s r) (stepped : Step tcpHandler P s .filter s') : Fed P s' r := by
  cases stepped with
  | @filter i k msg stale c handler at_ entry client answer =>
      obtain ⟨rfl, -⟩ := tcpHandler_onOut answer
      have unlisted : c.fd ∉ s.handler := of_decide_eq_false (Prod.ext_iff.mp answer).2
      obtain ⟨rfl, -, -⟩ := fed.passing msg k stale ⟨i, .inl at_⟩
      rw [slots, List.append_nil] at entry
      have slot := State.fds_getElem? entry
      refine fed.pass ⟨i, .inl at_⟩ rfl ⟨rfl, rfl, rfl, rfl, rfl⟩ (fun _ _ => rfl) ?_
      intro fd same _
      cases slot.symm.trans same
      have served := fed.clients k c.fd slot client
      rw [Served, if_neg unlisted] at served
      rw [Served]
      exact (if_neg unlisted).mpr served

theorem written_close (s : State (List Int)) (f fd : Int) :
    written fd (s.close f).log = written fd s.log := by
  rw [State.close_log, State.closed]
  split
  case isTrue => rfl
  case isFalse => rfl

/-- The client scanned leaves. -/
theorem Fed.leave (fed : Fed P s r) {i : Nat} {fd : Int} (calm : s.pc.calm = true)
    (calm' : s'.pc.calm = true) (slot : s.fds[i]? = some fd) (fds : s'.fds = s.fds.eraseIdx i)
    (sockets : s'.sockets = s.sockets.erase fd)
    (waiting : (s'.outQueue ++ s'.pc.posts).map s'.bytes =
      (s.outQueue ++ s.pc.posts).map s.bytes)
    (listed : ∀ f, f ≠ fd → (f ∈ s'.handler ↔ f ∈ s.handler))
    (log : ∀ f, written f s'.log = written f s.log) : Fed P s' r := by
  have erased : s'.fds = s.fds.erase fd := fds.trans (Erase.eraseIdx_eq_erase fed.distinct slot)
  have other {f : Int} (member : f ∈ s'.fds) : f ≠ fd := by
    rintro rfl
    rw [erased] at member
    exact fed.distinct.not_mem_erase member
  refine fed.still calm calm' ?_ ?_ waiting (fun f member => listed f (other member)) log
  · rw [fds]
    exact List.eraseIdx_sublist ..
  · intro f member
    have before : f ∈ s.fds := by
      rw [erased] at member
      exact List.mem_of_mem_erase member
    rw [sockets]
    exact (List.mem_erase_of_ne (other member)).mpr (fed.open_ before)

/-- A step. -/
theorem Fed.step (fed : Fed P s r) (conserved : Conserved P s) (unaddressed : Unaddressed s)
    (delivering : Delivering act) (stepped : Step tcpHandler P s act s') :
    Fed P s' (r.next s act) := by
  have silent : ∀ fd, written fd s.log = written fd s.log := fun _ => rfl
  cases stepped with
  | accept fd at_ entry hup in_ listening open_ negative unused =>
      exact fed.accept (.accept fd at_ entry hup in_ listening open_ negative unused)
  | read data at_ entry open_ some_ room answer =>
      exact fed.read conserved (.read data at_ entry open_ some_ room answer)
  | popBroadcast at_ entry out queue all => exact fed.pop (.popBroadcast at_ entry out queue all)
  | accepted at_ entry client answer => exact fed.accepted (.accepted at_ entry client answer)
  | filter at_ entry client answer => exact fed.filter (.filter at_ entry client answer)
  | writeTo at_ entry open_ => exact fed.writeTo (.writeTo at_ entry open_)
  | writeToFail => exact absurd rfl delivering.2.1
  | eraseEnd => exact absurd rfl delivering.2.2
  | popAccept _ _ _ queue addressed _ => exact absurd (unaddressed.head queue) addressed
  | popFilter _ _ _ queue addressed _ => exact absurd (unaddressed.head queue) addressed
  | write at_ => exact absurd at_ (unaddressed.write _ _)
  | writeFail at_ => exact absurd at_ (unaddressed.write _ _)
  | post msg => exact absurd delivering.1 Bool.false_ne_true
  | pollNone => exact fed
  | poll revents at_ reports =>
      exact fed.goto at_ rfl rfl ⟨fds_reported reports, rfl, rfl, rfl, rfl⟩ rfl silent
  | @hangUp i c at_ entry hup =>
      refine fed.leave (by rw [at_]; rfl) rfl (State.fds_getElem? entry) (State.fds_erase ..) rfl
        (by rw [at_]; rfl) ?_ (written_close _ c.fd)
      intro f other
      exact List.mem_erase_of_ne other
  | @readFail i b c at_ entry =>
      exact fed.leave (by rw [at_]; rfl) rfl (State.fds_getElem? entry) (State.fds_erase ..) rfl
        (by rw [at_]; rfl) (fun _ _ => Iff.rfl) (written_close s c.fd)
  | @push i b msg rest ret at_ room =>
      refine fed.still (by rw [at_]; rfl) rfl (List.Sublist.refl _) fed.open_ ?_
        (fun _ _ => Iff.rfl) silent
      rw [at_]
      exact congrArg _ (List.append_assoc s.outQueue [msg] rest)
  | @handled i b ret at_ =>
      cases ret with
      | _ => exact fed.goto at_ rfl rfl ⟨rfl, rfl, rfl, rfl, rfl⟩ rfl silent
  | @release b next at_ room =>
      cases next with
      | _ => exact fed.goto at_ rfl rfl ⟨rfl, rfl, rfl, rfl, rfl⟩ rfl silent
  | @broadcastEnd i k msg stale at_ past =>
      have waiting := fed.waiting
      rw [at_] at waiting
      obtain ⟨rfl, -, -⟩ := fed.passing msg k stale ⟨i, .inl at_⟩
      refine .of_calm rfl fed.distinct fed.open_ fed.count waiting ?_
      intro fd member client
      obtain ⟨j, slot⟩ := List.mem_iff_getElem?.mp member
      have served := fed.clients j fd slot client
      have bound := (List.getElem?_eq_some_iff.mp slot).1
      rw [slots, List.append_nil] at past
      rw [State.fds, List.length_map] at bound
      rw [at_, Pc.delivered, if_pos (Nat.lt_of_lt_of_le bound past)] at served
      exact served.keep Iff.rfl rfl
  | @listener i k msg stale c at_ entry own =>
      obtain ⟨rfl, -, -⟩ := fed.passing msg k stale ⟨i, .inl at_⟩
      rw [slots, List.append_nil] at entry
      refine fed.pass ⟨i, .inl at_⟩ rfl ⟨rfl, rfl, rfl, rfl, rfl⟩ (fun _ _ => rfl) ?_
      intro fd same client
      cases (State.fds_getElem? entry).symm.trans same
      exact absurd own client
  | leave at_ | pollError at_ | scanEnd at_ | acceptFail at_ | readable at_ | unreadable at_
  | takeBuf at_ | unwritable at_ | popEmpty at_ =>
      exact fed.goto at_ rfl rfl ⟨rfl, rfl, rfl, rfl, rfl⟩ rfl silent

/-! ## Runs -/

/-- Any run has its record. -/
theorem exists_relays {cond : State (List Int) → Act → Prop} {s₀ : State (List Int)} (r₀ : Relay)
    (reaches : Reaches (Step tcpHandler P) cond s₀ s) :
    ∃ r, Reaches (Relays P) (fun x act => cond x.1 act) (s₀, r₀) (s, r) := by
  induction reaches with
  | start => exact ⟨r₀, .start⟩
  | next _ meets stepped ih =>
      obtain ⟨r, run⟩ := ih
      exact ⟨_, run.next meets ⟨stepped, rfl⟩⟩

theorem fed_of_delivering
    (reaches : Reaches (Relays P) (fun _ act => Delivering act) (State.bound P [], .start) (s, r)) :
    Reaches (Step tcpHandler P) (fun _ act => Delivering act) (State.bound P []) s ∧ Fed P s r := by
  have start : Fed P (State.bound P ([] : List Int)) .start := by
    refine .of_calm rfl (List.nodup_singleton _) (List.Subset.refl _) (Nat.le_refl _) rfl ?_
    intro fd member client
    exact absurd (List.mem_singleton.mp member) client
  refine reaches.invariant (I := fun x =>
    Reaches (Step tcpHandler P) (fun _ act => Delivering act) (State.bound P []) x.1 ∧
      Fed P x.1 x.2) ⟨.start, start⟩ ?_
  rintro ⟨t, u⟩ act ⟨t', u'⟩ - ⟨before, fed⟩ delivering ⟨stepped, rfl⟩
  have own (t : State (List Int)) (act : Act) (delivering : Delivering act) : act.own = true :=
    delivering.1
  have conserved := conserved_of_own own before
  have unaddressed := unaddressed_of_own own before
  exact ⟨before.next delivering stepped, fed.step conserved unaddressed delivering stepped⟩

/-- **The relay.** In every run of the test server in which no write to a client fails, at the
top of the loop each client that is active has received exactly what was taken out of the
queue since it joined, each message whole, once and in the order in which they were read; the
other clients have received nothing; and what was read from active clients and not taken out
waits in the queue, as it was read. -/
theorem relayed_of_delivering (P : Params) (s : State (List Int)) (r : Relay)
    (reaches : Reaches (Relays P) (fun _ act => Delivering act) (State.bound P [], .start) (s, r))
    (top : s.pc = .top) : Relayed P s r := by
  have fed := (fed_of_delivering reaches).2
  have calm : s.pc.calm = true := by
    rw [top]
    rfl
  have waiting := fed.waiting
  rw [top] at waiting
  refine ⟨by simpa only [Pc.posts, List.append_nil] using waiting, ?_, ?_⟩
  · intro fd member client listed
    have served := fed.served calm member client
    rw [Served, if_pos listed] at served
    exact served.2
  · intro fd member client unlisted
    have served := fed.served calm member client
    rwa [Served, if_neg unlisted] at served

/-- Client 4 sends a message, and clients 4 and 5 receive it. -/
theorem relayed_of_delivering_both : ∃ (s : State (List Int)) (r : Relay),
    s.fds = [3, 4, 5] ∧ (r.heard.take r.popped).drop (r.joined 4) = [[1]] ∧
      (r.heard.take r.popped).drop (r.joined 5) = [[1]] := by
  have run : ∃ s, Reaches (Step tcpHandler (tcpServer 3)) (fun _ act => Delivering act)
      (State.bound (tcpServer 3) []) s ∧ s.pc = .top ∧ s.fds = [3, 4, 5] ∧ s.handler = [4, 5] ∧
        written 4 s.log = [[1]] ∧ written 5 s.log = [[1]] :=
    exists_of_play (List.flatten [twoActive, broadcasting, [.listener, .accepted, .writeTo,
      .accepted, .writeTo, .broadcastEnd, .release], passing, [.scanEnd]]) (by decide +kernel)
  obtain ⟨s, reaches, top, fds, active, four, five⟩ := run
  obtain ⟨r, relays⟩ := exists_relays .start reaches
  have relayed := relayed_of_delivering (tcpServer 3) s r relays top
  refine ⟨s, r, fds, ?_, ?_⟩
  · rw [← relayed.active 4 (by rw [fds]; decide) (by decide) (by rw [active]; decide), four]
  · rw [← relayed.active 5 (by rw [fds]; decide) (by decide) (by rw [active]; decide), five]

end Server

end OpenFix
