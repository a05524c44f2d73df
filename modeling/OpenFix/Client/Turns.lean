import OpenFix.Client.Output

/-!
# Every message has its turn

How long a message waits in `m_outgoing`. A pass of `poll( )` in which `::poll` reports POLLOUT
takes one message out of the queue, whatever it reads and hands over before, and whatever the
other threads push meanwhile; so a message waits for as many such passes as there are messages in
front of it, and one more.

* `Turn`: what a step does to the passes that still have to take a message.
* `sent_of_offers`: what is on the wire behind a number of such passes.
-/

namespace OpenFix

namespace Client

open Transition (Reaches)

variable {ι : Type} {P : Params} {s s' : State ι}

/-! ## Passes -/

/-- How many times the step reports POLLOUT. -/
def Act.offers : Act ι → Nat
  | .poll (.events _ pollOut) => pollOut.toNat
  | _ => 0

/-- The pass has a POLLOUT and has not come to `try_pop` yet. -/
def PollPc.offered : PollPc → Nat
  | .getBuf out => out.toNat
  | .read _ out => out.toNat
  | .handle _ _ out _ _ => out.toNat
  | .release _ (.out out) => out.toNat
  | .popOut => 1
  | _ => 0

/-- The loop is left, or is about to be. -/
def PollPc.leaving : PollPc → Bool
  | .release _ .close => true
  | .closing => true
  | .done => true
  | _ => false

/-- A step of the client: an offer is kept until a message is taken for it or none waits, unless
the loop is left. -/
inductive Turn (s : State ι) (act : Act ι) (s' : State ι) : Prop
  | keep : s'.popped = s.popped → s'.poll.offered = s.poll.offered + act.offers → Turn s act s'
  | take (msg : TcpMsg) : s'.popped = s.popped ++ [msg] →
    s'.poll.offered + 1 = s.poll.offered + act.offers → Turn s act s'
  | empty : s'.outgoing = [] → Turn s act s'
  | leave : s'.poll.leaving = true → Turn s act s'

theorem offered_afterIn (out : Bool) : (PollPc.afterIn out).offered = out.toNat := by
  cases out with
  | false => rfl
  | true => rfl

theorem PollStep.turn {act : PollAct} (stepped : PollStep P s act s') : Turn s (.poll act) s' := by
  cases stepped with
  | error => exact .leave rfl
  | events pollIn pollOut at_ _ =>
      refine .keep rfl ?_
      rw [at_]
      cases pollIn with
      | false => exact (offered_afterIn pollOut).trans (Nat.zero_add _).symm
      | true => exact (Nat.zero_add _).symm
  | leave => exact .leave rfl
  | takeBuf at_ _ => exact .keep rfl (by rw [at_]; rfl)
  | recv data garbage at_ _ _ => exact .keep rfl (by rw [at_]; rfl)
  | recvFail => exact .leave rfl
  | handle at_ _ _ _ => exact .keep rfl (by rw [at_]; rfl)
  | @handled b len out ret garbage at_ =>
      refine .keep rfl ?_
      rw [at_]
      cases ret with
      | false => exact offered_afterIn out
      | true => rfl
  | @release b next at_ _ =>
      cases next with
      | close => exact .leave rfl
      | out out =>
          refine .keep rfl ?_
          rw [at_]
          exact offered_afterIn out
  | popEmpty _ none_ => exact .empty none_
  | popOut at_ queue => exact .take _ rfl (by rw [at_]; rfl)
  | send ret at_ _ _ => exact .keep rfl (by rw [at_]; rfl)
  | sendFail => exact .leave rfl
  | close => exact .leave rfl

/-- A loop that is being left is not entered again. -/
theorem PollStep.leaving {act : PollAct} (stepped : PollStep P s act s')
    (leaving : s.poll.leaving = true) : s'.poll.leaving = true := by
  have inside {pc : PollPc} (at_ : s.poll = pc) (goes : pc.leaving = false) : False := by
    rw [at_, goes] at leaving
    cases leaving
  cases stepped with
  | error | leave | recvFail | sendFail | close => rfl
  | events pollIn pollOut at_ _ => exact (inside at_ rfl).elim
  | recv data garbage at_ _ _ => exact (inside at_ rfl).elim
  | send ret at_ _ _ => exact (inside at_ rfl).elim
  | takeBuf at_ | handle at_ | handled at_ | popEmpty at_ | popOut at_ =>
      exact (inside at_ rfl).elim
  | @release b next at_ _ =>
      cases next with
      | close => rfl
      | out out => exact (inside at_ rfl).elim

variable [DecidableEq ι]

theorem Step.turn {act : Act ι} (stepped : Step P s act s') : Turn s act s' := by
  cases stepped with
  | poll stepped => exact stepped.turn
  | consumer stepped => cases stepped with | _ => exact .keep rfl rfl
  | post stepped => cases stepped with | _ => exact .keep rfl rfl

theorem Step.leaving {act : Act ι} (stepped : Step P s act s') (leaving : s.poll.leaving = true) :
    s'.poll.leaving = true := by
  cases stepped with
  | poll stepped => exact stepped.leaving leaving
  | consumer stepped => cases stepped with | _ => exact leaving
  | post stepped => cases stepped with | _ => exact leaving

/-! ## Runs -/

/-- A step, with the number of times that POLLOUT was reported. -/
def Offered (P : Params) (x : State ι × Nat) (act : Act ι) (y : State ι × Nat) : Prop :=
  Step P x.1 act y.1 ∧ y.2 = x.2 + act.offers

variable {cond : State ι → Act ι → Prop} {fd : Int} {s₀ : State ι} {n : Nat}

omit [DecidableEq ι] in
/-- What was posted stays posted. -/
theorem Output.posted_append {act : Act ι} (output : Output s act s') :
    s.posted <+: s'.posted := by
  cases output with
  | keep more posted => exact ⟨more, posted.symm⟩
  | pop msg posted | send msg ret _ _ posted | fail posted =>
      rw [posted]

theorem reaches_of_offered (reaches : Reaches (Step P) cond (State.connected P ι fd) s₀)
    (run : Reaches (Offered P) (fun x act => cond x.1 act) (s₀, 0) (s, n)) :
    Reaches (Step P) cond (State.connected P ι fd) s := by
  apply run.invariant (I := fun x => Reaches (Step P) cond (State.connected P ι fd) x.1) reaches
  intro x act x' _ before meets offered
  exact before.next meets offered.1

/-- Of the messages that waited at first, as many have been taken as there were offers, but for
the one that stands. -/
def Taken (s₀ : State ι) (x : State ι × Nat) : Prop :=
  s₀.posted <+: x.1.posted ∧
    (x.1.poll.leaving = true ∨
      s₀.popped.length + min x.2 s₀.outgoing.length ≤ x.1.popped.length + x.1.poll.offered)

theorem Taken.step {x x' : State ι × Nat} {act : Act ι} (taken : Taken s₀ x)
    (queue₀ : s₀.posted = s₀.popped ++ s₀.outgoing)
    (queue : x'.1.posted = x'.1.popped ++ x'.1.outgoing) (offered : Offered P x act x') :
    Taken s₀ x' := by
  obtain ⟨stepped, count⟩ := offered
  have posted := taken.1.trans stepped.output.posted_append
  refine ⟨posted, ?_⟩
  rcases taken.2 with leaving | enough
  · exact .inl (stepped.leaving leaving)
  · cases stepped.turn with
    | keep popped offers =>
        rw [popped, offers, count]
        omega
    | take msg popped offers =>
        rw [popped, List.length_append, List.length_singleton, count]
        omega
    | empty none_ =>
        -- All that was posted has been taken.
        have all := posted.length_le
        rw [queue₀, queue, none_, List.append_nil, List.length_append] at all
        omega
    | leave leaving => exact .inl leaving

variable [Fintype ι]

/-- From any state of a run on in which each message fits its buffer and each `send` accepts the
whole message, whatever is read and handed over and whatever the other threads do: when `poll( )`
is at the top of its loop again and `::poll` has reported POLLOUT `n` times, the first `n` messages
that waited are on the wire, whole and in order. -/
theorem sent_of_offers (P : Params) (fd : Int) (s s' : State ι) (n : Nat)
    (reaches : Reaches (Step P) (WholeFits P) (State.connected P ι fd) s)
    (run : Reaches (Offered P) (fun x act => WholeFits P x.1 act) (s, 0) (s', n))
    (top : s'.poll = .top) :
    s.popped ++ s.outgoing.take n <+: s'.popped ∧ s'.wire = contents s'.popped := by
  have queue := posted_eq reaches
  have reaches' := reaches_of_offered reaches run
  have queue' := posted_eq reaches'
  have taken : Taken s (s', n) := by
    refine run.invariant (I := Taken s) ⟨List.prefix_refl _, .inr ?_⟩ ?_
    · rw [Nat.zero_min, Nat.add_zero]
      exact Nat.le_add_right _ _
    · intro x act x' before taken meets offered
      have after := (reaches_of_offered reaches before).next meets offered.1
      exact taken.step queue (posted_eq after) offered
  refine ⟨?_, ?_⟩
  · obtain ⟨posted, leaving | enough⟩ := taken
    · rw [top] at leaving
      cases leaving
    · rw [top] at enough
      have first : s.popped ++ s.outgoing.take n <+: s'.posted := by
        refine List.IsPrefix.trans ?_ posted
        rw [queue]
        exact (List.prefix_append_right_inj _).mpr (List.take_prefix n s.outgoing)
      have popped : s'.popped <+: s'.posted := ⟨s'.outgoing, queue'.symm⟩
      refine List.prefix_of_prefix_length_le first popped ?_
      rw [List.length_append, List.length_take]
      exact enough
  · have serves : s'.poll.serves = true := by
      rw [top]
      rfl
    obtain ⟨before, split, wire⟩ := (whole_of_reaches reaches').2 serves
    rw [top] at split
    rw [wire, split]
    exact congrArg contents (List.append_nil before).symm

omit [Fintype ι] in
/-- A pass that takes the first message and sends it whole. -/
theorem pass_run {msg : TcpMsg} {rest : List TcpMsg} (n : Nat) (at_ : s.poll = .top)
    (open_ : 0 < s.fd) (outgoing : s.outgoing = msg :: rest) (some_ : 1 ≤ msg.len)
    (room : s.pool.length < P.bufpoolSize) :
    ∃ s', Reaches (Offered P) (fun x act => WholeFits P x.1 act) (s, n) (s', n + 1) ∧
      s'.poll = .top ∧ s'.outgoing = rest := by
  have quiet (s : State ι) (act : PollAct) (other : ∀ ret, act ≠ .send ret) :
      WholeFits P s (.poll act) := by
    refine ⟨fits_poll _ _ _, fun _ ret _ same => ?_⟩
    cases same
    exact (other ret rfl).elim
  have polled : Reaches (Offered P) (fun x act => WholeFits P x.1 act) (s, n)
      ({ s with poll := .popOut }, n + 1) :=
    Reaches.start.next (quiet s (.events false true) nofun)
      ⟨.poll (.events false true at_ open_), rfl⟩
  have popped := polled.next (quiet _ .popOut nofun)
    (show Offered P _ _ (_, n + 1) from ⟨.poll (.popOut rfl outgoing), rfl⟩)
  have sent := popped.next
    (show WholeFits P _ (.poll (.send msg.len)) by
      refine ⟨fits_poll _ _ _, fun other ret same sends => ?_⟩
      cases same
      cases sends
      rfl)
    (show Offered P _ _ (_, n + 1) from ⟨.poll (.send msg.len rfl some_ le_rfl), rfl⟩)
  have released := sent.next (quiet _ .release nofun)
    (show Offered P _ _ (_, n + 1) from ⟨.poll (.release rfl room), rfl⟩)
  exact ⟨_, released, rfl, rfl⟩

/-- A logon that waits, and a pass. -/
theorem sent_of_offers_logon : ∃ (s s' : State Unit), s.popped = [] ∧
    contents s.outgoing = Lmax.sample.bytes .logon [] 1 ∧
    s.popped ++ s.outgoing.take 1 <+: s'.popped ∧ s'.wire = contents s'.popped := by
  have posted : ∃ (s : State Unit) (msg : TcpMsg), Reaches (Step Lmax.sample.fixTcpClient)
      (WholeFits Lmax.sample.fixTcpClient) (State.connected Lmax.sample.fixTcpClient Unit 3) s ∧
        s.poll = .top ∧ s.fd = 3 ∧ s.outgoing = [msg] ∧
        msg.bytes = Lmax.sample.bytes .logon [] 1 ∧ s.popped = [] ∧ 1 ≤ msg.len ∧
        s.pool.length < Lmax.sample.fixTcpClient.bufpoolSize :=
    ⟨_, _, post_run_of_idle (i := ()) rfl rfl (Lmax.sample_creates 1) (by decide +kernel)
      (by decide) fun _ _ of => ⟨PostAct.fits of (by decide +kernel) _ _, fun _ _ _ => nofun⟩,
      rfl, rfl, rfl, rfl, rfl, by decide +kernel, by decide +kernel⟩
  obtain ⟨s, msg, reaches, at_, fd, outgoing, bytes, popped, some_, room⟩ := posted
  obtain ⟨s', run, top, -⟩ := pass_run 0 at_ (by rw [fd]; decide) outgoing some_ room
  refine ⟨s, s', popped, ?_, sent_of_offers _ 3 s s' 1 reaches run top⟩
  rw [outgoing, contents_singleton, bytes]

end Client

end OpenFix
