import OpenFix.Client.Output

/-!
# Sequence numbers

`create_*` takes its number with `fetch_add`, and `post` pushes the message later, so another
thread can be between the two.

* `Counter`: in every run the created messages carry the numbers from 1 on, each once.
* `push_numbered_iff`: a push continues the numbers of the pushed messages exactly when its
  message has the smallest number among the created ones not pushed yet.
* `carries_of_inTurn`: the law for every run whose pushes all come in that order.
-/

namespace OpenFix

namespace Client

open Transition (Reaches always)
open Tally (tally tally_update mem_tally)

variable {ι : Type} [Fintype ι] {P : Params} {s s' : State ι}

/-! ## What a step does to the numbers -/

/-- The created messages, pushed or not. -/
def made (s : State ι) : Multiset TcpMsg :=
  (s.posted : Multiset TcpMsg) + tally PostPc.pushing s.posting

/-- The three things a step can do to the numbers. -/
inductive Numbering (P : Params) (s : State ι) : Act ι → State ι → Prop
  | keep {act : Act ι} {s' : State ι} : made s' = made s → s'.posted = s.posted →
    s'.seq = s.seq → Numbering P s act s'
  | create {t : Option ι} {s' : State ι} (msg : TcpMsg) : made s' = msg ::ₘ made s →
    s'.posted = s.posted → msg.seq = s.seq → s'.seq = wrap32 (s.seq + 1) →
    P.broker.creates msg.kind msg.seq msg.bytes →
    Numbering P s (.post t (.create msg.bytes.length)) s'
  | push {t : Option ι} {s' : State ι} (msg : TcpMsg) : s.posting t = .push msg →
    made s' = made s → s'.posted = s.posted ++ [msg] → s'.seq = s.seq →
    Numbering P s (.post t .push) s'

theorem PollStep.numbering {act : PollAct} (stepped : PollStep P s act s') :
    Numbering P s (.poll act) s' := by
  cases stepped with
  | _ => exact .keep rfl rfl rfl

variable [DecidableEq ι]

theorem made_setPosting (s : State ι) (t : Option ι) (pc : PostPc) :
    made (s.setPosting t pc) + (s.posting t).pushing = made s + pc.pushing := by
  unfold made State.setPosting
  dsimp only
  rw [add_assoc, tally_update, ← add_assoc]

/-- A thread moves between two places without a created message. -/
theorem made_setPosting_of_none {t : Option ι} {pc : PostPc} (before : (s.posting t).pushing = 0)
    (after : pc.pushing = 0) : made (s.setPosting t pc) = made s := by
  have moved := made_setPosting s t pc
  rwa [before, after, add_zero, add_zero] at moved

theorem ConsumerStep.numbering {act : ConsumerAct} (stepped : ConsumerStep P s act s') :
    Numbering P s (.consumer act) s' := by
  cases stepped with
  | @reply msg at_ _ idle =>
      refine .keep ?_ rfl rfl
      exact made_setPosting_of_none (s := { s with consumer := .reply msg })
        (congrArg PostPc.pushing idle) rfl
  | @subscribe msg at_ _ _ idle =>
      refine .keep ?_ rfl rfl
      exact made_setPosting_of_none (s := { s with once := true, consumer := .subscribe msg })
        (congrArg PostPc.pushing idle) rfl
  | _ => exact .keep rfl rfl rfl

theorem PostStep.numbering {t : Option ι} {act : PostAct} (stepped : PostStep P s t act s') :
    Numbering P s (.post t act) s' := by
  cases stepped with
  | start i kind idle =>
      exact .keep (made_setPosting_of_none (congrArg PostPc.pushing idle) rfl) rfl rfl
  | @takeBuf _ kind b rest at_ pool =>
      refine .keep ?_ rfl rfl
      exact made_setPosting_of_none (s := { s with pool := rest }) (congrArg PostPc.pushing at_) rfl
  | @create _ kind b bytes at_ creates fits =>
      refine .create ⟨b, bytes.length, kind, s.seq, bytes⟩ ?_ rfl rfl rfl creates
      have moved := made_setPosting
        { s with mem := Bytes.overwrite s.mem b bytes, seq := wrap32 (s.seq + 1) } t
        (.push ⟨b, bytes.length, kind, s.seq, bytes⟩)
      rw [at_] at moved
      apply ((add_zero _).symm.trans moved).trans
      rw [← Multiset.singleton_add]
      exact add_comm _ _
  | @push _ msg at_ room =>
      refine .push msg at_ ?_ rfl rfl
      have moved := made_setPosting
        { s with outgoing := s.outgoing ++ [msg], posted := s.posted ++ [msg] } t .idle
      rw [at_] at moved
      refine add_right_cancel (b := ({msg} : Multiset TcpMsg)) (moved.trans ?_)
      unfold made
      rw [← Multiset.coe_add, Multiset.coe_singleton]
      exact (add_zero _).trans (add_right_comm _ _ _)

theorem Step.numbering {act : Act ι} (stepped : Step P s act s') : Numbering P s act s' := by
  cases stepped with
  | poll stepped => exact stepped.numbering
  | consumer stepped => exact stepped.numbering
  | post stepped => exact stepped.numbering

/-! ## The counter -/

/-- The numbers from 1 to `n`. -/
def numbers (n : Nat) : List Int := (List.range n).map fun i : Nat => (i : Int) + 1

theorem numbers_add (n k : Nat) :
    numbers (n + k) = numbers n ++ (List.range k).map fun i : Nat => ((n + i : Nat) : Int) + 1 := by
  rw [numbers, List.range_add, List.map_append, List.map_map, numbers]
  rfl

theorem numbers_succ (n : Nat) : numbers (n + 1) = numbers n ++ [(n : Int) + 1] :=
  numbers_add n 1

/-- `next_seq( )` has numbered the created messages from 1 on. -/
structure Counter (P : Params) (s : State ι) : Prop where
  next : s.seq = wrap32 ((made s).card + 1)
  creates : ∀ m ∈ made s, P.broker.creates m.kind m.seq m.bytes
  taken : (made s).card < 2 ^ 31 → (made s).map (·.seq) = numbers (made s).card

omit [DecidableEq ι] in
theorem Counter.step {act : Act ι} (counter : Counter P s) (stepped : Numbering P s act s') :
    Counter P s' := by
  cases stepped with
  | keep same _ seq => exact ⟨by rw [seq, same, counter.next], same ▸ counter.creates,
      same ▸ counter.taken⟩
  | push msg _ same _ seq => exact ⟨by rw [seq, same, counter.next], same ▸ counter.creates,
      same ▸ counter.taken⟩
  | create msg more _ number seq creates =>
      refine ⟨?_, ?_, ?_⟩
      · rw [seq, counter.next, more, Multiset.card_cons, wrap32_add_left, Nat.cast_add,
          Nat.cast_one]
      · intro m member
        rw [more] at member
        rcases Multiset.mem_cons.mp member with rfl | old
        · exact creates
        · exact counter.creates m old
      · intro few
        rw [more, Multiset.card_cons] at few
        have current : msg.seq = (made s).card + 1 := by
          rw [number, counter.next, wrap32_of_range (by omega) (by omega)]
        rw [more, Multiset.card_cons, Multiset.map_cons, counter.taken (by omega), current,
          numbers_succ, ← Multiset.coe_add, Multiset.coe_singleton, ← Multiset.singleton_add,
          add_comm]

omit [DecidableEq ι] in
theorem made_connected (P : Params) (fd : Int) : made (State.connected P ι fd) = 0 := by
  unfold made
  rw [tally_connected (f := PostPc.pushing) rfl]
  rfl

variable {cond : State ι → Act ι → Prop} {fd : Int}

theorem counter_of_reaches (reaches : Reaches (Step P) cond (State.connected P ι fd) s) :
    Counter P s := by
  apply reaches.invariant (I := Counter P)
  · refine ⟨?_, ?_, ?_⟩
    · rw [made_connected]
      rfl
    · intro m member
      rw [made_connected] at member
      exact (Multiset.notMem_zero m member).elim
    · rw [made_connected]
      exact fun _ => rfl
  · intro s act s' _ counter _ stepped
    exact counter.step stepped.numbering

/-! ## The order of the pushes -/

/-- The pushed messages carry the numbers from 1 on, in order. -/
def Numbered (s : State ι) : Prop := s.posted.map (·.seq) = numbers s.posted.length

/-- A push has the smallest number among the created messages not pushed yet. -/
def InTurn (s : State ι) (act : Act ι) : Prop :=
  ∀ t msg, act = .post t .push → s.posting t = .push msg →
    ∀ u other, s.posting u = .push other → msg.seq ≤ other.seq

omit [DecidableEq ι] in
/-- The created messages not pushed yet carry the numbers behind those of the pushed ones. -/
theorem Counter.waiting (counter : Counter P s) (few : (made s).card < 2 ^ 31)
    (numbered : Numbered s) (x : Int) :
    (∃ u msg, s.posting u = .push msg ∧ msg.seq = x) ↔
      (s.posted.length : Int) < x ∧ x ≤ (made s).card := by
  have count : (made s).card = s.posted.length + (tally PostPc.pushing s.posting).card := by
    rw [made, Multiset.card_add, Multiset.coe_card]
  have taken := counter.taken few
  have rest : (tally PostPc.pushing s.posting).map (·.seq) =
      (List.range (tally PostPc.pushing s.posting).card).map
        fun i : Nat => ((s.posted.length + i : Nat) : Int) + 1 := by
    rw [count, numbers_add, made, Multiset.map_add, Multiset.map_coe, numbered,
      ← Multiset.coe_add] at taken
    exact add_left_cancel taken
  have threads : (∃ u msg, s.posting u = .push msg ∧ msg.seq = x) ↔
      x ∈ (tally PostPc.pushing s.posting).map (·.seq) := by
    rw [Multiset.mem_map]
    constructor
    · intro waiting
      rcases waiting with ⟨u, msg, at_, same⟩
      have member : msg ∈ (s.posting u).pushing := by
        rw [at_]
        exact Multiset.mem_singleton_self msg
      exact ⟨msg, mem_tally.mpr ⟨u, member⟩, same⟩
    · intro waiting
      rcases waiting with ⟨msg, member, same⟩
      rcases mem_tally.mp member with ⟨u, held⟩
      cases at_ : s.posting u with
      | push other =>
          rw [at_] at held
          cases Multiset.mem_singleton.mp held
          exact ⟨u, msg, at_, same⟩
      | _ =>
          rw [at_] at held
          exact (Multiset.notMem_zero msg held).elim
  rw [threads, rest, Multiset.mem_coe, List.mem_map, count]
  constructor
  · intro waiting
    rcases waiting with ⟨i, below, rfl⟩
    have bound := List.mem_range.mp below
    omega
  · intro range
    rcases range with ⟨low, high⟩
    refine ⟨(x - s.posted.length - 1).toNat, List.mem_range.mpr (by omega), by omega⟩

omit [DecidableEq ι] in
/-- The order of a push. It continues the numbers exactly when no other thread has a
created message with a smaller number. -/
theorem Counter.push_numbered_iff (counter : Counter P s) (few : (made s).card < 2 ^ 31)
    (numbered : Numbered s) {t : Option ι} {msg : TcpMsg} (at_ : s.posting t = .push msg) :
    (s.posted ++ [msg]).map (·.seq) = numbers (s.posted ++ [msg]).length ↔
      ∀ u other, s.posting u = .push other → msg.seq ≤ other.seq := by
  have own := (counter.waiting few numbered msg.seq).mp ⟨t, msg, at_, rfl⟩
  have next : (s.posted ++ [msg]).map (·.seq) = numbers (s.posted ++ [msg]).length ↔
      msg.seq = s.posted.length + 1 := by
    rw [List.length_append, List.length_singleton, numbers_succ, List.map_append, numbered]
    simp only [List.map_cons, List.map_nil, List.append_cancel_left_eq, List.cons.injEq,
      and_true]
  rw [next]
  constructor
  · intro same u other held
    have waits := (counter.waiting few numbered other.seq).mp ⟨u, other, held, rfl⟩
    omega
  · intro smallest
    rcases (counter.waiting few numbered (s.posted.length + 1)).mpr (by omega) with
      ⟨u, other, held, same⟩
    have below := smallest u other held
    omega

omit [DecidableEq ι] in
/-- The count of the created messages never falls. -/
theorem Numbering.card_le {act : Act ι} (stepped : Numbering P s act s') :
    (made s).card ≤ (made s').card := by
  cases stepped with
  | keep same _ _ => rw [same]
  | create msg more _ _ _ _ =>
      rw [more, Multiset.card_cons]
      exact Nat.le_succ _
  | push msg _ same _ _ => rw [same]

omit [DecidableEq ι] in
theorem Numbering.numbered {act : Act ι} (counter : Counter P s) (few : (made s).card < 2 ^ 31)
    (numbered : Numbered s) (inTurn : InTurn s act) (stepped : Numbering P s act s') :
    Numbered s' := by
  unfold Numbered
  cases stepped with
  | keep _ posted _ =>
      rw [posted]
      exact numbered
  | create msg _ posted _ _ _ =>
      rw [posted]
      exact numbered
  | push msg at_ _ posted _ =>
      rw [posted]
      exact (counter.push_numbered_iff few numbered at_).mpr (inTurn _ msg rfl at_)

theorem numbered_of_reaches (reaches : Reaches (Step P) InTurn (State.connected P ι fd) s)
    (few : (made s).card < 2 ^ 31) : Numbered s := by
  refine reaches.invariant (I := fun s => (made s).card < 2 ^ 31 → Numbered s) (fun _ => rfl) ?_ few
  intro s act s' before numbered inTurn stepped few
  have bound : (made s).card < 2 ^ 31 := stepped.numbering.card_le.trans_lt few
  exact stepped.numbering.numbered (counter_of_reaches before) bound (numbered bound) inTurn

/-! ## The law -/

/-- The bytes of `msg` are a message of the broker with MsgSeqNum `n`. -/
def Carries (lmax : Lmax) (msg : TcpMsg) (n : Int) : Prop :=
  msg.seq = n ∧ ∃ time, msg.bytes = lmax.bytes msg.kind time n ∧
    (FixSpec.MsgSeqNum, fmtInt n) ∈ lmax.fields msg.kind time n

/-- **Sequence numbers.** Over any number of threads and in every run in which each push has
the smallest number among the created messages not pushed yet, the messages that `poll( )`
pops carry 1, 2, 3, ... -/
theorem carries_of_inTurn (lmax : Lmax) (fd : Int) (s : State ι)
    (reaches : Reaches (Step lmax.fixTcpClient) InTurn (State.connected lmax.fixTcpClient ι fd) s)
    (few : (made s).card < 2 ^ 31) (i : Nat) (msg : TcpMsg) (popped : s.popped[i]? = some msg) :
    Carries lmax msg (i + 1) := by
  have queue := posted_eq reaches
  have bound := (List.getElem?_eq_some_iff.mp popped).1
  have posted : s.posted[i]? = some msg := by
    rw [queue, List.getElem?_append_left bound, popped]
  have number : msg.seq = i + 1 := by
    have numbered := congrArg (·[i]?) (numbered_of_reaches reaches few)
    have inside : i < s.posted.length := (List.getElem?_eq_some_iff.mp posted).1
    simpa only [List.getElem?_map, posted, numbers, List.getElem?_range inside,
      Option.map_some, Option.some.injEq] using numbered
  have member : msg ∈ made s :=
    Multiset.mem_add.mpr (.inl (Multiset.mem_coe.mpr (List.mem_of_getElem? posted)))
  rcases (counter_of_reaches reaches).creates msg member with ⟨time, -, bytes⟩
  rw [number] at bytes
  exact ⟨number, time, bytes, lmax.seqNum_mem_fields msg.kind time _⟩

/-- A single logon. -/
theorem carries_of_inTurn_logon :
    Carries Lmax.sample ⟨0, (Lmax.sample.bytes .logon [] 1).length, .logon, 1,
      Lmax.sample.bytes .logon [] 1⟩ 1 := by
  have created : Reaches (Step Lmax.sample.fixTcpClient) InTurn
      (State.connected Lmax.sample.fixTcpClient Unit 3) _ :=
    create_run_of_idle (i := ()) rfl rfl (Lmax.sample_creates 1) (by decide +kernel)
      fun _ _ _ other _ _ same => by
        cases same
        exact (other rfl).elim
  have pushed := created.next (a := .post (some ()) .push) (by
    intro t msg _ at_ u other held
    rcases t with _ | _
    · cases at_
    · rcases u with _ | _
      · cases held
      · cases at_
        cases held
        exact le_rfl) (.post (.push (State.creates_posting ..) (by decide)))
  have popped := pushed.trans (popOut_run rfl (by decide) rfl (by
    intro _ _ _ _ _ same
    cases same))
  exact carries_of_inTurn Lmax.sample 3 _ popped (by decide +kernel) 0 _ rfl

/-- Two threads: the one that took number 2 pushes first. -/
theorem not_carries_overtaken :
    ¬ ∀ s : State Bool,
      Reaches (Step Lmax.sample.fixTcpClient) always
        (State.connected Lmax.sample.fixTcpClient Bool 3) s →
      (made s).card < 2 ^ 31 →
      ∀ (i : Nat) (msg : TcpMsg), s.popped[i]? = some msg → Carries Lmax.sample msg (i + 1) := by
  intro law
  have created : Reaches (Step Lmax.sample.fixTcpClient) always
      (State.connected Lmax.sample.fixTcpClient Bool 3) _ :=
    create_run_of_idle (i := true) rfl rfl (Lmax.sample_creates 1) (by decide +kernel)
      fun _ _ _ _ => trivial
  have overtaken := created.trans (post_run_of_idle (i := false) rfl rfl (Lmax.sample_creates 2)
    (by decide +kernel) (by decide) fun _ _ _ => trivial)
  have popped := overtaken.trans (popOut_run rfl (by decide) rfl fun _ _ _ => trivial)
  have carries := law _ popped (by decide +kernel) 0 _ rfl
  exact absurd carries.1 (by decide)

end Client

end OpenFix
