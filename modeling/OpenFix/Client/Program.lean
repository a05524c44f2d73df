import OpenFix.Client.Deadlock
import OpenFix.Client.Dispatch
import OpenFix.Client.Sequence
import OpenFix.LmaxWire

/-!
# The conversation of `lmax_cli`

The runs of the program, from the state in which `main` starts the consumer and enters
`poll( )`. Behind the logon only the consumer posts, so the pushes come in the order of the
numbers.

* `Step.asked`: the kinds of the messages a step asks for, and the flag of `std::call_once`.
* `exists_sent`: the messages on the wire, their kinds, numbers and bytes.
* `sent_of_launched`, `heard_of_launched`: the conversation, and what a peer with the parser
  and the handler of this repository makes of it.
-/

namespace OpenFix

namespace Client

open Transition (Reaches always)

/-! ## Whole messages on the wire -/

section Wire

variable {ι : Type} [DecidableEq ι] {P : Params} {s s' : State ι}

/-- The wire has whole messages, the first ones that were popped, and as long as `poll( )`
goes on all but the one it is sending. -/
def Delivered (s : State ι) : Prop :=
  ∃ sent, sent <+: s.popped ∧ s.wire = contents sent ∧
    (s.poll.serves = true → s.popped = sent ++ s.poll.sending)

theorem Delivered.step {act : Act ι} (delivered : Delivered s) (whole : Whole s')
    (stepped : Step P s act s') : Delivered s' := by
  by_cases serves : s'.poll.serves = true
  · rcases whole serves with ⟨before, split, accepted⟩
    exact ⟨before, split ▸ List.prefix_append _ _, accepted, fun _ => split⟩
  · rcases delivered with ⟨sent, popped, wire, -⟩
    cases stepped.output with
    | keep more _ _ popped' wire' _ _ =>
        exact ⟨sent, by rwa [popped'], by rw [wire', wire], fun on => absurd on serves⟩
    | pop msg _ _ popped' wire' _ _ _ =>
        refine ⟨sent, ?_, by rw [wire', wire], fun on => absurd on serves⟩
        rw [popped']
        exact popped.trans (List.prefix_append _ _)
    | send msg ret _ _ _ _ _ _ _ =>
        cases stepped with
        | poll stepped =>
            cases stepped
            exact absurd rfl serves
    | fail _ _ popped' wire' _ _ =>
        exact ⟨sent, by rwa [popped'], by rw [wire', wire], fun on => absurd on serves⟩

end Wire

/-! ## The logon of `main` -/

/-- `main` in `post_logon`, in front of its `get_buf`. -/
def State.calling (P : Params) (fd : Int) : State Empty :=
  (State.connected P Empty fd).setPosting none (.getBuf .logon)

variable {P : Params} {fd : Int} {s s' : State Empty} {cond : State Empty → Act Empty → Prop}

/-- The logon is a message of the broker that fits into its buffer. -/
structure Logon (lmax : Lmax) (bytes : List UInt8) : Prop where
  creates : lmax.broker.creates .logon 1 bytes
  fits : bytes.length ≤ 2048

theorem launched_run {lmax : Lmax} {bytes : List UInt8} (logon : Logon lmax bytes)
    (meets : ∀ s act, act.of bytes.length → cond s (.post none act)) :
    Reaches (Step lmax.fixTcpClient) cond (State.calling lmax.fixTcpClient fd)
      (State.launched lmax.fixTcpClient fd bytes) := by
  have inside : 0 + bytes.length ≤ 2048 * 64 := by
    have fits := logon.fits
    omega
  have posted := post_run (P := lmax.fixTcpClient) (s := State.calling lmax.fixTcpClient fd)
    (State.setPosting_posting ..) rfl logon.creates inside (show (0 : Nat) < 64 by decide) meets
  simp only [State.posts, State.calling, State.setPosting, State.message,
    Function.update_idem] at posted
  exact posted

theorem owned_calling (reaches : Reaches (Step P) cond (State.calling P fd) s) :
    owned s ≤ P.buffers := by
  refine owned_le_of_reaches ?_ reaches
  have account := owned_setPosting (State.connected P Empty fd) none (.getBuf .logon)
  rw [owns_getBuf, add_zero, owned_connected] at account
  exact (Multiset.le_add_right _ _).trans account.le

theorem stored_calling (reaches : Reaches (Step P) cond (State.calling P fd) s)
    (fits : ∀ s act, cond s act → Fits P s act) : Stored P s := by
  apply reaches.invariant (I := Stored P)
  · exact (stored_connected P fd).shrink rfl (live_setPosting_of_none rfl rfl).le
  · intro s act s' before stored meets stepped
    exact stepped.stored stored (owned_calling before) (fits s act meets)

theorem counter_calling (reaches : Reaches (Step P) cond (State.calling P fd) s) :
    Counter P s := by
  apply reaches.invariant (I := Counter P)
  · have begins : Reaches (Step P) always (State.connected P Empty fd)
        (State.connected P Empty fd) := .start
    have same : Numbering P (State.connected P Empty fd) (.poll .leave) (State.calling P fd) :=
      .keep (made_setPosting_of_none rfl rfl) rfl rfl
    exact (counter_of_reaches begins).step same
  · intro s act s' _ counter _ stepped
    exact counter.step stepped.numbering

/-- One thread pushes, so every push is in its turn. -/
theorem inTurn_of_empty (s : State Empty) (act : Act Empty) : InTurn s act := by
  intro t msg _ at_ u other held
  rcases t with _ | i
  · rcases u with _ | i
    · cases at_.symm.trans held
      exact le_rfl
    · exact i.elim
  · exact i.elim

theorem numbered_calling (reaches : Reaches (Step P) cond (State.calling P fd) s)
    (few : (made s).card < 2 ^ 31) : Numbered s := by
  refine reaches.invariant (I := fun s => (made s).card < 2 ^ 31 → Numbered s) (fun _ => rfl) ?_ few
  intro s act s' before numbered _ stepped few
  have bound : (made s).card < 2 ^ 31 := stepped.numbering.card_le.trans_lt few
  exact stepped.numbering.numbered (counter_calling before) bound (numbered bound)
    (inTurn_of_empty s act)

theorem posted_calling (reaches : Reaches (Step P) cond (State.calling P fd) s) :
    s.posted = s.popped ++ s.outgoing := by
  apply reaches.invariant (I := fun s => s.posted = s.popped ++ s.outgoing) rfl
  intro s act s' _ queue _ stepped
  exact stepped.output.queue queue

theorem delivered_calling (reaches : Reaches (Step P) (WholeFits P) (State.calling P fd) s) :
    Delivered s := by
  have kept : Whole s ∧ Delivered s := by
    refine reaches.invariant (I := fun s => Whole s ∧ Delivered s)
      ⟨fun _ => ⟨[], rfl, rfl⟩, [], List.prefix_refl [], rfl, fun _ => rfl⟩ ?_
    intro s act s' before kept meets stepped
    have whole := kept.1.step (stored_calling before fun _ _ => And.left) meets.2 stepped
    exact ⟨whole, kept.2.step whole stepped⟩
  exact kept.2

/-- A pushed message fits into a buffer. -/
theorem fits_calling (reaches : Reaches (Step P) (WholeFits P) (State.calling P fd) s) :
    ∀ m ∈ s.posted, m.bytes.length ≤ P.bufSize := by
  apply reaches.invariant (I := fun s => ∀ m ∈ s.posted, m.bytes.length ≤ P.bufSize)
  · exact fun m member => (List.not_mem_nil member).elim
  · intro s act s' before fits _ stepped m member
    cases stepped.numbering with
    | keep _ posted _ => exact fits m (posted ▸ member)
    | create msg _ posted _ _ _ => exact fits m (posted ▸ member)
    | @push t _ msg at_ _ posted _ =>
        rw [posted] at member
        rcases List.mem_append.mp member with old | new
        · exact fits m old
        · rw [List.mem_singleton.mp new]
          have held : msg ∈ (s.posting t).pushing := by
            rw [at_]
            exact Multiset.mem_singleton_self msg
          have alive : msg ∈ live s :=
            Multiset.mem_add.mpr (.inr (Tally.mem_tally.mpr ⟨t, held⟩))
          rcases (stored_calling before fun _ _ => And.left).stored msg alive with
            ⟨length, small, -⟩
          exact length ▸ small

/-! ## Which messages the program asks for -/

/-- The kinds of the pushed messages, and of the one that is being posted. -/
def kinds (s : State Empty) : List PostKind :=
  s.posted.map (·.kind) ++ (s.posting none).kind.toList

/-- What a step asks for. -/
inductive Asked (s s' : State Empty) : Prop
  | keep : kinds s' = kinds s → (s.once = true → s'.once = true) → Asked s s'
  | heartbeat : kinds s' = kinds s ++ [.heartbeat] → s'.once = s.once → Asked s s'
  | request : kinds s' = kinds s ++ [.marketRequest] → s.once = false → s'.once = true → Asked s s'

theorem ConsumerStep.asked {act : ConsumerAct} (stepped : ConsumerStep P s act s') :
    Asked s s' := by
  cases stepped with
  | reply at_ type idle =>
      refine .heartbeat ?_ rfl
      unfold kinds
      rw [State.setPosting_posting, idle]
      exact congrArg (· ++ _) (List.append_nil _).symm
  | subscribe at_ first session idle =>
      refine .request ?_ first rfl
      unfold kinds
      rw [State.setPosting_posting, idle]
      exact congrArg (· ++ _) (List.append_nil _).symm
  | onceEarly at_ first session => exact .keep rfl fun _ => rfl
  | _ => exact .keep rfl id

theorem PostStep.asked {act : PostAct} (stepped : PostStep P s none act s') : Asked s s' := by
  cases stepped with
  | takeBuf at_ pool =>
      refine .keep ?_ id
      unfold kinds
      rw [State.setPosting_posting, at_]
      rfl
  | create at_ creates fits =>
      refine .keep ?_ id
      unfold kinds
      rw [State.setPosting_posting, at_]
      rfl
  | @push _ msg at_ room =>
      refine .keep ?_ id
      unfold kinds
      rw [State.setPosting_posting, at_]
      exact (List.append_nil _).trans List.map_append

theorem Step.asked {act : Act Empty} (stepped : Step P s act s') : Asked s s' := by
  cases stepped with
  | poll stepped => cases stepped with | _ => exact .keep rfl id
  | consumer stepped => exact stepped.asked
  | @post _ t _ stepped =>
      rcases t with _ | i
      · exact stepped.asked
      · exact i.elim

/-- A logon first and never again, and at most one market request. -/
def Opens (kinds : List PostKind) : Prop :=
  ∀ first later, kinds = first :: later →
    first = .logon ∧ .logon ∉ later ∧ later.count .marketRequest ≤ 1

theorem Opens.initial {kinds kinds' : List PostKind} (opens : Opens kinds')
    (first : kinds <+: kinds') : Opens kinds := by
  rintro head later rfl
  rcases first with ⟨rest, rfl⟩
  rcases opens head (later ++ rest) rfl with ⟨logon, fresh, once⟩
  refine ⟨logon, fun member => fresh (List.mem_append_left rest member), ?_⟩
  rw [List.count_append] at once
  omega

/-- The messages asked for so far; the flag of `std::call_once` stands for the market
request. -/
def Conversation (s : State Empty) : Prop :=
  ∃ later, kinds s = .logon :: later ∧ .logon ∉ later ∧
    later.count .marketRequest ≤ if s.once then 1 else 0

theorem Conversation.step (conversation : Conversation s) (asked : Asked s s') :
    Conversation s' := by
  rcases conversation with ⟨later, all, fresh, count⟩
  cases asked with
  | keep same once =>
      refine ⟨later, by rw [same, all], fresh, count.trans ?_⟩
      cases before : s.once with
      | true =>
          rw [once before]
      | false => exact Nat.zero_le _
  | heartbeat more once =>
      refine ⟨later ++ [.heartbeat], by rw [more, all, List.cons_append], ?_, ?_⟩
      · simpa using fresh
      · rw [List.count_append, once]
        exact count
  | request more before after =>
      refine ⟨later ++ [.marketRequest], by rw [more, all, List.cons_append], ?_, ?_⟩
      · simpa using fresh
      · rw [before] at count
        rw [List.count_append, after]
        exact Nat.add_le_add_right count 1

theorem Conversation.opens (conversation : Conversation s) : Opens (kinds s) := by
  rcases conversation with ⟨later, all, fresh, count⟩
  intro first rest split
  cases all.symm.trans split
  refine ⟨rfl, fresh, count.trans ?_⟩
  cases s.once <;> decide

theorem opens_of_launched {bytes : List UInt8}
    (reaches : Reaches (Step P) cond (State.launched P fd bytes) s) :
    Opens (s.posted.map (·.kind)) := by
  have conversation : Conversation s := by
    refine reaches.invariant (I := Conversation) ⟨[], rfl, List.not_mem_nil, Nat.zero_le _⟩ ?_
    intro s act s' _ conversation _ stepped
    exact conversation.step stepped.asked
  exact conversation.opens.initial (List.prefix_append _ _)

/-! ## What the peer gets -/

theorem Numbered.seq_eq (numbered : Numbered s) {i : Nat} {msg : TcpMsg}
    (posted : s.posted[i]? = some msg) : msg.seq = i + 1 := by
  have inside : i < s.posted.length := (List.getElem?_eq_some_iff.mp posted).1
  have number := congrArg (·[i]?) numbered
  simpa only [List.getElem?_map, posted, numbers, List.getElem?_range inside, Option.map_some,
    Option.some.injEq] using number

/-- The message with number `n` and kind `msg.kind`, in a buffer of the pool. -/
structure Told (lmax : Lmax) (msg : TcpMsg) (n : Nat) (time : List UInt8) : Prop where
  clean : Clean time
  bytes : msg.bytes = lmax.bytes msg.kind time n
  fits : msg.bytes.length ≤ 2048

theorem exists_sent {lmax : Lmax} {bytes : List UInt8} (logon : Logon lmax bytes)
    (reaches : Reaches (Step lmax.fixTcpClient) (WholeFits lmax.fixTcpClient)
      (State.launched lmax.fixTcpClient fd bytes) s) (few : (made s).card < 2 ^ 31) :
    ∃ sent, sent <+: s.popped ∧ s.wire = contents sent ∧
      (s.poll.serves = true → s.popped = sent ++ s.poll.sending) ∧
      Opens (sent.map (·.kind)) ∧ sent.length < 2 ^ 31 ∧
      ∀ (i : Nat) (msg : TcpMsg), sent[i]? = some msg →
        msg.seq = i + 1 ∧ ∃ time, Told lmax msg (i + 1) time := by
  have whole : Reaches (Step lmax.fixTcpClient) (WholeFits lmax.fixTcpClient)
      (State.calling lmax.fixTcpClient fd) s :=
    (launched_run logon fun s _ of =>
      ⟨PostAct.fits of logon.fits s none, fun _ _ _ => nofun⟩).trans reaches
  rcases delivered_calling whole with ⟨sent, first, wire, rest⟩
  have posted : sent <+: s.posted := by
    rw [posted_calling whole]
    exact first.trans (List.prefix_append _ _)
  have count : s.posted.length ≤ (made s).card := by
    rw [made, Multiset.card_add, Multiset.coe_card]
    exact Nat.le_add_right _ _
  refine ⟨sent, first, wire, rest, (opens_of_launched reaches).initial (posted.map _),
    (posted.length_le.trans count).trans_lt few, fun i msg at_ => ?_⟩
  have pushed : s.posted[i]? = some msg := by
    rcases posted with ⟨later, all⟩
    rw [← all, List.getElem?_append_left (List.getElem?_eq_some_iff.mp at_).1, at_]
  have number := (numbered_calling whole few).seq_eq pushed
  have member := List.mem_of_getElem? pushed
  have created : msg ∈ made s := Multiset.mem_add.mpr (.inl (Multiset.mem_coe.mpr member))
  rcases (counter_calling whole).creates msg created with ⟨time, clean, content⟩
  rw [number] at content
  exact ⟨number, time, clean, content, fits_calling whole msg member⟩

/-- In every run of the program in which each message fits its buffer and each `send` accepts the
whole message, the wire has whole messages, 1, 2, 3, ... by their MsgSeqNum: a logon first and never
again, heartbeats, and at most one market request. Until `poll( )` closes, they are all that it
has taken from `m_outgoing` and is not sending. -/
theorem sent_of_launched (lmax : Lmax) (fd : Int) (bytes : List UInt8)
    (logon : Logon lmax bytes) (s : State Empty)
    (reaches : Reaches (Step lmax.fixTcpClient) (WholeFits lmax.fixTcpClient)
      (State.launched lmax.fixTcpClient fd bytes) s) (few : (made s).card < 2 ^ 31) :
    ∃ sent, sent <+: s.popped ∧ s.wire = contents sent ∧
      (s.poll.serves = true → s.popped = sent ++ s.poll.sending) ∧
      Opens (sent.map (·.kind)) ∧
      ∀ (i : Nat) (msg : TcpMsg), sent[i]? = some msg → Carries lmax msg (i + 1) := by
  rcases exists_sent logon reaches few with ⟨sent, first, wire, rest, opens, -, told⟩
  refine ⟨sent, first, wire, rest, opens, fun i msg at_ => ?_⟩
  rcases told i msg at_ with ⟨number, time, said⟩
  exact ⟨number, time, said.bytes, lmax.seqNum_mem_fields msg.kind time _⟩

theorem logon_sample : Logon Lmax.sample (Lmax.sample.bytes .logon [] 1) :=
  ⟨Lmax.sample_creates 1, by decide +kernel⟩

/-- The program up to the `send` of its logon. -/
theorem exists_logon_sent : ∃ s : State Empty,
    Reaches (Step Lmax.sample.fixTcpClient) (WholeFits Lmax.sample.fixTcpClient)
      (State.launched Lmax.sample.fixTcpClient 3 (Lmax.sample.bytes .logon [] 1)) s ∧
    (made s).card < 2 ^ 31 ∧ s.wire = Lmax.sample.bytes .logon [] 1 := by
  have free : (State.launched Lmax.sample.fixTcpClient 3
      (Lmax.sample.bytes .logon [] 1)).pool.length < Lmax.sample.fixTcpClient.bufpoolSize := by
    decide +kernel
  have meets : ∀ (s : State Empty) act, (∀ ret, act ≠ .send ret) →
      WholeFits Lmax.sample.fixTcpClient s (.poll act) := by
    intro s act other
    refine ⟨fits_poll _ _ _, fun msg ret _ same => ?_⟩
    cases same
    exact (other ret rfl).elim
  have sent := send_run (Lmax.sample.bytes .logon [] 1).length rfl (by decide) rfl
    (by decide +kernel) le_rfl free meets (fun _ at_ => ⟨fits_poll _ _ _, fun _ _ at' same => by
      cases same
      cases at_.symm.trans at'
      rfl⟩)
  have small : (Lmax.sample.bytes .logon [] 1).length ≤ 2048 := logon_sample.fits
  have room : 0 + (Lmax.sample.bytes .logon [] 1).length ≤
      (List.replicate (2048 * 64) (0 : UInt8)).length := by
    rw [List.length_replicate]
    omega
  refine ⟨_, sent, by decide +kernel, ?_⟩
  exact (List.nil_append _).trans (Bytes.slice_overwrite_self room)

/-- The logon alone. -/
theorem sent_of_launched_logon : ∃ s : State Empty,
    s.wire = Lmax.sample.bytes .logon [] 1 ∧
    ∃ sent, sent <+: s.popped ∧ s.wire = contents sent ∧
      (s.poll.serves = true → s.popped = sent ++ s.poll.sending) ∧
      Opens (sent.map (·.kind)) ∧
      ∀ (i : Nat) (msg : TcpMsg), sent[i]? = some msg → Carries Lmax.sample msg (i + 1) := by
  rcases exists_logon_sent with ⟨s, reaches, few, wire⟩
  exact ⟨s, wire, sent_of_launched Lmax.sample 3 _ logon_sample s reaches few⟩

/-- A message object for each of a list. -/
theorem exists_wireMessages {α : Type} (bytes : α → List UInt8) (type : α → UInt8) {xs : List α}
    (each : ∀ x ∈ xs, ∃ m : WireMessage, m.bytes = bytes x ∧ m.type = type x) :
    ∃ messages : List WireMessage, messages.flatMap WireMessage.bytes = xs.flatMap bytes ∧
      messages.map (·.type) = xs.map type := by
  induction xs with
  | nil => exact ⟨[], rfl, rfl⟩
  | cons x xs ih =>
      rcases each x List.mem_cons_self with ⟨m, content, typed⟩
      rcases ih fun y member => each y (List.mem_cons_of_mem x member) with ⟨ms, contents, types⟩
      refine ⟨m :: ms, ?_, ?_⟩
      · rw [List.flatMap_cons, List.flatMap_cons, content, contents]
      · rw [List.map_cons, List.map_cons, typed, types]

theorem Told.short {lmax : Lmax} {msg : TcpMsg} {n : Nat} {time : List UInt8}
    (told : Told lmax msg n time) : (lmax.head msg.kind time n).length < 2 ^ 31 := by
  have fits := told.fits
  rw [told.bytes, Lmax.bytes, frame, List.length_append] at fits
  have head : (lmax.head msg.kind time n).length ≤ 2048 :=
    (Nat.le_add_right _ _).trans fits
  omega

theorem drop_contents {mem : Mem} {buf i : Nat} {after : List UInt8} {sent : List TcpMsg}
    {msg : TcpMsg} (at_ : sent[i]? = some msg) (bytes : mem.drop buf = contents sent ++ after) :
    ∃ rest, mem.drop (buf + (contents (sent.take i)).length) = msg.bytes ++ rest := by
  rcases List.getElem?_eq_some_iff.mp at_ with ⟨inside, rfl⟩
  rw [← List.take_append_drop i sent, List.drop_eq_getElem_cons inside, contents_append,
    List.append_assoc] at bytes
  have behind := Bytes.drop_add_length bytes
  rw [← List.singleton_append, contents_append, contents_singleton, List.append_assoc] at behind
  exact ⟨_, behind⟩

/-- In such a run and with configuration texts free of NUL and SOH, a `fix_handler` on the buffer
with the wire pushes an entry for each message, the first one of type `'A'`, the others of type
`'0'` but for at most one of type `'V'`; and a new `fix_message_t` on the message `i` reads all its
fields, and `i + 1` in MsgSeqNum. -/
theorem heard_of_launched (lmax : Lmax) (plain : lmax.Plain) (fd : Int) (bytes : List UInt8)
    (logon : Logon lmax bytes) (s : State Empty)
    (reaches : Reaches (Step lmax.fixTcpClient) (WholeFits lmax.fixTcpClient)
      (State.launched lmax.fixTcpClient fd bytes) s) (few : (made s).card < 2 ^ 31)
    (some_ : s.wire ≠ []) (mem : Mem) (buf : Nat) (after : List UInt8) (garbage : StackGarbage)
    (received : mem.drop buf = s.wire ++ after) :
    ∃ sent n entries, s.wire = contents sent ∧ Opens (sent.map (·.kind)) ∧
      FixHandler.run mem buf s.wire.length garbage n = (.returned false, entries) ∧
      entries.map (·.type) = sent.map (Lmax.msgType ·.kind) ∧
      ∀ (i : Nat) (msg : TcpMsg), sent[i]? = some msg →
        ∃ time, lmax.Read msg.kind time (i + 1) mem (buf + (contents (sent.take i)).length) := by
  rcases exists_sent logon reaches few with ⟨sent, -, wire, -, opens, count, told⟩
  have each : ∀ msg ∈ sent, ∃ m : WireMessage, m.bytes = msg.bytes ∧
      m.type = Lmax.msgType msg.kind := by
    intro msg member
    rcases List.getElem?_of_mem member with ⟨i, at_⟩
    rcases told i msg at_ with ⟨-, time, said⟩
    refine ⟨Lmax.wireMessage plain msg.kind time (i + 1 : Nat) said.short, ?_, rfl⟩
    rw [Lmax.bytes_wireMessage, said.bytes]
  rcases exists_wireMessages TcpMsg.bytes (fun msg => Lmax.msgType msg.kind) each with
    ⟨messages, flat, types⟩
  have same : s.wire = messages.flatMap WireMessage.bytes := wire.trans flat.symm
  have nonempty : messages ≠ [] := by
    rintro rfl
    exact some_ same
  rw [same] at received ⊢
  rcases FixHandler.run_wire garbage nonempty received with ⟨n, handled⟩
  refine ⟨sent, n, _, flat, opens, handled, ?_, fun i msg at_ => ?_⟩
  · have entries := congrArg (List.map Prod.fst)
      (map_entriesOf buf (messages.map fun m => (m.type, m.checksum)))
    simp only [List.map_map, Function.comp_def] at entries
    exact entries.trans types
  · rw [flat] at received
    rcases drop_contents at_ received with ⟨rest, there⟩
    rcases told i msg at_ with ⟨-, time, said⟩
    have inside := (List.getElem?_eq_some_iff.mp at_).1
    rw [said.bytes] at there
    exact ⟨time, Lmax.read_bytes there plain said.clean (by omega) (by omega) said.short⟩

/-- The logon alone, in a buffer that ends behind it. -/
theorem heard_of_launched_logon :
    ∃ sent n entries, Lmax.sample.bytes .logon [] 1 = contents sent ∧ Opens (sent.map (·.kind)) ∧
      FixHandler.run (Lmax.sample.bytes .logon [] 1) 0 (Lmax.sample.bytes .logon [] 1).length
        ⟨0, 0⟩ n = (.returned false, entries) ∧
      entries.map (·.type) = sent.map (Lmax.msgType ·.kind) ∧
      ∀ (i : Nat) (msg : TcpMsg), sent[i]? = some msg →
        ∃ time, Lmax.sample.Read msg.kind time (i + 1) (Lmax.sample.bytes .logon [] 1)
          (0 + (contents (sent.take i)).length) := by
  rcases exists_logon_sent with ⟨s, reaches, few, wire⟩
  have nonempty : s.wire ≠ [] := by
    rw [wire]
    decide +kernel
  have heard := heard_of_launched Lmax.sample Lmax.plain_sample 3 _ logon_sample s reaches few
    nonempty (Lmax.sample.bytes .logon [] 1) 0 [] ⟨0, 0⟩ (by rw [wire, List.append_nil]; rfl)
  rw [wire] at heard
  exact heard

end Client

end OpenFix
