import OpenFix.Client.Step
import OpenFix.FixClient.Deframe

/-!
# Stretches of runs

What the steps of one activity amount to, when no other thread interferes: a `post_*` from
its `get_buf` on, a pass of `poll( )` that sends, a pass that reads, and the consumer's work
on one entry.
-/

namespace OpenFix

namespace Client

open Transition (Reaches always)

variable {ι : Type} [DecidableEq ι] {P : Params} {cond : State ι → Act ι → Prop} {s : State ι}

/-- The message that `create_*` would leave in `b`. -/
def State.message (s : State ι) (kind : PostKind) (b : Nat) (bytes : List UInt8) : TcpMsg :=
  ⟨b, bytes.length, kind, s.seq, bytes⟩

/-- The state behind the `create_*` of thread `t` in the buffer `b`. -/
def State.creates (s : State ι) (t : Option ι) (kind : PostKind) (b : Nat) (rest : List Nat)
    (bytes : List UInt8) : State ι :=
  { s with
    pool := rest
    mem := Bytes.overwrite s.mem b bytes
    seq := wrap32 (s.seq + 1)
    posting := Function.update s.posting t (.push (s.message kind b bytes)) }

/-- The state behind the `post_*`. -/
def State.posts (s : State ι) (t : Option ι) (kind : PostKind) (b : Nat) (rest : List Nat)
    (bytes : List UInt8) : State ι :=
  { s with
    pool := rest
    mem := Bytes.overwrite s.mem b bytes
    seq := wrap32 (s.seq + 1)
    outgoing := s.outgoing ++ [s.message kind b bytes]
    posted := s.posted ++ [s.message kind b bytes]
    posting := Function.update s.posting t .idle }

theorem State.creates_posting (s : State ι) (t : Option ι) (kind : PostKind) (b : Nat)
    (rest : List Nat) (bytes : List UInt8) :
    (s.creates t kind b rest bytes).posting t = .push (s.message kind b bytes) :=
  Function.update_self ..

theorem State.posts_posting (s : State ι) (t : Option ι) (kind : PostKind) (b : Nat)
    (rest : List Nat) (bytes : List UInt8) :
    (s.posts t kind b rest bytes).posting t = .idle :=
  Function.update_self ..

variable {kind : PostKind} {b : Nat} {rest : List Nat} {bytes : List UInt8}

/-- The steps of a `post_*` that creates `len` bytes. -/
def PostAct.of (len : Nat) (act : PostAct) : Prop := ∀ n, act = .create n → n = len

omit [DecidableEq ι] in
theorem PostAct.fits {len : Nat} {act : PostAct} (of : act.of len) (fits : len ≤ P.bufSize)
    (s : State ι) (t : Option ι) : Fits P s (.post t act) := by
  intro t' n same
  cases same
  rw [of n rfl]
  exact fits

/-- A `post_*` from its `get_buf` up to its push. -/
theorem create_run {t : Option ι} (at_ : s.posting t = .getBuf kind) (pool : s.pool = b :: rest)
    (creates : P.broker.creates kind s.seq bytes)
    (inside : b + bytes.length ≤ P.bufSize * P.bufpoolSize)
    (meets : ∀ s act, act.of bytes.length → act ≠ .push → cond s (.post t act)) :
    Reaches (Step P) cond s (s.creates t kind b rest bytes) := by
  have taken := Reaches.start.next (meets s .takeBuf nofun nofun)
    (Step.post (PostStep.takeBuf (P := P) at_ pool))
  have created := taken.next (meets _ (.create bytes.length) (by rintro n ⟨⟩; rfl) nofun)
    (.post (.create (State.setPosting_posting ..) creates inside))
  simp only [State.setPosting, Function.update_idem] at created
  exact created

/-- A `post_*` from its `get_buf` on. -/
theorem post_run {t : Option ι} (at_ : s.posting t = .getBuf kind) (pool : s.pool = b :: rest)
    (creates : P.broker.creates kind s.seq bytes)
    (inside : b + bytes.length ≤ P.bufSize * P.bufpoolSize)
    (room : s.outgoing.length < P.outSize)
    (meets : ∀ s act, act.of bytes.length → cond s (.post t act)) :
    Reaches (Step P) cond s (s.posts t kind b rest bytes) := by
  have created := create_run (P := P) at_ pool creates inside fun s act of _ => meets s act of
  have pushed := created.next (meets _ .push nofun)
    (.post (.push (s.creates_posting ..) room))
  simp only [State.creates, State.setPosting, Function.update_idem] at pushed
  exact pushed

variable {i : ι}

/-- A `post_*` of a thread of its own, up to its push. -/
theorem create_run_of_idle (idle : s.posting (some i) = .idle) (pool : s.pool = b :: rest)
    (creates : P.broker.creates kind s.seq bytes)
    (inside : b + bytes.length ≤ P.bufSize * P.bufpoolSize)
    (meets : ∀ s act, act.of bytes.length → act ≠ .push → cond s (.post (some i) act)) :
    Reaches (Step P) cond s (s.creates (some i) kind b rest bytes) := by
  have started := Reaches.start.next (meets s .start nofun nofun)
    (Step.post (PostStep.start (P := P) i kind idle))
  have created := create_run (P := P) (s := s.setPosting (some i) (.getBuf kind))
    (State.setPosting_posting ..) pool creates inside meets
  simp only [State.creates, State.setPosting, State.message, Function.update_idem] at created
  exact started.trans created

/-- A whole `post_*` of a thread of its own. -/
theorem post_run_of_idle (idle : s.posting (some i) = .idle) (pool : s.pool = b :: rest)
    (creates : P.broker.creates kind s.seq bytes)
    (inside : b + bytes.length ≤ P.bufSize * P.bufpoolSize)
    (room : s.outgoing.length < P.outSize)
    (meets : ∀ s act, act.of bytes.length → cond s (.post (some i) act)) :
    Reaches (Step P) cond s (s.posts (some i) kind b rest bytes) := by
  have created := create_run_of_idle (P := P) idle pool creates inside
    fun s act of _ => meets s act of
  have pushed := created.next (meets _ .push nofun)
    (.post (.push (s.creates_posting ..) room))
  simp only [State.creates, State.setPosting, Function.update_idem] at pushed
  exact pushed

/-- A pass of `poll( )` up to its `send`. -/
theorem popOut_run {msg : TcpMsg} {rest : List TcpMsg} (at_ : s.poll = .top) (open_ : 0 < s.fd)
    (outgoing : s.outgoing = msg :: rest)
    (meets : ∀ s act, (∀ ret, act ≠ .send ret) → cond s (.poll act)) :
    Reaches (Step P) cond s
      { s with outgoing := rest, popped := s.popped ++ [msg], poll := .send msg } := by
  have polled := Reaches.start.next (meets s _ (by intro _ same; cases same))
    (Step.poll (PollStep.events (P := P) false true at_ open_))
  exact polled.next (meets _ _ (by intro _ same; cases same)) (.poll (.popOut rfl outgoing))

/-- A pass of `poll( )` that sends `ret` bytes of the first outgoing message. -/
theorem send_run {msg : TcpMsg} {rest : List TcpMsg} (ret : Nat) (at_ : s.poll = .top)
    (open_ : 0 < s.fd) (outgoing : s.outgoing = msg :: rest) (some_ : 1 ≤ ret)
    (most : ret ≤ msg.len) (room : s.pool.length < P.bufpoolSize)
    (meets : ∀ s act, (∀ ret, act ≠ .send ret) → cond s (.poll act))
    (sends : ∀ s : State ι, s.poll = .send msg → cond s (.poll (.send ret))) :
    Reaches (Step P) cond s
      { s with
        outgoing := rest
        popped := s.popped ++ [msg]
        wire := s.wire ++ Bytes.slice s.mem msg.buf ret
        pool := s.pool ++ [msg.buf] } := by
  have popped := popOut_run (P := P) at_ open_ outgoing meets
  have sent := popped.next (sends _ rfl) (.poll (.send ret rfl some_ most))
  have released := sent.next (meets _ _ (by intro _ same; cases same)) (.poll (.release rfl room))
  have back : PollPc.afterRelease (.out false) = s.poll := at_.symm
  rw [back] at released
  exact released

/-- A pass of `poll( )` that reads one whole message. -/
theorem read_run (m : WireMessage) {b : Nat} {rest : List Nat} (at_ : s.poll = .top)
    (open_ : 0 < s.fd) (pool : s.pool = b :: rest) (fits : m.bytes.length ≤ P.bufSize)
    (inside : b ≤ s.mem.length) (room : s.inQueue.length < P.inSize) :
    Reaches (Step P) always s
      { s with
        pool := rest
        mem := Bytes.overwrite s.mem b m.bytes
        inQueue := s.inQueue ++ [⟨m.type, m.checksum, b, true⟩] } := by
  have content : (Bytes.overwrite s.mem b m.bytes).drop b =
      m.bytes ++ s.mem.drop (b + m.bytes.length) := by
    rw [Bytes.overwrite, List.append_assoc, List.drop_left' (by rw [List.length_take]; omega)]
  have starts : (Bytes.overwrite s.mem b m.bytes).drop (FixMessage.new b ⟨0, 0⟩).begin_ =
      m.bytes ++ s.mem.drop (b + m.bytes.length) := content
  rcases FixHandler.parse_wire b m.bytes.length m starts with ⟨msg, ends, parsed⟩
  rw [decide_eq_true (show (FixMessage.new b ⟨0, 0⟩).begin_ + m.bytes.length =
    b + m.bytes.length from rfl)] at parsed
  have polled := Reaches.start.step
    (Step.poll (PollStep.events (P := P) true false at_ open_))
  have taken := polled.step (.poll (.takeBuf rfl pool))
  have read := taken.step (.poll (.recv m.bytes ⟨0, 0⟩ rfl m.bytes_length_pos fits))
  have pushed := read.step (.poll (.handle rfl rfl parsed fun _ => room))
  have left := pushed.step (.poll (.handle rfl rfl (FixHandler.step_reached ends le_rfl)
    fun some_ => (some_ rfl).elim))
  have returned := left.step (.poll (.handled rfl))
  have back : PollPc.afterIn false = s.poll := at_.symm
  simp only [Option.toList, List.append_nil, Bool.false_eq_true, if_false, back] at returned
  exact returned

/-- The consumer takes a heartbeat or a test request and comes to `get_buf`. -/
theorem reply_run {e : FixMsg} {later : List FixMsg} (at_ : s.consumer = .top)
    (open_ : 0 < s.fd) (queue : s.inQueue = e :: later) (type : e.type = 48 ∨ e.type = 49)
    (idle : s.posting none = .idle) :
    Reaches (Step P) always s
      ({ s with inQueue := later, consumer := .reply e }.setPosting none (.getBuf .heartbeat)) := by
  have looped := Reaches.start.step (Step.consumer (ConsumerStep.loop (P := P) at_ open_))
  have popped := looped.step (.consumer (.pop rfl queue))
  exact popped.step (.consumer (.reply rfl type idle))

/-- The consumer passes `std::call_once` before the login. -/
theorem once_run {e : FixMsg} (at_ : s.consumer = .once e) (session : s.session ≠ .LoggedIn) :
    Reaches (Step P) always s { s with once := true, consumer := .final e } := by
  cases once : s.once with
  | true =>
      have passed := Reaches.start.step (Step.consumer (ConsumerStep.onceDone (P := P) at_ once))
      rw [once] at passed
      exact passed
  | false => exact Reaches.start.step (.consumer (.onceEarly at_ once session))

/-- The consumer answers the last message of a buffer before the login. -/
theorem consume_run {e : FixMsg} {later : List FixMsg} (at_ : s.consumer = .top)
    (open_ : 0 < s.fd) (queue : s.inQueue = e :: later) (type : e.type = 48 ∨ e.type = 49)
    (final : e.isFinal = true) (idle : s.posting none = .idle) (session : s.session ≠ .LoggedIn)
    (pool : s.pool = b :: rest) (creates : P.broker.creates .heartbeat s.seq bytes)
    (inside : b + bytes.length ≤ P.bufSize * P.bufpoolSize)
    (room : s.outgoing.length < P.outSize) (space : rest.length < P.bufpoolSize) :
    Reaches (Step P) always s
      { s.posts none .heartbeat b rest bytes with
        inQueue := later
        once := true
        pool := rest ++ [e.ptr] } := by
  have replying := reply_run (P := P) at_ open_ queue type idle
  have posted := replying.trans (post_run (State.setPosting_posting ..) pool creates inside room
    fun _ _ _ => trivial)
  have replied := posted.step (.consumer (.replied rfl (State.posts_posting ..)))
  have passed := replied.trans (once_run rfl session)
  have released := passed.step (.consumer (.final rfl fun _ => space))
  rw [if_pos final, ← at_] at released
  simp only [State.posts, State.setPosting, State.message, Function.update_idem] at released
  exact released

end Client

end OpenFix
