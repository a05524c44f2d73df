import OpenFix.Lib.Clipped
import OpenFix.Server.TcpHandler

/-!
# The handler of the server for `ipc`

`ipc_handler_t` of `ipc.h`. `on_read` appends without the test that `tcp_handler_t` makes, and
`on_disconnect` erases one element, so the subscriptions of a descriptor are counted down one
for each disconnect.

* `count_subs`: how often a descriptor is in `m_subs`.
* `faithful_iff`: when `m_subs` has the descriptors that are subscribed.
* `mirrors_run`, `mem_handler_iff`: `m_subs` in a run of the server.
-/

namespace OpenFix

namespace Server

/-- `ipc_handler_t`, on `m_subs`. -/
def ipcHandler : Handler (List Int) where
  onConnect subs _ := subs
  onRead subs fd _ data := (if sub <:+: data then subs ++ [fd] else subs, [], true)
  onOut subs _ := (subs, false)
  onDisconnect subs fd := subs.erase fd

/-- `ipc_server`, listening on `fd`. -/
def ipcServer (fd : Int) : Params where
  outSize := 16
  bufSize := 128
  bufPoolSize := 64
  fd := fd

/-- A call of the server. -/
inductive Call : Type
  | connect (fd : Int)
  | read (fd : Int) (buf : Nat) (data : List UInt8)
  | disconnect (fd : Int)
  deriving DecidableEq, Repr

namespace Call

def fd : Call → Int
  | .connect fd => fd
  | .read fd _ _ => fd
  | .disconnect fd => fd

def subscribes (fd : Int) : Call → Bool
  | .read f _ data => f = fd ∧ sub <:+: data
  | _ => false

def disconnects (fd : Int) : Call → Bool
  | .disconnect f => f = fd
  | _ => false

theorem fd_of_subscribes {fd : Int} {call : Call} (subscribes : call.subscribes fd = true) :
    call.fd = fd := by
  cases call with
  | read => exact (of_decide_eq_true subscribes).1
  | _ => cases subscribes

theorem fd_of_disconnects {fd : Int} {call : Call} (disconnects : call.disconnects fd = true) :
    call = .disconnect fd := by
  cases call with
  | disconnect => exact congrArg disconnect (of_decide_eq_true disconnects)
  | _ => cases disconnects

theorem exclusive (fd : Int) (call : Call) (subscribes : call.subscribes fd = true) :
    call.disconnects fd = false := by
  cases call with
  | disconnect => cases subscribes
  | _ => rfl

end Call

/-- What a call leaves in `m_subs`. -/
def called (subs : List Int) : Call → List Int
  | .connect fd => ipcHandler.onConnect subs fd
  | .read fd buf data => (ipcHandler.onRead subs fd buf data).1
  | .disconnect fd => ipcHandler.onDisconnect subs fd

/-- `m_subs` behind `calls`. -/
def subs (calls : List Call) : List Int := calls.foldl called []

theorem subs_concat (calls : List Call) (call : Call) :
    subs (calls ++ [call]) = called (subs calls) call := by
  rw [subs, List.foldl_append]
  rfl

/-- A call about another descriptor, or one that neither subscribes nor disconnects. -/
theorem move_silent {n : Nat} {fd : Int} {call : Call}
    (subscribes : ¬ call.subscribes fd = true) (disconnects : ¬ call.disconnects fd = true) :
    Clipped.move (Call.subscribes fd) (Call.disconnects fd) n call = n := by
  rw [Clipped.move, if_neg subscribes, if_neg disconnects]

/-- What a call does to the number of times a descriptor is there. -/
theorem count_called (subs : List Int) (call : Call) (fd : Int) :
    (called subs call).count fd =
      Clipped.move (Call.subscribes fd) (Call.disconnects fd) (subs.count fd) call := by
  cases call with
  | connect f => rfl
  | read f buf data =>
      have kept : ¬ Call.disconnects fd (.read f buf data) = true := Bool.false_ne_true
      have subscribes : Call.subscribes fd (.read f buf data) = true ↔ f = fd ∧ sub <:+: data :=
        decide_eq_true_iff
      by_cases asks : sub <:+: data
      · have appended : called subs (.read f buf data) = subs ++ [f] := if_pos asks
        rw [appended, List.count_append, List.count_singleton]
        by_cases same : f = fd
        · rw [Clipped.move, if_pos (subscribes.mpr ⟨same, asks⟩), if_pos (beq_iff_eq.mpr same)]
        · rw [move_silent (fun told => same (subscribes.mp told).1) kept,
            if_neg fun equal => same (beq_iff_eq.mp equal)]
          rfl
      · have ignored : called subs (.read f buf data) = subs := if_neg asks
        rw [ignored, move_silent (fun told => asks (subscribes.mp told).2) kept]
  | disconnect f =>
      have kept : ¬ Call.subscribes fd (.disconnect f) = true := Bool.false_ne_true
      have disconnects : Call.disconnects fd (.disconnect f) = true ↔ f = fd := decide_eq_true_iff
      have erased : called subs (.disconnect f) = subs.erase f := rfl
      rw [erased, List.count_erase]
      by_cases same : f = fd
      · rw [Clipped.move, if_neg kept, if_pos (disconnects.mpr same), if_pos (beq_iff_eq.mpr same)]
      · rw [move_silent kept fun told => same (disconnects.mp told),
          if_neg fun equal => same (beq_iff_eq.mp equal)]
        rfl

theorem count_subs (calls : List Call) (fd : Int) :
    (subs calls).count fd =
      Clipped.level (Call.subscribes fd) (Call.disconnects fd) calls := by
  induction calls using List.reverseRecOn with
  | nil => rfl
  | append_singleton calls call ih => rw [subs_concat, count_called, ih, Clipped.level_concat]

theorem mem_subs_iff {calls : List Call} {fd : Int} :
    fd ∈ subs calls ↔ ∃ late, late <:+ calls ∧
      late.countP (Call.disconnects fd) < late.countP (Call.subscribes fd) := by
  rw [← List.count_pos_iff, count_subs, Clipped.lt_level_iff (Call.exclusive fd)]
  rfl

/-! ## The subscriptions -/

/-- Since its latest `on_connect`, `fd` is not disconnected and one of its reads has "/sub". -/
def Entitled (fd : Int) (calls : List Call) : Prop :=
  ∃ before since, calls = before ++ .connect fd :: since ∧ .connect fd ∉ since ∧
    .disconnect fd ∉ since ∧ ∃ call ∈ since, call.subscribes fd = true

/-- `m_subs` has the subscribed descriptors, and a call is about one descriptor. -/
structure Faithful (calls : List Call) : Prop where
  members : ∀ fd, fd ∈ subs calls ↔ Entitled fd calls
  other : ∀ call fd, call.fd ≠ fd → (fd ∈ subs (calls ++ [call]) ↔ fd ∈ subs calls)

/-- Between an `on_connect` and the next `on_disconnect` of `fd`. -/
def Connected (fd : Int) (calls : List Call) : Prop :=
  ∃ before since, calls = before ++ .connect fd :: since ∧ .disconnect fd ∉ since

/-- The reads of each descriptor come while it is connected. -/
inductive Bracketed : List Call → Prop
  | nil : Bracketed []
  | connect {calls : List Call} (fd : Int) : Bracketed calls → Bracketed (calls ++ [.connect fd])
  | read {calls : List Call} (fd : Int) (buf : Nat) (data : List UInt8) : Bracketed calls →
    Connected fd calls → Bracketed (calls ++ [.read fd buf data])
  | disconnect {calls : List Call} (fd : Int) : Bracketed calls →
    Bracketed (calls ++ [.disconnect fd])

theorem Entitled.mem_subs {fd : Int} {calls : List Call} (entitled : Entitled fd calls) :
    fd ∈ subs calls := by
  obtain ⟨before, since, rfl, -, connected, call, member, subscribes⟩ := entitled
  refine mem_subs_iff.mpr ⟨since, ⟨before ++ [.connect fd], ?_⟩, ?_⟩
  · rw [List.append_assoc, List.singleton_append]
  · have kept : since.countP (Call.disconnects fd) = 0 := by
      refine List.countP_eq_zero.mpr fun call member disconnects => ?_
      exact connected (Call.fd_of_disconnects disconnects ▸ member)
    rw [kept, List.countP_pos_iff]
    exact ⟨call, member, subscribes⟩

theorem not_entitled_disconnected (fd : Int) (calls : List Call) :
    ¬ Entitled fd (calls ++ [.disconnect fd]) := by
  rintro ⟨before, since, split, -, connected, call, member, -⟩
  obtain ⟨early, last, rfl⟩ :=
    (List.eq_nil_or_concat since).resolve_left (List.ne_nil_of_mem member)
  rw [List.concat_eq_append, ← List.cons_append, ← List.append_assoc] at split
  obtain ⟨-, same⟩ := List.append_inj' split rfl
  apply connected
  rw [List.concat_eq_append, ← same]
  exact List.mem_append_right early List.mem_cons_self

/-- **The subscriber list.** It is faithful exactly when every descriptor is subscribed or has, at
the end of the calls however far back, no more subscribing reads than disconnects. -/
theorem faithful_iff (calls : List Call) :
    Faithful calls ↔ ∀ fd, Entitled fd calls ∨
      ∀ late, late <:+ calls →
        late.countP (Call.subscribes fd) ≤ late.countP (Call.disconnects fd) := by
  constructor
  · intro faithful fd
    refine or_iff_not_imp_left.mpr fun free late suffix => Nat.le_of_not_lt fun surplus => ?_
    exact free ((faithful.members fd).mp (mem_subs_iff.mpr ⟨late, suffix, surplus⟩))
  · intro settled
    refine ⟨fun fd => ⟨fun member => ?_, Entitled.mem_subs⟩, fun call fd other => ?_⟩
    · obtain ⟨late, suffix, surplus⟩ := mem_subs_iff.mp member
      exact (settled fd).resolve_right fun few => Nat.not_lt.mpr (few late suffix) surplus
    · rw [← List.count_pos_iff, ← List.count_pos_iff, subs_concat, count_called,
        move_silent (fun subscribes => other (Call.fd_of_subscribes subscribes))
          fun disconnects => other (congrArg Call.fd (Call.fd_of_disconnects disconnects))]

/-- One of two subscriptions is left behind the disconnect. -/
theorem not_faithful_twice : ¬ ∀ calls, Bracketed calls → Faithful calls := by
  intro law
  have connected : Connected 4 [.connect 4] := ⟨[], [], rfl, List.not_mem_nil⟩
  have still : Connected 4 [.connect 4, .read 4 0 sub] := ⟨[], [.read 4 0 sub], rfl, by decide⟩
  have bracketed : Bracketed [.connect 4, .read 4 0 sub, .read 4 0 sub, .disconnect 4] :=
    ((Bracketed.nil.connect 4).read 4 0 sub connected |>.read 4 0 sub still).disconnect 4
  have remains : 4 ∈ subs [.connect 4, .read 4 0 sub, .read 4 0 sub, .disconnect 4] := by
    decide +kernel
  exact not_entitled_disconnected 4 [.connect 4, .read 4 0 sub, .read 4 0 sub]
    (((law _ bracketed).members 4).mp remains)

/-! ## In a run of the server -/

/-- The call that an event is. -/
def Event.call : Event → Option Call
  | .connect fd => some (.connect fd)
  | .read fd buf data => some (.read fd buf data)
  | .disconnect fd => some (.disconnect fd)
  | _ => none

/-- The calls of a run, in turn. -/
def calls (log : List Event) : List Call := log.reverse.filterMap Event.call

theorem calls_cons (event : Event) (log : List Event) :
    calls (event :: log) = calls log ++ event.call.toList := by
  rw [calls, List.reverse_cons, List.filterMap_append]
  cases same : event.call with
  | none => rw [List.filterMap_cons_none same]; rfl
  | some call => rw [List.filterMap_cons_some same]; rfl

theorem calls_close (s : State (List Int)) (fd : Int) : calls (s.close fd).log = calls s.log := by
  unfold State.close
  split
  case isTrue => exact (calls_cons _ _).trans (List.append_nil _)
  case isFalse => rfl

/-- `m_subs` is what the calls so far have left. -/
def Mirrors (s : State (List Int)) : Prop := s.handler = subs (calls s.log)

theorem Mirrors.quiet {s s' : State (List Int)} (mirrors : Mirrors s)
    (handler : s'.handler = s.handler) (log : calls s'.log = calls s.log) : Mirrors s' := by
  rw [Mirrors, handler, log]
  exact mirrors

theorem Mirrors.call {s s' : State (List Int)} {call : Call} (mirrors : Mirrors s)
    (handler : s'.handler = called s.handler call) (log : calls s'.log = calls s.log ++ [call]) :
    Mirrors s' := by
  rw [Mirrors, handler, log, subs_concat]
  exact congrArg (called · call) mirrors

theorem calls_silent {event : Event} (silent : event.call = none) (log : List Event) :
    calls (event :: log) = calls log := by
  rw [calls_cons, silent]
  exact List.append_nil _

theorem Step.mirrors {P : Params} {s s' : State (List Int)} {act : Act} (mirrors : Mirrors s)
    (stepped : Step ipcHandler P s act s') : Mirrors s' := by
  cases stepped with
  | hangUp => exact mirrors.call rfl ((calls_close _ _).trans (calls_cons _ _))
  | accept fd =>
      have connects :
          calls (.connect fd :: .accept fd :: s.log) = calls s.log ++ [.connect fd] := by
        rw [calls_cons, calls_silent rfl]
        rfl
      exact mirrors.call rfl connects
  | @read i b c _ _ _ data _ _ _ _ _ answer =>
      have handler : called s.handler (.read c.fd b data) =
          (ipcHandler.onRead s.handler c.fd b data).1 := rfl
      rw [answer] at handler
      exact mirrors.call handler.symm (calls_cons _ _)
  | popAccept _ _ _ _ _ answer => cases answer
  | accepted _ _ _ answer => cases answer
  | popFilter _ _ _ _ _ answer =>
      cases answer
      exact mirrors.quiet rfl (calls_silent rfl _)
  | filter _ _ _ answer =>
      cases answer
      exact mirrors.quiet rfl (calls_silent rfl _)
  | readFail => exact mirrors.quiet rfl (calls_close _ _)
  | release => exact mirrors.quiet rfl (calls_silent rfl _)
  | write => exact mirrors.quiet rfl (calls_silent rfl _)
  | writeTo => exact mirrors.quiet rfl (calls_silent rfl _)
  | writeFail => exact mirrors.quiet rfl ((calls_close _ _).trans (calls_silent rfl _))
  | writeToFail => exact mirrors.quiet rfl ((calls_close _ _).trans (calls_silent rfl _))
  | eraseEnd => exact mirrors.quiet rfl ((calls_close _ _).trans (calls_silent rfl _))
  | _ => exact mirrors.quiet rfl rfl

/-- In every run of the server `m_subs` is what the calls so far have left. -/
theorem mirrors_run {P : Params} {cond : State (List Int) → Act → Prop} {s : State (List Int)}
    (reaches : Transition.Reaches (Step ipcHandler P) cond (State.bound P []) s) : Mirrors s :=
  reaches.invariant (I := Mirrors) rfl fun _ _ _ _ mirrors _ stepped => stepped.mirrors mirrors

/-- In every run of `ipc_server` a descriptor is in `m_subs` exactly when, at the end of the calls
so far, it has more subscribing reads than disconnects. -/
theorem mem_handler_iff {listening : Int} {cond : State (List Int) → Act → Prop}
    {s : State (List Int)}
    (reaches : Transition.Reaches (Step ipcHandler (ipcServer listening)) cond
      (State.bound (ipcServer listening) []) s) {fd : Int} :
    fd ∈ s.handler ↔ ∃ late, late <:+ calls s.log ∧
      late.countP (Call.disconnects fd) < late.countP (Call.subscribes fd) := by
  rw [mirrors_run reaches]
  exact mem_subs_iff

end Server

end OpenFix
