import OpenFix.Server.Step

/-!
# Running the server

`next` computes the state behind a label together with the step that leads there, and `play` a
run from a list of labels. A concrete run is given by its labels.
-/

namespace OpenFix

namespace Server

open Transition (Reaches)

variable {η : Type}

/-- The entry of the scan. -/
structure Scanned (s : State η) : Type where
  i : Nat
  c : PollFd
  pc : s.pc = .scan i
  entry : s.pollfds[i]? = some c

def State.scanned (s : State η) : Option (Scanned s) :=
  match pc : s.pc with
  | .scan i =>
      match entry : s.pollfds[i]? with
      | some c => some ⟨i, c, pc, entry⟩
      | none => none
  | _ => none

/-- The same at the test of POLLOUT. -/
structure Writable (s : State η) : Type where
  i : Nat
  c : PollFd
  pc : s.pc = .out i
  entry : s.pollfds[i]? = some c

def State.writable (s : State η) : Option (Writable s) :=
  match pc : s.pc with
  | .out i =>
      match entry : s.pollfds[i]? with
      | some c => some ⟨i, c, pc, entry⟩
      | none => none
  | _ => none

/-- The slot of a broadcast, in front of `on_out` or of `write`. -/
structure Slot (s : State η) (pc : Nat → TaggedTcpMsg → Nat → List PollFd → Pc) : Type where
  i : Nat
  msg : TaggedTcpMsg
  k : Nat
  stale : List PollFd
  c : PollFd
  pc : s.pc = pc i msg k stale
  entry : (slots s.pollfds stale)[k]? = some c

def State.broadcastSlot (s : State η) : Option (Slot s .broadcast) :=
  match pc : s.pc with
  | .broadcast i msg k stale =>
      match entry : (slots s.pollfds stale)[k]? with
      | some c => some ⟨i, msg, k, stale, c, pc, entry⟩
      | none => none
  | _ => none

def State.writeSlot (s : State η) : Option (Slot s .writeTo) :=
  match pc : s.pc with
  | .writeTo i msg k stale =>
      match entry : (slots s.pollfds stale)[k]? with
      | some c => some ⟨i, msg, k, stale, c, pc, entry⟩
      | none => none
  | _ => none

/-- The state behind `act`, with the step. -/
def next (H : Handler η) (P : Params) (s : State η) :
    (act : Act) → Option { s' : State η // Step H P s act s' }
  | .leave =>
      if h : s.pc = .top ∧ s.pollfds = [] then some ⟨_, .leave h.1 h.2⟩ else none
  | .pollError =>
      if h : s.pc = .top ∧ s.pollfds ≠ [] then some ⟨_, .pollError h.1 h.2⟩ else none
  | .pollNone =>
      if h : s.pc = .top ∧ s.pollfds ≠ [] then some ⟨_, .pollNone h.1 h.2⟩ else none
  | .poll revents =>
      if h : s.pc = .top ∧ List.Forall₂ (Reports s.sockets) s.pollfds revents then
        some ⟨_, .poll revents h.1 h.2⟩
      else none
  | .scanEnd =>
      match pc : s.pc with
      | .scan i => if h : s.pollfds.length ≤ i then some ⟨_, .scanEnd pc h⟩ else none
      | _ => none
  | .hangUp =>
      s.scanned.bind fun ⟨_, c, pc, entry⟩ =>
        if h : c.revents.pollHup = true then some ⟨_, .hangUp pc entry h⟩ else none
  | .accept fd =>
      s.scanned.bind fun ⟨_, c, pc, entry⟩ =>
        if h : c.revents.pollHup = false ∧ c.revents.pollIn = true ∧ c.fd = P.fd ∧
            P.fd ∈ s.sockets ∧ 0 ≤ fd ∧ fd ∉ s.sockets then
          some ⟨_, .accept fd pc entry h.1 h.2.1 h.2.2.1 h.2.2.2.1 h.2.2.2.2.1 h.2.2.2.2.2⟩
        else none
  | .acceptFail =>
      s.scanned.bind fun ⟨_, c, pc, entry⟩ =>
        if h : c.revents.pollHup = false ∧ c.revents.pollIn = true ∧ c.fd = P.fd then
          some ⟨_, .acceptFail pc entry h.1 h.2.1 h.2.2⟩
        else none
  | .readable =>
      s.scanned.bind fun ⟨_, c, pc, entry⟩ =>
        if h : c.revents.pollHup = false ∧ c.revents.pollIn = true ∧ c.fd ≠ P.fd then
          some ⟨_, .readable pc entry h.1 h.2.1 h.2.2⟩
        else none
  | .unreadable =>
      s.scanned.bind fun ⟨_, c, pc, entry⟩ =>
        if h : c.revents.pollHup = false ∧ c.revents.pollIn = false then
          some ⟨_, .unreadable pc entry h.1 h.2⟩
        else none
  | .takeBuf =>
      match pc : s.pc, pool : s.bufpool with
      | .getBuf _, _ :: _ => some ⟨_, .takeBuf pc pool⟩
      | _, _ => none
  | .read data =>
      match pc : s.pc with
      | .read i _ =>
          match entry : s.pollfds[i]? with
          | some c =>
              if h : c.fd ∈ s.sockets ∧ 1 ≤ data.length ∧ data.length ≤ P.bufSize then
                some ⟨_, .read data pc entry h.1 h.2.1 h.2.2 rfl⟩
              else none
          | none => none
      | _ => none
  | .readFail =>
      match pc : s.pc with
      | .read i _ =>
          match entry : s.pollfds[i]? with
          | some _ => some ⟨_, .readFail pc entry⟩
          | none => none
      | _ => none
  | .push =>
      match pc : s.pc with
      | .onRead _ _ (_ :: _) _ =>
          if h : s.outQueue.length < P.outSize then some ⟨_, .push pc h⟩ else none
      | _ => none
  | .handled =>
      match pc : s.pc with
      | .onRead _ _ [] _ => some ⟨_, .handled pc⟩
      | _ => none
  | .release =>
      match pc : s.pc with
      | .release _ _ =>
          if h : s.bufpool.length < P.bufPoolSize then some ⟨_, .release pc h⟩ else none
      | _ => none
  | .unwritable =>
      s.writable.bind fun ⟨_, c, pc, entry⟩ =>
        if h : c.revents.pollOut = false then some ⟨_, .unwritable pc entry h⟩ else none
  | .popEmpty =>
      s.writable.bind fun ⟨_, c, pc, entry⟩ =>
        if h : c.revents.pollOut = true ∧ s.outQueue = [] then
          some ⟨_, .popEmpty pc entry h.1 h.2⟩
        else none
  | .popBroadcast =>
      s.writable.bind fun ⟨_, c, pc, entry⟩ =>
        match queue : s.outQueue with
        | msg :: _ =>
            if h : c.revents.pollOut = true ∧ msg.fd = 0 then
              some ⟨_, .popBroadcast pc entry h.1 queue h.2⟩
            else none
        | [] => none
  | .popAccept =>
      s.writable.bind fun ⟨_, c, pc, entry⟩ =>
        match queue : s.outQueue with
        | msg :: _ =>
            match answer : H.onOut s.handler msg with
            | (_, true) =>
                if h : c.revents.pollOut = true ∧ msg.fd ≠ 0 then
                  some ⟨_, .popAccept pc entry h.1 queue h.2 answer⟩
                else none
            | _ => none
        | [] => none
  | .popFilter =>
      s.writable.bind fun ⟨_, c, pc, entry⟩ =>
        match queue : s.outQueue with
        | msg :: _ =>
            match answer : H.onOut s.handler msg with
            | (_, false) =>
                if h : c.revents.pollOut = true ∧ msg.fd ≠ 0 then
                  some ⟨_, .popFilter pc entry h.1 queue h.2 answer⟩
                else none
            | _ => none
        | [] => none
  | .write =>
      match pc : s.pc with
      | .write _ msg => if h : 0 ≤ msg.fd then some ⟨_, .write pc h⟩ else none
      | _ => none
  | .writeFail =>
      match pc : s.pc with
      | .write i _ => if h : i < s.pollfds.length then some ⟨_, .writeFail pc h⟩ else none
      | _ => none
  | .broadcastEnd =>
      match pc : s.pc with
      | .broadcast _ _ k stale =>
          if h : (slots s.pollfds stale).length ≤ k then some ⟨_, .broadcastEnd pc h⟩ else none
      | _ => none
  | .listener =>
      s.broadcastSlot.bind fun ⟨_, _, _, _, c, pc, entry⟩ =>
        if h : c.fd = P.fd then some ⟨_, .listener pc entry h⟩ else none
  | .accepted =>
      s.broadcastSlot.bind fun ⟨_, msg, _, _, c, pc, entry⟩ =>
        match answer : H.onOut s.handler { msg with fd := c.fd } with
        | (_, true) =>
            if h : c.fd ≠ P.fd then some ⟨_, .accepted pc entry h answer⟩ else none
        | _ => none
  | .filter =>
      s.broadcastSlot.bind fun ⟨_, msg, _, _, c, pc, entry⟩ =>
        match answer : H.onOut s.handler { msg with fd := c.fd } with
        | (_, false) =>
            if h : c.fd ≠ P.fd then some ⟨_, .filter pc entry h answer⟩ else none
        | _ => none
  | .writeTo =>
      s.writeSlot.bind fun ⟨_, _, _, _, c, pc, entry⟩ =>
        if h : c.fd ∈ s.sockets then some ⟨_, .writeTo pc entry h⟩ else none
  | .writeToFail =>
      s.writeSlot.bind fun ⟨i, _, _, _, _, pc, entry⟩ =>
        if h : i < s.pollfds.length then some ⟨_, .writeToFail pc entry h⟩ else none
  | .eraseEnd =>
      s.writeSlot.bind fun ⟨i, _, _, _, _, pc, entry⟩ =>
        if h : s.pollfds.length ≤ i then some ⟨_, .eraseEnd pc entry h⟩ else none
  | .post msg =>
      if h : s.outQueue.length < P.outSize then some ⟨_, .post msg h⟩ else none

/-- The states that `acts` lead to, by steps that meet `cond`. -/
def play (H : Handler η) (P : Params) (cond : State η → Act → Prop)
    [∀ s act, Decidable (cond s act)] (s : State η) : List Act → Option (State η)
  | [] => some s
  | act :: rest =>
      if cond s act then
        match next H P s act with
        | some s' => play H P cond s'.1 rest
        | none => none
      else none

variable {H : Handler η} {P : Params} {cond : State η → Act → Prop}
  [∀ s act, Decidable (cond s act)] {s₀ s s' : State η} {acts : List Act}

theorem reaches_of_play (reaches : Reaches (Step H P) cond s₀ s)
    (played : play H P cond s acts = some s') : Reaches (Step H P) cond s₀ s' := by
  induction acts generalizing s with
  | nil =>
      cases played
      exact reaches
  | cons act rest ih =>
      unfold play at played
      split at played
      case isTrue meets =>
        split at played
        case h_1 s' _ => exact ih (reaches.next meets s'.2) played
        case h_2 => cases played
      case isFalse => cases played

/-- A run to a state with a property that is computed. -/
theorem exists_of_play {I : State η → Prop} [DecidablePred I] (acts : List Act)
    (played : (play H P cond s₀ acts).any (fun s => decide (I s)) = true) :
    ∃ s, Reaches (Step H P) cond s₀ s ∧ I s := by
  cases reached : play H P cond s₀ acts with
  | none =>
      rw [reached] at played
      cases played
  | some s =>
      rw [reached] at played
      exact ⟨s, reaches_of_play .start reached, of_decide_eq_true played⟩

end Server

end OpenFix
