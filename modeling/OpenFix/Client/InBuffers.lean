import OpenFix.Client.Conservation
import OpenFix.Client.Output

/-!
# The buffers behind the entries

An entry of `in_queue` points to the buffer of its read, and the consumer gives the buffer back
behind its last entry only. A run is watched together with the bytes of the reads behind the
entries that wait or are worked on.

* `Guarded`: the buffer of an entry is handed over by a final one behind it, with the handler, or
  in no place any more; so no thread is about to write there (`Guarded.apart`).
* `found_of_reaches`: in every run whose messages fit their buffers, whatever the socket and the
  threads do, the bytes of its read are behind every entry.
-/

namespace OpenFix

namespace Client

open Transition (Reaches always)
open Tally (tally)

variable {ι : Type} {P : Params} {s s' : State ι}

/-! ## Watched reads -/

/-- The bytes of the last read, and of the reads behind the entries on their way. -/
structure Reads : Type where
  current : List UInt8
  waiting : List (List UInt8)

def Reads.start : Reads := ⟨[], []⟩

/-- The entries on their way: the one the consumer works on, and the queue. -/
def entries (s : State ι) : List FixMsg := s.consumer.entry ++ s.inQueue

/-- An entry is pushed in the handler of its read, and done with at the test of `is_final`. -/
def Reads.after (h : Reads) (s : State ι) (act : Act ι) (s' : State ι) : Reads :=
  match act with
  | .poll (.recv data _) => { h with current := data }
  | .poll .handle =>
      { h with waiting := h.waiting ++ (s'.inQueue.drop s.inQueue.length).map fun _ => h.current }
  | .consumer .final => { h with waiting := h.waiting.tail }
  | _ => h

/-- A step, with the reads. -/
def Noted [DecidableEq ι] (P : Params) (x : State ι × Reads) (act : Act ι)
    (y : State ι × Reads) : Prop :=
  Step P x.1 act y.1 ∧ y.2 = x.2.after x.1 act y.1

/-! ## Bytes in a buffer -/

/-- The bytes of a read are in their buffer. -/
structure Stands (P : Params) (mem : Mem) (b : Nat) (data : List UInt8) : Prop where
  member : b ∈ P.buffers
  fits : data.length ≤ P.bufSize
  same : Bytes.slice mem b data.length = data

theorem Stands.overwrite {mem : Mem} {b c : Nat} {data other : List UInt8}
    (stands : Stands P mem b data) (length : mem.length = P.bufSize * P.bufpoolSize)
    (memberC : c ∈ P.buffers) (fits : other.length ≤ P.bufSize) (apart : b ≠ c) :
    Stands P (Bytes.overwrite mem c other) b data := by
  have inside := Params.buffer_inside memberC
  have small := stands.fits
  refine ⟨stands.member, small, ?_⟩
  rw [Bytes.slice_overwrite_of_disjoint (by omega), stands.same]
  rcases Params.buffers_disjoint stands.member memberC apart with left | right
  · exact .inl (by omega)
  · exact .inr (by omega)

/-! ## Who writes, and who points -/

/-- The buffer `recv` is about to fill. -/
def PollPc.reading : PollPc → List Nat
  | .read b _ => [b]
  | _ => []

/-- The buffer the handler has still to hand over. -/
def PollPc.handing : PollPc → List Nat
  | .handle b len _ _ pc => if keeps (b + len) pc then [b] else []
  | _ => []

/-- The buffer `poll( )` gives back. -/
def PollPc.releasing : PollPc → List Nat
  | .release b _ => [b]
  | _ => []

theorem PollPc.held_eq (poll : PollPc) :
    poll.held = poll.reading ++ poll.handing ++ poll.releasing := by
  cases poll with
  | handle b len out garbage pc => exact (List.append_nil _).symm
  | _ => rfl

theorem PollPc.mem_handing {poll : PollPc} {b : Nat} (owes : poll.owes b) : b ∈ poll.handing := by
  cases poll with
  | handle c len out garbage pc =>
      rcases owes with ⟨rfl, owes⟩
      have kept : keeps (c + len) pc = true := by
        cases pc with
        | loop msg => exact owes
        | faulted fault => rfl
        | _ => cases owes
      have one : handing (.handle c len out garbage pc) = [c] := if_pos kept
      rw [one]
      exact List.mem_singleton_self c
  | _ => exact owes.elim

section Places

variable [Fintype ι]

/-- The buffers into which `recv` or a `create_*` is about to write. -/
def writing (s : State ι) : Multiset Nat := s.poll.reading + tally PostPc.held s.posting

/-- The buffers that the final entries and the handler have. -/
def pointed (s : State ι) : Multiset Nat := finalPtrs (entries s) + s.poll.handing

theorem writing_add_pointed_le (s : State ι) : writing s + pointed s ≤ owned s := by
  refine Multiset.le_iff_exists_add.mpr
    ⟨(live s).map (·.buf) + s.pool + s.poll.releasing, ?_⟩
  unfold owned spare writing pointed entries
  rw [finalPtrs_append, PollPc.held_eq]
  simp only [← Multiset.coe_add]
  abel

/-- Every entry is followed by the final one of its buffer, or the handler owes that one, or the
buffer is in no place. -/
def Guarded (s : State ι) : Prop :=
  Backed (fun b => s.poll.owes b ∨ b ∉ owned s) (entries s)

omit [Fintype ι] in
theorem Backed.covers {owed : Nat → Prop} {entries : List FixMsg} {e : FixMsg}
    (backed : Backed owed entries) (member : e ∈ entries) :
    e.ptr ∈ finalPtrs entries ∨ owed e.ptr := by
  have hands {later : List FixMsg} {f : FixMsg} (at_ : f ∈ later) (final : f.isFinal = true) :
      f.ptr ∈ finalPtrs later :=
    List.mem_map_of_mem (List.mem_filter.mpr ⟨at_, final⟩)
  induction entries with
  | nil => cases member
  | cons d later ih =>
      rw [finalPtrs_cons]
      rcases List.mem_cons.mp member with rfl | behind
      · cases final : e.isFinal with
        | true => exact .inl (List.mem_append_left _ (hands List.mem_cons_self final))
        | false =>
            refine (backed.1 final).imp ?_ id
            intro paid
            rcases paid with ⟨f, at_, final', same⟩
            exact List.mem_append_right _ (same ▸ hands at_ final')
      · exact (ih backed.2 behind).imp (List.mem_append_right _) id

/-- No thread is about to write behind an entry. -/
theorem Guarded.apart (guarded : Guarded s) (nodup : (owned s).Nodup) {e : FixMsg}
    (member : e ∈ entries s) {c : Nat} (writes : c ∈ writing s) : e.ptr ≠ c := by
  rintro rfl
  have disjoint := Multiset.disjoint_left.mp
    (Multiset.nodup_add.mp (Multiset.nodup_of_le (writing_add_pointed_le s) nodup)).2.2 writes
  rcases guarded.covers member with final | owes | gone
  · exact disjoint (Multiset.mem_add.mpr (.inl final))
  · exact disjoint (Multiset.mem_add.mpr (.inr (PollPc.mem_handing owes)))
  · exact gone (Multiset.mem_of_le (writing_add_pointed_le s) (Multiset.mem_add.mpr (.inl writes)))

/-! ## The invariant -/

structure Found (P : Params) (s : State ι) (h : Reads) : Prop where
  found : List.Forall₂ (fun e data => Stands P s.mem e.ptr data) (entries s) h.waiting
  handed : ∀ b ∈ s.poll.handing, Stands P s.mem b h.current
  guarded : Guarded s
  valid : s.poll.Valid

variable {h : Reads}

/-- A step that neither writes into a buffer nor touches the entries. -/
theorem Found.settle (found : Found P s h) (below : owned s' ≤ owned s) (mem : s'.mem = s.mem)
    (same : entries s' = entries s) (handing : ∀ b ∈ s'.poll.handing, b ∈ s.poll.handing)
    (owes : ∀ b, s.poll.owes b → s'.poll.owes b) (valid : s'.poll.Valid) : Found P s' h := by
  refine ⟨?_, ?_, ?_, valid⟩
  · rw [same, mem]
    exact found.found
  · intro b member
    rw [mem]
    exact found.handed b (handing b member)
  · unfold Guarded
    rw [same]
    exact found.guarded.mono fun b owed =>
      owed.imp (owes b) fun gone member => gone (Multiset.mem_of_le below member)

/-- `poll( )` moves on outside the handler. -/
theorem Found.idle (found : Found P s h) {poll : PollPc} (at_ : s.poll = poll)
    (below : owned s' ≤ owned s) (none_ : ∀ b, ¬ poll.owes b) (outside : s'.poll.handing = [])
    (valid : s'.poll.Valid) (same : s'.mem = s.mem ∧ s'.consumer = s.consumer ∧
      s'.inQueue = s.inQueue) : Found P s' h := by
  rcases same with ⟨mem, consumer, queue⟩
  refine found.settle below mem ?_ ?_ ?_ valid
  · unfold entries
    rw [consumer, queue]
  · rw [outside]
    exact fun b member => (List.not_mem_nil member).elim
  · rw [at_]
    exact fun b owes => (none_ b owes).elim

/-- A write into a buffer that its thread is about to fill. -/
theorem Found.write (found : Found P s h) (below : owned s ≤ P.buffers)
    (length : s.mem.length = P.bufSize * P.bufpoolSize) {c : Nat} {data : List UInt8}
    (writes : c ∈ writing s) (fits : data.length ≤ P.bufSize) :
    List.Forall₂ (fun e data' => Stands P (Bytes.overwrite s.mem c data) e.ptr data')
        (entries s) h.waiting ∧
      ∀ b ∈ s.poll.handing, Stands P (Bytes.overwrite s.mem c data) b h.current := by
  have nodup : (owned s).Nodup :=
    Multiset.nodup_of_le below (Multiset.coe_nodup.mpr P.buffers_nodup)
  have places := writing_add_pointed_le s
  have memberC : c ∈ P.buffers :=
    Multiset.mem_of_le (places.trans below) (Multiset.mem_add.mpr (.inl writes))
  constructor
  · rcases List.forall₂_iff_zip.mp found.found with ⟨lengths, each⟩
    refine List.forall₂_iff_zip.mpr ⟨lengths, fun pair => ?_⟩
    have member := (List.of_mem_zip pair).1
    exact (each pair).overwrite length memberC fits (found.guarded.apart nodup member writes)
  · intro b member
    refine (found.handed b member).overwrite length memberC fits ?_
    rintro rfl
    exact Multiset.disjoint_left.mp
      (Multiset.nodup_add.mp (Multiset.nodup_of_le places nodup)).2.2 writes
      (Multiset.mem_add.mpr (.inr (Multiset.mem_coe.mpr member)))

theorem handing_afterIn (out : Bool) : (PollPc.afterIn out).handing = [] := by
  cases out
  · rfl
  · rfl

/-- The steps of `poll( )` but `recv` and those of the handler. -/
theorem PollStep.found {act : PollAct} (found : Found P s h) (below : owned s' ≤ owned s)
    (silent : ∀ data garbage, act ≠ .recv data garbage) (outside : act ≠ .handle)
    (stepped : PollStep P s act s') : Found P s' h := by
  have same : s.mem = s.mem ∧ s.consumer = s.consumer ∧ s.inQueue = s.inQueue := ⟨rfl, rfl, rfl⟩
  cases stepped with
  | error at_ _ => exact found.idle at_ below (fun _ => id) rfl trivial same
  | events pollIn pollOut at_ _ =>
      cases pollIn
      · exact found.idle at_ below (fun _ => id) (handing_afterIn pollOut)
          (valid_afterIn pollOut) same
      · exact found.idle at_ below (fun _ => id) rfl trivial same
  | leave at_ _ => exact found.idle at_ below (fun _ => id) rfl trivial same
  | takeBuf at_ _ => exact found.idle at_ below (fun _ => id) rfl trivial same
  | recv data garbage _ _ _ => exact absurd rfl (silent data garbage)
  | recvFail at_ => exact found.idle at_ below (fun _ => id) rfl trivial same
  | handle _ _ _ _ => exact absurd rfl outside
  | @handled b len out ret garbage at_ =>
      have settled : ∀ c, ¬ (PollPc.handle b len out garbage (.returned ret)).owes c :=
        fun c owes => Bool.false_ne_true owes.2
      cases ret
      · exact found.idle at_ below settled (handing_afterIn out) (valid_afterIn out) same
      · exact found.idle at_ below settled rfl trivial same
  | @release b next at_ _ =>
      rcases next with _ | out
      · exact found.idle at_ below (fun _ => id) rfl trivial same
      · exact found.idle at_ below (fun _ => id) (handing_afterIn out) (valid_afterIn out) same
  | popEmpty at_ _ => exact found.idle at_ below (fun _ => id) rfl trivial same
  | popOut at_ _ => exact found.idle at_ below (fun _ => id) rfl trivial same
  | send ret at_ _ _ => exact found.idle at_ below (fun _ => id) rfl trivial same
  | sendFail at_ => exact found.idle at_ below (fun _ => id) rfl trivial same
  | close at_ => exact found.idle at_ below (fun _ => id) rfl trivial same

/-- A read puts its bytes into a buffer that no entry points to. -/
theorem PollStep.found_recv {data : List UInt8} {garbage : StackGarbage} (found : Found P s h)
    (below : owned s' ≤ owned s) (owned_ : owned s ≤ P.buffers)
    (length : s.mem.length = P.bufSize * P.bufpoolSize)
    (stepped : PollStep P s (.recv data garbage) s') : Found P s' { h with current := data } := by
  cases stepped with
  | @recv b out _ _ at_ some_ fits =>
      have writes : b ∈ writing s := by
        unfold writing
        rw [at_]
        exact Multiset.mem_add.mpr (.inl (Multiset.mem_singleton_self b))
      have member : b ∈ P.buffers := Multiset.mem_of_le
        ((writing_add_pointed_le s).trans owned_) (Multiset.mem_add.mpr (.inl writes))
      have inside := Params.buffer_inside member
      refine ⟨(found.write owned_ length writes fits).1, ?_, ?_, trivial⟩
      · intro c handed
        cases List.mem_singleton.mp handed
        exact ⟨member, fits, Bytes.slice_overwrite_self (by omega)⟩
      · refine found.guarded.mono fun c owed => ?_
        rcases owed with owes | gone
        · rw [at_] at owes
          exact owes.elim
        · exact .inr fun there => gone (Multiset.mem_of_le below there)

/-- What the handler has to hand over, it had before. -/
theorem handing_handle {mem : Mem} {b len : Nat} {out : Bool} {garbage : StackGarbage}
    {pc pc' : HandlerPc} {entry : Option FixMsg} (runs : running pc = true)
    (stepped : FixHandler.Stepped mem b len garbage pc pc' entry) :
    ∀ c ∈ PollPc.handing (.handle b len out garbage pc'),
      c ∈ PollPc.handing (.handle b len out garbage pc) := by
  intro c member
  have account := handler_ledger runs stepped
  unfold PollPc.handing at member ⊢
  dsimp only at member ⊢
  rw [← account]
  exact List.mem_append_left _ (List.mem_append_left _ member)

/-- A step of the handler: the bytes of the read are behind what it pushes. -/
theorem PollStep.found_handle (found : Found P s h) (nodup : (owned s).Nodup)
    (stepped : PollStep P s .handle s') : Found P s' (h.after s (.poll .handle) s') := by
  have ledger := stepped.ledger
  have below : owned s' ≤ owned s := (Multiset.le_add_right _ _).trans ledger.le
  cases stepped with
  | @handle b len out garbage pc pc' entry at_ runs handler room =>
      have stays : ∀ c ∈ PollPc.handing (.handle b len out garbage pc'),
          c ∈ PollPc.handing (.handle b len out garbage pc) :=
        handing_handle runs (FixHandler.stepped_of_step handler)
      obtain ⟨each, handed, guarded, valid⟩ := found
      unfold Guarded at guarded
      rw [at_] at valid handed guarded
      have behind : (h.after s (.poll .handle) { s with
          inQueue := s.inQueue ++ entry.toList
          poll := .handle b len out garbage pc' }).waiting =
          h.waiting ++ entry.toList.map fun _ => h.current := by
        unfold Reads.after
        dsimp only
        rw [List.drop_left]
      have all : entries { s with
          inQueue := s.inQueue ++ entry.toList
          poll := .handle b len out garbage pc' } = entries s ++ entry.toList :=
        (List.append_assoc _ _ _).symm
      have gone {c : Nat} (none_ : c ∉ owned s) : c ∉ owned { s with
          inQueue := s.inQueue ++ entry.toList
          poll := .handle b len out garbage pc' } :=
        fun there => none_ (Multiset.mem_of_le below there)
      rcases handler_entries valid (FixHandler.stepped_of_step handler) with
        ⟨valid', ⟨e, rfl, rfl, kept, owes⟩ | ⟨rfl, owes⟩⟩
      · have own : e.ptr ∈ PollPc.handing (.handle e.ptr len out garbage pc) := by
          have one : PollPc.handing (.handle e.ptr len out garbage pc) = [e.ptr] := if_pos kept
          rw [one]
          exact List.mem_singleton_self e.ptr
        refine ⟨?_, fun c member => handed c (stays c member), ?_, valid'⟩
        · rw [all, behind]
          exact List.rel_append each (.cons (handed e.ptr own) .nil)
        · unfold Guarded
          rw [all]
          cases final : e.isFinal with
          | true =>
              refine guarded.append_final final fun c owed => ?_
              rcases owed with owed | none_
              · exact .inl owed.1.symm
              · exact .inr (.inr (gone none_))
          | false =>
              rw [final] at owes
              refine Backed.append_owed (guarded.mono fun c owed => ?_) (.inl ⟨rfl, owes⟩)
              exact owed.imp (fun owed => ⟨owed.1, owes⟩) gone
      · refine ⟨?_, fun c member => handed c (stays c member), ?_, valid'⟩
        · rw [all, behind]
          simp only [Option.toList_none, List.map_nil, List.append_nil]
          exact each
        · unfold Guarded
          have none_ : entries s ++ (none : Option FixMsg).toList = entries s := List.append_nil _
          rw [all, none_]
          refine guarded.mono fun c owed => ?_
          rcases owed with ⟨rfl, owed⟩ | none_
          · rcases owes owed with owed' | beyond
            · exact .inl ⟨rfl, owed'⟩
            · -- the ledger: the buffer is dropped, and was in one place only
              refine .inr fun there => ?_
              have dropped : lost s (.poll .handle) = [b] := by
                unfold lost
                rw [at_]
                exact if_pos beyond
              rw [dropped] at ledger
              rw [← ledger] at nodup
              exact Multiset.disjoint_left.mp (Multiset.nodup_add.mp nodup).2.2 there
                (List.mem_singleton_self b)
          · exact .inr (gone none_)

variable [DecidableEq ι]

theorem ConsumerStep.found {act : ConsumerAct} (found : Found P s h) (below : owned s' ≤ owned s)
    (stepped : ConsumerStep P s act s') : Found P s' (h.after s (.consumer act) s') := by
  have same {s' : State ι} (below : owned s' ≤ owned s) (all : entries s' = entries s)
      (rest : s'.mem = s.mem ∧ s'.poll = s.poll) : Found P s' h :=
    found.settle below rest.1 all (fun b member => rest.2 ▸ member)
      (fun b owes => rest.2 ▸ owes) (rest.2 ▸ found.valid)
  unfold entries at same
  cases stepped with
  | loop at_ _ => exact same below (by rw [at_]; rfl) ⟨rfl, rfl⟩
  | leave at_ _ => exact same below (by rw [at_]; rfl) ⟨rfl, rfl⟩
  | popEmpty at_ _ => exact same below (by rw [at_]; rfl) ⟨rfl, rfl⟩
  | pop at_ queue => exact same below (by rw [at_, queue]; rfl) ⟨rfl, rfl⟩
  | reply at_ _ _ => exact same below (by rw [at_]; rfl) ⟨rfl, rfl⟩
  | logIn at_ _ => exact same below (by rw [at_]; rfl) ⟨rfl, rfl⟩
  | pass at_ _ _ _ => exact same below (by rw [at_]; rfl) ⟨rfl, rfl⟩
  | replied at_ _ => exact same below (by rw [at_]; rfl) ⟨rfl, rfl⟩
  | onceDone at_ _ => exact same below (by rw [at_]; rfl) ⟨rfl, rfl⟩
  | subscribe at_ _ _ _ => exact same below (by rw [at_]; rfl) ⟨rfl, rfl⟩
  | onceEarly at_ _ _ => exact same below (by rw [at_]; rfl) ⟨rfl, rfl⟩
  | subscribed at_ _ => exact same below (by rw [at_]; rfl) ⟨rfl, rfl⟩
  | final at_ _ =>
      obtain ⟨each, handed, guarded, valid⟩ := found
      unfold Guarded entries at guarded
      unfold entries at each
      rw [at_] at each guarded
      refine ⟨?_, handed, ?_, valid⟩
      · rcases List.forall₂_cons_left_iff.mp each with ⟨data, later, -, rest, waiting⟩
        unfold Reads.after
        rw [waiting]
        exact rest
      · refine guarded.2.mono fun b owed => owed.imp id fun gone there => ?_
        exact gone (Multiset.mem_of_le below there)

theorem PostStep.found {t : Option ι} {act : PostAct} (found : Found P s h)
    (below : owned s' ≤ owned s) (owned_ : owned s ≤ P.buffers)
    (length : s.mem.length = P.bufSize * P.bufpoolSize) (fits : Fits P s (.post t act))
    (stepped : PostStep P s t act s') : Found P s' h := by
  cases stepped with
  | start i kind idle =>
      exact found.settle below rfl rfl (fun _ => id) (fun _ => id) found.valid
  | takeBuf at_ pool =>
      exact found.settle below rfl rfl (fun _ => id) (fun _ => id) found.valid
  | @create _ kind b bytes at_ creates _ =>
      have writes : b ∈ writing s := by
        have held : b ∈ PostPc.held (s.posting t) := by
          rw [at_]
          exact Multiset.mem_singleton_self b
        exact Multiset.mem_add.mpr (.inr (Tally.mem_tally.mpr ⟨t, held⟩))
      rcases found.write owned_ length writes (fits t bytes.length rfl) with ⟨each, handed⟩
      refine ⟨each, handed, ?_, found.valid⟩
      exact found.guarded.mono fun c owed =>
        owed.imp id fun gone there => gone (Multiset.mem_of_le below there)
  | push at_ room =>
      exact found.settle below rfl rfl (fun _ => id) (fun _ => id) found.valid

theorem Found.noted {h' : Reads} {act : Act ι} (found : Found P s h)
    (owned_ : owned s ≤ P.buffers) (stored : Stored P s) (fits : Fits P s act)
    (noted : Noted P (s, h) act (s', h')) : Found P s' h' := by
  rcases noted with ⟨stepped, reads⟩
  dsimp only at stepped reads
  have below := stepped.owned_le
  have nodup : (owned s).Nodup :=
    Multiset.nodup_of_le owned_ (Multiset.coe_nodup.mpr P.buffers_nodup)
  rw [reads]
  cases stepped with
  | @poll _ act stepped =>
      by_cases handles : act = .handle
      · subst handles
        exact stepped.found_handle found nodup
      · by_cases receives : ∃ data garbage, act = .recv data garbage
        · rcases receives with ⟨data, garbage, rfl⟩
          exact stepped.found_recv found below owned_ stored.length
        · have quiet : h.after s (.poll act) s' = h := by
            cases act with
            | recv data garbage => exact absurd ⟨data, garbage, rfl⟩ receives
            | handle => exact absurd rfl handles
            | _ => rfl
          rw [quiet]
          exact stepped.found found below
            (fun data garbage same => receives ⟨data, garbage, same⟩) handles
  | consumer stepped => exact stepped.found found below
  | post stepped => exact stepped.found found below owned_ stored.length fits

/-! ## The law -/

omit [DecidableEq ι] in
theorem found_connected (P : Params) (fd : Int) : Found P (State.connected P ι fd) .start :=
  ⟨.nil, fun _ member => (List.not_mem_nil member).elim, trivial, trivial⟩

omit [Fintype ι] in
theorem reaches_of_noted {fd : Int} {x : State ι × Reads}
    (reaches : Reaches (Noted P) (fun x act => Fits P x.1 act)
      (State.connected P ι fd, .start) x) :
    Reaches (Step P) (Fits P) (State.connected P ι fd) x.1 := by
  apply reaches.invariant
    (I := fun x => Reaches (Step P) (Fits P) (State.connected P ι fd) x.1) .start
  intro x act x' _ before fits noted
  exact before.next fits noted.1

/-- In every run of the client whose messages fit their buffers, over any received bytes, any
results of `poll`, `recv` and `send` and any calls of `post_*`, the buffer of every entry that
waits in `in_queue` or that the consumer works on has the bytes of the read it came from. -/
theorem found_of_reaches (P : Params) (fd : Int) (s : State ι) (h : Reads)
    (reaches : Reaches (Noted P) (fun x act => Fits P x.1 act)
      (State.connected P ι fd, .start) (s, h)) :
    List.Forall₂ (fun e data => Bytes.slice s.mem e.ptr data.length = data)
      (s.consumer.entry ++ s.inQueue) h.waiting := by
  have found : Found P s h := by
    refine reaches.invariant (I := fun x => Found P x.1 x.2) (found_connected P fd) ?_
    intro x act x' before found fits noted
    have run := reaches_of_noted before
    exact found.noted (owned_le run) (stored_of_reaches run fun _ _ => id) fits noted
  exact found.found.imp fun e data stands => stands.same

omit [Fintype ι] in
theorem noted_next {x : State ι × Reads} {act : PollAct}
    (reaches : Reaches (Noted P) (fun x act => Fits P x.1 act) x (s, h))
    (stepped : Step P s (.poll act) s') :
    Reaches (Noted P) (fun x act => Fits P x.1 act) x (s', h.after s (.poll act) s') :=
  reaches.next (a := .poll act) (fits_poll P s act) ⟨stepped, rfl⟩

end Places

/-- A heartbeat that waits in the queue. -/
theorem found_of_reaches_heartbeat :
    ∃ (s : State Unit) (h : Reads), s.inQueue.length = 1 ∧
      h.waiting = [WireMessage.heartbeat.bytes] ∧
      List.Forall₂ (fun e data => Bytes.slice s.mem e.ptr data.length = data)
        (s.consumer.entry ++ s.inQueue) h.waiting := by
  have small : WireMessage.heartbeat.bytes.length ≤ 2048 := by decide +kernel
  have content : (Bytes.overwrite (List.replicate (2048 * 64) 0) 0
      WireMessage.heartbeat.bytes).drop (FixMessage.new 0 ⟨0, 0⟩).begin_ =
        WireMessage.heartbeat.bytes ++
          (List.replicate (2048 * 64) 0).drop (0 + WireMessage.heartbeat.bytes.length) := rfl
  rcases FixHandler.parse_wire 0 WireMessage.heartbeat.bytes.length .heartbeat content with
    ⟨msg, ends, parsed⟩
  have polled := noted_next (P := Lmax.sample.fixTcpClient)
    (x := (State.connected Lmax.sample.fixTcpClient Unit 3, .start)) .start
    (.poll (.events true false rfl (by decide)))
  have taken := noted_next polled (.poll (.takeBuf rfl rfl))
  have read := noted_next taken
    (.poll (.recv WireMessage.heartbeat.bytes ⟨0, 0⟩ rfl (by decide +kernel) small))
  have pushed := noted_next read (.poll (.handle rfl rfl parsed fun _ => by decide))
  exact ⟨_, _, rfl, rfl, found_of_reaches Lmax.sample.fixTcpClient 3 _ _ pushed⟩

end Client

end OpenFix
