import XCalls.XCall.PipeFifo
import XCalls.XCall.WritePipe

/-!
# A pipe between writers and a reader

* `Channel`, `channelStep`   transactions of `x_write_pipe` calls at one end of a pipe, the writes
                   that their commits issue, and transactions of `x_read_pipe` calls at the other;
* `Channel.Kept`    the invariant;
* `channel_exactly_once`   every byte of a committed write is in one place: a committed transaction
                   has read it, it is buffered, it is in the pipe or its write is still to come.

The pipe takes each write whole.  The commit actions of a writer run before it releases the sentinel
of the pipe: the next transaction that writes begins behind them.
-/

set_option linter.unusedSectionVars false

namespace XCalls
open Prog EventSys Memory
variable {T : Type} [DecidableEq T] {n N : Nat}

/-! ## the channel -/

structure Writer (T : Type) (n N : Nat) where
  mach : XMach T n N
  bytes : Memory
  base : Nat
  size : mach.txd.bufferLinear.sizeMax = bufferLinearSize
  fits : base + bufferLinearSize.toNat < 2 ^ 32

def Writer.run (w : Writer T n N) (es : List WriterEvent) :
    Option (WriterOut × (XMach T n N × LinearMem)) :=
  writerRun es [] (xBegin w.mach, ⟨w.bytes, w.base, [], []⟩)

def writesTo (fd : Nat) (l : List SysEvent) : List (List UInt8) :=
  l.filterMap fun
    | .write fd' buf => if fd' = fd then some buf else none
    | .close _ => none

structure Channel where
  reader : PipeSys
  /-- the bytes that the kernel has been given -/
  sent : List UInt8
  /-- the writes that the commit of a writer still has to issue -/
  flight : List (List UInt8)
  /-- the bytes that the calls to write that returned success were given, of the committed
  transactions -/
  written : List UInt8

/-- what a transaction of `w` has called, and whether it commits -/
structure Attempt (T : Type) (n N : Nat) where
  writer : Writer T n N
  events : List WriterEvent
  abort : Option AbortReason
  fuel : Nat
  answers : Answers

inductive ChannelEvent (T : Type) (n N : Nat) where
  | transact (a : Attempt T n N)
  | write
  | read (e : FifoEvent)

/-- the writes to `fd` that an attempt issues, and the bytes of its calls if it commits -/
def Attempt.run (a : Attempt T n N) (fd : Nat) : Option (List (List UInt8) × List UInt8) :=
  (a.writer.run a.events).bind fun (out, σ) =>
    match out.reason.or a.abort with
    | none => (txGenericCommitAction exec a.fuel (withAnswers σ.1 a.answers)).map fun o =>
      (writesTo fd (issuedBy o.executed (withAnswers σ.1 a.answers)),
        (out.written.filter fun w => w.1.toNat = fd).flatMap Prod.snd)
    | some reason =>
      (txGenericUndoAction exec a.fuel (withAnswers (xAbort σ.1 reason) a.answers)).map fun o =>
        (writesTo fd (issuedBy o.executed (withAnswers (xAbort σ.1 reason) a.answers)), [])

/-- the bytes that the pipe hands out -/
def Channel.stream (s : Channel) (i : Nat) : UInt8 := s.sent.getD i 0

def Channel.Delivers (s : Channel) : FifoEvent → Prop
  | .read _ _ (.ok k) => s.reader.handed + k ≤ s.sent.length
  | _ => True

instance (s : Channel) : ∀ e, Decidable (s.Delivers e)
  | .read _ _ (.ok _) => inferInstanceAs (Decidable (_ ≤ _))
  | .read _ _ (.error _) => isTrue trivial
  | .commit => isTrue trivial
  | .abort => isTrue trivial

/-- `fd` is the end of the pipe that is written to -/
def channelStep (fd : Nat) (s : Channel) : ChannelEvent T n N → Option Channel
  | .transact a =>
    if s.flight = [] then
      (a.run fd).map fun r => { s with flight := r.1, written := s.written ++ r.2 }
    else none
  | .write =>
    match s.flight with
    | [] => none
    | buf :: rest => some { s with sent := s.sent ++ buf, flight := rest }
  | .read e =>
    if s.Delivers e then (fifoStep s.stream s.reader e).map fun r => { s with reader := r }
    else none

/-- nothing has been written yet -/
structure Channel.Start (s : Channel) : Prop where
  reader : s.reader.Start
  sent : s.sent = []
  flight : s.flight = []
  written : s.written = []

/-- the condition on steps: the sizes are those of an `int`, and see `inOrder` -/
def ChannelEvent.Ok (s : Channel) : ChannelEvent T n N → Prop
  | .transact a => ∀ e ∈ a.events, e.Small
  | .write => True
  | .read e => inOrder s.reader e

/-! ## the invariant -/

theorem writesTo_append (fd : Nat) (l l' : List SysEvent) :
    writesTo fd (l ++ l') = writesTo fd l ++ writesTo fd l' := List.filterMap_append

theorem writesTo_closes (fd : Nat) {l : List SysEvent} (h : ∀ c ∈ l, ∃ x, c = .close x) :
    writesTo fd l = [] := by
  refine List.filterMap_eq_nil_iff.mpr fun c hc => ?_
  obtain ⟨x, rfl⟩ := h c hc
  rfl

theorem writesTo_writes (fd : Nat) (l : List (UInt32 × List UInt8)) :
    (writesTo fd (l.map fun w => .write w.1.toNat w.2)).flatten
      = (l.filter fun w => w.1.toNat = fd).flatMap Prod.snd := by
  induction l with
  | nil => rfl
  | cons w l ih =>
    by_cases h : w.1.toNat = fd
    · rw [List.map_cons, List.filter_cons_of_pos (by simpa using h), List.flatMap_cons, ← ih]
      simp [writesTo, h]
    · rw [List.map_cons, List.filter_cons_of_neg (by simpa using h), ← ih]
      simp [writesTo, h]

/-- **An attempt** issues the bytes of its calls, or nothing. -/
theorem Attempt.run_flatten {a : Attempt T n N} {fd : Nat} {r : List (List UInt8) × List UInt8}
    (hes : ∀ e ∈ a.events, e.Small) (h : a.run fd = some r) : r.1.flatten = r.2 := by
  obtain ⟨⟨out, σ⟩, hrun, hend⟩ := Option.bind_eq_some_iff.mp h
  obtain ⟨hok₀, hact⟩ := xBegin_lists a.writer.mach
  obtain ⟨hinv, hok⟩ := writerRun_inv hes (pipeInv_begin a.writer.size a.writer.fits hact) hok₀ hrun
  dsimp only at hend
  split at hend
  · obtain ⟨o, ho, rfl⟩ := Option.map_eq_some_iff.mp hend
    obtain ⟨closes, hissued, hcloses⟩ := commit_issues hinv hok a.answers ho
    show (writesTo fd (issuedBy o.executed _)).flatten = _
    rw [hissued, writesTo_append, writesTo_closes fd hcloses, List.append_nil, writesTo_writes]
  · obtain ⟨o, ho, rfl⟩ := Option.map_eq_some_iff.mp hend
    show (writesTo fd (issuedBy o.executed _)).flatten = _
    rw [abort_issues hinv hok a.answers _ ho]
    rfl

/-! ## the reader -/

theorem PipeSys.Ordered.congr {stream stream' : Nat → UInt8} {p : PipeSys} (h : p.Ordered stream)
    (heq : ∀ i < p.handed, stream' i = stream i) : p.Ordered stream' := by
  refine ⟨h.bounded, ?_, h.idle, h.serving⟩
  rw [h.buffered]
  unfold handOut
  apply List.map_congr_left
  intro j hj
  rw [Nat.zero_add, heq j (List.mem_range.mp hj)]

/-- a call takes no more of the stream than the kernel delivers -/
theorem fifoStep_handed {s : Channel} {e : FifoEvent} {r : PipeSys} (hd : s.Delivers e)
    (hlen : s.reader.handed ≤ s.sent.length) (h : fifoStep s.stream s.reader e = some r) :
    r.handed ≤ s.sent.length := by
  cases e with
  | read nbyte mallocOk d =>
    rw [fifoStep, Option.ite_none_right_eq_some] at h
    obtain ⟨-, h⟩ := h
    cases h
    cases d with
    | error e => exact hlen
    | ok k =>
      have hk : s.reader.handed + k ≤ s.sent.length := hd
      have htakes : takes s.reader.buffer nbyte mallocOk (.ok k) ≤ k := by
        show (if _ then k else 0) ≤ k
        split
        · exact Nat.le_refl k
        · exact Nat.zero_le k
      show s.reader.handed + takes s.reader.buffer nbyte mallocOk (.ok k) ≤ _
      omega
  | commit =>
    cases h
    exact hlen
  | abort =>
    cases h
    exact hlen

theorem Channel.stream_append {s : Channel} {buf : List UInt8} {i : Nat} (h : i < s.sent.length) :
    (s.sent ++ buf).getD i 0 = s.stream i := by
  unfold Channel.stream
  rw [List.getD_eq_getElem?_getD, List.getD_eq_getElem?_getD, List.getElem?_append_left h]

/-- what the pipe has handed out are the first bytes that it was given -/
theorem Channel.handOut_stream {s : Channel} (h : s.reader.handed ≤ s.sent.length) :
    handOut s.stream 0 s.reader.handed = s.sent.take s.reader.handed := by
  apply List.ext_getElem
  · rw [length_handOut, List.length_take, Nat.min_eq_left h]
  · intro j hj h2
    rw [length_handOut] at hj
    have hlt : j < s.sent.length := Nat.lt_of_lt_of_le hj h
    rw [List.getElem_take]
    simp only [handOut, List.getElem_map, List.getElem_range, Nat.zero_add]
    unfold Channel.stream
    rw [List.getD_eq_getElem?_getD, List.getElem?_eq_getElem hlt, Option.getD_some]

structure Channel.Kept (s : Channel) : Prop where
  reader : s.reader.Ordered s.stream
  handed : s.reader.handed ≤ s.sent.length
  written : s.sent ++ s.flight.flatten = s.written

theorem Channel.Start.kept {s : Channel} (h : s.Start) : s.Kept where
  reader := h.reader.ordered s.stream
  handed := by
    rw [h.reader.2.1]
    exact Nat.zero_le _
  written := by
    rw [h.sent, h.flight, h.written]
    rfl

theorem channelStep_kept {fd : Nat} {s s' : Channel} {e : ChannelEvent T n N} (h : s.Kept)
    (hok : e.Ok s) (hs : channelStep fd s e = some s') : s'.Kept := by
  cases e with
  | transact a =>
    rw [channelStep, Option.ite_none_right_eq_some] at hs
    obtain ⟨hnone, hs⟩ := hs
    obtain ⟨r, hr, rfl⟩ := Option.map_eq_some_iff.mp hs
    have hsent : s.sent = s.written := by
      have := h.written
      rwa [hnone, List.flatten_nil, List.append_nil] at this
    refine ⟨h.reader, h.handed, ?_⟩
    show s.sent ++ r.1.flatten = s.written ++ r.2
    rw [Attempt.run_flatten hok hr, hsent]
  | write =>
    cases hflight : s.flight with
    | nil =>
      rw [channelStep, hflight] at hs
      cases hs
    | cons buf rest =>
      rw [channelStep, hflight] at hs
      cases hs
      refine ⟨h.reader.congr fun i hi => ?_, ?_, ?_⟩
      · exact Channel.stream_append (Nat.lt_of_lt_of_le hi h.handed)
      · have := h.handed
        show s.reader.handed ≤ (s.sent ++ buf).length
        rw [List.length_append]
        omega
      · have := h.written
        rw [hflight, List.flatten_cons] at this
        show (s.sent ++ buf) ++ rest.flatten = s.written
        rw [List.append_assoc, this]
  | read e =>
    rw [channelStep, Option.ite_none_right_eq_some] at hs
    obtain ⟨hd, hs⟩ := hs
    obtain ⟨r, hr, rfl⟩ := Option.map_eq_some_iff.mp hs
    exact ⟨fifoStep_ordered h.reader hok hr, fifoStep_handed (s := s) hd h.handed hr, h.written⟩

theorem reach_kept {fd : Nat} {s : Channel}
    (h : Reach (channelStep (T := T) (n := n) (N := N) fd) ChannelEvent.Ok Channel.Start s) :
    s.Kept :=
  Reach.inv (fun _ hs => hs.kept) (fun _ _ _ hk ho hs => channelStep_kept hk ho hs) h

/-- **Exactly once, from end to end.**  Writers run transactions one after the other and a reader
runs transactions at the other end, in any interleaving.  The bytes that the committed transactions
have read, those that are buffered, those in the pipe and those that the last commit still has to
write are, in this order, the bytes of the calls to write that returned success in the transactions
that committed: no byte is lost, doubled or invented, whatever aborts on either side. -/
theorem channel_exactly_once {fd : Nat} {s : Channel}
    (h : Reach (channelStep (T := T) (n := n) (N := N) fd) ChannelEvent.Ok Channel.Start s) :
    s.reader.committed ++ s.reader.buffer.buffered ++ s.sent.drop s.reader.handed
      ++ s.flight.flatten = s.written := by
  obtain ⟨hreader, hhanded, hwritten⟩ := reach_kept h
  rw [hreader.buffered, Channel.handOut_stream hhanded, List.take_append_drop, hwritten]

instance : ∀ e : WriterEvent, Decidable e.Small
  | .change _ => isTrue trivial
  | .writePipe _ _ nbyte _ _ => inferInstanceAs (Decidable (nbyte.toNat < 2 ^ 31))
  | .close _ _ _ => isTrue trivial

instance (s : Channel) : ∀ e : ChannelEvent T n N, Decidable (e.Ok s)
  | .transact a => inferInstanceAs (Decidable (∀ e ∈ a.events, e.Small))
  | .write => isTrue trivial
  | .read e => inferInstanceAs (Decidable (inOrder s.reader e))

def smallWriter : Writer Unit 8 8 :=
  ⟨smallMach smallKernel, fun a => UInt8.ofNat a, 4096, rfl, by decide⟩

/-- `nbyte` bytes from the address `buf`, twice, with the error output written to in between -/
def writesAround (buf : UInt32) (abort : Option AbortReason) : Attempt Unit 8 8 :=
  ⟨smallWriter, [.writePipe 1 buf 2 none smallAnswers, .writePipe 2 100 1 none smallAnswers,
    .change fun a => UInt8.ofNat (a + 1), .writePipe 1 buf 1 none smallAnswers], abort, 30,
    smallAnswers⟩

/-- a transaction aborts, another one commits; two bytes are read in an aborted transaction and
again in one that commits -/
def retriedReads : List (ChannelEvent Unit 8 8) :=
  [.transact (writesAround 50 (some .tmconflict)), .transact (writesAround 100 none), .write,
    .read (.read 2 true (.ok 2)), .read .abort, .write, .read (.read 2 true (.ok 0)), .read .commit,
    .transact (writesAround 200 none), .read (.read 1 true (.ok 1))]

theorem channel_exactly_once_retried :
    ∃ s : Channel, EventSys.run (EventSys.guarded (channelStep 1) ChannelEvent.Ok)
        ⟨freshPipe, [], [], []⟩ retriedReads = some s ∧
      s.reader.committed = [100, 101] ∧ s.written = [100, 101, 101, 200, 201, 201] ∧
      s.reader.committed ++ s.reader.buffer.buffered ++ s.sent.drop s.reader.handed
        ++ s.flight.flatten = s.written := by
  have hrun : (EventSys.run (EventSys.guarded (channelStep 1) ChannelEvent.Ok)
      (⟨freshPipe, [], [], []⟩ : Channel) retriedReads).map
        (fun s => (s.reader.committed, s.written)) =
      some ([100, 101], [100, 101, 101, 200, 201, 201]) := by decide +kernel
  obtain ⟨s, h, hs⟩ := Option.map_eq_some_iff.mp hrun
  obtain ⟨hc, hw⟩ := Prod.mk.inj hs
  refine ⟨s, h, hc, hw, channel_exactly_once ((reach_of_guarded retriedReads h).mono_init ?_)⟩
  intro s hs
  rw [hs]
  exact ⟨freshPipe_start, rfl, rfl, rfl⟩

end XCalls
