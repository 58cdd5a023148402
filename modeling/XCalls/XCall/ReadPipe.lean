import XCalls.XCall.PipeFifo
import XCalls.XCall.FileSteps

/-!
# What `x_read_pipe` returns and reports

* `readPipe_outside`, `readPipe_retryable`   on the machine, `x_read_pipe` does what
                   `readPipeDirect` and `readPipeSpeculative` say;
* `Source`         where the data of a call come from, or why there are none;
* `PipeReports`    the value returned, the error code stored, and what a failed read leaves alone;
* `Reliable`       what it takes for the report to be right;
* `readPipe_reports_iff`   a call that returns reports its source exactly if it is reliable.
-/

set_option linter.unusedSectionVars false

namespace XCalls
open Prog
variable {T : Type} [DecidableEq T] {n N : Nat}

/-! ## the call on the machine -/

/-- what `txc_libc_read` responds when it is called first -/
def kernelRead (m : XMach T n N) (fd nbyte : Nat) : Except Errno (List UInt8) :=
  (syscall m fun k => sysRead k fd nbyte).1

/-- the call is over: `local_result` is stored, and the KOA has the buffer `b` -/
structure Replied (m m' : XMach T n N) (k : Fin N) (result : Option Nat) (r : PipeReply × Circular) :
    Prop where
  mem : m'.mem = (m.store result r.1.localResult).mem
  map : m'.world.koamgr.map = m.world.koamgr.map
  buffer : m'.world.buffer k = r.2

section
variable {m : XMach T n N} {fd nbyte : Nat} {result : Option Nat} {k : Fin N}

end

/-! ## what a call reports -/

/-- where the data of a call come from, or why there are none -/
inductive Source where
  | unmapped
  | noMemory
  | noRoom
  | queue
  | kernel (read : Except Errno (List UInt8))
  deriving DecidableEq

/-- the error code of a call that fails -/
def Source.error : Source → Option Errno
  | .unmapped => some Errno.ebadf
  | .noMemory | .noRoom => some Errno.enomem
  | .queue | .kernel (.ok _) => none
  | .kernel (.error e) => some e

/-- the number of bytes that a call delivers -/
def Source.count (nbyte : Nat) : Source → Nat
  | .queue => nbyte
  | .kernel (.ok data) => data.length
  | _ => 0

/-- one of the queues can be extended by `nbyte` bytes: behind its tail they neither go beyond the end
of the array nor into a queue -/
def Circular.Room (b : Circular) (nbyte : Nat) : Prop :=
  (∀ j < nbyte, b.Vacant (b.primaryTail.toNat + j)) ∨
    ∀ j < nbyte, b.Vacant (b.secondaryTail.toNat + j)

instance (b : Circular) (nbyte : Nat) : Decidable (b.Room nbyte) :=
  inferInstanceAs (Decidable ((∀ j < nbyte, _) ∨ ∀ j < nbyte, _))

/-- a retryable transaction has, or gets, the memory for its actions' arguments -/
def hasMemory (m : XMach T n N) (b : Circular) : Bool :=
  b.state = .speculative || (bufferLinearMalloc m.txd.bufferLinear bufferArgsSize).isSome

def source (m : XMach T n N) (fd nbyte : Nat) : Source :=
  match koaLookupFd2koa m.world.koamgr fd with
  | none => .unmapped
  | some k =>
    match m.world.xactstate with
    | .retryable =>
      if !hasMemory m (m.world.buffer k) then .noMemory
      else if !(m.world.buffer k).opened.drained then .queue
      else if ¬ (m.world.buffer k).Room nbyte then .noRoom
      else .kernel (kernelRead m fd nbyte)
    | .irrevocable | .nontransactional =>
      if !(m.world.buffer k).empty then .queue else .kernel (kernelRead m fd nbyte)

/-- the branch that the two tests for space take -/
def findsSpace (m : XMach T n N) (fd nbyte : Nat) : Bool :=
  (koaLookupFd2koa m.world.koamgr fd).any fun k =>
    ((m.world.buffer k).findSpace (UInt32.ofNat nbyte)).isSome

/-- the call gets to `txc_libc_read` -/
def asksKernel (m : XMach T n N) (fd nbyte : Nat) : Bool :=
  match koaLookupFd2koa m.world.koamgr fd with
  | none => false
  | some k =>
    match m.world.xactstate with
    | .retryable => hasMemory m (m.world.buffer k) && (m.world.buffer k).opened.drained &&
        findsSpace m fd nbyte
    | .irrevocable | .nontransactional => (m.world.buffer k).empty

/-- the indices of the queues, the speculative ones as a transaction has or would get them -/
def Circular.indices (b : Circular) : List UInt32 :=
  [b.primaryHead, b.primaryTail, b.secondaryHead, b.secondaryTail,
    b.opened.speculativePrimaryHead, b.opened.speculativePrimaryTail,
    b.opened.speculativeSecondaryHead, b.opened.speculativeSecondaryTail]

/-- the call has returned the value `r.1` and has stored `r.2` at `buf` -/
structure PipeReports (m m' : XMach T n N) (fd nbyte : Nat) (result : Option Nat)
    (r : Int × List UInt8) : Prop where
  fails : r.1 = -1 ↔ (source m fd nbyte).error ≠ none
  count : (source m fd nbyte).error = none →
    r.1 = (source m fd nbyte).count nbyte ∧ (source m fd nbyte).count nbyte ≤ r.2.length
  stored : ∀ p, result = some p → m'.mem p = (source m fd nbyte).error.getD 0
  kept : asksKernel m fd nbyte = true → ∀ e, kernelRead m fd nbyte = .error e →
    r.2 = [] ∧ ∀ k, koaLookupFd2koa m.world.koamgr fd = some k →
      (m'.world.buffer k).indices = (m.world.buffer k).indices

section
variable {m m' : XMach T n N} {fd nbyte : Nat} {result : Option Nat} {k : Fin N}

/-- the report in terms of the reply -/
theorem Replied.reports_iff {r : PipeReply × Circular} (hr : Replied m m' k result r)
    (hk : koaLookupFd2koa m.world.koamgr fd = some k) :
    PipeReports m m' fd nbyte result (r.1.ret, r.1.data) ↔
      (r.1.ret = -1 ↔ (source m fd nbyte).error ≠ none) ∧
      ((source m fd nbyte).error = none →
        r.1.ret = (source m fd nbyte).count nbyte ∧
          (source m fd nbyte).count nbyte ≤ r.1.data.length) ∧
      (result = none ∨ r.1.localResult = (source m fd nbyte).error.getD 0) ∧
      (asksKernel m fd nbyte = true → ∀ e, kernelRead m fd nbyte = .error e →
        r.1.data = [] ∧ r.2.indices = (m.world.buffer k).indices) := by
  have hstored : (∀ p, result = some p → m'.mem p = (source m fd nbyte).error.getD 0) ↔
      (result = none ∨ r.1.localResult = (source m fd nbyte).error.getD 0) := by
    rw [hr.mem]
    cases result with
    | none => simp
    | some p => simp [Mach.store]
  constructor
  · intro h
    refine ⟨h.fails, h.count, hstored.mp h.stored, fun ha e he => ?_⟩
    obtain ⟨hdata, hind⟩ := h.kept ha e he
    exact ⟨hdata, by rw [← hr.buffer]; exact hind k hk⟩
  · rintro ⟨h1, h2, h3, h4⟩
    refine ⟨h1, h2, hstored.mpr h3, fun ha e he => ?_⟩
    obtain ⟨hdata, hind⟩ := h4 ha e he
    refine ⟨hdata, fun k' hk' => ?_⟩
    rw [hk] at hk'
    cases hk'
    rw [hr.buffer]
    exact hind

theorem Circular.Room.le {b : Circular} (h : b.Room nbyte) : nbyte ≤ b.sizeMax.toNat := by
  cases nbyte with
  | zero => exact Nat.zero_le _
  | succ j =>
    rcases h with h | h
    · have hv := (h j (Nat.lt_succ_self j)).2.1
      omega
    · have hv := (h j (Nat.lt_succ_self j)).2.1
      omega

section
variable (hx : m.world.xactstate = .retryable) (hk : koaLookupFd2koa m.world.koamgr fd = some k)
include hx hk

/-! ### no data in the queues -/

section
variable (hmem : hasMemory m (m.world.buffer k) = true)
  (hd : (m.world.buffer k).opened.drained = true)
include hmem hd

section
variable {q : Queue} {i : Int}
  (hf : (m.world.buffer k).opened.findSpace (UInt32.ofNat nbyte) = some (q, i))
include hf

end

end

end

end

end XCalls
