import XCalls.Lib.Memory
import XCalls.XCall.FileSteps

/-!
# What lies in the linear buffer

`txc_buffer_linear_malloc` hands out addresses, and a deferred call writes its arguments there; the
commit action reads them when the transaction commits.

* `LinearMem`, `memHandle`   the machine with the memory of the process: `fill` is what a call writes
                   between its last allocation and the registration of its commit action;
* `memStep`        its steps on `MemView`;
* `run_mem`        the rule for runs;
* `run_machine`, `run_memory`   the machine does not depend on the memory.
-/

set_option linter.unusedSectionVars false

namespace XCalls
open Prog
variable {T : Type} [DecidableEq T] {n N : Nat}

/-- the memory of the process; `base` is the address of `txd->buffer_linear->buf`, `ptrs` are the
regions that the call under way has allocated, the last one first, and `args` the arguments of the
commit actions that were registered -/
structure LinearMem where
  bytes : Memory
  base : Nat
  ptrs : List Nat
  args : List Nat

def LinearMem.enter (μ : LinearMem) : LinearMem := { μ with ptrs := [] }

/-- the application writes anywhere but to the linear buffer -/
def LinearMem.change (μ : LinearMem) (size : Nat) (app : Memory) : LinearMem :=
  { μ with bytes := fun a => if μ.base ≤ a ∧ a < μ.base + size then μ.bytes a else app a }

/-- what an instruction of a call does to the memory -/
def LinearMem.note (fill : XAction N → LinearMem → LinearMem) (b : BufferLinear) (μ : LinearMem) :
    ∀ {β : Type}, Instr n N β → β → LinearMem
  | _, .linearMalloc _, ok => if ok then { μ with ptrs := (μ.base + b.curLen.toNat) :: μ.ptrs } else μ
  | _, .registerCommitAction a _ _, _ => fill a μ
  | _, _, _ => μ

def memHandle (fill : XAction N → LinearMem → LinearMem) :
    Handler (Instr n N) (XMach T n N × LinearMem) :=
  fun i σ => (handle i σ.1).map fun r => (r.1, r.2, σ.2.note fill σ.1.txd.bufferLinear i r.1)

/-! ## steps -/

structure MemView (N : Nat) where
  linear : BufferLinear
  commits : List (XAction N × Int32)
  undos : List (XAction N × Int32)
  xactstate : XactState
  garbage : List Int
  mem : LinearMem

def memView (σ : XMach T n N × LinearMem) : MemView N :=
  { linear := σ.1.txd.bufferLinear
    commits := others σ.1.txd.commitActionList.entries
    undos := others σ.1.txd.undoActionList.entries
    xactstate := σ.1.world.xactstate
    garbage := σ.1.world.answers.garbage
    mem := σ.2 }

def memStep (fill : XAction N → LinearMem → LinearMem) : StepRel (Instr n N) (MemView N)
  | _, .getXactstate, b, v, v' => b = v.xactstate ∧ v' = v
  | _, .linearMalloc size, b, v, v' =>
    match bufferLinearMalloc v.linear size with
    | none => b = false ∧ v' = v
    | some (offset, linear) => b = true ∧ v' = { v with
        linear := linear, mem := { v.mem with ptrs := (v.mem.base + offset.toNat) :: v.mem.ptrs } }
  | _, .linearFree size, _, v, v' => v' = { v with linear := bufferLinearFree v.linear size }
  | _, .registerCommitAction a _ order, _, v, v' =>
    v' = { v with commits := v.commits ++ [(a, order)], mem := fill a v.mem }
  | _, .registerUndoAction a _ order, _, v, v' => v' = { v with undos := v.undos ++ [(a, order)] }
  | _, .garbage, b, v, v' => b = v.garbage.headD 0 ∧ v' = { v with garbage := v.garbage.tail }
  | _, .tryacquire _ _, _, v, v' => v' = { v with garbage := v.garbage.tail }
  | _, _, _, v, v' => v' = v

section
variable {fill : XAction N → LinearMem → LinearMem} {σ σ' : XMach T n N × LinearMem}

theorem memView_syscall {β : Type} {m : XMach T n N} {μ : LinearMem}
    (f : Kernel → Except Errno β × Kernel) :
    memView ((syscall m f).2, μ) = memView (m, μ) := by
  unfold syscall
  cases m.world.answers.faults.head?.join <;> rfl

theorem memHandle_memStep {β : Type} {i : Instr n N β} {b : β}
    (h : memHandle fill i σ = some (b, σ')) : memStep fill i b (memView σ) (memView σ') := by
  obtain ⟨⟨b', m'⟩, h1, h2⟩ := Option.map_eq_some_iff.mp h
  cases h2
  obtain ⟨m, μ⟩ := σ
  have hsys : ∀ {γ : Type} {f : Kernel → Except Errno γ × Kernel} {b : Except Errno γ},
      some (syscall m f) = some (b, m') → memView (m', μ) = memView (m, μ) := by
    intro γ f b hs
    rw [← memView_syscall (m := m) f, Option.some.inj hs]
  cases i with
  | getXactstate | garbage =>
    cases h1
    exact ⟨rfl, rfl⟩
  | linearMalloc size =>
    simp only [memStep, memView]
    simp only [handle] at h1
    cases hm : bufferLinearMalloc m.txd.bufferLinear size with
    | none =>
      rw [hm] at h1
      cases h1
      exact ⟨rfl, rfl⟩
    | some r =>
      rw [hm] at h1
      cases h1
      refine ⟨rfl, ?_⟩
      rw [malloc_offset hm]
      rfl
  | linearFree =>
    cases h1
    rfl
  | registerCommitAction a result order =>
    cases h1
    simp [memStep, memView, LinearMem.note, txRegisterCommitAction_eq, others]
  | registerUndoAction a result order =>
    cases h1
    simp [memStep, memView, LinearMem.note, txRegisterUndoAction_eq, others]
  | tryacquire s flags =>
    simp only [handle, Option.map_eq_some_iff] at h1
    obtain ⟨⟨r, mgr, txd⟩, h1, h2⟩ := h1
    cases h2
    obtain ⟨hc, hu⟩ := Prod.mk.inj (actions_tryacquire h1)
    have hl := linear_tryacquire h1
    simp only [memStep, memView, LinearMem.note, hc, hu, hl]
  | libcOpen | libcClose | libcDup | libcRead | libcWrite | libcLseek | libcFtruncate | libcPwrite
  | libcRename | libcLink | libcUnlink | libcPipe | libcSocket | libcFsync | libcFdatasync
  | libcSendmsg | libcRecvmsg => exact hsys h1
  | path2inode | mktemp | lockAliasCache | unlockAliasCache | lockFd | unlockFd | lockFdsRefbyKoa
  | unlockFdsRefbyKoa | lookupFd2koa | attachKoa | getBuffer | setBuffer =>
    cases h1
    rfl
  | store p v =>
    cases h1
    cases p <;> rfl
  | lookupInode | detachKoa =>
    cases h1
    rw [World.meet_eq]
    rfl
  | createKoa | createKoaOf | attachFd | getSentinel =>
    simp only [handle, Option.map_eq_some_iff] at h1
    obtain ⟨x, -, h2⟩ := h1
    cases h2
    rfl
  | detachFd k fd lock =>
    cases h1
    rw [World.meet_eq]
    split <;> rfl

theorem run_mem {α : Type} {p : XProg n N α} {Q : Except Stop α → MemView N → Prop}
    {r : Except Stop α} (hwp : wp (memStep fill) p Q (memView σ))
    (h : run (memHandle fill) p σ = some (r, σ')) : Q r (memView σ') := by
  have hR : ∀ {β : Type} (i : Instr n N β) (b : β) (s s' : XMach T n N × LinearMem), True →
      memHandle fill i s = some (b, s') → memStep fill i b (memView s) (memView s') ∧ True :=
    fun i b s s' _ hs => ⟨memHandle_memStep hs, trivial⟩
  exact (wp_run hR trivial hwp h).1

/-- the machine does not depend on the memory -/
theorem run_machine {α : Type} {p : XProg n N α} {r : Except Stop α}
    (h : run (memHandle fill) p σ = some (r, σ')) : run handle p σ.1 = some (r, σ'.1) := by
  induction p generalizing σ with
  | ret a =>
    cases h
    rfl
  | stop e =>
    cases h
    rfl
  | op i k ih =>
    rw [run_op, Option.bind_eq_some_iff] at h
    obtain ⟨⟨_, σ₁⟩, h1, h2⟩ := h
    obtain ⟨⟨b, m₁⟩, h3, h4⟩ := Option.map_eq_some_iff.mp h1
    cases h4
    rw [run_step h3]
    exact ih b h2

/-- every run of the machine is one with memory -/
theorem run_memory {α : Type} {p : XProg n N α} {r : Except Stop α} {m m' : XMach T n N}
    (h : run handle p m = some (r, m')) (μ : LinearMem) :
    ∃ μ', run (memHandle fill) p (m, μ) = some (r, m', μ') := by
  induction p generalizing m μ with
  | ret a =>
    cases h
    exact ⟨μ, rfl⟩
  | stop e =>
    cases h
    exact ⟨μ, rfl⟩
  | op i k ih =>
    rw [run_op, Option.bind_eq_some_iff] at h
    obtain ⟨⟨b, m₁⟩, h1, h2⟩ := h
    have hstep : memHandle fill i (m, μ)
        = some (b, m₁, μ.note fill m.txd.bufferLinear i b) := by
      rw [memHandle, h1]
      rfl
    rw [run_step hstep]
    exact ih b h2 _

end

end XCalls
