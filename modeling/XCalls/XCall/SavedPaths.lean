import XCalls.Lib.Layout
import XCalls.XCall.Actions
import XCalls.XCall.FileSteps

/-!
# The path names that a transaction saves

`x_create`, `x_rename` and `x_unlink` copy path names to the linear buffer with `strcpy`, into
arrays of `TXC_MAX_LEN_PATHNAME` characters, and their actions read them there.

* `XAction.saves`, `XAction.reads`   the fields of the arguments of an action, in the order in which
                   they are written, and those that it reads;
* `prog_reads`     the names that an action passes on are among the latter;
* `SavedMem`, `savedHandle`   the machine with the memory of the process;
* `SavedView`, `savedStep`   its steps on what such a call sees;
* `Saves`          the actions that a call registers;
* `xCreate_saved`, `xRename_saved`, `xUnlink_saved`   it registers these or none.
-/

set_option linter.unusedSectionVars false

namespace XCalls
open Prog Memory
variable {T : Type} [DecidableEq T] {n N : Nat}

/-! ## the arguments of the actions -/

/-- `TXC_MAX_LEN_PATHNAME` -/
def maxLenPathname : Nat := 128

/-- the bytes of a path name, a character for each -/
def pathBytes (p : Path) : List UInt8 := p.toList.map fun c => UInt8.ofNat c.toNat

/-- path names as C has them: no byte is NUL -/
def IsPathname (p : Path) : Prop := ∀ c ∈ p.toList, 0 < c.toNat ∧ c.toNat < 256

/-- the name and its NUL fit into the array -/
def FitsArray (p : Path) : Prop := (pathBytes p).length + 1 ≤ maxLenPathname

instance (p : Path) : Decidable (FitsArray p) := inferInstanceAs (Decidable (_ ≤ _))

/-- what a call writes to its arguments, in the source's order: `addr` are the addresses of the
KOAs, `junk` is what the locals `newpath_koa` and `temppath` hold when they were never set -/
def XAction.saves (addr : Fin N → UInt32) (junk : UInt32 × List UInt8) :
    XAction N → List (Nat × Field)
  | .createCase1Undo fd koa pathname =>
    [(8, .string (pathBytes pathname)), (4, .word (addr koa)), (0, .word (UInt32.ofNat fd))]
  | .createCase2Commit args =>
    [(8, .string (pathBytes args.tempPathname)), (136, .string (pathBytes args.originalPathname)),
      (4, .word (addr args.koa)), (0, .word (UInt32.ofNat args.fd))]
  | .renameCommit args =>
    [(268, .string (args.newpathKoa.elim junk.2 fun k => pathBytes k.2)),
      (140, .string (pathBytes args.newpath)), (12, .string (pathBytes args.oldpath)),
      (4, .word (args.newpathKoa.elim junk.1 fun k => addr k.1)), (0, .word (addr args.oldpathKoa)),
      (8, .word (args.newpathKoa.elim 0 fun _ => 1))]
  -- `fd` is never set
  | .unlinkCommit koa pathname => [(4, .word (addr koa)), (8, .string (pathBytes pathname))]
  -- the undo action of a call has the arguments of its commit action
  | _ => []

/-- what the functions read from their arguments -/
def XAction.reads (addr : Fin N → UInt32) : XAction N → List (Nat × Field)
  | .createCase1Undo fd koa pathname =>
    [(4, .word (addr koa)), (8, .string (pathBytes pathname)), (0, .word (UInt32.ofNat fd))]
  | .createCase2Commit args => [(8, .string (pathBytes args.tempPathname))]
  | .createCase2Undo args =>
    [(4, .word (addr args.koa)), (136, .string (pathBytes args.originalPathname)),
      (8, .string (pathBytes args.tempPathname)), (0, .word (UInt32.ofNat args.fd))]
  | .renameCommit args =>
    [(0, .word (addr args.oldpathKoa)), (8, .word (args.newpathKoa.elim 0 fun _ => 1)),
      (12, .string (pathBytes args.oldpath))] ++
      args.newpathKoa.elim [] fun k => [(4, .word (addr k.1))]
  | .renameUndo args =>
    [(0, .word (addr args.oldpathKoa)), (8, .word (args.newpathKoa.elim 0 fun _ => 1)),
      (140, .string (pathBytes args.newpath))] ++
      args.newpathKoa.elim [] fun k => [(4, .word (addr k.1)), (268, .string (pathBytes k.2))]
  | .unlinkCommit koa pathname => [(4, .word (addr koa)), (8, .string (pathBytes pathname))]
  | _ => []

/-- the path names that an instruction passes to `unlink` or `rename` -/
def Instr.paths : ∀ {β : Type}, Instr n N β → List Path
  | _, .libcUnlink p => [p]
  | _, .libcRename old new => [old, new]
  | _, _ => []

def Instr.PassesOnly (fields : List (Nat × Field)) {β : Type} (i : Instr n N β) : Prop :=
  ∀ p ∈ i.paths, ∃ offset, (offset, .string (pathBytes p)) ∈ fields

section
variable {fields : List (Nat × Field)} {old new p : Path} {o r : Nat}

theorem passes_unlink (h : (o, .string (pathBytes p)) ∈ fields) :
    (Instr.libcUnlink p : Instr n N _).PassesOnly fields := by
  intro q hq
  rw [List.mem_singleton.mp hq]
  exact ⟨o, h⟩

theorem passes_rename (hold : (o, .string (pathBytes old)) ∈ fields)
    (hnew : (r, .string (pathBytes new)) ∈ fields) :
    (Instr.libcRename old new : Instr n N _).PassesOnly fields := by
  intro q hq
  rcases List.mem_cons.mp hq with rfl | hq
  · exact ⟨o, hold⟩
  · rw [List.mem_singleton.mp hq]
    exact ⟨r, hnew⟩

theorem passes_none {β : Type} {i : Instr n N β} (h : i.paths = []) : i.PassesOnly fields := by
  intro q hq
  rw [h] at hq
  cases hq

end

/-- **The names that an action passes on are among the fields that it reads.** -/
theorem prog_reads (addr : Fin N → UInt32) {a : XAction N} (ha : a.reads addr ≠ []) :
    All (fun _ (i : Instr n N _) => i.PassesOnly (a.reads addr)) a.prog := by
  cases a with
  | createCase1Undo fd koa pathname =>
    refine all_op (passes_none rfl) fun _ => all_op (passes_unlink (o := 8) (by simp [XAction.reads]))
      fun r => all_op (passes_none rfl) fun _ => all_op (passes_none rfl) fun _ =>
        all_op (passes_none rfl) fun _ => ?_
    cases r <;> trivial
  | createCase2Commit args =>
    exact all_op (passes_unlink (o := 8) (by simp [XAction.reads])) fun _ => trivial
  | createCase2Undo args =>
    refine all_op (passes_none rfl) fun _ => all_op (passes_unlink (o := 136)
      (by simp [XAction.reads])) fun r => all_op (passes_rename (o := 8) (r := 136)
        (by simp [XAction.reads]) (by simp [XAction.reads])) fun r' => all_op (passes_none rfl)
          fun _ => all_op (passes_none rfl) fun _ => all_op (passes_none rfl) fun _ => ?_
    cases r <;> cases r' <;> trivial
  | renameCommit args =>
    obtain ⟨oldpathKoa, newpathKoa, oldpath, newpath⟩ := args
    have hold : (Instr.libcUnlink oldpath : Instr n N _).PassesOnly
        ((XAction.renameCommit ⟨oldpathKoa, newpathKoa, oldpath, newpath⟩ : XAction N).reads addr) :=
      passes_unlink (o := 12) (by simp [XAction.reads])
    cases newpathKoa with
    | none | some =>
      simp only [XAction.prog, xRenameCommit, xRenameDetach, xRenameUnlock, call_bind, op_bind,
        ret_bind, pure_eq]
      repeat' first
        | exact trivial
        | refine all_op (passes_none rfl) fun _ => ?_
        | refine all_op hold fun _ => ?_
  | renameUndo args =>
    obtain ⟨oldpathKoa, newpathKoa, oldpath, newpath⟩ := args
    have hnew : (Instr.libcUnlink newpath : Instr n N _).PassesOnly
        ((XAction.renameUndo ⟨oldpathKoa, newpathKoa, oldpath, newpath⟩ : XAction N).reads addr) :=
      passes_unlink (o := 140) (by simp [XAction.reads])
    cases newpathKoa with
    | none =>
      simp only [XAction.prog, xRenameUndo, xRenameDetach, xRenameUnlock, call_bind, op_bind,
        ret_bind, pure_eq]
      repeat' first
        | exact trivial
        | refine all_op (passes_none rfl) fun _ => ?_
        | refine all_op hnew fun _ => ?_
    | some k =>
      have hback : (Instr.libcRename k.2 newpath : Instr n N _).PassesOnly
          ((XAction.renameUndo ⟨oldpathKoa, some k, oldpath, newpath⟩ : XAction N).reads addr) :=
        passes_rename (o := 268) (r := 140) (by simp [XAction.reads]) (by simp [XAction.reads])
      simp only [XAction.prog, xRenameUndo, xRenameDetach, xRenameUnlock, call_bind, op_bind,
        pure_eq]
      repeat' first
        | exact trivial
        | refine all_op (passes_none rfl) fun _ => ?_
        | refine all_op hnew fun _ => ?_
        | refine all_op hback fun r => ?_; cases r
  | unlinkCommit koa pathname =>
    refine all_op (passes_none rfl) fun _ => all_op (passes_none rfl) fun _ =>
      all_op (passes_none rfl) fun _ => all_op (passes_unlink (o := 8) (by simp [XAction.reads]))
        fun _ => all_op (passes_none rfl) fun _ => all_op (passes_none rfl) fun _ => trivial
  | _ => exact absurd rfl ha

/-! ## the memory -/

/-- the memory of the process: `base` is the address of `txd->buffer_linear->buf`, `args` the region
that was allocated last; the registered actions are noted with their arguments -/
structure SavedMem (N : Nat) where
  bytes : Memory
  base : Nat
  args : Nat
  commits : List (XAction N × Nat)
  undos : List (XAction N × Nat)

/-- the application writes anywhere but to the linear buffer -/
def SavedMem.change (μ : SavedMem N) (size : Nat) (app : Memory) : SavedMem N :=
  { μ with bytes := fun a => if μ.base ≤ a ∧ a < μ.base + size then μ.bytes a else app a }

/-- what an instruction does to the memory: the arguments are written behind their allocation -/
def SavedMem.note (addr : Fin N → UInt32) (junk : UInt32 × List UInt8) (b : BufferLinear)
    (μ : SavedMem N) : ∀ {β : Type}, Instr n N β → β → SavedMem N
  | _, .linearMalloc _, ok => if ok then { μ with args := μ.base + b.curLen.toNat } else μ
  | _, .registerCommitAction a _ _, _ =>
    { μ with
      bytes := write μ.bytes μ.args (a.saves addr junk)
      commits := μ.commits ++ [(a, μ.args)] }
  | _, .registerUndoAction a _ _, _ =>
    { μ with
      bytes := write μ.bytes μ.args (a.saves addr junk)
      undos := μ.undos ++ [(a, μ.args)] }
  | _, _, _ => μ

def savedHandle (addr : Fin N → UInt32) (junk : UInt32 × List UInt8) :
    Handler (Instr n N) (XMach T n N × SavedMem N) :=
  fun i σ => (handle i σ.1).map fun r => (r.1, r.2, σ.2.note addr junk σ.1.txd.bufferLinear i r.1)

/-! ## the calls -/

/-- what a call on path names sees of the machine and of the memory -/
structure SavedView (N : Nat) where
  linear : BufferLinear
  commits : List (XAction N × Int32)
  undos : List (XAction N × Int32)
  xactstate : XactState
  kernel : Kernel
  answers : Answers
  mem : SavedMem N

def savedView (σ : XMach T n N × SavedMem N) : SavedView N :=
  { linear := σ.1.txd.bufferLinear
    commits := others σ.1.txd.commitActionList.entries
    undos := others σ.1.txd.undoActionList.entries
    xactstate := σ.1.world.xactstate
    kernel := σ.1.world.kernel
    answers := σ.1.world.answers
    mem := σ.2 }

/-- a system call on the view -/
def SavedView.sys {β : Type} (v : SavedView N) (f : Kernel → Except Errno β × Kernel) :
    Except Errno β × SavedView N :=
  let v' := { v with answers := { v.answers with faults := v.answers.faults.tail } }
  match v.answers.faults.head?.join with
  | some e => (.error e, v')
  | none => ((f v.kernel).1, { v' with kernel := (f v.kernel).2 })

/-- of the system calls, `open` and `rename` do what the kernel says -/
def savedStep (addr : Fin N → UInt32) (junk : UInt32 × List UInt8) :
    StepRel (Instr n N) (SavedView N)
  | _, .getXactstate, b, v, v' => b = v.xactstate ∧ v' = v
  | _, .linearMalloc size, b, v, v' =>
    match bufferLinearMalloc v.linear size with
    | none => b = false ∧ v' = v
    | some (offset, linear) => b = true ∧ v' = { v with
        linear := linear, mem := { v.mem with args := v.mem.base + offset.toNat } }
  | _, .linearFree size, _, v, v' => v' = { v with linear := bufferLinearFree v.linear size }
  | _, .registerCommitAction a _ order, _, v, v' => v' = { v with
      commits := v.commits ++ [(a, order)]
      mem := { v.mem with
        bytes := write v.mem.bytes v.mem.args (a.saves addr junk)
        commits := v.mem.commits ++ [(a, v.mem.args)] } }
  | _, .registerUndoAction a _ order, _, v, v' => v' = { v with
      undos := v.undos ++ [(a, order)]
      mem := { v.mem with
        bytes := write v.mem.bytes v.mem.args (a.saves addr junk)
        undos := v.mem.undos ++ [(a, v.mem.args)] } }
  | _, .garbage, _, v, v' => v' = { v with
      answers := { v.answers with garbage := v.answers.garbage.tail } }
  | _, .tryacquire _ _, _, v, v' => v' = { v with
      answers := { v.answers with garbage := v.answers.garbage.tail } }
  | _, .path2inode path, b, v, v' =>
    b = ⟨(v.kernel.names path).elim 0 FileId.ino, v.kernel.names path⟩ ∧ v' = v
  | _, .mktemp _, b, v, v' => b = v.answers.temp ∧ v' = v
  | _, .libcOpen path flags, b, v, v' =>
    v.sys (fun k => sysOpen k path flags v.answers.file v.answers.fd) = (b, v')
  | _, .libcRename old new, b, v, v' => v.sys (fun k => sysRename k old new) = (b, v')
  | _, .libcClose _, _, v, v' => ∃ k a, v' = { v with kernel := k, answers := a }
  | _, .libcDup _, _, v, v' => ∃ k a, v' = { v with kernel := k, answers := a }
  | _, .libcRead _ _, _, v, v' => ∃ k a, v' = { v with kernel := k, answers := a }
  | _, .libcWrite _ _, _, v, v' => ∃ k a, v' = { v with kernel := k, answers := a }
  | _, .libcLseek _ _ _, _, v, v' => ∃ k a, v' = { v with kernel := k, answers := a }
  | _, .libcFtruncate _ _, _, v, v' => ∃ k a, v' = { v with kernel := k, answers := a }
  | _, .libcPwrite _ _ _, _, v, v' => ∃ k a, v' = { v with kernel := k, answers := a }
  | _, .libcLink _ _, _, v, v' => ∃ k a, v' = { v with kernel := k, answers := a }
  | _, .libcUnlink _, _, v, v' => ∃ k a, v' = { v with kernel := k, answers := a }
  | _, .libcPipe, _, v, v' => ∃ k a, v' = { v with kernel := k, answers := a }
  | _, .libcSocket _ _ _, _, v, v' => ∃ k a, v' = { v with kernel := k, answers := a }
  | _, .libcFsync _, _, v, v' => ∃ k a, v' = { v with kernel := k, answers := a }
  | _, .libcFdatasync _, _, v, v' => ∃ k a, v' = { v with kernel := k, answers := a }
  | _, .libcSendmsg _ _ _, _, v, v' => ∃ k a, v' = { v with kernel := k, answers := a }
  | _, .libcRecvmsg _ _, _, v, v' => ∃ k a, v' = { v with kernel := k, answers := a }
  | _, _, _, v, v' => v' = v

section
variable {addr : Fin N → UInt32} {junk : UInt32 × List UInt8} {σ σ' : XMach T n N × SavedMem N}

theorem savedView_syscall {β : Type} (m : XMach T n N) (μ : SavedMem N)
    (f : Kernel → Except Errno β × Kernel) :
    (savedView (m, μ)).sys f = ((syscall m f).1, savedView ((syscall m f).2, μ)) := by
  unfold syscall SavedView.sys
  show (match m.world.answers.faults.head?.join with | some e => _ | none => _) = _
  cases m.world.answers.faults.head?.join <;> rfl

theorem sys_keeps {β : Type} (v : SavedView N) (f : Kernel → Except Errno β × Kernel) :
    ∃ k a, (v.sys f).2 = { v with kernel := k, answers := a } := by
  unfold SavedView.sys
  cases v.answers.faults.head?.join
  · exact ⟨_, _, rfl⟩
  · exact ⟨v.kernel, _, rfl⟩

theorem savedHandle_step {β : Type} {i : Instr n N β} {b : β}
    (h : savedHandle addr junk i σ = some (b, σ')) :
    savedStep addr junk i b (savedView σ) (savedView σ') := by
  obtain ⟨⟨b', m'⟩, h1, h2⟩ := Option.map_eq_some_iff.mp h
  cases h2
  obtain ⟨m, μ⟩ := σ
  have hsys : ∀ {γ : Type} {f : Kernel → Except Errno γ × Kernel} {b : Except Errno γ},
      some (syscall m f) = some (b, m') →
      (savedView (m, μ)).sys f = (b, savedView (m', μ)) := by
    intro γ f b hs
    rw [savedView_syscall, Option.some.inj hs]
  have hkeeps : ∀ {γ : Type} {f : Kernel → Except Errno γ × Kernel} {b : Except Errno γ},
      some (syscall m f) = some (b, m') → ∃ k a, savedView (m', μ)
        = { savedView (m, μ) with kernel := k, answers := a } := by
    intro γ f b hs
    have hk := sys_keeps (savedView (m, μ)) f
    rw [hsys hs] at hk
    exact hk
  cases i with
  | getXactstate | path2inode | mktemp =>
    cases h1
    exact ⟨rfl, rfl⟩
  | linearMalloc size =>
    simp only [savedStep, savedView]
    simp only [handle] at h1
    cases hm : bufferLinearMalloc m.txd.bufferLinear size with
    | none =>
      rw [hm] at h1
      cases h1
      exact ⟨rfl, rfl⟩
    | some r =>
      rw [hm] at h1
      cases h1
      refine ⟨rfl, ?_⟩
      rw [malloc_offset hm]
      rfl
  | registerCommitAction a result order =>
    cases h1
    simp [savedStep, savedView, SavedMem.note, txRegisterCommitAction_eq, others]
  | registerUndoAction a result order =>
    cases h1
    simp [savedStep, savedView, SavedMem.note, txRegisterUndoAction_eq, others]
  | tryacquire s flags =>
    simp only [handle, Option.map_eq_some_iff] at h1
    obtain ⟨⟨r, mgr, txd⟩, h1, h2⟩ := h1
    cases h2
    obtain ⟨hc, hu⟩ := Prod.mk.inj (actions_tryacquire h1)
    have hl := linear_tryacquire h1
    simp only [savedStep, savedView, SavedMem.note, hc, hu, hl]
  | libcOpen | libcRename => exact hsys h1
  | libcClose | libcDup | libcRead | libcWrite | libcLseek | libcFtruncate | libcPwrite | libcLink
  | libcUnlink | libcPipe | libcSocket | libcFsync | libcFdatasync | libcSendmsg | libcRecvmsg =>
    exact hkeeps h1
  | linearFree | garbage | lockAliasCache | unlockAliasCache | lockFd | unlockFd | lockFdsRefbyKoa
  | unlockFdsRefbyKoa | lookupFd2koa | attachKoa | getBuffer | setBuffer =>
    cases h1
    rfl
  | store p v =>
    cases h1
    cases p <;> rfl
  | lookupInode | detachKoa =>
    cases h1
    rw [World.meet_eq]
    rfl
  | createKoa | createKoaOf | attachFd | getSentinel =>
    simp only [handle, Option.map_eq_some_iff] at h1
    obtain ⟨x, -, h2⟩ := h1
    cases h2
    rfl
  | detachFd k fd lock =>
    cases h1
    rw [World.meet_eq]
    split <;> rfl

theorem run_saved {α : Type} {p : XProg n N α} {Q : Except Stop α → SavedView N → Prop}
    {r : Except Stop α} (hwp : wp (savedStep addr junk) p Q (savedView σ))
    (h : run (savedHandle addr junk) p σ = some (r, σ')) : Q r (savedView σ') := by
  have hR : ∀ {β : Type} (i : Instr n N β) (b : β) (s s' : XMach T n N × SavedMem N), True →
      savedHandle addr junk i s = some (b, s') →
      savedStep addr junk i b (savedView s) (savedView s') ∧ True :=
    fun i b s s' _ hs => ⟨savedHandle_step hs, trivial⟩
  exact (wp_run hR trivial hwp h).1

end

/-! ## what a call saves -/

/-- the path names that a call is given -/
def XCall.names : XCall → List Path
  | .create pathname => [pathname]
  | .rename oldpath newpath => [oldpath, newpath]
  | .unlink pathname => [pathname]
  | _ => []

/-- the actions that a call registers, with the size of their arguments; `temp` is the name that
`mktemp` chooses -/
inductive Saves (temp : Path) :
    XCall → UInt32 → List (XAction N × Int32) → List (XAction N × Int32) → Prop
  | createNew (fd : Nat) (koa : Fin N) (pathname : Path) :
      Saves temp (.create pathname) createCase1ArgsSize []
        [(.createCase1Undo fd koa pathname, regularActionOrder)]
  | createOver (fd : Nat) (koa : Fin N) (pathname : Path) :
      Saves temp (.create pathname) createCase2ArgsSize
        [(.createCase2Commit ⟨fd, koa, temp, pathname⟩, regularActionOrder)]
        [(.createCase2Undo ⟨fd, koa, temp, pathname⟩, regularActionOrder)]
  | rename (oldpathKoa : Fin N) (newpathKoa : Option (Fin N)) (oldpath newpath : Path) :
      Saves temp (.rename oldpath newpath) renameArgsSize
        [(.renameCommit ⟨oldpathKoa, newpathKoa.map (·, temp), oldpath, newpath⟩, regularActionOrder)]
        [(.renameUndo ⟨oldpathKoa, newpathKoa.map (·, temp), oldpath, newpath⟩, regularActionOrder)]
  | unlink (koa : Fin N) (pathname : Path) :
      Saves temp (.unlink pathname) unlinkArgsSize
        [(.unlinkCommit koa pathname, koaDestroyActionOrder)] []

namespace SavedView

/-- the same but for values that were never set -/
def draw (v : SavedView N) (garbage : List Int) : SavedView N :=
  { v with answers := { v.answers with garbage := garbage } }

/-- nothing but the kernel and the answers is different -/
def Rests (v v' : SavedView N) : Prop := ∃ k a, v' = { v with kernel := k, answers := a }

/-- a region of `size` bytes was allocated -/
def alloc (v : SavedView N) (size : UInt32) : SavedView N :=
  { v with
    linear := { v.linear with curLen := v.linear.curLen + size }
    mem := { v.mem with args := v.mem.base + v.linear.curLen.toNat } }

/-- the actions were registered and their arguments written to the region allocated last -/
def register (v : SavedView N) (addr : Fin N → UInt32) (junk : UInt32 × List UInt8)
    (cs us : List (XAction N × Int32)) : SavedView N :=
  { v with
    commits := v.commits ++ cs
    undos := v.undos ++ us
    mem := { v.mem with
      bytes := write v.mem.bytes v.mem.args ((cs ++ us).flatMap fun x => x.1.saves addr junk)
      commits := v.mem.commits ++ cs.map fun x => (x.1, v.mem.args)
      undos := v.mem.undos ++ us.map fun x => (x.1, v.mem.args) } }

/-- `x_create` has moved a file away that was at `pathname` -/
def aside (v : SavedView N) (pathname : Path) : SavedView N :=
  if v.kernel.names pathname = none then v
  else (v.sys fun k => sysRename k pathname v.answers.temp).2

/-- the `open` of `x_create` -/
def createOpen (v : SavedView N) (pathname : Path) : Except Errno Nat × SavedView N :=
  (v.aside pathname).sys fun k => sysOpen k pathname creationFlags v.answers.file v.answers.fd

/-- the call fails before it saves any name -/
def Refused (v : SavedView N) : XCall → Prop
  | .create pathname => (v.createOpen pathname).1.isOk = false
  | .rename oldpath _ => v.kernel.names oldpath = none
  | .unlink pathname => v.kernel.names pathname = none
  | _ => False

/-- the names that the call is given fit into the arrays of its arguments, where it saves any -/
def Fits (v : SavedView N) (c : XCall) : Prop := (∀ p ∈ c.names, FitsArray p) ∨ v.Refused c

theorem Rests.refl (v : SavedView N) : v.Rests v := ⟨v.kernel, v.answers, rfl⟩

theorem Rests.trans {v v₁ v₂ : SavedView N} (h : v.Rests v₁) (h' : v₁.Rests v₂) : v.Rests v₂ := by
  obtain ⟨k, a, rfl⟩ := h
  obtain ⟨k', a', rfl⟩ := h'
  exact ⟨k', a', rfl⟩

theorem rests_draw (v : SavedView N) (garbage : List Int) : v.Rests (v.draw garbage) :=
  ⟨v.kernel, _, rfl⟩

theorem rests_sys {β : Type} (v : SavedView N) (f : Kernel → Except Errno β × Kernel) :
    v.Rests (v.sys f).2 := sys_keeps v f

theorem sys_answers {β : Type} (v : SavedView N) (f : Kernel → Except Errno β × Kernel) :
    (v.sys f).2.answers.file = v.answers.file ∧ (v.sys f).2.answers.fd = v.answers.fd := by
  unfold sys
  cases v.answers.faults.head?.join <;> exact ⟨rfl, rfl⟩

theorem sys_draw {β : Type} (v : SavedView N) (garbage : List Int)
    (f : Kernel → Except Errno β × Kernel) :
    (v.draw garbage).sys f = ((v.sys f).1, (v.sys f).2.draw garbage) := by
  unfold sys
  show (match v.answers.faults.head?.join with | some e => _ | none => _) = _
  cases v.answers.faults.head?.join <;> rfl

section
variable {v : SavedView N} {p : Path}

theorem aside_new (h : v.kernel.names p = none) : v.aside p = v := if_pos h

theorem aside_over (h : v.kernel.names p ≠ none) :
    v.aside p = (v.sys fun k => sysRename k p v.answers.temp).2 := if_neg h

theorem aside_answers (v : SavedView N) (p : Path) :
    (v.aside p).answers.file = v.answers.file ∧ (v.aside p).answers.fd = v.answers.fd := by
  by_cases h : v.kernel.names p = none
  · rw [aside_new h]
    exact ⟨rfl, rfl⟩
  · rw [aside_over h]
    exact sys_answers v _

theorem rests_createOpen (v : SavedView N) (p : Path) : v.Rests (v.createOpen p).2 := by
  have haside : v.Rests (v.aside p) := by
    by_cases h : v.kernel.names p = none
    · rw [aside_new h]
      exact .refl v
    · rw [aside_over h]
      exact rests_sys v _
  exact haside.trans (rests_sys _ _)

end

end SavedView

/-- how a call ends: with nothing saved, or with its actions registered behind the level of the
linear buffer -/
def SavedPost (addr : Fin N → UInt32) (junk : UInt32 × List UInt8) (c : XCall) (v : SavedView N)
    (r : Except Stop Int) (v' : SavedView N) : Prop :=
  match r with
  | .error .internalError => True
  | .error (.abort _) => v.Rests v'
  | .ok _ => v.Rests v' ∨ ∃ size cs us, Saves v.answers.temp c size cs us ∧
      ¬ v.Refused c ∧ ¬ v.linear.curLen + size > v.linear.sizeMax ∧
      ((v.alloc size).register addr junk cs us).Rests v'

section
variable {addr : Fin N → UInt32} {junk : UInt32 × List UInt8} {α : Type} {v : SavedView N}
  {Q : Except Stop α → SavedView N → Prop}

theorem wp_silent {β : Type} {i : Instr n N β} {f : β → XProg n N α}
    (hi : ∀ b v', savedStep addr junk i b v v' → v' = v)
    (hf : ∀ b, wp (savedStep addr junk) (f b) Q v) : wp (savedStep addr junk) (op i f) Q v := by
  intro b v' h
  rw [hi b v' h]
  exact hf b

theorem wp_inode {p : Path} {f : Inode → XProg n N α}
    (h : wp (savedStep addr junk) (f ⟨(v.kernel.names p).elim 0 FileId.ino, v.kernel.names p⟩) Q v) :
    wp (savedStep addr junk) (op (.path2inode p) f) Q v := by
  intro b v' hs
  obtain ⟨rfl, rfl⟩ := hs
  exact h

theorem wp_rename {old new : Path} {f : Except Errno Unit → XProg n N α}
    (h : ∀ b, wp (savedStep addr junk) (f b) Q (v.sys fun k => sysRename k old new).2) :
    wp (savedStep addr junk) (op (.libcRename old new) f) Q v := by
  intro b v' hs
  rw [show v' = _ from (congrArg Prod.snd hs).symm]
  exact h b

theorem wp_open {p : Path} {flags : OpenFlags} {f : Except Errno Nat → XProg n N α}
    (h : wp (savedStep addr junk)
      (f (v.sys fun k => sysOpen k p flags v.answers.file v.answers.fd).1) Q
      (v.sys fun k => sysOpen k p flags v.answers.file v.answers.fd).2) :
    wp (savedStep addr junk) (op (.libcOpen p flags) f) Q v := by
  intro b v' hs
  rw [show b = _ from (congrArg Prod.fst hs).symm, show v' = _ from (congrArg Prod.snd hs).symm]
  exact h

theorem wp_end {result : Option Nat} {r : Int} {e : Errno}
    {Q : Except Stop Int → SavedView N → Prop} (h : Q (.ok r) v) : wp (savedStep addr junk) (finish result r e : XProg n N Int) Q v := by
  intro _ v' hs
  rw [show v' = v from hs]
  exact h

theorem wp_acquireNew {koa : Fin N} {f : Unit → XProg n N α}
    (he : ∀ garbage, Q (.error .internalError) (v.draw garbage))
    (hf : ∀ garbage, wp (savedStep addr junk) (f ()) Q (v.draw garbage)) :
    wp (savedStep addr junk) (acquireNew koa >>= f) Q v := by
  simp only [acquireNew, call_bind, op_bind]
  refine wp_silent (fun _ _ h => h) fun _ => ?_
  intro r v' h
  rw [show v' = v.draw _ from h]
  dsimp only
  split
  · exact he _
  · exact hf _

theorem wp_allocArgs {size : UInt32} {f : Unit → XProg n N α} (he : Q (.error .internalError) v)
    (hf : ¬ v.linear.curLen + size > v.linear.sizeMax →
      wp (savedStep addr junk) (f ()) Q (v.alloc size)) :
    wp (savedStep addr junk) (allocArgs size >>= f) Q v := by
  simp only [allocArgs, call_bind, op_bind]
  intro b v' h
  simp only [savedStep, bufferLinearMalloc] at h
  by_cases hfull : v.linear.curLen + size > v.linear.sizeMax
  · rw [if_pos hfull] at h
    obtain ⟨rfl, rfl⟩ := h
    exact he
  · rw [if_neg hfull] at h
    obtain ⟨rfl, rfl⟩ := h
    exact hf hfull

theorem wp_attach {inode : Inode} {flags : UInt32} {f : Fin N → XProg n N α}
    (ha : ∀ garbage reason, Q (.error (.abort reason)) (v.draw garbage))
    (he : ∀ garbage, Q (.error .internalError) (v.draw garbage))
    (hf : ∀ garbage koa, wp (savedStep addr junk) (f koa) Q (v.draw garbage)) :
    wp (savedStep addr junk) (attachPath inode flags >>= f) Q v := by
  simp only [attachPath, call_bind, op_bind]
  refine wp_silent (fun _ _ h => h) fun koa => ?_
  cases koa with
  | none =>
    refine wp_silent (fun _ _ h => h) fun koa => wp_silent (fun _ _ h => h) fun _ => ?_
    exact wp_bind (wp_acquireNew he fun garbage => hf garbage koa)
  | some koa =>
    refine wp_silent (fun _ _ h => h) fun _ => wp_silent (fun _ _ h => h) fun _ =>
      wp_silent (fun _ _ h => h) fun s => ?_
    intro r v' h
    rw [show v' = v.draw _ from h]
    dsimp only
    split
    · exact wp_silent (fun _ _ h => h) fun _ => wp_silent (fun _ _ h => h) fun _ =>
        wp_silent (fun _ _ h => h) fun _ => ha _ _
    · exact wp_silent (fun _ _ h => h) fun _ => hf _ koa

theorem wp_registerCommit {a : XAction N} {result : Option Nat} {order : Int32}
    {f : Unit → XProg n N α}
    (h : wp (savedStep addr junk) (f ()) Q (v.register addr junk [(a, order)] [])) :
    wp (savedStep addr junk) (op (.registerCommitAction a result order) f) Q v := by
  intro _ v' hs
  have hv : v' = v.register addr junk [(a, order)] [] := by
    rw [show v' = _ from hs]
    simp [SavedView.register]
  rw [hv]
  exact h

theorem wp_registerUndo {a : XAction N} {result : Option Nat} {order : Int32}
    {f : Unit → XProg n N α}
    (h : wp (savedStep addr junk) (f ()) Q (v.register addr junk [] [(a, order)])) :
    wp (savedStep addr junk) (op (.registerUndoAction a result order) f) Q v := by
  intro _ v' hs
  have hv : v' = v.register addr junk [] [(a, order)] := by
    rw [show v' = _ from hs]
    simp [SavedView.register]
  rw [hv]
  exact h

theorem register_undo (v : SavedView N) (cs us : List (XAction N × Int32)) :
    (v.register addr junk cs []).register addr junk [] us = v.register addr junk cs us := by
  simp [SavedView.register, write_append]

theorem SavedView.Rests.register {v₁ : SavedView N} (h : v.Rests v₁) (size : UInt32)
    (cs us : List (XAction N × Int32)) :
    ((v.alloc size).register addr junk cs us).Rests ((v₁.alloc size).register addr junk cs us) := by
  obtain ⟨k, a, rfl⟩ := h
  exact ⟨k, a, rfl⟩

theorem savedPost_ok {c : XCall} {size : UInt32} {cs us : List (XAction N × Int32)}
    {v₁ : SavedView N} {r : Int} (hv : v.Rests v₁) (hs : Saves v.answers.temp c size cs us)
    (hopen : ¬ v.Refused c) (hroom : ¬ v₁.linear.curLen + size > v₁.linear.sizeMax) :
    SavedPost addr junk c v (.ok r) ((v₁.alloc size).register addr junk cs us) := by
  refine Or.inr ⟨size, cs, us, hs, hopen, ?_, hv.register size cs us⟩
  obtain ⟨k, a, rfl⟩ := hv
  exact hroom

theorem xUnlink_saved (p : Path) (result : Option Nat) {v : SavedView N}
    (hx : v.xactstate = .retryable) :
    wp (savedStep addr junk) (xUnlink p result : XProg n N Int)
      (SavedPost addr junk (.unlink p) v) v := by
  simp only [xUnlink, call_bind]
  intro _ v₀ h₀
  obtain ⟨rfl, rfl⟩ := h₀
  rw [hx]
  refine wp_silent (fun _ _ h => h) fun _ => wp_inode ?_
  simp only [ino_eq_zero]
  split
  · exact wp_silent (fun _ _ h => h) fun _ => wp_end (Or.inl (.refl _))
  · rename_i hp
    refine wp_attach (fun g _ => SavedView.rests_draw _ g) (fun _ => trivial) fun g koa => ?_
    refine wp_allocArgs trivial fun hroom => wp_registerCommit ?_
    exact wp_silent (fun _ _ h => h) fun _ => wp_end
      (savedPost_ok (SavedView.rests_draw _ g) (.unlink koa p) hp hroom)

theorem xRename_saved (old new : Path) (result : Option Nat) {v : SavedView N}
    (hx : v.xactstate = .retryable) :
    wp (savedStep addr junk) (xRename old new result : XProg n N Int)
      (SavedPost addr junk (.rename old new) v) v := by
  simp only [xRename, call_bind]
  intro _ v₀ h₀
  obtain ⟨rfl, rfl⟩ := h₀
  rw [hx]
  refine wp_silent (fun _ _ h => h) fun _ => wp_inode ?_
  simp only [ino_eq_zero]
  split
  · exact wp_silent (fun _ _ h => h) fun _ => wp_end (Or.inl (.refl _))
  · rename_i hold
    refine wp_attach (fun g _ => SavedView.rests_draw _ g) (fun _ => trivial) fun g koa => ?_
    refine wp_inode ?_
    -- whether there was a file at `new` or not, `temppath` is the name that was chosen
    have hrest : ∀ (koa' : Option (Fin N)) (v₁ : SavedView N), v₀.Rests v₁ →
        wp (savedStep addr junk)
          ((op (.libcLink old new) fun _ => allocArgs renameArgsSize >>= fun _ =>
          op (.registerCommitAction (.renameCommit ⟨koa, koa'.map (·, v₀.answers.temp), old, new⟩)
            result regularActionOrder) fun _ =>
          op (.registerUndoAction (.renameUndo ⟨koa, koa'.map (·, v₀.answers.temp), old, new⟩)
            result regularActionOrder) fun _ =>
          op .unlockAliasCache fun _ => finish result 0 0 : XProg n N Int))
          (SavedPost addr junk (.rename old new) v₀) v₁ := by
      intro koa' v₁ hv b v₂ hlink
      refine wp_allocArgs trivial fun hroom => wp_registerCommit (wp_registerUndo ?_)
      rw [register_undo]
      exact wp_silent (fun _ _ h => h) fun _ => wp_end
        (savedPost_ok (hv.trans hlink) (.rename koa koa' old new) hold hroom)
    by_cases hnew : (v₀.draw g).kernel.names new = none
    · simp only [xRenameAside, hnew, Option.elim_none, if_true, pure_eq, ret_bind]
      exact hrest none _ (SavedView.rests_draw _ g)
    · simp only [xRenameAside, ino_eq_zero, hnew, if_false]
      refine wp_bind (wp_attach (fun g' _ => ⟨_, _, rfl⟩) (fun _ => trivial) fun g' koa' => ?_)
      simp only [call_bind]
      intro t v₁ h₁
      obtain ⟨rfl, rfl⟩ := h₁
      exact wp_rename fun _ => hrest (some koa') _
        (SavedView.Rests.trans ⟨_, _, rfl⟩ (SavedView.rests_sys _ _))

theorem wp_isolate {inode : Inode} {f : Unit → XProg n N α}
    (ha : ∀ garbage reason, Q (.error (.abort reason)) (v.draw garbage))
    (hf : ∀ garbage, wp (savedStep addr junk) (f ()) Q (v.draw garbage)) :
    wp (savedStep addr junk) (xCreateIsolate inode >>= f) Q v := by
  simp only [xCreateIsolate, xCreateCase2a, call_bind, op_bind]
  refine wp_silent (fun _ _ h => h) fun koa => ?_
  cases koa with
  | none => exact hf v.answers.garbage
  | some koa =>
    refine wp_silent (fun _ _ h => h) fun _ => wp_silent (fun _ _ h => h) fun s => ?_
    intro r v' h
    rw [show v' = v.draw _ from h]
    dsimp only
    split
    · exact wp_silent (fun _ _ h => h) fun _ => wp_silent (fun _ _ h => h) fun _ => ha _ _
    · exact wp_silent (fun _ _ h => h) fun _ => hf _

theorem xCreate_saved (p : Path) (result : Option Nat) {v : SavedView N}
    (hx : v.xactstate = .retryable) :
    wp (savedStep addr junk) (xCreate p result : XProg n N Int)
      (SavedPost addr junk (.create p) v) v := by
  simp only [xCreate, call_bind]
  intro _ v₀ h₀
  obtain ⟨rfl, rfl⟩ := h₀
  rw [hx]
  refine wp_silent (fun _ _ h => h) fun _ => wp_inode ?_
  simp only [ino_eq_zero]
  have hrests := SavedView.rests_createOpen v₀ p
  have hopened : ∀ fd, (v₀.createOpen p).1 = .ok fd → ¬ v₀.Refused (.create p) := by
    intro fd hopen hfail
    have hfail : (v₀.createOpen p).1.isOk = false := hfail
    rw [hopen] at hfail
    cases hfail
  split
  · rename_i hp
    simp only [xCreateCase1, call_bind]
    refine wp_open ?_
    have hopen : (v₀.sys fun k => sysOpen k p creationFlags v₀.answers.file v₀.answers.fd)
        = v₀.createOpen p := by rw [SavedView.createOpen, SavedView.aside_new hp]
    rw [hopen]
    cases hr : (v₀.createOpen p).1 with
    | error e => exact wp_silent (fun _ _ h => h) fun _ => wp_end (Or.inl hrests)
    | ok fd =>
      refine wp_inode (wp_silent (fun _ _ h => h) fun koa => wp_silent (fun _ _ h => h) fun _ =>
        wp_silent (fun _ _ h => h) fun _ => ?_)
      refine wp_acquireNew (fun _ => trivial) fun g => ?_
      refine wp_allocArgs trivial fun hroom => wp_registerUndo ?_
      refine wp_silent (fun _ _ h => h) fun _ => wp_silent (fun _ _ h => h) fun _ => wp_end ?_
      exact savedPost_ok (hrests.trans (SavedView.rests_draw _ g)) (.createNew fd koa p)
        (hopened fd hr) hroom
  · rename_i hp
    simp only [xCreateCase2, call_bind]
    refine wp_isolate (fun g _ => SavedView.rests_draw _ g) fun g => ?_
    intro t v₁ h₁
    obtain ⟨rfl, rfl⟩ := h₁
    refine wp_rename fun _ => wp_open ?_
    -- the garbage that was drawn makes no difference to the system calls
    have haside : ((v₀.draw g).sys fun k => sysRename k p (v₀.draw g).answers.temp).2
        = (v₀.aside p).draw g := by
      rw [SavedView.aside_over hp]
      exact congrArg Prod.snd (SavedView.sys_draw v₀ g _)
    have hopen : ((v₀.aside p).draw g).sys (fun k => sysOpen k p creationFlags
        ((v₀.aside p).draw g).answers.file ((v₀.aside p).draw g).answers.fd)
        = ((v₀.createOpen p).1, (v₀.createOpen p).2.draw g) := by
      have hfile : ((v₀.aside p).draw g).answers.file = v₀.answers.file :=
        (SavedView.aside_answers v₀ p).1
      have hfd : ((v₀.aside p).draw g).answers.fd = v₀.answers.fd :=
        (SavedView.aside_answers v₀ p).2
      rw [hfile, hfd, SavedView.sys_draw]
      rfl
    rw [haside, hopen]
    have hrests := hrests.trans (SavedView.rests_draw _ g)
    cases hr : (v₀.createOpen p).1 with
    | error e =>
      refine wp_rename fun _ => wp_silent (fun _ _ h => h) fun _ => wp_end (Or.inl ?_)
      exact hrests.trans (SavedView.rests_sys _ _)
    | ok fd =>
      refine wp_inode (wp_silent (fun _ _ h => h) fun koa => wp_silent (fun _ _ h => h) fun _ =>
        wp_silent (fun _ _ h => h) fun _ => ?_)
      refine wp_acquireNew (fun _ => trivial) fun g' => ?_
      refine wp_allocArgs trivial fun hroom => wp_registerCommit (wp_registerUndo ?_)
      rw [register_undo]
      refine wp_silent (fun _ _ h => h) fun _ => wp_silent (fun _ _ h => h) fun _ => wp_end ?_
      exact savedPost_ok (hrests.trans (SavedView.rests_draw _ g')) (.createOver fd koa p)
        (hopened fd hr) hroom

end

end XCalls
