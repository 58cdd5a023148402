import XCalls.XCall.PipeOps
import XCalls.XCall.Run

/-!
# The xCalls outside a transaction

The eleven wrappers that do nothing but one system call when there is no transaction, or an
irrevocable one.

* `Wrapper`         the wrappers with their arguments, `Wrapper.prog` their programs;
* `Wrapper.sys`     the system call that each of them stands for, with what it returns;
* `outsideHandle`   the machine with any environment: what the system calls do is left open;
* `Transparent`     the system call is made, and nothing else but storing the error number;
* `transparent_iff_value`   what is left to check is the value that the wrapper returns;
* `outside_transparent_iff`   every wrapper is transparent, but `x_rename` and `x_unlink` only where
                    the system call succeeds: they return 0 in any case.

`int`, `ssize_t` and `off_t` have 32 bits all three, so `int ret` holds what a system call returns.
-/

namespace XCalls
open Prog (call run trace)
variable {n N : Nat}

/-! ## the wrappers -/

inductive Wrapper where
  | read (fd nbyte : Nat)
  | write (fd : Nat) (buf : List UInt8) (flags : WriteFlags)
  | writePipe (fd : Nat) (buf : List UInt8)
  | lseek (fd : Nat) (offset : Int) (whence : Whence)
  | fsync (fildes : Nat)
  | fdatasync (fildes : Nat)
  | sendmsg (fd : Nat) (msg : Msghdr) (flags : Int)
  | rename (oldpath newpath : Path)
  | unlink (pathname : Path)

/-- a system call, and the value it returns when it succeeds, with the bytes that it stores in the
buffer of the caller -/
structure SysCall (n N : Nat) where
  Out : Type
  instr : Instr n N (Except Errno Out)
  returns : Out → Int × List UInt8

def SysCall.reply (s : SysCall n N) : Except Errno s.Out → Int × List UInt8
  | .error _ => (-1, [])
  | .ok out => s.returns out

namespace Wrapper

def sys : Wrapper → SysCall n N
  | read fd nbyte => ⟨_, .libcRead fd nbyte, fun data => (data.length, data)⟩
  | write fd buf _ => ⟨_, .libcWrite fd buf, fun ret => (ret, [])⟩
  | writePipe fd buf => ⟨_, .libcWrite fd buf, fun ret => (ret, [])⟩
  | lseek fd offset whence => ⟨_, .libcLseek fd offset whence, fun ret => (ret, [])⟩
  | fsync fildes => ⟨_, .libcFsync fildes, fun _ => (0, [])⟩
  | fdatasync fildes => ⟨_, .libcFdatasync fildes, fun _ => (0, [])⟩
  | sendmsg fd msg flags => ⟨_, .libcSendmsg fd msg flags, fun ret => (ret, [])⟩
  | rename oldpath newpath => ⟨_, .libcRename oldpath newpath, fun _ => (0, [])⟩
  | unlink pathname => ⟨_, .libcUnlink pathname, fun _ => (0, [])⟩

/-- the value returned, and the bytes stored in the buffer of the caller -/
def prog (result : Option Nat) : Wrapper → XProg n N (Int × List UInt8)
  | read fd nbyte => xRead fd nbyte result
  | write fd buf flags => do return (← xWrite fd buf result flags, [])
  | writePipe fd buf => do return ((← xWritePipe fd buf result).1, [])
  | lseek fd offset whence => do return (← xLseek fd offset whence result, [])
  | fsync fildes => do return (← xFsync fildes result, [])
  | fdatasync fildes => do return (← xFdatasync fildes result, [])
  | sendmsg fd msg flags => do return ((← xSendmsg fd msg flags result).1, [])
  | rename oldpath newpath => do return (← xRename oldpath newpath result, [])
  | unlink pathname => do return (← xUnlink pathname result, [])

/-- `ret = 0` behind the system call -/
def ReturnsZero : Wrapper → Prop
  | rename _ _ => True
  | unlink _ => True
  | _ => False

end Wrapper

/-! ## any environment -/

section
variable {T : Type} [DecidableEq T]

/-- the machine in the environment `env`, which does all instructions but these two -/
def outsideHandle (env : Prog.Handler (Instr n N) (XMach T n N)) :
    Prog.Handler (Instr n N) (XMach T n N)
  | _, .getXactstate, m => handle .getXactstate m
  | _, .store p v, m => handle (.store p v) m
  | _, i, m => env i m

def anyInstr {β : Type} (i : Instr n N β) : Option (Sigma (Instr n N)) := some ⟨β, i⟩

/-- from `m`, where the system call returns `r` in the state `m₁`: the wrapper reads the state of
the transaction, makes the system call and stores its error number or 0; and it returns what the
system call returns -/
def Transparent (env : Prog.Handler (Instr n N) (XMach T n N)) (w : Wrapper)
    (result : Option Nat) (m : XMach T n N) : Prop :=
  ∃ r m₁, env (w.sys (n := n) (N := N)).instr m = some (r, m₁) ∧
    run (outsideHandle env) (w.prog result) m
      = some (.ok (w.sys.reply r), m₁.store result (errnoOf r)) ∧
    trace (outsideHandle env) anyInstr (w.prog result) m
      = [⟨_, .getXactstate⟩, ⟨_, (w.sys (n := n) (N := N)).instr⟩, ⟨_, .store result (errnoOf r)⟩]

/-! ## the result protocol -/

/-- what the wrapper returns -/
def Wrapper.value (w : Wrapper) (r : Except Errno (w.sys (n := n) (N := N)).Out) :
    Int × List UInt8 :=
  match w with
  | .rename _ _ => (0, [])
  | .unlink _ => (0, [])
  | w => w.sys.reply r

/-- every wrapper goes the same way: the state of the transaction, the system call, the result -/
theorem prog_outside (w : Wrapper) (result : Option Nat) {x : XactState} (hx : x ≠ .retryable) :
    ∃ (k : XactState → XProg n N (Int × List UInt8)) (body : _ → XProg n N (Int × List UInt8)),
      w.prog result = .op .getXactstate k ∧ k x = .op w.sys.instr body ∧
      ∀ r, body r = .op (.store result (errnoOf r)) fun _ => .ret (w.value r) := by
  cases x with
  | retryable => exact absurd rfl hx
  | irrevocable =>
    cases w with
    | rename oldpath newpath => exact ⟨_, _, rfl, rfl, fun _ => rfl⟩
    | unlink pathname => exact ⟨_, _, rfl, rfl, fun _ => rfl⟩
    | _ => exact ⟨_, _, rfl, rfl, fun r => by cases r <;> rfl⟩
  | nontransactional =>
    cases w with
    | rename oldpath newpath => exact ⟨_, _, rfl, rfl, fun _ => rfl⟩
    | unlink pathname => exact ⟨_, _, rfl, rfl, fun _ => rfl⟩
    | _ => exact ⟨_, _, rfl, rfl, fun r => by cases r <;> rfl⟩

section
variable {env : Prog.Handler (Instr n N) (XMach T n N)} {w : Wrapper} {m m₁ : XMach T n N}
  {r : Except Errno (w.sys (n := n) (N := N)).Out}

theorem outsideHandle_sys (w : Wrapper) (m : XMach T n N) :
    outsideHandle env (w.sys (n := n) (N := N)).instr m = env w.sys.instr m := by
  cases w <;> rfl

/-- what a wrapper does where the system call returns `r` -/
theorem wrapper_run (result : Option Nat) (hout : m.world.xactstate ≠ .retryable)
    (hsys : env (w.sys (n := n) (N := N)).instr m = some (r, m₁)) :
    run (outsideHandle env) (w.prog result) m
        = some (.ok (w.value r), m₁.store result (errnoOf r)) ∧
      trace (outsideHandle env) anyInstr (w.prog result) m
        = [⟨_, .getXactstate⟩, ⟨_, (w.sys (n := n) (N := N)).instr⟩,
          ⟨_, .store result (errnoOf r)⟩] := by
  obtain ⟨k, body, hprog, hk, hbody⟩ := prog_outside (n := n) (N := N) w result hout
  have hstate : outsideHandle env .getXactstate m = some (m.world.xactstate, m) := rfl
  have hcall := (outsideHandle_sys w m).trans hsys
  have hstore : outsideHandle env (.store result (errnoOf r)) m₁
      = some ((), m₁.store result (errnoOf r)) := rfl
  constructor
  · rw [hprog, Prog.run_step hstate, hk, Prog.run_step hcall, hbody, Prog.run_step hstore,
      Prog.run_ret]
  · rw [hprog, Prog.trace_step hstate, hk, Prog.trace_step hcall, hbody, Prog.trace_step hstore]
    rfl

theorem transparent_iff_value (result : Option Nat) (hout : m.world.xactstate ≠ .retryable)
    (hsys : env (w.sys (n := n) (N := N)).instr m = some (r, m₁)) :
    Transparent env w result m ↔ w.value r = w.sys.reply r := by
  obtain ⟨hrun, htrace⟩ := wrapper_run result hout hsys
  constructor
  · intro ⟨r', m₁', hsys', hrun', _⟩
    cases hsys.symm.trans hsys'
    have heq := hrun.symm.trans hrun'
    rw [Option.some.injEq, Prod.mk.injEq, Except.ok.injEq] at heq
    exact heq.1
  · intro hvalue
    rw [hvalue] at hrun
    exact ⟨r, m₁, hsys, hrun, htrace⟩

/-- a wrapper returns what the system call does, but for the two that return 0 -/
theorem value_eq_iff (w : Wrapper) (r : Except Errno (w.sys (n := n) (N := N)).Out) :
    w.value r = w.sys.reply r ↔ (w.ReturnsZero → r.isOk = true) := by
  -- the value of a system call that fails
  have hne : ((0, []) : Int × List UInt8) ≠ (-1, []) :=
    fun h => absurd (congrArg Prod.fst h) (by decide)
  cases w with
  | rename oldpath newpath =>
    cases r with
    | error e => exact iff_of_false hne fun h => Bool.false_ne_true (h trivial)
    | ok out => exact iff_of_true rfl fun _ => rfl
  | unlink pathname =>
    cases r with
    | error e => exact iff_of_false hne fun h => Bool.false_ne_true (h trivial)
    | ok out => exact iff_of_true rfl fun _ => rfl
  | _ => exact iff_of_true rfl fun h => h.elim

end

/-- **The wrappers outside a transaction.**  For any arguments, in any environment and whatever the
system call returns: the wrapper is transparent exactly when it is neither `x_rename` nor `x_unlink`
or the system call succeeds. -/
theorem outside_transparent_iff (env : Prog.Handler (Instr n N) (XMach T n N)) (w : Wrapper)
    (result : Option Nat) {m m₁ : XMach T n N} {r : Except Errno (w.sys (n := n) (N := N)).Out}
    (hout : m.world.xactstate ≠ .retryable)
    (hsys : env (w.sys (n := n) (N := N)).instr m = some (r, m₁)) :
    Transparent env w result m ↔ (w.ReturnsZero → r.isOk = true) := by
  rw [transparent_iff_value result hout hsys]
  exact value_eq_iff w r

/-- `x_read` of a descriptor that is not open, in the environment of the model -/
theorem outside_transparent_iff_badf :
    Transparent handle (.read 5 10) (some 0) (smallMach smallKernel) :=
  (outside_transparent_iff handle (.read 5 10) (some 0) (m := smallMach smallKernel)
    (by decide) rfl).mpr fun h => h.elim

/-- `x_unlink` of a name that does not exist returns 0 -/
theorem unlink_hides_failure :
    ∃ m₁ : XMach Unit 8 8,
      (handle (.libcUnlink "c") (smallMach smallKernel) : Option (Except Errno Unit × XMach Unit 8 8))
        = some (.error .enoent, m₁) ∧
      run (outsideHandle handle) ((Wrapper.unlink "c").prog (some 0)) (smallMach smallKernel)
        = some (.ok (0, []), m₁.store (some 0) Errno.enoent) ∧
      ¬ Transparent handle (.unlink "c") (some 0) (smallMach smallKernel) := by
  have hout : (smallMach smallKernel).world.xactstate ≠ .retryable := by decide
  have hsys : handle (Wrapper.unlink "c").sys.instr (smallMach smallKernel)
      = some (.error .enoent, smallMach smallKernel) := rfl
  refine ⟨smallMach smallKernel, hsys, (wrapper_run (some 0) hout hsys).1, ?_⟩
  rw [transparent_iff_value (some 0) hout hsys]
  exact fun h => absurd (congrArg Prod.fst h) (by decide)

end

end XCalls
