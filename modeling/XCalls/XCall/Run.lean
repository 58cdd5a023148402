import XCalls.XCall.Calls

/-!
# Transactions of xCalls

* `exec`          the actions of a transaction, as `tx_generic_commit_action` and
                  `tx_generic_undo_action` call them;
* `Request`, `xRun`   the calls of one attempt, up to the first that aborts it;
* `xBegin`, `xAbort`, `xCommit`   the machine when an attempt begins and when it ends;
* `Admissible`    what the kernel may answer;
* `handleOk`      the machine on which every system call succeeds.
-/

set_option linter.unusedSectionVars false

namespace XCalls
open Prog
variable {T : Type} [DecidableEq T] {n N : Nat}

/-! ## actions -/

/-- `sentinelmgr_commit_action`, and `sentinelmgr_undo_action` after a user abort -/
def releaseSentinels (m : XMach T n N) : XMach T n N :=
  let r := sentinelmgrTransactionOnComplete m.world.koamgr.sentinelmgr m.txd
  { m with
    txd := r.2
    world := { m.world with koamgr := { m.world.koamgr with sentinelmgr := r.1 } } }

/-- `sentinelmgr_undo_action` before a retry; a mutex is waited for until it is free -/
def reacquireSentinels (m : XMach T n N) : XMach T n N :=
  match sentinelmgrTransactionBeforeRetry m.world.koamgr.sentinelmgr m.txd with
  | none => m
  | some (mgr, txd) =>
    let r := txd.sentinelListPreacquire.foldl
      (fun s e => acquireEntry s.1 s.2 m.world.self e) (mgr, txd)
    { m with
      txd := r.2
      world := { m.world with koamgr := { m.world.koamgr with sentinelmgr := r.1 } } }

/-- the call of an action; the actions of the xCalls always return (`run_action`) -/
def exec : ActOf (XAction N) → XMach T n N → XMach T n N × Int
  | .sentinelmgrCommit, m => (releaseSentinels m, 0)
  | .sentinelmgrUndo, m =>
    (if m.txd.abortReason = .userabort then releaseSentinels m else reacquireSentinels m, 0)
  | .other a, m =>
    match run handle a.prog m with
    | some (.ok r, m') => (m', r)
    | _ => (m, 0)

/-! ## one attempt -/

/-- a call, its pointer `result`, and the environment's part in it -/
structure Request where
  call : XCall
  result : Option Nat
  answers : Answers

/-- the program of a request is run with its answers -/
def withAnswers (m : XMach T n N) (a : Answers) : XMach T n N :=
  { m with world := { m.world with answers := a } }

/-- a transaction begins: `txc_tx_init` and `txc_sentinel_transaction_postbegin` -/
def xBegin (m : XMach T n N) : XMach T n N :=
  { m with
    txd := sentinelTransactionPostbegin (txInit m.txd)
    world := { m.world with xactstate := .retryable } }

/-- the attempt is to be rolled back: `tmsystem_abort_transaction`; no system call of an undo
action fails for a reason outside the model -/
def xAbort (m : XMach T n N) (reason : AbortReason) : XMach T n N :=
  { m with
    txd := tmsystemAbortTransaction m.txd reason
    world := { m.world with answers := { m.world.answers with faults := [] } } }

/-- the attempt is to be committed; no system call of a commit action fails for a reason outside
the model -/
def xCommit (m : XMach T n N) : XMach T n N :=
  { m with world := { m.world with answers := { m.world.answers with faults := [] } } }

/-- the calls one after the other, with the reason when one of them aborts the attempt -/
def xRun (h : Handler (Instr n N) (XMach T n N)) :
    List Request → XMach T n N → Option (Option AbortReason × XMach T n N)
  | [], m => some (none, m)
  | c :: cs, m =>
    match run h (c.call.prog c.result) (withAnswers m c.answers) with
    | none => none
    | some (.ok _, m') => xRun h cs m'
    | some (.error (.abort reason), m') => some (some reason, m')
    | some (.error .internalError, _) => none

/-- what the kernel may pick: an unused name, a file that does not exist, a closed descriptor -/
structure Answers.Ok (k : Kernel) (a : Answers) : Prop where
  temp : k.names a.temp = none
  file : ¬ k.Exists a.file
  fd : k.fds a.fd = none

/-- the kernel's answers are ones it may give, all along the run -/
def Admissible (h : Handler (Instr n N) (XMach T n N)) : List Request → XMach T n N → Prop
  | [], _ => True
  | c :: cs, m =>
    c.answers.Ok m.world.kernel ∧
      ∀ r m', run h (c.call.prog c.result) (withAnswers m c.answers) = some (.ok r, m') →
        Admissible h cs m'

/-! ## system calls that succeed -/

/-- no system call reports an error -/
def succeeds : ∀ {β : Type}, Instr n N β → β → Bool
  | _, .libcOpen _ _, r => r.isOk
  | _, .libcClose _, r => r.isOk
  | _, .libcDup _, r => r.isOk
  | _, .libcRead _ _, r => r.isOk
  | _, .libcWrite _ _, r => r.isOk
  | _, .libcLseek _ _ _, r => r.isOk
  | _, .libcFtruncate _ _, r => r.isOk
  | _, .libcPwrite _ _ _, r => r.isOk
  | _, .libcRename _ _, r => r.isOk
  | _, .libcLink _ _, r => r.isOk
  | _, .libcUnlink _, r => r.isOk
  | _, .libcPipe, r => r.isOk
  | _, .libcSocket _ _ _, r => r.isOk
  | _, .libcFsync _, r => r.isOk
  | _, .libcFdatasync _, r => r.isOk
  | _, .libcSendmsg _ _ _, r => r.isOk
  | _, .libcRecvmsg _ _, r => r.isOk
  | _, _, _ => true

/-- the machine on which every system call succeeds -/
def handleOk : Handler (Instr n N) (XMach T n N) := only handle succeeds

/-! ## a small process -/

/-- two files of one device, with the names `a` and `b` -/
def smallKernel : Kernel :=
  { mount := fun _ => 1
    names := fun p => if p = "a" then some ⟨1, 1, by decide⟩
      else if p = "b" then some ⟨1, 2, by decide⟩ else none
    content := fun f => if f.ino = 1 then [1, 2, 3] else [4]
    fds := fun _ => none
    files := fun _ => ⟨⟨1, 1, by decide⟩, 0⟩
    next := 0
    size_le := fun f => by
      by_cases h : f.ino = 1 <;> simp [h, offMax]
    offset_le := fun _ => Nat.zero_le _
    lt_next := fun h => nomatch h }

def smallAnswers : Answers :=
  ⟨"/tmp/libtxc.tmp.000001", ⟨1, 3, by decide⟩, 3, [], [], 4, .error 11⟩

/-- a process that has just started -/
def smallMach (k : Kernel) : XMach Unit 8 8 :=
  { txd := txCreate
    mem := fun _ => 0
    world :=
      { kernel := k
        koamgr := (koamgrCreate Unit 8 8).getD (koamgrEmpty Unit 8 8)
        self := ()
        xactstate := .nontransactional
        answers := smallAnswers
        koaFile := fun _ => none
        log := []
        buffer := fun _ => poolBuffer } }

theorem smallAnswers_ok : smallAnswers.Ok smallKernel where
  temp := by decide
  file := by
    rintro (⟨p, hp⟩ | ⟨fd, o, ho, -⟩)
    · simp only [smallKernel] at hp
      split at hp
      · cases hp
      · split at hp <;> cases hp
    · cases ho
  fd := rfl

end XCalls
