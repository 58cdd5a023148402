import XCalls.Lib.EventSys
import XCalls.XCall.Faults
import XCalls.XCall.FileObjects

/-!
# Threads that call `x_read`, `x_lseek` and `x_write`

Every instruction of a call and of an undo action is a step of its own, and so is every turn of the
loop of a generic action.  The threads share the kernel and the KOA manager, and each has its own
transaction.

* `InstrPhase`     where a thread is;
* `InstrProcess`   the process; `live` and `done` are read by no code: they record the calls that
                  did not fail, with their results, of the attempts that run and of the
                  transactions that have committed, in the order of their commits;
* `InstrEvent`, `instrEvent`   what the threads, the STM and the scheduler do;
* `InstrProcess.Start`   no transaction has begun, and the descriptors of a file have one sentinel;
* `InstrEvent.Restores`   the write that is carried out is one that its undo action can restore.

Of the STM: as in `Core.SentinelSys`.  `sentinel_list_acquire` blocks: its step is not enabled while
another thread holds the mutex.  No system call fails for a reason outside the model.
-/

set_option linter.unusedSectionVars false

namespace XCalls
open Prog (Handler)
variable {T : Type} [DecidableEq T] {n N : Nat}

/-! ## one thread -/

def DataCall.prog (result : Option Nat) : DataCall → XProg n N DataResult
  | read fd nbyte => xRead fd nbyte result
  | lseek fd offset whence => do return (← xLseek fd offset whence result, [])
  | write fd buf flags => do return (← xWrite fd buf result flags, [])

inductive GenericAction where
  | commit
  | undo
  deriving DecidableEq

def GenericAction.scan (g : GenericAction) (txd : TxDesc (ActOf (XAction N)) (Fin n)) :
    List (XEntry N) :=
  match g with
  | .commit => commitScan txd
  | .undo => undoScan txd

/-- `err` is `first_error_result` -/
inductive InstrPhase (n N : Nat) : Type 1
  | outside
  | begun
  | running
  /-- in a call, before the program `p` -/
  | calling (c : DataCall) (p : XProg n N DataResult)
  | looping (g : GenericAction) (l : Loop (ActOf (XAction N))) (err : Int)
  /-- in the action of the entry `e`, before the program `p` -/
  | acting (g : GenericAction) (l : Loop (ActOf (XAction N))) (err : Int) (e : XEntry N)
      (p : XProg n N Int)
  /-- in the sentinel manager's undo action, at the entry `k` of `sentinel_list_acquire` -/
  | acquiring (l : Loop (ActOf (XAction N))) (err : Int) (e : XEntry N) (k : Nat)

/-- `txc_tx_get_xactstate` -/
def InstrPhase.xactstate : InstrPhase n N → XactState
  | running => .retryable
  | calling _ _ => .retryable
  | _ => .nontransactional

/-- a call with its result, if it did not fail -/
def succeeded (c : DataCall) (r : DataResult) : List (DataCall × DataResult) :=
  if r.1 = -1 then [] else [(c, r)]

structure InstrThread (n N : Nat) where
  txd : TxDesc (ActOf (XAction N)) (Fin n)
  phase : InstrPhase n N
  live : List (DataCall × DataResult)

def forgetGeneric (txd : TxDesc (ActOf (XAction N)) (Fin n)) : TxDesc (ActOf (XAction N)) (Fin n) :=
  { txd with itmUndo := false, itmCommit := false }

def afterAbort : AbortReason → InstrPhase n N
  | .userabort => .outside
  | _ => .begun

def InstrThread.rollBack (th : InstrThread n N) : InstrThread n N :=
  if th.txd.itmUndo then { th with phase := .looping .undo Loop.start 0, live := [] }
  else ⟨forgetGeneric th.txd, afterAbort th.txd.abortReason, []⟩

/-! ## the process -/

/-- `mach` has what the threads share -/
structure InstrProcess (T : Type) (n N : Nat) where
  mach : XMach T n N
  thread : T → InstrThread n N
  done : List (T × List (DataCall × DataResult))

namespace InstrProcess

def kernel (s : InstrProcess T n N) : Kernel := s.mach.world.kernel

def enter (s : InstrProcess T n N) (t : T) : XMach T n N :=
  { s.mach with
    txd := (s.thread t).txd
    world := { s.mach.world with self := t, xactstate := (s.thread t).phase.xactstate } }

def enterWith (s : InstrProcess T n N) (t : T) (garbage : List Int) : XMach T n N :=
  { s.enter t with
    world := { (s.enter t).world with
      answers := { (s.enter t).world.answers with garbage := garbage } } }

def set (s : InstrProcess T n N) (t : T) (th : InstrThread n N) : InstrProcess T n N :=
  { s with thread := Function.update s.thread t th }

def leave (s : InstrProcess T n N) (t : T) (m : XMach T n N) (phase : InstrPhase n N) :
    InstrProcess T n N :=
  { s with
    mach := m
    thread := Function.update s.thread t
      { txd := m.txd, phase := phase, live := (s.thread t).live } }

end InstrProcess

/-! ## steps -/

inductive InstrEvent (T : Type) where
  | preBegin (t : T)
  | postBegin (t : T)
  | call (t : T) (c : DataCall) (result : Option Nat)
  | instr (t : T) (garbage : List Int)
  | abort (t : T) (reason : AbortReason)
  | conflict (t : T)
  | commit (t : T)
  | next (t : T)

/-- one instruction of `t` -/
def instrStep (s : InstrProcess T n N) (t : T) (garbage : List Int) : Option (InstrProcess T n N) :=
  let th := s.thread t
  match th.phase with
  | .calling c p =>
    match p with
    | .ret r => some (s.set t { th with phase := .running, live := th.live ++ succeeded c r })
    | .stop (.abort reason) =>
      some (s.set t { th with txd := tmsystemAbortTransaction th.txd reason }.rollBack)
    | .stop .internalError => none
    | .op i k => (handle i (s.enterWith t garbage)).map fun r => s.leave t r.2 (.calling c (k r.1))
  | .acting g l err e p =>
    match p with
    | .ret r => some (s.leave t ((s.enter t).store e.errorResult r)
        (.looping g l (if err = 0 then r else err)))
    | .stop _ => none
    | .op i k =>
      (handle i (s.enterWith t garbage)).map fun r => s.leave t r.2 (.acting g l err e (k r.1))
  | _ => none

/-- one turn of the loop of a generic action, or of the one of `sentinel_list_acquire` -/
def nextEvent (s : InstrProcess T n N) (t : T) : Option (InstrProcess T n N) :=
  let th := s.thread t
  match th.phase with
  | .looping g l err =>
    match l.next (g.scan th.txd) with
    | .exit =>
      match g with
      | .commit =>
        let m := commitTail (s.enter t) err
        some (s.leave t { m with txd := forgetGeneric m.txd } .outside)
      | .undo =>
        let m := undoTail (s.enter t) err
        some (s.leave t { m with txd := forgetGeneric m.txd } (afterAbort th.txd.abortReason))
    | .move l' => some (s.set t { th with phase := .looping g l' err })
    | .call e l' =>
      match e.function with
      | .other a => some (s.set t { th with phase := .acting g l' err e a.prog })
      | .sentinelmgrCommit =>
        some (s.leave t ((releaseSentinels (s.enter t)).store e.errorResult 0) (.looping g l' err))
      | .sentinelmgrUndo =>
        if th.txd.abortReason = .userabort then
          some (s.leave t ((releaseSentinels (s.enter t)).store e.errorResult 0)
            (.looping g l' err))
        else
          (sentinelmgrTransactionBeforeRetry s.mach.world.koamgr.sentinelmgr th.txd).map fun r =>
            let m := s.enter t
            s.leave t { m with
              txd := r.2
              world := { m.world with koamgr := { m.world.koamgr with sentinelmgr := r.1 } } }
              (.acquiring l' err e 0)
  | .acquiring l err e k =>
    match th.txd.sentinelListPreacquire[k]? with
    | none => some (s.leave t ((s.enter t).store e.errorResult 0) (.looping .undo l err))
    | some x =>
      if (s.mach.world.koamgr.sentinelmgr.sentinel x.sentinel).mutex = none then
        let r := acquireEntry s.mach.world.koamgr.sentinelmgr th.txd t x
        let m := s.enter t
        some (s.leave t { m with
          txd := r.2
          world := { m.world with koamgr := { m.world.koamgr with sentinelmgr := r.1 } } }
          (.acquiring l err e (k + 1)))
      else none
  | _ => none

/-- `none`: the event cannot happen -/
def instrEvent (s : InstrProcess T n N) : InstrEvent T → Option (InstrProcess T n N)
  | .preBegin t =>
    match (s.thread t).phase with
    | .outside => some (s.set t
        ⟨{ fmInit (txInit (s.thread t).txd) with forcedRetries := 0 }, .begun, []⟩)
    | _ => none
  | .postBegin t =>
    match (s.thread t).phase with
    | .begun => some (s.set t ⟨sentinelTransactionPostbegin (s.thread t).txd, .running, []⟩)
    | _ => none
  | .call t c result =>
    match (s.thread t).phase with
    | .running => some (s.set t { s.thread t with phase := .calling c (c.prog result) })
    | _ => none
  | .instr t garbage => instrStep s t garbage
  | .abort t reason =>
    match (s.thread t).phase with
    | .running => some (s.set t { s.thread t with
        txd := tmsystemAbortTransaction (s.thread t).txd reason }.rollBack)
    | _ => none
  | .conflict t =>
    match (s.thread t).phase with
    | .running => some (s.set t (s.thread t).rollBack)
    | .begun => some (s.set t (s.thread t).rollBack)
    | _ => none
  | .commit t =>
    match (s.thread t).phase with
    | .running =>
      let th := s.thread t
      let th' : InstrThread n N :=
        if th.txd.itmCommit then { th with phase := .looping .commit Loop.start 0, live := [] }
        else ⟨forgetGeneric th.txd, .outside, []⟩
      some { s.set t th' with done := s.done ++ [(t, th.live)] }
    | _ => none
  | .next t => nextEvent s t

/-! ## the start, the condition, and who holds a file -/

/-- what these steps leave as it is: the files of the descriptors, their KOAs and their sentinels -/
structure FileEnv (n N : Nat) where
  kernel : Kernel
  map : Nat → Option (Fin N)
  sentinel : Fin N → Option (Fin n)

/-- `x` is the sentinel of a descriptor of the file `f` -/
def FileEnv.Guards (E : FileEnv n N) (x : Fin n) (f : FileId) : Prop :=
  ∃ fd koa, E.kernel.fileOf fd = some f ∧ E.map fd = some koa ∧ E.sentinel koa = some x

namespace InstrProcess

def env (s : InstrProcess T n N) : FileEnv n N :=
  { kernel := s.kernel
    map := s.mach.world.koamgr.map
    sentinel := fun koa => (s.mach.world.koamgr.koa koa).sentinel }

/-- the holder of the mutex of a sentinel -/
def mutex (s : InstrProcess T n N) (x : Fin n) : Option T :=
  (s.mach.world.koamgr.sentinelmgr.sentinel x).mutex

/-- no transaction has begun, and the descriptors of a file have one sentinel -/
structure Start (s : InstrProcess T n N) : Prop where
  outside : ∀ t, (s.thread t).phase = .outside
  sentinelList : ∀ t, (s.thread t).txd.sentinelList = []
  mutex : ∀ x, s.mutex x = none
  owner : ∀ x, (s.mach.world.koamgr.sentinelmgr.sentinel x).owner = none
  faults : s.mach.world.answers.faults = []
  done : s.done = []
  oneSentinel : ∀ f x y, s.env.Guards x f → s.env.Guards y f → x = y

/-- no thread holds the file -/
def Free (s : InstrProcess T n N) (f : FileId) : Prop := ∀ x, s.env.Guards x f → s.mutex x = none

/-- `t` holds the file -/
def Holds (s : InstrProcess T n N) (t : T) (f : FileId) : Prop :=
  ∃ x, s.env.Guards x f ∧ s.mutex x = some t

end InstrProcess

def writesNext {α : Type} : XProg n N α → Bool
  | .op i _ =>
    match i with
    | .libcWrite _ _ => true
    | _ => false
  | _ => false

/-- the write that comes next is one that its undo action can restore -/
def InstrPhase.Restores (k : Kernel) : InstrPhase n N → Prop
  | calling c p => writesNext p = true → c.Restorable k
  | _ => True

/-- the condition on steps -/
def InstrEvent.Restores (s : InstrProcess T n N) : InstrEvent T → Prop
  | .instr t _ => (s.thread t).phase.Restores s.kernel
  | _ => True

instance (k : Kernel) : ∀ phase : InstrPhase n N, Decidable (phase.Restores k)
  | .calling _ _ => inferInstanceAs (Decidable (_ → _))
  | .outside => isTrue trivial
  | .begun => isTrue trivial
  | .running => isTrue trivial
  | .looping _ _ _ => isTrue trivial
  | .acting _ _ _ _ _ => isTrue trivial
  | .acquiring _ _ _ _ => isTrue trivial

instance (s : InstrProcess T n N) : ∀ e, Decidable (InstrEvent.Restores s e)
  | .instr _ _ => inferInstanceAs (Decidable (InstrPhase.Restores _ _))
  | .preBegin _ => isTrue trivial
  | .postBegin _ => isTrue trivial
  | .call _ _ _ => isTrue trivial
  | .abort _ _ => isTrue trivial
  | .conflict _ => isTrue trivial
  | .commit _ => isTrue trivial
  | .next _ => isTrue trivial

end XCalls
