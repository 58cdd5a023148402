import XCalls.XCall.Machine

/-!
# The xCalls on the contents of files: `x_read.c`, `x_lseek.c`, `x_write.c`

* `acquireFd`    how a descriptor-based xCall gets the sentinel of its KOA;
* `xRead`, `xLseek`, `xWrite` with its three flags, and their undo actions.

The error numbers that undo actions return are stored in `*result` by the loop that calls them.
-/

namespace XCalls
open Prog (call)
variable {n N : Nat}

/-- the shared end: `if (result) *result = local_result; return ret` -/
def finish (result : Option Nat) (ret : Int) (localResult : Errno) : XProg n N Int := do
  call (.store result localResult)
  return ret

/-- `fd`'s KOA is looked up and its sentinel acquired; `false` when there is no KOA -/
def acquireFd (fd : Nat) : XProg n N Bool := do
  call (.lockFd fd)
  match ← call (.lookupFd2koa fd) with
  | none =>
    call (.unlockFd fd)
    return false
  | some koa =>
    let sentinel ← call (.getSentinel koa)
    let xret ← call (.tryacquire sentinel sentinelAcquireonretry)
    call (.unlockFd fd)
    if xret = rBusysentinel then .stop (.abort .busysentinel) else return true

/-! ## x_read -/

/-- `sizeof(x_read_undo_args_t)` -/
def readArgsSize : UInt32 := 8

def xReadUndo (fd : Nat) (nbyte : Int) : XProg n N Int := do
  match ← call (.libcLseek fd (-nbyte) .seekCur) with
  | .error e => return e
  | .ok _ => return 0

/-- the value returned, and the bytes that are stored at `buf` -/
def xRead (fd nbyte : Nat) (result : Option Nat) : XProg n N (Int × List UInt8) := do
  match ← call (.getXactstate) with
  | .irrevocable | .nontransactional =>
    match ← call (.libcRead fd nbyte) with
    | .error e => return (← finish result (-1) e, [])
    | .ok data => return (← finish result data.length 0, data)
  | .retryable =>
    if !(← acquireFd fd) then return (← finish result (-1) .ebadf, [])
    else if !(← call (.linearMalloc readArgsSize)) then return (← finish result (-1) .enomem, [])
    else match ← call (.libcRead fd nbyte) with
      | .error e =>
        call (.linearFree readArgsSize)
        return (← finish result (-1) e, [])
      | .ok data =>
        call (.registerUndoAction (.readUndo fd data.length) result regularActionOrder)
        return (← finish result data.length 0, data)

/-! ## x_lseek -/

/-- `sizeof(x_lseek_undo_args_t)` -/
def lseekArgsSize : UInt32 := 8

def xLseekUndo (fd : Nat) (oldPosition : Int) : XProg n N Int := do
  match ← call (.libcLseek fd oldPosition .seekSet) with
  | .error e => return e
  | .ok _ => return 0

/-- the value of a system call that is not checked -/
def unchecked : Except Errno Int → Int
  | .error _ => -1
  | .ok v => v

def xLseek (fd : Nat) (offset : Int) (whence : Whence) (result : Option Nat) : XProg n N Int := do
  match ← call (.getXactstate) with
  | .irrevocable | .nontransactional =>
    match ← call (.libcLseek fd offset whence) with
    | .error e => finish result (-1) e
    | .ok ret => finish result ret 0
  | .retryable =>
    if !(← acquireFd fd) then finish result (-1) .ebadf
    else if !(← call (.linearMalloc lseekArgsSize)) then finish result (-1) .enomem
    else if whence = .seekCur then
      match ← call (.libcLseek fd offset whence) with
      | .error e =>
        call (.linearFree lseekArgsSize)
        finish result (-1) e
      | .ok ret =>
        call (.registerUndoAction (.lseekUndo fd (ret - offset)) result regularActionOrder)
        finish result ret 0
    else
      let oldPosition := unchecked (← call (.libcLseek fd 0 .seekCur))
      match ← call (.libcLseek fd offset whence) with
      | .error e =>
        call (.linearFree lseekArgsSize)
        finish result (-1) e
      | .ok ret =>
        call (.registerUndoAction (.lseekUndo fd oldPosition) result regularActionOrder)
        finish result ret 0

/-! ## x_write -/

/-- `TXC_WRITE_SEQ`, `TXC_WRITE_OVR_SAVE`, `TXC_WRITE_OVR_IGNORE` -/
inductive WriteFlags where
  | seq
  | ovrSave
  | ovrIgnore
  deriving DecidableEq, Repr

/-- `sizeof(x_write_undo_args_t)` -/
def writeArgsSize : UInt32 := 16

def xWriteSeqUndo (fd : Nat) (nbyteNew : Int) : XProg n N Int := do
  match ← call (.libcLseek fd (-nbyteNew) .seekCur) with
  | .error e => return e
  | .ok offset =>
    match ← call (.libcFtruncate fd offset) with
    | .error e => return e
    | .ok _ => return 0

def xWriteOvrUndo (fd : Nat) (buf : Option (List UInt8)) (nbyteNew nbyteOld : Int) :
    XProg n N Int := do
  match ← call (.libcLseek fd (-nbyteNew) .seekCur) with
  | .error e => return e
  | .ok offset =>
    match buf with
    | none => return 0
    | some data =>
      -- fewer bytes saved than written: the write is taken to have passed the end of the file
      let cut ← if nbyteOld < nbyteNew then call (.libcFtruncate fd offset) else pure (.ok ())
      match cut with
      | .error e => return e
      | .ok _ =>
        match ← call (.libcPwrite fd (data.take nbyteOld.toNat) offset) with
        | .error e => return e
        | .ok _ => return 0

/-- `x_write` behind the allocations of the two flags `TXC_WRITE_OVR_*`: `oldData` are the bytes
that were read -/
def xWriteOvr (fd : Nat) (buf : List UInt8) (result : Option Nat) (oldData : Option (List UInt8)) :
    XProg n N Int := do
  let nbyteOld : Int := (oldData.getD []).length
  if nbyteOld > 0 then
    let _ ← call (.libcLseek fd (-nbyteOld) .seekCur)
  match ← call (.libcWrite fd buf) with
  | .error e =>
    if oldData.isSome then call (.linearFree (UInt32.ofNat buf.length))
    call (.linearFree writeArgsSize)
    finish result (-1) e
  | .ok ret =>
    call (.registerUndoAction
      (.writeOvrUndo fd oldData ret nbyteOld) result regularActionOrder)
    finish result ret 0

def xWrite (fd : Nat) (buf : List UInt8) (result : Option Nat) (flags : WriteFlags) :
    XProg n N Int := do
  match ← call (.getXactstate) with
  | .irrevocable | .nontransactional =>
    match ← call (.libcWrite fd buf) with
    | .error e => finish result (-1) e
    | .ok ret => finish result ret 0
  | .retryable =>
    if !(← acquireFd fd) then finish result (-1) .ebadf
    else if !(← call (.linearMalloc writeArgsSize)) then finish result (-1) .enomem
    else match flags with
      | .seq =>
        match ← call (.libcWrite fd buf) with
        | .error e =>
          call (.linearFree writeArgsSize)
          finish result (-1) e
        | .ok ret =>
          call (.registerUndoAction (.writeSeqUndo fd ret) result regularActionOrder)
          finish result ret 0
      | .ovrIgnore => xWriteOvr fd buf result none
      | .ovrSave =>
        if !(← call (.linearMalloc (UInt32.ofNat buf.length))) then
          call (.linearFree writeArgsSize)
          finish result (-1) .enomem
        else match ← call (.libcRead fd buf.length) with
          | .error e =>
            call (.linearFree (UInt32.ofNat buf.length))
            call (.linearFree writeArgsSize)
            finish result (-1) e
          | .ok oldData => xWriteOvr fd buf result (some oldData)

end XCalls
