import XCalls.XCall.PathOps

/-!
# The xCalls on pipes and sockets, and the deferred ones

* `x_fsync.c`, `x_fdatasync.c`, `x_write_pipe.c`, `x_sendmsg.c`   what these do is deferred to their
  commit actions;
* `x_pipe.c`, `x_socket.c`   KOAs of descriptors that have no name;
* `x_read_pipe.c`, `x_recvmsg.c`   what is read goes through the circular buffer of the KOA.
-/

namespace XCalls
open Prog (call)
variable {n N : Nat}

/-! ## x_fsync, x_fdatasync -/

/-- `sizeof(x_fsync_commit_args_t)`, `sizeof(x_fdatasync_commit_args_t)` -/
def fsyncArgsSize : UInt32 := 4

def xFsyncCommit (fd : Nat) : XProg n N Int := do
  return errnoOf (← call (.libcFsync fd))

def xFdatasyncCommit (fd : Nat) : XProg n N Int := do
  return errnoOf (← call (.libcFdatasync fd))

/-- both calls: the system call `sync` and the commit action `commit` that makes it -/
def xSync (sync : Instr n N (Except Errno Unit)) (commit : XAction N) (fildes : Nat)
    (result : Option Nat) : XProg n N Int := do
  match ← call .getXactstate with
  | .retryable =>
    call (.lockFd fildes)
    match ← call (.lookupFd2koa fildes) with
    | none =>
      call (.unlockFd fildes)
      finish result (-1) .ebadf
    | some koa =>
      let sentinel ← call (.getSentinel koa)
      let xret ← call (.tryacquire sentinel sentinelAcquireonretry)
      call (.unlockFd fildes)
      if xret = rBusysentinel then .stop (.abort .busysentinel)
      else
        allocArgs fsyncArgsSize
        call (.registerCommitAction commit result regularActionOrder)
        call (.unlockFd fildes)
        finish result 0 0
  | .irrevocable | .nontransactional =>
    match ← call sync with
    | .error e => finish result (-1) e
    | .ok _ => finish result 0 0

def xFsync (fildes : Nat) (result : Option Nat) : XProg n N Int :=
  xSync (.libcFsync fildes) (.fsyncCommit fildes) fildes result

def xFdatasync (fildes : Nat) (result : Option Nat) : XProg n N Int :=
  xSync (.libcFdatasync fildes) (.fdatasyncCommit fildes) fildes result

/-! ## x_write_pipe -/

/-- `sizeof(x_write_commit_args_t)` -/
def writePipeArgsSize : UInt32 := 12

def xWritePipeCommit (fd : Nat) (buf : List UInt8) : XProg n N Int := do
  return errnoOf (← call (.libcWrite fd buf))

/-- the value returned, and `local_result` -/
def xWritePipe (fd : Nat) (buf : List UInt8) (result : Option Nat) : XProg n N (Int × Errno) := do
  match ← call .getXactstate with
  | .irrevocable | .nontransactional =>
    match ← call (.libcWrite fd buf) with
    | .error e => return (← finish result (-1) e, e)
    | .ok ret => return (← finish result ret 0, 0)
  | .retryable =>
    if !(← acquireFd fd) then return (← finish result (-1) .ebadf, .ebadf)
    else if !(← call (.linearMalloc writePipeArgsSize)) then
      return (← finish result (-1) .enomem, .enomem)
    else if !(← call (.linearMalloc (UInt32.ofNat buf.length))) then
      call (.linearFree writePipeArgsSize)
      return (← finish result (-1) .enomem, .enomem)
    else
      call (.registerCommitAction (.writePipeCommit fd buf) result regularActionOrder)
      return (← finish result (intOf buf.length) 0, 0)

/-! ## x_sendmsg -/

/-- `sizeof(x_sendmsg_commit_args_t)` -/
def sendmsgArgsSize : UInt32 := 36

def xSendmsgCommit (fd : Nat) (msg : Msghdr) (flags : Int) : XProg n N Int := do
  return errnoOf (← call (.libcSendmsg fd msg flags))

/-- the copy that is sent: of the array `msg_iov` as many bytes are copied as it has entries -/
def Msghdr.deferred (msg : Msghdr) : Msghdr :=
  { msg with
    iov := msg.iov.take msg.iovlen.toNat
    control := msg.control.take msg.controllen.toNat }

/-- the value returned, and `local_result` -/
def xSendmsg (fd : Nat) (msg : Msghdr) (flags : Int) (result : Option Nat) :
    XProg n N (Int × Errno) := do
  match ← call .getXactstate with
  | .irrevocable | .nontransactional =>
    match ← call (.libcSendmsg fd msg flags) with
    | .error e => return (← finish result (-1) e, e)
    | .ok ret => return (← finish result ret 0, 0)
  | .retryable =>
    if !(← acquireFd fd) then return (← finish result (-1) .ebadf, .ebadf)
    else if !(← call (.linearMalloc sendmsgArgsSize)) then
      return (← finish result (-1) .enomem, .enomem)
    else if !(← call (.linearMalloc msg.iovlen)) then
      call (.linearFree sendmsgArgsSize)
      return (← finish result (-1) .enomem, .enomem)
    else if !(← call (.linearMalloc msg.controllen)) then
      call (.linearFree msg.iovlen)
      call (.linearFree sendmsgArgsSize)
      return (← finish result (-1) .enomem, .enomem)
    else
      call (.registerCommitAction (.sendmsgCommit fd msg.deferred flags) result regularActionOrder)
      -- `ret` was never set
      return (← finish result (← call .garbage) 0, 0)

/-! ## x_pipe -/

/-- `sizeof(x_pipe_undo_args_t)` -/
def pipeArgsSize : UInt32 := 16

/-- the locks of both descriptors are taken in increasing order -/
def lockBoth (fd0 fd1 : Nat) : XProg n N Unit := do
  if fd0 < fd1 then
    call (.lockFd fd0)
    call (.lockFd fd1)
  else
    call (.lockFd fd1)
    call (.lockFd fd0)

def xPipeUndo (fd0 fd1 : Nat) (koa0 koa1 : Fin N) : XProg n N Int := do
  lockBoth fd0 fd1
  let _ ← call (.detachFd koa0 fd0 false)
  let _ ← call (.detachFd koa1 fd1 false)
  let closed0 ← call (.libcClose fd0)
  let closed1 ← call (.libcClose fd1)
  call (.unlockFd fd0)
  call (.unlockFd fd1)
  match closed1 with
  | .error e => return e
  | .ok _ => return errnoOf closed0

/-- the KOAs of both ends, attached, with both descriptors locked -/
def pipeKoas (fd0 fd1 : Nat) : XProg n N (Fin N × Fin N) := do
  let koa0 ← call (.createKoaOf .pipeReadEnd)
  let koa1 ← call (.createKoaOf .pipeWriteEnd)
  lockBoth fd0 fd1
  call (.attachFd koa0 fd0 false)
  call (.attachFd koa1 fd1 false)
  return (koa0, koa1)

/-- the value returned; the descriptors are stored in `fildes` -/
def xPipe (result : Option Nat) : XProg n N (Int × Option (Nat × Nat)) := do
  match ← call .getXactstate with
  | .retryable =>
    match ← call .libcPipe with
    | .error e => return (← finish result (-1) e, none)
    | .ok (fd0, fd1) =>
      let (koa0, koa1) ← pipeKoas fd0 fd1
      acquireNew koa0
      acquireNew koa1
      allocArgs pipeArgsSize
      call (.registerUndoAction (.pipeUndo fd0 fd1 koa0 koa1) result regularActionOrder)
      call (.unlockFd fd0)
      call (.unlockFd fd1)
      return (← finish result 0 0, some (fd0, fd1))
  | .irrevocable | .nontransactional =>
    match ← call .libcPipe with
    | .error e => return (← finish result (-1) e, none)
    | .ok (fd0, fd1) =>
      let _ ← pipeKoas fd0 fd1
      call (.unlockFd fd0)
      call (.unlockFd fd1)
      return (← finish result 0 0, some (fd0, fd1))

/-! ## x_socket -/

/-- the types of sockets that are told apart -/
inductive SockType where
  | dgram
  | stream
  deriving DecidableEq, Repr

/-- `SOCK_DGRAM`, `SOCK_STREAM` -/
def SockType.value : SockType → Int
  | dgram => 2
  | stream => 1

/-- `sizeof(x_socket_undo_args_t)` -/
def socketArgsSize : UInt32 := 8

def xSocketUndo (fd : Nat) (koa : Fin N) : XProg n N Int := do
  call (.lockFd fd)
  let _ ← call (.detachFd koa fd false)
  let closed ← call (.libcClose fd)
  call (.unlockFd fd)
  return errnoOf closed

def xSocket (domain : Int) (type : SockType) (protocol : Int) (result : Option Nat) :
    XProg n N Int := do
  match type with
  | .stream => finish result (-1) .einval
  | .dgram =>
    match ← call .getXactstate with
    | .retryable =>
      match ← call (.libcSocket domain type.value protocol) with
      | .error e => finish result (-1) e
      | .ok fildes =>
        let koa ← call (.createKoaOf .sockDgram)
        call (.lockFd fildes)
        call (.attachFd koa fildes false)
        acquireNew koa
        allocArgs socketArgsSize
        call (.registerUndoAction (.socketUndo fildes koa) result regularActionOrder)
        call (.unlockFd fildes)
        finish result fildes 0
    | .irrevocable | .nontransactional =>
      match ← call (.libcSocket domain type.value protocol) with
      | .error e => finish result (-1) e
      | .ok fildes =>
        let koa ← call (.createKoaOf .sockDgram)
        call (.lockFd fildes)
        call (.attachFd koa fildes false)
        call (.unlockFd fildes)
        finish result fildes 0

/-! ## x_read_pipe -/

/-- `sizeof(x_read_pipe_commit_undo_args_t)`, `sizeof(x_recvmsg_commit_undo_args_t)` -/
def bufferArgsSize : UInt32 := 8

def xReadPipeCommit (koa : Fin N) : XProg n N Int := do
  let b ← call (.getBuffer koa)
  call (.setBuffer koa b.commit)
  return 0

def xReadPipeUndo (koa : Fin N) : XProg n N Int := do
  let b ← call (.getBuffer koa)
  call (.setBuffer koa b.undo)
  return 0

/-- the start of a speculative read: `false` when there is no room for the arguments of the actions
`commit` and `undo` -/
def beginSpeculative (koa : Fin N) (commit undo : XAction N) (result : Option Nat) :
    XProg n N Bool := do
  let b ← call (.getBuffer koa)
  match b.state with
  | .speculative => return true
  | .nonSpeculative =>
    if !(← call (.linearMalloc bufferArgsSize)) then return false
    else
      call (.setBuffer koa b.snapshot)
      call (.registerCommitAction commit result regularActionOrder)
      call (.registerUndoAction undo result regularActionOrder)
      return true

/-- nothing is left to be served before the kernel is asked -/
def Circular.drained (b : Circular) : Bool :=
  b.speculativePrimaryTail = b.speculativePrimaryHead &&
    b.speculativeSecondaryTail = b.speculativeSecondaryHead

/-- nothing is buffered -/
def Circular.empty (b : Circular) : Bool :=
  b.primaryTail = b.primaryHead && b.secondaryTail = b.secondaryHead

/-- `__txc_read_pipe`, in a retryable transaction -/
def readPipeRetryable (fd nbyte : Nat) (result : Option Nat) : XProg n N (Int × List UInt8) := do
  call (.lockFd fd)
  match ← call (.lookupFd2koa fd) with
  | none =>
    call (.unlockFd fd)
    return (← finish result (-1) .ebadf, [])
  | some koa =>
    let sentinel ← call (.getSentinel koa)
    let xret ← call (.tryacquire sentinel sentinelAcquireonretry)
    call (.unlockFd fd)
    if xret = rBusysentinel then .stop (.abort .busysentinel)
    else if !(← beginSpeculative koa (.readPipeCommit koa) (.readPipeUndo koa) result) then
      return (← finish result (-1) .enomem, [])
    else
      let b ← call (.getBuffer koa)
      let asks := b.drained && (b.findSpace (UInt32.ofNat nbyte)).isSome
      let read ← if asks then call (.libcRead fd nbyte) else pure (.ok [])
      let r := readPipeServe b nbyte read
      call (.setBuffer koa r.2)
      return (← finish result r.1.ret r.1.localResult, r.1.data)

/-- `__txc_read_pipe`, otherwise -/
def readPipeOutside (fd nbyte : Nat) (result : Option Nat) : XProg n N (Int × List UInt8) := do
  call (.lockFd fd)
  match ← call (.lookupFd2koa fd) with
  | none =>
    call (.unlockFd fd)
    return (← finish result (-1) .ebadf, [])
  | some koa =>
    call (.unlockFd fd)
    let b ← call (.getBuffer koa)
    let read ← if b.empty then call (.libcRead fd nbyte) else pure (.ok [])
    let r := readPipeDirect b nbyte (← call .garbage) read
    call (.setBuffer koa r.2)
    return (← finish result r.1.ret r.1.localResult, r.1.data)

def xReadPipe (fd nbyte : Nat) (result : Option Nat) : XProg n N (Int × List UInt8) := do
  match ← call .getXactstate with
  | .retryable => readPipeRetryable fd nbyte result
  | .irrevocable | .nontransactional => readPipeOutside fd nbyte result

/-! ## x_recvmsg -/

def xRecvmsgCommit (koa : Fin N) : XProg n N Int := do
  let b ← call (.getBuffer koa)
  call (.setBuffer koa b.commit)
  return 0

def xRecvmsgUndo (koa : Fin N) : XProg n N Int := do
  let b ← call (.getBuffer koa)
  call (.setBuffer koa b.undo)
  return 0

/-- `__txc_recvmsg`, in a retryable transaction; `lens` are the lengths of the `iovec`s -/
def recvmsgRetryable (fd : Nat) (lens : List Nat) (flags : Int) (result : Option Nat) :
    XProg n N RecvReply := do
  call (.lockFd fd)
  match ← call (.lookupFd2koa fd) with
  | none =>
    call (.unlockFd fd)
    let _ ← finish result (-1) .ebadf
    return recvFailed (-1) .ebadf
  | some koa =>
    let sentinel ← call (.getSentinel koa)
    let xret ← call (.tryacquire sentinel sentinelAcquireonretry)
    call (.unlockFd fd)
    if xret = rBusysentinel then .stop (.abort .busysentinel)
    else if !(← beginSpeculative koa (.recvmsgCommit koa) (.recvmsgUndo koa) result) then
      let _ ← finish result (-1) .enomem
      return recvFailed (-1) .enomem
    else
      let b ← call (.getBuffer koa)
      let asks := b.drained && (b.findSpace Circular.neededBytes).isSome
      let recv ← if asks then call (.libcRecvmsg fd flags) else pure (.error 0)
      let len := (Int32.ofInt (← call .garbage)).toUInt32
      let r := recvmsgServe b lens len recv
      call (.setBuffer koa r.2)
      let _ ← finish result r.1.ret r.1.localResult
      return r.1

/-- `__txc_recvmsg`, otherwise -/
def recvmsgOutside (fd : Nat) (lens : List Nat) (flags : Int) (result : Option Nat) :
    XProg n N RecvReply := do
  call (.lockFd fd)
  match ← call (.lookupFd2koa fd) with
  | none =>
    call (.unlockFd fd)
    let _ ← finish result (-1) .ebadf
    return recvFailed (-1) .ebadf
  | some koa =>
    call (.unlockFd fd)
    let b ← call (.getBuffer koa)
    let recv ← if b.empty then call (.libcRecvmsg fd flags) else pure (.error 0)
    let r := recvmsgDirect b lens (← call .garbage) recv
    call (.setBuffer koa r.2)
    let _ ← finish result r.1.ret r.1.localResult
    return r.1

def xRecvmsg (fd : Nat) (lens : List Nat) (flags : Int) (result : Option Nat) :
    XProg n N RecvReply := do
  match ← call .getXactstate with
  | .retryable => recvmsgRetryable fd lens flags result
  | .irrevocable | .nontransactional => recvmsgOutside fd lens flags result

end XCalls
