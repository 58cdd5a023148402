import XCalls.XCall.PipeOps

/-!
# All actions and all calls

* `XAction.prog`   the function that an action entry holds;
* `XCall`          the calls on files, with their programs.
-/

namespace XCalls
variable {n N : Nat}

/-! ## all actions -/

/-- the function that an action entry holds, on its arguments -/
def XAction.prog : XAction N → XProg n N Int
  | .readUndo fd nbyte => xReadUndo fd nbyte
  | .lseekUndo fd oldPosition => xLseekUndo fd oldPosition
  | .writeSeqUndo fd nbyteNew => xWriteSeqUndo fd nbyteNew
  | .writeOvrUndo fd buf nbyteNew nbyteOld => xWriteOvrUndo fd buf nbyteNew nbyteOld
  | .openUndo fd koa => xOpenUndo fd koa
  | .dupUndo fd koa => xDupUndo fd koa
  | .closeCommit fd koa => xCloseCommit fd koa
  | .createCase1Undo fd koa pathname => xCreateCase1Undo fd koa pathname
  | .createCase2Commit args => xCreateCase2Commit args
  | .createCase2Undo args => xCreateCase2Undo args
  | .renameCommit args => xRenameCommit args
  | .renameUndo args => xRenameUndo args
  | .unlinkCommit koa pathname => xUnlinkCommit koa pathname
  | .fsyncCommit fd => xFsyncCommit fd
  | .fdatasyncCommit fd => xFdatasyncCommit fd
  | .writePipeCommit fd buf => xWritePipeCommit fd buf
  | .sendmsgCommit fd msg flags => xSendmsgCommit fd msg flags
  | .pipeUndo fd0 fd1 koa0 koa1 => xPipeUndo fd0 fd1 koa0 koa1
  | .socketUndo fd koa => xSocketUndo fd koa
  | .readPipeCommit koa => xReadPipeCommit koa
  | .readPipeUndo koa => xReadPipeUndo koa
  | .recvmsgCommit koa => xRecvmsgCommit koa
  | .recvmsgUndo koa => xRecvmsgUndo koa

/-! ## all calls -/

inductive XCall where
  | read (fd nbyte : Nat)
  | lseek (fd : Nat) (offset : Int) (whence : Whence)
  | write (fd : Nat) (buf : List UInt8) (flags : WriteFlags)
  | «open» (pathname : Path) (flags : OpenFlags)
  | create (pathname : Path)
  | close (fildes : Nat)
  | dup (oldfd : Nat)
  | rename (oldpath newpath : Path)
  | unlink (pathname : Path)

/-- the program of a call with its pointer `result` -/
def XCall.prog (result : Option Nat) : XCall → XProg n N Int
  | read fd nbyte => do return (← xRead fd nbyte result).1
  | lseek fd offset whence => xLseek fd offset whence result
  | write fd buf flags => xWrite fd buf result flags
  | «open» pathname flags => xOpen pathname flags result
  | create pathname => xCreate pathname result
  | close fildes => xClose fildes result
  | dup oldfd => xDup oldfd result
  | rename oldpath newpath => xRename oldpath newpath result
  | unlink pathname => xUnlink pathname result

end XCalls
