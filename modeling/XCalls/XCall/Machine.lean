import XCalls.Core.Tx
import XCalls.Core.Koa
import XCalls.Lib.Prog
import XCalls.XCall.Datagrams

/-!
# The machine the xCalls run on

* `XAction`    the commit and undo actions of the xCalls, each with its argument structure;
* `World`      the kernel, the KOA manager, and the state of the transaction;
* `Instr`      what an xCall calls: `tx.c`, `buffer.c`, `sentinel.c`, `koa.c` and the libc;
* `handle`     how an instruction acts on the machine.

The environment's part in a call is its `Answers`: the name from `mktemp`, the file and the
descriptors that the kernel picks, system calls that fail for reasons outside the model, what
uninitialised variables hold, and the datagram that has arrived.  A KOA keeps its circular buffer
when it is recycled.  `koaFile` and `log` are read by no code: they record which file a KOA
was created for, and the pairs of a file and the KOA that an operation on it met.
-/

namespace XCalls

/-! ## actions -/

/-- `struct x_create_case2_commit_undo_args_s` -/
structure CreateCase2Args (N : Nat) where
  fd : Nat
  koa : Fin N
  tempPathname : Path
  originalPathname : Path
  deriving DecidableEq

/-- `struct x_rename_commit_undo_args_s`; `newpathKoa` is `newpath_koa` with `temppath` when
`newpath_koa_is_valid`, and neither is set or read otherwise -/
structure RenameArgs (N : Nat) where
  oldpathKoa : Fin N
  newpathKoa : Option (Fin N × Path)
  oldpath : Path
  newpath : Path
  deriving DecidableEq

/-- `struct msghdr` as `x_sendmsg` is given it: `iov` and `control` are the bytes that the pointers
point to, `iovlen` is the number of entries of `iov` -/
structure Msghdr where
  name : Nat
  namelen : UInt32
  iov : List UInt8
  iovlen : UInt32
  control : List UInt8
  controllen : UInt32
  flags : Int
  deriving DecidableEq

/-- the actions with their arguments, for a pool of `N` KOAs -/
inductive XAction (N : Nat) where
  | readUndo (fd : Nat) (nbyte : Int)
  | lseekUndo (fd : Nat) (oldPosition : Int)
  | writeSeqUndo (fd : Nat) (nbyteNew : Int)
  | writeOvrUndo (fd : Nat) (buf : Option (List UInt8)) (nbyteNew nbyteOld : Int)
  | openUndo (fd : Nat) (koa : Fin N)
  | dupUndo (fd : Nat) (koa : Fin N)
  | closeCommit (fd : Nat) (koa : Fin N)
  | createCase1Undo (fd : Nat) (koa : Fin N) (pathname : Path)
  | createCase2Commit (args : CreateCase2Args N)
  | createCase2Undo (args : CreateCase2Args N)
  | renameCommit (args : RenameArgs N)
  | renameUndo (args : RenameArgs N)
  | unlinkCommit (koa : Fin N) (pathname : Path)
  | fsyncCommit (fd : Nat)
  | fdatasyncCommit (fd : Nat)
  | writePipeCommit (fd : Nat) (buf : List UInt8)
  | sendmsgCommit (fd : Nat) (msg : Msghdr) (flags : Int)
  | pipeUndo (fd0 fd1 : Nat) (koa0 koa1 : Fin N)
  | socketUndo (fd : Nat) (koa : Fin N)
  | readPipeCommit (koa : Fin N)
  | readPipeUndo (koa : Fin N)
  | recvmsgCommit (koa : Fin N)
  | recvmsgUndo (koa : Fin N)
  deriving DecidableEq

/-- `TXC_TX_REGULAR_UNDO_ACTION_ORDER`, `TXC_KOA_CREATE_COMMIT_ACTION_ORDER`,
`TXC_KOA_CREATE_UNDO_ACTION_ORDER` -/
def regularActionOrder : Int32 := 0
/-- `TXC_KOA_DESTROY_COMMIT_ACTION_ORDER` -/
def koaDestroyActionOrder : Int32 := 1

/-! ## the state -/

/-- what the environment decides during one call; `fd1` is the second descriptor of a pipe -/
structure Answers where
  temp : Path
  file : FileId
  fd : Nat
  faults : List (Option Errno)
  garbage : List Int
  fd1 : Nat
  recv : Except Errno Datagram

structure World (T : Type) (n N : Nat) where
  kernel : Kernel
  koamgr : KoaMgr T n N
  self : T
  xactstate : XactState
  answers : Answers
  koaFile : Fin N → Option FileId
  log : List (Option FileId × Option FileId)
  buffer : Fin N → Circular

abbrev XMach (T : Type) (n N : Nat) := Mach (ActOf (XAction N)) (Fin n) (World T n N)

abbrev XEntry (N : Nat) := ActionEntry (ActOf (XAction N))

/-! ## instructions -/

/-- an `ino_t`: the number, and the file that it was read from -/
structure Inode where
  num : UInt32
  of : Option FileId

inductive Instr (n N : Nat) : Type → Type
  | getXactstate : Instr n N XactState
  | registerCommitAction (a : XAction N) (result : Option Nat) (order : Int32) : Instr n N Unit
  | registerUndoAction (a : XAction N) (result : Option Nat) (order : Int32) : Instr n N Unit
  | linearMalloc (size : UInt32) : Instr n N Bool
  | linearFree (size : UInt32) : Instr n N Unit
  | store (p : Option Nat) (v : Int) : Instr n N Unit
  /-- what a variable that was never set holds -/
  | garbage : Instr n N Int
  | tryacquire (sentinel : Fin n) (flags : UInt32) : Instr n N Int
  | lockAliasCache : Instr n N Unit
  | unlockAliasCache : Instr n N Unit
  | lockFd (fd : Nat) : Instr n N Unit
  | unlockFd (fd : Nat) : Instr n N Unit
  | lockFdsRefbyKoa (koa : Fin N) : Instr n N Unit
  | unlockFdsRefbyKoa (koa : Fin N) : Instr n N Unit
  | path2inode (path : Path) : Instr n N Inode
  | lookupInode (inode : Inode) : Instr n N (Option (Fin N))
  | createKoa (inode : Inode) : Instr n N (Fin N)
  /-- `txc_koa_create` of a pipe or a socket -/
  | createKoaOf (type : KoaType) : Instr n N (Fin N)
  | attachKoa (koa : Fin N) : Instr n N Unit
  | detachKoa (koa : Fin N) : Instr n N Unit
  | attachFd (koa : Fin N) (fd : Nat) (lock : Bool) : Instr n N Unit
  | detachFd (koa : Fin N) (fd : Nat) (lock : Bool) : Instr n N Bool
  | lookupFd2koa (fd : Nat) : Instr n N (Option (Fin N))
  | getSentinel (koa : Fin N) : Instr n N (Fin n)
  | getBuffer (koa : Fin N) : Instr n N Circular
  | setBuffer (koa : Fin N) (b : Circular) : Instr n N Unit
  | mktemp (template : String) : Instr n N Path
  | libcOpen (path : Path) (flags : OpenFlags) : Instr n N (Except Errno Nat)
  | libcClose (fd : Nat) : Instr n N (Except Errno Unit)
  | libcDup (fd : Nat) : Instr n N (Except Errno Nat)
  | libcRead (fd nbyte : Nat) : Instr n N (Except Errno (List UInt8))
  | libcWrite (fd : Nat) (buf : List UInt8) : Instr n N (Except Errno Nat)
  | libcLseek (fd : Nat) (offset : Int) (whence : Whence) : Instr n N (Except Errno Int)
  | libcFtruncate (fd : Nat) (length : Int) : Instr n N (Except Errno Unit)
  | libcPwrite (fd : Nat) (buf : List UInt8) (offset : Int) : Instr n N (Except Errno Nat)
  | libcRename (oldpath newpath : Path) : Instr n N (Except Errno Unit)
  | libcLink (oldpath newpath : Path) : Instr n N (Except Errno Unit)
  | libcUnlink (path : Path) : Instr n N (Except Errno Unit)
  | libcPipe : Instr n N (Except Errno (Nat × Nat))
  | libcSocket (domain type protocol : Int) : Instr n N (Except Errno Nat)
  | libcFsync (fd : Nat) : Instr n N (Except Errno Unit)
  | libcFdatasync (fd : Nat) : Instr n N (Except Errno Unit)
  | libcSendmsg (fd : Nat) (msg : Msghdr) (flags : Int) : Instr n N (Except Errno Nat)
  | libcRecvmsg (fd : Nat) (flags : Int) : Instr n N (Except Errno Datagram)

/-- why a call does not return: `txc_tx_abort_transaction` or `TXC_INTERNALERROR` -/
inductive Stop where
  | abort (reason : AbortReason)
  | internalError
  deriving DecidableEq, Repr

abbrev XProg (n N : Nat) := Prog (Instr n N) Stop

/-! ## the handler -/

section
variable {T : Type} {n N : Nat}

/-- a system call: the environment may let it fail -/
def syscall {β : Type} (m : XMach T n N) (f : Kernel → Except Errno β × Kernel) :
    Except Errno β × XMach T n N :=
  let w := { m.world with answers := { m.world.answers with
    faults := m.world.answers.faults.tail } }
  match m.world.answers.faults.head?.join with
  | some e => (.error e, { m with world := w })
  | none => ((f w.kernel).1, { m with world := { w with kernel := (f w.kernel).2 } })

namespace World

/-- an operation on the file `f` has met the KOA `k` -/
def meet (w : World T n N) (f : Option FileId) (k : Option (Fin N)) : World T n N :=
  match k with
  | none => w
  | some k => { w with log := (f, w.koaFile k) :: w.log }

theorem meet_eq (w : World T n N) (f : Option FileId) (k : Option (Fin N)) :
    w.meet f k = { w with log := (w.meet f k).log } := by
  cases k <;> rfl

/-- the KOA whose entry `alias_cache_remove` takes away when a reference of `k` is dropped -/
def removed (m : KoaMgr T n N) (k : Fin N) : Option (Fin N) :=
  if (m.koa k).refcnt - 1 = 0 ∧ (m.koa k).type = .file then m.aliasCache (m.koa k).stIno else none

def fileOf (w : World T n N) (fd : Nat) : Option FileId := (w.kernel.openFile fd).map OpenFile.file

end World

/-- `TXC_SENTINEL_ACQUIREONRETRY` and the other callees act on the machine as their models say.
The locks only order the calls.  `none`: the process ends, or a variable that was never set is
used. -/
def handle [DecidableEq T] : Prog.Handler (Instr n N) (XMach T n N)
  | _, .getXactstate, m => some (m.world.xactstate, m)
  | _, .registerCommitAction a result order, m =>
    some ((), { m with txd := txRegisterCommitAction m.txd ⟨.other a, result, order⟩ })
  | _, .registerUndoAction a result order, m =>
    some ((), { m with txd := txRegisterUndoAction m.txd ⟨.other a, result, order⟩ })
  | _, .linearMalloc size, m =>
    match bufferLinearMalloc m.txd.bufferLinear size with
    | none => some (false, m)
    | some (_, b) => some (true, { m with txd := { m.txd with bufferLinear := b } })
  | _, .linearFree size, m =>
    some ((), { m with txd := { m.txd with
      bufferLinear := bufferLinearFree m.txd.bufferLinear size } })
  | _, .store p v, m => some ((), m.store p v)
  | _, .garbage, m =>
    some (m.world.answers.garbage.headD 0, { m with world := { m.world with
      answers := { m.world.answers with garbage := m.world.answers.garbage.tail } } })
  | _, .tryacquire s flags, m =>
    (sentinelTryacquire m.world.koamgr.sentinelmgr m.txd m.world.self m.world.xactstate s flags
      (m.world.answers.garbage.headD 0)).map fun (r, mgr, txd) =>
        (r, { m with
          txd := txd
          world := { m.world with
            koamgr := { m.world.koamgr with sentinelmgr := mgr }
            answers := { m.world.answers with garbage := m.world.answers.garbage.tail } } })
  | _, .lockAliasCache, m => some ((), m)
  | _, .unlockAliasCache, m => some ((), m)
  | _, .lockFd _, m => some ((), m)
  | _, .unlockFd _, m => some ((), m)
  | _, .lockFdsRefbyKoa _, m => some ((), m)
  | _, .unlockFdsRefbyKoa _, m => some ((), m)
  | _, .path2inode path, m =>
    some (⟨(m.world.kernel.names path).elim 0 FileId.ino, m.world.kernel.names path⟩, m)
  | _, .lookupInode inode, m =>
    let k := koaAliasCacheLookupInode m.world.koamgr inode.num
    some (k, { m with world := m.world.meet inode.of k })
  | _, .createKoa inode, m =>
    (koaCreate m.world.koamgr .file inode.num).map fun (k, mgr) =>
      (k, { m with world := { m.world with
        koamgr := mgr, koaFile := Function.update m.world.koaFile k inode.of } })
  | _, .createKoaOf type, m =>
    (koaCreate m.world.koamgr type 0).map fun (k, mgr) =>
      (k, { m with world := { m.world with
        koamgr := mgr
        koaFile := Function.update m.world.koaFile k none
        buffer := Function.update m.world.buffer k (m.world.buffer k).init } })
  | _, .attachKoa k, m =>
    some ((), { m with world := { m.world with koamgr := koaAttach m.world.koamgr k } })
  | _, .detachKoa k, m =>
    some ((), { m with world :=
      { m.world.meet (m.world.koaFile k) (World.removed m.world.koamgr k) with
        koamgr := koaDetach m.world.koamgr k } })
  | _, .attachFd k fd _, m =>
    (koaAttachFd m.world.koamgr k fd).map fun mgr =>
      ((), { m with world := { m.world.meet (m.world.fileOf fd) (some k) with koamgr := mgr } })
  | _, .detachFd k fd _, m =>
    let r := koaDetachFd m.world.koamgr k fd
    let w := if r.1 then m.world.meet (m.world.koaFile k) (World.removed m.world.koamgr k)
      else m.world
    some (r.1, { m with world := { w with koamgr := r.2 } })
  | _, .lookupFd2koa fd, m => some (koaLookupFd2koa m.world.koamgr fd, m)
  | _, .getSentinel k, m => (m.world.koamgr.koa k).sentinel.map fun s => (s, m)
  | _, .getBuffer k, m => some (m.world.buffer k, m)
  | _, .setBuffer k b, m =>
    some ((), { m with world := { m.world with buffer := Function.update m.world.buffer k b } })
  | _, .mktemp _, m => some (m.world.answers.temp, m)
  | _, .libcOpen path flags, m =>
    some (syscall m fun k => sysOpen k path flags m.world.answers.file m.world.answers.fd)
  | _, .libcClose fd, m => some (syscall m fun k => sysClose k fd)
  | _, .libcDup fd, m => some (syscall m fun k => sysDup k fd m.world.answers.fd)
  | _, .libcRead fd nbyte, m => some (syscall m fun k => sysRead k fd nbyte)
  | _, .libcWrite fd buf, m => some (syscall m fun k => sysWrite k fd buf)
  | _, .libcLseek fd offset whence, m => some (syscall m fun k => sysLseek k fd offset whence)
  | _, .libcFtruncate fd length, m => some (syscall m fun k => sysFtruncate k fd length)
  | _, .libcPwrite fd buf offset, m => some (syscall m fun k => sysPwrite k fd buf offset)
  | _, .libcRename old new, m => some (syscall m fun k => sysRename k old new)
  | _, .libcLink old new, m => some (syscall m fun k => sysLink k old new)
  | _, .libcUnlink path, m => some (syscall m fun k => sysUnlink k path)
  | _, .libcPipe, m =>
    some (syscall m fun k => sysPipe k m.world.answers.file m.world.answers.fd m.world.answers.fd1)
  | _, .libcSocket _ _ _, m =>
    some (syscall m fun k => sysSocket k m.world.answers.file m.world.answers.fd)
  | _, .libcFsync fd, m => some (syscall m fun k => sysFsync k fd)
  | _, .libcFdatasync fd, m => some (syscall m fun k => sysFsync k fd)
  | _, .libcSendmsg fd msg _, m => some (syscall m fun k => sysSendmsg k fd msg.iov.length)
  | _, .libcRecvmsg _ _, m => some (syscall m fun k => (m.world.answers.recv, k))

end

end XCalls
