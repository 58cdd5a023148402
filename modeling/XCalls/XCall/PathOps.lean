import XCalls.XCall.FileOps

/-!
# The xCalls on names and descriptors

`x_open.c`, `x_create.c`, `x_close.c`, `x_dup.c`, `x_rename.c`, `x_unlink.c`, with their commit and
undo actions.
-/

namespace XCalls
open Prog (call)
variable {n N : Nat}

/-- `txc_sentinel_tryacquire` on a KOA that was just created -/
def acquireNew (koa : Fin N) : XProg n N Unit := do
  let sentinel ← call (.getSentinel koa)
  let xret ← call (.tryacquire sentinel 0)
  if xret ≠ rSuccess then .stop .internalError else return ()

/-- `txc_buffer_linear_malloc` of an argument structure, where `NULL` ends the process -/
def allocArgs (size : UInt32) : XProg n N Unit := do
  if !(← call (.linearMalloc size)) then .stop .internalError else return ()

/-- the error number of a call of which only the failure is looked at -/
def errnoOf {α : Type} : Except Errno α → Errno
  | .error e => e
  | .ok _ => 0

/-! ## x_open -/

/-- `sizeof(x_open_undo_args_t)` -/
def openArgsSize : UInt32 := 8

def xOpenUndo (fd : Nat) (koa : Fin N) : XProg n N Int := do
  call .lockAliasCache
  call (.lockFd fd)
  let _ ← call (.detachFd koa fd false)
  let closed ← call (.libcClose fd)
  call (.unlockFd fd)
  call .unlockAliasCache
  return errnoOf closed

/-- the end that the two cases of `x_open` share -/
def xOpenRegister (fildes : Nat) (koa : Fin N) (result : Option Nat) : XProg n N Unit := do
  allocArgs openArgsSize
  call (.registerUndoAction (.openUndo fildes koa) result regularActionOrder)

/-- the KOA of the alias cache, or a new one -/
def koaOfInode (inode : Inode) : XProg n N (Fin N) := do
  match ← call (.lookupInode inode) with
  | some koa => return koa
  | none => call (.createKoa inode)

def xOpen (pathname : Path) (flags : OpenFlags) (result : Option Nat) : XProg n N Int := do
  match ← call .getXactstate with
  | .retryable =>
    call .lockAliasCache
    let inode ← call (.path2inode pathname)
    if inode.num = 0 then
      call .unlockAliasCache
      finish result (-1) .eacces
    else match ← call (.libcOpen pathname flags) with
      | .error e =>
        call .unlockAliasCache
        finish result (-1) e
      | .ok fildes =>
        match ← call (.lookupInode inode) with
        | some koa =>
          call (.lockFdsRefbyKoa koa)
          call (.lockFd fildes)
          call (.attachFd koa fildes false)
          let sentinel ← call (.getSentinel koa)
          let xret ← call (.tryacquire sentinel 0)
          if xret = rBusysentinel then
            let _ ← call (.libcClose fildes)
            let _ ← call (.detachFd koa fildes false)
            call (.unlockFd fildes)
            call (.unlockFdsRefbyKoa koa)
            call .unlockAliasCache
            .stop (.abort .busysentinel)
          else
            xOpenRegister fildes koa result
            call (.unlockFdsRefbyKoa koa)
            call .unlockAliasCache
            finish result fildes 0
        | none =>
          let koa ← call (.createKoa inode)
          call (.lockFd fildes)
          call (.attachFd koa fildes false)
          acquireNew koa
          xOpenRegister fildes koa result
          call (.unlockFd fildes)
          call .unlockAliasCache
          finish result fildes 0
  | .irrevocable | .nontransactional =>
    call .lockAliasCache
    match ← call (.libcOpen pathname flags) with
    | .error e =>
      call .unlockAliasCache
      finish result (-1) e
    | .ok fildes =>
      let inode ← call (.path2inode pathname)
      let koa ← koaOfInode inode
      call (.lockFd fildes)
      call (.attachFd koa fildes false)
      let _ ← call (.getSentinel koa)
      call (.unlockFd fildes)
      call .unlockAliasCache
      finish result fildes 0

/-! ## x_create -/

/-- `O_CREAT| O_NOCTTY| O_TRUNC| O_RDWR` -/
def creationFlags : OpenFlags := ⟨true, false, true⟩

/-- the template of the temporary names -/
def tempTemplate : String := "/tmp/libtxc.tmp.XXXXXX"

/-- `sizeof(x_create_case1_commit_undo_args_t)` -/
def createCase1ArgsSize : UInt32 := 136
/-- `sizeof(x_create_case2_commit_undo_args_t)` -/
def createCase2ArgsSize : UInt32 := 264

def xCreateCase1Undo (fd : Nat) (koa : Fin N) (pathname : Path) : XProg n N Int := do
  call .lockAliasCache
  let unlinked ← call (.libcUnlink pathname)
  let _ ← call (.detachFd koa fd true)
  let closed ← call (.libcClose fd)
  call .unlockAliasCache
  match unlinked with
  | .error e => return e
  | .ok _ => return errnoOf closed

def xCreateCase2Commit (args : CreateCase2Args N) : XProg n N Int := do
  return errnoOf (← call (.libcUnlink args.tempPathname))

def xCreateCase2Undo (args : CreateCase2Args N) : XProg n N Int := do
  call .lockAliasCache
  let unlinked ← call (.libcUnlink args.originalPathname)
  let renamed ← call (.libcRename args.tempPathname args.originalPathname)
  let _ ← call (.detachFd args.koa args.fd true)
  let closed ← call (.libcClose args.fd)
  call .unlockAliasCache
  match unlinked, renamed with
  | .error e, _ => return e
  | .ok _, .error e => return e
  | .ok _, .ok _ => return errnoOf closed

/-- case 1 of `x_create`: the file does not exist -/
def xCreateCase1 (pathname : Path) (result : Option Nat) : XProg n N Int := do
  match ← call (.libcOpen pathname creationFlags) with
  | .error e =>
    call .unlockAliasCache
    finish result (-1) e
  | .ok fildes =>
    let inode ← call (.path2inode pathname)
    let koaNew ← call (.createKoa inode)
    call (.lockFd fildes)
    call (.attachFd koaNew fildes false)
    acquireNew koaNew
    allocArgs createCase1ArgsSize
    call (.registerUndoAction
      (.createCase1Undo fildes koaNew pathname) result regularActionOrder)
    call (.unlockFd fildes)
    call .unlockAliasCache
    finish result fildes 0

/-- case 2a of `x_create`: the sentinel of the KOA of the existing file is acquired -/
def xCreateCase2a (koaOld : Fin N) : XProg n N Unit := do
  call (.lockFdsRefbyKoa koaOld)
  let sentinel ← call (.getSentinel koaOld)
  let xret ← call (.tryacquire sentinel 0)
  if xret = rBusysentinel then
    call (.unlockFdsRefbyKoa koaOld)
    call .unlockAliasCache
    .stop (.abort .busysentinel)
  else call (.unlockFdsRefbyKoa koaOld)

/-- cases 2a and 2b: nothing is done where the existing file has no KOA -/
def xCreateIsolate (inode : Inode) : XProg n N Unit := do
  match ← call (.lookupInode inode) with
  | some koaOld => xCreateCase2a koaOld
  | none => return ()

/-- case 2 of `x_create`: an existing file is overwritten -/
def xCreateCase2 (pathname : Path) (inode : Inode) (result : Option Nat) : XProg n N Int := do
  xCreateIsolate inode
  let tempPathname ← call (.mktemp tempTemplate)
  let _ ← call (.libcRename pathname tempPathname)
  match ← call (.libcOpen pathname creationFlags) with
  | .error e =>
    let _ ← call (.libcRename tempPathname pathname)
    call .unlockAliasCache
    finish result (-1) e
  | .ok fildes =>
    let inode ← call (.path2inode pathname)
    let koaNew ← call (.createKoa inode)
    call (.lockFd fildes)
    call (.attachFd koaNew fildes false)
    acquireNew koaNew
    allocArgs createCase2ArgsSize
    let args : CreateCase2Args N := ⟨fildes, koaNew, tempPathname, pathname⟩
    call (.registerCommitAction (.createCase2Commit args) result regularActionOrder)
    call (.registerUndoAction (.createCase2Undo args) result regularActionOrder)
    call (.unlockFd fildes)
    call .unlockAliasCache
    finish result fildes 0

def xCreate (pathname : Path) (result : Option Nat) : XProg n N Int := do
  match ← call .getXactstate with
  | .retryable =>
    call .lockAliasCache
    let inode ← call (.path2inode pathname)
    if inode.num = 0 then xCreateCase1 pathname result else xCreateCase2 pathname inode result
  | .irrevocable | .nontransactional =>
    call .lockAliasCache
    match ← call (.libcOpen pathname creationFlags) with
    | .error e => finish result (-1) e
    | .ok fildes =>
      let inode ← call (.path2inode pathname)
      let koaNew ← call (.createKoa inode)
      call (.lockFd fildes)
      call (.attachFd koaNew fildes false)
      let _ ← call (.getSentinel koaNew)
      call (.unlockFd fildes)
      call .unlockAliasCache
      finish result fildes 0

/-! ## x_close -/

/-- `sizeof(x_close_commit_args_t)` -/
def closeArgsSize : UInt32 := 8

def xCloseCommit (fd : Nat) (koa : Fin N) : XProg n N Int := do
  call .lockAliasCache
  call (.lockFd fd)
  if ← call (.detachFd koa fd false) then
    let closed ← call (.libcClose fd)
    call (.unlockFd fd)
    call .unlockAliasCache
    return errnoOf closed
  else
    call (.unlockFd fd)
    call .unlockAliasCache
    return Errno.ebadf

def xClose (fildes : Nat) (result : Option Nat) : XProg n N Int := do
  match ← call .getXactstate with
  | .retryable =>
    call (.lockFd fildes)
    match ← call (.lookupFd2koa fildes) with
    | none =>
      call (.unlockFd fildes)
      finish result (-1) .ebadf
    | some koa =>
      let sentinel ← call (.getSentinel koa)
      let xret ← call (.tryacquire sentinel sentinelAcquireonretry)
      call (.unlockFd fildes)
      if xret = rBusysentinel then .stop (.abort .busysentinel)
      else
        allocArgs closeArgsSize
        call (.registerCommitAction
          (.closeCommit fildes koa) result koaDestroyActionOrder)
        call (.unlockFd fildes)
        finish result 0 0
  | .irrevocable | .nontransactional =>
    call .lockAliasCache
    match ← call (.libcClose fildes) with
    | .error e =>
      call .unlockAliasCache
      finish result (-1) e
    | .ok _ =>
      match ← call (.lookupFd2koa fildes) with
      -- the result of the lookup is not checked: `koa` is NULL, and `txc_koa_detach_fd` reads it
      | none => .stop .internalError
      | some koa =>
        let _ ← call (.detachFd koa fildes true)
        call .unlockAliasCache
        finish result 0 0

/-! ## x_dup -/

/-- `sizeof(x_dup_undo_args_t)` -/
def dupArgsSize : UInt32 := 8

def xDupUndo (fd : Nat) (koa : Fin N) : XProg n N Int := do
  call (.lockFd fd)
  let _ ← call (.detachFd koa fd false)
  let closed ← call (.libcClose fd)
  call (.unlockFd fd)
  return errnoOf closed

def xDup (oldfd : Nat) (result : Option Nat) : XProg n N Int := do
  match ← call .getXactstate with
  | .retryable =>
    call (.lockFd oldfd)
    match ← call (.lookupFd2koa oldfd) with
    | none => finish result (-1) .ebadf
    | some koa =>
      call (.unlockFd oldfd)
      call (.lockFdsRefbyKoa koa)
      let koa2 ← call (.lookupFd2koa oldfd)
      if koa2 ≠ some koa then finish result (-1) .ebadf
      else
        let sentinel ← call (.getSentinel koa)
        let xret ← call (.tryacquire sentinel sentinelAcquireonretry)
        if xret = rBusysentinel then
          call (.unlockFdsRefbyKoa koa)
          .stop (.abort .busysentinel)
        else match ← call (.libcDup oldfd) with
          | .error e =>
            call (.unlockFdsRefbyKoa koa)
            finish result (-1) e
          | .ok fildes =>
            if !(← call (.linearMalloc dupArgsSize)) then
              let _ ← call (.libcClose fildes)
              call (.unlockFdsRefbyKoa koa)
              finish result (-1) .enomem
            else
              call (.attachFd koa fildes false)
              call (.unlockFdsRefbyKoa koa)
              call (.registerUndoAction
                (.dupUndo fildes koa) result regularActionOrder)
              finish result fildes 0
  | .irrevocable | .nontransactional =>
    match ← call (.lookupFd2koa oldfd) with
    | none => finish result (-1) .ebadf
    | some koa =>
      match ← call (.libcDup oldfd) with
      | .error _ => return -1
      | .ok fildes =>
        call (.lockFdsRefbyKoa koa)
        call (.attachFd koa fildes false)
        call (.unlockFdsRefbyKoa koa)
        -- `local_result` was never set
        finish result fildes (← call .garbage)

/-! ## x_rename -/

/-- `sizeof(x_rename_commit_undo_args_t)` -/
def renameArgsSize : UInt32 := 396

/-- the start that `x_rename_commit` and `x_rename_undo` share: both KOAs are detached from -/
def xRenameDetach (args : RenameArgs N) : XProg n N Unit := do
  call .lockAliasCache
  call (.lockFdsRefbyKoa args.oldpathKoa)
  match args.newpathKoa with
  | some (koa, _) => call (.lockFdsRefbyKoa koa)
  | none => pure ()
  call (.detachKoa args.oldpathKoa)
  match args.newpathKoa with
  | some (koa, _) => call (.detachKoa koa)
  | none => pure ()

/-- the end that they share -/
def xRenameUnlock (args : RenameArgs N) : XProg n N Unit := do
  match args.newpathKoa with
  | some (koa, _) => call (.unlockFdsRefbyKoa koa)
  | none => pure ()
  call (.unlockFdsRefbyKoa args.oldpathKoa)
  call .unlockAliasCache

def xRenameCommit (args : RenameArgs N) : XProg n N Int := do
  xRenameDetach args
  let unlinked ← call (.libcUnlink args.oldpath)
  xRenameUnlock args
  return errnoOf unlinked

def xRenameUndo (args : RenameArgs N) : XProg n N Int := do
  xRenameDetach args
  let unlinked ← call (.libcUnlink args.newpath)
  match args.newpathKoa with
  | some (_, temppath) =>
    match ← call (.libcRename temppath args.newpath) with
    | .error e =>
      xRenameUnlock args
      return e
    | .ok _ =>
      xRenameUnlock args
      return errnoOf unlinked
  | none =>
    xRenameUnlock args
    return errnoOf unlinked

/-- the KOA of a path with a reference and its sentinel, created when there is none -/
def attachPath (inode : Inode) (flags : UInt32) : XProg n N (Fin N) := do
  match ← call (.lookupInode inode) with
  | some koa =>
    call (.lockFdsRefbyKoa koa)
    call (.attachKoa koa)
    let sentinel ← call (.getSentinel koa)
    let xret ← call (.tryacquire sentinel flags)
    if xret = rBusysentinel then
      call (.detachKoa koa)
      call (.unlockFdsRefbyKoa koa)
      call .unlockAliasCache
      .stop (.abort .busysentinel)
    else
      call (.unlockFdsRefbyKoa koa)
      return koa
  | none =>
    let koa ← call (.createKoa inode)
    call (.attachKoa koa)
    acquireNew koa
    return koa

/-- the file at `newpath`, when there is one, is renamed to a temporary name -/
def xRenameAside (newpath : Path) (newpathInode : Inode) : XProg n N (Option (Fin N × Path)) := do
  if newpathInode.num = 0 then return none
  else
    let newpathKoa ← attachPath newpathInode 0
    let temppath ← call (.mktemp tempTemplate)
    let _ ← call (.libcRename newpath temppath)
    return some (newpathKoa, temppath)

def xRename (oldpath newpath : Path) (result : Option Nat) : XProg n N Int := do
  match ← call .getXactstate with
  | .retryable =>
    call .lockAliasCache
    let oldpathInode ← call (.path2inode oldpath)
    if oldpathInode.num = 0 then
      call .unlockAliasCache
      finish result (-1) .enoent
    else
      let oldpathKoa ← attachPath oldpathInode sentinelAcquireonretry
      let newpathInode ← call (.path2inode newpath)
      let newpathKoa ← xRenameAside newpath newpathInode
      -- `oldpath` keeps its link until the commit
      let _ ← call (.libcLink oldpath newpath)
      allocArgs renameArgsSize
      let args : RenameArgs N := ⟨oldpathKoa, newpathKoa, oldpath, newpath⟩
      call (.registerCommitAction (.renameCommit args) result regularActionOrder)
      call (.registerUndoAction (.renameUndo args) result regularActionOrder)
      call .unlockAliasCache
      finish result 0 0
  | .irrevocable | .nontransactional =>
    let renamed ← call (.libcRename oldpath newpath)
    finish result 0 (errnoOf renamed)

/-! ## x_unlink -/

/-- `sizeof(x_unlink_commit_args_t)` -/
def unlinkArgsSize : UInt32 := 136

/-- `txc_koa_detach` always returns `TXC_R_SUCCESS` -/
def xUnlinkCommit (koa : Fin N) (pathname : Path) : XProg n N Int := do
  call .lockAliasCache
  call (.lockFdsRefbyKoa koa)
  call (.detachKoa koa)
  let unlinked ← call (.libcUnlink pathname)
  call (.unlockFdsRefbyKoa koa)
  call .unlockAliasCache
  return errnoOf unlinked

def xUnlink (pathname : Path) (result : Option Nat) : XProg n N Int := do
  match ← call .getXactstate with
  | .retryable =>
    call .lockAliasCache
    let inode ← call (.path2inode pathname)
    if inode.num = 0 then
      call .unlockAliasCache
      finish result (-1) .eacces
    else
      let koa ← attachPath inode sentinelAcquireonretry
      allocArgs unlinkArgsSize
      call (.registerCommitAction
        (.unlinkCommit koa pathname) result koaDestroyActionOrder)
      call .unlockAliasCache
      finish result 0 0
  | .irrevocable | .nontransactional =>
    let unlinked ← call (.libcUnlink pathname)
    finish result 0 (errnoOf unlinked)

end XCalls
