import XCalls.Core.KoaTable
import XCalls.XCall.FailedCalls

/-!
# The locks of the descriptors

* `FdLocks`        the descriptors whose mutex the thread holds, and whether one was unlocked that
                   it did not hold;
* `lockHandle`     the machine with these beside it;
* `FdCall`         the calls on descriptors;
* `FdCall.Releases`   the state before the call, and what the environment responds, are such that
                   every lock is released rightly;
* `fd_locks_released`   this decides it.
-/

set_option linter.unusedSectionVars false

namespace XCalls
open Prog
variable {T : Type} [DecidableEq T] {n N : Nat}

/-! ## the locks -/

structure FdLocks where
  held : Finset Nat
  misused : Bool
  deriving DecidableEq

namespace FdLocks

def free : FdLocks := ⟨∅, false⟩

/-- a thread that locks a mutex it holds waits for itself, and does not go on -/
def lock (l : FdLocks) (fd : Nat) : Option FdLocks :=
  if fd ∈ l.held then none else some { l with held := insert fd l.held }

def unlock (l : FdLocks) (fd : Nat) : FdLocks :=
  ⟨l.held.erase fd, l.misused || fd ∉ l.held⟩

/-- the loop of `txc_koa_lock_fds_refby_koa` -/
def lockAll : FdLocks → List Nat → Option FdLocks
  | l, [] => some l
  | l, fd :: fds => (l.lock fd).bind fun l => l.lockAll fds

/-- the loop of `txc_koa_unlock_fds_refby_koa` -/
def unlockAll (l : FdLocks) (fds : List Nat) : FdLocks := fds.foldl unlock l

/-- nothing is held, and every unlock has released what was held -/
def Released (l : FdLocks) : Prop := l.held = ∅ ∧ l.misused = false

instance (l : FdLocks) : Decidable l.Released := inferInstanceAs (Decidable (_ ∧ _))

end FdLocks

/-- the machine with the locks of the thread; with `lock` set, `txc_koa_detach_fd` keeps the lock
when the descriptor has no KOA -/
def lockHandle : Handler (Instr n N) (XMach T n N × FdLocks)
  | _, .lockFd fd, s => (s.2.lock fd).map fun l => ((), (s.1, l))
  | _, .unlockFd fd, s => some ((), (s.1, s.2.unlock fd))
  | _, .lockFdsRefbyKoa k, s =>
    (s.2.lockAll (s.1.world.koamgr.koa k).fds).map fun l => ((), (s.1, l))
  | _, .unlockFdsRefbyKoa k, s =>
    some ((), (s.1, s.2.unlockAll (s.1.world.koamgr.koa k).fds))
  | _, .attachFd k fd lock, s =>
    (handle (.attachFd k fd lock) s.1).bind fun r =>
      if lock then (s.2.lock fd).map fun l => (r.1, (r.2, l.unlock fd)) else some (r.1, (r.2, s.2))
  | _, .detachFd k fd lock, s =>
    (handle (.detachFd k fd lock) s.1).bind fun r =>
      if lock then (s.2.lock fd).map fun l =>
        (r.1, (r.2, if s.1.world.koamgr.map fd = none then l else l.unlock fd))
      else some (r.1, (r.2, s.2))
  | _, i, s => (handle i s.1).map fun r => (r.1, (r.2, s.2))

/-! ## the calls -/

inductive FdCall where
  | file (c : XCall)
  | fsync (fildes : Nat)
  | fdatasync (fildes : Nat)
  | readPipe (fd nbyte : Nat)
  | writePipe (fd : Nat) (buf : List UInt8)
  | sendmsg (fd : Nat) (msg : Msghdr) (flags : Int)
  | recvmsg (fd : Nat) (lens : List Nat) (flags : Int)
  | pipe
  | socket (domain : Int) (type : SockType) (protocol : Int)

/-- the calls on files that are given or return a descriptor -/
def XCall.OnFds : XCall → Prop
  | .rename _ _ => False
  | .unlink _ => False
  | _ => True

def FdCall.OnFds : FdCall → Prop
  | .file c => c.OnFds
  | _ => True

/-- the program of a call; what it returns is not looked at -/
def FdCall.prog (result : Option Nat) : FdCall → XProg n N Unit
  | file c => do let _ ← c.prog result
  | fsync fildes => do let _ ← xFsync fildes result
  | fdatasync fildes => do let _ ← xFdatasync fildes result
  | readPipe fd nbyte => do let _ ← xReadPipe fd nbyte result
  | writePipe fd buf => do let _ ← xWritePipe fd buf result
  | sendmsg fd msg flags => do let _ ← xSendmsg fd msg flags result
  | recvmsg fd lens flags => do let _ ← xRecvmsg fd lens flags result
  | pipe => do let _ ← xPipe result
  | socket domain type protocol => do let _ ← xSocket domain type protocol result

/-- `txc_sentinel_tryacquire` finds the sentinel of the KOA busy -/
def sentinelBusy (m : XMach T n N) (k : Fin N) (flags : UInt32) : Bool :=
  match (m.world.koamgr.koa k).sentinel with
  | none => false
  | some s =>
    match sentinelTryacquire m.world.koamgr.sentinelmgr m.txd m.world.self m.world.xactstate s flags
      (m.world.answers.garbage.headD 0) with
    | none => false
    | some r => r.1 = rBusysentinel

def dupFails (m : XMach T n N) (oldfd : Nat) : Bool :=
  m.world.answers.faults.head?.join.isSome || (m.world.kernel.fds oldfd).isNone

/-- `x_close`, `x_fsync` and `x_fdatasync` unlock twice when they are carried out, and `x_dup`
unlocks the new descriptor without having locked it, and nothing when the old one has no KOA -/
def FdCall.Releases (m : XMach T n N) : FdCall → Prop
  | .file (.close fd) | .fsync fd | .fdatasync fd =>
    ∀ k, m.world.koamgr.map fd = some k → sentinelBusy m k sentinelAcquireonretry = true
  | .file (.dup fd) => ∃ k, m.world.koamgr.map fd = some k ∧
      (sentinelBusy m k sentinelAcquireonretry = true ∨ dupFails m fd = true ∨
        bufferLinearMalloc m.txd.bufferLinear dupArgsSize = none)
  | _ => True

/-! ## lists of locks -/

namespace FdLocks
variable {l l' : FdLocks} {fds : List Nat}

theorem lock_eq_some {fd : Nat} (h : l.lock fd = some l') :
    fd ∉ l.held ∧ l' = ⟨insert fd l.held, l.misused⟩ := by
  unfold lock at h
  split at h
  · cases h
  · cases h
    exact ⟨‹_›, rfl⟩

/-- all of the list is locked, each once -/
theorem lockAll_eq_some (h : l.lockAll fds = some l') :
    fds.Nodup ∧ (∀ fd ∈ fds, fd ∉ l.held) ∧ l' = ⟨l.held ∪ fds.toFinset, l.misused⟩ := by
  induction fds generalizing l with
  | nil =>
    cases h
    exact ⟨List.nodup_nil, by simp, by simp⟩
  | cons fd fds ih =>
    obtain ⟨l₁, h₁, h₂⟩ := Option.bind_eq_some_iff.mp h
    obtain ⟨hfd, rfl⟩ := lock_eq_some h₁
    obtain ⟨hnd, hout, rfl⟩ := ih h₂
    refine ⟨List.nodup_cons.mpr ⟨?_, hnd⟩, ?_, ?_⟩
    · intro hm
      exact hout fd hm (Finset.mem_insert_self _ _)
    · intro x hx
      rcases List.mem_cons.mp hx with rfl | hx
      · exact hfd
      · exact fun hl => hout x hx (Finset.mem_insert_of_mem hl)
    · rw [List.toFinset_cons, Finset.union_insert, Finset.insert_union]

theorem unlockAll_eq (hnd : fds.Nodup) (hin : ∀ fd ∈ fds, fd ∈ l.held) :
    l.unlockAll fds = ⟨l.held \ fds.toFinset, l.misused⟩ := by
  induction fds generalizing l with
  | nil => simp [unlockAll]
  | cons fd fds ih =>
    obtain ⟨hfd, hnd⟩ := List.nodup_cons.mp hnd
    have h1 : l.unlock fd = ⟨l.held.erase fd, l.misused⟩ := by
      simp [unlock, hin fd List.mem_cons_self]
    have hin' : ∀ x ∈ fds, x ∈ (l.unlock fd).held := by
      intro x hx
      rw [h1]
      refine Finset.mem_erase.mpr ⟨?_, hin x (List.mem_cons_of_mem _ hx)⟩
      intro he
      exact hfd (he ▸ hx)
    show (l.unlock fd).unlockAll fds = _
    rw [ih hnd hin', h1, List.toFinset_cons]
    congr 1
    ext x
    simp only [Finset.mem_sdiff, Finset.mem_erase, Finset.mem_insert]
    tauto

theorem unlockAll_lockAll (h : l.lockAll fds = some l') : l'.unlockAll fds = l := by
  obtain ⟨hnd, hout, rfl⟩ := lockAll_eq_some h
  have hin : ∀ fd ∈ fds, fd ∈ l.held ∪ fds.toFinset := fun fd hfd =>
    Finset.mem_union_right _ (List.mem_toFinset.mpr hfd)
  rw [unlockAll_eq hnd hin]
  have hheld : (l.held ∪ fds.toFinset) \ fds.toFinset = l.held := by
    ext x
    simp only [Finset.mem_sdiff, Finset.mem_union, List.mem_toFinset]
    constructor
    · exact fun h => h.1.resolve_right h.2
    · exact fun h => ⟨Or.inl h, fun hx => hout x hx h⟩
  show FdLocks.mk ((l.held ∪ fds.toFinset) \ fds.toFinset) l.misused = l
  rw [hheld]

end FdLocks

/-! ## instructions that change KOAs -/

def Instr.OnKoas : ∀ {β : Type}, Instr n N β → Prop
  | _, .createKoa _ => True
  | _, .createKoaOf _ => True
  | _, .attachKoa _ => True
  | _, .detachKoa _ => True
  | _, .attachFd _ _ _ => True
  | _, .detachFd _ _ _ => True
  | _, _ => False

/-- the other instructions leave the KOAs alone -/
theorem handle_koas {β : Type} {i : Instr n N β} {b : β} {m m' : XMach T n N}
    (h : handle i m = some (b, m')) (hi : ¬ i.OnKoas) :
    m'.world.koamgr.koas = m.world.koamgr.koas ∧ m'.world.xactstate = m.world.xactstate := by
  have hsys : ∀ {γ : Type} {f : Kernel → Except Errno γ × Kernel} {b : Except Errno γ},
      some (syscall m f) = some (b, m') →
      m'.world.koamgr.koas = m.world.koamgr.koas ∧ m'.world.xactstate = m.world.xactstate := by
    intro γ f b hs
    have hk := syscall_koamgr m f
    have hx : (syscall m f).2.world.xactstate = m.world.xactstate := by
      unfold syscall
      dsimp only
      split <;> rfl
    rw [Option.some.inj hs] at hk hx
    exact ⟨by rw [hk], hx⟩
  cases i with
  | libcOpen | libcClose | libcDup | libcRead | libcWrite | libcLseek | libcFtruncate | libcPwrite
  | libcRename | libcLink | libcUnlink | libcPipe | libcSocket | libcFsync | libcFdatasync
  | libcSendmsg | libcRecvmsg => exact hsys h
  | createKoa | createKoaOf | attachKoa | detachKoa | attachFd | detachFd => exact absurd trivial hi
  | getXactstate | path2inode | mktemp | lockAliasCache | unlockAliasCache | lockFd | unlockFd
  | lockFdsRefbyKoa | unlockFdsRefbyKoa | lookupFd2koa | linearFree | garbage | getBuffer
  | setBuffer | registerCommitAction | registerUndoAction =>
    cases h
    exact ⟨rfl, rfl⟩
  | lookupInode inode =>
    cases h
    rw [World.meet_eq]
    exact ⟨rfl, rfl⟩
  | linearMalloc size =>
    simp only [handle] at h
    split at h
    all_goals
      cases h
      exact ⟨rfl, rfl⟩
  | store p v =>
    cases h
    rw [Mach.store_world]
    exact ⟨rfl, rfl⟩
  | tryacquire s flags =>
    simp only [handle, Option.map_eq_some_iff] at h
    obtain ⟨⟨r, mgr, txd⟩, -, h2⟩ := h
    cases h2
    exact ⟨rfl, rfl⟩
  | getSentinel k =>
    simp only [handle, Option.map_eq_some_iff] at h
    obtain ⟨s, -, h2⟩ := h
    cases h2
    exact ⟨rfl, rfl⟩

theorem handle_fdrefOk {β : Type} {i : Instr n N β} {b : β} {m m' : XMach T n N}
    (h : handle i m = some (b, m')) (hm : FdrefOk m.world.koamgr) : FdrefOk m'.world.koamgr := by
  cases i with
  | attachKoa k =>
    cases h
    exact hm.countAttach
  | detachKoa k =>
    cases h
    exact hm.countDetach
  | detachFd k fd lock =>
    cases h
    exact hm.detachFd
  | createKoa | createKoaOf =>
    simp only [handle, Option.map_eq_some_iff] at h
    obtain ⟨⟨k, mgr⟩, h1, h2⟩ := h
    cases h2
    exact hm.create h1
  | attachFd k fd lock =>
    simp only [handle, Option.map_eq_some_iff] at h
    obtain ⟨mgr, h1, h2⟩ := h
    cases h2
    exact hm.attachFd h1
  | _ =>
    have hkoa := congrArg Koas.koa (handle_koas h id).1
    exact hm.of_koa fun x => congrArg Koa.fdRefcnt (congrFun hkoa x)

/-! ## what the calls do to the locks -/

structure FdView (N : Nat) where
  fds : Fin N → List Nat
  map : Nat → Option (Fin N)
  xactstate : XactState
  locks : FdLocks

def fdView (s : XMach T n N × FdLocks) : FdView N :=
  ⟨fun k => (s.1.world.koamgr.koa k).fds, s.1.world.koamgr.map, s.1.world.xactstate, s.2⟩

/-- the steps of a call; what is detached is what was attached last -/
def fdStep : StepRel (Instr n N) (FdView N)
  | _, .getXactstate, b, v, v' => b = v.xactstate ∧ v' = v
  | _, .lockFd fd, _, v, v' => ∃ l, v.locks.lock fd = some l ∧ v' = { v with locks := l }
  | _, .unlockFd fd, _, v, v' => v' = { v with locks := v.locks.unlock fd }
  | _, .lockFdsRefbyKoa k, _, v, v' =>
    ∃ l, v.locks.lockAll (v.fds k) = some l ∧ v' = { v with locks := l }
  | _, .unlockFdsRefbyKoa k, _, v, v' => v' = { v with locks := v.locks.unlockAll (v.fds k) }
  | _, .attachFd k fd lock, _, v, v' =>
    lock = false → v' = { v with
      fds := Function.update v.fds k (v.fds k ++ [fd]), map := Function.update v.map fd (some k) }
  | _, .detachFd k fd lock, _, v, v' =>
    lock = false → v'.locks = v.locks ∧
      ∀ fds, v.fds k = fds ++ [fd] → fd ∉ fds → v.map fd ≠ none → v'.fds k = fds
  | _, .createKoa _, _, v, v' => v'.locks = v.locks
  | _, .createKoaOf _, _, v, v' => v'.locks = v.locks
  | _, .attachKoa _, _, _, _ => True
  | _, .detachKoa _, _, _, _ => True
  | _, _, _, v, v' => v' = v

section
variable {s s' : XMach T n N × FdLocks}

theorem fdView_eq {m m' : XMach T n N} (hk : m'.world.koamgr.koas = m.world.koamgr.koas)
    (hx : m'.world.xactstate = m.world.xactstate) (l : FdLocks) : fdView (m', l) = fdView (m, l) := by
  have hkoa : m'.world.koamgr.koa = m.world.koamgr.koa := congrArg Koas.koa hk
  have hmap : m'.world.koamgr.map = m.world.koamgr.map := congrArg Koas.map hk
  simp only [fdView, hkoa, hmap, hx]

theorem lockHandle_attach {k : Fin N} {fd : Nat} {lock : Bool} {b : Unit}
    (h : lockHandle (.attachFd k fd lock : Instr n N _) s = some (b, s'))
    (hs : FdrefOk s.1.world.koamgr) :
    fdStep (.attachFd k fd lock : Instr n N _) b (fdView s) (fdView s') ∧
      FdrefOk s'.1.world.koamgr := by
  obtain ⟨⟨u, m'⟩, h1, h2⟩ := Option.bind_eq_some_iff.mp h
  have hm := handle_fdrefOk h1 hs
  cases lock with
  | true =>
    obtain ⟨l, -, h3⟩ := Option.map_eq_some_iff.mp h2
    cases h3
    exact ⟨(fun hf => nomatch hf), hm⟩
  | false =>
    cases h2
    refine ⟨fun _ => ?_, hm⟩
    simp only [handle, Option.map_eq_some_iff] at h1
    obtain ⟨mgr, h1, h2⟩ := h1
    cases h2
    obtain ⟨-, hmap, ho, -⟩ := koaAttachFd_cases h1
    have hfds : (fun x => (mgr.koa x).fds) = Function.update (fun x => (s.1.world.koamgr.koa x).fds) k
        ((s.1.world.koamgr.koa k).fds ++ [fd]) := by
      funext x
      by_cases hx : x = k
      · subst hx
        rw [Function.update_self]
        exact fds_attachFd h1 (hs x)
      · rw [Function.update_of_ne hx, ho x hx]
    simp only [fdView, hfds, hmap]
    rfl

theorem lockHandle_detach {k : Fin N} {fd : Nat} {lock b : Bool}
    (h : lockHandle (.detachFd k fd lock : Instr n N _) s = some (b, s'))
    (hs : FdrefOk s.1.world.koamgr) :
    fdStep (.detachFd k fd lock : Instr n N _) b (fdView s) (fdView s') ∧
      FdrefOk s'.1.world.koamgr := by
  simp only [lockHandle, Option.bind_eq_some_iff] at h
  obtain ⟨⟨u, m'⟩, h1, h2⟩ := h
  have hm := handle_fdrefOk h1 hs
  cases lock with
  | true =>
    obtain ⟨l, -, h3⟩ := Option.map_eq_some_iff.mp h2
    cases h3
    exact ⟨(fun hf => nomatch hf), hm⟩
  | false =>
    cases h2
    cases h1
    exact ⟨fun _ => ⟨rfl, fun fds hfds hout hmap => fds_detachFd hfds hout hmap⟩, hm⟩

theorem lockHandle_fdStep {β : Type} {i : Instr n N β} {b : β} (h : lockHandle i s = some (b, s'))
    (hs : FdrefOk s.1.world.koamgr) :
    fdStep i b (fdView s) (fdView s') ∧ FdrefOk s'.1.world.koamgr := by
  cases i with
  | lockFd fd =>
    obtain ⟨l, h1, h2⟩ := Option.map_eq_some_iff.mp h
    cases h2
    exact ⟨⟨l, h1, rfl⟩, hs⟩
  | lockFdsRefbyKoa k =>
    obtain ⟨l, h1, h2⟩ := Option.map_eq_some_iff.mp h
    cases h2
    exact ⟨⟨l, h1, rfl⟩, hs⟩
  | unlockFd | unlockFdsRefbyKoa =>
    cases h
    exact ⟨rfl, hs⟩
  | attachFd k fd lock => exact lockHandle_attach h hs
  | detachFd k fd lock => exact lockHandle_detach h hs
  | getXactstate =>
    cases h
    exact ⟨⟨rfl, rfl⟩, hs⟩
  | createKoa | createKoaOf =>
    obtain ⟨⟨b', m'⟩, h1, h2⟩ := Option.map_eq_some_iff.mp h
    cases h2
    exact ⟨rfl, handle_fdrefOk h1 hs⟩
  | attachKoa | detachKoa =>
    simp only [lockHandle, Option.map_eq_some_iff] at h
    obtain ⟨⟨b', m'⟩, h1, h2⟩ := h
    cases h2
    exact ⟨trivial, handle_fdrefOk h1 hs⟩
  | _ =>
    simp only [lockHandle, Option.map_eq_some_iff] at h
    obtain ⟨⟨b', m'⟩, h1, h2⟩ := h
    cases h2
    obtain ⟨hk, hx⟩ := handle_koas h1 id
    exact ⟨fdView_eq hk hx s.2, handle_fdrefOk h1 hs⟩

end

/-! ## calls that release their locks -/

/-- the instruction neither locks nor unlocks a descriptor, nor changes the lists of descriptors -/
def Instr.Quiet : ∀ {β : Type}, Instr n N β → Prop
  | _, .lockFd _ => False
  | _, .unlockFd _ => False
  | _, .lockFdsRefbyKoa _ => False
  | _, .unlockFdsRefbyKoa _ => False
  | _, .attachFd _ _ _ => False
  | _, .detachFd _ _ _ => False
  | _, .attachKoa _ => False
  | _, .detachKoa _ => False
  | _, _ => True

def FdPost {α : Type} : Except Stop α → FdView N → Prop :=
  fun r v => r ≠ .error .internalError → v.locks.Released

section
variable {α : Type} {v : FdView N}

theorem fdStep_quiet {β : Type} {i : Instr n N β} {b : β} {v v' : FdView N} (hi : i.Quiet)
    (h : fdStep i b v v') : v'.locks = v.locks := by
  cases i with
  | lockFd | unlockFd | lockFdsRefbyKoa | unlockFdsRefbyKoa | attachFd | detachFd | attachKoa
  | detachKoa => exact hi.elim
  | getXactstate =>
    rw [h.2]
  | createKoa | createKoaOf => exact h
  | _ => exact congrArg FdView.locks h

theorem wp_quiet {p : XProg n N α} (hp : All (fun _ => Instr.Quiet) p) (hl : v.locks.Released) :
    wp fdStep p FdPost v := by
  have hJ : ∀ {β : Type} (i : Instr n N β) (b : β) (v v' : FdView N), i.Quiet → fdStep i b v v' →
      v.locks.Released → v'.locks.Released := by
    intro β i b v v' hi h hv
    rw [fdStep_quiet hi h]
    exact hv
  refine wp_mono ?_ (wp_all hJ hp hl)
  intro r v' hv _
  exact hv

theorem FdLocks.released_free : FdLocks.free.Released := ⟨rfl, rfl⟩

theorem FdLocks.unlock_lock {l l' : FdLocks} {fd : Nat} (h : l.lock fd = some l') :
    l'.unlock fd = l := by
  obtain ⟨hfd, rfl⟩ := lock_eq_some h
  simp [unlock, Finset.erase_insert hfd]

/-- the sentinel of a descriptor is acquired under its lock -/
theorem wp_acquireFd_fd {fd : Nat} {f : Bool → XProg n N α}
    (hf : ∀ b, All (fun _ => Instr.Quiet) (f b)) (hl : v.locks.Released) :
    wp fdStep (acquireFd fd >>= f) FdPost v := by
  apply wp_bind
  simp only [acquireFd, call_bind]
  rintro _ v₁ ⟨l, hlock, rfl⟩ koa v₂ rfl
  cases koa with
  | none =>
    rintro _ v₃ rfl
    refine wp_quiet (hf false) ?_
    rw [FdLocks.unlock_lock hlock]
    exact hl
  | some koa =>
    rintro s v₃ rfl r v₄ rfl _ v₅ rfl
    dsimp only
    rw [FdLocks.unlock_lock hlock]
    split
    · exact fun _ => hl
    · exact wp_quiet (hf true) hl

theorem xRead_fd (fd nbyte : Nat) (result : Option Nat) (hx : v.xactstate = .retryable)
    (hl : v.locks.Released) :
    wp fdStep (xRead fd nbyte result : XProg n N (Int × List UInt8)) FdPost v := by
  simp only [xRead, call_bind]
  rintro _ v ⟨rfl, rfl⟩
  rw [hx]
  refine wp_acquireFd_fd (fun b => ?_) hl
  simp only [finish, call_bind, op_bind, pure_eq, ret_bind]
  repeat' first | exact trivial | refine all_op trivial fun _ => ?_ | split

theorem xLseek_fd (fd : Nat) (offset : Int) (whence : Whence) (result : Option Nat)
    (hx : v.xactstate = .retryable) (hl : v.locks.Released) :
    wp fdStep (xLseek fd offset whence result : XProg n N Int) FdPost v := by
  simp only [xLseek, call_bind]
  rintro _ v ⟨rfl, rfl⟩
  rw [hx]
  refine wp_acquireFd_fd (fun b => ?_) hl
  simp only [finish, call_bind, pure_eq]
  repeat' first | exact trivial | refine all_op trivial fun _ => ?_ | split

theorem quiet_writeOvr (fd : Nat) (buf : List UInt8) (result : Option Nat)
    (oldData : Option (List UInt8)) :
    All (fun _ => Instr.Quiet) (xWriteOvr fd buf result oldData : XProg n N Int) := by
  simp only [xWriteOvr, finish, call_bind, pure_eq]
  repeat' first | exact trivial | refine all_op trivial fun _ => ?_ | split

theorem xWrite_fd (fd : Nat) (buf : List UInt8) (flags : WriteFlags) (result : Option Nat)
    (hx : v.xactstate = .retryable) (hl : v.locks.Released) :
    wp fdStep (xWrite fd buf result flags : XProg n N Int) FdPost v := by
  simp only [xWrite, call_bind]
  rintro _ v ⟨rfl, rfl⟩
  rw [hx]
  refine wp_acquireFd_fd (fun b => ?_) hl
  simp only [finish, call_bind, pure_eq]
  repeat' first
    | exact trivial | exact quiet_writeOvr _ _ _ _ | refine all_op trivial fun _ => ?_ | split

theorem xWritePipe_fd (fd : Nat) (buf : List UInt8) (result : Option Nat)
    (hx : v.xactstate = .retryable) (hl : v.locks.Released) :
    wp fdStep (xWritePipe fd buf result : XProg n N (Int × Errno)) FdPost v := by
  simp only [xWritePipe, call_bind]
  rintro _ v ⟨rfl, rfl⟩
  rw [hx]
  refine wp_acquireFd_fd (fun b => ?_) hl
  simp only [finish, call_bind, op_bind, pure_eq, ret_bind]
  repeat' first | exact trivial | refine all_op trivial fun _ => ?_ | split

theorem xSendmsg_fd (fd : Nat) (msg : Msghdr) (flags : Int) (result : Option Nat)
    (hx : v.xactstate = .retryable) (hl : v.locks.Released) :
    wp fdStep (xSendmsg fd msg flags result : XProg n N (Int × Errno)) FdPost v := by
  simp only [xSendmsg, call_bind]
  rintro _ v ⟨rfl, rfl⟩
  rw [hx]
  refine wp_acquireFd_fd (fun b => ?_) hl
  simp only [finish, call_bind, op_bind, pure_eq, ret_bind]
  repeat' first | exact trivial | refine all_op trivial fun _ => ?_ | split

/-- the sentinel of a descriptor, where the KOA is used afterwards -/
theorem wp_sentinel_fd {fd : Nat} {koa : Fin N} {f : XProg n N α} {l : FdLocks}
    (hlock : v.locks.lock fd = some l) (hf : All (fun _ => Instr.Quiet) f) (hl : v.locks.Released) :
    wp fdStep (do
      let sentinel ← call (.getSentinel koa)
      let xret ← call (.tryacquire sentinel sentinelAcquireonretry)
      call (.unlockFd fd)
      if xret = rBusysentinel then .stop (.abort .busysentinel) else f : XProg n N α) FdPost
      { v with locks := l } := by
  rintro s v₃ rfl r v₄ rfl _ v₅ rfl
  dsimp only
  rw [FdLocks.unlock_lock hlock]
  split
  · exact fun _ => hl
  · exact wp_quiet hf hl

theorem quiet_beginSpeculative (koa : Fin N) (commit undo : XAction N) (result : Option Nat) :
    All (fun _ => Instr.Quiet) (beginSpeculative koa commit undo result : XProg n N Bool) := by
  simp only [beginSpeculative, call_bind, pure_eq]
  repeat' first | exact trivial | refine all_op trivial fun _ => ?_ | split

theorem xReadPipe_fd (fd nbyte : Nat) (result : Option Nat) (hx : v.xactstate = .retryable)
    (hl : v.locks.Released) :
    wp fdStep (xReadPipe fd nbyte result : XProg n N (Int × List UInt8)) FdPost v := by
  simp only [xReadPipe, call_bind]
  rintro _ v ⟨rfl, rfl⟩
  rw [hx]
  rintro _ v₁ ⟨l, hlock, rfl⟩ koa v₂ rfl
  cases koa with
  | none =>
    rintro _ v₃ rfl
    rw [FdLocks.unlock_lock hlock]
    exact wp_quiet ⟨trivial, fun _ => trivial⟩ hl
  | some koa =>
    refine wp_sentinel_fd hlock ?_ hl
    refine all_bind (quiet_beginSpeculative koa _ _ result) fun b => ?_
    simp only [finish, call_bind, op_bind, pure_eq, ret_bind]
    repeat' first | exact trivial | refine all_op trivial fun _ => ?_ | split

theorem xRecvmsg_fd (fd : Nat) (lens : List Nat) (flags : Int) (result : Option Nat)
    (hx : v.xactstate = .retryable) (hl : v.locks.Released) :
    wp fdStep (xRecvmsg fd lens flags result : XProg n N RecvReply) FdPost v := by
  simp only [xRecvmsg, call_bind]
  rintro _ v ⟨rfl, rfl⟩
  rw [hx]
  rintro _ v₁ ⟨l, hlock, rfl⟩ koa v₂ rfl
  cases koa with
  | none =>
    rintro _ v₃ rfl
    rw [FdLocks.unlock_lock hlock]
    exact wp_quiet ⟨trivial, fun _ => trivial⟩ hl
  | some koa =>
    refine wp_sentinel_fd hlock ?_ hl
    refine all_bind (quiet_beginSpeculative koa _ _ result) fun b => ?_
    simp only [finish, call_bind, op_bind, pure_eq, ret_bind]
    repeat' first | exact trivial | refine all_op trivial fun _ => ?_ | split

theorem fdPost_internal : FdPost (.error .internalError : Except Stop α) v := fun h => absurd rfl h

theorem wp_acquireNew_fd {koa : Fin N} {f : Unit → XProg n N α} (h : wp fdStep (f ()) FdPost v) :
    wp fdStep (acquireNew koa >>= f) FdPost v := by
  apply wp_bind
  simp only [acquireNew, call_bind]
  rintro s v rfl xret v rfl
  dsimp only
  split
  · exact fdPost_internal
  · exact h

theorem wp_allocArgs_fd {size : UInt32} {f : Unit → XProg n N α} (h : wp fdStep (f ()) FdPost v) :
    wp fdStep (allocArgs size >>= f) FdPost v := by
  apply wp_bind
  simp only [allocArgs, call_bind]
  rintro ok v rfl
  cases ok with
  | false => exact fdPost_internal
  | true => exact h

theorem wp_openRegister_fd {fildes : Nat} {koa : Fin N} {result : Option Nat}
    {f : Unit → XProg n N α} (h : wp fdStep (f ()) FdPost v) :
    wp fdStep (xOpenRegister fildes koa result >>= f) FdPost v := by
  apply wp_bind
  simp only [xOpenRegister, allocArgs, call_bind, op_bind]
  rintro ok v rfl
  cases ok with
  | false => exact fdPost_internal
  | true =>
    rintro _ v rfl
    exact h

theorem wp_unlock_fd {fildes : Nat} {l : FdLocks} {p : XProg n N α} {v' : FdView N}
    (hlock : v.locks.lock fildes = some l) (hl : v.locks.Released) (hv : v'.locks = l)
    (hp : All (fun _ => Instr.Quiet) p) :
    wp fdStep (call (.unlockFd fildes) >>= fun _ => p) FdPost v' := by
  rintro _ v'' rfl
  refine wp_quiet hp ?_
  show (v'.locks.unlock fildes).Released
  rw [hv, FdLocks.unlock_lock hlock]
  exact hl

theorem xSocket_fd (domain : Int) (type : SockType) (protocol : Int) (result : Option Nat)
    (hx : v.xactstate = .retryable) (hl : v.locks.Released) :
    wp fdStep (xSocket domain type protocol result : XProg n N Int) FdPost v := by
  cases type with
  | stream => exact wp_quiet ⟨trivial, fun _ => trivial⟩ hl
  | dgram =>
    simp only [xSocket, call_bind]
    rintro _ v ⟨rfl, rfl⟩
    rw [hx]
    rintro fildes v rfl
    cases fildes with
    | error e => exact wp_quiet ⟨trivial, fun _ => trivial⟩ hl
    | ok fildes =>
      rintro koa v₁ h₁ _ v₂ ⟨l, hlock, rfl⟩ _ v₃ h₃
      obtain rfl := h₃ rfl
      have hlock : v.locks.lock fildes = some l := (congrArg (FdLocks.lock · fildes) h₁) ▸ hlock
      refine wp_acquireNew_fd (wp_allocArgs_fd ?_)
      rintro _ v₄ rfl
      exact wp_unlock_fd hlock hl rfl ⟨trivial, fun _ => trivial⟩

theorem FdLocks.unlock_both {l l₁ l₂ : FdLocks} {a b : Nat} (hl : l.Released)
    (h₁ : l.lock a = some l₁) (h₂ : l₁.lock b = some l₂) :
    ((l₂.unlock a).unlock b).Released ∧ ((l₂.unlock b).unlock a).Released := by
  refine ⟨?_, by rw [unlock_lock h₂, unlock_lock h₁]; exact hl⟩
  obtain ⟨ha, rfl⟩ := lock_eq_some h₁
  obtain ⟨hb, rfl⟩ := lock_eq_some h₂
  have hnd : [a, b].Nodup := by
    have hne : b ≠ a := fun h => hb (h ▸ Finset.mem_insert_self _ _)
    simpa using hne.symm
  have hin : ∀ fd ∈ [a, b], fd ∈ (⟨insert b (insert a l.held), l.misused⟩ : FdLocks).held := by
    simp
  have hall := unlockAll_eq hnd hin
  show (unlockAll _ [a, b]).Released
  rw [hall, hl.1]
  exact ⟨by simp [Finset.pair_comm], hl.2⟩

theorem wp_lockBoth {fd0 fd1 : Nat} {f : Unit → XProg n N α} {Q : Except Stop α → FdView N → Prop}
    (hl : v.locks.Released) (h : ∀ l, ((l.unlock fd0).unlock fd1).Released →
      wp fdStep (f ()) Q { v with locks := l }) :
    wp fdStep (lockBoth fd0 fd1 >>= f) Q v := by
  apply wp_bind
  unfold lockBoth
  split
  · rintro _ _ ⟨l₁, h₁, rfl⟩ _ _ ⟨l₂, h₂, rfl⟩
    exact h l₂ (FdLocks.unlock_both hl h₁ h₂).1
  · rintro _ _ ⟨l₁, h₁, rfl⟩ _ _ ⟨l₂, h₂, rfl⟩
    exact h l₂ (FdLocks.unlock_both hl h₁ h₂).2

theorem xPipe_fd (result : Option Nat) (hx : v.xactstate = .retryable) (hl : v.locks.Released) :
    wp fdStep (xPipe result : XProg n N (Int × Option (Nat × Nat))) FdPost v := by
  simp only [xPipe, call_bind]
  rintro _ v ⟨rfl, rfl⟩
  rw [hx]
  rintro fildes v rfl
  cases fildes with
  | error e => exact wp_quiet ⟨trivial, fun _ => trivial⟩ hl
  | ok fildes =>
    obtain ⟨fd0, fd1⟩ := fildes
    apply wp_bind
    simp only [pipeKoas, call_bind]
    rintro koa0 v₁ h₁ koa1 v₂ h₂
    have hl₂ : v₂.locks.Released := by
      have h : v₂.locks = v.locks := h₂.trans h₁
      rw [h]
      exact hl
    refine wp_lockBoth hl₂ fun l hrel => ?_
    rintro _ v₃ h₃ _ v₄ h₄
    obtain rfl := h₄ rfl
    obtain rfl := h₃ rfl
    refine wp_acquireNew_fd (wp_acquireNew_fd (wp_allocArgs_fd ?_))
    rintro _ v₅ rfl _ v₆ rfl _ v₇ rfl
    exact wp_quiet ⟨trivial, fun _ => trivial⟩ hrel

/-- a list of descriptors and one more are locked: the list with that one at its end is unlocked -/
theorem FdLocks.unlockAll_append {l l₁ l₂ : FdLocks} {fds : List Nat} {fd : Nat} (hl : l.Released)
    (h₁ : l.lockAll fds = some l₁) (h₂ : l₁.lock fd = some l₂) :
    fd ∉ fds ∧ (l₂.unlockAll (fds ++ [fd])).Released ∧ ((l₂.unlock fd).unlockAll fds).Released := by
  have hfd : fd ∉ fds := by
    obtain ⟨-, -, rfl⟩ := lockAll_eq_some h₁
    obtain ⟨hfd, -⟩ := lock_eq_some h₂
    intro hm
    exact hfd (Finset.mem_union_right _ (List.mem_toFinset.mpr hm))
  refine ⟨hfd, ?_, by rw [unlock_lock h₂, unlockAll_lockAll h₁]; exact hl⟩
  obtain ⟨hnd, -, rfl⟩ := lockAll_eq_some h₁
  obtain ⟨-, rfl⟩ := lock_eq_some h₂
  rw [unlockAll_eq (List.nodup_append.mpr ⟨hnd, by simp, by
    intro a ha b hb
    rw [List.mem_singleton.mp hb]
    exact fun h => hfd (h ▸ ha)⟩) (by
    intro x hx
    rcases List.mem_append.mp hx with hx | hx
    · exact Finset.mem_insert_of_mem (Finset.mem_union_right _ (List.mem_toFinset.mpr hx))
    · rw [List.mem_singleton.mp hx]
      exact Finset.mem_insert_self _ _), hl.1]
  refine ⟨?_, hl.2⟩
  rw [Finset.sdiff_eq_empty_iff_subset]
  intro x hx
  simpa [or_comm] using hx

theorem xOpen_fd (pathname : Path) (flags : OpenFlags) (result : Option Nat)
    (hx : v.xactstate = .retryable) (hl : v.locks.Released) :
    wp fdStep (xOpen pathname flags result : XProg n N Int) FdPost v := by
  simp only [xOpen, call_bind]
  rintro _ v ⟨rfl, rfl⟩
  rw [hx]
  rintro _ v rfl inode v rfl
  dsimp only
  split
  · exact wp_quiet ⟨trivial, fun _ => ⟨trivial, fun _ => trivial⟩⟩ hl
  · rintro fildes v rfl
    cases fildes with
    | error e => exact wp_quiet ⟨trivial, fun _ => ⟨trivial, fun _ => trivial⟩⟩ hl
    | ok fildes =>
      rintro koa v rfl
      cases koa with
      | some koa =>
        rintro _ _ ⟨l₁, h₁, rfl⟩ _ _ ⟨l₂, h₂, rfl⟩ _ v₃ h₃
        obtain rfl := h₃ rfl
        obtain ⟨hout, hadd, hback⟩ := FdLocks.unlockAll_append hl h₁ h₂
        rintro s _ rfl xret _ rfl
        dsimp only
        split
        · -- busy: the descriptor is detached again, and the list is as it was
          rintro _ _ rfl _ v₄ h₄ _ _ rfl _ _ rfl _ _ rfl
          obtain ⟨hlocks, hfds⟩ := h₄ rfl
          intro _
          show ((v₄.locks.unlock fildes).unlockAll (v₄.fds koa)).Released
          rw [hlocks, hfds (v.fds koa) (by simp) hout (by simp)]
          exact hback
        · refine wp_openRegister_fd ?_
          rintro _ _ rfl _ _ rfl
          refine wp_quiet ⟨trivial, fun _ => trivial⟩ ?_
          show (l₂.unlockAll (Function.update v.fds koa (v.fds koa ++ [fildes]) koa)).Released
          rw [Function.update_self]
          exact hadd
      | none =>
        rintro koa v₁ h₁ _ v₂ ⟨l, hlock, rfl⟩ _ v₃ h₃
        obtain rfl := h₃ rfl
        have hlock : v.locks.lock fildes = some l := (congrArg (FdLocks.lock · fildes) h₁) ▸ hlock
        refine wp_acquireNew_fd (wp_openRegister_fd ?_)
        exact wp_unlock_fd hlock hl rfl ⟨trivial, fun _ => ⟨trivial, fun _ => trivial⟩⟩

theorem xCreateIsolate_fd {inode : Inode} {f : Unit → XProg n N α} (hl : v.locks.Released)
    (h : wp fdStep (f ()) FdPost v) : wp fdStep (xCreateIsolate inode >>= f) FdPost v := by
  apply wp_bind
  simp only [xCreateIsolate, call_bind]
  rintro koa v rfl
  cases koa with
  | none => exact h
  | some koaOld =>
    simp only [xCreateCase2a, call_bind]
    rintro _ _ ⟨l, hlock, rfl⟩ s _ rfl xret _ rfl
    have hsame : ({ v with locks := l.unlockAll (v.fds koaOld) } : FdView N) = v := by
      rw [FdLocks.unlockAll_lockAll hlock]
    dsimp only
    split
    · rintro _ _ rfl _ _ rfl
      rw [hsame]
      exact fun _ => hl
    · rintro _ _ rfl
      rw [hsame]
      exact h

theorem xCreate_fd (pathname : Path) (result : Option Nat)
    (hx : v.xactstate = .retryable) (hl : v.locks.Released) :
    wp fdStep (xCreate pathname result : XProg n N Int) FdPost v := by
  have hcase1 : wp fdStep (xCreateCase1 pathname result : XProg n N Int) FdPost v := by
    simp only [xCreateCase1, call_bind]
    rintro fildes v rfl
    cases fildes with
    | error e => exact wp_quiet ⟨trivial, fun _ => ⟨trivial, fun _ => trivial⟩⟩ hl
    | ok fildes =>
      rintro inode v rfl koa v₁ h₁ _ v₂ ⟨l, hlock, rfl⟩ _ v₃ h₃
      obtain rfl := h₃ rfl
      have hlock : v.locks.lock fildes = some l := (congrArg (FdLocks.lock · fildes) h₁) ▸ hlock
      refine wp_acquireNew_fd (wp_allocArgs_fd ?_)
      rintro _ v₄ rfl
      exact wp_unlock_fd hlock hl rfl ⟨trivial, fun _ => ⟨trivial, fun _ => trivial⟩⟩
  have hcase2 : ∀ inode, wp fdStep (xCreateCase2 pathname inode result : XProg n N Int)
      FdPost v := by
    intro inode
    simp only [xCreateCase2, call_bind]
    refine xCreateIsolate_fd hl ?_
    rintro temp v rfl renamed v rfl fildes v rfl
    cases fildes with
    | error e =>
      refine wp_quiet ?_ hl
      exact ⟨trivial, fun _ => ⟨trivial, fun _ => ⟨trivial, fun _ => trivial⟩⟩⟩
    | ok fildes =>
      rintro inode v rfl koa v₁ h₁ _ v₂ ⟨l, hlock, rfl⟩ _ v₃ h₃
      obtain rfl := h₃ rfl
      have hlock : v.locks.lock fildes = some l := (congrArg (FdLocks.lock · fildes) h₁) ▸ hlock
      refine wp_acquireNew_fd (wp_allocArgs_fd ?_)
      rintro _ v₄ rfl _ v₅ rfl
      exact wp_unlock_fd hlock hl rfl ⟨trivial, fun _ => ⟨trivial, fun _ => trivial⟩⟩
  simp only [xCreate, call_bind]
  rintro _ v ⟨rfl, rfl⟩
  rw [hx]
  rintro _ v rfl inode v rfl
  dsimp only
  split
  · exact hcase1
  · exact hcase2 inode

end

/-! ## calls that do not always -/

section
variable {m m' : XMach T n N} {l : FdLocks}

theorem FdLocks.lock_free (fd : Nat) : FdLocks.free.lock fd = some ⟨{fd}, false⟩ := by
  simp [lock, free]

theorem FdLocks.not_released_unlock (fd : Nat) : ¬ (FdLocks.free.unlock fd).Released := by
  simp [unlock, free, Released]

theorem lockHandle_lockFd {fd : Nat} {b : Unit} {σ : XMach T n N × FdLocks}
    (h : lockHandle (.lockFd fd : Instr n N _) (m, l) = some (b, σ)) :
    ∃ l', l.lock fd = some l' ∧ σ = (m, l') := by
  obtain ⟨l', hl, h2⟩ := Option.map_eq_some_iff.mp h
  cases h2
  exact ⟨l', hl, rfl⟩

theorem lockHandle_lookupFd2koa {fd : Nat} {b : Option (Fin N)} {σ : XMach T n N × FdLocks}
    (h : lockHandle (.lookupFd2koa fd : Instr n N _) (m, l) = some (b, σ)) :
    b = m.world.koamgr.map fd ∧ σ = (m, l) := by
  cases h
  exact ⟨rfl, rfl⟩

theorem lockHandle_getSentinel {k : Fin N} {s : Fin n} {σ : XMach T n N × FdLocks}
    (h : lockHandle (.getSentinel k : Instr n N _) (m, l) = some (s, σ)) :
    (m.world.koamgr.koa k).sentinel = some s ∧ σ = (m, l) := by
  obtain ⟨⟨s', m₁⟩, h1, h2⟩ := Option.map_eq_some_iff.mp h
  cases h2
  simp only [handle, Option.map_eq_some_iff] at h1
  obtain ⟨s', hs, h3⟩ := h1
  cases h3
  exact ⟨hs, rfl⟩

/-- the response of `txc_sentinel_tryacquire`, and what it leaves alone -/
theorem lockHandle_tryacquire {k : Fin N} {s : Fin n} {flags : UInt32} {r : Int}
    {σ : XMach T n N × FdLocks} (hs : (m.world.koamgr.koa k).sentinel = some s)
    (h : lockHandle (.tryacquire s flags : Instr n N _) (m, l) = some (r, σ)) :
    (r = rBusysentinel ↔ sentinelBusy m k flags = true) ∧
      σ.1.world.koamgr.koas = m.world.koamgr.koas ∧ σ.1.world.kernel = m.world.kernel ∧
      σ.1.world.answers.faults = m.world.answers.faults ∧
      σ.1.txd.bufferLinear = m.txd.bufferLinear ∧ σ.2 = l := by
  obtain ⟨⟨r', m₁⟩, h1, h2⟩ := Option.map_eq_some_iff.mp h
  cases h2
  simp only [handle, Option.map_eq_some_iff] at h1
  obtain ⟨⟨r', mgr, txd⟩, h1, h2⟩ := h1
  cases h2
  refine ⟨?_, rfl, rfl, rfl, linear_tryacquire h1, rfl⟩
  rw [sentinelBusy, hs]
  dsimp only
  rw [h1]
  exact decide_eq_true_iff.symm

/-- what a deferred call does after the sentinel is acquired: it unlocks the descriptor once more -/
def unlockAgain (size : UInt32) (commit : XAction N) (order : Int32) (fd : Nat)
    (result : Option Nat) : XProg n N Int := do
  allocArgs size
  call (.registerCommitAction commit result order)
  call (.unlockFd fd)
  finish result 0 0

/-- `x_close`, `x_fsync` and `x_fdatasync` in a retryable transaction -/
def lockedTwice (size : UInt32) (commit : Fin N → XAction N) (order : Int32) (fd : Nat)
    (result : Option Nat) : XProg n N Int := do
  call (.lockFd fd)
  match ← call (.lookupFd2koa fd) with
  | none =>
    call (.unlockFd fd)
    finish result (-1) .ebadf
  | some koa =>
    let sentinel ← call (.getSentinel koa)
    let xret ← call (.tryacquire sentinel sentinelAcquireonretry)
    call (.unlockFd fd)
    if xret = rBusysentinel then .stop (.abort .busysentinel)
    else unlockAgain size (commit koa) order fd result

theorem lockHandle_quiet {β : Type} {i : Instr n N β} {b : β} {s s' : XMach T n N × FdLocks}
    (hi : i.Quiet) (h : lockHandle i s = some (b, s')) : s'.2 = s.2 := by
  cases i with
  | lockFd | unlockFd | lockFdsRefbyKoa | unlockFdsRefbyKoa | attachFd | detachFd | attachKoa
  | detachKoa => exact hi.elim
  | _ =>
    simp only [lockHandle, Option.map_eq_some_iff] at h
    obtain ⟨⟨b', m'⟩, h1, h2⟩ := h
    cases h2
    rfl

theorem wp_quiet_exact {α : Type} {p : XProg n N α} {Q : Except Stop α → XMach T n N × FdLocks → Prop}
    (hp : All (fun _ => Instr.Quiet) p) {s : XMach T n N × FdLocks}
    (hQ : ∀ r s', s'.2 = s.2 → Q r s') : wp (stepsOf lockHandle) p Q s := by
  have hJ : ∀ {β : Type} (i : Instr n N β) (b : β) (s₁ s₂ : XMach T n N × FdLocks), i.Quiet →
      stepsOf lockHandle i b s₁ s₂ → s₁.2 = s.2 → s₂.2 = s.2 :=
    fun i b s₁ s₂ hi h hs => (lockHandle_quiet hi h).trans hs
  exact wp_mono (fun r s' h => hQ r s' h) (wp_all hJ hp rfl)

theorem quiet_finish (result : Option Nat) (r : Int) (e : Errno) :
    All (fun _ => Instr.Quiet) (finish result r e : XProg n N Int) := ⟨trivial, fun _ => trivial⟩

theorem lockedTwice_exact (size : UInt32) (commit : Fin N → XAction N) (order : Int32) (fd : Nat)
    (result : Option Nat) (m : XMach T n N) :
    wp (stepsOf lockHandle) (lockedTwice size commit order fd result : XProg n N Int)
      (fun r s => r ≠ .error .internalError → (s.2.Released ↔
        ∀ k, m.world.koamgr.map fd = some k → sentinelBusy m k sentinelAcquireonretry = true))
      (m, .free) := by
  simp only [lockedTwice, call_bind]
  intro _ s₁ h₁
  obtain ⟨l, hl, rfl⟩ := lockHandle_lockFd h₁
  intro koa s₂ h₂
  obtain ⟨rfl, rfl⟩ := lockHandle_lookupFd2koa h₂
  cases hk : m.world.koamgr.map fd with
  | none =>
    intro _ s₃ h₃
    cases h₃
    refine wp_quiet_exact (quiet_finish result _ _) fun r s hs _ => ?_
    rw [hs, FdLocks.unlock_lock hl]
    exact iff_of_true FdLocks.released_free fun k h => nomatch h
  | some koa =>
    intro s s₃ h₃
    obtain ⟨hs, rfl⟩ := lockHandle_getSentinel h₃
    intro xret s₄ h₄
    obtain ⟨hbusy, -, -, -, -, hlocks⟩ := lockHandle_tryacquire hs h₄
    intro _ s₅ h₅
    cases h₅
    have hfree : s₄.2.unlock fd = .free := by
      rw [hlocks, FdLocks.unlock_lock hl]
    dsimp only
    split
    · rename_i hb
      intro _
      rw [hfree]
      refine iff_of_true FdLocks.released_free fun k h => ?_
      obtain rfl : koa = k := Option.some.inj h
      exact hbusy.mp hb
    · rename_i hb
      simp only [unlockAgain, allocArgs, call_bind, op_bind]
      intro ok s₆ h₆
      have hl₆ := lockHandle_quiet (i := (.linearMalloc size : Instr n N Bool)) trivial h₆
      cases ok with
      | false => exact fun h => absurd rfl h
      | true =>
        intro _ s₇ h₇
        have hl₇ := lockHandle_quiet
          (i := (.registerCommitAction (commit koa) result order : Instr n N Unit)) trivial h₇
        intro _ s₈ h₈
        cases h₈
        refine wp_quiet_exact (quiet_finish result _ _) fun r s hs _ => ?_
        refine iff_of_false ?_ fun h => hb (hbusy.mpr (h koa rfl))
        rw [hs, hl₇, hl₆, hfree]
        exact FdLocks.not_released_unlock fd

theorem sysDup_isOk (k : Kernel) (oldfd fd : Nat) :
    (sysDup k oldfd fd).1.isOk = (k.fds oldfd).isSome := by
  unfold sysDup
  split
  · rename_i hd
    exact (congrArg Option.isSome hd).symm
  · rename_i hd
    exact (congrArg Option.isSome hd).symm

/-- `dup` fails exactly when the environment lets it fail or the descriptor is not open -/
theorem lockHandle_dup {oldfd : Nat} {r : Except Errno Nat} {σ : XMach T n N × FdLocks}
    (h : lockHandle (.libcDup oldfd : Instr n N _) (m, l) = some (r, σ)) :
    (r.isOk = false ↔ dupFails m oldfd = true) ∧ σ.1.world.koamgr = m.world.koamgr ∧
      σ.1.txd = m.txd ∧ σ.2 = l := by
  cases h
  refine ⟨?_, syscall_koamgr m _, syscall_txd m _, rfl⟩
  unfold syscall dupFails
  dsimp only
  cases hf : m.world.answers.faults.head?.join with
  | some e => exact iff_of_true rfl rfl
  | none =>
    dsimp only
    rw [sysDup_isOk]
    cases m.world.kernel.fds oldfd with
    | none => exact iff_of_true rfl rfl
    | some d => exact iff_of_false (fun h => nomatch h) fun h => nomatch h

theorem lockHandle_linearMalloc {size : UInt32} {ok : Bool} {σ : XMach T n N × FdLocks}
    (h : lockHandle (.linearMalloc size : Instr n N _) (m, l) = some (ok, σ)) :
    (ok = false ↔ bufferLinearMalloc m.txd.bufferLinear size = none) ∧
      σ.1.world.koamgr = m.world.koamgr ∧ σ.2 = l := by
  simp only [lockHandle, Option.map_eq_some_iff, handle] at h
  obtain ⟨⟨ok', m'⟩, h1, h2⟩ := h
  cases h2
  split at h1
  · rename_i hm
    cases h1
    exact ⟨iff_of_true rfl hm, rfl, rfl⟩
  · rename_i hm
    cases h1
    refine ⟨iff_of_false (fun h => by cases h) ?_, rfl, rfl⟩
    rw [hm]
    intro h
    cases h

theorem lockHandle_attach_exact {k : Fin N} {fd : Nat} {b : Unit} {s s' : XMach T n N × FdLocks}
    (h : lockHandle (.attachFd k fd false : Instr n N _) s = some (b, s'))
    (hk : 0 ≤ (s.1.world.koamgr.koa k).fdRefcnt) :
    (s'.1.world.koamgr.koa k).fds = (s.1.world.koamgr.koa k).fds ++ [fd] ∧ s'.2 = s.2 := by
  obtain ⟨⟨u, m'⟩, h1, h2⟩ := Option.bind_eq_some_iff.mp h
  cases h2
  simp only [handle, Option.map_eq_some_iff] at h1
  obtain ⟨mgr, h1, h2⟩ := h1
  cases h2
  exact ⟨fds_attachFd h1 hk, rfl⟩

theorem xDup_exact (oldfd : Nat) (result : Option Nat) (m : XMach T n N)
    (hx : m.world.xactstate = .retryable) (hm : FdrefOk m.world.koamgr) :
    wp (stepsOf lockHandle) (xDup oldfd result : XProg n N Int)
      (fun r s => r ≠ .error .internalError →
        (s.2.Released ↔ (FdCall.file (.dup oldfd)).Releases m)) (m, .free) := by
  simp only [xDup, call_bind]
  intro state s₀ h₀
  obtain ⟨rfl, rfl⟩ : state = .retryable ∧ s₀ = (m, .free) := by
    cases h₀
    exact ⟨hx, rfl⟩
  intro _ s₁ h₁
  obtain ⟨l, hl, rfl⟩ := lockHandle_lockFd h₁
  intro koa s₂ h₂
  obtain ⟨rfl, rfl⟩ := lockHandle_lookupFd2koa h₂
  cases hk : m.world.koamgr.map oldfd with
  | none =>
    refine wp_quiet_exact (quiet_finish result _ _) fun r s hs _ => ?_
    refine iff_of_false ?_ ?_
    · rw [FdLocks.lock_free] at hl
      cases hl
      rw [hs]
      exact fun h => Finset.singleton_ne_empty _ h.1
    · rintro ⟨k, hk', -⟩
      cases hk.symm.trans hk'
  | some koa =>
    intro _ s₃ h₃
    cases h₃
    rw [FdLocks.unlock_lock hl]
    intro _ s₄ h₄
    obtain ⟨l₄, hall, h₄⟩ := Option.map_eq_some_iff.mp h₄
    cases h₄
    intro koa2 s₅ h₅
    obtain ⟨rfl, rfl⟩ := lockHandle_lookupFd2koa h₅
    dsimp only
    rw [if_neg (fun h => h hk)]
    intro s s₆ h₆
    obtain ⟨hs, rfl⟩ := lockHandle_getSentinel h₆
    intro xret s₇ h₇
    obtain ⟨hbusy, hkoas, hker, hfaults, hlin, hlocks⟩ := lockHandle_tryacquire hs h₇
    have hreleases : (FdCall.file (.dup oldfd)).Releases m ↔
        sentinelBusy m koa sentinelAcquireonretry = true ∨ dupFails m oldfd = true ∨
          bufferLinearMalloc m.txd.bufferLinear dupArgsSize = none := by
      constructor
      · rintro ⟨k, hk', h⟩
        obtain rfl : koa = k := Option.some.inj (hk.symm.trans hk')
        exact h
      · exact fun h => ⟨koa, hk, h⟩
    rw [hreleases]
    obtain ⟨m₇, l₇⟩ := s₇
    obtain rfl : l₇ = l₄ := hlocks
    have hkoa : m₇.world.koamgr.koa = m.world.koamgr.koa := congrArg Koas.koa hkoas
    have hdup : dupFails m₇ oldfd = dupFails m oldfd := by
      show (m₇.world.answers.faults.head?.join.isSome || _) = _
      rw [hfaults, hker]
      rfl
    have hlin : m₇.txd.bufferLinear = m.txd.bufferLinear := hlin
    -- the locks of the KOA's descriptors are released, unless its list has changed
    have hback : ∀ {σ : XMach T n N × FdLocks}, σ.1.world.koamgr.koa koa = m.world.koamgr.koa koa →
        σ.2 = l₇ → (σ.2.unlockAll (σ.1.world.koamgr.koa koa).fds).Released := by
      intro σ h1 h2
      rw [h1, h2, FdLocks.unlockAll_lockAll hall]
      exact FdLocks.released_free
    dsimp only
    split
    · rename_i hb
      intro _ s₈ h₈
      cases h₈
      intro _
      exact iff_of_true (hback (congrFun hkoa koa) rfl) (Or.inl (hbusy.mp hb))
    · rename_i hb
      have hnb : ¬ sentinelBusy m koa sentinelAcquireonretry = true := fun h => hb (hbusy.mpr h)
      intro r s₈ h₈
      obtain ⟨hfail, hk₈, ht₈, hl₈⟩ := lockHandle_dup h₈
      rw [hdup] at hfail
      obtain ⟨m₈, l₈⟩ := s₈
      obtain rfl : l₈ = l₇ := hl₈
      have hkoa₈ : m₈.world.koamgr.koa koa = m.world.koamgr.koa koa := by
        rw [← hkoa]
        exact congrArg (fun k => k.koa koa) hk₈
      cases r with
      | error e =>
        intro _ s₉ h₉
        cases h₉
        refine wp_quiet_exact (quiet_finish result _ _) fun r s hs _ => ?_
        rw [hs]
        exact iff_of_true (hback hkoa₈ rfl) (Or.inr (Or.inl (hfail.mp rfl)))
      | ok fildes =>
        have hnd : ¬ dupFails m oldfd = true := fun h => by cases hfail.mpr h
        intro ok s₉ h₉
        obtain ⟨hroom, hk₉, hl₉⟩ := lockHandle_linearMalloc h₉
        obtain ⟨m₉, l₉⟩ := s₉
        obtain rfl : l₉ = l₈ := hl₉
        have hroom : ok = false ↔ bufferLinearMalloc m.txd.bufferLinear dupArgsSize = none := by
          have ht : m₈.txd.bufferLinear = m.txd.bufferLinear :=
            (congrArg (fun t => t.bufferLinear) ht₈).trans hlin
          rw [← ht]
          exact hroom
        have hkoa₉ : m₉.world.koamgr.koa koa = m.world.koamgr.koa koa :=
          (congrArg (fun k => k.koa koa) hk₉).trans hkoa₈
        cases ok with
        | false =>
          intro _ s₁₀ h₁₀
          have hk₁₀ := (handle_koas (i := (.libcClose fildes : Instr n N _)) (m := m₉) rfl id).1
          cases h₁₀
          intro _ s₁₁ h₁₁
          cases h₁₁
          refine wp_quiet_exact (quiet_finish result _ _) fun r s hs _ => ?_
          rw [hs]
          refine iff_of_true (hback ?_ rfl) (Or.inr (Or.inr (hroom.mp rfl)))
          exact (congrFun (congrArg Koas.koa hk₁₀) koa).trans hkoa₉
        | true =>
          have hnr : ¬ bufferLinearMalloc m.txd.bufferLinear dupArgsSize = none :=
            fun h => by cases hroom.mpr h
          intro _ s₁₀ h₁₀
          obtain ⟨hfds, hl₁₀⟩ := lockHandle_attach_exact h₁₀ (by rw [hkoa₉]; exact hm koa)
          intro _ s₁₁ h₁₁
          cases h₁₁
          intro _ s₁₂ h₁₂
          have hl₁₂ := lockHandle_quiet (i := (.registerUndoAction (.dupUndo fildes koa) result
            regularActionOrder : Instr n N Unit)) trivial h₁₂
          refine wp_quiet_exact (quiet_finish result _ _) fun r s hs _ => ?_
          refine iff_of_false ?_ ?_
          · have hnow : s₁₀.2.unlockAll (s₁₀.1.world.koamgr.koa koa).fds
                = FdLocks.free.unlock fildes := by
              rw [hfds, hl₁₀, hkoa₉, FdLocks.unlockAll, List.foldl_append]
              show (l₉.unlockAll _).unlock fildes = _
              rw [FdLocks.unlockAll_lockAll hall]
            rw [hs, hl₁₂]
            show ¬ (s₁₀.2.unlockAll _).Released
            rw [hnow]
            exact FdLocks.not_released_unlock fildes
          · rintro (h | h | h)
            · exact hnb h
            · exact hnd h
            · exact hnr h

end

/-! ## all calls -/

section
variable {m m' : XMach T n N} {l : FdLocks}

theorem wp_drop {σ α : Type} {R : StepRel (Instr n N) σ} {p : XProg n N α} {P : Prop} {L : σ → Prop}
    {s : σ} (h : wp R p (fun r s' => r ≠ .error .internalError → (L s' ↔ P)) s) :
    wp R (p >>= fun _ => pure () : XProg n N Unit)
      (fun r s' => r ≠ .error .internalError → (L s' ↔ P)) s := by
  apply wp_bind
  refine wp_mono ?_ h
  intro r s' hr
  cases r with
  | ok a => exact fun _ => hr fun h => nomatch h
  | error e => exact fun he => hr fun h => he (congrArg _ (Except.error.inj h))

/-- from the views of the states to the states, for a call that always releases its locks -/
theorem released_of_wp {α : Type} {p : XProg n N α} {r : Except Stop Unit} {P : Prop}
    (hp : wp fdStep p FdPost (fdView (m, .free))) (hP : P) (hm : FdrefOk m.world.koamgr)
    (hrun : run lockHandle (p >>= fun _ => pure ()) (m, .free) = some (r, (m', l)))
    (hr : r ≠ .error .internalError) : l.Released ↔ P := by
  have hR : ∀ {β : Type} (i : Instr n N β) (b : β) (s s' : XMach T n N × FdLocks),
      FdrefOk s.1.world.koamgr → lockHandle i s = some (b, s') →
      fdStep i b (fdView s) (fdView s') ∧ FdrefOk s'.1.world.koamgr :=
    fun i b s s' hs h => lockHandle_fdStep h hs
  have hq : wp fdStep p (fun r v => r ≠ .error .internalError → (v.locks.Released ↔ P))
      (fdView (m, .free)) :=
    wp_mono (fun r v h hr => iff_of_true (h hr) hP) hp
  exact (wp_run (J := fun s => FdrefOk s.1.world.koamgr) hR hm (wp_drop hq) hrun).1 hr

theorem released_of_exact {α : Type} {p : XProg n N α} {r : Except Stop Unit} {P : Prop}
    (hp : wp (stepsOf lockHandle) p (fun r s => r ≠ .error .internalError → (s.2.Released ↔ P))
      (m, .free))
    (hrun : run lockHandle (p >>= fun _ => pure ()) (m, .free) = some (r, (m', l)))
    (hr : r ≠ .error .internalError) : l.Released ↔ P :=
  wp_stepsOf (wp_drop hp) hrun hr

theorem xClose_exact (fildes : Nat) (result : Option Nat) (hx : m.world.xactstate = .retryable) :
    wp (stepsOf lockHandle) (xClose fildes result : XProg n N Int)
      (fun r s => r ≠ .error .internalError → (s.2.Released ↔
        ∀ k, m.world.koamgr.map fildes = some k →
          sentinelBusy m k sentinelAcquireonretry = true)) (m, .free) := by
  simp only [xClose, call_bind]
  intro state s₀ h₀
  obtain ⟨rfl, rfl⟩ : state = .retryable ∧ s₀ = (m, .free) := by
    cases h₀
    exact ⟨hx, rfl⟩
  exact lockedTwice_exact closeArgsSize (.closeCommit fildes) koaDestroyActionOrder fildes result m

theorem xSync_exact (sync : Instr n N (Except Errno Unit)) (commit : XAction N) (fildes : Nat)
    (result : Option Nat) (hx : m.world.xactstate = .retryable) :
    wp (stepsOf lockHandle) (xSync sync commit fildes result : XProg n N Int)
      (fun r s => r ≠ .error .internalError → (s.2.Released ↔
        ∀ k, m.world.koamgr.map fildes = some k →
          sentinelBusy m k sentinelAcquireonretry = true)) (m, .free) := by
  simp only [xSync, call_bind]
  intro state s₀ h₀
  obtain ⟨rfl, rfl⟩ : state = .retryable ∧ s₀ = (m, .free) := by
    cases h₀
    exact ⟨hx, rfl⟩
  exact lockedTwice_exact fsyncArgsSize (fun _ => commit) regularActionOrder fildes result m

/-- **When a call releases its locks.**  In every state of a retryable transaction, a call that is
given or returns a descriptor ends, unless the process does, with no lock held and no lock
unlocked that it did not hold if and only if `FdCall.Releases` holds of the state before it. -/
theorem fd_locks_released (c : FdCall) (hc : c.OnFds) (result : Option Nat) (m m' : XMach T n N)
    (hx : m.world.xactstate = .retryable) (hm : FdrefOk m.world.koamgr) (r : Except Stop Unit)
    (l : FdLocks) (hrun : run lockHandle (c.prog result) (m, .free) = some (r, (m', l)))
    (hr : r ≠ .error .internalError) : l.Released ↔ c.Releases m := by
  have hv : (fdView (m, .free)).xactstate = .retryable := hx
  have hl : (fdView (m, .free)).locks.Released := FdLocks.released_free
  cases c with
  | file c =>
    cases c with
    | read fd nbyte =>
      have hread : wp fdStep ((XCall.read fd nbyte).prog result : XProg n N Int) FdPost
          (fdView (m, .free)) := by
        apply wp_bind
        refine wp_mono ?_ (xRead_fd fd nbyte result hv hl)
        intro r v h
        cases r with
        | ok a => exact fun _ => h fun h => nomatch h
        | error e => exact fun he => h fun h => he (congrArg _ (Except.error.inj h))
      exact released_of_wp hread trivial hm hrun hr
    | lseek fd offset whence =>
      exact released_of_wp (xLseek_fd fd offset whence result hv hl) trivial hm hrun hr
    | write fd buf flags =>
      exact released_of_wp (xWrite_fd fd buf flags result hv hl) trivial hm hrun hr
    | «open» pathname flags =>
      exact released_of_wp (xOpen_fd pathname flags result hv hl) trivial hm hrun hr
    | create pathname =>
      exact released_of_wp (xCreate_fd pathname result hv hl) trivial hm hrun hr
    | close fildes => exact released_of_exact (xClose_exact fildes result hx) hrun hr
    | dup oldfd => exact released_of_exact (xDup_exact oldfd result m hx hm) hrun hr
    | rename | unlink => exact hc.elim
  | fsync fildes => exact released_of_exact (xSync_exact _ _ fildes result hx) hrun hr
  | fdatasync fildes => exact released_of_exact (xSync_exact _ _ fildes result hx) hrun hr
  | readPipe fd nbyte =>
    exact released_of_wp (xReadPipe_fd fd nbyte result hv hl) trivial hm hrun hr
  | writePipe fd buf =>
    exact released_of_wp (xWritePipe_fd fd buf result hv hl) trivial hm hrun hr
  | sendmsg fd msg flags =>
    exact released_of_wp (xSendmsg_fd fd msg flags result hv hl) trivial hm hrun hr
  | recvmsg fd lens flags =>
    exact released_of_wp (xRecvmsg_fd fd lens flags result hv hl) trivial hm hrun hr
  | pipe => exact released_of_wp (xPipe_fd result hv hl) trivial hm hrun hr
  | socket domain type protocol =>
    exact released_of_wp (xSocket_fd domain type protocol result hv hl) trivial hm hrun hr

end

/-- a transaction in which the descriptor 3 is open -/
def openedTx : XMach Unit 8 8 := withAnswers (xBegin openedMach) smallAnswers

theorem fd_locks_released_read :
    ∃ m' l, run lockHandle ((FdCall.file (.read 3 2)).prog none) (openedTx, .free) =
        some (.ok (), (m', l)) ∧ l.Released := by
  have hrun : ((run lockHandle ((FdCall.file (.read 3 2)).prog none) (openedTx, .free)).map
      Prod.fst) = some (.ok ()) := by decide +kernel
  obtain ⟨⟨r, m', l⟩, h, hr⟩ := Option.map_eq_some_iff.mp hrun
  obtain rfl : r = .ok () := hr
  have hm : ∀ k, 0 ≤ (openedTx.world.koamgr.koa k).fdRefcnt := by decide +kernel
  exact ⟨m', l, h, (fd_locks_released (.file (.read 3 2)) trivial none openedTx m' rfl hm _ l h
    (fun h => nomatch h)).mpr trivial⟩

/-- `x_close` and `x_fsync` unlock the descriptor once more than they lock it, and `x_dup` unlocks
the new descriptor, or keeps the lock of one that has no KOA -/
theorem locks_misused :
    ((run lockHandle ((FdCall.file (.close 3)).prog none) (openedTx, .free)).map
        fun r => (r.1, r.2.2)) = some (.ok (), ⟨∅, true⟩) ∧
      ((run lockHandle ((FdCall.fsync 3).prog none) (openedTx, .free)).map
        fun r => (r.1, r.2.2)) = some (.ok (), ⟨∅, true⟩) ∧
      ((run lockHandle ((FdCall.file (.dup 3)).prog none) (openedTx, .free)).map
        fun r => (r.1, r.2.2)) = some (.ok (), ⟨∅, true⟩) ∧
      ((run lockHandle ((FdCall.file (.dup 5)).prog none) (openedTx, .free)).map
        fun r => (r.1, r.2.2)) = some (.ok (), ⟨{5}, false⟩) := by
  decide +kernel

end XCalls
