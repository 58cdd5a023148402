import XCalls.XCall.Offsets

/-!
# Calls that leave through an error exit

* `FallibleCall`   the calls that have error exits, and `fails`: whether one of these is taken;
* `compensated`    the close, the seek or the rename with which a call takes back what it has done
                   succeeds;
* `CallView`       what a call may change: the kernel, the KOAs, the linear buffer and the actions;
* `failed_call_no_effect`   a call that fails changes none of it.
-/

set_option linter.unusedSectionVars false

namespace XCalls
open Prog
variable {T : Type} [DecidableEq T] {n N : Nat}

/-! ## the calls -/

inductive FallibleCall where
  | file (c : XCall)
  | writePipe (fd : Nat) (buf : List UInt8)
  | sendmsg (fd : Nat) (msg : Msghdr) (flags : Int)

/-- the calls on files that have error exits in a retryable transaction, and take back what they
have done -/
def XCall.Fallible : XCall → Prop
  | .read _ _ => True
  | .lseek _ _ _ => True
  | .write _ _ _ => True
  | .dup _ => True
  | .open _ _ => True
  | .create _ => True
  | _ => False

def FallibleCall.Modelled : FallibleCall → Prop
  | .file c => c.Fallible
  | .writePipe _ _ => True
  | .sendmsg _ _ _ => True

/-- the call is made; `true` when it leaves through an error exit.  The value that `x_sendmsg`
returns after a success was never set, and the one of `x_write_pipe` is a size in an `int`: there
`local_result` tells. -/
def FallibleCall.fails (result : Option Nat) : FallibleCall → XProg n N Bool
  | .file c => do return (← c.prog result) = -1
  | .writePipe fd buf => do return (← xWritePipe fd buf result).2 ≠ 0
  | .sendmsg fd msg flags => do return (← xSendmsg fd msg flags result).2 ≠ 0

/-- the seek of `x_write_ovr` over the bytes that it has read, the close of `x_dup` when there is no
room for its arguments, and the second rename of `x_create` succeed -/
def compensated (c : FallibleCall) : ∀ {β : Type}, Instr n N β → β → Bool
  | _, .libcLseek _ _ _, r =>
    match c with
    | .file (.write _ _ _) => r.isOk
    | _ => true
  | _, .libcClose _, r => r.isOk
  | _, .libcRename _ newpath, r =>
    match c with
    | .file (.create pathname) => newpath ≠ pathname || r.isOk
    | _ => true
  | _, _, _ => true

/-! ## what a call may change -/

structure Koas (n N : Nat) where
  koa : Fin N → Koa n
  free : List (Fin N)
  map : Nat → Option (Fin N)
  aliasCache : UInt32 → Option (Fin N)

def KoaMgr.koas (m : KoaMgr T n N) : Koas n N := ⟨m.koa, m.free, m.map, m.aliasCache⟩

structure CallView (n N : Nat) where
  kernel : Kernel
  koas : Koas n N
  linear : BufferLinear
  commits : List (XAction N × Int32)
  undos : List (XAction N × Int32)
  xactstate : XactState
  temp : Path
  fd : Nat

def callView (m : XMach T n N) : CallView n N :=
  { kernel := m.world.kernel
    koas := m.world.koamgr.koas
    linear := m.txd.bufferLinear
    commits := others m.txd.commitActionList.entries
    undos := others m.txd.undoActionList.entries
    xactstate := m.world.xactstate
    temp := m.world.answers.temp
    fd := m.world.answers.fd }

/-- a system call that fails changes nothing, and one that succeeds does what the kernel says -/
def CallView.sys {β : Type} (v : CallView n N) (f : Kernel → Except Errno β × Kernel)
    (b : Except Errno β) (v' : CallView n N) : Prop :=
  match b with
  | .error _ => v' = v
  | .ok a => ∃ k', f v.kernel = (.ok a, k') ∧ v' = { v with kernel := k' }

/-- `v` with `size` more bytes allocated -/
def CallView.alloc (v : CallView n N) (size : UInt32) : CallView n N :=
  { v with linear := { v.linear with curLen := v.linear.curLen + size } }

/-- the steps of a call, as far as its error exits go -/
def failStep : StepRel (Instr n N) (CallView n N)
  | _, .getXactstate, b, v, v' => b = v.xactstate ∧ v' = v
  | _, .linearMalloc size, b, v, v' =>
    (b = false ∧ v' = v) ∨
      (b = true ∧ v' = v.alloc size)
  | _, .linearFree size, _, v, v' => v' = { v with linear := bufferLinearFree v.linear size }
  | _, .mktemp _, b, v, v' => b = v.temp ∧ v' = v
  | _, .libcOpen path flags, b, v, v' => ∃ file, v.sys (fun k => sysOpen k path flags file v.fd) b v'
  | _, .libcClose fd, b, v, v' => v.sys (fun k => sysClose k fd) b v'
  | _, .libcDup fd, b, v, v' => v.sys (fun k => sysDup k fd v.fd) b v'
  | _, .libcRead fd nbyte, b, v, v' => v.sys (fun k => sysRead k fd nbyte) b v'
  | _, .libcWrite fd buf, b, v, v' => v.sys (fun k => sysWrite k fd buf) b v'
  | _, .libcLseek fd offset whence, b, v, v' => v.sys (fun k => sysLseek k fd offset whence) b v'
  | _, .libcRename old new, b, v, v' => v.sys (fun k => sysRename k old new) b v'
  | _, .store _ _, _, v, v' => v' = v
  | _, .tryacquire _ _, _, v, v' => v' = v
  | _, .lockAliasCache, _, v, v' => v' = v
  | _, .unlockAliasCache, _, v, v' => v' = v
  | _, .lockFd _, _, v, v' => v' = v
  | _, .unlockFd _, _, v, v' => v' = v
  | _, .lockFdsRefbyKoa _, _, v, v' => v' = v
  | _, .unlockFdsRefbyKoa _, _, v, v' => v' = v
  | _, .path2inode _, _, v, v' => v' = v
  | _, .lookupInode _, _, v, v' => v' = v
  | _, .lookupFd2koa _, _, v, v' => v' = v
  | _, .getSentinel _, _, v, v' => v' = v
  | _, _, _, _, _ => True

section
variable {k : Kernel}

theorem sysClose_error {fd : Nat} {e : Errno} (h : (sysClose k fd).1 = .error e) :
    (sysClose k fd).2 = k := by
  unfold sysClose at h ⊢
  split
  · rfl
  · rename_i hd
    rw [hd] at h
    cases h

theorem sysDup_error {oldfd fd : Nat} {e : Errno} (h : (sysDup k oldfd fd).1 = .error e) :
    (sysDup k oldfd fd).2 = k := by
  unfold sysDup at h ⊢
  split at h
  · rfl
  · cases h

theorem sysOpen_error {path : Path} {flags : OpenFlags} {file : FileId} {fd : Nat} {e : Errno}
    (h : (sysOpen k path flags file fd).1 = .error e) : (sysOpen k path flags file fd).2 = k := by
  unfold sysOpen at h ⊢
  split
  · rename_i hf
    rw [hf] at h
    dsimp only at h ⊢
    split
    · rfl
    · rw [if_neg ‹_›] at h
      cases h
  · rename_i hf
    rw [hf] at h
    dsimp only at h ⊢
    split
    · rw [if_pos ‹_›] at h
      cases h
    · rfl

theorem sysRename_error {old new : Path} {e : Errno} (h : (sysRename k old new).1 = .error e) :
    (sysRename k old new).2 = k := by
  unfold sysRename at h ⊢
  split
  · rfl
  · rename_i hf
    rw [hf] at h
    dsimp only at h ⊢
    split
    · rfl
    · rw [if_neg ‹_›] at h
      split
      · rfl
      · rw [if_neg ‹_›] at h
        cases h

end

section
variable {m m' : XMach T n N}

theorem syscall_callView {β : Type} {f : Kernel → Except Errno β × Kernel} {b : Except Errno β}
    (herr : ∀ k e, (f k).1 = .error e → (f k).2 = k) (h : syscall m f = (b, m')) :
    (callView m).sys f b (callView m') := by
  rcases syscall_cases h with ⟨e, -, rfl, rfl⟩ | ⟨-, hb, rfl⟩
  · rfl
  · have hb := hb.symm
    cases b with
    | error e =>
      have hk := herr _ _ hb
      show callView _ = callView m
      simp only [callView]
      congr 1
    | ok a => exact ⟨_, Prod.ext hb rfl, rfl⟩

theorem handle_failStep {β : Type} {i : Instr n N β} {b : β} (h : handle i m = some (b, m')) :
    failStep i b (callView m) (callView m') := by
  cases i with
  | getXactstate | mktemp =>
    cases h
    exact ⟨rfl, rfl⟩
  | linearMalloc size =>
    simp only [handle] at h
    unfold bufferLinearMalloc at h
    split at h
    · cases h
      exact Or.inl ⟨rfl, rfl⟩
    · rename_i hm
      cases h
      split at hm
      · cases hm
      · cases hm
        exact Or.inr ⟨rfl, rfl⟩
  | linearFree | lockAliasCache | unlockAliasCache | lockFd | unlockFd | lockFdsRefbyKoa
  | unlockFdsRefbyKoa | path2inode | lookupFd2koa =>
    cases h
    rfl
  | lookupInode inode =>
    cases h
    rw [World.meet_eq]
    rfl
  | store p v =>
    cases h
    cases p <;> rfl
  | tryacquire s flags =>
    simp only [handle, Option.map_eq_some_iff] at h
    obtain ⟨⟨r, mgr, txd⟩, h1, h2⟩ := h
    cases h2
    obtain ⟨hc, hu⟩ := Prod.mk.inj (actions_tryacquire h1)
    have hl := linear_tryacquire h1
    show callView _ = callView m
    simp only [callView, hc, hu, hl]
    rfl
  | getSentinel k =>
    simp only [handle, Option.map_eq_some_iff] at h
    obtain ⟨s, -, h2⟩ := h
    cases h2
    rfl
  | libcOpen path flags =>
    exact ⟨_, syscall_callView (fun _ _ => sysOpen_error) (Option.some.inj h)⟩
  | libcClose fd => exact syscall_callView (fun _ _ => sysClose_error) (Option.some.inj h)
  | libcDup fd => exact syscall_callView (fun _ _ => sysDup_error) (Option.some.inj h)
  | libcRead fd nbyte => exact syscall_callView (fun _ _ => sysRead_error) (Option.some.inj h)
  | libcWrite fd buf => exact syscall_callView (fun _ _ => sysWrite_error) (Option.some.inj h)
  | libcLseek fd offset whence =>
    exact syscall_callView (fun _ _ => sysLseek_error) (Option.some.inj h)
  | libcRename old new => exact syscall_callView (fun _ _ => sysRename_error) (Option.some.inj h)
  | _ => trivial

end

/-! ## the exits -/

/-- with the compensations succeeding -/
def exitStep (c : FallibleCall) : StepRel (Instr n N) (CallView n N) :=
  fun i b v v' => failStep i b v v' ∧ compensated c i b = true

section
variable {c : FallibleCall} {α : Type} {v : CallView n N} {Q : Except Stop α → CallView n N → Prop}

theorem linear_back (v : CallView n N) (size : UInt32) :
    { v.alloc size with linear := bufferLinearFree (v.alloc size).linear size } = v := by
  have h : bufferLinearFree (v.alloc size).linear size = v.linear := by
    simp [bufferLinearFree, CallView.alloc]
  rw [h]
  rfl

theorem acquireFd_exit (fd : Nat) (v : CallView n N) :
    wp (exitStep c) (acquireFd fd : XProg n N Bool) (fun _ v' => v' = v) v := by
  simp only [acquireFd, call_bind, wp_op]
  intro _ v₁ h₁ koa v₂ h₂
  obtain rfl : v₂ = v := h₂.1.trans h₁.1
  cases koa with
  | none =>
    intro _ v₃ h₃
    exact h₃.1
  | some koa =>
    intro s v₃ h₃ r v₄ h₄ _ v₅ h₅
    obtain rfl : v₅ = v₂ := h₅.1.trans (h₄.1.trans h₃.1)
    dsimp only
    split <;> rfl

theorem wp_acquireFd_exit {fd : Nat} {f : Bool → XProg n N α} (he : ∀ e, Q (.error e) v)
    (hf : ∀ b, wp (exitStep c) (f b) Q v) : wp (exitStep c) (acquireFd fd >>= f) Q v := by
  refine wp_bind (wp_mono ?_ (acquireFd_exit fd v))
  intro r v' hv
  subst hv
  cases r with
  | error e => exact he e
  | ok b => exact hf b

theorem wp_finish_exit {f : Int → XProg n N α} {result : Option Nat} {r : Int} {e : Errno}
    (h : wp (exitStep c) (f r) Q v) : wp (exitStep c) (finish result r e >>= f) Q v := by
  intro _ v' hv
  obtain rfl : v' = v := hv.1
  exact h

theorem wp_malloc_exit {size : UInt32} {f : Bool → XProg n N α} (hno : wp (exitStep c) (f false) Q v)
    (hyes : wp (exitStep c) (f true) Q (v.alloc size)) :
    wp (exitStep c) (call (.linearMalloc size) >>= f) Q v := by
  rintro b v' ⟨⟨rfl, rfl⟩ | ⟨rfl, rfl⟩, -⟩
  · exact hno
  · exact hyes

theorem wp_free_exit {size : UInt32} {f : Unit → XProg n N α} (h : wp (exitStep c) (f ()) Q v) :
    wp (exitStep c) (call (.linearFree size) >>= f) Q (v.alloc size) := by
  intro _ v' hv
  obtain rfl : v' = v := hv.1.trans (linear_back v size)
  exact h

theorem wp_exit {Q : Except Stop Int → CallView n N → Prop} {result : Option Nat} {r : Int}
    {e : Errno} (h : Q (.ok r) v) : wp (exitStep c) (finish result r e : XProg n N Int) Q v := by
  intro _ v' hv
  obtain rfl : v' = v := hv.1
  exact h

end

/-- where a call ends that returns -1: where it began -/
def NoEffect (v : CallView n N) : Except Stop Int → CallView n N → Prop :=
  fun r v' => r = .ok (-1) → v' = v

theorem noEffect_refl (v : CallView n N) (r : Except Stop Int) : NoEffect v r v := fun _ => rfl

theorem noEffect_of_nonneg {v v' : CallView n N} {r : Int} (h : 0 ≤ r) : NoEffect v (.ok r) v' := by
  intro hr
  have : r = -1 := Except.ok.inj hr
  omega

theorem noEffect_stop {v v' : CallView n N} {e : Stop} : NoEffect v (.error e) v' :=
  fun hr => nomatch hr

section
variable {c : FallibleCall} {v : CallView n N}

theorem wp_registered {a : XAction N} {result : Option Nat} {order : Int32} {r : Int} {e : Errno}
    {v' : CallView n N} (h : 0 ≤ r) :
    wp (exitStep c) (call (.registerUndoAction a result order) >>= fun _ =>
      finish result r e : XProg n N Int) (NoEffect v) v' := by
  intro _ v₁ _
  exact wp_exit (noEffect_of_nonneg h)

theorem xRead_exit (fd nbyte : Nat) (result : Option Nat) (hv : v.xactstate = .retryable) :
    wp (exitStep c) ((XCall.read fd nbyte).prog result : XProg n N Int) (NoEffect v) v := by
  simp only [XCall.prog, xRead, call_bind, op_bind, wp_op]
  rintro _ v ⟨⟨rfl, rfl⟩, -⟩
  rw [hv]
  refine wp_bind (wp_acquireFd_exit (fun _ => noEffect_stop) fun b => ?_)
  cases b with
  | false => exact wp_finish_exit (noEffect_refl v _)
  | true =>
    refine wp_malloc_exit (wp_finish_exit (noEffect_refl v _)) ?_
    rintro r v' ⟨hr, -⟩
    cases r with
    | error e =>
      obtain rfl := hr
      exact wp_free_exit (wp_finish_exit (noEffect_refl v _))
    | ok data =>
      intro _ v₂ _
      exact wp_finish_exit (noEffect_of_nonneg (Int.natCast_nonneg _))

theorem sysLseek_query {k k' : Kernel} {fd : Nat} {pos : Int}
    (h : sysLseek k fd 0 .seekCur = (.ok pos, k')) : k' = k := by
  obtain ⟨d, x, hx, -, hpos, hbase, rfl⟩ := sysLseek_ok h
  obtain rfl : x = (k.files d).offset := by
    simp only [Kernel.base] at hbase
    omega
  exact setOffset_self k d

theorem wp_seek_exit (fd : Nat) (offset : Int) (whence : Whence) (result : Option Nat)
    (old : Int → Int) :
    wp (exitStep c) (call (.libcLseek fd offset whence) >>= fun
      | .error e => do
        call (.linearFree lseekArgsSize)
        finish result (-1) e
      | .ok pos => do
        call (.registerUndoAction (.lseekUndo fd (old pos)) result regularActionOrder)
        finish result pos 0 : XProg n N Int) (NoEffect v) (v.alloc lseekArgsSize) := by
  intro r v' hr
  cases r with
  | error e =>
    obtain rfl := hr.1
    exact wp_free_exit (wp_exit (noEffect_refl v _))
  | ok pos =>
    obtain ⟨k', hs, rfl⟩ := hr.1
    obtain ⟨d, x, hx, -, hpos, -⟩ := sysLseek_ok hs
    exact wp_registered (hpos ▸ Int.natCast_nonneg x)

theorem xLseek_exit (fd : Nat) (offset : Int) (whence : Whence) (result : Option Nat)
    (hv : v.xactstate = .retryable) :
    wp (exitStep c) (xLseek fd offset whence result : XProg n N Int) (NoEffect v) v := by
  simp only [xLseek, call_bind, wp_op]
  rintro _ v ⟨⟨rfl, rfl⟩, -⟩
  rw [hv]
  refine wp_acquireFd_exit (fun _ => noEffect_stop) fun b => ?_
  cases b with
  | false => exact wp_exit (noEffect_refl v _)
  | true =>
    refine wp_malloc_exit (wp_exit (noEffect_refl v _)) ?_
    dsimp only
    split
    · exact wp_seek_exit fd offset whence result fun pos => pos - offset
    · rintro r v' ⟨hr, -⟩
      cases r with
      | error e =>
        obtain rfl := hr
        exact wp_seek_exit fd offset whence result fun _ => _
      | ok old =>
        obtain ⟨k', hs, rfl⟩ := hr
        rw [sysLseek_query hs]
        exact wp_seek_exit fd offset whence result fun _ => _

end

/-! ### writing -/

section
variable {v : CallView n N}

/-- the write of `x_write_ovr`: what was allocated is given back when it fails -/
theorem wp_write_exit {c : FallibleCall} (fd : Nat) (buf : List UInt8) (result : Option Nat)
    (oldData : Option (List UInt8)) (nbyteOld : Int) :
    wp (exitStep c) (call (.libcWrite fd buf) >>= fun
        | .error e => do
          if oldData.isSome then call (.linearFree (UInt32.ofNat buf.length))
          call (.linearFree writeArgsSize)
          finish result (-1) e
        | .ok r => do
          call (.registerUndoAction (.writeOvrUndo fd oldData r nbyteOld) result regularActionOrder)
          finish result r 0 : XProg n N Int)
      (NoEffect v)
      (if oldData.isSome then (v.alloc writeArgsSize).alloc (UInt32.ofNat buf.length)
        else v.alloc writeArgsSize) := by
  rintro r v' ⟨hr, -⟩
  cases r with
  | error e =>
    obtain rfl := hr
    dsimp only
    split
    · exact wp_free_exit (wp_free_exit (wp_exit (noEffect_refl v _)))
    · exact wp_free_exit (wp_exit (noEffect_refl v _))
  | ok nbyte => exact wp_registered (Int.natCast_nonneg _)

theorem xWrite_exit (fd : Nat) (buf : List UInt8) (flags : WriteFlags) (result : Option Nat)
    (hv : v.xactstate = .retryable) :
    wp (exitStep (.file (.write fd buf flags))) (xWrite fd buf result flags : XProg n N Int)
      (NoEffect v) v := by
  simp only [xWrite, call_bind, wp_op]
  rintro _ v ⟨⟨rfl, rfl⟩, -⟩
  rw [hv]
  refine wp_acquireFd_exit (fun _ => noEffect_stop) fun b => ?_
  cases b with
  | false => exact wp_exit (noEffect_refl v _)
  | true =>
    refine wp_malloc_exit (wp_exit (noEffect_refl v _)) ?_
    cases flags with
    | seq =>
      rintro r v' ⟨hr, -⟩
      cases r with
      | error e =>
        obtain rfl := hr
        exact wp_free_exit (wp_exit (noEffect_refl v _))
      | ok nbyte => exact wp_registered (Int.natCast_nonneg _)
    | ovrIgnore => exact wp_write_exit fd buf result none _
    | ovrSave =>
      refine wp_malloc_exit (wp_free_exit (wp_exit (noEffect_refl v _))) ?_
      rintro r v' ⟨hr, -⟩
      cases r with
      | error e =>
        obtain rfl := hr
        exact wp_free_exit (wp_free_exit (wp_exit (noEffect_refl v _)))
      | ok old =>
        obtain ⟨k₁, hr, rfl⟩ := hr
        simp only [xWriteOvr, Option.getD_some]
        split
        · rename_i hpos
          rintro r v' ⟨hs, hown⟩
          cases r with
          | error e => cases hown
          | ok pos =>
            obtain ⟨k₂, hs, rfl⟩ := hs
            obtain rfl := read_back hr (by rw [if_neg (by omega)]; exact ⟨pos, hs⟩)
            exact wp_write_exit fd buf result (some old) _
        · obtain rfl := read_back hr (by rw [if_pos (by omega)])
          exact wp_write_exit fd buf result (some old) _

end

/-! ### descriptors -/

theorem setFd_back {k : Kernel} {fd : Nat} {o : Option Nat} {ho : _} {hn : _}
    (hfd : k.fds fd = none) : (k.setFd fd o ho).setFd fd none hn = k := by
  have h : Function.update (Function.update k.fds fd o) fd none = k.fds := by
    rw [Function.update_idem, ← hfd, Function.update_eq_self]
  obtain ⟨mount, names, content, fds, files, next, hs, ho, hl⟩ := k
  simp only [Kernel.setFd]
  congr

theorem sysDup_ok {k k' : Kernel} {oldfd fd fildes : Nat}
    (h : sysDup k oldfd fd = (.ok fildes, k')) :
    fildes = fd ∧ ∃ o ho, k' = k.setFd fd o ho := by
  unfold sysDup at h
  split at h
  · cases h
  · cases h
    exact ⟨rfl, _, _, rfl⟩

theorem sysClose_ok {k k' : Kernel} {fd : Nat} (h : sysClose k fd = (.ok (), k')) :
    ∃ hn, k' = k.setFd fd none hn := by
  unfold sysClose at h
  split at h
  · cases h
  · cases h
    exact ⟨_, rfl⟩

section
variable {v : CallView n N}

theorem xDup_exit (oldfd : Nat) (result : Option Nat) (hv : v.xactstate = .retryable)
    (hfd : v.kernel.fds v.fd = none) :
    wp (exitStep (.file (.dup oldfd))) (xDup oldfd result : XProg n N Int) (NoEffect v) v := by
  simp only [xDup, call_bind, wp_op]
  rintro _ v ⟨⟨rfl, rfl⟩, -⟩
  rw [hv]
  rintro _ v ⟨rfl, -⟩ koa v ⟨rfl, -⟩
  cases koa with
  | none => exact wp_exit (noEffect_refl v _)
  | some koa =>
    rintro _ v ⟨rfl, -⟩ _ v ⟨rfl, -⟩ koa2 v ⟨rfl, -⟩
    dsimp only
    split
    · exact wp_exit (noEffect_refl v _)
    · rintro s v ⟨rfl, -⟩ xret v ⟨rfl, -⟩
      dsimp only
      split
      · intro _ _ _
        exact noEffect_stop
      · rintro r v' ⟨hr, -⟩
        cases r with
        | error e =>
          obtain rfl := hr
          rintro _ v ⟨rfl, -⟩
          exact wp_exit (noEffect_refl v _)
        | ok fildes =>
          obtain ⟨k₁, hd, rfl⟩ := hr
          refine wp_malloc_exit ?_ ?_
          · -- no room: the new descriptor is closed
            rintro r v' ⟨hr, hown⟩
            cases r with
            | error e => exact nomatch hown
            | ok u =>
              obtain ⟨k₂, hc, rfl⟩ := hr
              obtain ⟨rfl, o, ho, rfl⟩ := sysDup_ok hd
              obtain ⟨hn, rfl⟩ := sysClose_ok hc
              rw [setFd_back hfd]
              rintro _ v ⟨rfl, -⟩
              exact wp_exit (noEffect_refl v _)
          · intro _ _ _ _ _ _
            exact wp_registered (Int.natCast_nonneg _)

/-- what follows a successful `open` ends with the descriptor, or ends the process or the attempt -/
theorem xOpen_exit {c : FallibleCall} (pathname : Path) (flags : OpenFlags) (result : Option Nat)
    (hv : v.xactstate = .retryable) :
    wp (exitStep c) (xOpen pathname flags result : XProg n N Int) (NoEffect v) v := by
  have hdone : ∀ (fildes : Nat) (v' : CallView n N), wp (exitStep c)
      (finish result fildes 0 : XProg n N Int) (NoEffect v) v' := fun fildes v' =>
    wp_exit (noEffect_of_nonneg (Int.natCast_nonneg fildes))
  simp only [xOpen, call_bind, wp_op]
  rintro _ v ⟨⟨rfl, rfl⟩, -⟩
  rw [hv]
  rintro _ v ⟨rfl, -⟩ inode v ⟨rfl, -⟩
  dsimp only
  split
  · rintro _ v ⟨rfl, -⟩
    exact wp_exit (noEffect_refl v _)
  · rintro r v' ⟨⟨file, hr⟩, -⟩
    cases r with
    | error e =>
      obtain rfl := hr
      rintro _ v ⟨rfl, -⟩
      exact wp_exit (noEffect_refl v _)
    | ok fildes =>
      intro koa _ _
      cases koa with
      | some koa =>
        intro _ _ _ _ _ _ _ _ _ sentinel _ _ xret _ _
        dsimp only
        split
        · intro _ _ _ _ _ _ _ _ _ _ _ _ _ _ _
          exact noEffect_stop
        · refine wp_skip (fun _ _ => noEffect_stop) fun _ _ => ?_
          intro _ _ _ _ _ _
          exact hdone fildes _
      | none =>
        intro koa _ _ _ _ _ _ _ _
        refine wp_skip (fun _ _ => noEffect_stop) fun _ _ => ?_
        refine wp_skip (fun _ _ => noEffect_stop) fun _ _ => ?_
        intro _ _ _ _ _ _
        exact hdone fildes _

/-! ### names -/

/-- a file is renamed to an unused name and back -/
theorem rename_back {k k₁ k₂ : Kernel} {path temp : Path} (ht : k.names temp = none)
    (h : sysRename k path temp = (.ok (), k₁)) (hb : sysRename k₁ temp path = (.ok (), k₂)) :
    k₂ = k := by
  obtain ⟨f, hf, hm, rfl⟩ := sysRename_ok h ht
  have hne : temp ≠ path := by
    intro he
    rw [he, hf] at ht
    cases ht
  have hnone : ((k.setName temp (some f)).setName path none).names path = none :=
    Function.update_self ..
  obtain ⟨g, hg, -, rfl⟩ := sysRename_ok hb hnone
  obtain rfl : f = g := by
    have hfg : ((k.setName temp (some f)).setName path none).names temp = some f := by
      simp [Kernel.setName, Function.update_of_ne hne]
    exact Option.some.inj (hfg.symm.trans hg)
  have hnames : Function.update (Function.update (Function.update (Function.update k.names temp
      (some f)) path none) path (some f)) temp none = k.names := by
    funext p
    by_cases hp : p = temp
    · rw [hp, Function.update_self, ht]
    · rw [Function.update_of_ne hp, Function.update_idem]
      by_cases hq : p = path
      · rw [hq, Function.update_self, hf]
      · rw [Function.update_of_ne hq, Function.update_of_ne hp]
  obtain ⟨mount, names, content, fds, files, next, hs, ho, hl⟩ := k
  simp only [Kernel.setName]
  congr

theorem xCreateCase1_exit {c : FallibleCall} (pathname : Path) (result : Option Nat) :
    wp (exitStep c) (xCreateCase1 pathname result : XProg n N Int) (NoEffect v) v := by
  simp only [xCreateCase1, call_bind]
  rintro r v' ⟨⟨file, hr⟩, -⟩
  cases r with
  | error e =>
    obtain rfl := hr
    rintro _ v ⟨rfl, -⟩
    exact wp_exit (noEffect_refl v _)
  | ok fildes =>
    intro _ _ _ koaNew _ _ _ _ _ _ _ _
    refine wp_skip (fun _ _ => noEffect_stop) fun _ _ => ?_
    refine wp_skip (fun _ _ => noEffect_stop) fun _ _ => ?_
    intro _ _ _ _ _ _ _ _ _
    exact wp_exit (noEffect_of_nonneg (Int.natCast_nonneg fildes))

theorem xCreateIsolate_exit {c : FallibleCall} (inode : Inode) (v : CallView n N) :
    wp (exitStep c) (xCreateIsolate inode : XProg n N Unit) (fun _ v' => v' = v) v := by
  simp only [xCreateIsolate, call_bind]
  rintro koa v ⟨rfl, -⟩
  cases koa with
  | none => exact rfl
  | some koaOld =>
    simp only [xCreateCase2a, call_bind]
    rintro _ v ⟨rfl, -⟩ s v ⟨rfl, -⟩ xret v ⟨rfl, -⟩
    dsimp only
    split
    · rintro _ v ⟨rfl, -⟩ _ v ⟨rfl, -⟩
      exact rfl
    · rintro _ v ⟨rfl, -⟩
      exact rfl

theorem xCreateCase2_exit (pathname : Path) (inode : Inode) (result : Option Nat)
    (ht : v.kernel.names v.temp = none) :
    wp (exitStep (.file (.create pathname))) (xCreateCase2 pathname inode result : XProg n N Int)
      (NoEffect v) v := by
  refine wp_bind (wp_mono ?_ (xCreateIsolate_exit inode v))
  intro r v' hv
  subst hv
  cases r with
  | error e => exact noEffect_stop
  | ok u =>
    simp only [call_bind]
    rintro temp v ⟨⟨rfl, rfl⟩, -⟩ renamed v₁ ⟨h₁, -⟩ opened v₂ ⟨⟨file, h₂⟩, -⟩
    cases opened with
    | error e =>
      obtain rfl := h₂
      rintro back v₃ ⟨h₃, hown⟩ _ v₄ ⟨rfl, -⟩
      refine wp_exit fun _ => ?_
      cases back with
      | error e =>
        simp only [compensated, ne_eq, not_true_eq_false, decide_false, Bool.false_or] at hown
        exact nomatch hown
      | ok u =>
        obtain ⟨k₃, h₃, rfl⟩ := h₃
        cases renamed with
        | error e =>
          -- the file was not renamed: there is nothing to rename back
          obtain rfl := h₁
          simp only [sysRename, ht] at h₃
          cases h₃
        | ok u =>
          obtain ⟨k₁, h₁, rfl⟩ := h₁
          rw [rename_back ht h₁ h₃]
    | ok fildes =>
      intro _ _ _ koaNew _ _ _ _ _ _ _ _
      refine wp_skip (fun _ _ => noEffect_stop) fun _ _ => ?_
      refine wp_skip (fun _ _ => noEffect_stop) fun _ _ => ?_
      intro _ _ _ _ _ _ _ _ _ _ _ _
      exact wp_exit (noEffect_of_nonneg (Int.natCast_nonneg fildes))

theorem xCreate_exit (pathname : Path) (result : Option Nat) (hv : v.xactstate = .retryable)
    (ht : v.kernel.names v.temp = none) :
    wp (exitStep (.file (.create pathname))) (xCreate pathname result : XProg n N Int)
      (NoEffect v) v := by
  simp only [xCreate, call_bind, wp_op]
  rintro _ v ⟨⟨rfl, rfl⟩, -⟩
  rw [hv]
  rintro _ v ⟨rfl, -⟩ inode v ⟨rfl, -⟩
  dsimp only
  split
  · exact xCreateCase1_exit pathname result
  · exact xCreateCase2_exit pathname inode result ht

end

/-! ### deferred calls -/

/-- where a deferred call ends whose `local_result` is an error: where it began -/
def NoEffectResult (v : CallView n N) : Except Stop (Int × Errno) → CallView n N → Prop :=
  fun r v' => ∀ x, r = .ok x → x.2 ≠ 0 → v' = v

section
variable {c : FallibleCall} {v : CallView n N}

theorem noEffectResult_refl (v : CallView n N) (r : Except Stop (Int × Errno)) :
    NoEffectResult v r v := fun _ _ _ => rfl

theorem xWritePipe_exit (fd : Nat) (buf : List UInt8) (result : Option Nat)
    (hv : v.xactstate = .retryable) :
    wp (exitStep c) (xWritePipe fd buf result : XProg n N (Int × Errno)) (NoEffectResult v) v := by
  simp only [xWritePipe, call_bind, wp_op]
  rintro _ v ⟨⟨rfl, rfl⟩, -⟩
  rw [hv]
  refine wp_acquireFd_exit (fun _ _ h => nomatch h) fun b => ?_
  cases b with
  | false => exact wp_finish_exit (noEffectResult_refl v _)
  | true =>
    refine wp_malloc_exit (wp_finish_exit (noEffectResult_refl v _)) ?_
    refine wp_malloc_exit (wp_free_exit (wp_finish_exit (noEffectResult_refl v _))) ?_
    intro _ _ _
    refine wp_finish_exit fun x hx hne => absurd ?_ hne
    rw [← Except.ok.inj hx]

theorem xSendmsg_exit (fd : Nat) (msg : Msghdr) (flags : Int) (result : Option Nat)
    (hv : v.xactstate = .retryable) :
    wp (exitStep c) (xSendmsg fd msg flags result : XProg n N (Int × Errno)) (NoEffectResult v) v := by
  simp only [xSendmsg, call_bind, wp_op]
  rintro _ v ⟨⟨rfl, rfl⟩, -⟩
  rw [hv]
  refine wp_acquireFd_exit (fun _ _ h => nomatch h) fun b => ?_
  cases b with
  | false => exact wp_finish_exit (noEffectResult_refl v _)
  | true =>
    refine wp_malloc_exit (wp_finish_exit (noEffectResult_refl v _)) ?_
    refine wp_malloc_exit (wp_free_exit (wp_finish_exit (noEffectResult_refl v _))) ?_
    refine wp_malloc_exit
      (wp_free_exit (wp_free_exit (wp_finish_exit (noEffectResult_refl v _)))) ?_
    intro _ _ _ garbage _ _
    refine wp_finish_exit fun x hx hne => absurd ?_ hne
    rw [← Except.ok.inj hx]

end

/-! ## the theorem -/

/-- every call that fails ends where it began -/
theorem exit_call {c : FallibleCall} (hc : c.Modelled) (result : Option Nat) {v : CallView n N}
    (hv : v.xactstate = .retryable) (hfd : v.kernel.fds v.fd = none)
    (ht : v.kernel.names v.temp = none) :
    wp (exitStep c) (c.fails result : XProg n N Bool) (fun r v' => r = .ok true → v' = v) v := by
  have hfile : ∀ {p : XProg n N Int}, wp (exitStep c) p (NoEffect v) v →
      wp (exitStep c) (p >>= fun r => pure (decide (r = -1)))
        (fun r v' => r = .ok true → v' = v) v := by
    intro p hp
    refine wp_bind (wp_mono ?_ hp)
    intro r v' h
    cases r with
    | error e => exact fun he => nomatch he
    | ok r => exact fun he => h (congrArg Except.ok (of_decide_eq_true (Except.ok.inj he)))
  have hdeferred : ∀ {p : XProg n N (Int × Errno)}, wp (exitStep c) p (NoEffectResult v) v →
      wp (exitStep c) (p >>= fun r => pure (decide (r.2 ≠ 0)))
        (fun r v' => r = .ok true → v' = v) v := by
    intro p hp
    refine wp_bind (wp_mono ?_ hp)
    intro r v' h
    cases r with
    | error e => exact fun he => nomatch he
    | ok r => exact fun he => h r rfl (of_decide_eq_true (Except.ok.inj he))
  cases c with
  | file c =>
    cases c with
    | read fd nbyte => exact hfile (xRead_exit fd nbyte result hv)
    | lseek fd offset whence => exact hfile (xLseek_exit fd offset whence result hv)
    | write fd buf flags => exact hfile (xWrite_exit fd buf flags result hv)
    | «open» pathname flags => exact hfile (xOpen_exit pathname flags result hv)
    | create pathname => exact hfile (xCreate_exit pathname result hv ht)
    | dup oldfd => exact hfile (xDup_exit oldfd result hv hfd)
    | _ => exact hc.elim
  | writePipe fd buf => exact hdeferred (xWritePipe_exit fd buf result hv)
  | sendmsg fd msg flags => exact hdeferred (xSendmsg_exit fd msg flags result hv)

/-- **A call that fails has no effect.**  In every state of a retryable transaction, a call that
leaves through an error exit leaves the linear buffer, the actions of the xCalls, the KOAs with
their counters, the map from descriptors, the alias cache, and the descriptors, offsets, contents
and names of the kernel as they were. -/
theorem failed_call_no_effect (c : FallibleCall) (hc : c.Modelled) (result : Option Nat)
    (m m' : XMach T n N) (hx : m.world.xactstate = .retryable)
    (ha : m.world.answers.Ok m.world.kernel)
    (hrun : run (only handle (compensated c)) (c.fails result) m = some (.ok true, m')) :
    m'.txd.bufferLinear = m.txd.bufferLinear ∧
      others m'.txd.commitActionList.entries = others m.txd.commitActionList.entries ∧
      others m'.txd.undoActionList.entries = others m.txd.undoActionList.entries ∧
      m'.world.koamgr.map = m.world.koamgr.map ∧
      m'.world.koamgr.aliasCache = m.world.koamgr.aliasCache ∧
      m'.world.koamgr.koa = m.world.koamgr.koa ∧
      m'.world.koamgr.free = m.world.koamgr.free ∧
      m'.world.kernel = m.world.kernel := by
  have hR : ∀ {β : Type} (i : Instr n N β) (b : β) (s s' : XMach T n N), True →
      only handle (compensated c) i s = some (b, s') →
      exitStep c i b (callView s) (callView s') ∧ True := by
    intro β i b s s' _ hs
    obtain ⟨h1, h2⟩ := only_eq_some.mp hs
    exact ⟨⟨handle_failStep h1, h2⟩, trivial⟩
  have hv : callView m' = callView m :=
    (wp_run hR trivial (exit_call hc result hx ha.fd ha.temp) hrun).1 rfl
  exact ⟨congrArg CallView.linear hv, congrArg CallView.commits hv, congrArg CallView.undos hv,
    congrArg (fun v => v.koas.map) hv, congrArg (fun v => v.koas.aliasCache) hv,
    congrArg (fun v => v.koas.koa) hv, congrArg (fun v => v.koas.free) hv,
    congrArg CallView.kernel hv⟩

/-- a transaction on the small process in which the second system call fails -/
def openFails : XMach Unit 8 8 :=
  withAnswers (xBegin (smallMach smallKernel))
    { smallAnswers with faults := [none, some Errno.eacces] }

/-- `x_create` over an existing file: the file is renamed aside, `open` fails, and it is renamed
back -/
theorem failed_call_no_effect_create :
    ∃ m', run (only handle (compensated (.file (.create "a"))))
        ((FallibleCall.file (.create "a")).fails none) openFails = some (.ok true, m') ∧
      m'.world.koamgr.map = openFails.world.koamgr.map ∧ m'.world.kernel = smallKernel := by
  have hrun : ((run (only handle (compensated (.file (.create "a"))))
      ((FallibleCall.file (.create "a")).fails none) openFails).map Prod.fst) =
        some (.ok true) := by decide +kernel
  obtain ⟨⟨r, m'⟩, h, hr⟩ := Option.map_eq_some_iff.mp hrun
  obtain rfl : r = .ok true := hr
  have hok : openFails.world.answers.Ok openFails.world.kernel :=
    ⟨smallAnswers_ok.temp, smallAnswers_ok.file, smallAnswers_ok.fd⟩
  obtain ⟨-, -, -, hmap, -, -, -, hkernel⟩ :=
    failed_call_no_effect (.file (.create "a")) trivial none openFails m' rfl hok h
  exact ⟨m', h, hmap, hkernel⟩

end XCalls
