import XCalls.XCall.Actions

/-!
# System calls that fail

`View` with the list of the faults that are to come: what a call does when any of its system calls
may fail.

* `FaultView`, `faultStep`   the steps; a system call fails or does what the kernel says;
* `run_faultView`    the rule for runs;
* `KeepsBut`         a kernel in which at most one file was written to;
* `written_xWrite`   `x_write` with any flags and any faults, and the undo actions it registers.
-/

set_option linter.unusedSectionVars false

namespace XCalls
open Prog
variable {T : Type} [DecidableEq T] {n N : Nat}

/-! ## the view -/

structure FaultView (N : Nat) extends View N where
  faults : List (Option Errno)

def faultView (m : XMach T n N) : FaultView N := ⟨view m, m.world.answers.faults⟩

def FaultView.syscall {β : Type} (v : FaultView N) (f : Kernel → Except Errno β × Kernel) :
    Except Errno β × FaultView N :=
  match v.faults.head?.join with
  | some e => (.error e, { v with faults := v.faults.tail })
  | none => ((f v.kernel).1, { v with kernel := (f v.kernel).2, faults := v.faults.tail })

theorem FaultView.syscall_fails {β : Type} {v : FaultView N} {e : Errno}
    (h : v.faults.head?.join = some e) (f : Kernel → Except Errno β × Kernel) :
    v.syscall f = (.error e, { v with faults := v.faults.tail }) := by
  rw [FaultView.syscall, h]

theorem FaultView.syscall_works {β : Type} {v : FaultView N} (h : v.faults.head?.join = none)
    (f : Kernel → Except Errno β × Kernel) :
    v.syscall f
      = ((f v.kernel).1, { v with kernel := (f v.kernel).2, faults := v.faults.tail }) := by
  rw [FaultView.syscall, h]

/-- the steps of the calls below; of the other system calls nothing is said -/
def faultStep : StepRel (Instr n N) (FaultView N)
  | _, .libcOpen path flags, b, v, v' =>
    (b, v') = v.syscall fun k => sysOpen k path flags v.file v.fd
  | _, .libcRead fd nbyte, b, v, v' => (b, v') = v.syscall fun k => sysRead k fd nbyte
  | _, .libcWrite fd buf, b, v, v' => (b, v') = v.syscall fun k => sysWrite k fd buf
  | _, .libcLseek fd offset whence, b, v, v' =>
    (b, v') = v.syscall fun k => sysLseek k fd offset whence
  | _, .libcRename old new, b, v, v' => (b, v') = v.syscall fun k => sysRename k old new
  | _, .libcClose _, _, _, _ => True
  | _, .libcDup _, _, _, _ => True
  | _, .libcFtruncate _ _, _, _, _ => True
  | _, .libcPwrite _ _ _, _, _, _ => True
  | _, .libcLink _ _, _, _, _ => True
  | _, .libcUnlink _, _, _, _ => True
  | _, .libcPipe, _, _, _ => True
  | _, .libcSocket _ _ _, _, _, _ => True
  | _, .libcFsync _, _, _, _ => True
  | _, .libcFdatasync _, _, _, _ => True
  | _, .libcSendmsg _ _ _, _, _, _ => True
  | _, .libcRecvmsg _ _, _, _, _ => True
  | _, i, b, v, v' => natStep i b v.toView v'.toView ∧ v'.faults = v.faults

section
variable {m m' : XMach T n N}

theorem syscall_faultView {β : Type} {f : Kernel → Except Errno β × Kernel} {b : Except Errno β}
    (h : some (syscall m f) = some (b, m')) :
    (b, faultView m') = (faultView m).syscall f := by
  rcases syscall_cases (Option.some.inj h) with ⟨e, hf, rfl, rfl⟩ | ⟨hf, rfl, rfl⟩
  · exact (FaultView.syscall_fails (v := faultView m) hf f).symm
  · exact (FaultView.syscall_works (v := faultView m) hf f).symm

/-- only system calls use up faults -/
theorem handle_faultStep {β : Type} {i : Instr n N β} {b : β} (h : handle i m = some (b, m')) :
    faultStep i b (faultView m) (faultView m') := by
  cases i with
  | libcOpen | libcRead | libcWrite | libcLseek | libcRename => exact syscall_faultView h
  | libcClose | libcDup | libcFtruncate | libcPwrite | libcLink | libcUnlink | libcPipe
  | libcSocket | libcFsync | libcFdatasync | libcSendmsg | libcRecvmsg => trivial
  | getXactstate | path2inode | mktemp | lockAliasCache | unlockAliasCache | lockFd | unlockFd
  | lockFdsRefbyKoa | unlockFdsRefbyKoa | lookupFd2koa | linearFree | garbage | attachKoa
  | getBuffer | setBuffer | registerCommitAction | registerUndoAction =>
    refine ⟨(handle_natStep h (Or.inr rfl)).1, ?_⟩
    cases h
    rfl
  | linearMalloc size =>
    refine ⟨(handle_natStep h (Or.inr rfl)).1, ?_⟩
    simp only [handle] at h
    split at h
    all_goals
      cases h
      rfl
  | store p v =>
    refine ⟨(handle_natStep h (Or.inr rfl)).1, ?_⟩
    cases h
    cases p <;> rfl
  | tryacquire | createKoa | createKoaOf | attachFd | getSentinel =>
    refine ⟨(handle_natStep h (Or.inr rfl)).1, ?_⟩
    simp only [handle, Option.map_eq_some_iff] at h
    obtain ⟨x, -, h2⟩ := h
    cases h2
    rfl
  | lookupInode | detachKoa =>
    refine ⟨(handle_natStep h (Or.inr rfl)).1, ?_⟩
    cases h
    rw [World.meet_eq]
    rfl
  | detachFd k fd lock =>
    refine ⟨(handle_natStep h (Or.inr rfl)).1, ?_⟩
    cases h
    rw [World.meet_eq]
    split <;> rfl

theorem run_faultView {α : Type} {p : XProg n N α} {Q : Except Stop α → FaultView N → Prop}
    {r : Except Stop α} (hwp : wp faultStep p Q (faultView m))
    (h : run handle p m = some (r, m')) : Q r (faultView m') := by
  have hR : ∀ {β : Type} (i : Instr n N β) (b : β) (s s' : XMach T n N), True →
      handle i s = some (b, s') → faultStep i b (faultView s) (faultView s') ∧ True :=
    fun i b s s' _ hs => ⟨handle_faultStep hs, trivial⟩
  exact (wp_run hR trivial hwp h).1

end

/-! ## one file is written to -/

/-- the file behind a descriptor -/
def Kernel.fileOf (k : Kernel) (fd : Nat) : Option FileId := (k.openFile fd).map OpenFile.file

/-- `k'` is `k` up to offsets and the contents of the file `g` -/
structure KeepsBut (g : Option FileId) (k k' : Kernel) : Prop where
  names : k'.names = k.names
  mount : k'.mount = k.mount
  fds : k'.fds = k.fds
  file : ∀ d, (k'.files d).file = (k.files d).file
  content : ∀ f, g ≠ some f → k'.content f = k.content f

namespace KeepsBut
variable {g : Option FileId} {k k' k'' : Kernel} {fd : Nat}

theorem refl (g : Option FileId) (k : Kernel) : KeepsBut g k k :=
  ⟨rfl, rfl, rfl, fun _ => rfl, fun _ _ => rfl⟩

theorem trans (h : KeepsBut g k k') (h' : KeepsBut g k' k'') : KeepsBut g k k'' :=
  ⟨h'.names.trans h.names, h'.mount.trans h.mount, h'.fds.trans h.fds,
    fun d => (h'.file d).trans (h.file d), fun f hf => (h'.content f hf).trans (h.content f hf)⟩

theorem fileOf (h : KeepsBut g k k') (fd : Nat) : k'.fileOf fd = k.fileOf fd := by
  unfold Kernel.fileOf Kernel.openFile
  rw [h.fds]
  cases k.fds fd with
  | none => rfl
  | some d => exact congrArg some (h.file d)

theorem setOffset (k : Kernel) (d : Nat) {off : Nat} (h : off ≤ offMax) :
    KeepsBut g k (k.setOffset d off h) := by
  refine ⟨rfl, rfl, rfl, fun e => ?_, fun _ _ => rfl⟩
  show (Function.update k.files d _ e).file = _
  by_cases he : e = d
  · rw [he, Function.update_self]
  · rw [Function.update_of_ne he]

theorem setContent (k : Kernel) {f : FileId} {c : List UInt8} (h : c.length ≤ offMax) :
    KeepsBut (some f) k (k.setContent f c h) := by
  refine ⟨rfl, rfl, rfl, fun _ => rfl, fun f' hf' => ?_⟩
  have hne : f' ≠ f := fun h => hf' (congrArg some h.symm)
  exact Function.update_of_ne hne _ _

theorem fileOf_eq {d : Nat} (hd : k.fds fd = some d) : k.fileOf fd = some (k.files d).file := by
  rw [Kernel.fileOf, Kernel.openFile, hd]
  rfl

theorem read (k : Kernel) (fd nbyte : Nat) : KeepsBut (k.fileOf fd) k (sysRead k fd nbyte).2 := by
  unfold sysRead
  split
  · exact refl _ _
  · split
    · exact refl _ _
    · exact setOffset _ _ (k.readAt_le _ _)

theorem lseek (k : Kernel) (fd : Nat) (offset : Int) (whence : Whence) :
    KeepsBut (k.fileOf fd) k (sysLseek k fd offset whence).2 := by
  unfold sysLseek
  split
  · exact refl _ _
  · dsimp only
    split
    · exact refl _ _
    · split
      · exact refl _ _
      · exact setOffset _ _ (by omega)

theorem write (k : Kernel) (fd : Nat) (buf : List UInt8) :
    KeepsBut (k.fileOf fd) k (sysWrite k fd buf).2 := by
  unfold sysWrite
  split
  · exact refl _ _
  · rename_i d hd
    rw [fileOf_eq hd]
    dsimp only
    split
    · exact refl _ _
    · split
      · exact refl _ _
      · rename_i ho
        exact (setContent _ (length_overwrite_le (k.size_le _) (Nat.not_lt.mp ho))).trans
          (setOffset _ _ (Nat.not_lt.mp ho))

theorem ftruncate (k : Kernel) (fd : Nat) (length : Int) :
    KeepsBut (k.fileOf fd) k (sysFtruncate k fd length).2 := by
  unfold sysFtruncate
  split
  · exact refl _ _
  · rename_i d hd
    rw [fileOf_eq hd]
    dsimp only
    split
    · exact refl _ _
    · split
      · exact refl _ _
      · exact setContent _ (by rw [length_resize]; omega)

theorem pwrite (k : Kernel) (fd : Nat) (buf : List UInt8) (offset : Int) :
    KeepsBut (k.fileOf fd) k (sysPwrite k fd buf offset).2 := by
  unfold sysPwrite
  split
  · exact refl _ _
  · rename_i d hd
    rw [fileOf_eq hd]
    dsimp only
    split
    · exact refl _ _
    · split
      · exact refl _ _
      · exact setContent _ (length_overwrite_le (k.size_le _) (by omega))

end KeepsBut

/-! ## x_write -/

/-- an undo action of `x_write` on `fd` -/
inductive XAction.UndoesWrite (fd : Nat) : XAction N → Prop
  | seq (nbyteNew : Int) : UndoesWrite fd (.writeSeqUndo fd nbyteNew)
  | ovr (buf : Option (List UInt8)) (nbyteNew nbyteOld : Int) :
      UndoesWrite fd (.writeOvrUndo fd buf nbyteNew nbyteOld)

theorem XAction.UndoesWrite.keepsBut {fd : Nat} {a : XAction N} (h : a.UndoesWrite fd)
    (k : Kernel) : KeepsBut (k.fileOf fd) k (a.sys k) := by
  have hseek : ∀ offset, KeepsBut (k.fileOf fd) k (sysLseek k fd offset .seekCur).2 :=
    fun offset => KeepsBut.lseek k fd offset .seekCur
  have hcut : ∀ offset length, KeepsBut (k.fileOf fd) k
      (sysFtruncate (sysLseek k fd offset .seekCur).2 fd length).2 := by
    intro offset length
    have h := KeepsBut.ftruncate (sysLseek k fd offset .seekCur).2 fd length
    rw [(hseek offset).fileOf] at h
    exact (hseek offset).trans h
  cases h with
  | seq nbyteNew =>
    simp only [XAction.sys]
    split
    · exact hcut _ _
    · exact hseek _
  | ovr buf nbyteNew nbyteOld =>
    simp only [XAction.sys, writeOvrUndoSys]
    split
    · rename_i offset data _
      have hbefore : KeepsBut (k.fileOf fd) k (if nbyteOld < nbyteNew then
          sysFtruncate (sysLseek k fd (-nbyteNew) .seekCur).2 fd offset
          else (.ok (), (sysLseek k fd (-nbyteNew) .seekCur).2)).2 := by
        split
        · exact hcut _ _
        · exact hseek _
      split
      · have h := KeepsBut.pwrite (if nbyteOld < nbyteNew then
          sysFtruncate (sysLseek k fd (-nbyteNew) .seekCur).2 fd offset
          else (.ok (), (sysLseek k fd (-nbyteNew) .seekCur).2)).2 fd
          (data.take nbyteOld.toNat) offset
        rw [hbefore.fileOf] at h
        exact hbefore.trans h
      · exact hbefore
    · exact hseek _

/-- undoing any number of writes -/
theorem effects_keepsBut {fd : Nat} {l : List (XAction N × Int32)}
    (hl : ∀ x ∈ l, x.1.UndoesWrite fd) (k : Kernel) : KeepsBut (k.fileOf fd) k (effects l k) := by
  induction l generalizing k with
  | nil => exact KeepsBut.refl _ _
  | cons x l ih =>
    have h1 := (hl x List.mem_cons_self).keepsBut k
    have h2 := ih (fun y hy => hl y (List.mem_cons_of_mem _ hy)) (x.1.sys k)
    rw [h1.fileOf] at h2
    exact h1.trans h2

/-- the instructions of `x_write` on `fd`, in a retryable transaction -/
def Instr.WritesTo (fd : Nat) : ∀ {β : Type}, Instr n N β → Prop
  | _, .getXactstate => True
  | _, .lockFd _ => True
  | _, .unlockFd _ => True
  | _, .lookupFd2koa _ => True
  | _, .getSentinel _ => True
  | _, .tryacquire _ _ => True
  | _, .linearMalloc _ => True
  | _, .linearFree _ => True
  | _, .store _ _ => True
  | _, .libcRead fd' _ => fd' = fd
  | _, .libcWrite fd' _ => fd' = fd
  | _, .libcLseek fd' _ _ => fd' = fd
  | _, .registerUndoAction a _ order => order = 0 ∧ a.UndoesWrite fd
  | _, _ => False

theorem writesTo_finish {fd : Nat} (result : Option Nat) (r : Int) (e : Errno) :
    All (fun _ => Instr.WritesTo fd) (finish result r e : XProg n N Int) :=
  ⟨trivial, fun _ => trivial⟩

theorem writesTo_acquireFd {fd : Nat} :
    All (fun _ => Instr.WritesTo fd) (acquireFd fd : XProg n N Bool) := by
  unfold acquireFd
  refine all_op trivial fun _ => all_op trivial fun koa => ?_
  cases koa with
  | none => exact all_op trivial fun _ => trivial
  | some koa =>
    refine all_op trivial fun _ => all_op trivial fun xret => all_op trivial fun _ => ?_
    split <;> trivial

/-- what `x_write_ovr` does with the answer of its write -/
theorem writesTo_ovrAnswer (fd : Nat) (buf : List UInt8) (result : Option Nat)
    (oldData : Option (List UInt8)) (r : Except Errno Nat) :
    All (fun _ => Instr.WritesTo fd) (match r with
      | .error e => do
        if oldData.isSome then call (.linearFree (UInt32.ofNat buf.length))
        call (.linearFree writeArgsSize)
        finish result (-1) e
      | .ok x => do
        call (.registerUndoAction
          (.writeOvrUndo fd oldData x (oldData.getD []).length) result regularActionOrder)
        finish result x 0 : XProg n N Int) := by
  cases r with
  | error e =>
    dsimp only
    split
    · exact all_op trivial fun _ => all_op trivial fun _ => writesTo_finish _ _ _
    · exact all_op trivial fun _ => writesTo_finish _ _ _
  | ok ret => exact all_op ⟨rfl, .ovr _ _ _⟩ fun _ => writesTo_finish _ _ _

theorem writesTo_xWriteOvr (fd : Nat) (buf : List UInt8) (result : Option Nat)
    (oldData : Option (List UInt8)) :
    All (fun _ => Instr.WritesTo fd) (xWriteOvr fd buf result oldData : XProg n N Int) := by
  have hwrite := writesTo_ovrAnswer (n := n) (N := N) fd buf result oldData
  unfold xWriteOvr
  dsimp only
  split
  · exact all_op rfl fun _ => all_op rfl hwrite
  · exact all_op rfl hwrite

theorem writesTo_xWrite (fd : Nat) (buf : List UInt8) (result : Option Nat) (flags : WriteFlags) :
    All (fun _ => Instr.WritesTo fd) (xWrite fd buf result flags : XProg n N Int) := by
  simp only [xWrite, call_bind]
  refine all_op trivial fun x => ?_
  cases x with
  | irrevocable | nontransactional =>
    refine all_op rfl fun r => ?_
    cases r <;> exact writesTo_finish _ _ _
  | retryable =>
    refine all_bind writesTo_acquireFd fun ok => ?_
    cases ok with
    | false => exact writesTo_finish _ _ _
    | true =>
      refine all_op trivial fun ok => ?_
      cases ok with
      | false => exact writesTo_finish _ _ _
      | true =>
        cases flags with
        | seq =>
          refine all_op rfl fun r => ?_
          cases r with
          | error e => exact all_op trivial fun _ => writesTo_finish _ _ _
          | ok ret => exact all_op ⟨rfl, .seq _⟩ fun _ => writesTo_finish _ _ _
        | ovrIgnore => exact writesTo_xWriteOvr fd buf result none
        | ovrSave =>
          refine all_op trivial fun ok => ?_
          cases ok with
          | false => exact all_op trivial fun _ => writesTo_finish _ _ _
          | true =>
            refine all_op rfl fun r => ?_
            cases r with
            | error e => exact all_op trivial fun _ => all_op trivial fun _ => writesTo_finish _ _ _
            | ok data => exact writesTo_xWriteOvr fd buf result (some data)

/-- `v'` is `v` after any number of writes to `fd` -/
structure Written (fd : Nat) (v v' : View N) : Prop where
  keeps : KeepsBut (v.kernel.fileOf fd) v.kernel v'.kernel
  undos : ∃ l, v'.undos = v.undos ++ l ∧ ∀ x ∈ l, x.2 = 0 ∧ x.1.UndoesWrite fd

namespace Written
variable {fd : Nat} {v v' v'' : View N}

theorem refl (fd : Nat) (v : View N) : Written fd v v :=
  ⟨KeepsBut.refl _ _, [], (List.append_nil _).symm, fun _ h => nomatch h⟩

theorem trans (h : Written fd v v') (h' : Written fd v' v'') : Written fd v v'' := by
  obtain ⟨l, hl, hw⟩ := h.undos
  obtain ⟨l', hl', hw'⟩ := h'.undos
  have hk := h'.keeps
  rw [h.keeps.fileOf] at hk
  refine ⟨h.keeps.trans hk, l ++ l', by rw [hl', hl, List.append_assoc], fun x hx => ?_⟩
  exact (List.mem_append.mp hx).elim (hw x) (hw' x)

theorem of_kernel (hk : KeepsBut (v.kernel.fileOf fd) v.kernel v'.kernel)
    (hu : v'.undos = v.undos) : Written fd v v' :=
  ⟨hk, [], by rw [hu, List.append_nil], fun _ h => nomatch h⟩

end Written

theorem written_syscall {β : Type} {fd : Nat} {f : Kernel → Except Errno β × Kernel}
    {b : Except Errno β} {v v' : FaultView N}
    (hf : ∀ k, KeepsBut (k.fileOf fd) k (f k).2) (h : (b, v') = v.syscall f) :
    Written fd v.toView v'.toView := by
  unfold FaultView.syscall at h
  cases hh : v.faults.head?.join with
  | some e =>
    rw [hh] at h
    cases h
    exact .refl _ _
  | none =>
    rw [hh] at h
    cases h
    exact .of_kernel (hf v.kernel) rfl

theorem written_step {β : Type} {fd : Nat} {i : Instr n N β} {b : β} {v v' : FaultView N}
    (hi : i.WritesTo fd) (h : faultStep i b v v') : Written fd v.toView v'.toView := by
  have hsame : v'.toView = v.toView → Written fd v.toView v'.toView := by
    intro he
    rw [he]
    exact .refl _ _
  cases i with
  | libcRead fd' nbyte =>
    cases hi
    exact written_syscall (fun k => KeepsBut.read k _ _) h
  | libcWrite fd' buf =>
    cases hi
    exact written_syscall (fun k => KeepsBut.write k _ _) h
  | libcLseek fd' offset whence =>
    cases hi
    exact written_syscall (fun k => KeepsBut.lseek k _ _ _) h
  | registerUndoAction a result order =>
    have hv : v'.toView = { v.toView with undos := v.undos ++ [(a, order)] } := h.1
    rw [hv]
    refine ⟨KeepsBut.refl _ _, [(a, order)], rfl, fun x hx => ?_⟩
    rw [List.mem_singleton.mp hx]
    exact hi
  | getXactstate => exact hsame h.1.2
  | lockFd | unlockFd | lookupFd2koa | getSentinel | tryacquire | linearMalloc | linearFree
  | store => exact hsame h.1
  | _ => exact hi.elim

/-- **`x_write` on `fd`**, with any flags and any faults. -/
theorem written_xWrite {m m' : XMach T n N} {fd : Nat} {buf : List UInt8} {result : Option Nat}
    {flags : WriteFlags} {r : Except Stop Int}
    (h : run handle (xWrite fd buf result flags) m = some (r, m')) :
    Written fd (view m) (view m') := by
  have hwp : wp faultStep (xWrite fd buf result flags : XProg n N Int)
      (fun _ v => Written fd (view m) v.toView) (faultView m) := by
    refine wp_all (P := fun _ => Instr.WritesTo fd)
      (J := fun v : FaultView N => Written fd (view m) v.toView) ?_ (writesTo_xWrite _ _ _ _)
      (Written.refl _ _)
    exact fun i b v v' hi hs hv => hv.trans (written_step hi hs)
  exact run_faultView hwp h

end XCalls
