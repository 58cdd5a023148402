import XCalls.XCall.FileThreads
import XCalls.XCall.Offsets

/-!
# One call and one undo action, on the files that the thread holds

* `FileLocal`    what a thread knows: the sentinels that it holds, a copy of the kernel, the copy
                 when it began to use its files, and the undo actions that it has registered since;
* `localStep`    what an instruction does to it: while the sentinel of a file is acquired, the copy
                 may change;
* `callGuard`, `undoGuard`   system calls are made on files that are held;
* `CallPost`     a call that fails has done nothing, and another one is the plain call and has
                 registered one undo action, which restores the files;
* `call_local`, `undo_local`   the programs of the calls and of their undo actions.
-/

set_option linter.unusedSectionVars false

namespace XCalls
open Prog TwoPhase
variable {n N : Nat} {α : Type}

/-! ## the steps of a thread -/

structure FileLocal (n N : Nat) where
  held : Set (Fin n)
  start : Kernel
  kernel : Kernel
  new : List (XAction N × Int32)

/-- the files that these sentinels guard -/
def FileEnv.files (E : FileEnv n N) (held : Set (Fin n)) : Set FileId :=
  {f | ∃ x ∈ held, E.Guards x f}

/-- a system call on the copy -/
def FileLocal.sys {β : Type} (v : FileLocal n N) (f : Kernel → Except Errno β × Kernel)
    (b : Except Errno β) (v' : FileLocal n N) : Prop :=
  b = (f v.kernel).1 ∧ v' = { v with kernel := (f v.kernel).2 }

/-- `P` holds when `write` is called; nothing is said about other instructions -/
def localStep (E : FileEnv n N) (P : FileLocal n N → Prop) : StepRel (Instr n N) (FileLocal n N)
  | _, .getXactstate, b, v, v' => b = .retryable ∧ v' = v
  | _, .registerUndoAction a _ order, _, v, v' => v' = { v with new := v.new ++ [(a, order)] }
  | _, .linearMalloc _, _, v, v' => v' = v
  | _, .linearFree _, _, v, v' => v' = v
  | _, .store _ _, _, v, v' => v' = v
  | _, .lockFd _, _, v, v' => v' = v
  | _, .unlockFd _, _, v, v' => v' = v
  | _, .lookupFd2koa fd, b, v, v' => b = E.map fd ∧ v' = v
  | _, .getSentinel koa, b, v, v' => E.sentinel koa = some b ∧ v' = v
  | _, .tryacquire x _, b, v, v' =>
    v'.new = v.new ∧ v'.kernel = v'.start ∧ (b ≠ rBusysentinel → x ∈ v'.held)
  | _, .libcRead fd nbyte, b, v, v' => v.sys (fun k => sysRead k fd nbyte) b v'
  | _, .libcWrite fd buf, b, v, v' => P v ∧ v.sys (fun k => sysWrite k fd buf) b v'
  | _, .libcLseek fd offset whence, b, v, v' => v.sys (fun k => sysLseek k fd offset whence) b v'
  | _, .libcFtruncate fd length, b, v, v' => v.sys (fun k => sysFtruncate k fd length) b v'
  | _, .libcPwrite fd buf offset, b, v, v' => v.sys (fun k => sysPwrite k fd buf offset) b v'
  | _, _, _, _, _ => True

def FileLocal.Open (E : FileEnv n N) (v : FileLocal n N) (fd : Nat) : Prop :=
  OpenIn E.kernel (E.files v.held) fd

/-- the undo action of the call can restore the file, if it is held -/
def DataCall.RestorableIn (E : FileEnv n N) (c : DataCall) (v : FileLocal n N) : Prop :=
  v.Open E c.fd → c.Restorable v.kernel

/-- no sentinel is acquired behind a system call, and the files of system calls are held -/
def callGuard (E : FileEnv n N) : ∀ {β : Type}, Instr n N β → FileLocal n N → Prop
  | _, .getXactstate, _ => True
  | _, .registerUndoAction _ _ _, _ => True
  | _, .linearMalloc _, _ => True
  | _, .linearFree _, _ => True
  | _, .store _ _, _ => True
  | _, .lockFd _, _ => True
  | _, .unlockFd _, _ => True
  | _, .lookupFd2koa _, _ => True
  | _, .getSentinel _, _ => True
  | _, .tryacquire _ _, v => v.kernel = v.start ∧ v.new = []
  | _, .libcRead fd _, v => v.Open E fd
  | _, .libcWrite fd _, v => v.Open E fd
  | _, .libcLseek fd _ _, v => v.Open E fd
  | _, _, _ => False

def undoGuard (E : FileEnv n N) : ∀ {β : Type}, Instr n N β → FileLocal n N → Prop
  | _, .libcLseek fd _ _, v => v.Open E fd
  | _, .libcFtruncate fd _, v => v.Open E fd
  | _, .libcPwrite fd _ _, v => v.Open E fd
  | _, _, _ => False

/-! ## the calls -/

def FileLocal.Idle (v : FileLocal n N) : Prop := v.kernel = v.start ∧ v.new = []

structure CallDone (E : FileEnv n N) (c : DataCall) (r : DataResult) (v : FileLocal n N) :
    Prop where
  held : v.Open E c.fd
  plain : c.plain v.start = (r, v.kernel)
  undo : ∃ a, v.new = [(a, regularActionOrder)] ∧ a.undoes = some c.fd ∧
    Agree Kernel.fileObs Set.univ (a.sys v.kernel) v.start

def CallPost (E : FileEnv n N) (c : DataCall) : Except Stop DataResult → FileLocal n N → Prop
  | .ok r, v => if r.1 = -1 then v.Idle else CallDone E c r v
  | .error _, v => v.Idle

section
variable {E : FileEnv n N} {P : FileLocal n N → Prop} {v : FileLocal n N} {fd : Nat}
  {Q : Except Stop α → FileLocal n N → Prop}

theorem callPost_ok (c : DataCall) (r : DataResult) :
    CallPost E c (.ok r) v ↔ if r.1 = -1 then v.Idle else CallDone E c r v := Iff.rfl

theorem callPost_failed (c : DataCall) (h : v.Idle) : CallPost E c (.ok (-1, [])) v := by
  rw [callPost_ok, if_pos rfl]
  exact h

theorem callPost_done {c : DataCall} {r : DataResult} (hr : r.1 ≠ -1) (h : CallDone E c r v) :
    CallPost E c (.ok r) v := by
  rw [callPost_ok, if_neg hr]
  exact h

/-- the rule for what follows `acquireFd` -/
theorem guarded_acquireFd {f : Bool → XProg n N α} (hv : v.Idle)
    (herr : ∀ e v', v'.Idle → Q (.error e) v')
    (hfalse : guarded (localStep E P) (callGuard E) (f false) Q v)
    (htrue : ∀ v', v'.Idle → v'.Open E fd →
      guarded (localStep E P) (callGuard E) (f true) Q v') :
    guarded (localStep E P) (callGuard E) (acquireFd fd >>= f) Q v := by
  simp only [acquireFd, call_bind, op_bind]
  refine ⟨trivial, fun _ v₁ h₁ => ⟨trivial, fun koa v₂ h₂ => ?_⟩⟩
  obtain rfl : v₁ = v := h₁
  obtain ⟨rfl, rfl⟩ := h₂
  cases hm : E.map fd with
  | none =>
    refine ⟨trivial, fun _ v₃ h₃ => ?_⟩
    obtain rfl : v₃ = v₂ := h₃
    exact hfalse
  | some koa =>
    refine ⟨trivial, fun x v₃ h₃ => ⟨?_, fun r v₄ h₄ => ⟨trivial, fun _ v₅ h₅ => ?_⟩⟩⟩
    · obtain ⟨-, rfl⟩ := h₃
      exact hv
    · obtain ⟨hx, rfl⟩ := h₃
      obtain ⟨hnew, hstart, hheld⟩ := h₄
      obtain rfl : v₅ = v₄ := h₅
      have hidle : v₅.Idle := ⟨hstart, hnew.trans hv.2⟩
      by_cases hr : r = rBusysentinel
      · rw [if_pos hr]
        exact herr _ _ hidle
      · rw [if_neg hr]
        refine htrue v₅ hidle fun d hd => ⟨x, hheld hr, fd, koa, ?_, hm, hx⟩
        simp only [Kernel.fileOf, Kernel.openFile, hd, Option.map_some]

theorem guarded_finish {f : Int → XProg n N α} {result : Option Nat} {ret : Int} {e : Errno}
    (h : guarded (localStep E P) (callGuard E) (f ret) Q v) :
    guarded (localStep E P) (callGuard E) (finish result ret e >>= f) Q v := by
  refine ⟨trivial, fun _ v₁ h₁ => ?_⟩
  obtain rfl : v₁ = v := h₁
  exact h

theorem guarded_free {f : Unit → XProg n N α} {size : UInt32}
    (h : guarded (localStep E P) (callGuard E) (f ()) Q v) :
    guarded (localStep E P) (callGuard E) (call (.linearFree size) >>= f) Q v := by
  refine ⟨trivial, fun _ v₁ h₁ => ?_⟩
  obtain rfl : v₁ = v := h₁
  exact h

/-- a system call of the program: it fails and leaves the kernel alone, or succeeds -/
theorem guarded_sys {β : Type} {i : Instr n N (Except Errno β)}
    {f : Except Errno β → XProg n N α} (m : Kernel → Except Errno β × Kernel)
    (hi : callGuard E i v) (hstep : ∀ b v', localStep E P i b v v' → v.sys m b v')
    (hfail : ∀ {e}, (m v.kernel).1 = .error e → (m v.kernel).2 = v.kernel)
    (herr : ∀ e, (m v.kernel).1 = .error e →
      guarded (localStep E P) (callGuard E) (f (.error e)) Q v)
    (hok : ∀ b k', m v.kernel = (.ok b, k') →
      guarded (localStep E P) (callGuard E) (f (.ok b)) Q { v with kernel := k' }) :
    guarded (localStep E P) (callGuard E) (.op i f) Q v := by
  refine ⟨hi, fun b v' h => ?_⟩
  obtain ⟨rfl, rfl⟩ := hstep b v' h
  generalize hs : m v.kernel = s
  obtain ⟨e | b, k'⟩ := s
  · rw [hs] at hfail
    obtain rfl : k' = v.kernel := hfail rfl
    exact herr e (congrArg Prod.fst hs)
  · exact hok b k' hs

theorem xRead_local (nbyte : Nat) (result : Option Nat) (hv : v.Idle) :
    guarded (localStep E P) (callGuard E) (xRead fd nbyte result)
      (CallPost E (.read fd nbyte)) v := by
  simp only [xRead, call_bind]
  refine ⟨trivial, fun _ v₁ h₁ => ?_⟩
  obtain ⟨rfl, rfl⟩ := h₁
  refine guarded_acquireFd hv (fun _ _ h => h) (guarded_finish (callPost_failed _ hv))
    fun v hv hF => ⟨trivial, fun b v₁ h₁ => ?_⟩
  obtain rfl : v₁ = v := h₁
  cases b with
  | false => exact guarded_finish (callPost_failed _ hv)
  | true =>
    refine guarded_sys (fun k => sysRead k fd nbyte) hF (fun _ _ h => h) sysRead_error
      (fun _ _ => guarded_free (guarded_finish (callPost_failed _ hv))) fun data k' hs =>
        ⟨trivial, fun _ v₂ h₂ => guarded_finish (callPost_done (by dsimp only; omega) ?_)⟩
    obtain rfl := h₂
    obtain ⟨hstart, hnew⟩ := hv
    refine ⟨hF, ?_, .readUndo fd data.length, by rw [hnew]; rfl, rfl, ?_⟩
    · show DataCall.libc _ (sysRead v₁.start fd nbyte) = _
      rw [← hstart, hs]
      rfl
    · rw [← hstart]
      exact read_undone hs

/-- what `x_lseek` and `x_write` leave, for the value that they return -/
abbrev ValuePost (E : FileEnv n N) (c : DataCall) (r : Except Stop Int) : FileLocal n N → Prop :=
  CallPost E c (r.map fun a => (a, []))

theorem guarded_return {result : Option Nat} {ret : Int} {e : Errno} {c : DataCall}
    (h : CallPost E c (.ok (ret, [])) v) :
    guarded (localStep E P) (callGuard E) (finish result ret e) (ValuePost E c) v :=
  guarded_finish (f := fun a => .ret a) h

theorem guarded_done {c : DataCall} {a : XAction N} {ret : Int} {k' : Kernel} {result : Option Nat}
    (hv : v.Idle) (hF : v.Open E c.fd) (hplain : c.plain v.kernel = ((ret, []), k'))
    (hret : ret ≠ -1) (ha : a.undoes = some c.fd)
    (hback : Agree Kernel.fileObs Set.univ (a.sys k') v.kernel) :
    guarded (localStep E P) (callGuard E)
      (.op (.registerUndoAction a result regularActionOrder) fun _ => finish result ret 0)
      (ValuePost E c) { v with kernel := k' } := by
  obtain ⟨hstart, hnew⟩ := hv
  refine ⟨trivial, fun _ v₂ h₂ => guarded_return (callPost_done hret ?_)⟩
  obtain rfl := h₂
  refine ⟨hF, ?_, a, by rw [hnew]; rfl, ha, ?_⟩
  · show c.plain v.start = _
    rw [← hstart]
    exact hplain
  · rw [← hstart]
    exact hback

theorem sysLseek_here {k k₁ : Kernel} {old : Int} (h : sysLseek k fd 0 .seekCur = (.ok old, k₁)) :
    k₁ = k := by
  obtain ⟨d, x, hx, hd, hold, hbase, rfl⟩ := sysLseek_ok h
  have hx' : x = (k.files d).offset := by
    simp only [Kernel.base] at hbase
    omega
  subst hx'
  exact setOffset_self k d

theorem sysLseek_closed {k : Kernel} {e : Errno} (h : (sysLseek k fd 0 .seekCur).1 = .error e) :
    k.fds fd = none := by
  cases hd : k.fds fd with
  | none => rfl
  | some d =>
    rw [sysLseek_eq hd (x := (k.files d).offset) (Int.add_zero _) (k.offset_le d)] at h
    cases h

theorem xLseek_local (offset : Int) (whence : Whence) (result : Option Nat) (hv : v.Idle) :
    guarded (localStep E P) (callGuard E) (xLseek fd offset whence result)
      (ValuePost E (.lseek fd offset whence)) v := by
  simp only [xLseek, call_bind]
  refine ⟨trivial, fun _ v₁ h₁ => ?_⟩
  obtain ⟨rfl, rfl⟩ := h₁
  refine guarded_acquireFd hv (fun _ _ h => h) (guarded_return (callPost_failed _ hv))
    fun v hv hF => ⟨trivial, fun b v₁ h₁ => ?_⟩
  obtain rfl : v₁ = v := h₁
  have hplain : ∀ {w : Whence} {ret k'}, sysLseek v₁.kernel fd offset w = (.ok ret, k') →
      (DataCall.lseek fd offset w).plain v₁.kernel = ((ret, []), k') ∧ ret ≠ -1 := by
    intro w ret k' hs
    obtain ⟨d, x, hx, -, hpos, -⟩ := sysLseek_ok hs
    refine ⟨?_, by omega⟩
    show DataCall.libc _ (sysLseek v₁.kernel fd offset w) = _
    rw [hs]
    rfl
  cases b with
  | false => exact guarded_return (callPost_failed _ hv)
  | true =>
    simp only [Bool.not_true, Bool.false_eq_true, if_false]
    by_cases hw : whence = .seekCur
    · subst hw
      rw [if_pos rfl]
      refine guarded_sys (fun k => sysLseek k fd offset .seekCur) hF (fun _ _ h => h) sysLseek_error
        (fun _ _ => guarded_free (guarded_return (callPost_failed _ hv))) fun ret k' hs => ?_
      exact guarded_done hv hF (hplain hs).1 (hplain hs).2 rfl (seekCur_undone hs)
    · rw [if_neg hw]
      refine guarded_sys (fun k => sysLseek k fd 0 .seekCur) hF (fun _ _ h => h) sysLseek_error
        (fun e he => ?_) fun old k₁ h₁ => ?_
      · -- the descriptor is closed, and `lseek` fails again
        refine guarded_sys (fun k => sysLseek k fd offset whence) hF (fun _ _ h => h) sysLseek_error
          (fun _ _ => guarded_free (guarded_return (callPost_failed _ hv))) fun ret k' hs => ?_
        obtain ⟨d, x, hx, hd, -⟩ := sysLseek_ok hs
        cases (sysLseek_closed he).symm.trans hd
      · obtain rfl := sysLseek_here h₁
        refine guarded_sys (fun k => sysLseek k fd offset whence) hF (fun _ _ h => h) sysLseek_error
          (fun _ _ => guarded_free (guarded_return (callPost_failed _ hv))) fun ret k' hs => ?_
        exact guarded_done hv hF (hplain hs).1 (hplain hs).2 rfl (seekTo_undone h₁ hs)

/-! ## x_write -/

theorem guarded_write {buf : List UInt8} {f : Except Errno Nat → XProg n N α} (hF : v.Open E fd)
    (herr : ∀ e, guarded (localStep E P) (callGuard E) (f (.error e)) Q v)
    (hok : ∀ ret k', sysWrite v.kernel fd buf = (.ok ret, k') → P v →
      guarded (localStep E P) (callGuard E) (f (.ok ret)) Q { v with kernel := k' }) :
    guarded (localStep E P) (callGuard E) (.op (.libcWrite fd buf) f) Q v := by
  refine ⟨hF, fun b v' h => ?_⟩
  obtain ⟨hP, rfl, rfl⟩ := h
  beta_reduce
  generalize hs : sysWrite v.kernel fd buf = s
  obtain ⟨e | ret, k'⟩ := s
  · have hk : k' = v.kernel := by
      have := sysWrite_error (congrArg Prod.fst hs)
      rw [hs] at this
      exact this
    subst hk
    exact herr e
  · exact hok ret k' hs hP

theorem write_plain {buf : List UInt8} {flags : WriteFlags} {k k' : Kernel} {ret : Nat}
    (hs : sysWrite k fd buf = (.ok ret, k')) :
    (DataCall.write fd buf flags).plain k = (((ret : Int), []), k') := by
  show DataCall.libc _ (sysWrite k fd buf) = _
  rw [hs]
  rfl

/-- the end of `x_write` with `TXC_WRITE_OVR_SAVE`: the kernel is as it was before the read -/
theorem writeSave_done {buf : List UInt8} {result : Option Nat} {d : Nat}
    {f : Except Errno Nat → XProg n N Int} (hv : v.Idle) (hF : v.Open E fd)
    (hd : v.kernel.fds fd = some d)
    (herr : ∀ e, f (.error e) = .op (.linearFree (UInt32.ofNat buf.length)) fun _ =>
      .op (.linearFree writeArgsSize) fun _ => finish result (-1) e)
    (hok : ∀ written : Nat, f (.ok written) = .op (.registerUndoAction (.writeOvrUndo fd
      (some (v.kernel.readAt (v.kernel.files d) buf.length)) written
      (v.kernel.readAt (v.kernel.files d) buf.length).length) result regularActionOrder)
      fun _ => finish result written 0) :
    guarded (localStep E ((DataCall.write fd buf .ovrSave).RestorableIn E)) (callGuard E)
      (.op (.libcWrite fd buf) f) (ValuePost E (.write fd buf .ovrSave)) v := by
  refine guarded_write hF (fun e => ?_) fun ret k' hs hP => ?_
  · rw [herr]
    exact guarded_free (guarded_free (guarded_return (callPost_failed _ hv)))
  · rw [hok]
    exact guarded_done hv hF (write_plain hs) (by omega) rfl (writeSave_undone (hP hF) hd hs)

/-- `x_write` with `TXC_WRITE_OVR_SAVE` behind the read -/
theorem xWriteOvr_local {buf : List UInt8} {result : Option Nat} {d : Nat} {k₁ : Kernel}
    (hv : v.Idle) (hF : v.Open E fd)
    (hr : sysRead v.kernel fd buf.length
      = (.ok (v.kernel.readAt (v.kernel.files d) buf.length), k₁))
    (hd : v.kernel.fds fd = some d) :
    guarded (localStep E ((DataCall.write fd buf .ovrSave).RestorableIn E)) (callGuard E)
      (xWriteOvr fd buf result (some (v.kernel.readAt (v.kernel.files d) buf.length)))
      (ValuePost E (.write fd buf .ovrSave)) { v with kernel := k₁ } := by
  simp only [xWriteOvr, Option.getD_some, call_bind, Option.isSome_some, if_true]
  by_cases h0 : (v.kernel.readAt (v.kernel.files d) buf.length).length = 0
  · obtain rfl : k₁ = v.kernel := read_back hr (by rw [if_pos h0])
    rw [if_neg (by omega)]
    exact writeSave_done hv hF hd (fun _ => rfl) fun _ => rfl
  · rw [if_pos (by omega)]
    obtain ⟨d', hd', -, hk₁⟩ := sysRead_ok hr
    obtain rfl : d = d' := Option.some.inj (hd.symm.trans hd')
    have hback : sysLseek k₁ fd (-((v.kernel.readAt (v.kernel.files d) buf.length).length : Nat))
        .seekCur = (.ok ((v.kernel.files d).offset : Int), k₁.setOffset d (v.kernel.files d).offset
          (v.kernel.offset_le d)) := by
      refine sysLseek_back fd _ (by rw [hk₁]; exact hd) ?_ (v.kernel.offset_le d)
      rw [hk₁]
      simp only [Kernel.setOffset, Function.update_self]
    refine guarded_sys (fun k => sysLseek k fd (-((v.kernel.readAt (v.kernel.files d)
      buf.length).length : Nat)) .seekCur) hF (fun _ _ h => h) sysLseek_error
      (fun e he => by rw [hback] at he; cases he) fun pos k₂ h₂ => ?_
    obtain rfl : k₂ = v.kernel := read_back hr (by rw [if_neg h0]; exact ⟨pos, h₂⟩)
    exact writeSave_done hv hF hd (fun _ => rfl) fun _ => rfl

theorem xWrite_local (buf : List UInt8) (flags : WriteFlags) (result : Option Nat) (hv : v.Idle) :
    guarded (localStep E ((DataCall.write fd buf flags).RestorableIn E)) (callGuard E)
      (xWrite fd buf result flags) (ValuePost E (.write fd buf flags)) v := by
  simp only [xWrite, call_bind]
  refine ⟨trivial, fun _ v₁ h₁ => ?_⟩
  obtain ⟨rfl, rfl⟩ := h₁
  refine guarded_acquireFd hv (fun _ _ h => h) (guarded_return (callPost_failed _ hv))
    fun v hv hF => ⟨trivial, fun b v₁ h₁ => ?_⟩
  obtain rfl : v₁ = v := h₁
  cases b with
  | false => exact guarded_return (callPost_failed _ hv)
  | true =>
    simp only [Bool.not_true, Bool.false_eq_true, if_false]
    cases flags with
    | seq =>
      refine guarded_write hF (fun _ => guarded_free (guarded_return (callPost_failed _ hv)))
        fun ret k' hs hP => ?_
      exact guarded_done hv hF (write_plain hs) (by omega) rfl (writeSeq_undone (hP hF) hs)
    | ovrIgnore =>
      simp only [xWriteOvr, Option.getD_none, call_bind, Option.isSome_none]
      refine guarded_write hF (fun _ => guarded_free (guarded_return (callPost_failed _ hv)))
        fun ret k' hs hP => ?_
      exact guarded_done hv hF (write_plain hs) (by omega) rfl (writeIgnore_undone (hP hF) hs)
    | ovrSave =>
      refine ⟨trivial, fun b v₂ h₂ => ?_⟩
      obtain rfl : v₂ = v₁ := h₂
      cases b with
      | false =>
        exact guarded_free (guarded_return (callPost_failed _ hv))
      | true =>
        refine guarded_sys (fun k => sysRead k fd buf.length) hF (fun _ _ h => h) sysRead_error
          (fun _ _ => guarded_free (guarded_free (guarded_return (callPost_failed _ hv))))
          fun old k₁ hr => ?_
        obtain ⟨d, hd, rfl, -⟩ := sysRead_ok hr
        exact xWriteOvr_local hv hF hr hd

theorem guarded_value {c : DataCall} {p : XProg n N Int}
    (h : guarded (localStep E P) (callGuard E) p (ValuePost E c) v) :
    guarded (localStep E P) (callGuard E) (p >>= fun a => .ret (a, [])) (CallPost E c) v := by
  refine guarded_bind (guarded_mono (fun r v' hr => ?_) h)
  cases r with
  | error e => exact hr
  | ok a => exact hr

/-- **A call**: every system call is made on a file that is held. -/
theorem call_local (c : DataCall) (result : Option Nat) (hv : v.Idle) :
    guarded (localStep E (c.RestorableIn E)) (callGuard E) (c.prog result) (CallPost E c) v := by
  cases c with
  | read fd nbyte => exact xRead_local nbyte result hv
  | lseek fd offset whence => exact guarded_value (xLseek_local offset whence result hv)
  | write fd buf flags => exact guarded_value (xWrite_local buf flags result hv)

/-! ## the undo actions -/

def UndoPost (a : XAction N) (r : Except Stop Int) (v : FileLocal n N) : Prop :=
  v.kernel = a.sys v.start ∧ ∃ b, r = .ok b

/-- **An undo action**: every system call is made on a file that is held. -/
theorem undo_local {a : XAction N} (ha : a.undoes = some fd) (hF : v.Open E fd)
    (hv : v.kernel = v.start) :
    guarded (localStep E P) (undoGuard E) a.prog (UndoPost a) v := by
  cases a with
  | readUndo fd' nbyte =>
    cases ha
    simp only [XAction.prog, xReadUndo, call_bind]
    refine ⟨hF, fun b v₁ h₁ => ?_⟩
    obtain ⟨-, rfl⟩ := h₁
    cases b with
    | error e => exact ⟨by rw [← hv]; rfl, e, rfl⟩
    | ok r => exact ⟨by rw [← hv]; rfl, 0, rfl⟩
  | lseekUndo fd' pos =>
    cases ha
    simp only [XAction.prog, xLseekUndo, call_bind]
    refine ⟨hF, fun b v₁ h₁ => ?_⟩
    obtain ⟨-, rfl⟩ := h₁
    cases b with
    | error e => exact ⟨by rw [← hv]; rfl, e, rfl⟩
    | ok r => exact ⟨by rw [← hv]; rfl, 0, rfl⟩
  | writeSeqUndo fd' nbyte =>
    cases ha
    simp only [XAction.prog, xWriteSeqUndo, call_bind]
    refine ⟨hF, fun b v₁ h₁ => ?_⟩
    obtain ⟨hb, rfl⟩ := h₁
    rw [hv] at hb
    cases b with
    | error e => exact ⟨by rw [hv]; simp only [XAction.sys, ← hb], e, rfl⟩
    | ok offset =>
      refine ⟨hF, fun c v₂ h₂ => ?_⟩
      obtain ⟨-, rfl⟩ := h₂
      cases c with
      | error e => exact ⟨by rw [hv]; simp only [XAction.sys, ← hb], e, rfl⟩
      | ok r => exact ⟨by rw [hv]; simp only [XAction.sys, ← hb], 0, rfl⟩
  | writeOvrUndo fd' buf nbyteNew nbyteOld =>
    cases ha
    simp only [XAction.prog, xWriteOvrUndo, call_bind]
    refine ⟨hF, fun b v₁ h₁ => ?_⟩
    obtain ⟨hb, rfl⟩ := h₁
    rw [hv] at hb
    cases b with
    | error e => exact ⟨by rw [hv]; simp only [XAction.sys, writeOvrUndoSys, ← hb], e, rfl⟩
    | ok offset =>
      cases buf with
      | none => exact ⟨by rw [hv]; simp only [XAction.sys, writeOvrUndoSys, ← hb], 0, rfl⟩
      | some data =>
        by_cases hcut : nbyteOld < nbyteNew
        · simp only [hcut, if_true]
          refine ⟨hF, fun c v₂ h₂ => ?_⟩
          obtain ⟨hc, rfl⟩ := h₂
          rw [hv] at hc ⊢
          dsimp only at hc ⊢
          cases c with
          | error e =>
            exact ⟨by simp only [XAction.sys, writeOvrUndoSys, ← hb, hcut, if_true, ← hc], e, rfl⟩
          | ok u =>
            refine ⟨hF, fun w v₃ h₃ => ?_⟩
            obtain ⟨-, rfl⟩ := h₃
            have hk : (sysPwrite (sysFtruncate (sysLseek v.start fd (-nbyteNew) .seekCur).2 fd
                offset).2 fd (data.take nbyteOld.toNat) offset).2
                  = (XAction.writeOvrUndo fd (some data) nbyteNew nbyteOld : XAction N).sys v.start
                := by
              simp only [XAction.sys, writeOvrUndoSys, ← hb, hcut, if_true, ← hc]
            cases w with
            | error e => exact ⟨hk, e, rfl⟩
            | ok r => exact ⟨hk, 0, rfl⟩
        · simp only [hcut, if_false, pure_eq, ret_bind]
          refine ⟨hF, fun w v₂ h₂ => ?_⟩
          obtain ⟨-, rfl⟩ := h₂
          have hk : (sysPwrite (sysLseek v.start fd (-nbyteNew) .seekCur).2 fd
              (data.take nbyteOld.toNat) offset).2
                = (XAction.writeOvrUndo fd (some data) nbyteNew nbyteOld : XAction N).sys v.start
              := by
            simp only [XAction.sys, writeOvrUndoSys, ← hb, hcut, if_false]
          rw [hv]
          cases w with
          | error e => exact ⟨hk, e, rfl⟩
          | ok r => exact ⟨hk, 0, rfl⟩
  | _ => cases ha

end

end XCalls
