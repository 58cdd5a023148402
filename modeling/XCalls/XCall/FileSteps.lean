import XCalls.XCall.PathSteps

/-!
# What a call on the contents of a file does in a retryable transaction

* `FileView`     the view with the map from descriptors and the linear buffer, which decide whether
                 the call is carried out;
* `FileStep`     all that `x_read`, `x_lseek` and `x_write` can do to the kernel and to the lists of
                 actions, when every system call succeeds;
* `file_view`    they do nothing else.
-/

set_option linter.unusedSectionVars false

namespace XCalls
open Prog
variable {T : Type} [DecidableEq T] {n N : Nat}

/-! ## the view -/

structure FileView (N : Nat) extends View N where
  map : Nat → Option (Fin N)
  linear : BufferLinear

def fileView (m : XMach T n N) : FileView N :=
  { view m with
    map := m.world.koamgr.map
    linear := m.txd.bufferLinear }

def FileView.sysOk {β : Type} (v : FileView N) (f : Kernel → Except Errno β × Kernel)
    (b : Except Errno β) (v' : FileView N) : Prop :=
  ∃ a k', f v.kernel = (.ok a, k') ∧ b = .ok a ∧ v' = { v with kernel := k' }

/-- the instructions of these calls; nothing is said about the others -/
def fileStep : StepRel (Instr n N) (FileView N)
  | _, .getXactstate, b, v, v' => b = v.xactstate ∧ v' = v
  | _, .registerUndoAction a _ order, _, v, v' => v' = { v with undos := v.undos ++ [(a, order)] }
  | _, .linearMalloc size, b, v, v' =>
    b = (bufferLinearMalloc v.linear size).isSome ∧
      v' = { v with linear := (bufferLinearMalloc v.linear size).elim v.linear Prod.snd }
  | _, .linearFree size, _, v, v' => v' = { v with linear := bufferLinearFree v.linear size }
  | _, .store _ _, _, v, v' => v' = v
  | _, .tryacquire _ _, _, v, v' => v' = v
  | _, .lockFd _, _, v, v' => v' = v
  | _, .unlockFd _, _, v, v' => v' = v
  | _, .lookupFd2koa fd, b, v, v' => b = v.map fd ∧ v' = v
  | _, .getSentinel _, _, v, v' => v' = v
  | _, .libcRead fd nbyte, b, v, v' => v.sysOk (fun k => sysRead k fd nbyte) b v'
  | _, .libcWrite fd buf, b, v, v' => v.sysOk (fun k => sysWrite k fd buf) b v'
  | _, .libcLseek fd offset whence, b, v, v' => v.sysOk (fun k => sysLseek k fd offset whence) b v'
  | _, _, _, _, _ => True

section
variable {m m' : XMach T n N}

theorem syscall_koamgr {β : Type} (m : XMach T n N) (f : Kernel → Except Errno β × Kernel) :
    (syscall m f).2.world.koamgr = m.world.koamgr := by
  unfold syscall
  cases m.world.answers.faults.head?.join <;> rfl

theorem linear_tryacquire {mgr mgr' : SentinelMgr T n}
    {txd txd' : TxDesc (ActOf (XAction N)) (Fin n)} {t : T} {x : XactState} {s : Fin n}
    {flags : UInt32} {result r : Int}
    (h : sentinelTryacquire mgr txd t x s flags result = some (r, mgr', txd')) :
    txd'.bufferLinear = txd.bufferLinear := by
  have hreg : (registerSentinelmgrCommitAction (registerSentinelmgrUndoAction txd)).bufferLinear
      = txd.bufferLinear := by
    unfold registerSentinelmgrCommitAction registerSentinelmgrUndoAction
    split <;> split <;> simp only [txRegisterCommitAction_eq, txRegisterUndoAction_eq]
  unfold sentinelTryacquire at h
  split at h
  · cases x with
    | nontransactional => cases h
    | irrevocable =>
      cases h
      rfl
    | retryable =>
      simp only at h
      split at h
      all_goals
        cases h
        exact hreg
  · cases h
    rfl

theorem fileView_eq {w : View N} (hv : view m' = w)
    (hmap : m'.world.koamgr.map = m.world.koamgr.map)
    (hlin : m'.txd.bufferLinear = m.txd.bufferLinear) :
    fileView m' = { fileView m with toView := w } := by
  rw [fileView, hv, hmap, hlin]
  rfl

theorem handleOk_fileStep {β : Type} {i : Instr n N β} {b : β} (h : handleOk i m = some (b, m')) :
    fileStep i b (fileView m) (fileView m') := by
  obtain ⟨hnat, hok⟩ := handleOk_okStep h
  obtain ⟨hrun, -⟩ := only_eq_some.mp h
  have hsys : ∀ {γ : Type} {f : Kernel → Except Errno γ × Kernel} {b : Except Errno γ},
      some (syscall m f) = some (b, m') → (view m).sys f b (view m') → b.isOk = true →
      (fileView m).sysOk f b (fileView m') := by
    rintro γ f b hs ⟨hb, hv⟩ hbok
    obtain ⟨a, rfl⟩ := ok_of_isOk hbok
    have hk := syscall_koamgr m f
    have ht := syscall_txd m f
    rw [Option.some.inj hs] at hk ht
    refine ⟨a, (f m.world.kernel).2, Prod.ext hb.symm rfl, rfl, ?_⟩
    exact fileView_eq hv (by rw [hk]) (by rw [ht])
  cases i with
  | libcRead | libcWrite | libcLseek => exact hsys hrun hnat hok
  | getXactstate | lookupFd2koa =>
    cases hrun
    exact ⟨rfl, rfl⟩
  | lockFd | unlockFd | linearFree =>
    cases hrun
    rfl
  | registerUndoAction a result order =>
    cases hrun
    have hnat : view _ = _ := hnat
    refine fileView_eq hnat rfl ?_
    rw [txRegisterUndoAction_eq]
  | linearMalloc size =>
    simp only [handle] at hrun
    split at hrun
    · rename_i hm
      cases hrun
      refine ⟨by rw [fileView, hm]; rfl, ?_⟩
      rw [fileView, hm]
      rfl
    · rename_i a l hm
      cases hrun
      refine ⟨by rw [fileView, hm]; rfl, ?_⟩
      rw [fileView, fileView, hm]
      rfl
  | store p v =>
    cases hrun
    cases p <;> rfl
  | tryacquire s flags =>
    simp only [handle, Option.map_eq_some_iff] at hrun
    obtain ⟨⟨r, mgr, txd⟩, h1, h2⟩ := hrun
    cases h2
    have hnat : view _ = view m := hnat
    exact fileView_eq hnat rfl (linear_tryacquire h1)
  | getSentinel k =>
    simp only [handle, Option.map_eq_some_iff] at hrun
    obtain ⟨s, -, h2⟩ := hrun
    cases h2
    rfl
  | _ => trivial

/-- the rule for runs on which every system call succeeds -/
theorem run_fileView {α : Type} {p : XProg n N α} {Q : Except Stop α → FileView N → Prop}
    {r : Except Stop α} (hwp : wp fileStep p Q (fileView m))
    (h : run handleOk p m = some (r, m')) : Q r (fileView m') := by
  have hR : ∀ {β : Type} (i : Instr n N β) (b : β) (s s' : XMach T n N), True →
      handleOk i s = some (b, s') → fileStep i b (fileView s) (fileView s') ∧ True :=
    fun i b s s' _ hs => ⟨handleOk_fileStep hs, trivial⟩
  exact (wp_run hR trivial hwp h).1

end

/-! ## the steps -/

/-- `x_write_ovr` of `nbyte` bytes is carried out: the descriptor has a KOA, and there is room for
the arguments of the undo action and for the old bytes -/
def FileView.carried (v : FileView N) (fd nbyte : Nat) : Bool :=
  (v.map fd).isSome &&
    ((bufferLinearMalloc v.linear writeArgsSize).bind fun r =>
      bufferLinearMalloc r.2 (UInt32.ofNat nbyte)).isSome

/-- the calls on contents -/
def XCall.OnContents : XCall → Prop
  | .read _ _ => True
  | .lseek _ _ _ => True
  | .write _ _ _ => True
  | _ => False

inductive FileStep (v : FileView N) : XCall → View N → Prop
  | refused {c : XCall}
      (hc : ∀ fd buf, c = .write fd buf .ovrSave → v.carried fd buf.length = false) :
      FileStep v c v.toView
  | read {fd nbyte : Nat} {data : List UInt8} {k' : Kernel}
      (hr : sysRead v.kernel fd nbyte = (.ok data, k')) :
      FileStep v (.read fd nbyte) { v.toView with
        kernel := k'
        undos := v.undos ++ [(.readUndo fd data.length, regularActionOrder)] }
  | seekCur {fd : Nat} {offset ret : Int} {k' : Kernel}
      (hs : sysLseek v.kernel fd offset .seekCur = (.ok ret, k')) :
      FileStep v (.lseek fd offset .seekCur) { v.toView with
        kernel := k'
        undos := v.undos ++ [(.lseekUndo fd (ret - offset), regularActionOrder)] }
  | seekTo {fd : Nat} {offset old ret : Int} {whence : Whence} {k₁ k' : Kernel}
      (ho : sysLseek v.kernel fd 0 .seekCur = (.ok old, k₁))
      (hs : sysLseek k₁ fd offset whence = (.ok ret, k')) :
      FileStep v (.lseek fd offset whence) { v.toView with
        kernel := k'
        undos := v.undos ++ [(.lseekUndo fd old, regularActionOrder)] }
  | writeSeq {fd ret : Nat} {buf : List UInt8} {k' : Kernel}
      (hw : sysWrite v.kernel fd buf = (.ok ret, k')) :
      FileStep v (.write fd buf .seq) { v.toView with
        kernel := k'
        undos := v.undos ++ [(.writeSeqUndo fd ret, regularActionOrder)] }
  | writeIgnore {fd ret : Nat} {buf : List UInt8} {k' : Kernel}
      (hw : sysWrite v.kernel fd buf = (.ok ret, k')) :
      FileStep v (.write fd buf .ovrIgnore) { v.toView with
        kernel := k'
        undos := v.undos ++ [(.writeOvrUndo fd none ret 0, regularActionOrder)] }
  | writeSave {fd ret : Nat} {buf old : List UInt8} {k₁ k₂ k' : Kernel}
      (hc : v.carried fd buf.length = true)
      (hr : sysRead v.kernel fd buf.length = (.ok old, k₁))
      (hb : if old.length = 0 then k₂ = k₁
        else ∃ pos, sysLseek k₁ fd (-old.length) .seekCur = (.ok pos, k₂))
      (hw : sysWrite k₂ fd buf = (.ok ret, k')) :
      FileStep v (.write fd buf .ovrSave) { v.toView with
        kernel := k'
        undos := v.undos ++ [(.writeOvrUndo fd (some old) ret old.length, regularActionOrder)] }

/-- where a call leaves the view: at a step, or where it was when it aborts the transaction -/
def FilePost (v : FileView N) (c : XCall) : Except Stop Int → FileView N → Prop
  | .ok _, v' => FileStep v c v'.toView
  | .error _, v' => v'.toView = v.toView

theorem acquireFd_fileView (fd : Nat) (v : FileView N) :
    wp fileStep (acquireFd fd : XProg n N Bool)
      (fun r v' => v' = v ∧ ∀ b, r = .ok b → b = (v.map fd).isSome) v := by
  simp only [acquireFd, call_bind, wp_op, fileStep]
  rintro _ _ rfl _ v ⟨rfl, rfl⟩
  cases hm : v.map fd with
  | none =>
    simp only [wp_op]
    rintro _ v rfl
    exact ⟨rfl, by rintro b ⟨⟩; rfl⟩
  | some koa =>
    simp only [wp_op]
    rintro s _ rfl r _ rfl _ v rfl
    split
    · exact ⟨rfl, fun b h => by cases h⟩
    · exact ⟨rfl, by rintro b ⟨⟩; rfl⟩

theorem wp_acquireFd {α : Type} {fd : Nat} {f : Bool → XProg n N α} {v : FileView N}
    {Q : Except Stop α → FileView N → Prop} (he : ∀ e, Q (.error e) v)
    (hf : wp fileStep (f (v.map fd).isSome) Q v) : wp fileStep (acquireFd fd >>= f) Q v := by
  refine wp_bind (wp_mono ?_ (acquireFd_fileView fd v))
  rintro (e | b) v' ⟨rfl, hb⟩
  · exact he e
  · rw [hb b rfl]
    exact hf

@[simp] theorem wp_finish_file (result : Option Nat) (ret : Int) (e : Errno)
    (Q : Except Stop Int → FileView N → Prop) (v : FileView N) :
    wp fileStep (finish result ret e : XProg n N Int) Q v ↔ Q (.ok ret) v := by
  simp [finish, wp_op, fileStep]

theorem refused_of_ne {v : FileView N} {c : XCall} (h : ∀ fd buf, c ≠ .write fd buf .ovrSave) :
    FileStep v c v.toView := .refused fun fd buf hc => absurd hc (h fd buf)

theorem xRead_view (fd nbyte : Nat) (result : Option Nat) (v : FileView N)
    (hv : v.xactstate = .retryable) :
    wp fileStep ((XCall.read fd nbyte).prog result : XProg n N Int)
      (FilePost v (.read fd nbyte)) v := by
  have hne : ∀ fd' buf, XCall.read fd nbyte ≠ .write fd' buf .ovrSave := fun _ _ h => by cases h
  simp only [XCall.prog, xRead, call_bind, op_bind, wp_op, fileStep]
  rintro _ v ⟨rfl, rfl⟩
  rw [hv]
  refine wp_bind (wp_acquireFd (fun _ => rfl) ?_)
  cases hm : (v.map fd).isSome with
  | false => exact fun _ _ hst => hst ▸ refused_of_ne hne
  | true =>
    simp only [Bool.not_true, Bool.false_eq_true, if_false, wp_op]
    rintro b _ ⟨-, rfl⟩
    cases b with
    | false => exact fun _ _ hst => hst ▸ refused_of_ne hne
    | true =>
      simp only [Bool.not_true, Bool.false_eq_true, if_false, wp_op]
      rintro _ _ ⟨data, k', hr, rfl, rfl⟩ _ _ rfl _ _ rfl
      exact .read hr

theorem xLseek_view (fd : Nat) (offset : Int) (whence : Whence) (result : Option Nat)
    (v : FileView N) (hv : v.xactstate = .retryable) :
    wp fileStep (xLseek fd offset whence result : XProg n N Int)
      (FilePost v (.lseek fd offset whence)) v := by
  have hne : ∀ fd' buf, XCall.lseek fd offset whence ≠ .write fd' buf .ovrSave :=
    fun _ _ h => by cases h
  simp only [xLseek, call_bind, wp_op, fileStep]
  rintro _ v ⟨rfl, rfl⟩
  rw [hv]
  refine wp_acquireFd (fun _ => rfl) ?_
  cases hm : (v.map fd).isSome with
  | false =>
    simp only [Bool.not_false, if_true, wp_finish_file]
    exact refused_of_ne hne
  | true =>
    simp only [Bool.not_true, Bool.false_eq_true, if_false, wp_op]
    rintro b _ ⟨-, rfl⟩
    cases b with
    | false =>
      simp only [Bool.not_false, if_true, wp_finish_file]
      exact refused_of_ne hne
    | true =>
      simp only [Bool.not_true, Bool.false_eq_true, if_false]
      split
      · rename_i hw
        subst hw
        rintro _ _ ⟨ret, k', hs, rfl, rfl⟩ _ _ rfl
        rw [wp_finish_file]
        exact .seekCur hs
      · rintro _ _ ⟨old, k₁, ho, rfl, rfl⟩ _ _ ⟨ret, k', hs, rfl, rfl⟩ _ _ rfl
        rw [wp_finish_file]
        exact .seekTo ho hs

/-- `x_write_ovr_save` behind its allocations -/
theorem xWriteOvr_save {v : FileView N} {fd : Nat} {buf old : List UInt8} {k₁ : Kernel}
    {l : BufferLinear} (result : Option Nat) (hc : v.carried fd buf.length = true)
    (hr : sysRead v.kernel fd buf.length = (.ok old, k₁)) :
    wp fileStep (xWriteOvr fd buf result (some old) : XProg n N Int)
      (FilePost v (.write fd buf .ovrSave)) { v with kernel := k₁, linear := l } := by
  simp only [xWriteOvr, call_bind, Option.getD_some]
  by_cases h0 : old.length = 0
  · rw [if_neg (by omega)]
    rintro _ _ ⟨ret, k', hw, rfl, rfl⟩ _ _ rfl
    rw [wp_finish_file]
    exact .writeSave hc hr (by rw [if_pos h0]) hw
  · rw [if_pos (by omega)]
    rintro _ _ ⟨pos, k₂, hs, rfl, rfl⟩ _ _ ⟨ret, k', hw, rfl, rfl⟩ _ _ rfl
    rw [wp_finish_file]
    exact .writeSave hc hr (by rw [if_neg h0]; exact ⟨pos, hs⟩) hw

theorem xWrite_view (fd : Nat) (buf : List UInt8) (flags : WriteFlags) (result : Option Nat)
    (v : FileView N) (hv : v.xactstate = .retryable) :
    wp fileStep (xWrite fd buf result flags : XProg n N Int)
      (FilePost v (.write fd buf flags)) v := by
  simp only [xWrite, call_bind, wp_op, fileStep]
  rintro _ v ⟨rfl, rfl⟩
  rw [hv]
  refine wp_acquireFd (fun _ => rfl) ?_
  cases hm : (v.map fd).isSome with
  | false =>
    simp only [Bool.not_false, if_true, wp_finish_file]
    refine .refused fun fd' buf' h => ?_
    cases h
    rw [FileView.carried, hm, Bool.false_and]
  | true =>
    simp only [Bool.not_true, Bool.false_eq_true, if_false, wp_op]
    rintro b _ ⟨rfl, rfl⟩
    cases ha : bufferLinearMalloc v.linear writeArgsSize with
    | none =>
      simp only [Option.isSome_none, Bool.not_false, if_true, wp_finish_file]
      refine .refused fun fd' buf' h => ?_
      rw [FileView.carried, ha, Option.bind_none, Option.isSome_none, Bool.and_false]
    | some l =>
      simp only [Option.isSome_some, Bool.not_true, Bool.false_eq_true, if_false]
      cases flags with
      | seq =>
        rintro _ _ ⟨ret, k', hw, rfl, rfl⟩ _ _ rfl
        rw [wp_finish_file]
        exact .writeSeq hw
      | ovrIgnore =>
        simp only [xWriteOvr, Option.getD_none, List.length_nil, call_bind]
        rintro _ _ ⟨ret, k', hw, rfl, rfl⟩ _ _ rfl
        rw [wp_finish_file]
        exact .writeIgnore hw
      | ovrSave =>
        rintro b _ ⟨hb, rfl⟩
        have hcar : v.carried fd buf.length = b := by
          rw [FileView.carried, hm, ha, Bool.true_and, Option.bind_some, hb]
          rfl
        cases b with
        | false =>
          rintro _ _ rfl
          rw [wp_finish_file]
          refine .refused fun fd' buf' h => ?_
          cases h
          exact hcar
        | true =>
          rintro _ _ ⟨old, k₁, hr, rfl, rfl⟩
          exact xWriteOvr_save result hcar hr

/-- **The steps of a call on contents.** -/
theorem file_view {c : XCall} (hc : c.OnContents) (result : Option Nat) (v : FileView N)
    (hv : v.xactstate = .retryable) :
    wp fileStep (c.prog result : XProg n N Int) (FilePost v c) v := by
  cases c with
  | read fd nbyte => exact xRead_view fd nbyte result v hv
  | lseek fd offset whence => exact xLseek_view fd offset whence result v hv
  | write fd buf flags => exact xWrite_view fd buf flags result v hv
  | _ => exact hc.elim

end XCalls
