import XCalls.XCall.SerialInv
import XCalls.XCall.Threads

/-!
# File transactions are serializable: the instructions

* `Goes`         what a step of a thread is for the other ones: it has made system calls on its
                 files, or has got sentinels that were free;
* `InCall.step`   an instruction of a call;
* `file_transactions_serializable`   every interleaving.
-/

set_option linter.unusedSectionVars false

namespace XCalls
open Prog TwoPhase EventSys
variable {T : Type} [DecidableEq T] {n N : Nat}

/-! ## instructions -/

structure Goes (E : FileEnv n N) (s s' : InstrProcess T n N) (t : T) (base : Kernel)
    (copy copy' : T → Kernel) : Prop where
  shared : Shared E s' base copy'
  others : ∀ u, u ≠ t → s'.thread u = s.thread u ∧ s'.heldBy u = s.heldBy u ∧ copy' u = copy u

section
variable {E : FileEnv n N} {s s' : InstrProcess T n N} {base : Kernel} {copy copy' : T → Kernel}
  {t : T} {m : XMach T n N} {phase : InstrPhase n N} {v : FileLocal n N}
  {old : List (XAction N × Int32)}

theorem Goes.serial (h : Goes E s s' t base copy copy') (hS : Shared E s base copy)
    (hT : ∀ u, ThreadInv E (s.heldBy u) base (copy u) (s.thread u))
    (ht : ThreadInv E (s'.heldBy t) base (copy' t) (s'.thread t)) : SerialInv E s' :=
  .of_step hS hT h.shared (fun u hu => ⟨(h.others u hu).1, (h.others u hu).2.1,
    (h.others u hu).2.2, Agree.refl _⟩) ht

theorem heldBy_leave (hkoa : m.world.koamgr = s.mach.world.koamgr) (u : T) :
    (s.leave t m phase).heldBy u = s.heldBy u := by
  ext x
  show (m.world.koamgr.sentinelmgr.sentinel x).mutex = _ ↔ _
  rw [hkoa]
  exact Iff.rfl

theorem Goes.quiet (hS : Shared E s base copy) (phase : InstrPhase n N)
    (hk : m.world.kernel = s.kernel) (hkoa : m.world.koamgr = s.mach.world.koamgr)
    (hf : m.world.answers.faults = []) (hl : m.txd.sentinelList = (s.thread t).txd.sentinelList) :
    Goes E s (s.leave t m phase) t base copy copy where
  shared := (hS.mach hk hkoa hf).set hl
  others u hu := ⟨Function.update_of_ne hu _ _, heldBy_leave hkoa u, rfl⟩

theorem Goes.sys (hS : Shared E s base copy) (phase : InstrPhase n N) {R : Type}
    {f : Kernel → R × Kernel}
    (hloc : Confined Kernel.fileObs (Like E.kernel) (E.files (s.heldBy t)) f)
    (hk : m.world.kernel = (f s.kernel).2) (hkoa : m.world.koamgr = s.mach.world.koamgr)
    (hf : m.world.answers.faults = []) (hl : m.txd.sentinelList = (s.thread t).txd.sentinelList) :
    (f s.kernel).1 = (f (copy t)).1 ∧
      Goes E s (s.leave t m phase) t base copy (Function.update copy t (f (copy t)).2) := by
  obtain ⟨hr, hS'⟩ := hS.sys hloc hk hkoa hf
  exact ⟨hr, hS'.set hl, fun u hu => ⟨Function.update_of_ne hu _ _, heldBy_leave hkoa u,
    Function.update_of_ne hu _ _⟩⟩

def InCall.Goes {β : Type} (E : FileEnv n N) (s : InstrProcess T n N) (t : T) (base : Kernel)
    (copy : T → Kernel) (old : List (XAction N × Int32)) (P : FileLocal n N → Prop)
    (i : Instr n N β) (b : β) (m : XMach T n N) (phase : InstrPhase n N) (v : FileLocal n N) :
    Prop :=
  ∃ copy' v', XCalls.Goes E s (s.leave t m phase) t base copy copy' ∧ localStep E P i b v v' ∧
    InCall E ((s.leave t m phase).heldBy t) base (copy' t) m.txd (s.thread t).live old v'

variable {P : FileLocal n N → Prop} {β : Type} {i : Instr n N β} {b : β}

/-- an instruction that leaves the kernel and the KOA manager alone -/
theorem InCall.quiet (hS : Shared E s base copy) (phase : InstrPhase n N)
    (h : InCall E (s.heldBy t) base (copy t) (s.thread t).txd (s.thread t).live old v)
    {new : List (XAction N × Int32)} (hk : m.world.kernel = s.kernel)
    (hkoa : m.world.koamgr = s.mach.world.koamgr) (hf : m.world.answers.faults = [])
    (hl : m.txd.sentinelList = (s.thread t).txd.sentinelList)
    (hu : others m.txd.undoActionList.entries = old ++ new) (htxd : TxdOk m.txd)
    (hi : localStep E P i b v { v with new := new }) :
    InCall.Goes E s t base copy old P i b m phase v := by
  refine ⟨copy, { v with new := new }, .quiet hS phase hk hkoa hf hl, hi, ?_⟩
  rw [heldBy_leave hkoa]
  exact ⟨h.held, h.kernel, h.like, hu, h.ready, htxd⟩

/-- **The sentinel of a file is tried**: the thread gets it, or it is busy. -/
theorem InCall.enlist (hS : Shared E s base copy) (phase : InstrPhase n N)
    (h : InCall E (s.heldBy t) base (copy t) (s.thread t).txd (s.thread t).live old v)
    (hstart : v.kernel = v.start) {mgr : SentinelMgr T n} {x : Fin n} {flags : UInt32} {r : Int}
    (hk : m.world.kernel = s.kernel)
    (hkoa : m.world.koamgr = { s.mach.world.koamgr with sentinelmgr := mgr })
    (hf : m.world.answers.faults = [])
    (hs : SentinelsOk mgr
      (Function.update (fun u => (s.thread u).txd.sentinelList) t m.txd.sentinelList))
    (hmutex : ∀ y, (mgr.sentinel y).mutex = s.mutex y ∨
      s.mutex y = none ∧ (mgr.sentinel y).mutex = some t)
    (hu : others m.txd.undoActionList.entries = others (s.thread t).txd.undoActionList.entries)
    (htxd : TxdOk m.txd) (hx : r ≠ rBusysentinel → (mgr.sentinel x).mutex = some t) :
    InCall.Goes E s t base copy old P (.tryacquire x flags) r m phase v := by
  obtain ⟨hS', hheld, hag, hnew, hother⟩ := hS.acquire phase hk hkoa hf hs hmutex
  have hready : BetweenCalls E ((s.leave t m phase).heldBy t) base s.kernel old
      (s.thread t).live := by
    refine BetweenCalls.grow ?_ hS.isolated.wfBase (hS.isolated.wfCopy t) hS.isolated.wfState hheld
      hag hnew
    rw [← h.kernel, hstart]
    exact h.ready
  refine ⟨_, ⟨(s.leave t m phase).heldBy t, s.kernel, s.kernel, v.new⟩, ⟨hS', fun u hu =>
    ⟨Function.update_of_ne hu _ _, hother u hu, Function.update_of_ne hu _ _⟩⟩,
    ⟨rfl, rfl, fun hr => ?_⟩, rfl, ?_, hS.isolated.wfState, hu.trans h.undos, hready, htxd⟩
  · show (s.leave t m phase).mutex x = some t
    rw [leave_mutex hkoa]
    exact hx hr
  · rw [Function.update_self]

theorem InCall.tryacquire (hS : Shared E s base copy) (phase : InstrPhase n N)
    (h : InCall E (s.heldBy t) base (copy t) (s.thread t).txd (s.thread t).live old v)
    (hstart : v.kernel = v.start) (hx : (s.thread t).phase.xactstate = .retryable) {x : Fin n}
    {flags : UInt32} {garbage : List Int} {r : Int}
    (hi : handle (.tryacquire x flags) (s.enterWith t garbage) = some (r, m)) :
    InCall.Goes E s t base copy old P (.tryacquire x flags) r m phase v := by
  obtain ⟨res, hres, hm⟩ := Option.map_eq_some_iff.mp hi
  have hstate : (s.enterWith t garbage).world.xactstate = .retryable := hx
  unfold sentinelTryacquire at hres
  rw [hstate] at hres
  dsimp only at hres
  have htxd := h.txd.registerMgrUndo.registerMgrCommit
  obtain ⟨hu₁, -, hl₁, -⟩ := registerMgr_same (s.thread t).txd
  obtain ⟨-, hu₂, -, hl₂⟩ := registerMgr_same (registerSentinelmgrUndoAction (s.thread t).txd)
  have hattach := sentinelAttach_mutex s.mach.world.koamgr.sentinelmgr x
  split at hres
  · split at hres
    · rename_i hfree
      cases hres
      cases hm
      have hlock : ∀ y, ((sentinelLock (sentinelAttach s.mach.world.koamgr.sentinelmgr x) t
          x).sentinel y).mutex = if y = x then some t else s.mutex y := by
        intro y
        rw [(sentinelLock_mutex _ t x y).1, (hattach y).1]
        rfl
      have howner : ∀ y, ((sentinelLock (sentinelAttach s.mach.world.koamgr.sentinelmgr x) t
          x).sentinel y).owner = if y = x then some t
            else (s.mach.world.koamgr.sentinelmgr.sentinel y).owner := by
        intro y
        rw [(sentinelLock_mutex _ t x y).2, (hattach y).2]
      have hsent := hS.sentinels.lock hfree hlock howner
        (sentinelAcquired ||| acquireOnRetry flags)
      rw [← hl₁, ← hl₂] at hsent
      refine h.enlist hS phase hstart rfl rfl hS.faults hsent (fun y => ?_) (hu₂.trans hu₁)
        ⟨htxd.1, htxd.2, htxd.3, htxd.4⟩ fun _ => (hlock x).trans (if_pos rfl)
      by_cases hy : y = x
      · exact Or.inr ⟨hy ▸ hfree, (hlock y).trans (if_pos hy)⟩
      · exact Or.inl ((hlock y).trans (if_neg hy))
    · cases hres
      cases hm
      have hsent := hS.sentinels.busy (t := t) (fun y => (hattach y).1) (fun y => (hattach y).2)
        (busy_enlisted x flags)
      rw [← hl₁, ← hl₂] at hsent
      exact h.enlist hS phase hstart rfl rfl hS.faults hsent (fun y => Or.inl (hattach y).1)
        (hu₂.trans hu₁) ⟨htxd.1, htxd.2, htxd.3, htxd.4⟩ fun hr => absurd rfl hr
  · rename_i howner
    cases hres
    cases hm
    have hx : s.mutex x = some t :=
      ((hS.sentinels.owner x).symm).trans (Classical.byContradiction howner)
    refine h.quiet hS phase rfl rfl hS.faults rfl h.undos h.txd ⟨rfl, hstart, fun _ => ?_⟩
    rw [h.held]
    exact hx

/-- a system call of the thread, when none fails for a reason outside the model -/
theorem syscall_enter (hS : Shared E s base copy) (garbage : List Int)
    (f : Kernel → Except Errno β × Kernel) :
    ∃ m, syscall (s.enterWith t garbage) f = ((f s.kernel).1, m) ∧
      m.world.kernel = (f s.kernel).2 ∧ m.world.koamgr = s.mach.world.koamgr ∧
      m.world.answers.faults = [] ∧ m.txd = (s.thread t).txd := by
  have hf : (s.enterWith t garbage).world.answers.faults = [] := hS.faults
  have heq : syscall (s.enterWith t garbage) f = ((f s.kernel).1, (syscall (s.enterWith t garbage)
      f).2) := by
    unfold syscall
    rw [hf]
    rfl
  refine ⟨_, heq, ?_⟩
  unfold syscall
  rw [hf]
  exact ⟨rfl, rfl, rfl, rfl⟩

theorem InCall.syscall (hS : Shared E s base copy) (phase : InstrPhase n N)
    (h : InCall E (s.heldBy t) base (copy t) (s.thread t).txd (s.thread t).live old v)
    {γ : Type} {i : Instr n N (Except Errno γ)} {b : Except Errno γ} {garbage : List Int}
    {f : Kernel → Except Errno γ × Kernel}
    (hloc : Confined Kernel.fileObs (Like E.kernel) (E.files (s.heldBy t)) f)
    (hi : some (XCalls.syscall (s.enterWith t garbage) f) = some (b, m))
    (hstep : ∀ v', v.sys f b v' → localStep E P i b v v') :
    InCall.Goes E s t base copy old P i b m phase v := by
  obtain ⟨m', heq, hk, hkoa, hf, htxd⟩ := syscall_enter (t := t) hS garbage f
  rw [heq] at hi
  cases hi
  obtain ⟨hr, hgoes⟩ := Goes.sys hS phase hloc hk hkoa hf (by rw [htxd])
  refine ⟨_, { v with kernel := (f v.kernel).2 }, hgoes, hstep _ ⟨?_, rfl⟩, ?_⟩
  · rw [h.kernel]
    exact hr
  · rw [heldBy_leave hkoa, Function.update_self, htxd]
    exact ⟨h.held, by rw [h.kernel], h.like, h.undos, h.ready, h.txd⟩

/-- **An instruction of a call**, behind its guard. -/
theorem InCall.step (hS : Shared E s base copy) (phase : InstrPhase n N)
    (h : InCall E (s.heldBy t) base (copy t) (s.thread t).txd (s.thread t).live old v)
    (hx : (s.thread t).phase.xactstate = .retryable) (hg : callGuard E i v)
    {α : Type} {k : β → XProg n N α} (hP : writesNext (.op i k) = true → P v)
    {garbage : List Int} (hi : handle i (s.enterWith t garbage) = some (b, m)) :
    InCall.Goes E s t base copy old P i b m phase v := by
  have hquiet : ∀ {new}, m.world = (s.enterWith t garbage).world →
      m.txd.sentinelList = (s.thread t).txd.sentinelList →
      others m.txd.undoActionList.entries = old ++ new → TxdOk m.txd →
      localStep E P i b v { v with new := new } →
      InCall.Goes E s t base copy old P i b m phase v := by
    intro new hw hl hu htxd hstep
    exact h.quiet hS phase (by rw [hw]; rfl) (by rw [hw]; rfl) (by rw [hw]; exact hS.faults) hl hu
      htxd hstep
  have hopen : ∀ fd, v.Open E fd → OpenIn E.kernel (E.files (s.heldBy t)) fd := by
    intro fd hfd
    rw [← h.held]
    exact hfd
  cases i with
  | getXactstate =>
    cases hi
    exact hquiet rfl rfl h.undos h.txd ⟨hx, rfl⟩
  | registerUndoAction a result order =>
    cases hi
    refine hquiet rfl ?_ ?_ (h.txd.registerUndo fun hm => absurd rfl (hm a)) rfl
    · rw [txRegisterUndoAction_eq]
      rfl
    · rw [txRegisterUndoAction_eq]
      simp only [entries_registerAction, others_append]
      rw [← List.append_assoc, ← h.undos]
      rfl
  | linearMalloc size =>
    simp only [handle] at hi
    split at hi
    · cases hi
      exact hquiet rfl rfl h.undos h.txd rfl
    · cases hi
      exact hquiet rfl rfl h.undos ⟨h.txd.1, h.txd.2, h.txd.3, h.txd.4⟩ rfl
  | linearFree size =>
    cases hi
    exact hquiet rfl rfl h.undos ⟨h.txd.1, h.txd.2, h.txd.3, h.txd.4⟩ rfl
  | store p x =>
    cases hi
    exact hquiet (Mach.store_world _ _ _) (by rw [Mach.store_txd]; rfl)
      (by rw [Mach.store_txd]; exact h.undos) (by rw [Mach.store_txd]; exact h.txd) rfl
  | lockFd fd =>
    cases hi
    exact hquiet rfl rfl h.undos h.txd rfl
  | unlockFd fd =>
    cases hi
    exact hquiet rfl rfl h.undos h.txd rfl
  | lookupFd2koa fd =>
    cases hi
    exact hquiet rfl rfl h.undos h.txd ⟨congrFun hS.map fd, rfl⟩
  | getSentinel koa =>
    obtain ⟨x, hkoa, hm⟩ := Option.map_eq_some_iff.mp hi
    cases hm
    exact hquiet rfl rfl h.undos h.txd ⟨(hS.sentinel koa).symm.trans hkoa, rfl⟩
  | tryacquire x flags => exact h.tryacquire hS phase hg.1 hx hi
  | libcRead fd nbyte =>
    exact h.syscall hS phase ((sysRead_onFile fd nbyte).isConfined (hopen fd hg)) hi fun _ hv => hv
  | libcWrite fd buf =>
    exact h.syscall hS phase ((sysWrite_onFile fd buf).isConfined (hopen fd hg)) hi fun _ hv =>
      ⟨hP rfl, hv⟩
  | libcLseek fd offset whence =>
    exact h.syscall hS phase ((sysLseek_onFile fd offset whence).isConfined (hopen fd hg)) hi
      fun _ hv => hv
  | _ => exact hg.elim

/-! ## the ends of a call and of an undo action -/

/-- a call returns -/
theorem InCall.returns {c : DataCall} {r : DataResult} {own : Set (Fin n)} {k : Kernel}
    (th : InstrThread n N) (h : InCall E own base k th.txd th.live old v) (hb : Like E.kernel base)
    (hk : Like E.kernel k) (hpost : CallPost E c (.ok r) v) :
    ThreadInv E own base k { th with phase := .running, live := th.live ++ succeeded c r } := by
  refine ⟨?_, h.txd⟩
  show BetweenCalls E own base k (others th.txd.undoActionList.entries) (th.live ++ succeeded c r)
  have hready := h.ready
  rw [callPost_ok] at hpost
  unfold succeeded
  split at hpost
  · rename_i hr
    obtain ⟨hstart, hnew⟩ := hpost
    rw [if_pos hr, h.undos, hnew, List.append_nil, List.append_nil, ← h.kernel, hstart]
    exact hready
  · rename_i hr
    obtain ⟨hopen, hplain, a, hnew, ha, hback⟩ := hpost
    have hF : OpenIn E.kernel (E.files own) c.fd := by
      rw [← h.held]
      exact hopen
    rw [if_neg hr, h.undos, hnew]
    have hahead := hready.ahead.snoc hb h.like (DataCall.plain_local hF)
    rw [hplain, h.kernel] at hahead
    refine ⟨hahead, ?_, ?_⟩
    · rw [List.reverse_append]
      refine hready.undone.back.cons (XAction.sys_local ha hF) h.like hk ?_
      rw [← h.kernel]
      exact hback.mono (Set.subset_univ _)
    · intro x hx
      rcases List.mem_append.mp (List.mem_reverse.mp hx) with hx | hx
      · exact hready.undone.undoes x (List.mem_reverse.mpr hx)
      · rw [List.mem_singleton.mp hx]
        exact ⟨rfl, c.fd, ha, hF⟩

theorem InCall.aborts {own : Set (Fin n)} {k : Kernel} (th : InstrThread n N)
    (h : InCall E own base k th.txd th.live old v) (hidle : v.Idle) (reason : AbortReason) :
    ThreadInv E own base k
      { th with txd := tmsystemAbortTransaction th.txd reason }.rollBack := by
  obtain ⟨hstart, hnew⟩ := hidle
  obtain ⟨htxd, hundos, -⟩ := h.txd.abort reason
  have hready := h.ready
  show ThreadInv E own base k (InstrThread.rollBack ⟨_, th.phase, th.live⟩)
  refine ThreadInv.rollBack ?_ htxd
  rw [hundos, h.undos, hnew, List.append_nil, ← h.kernel, hstart]
  exact hready

section
variable (hS : Shared E s base copy)
  (hT : ∀ u, ThreadInv E (s.heldBy u) base (copy u) (s.thread u))
include hS hT

/-- **A step of a call.** -/
theorem calling_serial {c : DataCall} {p : XProg n N DataResult} {garbage : List Int}
    (hp : (s.thread t).phase = .calling c p)
    (hrest : (InstrEvent.instr t garbage).Restores s)
    (hs' : instrStep s t garbage = some s') : SerialInv E s' := by
  obtain ⟨v, old, hin, hguard⟩ := (threadInv_iff _ hp).mp (hT t)
  unfold instrStep at hs'
  simp only [hp] at hs'
  cases p with
  | ret r =>
    cases hs'
    exact .set hS hT rfl (hin.returns (s.thread t) hS.isolated.wfBase (hS.isolated.wfCopy t)
      hguard)
  | stop e =>
    cases e with
    | internalError => cases hs'
    | abort reason =>
      cases hs'
      exact .set hS hT ((rollBack_sentinelList _).trans (hin.txd.abort reason).2.2)
        (hin.aborts (s.thread t) hguard reason)
  | op i k =>
    obtain ⟨⟨b, m⟩, hi, rfl⟩ := Option.map_eq_some_iff.mp hs'
    obtain ⟨hg, hnext⟩ := hguard
    have hwrite : writesNext (.op i k) = true → c.RestorableIn E v := by
      intro hw hopen
      have hnow : c.Restorable s.kernel := by
        simp only [InstrEvent.Restores, hp] at hrest
        exact hrest hw
      have hag := hS.isolated.owned t
      rw [hS.held_eq t] at hag
      rw [FileLocal.Open, hin.held] at hopen
      rw [hin.kernel]
      exact hnow.agree hopen hS.isolated.wfState (hS.isolated.wfCopy t) hag
    obtain ⟨copy', v', hgoes, hstep, hin'⟩ := hin.step hS (.calling c (k b)) (by rw [hp]; rfl) hg
      hwrite hi
    refine hgoes.serial hS hT ?_
    show ThreadInv _ _ _ _ (Function.update s.thread t _ t)
    rw [Function.update_self]
    exact ⟨v', old, hin', hnext b v' hstep⟩

theorem undo_syscall {γ : Type} {f : Kernel → Except Errno γ × Kernel} {b : Except Errno γ}
    {garbage : List Int}
    (hloc : Confined Kernel.fileObs (Like E.kernel) (E.files (s.heldBy t)) f)
    (hi : some (syscall (s.enterWith t garbage) f) = some (b, m)) (hk : v.kernel = copy t)
    (ht : ∀ v', v.sys f b v' →
      ThreadInv E (s.heldBy t) base v'.kernel ⟨(s.thread t).txd, phase, (s.thread t).live⟩) :
    SerialInv E (s.leave t m phase) := by
  obtain ⟨m', heq, hker, hkoa, hf, htxd⟩ := syscall_enter (t := t) hS garbage f
  rw [heq] at hi
  cases hi
  obtain ⟨hr, hgoes⟩ := Goes.sys hS phase hloc hker hkoa hf (by rw [htxd])
  refine hgoes.serial hS hT ?_
  show ThreadInv _ _ _ _ (Function.update s.thread t _ t)
  rw [Function.update_self, Function.update_self, heldBy_leave hkoa, htxd, ← hk]
  exact ht { v with kernel := (f v.kernel).2 } ⟨by rw [hk]; exact hr, rfl⟩

/-- **A step of an undo action.** -/
theorem acting_serial {g : GenericAction} {l : Loop (ActOf (XAction N))} {err : Int} {e : XEntry N}
    {p : XProg n N Int} {garbage : List Int} (hp : (s.thread t).phase = .acting g l err e p)
    (hs' : instrStep s t garbage = some s') : SerialInv E s' := by
  have ht := (threadInv_iff _ hp).mp (hT t)
  unfold instrStep at hs'
  simp only [hp] at hs'
  cases g with
  | commit => exact ht.elim
  | undo =>
    obtain ⟨v, a, rest, hheld, hkernel, hlike, hpend, hlate, hundone, hguard⟩ := ht
    cases p with
    | ret r =>
      cases hs'
      obtain ⟨hsys, -⟩ := hguard
      refine leave_serial hS hT (Mach.store_world _ _ _) (by rw [Mach.store_txd]; rfl) ?_
      rw [Mach.store_txd]
      have hrest : UndoesIn E.kernel (E.files (s.heldBy t)) rest :=
        fun x hx => hundone.undoes x (List.mem_cons_of_mem _ hx)
      rw [← hkernel, hsys]
      exact ⟨rest, hpend, hlate, ⟨effects_local hrest, hundone.back.back⟩, hrest⟩
    | stop e => cases hs'
    | op i k =>
      obtain ⟨⟨b, m⟩, hi, rfl⟩ := Option.map_eq_some_iff.mp hs'
      obtain ⟨hg, hnext⟩ := hguard
      have hopen : ∀ fd, v.Open E fd → OpenIn E.kernel (E.files (s.heldBy t)) fd := by
        intro fd hfd
        rw [← hheld]
        exact hfd
      have hgo : ∀ v', localStep E (fun _ => True) i b v v' → v'.held = v.held →
          v'.start = v.start → ThreadInv E (s.heldBy t) base v'.kernel
            ⟨(s.thread t).txd, .acting .undo l err e (k b), (s.thread t).live⟩ := by
        intro v' hstep hheld' hstart'
        refine ⟨v', a, rest, hheld'.trans hheld, rfl, ?_, hpend, hlate, ?_, hnext b v' hstep⟩
        · rw [hstart']
          exact hlike
        · rw [hstart']
          exact hundone
      cases i with
      | libcLseek fd offset whence =>
        refine undo_syscall hS hT ((sysLseek_onFile fd offset whence).isConfined (hopen fd hg)) hi
          hkernel fun v' hv => hgo v' hv ?_ ?_
        all_goals
          obtain ⟨-, rfl⟩ := hv
          rfl
      | libcFtruncate fd length =>
        refine undo_syscall hS hT ((sysFtruncate_onFile fd length).isConfined (hopen fd hg)) hi
          hkernel fun v' hv => hgo v' hv ?_ ?_
        all_goals
          obtain ⟨-, rfl⟩ := hv
          rfl
      | libcPwrite fd buf offset =>
        refine undo_syscall hS hT ((sysPwrite_onFile fd buf offset).isConfined (hopen fd hg)) hi
          hkernel fun v' hv => hgo v' hv ?_ ?_
        all_goals
          obtain ⟨-, rfl⟩ := hv
          rfl
      | _ => exact hg.elim

theorem instr_serial {garbage : List Int} (hrest : (InstrEvent.instr t garbage).Restores s)
    (hs' : instrStep s t garbage = some s') : SerialInv E s' := by
  cases hp : (s.thread t).phase with
  | calling c p => exact calling_serial hS hT hp hrest hs'
  | acting g l err e p => exact acting_serial hS hT hp hs'
  | _ =>
    unfold instrStep at hs'
    simp only [hp] at hs'
    cases hs'

end

end

/-! ## every run -/

/-- **Every step keeps the invariant.** -/
theorem instrEvent_serial {E : FileEnv n N} {s s' : InstrProcess T n N} {e : InstrEvent T}
    (h : SerialInv E s) (hrest : e.Restores s) (hs' : instrEvent s e = some s') :
    SerialInv E s' := by
  obtain ⟨base, copy, hS, hT⟩ := h
  cases e with
  | preBegin t =>
    unfold instrEvent at hs'
    dsimp only at hs'
    split at hs'
    · rename_i hp
      cases hs'
      exact preBegin_serial hS hT hp
    · cases hs'
  | postBegin t =>
    unfold instrEvent at hs'
    dsimp only at hs'
    split at hs'
    · rename_i hp
      cases hs'
      exact postBegin_serial hS hT hp
    · cases hs'
  | call t c result =>
    unfold instrEvent at hs'
    dsimp only at hs'
    split at hs'
    · rename_i hp
      cases hs'
      exact call_serial hS hT hp c result
    · cases hs'
  | instr t garbage => exact instr_serial hS hT hrest hs'
  | abort t reason =>
    unfold instrEvent at hs'
    dsimp only at hs'
    split at hs'
    · rename_i hp
      cases hs'
      exact abort_serial hS hT hp reason
    · cases hs'
  | conflict t =>
    unfold instrEvent at hs'
    dsimp only at hs'
    split at hs'
    · rename_i hp
      cases hs'
      exact conflict_serial hS hT (Or.inl hp)
    · rename_i hp
      cases hs'
      exact conflict_serial hS hT (Or.inr hp)
    · cases hs'
  | commit t =>
    unfold instrEvent at hs'
    dsimp only at hs'
    split at hs'
    · rename_i hp
      cases hs'
      split
      · exact commit_serial hS hT hp rfl fun base' hsettled htxd => ⟨hsettled, htxd.commits⟩
      · exact commit_serial hS hT hp rfl fun base' hsettled _ => hsettled
    · cases hs'
  | next t => exact next_serial hS hT hs'

/-- **At the start** the committed state is the kernel, and so is every copy. -/
theorem Start.serial {s₀ : InstrProcess T n N} (h : s₀.Start) : SerialInv s₀.env s₀ := by
  refine ⟨s₀.kernel, fun _ => s₀.kernel,
    ⟨h.oneSentinel, rfl, fun _ => rfl, h.faults, ?_, ?_, ?_⟩, fun t => ?_⟩
  · rw [h.done]
    rfl
  · exact ⟨Like.refl _, Like.refl _, fun _ => Like.refl _, fun _ _ => rfl, fun _ => Agree.refl _⟩
  · refine ⟨fun x => (h.owner x).trans (h.mutex x).symm, fun t e he => ?_⟩
    rw [h.sentinelList] at he
    cases he
  · exact (threadInv_iff _ (h.outside t)).mpr (Agree.refl _)

section
variable {E : FileEnv n N} {s : InstrProcess T n N} {base : Kernel} {copy : T → Kernel}

/-- no step changes which sentinel guards a file -/
theorem Shared.guards (h : Shared E s base copy) (x : Fin n) (f : FileId) :
    s.env.Guards x f ↔ E.Guards x f := by
  have hlike := h.isolated.wfState
  have hfile : ∀ fd, s.kernel.fileOf fd = E.kernel.fileOf fd := by
    intro fd
    unfold Kernel.fileOf Kernel.openFile
    rw [hlike.fds]
    cases E.kernel.fds fd with
    | none => rfl
    | some d => exact congrArg some (hlike.file d)
  have hsent : s.env.sentinel = E.sentinel := funext h.sentinel
  have hmap : s.env.map = E.map := h.map
  unfold FileEnv.Guards
  rw [hsent, hmap]
  show (∃ fd koa, s.kernel.fileOf fd = some f ∧ _) ↔ _
  simp only [hfile]

theorem Shared.free (h : Shared E s base copy) {f : FileId} (hf : s.Free f) :
    s.kernel.fileObs f = base.fileObs f := by
  refine h.isolated.free f ?_
  by_cases hx : ∃ x, E.Guards x f
  · obtain ⟨x, hx⟩ := hx
    rw [owner_eq h.one hx]
    exact hf x ((h.guards x f).mpr hx)
  · exact owner_none fun x hg => hx ⟨x, hg⟩

theorem Shared.holds (h : Shared E s base copy) {t : T} {f : FileId} (hf : s.Holds t f) :
    s.kernel.fileObs f = (copy t).fileObs f := by
  obtain ⟨x, hx, hm⟩ := hf
  refine h.isolated.owned t f ?_
  rw [h.held_eq]
  exact ⟨x, hm, (h.guards x f).mp hx⟩

end

/-- **File transactions are serializable.**  Whatever the threads call, and however their
instructions and the steps of the STM are interleaved: the plain calls of the committed
transactions, one transaction after the other in the order of the commits, have the results that
the transactions have had; they leave each file that no thread holds as it is; and behind them the
calls of a transaction that runs have the results that it has had, and leave the files that it holds
as they are. -/
theorem file_transactions_serializable {s₀ s : InstrProcess T n N} (h₀ : s₀.Start)
    (h : Reach instrEvent InstrEvent.Restores (· = s₀) s) :
    ∃ k, replay DataCall.plain (s.done.flatMap Prod.snd) s₀.kernel = some k ∧
      (∀ f, s.Free f → s.kernel.fileObs f = k.fileObs f) ∧
      ∀ t, (s.thread t).phase = .running →
        ∃ c, replay DataCall.plain (s.thread t).live k = some c ∧
          ∀ f, s.Holds t f → s.kernel.fileObs f = c.fileObs f := by
  have hinv : SerialInv s₀.env s := by
    refine h.inv (I := SerialInv s₀.env) (fun s hs => ?_)
      fun s e s' hI hok hs => instrEvent_serial hI hok hs
    rw [hs]
    exact Start.serial h₀
  obtain ⟨base, copy, hS, hT⟩ := hinv
  refine ⟨base, hS.history, fun f hf => hS.free hf, fun t hp => ?_⟩
  obtain ⟨hready, -⟩ := (threadInv_iff _ hp).mp (hT t)
  obtain ⟨c, hrun, hag⟩ := hready.ahead.ahead
  refine ⟨c, hrun, fun f hf => ?_⟩
  obtain ⟨x, hx, hm⟩ := id hf
  exact (hS.holds hf).trans (hag f ⟨x, hm, (hS.guards x f).mp hx⟩).symm

theorem OneKoa.oneSentinel {p : Process T n N} (h : ∀ dev, OneKoa dev p)
    (thread : T → InstrThread n N) (done : List (T × List (DataCall × DataResult))) :
    (InstrProcess.env ⟨p.mach, thread, done⟩).One := by
  intro f x y hx hy
  obtain ⟨fd, koa, hf, hmap, hs⟩ := hx
  obtain ⟨fd', koa', hf', hmap', hs'⟩ := hy
  obtain ⟨k, hk, hk', -⟩ := h f.dev fd fd' f f hf hf' rfl rfl rfl
  obtain rfl : koa = k := Option.some.inj (hmap.symm.trans hk)
  obtain rfl : koa' = koa := Option.some.inj (hmap'.symm.trans hk')
  exact Option.some.inj (hs.symm.trans hs')

/-! ### two threads -/

def pairMach : XMach Bool 8 8 :=
  { txd := txCreate
    mem := fun _ => 0
    world :=
      { kernel := smallKernel
        koamgr := (koamgrCreate Bool 8 8).getD (koamgrEmpty Bool 8 8)
        self := false
        xactstate := .nontransactional
        answers := smallAnswers
        koaFile := fun _ => none
        log := []
        buffer := fun _ => poolBuffer } }

/-- the descriptor 3 is opened on `a` -/
def pair : InstrProcess Bool 8 8 :=
  { mach := ((xRun handleOk [⟨.open "a" readWrite, none, smallAnswers⟩] pairMach).map
      Prod.snd).getD pairMach
    thread := fun _ => ⟨txCreate, .outside, []⟩
    done := [] }

theorem pair_start : pair.Start where
  outside _ := rfl
  sentinelList _ := rfl
  mutex := by decide +kernel
  owner := by decide +kernel
  faults := by decide +kernel
  done := rfl
  oneSentinel f x y hx hy := by
    have hfd : ∀ z, pair.env.Guards z f → ∃ koa, pair.env.map 3 = some koa ∧
        pair.env.sentinel koa = some z := by
      intro z hz
      obtain ⟨fd, koa, hf, hmap, hs⟩ := hz
      have hfds : pair.env.kernel.fds = Function.update smallKernel.fds 3 (some 0) := rfl
      by_cases h3 : fd = 3
      · exact ⟨koa, h3 ▸ hmap, hs⟩
      · simp [Kernel.fileOf, Kernel.openFile, hfds, h3, smallKernel] at hf
    obtain ⟨koa, hmap, hs⟩ := hfd x hx
    obtain ⟨koa', hmap', hs'⟩ := hfd y hy
    obtain rfl : koa = koa' := Option.some.inj (hmap.symm.trans hmap')
    exact Option.some.inj (hs.symm.trans hs')

/-- one thread writes; the other one reads, finds the file busy, waits for the commit of the first
one, and reads again -/
def writeThenRead : List (InstrEvent Bool) :=
  List.flatten
    [[.preBegin false, .postBegin false, .preBegin true, .postBegin true,
        .call false (.write 3 [9] .ovrSave) none],
      List.replicate 14 (.instr false []), [.call true (.read 3 2) none],
      List.replicate 7 (.instr true []), List.replicate 8 (.next true), [.commit false],
      List.replicate 10 (.next false), List.replicate 4 (.next true),
      [.postBegin true, .call true (.read 3 2) none], List.replicate 11 (.instr true [])]

theorem file_transactions_serializable_pair :
    ∃ s, Reach instrEvent InstrEvent.Restores (· = pair) s ∧
      s.done = [(false, [(.write 3 [9] .ovrSave, (1, []))])] ∧
      (s.thread true).live = [(.read 3 2, (2, [2, 3]))] ∧
      ∃ k, replay DataCall.plain (s.done.flatMap Prod.snd) pair.kernel = some k ∧
        (∀ f, s.Free f → s.kernel.fileObs f = k.fileObs f) ∧
        ∀ t, (s.thread t).phase = .running →
          ∃ c, replay DataCall.plain (s.thread t).live k = some c ∧
            ∀ f, s.Holds t f → s.kernel.fileObs f = c.fileObs f := by
  have hrun : (EventSys.run (EventSys.guarded instrEvent InstrEvent.Restores) pair
      writeThenRead).map (fun s : InstrProcess Bool 8 8 =>
        decide (s.done = [(false, [(.write 3 [9] .ovrSave, (1, []))])] ∧
          (s.thread true).live = [(.read 3 2, (2, [2, 3]))])) = some true := by
    decide +kernel
  obtain ⟨s, hs, hstate⟩ := Option.map_eq_some_iff.mp hrun
  obtain ⟨hdone, hlive⟩ := of_decide_eq_true hstate
  have hreach := reach_of_guarded writeThenRead hs
  exact ⟨s, hreach, hdone, hlive, file_transactions_serializable pair_start hreach⟩

end XCalls
