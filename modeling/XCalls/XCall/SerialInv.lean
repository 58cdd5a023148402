import XCalls.Core.SentinelRefs
import XCalls.XCall.FileOwners
import XCalls.XCall.UndoLoop

/-!
# File transactions are serializable

* `ThreadInv`     where each thread is: its log leads from the committed state to its copy, and what
                 is left of its undo actions leads back;
* `Shared`       the state, the committed state and the copies of the threads;
* `file_transactions_serializable`   in every interleaving, the calls of the committed transactions
                 have the results that the plain calls have one transaction after another, and a
                 file that nobody holds is as these leave it.
-/

set_option linter.unusedSectionVars false

namespace XCalls
open Prog TwoPhase EventSys
variable {T : Type} [DecidableEq T] {n N : Nat}

/-! ## one thread -/

section
variable (E : FileEnv n N) (own : Set (Fin n)) (base copy : Kernel)

/-- the committed state is the copy, on the files that the thread holds -/
def Settled : Prop := Agree Kernel.fileObs (E.files own) base copy

structure Undone (rest : List (XAction N × Int32)) : Prop where
  back : Back Kernel.fileObs (Like E.kernel) (fun k => ((), effects rest k)) (E.files own) base copy
  undoes : UndoesIn E.kernel (E.files own) rest

structure BetweenCalls (undos : List (XAction N × Int32)) (live : List (DataCall × DataResult)) :
    Prop where
  ahead : Ahead Kernel.fileObs (Like E.kernel) DataCall.plain (E.files own) base copy live
  undone : Undone E own base copy undos.reverse

end

structure TxdOk (txd : TxDesc (ActOf (XAction N)) (Fin n)) : Prop where
  commits : ∀ e ∈ txd.commitActionList.entries, e.function = .sentinelmgrCommit
  late : ∀ e ∈ txd.undoActionList.entries, (∀ a, e.function ≠ .other a) →
    e.order = sentinelmgrActionOrder
  registered : txd.genericUndoActionRegistered = true → txd.itmUndo = true
  undo : others txd.undoActionList.entries ≠ [] → txd.itmUndo = true

/-- inside a call that began behind the calls `live`, with the undo actions `old` -/
structure InCall (E : FileEnv n N) (own : Set (Fin n)) (base copy : Kernel)
    (txd : TxDesc (ActOf (XAction N)) (Fin n)) (live : List (DataCall × DataResult))
    (old : List (XAction N × Int32)) (v : FileLocal n N) : Prop where
  held : v.held = own
  kernel : v.kernel = copy
  like : Like E.kernel v.start
  undos : others txd.undoActionList.entries = old ++ v.new
  ready : BetweenCalls E own base v.start old live
  txd : TxdOk txd

def ThreadInv (E : FileEnv n N) (own : Set (Fin n)) (base copy : Kernel) (th : InstrThread n N) :
    Prop :=
  match th.phase with
  | .outside => Settled E own base copy
  | .begun => Settled E own base copy ∧ TxdOk th.txd ∧ others th.txd.undoActionList.entries = []
  | .running => BetweenCalls E own base copy (others th.txd.undoActionList.entries) th.live ∧
      TxdOk th.txd
  | .calling c p => ∃ v : FileLocal n N, ∃ old, InCall E own base copy th.txd th.live old v ∧
      guarded (localStep E (c.RestorableIn E)) (callGuard E) p (CallPost E c) v
  | .looping .commit _ _ => Settled E own base copy ∧
      ∀ e ∈ th.txd.commitActionList.entries, e.function = .sentinelmgrCommit
  | .looping .undo l _ => ∃ rest, ToUndo (undoScan th.txd) l rest ∧ LateMgr (undoScan th.txd) ∧
      Undone E own base copy rest
  | .acting .commit _ _ _ _ => False
  | .acting .undo l _ e p => ∃ v : FileLocal n N, ∃ a rest, v.held = own ∧ v.kernel = copy ∧
      Like E.kernel v.start ∧ ToUndo (undoScan th.txd) l rest ∧ LateMgr (undoScan th.txd) ∧
      Undone E own base v.start ((a, e.order) :: rest) ∧
      guarded (localStep E fun _ => True) (undoGuard E) p (UndoPost a) v
  | .acquiring l _ _ _ => Settled E own base copy ∧ ToUndo (undoScan th.txd) l [] ∧
      LateMgr (undoScan th.txd)

section
variable {txd : TxDesc (ActOf (XAction N)) (Fin n)}

theorem txdOk_begin (txd : TxDesc (ActOf (XAction N)) (Fin n)) :
    TxdOk { fmInit (txInit txd) with forcedRetries := 0 } :=
  ⟨fun e he => (by cases he), fun e he => (by cases he), fun h => (by cases h),
    fun h => absurd rfl h⟩

theorem TxdOk.registerUndo (h : TxdOk txd) {e : XEntry N}
    (he : (∀ a, e.function ≠ .other a) → e.order = sentinelmgrActionOrder) :
    TxdOk (txRegisterUndoAction txd e) := by
  have hitm : (txd.itmUndo || !txd.genericUndoActionRegistered) = true := by
    cases hg : txd.genericUndoActionRegistered with
    | false => simp
    | true => simp [h.registered hg]
  rw [txRegisterUndoAction_eq]
  refine ⟨h.commits, fun x hx => ?_, fun _ => hitm, fun _ => hitm⟩
  simp only [entries_registerAction] at hx
  rcases List.mem_append.mp hx with hx | hx
  · exact h.late x hx
  · rw [List.mem_singleton.mp hx]
    exact he

theorem TxdOk.registerMgrUndo (h : TxdOk txd) : TxdOk (registerSentinelmgrUndoAction txd) := by
  unfold registerSentinelmgrUndoAction
  split
  · obtain ⟨h1, h2, h3, h4⟩ := h.registerUndo (e := ⟨.sentinelmgrUndo, none,
      sentinelmgrActionOrder⟩) fun _ => rfl
    exact ⟨h1, h2, h3, h4⟩
  · exact h

theorem TxdOk.registerMgrCommit (h : TxdOk txd) : TxdOk (registerSentinelmgrCommitAction txd) := by
  unfold registerSentinelmgrCommitAction
  split
  · rw [txRegisterCommitAction_eq]
    refine ⟨fun e he => ?_, h.late, h.registered, h.undo⟩
    simp only [entries_registerAction] at he
    rcases List.mem_append.mp he with he | he
    · exact h.commits e he
    · rw [List.mem_singleton.mp he]
  · exact h

/-- what registering the sentinel manager's actions leaves as it is -/
theorem registerMgr_same (txd : TxDesc (ActOf (XAction N)) (Fin n)) :
    others (registerSentinelmgrUndoAction txd).undoActionList.entries
        = others txd.undoActionList.entries ∧
      others (registerSentinelmgrCommitAction txd).undoActionList.entries
        = others txd.undoActionList.entries ∧
      (registerSentinelmgrUndoAction txd).sentinelList = txd.sentinelList ∧
      (registerSentinelmgrCommitAction txd).sentinelList = txd.sentinelList := by
  refine ⟨congrArg Prod.snd (actions_registerSentinelmgr txd).2,
    congrArg Prod.snd (actions_registerSentinelmgr txd).1, ?_, ?_⟩
  · unfold registerSentinelmgrUndoAction
    split
    · rw [txRegisterUndoAction_eq]
    · rfl
  · unfold registerSentinelmgrCommitAction
    split
    · rw [txRegisterCommitAction_eq]
    · rfl

theorem TxdOk.postbegin (h : TxdOk txd) :
    TxdOk (sentinelTransactionPostbegin txd) ∧
      others (sentinelTransactionPostbegin txd).undoActionList.entries
        = others txd.undoActionList.entries ∧
      (sentinelTransactionPostbegin txd).sentinelList = txd.sentinelList := by
  unfold sentinelTransactionPostbegin
  split
  · obtain ⟨-, h1, -, h2⟩ := registerMgr_same txd
    obtain ⟨h3, -, h4, -⟩ := registerMgr_same (registerSentinelmgrCommitAction txd)
    exact ⟨h.registerMgrCommit.registerMgrUndo, h3.trans h1, h4.trans h2⟩
  · exact ⟨h, rfl, rfl⟩

theorem TxdOk.abort (h : TxdOk txd) (reason : AbortReason) :
    TxdOk (tmsystemAbortTransaction txd reason) ∧
      others (tmsystemAbortTransaction txd reason).undoActionList.entries
        = others txd.undoActionList.entries ∧
      (tmsystemAbortTransaction txd reason).sentinelList = txd.sentinelList := by
  unfold tmsystemAbortTransaction tmsystemRegisterGenericUndoAction
  dsimp only
  split
  · exact ⟨⟨h.commits, h.late, fun _ => rfl, fun _ => rfl⟩, rfl, rfl⟩
  · exact ⟨⟨h.commits, h.late, h.registered, h.undo⟩, rfl, rfl⟩

/-- the lists behind the loop of the generic undo action -/
theorem txdOk_undoTail {T : Type} (m : XMach T n N) (err : Int) :
    TxdOk (forgetGeneric (undoTail m err).txd) ∧
      others (undoTail m err).txd.undoActionList.entries = [] ∧
      (undoTail m err).txd.sentinelList = m.txd.sentinelList := by
  have htxd : ∃ abort flags, (undoTail m err).txd
      = { txInit m.txd with fmAbort := abort, fmFlags := flags } := by
    unfold undoTail fmHandleUndoFailure
    by_cases herr : err = 0
    · exact ⟨m.txd.fmAbort, 0, by simp only [herr, ne_eq, not_true_eq_false, if_false]; rfl⟩
    · simp only [ne_eq, herr, not_false_eq_true, if_true]
      split
      · exact ⟨true, 0, by simp only [Mach.store_txd]⟩
      · exact ⟨m.txd.fmAbort, 0, by simp only [Mach.store_txd]; rfl⟩
  obtain ⟨abort, flags, h⟩ := htxd
  rw [h]
  exact ⟨⟨fun e he => (by cases he), fun e he => (by cases he), fun hg => (by cases hg),
    fun hc => absurd rfl hc⟩, rfl, rfl⟩

theorem TxdOk.lateMgr (h : TxdOk txd)
    (h0 : ∀ x ∈ others txd.undoActionList.entries, x.2 = regularActionOrder) :
    LateMgr (undoScan txd) where
  zero x hx := by
    unfold undoScan at hx
    rw [others, List.filterMap_reverse] at hx
    exact h0 x (List.mem_reverse.mp hx)
  late e he := h.late e (List.mem_reverse.mp he)

end

section
variable {E : FileEnv n N} {own own' : Set (Fin n)} {base base' copy copy' : Kernel}
  {th : InstrThread n N} {undos rest : List (XAction N × Int32)}
  {live : List (DataCall × DataResult)}

theorem FileEnv.files_mono (h : own ⊆ own') : E.files own ⊆ E.files own' :=
  fun _ ⟨x, hx, hg⟩ => ⟨x, h hx, hg⟩

theorem UndoesIn.mono {F G : Set FileId} (h : UndoesIn E.kernel F rest) (hFG : F ⊆ G) :
    UndoesIn E.kernel G rest := by
  intro x hx
  obtain ⟨h0, fd, hfd, hF⟩ := h x hx
  exact ⟨h0, fd, hfd, hF.mono hFG⟩

theorem Undone.rebase (h : Undone E own base copy rest)
    (heq : Agree Kernel.fileObs (E.files own) base base') : Undone E own base' copy rest :=
  ⟨h.back.rebase heq, h.undoes⟩

theorem Undone.nil (h : Undone E own base copy []) : Settled E own base copy := h.back.back.symm

theorem Settled.undone (h : Settled E own base copy) : Undone E own base copy [] where
  back := Back.nil () h.symm
  undoes x hx := by cases hx

theorem Settled.ready (h : Settled E own base copy) : BetweenCalls E own base copy [] [] :=
  ⟨Ahead.nil h, h.undone⟩

theorem BetweenCalls.rebase (h : BetweenCalls E own base copy undos live) (hb : Like E.kernel base)
    (hb' : Like E.kernel base') (heq : Agree Kernel.fileObs (E.files own) base base') :
    BetweenCalls E own base' copy undos live :=
  ⟨h.ahead.rebase hb hb' heq, h.undone.rebase heq⟩

theorem BetweenCalls.grow (h : BetweenCalls E own base copy undos live) (hb : Like E.kernel base)
    (hc : Like E.kernel copy) (hc' : Like E.kernel copy') (hown : own ⊆ own')
    (hold : Agree Kernel.fileObs (E.files own) copy copy')
    (hnew : Agree Kernel.fileObs (E.files own' \ E.files own) base copy') :
    BetweenCalls E own' base copy' undos live where
  ahead := h.ahead.grow hb (FileEnv.files_mono hown) hold hnew
  undone := ⟨h.undone.back.grow hc hc' (FileEnv.files_mono hown) hold hnew,
    h.undone.undoes.mono (FileEnv.files_mono hown)⟩

/-- **Another thread commits**: `base` changes, but not on the files of this one. -/
theorem ThreadInv.rebase (h : ThreadInv E own base copy th) (hb : Like E.kernel base)
    (hb' : Like E.kernel base') (heq : Agree Kernel.fileObs (E.files own) base base') :
    ThreadInv E own base' copy th := by
  unfold ThreadInv at h ⊢
  split at h
  · exact heq.symm.trans h
  · exact ⟨heq.symm.trans h.1, h.2⟩
  · exact ⟨h.1.rebase hb hb' heq, h.2⟩
  · obtain ⟨v, old, hin, hp⟩ := h
    exact ⟨v, old, ⟨hin.held, hin.kernel, hin.like, hin.undos, hin.ready.rebase hb hb' heq,
      hin.txd⟩, hp⟩
  · exact ⟨heq.symm.trans h.1, h.2⟩
  · obtain ⟨rest, h1, h2, h3⟩ := h
    exact ⟨rest, h1, h2, h3.rebase heq⟩
  · exact h
  · obtain ⟨v, a, rest, h1, h2, h3, h4, h5, h6, h7⟩ := h
    exact ⟨v, a, rest, h1, h2, h3, h4, h5, h6.rebase heq, h7⟩
  · exact ⟨heq.symm.trans h.1, h.2⟩

end

/-- **A rollback.** -/
theorem ThreadInv.rollBack {txd : TxDesc (ActOf (XAction N)) (Fin n)} {phase : InstrPhase n N}
    (h : BetweenCalls E own base copy (others txd.undoActionList.entries) live) (htxd : TxdOk txd) :
    ThreadInv E own base copy (InstrThread.rollBack ⟨txd, phase, live⟩) := by
  unfold InstrThread.rollBack
  split
  · refine ⟨others (undoScan txd), ToUndo.start _, htxd.lateMgr fun x hx => ?_, ?_⟩
    · exact (h.undone.undoes x (List.mem_reverse.mpr hx)).1
    · unfold undoScan
      rw [others, List.filterMap_reverse]
      exact h.undone
  · rename_i hitm
    have hnil : others txd.undoActionList.entries = [] :=
      Classical.byContradiction fun hc => hitm (htxd.undo hc)
    rw [hnil] at h
    have hsettled : Settled E own base copy := h.undone.nil
    have hforget : TxdOk (forgetGeneric txd) := ⟨htxd.commits, htxd.late,
      fun hg => absurd (htxd.registered hg) hitm, fun hc => absurd hnil hc⟩
    unfold ThreadInv
    cases txd.abortReason with
    | userabort => exact hsettled
    | _ => exact ⟨hsettled, hforget, hnil⟩

theorem rollBack_sentinelList (th : InstrThread n N) :
    th.rollBack.txd.sentinelList = th.txd.sentinelList := by
  unfold InstrThread.rollBack
  split <;> rfl

/-! ## all threads -/

def InstrProcess.heldBy (s : InstrProcess T n N) (t : T) : Set (Fin n) := {x | s.mutex x = some t}

structure Shared (E : FileEnv n N) (s : InstrProcess T n N) (base : Kernel) (copy : T → Kernel) :
    Prop where
  one : E.One
  map : s.mach.world.koamgr.map = E.map
  sentinel : ∀ koa, (s.mach.world.koamgr.koa koa).sentinel = E.sentinel koa
  faults : s.mach.world.answers.faults = []
  history : replay DataCall.plain (s.done.flatMap Prod.snd) E.kernel = some base
  isolated : Isolated Kernel.fileObs (Like E.kernel) (owner E s.mutex) base s.kernel copy
  sentinels : SentinelsOk s.mach.world.koamgr.sentinelmgr fun t => (s.thread t).txd.sentinelList

def SerialInv (E : FileEnv n N) (s : InstrProcess T n N) : Prop :=
  ∃ base copy, Shared E s base copy ∧
    ∀ t, ThreadInv E (s.heldBy t) base (copy t) (s.thread t)

section
variable {E : FileEnv n N} {s s' : InstrProcess T n N} {base : Kernel} {copy : T → Kernel} {t : T}

theorem Shared.held_eq (h : Shared E s base copy) (t : T) :
    TwoPhase.held (owner E s.mutex) t = E.files (s.heldBy t) := held_owner h.one s.mutex t

theorem lists_update (s : InstrProcess T n N) (t : T) (th : InstrThread n N) :
    (fun u => (Function.update s.thread t th u).txd.sentinelList)
      = Function.update (fun u => (s.thread u).txd.sentinelList) t th.txd.sentinelList := by
  funext u
  rw [Function.update_apply, Function.update_apply]
  split <;> rfl

/-- the state of a thread changes, and its list of sentinels does not -/
theorem Shared.set (h : Shared E s base copy) {th : InstrThread n N}
    (hl : th.txd.sentinelList = (s.thread t).txd.sentinelList) :
    Shared E (s.set t th) base copy where
  one := h.one
  map := h.map
  sentinel := h.sentinel
  faults := h.faults
  history := h.history
  isolated := h.isolated
  sentinels := by
    show SentinelsOk _ fun u => (Function.update s.thread t th u).txd.sentinelList
    rw [lists_update, hl, Function.update_eq_self]
    exact h.sentinels

/-- a thread has run, and has left the kernel and the KOA manager alone -/
theorem Shared.mach (h : Shared E s base copy) {m : XMach T n N}
    (hk : m.world.kernel = s.kernel) (hkoa : m.world.koamgr = s.mach.world.koamgr)
    (hf : m.world.answers.faults = []) : Shared E { s with mach := m } base copy where
  one := h.one
  map := by
    show m.world.koamgr.map = _
    rw [hkoa]
    exact h.map
  sentinel koa := by
    show (m.world.koamgr.koa koa).sentinel = _
    rw [hkoa]
    exact h.sentinel koa
  faults := hf
  history := h.history
  isolated := by
    have hmutex : InstrProcess.mutex { s with mach := m } = s.mutex := by
      unfold InstrProcess.mutex
      rw [hkoa]
    rw [hmutex]
    show Isolated _ _ _ _ m.world.kernel _
    rw [hk]
    exact h.isolated
  sentinels := by
    show SentinelsOk m.world.koamgr.sentinelmgr _
    rw [hkoa]
    exact h.sentinels

/-- a thread has made a system call on its files -/
theorem Shared.sys (h : Shared E s base copy) {R : Type} {f : Kernel → R × Kernel}
    (hf : Confined Kernel.fileObs (Like E.kernel) (E.files (s.heldBy t)) f) {m : XMach T n N}
    (hk : m.world.kernel = (f s.kernel).2) (hkoa : m.world.koamgr = s.mach.world.koamgr)
    (hfaults : m.world.answers.faults = []) :
    (f s.kernel).1 = (f (copy t)).1 ∧
      Shared E { s with mach := m } base (Function.update copy t (f (copy t)).2) := by
  rw [← h.held_eq t] at hf
  obtain ⟨hr, hiso⟩ := h.isolated.act hf
  have hmutex : InstrProcess.mutex { s with mach := m } = s.mutex := by
    unfold InstrProcess.mutex
    rw [hkoa]
  refine ⟨hr, h.one, ?_, fun koa => ?_, hfaults, h.history, ?_, ?_⟩
  · show m.world.koamgr.map = _
    rw [hkoa]
    exact h.map
  · show (m.world.koamgr.koa koa).sentinel = _
    rw [hkoa]
    exact h.sentinel koa
  · rw [hmutex]
    show Isolated _ _ _ _ m.world.kernel _
    rw [hk]
    exact hiso
  · show SentinelsOk m.world.koamgr.sentinelmgr _
    rw [hkoa]
    exact h.sentinels

/-- a thread has run, and the sentinels have changed -/
theorem Shared.sentinelmgr (h : Shared E s base copy) {m : XMach T n N} {mgr : SentinelMgr T n}
    {phase : InstrPhase n N} {copy' : T → Kernel} (hk : m.world.kernel = s.kernel)
    (hkoa : m.world.koamgr = { s.mach.world.koamgr with sentinelmgr := mgr })
    (hf : m.world.answers.faults = [])
    (hs : SentinelsOk mgr
      (Function.update (fun u => (s.thread u).txd.sentinelList) t m.txd.sentinelList))
    (hiso : Isolated Kernel.fileObs (Like E.kernel) (owner E fun x => (mgr.sentinel x).mutex) base
      s.kernel copy') : Shared E (s.leave t m phase) base copy' where
  one := h.one
  map := by
    show m.world.koamgr.map = _
    rw [hkoa]
    exact h.map
  sentinel koa := by
    show (m.world.koamgr.koa koa).sentinel = _
    rw [hkoa]
    exact h.sentinel koa
  faults := hf
  history := h.history
  isolated := by
    have hmutex : (s.leave t m phase).mutex = fun x => (mgr.sentinel x).mutex := by
      funext x
      show (m.world.koamgr.sentinelmgr.sentinel x).mutex = _
      rw [hkoa]
    rw [hmutex]
    show Isolated _ _ _ _ m.world.kernel _
    rw [hk]
    exact hiso
  sentinels := by
    show SentinelsOk m.world.koamgr.sentinelmgr fun u =>
      (Function.update s.thread t _ u).txd.sentinelList
    rw [hkoa, lists_update]
    exact hs

/-- the sentinels of the other threads, when `t` gets or gives up some -/
theorem heldBy_other
    (hmutex : ∀ x, s'.mutex x = s.mutex x ∨ s.mutex x = none ∧ s'.mutex x = some t ∨
      s.mutex x = some t ∧ s'.mutex x = none) {u : T} (hu : u ≠ t) : s'.heldBy u = s.heldBy u := by
  ext x
  show s'.mutex x = some u ↔ s.mutex x = some u
  rcases hmutex x with heq | ⟨h1, h2⟩ | ⟨h1, h2⟩
  · rw [heq]
  · rw [h1, h2]
    exact ⟨fun h => absurd (Option.some.inj h).symm hu, fun h => by cases h⟩
  · rw [h1, h2]
    exact ⟨fun h => (by cases h), fun h => absurd (Option.some.inj h).symm hu⟩

theorem leave_mutex {m : XMach T n N} {mgr : SentinelMgr T n} {phase : InstrPhase n N}
    (hkoa : m.world.koamgr = { s.mach.world.koamgr with sentinelmgr := mgr }) (x : Fin n) :
    (s.leave t m phase).mutex x = (mgr.sentinel x).mutex := by
  show (m.world.koamgr.sentinelmgr.sentinel x).mutex = _
  rw [hkoa]

/-- **A thread gets sentinels** that were free. -/
theorem Shared.acquire (h : Shared E s base copy) {m : XMach T n N} {mgr : SentinelMgr T n}
    (phase : InstrPhase n N) (hk : m.world.kernel = s.kernel)
    (hkoa : m.world.koamgr = { s.mach.world.koamgr with sentinelmgr := mgr })
    (hf : m.world.answers.faults = [])
    (hs : SentinelsOk mgr
      (Function.update (fun u => (s.thread u).txd.sentinelList) t m.txd.sentinelList))
    (hmutex : ∀ x, (mgr.sentinel x).mutex = s.mutex x ∨
      s.mutex x = none ∧ (mgr.sentinel x).mutex = some t) :
    Shared E (s.leave t m phase) base (Function.update copy t s.kernel) ∧
      s.heldBy t ⊆ (s.leave t m phase).heldBy t ∧
      Agree Kernel.fileObs (E.files (s.heldBy t)) (copy t) s.kernel ∧
      Agree Kernel.fileObs (E.files ((s.leave t m phase).heldBy t) \ E.files (s.heldBy t)) base
        s.kernel ∧
      ∀ u, u ≠ t → (s.leave t m phase).heldBy u = s.heldBy u := by
  have hown := owner_change (P := fun a b => a = none ∧ b = some t) h.one hmutex
  obtain ⟨-, hnew⟩ := h.isolated.gets hown
  have hold := (h.isolated.owned t).symm
  have hheld : TwoPhase.held (owner E fun x => (mgr.sentinel x).mutex) t
      = E.files ((s.leave t m phase).heldBy t) := by
    rw [held_owner h.one]
    unfold InstrProcess.heldBy
    simp only [leave_mutex hkoa]
  rw [hheld, h.held_eq t] at hnew
  rw [h.held_eq t] at hold
  refine ⟨h.sentinelmgr hk hkoa hf hs (h.isolated.acquire hown), fun x hx => ?_, hold, hnew,
    fun u hu => heldBy_other (fun x => ?_) hu⟩
  · show (s.leave t m phase).mutex x = some t
    rw [leave_mutex hkoa]
    rcases hmutex x with heq | ⟨hnone, -⟩
    · exact heq.trans hx
    · cases hnone.symm.trans hx
  · rw [leave_mutex hkoa]
    rcases hmutex x with heq | hx
    · exact Or.inl heq
    · exact Or.inr (Or.inl hx)

/-- **A thread gives up sentinels** when the committed state is its copy. -/
theorem Shared.release (h : Shared E s base copy) {m : XMach T n N} {mgr : SentinelMgr T n}
    (phase : InstrPhase n N) (hk : m.world.kernel = s.kernel)
    (hkoa : m.world.koamgr = { s.mach.world.koamgr with sentinelmgr := mgr })
    (hf : m.world.answers.faults = [])
    (hs : SentinelsOk mgr
      (Function.update (fun u => (s.thread u).txd.sentinelList) t m.txd.sentinelList))
    (hmutex : ∀ x, (mgr.sentinel x).mutex = s.mutex x ∨
      s.mutex x = some t ∧ (mgr.sentinel x).mutex = none)
    (hsettled : Settled E (s.heldBy t) base (copy t)) :
    Shared E (s.leave t m phase) base copy ∧
      Settled E ((s.leave t m phase).heldBy t) base (copy t) ∧
      ∀ u, u ≠ t → (s.leave t m phase).heldBy u = s.heldBy u := by
  have hown := owner_change (P := fun a b => a = some t ∧ b = none) h.one hmutex
  refine ⟨h.sentinelmgr hk hkoa hf hs (h.isolated.release hown (by rw [h.held_eq]; exact hsettled)),
    hsettled.mono (FileEnv.files_mono fun x hx => ?_), fun u hu => heldBy_other (fun x => ?_) hu⟩
  · have hx : (s.leave t m phase).mutex x = some t := hx
    rw [leave_mutex hkoa] at hx
    rcases hmutex x with heq | ⟨-, hnone⟩
    · exact heq.symm.trans hx
    · cases hnone.symm.trans hx
  · rw [leave_mutex hkoa]
    rcases hmutex x with heq | hx
    · exact Or.inl heq
    · exact Or.inr (Or.inr hx)

/-- **What one thread does**, for the others. -/
theorem SerialInv.of_step {base' : Kernel} {copy' : T → Kernel} (hS : Shared E s base copy)
    (hT : ∀ u, ThreadInv E (s.heldBy u) base (copy u) (s.thread u)) (hS' : Shared E s' base' copy')
    (hother : ∀ u, u ≠ t → s'.thread u = s.thread u ∧ s'.heldBy u = s.heldBy u ∧
      copy' u = copy u ∧ Agree Kernel.fileObs (E.files (s.heldBy u)) base base')
    (ht : ThreadInv E (s'.heldBy t) base' (copy' t) (s'.thread t)) : SerialInv E s' := by
  refine ⟨base', copy', hS', fun u => ?_⟩
  by_cases hu : u = t
  · rw [hu]
    exact ht
  · obtain ⟨hthread, hheld, hcopy, hag⟩ := hother u hu
    rw [hthread, hheld, hcopy]
    exact (hT u).rebase hS.isolated.wfBase hS'.isolated.wfBase hag

theorem SerialInv.set (hS : Shared E s base copy)
    (hT : ∀ u, ThreadInv E (s.heldBy u) base (copy u) (s.thread u)) {th : InstrThread n N}
    (hl : th.txd.sentinelList = (s.thread t).txd.sentinelList)
    (ht : ThreadInv E (s.heldBy t) base (copy t) th) : SerialInv E (s.set t th) := by
  refine .of_step hS hT (hS.set hl) (fun u hu => ⟨Function.update_of_ne hu _ _, rfl, rfl,
    Agree.refl _⟩) ?_
  show ThreadInv _ _ _ _ (Function.update s.thread t th t)
  rw [Function.update_self]
  exact ht

/-- a thread goes on, and leaves the kernel and the KOA manager alone -/
theorem SerialInv.leave (hS : Shared E s base copy)
    (hT : ∀ u, ThreadInv E (s.heldBy u) base (copy u) (s.thread u)) {m : XMach T n N}
    {phase : InstrPhase n N} (hk : m.world.kernel = s.kernel)
    (hkoa : m.world.koamgr = s.mach.world.koamgr) (hf : m.world.answers.faults = [])
    (hl : m.txd.sentinelList = (s.thread t).txd.sentinelList)
    (ht : ThreadInv E (s.heldBy t) base (copy t) ⟨m.txd, phase, (s.thread t).live⟩) :
    SerialInv E (s.leave t m phase) := by
  have hS' := hS.mach hk hkoa hf
  have hheld : ∀ u, InstrProcess.heldBy { s with mach := m } u = s.heldBy u := by
    intro u
    unfold InstrProcess.heldBy InstrProcess.mutex
    rw [hkoa]
  exact .set hS' (fun u => by rw [hheld]; exact hT u) hl (by rw [hheld]; exact ht)

/-! ## the steps -/

theorem threadInv_iff (th : InstrThread n N) {phase : InstrPhase n N} (hp : th.phase = phase)
    {own : Set (Fin n)} {c : Kernel} :
    ThreadInv E own base c th ↔ ThreadInv E own base c ⟨th.txd, phase, th.live⟩ := by
  rw [← hp]

/-- where the loop calls the sentinel manager's action -/
theorem mgr_settled {g : GenericAction} {l l' : Loop (ActOf (XAction N))} {err : Int}
    {e : XEntry N} {txd : TxDesc (ActOf (XAction N)) (Fin n)} {own : Set (Fin n)} {c : Kernel}
    {live : List (DataCall × DataResult)}
    (h : ThreadInv E own base c ⟨txd, .looping g l err, live⟩)
    (hn : l.next (g.scan txd) = .call e l') (he : ∀ a, e.function ≠ .other a) :
    Settled E own base c ∧ ∀ own, Settled E own base c →
      ∀ txd' : TxDesc (ActOf (XAction N)) (Fin n),
        txd'.commitActionList = txd.commitActionList → txd'.undoActionList = txd.undoActionList →
        ThreadInv E own base c ⟨txd', .looping g l' err, live⟩ := by
  cases g with
  | commit =>
    refine ⟨h.1, fun own hsettled txd' hc _ => ⟨hsettled, ?_⟩⟩
    show ∀ e ∈ txd'.commitActionList.entries, _
    rw [hc]
    exact h.2
  | undo =>
    obtain ⟨rest, hpend, hlate, hundone⟩ := h
    obtain ⟨rfl, hpend'⟩ := hpend.mgr hlate hn he
    refine ⟨hundone.nil, fun own hsettled txd' _ hu => ?_⟩
    have hscan : undoScan txd' = undoScan txd := by
      unfold undoScan
      rw [hu]
    refine ⟨[], ?_, ?_, hsettled.undone⟩
    · show ToUndo (undoScan txd') _ _
      rw [hscan]
      exact hpend'
    · show LateMgr (undoScan txd')
      rw [hscan]
      exact hlate

section
variable (hS : Shared E s base copy)
  (hT : ∀ u, ThreadInv E (s.heldBy u) base (copy u) (s.thread u))
include hS hT

theorem preBegin_serial (hp : (s.thread t).phase = .outside) :
    SerialInv E (s.set t ⟨{ fmInit (txInit (s.thread t).txd) with forcedRetries := 0 }, .begun, []⟩)
    := by
  have ht := (threadInv_iff _ hp).mp (hT t)
  exact .set hS hT rfl ⟨ht, txdOk_begin _, rfl⟩

theorem postBegin_serial (hp : (s.thread t).phase = .begun) :
    SerialInv E (s.set t ⟨sentinelTransactionPostbegin (s.thread t).txd, .running, []⟩) := by
  obtain ⟨hsettled, htxd, hnil⟩ := (threadInv_iff _ hp).mp (hT t)
  obtain ⟨htxd', hundos, hlist⟩ := htxd.postbegin
  refine .set hS hT hlist ⟨?_, htxd'⟩
  show BetweenCalls _ _ _ _ (others (sentinelTransactionPostbegin _).undoActionList.entries) _
  rw [hundos, hnil]
  exact hsettled.ready

theorem call_serial (hp : (s.thread t).phase = .running) (c : DataCall) (result : Option Nat) :
    SerialInv E (s.set t { s.thread t with phase := .calling c (c.prog result) }) := by
  obtain ⟨hready, htxd⟩ := (threadInv_iff _ hp).mp (hT t)
  exact .set hS hT rfl ⟨⟨s.heldBy t, copy t, copy t, []⟩, _, ⟨rfl, rfl, hS.isolated.wfCopy t,
    (List.append_nil _).symm, hready, htxd⟩, call_local c result ⟨rfl, rfl⟩⟩

theorem abort_serial (hp : (s.thread t).phase = .running) (reason : AbortReason) :
    SerialInv E (s.set t { s.thread t with
      txd := tmsystemAbortTransaction (s.thread t).txd reason }.rollBack) := by
  obtain ⟨hready, htxd⟩ := (threadInv_iff _ hp).mp (hT t)
  obtain ⟨htxd', hundos, hlist⟩ := htxd.abort reason
  refine .set hS hT ((rollBack_sentinelList _).trans hlist) (ThreadInv.rollBack ?_ htxd')
  rw [hundos]
  exact hready

theorem conflict_serial (hp : (s.thread t).phase = .running ∨ (s.thread t).phase = .begun) :
    SerialInv E (s.set t (s.thread t).rollBack) := by
  refine .set hS hT (rollBack_sentinelList _) ?_
  rcases hp with hp | hp
  · obtain ⟨hready, htxd⟩ := (threadInv_iff _ hp).mp (hT t)
    exact ThreadInv.rollBack hready htxd
  · obtain ⟨hsettled, htxd, hnil⟩ := (threadInv_iff _ hp).mp (hT t)
    have hready : BetweenCalls E (s.heldBy t) base (copy t)
        (others (s.thread t).txd.undoActionList.entries) [] := by
      rw [hnil]
      exact hsettled.ready
    show ThreadInv _ _ _ _ (InstrThread.rollBack ⟨(s.thread t).txd, (s.thread t).phase, []⟩)
    exact ThreadInv.rollBack hready htxd

/-- the sentinel manager's action releases the list of the thread -/
theorem release_serial {m : XMach T n N} {phase : InstrPhase n N} (b : Bool)
    (hsettled : Settled E (s.heldBy t) base (copy t)) (hk : m.world.kernel = s.kernel)
    (hkoa : m.world.koamgr = { s.mach.world.koamgr with
      sentinelmgr := sentinelListRelease b s.mach.world.koamgr.sentinelmgr
        (s.thread t).txd.sentinelList })
    (hf : m.world.answers.faults = []) (hl : m.txd.sentinelList = [])
    (ht : ∀ own, Settled E own base (copy t) →
      ThreadInv E own base (copy t) ⟨m.txd, phase, (s.thread t).live⟩) :
    SerialInv E (s.leave t m phase) := by
  obtain ⟨hsent, hmutex⟩ := hS.sentinels.release b t
  obtain ⟨hS', hsettled', hother⟩ := hS.release phase hk hkoa hf
    (by rw [hl]; exact hsent) hmutex hsettled
  refine .of_step hS hT hS' (fun u hu => ⟨Function.update_of_ne hu _ _, hother u hu, rfl,
    Agree.refl _⟩) ?_
  show ThreadInv _ _ _ _ (Function.update s.thread t _ t)
  rw [Function.update_self]
  exact ht _ hsettled'

/-- **The commit** is where the transaction takes its place in the serial history. -/
theorem commit_serial (hp : (s.thread t).phase = .running) {th : InstrThread n N}
    (hl : th.txd.sentinelList = (s.thread t).txd.sentinelList)
    (hth : ∀ base, Settled E (s.heldBy t) base (copy t) → TxdOk (s.thread t).txd →
      ThreadInv E (s.heldBy t) base (copy t) th) :
    SerialInv E { s.set t th with done := s.done ++ [(t, (s.thread t).live)] } := by
  obtain ⟨hready, htxd⟩ := (threadInv_iff _ hp).mp (hT t)
  have hheld := hS.held_eq t
  have hahead := hready.ahead
  rw [← hheld] at hahead
  obtain ⟨base', hrun, hiso, hsettled, hothers⟩ := hS.isolated.commit hahead
  rw [hheld] at hsettled
  have hhist : replay DataCall.plain ((s.done ++ [(t, (s.thread t).live)]).flatMap Prod.snd)
      E.kernel = some base' := by
    rw [List.flatMap_append, List.flatMap_singleton, replay_append, hS.history]
    exact hrun
  have hset := hS.set hl
  have hS' : Shared E { s.set t th with done := s.done ++ [(t, (s.thread t).live)] } base' copy :=
    ⟨hset.one, hset.map, hset.sentinel, hset.faults, hhist, hiso, hset.sentinels⟩
  refine .of_step (t := t) hS hT hS' (fun u hu => ?_) ?_
  · have hag := hothers u hu
    rw [hS.held_eq u] at hag
    exact ⟨Function.update_of_ne hu _ _, rfl, rfl, hag⟩
  · show ThreadInv _ _ _ _ (Function.update s.thread t _ t)
    rw [Function.update_self]
    exact hth base' hsettled htxd

theorem leave_serial {m : XMach T n N} {phase : InstrPhase n N} (hw : m.world = (s.enter t).world)
    (hl : m.txd.sentinelList = (s.thread t).txd.sentinelList)
    (ht : ThreadInv E (s.heldBy t) base (copy t) ⟨m.txd, phase, (s.thread t).live⟩) :
    SerialInv E (s.leave t m phase) :=
  .leave hS hT (by rw [hw]; rfl) (by rw [hw]; rfl) (by rw [hw]; exact hS.faults) hl ht

theorem exit_serial {g : GenericAction} {l : Loop (ActOf (XAction N))} {err : Int}
    (hp : (s.thread t).phase = .looping g l err) (hn : l.next (g.scan (s.thread t).txd) = .exit)
    (hs' : nextEvent s t = some s') : SerialInv E s' := by
  have ht := (threadInv_iff _ hp).mp (hT t)
  simp only [nextEvent, hp, hn] at hs'
  cases g with
  | commit =>
    cases hs'
    refine leave_serial hS hT (commitTail_world (s.enter t) err) ?_ ht.1
    show (commitTail (s.enter t) err).txd.sentinelList = _
    unfold commitTail fmHandleCommitFailure
    rw [Mach.store_txd]
    rfl
  | undo =>
    cases hs'
    obtain ⟨rest, hpend, hlate, hundone⟩ := ht
    obtain rfl := hpend.exit hlate hn
    have hsettled : Settled E (s.heldBy t) base (copy t) := hundone.nil
    have htxd := txdOk_undoTail (s.enter t) err
    refine leave_serial hS hT (undoTail_world (s.enter t) err) htxd.2.2 ?_
    unfold ThreadInv
    cases (s.thread t).txd.abortReason with
    | userabort => exact hsettled
    | _ => exact ⟨hsettled, htxd.1, htxd.2.1⟩

theorem complete_serial {g : GenericAction} {l l' : Loop (ActOf (XAction N))} {err : Int}
    {e : XEntry N} (hp : (s.thread t).phase = .looping g l err)
    (hn : l.next (g.scan (s.thread t).txd) = .call e l') (he : ∀ a, e.function ≠ .other a) :
    SerialInv E (s.leave t ((releaseSentinels (s.enter t)).store e.errorResult 0)
      (.looping g l' err)) := by
  obtain ⟨hsettled, hnext⟩ := mgr_settled ((threadInv_iff _ hp).mp (hT t)) hn he
  refine release_serial hS hT true hsettled ?_ ?_ ?_ ?_ fun own h => ?_
  · rw [Mach.store_world]
    rfl
  · rw [Mach.store_world]
    rfl
  · rw [Mach.store_world]
    exact hS.faults
  · rw [Mach.store_txd]
    rfl
  · rw [Mach.store_txd]
    exact hnext own h _ rfl rfl

/-- the loop of a generic action calls an entry -/
theorem entry_serial {g : GenericAction} {l l' : Loop (ActOf (XAction N))} {err : Int}
    {e : XEntry N} (hp : (s.thread t).phase = .looping g l err)
    (hn : l.next (g.scan (s.thread t).txd) = .call e l') (hs' : nextEvent s t = some s') :
    SerialInv E s' := by
  have ht := (threadInv_iff _ hp).mp (hT t)
  simp only [nextEvent, hp, hn] at hs'
  cases hf : e.function with
  | other a =>
    simp only [hf] at hs'
    cases hs'
    cases g with
    | commit => cases hf.symm.trans (ht.2 e (call_mem hn))
    | undo =>
      obtain ⟨rest, hpend, hlate, hundone⟩ := ht
      obtain ⟨rest', rfl, hpend'⟩ := hpend.other hlate hn hf
      obtain ⟨-, fd, hfd, hF⟩ := hundone.undoes _ List.mem_cons_self
      exact .set hS hT rfl ⟨⟨s.heldBy t, copy t, copy t, []⟩, a, rest', rfl, rfl,
        hS.isolated.wfCopy t, hpend', hlate, hundone, undo_local hfd hF rfl⟩
  | sentinelmgrCommit =>
    have hmgr : ∀ a, e.function ≠ .other a := fun a ha => by cases hf.symm.trans ha
    simp only [hf] at hs'
    cases hs'
    exact complete_serial hS hT hp hn hmgr
  | sentinelmgrUndo =>
    have hmgr : ∀ a, e.function ≠ .other a := fun a ha => by cases hf.symm.trans ha
    simp only [hf] at hs'
    split at hs'
    · cases hs'
      exact complete_serial hS hT hp hn hmgr
    · obtain ⟨r, hr, rfl⟩ := Option.map_eq_some_iff.mp hs'
      unfold sentinelmgrTransactionBeforeRetry at hr
      obtain ⟨pre, -, rfl⟩ := Option.map_eq_some_iff.mp hr
      cases g with
      | commit => cases hf.symm.trans (ht.2 e (call_mem hn))
      | undo =>
        obtain ⟨rest, hpend, hlate, hundone⟩ := ht
        obtain ⟨rfl, hpend'⟩ := hpend.mgr hlate hn hmgr
        exact release_serial hS hT false hundone.nil rfl rfl hS.faults rfl
          fun own h => ⟨h, hpend', hlate⟩

theorem move_serial {g : GenericAction} {l l' : Loop (ActOf (XAction N))} {err : Int}
    (hp : (s.thread t).phase = .looping g l err)
    (hn : l.next (g.scan (s.thread t).txd) = .move l') :
    SerialInv E (s.set t { s.thread t with phase := .looping g l' err }) := by
  have ht := (threadInv_iff _ hp).mp (hT t)
  refine .set hS hT rfl ?_
  cases g with
  | commit => exact ht
  | undo =>
    obtain ⟨rest, hpend, hlate, hundone⟩ := ht
    exact ⟨rest, hpend.move hlate hn, hlate, hundone⟩

/-- `sentinel_list_acquire` takes the mutex of an entry -/
theorem acquire_serial {l : Loop (ActOf (XAction N))} {err : Int} {e : XEntry N} {k : Nat}
    (hp : (s.thread t).phase = .acquiring l err e k) {x : SentinelEntry (Fin n)}
    (hx : (s.mach.world.koamgr.sentinelmgr.sentinel x.sentinel).mutex = none)
    {m : XMach T n N} (hk : m.world.kernel = s.kernel)
    (hkoa : m.world.koamgr = { s.mach.world.koamgr with
      sentinelmgr := (acquireEntry s.mach.world.koamgr.sentinelmgr (s.thread t).txd t x).1 })
    (hf : m.world.answers.faults = [])
    (hm : m.txd = (acquireEntry s.mach.world.koamgr.sentinelmgr (s.thread t).txd t x).2) :
    SerialInv E (s.leave t m (.acquiring l err e (k + 1))) := by
  obtain ⟨hsettled, hpend, hlate⟩ := (threadInv_iff _ hp).mp (hT t)
  have hlock := sentinelLock_mutex s.mach.world.koamgr.sentinelmgr t x.sentinel
  have hsent := hS.sentinels.lock (t := t) hx (fun y => (hlock y).1) (fun y => (hlock y).2)
    (sentinelAcquired ||| sentinelAcquireonretry)
  obtain ⟨hS', hheld, hold, hnew, hother⟩ := hS.acquire (m := m)
    (.acquiring l err e (k + 1)) hk hkoa hf (by rw [hm]; exact hsent) fun y => by
      by_cases hy : y = x.sentinel
      · refine Or.inr ⟨hy ▸ hx, ((hlock y).1).trans (if_pos hy)⟩
      · exact Or.inl (((hlock y).1).trans (if_neg hy))
  refine .of_step hS hT hS' (fun u hu => ⟨Function.update_of_ne hu _ _, hother u hu,
    Function.update_of_ne hu _ _, Agree.refl _⟩) ?_
  show ThreadInv _ _ _ _ (Function.update s.thread t _ t)
  rw [Function.update_self, Function.update_self]
  refine ⟨(hsettled.ready.grow hS.isolated.wfBase (hS.isolated.wfCopy t) hS.isolated.wfState hheld
    hold hnew).undone.nil, ?_⟩
  rw [hm]
  exact ⟨hpend, hlate⟩

theorem next_serial (hs' : nextEvent s t = some s') : SerialInv E s' := by
  unfold nextEvent at hs'
  dsimp only at hs'
  split at hs'
  · rename_i g l err hp
    cases hn : l.next (g.scan (s.thread t).txd) with
    | exit => exact exit_serial hS hT hp hn (by unfold nextEvent; simp only [hp]; exact hs')
    | call e l' => exact entry_serial hS hT hp hn (by unfold nextEvent; simp only [hp]; exact hs')
    | move l' =>
      rw [hn] at hs'
      cases hs'
      exact move_serial hS hT hp hn
  · rename_i l err e k hp
    split at hs'
    · cases hs'
      obtain ⟨hsettled, hpend, hlate⟩ := (threadInv_iff _ hp).mp (hT t)
      refine leave_serial hS hT (by rw [Mach.store_world]) (by rw [Mach.store_txd]; rfl) ?_
      rw [Mach.store_txd]
      exact ⟨[], hpend, hlate, hsettled.undone⟩
    · rename_i x _
      split at hs'
      · rename_i hx
        cases hs'
        exact acquire_serial hS hT hp hx rfl rfl hS.faults rfl
      · cases hs'
  · cases hs'

end

end

end XCalls
