import XCalls.Core.Attempt

/-!
# No retry after a failed compensation

The failure manager over the attempts of a thread: the flags live in the descriptor, are set by
`_TXC_fm_register`, and are reset when a transaction begins and at the end of every undo.

* `undoErrors`      what the undo actions of a rollback report, in the order they are called;
* `FmInv`           the invariant of a thread;
* `Doomed`          the transaction has a failed compensation behind it and `fm_abort` is set;
* `undoSucceeds`    the condition that no undo action fails;
* `no_retry`        a thread that asked for no retry, and whose compensation fails; and one none of
                    whose undo actions fails.
-/

set_option linter.unusedSectionVars false

namespace XCalls
open EventSys
variable {α W : Type} {n : Nat}

/-- `TXC_FM_NO_RETRY` -/
def fmNoRetry : Int := 0x1

/-! ## the end of an undo -/

section
variable {A S W' : Type} (m : Mach A S W') (r : Int)

theorem undoTail_abort :
    (undoTail m r).txd.fmAbort = (m.txd.fmAbort || decide (r ≠ 0 ∧ m.txd.fmFlags ≠ 0)) := by
  unfold undoTail fmHandleUndoFailure
  by_cases hr : r = 0
  · simp [hr, txInit]
  · by_cases hf : m.txd.fmFlags = 0 <;> simp [hr, hf, txInit]

theorem undoTail_store (h : r ≠ 0) : (undoTail m r).mem = (m.store m.txd.fmErrorResult r).mem := by
  unfold undoTail fmHandleUndoFailure
  have hfm : (txInit m.txd).fmErrorResult = m.txd.fmErrorResult := rfl
  simp only [ne_eq, h, not_false_eq_true, if_true, hfm]
  split <;> cases m.txd.fmErrorResult <;> rfl

theorem undoTail_keep : (undoTail m 0).mem = m.mem := by
  unfold undoTail fmHandleUndoFailure
  simp

end

/-! ## the invariant -/

section
variable (env : Env α n W) (statistics : Bool)

/-- the errors of the undo actions of a rollback -/
def undoErrors (fuel : Nat) (m : TMach α n W) : List Int :=
  if m.txd.itmUndo then
    ((txGenericUndoAction env.exec fuel m).map fun o => (callAll env.exec o.executed m).1).getD []
  else []

/-- the machine that an event rolls back -/
def rolledBack (x : Thread α n W) : ThreadEvent α n W → Option (Nat × TMach α n W)
  | .abort reason fuel => some (fuel, abortMach x.mach reason)
  | .conflict fuel => some (fuel, x.mach)
  | _ => none

structure FmInv (x : Thread α n W) : Prop where
  undoOrder : ∀ e ∈ x.mach.txd.undoActionList.entries, 0 ≤ e.order
  idle : x.phase ≠ .running → x.mach.txd.itmUndo = false
  begun : x.phase = .begun → x.mach.txd.undoActionList.entries = [] ∧
    x.mach.txd.genericUndoActionRegistered = false
  running : x.phase = .running → x.mach.txd.fmAbort = false ∧
    x.mach.txd.itmUndo = x.mach.txd.genericUndoActionRegistered ∧
    (x.mach.txd.undoActionList.entries ≠ [] → x.mach.txd.genericUndoActionRegistered = true)
  last : ∀ flags p, x.registered = some (flags, p) →
    x.mach.txd.fmFlags = flags ∧ x.mach.txd.fmErrorResult = p

theorem fmInv_init (txstat : TxStat) (mem : Nat → Int) (rest : W) :
    FmInv (threadInit txstat mem rest : Thread α n W) := by
  refine ⟨fun e he => ?_, fun _ => rfl, fun h => ?_, fun h => ?_, fun _ _ h => ?_⟩
  · cases he
  · cases h
  · cases h
  · cases h

/-! ## registrations -/

structure UndoOk (txd : TDesc α n) : Prop where
  order : ∀ e ∈ txd.undoActionList.entries, 0 ≤ e.order
  itm : txd.itmUndo = txd.genericUndoActionRegistered
  generic : txd.undoActionList.entries ≠ [] → txd.genericUndoActionRegistered = true

theorem UndoOk.registerUndo {txd : TDesc α n} (h : UndoOk txd) (e : ActionEntry (TAct α))
    (he : 0 ≤ e.order) : UndoOk (txRegisterUndoAction txd e) := by
  rw [txRegisterUndoAction_eq]
  refine ⟨fun x hx => ?_, ?_, fun _ => rfl⟩
  · rw [entries_registerAction] at hx
    rcases List.mem_append.mp hx with hx | hx
    · exact h.order x hx
    · rw [List.mem_singleton.mp hx]
      exact he
  · show (txd.itmUndo || !txd.genericUndoActionRegistered) = true
    rw [h.itm]
    cases txd.genericUndoActionRegistered <;> rfl

/-- registrations by the two managers: the failure manager's fields stay, and what is new among the
undo actions is internal -/
structure Managed (txd txd' : TDesc α n) : Prop where
  flags : txd'.fmFlags = txd.fmFlags
  result : txd'.fmErrorResult = txd.fmErrorResult
  abort : txd'.fmAbort = txd.fmAbort
  undos : ∃ l, txd'.undoActionList.entries = txd.undoActionList.entries ++ l ∧
    ∀ e ∈ l, Internal e
  ok : UndoOk txd → UndoOk txd'

theorem Managed.refl (txd : TDesc α n) : Managed txd txd :=
  ⟨rfl, rfl, rfl, ⟨[], (List.append_nil _).symm, fun e he => by cases he⟩, id⟩

theorem Managed.trans {a b c : TDesc α n} (h : Managed a b) (h' : Managed b c) : Managed a c := by
  obtain ⟨l, hl, hi⟩ := h.undos
  obtain ⟨l', hl', hi'⟩ := h'.undos
  refine ⟨h'.flags.trans h.flags, h'.result.trans h.result, h'.abort.trans h.abort,
    ⟨l ++ l', by rw [hl', hl, List.append_assoc], fun e he => ?_⟩, fun hok => h'.ok (h.ok hok)⟩
  exact (List.mem_append.mp he).elim (hi e) (hi' e)

theorem managed_commit (txd : TDesc α n) (e : ActionEntry (TAct α)) (b c : Bool) :
    Managed txd { txRegisterCommitAction txd e with
      sentinelmgrCommitActionRegistered := b
      statsmgrCommitActionRegistered := c } := by
  rw [txRegisterCommitAction_eq]
  exact ⟨rfl, rfl, rfl, ⟨[], (List.append_nil _).symm, fun e he => by cases he⟩,
    fun h => ⟨h.order, h.itm, h.generic⟩⟩

theorem managed_undo (txd : TDesc α n) {e : ActionEntry (TAct α)} (he : Internal e)
    (ho : 0 ≤ e.order) (b c : Bool) :
    Managed txd { txRegisterUndoAction txd e with
      sentinelmgrUndoActionRegistered := b
      statsmgrUndoActionRegistered := c } := by
  have hok : UndoOk txd → UndoOk { txRegisterUndoAction txd e with
      sentinelmgrUndoActionRegistered := b
      statsmgrUndoActionRegistered := c } := fun h =>
    ⟨(h.registerUndo e ho).order, (h.registerUndo e ho).itm, (h.registerUndo e ho).generic⟩
  refine ⟨?_, ?_, ?_, ⟨[e], ?_, fun x hx => ?_⟩, hok⟩
  · rw [txRegisterUndoAction_eq]
  · rw [txRegisterUndoAction_eq]
  · rw [txRegisterUndoAction_eq]
  · rw [txRegisterUndoAction_eq]
    exact entries_registerAction _ _
  · rw [List.mem_singleton.mp hx]
    exact he

theorem internal_sentinelmgrUndo :
    Internal (⟨.sentinelmgrUndo, none, sentinelmgrActionOrder⟩ : ActionEntry (TAct α)) :=
  ⟨rfl, fun _ h => by cases h⟩

theorem internal_statsmgrUndo :
    Internal (⟨.other .statsmgrUndo, none, statsmgrActionOrder⟩ : ActionEntry (TAct α)) :=
  ⟨rfl, fun _ h => by cases h⟩

theorem managed_sentinels (txd : TDesc α n) :
    Managed txd (registerSentinelmgrUndoAction (registerSentinelmgrCommitAction txd)) := by
  have h1 : Managed txd (registerSentinelmgrCommitAction txd) := by
    unfold registerSentinelmgrCommitAction
    split
    · exact managed_commit txd _ _ _
    · exact .refl _
  refine h1.trans ?_
  unfold registerSentinelmgrUndoAction
  split
  · exact managed_undo _ internal_sentinelmgrUndo (show (0 : Int32) ≤ 2 by decide) _ _
  · exact .refl _

theorem managed_postBegin (m : TMach α n W) :
    Managed m.txd (txPostBegin statistics m).txd := by
  have h1 : Managed m.txd (sentinelTransactionPostbegin m.txd) := by
    unfold sentinelTransactionPostbegin
    split
    · exact managed_sentinels m.txd
    · exact .refl _
  refine h1.trans ?_
  show Managed _ (statsTransactionPostbegin statistics _)
  unfold statsTransactionPostbegin
  split
  · have h2 : Managed (sentinelTransactionPostbegin m.txd)
        (registerStatsmgrCommitAction (sentinelTransactionPostbegin m.txd)) := by
      unfold registerStatsmgrCommitAction
      split
      · exact managed_commit _ _ _ _
      · exact .refl _
    refine h2.trans ?_
    unfold registerStatsmgrUndoAction
    split
    · exact managed_undo _ internal_statsmgrUndo (show (0 : Int32) ≤ 3 by decide) _ _
    · exact .refl _
  · exact .refl _

/-- `tmsystem_abort_transaction` registers the generic undo action and touches nothing of it -/
theorem abortMach_eq (m : TMach α n W) (reason : AbortReason) :
    (abortMach m reason).txd.undoActionList = m.txd.undoActionList ∧
      (abortMach m reason).txd.fmFlags = m.txd.fmFlags ∧
      (abortMach m reason).txd.fmErrorResult = m.txd.fmErrorResult ∧
      (abortMach m reason).txd.fmAbort = m.txd.fmAbort ∧
      (abortMach m reason).txd.abortReason = reason ∧
      (abortMach m reason).mem = m.mem ∧
      (m.txd.itmUndo = m.txd.genericUndoActionRegistered →
        (abortMach m reason).txd.itmUndo = true) := by
  unfold abortMach tmsystemAbortTransaction tmsystemRegisterGenericUndoAction
  split
  · exact ⟨rfl, rfl, rfl, rfl, rfl, rfl, fun _ => rfl⟩
  · rename_i hg
    refine ⟨rfl, rfl, rfl, rfl, rfl, rfl, fun h => ?_⟩
    show m.txd.itmUndo = true
    rw [h]
    simpa using hg

/-! ## rollbacks -/

theorem callAll_length (es : List (ActionEntry (TAct α))) (m : TMach α n W) :
    (callAll env.exec es m).1.length = es.length := by
  induction es generalizing m with
  | nil => rfl
  | cons e es ih =>
    show ((callAll env.exec es _).1.length + 1) = es.length + 1
    rw [ih]

structure RolledBack (m : TMach α n W) (errs : List Int) (x' : Thread α n W) : Prop where
  phase : x'.phase = phaseAfter m.txd.abortReason
  inv : FmInv x'
  abort : x'.mach.txd.fmAbort
    = (m.txd.fmAbort || decide (firstError errs ≠ 0 ∧ m.txd.fmFlags ≠ 0))
  told : ∀ p, m.txd.fmErrorResult = some p → firstError errs ≠ 0 →
    x'.mach.mem p = firstError errs
  every : errs.length = m.txd.undoActionList.entries.length

theorem phaseAfter_ne_running (reason : AbortReason) : phaseAfter reason ≠ .running := by
  cases reason <;> decide

theorem Thread.rollback_spec {x x' : Thread α n W} {m : TMach α n W} {fuel : Nat}
    (hok : UndoOk m.txd) (h : x.rollback env m fuel = some x') :
    RolledBack m (undoErrors env fuel m) x' := by
  obtain ⟨m', hm', rfl⟩ := Option.map_eq_some_iff.mp h
  rcases rollbackMach_some env hok.order hm' with ⟨hitm, rfl⟩ | ⟨hitm, o, ho, hord, rfl⟩
  · -- nothing was registered, so there was nothing to undo
    have hgen : m.txd.genericUndoActionRegistered = false := hok.itm ▸ hitm
    have hnil : m.txd.undoActionList.entries = [] := by
      by_contra hne
      rw [hok.generic hne] at hgen
      cases hgen
    have herrs : undoErrors env fuel m = [] := by
      unfold undoErrors
      rw [hitm]
      rfl
    refine ⟨rfl, ⟨hok.order, fun _ => rfl, fun _ => ⟨hnil, hgen⟩, fun hr => ?_, fun _ _ hl => ?_⟩,
      ?_, ?_, ?_⟩
    · exact absurd hr (phaseAfter_ne_running _)
    · cases hl
    · rw [herrs]
      show m.txd.fmAbort = (m.txd.fmAbort || decide (firstError [] ≠ 0 ∧ m.txd.fmFlags ≠ 0))
      simp [firstError]
    · rw [herrs]
      exact fun _ _ h0 => absurd rfl h0
    · rw [herrs, hnil]
      rfl
  · have herrs : undoErrors env fuel m = (callAll env.exec o.executed m).1 := by
      unfold undoErrors
      rw [if_pos hitm, ho]
      rfl
    have hcl := cleared_undoTail (callAll env.exec o.executed m).2
      (firstError (callAll env.exec o.executed m).1)
    have htxd := callAll_txd env o.executed m
    obtain ⟨_, _, _, _, htxd⟩ := callAll_txd env o.executed m
    have hflags : (callAll env.exec o.executed m).2.txd.fmFlags = m.txd.fmFlags := by rw [htxd]
    have hresult : (callAll env.exec o.executed m).2.txd.fmErrorResult = m.txd.fmErrorResult := by
      rw [htxd]
    have habort : (callAll env.exec o.executed m).2.txd.fmAbort = m.txd.fmAbort := by rw [htxd]
    rw [herrs]
    refine ⟨rfl, ⟨fun e he => ?_, fun _ => rfl, fun _ => ⟨hcl.undos, hcl.flags.2.2.2.2.1⟩,
      fun hr => ?_, fun _ _ hl => ?_⟩, ?_, fun p hp hne => ?_, ?_⟩
    · have hnil : (undoTail (callAll env.exec o.executed m).2
          (firstError (callAll env.exec o.executed m).1)).txd.undoActionList.entries = [] := hcl.undos
      have he' : e ∈ (undoTail (callAll env.exec o.executed m).2
          (firstError (callAll env.exec o.executed m).1)).txd.undoActionList.entries := he
      rw [hnil] at he'
      cases he'
    · exact absurd hr (phaseAfter_ne_running _)
    · cases hl
    · show (undoTail _ _).txd.fmAbort = _
      rw [undoTail_abort, habort, hflags]
    · show (undoTail _ _).mem p = _
      rw [undoTail_store _ _ hne, hresult, hp]
      exact if_pos rfl
    · rw [callAll_length, hord.once.length_eq]
      exact List.length_reverse

/-! ## every run -/

theorem FmInv.undoOk {x : Thread α n W} (h : FmInv x) (hr : x.phase = .running) :
    UndoOk x.mach.txd :=
  ⟨h.undoOrder, (h.running hr).2.1, (h.running hr).2.2⟩

theorem FmInv.setTxd {x : Thread α n W} (h : FmInv x) (hr : x.phase = .running) {txd : TDesc α n}
    (hm : Managed x.mach.txd txd) : FmInv (x.setTxd txd) := by
  have hok := hm.ok (h.undoOk hr)
  refine ⟨hok.order, fun hn => absurd hr hn, fun hb => ?_, fun _ => ⟨?_, hok.itm, hok.generic⟩,
    fun flags p hl => ?_⟩
  · exact absurd (hr.symm.trans hb) (by decide)
  · exact hm.abort.trans (h.running hr).1
  · obtain ⟨h1, h2⟩ := h.last flags p hl
    exact ⟨hm.flags.trans h1, hm.result.trans h2⟩

theorem UndoOk.abort {m : TMach α n W} (hok : UndoOk m.txd) (reason : AbortReason) :
    UndoOk (abortMach m reason).txd := by
  unfold abortMach tmsystemAbortTransaction tmsystemRegisterGenericUndoAction
  split
  · exact ⟨hok.order, rfl, fun _ => rfl⟩
  · exact ⟨hok.order, hok.itm, hok.generic⟩

theorem FmInv.rollback_txd {x : Thread α n W} (h : FmInv x) (hr : x.phase = .running)
    {ev : ThreadEvent α n W} {fuel : Nat} {m : TMach α n W}
    (hev : rolledBack x ev = some (fuel, m)) :
    UndoOk m.txd ∧ m.txd.fmFlags = x.mach.txd.fmFlags ∧
      m.txd.fmErrorResult = x.mach.txd.fmErrorResult ∧ m.txd.fmAbort = false ∧
      m.txd.undoActionList = x.mach.txd.undoActionList := by
  have hok := h.undoOk hr
  have hab := (h.running hr).1
  cases ev with
  | abort reason fuel' =>
    cases hev
    obtain ⟨h1, h2, h3, h4, _, _, _⟩ := abortMach_eq x.mach reason
    exact ⟨hok.abort reason, h2, h3, h4.trans hab, h1⟩
  | conflict fuel' =>
    cases hev
    exact ⟨hok, rfl, rfl, hab, rfl⟩
  | _ => cases hev

theorem Thread.postBegin_inv {x x' : Thread α n W} {fuel : Nat} (hok : UndoOk x.mach.txd)
    (hlast : ∀ flags p, x.registered = some (flags, p) →
      x.mach.txd.fmFlags = flags ∧ x.mach.txd.fmErrorResult = p)
    (hs : x.postBegin env statistics fuel = some x') : FmInv x' := by
  have hm := managed_postBegin statistics x.mach
  have hok' := hm.ok hok
  unfold Thread.postBegin at hs
  simp only at hs
  split at hs
  · exact (Thread.rollback_spec env (hok'.abort .userabort) hs).inv
  · rename_i hab
    cases hs
    refine ⟨hok'.order, fun hn => absurd rfl hn, fun hb => ?_,
      fun _ => ⟨by simpa using hab, hok'.itm, hok'.generic⟩, fun flags p hl => ?_⟩
    · cases hb
    · obtain ⟨h1, h2⟩ := hlast flags p hl
      exact ⟨hm.flags.trans h1, hm.result.trans h2⟩

theorem FmInv.undoOk_begun {x : Thread α n W} (h : FmInv x) (hp : x.phase = .begun) :
    UndoOk x.mach.txd := by
  obtain ⟨hnil, hgen⟩ := h.begun hp
  refine ⟨h.undoOrder, ?_, fun hne => absurd hnil hne⟩
  rw [hgen, h.idle (by rw [hp]; decide)]

/-- after a commit nothing is left to be undone by the STM -/
theorem commitMach_undo {fuel : Nat} {m m' : TMach α n W} (h : commitMach env fuel m = some m') :
    m'.txd.itmUndo = false ∧
      ∀ e ∈ m'.txd.undoActionList.entries, e ∈ m.txd.undoActionList.entries := by
  unfold commitMach at h
  split at h
  · obtain ⟨o, ho, rfl⟩ := Option.map_eq_some_iff.mp h
    obtain ⟨r, _, rfl⟩ := Option.map_eq_some_iff.mp ho
    have hcl := cleared_commitTail r.2.2 r.2.1
    refine ⟨rfl, fun e he => ?_⟩
    have he' : e ∈ (commitTail r.2.2 r.2.1).txd.undoActionList.entries := he
    rw [hcl.undos] at he'
    cases he'
  · cases h
    exact ⟨rfl, fun e he => he⟩

/-- **One step of a thread.** -/
theorem FmInv.step {x x' : Thread α n W} {ev : ThreadEvent α n W} (h : FmInv x)
    (hs : threadStep env statistics x ev = some x') : FmInv x' := by
  cases ev with
  | preBegin srclocStr srcloc =>
    obtain ⟨hp, hs⟩ := Option.ite_none_right_eq_some.mp hs
    cases hs
    refine ⟨fun e he => ?_, fun _ => h.idle (by rw [hp]; decide), fun _ => ⟨rfl, rfl⟩,
      fun hc => ?_, fun _ _ hl => ?_⟩
    · cases he
    · cases hc
    · cases hl
  | postBegin fuel =>
    obtain ⟨hp, hs⟩ := Option.ite_none_right_eq_some.mp hs
    exact Thread.postBegin_inv env statistics (h.undoOk_begun hp) h.last hs
  | innerBegin fuel =>
    obtain ⟨hp, hs⟩ := Option.ite_none_right_eq_some.mp hs
    exact Thread.postBegin_inv env statistics (h.undoOk hp) h.last hs
  | fmRegister flags errorResult =>
    obtain ⟨hp, hs⟩ := Option.ite_none_right_eq_some.mp hs
    cases hs
    refine ⟨h.undoOrder, fun hn => absurd hp hn, fun hb => absurd (hp.symm.trans hb) (by decide),
      fun _ => h.running hp, fun flags' p hl => ?_⟩
    cases hl
    exact ⟨rfl, rfl⟩
  | registerCommit a errorResult order =>
    obtain ⟨⟨hp, _⟩, hs⟩ := Option.ite_none_right_eq_some.mp hs
    cases hs
    have hm := managed_commit x.mach.txd ⟨.other (.other a), errorResult, order⟩ false false
    exact h.setTxd hp ⟨hm.flags, hm.result, hm.abort, hm.undos, fun hok =>
      ⟨(hm.ok hok).order, (hm.ok hok).itm, (hm.ok hok).generic⟩⟩
  | registerUndo a errorResult order =>
    obtain ⟨⟨hp, ho⟩, hs⟩ := Option.ite_none_right_eq_some.mp hs
    cases hs
    have hok := (h.undoOk hp).registerUndo ⟨.other (.other a), errorResult, order⟩ ho
    have hrun := h.running hp
    refine ⟨hok.order, fun hn => absurd hp hn, fun hb => absurd (hp.symm.trans hb) (by decide),
      fun _ => ⟨?_, hok.itm, hok.generic⟩, fun flags p hl => ?_⟩
    · show (txRegisterUndoAction _ _).fmAbort = false
      rw [txRegisterUndoAction_eq]
      exact hrun.1
    · show (txRegisterUndoAction _ _).fmFlags = _ ∧ (txRegisterUndoAction _ _).fmErrorResult = _
      rw [txRegisterUndoAction_eq]
      exact h.last flags p hl
  | enlist e =>
    obtain ⟨hp, hs⟩ := Option.ite_none_right_eq_some.mp hs
    cases hs
    have hm := managed_sentinels x.mach.txd
    exact h.setTxd hp ⟨hm.flags, hm.result, hm.abort, hm.undos, fun hok =>
      ⟨(hm.ok hok).order, (hm.ok hok).itm, (hm.ok hok).generic⟩⟩
  | increment entry val =>
    simp only [threadStep] at hs
    split at hs
    · cases hs
    · cases hs
      unfold Thread.increment
      split
      · exact ⟨h.undoOrder, h.idle, h.begun, h.running, h.last⟩
      · exact h
  | user mem rest =>
    obtain ⟨hp, hs⟩ := Option.ite_none_right_eq_some.mp hs
    cases hs
    exact ⟨h.undoOrder, h.idle, h.begun, h.running, h.last⟩
  | abort reason fuel =>
    obtain ⟨hp, hs⟩ := Option.ite_none_right_eq_some.mp hs
    exact (Thread.rollback_spec env ((h.undoOk hp).abort reason) hs).inv
  | conflict fuel =>
    obtain ⟨hp, hs⟩ := Option.ite_none_right_eq_some.mp hs
    exact (Thread.rollback_spec env (h.undoOk hp) hs).inv
  | commit fuel =>
    obtain ⟨hp, hs⟩ := Option.ite_none_right_eq_some.mp hs
    obtain ⟨m, hm, rfl⟩ := Option.map_eq_some_iff.mp hs
    obtain ⟨h1, h2⟩ := commitMach_undo env hm
    refine ⟨fun e he => ?_, fun _ => h1, fun hb => ?_, fun hr => ?_, fun _ _ hl => ?_⟩
    · exact h.undoOrder e (h2 e he)
    · cases hb
    · cases hr
    · cases hl

theorem fmInv_reach {txstat : TxStat} {mem : Nat → Int} {rest : W} {ok} {x : Thread α n W}
    (h : Reach (threadStep env statistics) ok (· = threadInit txstat mem rest) x) : FmInv x := by
  refine Reach.inv ?_ ?_ h
  · rintro _ rfl
    exact fmInv_init txstat mem rest
  · intro x ev x' hx _ hs
    exact hx.step env statistics hs

/-! ## a failed compensation -/

def ThreadEvent.isPreBegin : ThreadEvent α n W → Bool
  | .preBegin _ _ => true
  | _ => false

def ThreadEvent.isCommit : ThreadEvent α n W → Bool
  | .commit _ => true
  | _ => false

/-- the failure is recorded, and the next attempt, if there is one, will be aborted -/
structure Doomed (p : Nat) (v : Int) (x : Thread α n W) : Prop where
  inv : FmInv x
  kept : x.mach.mem p = v
  stopped : x.phase = .outside ∨ (x.phase = .begun ∧ x.mach.txd.fmAbort = true)

theorem Doomed.not_running {p : Nat} {v : Int} {x : Thread α n W} (h : Doomed p v x) :
    x.phase ≠ .running := by
  rcases h.stopped with ho | ⟨hb, _⟩
  · rw [ho]
    decide
  · rw [hb]
    decide

/-- the forced abort: the undo machinery runs a second time and clears nothing -/
theorem Doomed.postBegin {p : Nat} {v : Int} {x y : Thread α n W} (h : Doomed p v x) {fuel : Nat}
    (hs : threadStep env statistics x (.postBegin fuel) = some y) :
    y.phase = .outside ∧ Doomed p v y := by
  have hinv := h.inv.step env statistics hs
  obtain ⟨hp, hs⟩ := Option.ite_none_right_eq_some.mp hs
  have hab : x.mach.txd.fmAbort = true := by
    rcases h.stopped with ho | ⟨_, hab⟩
    · exact absurd (hp.symm.trans ho) (by decide)
    · exact hab
  have hm := managed_postBegin statistics x.mach
  have hokA := (hm.ok (h.inv.undoOk_begun hp)).abort .userabort
  have hab' : (txPostBegin statistics x.mach).txd.fmAbort = true := hm.abort.trans hab
  obtain ⟨hlist, _, _, _, hreason, hmem, _⟩ :=
    abortMach_eq (txPostBegin statistics x.mach) .userabort
  -- the undo actions of this attempt are those of the managers
  have hint : ∀ e ∈ undoScan (abortMach (txPostBegin statistics x.mach) .userabort).txd,
      Internal e := by
    obtain ⟨l, hl, hi⟩ := hm.undos
    rw [(h.inv.begun hp).1, List.nil_append] at hl
    intro e he
    have he' := List.mem_reverse.mp he
    rw [hlist, hl] at he'
    exact hi e he'
  unfold Thread.postBegin at hs
  simp only [hab', if_true] at hs
  obtain ⟨m', hm', rfl⟩ := Option.map_eq_some_iff.mp hs
  have hphase : phaseAfter (abortMach (txPostBegin statistics x.mach) .userabort).txd.abortReason
      = .outside := by rw [hreason]; rfl
  refine ⟨hphase, hinv, ?_, .inl hphase⟩
  show m'.mem p = v
  rw [← h.kept]
  rcases rollbackMach_some env hokA.order hm' with ⟨_, rfl⟩ | ⟨_, o, _, hord, rfl⟩
  · exact congrFun hmem p
  · obtain ⟨h0, hkeep⟩ := callAll_internal env (fun e he => hint e (hord.once.mem_iff.mp he))
      (abortMach (txPostBegin statistics x.mach) .userabort)
    show (undoTail _ (firstError _)).mem p = _
    rw [firstError_eq_zero.mpr h0, undoTail_keep, hkeep]
    exact congrFun hmem p

/-- `txc_tx_post_begin` returns, or the attempt is aborted and that returns -/
theorem FmInv.postBegin_returns {x : Thread α n W} (h : FmInv x) (hp : x.phase = .begun) :
    ∃ fuel₀ y, ∀ fuel ≥ fuel₀, threadStep env statistics x (.postBegin fuel) = some y := by
  have hm := managed_postBegin statistics x.mach
  have hokA := (hm.ok (h.undoOk_begun hp)).abort .userabort
  obtain ⟨fuel₀, m', hm'⟩ := rollbackMach_returns env hokA.order
  cases hab : (txPostBegin statistics x.mach).txd.fmAbort with
  | false =>
    refine ⟨0, { x with mach := txPostBegin statistics x.mach, phase := .running },
      fun fuel _ => ?_⟩
    show (if x.phase = .begun then x.postBegin env statistics fuel else none) = _
    rw [if_pos hp]
    unfold Thread.postBegin
    simp only [hab, Bool.false_eq_true, if_false]
  | true =>
    refine ⟨fuel₀, { x with
      mach := m'
      phase := phaseAfter (abortMach (txPostBegin statistics x.mach) .userabort).txd.abortReason
      registered := none
      counters := fun _ => 0 }, fun fuel hf => ?_⟩
    show (if x.phase = .begun then x.postBegin env statistics fuel else none) = _
    rw [if_pos hp]
    unfold Thread.postBegin Thread.rollback
    simp only [hab, if_true, hm' fuel hf, Option.map_some]

/-- nothing but the beginning of the next transaction gets out -/
theorem Doomed.step {p : Nat} {v : Int} {x y : Thread α n W} (h : Doomed p v x)
    {ev : ThreadEvent α n W} (hev : ev.isPreBegin = false)
    (hs : threadStep env statistics x ev = some y) : Doomed p v y ∧ ev.isCommit = false := by
  have hinv := h.inv.step env statistics hs
  have hrun := h.not_running
  cases ev with
  | preBegin srclocStr srcloc => cases hev
  | postBegin fuel => exact ⟨(h.postBegin env statistics hs).2, rfl⟩
  | increment entry val =>
    simp only [threadStep] at hs
    split at hs
    · cases hs
    · cases hs
      refine ⟨⟨hinv, ?_, ?_⟩, rfl⟩
      · unfold Thread.increment
        split <;> exact h.kept
      · unfold Thread.increment
        split <;> exact h.stopped
  | registerCommit a errorResult order =>
    exact absurd (Option.ite_none_right_eq_some.mp hs).1.1 hrun
  | registerUndo a errorResult order =>
    exact absurd (Option.ite_none_right_eq_some.mp hs).1.1 hrun
  | innerBegin fuel => exact absurd (Option.ite_none_right_eq_some.mp hs).1 hrun
  | fmRegister flags errorResult => exact absurd (Option.ite_none_right_eq_some.mp hs).1 hrun
  | enlist e => exact absurd (Option.ite_none_right_eq_some.mp hs).1 hrun
  | user mem rest => exact absurd (Option.ite_none_right_eq_some.mp hs).1 hrun
  | abort reason fuel => exact absurd (Option.ite_none_right_eq_some.mp hs).1 hrun
  | conflict fuel => exact absurd (Option.ite_none_right_eq_some.mp hs).1 hrun
  | commit fuel => exact absurd (Option.ite_none_right_eq_some.mp hs).1 hrun

theorem Doomed.run {p : Nat} {v : Int} (es : List (ThreadEvent α n W)) {x y : Thread α n W}
    (h : Doomed p v x) (hes : ∀ ev ∈ es, ev.isPreBegin = false)
    (hr : EventSys.run (threadStep env statistics) x es = some y) :
    Doomed p v y ∧ ∀ ev ∈ es, ev.isCommit = false := by
  induction es generalizing x with
  | nil =>
    cases hr
    exact ⟨h, fun ev hev => by cases hev⟩
  | cons ev es ih =>
    obtain ⟨x1, h1, h2⟩ := Option.bind_eq_some_iff.mp hr
    obtain ⟨hd, hc⟩ := h.step env statistics (hes ev List.mem_cons_self) h1
    obtain ⟨hy, hcs⟩ := ih hd (fun e he => hes e (List.mem_cons_of_mem _ he)) h2
    refine ⟨hy, fun e he => ?_⟩
    rcases List.mem_cons.mp he with rfl | he
    · exact hc
    · exact hcs e he

theorem FmInv.rollback_step {x x' : Thread α n W} (h : FmInv x) {ev : ThreadEvent α n W}
    {fuel : Nat} {m : TMach α n W} (hev : rolledBack x ev = some (fuel, m))
    (hs : threadStep env statistics x ev = some x') :
    x.phase = .running ∧ RolledBack m (undoErrors env fuel m) x' := by
  cases ev with
  | abort reason fuel' =>
    obtain ⟨hp, hs⟩ := Option.ite_none_right_eq_some.mp hs
    cases hev
    exact ⟨hp, Thread.rollback_spec env ((h.undoOk hp).abort reason) hs⟩
  | conflict fuel' =>
    obtain ⟨hp, hs⟩ := Option.ite_none_right_eq_some.mp hs
    cases hev
    exact ⟨hp, Thread.rollback_spec env (h.undoOk hp) hs⟩
  | _ => cases hev

/-- no undo action of the rollbacks of an event fails -/
def undoSucceeds (x : Thread α n W) (ev : ThreadEvent α n W) : Prop :=
  ∀ fuel m, rolledBack x ev = some (fuel, m) → ∀ r ∈ undoErrors env fuel m, r = 0

theorem Thread.postBegin_runs {x y : Thread α n W} {fuel : Nat} (h : x.mach.txd.fmAbort = false)
    (hs : x.postBegin env statistics fuel = some y) : y.phase = .running := by
  have hab : (txPostBegin statistics x.mach).txd.fmAbort = false :=
    (managed_postBegin statistics x.mach).abort.trans h
  unfold Thread.postBegin at hs
  simp only [hab, Bool.false_eq_true, if_false] at hs
  cases hs
  rfl

/-- without a failure no attempt starts with `fm_abort` -/
theorem fmAbort_reach {txstat : TxStat} {mem : Nat → Int} {rest : W} {x : Thread α n W}
    (h : Reach (threadStep env statistics) (undoSucceeds env) (· = threadInit txstat mem rest) x) :
    x.phase ≠ .outside → x.mach.txd.fmAbort = false := by
  induction h with
  | start h =>
    subst h
    exact fun hc => absurd rfl hc
  | @next x x' ev h hok hs ih =>
    have hinv := fmInv_reach env statistics h
    have hinv' := hinv.step env statistics hs
    intro hout
    by_cases hrun : x'.phase = .running
    · exact (hinv'.running hrun).1
    -- the phase is `begun`: after a rollback, or after an outermost begin
    · cases ev with
      | preBegin srclocStr srcloc =>
        obtain ⟨_, hs⟩ := Option.ite_none_right_eq_some.mp hs
        cases hs
        rfl
      | abort reason fuel =>
        obtain ⟨hp, hback⟩ := hinv.rollback_step env statistics rfl hs
        obtain ⟨_, _, _, hab, _⟩ := hinv.rollback_txd hp
          (show rolledBack x (.abort reason fuel) = _ from rfl)
        rw [hback.abort, hab, firstError_eq_zero.mpr (hok _ _ rfl)]
        rfl
      | conflict fuel =>
        obtain ⟨hp, hback⟩ := hinv.rollback_step env statistics rfl hs
        obtain ⟨_, _, _, hab, _⟩ := hinv.rollback_txd hp (show rolledBack x (.conflict fuel) = _ from rfl)
        rw [hback.abort, hab, firstError_eq_zero.mpr (hok _ _ rfl)]
        rfl
      | postBegin fuel =>
        obtain ⟨hp, hs⟩ := Option.ite_none_right_eq_some.mp hs
        exact absurd (Thread.postBegin_runs env statistics (ih (by rw [hp]; decide)) hs) hrun
      | innerBegin fuel =>
        obtain ⟨hp, hs⟩ := Option.ite_none_right_eq_some.mp hs
        exact absurd (Thread.postBegin_runs env statistics (ih (by rw [hp]; decide)) hs) hrun
      | increment entry val =>
        simp only [threadStep] at hs
        split at hs
        · cases hs
        · rename_i hb
          cases hs
          unfold Thread.increment at hout hrun ⊢
          cases hph : x.phase <;> split at hout <;> simp_all
      | commit fuel =>
        obtain ⟨_, hs⟩ := Option.ite_none_right_eq_some.mp hs
        obtain ⟨_, _, rfl⟩ := Option.map_eq_some_iff.mp hs
        exact absurd rfl hout
      | registerCommit a errorResult order =>
        obtain ⟨⟨hp, _⟩, hs⟩ := Option.ite_none_right_eq_some.mp hs
        cases hs
        exact absurd hp hrun
      | registerUndo a errorResult order =>
        obtain ⟨⟨hp, _⟩, hs⟩ := Option.ite_none_right_eq_some.mp hs
        cases hs
        exact absurd hp hrun
      | fmRegister flags errorResult =>
        obtain ⟨hp, hs⟩ := Option.ite_none_right_eq_some.mp hs
        cases hs
        exact absurd hp hrun
      | enlist e =>
        obtain ⟨hp, hs⟩ := Option.ite_none_right_eq_some.mp hs
        cases hs
        exact absurd hp hrun
      | user mem rest =>
        obtain ⟨hp, hs⟩ := Option.ite_none_right_eq_some.mp hs
        cases hs
        exact absurd hp hrun

/-- a failed compensation of an attempt that asked for no retry -/
theorem doomed_of_failure {x x' : Thread α n W} (hinv : FmInv x) {ev : ThreadEvent α n W}
    {fuel : Nat} {m : TMach α n W} (hev : rolledBack x ev = some (fuel, m))
    (hs : threadStep env statistics x ev = some x') {p : Nat}
    (hreg : x.registered = some (fmNoRetry, some p))
    (hfail : ∃ r ∈ undoErrors env fuel m, r ≠ 0) :
    Doomed p (firstError (undoErrors env fuel m)) x' := by
  obtain ⟨hp, hrb⟩ := hinv.rollback_step env statistics hev hs
  obtain ⟨_, hflags, hresult, _, hlist⟩ := hinv.rollback_txd hp hev
  obtain ⟨hf, hr⟩ := hinv.last _ _ hreg
  have hne : firstError (undoErrors env fuel m) ≠ 0 := by
    intro h0
    obtain ⟨r, hmem, hr0⟩ := hfail
    exact hr0 (firstError_eq_zero.mp h0 r hmem)
  have habort : x'.mach.txd.fmAbort = true := by
    rw [hrb.abort, hflags, hf]
    simp [hne, fmNoRetry]
  refine ⟨hrb.inv, hrb.told p (hresult.trans hr) hne, ?_⟩
  rw [hrb.phase]
  cases m.txd.abortReason with
  | userabort => exact .inl rfl
  | _ => exact .inr ⟨rfl, habort⟩

/-- **No retry after a failed compensation.**  In every run of a thread: when an attempt whose last
`_TXC_fm_register` was with `TXC_FM_NO_RETRY` and the location `p` is rolled back, and one of its
undo actions reports an error, then `p` holds the first error of the undo actions in the order they
were called; if the STM starts the transaction again, `txc_tx_post_begin` aborts it and returns
outside; and up to the next outermost `txc_tx_pre_begin` no user code runs, nothing is committed,
and `p` keeps the error.  And in every run in which no undo action fails, no begin is aborted. -/
theorem no_retry (txstat : TxStat) (mem : Nat → Int) (rest : W) :
    (∀ x : Thread α n W,
      Reach (threadStep env statistics) any (· = threadInit txstat mem rest) x →
      ∀ ev fuel m x' p, rolledBack x ev = some (fuel, m) →
        threadStep env statistics x ev = some x' →
        x.registered = some (fmNoRetry, some p) → (∃ r ∈ undoErrors env fuel m, r ≠ 0) →
        (undoErrors env fuel m).length = x.mach.txd.undoActionList.entries.length ∧
        x'.mach.mem p = firstError (undoErrors env fuel m) ∧
        (x'.phase = .begun → ∃ fuel₀ y,
          (∀ fuel ≥ fuel₀, threadStep env statistics x' (.postBegin fuel) = some y) ∧
          y.phase = .outside) ∧
        ∀ es y, run (threadStep env statistics) x' es = some y →
          (∀ e ∈ es, e.isPreBegin = false) →
          y.mach.mem p = firstError (undoErrors env fuel m) ∧ y.phase ≠ .running ∧
            ∀ e ∈ es, e.isCommit = false) ∧
    (∀ x : Thread α n W,
      Reach (threadStep env statistics) (undoSucceeds env) (· = threadInit txstat mem rest) x →
      ∀ fuel y, threadStep env statistics x (.postBegin fuel) = some y ∨
        threadStep env statistics x (.innerBegin fuel) = some y → y.phase = .running) := by
  refine ⟨fun x h ev fuel m x' p hev hs hreg hfail => ?_, fun x h fuel y hs => ?_⟩
  · have hinv := fmInv_reach env statistics h
    have hdoom := doomed_of_failure env statistics hinv hev hs hreg hfail
    obtain ⟨hp, hrb⟩ := hinv.rollback_step env statistics hev hs
    obtain ⟨_, _, _, _, hlist⟩ := hinv.rollback_txd hp hev
    refine ⟨by rw [hrb.every, hlist], hdoom.kept, fun hb => ?_, fun es y hrun hes => ?_⟩
    · obtain ⟨fuel₀, y, hy⟩ := hrb.inv.postBegin_returns env statistics hb
      exact ⟨fuel₀, y, hy, (hdoom.postBegin env statistics (hy fuel₀ (Nat.le_refl _))).1⟩
    · obtain ⟨hd, hc⟩ := hdoom.run env statistics es hes hrun
      exact ⟨hd.kept, hd.not_running, hc⟩
  · have hab := fmAbort_reach env statistics h
    rcases hs with hs | hs
    · obtain ⟨hp, hs⟩ := Option.ite_none_right_eq_some.mp hs
      exact Thread.postBegin_runs env statistics (hab (by rw [hp]; decide)) hs
    · obtain ⟨hp, hs⟩ := Option.ite_none_right_eq_some.mp hs
      exact Thread.postBegin_runs env statistics (hab (by rw [hp]; decide)) hs

end

/-- action 1 fails with 5, every other action succeeds -/
def failingEnv : Env Nat 1 Unit :=
  { sentinelmgrCommit := fun _ _ => ([], [], ())
    sentinelmgrUndo := fun _ _ => ([], [], ())
    other := fun a mem _ => (mem, (), if a = 1 then 5 else 0) }

def emptyTxStat : TxStat := ⟨0, ⟨0, 0, 0⟩, 0, fun _ => Stat.zero⟩

/-- the attempt registers `&err` (location 0) and two undo actions, the first of which fails -/
def failingAttempt : List (ThreadEvent Nat 1 Unit) :=
  [.preBegin 7 ⟨0, 0, 1⟩, .postBegin 0, .fmRegister fmNoRetry (some 0),
    .registerUndo 1 (some 0) 0, .registerUndo 2 (some 0) 0]

theorem no_retry_failingAttempt :
    ∃ x x', run (threadStep failingEnv true) (threadInit emptyTxStat (fun _ => 0) ())
        failingAttempt = some x ∧
      threadStep failingEnv true x (.abort .userretry 40) = some x' ∧ x'.phase = .begun ∧
      x'.mach.mem 0 = 5 ∧
      ∃ fuel₀ y, (∀ fuel ≥ fuel₀, threadStep failingEnv true x' (.postBegin fuel) = some y) ∧
        y.phase = .outside := by
  have hrun : ((run (threadStep failingEnv true) (threadInit emptyTxStat (fun _ => 0) ())
      failingAttempt).bind fun x => (threadStep failingEnv true x (.abort .userretry 40)).map
        fun x' => (x.registered, undoErrors failingEnv 40 (abortMach x.mach .userretry), x'.phase))
      = some (some (fmNoRetry, some 0), [0, 5, 0], .begun) := by decide +kernel
  obtain ⟨x, hx, h⟩ := Option.bind_eq_some_iff.mp hrun
  obtain ⟨x', hx', h⟩ := Option.map_eq_some_iff.mp h
  simp only [Prod.mk.injEq] at h
  obtain ⟨hreg, herrs, hphase⟩ := h
  obtain ⟨_, hmem, hnext, _⟩ := (no_retry failingEnv true emptyTxStat (fun _ => 0) ()).1 x
    (reach_of_run _ hx) (.abort .userretry 40) 40 _ x' 0 rfl hx' hreg ⟨5, by rw [herrs]; simp, by simp⟩
  rw [herrs] at hmem
  exact ⟨x, x', hx, hx', hphase, hmem, hnext hphase⟩

end XCalls
