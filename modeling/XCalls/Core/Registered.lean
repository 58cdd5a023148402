import XCalls.Core.SentinelRefs

/-!
# What an attempt has registered

The sentinel manager's action of a side (commit or undo) runs at the end of an attempt only if its
registration went all the way: an entry in the list, the two flags, and the STM's own list.

* `Orders`, `Wf`     the orders of the entries, and the loop of a generic action that is running;
* `Ready`            the registrations of one side in an attempt that is running;
* `Pending`          the manager's action is still to be called;
* `UndoInv`          the undo side along a transaction, whatever happens;
* `CommitInv`        the commit side, as long as no attempt that registered a commit action and no
                     undo action is rolled back by a conflict.
-/

set_option linter.unusedSectionVars false

namespace XCalls
variable {T K : Type} [DecidableEq T] [DecidableEq K] {n : Nat}

/-! ## orders and loops -/

def Orders (marker : Act) (acts : List (ActionEntry Act)) : Prop :=
  ∀ e ∈ acts, 0 ≤ e.key ∧ (e.function = marker → e.order = sentinelmgrActionOrder)

theorem orders_nil (marker : Act) : Orders marker [] := by
  intro e he
  cases he

theorem Orders.snoc {marker : Act} {acts : List (ActionEntry Act)} (h : Orders marker acts)
    {e : ActionEntry Act} (h0 : 0 ≤ e.order)
    (hm : e.function = marker → e.order = sentinelmgrActionOrder) : Orders marker (acts ++ [e]) := by
  intro x hx
  rcases List.mem_append.mp hx with hx | hx
  · exact h x hx
  · obtain rfl := List.mem_singleton.mp hx
    exact ⟨Int32.le_iff_toInt_le.mp h0, hm⟩

/-- the loop that runs in this phase, with the entries that it scans -/
def Phase.LoopInv (txd : TxDesc Act (Fin n)) : Phase → Prop
  | .committing l => l.Inv (commitScan txd)
  | .undoing l => l.Inv (undoScan txd)
  | .acquiring l _ => l.Inv (undoScan txd)
  | _ => True

structure Wf (ts : TxState n) : Prop where
  commits : Orders .sentinelmgrCommit ts.desc.commitActionList.entries
  undos : Orders .sentinelmgrUndo ts.desc.undoActionList.entries
  loop : ts.phase.LoopInv ts.desc

/-! ## one side of the registrations -/

structure Ready (marker : Act) (acts : List (ActionEntry Act)) (flag generic itm : Bool)
    (sl : List (SentinelEntry (Fin n))) : Prop where
  itm_eq : itm = generic
  generic_of : acts ≠ [] → generic = true
  marked : flag = true → ∃ e ∈ acts, e.function = marker
  flag_of : sl ≠ [] → flag = true

def Idle (acts : List (ActionEntry Act)) (flag generic itm : Bool) : Prop :=
  acts = [] ∧ flag = false ∧ generic = false ∧ itm = false

def Pending (marker : Act) (acts : List (ActionEntry Act)) (l : Loop Act) : Prop :=
  ∃ e ∈ acts, e.function = marker ∧ e ∉ l.executed

section
variable {marker : Act} {acts : List (ActionEntry Act)} {flag generic itm : Bool}
  {sl : List (SentinelEntry (Fin n))}

theorem Idle.ready (h : Idle acts flag generic itm) :
    Ready marker acts flag generic itm ([] : List (SentinelEntry (Fin n))) := by
  obtain ⟨rfl, rfl, rfl, rfl⟩ := h
  exact ⟨rfl, fun h => absurd rfl h, fun h => absurd h Bool.false_ne_true, fun h => absurd rfl h⟩

/-- without sentinels and with nothing held by the STM, nothing is registered -/
theorem Ready.idle (h : Ready marker acts flag generic itm sl) (hi : itm = false) :
    Idle acts flag generic itm ∧ sl = [] := by
  have hg : generic = false := h.itm_eq.symm.trans hi
  have ha : acts = [] := by
    by_contra hne
    have := h.generic_of hne
    rw [hg] at this
    cases this
  have hf : flag = false := by
    cases hflag : flag with
    | false => rfl
    | true =>
      obtain ⟨e, he, _⟩ := h.marked hflag
      rw [ha] at he
      cases he
  refine ⟨⟨ha, hf, hg, hi⟩, ?_⟩
  by_contra hne
  have := h.flag_of hne
  rw [hf] at this
  cases this

theorem Ready.snoc (h : Ready marker acts flag generic itm sl) (e : ActionEntry Act) :
    Ready marker (acts ++ [e]) flag true (itm || !generic) sl := by
  refine ⟨?_, fun _ => rfl, fun hf => ?_, h.flag_of⟩
  · rw [h.itm_eq]
    cases generic <;> rfl
  · obtain ⟨x, hx, hm⟩ := h.marked hf
    exact ⟨x, List.mem_append_left _ hx, hm⟩

theorem Ready.mark (h : Ready marker acts flag generic itm sl) (e : ActionEntry Act)
    (he : e.function = marker) (sl' : List (SentinelEntry (Fin n))) :
    Ready marker (acts ++ [e]) true true (itm || !generic) sl' := by
  have h1 := h.snoc e
  exact ⟨h1.itm_eq, h1.generic_of, fun _ => ⟨e, by simp, he⟩, fun _ => rfl⟩

theorem Ready.marked_already (h : Ready marker acts flag generic itm sl) (hf : flag = true)
    (sl' : List (SentinelEntry (Fin n))) : Ready marker acts flag generic itm sl' :=
  ⟨h.itm_eq, h.generic_of, h.marked, fun _ => hf⟩

theorem Ready.pending (h : Ready marker acts flag generic itm sl) (hs : sl ≠ []) :
    Pending marker acts Loop.start := by
  obtain ⟨e, he, hm⟩ := h.marked (h.flag_of hs)
  exact ⟨e, he, hm, fun hc => by cases hc⟩

theorem Pending.move {l l' : Loop Act} {scan : List (ActionEntry Act)} (h : Pending marker acts l)
    (hn : l.next scan = .move l') : Pending marker acts l' := by
  obtain ⟨e, he, hm, hx⟩ := h
  exact ⟨e, he, hm, by rwa [Loop.executed_move hn]⟩

theorem Pending.call {l l' : Loop Act} {scan : List (ActionEntry Act)} {x : ActionEntry Act}
    (h : Pending marker acts l) (hn : l.next scan = .call x l') (hx : x.function ≠ marker) :
    Pending marker acts l' := by
  obtain ⟨e, he, hm, hne⟩ := h
  refine ⟨e, he, hm, ?_⟩
  rw [Loop.executed_call hn, List.mem_append, List.mem_singleton]
  rintro (hc | rfl)
  · exact hne hc
  · exact hx hm

theorem not_pending_exit {l : Loop Act} {scan : List (ActionEntry Act)} (hi : l.Inv scan)
    (hn : l.next scan = .exit) (hscan : ∀ e ∈ acts, e ∈ scan) : ¬ Pending marker acts l := by
  rintro ⟨e, he, _, hx⟩
  obtain ⟨k, hex, hk⟩ := Loop.exit_executed hi hn
  rw [hex] at hx
  exact hx ((Passes.passes_perm _ _ _ hk).mem_iff.mpr (hscan e he))

end

/-! ## the two sides of a descriptor -/

def ReadyUndo (txd : TxDesc Act (Fin n)) (sl : List (SentinelEntry (Fin n))) : Prop :=
  Ready .sentinelmgrUndo txd.undoActionList.entries txd.sentinelmgrUndoActionRegistered
    txd.genericUndoActionRegistered txd.itmUndo sl

def ReadyCommit (txd : TxDesc Act (Fin n)) (sl : List (SentinelEntry (Fin n))) : Prop :=
  Ready .sentinelmgrCommit txd.commitActionList.entries txd.sentinelmgrCommitActionRegistered
    txd.genericCommitActionRegistered txd.itmCommit sl

def IdleUndo (txd : TxDesc Act (Fin n)) : Prop :=
  Idle txd.undoActionList.entries txd.sentinelmgrUndoActionRegistered
    txd.genericUndoActionRegistered txd.itmUndo

def IdleCommit (txd : TxDesc Act (Fin n)) : Prop :=
  Idle txd.commitActionList.entries txd.sentinelmgrCommitActionRegistered
    txd.genericCommitActionRegistered txd.itmCommit

section
variable {txd : TxDesc Act (Fin n)} {sl : List (SentinelEntry (Fin n))}

theorem readyUndo_registerUndo (h : ReadyUndo txd sl) (sl' : List (SentinelEntry (Fin n))) :
    ReadyUndo (registerSentinelmgrUndoAction txd) sl' := by
  unfold registerSentinelmgrUndoAction
  cases hf : txd.sentinelmgrUndoActionRegistered with
  | false =>
    rw [if_pos rfl, txRegisterUndoAction_eq]
    unfold ReadyUndo
    simp only [entries_registerAction]
    exact h.mark _ rfl sl'
  | true =>
    rw [if_neg (by simp)]
    exact h.marked_already hf sl'

theorem readyCommit_registerCommit (h : ReadyCommit txd sl) (sl' : List (SentinelEntry (Fin n))) :
    ReadyCommit (registerSentinelmgrCommitAction txd) sl' := by
  unfold registerSentinelmgrCommitAction
  cases hf : txd.sentinelmgrCommitActionRegistered with
  | false =>
    rw [if_pos rfl, txRegisterCommitAction_eq]
    unfold ReadyCommit
    simp only [entries_registerAction]
    exact h.mark _ rfl sl'
  | true =>
    rw [if_neg (by simp)]
    exact h.marked_already hf sl'

theorem readyUndo_registerCommit :
    ReadyUndo (registerSentinelmgrCommitAction txd) sl ↔ ReadyUndo txd sl := by
  unfold registerSentinelmgrCommitAction
  split
  · rw [txRegisterCommitAction_eq]
    exact Iff.rfl
  · exact Iff.rfl

theorem readyCommit_registerUndo :
    ReadyCommit (registerSentinelmgrUndoAction txd) sl ↔ ReadyCommit txd sl := by
  unfold registerSentinelmgrUndoAction
  split
  · rw [txRegisterUndoAction_eq]
    exact Iff.rfl
  · exact Iff.rfl

theorem abortReason_register :
    (registerSentinelmgrCommitAction (registerSentinelmgrUndoAction txd)).abortReason
      = txd.abortReason := by
  unfold registerSentinelmgrCommitAction registerSentinelmgrUndoAction
  split <;> split <;> simp only [txRegisterCommitAction_eq, txRegisterUndoAction_eq]

def OrdersOk (txd : TxDesc Act (Fin n)) : Prop :=
  Orders .sentinelmgrCommit txd.commitActionList.entries ∧
    Orders .sentinelmgrUndo txd.undoActionList.entries

theorem ordersOk_registerCommit (h : OrdersOk txd) :
    OrdersOk (registerSentinelmgrCommitAction txd) := by
  unfold registerSentinelmgrCommitAction
  split
  · rw [txRegisterCommitAction_eq]
    refine ⟨?_, h.2⟩
    simp only [entries_registerAction]
    exact h.1.snoc (by decide) fun _ => rfl
  · exact h

theorem ordersOk_registerUndo (h : OrdersOk txd) :
    OrdersOk (registerSentinelmgrUndoAction txd) := by
  unfold registerSentinelmgrUndoAction
  split
  · rw [txRegisterUndoAction_eq]
    refine ⟨h.1, ?_⟩
    simp only [entries_registerAction]
    exact h.2.snoc (by decide) fun _ => rfl
  · exact h

theorem ordersOk_postbegin (h : OrdersOk txd) : OrdersOk (sentinelTransactionPostbegin txd) := by
  unfold sentinelTransactionPostbegin
  split
  · exact ordersOk_registerUndo (ordersOk_registerCommit h)
  · exact h

end

/-! ## the loop of the running generic action -/

section
variable {t : T} {ts ts' : TxState n} {m m' : SentinelMgr T n} {ev : Event T K n}

theorem wf_rollback (h : OrdersOk ts.desc) : Wf (rollback ts) := by
  unfold rollback
  split
  · exact ⟨h.1, h.2, Loop.inv_start _⟩
  · refine ⟨h.1, h.2, ?_⟩
    show (afterRollback ts.desc.abortReason).LoopInv _
    cases ts.desc.abortReason <;> trivial

theorem txStep_wf (h : Wf ts) (hstep : TxStep t ts m ev ts' m') : Wf ts' := by
  have ho : OrdersOk ts.desc := ⟨h.commits, h.undos⟩
  have hl := h.loop
  have hc0 : ∀ e ∈ commitScan ts.desc, 0 ≤ e.key := fun e he => (h.commits e he).1
  have hu0 : ∀ e ∈ undoScan ts.desc, 0 ≤ e.key := fun e he =>
    (h.undos e (List.mem_reverse.mp he)).1
  cases hstep with
  | preBegin hp => exact ⟨orders_nil _, orders_nil _, trivial⟩
  | postBegin hp =>
    have h1 := ordersOk_postbegin ho
    exact ⟨h1.1, h1.2, trivial⟩
  | keep s flags result b hp => exact ⟨ho.1, ho.2, hl⟩
  | acquire s flags result hp hf hw hm =>
    have h1 := ordersOk_registerCommit (ordersOk_registerUndo ho)
    exact ⟨h1.1, h1.2, trivial⟩
  | busy s flags result hp hf hw =>
    have h1 := ordersOk_registerCommit (ordersOk_registerUndo ho)
    exact ⟨h1.1, h1.2, trivial⟩
  | registerCommit a r o hp h0 =>
    have hphase : ts.phase.LoopInv (txRegisterCommitAction ts.desc ⟨.other a, r, o⟩) := by
      rcases hp with hp | hp <;> rw [hp] <;> trivial
    rw [txRegisterCommitAction_eq] at *
    refine ⟨?_, ho.2, hphase⟩
    simp only [entries_registerAction]
    exact ho.1.snoc h0 (by simp)
  | registerUndo a r o hp h0 =>
    have hphase : ts.phase.LoopInv (txRegisterUndoAction ts.desc ⟨.other a, r, o⟩) := by
      rcases hp with hp | hp <;> rw [hp] <;> trivial
    rw [txRegisterUndoAction_eq] at *
    refine ⟨ho.1, ?_, hphase⟩
    simp only [entries_registerAction]
    exact ho.2.snoc h0 (by simp)
  | becomeIrrevocable hp => exact ⟨ho.1, ho.2, trivial⟩
  | abort reason hp =>
    apply wf_rollback
    unfold tmsystemAbortTransaction tmsystemRegisterGenericUndoAction
    split <;> exact ho
  | conflict hp => exact wf_rollback ho
  | commit hp hc => exact ⟨ho.1, ho.2, Loop.inv_start _⟩
  | commitNothing hp hc => exact ⟨ho.1, ho.2, trivial⟩
  | commitExit l hp hn => exact ⟨orders_nil _, orders_nil _, trivial⟩
  | commitMove l l' hp hn =>
    rw [hp] at hl
    exact ⟨ho.1, ho.2, Loop.inv_move hc0 hl hn⟩
  | commitOther l l' e hp hn hf =>
    rw [hp] at hl
    exact ⟨ho.1, ho.2, Loop.inv_call hl hn⟩
  | commitRelease l l' e hp hn hf =>
    rw [hp] at hl
    exact ⟨ho.1, ho.2, Loop.inv_call hl hn⟩
  | undoExit l hp hn =>
    refine ⟨orders_nil _, orders_nil _, ?_⟩
    show (afterRollback ts.desc.abortReason).LoopInv _
    cases ts.desc.abortReason <;> trivial
  | undoMove l l' hp hn =>
    rw [hp] at hl
    exact ⟨ho.1, ho.2, Loop.inv_move hu0 hl hn⟩
  | undoOther l l' e hp hn hf =>
    rw [hp] at hl
    exact ⟨ho.1, ho.2, Loop.inv_call hl hn⟩
  | undoRelease l l' e hp hn hf hr =>
    rw [hp] at hl
    exact ⟨ho.1, ho.2, Loop.inv_call hl hn⟩
  | undoRetry l l' e pre hp hn hf hr hs =>
    rw [hp] at hl
    exact ⟨ho.1, ho.2, Loop.inv_call hl hn⟩
  | acquireDone l k hp hk =>
    rw [hp] at hl
    exact ⟨ho.1, ho.2, hl⟩
  | acquireOne l k e hp hk hm =>
    rw [hp] at hl
    exact ⟨ho.1, ho.2, hl⟩

/-! ## the undo side -/

def UndoInv (ts : TxState n) : Prop :=
  match ts.phase with
  | .outside => ts.desc.itmUndo = false
  | .committing _ => True
  | .begun => IdleUndo ts.desc ∧ ts.desc.abortReason = .tmconflict
  | .running => ReadyUndo ts.desc ts.desc.sentinelList ∧ ts.desc.abortReason = .tmconflict
  | .irrevocable => ReadyUndo ts.desc ts.desc.sentinelList ∧ ts.desc.abortReason = .tmconflict
  | .undoing l =>
    Pending .sentinelmgrUndo ts.desc.undoActionList.entries l ∨
      (ts.desc.abortReason = .userabort → ts.desc.sentinelList = [])
  | .acquiring _ _ => ts.desc.abortReason ≠ .userabort

theorem UndoInv.running (h : UndoInv ts) (hp : ts.phase = .running ∨ ts.phase = .irrevocable) :
    ReadyUndo ts.desc ts.desc.sentinelList ∧ ts.desc.abortReason = .tmconflict := by
  unfold UndoInv at h
  rcases hp with hp | hp <;> rw [hp] at h <;> exact h

theorem UndoInv.of_running (hp : ts.phase = .running ∨ ts.phase = .irrevocable)
    (h : ReadyUndo ts.desc ts.desc.sentinelList) (hr : ts.desc.abortReason = .tmconflict) :
    UndoInv ts := by
  unfold UndoInv
  rcases hp with hp | hp <;> rw [hp] <;> exact ⟨h, hr⟩

theorem UndoInv.undoing {l : Loop Act} (h : UndoInv ts) (hp : ts.phase = .undoing l) :
    Pending .sentinelmgrUndo ts.desc.undoActionList.entries l ∨
      (ts.desc.abortReason = .userabort → ts.desc.sentinelList = []) := by
  unfold UndoInv at h
  rwa [hp] at h

theorem undoInv_start {txd : TxDesc Act (Fin n)} (h : ReadyUndo txd txd.sentinelList) (b : Bool) :
    UndoInv ⟨txd, .undoing Loop.start, b⟩ := by
  by_cases hne : txd.sentinelList = []
  · exact Or.inr fun _ => hne
  · exact Or.inl (h.pending hne)

/-- an abort by the transaction always goes through the undo actions -/
theorem rollback_abort (h : ReadyUndo ts.desc ts.desc.sentinelList) (reason : AbortReason) :
    rollback ⟨tmsystemAbortTransaction ts.desc reason, ts.phase, ts.busy⟩
      = ⟨tmsystemAbortTransaction ts.desc reason, .undoing Loop.start, false⟩ := by
  have hitm : (tmsystemAbortTransaction ts.desc reason).itmUndo = true := by
    unfold tmsystemAbortTransaction tmsystemRegisterGenericUndoAction
    cases hg : ts.desc.genericUndoActionRegistered with
    | false => rw [if_pos rfl]
    | true =>
      rw [if_neg (by simp)]
      exact h.itm_eq.trans hg
  unfold rollback
  rw [if_pos hitm]

theorem readyUndo_abort {txd : TxDesc Act (Fin n)} {sl : List (SentinelEntry (Fin n))}
    (h : ReadyUndo txd sl) (reason : AbortReason) :
    ReadyUndo (tmsystemAbortTransaction txd reason) sl := by
  unfold tmsystemAbortTransaction tmsystemRegisterGenericUndoAction
  split
  · exact ⟨rfl, fun _ => rfl, h.marked, h.flag_of⟩
  · exact h

theorem readyUndo_postbegin {txd : TxDesc Act (Fin n)} (h : IdleUndo txd) :
    ReadyUndo (sentinelTransactionPostbegin txd)
      (sentinelTransactionPostbegin txd).sentinelList := by
  rw [sentinelList_postbegin]
  unfold sentinelTransactionPostbegin
  split
  · exact readyUndo_registerUndo (readyUndo_registerCommit.mpr h.ready) _
  · rename_i hl
    rw [List.length_eq_zero_iff.mp (not_not.mp hl)]
    exact h.ready

theorem abortReason_postbegin {txd : TxDesc Act (Fin n)} :
    (sentinelTransactionPostbegin txd).abortReason = txd.abortReason := by
  unfold sentinelTransactionPostbegin registerSentinelmgrCommitAction
    registerSentinelmgrUndoAction
  split
  · split <;> split <;> simp only [txRegisterCommitAction_eq, txRegisterUndoAction_eq]
  · rfl

theorem undoInv_afterRollback {txd : TxDesc Act (Fin n)} {reason : AbortReason} {b : Bool}
    (h : IdleUndo txd) (hr : reason ≠ .userabort → txd.abortReason = .tmconflict) :
    UndoInv ⟨txd, afterRollback reason, b⟩ := by
  cases reason with
  | userabort => exact h.2.2.2
  | tmconflict | userretry | busysentinel | inconsistency | busytxlock =>
    exact ⟨h, hr (by simp)⟩

theorem UndoInv.abortReason_eq (h : UndoInv ts) (hp : ts.phase = .running ∨ ts.phase = .begun) :
    ts.desc.abortReason = .tmconflict := by
  unfold UndoInv at h
  rcases hp with hp | hp <;> rw [hp] at h <;> exact h.2

theorem undoInv_rollback (h : ReadyUndo ts.desc ts.desc.sentinelList ∨ IdleUndo ts.desc)
    (hr : ts.desc.abortReason = .tmconflict) : UndoInv (rollback ts) := by
  unfold rollback
  cases hi : ts.desc.itmUndo with
  | true =>
    rw [if_pos rfl]
    rcases h with h | h
    · exact undoInv_start h false
    · have := h.2.2.2
      rw [hi] at this
      cases this
  | false =>
    rw [if_neg (by simp)]
    have hidle : IdleUndo ts.desc := by
      rcases h with h | h
      · exact (h.idle hi).1
      · exact h
    exact undoInv_afterRollback ⟨hidle.1, hidle.2.1, hidle.2.2.1, rfl⟩ fun _ => hr

theorem txStep_undoInv (h : UndoInv ts) (hstep : TxStep t ts m ev ts' m') :
    UndoInv ts' := by
  cases hstep with
  | preBegin hp =>
    unfold UndoInv at h
    rw [hp] at h
    exact ⟨⟨rfl, rfl, rfl, h⟩, rfl⟩
  | postBegin hp =>
    unfold UndoInv at h
    rw [hp] at h
    exact ⟨readyUndo_postbegin h.1, abortReason_postbegin.trans h.2⟩
  | keep s flags result b hp => exact h
  | acquire s flags result hp hf hw hm =>
    obtain ⟨h1, h2⟩ := h.running (Or.inl hp)
    exact ⟨readyUndo_registerCommit.mpr (readyUndo_registerUndo h1 _), abortReason_register.trans h2⟩
  | busy s flags result hp hf hw =>
    obtain ⟨h1, h2⟩ := h.running (Or.inl hp)
    exact ⟨readyUndo_registerCommit.mpr (readyUndo_registerUndo h1 _), abortReason_register.trans h2⟩
  | registerCommit a r o hp h0 =>
    obtain ⟨h1, h2⟩ := h.running hp
    rw [txRegisterCommitAction_eq]
    exact .of_running hp h1 h2
  | registerUndo a r o hp h0 =>
    obtain ⟨h1, h2⟩ := h.running hp
    rw [txRegisterUndoAction_eq]
    refine .of_running hp ?_ h2
    unfold ReadyUndo
    simp only [entries_registerAction]
    exact h1.snoc _
  | becomeIrrevocable hp => exact h.running (Or.inl hp)
  | abort reason hp =>
    obtain ⟨h1, h2⟩ := h.running (Or.inl hp)
    rw [rollback_abort h1]
    refine undoInv_start ?_ false
    rw [sentinelList_abort]
    exact readyUndo_abort h1 reason
  | conflict hp =>
    have hrun : ReadyUndo ts.desc ts.desc.sentinelList ∨ IdleUndo ts.desc := by
      rcases hp with hp | hp
      · exact Or.inl (h.running (Or.inl hp)).1
      · unfold UndoInv at h
        rw [hp] at h
        exact Or.inr h.1
    exact undoInv_rollback hrun (h.abortReason_eq hp)
  | commit hp hc => trivial
  | commitNothing hp hc => exact rfl
  | commitExit l hp hn => exact rfl
  | commitMove l l' hp hn => trivial
  | commitOther l l' e hp hn hf => trivial
  | commitRelease l l' e hp hn hf => trivial
  | undoExit l hp hn => exact undoInv_afterRollback ⟨rfl, rfl, rfl, rfl⟩ fun _ => rfl
  | undoMove l l' hp hn => exact (h.undoing hp).imp (·.move hn) id
  | undoOther l l' e hp hn hf => exact (h.undoing hp).imp (·.call hn hf) id
  | undoRelease l l' e hp hn hf hr => exact Or.inr fun _ => rfl
  | undoRetry l l' e pre hp hn hf hr hs => exact hr
  | acquireDone l k hp hk =>
    unfold UndoInv at h
    rw [hp] at h
    exact Or.inr fun hc => absurd hc h
  | acquireOne l k e hp hk hm =>
    unfold UndoInv at h
    rw [hp] at h
    exact h

/-! ## the commit side -/

def CommitInv (ts : TxState n) : Prop :=
  match ts.phase with
  | .outside => ts.desc.sentinelList = [] ∧ ts.desc.itmCommit = false
  | .begun => IdleCommit ts.desc
  | .running => ReadyCommit ts.desc ts.desc.sentinelList
  | .irrevocable => ReadyCommit ts.desc ts.desc.sentinelList
  | .committing l =>
    ts.desc.sentinelList = [] ∨ Pending .sentinelmgrCommit ts.desc.commitActionList.entries l
  | .undoing _ => True
  | .acquiring _ _ => True

theorem CommitInv.running (h : CommitInv ts) (hp : ts.phase = .running ∨ ts.phase = .irrevocable) :
    ReadyCommit ts.desc ts.desc.sentinelList := by
  unfold CommitInv at h
  rcases hp with hp | hp <;> rw [hp] at h <;> exact h

theorem CommitInv.of_running (hp : ts.phase = .running ∨ ts.phase = .irrevocable)
    (h : ReadyCommit ts.desc ts.desc.sentinelList) : CommitInv ts := by
  unfold CommitInv
  rcases hp with hp | hp <;> rw [hp] <;> exact h

theorem CommitInv.committing {l : Loop Act} (h : CommitInv ts) (hp : ts.phase = .committing l) :
    ts.desc.sentinelList = [] ∨
      Pending .sentinelmgrCommit ts.desc.commitActionList.entries l := by
  unfold CommitInv at h
  rwa [hp] at h

theorem readyCommit_postbegin {txd : TxDesc Act (Fin n)} (h : IdleCommit txd) :
    ReadyCommit (sentinelTransactionPostbegin txd)
      (sentinelTransactionPostbegin txd).sentinelList := by
  rw [sentinelList_postbegin]
  unfold sentinelTransactionPostbegin
  split
  · exact readyCommit_registerUndo.mpr (readyCommit_registerCommit h.ready _)
  · rename_i hl
    rw [List.length_eq_zero_iff.mp (not_not.mp hl)]
    exact h.ready

theorem commitInv_afterRollback {txd : TxDesc Act (Fin n)} {reason : AbortReason} {b : Bool}
    (h : IdleCommit txd) (hs : reason = .userabort → txd.sentinelList = []) :
    CommitInv ⟨txd, afterRollback reason, b⟩ := by
  cases reason with
  | userabort => exact ⟨hs rfl, h.2.2.2⟩
  | tmconflict | userretry | busysentinel | inconsistency | busytxlock => exact h

/-- an attempt that the STM rolls back on its own has an undo action if it has a commit action -/
def UndoneIfCommitting (ts : TxState n) : Prop :=
  ts.desc.genericCommitActionRegistered = true → ts.desc.genericUndoActionRegistered = true

theorem commitInv_conflict (hu : UndoInv ts) (h : CommitInv ts)
    (hp : ts.phase = .running ∨ ts.phase = .begun) (hok : UndoneIfCommitting ts) :
    CommitInv (rollback ts) := by
  have hr := hu.abortReason_eq hp
  unfold rollback
  cases hi : ts.desc.itmUndo with
  | true =>
    rw [if_pos rfl]
    trivial
  | false =>
    rw [if_neg (by simp)]
    have hidle : IdleCommit ts.desc := by
      rcases hp with hp | hp
      · -- nothing is held for a rollback, so by the condition nothing for a commit either
        have hg : ts.desc.genericUndoActionRegistered = false :=
          (hu.running (Or.inl hp)).1.itm_eq.symm.trans hi
        have hready := h.running (Or.inl hp)
        refine (hready.idle ?_).1
        rw [hready.itm_eq]
        cases hc : ts.desc.genericCommitActionRegistered with
        | false => rfl
        | true => rw [hok hc] at hg; cases hg
      · unfold CommitInv at h
        rwa [hp] at h
    refine commitInv_afterRollback ⟨hidle.1, hidle.2.1, hidle.2.2.1, rfl⟩ fun hc => ?_
    rw [hr] at hc
    cases hc

theorem txStep_commitInv (hw : Wf ts) (hu : UndoInv ts) (h : CommitInv ts)
    (hok : ev = .conflict t → UndoneIfCommitting ts) (hstep : TxStep t ts m ev ts' m') :
    CommitInv ts' := by
  have hl := hw.loop
  cases hstep with
  | preBegin hp =>
    unfold CommitInv at h
    rw [hp] at h
    exact ⟨rfl, rfl, rfl, h.2⟩
  | postBegin hp =>
    unfold CommitInv at h
    rw [hp] at h
    exact readyCommit_postbegin h
  | keep s flags result b hp => exact h
  | acquire s flags result hp hf ho hm =>
    exact readyCommit_registerCommit
      (readyCommit_registerUndo.mpr (h.running (Or.inl hp))) _
  | busy s flags result hp hf ho =>
    exact readyCommit_registerCommit
      (readyCommit_registerUndo.mpr (h.running (Or.inl hp))) _
  | registerCommit a r o hp h0 =>
    have h1 := h.running hp
    rw [txRegisterCommitAction_eq]
    refine .of_running hp ?_
    unfold ReadyCommit
    simp only [entries_registerAction]
    exact h1.snoc _
  | registerUndo a r o hp h0 =>
    have h1 := h.running hp
    rw [txRegisterUndoAction_eq]
    exact .of_running hp h1
  | becomeIrrevocable hp => exact h.running (Or.inl hp)
  | abort reason hp =>
    rw [rollback_abort (hu.running (Or.inl hp)).1]
    trivial
  | conflict hp => exact commitInv_conflict hu h hp (hok rfl)
  | commit hp hc =>
    by_cases hne : ts.desc.sentinelList = []
    · exact Or.inl hne
    · exact Or.inr ((h.running hp).pending hne)
  | commitNothing hp hc => exact ⟨((h.running hp).idle hc).2, rfl⟩
  | commitExit l hp hn =>
    rw [hp] at hl
    refine ⟨(h.committing hp).resolve_right ?_, rfl⟩
    exact not_pending_exit hl hn fun e he => he
  | commitMove l l' hp hn => exact (h.committing hp).imp id (·.move hn)
  | commitOther l l' e hp hn hf => exact (h.committing hp).imp id (·.call hn hf)
  | commitRelease l l' e hp hn hf => exact Or.inl rfl
  | undoExit l hp hn =>
    rw [hp] at hl
    refine commitInv_afterRollback ⟨rfl, rfl, rfl, rfl⟩ ((hu.undoing hp).resolve_left ?_)
    exact not_pending_exit hl hn fun e he => List.mem_reverse.mpr he
  | undoMove l l' hp hn => trivial
  | undoOther l l' e hp hn hf => trivial
  | undoRelease l l' e hp hn hf hr => trivial
  | undoRetry l l' e pre hp hn hf hr hs => trivial
  | acquireDone l k hp hk => trivial
  | acquireOne l k e hp hk hm => trivial

end

end XCalls
