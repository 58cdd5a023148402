import XCalls.Core.Account
import XCalls.Core.Tx
import XCalls.Lib.EventSys

/-!
# Transactions and sentinels: the concurrent system

Any number of transactions (`T`), of KOAs (`K`) and of sentinels (`n`), interleaved.  A
transaction goes through

    outside → begun → running → committing → outside
                ↑        ↓
                └─ undoing, acquiring      (or, after a user abort, → outside)

* `Phase`, `TxState`, `Sys`   where a transaction is, its descriptor, and the shared state;
* `Event`, `step`             what may happen; `none` when it cannot;
* `initial`                   the state after initialisation.

`sentinel_list_acquire` blocks: its step is not enabled while another transaction holds the mutex.
Of the STM: it runs the generic commit action of an attempt that commits and the generic undo
action of one that it rolls back, each if it was registered in the attempt, forgets both after the
attempt, and enters `txc_tx_post_begin` again after a rollback that is not a user abort.
Registrations of any other actions are events of their own, and so are the creation and
destruction of KOAs, whoever makes them.
-/

set_option linter.unusedSectionVars false

namespace XCalls

inductive Phase where
  | outside
  | begun
  | running
  | irrevocable
  | committing (l : Loop Act)
  | undoing (l : Loop Act)
  /-- inside the sentinel manager's undo action, at the entry `k` of `sentinel_list_acquire` -/
  | acquiring (l : Loop Act) (k : Nat)
  deriving DecidableEq, Repr

/-- `busy`: a `txc_sentinel_tryacquire` of this attempt has returned `TXC_R_BUSYSENTINEL` -/
structure TxState (n : Nat) where
  desc : TxDesc Act (Fin n)
  phase : Phase
  busy : Bool

structure Sys (T K : Type) (n : Nat) where
  tx : T → TxState n
  mgr : SentinelMgr T n
  koa : K → Option (Fin n)

inductive Event (T K : Type) (n : Nat) where
  | preBegin (t : T)
  | postBegin (t : T)
  | tryacquire (t : T) (s : Fin n) (flags : UInt32) (result : Int)
  | registerCommit (t : T) (a : Nat) (errorResult : Option Nat) (order : Int32)
  | registerUndo (t : T) (a : Nat) (errorResult : Option Nat) (order : Int32)
  | becomeIrrevocable (t : T)
  | abort (t : T) (reason : AbortReason)
  | conflict (t : T)
  | commit (t : T)
  | next (t : T)
  | koaCreate (k : K)
  | koaDestroy (k : K)

section
variable {T K : Type} [DecidableEq T] [DecidableEq K] {n : Nat}

/-- the STM forgets the actions of the attempt -/
def endAttempt (txd : TxDesc Act (Fin n)) : TxDesc Act (Fin n) :=
  { txd with itmUndo := false, itmCommit := false }

/-- where a rolled back transaction goes on -/
def afterRollback : AbortReason → Phase
  | .userabort => .outside
  | _ => .begun

/-- the STM rolls the attempt back -/
def rollback (ts : TxState n) : TxState n :=
  if ts.desc.itmUndo then { ts with phase := .undoing Loop.start, busy := false }
  else ⟨endAttempt ts.desc, afterRollback ts.desc.abortReason, false⟩

/-- `txc_tx_get_xactstate` -/
def Phase.xactstate : Phase → XactState
  | .running => .retryable
  | .irrevocable => .irrevocable
  | _ => .nontransactional

/-- one step of `t` inside a generic action -/
def nextStep (t : T) (ts : TxState n) (m : SentinelMgr T n) :
    Option (TxState n × SentinelMgr T n) :=
  match ts.phase with
  | .committing l =>
    match l.next (commitScan ts.desc) with
    | .exit => some
        (⟨endAttempt { txInit ts.desc with forcedRetries := 0 }, .outside, ts.busy⟩, m)
    | .move l' => some ({ ts with phase := .committing l' }, m)
    | .call e l' =>
      if e.function = .sentinelmgrCommit then
        let r := sentinelmgrTransactionOnComplete m ts.desc
        some ({ ts with desc := r.2, phase := .committing l' }, r.1)
      else some ({ ts with phase := .committing l' }, m)
  | .undoing l =>
    match l.next (undoScan ts.desc) with
    | .exit => some
        (⟨endAttempt (txInit ts.desc), afterRollback ts.desc.abortReason, ts.busy⟩, m)
    | .move l' => some ({ ts with phase := .undoing l' }, m)
    | .call e l' =>
      if e.function = .sentinelmgrUndo then
        if ts.desc.abortReason = .userabort then
          let r := sentinelmgrTransactionOnComplete m ts.desc
          some ({ ts with desc := r.2, phase := .undoing l' }, r.1)
        else
          (sentinelmgrTransactionBeforeRetry m ts.desc).map fun r =>
            ({ ts with desc := r.2, phase := .acquiring l' 0 }, r.1)
      else some ({ ts with phase := .undoing l' }, m)
  | .acquiring l k =>
    match ts.desc.sentinelListPreacquire[k]? with
    | none => some ({ ts with phase := .undoing l }, m)
    | some e =>
      if (m.sentinel e.sentinel).mutex = none then
        let r := acquireEntry m ts.desc t e
        some ({ ts with desc := r.2, phase := .acquiring l (k + 1) }, r.1)
      else none
  | _ => none

/-- one step of `t` as a user of the library and of the STM -/
def txStep (ts : TxState n) (m : SentinelMgr T n) :
    Event T K n → Option (TxState n × SentinelMgr T n)
  | .preBegin _ =>
    if ts.phase = .outside then
      some (⟨{ fmInit (txInit ts.desc) with forcedRetries := 0 }, .begun, false⟩, m)
    else none
  | .postBegin _ =>
    if ts.phase = .begun then
      some ({ ts with desc := sentinelTransactionPostbegin ts.desc, phase := .running }, m)
    else none
  | .tryacquire t s flags result =>
    if s ∉ m.free then
      (sentinelTryacquire m ts.desc t ts.phase.xactstate s flags result).map fun r =>
        ({ ts with desc := r.2.2, busy := ts.busy || r.1 = rBusysentinel }, r.2.1)
    else none
  | .registerCommit _ a errorResult order =>
    if (ts.phase = .running ∨ ts.phase = .irrevocable) ∧ 0 ≤ order then
      some ({ ts with desc := txRegisterCommitAction ts.desc ⟨.other a, errorResult, order⟩ }, m)
    else none
  | .registerUndo _ a errorResult order =>
    if (ts.phase = .running ∨ ts.phase = .irrevocable) ∧ 0 ≤ order then
      some ({ ts with desc := txRegisterUndoAction ts.desc ⟨.other a, errorResult, order⟩ }, m)
    else none
  | .becomeIrrevocable _ =>
    if ts.phase = .running then some ({ ts with phase := .irrevocable }, m) else none
  | .abort _ reason =>
    if ts.phase = .running then
      some (rollback { ts with desc := tmsystemAbortTransaction ts.desc reason }, m)
    else none
  | .conflict _ =>
    if ts.phase = .running ∨ ts.phase = .begun then some (rollback ts, m) else none
  | .commit _ =>
    if ts.phase = .running ∨ ts.phase = .irrevocable then
      if ts.desc.itmCommit then some ({ ts with phase := .committing Loop.start }, m)
      else some ({ ts with desc := endAttempt ts.desc, phase := .outside }, m)
    else none
  | .next t => nextStep t ts m
  | .koaCreate _ => none
  | .koaDestroy _ => none

/-- the transaction that an event is of -/
def Event.of : Event T K n → Option T
  | .preBegin t | .postBegin t | .tryacquire t _ _ _ | .registerCommit t _ _ _
  | .registerUndo t _ _ _ | .becomeIrrevocable t | .abort t _ | .conflict t | .commit t
  | .next t => some t
  | .koaCreate _ | .koaDestroy _ => none

def step (σ : Sys T K n) (ev : Event T K n) : Option (Sys T K n) :=
  match ev with
  | .koaCreate k =>
    if σ.koa k = none then
      (sentinelCreate σ.mgr).map fun r =>
        { σ with mgr := r.2, koa := Function.update σ.koa k (some r.1) }
    else none
  | .koaDestroy k =>
    (σ.koa k).map fun s =>
      { σ with mgr := sentinelDetach σ.mgr s, koa := Function.update σ.koa k none }
  | ev =>
    ev.of.bind fun t =>
      (txStep (σ.tx t) σ.mgr ev).map fun r =>
        { σ with tx := Function.update σ.tx t r.1, mgr := r.2 }

/-- after initialisation; a descriptor is fresh from `txc_tx_create` -/
def initial (T K : Type) (n : Nat) : Sys T K n :=
  { tx := fun _ => ⟨txCreate, .outside, false⟩
    mgr := sentinelmgrCreate T n
    koa := fun _ => none }

/-- what a step can do: a KOA is created or destroyed, or one transaction steps -/
theorem step_cases {σ σ' : Sys T K n} {ev : Event T K n} (h : step σ ev = some σ') :
    (∃ k s m', σ.koa k = none ∧ sentinelCreate σ.mgr = some (s, m') ∧
      σ' = ⟨σ.tx, m', Function.update σ.koa k (some s)⟩) ∨
    (∃ k s, σ.koa k = some s ∧
      σ' = ⟨σ.tx, sentinelDetach σ.mgr s, Function.update σ.koa k none⟩) ∨
    (∃ t ts m', ev.of = some t ∧ txStep (σ.tx t) σ.mgr ev = some (ts, m') ∧
      σ' = ⟨Function.update σ.tx t ts, m', σ.koa⟩) := by
  have htx : ∀ ev : Event T K n, (ev.of.bind fun t => (txStep (σ.tx t) σ.mgr ev).map fun r =>
        ({ σ with tx := Function.update σ.tx t r.1, mgr := r.2 } : Sys T K n)) = some σ' →
      ∃ t ts m', ev.of = some t ∧ txStep (σ.tx t) σ.mgr ev = some (ts, m') ∧
        σ' = ⟨Function.update σ.tx t ts, m', σ.koa⟩ := by
    intro ev h
    obtain ⟨t, ht, h⟩ := Option.bind_eq_some_iff.mp h
    obtain ⟨⟨ts, m'⟩, hr, rfl⟩ := Option.map_eq_some_iff.mp h
    exact ⟨t, ts, m', ht, hr, rfl⟩
  cases ev with
  | koaCreate k =>
    simp only [step] at h
    split at h
    · obtain ⟨⟨s, m'⟩, hr, rfl⟩ := Option.map_eq_some_iff.mp h
      exact Or.inl ⟨k, s, m', ‹_›, hr, rfl⟩
    · cases h
  | koaDestroy k =>
    obtain ⟨s, hs, rfl⟩ := Option.map_eq_some_iff.mp h
    exact Or.inr (Or.inl ⟨k, s, hs, rfl⟩)
  | preBegin | postBegin | tryacquire | registerCommit | registerUndo | becomeIrrevocable | abort
  | conflict | commit | next => exact Or.inr (Or.inr (htx _ h))

/-! ## the steps of one transaction -/

/-- what a step of `t` can do, case by case -/
inductive TxStep (t : T) (ts : TxState n) (m : SentinelMgr T n) :
    Event T K n → TxState n → SentinelMgr T n → Prop
  | preBegin (hp : ts.phase = .outside) :
      TxStep t ts m (.preBegin t)
        ⟨{ fmInit (txInit ts.desc) with forcedRetries := 0 }, .begun, false⟩ m
  | postBegin (hp : ts.phase = .begun) :
      TxStep t ts m (.postBegin t) ⟨sentinelTransactionPostbegin ts.desc, .running, ts.busy⟩ m
  | keep (s : Fin n) (flags : UInt32) (result : Int) (b : Bool)
      (hp : ts.phase = .irrevocable ∨ (m.sentinel s).owner = some t) :
      TxStep t ts m (.tryacquire t s flags result) ⟨ts.desc, ts.phase, b⟩ m
  | acquire (s : Fin n) (flags : UInt32) (result : Int) (hp : ts.phase = .running)
      (hf : s ∉ m.free) (ho : (m.sentinel s).owner ≠ some t) (hm : (m.sentinel s).mutex = none) :
      TxStep t ts m (.tryacquire t s flags result)
        ⟨{ registerSentinelmgrCommitAction (registerSentinelmgrUndoAction ts.desc) with
            sentinelList := ts.desc.sentinelList ++
              [⟨s, sentinelAcquired ||| acquireOnRetry flags⟩] }, .running, ts.busy⟩
        (sentinelLock (sentinelAttach m s) t s)
  | busy (s : Fin n) (flags : UInt32) (result : Int) (hp : ts.phase = .running)
      (hf : s ∉ m.free) (ho : (m.sentinel s).owner ≠ some t) :
      TxStep t ts m (.tryacquire t s flags result)
        ⟨{ registerSentinelmgrCommitAction (registerSentinelmgrUndoAction ts.desc) with
            sentinelList := ts.desc.sentinelList ++ [⟨s, acquireOnRetry flags⟩] }, .running, true⟩
        (sentinelAttach m s)
  | registerCommit (a : Nat) (errorResult : Option Nat) (order : Int32)
      (hp : ts.phase = .running ∨ ts.phase = .irrevocable) (ho : 0 ≤ order) :
      TxStep t ts m (.registerCommit t a errorResult order)
        ⟨txRegisterCommitAction ts.desc ⟨.other a, errorResult, order⟩, ts.phase, ts.busy⟩ m
  | registerUndo (a : Nat) (errorResult : Option Nat) (order : Int32)
      (hp : ts.phase = .running ∨ ts.phase = .irrevocable) (ho : 0 ≤ order) :
      TxStep t ts m (.registerUndo t a errorResult order)
        ⟨txRegisterUndoAction ts.desc ⟨.other a, errorResult, order⟩, ts.phase, ts.busy⟩ m
  | becomeIrrevocable (hp : ts.phase = .running) :
      TxStep t ts m (.becomeIrrevocable t) ⟨ts.desc, .irrevocable, ts.busy⟩ m
  | abort (reason : AbortReason) (hp : ts.phase = .running) :
      TxStep t ts m (.abort t reason)
        (rollback ⟨tmsystemAbortTransaction ts.desc reason, ts.phase, ts.busy⟩) m
  | conflict (hp : ts.phase = .running ∨ ts.phase = .begun) :
      TxStep t ts m (.conflict t) (rollback ts) m
  | commit (hp : ts.phase = .running ∨ ts.phase = .irrevocable) (hc : ts.desc.itmCommit = true) :
      TxStep t ts m (.commit t) ⟨ts.desc, .committing Loop.start, ts.busy⟩ m
  | commitNothing (hp : ts.phase = .running ∨ ts.phase = .irrevocable)
      (hc : ts.desc.itmCommit = false) :
      TxStep t ts m (.commit t) ⟨endAttempt ts.desc, .outside, ts.busy⟩ m
  | commitExit (l : Loop Act) (hp : ts.phase = .committing l)
      (hn : l.next (commitScan ts.desc) = .exit) :
      TxStep t ts m (.next t)
        ⟨endAttempt { txInit ts.desc with forcedRetries := 0 }, .outside, ts.busy⟩ m
  | commitMove (l l' : Loop Act) (hp : ts.phase = .committing l)
      (hn : l.next (commitScan ts.desc) = .move l') :
      TxStep t ts m (.next t) ⟨ts.desc, .committing l', ts.busy⟩ m
  | commitOther (l l' : Loop Act) (e : ActionEntry Act) (hp : ts.phase = .committing l)
      (hn : l.next (commitScan ts.desc) = .call e l') (hf : e.function ≠ .sentinelmgrCommit) :
      TxStep t ts m (.next t) ⟨ts.desc, .committing l', ts.busy⟩ m
  | commitRelease (l l' : Loop Act) (e : ActionEntry Act) (hp : ts.phase = .committing l)
      (hn : l.next (commitScan ts.desc) = .call e l') (hf : e.function = .sentinelmgrCommit) :
      TxStep t ts m (.next t) ⟨forgetSentinels ts.desc, .committing l', ts.busy⟩
        (sentinelListRelease true m ts.desc.sentinelList)
  | undoExit (l : Loop Act) (hp : ts.phase = .undoing l)
      (hn : l.next (undoScan ts.desc) = .exit) :
      TxStep t ts m (.next t)
        ⟨endAttempt (txInit ts.desc), afterRollback ts.desc.abortReason, ts.busy⟩ m
  | undoMove (l l' : Loop Act) (hp : ts.phase = .undoing l)
      (hn : l.next (undoScan ts.desc) = .move l') :
      TxStep t ts m (.next t) ⟨ts.desc, .undoing l', ts.busy⟩ m
  | undoOther (l l' : Loop Act) (e : ActionEntry Act) (hp : ts.phase = .undoing l)
      (hn : l.next (undoScan ts.desc) = .call e l') (hf : e.function ≠ .sentinelmgrUndo) :
      TxStep t ts m (.next t) ⟨ts.desc, .undoing l', ts.busy⟩ m
  | undoRelease (l l' : Loop Act) (e : ActionEntry Act) (hp : ts.phase = .undoing l)
      (hn : l.next (undoScan ts.desc) = .call e l') (hf : e.function = .sentinelmgrUndo)
      (hr : ts.desc.abortReason = .userabort) :
      TxStep t ts m (.next t) ⟨forgetSentinels ts.desc, .undoing l', ts.busy⟩
        (sentinelListRelease true m ts.desc.sentinelList)
  | undoRetry (l l' : Loop Act) (e : ActionEntry Act) (pre : List (SentinelEntry (Fin n)))
      (hp : ts.phase = .undoing l) (hn : l.next (undoScan ts.desc) = .call e l')
      (hf : e.function = .sentinelmgrUndo) (hr : ts.desc.abortReason ≠ .userabort)
      (hs : sentinelListSort m (retryEntries ts.desc.sentinelList) = some pre) :
      TxStep t ts m (.next t)
        ⟨forgetSentinels { ts.desc with sentinelListPreacquire := pre }, .acquiring l' 0, ts.busy⟩
        (sentinelListRelease false m ts.desc.sentinelList)
  | acquireDone (l : Loop Act) (k : Nat) (hp : ts.phase = .acquiring l k)
      (hk : ts.desc.sentinelListPreacquire[k]? = none) :
      TxStep t ts m (.next t) ⟨ts.desc, .undoing l, ts.busy⟩ m
  | acquireOne (l : Loop Act) (k : Nat) (e : SentinelEntry (Fin n))
      (hp : ts.phase = .acquiring l k) (hk : ts.desc.sentinelListPreacquire[k]? = some e)
      (hm : (m.sentinel e.sentinel).mutex = none) :
      TxStep t ts m (.next t)
        ⟨{ ts.desc with sentinelList := ts.desc.sentinelList ++
            [⟨e.sentinel, sentinelAcquired ||| sentinelAcquireonretry⟩] },
          .acquiring l (k + 1), ts.busy⟩
        (sentinelLock m t e.sentinel)

theorem sentinelList_register (txd : TxDesc Act (Fin n)) :
    (registerSentinelmgrCommitAction (registerSentinelmgrUndoAction txd)).sentinelList
      = txd.sentinelList := by
  unfold registerSentinelmgrCommitAction registerSentinelmgrUndoAction
  split <;> split <;> simp only [txRegisterCommitAction_eq, txRegisterUndoAction_eq]

section
variable {t : T} {ts ts' : TxState n} {m m' : SentinelMgr T n}

theorem ite_none_eq_some {β : Type} {p : Prop} [Decidable p] {a : Option β} {b : β}
    (h : (if p then a else none) = some b) : p ∧ a = some b := by
  split at h
  · exact ⟨‹_›, h⟩
  · cases h

theorem nextStep_cases (h : nextStep t ts m = some (ts', m')) :
    TxStep (K := K) t ts m (.next t) ts' m' := by
  unfold nextStep at h
  cases hp : ts.phase with
  | outside | begun | running | irrevocable => rw [hp] at h; cases h
  | committing l =>
    simp only [hp] at h
    cases hn : l.next (commitScan ts.desc) with
    | exit =>
      simp only [hn, Option.some.injEq, Prod.mk.injEq] at h
      obtain ⟨rfl, rfl⟩ := h
      exact .commitExit l hp hn
    | move l' =>
      simp only [hn, Option.some.injEq, Prod.mk.injEq] at h
      obtain ⟨rfl, rfl⟩ := h
      exact .commitMove l l' hp hn
    | call e l' =>
      simp only [hn] at h
      by_cases hf : e.function = .sentinelmgrCommit
      · simp only [hf, if_true, Option.some.injEq, Prod.mk.injEq] at h
        obtain ⟨rfl, rfl⟩ := h
        exact .commitRelease l l' e hp hn hf
      · simp only [hf, if_false, Option.some.injEq, Prod.mk.injEq] at h
        obtain ⟨rfl, rfl⟩ := h
        exact .commitOther l l' e hp hn hf
  | undoing l =>
    simp only [hp] at h
    cases hn : l.next (undoScan ts.desc) with
    | exit =>
      simp only [hn, Option.some.injEq, Prod.mk.injEq] at h
      obtain ⟨rfl, rfl⟩ := h
      exact .undoExit l hp hn
    | move l' =>
      simp only [hn, Option.some.injEq, Prod.mk.injEq] at h
      obtain ⟨rfl, rfl⟩ := h
      exact .undoMove l l' hp hn
    | call e l' =>
      simp only [hn] at h
      by_cases hf : e.function = .sentinelmgrUndo
      · by_cases hr : ts.desc.abortReason = .userabort
        · simp only [hf, hr, if_true, Option.some.injEq, Prod.mk.injEq] at h
          obtain ⟨rfl, rfl⟩ := h
          exact .undoRelease l l' e hp hn hf hr
        · simp only [hf, hr, if_true, if_false, sentinelmgrTransactionBeforeRetry,
            Option.map_map] at h
          obtain ⟨pre, hs, h⟩ := Option.map_eq_some_iff.mp h
          simp only [Function.comp_apply, Prod.mk.injEq] at h
          obtain ⟨rfl, rfl⟩ := h
          exact .undoRetry l l' e pre hp hn hf hr hs
      · simp only [hf, if_false, Option.some.injEq, Prod.mk.injEq] at h
        obtain ⟨rfl, rfl⟩ := h
        exact .undoOther l l' e hp hn hf
  | acquiring l k =>
    simp only [hp] at h
    cases hk : ts.desc.sentinelListPreacquire[k]? with
    | none =>
      simp only [hk, Option.some.injEq, Prod.mk.injEq] at h
      obtain ⟨rfl, rfl⟩ := h
      exact .acquireDone l k hp hk
    | some e =>
      simp only [hk] at h
      by_cases hm : (m.sentinel e.sentinel).mutex = none
      · simp only [hm, if_true, Option.some.injEq, Prod.mk.injEq] at h
        obtain ⟨rfl, rfl⟩ := h
        exact .acquireOne l k e hp hk hm
      · simp only [hm, if_false] at h
        cases h

theorem tryacquire_cases {s : Fin n} {flags : UInt32} {result : Int}
    (h : txStep (K := K) ts m (.tryacquire t s flags result) = some (ts', m')) :
    TxStep (K := K) t ts m (.tryacquire t s flags result) ts' m' := by
  simp only [txStep] at h
  by_cases hf : s ∉ m.free
  · rw [if_pos hf] at h
    obtain ⟨⟨r, m1, txd⟩, hr, h⟩ := Option.map_eq_some_iff.mp h
    simp only [Prod.mk.injEq] at h
    obtain ⟨rfl, rfl⟩ := h
    unfold sentinelTryacquire at hr
    by_cases ho : (m.sentinel s).owner ≠ some t
    · rw [if_pos ho] at hr
      cases hp : ts.phase with
      | outside | begun | committing | undoing | acquiring =>
        rw [hp] at hr
        cases hr
      | irrevocable =>
        rw [hp] at hr
        simp only [Phase.xactstate, Option.some.injEq, Prod.mk.injEq] at hr
        obtain ⟨rfl, rfl, rfl⟩ := hr
        rw [← hp]
        exact .keep s flags result _ (Or.inl hp)
      | running =>
        rw [hp] at hr
        simp only [Phase.xactstate] at hr
        by_cases hm : (m.sentinel s).mutex = none
        · simp only [hm, if_true, Option.some.injEq, Prod.mk.injEq] at hr
          obtain ⟨rfl, rfl, rfl⟩ := hr
          have := TxStep.acquire (K := K) (t := t) s flags result hp hf ho hm
          rw [sentinelList_register]
          simpa [rSuccess, rBusysentinel] using this
        · simp only [hm, if_false, Option.some.injEq, Prod.mk.injEq] at hr
          obtain ⟨rfl, rfl, rfl⟩ := hr
          have := TxStep.busy (K := K) (t := t) s flags result hp hf ho
          rw [sentinelList_register]
          simpa using this
    · rw [if_neg ho] at hr
      simp only [Option.some.injEq, Prod.mk.injEq] at hr
      obtain ⟨rfl, rfl, rfl⟩ := hr
      exact .keep s flags _ _ (Or.inr (not_not.mp ho))
  · rw [if_neg hf] at h
    cases h

theorem txStep_cases {ev : Event T K n} (h : txStep ts m ev = some (ts', m'))
    (ht : ev.of = some t) : TxStep t ts m ev ts' m' := by
  cases ev with
  | tryacquire => cases ht; exact tryacquire_cases h
  | next => cases ht; exact nextStep_cases h
  | koaCreate => cases ht
  | koaDestroy => cases ht
  | commit =>
    cases ht
    obtain ⟨hp, h⟩ := ite_none_eq_some h
    cases hc : ts.desc.itmCommit with
    | true => rw [hc] at h; cases h; exact .commit hp hc
    | false => rw [hc] at h; cases h; exact .commitNothing hp hc
  | preBegin | postBegin | registerCommit | registerUndo | becomeIrrevocable | abort | conflict =>
    cases ht
    obtain ⟨hp, h⟩ := ite_none_eq_some h
    cases h
    first
    | exact .preBegin hp
    | exact .postBegin hp
    | exact .registerCommit _ _ _ hp.1 hp.2
    | exact .registerUndo _ _ _ hp.1 hp.2
    | exact .becomeIrrevocable hp
    | exact .abort _ hp
    | exact .conflict hp

end

end

end XCalls
