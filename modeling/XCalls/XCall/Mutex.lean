import XCalls.Core.Attempt

/-!
# Mutexes in a transaction

`x_pthread_mutex_lock.c`, `x_pthread_mutex_unlock.c`: a lock is taken in place and released by an
undo action, the release of a lock is deferred to a commit action.

* `Mutex`           a mutex that no other thread uses, of one of the three kinds;
* `xPthreadMutexLock`, `xPthreadMutexUnlock`   the two calls, `mutexEnv` their actions;
* `Bracketed`       each mutex is locked and unlocked in turn, beginning with a lock;
* `sequentialStep`  the same calls without a transaction;
* `MutexInv`        after a part of the calls: a mutex is locked as often as it was locked, and as
                    many of its unlocks wait in the two lists;
* `MutexesSequential`   the transaction does not abort, and commits to what the sequential calls do;
* `mutexes_sequential_iff`  it does, when no mutex that is not recursive is locked twice, and only then;
* `relock_busy`     a mutex that is locked, unlocked and locked again.
-/

set_option linter.unusedSectionVars false

namespace XCalls
open EventSys
variable {n : Nat}

/-! ## mutexes -/

/-- `PTHREAD_MUTEX_NORMAL`, `PTHREAD_MUTEX_ERRORCHECK`, `PTHREAD_MUTEX_RECURSIVE` -/
inductive MutexKind where
  | normal
  | errorcheck
  | recursive
  deriving DecidableEq, Repr

/-- a mutex of which no other thread knows: how often this one has locked it -/
structure Mutex where
  kind : MutexKind
  count : Nat
  deriving DecidableEq, Repr

abbrev Mutexes := Nat → Mutex

/-- `EPERM`, `EBUSY`, `EDEADLK` -/
def eperm : Int := 1
def ebusy : Int := 16
def edeadlk : Int := 35

/-- `none`: the call does not return -/
def pthreadMutexLock (m : Mutex) : Option (Int × Mutex) :=
  if m.count = 0 then some (0, { m with count := 1 })
  else match m.kind with
    | .normal => none
    | .errorcheck => some (edeadlk, m)
    | .recursive => some (0, { m with count := m.count + 1 })

def pthreadMutexTrylock (m : Mutex) : Int × Mutex :=
  if m.count = 0 ∨ m.kind = .recursive then (0, { m with count := m.count + 1 }) else (ebusy, m)

/-- what a normal mutex does that is not locked is undefined; the error is that of the others -/
def pthreadMutexUnlock (m : Mutex) : Int × Mutex :=
  if m.count = 0 then (eperm, m) else (0, { m with count := m.count - 1 })

/-! ## the calls -/

/-- the actions: both unlock their mutex -/
inductive MutexAct where
  | lockUndo (mutex : Nat)
  | unlockCommit (mutex : Nat)
  deriving DecidableEq, Repr

def MutexAct.mutex : MutexAct → Nat
  | lockUndo mutex => mutex
  | unlockCommit mutex => mutex

inductive MutexStop where
  | abort (reason : AbortReason)
  | internalError
  | waits
  deriving DecidableEq, Repr

/-- `sizeof(x_undo_args_t)`, `sizeof(x_commit_args_t)` -/
def mutexArgsSize : UInt32 := 4

abbrev MutexMach (n : Nat) := TMach MutexAct n Mutexes

section
variable (x : XactState)

def setMutex (m : MutexMach n) (mutex : Nat) (v : Mutex) : MutexMach n :=
  { m with world := { m.world with rest := Function.update m.world.rest mutex v } }

/-- `TXC_TX_REGULAR_UNDO_ACTION_ORDER`, `TXC_TX_REGULAR_COMMIT_ACTION_ORDER` -/
def mutexActionOrder : Int32 := 0

/-- the value returned, and the machine -/
def xPthreadMutexLock (mutex : Nat) (result : Option Nat) (m : MutexMach n) :
    Except MutexStop (Int × MutexMach n) :=
  match x with
  | .retryable =>
    match bufferLinearMalloc m.txd.bufferLinear mutexArgsSize with
    | none => .error .internalError
    | some (_, b) =>
      let m := { m with txd := { m.txd with bufferLinear := b } }
      let r := pthreadMutexTrylock (m.world.rest mutex)
      if r.1 ≠ 0 then .error (.abort .busytxlock)
      else
        let m := setMutex m mutex r.2
        let txd := txRegisterUndoAction m.txd
          ⟨.other (.other (.lockUndo mutex)), result, mutexActionOrder⟩
        .ok (r.1, { m with txd }.store result 0)
  | .irrevocable | .nontransactional =>
    match pthreadMutexLock (m.world.rest mutex) with
    | none => .error .waits
    | some (ret, v) => .ok (ret, (setMutex m mutex v).store result ret)

def xPthreadMutexUnlock (mutex : Nat) (result : Option Nat) (m : MutexMach n) :
    Except MutexStop (Int × MutexMach n) :=
  match x with
  | .retryable =>
    match bufferLinearMalloc m.txd.bufferLinear mutexArgsSize with
    | none => .error .internalError
    | some (_, b) =>
      let m := { m with txd := { m.txd with bufferLinear := b } }
      let txd := txRegisterCommitAction m.txd
        ⟨.other (.other (.unlockCommit mutex)), result, mutexActionOrder⟩
      .ok (0, { m with txd }.store result 0)
  | .irrevocable | .nontransactional =>
    let r := pthreadMutexUnlock (m.world.rest mutex)
    .ok (r.1, (setMutex m mutex r.2).store result r.1)

end

/-- a call with its arguments -/
inductive MutexCall where
  | lock (mutex : Nat) (result : Option Nat)
  | unlock (mutex : Nat) (result : Option Nat)
  deriving DecidableEq, Repr

def mutexStep (m : MutexMach n) : MutexCall → Except MutexStop (MutexMach n)
  | .lock mutex result => (xPthreadMutexLock .retryable mutex result m).map Prod.snd
  | .unlock mutex result => (xPthreadMutexUnlock .retryable mutex result m).map Prod.snd

/-- the calls of a transaction -/
def mutexCalls (m : MutexMach n) (calls : List MutexCall) : Except MutexStop (MutexMach n) :=
  calls.foldlM mutexStep m

/-- the actions: `sc` and `su` are what the sentinel manager leaves of its lists -/
def mutexEnv
    (sc su : TDesc MutexAct n → List (SentinelEntry (Fin n)) × List (SentinelEntry (Fin n))) :
    Env MutexAct n Mutexes where
  sentinelmgrCommit txd w := ((sc txd).1, (sc txd).2, w)
  sentinelmgrUndo txd w := ((su txd).1, (su txd).2, w)
  -- `x_pthread_mutex_lock_undo` and `x_pthread_mutex_unlock_commit`
  other a mem w :=
    (mem, Function.update w a.mutex (pthreadMutexUnlock (w a.mutex)).2,
      (pthreadMutexUnlock (w a.mutex)).1)

/-! ## sequential calls -/

def MutexCall.isLock (μ : Nat) : MutexCall → Bool
  | lock mutex _ => mutex = μ
  | unlock _ _ => false

def MutexCall.isUnlock (μ : Nat) : MutexCall → Bool
  | lock _ _ => false
  | unlock mutex _ => mutex = μ

def locks (μ : Nat) (calls : List MutexCall) : Nat := calls.countP (MutexCall.isLock μ)
def unlocks (μ : Nat) (calls : List MutexCall) : Nat := calls.countP (MutexCall.isUnlock μ)

/-- at every point each mutex has been locked as often as unlocked, or once more -/
def Bracketed (calls : List MutexCall) : Prop :=
  ∀ p, p <+: calls → ∀ μ, unlocks μ p ≤ locks μ p ∧ locks μ p ≤ unlocks μ p + 1

def sequentialStep (w : Mutexes) : MutexCall → Option Mutexes
  | .lock mutex _ => (pthreadMutexLock (w mutex)).map fun r => Function.update w mutex r.2
  | .unlock mutex _ => some (Function.update w mutex (pthreadMutexUnlock (w mutex)).2)

/-! ## the two lists -/

def unlocksIn (μ : Nat) (es : List (ActionEntry (TAct MutexAct))) : Nat :=
  es.countP fun e => match e.function with
    | .other (.other a) => a.mutex = μ
    | _ => false

/-- a list whose entries unlock each mutex `count` times, with what the STM knows of it -/
structure PendingUnlocks (count : Nat → Nat) (la : ActionList (TAct MutexAct))
    (registered itm : Bool) : Prop where
  order : ∀ e ∈ la.entries, 0 ≤ e.order
  unlocks : ∀ μ, unlocksIn μ la.entries = count μ
  generic : la.entries ≠ [] → registered = true
  itm : registered = true → itm = true

structure TxPending (undo commit : Nat → Nat) (txd : TDesc MutexAct n) : Prop where
  undo : PendingUnlocks undo txd.undoActionList txd.genericUndoActionRegistered txd.itmUndo
  commit : PendingUnlocks commit txd.commitActionList txd.genericCommitActionRegistered txd.itmCommit

section
variable {count undo commit : Nat → Nat} {txd : TDesc MutexAct n}

theorem unlocksIn_append (μ : Nat) (es es' : List (ActionEntry (TAct MutexAct))) :
    unlocksIn μ (es ++ es') = unlocksIn μ es + unlocksIn μ es' := List.countP_append

theorem unlocksIn_act (μ : Nat) (a : MutexAct) (errorResult : Option Nat) (order : Int32) :
    unlocksIn μ [⟨.other (.other a), errorResult, order⟩] = if a.mutex = μ then 1 else 0 := by
  simp only [unlocksIn, List.countP_singleton, decide_eq_true_eq]

theorem PendingUnlocks.register {la : ActionList (TAct MutexAct)} {registered itm : Bool}
    (h : PendingUnlocks count la registered itm) {e : ActionEntry (TAct MutexAct)}
    (he : 0 ≤ e.order) :
    PendingUnlocks (fun μ => count μ + unlocksIn μ [e]) (registerAction la e) true
      (itm || !registered) := by
  refine ⟨fun x hx => ?_, fun μ => ?_, fun _ => rfl, fun _ => ?_⟩
  · rw [entries_registerAction] at hx
    rcases List.mem_append.mp hx with hx | hx
    · exact h.order x hx
    · rw [List.mem_singleton.mp hx]
      exact he
  · rw [entries_registerAction, unlocksIn_append, h.unlocks]
  · have hitm := h.itm
    cases registered with
    | false => exact Bool.or_true itm
    | true => rw [hitm rfl]; rfl

theorem TxPending.registerUndo (h : TxPending undo commit txd) {e : ActionEntry (TAct MutexAct)}
    (he : 0 ≤ e.order) :
    TxPending (fun μ => undo μ + unlocksIn μ [e]) commit (txRegisterUndoAction txd e) := by
  rw [txRegisterUndoAction_eq]
  exact ⟨h.undo.register he, h.commit⟩

theorem TxPending.registerCommit (h : TxPending undo commit txd) {e : ActionEntry (TAct MutexAct)}
    (he : 0 ≤ e.order) :
    TxPending undo (fun μ => commit μ + unlocksIn μ [e]) (txRegisterCommitAction txd e) := by
  rw [txRegisterCommitAction_eq]
  exact ⟨h.undo, h.commit.register he⟩

theorem TxPending.buffer (h : TxPending undo commit txd) (b : BufferLinear) :
    TxPending undo commit { txd with bufferLinear := b } := ⟨h.undo, h.commit⟩

theorem TxPending.congr {undo' commit' : Nat → Nat} (h : TxPending undo commit txd)
    (hu : ∀ μ, undo μ = undo' μ) (hc : ∀ μ, commit μ = commit' μ) :
    TxPending undo' commit' txd := by
  rw [← funext hu, ← funext hc]
  exact h

theorem txPending_sentinelPostbegin (h : TxPending undo commit txd) :
    TxPending undo commit (sentinelTransactionPostbegin txd) := by
  have hcommit : TxPending undo commit (registerSentinelmgrCommitAction txd) := by
    unfold registerSentinelmgrCommitAction
    split
    · have hr := h.registerCommit (e := ⟨.sentinelmgrCommit, none, sentinelmgrActionOrder⟩)
        (by decide)
      exact ⟨hr.undo, hr.commit⟩
    · exact h
  have hundo : TxPending undo commit
      (registerSentinelmgrUndoAction (registerSentinelmgrCommitAction txd)) := by
    unfold registerSentinelmgrUndoAction
    split
    · have hr := hcommit.registerUndo (e := ⟨.sentinelmgrUndo, none, sentinelmgrActionOrder⟩)
        (by decide)
      exact ⟨hr.undo, hr.commit⟩
    · exact hcommit
  unfold sentinelTransactionPostbegin
  split
  · exact hundo
  · exact h

theorem txPending_statsPostbegin (statistics : Bool) (h : TxPending undo commit txd) :
    TxPending undo commit (statsTransactionPostbegin statistics txd) := by
  have hcommit : TxPending undo commit (registerStatsmgrCommitAction txd) := by
    unfold registerStatsmgrCommitAction
    split
    · have hr := h.registerCommit (e := ⟨.other .statsmgrCommit, none, statsmgrActionOrder⟩)
        (by decide)
      exact ⟨hr.undo, hr.commit⟩
    · exact h
  have hundo : TxPending undo commit
      (registerStatsmgrUndoAction (registerStatsmgrCommitAction txd)) := by
    unfold registerStatsmgrUndoAction
    split
    · have hr := hcommit.registerUndo (e := ⟨.other .statsmgrUndo, none, statsmgrActionOrder⟩)
        (by decide)
      exact ⟨hr.undo, hr.commit⟩
    · exact hcommit
  unfold statsTransactionPostbegin
  split
  · exact hundo
  · exact h

/-- at the beginning of an attempt nothing waits but the actions of the two managers -/
theorem txPending_begin (statistics : Bool) (m : MutexMach n) (srclocStr : UInt32)
    (srcloc : SrcLoc) :
    TxPending (fun _ => 0) (fun _ => 0)
      (txPostBegin statistics (txPreBegin statistics m srclocStr srcloc)).txd := by
  apply txPending_statsPostbegin
  apply txPending_sentinelPostbegin
  have hempty : ∀ (la : ActionList (TAct MutexAct)) (itm : Bool), la.entries = [] →
      PendingUnlocks (fun _ => 0) la false itm := by
    intro la itm hla
    refine ⟨?_, ?_, fun hne => absurd hla hne, fun h => absurd h Bool.false_ne_true⟩
    · intro e he
      rw [hla] at he
      cases he
    · intro μ
      rw [hla]
      rfl
  exact ⟨hempty _ _ rfl, hempty _ _ rfl⟩

theorem TxPending.abort {m : MutexMach n} (h : TxPending undo commit m.txd) (reason : AbortReason) :
    TxPending undo commit (abortMach m reason).txd := by
  have hreg : TxPending undo commit (tmsystemRegisterGenericUndoAction m.txd) := by
    unfold tmsystemRegisterGenericUndoAction
    split
    · exact ⟨⟨h.undo.order, h.undo.unlocks, fun _ => rfl, fun _ => rfl⟩, h.commit⟩
    · exact h
  exact ⟨hreg.undo, hreg.commit⟩

theorem postBegin_buffer (statistics : Bool) (m : MutexMach n) :
    (txPostBegin statistics m).txd.bufferLinear = m.txd.bufferLinear := by
  have hsentinels : (sentinelTransactionPostbegin m.txd).bufferLinear = m.txd.bufferLinear := by
    unfold sentinelTransactionPostbegin registerSentinelmgrUndoAction registerSentinelmgrCommitAction
    simp only [txRegisterUndoAction_eq, txRegisterCommitAction_eq]
    repeat' split
    all_goals rfl
  rw [← hsentinels]
  show (statsTransactionPostbegin statistics _).bufferLinear = _
  unfold statsTransactionPostbegin registerStatsmgrUndoAction registerStatsmgrCommitAction
  simp only [txRegisterUndoAction_eq, txRegisterCommitAction_eq]
  repeat' split
  all_goals rfl

end

/-! ## the actions -/

section
variable (sc su : TDesc MutexAct n → List (SentinelEntry (Fin n)) × List (SentinelEntry (Fin n)))

/-- an entry unlocks its mutex, if it has one -/
theorem callEntry_mutex (e : ActionEntry (TAct MutexAct)) (m : MutexMach n)
    (h : ∀ μ, unlocksIn μ [e] ≤ (m.world.rest μ).count) :
    (callEntry (mutexEnv sc su).exec e m).2 = 0 ∧
      ∀ μ, (callEntry (mutexEnv sc su).exec e m).1.world.rest μ
        = { m.world.rest μ with count := (m.world.rest μ).count - unlocksIn μ [e] } := by
  obtain ⟨f, errorResult, order⟩ := e
  -- an action of a manager leaves the mutexes alone
  have hmgr : ∀ (m' : MutexMach n), m'.world.rest = m.world.rest →
      ∀ μ, (m'.store errorResult 0).world.rest μ
        = { m.world.rest μ with count := (m.world.rest μ).count - 0 } := by
    intro m' hm' μ
    rw [Mach.store_world, hm']
    rfl
  cases f with
  | sentinelmgrCommit => exact ⟨rfl, hmgr _ rfl⟩
  | sentinelmgrUndo => exact ⟨rfl, hmgr _ rfl⟩
  | other f =>
    cases f with
    | statsmgrCommit => exact ⟨rfl, hmgr _ rfl⟩
    | statsmgrUndo => exact ⟨rfl, hmgr _ rfl⟩
    | other a =>
      have hone := fun μ => unlocksIn_act μ a errorResult order
      have hheld : (m.world.rest a.mutex).count ≠ 0 := by
        have := h a.mutex
        rw [hone, if_pos rfl] at this
        omega
      have hunlock : pthreadMutexUnlock (m.world.rest a.mutex)
          = (0, { m.world.rest a.mutex with count := (m.world.rest a.mutex).count - 1 }) :=
        if_neg hheld
      refine ⟨congrArg Prod.fst hunlock, fun μ => ?_⟩
      rw [callEntry, Mach.store_world, hone]
      show Function.update m.world.rest a.mutex (pthreadMutexUnlock (m.world.rest a.mutex)).2 μ = _
      rw [hunlock]
      by_cases hμ : a.mutex = μ
      · subst hμ
        rw [Function.update_self, if_pos rfl]
      · rw [Function.update_of_ne (Ne.symm hμ), if_neg hμ, Nat.sub_zero]

/-- **The actions.**  Entries that unlock no mutex more often than it is locked all succeed, in any
order. -/
theorem callAll_mutex (es : List (ActionEntry (TAct MutexAct))) (m : MutexMach n)
    (h : ∀ μ, unlocksIn μ es ≤ (m.world.rest μ).count) :
    (∀ r ∈ (callAll (mutexEnv sc su).exec es m).1, r = 0) ∧
      ∀ μ, (callAll (mutexEnv sc su).exec es m).2.world.rest μ
        = { m.world.rest μ with count := (m.world.rest μ).count - unlocksIn μ es } := by
  induction es generalizing m with
  | nil => exact ⟨(fun r hr => nomatch hr), fun μ => rfl⟩
  | cons e es ih =>
    have hsplit : ∀ μ, unlocksIn μ (e :: es) = unlocksIn μ [e] + unlocksIn μ es :=
      fun μ => unlocksIn_append μ [e] es
    have he : ∀ μ, unlocksIn μ [e] ≤ (m.world.rest μ).count := fun μ => by
      have := h μ
      rw [hsplit] at this
      omega
    obtain ⟨hzero, hrest⟩ := callEntry_mutex sc su e m he
    obtain ⟨hzeros, hrests⟩ := ih (callEntry (mutexEnv sc su).exec e m).1 fun μ => by
      have := h μ
      rw [hsplit] at this
      rw [hrest]
      show _ ≤ (m.world.rest μ).count - unlocksIn μ [e]
      omega
    refine ⟨?_, fun μ => ?_⟩
    · intro r hr
      rcases List.mem_cons.mp hr with rfl | hr
      · exact hzero
      · exact hzeros r hr
    · refine (hrests μ).trans ?_
      rw [hrest μ, hsplit, Nat.sub_add_eq]

theorem callAll_list {count : Nat → Nat} {la : ActionList (TAct MutexAct)} {b b' : Bool}
    (hp : PendingUnlocks count la b b') {m : MutexMach n} {es : List (ActionEntry (TAct MutexAct))}
    (hes : es.Perm la.entries) (hc : ∀ μ, count μ ≤ (m.world.rest μ).count) :
    (∀ r ∈ (callAll (mutexEnv sc su).exec es m).1, r = 0) ∧
      ∀ μ, (callAll (mutexEnv sc su).exec es m).2.world.rest μ
        = { m.world.rest μ with count := (m.world.rest μ).count - count μ } := by
  have hcount : ∀ μ, unlocksIn μ es = count μ := fun μ => (hes.countP_eq _).trans (hp.unlocks μ)
  obtain ⟨hzero, hrest⟩ := callAll_mutex sc su es m fun μ => by
    rw [hcount]
    exact hc μ
  refine ⟨hzero, fun μ => ?_⟩
  rw [hrest, hcount]

/-- a rollback that finds every mutex locked as often as the undo actions unlock it -/
theorem rollback_mutex {undo commit : Nat → Nat} {m : MutexMach n}
    (hp : TxPending undo commit m.txd) (hc : ∀ μ, (m.world.rest μ).count = undo μ) :
    ∃ fuel₀ m', (∀ fuel ≥ fuel₀, rollbackMach (mutexEnv sc su) fuel m = some m') ∧
      ∀ μ, m'.world.rest μ = ⟨(m.world.rest μ).kind, 0⟩ := by
  have h0 : ∀ e ∈ undoScan m.txd, 0 ≤ e.order :=
    fun e he => hp.undo.order e (List.mem_reverse.mp he)
  unfold rollbackMach
  by_cases hitm : m.txd.itmUndo = true
  · obtain ⟨fuel₀, o, hrun, hord, _, hmach⟩ :=
      txGenericUndoAction_spec (registersNothing_exec (mutexEnv sc su)) m h0
    obtain ⟨_, hrest⟩ := callAll_list sc su hp.undo
      (hord.once.trans (List.reverse_perm _)) fun μ => Nat.le_of_eq (hc μ).symm
    refine ⟨fuel₀, o.mach.forget, fun fuel hf => ?_, fun μ => ?_⟩
    · rw [if_pos hitm, hrun fuel hf, Option.map_some]
    · show o.mach.world.rest μ = _
      rw [hmach, undoTail_world, hrest, hc, Nat.sub_self]
  · -- nothing was registered, so no mutex is locked
    refine ⟨0, m.forget, fun fuel _ => by rw [if_neg hitm], fun μ => ?_⟩
    have hnone : m.txd.undoActionList.entries = [] := by
      by_contra hne
      exact hitm (hp.undo.itm (hp.undo.generic hne))
    have hzero : undo μ = 0 := by
      rw [← hp.undo.unlocks, hnone]
      rfl
    show m.world.rest μ = _
    rw [← hzero, ← hc]

/-- a commit that finds no mutex locked less often than the commit actions unlock it -/
theorem commit_mutex {undo commit : Nat → Nat} {m : MutexMach n}
    (hp : TxPending undo commit m.txd) (hc : ∀ μ, commit μ ≤ (m.world.rest μ).count) :
    ∃ fuel₀ m', (∀ fuel ≥ fuel₀, commitMach (mutexEnv sc su) fuel m = some m') ∧
      ∀ μ, m'.world.rest μ = { m.world.rest μ with count := (m.world.rest μ).count - commit μ } := by
  unfold commitMach
  by_cases hitm : m.txd.itmCommit = true
  · obtain ⟨fuel₀, o, hrun, hord, _, hmach⟩ :=
      txGenericCommitAction_spec (registersNothing_exec (mutexEnv sc su)) m hp.commit.order
    obtain ⟨_, hrest⟩ := callAll_list sc su hp.commit hord.once hc
    refine ⟨fuel₀, o.mach.forget, fun fuel hf => ?_, fun μ => ?_⟩
    · rw [if_pos hitm, hrun fuel hf, Option.map_some]
    · show o.mach.world.rest μ = _
      rw [hmach, commitTail_world, hrest]
  · refine ⟨0, m.forget, fun fuel _ => by rw [if_neg hitm], fun μ => ?_⟩
    have hnone : m.txd.commitActionList.entries = [] := by
      by_contra hne
      exact hitm (hp.commit.itm (hp.commit.generic hne))
    have hzero : commit μ = 0 := by
      rw [← hp.commit.unlocks, hnone]
      rfl
    show m.world.rest μ = _
    rw [hzero, Nat.sub_zero]

end

/-! ## the counts -/

/-- no mutex that is not recursive is locked twice -/
def OnceLocked (w : Mutexes) (calls : List MutexCall) : Prop :=
  ∀ μ, (w μ).kind ≠ .recursive → locks μ calls ≤ 1

def Relocks (w : Mutexes) (p : List MutexCall) : MutexCall → Prop
  | .lock mutex _ => (w mutex).kind ≠ .recursive ∧ locks mutex p ≠ 0
  | .unlock _ _ => False

section
variable {p calls : List MutexCall} {w : Mutexes}

theorem locks_append (μ : Nat) (p q : List MutexCall) : locks μ (p ++ q) = locks μ p + locks μ q :=
  List.countP_append

theorem unlocks_append (μ : Nat) (p q : List MutexCall) :
    unlocks μ (p ++ q) = unlocks μ p + unlocks μ q := List.countP_append

theorem locks_lock (μ mutex : Nat) (result : Option Nat) :
    locks μ [.lock mutex result] = if mutex = μ then 1 else 0 := by
  simp only [locks, List.countP_singleton, MutexCall.isLock, decide_eq_true_eq]

theorem unlocks_unlock (μ mutex : Nat) (result : Option Nat) :
    unlocks μ [.unlock mutex result] = if mutex = μ then 1 else 0 := by
  simp only [unlocks, List.countP_singleton, MutexCall.isUnlock, decide_eq_true_eq]

theorem locks_unlock (μ mutex : Nat) (result : Option Nat) :
    locks μ [.unlock mutex result] = 0 := rfl

theorem unlocks_lock (μ mutex : Nat) (result : Option Nat) :
    unlocks μ [.lock mutex result] = 0 := rfl

theorem OnceLocked.of_prefix (h : OnceLocked w calls) (hp : p <+: calls) : OnceLocked w p :=
  fun μ hμ => Nat.le_trans (hp.sublist.countP_le) (h μ hμ)

theorem onceLocked_snoc (c : MutexCall) :
    OnceLocked w (p ++ [c]) ↔ OnceLocked w p ∧ ¬ Relocks w p c := by
  constructor
  · intro h
    refine ⟨h.of_prefix (List.prefix_append p [c]), fun hr => ?_⟩
    cases c with
    | unlock mutex result => exact hr
    | lock mutex result =>
      have hle := h mutex hr.1
      rw [locks_append, locks_lock, if_pos rfl] at hle
      have hne := hr.2
      omega
  · intro ⟨h, hr⟩ μ hμ
    have hle := h μ hμ
    cases c with
    | unlock mutex result =>
      rw [locks_append, locks_unlock]
      exact hle
    | lock mutex result =>
      rw [locks_append, locks_lock]
      split
      · rename_i heq
        subst heq
        have hzero : locks mutex p = 0 := by
          by_contra hne
          exact hr ⟨hμ, hne⟩
        omega
      · exact hle

theorem Bracketed.of_prefix (h : Bracketed calls) (hp : p <+: calls) : Bracketed p :=
  fun q hq => h q (hq.trans hp)

theorem bracketed_nil : Bracketed [] := by
  intro p hp μ
  rw [List.prefix_nil.mp hp]
  exact ⟨Nat.le_refl 0, Nat.zero_le _⟩

/-- a lock of a mutex that is not locked -/
theorem Bracketed.lock (h : Bracketed p) {mutex : Nat} (hm : locks mutex p = unlocks mutex p)
    (result : Option Nat) : Bracketed (p ++ [.lock mutex result]) := by
  intro q hq μ
  rcases List.prefix_concat_iff.mp hq with rfl | hq
  · have hp := h p (List.prefix_refl p) μ
    rw [locks_append, unlocks_append, locks_lock, unlocks_lock]
    split
    · rename_i heq
      subst heq
      omega
    · omega
  · exact h q hq μ

theorem Bracketed.unlock (h : Bracketed p) {mutex : Nat} (hm : unlocks mutex p < locks mutex p)
    (result : Option Nat) : Bracketed (p ++ [.unlock mutex result]) := by
  intro q hq μ
  rcases List.prefix_concat_iff.mp hq with rfl | hq
  · have hp := h p (List.prefix_refl p) μ
    rw [locks_append, unlocks_append, locks_unlock, unlocks_unlock]
    split
    · rename_i heq
      subst heq
      omega
    · omega
  · exact h q hq μ

/-- **The sequential calls** return, and leave a mutex locked that is locked once more than
unlocked. -/
theorem sequential_run (hfree : ∀ μ, (w μ).count = 0) (hb : Bracketed calls) :
    run sequentialStep w calls
      = some fun μ => ⟨(w μ).kind, locks μ calls - unlocks μ calls⟩ := by
  induction calls using List.reverseRecOn with
  | nil =>
    have hw : w = fun μ => ⟨(w μ).kind, 0⟩ := funext fun μ => by rw [← hfree μ]
    rw [run_nil]
    exact congrArg some hw
  | append_singleton p c ih =>
    have hprefix := List.prefix_append p [c]
    have hbefore := hb p hprefix
    have hafter := hb (p ++ [c]) (List.prefix_refl _)
    rw [run_append, ih (hb.of_prefix hprefix), Option.bind_some]
    show (sequentialStep _ c).bind some = _
    rw [Option.bind_fun_some]
    cases c with
    | lock mutex result =>
      -- as many locks as unlocks so far
      have heq : locks mutex p = unlocks mutex p := by
        have h1 := hbefore mutex
        have h2 := hafter mutex
        rw [locks_append, unlocks_append, locks_lock, unlocks_lock, if_pos rfl] at h2
        omega
      rw [sequentialStep, pthreadMutexLock, if_pos (by show locks mutex p - _ = 0; omega),
        Option.map_some]
      congr 1
      funext μ
      rw [locks_append, unlocks_append, locks_lock, unlocks_lock]
      by_cases hμ : mutex = μ
      · subst hμ
        have hone : unlocks mutex p + 1 - (unlocks mutex p + 0) = 1 := by omega
        rw [Function.update_self, if_pos rfl, heq, hone]
      · rw [Function.update_of_ne (Ne.symm hμ), if_neg hμ]
        rfl
    | unlock mutex result =>
      -- one lock more than unlocks so far
      have hlt : unlocks mutex p < locks mutex p := by
        have h2 := hafter mutex
        rw [locks_append, unlocks_append, locks_unlock, unlocks_unlock, if_pos rfl] at h2
        omega
      rw [sequentialStep, pthreadMutexUnlock, if_neg (by show ¬ locks mutex p - _ = 0; omega)]
      congr 1
      funext μ
      rw [locks_append, unlocks_append, locks_unlock, unlocks_unlock]
      by_cases hμ : mutex = μ
      · subst hμ
        rw [Function.update_self, if_pos rfl]
        congr 1
      · rw [Function.update_of_ne (Ne.symm hμ), if_neg hμ]
        rfl

end

/-! ## the calls -/

/-- how many calls find room in the linear buffer -/
def mutexRoom : Nat := 65536

structure MutexInv (w : Mutexes) (p : List MutexCall) (m : MutexMach n) : Prop where
  pending : TxPending (fun μ => locks μ p) (fun μ => unlocks μ p) m.txd
  held : ∀ μ, m.world.rest μ = ⟨(w μ).kind, locks μ p⟩
  sizeMax : m.txd.bufferLinear.sizeMax = bufferLinearSize
  curLen : m.txd.bufferLinear.curLen.toNat = 4 * p.length
  room : p.length ≤ mutexRoom

section
variable {p q calls : List MutexCall} {w : Mutexes} {m m' : MutexMach n}

theorem MutexInv.malloc (h : MutexInv w p m) :
    (p.length = mutexRoom ∧ bufferLinearMalloc m.txd.bufferLinear mutexArgsSize = none) ∨
      (p.length < mutexRoom ∧ ∃ r b,
        bufferLinearMalloc m.txd.bufferLinear mutexArgsSize = some (r, b) ∧
        b.sizeMax = bufferLinearSize ∧ b.curLen.toNat = 4 * (p.length + 1)) := by
  have hcur := h.curLen
  have hroom := h.room
  have hsum : (m.txd.bufferLinear.curLen + mutexArgsSize).toNat = 4 * (p.length + 1) := by
    rw [UInt32.toNat_add, hcur]
    show (4 * p.length + 4) % 2 ^ 32 = _
    rw [mutexRoom] at hroom
    omega
  have hsize : bufferLinearSize.toNat = 4 * mutexRoom := rfl
  unfold bufferLinearMalloc
  rw [h.sizeMax]
  rcases Nat.lt_or_eq_of_le hroom with hlt | heq
  · refine .inr ⟨hlt, _, _, if_neg ?_, rfl, hsum⟩
    rw [gt_iff_lt, UInt32.lt_iff_toNat_lt, hsum, hsize]
    omega
  · refine .inl ⟨heq, if_pos ?_⟩
    rw [gt_iff_lt, UInt32.lt_iff_toNat_lt, hsum, hsize]
    omega

/-- **One call**: the process ends, the transaction aborts, or the invariant is kept. -/
theorem MutexInv.step (h : MutexInv w p m) (c : MutexCall) :
    (p.length = mutexRoom ∧ mutexStep m c = .error .internalError) ∨
      (p.length < mutexRoom ∧ Relocks w p c ∧ mutexStep m c = .error (.abort .busytxlock)) ∨
      (p.length < mutexRoom ∧ ¬ Relocks w p c ∧
        ∃ m', mutexStep m c = .ok m' ∧ MutexInv w (p ++ [c]) m') := by
  rcases h.malloc with ⟨hfull, hnone⟩ | ⟨hlt, r, b, hsome, hsize, hcur⟩
  · refine .inl ⟨hfull, ?_⟩
    cases c with
    | lock mutex result => rw [mutexStep, xPthreadMutexLock, hnone]; rfl
    | unlock mutex result => rw [mutexStep, xPthreadMutexUnlock, hnone]; rfl
  · refine .inr ?_
    have hlen : (p ++ [c]).length = p.length + 1 := by rw [List.length_append]; rfl
    cases c with
    | lock mutex result =>
      by_cases hre : Relocks w p (.lock mutex result)
      · -- `pthread_mutex_trylock` finds the mutex busy
        refine .inl ⟨hlt, hre, ?_⟩
        have hbusy : pthreadMutexTrylock (m.world.rest mutex) = (ebusy, m.world.rest mutex) := by
          rw [pthreadMutexTrylock, h.held, if_neg]
          exact fun ho => ho.elim hre.2 hre.1
        rw [mutexStep, xPthreadMutexLock, hsome]
        simp only [hbusy]
        rfl
      · refine .inr ⟨hlt, hre, ?_⟩
        have htaken : pthreadMutexTrylock (m.world.rest mutex)
            = (0, ⟨(w mutex).kind, locks mutex p + 1⟩) := by
          rw [pthreadMutexTrylock, h.held, if_pos]
          by_cases hk : (w mutex).kind = .recursive
          · exact .inr hk
          · exact .inl (not_not.mp fun hne => hre ⟨hk, hne⟩)
        refine ⟨_, by rw [mutexStep, xPthreadMutexLock, hsome]; simp only [htaken]; rfl, ?_⟩
        have hp := (h.pending.buffer b).registerUndo
          (e := ⟨.other (.other (.lockUndo mutex)), result, mutexActionOrder⟩)
          (show (0 : Int32) ≤ mutexActionOrder by decide)
        refine ⟨?_, fun μ => ?_, ?_, ?_, hlen ▸ hlt⟩
        · rw [Mach.store_txd]
          refine hp.congr (fun μ => ?_) fun μ => ?_
          · rw [locks_append, locks_lock, unlocksIn_act]
            rfl
          · rw [unlocks_append, unlocks_lock, Nat.add_zero]
        · rw [Mach.store_world, locks_append, locks_lock]
          show Function.update m.world.rest mutex _ μ = _
          by_cases hμ : mutex = μ
          · subst hμ
            rw [Function.update_self, if_pos rfl]
          · rw [Function.update_of_ne (Ne.symm hμ), if_neg hμ, h.held]
            rfl
        · rw [Mach.store_txd, txRegisterUndoAction_eq]
          exact hsize
        · rw [Mach.store_txd, txRegisterUndoAction_eq, hlen]
          exact hcur
    | unlock mutex result =>
      refine .inr ⟨hlt, (fun hr => hr), _, by rw [mutexStep, xPthreadMutexUnlock, hsome]; rfl, ?_⟩
      have hp := (h.pending.buffer b).registerCommit
        (e := ⟨.other (.other (.unlockCommit mutex)), result, mutexActionOrder⟩)
        (show (0 : Int32) ≤ mutexActionOrder by decide)
      refine ⟨?_, fun μ => ?_, ?_, ?_, hlen ▸ hlt⟩
      · rw [Mach.store_txd]
        refine hp.congr (fun μ => ?_) fun μ => ?_
        · rw [locks_append, locks_unlock, Nat.add_zero]
        · rw [unlocks_append, unlocks_unlock, unlocksIn_act]
          rfl
      · rw [Mach.store_world, locks_append, locks_unlock]
        exact h.held μ
      · rw [Mach.store_txd, txRegisterCommitAction_eq]
        exact hsize
      · rw [Mach.store_txd, txRegisterCommitAction_eq, hlen]
        exact hcur

theorem mutexCalls_append (m : MutexMach n) (p q : List MutexCall) :
    mutexCalls m (p ++ q) = (mutexCalls m p).bind fun m' => mutexCalls m' q := List.foldlM_append

theorem mutexCalls_cons (m : MutexMach n) (c : MutexCall) (q : List MutexCall) :
    mutexCalls m (c :: q) = (mutexStep m c).bind fun m' => mutexCalls m' q := List.foldlM_cons

theorem mutexCalls_run (h : MutexInv w [] m) (hroom : calls.length ≤ mutexRoom) :
    (OnceLocked w calls ∧ ∃ m', mutexCalls m calls = .ok m' ∧ MutexInv w calls m') ∨
      (¬ OnceLocked w calls ∧ mutexCalls m calls = .error (.abort .busytxlock)) := by
  induction calls using List.reverseRecOn with
  | nil => exact .inl ⟨fun μ _ => Nat.zero_le 1, m, rfl, h⟩
  | append_singleton p c ih =>
    rw [List.length_append, List.length_singleton] at hroom
    rw [mutexCalls_append, onceLocked_snoc]
    rcases ih (by omega) with ⟨honce, m', hrun, hinv⟩ | ⟨hmore, hrun⟩
    · rw [hrun]
      show _ ∨ (_ ∧ mutexCalls m' [c] = _)
      rw [mutexCalls_cons]
      rcases hinv.step c with ⟨hfull, _⟩ | ⟨_, hre, hstep⟩ | ⟨_, hre, m'', hstep, hinv'⟩
      · omega
      · exact .inr ⟨fun hc => hc.2 hre, by rw [hstep]; rfl⟩
      · refine .inl ⟨⟨honce, hre⟩, m'', ?_, hinv'⟩
        show mutexCalls m' [c] = _
        rw [mutexCalls_cons, hstep]
        rfl
    · exact .inr ⟨fun hc => hmore hc.1, by rw [hrun]; rfl⟩

/-- behind the calls that find room the process ends -/
theorem MutexInv.behind (h : MutexInv w (calls.take mutexRoom) m) (hlong : mutexRoom < calls.length) :
    mutexCalls m (calls.drop mutexRoom) = .error .internalError := by
  have hlen : (calls.take mutexRoom).length = mutexRoom :=
    List.length_take_of_le (Nat.le_of_lt hlong)
  have hpos : 0 < (calls.drop mutexRoom).length := by
    rw [List.length_drop]
    omega
  obtain ⟨c, q, hq⟩ := List.exists_cons_of_length_pos hpos
  rw [hq, mutexCalls_cons]
  rcases h.step c with ⟨_, hstep⟩ | ⟨hlt, _⟩ | ⟨hlt, _⟩
  · rw [hstep]
    rfl
  · omega
  · omega

/-- calls that have returned have found room, and keep the invariant -/
theorem mutexCalls_ok (h : MutexInv w [] m) (hrun : mutexCalls m calls = .ok m') :
    MutexInv w calls m' := by
  rcases Nat.lt_or_ge mutexRoom calls.length with hlong | hle
  · exfalso
    rw [← List.take_append_drop mutexRoom calls, mutexCalls_append] at hrun
    rcases mutexCalls_run h (List.length_take_le mutexRoom calls) with
      ⟨_, m₁, hrun₁, hinv⟩ | ⟨_, hrun₁⟩
    · rw [hrun₁] at hrun
      cases (hinv.behind hlong).symm.trans hrun
    · rw [hrun₁] at hrun
      cases hrun
  · rcases mutexCalls_run h hle with ⟨_, m₁, hrun₁, hinv⟩ | ⟨_, hrun₁⟩
    · cases hrun₁.symm.trans hrun
      exact hinv
    · cases hrun₁.symm.trans hrun

theorem mutexInv_begin (statistics : Bool) {m₀ : MutexMach n}
    (hfree : ∀ μ, (m₀.world.rest μ).count = 0)
    (hsize : m₀.txd.bufferLinear.sizeMax = bufferLinearSize) (srclocStr : UInt32) (srcloc : SrcLoc) :
    MutexInv m₀.world.rest []
      (txPostBegin statistics (txPreBegin statistics m₀ srclocStr srcloc)) := by
  have hbuf := postBegin_buffer statistics (txPreBegin statistics m₀ srclocStr srcloc)
  refine ⟨txPending_begin statistics m₀ srclocStr srcloc, fun μ => ?_, ?_, ?_, Nat.zero_le _⟩
  · show m₀.world.rest μ = ⟨(m₀.world.rest μ).kind, 0⟩
    rw [← hfree μ]
  · rw [hbuf]
    exact hsize
  · rw [hbuf]
    rfl

end

/-! ## the whole transaction -/

/-- the transaction at `m` is rolled back from `m₁`: by the STM, or because the thread aborts it -/
def RolledBackFrom (m m₁ : MutexMach n) : Prop := m₁ = m ∨ ∃ reason, m₁ = abortMach m reason

theorem MutexInv.rolledBackFrom {w : Mutexes} {p : List MutexCall} {m m₁ : MutexMach n}
    (h : MutexInv w p m) (hm : RolledBackFrom m m₁) :
    TxPending (fun μ => locks μ p) (fun μ => unlocks μ p) m₁.txd ∧
      ∀ μ, m₁.world.rest μ = ⟨(w μ).kind, locks μ p⟩ := by
  rcases hm with rfl | ⟨reason, rfl⟩
  · exact ⟨h.pending, h.held⟩
  · exact ⟨h.pending.abort reason, h.held⟩

/-- the transaction that makes the calls from `m` on -/
structure MutexesSequential
    (sc su : TDesc MutexAct n → List (SentinelEntry (Fin n)) × List (SentinelEntry (Fin n)))
    (m : MutexMach n) (calls : List MutexCall) : Prop where
  /-- no lock is found busy -/
  never_busy : mutexCalls m calls ≠ .error (.abort .busytxlock)
  /-- a commit leaves what the sequential calls leave -/
  commit : ∀ m', mutexCalls m calls = .ok m' →
    ∃ fuel₀ m'', (∀ fuel ≥ fuel₀, commitMach (mutexEnv sc su) fuel m' = some m'') ∧
      run sequentialStep m.world.rest calls = some m''.world.rest
  /-- after a rollback at any point every mutex is free -/
  abort : ∀ p m', p <+: calls → mutexCalls m p = .ok m' → ∀ m₁, RolledBackFrom m' m₁ →
    ∃ fuel₀ m'', (∀ fuel ≥ fuel₀, rollbackMach (mutexEnv sc su) fuel m₁ = some m'') ∧
      ∀ μ, (m''.world.rest μ).count = 0
  /-- no undo action finds its mutex unlocked -/
  undo_held : ∀ p m', p <+: calls → mutexCalls m p = .ok m' → ∀ m₁, RolledBackFrom m' m₁ →
    ∀ fuel o, txGenericUndoAction (mutexEnv sc su).exec fuel m₁ = some o →
      ∀ r ∈ (callAll (mutexEnv sc su).exec o.executed m₁).1, r = 0
  /-- no commit action finds its mutex unlocked -/
  commit_held : ∀ m', mutexCalls m calls = .ok m' →
    ∀ fuel o, txGenericCommitAction (mutexEnv sc su).exec fuel m' = some o →
      ∀ r ∈ (callAll (mutexEnv sc su).exec o.executed m').1, r = 0

/-- **Mutexes in a transaction.**  Calls that lock and unlock each mutex in turn, on mutexes that
are free: the transaction behaves like the sequential calls exactly when no mutex that is not
recursive is locked twice by the calls that find room in the linear buffer. -/
theorem mutexes_sequential_iff
    (sc su : TDesc MutexAct n → List (SentinelEntry (Fin n)) × List (SentinelEntry (Fin n)))
    (statistics : Bool) {m₀ : MutexMach n} (hfree : ∀ μ, (m₀.world.rest μ).count = 0)
    (hsize : m₀.txd.bufferLinear.sizeMax = bufferLinearSize) (srclocStr : UInt32)
    (srcloc : SrcLoc) {calls : List MutexCall} (hb : Bracketed calls) :
    MutexesSequential sc su (txPostBegin statistics (txPreBegin statistics m₀ srclocStr srcloc)) calls
      ↔ OnceLocked m₀.world.rest (calls.take mutexRoom) := by
  have hinv := mutexInv_begin statistics hfree hsize srclocStr srcloc
  generalize txPostBegin statistics (txPreBegin statistics m₀ srclocStr srcloc) = m at hinv
  have hw : m.world.rest = m₀.world.rest := funext fun μ => by
    rw [hinv.held]
    show (⟨(m₀.world.rest μ).kind, 0⟩ : Mutex) = _
    rw [← hfree μ]
  have hlen : (calls.take mutexRoom).length ≤ mutexRoom := List.length_take_le _ _
  have hcalls := List.take_append_drop mutexRoom calls
  constructor
  · intro h
    by_contra hmore
    rcases mutexCalls_run hinv hlen with ⟨honce, _⟩ | ⟨_, hrun⟩
    · exact hmore honce
    · -- the abort ends the calls
      apply h.never_busy
      rw [← hcalls, mutexCalls_append, hrun]
      rfl
  · intro honce
    refine ⟨?_, fun m' hrun => ?_, fun p m' hp hrun m₁ hm₁ => ?_, fun p m' hp hrun m₁ hm₁ => ?_,
      fun m' hrun => ?_⟩
    · rcases mutexCalls_run hinv hlen with ⟨_, m₁, hrun, hinv₁⟩ | ⟨hmore, _⟩
      · rw [← hcalls, mutexCalls_append, hrun]
        show mutexCalls m₁ (calls.drop mutexRoom) ≠ _
        rcases Nat.lt_or_ge mutexRoom calls.length with hlong | hle
        · rw [hinv₁.behind hlong]
          exact fun hc => nomatch hc
        · rw [List.drop_of_length_le hle]
          exact fun hc => nomatch hc
      · exact absurd honce hmore
    · have hinv' := mutexCalls_ok hinv hrun
      obtain ⟨fuel₀, m'', hcommit, hrest⟩ := commit_mutex sc su hinv'.pending
        fun μ => by
          rw [hinv'.held]
          exact (hb calls (List.prefix_refl _) μ).1
      refine ⟨fuel₀, m'', hcommit, ?_⟩
      rw [hw, sequential_run hfree hb]
      refine congrArg some (funext fun μ => ?_)
      rw [hrest, hinv'.held]
    · obtain ⟨hpend, hheld⟩ := (mutexCalls_ok hinv hrun).rolledBackFrom hm₁
      obtain ⟨fuel₀, m'', hroll, hrest⟩ := rollback_mutex sc su hpend
        fun μ => congrArg Mutex.count (hheld μ)
      exact ⟨fuel₀, m'', hroll, fun μ => congrArg Mutex.count (hrest μ)⟩
    · intro fuel o ho
      obtain ⟨hpend, hheld⟩ := (mutexCalls_ok hinv hrun).rolledBackFrom hm₁
      obtain ⟨hord, _⟩ := txGenericUndoAction_of_some (registersNothing_exec (mutexEnv sc su))
        (fun e he => hpend.undo.order e (List.mem_reverse.mp he)) ho
      exact (callAll_list sc su hpend.undo (hord.once.trans (List.reverse_perm _))
        fun μ => Nat.le_of_eq (congrArg Mutex.count (hheld μ)).symm).1
    · intro fuel o ho
      have hinv' := mutexCalls_ok hinv hrun
      obtain ⟨hord, _⟩ := txGenericCommitAction_of_some (registersNothing_exec (mutexEnv sc su))
        hinv'.pending.commit.order ho
      refine (callAll_list sc su hinv'.pending.commit hord.once fun μ => ?_).1
      rw [hinv'.held]
      exact (hb calls (List.prefix_refl _) μ).1

/-- a thread, and mutexes that are free -/
def freeMutexes : MutexMach 1 :=
  ⟨txCreate, fun _ => 0, ⟨0, ⟨0, 0, 0⟩, 0, fun _ => Stat.zero⟩, statsThreadstatCreate,
    fun _ => ⟨.normal, 0⟩⟩

/-- two mutexes, of which one is unlocked -/
theorem mutexes_sequential_iff_two :
    MutexesSequential (fun _ => ([], [])) (fun _ => ([], []))
      (txPostBegin true (txPreBegin true freeMutexes 0 ⟨0, 0, 0⟩))
      [.lock 1 none, .lock 2 (some 0), .unlock 1 none] := by
  have hb : Bracketed [.lock 1 none, .lock 2 (some 0), .unlock 1 none] :=
    ((bracketed_nil.lock rfl none).lock rfl (some 0)).unlock (by decide) none
  refine (mutexes_sequential_iff _ _ true (fun _ => rfl) rfl 0 ⟨0, 0, 0⟩ hb).mpr fun μ _ => ?_
  show locks μ ([.lock 1 none] ++ [.lock 2 (some 0)] ++ [.unlock 1 none]) ≤ 1
  rw [locks_append, locks_append, locks_lock, locks_lock, locks_unlock]
  split
  · rename_i h
    subst h
    decide
  · split <;> decide

/-- a mutex that is locked, unlocked and locked again: the lock is found busy -/
theorem relock_busy :
    Bracketed [.lock 1 none, .unlock 1 none, .lock 1 none] ∧
      mutexCalls (txPostBegin true (txPreBegin true freeMutexes 0 ⟨0, 0, 0⟩))
        [.lock 1 none, .unlock 1 none, .lock 1 none] = .error (.abort .busytxlock) := by
  refine ⟨((bracketed_nil.lock rfl none).unlock (by decide) none).lock rfl none, ?_⟩
  have hfree : ∀ μ, (freeMutexes.world.rest μ).count = 0 := fun _ => rfl
  have hlen : [MutexCall.lock 1 none, .unlock 1 none, .lock 1 none].length ≤ mutexRoom := by decide
  rcases mutexCalls_run (mutexInv_begin true hfree rfl 0 ⟨0, 0, 0⟩) hlen with
    ⟨honce, _⟩ | ⟨_, hrun⟩
  · have hone := honce 1 (by decide)
    exact absurd hone (by decide)
  · exact hrun

end XCalls
