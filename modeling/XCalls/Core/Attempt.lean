import XCalls.Core.Tx
import XCalls.Core.Stats
import XCalls.Lib.EventSys

/-!
# The attempts of one thread

A thread runs transactions one after the other, each in any number of attempts:

    outside → begun → running → outside        (commit, or user abort)
                ↑        ↓
                └────────┘                     (any other rollback)

* `Env`, `exec`     the actions: the two of the sentinel manager and those of the calls are open,
                    those of the statistics manager are the ones of `Core.Stats`;
* `Thread`          the machine of the thread, and what its history is remembered by: the last
                    `_TXC_fm_register` and the increments of the attempt, the location of the
                    transaction, and the transactions committed so far with their counters;
* `ThreadEvent`, `threadStep`   what may happen; `none` when it cannot;
* `txPreBegin`, `txPostBegin`   `txc_tx_pre_begin` and `txc_tx_post_begin`.

Of the STM: it runs the generic action of an attempt that ends, if it was registered in the
attempt, forgets both afterwards, and enters `txc_tx_post_begin` again after a rollback that is not
a user abort.
-/

set_option linter.unusedSectionVars false

namespace XCalls
open EventSys

/-! ## the machine -/

/-- the statistics of the thread and the rest of the world -/
structure Local (W : Type) where
  txstat : TxStat
  threadstat : ThreadStat
  rest : W

abbrev TAct (α : Type) := ActOf (StatActOf α)
abbrev TDesc (α : Type) (n : Nat) := TxDesc (TAct α) (Fin n)
abbrev TMach (α : Type) (n : Nat) (W : Type) := Mach (TAct α) (Fin n) (Local W)

/-- what the actions of the sentinel manager make of the two sentinel lists and of the world, and
what the actions of the calls do to memory and to the world, with the error they report -/
structure Env (α : Type) (n : Nat) (W : Type) where
  sentinelmgrCommit : TDesc α n → W →
    List (SentinelEntry (Fin n)) × List (SentinelEntry (Fin n)) × W
  sentinelmgrUndo : TDesc α n → W →
    List (SentinelEntry (Fin n)) × List (SentinelEntry (Fin n)) × W
  other : α → (Nat → Int) → W → (Nat → Int) × W × Int

section
variable {α W : Type} {n : Nat} (env : Env α n W) (statistics : Bool)

def withSentinels (m : TMach α n W)
    (r : List (SentinelEntry (Fin n)) × List (SentinelEntry (Fin n)) × W) : TMach α n W :=
  { m with
    txd := { m.txd with
      sentinelList := r.1
      sentinelListPreacquire := r.2.1
      sentinelmgrUndoActionRegistered := false
      sentinelmgrCommitActionRegistered := false }
    world := { m.world with rest := r.2.2 } }

def Env.exec : TAct α → TMach α n W → TMach α n W × Int
  | .sentinelmgrCommit, m => (withSentinels m (env.sentinelmgrCommit m.txd m.world.rest), 0)
  | .sentinelmgrUndo, m => (withSentinels m (env.sentinelmgrUndo m.txd m.world.rest), 0)
  | .other .statsmgrCommit, m =>
    ({ m with world := { m.world with
        threadstat := statsmgrCommitAction m.world.txstat m.world.threadstat } }, 0)
  | .other .statsmgrUndo, m =>
    ({ m with world := { m.world with txstat := statsmgrUndoAction m.world.txstat } }, 0)
  | .other (.other a), m =>
    let r := env.other a m.mem m.world.rest
    ({ m with mem := r.1, world := { m.world with rest := r.2.1 } }, r.2.2)

def Mach.forget (m : TMach α n W) : TMach α n W :=
  { m with txd := { m.txd with itmUndo := false, itmCommit := false } }

def rollbackMach (fuel : Nat) (m : TMach α n W) : Option (TMach α n W) :=
  if m.txd.itmUndo then (txGenericUndoAction env.exec fuel m).map fun o => o.mach.forget
  else some m.forget

def commitMach (fuel : Nat) (m : TMach α n W) : Option (TMach α n W) :=
  if m.txd.itmCommit then (txGenericCommitAction env.exec fuel m).map fun o => o.mach.forget
  else some m.forget

/-- `tmsystem_abort_transaction` -/
def abortMach (m : TMach α n W) (reason : AbortReason) : TMach α n W :=
  { m with txd := tmsystemAbortTransaction m.txd reason }

/-- `txc_tx_pre_begin` of an outermost transaction -/
def txPreBegin (m : TMach α n W) (srclocStr : UInt32) (srcloc : SrcLoc) : TMach α n W :=
  { m with
    txd := { fmInit (txInit m.txd) with forcedRetries := 0 }
    world := { m.world with
      txstat := if statistics then statsTxstatInit m.world.txstat srclocStr srcloc
        else m.world.txstat } }

/-- `txc_tx_post_begin` up to `txc_fm_transaction_postbegin` -/
def txPostBegin (m : TMach α n W) : TMach α n W :=
  { m with txd := statsTransactionPostbegin statistics (sentinelTransactionPostbegin m.txd) }

/-! ## the thread -/

inductive TPhase where
  | outside
  | begun
  | running
  deriving DecidableEq, Repr

structure Thread (α : Type) (n : Nat) (W : Type) where
  mach : TMach α n W
  phase : TPhase
  registered : Option (Int × Option Nat)
  location : UInt32
  counters : StatEntry → UInt32
  commits : List (UInt32 × (StatEntry → UInt32))

inductive ThreadEvent (α : Type) (n : Nat) (W : Type) where
  | preBegin (srclocStr : UInt32) (srcloc : SrcLoc)
  | postBegin (fuel : Nat)
  | innerBegin (fuel : Nat)
  | fmRegister (flags : Int) (errorResult : Option Nat)
  | registerCommit (a : α) (errorResult : Option Nat) (order : Int32)
  | registerUndo (a : α) (errorResult : Option Nat) (order : Int32)
  | enlist (e : SentinelEntry (Fin n))
  | increment (entry : StatEntry) (val : UInt32)
  | user (mem : Nat → Int) (rest : W)
  | abort (reason : AbortReason) (fuel : Nat)
  | conflict (fuel : Nat)
  | commit (fuel : Nat)

def phaseAfter : AbortReason → TPhase
  | .userabort => .outside
  | _ => .begun

def Thread.rollback (x : Thread α n W) (m : TMach α n W) (fuel : Nat) : Option (Thread α n W) :=
  (rollbackMach env fuel m).map fun m' =>
    { x with mach := m', phase := phaseAfter m.txd.abortReason, registered := none,
             counters := fun _ => 0 }

/-- `txc_fm_transaction_postbegin`, and the attempt runs if it is not aborted -/
def Thread.postBegin (x : Thread α n W) (fuel : Nat) : Option (Thread α n W) :=
  let m := txPostBegin statistics x.mach
  if m.txd.fmAbort then x.rollback env (abortMach m .userabort) fuel
  else some { x with mach := m, phase := .running }

def Thread.setTxd (x : Thread α n W) (txd : TDesc α n) : Thread α n W :=
  { x with mach := { x.mach with txd } }

/-- `txc_stats_txstat_increment`, also outside of a transaction -/
def Thread.increment (x : Thread α n W) (entry : StatEntry) (val : UInt32) : Thread α n W :=
  if statistics then
    { x with
      mach := { x.mach with world := { x.mach.world with
        txstat := statsTxstatIncrement x.mach.world.txstat entry val } }
      counters := Function.update x.counters entry (x.counters entry + val) }
  else x

def threadStep (x : Thread α n W) : ThreadEvent α n W → Option (Thread α n W)
  | .preBegin srclocStr srcloc =>
    if x.phase = .outside then some
      { x with mach := txPreBegin statistics x.mach srclocStr srcloc, phase := .begun,
               registered := none, location := srclocStr, counters := fun _ => 0 }
    else none
  | .postBegin fuel => if x.phase = .begun then x.postBegin env statistics fuel else none
  | .innerBegin fuel => if x.phase = .running then x.postBegin env statistics fuel else none
  | .fmRegister flags errorResult =>
    if x.phase = .running then some
      { x.setTxd { x.mach.txd with fmFlags := flags, fmErrorResult := errorResult } with
        registered := some (flags, errorResult) }
    else none
  | .registerCommit a errorResult order =>
    if x.phase = .running ∧ 0 ≤ order then
      some (x.setTxd (txRegisterCommitAction x.mach.txd ⟨.other (.other a), errorResult, order⟩))
    else none
  | .registerUndo a errorResult order =>
    if x.phase = .running ∧ 0 ≤ order then
      some (x.setTxd (txRegisterUndoAction x.mach.txd ⟨.other (.other a), errorResult, order⟩))
    else none
  | .enlist e =>
    if x.phase = .running then
      let txd := registerSentinelmgrUndoAction (registerSentinelmgrCommitAction x.mach.txd)
      some (x.setTxd { txd with sentinelList := txd.sentinelList ++ [e] })
    else none
  | .increment entry val =>
    if x.phase = .begun then none else some (x.increment statistics entry val)
  | .user mem rest =>
    if x.phase = .running then
      some { x with mach := { x.mach with mem, world := { x.mach.world with rest } } }
    else none
  | .abort reason fuel =>
    if x.phase = .running then x.rollback env (abortMach x.mach reason) fuel else none
  | .conflict fuel => if x.phase = .running then x.rollback env x.mach fuel else none
  | .commit fuel =>
    if x.phase = .running then (commitMach env fuel x.mach).map fun m =>
      { x with mach := m, phase := .outside, registered := none, counters := fun _ => 0,
               commits := x.commits ++ [(x.location, x.counters)] }
    else none

/-- the thread after `txc_tx_create`, with whatever is in the memory of its counters -/
def threadInit (txstat : TxStat) (mem : Nat → Int) (rest : W) : Thread α n W :=
  { mach := ⟨txCreate, mem, txstat, statsThreadstatCreate, rest⟩
    phase := .outside
    registered := none
    location := 0
    counters := fun _ => 0
    commits := [] }

/-! ## what the actions leave alone -/

/-- the two descriptors differ in the sentinel lists and in the sentinel manager's flags only -/
def SentinelsOnly (txd txd' : TDesc α n) : Prop :=
  ∃ sl pre u c, txd' =
    { txd with
      sentinelList := sl
      sentinelListPreacquire := pre
      sentinelmgrUndoActionRegistered := u
      sentinelmgrCommitActionRegistered := c }

theorem SentinelsOnly.refl (txd : TDesc α n) : SentinelsOnly txd txd := ⟨_, _, _, _, rfl⟩

theorem SentinelsOnly.trans {a b c : TDesc α n} (h : SentinelsOnly a b) (h' : SentinelsOnly b c) :
    SentinelsOnly a c := by
  obtain ⟨_, _, _, _, rfl⟩ := h
  obtain ⟨_, _, _, _, rfl⟩ := h'
  exact ⟨_, _, _, _, rfl⟩

theorem exec_txd (a : TAct α) (m : TMach α n W) : SentinelsOnly m.txd (env.exec a m).1.txd := by
  cases a with
  | sentinelmgrCommit => exact ⟨_, _, _, _, rfl⟩
  | sentinelmgrUndo => exact ⟨_, _, _, _, rfl⟩
  | other a => cases a <;> exact .refl _

theorem registersNothing_exec : RegistersNothing env.exec := by
  intro a m
  obtain ⟨_, _, _, _, h⟩ := exec_txd env a m
  rw [h]
  exact ⟨rfl, rfl⟩

theorem callEntry_txd (e : ActionEntry (TAct α)) (m : TMach α n W) :
    SentinelsOnly m.txd (callEntry env.exec e m).1.txd := by
  unfold callEntry
  rw [Mach.store_txd]
  exact exec_txd env e.function m

theorem callAll_txd (es : List (ActionEntry (TAct α))) (m : TMach α n W) :
    SentinelsOnly m.txd (callAll env.exec es m).2.txd := by
  induction es generalizing m with
  | nil => exact .refl _
  | cons e es ih => exact (callEntry_txd env e m).trans (ih _)

/-! ## actions of the two managers -/

def Internal (e : ActionEntry (TAct α)) : Prop :=
  e.errorResult = none ∧ ∀ a, e.function ≠ .other (.other a)

theorem Internal.callEntry {e : ActionEntry (TAct α)} (h : Internal e) (m : TMach α n W) :
    (callEntry env.exec e m).2 = 0 ∧ (callEntry env.exec e m).1.mem = m.mem := by
  obtain ⟨he, hf⟩ := h
  unfold XCalls.callEntry
  rw [he]
  cases hfun : e.function with
  | sentinelmgrCommit => exact ⟨rfl, rfl⟩
  | sentinelmgrUndo => exact ⟨rfl, rfl⟩
  | other a =>
    cases a with
    | statsmgrCommit => exact ⟨rfl, rfl⟩
    | statsmgrUndo => exact ⟨rfl, rfl⟩
    | other a => exact absurd hfun (hf a)

theorem callAll_internal {es : List (ActionEntry (TAct α))} (h : ∀ e ∈ es, Internal e)
    (m : TMach α n W) :
    (∀ r ∈ (callAll env.exec es m).1, r = 0) ∧ (callAll env.exec es m).2.mem = m.mem := by
  induction es generalizing m with
  | nil => exact ⟨(fun r hr => by cases hr), rfl⟩
  | cons e es ih =>
    obtain ⟨h1, h2⟩ := (h e List.mem_cons_self).callEntry env m
    obtain ⟨h3, h4⟩ := ih (fun x hx => h x (List.mem_cons_of_mem _ hx)) (callEntry env.exec e m).1
    refine ⟨fun r hr => ?_, h4.trans h2⟩
    rcases List.mem_cons.mp hr with rfl | hr
    · exact h1
    · exact h3 r hr

theorem firstError_eq_zero {errs : List Int} : firstError errs = 0 ↔ ∀ r ∈ errs, r = 0 := by
  unfold firstError
  cases h : errs.find? fun r => r ≠ 0 with
  | none =>
    rw [List.find?_eq_none] at h
    simpa using h
  | some r =>
    have hr : r ≠ 0 := by simpa using List.find?_some h
    constructor
    · exact fun h0 => absurd h0 hr
    · exact fun h0 => absurd (h0 r (List.mem_of_find?_eq_some h)) hr

/-! ## rollbacks -/

/-- a rollback that has returned: nothing was registered, or the undo actions have been called in
their order and the failure manager has been told -/
theorem rollbackMach_some {fuel : Nat} {m m' : TMach α n W}
    (h0 : ∀ e ∈ m.txd.undoActionList.entries, 0 ≤ e.order)
    (h : rollbackMach env fuel m = some m') :
    (m.txd.itmUndo = false ∧ m' = m.forget) ∨
      (m.txd.itmUndo = true ∧ ∃ o, txGenericUndoAction env.exec fuel m = some o ∧
        InOrder (undoScan m.txd) o.executed ∧
        m' = (undoTail (callAll env.exec o.executed m).2
          (firstError (callAll env.exec o.executed m).1)).forget) := by
  unfold rollbackMach at h
  split at h
  · rename_i hitm
    obtain ⟨o, ho, rfl⟩ := Option.map_eq_some_iff.mp h
    have h0' : ∀ e ∈ undoScan m.txd, 0 ≤ e.order := fun e he => h0 e (List.mem_reverse.mp he)
    obtain ⟨h1, h2, h3⟩ := txGenericUndoAction_of_some (registersNothing_exec env) h0' ho
    exact .inr ⟨hitm, o, ho, h1, by rw [h3, h2]⟩
  · rename_i hitm
    cases h
    exact .inl ⟨by simpa using hitm, rfl⟩

theorem rollbackMach_returns {m : TMach α n W}
    (h0 : ∀ e ∈ m.txd.undoActionList.entries, 0 ≤ e.order) :
    ∃ fuel₀ m', ∀ fuel ≥ fuel₀, rollbackMach env fuel m = some m' := by
  have h0' : ∀ e ∈ undoScan m.txd, 0 ≤ e.order := fun e he => h0 e (List.mem_reverse.mp he)
  obtain ⟨fuel₀, o, hrun, _⟩ := txGenericUndoAction_spec (registersNothing_exec env) m h0'
  unfold rollbackMach
  by_cases hitm : m.txd.itmUndo = true
  · refine ⟨fuel₀, o.mach.forget, fun fuel hf => ?_⟩
    rw [if_pos hitm, hrun fuel hf, Option.map_some]
  · refine ⟨0, m.forget, fun fuel _ => ?_⟩
    rw [if_neg hitm]

end

end XCalls
