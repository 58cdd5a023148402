import XCalls.Core.Loop

/-!
# The generic commit and undo actions

* `runLoop`                   the loop of `Core.Loop` with its calls;
* `txGenericCommitAction`, `txGenericUndoAction`   `tx.c`, with the failure manager of `fm.c`;
* `runLoop_spec`              the loop ends, has executed all passes, and nothing else;
* `generic_actions_exactly_once`   the two generic actions on any registered lists.

An action is a function of the whole machine and returns the error that it stores in `*result`.
-/

namespace XCalls
open Passes
variable {α S W : Type}

/-- a descriptor, the cells that error pointers point to, and the rest of the world -/
structure Mach (α S W : Type) where
  txd : TxDesc α S
  mem : Nat → Int
  world : W

namespace Mach

/-- `if (p) *p = v` -/
def store (m : Mach α S W) (p : Option Nat) (v : Int) : Mach α S W :=
  match p with
  | none => m
  | some a => { m with mem := fun b => if b = a then v else m.mem b }

@[simp] theorem store_txd (m : Mach α S W) (p : Option Nat) (v : Int) :
    (m.store p v).txd = m.txd := by
  cases p <;> rfl

theorem store_world (m : Mach α S W) (p : Option Nat) (v : Int) :
    (m.store p v).world = m.world := by
  cases p <;> rfl

end Mach

section
variable (exec : α → Mach α S W → Mach α S W × Int)

/-- the call of an entry: its error goes to `*error_result` too -/
def callEntry (e : ActionEntry α) (m : Mach α S W) : Mach α S W × Int :=
  ((exec e.function m).1.store e.errorResult (exec e.function m).2, (exec e.function m).2)

/-- the loop from `l`, with `first_error_result` so far; `none` when the fuel runs out -/
def runLoop (scan : TxDesc α S → List (ActionEntry α)) :
    Nat → Loop α → Int → Mach α S W → Option (Loop α × Int × Mach α S W)
  | 0, _, _, _ => none
  | fuel + 1, l, err, m =>
    match l.next (scan m.txd) with
    | .exit => some (l, err, m)
    | .move l' => runLoop scan fuel l' err m
    | .call e l' =>
      runLoop scan fuel l' (if err = 0 then (callEntry exec e m).2 else err)
        (callEntry exec e m).1

/-! ## the failure manager -/

/-- `txc_fm_handle_commit_failure` -/
def fmHandleCommitFailure (m : Mach α S W) (errorResult : Int) : Mach α S W :=
  m.store m.txd.fmErrorResult errorResult

/-- `txc_fm_handle_undo_failure`; the test of the flags is `fm_flags && TXC_FM_NO_RETRY` -/
def fmHandleUndoFailure (m : Mach α S W) (errorResult : Int) : Mach α S W :=
  let m := if errorResult ≠ 0 then
      let m := m.store m.txd.fmErrorResult errorResult
      if m.txd.fmFlags ≠ 0 then { m with txd := { m.txd with fmAbort := true } } else m
    else m
  { m with txd := { m.txd with fmFlags := 0 } }

/-! ## the generic actions -/

/-- what a generic action has called, the error it hands to the failure manager, and its effect -/
structure Outcome (α S W : Type) where
  executed : List (ActionEntry α)
  handed : Int
  mach : Mach α S W

/-- the undo loop scans the array downwards -/
def undoScan (txd : TxDesc α S) : List (ActionEntry α) := txd.undoActionList.entries.reverse

/-- the commit loop scans the array upwards -/
def commitScan (txd : TxDesc α S) : List (ActionEntry α) := txd.commitActionList.entries

/-- `tx_generic_undo_action` behind its loop -/
def undoTail (m : Mach α S W) (first : Int) : Mach α S W :=
  fmHandleUndoFailure { m with txd := txInit m.txd } first

/-- `tx_generic_commit_action` behind its loop -/
def commitTail (m : Mach α S W) (first : Int) : Mach α S W :=
  fmHandleCommitFailure { m with txd := { txInit m.txd with forcedRetries := 0 } } first

def txGenericUndoAction (fuel : Nat) (m : Mach α S W) : Option (Outcome α S W) :=
  (runLoop exec undoScan fuel Loop.start 0 m).map fun (l, first, m) =>
    ⟨l.executed, first, undoTail m first⟩

def txGenericCommitAction (fuel : Nat) (m : Mach α S W) : Option (Outcome α S W) :=
  (runLoop exec commitScan fuel Loop.start 0 m).map fun (l, first, m) =>
    ⟨l.executed, first, commitTail m first⟩

/-! ## what the loop does -/

/-- the entries called one after the other: the errors and the machine afterwards -/
def callAll : List (ActionEntry α) → Mach α S W → List Int × Mach α S W
  | [], m => ([], m)
  | e :: es, m =>
    ((callEntry exec e m).2 :: (callAll es (callEntry exec e m).1).1,
      (callAll es (callEntry exec e m).1).2)

/-- the first error that is not zero, and zero when there is none -/
def firstError (errs : List Int) : Int := (errs.find? fun r => r ≠ 0).getD 0

/-- the actions register nothing themselves -/
def RegistersNothing : Prop :=
  ∀ a m, (exec a m).1.txd.commitActionList = m.txd.commitActionList ∧
    (exec a m).1.txd.undoActionList = m.txd.undoActionList

theorem callAll_snoc (es : List (ActionEntry α)) (e : ActionEntry α) (m : Mach α S W) :
    callAll exec (es ++ [e]) m
      = ((callAll exec es m).1 ++ [(callEntry exec e (callAll exec es m).2).2],
          (callEntry exec e (callAll exec es m).2).1) := by
  induction es generalizing m with
  | nil => rfl
  | cons e' es ih => rw [List.cons_append, callAll, ih]; rfl

theorem firstError_append (errs : List Int) (r : Int) :
    firstError (errs ++ [r]) = if firstError errs = 0 then r else firstError errs := by
  unfold firstError
  rw [List.find?_append]
  cases h : errs.find? fun r => r ≠ 0 with
  | none =>
    by_cases hr : r = 0 <;> simp [hr]
  | some r' =>
    have hr' : r' ≠ 0 := by simpa using List.find?_some h
    simp [hr']

variable {exec}

theorem callEntry_scan (hexec : RegistersNothing exec) (e : ActionEntry α) (m : Mach α S W) :
    commitScan (callEntry exec e m).1.txd = commitScan m.txd ∧
      undoScan (callEntry exec e m).1.txd = undoScan m.txd := by
  obtain ⟨h1, h2⟩ := hexec e.function m
  unfold callEntry commitScan undoScan
  rw [Mach.store_txd, h1, h2]
  exact ⟨rfl, rfl⟩

/-- **The loop ends.**  From a state of the invariant, with `m` the machine after the entries
executed so far, every fuel above the rank gives the same end: all passes have been made. -/
theorem runLoop_spec {scan : TxDesc α S → List (ActionEntry α)}
    (hscan : ∀ e (m : Mach α S W), scan (callEntry exec e m).1.txd = scan m.txd)
    (m₀ : Mach α S W) (h0 : ∀ e ∈ scan m₀.txd, 0 ≤ e.key) (r : Nat) :
    ∀ (l : Loop α), l.Inv (scan m₀.txd) → l.rank (scan m₀.txd) ≤ r →
      scan (callAll exec l.executed m₀).2.txd = scan m₀.txd →
      ∃ lf : Loop α, lf.Inv (scan m₀.txd) ∧ lf.next (scan m₀.txd) = .exit ∧
        ∀ fuel ≥ r + 1,
          runLoop exec scan fuel l (firstError (callAll exec l.executed m₀).1)
              (callAll exec l.executed m₀).2
            = some (lf, firstError (callAll exec lf.executed m₀).1,
                (callAll exec lf.executed m₀).2) := by
  induction r with
  | zero =>
    intro l hl hr hm
    refine ⟨l, hl, ?_, ?_⟩
    all_goals
      have hx : l.next (scan m₀.txd) = .exit := by
        cases hn : l.next (scan m₀.txd) with
        | exit => rfl
        | move l' => have := Loop.rank_next h0 hl (Or.inl hn); omega
        | call e l' => have := Loop.rank_next h0 hl (Or.inr ⟨e, hn⟩); omega
    · exact hx
    · intro fuel hf
      obtain ⟨f, rfl⟩ : ∃ f, fuel = f + 1 := ⟨fuel - 1, by omega⟩
      simp only [runLoop, hm, hx]
  | succ r ih =>
    intro l hl hr hm
    cases hn : l.next (scan m₀.txd) with
    | exit =>
      refine ⟨l, hl, hn, fun fuel hf => ?_⟩
      obtain ⟨f, rfl⟩ : ∃ f, fuel = f + 1 := ⟨fuel - 1, by omega⟩
      simp only [runLoop, hm, hn]
    | move l' =>
      have hex : l'.executed = l.executed := Loop.executed_move hn
      have hlt := Loop.rank_next h0 hl (Or.inl hn)
      obtain ⟨lf, h1, h2, h3⟩ := ih l' (Loop.inv_move h0 hl hn) (by omega) (by rw [hex]; exact hm)
      refine ⟨lf, h1, h2, fun fuel hf => ?_⟩
      obtain ⟨f, rfl⟩ : ∃ f, fuel = f + 1 := ⟨fuel - 1, by omega⟩
      rw [hex] at h3
      simp only [runLoop, hm, hn]
      exact h3 f (by omega)
    | call e l' =>
      have hex : l'.executed = l.executed ++ [e] := Loop.executed_call hn
      have hlt := Loop.rank_next h0 hl (Or.inr ⟨e, hn⟩)
      have hall := callAll_snoc exec l.executed e m₀
      obtain ⟨lf, h1, h2, h3⟩ := ih l' (Loop.inv_call hl hn) (by omega)
        (by rw [hex, hall, hscan, hm])
      refine ⟨lf, h1, h2, fun fuel hf => ?_⟩
      obtain ⟨f, rfl⟩ : ∃ f, fuel = f + 1 := ⟨fuel - 1, by omega⟩
      simp only [runLoop, hm, hn]
      rw [← h3 f (by omega), hex, hall, firstError_append]

/-- more fuel gives the same -/
theorem runLoop_mono {scan : TxDesc α S → List (ActionEntry α)} {r : Loop α × Int × Mach α S W}
    (fuel : Nat) : ∀ {l : Loop α} {err : Int} {m : Mach α S W},
      runLoop exec scan fuel l err m = some r → ∀ fuel' ≥ fuel,
        runLoop exec scan fuel' l err m = some r := by
  induction fuel with
  | zero =>
    intro l err m h
    cases h
  | succ fuel ih =>
    intro l err m h fuel' hf
    obtain ⟨f, rfl⟩ : ∃ f, fuel' = f + 1 := ⟨fuel' - 1, by omega⟩
    simp only [runLoop] at h ⊢
    split at h
    · exact h
    · exact ih h f (by omega)
    · exact ih h f (by omega)

theorem txGenericCommitAction_mono {fuel fuel' : Nat} {m : Mach α S W} {o : Outcome α S W}
    (h : txGenericCommitAction exec fuel m = some o) (hf : fuel ≤ fuel') :
    txGenericCommitAction exec fuel' m = some o := by
  obtain ⟨r, hr, rfl⟩ := Option.map_eq_some_iff.mp h
  rw [txGenericCommitAction, runLoop_mono fuel hr fuel' hf, Option.map_some]

/-- the order in which a generic action calls the entries of `scan` -/
structure InOrder (scan executed : List (ActionEntry α)) : Prop where
  once : executed.Perm scan
  rising : executed.Pairwise fun a b => a.order ≤ b.order
  stable : ∀ k : Int32, (executed.filter fun e => e.order = k) = scan.filter fun e => e.order = k

theorem inOrder_passes (scan : List (ActionEntry α)) (k : Nat)
    (hk : ∀ e ∈ scan, 0 ≤ e.key ∧ e.key < k) :
    InOrder scan (passes ActionEntry.key scan k) := by
  have hkey : ∀ (e : ActionEntry α) (z : Int32), e.order = z ↔ e.key = z.toInt := fun e z =>
    Int32.toInt_inj.symm
  refine ⟨passes_perm _ _ _ hk, ?_, fun z => ?_⟩
  · refine (passes_pairwise ActionEntry.key scan k).imp fun h => ?_
    exact Int32.le_iff_toInt_le.mpr h
  · simp only [hkey]
    rw [passes_filter]
    split
    · rfl
    · rename_i hz
      symm
      rw [List.filter_eq_nil_iff]
      intro e he h
      have := hk e he
      rw [decide_eq_true_eq] at h
      omega

/-- the loop from its start -/
theorem runLoop_start {scan : TxDesc α S → List (ActionEntry α)}
    (hscan : ∀ e (m : Mach α S W), scan (callEntry exec e m).1.txd = scan m.txd)
    (m : Mach α S W) (h0 : ∀ e ∈ scan m.txd, 0 ≤ e.order) :
    ∃ (fuel₀ : Nat) (lf : Loop α), InOrder (scan m.txd) lf.executed ∧
      ∀ fuel ≥ fuel₀, runLoop exec scan fuel Loop.start 0 m
        = some (lf, firstError (callAll exec lf.executed m).1, (callAll exec lf.executed m).2) := by
  have h0' : ∀ e ∈ scan m.txd, 0 ≤ e.key := fun e he => Int32.le_iff_toInt_le.mp (h0 e he)
  obtain ⟨lf, hinv, hexit, hrun⟩ := runLoop_spec hscan m h0' _ Loop.start (Loop.inv_start _)
    (Nat.le_refl _) rfl
  obtain ⟨k, hex, hk⟩ := Loop.exit_executed hinv hexit
  exact ⟨_, lf, hex ▸ inOrder_passes _ k hk, hrun⟩

end

/-! ## the registered lists -/

/-- a call of `txc_tx_register_commit_action` or of `txc_tx_register_undo_action` -/
inductive Registration (α : Type) where
  | commit (e : ActionEntry α)
  | undo (e : ActionEntry α)

namespace Registration

def entry : Registration α → ActionEntry α
  | commit e => e
  | undo e => e

def commit? : Registration α → Option (ActionEntry α)
  | commit e => some e
  | undo _ => none

def undo? : Registration α → Option (ActionEntry α)
  | commit _ => none
  | undo e => some e

def apply (txd : TxDesc α S) : Registration α → TxDesc α S
  | commit e => txRegisterCommitAction txd e
  | undo e => txRegisterUndoAction txd e

end Registration

theorem entries_foldl_apply (regs : List (Registration α)) (txd : TxDesc α S) :
    (regs.foldl Registration.apply txd).commitActionList.entries
        = txd.commitActionList.entries ++ regs.filterMap Registration.commit? ∧
      (regs.foldl Registration.apply txd).undoActionList.entries
        = txd.undoActionList.entries ++ regs.filterMap Registration.undo? := by
  induction regs generalizing txd with
  | nil => simp
  | cons r regs ih =>
    obtain ⟨h1, h2⟩ := ih (r.apply txd)
    rw [List.foldl_cons, h1, h2]
    cases r with
    | commit e =>
      simp [Registration.apply, Registration.commit?, Registration.undo?,
        txRegisterCommitAction_eq, List.filterMap_cons]
    | undo e =>
      simp [Registration.apply, Registration.commit?, Registration.undo?,
        txRegisterUndoAction_eq, List.filterMap_cons]

/-- both lists are empty and nothing is registered -/
structure Cleared (txd : TxDesc α S) : Prop where
  commits : txd.commitActionList.entries = []
  undos : txd.undoActionList.entries = []
  flags : txd.sentinelmgrUndoActionRegistered = false ∧
    txd.sentinelmgrCommitActionRegistered = false ∧
    txd.statsmgrUndoActionRegistered = false ∧ txd.statsmgrCommitActionRegistered = false ∧
    txd.genericUndoActionRegistered = false ∧ txd.genericCommitActionRegistered = false

theorem cleared_commitTail (m : Mach α S W) (r : Int) : Cleared (commitTail m r).txd := by
  unfold commitTail fmHandleCommitFailure
  rw [Mach.store_txd]
  exact ⟨rfl, rfl, rfl, rfl, rfl, rfl, rfl, rfl⟩

theorem cleared_undoTail (m : Mach α S W) (r : Int) : Cleared (undoTail m r).txd := by
  unfold undoTail fmHandleUndoFailure
  by_cases hr : r = 0
  · simp only [hr, ne_eq, not_true_eq_false, if_false]
    exact ⟨rfl, rfl, rfl, rfl, rfl, rfl, rfl, rfl⟩
  · simp only [hr, ne_eq, not_false_eq_true, if_true, Mach.store_txd]
    split <;> simp only [Mach.store_txd] <;> exact ⟨rfl, rfl, rfl, rfl, rfl, rfl, rfl, rfl⟩

theorem undoTail_world (m : Mach α S W) (r : Int) : (undoTail m r).world = m.world := by
  unfold undoTail fmHandleUndoFailure
  by_cases hr : r = 0
  · simp [hr]
  · simp only [ne_eq, hr, not_false_eq_true, if_true]
    split <;> simp [Mach.store_world]

theorem commitTail_world (m : Mach α S W) (r : Int) : (commitTail m r).world = m.world := by
  unfold commitTail fmHandleCommitFailure
  rw [Mach.store_world]

theorem scan_foldl_apply (regs : List (Registration α)) (txd : TxDesc α S) :
    commitScan (regs.foldl Registration.apply (txInit txd)) = regs.filterMap Registration.commit? ∧
      undoScan (regs.foldl Registration.apply (txInit txd))
        = (regs.filterMap Registration.undo?).reverse := by
  obtain ⟨hc, hu⟩ := entries_foldl_apply regs (txInit txd)
  exact ⟨hc, congrArg List.reverse hu⟩

theorem order_commit {regs : List (Registration α)} (horder : ∀ r ∈ regs, 0 ≤ r.entry.order) :
    ∀ e ∈ regs.filterMap Registration.commit?, 0 ≤ e.order := by
  intro e he
  rw [List.mem_filterMap] at he
  obtain ⟨r, hr, he⟩ := he
  cases r <;> cases he
  exact horder _ hr

theorem order_undo {regs : List (Registration α)} (horder : ∀ r ∈ regs, 0 ≤ r.entry.order) :
    ∀ e ∈ (regs.filterMap Registration.undo?).reverse, 0 ≤ e.order := by
  intro e he
  rw [List.mem_reverse, List.mem_filterMap] at he
  obtain ⟨r, hr, he⟩ := he
  cases r <;> cases he
  exact horder _ hr

section
variable {exec : α → Mach α S W → Mach α S W × Int} (hexec : RegistersNothing exec)
include hexec

/-- `tx_generic_commit_action` returns, and has called its list in order -/
theorem txGenericCommitAction_spec (m : Mach α S W) (h0 : ∀ e ∈ commitScan m.txd, 0 ≤ e.order) :
    ∃ (fuel₀ : Nat) (o : Outcome α S W),
      (∀ fuel ≥ fuel₀, txGenericCommitAction exec fuel m = some o) ∧
      InOrder (commitScan m.txd) o.executed ∧
      o.handed = firstError (callAll exec o.executed m).1 ∧
      o.mach = commitTail (callAll exec o.executed m).2 o.handed := by
  obtain ⟨fuel₀, lf, hord, hrun⟩ := runLoop_start (fun e m => (callEntry_scan hexec e m).1) m h0
  refine ⟨fuel₀, ⟨lf.executed, firstError (callAll exec lf.executed m).1,
    commitTail (callAll exec lf.executed m).2 (firstError (callAll exec lf.executed m).1)⟩,
    fun fuel hf => ?_, hord, rfl, rfl⟩
  rw [txGenericCommitAction, hrun fuel hf, Option.map_some]

/-- `tx_generic_undo_action` returns, and has called its list in order -/
theorem txGenericUndoAction_spec (m : Mach α S W) (h0 : ∀ e ∈ undoScan m.txd, 0 ≤ e.order) :
    ∃ (fuel₀ : Nat) (o : Outcome α S W),
      (∀ fuel ≥ fuel₀, txGenericUndoAction exec fuel m = some o) ∧
      InOrder (undoScan m.txd) o.executed ∧
      o.handed = firstError (callAll exec o.executed m).1 ∧
      o.mach = undoTail (callAll exec o.executed m).2 o.handed := by
  obtain ⟨fuel₀, lf, hord, hrun⟩ := runLoop_start (fun e m => (callEntry_scan hexec e m).2) m h0
  refine ⟨fuel₀, ⟨lf.executed, firstError (callAll exec lf.executed m).1,
    undoTail (callAll exec lf.executed m).2 (firstError (callAll exec lf.executed m).1)⟩,
    fun fuel hf => ?_, hord, rfl, rfl⟩
  rw [txGenericUndoAction, hrun fuel hf, Option.map_some]

/-- what a commit action that has returned has done -/
theorem txGenericCommitAction_of_some {m : Mach α S W}
    (h0 : ∀ e ∈ commitScan m.txd, 0 ≤ e.order) {fuel : Nat} {o : Outcome α S W}
    (h : txGenericCommitAction exec fuel m = some o) :
    InOrder (commitScan m.txd) o.executed ∧ o.handed = firstError (callAll exec o.executed m).1 ∧
      o.mach = commitTail (callAll exec o.executed m).2 o.handed := by
  obtain ⟨fuel₀, o', hrun, hspec⟩ := txGenericCommitAction_spec hexec m h0
  obtain ⟨r, hr, rfl⟩ := Option.map_eq_some_iff.mp h
  have hmax := hrun (max fuel fuel₀) (Nat.le_max_right _ _)
  rw [txGenericCommitAction, runLoop_mono fuel hr _ (Nat.le_max_left _ _), Option.map_some] at hmax
  cases hmax
  exact hspec

/-- what an undo action that has returned has done -/
theorem txGenericUndoAction_of_some {m : Mach α S W}
    (h0 : ∀ e ∈ undoScan m.txd, 0 ≤ e.order) {fuel : Nat} {o : Outcome α S W}
    (h : txGenericUndoAction exec fuel m = some o) :
    InOrder (undoScan m.txd) o.executed ∧ o.handed = firstError (callAll exec o.executed m).1 ∧
      o.mach = undoTail (callAll exec o.executed m).2 o.handed := by
  obtain ⟨fuel₀, o', hrun, hspec⟩ := txGenericUndoAction_spec hexec m h0
  obtain ⟨r, hr, rfl⟩ := Option.map_eq_some_iff.mp h
  have hmax := hrun (max fuel fuel₀) (Nat.le_max_right _ _)
  rw [txGenericUndoAction, runLoop_mono fuel hr _ (Nat.le_max_left _ _), Option.map_some] at hmax
  cases hmax
  exact hspec

end

/-- **Exactly once and in order.**  Whatever an attempt has registered, with orders that are not
negative: each generic action returns, has called every action of its list once, by rising order
and within an order as registered (commit) or in reverse (undo), hands the first error to the
failure manager, and leaves both lists and all flags cleared. -/
theorem generic_actions_exactly_once (exec : α → Mach α S W → Mach α S W × Int)
    (hexec : RegistersNothing exec) (txd : TxDesc α S) (mem : Nat → Int) (world : W)
    (regs : List (Registration α)) (horder : ∀ r ∈ regs, 0 ≤ r.entry.order) :
    let m : Mach α S W := ⟨regs.foldl Registration.apply (txInit txd), mem, world⟩
    (∃ (fuel₀ : Nat) (o : Outcome α S W),
      (∀ fuel ≥ fuel₀, txGenericCommitAction exec fuel m = some o) ∧
      InOrder (regs.filterMap Registration.commit?) o.executed ∧
      o.handed = firstError (callAll exec o.executed m).1 ∧
      o.mach = commitTail (callAll exec o.executed m).2 o.handed ∧
      Cleared o.mach.txd) ∧
    (∃ (fuel₀ : Nat) (o : Outcome α S W),
      (∀ fuel ≥ fuel₀, txGenericUndoAction exec fuel m = some o) ∧
      InOrder (regs.filterMap Registration.undo?).reverse o.executed ∧
      o.handed = firstError (callAll exec o.executed m).1 ∧
      o.mach = undoTail (callAll exec o.executed m).2 o.handed ∧
      Cleared o.mach.txd) := by
  intro m
  obtain ⟨hcs, hus⟩ := scan_foldl_apply regs txd
  refine ⟨?_, ?_⟩
  · obtain ⟨fuel₀, o, hrun, hord, hhanded, hmach⟩ :=
      txGenericCommitAction_spec hexec m (hcs ▸ order_commit horder)
    exact ⟨fuel₀, o, hrun, hcs ▸ hord, hhanded, hmach, hmach ▸ cleared_commitTail _ _⟩
  · obtain ⟨fuel₀, o, hrun, hord, hhanded, hmach⟩ :=
      txGenericUndoAction_spec hexec m (hus ▸ order_undo horder)
    exact ⟨fuel₀, o, hrun, hus ▸ hord, hhanded, hmach, hmach ▸ cleared_undoTail _ _⟩

/-- an action that logs its number in the world, and fails when the number is odd -/
def logAction (a : Nat) (m : Mach Nat Nat (List Nat)) : Mach Nat Nat (List Nat) × Int :=
  ({ m with world := m.world ++ [a] }, if a % 2 = 1 then -a else 0)

/-- orders `2, 0, 2, 0` on the two lists, one error cell -/
def logRegistrations : List (Registration Nat) :=
  [.commit ⟨10, none, 2⟩, .undo ⟨21, some 0, 2⟩, .commit ⟨11, some 0, 0⟩, .undo ⟨22, none, 0⟩,
    .commit ⟨12, none, 2⟩, .undo ⟨23, none, 2⟩, .commit ⟨13, none, 0⟩]

theorem generic_actions_log :
    let m : Mach Nat Nat (List Nat) :=
      ⟨logRegistrations.foldl Registration.apply (txInit txCreate), fun _ => 0, []⟩
    (∃ (fuel₀ : Nat) (o : Outcome Nat Nat (List Nat)),
      (∀ fuel ≥ fuel₀, txGenericCommitAction logAction fuel m = some o) ∧
      InOrder (logRegistrations.filterMap Registration.commit?) o.executed ∧
      o.handed = firstError (callAll logAction o.executed m).1 ∧
      o.mach = commitTail (callAll logAction o.executed m).2 o.handed ∧
      Cleared o.mach.txd) ∧
    (∃ (fuel₀ : Nat) (o : Outcome Nat Nat (List Nat)),
      (∀ fuel ≥ fuel₀, txGenericUndoAction logAction fuel m = some o) ∧
      InOrder (logRegistrations.filterMap Registration.undo?).reverse o.executed ∧
      o.handed = firstError (callAll logAction o.executed m).1 ∧
      o.mach = undoTail (callAll logAction o.executed m).2 o.handed ∧
      Cleared o.mach.txd) :=
  generic_actions_exactly_once logAction (fun _ _ => ⟨rfl, rfl⟩) txCreate (fun _ => 0) []
    logRegistrations (by decide)

end XCalls
