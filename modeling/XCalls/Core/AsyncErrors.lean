import XCalls.Core.Tx

/-!
# What a generic action leaves in the error locations

Every action of a list may be given a location for its error (`error_result`), and several actions
may be given the same one.  A generic action stores the outcome of every action that it calls, so a
location shows the outcome of the action that is called last.

* `Outcomes`        the actions with the errors they report;
* `lastGiven`       of the actions that are given a location, the one that is called last;
* `Reports`         a failure shows at its location, and without failures the location shows 0;
* `Unmasked`        the condition on the registered actions;
* `failures_reported`   the generic actions report exactly under the condition;
* `failure_masked`  a failure that a later success of the same location overwrites.
-/

namespace XCalls
variable {α S W : Type}

/-- the action `a` reports `err a`, and leaves the error locations, the lists and the failure
manager alone -/
structure Outcomes (exec : α → Mach α S W → Mach α S W × Int) (err : α → Int) : Prop where
  registers : RegistersNothing exec
  fm : ∀ a m, (exec a m).1.txd.fmErrorResult = m.txd.fmErrorResult
  mem : ∀ a m, (exec a m).1.mem = m.mem
  reports : ∀ a m, (exec a m).2 = err a

/-- the action of the highest order that is given `p`, and of these the last one of the scan -/
def lastGiven (p : Nat) (scan : List (ActionEntry α)) : Option (ActionEntry α) :=
  scan.foldl
    (fun l e => if e.errorResult = some p ∧ ∀ x ∈ l, x.order ≤ e.order then some e else l) none

/-- failures show, and only failures show -/
def Reports (err : α → Int) (l : List (ActionEntry α)) (mem : Nat → Int) : Prop :=
  ∀ p, (∃ e ∈ l, e.errorResult = some p) →
    ((∃ e ∈ l, e.errorResult = some p ∧ err e.function ≠ 0) → mem p ≠ 0) ∧
    ((∀ e ∈ l, e.errorResult = some p → err e.function = 0) → mem p = 0)

/-- where an action fails, the action that is called last of those given its location fails -/
def Unmasked (err : α → Int) (scan : List (ActionEntry α)) : Prop :=
  ∀ e ∈ scan, err e.function ≠ 0 → ∀ p, e.errorResult = some p →
    ∃ x, lastGiven p scan = some x ∧ err x.function ≠ 0

/-! ## the action that is called last -/

section
variable {p : Nat}

def given (p : Nat) (e : ActionEntry α) : Bool := e.errorResult = some p

theorem given_iff {e : ActionEntry α} : given p e = true ↔ e.errorResult = some p := by
  unfold given
  rw [decide_eq_true_eq]

theorem lastGiven_snoc (l : List (ActionEntry α)) (e : ActionEntry α) :
    lastGiven p (l ++ [e])
      = if e.errorResult = some p ∧ ∀ x ∈ lastGiven p l, x.order ≤ e.order then some e
        else lastGiven p l := by
  unfold lastGiven
  rw [List.foldl_append]
  rfl

structure IsLast (p : Nat) (l : List (ActionEntry α)) (x : ActionEntry α) : Prop where
  highest : ∀ e ∈ l, e.errorResult = some p → e.order ≤ x.order
  last : ((l.filter (given p)).filter fun e => e.order = x.order).getLast? = some x

theorem lastGiven_none {l : List (ActionEntry α)} (h : lastGiven p l = none) :
    l.filter (given p) = [] := by
  induction l using List.reverseRecOn with
  | nil => rfl
  | append_singleton l e ih =>
    rw [lastGiven_snoc] at h
    split at h
    · cases h
    · rename_i hc
      rw [List.filter_append, ih h, List.nil_append, List.filter_eq_nil_iff]
      intro x hx hg
      rw [List.mem_singleton] at hx
      subst hx
      refine hc ⟨given_iff.mp hg, fun y hy => ?_⟩
      rw [h] at hy
      cases hy

theorem lastGiven_some {l : List (ActionEntry α)} {x : ActionEntry α}
    (h : lastGiven p l = some x) : IsLast p l x := by
  induction l using List.reverseRecOn generalizing x with
  | nil => cases h
  | append_singleton l e ih =>
    rw [lastGiven_snoc] at h
    split at h
    · -- the new action is given `p` and has no smaller order
      rename_i hc
      cases h
      refine ⟨fun y hy hg => ?_, ?_⟩
      · rcases List.mem_append.mp hy with hy | hy
        · cases hl : lastGiven p l with
          | none =>
            have hmem : y ∈ l.filter (given p) := List.mem_filter.mpr ⟨hy, given_iff.mpr hg⟩
            rw [lastGiven_none hl] at hmem
            cases hmem
          | some z =>
            have h1 := (ih hl).highest y hy hg
            have h2 := hc.2 z (by rw [hl]; rfl)
            exact Int32.le_trans h1 h2
        · rw [List.mem_singleton.mp hy]
          exact Int32.le_refl _
      · rw [List.filter_append, List.filter_cons_of_pos (given_iff.mpr hc.1), List.filter_append,
          List.filter_cons_of_pos (by simp)]
        simp
    · -- it is not given `p`, or its order is smaller
      rename_i hc
      have hx := ih h
      have hnot : e.errorResult = some p → e.order < x.order := by
        intro hg
        by_contra hlt
        refine hc ⟨hg, fun y hy => ?_⟩
        rw [h, Option.mem_def, Option.some.injEq] at hy
        subst hy
        exact Int32.not_lt.mp hlt
      refine ⟨fun y hy hg => ?_, ?_⟩
      · rcases List.mem_append.mp hy with hy | hy
        · exact hx.highest y hy hg
        · rw [List.mem_singleton.mp hy] at hg ⊢
          exact Int32.le_of_lt (hnot hg)
      · have hdrop : (([e].filter (given p)).filter fun y => y.order = x.order) = [] := by
          rw [List.filter_eq_nil_iff]
          intro y hy ho
          obtain ⟨hy, hg⟩ := List.mem_filter.mp hy
          rw [List.mem_singleton] at hy
          subst hy
          have hlt := hnot (given_iff.mp hg)
          rw [of_decide_eq_true ho] at hlt
          exact Int32.lt_irrefl hlt
        rw [List.filter_append, List.filter_append, hdrop, List.append_nil]
        exact hx.last

/-- the actions given `p`, in the order of a generic action, end with `lastGiven` -/
theorem InOrder.getLast_given {scan executed : List (ActionEntry α)}
    (h : InOrder scan executed) (p : Nat) :
    (executed.filter (given p)).getLast? = lastGiven p scan := by
  cases hl : lastGiven p scan with
  | none =>
    have hnil := lastGiven_none hl
    have hperm := h.once.filter (given p)
    rw [hnil] at hperm
    rw [hperm.eq_nil]
    rfl
  | some x =>
    have hx := lastGiven_some hl
    have hxs : x ∈ scan.filter (given p) :=
      (List.mem_filter.mp (List.mem_of_getLast? hx.last)).1
    have hsame : ((executed.filter (given p)).filter fun e => e.order = x.order)
        = (scan.filter (given p)).filter fun e => e.order = x.order := by
      rw [List.filter_comm, h.stable, List.filter_comm]
    -- the last one of the execution has the order of `x`: not less as the order rises, not more
    -- as `x` is of the highest order
    obtain ⟨y, hy⟩ : ∃ y, (executed.filter (given p)).getLast? = some y := by
      rw [← Option.isSome_iff_exists, List.getLast?_isSome]
      intro hnil
      have hmem : x ∈ executed.filter (given p) := (h.once.filter (given p)).mem_iff.mpr hxs
      rw [hnil] at hmem
      cases hmem
    obtain ⟨init, hinit⟩ := List.getLast?_eq_some_iff.mp hy
    have hys : y ∈ scan.filter (given p) :=
      (h.once.filter (given p)).mem_iff.mp (List.mem_of_getLast? hy)
    have hle : y.order ≤ x.order := by
      obtain ⟨hmem, hg⟩ := List.mem_filter.mp hys
      exact hx.highest y hmem (given_iff.mp hg)
    have hge : x.order ≤ y.order := by
      have hmem : x ∈ init ++ [y] := hinit ▸ (h.once.filter (given p)).mem_iff.mpr hxs
      have hrise : (init ++ [y]).Pairwise fun a b => a.order ≤ b.order :=
        hinit ▸ h.rising.filter _
      rcases List.mem_append.mp hmem with hm | hm
      · exact (List.pairwise_append.mp hrise).2.2 x hm y (List.mem_singleton.mpr rfl)
      · rw [List.mem_singleton.mp hm]
        exact Int32.le_refl _
    have ho : y.order = x.order := Int32.le_antisymm hle hge
    have hlast : ((executed.filter (given p)).filter fun e => e.order = x.order).getLast?
        = some y := by
      rw [hinit, List.filter_append, List.filter_cons_of_pos (by simpa using ho)]
      simp
    rw [hsame, hx.last] at hlast
    rw [hy, hlast]

end

/-! ## the locations after a list of calls -/

section
variable {exec : α → Mach α S W → Mach α S W × Int} {err : α → Int} (hexec : Outcomes exec err)
include hexec

theorem callEntry_mem (e : ActionEntry α) (m : Mach α S W) (p : Nat) :
    (callEntry exec e m).1.mem p = if given p e then err e.function else m.mem p := by
  have hm : (exec e.function m).1.mem p = m.mem p := by rw [hexec.mem]
  unfold callEntry given
  rw [hexec.reports]
  cases he : e.errorResult with
  | none => simpa [Mach.store] using hm
  | some a =>
    by_cases hap : p = a
    · simp [Mach.store, hap]
    · have hne : a ≠ p := fun h => hap h.symm
      simpa [Mach.store, hap, hne] using hm

theorem callEntry_fm (e : ActionEntry α) (m : Mach α S W) :
    (callEntry exec e m).1.txd.fmErrorResult = m.txd.fmErrorResult := by
  unfold callEntry
  rw [Mach.store_txd, hexec.fm]

theorem callAll_fm (es : List (ActionEntry α)) (m : Mach α S W) :
    (callAll exec es m).2.txd.fmErrorResult = m.txd.fmErrorResult := by
  induction es generalizing m with
  | nil => rfl
  | cons e es ih =>
    show (callAll exec es (callEntry exec e m).1).2.txd.fmErrorResult = _
    rw [ih, callEntry_fm hexec]

theorem callAll_mem (es : List (ActionEntry α)) (m : Mach α S W) (p : Nat) :
    (callAll exec es m).2.mem p
      = (((es.filter (given p)).getLast?).map fun e => err e.function).getD (m.mem p) := by
  induction es using List.reverseRecOn with
  | nil => rfl
  | append_singleton es e ih =>
    rw [callAll_snoc, List.filter_append]
    show (callEntry exec e (callAll exec es m).2).1.mem p = _
    rw [callEntry_mem hexec, ih]
    cases hg : given p e with
    | false => simp [hg]
    | true => simp [hg]

end

theorem fm_foldl_apply (regs : List (Registration α)) (txd : TxDesc α S) :
    (regs.foldl Registration.apply txd).fmErrorResult = txd.fmErrorResult := by
  induction regs generalizing txd with
  | nil => rfl
  | cons r regs ih =>
    rw [List.foldl_cons, ih]
    cases r with
    | commit e => rw [Registration.apply, txRegisterCommitAction_eq]
    | undo e => rw [Registration.apply, txRegisterUndoAction_eq]

/-- without a pointer the failure manager stores nothing -/
theorem commitTail_mem {m : Mach α S W} (h : m.txd.fmErrorResult = none) (r : Int) :
    (commitTail m r).mem = m.mem := by
  show (Mach.store _ m.txd.fmErrorResult r).mem = m.mem
  rw [h]
  rfl

theorem undoTail_mem {m : Mach α S W} (h : m.txd.fmErrorResult = none) (r : Int) :
    (undoTail m r).mem = m.mem := by
  unfold undoTail fmHandleUndoFailure
  have h' : (txInit m.txd).fmErrorResult = none := h
  by_cases hr : r = 0
  · simp [hr]
  · simp only [ne_eq, hr, not_false_eq_true, if_true, h', Mach.store]
    split <;> rfl

/-- what a location shows, against what `Reports` asks -/
theorem reports_iff {err : α → Int} {l scan : List (ActionEntry α)} (hl : ∀ e, e ∈ l ↔ e ∈ scan)
    (mem₀ : Nat → Int) {mem : Nat → Int}
    (hmem : ∀ p, mem p = ((lastGiven p scan).map fun e => err e.function).getD (mem₀ p)) :
    Reports err l mem ↔ Unmasked err scan := by
  constructor
  · intro h e he hf p hp
    have hne := (h p ⟨e, (hl e).mpr he, hp⟩).1 ⟨e, (hl e).mpr he, hp, hf⟩
    cases hlast : lastGiven p scan with
    | none =>
      have hin : e ∈ scan.filter (given p) := List.mem_filter.mpr ⟨he, given_iff.mpr hp⟩
      rw [lastGiven_none hlast] at hin
      cases hin
    | some x =>
      rw [hmem, hlast] at hne
      exact ⟨x, rfl, hne⟩
  · intro h p hp
    obtain ⟨e, he, hep⟩ := hp
    refine ⟨fun hfail => ?_, fun hgood => ?_⟩
    · obtain ⟨x, hx, hxp, hxf⟩ := hfail
      obtain ⟨y, hy, hyf⟩ := h x ((hl x).mp hx) hxf p hxp
      rw [hmem, hy]
      exact hyf
    · cases hlast : lastGiven p scan with
      | none =>
        have hin : e ∈ scan.filter (given p) :=
          List.mem_filter.mpr ⟨(hl e).mp he, given_iff.mpr hep⟩
        rw [lastGiven_none hlast] at hin
        cases hin
      | some x =>
        obtain ⟨hx, _⟩ := List.mem_filter.mp (List.mem_of_getLast? (lastGiven_some hlast).last)
        obtain ⟨hx, hg⟩ := List.mem_filter.mp hx
        rw [hmem, hlast]
        exact hgood x ((hl x).mpr hx) (given_iff.mp hg)

/-- **Failures of commit and undo actions are reported exactly when no later success of the same
location overwrites them.**  Whatever an attempt has registered, with whatever locations and
whichever actions fail, and without a pointer of the failure manager. -/
theorem failures_reported (exec : α → Mach α S W → Mach α S W × Int) (err : α → Int)
    (hexec : Outcomes exec err) (txd : TxDesc α S) (hfm : txd.fmErrorResult = none)
    (mem : Nat → Int) (world : W) (regs : List (Registration α))
    (horder : ∀ r ∈ regs, 0 ≤ r.entry.order) :
    let m : Mach α S W := ⟨regs.foldl Registration.apply (txInit txd), mem, world⟩
    (∃ (fuel₀ : Nat) (o : Outcome α S W),
      (∀ fuel ≥ fuel₀, txGenericCommitAction exec fuel m = some o) ∧
      (Reports err (regs.filterMap Registration.commit?) o.mach.mem ↔
        Unmasked err (regs.filterMap Registration.commit?))) ∧
    (∃ (fuel₀ : Nat) (o : Outcome α S W),
      (∀ fuel ≥ fuel₀, txGenericUndoAction exec fuel m = some o) ∧
      (Reports err (regs.filterMap Registration.undo?) o.mach.mem ↔
        Unmasked err (regs.filterMap Registration.undo?).reverse)) := by
  intro m
  obtain ⟨hcs, hus⟩ := scan_foldl_apply regs txd
  have hnone : ∀ es, (callAll exec es m).2.txd.fmErrorResult = none := by
    intro es
    rw [callAll_fm hexec]
    exact (fm_foldl_apply regs (txInit txd)).trans hfm
  refine ⟨?_, ?_⟩
  · obtain ⟨fuel₀, o, hrun, hord, _, hmach⟩ :=
      txGenericCommitAction_spec hexec.registers m (hcs ▸ order_commit horder)
    have hord' : InOrder (regs.filterMap Registration.commit?) o.executed := hcs ▸ hord
    refine ⟨fuel₀, o, hrun, reports_iff (fun _ => Iff.rfl) mem fun p => ?_⟩
    rw [hmach, commitTail_mem (hnone _), callAll_mem hexec, hord'.getLast_given]
  · obtain ⟨fuel₀, o, hrun, hord, _, hmach⟩ :=
      txGenericUndoAction_spec hexec.registers m (hus ▸ order_undo horder)
    have hord' : InOrder (regs.filterMap Registration.undo?).reverse o.executed := hus ▸ hord
    refine ⟨fuel₀, o, hrun, reports_iff (fun _ => List.mem_reverse.symm) mem fun p => ?_⟩
    rw [hmach, undoTail_mem (hnone _), callAll_mem hexec, hord'.getLast_given]

/-- action 1 fails with 5 (`EIO`), every other action succeeds -/
def failsOne (a : Nat) : Int := if a = 1 then 5 else 0

def reportOnly (a : Nat) (m : Mach Nat Nat Unit) : Mach Nat Nat Unit × Int := (m, failsOne a)

theorem outcomes_reportOnly : Outcomes reportOnly failsOne :=
  ⟨fun _ _ => ⟨rfl, rfl⟩, fun _ _ => rfl, fun _ _ => rfl, fun _ _ => rfl⟩

/-- the undo actions of two calls that are both given `&err`, location 0 -/
def sharedErr : List (Registration Nat) := [.undo ⟨0, some 0, 0⟩, .undo ⟨1, some 0, 0⟩]

theorem failures_reported_sharedErr :
    let m : Mach Nat Nat Unit :=
      ⟨sharedErr.foldl Registration.apply (txInit txCreate), fun _ => 7, ()⟩
    (∃ (fuel₀ : Nat) (o : Outcome Nat Nat Unit),
      (∀ fuel ≥ fuel₀, txGenericCommitAction reportOnly fuel m = some o) ∧
      (Reports failsOne (sharedErr.filterMap Registration.commit?) o.mach.mem ↔
        Unmasked failsOne (sharedErr.filterMap Registration.commit?))) ∧
    (∃ (fuel₀ : Nat) (o : Outcome Nat Nat Unit),
      (∀ fuel ≥ fuel₀, txGenericUndoAction reportOnly fuel m = some o) ∧
      (Reports failsOne (sharedErr.filterMap Registration.undo?) o.mach.mem ↔
        Unmasked failsOne (sharedErr.filterMap Registration.undo?).reverse)) :=
  failures_reported reportOnly failsOne outcomes_reportOnly txCreate rfl (fun _ => 7) () sharedErr
    (by decide)

/-- the second call's undo action fails and runs first; the first call's succeeds and stores 0 -/
theorem failure_masked :
    let m : Mach Nat Nat Unit :=
      ⟨sharedErr.foldl Registration.apply (txInit txCreate), fun _ => 7, ()⟩
    ∃ o, txGenericUndoAction reportOnly 20 m = some o ∧
      ¬ Reports failsOne (sharedErr.filterMap Registration.undo?) o.mach.mem := by
  intro m
  have hrun : (txGenericUndoAction reportOnly 20 m).map (fun o => o.mach.mem 0) = some 0 := by
    decide
  obtain ⟨o, ho, hmem⟩ := Option.map_eq_some_iff.mp hrun
  refine ⟨o, ho, fun h => ?_⟩
  have h0 := h 0 ⟨⟨0, some 0, 0⟩, by decide, rfl⟩
  exact h0.1 ⟨⟨1, some 0, 0⟩, by decide, rfl, by decide⟩ hmem

end XCalls
