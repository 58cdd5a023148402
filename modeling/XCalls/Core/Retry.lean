import XCalls.Core.Deadlock

/-!
# What a retry reacquires

The flag `TXC_SENTINEL_ACQUIREONRETRY` of `txc_sentinel_tryacquire` is recorded when the sentinel is
enlisted, and only then.

* `History`, `historyStep`   the system with, for each transaction, the sentinels that it owned when
                    its attempt started and those that it has asked for with the flag;
* `Recorded`        the flagged entries of the list are these sentinels;
* `flagRecorded`    the condition on runs: a sentinel that is asked for with the flag, and that the
                    transaction owns already, has a flagged entry;
* `retry_reacquires`   the sentinels owned when the next attempt starts;
* `flag_forgotten`  a run in which the flag comes too late.
-/

set_option linter.unusedSectionVars false

namespace XCalls
open EventSys
variable {T K : Type} [DecidableEq T] [DecidableEq K] {n : Nat}

/-! ## histories -/

/-- the last attempt of a transaction -/
structure History (n : Nat) where
  start : List (Fin n)
  asked : List (Fin n)

def ownedBy (ts : TxState n) : List (Fin n) :=
  (ts.desc.sentinelList.filter SentinelEntry.acquired).map SentinelEntry.sentinel

/-- what an event of `t` adds to its history -/
def History.next (h : History n) (ts : TxState n) : Event T K n → History n
  | .preBegin _ => ⟨ownedBy ts, []⟩
  | .postBegin _ => ⟨ownedBy ts, []⟩
  | .tryacquire _ s flags _ =>
    if ts.phase = .running ∧ acquireOnRetry flags ≠ 0 then ⟨h.start, s :: h.asked⟩ else h
  | _ => h

structure HistorySys (T K : Type) (n : Nat) where
  sys : Sys T K n
  history : T → History n

def historyStep (x : HistorySys T K n) (ev : Event T K n) : Option (HistorySys T K n) :=
  (step x.sys ev).map fun σ =>
    { sys := σ
      history := fun t =>
        if ev.of = some t then (x.history t).next (x.sys.tx t) ev else x.history t }

def historyInit (T K : Type) (n : Nat) : HistorySys T K n :=
  ⟨initial T K n, fun _ => ⟨[], []⟩⟩

/-- the condition on runs -/
def flagRecorded (σ : Sys T K n) (ev : Event T K n) : Prop :=
  match ev with
  | .tryacquire t s flags _ =>
    (σ.tx t).phase = .running → acquireOnRetry flags ≠ 0 → (σ.mgr.sentinel s).owner = some t →
      ∃ e ∈ (σ.tx t).desc.sentinelList, e.sentinel = s ∧ e.onRetry = true
  | _ => True

instance (σ : Sys T K n) (ev : Event T K n) : Decidable (flagRecorded σ ev) :=
  match ev with
  | .tryacquire _ _ _ _ => inferInstanceAs (Decidable (_ → _ → _ → ∃ e ∈ _, _))
  | .conflict _ | .preBegin _ | .postBegin _ | .registerCommit _ _ _ _ | .registerUndo _ _ _ _
  | .becomeIrrevocable _ | .abort _ _ | .commit _ | .next _ | .koaCreate _
  | .koaDestroy _ => instDecidableTrue

/-- no flag is lost, and no registered action either -/
def retryOk (x : HistorySys T K n) (ev : Event T K n) : Prop :=
  conflictsUndone x.sys ev ∧ flagRecorded x.sys ev

instance (x : HistorySys T K n) (ev : Event T K n) : Decidable (retryOk x ev) :=
  inferInstanceAs (Decidable (_ ∧ _))

/-- a run of the system with histories is a run of the system -/
theorem reach_sys {x : HistorySys T K n}
    (h : Reach historyStep retryOk (· = historyInit T K n) x) :
    Reach step conflictsUndone (· = initial T K n) x.sys := by
  induction h with
  | start h =>
    subst h
    exact .start rfl
  | next _ hok hs ih =>
    obtain ⟨σ, hσ, rfl⟩ := Option.map_eq_some_iff.mp hs
    exact ih.next hok.1 hσ

/-! ## the flagged entries -/

def Recorded (l : List (SentinelEntry (Fin n))) (h : History n) : Prop :=
  ∀ s, (∃ e ∈ l, e.onRetry = true ∧ e.sentinel = s) ↔ s ∈ h.start ∨ s ∈ h.asked

def AllFlagged (l : List (SentinelEntry (Fin n))) : Prop :=
  ∀ e ∈ l, e.acquired = true ∧ e.onRetry = true

def RetryInv (ts : TxState n) (h : History n) : Prop :=
  match ts.phase with
  | .begun => Recorded ts.desc.sentinelList h ∧ AllFlagged ts.desc.sentinelList
  | .running => Recorded ts.desc.sentinelList h
  | .undoing l =>
    ts.desc.abortReason ≠ .userabort → Recorded ts.desc.sentinelList h ∧
      (Pending .sentinelmgrUndo ts.desc.undoActionList.entries l ∨
        AllFlagged ts.desc.sentinelList)
  | .acquiring _ k =>
    (∀ s, (∃ e ∈ ts.desc.sentinelListPreacquire, e.sentinel = s) ↔ s ∈ h.start ∨ s ∈ h.asked) ∧
      ts.desc.sentinelList = (ts.desc.sentinelListPreacquire.take k).map reacquired
  | .outside => True
  | .irrevocable => True
  | .committing _ => True

theorem onRetry_enlisted (s : Fin n) (status flags : UInt32)
    (h : status = 0 ∨ status = sentinelAcquired) :
    (⟨s, status ||| acquireOnRetry flags⟩ : SentinelEntry (Fin n)).onRetry = true ↔
      acquireOnRetry flags ≠ 0 := by
  show ((status ||| acquireOnRetry flags) &&& sentinelAcquireonretry != 0) = true ↔ _
  rcases h with rfl | rfl <;> rcases acquireOnRetry_cases flags with hf | hf <;> rw [hf] <;> decide

theorem onRetry_reacquired (e : SentinelEntry (Fin n)) : (reacquired e).onRetry = true := by
  show ((sentinelAcquired ||| sentinelAcquireonretry) &&& sentinelAcquireonretry != 0) = true
  decide

theorem allFlagged_reacquired (l : List (SentinelEntry (Fin n))) :
    AllFlagged (l.map reacquired) := by
  intro e he
  obtain ⟨x, _, rfl⟩ := List.mem_map.mp he
  exact ⟨acquired_reacquired x, onRetry_reacquired x⟩

theorem AllFlagged.ownedBy_eq {ts : TxState n} (h : AllFlagged ts.desc.sentinelList) (s : Fin n) :
    s ∈ ownedBy ts ↔ ∃ e ∈ ts.desc.sentinelList, e.onRetry = true ∧ e.sentinel = s := by
  unfold ownedBy
  rw [List.mem_map]
  constructor
  · rintro ⟨e, he, rfl⟩
    have hmem := (List.mem_filter.mp he).1
    exact ⟨e, hmem, (h e hmem).2, rfl⟩
  · rintro ⟨e, he, _, rfl⟩
    exact ⟨e, List.mem_filter.mpr ⟨he, (h e he).1⟩, rfl⟩

/-- a sentinel is enlisted -/
theorem Recorded.enlist {l : List (SentinelEntry (Fin n))} {h : History n} (hr : Recorded l h)
    (s : Fin n) {status : UInt32} (flags : UInt32)
    (hst : status = 0 ∨ status = sentinelAcquired) :
    Recorded (l ++ [⟨s, status ||| acquireOnRetry flags⟩])
      (if acquireOnRetry flags ≠ 0 then ⟨h.start, s :: h.asked⟩ else h) := by
  intro x
  have hnew := onRetry_enlisted s status flags hst
  have hsplit : (∃ e ∈ l ++ [(⟨s, status ||| acquireOnRetry flags⟩ : SentinelEntry (Fin n))],
      e.onRetry = true ∧ e.sentinel = x) ↔
      (x ∈ h.start ∨ x ∈ h.asked) ∨ (acquireOnRetry flags ≠ 0 ∧ s = x) := by
    rw [← hr x]
    constructor
    · rintro ⟨e, he, hon, rfl⟩
      rcases List.mem_append.mp he with he | he
      · exact Or.inl ⟨e, he, hon, rfl⟩
      · obtain rfl := List.mem_singleton.mp he
        exact Or.inr ⟨hnew.mp hon, rfl⟩
    · rintro (⟨e, he, hon, rfl⟩ | ⟨hf, rfl⟩)
      · exact ⟨e, List.mem_append_left _ he, hon, rfl⟩
      · exact ⟨_, List.mem_append_right _ List.mem_cons_self, hnew.mpr hf, rfl⟩
  rw [hsplit]
  by_cases hf : acquireOnRetry flags ≠ 0
  · rw [if_pos hf, List.mem_cons]
    constructor
    · rintro ((hx | hx) | ⟨_, rfl⟩)
      · exact Or.inl hx
      · exact Or.inr (Or.inr hx)
      · exact Or.inr (Or.inl rfl)
    · rintro (hx | rfl | hx)
      · exact Or.inl (Or.inl hx)
      · exact Or.inr ⟨hf, rfl⟩
      · exact Or.inl (Or.inr hx)
  · rw [if_neg hf]
    constructor
    · rintro (hx | ⟨hc, _⟩)
      · exact hx
      · exact absurd hc hf
    · exact Or.inl

theorem mem_preacquire {m : SentinelMgr T n} {l pre : List (SentinelEntry (Fin n))}
    (hs : sentinelListSort m (retryEntries l) = some pre) (s : Fin n) :
    (∃ e ∈ pre, e.sentinel = s) ↔ ∃ e ∈ l, e.onRetry = true ∧ e.sentinel = s := by
  have hperm := (sentinelListSort_cases hs).1
  constructor
  · rintro ⟨e, he, rfl⟩
    obtain ⟨x, hx, rfl⟩ := List.mem_map.mp (hperm.mem_iff.mp he)
    obtain ⟨hx, hon⟩ := List.mem_filter.mp hx
    exact ⟨x, hx, hon, rfl⟩
  · rintro ⟨e, he, hon, rfl⟩
    refine ⟨⟨e.sentinel, 0⟩, hperm.mem_iff.mpr ?_, rfl⟩
    exact List.mem_map.mpr ⟨e, List.mem_filter.mpr ⟨he, hon⟩, rfl⟩

/-! ## one step -/

section
variable {t : T} {ts ts' : TxState n} {m m' : SentinelMgr T n} {ev : Event T K n} {h : History n}

theorem RetryInv.of_phase {p : Phase} (hi : RetryInv ts h) (hp : ts.phase = p) :
    RetryInv { ts with phase := p } h := by
  subst hp
  exact hi

/-- a rollback that is not a user abort -/
theorem retryInv_rollback
    (hu : ReadyUndo ts.desc ts.desc.sentinelList ∨
      (IdleUndo ts.desc ∧ AllFlagged ts.desc.sentinelList))
    (hreason : ts.desc.abortReason ≠ .userabort) (hr : Recorded ts.desc.sentinelList h) :
    RetryInv (rollback ts) h := by
  unfold rollback
  cases hi : ts.desc.itmUndo with
  | true =>
    rw [if_pos rfl]
    intro _
    refine ⟨hr, ?_⟩
    rcases hu with hu | ⟨hidle, _⟩
    · by_cases hne : ts.desc.sentinelList = []
      · refine Or.inr fun e he => ?_
        rw [show (_ : TxDesc Act (Fin n)).sentinelList = [] from hne] at he
        cases he
      · exact Or.inl (hu.pending hne)
    · have hno := hidle.2.2.2
      rw [hi] at hno
      cases hno
  | false =>
    rw [if_neg (by simp)]
    have hall : AllFlagged ts.desc.sentinelList := by
      rcases hu with hu | ⟨_, hall⟩
      · intro e he
        rw [(hu.idle hi).2] at he
        cases he
      · exact hall
    cases hab : ts.desc.abortReason with
    | userabort => exact absurd hab hreason
    | tmconflict | userretry | busysentinel | inconsistency | busytxlock => exact ⟨hr, hall⟩

theorem retryInv_afterRollback {txd : TxDesc Act (Fin n)} {reason : AbortReason} {b : Bool}
    (hr : reason ≠ .userabort → Recorded txd.sentinelList h ∧ AllFlagged txd.sentinelList) :
    RetryInv ⟨txd, afterRollback reason, b⟩ h := by
  cases reason with
  | userabort => trivial
  | tmconflict | userretry | busysentinel | inconsistency | busytxlock => exact hr (by simp)

theorem RetryInv.begun (hi : RetryInv ts h) (hp : ts.phase = .begun) :
    Recorded ts.desc.sentinelList h ∧ AllFlagged ts.desc.sentinelList := hi.of_phase hp

theorem RetryInv.running (hi : RetryInv ts h) (hp : ts.phase = .running) :
    Recorded ts.desc.sentinelList h := hi.of_phase hp

theorem RetryInv.undoing {l : Loop Act} (hi : RetryInv ts h) (hp : ts.phase = .undoing l)
    (hr : ts.desc.abortReason ≠ .userabort) :
    Recorded ts.desc.sentinelList h ∧
      (Pending .sentinelmgrUndo ts.desc.undoActionList.entries l ∨
        AllFlagged ts.desc.sentinelList) := hi.of_phase hp hr

theorem RetryInv.acquiring {l : Loop Act} {k : Nat} (hi : RetryInv ts h)
    (hp : ts.phase = .acquiring l k) :
    (∀ s, (∃ e ∈ ts.desc.sentinelListPreacquire, e.sentinel = s) ↔ s ∈ h.start ∨ s ∈ h.asked) ∧
      ts.desc.sentinelList = (ts.desc.sentinelListPreacquire.take k).map reacquired :=
  hi.of_phase hp

theorem recorded_start (hall : AllFlagged ts.desc.sentinelList) :
    Recorded ts.desc.sentinelList ⟨ownedBy ts, []⟩ := by
  intro s
  rw [← hall.ownedBy_eq]
  simp

theorem Recorded.keep {l : List (SentinelEntry (Fin n))} (hr : Recorded l h) {s : Fin n}
    (hs : ∃ e ∈ l, e.sentinel = s ∧ e.onRetry = true) : Recorded l ⟨h.start, s :: h.asked⟩ := by
  intro x
  rw [hr x, List.mem_cons]
  constructor
  · exact Or.imp id Or.inr
  · rintro (hx | rfl | hx)
    · exact Or.inl hx
    · obtain ⟨e, he, rfl, hon⟩ := hs
      exact (hr _).mp ⟨e, he, hon, rfl⟩
    · exact Or.inr hx

/-- when all of the preacquire list has been acquired -/
theorem recorded_reacquired {l : List (SentinelEntry (Fin n))}
    (hr : ∀ s, (∃ e ∈ l, e.sentinel = s) ↔ s ∈ h.start ∨ s ∈ h.asked) :
    Recorded (l.map reacquired) h := by
  intro s
  rw [← hr s]
  constructor
  · rintro ⟨e, he, _, rfl⟩
    obtain ⟨x, hx, rfl⟩ := List.mem_map.mp he
    exact ⟨x, hx, rfl⟩
  · rintro ⟨e, he, rfl⟩
    exact ⟨reacquired e, List.mem_map.mpr ⟨e, he, rfl⟩, onRetry_reacquired e, rfl⟩

/-- **One step** keeps the list and the history together. -/
theorem txStep_retryInv (hw : Wf ts) (hu : UndoInv ts) (hcm : CommitInv ts) (hi : RetryInv ts h)
    (hok : ∀ s flags result, ev = .tryacquire t s flags result → ts.phase = .running →
      acquireOnRetry flags ≠ 0 → (m.sentinel s).owner = some t →
      ∃ e ∈ ts.desc.sentinelList, e.sentinel = s ∧ e.onRetry = true)
    (hstep : TxStep t ts m ev ts' m') : RetryInv ts' (h.next ts ev) := by
  have hl := hw.loop
  cases hstep with
  | preBegin hp =>
    unfold CommitInv at hcm
    rw [hp] at hcm
    have hall : AllFlagged ts.desc.sentinelList := by
      rw [hcm.1]
      intro e he
      cases he
    exact ⟨recorded_start hall, hall⟩
  | postBegin hp =>
    show Recorded (sentinelTransactionPostbegin ts.desc).sentinelList _
    rw [sentinelList_postbegin]
    exact recorded_start (hi.begun hp).2
  | keep s flags result b hp =>
    by_cases hrun : ts.phase = .running
    · have hr := hi.running hrun
      have ho : (m.sentinel s).owner = some t := by
        rcases hp with hp | hp
        · rw [hrun] at hp
          cases hp
        · exact hp
      simp only [History.next, hrun, true_and]
      by_cases hf : acquireOnRetry flags ≠ 0
      · rw [if_pos hf]
        exact hr.keep (hok s flags result rfl hrun hf ho)
      · rw [if_neg hf]
        exact hr
    · simp only [History.next, hrun, false_and, if_false]
      exact hi
  | acquire s flags result hp hf ho hm =>
    have hr := (hi.running hp).enlist s flags (Or.inr rfl)
    simp only [History.next, hp, true_and]
    exact hr
  | busy s flags result hp hf ho =>
    have hr := (hi.running hp).enlist s flags (Or.inl rfl)
    rw [show (0 : UInt32) ||| acquireOnRetry flags = acquireOnRetry flags by simp] at hr
    simp only [History.next, hp, true_and]
    exact hr
  | registerCommit a r o hp h0 =>
    rw [txRegisterCommitAction_eq]
    rcases hp with hp | hp <;> rw [hp]
    · exact hi.running hp
    · trivial
  | registerUndo a r o hp h0 =>
    rw [txRegisterUndoAction_eq]
    rcases hp with hp | hp <;> rw [hp]
    · exact hi.running hp
    · trivial
  | becomeIrrevocable hp => trivial
  | abort reason hp =>
    have hready := (hu.running (Or.inl hp)).1
    rw [rollback_abort hready]
    intro _
    refine ⟨?_, ?_⟩
    · show Recorded (tmsystemAbortTransaction ts.desc reason).sentinelList h
      rw [sentinelList_abort]
      exact hi.running hp
    · by_cases hne : ts.desc.sentinelList = []
      · refine Or.inr fun e he => ?_
        rw [show (_ : TxDesc Act (Fin n)).sentinelList = [] from
          (sentinelList_abort ts.desc reason).trans hne] at he
        cases he
      · exact Or.inl ((readyUndo_abort hready reason).pending hne)
  | conflict hp =>
    have hreason : ts.desc.abortReason ≠ .userabort := by
      rw [hu.abortReason_eq hp]
      simp
    rcases hp with hp | hp
    · exact retryInv_rollback (Or.inl (hu.running (Or.inl hp)).1) hreason (hi.running hp)
    · unfold UndoInv at hu
      rw [hp] at hu
      exact retryInv_rollback (Or.inr ⟨hu.1, (hi.begun hp).2⟩) hreason (hi.begun hp).1
  | commit hp hc => trivial
  | commitNothing hp hc => trivial
  | commitExit l hp hn => trivial
  | commitMove l l' hp hn => trivial
  | commitOther l l' e hp hn hf => trivial
  | commitRelease l l' e hp hn hf => trivial
  | undoExit l hp hn =>
    rw [hp] at hl
    refine retryInv_afterRollback fun hr => ?_
    obtain ⟨hrec, hall⟩ := hi.undoing hp hr
    exact ⟨hrec, hall.resolve_left (not_pending_exit hl hn fun e he => List.mem_reverse.mpr he)⟩
  | undoMove l l' hp hn =>
    exact fun hr => ⟨(hi.undoing hp hr).1, (hi.undoing hp hr).2.imp (·.move hn) id⟩
  | undoOther l l' e hp hn hf =>
    exact fun hr => ⟨(hi.undoing hp hr).1, (hi.undoing hp hr).2.imp (·.call hn hf) id⟩
  | undoRelease l l' e hp hn hf hr => exact fun hne => absurd hr hne
  | undoRetry l l' e pre hp hn hf hr hs =>
    refine ⟨fun s => ?_, rfl⟩
    exact (mem_preacquire hs s).trans ((hi.undoing hp hr).1 s)
  | acquireDone l k hp hk =>
    obtain ⟨hpre, hlist⟩ := hi.acquiring hp
    rw [List.take_of_length_le (List.getElem?_eq_none_iff.mp hk)] at hlist
    intro _
    show Recorded ts.desc.sentinelList h ∧ (_ ∨ AllFlagged ts.desc.sentinelList)
    rw [hlist]
    exact ⟨recorded_reacquired hpre, Or.inr (allFlagged_reacquired _)⟩
  | acquireOne l k e hp hk hm =>
    obtain ⟨hpre, hlist⟩ := hi.acquiring hp
    refine ⟨hpre, ?_⟩
    show ts.desc.sentinelList ++ [reacquired e] = _
    rw [List.take_add_one, hk, List.map_append, hlist]
    rfl

end

/-! ## runs -/

/-- an event of `t` is a step of `t`, and no other event changes it -/
theorem step_of {σ σ' : Sys T K n} {ev : Event T K n} (hs : step σ ev = some σ') (t : T) :
    (ev.of = some t → TxStep t (σ.tx t) σ.mgr ev (σ'.tx t) σ'.mgr) ∧
      (ev.of ≠ some t → σ'.tx t = σ.tx t) := by
  refine ⟨fun ht => ?_, fun ht => ?_⟩
  · have hstep : step σ ev = (txStep (σ.tx t) σ.mgr ev).map fun r =>
        { σ with tx := Function.update σ.tx t r.1, mgr := r.2 } := by
      cases ev with
      | koaCreate k | koaDestroy k => cases ht
      | _ =>
        cases ht
        rfl
    rw [hstep] at hs
    obtain ⟨⟨ts, m'⟩, hst, rfl⟩ := Option.map_eq_some_iff.mp hs
    show TxStep t (σ.tx t) σ.mgr ev (Function.update σ.tx t ts t) m'
    rw [Function.update_self]
    exact txStep_cases hst ht
  · rcases step_tx hs t with heq | hst
    · exact heq
    · exact absurd hst.of_eq ht

theorem retryInv_of_reach {x : HistorySys T K n}
    (h : Reach historyStep retryOk (· = historyInit T K n) x) :
    ∀ t, RetryInv (x.sys.tx t) (x.history t) := by
  induction h with
  | start h =>
    intro t
    subst h
    trivial
  | @next x x' ev hreach hok hs ih =>
    intro t
    obtain ⟨σ, hσ, rfl⟩ := Option.map_eq_some_iff.mp hs
    have htx := txsOk_of_reach (reach_sys hreach)
    have hcm := commitInv_of_reach (reach_sys hreach)
    obtain ⟨hown, hother⟩ := step_of hσ t
    show RetryInv (σ.tx t) (if ev.of = some t then _ else _)
    by_cases ht : ev.of = some t
    · rw [if_pos ht]
      refine txStep_retryInv (htx.wf t) (htx.undo t) (hcm t) (ih t) ?_ (hown ht)
      intro s flags result hev
      subst hev
      exact hok.2
    · rw [if_neg ht, hother ht]
      exact ih t

/-- **A retry reacquires everything encountered.**  In every run in which no sentinel that a
transaction acquired without the flag is asked for with the flag in the same attempt, and in which a
conflict never rolls back an attempt with a commit action but no undo action: when an attempt
starts, after a retry for whatever reason, the transaction owns the sentinels that it owned when the
failed attempt started and those that it asked for with the flag. -/
theorem retry_reacquires (T K : Type) [DecidableEq T] [DecidableEq K] [Fintype T] [Fintype K]
    (n : Nat) (x : HistorySys T K n)
    (h : Reach historyStep retryOk (· = historyInit T K n) x) (t : T)
    (hp : (x.sys.tx t).phase = .begun) (s : Fin n) :
    (x.sys.mgr.sentinel s).owner = some t ↔
      s ∈ (x.history t).start ∨ s ∈ (x.history t).asked := by
  have hx : Exact x.sys := exact_of_reach (reach_sys h)
  obtain ⟨hrec, hall⟩ := (retryInv_of_reach h t).begun hp
  rw [hx.owner, ← owns_iff hx t s, ← hrec s]
  constructor
  · rintro ⟨e, he, rfl, _⟩
    exact ⟨e, he, (hall e he).2, rfl⟩
  · rintro ⟨e, he, _, rfl⟩
    exact ⟨e, he, rfl, (hall e he).1⟩

/-- two sentinels, the first asked for with the flag and the second without, and a retry -/
def retryRun : List (Event (Fin 1) (Fin 2) 2) :=
  [.koaCreate 0, .koaCreate 1, .preBegin 0, .postBegin 0, .tryacquire 0 0 2 0,
    .tryacquire 0 1 0 0, .abort 0 .userretry] ++ List.replicate 12 (.next 0)

theorem retry_reacquires_retryRun :
    ∃ x, run (guarded historyStep retryOk) (historyInit (Fin 1) (Fin 2) 2) retryRun = some x ∧
      (x.sys.tx 0).phase = .begun ∧ (x.history 0).asked = [0] ∧
      ∀ s, (x.sys.mgr.sentinel s).owner = some 0 ↔
        s ∈ (x.history 0).start ∨ s ∈ (x.history 0).asked := by
  have hend : (run (guarded historyStep retryOk) (historyInit (Fin 1) (Fin 2) 2) retryRun).map
      (fun x => ((x.sys.tx 0).phase, (x.history 0).asked)) = some (.begun, [0]) := by decide
  obtain ⟨x, hx, hval⟩ := Option.map_eq_some_iff.mp hend
  obtain ⟨hp, ha⟩ := Prod.mk.inj hval
  exact ⟨x, hx, hp, ha, retry_reacquires _ _ _ x (reach_of_guarded retryRun hx) 0 hp⟩

/-- a sentinel is acquired without the flag and then asked for with it -/
def lateFlagRun : List (Event (Fin 1) (Fin 1) 1) :=
  [.koaCreate 0, .preBegin 0, .postBegin 0, .tryacquire 0 0 0 0, .tryacquire 0 0 2 0,
    .abort 0 .userretry] ++ List.replicate 11 (.next 0)

/-- **The flag comes too late.**  The sentinel was found already owned, and the retry does not
reacquire it. -/
theorem flag_forgotten :
    (run historyStep (historyInit (Fin 1) (Fin 1) 1) lateFlagRun).map (fun x =>
      ((x.sys.tx 0).phase, (x.history 0).start, (x.history 0).asked,
        (x.sys.mgr.sentinel 0).owner)) = some (.begun, [], [0], none) := by
  decide

end XCalls
