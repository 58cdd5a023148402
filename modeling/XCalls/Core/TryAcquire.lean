import XCalls.Core.Isolation

/-!
# What `txc_sentinel_tryacquire` tells its caller

* `tryacquire`           the call as a transition of the system, with the value it returns;
* `TellsOwner`           what the callers go by: the value and the ownership agree;
* `tellsOwner_free`, `tellsOwner_busy`   the two branches that set the returned variable;
* `tryacquire_tells_iff` the value can be relied on exactly if the sentinel is not owned already.
-/

set_option linter.unusedSectionVars false

namespace XCalls
open EventSys
variable {T K : Type} [DecidableEq T] [DecidableEq K] {n : Nat}

/-- `txc_sentinel_tryacquire` by `t` in the state `σ`.  The spinning on the mutex is over when the
step is taken. -/
def tryacquire (σ : Sys T K n) (t : T) (s : Fin n) (flags : UInt32) (result : Int) :
    Option (Int × Sys T K n) :=
  (sentinelTryacquire σ.mgr (σ.tx t).desc t (σ.tx t).phase.xactstate s flags result).map fun r =>
    (r.1, { σ with
      tx := Function.update σ.tx t
        { σ.tx t with desc := r.2.2, busy := (σ.tx t).busy || r.1 = rBusysentinel }
      mgr := r.2.1 })

/-- the value `r` and the state `σ'` that a call of `t` returns in `σ`, as its callers take them -/
structure TellsOwner (σ : Sys T K n) (t : T) (s : Fin n) (r : Int) (σ' : Sys T K n) : Prop where
  success : r = rSuccess ↔ Owns σ' t s
  busy : ¬ Owns σ' t s → r = rBusysentinel
  again : Owns σ t s → r = rSuccess ∧ σ'.mgr = σ.mgr ∧ (σ'.tx t).desc = (σ.tx t).desc
  others : r = rBusysentinel → ∀ t', t' ≠ t → ∀ s', Owns σ' t' s' ↔ Owns σ t' s'

/-- `t` has enlisted the sentinel of `e` -/
def enlisted (σ : Sys T K n) (t : T) (e : SentinelEntry (Fin n)) (busy : Bool)
    (m : SentinelMgr T n) : Sys T K n :=
  let txd := registerSentinelmgrCommitAction (registerSentinelmgrUndoAction (σ.tx t).desc)
  { σ with
    tx := Function.update σ.tx t
      ⟨{ txd with sentinelList := txd.sentinelList ++ [e] }, (σ.tx t).phase, busy⟩
    mgr := m }

section
variable {σ : Sys T K n} {t : T} {s : Fin n}

theorem owns_enlisted (e : SentinelEntry (Fin n)) (busy : Bool) (m : SentinelMgr T n) :
    Owns (enlisted σ t e busy m) t s ↔ Owns σ t s ∨ (e.sentinel = s ∧ e.acquired = true) := by
  have hlist : ((enlisted σ t e busy m).tx t).desc.sentinelList
      = (σ.tx t).desc.sentinelList ++ [e] := by
    simp only [enlisted, Function.update_self, sentinelList_register]
  unfold Owns
  rw [hlist]
  simp only [List.mem_append, List.mem_singleton, or_and_right, exists_or, exists_eq_left]

theorem owns_enlisted_other (e : SentinelEntry (Fin n)) (busy : Bool) (m : SentinelMgr T n)
    {t' : T} (ht : t' ≠ t) : Owns (enlisted σ t e busy m) t' s ↔ Owns σ t' s := by
  have htx : (enlisted σ t e busy m).tx t' = σ.tx t' := Function.update_of_ne ht _ _
  unfold Owns
  rw [htx]

/-- a sentinel that is not owned yet: acquired, or busy -/
theorem tryacquire_running (hp : (σ.tx t).phase = .running)
    (ho : (σ.mgr.sentinel s).owner ≠ some t) (flags : UInt32) (result : Int) :
    tryacquire σ t s flags result =
      if (σ.mgr.sentinel s).mutex = none then
        some (rSuccess, enlisted σ t ⟨s, sentinelAcquired ||| acquireOnRetry flags⟩
          (σ.tx t).busy (sentinelLock (sentinelAttach σ.mgr s) t s))
      else some (rBusysentinel, enlisted σ t ⟨s, acquireOnRetry flags⟩ true
        (sentinelAttach σ.mgr s)) := by
  unfold tryacquire sentinelTryacquire enlisted
  rw [if_pos ho]
  simp only [hp, Phase.xactstate]
  by_cases hm : (σ.mgr.sentinel s).mutex = none
  · simp only [if_pos hm, Option.map_some, rSuccess, rBusysentinel]
    simp
  · simp only [if_neg hm, Option.map_some, decide_true, Bool.or_true]

theorem tryacquire_owned (ho : (σ.mgr.sentinel s).owner = some t) (flags : UInt32) (result : Int) :
    ∃ σ', tryacquire σ t s flags result = some (result, σ') ∧ σ'.mgr = σ.mgr ∧
      (σ'.tx t).desc = (σ.tx t).desc := by
  unfold tryacquire sentinelTryacquire
  rw [if_neg (not_not.mpr ho)]
  refine ⟨_, rfl, rfl, ?_⟩
  simp only [Function.update_self]

theorem tellsOwner_free (hno : ¬ Owns σ t s) (flags : UInt32) (busy : Bool)
    (m : SentinelMgr T n) :
    TellsOwner σ t s rSuccess
      (enlisted σ t ⟨s, sentinelAcquired ||| acquireOnRetry flags⟩ busy m) := by
  have hown : Owns (enlisted σ t ⟨s, sentinelAcquired ||| acquireOnRetry flags⟩ busy m) t s :=
    (owns_enlisted _ busy m).mpr (Or.inr ⟨rfl, acquired_enlisted s flags⟩)
  refine ⟨iff_of_true rfl hown, fun hc => absurd hown hc, fun hc => absurd hc hno, fun hc => ?_⟩
  exact absurd hc (by decide)

/-- the mutex is another's: the entry is not an acquired one, and only `t` has a new entry -/
theorem tellsOwner_busy (hno : ¬ Owns σ t s) (flags : UInt32) (busy : Bool)
    (m : SentinelMgr T n) :
    TellsOwner σ t s rBusysentinel (enlisted σ t ⟨s, acquireOnRetry flags⟩ busy m) := by
  have hnew : ¬ Owns (enlisted σ t ⟨s, acquireOnRetry flags⟩ busy m) t s := by
    rw [owns_enlisted]
    rintro (hc | ⟨_, hc⟩)
    · exact hno hc
    · rw [busy_enlisted] at hc
      exact Bool.false_ne_true hc
  refine ⟨iff_of_false (by decide) hnew, fun _ => rfl, fun hc => absurd hc hno, ?_⟩
  intro _ t' ht s'
  exact owns_enlisted_other _ busy m ht

end

/-- **The value of `txc_sentinel_tryacquire`.**  In every reachable state a call of a retryable
transaction returns success exactly if the sentinel is its own afterwards and busy otherwise,
repeated calls change nothing and busy calls take nothing from another, whatever the local
variables hold at the start, exactly if the transaction does not own the sentinel already. -/
theorem tryacquire_tells_iff (T K : Type) [DecidableEq T] [DecidableEq K] [Fintype T] [Fintype K]
    (n : Nat) (σ : Sys T K n) (h : Reach step any (· = initial T K n) σ) (t : T)
    (hp : (σ.tx t).phase.xactstate = .retryable) (s : Fin n) (flags : UInt32) :
    (∀ result, ∃ r σ', tryacquire σ t s flags result = some (r, σ') ∧ TellsOwner σ t s r σ') ↔
      (σ.mgr.sentinel s).owner ≠ some t := by
  have hx : Exact σ := exact_of_reach h
  have hrun : (σ.tx t).phase = .running := by
    cases hph : (σ.tx t).phase with
    | running => rfl
    | outside | begun | irrevocable | committing | undoing | acquiring =>
      rw [hph] at hp
      cases hp
  have howns : Owns σ t s ↔ (σ.mgr.sentinel s).owner = some t := by
    rw [hx.owner]
    exact owns_iff hx t s
  constructor
  · -- the variable may hold the code of a busy sentinel
    intro hall ho
    obtain ⟨r, σ', hr, htells⟩ := hall rBusysentinel
    obtain ⟨σ1, h1, _⟩ := tryacquire_owned ho flags rBusysentinel
    rw [h1] at hr
    obtain ⟨rfl, rfl⟩ := Prod.mk.inj (Option.some.inj hr)
    exact absurd (htells.again (howns.mpr ho)).1 (by decide)
  · intro ho result
    have hno : ¬ Owns σ t s := fun hc => ho (howns.mp hc)
    rw [tryacquire_running hrun ho]
    by_cases hm : (σ.mgr.sentinel s).mutex = none
    · rw [if_pos hm]
      exact ⟨_, _, rfl, tellsOwner_free hno flags _ _⟩
    · rw [if_neg hm]
      exact ⟨_, _, rfl, tellsOwner_busy hno flags _ _⟩

/-- two transactions are after the one sentinel, the first has it -/
def contendedRun : List (Event (Fin 2) (Fin 1) 1) :=
  [.koaCreate 0, .preBegin 0, .preBegin 1, .postBegin 0, .postBegin 1, .tryacquire 0 0 2 0]

/-- the second one is told -/
theorem tryacquire_tells_contendedRun :
    ∃ σ, run step (initial (Fin 2) (Fin 1) 1) contendedRun = some σ ∧
      ∀ result, ∃ r σ', tryacquire σ 1 0 2 result = some (r, σ') ∧ TellsOwner σ 1 0 r σ' := by
  obtain ⟨σ, hσ⟩ := Option.isSome_iff_exists.mp
    (by decide : (run step (initial (Fin 2) (Fin 1) 1) contendedRun).isSome = true)
  have hseen : (run step (initial (Fin 2) (Fin 1) 1) contendedRun).map
      (fun σ => ((σ.tx 1).phase, (σ.mgr.sentinel 0).owner)) = some (.running, some 0) := by decide
  rw [hσ] at hseen
  obtain ⟨hp, ho⟩ := Prod.mk.inj (Option.some.inj hseen)
  have hret : (σ.tx 1).phase.xactstate = .retryable := by rw [hp]; rfl
  refine ⟨σ, hσ, (tryacquire_tells_iff _ _ _ σ (reach_of_run contendedRun hσ) 1 hret 0 2).mpr ?_⟩
  rw [ho]
  decide

/-- **A repeated call is told nothing.**  The first transaction asks for its own sentinel again,
the returned variable is left as it was found, and may say that the sentinel is busy. -/
theorem tryacquire_again_untold :
    ¬ ∀ σ : Sys (Fin 2) (Fin 1) 1, Reach step any (· = initial (Fin 2) (Fin 1) 1) σ →
      ∀ t, (σ.tx t).phase.xactstate = .retryable → ∀ s flags result,
        ∃ r σ', tryacquire σ t s flags result = some (r, σ') ∧ TellsOwner σ t s r σ' := by
  intro hall
  obtain ⟨σ, hσ⟩ := Option.isSome_iff_exists.mp
    (by decide : (run step (initial (Fin 2) (Fin 1) 1) contendedRun).isSome = true)
  have hseen : (run step (initial (Fin 2) (Fin 1) 1) contendedRun).map
      (fun σ => ((σ.tx 0).phase, (σ.mgr.sentinel 0).owner, (σ.tx 0).desc.sentinelList))
        = some (.running, some 0, [⟨0, 3⟩]) := by decide
  rw [hσ] at hseen
  obtain ⟨hp, h⟩ := Prod.mk.inj (Option.some.inj hseen)
  obtain ⟨ho, hl⟩ := Prod.mk.inj h
  have hret : (σ.tx 0).phase.xactstate = .retryable := by rw [hp]; rfl
  have hown : Owns σ 0 0 := ⟨⟨0, 3⟩, by rw [hl]; exact List.mem_singleton_self _, rfl, rfl⟩
  obtain ⟨r, σ', hr, htells⟩ :=
    hall σ (reach_of_run contendedRun hσ) 0 hret 0 sentinelAcquireonretry rBusysentinel
  obtain ⟨σ1, h1, _⟩ := tryacquire_owned ho sentinelAcquireonretry rBusysentinel
  rw [h1] at hr
  obtain ⟨rfl, rfl⟩ := Prod.mk.inj (Option.some.inj hr)
  exact absurd (htells.again hown).1 (by decide)

end XCalls
