import XCalls.Core.Registered

/-!
# Strict two-phase isolation

* `Owns`            `t` has an acquired entry for the sentinel in its list;
* `ReleasePoint`    the generic action of `t` is about to call the sentinel manager's action, and
                    every action of the orders 0 and 1 has been called;
* `strict_two_phase`   one owner at a time, release only at a release point, nothing kept after
                    the end, in every run in which no attempt that has registered a commit action
                    but no undo action is rolled back by a conflict;
* `isolation_lost`  a run with such a rollback after which a committed transaction keeps a sentinel.
-/

set_option linter.unusedSectionVars false

namespace XCalls
open EventSys
variable {T K : Type} [DecidableEq T] [DecidableEq K] {n : Nat}

/-! ## where sentinels are released -/

/-- every action of the orders 0 and 1 has been called as often as it was registered -/
def LowOrdersDone (acts : List (ActionEntry Act)) (l : Loop Act) : Prop :=
  ∀ e, e.order = 0 ∨ e.order = 1 → l.executed.count e = acts.count e

def ReleasePoint (ts : TxState n) : Prop :=
  (∃ l e l', ts.phase = .committing l ∧ l.next (commitScan ts.desc) = .call e l' ∧
    e.function = .sentinelmgrCommit ∧ LowOrdersDone ts.desc.commitActionList.entries l) ∨
  (∃ l e l', ts.phase = .undoing l ∧ l.next (undoScan ts.desc) = .call e l' ∧
    e.function = .sentinelmgrUndo ∧ LowOrdersDone ts.desc.undoActionList.entries l)

section
variable {t : T} {ts ts' : TxState n} {m m' : SentinelMgr T n} {ev : Event T K n}

theorem lowOrdersDone {l l' : Loop Act} {e : ActionEntry Act} {scan : List (ActionEntry Act)}
    (hi : l.Inv scan) (hn : l.next scan = .call e l') (he : e.order = sentinelmgrActionOrder)
    (x : ActionEntry Act) (hx : x.order = 0 ∨ x.order = 1) :
    l.executed.count x = scan.count x := by
  have hkey : e.key = 2 := by
    unfold ActionEntry.key
    rw [he]
    rfl
  apply (Loop.lower_executed hi hn).2
  · unfold ActionEntry.key
    rcases hx with hx | hx <;> rw [hx] <;> decide
  · rw [hkey]
    unfold ActionEntry.key
    rcases hx with hx | hx <;> rw [hx] <;> decide

theorem releasePoint_commit (hw : Wf ts) {l l' : Loop Act} {e : ActionEntry Act}
    (hp : ts.phase = .committing l) (hn : l.next (commitScan ts.desc) = .call e l')
    (hf : e.function = .sentinelmgrCommit) : ReleasePoint ts := by
  have hl := hw.loop
  rw [hp] at hl
  have he := (hw.commits e (Loop.lower_executed hl hn).1).2 hf
  exact Or.inl ⟨l, e, l', hp, hn, hf, fun x hx => lowOrdersDone hl hn he x hx⟩

theorem releasePoint_undo (hw : Wf ts) {l l' : Loop Act} {e : ActionEntry Act}
    (hp : ts.phase = .undoing l) (hn : l.next (undoScan ts.desc) = .call e l')
    (hf : e.function = .sentinelmgrUndo) : ReleasePoint ts := by
  have hl := hw.loop
  rw [hp] at hl
  have hmem := List.mem_reverse.mp (Loop.lower_executed hl hn).1
  refine Or.inr ⟨l, e, l', hp, hn, hf, fun x hx => ?_⟩
  rw [lowOrdersDone hl hn ((hw.undos e hmem).2 hf) x hx]
  exact (List.reverse_perm _).count_eq x

/-- only a release takes acquired entries out of a list -/
theorem heldOf_step (hw : Wf ts) (hstep : TxStep t ts m ev ts' m') (s : Fin n)
    (hlt : heldOf ts'.desc.sentinelList s < heldOf ts.desc.sentinelList s) :
    ev = .next t ∧ ReleasePoint ts := by
  have hsame : ts'.desc.sentinelList = ts.desc.sentinelList → ev = .next t ∧ ReleasePoint ts := by
    intro h
    rw [h] at hlt
    exact absurd hlt (Nat.lt_irrefl _)
  have hsnoc : ∀ l, ts'.desc.sentinelList = ts.desc.sentinelList ++ l →
      ev = .next t ∧ ReleasePoint ts := by
    intro l h
    rw [h, heldOf_append] at hlt
    omega
  cases hstep with
  | commitRelease l l' e hp hn hf => exact ⟨rfl, releasePoint_commit hw hp hn hf⟩
  | undoRelease l l' e hp hn hf hr => exact ⟨rfl, releasePoint_undo hw hp hn hf⟩
  | undoRetry l l' e pre hp hn hf hr hs => exact ⟨rfl, releasePoint_undo hw hp hn hf⟩
  | acquire s flags result hp hf ho hm => exact hsnoc _ rfl
  | busy s flags result hp hf ho => exact hsnoc _ rfl
  | acquireOne l k e hp hk hm => exact hsnoc _ rfl
  | postBegin hp => exact hsame (sentinelList_postbegin _)
  | registerCommit a r o hp h0 => exact hsame (by rw [txRegisterCommitAction_eq])
  | registerUndo a r o hp h0 => exact hsame (by rw [txRegisterUndoAction_eq])
  | abort reason hp => exact hsame ((rollback_refs _).1.trans (sentinelList_abort _ _))
  | conflict hp => exact hsame (rollback_refs _).1
  | preBegin | keep | becomeIrrevocable | commit | commitNothing | commitExit | commitMove
  | commitOther | undoExit | undoMove | undoOther | acquireDone => exact hsame rfl

end

/-! ## runs -/

theorem step_tx {σ σ' : Sys T K n} {ev : Event T K n} (hs : step σ ev = some σ') (t : T) :
    σ'.tx t = σ.tx t ∨ TxStep t (σ.tx t) σ.mgr ev (σ'.tx t) σ'.mgr := by
  rcases step_cases hs with ⟨k, s, m', _, _, rfl⟩ | ⟨k, s, _, rfl⟩ | ⟨t', ts, m', ht, hst, rfl⟩
  · exact Or.inl rfl
  · exact Or.inl rfl
  · by_cases htt : t = t'
    · subst htt
      refine Or.inr ?_
      show TxStep t (σ.tx t) σ.mgr ev (Function.update σ.tx t ts t) m'
      rw [Function.update_self]
      exact txStep_cases hst ht
    · exact Or.inl (Function.update_of_ne htt _ _)

structure TxsOk (σ : Sys T K n) : Prop where
  wf : ∀ t, Wf (σ.tx t)
  undo : ∀ t, UndoInv (σ.tx t)

theorem txsOk_initial : TxsOk (initial T K n) :=
  ⟨fun _ => ⟨orders_nil _, orders_nil _, trivial⟩, fun _ => rfl⟩

theorem step_txsOk {σ σ' : Sys T K n} {ev : Event T K n} (h : TxsOk σ)
    (hs : step σ ev = some σ') : TxsOk σ' := by
  constructor
  · intro t
    rcases step_tx hs t with heq | hst
    · rw [heq]; exact h.wf t
    · exact txStep_wf (h.wf t) hst
  · intro t
    rcases step_tx hs t with heq | hst
    · rw [heq]; exact h.undo t
    · exact txStep_undoInv (h.undo t) hst

theorem txsOk_of_reach {ok : Sys T K n → Event T K n → Prop} {σ : Sys T K n}
    (h : Reach step ok (· = initial T K n) σ) : TxsOk σ :=
  h.inv (fun _ h0 => h0 ▸ txsOk_initial) fun _ _ _ hi _ hs => step_txsOk hi hs

/-- the condition on runs: an attempt with a commit action that a conflict rolls back has an undo
action too -/
def conflictsUndone (σ : Sys T K n) (ev : Event T K n) : Prop :=
  match ev with
  | .conflict t => UndoneIfCommitting (σ.tx t)
  | _ => True

instance (σ : Sys T K n) (ev : Event T K n) : Decidable (conflictsUndone σ ev) :=
  match ev with
  | .conflict _ => inferInstanceAs (Decidable (_ = true → _ = true))
  | .preBegin _ | .postBegin _ | .tryacquire _ _ _ _ | .registerCommit _ _ _ _
  | .registerUndo _ _ _ _ | .becomeIrrevocable _ | .abort _ _ | .commit _ | .next _
  | .koaCreate _ | .koaDestroy _ => instDecidableTrue

theorem commitInv_of_reach {σ : Sys T K n}
    (h : Reach step conflictsUndone (· = initial T K n) σ) : ∀ t, CommitInv (σ.tx t) := by
  have hboth : TxsOk σ ∧ ∀ t, CommitInv (σ.tx t) := by
    refine h.inv (I := fun σ => TxsOk σ ∧ ∀ t, CommitInv (σ.tx t)) (fun σ h0 => ?_)
      fun σ ev σ' hi hok hs => ?_
    · subst h0
      exact ⟨txsOk_initial, fun _ => ⟨rfl, rfl⟩⟩
    · refine ⟨step_txsOk hi.1 hs, fun t => ?_⟩
      rcases step_tx hs t with heq | hst
      · rw [heq]; exact hi.2 t
      · exact txStep_commitInv (hi.1.wf t) (hi.1.undo t) (hi.2 t) (fun he => by subst he; exact hok) hst
  exact hboth.2

/-- `t` has an acquired entry for `s` -/
def Owns (σ : Sys T K n) (t : T) (s : Fin n) : Prop :=
  ∃ e ∈ (σ.tx t).desc.sentinelList, e.sentinel = s ∧ e.acquired = true

section
variable [Fintype T] [Fintype K] {σ σ' : Sys T K n}

theorem owns_iff (h : Exact σ) (t : T) (s : Fin n) :
    Owns σ t s ↔ (σ.mgr.sentinel s).mutex = some t := by
  have hh := h.held_eq t s
  have hpos : Owns σ t s ↔ 0 < held σ t s := by
    unfold Owns held heldOf
    rw [List.countP_pos_iff]
    simp only [Bool.and_eq_true, decide_eq_true_eq]
  rw [hpos, hh]
  by_cases hm : (σ.mgr.sentinel s).mutex = some t
  · rw [if_pos hm]; simp [hm]
  · rw [if_neg hm]; simp [hm]

/-- a sentinel is released at a release point of its owner only -/
theorem release_step {ev : Event T K n} (hx : Exact σ) (htx : TxsOk σ)
    (hs : step σ ev = some σ') (t : T) (s : Fin n) (ho : Owns σ t s) (hno : ¬ Owns σ' t s) :
    ev = .next t ∧ ReleasePoint (σ.tx t) := by
  have hx' := step_exact hx hs
  have h1 : held σ t s = 1 := by rw [hx.held_eq, if_pos ((owns_iff hx t s).mp ho)]
  have h0 : held σ' t s = 0 := by
    rw [hx'.held_eq, if_neg fun hc => hno ((owns_iff hx' t s).mpr hc)]
  rcases step_tx hs t with heq | hst
  · have : held σ' t s = held σ t s := by unfold held; rw [heq]
    omega
  · refine heldOf_step (htx.wf t) hst s ?_
    show held σ' t s < held σ t s
    omega

end

/-- **Strict two-phase isolation**, in every run in which a conflict never rolls back an attempt
with a commit action and without an undo action. -/
theorem strict_two_phase (T K : Type) [DecidableEq T] [DecidableEq K] [Fintype T] [Fintype K]
    (n : Nat) (σ : Sys T K n) (h : Reach step conflictsUndone (· = initial T K n) σ) :
    (∀ t s, (Owns σ t s ↔ (σ.mgr.sentinel s).owner = some t) ∧
      (Owns σ t s ↔ (σ.mgr.sentinel s).mutex = some t)) ∧
    (∀ t t' s, Owns σ t s → Owns σ t' s → t = t') ∧
    (∀ ev σ', step σ ev = some σ' → ∀ t s, Owns σ t s → ¬ Owns σ' t s →
      ev = .next t ∧ ReleasePoint (σ.tx t)) ∧
    (∀ t, (σ.tx t).phase = .outside →
      (σ.tx t).desc.sentinelList = [] ∧ ∀ s, ¬ Owns σ t s) := by
  have hx : Exact σ := exact_of_reach h
  have htx := txsOk_of_reach h
  have hcm := commitInv_of_reach h
  refine ⟨fun t s => ⟨?_, owns_iff hx t s⟩, fun t t' s h1 h2 => ?_, ?_, fun t hp => ?_⟩
  · rw [hx.owner]
    exact owns_iff hx t s
  · have h1 := (owns_iff hx t s).mp h1
    have h2 := (owns_iff hx t' s).mp h2
    exact Option.some.inj (h1.symm.trans h2)
  · intro ev σ' hs t s ho hno
    exact release_step hx htx hs t s ho hno
  · have hc := hcm t
    unfold CommitInv at hc
    rw [hp] at hc
    refine ⟨hc.1, ?_⟩
    rintro s ⟨e, he, _⟩
    rw [hc.1] at he
    cases he

/-- one transaction acquires a sentinel, is rolled back by a conflict and commits -/
def conflictRun : List (Event (Fin 1) (Fin 1) 1) :=
  [.koaCreate 0, .preBegin 0, .postBegin 0, .tryacquire 0 0 2 0, .conflict 0]
    ++ List.replicate 12 (.next 0) ++ [.postBegin 0, .commit 0] ++ List.replicate 10 (.next 0)

theorem strict_two_phase_conflictRun :
    ∃ σ, run (guarded step conflictsUndone) (initial (Fin 1) (Fin 1) 1) conflictRun = some σ ∧
      (σ.tx 0).phase = .outside ∧
      (∀ t s, (Owns σ t s ↔ (σ.mgr.sentinel s).owner = some t) ∧
        (Owns σ t s ↔ (σ.mgr.sentinel s).mutex = some t)) ∧
      (∀ t t' s, Owns σ t s → Owns σ t' s → t = t') ∧
      (∀ ev σ', step σ ev = some σ' → ∀ t s, Owns σ t s → ¬ Owns σ' t s →
        ev = .next t ∧ ReleasePoint (σ.tx t)) ∧
      (∀ t, (σ.tx t).phase = .outside →
        (σ.tx t).desc.sentinelList = [] ∧ ∀ s, ¬ Owns σ t s) := by
  obtain ⟨σ, hσ⟩ := Option.isSome_iff_exists.mp
    (by decide : (run (guarded step conflictsUndone) (initial (Fin 1) (Fin 1) 1)
      conflictRun).isSome = true)
  have hphase : (run (guarded step conflictsUndone) (initial (Fin 1) (Fin 1) 1) conflictRun).map
      (fun σ => (σ.tx 0).phase) = some .outside := by decide
  rw [hσ] at hphase
  exact ⟨σ, hσ, Option.some.inj hphase, strict_two_phase _ _ _ σ (reach_of_guarded conflictRun hσ)⟩

/-- the same with an action deferred to the commit before the conflict, and no undo action -/
def staleRun : List (Event (Fin 1) (Fin 1) 1) :=
  [.koaCreate 0, .preBegin 0, .postBegin 0, .registerCommit 0 0 none 0, .conflict 0,
    .postBegin 0, .tryacquire 0 0 2 0, .commit 0]

/-- **Isolation is lost.**  The flag of the generic commit action outlives the attempt, the action
of the second attempt is not handed to the STM, and the committed transaction keeps its sentinel. -/
theorem isolation_lost :
    ¬ ∀ σ : Sys (Fin 1) (Fin 1) 1, Reach step any (· = initial (Fin 1) (Fin 1) 1) σ →
      ∀ t, (σ.tx t).phase = .outside →
        (σ.tx t).desc.sentinelList = [] ∧ ∀ s, ¬ Owns σ t s := by
  intro hall
  obtain ⟨σ, hσ⟩ := Option.isSome_iff_exists.mp
    (by decide : (run step (initial (Fin 1) (Fin 1) 1) staleRun).isSome = true)
  have hphase : (run step (initial (Fin 1) (Fin 1) 1) staleRun).map (fun σ => (σ.tx 0).phase)
      = some .outside := by decide
  have hlist : (run step (initial (Fin 1) (Fin 1) 1) staleRun).map
      (fun σ => (σ.tx 0).desc.sentinelList) = some [⟨0, 3⟩] := by decide
  rw [hσ] at hphase hlist
  have hl : (σ.tx 0).desc.sentinelList = [⟨0, 3⟩] := Option.some.inj hlist
  have h := (hall σ (reach_of_run staleRun hσ) 0 (Option.some.inj hphase)).1
  rw [hl] at h
  cases h

end XCalls
