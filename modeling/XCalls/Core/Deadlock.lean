import XCalls.Core.Isolation

/-!
# No deadlock on sentinels

Running transactions only try the mutexes; a transaction that retries holds nothing but the
sentinels it has acquired again, and it acquires them by rising id.

* `Waits`            a transaction is blocked on a mutex that another holds;
* `abortsOnBusy`     the condition on runs: an attempt that got `TXC_R_BUSYSENTINEL` aborts;
* `Tidy`             no list has a sentinel twice, the preacquire list rises, and a transaction that
                     is acquiring holds exactly the part of that list that it has passed;
* `no_sentinel_deadlock`   the wait-for relation has no cycle in any reachable state.
-/

set_option linter.unusedSectionVars false

namespace XCalls
open EventSys
variable {T K : Type} [DecidableEq T] [DecidableEq K] {n : Nat}

/-- `t` is blocked on a sentinel mutex that `t'` holds -/
def Waits (σ : Sys T K n) (t t' : T) : Prop :=
  ∃ l k e, (σ.tx t).phase = .acquiring l k ∧ (σ.tx t).desc.sentinelListPreacquire[k]? = some e ∧
    (σ.mgr.sentinel e.sentinel).mutex = some t'

/-- after `TXC_R_BUSYSENTINEL` an attempt does nothing but abort -/
def abortsOnBusy (σ : Sys T K n) (ev : Event T K n) : Prop :=
  match ev with
  | .abort _ _ | .conflict _ | .next _ | .koaCreate _ | .koaDestroy _ => True
  | .preBegin t | .postBegin t | .tryacquire t _ _ _ | .registerCommit t _ _ _
  | .registerUndo t _ _ _ | .becomeIrrevocable t | .commit t => (σ.tx t).busy = false

instance (σ : Sys T K n) (ev : Event T K n) : Decidable (abortsOnBusy σ ev) :=
  match ev with
  | .abort _ _ | .conflict _ | .next _ | .koaCreate _ | .koaDestroy _ => instDecidableTrue
  | .preBegin t | .postBegin t | .tryacquire t _ _ _ | .registerCommit t _ _ _
  | .registerUndo t _ _ _ | .becomeIrrevocable t | .commit t =>
    inferInstanceAs (Decidable ((σ.tx t).busy = false))

/-! ## the lists of one transaction -/

def Clean (ts : TxState n) : Prop := ∀ e ∈ ts.desc.sentinelList, e.acquired = true

def reacquired (e : SentinelEntry (Fin n)) : SentinelEntry (Fin n) :=
  ⟨e.sentinel, sentinelAcquired ||| sentinelAcquireonretry⟩

def Phase.Tidy (ts : TxState n) : Phase → Prop
  | .running => ts.busy = false → Clean ts
  | .undoing l => Pending .sentinelmgrUndo ts.desc.undoActionList.entries l ∨ Clean ts
  | .acquiring _ k =>
    ts.desc.sentinelList = (ts.desc.sentinelListPreacquire.take k).map reacquired
  | _ => Clean ts

structure Tidy (ts : TxState n) : Prop where
  nodup : (ts.desc.sentinelList.map SentinelEntry.sentinel).Nodup
  rising : ts.desc.sentinelListPreacquire.Pairwise fun a b => a.sentinel.val < b.sentinel.val
  phase : ts.phase.Tidy ts

theorem acquired_reacquired (e : SentinelEntry (Fin n)) : (reacquired e).acquired = true :=
  acquired_enlisted e.sentinel sentinelAcquireonretry

theorem preacquire_abort (txd : TxDesc Act (Fin n)) (reason : AbortReason) :
    (tmsystemAbortTransaction txd reason).sentinelListPreacquire = txd.sentinelListPreacquire := by
  unfold tmsystemAbortTransaction tmsystemRegisterGenericUndoAction
  split <;> rfl

theorem clean_nil {txd : TxDesc Act (Fin n)} {p : Phase} {b : Bool} (h : txd.sentinelList = []) :
    Clean ⟨txd, p, b⟩ := by
  intro e he
  rw [show (⟨txd, p, b⟩ : TxState n).desc.sentinelList = [] from h] at he
  cases he

theorem clean_congr {ts : TxState n} {txd : TxDesc Act (Fin n)} {p : Phase} {b : Bool}
    (h : Clean ts) (hl : txd.sentinelList = ts.desc.sentinelList) : Clean ⟨txd, p, b⟩ := by
  intro e he
  exact h e (hl ▸ he)

/-- a sorted list without repetition rises -/
theorem rising_of_sorted {l : List (SentinelEntry (Fin n))}
    (hs : l.Pairwise fun a b => a.sentinel.val ≤ b.sentinel.val)
    (hn : (l.map SentinelEntry.sentinel).Nodup) :
    l.Pairwise fun a b => a.sentinel.val < b.sentinel.val := by
  have hne : l.Pairwise fun a b => a.sentinel ≠ b.sentinel := List.pairwise_map.mp hn
  refine (hs.and hne).imp ?_
  rintro a b ⟨hle, hne⟩
  exact Nat.lt_of_le_of_ne hle fun hc => hne (Fin.ext hc)

theorem nodup_of_rising {l : List (SentinelEntry (Fin n))}
    (h : l.Pairwise fun a b => a.sentinel.val < b.sentinel.val) :
    (l.map SentinelEntry.sentinel).Nodup := by
  refine List.pairwise_map.mpr (h.imp ?_)
  intro a b hlt hc
  rw [hc] at hlt
  exact Nat.lt_irrefl _ hlt

/-- the sorted preacquire list of a list without repetition rises -/
theorem rising_preacquire {m : SentinelMgr T n} (hid : ∀ s, (m.sentinel s).id = s.val)
    {l pre : List (SentinelEntry (Fin n))} (hn : (l.map SentinelEntry.sentinel).Nodup)
    (hs : sentinelListSort m (retryEntries l) = some pre) :
    pre.Pairwise fun a b => a.sentinel.val < b.sentinel.val := by
  obtain ⟨hperm, hsorted⟩ := sentinelListSort_cases hs
  refine rising_of_sorted (hsorted.imp ?_) ?_
  · intro a b hle
    simp only [hid] at hle
    exact_mod_cast hle
  · rw [(hperm.map SentinelEntry.sentinel).nodup_iff]
    unfold retryEntries
    rw [List.map_map]
    exact (List.filter_sublist.map _).nodup hn

section
variable {t : T} {ts ts' : TxState n} {m m' : SentinelMgr T n} {ev : Event T K n}

/-- a sentinel that `t` does not own is not in its list, if all entries are acquired -/
theorem nodup_enlist (h : Tidy ts) (hc : Clean ts)
    (hown : ∀ e ∈ ts.desc.sentinelList, e.acquired = true → (m.sentinel e.sentinel).owner = some t)
    {s : Fin n} (hs : (m.sentinel s).owner ≠ some t) (st : UInt32) :
    ((ts.desc.sentinelList ++ [(⟨s, st⟩ : SentinelEntry (Fin n))]).map
      SentinelEntry.sentinel).Nodup := by
  rw [List.map_append, List.nodup_append]
  refine ⟨h.nodup, List.nodup_singleton _, ?_⟩
  intro a ha b hb hab
  obtain ⟨e, he, rfl⟩ := List.mem_map.mp ha
  have hb : b = s := List.mem_singleton.mp hb
  apply hs
  rw [← hb, ← hab]
  exact hown e he (hc e he)

/-- a rollback leaves the manager's action pending, or nothing but acquired entries -/
theorem tidy_rollback (h : Tidy ts)
    (hu : ReadyUndo ts.desc ts.desc.sentinelList ∨ (IdleUndo ts.desc ∧ Clean ts)) :
    Tidy (rollback ts) := by
  unfold rollback
  cases hi : ts.desc.itmUndo with
  | true =>
    rw [if_pos rfl]
    refine ⟨h.nodup, h.rising, ?_⟩
    rcases hu with hu | hu
    · by_cases hne : ts.desc.sentinelList = []
      · exact Or.inr (clean_nil hne)
      · exact Or.inl (hu.pending hne)
    · have := hu.1.2.2.2
      rw [hi] at this
      cases this
  | false =>
    rw [if_neg (by simp)]
    have hc : Clean ts := by
      rcases hu with hu | hu
      · exact clean_nil (hu.idle hi).2
      · exact hu.2
    refine ⟨h.nodup, h.rising, ?_⟩
    have hc' : Clean ⟨endAttempt ts.desc, afterRollback ts.desc.abortReason, false⟩ :=
      clean_congr hc rfl
    show (afterRollback ts.desc.abortReason).Tidy _
    cases hr : ts.desc.abortReason <;> rw [hr] at hc' <;> exact hc'

theorem Tidy.same {txd : TxDesc Act (Fin n)} {p : Phase} {b : Bool} (h : Tidy ts)
    (hl : txd.sentinelList = ts.desc.sentinelList)
    (hpre : txd.sentinelListPreacquire = ts.desc.sentinelListPreacquire)
    (hp : p.Tidy ⟨txd, p, b⟩) : Tidy ⟨txd, p, b⟩ :=
  ⟨by rw [show (⟨txd, p, b⟩ : TxState n).desc.sentinelList = _ from hl]; exact h.nodup,
    by rw [show (⟨txd, p, b⟩ : TxState n).desc.sentinelListPreacquire = _ from hpre]
       exact h.rising, hp⟩

theorem preacquire_register (txd : TxDesc Act (Fin n)) :
    (registerSentinelmgrCommitAction
      (registerSentinelmgrUndoAction txd)).sentinelListPreacquire = txd.sentinelListPreacquire := by
  unfold registerSentinelmgrCommitAction registerSentinelmgrUndoAction
  split <;> split <;> simp only [txRegisterCommitAction_eq, txRegisterUndoAction_eq]

theorem preacquire_postbegin (txd : TxDesc Act (Fin n)) :
    (sentinelTransactionPostbegin txd).sentinelListPreacquire = txd.sentinelListPreacquire := by
  unfold sentinelTransactionPostbegin registerSentinelmgrCommitAction
    registerSentinelmgrUndoAction
  split
  · split <;> split <;> simp only [txRegisterCommitAction_eq, txRegisterUndoAction_eq]
  · rfl

/-- **One step keeps the lists tidy.** -/
theorem txStep_tidy (hw : Wf ts) (hu : UndoInv ts) (h : Tidy ts)
    (hown : ∀ e ∈ ts.desc.sentinelList, e.acquired = true → (m.sentinel e.sentinel).owner = some t)
    (hid : ∀ s, (m.sentinel s).id = s.val)
    (hok : (∀ r, ev ≠ .abort t r) → ev ≠ .conflict t → ev ≠ .next t → ts.busy = false)
    (hstep : TxStep t ts m ev ts' m') : Tidy ts' := by
  have hph := h.phase
  have hl := hw.loop
  cases hstep with
  | preBegin hp =>
    rw [hp] at hph
    exact h.same rfl rfl (clean_congr hph rfl)
  | postBegin hp =>
    rw [hp] at hph
    exact h.same (sentinelList_postbegin _) (preacquire_postbegin _)
      fun _ => clean_congr hph (sentinelList_postbegin _)
  | keep s flags result b hp =>
    have hb : ts.busy = false := hok (by simp) (by simp) (by simp)
    refine h.same rfl rfl ?_
    cases hphase : ts.phase with
    | running => rw [hphase] at hph; exact fun _ => clean_congr (hph hb) rfl
    | undoing l => rw [hphase] at hph; exact hph.imp id fun hc => clean_congr hc rfl
    | acquiring l k => rw [hphase] at hph; exact hph
    | outside | begun | irrevocable | committing l =>
      rw [hphase] at hph
      exact clean_congr hph rfl
  | acquire s flags result hp hf ho hm =>
    have hb : ts.busy = false := hok (by simp) (by simp) (by simp)
    rw [hp] at hph
    refine ⟨nodup_enlist h (hph hb) hown ho _, ?_, fun _ e he => ?_⟩
    · show (registerSentinelmgrCommitAction _).sentinelListPreacquire.Pairwise _
      rw [preacquire_register]
      exact h.rising
    · rcases List.mem_append.mp he with he | he
      · exact hph hb e he
      · obtain rfl := List.mem_singleton.mp he
        exact acquired_enlisted s flags
  | busy s flags result hp hf ho =>
    have hb : ts.busy = false := hok (by simp) (by simp) (by simp)
    rw [hp] at hph
    refine ⟨nodup_enlist h (hph hb) hown ho _, ?_, fun hc => absurd hc (by simp)⟩
    show (registerSentinelmgrCommitAction _).sentinelListPreacquire.Pairwise _
    rw [preacquire_register]
    exact h.rising
  | registerCommit a r o hp h0 =>
    rw [txRegisterCommitAction_eq]
    refine h.same rfl rfl ?_
    rcases hp with hp | hp <;> rw [hp] at hph ⊢
    · exact fun hb => clean_congr (hph hb) rfl
    · exact clean_congr hph rfl
  | registerUndo a r o hp h0 =>
    rw [txRegisterUndoAction_eq]
    refine h.same rfl rfl ?_
    rcases hp with hp | hp <;> rw [hp] at hph ⊢
    · exact fun hb => clean_congr (hph hb) rfl
    · exact clean_congr hph rfl
  | becomeIrrevocable hp =>
    have hb : ts.busy = false := hok (by simp) (by simp) (by simp)
    rw [hp] at hph
    exact h.same rfl rfl (clean_congr (hph hb) rfl)
  | abort reason hp =>
    have hready := (hu.running (Or.inl hp)).1
    rw [rollback_abort hready]
    refine h.same (sentinelList_abort _ _) (preacquire_abort _ _) ?_
    by_cases hne : ts.desc.sentinelList = []
    · exact Or.inr (clean_nil ((sentinelList_abort _ _).trans hne))
    · exact Or.inl ((readyUndo_abort hready reason).pending hne)
  | conflict hp =>
    refine tidy_rollback h ?_
    rcases hp with hp | hp
    · exact Or.inl (hu.running (Or.inl hp)).1
    · unfold UndoInv at hu
      rw [hp] at hu hph
      exact Or.inr ⟨hu.1, hph⟩
  | commit hp hc =>
    have hb : ts.busy = false := hok (by simp) (by simp) (by simp)
    refine h.same rfl rfl (clean_congr ?_ rfl)
    rcases hp with hp | hp <;> rw [hp] at hph
    · exact hph hb
    · exact hph
  | commitNothing hp hc =>
    have hb : ts.busy = false := hok (by simp) (by simp) (by simp)
    refine h.same rfl rfl (clean_congr ?_ rfl)
    rcases hp with hp | hp <;> rw [hp] at hph
    · exact hph hb
    · exact hph
  | commitExit l hp hn => rw [hp] at hph; exact h.same rfl rfl (clean_congr hph rfl)
  | commitMove l l' hp hn => rw [hp] at hph; exact h.same rfl rfl (clean_congr hph rfl)
  | commitOther l l' e hp hn hf => rw [hp] at hph; exact h.same rfl rfl (clean_congr hph rfl)
  | commitRelease l l' e hp hn hf => exact ⟨List.nodup_nil, h.rising, clean_nil rfl⟩
  | undoExit l hp hn =>
    rw [hp] at hph hl
    have hc : Clean ts := hph.resolve_left
      (not_pending_exit hl hn fun e he => List.mem_reverse.mpr he)
    refine h.same rfl rfl ?_
    cases ts.desc.abortReason <;> exact clean_congr hc rfl
  | undoMove l l' hp hn =>
    rw [hp] at hph
    exact h.same rfl rfl (hph.imp (·.move hn) fun hc => clean_congr hc rfl)
  | undoOther l l' e hp hn hf =>
    rw [hp] at hph
    exact h.same rfl rfl (hph.imp (·.call hn hf) fun hc => clean_congr hc rfl)
  | undoRelease l l' e hp hn hf hr => exact ⟨List.nodup_nil, h.rising, Or.inr (clean_nil rfl)⟩
  | undoRetry l l' e pre hp hn hf hr hs =>
    exact ⟨List.nodup_nil, rising_preacquire hid h.nodup hs, rfl⟩
  | acquireDone l k hp hk =>
    rw [hp] at hph
    refine h.same rfl rfl (Or.inr fun e he => ?_)
    have he : e ∈ ts.desc.sentinelList := he
    rw [hph] at he
    obtain ⟨x, _, rfl⟩ := List.mem_map.mp he
    exact acquired_reacquired x
  | acquireOne l k e hp hk hm =>
    rw [hp] at hph
    have hlist : ts.desc.sentinelList ++ [reacquired e]
        = (ts.desc.sentinelListPreacquire.take (k + 1)).map reacquired := by
      rw [List.take_add_one, hk, List.map_append, hph]
      rfl
    refine ⟨?_, h.rising, hlist⟩
    show ((ts.desc.sentinelList ++ [reacquired e]).map SentinelEntry.sentinel).Nodup
    rw [hlist, List.map_map]
    exact nodup_of_rising (h.rising.sublist (List.take_sublist _ _))

end

/-! ## runs -/

theorem TxStep.of_eq {t : T} {ts ts' : TxState n} {m m' : SentinelMgr T n} {ev : Event T K n}
    (h : TxStep t ts m ev ts' m') : ev.of = some t := by
  cases h <;> rfl

section
variable [Fintype T] [Fintype K] {σ σ' : Sys T K n}

theorem owner_of_acquired (hx : Exact σ) (t : T) (e : SentinelEntry (Fin n))
    (he : e ∈ (σ.tx t).desc.sentinelList) (ha : e.acquired = true) :
    (σ.mgr.sentinel e.sentinel).owner = some t := by
  rw [hx.owner]
  exact (owns_iff hx t e.sentinel).mp ⟨e, he, rfl, ha⟩

theorem busy_false_of_ok {ev : Event T K n} {t : T} (hok : abortsOnBusy σ ev)
    (ht : ev.of = some t) (h1 : ∀ r, ev ≠ .abort t r) (h2 : ev ≠ .conflict t)
    (h3 : ev ≠ .next t) : (σ.tx t).busy = false := by
  cases ev with
  | abort t' r => cases ht; exact absurd rfl (h1 r)
  | conflict t' => cases ht; exact absurd rfl h2
  | next t' => cases ht; exact absurd rfl h3
  | koaCreate k | koaDestroy k => cases ht
  | preBegin | postBegin | tryacquire | registerCommit | registerUndo | becomeIrrevocable
  | commit => cases ht; exact hok

theorem step_tidy {ev : Event T K n} (hx : Exact σ) (htx : TxsOk σ) (h : ∀ t, Tidy (σ.tx t))
    (hok : abortsOnBusy σ ev) (hs : step σ ev = some σ') (t : T) : Tidy (σ'.tx t) := by
  rcases step_tx hs t with heq | hst
  · rw [heq]
    exact h t
  · exact txStep_tidy (htx.wf t) (htx.undo t) (h t) (owner_of_acquired hx t) hx.ids
      (busy_false_of_ok hok hst.of_eq) hst

theorem tidy_of_reach (h : Reach step abortsOnBusy (· = initial T K n) σ) :
    ∀ t, Tidy (σ.tx t) := by
  have hall : Exact σ ∧ TxsOk σ ∧ ∀ t, Tidy (σ.tx t) := by
    refine h.inv (I := fun σ => Exact σ ∧ TxsOk σ ∧ ∀ t, Tidy (σ.tx t)) (fun σ h0 => ?_)
      fun σ ev σ' hi hok hs => ?_
    · subst h0
      exact ⟨exact_initial, txsOk_initial,
        fun _ => ⟨List.nodup_nil, List.Pairwise.nil, clean_nil rfl⟩⟩
    · exact ⟨step_exact hi.1 hs, step_txsOk hi.2.1 hs, step_tidy hi.1 hi.2.1 hi.2.2 hok hs⟩
  exact hall.2.2

/-- the id of the sentinel that `t` is about to acquire -/
def waitedId (σ : Sys T K n) (t : T) : Nat :=
  match (σ.tx t).phase with
  | .acquiring _ k =>
    match (σ.tx t).desc.sentinelListPreacquire[k]? with
    | some e => e.sentinel.val
    | none => 0
  | _ => 0

theorem waitedId_eq {t : T} {l : Loop Act} {k : Nat} {e : SentinelEntry (Fin n)}
    (hp : (σ.tx t).phase = .acquiring l k)
    (hk : (σ.tx t).desc.sentinelListPreacquire[k]? = some e) : waitedId σ t = e.sentinel.val := by
  unfold waitedId
  rw [hp]
  simp only [hk]

/-- what a waiting transaction holds has a lower id than what it waits for -/
theorem owned_below {t : T} {l : Loop Act} {k : Nat} {e : SentinelEntry (Fin n)} (h : Tidy (σ.tx t))
    (hp : (σ.tx t).phase = .acquiring l k)
    (hk : (σ.tx t).desc.sentinelListPreacquire[k]? = some e) {s : Fin n} (ho : Owns σ t s) :
    s.val < e.sentinel.val := by
  have hph := h.phase
  rw [hp] at hph
  obtain ⟨x, hx, rfl, _⟩ := ho
  rw [show (σ.tx t).desc.sentinelList = _ from hph] at hx
  obtain ⟨y, hy, rfl⟩ := List.mem_map.mp hx
  obtain ⟨j, hj, hjy⟩ := List.mem_take_iff_getElem.mp hy
  obtain ⟨hlt, heq⟩ := List.getElem?_eq_some_iff.mp hk
  have hrise := List.pairwise_iff_getElem.mp h.rising j k (by omega) hlt (by omega)
  rw [heq, hjy] at hrise
  exact hrise

end

/-- **No deadlock.**  When every attempt that got `TXC_R_BUSYSENTINEL` aborts, no cycle of
transactions that wait for each other is reachable; no transaction waits for itself, and no
preacquire list has a sentinel twice. -/
theorem no_sentinel_deadlock (T K : Type) [DecidableEq T] [DecidableEq K] [Fintype T] [Fintype K]
    (n : Nat) (σ : Sys T K n) (h : Reach step abortsOnBusy (· = initial T K n) σ) :
    (∀ t, ¬ Relation.TransGen (Waits σ) t t) ∧ (∀ t, ¬ Waits σ t t) ∧
      ∀ t, ((σ.tx t).desc.sentinelListPreacquire.map SentinelEntry.sentinel).Nodup := by
  have hx : Exact σ := exact_of_reach h
  have htidy := tidy_of_reach h
  have hacyclic : ∀ t, ¬ Relation.TransGen (Waits σ) t t := by
    refine acyclic_of_rank (Waits σ) (fun t => ∃ t', Waits σ t t') (waitedId σ) ?_
      fun a b hab => ⟨b, hab⟩
    rintro a b ⟨l, k, e, hp, hk, hm⟩ ⟨c, l', k', e', hp', hk', _⟩
    rw [waitedId_eq hp hk, waitedId_eq hp' hk']
    exact owned_below (htidy b) hp' hk' ((owns_iff hx b e.sentinel).mpr hm)
  exact ⟨hacyclic, fun t hw => hacyclic t (.single hw), fun t => nodup_of_rising (htidy t).rising⟩

/-- in the run `busyRun` the second transaction ends up waiting for the first -/
theorem no_sentinel_deadlock_busyRun :
    ∃ σ, run (guarded step abortsOnBusy) (initial (Fin 2) (Fin 1) 2) busyRun = some σ ∧
      Waits σ 1 0 ∧ (∀ t, ¬ Relation.TransGen (Waits σ) t t) ∧ (∀ t, ¬ Waits σ t t) ∧
        ∀ t, ((σ.tx t).desc.sentinelListPreacquire.map SentinelEntry.sentinel).Nodup := by
  obtain ⟨σ, hσ⟩ := Option.isSome_iff_exists.mp
    (by decide : (run (guarded step abortsOnBusy) (initial (Fin 2) (Fin 1) 2)
      busyRun).isSome = true)
  have hwait : (run (guarded step abortsOnBusy) (initial (Fin 2) (Fin 1) 2) busyRun).map
      (fun σ => ((σ.tx 1).phase, (σ.tx 1).desc.sentinelListPreacquire, (σ.mgr.sentinel 0).mutex))
      = some (.acquiring ⟨2, .entry 1, [⟨.sentinelmgrUndo, none, 2⟩]⟩ 0, [⟨0, 0⟩], some 0) := by
    decide
  rw [hσ] at hwait
  simp only [Option.map_some, Option.some.injEq, Prod.mk.injEq] at hwait
  obtain ⟨hp, hpre, hm⟩ := hwait
  exact ⟨σ, hσ, ⟨_, 0, ⟨0, 0⟩, hp, by rw [hpre]; rfl, hm⟩,
    no_sentinel_deadlock _ _ _ σ (reach_of_guarded busyRun hσ)⟩

end XCalls
