import XCalls.Core.SentinelSys

/-!
# Sentinel reference counts are exact

* `refs`, `held`      the references to a sentinel, and the acquired entries of a transaction;
* `Exact`             the manager is accounted for by them;
* `txStep_exact`      a step of one transaction keeps the account;
* `exact_of_reach`    so does every run;
* `sentinel_refcnt_exact`   reference counts in every reachable state, and what follows for the pool.
-/

set_option linter.unusedSectionVars false

namespace XCalls
open EventSys
variable {T K : Type} [DecidableEq T] [DecidableEq K] {n : Nat}

/-- the entries that `t` has carried to its preacquire list and not enlisted again yet -/
def carriedOf (ts : TxState n) (s : Fin n) : Nat :=
  match ts.phase with
  | .acquiring _ k => refOf (ts.desc.sentinelListPreacquire.drop k) s
  | _ => 0

def txRefs (ts : TxState n) (s : Fin n) : Nat := refOf ts.desc.sentinelList s + carriedOf ts s

section
variable [Fintype T] [Fintype K]

def koaRefs (koa : K → Option (Fin n)) (s : Fin n) : Nat := ∑ k, if koa k = some s then 1 else 0

def refs (σ : Sys T K n) (s : Fin n) : Nat := koaRefs σ.koa s + ∑ t, txRefs (σ.tx t) s

def held (σ : Sys T K n) (t : T) (s : Fin n) : Nat := heldOf (σ.tx t).desc.sentinelList s

def Exact (σ : Sys T K n) : Prop := Accounted σ.mgr (refs σ) (held σ)

def otherRefs (σ : Sys T K n) (t : T) (s : Fin n) : Nat :=
  koaRefs σ.koa s + ∑ t' ∈ Finset.univ.erase t, txRefs (σ.tx t') s

theorem refs_eq (σ : Sys T K n) (t : T) (s : Fin n) :
    refs σ s = otherRefs σ t s + txRefs (σ.tx t) s := by
  unfold refs otherRefs
  rw [← Finset.sum_erase_add Finset.univ _ (Finset.mem_univ t), Nat.add_assoc]

theorem otherRefs_update (σ : Sys T K n) (t : T) (ts : TxState n) (m : SentinelMgr T n)
    (s : Fin n) : otherRefs ⟨Function.update σ.tx t ts, m, σ.koa⟩ t s = otherRefs σ t s := by
  unfold otherRefs
  congr 1
  refine Finset.sum_congr rfl fun t' ht' => ?_
  show txRefs (Function.update σ.tx t ts t') s = _
  rw [Function.update_of_ne (Finset.ne_of_mem_erase ht')]

theorem held_le_otherRefs (σ : Sys T K n) (t t' : T) (s : Fin n) (h : t' ≠ t) :
    held σ t' s ≤ otherRefs σ t s := by
  have h1 : txRefs (σ.tx t') s ≤ ∑ x ∈ Finset.univ.erase t, txRefs (σ.tx x) s :=
    Finset.single_le_sum (f := fun x => txRefs (σ.tx x) s) (fun _ _ => Nat.zero_le _)
      (Finset.mem_erase.mpr ⟨h, Finset.mem_univ t'⟩)
  have h2 := heldOf_le (σ.tx t').desc.sentinelList s
  unfold held otherRefs
  unfold txRefs at h1 ⊢
  omega

theorem koaRefs_update (koa : K → Option (Fin n)) (k : K) (v : Option (Fin n)) (s : Fin n) :
    koaRefs (Function.update koa k v) s + (if koa k = some s then 1 else 0)
      = koaRefs koa s + if v = some s then 1 else 0 := by
  unfold koaRefs
  rw [← Finset.sum_erase_add Finset.univ _ (Finset.mem_univ k),
    ← Finset.sum_erase_add (s := Finset.univ) (f := fun k => if koa k = some s then 1 else 0)
      (h := Finset.mem_univ k), Function.update_self]
  have hrest : ∀ k' ∈ Finset.univ.erase k,
      (if Function.update koa k v k' = some s then 1 else 0) = if koa k' = some s then 1 else 0 := by
    intro k' hk'
    rw [Function.update_of_ne (Finset.ne_of_mem_erase hk')]
  rw [Finset.sum_congr rfl hrest]
  omega

end

/-! ## one transaction -/

theorem refOf_perm {l l' : List (SentinelEntry (Fin n))} (h : l.Perm l') (s : Fin n) :
    refOf l s = refOf l' s := h.countP_eq _

theorem refOf_retryEntries (l : List (SentinelEntry (Fin n))) (s : Fin n) :
    refOf (retryEntries l) s = keptOf false l s := by
  unfold refOf retryEntries keptOf
  rw [List.countP_map, List.countP_filter]
  rfl

theorem refOf_singleton (s x : Fin n) (st : UInt32) :
    refOf [⟨s, st⟩] x = if x = s then 1 else 0 := by
  rw [refOf_cons]
  exact Nat.zero_add _

theorem acquireOnRetry_cases (flags : UInt32) :
    acquireOnRetry flags = sentinelAcquireonretry ∨ acquireOnRetry flags = 0 := by
  unfold acquireOnRetry
  split
  · exact Or.inl rfl
  · exact Or.inr rfl

theorem acquired_enlisted (s : Fin n) (flags : UInt32) :
    (⟨s, sentinelAcquired ||| acquireOnRetry flags⟩ : SentinelEntry (Fin n)).acquired = true := by
  show ((sentinelAcquired ||| acquireOnRetry flags) &&& sentinelAcquired != 0) = true
  rcases acquireOnRetry_cases flags with h | h <;> rw [h] <;> decide

theorem heldOf_acquired (s x : Fin n) (flags : UInt32) :
    heldOf [⟨s, sentinelAcquired ||| acquireOnRetry flags⟩] x = if x = s then 1 else 0 := by
  rw [heldOf_cons]
  simp only [acquired_enlisted, and_true]
  exact Nat.zero_add _

theorem busy_enlisted (s : Fin n) (flags : UInt32) :
    (⟨s, acquireOnRetry flags⟩ : SentinelEntry (Fin n)).acquired = false := by
  show (acquireOnRetry flags &&& sentinelAcquired != 0) = false
  rcases acquireOnRetry_cases flags with h | h <;> rw [h] <;> decide

theorem heldOf_busy (s x : Fin n) (flags : UInt32) :
    heldOf [⟨s, acquireOnRetry flags⟩] x = 0 := by
  rw [heldOf_cons, if_neg (by rw [busy_enlisted]; exact fun hc => Bool.false_ne_true hc.2)]
  rfl

theorem sentinelList_postbegin (txd : TxDesc Act (Fin n)) :
    (sentinelTransactionPostbegin txd).sentinelList = txd.sentinelList := by
  unfold sentinelTransactionPostbegin registerSentinelmgrCommitAction
    registerSentinelmgrUndoAction
  split
  · split <;> split <;> simp only [txRegisterCommitAction_eq, txRegisterUndoAction_eq]
  · rfl

theorem sentinelList_abort (txd : TxDesc Act (Fin n)) (reason : AbortReason) :
    (tmsystemAbortTransaction txd reason).sentinelList = txd.sentinelList := by
  unfold tmsystemAbortTransaction tmsystemRegisterGenericUndoAction
  split <;> rfl

theorem rollback_refs (ts : TxState n) :
    (rollback ts).desc.sentinelList = ts.desc.sentinelList ∧ carriedOf (rollback ts) = 0 := by
  unfold rollback
  split
  · exact ⟨rfl, rfl⟩
  · refine ⟨rfl, funext fun s => ?_⟩
    show (match afterRollback ts.desc.abortReason with | .acquiring _ k => _ | _ => 0) = 0
    cases ts.desc.abortReason <;> rfl

/-- the account with the references and mutexes of `t` apart -/
def TxExact (t : T) (base : Fin n → Nat) (other : T → Fin n → Nat) (ts : TxState n)
    (m : SentinelMgr T n) : Prop :=
  Accounted m (fun s => base s + txRefs ts s)
    (fun t' s => if t' = t then heldOf ts.desc.sentinelList s else other t' s)

section
variable {t : T} {base : Fin n → Nat} {other : T → Fin n → Nat} {ts ts' : TxState n}
  {m m' : SentinelMgr T n}

theorem TxExact.quiet (h : TxExact t base other ts m)
    (hl : ts'.desc.sentinelList = ts.desc.sentinelList) (hc : carriedOf ts' = carriedOf ts) :
    TxExact t base other ts' m := by
  unfold TxExact txRefs at *
  rw [hl, hc]
  exact h

theorem carriedOf_of_phase {p : Phase} (hp : ts.phase = p) (hn : ∀ l k, p ≠ .acquiring l k) :
    carriedOf ts = 0 := by
  funext s
  unfold carriedOf
  rw [hp]
  cases p with
  | acquiring l k => exact absurd rfl (hn l k)
  | outside | begun | running | irrevocable | committing | undoing => rfl

theorem TxExact.quietly {p p' : Phase} (h : TxExact t base other ts m)
    (hp : ts.phase = p) (hn : ∀ l k, p ≠ .acquiring l k)
    (hp' : ts'.phase = p') (hn' : ∀ l k, p' ≠ .acquiring l k)
    (hl : ts'.desc.sentinelList = ts.desc.sentinelList) : TxExact t base other ts' m :=
  h.quiet hl (by rw [carriedOf_of_phase hp hn, carriedOf_of_phase hp' hn'])

theorem TxExact.complete {p p' : Phase} {txd : TxDesc Act (Fin n)} (h : TxExact t base other ts m)
    (hle : ∀ t' s, t' ≠ t → other t' s ≤ base s)
    (hp : ts.phase = p) (hn : ∀ l k, p ≠ .acquiring l k) (hn' : ∀ l k, p' ≠ .acquiring l k)
    (hl : txd.sentinelList = []) :
    TxExact t base other ⟨txd, p', ts.busy⟩
      (sentinelListRelease true m ts.desc.sentinelList) := by
  have h1 : Accounted m (fun s => base s + refOf ts.desc.sentinelList s)
      (fun t' s => if t' = t then heldOf ts.desc.sentinelList s else other t' s) := by
    refine h.congr (fun s => ?_) fun _ _ => rfl
    rw [txRefs, carriedOf_of_phase hp hn]
    rfl
  refine (h1.release true _ _ _ hle).congr (fun s => ?_) fun t' s => ?_
  · have hc : carriedOf ⟨txd, p', ts.busy⟩ = 0 := carriedOf_of_phase rfl hn'
    rw [txRefs, hc, hl]
    unfold keptOf
    simp [refOf]
  · rw [hl]
    rfl

/-- the release before a retry: the references that are kept are the carried ones -/
theorem TxExact.retry {l l' : Loop Act} {pre : List (SentinelEntry (Fin n))}
    (h : TxExact t base other ts m) (hle : ∀ t' s, t' ≠ t → other t' s ≤ base s)
    (hp : ts.phase = .undoing l)
    (hs : sentinelListSort m (retryEntries ts.desc.sentinelList) = some pre) :
    TxExact t base other
      ⟨forgetSentinels { ts.desc with sentinelListPreacquire := pre }, .acquiring l' 0, ts.busy⟩
      (sentinelListRelease false m ts.desc.sentinelList) := by
  have h1 : Accounted m (fun s => base s + refOf ts.desc.sentinelList s)
      (fun t' s => if t' = t then heldOf ts.desc.sentinelList s else other t' s) := by
    refine h.congr (fun s => ?_) fun _ _ => rfl
    rw [txRefs, carriedOf_of_phase hp (by intro l k hc; cases hc)]
    rfl
  have hperm := (sentinelListSort_cases hs).1
  refine (h1.release false _ _ _ hle).congr (fun s => ?_) fun t' s => ?_
  · show base s + (refOf [] s + refOf (pre.drop 0) s) = _
    rw [List.drop_zero, refOf_perm hperm, refOf_retryEntries]
    simp [refOf]
  · rfl

/-- one entry of the preacquire list is enlisted again -/
theorem TxExact.reacquire {l : Loop Act} {k : Nat} {e : SentinelEntry (Fin n)}
    (h : TxExact t base other ts m) (hp : ts.phase = .acquiring l k)
    (hk : ts.desc.sentinelListPreacquire[k]? = some e)
    (hm : (m.sentinel e.sentinel).mutex = none) :
    TxExact t base other
      ⟨{ ts.desc with sentinelList := ts.desc.sentinelList ++
          [⟨e.sentinel, sentinelAcquired ||| sentinelAcquireonretry⟩] },
        .acquiring l (k + 1), ts.busy⟩ (sentinelLock m t e.sentinel) := by
  obtain ⟨hlt, heq⟩ := List.getElem?_eq_some_iff.mp hk
  have hdrop : ts.desc.sentinelListPreacquire.drop k
      = e :: ts.desc.sentinelListPreacquire.drop (k + 1) := by
    rw [List.drop_eq_getElem_cons hlt, heq]
  have hcar : ∀ s, carriedOf ts s = refOf (ts.desc.sentinelListPreacquire.drop (k + 1)) s
      + if s = e.sentinel then 1 else 0 := by
    intro s
    unfold carriedOf
    rw [hp]
    show refOf (ts.desc.sentinelListPreacquire.drop k) s = _
    rw [hdrop, refOf_cons]
  have hheld : ∀ s, heldOf [⟨e.sentinel, sentinelAcquired ||| sentinelAcquireonretry⟩] s
      = if s = e.sentinel then 1 else 0 := fun s =>
    heldOf_acquired e.sentinel s sentinelAcquireonretry
  refine (h.lock hm ?_ fun t' s => ?_).congr (fun s => ?_) fun _ _ => rfl
  · rw [txRefs, hcar, if_pos rfl]
    omega
  · show (if t' = t then heldOf (ts.desc.sentinelList ++ _) s else _) = _
    rw [heldOf_append, hheld]
    by_cases ht : t' = t
    · simp [ht]
    · simp [ht]
  · show base s + (refOf (ts.desc.sentinelList ++ _) s
      + refOf (ts.desc.sentinelListPreacquire.drop (k + 1)) s) = _
    rw [refOf_append, refOf_singleton, txRefs, hcar]
    omega

/-- **One step of a transaction keeps the account.** -/
theorem txStep_exact {ev : Event T K n} (h : TxExact t base other ts m)
    (hle : ∀ t' s, t' ≠ t → other t' s ≤ base s) (hstep : TxStep t ts m ev ts' m') :
    TxExact t base other ts' m' := by
  cases hstep with
  | preBegin hp => exact h.quietly hp (by simp) rfl (by simp) rfl
  | postBegin hp => exact h.quietly hp (by simp) rfl (by simp) (sentinelList_postbegin _)
  | keep s flags result b hp => exact h.quiet rfl rfl
  | acquire s flags result hp hf ho hm =>
    have hat : (sentinelAttach m s).sentinel s
        = { m.sentinel s with refcnt := (m.sentinel s).refcnt + 1 } := by
      rw [sentinelAttach, SentinelMgr.set_sentinel, if_pos rfl]
    refine ((h.attach hf fun _ => rfl).lock (by rw [hat]; exact hm) (by simp) fun t' x => ?_).congr (fun x => ?_)
      fun _ _ => rfl
    · show (if t' = t then heldOf (ts.desc.sentinelList ++ _) x else _) = _
      rw [heldOf_append, heldOf_acquired]
      by_cases ht : t' = t
      · simp [ht]
      · simp [ht]
    · show base x + (refOf (ts.desc.sentinelList ++ _) x + 0) = _
      rw [refOf_append, refOf_singleton, txRefs, carriedOf_of_phase hp (by simp)]
      show _ = base x + (refOf ts.desc.sentinelList x + 0) + _
      omega
  | busy s flags result hp hf ho =>
    refine (h.attach hf fun _ => rfl).congr (fun x => ?_) fun t' x => ?_
    · show base x + (refOf (ts.desc.sentinelList ++ _) x + 0) = _
      rw [refOf_append, refOf_singleton, txRefs, carriedOf_of_phase hp (by simp)]
      show _ = base x + (refOf ts.desc.sentinelList x + 0) + _
      omega
    · show (if t' = t then heldOf (ts.desc.sentinelList ++ _) x else _) = _
      rw [heldOf_append, heldOf_busy, Nat.add_zero]
  | registerCommit a r o hp ho =>
    rcases hp with hp | hp <;>
      exact h.quietly hp (by simp) hp (by simp) (by rw [txRegisterCommitAction_eq])
  | registerUndo a r o hp ho =>
    rcases hp with hp | hp <;>
      exact h.quietly hp (by simp) hp (by simp) (by rw [txRegisterUndoAction_eq])
  | becomeIrrevocable hp => exact h.quietly hp (by simp) rfl (by simp) rfl
  | abort reason hp =>
    obtain ⟨h1, h2⟩ := rollback_refs ⟨tmsystemAbortTransaction ts.desc reason, ts.phase, ts.busy⟩
    exact h.quiet (h1.trans (sentinelList_abort _ _))
      (h2.trans (carriedOf_of_phase hp (by simp)).symm)
  | conflict hp =>
    obtain ⟨h1, h2⟩ := rollback_refs ts
    rcases hp with hp | hp <;>
      exact h.quiet h1 (h2.trans (carriedOf_of_phase hp (by simp)).symm)
  | commit hp hc =>
    rcases hp with hp | hp <;> exact h.quietly hp (by simp) rfl (by simp) rfl
  | commitNothing hp hc =>
    rcases hp with hp | hp <;> exact h.quietly hp (by simp) rfl (by simp) rfl
  | commitExit l hp hn => exact h.quietly hp (by simp) rfl (by simp) rfl
  | commitMove l l' hp hn => exact h.quietly hp (by simp) rfl (by simp) rfl
  | commitOther l l' e hp hn hf => exact h.quietly hp (by simp) rfl (by simp) rfl
  | commitRelease l l' e hp hn hf => exact h.complete hle hp (by simp) (by simp) rfl
  | undoExit l hp hn =>
    exact h.quietly hp (by simp) rfl (by cases ts.desc.abortReason <;> simp [afterRollback]) rfl
  | undoMove l l' hp hn => exact h.quietly hp (by simp) rfl (by simp) rfl
  | undoOther l l' e hp hn hf => exact h.quietly hp (by simp) rfl (by simp) rfl
  | undoRelease l l' e hp hn hf hr => exact h.complete hle hp (by simp) (by simp) rfl
  | undoRetry l l' e pre hp hn hf hr hs => exact h.retry hle hp hs
  | acquireDone l k hp hk =>
    refine h.quiet rfl ?_
    rw [List.getElem?_eq_none_iff] at hk
    funext s
    unfold carriedOf
    rw [hp]
    show 0 = refOf (ts.desc.sentinelListPreacquire.drop k) s
    rw [List.drop_of_length_le hk]
    rfl
  | acquireOne l k e hp hk hm => exact h.reacquire hp hk hm

end

/-! ## runs -/

section
variable [Fintype T] [Fintype K]

theorem exact_iff (σ : Sys T K n) (t : T) :
    Exact σ ↔ TxExact t (otherRefs σ t) (held σ) (σ.tx t) σ.mgr := by
  have hr : ∀ s, otherRefs σ t s + txRefs (σ.tx t) s = refs σ s := fun s => (refs_eq σ t s).symm
  have hh : ∀ t' s, (if t' = t then heldOf (σ.tx t).desc.sentinelList s else held σ t' s)
      = held σ t' s := by
    intro t' s
    split
    · rename_i ht; rw [ht]; rfl
    · rfl
  exact ⟨fun h => h.congr hr hh, fun h => h.congr (fun s => (hr s).symm) fun t' s => (hh t' s).symm⟩

theorem step_exact {σ σ' : Sys T K n} {ev : Event T K n} (h : Exact σ)
    (hs : step σ ev = some σ') : Exact σ' := by
  rcases step_cases hs with ⟨k, s, m', hk, hc, rfl⟩ | ⟨k, s, hk, rfl⟩ | ⟨t, ts, m', ht, hst, rfl⟩
  · refine (h.create hc fun x => rfl).congr (fun x => ?_) fun _ _ => rfl
    have := koaRefs_update σ.koa k (some s) x
    rw [hk, if_neg (by simp)] at this
    simp only [Option.some.injEq, eq_comm (a := s)] at this
    show koaRefs (Function.update σ.koa k (some s)) x + ∑ t, txRefs (σ.tx t) x
      = koaRefs σ.koa x + ∑ t, txRefs (σ.tx t) x + _
    omega
  · have hup : ∀ x, refs σ x = refs ⟨σ.tx, sentinelDetach σ.mgr s, Function.update σ.koa k none⟩ x
        + if x = s then 1 else 0 := by
      intro x
      have := koaRefs_update σ.koa k none x
      rw [hk, if_neg (by simp : ¬ (none : Option (Fin n)) = some x)] at this
      simp only [Option.some.injEq, eq_comm (a := s)] at this
      show koaRefs σ.koa x + ∑ t, txRefs (σ.tx t) x
        = koaRefs (Function.update σ.koa k none) x + ∑ t, txRefs (σ.tx t) x + _
      omega
    refine h.detach hup fun t x => ?_
    have h1 := heldOf_le (σ.tx t).desc.sentinelList x
    have h2 : txRefs (σ.tx t) x ≤ ∑ t', txRefs (σ.tx t') x :=
      Finset.single_le_sum (f := fun t' => txRefs (σ.tx t') x) (fun _ _ => Nat.zero_le _)
        (Finset.mem_univ t)
    show heldOf _ x ≤ koaRefs _ x + ∑ t', txRefs (σ.tx t') x
    unfold txRefs at h2 ⊢
    omega
  · rw [exact_iff _ t] at h ⊢
    have h1 := txStep_exact h (fun t' s ht' => held_le_otherRefs σ t t' s ht')
      (txStep_cases hst ht)
    refine Accounted.congr h1 (fun s => ?_) fun t' s => ?_
    · show otherRefs ⟨Function.update σ.tx t ts, m', σ.koa⟩ t s
          + txRefs (Function.update σ.tx t ts t) s = _
      rw [otherRefs_update, Function.update_self]
    · show (if t' = t then heldOf (Function.update σ.tx t ts t).desc.sentinelList s
          else heldOf (Function.update σ.tx t ts t').desc.sentinelList s) = _
      by_cases ht' : t' = t
      · rw [if_pos ht', if_pos ht', Function.update_self]
      · rw [if_neg ht', if_neg ht', Function.update_of_ne ht']
        rfl

theorem exact_initial : Exact (initial T K n) := by
  refine accounted_sentinelmgrCreate.congr (fun s => ?_) fun t s => rfl
  show koaRefs (fun _ => none) s + ∑ t : T, txRefs ⟨txCreate, .outside, false⟩ s = 0
  simp [koaRefs, txRefs, carriedOf, refOf, txCreate]

theorem exact_of_reach {ok : Sys T K n → Event T K n → Prop} {σ : Sys T K n}
    (h : Reach step ok (· = initial T K n) σ) : Exact σ :=
  h.inv (fun _ h0 => h0 ▸ exact_initial) fun _ _ _ hi _ hs => step_exact hi hs

/-- **Reference counts are exact.**  In every reachable state the count of a sentinel out of the
pool is the number of its KOAs, of its entries in all lists and of its carried entries; it is in
the pool exactly if there are none, once, and unlocked. -/
theorem sentinel_refcnt_exact (T K : Type) [DecidableEq T] [DecidableEq K] [Fintype T] [Fintype K]
    (n : Nat) (σ : Sys T K n) (h : Reach step any (· = initial T K n) σ) (s : Fin n) :
    (s ∉ σ.mgr.free → (σ.mgr.sentinel s).refcnt =
      ((∑ k, if σ.koa k = some s then 1 else 0) + ∑ t, refOf (σ.tx t).desc.sentinelList s
        + ∑ t, carriedOf (σ.tx t) s : Nat)) ∧
    (s ∈ σ.mgr.free ↔ (∀ k, σ.koa k ≠ some s) ∧
      ∀ t, refOf (σ.tx t).desc.sentinelList s = 0 ∧ carriedOf (σ.tx t) s = 0) ∧
    (s ∈ σ.mgr.free → (σ.mgr.sentinel s).mutex = none) ∧
    σ.mgr.free.count s ≤ 1 := by
  have hx : Exact σ := exact_of_reach h
  have hrefs : refs σ s = (∑ k, if σ.koa k = some s then 1 else 0)
      + ∑ t, refOf (σ.tx t).desc.sentinelList s + ∑ t, carriedOf (σ.tx t) s := by
    unfold refs koaRefs txRefs
    rw [Finset.sum_add_distrib, Nat.add_assoc]
  refine ⟨fun hs => ?_, ?_, hx.free_mutex, List.nodup_iff_count_le_one.mp hx.nodup s⟩
  · rw [hx.refcnt s hs, hrefs]
  · rw [hx.free_iff, hrefs]
    simp only [Nat.add_eq_zero_iff, Finset.sum_eq_zero_iff, Finset.mem_univ, true_imp_iff,
      ite_eq_right_iff, one_ne_zero, imp_false, and_assoc, forall_and]

end

/-! ## a run: a busy sentinel and a retry -/

/-- two transactions, one KOA: the second finds the sentinel busy, retries and blocks; the first
commits -/
def busyRun : List (Event (Fin 2) (Fin 1) 2) :=
  [.koaCreate 0, .preBegin 0, .preBegin 1, .postBegin 0, .postBegin 1, .tryacquire 0 0 2 0,
    .tryacquire 1 0 2 0, .abort 1 .busysentinel] ++ List.replicate 8 (.next 1)

theorem sentinel_refcnt_busyRun :
    ∃ σ, run step (initial (Fin 2) (Fin 1) 2) busyRun = some σ ∧
      (0 ∉ σ.mgr.free → (σ.mgr.sentinel 0).refcnt =
        ((∑ k, if σ.koa k = some 0 then 1 else 0) + ∑ t, refOf (σ.tx t).desc.sentinelList 0
          + ∑ t, carriedOf (σ.tx t) 0 : Nat)) ∧
      (0 ∈ σ.mgr.free ↔ (∀ k, σ.koa k ≠ some 0) ∧
        ∀ t, refOf (σ.tx t).desc.sentinelList 0 = 0 ∧ carriedOf (σ.tx t) 0 = 0) ∧
      (0 ∈ σ.mgr.free → (σ.mgr.sentinel 0).mutex = none) ∧
      σ.mgr.free.count 0 ≤ 1 := by
  obtain ⟨σ, hσ⟩ := Option.isSome_iff_exists.mp
    (by decide : (run step (initial (Fin 2) (Fin 1) 2) busyRun).isSome = true)
  exact ⟨σ, hσ, sentinel_refcnt_exact _ _ _ σ (reach_of_run busyRun hσ) 0⟩

end XCalls
