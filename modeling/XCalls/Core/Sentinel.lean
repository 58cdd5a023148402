import XCalls.Core.Desc
import XCalls.Lib.Bubble

/-!
# Sentinels and the sentinel manager

A sentinel is an object of a pool of `n` objects that are handed out and taken back as a stack.

* `sentinelmgrCreate`   the pool and the ids of `txc_sentinelmgr_create` 
  (`sentinel_sentinelmgrCreate`);
* `sentinelCreate`, `sentinelAttach`, `sentinelDetach`   references;
* `sentinelListRelease`, `sentinelListSort`   the lists of a transaction;
* `sentinelmgrTransactionOnComplete`, `sentinelmgrTransactionBeforeRetry`   what a transaction does
  with its sentinels when it completes, and before it retries (up to the blocking acquisition);
* `sentinelTryacquire`.

The latch `synch_mutex` only makes the updates of one sentinel atomic, and each call here is one
step.  `T` is the type of the transactions.
-/

namespace XCalls

/-- `struct txc_sentinel_s`; `mutex` is the holder of `sentinel_mutex` -/
structure Sentinel (T : Type) where
  mutex : Option T
  owner : Option T
  id : Int
  refcnt : Int
  deriving DecidableEq, Repr

/-- the objects of `pool_sentinel` and its free list, most recently freed first -/
structure SentinelMgr (T : Type) (n : Nat) where
  sentinel : Fin n → Sentinel T
  free : List (Fin n)

-- membership in a free list, and the objects of the small pools that runs are made of
instance lawfulBEqFin (n : Nat) : LawfulBEq (Fin n) := inferInstance

instance neZeroOne : NeZero 1 := inferInstance

instance neZeroTwo : NeZero 2 := inferInstance

/-! ## creation -/

section
variable {n : Nat}

/-- `object_list[i].next` after `txc_pool_create` -/
def poolNext (i : Fin n) : Option (Fin n) :=
  if h : i.val + 1 < n then some ⟨i.val + 1, h⟩ else none

/-- `txc_pool_object_first` of the whole list of objects -/
def poolFirst (n : Nat) : Option (Fin n) := if h : 0 < n then some ⟨0, h⟩ else none

/-- the objects met by following `next` -/
def poolWalk : Nat → Option (Fin n) → List (Fin n)
  | 0, _ => []
  | _, none => []
  | k + 1, some i => i :: poolWalk k (poolNext i)

theorem mem_poolWalk (k : Nat) (i : Fin n) (h : n ≤ i.val + k) (s : Fin n) :
    s ∈ poolWalk k (some i) ↔ i.val ≤ s.val := by
  induction k generalizing i with
  | zero => have := i.isLt; omega
  | succ k ih =>
    rw [poolWalk, List.mem_cons, poolNext]
    have hs := s.isLt
    by_cases hi : i.val + 1 < n
    · rw [dif_pos hi, ih ⟨i.val + 1, hi⟩ (by simp; omega), Fin.ext_iff]
      simp only
      omega
    · have hnil : poolWalk k (none : Option (Fin n)) = [] := by cases k <;> rfl
      rw [dif_neg hi, hnil, Fin.ext_iff]
      simp only [List.not_mem_nil, or_false]
      omega

theorem le_of_mem_poolWalk (k : Nat) (i s : Fin n) (h : s ∈ poolWalk k (some i)) :
    i.val ≤ s.val := by
  induction k generalizing i with
  | zero => cases h
  | succ k ih =>
    rw [poolWalk, List.mem_cons, poolNext] at h
    rcases h with rfl | h
    · exact Nat.le_refl _
    · by_cases hi : i.val + 1 < n
      · rw [dif_pos hi] at h
        exact Nat.le_of_succ_le (ih _ h)
      · rw [dif_neg hi] at h
        cases k <;> cases h

theorem poolWalk_nodup (k : Nat) (i : Option (Fin n)) : (poolWalk k i).Nodup := by
  induction k generalizing i with
  | zero => exact List.Pairwise.nil
  | succ k ih =>
    cases i with
    | none => exact List.Pairwise.nil
    | some i =>
      rw [poolWalk, List.nodup_cons]
      refine ⟨fun hm => ?_, ih _⟩
      by_cases hi : i.val + 1 < n
      · rw [poolNext, dif_pos hi] at hm
        exact Nat.not_succ_le_self _ (le_of_mem_poolWalk _ _ _ hm)
      · rw [poolNext, dif_neg hi] at hm
        cases k <;> cases hm

variable {T : Type}

/-- what the loop of `txc_sentinelmgr_create` does with one sentinel -/
def Sentinel.number (i : Nat) (v : Sentinel T) : Sentinel T :=
  { v with mutex := none, owner := none, id := i }

/-- the loop of `txc_sentinelmgr_create` over the objects of the pool -/
def assignIds : Nat → List (Fin n) → (Fin n → Sentinel T) → Fin n → Sentinel T
  | _, [], m => m
  | i, s :: l, m => assignIds (i + 1) l (Function.update m s ((m s).number i))

/-- `txc_sentinelmgr_create` -/
def sentinelmgrCreate (T : Type) (n : Nat) : SentinelMgr T n :=
  { sentinel := assignIds 0 (poolWalk n (poolFirst n)) fun _ => ⟨none, none, 0, 0⟩
    free := poolWalk n (poolFirst n) }

theorem assignIds_walk (k : Nat) (i : Fin n) (m : Fin n → Sentinel T)
    (h : n ≤ i.val + k) (s : Fin n) :
    assignIds i.val (poolWalk k (some i)) m s
      = if i.val ≤ s.val then (m s).number s.val else m s := by
  induction k generalizing i m with
  | zero => have := i.isLt; omega
  | succ k ih =>
    have hs := s.isLt
    rw [poolWalk, assignIds, poolNext]
    by_cases hi : i.val + 1 < n
    · rw [dif_pos hi, ih ⟨i.val + 1, hi⟩ _ (by simp; omega)]
      by_cases his : s = i
      · subst his
        rw [if_neg (by simp), if_pos (Nat.le_refl _), Function.update_self]
      · have hne : s.val ≠ i.val := fun hc => his (Fin.ext hc)
        rw [Function.update_of_ne his]
        by_cases hle : i.val + 1 ≤ s.val
        · rw [if_pos hle, if_pos (by omega)]
        · rw [if_neg hle, if_neg (by omega)]
    · have hnil : poolWalk k (none : Option (Fin n)) = [] := by cases k <;> rfl
      rw [dif_neg hi, hnil, assignIds]
      by_cases his : s = i
      · subst his
        rw [if_pos (Nat.le_refl _), Function.update_self]
      · have hne : s.val ≠ i.val := fun hc => his (Fin.ext hc)
        rw [Function.update_of_ne his, if_neg (by omega)]

theorem sentinel_sentinelmgrCreate (s : Fin n) :
    (sentinelmgrCreate T n).sentinel s = ⟨none, none, s.val, 0⟩ := by
  have hn : 0 < n := by have := s.isLt; omega
  show assignIds 0 (poolWalk n (poolFirst n)) _ s = _
  rw [poolFirst, dif_pos hn, assignIds_walk n ⟨0, hn⟩ _ (by simp), if_pos (Nat.zero_le _)]
  rfl

theorem free_sentinelmgrCreate (s : Fin n) : s ∈ (sentinelmgrCreate T n).free := by
  have hn : 0 < n := by have := s.isLt; omega
  show s ∈ poolWalk n (poolFirst n)
  rw [poolFirst, dif_pos hn, mem_poolWalk n ⟨0, hn⟩ (by simp)]
  exact Nat.zero_le _

end

/-! ## references -/

section
variable {T : Type} {n : Nat}

namespace SentinelMgr

def set (m : SentinelMgr T n) (s : Fin n) (v : Sentinel T) : SentinelMgr T n :=
  { m with sentinel := Function.update m.sentinel s v }

theorem set_sentinel (m : SentinelMgr T n) (s : Fin n) (v : Sentinel T) (x : Fin n) :
    (m.set s v).sentinel x = if x = s then v else m.sentinel x := by
  show Function.update m.sentinel s v x = _
  rw [Function.update_apply]

end SentinelMgr

/-- `txc_sentinel_create`; `none` when the pool is exhausted -/
def sentinelCreate (m : SentinelMgr T n) : Option (Fin n × SentinelMgr T n) :=
  match m.free with
  | [] => none
  | s :: rest =>
    some (s, { m.set s { m.sentinel s with owner := none, refcnt := 1 } with free := rest })

def sentinelAttach (m : SentinelMgr T n) (s : Fin n) : SentinelMgr T n :=
  m.set s { m.sentinel s with refcnt := (m.sentinel s).refcnt + 1 }

/-- `sentinel_detach`; `sentinel_destroy` pushes the object on the free list of the pool -/
def sentinelDetach (m : SentinelMgr T n) (s : Fin n) : SentinelMgr T n :=
  let m' := m.set s { m.sentinel s with refcnt := (m.sentinel s).refcnt - 1 }
  if (m.sentinel s).refcnt - 1 = 0 then { m' with free := s :: m'.free } else m'

/-- `TXC_MUTEX_LOCK(&sentinel_mutex)` by `t` on a free mutex, and `owner = txd` -/
def sentinelLock (m : SentinelMgr T n) (t : T) (s : Fin n) : SentinelMgr T n :=
  m.set s { m.sentinel s with mutex := some t, owner := some t }

/-- `owner = TXC_SENTINEL_NOOWNER` and `TXC_MUTEX_UNLOCK(&sentinel_mutex)` -/
def sentinelUnlock (m : SentinelMgr T n) (s : Fin n) : SentinelMgr T n :=
  m.set s { m.sentinel s with mutex := none, owner := none }

/-! ## lists -/

/-- one turn of the loop of `sentinel_list_release` -/
def releaseEntry (transactionCompletion : Bool) (m : SentinelMgr T n)
    (e : SentinelEntry (Fin n)) : SentinelMgr T n :=
  let m := if e.acquired then sentinelUnlock m e.sentinel else m
  if transactionCompletion then sentinelDetach m e.sentinel
  else if !e.onRetry then sentinelDetach m e.sentinel
  else m

def sentinelListRelease (transactionCompletion : Bool) (m : SentinelMgr T n)
    (l : List (SentinelEntry (Fin n))) : SentinelMgr T n :=
  l.foldl (releaseEntry transactionCompletion) m

/-- `sentinel_list_sort`; `none` would be an access outside the array.  `int n` holds the number of
entries: no array has 2 ^ 31 of them. -/
def sentinelListSort (m : SentinelMgr T n) (l : List (SentinelEntry (Fin n))) :
    Option (List (SentinelEntry (Fin n))) :=
  Bubble.sort (fun e => (m.sentinel e.sentinel).id) l

theorem sentinelListSort_cases {m : SentinelMgr T n} {l l' : List (SentinelEntry (Fin n))}
    (hs : sentinelListSort m l = some l') : l'.Perm l ∧
      l'.Pairwise fun e e' => (m.sentinel e.sentinel).id ≤ (m.sentinel e'.sentinel).id := by
  obtain ⟨l₁, hsort, hperm, hsorted⟩ :=
    Bubble.sort_spec (fun e : SentinelEntry (Fin n) => (m.sentinel e.sentinel).id) l
  have heq : some l₁ = some l' := hsort.symm.trans hs
  cases heq
  exact ⟨hperm, hsorted⟩

/-- the two loops of `sentinel_list_sort`, each with a fuel -/
def sentinelListSortLoops (m : SentinelMgr T n) (fuel : Nat) (l : List (SentinelEntry (Fin n))) :
    Option (List (SentinelEntry (Fin n))) :=
  Bubble.doLoop (fun e => (m.sentinel e.sentinel).id) fuel fuel l.length l

theorem sentinelListSortLoops_eq (m : SentinelMgr T n) {fuel : Nat}
    {l : List (SentinelEntry (Fin n))} (hf : l.length < fuel) :
    sentinelListSortLoops m fuel l = sentinelListSort m l :=
  Bubble.doLoop_eq _ fuel fuel l.length l hf (Nat.le_of_lt hf) (Nat.zero_lt_of_lt hf)

/-- **The sort sorts.**  Whatever the list, its length, the identifiers and the status values: the
loops end, no access is outside the array, and the entries, each with its status, are in the order
of the identifiers. -/
theorem sentinel_list_sorts (m : SentinelMgr T n) (l : List (SentinelEntry (Fin n))) :
    ∃ l', (∀ fuel > l.length, sentinelListSortLoops m fuel l = some l') ∧ l'.Perm l ∧
      l'.Pairwise fun e e' => (m.sentinel e.sentinel).id ≤ (m.sentinel e'.sentinel).id := by
  obtain ⟨l', hsort, hspec⟩ :=
    Bubble.sort_spec (fun e : SentinelEntry (Fin n) => (m.sentinel e.sentinel).id) l
  refine ⟨l', fun fuel hf => ?_, hspec⟩
  rw [sentinelListSortLoops_eq m hf]
  exact hsort

/-! ## the sentinel manager's actions -/

/-- the actions of the two lists of a transaction, with `α` for all but the sentinel manager's -/
inductive ActOf (α : Type) where
  | sentinelmgrCommit
  | sentinelmgrUndo
  | other (a : α)
  deriving DecidableEq, Repr

/-- where it does not matter what the other actions are -/
abbrev Act := ActOf Nat

variable {α : Type}

/-- `TXC_SENTINELMGR_COMMIT_ACTION_ORDER`, `TXC_SENTINELMGR_UNDO_ACTION_ORDER` -/
def sentinelmgrActionOrder : Int32 := 2

def registerSentinelmgrCommitAction (txd : TxDesc (ActOf α) (Fin n)) : TxDesc (ActOf α) (Fin n) :=
  if txd.sentinelmgrCommitActionRegistered = false then
    { txRegisterCommitAction txd ⟨.sentinelmgrCommit, none, sentinelmgrActionOrder⟩ with
      sentinelmgrCommitActionRegistered := true }
  else txd

def registerSentinelmgrUndoAction (txd : TxDesc (ActOf α) (Fin n)) : TxDesc (ActOf α) (Fin n) :=
  if txd.sentinelmgrUndoActionRegistered = false then
    { txRegisterUndoAction txd ⟨.sentinelmgrUndo, none, sentinelmgrActionOrder⟩ with
      sentinelmgrUndoActionRegistered := true }
  else txd

/-- `txc_sentinel_transaction_postbegin` -/
def sentinelTransactionPostbegin (txd : TxDesc (ActOf α) (Fin n)) : TxDesc (ActOf α) (Fin n) :=
  if txd.sentinelList.length ≠ 0 then
    registerSentinelmgrUndoAction (registerSentinelmgrCommitAction txd)
  else txd

/-- `txc_sentinel_list_init(txd->sentinel_list)` and the two flags -/
def forgetSentinels (txd : TxDesc (ActOf α) (Fin n)) : TxDesc (ActOf α) (Fin n) :=
  { txd with
    sentinelList := []
    sentinelmgrUndoActionRegistered := false
    sentinelmgrCommitActionRegistered := false }

/-- `sentinelmgr_transaction_on_complete` -/
def sentinelmgrTransactionOnComplete (m : SentinelMgr T n) (txd : TxDesc (ActOf α) (Fin n)) :
    SentinelMgr T n × TxDesc (ActOf α) (Fin n) :=
  (sentinelListRelease true m txd.sentinelList, forgetSentinels txd)

/-- the entries that `sentinelmgr_transaction_before_retry` copies to the preacquire list -/
def retryEntries (l : List (SentinelEntry (Fin n))) : List (SentinelEntry (Fin n)) :=
  (l.filter SentinelEntry.onRetry).map fun e => ⟨e.sentinel, 0⟩

/-- `sentinelmgr_transaction_before_retry` up to the call of `sentinel_list_acquire` -/
def sentinelmgrTransactionBeforeRetry (m : SentinelMgr T n) (txd : TxDesc (ActOf α) (Fin n)) :
    Option (SentinelMgr T n × TxDesc (ActOf α) (Fin n)) :=
  (sentinelListSort m (retryEntries txd.sentinelList)).map fun pre =>
    (sentinelListRelease false m txd.sentinelList,
      forgetSentinels { txd with sentinelListPreacquire := pre })

/-- one turn of the loop of `sentinel_list_acquire`, when the mutex is free -/
def acquireEntry (m : SentinelMgr T n) (txd : TxDesc (ActOf α) (Fin n)) (t : T)
    (e : SentinelEntry (Fin n)) : SentinelMgr T n × TxDesc (ActOf α) (Fin n) :=
  (sentinelLock m t e.sentinel,
    { txd with sentinelList := txd.sentinelList ++
        [⟨e.sentinel, sentinelAcquired ||| sentinelAcquireonretry⟩] })

/-! ## tryacquire -/

/-- `TXC_R_SUCCESS` -/
def rSuccess : Int := 0
/-- `TXC_R_BUSYSENTINEL` -/
def rBusysentinel : Int := 49

/-- the local variable `acquire_on_retry` -/
def acquireOnRetry (flags : UInt32) : UInt32 :=
  if flags &&& sentinelAcquireonretry > 0 then sentinelAcquireonretry else 0

/-- `txc_sentinel_tryacquire`.  `result` is what the uninitialised local variable of that name
holds at the start; `none` is `TXC_INTERNALERROR`. -/
def sentinelTryacquire [DecidableEq T] (m : SentinelMgr T n) (txd : TxDesc (ActOf α) (Fin n)) (t : T)
    (xactstate : XactState) (s : Fin n) (flags : UInt32) (result : Int) :
    Option (Int × SentinelMgr T n × TxDesc (ActOf α) (Fin n)) :=
  if (m.sentinel s).owner ≠ some t then
    match xactstate with
    | .nontransactional => none
    | .irrevocable => some (rSuccess, m, txd)
    | .retryable =>
      let txd := registerSentinelmgrCommitAction (registerSentinelmgrUndoAction txd)
      if (m.sentinel s).mutex = none then
        some (rSuccess, sentinelLock (sentinelAttach m s) t s,
          { txd with sentinelList :=
              txd.sentinelList ++ [⟨s, sentinelAcquired ||| acquireOnRetry flags⟩] })
      else
        some (rBusysentinel, sentinelAttach m s,
          { txd with sentinelList := txd.sentinelList ++ [⟨s, acquireOnRetry flags⟩] })
  else some (result, m, txd)

end

end XCalls
