import Mathlib

/-!
# The transaction descriptor and its action lists

* `BufferLinear`    the per-transaction linear buffer (`buffer.c`): only its fill level matters;
* `ActionEntry`, `ActionList`, `registerAction`   the growing arrays of commit and undo actions;
* `SentinelEntry`   an entry of a sentinel list;
* `TxDesc`          `struct txc_tx_s`, with the two actions the STM itself holds for the attempt;
* `txInit`          `txc_tx_init`.

Memory allocation is taken to succeed throughout.
-/

namespace XCalls

/-! ## enumerations -/

/-- `txc_tx_abortreason_t` -/
inductive AbortReason where
  | tmconflict
  | userabort
  | userretry
  | busysentinel
  | inconsistency
  | busytxlock
  deriving DecidableEq, Repr

/-- `txc_tx_xactstate_t` -/
inductive XactState where
  | nontransactional
  | retryable
  | irrevocable
  deriving DecidableEq, Repr

/-! ## the linear buffer -/

/-- `TXC_BUFFER_LINEAR_SIZE` -/
def bufferLinearSize : UInt32 := 1024 * 256

/-- `struct txc_buffer_linear_s`: capacity and fill level -/
structure BufferLinear where
  sizeMax : UInt32
  curLen : UInt32
  deriving DecidableEq, Repr

def bufferLinearInit (b : BufferLinear) : BufferLinear := { b with curLen := 0 }

/-- the offset of the region, or `none` for the `NULL` of an exhausted buffer -/
def bufferLinearMalloc (b : BufferLinear) (size : UInt32) : Option (UInt32 × BufferLinear) :=
  if b.curLen + size > b.sizeMax then none
  else some (b.curLen, { b with curLen := b.curLen + size })

def bufferLinearFree (b : BufferLinear) (size : UInt32) : BufferLinear :=
  { b with curLen := b.curLen - size }

theorem malloc_offset {b : BufferLinear} {size : UInt32} {r : UInt32 × BufferLinear}
    (h : bufferLinearMalloc b size = some r) : r.1 = b.curLen := by
  unfold bufferLinearMalloc at h
  split at h
  · cases h
  · cases h
    rfl

/-- the allocation of a region for which there is room -/
theorem linear_fits {b : BufferLinear} {size : UInt32} (hmax : b.sizeMax = bufferLinearSize)
    (hlevel : b.curLen ≤ b.sizeMax) (hsize : size.toNat < 2 ^ 31)
    (h : ¬ b.curLen + size > b.sizeMax) :
    (b.curLen + size).toNat = b.curLen.toNat + size.toNat ∧
      b.curLen.toNat + size.toNat ≤ bufferLinearSize.toNat := by
  have hs : bufferLinearSize.toNat = 262144 := rfl
  rw [hmax] at hlevel h
  have h1 := UInt32.le_iff_toNat_le.mp hlevel
  have h2 : ¬ bufferLinearSize.toNat < (b.curLen + size).toNat :=
    fun hc => h (UInt32.lt_iff_toNat_lt.mpr hc)
  have h3 : (b.curLen + size).toNat = b.curLen.toNat + size.toNat := by
    rw [UInt32.toNat_add]
    omega
  exact ⟨h3, by omega⟩

/-! ## action lists -/

/-- `struct txc_tx_action_list_entry_s`; `function` stands for the function and its `args` -/
structure ActionEntry (α : Type) where
  function : α
  errorResult : Option Nat
  order : Int32
  deriving DecidableEq, Repr

/-- `TXC_ACTION_LIST_SIZE` -/
def actionListSize : Nat := 32

/-- `struct txc_tx_action_list_s`: the used part of the array and the size of the array -/
structure ActionList (α : Type) where
  entries : List (ActionEntry α)
  size : Nat
  fits : entries.length ≤ size
  pos : 0 < size

namespace ActionList
variable {α : Type}

/-- `allocate_action_list_entries(la, 0)` with `num_entries` set to `0` -/
def create : ActionList α := ⟨[], actionListSize, Nat.zero_le _, by decide⟩

/-- `num_entries = 0` -/
def clear (la : ActionList α) : ActionList α := ⟨[], la.size, Nat.zero_le _, la.pos⟩

/-- `allocate_action_list_entries(la, 1)` -/
def extend (la : ActionList α) : ActionList α :=
  ⟨la.entries, la.size * 2, by have := la.fits; omega, by have := la.pos; omega⟩

/-- the write at the index `num_entries` -/
def push (la : ActionList α) (e : ActionEntry α) (h : la.entries.length < la.size) :
    ActionList α :=
  ⟨la.entries ++ [e], la.size, by rw [List.length_append]; exact h, la.pos⟩

theorem extend_room (la : ActionList α) (h : la.entries.length = la.size) :
    la.extend.entries.length < la.extend.size := by
  have h1 := la.pos
  show la.entries.length < la.size * 2
  omega

end ActionList

section
variable {α : Type}

/-- `register_action`: a full array is doubled first, so the write is inside the array -/
def registerAction (la : ActionList α) (e : ActionEntry α) : ActionList α :=
  if h : la.entries.length = la.size then la.extend.push e (la.extend_room h)
  else la.push e (Nat.lt_of_le_of_ne la.fits h)

@[simp] theorem entries_registerAction (la : ActionList α) (e : ActionEntry α) :
    (registerAction la e).entries = la.entries ++ [e] := by
  unfold registerAction
  split <;> rfl

end

/-! ## sentinel lists -/

/-- `TXC_SENTINEL_ACQUIRED` -/
def sentinelAcquired : UInt32 := 0x1
/-- `TXC_SENTINEL_ACQUIREONRETRY` -/
def sentinelAcquireonretry : UInt32 := 0x2

/-- `struct txc_sentinel_list_entry_s` -/
structure SentinelEntry (S : Type) where
  sentinel : S
  status : UInt32
  deriving DecidableEq, Repr

namespace SentinelEntry
variable {S : Type}

def acquired (e : SentinelEntry S) : Bool := e.status &&& sentinelAcquired != 0
def onRetry (e : SentinelEntry S) : Bool := e.status &&& sentinelAcquireonretry != 0

end SentinelEntry

/-! ## the descriptor -/

/-- `struct txc_tx_s`.  `itmUndo` and `itmCommit` are the generic actions the STM holds for the
attempt that is running: `_ITM_addUserUndoAction`, `_ITM_addUserCommitAction`. -/
structure TxDesc (α S : Type) where
  sentinelmgrUndoActionRegistered : Bool
  sentinelmgrCommitActionRegistered : Bool
  statsmgrUndoActionRegistered : Bool
  statsmgrCommitActionRegistered : Bool
  genericUndoActionRegistered : Bool
  genericCommitActionRegistered : Bool
  abortReason : AbortReason
  forcedRetries : Nat
  commitActionList : ActionList α
  undoActionList : ActionList α
  sentinelList : List (SentinelEntry S)
  sentinelListPreacquire : List (SentinelEntry S)
  bufferLinear : BufferLinear
  fmFlags : Int
  fmErrorResult : Option Nat
  fmAbort : Bool
  itmUndo : Bool
  itmCommit : Bool

section
variable {α S : Type}

/-- `txc_tx_init` -/
def txInit (txd : TxDesc α S) : TxDesc α S :=
  { txd with
    sentinelmgrCommitActionRegistered := false
    sentinelmgrUndoActionRegistered := false
    statsmgrCommitActionRegistered := false
    statsmgrUndoActionRegistered := false
    genericUndoActionRegistered := false
    genericCommitActionRegistered := false
    abortReason := .tmconflict
    commitActionList := txd.commitActionList.clear
    undoActionList := txd.undoActionList.clear
    bufferLinear := bufferLinearInit txd.bufferLinear }

/-- `txc_fm_init` -/
def fmInit (txd : TxDesc α S) : TxDesc α S :=
  { txd with fmAbort := false, fmErrorResult := none, fmFlags := 0 }

/-- `txc_tx_create` on a descriptor fresh from `txc_txmgr_create` -/
def txCreate : TxDesc α S :=
  { sentinelmgrUndoActionRegistered := false
    sentinelmgrCommitActionRegistered := false
    statsmgrUndoActionRegistered := false
    statsmgrCommitActionRegistered := false
    genericUndoActionRegistered := false
    genericCommitActionRegistered := false
    abortReason := .tmconflict
    forcedRetries := 0
    commitActionList := .create
    undoActionList := .create
    sentinelList := []
    sentinelListPreacquire := []
    bufferLinear := ⟨bufferLinearSize, 0⟩
    fmFlags := 0
    fmErrorResult := none
    fmAbort := false
    itmUndo := false
    itmCommit := false }

/-- `tmsystem_register_generic_undo_action` -/
def tmsystemRegisterGenericUndoAction (txd : TxDesc α S) : TxDesc α S :=
  if txd.genericUndoActionRegistered = false then
    { txd with itmUndo := true, genericUndoActionRegistered := true }
  else txd

/-- `tmsystem_register_generic_commit_action` -/
def tmsystemRegisterGenericCommitAction (txd : TxDesc α S) : TxDesc α S :=
  if txd.genericCommitActionRegistered = false then
    { txd with itmCommit := true, genericCommitActionRegistered := true }
  else txd

/-- `tmsystem_abort_transaction` up to the call of `_ITM_abortTransaction` -/
def tmsystemAbortTransaction (txd : TxDesc α S) (reason : AbortReason) : TxDesc α S :=
  let txd := tmsystemRegisterGenericUndoAction txd
  { txd with abortReason := reason, forcedRetries := txd.forcedRetries + 1 }

def txRegisterCommitAction (txd : TxDesc α S) (e : ActionEntry α) : TxDesc α S :=
  tmsystemRegisterGenericCommitAction
    { txd with commitActionList := registerAction txd.commitActionList e }

def txRegisterUndoAction (txd : TxDesc α S) (e : ActionEntry α) : TxDesc α S :=
  tmsystemRegisterGenericUndoAction
    { txd with undoActionList := registerAction txd.undoActionList e }

theorem txRegisterCommitAction_eq (txd : TxDesc α S) (e : ActionEntry α) :
    txRegisterCommitAction txd e =
      { txd with
        commitActionList := registerAction txd.commitActionList e
        itmCommit := txd.itmCommit || !txd.genericCommitActionRegistered
        genericCommitActionRegistered := true } := by
  unfold txRegisterCommitAction tmsystemRegisterGenericCommitAction
  cases h : txd.genericCommitActionRegistered <;> simp

theorem txRegisterUndoAction_eq (txd : TxDesc α S) (e : ActionEntry α) :
    txRegisterUndoAction txd e =
      { txd with
        undoActionList := registerAction txd.undoActionList e
        itmUndo := txd.itmUndo || !txd.genericUndoActionRegistered
        genericUndoActionRegistered := true } := by
  unfold txRegisterUndoAction tmsystemRegisterGenericUndoAction
  cases h : txd.genericUndoActionRegistered <;> simp

end

end XCalls
