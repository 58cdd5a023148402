import XCalls.Core.Sentinel
import XCalls.Misc.HashTable

/-!
# The statistics collector

`stats.c` and `stats.h`, for one thread:

* `StatEntry`       `txc_stats_statentry_t`;
* `Stat`, `TxStat`, `ThreadStat`   the three levels of statistics;
* `statsTxstatInit`, `statsTxstatReset`, `statsTxstatIncrement`   the counters of an attempt;
* `statsGetTxstatContainer`, `statsmgrCommitAction`, `statsmgrUndoAction`   what the actions of the
                    statistics manager do.

A source location is named by the 32-bit address of its string, which is the key of its container.
The containers of a thread are the finite map that its hash table stands for.
-/

namespace XCalls

inductive StatEntry where
  | xClose
  | xCreate
  | xDup
  | xFdatasync
  | xFsync
  | xLseek
  | xOpen
  | xPipe
  | xPrintf
  | xRead
  | xReadPipe
  | xRecvmsg
  | xRename
  | xSendmsg
  | xSocket
  | xUnlink
  | xWriteOvr
  | xWriteOvrIgnore
  | xWritePipe
  | xWriteSeq
  deriving DecidableEq, Repr

/-- `struct txc_stats_stat_s` -/
structure Stat where
  max : UInt32
  min : UInt32
  total : UInt32
  deriving DecidableEq, Repr

/-- `txc_tx_srcloc_t`; the two strings are pointers -/
structure SrcLoc where
  file : Nat
  fn : Nat
  line : Int32
  deriving DecidableEq, Repr

/-- `struct txc_stats_txstat_s` -/
structure TxStat where
  srclocStr : UInt32
  srcloc : SrcLoc
  count : UInt32
  totalStats : StatEntry → Stat

/-- `struct txc_stats_threadstat_s` -/
structure ThreadStat where
  count : UInt32
  totalStats : StatEntry → Stat
  txStats : FinMap TxStat

/-- the value of a statistic before anything is collected -/
def Stat.zero : Stat := ⟨0, 0xFFFFFFFF, 0⟩

/-- `stats_txstat_reset` -/
def statsTxstatReset (t : TxStat) : TxStat := { t with totalStats := fun _ => Stat.zero }

/-- `txc_stats_txstat_init` -/
def statsTxstatInit (t : TxStat) (srclocStr : UInt32) (srcloc : SrcLoc) : TxStat :=
  statsTxstatReset { t with count := 1, srclocStr, srcloc }

/-- `txc_stats_txstat_increment`: `txc_stats_txstat_set` of `txc_stats_txstat_get` plus `val` -/
def statsTxstatIncrement (t : TxStat) (entry : StatEntry) (val : UInt32) : TxStat :=
  { t with
    totalStats := Function.update t.totalStats entry
      { t.totalStats entry with total := (t.totalStats entry).total + val } }

/-- `txc_stats_threadstat_create` -/
def statsThreadstatCreate : ThreadStat := ⟨0, fun _ => Stat.zero, fun _ => none⟩

/-- `stats_get_txstat_container`: the container of the location, and the map with it -/
def statsGetTxstatContainer (txStats : FinMap TxStat) (t : TxStat) : TxStat × FinMap TxStat :=
  match txStats t.srclocStr with
  | some container => (container, txStats)
  | none =>
    let container := ⟨t.srclocStr, t.srcloc, 0, fun _ => Stat.zero⟩
    (container, Function.update txStats t.srclocStr (some container))

/-- a counter of one transaction is folded into a statistic -/
def Stat.collect (all : Stat) (n : UInt32) : Stat :=
  ⟨if all.max > n then all.max else n, if all.min < n then all.min else n, all.total + n⟩

/-- `statsmgr_commit_action` -/
def statsmgrCommitAction (t : TxStat) (s : ThreadStat) : ThreadStat :=
  let (container, txStats) := statsGetTxstatContainer s.txStats t
  { count := s.count + 1
    totalStats := fun i => (s.totalStats i).collect (t.totalStats i).total
    txStats := Function.update txStats t.srclocStr (some
      { container with
        count := container.count + 1
        totalStats := fun i => (container.totalStats i).collect (t.totalStats i).total }) }

theorem toNat_succ_mod {c : UInt32} {k : Nat} (h : c.toNat = k % 2 ^ 32) :
    (c + 1).toNat = (k + 1) % 2 ^ 32 := by
  rw [UInt32.toNat_add, h]
  exact Nat.mod_add_mod k (2 ^ 32) 1

/-- `statsmgr_undo_action` -/
def statsmgrUndoAction (t : TxStat) : TxStat := statsTxstatReset t

/-! ## the actions -/

/-- the actions of the statistics manager, and all others -/
inductive StatActOf (α : Type) where
  | statsmgrCommit
  | statsmgrUndo
  | other (a : α)
  deriving DecidableEq, Repr

/-- `TXC_STATSMGR_COMMIT_ACTION_ORDER`, `TXC_STATSMGR_UNDO_ACTION_ORDER` -/
def statsmgrActionOrder : Int32 := 3

section
variable {α S : Type}

def registerStatsmgrCommitAction (txd : TxDesc (ActOf (StatActOf α)) S) :
    TxDesc (ActOf (StatActOf α)) S :=
  if txd.statsmgrCommitActionRegistered = false then
    { txRegisterCommitAction txd ⟨.other .statsmgrCommit, none, statsmgrActionOrder⟩ with
      statsmgrCommitActionRegistered := true }
  else txd

def registerStatsmgrUndoAction (txd : TxDesc (ActOf (StatActOf α)) S) :
    TxDesc (ActOf (StatActOf α)) S :=
  if txd.statsmgrUndoActionRegistered = false then
    { txRegisterUndoAction txd ⟨.other .statsmgrUndo, none, statsmgrActionOrder⟩ with
      statsmgrUndoActionRegistered := true }
  else txd

/-- `txc_stats_transaction_postbegin` -/
def statsTransactionPostbegin (statistics : Bool) (txd : TxDesc (ActOf (StatActOf α)) S) :
    TxDesc (ActOf (StatActOf α)) S :=
  if statistics then registerStatsmgrUndoAction (registerStatsmgrCommitAction txd) else txd

end

end XCalls
