import XCalls.Lib.Passes
import XCalls.Lib.EventSys
import XCalls.Lib.Bubble
import XCalls.Core.Desc
import XCalls.Core.Loop
import XCalls.Core.Tx
import XCalls.Core.Sentinel
import XCalls.Core.Account
import XCalls.Core.SentinelSys
import XCalls.Core.SentinelRefs
import XCalls.Core.Registered
import XCalls.Core.Isolation
import XCalls.Core.Deadlock
import XCalls.Core.Koa
import XCalls.Core.KoaRep
import XCalls.Lib.Prog
import XCalls.XCall.Kernel
import XCalls.XCall.Machine
import XCalls.XCall.FileOps
import XCalls.XCall.PathOps
import XCalls.XCall.Run
import XCalls.XCall.Actions
import XCalls.XCall.PathSteps
import XCalls.XCall.Names
import XCalls.XCall.CommitNames
import XCalls.XCall.Contents
import XCalls.Core.Retry
import XCalls.XCall.AliasLock
import XCalls.XCall.Circular
import XCalls.XCall.PipeFifo
import XCalls.XCall.Offsets
import XCalls.XCall.FailedCalls
import XCalls.XCall.FdLocks
import XCalls.XCall.DgramLayout
import XCalls.XCall.DgramRedelivery
import XCalls.Core.AsyncErrors
import XCalls.Lib.Links
import XCalls.Misc.Pool
import XCalls.Core.TxList
import XCalls.Misc.HashTable
import XCalls.Core.Stats
import XCalls.Core.Attempt
import XCalls.Core.NoRetry
import XCalls.Core.StatsExact
import XCalls.Core.StatsReport
import XCalls.XCall.PthreadCreate
import XCalls.XCall.KoaLife
import XCalls.XCall.KoaCalls
import XCalls.XCall.LiveActions
import XCalls.XCall.KoaUndo
import XCalls.Core.TryAcquire
import XCalls.XCall.ReadPipe
import XCalls.XCall.Faults
import XCalls.XCall.CreateOver
import XCalls.XCall.OpenAbort
import XCalls.Lib.Memory
import XCalls.XCall.LinearMem
import XCalls.XCall.Sendmsg
import XCalls.Core.Config
import XCalls.XCall.Condvar
import XCalls.Core.ConfigFile
import XCalls.Core.Interface
import XCalls.Core.LinearBuffer
import XCalls.Core.StatsList
import XCalls.XCall.DetachFailure
import XCalls.XCall.Outside
import XCalls.Lib.CArray
import XCalls.Core.ParseBuffers
import XCalls.XCall.Mutex
import XCalls.Lib.Layout
import XCalls.XCall.SavedPaths
import XCalls.XCall.PathReplay
import XCalls.XCall.InodeKoas
import XCalls.XCall.OneKoa
import XCalls.XCall.Threads
import XCalls.XCall.FileKoas
import XCalls.XCall.FileCalls
import XCalls.XCall.OwnKoa
import XCalls.Lib.TwoPhase
import XCalls.XCall.FileObjects
import XCalls.XCall.FileThreads
import XCalls.XCall.FileLocal
import XCalls.XCall.UndoLoop
import XCalls.XCall.FileOwners
import XCalls.XCall.SerialInv
import XCalls.XCall.Serial
import XCalls.XCall.PipeChannel
import XCalls.Core.PoolOf
import XCalls.Core.KoaMem
import XCalls.Core.KoaRefine
import XCalls.Lib.While
import XCalls.Lib.Space
import XCalls.Libc.StrChr
import XCalls.Libc.StrCopy
import XCalls.Libc.StrBuffers
import XCalls.Libc.StrCmp
