import XCalls.Core.Koa
import XCalls.Core.PoolOf
import XCalls.Misc.HashTable

/-!
# The KOA manager in memory

The functions of `koa.c` on the pools of `pool.c` and the table of `hash_table.c`, with addresses for
the pointers.

* `SentinelMem`, `KoaMem`   the objects of the pools, and the managers;
* `memSentinelCreate`, `memSentinelDetach`   the references to a sentinel;
* `memKoaCreate`, `memKoaDestroy`, `memKoaAttachFd`, `memKoaDetachFd`, `memKoaAttach`,
  `memKoaDetach`      the functions of `koa.c`;
* `memKoamgrCreate`   the manager with the KOAs of the standard descriptors.

`none` is `TXC_INTERNALERROR`, a failed assertion, or a `NULL` that is followed.
-/

namespace XCalls
variable {T : Type}

/-- `TXC_KOA_MAP_SIZE` -/
def koaMapSize : Nat := 1024

/-! ## sentinels -/

/-- the memory of `pool_sentinel` -/
structure SentinelMem (T : Type) where
  sentinel : Nat → Sentinel T
  pool : Pool

/-- `txc_sentinel_create` -/
def memSentinelCreate (h : SentinelMem T) : Option (Nat × SentinelMem T) :=
  match poolObjectAlloc h.pool with
  | some (pool, some s) =>
    some (s, ⟨Function.update h.sentinel s { h.sentinel s with owner := none, refcnt := 1 }, pool⟩)
  | _ => none

/-- `sentinel_attach` -/
def memSentinelAttach (h : SentinelMem T) (s : Nat) : SentinelMem T :=
  { h with sentinel :=
      Function.update h.sentinel s { h.sentinel s with refcnt := (h.sentinel s).refcnt + 1 } }

/-- `sentinel_detach` -/
def memSentinelDetach (h : SentinelMem T) (s : Nat) : Option (SentinelMem T) :=
  let sentinel :=
    Function.update h.sentinel s { h.sentinel s with refcnt := (h.sentinel s).refcnt - 1 }
  if (h.sentinel s).refcnt - 1 = 0 then
    (poolObjectFree h.pool s).map fun pool => ⟨sentinel, pool⟩
  else some { h with sentinel }

/-- the loop of `txc_sentinelmgr_create` over the buffers of the objects -/
def memAssignIds : Nat → List Nat → (Nat → Sentinel T) → Nat → Sentinel T
  | _, [], mem => mem
  | i, s :: l, mem => memAssignIds (i + 1) l (Function.update mem s ((mem s).number i))

/-- `txc_sentinelmgr_create` with its pool; `CALLOC` has cleared the objects -/
def memSentinelmgrCreate (T : Type) (pool : Pool) : Option (SentinelMem T) :=
  (poolVisit pool poolObjectIsAny pool.objNum.toNat).map fun l =>
    ⟨memAssignIds 0 (l.map pool.buf) fun _ => ⟨none, none, 0, 0⟩, pool⟩

/-! ## kernel objects -/

/-- the types with a circular buffer -/
def KoaType.buffered : KoaType → Bool
  | .sockDgram => true
  | .pipeReadEnd => true
  | _ => false

/-- `struct txc_koa_s`; of the union only the member that belongs to `type` is ever read -/
structure KoaObj where
  sentinel : Option Nat
  fd : Nat → Nat
  fdRefcnt : Int
  refcnt : Int
  type : KoaType
  stIno : UInt32
  bufferCircularInput : Option Nat

/-- `koa->fdref.fd[i]` -/
def KoaObj.readFd (v : KoaObj) (i : Nat) : Nat :=
  if i < maxNumFdrefsPerKoa then v.fd i else v.fdRefcnt.toNat

/-- the search loop of `txc_koa_detach_fd` -/
def KoaObj.indexOf (v : KoaObj) (fd : Nat) : Option Nat :=
  (List.range v.fdRefcnt.toNat).find? fun i => v.fd i = fd

/-- `struct txc_koamgr_s`, the objects of its pool, and what it points to -/
structure KoaMem (T : Type) where
  koa : Nat → KoaObj
  poolKoaObj : Pool
  map : Nat → Option Nat
  hashTbl : HashTable Nat
  sentinels : SentinelMem T
  poolBufferCircular : Pool

/-- the calls of `hash_table.c`: enough fuel for its walks, and what `MALLOC` returns -/
structure HashEnv where
  fuel : Nat
  fresh : Fresh Nat

namespace KoaMem

def set (h : KoaMem T) (k : Nat) (v : KoaObj) : KoaMem T :=
  { h with koa := Function.update h.koa k v }

end KoaMem

/-- the `switch` of `txc_koa_create`; the buffer is one of `txc_buffer_circular_create` -/
def memKoaInit (h : KoaMem T) (k : Nat) (type : KoaType) (args : UInt32) : Option (KoaMem T) :=
  match type with
  | .file => some (h.set k { h.koa k with stIno := args })
  | .sockDgram | .pipeReadEnd =>
    match poolObjectAlloc h.poolBufferCircular with
    | some (pool, some b) =>
      some { h.set k { h.koa k with bufferCircularInput := some b } with poolBufferCircular := pool }
    | _ => none
  | .sockStream | .pipeWriteEnd => some h

/-- `txc_koa_create` -/
def memKoaCreate (h : KoaMem T) (type : KoaType) (args : UInt32) : Option (Nat × KoaMem T) :=
  match poolObjectAlloc h.poolKoaObj with
  | some (pool, some k) =>
    (memSentinelCreate h.sentinels).bind fun (s, sentinels) =>
      let v := { h.koa k with sentinel := some s, type := type, refcnt := 0, fdRefcnt := 0 }
      (memKoaInit { h.set k v with poolKoaObj := pool, sentinels := sentinels } k type args).map
        fun h => (k, h)
  | _ => none

/-- the `switch` of `txc_koa_destroy` -/
def memKoaRelease (h : KoaMem T) (k : Nat) : Option (KoaMem T) :=
  if (h.koa k).type.buffered then
    (h.koa k).bufferCircularInput.bind fun b =>
      (poolObjectFree h.poolBufferCircular b).map fun pool =>
        { h.set k { h.koa k with bufferCircularInput := none } with poolBufferCircular := pool }
  else some h

/-- `txc_koa_destroy` -/
def memKoaDestroy (h : KoaMem T) (k : Nat) : Option (KoaMem T) :=
  (h.koa k).sentinel.bind fun s =>
    (memSentinelDetach h.sentinels s).bind fun sentinels =>
      (memKoaRelease { h with sentinels := sentinels } k).bind fun h =>
        (poolObjectFree h.poolKoaObj k).map fun pool => { h with poolKoaObj := pool }

/-! ## the alias cache -/

/-- `alias_cache_insert` -/
def memAliasCacheInsert (env : HashEnv) (h : KoaMem T) (k : Nat) : Option (KoaMem T) :=
  (hashTableAdd env.fuel h.hashTbl (h.koa k).stIno k env.fresh).map fun out =>
    { h with hashTbl := out.table }

/-- `alias_cache_remove` -/
def memAliasCacheRemove (env : HashEnv) (h : KoaMem T) (k : Nat) : Option (KoaMem T) :=
  (hashTableRemove env.fuel h.hashTbl (h.koa k).stIno).map fun out =>
    { h with hashTbl := out.table }

/-- `txc_koa_alias_cache_lookup_inode` -/
def memKoaAliasCacheLookupInode (env : HashEnv) (h : KoaMem T) (inodeNumber : UInt32) :
    Option (Option Nat) :=
  (hashTableLookup env.fuel h.hashTbl inodeNumber).map HashOut.value

/-! ## references -/

/-- `txc_koa_attach` -/
def memKoaAttach (env : HashEnv) (h : KoaMem T) (k : Nat) : Option (KoaMem T) :=
  let h := h.set k { h.koa k with refcnt := (h.koa k).refcnt + 1 }
  if (h.koa k).refcnt = 1 ∧ (h.koa k).type = .file then memAliasCacheInsert env h k else some h

/-- `txc_koa_detach` -/
def memKoaDetach (env : HashEnv) (h : KoaMem T) (k : Nat) : Option (KoaMem T) :=
  let h := h.set k { h.koa k with refcnt := (h.koa k).refcnt - 1 }
  if (h.koa k).refcnt = 0 then
    (if (h.koa k).type = .file then memAliasCacheRemove env h k else some h).bind fun h =>
      memKoaDestroy h k
  else some h

/-! ## descriptors -/

/-- `txc_koa_attach_fd`; its reference is that of `txc_koa_attach` -/
def memKoaAttachFd (env : HashEnv) (h : KoaMem T) (k fd : Nat) : Option (KoaMem T) :=
  if fd < koaMapSize ∧ h.map fd = none then
    (memKoaAttach env { h with map := Function.update h.map fd (some k) } k).bind fun h =>
      if (h.koa k).fdRefcnt ≥ maxNumFdrefsPerKoa then none
      else some (h.set k { h.koa k with
        fd := Function.update (h.koa k).fd (h.koa k).fdRefcnt.toNat fd
        fdRefcnt := (h.koa k).fdRefcnt + 1 })
  else none

/-- `txc_koa_detach_fd`, with `true` for `TXC_R_SUCCESS` -/
def memKoaDetachFd (env : HashEnv) (h : KoaMem T) (k fd : Nat) : Option (Bool × KoaMem T) :=
  if fd < koaMapSize then
    match h.map fd with
    | none => some (false, h)
    | some _ =>
      let h := { h with map := Function.update h.map fd none }
      match (h.koa k).indexOf fd with
      | none => some (false, h)
      | some index =>
        let v := h.koa k
        (memKoaDetach env (h.set k { v with
          fd := Function.update v.fd index (v.readFd v.fdRefcnt.toNat)
          fdRefcnt := v.fdRefcnt - 1 }) k).map fun h => (true, h)
  else none

/-- `txc_koa_lookup_fd2koa` -/
def memKoaLookupFd2koa (h : KoaMem T) (fd : Nat) : Option (Option Nat) :=
  if fd < koaMapSize then some (h.map fd) else none

/-! ## the manager -/

def memPrecreate (env : HashEnv) (h : KoaMem T) (type : KoaType) (fd : Nat) : Option (KoaMem T) :=
  (memKoaCreate h type 0).bind fun (k, h) => memKoaAttachFd env h k fd

/-- `txc_koamgr_create` with its pools and the memory of the buckets -/
def memKoamgrCreate (T : Type) (env : HashEnv) (poolKoaObj poolSentinel poolBufferCircular : Pool)
    (tableSize : UInt32) (mem : Buckets Nat) : Option (KoaMem T) :=
  (memSentinelmgrCreate T poolSentinel).bind fun sentinels =>
    let h : KoaMem T :=
      { koa := fun _ => ⟨none, fun _ => 0, 0, 0, .sockDgram, 0, none⟩
        poolKoaObj := poolKoaObj
        map := fun _ => none
        hashTbl := hashTableCreate tableSize mem
        sentinels := sentinels
        poolBufferCircular := poolBufferCircular }
    (memPrecreate env h .pipeReadEnd 0).bind fun h =>
      (memPrecreate env h .pipeWriteEnd 1).bind fun h => memPrecreate env h .pipeWriteEnd 2

end XCalls
