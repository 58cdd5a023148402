import XCalls.Core.Sentinel

/-!
# Kernel object abstractions and their manager

* `Koa`, `KoaMgr`     the objects of the pool, the map from descriptors, the alias cache, and the
                      sentinels that back the objects;
* `koaCreate`, `koaDestroy`;
* `koaAttachFd`, `koaDetachFd`   a descriptor is attached to a KOA, with a pointer back;
* `koaAttach`, `koaDetach`       a reference without a descriptor;
* `koamgrCreate`      the manager with the KOAs of the standard descriptors.

`none` is `TXC_INTERNALERROR`, which ends the process.  The alias cache is a finite map (`add` does
not change a key that is bound).  Circular buffers of pipes and sockets are left out here, and so
are the mutexes, which only order the calls.
-/

namespace XCalls

inductive KoaType where
  | sockDgram
  | sockStream
  | pipeReadEnd
  | pipeWriteEnd
  | file
  deriving DecidableEq, Repr

/-- `TXC_MAX_NUM_FDREFS_PER_KOA` -/
def maxNumFdrefsPerKoa : Nat := 8

/-- `struct txc_koa_s`; `fd` and `fdRefcnt` are the members of `fdref` -/
structure Koa (n : Nat) where
  sentinel : Option (Fin n)
  fd : Nat → Nat
  fdRefcnt : Int
  refcnt : Int
  type : KoaType
  stIno : UInt32

/-- `struct txc_koamgr_s` with a pool of `N` KOAs -/
structure KoaMgr (T : Type) (n N : Nat) where
  koa : Fin N → Koa n
  free : List (Fin N)
  map : Nat → Option (Fin N)
  aliasCache : UInt32 → Option (Fin N)
  sentinelmgr : SentinelMgr T n

section
variable {T : Type} {n N : Nat}

namespace KoaMgr

def set (m : KoaMgr T n N) (k : Fin N) (v : Koa n) : KoaMgr T n N :=
  { m with koa := Function.update m.koa k v }

theorem set_koa (m : KoaMgr T n N) (k : Fin N) (v : Koa n) (x : Fin N) :
    (m.set k v).koa x = if x = k then v else m.koa x := by
  show Function.update m.koa k v x = _
  rw [Function.update_apply]

end KoaMgr

/-! ## creation and destruction -/

/-- `txc_koa_create`; a recycled object keeps its array `fd` -/
def koaCreate (m : KoaMgr T n N) (type : KoaType) (args : UInt32) :
    Option (Fin N × KoaMgr T n N) :=
  match m.free with
  | [] => none
  | k :: rest =>
    (sentinelCreate m.sentinelmgr).map fun (s, sm) =>
      (k, { m.set k { m.koa k with
              sentinel := some s, type := type, refcnt := 0, fdRefcnt := 0,
              stIno := if type = .file then args else (m.koa k).stIno } with
            free := rest, sentinelmgr := sm })

/-- `txc_koa_destroy` -/
def koaDestroy (m : KoaMgr T n N) (k : Fin N) : KoaMgr T n N :=
  { m with
    sentinelmgr :=
      match (m.koa k).sentinel with
      | some s => sentinelDetach m.sentinelmgr s
      | none => m.sentinelmgr
    free := k :: m.free }

/-! ## the alias cache -/

/-- `alias_cache_insert` -/
def aliasCacheInsert (m : KoaMgr T n N) (k : Fin N) : KoaMgr T n N :=
  match m.aliasCache (m.koa k).stIno with
  | some _ => m
  | none => { m with aliasCache := Function.update m.aliasCache (m.koa k).stIno (some k) }

/-- `alias_cache_remove` -/
def aliasCacheRemove (m : KoaMgr T n N) (k : Fin N) : KoaMgr T n N :=
  { m with aliasCache := Function.update m.aliasCache (m.koa k).stIno none }

/-- `txc_koa_alias_cache_lookup_inode` -/
def koaAliasCacheLookupInode (m : KoaMgr T n N) (inodeNumber : UInt32) : Option (Fin N) :=
  m.aliasCache inodeNumber

/-! ## references -/

/-- `koa->refcnt++`, and the insertion of the first attach -/
def countAttach (m : KoaMgr T n N) (k : Fin N) : KoaMgr T n N :=
  let m := m.set k { m.koa k with refcnt := (m.koa k).refcnt + 1 }
  if (m.koa k).refcnt = 1 ∧ (m.koa k).type = .file then aliasCacheInsert m k else m

/-- `koa->refcnt--`, and what the last detach does -/
def countDetach (m : KoaMgr T n N) (k : Fin N) : KoaMgr T n N :=
  let m := m.set k { m.koa k with refcnt := (m.koa k).refcnt - 1 }
  if (m.koa k).refcnt = 0 then
    koaDestroy (if (m.koa k).type = .file then aliasCacheRemove m k else m) k
  else m

/-- `txc_koa_attach` -/
def koaAttach (m : KoaMgr T n N) (k : Fin N) : KoaMgr T n N := countAttach m k

/-- `txc_koa_detach` -/
def koaDetach (m : KoaMgr T n N) (k : Fin N) : KoaMgr T n N := countDetach m k

/-! ## descriptors -/

/-- `txc_koa_attach_fd` -/
def koaAttachFd (m : KoaMgr T n N) (k : Fin N) (fd : Nat) : Option (KoaMgr T n N) :=
  let m := countAttach { m with map := Function.update m.map fd (some k) } k
  if (m.koa k).fdRefcnt ≥ maxNumFdrefsPerKoa then none
  else some (m.set k { m.koa k with
    fd := Function.update (m.koa k).fd (m.koa k).fdRefcnt.toNat fd
    fdRefcnt := (m.koa k).fdRefcnt + 1 })

/-- `koa->fdref.fd[i]`; the word behind the array is `fdref.refcnt` -/
def Koa.readFd (v : Koa n) (i : Nat) : Nat :=
  if i < maxNumFdrefsPerKoa then v.fd i else v.fdRefcnt.toNat

/-- the search loop of `txc_koa_detach_fd` -/
def Koa.indexOf (v : Koa n) (fd : Nat) : Option Nat :=
  (List.range v.fdRefcnt.toNat).find? fun i => v.fd i = fd

/-- `txc_koa_detach_fd`, with `true` for `TXC_R_SUCCESS` and `false` for `TXC_R_FAILURE` -/
def koaDetachFd (m : KoaMgr T n N) (k : Fin N) (fd : Nat) : Bool × KoaMgr T n N :=
  match m.map fd with
  | none => (false, m)
  | some _ =>
    let m := { m with map := Function.update m.map fd none }
    match (m.koa k).indexOf fd with
    | none => (false, m)
    | some index =>
      let v := m.koa k
      (true, countDetach (m.set k { v with
        fd := Function.update v.fd index (v.readFd v.fdRefcnt.toNat)
        fdRefcnt := v.fdRefcnt - 1 }) k)

/-- `txc_koa_lookup_fd2koa` -/
def koaLookupFd2koa (m : KoaMgr T n N) (fd : Nat) : Option (Fin N) := m.map fd

/-! ## the manager -/

/-- a KOA from the pool attached to `fd` -/
def precreate (m : KoaMgr T n N) (type : KoaType) (fd : Nat) : Option (KoaMgr T n N) :=
  (koaCreate m type 0).bind fun (k, m) => koaAttachFd m k fd

/-- the manager before its KOAs are created; the pool is zeroed memory -/
def koamgrEmpty (T : Type) (n N : Nat) : KoaMgr T n N :=
  { koa := fun _ => ⟨none, fun _ => 0, 0, 0, .sockDgram, 0⟩
    free := poolWalk N (poolFirst N)
    map := fun _ => none
    aliasCache := fun _ => none
    sentinelmgr := sentinelmgrCreate T n }

/-- `txc_koamgr_create` -/
def koamgrCreate (T : Type) (n N : Nat) : Option (KoaMgr T n N) :=
  (precreate (koamgrEmpty T n N) .pipeReadEnd 0).bind fun m =>
    (precreate m .pipeWriteEnd 1).bind fun m => precreate m .pipeWriteEnd 2

end

end XCalls
