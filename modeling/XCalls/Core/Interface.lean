import XCalls.Core.Config
import XCalls.Core.Koa
import XCalls.Core.PoolOf
import XCalls.Core.Stats
import XCalls.Core.TxList

/-!
# Initialisation of the library

`interface.c`: `_TXC_global_init` reads the configuration and creates the managers;
`_TXC_thread_init` takes a transaction descriptor for the calling thread.

* `Library`        the global managers and the descriptor of each thread (`txc_l_txd`);
* `txcGlobalInit`, `txcThreadInit`   `none` when the process ends;
* `Idempotent`     what the documentation promises of a second call of either;
* `SettledSettings`   the settings are as the file and the environment want them;
* `KoaMgr.Standard`, `TxMgr.Fresh`   nothing has been taken from the pools but the KOAs of the
                   standard descriptors (`koamgrCreate_iff`, `fresh_txmgrCreate`);
* `AsFirstInit`    nothing has happened since `_TXC_global_init`.

`init_idempotent_iff`: only an untouched library keeps the promise.  `_TXC_global_init` creates
every manager anew and reads the configuration again, and `_TXC_thread_init` takes another
descriptor from the pool.

The statistics are the list of what `txc_stats_threadstat_create` has linked, each with the
descriptor it is for.  What is left out: the pools of buffers, which no state here refers to.
-/

set_option linter.unusedSectionVars false

namespace XCalls

structure Library (T : Type) (n N : Nat) where
  settings : Settings
  koamgr : KoaMgr T n N
  txmgr : TxMgr
  threadstats : List (Nat × ThreadStat)
  allocThreadstatNum : UInt32
  txd : T → Option Nat

/-- what the process finds: the configuration file, the environment, and where the memory of the
pool of descriptors is -/
structure InitEnv where
  file : Option (List Char)
  getenv : List Char → Option (List Char)
  fullBuf : Nat

section
variable {T : Type} [DecidableEq T] {n N : Nat} (w : Nat) (txSize : UInt32)

/-- `txc_config_init` -/
def configInit (env : InitEnv) (s : Settings) : Option Settings :=
  match configInitUseFile w env.file s with
  | .done _ s => some (configInitUseEnv w env.getenv s)
  | _ => none

def Settings.debugAll (s : Settings) : Bool := s .debugAll
def Settings.statistics (s : Settings) : Bool := s .statistics

/-- `debug_all` enables the messages of every module -/
def enableDebugAll (s : Settings) : Settings :=
  if s.debugAll then
    fun
      | .debugKoa => true
      | .debugPool => true
      | .debugSentinel => true
      | .debugTx => true
      | .debugXcall => true
      | o => s o
  else s

/-- `_TXC_global_init` -/
def txcGlobalInit (env : InitEnv) (L : Library T n N) : Option (Library T n N) :=
  match configInit w env L.settings, koamgrCreate T n N with
  | some settings, some koamgr => some
      { L with
        settings := enableDebugAll settings
        koamgr
        txmgr := txmgrCreate env.fullBuf txSize
        threadstats := []
        allocThreadstatNum := 0 }
  | _, _ => none

/-- `_TXC_thread_init`: `txc_tx_create` for the thread `t` -/
def txcThreadInit (t : T) (L : Library T n N) : Option (Library T n N) :=
  L.txmgr.txCreate.map fun r =>
    let L := { L with txmgr := r.1, txd := Function.update L.txd t (some r.2) }
    if L.settings.statistics then
      { L with
        threadstats := L.threadstats ++ [(r.2, statsThreadstatCreate)]
        allocThreadstatNum := L.allocThreadstatNum + 1 }
    else L

/-- the statistics of the thread -/
def Library.threadstat (L : Library T n N) (t : T) : Option ThreadStat :=
  (L.txd t).bind fun d => (L.threadstats.find? fun r => r.1 = d).map Prod.snd

/-! ## a second call -/

/-- the manager is the same, except that its pool of descriptors may lie elsewhere -/
def TxMgr.Elsewhere (g g' : TxMgr) : Prop :=
  g' = { g with poolTxd :=
    { g.poolTxd with fullBuf := g'.poolTxd.fullBuf, buf := g'.poolTxd.buf } }

/-- the settings and the managers are as they were, and so is what every later xCall finds there -/
structure SameManagers (L L' : Library T n N) : Prop where
  settings : L'.settings = L.settings
  koamgr : L'.koamgr = L.koamgr
  txmgr : L.txmgr.Elsewhere L'.txmgr
  stats : L'.threadstats = L.threadstats ∧ L'.allocThreadstatNum = L.allocThreadstatNum
  threads : L'.txd = L.txd

structure SameThread (t : T) (L L' : Library T n N) : Prop where
  txd : L'.txd t = L.txd t
  num : L'.txmgr.allocTxdNum = L.txmgr.allocTxdNum
  stat : L'.threadstat t = L.threadstat t

/-- a second `_TXC_global_init`, and a second `_TXC_thread_init` in any thread that has made the
first, return and change nothing -/
def Idempotent (env : InitEnv) (L : Library T n N) : Prop :=
  (∃ L', txcGlobalInit w txSize env L = some L' ∧ SameManagers L L') ∧
    ∀ t, L.txd t ≠ none → ∃ L', txcThreadInit t L = some L' ∧ SameThread t L L'

/-! ### an untouched library -/

/-- the KOA of the standard descriptor `fd` -/
structure Koa.Standard (v : Koa n) (fd : Nat) : Prop where
  sentinel : v.sentinel.map Fin.val = some fd
  fdref : ∀ i, v.fd i = if i = 0 then fd else 0
  fdRefcnt : v.fdRefcnt = 1
  refcnt : v.refcnt = 1
  type : v.type = if fd = 0 then .pipeReadEnd else .pipeWriteEnd
  stIno : v.stIno = 0

/-- the first `c` descriptors have KOAs, the first of the pool, with a reference to the first
sentinels; the other objects of the two pools have never been used -/
structure KoaMgr.Standard (c : Nat) (m : KoaMgr T n N) : Prop where
  map : ∀ fd, (m.map fd).map Fin.val = if fd < c then some fd else none
  aliasCache : ∀ ino, m.aliasCache ino = none
  free : m.free.map Fin.val = (List.range N).drop c
  used : ∀ k, k.val < c → (m.koa k).Standard k.val
  unused : ∀ k, c ≤ k.val → m.koa k = ⟨none, fun _ => 0, 0, 0, .sockDgram, 0⟩
  sentinel : ∀ s, m.sentinelmgr.sentinel s = ⟨none, none, s.val, if s.val < c then 1 else 0⟩
  freeSentinels : m.sentinelmgr.free.map Fin.val = (List.range n).drop c

/-- all objects are free, in the order of the array -/
structure Pool.Fresh (p : Pool) (objSize objNum : UInt32) : Prop where
  status : ∀ o, p.status o = if o < objNum.toNat then poolObjectIsFree else 0
  next : ∀ o, p.next o = if o + 1 < objNum.toNat then some (o + 1) else none
  prev : ∀ o, p.prev o = if 0 < o ∧ o < objNum.toNat then some (o - 1) else none
  heads : p.objFreeHead = some 0 ∧ p.objAllocatedHead = none
  nums : p.objFreeNum = objNum ∧ p.objAllocatedNum = 0
  sizes : p.objSize = objSize ∧ p.objNum = objNum

/-- no descriptor has ever been allocated -/
structure TxMgr.Fresh (g : TxMgr) (txSize : UInt32) : Prop where
  pool : g.poolTxd.Fresh txSize maxNumThreads
  links : (∀ txd, g.next txd = none) ∧ ∀ txd, g.prev txd = none
  list : g.allocTxdListHead = none ∧ g.allocTxdListTail = none ∧ g.allocTxdNum = 0

/-- the options that `debug_all` enables -/
def debugModules : List RuntimeOption :=
  [.debugKoa, .debugPool, .debugSentinel, .debugTx, .debugXcall]

/-- if the file's pairs and the environment give the option a valid value, it has the last one -/
def Configured (pairs : List (List Char × List Char)) (getenv : List Char → Option (List Char))
    (s : Settings) (o : RuntimeOption) : Prop :=
  ∀ value, ((valuesOf o.name pairs ++ (getenv o.envName).toList).filter
    fun v => ValidText w o.type v).getLast? = some value → s o = meaning w o.type value

/-- the options are as configured, but those of the modules are enabled if `debug_all` is -/
structure SettledSettings (pairs : List (List Char × List Char))
    (getenv : List Char → Option (List Char)) (s : Settings) : Prop where
  configured : ∀ o, (s.debugAll = true → o ∉ debugModules) → Configured w pairs getenv s o
  enabled : s.debugAll = true → s .debugKoa = true ∧ s .debugPool = true ∧
    s .debugSentinel = true ∧ s .debugTx = true ∧ s .debugXcall = true

/-- the settings are settled, only the standard KOAs exist, no thread has a descriptor, and there
are no statistics -/
structure AsFirstInit (pairs : List (List Char × List Char))
    (getenv : List Char → Option (List Char)) (L : Library T n N) : Prop where
  settings : SettledSettings w pairs getenv L.settings
  koamgr : L.koamgr.Standard 3
  txmgr : L.txmgr.Fresh txSize
  stats : L.threadstats = [] ∧ L.allocThreadstatNum = 0
  threads : ∀ t, L.txd t = none

/-! ### the KOAs -/

theorem standard_koamgrEmpty : (koamgrEmpty T n N).Standard 0 where
  map := fun _ => rfl
  aliasCache := fun _ => rfl
  free := poolWalk_first_val
  used := fun _ h => absurd h (Nat.not_lt_zero _)
  unused := fun _ _ => rfl
  sentinel := sentinel_sentinelmgrCreate
  freeSentinels := poolWalk_first_val

theorem cons_of_drop {l : List (Fin n)} {c : Nat} (h : l.map Fin.val = (List.range n).drop c)
    (hc : c < n) :
    ∃ k rest, l = k :: rest ∧ k.val = c ∧ rest.map Fin.val = (List.range n).drop (c + 1) := by
  have hlen : c < (List.range n).length := by rw [List.length_range]; exact hc
  rw [List.drop_eq_getElem_cons hlen, List.getElem_range] at h
  obtain ⟨k, rest, hl, hk, hrest⟩ := List.map_eq_cons_iff.mp h
  exact ⟨k, rest, hl, hk, hrest⟩

theorem nil_of_drop {l : List (Fin n)} {c : Nat} (h : l.map Fin.val = (List.range n).drop c)
    (hc : n ≤ c) : l = [] := by
  rw [List.drop_eq_nil_of_le (by rw [List.length_range]; exact hc)] at h
  exact List.map_eq_nil_iff.mp h

/-- `txc_koa_create` and `txc_koa_attach_fd` on the heads of the two pools -/
theorem precreate_cons {m : KoaMgr T n N} {k : Fin N} {rest : List (Fin N)} {s : Fin n}
    {rest' : List (Fin n)} (hk : m.free = k :: rest) (hs : m.sentinelmgr.free = s :: rest')
    (hun : m.koa k = ⟨none, fun _ => 0, 0, 0, .sockDgram, 0⟩) {type : KoaType} (ht : type ≠ .file)
    (fd : Nat) :
    precreate m type fd = some
      { koa := Function.update m.koa k
          ⟨some s, Function.update (fun _ => 0) 0 fd, 1, 1, type, 0⟩
        free := rest
        map := Function.update m.map fd (some k)
        aliasCache := m.aliasCache
        sentinelmgr :=
          { sentinel := Function.update m.sentinelmgr.sentinel s
              { m.sentinelmgr.sentinel s with owner := none, refcnt := 1 }
            free := rest' } } := by
  simp [precreate, koaCreate, sentinelCreate, koaAttachFd, countAttach, KoaMgr.set,
    SentinelMgr.set, hk, hs, hun, ht, maxNumFdrefsPerKoa]

theorem KoaMgr.Standard.precreate {c : Nat} {m : KoaMgr T n N} (h : m.Standard c) (hn : c < n)
    (hN : c < N) {type : KoaType} (ht : type = if c = 0 then .pipeReadEnd else .pipeWriteEnd) :
    ∃ m', XCalls.precreate m type c = some m' ∧ m'.Standard (c + 1) := by
  obtain ⟨k, rest, hk, hkc, hrest⟩ := cons_of_drop h.free hN
  obtain ⟨s, rest', hs, hsc, hrest'⟩ := cons_of_drop h.freeSentinels hn
  have hfile : type ≠ .file := by
    rw [ht]
    split <;> exact fun hc => nomatch hc
  refine ⟨_, precreate_cons hk hs (h.unused k (Nat.le_of_eq hkc.symm)) hfile c, ?_⟩
  constructor
  · intro fd
    dsimp only
    by_cases hfd : fd = c
    · rw [hfd, Function.update_self, if_pos (Nat.lt_succ_self c), Option.map_some, hkc]
    · have hlt : fd < c + 1 ↔ fd < c := by omega
      rw [Function.update_of_ne hfd, h.map fd]
      simp only [hlt]
  · exact h.aliasCache
  · exact hrest
  · intro x hx
    dsimp only
    by_cases hxk : x = k
    · rw [hxk, Function.update_self, hkc]
      refine ⟨congrArg some hsc, fun i => ?_, rfl, rfl, ht, rfl⟩
      dsimp only
      rw [Function.update_apply]
    · rw [Function.update_of_ne hxk]
      have hne : x.val ≠ k.val := fun hc => hxk (Fin.ext hc)
      exact h.used x (by omega)
  · intro x hx
    have hxk : x ≠ k := fun hc => by rw [hc, hkc] at hx; omega
    dsimp only
    rw [Function.update_of_ne hxk]
    exact h.unused x (by omega)
  · intro x
    dsimp only
    by_cases hxs : x = s
    · have hlt : s.val < c + 1 := by omega
      rw [hxs, Function.update_self, h.sentinel s, if_pos hlt]
    · have hne : x.val ≠ s.val := fun hc => hxs (Fin.ext hc)
      have hlt : x.val < c + 1 ↔ x.val < c := by omega
      rw [Function.update_of_ne hxs, h.sentinel x]
      simp only [hlt]
  · exact hrest'

theorem KoaMgr.Standard.sizes {c : Nat} {m : KoaMgr T n N} (h : m.Standard (c + 1)) :
    c < n ∧ c < N := by
  have hmap := h.map c
  rw [if_pos (Nat.lt_succ_self c), Option.map_eq_some_iff] at hmap
  obtain ⟨k, -, hk⟩ := hmap
  obtain ⟨s, -, hs⟩ := Option.map_eq_some_iff.mp (h.used k (by omega)).sentinel
  exact ⟨by have := s.isLt; omega, by have := k.isLt; omega⟩

theorem Koa.Standard.unique {v v' : Koa n} {fd : Nat} (h : v.Standard fd) (h' : v'.Standard fd) :
    v = v' := by
  obtain ⟨s, f, r, c, ty, ino⟩ := v
  obtain ⟨s', f', r', c', ty', ino'⟩ := v'
  have hs : s = s' :=
    Option.map_injective Fin.val_injective (h.sentinel.trans h'.sentinel.symm)
  have hf : f = f' := funext fun i => (h.fdref i).trans (h'.fdref i).symm
  have hr : r = r' := h.fdRefcnt.trans h'.fdRefcnt.symm
  have hc : c = c' := h.refcnt.trans h'.refcnt.symm
  have hty : ty = ty' := h.type.trans h'.type.symm
  have hino : ino = ino' := h.stIno.trans h'.stIno.symm
  rw [hs, hf, hr, hc, hty, hino]

theorem KoaMgr.Standard.unique {c : Nat} {m m' : KoaMgr T n N} (h : m.Standard c)
    (h' : m'.Standard c) : m = m' := by
  have hkoa : m.koa = m'.koa := by
    funext k
    by_cases hk : k.val < c
    · exact (h.used k hk).unique (h'.used k hk)
    · rw [h.unused k (Nat.le_of_not_lt hk), h'.unused k (Nat.le_of_not_lt hk)]
  have hfree : m.free = m'.free :=
    List.map_injective_iff.mpr Fin.val_injective (h.free.trans h'.free.symm)
  have hmap : m.map = m'.map := funext fun fd =>
    Option.map_injective Fin.val_injective ((h.map fd).trans (h'.map fd).symm)
  have halias : m.aliasCache = m'.aliasCache := funext fun ino =>
    (h.aliasCache ino).trans (h'.aliasCache ino).symm
  have hsentinel : m.sentinelmgr.sentinel = m'.sentinelmgr.sentinel := funext fun s =>
    (h.sentinel s).trans (h'.sentinel s).symm
  have hfreeS : m.sentinelmgr.free = m'.sentinelmgr.free :=
    List.map_injective_iff.mpr Fin.val_injective (h.freeSentinels.trans h'.freeSentinels.symm)
  obtain ⟨koa, free, map, cache, ⟨sentinel, freeS⟩⟩ := m
  obtain ⟨koa', free', map', cache', ⟨sentinel', freeS'⟩⟩ := m'
  dsimp only at hkoa hfree hmap halias hsentinel hfreeS
  rw [hkoa, hfree, hmap, halias, hsentinel, hfreeS]

theorem KoaMgr.Standard.step {c : Nat} {m m' : KoaMgr T n N} (h : m.Standard c) {type : KoaType}
    (ht : type = if c = 0 then .pipeReadEnd else .pipeWriteEnd)
    (hp : XCalls.precreate m type c = some m') : m'.Standard (c + 1) := by
  obtain ⟨r, hr, -⟩ := Option.bind_eq_some_iff.mp hp
  -- neither pool is exhausted
  have hn : c < n := by
    by_contra hc
    rw [koaCreate, sentinelCreate, nil_of_drop h.freeSentinels (Nat.le_of_not_lt hc)] at hr
    cases hf : m.free with
    | nil =>
      rw [hf] at hr
      cases hr
    | cons k rest =>
      rw [hf] at hr
      cases hr
  have hN : c < N := by
    by_contra hc
    rw [koaCreate, nil_of_drop h.free (Nat.le_of_not_lt hc)] at hr
    cases hr
  obtain ⟨m₁, h₁, hs⟩ := h.precreate hn hN ht
  rw [hp] at h₁
  cases h₁
  exact hs

/-- `txc_koamgr_create` makes the one manager with three standard KOAs -/
theorem koamgrCreate_iff (m : KoaMgr T n N) : koamgrCreate T n N = some m ↔ m.Standard 3 := by
  have hempty := standard_koamgrEmpty (T := T) (n := n) (N := N)
  constructor
  · intro h
    obtain ⟨m₁, h₁, h⟩ := Option.bind_eq_some_iff.mp h
    obtain ⟨m₂, h₂, h₃⟩ := Option.bind_eq_some_iff.mp h
    exact ((hempty.step rfl h₁).step rfl h₂).step rfl h₃
  · intro h
    obtain ⟨hn, hN⟩ := h.sizes
    obtain ⟨m₁, h₁, hs₁⟩ := hempty.precreate (by omega) (by omega)
      (rfl : KoaType.pipeReadEnd = _)
    obtain ⟨m₂, h₂, hs₂⟩ := hs₁.precreate (by omega) (by omega) (rfl : KoaType.pipeWriteEnd = _)
    obtain ⟨m₃, h₃, hs₃⟩ := hs₂.precreate hn hN (rfl : KoaType.pipeWriteEnd = _)
    rw [koamgrCreate, h₁, Option.bind_some, h₂, Option.bind_some, h₃, hs₃.unique h]

/-! ### the descriptors -/

section
variable (fullBuf : Nat) (objSize objNum : UInt32)

theorem createLoop_rest (k o : Nat) (ho : k ≤ o) :
    (createLoop fullBuf objSize objNum k).next o = none ∧
      (createLoop fullBuf objSize objNum k).prev o = none ∧
      (createLoop fullBuf objSize objNum k).status o = 0 := by
  induction k with
  | zero => exact ⟨rfl, rfl, rfl⟩
  | succ k ih =>
    have hne : o ≠ k := by omega
    rw [createLoop_succ]
    unfold initObject
    simp only [Function.update_of_ne hne]
    exact ih (by omega)

end

theorem fresh_poolCreate (fullBuf : Nat) (objSize : UInt32) :
    (poolCreate fullBuf objSize maxNumThreads).Fresh objSize maxNumThreads := by
  have hloop := createLoop_object fullBuf objSize maxNumThreads maxNumThreads.toNat
  have hrest := createLoop_rest fullBuf objSize maxNumThreads maxNumThreads.toNat
  have hnum : maxNumThreads.toNat = 32 := rfl
  have hmod : ∀ x : UInt32, (x % maxNumThreads).toNat = x.toNat % 32 :=
    fun x => UInt32.toNat_mod x maxNumThreads
  refine ⟨fun o => ?_, fun o => ?_, fun o => ?_, ⟨rfl, rfl⟩, ⟨rfl, rfl⟩, ?_⟩
  · show (createLoop fullBuf objSize maxNumThreads maxNumThreads.toNat).status o = _
    by_cases ho : o < maxNumThreads.toNat
    · rw [if_pos ho, (hloop o ho).2.2.2]
    · rw [if_neg ho, (hrest o (Nat.le_of_not_lt ho)).2.2]
  · show Function.update (createLoop fullBuf objSize maxNumThreads maxNumThreads.toNat).next 31
      none o = _
    by_cases hlast : o = 31
    · rw [hlast, Function.update_self]
      rfl
    · rw [Function.update_of_ne hlast]
      by_cases ho : o + 1 < maxNumThreads.toNat
      · have hlt : o + 1 < 2 ^ 32 := by omega
        rw [if_pos ho, (hloop o (by omega)).2.1, hmod, UInt32.toNat_ofNat', Nat.mod_eq_of_lt hlt,
          Nat.mod_eq_of_lt (by omega)]
      · rw [if_neg ho, (hrest o (by omega)).1]
  · show Function.update (createLoop fullBuf objSize maxNumThreads maxNumThreads.toNat).prev 0
      none o = _
    by_cases hfirst : o = 0
    · rw [hfirst, Function.update_self]
      rfl
    · rw [Function.update_of_ne hfirst]
      by_cases ho : o < maxNumThreads.toNat
      · have hone : (1 : UInt32) ≤ UInt32.ofNat o := by
          rw [UInt32.le_iff_toNat_le, UInt32.toNat_ofNat', Nat.mod_eq_of_lt (by omega)]
          exact Nat.one_le_iff_ne_zero.mpr hfirst
        have hpred : (UInt32.ofNat o - 1).toNat = o - 1 := by
          rw [UInt32.toNat_sub_of_le _ _ hone, UInt32.toNat_ofNat', Nat.mod_eq_of_lt (by omega)]
          rfl
        rw [if_pos ⟨Nat.pos_of_ne_zero hfirst, ho⟩, (hloop o ho).2.2.1, hmod, hpred,
          Nat.mod_eq_of_lt (by omega)]
      · rw [if_neg (fun h => ho h.2), (hrest o (Nat.le_of_not_lt ho)).2.1]
  · exact (createLoop_sizes fullBuf objSize maxNumThreads _).2

theorem fresh_txmgrCreate (fullBuf : Nat) (txSize : UInt32) :
    (txmgrCreate fullBuf txSize).Fresh txSize :=
  ⟨fresh_poolCreate fullBuf txSize, ⟨fun _ => rfl, fun _ => rfl⟩, rfl, rfl, rfl⟩

theorem Pool.Fresh.unique {p p' : Pool} {objSize objNum : UInt32} (h : p.Fresh objSize objNum)
    (h' : p'.Fresh objSize objNum) : p' = { p with fullBuf := p'.fullBuf, buf := p'.buf } := by
  have hstatus : p'.status = p.status := funext fun o => (h'.status o).trans (h.status o).symm
  have hnext : p'.next = p.next := funext fun o => (h'.next o).trans (h.next o).symm
  have hprev : p'.prev = p.prev := funext fun o => (h'.prev o).trans (h.prev o).symm
  obtain ⟨fullBuf, buf, status, next, prev, head, alloc, num, allocNum, size, objs⟩ := p
  obtain ⟨fullBuf', buf', status', next', prev', head', alloc', num', allocNum', size', objs'⟩ := p'
  dsimp only at hstatus hnext hprev
  have hhead : head' = head := h'.heads.1.trans h.heads.1.symm
  have halloc : alloc' = alloc := h'.heads.2.trans h.heads.2.symm
  have hnum : num' = num := h'.nums.1.trans h.nums.1.symm
  have hallocNum : allocNum' = allocNum := h'.nums.2.trans h.nums.2.symm
  have hsize : size' = size := h'.sizes.1.trans h.sizes.1.symm
  have hobjs : objs' = objs := h'.sizes.2.trans h.sizes.2.symm
  rw [hstatus, hnext, hprev, hhead, halloc, hnum, hallocNum, hsize, hobjs]

/-- an unused manager is the one that `txc_txmgr_create` makes, wherever that puts the pool -/
theorem TxMgr.fresh_iff {g g' : TxMgr} {txSize : UInt32} (h' : g'.Fresh txSize) :
    g.Fresh txSize ↔ g.Elsewhere g' := by
  constructor
  · intro h
    have hpool := h.pool.unique h'.pool
    have hnext : g'.next = g.next := funext fun x => (h'.links.1 x).trans (h.links.1 x).symm
    have hprev : g'.prev = g.prev := funext fun x => (h'.links.2 x).trans (h.links.2 x).symm
    have hhead := h'.list.1.trans h.list.1.symm
    have htail := h'.list.2.1.trans h.list.2.1.symm
    have hnum := h'.list.2.2.trans h.list.2.2.symm
    unfold TxMgr.Elsewhere
    rw [← hpool]
    obtain ⟨pool, next, prev, head, tail, num⟩ := g
    obtain ⟨pool', next', prev', head', tail', num'⟩ := g'
    dsimp only at hnext hprev hhead htail hnum
    rw [hnext, hprev, hhead, htail, hnum]
  · intro h
    rw [TxMgr.Elsewhere] at h
    rw [h] at h'
    obtain ⟨⟨h1, h2, h3, h4, h5, h6⟩, hlinks, hlist⟩ := h'
    exact ⟨⟨h1, h2, h3, h4, h5, h6⟩, hlinks, hlist⟩

/-! ### the settings -/

theorem enableDebugAll_debugAll (c : Settings) : (enableDebugAll c).debugAll = c.debugAll := by
  unfold enableDebugAll
  split
  · rfl
  · rfl

theorem enableDebugAll_of_not_mem {c : Settings} {o : RuntimeOption}
    (h : c.debugAll = true → o ∉ debugModules) : enableDebugAll c o = c o := by
  unfold enableDebugAll
  split
  · rename_i hall
    have hm := h hall
    cases o with
    | debugKoa | debugPool | debugSentinel | debugTx | debugXcall => exact absurd (by decide) hm
    | _ => rfl
  · rfl

theorem enableDebugAll_enabled {c : Settings} (h : c.debugAll = true) :
    enableDebugAll c .debugKoa = true ∧ enableDebugAll c .debugPool = true ∧
      enableDebugAll c .debugSentinel = true ∧ enableDebugAll c .debugTx = true ∧
      enableDebugAll c .debugXcall = true := by
  unfold enableDebugAll
  rw [if_pos h]
  exact ⟨rfl, rfl, rfl, rfl, rfl⟩

theorem lastValid_eq_iff {ty : OptionValuetype} {d : StoreType ty} {values : List (List Char)} :
    lastValid w ty d values = d ↔
      ∀ value, (values.filter fun v => ValidText w ty v).getLast? = some value →
        d = meaning w ty value := by
  unfold lastValid
  cases (values.filter fun v => ValidText w ty v).getLast? with
  | none => exact iff_of_true rfl fun _ h => nomatch h
  | some v =>
    constructor
    · intro h value hv
      rw [← Option.some.inj hv]
      exact h.symm
    · exact fun h => (h v rfl).symm

/-- the pairs of the file do not depend on the settings -/
theorem configLoop_pairs {fuel : Nat} {fin : List Char}
    {applied a : List (List Char × List Char)} {s r : Settings}
    (h : configLoop w fuel fin applied s = .done a r) (s' : Settings) :
    ∃ r', configLoop w fuel fin applied s' = .done a r' := by
  induction fuel generalizing fin applied s s' with
  | zero => cases h
  | succ fuel ih =>
    unfold configLoop at h ⊢
    split at h
    · cases h
    · cases h
      exact ⟨_, rfl⟩
    · cases h
    · exact ih h s'
    · exact ih h _

/-- what `txc_config_init` makes of each option -/
theorem configInit_apply {env : InitEnv} {s r : Settings} {a : List (List Char × List Char)}
    (h : configInitUseFile w env.file s = .done a r) (s' : Settings) :
    ∃ c, configInit w env s' = some c ∧ ∀ o, c o = lastValid w o.type (s' o)
      (valuesOf o.name a ++ (env.getenv o.envName).toList) := by
  obtain ⟨r', hr'⟩ : ∃ r', configInitUseFile w env.file s' = .done a r' := by
    cases hf : env.file with
    | none =>
      rw [hf] at h
      cases h
      exact ⟨_, rfl⟩
    | some fin =>
      rw [hf] at h
      exact configLoop_pairs w h s'
  refine ⟨configInitUseEnv w env.getenv r', by rw [configInit, hr'], fun o => ?_⟩
  have hvalues : valuesFor o (fileEvents a ++ envEvents env.getenv) =
      valuesOf o.name a ++ (env.getenv o.envName).toList := by
    rw [← valuesFor_fileEvents, ← valuesFor_envEvents]
    unfold valuesFor
    rw [List.filter_append, List.map_append]
  rw [configInitUseEnv_eq, configInitUseFile_done hr', ← List.foldl_append, configRun_apply,
    hvalues]

/-- the settings are settled exactly if reading the configuration again leaves them -/
theorem settled_iff {pairs : List (List Char × List Char)}
    {getenv : List Char → Option (List Char)} {s c : Settings}
    (hc : ∀ o, c o = lastValid w o.type (s o)
      (valuesOf o.name pairs ++ (getenv o.envName).toList)) :
    enableDebugAll c = s ↔ SettledSettings w pairs getenv s := by
  constructor
  · intro h
    have hall : s.debugAll = c.debugAll := by rw [← h, enableDebugAll_debugAll]
    refine ⟨fun o ho => ?_, fun hs => ?_⟩
    · have hso : s o = c o := by
        rw [← h]
        exact enableDebugAll_of_not_mem fun hcall => ho (hall.trans hcall)
      exact (lastValid_eq_iff w).mp ((hc o).symm.trans hso.symm)
    · rw [hall] at hs
      rw [← h]
      exact enableDebugAll_enabled hs
  · intro h
    have hkept : ∀ o, (s.debugAll = true → o ∉ debugModules) → c o = s o := fun o ho =>
      (hc o).trans ((lastValid_eq_iff w).mpr (h.configured o ho))
    have hall : c.debugAll = s.debugAll := hkept .debugAll fun _ => by decide
    funext o
    by_cases ho : s.debugAll = true → o ∉ debugModules
    · rw [enableDebugAll_of_not_mem fun hcall => ho (hall.symm.trans hcall)]
      exact hkept o ho
    · obtain ⟨hs, hm⟩ := Classical.not_imp.mp ho
      obtain ⟨e1, e2, e3, e4, e5⟩ := enableDebugAll_enabled (hall.trans hs)
      obtain ⟨d1, d2, d3, d4, d5⟩ := h.enabled hs
      cases o with
      | debugKoa => exact e1.trans d1.symm
      | debugPool => exact e2.trans d2.symm
      | debugSentinel => exact e3.trans d3.symm
      | debugTx => exact e4.trans d4.symm
      | debugXcall => exact e5.trans d5.symm
      | _ => exact absurd (by decide) hm

/-! ### the second calls -/

theorem link_num {g g' : TxMgr} {txd : Nat} (h : g.link txd = some g') :
    g'.allocTxdNum = g.allocTxdNum + 1 := by
  unfold TxMgr.link at h
  split at h
  · cases h
    rfl
  · cases h
  · cases h
  · cases h
    rfl

theorem txCreate_num {g : TxMgr} {r : TxMgr × Nat} (h : g.txCreate = some r) :
    r.1.allocTxdNum = g.allocTxdNum + 1 := by
  unfold TxMgr.txCreate at h
  split at h
  · obtain ⟨g', hg, rfl⟩ := Option.map_eq_some_iff.mp h
    have hnum := link_num hg
    exact hnum
  · cases h

theorem txcThreadInit_num {t : T} {L L' : Library T n N} (h : txcThreadInit t L = some L') :
    L'.txmgr.allocTxdNum = L.txmgr.allocTxdNum + 1 := by
  obtain ⟨r, hr, rfl⟩ := Option.map_eq_some_iff.mp h
  dsimp only
  split
  · exact txCreate_num hr
  · exact txCreate_num hr

theorem txcThreadInit_not_same {t : T} {L L' : Library T n N} (h : txcThreadInit t L = some L') :
    ¬ SameThread t L L' := by
  intro hs
  have hnum := hs.num
  rw [txcThreadInit_num h] at hnum
  simp at hnum

/-- `_TXC_global_init` keeps only the settings, to which the configuration is applied once more, and
the descriptors that the threads point to -/
theorem txcGlobalInit_eq {env : InitEnv} {L L' : Library T n N}
    (h : txcGlobalInit w txSize env L = some L') :
    ∃ c, configInit w env L.settings = some c ∧ L'.settings = enableDebugAll c ∧
      L'.koamgr.Standard 3 ∧ L'.txmgr.Fresh txSize ∧
      L'.threadstats = [] ∧ L'.allocThreadstatNum = 0 ∧ L'.txd = L.txd := by
  unfold txcGlobalInit at h
  split at h
  · rename_i c koamgr hc hk
    cases h
    exact ⟨c, hc, rfl, (koamgrCreate_iff koamgr).mp hk, fresh_txmgrCreate _ _, rfl, rfl, rfl⟩
  · cases h

/-- the first `_TXC_global_init` leaves the library so -/
theorem asFirstInit_txcGlobalInit {env : InitEnv} {s r : Settings}
    {a : List (List Char × List Char)} (hread : configInitUseFile w env.file s = .done a r)
    {L L' : Library T n N} (ht : ∀ t, L.txd t = none)
    (h : txcGlobalInit w txSize env L = some L') :
    AsFirstInit w txSize a env.getenv L' := by
  obtain ⟨c, hc, hset, hkoa, htx, hst, hnum, htxd⟩ := txcGlobalInit_eq w txSize h
  obtain ⟨c', hc', hvalue⟩ := configInit_apply w hread L.settings
  rw [hc] at hc'
  cases hc'
  refine ⟨⟨fun o ho value hlast => ?_, fun hall => ?_⟩, hkoa, htx, ⟨hst, hnum⟩, fun t => ?_⟩
  · rw [hset, enableDebugAll_debugAll] at ho
    rw [hset, enableDebugAll_of_not_mem ho, hvalue o]
    unfold lastValid
    rw [hlast]
  · rw [hset, enableDebugAll_debugAll] at hall
    rw [hset]
    exact enableDebugAll_enabled hall
  · rw [htxd]
    exact ht t

/-- **When initialisation is idempotent.**  With a configuration file that was read to its end the
first time, and in any state of the library: second calls change nothing exactly if nothing has
happened since the first `_TXC_global_init`, so that no thread is there to make a second
`_TXC_thread_init`, and the settings are still as the file and the environment want them. -/
theorem init_idempotent_iff {env : InitEnv} {s r : Settings} {a : List (List Char × List Char)}
    (hread : configInitUseFile w env.file s = .done a r) (L : Library T n N) :
    Idempotent w txSize env L ↔ AsFirstInit w txSize a env.getenv L := by
  obtain ⟨c, hc, hvalue⟩ := configInit_apply w hread L.settings
  constructor
  · intro ⟨⟨L', hL', hsame⟩, hthread⟩
    obtain ⟨c', hc', hset, hkoa, htx, hst, hnum, -⟩ := txcGlobalInit_eq w txSize hL'
    rw [hc] at hc'
    cases hc'
    refine ⟨?_, ?_, ?_, ?_, ?_⟩
    · exact (settled_iff w hvalue).mp (hset.symm.trans hsame.settings)
    · rw [← hsame.koamgr]
      exact hkoa
    · exact (TxMgr.fresh_iff htx).mpr hsame.txmgr
    · exact ⟨hsame.stats.1.symm.trans hst, hsame.stats.2.symm.trans hnum⟩
    · intro t
      by_contra ht
      obtain ⟨L'', hL'', hs⟩ := hthread t ht
      exact txcThreadInit_not_same hL'' hs
  · intro h
    refine ⟨?_, fun t ht => absurd (h.threads t) ht⟩
    have hL' : txcGlobalInit w txSize env L = some
        { L with
          settings := enableDebugAll c
          txmgr := txmgrCreate env.fullBuf txSize
          threadstats := []
          allocThreadstatNum := 0 } := by
      unfold txcGlobalInit
      rw [hc, (koamgrCreate_iff L.koamgr).mpr h.koamgr]
    refine ⟨_, hL', ⟨(settled_iff w hvalue).mpr h.settings, rfl, ?_, ?_, rfl⟩⟩
    · exact (TxMgr.fresh_iff (fresh_txmgrCreate _ _)).mp h.txmgr
    · rw [h.stats.1, h.stats.2]
      exact ⟨rfl, rfl⟩

end

/-! ## two libraries -/

/-- no configuration file and no variables -/
def bareEnv : InitEnv := ⟨none, fun _ => none, 4096⟩

/-- the globals of a process that has not called `_TXC_global_init` -/
def unloaded : Library Unit 4 4 :=
  { settings := defvalues
    koamgr := koamgrEmpty Unit 4 4
    txmgr := txmgrCreate 0 256
    threadstats := []
    allocThreadstatNum := 0
    txd := fun _ => none }

/-- a configuration file with one line -/
def debugEnv : InitEnv := { bareEnv with file := some "debug_all = enable\n".toList }

theorem init_idempotent_first :
    ∃ L, txcGlobalInit 64 256 debugEnv unloaded = some L ∧ Idempotent 64 256 debugEnv L := by
  have hs : (txcGlobalInit 64 256 debugEnv unloaded).isSome = true := by decide +kernel
  obtain ⟨L, hL⟩ := Option.isSome_iff_exists.mp hs
  obtain ⟨r, hfile⟩ : ∃ r, configInitUseFile 64 debugEnv.file defvalues =
      .done [("debug_all".toList, "enable".toList)] r := ⟨_, rfl⟩
  refine ⟨L, hL, (init_idempotent_iff 64 256 hfile L).mpr ?_⟩
  exact asFirstInit_txcGlobalInit 64 256 hfile (fun _ => rfl) hL

/-- one thread, initialised twice: there are two descriptors, and it has the second -/
theorem thread_init_twice :
    ∃ L L₁ L₂, txcGlobalInit 64 256 bareEnv unloaded = some L ∧ txcThreadInit () L = some L₁ ∧
      txcThreadInit () L₁ = some L₂ ∧ L₁.txmgr.allocTxdNum = 1 ∧ L₂.txmgr.allocTxdNum = 2 ∧
      L₂.txd () ≠ L₁.txd () ∧ ¬ Idempotent 64 256 bareEnv L₁ := by
  have hrun : ∃ L L₁ L₂, txcGlobalInit 64 256 bareEnv unloaded = some L ∧
      txcThreadInit () L = some L₁ ∧ txcThreadInit () L₁ = some L₂ ∧
      L₁.txmgr.allocTxdNum = 1 ∧ L₂.txmgr.allocTxdNum = 2 ∧
      L₁.txd () = some 4096 ∧ L₂.txd () = some 4352 := by
    refine ⟨_, _, _, rfl, rfl, rfl, ?_⟩
    decide +kernel
  obtain ⟨L, L₁, L₂, h, h1, h2, hn1, hn2, ht1, ht2⟩ := hrun
  refine ⟨L, L₁, L₂, h, h1, h2, hn1, hn2, ?_, ?_⟩
  · rw [ht1, ht2]
    decide
  · intro hi
    have ht : L₁.txd () ≠ none := by
      rw [ht1]
      exact fun h => nomatch h
    obtain ⟨L', hL', hs⟩ := hi.2 () ht
    exact txcThreadInit_not_same hL' hs

end XCalls
