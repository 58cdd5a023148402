import XCalls.Core.KoaMem
import XCalls.Core.KoaRep
import XCalls.Core.SentinelRefs

/-!
# The KOA manager in memory refines the KOA manager

* `KoaCall`, `KoaReply`   the calls that other modules make, and what they return;
* `koaUseStep`       the manager, with the references of the transactions to the sentinels;
* `memUseStep`       the manager in memory;
* `SentinelMem.Refines`, `BufferRep`, `KoaMem.Refines`   the relation between the two;
* `Backed`           every KOA outside the pool has a sentinel outside the pool;
* `koa_mem_refines`  every run of the one is a run of the other, with the same replies.
-/

set_option linter.unusedSectionVars false

namespace XCalls
open EventSys
variable {T : Type} [DecidableEq T] {n N B : Nat}

/-! ## sentinels -/

structure SentinelMem.Refines (h : SentinelMem T) (a : Nat → Nat) (m : SentinelMgr T n) :
    Prop where
  pool : PoolOf h.pool m.free
  addr : h.pool.addr = a
  stores : Stores h.sentinel a m.sentinel

namespace SentinelMem.Refines
variable {h : SentinelMem T} {a : Nat → Nat} {m m' : SentinelMgr T n}

theorem set (hr : h.Refines a m) (s : Fin n) (v : Sentinel T) :
    SentinelMem.Refines { h with sentinel := Function.update h.sentinel (a s) v } a
      (m.set s v) where
  pool := hr.pool
  addr := hr.addr
  stores := by
    have hs := hr.stores
    rw [← hr.addr] at hs ⊢
    exact hs.update hr.pool s v

theorem create (hr : h.Refines a m) {s : Fin n} (hc : sentinelCreate m = some (s, m')) :
    ∃ h', memSentinelCreate h = some (a s, h') ∧ h'.Refines a m' := by
  unfold sentinelCreate at hc
  cases hf : m.free with
  | nil =>
    rw [hf] at hc
    cases hc
  | cons s' rest =>
    rw [hf] at hc
    cases hc
    have hpool := hr.pool
    rw [hf] at hpool
    obtain ⟨p', halloc, hpool', haddr⟩ := hpool.alloc
    rw [hr.addr] at halloc haddr
    have hset := hr.set s { m.sentinel s with owner := none, refcnt := 1 }
    refine ⟨⟨Function.update h.sentinel (a s) { m.sentinel s with owner := none, refcnt := 1 },
      p'⟩, ?_, hpool', haddr, hset.stores⟩
    unfold memSentinelCreate
    rw [halloc]
    dsimp only
    rw [hr.stores s]

theorem attach (hr : h.Refines a m) (s : Fin n) :
    (memSentinelAttach h (a s)).Refines a (sentinelAttach m s) := by
  unfold memSentinelAttach sentinelAttach
  rw [hr.stores s]
  exact hr.set s _

theorem detach (hr : h.Refines a m) {s : Fin n} (hs : s ∉ m.free) :
    ∃ h', memSentinelDetach h (a s) = some h' ∧ h'.Refines a (sentinelDetach m s) := by
  have hset := hr.set s { m.sentinel s with refcnt := (m.sentinel s).refcnt - 1 }
  unfold memSentinelDetach sentinelDetach
  dsimp only
  rw [hr.stores s]
  by_cases h0 : (m.sentinel s).refcnt - 1 = 0
  · obtain ⟨p', hfree, hpool', haddr⟩ := hr.pool.free_cons hs
    rw [hr.addr] at hfree haddr
    rw [if_pos h0, if_pos h0, hfree]
    exact ⟨_, rfl, hpool', haddr, hset.stores⟩
  · rw [if_neg h0, if_neg h0]
    exact ⟨_, rfl, hset⟩

end SentinelMem.Refines

theorem memAssignIds_stores {p : Pool} {free : List (Fin n)} (hp : PoolOf p free)
    (l : List (Fin n)) : ∀ (i : Nat) (mem : Nat → Sentinel T) (value : Fin n → Sentinel T),
    Stores mem p.addr value →
    Stores (memAssignIds i (l.map fun s : Fin n => p.addr s.val) mem) p.addr (assignIds i l value) := by
  induction l with
  | nil => exact fun i mem value h => h
  | cons s l ih =>
    intro i mem value h
    refine ih (i + 1) _ _ ?_
    rw [h s]
    exact h.update hp s _

theorem memSentinelmgrCreate_refines {p : Pool} {fullBuf : Nat} {objSize objNum : UInt32}
    (hsz : PoolSizes objSize objNum) (hn : objNum.toNat = n)
    (hp : p = poolCreate fullBuf objSize objNum) :
    ∃ h, memSentinelmgrCreate T p = some h ∧ h.Refines p.addr (sentinelmgrCreate T n) := by
  have hpool : PoolOf p (poolWalk n (poolFirst n)) := by
    rw [hp]
    exact PoolOf.create hsz hn
  obtain ⟨held, al, hrep⟩ := hpool.rep
  rw [poolWalk_first_val] at hrep
  have hpos : 0 < n := hn ▸ hsz.some_objects
  -- the walk of all objects is that of the free list
  have hhead : p.objFreeHead = some 0 := by rw [hp]; rfl
  have hvisit : poolVisit p poolObjectIsAny p.objNum.toNat = some (List.range n) := by
    have hforth := hrep.free.forth
    rw [hhead] at hforth
    refine hforth.visit_eq ?_
    rw [List.length_range, hpool.num]
  have hbuf : (List.range n).map p.buf = (poolWalk n (poolFirst n)).map fun s : Fin n => p.addr s.val := by
    rw [← poolWalk_first_val, List.map_map]
    refine List.map_congr_left fun s _ => ?_
    exact hrep.slices s.val (hpool.num ▸ s.isLt)
  have hstores : Stores (fun _ : Nat => (⟨none, none, 0, 0⟩ : Sentinel T)) p.addr
      fun _ : Fin n => ⟨none, none, 0, 0⟩ := fun s => rfl
  refine ⟨⟨_, p⟩, ?_, hpool, rfl, memAssignIds_stores hpool _ 0 _ _ hstores⟩
  unfold memSentinelmgrCreate
  rw [hvisit, Option.map_some, hbuf]

/-! ## circular buffers -/

/-- the KOAs that use a buffer have each one of their own, and the others are free -/
structure BufferRep (p : Pool) (free : List (Fin B)) (buf : Fin N → Fin B)
    (ptr : Fin N → Option Nat) (uses : Fin N → Prop) : Prop where
  pool : PoolOf p free
  taken : ∀ k, uses k → buf k ∉ free ∧ ptr k = some (p.addr (buf k))
  own : ∀ k k', uses k → uses k' → buf k = buf k' → k = k'
  used : ∀ b, b ∉ free → ∃ k, uses k ∧ buf k = b

namespace BufferRep
variable {p : Pool} {free : List (Fin B)} {buf : Fin N → Fin B} {ptr ptr' : Fin N → Option Nat}
  {uses uses' : Fin N → Prop}

theorem congr (h : BufferRep p free buf ptr uses) (hu : ∀ k, uses' k ↔ uses k)
    (hptr : ∀ k, uses k → ptr' k = ptr k) : BufferRep p free buf ptr' uses' where
  pool := h.pool
  taken k hk := by
    have hk := (hu k).mp hk
    rw [hptr k hk]
    exact h.taken k hk
  own k k' hk hk' := h.own k k' ((hu k).mp hk) ((hu k').mp hk')
  used b hb := by
    obtain ⟨k, hk, hkb⟩ := h.used b hb
    exact ⟨k, (hu k).mpr hk, hkb⟩

theorem free_ne_nil (h : BufferRep p free buf ptr uses) [DecidablePred uses]
    (hlt : (Finset.univ.filter uses).card < B) : free ≠ [] := by
  intro hnil
  have hle : (Finset.univ : Finset (Fin B)).card ≤ (Finset.univ.filter uses).card := by
    refine Finset.card_le_card_of_surjOn buf fun b _ => ?_
    obtain ⟨k, hk, hkb⟩ := h.used b (by rw [hnil]; exact List.not_mem_nil)
    exact ⟨k, Finset.mem_coe.mpr (Finset.mem_filter.mpr ⟨Finset.mem_univ k, hk⟩), hkb⟩
  rw [Finset.card_univ, Fintype.card_fin] at hle
  omega

/-- a further KOA takes the first free buffer -/
theorem take {b : Fin B} (h : BufferRep p (b :: free) buf ptr uses) {k : Fin N} (hk : ¬ uses k)
    (uses' : Fin N → Prop) (ptr' : Fin N → Option Nat) (hu : ∀ x, uses' x ↔ x = k ∨ uses x)
    (hptr : ∀ x, ptr' x = if x = k then some (p.addr b) else ptr x) :
    ∃ p', poolObjectAlloc p = some (p', some (p.addr b)) ∧ p'.addr = p.addr ∧
      BufferRep p' free (Function.update buf k b) ptr' uses' := by
  obtain ⟨p', halloc, hpool', haddr⟩ := h.pool.alloc
  obtain ⟨hb, -⟩ := List.nodup_cons.mp h.pool.nodup
  have hne : ∀ x, uses x → x ≠ k := fun x hx he => hk (he ▸ hx)
  have hold : ∀ x, uses x → buf x ≠ b := fun x hx he =>
    (h.taken x hx).1 (he ▸ List.mem_cons_self)
  refine ⟨p', halloc, haddr, hpool', ?_, ?_, ?_⟩
  · intro x hx
    rw [hptr x, haddr]
    rcases (hu x).mp hx with rfl | hx
    · rw [Function.update_self, if_pos rfl]
      exact ⟨hb, rfl⟩
    · rw [Function.update_of_ne (hne x hx), if_neg (hne x hx)]
      obtain ⟨h1, h2⟩ := h.taken x hx
      exact ⟨fun hm => h1 (List.mem_cons_of_mem _ hm), h2⟩
  · intro x y hx hy
    rcases (hu x).mp hx with rfl | hx
    · rcases (hu y).mp hy with rfl | hy
      · exact fun _ => rfl
      · rw [Function.update_self, Function.update_of_ne (hne y hy)]
        exact fun he => (hold y hy he.symm).elim
    · rw [Function.update_of_ne (hne x hx)]
      rcases (hu y).mp hy with rfl | hy
      · rw [Function.update_self]
        exact fun he => (hold x hx he).elim
      · rw [Function.update_of_ne (hne y hy)]
        exact h.own x y hx hy
  · intro x hx
    by_cases hxb : x = b
    · exact ⟨k, (hu k).mpr (.inl rfl), by rw [Function.update_self, hxb]⟩
    · have hmem : x ∉ b :: free := fun hm => (List.mem_cons.mp hm).elim hxb hx
      obtain ⟨y, hy, hyx⟩ := h.used x hmem
      exact ⟨y, (hu y).mpr (.inr hy), by rw [Function.update_of_ne (hne y hy), hyx]⟩

theorem give (h : BufferRep p free buf ptr uses) {k : Fin N} (hk : uses k)
    (uses' : Fin N → Prop) (ptr' : Fin N → Option Nat) (hu : ∀ x, uses' x ↔ x ≠ k ∧ uses x) (hptr : ∀ x, x ≠ k → ptr' x = ptr x) :
    ∃ p', poolObjectFree p (p.addr (buf k)) = some p' ∧ p'.addr = p.addr ∧
      BufferRep p' (buf k :: free) buf ptr' uses' := by
  obtain ⟨p', hfree, hpool', haddr⟩ := h.pool.free_cons (h.taken k hk).1
  refine ⟨p', hfree, haddr, hpool', ?_, ?_, ?_⟩
  · intro x hx
    obtain ⟨hne, hx⟩ := (hu x).mp hx
    obtain ⟨h1, h2⟩ := h.taken x hx
    rw [hptr x hne, haddr]
    refine ⟨fun hm => ?_, h2⟩
    rcases List.mem_cons.mp hm with he | hm
    · exact hne (h.own x k hx hk he)
    · exact h1 hm
  · intro x y hx hy
    exact h.own x y ((hu x).mp hx).2 ((hu y).mp hy).2
  · intro b hb
    rw [List.mem_cons, not_or] at hb
    obtain ⟨x, hx, hxb⟩ := h.used b hb.2
    refine ⟨x, (hu x).mpr ⟨fun he => hb.1 ?_, hx⟩, hxb⟩
    rw [← hxb, he]

end BufferRep

/-! ## kernel objects -/

/-- a KOA in memory, with the addresses `a` of the sentinels and its buffer -/
def Koa.stored (a : Nat → Nat) (ptr : Option Nat) (v : Koa n) : KoaObj :=
  ⟨v.sentinel.map fun s => a s.val, v.fd, v.fdRefcnt, v.refcnt, v.type, v.stIno, ptr⟩

/-- where the objects of the two pools are -/
structure KoaAddrs where
  koa : Nat → Nat
  sentinel : Nat → Nat

def KoaMgr.Uses (m : KoaMgr T n N) (k : Fin N) : Prop := k ∉ m.free ∧ (m.koa k).type.buffered

instance (m : KoaMgr T n N) : DecidablePred m.Uses := fun k =>
  inferInstanceAs (Decidable (k ∉ m.free ∧ (m.koa k).type.buffered = true))

def KoaMgr.cacheAt (m : KoaMgr T n N) (a : Nat → Nat) : FinMap Nat :=
  fun i => (m.aliasCache i).map fun k => a k.val

/-- `buckets` are those that the table has got from `MALLOC` -/
structure KoaMem.Refines (A : KoaAddrs) (buckets : List Nat) (h : KoaMem T) (m : KoaMgr T n N)
    (ptr : Fin N → Option Nat) : Prop where
  koas : PoolOf h.poolKoaObj m.free
  koaAddr : h.poolKoaObj.addr = A.koa
  stores : Stores h.koa A.koa fun k => (m.koa k).stored A.sentinel (ptr k)
  map : ∀ fd, h.map fd = (m.map fd).map fun k => A.koa k.val
  cache : ∃ L F, HashRep ⟨h.hashTbl, buckets, m.cacheAt A.koa⟩ L F
  sentinels : h.sentinels.Refines A.sentinel m.sentinelmgr

theorem spec_add (f : FinMap Nat) (k : UInt32) (v : Nat) (fresh : Fresh Nat) :
    ((HashOp.add k v fresh).spec f).2.2 = if (f k).isSome then f else Function.update f k (some v) := by
  show (if (f k).isSome then (.exists, none, f) else (.success, none, Function.update f k (some v)) :
    HashResult × Option Nat × FinMap Nat).2.2 = _
  split
  · rfl
  · rfl

theorem spec_remove (f : FinMap Nat) (k : UInt32) :
    ((HashOp.remove k).spec f).2.2 = Function.update f k none := by
  show (if (f k).isSome then (.success, f k, Function.update f k none) else (.notexists, none, f) :
    HashResult × Option Nat × FinMap Nat).2.2 = _
  split
  · rfl
  · rename_i hk
    have hnone : f k = none := Option.not_isSome_iff_eq_none.mp hk
    rw [← hnone, Function.update_eq_self]

theorem spec_lookup (f : FinMap Nat) (k : UInt32) : ((HashOp.lookup k).spec f).2.1 = f k := by
  show (if (f k).isSome then (.success, f k, f) else (.notexists, none, f) :
    HashResult × Option Nat × FinMap Nat).2.1 = _
  split
  · rfl
  · rename_i hk
    exact (Option.not_isSome_iff_eq_none.mp hk).symm

theorem map_update (a : Nat → Nat) (f : UInt32 → Option (Fin N)) (k : UInt32) (x : Option (Fin N)) :
    (fun i => (Function.update f k x i).map fun k => a k.val) =
      Function.update (fun i => (f i).map fun k => a k.val) k (x.map fun k => a k.val) := by
  funext i
  by_cases hi : i = k
  · rw [hi, Function.update_self, Function.update_self]
  · rw [Function.update_of_ne hi, Function.update_of_ne hi]

namespace KoaMem.Refines
variable {A : KoaAddrs} {buckets : List Nat} {h : KoaMem T} {m : KoaMgr T n N}
  {ptr : Fin N → Option Nat} {env : HashEnv}

theorem set (hr : h.Refines A buckets m ptr) (k : Fin N) (v : Koa n) (x : Option Nat) :
    (h.set (A.koa k) (v.stored A.sentinel x)).Refines A buckets (m.set k v)
      (Function.update ptr k x) where
  koas := hr.koas
  koaAddr := hr.koaAddr
  stores := by
    have hs := hr.stores
    rw [← hr.koaAddr] at hs ⊢
    have hupd := hs.update hr.koas k (v.stored A.sentinel x)
    have hval : Function.update (fun k => (m.koa k).stored A.sentinel (ptr k)) k
        (v.stored A.sentinel x) =
        fun y => ((m.set k v).koa y).stored A.sentinel (Function.update ptr k x y) := by
      funext y
      rw [m.set_koa]
      by_cases hy : y = k
      · rw [hy, Function.update_self, Function.update_self, if_pos rfl]
      · rw [Function.update_of_ne hy, Function.update_of_ne hy, if_neg hy]
    rw [hval] at hupd
    exact hupd
  map := hr.map
  cache := hr.cache
  sentinels := hr.sentinels

theorem setSame (hr : h.Refines A buckets m ptr) (k : Fin N) (v : Koa n) :
    (h.set (A.koa k) (v.stored A.sentinel (ptr k))).Refines A buckets (m.set k v) ptr := by
  have hset := hr.set k v (ptr k)
  rwa [Function.update_eq_self] at hset

theorem setMap (hr : h.Refines A buckets m ptr) (fd : Nat) (x : Option (Fin N)) :
    KoaMem.Refines A buckets
      { h with map := Function.update h.map fd (x.map fun k => A.koa k.val) }
      { m with map := Function.update m.map fd x } ptr where
  koas := hr.koas
  koaAddr := hr.koaAddr
  stores := hr.stores
  map y := by
    show Function.update h.map fd _ y = (Function.update m.map fd x y).map _
    by_cases hy : y = fd
    · rw [hy, Function.update_self, Function.update_self]
    · rw [Function.update_of_ne hy, Function.update_of_ne hy]
      exact hr.map y
  cache := hr.cache
  sentinels := hr.sentinels

theorem more (hr : h.Refines A buckets m ptr) (b : Nat) : h.Refines A (b :: buckets) m ptr := by
  obtain ⟨L, F, hcache⟩ := hr.cache
  exact ⟨hr.koas, hr.koaAddr, hr.stores, hr.map, ⟨L, F, hcache.more [b]⟩, hr.sentinels⟩

theorem cacheInsert (hr : h.Refines A buckets m ptr) (hfresh : env.fresh.addr ∉ buckets)
    (hfuel : buckets.length ≤ env.fuel) (k : Fin N) :
    ∃ h', memAliasCacheInsert env h (A.koa k) = some h' ∧
      h'.Refines A (env.fresh.addr :: buckets) (aliasCacheInsert m k) ptr ∧
      h'.poolBufferCircular = h.poolBufferCircular := by
  obtain ⟨L, F, hcache⟩ := hr.cache
  obtain ⟨out, hout, -, -, ⟨L', F', hrep⟩, -⟩ :=
    hcache.add (m.koa k).stIno (A.koa k) env.fresh hfresh hfuel
  refine ⟨{ h with hashTbl := out.table }, ?_, ?_, rfl⟩
  · unfold memAliasCacheInsert
    rw [hr.stores k]
    show (hashTableAdd env.fuel h.hashTbl (m.koa k).stIno (A.koa k) env.fresh).map _ = _
    rw [hout, Option.map_some]
  · have hmap : ((HashOp.add (m.koa k).stIno (A.koa k) env.fresh).spec (m.cacheAt A.koa)).2.2 =
        (aliasCacheInsert m k).cacheAt A.koa := by
      rw [spec_add]
      unfold KoaMgr.cacheAt aliasCacheInsert
      cases m.aliasCache (m.koa k).stIno with
      | some k' => rfl
      | none => exact (map_update A.koa m.aliasCache _ (some k)).symm
    have hrest : (aliasCacheInsert m k).koa = m.koa ∧ (aliasCacheInsert m k).free = m.free ∧
        (aliasCacheInsert m k).map = m.map ∧
        (aliasCacheInsert m k).sentinelmgr = m.sentinelmgr := by
      unfold aliasCacheInsert
      cases m.aliasCache (m.koa k).stIno with
      | some k' => exact ⟨rfl, rfl, rfl, rfl⟩
      | none => exact ⟨rfl, rfl, rfl, rfl⟩
    obtain ⟨h1, h2, h3, h4⟩ := hrest
    rw [hmap] at hrep
    refine ⟨?_, hr.koaAddr, ?_, ?_, ⟨L', F', hrep⟩, ?_⟩
    · rw [h2]
      exact hr.koas
    · rw [h1]
      exact hr.stores
    · rw [h3]
      exact hr.map
    · rw [h4]
      exact hr.sentinels

theorem cacheRemove (hr : h.Refines A buckets m ptr) (hfuel : buckets.length ≤ env.fuel)
    (k : Fin N) :
    ∃ h', memAliasCacheRemove env h (A.koa k) = some h' ∧
      h'.Refines A buckets (aliasCacheRemove m k) ptr ∧
      h'.poolBufferCircular = h.poolBufferCircular := by
  obtain ⟨L, F, hcache⟩ := hr.cache
  obtain ⟨out, hout, -, -, ⟨L', F', hrep⟩, -⟩ := hcache.remove (m.koa k).stIno hfuel
  refine ⟨{ h with hashTbl := out.table }, ?_, ?_, rfl⟩
  · unfold memAliasCacheRemove
    rw [hr.stores k]
    show (hashTableRemove env.fuel h.hashTbl (m.koa k).stIno).map _ = _
    rw [hout, Option.map_some]
  · have hmap : ((HashOp.remove (m.koa k).stIno).spec (m.cacheAt A.koa)).2.2 =
        (aliasCacheRemove m k).cacheAt A.koa := by
      rw [spec_remove]
      exact (map_update A.koa m.aliasCache _ none).symm
    rw [hmap] at hrep
    exact ⟨hr.koas, hr.koaAddr, hr.stores, hr.map, ⟨L', F', hrep⟩, hr.sentinels⟩

theorem cacheLookup (hr : h.Refines A buckets m ptr) (hfuel : buckets.length ≤ env.fuel)
    (inodeNumber : UInt32) :
    memKoaAliasCacheLookupInode env h inodeNumber =
      some ((koaAliasCacheLookupInode m inodeNumber).map fun k => A.koa k.val) := by
  obtain ⟨L, F, hcache⟩ := hr.cache
  obtain ⟨out, hout, -, hval, -⟩ := hcache.lookup inodeNumber hfuel
  unfold memKoaAliasCacheLookupInode
  rw [hout, Option.map_some, hval]
  exact congrArg some (spec_lookup (m.cacheAt A.koa) inodeNumber)

theorem attach (hr : h.Refines A buckets m ptr) (hfuel : buckets.length ≤ env.fuel) (k : Fin N)
    (hfresh : (m.koa k).type = .file → env.fresh.addr ∉ buckets) :
    ∃ h' buckets', memKoaAttach env h (A.koa k) = some h' ∧
      h'.Refines A buckets' (countAttach m k) ptr ∧
      h'.poolBufferCircular = h.poolBufferCircular ∧
      (buckets' = buckets ∨ (m.koa k).type = .file ∧ buckets' = env.fresh.addr :: buckets) := by
  have hset := hr.setSame k { m.koa k with refcnt := (m.koa k).refcnt + 1 }
  have hk := hset.stores k
  unfold memKoaAttach countAttach
  rw [hr.stores k]
  dsimp only [Koa.stored] at hk hset ⊢
  rw [hk, m.set_koa, if_pos rfl]
  dsimp only
  by_cases hfirst : (m.koa k).refcnt + 1 = 1 ∧ (m.koa k).type = .file
  · rw [if_pos hfirst, if_pos hfirst]
    obtain ⟨h', hins, hr', hbuf⟩ := hset.cacheInsert (hfresh hfirst.2) hfuel k
    exact ⟨h', _, hins, hr', hbuf, .inr ⟨hfirst.2, rfl⟩⟩
  · rw [if_neg hfirst, if_neg hfirst]
    exact ⟨_, _, rfl, hset, rfl, .inl rfl⟩

/-- a KOA without references goes back to its pool -/
theorem destroy {free : List (Fin B)} {buf : Fin N → Fin B} (hr : h.Refines A buckets m ptr)
    (hb : BufferRep h.poolBufferCircular free buf ptr m.Uses) {k : Fin N} (hk : k ∉ m.free)
    {s : Fin n} (hs : (m.koa k).sentinel = some s) (hlive : s ∉ m.sentinelmgr.free) :
    ∃ h' ptr' free', memKoaDestroy h (A.koa k) = some h' ∧
      h'.Refines A buckets (koaDestroy m k) ptr' ∧
      BufferRep (B := B) h'.poolBufferCircular free' buf ptr' (koaDestroy m k).Uses := by
  obtain ⟨sentinels, hdetach, hsent⟩ := hr.sentinels.detach hlive
  obtain ⟨p', hfree, hpool, haddr⟩ := hr.koas.free_cons hk
  rw [hr.koaAddr] at hfree haddr
  have hstored := hr.stores k
  have huses : ∀ x, (koaDestroy m k).Uses x ↔ x ≠ k ∧ m.Uses x := by
    intro x
    show (x ∉ k :: m.free ∧ _) ↔ x ≠ k ∧ x ∉ m.free ∧ _
    rw [List.mem_cons, not_or, and_assoc]
    rfl
  have hmgr : (koaDestroy m k).sentinelmgr = sentinelDetach m.sentinelmgr s := by
    unfold koaDestroy
    rw [hs]
  have hbegin : ∀ h₀, (memKoaRelease { h with sentinels := sentinels } (A.koa k)).bind
      (fun h => (poolObjectFree h.poolKoaObj (A.koa k)).map
        fun pool => { h with poolKoaObj := pool }) = h₀ →
      memKoaDestroy h (A.koa k) = h₀ := by
    intro h₀ heq
    unfold memKoaDestroy
    rw [hstored]
    dsimp only [Koa.stored]
    rw [hs, Option.map_some, Option.bind_some, hdetach, Option.bind_some]
    exact heq
  by_cases hbuf : (m.koa k).type.buffered
  · -- its buffer goes back to the other pool
    have huse : m.Uses k := ⟨hk, hbuf⟩
    obtain ⟨pb, hgive, hpb, hb'⟩ := hb.give huse
      (koaDestroy m k).Uses (Function.update ptr k none) huses fun x hx => Function.update_of_ne hx _ _
    have hptr := (hb.taken k huse).2
    have hset := hr.set k (m.koa k) none
    have hsame : m.set k (m.koa k) = m := by
      unfold KoaMgr.set
      rw [Function.update_eq_self]
    rw [hsame] at hset
    refine ⟨{ h.set (A.koa k) ((m.koa k).stored A.sentinel none) with
      sentinels := sentinels, poolBufferCircular := pb, poolKoaObj := p' }, _, _, hbegin _ ?_,
      ⟨hpool, haddr, hset.stores, hr.map, hr.cache, ?_⟩, hb'⟩
    · have hcond : (h.koa (A.koa k)).type.buffered := by
        rw [hstored]
        exact hbuf
      unfold memKoaRelease
      dsimp only
      rw [if_pos hcond, hstored]
      dsimp only [Koa.stored]
      rw [hptr, Option.bind_some, hgive, Option.map_some, Option.bind_some]
      dsimp only [KoaMem.set]
      rw [hfree]
      rfl
    · rw [hmgr]
      exact hsent
  · refine ⟨{ h with sentinels := sentinels, poolKoaObj := p' }, ptr, free, hbegin _ ?_,
      ⟨hpool, haddr, hr.stores, hr.map, hr.cache, ?_⟩, ?_⟩
    · have hcond : ¬ (h.koa (A.koa k)).type.buffered := by
        rw [hstored]
        exact hbuf
      unfold memKoaRelease
      dsimp only
      rw [if_neg hcond, Option.bind_some]
      dsimp only
      rw [hfree]
      rfl
    · rw [hmgr]
      exact hsent
    · refine hb.congr (fun x => ?_) fun x _ => rfl
      rw [huses x]
      exact ⟨And.right, fun hx => ⟨fun he => hbuf (he ▸ hx.2), hx⟩⟩

end KoaMem.Refines

/-- the manager in memory stands for `m` -/
def KoaMem.Rep (A : KoaAddrs) (B : Nat) (buckets : List Nat) (h : KoaMem T) (m : KoaMgr T n N) :
    Prop :=
  ∃ (ptr : Fin N → Option Nat) (free : List (Fin B)) (buf : Fin N → Fin B),
    h.Refines A buckets m ptr ∧ BufferRep h.poolBufferCircular free buf ptr m.Uses

theorem uses_set {m : KoaMgr T n N} {k : Fin N} {v : Koa n} (hv : v.type = (m.koa k).type)
    (x : Fin N) : (m.set k v).Uses x ↔ m.Uses x := by
  show x ∉ m.free ∧ ((m.set k v).koa x).type.buffered ↔ x ∉ m.free ∧ (m.koa x).type.buffered
  rw [m.set_koa]
  by_cases hx : x = k
  · rw [if_pos hx, hv, hx]
  · rw [if_neg hx]

theorem uses_countAttach (m : KoaMgr T n N) (k x : Fin N) : (countAttach m k).Uses x ↔ m.Uses x := by
  unfold KoaMgr.Uses
  rw [countAttach_free, countAttach_koa]
  by_cases hx : x = k
  · rw [if_pos hx, hx]
  · rw [if_neg hx]

namespace KoaMem.Rep
variable {A : KoaAddrs} {buckets : List Nat} {h : KoaMem T} {m m' : KoaMgr T n N} {env : HashEnv}

theorem more (hr : h.Rep A B buckets m) (b : Nat) : h.Rep A B (b :: buckets) m := by
  obtain ⟨ptr, free, buf, hr, hb⟩ := hr
  exact ⟨ptr, free, buf, hr.more b, hb⟩

theorem setMap (hr : h.Rep A B buckets m) (fd : Nat) (x : Option (Fin N)) :
    KoaMem.Rep A B buckets
      { h with map := Function.update h.map fd (x.map fun k => A.koa k.val) }
      { m with map := Function.update m.map fd x } := by
  obtain ⟨ptr, free, buf, hr, hb⟩ := hr
  exact ⟨ptr, free, buf, hr.setMap fd x, hb⟩

theorem set (hr : h.Rep A B buckets m) {k : Fin N} {v : Koa n} (hv : v.type = (m.koa k).type)
    (f : KoaObj → KoaObj)
    (hf : ∀ x, f ((m.koa k).stored A.sentinel x) = v.stored A.sentinel x) :
    (h.set (A.koa k) (f (h.koa (A.koa k)))).Rep A B buckets (m.set k v) := by
  obtain ⟨ptr, free, buf, hr, hb⟩ := hr
  have hobj : f (h.koa (A.koa k)) = v.stored A.sentinel (ptr k) := by
    rw [hr.stores k, hf]
  rw [hobj]
  exact ⟨ptr, free, buf, hr.setSame k v, hb.congr (fun x => uses_set hv x) fun x _ => rfl⟩

theorem attach (hr : h.Rep A B buckets m) (hfuel : buckets.length ≤ env.fuel) (k : Fin N)
    (hfresh : (m.koa k).type = .file → env.fresh.addr ∉ buckets) :
    ∃ h' buckets', memKoaAttach env h (A.koa k) = some h' ∧ h'.Rep A B buckets' (countAttach m k) ∧
      (buckets' = buckets ∨ (m.koa k).type = .file ∧ buckets' = env.fresh.addr :: buckets) := by
  obtain ⟨ptr, free, buf, hr, hb⟩ := hr
  obtain ⟨h', buckets', hrun, hr', hbuf, hcases⟩ := hr.attach hfuel k hfresh
  refine ⟨h', buckets', hrun, ⟨ptr, free, buf, hr', ?_⟩, hcases⟩
  rw [hbuf]
  exact hb.congr (fun x => uses_countAttach m k x) fun x _ => rfl

theorem cacheRemove (hr : h.Rep A B buckets m) (hfuel : buckets.length ≤ env.fuel) (k : Fin N) :
    ∃ h', memAliasCacheRemove env h (A.koa k) = some h' ∧
      h'.Rep A B buckets (aliasCacheRemove m k) := by
  obtain ⟨ptr, free, buf, hr, hb⟩ := hr
  obtain ⟨h', hrun, hr', hbuf⟩ := hr.cacheRemove hfuel k
  refine ⟨h', hrun, ptr, free, buf, hr', ?_⟩
  rw [hbuf]
  exact hb

theorem destroy (hr : h.Rep A B buckets m) {k : Fin N} (hk : k ∉ m.free) {s : Fin n}
    (hs : (m.koa k).sentinel = some s) (hlive : s ∉ m.sentinelmgr.free) :
    ∃ h', memKoaDestroy h (A.koa k) = some h' ∧ h'.Rep A B buckets (koaDestroy m k) := by
  obtain ⟨ptr, free, buf, hr, hb⟩ := hr
  obtain ⟨h', ptr', free', hrun, hr', hb'⟩ := hr.destroy hb hk hs hlive
  exact ⟨h', hrun, ptr', free', buf, hr', hb'⟩

/-- one reference less -/
theorem detach (hr : h.Rep A B buckets m) (hfuel : buckets.length ≤ env.fuel) {k : Fin N}
    (hk : k ∉ m.free) {s : Fin n} (hs : (m.koa k).sentinel = some s)
    (hlive : s ∉ m.sentinelmgr.free) :
    ∃ h', memKoaDetach env h (A.koa k) = some h' ∧ h'.Rep A B buckets (countDetach m k) := by
  have hset := hr.set (k := k) (v := { m.koa k with refcnt := (m.koa k).refcnt - 1 }) rfl
    (fun v => { v with refcnt := v.refcnt - 1 }) fun x => rfl
  have hself : (m.set k { m.koa k with refcnt := (m.koa k).refcnt - 1 }).koa k =
      { m.koa k with refcnt := (m.koa k).refcnt - 1 } := by
    rw [m.set_koa, if_pos rfl]
  have hs' : ((m.set k { m.koa k with refcnt := (m.koa k).refcnt - 1 }).koa k).sentinel = some s := by
    rw [hself]
    exact hs
  have hobj : ∀ v : KoaObj, (h.set (A.koa k) v).koa (A.koa k) = v := fun v =>
    Function.update_self _ _ _
  have htype : (h.koa (A.koa k)).type = (m.koa k).type ∧
      (h.koa (A.koa k)).refcnt = (m.koa k).refcnt := by
    obtain ⟨ptr, free, buf, hr, hb⟩ := hr
    rw [hr.stores k]
    exact ⟨rfl, rfl⟩
  unfold memKoaDetach countDetach
  dsimp only at hself hset ⊢
  rw [hself, hobj]
  dsimp only
  rw [htype.1, htype.2] at hset ⊢
  by_cases h0 : (m.koa k).refcnt - 1 = 0
  · rw [if_pos h0, if_pos h0]
    by_cases hfile : (m.koa k).type = .file
    · rw [if_pos hfile, if_pos hfile]
      obtain ⟨h₁, hrun, hr₁⟩ := hset.cacheRemove hfuel k
      rw [hrun, Option.bind_some]
      exact hr₁.destroy hk hs' hlive
    · rw [if_neg hfile, if_neg hfile, Option.bind_some]
      exact hset.destroy hk hs' hlive
  · rw [if_neg h0, if_neg h0]
    exact ⟨_, rfl, hset⟩

theorem attachFd (hr : h.Rep A B buckets m) (hfuel : buckets.length ≤ env.fuel) {k : Fin N}
    (hfresh : (m.koa k).type = .file → env.fresh.addr ∉ buckets) {fd : Nat} (hfd : fd < koaMapSize)
    (hmap : m.map fd = none) (hc : koaAttachFd m k fd = some m') :
    ∃ h' buckets', memKoaAttachFd env h (A.koa k) fd = some h' ∧ h'.Rep A B buckets' m' ∧
      (buckets' = buckets ∨ (m.koa k).type = .file ∧ buckets' = env.fresh.addr :: buckets) := by
  have hnone : h.map fd = none := by
    obtain ⟨ptr, free, buf, hr, hb⟩ := hr
    rw [hr.map, hmap, Option.map_none]
  obtain ⟨h₁, buckets', hrun, hr₁, hcases⟩ := (hr.setMap fd (some k)).attach hfuel k hfresh
  unfold koaAttachFd at hc
  rw [Option.ite_none_left_eq_some] at hc
  obtain ⟨hroom, hc⟩ := hc
  generalize countAttach { m with map := Function.update m.map fd (some k) } k = m₁ at hr₁ hroom hc
  refine ⟨h₁.set (A.koa k) { h₁.koa (A.koa k) with
    fd := Function.update (h₁.koa (A.koa k)).fd (h₁.koa (A.koa k)).fdRefcnt.toNat fd
    fdRefcnt := (h₁.koa (A.koa k)).fdRefcnt + 1 }, buckets', ?_, ?_, hcases⟩
  · unfold memKoaAttachFd
    rw [if_pos ⟨hfd, hnone⟩]
    rw [Option.map_some] at hrun
    rw [hrun, Option.bind_some]
    refine if_neg fun hge => hroom ?_
    obtain ⟨ptr, free, buf, hr₁, hb₁⟩ := hr₁
    rw [hr₁.stores k] at hge
    exact hge
  · cases hc
    exact hr₁.set (v := { m₁.koa k with
      fd := Function.update (m₁.koa k).fd (m₁.koa k).fdRefcnt.toNat fd
      fdRefcnt := (m₁.koa k).fdRefcnt + 1 }) rfl (fun v => { v with
      fd := Function.update v.fd v.fdRefcnt.toNat fd
      fdRefcnt := v.fdRefcnt + 1 }) fun x => rfl

theorem detachFd (hr : h.Rep A B buckets m) (hfuel : buckets.length ≤ env.fuel) {k : Fin N}
    (hk : k ∉ m.free) {s : Fin n} (hs : (m.koa k).sentinel = some s)
    (hlive : s ∉ m.sentinelmgr.free) {fd : Nat} (hfd : fd < koaMapSize) :
    ∃ h', memKoaDetachFd env h (A.koa k) fd = some ((koaDetachFd m k fd).1, h') ∧
      h'.Rep A B buckets (koaDetachFd m k fd).2 := by
  have hmap : h.map fd = (m.map fd).map fun k => A.koa k.val := by
    obtain ⟨ptr, free, buf, hr, hb⟩ := hr
    exact hr.map fd
  have hobj : (h.koa (A.koa k)).indexOf fd = (m.koa k).indexOf fd := by
    obtain ⟨ptr, free, buf, hr, hb⟩ := hr
    rw [hr.stores k]
    rfl
  unfold memKoaDetachFd koaDetachFd
  rw [if_pos hfd]
  cases hm : m.map fd with
  | none =>
    rw [hm, Option.map_none] at hmap
    rw [hmap]
    exact ⟨h, rfl, hr⟩
  | some k' =>
    rw [hm, Option.map_some] at hmap
    rw [hmap]
    dsimp only
    rw [hobj]
    have hr₁ := hr.setMap fd none
    rw [Option.map_none] at hr₁
    cases hi : (m.koa k).indexOf fd with
    | none => exact ⟨_, rfl, hr₁⟩
    | some index =>
      dsimp only
      have hset := hr₁.set (k := k) (v := { m.koa k with
        fd := Function.update (m.koa k).fd index ((m.koa k).readFd (m.koa k).fdRefcnt.toNat)
        fdRefcnt := (m.koa k).fdRefcnt - 1 }) rfl (fun v => { v with
          fd := Function.update v.fd index (v.readFd v.fdRefcnt.toNat)
          fdRefcnt := v.fdRefcnt - 1 }) fun x => rfl
      obtain ⟨h', hrun, hr'⟩ := hset.detach hfuel (k := k) hk (s := s)
        (by rw [KoaMgr.set_koa, if_pos rfl]; exact hs) hlive
      refine ⟨h', ?_, hr'⟩
      exact congrArg (Option.map fun h => (true, h)) hrun

theorem memKoaInit_buffered {type : KoaType} (args : UInt32) (k : Nat) {b : Nat} {p : Pool}
    (hbuf : type.buffered) (hp : poolObjectAlloc h.poolBufferCircular = some (p, some b)) :
    memKoaInit h k type args = some { h.set k { h.koa k with bufferCircularInput := some b } with
      poolBufferCircular := p } := by
  unfold memKoaInit
  cases type with
  | sockDgram | pipeReadEnd => rw [hp]
  | sockStream | pipeWriteEnd | file => cases hbuf

theorem memKoaInit_plain {type : KoaType} {args : UInt32} {k : Nat} (hbuf : ¬ type.buffered) :
    memKoaInit h k type args =
      some (h.set k (if type = .file then { h.koa k with stIno := args } else h.koa k)) := by
  unfold memKoaInit KoaMem.set
  cases type with
  | sockDgram | pipeReadEnd => exact absurd rfl hbuf
  | file => rfl
  | sockStream | pipeWriteEnd =>
    rw [if_neg (by intro hf; cases hf), Function.update_eq_self]

theorem create (hr : h.Rep A B buckets m) {type : KoaType} {args : UInt32} {k : Fin N}
    (hroom : type.buffered → (Finset.univ.filter m.Uses).card < B)
    (hc : koaCreate m type args = some (k, m')) :
    ∃ h', memKoaCreate h type args = some (A.koa k, h') ∧ h'.Rep A B buckets m' := by
  obtain ⟨ptr, free, buf, hr, hb⟩ := hr
  unfold koaCreate at hc
  cases hf : m.free with
  | nil =>
    rw [hf] at hc
    cases hc
  | cons k' rest =>
    rw [hf] at hc
    obtain ⟨⟨s, sm⟩, hs, hc⟩ := Option.map_eq_some_iff.mp hc
    cases hc
    have hkoas := hr.koas
    rw [hf] at hkoas
    obtain ⟨p', halloc, hpool, haddr⟩ := hkoas.alloc
    rw [hr.koaAddr] at halloc haddr
    obtain ⟨sentinels, hsentinel, hsent⟩ := hr.sentinels.create hs
    obtain ⟨hk, -⟩ := List.nodup_cons.mp hkoas.nodup
    have hfree : k ∈ m.free := by
      rw [hf]
      exact List.mem_cons_self
    -- the value of the new KOA
    generalize hv : ({ m.koa k with
      sentinel := some s, type := type, refcnt := 0, fdRefcnt := 0,
      stIno := if type = .file then args else (m.koa k).stIno } : Koa n) = v
    have huses : ∀ x, KoaMgr.Uses { m.set k v with free := rest, sentinelmgr := sm } x ↔
        (x = k ∧ type.buffered) ∨ m.Uses x := by
      intro x
      show x ∉ rest ∧ ((m.set k v).koa x).type.buffered ↔
        (x = k ∧ type.buffered) ∨ x ∉ m.free ∧ (m.koa x).type.buffered
      rw [m.set_koa, hf, List.mem_cons, not_or]
      by_cases hx : x = k
      · subst hx
        rw [if_pos rfl, ← hv]
        simp [hk]
      · rw [if_neg hx]
        simp [hx]
    -- the object before the `switch`
    obtain ⟨obj, hobj⟩ : ∃ obj, obj = { (m.koa k).stored A.sentinel (ptr k) with
      sentinel := some (A.sentinel s), type := type, refcnt := 0, fdRefcnt := 0 } := ⟨_, rfl⟩
    have hbegin : ∀ h₀, memKoaInit { h.set (A.koa k) obj with
        poolKoaObj := p', sentinels := sentinels } (A.koa k) type args = some h₀ →
        memKoaCreate h type args = some (A.koa k, h₀) := by
      intro h₀ heq
      rw [hobj] at heq
      unfold memKoaCreate
      rw [halloc]
      dsimp only
      rw [hsentinel, Option.bind_some]
      dsimp only
      rw [hr.stores k]
      dsimp only at heq ⊢
      rw [heq, Option.map_some]
    by_cases hbuf : type.buffered
    · -- it takes the first free buffer
      cases free with
      | nil => exact absurd rfl (hb.free_ne_nil (hroom hbuf))
      | cons b free =>
        have hnot : ¬ m.Uses k := fun hu => hu.1 hfree
        obtain ⟨pb, hpb, -, hb'⟩ := hb.take hnot
          (KoaMgr.Uses { m.set k v with free := rest, sentinelmgr := sm })
          (Function.update ptr k (some (h.poolBufferCircular.addr b)))
          (fun x => by rw [huses x]; simp only [hbuf, and_true])
          fun x => Function.update_apply ..
        refine ⟨_, hbegin { h.set (A.koa k) (v.stored A.sentinel
          (some (h.poolBufferCircular.addr b))) with
            poolKoaObj := p', sentinels := sentinels, poolBufferCircular := pb } ?_, _, _, _,
          ⟨hpool, haddr, (hr.set k v _).stores, hr.map, hr.cache, hsent⟩, hb'⟩
        have hval : { obj with bufferCircularInput := some (h.poolBufferCircular.addr b) } =
            v.stored A.sentinel (some (h.poolBufferCircular.addr b)) := by
          have hne : type ≠ .file := fun he => by
            rw [he] at hbuf
            cases hbuf
          rw [hobj, ← hv, if_neg hne]
          rfl
        have hinit := memKoaInit_buffered (h := { h.set (A.koa k) obj with
          poolKoaObj := p', sentinels := sentinels }) args (A.koa k) hbuf hpb
        rw [hinit]
        dsimp only [KoaMem.set]
        rw [Function.update_self, Function.update_idem, hval]
    · have hset := hr.setSame k v
      refine ⟨_, hbegin { h.set (A.koa k) (v.stored A.sentinel (ptr k)) with
        poolKoaObj := p', sentinels := sentinels } ?_, ptr, free, buf,
        ⟨hpool, haddr, hset.stores, hr.map, hr.cache, hsent⟩, ?_⟩
      · have hval : (if type = .file then { obj with stIno := args } else obj) =
            v.stored A.sentinel (ptr k) := by
          rw [hobj, ← hv]
          by_cases hfile : type = .file
          · rw [if_pos hfile, if_pos hfile]
            rfl
          · rw [if_neg hfile, if_neg hfile]
            rfl
        rw [memKoaInit_plain hbuf]
        dsimp only [KoaMem.set]
        rw [Function.update_self, Function.update_idem, hval]
      · refine hb.congr (fun x => ?_) fun x _ => rfl
        rw [huses x]
        exact or_iff_right fun hx => hbuf hx.2

end KoaMem.Rep

/-! ## the calls -/

/-- the calls that other modules make, with what an enlisted sentinel is attached to and detached
from -/
inductive KoaCall (K S : Type) where
  | create (type : KoaType) (args : UInt32)
  | attachFd (k : K) (fd : Nat)
  | detachFd (k : K) (fd : Nat)
  | attach (k : K)
  | detach (k : K)
  | lookupFd2koa (fd : Nat)
  | aliasCacheLookupInode (inodeNumber : UInt32)
  | getSentinel (k : K)
  | sentinelAttach (s : S)
  | sentinelDetach (s : S)

inductive KoaReply (K S : Type) where
  | result (success : Bool)
  | koa (k : Option K)
  | sentinel (s : Option S)
  deriving DecidableEq

/-- a call, and what `MALLOC` returns if it is called -/
structure KoaEvent (K S : Type) where
  call : KoaCall K S
  fresh : Fresh Nat

namespace KoaAddrs
variable (A : KoaAddrs)

/-- a call with addresses -/
def call : KoaCall (Fin N) (Fin n) → KoaCall Nat Nat
  | .create type args => .create type args
  | .attachFd k fd => .attachFd (A.koa k) fd
  | .detachFd k fd => .detachFd (A.koa k) fd
  | .attach k => .attach (A.koa k)
  | .detach k => .detach (A.koa k)
  | .lookupFd2koa fd => .lookupFd2koa fd
  | .aliasCacheLookupInode inodeNumber => .aliasCacheLookupInode inodeNumber
  | .getSentinel k => .getSentinel (A.koa k)
  | .sentinelAttach s => .sentinelAttach (A.sentinel s)
  | .sentinelDetach s => .sentinelDetach (A.sentinel s)

def reply : KoaReply (Fin N) (Fin n) → KoaReply Nat Nat
  | .result success => .result success
  | .koa k => .koa (k.map fun k => A.koa k.val)
  | .sentinel s => .sentinel (s.map fun s => A.sentinel s.val)

def event (e : KoaEvent (Fin N) (Fin n)) : KoaEvent Nat Nat := ⟨A.call e.call, e.fresh⟩

end KoaAddrs

/-- a call on the manager; `refs` are the references of the transactions to the sentinels, and there
are `B` circular buffers.  Pointers are to KOAs and sentinels that have not been destroyed. -/
def koaCall (B : Nat) (m : KoaMgr T n N) (refs : Fin n → Nat) : KoaCall (Fin N) (Fin n) →
    Option (KoaReply (Fin N) (Fin n) × KoaMgr T n N × (Fin n → Nat))
  | .create type args =>
    if type.buffered → (Finset.univ.filter m.Uses).card < B then
      (koaCreate m type args).map fun (k, m) => (.koa (some k), m, refs)
    else none
  | .attachFd k fd =>
    if k ∉ m.free ∧ fd < koaMapSize ∧ m.map fd = none then
      (koaAttachFd m k fd).map fun m => (.result true, m, refs)
    else none
  | .detachFd k fd =>
    if k ∉ m.free ∧ fd < koaMapSize then
      some (.result (koaDetachFd m k fd).1, (koaDetachFd m k fd).2, refs)
    else none
  | .attach k => if k ∉ m.free then some (.result true, koaAttach m k, refs) else none
  | .detach k => if k ∉ m.free then some (.result true, koaDetach m k, refs) else none
  | .lookupFd2koa fd =>
    if fd < koaMapSize then some (.koa (koaLookupFd2koa m fd), m, refs) else none
  | .aliasCacheLookupInode inodeNumber =>
    some (.koa (koaAliasCacheLookupInode m inodeNumber), m, refs)
  | .getSentinel k => if k ∉ m.free then some (.sentinel (m.koa k).sentinel, m, refs) else none
  | .sentinelAttach s =>
    if s ∉ m.sentinelmgr.free then
      some (.result true, { m with sentinelmgr := sentinelAttach m.sentinelmgr s },
        Function.update refs s (refs s + 1))
    else none
  | .sentinelDetach s =>
    if 0 < refs s then
      some (.result true, { m with sentinelmgr := sentinelDetach m.sentinelmgr s },
        Function.update refs s (refs s - 1))
    else none

def memCall (env : HashEnv) (h : KoaMem T) : KoaCall Nat Nat →
    Option (KoaReply Nat Nat × KoaMem T)
  | .create type args => (memKoaCreate h type args).map fun (k, h) => (.koa (some k), h)
  | .attachFd k fd => (memKoaAttachFd env h k fd).map fun h => (.result true, h)
  | .detachFd k fd => (memKoaDetachFd env h k fd).map fun (success, h) => (.result success, h)
  | .attach k => (memKoaAttach env h k).map fun h => (.result true, h)
  | .detach k => (memKoaDetach env h k).map fun h => (.result true, h)
  | .lookupFd2koa fd => (memKoaLookupFd2koa h fd).map fun k => (.koa k, h)
  | .aliasCacheLookupInode inodeNumber =>
    (memKoaAliasCacheLookupInode env h inodeNumber).map fun k => (.koa k, h)
  | .getSentinel k => some (.sentinel (h.koa k).sentinel, h)
  | .sentinelAttach s => some (.result true, { h with sentinels := memSentinelAttach h.sentinels s })
  | .sentinelDetach s =>
    (memSentinelDetach h.sentinels s).map fun sentinels =>
      (.result true, { h with sentinels := sentinels })

/-- the manager, with the addresses that `MALLOC` has returned and the replies -/
structure KoaUse (T : Type) (n N : Nat) where
  mgr : KoaMgr T n N
  refs : Fin n → Nat
  buckets : List Nat
  log : List (KoaReply (Fin N) (Fin n))

/-- `MALLOC` does not return an address again -/
def koaUseStep (B : Nat) (u : KoaUse T n N) (e : KoaEvent (Fin N) (Fin n)) :
    Option (KoaUse T n N) :=
  if e.fresh.addr ∉ u.buckets then
    (koaCall B u.mgr u.refs e.call).map fun (reply, mgr, refs) =>
      ⟨mgr, refs, e.fresh.addr :: u.buckets, u.log ++ [reply]⟩
  else none

structure KoaMemUse (T : Type) where
  mem : KoaMem T
  buckets : List Nat
  log : List (KoaReply Nat Nat)

/-- as many steps suffice for a walk as there are buckets -/
def memUseStep (u : KoaMemUse T) (e : KoaEvent Nat Nat) : Option (KoaMemUse T) :=
  (memCall ⟨u.buckets.length, e.fresh⟩ u.mem e.call).map fun (reply, mem) =>
    ⟨mem, e.fresh.addr :: u.buckets, u.log ++ [reply]⟩

/-! ## the sentinels of the KOAs -/

def KoaMgr.liveSentinel (m : KoaMgr T n N) (k : Fin N) : Option (Fin n) :=
  if k ∈ m.free then none else (m.koa k).sentinel

structure Backed (m : KoaMgr T n N) (refs : Fin n → Nat) : Prop where
  accounted : Accounted m.sentinelmgr (fun s => koaRefs m.liveSentinel s + refs s)
    (fun (_ : T) _ => 0)
  backed : ∀ k, k ∉ m.free → ∃ s, (m.koa k).sentinel = some s
  nodup : m.free.Nodup

namespace Backed
variable {m m' : KoaMgr T n N} {refs refs' : Fin n → Nat}

/-- the sentinel of a KOA outside the pool is outside the pool -/
theorem live (h : Backed m refs) {k : Fin N} (hk : k ∉ m.free) :
    ∃ s, (m.koa k).sentinel = some s ∧ s ∉ m.sentinelmgr.free := by
  obtain ⟨s, hs⟩ := h.backed k hk
  refine ⟨s, hs, fun hf => ?_⟩
  have h0 := (h.accounted.free_iff s).mp hf
  have hmine : m.liveSentinel k = some s := by
    unfold KoaMgr.liveSentinel
    rw [if_neg hk, hs]
  have h1 : 1 ≤ koaRefs m.liveSentinel s := by
    have hle := Finset.single_le_sum (f := fun k => if m.liveSentinel k = some s then 1 else 0)
      (fun _ _ => Nat.zero_le _) (Finset.mem_univ k)
    rw [if_pos hmine] at hle
    exact hle
  omega

theorem congr (h : Backed m refs) (hfree : m'.free = m.free)
    (hmgr : m'.sentinelmgr = m.sentinelmgr)
    (hs : ∀ k, (m'.koa k).sentinel = (m.koa k).sentinel) : Backed m' refs := by
  have hlive : m'.liveSentinel = m.liveSentinel := by
    funext k
    unfold KoaMgr.liveSentinel
    rw [hfree, hs]
  refine ⟨?_, ?_, ?_⟩
  · rw [hmgr, hlive]
    exact h.accounted
  · intro k hk
    rw [hfree] at hk
    rw [hs]
    exact h.backed k hk
  · rw [hfree]
    exact h.nodup

theorem countAttach (h : Backed m refs) (k : Fin N) : Backed (countAttach m k) refs := by
  refine h.congr (countAttach_free m k) ?_ fun x => ?_
  · unfold XCalls.countAttach aliasCacheInsert
    dsimp only
    split
    · split <;> rfl
    · rfl
  · rw [countAttach_koa]
    split
    · rename_i hx
      rw [hx]
    · rfl

theorem set (h : Backed m refs) {k : Fin N} {v : Koa n} (hv : v.sentinel = (m.koa k).sentinel) :
    Backed (m.set k v) refs := by
  refine h.congr rfl rfl fun x => ?_
  rw [m.set_koa]
  split
  · rename_i hx
    rw [hv, hx]
  · rfl

theorem setMap (h : Backed m refs) (map : Nat → Option (Fin N)) :
    Backed { m with map := map } refs := h.congr rfl rfl fun _ => rfl

theorem attachFd (h : Backed m refs) {k : Fin N} {fd : Nat} (hc : koaAttachFd m k fd = some m') :
    Backed m' refs := by
  unfold koaAttachFd at hc
  rw [Option.ite_none_left_eq_some] at hc
  obtain ⟨-, hc⟩ := hc
  cases hc
  exact ((h.setMap _).countAttach k).set rfl

theorem destroy (h : Backed m refs) {k : Fin N} (hk : k ∉ m.free) : Backed (koaDestroy m k) refs := by
  obtain ⟨s, hs⟩ := h.backed k hk
  have hmine : m.liveSentinel k = some s := by
    unfold KoaMgr.liveSentinel
    rw [if_neg hk, hs]
  have hlive : (koaDestroy m k).liveSentinel = Function.update m.liveSentinel k none := by
    funext x
    show (if x ∈ k :: m.free then none else (m.koa x).sentinel) = _
    rw [Function.update_apply]
    by_cases hx : x = k
    · rw [if_pos hx, hx, if_pos List.mem_cons_self]
    · rw [if_neg hx]
      unfold KoaMgr.liveSentinel
      simp only [List.mem_cons, hx, false_or]
  have hmgr : (koaDestroy m k).sentinelmgr = sentinelDetach m.sentinelmgr s := by
    unfold koaDestroy
    rw [hs]
  refine ⟨?_, ?_, List.nodup_cons.mpr ⟨hk, h.nodup⟩⟩
  · rw [hmgr, hlive]
    refine h.accounted.detach (fun x => ?_) fun _ _ => Nat.zero_le _
    have hsum := koaRefs_update m.liveSentinel k none x
    rw [hmine] at hsum
    by_cases hx : x = s
    · simp only [hx, if_true, reduceCtorEq, if_false] at hsum ⊢
      omega
    · have hne : s ≠ x := fun he => hx he.symm
      simp only [hx, hne, Option.some.injEq, reduceCtorEq, if_false] at hsum ⊢
      omega
  · intro x hx
    exact h.backed x fun hm => hx (List.mem_cons_of_mem _ hm)

theorem countDetach (h : Backed m refs) {k : Fin N} (hk : k ∉ m.free) :
    Backed (countDetach m k) refs := by
  have hset := h.set (k := k) (v := { m.koa k with refcnt := (m.koa k).refcnt - 1 }) rfl
  unfold XCalls.countDetach
  dsimp only
  split
  · refine Backed.destroy ?_ (by split <;> exact hk)
    split
    · exact hset.congr rfl rfl fun _ => rfl
    · exact hset
  · exact hset

theorem detachFd (h : Backed m refs) {k : Fin N} (hk : k ∉ m.free) (fd : Nat) :
    Backed (koaDetachFd m k fd).2 refs := by
  unfold koaDetachFd
  cases m.map fd with
  | none => exact h
  | some k' =>
    dsimp only
    cases (m.koa k).indexOf fd with
    | none => exact h.setMap _
    | some index =>
      have hset := (h.setMap (Function.update m.map fd none)).set (k := k) (v := { m.koa k with
        fd := Function.update (m.koa k).fd index ((m.koa k).readFd (m.koa k).fdRefcnt.toNat)
        fdRefcnt := (m.koa k).fdRefcnt - 1 }) rfl
      exact hset.countDetach hk

theorem create (h : Backed m refs) {k : Fin N} {type : KoaType} {args : UInt32}
    (hc : koaCreate m type args = some (k, m')) : Backed m' refs := by
  unfold koaCreate at hc
  cases hf : m.free with
  | nil =>
    rw [hf] at hc
    cases hc
  | cons k' rest =>
    rw [hf] at hc
    obtain ⟨⟨s, sm⟩, hs, hc⟩ := Option.map_eq_some_iff.mp hc
    cases hc
    have hnd := h.nodup
    rw [hf] at hnd
    obtain ⟨hk, hrest⟩ := List.nodup_cons.mp hnd
    have hmine : m.liveSentinel k = none := by
      unfold KoaMgr.liveSentinel
      rw [if_pos (by rw [hf]; exact List.mem_cons_self)]
    generalize hv : ({ m.koa k with
      sentinel := some s, type := type, refcnt := 0, fdRefcnt := 0,
      stIno := if type = .file then args else (m.koa k).stIno } : Koa n) = v
    have hsv : v.sentinel = some s := by rw [← hv]
    have hlive : KoaMgr.liveSentinel { m.set k v with free := rest, sentinelmgr := sm } =
        Function.update m.liveSentinel k (some s) := by
      funext x
      show (if x ∈ rest then none else ((m.set k v).koa x).sentinel) = _
      rw [m.set_koa, Function.update_apply]
      by_cases hx : x = k
      · rw [if_pos hx, if_pos hx, hx, if_neg hk, hsv]
      · rw [if_neg hx, if_neg hx]
        unfold KoaMgr.liveSentinel
        rw [hf]
        simp only [List.mem_cons, hx, false_or]
    refine ⟨?_, ?_, hrest⟩
    · show Accounted sm _ _
      rw [hlive]
      refine h.accounted.create hs fun x => ?_
      have hsum := koaRefs_update m.liveSentinel k (some s) x
      rw [hmine] at hsum
      by_cases hx : x = s
      · simp only [hx, if_true, reduceCtorEq, if_false] at hsum ⊢
        omega
      · have hne : s ≠ x := fun he => hx he.symm
        simp only [hx, hne, Option.some.injEq, reduceCtorEq, if_false] at hsum ⊢
        omega
    · intro x hx
      show ∃ y, ((m.set k v).koa x).sentinel = some y
      rw [m.set_koa]
      by_cases hxk : x = k
      · rw [if_pos hxk]
        exact ⟨s, hsv⟩
      · rw [if_neg hxk]
        refine h.backed x fun hm => ?_
        rw [hf] at hm
        exact (List.mem_cons.mp hm).elim hxk hx

theorem sentinelAttach (h : Backed m refs) {s : Fin n} (hs : s ∉ m.sentinelmgr.free) :
    Backed { m with sentinelmgr := sentinelAttach m.sentinelmgr s }
      (Function.update refs s (refs s + 1)) := by
  refine ⟨h.accounted.attach hs fun x => ?_, h.backed, h.nodup⟩
  rw [Function.update_apply]
  show koaRefs m.liveSentinel x + _ = koaRefs m.liveSentinel x + _ + _
  by_cases hx : x = s
  · rw [if_pos hx, if_pos hx, hx, Nat.add_assoc]
  · rw [if_neg hx, if_neg hx, Nat.add_zero]

theorem sentinelDetach (h : Backed m refs) {s : Fin n} (hs : 0 < refs s) :
    Backed { m with sentinelmgr := sentinelDetach m.sentinelmgr s }
      (Function.update refs s (refs s - 1)) := by
  refine ⟨h.accounted.detach (fun x => ?_) fun _ _ => Nat.zero_le _, h.backed, h.nodup⟩
  rw [Function.update_apply]
  show koaRefs m.liveSentinel x + _ = koaRefs m.liveSentinel x + _ + _
  by_cases hx : x = s
  · rw [if_pos hx, if_pos hx, hx]
    omega
  · rw [if_neg hx, if_neg hx, Nat.add_zero]

end Backed

/-! ## one call -/

/-- **One call.** -/
theorem memCall_refines {A : KoaAddrs} {buckets : List Nat} {h : KoaMem T} {m m' : KoaMgr T n N}
    {refs refs' : Fin n → Nat} {c : KoaCall (Fin N) (Fin n)} {reply : KoaReply (Fin N) (Fin n)}
    (hr : h.Rep A B buckets m) (hb : Backed m refs) (env : HashEnv)
    (hfuel : buckets.length ≤ env.fuel) (hfresh : env.fresh.addr ∉ buckets)
    (hc : koaCall B m refs c = some (reply, m', refs')) :
    ∃ h', memCall env h (A.call c) = some (A.reply reply, h') ∧
      h'.Rep A B (env.fresh.addr :: buckets) m' ∧ Backed m' refs' := by
  -- an addition to the table, or none
  have hwiden : ∀ {h' : KoaMem T} {m' : KoaMgr T n N} {bs : List Nat} {P : Prop},
      h'.Rep A B bs m' → (bs = buckets ∨ P ∧ bs = env.fresh.addr :: buckets) →
      h'.Rep A B (env.fresh.addr :: buckets) m' := by
    intro h' m' bs P hrep hcases
    rcases hcases with rfl | ⟨-, rfl⟩
    · exact hrep.more _
    · exact hrep
  cases c with
  | create type args =>
    obtain ⟨hroom, hc⟩ := Option.ite_none_right_eq_some.mp hc
    obtain ⟨⟨k, m₁⟩, hcreate, hc⟩ := Option.map_eq_some_iff.mp hc
    cases hc
    obtain ⟨h', hrun, hr'⟩ := hr.create hroom hcreate
    refine ⟨h', ?_, hr'.more _, hb.create hcreate⟩
    exact congrArg (Option.map _) hrun
  | attachFd k fd =>
    obtain ⟨⟨hk, hfd, hmap⟩, hc⟩ := Option.ite_none_right_eq_some.mp hc
    obtain ⟨m₁, hattach, hc⟩ := Option.map_eq_some_iff.mp hc
    cases hc
    obtain ⟨h', bs, hrun, hr', hcases⟩ := hr.attachFd hfuel (fun _ => hfresh) hfd hmap hattach
    refine ⟨h', ?_, hwiden hr' hcases, hb.attachFd hattach⟩
    exact congrArg (Option.map _) hrun
  | detachFd k fd =>
    obtain ⟨⟨hk, hfd⟩, hc⟩ := Option.ite_none_right_eq_some.mp hc
    cases hc
    obtain ⟨s, hs, hlive⟩ := hb.live hk
    obtain ⟨h', hrun, hr'⟩ := hr.detachFd hfuel hk hs hlive hfd
    refine ⟨h', ?_, hr'.more _, hb.detachFd hk fd⟩
    exact congrArg (Option.map _) hrun
  | attach k =>
    obtain ⟨hk, hc⟩ := Option.ite_none_right_eq_some.mp hc
    cases hc
    obtain ⟨h', bs, hrun, hr', hcases⟩ := hr.attach hfuel k fun _ => hfresh
    refine ⟨h', ?_, hwiden hr' hcases, hb.countAttach k⟩
    exact congrArg (Option.map _) hrun
  | detach k =>
    obtain ⟨hk, hc⟩ := Option.ite_none_right_eq_some.mp hc
    cases hc
    obtain ⟨s, hs, hlive⟩ := hb.live hk
    obtain ⟨h', hrun, hr'⟩ := hr.detach hfuel hk hs hlive
    refine ⟨h', ?_, hr'.more _, hb.countDetach hk⟩
    exact congrArg (Option.map _) hrun
  | lookupFd2koa fd =>
    obtain ⟨hfd, hc⟩ := Option.ite_none_right_eq_some.mp hc
    cases hc
    refine ⟨h, ?_, hr.more _, hb⟩
    obtain ⟨ptr, free, buf, hr, -⟩ := hr
    show (if fd < koaMapSize then some (h.map fd) else none).map _ = _
    rw [if_pos hfd, hr.map fd]
    rfl
  | aliasCacheLookupInode inodeNumber =>
    cases hc
    refine ⟨h, ?_, hr.more _, hb⟩
    obtain ⟨ptr, free, buf, hr, -⟩ := hr
    exact congrArg (Option.map _) (hr.cacheLookup hfuel inodeNumber)
  | getSentinel k =>
    obtain ⟨hk, hc⟩ := Option.ite_none_right_eq_some.mp hc
    cases hc
    refine ⟨h, ?_, hr.more _, hb⟩
    obtain ⟨ptr, free, buf, hr, -⟩ := hr
    show some (KoaReply.sentinel (h.koa (A.koa k)).sentinel, h) = _
    rw [hr.stores k]
    rfl
  | sentinelAttach s =>
    obtain ⟨hs, hc⟩ := Option.ite_none_right_eq_some.mp hc
    cases hc
    refine ⟨_, rfl, ?_, hb.sentinelAttach hs⟩
    obtain ⟨ptr, free, buf, hr, hbuf⟩ := hr.more env.fresh.addr
    exact ⟨ptr, free, buf, ⟨hr.koas, hr.koaAddr, hr.stores, hr.map, hr.cache,
      hr.sentinels.attach s⟩, hbuf⟩
  | sentinelDetach s =>
    obtain ⟨hs, hc⟩ := Option.ite_none_right_eq_some.mp hc
    cases hc
    have hlive : s ∉ m.sentinelmgr.free := by
      intro hf
      have h0 := (hb.accounted.free_iff s).mp hf
      omega
    obtain ⟨ptr, free, buf, hr, hbuf⟩ := hr.more env.fresh.addr
    obtain ⟨sentinels, hrun, hsent⟩ := hr.sentinels.detach hlive
    refine ⟨{ h with sentinels := sentinels }, ?_, ⟨ptr, free, buf, ⟨hr.koas, hr.koaAddr,
      hr.stores, hr.map, hr.cache, hsent⟩, hbuf⟩, hb.sentinelDetach hs⟩
    exact congrArg (Option.map _) hrun

structure KoaUse.Refined (A : KoaAddrs) (B : Nat) (u : KoaUse T n N) (v : KoaMemUse T) : Prop where
  rep : v.mem.Rep A B u.buckets u.mgr
  backed : Backed u.mgr u.refs
  buckets : v.buckets = u.buckets
  log : v.log = u.log.map A.reply

theorem koaUseStep_refines {A : KoaAddrs} {u u' : KoaUse T n N} {v : KoaMemUse T}
    {e : KoaEvent (Fin N) (Fin n)} (hr : KoaUse.Refined A B u v)
    (hs : koaUseStep B u e = some u') :
    ∃ v', memUseStep v (A.event e) = some v' ∧ KoaUse.Refined A B u' v' := by
  obtain ⟨hfresh, hs⟩ := Option.ite_none_right_eq_some.mp hs
  obtain ⟨⟨reply, mgr, refs⟩, hc, hs⟩ := Option.map_eq_some_iff.mp hs
  cases hs
  obtain ⟨h', hcall, hr', hb'⟩ := memCall_refines hr.rep hr.backed ⟨u.buckets.length, e.fresh⟩
    (Nat.le_refl _) hfresh hc
  refine ⟨⟨h', e.fresh.addr :: u.buckets, v.log ++ [A.reply reply]⟩, ?_, hr', hb', rfl, ?_⟩
  · unfold memUseStep
    rw [hr.buckets]
    exact congrArg (Option.map _) hcall
  · show v.log ++ [A.reply reply] = (u.log ++ [reply]).map A.reply
    rw [hr.log, List.map_append, List.map_singleton]

/-! ## creation -/

theorem koaCreate_type {m m' : KoaMgr T n N} {k : Fin N} {type : KoaType} {args : UInt32}
    (hc : koaCreate m type args = some (k, m')) : (m'.koa k).type = type := by
  unfold koaCreate at hc
  cases hf : m.free with
  | nil =>
    rw [hf] at hc
    cases hc
  | cons k' rest =>
    rw [hf] at hc
    obtain ⟨r, -, hc⟩ := Option.map_eq_some_iff.mp hc
    cases hc
    show ((m.set k _).koa k).type = type
    rw [m.set_koa, if_pos rfl]

theorem memPrecreate_refines {A : KoaAddrs} {h : KoaMem T} {m m' : KoaMgr T n N} {type : KoaType}
    {fd : Nat} (hr : h.Rep A B [] m) (hb : Backed m fun _ => 0) (env : HashEnv)
    (hfile : type ≠ .file) (hroom : type.buffered → (Finset.univ.filter m.Uses).card < B)
    (hfd : fd < koaMapSize) (hmap : m.map fd = none) (hc : precreate m type fd = some m') :
    (∃ h', memPrecreate env h type fd = some h' ∧ h'.Rep A B [] m') ∧ (Backed m' fun _ => 0) ∧
      ∀ y, y ≠ fd → m'.map y = m.map y := by
  obtain ⟨⟨k, m₁⟩, hcreate, hattach⟩ := Option.bind_eq_some_iff.mp hc
  obtain ⟨-, -, -, hmap₁, -⟩ := koaCreate_cases hcreate
  have htype := koaCreate_type hcreate
  have hne : (m₁.koa k).type ≠ .file := by rw [htype]; exact hfile
  obtain ⟨h₁, hrun, hr₁⟩ := hr.create hroom hcreate
  obtain ⟨h', bs, hrun', hr', hcases⟩ := hr₁.attachFd
    (show ([] : List Nat).length ≤ env.fuel from Nat.zero_le _) (fun hf => absurd hf hne) hfd (by rw [hmap₁]; exact hmap) hattach
  have hbs : bs = [] := hcases.resolve_right fun hf => hne hf.1
  rw [hbs] at hr'
  refine ⟨⟨h', ?_, hr'⟩, (hb.create hcreate).attachFd hattach, fun y hy => ?_⟩
  · unfold memPrecreate
    rw [hrun, Option.bind_some]
    exact hrun'
  · rw [(koaAttachFd_cases hattach).2.1, Function.update_of_ne hy, hmap₁]

theorem mem_free_empty (k : Fin N) : k ∈ (koamgrEmpty T n N).free :=
  free_sentinelmgrCreate (T := T) k

theorem backed_empty : Backed (koamgrEmpty T n N) fun _ => 0 := by
  refine ⟨?_, fun k hk => absurd (mem_free_empty k) hk, poolWalk_nodup _ _⟩
  refine accounted_sentinelmgrCreate.congr (fun s => ?_) fun _ _ => rfl
  show koaRefs _ s + 0 = 0
  rw [Nat.add_zero]
  unfold koaRefs
  refine Finset.sum_eq_zero fun k _ => ?_
  unfold KoaMgr.liveSentinel
  rw [if_pos (mem_free_empty k)]
  exact if_neg (by intro h; cases h)

/-- the arguments of `txc_pool_create`, and where its objects are -/
structure PoolArgs where
  fullBuf : Nat
  objSize : UInt32
  objNum : UInt32
  sizes : PoolSizes objSize objNum

namespace PoolArgs

def pool (p : PoolArgs) : Pool := poolCreate p.fullBuf p.objSize p.objNum

def addr (p : PoolArgs) (o : Nat) : Nat := p.fullBuf + o * p.objSize.toNat

theorem pool_addr (p : PoolArgs) : p.pool.addr = p.addr := by
  obtain ⟨hbuf, hsize, -⟩ := createLoop_sizes p.fullBuf p.objSize p.objNum p.objNum.toNat
  have hbuf : p.pool.fullBuf = p.fullBuf := hbuf
  have hsize : p.pool.objSize = p.objSize := hsize
  funext o
  unfold Pool.addr addr
  rw [hbuf, hsize]

end PoolArgs

/-- the manager and the manager in memory after `txc_koamgr_create` -/
theorem memKoamgrCreate_refines (koas sentinels buffers : PoolArgs) {tableSize : UInt32}
    (htable : 1 ≤ tableSize.toNat) (mem : Buckets Nat) (env : HashEnv)
    {m : KoaMgr T sentinels.objNum.toNat koas.objNum.toNat} (hm : koamgrCreate T _ _ = some m) :
    (∃ h, memKoamgrCreate T env koas.pool sentinels.pool buffers.pool tableSize mem = some h ∧
      h.Rep ⟨koas.addr, sentinels.addr⟩ buffers.objNum.toNat [] m) ∧ Backed m fun _ => 0 := by
  obtain ⟨sm, hsm, hsent⟩ := memSentinelmgrCreate_refines (T := T) sentinels.sizes rfl
    (rfl : sentinels.pool = _)
  rw [sentinels.pool_addr] at hsent
  obtain ⟨m₁, h1, hm⟩ := Option.bind_eq_some_iff.mp hm
  obtain ⟨m₂, h2, h3⟩ := Option.bind_eq_some_iff.mp hm
  have hpos : 0 < buffers.objNum.toNat := buffers.sizes.some_objects
  have hnone : ∀ k, ¬ (koamgrEmpty T sentinels.objNum.toNat koas.objNum.toNat).Uses k :=
    fun k hk => hk.1 (mem_free_empty k)
  have hr : KoaMem.Rep ⟨koas.addr, sentinels.addr⟩ buffers.objNum.toNat []
      (⟨fun _ => ⟨none, fun _ => 0, 0, 0, .sockDgram, 0, none⟩, koas.pool, fun _ => none,
        hashTableCreate tableSize mem, sm, buffers.pool⟩ : KoaMem T)
      (koamgrEmpty T sentinels.objNum.toNat koas.objNum.toNat) := by
    refine ⟨fun _ => none, poolWalk _ (poolFirst _), fun _ => ⟨0, hpos⟩,
      ⟨PoolOf.create koas.sizes rfl, koas.pool_addr, fun k => rfl, fun fd => rfl,
        ⟨_, _, rep_hashTableCreate tableSize htable mem⟩, hsent⟩,
      ⟨PoolOf.create buffers.sizes rfl, fun k hk => absurd hk (hnone k),
        fun k k' hk => absurd hk (hnone k), fun b hb => ?_⟩⟩
    exact absurd (free_sentinelmgrCreate (T := T) b) hb
  have hroom : (Finset.univ.filter
      (koamgrEmpty T sentinels.objNum.toNat koas.objNum.toNat).Uses).card
        < buffers.objNum.toNat := by
    rw [Finset.filter_false_of_mem fun k _ => hnone k]
    exact hpos
  have hplain : ∀ {P : Prop}, KoaType.buffered .pipeWriteEnd → P := fun hf => by cases hf
  obtain ⟨⟨h₁, hr1, hrep1⟩, hb1, hmap1⟩ := memPrecreate_refines hr backed_empty env
    (by intro h; cases h) (fun _ => hroom) (by decide) rfl h1
  obtain ⟨⟨h₂, hr2, hrep2⟩, hb2, hmap2⟩ := memPrecreate_refines hrep1 hb1 env
    (by intro h; cases h) hplain (by decide) (hmap1 1 (by decide)) h2
  obtain ⟨⟨h₃, hr3, hrep3⟩, hb3, -⟩ := memPrecreate_refines hrep2 hb2 env
    (by intro h; cases h) hplain (by decide)
    ((hmap2 2 (by decide)).trans (hmap1 2 (by decide))) h3
  refine ⟨⟨h₃, ?_, hrep3⟩, hb3⟩
  unfold memKoamgrCreate
  rw [hsm, Option.bind_some]
  dsimp only
  rw [hr1, Option.bind_some, hr2, Option.bind_some, hr3]

/-- **The KOA manager in memory.**  Over pools and a hash table of any sizes, a run of calls whose
pointers are to KOAs and sentinels that have not been destroyed is, with the addresses of the objects
for the objects, a run of the code on its memory: every call returns the same, no free list, bucket
list or reference count goes wrong, the alias cache is the finite map, and two KOAs never share a
circular buffer. -/
theorem koa_mem_refines (koas sentinels buffers : PoolArgs) {tableSize : UInt32}
    (htable : 1 ≤ tableSize.toNat) (mem : Buckets Nat) (env : HashEnv)
    {m : KoaMgr T sentinels.objNum.toNat koas.objNum.toNat} (hm : koamgrCreate T _ _ = some m)
    (es : List (KoaEvent (Fin koas.objNum.toNat) (Fin sentinels.objNum.toNat)))
    {u : KoaUse T sentinels.objNum.toNat koas.objNum.toNat}
    (hrun : run (koaUseStep buffers.objNum.toNat) ⟨m, fun _ => 0, [], []⟩ es = some u) :
    let A : KoaAddrs := ⟨koas.addr, sentinels.addr⟩
    ∃ h v, memKoamgrCreate T env koas.pool sentinels.pool buffers.pool tableSize mem = some h ∧
      run memUseStep ⟨h, [], []⟩ (es.map A.event) = some v ∧ v.log = u.log.map A.reply ∧
      v.mem.Rep A buffers.objNum.toNat u.buckets u.mgr := by
  intro A
  obtain ⟨⟨h, hcreate, hr⟩, hb⟩ := memKoamgrCreate_refines koas sentinels buffers htable mem env hm
  have h0 : KoaUse.Refined A buffers.objNum.toNat ⟨m, fun _ => 0, [], []⟩ ⟨h, [], []⟩ :=
    ⟨hr, hb, rfl, rfl⟩
  obtain ⟨v, hv, hrefined⟩ := run_simulates (fun _ _ _ _ hr hs => koaUseStep_refines hr hs) es h0
    hrun
  exact ⟨h, v, hcreate, hv, hrefined.log, hrefined.rep⟩

/-- a file, with a second reference, and a socket in its place -/
def reusedKoa : List (KoaEvent (Fin 4) (Fin 4)) :=
  let fresh := fun a : Nat => (⟨a, some 1, some 2, 3, 4⟩ : Fresh Nat)
  let o := Fin.last 3
  [⟨.create .file 7, fresh 100⟩, ⟨.attachFd o 5, fresh 101⟩, ⟨.aliasCacheLookupInode 7, fresh 102⟩,
    ⟨.attach o, fresh 103⟩, ⟨.getSentinel o, fresh 104⟩, ⟨.sentinelAttach o, fresh 105⟩,
    ⟨.detachFd o 5, fresh 106⟩, ⟨.detach o, fresh 107⟩, ⟨.aliasCacheLookupInode 7, fresh 108⟩,
    ⟨.sentinelDetach o, fresh 109⟩, ⟨.create .sockDgram 0, fresh 110⟩]

theorem koa_mem_refines_reused :
    ∃ h v, memKoamgrCreate Unit ⟨0, ⟨0, none, none, 0, 0⟩⟩ (poolCreate 4096 64 4)
        (poolCreate 8192 32 4) (poolCreate 65536 1024 2) 2
        ⟨fun _ => some 0, fun _ => some 0, fun _ => 1, fun _ => 0⟩ = some h ∧
      run memUseStep ⟨h, [], []⟩ (reusedKoa.map (KoaAddrs.event
        ⟨fun o => 4096 + o * 64, fun o => 8192 + o * 32⟩)) = some v ∧
      v.log = [.koa (some 4288), .result true, .koa (some 4288), .result true,
        .sentinel (some 8288), .result true, .result true, .result true, .koa none, .result true,
        .koa (some 4288)] := by
  have hall : ((koamgrCreate Unit 4 4).bind fun m =>
      (run (koaUseStep 2) ⟨m, fun _ => 0, [], []⟩ reusedKoa).map KoaUse.log) =
      some [.koa (some 3), .result true, .koa (some 3), .result true, .sentinel (some 3),
        .result true, .result true, .result true, .koa none, .result true, .koa (some 3)] := by
    decide +kernel
  obtain ⟨m, hm, hall⟩ := Option.bind_eq_some_iff.mp hall
  obtain ⟨u, hrun, hlog⟩ := Option.map_eq_some_iff.mp hall
  obtain ⟨h, v, hcreate, hv, hvlog, -⟩ := koa_mem_refines
    ⟨4096, 64, 4, ⟨by decide, by decide, by decide, by decide⟩⟩
    ⟨8192, 32, 4, ⟨by decide, by decide, by decide, by decide⟩⟩
    ⟨65536, 1024, 2, ⟨by decide, by decide, by decide, by decide⟩⟩
    (show 1 ≤ (2 : UInt32).toNat by decide)
    ⟨fun _ => some 0, fun _ => some 0, fun _ => 1, fun _ => 0⟩ ⟨0, ⟨0, none, none, 0, 0⟩⟩ hm
    reusedKoa hrun
  refine ⟨h, v, hcreate, hv, ?_⟩
  rw [hvlog, hlog]
  rfl

end XCalls
