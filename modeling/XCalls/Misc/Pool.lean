import XCalls.Lib.Links
import XCalls.Lib.EventSys

/-!
# The pool allocator

`pool.c`: an array of `obj_num` objects that are linked into a free list and an allocated list.  An
object is named by its index in `obj_list`; a buffer by its address, `obj_size` bytes apart.

* `Pool`            `struct txc_pool_s`, with one function for each field of `txc_pool_object_s`;
* `poolCreate`, `poolObjectAlloc`, `poolObjectFree`, `poolObjectFirst`   the functions of `pool.c`;
* `PoolUse`, `poolStep`   a pool with the buffers that its users hold;
* `PoolRep`         the representation: two lists that share the objects;
* `pool_invariant`  it holds in every run, with what follows for the users;
* `txmgrDestroyLoop`   the loop of `txc_txmgr_destroy` over all objects;
* `pool_all_objects_iff`   it reaches all of them exactly when one of the two lists holds them all
                    and starts with the first object.

A result `none` is a crash: a `NULL` that is followed, or an assertion that fails.
-/

namespace XCalls
open Links EventSys

/-! ## the functions -/

/-- `TXC_POOL_OBJECT_FREE` -/
def poolObjectIsFree : UInt8 := 0x1
/-- `TXC_POOL_OBJECT_ALLOCATED` -/
def poolObjectIsAllocated : UInt8 := 0x2

structure Pool where
  fullBuf : Nat
  buf : Nat → Nat
  status : Nat → UInt8
  next : Nat → Option Nat
  prev : Nat → Option Nat
  objFreeHead : Option Nat
  objAllocatedHead : Option Nat
  objFreeNum : UInt32
  objAllocatedNum : UInt32
  objSize : UInt32
  objNum : UInt32

/-- the body of the loop of `txc_pool_create`; `i*obj_size`, `(i+1)%obj_num` and `(i-1)%obj_num` are
unsigned, so the last one is `0xFFFFFFFF % obj_num` for the first object -/
def initObject (p : Pool) (i : Nat) : Pool :=
  { p with
    buf := Function.update p.buf i (p.fullBuf + (UInt32.ofNat i * p.objSize).toNat)
    next := Function.update p.next i (some (UInt32.ofNat (i + 1) % p.objNum).toNat)
    prev := Function.update p.prev i (some ((UInt32.ofNat i - 1) % p.objNum).toNat)
    status := Function.update p.status i poolObjectIsFree }

/-- `txc_pool_create`; `fullBuf` is where the buffers are, and the objects are zero at first -/
def poolCreate (fullBuf : Nat) (objSize objNum : UInt32) : Pool :=
  let p := (List.range objNum.toNat).foldl initObject
    { fullBuf, buf := fun _ => 0, status := fun _ => 0, next := fun _ => none,
      prev := fun _ => none, objFreeHead := none, objAllocatedHead := none, objFreeNum := 0,
      objAllocatedNum := 0, objSize, objNum }
  { p with
    prev := Function.update p.prev 0 none
    next := Function.update p.next (objNum - 1).toNat none
    objFreeNum := objNum
    objFreeHead := some 0
    objAllocatedNum := 0
    objAllocatedHead := none }

/-- `txc_pool_object_alloc` with the object `o` at the head of the free list -/
def allocObject (p : Pool) (o : Nat) : Pool :=
  let objFreeHead := p.next o
  let prev := assign p.prev objFreeHead none
  let prev := Function.update prev o none
  let next := Function.update p.next o p.objAllocatedHead
  let prev := assign prev p.objAllocatedHead (some o)
  { p with
    objFreeHead, prev, next
    objAllocatedHead := some o
    objAllocatedNum := p.objAllocatedNum + 1
    objFreeNum := p.objFreeNum - 1
    status := Function.update p.status o poolObjectIsAllocated }

/-- `txc_pool_object_alloc`: the buffer, or `NULL` with `TXC_R_NOMEMORY` -/
def poolObjectAlloc (p : Pool) : Option (Pool × Option Nat) :=
  if p.objFreeNum = 0 then some (p, none)
  else p.objFreeHead.map fun o => (allocObject p o, some (p.buf o))

/-- the index that `txc_pool_object_free` computes for a buffer -/
def poolIndex (p : Pool) (objp : Nat) : Nat :=
  (UInt32.ofInt ((objp : Int) - p.fullBuf) / p.objSize).toNat

/-- `txc_pool_object_free` with the object `o` of the buffer -/
def freeObject (p : Pool) (o : Nat) : Pool :=
  let next := assign p.next (p.prev o) (p.next o)
  let objAllocatedHead := if p.prev o = none then p.next o else p.objAllocatedHead
  let prev := assign p.prev (next o) (p.prev o)
  let next := Function.update next o p.objFreeHead
  let prev := Function.update prev o none
  let prev := assign prev p.objFreeHead (some o)
  { p with
    next, prev, objAllocatedHead
    objAllocatedNum := p.objAllocatedNum - 1
    objFreeNum := p.objFreeNum + 1
    status := Function.update p.status o poolObjectIsFree
    objFreeHead := some o }

/-- `txc_pool_object_free` -/
def poolObjectFree (p : Pool) (objp : Nat) : Option Pool :=
  if p.status (poolIndex p objp) ≠ poolObjectIsAllocated then none
  else some (freeObject p (poolIndex p objp))

/-- `txc_pool_object_first`; an unknown status is an internal error -/
def poolObjectFirst (p : Pool) (objStatus : UInt8) : Option (Option Nat) :=
  if objStatus = poolObjectIsFree then some p.objFreeHead
  else if objStatus = poolObjectIsAllocated then some p.objAllocatedHead
  else if objStatus = poolObjectIsAllocated &&& poolObjectIsFree then some (some 0)
  else none

/-- a loop with `txc_pool_object_first` and `txc_pool_object_next` -/
def poolVisit (p : Pool) (objStatus : UInt8) (fuel : Nat) : Option (List Nat) :=
  (poolObjectFirst p objStatus).bind (visit p.next fuel)

/-! ## runs -/

/-- a pool and the buffers that have been allocated and not been freed -/
structure PoolUse where
  pool : Pool
  held : List Nat

inductive PoolOp where
  | alloc
  | free (objp : Nat)

def poolStep (u : PoolUse) : PoolOp → Option PoolUse
  | .alloc => (poolObjectAlloc u.pool).map fun r => ⟨r.1, r.2.toList ++ u.held⟩
  | .free objp =>
    if objp ∈ u.held then (poolObjectFree u.pool objp).map fun p => ⟨p, u.held.erase objp⟩
    else none

/-! ## the representation -/

/-- a list of objects of one status -/
structure PoolList (p : Pool) (head : Option Nat) (status : UInt8) (l : List Nat) : Prop where
  forth : Seg p.next head l none
  back : Back p.prev none l
  status : ∀ o ∈ l, p.status o = status

structure PoolRep (u : PoolUse) (fl al : List Nat) : Prop where
  free : PoolList u.pool u.pool.objFreeHead poolObjectIsFree fl
  allocated : PoolList u.pool u.pool.objAllocatedHead poolObjectIsAllocated al
  partition : (fl ++ al).Perm (List.range u.pool.objNum.toNat)
  freeNum : u.pool.objFreeNum.toNat = fl.length
  allocatedNum : u.pool.objAllocatedNum.toNat = al.length
  slices : ∀ o < u.pool.objNum.toNat, u.pool.buf o = u.pool.fullBuf + o * u.pool.objSize.toNat
  held : u.held = al.map u.pool.buf

/-- what the sizes of a pool have to meet -/
structure PoolSizes (objSize objNum : UInt32) : Prop where
  some_objects : 1 ≤ objNum.toNat
  int_index : objNum.toNat < 2 ^ 31
  some_bytes : 1 ≤ objSize.toNat
  total : objNum.toNat * objSize.toNat < 2 ^ 32

/-! ## creation -/

section
variable (fullBuf : Nat) (objSize objNum : UInt32)

/-- the objects after `k` rounds of the loop -/
def createLoop (k : Nat) : Pool :=
  (List.range k).foldl initObject
    { fullBuf, buf := fun _ => 0, status := fun _ => 0, next := fun _ => none,
      prev := fun _ => none, objFreeHead := none, objAllocatedHead := none, objFreeNum := 0,
      objAllocatedNum := 0, objSize, objNum }

theorem createLoop_succ (k : Nat) :
    createLoop fullBuf objSize objNum (k + 1)
      = initObject (createLoop fullBuf objSize objNum k) k := by
  unfold createLoop
  rw [List.range_succ, List.foldl_append]
  rfl

theorem createLoop_sizes (k : Nat) :
    (createLoop fullBuf objSize objNum k).fullBuf = fullBuf ∧
      (createLoop fullBuf objSize objNum k).objSize = objSize ∧
      (createLoop fullBuf objSize objNum k).objNum = objNum := by
  induction k with
  | zero => exact ⟨rfl, rfl, rfl⟩
  | succ k ih =>
    rw [createLoop_succ]
    exact ih

theorem createLoop_object (k i : Nat) (hi : i < k) :
    (createLoop fullBuf objSize objNum k).buf i = fullBuf + (UInt32.ofNat i * objSize).toNat ∧
      (createLoop fullBuf objSize objNum k).next i
        = some (UInt32.ofNat (i + 1) % objNum).toNat ∧
      (createLoop fullBuf objSize objNum k).prev i
        = some ((UInt32.ofNat i - 1) % objNum).toNat ∧
      (createLoop fullBuf objSize objNum k).status i = poolObjectIsFree := by
  induction k with
  | zero => omega
  | succ k ih =>
    obtain ⟨h1, h2, h3⟩ := createLoop_sizes fullBuf objSize objNum k
    rw [createLoop_succ]
    unfold initObject
    by_cases hik : i = k
    · subst hik
      simp only [Function.update_self, h1, h2, h3]
      exact ⟨trivial, trivial, trivial, trivial⟩
    · simp only [Function.update_of_ne hik]
      exact ih (by omega)

end

section
variable {fullBuf : Nat} {objSize objNum : UInt32} (hsz : PoolSizes objSize objNum)
include hsz

theorem pred_objNum : (objNum - 1).toNat = objNum.toNat - 1 := by
  have h1 : (1 : UInt32) ≤ objNum := UInt32.le_iff_toNat_le.mpr hsz.some_objects
  rw [UInt32.toNat_sub_of_le _ _ h1]
  rfl

theorem slice_toNat {i : Nat} (hi : i < objNum.toNat) :
    (UInt32.ofNat i * objSize).toNat = i * objSize.toNat := by
  have h1 := hsz.total
  have h2 : i * objSize.toNat < 2 ^ 32 :=
    Nat.lt_of_le_of_lt (Nat.mul_le_mul_right _ (Nat.le_of_lt hi)) h1
  have h3 : i < 2 ^ 32 := by have := hsz.int_index; omega
  rw [UInt32.toNat_mul, UInt32.toNat_ofNat_of_lt' h3, Nat.mod_eq_of_lt h2]

/-- all but the last object point to the next one -/
theorem createLoop_next {i : Nat} (hi : i + 1 < objNum.toNat) :
    (createLoop fullBuf objSize objNum objNum.toNat).next i = some (i + 1) := by
  rw [(createLoop_object fullBuf objSize objNum _ i (by omega)).2.1, UInt32.toNat_mod,
    UInt32.toNat_ofNat_of_lt' (by have := hsz.int_index; simp [UInt32.size]; omega),
    Nat.mod_eq_of_lt hi]

theorem createLoop_prev {i : Nat} (hi : i + 1 < objNum.toNat) :
    (createLoop fullBuf objSize objNum objNum.toNat).prev (i + 1) = some i := by
  have hlt : i + 1 < UInt32.size := by have := hsz.int_index; simp [UInt32.size]; omega
  rw [(createLoop_object fullBuf objSize objNum _ (i + 1) (by omega)).2.2.1, UInt32.toNat_mod,
    UInt32.toNat_sub_of_le _ _ (UInt32.le_iff_toNat_le.mpr
      (by rw [UInt32.toNat_ofNat_of_lt' hlt]; simp)), UInt32.toNat_ofNat_of_lt' hlt]
  show some ((i + 1 - 1) % objNum.toNat) = some i
  rw [Nat.add_sub_cancel, Nat.mod_eq_of_lt (by omega)]

theorem poolCreate_next {i : Nat} (hi : i < objNum.toNat) :
    (poolCreate fullBuf objSize objNum).next i = if i + 1 < objNum.toNat then some (i + 1) else none := by
  show Function.update (createLoop fullBuf objSize objNum objNum.toNat).next (objNum - 1).toNat
    none i = _
  rw [pred_objNum hsz]
  by_cases hl : i + 1 < objNum.toNat
  · rw [Function.update_of_ne (by omega), createLoop_next hsz hl, if_pos hl]
  · have he : i = objNum.toNat - 1 := by omega
    rw [if_neg hl, he, Function.update_self]

theorem poolCreate_prev {i : Nat} (hi : i < objNum.toNat) :
    (poolCreate fullBuf objSize objNum).prev i = if i = 0 then none else some (i - 1) := by
  show Function.update (createLoop fullBuf objSize objNum objNum.toNat).prev 0 none i = _
  cases i with
  | zero => rw [Function.update_self, if_pos rfl]
  | succ i =>
    rw [Function.update_of_ne (Nat.succ_ne_zero i), createLoop_prev hsz hi,
      if_neg (Nat.succ_ne_zero i), Nat.add_sub_cancel]

/-- the objects from `i` on form the end of the list -/
theorem seg_poolCreate (k : Nat) : ∀ i, i + k = objNum.toNat → 1 ≤ k →
    Seg (poolCreate fullBuf objSize objNum).next (some i) (List.range' i k) none := by
  induction k with
  | zero => omega
  | succ k ih =>
    intro i hi _
    rw [List.range'_succ]
    refine ⟨rfl, ?_⟩
    rw [poolCreate_next hsz (by omega)]
    cases k with
    | zero =>
      rw [if_neg (by omega)]
      rfl
    | succ k =>
      rw [if_pos (by omega)]
      exact ih (i + 1) (by omega) (by omega)

theorem back_poolCreate (k : Nat) : ∀ i, i + k = objNum.toNat →
    Back (poolCreate fullBuf objSize objNum).prev (if i = 0 then none else some (i - 1))
      (List.range' i k) := by
  induction k with
  | zero => exact fun _ _ => trivial
  | succ k ih =>
    intro i hi
    rw [List.range'_succ]
    refine ⟨poolCreate_prev hsz (by omega), ?_⟩
    have := ih (i + 1) (by omega)
    rwa [if_neg (Nat.succ_ne_zero i), Nat.add_sub_cancel] at this

theorem rep_poolCreate :
    PoolRep ⟨poolCreate fullBuf objSize objNum, []⟩ (List.range objNum.toNat) [] := by
  have hsizes := createLoop_sizes fullBuf objSize objNum objNum.toNat
  have hobj := createLoop_object fullBuf objSize objNum objNum.toNat
  have hnum : (poolCreate fullBuf objSize objNum).objNum = objNum := hsizes.2.2
  have hsize : (poolCreate fullBuf objSize objNum).objSize = objSize := hsizes.2.1
  have hbuf : (poolCreate fullBuf objSize objNum).fullBuf = fullBuf := hsizes.1
  refine ⟨⟨?_, ?_, ?_⟩, ⟨rfl, trivial, fun o ho => by cases ho⟩, ?_, ?_, rfl, ?_, rfl⟩
  · rw [List.range_eq_range']
    exact seg_poolCreate hsz _ 0 (Nat.zero_add _) hsz.some_objects
  · rw [List.range_eq_range']
    exact back_poolCreate hsz _ 0 (Nat.zero_add _)
  · intro o ho
    exact (hobj o (List.mem_range.mp ho)).2.2.2
  · rw [List.append_nil, hnum]
  · rw [List.length_range]
    rfl
  · intro o ho
    rw [hnum] at ho
    rw [hbuf, hsize]
    exact (hobj o ho).1.trans (congrArg (fullBuf + ·) (slice_toNat hsz ho))

end

/-! ## allocation -/

namespace PoolRep
variable {u : PoolUse} {fl al : List Nat}

theorem nodup (h : PoolRep u fl al) : (fl ++ al).Nodup :=
  h.partition.nodup_iff.mpr List.nodup_range

theorem lt_objNum (h : PoolRep u fl al) {o : Nat} (ho : o ∈ fl ++ al) :
    o < u.pool.objNum.toNat :=
  List.mem_range.mp (h.partition.mem_iff.mp ho)

theorem length (h : PoolRep u fl al) : fl.length + al.length = u.pool.objNum.toNat := by
  have := h.partition.length_eq
  rwa [List.length_append, List.length_range] at this

/-- two objects of the pool do not share a buffer -/
theorem buf_inj (h : PoolRep u fl al) (hs : 1 ≤ u.pool.objSize.toNat) {o o' : Nat}
    (ho : o < u.pool.objNum.toNat) (ho' : o' < u.pool.objNum.toNat)
    (heq : u.pool.buf o = u.pool.buf o') : o = o' := by
  rw [h.slices o ho, h.slices o' ho'] at heq
  exact Nat.eq_of_mul_eq_mul_right hs (Nat.add_left_cancel heq)

end PoolRep

/-- the object at the head of the free list goes to the head of the allocated list -/
theorem poolObjectAlloc_cons {u : PoolUse} {o : Nat} {fl al : List Nat}
    (h : PoolRep u (o :: fl) al) :
    poolObjectAlloc u.pool = some (allocObject u.pool o, some (u.pool.buf o)) ∧
      PoolRep ⟨allocObject u.pool o, u.pool.buf o :: u.held⟩ fl (o :: al) := by
  have hnd : (o :: (fl ++ al)).Nodup := h.nodup
  have ho : o ∉ fl ++ al := (List.nodup_cons.mp hnd).1
  have hfl : o ∉ fl := fun hm => ho (List.mem_append_left _ hm)
  have hal : o ∉ al := fun hm => ho (List.mem_append_right _ hm)
  obtain ⟨hndf, hnda, hdis⟩ := List.nodup_append.mp (List.nodup_cons.mp hnd).2
  obtain ⟨hhead, hforth⟩ := h.free.forth
  obtain ⟨_, hback⟩ := h.free.back
  have hnext : u.pool.next o = fl.head? := hforth.head
  have hahead : u.pool.objAllocatedHead = al.head? := h.allocated.forth.head
  have hnum : u.pool.objFreeNum ≠ 0 := by
    intro h0
    have := h.freeNum
    rw [h0] at this
    simp at this
  have hpos : u.pool.objFreeNum.toNat = fl.length + 1 := h.freeNum
  have hlen := h.length
  -- the writes hit the two heads and the object itself
  have hfree_al : ∀ a ∈ fl.head?, a ∉ al := fun a ha hm =>
    hdis a (List.mem_of_head? ha) a hm rfl
  have hal_free : ∀ a ∈ al.head?, a ∉ fl := fun a ha hm =>
    hdis a hm a (List.mem_of_head? ha) rfl
  have hal_ne : al.head? ≠ some o := fun ha => hal (List.mem_of_head? ha)
  refine ⟨?_, ?_⟩
  · unfold poolObjectAlloc
    rw [if_neg hnum, hhead, Option.map_some]
  · refine ⟨⟨?_, ?_, ?_⟩, ⟨?_, ?_, ?_⟩, ?_, ?_, ?_, h.slices, ?_⟩
    · exact hforth.update hfl _
    · show Back (assign (Function.update (assign u.pool.prev (u.pool.next o) none) o none)
        u.pool.objAllocatedHead (some o)) none fl
      rw [hahead, hnext]
      exact ((hback.rehead hndf none).update hfl none).assign hal_free _
    · intro x hx
      have hxo : x ≠ o := fun he => hfl (he ▸ hx)
      show Function.update u.pool.status o _ x = _
      rw [Function.update_of_ne hxo]
      exact h.free.status x (List.mem_cons_of_mem _ hx)
    · exact h.allocated.forth.push hal
    · refine ⟨?_, ?_⟩
      · show assign (Function.update (assign u.pool.prev (u.pool.next o) none) o none)
          u.pool.objAllocatedHead (some o) o = none
        rw [hahead, assign_of_ne _ _ hal_ne, Function.update_self]
      · show Back (assign (Function.update (assign u.pool.prev (u.pool.next o) none) o none)
          u.pool.objAllocatedHead (some o)) (some o) al
        rw [hahead, hnext]
        exact ((h.allocated.back.assign hfree_al none).update hal none).rehead hnda (some o)
    · intro x hx
      show Function.update u.pool.status o _ x = _
      rcases List.mem_cons.mp hx with rfl | hx
      · rw [Function.update_self]
      · have hxo : x ≠ o := fun he => hal (he ▸ hx)
        rw [Function.update_of_ne hxo]
        exact h.allocated.status x hx
    · exact List.perm_middle.trans h.partition
    · show (u.pool.objFreeNum - 1).toNat = fl.length
      have h1 : (1 : UInt32) ≤ u.pool.objFreeNum :=
        UInt32.le_iff_toNat_le.mpr (by rw [hpos]; simp)
      rw [UInt32.toNat_sub_of_le _ _ h1, hpos]
      rfl
    · show (u.pool.objAllocatedNum + 1).toNat = al.length + 1
      have hlt : al.length + 1 < 2 ^ 32 := by
        have := u.pool.objNum.toNat_lt
        simp only [List.length_cons] at hlen
        omega
      rw [UInt32.toNat_add, h.allocatedNum]
      exact Nat.mod_eq_of_lt hlt
    · show u.pool.buf o :: u.held = u.pool.buf o :: al.map u.pool.buf
      rw [h.held]

theorem poolObjectAlloc_nil {u : PoolUse} {al : List Nat} (h : PoolRep u [] al) :
    poolObjectAlloc u.pool = some (u.pool, none) := by
  have h0 : u.pool.objFreeNum = 0 := by
    rw [← UInt32.toNat_inj]
    exact h.freeNum
  unfold poolObjectAlloc
  rw [if_pos h0]

/-! ## freeing -/

/-- the index of the buffer of an object is the object -/
theorem poolIndex_buf {u : PoolUse} {fl al : List Nat} (h : PoolRep u fl al)
    (hsz : PoolSizes u.pool.objSize u.pool.objNum) {o : Nat} (ho : o < u.pool.objNum.toNat) :
    poolIndex u.pool (u.pool.buf o) = o := by
  have hlt : o * u.pool.objSize.toNat < 2 ^ 32 :=
    Nat.lt_of_le_of_lt (Nat.mul_le_mul_right _ (Nat.le_of_lt ho)) hsz.total
  have hsub : ((u.pool.buf o : Nat) : Int) - u.pool.fullBuf
      = ((o * u.pool.objSize.toNat : Nat) : Int) := by
    rw [h.slices o ho]
    push_cast
    ring
  unfold poolIndex
  have hcast : (UInt32.ofInt ((o * u.pool.objSize.toNat : Nat) : Int)).toNat
      = o * u.pool.objSize.toNat := by
    have hmod : ((o * u.pool.objSize.toNat : Nat) : Int) % 2 ^ 32
        = ((o * u.pool.objSize.toNat : Nat) : Int) := Int.emod_eq_of_lt (by omega) (by omega)
    unfold UInt32.ofInt
    rw [hmod, Int.toNat_natCast]
    exact UInt32.toNat_ofNat_of_lt' hlt
  rw [hsub, UInt32.toNat_div, hcast]
  exact Nat.mul_div_cancel _ hsz.some_bytes

/-- an allocated object goes from its place in the allocated list to the head of the free list -/
theorem poolObjectFree_mem {u : PoolUse} {fl l₁ l₂ : List Nat} {o : Nat}
    (h : PoolRep u fl (l₁ ++ o :: l₂)) (hsz : PoolSizes u.pool.objSize u.pool.objNum) :
    poolObjectFree u.pool (u.pool.buf o) = some (freeObject u.pool o) ∧
      PoolRep ⟨freeObject u.pool o, u.held.erase (u.pool.buf o)⟩ (o :: fl) (l₁ ++ l₂) := by
  obtain ⟨hndf, hnda, hdis⟩ := List.nodup_append.mp h.nodup
  have hmem : o ∈ l₁ ++ o :: l₂ := by simp
  have hlt : o < u.pool.objNum.toNat := h.lt_objNum (List.mem_append_right _ hmem)
  have hidx := poolIndex_buf h hsz hlt
  have hstat : u.pool.status o = poolObjectIsAllocated := h.allocated.status o hmem
  have hnd' : (o :: (l₁ ++ l₂)).Nodup := (List.perm_middle.nodup_iff).mp hnda
  have hrest : o ∉ l₁ ++ l₂ := (List.nodup_cons.mp hnd').1
  have hfl : o ∉ fl := fun hm => hdis o hm o hmem rfl
  have hsub : ∀ a ∈ l₁ ++ l₂, a ∈ l₁ ++ o :: l₂ := by
    intro a ha
    simp only [List.mem_append, List.mem_cons] at ha ⊢
    rcases ha with ha | ha
    · exact .inl ha
    · exact .inr (.inr ha)
  have hprev : u.pool.prev o = l₁.getLast? := by
    rw [h.allocated.back.at, Option.or_none]
  have hnext : u.pool.next o = l₂.head? := h.allocated.forth.at
  have hfhead : u.pool.objFreeHead = fl.head? := h.free.forth.head
  have hlast_ne : l₁.getLast? ≠ some o := fun hl =>
    hrest (List.mem_append_left _ (List.mem_of_getLast? hl))
  have hfhead_ne : fl.head? ≠ some o := fun hl => hfl (List.mem_of_head? hl)
  have hlast_fl : ∀ a ∈ l₁.getLast?, a ∉ fl := fun a ha hm =>
    hdis a hm a (hsub a (List.mem_append_left _ (List.mem_of_getLast? ha))) rfl
  have hhead_fl : ∀ a ∈ l₂.head?, a ∉ fl := fun a ha hm =>
    hdis a hm a (hsub a (List.mem_append_right _ (List.mem_of_head? ha))) rfl
  have hfl_rest : ∀ a ∈ fl.head?, a ∉ l₁ ++ l₂ := fun a ha hm =>
    hdis a (List.mem_of_head? ha) a (hsub a hm) rfl
  have hsame : assign u.pool.next l₁.getLast? l₂.head? o = l₂.head? := by
    rw [assign_of_ne _ _ hlast_ne, hnext]
  have hahead : (if l₁.getLast? = none then l₂.head? else u.pool.objAllocatedHead)
      = headAfter u.pool.objAllocatedHead l₁ l₂ := by
    unfold headAfter
    simp only [List.getLast?_eq_none_iff]
  have hunlink := h.allocated.forth.unlink hnda
  have hbunlink := h.allocated.back.unlink hnda
  rw [hnext] at hunlink
  rw [hprev] at hbunlink
  refine ⟨?_, ?_⟩
  · unfold poolObjectFree
    rw [hidx, if_neg (not_not.mpr hstat)]
  · unfold freeObject
    simp only [hprev, hnext, hsame, hfhead, hahead]
    refine ⟨⟨?_, ?_, ?_⟩, ⟨?_, ?_, ?_⟩, ?_, ?_, ?_, h.slices, ?_⟩
    · have := (h.free.forth.assign hlast_fl l₂.head?).push hfl
      rwa [hfhead] at this
    · refine ⟨?_, ?_⟩
      · show assign (Function.update _ o none) fl.head? (some o) o = none
        rw [assign_of_ne _ _ hfhead_ne, Function.update_self]
      · exact ((h.free.back.assign hhead_fl _).update hfl none).rehead hndf (some o)
    · intro x hx
      show Function.update u.pool.status o _ x = _
      rcases List.mem_cons.mp hx with rfl | hx
      · rw [Function.update_self]
      · have hxo : x ≠ o := fun he => hfl (he ▸ hx)
        rw [Function.update_of_ne hxo]
        exact h.free.status x hx
    · exact hunlink.update hrest _
    · exact (hbunlink.update hrest none).assign hfl_rest _
    · intro x hx
      have hxo : x ≠ o := fun he => hrest (he ▸ hx)
      show Function.update u.pool.status o _ x = _
      rw [Function.update_of_ne hxo]
      exact h.allocated.status x (hsub x hx)
    · refine List.Perm.trans ?_ h.partition
      show (o :: (fl ++ (l₁ ++ l₂))).Perm (fl ++ (l₁ ++ o :: l₂))
      rw [← List.append_assoc, ← List.append_assoc]
      exact List.perm_middle.symm
    · show (u.pool.objFreeNum + 1).toNat = fl.length + 1
      have hlen := h.length
      have hb := u.pool.objNum.toNat_lt
      rw [UInt32.toNat_add, h.freeNum]
      refine Nat.mod_eq_of_lt ?_
      simp only [List.length_append, List.length_cons] at hlen
      show fl.length + 1 < 2 ^ 32
      omega
    · show (u.pool.objAllocatedNum - 1).toNat = (l₁ ++ l₂).length
      have hn := h.allocatedNum
      simp only [List.length_append, List.length_cons] at hn ⊢
      have h1 : (1 : UInt32) ≤ u.pool.objAllocatedNum :=
        UInt32.le_iff_toNat_le.mpr (by rw [hn]; exact Nat.le_add_left 1 (l₁.length + l₂.length))
      rw [UInt32.toNat_sub_of_le _ _ h1, hn]
      show l₁.length + (l₂.length + 1) - 1 = _
      omega
    · show u.held.erase (u.pool.buf o) = (l₁ ++ l₂).map u.pool.buf
      have hnotin : u.pool.buf o ∉ l₁.map u.pool.buf := by
        intro hm
        obtain ⟨x, hx, hxo⟩ := List.mem_map.mp hm
        have hxm := hsub x (List.mem_append_left _ hx)
        have heq := h.buf_inj hsz.some_bytes (h.lt_objNum (List.mem_append_right _ hxm)) hlt hxo
        exact hrest (heq ▸ List.mem_append_left _ hx)
      rw [h.held, List.map_append, List.map_cons, List.erase_append_right _ hnotin,
        List.erase_cons_head, List.map_append]

/-! ## every run -/

/-- **One step keeps the representation.** -/
theorem PoolRep.step {u u' : PoolUse} {fl al : List Nat} {op : PoolOp} (h : PoolRep u fl al)
    (hsz : PoolSizes u.pool.objSize u.pool.objNum) (hs : poolStep u op = some u') :
    (∃ fl' al', PoolRep u' fl' al') ∧ u'.pool.objSize = u.pool.objSize ∧
      u'.pool.objNum = u.pool.objNum := by
  cases op with
  | alloc =>
    obtain ⟨r, hr, rfl⟩ := Option.map_eq_some_iff.mp hs
    cases fl with
    | nil =>
      rw [poolObjectAlloc_nil h] at hr
      cases hr
      exact ⟨⟨[], al, h⟩, rfl, rfl⟩
    | cons o fl =>
      obtain ⟨h1, h2⟩ := poolObjectAlloc_cons h
      rw [h1] at hr
      cases hr
      exact ⟨⟨fl, o :: al, h2⟩, rfl, rfl⟩
  | free objp =>
    simp only [poolStep] at hs
    split at hs
    · rename_i hheld
      rw [h.held] at hheld
      obtain ⟨o, ho, rfl⟩ := List.mem_map.mp hheld
      obtain ⟨l₁, l₂, rfl⟩ := List.append_of_mem ho
      obtain ⟨h1, h2⟩ := poolObjectFree_mem h hsz
      rw [h1] at hs
      cases hs
      exact ⟨⟨o :: fl, l₁ ++ l₂, h2⟩, rfl, rfl⟩
    · cases hs

theorem PoolRep.mem_iff {u : PoolUse} {fl al : List Nat} (h : PoolRep u fl al) (o : Nat) :
    (o ∈ fl ↔ o < u.pool.objNum.toNat ∧ u.pool.status o = poolObjectIsFree) ∧
      (o ∈ al ↔ o < u.pool.objNum.toNat ∧ u.pool.status o = poolObjectIsAllocated) := by
  have hne : poolObjectIsFree ≠ poolObjectIsAllocated := by decide
  have hmem : o < u.pool.objNum.toNat → o ∈ fl ∨ o ∈ al := fun ho =>
    List.mem_append.mp (h.partition.mem_iff.mpr (List.mem_range.mpr ho))
  refine ⟨⟨fun ho => ⟨h.lt_objNum (List.mem_append_left _ ho), h.free.status o ho⟩, ?_⟩,
    ⟨fun ho => ⟨h.lt_objNum (List.mem_append_right _ ho), h.allocated.status o ho⟩, ?_⟩⟩
  · rintro ⟨ho, hst⟩
    refine (hmem ho).resolve_right fun ha => hne ?_
    rw [← hst, h.allocated.status o ha]
  · rintro ⟨ho, hst⟩
    refine (hmem ho).resolve_left fun hf => hne ?_
    rw [← hst, h.free.status o hf]

/-- two objects' slices of `full_buf` do not overlap -/
theorem PoolRep.disjoint {u : PoolUse} {fl al : List Nat} (h : PoolRep u fl al) {i j : Nat}
    (hi : i < u.pool.objNum.toNat) (hj : j < u.pool.objNum.toNat) (hij : i < j) :
    u.pool.buf i + u.pool.objSize.toNat ≤ u.pool.buf j := by
  rw [h.slices i hi, h.slices j hj]
  have : (i + 1) * u.pool.objSize.toNat ≤ j * u.pool.objSize.toNat :=
    Nat.mul_le_mul_right _ hij
  rw [Nat.add_mul, Nat.one_mul] at this
  omega

theorem rep_reach {fullBuf : Nat} {objSize objNum : UInt32} (hsz : PoolSizes objSize objNum)
    {u : PoolUse}
    (h : Reach poolStep any (· = ⟨poolCreate fullBuf objSize objNum, []⟩) u) :
    (∃ fl al, PoolRep u fl al) ∧ u.pool.objSize = objSize ∧ u.pool.objNum = objNum := by
  induction h with
  | start h =>
    subst h
    exact ⟨⟨_, _, rep_poolCreate hsz⟩, (createLoop_sizes fullBuf objSize objNum _).2⟩
  | next _ _ hs ih =>
    obtain ⟨⟨fl, al, hrep⟩, hsize, hnum⟩ := ih
    obtain ⟨h1, h2, h3⟩ := hrep.step (by rw [hsize, hnum]; exact hsz) hs
    exact ⟨h1, h2.trans hsize, h3.trans hnum⟩

/-- **The pool.**  In every run of allocations and of frees of allocated objects: the two lists
partition the objects, with their lengths, statuses and disjoint buffers; an allocation succeeds
exactly while some object is not allocated, and returns such a one; a free finds its object; and the
loops over the two statuses visit the objects of that status once each. -/
theorem pool_invariant (fullBuf : Nat) (objSize objNum : UInt32) (hsz : PoolSizes objSize objNum)
    {u : PoolUse}
    (h : Reach poolStep any (· = ⟨poolCreate fullBuf objSize objNum, []⟩) u) :
    u.pool.objNum = objNum ∧ u.pool.objSize = objSize ∧
    (∃ fl al, PoolRep u fl al) ∧
    (∀ i j, i < j → j < objNum.toNat → u.pool.buf i + objSize.toNat ≤ u.pool.buf j) ∧
    (∃ p objp, poolObjectAlloc u.pool = some (p, objp) ∧
      (objp = none ↔ u.held.length = objNum.toNat) ∧
      ∀ b ∈ objp, b ∉ u.held ∧
        ∃ o < objNum.toNat, u.pool.status o = poolObjectIsFree ∧ b = u.pool.buf o) ∧
    (∀ b ∈ u.held, (poolObjectFree u.pool b).isSome ∧ poolIndex u.pool b < objNum.toNat ∧
      u.pool.buf (poolIndex u.pool b) = b) ∧
    (∀ s, s = poolObjectIsFree ∨ s = poolObjectIsAllocated → ∃ l : List Nat, l.Nodup ∧
      (∀ o, o ∈ l ↔ o < objNum.toNat ∧ u.pool.status o = s) ∧
      ∀ fuel ≥ objNum.toNat, poolVisit u.pool s fuel = some l) := by
  obtain ⟨⟨fl, al, hrep⟩, hsize, hnum⟩ := rep_reach hsz h
  have hsz' : PoolSizes u.pool.objSize u.pool.objNum := by rw [hsize, hnum]; exact hsz
  obtain ⟨hndf, hnda, hdis⟩ := List.nodup_append.mp hrep.nodup
  have hlen := hrep.length
  refine ⟨hnum, hsize, ⟨fl, al, hrep⟩, ?_, ?_, ?_, ?_⟩
  · intro i j hij hj
    rw [← hsize]
    rw [← hnum] at hj
    exact hrep.disjoint (Nat.lt_trans hij hj) hj hij
  · cases fl with
    | nil =>
      refine ⟨u.pool, none, poolObjectAlloc_nil hrep, ⟨fun _ => ?_, fun _ => rfl⟩,
        fun b hb => by cases hb⟩
      rw [hrep.held, List.length_map, ← hnum, ← hlen, List.length_nil, Nat.zero_add]
    | cons o fl =>
      refine ⟨_, _, (poolObjectAlloc_cons hrep).1, ⟨(fun hc => nomatch hc), fun hc => ?_⟩, ?_⟩
      · rw [hrep.held, List.length_map, ← hnum, ← hlen, List.length_cons] at hc
        omega
      · rintro b hb
        cases hb
        have ho : o ∈ (o :: fl) ++ al := List.mem_cons_self
        refine ⟨fun hm => ?_, o, hnum ▸ hrep.lt_objNum ho, hrep.free.status o List.mem_cons_self,
          rfl⟩
        rw [hrep.held] at hm
        obtain ⟨x, hx, hxo⟩ := List.mem_map.mp hm
        have heq := hrep.buf_inj hsz'.some_bytes (hrep.lt_objNum (List.mem_append_right _ hx))
          (hrep.lt_objNum ho) hxo
        exact hdis o List.mem_cons_self x hx heq.symm
  · intro b hb
    rw [hrep.held] at hb
    obtain ⟨o, ho, rfl⟩ := List.mem_map.mp hb
    have hlt := hrep.lt_objNum (List.mem_append_right fl ho)
    have hidx := poolIndex_buf hrep hsz' hlt
    obtain ⟨l₁, l₂, rfl⟩ := List.append_of_mem ho
    rw [(poolObjectFree_mem hrep hsz').1, hidx, ← hnum]
    exact ⟨rfl, hlt, rfl⟩
  · rintro s (rfl | rfl)
    · refine ⟨fl, hndf, fun o => hnum ▸ (hrep.mem_iff o).1, fun fuel hf => ?_⟩
      rw [hnum] at hlen
      exact hrep.free.forth.visit_eq (by omega)
    · refine ⟨al, hnda, fun o => hnum ▸ (hrep.mem_iff o).2, fun fuel hf => ?_⟩
      rw [hnum] at hlen
      exact hrep.allocated.forth.visit_eq (by omega)

theorem poolSizes_three : PoolSizes 16 3 := ⟨by decide, by decide, by decide, by decide⟩

/-- three objects of 16 bytes: two are allocated and the first one is freed -/
theorem pool_invariant_three :
    ∃ u, run poolStep ⟨poolCreate 4096 16 3, []⟩ [.alloc, .alloc, .free 4096] = some u ∧
      u.held = [4112] ∧ (∃ fl al, PoolRep u fl al) ∧
      ∃ p objp, poolObjectAlloc u.pool = some (p, objp) ∧ objp ≠ none := by
  have hrun : (run poolStep ⟨poolCreate 4096 16 3, []⟩ [.alloc, .alloc, .free 4096]).map
      (fun u => u.held) = some [4112] := by decide +kernel
  obtain ⟨u, hu, hheld⟩ := Option.map_eq_some_iff.mp hrun
  obtain ⟨_, _, hrep, _, ⟨p, objp, hp, hfull, _⟩, _⟩ :=
    pool_invariant 4096 16 3 poolSizes_three (reach_of_run _ hu)
  refine ⟨u, hu, hheld, hrep, p, objp, hp, fun hc => ?_⟩
  have := hfull.mp hc
  rw [hheld] at this
  exact absurd this (by decide)

/-! ## the loop over all objects -/

/-- the status that `txc_txmgr_create` and `txc_txmgr_destroy` ask for -/
def poolObjectIsAny : UInt8 := poolObjectIsAllocated &&& poolObjectIsFree

/-- the loop of `txc_txmgr_destroy`: how often the lists and the buffer of each descriptor are
released -/
def txmgrDestroyLoop (p : Pool) (fuel : Nat) : Option (Nat → Nat) :=
  (poolVisit p poolObjectIsAny fuel).map fun l =>
    l.foldl (fun released o => Function.update released o (released o + 1)) fun _ => 0

/-- one of the two lists is empty, and the other one starts with the first object -/
def Pool.OneList (p : Pool) : Prop :=
  p.objAllocatedNum = 0 ∧ p.objFreeHead = some 0 ∨ p.objFreeNum = 0 ∧ p.objAllocatedHead = some 0

theorem foldl_released (l : List Nat) (f : Nat → Nat) (o : Nat) :
    l.foldl (fun released o => Function.update released o (released o + 1)) f o
      = f o + l.count o := by
  induction l generalizing f with
  | nil => rfl
  | cons a l ih =>
    rw [List.foldl_cons, ih, List.count_cons]
    by_cases h : a = o
    · subst h
      simp
      omega
    · have hne : o ≠ a := fun he => h he.symm
      simp [h, Function.update_of_ne hne]

/-- the walk from the first object, which is in the list `l`, reaches the objects of `l` and `l'`
exactly when `l` begins with it and `l'` is empty -/
theorem visit_from_first {next : Nat → Option Nat} {head : Option Nat} {l l' : List Nat} {n : Nat}
    (hs : Seg next head l none) (hperm : (l ++ l').Perm (List.range n)) (h0 : 0 ∈ l) :
    ∃ visited, (∀ fuel ≥ n, visit next fuel (some 0) = some visited) ∧ visited.Nodup ∧
      (∀ o ∈ visited, o < n) ∧ ((∀ o < n, o ∈ visited) ↔ l' = [] ∧ head = some 0) := by
  have hnd : (l ++ l').Nodup := hperm.nodup_iff.mpr List.nodup_range
  have hmem : ∀ o, o ∈ l ++ l' ↔ o < n := fun o => hperm.mem_iff.trans List.mem_range
  obtain ⟨l₁, l₂, rfl⟩ := List.append_of_mem h0
  have htail : Seg next (some 0) (0 :: l₂) none := by
    obtain ⟨b, hfst, hsnd⟩ := (seg_append next head none l₁ (0 :: l₂)).mp hs
    have hb : b = some 0 := hsnd.head
    rwa [hb] at hsnd
  have hlen : (0 :: l₂).length ≤ n := by
    have := hperm.length_eq
    simp only [List.length_append, List.length_cons, List.length_range] at this ⊢
    omega
  obtain ⟨hl, hl', hdis⟩ := List.nodup_append.mp hnd
  obtain ⟨_, hl₂, hdis₁⟩ := List.nodup_append.mp hl
  refine ⟨0 :: l₂, fun fuel hf => htail.visit_eq (Nat.le_trans hlen hf), hl₂, fun o ho =>
    (hmem o).mp (List.mem_append_left _ (List.mem_append_right _ ho)), ?_, ?_⟩
  · intro hall
    -- what is not behind the first object has no other place
    have hnil : l₁ = [] ∧ l' = [] := by
      constructor
      · refine List.eq_nil_iff_forall_not_mem.mpr fun o ho => ?_
        have hlt := (hmem o).mp (List.mem_append_left _ (List.mem_append_left _ ho))
        exact hdis₁ o ho o (hall o hlt) rfl
      · refine List.eq_nil_iff_forall_not_mem.mpr fun o ho => ?_
        have hlt := (hmem o).mp (List.mem_append_right _ ho)
        exact hdis o (List.mem_append_right _ (hall o hlt)) o ho rfl
    refine ⟨hnil.2, ?_⟩
    rw [hs.head, hnil.1]
    rfl
  · rintro ⟨rfl, hhead⟩
    have hnil : l₁ = [] := by
      cases l₁ with
      | nil => rfl
      | cons a l₁ =>
        have ha : a = 0 := by
          have hh := hs.head
          rw [hhead] at hh
          exact (Option.some.inj hh).symm
        exact absurd ha (hdis₁ a List.mem_cons_self 0 List.mem_cons_self)
    intro o ho
    rwa [← hmem o, hnil, List.nil_append, List.append_nil] at ho

theorem txmgrDestroyLoop_eq {p : Pool} {fuel : Nat} {l : List Nat}
    (h : poolVisit p poolObjectIsAny fuel = some l) :
    ∃ released, txmgrDestroyLoop p fuel = some released ∧ ∀ o, released o = l.count o := by
  refine ⟨_, by rw [txmgrDestroyLoop, h, Option.map_some], fun o => ?_⟩
  rw [foldl_released, Nat.zero_add]

/-- **All objects.**  In every run of allocations and of frees of allocated objects: the loop over
all objects ends, visits no object twice, and visits every object, so that `txc_txmgr_destroy`
releases each descriptor once, exactly when one of the two lists is empty and the other one starts
with the first object. -/
theorem pool_all_objects_iff (fullBuf : Nat) (objSize objNum : UInt32)
    (hsz : PoolSizes objSize objNum) {u : PoolUse}
    (h : Reach poolStep any (· = ⟨poolCreate fullBuf objSize objNum, []⟩) u) :
    ∃ (visited : List Nat) (released : Nat → Nat),
      (∀ fuel ≥ objNum.toNat, poolVisit u.pool poolObjectIsAny fuel = some visited) ∧
      (∃ fuel, txmgrDestroyLoop u.pool fuel = some released) ∧
      (visited.Nodup ∧ (∀ o, o ∈ visited ↔ o < objNum.toNat) ↔ u.pool.OneList) ∧
      ((∀ o < objNum.toNat, released o = 1) ↔ u.pool.OneList) := by
  obtain ⟨⟨fl, al, hrep⟩, hsize, hnum⟩ := rep_reach hsz h
  have hperm : (fl ++ al).Perm (List.range objNum.toNat) := hnum ▸ hrep.partition
  have hpos : 0 < objNum.toNat := hsz.some_objects
  have hlists : ∀ l : List Nat, ∀ c : UInt32, c.toNat = l.length → (l = [] ↔ c = 0) := by
    intro l c hc
    rw [← List.length_eq_zero_iff, ← hc, ← UInt32.toNat_inj]
    rfl
  have hone : ∃ visited,
      (∀ fuel ≥ objNum.toNat, poolVisit u.pool poolObjectIsAny fuel = some visited) ∧
      visited.Nodup ∧ (∀ o ∈ visited, o < objNum.toNat) ∧
      ((∀ o < objNum.toNat, o ∈ visited) ↔ u.pool.OneList) := by
    have hmem : 0 ∈ fl ++ al := hperm.mem_iff.mpr (List.mem_range.mpr hpos)
    rcases List.mem_append.mp hmem with h0 | h0
    · obtain ⟨visited, hvisit, hnd, hlt, hiff⟩ := visit_from_first hrep.free.forth hperm h0
      refine ⟨visited, hvisit, hnd, hlt, hiff.trans ?_⟩
      have hne : ¬ u.pool.objFreeNum = 0 := fun hc =>
        List.ne_nil_of_mem h0 ((hlists fl _ hrep.freeNum).mpr hc)
      rw [Pool.OneList, hlists al _ hrep.allocatedNum]
      simp only [hne, false_and, or_false]
    · obtain ⟨visited, hvisit, hnd, hlt, hiff⟩ :=
        visit_from_first hrep.allocated.forth (List.perm_append_comm.trans hperm) h0
      refine ⟨visited, hvisit, hnd, hlt, hiff.trans ?_⟩
      have hne : ¬ u.pool.objAllocatedNum = 0 := fun hc =>
        List.ne_nil_of_mem h0 ((hlists al _ hrep.allocatedNum).mpr hc)
      rw [Pool.OneList, hlists fl _ hrep.freeNum]
      simp only [hne, false_and, false_or]
  obtain ⟨visited, hvisit, hnd, hlt, hiff⟩ := hone
  obtain ⟨released, hrel, hcount⟩ := txmgrDestroyLoop_eq (hvisit _ (Nat.le_refl _))
  refine ⟨visited, released, hvisit, ⟨_, hrel⟩, ?_, ?_⟩
  · rw [← hiff]
    constructor
    · exact fun hall o ho => (hall.2 o).mpr ho
    · exact fun hall => ⟨hnd, fun o => ⟨hlt o, hall o⟩⟩
  · rw [← hiff]
    constructor
    · intro hall o ho
      have h1 : visited.count o = 1 := (hcount o).symm.trans (hall o ho)
      exact List.count_pos_iff.mp (by omega)
    · intro hall o ho
      rw [hcount, hnd.count, if_pos (hall o ho)]

/-- three objects, one of them allocated: the loop stays at it, and two descriptors are never
released -/
theorem pool_all_objects_missed :
    ∃ u, run poolStep ⟨poolCreate 4096 16 3, []⟩ [.alloc] = some u ∧
      poolVisit u.pool poolObjectIsAny 3 = some [0] ∧
      (txmgrDestroyLoop u.pool 3).map (fun released => (List.range 3).map released)
        = some [1, 0, 0] := by
  have hrun : (run poolStep ⟨poolCreate 4096 16 3, []⟩ [.alloc]).map (fun u =>
      (poolVisit u.pool poolObjectIsAny 3,
        (txmgrDestroyLoop u.pool 3).map fun released => (List.range 3).map released))
        = some (some [0], some [1, 0, 0]) := by
    decide +kernel
  obtain ⟨u, hu, heq⟩ := Option.map_eq_some_iff.mp hrun
  rw [Prod.mk.injEq] at heq
  exact ⟨u, hu, heq⟩

/-- two of two objects allocated and given back: the loop reaches both when the first one was given
back last -/
theorem pool_all_objects_iff_two :
    ∃ u, run poolStep ⟨poolCreate 4096 16 2, []⟩ [.alloc, .alloc, .free 4112, .free 4096] = some u ∧
      ∃ visited : List Nat, (∀ fuel ≥ 2, poolVisit u.pool poolObjectIsAny fuel = some visited) ∧
        ∀ o, o ∈ visited ↔ o < 2 := by
  have hrun : (run poolStep ⟨poolCreate 4096 16 2, []⟩
      [.alloc, .alloc, .free 4112, .free 4096]).map
      (fun u => (u.pool.objAllocatedNum, u.pool.objFreeHead)) = some (0, some 0) := by
    decide +kernel
  obtain ⟨u, hu, heq⟩ := Option.map_eq_some_iff.mp hrun
  rw [Prod.mk.injEq] at heq
  obtain ⟨visited, released, hvisit, _, hiff, _⟩ := pool_all_objects_iff 4096 16 2
    ⟨by decide, by decide, by decide, by decide⟩ (reach_of_run _ hu)
  exact ⟨u, hu, visited, hvisit, (hiff.mpr (.inl heq)).2⟩

end XCalls
