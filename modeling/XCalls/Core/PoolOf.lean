import XCalls.Misc.Pool
import XCalls.Core.Sentinel

/-!
# Objects in the memory of a pool

* `Pool.addr`         where the buffer of an object is;
* `PoolOf`            a pool of `n` objects with the list of those that are not allocated;
* `PoolOf.alloc`, `PoolOf.free`, `PoolOf.create`   what the calls of `pool.c` do to the list;
* `Stores`            the memory holds the values of the objects; `Stores.update`: a write to one.
-/

namespace XCalls
variable {n : Nat}

/-- the buffer of the object `o` -/
def Pool.addr (p : Pool) (o : Nat) : Nat := p.fullBuf + o * p.objSize.toNat

/-- the objects of `free` are not allocated, and are allocated next in this order -/
structure PoolOf (p : Pool) (free : List (Fin n)) : Prop where
  sizes : PoolSizes p.objSize p.objNum
  num : p.objNum.toNat = n
  rep : ∃ held al, PoolRep ⟨p, held⟩ (free.map Fin.val) al

namespace PoolOf
variable {p : Pool} {free : List (Fin n)}

theorem addr_inj (h : PoolOf p free) {s s' : Fin n} : p.addr s = p.addr s' ↔ s = s' := by
  refine ⟨fun heq => ?_, fun heq => by rw [heq]⟩
  have hmul : s.val * p.objSize.toNat = s'.val * p.objSize.toNat := Nat.add_left_cancel heq
  exact Fin.ext (Nat.eq_of_mul_eq_mul_right h.sizes.some_bytes hmul)

theorem nodup (h : PoolOf p free) : free.Nodup := by
  obtain ⟨held, al, hrep⟩ := h.rep
  exact (List.nodup_append.mp hrep.nodup).1.of_map Fin.val

theorem alloc {s : Fin n} (h : PoolOf p (s :: free)) :
    ∃ p', poolObjectAlloc p = some (p', some (p.addr s)) ∧ PoolOf p' free ∧ p'.addr = p.addr := by
  obtain ⟨held, al, hrep⟩ := h.rep
  obtain ⟨halloc, hrep'⟩ := poolObjectAlloc_cons hrep
  have hlt : s.val < p.objNum.toNat := hrep.lt_objNum (List.mem_append_left _ List.mem_cons_self)
  have hbuf : p.buf s.val = p.addr s := hrep.slices s.val hlt
  rw [hbuf] at halloc
  exact ⟨allocObject p s.val, halloc, ⟨h.sizes, h.num, _, _, hrep'⟩, rfl⟩

theorem free_cons (h : PoolOf p free) {s : Fin n} (hs : s ∉ free) :
    ∃ p', poolObjectFree p (p.addr s) = some p' ∧ PoolOf p' (s :: free) ∧ p'.addr = p.addr := by
  obtain ⟨held, al, hrep⟩ := h.rep
  have hlt : s.val < p.objNum.toNat := h.num ▸ s.isLt
  have hbuf : p.buf s.val = p.addr s := hrep.slices s.val hlt
  have hal : s.val ∈ al := by
    have hmem : s.val ∈ free.map Fin.val ++ al :=
      hrep.partition.mem_iff.mpr (List.mem_range.mpr hlt)
    refine (List.mem_append.mp hmem).resolve_left fun hm => ?_
    obtain ⟨x, hx, hxs⟩ := List.mem_map.mp hm
    exact hs (Fin.ext hxs ▸ hx)
  obtain ⟨l₁, l₂, rfl⟩ := List.append_of_mem hal
  obtain ⟨hfree, hrep'⟩ := poolObjectFree_mem hrep h.sizes
  rw [show (PoolUse.mk p held).pool.buf s.val = p.addr s from hbuf] at hfree
  exact ⟨freeObject p s.val, hfree, ⟨h.sizes, h.num, _, _, hrep'⟩, rfl⟩

end PoolOf

theorem poolWalk_val (k : Nat) (i : Fin n) (h : i.val + k = n) :
    (poolWalk k (some i)).map Fin.val = List.range' i.val k := by
  induction k generalizing i with
  | zero => rfl
  | succ k ih =>
    rw [poolWalk, List.map_cons, List.range'_succ, poolNext]
    by_cases hi : i.val + 1 < n
    · rw [dif_pos hi, ih ⟨i.val + 1, hi⟩ (by show i.val + 1 + k = n; omega)]
    · have hk : k = 0 := by omega
      subst hk
      rw [dif_neg hi]
      rfl

theorem poolWalk_first_val : (poolWalk n (poolFirst n)).map Fin.val = List.range n := by
  rw [List.range_eq_range']
  by_cases hn : 0 < n
  · rw [poolFirst, dif_pos hn]
    exact poolWalk_val n ⟨0, hn⟩ (Nat.zero_add n)
  · have h0 : n = 0 := by omega
    subst h0
    rfl

/-- a pool that has just been created: the objects are free, in their order -/
theorem PoolOf.create {fullBuf : Nat} {objSize objNum : UInt32} (hsz : PoolSizes objSize objNum)
    (hn : objNum.toNat = n) :
    PoolOf (poolCreate fullBuf objSize objNum) (poolWalk n (poolFirst n)) := by
  have hsizes := (createLoop_sizes fullBuf objSize objNum objNum.toNat).2
  have hsize : (poolCreate fullBuf objSize objNum).objSize = objSize := hsizes.1
  have hnum : (poolCreate fullBuf objSize objNum).objNum = objNum := hsizes.2
  refine ⟨?_, ?_, [], [], ?_⟩
  · rw [hsize, hnum]
    exact hsz
  · rw [hnum, hn]
  · rw [poolWalk_first_val, ← hn]
    exact rep_poolCreate hsz

/-! ## values -/

def Stores {α : Type} (mem : Nat → α) (addr : Nat → Nat) (value : Fin n → α) : Prop :=
  ∀ s : Fin n, mem (addr s) = value s

theorem Stores.update {α : Type} {mem : Nat → α} {p : Pool} {free : List (Fin n)}
    {value : Fin n → α} (h : Stores mem p.addr value) (hp : PoolOf p free) (s : Fin n) (v : α) :
    Stores (Function.update mem (p.addr s) v) p.addr (Function.update value s v) := by
  intro x
  by_cases hx : x = s
  · rw [hx, Function.update_self, Function.update_self]
  · have hne : p.addr x ≠ p.addr s := fun heq => hx (hp.addr_inj.mp heq)
    rw [Function.update_of_ne hne, Function.update_of_ne hx]
    exact h x

end XCalls
