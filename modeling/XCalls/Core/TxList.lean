import XCalls.Misc.Pool

/-!
# The list of live transaction descriptors

`tx.c`: the descriptors come from a pool and are linked into a list in the order of their creation.
A descriptor is named by its address; its link fields survive in the pool.

* `TxMgr`           `struct txc_txmgr_s`, with the link fields of all descriptors;
* `TxMgr.txCreate`, `TxMgr.txDestroy`, `TxMgr.txExists`   the functions of `tx.c`;
* `TxUse`, `txListStep` a manager with the live descriptors, in the order of their creation;
* `TxListExact`     the list is the list of live descriptors;
* `recycledUnlinked`   the condition on creations: a descriptor that is put behind others comes out
                    of the pool with `next == NULL`;
* `txd_list_exact`  every run under the condition; `txd_list_cycle` a run that breaks it.
-/

set_option linter.unusedSectionVars false

namespace XCalls
open Links EventSys

/-- `TXC_MAX_NUM_THREADS` -/
def maxNumThreads : UInt32 := 32

structure TxMgr where
  poolTxd : Pool
  next : Nat → Option Nat
  prev : Nat → Option Nat
  allocTxdListHead : Option Nat
  allocTxdListTail : Option Nat
  allocTxdNum : UInt32

/-- `txc_txmgr_create`; `txSize` is the size of a descriptor, and the pool's memory is zero -/
def txmgrCreate (fullBuf : Nat) (txSize : UInt32) : TxMgr :=
  { poolTxd := poolCreate fullBuf txSize maxNumThreads
    next := fun _ => none
    prev := fun _ => none
    allocTxdListHead := none
    allocTxdListTail := none
    allocTxdNum := 0 }

namespace TxMgr

/-- the part of `txc_tx_create` under the mutex: the descriptor goes behind the list.  The `next`
field is written in the first branch only. -/
def link (g : TxMgr) (txd : Nat) : Option TxMgr :=
  match g.allocTxdListHead, g.allocTxdListTail with
  | none, none => some
      { g with
        allocTxdListHead := some txd
        allocTxdListTail := some txd
        next := Function.update g.next txd none
        prev := Function.update g.prev txd none
        allocTxdNum := g.allocTxdNum + 1 }
  | none, some _ => none
  | some _, none => none
  | some _, some t => some
      { g with
        next := Function.update g.next t (some txd)
        prev := Function.update g.prev txd (some t)
        allocTxdListTail := some txd
        allocTxdNum := g.allocTxdNum + 1 }

/-- `txc_tx_create`; an exhausted pool is an internal error -/
def txCreate (g : TxMgr) : Option (TxMgr × Nat) :=
  match poolObjectAlloc g.poolTxd with
  | some (poolTxd, some txd) => (link { g with poolTxd } txd).map fun g => (g, txd)
  | _ => none

/-- the part of `txc_tx_destroy` under the mutex -/
def unlink (g : TxMgr) (txd : Nat) : TxMgr :=
  let next := assign g.next (g.prev txd) (g.next txd)
  { g with
    allocTxdListHead :=
      if g.allocTxdListHead = some txd then g.next txd else g.allocTxdListHead
    allocTxdListTail :=
      if g.allocTxdListTail = some txd then g.prev txd else g.allocTxdListTail
    next
    prev := assign g.prev (next txd) (g.prev txd)
    allocTxdNum := g.allocTxdNum - 1 }

/-- `txc_tx_destroy` -/
def txDestroy (g : TxMgr) (txd : Nat) : Option TxMgr :=
  if g.allocTxdListHead = none ∨ g.allocTxdListTail = none then none
  else (poolObjectFree g.poolTxd txd).map fun poolTxd => { unlink g txd with poolTxd }

/-- `txc_tx_exists`: whether it returns `TXC_R_SUCCESS`; `none` when the fuel runs out -/
def txExists (g : TxMgr) (fuel : Nat) (txd : Nat) : Option Bool :=
  (scan g.next (fun iter => iter = txd) fuel g.allocTxdListHead).map Option.isSome

end TxMgr

/-! ## runs -/

structure TxUse where
  mgr : TxMgr
  live : List Nat

inductive TxOp where
  | create
  | destroy (txd : Nat)

def txListStep (u : TxUse) : TxOp → Option TxUse
  | .create => u.mgr.txCreate.map fun r => ⟨r.1, u.live ++ [r.2]⟩
  | .destroy txd =>
    if txd ∈ u.live then (u.mgr.txDestroy txd).map fun g => ⟨g, u.live.erase txd⟩ else none

/-- the list is exact -/
structure TxListExact (u : TxUse) : Prop where
  once : u.live.Nodup
  forth : Seg u.mgr.next u.mgr.allocTxdListHead u.live none
  back : Seg u.mgr.prev u.mgr.allocTxdListTail u.live.reverse none
  num : u.mgr.allocTxdNum.toNat = u.live.length
  found : ∀ txd, ∀ fuel ≥ u.live.length, u.mgr.txExists fuel txd = some (decide (txd ∈ u.live))

/-- the descriptor that the pool hands out next, when it goes behind others, has `next == NULL` -/
def recycledUnlinked (u : TxUse) : TxOp → Prop
  | .create => u.mgr.allocTxdListHead ≠ none →
      ∀ o ∈ u.mgr.poolTxd.objFreeHead, u.mgr.next (u.mgr.poolTxd.buf o) = none
  | .destroy _ => True

instance (u : TxUse) (op : TxOp) : Decidable (recycledUnlinked u op) :=
  match op with
  | .create => inferInstanceAs (Decidable (_ → ∀ o ∈ u.mgr.poolTxd.objFreeHead, _))
  | .destroy _ => instDecidableTrue

/-! ## the invariant -/

structure TxInv (txSize : UInt32) (u : TxUse) : Prop where
  pool : ∃ fl al, PoolRep ⟨u.mgr.poolTxd, al.map u.mgr.poolTxd.buf⟩ fl al ∧
    u.live.Perm (al.map u.mgr.poolTxd.buf)
  sizes : u.mgr.poolTxd.objSize = txSize ∧ u.mgr.poolTxd.objNum = maxNumThreads
  forth : Seg u.mgr.next u.mgr.allocTxdListHead u.live none
  back : Back u.mgr.prev none u.live
  tail : u.mgr.allocTxdListTail = u.live.getLast?
  num : u.mgr.allocTxdNum.toNat = u.live.length

section
variable {txSize : UInt32} (hsz : PoolSizes txSize maxNumThreads) {u : TxUse}
include hsz

theorem TxInv.init (fullBuf : Nat) : TxInv txSize ⟨txmgrCreate fullBuf txSize, []⟩ :=
  ⟨⟨_, [], rep_poolCreate hsz, .nil⟩,
    (createLoop_sizes fullBuf txSize maxNumThreads _).2, rfl, trivial, rfl, rfl⟩

theorem TxInv.nodup (h : TxInv txSize u) : u.live.Nodup := by
  obtain ⟨fl, al, hrep, hperm⟩ := h.pool
  have hal : al.Nodup := (List.nodup_append.mp hrep.nodup).2.1
  rw [hperm.nodup_iff]
  refine hal.map_on fun a ha b hb hab => ?_
  have hs : 1 ≤ u.mgr.poolTxd.objSize.toNat := by rw [h.sizes.1]; exact hsz.some_bytes
  exact hrep.buf_inj hs (hrep.lt_objNum (List.mem_append_right _ ha))
    (hrep.lt_objNum (List.mem_append_right _ hb)) hab

theorem TxInv.exact (h : TxInv txSize u) : TxListExact u := by
  refine ⟨h.nodup hsz, h.forth, ?_, h.num, ?_⟩
  · have := h.back.walk
    rwa [Option.or_none, ← h.tail] at this
  · intro txd fuel hf
    unfold TxMgr.txExists
    rw [h.forth.scan_eq _ hf, Option.map_some, Option.some.injEq]
    by_cases hm : txd ∈ u.live
    · rw [decide_eq_true hm, List.isSome_find?]
      exact List.any_eq_true.mpr ⟨txd, hm, by simp⟩
    · rw [decide_eq_false hm, Option.isSome_eq_false_iff, Option.isNone_iff_eq_none,
        List.find?_eq_none]
      intro x hx hxt
      exact hm (of_decide_eq_true hxt ▸ hx)

theorem TxInv.length_le (h : TxInv txSize u) : u.live.length ≤ 32 := by
  obtain ⟨fl, al, hrep, hperm⟩ := h.pool
  have h1 := hrep.length
  have h2 : u.mgr.poolTxd.objNum.toNat = 32 := by rw [h.sizes.2]; rfl
  have h3 : u.live.length = al.length := by rw [hperm.length_eq, List.length_map]
  rw [show (⟨u.mgr.poolTxd, al.map u.mgr.poolTxd.buf⟩ : PoolUse).pool = u.mgr.poolTxd from rfl,
    h2] at h1
  omega

/-! ## creation -/

omit hsz in
/-- what `link` does to an exact list, whatever `next` of the new descriptor is -/
theorem TxInv.link_eq (h : TxInv txSize u) (poolTxd : Pool) (txd : Nat) :
    ∃ g, TxMgr.link { u.mgr with poolTxd } txd = some g ∧ g.poolTxd = poolTxd ∧
      g.allocTxdListTail = some txd ∧ g.allocTxdNum = u.mgr.allocTxdNum + 1 ∧
      g.prev = Function.update u.mgr.prev txd u.live.getLast? ∧
      g.allocTxdListHead = (if u.live = [] then some txd else u.mgr.allocTxdListHead) ∧
      g.next = (if u.live = [] then Function.update u.mgr.next txd none
        else assign u.mgr.next u.live.getLast? (some txd)) := by
  have hhead := h.forth.head
  have htail := h.tail
  unfold TxMgr.link
  cases hl : u.live using List.reverseRecOn with
  | nil =>
    rw [hl] at hhead htail
    rw [show u.mgr.allocTxdListHead = none from hhead, show u.mgr.allocTxdListTail = none from htail]
    exact ⟨_, rfl, rfl, rfl, rfl, rfl, rfl, rfl⟩
  | append_singleton l t =>
    rw [hl, List.getLast?_concat] at htail
    obtain ⟨b, hb⟩ : ∃ b, (l ++ [t]).head? = some b := by cases l <;> exact ⟨_, rfl⟩
    rw [hl, hb] at hhead
    simp only [hhead, htail, List.getLast?_concat]
    refine ⟨_, rfl, rfl, rfl, rfl, rfl, ?_, ?_⟩
    · rw [if_neg (by simp)]
    · rw [if_neg (by simp)]
      rfl

/-- a creation that succeeds takes a descriptor that is not live from the head of the pool -/
theorem TxInv.create_eq (h : TxInv txSize u) {u' : TxUse} (hs : txListStep u .create = some u') :
    ∃ o fl al, u.mgr.poolTxd.objFreeHead = some o ∧
      PoolRep ⟨allocObject u.mgr.poolTxd o, (o :: al).map u.mgr.poolTxd.buf⟩ fl (o :: al) ∧
      u.live.Perm (al.map u.mgr.poolTxd.buf) ∧ u.mgr.poolTxd.buf o ∉ u.live ∧
      ∃ g, TxMgr.link { u.mgr with poolTxd := allocObject u.mgr.poolTxd o }
          (u.mgr.poolTxd.buf o) = some g ∧ u' = ⟨g, u.live ++ [u.mgr.poolTxd.buf o]⟩ := by
  obtain ⟨r, hr, rfl⟩ := Option.map_eq_some_iff.mp hs
  obtain ⟨fl, al, hrep, hperm⟩ := h.pool
  cases fl with
  | nil =>
    have hnone : poolObjectAlloc u.mgr.poolTxd = _ := poolObjectAlloc_nil hrep
    unfold TxMgr.txCreate at hr
    rw [hnone] at hr
    cases hr
  | cons o fl =>
    obtain ⟨halloc, hrep'⟩ := poolObjectAlloc_cons hrep
    have halloc : poolObjectAlloc u.mgr.poolTxd
        = some (allocObject u.mgr.poolTxd o, some (u.mgr.poolTxd.buf o)) := halloc
    unfold TxMgr.txCreate at hr
    rw [halloc] at hr
    obtain ⟨g, hg, rfl⟩ := Option.map_eq_some_iff.mp hr
    refine ⟨o, fl, al, hrep.free.forth.1, hrep', hperm, ?_, g, hg, rfl⟩
    intro hm
    obtain ⟨x, hx, hxo⟩ := List.mem_map.mp (hperm.mem_iff.mp hm)
    have hs : 1 ≤ u.mgr.poolTxd.objSize.toNat := by rw [h.sizes.1]; exact hsz.some_bytes
    have heq := hrep.buf_inj hs (hrep.lt_objNum (List.mem_append_right _ hx))
      (hrep.lt_objNum (List.mem_append_left _ List.mem_cons_self)) hxo
    have hnd := List.nodup_append.mp hrep.nodup
    exact hnd.2.2 o List.mem_cons_self x hx heq.symm

theorem TxInv.create (h : TxInv txSize u) {u' : TxUse} (hok : recycledUnlinked u .create)
    (hs : txListStep u .create = some u') : TxInv txSize u' := by
  have hlen := h.length_le hsz
  have hnd := h.nodup hsz
  obtain ⟨o, fl, al, hfree, hrep, hperm, hnew, g, hg, rfl⟩ := h.create_eq hsz hs
  obtain ⟨g', hg', hpool, htail, hnum, hprev, hhead, hnext⟩ :=
    h.link_eq (allocObject u.mgr.poolTxd o) (u.mgr.poolTxd.buf o)
  rw [hg] at hg'
  cases hg'
  refine ⟨⟨fl, o :: al, ?_, ?_⟩, ?_, ?_, ?_, ?_, ?_⟩
  · rw [hpool]
    exact hrep
  · rw [hpool]
    exact (List.perm_append_comm.trans (hperm.cons _))
  · rw [hpool]
    exact h.sizes
  · show Seg g.next g.allocTxdListHead (u.live ++ [u.mgr.poolTxd.buf o]) none
    rw [hhead, hnext]
    by_cases hl : u.live = []
    · rw [hl, if_pos rfl, if_pos rfl]
      exact ⟨rfl, Function.update_self ..⟩
    · have hne : u.mgr.allocTxdListHead ≠ none := by
        rw [h.forth.head]
        exact fun hc => hl (List.head?_eq_none_iff.mp hc)
      have hsnoc := h.forth.snoc hnd hnew (hok hne o hfree)
      rw [if_neg hl] at hsnoc
      rw [if_neg hl, if_neg hl]
      exact hsnoc
  · show Back g.prev none (u.live ++ [u.mgr.poolTxd.buf o])
    have hsnoc := h.back.snoc hnew
    rwa [Option.or_none, ← hprev] at hsnoc
  · show g.allocTxdListTail = (u.live ++ [u.mgr.poolTxd.buf o]).getLast?
    rw [htail, List.getLast?_concat]
  · show g.allocTxdNum.toNat = (u.live ++ [u.mgr.poolTxd.buf o]).length
    rw [hnum, UInt32.toNat_add, h.num, List.length_append]
    exact Nat.mod_eq_of_lt (show u.live.length + 1 < 2 ^ 32 by omega)

/-- a creation behind others with a stale `next` leaves a list that does not end -/
theorem TxInv.create_stale (h : TxInv txSize u) {u' : TxUse} (hs : txListStep u .create = some u')
    (hx : TxListExact u') : recycledUnlinked u .create := by
  intro hne o' ho'
  obtain ⟨o, fl, al, hfree, hrep, hperm, hnew, g, hg, rfl⟩ := h.create_eq hsz hs
  rw [hfree, Option.mem_def, Option.some.injEq] at ho'
  subst ho'
  obtain ⟨g', hg', _, _, _, _, _, hnext⟩ :=
    h.link_eq (allocObject u.mgr.poolTxd o) (u.mgr.poolTxd.buf o)
  rw [hg] at hg'
  cases hg'
  have hl : u.live ≠ [] := by
    intro hl
    apply hne
    rw [h.forth.head, hl]
    rfl
  have hlast : g.next (u.mgr.poolTxd.buf o) = none := hx.forth.last
  rw [hnext, if_neg hl, assign_of_ne] at hlast
  · exact hlast
  · exact fun hc => hnew (List.mem_of_getLast? hc)

/-! ## destruction -/

omit hsz in
theorem TxInv.unlink (h : TxInv txSize u) (hnd : u.live.Nodup) {txd : Nat} {l₁ l₂ : List Nat}
    (hl : u.live = l₁ ++ txd :: l₂) :
    Seg (u.mgr.unlink txd).next (u.mgr.unlink txd).allocTxdListHead (l₁ ++ l₂) none ∧
      Back (u.mgr.unlink txd).prev none (l₁ ++ l₂) ∧
      (u.mgr.unlink txd).allocTxdListTail = (l₁ ++ l₂).getLast? ∧
      (u.mgr.unlink txd).allocTxdNum.toNat = (l₁ ++ l₂).length := by
  have hforth := h.forth
  have hback := h.back
  have hhead := h.forth.head
  have htail := h.tail
  have hnum := h.num
  rw [hl] at hnd hforth hback hhead htail hnum
  have hnd' : (txd :: (l₁ ++ l₂)).Nodup := (List.perm_middle.nodup_iff).mp hnd
  have hrest : txd ∉ l₁ ++ l₂ := (List.nodup_cons.mp hnd').1
  have hprev : u.mgr.prev txd = l₁.getLast? := by rw [hback.at, Option.or_none]
  have hnext : u.mgr.next txd = l₂.head? := hforth.at
  have hlast : l₁.getLast? ≠ some txd := fun hc =>
    hrest (List.mem_append_left _ (List.mem_of_getLast? hc))
  have hunlink := hforth.unlink hnd
  have hbunlink := hback.unlink hnd
  unfold TxMgr.unlink
  simp only [hprev, hnext, assign_of_ne _ _ hlast]
  rw [hnext] at hunlink
  rw [hprev] at hbunlink
  refine ⟨?_, hbunlink, ?_, ?_⟩
  · have hh : (if u.mgr.allocTxdListHead = some txd then l₂.head? else u.mgr.allocTxdListHead)
        = headAfter u.mgr.allocTxdListHead l₁ l₂ := by
      unfold headAfter
      cases l₁ with
      | nil =>
        have hb : u.mgr.allocTxdListHead = some txd := hhead
        rw [if_pos hb, if_pos rfl]
      | cons b l₁ =>
        have hb : u.mgr.allocTxdListHead ≠ some txd := by
          rw [hhead]
          rintro hc
          cases hc
          exact hrest List.mem_cons_self
        rw [if_neg hb, if_neg (List.cons_ne_nil _ _)]
    rw [hh]
    exact hunlink
  · cases l₂ using List.reverseRecOn with
    | nil =>
      rw [List.getLast?_concat] at htail
      rw [if_pos htail, List.append_nil]
    | append_singleton l t =>
      have ht : u.mgr.allocTxdListTail = some t := by
        rw [htail, ← List.cons_append, ← List.append_assoc, List.getLast?_concat]
      have hne : u.mgr.allocTxdListTail ≠ some txd := by
        rw [ht]
        rintro hc
        cases hc
        exact hrest (by simp)
      rw [if_neg hne, ht, ← List.append_assoc, List.getLast?_concat]
  · simp only [List.length_append, List.length_cons] at hnum ⊢
    have h1 : (1 : UInt32) ≤ u.mgr.allocTxdNum :=
      UInt32.le_iff_toNat_le.mpr (by rw [hnum]; exact Nat.le_add_left 1 (l₁.length + l₂.length))
    rw [UInt32.toNat_sub_of_le _ _ h1, hnum]
    show l₁.length + (l₂.length + 1) - 1 = _
    omega

theorem TxInv.destroy (h : TxInv txSize u) {txd : Nat} (hm : txd ∈ u.live) :
    ∃ u', txListStep u (.destroy txd) = some u' ∧ TxInv txSize u' := by
  have hnd := h.nodup hsz
  obtain ⟨fl, al, hrep, hperm⟩ := h.pool
  obtain ⟨o, ho, hotxd⟩ := List.mem_map.mp (hperm.mem_iff.mp hm)
  obtain ⟨a₁, a₂, rfl⟩ := List.append_of_mem ho
  have hsz' : PoolSizes u.mgr.poolTxd.objSize u.mgr.poolTxd.objNum := by
    rw [h.sizes.1, h.sizes.2]
    exact hsz
  obtain ⟨hfree, hrep'⟩ := poolObjectFree_mem hrep hsz'
  have hfree : poolObjectFree u.mgr.poolTxd (u.mgr.poolTxd.buf o)
      = some (freeObject u.mgr.poolTxd o) := hfree
  have hheld : ((a₁ ++ o :: a₂).map u.mgr.poolTxd.buf).erase txd
      = (a₁ ++ a₂).map u.mgr.poolTxd.buf := hotxd ▸ hrep'.held
  rw [hotxd] at hfree
  obtain ⟨l₁, l₂, hl⟩ := List.append_of_mem hm
  obtain ⟨hforth, hback, htail, hnum⟩ := h.unlink hnd hl
  have herase : u.live.erase txd = l₁ ++ l₂ := by
    have hnotin : txd ∉ l₁ := by
      rw [hl] at hnd
      exact fun hc => (List.nodup_append.mp hnd).2.2 txd hc txd List.mem_cons_self rfl
    rw [hl, List.erase_append_right _ hnotin, List.erase_cons_head]
  have hnull : ¬ (u.mgr.allocTxdListHead = none ∨ u.mgr.allocTxdListTail = none) := by
    rw [h.forth.head, h.tail, List.head?_eq_none_iff, List.getLast?_eq_none_iff, or_self, hl]
    simp
  refine ⟨⟨{ u.mgr.unlink txd with poolTxd := freeObject u.mgr.poolTxd o }, l₁ ++ l₂⟩, ?_, ?_⟩
  · have hd : u.mgr.txDestroy txd
        = some { u.mgr.unlink txd with poolTxd := freeObject u.mgr.poolTxd o } := by
      unfold TxMgr.txDestroy
      rw [if_neg hnull, hfree]
      rfl
    simp only [txListStep, if_pos hm, hd, herase, Option.map_some]
  · refine ⟨⟨o :: fl, a₁ ++ a₂, ?_, ?_⟩, h.sizes, hforth, hback, htail, hnum⟩
    · have hrep'' := hrep'
      rw [hotxd, hheld] at hrep''
      exact hrep''
    · show (l₁ ++ l₂).Perm ((a₁ ++ a₂).map u.mgr.poolTxd.buf)
      rw [← hheld, ← herase]
      exact hperm.erase txd

/-- **One step under the condition keeps the invariant.** -/
theorem TxInv.step (h : TxInv txSize u) {u' : TxUse} {op : TxOp} (hok : recycledUnlinked u op)
    (hs : txListStep u op = some u') : TxInv txSize u' := by
  cases op with
  | create => exact h.create hsz hok hs
  | destroy txd =>
    by_cases hm : txd ∈ u.live
    · obtain ⟨u'', hs'', h''⟩ := h.destroy hsz hm
      rw [hs] at hs''
      cases hs''
      exact h''
    · simp only [txListStep, if_neg hm] at hs
      cases hs

/-- while fewer than `TXC_MAX_NUM_THREADS` descriptors are live, a creation succeeds -/
theorem TxInv.create_isSome (h : TxInv txSize u) (hlt : u.live.length < 32) :
    (txListStep u .create).isSome := by
  obtain ⟨fl, al, hrep, hperm⟩ := h.pool
  have hlen := hrep.length
  rw [show (⟨u.mgr.poolTxd, al.map u.mgr.poolTxd.buf⟩ : PoolUse).pool = u.mgr.poolTxd from rfl,
    h.sizes.2, show maxNumThreads.toNat = 32 from rfl] at hlen
  have hal : u.live.length = al.length := by rw [hperm.length_eq, List.length_map]
  cases fl with
  | nil =>
    rw [List.length_nil] at hlen
    omega
  | cons o fl =>
    have halloc : poolObjectAlloc u.mgr.poolTxd
        = some (allocObject u.mgr.poolTxd o, some (u.mgr.poolTxd.buf o)) :=
      (poolObjectAlloc_cons hrep).1
    obtain ⟨g, hg, _⟩ := h.link_eq (allocObject u.mgr.poolTxd o) (u.mgr.poolTxd.buf o)
    unfold txListStep TxMgr.txCreate
    rw [halloc]
    simp only [hg, Option.map_some, Option.isSome_some]

end

/-- **The list of live descriptors.**  In every run of creations and destructions in which no
descriptor is put behind others with a stale `next`: the list is exact, creations succeed up to
`TXC_MAX_NUM_THREADS` and destructions always, and the next creation leaves an exact list if and
only if it meets the condition. -/
theorem txd_list_exact (fullBuf : Nat) (txSize : UInt32) (hsz : PoolSizes txSize maxNumThreads)
    {u : TxUse} (h : Reach txListStep recycledUnlinked (· = ⟨txmgrCreate fullBuf txSize, []⟩) u) :
    TxListExact u ∧
    (u.live.length < 32 → (txListStep u .create).isSome) ∧
    (∀ txd ∈ u.live, (txListStep u (.destroy txd)).isSome) ∧
    (∀ u', txListStep u .create = some u' → (TxListExact u' ↔ recycledUnlinked u .create)) := by
  have hinv : TxInv txSize u := by
    refine Reach.inv ?_ ?_ h
    · rintro _ rfl
      exact TxInv.init hsz fullBuf
    · intro u op u' hu hok hs
      exact hu.step hsz hok hs
  refine ⟨hinv.exact hsz, hinv.create_isSome hsz, fun txd hm => ?_, fun u' hs => ?_⟩
  · obtain ⟨u', hu', _⟩ := hinv.destroy hsz hm
    rw [hu']
    rfl
  · exact ⟨hinv.create_stale hsz hs, fun hok => (hinv.create hsz hok hs).exact hsz⟩

theorem txSizes : PoolSizes 256 maxNumThreads := ⟨by decide, by decide, by decide, by decide⟩

/-- the youngest descriptor is destroyed, and taken again -/
theorem txd_list_exact_young :
    ∃ u, run (guarded txListStep recycledUnlinked) ⟨txmgrCreate 4096 256, []⟩
        [.create, .create, .destroy 4352, .create] = some u ∧ u.live = [4096, 4352] ∧
      TxListExact u := by
  have hrun : (run (guarded txListStep recycledUnlinked) ⟨txmgrCreate 4096 256, []⟩
      [.create, .create, .destroy 4352, .create]).map (fun u => u.live) = some [4096, 4352] := by
    decide +kernel
  obtain ⟨u, hu, hlive⟩ := Option.map_eq_some_iff.mp hrun
  exact ⟨u, hu, hlive, (txd_list_exact 4096 256 txSizes (reach_of_guarded _ hu)).1⟩

/-- the oldest descriptor is destroyed with `next` pointing to the other one, and taken again: the
two descriptors point to each other -/
theorem txd_list_cycle :
    ∃ u, run txListStep ⟨txmgrCreate 4096 256, []⟩ [.create, .create, .destroy 4096, .create] = some u ∧
      u.live = [4352, 4096] ∧ u.mgr.next 4352 = some 4096 ∧ u.mgr.next 4096 = some 4352 ∧
      ¬ TxListExact u := by
  have hrun : (run txListStep ⟨txmgrCreate 4096 256, []⟩
      [.create, .create, .destroy 4096, .create]).map
        (fun u => (u.live, u.mgr.next 4352, u.mgr.next 4096))
      = some ([4352, 4096], some 4096, some 4352) := by decide +kernel
  obtain ⟨u, hu, heq⟩ := Option.map_eq_some_iff.mp hrun
  rw [Prod.mk.injEq, Prod.mk.injEq] at heq
  obtain ⟨hlive, h1, h2⟩ := heq
  refine ⟨u, hu, hlive, h1, h2, fun hx => ?_⟩
  have hforth := hx.forth
  rw [hlive] at hforth
  have hlast : u.mgr.next 4096 = none := Seg.last (l := [4352]) hforth
  rw [h2] at hlast
  cases hlast

end XCalls
