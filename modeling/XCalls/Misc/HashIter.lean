import XCalls.Misc.HashTable

/-!
# Iterating over a hash table

`txc_hash_table_iter_init` and `txc_hash_table_iter_next` of `hash_table.c`.

* `HashIter`        `struct txc_hash_table_iter_s`;
* `hashTableForEach`   the loop `while (TXC_R_SUCCESS == txc_hash_table_iter_next(..))` with a body;
* `liveBuckets`     the live buckets of all slots, in the order of the slots;
* `HashRep.forEach` the loop visits every live bucket once, and these are the entries of the map;
* `iterAfter`, `iterCall`   the calls one after the other, each with what it returns;
* `hash_iter_exact` the calls return each entry of the map once, and then `TXC_R_NULLITER`.
-/

set_option linter.unusedSectionVars false

namespace XCalls
open Links EventSys
variable {V S : Type}

/-! ## the functions -/

structure HashIter where
  index : Nat
  bucket : Option Nat
  deriving DecidableEq

/-- the loop over the slots of both functions, from slot `i` on; the first argument is the number of
slots left -/
def firstBucket (h : HashTable V) : Nat → Nat → Option HashIter
  | 0, _ => none
  | left + 1, i =>
    match (h.tbl i).head with
    | some bucket => some ⟨i, some bucket⟩
    | none => firstBucket h left (i + 1)

/-- `txc_hash_table_iter_init` -/
def hashTableIterInit (h : HashTable V) : HashIter :=
  (firstBucket h h.tblSize.toNat 0).getD ⟨0, none⟩

/-- `txc_hash_table_iter_next`; `none`: `TXC_R_NULLITER` -/
def hashTableIterNext (h : HashTable V) (iter : HashIter) : Option (UInt32 × V × HashIter) :=
  iter.bucket.map fun bucket =>
    (h.mem.key bucket, h.mem.value bucket,
      match h.mem.next bucket with
      | some next => { iter with bucket := some next }
      | none => (firstBucket h (h.tblSize.toNat - (iter.index + 1)) (iter.index + 1)).getD
          { iter with bucket := none })

/-- the loop over all entries, with a body that returns the new state -/
def hashTableForEach (h : HashTable V) (body : S → UInt32 → V → S) :
    Nat → HashIter → S → Option S
  | 0, _, _ => none
  | fuel + 1, iter, s =>
    match hashTableIterNext h iter with
    | none => some s
    | some (key, value, iter) => hashTableForEach h body fuel iter (body s key value)

/-! ## what is left to visit -/

def bucketsFrom (L : Nat → List Nat) (size i : Nat) : List Nat :=
  (List.range' i (size - i)).flatMap L

theorem bucketsFrom_of_lt {L : Nat → List Nat} {size i : Nat} (h : i < size) :
    bucketsFrom L size i = L i ++ bucketsFrom L size (i + 1) := by
  have hlen : size - i = (size - (i + 1)) + 1 := by omega
  unfold bucketsFrom
  rw [hlen, List.range'_succ, List.flatMap_cons]

theorem bucketsFrom_of_le {L : Nat → List Nat} {size i : Nat} (h : size ≤ i) :
    bucketsFrom L size i = [] := by
  unfold bucketsFrom
  rw [Nat.sub_eq_zero_of_le h]
  rfl

def Left (h : HashTable V) (L : Nat → List Nat) (iter : HashIter) (l : List Nat) : Prop :=
  match iter.bucket with
  | none => l = []
  | some _ => ∃ l', Seg h.mem.next iter.bucket l' none ∧
      l = l' ++ bucketsFrom L h.tblSize.toNat (iter.index + 1)

section
variable {h : HashTable V} {L : Nat → List Nat}
  (hseg : ∀ i < h.tblSize.toNat, Seg h.mem.next (h.tbl i).head (L i) none)
include hseg

/-- the next bucket of the slots from `i` on -/
theorem left_firstBucket (left i k : Nat) (hi : i + left = h.tblSize.toNat) :
    Left h L ((firstBucket h left i).getD ⟨k, none⟩) (bucketsFrom L h.tblSize.toNat i) := by
  induction left generalizing i with
  | zero => exact bucketsFrom_of_le (by omega)
  | succ left ih =>
    have hlt : i < h.tblSize.toNat := by omega
    have hs := hseg i hlt
    rw [bucketsFrom_of_lt hlt]
    unfold firstBucket
    cases hh : (h.tbl i).head with
    | some bucket =>
      rw [hh] at hs
      exact ⟨L i, hs, rfl⟩
    | none =>
      rw [hh] at hs
      have hnil : L i = [] := List.head?_eq_none_iff.mp hs.head.symm
      rw [hnil, List.nil_append]
      exact ih (i + 1) (by omega)

theorem left_init : Left h L (hashTableIterInit h) (bucketsFrom L h.tblSize.toNat 0) :=
  left_firstBucket hseg _ _ _ (Nat.zero_add _)

theorem Left.next_none {iter : HashIter} (hl : Left h L iter []) :
    hashTableIterNext h iter = none := by
  unfold Left at hl
  cases hb : iter.bucket with
  | none => rw [hashTableIterNext, hb, Option.map_none]
  | some b =>
    rw [hb] at hl
    obtain ⟨l', hs, hnil⟩ := hl
    rw [(List.append_eq_nil_iff.mp hnil.symm).1] at hs
    cases hs

theorem Left.next_some {iter : HashIter} {b : Nat} {l : List Nat} (hl : Left h L iter (b :: l)) :
    ∃ iter', hashTableIterNext h iter = some (h.mem.key b, h.mem.value b, iter') ∧
      Left h L iter' l := by
  unfold Left at hl
  cases hb : iter.bucket with
  | none =>
    rw [hb] at hl
    cases hl
  | some a =>
    rw [hb] at hl
    obtain ⟨l', hs, hl⟩ := hl
    cases l' with
    | nil => cases hs
    | cons a' l' =>
      obtain ⟨ha, hs⟩ := hs
      cases ha
      rw [List.cons_append, List.cons.injEq] at hl
      obtain ⟨rfl, rfl⟩ := hl
      refine ⟨_, by rw [hashTableIterNext, hb, Option.map_some], ?_⟩
      cases hn : h.mem.next b with
      | some b' =>
        rw [hn] at hs
        exact ⟨l', hs, rfl⟩
      | none =>
        rw [hn] at hs
        have hnil : l' = [] := List.head?_eq_none_iff.mp hs.head.symm
        rw [hnil, List.nil_append]
        by_cases hlt : iter.index + 1 ≤ h.tblSize.toNat
        · exact left_firstBucket hseg _ _ _ (by omega)
        · rw [bucketsFrom_of_le (by omega), Nat.sub_eq_zero_of_le (by omega)]
          rfl

/-- the loop from an iterator on -/
theorem Left.forEach {body : S → UInt32 → V → S} {l : List Nat} {iter : HashIter}
    (hl : Left h L iter l) {fuel : Nat} (hf : l.length < fuel) (s : S) :
    hashTableForEach h body fuel iter s
      = some (l.foldl (fun s b => body s (h.mem.key b) (h.mem.value b)) s) := by
  induction l generalizing iter fuel s with
  | nil =>
    obtain ⟨f, rfl⟩ : ∃ f, fuel = f + 1 := ⟨fuel - 1, by omega⟩
    rw [hashTableForEach, hl.next_none hseg]
    rfl
  | cons b l ih =>
    obtain ⟨f, rfl⟩ : ∃ f, fuel = f + 1 := ⟨fuel - 1, by omega⟩
    obtain ⟨iter', hnext, hl'⟩ := hl.next_some hseg
    rw [hashTableForEach, hnext]
    exact ih hl' (by simpa using hf) _

end

/-! ## the entries of a table -/

def liveBuckets (h : HashTable V) (L : Nat → List Nat) : List Nat := bucketsFrom L h.tblSize.toNat 0

section
variable {u : HashUse V} {L F : Nat → List Nat}

theorem mem_liveBuckets {h : HashTable V} {b : Nat} :
    b ∈ liveBuckets h L ↔ ∃ i < h.tblSize.toNat, b ∈ L i := by
  unfold liveBuckets bucketsFrom
  rw [List.mem_flatMap]
  simp only [List.mem_range'_1, Nat.zero_le, true_and, Nat.zero_add, Nat.sub_zero]

theorem HashRep.slot_key (h : HashRep u L F) {i b : Nat} (hi : i < u.table.tblSize.toNat)
    (hb : b ∈ L i) : u.table.slot (u.table.mem.key b) = i :=
  (h.slots i hi).slot b hb

/-- the live buckets are the entries of the map -/
theorem HashRep.map_iff (h : HashRep u L F) (k : UInt32) (v : V) :
    u.map k = some v ↔
      ∃ b ∈ liveBuckets u.table L, u.table.mem.key b = k ∧ u.table.mem.value b = v := by
  rw [h.map, Option.map_eq_some_iff]
  constructor
  · rintro ⟨b, hb, hv⟩
    have hmem := List.mem_of_find?_eq_some hb
    have hkey : u.table.mem.key b = k := by simpa using List.find?_some hb
    exact ⟨b, mem_liveBuckets.mpr ⟨_, h.slot_lt k, hmem⟩, hkey, hv⟩
  · rintro ⟨b, hb, hk, hv⟩
    obtain ⟨i, hi, hb⟩ := mem_liveBuckets.mp hb
    have hslot : u.table.slot k = i := hk ▸ h.slot_key hi hb
    rw [hslot]
    refine ⟨b, ?_, hv⟩
    obtain ⟨b', hb'⟩ : ∃ b', bucketOf u.table.mem k (L i) = some b' := by
      rw [← Option.isSome_iff_exists, bucketOf, List.find?_isSome]
      exact ⟨b, hb, by simpa using hk⟩
    have hmem' := List.mem_of_find?_eq_some hb'
    have hkey' : u.table.mem.key b' = k := by simpa using List.find?_some hb'
    rw [hb', Option.some.injEq]
    exact List.inj_on_of_nodup_map (h.slots i hi).keys hmem' hb (hkey'.trans hk.symm)

/-- no key is visited twice -/
theorem HashRep.keys_nodup (h : HashRep u L F) :
    ((liveBuckets u.table L).map u.table.mem.key).Nodup := by
  unfold liveBuckets bucketsFrom
  rw [List.map_flatMap, List.nodup_flatMap]
  constructor
  · intro i hi
    exact (h.slots i (by simpa using (List.mem_range'_1.mp hi).2)).keys
  · refine List.Pairwise.imp_of_mem ?_ (List.nodup_range' ..)
    intro i j hi hj hij k hki hkj
    obtain ⟨b, hb, rfl⟩ := List.mem_map.mp hki
    obtain ⟨b', hb', hk⟩ := List.mem_map.mp hkj
    refine hij ?_
    rw [← h.slot_key (by simpa using (List.mem_range'_1.mp hi).2) hb,
      ← h.slot_key (by simpa using (List.mem_range'_1.mp hj).2) hb', hk]

/-- **The loop over a table** goes through every entry of the map once. -/
theorem HashRep.forEach (h : HashRep u L F) (body : S → UInt32 → V → S) (s : S) {fuel : Nat}
    (hf : (liveBuckets u.table L).length < fuel) :
    hashTableForEach u.table body fuel (hashTableIterInit u.table) s
      = some ((liveBuckets u.table L).foldl
          (fun s b => body s (u.table.mem.key b) (u.table.mem.value b)) s) := by
  have hseg : ∀ i < u.table.tblSize.toNat, Seg u.table.mem.next (u.table.tbl i).head (L i) none :=
    fun i hi => (h.slots i hi).live.forth
  exact (left_init hseg).forEach hseg hf s

end

/-! ## the calls one after the other -/

/-- the iterator after `n` calls of `txc_hash_table_iter_next`; `TXC_R_NULLITER` leaves it alone -/
def iterAfter (h : HashTable V) : Nat → HashIter
  | 0 => hashTableIterInit h
  | n + 1 =>
    match hashTableIterNext h (iterAfter h n) with
    | some (_, _, iter) => iter
    | none => iterAfter h n

/-- what call number `n` returns; `none`: `TXC_R_NULLITER` -/
def iterCall (h : HashTable V) (n : Nat) : Option (UInt32 × V) :=
  (hashTableIterNext h (iterAfter h n)).map fun r => (r.1, r.2.1)

section
variable {u : HashUse V} {L F : Nat → List Nat}

/-- after `n` calls the first `n` live buckets have been visited -/
theorem left_iterAfter {h : HashTable V}
    (hseg : ∀ i < h.tblSize.toNat, Seg h.mem.next (h.tbl i).head (L i) none) (n : Nat) :
    Left h L (iterAfter h n) ((liveBuckets h L).drop n) := by
  induction n with
  | zero => exact left_init hseg
  | succ n ih =>
    rw [iterAfter, ← List.tail_drop]
    cases hl : (liveBuckets h L).drop n with
    | nil =>
      rw [hl] at ih
      rw [ih.next_none hseg]
      exact ih
    | cons b l =>
      rw [hl] at ih
      obtain ⟨iter', hnext, hleft⟩ := ih.next_some hseg
      rw [hnext]
      exact hleft

theorem iterCall_eq {h : HashTable V}
    (hseg : ∀ i < h.tblSize.toNat, Seg h.mem.next (h.tbl i).head (L i) none) (n : Nat) :
    iterCall h n = ((liveBuckets h L).map fun b => (h.mem.key b, h.mem.value b))[n]? := by
  have hleft := left_iterAfter hseg n
  have hget : (liveBuckets h L)[n]? = ((liveBuckets h L).drop n).head? := by
    rw [List.head?_drop]
  rw [List.getElem?_map, hget, iterCall]
  cases hl : (liveBuckets h L).drop n with
  | nil =>
    rw [hl] at hleft
    rw [hleft.next_none hseg]
    rfl
  | cons b l =>
    rw [hl] at hleft
    obtain ⟨iter', hnext, _⟩ := hleft.next_some hseg
    rw [hnext]
    rfl

/-- the entries of the map, each once -/
theorem HashRep.entries (h : HashRep u L F) :
    (((liveBuckets u.table L).map fun b => (u.table.mem.key b, u.table.mem.value b)).map
        Prod.fst).Nodup ∧
      ∀ k v, (k, v) ∈ (liveBuckets u.table L).map (fun b => (u.table.mem.key b, u.table.mem.value b))
        ↔ u.map k = some v := by
  constructor
  · rw [List.map_map]
    exact h.keys_nodup
  · intro k v
    rw [h.map_iff k v]
    simp only [List.mem_map, Prod.mk.injEq]

end

/-- **The iterator is exact.**  After every run of additions, lookups and removals there is a list
that holds each entry of the map once and nothing else: call number `n` returns its entry `n`, and
every call behind its end returns `TXC_R_NULLITER`. -/
theorem hash_iter_exact (tableSize : UInt32) (hsize : 1 ≤ tableSize.toNat) (mem : Buckets V)
    {u : HashUse V}
    (h : Reach hashStep any (· = ⟨hashTableCreate tableSize mem, [], fun _ => none⟩) u) :
    ∃ entries : List (UInt32 × V),
      (entries.map Prod.fst).Nodup ∧ (∀ k v, (k, v) ∈ entries ↔ u.map k = some v) ∧
      (∀ n, iterCall u.table n = entries[n]?) ∧
      ∀ n, (iterCall u.table n).isSome = true ↔ n < entries.length := by
  obtain ⟨L, F, hrep⟩ := rep_hash_reach hsize h
  have hseg : ∀ i < u.table.tblSize.toNat, Seg u.table.mem.next (u.table.tbl i).head (L i) none :=
    fun i hi => (hrep.slots i hi).live.forth
  refine ⟨_, hrep.entries.1, hrep.entries.2, iterCall_eq hseg, fun n => ?_⟩
  rw [iterCall_eq hseg]
  simp

/-- two keys of one slot are left by the run `collidingOps` -/
theorem hash_iter_exact_colliding :
    ∃ u, run hashStep ⟨hashTableCreate 2 ⟨fun _ => some 0, fun _ => some 0, fun _ => 1, fun _ => 0⟩,
        [], fun _ => none⟩ collidingOps = some u ∧
      (List.range 4).map (iterCall u.table) = [some (5, 50), some (1, 10), none, none] ∧
      ∃ entries : List (UInt32 × Nat), (entries.map Prod.fst).Nodup ∧
        (∀ k v, (k, v) ∈ entries ↔ u.map k = some v) ∧ ∀ n, iterCall u.table n = entries[n]? := by
  have hrun : (run hashStep ⟨hashTableCreate 2
      ⟨fun _ => some 0, fun _ => some 0, fun _ => 1, fun _ => 0⟩, [], fun _ => none⟩
      collidingOps).map (fun u => (List.range 4).map (iterCall u.table))
        = some [some (5, 50), some (1, 10), none, none] := by
    decide +kernel
  obtain ⟨u, hu, hcalls⟩ := Option.map_eq_some_iff.mp hrun
  obtain ⟨entries, hnd, hmem, hcall, _⟩ := hash_iter_exact 2 (by decide) _ (reach_of_run _ hu)
  exact ⟨u, hu, hcalls, entries, hnd, hmem, hcall⟩

end XCalls
