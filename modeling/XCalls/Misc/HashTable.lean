import XCalls.Lib.Links
import XCalls.Lib.EventSys

/-!
# The hash table

`hash_table.c`: an array of bucket lists, each with a doubly linked list of live buckets and a list
of free ones.  A bucket is named by its address.

* `Buckets`, `HashTable`   the fields of all buckets, and `struct txc_hash_table_s`;
* `bucketListAdd`, `bucketListRemove`, `hashTableAdd`, `hashTableLookup`, `hashTableRemove`
                    the functions of `hash_table.c`, with the addresses they follow;
* `FinMap`          the finite map that the table stands for, and the three calls on it;
* `ListRep`, `HashRep`   the representation: `prev` is right in every bucket but the first;
* `hash_table_finite_map`   every call of every run returns what the finite map returns.

A result `none` is a `NULL` that is followed, or a walk that the fuel does not suffice for.
-/

set_option linter.unusedSectionVars false

namespace XCalls
open Links EventSys
variable {V : Type}

/-! ## the functions -/

structure Buckets (V : Type) where
  next : Nat → Option Nat
  prev : Nat → Option Nat
  key : Nat → UInt32
  value : Nat → V

/-- `struct txc_hash_table_bucket_list_s` -/
structure BucketList where
  head : Option Nat
  free : Option Nat
  deriving DecidableEq

structure HashTable (V : Type) where
  tblSize : UInt32
  tbl : Nat → BucketList
  mem : Buckets V

/-- `txc_hash_table_create`; `mem` is what is in memory -/
def hashTableCreate (tableSize : UInt32) (mem : Buckets V) : HashTable V :=
  ⟨tableSize, fun _ => ⟨none, none⟩, mem⟩

def bucketListAdd (m : Buckets V) (head : Option Nat) (bucket : Nat) : Buckets V :=
  { m with
    prev := Function.update (assign m.prev head (some bucket)) bucket none
    next := Function.update m.next bucket head }

/-- the memory, the new head, and the buckets that are looked at -/
def bucketListRemove (m : Buckets V) (head : Option Nat) (bucket : Nat) :
    Option (Buckets V × Option Nat × List Nat) :=
  if head = some bucket then
    some ({ m with prev := Function.update m.prev bucket none }, m.next bucket, [bucket])
  else
    match m.prev bucket with
    | none => none
    | some q =>
      let next := Function.update m.next q (m.next bucket)
      some ({ m with next, prev := assign m.prev (next bucket) (m.prev bucket) }, head,
        bucket :: q :: (next bucket).toList)

/-- `TXC_R_SUCCESS`, `TXC_R_EXISTS`, `TXC_R_NOTEXISTS` -/
inductive HashResult where
  | success
  | exists
  | notexists
  deriving DecidableEq, Repr

/-- what a call returns, what it stores in `*value`, the table, and the buckets it looks at -/
structure HashOut (V : Type) where
  result : HashResult
  value : Option V
  table : HashTable V
  accessed : List Nat

/-- what `MALLOC` returns: an address, and whatever is there -/
structure Fresh (V : Type) where
  addr : Nat
  next : Option Nat
  prev : Option Nat
  key : UInt32
  value : V

def Buckets.write (m : Buckets V) (f : Fresh V) : Buckets V :=
  ⟨Function.update m.next f.addr f.next, Function.update m.prev f.addr f.prev,
    Function.update m.key f.addr f.key, Function.update m.value f.addr f.value⟩

namespace HashTable

/-- `key % h->tbl_size` -/
def slot (h : HashTable V) (key : UInt32) : Nat := (key % h.tblSize).toNat

/-- the walk of all three calls -/
def walk (h : HashTable V) (fuel : Nat) (key : UInt32) : Option (List Nat × Option Nat) :=
  probe h.mem.next (fun b => h.mem.key b = key) fuel (h.tbl (h.slot key)).head

end HashTable

/-- the end of `txc_hash_table_add`, with the bucket it has found -/
def hashTableInsert (h : HashTable V) (m : Buckets V) (free : Option Nat) (key : UInt32) (value : V)
    (bucket : Nat) (accessed : List Nat) : HashOut V :=
  let m := { m with
    key := Function.update m.key bucket key
    value := Function.update m.value bucket value }
  let head := (h.tbl (h.slot key)).head
  { result := .success
    value := none
    table := { h with
      tbl := Function.update h.tbl (h.slot key) ⟨some bucket, free⟩
      mem := bucketListAdd m head bucket }
    accessed := accessed ++ head.toList ++ [bucket] }

/-- `txc_hash_table_add`; `fresh` is what `MALLOC` returns if it is called -/
def hashTableAdd (fuel : Nat) (h : HashTable V) (key : UInt32) (value : V) (fresh : Fresh V) :
    Option (HashOut V) :=
  (h.walk fuel key).bind fun
    | (seen, some _) => some ⟨.exists, none, h, seen⟩
    | (seen, none) =>
      match (h.tbl (h.slot key)).free with
      | some bucket => (bucketListRemove h.mem (some bucket) bucket).map fun (m, free, acc) =>
          hashTableInsert h m free key value bucket (seen ++ acc)
      | none => some (hashTableInsert h (h.mem.write fresh) none key value fresh.addr seen)

/-- `txc_hash_table_lookup` -/
def hashTableLookup (fuel : Nat) (h : HashTable V) (key : UInt32) : Option (HashOut V) :=
  (h.walk fuel key).map fun
    | (seen, some bucket) => ⟨.success, some (h.mem.value bucket), h, seen⟩
    | (seen, none) => ⟨.notexists, none, h, seen⟩

/-- `txc_hash_table_remove` -/
def hashTableRemove (fuel : Nat) (h : HashTable V) (key : UInt32) : Option (HashOut V) :=
  (h.walk fuel key).bind fun
    | (seen, some bucket) =>
      let bl := h.tbl (h.slot key)
      (bucketListRemove h.mem bl.head bucket).map fun (m, head, acc) =>
        { result := .success
          value := some (h.mem.value bucket)
          table := { h with
            tbl := Function.update h.tbl (h.slot key) ⟨head, some bucket⟩
            mem := bucketListAdd m bl.free bucket }
          accessed := seen ++ acc ++ bl.free.toList ++ [bucket] }
    | (seen, none) => some ⟨.notexists, none, h, seen⟩

/-! ## the finite map -/

abbrev FinMap (V : Type) := UInt32 → Option V

inductive HashOp (V : Type) where
  | add (key : UInt32) (value : V) (fresh : Fresh V)
  | lookup (key : UInt32)
  | remove (key : UInt32)

namespace HashOp

def key : HashOp V → UInt32
  | add k _ _ => k
  | lookup k => k
  | remove k => k

/-- the call on the table -/
def call (fuel : Nat) (h : HashTable V) : HashOp V → Option (HashOut V)
  | add k v fresh => hashTableAdd fuel h k v fresh
  | lookup k => hashTableLookup fuel h k
  | remove k => hashTableRemove fuel h k

/-- the call on the finite map: result, value, and the map afterwards -/
def spec (f : FinMap V) : HashOp V → HashResult × Option V × FinMap V
  | add k v _ =>
    if (f k).isSome then (.exists, none, f) else (.success, none, Function.update f k (some v))
  | lookup k => if (f k).isSome then (.success, f k, f) else (.notexists, none, f)
  | remove k =>
    if (f k).isSome then (.success, f k, Function.update f k none) else (.notexists, none, f)

end HashOp

/-! ## runs -/

/-- a table, the buckets it has got from `MALLOC`, and the map -/
structure HashUse (V : Type) where
  table : HashTable V
  buckets : List Nat
  map : FinMap V

/-- `MALLOC` does not return a bucket of the table -/
def freshFor (buckets : List Nat) : HashOp V → Prop
  | .add _ _ fresh => fresh.addr ∉ buckets
  | _ => True

instance (buckets : List Nat) (op : HashOp V) : Decidable (freshFor buckets op) :=
  match op with
  | .add _ _ fresh => inferInstanceAs (Decidable (fresh.addr ∉ buckets))
  | .lookup _ => instDecidableTrue
  | .remove _ => instDecidableTrue

def newBucket : HashOp V → List Nat
  | .add _ _ fresh => [fresh.addr]
  | _ => []

def hashStep (u : HashUse V) (op : HashOp V) : Option (HashUse V) :=
  if freshFor u.buckets op then
    (op.call u.buckets.length u.table).map fun out =>
      ⟨out.table, newBucket op ++ u.buckets, (op.spec u.map).2.2⟩
  else none

/-! ## one bucket list -/

/-- a list of live buckets: `prev` is right in every bucket but the first -/
structure ListRep (m : Buckets V) (head : Option Nat) (l : List Nat) : Prop where
  forth : Seg m.next head l none
  back : ∀ a l', l = a :: l' → Back m.prev (some a) l'

/-- the two memories have the same fields at `b` -/
structure SameAt (m m' : Buckets V) (b : Nat) : Prop where
  next : m'.next b = m.next b
  prev : m'.prev b = m.prev b
  key : m'.key b = m.key b
  value : m'.value b = m.value b

theorem ListRep.congr {m m' : Buckets V} {head : Option Nat} {l : List Nat}
    (h : ListRep m head l) (hs : ∀ b ∈ l, SameAt m m' b) : ListRep m' head l := by
  refine ⟨h.forth.congr fun b hb => (hs b hb).next, fun a l' hl => ?_⟩
  exact (h.back a l' hl).congr fun b hb => (hs b (hl ▸ List.mem_cons_of_mem _ hb)).prev

section
variable {m : Buckets V} {head : Option Nat} {bucket : Nat} {l : List Nat}

theorem sameAt_bucketListAdd {b : Nat} (hb : b ≠ bucket) (hh : head ≠ some b) :
    SameAt m (bucketListAdd m head bucket) b := by
  refine ⟨Function.update_of_ne hb _ _, ?_, rfl, rfl⟩
  show Function.update (assign m.prev head (some bucket)) bucket none b = m.prev b
  rw [Function.update_of_ne hb, assign_of_ne _ _ hh]

theorem ListRep.add (h : ListRep m head l) (hnd : l.Nodup) (hb : bucket ∉ l) :
    ListRep (bucketListAdd m head bucket) (some bucket) (bucket :: l) := by
  refine ⟨h.forth.push hb, fun a l' hl => ?_⟩
  cases hl
  have hhead : head = l.head? := h.forth.head
  show Back (Function.update (assign m.prev head (some bucket)) bucket none) (some bucket) l
  rw [hhead]
  refine Back.update ?_ hb none
  cases l with
  | nil => trivial
  | cons a l => exact ⟨Function.update_self .., (h.back a l rfl).update (List.nodup_cons.mp hnd).1 _⟩

theorem seg_bucketListAdd (h : Seg m.next head l none) (hb : bucket ∉ l) :
    Seg (bucketListAdd m head bucket).next (some bucket) (bucket :: l) none :=
  h.push hb

/-- `bucket_list_remove` of a live bucket: its `prev` is used only when it is not the first one -/
theorem ListRep.remove {l₁ l₂ : List Nat} (h : ListRep m head (l₁ ++ bucket :: l₂))
    (hnd : (l₁ ++ bucket :: l₂).Nodup) :
    ∃ m' head' acc, bucketListRemove m head bucket = some (m', head', acc) ∧
      ListRep m' head' (l₁ ++ l₂) ∧ (∀ b, b ∉ l₁ ++ bucket :: l₂ → SameAt m m' b) ∧
      m'.key = m.key ∧ m'.value = m.value ∧ ∀ b ∈ acc, b ∈ l₁ ++ bucket :: l₂ := by
  have hnext : m.next bucket = l₂.head? := h.forth.at
  cases l₁ with
  | nil =>
    have hhead : head = some bucket := h.forth.1
    refine ⟨{ m with prev := Function.update m.prev bucket none }, m.next bucket, [bucket], ?_, ?_,
      ?_, rfl, rfl, ?_⟩
    · unfold bucketListRemove
      rw [if_pos hhead]
    · refine ⟨h.forth.2, fun a l' hl => ?_⟩
      have hback := h.back bucket l₂ rfl
      have hl : l₂ = a :: l' := hl
      rw [hl] at hback
      refine hback.2.update ?_ none
      intro hmem
      exact (List.nodup_cons.mp hnd).1 (by rw [hl]; exact List.mem_cons_of_mem _ hmem)
    · intro b hb
      have hne : b ≠ bucket := fun he => hb (he ▸ List.mem_cons_self)
      exact ⟨rfl, Function.update_of_ne hne _ _, rfl, rfl⟩
    · intro b hb
      rw [List.mem_singleton.mp hb]
      exact List.mem_cons_self
  | cons a l₁ =>
    have hhead : head = some a := h.forth.1
    have hback : Back m.prev (some a) (l₁ ++ bucket :: l₂) := h.back a _ rfl
    have hnd' := List.nodup_cons.mp hnd
    have hne : head ≠ some bucket := by
      rw [hhead]
      rintro hc
      cases hc
      exact hnd'.1 (by simp)
    -- the bucket before this one
    obtain ⟨q, hq⟩ : ∃ q, (a :: l₁).getLast? = some q := by
      rw [List.getLast?_cons]
      exact ⟨_, rfl⟩
    have hprev : m.prev bucket = some q := by
      rw [hback.at, ← hq, List.getLast?_cons]
      cases l₁.getLast? <;> rfl
    have hqmem : q ∈ a :: l₁ := List.mem_of_getLast? hq
    have hqb : bucket ≠ q := by
      rintro rfl
      have := List.nodup_append.mp hnd
      exact this.2.2 bucket hqmem bucket List.mem_cons_self rfl
    have hsame : Function.update m.next q (m.next bucket) bucket = m.next bucket :=
      Function.update_of_ne hqb _ _
    refine ⟨{ m with
        next := Function.update m.next q (m.next bucket)
        prev := assign m.prev (m.next bucket) (m.prev bucket) }, head,
      bucket :: q :: (m.next bucket).toList, ?_, ?_, ?_, rfl, rfl, ?_⟩
    · unfold bucketListRemove
      simp only [if_neg hne, hprev, hsame]
    · refine ⟨?_, fun a' l' hl => ?_⟩
      · have hunlink := h.forth.unlink hnd
        rw [hq] at hunlink
        exact hunlink
      · cases hl
        have hunlink := hback.unlink hnd'.2
        rw [← hnext] at hunlink
        exact hunlink
    · intro b hb
      have hbq : b ≠ q := fun he => hb (he ▸ List.mem_append_left _ hqmem)
      refine ⟨Function.update_of_ne hbq _ _, assign_of_ne _ _ fun hc => hb ?_, rfl, rfl⟩
      rw [hnext] at hc
      exact List.mem_append_right _ (List.mem_cons_of_mem _ (List.mem_of_head? hc))
    · intro b hb
      rw [hnext] at hb
      rcases List.mem_cons.mp hb with rfl | hb
      · simp
      · rcases List.mem_cons.mp hb with rfl | hb
        · exact List.mem_append_left _ hqmem
        · have hh : b ∈ l₂.head? := by simpa using hb
          exact List.mem_append_right _ (List.mem_cons_of_mem _ (List.mem_of_head? hh))

end

/-! ## one slot of the table -/

structure SlotRep (m : Buckets V) (n : UInt32) (i : Nat) (bl : BucketList) (l f : List Nat) :
    Prop where
  live : ListRep m bl.head l
  free : Seg m.next bl.free f none
  nodup : (l ++ f).Nodup
  slot : ∀ b ∈ l, (m.key b % n).toNat = i
  keys : (l.map m.key).Nodup

section
variable {m m' : Buckets V} {n : UInt32} {i : Nat} {bl : BucketList} {l f : List Nat}
  {bucket : Nat} {k : UInt32}

theorem SlotRep.congr (h : SlotRep m n i bl l f) (hs : ∀ b ∈ l ++ f, SameAt m m' b) :
    SlotRep m' n i bl l f := by
  have hl : ∀ b ∈ l, SameAt m m' b := fun b hb => hs b (List.mem_append_left _ hb)
  refine ⟨h.live.congr hl, ?_, h.nodup, fun b hb => ?_, ?_⟩
  · exact h.free.congr fun b hb => (hs b (List.mem_append_right _ hb)).next
  · rw [(hl b hb).key]
    exact h.slot b hb
  · rw [List.map_congr_left fun b hb => (hl b hb).key]
    exact h.keys

/-- the first free bucket is taken off the free list -/
theorem SlotRep.takeFree (h : SlotRep m n i bl l (bucket :: f)) :
    bucketListRemove m bl.free bucket
        = some ({ m with prev := Function.update m.prev bucket none }, m.next bucket, [bucket]) ∧
      SlotRep { m with prev := Function.update m.prev bucket none } n i ⟨bl.head, m.next bucket⟩
        l f ∧ bucket ∉ l ++ f := by
  obtain ⟨hhead, hfree⟩ := h.free
  have hnd : (bucket :: (l ++ f)).Nodup := List.perm_middle.nodup_iff.mp h.nodup
  obtain ⟨hb, hnd⟩ := List.nodup_cons.mp hnd
  refine ⟨?_, ?_, hb⟩
  · unfold bucketListRemove
    rw [if_pos hhead]
  · have h0 : SlotRep m n i ⟨bl.head, m.next bucket⟩ l f := ⟨h.live, hfree, hnd, h.slot, h.keys⟩
    refine h0.congr fun b hm => ?_
    have hne : b ≠ bucket := fun he => hb (he ▸ hm)
    exact ⟨rfl, Function.update_of_ne hne _ _, rfl, rfl⟩

/-- the memory at the end of `txc_hash_table_add` -/
def insertMem (m : Buckets V) (head : Option Nat) (k : UInt32) (v : V) (bucket : Nat) : Buckets V :=
  bucketListAdd { m with
    key := Function.update m.key bucket k
    value := Function.update m.value bucket v } head bucket

theorem sameAt_insertMem {head : Option Nat} {v : V} {b : Nat} (hb : b ≠ bucket)
    (hh : head ≠ some b) : SameAt m (insertMem m head k v bucket) b := by
  have h := sameAt_bucketListAdd (m := { m with
    key := Function.update m.key bucket k
    value := Function.update m.value bucket v }) hb hh
  exact ⟨h.next, h.prev, Function.update_of_ne hb _ _, Function.update_of_ne hb _ _⟩

theorem SlotRep.insert (h : SlotRep m n i bl l f) (hb : bucket ∉ l ++ f)
    (hk : (k % n).toNat = i) (hnew : ∀ b ∈ l, m.key b ≠ k) (v : V) :
    SlotRep (insertMem m bl.head k v bucket) n i ⟨some bucket, bl.free⟩ (bucket :: l) f := by
  have hbl : bucket ∉ l := fun hm => hb (List.mem_append_left _ hm)
  have hbf : bucket ∉ f := fun hm => hb (List.mem_append_right _ hm)
  have hndl : l.Nodup := (List.nodup_append.mp h.nodup).1
  have hself : (insertMem m bl.head k v bucket).key bucket = k := Function.update_self ..
  have hkey : ∀ b ∈ l, (insertMem m bl.head k v bucket).key b = m.key b := by
    intro b hm
    have hne : b ≠ bucket := fun he => hbl (he ▸ hm)
    exact Function.update_of_ne hne _ _
  have hlive : ListRep { m with
      key := Function.update m.key bucket k
      value := Function.update m.value bucket v } bl.head l := ⟨h.live.forth, h.live.back⟩
  refine ⟨hlive.add hndl hbl, h.free.update hbf _, List.nodup_cons.mpr ⟨hb, h.nodup⟩, ?_, ?_⟩
  · intro b hm
    rcases List.mem_cons.mp hm with rfl | hm
    · rw [hself]
      exact hk
    · rw [hkey b hm]
      exact h.slot b hm
  · rw [List.map_cons, hself, List.map_congr_left hkey]
    refine List.nodup_cons.mpr ⟨fun hm => ?_, h.keys⟩
    obtain ⟨b, hbm, hbk⟩ := List.mem_map.mp hm
    exact hnew b hbm hbk

/-- a live bucket goes to the free list -/
theorem SlotRep.remove {l₁ l₂ : List Nat} (h : SlotRep m n i bl (l₁ ++ bucket :: l₂) f) :
    ∃ m₁ head acc, bucketListRemove m bl.head bucket = some (m₁, head, acc) ∧
      SlotRep (bucketListAdd m₁ bl.free bucket) n i ⟨head, some bucket⟩ (l₁ ++ l₂) (bucket :: f) ∧
      (∀ b, b ∉ (l₁ ++ bucket :: l₂) ++ f → SameAt m (bucketListAdd m₁ bl.free bucket) b) ∧
      (bucketListAdd m₁ bl.free bucket).key = m.key ∧
      (bucketListAdd m₁ bl.free bucket).value = m.value ∧
      ∀ b ∈ acc, b ∈ l₁ ++ bucket :: l₂ := by
  obtain ⟨hndl, hndf, hdis⟩ := List.nodup_append.mp h.nodup
  obtain ⟨m₁, head, acc, hrem, hrep, hsame, hkey, hvalue, hacc⟩ := h.live.remove hndl
  have hnd : (bucket :: (l₁ ++ l₂)).Nodup := List.perm_middle.nodup_iff.mp hndl
  obtain ⟨hrest, hnd⟩ := List.nodup_cons.mp hnd
  have hsub : ∀ b ∈ l₁ ++ l₂, b ∈ l₁ ++ bucket :: l₂ := by
    intro b hb
    simp only [List.mem_append, List.mem_cons] at hb ⊢
    rcases hb with hb | hb
    · exact .inl hb
    · exact .inr (.inr hb)
  have hbf : bucket ∉ f := fun hm => hdis bucket (by simp) bucket hm rfl
  have hfhead : bl.free = f.head? := h.free.head
  -- the free list is untouched by the removal, and its old head only gets a new `prev`
  have hfree : Seg m₁.next bl.free f none := h.free.congr fun b hb =>
    (hsame b fun hm => hdis b hm b hb rfl).next
  have hhead_ne : ∀ b ∈ l₁ ++ l₂, bl.free ≠ some b := by
    intro b hb hc
    rw [hfhead] at hc
    exact hdis b (hsub b hb) b (List.mem_of_head? hc) rfl
  refine ⟨m₁, head, acc, hrem, ⟨?_, seg_bucketListAdd hfree hbf, ?_, ?_, ?_⟩, ?_, hkey, hvalue,
    hacc⟩
  · refine hrep.congr fun b hb => sameAt_bucketListAdd (fun he => hrest (he ▸ hb)) (hhead_ne b hb)
  · have hp : ((l₁ ++ l₂) ++ bucket :: f).Perm ((l₁ ++ bucket :: l₂) ++ f) :=
      List.perm_middle.trans (List.perm_middle.symm.append_right f)
    exact hp.nodup_iff.mpr h.nodup
  · intro b hb
    show (m₁.key b % n).toNat = i
    rw [hkey]
    exact h.slot b (hsub b hb)
  · show ((l₁ ++ l₂).map m₁.key).Nodup
    rw [hkey]
    refine h.keys.sublist (List.Sublist.map _ ?_)
    exact List.Sublist.append_left (List.sublist_cons_self _ _) _
  · intro b hb
    have h1 := hsame b fun hm => hb (List.mem_append_left _ hm)
    have hne : b ≠ bucket := fun he => hb (List.mem_append_left _ (he ▸ (by simp)))
    have hf : bl.free ≠ some b := by
      rw [hfhead]
      exact fun hc => hb (List.mem_append_right _ (List.mem_of_head? hc))
    have h2 : SameAt m₁ (bucketListAdd m₁ bl.free bucket) b := sameAt_bucketListAdd hne hf
    exact ⟨h2.next.trans h1.next, h2.prev.trans h1.prev, h2.key.trans h1.key,
      h2.value.trans h1.value⟩

end

/-! ## the table -/

/-- the first live bucket with a key -/
def bucketOf (m : Buckets V) (k : UInt32) (l : List Nat) : Option Nat :=
  l.find? fun b => m.key b = k

theorem bucketOf_cons (m : Buckets V) (k : UInt32) (a : Nat) (l : List Nat) :
    bucketOf m k (a :: l) = if m.key a = k then some a else bucketOf m k l := by
  unfold bucketOf
  rw [List.find?_cons]
  by_cases h : m.key a = k <;> simp [h]

theorem bucketOf_congr {m m' : Buckets V} {k : UInt32} {l : List Nat}
    (h : ∀ b ∈ l, m'.key b = m.key b ∧ m'.value b = m.value b) :
    (bucketOf m' k l).map m'.value = (bucketOf m k l).map m.value := by
  induction l with
  | nil => rfl
  | cons a l ih =>
    have ha := h a List.mem_cons_self
    rw [bucketOf_cons, bucketOf_cons, ha.1]
    split
    · rw [Option.map_some, Option.map_some, ha.2]
    · exact ih fun b hb => h b (List.mem_cons_of_mem _ hb)

structure HashRep (u : HashUse V) (L F : Nat → List Nat) : Prop where
  size : 1 ≤ u.table.tblSize.toNat
  slots : ∀ i < u.table.tblSize.toNat,
    SlotRep u.table.mem u.table.tblSize i (u.table.tbl i) (L i) (F i)
  apart : ∀ i j b, i < u.table.tblSize.toNat → j < u.table.tblSize.toNat →
    b ∈ L i ++ F i → b ∈ L j ++ F j → i = j
  known : ∀ i < u.table.tblSize.toNat, ∀ b ∈ L i ++ F i, b ∈ u.buckets
  map : ∀ k, u.map k = (bucketOf u.table.mem k (L (u.table.slot k))).map u.table.mem.value

section
variable {u : HashUse V} {L F : Nat → List Nat}

theorem HashRep.slot_lt (h : HashRep u L F) (k : UInt32) :
    u.table.slot k < u.table.tblSize.toNat := by
  show (k % u.table.tblSize).toNat < _
  rw [UInt32.toNat_mod]
  exact Nat.mod_lt _ h.size

theorem HashRep.slotRep (h : HashRep u L F) (k : UInt32) :
    SlotRep u.table.mem u.table.tblSize (u.table.slot k) (u.table.tbl (u.table.slot k))
      (L (u.table.slot k)) (F (u.table.slot k)) := h.slots _ (h.slot_lt k)

/-- the walk of a call ends and finds the bucket of the key -/
theorem HashRep.walk_eq (h : HashRep u L F) (k : UInt32) :
    ∃ seen, (∀ fuel ≥ u.buckets.length, u.table.walk fuel k
        = some (seen, bucketOf u.table.mem k (L (u.table.slot k)))) ∧
      ∀ b ∈ seen, b ∈ L (u.table.slot k) := by
  have hlen : (L (u.table.slot k)).length ≤ u.buckets.length := by
    have hnd := (List.nodup_append.mp (h.slotRep k).nodup).1
    refine (List.Nodup.subperm hnd fun b hb => ?_).length_le
    exact h.known _ (h.slot_lt k) b (List.mem_append_left _ hb)
  obtain ⟨seen, hprobe, hseen⟩ :=
    (h.slotRep k).live.forth.probe_eq fun b => u.table.mem.key b = k
  exact ⟨seen, fun fuel hf => hprobe fuel (Nat.le_trans hlen hf), hseen⟩

theorem HashRep.more (h : HashRep u L F) (bs : List Nat) :
    HashRep ⟨u.table, bs ++ u.buckets, u.map⟩ L F :=
  ⟨h.size, h.slots, h.apart, fun i hi b hb => List.mem_append_right _ (h.known i hi b hb), h.map⟩

/-- one slot is replaced; `extra` are buckets that are new in the table -/
theorem HashRep.put (h : HashRep u L F) {i : Nat} (hi : i < u.table.tblSize.toNat)
    {m : Buckets V} {bl : BucketList} {l f extra bs : List Nat} {map : FinMap V}
    (hslot : SlotRep m u.table.tblSize i bl l f)
    (hsame : ∀ b, b ∉ L i ++ F i → b ∉ extra → SameAt u.table.mem m b)
    (hsub : ∀ b ∈ l ++ f, b ∈ L i ++ F i ∨ b ∈ extra)
    (hextra : ∀ b ∈ extra, b ∉ u.buckets ∧ b ∈ bs)
    (hin : ∀ k, u.table.slot k = i → map k = (bucketOf m k l).map m.value)
    (hout : ∀ k, u.table.slot k ≠ i → map k = u.map k) :
    HashRep ⟨⟨u.table.tblSize, Function.update u.table.tbl i bl, m⟩, bs ++ u.buckets, map⟩
      (Function.update L i l) (Function.update F i f) := by
  -- the buckets of another slot are neither of this slot nor new
  have hother : ∀ j < u.table.tblSize.toNat, j ≠ i → ∀ b ∈ L j ++ F j,
      b ∉ L i ++ F i ∧ b ∉ extra := by
    intro j hj hji b hb
    refine ⟨fun hc => hji (h.apart j i b hj hi hb hc), fun hc => ?_⟩
    exact (hextra b hc).1 (h.known j hj b hb)
  have hsame' : ∀ j < u.table.tblSize.toNat, j ≠ i → ∀ b ∈ L j ++ F j, SameAt u.table.mem m b := by
    intro j hj hji b hb
    obtain ⟨h1, h2⟩ := hother j hj hji b hb
    exact hsame b h1 h2
  refine ⟨h.size, fun j hj => ?_, fun j j' b hj hj' hb hb' => ?_, fun j hj b hb => ?_, fun k => ?_⟩
  · by_cases hji : j = i
    · subst hji
      simp only [Function.update_self]
      exact hslot
    · simp only [Function.update_of_ne hji]
      exact (h.slots j hj).congr (hsame' j hj hji)
  · by_cases hji : j = i
    · by_cases hji' : j' = i
      · rw [hji, hji']
      · subst hji
        simp only [Function.update_self] at hb
        simp only [Function.update_of_ne hji'] at hb'
        obtain ⟨h1, h2⟩ := hother j' hj' hji' b hb'
        exact ((hsub b hb).elim h1 h2).elim
    · by_cases hji' : j' = i
      · subst hji'
        simp only [Function.update_self] at hb'
        simp only [Function.update_of_ne hji] at hb
        obtain ⟨h1, h2⟩ := hother j hj hji b hb
        exact ((hsub b hb').elim h1 h2).elim
      · simp only [Function.update_of_ne hji] at hb
        simp only [Function.update_of_ne hji'] at hb'
        exact h.apart j j' b hj hj' hb hb'
  · by_cases hji : j = i
    · subst hji
      simp only [Function.update_self] at hb
      rcases hsub b hb with hb | hb
      · exact List.mem_append_right _ (h.known j hj b hb)
      · exact List.mem_append_left _ (hextra b hb).2
    · simp only [Function.update_of_ne hji] at hb
      exact List.mem_append_right _ (h.known j hj b hb)
  · show map k = (bucketOf m k (Function.update L i l (u.table.slot k))).map m.value
    by_cases hk : u.table.slot k = i
    · rw [hk, Function.update_self]
      exact hin k hk
    · rw [Function.update_of_ne hk, hout k hk, h.map k]
      refine (bucketOf_congr fun b hb => ?_).symm
      have hs := hsame' _ (h.slot_lt k) hk b (List.mem_append_left _ hb)
      exact ⟨hs.key, hs.value⟩

/-! ## the calls -/

theorem bucketOf_some {m : Buckets V} {k : UInt32} {l : List Nat} {b : Nat}
    (h : bucketOf m k l = some b) : b ∈ l ∧ m.key b = k :=
  ⟨List.mem_of_find?_eq_some h, by simpa using List.find?_some h⟩

theorem bucketOf_none {m : Buckets V} {k : UInt32} {l : List Nat} (h : bucketOf m k l = none) :
    ∀ b ∈ l, m.key b ≠ k := by
  intro b hb
  simpa using List.find?_eq_none.mp h b hb

/-- a call on a represented table: what it returns, the representation afterwards, and the buckets
it looks at -/
def CallOk (u : HashUse V) (op : HashOp V) (L F : Nat → List Nat) (out : HashOut V) : Prop :=
  out.result = (op.spec u.map).1 ∧ out.value = (op.spec u.map).2.1 ∧
    (∃ L' F', HashRep ⟨out.table, newBucket op ++ u.buckets, (op.spec u.map).2.2⟩ L' F') ∧
    ∀ b ∈ out.accessed, b ∈ L (u.table.slot op.key) ++ F (u.table.slot op.key) ∨ b ∈ newBucket op

theorem HashRep.spec_some (h : HashRep u L F) {k : UInt32} {b : Nat}
    (hb : bucketOf u.table.mem k (L (u.table.slot k)) = some b) :
    (u.map k).isSome = true ∧ u.map k = some (u.table.mem.value b) := by
  have hm := h.map k
  rw [hb, Option.map_some] at hm
  rw [hm]
  exact ⟨rfl, rfl⟩

theorem HashRep.spec_none (h : HashRep u L F) {k : UInt32}
    (hb : bucketOf u.table.mem k (L (u.table.slot k)) = none) : u.map k = none := by
  rw [h.map k, hb, Option.map_none]

/-- the end of an addition: `m` is the memory after a bucket has been obtained -/
theorem HashRep.insert (h : HashRep u L F) {k : UInt32} {v : V} {m : Buckets V}
    {free : Option Nat} {f extra bs acc : List Nat} {bucket : Nat}
    (hnone : bucketOf u.table.mem k (L (u.table.slot k)) = none)
    (hslot : SlotRep m u.table.tblSize (u.table.slot k)
      ⟨(u.table.tbl (u.table.slot k)).head, free⟩ (L (u.table.slot k)) f)
    (hb : bucket ∉ L (u.table.slot k) ++ f)
    (hsame : ∀ b ≠ bucket, SameAt u.table.mem m b)
    (hown : bucket ∈ F (u.table.slot k) ∨ bucket ∈ extra)
    (hf : ∀ b ∈ f, b ∈ F (u.table.slot k))
    (hextra : ∀ b ∈ extra, b ∉ u.buckets ∧ b ∈ bs) :
    ∃ L' F', HashRep ⟨(hashTableInsert u.table m free k v bucket acc).table, bs ++ u.buckets,
      Function.update u.map k (some v)⟩ L' F' := by
  have hnew := bucketOf_none hnone
  have hbl : bucket ∉ L (u.table.slot k) := fun hm => hb (List.mem_append_left _ hm)
  have hkey : ∀ b ∈ L (u.table.slot k), m.key b = u.table.mem.key b := fun b hm =>
    (hsame b fun he => hbl (he ▸ hm)).key
  have hins := hslot.insert hb (k := k) rfl (fun b hm => by rw [hkey b hm]; exact hnew b hm) v
  have hhead : (u.table.tbl (u.table.slot k)).head = (L (u.table.slot k)).head? :=
    (h.slotRep k).live.forth.head
  have hother : ∀ b, b ≠ bucket → b ∉ L (u.table.slot k) →
      SameAt u.table.mem (insertMem m (u.table.tbl (u.table.slot k)).head k v bucket) b := by
    intro b hne hm
    have h1 := hsame b hne
    have h2 : SameAt m (insertMem m (u.table.tbl (u.table.slot k)).head k v bucket) b := by
      refine sameAt_insertMem hne ?_
      rw [hhead]
      exact fun hc => hm (List.mem_of_head? hc)
    exact ⟨h2.next.trans h1.next, h2.prev.trans h1.prev, h2.key.trans h1.key,
      h2.value.trans h1.value⟩
  refine ⟨_, _, h.put (h.slot_lt k) hins ?_ ?_ hextra ?_ ?_⟩
  · intro b hb1 hb2
    refine hother b ?_ fun hm => hb1 (List.mem_append_left _ hm)
    rintro rfl
    exact hown.elim (fun hm => hb1 (List.mem_append_right _ hm)) hb2
  · intro b hm
    rcases List.mem_cons.mp hm with rfl | hm
    · exact hown.imp_left (List.mem_append_right _)
    · rcases List.mem_append.mp hm with hm | hm
      · exact .inl (List.mem_append_left _ hm)
      · exact .inl (List.mem_append_right _ (hf b hm))
  · intro k' hk'
    have hself : (insertMem m (u.table.tbl (u.table.slot k)).head k v bucket).key bucket = k :=
      Function.update_self ..
    have hval : (insertMem m (u.table.tbl (u.table.slot k)).head k v bucket).value bucket = v :=
      Function.update_self ..
    show Function.update u.map k (some v) k'
      = (bucketOf (insertMem m (u.table.tbl (u.table.slot k)).head k v bucket) k'
          (bucket :: L (u.table.slot k))).map
            (insertMem m (u.table.tbl (u.table.slot k)).head k v bucket).value
    rw [bucketOf_cons, hself]
    by_cases hkk : k = k'
    · subst hkk
      rw [if_pos rfl, Function.update_self, Option.map_some, hval]
    · have hkk' : k' ≠ k := fun he => hkk he.symm
      rw [if_neg hkk, Function.update_of_ne hkk', h.map k', hk']
      -- the other buckets of the slot keep their keys and values
      have heq : ∀ b ∈ L (u.table.slot k),
          (insertMem m (u.table.tbl (u.table.slot k)).head k v bucket).key b = u.table.mem.key b ∧
          (insertMem m (u.table.tbl (u.table.slot k)).head k v bucket).value b
            = u.table.mem.value b := by
        intro b hm
        have hne : b ≠ bucket := fun he => hbl (he ▸ hm)
        have h1 := hsame b hne
        exact ⟨(Function.update_of_ne hne _ _).trans h1.key,
          (Function.update_of_ne hne _ _).trans h1.value⟩
      exact (bucketOf_congr heq).symm
  · intro k' hk'
    have hkk : k' ≠ k := fun he => hk' (by rw [he])
    exact Function.update_of_ne hkk _ _

theorem sameAt_write {m : Buckets V} {f : Fresh V} {b : Nat} (hb : b ≠ f.addr) :
    SameAt m (m.write f) b :=
  ⟨Function.update_of_ne hb _ _, Function.update_of_ne hb _ _, Function.update_of_ne hb _ _,
    Function.update_of_ne hb _ _⟩

/-- the buckets that the end of an addition looks at -/
theorem HashRep.insert_accessed (h : HashRep u L F) {k : UInt32} {v : V} {m : Buckets V}
    {free : Option Nat} {acc : List Nat} {bucket : Nat} {P : Nat → Prop}
    (hL : ∀ b ∈ L (u.table.slot k), P b) (hacc : ∀ b ∈ acc, P b) (hb : P bucket) :
    ∀ b ∈ (hashTableInsert u.table m free k v bucket acc).accessed, P b := by
  intro b hm
  have hhead : (u.table.tbl (u.table.slot k)).head = (L (u.table.slot k)).head? :=
    (h.slotRep k).live.forth.head
  rcases List.mem_append.mp hm with hm | hm
  · rcases List.mem_append.mp hm with hm | hm
    · exact hacc b hm
    · rw [hhead, Option.mem_toList] at hm
      exact hL b (List.mem_of_head? hm)
  · rw [List.mem_singleton.mp hm]
    exact hb

theorem HashRep.add (h : HashRep u L F) (k : UInt32) (v : V) (fresh : Fresh V)
    (hfresh : fresh.addr ∉ u.buckets) {fuel : Nat} (hf : u.buckets.length ≤ fuel) :
    ∃ out, hashTableAdd fuel u.table k v fresh = some out ∧
      CallOk u (.add k v fresh) L F out := by
  obtain ⟨seen, hwalk, hseen⟩ := h.walk_eq k
  have hseen' : ∀ b ∈ seen, b ∈ L (u.table.slot k) ++ F (u.table.slot k) ∨ b ∈ [fresh.addr] :=
    fun b hb => .inl (List.mem_append_left _ (hseen b hb))
  unfold hashTableAdd CallOk
  rw [hwalk fuel hf]
  cases hfind : bucketOf u.table.mem k (L (u.table.slot k)) with
  | some b =>
    have hspec : (HashOp.add k v fresh).spec u.map = (.exists, none, u.map) :=
      if_pos (h.spec_some hfind).1
    rw [hspec]
    exact ⟨_, rfl, rfl, rfl, ⟨L, F, h.more _⟩, hseen'⟩
  | none =>
    have hspec : (HashOp.add k v fresh).spec u.map
        = (.success, none, Function.update u.map k (some v)) := by
      refine if_neg ?_
      rw [h.spec_none hfind]
      exact Bool.false_ne_true
    have hslot := h.slotRep k
    rw [hspec]
    cases hF : F (u.table.slot k) with
    | nil =>
      -- no free bucket: `MALLOC`
      rw [hF] at hslot
      have hfree : (u.table.tbl (u.table.slot k)).free = none := hslot.free
      have hnot : ∀ b ∈ L (u.table.slot k), b ≠ fresh.addr := by
        rintro b hb rfl
        exact hfresh (h.known _ (h.slot_lt k) _ (List.mem_append_left _ hb))
      have hslot' : SlotRep (u.table.mem.write fresh) u.table.tblSize (u.table.slot k)
          ⟨(u.table.tbl (u.table.slot k)).head, none⟩ (L (u.table.slot k)) [] := by
        have h0 : SlotRep u.table.mem u.table.tblSize (u.table.slot k)
            ⟨(u.table.tbl (u.table.slot k)).head, none⟩ (L (u.table.slot k)) [] :=
          ⟨hslot.live, rfl, hslot.nodup, hslot.slot, hslot.keys⟩
        refine h0.congr fun b hb => sameAt_write (hnot b ?_)
        rwa [List.append_nil] at hb
      simp only [Option.bind_some, hfree]
      refine ⟨_, rfl, rfl, rfl, ?_, ?_⟩
      · refine h.insert hfind hslot' ?_ (fun b hb => sameAt_write hb)
          (.inr (List.mem_singleton.mpr rfl)) (fun b hb => by cases hb) fun b hb => ?_
        · rw [List.append_nil]
          exact fun hm => hnot _ hm rfl
        · rw [List.mem_singleton.mp hb]
          exact ⟨hfresh, List.mem_singleton.mpr rfl⟩
      · refine h.insert_accessed (fun b hb => .inl (List.mem_append_left _ hb)) ?_
          (.inr (List.mem_singleton.mpr rfl))
        exact fun b hb => .inl (List.mem_append_left _ (hseen b hb))
    | cons bucket f =>
      rw [hF] at hslot
      obtain ⟨hrem, hslot', hb⟩ := hslot.takeFree
      have hfree : (u.table.tbl (u.table.slot k)).free = some bucket := hslot.free.1
      have hmem : bucket ∈ F (u.table.slot k) := hF ▸ List.mem_cons_self
      rw [hfree] at hrem
      simp only [Option.bind_some, hfree, hrem, Option.map_some]
      refine ⟨_, rfl, rfl, rfl, ?_, ?_⟩
      · exact h.insert hfind hslot' hb
          (fun b hne => ⟨rfl, Function.update_of_ne hne _ _, rfl, rfl⟩)
          (.inl hmem) (fun b hb => hF ▸ List.mem_cons_of_mem _ hb)
          fun b (hb : b ∈ []) => by cases hb
      · refine h.insert_accessed (fun b hb => .inl (List.mem_append_left _ hb)) ?_
          (.inl (List.mem_append_right _ hmem))
        intro b hb
        rcases List.mem_append.mp hb with hb | hb
        · exact .inl (List.mem_append_left _ (hseen b hb))
        · rw [List.mem_singleton.mp hb]
          exact .inl (List.mem_append_right _ hmem)

theorem HashRep.lookup (h : HashRep u L F) (k : UInt32) {fuel : Nat}
    (hf : u.buckets.length ≤ fuel) :
    ∃ out, hashTableLookup fuel u.table k = some out ∧ CallOk u (.lookup k) L F out := by
  obtain ⟨seen, hwalk, hseen⟩ := h.walk_eq k
  have hseen' : ∀ b ∈ seen, b ∈ L (u.table.slot k) ++ F (u.table.slot k) ∨ b ∈ ([] : List Nat) :=
    fun b hb => .inl (List.mem_append_left _ (hseen b hb))
  unfold hashTableLookup CallOk
  rw [hwalk fuel hf]
  cases hfind : bucketOf u.table.mem k (L (u.table.slot k)) with
  | some b =>
    obtain ⟨hs, hv⟩ := h.spec_some hfind
    have hspec : (HashOp.lookup k).spec u.map = (.success, u.map k, u.map) := if_pos hs
    rw [hspec, hv]
    exact ⟨_, rfl, rfl, rfl, ⟨L, F, h.more _⟩, hseen'⟩
  | none =>
    have hspec : (HashOp.lookup k).spec u.map = (.notexists, none, u.map) := by
      refine if_neg ?_
      rw [h.spec_none hfind]
      exact Bool.false_ne_true
    rw [hspec]
    exact ⟨_, rfl, rfl, rfl, ⟨L, F, h.more _⟩, hseen'⟩

/-- without its bucket, a key is not found any more, and every other key is found as before -/
theorem bucketOf_remove {m : Buckets V} {l₁ l₂ : List Nat} {bucket : Nat}
    (hkeys : ((l₁ ++ bucket :: l₂).map m.key).Nodup) (k : UInt32) :
    bucketOf m k (l₁ ++ l₂)
      = if k = m.key bucket then none else bucketOf m k (l₁ ++ bucket :: l₂) := by
  rw [List.map_append, List.map_cons] at hkeys
  have hnd := List.perm_middle.nodup_iff.mp hkeys
  have hnot := (List.nodup_cons.mp hnd).1
  unfold bucketOf
  by_cases hk : k = m.key bucket
  · rw [if_pos hk, List.find?_eq_none]
    intro b hb hbk
    refine hnot ?_
    rw [← hk, ← of_decide_eq_true hbk, ← List.map_append]
    exact List.mem_map_of_mem hb
  · have hk' : ¬ m.key bucket = k := fun he => hk he.symm
    rw [if_neg hk, List.find?_append, List.find?_append, List.find?_cons_of_neg (by simpa using hk')]

theorem HashRep.remove (h : HashRep u L F) (k : UInt32) {fuel : Nat}
    (hf : u.buckets.length ≤ fuel) :
    ∃ out, hashTableRemove fuel u.table k = some out ∧ CallOk u (.remove k) L F out := by
  obtain ⟨seen, hwalk, hseen⟩ := h.walk_eq k
  have hseen' : ∀ b ∈ seen, b ∈ L (u.table.slot k) ++ F (u.table.slot k) ∨ b ∈ ([] : List Nat) :=
    fun b hb => .inl (List.mem_append_left _ (hseen b hb))
  unfold hashTableRemove CallOk
  rw [hwalk fuel hf]
  cases hfind : bucketOf u.table.mem k (L (u.table.slot k)) with
  | some bucket =>
    obtain ⟨hs, hv⟩ := h.spec_some hfind
    obtain ⟨hmem, hkey⟩ := bucketOf_some hfind
    have hspec : (HashOp.remove k).spec u.map = (.success, u.map k, Function.update u.map k none) :=
      if_pos hs
    obtain ⟨l₁, l₂, hL⟩ := List.append_of_mem hmem
    have hslot := h.slotRep k
    rw [hL] at hslot
    obtain ⟨m₁, head, acc, hrem, hslot', hsame, hkeys, hvalues, hacc⟩ := hslot.remove
    have hfhead : (u.table.tbl (u.table.slot k)).free = (F (u.table.slot k)).head? :=
      hslot.free.head
    rw [hspec, hv]
    simp only [Option.bind_some, hrem, Option.map_some]
    refine ⟨_, rfl, rfl, rfl, ?_, ?_⟩
    · refine ⟨_, _, h.put (h.slot_lt k) hslot' ?_ ?_ (fun b (hb : b ∈ []) => by cases hb)
        ?_ ?_⟩
      · intro b hb _
        rw [hL] at hb
        exact hsame b hb
      · intro b hb
        rw [hL]
        simp only [List.mem_append, List.mem_cons] at hb ⊢
        tauto
      · intro k' hk'
        have hm := h.map k'
        rw [hk', hL] at hm
        rw [hvalues, show bucketOf (bucketListAdd m₁ (u.table.tbl (u.table.slot k)).free bucket) k'
          (l₁ ++ l₂) = bucketOf u.table.mem k' (l₁ ++ l₂) by unfold bucketOf; rw [hkeys],
          bucketOf_remove hslot.keys, hkey]
        by_cases hkk : k' = k
        · rw [if_pos hkk, hkk, Function.update_self, Option.map_none]
        · rw [if_neg hkk, Function.update_of_ne hkk, hm]
      · intro k' hk'
        have hkk : k' ≠ k := fun he => hk' (by rw [he])
        exact Function.update_of_ne hkk _ _
    · intro b hb
      refine .inl ?_
      show b ∈ L (u.table.slot k) ++ F (u.table.slot k)
      rw [hL]
      rcases List.mem_append.mp hb with hb | hb
      · rcases List.mem_append.mp hb with hb | hb
        · rcases List.mem_append.mp hb with hb | hb
          · exact List.mem_append_left _ (hL ▸ hseen b hb)
          · exact List.mem_append_left _ (hacc b hb)
        · rw [hfhead, Option.mem_toList] at hb
          exact List.mem_append_right _ (List.mem_of_head? hb)
      · rw [List.mem_singleton.mp hb]
        exact List.mem_append_left _ (by simp)
  | none =>
    have hspec : (HashOp.remove k).spec u.map = (.notexists, none, u.map) := by
      refine if_neg ?_
      rw [h.spec_none hfind]
      exact Bool.false_ne_true
    rw [hspec]
    exact ⟨_, rfl, rfl, rfl, ⟨L, F, h.more _⟩, hseen'⟩

/-- **One call.** -/
theorem HashRep.call (h : HashRep u L F) {op : HashOp V} (hfresh : freshFor u.buckets op)
    {fuel : Nat} (hf : u.buckets.length ≤ fuel) :
    ∃ out, op.call fuel u.table = some out ∧ CallOk u op L F out := by
  cases op with
  | add k v fresh => exact h.add k v fresh hfresh hf
  | lookup k => exact h.lookup k hf
  | remove k => exact h.remove k hf

/-- any fuel that suffices gives the same -/
theorem HashRep.call_fuel (h : HashRep u L F) (op : HashOp V) {fuel : Nat}
    (hf : u.buckets.length ≤ fuel) : op.call fuel u.table = op.call u.buckets.length u.table := by
  obtain ⟨seen, hwalk, _⟩ := h.walk_eq op.key
  have heq := (hwalk fuel hf).trans (hwalk u.buckets.length (Nat.le_refl _)).symm
  cases op with
  | add k v fresh =>
    show hashTableAdd fuel u.table k v fresh = hashTableAdd u.buckets.length u.table k v fresh
    unfold hashTableAdd
    rw [show u.table.walk fuel k = u.table.walk u.buckets.length k from heq]
  | lookup k =>
    show hashTableLookup fuel u.table k = hashTableLookup u.buckets.length u.table k
    unfold hashTableLookup
    rw [show u.table.walk fuel k = u.table.walk u.buckets.length k from heq]
  | remove k =>
    show hashTableRemove fuel u.table k = hashTableRemove u.buckets.length u.table k
    unfold hashTableRemove
    rw [show u.table.walk fuel k = u.table.walk u.buckets.length k from heq]

end

/-! ## every run -/

theorem rep_hashTableCreate (tableSize : UInt32) (hsize : 1 ≤ tableSize.toNat) (mem : Buckets V) :
    HashRep ⟨hashTableCreate tableSize mem, [], fun _ => none⟩ (fun _ => []) (fun _ => []) := by
  refine ⟨hsize, fun i _ => ⟨⟨rfl, ?_⟩, rfl, List.nodup_nil, ?_, List.nodup_nil⟩, ?_, ?_,
    fun _ => rfl⟩
  · intro a l hl
    cases hl
  · intro b hb
    cases hb
  · intro i j b _ _ hb
    cases hb
  · intro i _ b hb
    cases hb

theorem rep_hash_reach {tableSize : UInt32} (hsize : 1 ≤ tableSize.toNat) {mem : Buckets V}
    {u : HashUse V}
    (h : Reach hashStep any (· = ⟨hashTableCreate tableSize mem, [], fun _ => none⟩) u) :
    ∃ L F, HashRep u L F := by
  induction h with
  | start h =>
    subst h
    exact ⟨_, _, rep_hashTableCreate tableSize hsize mem⟩
  | next _ _ hs ih =>
    obtain ⟨L, F, hrep⟩ := ih
    unfold hashStep at hs
    split at hs
    · rename_i hfresh
      obtain ⟨out, hout, _, _, hrep', _⟩ := hrep.call hfresh (Nat.le_refl _)
      rw [hout] at hs
      cases hs
      exact hrep'
    · cases hs

/-- **The hash table is a finite map.**  In every run of additions, lookups and removals: the table
is represented, and whatever call comes next ends, returns what it returns on the finite map, and
looks only at buckets that are in the lists of its slot, or at the one that `MALLOC` returns. -/
theorem hash_table_finite_map (tableSize : UInt32) (hsize : 1 ≤ tableSize.toNat) (mem : Buckets V)
    {u : HashUse V}
    (h : Reach hashStep any (· = ⟨hashTableCreate tableSize mem, [], fun _ => none⟩) u) :
    ∃ L F, HashRep u L F ∧ ∀ op, freshFor u.buckets op → ∃ out,
      (∀ fuel ≥ u.buckets.length, op.call fuel u.table = some out) ∧
      out.result = (op.spec u.map).1 ∧ out.value = (op.spec u.map).2.1 ∧
      hashStep u op = some ⟨out.table, newBucket op ++ u.buckets, (op.spec u.map).2.2⟩ ∧
      ∀ b ∈ out.accessed,
        b ∈ L (u.table.slot op.key) ++ F (u.table.slot op.key) ∨ b ∈ newBucket op := by
  obtain ⟨L, F, hrep⟩ := rep_hash_reach hsize h
  refine ⟨L, F, hrep, fun op hfresh => ?_⟩
  obtain ⟨out, hout, hres, hval, _, hacc⟩ := hrep.call hfresh (Nat.le_refl _)
  refine ⟨out, fun fuel hf => (hrep.call_fuel op hf).trans hout, hres, hval, ?_, hacc⟩
  · unfold hashStep
    rw [if_pos hfresh, hout, Option.map_some]

/-- three keys of one slot: the first bucket is removed, taken again, and the last key is found -/
def collidingOps : List (HashOp Nat) :=
  [.add 1 10 ⟨100, some 7, some 7, 7, 7⟩, .add 3 30 ⟨101, none, some 9, 1, 9⟩, .remove 3,
    .add 5 50 ⟨102, none, none, 0, 0⟩]

theorem hash_table_finite_map_colliding :
    ∃ u, run hashStep ⟨hashTableCreate 2 ⟨fun _ => some 0, fun _ => some 0, fun _ => 1, fun _ => 0⟩,
        [], fun _ => none⟩ collidingOps = some u ∧
      u.table.tbl 1 = ⟨some 101, none⟩ ∧
      ∃ out, (∀ fuel ≥ u.buckets.length, (HashOp.lookup 1).call fuel u.table = some out) ∧
        out.result = .success ∧ out.value = some 10 := by
  have hrun : (run hashStep ⟨hashTableCreate 2
      ⟨fun _ => some 0, fun _ => some 0, fun _ => 1, fun _ => 0⟩, [], fun _ => none⟩
      collidingOps).map (fun u => (u.table.tbl 1, u.map 1)) = some (⟨some 101, none⟩, some 10) := by
    decide +kernel
  obtain ⟨u, hu, heq⟩ := Option.map_eq_some_iff.mp hrun
  rw [Prod.mk.injEq] at heq
  obtain ⟨L, F, _, hcall⟩ := hash_table_finite_map 2 (by decide) _ (reach_of_run _ hu)
  obtain ⟨out, hout, hres, hval, _⟩ := hcall (.lookup 1) trivial
  refine ⟨u, hu, heq.1, out, hout, ?_, ?_⟩
  · rw [hres, HashOp.spec, heq.2]
    rfl
  · rw [hval, HashOp.spec, heq.2]
    rfl

end XCalls
