import XCalls.Core.Desc
import XCalls.Lib.EventSys
import XCalls.Lib.Memory

/-!
# The linear buffer

`buffer.c`: regions are taken from the end of the used part and given back in reverse.

* `LinearUse`, `linearStep`   a buffer with the regions that its users hold;
* `noWrap`          the condition on allocations: the new fill level is a 32-bit number;
* `Stacked`         the representation: the regions fill the used part without gaps;
* `MallocSound`     what `txc_buffer_linear_malloc` should return;
* `linear_buffer_sound`   every run under the condition, and the next allocation exactly under it;
* `linear_malloc_wraps`   an allocation that passes the test of the space by wrapping around.
-/

namespace XCalls
open EventSys Memory

/-! ## runs -/

structure Region where
  offset : UInt32
  size : UInt32
  deriving DecidableEq

/-- the last region comes first -/
structure LinearUse where
  buffer : BufferLinear
  regions : List Region
  deriving DecidableEq

/-- `free` gives back the last region, with the size it was allocated with -/
inductive LinearOp where
  | malloc (size : UInt32)
  | free

def linearStep (u : LinearUse) : LinearOp → Option LinearUse
  | .malloc size =>
    match bufferLinearMalloc u.buffer size with
    | none => some u
    | some (offset, b) => some ⟨b, ⟨offset, size⟩ :: u.regions⟩
  | .free =>
    match u.regions with
    | [] => none
    | r :: rs => some ⟨bufferLinearFree u.buffer r.size, rs⟩

/-- a buffer of any size with nothing in it -/
def LinearStart (u : LinearUse) : Prop := u.buffer.curLen = 0 ∧ u.regions = []

/-- `cur_len + size` does not wrap around -/
def noWrap (u : LinearUse) : LinearOp → Prop
  | .malloc size => u.buffer.curLen.toNat + size.toNat < 2 ^ 32
  | .free => True

instance (u : LinearUse) : ∀ op, Decidable (noWrap u op)
  | .malloc _ => inferInstanceAs (Decidable (_ < _))
  | .free => instDecidableTrue

/-! ## what should hold -/

def Region.Apart (r r' : Region) : Prop :=
  Memory.Apart r.offset.toNat r.size.toNat r'.offset.toNat r'.size.toNat

instance Region.decApart (r r' : Region) : Decidable (r.Apart r') := inferInstanceAs (Decidable (_ ∨ _))

def totalSize (rs : List Region) : Nat := (rs.map fun r => r.size.toNat).sum

structure LinearSound (u : LinearUse) : Prop where
  total : u.buffer.curLen.toNat = totalSize u.regions
  inside : ∀ r ∈ u.regions, r.offset.toNat + r.size.toNat ≤ u.buffer.sizeMax.toNat
  apart : u.regions.Pairwise Region.Apart

/-- `NULL` exactly when the space does not suffice, with nothing changed; otherwise a region inside
the buffer and apart from all others -/
structure MallocSound (u : LinearUse) (size : UInt32) : Prop where
  null : bufferLinearMalloc u.buffer size = none ↔
    u.buffer.sizeMax.toNat - u.buffer.curLen.toNat < size.toNat
  same : bufferLinearMalloc u.buffer size = none → linearStep u (.malloc size) = some u
  region : ∀ offset b, bufferLinearMalloc u.buffer size = some (offset, b) →
    offset.toNat + size.toNat ≤ u.buffer.sizeMax.toNat ∧
    (∀ r ∈ u.regions, Region.Apart ⟨offset, size⟩ r) ∧
    b.curLen.toNat = totalSize (⟨offset, size⟩ :: u.regions)

/-! ## the representation -/

/-- the regions fill the buffer from its start up to `top` -/
def Stacked : List Region → Nat → Prop
  | [], top => top = 0
  | r :: rs, top => r.offset.toNat + r.size.toNat = top ∧ Stacked rs r.offset.toNat

structure LinearRep (u : LinearUse) : Prop where
  stacked : Stacked u.regions u.buffer.curLen.toNat
  room : u.buffer.curLen.toNat ≤ u.buffer.sizeMax.toNat

section
variable {rs : List Region} {top : Nat} {u u' : LinearUse} {size : UInt32}

theorem Stacked.total (h : Stacked rs top) : top = totalSize rs := by
  induction rs generalizing top with
  | nil => exact h
  | cons r rs ih =>
    obtain ⟨h1, h2⟩ := h
    rw [totalSize, List.map_cons, List.sum_cons, ← h1, ih h2, Nat.add_comm]
    rfl

theorem Stacked.le (h : Stacked rs top) : ∀ r ∈ rs, r.offset.toNat + r.size.toNat ≤ top := by
  induction rs generalizing top with
  | nil => exact fun r hr => nomatch hr
  | cons r rs ih =>
    obtain ⟨h1, h2⟩ := h
    intro r' hr'
    rcases List.mem_cons.mp hr' with rfl | hr'
    · omega
    · have := ih h2 r' hr'
      omega

theorem Stacked.apart (h : Stacked rs top) : rs.Pairwise Region.Apart := by
  induction rs generalizing top with
  | nil => exact List.Pairwise.nil
  | cons r rs ih => exact List.pairwise_cons.mpr ⟨fun r' hr' => .inr (h.2.le r' hr'), ih h.2⟩

theorem LinearRep.sound (h : LinearRep u) : LinearSound u where
  total := h.stacked.total
  inside := fun r hr => Nat.le_trans (h.stacked.le r hr) h.room
  apart := h.stacked.apart

/-! ## allocation -/

theorem bufferLinearMalloc_eq (b : BufferLinear) (size : UInt32) :
    bufferLinearMalloc b size
      = if b.sizeMax.toNat < (b.curLen.toNat + size.toNat) % 2 ^ 32 then none
        else some (b.curLen, { b with curLen := b.curLen + size }) := by
  have htest : b.curLen + size > b.sizeMax ↔
      b.sizeMax.toNat < (b.curLen.toNat + size.toNat) % 2 ^ 32 := by
    rw [gt_iff_lt, UInt32.lt_iff_toNat_lt, UInt32.toNat_add]
  unfold bufferLinearMalloc
  simp only [htest]

theorem LinearRep.malloc (h : LinearRep u) (hw : noWrap u (.malloc size)) : MallocSound u size := by
  have hw : u.buffer.curLen.toNat + size.toNat < 2 ^ 32 := hw
  have hroom := h.room
  have hmalloc := bufferLinearMalloc_eq u.buffer size
  rw [Nat.mod_eq_of_lt hw] at hmalloc
  refine ⟨?_, fun hnone => ?_, fun offset b hsome => ?_⟩
  · rw [hmalloc]
    split
    · exact ⟨fun _ => by omega, fun _ => rfl⟩
    · exact ⟨(fun hc => nomatch hc), fun hc => by omega⟩
  · rw [linearStep, hnone]
  · rw [hmalloc] at hsome
    split at hsome
    · cases hsome
    · cases hsome
      refine ⟨by omega, fun r hr => .inr (h.stacked.le r hr), ?_⟩
      rw [UInt32.toNat_add, Nat.mod_eq_of_lt hw, h.stacked.total, totalSize, totalSize,
        List.map_cons, List.sum_cons, Nat.add_comm]

/-- a sum that wraps around passes the test -/
theorem LinearRep.not_malloc (h : LinearRep u) (hw : ¬ noWrap u (.malloc size)) :
    ¬ MallocSound u size := by
  have hw : ¬ u.buffer.curLen.toNat + size.toNat < 2 ^ 32 := hw
  have hroom := h.room
  have hmax := u.buffer.sizeMax.toNat_lt
  have hcur := u.buffer.curLen.toNat_lt
  have hsize := size.toNat_lt
  intro hs
  have hnull := hs.null.mpr (by omega)
  rw [bufferLinearMalloc_eq, if_neg (by omega)] at hnull
  cases hnull

/-! ## every run -/

theorem LinearRep.step {op : LinearOp} (h : LinearRep u) (hw : noWrap u op)
    (hs : linearStep u op = some u') : LinearRep u' := by
  cases op with
  | malloc size =>
    have hw : u.buffer.curLen.toNat + size.toNat < 2 ^ 32 := hw
    rw [linearStep, bufferLinearMalloc_eq, Nat.mod_eq_of_lt hw] at hs
    split at hs
    · rename_i hnone
      cases hs
      exact h
    · rename_i offset b hsome
      cases hs
      split at hsome
      · cases hsome
      · cases hsome
        have hlen : (u.buffer.curLen + size).toNat = u.buffer.curLen.toNat + size.toNat := by
          rw [UInt32.toNat_add, Nat.mod_eq_of_lt hw]
        refine ⟨⟨hlen.symm, h.stacked⟩, ?_⟩
        show (u.buffer.curLen + size).toNat ≤ u.buffer.sizeMax.toNat
        omega
  | free =>
    obtain ⟨b, rs⟩ := u
    cases rs with
    | nil => cases hs
    | cons r rs =>
      cases hs
      obtain ⟨⟨htop, hst⟩, hroom⟩ := h
      have htop : r.offset.toNat + r.size.toNat = b.curLen.toNat := htop
      have hroom : b.curLen.toNat ≤ b.sizeMax.toNat := hroom
      have hlen : (b.curLen - r.size).toNat = r.offset.toNat := by
        have hcur := b.curLen.toNat_lt
        rw [UInt32.toNat_sub_of_le _ _ (UInt32.le_iff_toNat_le.mpr (by omega))]
        omega
      refine ⟨?_, ?_⟩
      · show Stacked rs (b.curLen - r.size).toNat
        rw [hlen]
        exact hst
      · show (b.curLen - r.size).toNat ≤ b.sizeMax.toNat
        rw [hlen]
        omega

theorem rep_linear_reach (h : Reach linearStep noWrap LinearStart u) : LinearRep u := by
  induction h with
  | start h =>
    obtain ⟨hc, hr⟩ := h
    refine ⟨?_, ?_⟩
    · rw [hr, hc]
      rfl
    · rw [hc]
      exact Nat.zero_le _
  | next _ hok hs ih => exact ih.step hok hs

end

/-- **The linear buffer.**  In every run of allocations whose new fill level is a 32-bit number and
of deallocations in reverse: the regions are inside the buffer, apart, and `cur_len` is the sum of
their sizes; and the next allocation returns what it should exactly when its fill level is a 32-bit
number. -/
theorem linear_buffer_sound {u : LinearUse} (h : Reach linearStep noWrap LinearStart u) :
    LinearSound u ∧
      ∀ size, MallocSound u size ↔ u.buffer.curLen.toNat + size.toNat < 2 ^ 32 := by
  have hrep := rep_linear_reach h
  refine ⟨hrep.sound, fun size => ⟨fun hs => ?_, fun hw => hrep.malloc hw⟩⟩
  by_contra hw
  exact hrep.not_malloc hw hs

/-- two regions in a buffer of 24 bytes, a third one that does not fit, and the second one again -/
theorem linear_buffer_sound_24 :
    ∃ u, run (guarded linearStep noWrap) ⟨⟨24, 0⟩, []⟩
        [.malloc 8, .malloc 16, .malloc 4294967271, .free, .malloc 12] = some u ∧
      u.regions = [⟨8, 12⟩, ⟨0, 8⟩] ∧ LinearSound u ∧ MallocSound u 5 := by
  refine ⟨_, rfl, rfl, ?_⟩
  have hrun : run (guarded linearStep noWrap) ⟨⟨24, 0⟩, []⟩
      [.malloc 8, .malloc 16, .malloc 4294967271, .free, .malloc 12]
        = some ⟨⟨24, 20⟩, [⟨8, 12⟩, ⟨0, 8⟩]⟩ := rfl
  have hreach : Reach linearStep noWrap LinearStart ⟨⟨24, 20⟩, [⟨8, 12⟩, ⟨0, 8⟩]⟩ :=
    (reach_of_guarded _ hrun).mono_init fun s hs => hs ▸ ⟨rfl, rfl⟩
  have hsound := linear_buffer_sound hreach
  exact ⟨hsound.1, (hsound.2 5).mpr (by decide)⟩

/-- a buffer of 24 bytes with 8 in use: a request for `2 ^ 32 - 4` bytes is granted, and the next
region lies on the first one -/
theorem linear_malloc_wraps :
    run linearStep ⟨⟨24, 0⟩, []⟩ [.malloc 8, .malloc 4294967292, .malloc 4]
      = some ⟨⟨24, 8⟩, [⟨4, 4⟩, ⟨8, 4294967292⟩, ⟨0, 8⟩]⟩ ∧
    ¬ Region.Apart ⟨4, 4⟩ ⟨0, 8⟩ ∧ ¬ MallocSound ⟨⟨24, 8⟩, [⟨0, 8⟩]⟩ 4294967292 := by
  refine ⟨rfl, by decide, fun h => ?_⟩
  have hnull := h.null.mpr (by decide)
  cases hnull

end XCalls
