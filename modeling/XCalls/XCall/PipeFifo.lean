import XCalls.XCall.Circular

/-!
# Reads from a pipe through transactions

* `PipeSys`, `fifoStep`   transactions of speculative `x_read_pipe` calls on one pipe, which hands
                   out the bytes of a stream;
* `PipeSys.Ordered`   the invariant: what was committed and what is buffered is what the stream has
                   handed out, and what the current transaction has returned and can still return
                   is what is buffered;
* `pipe_fifo`      what the committed transactions have returned is a prefix of the stream, in
                   every run in which nothing is put behind the primary queue while the secondary
                   one holds bytes.
-/

namespace XCalls
open EventSys

/-! ## bytes in the array -/

namespace Circular
variable {b : Circular}

theorem length_bytes (i : Int) (n : Nat) : (b.bytes i n).length = n := by
  simp [bytes]

theorem bytes_zero (i : Int) : b.bytes i 0 = [] := rfl

theorem bytes_add (i : Int) (m n : Nat) :
    b.bytes i (m + n) = b.bytes i m ++ b.bytes (i + m) n := by
  unfold bytes
  rw [List.range_add, List.map_append, List.map_map]
  congr 1
  apply List.map_congr_left
  intro j _
  simp only [Function.comp]
  rw [Int.natCast_add, Int.add_assoc]

theorem bytes_congr {b' : Circular} {i : Int} {n : Nat}
    (h : ∀ j < n, b'.mem (i + j) = b.mem (i + j)) : b'.bytes i n = b.bytes i n := by
  unfold bytes
  apply List.map_congr_left
  intro j hj
  exact h j (List.mem_range.mp hj)

theorem bytes_take {i : Int} {m n : Nat} (h : m ≤ n) : (b.bytes i n).take m = b.bytes i m := by
  obtain ⟨d, rfl⟩ := Nat.exists_eq_add_of_le h
  rw [bytes_add]
  exact List.take_left' (length_bytes i m)

theorem mem_store_of_not {i j : Int} {data : List UInt8} (h : ¬ (i ≤ j ∧ j < i + data.length)) :
    (b.store i data).mem j = b.mem j := if_neg h

theorem bytes_store (i : Int) (data : List UInt8) :
    (b.store i data).bytes i data.length = data := by
  apply List.ext_getElem
  · exact length_bytes i _
  · intro j h1 h2
    simp only [bytes, List.getElem_map, List.getElem_range]
    show (if i ≤ i + j ∧ i + j < i + data.length then data.getD (i + j - i).toNat 0 else _) = _
    rw [if_pos ⟨by omega, by omega⟩]
    have hj : (i + (j : Int) - i).toNat = j := by omega
    rw [hj]
    rw [List.getD_eq_getElem?_getD, List.getElem?_eq_getElem h2, Option.getD_some]

theorem store_nil (i : Int) : b.store i [] = b := by
  unfold store
  congr 1
  funext j
  rw [if_neg]
  rintro ⟨h1, h2⟩
  rw [List.length_nil] at h2
  omega

def queue (b : Circular) (head tail : UInt32) : List UInt8 :=
  b.bytes head.toNat (tail.toNat - head.toNat)

/-- the bytes that the buffer would serve first to last -/
def buffered (b : Circular) : List UInt8 :=
  b.queue b.primaryHead b.primaryTail ++ b.queue b.secondaryHead b.secondaryTail

def left (b : Circular) : List UInt8 :=
  b.queue b.speculativePrimaryHead b.speculativePrimaryTail ++
    b.queue b.speculativeSecondaryHead b.speculativeSecondaryTail

theorem queue_self (head : UInt32) : b.queue head head = [] := by
  unfold queue
  rw [Nat.sub_self, bytes_zero]

end Circular

/-! ## the system -/

structure PipeSys where
  buffer : Circular
  /-- the bytes that the stream has handed out -/
  handed : Nat
  /-- what the calls of the current transaction have returned -/
  returned : List UInt8
  /-- what the calls of the committed transactions have returned -/
  committed : List UInt8

/-- a call, with the number of bytes that a kernel read delivers; the end of the transaction -/
inductive FifoEvent where
  | read (nbyte : Nat) (mallocOk : Bool) (delivered : Except Errno Nat)
  | commit
  | abort

/-- every place that a kernel read of `nbyte` bytes may fill is vacant -/
def VacantRegion (b : Circular) (nbyte : Nat) : Option (Queue × Int) → Prop
  | some (_, i) => ∀ j : Nat, j < nbyte → b.Vacant (i + j)
  | none => True

instance (b : Circular) (nbyte : Nat) : ∀ r, Decidable (VacantRegion b nbyte r)
  | some (_, i) => inferInstanceAs (Decidable (∀ j : Nat, j < nbyte → b.Vacant (i + j)))
  | none => .isTrue trivial

def deliveredFits (nbyte : Nat) : Except Errno Nat → Prop
  | .error _ => True
  | .ok k => k ≤ nbyte

instance (nbyte : Nat) : ∀ r : Except Errno Nat, Decidable (deliveredFits nbyte r)
  | .error _ => .isTrue trivial
  | .ok k => inferInstanceAs (Decidable (k ≤ nbyte))

/-- the assumptions on a call: served from a queue it asks for no more than the queue holds, and a
kernel read goes to vacant places -/
structure FifoCall (b : Circular) (nbyte : Nat) (mallocOk : Bool) (d : Except Errno Nat) : Prop where
  holds : speculativeHolds b.opened nbyte
  vacant : b.Decides mallocOk →
    VacantRegion b.opened nbyte (b.opened.findSpace (UInt32.ofNat nbyte))
  fits : deliveredFits nbyte d

instance (b : Circular) (nbyte : Nat) (m : Bool) (d : Except Errno Nat) :
    Decidable (FifoCall b nbyte m d) :=
  decidable_of_iff (speculativeHolds b.opened nbyte ∧
    (b.Decides m → VacantRegion b.opened nbyte (b.opened.findSpace (UInt32.ofNat nbyte))) ∧
    deliveredFits nbyte d)
    ⟨fun h => ⟨h.1, h.2.1, h.2.2⟩, fun h => ⟨h.holds, h.vacant, h.fits⟩⟩

section
variable (stream : Nat → UInt8)

/-- `n` bytes of the stream, behind the first `start` -/
def handOut (start n : Nat) : List UInt8 := (List.range n).map fun j => stream (start + j)

/-- the bytes that the kernel takes from the stream for a call -/
def takes (b : Circular) (nbyte : Nat) (mallocOk : Bool) : Except Errno Nat → Nat
  | .error _ => 0
  | .ok k =>
    if b.Decides mallocOk ∧ (b.opened.findSpace (UInt32.ofNat nbyte)).isSome then k else 0

def fifoStep (s : PipeSys) : FifoEvent → Option PipeSys
  | .read nbyte mallocOk d =>
    if FifoCall s.buffer nbyte mallocOk d then
      let r := readPipeSpeculative s.buffer nbyte mallocOk (d.map (handOut stream s.handed))
      some { s with
        buffer := r.2
        handed := s.handed + takes s.buffer nbyte mallocOk d
        returned := s.returned ++ r.1.data.take r.1.ret.toNat }
    else none
  -- the actions are registered once the transaction has entered the speculative state
  | .commit =>
    some { s with
      buffer := if s.buffer.state = .speculative then s.buffer.commit else s.buffer
      returned := []
      committed := s.committed ++ s.returned }
  | .abort =>
    some { s with
      buffer := if s.buffer.state = .speculative then s.buffer.undo else s.buffer
      returned := [] }

end

/-- the condition on a step: bytes that the kernel delivers do not go behind the primary queue while
the secondary queue holds bytes -/
def inOrder (s : PipeSys) : FifoEvent → Prop
  | .read nbyte mallocOk (.ok k) =>
    s.buffer.Decides mallocOk → 0 < k →
      s.buffer.primaryTail < s.buffer.sizeMax - UInt32.ofNat nbyte →
      s.buffer.secondaryTail = s.buffer.secondaryHead
  | _ => True

/-! ## the invariant -/

structure Circular.Bounded (b : Circular) : Prop where
  size : b.sizeMax.toNat < 2 ^ 31
  primary : b.primaryHead.toNat ≤ b.primaryTail.toNat
  primaryInside : b.primaryTail.toNat ≤ b.sizeMax.toNat
  secondary : b.secondaryHead.toNat ≤ b.secondaryTail.toNat
  secondaryInside : b.secondaryTail.toNat ≤ b.sizeMax.toNat

/-- the speculative queues of the buffer; as long as the first holds bytes, the second has not been
touched -/
structure Circular.SpecBounded (b : Circular) : Prop where
  primary : b.speculativePrimaryHead.toNat ≤ b.speculativePrimaryTail.toNat
  primaryInside : b.speculativePrimaryTail.toNat ≤ b.sizeMax.toNat
  secondary : b.speculativeSecondaryHead.toNat ≤ b.speculativeSecondaryTail.toNat
  secondaryInside : b.speculativeSecondaryTail.toNat ≤ b.sizeMax.toNat
  untouched : b.speculativePrimaryTail ≠ b.speculativePrimaryHead →
    b.speculativeSecondaryHead = b.secondaryHead ∧ b.speculativeSecondaryTail = b.secondaryTail

/-- in the midst of a transaction: the bytes that its calls have returned and those that are left
for it are the buffered ones -/
structure Circular.Serving (b : Circular) (returned : List UInt8) : Prop where
  bounded : b.SpecBounded
  left : returned ++ b.left = b.buffered

structure PipeSys.Ordered (stream : Nat → UInt8) (s : PipeSys) : Prop where
  bounded : s.buffer.Bounded
  buffered : s.committed ++ s.buffer.buffered = handOut stream 0 s.handed
  idle : s.buffer.state = .nonSpeculative → s.returned = []
  serving : s.buffer.state = .speculative → s.buffer.Serving s.returned

theorem intOf_of_lt {n : Nat} (h : n < 2 ^ 31) : intOf n = n := by
  unfold intOf
  exact Int32.toInt_ofNat_of_lt h

section
variable {b : Circular} {nbyte : Nat}

theorem Circular.queue_split {head tail : UInt32} (hle : head.toNat ≤ tail.toNat)
    (h : queueHolds tail head nbyte) :
    b.queue head tail = b.bytes head.toNat nbyte ++ b.queue (head + UInt32.ofNat nbyte) tail := by
  obtain ⟨ht, hn⟩ := queueHolds_add hle h
  have hlen : tail.toNat - head.toNat = nbyte + (tail.toNat - (head.toNat + nbyte)) := by omega
  unfold Circular.queue
  rw [hlen, Circular.bytes_add, ht, Int.natCast_add]

theorem Circular.take_served {head tail : UInt32} (hle : head.toNat ≤ tail.toNat)
    (hs : b.sizeMax.toNat < 2 ^ 31) (ht : tail.toNat ≤ b.sizeMax.toNat)
    (h : queueHolds tail head nbyte) :
    (b.bytes (Circular.index head) nbyte).take (intOf nbyte).toNat =
      b.bytes head.toNat nbyte := by
  unfold queueHolds at h
  rw [Circular.index_of_lt (by omega), intOf_of_lt (by omega), Int.toNat_natCast,
    Circular.bytes_take le_rfl]

theorem Circular.queue_store {head tail : UInt32} {i : Int} {data : List UInt8}
    (h : ∀ j : Int, i ≤ j → j < i + data.length → ¬ ((head.toNat : Int) ≤ j ∧ j < tail.toNat)) :
    (b.store i data).queue head tail = b.queue head tail := by
  apply Circular.bytes_congr
  intro j hj
  apply Circular.mem_store_of_not
  rintro ⟨h1, h2⟩
  exact h _ h1 h2 ⟨by omega, by omega⟩

theorem Circular.queue_grow {head tail : UInt32} {n : Nat} (hle : head.toNat ≤ tail.toNat)
    (h : tail.toNat + n < 2 ^ 32) :
    b.queue head (tail + UInt32.ofNat n) = b.queue head tail ++ b.bytes tail.toNat n := by
  have ht := toNat_add_ofNat h
  have hlen : tail.toNat + n - head.toNat = (tail.toNat - head.toNat) + n := by omega
  have hstart : (head.toNat : Int) + (tail.toNat - head.toNat : Nat) = tail.toNat := by omega
  unfold Circular.queue
  rw [ht, hlen, Circular.bytes_add, hstart]

theorem Circular.left_drained (hd : b.Drained) : b.left = [] := by
  unfold Circular.left
  rw [hd.1, hd.2, Circular.queue_self, Circular.queue_self, List.append_nil]

/-- what one call comes to: the bytes `new` of the stream are buffered behind the others -/
structure ServedTo (b : Circular) (ret new : List UInt8) (r : PipeReply × Circular) : Prop where
  bounded : r.2.Bounded
  serving : r.2.Serving (ret ++ r.1.data.take r.1.ret.toNat)
  buffered : r.2.buffered = b.buffered ++ new
  state : r.2.state = b.state

variable {ret : List UInt8} {read : Except Errno (List UInt8)}

theorem served_primary (hb : b.Bounded) (hs : b.Serving ret)
    (hp : b.speculativePrimaryTail ≠ b.speculativePrimaryHead) (hq : speculativeHolds b nbyte) :
    ServedTo b ret [] (readPipeServe b nbyte read) := by
  unfold speculativeHolds at hq
  rw [if_pos hp] at hq
  have hle := hs.bounded.primary
  obtain ⟨ht, hn⟩ := queueHolds_add hle hq
  rw [readPipeServe_primary hp]
  refine ⟨⟨hb.size, hb.primary, hb.primaryInside, hb.secondary, hb.secondaryInside⟩, ⟨⟨?_,
    hs.bounded.primaryInside, hs.bounded.secondary, hs.bounded.secondaryInside, ?_⟩, ?_⟩,
    (List.append_nil _).symm, rfl⟩
  · show (b.speculativePrimaryHead + UInt32.ofNat nbyte).toNat ≤ b.speculativePrimaryTail.toNat
    omega
  · exact fun _ => hs.bounded.untouched hp
  · have hleft := hs.left
    unfold Circular.left at hleft
    rw [Circular.queue_split hle hq, List.append_assoc] at hleft
    rw [Circular.take_served hle hb.size hs.bounded.primaryInside hq, List.append_assoc]
    exact hleft

theorem served_secondary (hb : b.Bounded) (hs : b.Serving ret)
    (hp : b.speculativePrimaryTail = b.speculativePrimaryHead)
    (hsec : b.speculativeSecondaryTail ≠ b.speculativeSecondaryHead)
    (hq : speculativeHolds b nbyte) : ServedTo b ret [] (readPipeServe b nbyte read) := by
  unfold speculativeHolds at hq
  rw [if_neg (not_not.mpr hp), if_pos hsec] at hq
  have hle := hs.bounded.secondary
  obtain ⟨ht, hn⟩ := queueHolds_add hle hq
  rw [readPipeServe_secondary hp hsec]
  refine ⟨⟨hb.size, hb.primary, hb.primaryInside, hb.secondary, hb.secondaryInside⟩, ⟨⟨
    hs.bounded.primary, hs.bounded.primaryInside, ?_, hs.bounded.secondaryInside, ?_⟩, ?_⟩,
    (List.append_nil _).symm, rfl⟩
  · show (b.speculativeSecondaryHead + UInt32.ofNat nbyte).toNat ≤ b.speculativeSecondaryTail.toNat
    omega
  · exact fun h => (h hp).elim
  · have hleft := hs.left
    unfold Circular.left at hleft
    rw [Circular.queue_split hle hq, hp, Circular.queue_self, List.nil_append] at hleft
    have hleft' : ({ b with speculativeSecondaryHead :=
        b.speculativeSecondaryHead + UInt32.ofNat nbyte } : Circular).left =
        b.queue (b.speculativeSecondaryHead + UInt32.ofNat nbyte) b.speculativeSecondaryTail := by
      show b.queue b.speculativePrimaryHead b.speculativePrimaryTail ++ _ = _
      rw [hp, Circular.queue_self, List.nil_append]
      rfl
    rw [Circular.take_served hle hb.size hs.bounded.secondaryInside hq, List.append_assoc, hleft']
    exact hleft

def Circular.tailOf (b : Circular) : Queue → UInt32
  | .primary => b.primaryTail
  | .secondary => b.secondaryTail

theorem Circular.findSpace_index {q : Queue} {i : Int} {needed : UInt32}
    (h : b.findSpace needed = some (q, i)) : i = Circular.index (b.tailOf q) ∧
      (q = .primary → b.primaryTail < b.sizeMax - needed) := by
  unfold Circular.findSpace at h
  split at h
  · cases h
    exact ⟨rfl, fun _ => ‹_›⟩
  · split at h
    · cases h
      exact ⟨rfl, fun hq => nomatch hq⟩
    · cases h

theorem Circular.Bounded.tailOf (hb : b.Bounded) (q : Queue) :
    (b.tailOf q).toNat ≤ b.sizeMax.toNat := by
  cases q with
  | primary => exact hb.primaryInside
  | secondary => exact hb.secondaryInside

/-- the kernel has delivered `data` behind the queue `q`, to vacant places -/
theorem grow_store_buffered (hb : b.Bounded) {q : Queue} {data : List UInt8}
    (hin : (b.tailOf q).toNat + data.length ≤ b.sizeMax.toNat)
    (hvac : ∀ j : Nat, j < data.length → ¬ b.Live ((b.tailOf q).toNat + j))
    (hord : q = .primary → b.secondaryTail = b.secondaryHead) :
    ((b.store (b.tailOf q).toNat data).grow q data.length).buffered = b.buffered ++ data := by
  have hsize := hb.size
  have hnot : ∀ j : Int, ((b.tailOf q).toNat : Int) ≤ j → j < (b.tailOf q).toNat + data.length →
      ¬ b.Live j := by
    intro j h1 h2
    have hj := hvac (j - (b.tailOf q).toNat).toNat (by omega)
    have hj' : ((b.tailOf q).toNat : Int) + ((j - (b.tailOf q).toNat).toNat : Nat) = j := by omega
    rwa [hj'] at hj
  have hp : (b.store (b.tailOf q).toNat data).queue b.primaryHead b.primaryTail =
      b.queue b.primaryHead b.primaryTail :=
    Circular.queue_store fun j h1 h2 h => hnot j h1 h2 (.inl h)
  have hs : (b.store (b.tailOf q).toNat data).queue b.secondaryHead b.secondaryTail =
      b.queue b.secondaryHead b.secondaryTail :=
    Circular.queue_store fun j h1 h2 h => hnot j h1 h2 (.inr h)
  cases q with
  | primary =>
    have hempty : b.queue b.secondaryHead b.secondaryTail = [] := by
      rw [hord rfl, Circular.queue_self]
    show (b.store b.primaryTail.toNat data).queue b.primaryHead
        (b.primaryTail + UInt32.ofNat data.length) ++
      (b.store b.primaryTail.toNat data).queue b.secondaryHead b.secondaryTail = _
    have hin' : b.primaryTail.toNat + data.length ≤ b.sizeMax.toNat := hin
    rw [Circular.queue_grow hb.primary (by omega), Circular.bytes_store]
    unfold Circular.buffered
    rw [show (b.store b.primaryTail.toNat data).queue b.primaryHead b.primaryTail = _ from hp,
      show (b.store b.primaryTail.toNat data).queue b.secondaryHead b.secondaryTail = _ from hs,
      hempty, List.append_nil, List.append_nil]
  | secondary =>
    show (b.store b.secondaryTail.toNat data).queue b.primaryHead b.primaryTail ++
      (b.store b.secondaryTail.toNat data).queue b.secondaryHead
        (b.secondaryTail + UInt32.ofNat data.length) = _
    have hin' : b.secondaryTail.toNat + data.length ≤ b.sizeMax.toNat := hin
    rw [Circular.queue_grow hb.secondary (by omega), Circular.bytes_store]
    unfold Circular.buffered
    rw [show (b.store b.secondaryTail.toNat data).queue b.primaryHead b.primaryTail = _ from hp,
      show (b.store b.secondaryTail.toNat data).queue b.secondaryHead b.secondaryTail = _ from hs,
      List.append_assoc]

theorem Circular.Bounded.grow_store (hb : b.Bounded) {q : Queue} {i : Int} {data : List UInt8}
    (hin : (b.tailOf q).toNat + data.length ≤ b.sizeMax.toNat) :
    ((b.store i data).grow q data.length).Bounded := by
  have hsize := hb.size
  have ht : (b.tailOf q + UInt32.ofNat data.length).toNat = (b.tailOf q).toNat + data.length :=
    toNat_add_ofNat (by omega)
  have h1 := hb.primary
  have h2 := hb.secondary
  cases q with
  | primary =>
    have ht' : (b.primaryTail + UInt32.ofNat data.length).toNat =
      b.primaryTail.toNat + data.length := ht
    refine ⟨hb.size, ?_, ?_, hb.secondary, hb.secondaryInside⟩
    · show b.primaryHead.toNat ≤ (b.primaryTail + UInt32.ofNat data.length).toNat
      omega
    · show (b.primaryTail + UInt32.ofNat data.length).toNat ≤ b.sizeMax.toNat
      rw [ht']
      exact hin
  | secondary =>
    have ht' : (b.secondaryTail + UInt32.ofNat data.length).toNat =
      b.secondaryTail.toNat + data.length := ht
    refine ⟨hb.size, hb.primary, hb.primaryInside, ?_, ?_⟩
    · show b.secondaryHead.toNat ≤ (b.secondaryTail + UInt32.ofNat data.length).toNat
      omega
    · show (b.secondaryTail + UInt32.ofNat data.length).toNat ≤ b.sizeMax.toNat
      rw [ht']
      exact hin

theorem servedTo_same (hb : b.Bounded) (hs : b.Serving ret) {r : PipeReply}
    (hr : r.data.take r.ret.toNat = []) : ServedTo b ret [] (r, b) :=
  ⟨hb, by rwa [hr, List.append_nil], (List.append_nil _).symm, rfl⟩

/-- a kernel read of `data` to vacant places behind the queue `q` -/
theorem served_delivered (hb : b.Bounded) (hs : b.Serving ret) (hd : b.Drained) {q : Queue}
    {data : List UInt8} (hlen : data.length ≤ nbyte)
    (hin : (b.tailOf q).toNat + data.length ≤ b.sizeMax.toNat)
    (hvac : ∀ j : Nat, j < data.length → ¬ b.Live ((b.tailOf q).toNat + j))
    (hord : q = .primary → b.secondaryTail = b.secondaryHead) :
    ServedTo b ret data
      (⟨intOf data.length, ((b.store (b.tailOf q).toNat data).grow q data.length).bytes
          (b.tailOf q).toNat nbyte, 0⟩,
        (b.store (b.tailOf q).toNat data).grow q data.length) := by
  have hsize := hb.size
  have hbuf := grow_store_buffered hb hin hvac hord
  have hmem : ∀ i n, ((b.store (b.tailOf q).toNat data).grow q data.length).bytes i n =
      (b.store (b.tailOf q).toNat data).bytes i n := by
    intro i n
    cases q <;> rfl
  have hret : (((b.store (b.tailOf q).toNat data).grow q data.length).bytes
      (b.tailOf q).toNat nbyte).take (intOf data.length).toNat = data := by
    rw [intOf_of_lt (by omega), Int.toNat_natCast, hmem, Circular.bytes_take hlen,
      Circular.bytes_store]
  have hd' : ((b.store (b.tailOf q).toNat data).grow q data.length).Drained := by
    cases q <;> exact hd
  have hspec : ((b.store (b.tailOf q).toNat data).grow q data.length).SpecBounded := by
    refine ⟨?_, ?_, ?_, ?_, fun h => (h hd'.1).elim⟩
    · cases q <;> exact hs.bounded.primary
    · cases q <;> exact hs.bounded.primaryInside
    · cases q <;> exact hs.bounded.secondary
    · cases q <;> exact hs.bounded.secondaryInside
  refine ⟨hb.grow_store hin, ⟨hspec, ?_⟩, hbuf, by cases q <;> rfl⟩
  have hleft := hs.left
  rw [Circular.left_drained hd, List.append_nil] at hleft
  rw [hret, Circular.left_drained hd', List.append_nil, hbuf, hleft]

/-- the bytes that a call without buffered data brings into the buffer -/
def broughtIn (b : Circular) (nbyte : Nat) : Except Errno (List UInt8) → List UInt8
  | .error _ => []
  | .ok data => if (b.findSpace (UInt32.ofNat nbyte)).isSome then data else []

theorem served_kernel (hb : b.Bounded) (hs : b.Serving ret) (hd : b.Drained)
    (hvac : VacantRegion b nbyte (b.findSpace (UInt32.ofNat nbyte)))
    (hf : readFits nbyte read)
    (hord : ∀ data, read = .ok data → 0 < data.length →
      b.primaryTail < b.sizeMax - UInt32.ofNat nbyte → b.secondaryTail = b.secondaryHead) :
    ServedTo b ret (broughtIn b nbyte read) (readPipeKernel b nbyte read) := by
  unfold readPipeKernel broughtIn
  cases hfind : b.findSpace (UInt32.ofNat nbyte) with
  | none =>
    cases read with
    | error e => exact servedTo_same hb hs rfl
    | ok data => exact servedTo_same hb hs rfl
  | some found =>
    obtain ⟨q, i⟩ := found
    rw [hfind] at hvac
    cases read with
    | error e => exact servedTo_same hb hs rfl
    | ok data =>
      have hlen : data.length ≤ nbyte := hf
      rcases Nat.eq_zero_or_pos data.length with h0 | hpos
      · have hnil : data = [] := List.length_eq_zero_iff.mp h0
        subst hnil
        show ServedTo b ret [] (_, (if (0 : Int) < intOf 0 then _ else b.store i []))
        rw [if_neg (by decide), Circular.store_nil]
        exact servedTo_same hb hs rfl
      · obtain ⟨rfl, hprim⟩ := Circular.findSpace_index hfind
        have hsize := hb.size
        have htail := hb.tailOf q
        have hi : Circular.index (b.tailOf q) = (b.tailOf q).toNat :=
          Circular.index_of_lt (by omega)
        have hin := (hvac (data.length - 1) (by omega)).2.1
        have hlt : (0 : Int) < intOf data.length := by
          rw [hi] at hin
          rw [intOf_of_lt (by omega)]
          omega
        show ServedTo b ret data (_, (if (0 : Int) < intOf data.length then _ else _))
        rw [if_pos hlt, hi]
        rw [hi] at hin hvac
        exact served_delivered hb hs hd hlen (by omega)
          (fun j hj => (hvac j (by omega)).2.2) fun hq => hord data rfl hpos (hprim hq)

theorem served_serve (hb : b.Bounded) (hs : b.Serving ret) (hq : speculativeHolds b nbyte)
    (hvac : b.Drained → VacantRegion b nbyte (b.findSpace (UInt32.ofNat nbyte)))
    (hf : readFits nbyte read)
    (hord : b.Drained → ∀ data, read = .ok data → 0 < data.length →
      b.primaryTail < b.sizeMax - UInt32.ofNat nbyte → b.secondaryTail = b.secondaryHead) :
    ServedTo b ret (if b.Drained then broughtIn b nbyte read else [])
      (readPipeServe b nbyte read) := by
  by_cases hp : b.speculativePrimaryTail = b.speculativePrimaryHead
  · by_cases hsec : b.speculativeSecondaryTail = b.speculativeSecondaryHead
    · have hd : b.Drained := ⟨hp, hsec⟩
      rw [if_pos hd, readPipeServe_drained hd]
      exact served_kernel hb hs hd (hvac hd) hf (hord hd)
    · rw [if_neg fun hd => hsec hd.2]
      exact served_secondary hb hs hp hsec hq
  · rw [if_neg fun hd => hp hd.1]
    exact served_primary hb hs hp hq

theorem Circular.Bounded.opened (hb : b.Bounded) : b.opened.Bounded := by
  unfold Circular.opened
  split
  · exact hb
  · exact ⟨hb.size, hb.primary, hb.primaryInside, hb.secondary, hb.secondaryInside⟩

theorem Circular.buffered_opened (b : Circular) : b.opened.buffered = b.buffered := by
  unfold Circular.opened
  split
  · rfl
  · rfl

theorem Circular.Bounded.serving_snapshot (hb : b.Bounded) : b.snapshot.Serving [] :=
  ⟨⟨hb.primary, hb.primaryInside, hb.secondary, hb.secondaryInside, fun _ => ⟨rfl, rfl⟩⟩, rfl⟩

end

/-! ## one step -/

section
variable {stream : Nat → UInt8} {s s' : PipeSys}

theorem handOut_add (start m n : Nat) :
    handOut stream start (m + n) = handOut stream start m ++ handOut stream (start + m) n := by
  unfold handOut
  rw [List.range_add, List.map_append, List.map_map]
  congr 1
  apply List.map_congr_left
  intro j _
  simp only [Function.comp]
  rw [Nat.add_assoc]

theorem length_handOut (start n : Nat) : (handOut stream start n).length = n := by
  simp [handOut]

theorem PipeSys.Ordered.serving_opened (h : s.Ordered stream) :
    s.buffer.opened.Serving s.returned := by
  unfold Circular.opened
  split
  · exact h.serving ‹_›
  · rw [h.idle ‹_›]
    exact h.bounded.serving_snapshot

/-- the bytes that a call brings in are those that the kernel takes from the stream -/
theorem brought_handOut {b : Circular} {nbyte start : Nat} {mallocOk : Bool} (d : Except Errno Nat)
    (hm : b.state = .speculative ∨ mallocOk = true) :
    (if b.opened.Drained then broughtIn b.opened nbyte (d.map (handOut stream start)) else []) =
      handOut stream start (takes b nbyte mallocOk d) := by
  cases d with
  | error e => split <;> rfl
  | ok k =>
    show (if _ then (if _ then _ else _) else _) = handOut stream start (if _ ∧ _ then _ else _)
    by_cases hd : b.opened.Drained
    · by_cases hf : (b.opened.findSpace (UInt32.ofNat nbyte)).isSome = true
      · rw [if_pos hd, if_pos hf, if_pos ⟨⟨hm, hd⟩, hf⟩]
      · rw [if_pos hd, if_neg hf, if_neg fun h => hf h.2]
        rfl
    · rw [if_neg hd, if_neg fun h => hd h.1.2]
      rfl

theorem inOrder_opened {nbyte k : Nat} {mallocOk : Bool} (ho : inOrder s (.read nbyte mallocOk (.ok k)))
    (hd : s.buffer.Decides mallocOk) (hk : 0 < k)
    (hp : s.buffer.opened.primaryTail < s.buffer.opened.sizeMax - UInt32.ofNat nbyte) :
    s.buffer.opened.secondaryTail = s.buffer.opened.secondaryHead := by
  have hfields : s.buffer.opened.primaryTail = s.buffer.primaryTail ∧
      s.buffer.opened.sizeMax = s.buffer.sizeMax ∧
      s.buffer.opened.secondaryTail = s.buffer.secondaryTail ∧
      s.buffer.opened.secondaryHead = s.buffer.secondaryHead := by
    unfold Circular.opened
    split
    · exact ⟨rfl, rfl, rfl, rfl⟩
    · exact ⟨rfl, rfl, rfl, rfl⟩
  obtain ⟨h1, h2, h3, h4⟩ := hfields
  rw [h1, h2] at hp
  rw [h3, h4]
  exact ho hd hk hp

theorem PipeSys.Ordered.read (h : s.Ordered stream) {nbyte : Nat} {mallocOk : Bool}
    {d : Except Errno Nat} (hc : FifoCall s.buffer nbyte mallocOk d)
    (ho : inOrder s (.read nbyte mallocOk d)) :
    ({ s with
      buffer := (readPipeSpeculative s.buffer nbyte mallocOk (d.map (handOut stream s.handed))).2
      handed := s.handed + takes s.buffer nbyte mallocOk d
      returned := s.returned ++
        (readPipeSpeculative s.buffer nbyte mallocOk (d.map (handOut stream s.handed))).1.data.take
        (readPipeSpeculative s.buffer nbyte mallocOk
          (d.map (handOut stream s.handed))).1.ret.toNat } : PipeSys).Ordered stream := by
  by_cases hm : s.buffer.state = .speculative ∨ mallocOk = true
  · rw [readPipeSpeculative_eq hm]
    have hf : readFits nbyte (d.map (handOut stream s.handed)) := by
      cases d with
      | error e => trivial
      | ok k => exact (length_handOut _ _).trans_le hc.fits
    have hserved := served_serve h.bounded.opened h.serving_opened hc.holds
      (fun hd => hc.vacant ⟨hm, hd⟩) hf (by
        intro hd data hdata hpos
        cases d with
        | error e => cases hdata
        | ok k =>
          cases hdata
          rw [length_handOut] at hpos
          exact inOrder_opened ho ⟨hm, hd⟩ hpos)
    rw [brought_handOut d hm] at hserved
    have hstate := hserved.state.trans s.buffer.opened_state
    refine ⟨hserved.bounded, ?_, ?_, fun _ => hserved.serving⟩
    · rw [handOut_add, ← h.buffered, Nat.zero_add, hserved.buffered,
        Circular.buffered_opened, List.append_assoc]
    · intro hs
      rw [hstate] at hs
      cases hs
  · obtain ⟨hs, hmal⟩ := not_or.mp hm
    have hstate : s.buffer.state = .nonSpeculative := by
      cases hst : s.buffer.state with
      | speculative => exact (hs hst).elim
      | nonSpeculative => rfl
    have htakes : takes s.buffer nbyte mallocOk d = 0 := by
      cases d with
      | error e => rfl
      | ok k => exact if_neg fun hd => hm hd.1.1
    have hsame : readPipeSpeculative s.buffer nbyte mallocOk (d.map (handOut stream s.handed)) =
        (⟨-1, [], Errno.enomem⟩, s.buffer) := by
      unfold readPipeSpeculative
      rw [hstate]
      exact if_neg hmal
    rw [hsame, htakes]
    refine ⟨h.bounded, h.buffered, ?_, fun hst => (hs hst).elim⟩
    intro _
    show s.returned ++ [] = []
    rw [h.idle hstate]
    rfl

theorem Circular.Serving.commit {b : Circular} {ret : List UInt8} (hb : b.Bounded)
    (h : b.Serving ret) : b.commit.Bounded ∧ ret ++ b.commit.buffered = b.buffered := by
  have hleft := h.left
  unfold Circular.left at hleft
  unfold Circular.commit
  split
  · -- the secondary queue has not been touched
    rename_i hp
    obtain ⟨hh, ht⟩ := h.bounded.untouched hp
    refine ⟨⟨hb.size, h.bounded.primary, h.bounded.primaryInside, hb.secondary,
      hb.secondaryInside⟩, ?_⟩
    rw [hh, ht] at hleft
    exact hleft
  · rename_i hp
    rw [not_not.mp hp, Circular.queue_self, List.nil_append] at hleft
    split
    · refine ⟨⟨hb.size, h.bounded.secondary, h.bounded.secondaryInside, le_rfl,
        Nat.zero_le _⟩, ?_⟩
      rw [← hleft]
      show ret ++ (b.queue _ _ ++ b.queue 0 0) = _
      rw [Circular.queue_self, List.append_nil]
    · rename_i hsec
      rw [not_not.mp hsec, Circular.queue_self] at hleft
      refine ⟨⟨hb.size, le_rfl, Nat.zero_le _, le_rfl, Nat.zero_le _⟩, ?_⟩
      rw [← hleft]
      show ret ++ (b.queue 0 0 ++ b.queue 0 0) = _
      rw [Circular.queue_self, List.append_nil]

theorem PipeSys.Ordered.commit (h : s.Ordered stream) :
    ({ s with
      buffer := if s.buffer.state = .speculative then s.buffer.commit else s.buffer
      returned := []
      committed := s.committed ++ s.returned } : PipeSys).Ordered stream := by
  by_cases hs : s.buffer.state = .speculative
  · rw [if_pos hs]
    obtain ⟨hb, hbuf⟩ := (h.serving hs).commit h.bounded
    refine ⟨hb, ?_, fun _ => rfl, fun hst => nomatch hst⟩
    rw [← h.buffered, List.append_assoc]
    show _ ++ (s.returned ++ s.buffer.commit.buffered) = _
    rw [hbuf]
  · rw [if_neg hs]
    have hidle : s.returned = [] := by
      cases hst : s.buffer.state with
      | speculative => exact (hs hst).elim
      | nonSpeculative => exact h.idle hst
    refine ⟨h.bounded, ?_, fun _ => rfl, fun hst => (hs hst).elim⟩
    rw [hidle, List.append_nil]
    exact h.buffered

theorem PipeSys.Ordered.abort (h : s.Ordered stream) :
    ({ s with
      buffer := if s.buffer.state = .speculative then s.buffer.undo else s.buffer
      returned := [] } : PipeSys).Ordered stream := by
  by_cases hs : s.buffer.state = .speculative
  · rw [if_pos hs]
    have hb := h.bounded
    exact ⟨⟨hb.size, hb.primary, hb.primaryInside, hb.secondary, hb.secondaryInside⟩,
      h.buffered, fun _ => rfl, fun hst => nomatch hst⟩
  · rw [if_neg hs]
    exact ⟨h.bounded, h.buffered, fun _ => rfl, fun hst => (hs hst).elim⟩

theorem fifoStep_ordered {e : FifoEvent} (h : s.Ordered stream) (ho : inOrder s e)
    (hstep : fifoStep stream s e = some s') : s'.Ordered stream := by
  cases e with
  | read nbyte mallocOk d =>
    rw [fifoStep, Option.ite_none_right_eq_some] at hstep
    obtain ⟨hc, hstep⟩ := hstep
    cases hstep
    exact h.read hc ho
  | commit =>
    cases hstep
    exact h.commit
  | abort =>
    cases hstep
    exact h.abort

end

/-! ## runs -/

/-- a pipe from which nothing was read yet, with a buffer as `txc_buffer_circular_create` makes it -/
def PipeSys.Start (s : PipeSys) : Prop :=
  (∃ b : Circular, b.sizeMax = bufferCircularSize ∧ s.buffer = b.init) ∧
    s.handed = 0 ∧ s.returned = [] ∧ s.committed = []

theorem PipeSys.Start.ordered {s : PipeSys} (h : s.Start) (stream : Nat → UInt8) :
    s.Ordered stream := by
  obtain ⟨⟨b, hsize, hb⟩, hh, hr, hc⟩ := h
  refine ⟨?_, ?_, fun _ => hr, ?_⟩
  · rw [hb]
    refine ⟨?_, le_rfl, Nat.zero_le _, le_rfl, Nat.zero_le _⟩
    show b.sizeMax.toNat < 2 ^ 31
    rw [hsize]
    decide
  · rw [hh, hc, hb]
    rfl
  · intro hs
    rw [hb] at hs
    cases hs

theorem reach_ordered {stream : Nat → UInt8} {s : PipeSys}
    (h : Reach (fifoStep stream) inOrder PipeSys.Start s) : s.Ordered stream :=
  Reach.inv (fun _ hs => hs.ordered stream) (fun _ _ _ hs ho hstep => fifoStep_ordered hs ho hstep) h

/-- **Reads are first in, first out and exactly once.** -/
theorem pipe_fifo {stream : Nat → UInt8} {s : PipeSys}
    (h : Reach (fifoStep stream) inOrder PipeSys.Start s) :
    s.committed = handOut stream 0 s.committed.length := by
  have hbuf := (reach_ordered h).buffered
  have hlen : s.committed.length ≤ s.handed := by
    have := congrArg List.length hbuf
    rw [List.length_append, length_handOut] at this
    omega
  obtain ⟨rest, hrest⟩ := Nat.exists_eq_add_of_le hlen
  rw [hrest, handOut_add] at hbuf
  exact (List.append_inj hbuf (length_handOut 0 _).symm).1

/-- a pipe whose buffer is fresh from the pool -/
def freshPipe : PipeSys := ⟨poolBuffer.init, 0, [], []⟩

theorem freshPipe_start : freshPipe.Start := ⟨⟨poolBuffer, rfl, rfl⟩, rfl, rfl, rfl⟩

instance (s : PipeSys) : ∀ e : FifoEvent, Decidable (inOrder s e)
  | .read nbyte mallocOk (.ok k) =>
    inferInstanceAs (Decidable (s.buffer.Decides mallocOk → 0 < k →
      s.buffer.primaryTail < s.buffer.sizeMax - UInt32.ofNat nbyte →
      s.buffer.secondaryTail = s.buffer.secondaryHead))
  | .read _ _ (.error _) => .isTrue trivial
  | .commit => .isTrue trivial
  | .abort => .isTrue trivial

/-- three bytes are read in an aborted transaction; the next one returns them and a fourth -/
def rereads : List FifoEvent :=
  [.read 4 true (.ok 3), .abort, .read 2 true (.ok 0), .read 1 true (.ok 0), .read 1 true (.ok 1),
    .commit]

theorem pipe_fifo_rereads :
    ∃ s, run (guarded (fifoStep fun j => UInt8.ofNat j) inOrder) freshPipe rereads = some s ∧
      s.committed = [0, 1, 2, 3] ∧
      s.committed = handOut (fun j => UInt8.ofNat j) 0 s.committed.length := by
  have hrun : (run (guarded (fifoStep fun j => UInt8.ofNat j) inOrder) freshPipe rereads).map
      PipeSys.committed = some [0, 1, 2, 3] := by decide +kernel
  obtain ⟨s, h, hc⟩ := Option.map_eq_some_iff.mp hrun
  refine ⟨s, h, hc, pipe_fifo ((reach_of_guarded rereads h).mono_init ?_)⟩
  rintro _ rfl
  exact freshPipe_start

/-! ## a run that reorders -/

section
variable {stream : Nat → UInt8} {s : PipeSys}

/-- one step in which the kernel delivers -/
theorem fifoStep_kernel {nbyte k : Nat} {q : Queue} {i : Int} (hd : s.buffer.Decides true)
    (hf : s.buffer.opened.findSpace (UInt32.ofNat nbyte) = some (q, i))
    (hv : ∀ j : Nat, j < nbyte → s.buffer.opened.Vacant (i + j)) (hk : k ≤ nbyte)
    (hpos : 0 < k) (hlt : k < 2 ^ 31) :
    fifoStep stream s (.read nbyte true (.ok k)) = some { s with
      buffer := (s.buffer.opened.store i (handOut stream s.handed k)).grow q k
      handed := s.handed + k
      returned := s.returned ++ handOut stream s.handed k } := by
  have hcall : FifoCall s.buffer nbyte true (.ok k) := by
    refine ⟨?_, fun _ => ?_, hk⟩
    · unfold speculativeHolds
      rw [if_neg (not_not.mpr hd.2.1), if_neg (not_not.mpr hd.2.2)]
      trivial
    · rw [hf]
      exact hv
  have hpos' : (0 : Int) < intOf (handOut stream s.handed k).length := by
    rw [length_handOut, intOf_of_lt hlt]
    omega
  have htakes : takes s.buffer nbyte true (.ok k) = k := if_pos ⟨hd, by rw [hf]; rfl⟩
  have hserve : readPipeSpeculative s.buffer nbyte true (.ok (handOut stream s.handed k)) =
      (⟨intOf k, ((s.buffer.opened.store i (handOut stream s.handed k)).grow q k).bytes i nbyte, 0⟩,
        (s.buffer.opened.store i (handOut stream s.handed k)).grow q k) := by
    rw [readPipeSpeculative_eq (.inr rfl), readPipeServe_drained hd.2]
    unfold readPipeKernel
    rw [hf]
    dsimp only
    rw [if_pos hpos', length_handOut]
  have hret : (((s.buffer.opened.store i (handOut stream s.handed k)).grow q k).bytes i nbyte).take
      (intOf k).toNat = handOut stream s.handed k := by
    rw [intOf_of_lt hlt, Int.toNat_natCast, Circular.bytes_take hk]
    have hmem : ((s.buffer.opened.store i (handOut stream s.handed k)).grow q k).bytes i k =
        (s.buffer.opened.store i (handOut stream s.handed k)).bytes i k := by
      cases q <;> rfl
    have hbytes := Circular.bytes_store (b := s.buffer.opened) i (handOut stream s.handed k)
    rw [length_handOut] at hbytes
    rw [hmem, hbytes]
  rw [fifoStep, if_pos hcall]
  dsimp only [Except.map]
  rw [hserve, htakes]
  dsimp only
  rw [hret]

/-- one step that is served from the speculative primary queue -/
theorem fifoStep_primary {nbyte : Nat} {d : Except Errno Nat} {b : Circular}
    (hb : s.buffer.opened = b)
    (hp : b.speculativePrimaryTail ≠ b.speculativePrimaryHead)
    (hq : queueHolds b.speculativePrimaryTail b.speculativePrimaryHead nbyte)
    (hd : deliveredFits nbyte d) (hh : b.speculativePrimaryHead.toNat < 2 ^ 31)
    (hn : nbyte < 2 ^ 31) :
    fifoStep stream s (.read nbyte true d) = some { s with
      buffer := { b with
        speculativePrimaryHead := b.speculativePrimaryHead + UInt32.ofNat nbyte }
      returned := s.returned ++ b.bytes b.speculativePrimaryHead.toNat nbyte } := by
  subst hb
  have hcall : FifoCall s.buffer nbyte true d := by
    refine ⟨?_, fun h => (hp h.2.1).elim, hd⟩
    unfold speculativeHolds
    rw [if_pos hp]
    exact hq
  have htakes : takes s.buffer nbyte true d = 0 := by
    cases d with
    | error e => rfl
    | ok k => exact if_neg fun h => hp h.1.2.1
  rw [fifoStep, if_pos hcall]
  dsimp only
  rw [readPipeSpeculative_eq (.inr rfl), readPipeServe_primary hp, htakes]
  dsimp only
  rw [Circular.index_of_lt hh, intOf_of_lt hn, Int.toNat_natCast, Circular.bytes_take le_rfl]
  rfl

/-- one step that is served from the speculative secondary queue -/
theorem fifoStep_secondary {nbyte : Nat} {d : Except Errno Nat} {b : Circular}
    (hb : s.buffer.opened = b) (hp : b.speculativePrimaryTail = b.speculativePrimaryHead)
    (hs : b.speculativeSecondaryTail ≠ b.speculativeSecondaryHead)
    (hq : queueHolds b.speculativeSecondaryTail b.speculativeSecondaryHead nbyte)
    (hd : deliveredFits nbyte d) (hh : b.speculativeSecondaryHead.toNat < 2 ^ 31)
    (hn : nbyte < 2 ^ 31) :
    fifoStep stream s (.read nbyte true d) = some { s with
      buffer := { b with
        speculativeSecondaryHead := b.speculativeSecondaryHead + UInt32.ofNat nbyte }
      returned := s.returned ++ b.bytes b.speculativeSecondaryHead.toNat nbyte } := by
  subst hb
  have hcall : FifoCall s.buffer nbyte true d := by
    refine ⟨?_, fun h => (hs h.2.2).elim, hd⟩
    unfold speculativeHolds
    rw [if_neg (not_not.mpr hp), if_pos hs]
    exact hq
  have htakes : takes s.buffer nbyte true d = 0 := by
    cases d with
    | error e => rfl
    | ok k => exact if_neg fun h => hs h.1.2.2
  rw [fifoStep, if_pos hcall]
  dsimp only
  rw [readPipeSpeculative_eq (.inr rfl), readPipeServe_secondary hp hs, htakes]
  dsimp only
  rw [Circular.index_of_lt hh, intOf_of_lt hn, Int.toNat_natCast, Circular.bytes_take le_rfl]
  rfl

end

def sized (mem : Int → UInt8) (ph pt sh st sph spt ssh sst : UInt32) (state : BufferState) :
    Circular := ⟨mem, bufferCircularSize, ph, pt, sh, st, sph, spt, ssh, sst, state⟩

section
variable {stream : Nat → UInt8} {mem : Int → UInt8} {ph pt sh st sph spt ssh sst : UInt32}
  {state : BufferState}

theorem sized_vacant {i : Int} (h0 : 0 ≤ i) (h1 : i < 8388608)
    (hp : i < ph.toNat ∨ (pt.toNat : Int) ≤ i) (hs : i < sh.toNat ∨ (st.toNat : Int) ≤ i) :
    (sized mem ph pt sh st sph spt ssh sst state).Vacant i := by
  refine ⟨h0, h1, ?_⟩
  rintro (⟨h2, h3⟩ | ⟨h2, h3⟩)
  · change (ph.toNat : Int) ≤ i at h2
    change i < (pt.toNat : Int) at h3
    omega
  · change (sh.toNat : Int) ≤ i at h2
    change i < (st.toNat : Int) at h3
    omega

def filled (stream : Nat → UInt8) (mem : Int → UInt8) (i : Int) (start k : Nat) : Int → UInt8 :=
  fun j => if i ≤ j ∧ j < i + k then stream (start + (j - i).toNat) else mem j

theorem sized_store {i : Int} {start k : Nat} :
    (sized mem ph pt sh st sph spt ssh sst state).store i (handOut stream start k) =
      sized (filled stream mem i start k) ph pt sh st sph spt ssh sst state := by
  unfold Circular.store sized
  congr 1
  funext j
  unfold filled
  rw [length_handOut]
  split
  · have hj : (j - i).toNat < k := by omega
    rw [List.getD_eq_getElem?_getD]
    simp [handOut, hj]
  · rfl

/-- the kernel delivers `k` bytes behind the primary queue -/
theorem sized_kernel_primary {s : PipeSys} {n k : Nat} {pt' : UInt32}
    (hb : s.buffer.opened = sized mem ph pt sh st sph sph ssh ssh .speculative)
    (hspace : pt < bufferCircularSize - UInt32.ofNat n)
    (hv : ∀ j : Nat, j < n →
      (sized mem ph pt sh st sph sph ssh ssh .speculative).Vacant (pt.toNat + j))
    (hk : k ≤ n) (hpos : 0 < k) (hlt : k < 2 ^ 31) (hi : pt.toNat < 2 ^ 31) (hpt : pt + UInt32.ofNat k = pt') :
    fifoStep stream s (.read n true (.ok k)) = some { s with
      buffer := sized (filled stream mem pt.toNat s.handed k) ph pt' sh st sph sph ssh ssh
        .speculative
      handed := s.handed + k
      returned := s.returned ++ handOut stream s.handed k } := by
  have hd : s.buffer.Decides true := ⟨.inr rfl, by rw [hb]; exact ⟨rfl, rfl⟩⟩
  have hf : s.buffer.opened.findSpace (UInt32.ofNat n) = some (.primary, (pt.toNat : Int)) := by
    rw [hb, ← Circular.index_of_lt hi]
    exact if_pos hspace
  rw [← hb] at hv
  rw [fifoStep_kernel hd hf hv hk hpos hlt, hb, sized_store, ← hpt]
  rfl

/-- the kernel delivers `k` bytes behind the secondary queue -/
theorem sized_kernel_secondary {s : PipeSys} {n k : Nat} {st' : UInt32}
    (hb : s.buffer.opened = sized mem ph pt sh st sph sph ssh ssh .speculative)
    (hp : ¬ pt < bufferCircularSize - UInt32.ofNat n) (hspace : st < ph + 1 - UInt32.ofNat n)
    (hv : ∀ j : Nat, j < n →
      (sized mem ph pt sh st sph sph ssh ssh .speculative).Vacant (st.toNat + j))
    (hk : k ≤ n) (hpos : 0 < k) (hlt : k < 2 ^ 31) (hi : st.toNat < 2 ^ 31) (hst : st + UInt32.ofNat k = st') :
    fifoStep stream s (.read n true (.ok k)) = some { s with
      buffer := sized (filled stream mem st.toNat s.handed k) ph pt sh st' sph sph ssh ssh
        .speculative
      handed := s.handed + k
      returned := s.returned ++ handOut stream s.handed k } := by
  have hd : s.buffer.Decides true := ⟨.inr rfl, by rw [hb]; exact ⟨rfl, rfl⟩⟩
  have hf : s.buffer.opened.findSpace (UInt32.ofNat n) = some (.secondary, (st.toNat : Int)) := by
    rw [hb, ← Circular.index_of_lt hi]
    show (if pt < bufferCircularSize - UInt32.ofNat n then _ else
      if st < ph + 1 - UInt32.ofNat n then _ else _) = _
    rw [if_neg hp, if_pos hspace]
    rfl
  rw [← hb] at hv
  rw [fifoStep_kernel hd hf hv hk hpos hlt, hb, sized_store, ← hst]
  rfl

theorem sized_abort {handed : Nat} {ret com : List UInt8} :
    fifoStep stream ⟨sized mem ph pt sh st sph spt ssh sst .speculative, handed, ret, com⟩ .abort =
      some ⟨sized mem ph pt sh st sph spt ssh sst .nonSpeculative, handed, [], com⟩ := rfl

theorem sized_commit {handed : Nat} {ret com : List UInt8} (h : spt ≠ sph) :
    fifoStep stream ⟨sized mem ph pt sh st sph spt ssh sst .speculative, handed, ret, com⟩ .commit =
      some ⟨sized mem sph spt sh st sph spt ssh sst .nonSpeculative, handed, [], com ++ ret⟩ := by
  have hcommit : (sized mem ph pt sh st sph spt ssh sst .speculative).commit =
      sized mem sph spt sh st sph spt ssh sst .nonSpeculative := by
    unfold Circular.commit
    split
    · rfl
    · rename_i hn
      exact (hn h).elim
  show some (PipeSys.mk (Circular.commit _) _ _ _) = _
  rw [hcommit]

theorem sized_serve {handed n : Nat} {sph' : UInt32} {com : List UInt8} (hne : pt ≠ ph)
    (hq : queueHolds pt ph n) (hh : ph.toNat < 2 ^ 31) (hn : n < 2 ^ 31)
    (hsph : ph + UInt32.ofNat n = sph') :
    fifoStep stream ⟨sized mem ph pt sh st sph spt ssh sst .nonSpeculative, handed, [], com⟩
        (.read n true (.ok 0)) =
      some ⟨sized mem ph pt sh st sph' pt sh st .speculative, handed,
        (sized mem ph pt sh st ph pt sh st .speculative).bytes ph.toNat n, com⟩ := by
  subst hsph
  exact fifoStep_primary (b := sized mem ph pt sh st ph pt sh st .speculative) rfl hne hq
    (Nat.zero_le _) hh hn

/-- five million bytes are read and the transaction aborts; all but one are then read and
committed -/
theorem reordering_begin (stream : Nat → UInt8) (mem : Int → UInt8) :
    ∃ a, a.length = 4999999 ∧
      run (fifoStep stream) ⟨sized mem 0 0 0 0 0 0 0 0 .nonSpeculative, 0, [], []⟩
        [.read 5000000 true (.ok 5000000), .abort, .read 4999999 true (.ok 0), .commit] =
      some ⟨sized (filled stream mem 0 0 5000000) 4999999 5000000 0 0 4999999 5000000 0 0
        .nonSpeculative, 0 + 5000000, [], a⟩ := by
  have hzero : (0 : UInt32).toNat = 0 := rfl
  have hvac : ∀ j : Nat, j < 5000000 →
      (sized mem 0 0 0 0 0 0 0 0 .speculative).Vacant ((0 : UInt32).toNat + j) := by
    intro j hj
    exact sized_vacant (by omega) (by omega) (.inr (by omega)) (.inr (by omega))
  have hread : fifoStep stream ⟨sized mem 0 0 0 0 0 0 0 0 .nonSpeculative, 0, [], []⟩
      (.read 5000000 true (.ok 5000000)) =
      some ⟨sized (filled stream mem 0 0 5000000) 0 5000000 0 0 0 0 0 0 .speculative, 0 + 5000000,
        [] ++ handOut stream 0 5000000, []⟩ :=
    sized_kernel_primary (show _ = sized mem 0 0 0 0 0 0 0 0 .speculative from rfl) (by decide) hvac
      le_rfl (by omega) (by omega) (by decide) (by decide)
  refine ⟨[] ++ (sized (filled stream mem 0 0 5000000) 0 5000000 0 0 0 5000000 0 0
    .speculative).bytes (0 : UInt32).toNat 4999999, ?_, ?_⟩
  · rw [List.nil_append, Circular.length_bytes]
  · rw [run_cons, hread, Option.bind_some, run_cons, sized_abort, Option.bind_some, run_cons,
      sized_serve (by decide) (by decide) (by decide) (by omega)
        (show (0 : UInt32) + UInt32.ofNat 4999999 = 4999999 by decide), Option.bind_some, run_cons,
      sized_commit (by decide), Option.bind_some, run_nil]

/-- the kernel delivers one byte to the secondary queue and, after an abort, the next one to the
primary queue -/
theorem reordering_abort (stream : Nat → UInt8) (mem : Int → UInt8) (handed : Nat)
    (com : List UInt8) :
    run (fifoStep stream)
        ⟨sized mem 4999999 5000000 0 0 4999999 5000000 0 0 .nonSpeculative, handed, [], com⟩
        [.read 1 true (.ok 0), .read 4000000 true (.ok 1), .abort,
          .read 1 true (.ok 0), .read 1 true (.ok 0), .read 1 true (.ok 1), .abort] =
      some ⟨sized (filled stream (filled stream mem 0 handed 1) 5000000 (handed + 1) 1)
        4999999 5000001 0 1 5000000 5000000 1 1 .nonSpeculative, handed + 1 + 1, [], com⟩ := by
  have hzero : (0 : UInt32).toNat = 0 := rfl
  have hone : (1 : UInt32).toNat = 1 := rfl
  have hp : (4999999 : UInt32).toNat = 4999999 := rfl
  have hq : (5000000 : UInt32).toNat = 5000000 := rfl
  have hvac1 : ∀ j : Nat, j < 4000000 →
      (sized mem 4999999 5000000 0 0 5000000 5000000 0 0 .speculative).Vacant
        ((0 : UInt32).toNat + j) := by
    intro j hj
    exact sized_vacant (by omega) (by omega) (.inl (by omega)) (.inr (by omega))
  have hread1 : ∀ ret, fifoStep stream
      ⟨sized mem 4999999 5000000 0 0 5000000 5000000 0 0 .speculative, handed, ret, com⟩
      (.read 4000000 true (.ok 1)) =
      some ⟨sized (filled stream mem 0 handed 1) 4999999 5000000 0 1 5000000 5000000 0 0
        .speculative, handed + 1, ret ++ handOut stream handed 1, com⟩ := fun ret =>
    sized_kernel_secondary (show _ = sized mem 4999999 5000000 0 0 5000000 5000000 0 0 .speculative
      from rfl) (by decide) (by decide) hvac1 (by omega) (by omega) (by omega) (by decide) (by decide)
  generalize filled stream mem 0 handed 1 = mem' at hread1 ⊢
  have hvac2 : ∀ j : Nat, j < 1 →
      (sized mem' 4999999 5000000 0 1 5000000 5000000 1 1 .speculative).Vacant
        ((5000000 : UInt32).toNat + j) := by
    intro j hj
    exact sized_vacant (by omega) (by omega) (.inr (by omega)) (.inr (by omega))
  have hread2 : ∀ ret, fifoStep stream
      ⟨sized mem' 4999999 5000000 0 1 5000000 5000000 1 1 .speculative, handed + 1, ret, com⟩
      (.read 1 true (.ok 1)) =
      some ⟨sized (filled stream mem' 5000000 (handed + 1) 1) 4999999 5000001 0 1 5000000 5000000
        1 1 .speculative, handed + 1 + 1, ret ++ handOut stream (handed + 1) 1, com⟩ := fun ret =>
    sized_kernel_primary (show _ = sized mem' 4999999 5000000 0 1 5000000 5000000 1 1 .speculative
      from rfl) (by decide) hvac2 (by omega) (by omega) (by omega) (by decide) (by decide)
  have hserved : ∀ ret, ∃ ret', fifoStep stream
      ⟨sized mem' 4999999 5000000 0 1 5000000 5000000 0 1 .speculative, handed + 1, ret, com⟩
      (.read 1 true (.ok 0)) =
      some ⟨sized mem' 4999999 5000000 0 1 5000000 5000000 1 1 .speculative, handed + 1, ret',
        com⟩ := fun ret => ⟨_,
    fifoStep_secondary (b := sized mem' 4999999 5000000 0 1 5000000 5000000 0 1 .speculative) rfl
      rfl (show (1 : UInt32) ≠ 0 by decide) (show queueHolds 1 0 1 by decide) (Nat.zero_le _)
      (show (0 : UInt32).toNat < 2 ^ 31 by decide) (by omega)⟩
  have hadd : (4999999 : UInt32) + UInt32.ofNat 1 = 5000000 := by decide
  rw [run_cons, sized_serve (by decide) (by decide) (by decide) (by omega) hadd, Option.bind_some,
    run_cons, hread1, Option.bind_some, run_cons, sized_abort, Option.bind_some, run_cons,
    sized_serve (by decide) (by decide) (by decide) (by omega) hadd, Option.bind_some, run_cons]
  obtain ⟨ret', hret'⟩ := hserved _
  rw [hret', Option.bind_some, run_cons, hread2, Option.bind_some, run_cons, sized_abort,
    Option.bind_some, run_nil]

/-- the two bytes of the primary queue are read and committed -/
theorem reordering_end (stream : Nat → UInt8) (mem : Int → UInt8) (handed : Nat)
    (com : List UInt8) :
    ∃ s, run (fifoStep stream)
        ⟨sized mem 4999999 5000001 0 1 5000000 5000000 1 1 .nonSpeculative, handed, [], com⟩
        [.read 2 true (.ok 0), .commit] = some s ∧
      s.committed = com ++ [mem 4999999, mem 5000000] := by
  have hadd : (4999999 : UInt32) + UInt32.ofNat 2 = 5000001 := by decide
  rw [run_cons, sized_serve (by decide) (by decide) (by decide) (by omega) hadd, Option.bind_some]
  exact ⟨_, rfl, rfl⟩

end

/-- an aborted transaction has left the primary queue at the end of the array and one byte in the
secondary queue; in the next transaction the kernel delivers one more byte, and it aborts too -/
def reordering : List FifoEvent :=
  [.read 5000000 true (.ok 5000000), .abort, .read 4999999 true (.ok 0), .commit] ++
    ([.read 1 true (.ok 0), .read 4000000 true (.ok 1), .abort,
      .read 1 true (.ok 0), .read 1 true (.ok 0), .read 1 true (.ok 1), .abort] ++
    [.read 2 true (.ok 0), .commit])

/-- what is committed then: the byte 5000001 of the stream comes before the byte 5000000 -/
theorem reordering_run (stream : Nat → UInt8) :
    ∃ s a, run (fifoStep stream) freshPipe reordering = some s ∧ a.length = 5000000 ∧
      s.committed = a ++ [stream 5000001] := by
  obtain ⟨a, ha, hbegin⟩ := reordering_begin stream fun _ => 0
  generalize filled stream (fun _ => 0) 0 0 5000000 = mem at hbegin
  have habort := reordering_abort stream mem (0 + 5000000) a
  generalize filled stream mem 0 (0 + 5000000) 1 = mem' at habort
  obtain ⟨s, hs, hc⟩ := reordering_end stream
    (filled stream mem' 5000000 (0 + 5000000 + 1) 1) (0 + 5000000 + 1 + 1) a
  have hlast : filled stream mem' 5000000 (0 + 5000000 + 1) 1 5000000 = stream 5000001 := by
    unfold filled
    rw [if_pos ⟨by omega, by omega⟩]
    rfl
  rw [hlast] at hc
  refine ⟨s, a ++ [filled stream mem' 5000000 (0 + 5000000 + 1) 1 4999999], ?_, ?_, ?_⟩
  · show run (fifoStep stream) ⟨sized (fun _ => 0) 0 0 0 0 0 0 0 0 .nonSpeculative, 0, [], []⟩ _ = _
    rw [reordering, run_append, hbegin, Option.bind_some, run_append, habort, Option.bind_some, hs]
  · rw [List.length_append, ha]
    rfl
  · rw [hc, List.append_assoc]
    rfl

theorem pipe_reordered :
    ∃ s, run (fifoStep fun j => if j = 5000001 then 1 else 0) freshPipe reordering = some s ∧
      s.committed ≠ handOut (fun j => if j = 5000001 then 1 else 0) 0 s.committed.length := by
  obtain ⟨s, a, hrun, ha, hc⟩ := reordering_run fun j => if j = 5000001 then 1 else 0
  refine ⟨s, hrun, ?_⟩
  intro heq
  have hlen : s.committed.length = 5000001 := by
    rw [hc, List.length_append, ha]
    rfl
  -- the byte 5000000 of what is committed, read off in two ways
  have hleft : s.committed[5000000]? = some 1 := by
    rw [hc, List.getElem?_append_right (by omega), ha]
    rfl
  have hright : s.committed[5000000]? = some 0 := by
    rw [heq, hlen]
    simp [handOut]
  rw [hleft] at hright
  exact absurd hright (by decide)

end XCalls
