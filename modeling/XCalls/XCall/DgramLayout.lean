import XCalls.XCall.Datagrams
import XCalls.XCall.PipeFifo

/-!
# Records in circular buffers

* `Circular.areas`     the header of a record, its payload and its control data;
* `Datagram.filled`    what is filled when a datagram is stored;
* `Circular.RecordAt`  the record of a datagram;
* `recordAt_deliver`   what `x_recvmsg` has stored is the record of the datagram that `recvmsg`
                       delivered;
* `Circular.Queued`    the records of a queue, from head to tail.
-/

namespace XCalls
open Memory (wordBytes)

/-! ## words in the array -/

theorem length_wordBytes (w : UInt32) : (wordBytes w).length = 4 := rfl

theorem payloadAt_eq : payloadAt = 1600 := rfl

theorem controlAt_eq : controlAt = 2623040 := rfl

namespace Circular
variable {b : Circular}

theorem mem_store_at {i : Int} {data : List UInt8} {k : Nat} (h : k < data.length) :
    (b.store i data).mem (i + k) = data[k] := by
  show (if i ≤ i + k ∧ i + k < i + data.length then data.getD (i + k - i).toNat 0 else _) = _
  have hk : (i + (k : Int) - i).toNat = k := by omega
  rw [if_pos ⟨by omega, by omega⟩, hk, List.getD_eq_getElem?_getD, List.getElem?_eq_getElem h,
    Option.getD_some]

theorem word_setWord (i : Int) (w : UInt32) : (b.setWord i w).word i = w := by
  have hmem : ∀ k : Nat, (h : k < 4) → (b.setWord i w).mem (i + k) = (wordBytes w)[k] :=
    fun k h => mem_store_at h
  have h0 := hmem 0 (by omega)
  rw [Int.natCast_zero, Int.add_zero] at h0
  unfold word
  rw [h0, show (b.setWord i w).mem (i + 1) = _ from hmem 1 (by omega),
    show (b.setWord i w).mem (i + 2) = _ from hmem 2 (by omega),
    show (b.setWord i w).mem (i + 3) = _ from hmem 3 (by omega)]
  apply UInt32.toNat_inj.mp
  have hw := w.toNat_lt
  simp only [wordBytes, List.getElem_cons_zero, List.getElem_cons_succ, UInt32.toNat_add,
    UInt32.toNat_mul, UInt8.toNat_toUInt32, UInt8.toNat_ofNat', UInt32.reduceToNat]
  omega

theorem word_congr {b' : Circular} {i : Int} (h : ∀ j, i ≤ j → j < i + 4 → b'.mem j = b.mem j) :
    b'.word i = b.word i := by
  unfold word
  rw [h i (by omega) (by omega), h (i + 1) (by omega) (by omega), h (i + 2) (by omega) (by omega),
    h (i + 3) (by omega) (by omega)]

theorem word_store {i j : Int} {data : List UInt8} (h : i + 4 ≤ j ∨ j + data.length ≤ i) :
    (b.store j data).word i = b.word i := by
  apply word_congr
  intro k h1 h2
  apply mem_store_of_not
  omega

theorem word_setWord_of_ne {i j : Int} {w : UInt32} (h : i + 4 ≤ j ∨ j + 4 ≤ i) :
    (b.setWord j w).word i = b.word i :=
  word_store (by rw [length_wordBytes]; exact h)

theorem bytes_store_of_apart {i j : Int} {n : Nat} {data : List UInt8}
    (h : n = 0 ∨ i + n ≤ j ∨ j + data.length ≤ i) : (b.store j data).bytes i n = b.bytes i n := by
  apply bytes_congr
  intro k hk
  apply mem_store_of_not
  omega

theorem bytes_setWord {i j : Int} {n : Nat} {w : UInt32} (h : i + n ≤ j ∨ j + 4 ≤ i) :
    (b.setWord j w).bytes i n = b.bytes i n :=
  bytes_store_of_apart (.inr (by rw [length_wordBytes]; exact h))

theorem mem_setWord {i j : Int} {w : UInt32} (h : ¬ (j ≤ i ∧ i < j + 4)) :
    (b.setWord j w).mem i = b.mem i :=
  mem_store_of_not (by rw [length_wordBytes]; exact h)

theorem address_setWord {i a : Int} (h0 : 0 ≤ a) (h1 : a < 2 ^ 31) :
    (b.setWord i (Int32.ofInt a).toUInt32).address i = a := by
  unfold address
  rw [word_setWord]
  show (Int32.ofInt a).toUInt32.toInt32.toInt = a
  rw [Int32.toInt32_toUInt32]
  exact Int32.toInt_ofInt_of_le (by omega) (by omega)

end Circular

/-! ## areas -/

/-- `recvmsg` has room for the datagram -/
structure Datagram.Fits (d : Datagram) : Prop where
  name : d.name.length ≤ sockaddrSize
  payload : d.payload.length ≤ dgramMaxSize
  control : d.control.length ≤ controlmsgMaxSize

instance (d : Datagram) : Decidable d.Fits :=
  decidable_of_iff (d.name.length ≤ sockaddrSize ∧ d.payload.length ≤ dgramMaxSize ∧
    d.control.length ≤ controlmsgMaxSize)
    ⟨fun h => ⟨h.1, h.2.1, h.2.2⟩, fun h => ⟨h.name, h.payload, h.control⟩⟩

def Datagram.span (d : Datagram) : Nat := msghdrSize + d.payload.length + d.control.length

/-- places in the array: the first one, and how many -/
abbrev Area := Int × Nat

def Area.Has (a : Area) (j : Int) : Prop := a.1 ≤ j ∧ j < a.1 + a.2

/-- the areas have no place in common -/
def Area.Apart (a a' : Area) : Prop :=
  a.2 = 0 ∨ a'.2 = 0 ∨ a.1 + a.2 ≤ a'.1 ∨ a'.1 + a'.2 ≤ a.1

instance (a a' : Area) : Decidable (a.Apart a') := inferInstanceAs (Decidable (_ ∨ _))

theorem Area.apart_iff {a a' : Area} : a.Apart a' ↔ ∀ j, a.Has j → ¬ a'.Has j := by
  unfold Area.Apart Area.Has
  constructor
  · intro h j h1 h2
    omega
  · intro h
    by_contra hn
    have h1 := h (max a.1 a'.1)
    omega

/-- the header, the payload with the control data behind it, and the control area -/
def Datagram.filled (d : Datagram) (i : Int) : List Area :=
  [(i, msghdrSize), (i + payloadAt, d.payload.length + d.control.length),
    (i + controlAt, d.control.length)]

theorem Datagram.not_filled {d : Datagram} {i j : Int} (h : ∀ a ∈ d.filled i, ¬ a.Has j) :
    ¬ (i ≤ j ∧ j < i + 40) ∧
      ¬ (i + payloadAt ≤ j ∧ j < i + payloadAt + (d.payload.length + d.control.length : Nat)) ∧
      ¬ (i + controlAt ≤ j ∧ j < i + controlAt + d.control.length) := by
  simp only [filled, List.forall_mem_cons] at h
  exact ⟨h.1, h.2.1, h.2.2.1⟩

namespace Circular
variable {b : Circular}

def Inside (b : Circular) (a : Area) : Prop := a.2 = 0 ∨ 0 ≤ a.1 ∧ a.1 + a.2 ≤ b.sizeMax.toNat

instance (b : Circular) (a : Area) : Decidable (b.Inside a) := inferInstanceAs (Decidable (_ ∨ _))

/-- the header at `i`, the payload and the control data that it points to -/
def areas (b : Circular) (i : Int) : List Area :=
  [(i, msghdrSize), (b.address (i + 20), (b.word (i + 24)).toNat),
    (b.address (i + 28), (b.word (i + 32)).toNat)]

/-! ## records -/

/-- the record of the datagram, with its header at `i` -/
structure RecordAt (b : Circular) (i : Int) (d : Datagram) : Prop where
  fits : d.Fits
  name : b.bytes i d.name.length = d.name
  namelen : b.word (i + 16) = d.namelen
  iovBase : b.address (i + 20) = i + payloadAt
  iovLen : b.word (i + 24) = UInt32.ofNat d.payload.length
  controlBase : b.address (i + 28) = i + controlAt
  controllen : b.word (i + 32) = UInt32.ofNat d.control.length
  flags : b.word (i + 36) = d.flags
  payload : b.bytes (i + payloadAt) d.payload.length = d.payload
  control : b.bytes (i + controlAt) d.control.length = d.control

variable {i : Int} {d : Datagram}

theorem toNat_ofNat_le {n : Nat} (h : n ≤ dgramMaxSize) : (UInt32.ofNat n).toNat = n := by
  rw [UInt32.toNat_ofNat']
  exact Nat.mod_eq_of_lt (Nat.lt_of_le_of_lt h (by decide))

theorem toNat_ofNat_span (h : d.Fits) : (UInt32.ofNat d.span).toNat = d.span := by
  have h1 : d.payload.length ≤ 65536 := h.payload
  have h2 : d.control.length ≤ 2048 := h.control
  have h3 : d.span = 40 + d.payload.length + d.control.length := rfl
  rw [UInt32.toNat_ofNat']
  exact Nat.mod_eq_of_lt (by omega)

namespace RecordAt

theorem toNat_iovLen (h : b.RecordAt i d) : (b.word (i + 24)).toNat = d.payload.length := by
  rw [h.iovLen, toNat_ofNat_le h.fits.payload]

theorem toNat_controllen (h : b.RecordAt i d) : (b.word (i + 32)).toNat = d.control.length := by
  have hc := h.fits.control
  rw [h.controllen, toNat_ofNat_le (Nat.le_trans hc (by decide))]

theorem areas_eq (h : b.RecordAt i d) :
    b.areas i = [(i, msghdrSize), (i + payloadAt, d.payload.length),
      (i + controlAt, d.control.length)] := by
  unfold Circular.areas
  rw [h.iovBase, h.controlBase, h.toNat_iovLen, h.toNat_controllen]

theorem recordLen (h : b.RecordAt i d) : b.recordLen i = UInt32.ofNat d.span := by
  unfold Circular.recordLen Datagram.span
  rw [h.iovLen, h.controllen, UInt32.ofNat_add, UInt32.ofNat_add]

/-- a record whose areas are left alone -/
theorem frame {b' : Circular} (h : b.RecordAt i d)
    (hm : ∀ a ∈ b.areas i, ∀ j, a.Has j → b'.mem j = b.mem j) : b'.RecordAt i d := by
  have hn := h.fits.name
  rw [h.areas_eq] at hm
  have hheader : ∀ j, i ≤ j → j < i + 40 → b'.mem j = b.mem j := fun j h1 h2 =>
    hm (i, msghdrSize) (by simp) j ⟨h1, h2⟩
  have hword : ∀ k : Int, 0 ≤ k → k ≤ 36 → b'.word (i + k) = b.word (i + k) := by
    intro k h1 h2
    refine word_congr fun j h3 h4 => hheader j (by omega) (by omega)
  have hbase : ∀ k : Int, 0 ≤ k → k ≤ 36 → b'.address (i + k) = b.address (i + k) := by
    intro k h1 h2
    unfold Circular.address
    rw [hword k h1 h2]
  have hname : b'.bytes i d.name.length = b.bytes i d.name.length := by
    refine bytes_congr fun j hj => hheader _ (by omega) ?_
    have : sockaddrSize = 16 := rfl
    omega
  have hpayload : b'.bytes (i + payloadAt) d.payload.length =
      b.bytes (i + payloadAt) d.payload.length :=
    bytes_congr fun j hj => hm (i + payloadAt, d.payload.length) (by simp) _
      ⟨by show i + payloadAt ≤ _; omega, by show _ < i + payloadAt + d.payload.length; omega⟩
  have hcontrol : b'.bytes (i + controlAt) d.control.length =
      b.bytes (i + controlAt) d.control.length :=
    bytes_congr fun j hj => hm (i + controlAt, d.control.length) (by simp) _
      ⟨by show i + controlAt ≤ _; omega, by show _ < i + controlAt + d.control.length; omega⟩
  exact {
    fits := h.fits
    name := hname.trans h.name
    namelen := (hword 16 (by omega) (by omega)).trans h.namelen
    iovBase := (hbase 20 (by omega) (by omega)).trans h.iovBase
    iovLen := (hword 24 (by omega) (by omega)).trans h.iovLen
    controlBase := (hbase 28 (by omega) (by omega)).trans h.controlBase
    controllen := (hword 32 (by omega) (by omega)).trans h.controllen
    flags := (hword 36 (by omega) (by omega)).trans h.flags
    payload := hpayload.trans h.payload
    control := hcontrol.trans h.control }

end RecordAt

/-! ## storing a datagram -/

theorem address_prepare (h0 : 0 ≤ i) (h1 : i + controlAt < 2 ^ 31) :
    (b.prepare i).address (i + 20) = i + payloadAt ∧
      (b.prepare i).address (i + 28) = i + controlAt := by
  have hp := payloadAt_eq
  have hc := controlAt_eq
  constructor
  · show index (word _ _) = _
    rw [prepare, word_setWord_of_ne (by omega)]
    exact address_setWord (by omega) (by omega)
  · exact address_setWord (by omega) (by omega)

/-- the datagram is stored and described, before the queue grows -/
def laid (b : Circular) (i : Int) (d : Datagram) : Circular :=
  ((b.prepare i).receive i d).describe i d

theorem receive_eq (h0 : 0 ≤ i) (h1 : i + controlAt < 2 ^ 31) (hf : d.Fits) :
    (b.prepare i).receive i d = (((b.prepare i).store i d.name).store (i + payloadAt)
      d.payload).store (i + controlAt) d.control := by
  obtain ⟨hp, hc⟩ := address_prepare h0 h1 (b := b)
  unfold receive
  rw [hp, hc, List.take_of_length_le hf.name, List.take_of_length_le hf.payload,
    List.take_of_length_le hf.control]

theorem recordAt_laid (h0 : 0 ≤ i) (h1 : i + controlAt < 2 ^ 31) (hf : d.Fits) :
    (b.laid i d).RecordAt i d := by
  have hp := payloadAt_eq
  have hc := controlAt_eq
  have hn : d.name.length ≤ 16 := hf.name
  have hl : d.payload.length ≤ 65536 := hf.payload
  have hm : d.control.length ≤ 2048 := hf.control
  obtain ⟨hbase, hcontrol⟩ := address_prepare h0 h1 (b := b)
  -- the two addresses are written before, and outside what `recvmsg` fills
  have haddress : ∀ k : Int, 20 ≤ k → k ≤ 28 → k ≠ 24 → (k < 24 → k = 20) → (24 < k → k = 28) →
      (b.laid i d).word (i + k) = (b.prepare i).word (i + k) := by
    intro k h2 h3 h4 h5 h6
    unfold laid describe
    rw [word_setWord_of_ne (by omega), word_setWord_of_ne (by omega),
      word_setWord_of_ne (by omega), word_setWord_of_ne (by omega), receive_eq h0 h1 hf,
      word_store (by omega), word_store (by omega), word_store (by omega)]
  have hbytes : ∀ (j : Int) (n : Nat), i + 40 ≤ j ∨ j + n ≤ i + 16 →
      (b.laid i d).bytes j n = ((b.prepare i).receive i d).bytes j n := by
    intro j n hj
    unfold laid describe
    rw [bytes_setWord (by omega), bytes_setWord (by omega), bytes_setWord (by omega),
      bytes_setWord (by omega)]
  refine ⟨hf, ?_, ?_, ?_, ?_, ?_, ?_, ?_, ?_, ?_⟩
  · rw [hbytes i _ (by omega), receive_eq h0 h1 hf, bytes_store_of_apart (by omega),
      bytes_store_of_apart (by omega), bytes_store]
  · unfold laid describe
    rw [word_setWord_of_ne (by omega), word_setWord_of_ne (by omega), word_setWord]
  · show index _ = _
    rw [haddress 20 (by omega) (by omega) (by omega) (by omega) (by omega)]
    exact hbase
  · unfold laid describe
    rw [word_setWord_of_ne (by omega), word_setWord_of_ne (by omega),
      word_setWord_of_ne (by omega), word_setWord, List.take_of_length_le hf.payload]
  · show index _ = _
    rw [haddress 28 (by omega) (by omega) (by omega) (by omega) (by omega)]
    exact hcontrol
  · unfold laid describe
    rw [word_setWord_of_ne (by omega), word_setWord, List.take_of_length_le hf.control]
  · unfold laid describe
    rw [word_setWord]
  · rw [hbytes _ _ (by omega), receive_eq h0 h1 hf, bytes_store_of_apart (by omega), bytes_store]
  · rw [hbytes _ _ (by omega), receive_eq h0 h1 hf, bytes_store]

theorem mem_laid (h0 : 0 ≤ i) (h1 : i + controlAt < 2 ^ 31) (hf : d.Fits) {j : Int}
    (hj : ∀ a ∈ d.filled i, ¬ a.Has j) : (b.laid i d).mem j = b.mem j := by
  have hn : d.name.length ≤ 16 := hf.name
  obtain ⟨h2, h3, h4⟩ := Datagram.not_filled hj
  unfold laid describe
  rw [mem_setWord (by omega), mem_setWord (by omega), mem_setWord (by omega),
    mem_setWord (by omega), receive_eq h0 h1 hf, mem_store_of_not (by omega),
    mem_store_of_not (by omega), mem_store_of_not (by omega), prepare, mem_setWord (by omega),
    mem_setWord (by omega)]

theorem RecordAt.grow {q : Queue} {n : Nat} (h : b.RecordAt i d) : (b.grow q n).RecordAt i d := by
  cases q <;> exact h.frame fun _ _ _ _ => rfl

/-- the control data are copied behind the payload; their place in the header stays -/
theorem shiftControl_eq (h : b.RecordAt i d) :
    b.shiftControl i = b.store (i + payloadAt + d.payload.length) d.control := by
  unfold shiftControl
  split
  · rw [h.iovBase, h.controlBase, h.toNat_iovLen, h.toNat_controllen, h.control]
  · rename_i hz
    have hz : (b.word (i + 32)).toNat = 0 := by
      rw [not_not.mp hz]
      rfl
    rw [h.toNat_controllen] at hz
    rw [List.eq_nil_of_length_eq_zero hz, store_nil]

/-- **A datagram that is stored is a record.**  Nothing else changes but the tail. -/
theorem recordAt_deliver (h0 : 0 ≤ i) (h1 : i + controlAt < 2 ^ 31) (hf : d.Fits)
    (hpos : 0 < d.payload.length) (q : Queue) :
    (b.deliver q i (.ok d)).RecordAt i d ∧
      (∀ j, (∀ a ∈ d.filled i, ¬ a.Has j) → (b.deliver q i (.ok d)).mem j = b.mem j) ∧
      b.deliver q i (.ok d) = { b.grow q d.span with mem := (b.deliver q i (.ok d)).mem } := by
  have hp := payloadAt_eq
  have hc := controlAt_eq
  have hl : d.payload.length ≤ 65536 := hf.payload
  have hm : d.control.length ≤ 2048 := hf.control
  have hlaid := recordAt_laid h0 h1 hf (b := b)
  have heq : b.deliver q i (.ok d) =
      ((b.laid i d).grow q d.span).store (i + payloadAt + d.payload.length) d.control := by
    show (if 0 < (d.payload.take dgramMaxSize).length then
      ((b.laid i d).growRecord q i).shiftControl i else _) = _
    rw [List.take_of_length_le hf.payload, if_pos hpos, growRecord, hlaid.recordLen,
      toNat_ofNat_span hf, shiftControl_eq hlaid.grow]
  have hgrow : ((b.laid i d).grow q d.span).mem = (b.laid i d).mem := by
    cases q <;> rfl
  rw [heq]
  refine ⟨?_, ?_, ?_⟩
  · refine hlaid.grow.frame fun a ha j hj => mem_store_of_not ?_
    rw [hlaid.grow.areas_eq] at ha
    simp only [List.mem_cons, List.not_mem_nil, or_false] at ha
    have h40 : msghdrSize = 40 := rfl
    rcases ha with rfl | rfl | rfl
    all_goals
      obtain ⟨h2, h3⟩ := hj
      dsimp only at h2 h3
      omega
  · intro j hj
    obtain ⟨-, h3, -⟩ := Datagram.not_filled hj
    rw [mem_store_of_not (by omega), hgrow]
    exact mem_laid h0 h1 hf hj
  · cases q <;> rfl

/-! ## queues of records -/

def headers (b : Circular) : Nat → UInt32 → UInt32 → List Int
  | 0, _, _ => []
  | fuel + 1, head, tail =>
    if head = tail then []
    else index head :: b.headers fuel (head + b.recordLen (index head)) tail

/-- the headers of the buffered records -/
def records (b : Circular) : List Int :=
  b.headers b.sizeMax.toNat b.primaryHead b.primaryTail ++
    b.headers b.sizeMax.toNat b.secondaryHead b.secondaryTail

def Queued (b : Circular) : UInt32 → UInt32 → List Datagram → Prop
  | head, tail, [] => head = tail
  | head, tail, d :: ds => head.toNat + d.span ≤ tail.toNat ∧ b.RecordAt head.toNat d ∧
      b.Queued (head + UInt32.ofNat d.span) tail ds

end Circular

def places : Nat → List Datagram → List Int
  | _, [] => []
  | head, d :: ds => (head : Int) :: places (head + d.span) ds

theorem Datagram.span_pos (d : Datagram) : 0 < d.span := by
  have : d.span = 40 + d.payload.length + d.control.length := rfl
  omega

namespace Circular
variable {b b' : Circular} {head tail : UInt32} {d : Datagram} {ds : List Datagram}

theorem Queued.next (h : b.Queued head tail (d :: ds)) :
    (head + UInt32.ofNat d.span).toNat = head.toNat + d.span := by
  have := h.1
  have := tail.toNat_lt
  exact toNat_add_ofNat (by omega)

theorem Queued.le (h : b.Queued head tail ds) : head.toNat ≤ tail.toNat := by
  cases ds with
  | nil => rw [show head = tail from h]
  | cons d ds => exact Nat.le_trans (Nat.le_add_right _ _) h.1

theorem Queued.eq_iff (h : b.Queued head tail ds) : tail = head ↔ ds = [] := by
  cases ds with
  | nil => exact iff_of_true (show head = tail from h).symm rfl
  | cons d ds =>
    refine iff_of_false (fun he => ?_) (List.cons_ne_nil d ds)
    have h1 := h.1
    have h2 := d.span_pos
    rw [he] at h1
    omega

theorem Queued.record (h : b.Queued head tail ds) :
    ∀ i ∈ places head.toNat ds, ∃ d, b.RecordAt i d := by
  induction ds generalizing head with
  | nil => exact fun i hi => (List.not_mem_nil hi).elim
  | cons d ds ih =>
    intro i hi
    rcases List.mem_cons.mp hi with rfl | hi
    · exact ⟨d, h.2.1⟩
    · exact ih h.2.2 i (h.next ▸ hi)

/-- the walk along the headers finds them -/
theorem Queued.headers (h : b.Queued head tail ds) (ht : tail.toNat < 2 ^ 31) {fuel : Nat}
    (hf : tail.toNat - head.toNat ≤ fuel) : b.headers fuel head tail = places head.toNat ds := by
  induction ds generalizing head fuel with
  | nil =>
    cases fuel with
    | zero => rfl
    | succ fuel => exact if_pos h
  | cons d ds ih =>
    have hle := h.1
    have hpos := d.span_pos
    have hi : index head = head.toNat := index_of_lt (by omega)
    have hn := h.next
    cases fuel with
    | zero => omega
    | succ fuel =>
      rw [Circular.headers, if_neg (fun he => List.cons_ne_nil d ds (h.eq_iff.mp he.symm)), hi,
        h.2.1.recordLen, ih h.2.2 (by omega), hn]
      rfl

theorem Queued.frame (h : b.Queued head tail ds)
    (hm : ∀ i ∈ places head.toNat ds, ∀ a ∈ b.areas i, ∀ j, a.Has j → b'.mem j = b.mem j) :
    b'.Queued head tail ds := by
  induction ds generalizing head with
  | nil => exact h
  | cons d ds ih =>
    refine ⟨h.1, h.2.1.frame (hm _ List.mem_cons_self), ih h.2.2 fun i hi => ?_⟩
    exact hm i (List.mem_cons_of_mem _ (h.next ▸ hi))

theorem Queued.snoc (h : b.Queued head tail ds) (hr : b.RecordAt tail.toNat d)
    (hs : tail.toNat + d.span < 2 ^ 32) :
    b.Queued head (tail + UInt32.ofNat d.span) (ds ++ [d]) := by
  have ht := toNat_add_ofNat hs
  induction ds generalizing head with
  | nil =>
    have h' : head = tail := h
    subst h'
    exact ⟨by omega, hr, rfl⟩
  | cons d' ds ih =>
    have := h.1
    exact ⟨by omega, h.2.1, ih h.2.2⟩

theorem Queued.places_snoc (h : b.Queued head tail ds) :
    places head.toNat (ds ++ [d]) = places head.toNat ds ++ [(tail.toNat : Int)] := by
  induction ds generalizing head with
  | nil =>
    have h' : head = tail := h
    subst h'
    rfl
  | cons d' ds ih =>
    have hn := ih h.2.2
    rw [h.next] at hn
    exact congrArg (List.cons _) hn

theorem Queued.rest (h : b.Queued head tail (d :: ds)) :
    b.Queued (head + b.recordLen head.toNat) tail ds := by
  rw [h.2.1.recordLen]
  exact h.2.2

end Circular

/-! ## what a call returns -/

/-- the reply to a call with room for `lens` bytes tells of the datagram -/
structure Returns (lens : List Nat) (r : RecvReply) (d : Datagram) : Prop where
  name : r.name.take d.name.length = d.name
  namelen : r.namelen = d.namelen
  data : r.data.flatten = d.payload.take lens.sum
  control : r.control = d.control
  flags : r.flags = d.flags
  ret : d.payload.length ≤ lens.sum → r.ret = d.payload.length

namespace Circular
variable {b : Circular} {i : Int} {d : Datagram}

theorem flatten_scatter (base : Int) (s : Nat) (lens : List Nat) :
    (b.scatter base s lens).flatten = b.bytes (base + s) lens.sum := by
  induction lens generalizing s with
  | nil => rfl
  | cons len lens ih =>
    rw [scatter, List.flatten_cons, ih, List.sum_cons, bytes_add, Int.natCast_add, Int.add_assoc]

/-- a record is copied out, if there is not more room than it needs -/
theorem RecordAt.copyOut (h : b.RecordAt i d) {lens : List Nat}
    (hl : lens.sum ≤ d.payload.length) : Returns lens (b.copyOut i lens) d := by
  have hL : d.payload.length ≤ 65536 := h.fits.payload
  refine ⟨?_, h.namelen, ?_, ?_, h.flags, ?_⟩
  · show (b.bytes i sockaddrSize).take _ = _
    rw [bytes_take h.fits.name]
    exact h.name
  · show (b.scatter _ 0 lens).flatten = _
    rw [flatten_scatter, h.iovBase, Int.natCast_zero, Int.add_zero, ← bytes_take hl, h.payload]
  · show b.bytes _ _ = _
    rw [h.controlBase, h.toNat_controllen, h.control]
  · intro hle
    have hsum : lens.sum = d.payload.length := by omega
    show intOf lens.sum = _
    rw [hsum, intOf_of_lt (by omega)]

end Circular

theorem flatten_chunks (lens : List Nat) (acc : List (List UInt8)) (rest : List UInt8) :
    (lens.foldl (fun (s : List (List UInt8) × List UInt8) len =>
      (s.1 ++ [s.2.take len], s.2.drop len)) (acc, rest)).1.flatten =
      acc.flatten ++ rest.take lens.sum := by
  induction lens generalizing acc rest with
  | nil => simp
  | cons len lens ih =>
    rw [List.foldl_cons, ih, List.flatten_append, List.flatten_singleton, List.append_assoc,
      List.sum_cons, List.take_add]

theorem recvFromKernel_returns {d : Datagram} (hf : d.Fits) (lens : List Nat) (errno : Int) :
    Returns lens (recvFromKernel lens errno (.ok d)) d := by
  have hL : d.payload.length ≤ 65536 := hf.payload
  refine ⟨List.take_length, rfl, ?_, rfl, rfl, ?_⟩
  · unfold recvFromKernel
    dsimp only
    rw [flatten_chunks, List.flatten_nil, List.nil_append, List.take_take, Nat.min_self]
  · intro hle
    show intOf (d.payload.take lens.sum).length = _
    rw [List.take_of_length_le hle, intOf_of_lt (by omega)]

end XCalls
