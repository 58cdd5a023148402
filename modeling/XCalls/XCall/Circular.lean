import XCalls.Lib.EventSys
import XCalls.XCall.Kernel

/-!
# Circular buffers: `buffer.c`, and their use in `x_read_pipe.c`

* `Circular`       two queues in one array, with committed and speculative indices;
* `findSpace`      where the next data from the kernel go;
* `readPipeSpeculative`, `readPipeDirect`   `__txc_read_pipe` behind the sentinel, in a retryable
                   transaction and otherwise;
* `pipeStep`       calls, commits and aborts one after the other;
* `space_is_free`  the data go to free bytes inside the array, in every run in which none of the
                   tests for space wraps around.
-/

namespace XCalls
open EventSys

/-! ## the buffer -/

/-- `txc_buffer_state_t` -/
inductive BufferState where
  | nonSpeculative
  | speculative
  deriving DecidableEq, Repr

/-- `struct txc_buffer_circular_s`; `mem` is the memory around `buf`, by its distance from `buf` -/
structure Circular where
  mem : Int → UInt8
  sizeMax : UInt32
  primaryHead : UInt32
  primaryTail : UInt32
  secondaryHead : UInt32
  secondaryTail : UInt32
  speculativePrimaryHead : UInt32
  speculativePrimaryTail : UInt32
  speculativeSecondaryHead : UInt32
  speculativeSecondaryTail : UInt32
  state : BufferState

/-- `TXC_BUFFER_CIRCULAR_SIZE` -/
def bufferCircularSize : UInt32 := 1024 * (64 * 2) * 64

/-- the part of the array that a kernel read goes to -/
inductive Queue where
  | primary
  | secondary
  deriving DecidableEq, Repr

namespace Circular

/-- `txc_buffer_circular_init`: the speculative indices keep what they hold -/
def init (b : Circular) : Circular :=
  { b with
    primaryHead := 0, primaryTail := 0, secondaryHead := 0, secondaryTail := 0
    state := .nonSpeculative }

/-- an index in the variable `int hdr_base_index` -/
def index (i : UInt32) : Int := i.toInt32.toInt

/-- `nbyte` bytes from `&buffer->buf[i]` on -/
def bytes (b : Circular) (i : Int) (nbyte : Nat) : List UInt8 :=
  (List.range nbyte).map fun j : Nat => b.mem (i + j)

/-- the kernel has stored `data` at `&buffer->buf[i]` -/
def store (b : Circular) (i : Int) (data : List UInt8) : Circular :=
  { b with mem := fun j =>
      if i ≤ j ∧ j < i + data.length then data.getD (j - i).toNat 0 else b.mem j }

/-- `primary_tail += n` or `secondary_tail += n` -/
def grow (b : Circular) (q : Queue) (n : Nat) : Circular :=
  match q with
  | .primary => { b with primaryTail := b.primaryTail + UInt32.ofNat n }
  | .secondary => { b with secondaryTail := b.secondaryTail + UInt32.ofNat n }

/-- the first speculative access of a transaction -/
def snapshot (b : Circular) : Circular :=
  { b with
    speculativePrimaryHead := b.primaryHead
    speculativePrimaryTail := b.primaryTail
    speculativeSecondaryHead := b.secondaryHead
    speculativeSecondaryTail := b.secondaryTail
    state := .speculative }

/-- the two tests for space, in the arithmetic of `unsigned int` -/
def findSpace (b : Circular) (neededBytes : UInt32) : Option (Queue × Int) :=
  if b.primaryTail < b.sizeMax - neededBytes then some (.primary, index b.primaryTail)
  else if b.secondaryTail < b.primaryHead + 1 - neededBytes then
    some (.secondary, index b.secondaryTail)
  else none

/-- `x_read_pipe_commit`, `x_recvmsg_commit` -/
def commit (b : Circular) : Circular :=
  { (if b.speculativePrimaryTail ≠ b.speculativePrimaryHead then
      { b with
        primaryHead := b.speculativePrimaryHead, primaryTail := b.speculativePrimaryTail }
    else if b.speculativeSecondaryTail ≠ b.speculativeSecondaryHead then
      { b with
        primaryHead := b.speculativeSecondaryHead, primaryTail := b.speculativeSecondaryTail
        secondaryHead := 0, secondaryTail := 0 }
    else
      { b with primaryHead := 0, primaryTail := 0, secondaryHead := 0, secondaryTail := 0 }) with
    state := .nonSpeculative }

/-- `x_read_pipe_undo`, `x_recvmsg_undo` -/
def undo (b : Circular) : Circular := { b with state := .nonSpeculative }

end Circular

/-! ## x_read_pipe -/

/-- `ret`, what `memcpy` has stored at `buf`, and `local_result` -/
structure PipeReply where
  ret : Int
  data : List UInt8
  localResult : Errno

/-- a number of bytes in the variable `int ret` -/
def intOf (n : Nat) : Int := (Int32.ofNat n).toInt

/-- the branch without buffered data; `read` is what `txc_libc_read` responds -/
def readPipeKernel (b : Circular) (nbyte : Nat) (read : Except Errno (List UInt8)) :
    PipeReply × Circular :=
  match b.findSpace (UInt32.ofNat nbyte) with
  | none => (⟨-1, [], Errno.enomem⟩, b)
  | some (q, i) =>
    match read with
    -- the error number is lost
    | .error _ => (⟨-1, b.bytes i nbyte, 0⟩, b)
    | .ok data =>
      let b' := if 0 < intOf data.length then (b.store i data).grow q data.length
        else b.store i data
      (⟨intOf data.length, b'.bytes i nbyte, 0⟩, b')

/-- the speculative branch once the buffer is in the state `TXC_BUFFER_STATE_SPECULATIVE` -/
def readPipeServe (b : Circular) (nbyte : Nat) (read : Except Errno (List UInt8)) :
    PipeReply × Circular :=
  if b.speculativePrimaryTail ≠ b.speculativePrimaryHead then
    (⟨intOf nbyte, b.bytes (Circular.index b.speculativePrimaryHead) nbyte, 0⟩,
      { b with speculativePrimaryHead := b.speculativePrimaryHead + UInt32.ofNat nbyte })
  else if b.speculativeSecondaryTail ≠ b.speculativeSecondaryHead then
    (⟨intOf nbyte, b.bytes (Circular.index b.speculativeSecondaryHead) nbyte, 0⟩,
      { b with speculativeSecondaryHead := b.speculativeSecondaryHead + UInt32.ofNat nbyte })
  else readPipeKernel b nbyte read

/-- `__txc_read_pipe` in a retryable transaction that has the sentinel -/
def readPipeSpeculative (b : Circular) (nbyte : Nat) (mallocOk : Bool)
    (read : Except Errno (List UInt8)) : PipeReply × Circular :=
  match b.state with
  | .speculative => readPipeServe b nbyte read
  | .nonSpeculative =>
    if mallocOk then readPipeServe b.snapshot nbyte read else (⟨-1, [], Errno.enomem⟩, b)

/-- `__txc_read_pipe` outside a retryable transaction; `garbage` is what `ret` and `errno` hold
before they are set -/
def readPipeDirect (b : Circular) (nbyte : Nat) (garbage : Int)
    (read : Except Errno (List UInt8)) : PipeReply × Circular :=
  if b.primaryTail ≠ b.primaryHead then
    (⟨garbage, b.bytes (Circular.index b.primaryHead) nbyte, 0⟩,
      { b with primaryHead := b.primaryHead + UInt32.ofNat nbyte })
  else if b.secondaryTail ≠ b.secondaryHead then
    (⟨garbage, b.bytes (Circular.index b.secondaryHead) nbyte, 0⟩,
      { b with
        primaryTail := b.secondaryTail, primaryHead := b.secondaryHead + UInt32.ofNat nbyte
        secondaryHead := 0, secondaryTail := 0 })
  else match read with
    | .error e => (⟨-1, [], e⟩, b)
    | .ok data => (⟨intOf data.length, data, garbage⟩, b)

/-! ## runs -/

inductive PipeEvent where
  | readSpeculative (nbyte : Nat) (mallocOk : Bool) (read : Except Errno (List UInt8))
  | readDirect (nbyte : Nat) (garbage : Int) (read : Except Errno (List UInt8))
  | commit
  | abort

/-- a read that is served from the queue does not ask for more than the queue holds -/
def queueHolds (tail head : UInt32) (nbyte : Nat) : Prop := nbyte ≤ tail.toNat - head.toNat

instance (tail head : UInt32) (nbyte : Nat) : Decidable (queueHolds tail head nbyte) :=
  inferInstanceAs (Decidable (nbyte ≤ tail.toNat - head.toNat))

/-- the buffer when the speculative branch looks for data -/
def Circular.opened (b : Circular) : Circular :=
  match b.state with
  | .speculative => b
  | .nonSpeculative => b.snapshot

/-- the kernel delivers no more than was asked for -/
def readFits (nbyte : Nat) : Except Errno (List UInt8) → Prop
  | .error _ => True
  | .ok data => data.length ≤ nbyte

instance (nbyte : Nat) : ∀ r : Except Errno (List UInt8), Decidable (readFits nbyte r)
  | .error _ => .isTrue trivial
  | .ok data => inferInstanceAs (Decidable (data.length ≤ nbyte))

def speculativeHolds (b : Circular) (nbyte : Nat) : Prop :=
  if b.speculativePrimaryTail ≠ b.speculativePrimaryHead then
    queueHolds b.speculativePrimaryTail b.speculativePrimaryHead nbyte
  else if b.speculativeSecondaryTail ≠ b.speculativeSecondaryHead then
    queueHolds b.speculativeSecondaryTail b.speculativeSecondaryHead nbyte
  else True

instance (b : Circular) (nbyte : Nat) : Decidable (speculativeHolds b nbyte) :=
  inferInstanceAs (Decidable (ite _ (queueHolds _ _ _) (ite _ (queueHolds _ _ _) True)))

def directHolds (b : Circular) (nbyte : Nat) : Prop :=
  if b.primaryTail ≠ b.primaryHead then queueHolds b.primaryTail b.primaryHead nbyte
  else if b.secondaryTail ≠ b.secondaryHead then
    queueHolds b.secondaryTail b.secondaryHead nbyte
  else True

instance (b : Circular) (nbyte : Nat) : Decidable (directHolds b nbyte) :=
  inferInstanceAs (Decidable (ite _ (queueHolds _ _ _) (ite _ (queueHolds _ _ _) True)))

/-- one event; the actions of a transaction exist once it has entered the speculative state -/
def pipeStep (b : Circular) : PipeEvent → Option Circular
  | .readSpeculative nbyte mallocOk read =>
    if speculativeHolds b.opened nbyte ∧ readFits nbyte read then
      some (readPipeSpeculative b nbyte mallocOk read).2
    else none
  | .readDirect nbyte garbage read =>
    if directHolds b nbyte ∧ readFits nbyte read then
      some (readPipeDirect b nbyte garbage read).2
    else none
  | .commit => if b.state = .speculative then some b.commit else none
  | .abort => if b.state = .speculative then some b.undo else none

/-! ## the queues stay apart -/

/-- the committed queues lie in the array, the secondary below the primary; what a commit makes the
primary queue lies above the secondary -/
structure Circular.Apart (b : Circular) : Prop where
  primary : b.primaryHead.toNat ≤ b.primaryTail.toNat
  inside : b.primaryTail.toNat ≤ b.sizeMax.toNat
  secondary : b.secondaryHead.toNat ≤ b.secondaryTail.toNat
  below : b.secondaryTail.toNat ≤ b.primaryHead.toNat
  speculative : b.state = .speculative →
    b.speculativePrimaryHead.toNat ≤ b.speculativePrimaryTail.toNat ∧
    b.speculativePrimaryTail.toNat ≤ b.sizeMax.toNat ∧
    b.speculativeSecondaryHead.toNat ≤ b.speculativeSecondaryTail.toNat ∧
    b.speculativeSecondaryTail.toNat ≤ b.sizeMax.toNat ∧
    (b.speculativePrimaryTail ≠ b.speculativePrimaryHead →
      b.secondaryTail.toNat ≤ b.speculativePrimaryHead.toNat)

/-- neither test for space wraps around, and the index found is not negative as an `int` -/
structure Circular.Exact (b : Circular) (nbyte : Nat) : Prop where
  small : nbyte ≤ b.sizeMax.toNat
  primary : b.primaryTail.toNat + nbyte < b.sizeMax.toNat → b.primaryTail.toNat < 2 ^ 31
  secondary : b.sizeMax.toNat ≤ b.primaryTail.toNat + nbyte →
    nbyte ≤ b.primaryHead.toNat + 1 ∧ b.primaryHead.toNat + 1 < 2 ^ 32 ∧
    (b.secondaryTail.toNat + nbyte ≤ b.primaryHead.toNat → b.secondaryTail.toNat < 2 ^ 31)

instance (b : Circular) (nbyte : Nat) : Decidable (b.Exact nbyte) :=
  decidable_of_iff (nbyte ≤ b.sizeMax.toNat ∧
    (b.primaryTail.toNat + nbyte < b.sizeMax.toNat → b.primaryTail.toNat < 2 ^ 31) ∧
    (b.sizeMax.toNat ≤ b.primaryTail.toNat + nbyte →
      nbyte ≤ b.primaryHead.toNat + 1 ∧ b.primaryHead.toNat + 1 < 2 ^ 32 ∧
      (b.secondaryTail.toNat + nbyte ≤ b.primaryHead.toNat → b.secondaryTail.toNat < 2 ^ 31)))
    ⟨fun h => ⟨h.1, h.2.1, h.2.2⟩, fun h => ⟨h.small, h.primary, h.secondary⟩⟩

theorem Circular.index_of_lt {i : UInt32} (h : i.toNat < 2 ^ 31) : index i = i.toNat := by
  have hi : 2 * i.toBitVec.toNat < 2 ^ 32 := by
    show 2 * i.toNat < 2 ^ 32
    omega
  exact BitVec.toInt_eq_toNat_of_lt hi

theorem toNat_add_ofNat {a : UInt32} {n : Nat} (h : a.toNat + n < 2 ^ 32) :
    (a + UInt32.ofNat n).toNat = a.toNat + n := by
  rw [UInt32.toNat_add, UInt32.toNat_ofNat']
  omega

namespace Circular
variable {b : Circular} {nbyte : Nat}

theorem lt_sizeMax_sub (h : nbyte ≤ b.sizeMax.toNat) :
    b.primaryTail < b.sizeMax - UInt32.ofNat nbyte ↔
      b.primaryTail.toNat + nbyte < b.sizeMax.toNat := by
  have hs := b.sizeMax.toNat_lt
  rw [UInt32.lt_iff_toNat_lt, UInt32.toNat_sub, UInt32.toNat_ofNat']
  omega

theorem lt_primaryHead_sub (h : nbyte ≤ b.primaryHead.toNat + 1)
    (hw : b.primaryHead.toNat + 1 < 2 ^ 32) :
    b.secondaryTail < b.primaryHead + 1 - UInt32.ofNat nbyte ↔
      b.secondaryTail.toNat + nbyte ≤ b.primaryHead.toNat := by
  rw [UInt32.lt_iff_toNat_lt, UInt32.toNat_sub, UInt32.toNat_add, UInt32.toNat_ofNat']
  show _ < (_ - _ + (_ + 1) % _) % _ ↔ _
  omega

/-- what the two tests decide when they do not wrap around -/
theorem findSpace_eq (he : b.Exact nbyte) :
    b.findSpace (UInt32.ofNat nbyte) =
      if b.primaryTail.toNat + nbyte < b.sizeMax.toNat then
        some (.primary, (b.primaryTail.toNat : Int))
      else if b.secondaryTail.toNat + nbyte ≤ b.primaryHead.toNat then
        some (.secondary, (b.secondaryTail.toNat : Int))
      else none := by
  unfold findSpace
  simp only [lt_sizeMax_sub he.small]
  split
  · rename_i hp
    rw [index_of_lt (he.primary hp)]
  · rename_i hp
    have hp' := Nat.le_of_not_lt hp
    simp only [lt_primaryHead_sub (he.secondary hp').1 (he.secondary hp').2.1]
    split
    · rename_i hs
      rw [index_of_lt ((he.secondary hp').2.2 hs)]
    · rfl

theorem Apart.snapshot (hb : b.Apart) : b.snapshot.Apart where
  primary := hb.primary
  inside := hb.inside
  secondary := hb.secondary
  below := hb.below
  speculative := by
    intro _
    have h1 := hb.primary
    have h2 := hb.inside
    have h3 := hb.below
    exact ⟨h1, h2, hb.secondary, by show b.secondaryTail.toNat ≤ b.sizeMax.toNat; omega,
      fun _ => h3⟩

theorem opened_state (b : Circular) : b.opened.state = .speculative := by
  unfold opened
  split
  · assumption
  · rfl

theorem Apart.opened (hb : b.Apart) : b.opened.Apart := by
  unfold Circular.opened
  split
  · exact hb
  · exact hb.snapshot

theorem Apart.undo (hb : b.Apart) : b.undo.Apart :=
  { hb with speculative := fun h => nomatch h }

theorem Apart.commit (hb : b.Apart) (hs : b.state = .speculative) : b.commit.Apart := by
  obtain ⟨h1, h2, h3, h4, h5⟩ := hb.speculative hs
  unfold Circular.commit
  split
  · rename_i hp
    exact ⟨h1, h2, hb.secondary, h5 hp, fun h => nomatch h⟩
  · split
    · exact ⟨h3, h4, le_rfl, Nat.zero_le _, fun h => nomatch h⟩
    · exact ⟨le_rfl, Nat.zero_le _, le_rfl, le_rfl, fun h => nomatch h⟩

/-- the speculative queues are empty -/
def Drained (b : Circular) : Prop :=
  b.speculativePrimaryTail = b.speculativePrimaryHead ∧
    b.speculativeSecondaryTail = b.speculativeSecondaryHead

instance (b : Circular) : Decidable b.Drained := inferInstanceAs (Decidable (_ ∧ _))

end Circular

section
variable {b : Circular} {nbyte : Nat} {read : Except Errno (List UInt8)}

theorem readPipeServe_primary (h : b.speculativePrimaryTail ≠ b.speculativePrimaryHead) :
    readPipeServe b nbyte read =
      (⟨intOf nbyte, b.bytes (Circular.index b.speculativePrimaryHead) nbyte, 0⟩,
        { b with speculativePrimaryHead := b.speculativePrimaryHead + UInt32.ofNat nbyte }) := by
  unfold readPipeServe
  rw [if_pos h]

theorem readPipeServe_secondary (h : b.speculativePrimaryTail = b.speculativePrimaryHead)
    (hs : b.speculativeSecondaryTail ≠ b.speculativeSecondaryHead) :
    readPipeServe b nbyte read =
      (⟨intOf nbyte, b.bytes (Circular.index b.speculativeSecondaryHead) nbyte, 0⟩,
        { b with
          speculativeSecondaryHead := b.speculativeSecondaryHead + UInt32.ofNat nbyte }) := by
  unfold readPipeServe
  rw [if_neg (not_not.mpr h), if_pos hs]

theorem readPipeServe_drained (h : b.Drained) :
    readPipeServe b nbyte read = readPipeKernel b nbyte read := by
  unfold readPipeServe
  rw [if_neg (not_not.mpr h.1), if_neg (not_not.mpr h.2)]

theorem Circular.Apart.grow_primary (hb : b.Apart) {n : Nat}
    (h : b.primaryTail.toNat + n ≤ b.sizeMax.toNat) : (b.grow .primary n).Apart := by
  have hs := b.sizeMax.toNat_lt
  have ht : (b.primaryTail + UInt32.ofNat n).toNat = b.primaryTail.toNat + n :=
    toNat_add_ofNat (by omega)
  have hp := hb.primary
  refine ⟨?_, ?_, hb.secondary, hb.below, hb.speculative⟩
  · show b.primaryHead.toNat ≤ (b.primaryTail + UInt32.ofNat n).toNat
    omega
  · show (b.primaryTail + UInt32.ofNat n).toNat ≤ b.sizeMax.toNat
    omega

theorem Circular.Apart.grow_secondary (hb : b.Apart) (hd : b.Drained) {n : Nat}
    (h : b.secondaryTail.toNat + n ≤ b.primaryHead.toNat) : (b.grow .secondary n).Apart := by
  have hs := b.primaryHead.toNat_lt
  have ht : (b.secondaryTail + UInt32.ofNat n).toNat = b.secondaryTail.toNat + n :=
    toNat_add_ofNat (by omega)
  have hp := hb.secondary
  refine ⟨hb.primary, hb.inside, ?_, ?_, ?_⟩
  · show b.secondaryHead.toNat ≤ (b.secondaryTail + UInt32.ofNat n).toNat
    omega
  · show (b.secondaryTail + UInt32.ofNat n).toNat ≤ b.primaryHead.toNat
    omega
  · intro hspec
    obtain ⟨h1, h2, h3, h4, _⟩ := hb.speculative hspec
    exact ⟨h1, h2, h3, h4, fun hne => (hne hd.1).elim⟩

theorem Circular.Apart.store (hb : b.Apart) (i : Int) (data : List UInt8) :
    (b.store i data).Apart :=
  ⟨hb.primary, hb.inside, hb.secondary, hb.below, hb.speculative⟩

theorem Circular.Apart.kernel (hb : b.Apart) (hd : b.Drained) (he : b.Exact nbyte)
    (hf : readFits nbyte read) : (readPipeKernel b nbyte read).2.Apart := by
  unfold readPipeKernel
  rw [Circular.findSpace_eq he]
  cases read with
  | error e =>
    split <;> exact hb
  | ok data =>
    have hlen : data.length ≤ nbyte := hf
    split
    · exact hb
    · rename_i q i hspace
      have hgrow : ((b.store i data).grow q data.length).Apart := by
        split at hspace
        · cases hspace
          refine (hb.store _ _).grow_primary ?_
          show b.primaryTail.toNat + data.length ≤ b.sizeMax.toNat
          omega
        · split at hspace
          · cases hspace
            refine (hb.store _ _).grow_secondary hd ?_
            show b.secondaryTail.toNat + data.length ≤ b.primaryHead.toNat
            omega
          · cases hspace
      show (if 0 < intOf data.length then (b.store i data).grow q data.length
        else b.store i data).Apart
      split
      · exact hgrow
      · exact hb.store _ _

theorem queueHolds_add {tail head : UInt32} (hle : head.toNat ≤ tail.toNat)
    (h : queueHolds tail head nbyte) :
    (head + UInt32.ofNat nbyte).toNat = head.toNat + nbyte ∧ head.toNat + nbyte ≤ tail.toNat := by
  unfold queueHolds at h
  have ht := tail.toNat_lt
  exact ⟨toNat_add_ofNat (by omega), by omega⟩

theorem Circular.Apart.serve (hb : b.Apart) (hs : b.state = .speculative)
    (hq : speculativeHolds b nbyte) (hf : readFits nbyte read)
    (he : b.Drained → b.Exact nbyte) : (readPipeServe b nbyte read).2.Apart := by
  obtain ⟨h1, h2, h3, h4, h5⟩ := hb.speculative hs
  unfold speculativeHolds at hq
  by_cases hp : b.speculativePrimaryTail = b.speculativePrimaryHead
  · by_cases hsec : b.speculativeSecondaryTail = b.speculativeSecondaryHead
    · rw [readPipeServe_drained ⟨hp, hsec⟩]
      exact hb.kernel ⟨hp, hsec⟩ (he ⟨hp, hsec⟩) hf
    · rw [readPipeServe_secondary hp hsec]
      rw [if_neg (not_not.mpr hp), if_pos hsec] at hq
      obtain ⟨ht, hle⟩ := queueHolds_add h3 hq
      refine ⟨hb.primary, hb.inside, hb.secondary, hb.below, fun _ => ⟨h1, h2, ?_, h4, h5⟩⟩
      show (b.speculativeSecondaryHead + UInt32.ofNat nbyte).toNat ≤
        b.speculativeSecondaryTail.toNat
      omega
  · rw [readPipeServe_primary hp]
    rw [if_pos hp] at hq
    obtain ⟨ht, hle⟩ := queueHolds_add h1 hq
    have hbelow := h5 hp
    refine ⟨hb.primary, hb.inside, hb.secondary, hb.below, fun _ => ⟨?_, h2, h3, h4, fun _ => ?_⟩⟩
    · show (b.speculativePrimaryHead + UInt32.ofNat nbyte).toNat ≤ b.speculativePrimaryTail.toNat
      omega
    · show b.secondaryTail.toNat ≤ (b.speculativePrimaryHead + UInt32.ofNat nbyte).toNat
      omega

theorem Circular.Apart.direct (hb : b.Apart) (hq : directHolds b nbyte) (garbage : Int) :
    (readPipeDirect b nbyte garbage read).2.Apart := by
  have h1 := hb.primary
  have h2 := hb.inside
  have h3 := hb.secondary
  have h4 := hb.below
  unfold directHolds at hq
  unfold readPipeDirect
  split
  · rename_i hp
    rw [if_pos hp] at hq
    obtain ⟨ht, hle⟩ := queueHolds_add h1 hq
    refine ⟨?_, h2, h3, ?_, hb.speculative⟩
    · show (b.primaryHead + UInt32.ofNat nbyte).toNat ≤ b.primaryTail.toNat
      omega
    · show b.secondaryTail.toNat ≤ (b.primaryHead + UInt32.ofNat nbyte).toNat
      omega
  · rename_i hp
    rw [if_neg hp] at hq
    split
    · rename_i hsec
      rw [if_pos hsec] at hq
      obtain ⟨ht, hle⟩ := queueHolds_add h3 hq
      refine ⟨?_, ?_, le_rfl, Nat.zero_le _, ?_⟩
      · show (b.secondaryHead + UInt32.ofNat nbyte).toNat ≤ b.secondaryTail.toNat
        omega
      · show b.secondaryTail.toNat ≤ b.sizeMax.toNat
        omega
      · intro hs
        obtain ⟨g1, g2, g3, g4, _⟩ := hb.speculative hs
        exact ⟨g1, g2, g3, g4, fun _ => Nat.zero_le _⟩
    · cases read with
      | error e => exact hb
      | ok data => exact hb

end

/-- the decision for space is reached in this call -/
def Circular.Decides (b : Circular) (mallocOk : Bool) : Prop :=
  (b.state = .speculative ∨ mallocOk = true) ∧ b.opened.Drained

instance (b : Circular) (m : Bool) : Decidable (b.Decides m) := inferInstanceAs (Decidable (_ ∧ _))

/-- the condition on a step: where the decision is reached, its tests do not wrap around -/
def exactStep (b : Circular) : PipeEvent → Prop
  | .readSpeculative nbyte mallocOk _ => b.Decides mallocOk → b.Exact nbyte
  | _ => True

instance (b : Circular) : ∀ e : PipeEvent, Decidable (exactStep b e)
  | .readSpeculative nbyte mallocOk _ =>
    inferInstanceAs (Decidable (b.Decides mallocOk → b.Exact nbyte))
  | .readDirect _ _ _ => .isTrue trivial
  | .commit => .isTrue trivial
  | .abort => .isTrue trivial

theorem readPipeSpeculative_eq {b : Circular} {mallocOk : Bool}
    (h : b.state = .speculative ∨ mallocOk = true) (nbyte : Nat)
    (read : Except Errno (List UInt8)) :
    readPipeSpeculative b nbyte mallocOk read = readPipeServe b.opened nbyte read := by
  unfold readPipeSpeculative Circular.opened
  split
  · rfl
  · rename_i hs
    rcases h with h | h
    · rw [hs] at h
      cases h
    · rw [if_pos h]

theorem Circular.Exact.opened {b : Circular} {nbyte : Nat} (he : b.Exact nbyte) :
    b.opened.Exact nbyte := by
  unfold Circular.opened
  split
  · exact he
  · exact ⟨he.small, he.primary, he.secondary⟩

theorem pipeStep_apart {b b' : Circular} {e : PipeEvent} (hb : b.Apart) (he : exactStep b e)
    (h : pipeStep b e = some b') : b'.Apart := by
  cases e with
  | readSpeculative nbyte mallocOk read =>
    rw [pipeStep, Option.ite_none_right_eq_some] at h
    obtain ⟨⟨hq, hf⟩, h⟩ := h
    cases h
    by_cases hm : b.state = .speculative ∨ mallocOk = true
    · rw [readPipeSpeculative_eq hm]
      exact hb.opened.serve b.opened_state hq hf fun hd => (he ⟨hm, hd⟩).opened
    · obtain ⟨hs, hm⟩ := not_or.mp hm
      unfold readPipeSpeculative
      split
      · exact (hs ‹_›).elim
      · rw [if_neg hm]
        exact hb
  | readDirect nbyte garbage read =>
    rw [pipeStep, Option.ite_none_right_eq_some] at h
    obtain ⟨⟨hq, _⟩, h⟩ := h
    cases h
    exact hb.direct hq garbage
  | commit =>
    rw [pipeStep, Option.ite_none_right_eq_some] at h
    obtain ⟨hs, h⟩ := h
    cases h
    exact hb.commit hs
  | abort =>
    rw [pipeStep, Option.ite_none_right_eq_some] at h
    obtain ⟨_, h⟩ := h
    cases h
    exact hb.undo

theorem Circular.apart_init (b : Circular) : b.init.Apart :=
  ⟨le_rfl, Nat.zero_le _, le_rfl, le_rfl, fun h => nomatch h⟩

/-- in every run from `txc_buffer_circular_init` the queues stay apart -/
theorem reach_apart {b₀ b : Circular} (h : Reach pipeStep exactStep (· = b₀.init) b) : b.Apart := by
  refine Reach.inv ?_ (fun _ _ _ hb he hs => pipeStep_apart hb he hs) h
  rintro _ rfl
  exact b₀.apart_init

/-! ## space -/

/-- `j` is the place of a byte of one of the two queues -/
def Circular.Live (b : Circular) (j : Int) : Prop :=
  ((b.primaryHead.toNat : Int) ≤ j ∧ j < b.primaryTail.toNat) ∨
    ((b.secondaryHead.toNat : Int) ≤ j ∧ j < b.secondaryTail.toNat)

instance (b : Circular) (j : Int) : Decidable (b.Live j) := inferInstanceAs (Decidable (_ ∨ _))

/-- a place in the array that holds no byte of a queue -/
def Circular.Vacant (b : Circular) (j : Int) : Prop :=
  0 ≤ j ∧ j < b.sizeMax.toNat ∧ ¬ b.Live j

instance (b : Circular) (j : Int) : Decidable (b.Vacant j) := inferInstanceAs (Decidable (_ ∧ _))

/-- what the decision for space in the buffer `b` has to come to -/
def SpaceFree (b : Circular) (nbyte : Nat) (r : PipeReply × Circular) : Prop :=
  match b.findSpace (UInt32.ofNat nbyte) with
  | some (_, i) => ∀ j : Int, i ≤ j → j < i + nbyte → b.Vacant j
  | none => r.1.ret = -1 ∧ r.1.localResult = Errno.enomem ∧ r.2 = b

theorem spaceFree_of_exact {b : Circular} {nbyte : Nat} (hb : b.Apart) (he : b.Exact nbyte)
    (hd : b.Drained) (read : Except Errno (List UInt8)) :
    SpaceFree b nbyte (readPipeServe b nbyte read) := by
  have h1 := hb.primary
  have h2 := hb.inside
  have h3 := hb.secondary
  have h4 := hb.below
  rw [readPipeServe_drained hd]
  unfold SpaceFree readPipeKernel
  rw [Circular.findSpace_eq he]
  by_cases hp : b.primaryTail.toNat + nbyte < b.sizeMax.toNat
  · rw [if_pos hp]
    intro j hj hj'
    refine ⟨by omega, by omega, ?_⟩
    rintro (h | h) <;> omega
  · rw [if_neg hp]
    by_cases hs : b.secondaryTail.toNat + nbyte ≤ b.primaryHead.toNat
    · rw [if_pos hs]
      intro j hj hj'
      refine ⟨by omega, by omega, ?_⟩
      rintro (h | h) <;> omega
    · rw [if_neg hs]
      exact ⟨rfl, rfl, rfl⟩

/-- **A kernel read goes to vacant bytes of the array, or is refused with `ENOMEM`**, in every run
in which no test for space wraps around. -/
theorem space_is_free (b₀ : Circular) {b : Circular} (h : Reach pipeStep exactStep (· = b₀.init) b)
    {nbyte : Nat} {mallocOk : Bool} (hd : b.Decides mallocOk) (he : b.Exact nbyte)
    (read : Except Errno (List UInt8)) :
    SpaceFree b.opened nbyte (readPipeSpeculative b nbyte mallocOk read) := by
  rw [readPipeSpeculative_eq hd.1]
  exact spaceFree_of_exact (reach_apart h).opened he.opened hd.2 read

/-- a buffer from the pool -/
def poolBuffer : Circular := ⟨fun _ => 0, bufferCircularSize, 0, 0, 0, 0, 0, 0, 0, 0, .nonSpeculative⟩

/-- three bytes are read in a transaction that aborts, and read again by the next one -/
def retryReads : List PipeEvent :=
  [.readSpeculative 4 true (.ok [1, 2, 3]), .abort, .readSpeculative 3 true (.ok [])]

theorem space_is_free_retry :
    ∃ b, run (guarded pipeStep exactStep) poolBuffer.init retryReads = some b ∧
      b.findSpace 2 = some (.primary, 3) ∧
      SpaceFree b.opened 2 (readPipeSpeculative b 2 true (.ok [])) := by
  refine ⟨_, rfl, rfl, ?_⟩
  refine space_is_free poolBuffer ?_ (by decide) (by decide) _
  exact reach_of_guarded retryReads rfl

/-- the second test wraps around: a read that is too large for the place behind the primary queue
goes to the place of the first bytes of that queue -/
theorem space_taken :
    ∃ b, run pipeStep poolBuffer.init
        [.readSpeculative 8388600 true (.ok [1, 2, 3, 4, 5, 6, 7, 8, 9, 10]), .abort,
          .readSpeculative 10 true (.ok [])] = some b ∧
      b.Decides true ∧ b.findSpace (UInt32.ofNat 8388600) = some (.secondary, 0) ∧ b.Live 0 ∧
      ¬ SpaceFree b.opened 8388600 (readPipeSpeculative b 8388600 true (.ok [])) := by
  refine ⟨_, rfl, by decide, rfl, by decide, ?_⟩
  intro h
  have h0 := h 0 (by decide) (by decide)
  exact absurd h0 (by decide)

end XCalls
