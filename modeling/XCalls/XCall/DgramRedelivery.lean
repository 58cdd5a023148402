import XCalls.XCall.DgramLayout

/-!
# Datagrams through transactions

* `DgramSys`, `dgramStep`   transactions of `x_recvmsg` calls on one socket, and calls outside them;
* `Circular.Separate`   the buffered records lie in the array and have no place in common;
* `intact`         the condition on a step: a datagram is stored where no record is, the calls
                   have no more room than the datagram needs, none is served in a transaction from
                   the secondary queue, and none is made irrevocably behind speculative ones;
* `datagrams_redelivered`   under it the calls return the datagrams in the order of their arrival,
                   as the kernel delivered them.
-/

namespace XCalls
open EventSys

/-! ## the system -/

structure DgramSys where
  buffer : Circular
  /-- the datagrams that the kernel has delivered -/
  arrived : List Datagram
  /-- the replies to the calls of the current transaction, with the room of each call -/
  returned : List (List Nat × RecvReply)
  /-- the replies to the calls of the committed transactions and outside transactions -/
  committed : List (List Nat × RecvReply)

inductive DgramEvent where
  | receive (lens : List Nat) (mallocOk : Bool) (garbage : UInt32) (recv : Except Errno Datagram)
  | direct (lens : List Nat) (errno : Int) (recv : Except Errno Datagram)
  | commit
  | abort

def recvFits : Except Errno Datagram → Prop
  | .error _ => True
  | .ok d => d.Fits

instance : ∀ recv : Except Errno Datagram, Decidable (recvFits recv)
  | .error _ => .isTrue trivial
  | .ok d => inferInstanceAs (Decidable d.Fits)

def delivered (asks : Prop) [Decidable asks] : Except Errno Datagram → List Datagram
  | .error _ => []
  | .ok d => if asks then [d] else []

def logged (lens : List Nat) (r : RecvReply) : List (List Nat × RecvReply) :=
  if r.ret = -1 then [] else [(lens, r)]

namespace Circular

def Empty (b : Circular) : Prop := b.primaryTail = b.primaryHead ∧ b.secondaryTail = b.secondaryHead

instance (b : Circular) : Decidable b.Empty := inferInstanceAs (Decidable (_ ∧ _))

def Asks (b : Circular) (mallocOk : Bool) : Prop :=
  b.Decides mallocOk ∧ (b.opened.findSpace neededBytes).isSome = true

instance (b : Circular) (m : Bool) : Decidable (b.Asks m) := inferInstanceAs (Decidable (_ ∧ _))

end Circular

def dgramStep (s : DgramSys) : DgramEvent → Option DgramSys
  | .receive lens mallocOk garbage recv =>
    if recvFits recv then
      let r := recvmsgSpeculative s.buffer lens mallocOk garbage recv
      some { s with
        buffer := r.2
        arrived := s.arrived ++ delivered (s.buffer.Asks mallocOk) recv
        returned := s.returned ++ logged lens r.1 }
    else none
  | .direct lens errno recv =>
    if recvFits recv then
      let r := recvmsgDirect s.buffer lens errno recv
      some { s with
        buffer := r.2
        arrived := s.arrived ++ delivered s.buffer.Empty recv
        committed := s.committed ++ logged lens r.1 }
    else none
  | .commit =>
    some { s with
      buffer := if s.buffer.state = .speculative then s.buffer.commit else s.buffer
      returned := []
      committed := s.committed ++ s.returned }
  | .abort =>
    some { s with
      buffer := if s.buffer.state = .speculative then s.buffer.undo else s.buffer
      returned := [] }

/-! ## the condition -/

namespace Circular

/-- what is filled for the datagram lies in the array and touches no buffered record -/
def Clear (b : Circular) (i : Int) (d : Datagram) : Prop :=
  ∀ a ∈ d.filled i, b.Inside a ∧ ∀ i' ∈ b.records, ∀ a' ∈ b.areas i', a.Apart a'

instance (b : Circular) (i : Int) (d : Datagram) : Decidable (b.Clear i d) :=
  inferInstanceAs (Decidable (∀ a ∈ d.filled i, b.Inside a ∧ _))

/-- the kernel delivers a datagram of at least one byte, to a place that is clear -/
def Lands (b : Circular) (lens : List Nat) (i : Int) : Except Errno Datagram → Prop
  | .error _ => False
  | .ok d => 0 < d.payload.length ∧ lens.sum ≤ d.payload.length ∧ b.Clear i d

instance (b : Circular) (lens : List Nat) (i : Int) :
    ∀ recv : Except Errno Datagram, Decidable (b.Lands lens i recv)
  | .error _ => .isFalse id
  | .ok _ => inferInstanceAs (Decidable (_ ∧ _))

/-- the record at `i` fills the room of the call -/
def Fills (b : Circular) (lens : List Nat) (i : Int) : Prop := lens.sum ≤ (b.word (i + 24)).toNat

instance (b : Circular) (lens : List Nat) (i : Int) : Decidable (b.Fills lens i) :=
  inferInstanceAs (Decidable (_ ≤ _))

def LandsAt (b : Circular) (lens : List Nat) (recv : Except Errno Datagram) :
    Option (Queue × Int) → Prop
  | none => True
  | some (_, i) => b.Lands lens i recv

instance (b : Circular) (lens : List Nat) (recv : Except Errno Datagram) :
    ∀ place : Option (Queue × Int), Decidable (b.LandsAt lens recv place)
  | none => .isTrue trivial
  | some (_, i) => inferInstanceAs (Decidable (b.Lands lens i recv))

def ServesSpeculative (b : Circular) (lens : List Nat) (recv : Except Errno Datagram) : Prop :=
  if b.speculativePrimaryTail ≠ b.speculativePrimaryHead then
    b.Fills lens (index b.speculativePrimaryHead)
  else if b.speculativeSecondaryTail ≠ b.speculativeSecondaryHead then False
  else b.LandsAt lens recv (b.findSpace neededBytes)

instance (b : Circular) (lens : List Nat) (recv : Except Errno Datagram) :
    Decidable (b.ServesSpeculative lens recv) :=
  inferInstanceAs (Decidable (ite _ (b.Fills _ _) (ite _ False (b.LandsAt _ _ _))))

def ServesDirect (b : Circular) (lens : List Nat) : Prop :=
  if b.primaryTail ≠ b.primaryHead then b.Fills lens (index b.primaryHead)
  else if b.secondaryTail ≠ b.secondaryHead then b.Fills lens (index b.secondaryHead)
  else True

instance (b : Circular) (lens : List Nat) : Decidable (b.ServesDirect lens) :=
  inferInstanceAs (Decidable (ite _ (_ ≤ _) (ite _ (_ ≤ _) True)))

end Circular

def intact (s : DgramSys) : DgramEvent → Prop
  | .receive lens mallocOk _ recv => s.buffer.state = .speculative ∨ mallocOk = true →
      s.buffer.opened.ServesSpeculative lens recv
  | .direct lens _ _ => s.buffer.state = .nonSpeculative ∧ s.buffer.ServesDirect lens
  | .commit => True
  | .abort => True

instance (s : DgramSys) : ∀ e : DgramEvent, Decidable (intact s e)
  | .receive lens mallocOk _ recv => inferInstanceAs (Decidable (_ ∨ mallocOk = true →
      s.buffer.opened.ServesSpeculative lens recv))
  | .direct lens _ _ => inferInstanceAs (Decidable (_ ∧ s.buffer.ServesDirect lens))
  | .commit => .isTrue trivial
  | .abort => .isTrue trivial

/-! ## the property -/

/-- the records with these headers lie in the array and have no place in common -/
structure Circular.SeparateAt (b : Circular) (headers : List Int) : Prop where
  apart : headers.Pairwise fun i i' => ∀ a ∈ b.areas i, ∀ a' ∈ b.areas i', a.Apart a'
  inside : ∀ i ∈ headers, ∀ a ∈ b.areas i, b.Inside a

def Circular.Separate (b : Circular) : Prop := b.SeparateAt b.records

/-- the replies tell of the datagrams, one of each -/
def Matches (log : List (List Nat × RecvReply)) (ds : List Datagram) : Prop :=
  List.Forall₂ (fun e d => Returns e.1 e.2 d) log ds

/-! ## the invariant -/

/-- the two queues hold these datagrams; as long as the secondary one holds some, nothing goes to the
primary one -/
structure Circular.Holding (b : Circular) (ps ss : List Datagram) : Prop where
  size : b.sizeMax = bufferCircularSize
  primary : b.Queued b.primaryHead b.primaryTail ps
  secondary : b.Queued b.secondaryHead b.secondaryTail ss
  primaryInside : b.primaryTail.toNat ≤ b.sizeMax.toNat
  secondaryInside : b.secondaryTail.toNat ≤ b.sizeMax.toNat
  full : ss ≠ [] → ¬ b.primaryTail < b.sizeMax - Circular.neededBytes
  separate : b.SeparateAt (places b.primaryHead.toNat ps ++ places b.secondaryHead.toNat ss)

/-- in the midst of a transaction: the kernel was not asked, and the calls have returned the first
datagrams of the primary queue; or they have returned everything -/
def Circular.Served (b : Circular) (ps ss : List Datagram) (log : List (List Nat × RecvReply)) :
    Prop :=
  (b.speculativePrimaryTail = b.primaryTail ∧ b.speculativeSecondaryHead = b.secondaryHead ∧
    b.speculativeSecondaryTail = b.secondaryTail ∧ ∃ rs left, ps = rs ++ left ∧
      b.Queued b.speculativePrimaryHead b.primaryTail left ∧ Matches log rs) ∨
  (b.Drained ∧ Matches log (ps ++ ss))

structure DgramSys.Intact (s : DgramSys) (cs ps ss : List Datagram) : Prop where
  arrived : s.arrived = cs ++ (ps ++ ss)
  committed : Matches s.committed cs
  holding : s.buffer.Holding ps ss
  idle : s.buffer.state = .nonSpeculative → s.returned = []
  served : s.buffer.state = .speculative → s.buffer.Served ps ss s.returned

namespace Circular
variable {b b' : Circular} {ps ss : List Datagram} {headers : List Int}

theorem areas_congr (h : b'.mem = b.mem) : b'.areas = b.areas := by
  have hw : b'.word = b.word := by
    funext i
    unfold word
    rw [h]
  funext i
  unfold areas address
  rw [hw]

theorem SeparateAt.sublist {headers' : List Int} (h : b.SeparateAt headers)
    (hsub : headers'.Sublist headers) (hm : b'.mem = b.mem) (hs : b'.sizeMax = b.sizeMax) :
    b'.SeparateAt headers' := by
  have ha := areas_congr hm
  refine ⟨?_, ?_⟩
  · rw [ha]
    exact h.apart.sublist hsub
  · intro i hi a hia
    rw [ha] at hia
    unfold Inside
    rw [hs]
    exact h.inside i (hsub.subset hi) a hia

theorem Queued.of_mem {head tail : UInt32} {ds : List Datagram} (h : b.Queued head tail ds)
    (hm : b'.mem = b.mem) : b'.Queued head tail ds :=
  h.frame fun _ _ _ _ _ _ => congrFun hm _

theorem Holding.congr (h : b.Holding ps ss) (hm : b'.mem = b.mem) (hs : b'.sizeMax = b.sizeMax)
    (h1 : b'.primaryHead = b.primaryHead) (h2 : b'.primaryTail = b.primaryTail)
    (h3 : b'.secondaryHead = b.secondaryHead) (h4 : b'.secondaryTail = b.secondaryTail) :
    b'.Holding ps ss where
  size := hs.trans h.size
  primary := by
    rw [h1, h2]
    exact h.primary.of_mem hm
  secondary := by
    rw [h3, h4]
    exact h.secondary.of_mem hm
  primaryInside := by
    rw [h2, hs]
    exact h.primaryInside
  secondaryInside := by
    rw [h4, hs]
    exact h.secondaryInside
  full := by
    rw [h2, hs]
    exact h.full
  separate := by
    rw [h1, h3]
    exact h.separate.sublist (List.Sublist.refl _) hm hs

theorem Holding.toNat_size (h : b.Holding ps ss) : b.sizeMax.toNat = 8388608 := by
  rw [h.size]
  rfl

theorem Holding.records (h : b.Holding ps ss) :
    b.records = places b.primaryHead.toNat ps ++ places b.secondaryHead.toNat ss := by
  have hs := h.toNat_size
  have hp := h.primaryInside
  have hq := h.secondaryInside
  unfold Circular.records
  rw [h.primary.headers (by omega) (by omega), h.secondary.headers (by omega) (by omega)]

theorem Holding.toNat_tailOf (h : b.Holding ps ss) (q : Queue) :
    index (b.tailOf q) = (b.tailOf q).toNat ∧ (b.tailOf q).toNat ≤ 8388608 := by
  have hs := h.toNat_size
  have hle : (b.tailOf q).toNat ≤ 8388608 := by
    cases q with
    | primary => exact hs ▸ h.primaryInside
    | secondary => exact hs ▸ h.secondaryInside
  exact ⟨index_of_lt (by omega), hle⟩

/-! ## a datagram from the kernel -/

theorem apart_mono {a a₁ a' : Area} (h : a.Apart a') (h0 : a₁.1 = a.1) (h1 : a₁.2 ≤ a.2) :
    a'.Apart a₁ := by
  unfold Area.Apart at *
  omega

theorem Inside.mono {a a₁ : Area} (h : b.Inside a) (h0 : a₁.1 = a.1) (h1 : a₁.2 ≤ a.2) :
    b.Inside a₁ := by
  unfold Inside at *
  omega

theorem RecordAt.filled {i : Int} {d : Datagram} (h : b.RecordAt i d) :
    ∀ a₁ ∈ b.areas i, ∃ a ∈ d.filled i, a₁.1 = a.1 ∧ a₁.2 ≤ a.2 := by
  rw [h.areas_eq]
  intro a₁ ha
  simp only [List.mem_cons, List.not_mem_nil, or_false] at ha
  rcases ha with rfl | rfl | rfl
  · exact ⟨(i, msghdrSize), by simp [Datagram.filled], rfl, le_rfl⟩
  · exact ⟨(i + payloadAt, d.payload.length + d.control.length), by simp [Datagram.filled], rfl,
      Nat.le_add_right _ _⟩
  · exact ⟨(i + controlAt, d.control.length), by simp [Datagram.filled], rfl, le_rfl⟩

theorem SeparateAt.snoc (h : b.SeparateAt headers) {i : Int} (hs : b'.sizeMax = b.sizeMax)
    (hold : ∀ i' ∈ headers, b'.areas i' = b.areas i')
    (hnew : ∀ a ∈ b'.areas i, b.Inside a ∧ ∀ i' ∈ headers, ∀ a' ∈ b.areas i', a'.Apart a) :
    b'.SeparateAt (headers ++ [i]) := by
  refine ⟨List.pairwise_append.mpr ⟨?_, List.pairwise_singleton _ _, ?_⟩, ?_⟩
  · refine h.apart.imp_of_mem ?_
    intro i₁ i₂ h1 h2 hap
    rw [hold i₁ h1, hold i₂ h2]
    exact hap
  · intro i₁ h1 i₂ h2 a₁ ha₁ a₂ ha₂
    obtain rfl := List.mem_singleton.mp h2
    rw [hold i₁ h1] at ha₁
    exact (hnew a₂ ha₂).2 i₁ h1 a₁ ha₁
  · intro i₁ h1 a ha
    unfold Inside
    rw [hs]
    rcases List.mem_append.mp h1 with h1 | h1
    · rw [hold i₁ h1] at ha
      exact h.inside i₁ h1 a ha
    · obtain rfl := List.mem_singleton.mp h1
      exact (hnew a ha).1

section
variable {d : Datagram} {q : Queue}

/-- the records in the buffer after one more has come in, to a place that is clear -/
theorem Holding.store (h : b.Holding ps ss) (hf : d.Fits) (hpos : 0 < d.payload.length)
    (hclear : b.Clear (b.tailOf q).toNat d) (hb : b' = b.deliver q (b.tailOf q).toNat (.ok d)) :
    b'.Queued b.primaryHead b.primaryTail ps ∧ b'.Queued b.secondaryHead b.secondaryTail ss ∧
      b'.RecordAt (b.tailOf q).toNat d ∧
      b'.SeparateAt (places b.primaryHead.toNat ps ++ places b.secondaryHead.toNat ss ++
        [((b.tailOf q).toNat : Int)]) ∧
      b' = { b.grow q d.span with mem := b'.mem } := by
  have hle := (h.toNat_tailOf q).2
  have hc := controlAt_eq
  obtain ⟨hrec, hmem, hfields⟩ := recordAt_deliver (i := (b.tailOf q).toNat) (b := b)
    (Int.natCast_nonneg _) (by omega) hf hpos q
  rw [← hb] at hrec hmem hfields
  have hrecords := h.records
  -- what is filled is apart from the records
  have hapart : ∀ i' ∈ places b.primaryHead.toNat ps ++ places b.secondaryHead.toNat ss,
      ∀ a' ∈ b.areas i', ∀ a ∈ d.filled (b.tailOf q).toNat, a.Apart a' := by
    intro i' hi' a' ha' a ha
    exact (hclear a ha).2 i' (hrecords ▸ hi') a' ha'
  have hsame : ∀ i' ∈ places b.primaryHead.toNat ps ++ places b.secondaryHead.toNat ss,
      ∀ a' ∈ b.areas i', ∀ j, a'.Has j → b'.mem j = b.mem j := by
    intro i' hi' a' ha' j hj
    refine hmem j fun a ha hja => ?_
    exact Area.apart_iff.mp (hapart i' hi' a' ha' a ha) j hja hj
  have hareas : ∀ i' ∈ places b.primaryHead.toNat ps ++ places b.secondaryHead.toNat ss,
      b'.areas i' = b.areas i' := by
    intro i' hi'
    obtain ⟨d', hd'⟩ : ∃ d', b.RecordAt i' d' := by
      rcases List.mem_append.mp hi' with hi' | hi'
      · exact h.primary.record i' hi'
      · exact h.secondary.record i' hi'
    rw [hd'.areas_eq, (hd'.frame (hsame i' hi')).areas_eq]
  have hsize : b'.sizeMax = b.sizeMax := by
    rw [hfields]
    cases q <;> rfl
  refine ⟨h.primary.frame fun i' hi' => hsame i' (List.mem_append_left _ hi'),
    h.secondary.frame fun i' hi' => hsame i' (List.mem_append_right _ hi'), hrec,
    h.separate.snoc hsize hareas ?_, hfields⟩
  intro a₁ ha₁
  obtain ⟨a, ha, h0, h1⟩ := hrec.filled a₁ ha₁
  exact ⟨(hclear a ha).1.mono h0 h1, fun i' hi' a' ha' => apart_mono (hapart i' hi' a' ha' a ha) h0 h1⟩

theorem Clear.tail (h : b.Clear (b.tailOf q).toNat d) (hpos : 0 < d.payload.length) :
    (b.tailOf q).toNat + d.span ≤ b.sizeMax.toNat := by
  have hp := payloadAt_eq
  have hspan : d.span = 40 + d.payload.length + d.control.length := rfl
  have hin := (h ((b.tailOf q).toNat + payloadAt, d.payload.length + d.control.length)
    (by simp [Datagram.filled])).1
  unfold Inside at hin
  dsimp only at hin
  omega

theorem Holding.deliver_primary (h : b.Holding ps []) (hf : d.Fits) (hpos : 0 < d.payload.length)
    (hclear : b.Clear b.primaryTail.toNat d)
    (hb : b' = b.deliver .primary b.primaryTail.toNat (.ok d)) : b'.Holding (ps ++ [d]) [] := by
  obtain ⟨hp, hs, hrec, hsep, hfields⟩ := h.store (q := .primary) hf hpos hclear hb
  have hsize := h.toNat_size
  have htail : b.primaryTail.toNat + d.span ≤ b.sizeMax.toNat := Clear.tail (q := .primary) hclear hpos
  have hnext : (b.primaryTail + UInt32.ofNat d.span).toNat = b.primaryTail.toNat + d.span :=
    toNat_add_ofNat (by omega)
  have hplaces : places b.primaryHead.toNat ps ++ places b.secondaryHead.toNat [] ++
      [((b.tailOf .primary).toNat : Int)] =
      places b.primaryHead.toNat (ps ++ [d]) ++ places b.secondaryHead.toNat [] := by
    rw [h.primary.places_snoc]
    show _ ++ [] ++ _ = _ ++ []
    rw [List.append_nil, List.append_nil]
    rfl
  rw [hplaces] at hsep
  have h1 : b'.primaryHead = b.primaryHead := by
    rw [hfields]
    rfl
  have h2 : b'.primaryTail = b.primaryTail + UInt32.ofNat d.span := by
    rw [hfields]
    rfl
  have h3 : b'.secondaryHead = b.secondaryHead ∧ b'.secondaryTail = b.secondaryTail := by
    rw [hfields]
    exact ⟨rfl, rfl⟩
  have h4 : b'.sizeMax = b.sizeMax := by
    rw [hfields]
    rfl
  refine ⟨h4.trans h.size, ?_, ?_, ?_, ?_, fun hne => (hne rfl).elim, ?_⟩
  · rw [h1, h2]
    exact hp.snoc hrec (by omega)
  · rw [h3.1, h3.2]
    exact hs
  · rw [h2, h4, hnext]
    exact htail
  · rw [h3.2, h4]
    exact h.secondaryInside
  · rw [h1, h3.1]
    exact hsep

theorem Holding.deliver_secondary (h : b.Holding ps ss) (hf : d.Fits)
    (hpos : 0 < d.payload.length) (hclear : b.Clear b.secondaryTail.toNat d)
    (hfull : ¬ b.primaryTail < b.sizeMax - neededBytes)
    (hb : b' = b.deliver .secondary b.secondaryTail.toNat (.ok d)) : b'.Holding ps (ss ++ [d]) := by
  obtain ⟨hp, hs, hrec, hsep, hfields⟩ := h.store (q := .secondary) hf hpos hclear hb
  have hsize := h.toNat_size
  have htail : b.secondaryTail.toNat + d.span ≤ b.sizeMax.toNat :=
    Clear.tail (q := .secondary) hclear hpos
  have hnext : (b.secondaryTail + UInt32.ofNat d.span).toNat = b.secondaryTail.toNat + d.span :=
    toNat_add_ofNat (by omega)
  have hplaces : places b.primaryHead.toNat ps ++ places b.secondaryHead.toNat ss ++
      [((b.tailOf .secondary).toNat : Int)] =
      places b.primaryHead.toNat ps ++ places b.secondaryHead.toNat (ss ++ [d]) := by
    rw [h.secondary.places_snoc, List.append_assoc]
    rfl
  rw [hplaces] at hsep
  have h1 : b'.primaryHead = b.primaryHead ∧ b'.primaryTail = b.primaryTail := by
    rw [hfields]
    exact ⟨rfl, rfl⟩
  have h2 : b'.secondaryHead = b.secondaryHead := by
    rw [hfields]
    rfl
  have h3 : b'.secondaryTail = b.secondaryTail + UInt32.ofNat d.span := by
    rw [hfields]
    rfl
  have h4 : b'.sizeMax = b.sizeMax := by
    rw [hfields]
    rfl
  refine ⟨h4.trans h.size, ?_, ?_, ?_, ?_, fun _ => ?_, ?_⟩
  · rw [h1.1, h1.2]
    exact hp
  · rw [h2, h3]
    exact hs.snoc hrec (by omega)
  · rw [h1.2, h4]
    exact h.primaryInside
  · rw [h3, h4, hnext]
    exact htail
  · rw [h1.2, h4]
    exact hfull
  · rw [h1.1, h2]
    exact hsep

end

end Circular

/-! ## calls in a transaction -/

theorem Matches.snoc {log : List (List Nat × RecvReply)} {ds : List Datagram} {lens : List Nat}
    {r : RecvReply} {d : Datagram} (h : Matches log ds) (hr : Returns lens r d) :
    Matches (log ++ [(lens, r)]) (ds ++ [d]) := List.rel_append h (.cons hr .nil)

theorem logged_copyOut {b : Circular} {i : Int} {lens : List Nat} (h : lens.sum < 2 ^ 31) :
    logged lens (b.copyOut i lens) = [(lens, b.copyOut i lens)] := by
  refine if_neg ?_
  show intOf lens.sum ≠ -1
  rw [intOf_of_lt h]
  omega

theorem logged_failed (lens : List Nat) (e : Errno) : logged lens (recvFailed (-1) e) = [] := rfl

theorem recvmsgSpeculative_eq {b : Circular} {lens : List Nat} {mallocOk : Bool} {garbage : UInt32}
    {recv : Except Errno Datagram} (h : b.state = .speculative ∨ mallocOk = true) :
    recvmsgSpeculative b lens mallocOk garbage recv =
      recvmsgServe b.opened lens garbage recv := by
  unfold recvmsgSpeculative Circular.opened
  cases hs : b.state with
  | speculative => rfl
  | nonSpeculative => exact if_pos (h.resolve_left (by rw [hs]; exact fun h => nomatch h))

/-- what a call in a transaction comes to: the datagrams `new` are buffered behind the others -/
def RepliesTo (ps ss new : List Datagram) (log : List (List Nat × RecvReply)) (lens : List Nat)
    (r : RecvReply × Circular) : Prop :=
  ∃ ps' ss', ps' ++ ss' = ps ++ ss ++ new ∧ r.2.Holding ps' ss' ∧
    r.2.Served ps' ss' (log ++ logged lens r.1) ∧ r.2.state = .speculative

section
variable {b : Circular} {ps ss : List Datagram} {log : List (List Nat × RecvReply)}
  {lens : List Nat} {garbage : UInt32} {recv : Except Errno Datagram}

theorem replies_on (head' : UInt32) (h : b.Holding ps ss) (hst : b.state = .speculative)
    (h1 : b.speculativePrimaryTail = b.primaryTail)
    (h2 : b.speculativeSecondaryHead = b.secondaryHead)
    (h3 : b.speculativeSecondaryTail = b.secondaryTail) {rs left : List Datagram}
    (hps : ps = rs ++ left) (hq : b.Queued head' b.primaryTail left) {r : RecvReply}
    (hm : Matches (log ++ logged lens r) rs) :
    RepliesTo ps ss [] log lens (r, { b with speculativePrimaryHead := head' }) :=
  ⟨ps, ss, (List.append_nil _).symm, h.congr rfl rfl rfl rfl rfl rfl,
    Or.inl ⟨h1, h2, h3, rs, left, hps, hq.of_mem rfl, hm⟩, hst⟩

/-- the first record that is left is served -/
theorem replies_primary (h : b.Holding ps ss) (hs : b.Served ps ss log)
    (hst : b.state = .speculative) (hne : b.speculativePrimaryTail ≠ b.speculativePrimaryHead)
    (hfill : b.Fills lens (Circular.index b.speculativePrimaryHead)) :
    RepliesTo ps ss [] log lens (recvmsgServe b lens garbage recv) := by
  have hserve : recvmsgServe b lens garbage recv =
      (b.copyOut (Circular.index b.speculativePrimaryHead) lens,
        { b with speculativePrimaryHead := b.speculativePrimaryHead +
            b.recordLen (Circular.index b.speculativePrimaryHead) }) := if_pos hne
  rw [hserve]
  rcases hs with ⟨h1, h2, h3, rs, left, hps, hq, hm⟩ | ⟨hd, -⟩
  · rw [h1] at hne
    cases left with
    | nil => exact (hne (hq.eq_iff.mpr rfl)).elim
    | cons d left =>
      have hi : Circular.index b.speculativePrimaryHead = b.speculativePrimaryHead.toNat := by
        have := hq.1
        have := h.primaryInside
        have := h.toNat_size
        exact Circular.index_of_lt (by omega)
      rw [hi] at hfill ⊢
      unfold Circular.Fills at hfill
      rw [hq.2.1.toNat_iovLen] at hfill
      have hL : d.payload.length ≤ 65536 := hq.2.1.fits.payload
      have hnew : Matches (log ++ logged lens (b.copyOut b.speculativePrimaryHead.toNat lens))
          (rs ++ [d]) := by
        rw [logged_copyOut (by omega)]
        exact hm.snoc (hq.2.1.copyOut hfill)
      have hleft : ps = (rs ++ [d]) ++ left := by
        rw [hps, List.append_assoc]
        rfl
      exact replies_on _ h hst h1 h2 h3 hleft hq.rest hnew
  · exact (hne hd.1).elim

theorem Circular.Served.drained (hs : b.Served ps ss log) (h : b.Holding ps ss) (hd : b.Drained) :
    Matches log (ps ++ ss) := by
  rcases hs with ⟨h1, h2, h3, rs, left, hps, hq, hm⟩ | ⟨-, hm⟩
  · have hleft : left = [] := hq.eq_iff.mp (h1 ▸ hd.1)
    have hss : ss = [] := h.secondary.eq_iff.mp (by rw [← h2, ← h3]; exact hd.2)
    rw [hss, hps, hleft, List.append_nil, List.append_nil]
    exact hm
  · exact hm

def takenIn (b : Circular) : Except Errno Datagram → List Datagram :=
  delivered ((b.findSpace Circular.neededBytes).isSome = true)

theorem replies_kernel (h : b.Holding ps ss) (hs : b.Served ps ss log)
    (hst : b.state = .speculative) (hd : b.Drained) (hf : recvFits recv)
    (hland : b.LandsAt lens recv (b.findSpace Circular.neededBytes)) :
    RepliesTo ps ss (takenIn b recv) log lens (recvmsgKernel b lens recv) := by
  have hall := hs.drained h hd
  unfold recvmsgKernel takenIn
  cases hfind : b.findSpace Circular.neededBytes with
  | none =>
    have hnone : delivered ((none : Option (Queue × Int)).isSome = true) recv = [] := by
      cases recv with
      | error e => rfl
      | ok d => rfl
    rw [hnone]
    refine ⟨ps, ss, (List.append_nil _).symm, h, Or.inr ⟨hd, ?_⟩, hst⟩
    rw [logged_failed, List.append_nil]
    exact hall
  | some place =>
    obtain ⟨q, i⟩ := place
    rw [hfind] at hland
    obtain ⟨hi, hprim⟩ := Circular.findSpace_index hfind
    rw [(h.toNat_tailOf q).1] at hi
    subst hi
    cases recv with
    | error e => exact hland.elim
    | ok d =>
      obtain ⟨hpos, hsum, hclear⟩ := hland
      have hL : d.payload.length ≤ 65536 := hf.payload
      have hrec := (h.store (q := q) hf hpos hclear rfl).2.2.1
      have hlog : logged lens ((b.deliver q (b.tailOf q).toNat (.ok d)).copyOut
          (b.tailOf q).toNat lens) = [(lens, _)] := logged_copyOut (by omega)
      have hnew : Matches (log ++ logged lens ((b.deliver q (b.tailOf q).toNat (.ok d)).copyOut
          (b.tailOf q).toNat lens)) (ps ++ ss ++ [d]) := by
        rw [hlog]
        exact hall.snoc (hrec.copyOut hsum)
      have hone : delivered ((some (q, ((b.tailOf q).toNat : Int))).isSome = true)
          (.ok d : Except Errno Datagram) = [d] := rfl
      rw [hone]
      have hfields := (h.store (q := q) hf hpos hclear rfl).2.2.2.2
      have hdrained : (b.deliver q (b.tailOf q).toNat (.ok d)).Drained := by
        rw [hfields]
        cases q <;> exact hd
      have hstate : (b.deliver q (b.tailOf q).toNat (.ok d)).state = .speculative := by
        rw [hfields]
        cases q <;> exact hst
      cases q with
      | primary =>
        obtain rfl : ss = [] := by
          by_contra hne
          exact h.full hne (hprim rfl)
        refine ⟨ps ++ [d], [], ?_, h.deliver_primary hf hpos hclear rfl,
          Or.inr ⟨hdrained, ?_⟩, hstate⟩
        · rw [List.append_nil, List.append_nil]
        · rw [List.append_nil] at hnew ⊢
          exact hnew
      | secondary =>
        have hfull : ¬ b.primaryTail < b.sizeMax - Circular.neededBytes := by
          intro hlt
          have : b.findSpace Circular.neededBytes = some (.primary, _) := if_pos hlt
          rw [hfind] at this
          cases this
        refine ⟨ps, ss ++ [d], (List.append_assoc _ _ _).symm,
          h.deliver_secondary hf hpos hclear hfull rfl, Or.inr ⟨hdrained, ?_⟩, hstate⟩
        rw [← List.append_assoc]
        exact hnew

end

/-! ## records are dropped -/

namespace Circular
variable {b : Circular} {ps ss rs left : List Datagram} {head tail head' : UInt32}

theorem Queued.sum (h : b.Queued head tail ps) :
    head.toNat + (ps.map Datagram.span).sum = tail.toNat := by
  induction ps generalizing head with
  | nil => rw [show head = tail from h]; rfl
  | cons d ps ih =>
    have hn := ih h.2.2
    rw [h.next] at hn
    rw [List.map_cons, List.sum_cons]
    omega

theorem places_append (n : Nat) (rs left : List Datagram) :
    places n (rs ++ left) = places n rs ++ places (n + (rs.map Datagram.span).sum) left := by
  induction rs generalizing n with
  | nil => rfl
  | cons d rs ih =>
    rw [List.cons_append, places, ih, List.map_cons, List.sum_cons, Nat.add_assoc]
    rfl

theorem Queued.sublist (h : b.Queued head tail (rs ++ left)) (h' : b.Queued head' tail left) :
    (places head'.toNat left).Sublist (places head.toNat (rs ++ left)) := by
  have h1 := h.sum
  have h2 := h'.sum
  rw [List.map_append, List.sum_append] at h1
  have hhead : head.toNat + (rs.map Datagram.span).sum = head'.toNat := by omega
  rw [places_append, hhead]
  exact List.sublist_append_right _ _

theorem Holding.drop (h : b.Holding (rs ++ left) ss) (hq : b.Queued head' b.primaryTail left) :
    ({ b with primaryHead := head' } : Circular).Holding left ss where
  size := h.size
  primary := hq.of_mem rfl
  secondary := h.secondary.of_mem rfl
  primaryInside := h.primaryInside
  secondaryInside := h.secondaryInside
  full := h.full
  separate := h.separate.sublist ((h.primary.sublist hq).append (List.Sublist.refl _)) rfl rfl

/-- the secondary queue becomes the primary one, without its first records -/
theorem Holding.swap (h : b.Holding ps (rs ++ left)) (hq : b.Queued head' b.secondaryTail left) :
    ({ b with
      primaryTail := b.secondaryTail, primaryHead := head'
      secondaryHead := 0, secondaryTail := 0 } : Circular).Holding left [] where
  size := h.size
  primary := hq.of_mem rfl
  secondary := rfl
  primaryInside := h.secondaryInside
  secondaryInside := Nat.zero_le _
  full := fun hne => (hne rfl).elim
  separate := by
    have hsub : (places head'.toNat left ++ places (0 : UInt32).toNat []).Sublist
        (places b.primaryHead.toNat ps ++ places b.secondaryHead.toNat (rs ++ left)) := by
      show (places head'.toNat left ++ []).Sublist _
      rw [List.append_nil]
      exact (h.secondary.sublist hq).trans (List.sublist_append_right _ _)
    exact h.separate.sublist hsub rfl rfl

theorem Holding.reset (h : b.Holding ps ss) :
    ({ b with
      primaryHead := 0, primaryTail := 0
      secondaryHead := 0, secondaryTail := 0 } : Circular).Holding [] [] where
  size := h.size
  primary := rfl
  secondary := rfl
  primaryInside := Nat.zero_le _
  secondaryInside := Nat.zero_le _
  full := fun hne => (hne rfl).elim
  separate := ⟨List.Pairwise.nil, fun _ hi => (List.not_mem_nil hi).elim⟩

/-! ## commits -/

theorem commit_primary (h : b.speculativePrimaryTail ≠ b.speculativePrimaryHead) :
    b.commit = { b with
      primaryHead := b.speculativePrimaryHead, primaryTail := b.speculativePrimaryTail
      state := .nonSpeculative } := by
  unfold commit
  rw [if_pos h]

theorem commit_secondary (h : b.speculativePrimaryTail = b.speculativePrimaryHead)
    (h' : b.speculativeSecondaryTail ≠ b.speculativeSecondaryHead) :
    b.commit = { b with
      primaryHead := b.speculativeSecondaryHead, primaryTail := b.speculativeSecondaryTail
      secondaryHead := 0, secondaryTail := 0, state := .nonSpeculative } := by
  unfold commit
  rw [if_neg (not_not.mpr h), if_pos h']

theorem commit_drained (h : b.Drained) :
    b.commit = { b with
      primaryHead := 0, primaryTail := 0, secondaryHead := 0, secondaryTail := 0
      state := .nonSpeculative } := by
  unfold commit
  rw [if_neg (not_not.mpr h.1), if_neg (not_not.mpr h.2)]

/-- a commit drops what the calls of the transaction have returned -/
theorem Holding.commit (h : b.Holding ps ss) {log : List (List Nat × RecvReply)}
    (hs : b.Served ps ss log) :
    ∃ cs ps' ss', ps ++ ss = cs ++ (ps' ++ ss') ∧ Matches log cs ∧ b.commit.Holding ps' ss' ∧
      b.commit.state = .nonSpeculative := by
  by_cases hd : b.Drained
  · refine ⟨ps ++ ss, [], [], (List.append_nil _).symm, hs.drained h hd, ?_, rfl⟩
    rw [commit_drained hd]
    exact h.reset.congr rfl rfl rfl rfl rfl rfl
  · rcases hs with ⟨h1, h2, h3, rs, left, rfl, hq, hm⟩ | ⟨hd', -⟩
    · by_cases hp : b.speculativePrimaryTail = b.speculativePrimaryHead
      · have hleft : left = [] := hq.eq_iff.mp (h1 ▸ hp)
        have hsec : b.speculativeSecondaryTail ≠ b.speculativeSecondaryHead := fun h => hd ⟨hp, h⟩
        refine ⟨rs, ss, [], ?_, hm, ?_, rfl⟩
        · rw [hleft, List.append_nil, List.append_nil]
        · rw [commit_secondary hp hsec]
          have hall : b.Queued b.speculativeSecondaryHead b.secondaryTail ss := by
            rw [h2]
            exact h.secondary
          have hnone : b.Holding (rs ++ left) ([] ++ ss) := h
          exact (hnone.swap hall).congr rfl rfl rfl h3 rfl rfl
      · refine ⟨rs, left, ss, List.append_assoc _ _ _, hm, ?_, rfl⟩
        rw [commit_primary hp]
        exact (h.drop hq).congr rfl rfl rfl h1 rfl rfl
    · exact (hd hd').elim

end Circular

/-! ## steps -/

section
variable {s : DgramSys} {cs ps ss : List Datagram} {lens : List Nat} {mallocOk : Bool}
  {garbage : UInt32} {recv : Except Errno Datagram} {errno : Int}

theorem DgramSys.Intact.opened (h : s.Intact cs ps ss) :
    s.buffer.opened.Holding ps ss ∧ s.buffer.opened.Served ps ss s.returned := by
  unfold Circular.opened
  cases hst : s.buffer.state with
  | speculative => exact ⟨h.holding, h.served hst⟩
  | nonSpeculative =>
    refine ⟨h.holding.congr rfl rfl rfl rfl rfl rfl, Or.inl ⟨rfl, rfl, rfl, [], ps, rfl, ?_, ?_⟩⟩
    · exact h.holding.primary.of_mem rfl
    · rw [h.idle hst]
      exact .nil

theorem delivered_of_not {asks : Prop} [Decidable asks] (h : ¬ asks) : delivered asks recv = [] := by
  cases recv with
  | error e => rfl
  | ok d => exact if_neg h

theorem delivered_congr {p q : Prop} [Decidable p] [Decidable q] (h : p ↔ q) :
    delivered p recv = delivered q recv := by
  cases recv with
  | error e => rfl
  | ok d => exact if_congr h rfl rfl

theorem DgramSys.Intact.receive (h : s.Intact cs ps ss) (hf : recvFits recv)
    (ho : s.buffer.state = .speculative ∨ mallocOk = true →
      s.buffer.opened.ServesSpeculative lens recv) :
    ∃ ps' ss', DgramSys.Intact { s with
      buffer := (recvmsgSpeculative s.buffer lens mallocOk garbage recv).2
      arrived := s.arrived ++ delivered (s.buffer.Asks mallocOk) recv
      returned := s.returned ++
        logged lens (recvmsgSpeculative s.buffer lens mallocOk garbage recv).1 } cs ps' ss' := by
  by_cases hm : s.buffer.state = .speculative ∨ mallocOk = true
  · have hserve := ho hm
    obtain ⟨hhold, hserved⟩ := h.opened
    have hst := s.buffer.opened_state
    -- what the call comes to
    have hreply : RepliesTo ps ss (delivered (s.buffer.Asks mallocOk) recv) s.returned lens
        (recvmsgServe s.buffer.opened lens garbage recv) := by
      unfold Circular.ServesSpeculative at hserve
      split at hserve
      · rename_i hne
        rw [delivered_of_not fun hasks => hne hasks.1.2.1]
        exact replies_primary hhold hserved hst hne hserve
      · rename_i hp
        split at hserve
        · exact hserve.elim
        · rename_i hs
          have hd : s.buffer.opened.Drained := ⟨not_not.mp hp, not_not.mp hs⟩
          have hasks : delivered (s.buffer.Asks mallocOk) recv = takenIn s.buffer.opened recv :=
            delivered_congr ⟨fun hasks => hasks.2, fun hsome => ⟨⟨hm, hd⟩, hsome⟩⟩
          have hkernel : recvmsgServe s.buffer.opened lens garbage recv =
              recvmsgKernel s.buffer.opened lens recv := by
            unfold recvmsgServe
            rw [if_neg hp, if_neg hs]
          rw [hasks, hkernel]
          exact replies_kernel hhold hserved hst hd hf hserve
    rw [recvmsgSpeculative_eq hm]
    obtain ⟨ps', ss', heq, hhold', hserved', hst'⟩ := hreply
    refine ⟨ps', ss', ?_, h.committed, hhold', ?_, fun _ => hserved'⟩
    · show s.arrived ++ _ = _
      rw [heq, h.arrived, List.append_assoc]
    · intro hn
      exact nomatch hst'.symm.trans hn
  · obtain ⟨hst, hmalloc⟩ := not_or.mp hm
    have hno : recvmsgSpeculative s.buffer lens mallocOk garbage recv =
        (recvFailed (-1) Errno.enomem, s.buffer) := by
      unfold recvmsgSpeculative
      cases hb : s.buffer.state with
      | speculative => exact (hst hb).elim
      | nonSpeculative => exact if_neg hmalloc
    rw [hno, delivered_of_not fun hasks => hm hasks.1.1, logged_failed, List.append_nil,
      List.append_nil]
    exact ⟨ps, ss, h.arrived, h.committed, h.holding, h.idle, h.served⟩

theorem DgramSys.Intact.commit (h : s.Intact cs ps ss) :
    ∃ cs' ps' ss', DgramSys.Intact { s with
      buffer := if s.buffer.state = .speculative then s.buffer.commit else s.buffer
      returned := []
      committed := s.committed ++ s.returned } cs' ps' ss' := by
  by_cases hst : s.buffer.state = .speculative
  · rw [if_pos hst]
    obtain ⟨rs, ps', ss', heq, hm, hhold, hst'⟩ := h.holding.commit (h.served hst)
    refine ⟨cs ++ rs, ps', ss', ?_, List.rel_append h.committed hm, hhold, fun _ => rfl, ?_⟩
    · show s.arrived = _
      rw [h.arrived, heq, List.append_assoc]
    · intro hn
      exact nomatch hst'.symm.trans hn
  · rw [if_neg hst]
    have hidle : s.returned = [] := h.idle (by cases hb : s.buffer.state <;> simp_all)
    refine ⟨cs, ps, ss, h.arrived, ?_, h.holding, fun _ => rfl, fun hn => (hst hn).elim⟩
    show Matches (s.committed ++ s.returned) cs
    rw [hidle, List.append_nil]
    exact h.committed

theorem DgramSys.Intact.abort (h : s.Intact cs ps ss) :
    DgramSys.Intact { s with
      buffer := if s.buffer.state = .speculative then s.buffer.undo else s.buffer
      returned := [] } cs ps ss := by
  by_cases hst : s.buffer.state = .speculative
  · rw [if_pos hst]
    exact ⟨h.arrived, h.committed, h.holding.congr rfl rfl rfl rfl rfl rfl, fun _ => rfl,
      fun hn => nomatch hn⟩
  · rw [if_neg hst]
    exact ⟨h.arrived, h.committed, h.holding, fun _ => rfl, fun hn => (hst hn).elim⟩

/-- what a call outside a transaction comes to: one datagram has been returned, or none -/
def RepliesDirect (ps ss new : List Datagram) (lens : List Nat) (r : RecvReply × Circular) : Prop :=
  ∃ rs ps' ss', rs ++ (ps' ++ ss') = ps ++ ss ++ new ∧ Matches (logged lens r.1) rs ∧
    r.2.Holding ps' ss' ∧ r.2.state = .nonSpeculative

theorem matches_copyOut {b : Circular} {i : Int} {d : Datagram} (h : b.RecordAt i d)
    (hfill : b.Fills lens i) : Matches (logged lens (b.copyOut i lens)) [d] := by
  unfold Circular.Fills at hfill
  rw [h.toNat_iovLen] at hfill
  have hL : d.payload.length ≤ 65536 := h.fits.payload
  rw [logged_copyOut (by omega)]
  exact .cons (h.copyOut hfill) .nil

theorem repliesDirect_primary {b : Circular} (head' : UInt32) {d : Datagram}
    (h : b.Holding (d :: ps) ss) (hst : b.state = .nonSpeculative)
    (hq : b.Queued head' b.primaryTail ps) {r : RecvReply} (hm : Matches (logged lens r) [d]) :
    RepliesDirect (d :: ps) ss [] lens (r, { b with primaryHead := head' }) := by
  have hfirst : b.Holding ([d] ++ ps) ss := h
  exact ⟨[d], ps, ss, (List.append_nil _).symm, hm, hfirst.drop hq, hst⟩

theorem repliesDirect_secondary {b : Circular} (head' : UInt32) {d : Datagram}
    (h : b.Holding [] (d :: ss)) (hst : b.state = .nonSpeculative)
    (hq : b.Queued head' b.secondaryTail ss) {r : RecvReply} (hm : Matches (logged lens r) [d]) :
    RepliesDirect [] (d :: ss) [] lens (r, { b with
      primaryTail := b.secondaryTail, primaryHead := head'
      secondaryHead := 0, secondaryTail := 0 }) := by
  have hfirst : b.Holding [] ([d] ++ ss) := h
  refine ⟨[d], ss, [], ?_, hm, hfirst.swap hq, hst⟩
  rw [List.append_nil, List.append_nil]
  rfl

/-- nothing is buffered, and the kernel serves the call itself -/
theorem repliesDirect_kernel {b : Circular} (h : b.Holding [] []) (hst : b.state = .nonSpeculative)
    (hf : recvFits recv) :
    RepliesDirect [] [] (delivered True recv) lens (recvFromKernel lens errno recv, b) := by
  cases recv with
  | error e => exact ⟨[], [], [], rfl, .nil, h, hst⟩
  | ok d =>
    have hL : d.payload.length ≤ 65536 := hf.payload
    have hret : (recvFromKernel lens errno (.ok d)).ret ≠ -1 := by
      show intOf (d.payload.take lens.sum).length ≠ -1
      rw [List.length_take, intOf_of_lt (by omega)]
      omega
    refine ⟨[d], [], [], rfl, ?_, h, hst⟩
    rw [logged, if_neg hret]
    exact .cons (recvFromKernel_returns hf lens errno) .nil

theorem replies_direct {b : Circular} (errno : Int) (h : b.Holding ps ss) (hst : b.state = .nonSpeculative)
    (hf : recvFits recv) (hserve : b.ServesDirect lens) :
    RepliesDirect ps ss (delivered b.Empty recv) lens (recvmsgDirect b lens errno recv) := by
  have hsize := h.toNat_size
  have hp := h.primaryInside
  have hs := h.secondaryInside
  unfold Circular.ServesDirect at hserve
  unfold recvmsgDirect
  split at hserve
  · rename_i hne
    rw [if_pos hne, delivered_of_not fun he => hne he.1]
    cases ps with
    | nil => exact (hne (h.primary.eq_iff.mpr rfl)).elim
    | cons d ps =>
      have hlt := h.primary.le
      have hi : Circular.index b.primaryHead = b.primaryHead.toNat :=
        Circular.index_of_lt (by omega)
      rw [hi] at hserve ⊢
      exact repliesDirect_primary _ h hst h.primary.rest (matches_copyOut h.primary.2.1 hserve)
  · rename_i hpe
    have hpe' := not_not.mp hpe
    obtain rfl : ps = [] := h.primary.eq_iff.mp hpe'
    rw [if_neg hpe]
    split at hserve
    · rename_i hne
      rw [if_pos hne, delivered_of_not fun he => hne he.2]
      cases ss with
      | nil => exact (hne (h.secondary.eq_iff.mpr rfl)).elim
      | cons d ss =>
        have hlt := h.secondary.le
        have hi : Circular.index b.secondaryHead = b.secondaryHead.toNat :=
          Circular.index_of_lt (by omega)
        rw [hi] at hserve ⊢
        exact repliesDirect_secondary _ h hst h.secondary.rest
          (matches_copyOut h.secondary.2.1 hserve)
    · rename_i hse
      have hse' := not_not.mp hse
      obtain rfl : ss = [] := h.secondary.eq_iff.mp hse'
      rw [if_neg hse, delivered_congr (q := True) (iff_of_true ⟨hpe', hse'⟩ trivial)]
      exact repliesDirect_kernel h hst hf

theorem DgramSys.Intact.direct (h : s.Intact cs ps ss) (hf : recvFits recv)
    (hst : s.buffer.state = .nonSpeculative) (hserve : s.buffer.ServesDirect lens) :
    ∃ cs' ps' ss', DgramSys.Intact { s with
      buffer := (recvmsgDirect s.buffer lens errno recv).2
      arrived := s.arrived ++ delivered s.buffer.Empty recv
      committed := s.committed ++
        logged lens (recvmsgDirect s.buffer lens errno recv).1 } cs' ps' ss' := by
  obtain ⟨rs, ps', ss', heq, hm, hhold, hst'⟩ :=
    replies_direct errno h.holding hst hf hserve
  refine ⟨cs ++ rs, ps', ss', ?_, List.rel_append h.committed hm, hhold, fun _ => h.idle hst, ?_⟩
  · show s.arrived ++ _ = _
    rw [h.arrived, List.append_assoc cs rs, heq, List.append_assoc]
  · intro hn
    exact nomatch hst'.symm.trans hn

theorem dgramStep_intact {s' : DgramSys} {e : DgramEvent} (h : s.Intact cs ps ss)
    (ho : intact s e) (hstep : dgramStep s e = some s') :
    ∃ cs' ps' ss', s'.Intact cs' ps' ss' := by
  cases e with
  | receive lens mallocOk garbage recv =>
    rw [dgramStep, Option.ite_none_right_eq_some] at hstep
    obtain ⟨hf, hstep⟩ := hstep
    cases hstep
    exact ⟨cs, h.receive hf ho⟩
  | direct lens errno recv =>
    rw [dgramStep, Option.ite_none_right_eq_some] at hstep
    obtain ⟨hf, hstep⟩ := hstep
    cases hstep
    exact h.direct hf ho.1 ho.2
  | commit =>
    cases hstep
    exact h.commit
  | abort =>
    cases hstep
    exact ⟨cs, ps, ss, h.abort⟩

end

/-! ## runs -/

/-- a socket from which nothing was received yet, with a buffer as `txc_buffer_circular_create`
makes it -/
def DgramSys.Start (s : DgramSys) : Prop :=
  (∃ b : Circular, b.sizeMax = bufferCircularSize ∧ s.buffer = b.init) ∧
    s.arrived = [] ∧ s.returned = [] ∧ s.committed = []

theorem DgramSys.Start.intact {s : DgramSys} (h : s.Start) : s.Intact [] [] [] := by
  obtain ⟨⟨b, hsize, hb⟩, ha, hr, hc⟩ := h
  refine ⟨ha, ?_, ?_, fun _ => hr, ?_⟩
  · rw [hc]
    exact .nil
  · rw [hb]
    exact ⟨hsize, rfl, rfl, Nat.zero_le _, Nat.zero_le _, fun hne => (hne rfl).elim,
      List.Pairwise.nil, fun _ hi => (List.not_mem_nil hi).elim⟩
  · intro hs
    rw [hb] at hs
    cases hs

theorem reach_intact {s : DgramSys} (h : Reach dgramStep intact DgramSys.Start s) :
    ∃ cs ps ss, s.Intact cs ps ss := by
  refine Reach.inv (I := fun s => ∃ cs ps ss, s.Intact cs ps ss) ?_ ?_ h
  · exact fun s hs => ⟨[], [], [], hs.intact⟩
  · rintro s e s' ⟨cs, ps, ss, hs⟩ ho hstep
    exact dgramStep_intact hs ho hstep

theorem length_places (n : Nat) (ds : List Datagram) : (places n ds).length = ds.length := by
  induction ds generalizing n with
  | nil => rfl
  | cons d ds ih => exact congrArg (· + 1) (ih _)

/-- **Datagrams are delivered again.**  In every run whose steps meet the condition, the buffered
records lie in the array and have no place in common; there is one for each datagram that no
committed call has returned; and the calls that were committed and those of the current transaction
have returned the first datagrams in the order of their arrival, each as the kernel delivered it. -/
theorem datagrams_redelivered {s : DgramSys} (h : Reach dgramStep intact DgramSys.Start s) :
    s.buffer.Separate ∧ s.arrived.length = s.committed.length + s.buffer.records.length ∧
      ∃ ds rest, s.arrived = ds ++ rest ∧ Matches (s.committed ++ s.returned) ds := by
  obtain ⟨cs, ps, ss, hs⟩ := reach_intact h
  have hrecords := hs.holding.records
  refine ⟨?_, ?_, ?_⟩
  · unfold Circular.Separate
    rw [hrecords]
    exact hs.holding.separate
  · rw [hs.arrived, hs.committed.length_eq, hrecords, List.length_append, List.length_append,
      List.length_append, length_places, length_places]
  · cases hst : s.buffer.state with
    | nonSpeculative =>
      refine ⟨cs, ps ++ ss, hs.arrived, ?_⟩
      rw [hs.idle hst, List.append_nil]
      exact hs.committed
    | speculative =>
      rcases hs.served hst with ⟨-, -, -, rs, left, hps, -, hm⟩ | ⟨-, hm⟩
      · refine ⟨cs ++ rs, left ++ ss, ?_, List.rel_append hs.committed hm⟩
        rw [hs.arrived, hps, List.append_assoc, List.append_assoc]
      · refine ⟨cs ++ (ps ++ ss), [], ?_, List.rel_append hs.committed hm⟩
        rw [hs.arrived, List.append_nil]

def freshSocket : DgramSys := ⟨poolBuffer.init, [], [], []⟩

theorem freshSocket_start : freshSocket.Start := ⟨⟨poolBuffer, rfl, rfl⟩, rfl, rfl, rfl⟩

/-- a datagram of the bytes, with the control data -/
def dgramOf (payload control : List UInt8) : Datagram :=
  ⟨List.replicate 16 2, 16, payload, control, 0⟩

/-- two datagrams are received in an aborted transaction; the next one returns both, and commits -/
def receivesAgain : List DgramEvent :=
  [.receive [2, 1] true 0 (.ok (dgramOf [1, 2, 3] [9])), .receive [2] true 0 (.ok (dgramOf [4, 5] [])),
    .abort, .receive [3] true 0 (.error 11), .receive [1, 1] true 0 (.error 11), .commit]

theorem datagrams_redelivered_twice :
    ∃ s, run (guarded dgramStep intact) freshSocket receivesAgain = some s ∧
      s.arrived = [dgramOf [1, 2, 3] [9], dgramOf [4, 5] []] ∧ s.committed.length = 2 ∧
      s.buffer.Separate ∧ ∃ ds rest, s.arrived = ds ++ rest ∧ Matches (s.committed ++ s.returned) ds := by
  have hrun : (run (guarded dgramStep intact) freshSocket receivesAgain).map
      (fun s => (s.arrived, s.committed.length)) =
        some ([dgramOf [1, 2, 3] [9], dgramOf [4, 5] []], 2) := by decide +kernel
  obtain ⟨s, h, hc⟩ := Option.map_eq_some_iff.mp hrun
  obtain ⟨ha, hn⟩ := Prod.mk.inj hc
  have hreach : Reach dgramStep intact DgramSys.Start s := by
    refine (reach_of_guarded receivesAgain h).mono_init ?_
    intro s₀ hs₀
    rw [hs₀]
    exact freshSocket_start
  obtain ⟨hsep, -, hret⟩ := datagrams_redelivered hreach
  exact ⟨s, h, ha, hn, hsep, hret⟩

/-! ## a record that is overwritten -/

/-- a datagram of 1600 bytes and one of one byte are received, and the transaction aborts; the next
one receives the first again -/
def overwrites : List DgramEvent :=
  [.receive [1600] true 0 (.ok (dgramOf (List.replicate 1600 7) [])),
    .receive [1] true 0 (.ok (dgramOf [4] [])), .abort, .receive [1600] true 0 (.error 11)]

/-- the header of the second record lies in the payload of the first -/
theorem datagram_overwritten :
    ∃ s, run dgramStep freshSocket overwrites = some s ∧ s.buffer.records = [0, 1640] ∧
      (1600, 1600) ∈ s.buffer.areas 0 ∧ (1640, 40) ∈ s.buffer.areas 1640 ∧
      ¬ ∃ ds rest, s.arrived = ds ++ rest ∧ Matches (s.committed ++ s.returned) ds := by
  have hrun : (run dgramStep freshSocket overwrites).map (fun s =>
      decide (s.buffer.records = [0, 1640] ∧ (1600, 1600) ∈ s.buffer.areas 0 ∧
        (1640, 40) ∈ s.buffer.areas 1640 ∧
        s.arrived.map Datagram.payload = [List.replicate 1600 7, [4]] ∧ s.committed = [] ∧
        s.returned.map (fun e => (e.1, decide (e.2.data.flatten = List.replicate 1600 7))) =
          [([1600], false)])) = some true := by decide +kernel
  obtain ⟨s, h, hs⟩ := Option.map_eq_some_iff.mp hrun
  obtain ⟨hrec, h1, h2, harr, hcom, hret⟩ := of_decide_eq_true hs
  refine ⟨s, h, hrec, h1, h2, ?_⟩
  rintro ⟨ds, rest, ha, hm⟩
  rw [hcom, List.nil_append] at hm
  obtain ⟨e, hre, he⟩ := List.map_eq_singleton_iff.mp hret
  obtain ⟨hlens, hdata⟩ := Prod.mk.inj he
  rw [hre] at hm
  cases hm with
  | cons hr htail =>
    cases htail
    rename_i d
    rw [ha] at harr
    have hd : d.payload = List.replicate 1600 7 := by
      simp only [List.singleton_append, List.map_cons, List.cons.injEq] at harr
      exact harr.1
    have hflat := hr.data
    rw [hlens, hd] at hflat
    refine of_decide_eq_false hdata (hflat.trans ?_)
    exact List.take_of_length_le (le_of_eq List.length_replicate)

end XCalls
