import XCalls.XCall.Actions
import XCalls.XCall.LinearMem

/-!
# Deferred writes to pipes

`x_write_pipe` copies its data to the linear buffer, and `x_write_pipe_commit` writes them when the
transaction commits.

* `fillWritePipe`, `fillClose`   what the calls write to the linear buffer;
* `WriterEvent`, `writerRun`   a transaction of `x_write_pipe` and `x_close`, with what the application
                   does to its memory between them;
* `xWritePipe_mem`, `xClose_mem`   the calls;
* `PipeInv`        the arguments and the data of the calls that succeeded are in the linear buffer,
                   below its level;
* `issuedBy`       the writes and closes that a list of actions issues;
* `commit_issues`, `abort_issues`   what the generic actions issue;
* `deferred_writes`   what commit and abort issue.
-/

set_option linter.unusedSectionVars false

namespace XCalls
open Prog Memory
variable {T : Type} [DecidableEq T] {n N : Nat}

/-! ## the linear buffer -/

/-- `memcpy` of the data, and `x_write_commit_args_t` -/
def fillWritePipe (fd buf nbyte : UInt32) (_ : XAction N) (μ : LinearMem) : LinearMem :=
  match μ.ptrs with
  | deferredData :: args :: _ =>
    let bytes := store μ.bytes deferredData (load μ.bytes buf.toNat nbyte.toNat)
    let bytes := storeWord bytes (args + 4) nbyte
    let bytes := storeWord bytes (args + 8) (UInt32.ofNat deferredData)
    let bytes := storeWord bytes args fd
    { μ with bytes := bytes, args := μ.args ++ [args] }
  | _ => μ

/-- `x_close_commit_args_t` -/
def fillClose (a : XAction N) (μ : LinearMem) : LinearMem :=
  match μ.ptrs, a with
  | args :: _, .closeCommit fd koa =>
    { μ with bytes :=
        storeWord (storeWord μ.bytes args (UInt32.ofNat fd)) (args + 4) (UInt32.ofNat koa) }
  | _, _ => μ

/-- the descriptor and the data that `x_write_pipe_commit` finds behind `args` -/
def writeArgs (μ : Memory) (args : Nat) : UInt32 × List UInt8 :=
  (loadWord μ args, load μ (loadWord μ (args + 8)).toNat (loadWord μ (args + 4)).toNat)

/-! ## the calls -/

/-- `v'` is `v` but for values that were never set and regions that were given back -/
structure MemView.Same (v v' : MemView N) : Prop where
  linear : v'.linear = v.linear
  commits : v'.commits = v.commits
  undos : v'.undos = v.undos
  xactstate : v'.xactstate = v.xactstate
  bytes : v'.mem.bytes = v.mem.bytes
  base : v'.mem.base = v.mem.base
  args : v'.mem.args = v.mem.args

/-- a region of `size` bytes was allocated -/
def MemView.alloc (v : MemView N) (size : UInt32) : MemView N :=
  { v with
    linear := { v.linear with curLen := v.linear.curLen + size }
    mem := { v.mem with ptrs := (v.mem.base + v.linear.curLen.toNat) :: v.mem.ptrs } }

def MemView.register (v : MemView N) (fill : XAction N → LinearMem → LinearMem) (a : XAction N)
    (order : Int32) : MemView N :=
  { v with commits := v.commits ++ [(a, order)], mem := fill a v.mem }

section
variable {fill : XAction N → LinearMem → LinearMem} {α : Type} {v : MemView N}
  {Q : Except Stop α → MemView N → Prop}

theorem wp_malloc_mem {size : UInt32} {f : Bool → XProg n N α}
    (hno : wp (memStep fill) (f false) Q v)
    (hyes : ¬ v.linear.curLen + size > v.linear.sizeMax → wp (memStep fill) (f true) Q (v.alloc size)) :
    wp (memStep fill) (op (.linearMalloc size) f) Q v := by
  intro b v' h
  simp only [memStep, bufferLinearMalloc] at h
  by_cases hfull : v.linear.curLen + size > v.linear.sizeMax
  · rw [if_pos hfull] at h
    obtain ⟨rfl, rfl⟩ := h
    exact hno
  · rw [if_neg hfull] at h
    obtain ⟨rfl, rfl⟩ := h
    exact hyes hfull

theorem wp_acquireFd_mem {fd : Nat} {f : Bool → XProg n N α}
    (he : ∀ garbage reason, Q (.error (.abort reason)) { v with garbage := garbage })
    (hf : ∀ garbage b, wp (memStep fill) (f b) Q { v with garbage := garbage }) :
    wp (memStep fill) (acquireFd fd >>= f) Q v := by
  simp only [acquireFd, call_bind, op_bind, wp_op]
  intro _ v₁ h₁ koa v₂ h₂
  rw [show v₂ = v from h₂.trans h₁]
  cases koa with
  | none =>
    intro _ v₃ h₃
    rw [show v₃ = v from h₃]
    exact hf v.garbage false
  | some koa =>
    intro s v₃ h₃
    rw [show v₃ = v from h₃]
    rintro xret _ rfl _ _ rfl
    dsimp only
    split
    · exact he _ _
    · exact hf _ true

theorem wp_finish_mem {f : Int → XProg n N α} {result : Option Nat} {r : Int} {e : Errno}
    (h : wp (memStep fill) (f r) Q v) : wp (memStep fill) (finish result r e >>= f) Q v := by
  rintro _ _ rfl
  exact h

theorem MemView.Same.refl (v : MemView N) : v.Same v := ⟨rfl, rfl, rfl, rfl, rfl, rfl, rfl⟩

theorem MemView.Same.free (v : MemView N) (garbage : List Int) (size : UInt32) :
    v.Same { ({ v with garbage := garbage } : MemView N).alloc size with
      linear := bufferLinearFree (({ v with garbage := garbage } : MemView N).alloc size).linear size } := by
  refine ⟨?_, rfl, rfl, rfl, rfl, rfl, rfl⟩
  simp [bufferLinearFree, MemView.alloc]

end

/-- how `x_write_pipe` ends: with an error, or with its commit action registered -/
def WritePost (fill : XAction N → LinearMem → LinearMem) (fd : Nat) (data : List UInt8)
    (v : MemView N) (r : Except Stop (Int × Errno)) (v' : MemView N) : Prop :=
  match r with
  | .error _ => v.Same v'
  | .ok (x, e) =>
    (x = -1 ∧ (e = .ebadf ∨ e = .enomem) ∧ v.Same v') ∨
    (x = intOf data.length ∧ e = 0 ∧
      ¬ v.linear.curLen + writePipeArgsSize > v.linear.sizeMax ∧
      ¬ v.linear.curLen + writePipeArgsSize + UInt32.ofNat data.length > v.linear.sizeMax ∧
      ∃ garbage, v' = ((({ v with garbage := garbage } : MemView N).alloc writePipeArgsSize).alloc
        (UInt32.ofNat data.length)).register fill (.writePipeCommit fd data) 0)

theorem xWritePipe_mem {fill : XAction N → LinearMem → LinearMem} (fd : Nat) (data : List UInt8)
    (result : Option Nat) {v : MemView N} (hx : v.xactstate = .retryable) :
    wp (memStep fill) (xWritePipe fd data result : XProg n N (Int × Errno))
      (WritePost fill fd data v) v := by
  simp only [xWritePipe, call_bind]
  intro _ v₀ h₀
  rw [h₀.1, h₀.2, hx]
  refine wp_acquireFd_mem (fun _ _ => ⟨rfl, rfl, rfl, rfl, rfl, rfl, rfl⟩) fun garbage ok => ?_
  have hsame : v.Same { v with garbage := garbage } := ⟨rfl, rfl, rfl, rfl, rfl, rfl, rfl⟩
  cases ok with
  | false => exact wp_finish_mem (Or.inl ⟨rfl, Or.inl rfl, hsame⟩)
  | true =>
    refine wp_malloc_mem (wp_finish_mem (Or.inl ⟨rfl, Or.inr rfl, hsame⟩)) fun h1 => ?_
    refine wp_malloc_mem ?_ fun h2 => ?_
    · -- the arguments are given back
      rintro _ _ rfl
      exact wp_finish_mem (Or.inl ⟨rfl, Or.inr rfl, MemView.Same.free v garbage _⟩)
    · rintro _ _ rfl
      exact wp_finish_mem (Or.inr ⟨rfl, rfl, h1, h2, garbage, rfl⟩)

/-- how `x_close` ends -/
def ClosePost (fd : Nat) (v : MemView N) (r : Except Stop Int) (v' : MemView N) : Prop :=
  match r with
  | .error (.abort _) => v.Same v'
  | .error .internalError => True
  | .ok _ => v.Same v' ∨
      ¬ v.linear.curLen + closeArgsSize > v.linear.sizeMax ∧
      ∃ garbage koa, v' = (({ v with garbage := garbage } : MemView N).alloc closeArgsSize).register
        fillClose (.closeCommit fd koa) 1

theorem xClose_mem (fildes : Nat) (result : Option Nat) {v : MemView N}
    (hx : v.xactstate = .retryable) :
    wp (memStep fillClose) (xClose fildes result : XProg n N Int) (ClosePost fildes v) v := by
  simp only [xClose, call_bind]
  intro _ v₀ h₀
  rw [h₀.1, h₀.2, hx]
  intro _ v₁ h₁ koa v₂ h₂
  rw [show v₂ = v from h₂.trans h₁]
  cases koa with
  | none =>
    intro _ v₃ h₃ _ v₄ h₄
    rw [show v₄ = v from h₄.trans h₃]
    exact Or.inl (MemView.Same.refl v)
  | some koa =>
    intro s v₃ h₃
    rw [show v₃ = v from h₃]
    rintro xret _ rfl _ _ rfl
    dsimp only
    split
    · exact ⟨rfl, rfl, rfl, rfl, rfl, rfl, rfl⟩
    · simp only [allocArgs, call_bind, op_bind]
      refine wp_malloc_mem trivial fun h => ?_
      rintro _ _ rfl _ _ rfl _ _ rfl
      exact Or.inr ⟨h, _, koa, rfl⟩

/-! ## the invariant -/

/-- `args` and the data it points to lie between `lo` and `hi`, and are those of the write `w` -/
structure Holds (μ : Memory) (lo hi args : Nat) (w : UInt32 × List UInt8) : Prop where
  args_lo : lo ≤ args
  args_hi : args + 12 ≤ hi
  data_lo : lo ≤ (loadWord μ (args + 8)).toNat
  data_hi : (loadWord μ (args + 8)).toNat + w.2.length ≤ hi
  found : writeArgs μ args = w

namespace Holds
variable {μ ν : Memory} {lo hi hi' args : Nat} {w : UInt32 × List UInt8}

theorem congr (h : Holds μ lo hi args w) (hν : ∀ a, lo ≤ a → a < hi → ν a = μ a) :
    Holds ν lo hi args w := by
  have hlo := h.args_lo
  have hhi := h.args_hi
  have hdlo := h.data_lo
  have hdhi := h.data_hi
  have hword : ∀ k, k + 4 ≤ 12 → loadWord ν (args + k) = loadWord μ (args + k) :=
    fun k hk => loadWord_congr fun a h1 h2 => hν a (by omega) (by omega)
  have hlen : (loadWord μ (args + 4)).toNat = w.2.length := by
    rw [← h.found, writeArgs, length_load]
  refine ⟨hlo, hhi, ?_, ?_, ?_⟩
  · rw [hword 8 (by omega)]
    exact hdlo
  · rw [hword 8 (by omega)]
    exact hdhi
  · rw [← h.found, writeArgs, writeArgs, hword 8 (by omega), hword 4 (by omega),
      show loadWord ν args = loadWord μ args from hword 0 (by omega)]
    congr 1
    refine load_congr fun a h1 h2 => hν a ?_ ?_
    · exact Nat.le_trans hdlo h1
    · rw [hlen] at h2
      exact Nat.lt_of_lt_of_le h2 hdhi

theorem mono (h : Holds μ lo hi args w) (hle : hi ≤ hi') : Holds μ lo hi' args w :=
  ⟨h.args_lo, Nat.le_trans h.args_hi hle, h.data_lo, Nat.le_trans h.data_hi hle, h.found⟩

end Holds

/-- the calls that returned success were the writes `done` -/
structure PipeInv (done : List (UInt32 × List UInt8)) (v : MemView N) : Prop where
  retryable : v.xactstate = .retryable
  size : v.linear.sizeMax = bufferLinearSize
  level : v.linear.curLen ≤ v.linear.sizeMax
  base : v.mem.base + bufferLinearSize.toNat < 2 ^ 32
  args : List.Forall₂ (Holds v.mem.bytes v.mem.base (v.mem.base + v.linear.curLen.toNat))
    v.mem.args done
  writes : (v.commits.filter fun x => x.2 = 0)
    = done.map fun w => (.writePipeCommit w.1.toNat w.2, 0)
  closes : ∀ x ∈ v.commits, x.2 = 0 ∨ x.2 = 1 ∧ ∃ fd koa, x.1 = .closeCommit fd koa
  undos : v.undos = []

namespace PipeInv
variable {done : List (UInt32 × List UInt8)} {v v' : MemView N}

theorem same (h : PipeInv done v) (hs : v.Same v') : PipeInv done v' where
  retryable := hs.xactstate.trans h.retryable
  size := by
    rw [hs.linear]
    exact h.size
  level := by
    rw [hs.linear]
    exact h.level
  base := by
    rw [hs.base]
    exact h.base
  args := by
    rw [hs.linear, hs.bytes, hs.base, hs.args]
    exact h.args
  writes := by
    rw [hs.commits]
    exact h.writes
  closes := by
    rw [hs.commits]
    exact h.closes
  undos := hs.undos.trans h.undos

theorem keep (h : PipeInv done v) {μ : Memory} {hi : Nat}
    (hhi : v.mem.base + v.linear.curLen.toNat ≤ hi)
    (hμ : ∀ a, v.mem.base ≤ a → a < v.mem.base + v.linear.curLen.toNat → μ a = v.mem.bytes a) :
    List.Forall₂ (Holds μ v.mem.base hi) v.mem.args done :=
  h.args.imp fun _ _ hh => (hh.congr hμ).mono hhi

theorem change (h : PipeInv done v) (app : Memory) :
    PipeInv done { v with mem := v.mem.change v.linear.sizeMax.toNat app } := by
  have hlevel := UInt32.le_iff_toNat_le.mp h.level
  refine ⟨h.retryable, h.size, h.level, h.base, ?_, h.writes, h.closes, h.undos⟩
  refine h.keep (Nat.le_refl _) fun a h1 h2 => if_pos ⟨h1, ?_⟩
  omega

theorem write (h : PipeInv done v) {fd buf nbyte : UInt32} (hn : nbyte.toNat < 2 ^ 31)
    {garbage : List Int} (h1 : ¬ v.linear.curLen + writePipeArgsSize > v.linear.sizeMax)
    (h2 : ¬ v.linear.curLen + writePipeArgsSize + nbyte > v.linear.sizeMax) :
    PipeInv (done ++ [(fd, load v.mem.bytes buf.toNat nbyte.toNat)])
      (((({ v with garbage := garbage } : MemView N).alloc writePipeArgsSize).alloc nbyte).register
        (fillWritePipe fd buf nbyte)
        (.writePipeCommit fd.toNat (load v.mem.bytes buf.toNat nbyte.toNat)) 0) := by
  have hbase := h.base
  obtain ⟨ha, haf⟩ := linear_fits h.size h.level (by decide) h1
  have h12 : writePipeArgsSize.toNat = 12 := rfl
  obtain ⟨hd, hdf⟩ := linear_fits (b := { v.linear with curLen := v.linear.curLen + writePipeArgsSize })
    h.size (by
      rw [UInt32.le_iff_toNat_le, ha]
      rw [h.size]
      exact haf) hn h2
  have hd : (v.linear.curLen + writePipeArgsSize + nbyte).toNat
      = v.linear.curLen.toNat + 12 + nbyte.toNat := by
    rw [← h12, ← ha]
    exact hd
  have hdf : v.linear.curLen.toNat + 12 + nbyte.toNat ≤ bufferLinearSize.toNat := by
    rw [← h12, ← ha]
    exact hdf
  -- `A` is the address of the arguments and `D` that of the data
  obtain ⟨A, hA⟩ : ∃ A, A = v.mem.base + v.linear.curLen.toNat := ⟨_, rfl⟩
  obtain ⟨D, hD⟩ : ∃ D, D = v.mem.base + (v.linear.curLen + writePipeArgsSize).toNat := ⟨_, rfl⟩
  have hAD : D = A + 12 := by omega
  have hs : bufferLinearSize.toNat = 262144 := rfl
  have hDw : (UInt32.ofNat D).toNat = D := by
    rw [UInt32.toNat_ofNat']
    omega
  obtain ⟨data, hdata⟩ : ∃ data, data = load v.mem.bytes buf.toNat nbyte.toNat := ⟨_, rfl⟩
  have hlen : data.length = nbyte.toNat := by rw [hdata, length_load]
  rw [← hdata]
  obtain ⟨μ, hμ⟩ : ∃ μ, μ = storeWord (storeWord (storeWord (store v.mem.bytes D data) (A + 4) nbyte)
    (A + 8) (UInt32.ofNat D)) A fd := ⟨_, rfl⟩
  have hfill : fillWritePipe fd buf nbyte (.writePipeCommit fd.toNat data : XAction N)
      { v.mem with ptrs := D :: A :: v.mem.ptrs }
      = { v.mem with ptrs := D :: A :: v.mem.ptrs, bytes := μ, args := v.mem.args ++ [A] } := by
    simp only [fillWritePipe, ← hdata, hμ]
  have hbelow : ∀ a, a < A → μ a = v.mem.bytes a := by
    intro a hlt
    rw [hμ, storeWord, store_of_lt hlt, storeWord, store_of_lt (by omega), storeWord,
      store_of_lt (by omega), store_of_lt (by omega)]
  have hfd : loadWord μ A = fd := by
    rw [hμ, loadWord_storeWord]
  have hptr : loadWord μ (A + 8) = UInt32.ofNat D := by
    rw [hμ, loadWord_storeWord_of_apart (Or.inl (by omega)), loadWord_storeWord]
  have hcount : loadWord μ (A + 4) = nbyte := by
    rw [hμ, loadWord_storeWord_of_apart (Or.inl (by omega)),
      loadWord_storeWord_of_apart (Or.inr (by omega)), loadWord_storeWord]
  have hbytes : load μ D nbyte.toNat = data := by
    rw [hμ, load_storeWord_of_apart (Or.inl (by omega)),
      load_storeWord_of_apart (Or.inl (by omega)), load_storeWord_of_apart (Or.inl (by omega)),
      ← hlen, load_store]
  have hview : (((({ v with garbage := garbage } : MemView N).alloc writePipeArgsSize).alloc
      nbyte).register (fillWritePipe fd buf nbyte) (.writePipeCommit fd.toNat data) 0).mem
      = { v.mem with ptrs := D :: A :: v.mem.ptrs, bytes := μ, args := v.mem.args ++ [A] } := by
    rw [← hfill, hA, hD]
    rfl
  refine ⟨h.retryable, h.size, ?_, ?_, ?_, ?_, ?_, h.undos⟩
  · show v.linear.curLen + writePipeArgsSize + nbyte ≤ v.linear.sizeMax
    rw [UInt32.le_iff_toNat_le, hd, h.size]
    exact hdf
  · rw [hview]
    exact hbase
  · rw [hview]
    show List.Forall₂ (Holds μ v.mem.base
      (v.mem.base + (v.linear.curLen + writePipeArgsSize + nbyte).toNat)) (v.mem.args ++ [A])
      (done ++ [(fd, data)])
    rw [hd]
    refine List.rel_append (h.keep (by omega) fun a _ h2 => hbelow a (by omega)) ?_
    refine .cons ⟨by omega, by omega, ?_, ?_, ?_⟩ .nil
    · rw [hptr, hDw]
      omega
    · rw [hptr, hDw, hlen]
      omega
    · rw [writeArgs, hfd, hptr, hcount, hDw, hbytes]
  · show ((v.commits ++ [(_, 0)]).filter fun x : XAction N × Int32 => x.2 = 0) = _
    rw [List.filter_append, h.writes, List.map_append]
    rfl
  · intro x hx
    rcases List.mem_append.mp hx with hx | hx
    · exact h.closes x hx
    · rw [List.mem_singleton.mp hx]
      exact Or.inl rfl

theorem close (h : PipeInv done v) {fd : Nat} {koa : Fin N} {garbage : List Int}
    (h1 : ¬ v.linear.curLen + closeArgsSize > v.linear.sizeMax) :
    PipeInv done ((({ v with garbage := garbage } : MemView N).alloc closeArgsSize).register
      fillClose (.closeCommit fd koa) 1) := by
  obtain ⟨ha, haf⟩ := linear_fits h.size h.level (by decide) h1
  have hs : closeArgsSize.toNat = 8 := rfl
  refine ⟨h.retryable, h.size, ?_, h.base, ?_, ?_, ?_, h.undos⟩
  · show v.linear.curLen + closeArgsSize ≤ v.linear.sizeMax
    rw [UInt32.le_iff_toNat_le, ha, h.size]
    exact haf
  · show List.Forall₂ (Holds (storeWord (storeWord v.mem.bytes
      (v.mem.base + v.linear.curLen.toNat) (UInt32.ofNat fd))
      (v.mem.base + v.linear.curLen.toNat + 4) (UInt32.ofNat koa)) v.mem.base
      (v.mem.base + (v.linear.curLen + closeArgsSize).toNat)) v.mem.args done
    rw [ha]
    refine h.keep (by omega) fun a _ h2 => ?_
    rw [storeWord, store_of_lt (by omega), storeWord, store_of_lt h2]
  · show ((v.commits ++ [(_, 1)]).filter fun x : XAction N × Int32 => x.2 = 0) = _
    rw [List.filter_append, h.writes]
    exact List.append_nil _
  · intro x hx
    rcases List.mem_append.mp hx with hx | hx
    · exact h.closes x hx
    · rw [List.mem_singleton.mp hx]
      exact Or.inr ⟨rfl, fd, koa, rfl⟩

end PipeInv

/-! ## a transaction -/

inductive WriterEvent where
  | change (app : Memory)
  | writePipe (fd buf nbyte : UInt32) (result : Option Nat) (answers : Answers)
  | close (fd : UInt32) (result : Option Nat) (answers : Answers)

/-- the sizes that `x_write_pipe` returns as an `int` -/
def WriterEvent.Small : WriterEvent → Prop
  | .writePipe _ _ nbyte _ _ => nbyte.toNat < 2 ^ 31
  | _ => True

/-- the reason when a call aborts the transaction, and the descriptors and data, as they were at the
call, of the calls of `x_write_pipe` that returned success -/
structure WriterOut where
  reason : Option AbortReason
  written : List (UInt32 × List UInt8)

def writerRun : List WriterEvent → List (UInt32 × List UInt8) → XMach T n N × LinearMem →
    Option (WriterOut × (XMach T n N × LinearMem))
  | [], done, σ => some (⟨none, done⟩, σ)
  | .change app :: es, done, σ =>
    writerRun es done (σ.1, σ.2.change σ.1.txd.bufferLinear.sizeMax.toNat app)
  | .writePipe fd buf nbyte result answers :: es, done, σ =>
    let data := load σ.2.bytes buf.toNat nbyte.toNat
    match run (memHandle (fillWritePipe fd buf nbyte)) (xWritePipe fd.toNat data result)
      (withAnswers σ.1 answers, σ.2.enter) with
    | none => none
    | some (.ok (r, _), σ') => writerRun es (if r = -1 then done else done ++ [(fd, data)]) σ'
    | some (.error (.abort reason), σ') => some (⟨some reason, done⟩, σ')
    | some (.error .internalError, _) => none
  | .close fd result answers :: es, done, σ =>
    match run (memHandle fillClose) (xClose fd.toNat result)
      (withAnswers σ.1 answers, σ.2.enter) with
    | none => none
    | some (.ok _, σ') => writerRun es done σ'
    | some (.error (.abort reason), σ') => some (⟨some reason, done⟩, σ')
    | some (.error .internalError, _) => none

section
variable {σ σ' : XMach T n N × LinearMem} {done : List (UInt32 × List UInt8)}

theorem intOf_ne (k : Nat) (hk : k < 2 ^ 31) : intOf k ≠ -1 := by
  have h : intOf k = k := by
    unfold intOf
    rw [Int32.toInt_ofNat_of_lt hk]
  omega

theorem PipeInv.enter (h : PipeInv done (memView σ)) (answers : Answers) :
    PipeInv done (memView (withAnswers σ.1 answers, σ.2.enter)) :=
  h.same ⟨rfl, rfl, rfl, rfl, rfl, rfl, rfl⟩

/-- **Every transaction keeps the invariant.** -/
theorem writerRun_inv {es : List WriterEvent} (hes : ∀ e ∈ es, e.Small) :
    ∀ {done : List (UInt32 × List UInt8)} {σ σ' : XMach T n N × LinearMem} {out : WriterOut},
      PipeInv done (memView σ) → ListsOk σ.1.txd → writerRun es done σ = some (out, σ') →
      PipeInv out.written (memView σ') ∧ ListsOk σ'.1.txd := by
  induction es with
  | nil =>
    intro done σ σ' out hv hl h
    cases h
    exact ⟨hv, hl⟩
  | cons e es ih =>
    intro done σ σ' out hv hl h
    have ih := @ih fun e he => hes e (List.mem_cons_of_mem _ he)
    have hsmall := hes e List.mem_cons_self
    have hlists : ∀ {α : Type} {fill : XAction N → LinearMem → LinearMem} {p : XProg n N α}
        {answers : Answers} {r : Except Stop α} {σ₁ : XMach T n N × LinearMem},
        run (memHandle fill) p (withAnswers σ.1 answers, σ.2.enter) = some (r, σ₁) →
        ListsOk σ₁.1.txd := by
      intro α fill p answers r σ₁ h1
      exact run_inv (J := fun s : XMach T n N => ListsOk s.txd) handle_listsOk (run_machine h1) hl
    cases e with
    | change app =>
      have h : writerRun es done (σ.1, σ.2.change σ.1.txd.bufferLinear.sizeMax.toNat app)
          = some (out, σ') := h
      exact ih (hv.change app) (by exact hl) h
    | writePipe fd buf nbyte result answers =>
      have hn : (load σ.2.bytes buf.toNat nbyte.toNat).length = nbyte.toNat := length_load
      have hpost : ∀ {r : Except Stop (Int × Errno)} {σ₁ : XMach T n N × LinearMem},
          run (memHandle (fillWritePipe fd buf nbyte)) (xWritePipe fd.toNat
            (load σ.2.bytes buf.toNat nbyte.toNat) result) (withAnswers σ.1 answers, σ.2.enter)
              = some (r, σ₁) → WritePost (fillWritePipe fd buf nbyte) fd.toNat
            (load σ.2.bytes buf.toNat nbyte.toNat)
            (memView (withAnswers σ.1 answers, σ.2.enter)) r (memView σ₁) :=
        fun h1 => run_mem (xWritePipe_mem _ _ _ (hv.enter answers).retryable) h1
      unfold writerRun at h
      dsimp only at h
      split at h
      · cases h
      · rename_i r e σ₁ h1
        rcases hpost h1 with ⟨rfl, -, hs⟩ | ⟨rfl, -, h2, h3, garbage, hview⟩
        · rw [if_pos rfl] at h
          exact ih ((hv.enter answers).same hs) (hlists h1) h
        · rw [hn, UInt32.ofNat_toNat] at h3 hview
          rw [if_neg (by rw [hn]; exact intOf_ne _ hsmall)] at h
          refine ih ?_ (hlists h1) h
          rw [hview]
          exact (hv.enter answers).write hsmall h2 h3
      · rename_i reason σ₁ h1
        cases h
        exact ⟨(hv.enter answers).same (hpost h1), hlists h1⟩
      · cases h
    | close fd result answers =>
      have hpost : ∀ {r : Except Stop Int} {σ₁ : XMach T n N × LinearMem},
          run (memHandle fillClose) (xClose fd.toNat result) (withAnswers σ.1 answers, σ.2.enter)
            = some (r, σ₁) → ClosePost fd.toNat
            (memView (withAnswers σ.1 answers, σ.2.enter)) r (memView σ₁) :=
        fun h1 => run_mem (xClose_mem _ _ (hv.enter answers).retryable) h1
      unfold writerRun at h
      split at h
      · cases h
      · rename_i r σ₁ h1
        refine ih ?_ (hlists h1) h
        rcases hpost h1 with hs | ⟨h2, garbage, koa, hview⟩
        · exact (hv.enter answers).same hs
        · rw [hview]
          exact (hv.enter answers).close h2
      · rename_i reason σ₁ h1
        cases h
        exact ⟨(hv.enter answers).same (hpost h1), hlists h1⟩
      · cases h

end

/-! ## what the actions issue -/

inductive SysEvent where
  | write (fd : Nat) (buf : List UInt8)
  | close (fd : Nat)
  deriving DecidableEq

def Instr.event : ∀ {β : Type}, Instr n N β → Option SysEvent
  | _, .libcWrite fd buf => some (.write fd buf)
  | _, .libcClose fd => some (.close fd)
  | _, _ => none

/-- what the actions issue, one after the other; the sentinel manager's issue nothing -/
def issuedBy : List (XEntry N) → XMach T n N → List SysEvent
  | [], _ => []
  | e :: es, m =>
    (match e.function with
      | .other a => trace handle Instr.event a.prog m
      | _ => []) ++ issuedBy es (callEntry exec e m).1

/-- `x_close_commit` issues nothing but its close -/
theorem trace_closeCommit (fd : Nat) (koa : Fin N) (m : XMach T n N) :
    ∀ c ∈ trace handle Instr.event (xCloseCommit fd koa : XProg n N Int) m, ∃ x, c = .close x := by
  have hrest : ∀ (b : Bool) (m : XMach T n N), ∀ c ∈ trace handle Instr.event (if b = true then do
        let closed ← call (.libcClose fd)
        call (.unlockFd fd)
        call .unlockAliasCache
        return errnoOf closed
      else do
        call (.unlockFd fd)
        call .unlockAliasCache
        return Errno.ebadf : XProg n N Int) m, ∃ x, c = .close x := by
    intro b m c hc
    cases b with
    | false => cases hc
    | true =>
      have hc : c ∈ [SysEvent.close fd] := hc
      exact ⟨fd, List.mem_singleton.mp hc⟩
  exact hrest _ _

/-- the writes come first, then the closes -/
theorem issuedBy_split (es : List (XEntry N)) :
    ∀ (ws : List (UInt32 × List UInt8)) (cs : List (XAction N × Int32)) (m : XMach T n N),
      others es = ws.map (fun w => (.writePipeCommit w.1.toNat w.2, 0)) ++ cs →
      (∀ x ∈ cs, ∃ fd koa, x.1 = .closeCommit fd koa) →
      ∃ closes, issuedBy es m = ws.map (fun w => .write w.1.toNat w.2) ++ closes ∧
        ∀ c ∈ closes, ∃ fd, c = .close fd := by
  induction es with
  | nil =>
    intro ws cs m h hcs
    have h : ws.map (fun w => (XAction.writePipeCommit w.1.toNat w.2, (0 : Int32))) ++ cs = [] :=
      h.symm
    obtain ⟨hws, -⟩ := List.append_eq_nil_iff.mp h
    rw [List.map_eq_nil_iff] at hws
    subst hws
    exact ⟨[], rfl, (fun c hc => nomatch hc)⟩
  | cons e es ih =>
    intro ws cs m h hcs
    cases ha : e.function with
    | sentinelmgrCommit | sentinelmgrUndo =>
      have hcons : others (e :: es) = others es := by simp [others, ha]
      obtain ⟨closes, hi, hc⟩ := ih ws cs (callEntry exec e m).1 (hcons ▸ h) hcs
      refine ⟨closes, ?_, hc⟩
      rw [issuedBy, ha, hi]
      rfl
    | other a =>
      have hcons : others (e :: es) = (a, e.order) :: others es := by simp [others, ha]
      rw [hcons] at h
      cases ws with
      | cons w ws =>
        obtain ⟨hx, hrest⟩ := List.cons.inj h
        obtain rfl : a = .writePipeCommit w.1.toNat w.2 := (Prod.mk.inj hx).1
        obtain ⟨closes, hi, hc⟩ := ih ws cs (callEntry exec e m).1 hrest hcs
        refine ⟨closes, ?_, hc⟩
        rw [issuedBy, ha, hi]
        rfl
      | nil =>
        have h : (a, e.order) :: others es = cs := h
        subst h
        obtain ⟨fd, koa, rfl⟩ := hcs _ List.mem_cons_self
        obtain ⟨closes, hi, hc⟩ := ih [] (others es) (callEntry exec e m).1 rfl
          fun x hx => hcs x (List.mem_cons_of_mem _ hx)
        refine ⟨trace handle Instr.event (xCloseCommit fd koa : XProg n N Int) m ++ closes, ?_, ?_⟩
        · rw [issuedBy, ha, hi]
          rfl
        · intro c hmem
          rcases List.mem_append.mp hmem with hmem | hmem
          · exact trace_closeCommit fd koa m c hmem
          · exact hc c hmem

theorem issuedBy_none {es : List (XEntry N)} (h : others es = []) (m : XMach T n N) :
    issuedBy es m = [] := by
  induction es generalizing m with
  | nil => rfl
  | cons e es ih =>
    cases ha : e.function with
    | other a =>
      rw [show others (e :: es) = (a, e.order) :: others es by simp [others, ha]] at h
      cases h
    | sentinelmgrCommit | sentinelmgrUndo =>
      rw [show others (e :: es) = others es by simp [others, ha]] at h
      rw [issuedBy, ha, ih h]
      rfl

/-! ## commit and abort -/

theorem linear_register (txd : TxDesc (ActOf (XAction N)) (Fin n)) :
    (registerSentinelmgrCommitAction txd).bufferLinear = txd.bufferLinear ∧
      (registerSentinelmgrUndoAction txd).bufferLinear = txd.bufferLinear := by
  unfold registerSentinelmgrCommitAction registerSentinelmgrUndoAction
  refine ⟨?_, ?_⟩
  · split
    · rw [txRegisterCommitAction_eq]
    · rfl
  · split
    · rw [txRegisterUndoAction_eq]
    · rfl

theorem linear_xBegin (m : XMach T n N) :
    (xBegin m).txd.bufferLinear = ⟨m.txd.bufferLinear.sizeMax, 0⟩ := by
  show (sentinelTransactionPostbegin (txInit m.txd)).bufferLinear = _
  unfold sentinelTransactionPostbegin
  split
  · rw [(linear_register _).2, (linear_register _).1]
    rfl
  · rfl

theorem pipeInv_begin {m : XMach T n N} {bytes : Memory} {base : Nat}
    (hsize : m.txd.bufferLinear.sizeMax = bufferLinearSize)
    (hbase : base + bufferLinearSize.toNat < 2 ^ 32)
    (hact : actions (xBegin m).txd = ([], [])) :
    PipeInv [] (memView (xBegin m, ⟨bytes, base, [], []⟩)) := by
  obtain ⟨hc, hu⟩ := Prod.mk.inj hact
  have hc : (memView (xBegin m, ⟨bytes, base, [], []⟩)).commits = [] := hc
  have hlin : (memView (xBegin m, ⟨bytes, base, [], []⟩)).linear
      = ⟨m.txd.bufferLinear.sizeMax, 0⟩ := linear_xBegin m
  refine ⟨rfl, ?_, ?_, hbase, .nil, ?_, ?_, hu⟩
  · rw [hlin]
    exact hsize
  · rw [hlin]
    exact UInt32.le_iff_toNat_le.mpr (Nat.zero_le _)
  · rw [hc]
    rfl
  · rw [hc]
    exact fun x hx => nomatch hx

section
variable {σ : XMach T n N × LinearMem} {done : List (UInt32 × List UInt8)}

theorem PipeInv.orders (h : PipeInv done (memView σ)) :
    ∀ x ∈ (memView σ).commits, x.2 = 0 ∨ x.2 = 1 :=
  fun x hx => (h.closes x hx).imp_right And.left

theorem PipeInv.commit_nonneg (h : PipeInv done (memView σ)) (hok : ListsOk σ.1.txd)
    (answers : Answers) : ∀ e ∈ commitScan (withAnswers σ.1 answers).txd, 0 ≤ e.order :=
  fun e he => hok.1.nonneg h.orders e he

theorem PipeInv.undo_nonneg (h : PipeInv done (memView σ)) (hok : ListsOk σ.1.txd)
    (answers : Answers) (reason : AbortReason) :
    ∀ e ∈ undoScan (withAnswers (xAbort σ.1 reason) answers).txd, 0 ≤ e.order := by
  intro e he
  have he : e ∈ (xAbort σ.1 reason).txd.undoActionList.entries := List.mem_reverse.mp he
  have hnone : others σ.1.txd.undoActionList.entries = [] := h.undos
  rw [(xAbort_lists σ.1 reason).2] at he
  refine hok.2.nonneg (fun x hx => ?_) e he
  rw [hnone] at hx
  cases hx

variable {fuel : Nat} {o : Outcome (ActOf (XAction N)) (Fin n) (World T n N)}

/-- a commit issues the writes of the calls that returned success, and then closes -/
theorem commit_issues (h : PipeInv done (memView σ)) (hok : ListsOk σ.1.txd) (answers : Answers)
    (ho : txGenericCommitAction exec fuel (withAnswers σ.1 answers) = some o) :
    ∃ closes, issuedBy o.executed (withAnswers σ.1 answers)
        = done.map (fun w => .write w.1.toNat w.2) ++ closes ∧
      ∀ c ∈ closes, ∃ fd, c = .close fd := by
  have hscan : others (commitScan (withAnswers σ.1 answers).txd) = (memView σ).commits := rfl
  obtain ⟨hord, -, -⟩ := txGenericCommitAction_of_some exec_registersNothing
    (m := withAnswers σ.1 answers) (h.commit_nonneg hok answers) ho
  have hex := others_inOrder hord (by rw [hscan]; exact h.orders)
  rw [hscan, h.writes] at hex
  refine issuedBy_split o.executed _ _ _ hex fun x hx => ?_
  obtain ⟨hmem, hone⟩ := List.mem_filter.mp hx
  rcases h.closes x hmem with h0 | ⟨-, h⟩
  · rw [h0] at hone
    cases hone
  · exact h

theorem abort_issues (h : PipeInv done (memView σ)) (hok : ListsOk σ.1.txd) (answers : Answers)
    (reason : AbortReason)
    (ho : txGenericUndoAction exec fuel (withAnswers (xAbort σ.1 reason) answers) = some o) :
    issuedBy o.executed (withAnswers (xAbort σ.1 reason) answers) = [] := by
  have hnone : others σ.1.txd.undoActionList.entries = [] := h.undos
  have hscan : others (undoScan (withAnswers (xAbort σ.1 reason) answers).txd) = [] := by
    show others (xAbort σ.1 reason).txd.undoActionList.entries.reverse = []
    rw [(xAbort_lists σ.1 reason).2, others, List.filterMap_reverse]
    exact List.reverse_eq_nil_iff.mpr hnone
  obtain ⟨hord, -, -⟩ := txGenericUndoAction_of_some exec_registersNothing
    (h.undo_nonneg hok answers reason) ho
  refine issuedBy_none ?_ _
  rw [others_inOrder_zero hord (by rw [hscan]; intro x hx; cases hx), hscan]

end

/-- **Deferred writes to pipes.**  A retryable transaction calls `x_write_pipe` and `x_close` any
number of times, and the application changes its memory in between.  If it commits, the writes that
are issued are those of the calls that returned success, in their order, each with the bytes that its
buffer held then, which are those that its arguments in the linear buffer lead to; all of them precede
every close.  If it is aborted, nothing is issued.  A call that fails with `ENOMEM` registers nothing
and leaves the linear buffer at its level. -/
theorem deferred_writes (m : XMach T n N)
    (hsize : m.txd.bufferLinear.sizeMax = bufferLinearSize) (bytes : Memory) (base : Nat)
    (hbase : base + bufferLinearSize.toNat < 2 ^ 32) (es : List WriterEvent)
    (hes : ∀ e ∈ es, e.Small) (out : WriterOut) (σ : XMach T n N × LinearMem)
    (hrun : writerRun es [] (xBegin m, ⟨bytes, base, [], []⟩) = some (out, σ)) (answers : Answers) :
    (out.reason = none →
      σ.2.args.map (writeArgs σ.2.bytes) = out.written ∧
      ∃ fuel₀ o, (∀ fuel ≥ fuel₀,
          txGenericCommitAction exec fuel (withAnswers σ.1 answers) = some o) ∧
        ∃ closes, issuedBy o.executed (withAnswers σ.1 answers)
            = out.written.map (fun w => .write w.1.toNat w.2) ++ closes ∧
          ∀ c ∈ closes, ∃ fd, c = .close fd) ∧
    (∀ reason, ∃ fuel₀ o, (∀ fuel ≥ fuel₀, txGenericUndoAction exec fuel
          (withAnswers (xAbort σ.1 reason) answers) = some o) ∧
        issuedBy o.executed (withAnswers (xAbort σ.1 reason) answers) = []) ∧
    (∀ (τ τ' : XMach T n N × LinearMem) (fd buf nbyte : UInt32) (result : Option Nat) (r : Int),
      τ.1.world.xactstate = .retryable →
      run (memHandle (fillWritePipe fd buf nbyte)) (xWritePipe fd.toNat
        (load τ.2.bytes buf.toNat nbyte.toNat) result) τ = some (.ok (r, .enomem), τ') →
      τ'.1.txd.bufferLinear = τ.1.txd.bufferLinear ∧
        (view τ'.1).commits = (view τ.1).commits ∧ τ'.2.bytes = τ.2.bytes) := by
  obtain ⟨hok0, hact⟩ := xBegin_lists m
  obtain ⟨hinv, hok⟩ := writerRun_inv hes (pipeInv_begin hsize hbase hact) hok0 hrun
  refine ⟨fun _ => ⟨?_, ?_⟩, fun reason => ?_, ?_⟩
  · exact List.forall₂_eq_eq_eq ▸ List.forall₂_map_left_iff.mpr (hinv.args.imp fun _ _ h => h.found)
  · obtain ⟨fuel₀, o, hfuel, -⟩ := txGenericCommitAction_spec exec_registersNothing
      (withAnswers σ.1 answers) (hinv.commit_nonneg hok answers)
    exact ⟨fuel₀, o, hfuel, commit_issues hinv hok answers (hfuel fuel₀ (Nat.le_refl _))⟩
  · obtain ⟨fuel₀, o, hfuel, -⟩ := txGenericUndoAction_spec exec_registersNothing
      (withAnswers (xAbort σ.1 reason) answers) (hinv.undo_nonneg hok answers reason)
    exact ⟨fuel₀, o, hfuel, abort_issues hinv hok answers reason (hfuel fuel₀ (Nat.le_refl _))⟩
  · intro τ τ' fd buf nbyte result r hx h
    have hpost := run_mem (xWritePipe_mem fd.toNat _ result (v := memView τ) hx) h
    rcases hpost with ⟨-, -, hs⟩ | ⟨-, h0, -⟩
    · exact ⟨hs.linear, hs.commits, hs.bytes⟩
    · cases h0

/-- two writes, and the application clears its memory after the first -/
def writeTwice : List WriterEvent :=
  [.writePipe 1 100 2 none smallAnswers, .change fun _ => 0, .close 1 none smallAnswers,
    .writePipe 2 200 1 none smallAnswers]

theorem deferred_writes_writeTwice :
    ∃ out σ, writerRun writeTwice []
        (xBegin (smallMach smallKernel), ⟨fun a => UInt8.ofNat a, 4096, [], []⟩) = some (out, σ) ∧
      ∃ fuel₀ o, (∀ fuel ≥ fuel₀,
          txGenericCommitAction exec fuel (withAnswers σ.1 smallAnswers) = some o) ∧
        ∃ closes, issuedBy o.executed (withAnswers σ.1 smallAnswers)
            = [.write 1 [100, 101], .write 2 [0]] ++ closes ∧
          ∀ c ∈ closes, ∃ fd, c = .close fd := by
  have hall : ((writerRun writeTwice []
      (xBegin (smallMach smallKernel), ⟨fun a => UInt8.ofNat a, 4096, [], []⟩)).map fun r =>
        decide (r.1.reason = none ∧ r.1.written = [(1, [100, 101]), (2, [0])])) = some true := by
    decide +kernel
  obtain ⟨⟨out, σ⟩, hrun, hdec⟩ := Option.map_eq_some_iff.mp hall
  obtain ⟨hnone, hwritten⟩ := of_decide_eq_true hdec
  obtain ⟨-, h⟩ := (deferred_writes (smallMach smallKernel) rfl (fun a => UInt8.ofNat a) 4096
    (by decide) writeTwice (by
      intro e he
      simp only [writeTwice, List.mem_cons, List.not_mem_nil, or_false] at he
      rcases he with rfl | rfl | rfl | rfl
      · show (2 : UInt32).toNat < 2 ^ 31
        decide
      · trivial
      · trivial
      · show (1 : UInt32).toNat < 2 ^ 31
        decide) out σ hrun smallAnswers).1 hnone
  rw [hwritten] at h
  exact ⟨out, σ, hrun, h⟩

end XCalls
