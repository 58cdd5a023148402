import XCalls.XCall.WritePipe

/-!
# Deferred messages

`x_sendmsg` copies the `struct msghdr`, `msg_iovlen` bytes of the array `msg_iov` and the control
data to the linear buffer; the address and the segments stay where they are.  `ret` is not set when
the message is deferred.

* `Message`, `messageAt`   what a `struct msghdr` in memory denotes;
* `fillSendmsg`    what the call writes to the linear buffer;
* `xSendmsg_mem`   the call;
* `Unchanged`      a memory at the commit: the used part of the linear buffer is as the call left it;
* `Transmits`      the message that is sent, and the value returned, are those of the call;
* `sendmsg_never_transmits`   this never holds, whatever the message is.
-/

set_option linter.unusedSectionVars false

namespace XCalls
open Prog Memory
variable {T : Type} [DecidableEq T] {n N : Nat}

/-! ## messages -/

structure Message where
  name : List UInt8
  payload : List UInt8
  control : List UInt8
  deriving DecidableEq

/-- the segment that the entry at `p` of `msg_iov` denotes -/
def segment (μ : Memory) (p : Nat) : List UInt8 :=
  load μ (loadWord μ p).toNat (loadWord μ (p + 4)).toNat

/-- `struct msghdr`: `msg_name`, `msg_namelen`, `msg_iov`, `msg_iovlen`, `msg_control`,
`msg_controllen`, `msg_flags` -/
def messageAt (μ : Memory) (p : Nat) : Message :=
  { name := load μ (loadWord μ p).toNat (loadWord μ (p + 4)).toNat
    payload := (List.range (loadWord μ (p + 12)).toNat).flatMap fun i =>
      segment μ ((loadWord μ (p + 8)).toNat + 8 * i)
    control := load μ (loadWord μ (p + 16)).toNat (loadWord μ (p + 20)).toNat }

/-- the structure with the bytes that its pointers point to -/
def msghdrAt (μ : Memory) (p : Nat) : Msghdr :=
  { name := (loadWord μ p).toNat
    namelen := loadWord μ (p + 4)
    iov := load μ (loadWord μ (p + 8)).toNat (8 * (loadWord μ (p + 12)).toNat)
    iovlen := loadWord μ (p + 12)
    control := load μ (loadWord μ (p + 16)).toNat (loadWord μ (p + 20)).toNat
    controllen := loadWord μ (p + 20)
    flags := (loadWord μ (p + 24)).toNat }

/-- `x_sendmsg_commit_args_t` (`fd`, `flags`, `msg`), and the copies of `msg_iov` and `msg_control` -/
def fillSendmsg (fd msg : UInt32) (flags : Int32) (_ : XAction N) (μ : LinearMem) : LinearMem :=
  match μ.ptrs with
  | control :: iov :: args :: _ =>
    let hdr := msghdrAt μ.bytes msg.toNat
    let bytes := store μ.bytes (args + 8) (load μ.bytes msg.toNat 28)
    let bytes := storeWord bytes args fd
    let bytes := storeWord bytes (args + 4) flags.toUInt32
    let bytes := storeWord bytes (args + 16) (UInt32.ofNat iov)
    let bytes := storeWord bytes (args + 24) (UInt32.ofNat control)
    let bytes := store bytes iov (hdr.iov.take hdr.iovlen.toNat)
    let bytes := store bytes control hdr.control
    { μ with bytes := bytes, args := μ.args ++ [args] }
  | _ => μ

/-! ## the call -/

/-- how `x_sendmsg` ends in a retryable transaction -/
def SendPost (fill : XAction N → LinearMem → LinearMem) (fd : Nat) (msg : Msghdr) (flags : Int)
    (v : MemView N) (r : Except Stop (Int × Errno)) (v' : MemView N) : Prop :=
  match r with
  | .error _ => v.Same v'
  | .ok (x, e) =>
    (x = -1 ∧ (e = .ebadf ∨ e = .enomem) ∧ v.Same v') ∨
    (e = 0 ∧ ¬ v.linear.curLen + sendmsgArgsSize > v.linear.sizeMax ∧
      ¬ v.linear.curLen + sendmsgArgsSize + msg.iovlen > v.linear.sizeMax ∧
      ¬ v.linear.curLen + sendmsgArgsSize + msg.iovlen + msg.controllen > v.linear.sizeMax ∧
      ∃ garbage, v' = (((({ v with garbage := garbage } : MemView N).alloc sendmsgArgsSize).alloc
        msg.iovlen).alloc msg.controllen).register fill (.sendmsgCommit fd msg.deferred flags) 0)

theorem xSendmsg_mem {fill : XAction N → LinearMem → LinearMem} (fd : Nat) (msg : Msghdr)
    (flags : Int) (result : Option Nat) {v : MemView N} (hx : v.xactstate = .retryable) :
    wp (memStep fill) (xSendmsg fd msg flags result : XProg n N (Int × Errno))
      (SendPost fill fd msg flags v) v := by
  simp only [xSendmsg, call_bind]
  intro _ v₀ h₀
  rw [h₀.1, h₀.2, hx]
  refine wp_acquireFd_mem (fun _ _ => ⟨rfl, rfl, rfl, rfl, rfl, rfl, rfl⟩) fun garbage ok => ?_
  have hsame : v.Same { v with garbage := garbage } := ⟨rfl, rfl, rfl, rfl, rfl, rfl, rfl⟩
  cases ok with
  | false => exact wp_finish_mem (Or.inl ⟨rfl, Or.inl rfl, hsame⟩)
  | true =>
    refine wp_malloc_mem (wp_finish_mem (Or.inl ⟨rfl, Or.inr rfl, hsame⟩)) fun h1 => ?_
    refine wp_malloc_mem ?_ fun h2 => ?_
    · rintro _ _ rfl
      exact wp_finish_mem (Or.inl ⟨rfl, Or.inr rfl, MemView.Same.free v garbage _⟩)
    · refine wp_malloc_mem ?_ fun h3 => ?_
      · rintro _ _ rfl _ _ rfl
        refine wp_finish_mem (Or.inl ⟨rfl, Or.inr rfl, ?_, rfl, rfl, rfl, rfl, rfl, rfl⟩)
        simp [bufferLinearFree, MemView.alloc]
      · rintro _ _ rfl r _ ⟨rfl, rfl⟩
        exact wp_finish_mem (Or.inr ⟨rfl, h1, h2, h3, garbage.tail, rfl⟩)

/-! ## the value returned -/

/-- the values that variables hold before they are set -/
def withGarbage (m : XMach T n N) (garbage : List Int) : XMach T n N :=
  withAnswers m { m.world.answers with garbage := garbage }

section
variable {m m' : XMach T n N} {fd : Nat} {msg : Msghdr} {flags : Int} {result : Option Nat}

/-- the call once the sentinel is acquired -/
def sendmsgDefer (fd : Nat) (msg : Msghdr) (flags : Int) (result : Option Nat) :
    XProg n N (Int × Errno) := do
  if !(← call (.linearMalloc sendmsgArgsSize)) then
    return (← finish result (-1) .enomem, .enomem)
  else if !(← call (.linearMalloc msg.iovlen)) then
    call (.linearFree sendmsgArgsSize)
    return (← finish result (-1) .enomem, .enomem)
  else if !(← call (.linearMalloc msg.controllen)) then
    call (.linearFree msg.iovlen)
    call (.linearFree sendmsgArgsSize)
    return (← finish result (-1) .enomem, .enomem)
  else
    call (.registerCommitAction (.sendmsgCommit fd msg.deferred flags) result regularActionOrder)
    return (← finish result (← call .garbage) 0, 0)

theorem run_xSendmsg (hx : m.world.xactstate = .retryable) :
    run handle (xSendmsg fd msg flags result) m
      = run handle (acquireFd fd >>= fun ok => if !ok then do
          return (← finish result (-1) .ebadf, .ebadf)
        else sendmsgDefer fd msg flags result) m := by
  simp only [xSendmsg, call_bind]
  rw [run_step (rfl : handle .getXactstate m = some (m.world.xactstate, m)), hx]
  rfl

theorem handle_malloc {m : XMach T n N} {size p : UInt32} {b : BufferLinear}
    (h : bufferLinearMalloc m.txd.bufferLinear size = some (p, b)) :
    handle (.linearMalloc size) m
      = some (true, { m with txd := { m.txd with bufferLinear := b } }) := by
  rw [handle, h]

/-- where there is room, the call returns what was in `ret` -/
theorem run_sendmsgDefer (fd : Nat) (flags : Int) (result : Option Nat) {p p' : UInt32} {b b' : BufferLinear} {r : UInt32 × BufferLinear}
    (h1 : bufferLinearMalloc m.txd.bufferLinear sendmsgArgsSize = some (p, b))
    (h2 : bufferLinearMalloc b msg.iovlen = some (p', b'))
    (h3 : bufferLinearMalloc b' msg.controllen = some r) :
    ∃ m', run handle (sendmsgDefer fd msg flags result) m
      = some (.ok (m.world.answers.garbage.headD 0, 0), m') := by
  simp only [sendmsgDefer, call_bind]
  rw [run_step (handle_malloc h1)]
  dsimp only
  rw [if_neg (by decide), run_step (handle_malloc (by exact h2))]
  dsimp only
  rw [if_neg (by decide), run_step (handle_malloc (by exact h3))]
  dsimp only
  rw [if_neg (by decide)]
  exact ⟨_, rfl⟩

/-- without room the call fails -/
theorem room_of_run {r : Int} (h : run handle (sendmsgDefer fd msg flags result) m
    = some (.ok (r, 0), m')) :
    ∃ p b p' b' x, bufferLinearMalloc m.txd.bufferLinear sendmsgArgsSize = some (p, b) ∧
      bufferLinearMalloc b msg.iovlen = some (p', b') ∧
      bufferLinearMalloc b' msg.controllen = some x := by
  have hno : ∀ {m : XMach T n N} {size : UInt32},
      bufferLinearMalloc m.txd.bufferLinear size = none →
      handle (.linearMalloc size) m = some (false, m) := by
    intro m size h
    rw [handle, h]
  simp only [sendmsgDefer, call_bind] at h
  cases h1 : bufferLinearMalloc m.txd.bufferLinear sendmsgArgsSize with
  | none =>
    rw [run_step (hno h1)] at h
    cases h
  | some x =>
    obtain ⟨p, b⟩ := x
    rw [run_step (handle_malloc h1)] at h
    dsimp only at h
    rw [if_neg (by decide)] at h
    cases h2 : bufferLinearMalloc b msg.iovlen with
    | none =>
      rw [run_step (hno (by exact h2))] at h
      cases h
    | some x =>
      obtain ⟨p', b'⟩ := x
      rw [run_step (handle_malloc (by exact h2))] at h
      dsimp only at h
      rw [if_neg (by decide)] at h
      cases h3 : bufferLinearMalloc b' msg.controllen with
      | none =>
        rw [run_step (hno (by exact h3))] at h
        cases h
      | some x => exact ⟨p, b, p', b', x, rfl, h2, h3⟩

/-- the sentinel is acquired, whatever the variables hold that are not looked at -/
theorem run_acquireFd_garbage {m₁ : XMach T n N} (garbage : List Int)
    (hg : garbage.headD 0 = m.world.answers.garbage.headD 0)
    (h : run handle (acquireFd fd) m = some (.ok true, m₁)) :
    ∃ m₂, run handle (acquireFd fd) (withGarbage m garbage) = some (.ok true, m₂) ∧
      m₂.txd = m₁.txd ∧ m₂.world.answers.garbage = garbage.tail := by
  simp only [acquireFd, call_bind] at h ⊢
  rw [run_step (rfl : handle (.lockFd fd) m = some ((), m)),
    run_step (rfl : handle (.lookupFd2koa fd) m = some (koaLookupFd2koa m.world.koamgr fd, m))] at h
  rw [run_step (rfl : handle (.lockFd fd) (withGarbage m garbage) = some ((), _)),
    run_step (rfl : handle (.lookupFd2koa fd) (withGarbage m garbage)
      = some (koaLookupFd2koa m.world.koamgr fd, _))]
  cases hk : koaLookupFd2koa m.world.koamgr fd with
  | none =>
    rw [hk] at h
    cases h
  | some k =>
    rw [hk] at h
    dsimp only at h
    rw [run_op, Option.bind_eq_some_iff] at h
    obtain ⟨y, hy, h⟩ := h
    obtain ⟨s, hs, rfl⟩ := Option.map_eq_some_iff.mp hy
    dsimp only at h
    rw [run_op, Option.bind_eq_some_iff] at h
    obtain ⟨z, hz, h⟩ := h
    obtain ⟨⟨x, mgr, txd⟩, hacq, rfl⟩ := Option.map_eq_some_iff.mp hz
    dsimp only at h
    have hsent : handle (.getSentinel k : Instr n N _) (withGarbage m garbage)
        = some (s, withGarbage m garbage) := by
      show ((m.world.koamgr.koa k).sentinel.map fun s => (s, withGarbage m garbage)) = _
      rw [hs]
      rfl
    have hacq' : handle (.tryacquire s sentinelAcquireonretry : Instr n N _) (withGarbage m garbage)
        = some (x, { withGarbage m garbage with
          txd := txd
          world := { (withGarbage m garbage).world with
            koamgr := { m.world.koamgr with sentinelmgr := mgr }
            answers := { m.world.answers with garbage := garbage.tail } } }) := by
      rw [← hg] at hacq
      show ((sentinelTryacquire m.world.koamgr.sentinelmgr m.txd m.world.self m.world.xactstate s
        sentinelAcquireonretry (garbage.headD 0)).map _) = _
      rw [hacq]
      rfl
    rw [show koaLookupFd2koa (withGarbage m garbage).world.koamgr fd = some k from hk]
    dsimp only
    rw [run_step hsent, run_step hacq']
    rw [run_step (rfl : handle (.unlockFd fd) _ = some ((), _))] at h ⊢
    dsimp only at h ⊢
    by_cases hb : x = rBusysentinel
    · rw [if_pos hb] at h
      cases h
    · rw [if_neg hb] at h ⊢
      cases h
      exact ⟨_, rfl, rfl, rfl⟩

/-- **A call that is deferred returns anything.** -/
theorem sendmsg_returns_any {r : Int} (hx : m.world.xactstate = .retryable)
    (h : run handle (xSendmsg fd msg flags result) m = some (.ok (r, 0), m')) (x : Int) :
    ∃ garbage m₂, run handle (xSendmsg fd msg flags result) (withGarbage m garbage)
      = some (.ok (x, 0), m₂) := by
  rw [run_xSendmsg hx] at h
  obtain ⟨ok, m₁, h1, h2⟩ := run_bind_ok h
  cases ok with
  | false => cases h2
  | true =>
    obtain ⟨p, b, p', b', y, hp, hp', hy⟩ := room_of_run (by exact h2)
    obtain ⟨m₂, h3, htxd, hgarbage⟩ := run_acquireFd_garbage
      [m.world.answers.garbage.headD 0, x] rfl h1
    rw [← htxd] at hp
    obtain ⟨m₃, h4⟩ := run_sendmsgDefer fd flags result hp hp' hy
    rw [hgarbage] at h4
    refine ⟨[m.world.answers.garbage.headD 0, x], m₃, ?_⟩
    rw [run_xSendmsg (by exact hx), run_bind _ h3]
    exact h4

end

/-! ## the message that is sent -/

/-- a memory at the commit: what the call has left in the linear buffer is as it was -/
def Unchanged (σ : XMach T n N × LinearMem) (ν : Memory) : Prop :=
  ∀ a, σ.2.base ≤ a → a < σ.2.base + σ.1.txd.bufferLinear.curLen.toNat → ν a = σ.2.bytes a

/-- the call on the `struct msghdr` at `msg` -/
def sendmsgRun (fd msg : UInt32) (flags : Int32) (result : Option Nat)
    (σ : XMach T n N × LinearMem) :
    Option (Except Stop (Int × Errno) × (XMach T n N × LinearMem)) :=
  run (memHandle (fillSendmsg fd msg flags))
    (xSendmsg fd.toNat (msghdrAt σ.2.bytes msg.toNat) flags.toInt result) (σ.1, σ.2.enter)

/-- when the call is deferred, the message sent at the commit and the value returned are those of the
message at the call, whatever the application does in between -/
def Transmits (m : XMach T n N) (μ : LinearMem) (fd msg : UInt32) (flags : Int32)
    (result : Option Nat) : Prop :=
  ∀ garbage r σ, sendmsgRun fd msg flags result (withGarbage m garbage, μ) = some (.ok (r, 0), σ) →
    r = (messageAt μ.bytes msg.toNat).payload.length ∧
      ∀ args ∈ σ.2.args.getLast?, ∀ ν, Unchanged σ ν →
        messageAt ν (args + 8) = messageAt μ.bytes msg.toNat

structure Copied (m : XMach T n N) (μ : LinearMem) (msg : UInt32) (σ : XMach T n N × LinearMem)
    (args : Nat) : Prop where
  last : σ.2.args.getLast? = some args
  base : σ.2.base = μ.base
  args_eq : args = μ.base + m.txd.bufferLinear.curLen.toNat
  level : σ.1.txd.bufferLinear.curLen.toNat = m.txd.bufferLinear.curLen.toNat + 36 +
    (loadWord μ.bytes (msg.toNat + 12)).toNat + (loadWord μ.bytes (msg.toNat + 20)).toNat
  iov : (loadWord σ.2.bytes (args + 16)).toNat = args + 36
  iovlen : loadWord σ.2.bytes (args + 20) = loadWord μ.bytes (msg.toNat + 12)

theorem copied_of_run {m : XMach T n N} {μ : LinearMem} {fd msg : UInt32} {flags : Int32}
    {result : Option Nat} {r : Int} {σ : XMach T n N × LinearMem}
    (hx : m.world.xactstate = .retryable)
    (hsize : m.txd.bufferLinear.sizeMax = bufferLinearSize)
    (hlevel : m.txd.bufferLinear.curLen ≤ m.txd.bufferLinear.sizeMax)
    (hbase : μ.base + bufferLinearSize.toNat < 2 ^ 32)
    (hiov : (loadWord μ.bytes (msg.toNat + 12)).toNat < 2 ^ 31)
    (hctl : (loadWord μ.bytes (msg.toNat + 20)).toNat < 2 ^ 31)
    (h : sendmsgRun fd msg flags result (m, μ) = some (.ok (r, 0), σ)) :
    ∃ args, Copied m μ msg σ args := by
  have hpost := run_mem (xSendmsg_mem fd.toNat (msghdrAt μ.bytes msg.toNat) flags.toInt result
    (v := memView (m, μ.enter)) hx) h
  rcases hpost with ⟨-, he | he, -⟩ | ⟨-, h1, h2, h3, garbage, hview⟩
  · cases he
  · cases he
  obtain ⟨L, hL⟩ : ∃ L, L = m.txd.bufferLinear.curLen := ⟨_, rfl⟩
  obtain ⟨w, hw⟩ : ∃ w, w = loadWord μ.bytes (msg.toNat + 12) := ⟨_, rfl⟩
  obtain ⟨c, hc⟩ : ∃ c, c = loadWord μ.bytes (msg.toNat + 20) := ⟨_, rfl⟩
  rw [← hw] at hiov
  rw [← hc] at hctl
  have h36 : sendmsgArgsSize.toNat = 36 := rfl
  have hs : bufferLinearSize.toNat = 262144 := rfl
  have h1 : ¬ L + sendmsgArgsSize > m.txd.bufferLinear.sizeMax := by rw [hL]; exact h1
  have h2 : ¬ L + sendmsgArgsSize + w > m.txd.bufferLinear.sizeMax := by rw [hL, hw]; exact h2
  have h3 : ¬ L + sendmsgArgsSize + w + c > m.txd.bufferLinear.sizeMax := by
    rw [hL, hw, hc]; exact h3
  -- the three regions lie one behind the other
  have hfit : ∀ (l size : UInt32), l.toNat ≤ bufferLinearSize.toNat → size.toNat < 2 ^ 31 →
      ¬ l + size > m.txd.bufferLinear.sizeMax →
      (l + size).toNat = l.toNat + size.toNat ∧ l.toNat + size.toNat ≤ bufferLinearSize.toNat := by
    intro l size hl hn hroom
    refine linear_fits (b := ⟨m.txd.bufferLinear.sizeMax, l⟩) hsize ?_ hn hroom
    rw [UInt32.le_iff_toNat_le]
    show l.toNat ≤ m.txd.bufferLinear.sizeMax.toNat
    rw [hsize]
    exact hl
  have hl0 : L.toNat ≤ bufferLinearSize.toNat := by
    rw [hL, ← hsize]
    exact UInt32.le_iff_toNat_le.mp hlevel
  obtain ⟨e1, f1⟩ := hfit L sendmsgArgsSize hl0 (by decide) h1
  obtain ⟨e2, f2⟩ := hfit (L + sendmsgArgsSize) w (by omega) hiov h2
  obtain ⟨e3, f3⟩ := hfit (L + sendmsgArgsSize + w) c (by omega) hctl h3
  obtain ⟨A, hA⟩ : ∃ A, A = μ.base + L.toNat := ⟨_, rfl⟩
  obtain ⟨I, hI⟩ : ∃ I, I = μ.base + (L + sendmsgArgsSize).toNat := ⟨_, rfl⟩
  obtain ⟨C, hC⟩ : ∃ C, C = μ.base + (L + sendmsgArgsSize + w).toNat := ⟨_, rfl⟩
  have hmem : σ.2 = fillSendmsg fd msg flags
      (.sendmsgCommit fd.toNat (msghdrAt μ.bytes msg.toNat).deferred flags.toInt : XAction N)
      { μ with ptrs := [C, I, A] } := by
    have hmem := congrArg MemView.mem hview
    rw [hA, hI, hC, hw, hL]
    exact hmem
  have hlin : σ.1.txd.bufferLinear.curLen = L + sendmsgArgsSize + w + c := by
    have hlin := congrArg (fun v : MemView N => v.linear.curLen) hview
    rw [hw, hc, hL]
    exact hlin
  have hIw : (UInt32.ofNat I).toNat = I := by
    rw [UInt32.toNat_ofNat']
    omega
  have hcut : ((msghdrAt μ.bytes msg.toNat).iov.take
      (msghdrAt μ.bytes msg.toNat).iovlen.toNat).length ≤ w.toNat := by
    rw [hw]
    exact List.length_take_le _ _
  refine ⟨A, ?_, ?_, ?_, ?_, ?_, ?_⟩
  · rw [hmem]
    exact List.getLast?_concat
  · rw [hmem]
    rfl
  · rw [hA, hL]
  · rw [hlin, ← hw, ← hc, ← hL]
    omega
  · rw [hmem]
    show (loadWord (store (store (storeWord (storeWord _ (A + 16) (UInt32.ofNat I)) (A + 24) _) I _)
      C _) (A + 16)).toNat = A + 36
    rw [loadWord_store_of_apart (Or.inr (by omega)), loadWord_store_of_apart (Or.inr (by omega)),
      loadWord_storeWord_of_apart (Or.inr (by omega)), loadWord_storeWord, hIw]
    omega
  · rw [hmem]
    show loadWord (store (store (storeWord (storeWord (storeWord (storeWord (store _ (A + 8)
      (load μ.bytes msg.toNat 28)) A _) (A + 4) _) (A + 16) _) (A + 24) _) I _) C _) (A + 8 + 12) = _
    rw [loadWord_store_of_apart (Or.inr (by omega)), loadWord_store_of_apart (Or.inr (by omega)),
      loadWord_storeWord_of_apart (Or.inr (by omega)),
      loadWord_storeWord_of_apart (Or.inl (by omega)),
      loadWord_storeWord_of_apart (Or.inl (by omega)),
      loadWord_storeWord_of_apart (Or.inl (by omega)), loadWord_store_load (by omega)]

theorem length_payload (ν : Memory) (p : Nat) : (messageAt ν p).payload.length
    = ((List.range (loadWord ν (p + 12)).toNat).map fun i =>
        (loadWord ν ((loadWord ν (p + 8)).toNat + 8 * i + 4)).toNat).sum := by
  rw [messageAt, List.length_flatMap]
  refine congrArg List.sum (List.map_congr_left fun i _ => ?_)
  rw [segment, length_load]

/-- **The array is not copied as a whole.**  When a message has segments and less than 7 bytes of
control data for each, the lengths of its segments are read behind the copies, and what is sent can
be something else. -/
theorem copy_incomplete {m : XMach T n N} {μ : LinearMem} {msg : UInt32}
    {σ : XMach T n N × LinearMem} {args : Nat} (h : Copied m μ msg σ args)
    (hpos : 0 < (loadWord μ.bytes (msg.toNat + 12)).toNat)
    (hctl : (loadWord μ.bytes (msg.toNat + 20)).toNat
      < 7 * (loadWord μ.bytes (msg.toNat + 12)).toNat) :
    ∃ ν, Unchanged σ ν ∧ messageAt ν (args + 8) ≠ messageAt μ.bytes msg.toNat := by
  obtain ⟨w, hw⟩ : ∃ w, w = (loadWord μ.bytes (msg.toNat + 12)).toNat := ⟨_, rfl⟩
  rw [← hw] at hpos hctl
  obtain ⟨j, rfl⟩ : ∃ j, w = j + 1 := ⟨w - 1, by omega⟩
  have hlevel := h.level
  have hbase := h.base
  have hargs := h.args_eq
  rw [← hw] at hlevel
  -- `X` is the highest byte of the length of the last segment
  obtain ⟨X, hX⟩ : ∃ X, X = args + 36 + 8 * j + 7 := ⟨_, rfl⟩
  obtain ⟨ν, hν⟩ : ∃ ν : UInt8 → Memory, ν = fun t => Function.update σ.2.bytes X t := ⟨_, rfl⟩
  have hother : ∀ t a, a ≠ X → ν t a = σ.2.bytes a := by
    intro t a ha
    rw [hν]
    exact Function.update_of_ne ha _ _
  have hkeep : ∀ t, Unchanged σ (ν t) := by
    intro t a h1 h2
    refine hother t a ?_
    omega
  have hlen : ∀ t, (messageAt (ν t) (args + 8)).payload.length
      = ((List.range j).map fun i => (loadWord σ.2.bytes (args + 36 + 8 * i + 4)).toNat).sum +
        (loadWord (ν t) (args + 36 + 8 * j + 4)).toNat := by
    intro t
    have h16 : loadWord (ν t) (args + 16) = loadWord σ.2.bytes (args + 16) :=
      loadWord_congr fun a h1 h2 => hother t a (by omega)
    have h20 : loadWord (ν t) (args + 20) = loadWord σ.2.bytes (args + 20) :=
      loadWord_congr fun a h1 h2 => hother t a (by omega)
    rw [length_payload, show args + 8 + 12 = args + 20 from rfl, show args + 8 + 8 = args + 16 from rfl,
      h16, h20, h.iov, h.iovlen, ← hw, List.range_succ, List.map_append, List.sum_append]
    congr 1
    refine congrArg List.sum (List.map_congr_left fun i hi => ?_)
    rw [List.mem_range] at hi
    rw [loadWord_congr fun a h1 h2 => hother t a (by omega)]
  have hlast : ∀ t, (loadWord (ν t) (args + 36 + 8 * j + 4)).toNat
      = (σ.2.bytes (args + 36 + 8 * j + 4)).toNat + 256 * (σ.2.bytes (args + 36 + 8 * j + 4 + 1)).toNat +
        65536 * (σ.2.bytes (args + 36 + 8 * j + 4 + 2)).toNat + 16777216 * t.toNat := by
    intro t
    have ht : ν t (args + 36 + 8 * j + 4 + 3) = t := by
      rw [hν, show args + 36 + 8 * j + 4 + 3 = X by omega]
      exact Function.update_self ..
    have h4 := (σ.2.bytes (args + 36 + 8 * j + 4)).toNat_lt
    have h5 := (σ.2.bytes (args + 36 + 8 * j + 4 + 1)).toNat_lt
    have h6 := (σ.2.bytes (args + 36 + 8 * j + 4 + 2)).toNat_lt
    have h7 := t.toNat_lt
    rw [loadWord, ht, hother t _ (by omega), hother t _ (by omega), hother t _ (by omega),
      UInt32.toNat_ofNat']
    omega
  -- two values of this byte, two lengths
  by_contra hno
  have hsame : ∀ t, messageAt (ν t) (args + 8) = messageAt μ.bytes msg.toNat := by
    intro t
    by_contra hne
    exact hno ⟨ν t, hkeep t, hne⟩
  have h0 := congrArg (fun x : Message => x.payload.length) (hsame 0)
  have h1 := congrArg (fun x : Message => x.payload.length) (hsame 1)
  simp only [hlen, hlast] at h0 h1
  have hzero : (0 : UInt8).toNat = 0 := rfl
  have hone : (1 : UInt8).toNat = 1 := rfl
  omega

/-! ## never -/

/-- **`x_sendmsg` never keeps its promise.**  In whatever state a call is deferred, for every message,
it may return any number; and if the message has segments and less than 7 bytes of control data for
each, the message that is sent at the commit may be another one. -/
theorem sendmsg_never_transmits (m : XMach T n N) (μ : LinearMem) (fd msg : UInt32) (flags : Int32)
    (result : Option Nat) (hx : m.world.xactstate = .retryable) (r : Int)
    (σ : XMach T n N × LinearMem)
    (h : sendmsgRun fd msg flags result (m, μ) = some (.ok (r, 0), σ)) :
    ¬ Transmits m μ fd msg flags result ∧
      (∀ x, ∃ garbage σ', sendmsgRun fd msg flags result (withGarbage m garbage, μ)
        = some (.ok (x, 0), σ')) ∧
      (m.txd.bufferLinear.sizeMax = bufferLinearSize →
        m.txd.bufferLinear.curLen ≤ m.txd.bufferLinear.sizeMax →
        μ.base + bufferLinearSize.toNat < 2 ^ 32 →
        0 < (msghdrAt μ.bytes msg.toNat).iovlen.toNat →
        (msghdrAt μ.bytes msg.toNat).iovlen.toNat < 2 ^ 28 →
        (msghdrAt μ.bytes msg.toNat).controllen.toNat
          < 7 * (msghdrAt μ.bytes msg.toNat).iovlen.toNat →
        ∃ args ν, σ.2.args.getLast? = some args ∧ Unchanged σ ν ∧
          messageAt ν (args + 8) ≠ messageAt μ.bytes msg.toNat) := by
  have hany : ∀ x, ∃ garbage σ', sendmsgRun fd msg flags result (withGarbage m garbage, μ)
      = some (.ok (x, 0), σ') := by
    intro x
    obtain ⟨garbage, m₂, hrun⟩ := sendmsg_returns_any hx (run_machine h) x
    obtain ⟨μ₂, hmem⟩ := run_memory hrun μ.enter
    exact ⟨garbage, (m₂, μ₂), hmem⟩
  refine ⟨fun ht => ?_, hany, fun hsize hlevel hbase hpos hiov hctl => ?_⟩
  · obtain ⟨garbage, σ', hrun⟩ := hany ((messageAt μ.bytes msg.toNat).payload.length + 1)
    have hr := (ht garbage _ σ' hrun).1
    omega
  · have hpos : 0 < (loadWord μ.bytes (msg.toNat + 12)).toNat := hpos
    have hiov : (loadWord μ.bytes (msg.toNat + 12)).toNat < 2 ^ 28 := hiov
    have hctl : (loadWord μ.bytes (msg.toNat + 20)).toNat
      < 7 * (loadWord μ.bytes (msg.toNat + 12)).toNat := hctl
    obtain ⟨args, hcopied⟩ := copied_of_run hx hsize hlevel hbase (by omega) (by omega) h
    obtain ⟨ν, hkeep, hne⟩ := copy_incomplete hcopied hpos hctl
    exact ⟨args, ν, hcopied.last, hkeep, hne⟩

/-- a message of two segments at the address 16: `[1, 2]` and `[3]` -/
def twoSegments : LinearMem :=
  let bytes : Memory := store (fun _ => 0) 200 [1, 2, 3]
  let bytes := storeWord (storeWord bytes 24 100) 28 2
  let bytes := storeWord (storeWord bytes 100 200) 104 2
  let bytes := storeWord (storeWord bytes 108 202) 112 1
  ⟨bytes, 4096, [], []⟩

theorem sendmsg_never_transmits_two :
    ∃ r σ, sendmsgRun 1 16 0 none (xBegin (smallMach smallKernel), twoSegments)
        = some (.ok (r, 0), σ) ∧
      ¬ Transmits (xBegin (smallMach smallKernel)) twoSegments 1 16 0 none := by
  have hrun : ((sendmsgRun 1 16 0 none (xBegin (smallMach smallKernel), twoSegments)).map fun r =>
      match r.1 with
      | .ok (_, e) => decide (e = 0)
      | .error _ => false) = some true := by decide +kernel
  obtain ⟨⟨out, σ⟩, h, hok⟩ := Option.map_eq_some_iff.mp hrun
  cases out with
  | error e => cases hok
  | ok x =>
    obtain ⟨r, e⟩ := x
    obtain rfl : e = 0 := of_decide_eq_true hok
    exact ⟨r, σ, h, (sendmsg_never_transmits _ twoSegments 1 16 0 none rfl r σ h).1⟩

/-- **Other bytes are sent.**  The application changes nothing, and `ret` happens to hold 3; yet only
two bytes of the array were copied, and the message at the commit has no bytes. -/
theorem sendmsg_sends_other_bytes :
    (messageAt twoSegments.bytes 16).payload = [1, 2, 3] ∧
      ((sendmsgRun 1 16 0 none (withGarbage (xBegin (smallMach smallKernel)) [0, 3], twoSegments)).map
        fun r => (match r.1 with
          | .ok x => some x
          | .error _ => none, r.2.2.args.map fun args => (messageAt r.2.2.bytes (args + 8)).payload))
        = some (some (3, 0), [[]]) := by
  decide +kernel

end XCalls
