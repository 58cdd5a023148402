import XCalls.XCall.CreateOver
import XCalls.XCall.KoaUndo

/-!
# `x_open` and abort

The call opens the file in place, with the flags of the application, and attaches the descriptor to
the file's KOA; the undo action detaches and closes it.

* `Footprint`      contents, names, open descriptors, the map, the alias cache and the counters;
* `Koas.detachFd`  the undo action on the KOAs;
* `Restored`       what it gives back after `txc_koa_attach_fd`;
* `run_open`       the call;
* `openSafe`       when the undo action is enough;
* `abort_restores_open`   the footprint is restored exactly then.
-/

set_option linter.unusedSectionVars false

namespace XCalls
open Prog
variable {T : Type} [DecidableEq T] {n N : Nat}

/-! ## what is compared -/

@[ext] structure Footprint (N : Nat) where
  content : FileId → List UInt8
  names : Path → Option FileId
  isOpen : Nat → Bool
  map : Nat → Option (Fin N)
  aliasCache : UInt32 → Option (Fin N)
  refcnt : Fin N → Option Int

/-- the counter of a KOA that is out of the pool -/
def Koas.refcnt (c : Koas n N) (k : Fin N) : Option Int :=
  if k ∈ c.free then none else some (c.koa k).refcnt

def footprint (k : Kernel) (c : Koas n N) : Footprint N :=
  { content := k.content
    names := k.names
    isOpen := fun fd => (k.fds fd).isSome
    map := c.map
    aliasCache := c.aliasCache
    refcnt := c.refcnt }

/-! ## the KOAs -/

/-- a manager of these KOAs -/
def Koas.mgr (c : Koas n N) : KoaMgr Unit n N :=
  ⟨c.koa, c.free, c.map, c.aliasCache, sentinelmgrCreate Unit n⟩

/-- `txc_koa_detach_fd`; the sentinels have no part in it -/
def Koas.detachFd (c : Koas n N) (k : Fin N) (fd : Nat) : Koas n N := (koaDetachFd c.mgr k fd).2.koas

structure Restored (c₀ c : Koas n N) (fd : Nat) : Prop where
  map : c.map = Function.update c₀.map fd none
  aliasCache : c.aliasCache = c₀.aliasCache
  refcnt : c.refcnt = c₀.refcnt

section
variable {m m₀ m₁ : KoaMgr T n N} {k : Fin N} {fd : Nat} {ino : UInt32}

theorem koas_countDetach {S : Type} {m : KoaMgr T n N} {m' : KoaMgr S n N} (h : m.koas = m'.koas)
    (k : Fin N) : (countDetach m k).koas = (countDetach m' k).koas := by
  obtain ⟨koa, free, map, aliasCache, sm⟩ := m
  obtain ⟨koa', free', map', aliasCache', sm'⟩ := m'
  cases h
  unfold countDetach koaDestroy aliasCacheRemove
  dsimp only [KoaMgr.set]
  split
  · split <;> rfl
  · rfl

theorem koas_detachFd (m : KoaMgr T n N) (k : Fin N) (fd : Nat) :
    (koaDetachFd m k fd).2.koas = m.koas.detachFd k fd := by
  unfold Koas.detachFd
  cases hfd : m.map fd with
  | none =>
    have hfd' : m.koas.mgr.map fd = none := hfd
    simp only [koaDetachFd, hfd, hfd']
    rfl
  | some k' =>
    have hfd' : m.koas.mgr.map fd = some k' := hfd
    cases hindex : (m.koa k).indexOf fd with
    | none =>
      have hindex' : (m.koas.mgr.koa k).indexOf fd = none := hindex
      simp only [koaDetachFd, hfd, hfd', hindex, hindex']
      rfl
    | some index =>
      have hindex' : (m.koas.mgr.koa k).indexOf fd = some index := hindex
      simp only [koaDetachFd, hfd, hfd', hindex, hindex']
      exact koas_countDetach (T := T) (S := Unit) rfl k

theorem countAttach_sentinelmgr (m : KoaMgr T n N) (k : Fin N) :
    (countAttach m k).sentinelmgr = m.sentinelmgr := by
  unfold countAttach aliasCacheInsert
  dsimp only
  split
  · split <;> rfl
  · rfl

theorem koaAttachFd_sentinelmgr (h : koaAttachFd m k fd = some m₁) :
    m₁.sentinelmgr = m.sentinelmgr := by
  unfold koaAttachFd at h
  dsimp only at h
  split at h
  · cases h
  · cases h
    exact countAttach_sentinelmgr _ _

/-- a descriptor that was just attached is found -/
theorem detachFd_attachFd (h : koaAttachFd m k fd = some m₁) (hr : 0 ≤ (m.koa k).fdRefcnt) :
    (m₁.koas.detachFd k fd).map = Function.update m.map fd none ∧
      (∀ x, ((m₁.koas.detachFd k fd).koa x).refcnt = (m.koa x).refcnt) ∧
      (m₁.koas.detachFd k fd).free = (if (m.koa k).refcnt = 0 then k :: m.free else m.free) ∧
      (m₁.koas.detachFd k fd).aliasCache =
        if (m.koa k).refcnt = 0 ∧ (m.koa k).type = .file then
          Function.update m₁.aliasCache (m.koa k).stIno none else m₁.aliasCache := by
  obtain ⟨hfree, hmap, ho, hk⟩ := koaAttachFd_cases h
  have hfound : ∃ index, (m₁.koa k).indexOf fd = some index := by
    rw [hk]
    refine indexOf_isSome (i := (m.koa k).fdRefcnt.toNat) ?_ ?_
    · dsimp only
      omega
    · exact Function.update_self ..
  obtain ⟨index, hindex⟩ := hfound
  have hmapped : m₁.map fd = some k := by
    rw [hmap, Function.update_self]
  have hdet : ∃ m₂ : KoaMgr T n N, (koaDetachFd m₁ k fd).2 = countDetach m₂ k ∧
      m₂.map = Function.update m.map fd none ∧ m₂.free = m.free ∧
      m₂.aliasCache = m₁.aliasCache ∧ (m₂.koa k).refcnt = (m.koa k).refcnt + 1 ∧
      (m₂.koa k).type = (m.koa k).type ∧ (m₂.koa k).stIno = (m.koa k).stIno ∧
      ∀ x, x ≠ k → m₂.koa x = m.koa x := by
    unfold koaDetachFd
    rw [hmapped]
    simp only [hindex]
    refine ⟨_, rfl, ?_, hfree, rfl, ?_, ?_, ?_, fun x hx => ?_⟩
    · show Function.update m₁.map fd none = _
      rw [hmap, Function.update_idem]
    · rw [KoaMgr.set_koa, if_pos rfl, hk]
    · rw [KoaMgr.set_koa, if_pos rfl, hk]
    · rw [KoaMgr.set_koa, if_pos rfl, hk]
    · rw [KoaMgr.set_koa, if_neg hx]
      exact ho x hx
  obtain ⟨m₂, hm₂, hmap₂, hfree₂, halias₂, hr₂, ht₂, hi₂, ho₂⟩ := hdet
  rw [← koas_detachFd, hm₂]
  refine ⟨?_, fun x => ?_, ?_, ?_⟩
  · exact (countDetach_map m₂ k).trans hmap₂
  · show ((countDetach m₂ k).koa x).refcnt = _
    rw [countDetach_koa]
    by_cases hx : x = k
    · rw [if_pos hx, hr₂, hx]
      dsimp only
      omega
    · rw [if_neg hx, ho₂ x hx]
  · refine (countDetach_free m₂ k).trans ?_
    rw [hr₂, hfree₂, show (m.koa k).refcnt + 1 - 1 = (m.koa k).refcnt by omega]
  · refine countDetach_aliasCache.trans ?_
    rw [hr₂, ht₂, hi₂, halias₂, show (m.koa k).refcnt + 1 - 1 = (m.koa k).refcnt by omega]

theorem restored_old (hm : TableOk m) (hc : m.aliasCache ino = some k)
    (h : koaAttachFd m k fd = some m₁) : Restored m.koas (m₁.koas.detachFd k fd) fd := by
  obtain ⟨i, hi, href⟩ := hm.ok.cached ino k hc
  obtain ⟨hlive, rfl⟩ := table_koa_some hi
  have href : 1 ≤ (m.koa k).refcnt := href
  obtain ⟨hmap, hcnt, hfree, halias⟩ := detachFd_attachFd h (hm.sound.nonneg k)
  rw [if_neg (by omega)] at hfree
  rw [if_neg (by omega), koaAttachFd_aliasCache h, if_neg (by omega)] at halias
  refine ⟨hmap, halias, funext fun x => ?_⟩
  show (if x ∈ (m₁.koas.detachFd k fd).free then none else some _) = _
  rw [hfree, hcnt]
  rfl

theorem restored_new (hc : m.aliasCache ino = none) (hcreate : koaCreate m .file ino = some (k, m₀))
    (h : koaAttachFd m₀ k fd = some m₁) : Restored m.koas (m₁.koas.detachFd k fd) fd := by
  obtain ⟨rest, hfree₀, hrest, hmap₀, ho₀, hzero, hcnt₀⟩ := koaCreate_cases hcreate
  obtain ⟨htype, hino, halias₀⟩ := koaCreate_info hcreate
  obtain ⟨hmap, hcnt, hfree, halias⟩ := detachFd_attachFd h (by rw [hzero])
  rw [if_pos hcnt₀, hrest, ← hfree₀] at hfree
  rw [if_pos ⟨hcnt₀, htype⟩, koaAttachFd_aliasCache h, hcnt₀, hino rfl, halias₀,
    if_pos ⟨rfl, htype, hc⟩, Function.update_idem, ← hc, Function.update_eq_self] at halias
  refine ⟨hmap.trans (by rw [hmap₀]; rfl), halias, funext fun x => ?_⟩
  show (if x ∈ (m₁.koas.detachFd k fd).free then none else some _) = _
  rw [hfree, hcnt]
  by_cases hx : x ∈ m.free
  · rw [if_pos hx]
    exact (if_pos hx).symm
  · have hxk : x ≠ k := by
      rintro rfl
      exact hx (by rw [hfree₀]; exact List.mem_cons_self)
    rw [if_neg hx, ho₀ x hxk]
    exact (if_neg hx).symm

end

/-! ## the call -/

def openSucceeds (m : XMach T n N) (flags : OpenFlags) : Prop :=
  m.world.answers.faults.head?.join = none ∧ (flags.creat && flags.excl) = false

instance (m : XMach T n N) (flags : OpenFlags) : Decidable (openSucceeds m flags) :=
  inferInstanceAs (Decidable (_ ∧ _))

def openedKernel (m : XMach T n N) (f : FileId) (flags : OpenFlags) : Kernel :=
  (if flags.trunc then m.world.kernel.clear f else m.world.kernel).install f m.world.answers.fd

/-- the `close` of a call that finds the sentinel busy succeeds -/
def closeSucceeds (m : XMach T n N) : Prop := m.world.answers.faults.tail.head?.join = none

instance (m : XMach T n N) : Decidable (closeSucceeds m) := inferInstanceAs (Decidable (_ = none))

def closedKernel (m : XMach T n N) (f : FileId) (flags : OpenFlags) : Kernel :=
  if closeSucceeds m then (sysClose (openedKernel m f flags) m.world.answers.fd).2
  else openedKernel m f flags

inductive KoaOf (m : KoaMgr T n N) (ino : UInt32) (k : Fin N) : KoaMgr T n N → Prop
  | old (h : m.aliasCache ino = some k) : KoaOf m ino k m
  | new {m₀ : KoaMgr T n N} (h : m.aliasCache ino = none)
      (hc : koaCreate m .file ino = some (k, m₀)) : KoaOf m ino k m₀

/-- where the call has left the kernel and the KOAs, and what it has registered -/
structure Leaves (m m' : XMach T n N) (k : Kernel) (c : Koas n N) (l : List (XAction N × Int32)) :
    Prop where
  kernel : m'.world.kernel = k
  koas : m'.world.koamgr.koas = c
  undos : (view m').undos = (view m).undos ++ l

/-- the call has opened the file `f` -/
inductive Opened (m : XMach T n N) (f : FileId) (flags : OpenFlags) (k : Fin N) (c : Koas n N) :
    Except Stop Int → XMach T n N → Prop
  | busy {m' : XMach T n N} (hb : inodeBusy m f.ino = true)
      (h : Leaves m m' (closedKernel m f flags) (c.detachFd k m.world.answers.fd) []) :
      Opened m f flags k c (.error (.abort .busysentinel)) m'
  | done {r : Int} {m' : XMach T n N} (hb : inodeBusy m f.ino = false)
      (h : Leaves m m' (openedKernel m f flags) c [(.openUndo m.world.answers.fd k, 0)]) :
      Opened m f flags k c (.ok r) m'
  | ended {m' : XMach T n N} : Opened m f flags k c (.error .internalError) m'

/-- the call once the file is open, when there is a KOA -/
def xOpenOld (fildes : Nat) (koa : Fin N) (result : Option Nat) : XProg n N Int := do
  call (.lockFdsRefbyKoa koa)
  call (.lockFd fildes)
  call (.attachFd koa fildes false)
  let sentinel ← call (.getSentinel koa)
  let xret ← call (.tryacquire sentinel 0)
  if xret = rBusysentinel then
    let _ ← call (.libcClose fildes)
    let _ ← call (.detachFd koa fildes false)
    call (.unlockFd fildes)
    call (.unlockFdsRefbyKoa koa)
    call .unlockAliasCache
    .stop (.abort .busysentinel)
  else
    xOpenRegister fildes koa result
    call (.unlockFdsRefbyKoa koa)
    call .unlockAliasCache
    finish result fildes 0

/-- when there is none -/
def xOpenNew (fildes : Nat) (inode : Inode) (result : Option Nat) : XProg n N Int := do
  let koa ← call (.createKoa inode)
  call (.lockFd fildes)
  call (.attachFd koa fildes false)
  acquireNew koa
  xOpenRegister fildes koa result
  call (.unlockFd fildes)
  call .unlockAliasCache
  finish result fildes 0

section
variable {m m' : XMach T n N} {p : Path} {f : FileId} {flags : OpenFlags}

theorem run_openRegister {fd : Nat} {k : Fin N} {result : Option Nat} {q : XProg n N Int}
    {out : Except Stop Int}
    (hq : ∀ (s s' : XMach T n N) (r : Except Stop Int), run handle q s = some (r, s') →
      (∃ i, r = .ok i) ∧ faultView s' = faultView s ∧ s'.world.koamgr = s.world.koamgr)
    (h : run handle (xOpenRegister fd k result >>= fun _ => q) m = some (out, m')) :
    out = .error .internalError ∨
      (∃ i, out = .ok i) ∧ m'.world.kernel = m.world.kernel ∧
        m'.world.koamgr = m.world.koamgr ∧
        (view m').undos = (view m).undos ++ [(.openUndo fd k, 0)] := by
  simp only [xOpenRegister, allocArgs, call_bind, op_bind] at h
  rw [run_op, Option.bind_eq_some_iff] at h
  obtain ⟨⟨ok, m₁⟩, h1, h⟩ := h
  have hv1 : faultView m₁ = faultView m := faultView_of_nat h1 id
  have hk1 : m₁.world.koamgr = m.world.koamgr := by
    simp only [handle] at h1
    split at h1
    all_goals
      cases h1
      rfl
  cases ok with
  | false =>
    cases h
    exact Or.inl rfl
  | true =>
    simp only [Bool.not_true, Bool.false_eq_true, if_false, pure_eq, ret_bind, call_bind] at h
    rw [run_op, Option.bind_eq_some_iff] at h
    obtain ⟨⟨_, m₂⟩, h2, h⟩ := h
    obtain ⟨hi, hv, hk⟩ := hq _ _ _ h
    have hv2 := (handle_faultStep h2).1
    have hk2 : m₂.world.koamgr = m₁.world.koamgr := by
      cases h2
      rfl
    have hv2 : view m₂ = { view m₁ with
        undos := (view m₁).undos ++ [(.openUndo fd k, regularActionOrder)] } := hv2
    have hvm : view m' = view m₂ := congrArg FaultView.toView hv
    have hvm1 : view m₁ = view m := congrArg FaultView.toView hv1
    refine Or.inr ⟨hi, ?_, hk.trans (hk2.trans hk1), ?_⟩
    · show (view m').kernel = (view m).kernel
      rw [hvm, hv2, hvm1]
    · rw [hvm, hv2, hvm1]
      rfl

theorem run_release {result : Option Nat} {r : Int} {i : Instr n N Unit} {out : Except Stop Int}
    (hi : ∀ s : XMach T n N, handle i s = some ((), s))
    (h : run handle (call i >>= fun _ => call .unlockAliasCache >>= fun _ => finish result r 0) m
      = some (out, m')) :
    (∃ i, out = .ok i) ∧ faultView m' = faultView m ∧ m'.world.koamgr = m.world.koamgr := by
  simp only [finish, call_bind] at h
  rw [run_step (hi m), run_step (rfl : handle .unlockAliasCache m = some ((), m)), run_op,
    Option.bind_eq_some_iff] at h
  obtain ⟨⟨_, m₁⟩, h1, h⟩ := h
  cases h
  refine ⟨⟨r, rfl⟩, faultView_of_nat h1 id, ?_⟩
  cases h1
  rw [Mach.store_world]

/-- the end of a call that has opened nothing -/
theorem run_unlockFinish {result : Option Nat} {r : Int} {e : Errno} {out : Except Stop Int}
    (h : run handle (op .unlockAliasCache fun _ => finish result r e) m = some (out, m')) :
    (∃ i, out = .ok i) ∧ Leaves m m' m.world.kernel m.world.koamgr.koas [] := by
  simp only [finish, call_bind] at h
  rw [run_step (rfl : handle .unlockAliasCache m = some ((), m)), run_op,
    Option.bind_eq_some_iff] at h
  obtain ⟨⟨_, m₁⟩, h1, h⟩ := h
  cases h
  have hv : view m₁ = view m := congrArg FaultView.toView (faultView_of_nat h1 id)
  refine ⟨⟨r, rfl⟩, congrArg View.kernel hv, ?_, ?_⟩
  · cases h1
    rw [Mach.store_world]
  · rw [hv, List.append_nil]

/-- the machine after `open` -/
structure AfterOpen (m : XMach T n N) (f : FileId) (flags : OpenFlags) (s : XMach T n N) : Prop where
  txd : s.txd = m.txd
  self : s.world.self = m.world.self
  xactstate : s.world.xactstate = m.world.xactstate
  koamgr : s.world.koamgr = m.world.koamgr
  kernel : s.world.kernel = openedKernel m f flags
  answers : s.world.answers = { m.world.answers with faults := m.world.answers.faults.tail }

theorem openSucceeds_step {b : Except Errno Nat} (hp : m.world.kernel.names p = some f)
    (hs : openSucceeds m flags)
    (h : handle (.libcOpen p flags : Instr n N _) m = some (b, m')) :
    b = .ok m.world.answers.fd ∧ AfterOpen m f flags m' := by
  have h := Option.some.inj h
  unfold syscall at h
  rw [hs.1] at h
  dsimp only at h
  have hopen : sysOpen m.world.kernel p flags m.world.answers.file m.world.answers.fd
      = (.ok m.world.answers.fd, openedKernel m f flags) := by
    simp [sysOpen, hp, hs.2, openedKernel]
  rw [hopen] at h
  cases h
  exact ⟨rfl, rfl, rfl, rfl, rfl, rfl, rfl⟩

theorem not_openSucceeds_step {b : Except Errno Nat} (hp : m.world.kernel.names p = some f)
    (hs : ¬ openSucceeds m flags)
    (h : handle (.libcOpen p flags : Instr n N _) m = some (b, m')) :
    ∃ e, b = .error e ∧ m'.world.kernel = m.world.kernel ∧
      m'.world.koamgr = m.world.koamgr ∧ (view m').undos = (view m).undos := by
  have h := Option.some.inj h
  unfold syscall at h
  cases hf : m.world.answers.faults.head?.join with
  | some e =>
    rw [hf] at h
    cases h
    exact ⟨e, rfl, rfl, rfl, rfl⟩
  | none =>
    have hflags : (flags.creat && flags.excl) = true := by
      by_contra hne
      exact hs ⟨hf, Bool.eq_false_iff.mpr hne⟩
    have hopen : sysOpen m.world.kernel p flags m.world.answers.file m.world.answers.fd
        = (.error .eexist, m.world.kernel) := by
      simp only [sysOpen, hp, hflags, if_true]
    rw [hf] at h
    dsimp only at h
    rw [hopen] at h
    cases h
    exact ⟨_, rfl, rfl, rfl, rfl⟩

theorem step_attachFd {s s' : XMach T n N} {k : Fin N} {fd : Nat} {lock : Bool}
    (h : handle (.attachFd k fd lock) s = some ((), s')) :
    koaAttachFd s.world.koamgr k fd = some s'.world.koamgr ∧ s'.txd = s.txd ∧
      s'.world.self = s.world.self ∧ s'.world.xactstate = s.world.xactstate ∧
      s'.world.kernel = s.world.kernel ∧ s'.world.answers = s.world.answers := by
  simp only [handle, Option.map_eq_some_iff] at h
  obtain ⟨mgr, h1, h2⟩ := h
  cases h2
  rw [World.meet_eq]
  exact ⟨h1, rfl, rfl, rfl, rfl, rfl⟩

/-- the close of a call that finds the sentinel busy -/
theorem step_close {s s' : XMach T n N} {b : Except Errno Unit}
    (hk : s.world.kernel = openedKernel m f flags)
    (ha : s.world.answers.faults = m.world.answers.faults.tail)
    (h : handle (.libcClose m.world.answers.fd : Instr n N _) s = some (b, s')) :
    s'.world.kernel = closedKernel m f flags ∧ s'.world.koamgr = s.world.koamgr ∧
      s'.txd = s.txd := by
  have h := Option.some.inj h
  unfold syscall at h
  rw [ha] at h
  rw [closedKernel, ← hk]
  by_cases hf : closeSucceeds m
  · rw [if_pos hf]
    rw [show m.world.answers.faults.tail.head?.join = none from hf] at h
    cases h
    exact ⟨rfl, rfl, rfl⟩
  · rw [if_neg hf]
    obtain ⟨e, he⟩ := Option.ne_none_iff_exists'.mp hf
    rw [he] at h
    cases h
    exact ⟨rfl, rfl, rfl⟩

theorem undos_of_actions {s s' : XMach T n N} (h : actions s'.txd = actions s.txd) :
    (view s').undos = (view s).undos := congrArg Prod.snd h

theorem run_openOld {result : Option Nat} {out : Except Stop Int} {s : XMach T n N} {k : Fin N}
    (ha : AfterOpen m f flags s) (hc : m.world.koamgr.aliasCache f.ino = some k)
    (h : run handle (xOpenOld m.world.answers.fd k result) s = some (out, m')) :
    ∃ mgr', koaAttachFd m.world.koamgr k m.world.answers.fd = some mgr' ∧
      Opened m f flags k mgr'.koas out m' := by
  simp only [xOpenOld, call_bind] at h
  rw [run_step (rfl : handle (.lockFdsRefbyKoa k) s = some ((), s)),
    run_step (rfl : handle (.lockFd m.world.answers.fd) s = some ((), s)), run_op,
    Option.bind_eq_some_iff] at h
  obtain ⟨⟨_, s₁⟩, h1, h⟩ := h
  obtain ⟨hattach, htxd, hself, hxact, hker, hans⟩ := step_attachFd h1
  rw [ha.koamgr] at hattach
  refine ⟨s₁.world.koamgr, hattach, ?_⟩
  rw [run_op, Option.bind_eq_some_iff] at h
  obtain ⟨⟨sent, s₂⟩, h2, h⟩ := h
  simp only [handle, Option.map_eq_some_iff] at h2
  obtain ⟨sent', hsent, h2⟩ := h2
  cases h2
  have hsent : (m.world.koamgr.koa k).sentinel = some sent := by
    rw [(koaAttachFd_cases hattach).2.2.2] at hsent
    exact hsent
  rw [run_op, Option.bind_eq_some_iff] at h
  obtain ⟨⟨_, s₃⟩, h3, h⟩ := h
  simp only [handle, koaAttachFd_sentinelmgr hattach, htxd, hself, hxact, hans, ha.txd, ha.self,
    ha.xactstate, ha.answers, Option.map_eq_some_iff] at h3
  obtain ⟨⟨x, sm, txd⟩, hacq, h3⟩ := h3
  cases h3
  have hbusy : inodeBusy m f.ino = decide (x = rBusysentinel) := by
    rw [inodeBusy, koaAliasCacheLookupInode, hc]
    dsimp only
    rw [sentinelBusy, hsent]
    dsimp only
    rw [hacq]
  have hacts := actions_tryacquire hacq
  have hk₁ : s₁.world.kernel = openedKernel m f flags := hker.trans ha.kernel
  dsimp only at h
  by_cases hb : x = rBusysentinel
  · -- the descriptor is closed and detached, and the transaction aborted
    rw [if_pos hb, run_op, Option.bind_eq_some_iff] at h
    obtain ⟨⟨b, s₄⟩, h4, h⟩ := h
    obtain ⟨hker4, hmgr4, htxd4⟩ := step_close (by exact hk₁) (by rfl) h4
    rw [run_op, Option.bind_eq_some_iff] at h
    obtain ⟨⟨b', s₅⟩, h5, h⟩ := h
    have hdet : s₅.world.kernel = s₄.world.kernel ∧ s₅.txd = s₄.txd ∧
        s₅.world.koamgr = (koaDetachFd s₄.world.koamgr k m.world.answers.fd).2 := by
      simp only [handle, Option.some.injEq, Prod.mk.injEq] at h5
      rw [← h5.2, World.meet_eq]
      refine ⟨?_, rfl, rfl⟩
      dsimp only
      split <;> rfl
    dsimp only at h
    cases h
    refine .busy (hbusy.trans (decide_eq_true hb)) ⟨hdet.1.trans hker4, ?_, ?_⟩
    · rw [hdet.2.2, koas_detachFd, hmgr4]
      rfl
    · rw [List.append_nil]
      refine undos_of_actions ?_
      rw [hdet.2.1, htxd4]
      exact hacts
  · rw [if_neg hb] at h
    rcases run_openRegister (fun s s' r hq => run_release (i := .unlockFdsRefbyKoa k)
      (fun _ => rfl) hq) h with rfl | ⟨⟨i, rfl⟩, hker', hmgr', hu'⟩
    · exact .ended
    · refine .done (hbusy.trans (decide_eq_false hb)) ⟨hker'.trans hk₁, ?_, ?_⟩
      · rw [hmgr']
        rfl
      · rw [hu']
        exact congrArg (· ++ _) (congrArg Prod.snd hacts)

theorem run_openNew {result : Option Nat} {out : Except Stop Int} {s : XMach T n N}
    (ha : AfterOpen m f flags s) (hc : m.world.koamgr.aliasCache f.ino = none)
    (h : run handle (xOpenNew m.world.answers.fd ⟨f.ino, some f⟩ result) s = some (out, m')) :
    ∃ k mgr mgr', koaCreate m.world.koamgr .file f.ino = some (k, mgr) ∧
      koaAttachFd mgr k m.world.answers.fd = some mgr' ∧ Opened m f flags k mgr'.koas out m' := by
  simp only [xOpenNew, call_bind] at h
  rw [run_op, Option.bind_eq_some_iff] at h
  obtain ⟨⟨_, s₁⟩, h1, h⟩ := h
  simp only [handle, ha.koamgr, Option.map_eq_some_iff] at h1
  obtain ⟨⟨k, mgr⟩, hcreate, h1⟩ := h1
  cases h1
  rw [run_step (rfl : handle (.lockFd m.world.answers.fd) _ = some ((), _)), run_op,
    Option.bind_eq_some_iff] at h
  obtain ⟨⟨_, s₂⟩, h2, h⟩ := h
  obtain ⟨hattach, htxd, hself, hxact, hker, hans⟩ := step_attachFd h2
  refine ⟨k, mgr, s₂.world.koamgr, hcreate, hattach, ?_⟩
  have hbusy : inodeBusy m f.ino = false := by
    rw [inodeBusy, koaAliasCacheLookupInode, hc]
  have hk₂ : s₂.world.kernel = openedKernel m f flags := hker.trans ha.kernel
  simp only [acquireNew, call_bind, op_bind] at h
  rw [run_op, Option.bind_eq_some_iff] at h
  obtain ⟨⟨sent, s₃⟩, h3, h⟩ := h
  simp only [handle, Option.map_eq_some_iff] at h3
  obtain ⟨sent', hsent, h3⟩ := h3
  cases h3
  rw [run_op, Option.bind_eq_some_iff] at h
  obtain ⟨⟨_, s₄⟩, h4, h⟩ := h
  simp only [handle, Option.map_eq_some_iff] at h4
  obtain ⟨⟨x, sm, txd⟩, hacq, h4⟩ := h4
  cases h4
  have hacts := actions_tryacquire hacq
  rw [htxd] at hacts
  by_cases hb : x = rSuccess
  · rw [if_neg (not_not.mpr hb), pure_eq, ret_bind] at h
    rcases run_openRegister (fun s s' r hq => run_release (i := .unlockFd m.world.answers.fd)
      (fun _ => rfl) hq) h with rfl | ⟨⟨i, rfl⟩, hker', hmgr', hu'⟩
    · exact .ended
    · refine .done hbusy ⟨hker'.trans hk₂, ?_, ?_⟩
      · rw [hmgr']
        rfl
      · rw [hu']
        exact congrArg (· ++ _) ((congrArg Prod.snd hacts).trans
          (congrArg (fun t => (actions t).2) ha.txd))
  · rw [if_pos hb] at h
    cases h
    exact .ended

/-- **The call once the file is open.** -/
theorem run_attach {result : Option Nat} {out : Except Stop Int} {s : XMach T n N}
    (ha : AfterOpen m f flags s)
    (h : run handle (op (.lookupInode ⟨f.ino, some f⟩) fun koa? => match koa? with
      | some koa => xOpenOld m.world.answers.fd koa result
      | none => xOpenNew m.world.answers.fd ⟨f.ino, some f⟩ result) s = some (out, m')) :
    ∃ k mgr mgr', KoaOf m.world.koamgr f.ino k mgr ∧
      koaAttachFd mgr k m.world.answers.fd = some mgr' ∧ Opened m f flags k mgr'.koas out m' := by
  rw [run_op, Option.bind_eq_some_iff] at h
  obtain ⟨⟨koa, s₁⟩, h1, h⟩ := h
  have hstep : koa = m.world.koamgr.aliasCache f.ino ∧ AfterOpen m f flags s₁ := by
    simp only [handle, Option.some.injEq, Prod.mk.injEq] at h1
    obtain ⟨rfl, rfl⟩ := h1
    refine ⟨by rw [koaAliasCacheLookupInode, ha.koamgr], ?_⟩
    rw [World.meet_eq]
    exact ⟨ha.txd, ha.self, ha.xactstate, ha.koamgr, ha.kernel, ha.answers⟩
  obtain ⟨rfl, ha₁⟩ := hstep
  cases hc : m.world.koamgr.aliasCache f.ino with
  | some k =>
    rw [hc] at h
    obtain ⟨mgr', hattach, hopened⟩ := run_openOld ha₁ hc h
    exact ⟨k, _, mgr', .old hc, hattach, hopened⟩
  | none =>
    rw [hc] at h
    obtain ⟨k, mgr, mgr', hcreate, hattach, hopened⟩ := run_openNew ha₁ hc h
    exact ⟨k, mgr, mgr', .new hc hcreate, hattach, hopened⟩

/-- **The call in a retryable transaction.** -/
theorem run_open {result : Option Nat} {out : Except Stop Int}
    (hx : m.world.xactstate = .retryable)
    (h : run handle (xOpen p flags result) m = some (out, m')) :
    ((∀ f, m.world.kernel.names p = some f → ¬ openSucceeds m flags) ∧ (∃ i, out = .ok i) ∧
      Leaves m m' m.world.kernel m.world.koamgr.koas []) ∨
    ∃ f k mgr mgr', m.world.kernel.names p = some f ∧ openSucceeds m flags ∧
      KoaOf m.world.koamgr f.ino k mgr ∧ koaAttachFd mgr k m.world.answers.fd = some mgr' ∧
      Opened m f flags k mgr'.koas out m' := by
  simp only [xOpen, call_bind] at h
  rw [run_step (rfl : handle .getXactstate m = some (m.world.xactstate, m)), hx] at h
  dsimp only at h
  rw [run_step (rfl : handle .lockAliasCache m = some ((), m)),
    run_step (rfl : handle (.path2inode p) m = some (_, m))] at h
  cases hp : m.world.kernel.names p with
  | none =>
    rw [hp] at h
    rw [if_pos (by rfl)] at h
    refine Or.inl ⟨(fun f hf => by cases hf), ?_⟩
    exact run_unlockFinish h
  | some f =>
    rw [hp] at h
    rw [if_neg (by exact f.ino_ne), run_op, Option.bind_eq_some_iff] at h
    obtain ⟨⟨b, m₁⟩, h1, h⟩ := h
    by_cases hs : openSucceeds m flags
    · obtain ⟨rfl, ha⟩ := openSucceeds_step hp hs h1
      obtain ⟨k, mgr, mgr', hk, hattach, hopened⟩ := run_attach ha h
      exact Or.inr ⟨f, k, mgr, mgr', rfl, hs, hk, hattach, hopened⟩
    · obtain ⟨e, rfl, hk, hmgr, hu⟩ := not_openSucceeds_step hp hs h1
      obtain ⟨hi, hl⟩ := run_unlockFinish h
      refine Or.inl ⟨fun _ _ => hs, hi, ?_⟩
      exact ⟨hl.kernel.trans hk, hl.koas.trans (congrArg KoaMgr.koas hmgr), hl.undos.trans
        (by rw [hu])⟩

end

/-! ## the undo action -/

/-- the actions on the kernel and on the KOAs; only `x_open_undo` matters here -/
def openEffect (a : XAction N) (g : Kernel × Koas n N) : Kernel × Koas n N :=
  match a with
  | .openUndo fd k => ((sysClose g.1 fd).2, g.2.detachFd k fd)
  | _ => g

theorem openUndo_koas (fd : Nat) (k : Fin N) (m : XMach T n N) :
    (exec (.other (.openUndo fd k)) m).1.world.koamgr.koas = m.world.koamgr.koas.detachFd k fd := by
  have hwp : wp (lifeStep T) (xOpenUndo fd k : XProg n N Int)
      (fun _ v => v.koas = m.world.koamgr.koas.detachFd k fd) (lifeView m) := by
    simp only [xOpenUndo, call_bind, wp_op]
    rintro _ _ rfl _ _ rfl _ _ ⟨mgr, _, hmgr, rfl, rfl⟩ _ _ ⟨fds, -, rfl⟩ _ _ rfl _ _ rfl
    show (koaDetachFd mgr k fd).2.koas = _
    rw [koas_detachFd, hmgr]
    rfl
  exact run_life hwp (exec_other (.openUndo fd k) m)

theorem openUndo_tracks : Tracks (exec : ActOf (XAction N) → XMach T n N → XMach T n N × Int)
    (fun w => (w.kernel, w.koamgr.koas)) (fun w => w.answers.faults = [])
    (fun a => ∃ fd k, a = .openUndo fd k) openEffect where
  registersNothing := exec_registersNothing
  other := by
    rintro a m ⟨fd, k, rfl⟩ hJ
    obtain ⟨hk, hf⟩ := exec_kernel (a := .openUndo fd k) (fun _ _ h => nomatch h) m hJ
    exact ⟨Prod.ext hk (openUndo_koas fd k m), hf⟩
  sentinelmgr := by
    intro a m ha hJ
    obtain ⟨hk, hans⟩ := exec_sentinelmgr a ha m
    exact ⟨Prod.ext hk (exec_sentinelmgr_koas a ha m), by rw [hans]; exact hJ⟩

/-! ## the abort -/

/-- nothing is lost: the file cannot be opened, or it is not emptied, its descriptor has no KOA yet,
and the `close` of a busy call succeeds -/
def openSafe (m : XMach T n N) (p : Path) (flags : OpenFlags) : Prop :=
  ∀ f, m.world.kernel.names p = some f → openSucceeds m flags →
    (flags.trunc = true → m.world.kernel.content f = []) ∧
      m.world.koamgr.map m.world.answers.fd = none ∧
      (inodeBusy m f.ino = true → closeSucceeds m)

instance (m : XMach T n N) (p : Path) (flags : OpenFlags) : Decidable (openSafe m p flags) :=
  match h : m.world.kernel.names p with
  | none => isTrue fun f hf => by rw [h] at hf; cases hf
  | some f => decidable_of_iff (openSucceeds m flags →
      (flags.trunc = true → m.world.kernel.content f = []) ∧
        m.world.koamgr.map m.world.answers.fd = none ∧
        (inodeBusy m f.ino = true → closeSucceeds m))
      ⟨fun hs g hg => by rw [h] at hg; cases hg; exact hs, fun hs => hs f h⟩

section
variable {m : XMach T n N} {f : FileId} {flags : OpenFlags} {c : Koas n N}

theorem openedKernel_content : (openedKernel m f flags).content
    = if flags.trunc then Function.update m.world.kernel.content f [] else m.world.kernel.content := by
  unfold openedKernel
  split <;> rfl

theorem openedKernel_names : (openedKernel m f flags).names = m.world.kernel.names := by
  unfold openedKernel
  split <;> rfl

theorem openedKernel_fds (m : XMach T n N) (f : FileId) (flags : OpenFlags) : ∃ d, (openedKernel m f flags).fds
    = Function.update m.world.kernel.fds m.world.answers.fd (some d) := by
  unfold openedKernel
  split <;> exact ⟨_, rfl⟩

theorem content_iff : (openedKernel m f flags).content = m.world.kernel.content ↔
    (flags.trunc = true → m.world.kernel.content f = []) := by
  rw [openedKernel_content]
  cases flags.trunc with
  | false => exact ⟨(fun _ h => nomatch h), fun _ => rfl⟩
  | true =>
    rw [if_pos rfl]
    constructor
    · intro h _
      rw [← h, Function.update_self]
    · intro h
      rw [← h rfl, Function.update_eq_self]

theorem map_iff {α : Type} {g : Nat → Option α} {fd : Nat} :
    Function.update g fd none = g ↔ g fd = none := by
  constructor
  · intro h
    rw [← h, Function.update_self]
  · intro h
    rw [← h, Function.update_eq_self]

theorem footprint_closed_iff (hfd : m.world.kernel.fds m.world.answers.fd = none)
    (hr : Restored m.world.koamgr.koas c m.world.answers.fd) :
    footprint (sysClose (openedKernel m f flags) m.world.answers.fd).2 c
        = footprint m.world.kernel m.world.koamgr.koas ↔
      (flags.trunc = true → m.world.kernel.content f = []) ∧
        m.world.koamgr.map m.world.answers.fd = none := by
  obtain ⟨d, hd⟩ := openedKernel_fds m f flags
  have hclosed : (sysClose (openedKernel m f flags) m.world.answers.fd).2.fds
      = m.world.kernel.fds := by
    unfold sysClose
    rw [hd, Function.update_self]
    show Function.update (openedKernel m f flags).fds m.world.answers.fd none = _
    rw [hd, Function.update_idem]
    exact map_iff.mpr hfd
  have hmap : c.map = m.world.koamgr.koas.map ↔ m.world.koamgr.map m.world.answers.fd = none := by
    rw [hr.map]
    exact map_iff
  rw [Footprint.ext_iff, ← content_iff, ← hmap]
  simp only [footprint, sysClose_content, sysClose_names, hclosed, openedKernel_names,
    hr.aliasCache, hr.refcnt, true_and, and_true]

theorem footprint_open_ne (hfd : m.world.kernel.fds m.world.answers.fd = none) :
    footprint (openedKernel m f flags) c ≠ footprint m.world.kernel m.world.koamgr.koas := by
  obtain ⟨d, hd⟩ := openedKernel_fds m f flags
  intro h
  have hopen := congrFun (congrArg Footprint.isOpen h) m.world.answers.fd
  simp only [footprint, hd, Function.update_self, hfd] at hopen
  cases hopen

end

/-- what the undo actions lead to -/
theorem undone_open {m m' : XMach T n N} {p : Path} {flags : OpenFlags} {result : Option Nat}
    {out : Except Stop Int} (hm : TableOk m.world.koamgr)
    (hx : m.world.xactstate = .retryable) (hfd : m.world.kernel.fds m.world.answers.fd = none)
    (h : run handle (xOpen p flags result) m = some (out, m'))
    (hout : out ≠ .error .internalError) :
    ∃ l, (view m').undos = (view m).undos ++ l ∧ (∀ x ∈ l, x.2 = 0 ∧ ∃ fd k, x.1 = .openUndo fd k) ∧
      (footprint (effectsOn openEffect l.reverse (m'.world.kernel, m'.world.koamgr.koas)).1
          (effectsOn openEffect l.reverse (m'.world.kernel, m'.world.koamgr.koas)).2
        = footprint m.world.kernel m.world.koamgr.koas ↔ openSafe m p flags) := by
  rcases run_open hx h with ⟨hno, -, hl⟩ | ⟨f, k, mgr, mgr', hp, hs, hk, hattach, ho⟩
  · refine ⟨[], hl.undos, (fun x hx => nomatch hx), iff_of_true ?_ fun f hf hs => ?_⟩
    · show footprint m'.world.kernel m'.world.koamgr.koas = _
      rw [hl.kernel, hl.koas]
    · exact absurd hs (hno f hf)
  · have hback : Restored m.world.koamgr.koas (mgr'.koas.detachFd k m.world.answers.fd)
        m.world.answers.fd := by
      cases hk with
      | old hc => exact restored_old hm hc hattach
      | new hc hcreate => exact restored_new hc hcreate hattach
    have hsafe : openSafe m p flags ↔ ((flags.trunc = true → m.world.kernel.content f = []) ∧
        m.world.koamgr.map m.world.answers.fd = none) ∧
        (inodeBusy m f.ino = true → closeSucceeds m) := by
      constructor
      · intro h
        obtain ⟨h1, h2, h3⟩ := h f hp hs
        exact ⟨⟨h1, h2⟩, h3⟩
      · rintro ⟨⟨h1, h2⟩, h3⟩ g hg -
        rw [hp] at hg
        cases hg
        exact ⟨h1, h2, h3⟩
    rw [hsafe]
    cases ho with
    | busy hb hl =>
      refine ⟨[], hl.undos, (fun x hx => nomatch hx), ?_⟩
      show footprint m'.world.kernel m'.world.koamgr.koas = _ ↔ _
      rw [hl.kernel, hl.koas, closedKernel]
      by_cases hc : closeSucceeds m
      · rw [if_pos hc, footprint_closed_iff hfd hback]
        exact ⟨fun h => ⟨h, fun _ => hc⟩, fun h => h.1⟩
      · rw [if_neg hc]
        exact iff_of_false (footprint_open_ne hfd) fun h => hc (h.2 hb)
    | done hb hl =>
      refine ⟨[(.openUndo m.world.answers.fd k, 0)], hl.undos, fun x hx => ?_, ?_⟩
      · rw [List.mem_singleton.mp hx]
        exact ⟨rfl, _, _, rfl⟩
      · show footprint (sysClose m'.world.kernel m.world.answers.fd).2
          (m'.world.koamgr.koas.detachFd k m.world.answers.fd) = _ ↔ _
        rw [hl.kernel, hl.koas, footprint_closed_iff hfd hback]
        refine ⟨fun h => ⟨h, fun hc => ?_⟩, fun h => h.1⟩
        rw [hb] at hc
        cases hc
    | ended => exact absurd rfl hout

/-- **Aborting an open.**  A retryable transaction whose only call is `x_open`, with any flags and
whatever system calls fail, is aborted: the generic undo action returns, and contents, names, open
descriptors, the map, the alias cache and the counters are as before exactly if the file cannot be
opened, or nothing was in it that `O_TRUNC` took away, its descriptor had no KOA, and the descriptor
of a call that found the sentinel busy could be closed. -/
theorem abort_restores_open (m : XMach T n N) (hm : TableOk m.world.koamgr) (p : Path)
    (flags : OpenFlags) (result : Option Nat) (a : Answers) (ha : a.Ok m.world.kernel)
    (out : Option AbortReason) (m' : XMach T n N)
    (hrun : xRun handle [⟨.open p flags, result, a⟩] (xBegin m) = some (out, m'))
    (reason : AbortReason) :
    ∃ fuel₀ o, (∀ fuel ≥ fuel₀, txGenericUndoAction exec fuel (xAbort m' reason) = some o) ∧
      (footprint o.mach.world.kernel o.mach.world.koamgr.koas
          = footprint m.world.kernel m.world.koamgr.koas ↔
        openSafe (withAnswers (xBegin m) a) p flags) := by
  have hcall : ∃ r, run handle (xOpen p flags result) (withAnswers (xBegin m) a) = some (r, m') ∧
      r ≠ .error .internalError := by
    have hrun := hrun
    unfold xRun at hrun
    split at hrun
    · cases hrun
    · rename_i h1
      cases hrun
      exact ⟨_, h1, (fun hc => nomatch hc)⟩
    · rename_i h1
      cases hrun
      exact ⟨_, h1, (fun hc => nomatch hc)⟩
    · cases hrun
  obtain ⟨r, h1, hr⟩ := hcall
  obtain ⟨l, hl, hreg, hiff⟩ := undone_open (m := withAnswers (xBegin m) a) hm rfl ha.fd h1 hr
  obtain ⟨fuel₀, o, hfuel, habs⟩ :=
    openUndo_tracks.abort handles_handle hrun hl hreg reason rfl
  obtain ⟨hk, hc⟩ := Prod.mk.inj habs
  refine ⟨fuel₀, o, hfuel, ?_⟩
  rw [hk, hc]
  exact hiff

/-- `a` is opened for reading and writing -/
theorem abort_restores_open_small :
    ∃ out m', xRun handle [⟨.open "a" ⟨false, false, false⟩, none, smallAnswers⟩]
        (xBegin (smallMach smallKernel)) = some (out, m') ∧ m'.world.koamgr.map 3 ≠ none ∧
      ∃ fuel₀ o, (∀ fuel ≥ fuel₀, txGenericUndoAction exec fuel (xAbort m' .userabort) = some o) ∧
        footprint o.mach.world.kernel o.mach.world.koamgr.koas
          = footprint smallKernel (smallMach smallKernel).world.koamgr.koas := by
  have hrun : ((xRun handle [⟨.open "a" ⟨false, false, false⟩, none, smallAnswers⟩]
      (xBegin (smallMach smallKernel))).map fun r => decide (r.2.world.koamgr.map 3 ≠ none))
        = some true := by decide +kernel
  obtain ⟨⟨out, m'⟩, h, hb⟩ := Option.map_eq_some_iff.mp hrun
  obtain ⟨fuel₀, o, hfuel, hiff⟩ := abort_restores_open (smallMach smallKernel)
    (tableOk_smallMach smallKernel) "a" ⟨false, false, false⟩ none smallAnswers smallAnswers_ok
    out m' h .userabort
  exact ⟨out, m', h, of_decide_eq_true hb, fuel₀, o, hfuel, hiff.mpr (by decide +kernel)⟩

/-- **The contents are lost.**  `a` is opened with `O_TRUNC`. -/
theorem truncated_file_lost :
    smallKernel.content ⟨1, 1, by decide⟩ = [1, 2, 3] ∧
      ((xRun handle [⟨.open "a" ⟨false, false, true⟩, none, smallAnswers⟩]
          (xBegin (smallMach smallKernel))).bind fun r =>
        (txGenericUndoAction exec 100 (xAbort r.2 .userabort)).map fun o =>
          (r.1, o.mach.world.kernel.names "a", o.mach.world.kernel.content ⟨1, 1, by decide⟩))
        = some (none, some ⟨1, 1, by decide⟩, []) := by
  decide +kernel

end XCalls
