import XCalls.Lib.EventSys
import XCalls.XCall.DetachFailure
import XCalls.XCall.LiveActions
import XCalls.XCall.OneKoa
import XCalls.XCall.OpenAbort

/-!
# One file, one KOA: the threads of a process

The threads share the kernel and the KOA manager, and each has its own transaction.  They begin,
become irrevocable, commit, and make calls of `x_open`, `x_create`, `x_dup` and `x_close` that
succeed.

* `Process`, `Process.enter`, `Process.leave`   one thread runs at a time;
* `FdEvent`, `fdEvent`   what the threads do, step by step;
* `FdEvent.Single`   `x_create` opens a file whose inode has no KOA, and each `x_close_commit` finds
                   its descriptor in its KOA;
* `one_koa`        along such steps, descriptors of one inode share the KOA that the alias cache has
                   for it;
* `create_second_koa`   an `x_create` outside a transaction of a file that is open;
* `close_leaves_open`   an `x_close_commit` that does not find its descriptor.
-/

set_option linter.unusedSectionVars false

namespace XCalls
open Prog EventSys
variable {T : Type} [DecidableEq T] {n N : Nat}

/-! ## the process -/

/-- `mach` has what the threads share -/
structure Process (T : Type) (n N : Nat) where
  mach : XMach T n N
  txd : T → TxDesc (ActOf (XAction N)) (Fin n)
  xactstate : T → XactState

def Process.enter (s : Process T n N) (t : T) : XMach T n N :=
  { s.mach with
    txd := s.txd t
    world := { s.mach.world with self := t, xactstate := s.xactstate t } }

def Process.leave (s : Process T n N) (t : T) (m : XMach T n N) : Process T n N :=
  { mach := m
    txd := Function.update s.txd t m.txd
    xactstate := Function.update s.xactstate t m.world.xactstate }

inductive OpenCall where
  | «open» (pathname : Path) (flags : OpenFlags)
  | create (pathname : Path)
  | dup (oldfd : Nat)
  | close (fildes : Nat)

def OpenCall.prog (result : Option Nat) : OpenCall → XProg n N Int
  | «open» pathname flags => xOpen pathname flags result
  | create pathname => xCreate pathname result
  | dup oldfd => xDup oldfd result
  | close fildes => xClose fildes result

/-- what the thread `t` does; the kernel's part is in `answers` -/
inductive FdEvent (T : Type) where
  | begin (t : T)
  | becomeIrrevocable (t : T)
  | call (t : T) (c : OpenCall) (result : Option Nat) (answers : Answers)
  | commit (t : T) (fuel : Nat) (answers : Answers)

def Process.committing (s : Process T n N) (t : T) (answers : Answers) : XMach T n N :=
  xCommit (withAnswers (s.enter t) answers)

/-- a call that fails or aborts is no step, and a commit ends the transaction -/
def fdEvent (s : Process T n N) : FdEvent T → Option (Process T n N)
  | .begin t =>
    if s.xactstate t = .nontransactional then some (s.leave t (xBegin (s.enter t))) else none
  | .becomeIrrevocable t =>
    if s.xactstate t = .retryable then
      some { s with xactstate := Function.update s.xactstate t .irrevocable }
    else none
  | .call t c result answers =>
    match run handle (c.prog result) (withAnswers (s.enter t) answers) with
    | some (.ok r, m) => if r = -1 then none else some (s.leave t m)
    | _ => none
  | .commit t fuel answers =>
    if s.xactstate t = .nontransactional then none
    else (txGenericCommitAction exec fuel (s.committing t answers)).map fun o =>
      let s' := s.leave t o.mach
      { s' with xactstate := Function.update s'.xactstate t .nontransactional }

/-! ## the condition -/

/-- what `txc_koa_detach_fd` looks for -/
def Koas.Lists (c : Koas n N) (k : Fin N) (fd : Nat) : Prop :=
  c.map fd ≠ none ∧ fd ∈ (c.koa k).fds

instance (c : Koas n N) (k : Fin N) (fd : Nat) : Decidable (c.Lists k fd) :=
  inferInstanceAs (Decidable (_ ∧ _))

/-- each descriptor is listed in its KOA when it is detached, or it is detached already -/
def ClosesListed : List (Nat × Fin N) → Koas n N → Prop
  | [], _ => True
  | (fd, k) :: l, c =>
    (c.map fd = none ∨ c.map fd = some k ∧ c.Lists k fd) ∧ ClosesListed l (c.detachFd k fd)

def decClosesListed : ∀ (l : List (Nat × Fin N)) (c : Koas n N), Decidable (ClosesListed l c)
  | [], _ => isTrue trivial
  | (fd, k) :: l, c =>
    have := decClosesListed l (c.detachFd k fd)
    inferInstanceAs (Decidable (_ ∧ _))

instance (l : List (Nat × Fin N)) (c : Koas n N) : Decidable (ClosesListed l c) :=
  decClosesListed l c

/-- what `x_close_commit` detaches -/
def XAction.detached : XAction N → Option (Nat × Fin N)
  | .closeCommit fd k => some (fd, k)
  | _ => none

/-- the commit actions in the order of their calls -/
def Process.commits (s : Process T n N) (t : T) : List (XAction N × Int32) :=
  ((others (s.txd t).commitActionList.entries).filter fun x => x.2 = 0) ++
    (others (s.txd t).commitActionList.entries).filter fun x => x.2 = 1

/-- the descriptors that these actions close, with their KOAs -/
def Process.closes (s : Process T n N) (t : T) : List (Nat × Fin N) :=
  (s.commits t).filterMap fun x => x.1.detached

def FdEvent.Single (s : Process T n N) : FdEvent T → Prop
  | .call t (.create pathname) _ answers =>
    s.mach.world.koamgr.aliasCache
      ((inodeView (withAnswers (s.enter t) answers)).created pathname).ino = none
  | .commit t _ _ => ClosesListed (s.closes t) s.mach.world.koamgr.koas
  | _ => True

instance (s : Process T n N) : ∀ e, Decidable (FdEvent.Single s e)
  | .call _ (.create _) _ _ => inferInstanceAs (Decidable (_ = _))
  | .commit _ _ _ => inferInstanceAs (Decidable (ClosesListed _ _))
  | .begin _ => isTrue trivial
  | .becomeIrrevocable _ => isTrue trivial
  | .call _ (.open _ _) _ _ => isTrue trivial
  | .call _ (.dup _) _ _ => isTrue trivial
  | .call _ (.close _) _ _ => isTrue trivial

/-- two descriptors that are open on one inode of the device have one KOA, and the alias cache has
it -/
def OneKoa (dev : Nat) (s : Process T n N) : Prop :=
  ∀ fd fd' f f', s.mach.world.kernel.fileOf fd = some f → s.mach.world.kernel.fileOf fd' = some f' →
    f.dev = dev → f'.dev = dev → f.ino = f'.ino →
    ∃ k, s.mach.world.koamgr.map fd = some k ∧ s.mach.world.koamgr.map fd' = some k ∧
      s.mach.world.koamgr.aliasCache f.ino = some k

/-- the process has just started, and no descriptor is open on the device -/
structure Process.Start (dev : Nat) (s : Process T n N) : Prop where
  koamgr : koamgrCreate T n N = some s.mach.world.koamgr
  outside : ∀ t, s.xactstate t = .nontransactional
  txd : ∀ t, s.txd t = txCreate
  closed : ∀ fd f, s.mach.world.kernel.fileOf fd = some f → f.dev ≠ dev

/-! ## the commit actions -/

/-- what a commit action does to the KOAs and to the files that are open -/
def XAction.files : XAction N → Koas n N × (Nat → Option FileId) →
    Koas n N × (Nat → Option FileId)
  | .closeCommit fd k, (c, files) =>
    (c.detachFd k fd, if c.Lists k fd then Function.update files fd none else files)
  | _, g => g

section
variable {dev : Nat}

theorem koaDetachFd_fst (m : KoaMgr T n N) (k : Fin N) (fd : Nat) :
    (koaDetachFd m k fd).1 = true ↔ m.koas.Lists k fd := by
  have hlists : m.koas.Lists k fd ↔ ¬ DetachFails m k fd := by
    unfold DetachFails
    rw [not_or, not_not]
    rfl
  rw [hlists, ← koaDetachFd_fails, Bool.not_eq_false]

theorem closeCommit_files {v : InodeView n N} (fd : Nat) (k : Fin N) (hf : v.faults = []) :
    wp (inodeStep T) (xCloseCommit fd k : XProg n N Int) (fun _ v' =>
      (v'.koas, v'.kernel.fileOf) = XAction.files (.closeCommit fd k) (v.koas, v.kernel.fileOf) ∧
        v'.faults = []) v := by
  simp only [xCloseCommit, call_bind]
  intro _ v₁ h₁ _ v₂ h₂ b v₃ h₃
  obtain rfl : v₁ = v := h₁
  obtain rfl : v₂ = v₁ := h₂
  obtain ⟨m, m', hm, hd, rfl⟩ := h₃
  have hb := koaDetachFd_fst m k fd
  have hc := koas_detachFd m k fd
  rw [← hd, hm] at hb hc
  cases b with
  | true =>
    intro closed v₄ h₄ _ v₅ h₅ _ v₆ h₆
    obtain rfl : v₅ = v₄ := h₅
    obtain rfl : v₆ = v₅ := h₆
    change (closed, v₆) = InodeView.syscall _ fun k => sysClose k fd at h₄
    unfold InodeView.syscall at h₄
    dsimp only at h₄
    rw [hf] at h₄
    obtain rfl := congrArg Prod.snd h₄
    refine ⟨Prod.ext hc ?_, rfl⟩
    show (sysClose v₂.kernel fd).2.fileOf = if _ then _ else _
    rw [if_pos (hb.mp rfl), sysClose_fileOf]
  | false =>
    intro _ v₄ h₄ _ v₅ h₅
    obtain rfl := h₄
    obtain rfl := h₅
    refine ⟨Prod.ext hc ?_, hf⟩
    show v₂.kernel.fileOf = if _ then _ else _
    rw [if_neg fun hl => by cases hb.mpr hl]

theorem createCase2Commit_files {v : InodeView n N} (args : CreateCase2Args N)
    (hf : v.faults = []) :
    wp (inodeStep T) (xCreateCase2Commit args : XProg n N Int) (fun _ v' =>
      (v'.koas, v'.kernel.fileOf)
          = XAction.files (.createCase2Commit args) (v.koas, v.kernel.fileOf) ∧
        v'.faults = []) v := by
  simp only [xCreateCase2Commit, call_bind]
  intro unlinked v₁ h₁
  change (unlinked, v₁) = v.syscall fun k => sysUnlink k args.tempPathname at h₁
  unfold InodeView.syscall at h₁
  rw [hf] at h₁
  obtain rfl := congrArg Prod.snd h₁
  refine ⟨Prod.ext rfl ?_, rfl⟩
  exact sysUnlink_fileOf v.kernel args.tempPathname

theorem exec_files : Tracks (exec : ActOf (XAction N) → XMach T n N → XMach T n N × Int)
    (fun w => (w.koamgr.koas, w.kernel.fileOf)) (fun w => w.answers.faults = []) XAction.OnFd
    XAction.files where
  registersNothing := exec_registersNothing
  other := by
    intro a m ha hJ
    have hrun := exec_other a m
    cases a with
    | closeCommit fd k => exact run_inodeView (closeCommit_files (v := inodeView m) fd k hJ) hrun
    | createCase2Commit args =>
      exact run_inodeView (createCase2Commit_files (v := inodeView m) args hJ) hrun
    | _ => exact ha.elim
  sentinelmgr := by
    intro a m ha hJ
    obtain ⟨hk, hans⟩ := exec_sentinelmgr a ha m
    refine ⟨Prod.ext (exec_sentinelmgr_koas a ha m) ?_, by rw [hans]; exact hJ⟩
    exact congrArg Kernel.fileOf hk

theorem detachFd_unmapped {c : Koas n N} {fd : Nat} (k : Fin N) (h : c.map fd = none) :
    c.detachFd k fd = c := by
  have hm : c.mgr.map fd = none := h
  unfold Koas.detachFd koaDetachFd
  rw [hm]
  rfl

/-- the descriptors are detached and closed, one after the other -/
theorem closes_one (l : List (XAction N × Int32)) : ∀ {c : Koas n N} {files : Nat → Option FileId},
    OneInv dev c files → ClosesListed (l.filterMap fun x => x.1.detached) c →
    OneInv dev (effectsOn XAction.files l (c, files)).1 (effectsOn XAction.files l (c, files)).2 := by
  induction l with
  | nil => exact fun h _ => h
  | cons x l ih =>
    intro c files h hl
    obtain ⟨a, order⟩ := x
    cases a with
    | closeCommit fd k =>
      obtain ⟨hlisted, hl⟩ := hl
      refine ih ?_ hl
      rcases hlisted with hnone | ⟨hmap, hlisted⟩
      · rw [if_neg fun hc => hc.1 hnone, detachFd_unmapped k hnone]
        exact h
      · rw [if_pos hlisted]
        exact OneInv.detachFd (m := c.mgr) h hmap
    | _ => exact ih h hl

/-! ## steps of the threads -/

/-- between two steps: `OneInv`, and the commit actions of every thread are ones of these calls -/
structure Process.Inv (dev : Nat) (s : Process T n N) : Prop where
  inv : OneInv dev s.mach.world.koamgr.koas s.mach.world.kernel.fileOf
  lists : ∀ t, ListsOk (s.txd t)
  commits : ∀ t, ∀ x ∈ others (s.txd t).commitActionList.entries,
    (x.2 = 0 ∨ x.2 = 1) ∧ x.1.OnFd

variable {s s' : Process T n N} {t : T}

theorem Process.Inv.state (h : s.Inv dev) (t : T) (answers : Answers) :
    OneState dev (inodeView (withAnswers (s.enter t) answers)) := ⟨h.inv, h.commits t⟩

/-- a thread has run, and the others have not -/
theorem Process.Inv.leave {m : XMach T n N} (h : s.Inv dev) (hm : OneState dev (inodeView m))
    (hl : ListsOk m.txd) : (s.leave t m).Inv dev where
  inv := hm.inv
  lists t' := by
    show ListsOk (Function.update s.txd t m.txd t')
    rw [Function.update_apply]
    split
    · exact hl
    · exact h.lists t'
  commits t' := by
    show ∀ x ∈ others (Function.update s.txd t m.txd t').commitActionList.entries, _
    rw [Function.update_apply]
    split
    · exact hm.commits
    · exact h.commits t'

theorem call_one (c : OpenCall) (result : Option Nat) {v : InodeView n N} (h : OneState dev v)
    (hc : ∀ pathname, c = .create pathname →
      v.koas.aliasCache (v.created pathname).ino = none) :
    wp (inodeStep T) (c.prog result : XProg n N Int) (OnePost dev) v := by
  cases c with
  | «open» pathname flags => exact xOpen_one pathname flags result h
  | create pathname => exact xCreate_one pathname result h (hc pathname rfl)
  | dup oldfd => exact xDup_one oldfd result h
  | close fildes => exact xClose_one fildes result h

theorem commitTail_lists (m : XMach T n N) (first : Int) :
    ListsOk (commitTail m first).txd ∧ others (commitTail m first).txd.commitActionList.entries = []
    := by
  have htxd : (commitTail m first).txd = { txInit m.txd with forcedRetries := 0 } := by
    unfold commitTail fmHandleCommitFailure
    rw [Mach.store_txd]
  rw [htxd]
  exact ⟨⟨(fun e he => by cases he), (fun e he => by cases he)⟩, rfl⟩

theorem commit_one (h : s.Inv dev) {fuel : Nat} {answers : Answers}
    {o : Outcome (ActOf (XAction N)) (Fin n) (World T n N)}
    (hl : ClosesListed (s.closes t) s.mach.world.koamgr.koas)
    (ho : txGenericCommitAction exec fuel (s.committing t answers) = some o) :
    OneState dev (inodeView o.mach) ∧ ListsOk o.mach.txd := by
  have horder : ∀ x ∈ others (commitScan (s.committing t answers).txd), x.2 = 0 ∨ x.2 = 1 :=
    fun x hx => (h.commits t x hx).1
  obtain ⟨hord, -, hmach⟩ := txGenericCommitAction_of_some exec_registersNothing
    ((h.lists t).1.nonneg horder) ho
  have hfiles := exec_files.calls o.executed (s.committing t answers) rfl fun x hx =>
    (h.commits t x ((hord.once.filterMap _).mem_iff.mp hx)).2
  rw [others_inOrder hord horder] at hfiles
  have hone := closes_one (s.commits t) h.inv hl
  obtain ⟨hlists, hnone⟩ := commitTail_lists
    (callAll exec o.executed (s.committing t answers)).2 o.handed
  rw [← hmach] at hlists hnone
  have hworld : o.mach.world = (callAll exec o.executed (s.committing t answers)).2.world := by
    rw [hmach, commitTail_world]
  rw [← hworld] at hfiles
  obtain ⟨hkoas, hfileOf⟩ := Prod.mk.inj hfiles
  refine ⟨⟨?_, fun x hx => ?_⟩, hlists⟩
  · show OneInv dev o.mach.world.koamgr.koas o.mach.world.kernel.fileOf
    rw [hkoas, hfileOf]
    exact hone
  · have hx : x ∈ others o.mach.txd.commitActionList.entries := hx
    rw [hnone] at hx
    cases hx

theorem step_one (h : s.Inv dev) (e : FdEvent T) (hok : FdEvent.Single s e)
    (hs : fdEvent s e = some s') : s'.Inv dev := by
  cases e with
  | begin t =>
    simp only [fdEvent] at hs
    split at hs
    · cases hs
      obtain ⟨hl, ha⟩ := xBegin_lists (s.enter t)
      refine h.leave ⟨h.inv, fun x hx => ?_⟩ hl
      have hnone : others (xBegin (s.enter t)).txd.commitActionList.entries = [] :=
        congrArg Prod.fst ha
      have hx : x ∈ others (xBegin (s.enter t)).txd.commitActionList.entries := hx
      rw [hnone] at hx
      cases hx
    · cases hs
  | becomeIrrevocable t =>
    simp only [fdEvent] at hs
    split at hs
    · cases hs
      exact ⟨h.inv, h.lists, h.commits⟩
    · cases hs
  | call t c result answers =>
    simp only [fdEvent] at hs
    split at hs
    · rename_i r m hrun
      split at hs
      · cases hs
      · rename_i hne
        cases hs
        have hone := run_inodeView (call_one c result (h.state t answers) ?_) hrun
        · refine h.leave (hone hne) ?_
          exact run_inv (J := fun m : XMach T n N => ListsOk m.txd)
            (fun i b m m' hm => handle_listsOk i b m m' hm) hrun (h.lists t)
        · intro pathname hc
          subst hc
          exact hok
    · cases hs
  | commit t fuel answers =>
    simp only [fdEvent] at hs
    split at hs
    · cases hs
    · obtain ⟨o, ho, rfl⟩ := Option.map_eq_some_iff.mp hs
      obtain ⟨hone, hlists⟩ := commit_one h hok ho
      have hleave := h.leave (t := t) hone hlists
      exact ⟨hleave.inv, hleave.lists, hleave.commits⟩

/-! ## runs of the threads -/

/-- the KOAs that `txc_koamgr_create` creates are of pipes -/
theorem precreate_type {m m' : KoaMgr T n N} {type : KoaType} {fd : Nat} (ht : type ≠ .file)
    (h : ∀ k, (m.koa k).type ≠ .file) (hc : precreate m type fd = some m') (k : Fin N) :
    (m'.koa k).type ≠ .file := by
  obtain ⟨⟨k₁, m₁⟩, h₁, h₂⟩ := Option.bind_eq_some_iff.mp hc
  obtain ⟨-, -, ho, hkoa⟩ := koaAttachFd_cases h₂
  obtain ⟨-, -, -, -, ho₁, -⟩ := koaCreate_cases h₁
  by_cases hk : k = k₁
  · subst hk
    rw [hkoa]
    show (m₁.koa k).type ≠ _
    rw [(koaCreate_info h₁).1]
    exact ht
  · rw [ho k hk, ho₁ k hk]
    exact h k

theorem koamgrCreate_type {m : KoaMgr T n N} (h : koamgrCreate T n N = some m) (k : Fin N) :
    (m.koa k).type ≠ .file := by
  obtain ⟨m₁, h₁, h⟩ := Option.bind_eq_some_iff.mp h
  obtain ⟨m₂, h₂, h₃⟩ := Option.bind_eq_some_iff.mp h
  have h0 : ∀ k, ((koamgrEmpty T n N).koa k).type ≠ .file := fun k => by
    intro hc
    cases hc
  exact precreate_type (by decide) (precreate_type (by decide)
    (precreate_type (by decide) h0 h₁) h₂) h₃ k

theorem start_one (h : s.Start dev) : s.Inv dev where
  inv :=
    { held := koasOk_koamgrCreate h.koamgr
      cached := fun fd k _ ht => absurd ht (koamgrCreate_type h.koamgr k)
      opened := fun fd f hf hdev => absurd hdev (h.closed fd f hf) }
  lists t := by
    rw [h.txd]
    exact ⟨(fun e he => by cases he), (fun e he => by cases he)⟩
  commits t x hx := by
    rw [h.txd] at hx
    cases hx

/-- **One file, one KOA.**  Whatever the threads do with the descriptors of one device, and whatever
the kernel answers: along steps that meet `FdEvent.Single`, two descriptors that are open on one
inode are mapped to one KOA, which the alias cache has for the inode. -/
theorem one_koa (h : Reach fdEvent FdEvent.Single (Process.Start dev) s) :
    OneKoa dev s := by
  have hinv := h.inv (I := fun s => Process.Inv dev s) (fun s hs => start_one hs)
    fun s e s' hI hok hs => step_one hI e hok hs
  intro fd fd' f f' hfd hfd' hdev hdev' hino
  obtain ⟨k, hk, hcache⟩ := hinv.inv.opened fd f hfd hdev
  obtain ⟨k', hk', hcache'⟩ := hinv.inv.opened fd' f' hfd' hdev'
  rw [← hino] at hcache'
  obtain rfl : k = k' := Option.some.inj (hcache.symm.trans hcache')
  exact ⟨k, hk, hk', hcache⟩

end

/-! ### a process of one thread -/

def smallProcess : Process Unit 8 8 :=
  ⟨smallMach smallKernel, fun _ => txCreate, fun _ => .nontransactional⟩

theorem smallProcess_start : smallProcess.Start 1 where
  koamgr := by
    obtain ⟨m, hm⟩ : ∃ m, koamgrCreate Unit 8 8 = some m := Option.isSome_iff_exists.mp (by decide)
    show koamgrCreate Unit 8 8 = some ((koamgrCreate Unit 8 8).getD (koamgrEmpty Unit 8 8))
    rw [hm]
    rfl
  outside _ := rfl
  txd _ := rfl
  closed fd f hf := by cases hf

/-- a file that is open is created again -/
def recreated : List (FdEvent Unit) :=
  [.call () (.open "a" ⟨false, false, false⟩) none smallAnswers,
    .call () (.create "a") none { smallAnswers with fd := 4 }]

theorem not_oneKoa {s : Process T n N} {fd fd' : Nat} {f : FileId}
    (hfd : s.mach.world.kernel.fileOf fd = some f)
    (hfd' : s.mach.world.kernel.fileOf fd' = some f)
    (hne : s.mach.world.koamgr.map fd ≠ s.mach.world.koamgr.map fd') : ¬ OneKoa f.dev s := by
  intro h
  obtain ⟨k, hk, hk', -⟩ := h fd fd' f f hfd hfd' rfl rfl rfl
  exact hne (hk.trans hk'.symm)

/-- **`x_create` outside a transaction gives an inode a second KOA.** -/
theorem create_second_koa :
    ¬ ∀ s : Process Unit 8 8, Reach fdEvent any (Process.Start 1) s → OneKoa 1 s := by
  intro h
  have hrun : (run fdEvent smallProcess recreated).map (fun s =>
      (s.mach.world.kernel.fileOf 3, s.mach.world.kernel.fileOf 4, s.mach.world.koamgr.map 3,
        s.mach.world.koamgr.map 4))
      = some (some ⟨1, 1, by decide⟩, some ⟨1, 1, by decide⟩, some 3, some 4) := by
    decide +kernel
  obtain ⟨s, hs, hstate⟩ := Option.map_eq_some_iff.mp hrun
  obtain ⟨hfd, hfd', hmap, hmap'⟩ : _ ∧ _ ∧ _ ∧ _ := by simpa only [Prod.mk.injEq] using hstate
  refine not_oneKoa hfd hfd' ?_
    (h s ((reach_of_run recreated hs).mono_init fun _ h => h ▸ smallProcess_start))
  rw [hmap, hmap']
  decide

/-- three descriptors of one file: the first is closed, and then the third in a transaction -/
def closedAtCommit : List (FdEvent Unit) :=
  [.call () (.open "a" ⟨false, false, false⟩) none smallAnswers,
    .call () (.open "a" ⟨false, false, false⟩) none { smallAnswers with fd := 4 },
    .call () (.open "a" ⟨false, false, false⟩) none { smallAnswers with fd := 5 },
    .call () (.close 3) none smallAnswers,
    .begin (),
    .call () (.close 5) none smallAnswers,
    .commit () 40 smallAnswers]

/-- there is no `x_create` -/
def noCreate (_ : Process T n N) : FdEvent T → Bool
  | .call _ (.create _) _ _ => false
  | _ => true

/-- **Without `x_create`**, `x_close_commit` may leave its descriptor open and without a KOA. -/
theorem close_leaves_open :
    ¬ ∀ s : Process Unit 8 8, Reach fdEvent (fun s e => noCreate s e = true) (Process.Start 1) s →
      OneKoa 1 s := by
  intro h
  have hrun : (run (guarded fdEvent fun s e => noCreate s e = true) smallProcess
      closedAtCommit).map (fun s =>
      (s.mach.world.kernel.fileOf 4, s.mach.world.kernel.fileOf 5, s.mach.world.koamgr.map 4,
        s.mach.world.koamgr.map 5))
      = some (some ⟨1, 1, by decide⟩, some ⟨1, 1, by decide⟩, some 3, none) := by
    decide +kernel
  obtain ⟨s, hs, hstate⟩ := Option.map_eq_some_iff.mp hrun
  obtain ⟨hfd, hfd', hmap, hmap'⟩ : _ ∧ _ ∧ _ ∧ _ := by simpa only [Prod.mk.injEq] using hstate
  refine not_oneKoa hfd hfd' ?_
    (h s ((reach_of_guarded closedAtCommit hs).mono_init fun _ h => h ▸ smallProcess_start))
  rw [hmap, hmap']
  decide

/-- a transaction shares the KOA of `a`, replaces `b`, and closes a descriptor -/
def shared : List (FdEvent Unit) :=
  [.call () (.open "a" ⟨false, false, false⟩) none smallAnswers,
    .begin (),
    .call () (.dup 3) none { smallAnswers with fd := 4 },
    .call () (.open "a" ⟨false, false, false⟩) none { smallAnswers with fd := 5 },
    .call () (.create "b") none { smallAnswers with fd := 6 },
    .call () (.close 4) none smallAnswers,
    .commit () 40 smallAnswers]

theorem one_koa_shared : ∃ s : Process Unit 8 8,
    Reach fdEvent FdEvent.Single (Process.Start 1) s ∧
      s.mach.world.kernel.fileOf 3 = some ⟨1, 1, by decide⟩ ∧
      s.mach.world.kernel.fileOf 4 = none ∧
      s.mach.world.kernel.fileOf 5 = some ⟨1, 1, by decide⟩ ∧ OneKoa 1 s := by
  have hrun : (run (guarded fdEvent FdEvent.Single) smallProcess shared).map (fun s =>
      (s.mach.world.kernel.fileOf 3, s.mach.world.kernel.fileOf 4, s.mach.world.kernel.fileOf 5))
      = some (some ⟨1, 1, by decide⟩, none, some ⟨1, 1, by decide⟩) := by
    decide +kernel
  obtain ⟨s, hs, hstate⟩ := Option.map_eq_some_iff.mp hrun
  obtain ⟨h3, h4, h5⟩ : _ ∧ _ ∧ _ := by simpa only [Prod.mk.injEq] using hstate
  have hreach : Reach fdEvent FdEvent.Single (Process.Start 1) s :=
    (reach_of_guarded shared hs).mono_init fun _ h => h ▸ smallProcess_start
  exact ⟨s, hreach, h3, h4, h5, one_koa hreach⟩

end XCalls
