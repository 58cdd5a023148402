import XCalls.XCall.Faults
import XCalls.XCall.KoaCalls

/-!
# Descriptors, inodes and the KOAs of the alias cache

* `InodeView`, `inodeStep`   the kernel and the KOAs together; a system call may fail;
* `OneInv`         every descriptor that is open on a file of one device is mapped to the KOA that
                   the alias cache has for the inode;
* `OneInv.create`, `OneInv.attachFd`, `OneInv.detachFd`   the operations of the manager keep it.
-/

set_option linter.unusedSectionVars false

namespace XCalls
open Prog
variable {T : Type} [DecidableEq T] {n N : Nat}

/-! ## the view -/

structure InodeView (n N : Nat) where
  kernel : Kernel
  faults : List (Option Errno)
  koas : Koas n N
  temp : Path
  file : FileId
  fd : Nat
  xactstate : XactState
  commits : List (XAction N × Int32)

def inodeView (m : XMach T n N) : InodeView n N :=
  { kernel := m.world.kernel
    faults := m.world.answers.faults
    koas := m.world.koamgr.koas
    temp := m.world.answers.temp
    file := m.world.answers.file
    fd := m.world.answers.fd
    xactstate := m.world.xactstate
    commits := others m.txd.commitActionList.entries }

namespace InodeView

def syscall {β : Type} (v : InodeView n N) (f : Kernel → Except Errno β × Kernel) :
    Except Errno β × InodeView n N :=
  match v.faults.head?.join with
  | some e => (.error e, { v with faults := v.faults.tail })
  | none => ((f v.kernel).1, { v with kernel := (f v.kernel).2, faults := v.faults.tail })

def manage (T : Type) (v : InodeView n N) (f : KoaMgr T n N → KoaMgr T n N → Prop)
    (v' : InodeView n N) : Prop :=
  ∃ m m', m.koas = v.koas ∧ f m m' ∧ v' = { v with koas := m'.koas }

end InodeView

/-- the steps of the calls on names and descriptors and of their actions; of the other system calls
and operations nothing is said -/
def inodeStep (T : Type) : StepRel (Instr n N) (InodeView n N)
  | _, .getXactstate, b, v, v' => b = v.xactstate ∧ v' = v
  | _, .registerCommitAction a _ order, _, v, v' =>
    v' = { v with commits := v.commits ++ [(a, order)] }
  | _, .path2inode path, b, v, v' =>
    b = ⟨(v.kernel.names path).elim 0 FileId.ino, v.kernel.names path⟩ ∧ v' = v
  | _, .mktemp _, b, v, v' => b = v.temp ∧ v' = v
  | _, .lookupInode inode, b, v, v' => b = v.koas.aliasCache inode.num ∧ v' = v
  | _, .lookupFd2koa fd, b, v, v' => b = v.koas.map fd ∧ v' = v
  | _, .createKoa inode, b, v, v' =>
    v.manage T (fun m m' => koaCreate m .file inode.num = some (b, m')) v'
  | _, .attachKoa k, _, v, v' => v.manage T (fun m m' => m' = koaAttach m k) v'
  | _, .detachKoa k, _, v, v' => v.manage T (fun m m' => m' = koaDetach m k) v'
  | _, .attachFd k fd _, _, v, v' => v.manage T (fun m m' => koaAttachFd m k fd = some m') v'
  | _, .detachFd k fd _, b, v, v' => v.manage T (fun m m' => (b, m') = koaDetachFd m k fd) v'
  | _, .libcOpen path flags, b, v, v' =>
    (b, v') = v.syscall fun k => sysOpen k path flags v.file v.fd
  | _, .libcClose fd, b, v, v' => (b, v') = v.syscall fun k => sysClose k fd
  | _, .libcDup fd, b, v, v' => (b, v') = v.syscall fun k => sysDup k fd v.fd
  | _, .libcRename old new, b, v, v' => (b, v') = v.syscall fun k => sysRename k old new
  | _, .libcLink old new, b, v, v' => (b, v') = v.syscall fun k => sysLink k old new
  | _, .libcUnlink path, b, v, v' => (b, v') = v.syscall fun k => sysUnlink k path
  | _, .createKoaOf _, _, _, _ => True
  | _, .libcRead _ _, _, _, _ => True
  | _, .libcWrite _ _, _, _, _ => True
  | _, .libcLseek _ _ _, _, _, _ => True
  | _, .libcFtruncate _ _, _, _, _ => True
  | _, .libcPwrite _ _ _, _, _, _ => True
  | _, .libcPipe, _, _, _ => True
  | _, .libcSocket _ _ _, _, _, _ => True
  | _, .libcFsync _, _, _, _ => True
  | _, .libcFdatasync _, _, _, _ => True
  | _, .libcSendmsg _ _ _, _, _, _ => True
  | _, .libcRecvmsg _ _, _, _, _ => True
  | _, _, _, v, v' => v' = v

section
variable {m m' : XMach T n N}

theorem syscall_inodeView {β : Type} {f : Kernel → Except Errno β × Kernel} {b : Except Errno β}
    (h : some (syscall m f) = some (b, m')) : (b, inodeView m') = (inodeView m).syscall f := by
  rcases syscall_cases (Option.some.inj h) with ⟨e, hf, rfl, rfl⟩ | ⟨hf, rfl, rfl⟩
  · rw [InodeView.syscall, show (inodeView m).faults = m.world.answers.faults from rfl, hf]
    rfl
  · rw [InodeView.syscall, show (inodeView m).faults = m.world.answers.faults from rfl, hf]
    rfl

theorem handle_inodeStep {β : Type} {i : Instr n N β} {b : β} (h : handle i m = some (b, m')) :
    inodeStep T i b (inodeView m) (inodeView m') := by
  cases i with
  | libcOpen | libcClose | libcDup | libcRename | libcLink | libcUnlink =>
    exact syscall_inodeView h
  | createKoaOf | libcRead | libcWrite | libcLseek | libcFtruncate | libcPwrite | libcPipe
  | libcSocket | libcFsync | libcFdatasync | libcSendmsg | libcRecvmsg => trivial
  | getXactstate | path2inode | mktemp | lookupFd2koa =>
    cases h
    exact ⟨rfl, rfl⟩
  | lookupInode inode =>
    cases h
    rw [World.meet_eq]
    exact ⟨rfl, rfl⟩
  | registerCommitAction a result order =>
    cases h
    simp [inodeStep, inodeView, txRegisterCommitAction_eq, others]
  | registerUndoAction a result order =>
    cases h
    simp [inodeStep, inodeView, txRegisterUndoAction_eq]
  | createKoa inode =>
    simp only [handle, Option.map_eq_some_iff] at h
    obtain ⟨⟨k, mgr⟩, h1, h2⟩ := h
    cases h2
    exact ⟨_, _, rfl, h1, rfl⟩
  | attachKoa k =>
    cases h
    exact ⟨_, _, rfl, rfl, rfl⟩
  | detachKoa k =>
    cases h
    rw [World.meet_eq]
    exact ⟨_, _, rfl, rfl, rfl⟩
  | attachFd k fd lock =>
    simp only [handle, Option.map_eq_some_iff] at h
    obtain ⟨mgr, h1, h2⟩ := h
    cases h2
    exact ⟨_, _, rfl, h1, rfl⟩
  | detachFd k fd lock =>
    cases h
    refine ⟨_, _, rfl, rfl, ?_⟩
    rw [World.meet_eq]
    split <;> rfl
  | lockAliasCache | unlockAliasCache | lockFd | unlockFd | lockFdsRefbyKoa | unlockFdsRefbyKoa
  | linearFree | garbage | getBuffer | setBuffer =>
    cases h
    rfl
  | linearMalloc size =>
    simp only [handle] at h
    split at h
    all_goals
      cases h
      rfl
  | store p v =>
    cases h
    cases p <;> rfl
  | tryacquire s flags =>
    simp only [handle, Option.map_eq_some_iff] at h
    obtain ⟨⟨r, mgr, txd⟩, h1, h2⟩ := h
    cases h2
    obtain ⟨hc, -⟩ := Prod.mk.inj (actions_tryacquire h1)
    show inodeView _ = inodeView m
    simp only [inodeView, hc]
    rfl
  | getSentinel k =>
    simp only [handle, Option.map_eq_some_iff] at h
    obtain ⟨s, -, h2⟩ := h
    cases h2
    rfl

theorem run_inodeView {α : Type} {p : XProg n N α} {Q : Except Stop α → InodeView n N → Prop}
    {r : Except Stop α} (hwp : wp (inodeStep T) p Q (inodeView m))
    (h : run handle p m = some (r, m')) : Q r (inodeView m') := by
  have hR : ∀ {β : Type} (i : Instr n N β) (b : β) (s s' : XMach T n N), True →
      handle i s = some (b, s') → inodeStep T i b (inodeView s) (inodeView s') ∧ True :=
    fun i b s s' _ hs => ⟨handle_inodeStep hs, trivial⟩
  exact (wp_run hR trivial hwp h).1

end

/-! ## the files that are open -/

section
variable {k : Kernel} {fd fd' : Nat}

theorem fileOf_install_eq (k : Kernel) (f : FileId) (fd : Nat) :
    (k.install f fd).fileOf = Function.update k.fileOf fd (some f) := by
  funext x
  by_cases hx : x = fd
  · subst hx
    show Option.map OpenFile.file (Option.map (Function.update k.files k.next ⟨f, 0⟩)
      (Function.update k.fds x (some k.next) x)) = _
    rw [Function.update_self, Function.update_self, Option.map_some, Function.update_self]
    rfl
  · rw [Function.update_of_ne hx, Kernel.fileOf, Kernel.openFile_install hx]
    rfl

/-- an `open` that succeeds: the file of the name, or a new one -/
theorem sysOpen_fileOf {path : Path} {flags : OpenFlags} {file : FileId}
    (h : (sysOpen k path flags file fd).1 = .ok fd') :
    fd' = fd ∧ (sysOpen k path flags file fd).2.names path = some ((k.names path).getD file) ∧
      (sysOpen k path flags file fd).2.fileOf
        = Function.update k.fileOf fd (some ((k.names path).getD file)) := by
  unfold sysOpen at h ⊢
  cases hn : k.names path with
  | some f =>
    simp only [hn] at h ⊢
    split at h
    · cases h
    · rename_i hx
      cases h
      rw [if_neg hx]
      refine ⟨rfl, ?_, ?_⟩
      · split
        · exact hn
        · exact hn
      · rw [fileOf_install_eq]
        split <;> rfl
  | none =>
    simp only [hn] at h ⊢
    split at h
    · rename_i hx
      cases h
      rw [if_pos hx]
      refine ⟨rfl, ?_, ?_⟩
      · show Function.update k.names path (some file) path = _
        rw [Function.update_self]
        rfl
      · rw [fileOf_install_eq]
        rfl
    · cases h

theorem sysClose_fileOf (k : Kernel) (fd : Nat) :
    (sysClose k fd).2.fileOf = Function.update k.fileOf fd none := by
  unfold sysClose
  cases hd : k.fds fd with
  | none =>
    have hn : k.fileOf fd = none := by
      rw [Kernel.fileOf, Kernel.openFile, hd]
      rfl
    rw [← hn, Function.update_eq_self]
  | some d =>
    funext x
    show Option.map OpenFile.file (Option.map k.files (Function.update k.fds fd none x)) = _
    by_cases hx : x = fd
    · subst hx
      rw [Function.update_self, Function.update_self]
      rfl
    · rw [Function.update_of_ne hx, Function.update_of_ne hx]
      rfl

theorem sysDup_fileOf {oldfd : Nat} (h : (sysDup k oldfd fd).1 = .ok fd') :
    fd' = fd ∧ ∃ f, k.fileOf oldfd = some f ∧
      (sysDup k oldfd fd).2.fileOf = Function.update k.fileOf fd (some f) := by
  unfold sysDup at h ⊢
  split at h
  · cases h
  · rename_i d hd
    cases h
    refine ⟨rfl, (k.files d).file, KeepsBut.fileOf_eq hd, ?_⟩
    funext x
    show Option.map OpenFile.file (Option.map k.files (Function.update k.fds fd (k.fds oldfd) x)) = _
    by_cases hx : x = fd
    · subst hx
      rw [Function.update_self, Function.update_self, hd]
      rfl
    · rw [Function.update_of_ne hx, Function.update_of_ne hx]
      rfl

theorem sysRename_fileOf (k : Kernel) (old new : Path) :
    (sysRename k old new).2.fileOf = k.fileOf := by
  unfold sysRename
  repeat' split
  all_goals rfl

theorem sysLink_fileOf (k : Kernel) (old new : Path) : (sysLink k old new).2.fileOf = k.fileOf := by
  unfold sysLink
  repeat' split
  all_goals rfl

theorem sysUnlink_fileOf (k : Kernel) (path : Path) : (sysUnlink k path).2.fileOf = k.fileOf := by
  unfold sysUnlink
  split <;> rfl

end

/-! ## one KOA for each inode -/

/-- `files` are the files that the descriptors are open on; a descriptor of a KOA of a file is found
in the alias cache, and one that is open on a file of the device `dev` has the KOA of its inode -/
structure OneInv (dev : Nat) (m : Koas n N) (files : Nat → Option FileId) : Prop where
  held : Held m [] fun _ => 0
  cached : ∀ fd k, m.map fd = some k → (m.koa k).type = .file →
    m.aliasCache (m.koa k).stIno = some k
  opened : ∀ fd f, files fd = some f → f.dev = dev → ∃ k, m.map fd = some k ∧
    m.aliasCache f.ino = some k

section
variable {m m' : KoaMgr T n N} {dev : Nat} {files : Nat → Option FileId} {k : Fin N} {fd : Nat}
  {ino : UInt32}

theorem OneInv.of_cache (h : OneInv dev m.koas files) (hk : m.aliasCache ino = some k) :
    k ∉ m.free ∧ (m.koa k).type = .file ∧ (m.koa k).stIno = ino := h.held.cached ino k hk

theorem OneInv.close {m : Koas n N} (h : OneInv dev m files) (fd : Nat) :
    OneInv dev m (Function.update files fd none) where
  held := h.held
  cached := h.cached
  opened fd' f hf hdev := by
    rw [Function.update_apply] at hf
    split at hf
    · cases hf
    · exact h.opened fd' f hf hdev

structure NewKoa (m : Koas n N) (k : Fin N) (ino : UInt32) : Prop where
  live : k ∉ m.free
  type : (m.koa k).type = .file
  stIno : (m.koa k).stIno = ino
  refcnt : (m.koa k).refcnt = 0
  uncached : m.aliasCache ino = none

theorem OneInv.create (h : OneInv dev m.koas files) (hino : m.aliasCache ino = none)
    (hc : koaCreate m .file ino = some (k, m')) :
    OneInv dev m'.koas files ∧ NewKoa m'.koas k ino := by
  obtain ⟨rest, hf, -, hmap, ho, -, hcnt⟩ := koaCreate_cases hc
  obtain ⟨htype, hstIno, halias⟩ := koaCreate_info hc
  obtain ⟨hheld, hlive, -⟩ := h.held.create hc
  refine ⟨⟨hheld, ?_, ?_⟩, hlive, htype, hstIno rfl, hcnt, ?_⟩
  · intro fd x hx ht
    have hx : m.map fd = some x := by
      rw [← hmap]
      exact hx
    have hne : x ≠ k := by
      intro he
      refine h.held.attached fd x (Or.inl hx) ?_
      show x ∈ m.free
      rw [hf, he]
      exact List.mem_cons_self
    have hkoa : m'.koas.koa x = m.koa x := ho x hne
    rw [hkoa] at ht ⊢
    show m'.aliasCache _ = _
    rw [halias]
    exact h.cached fd x hx ht
  · intro fd f hf hdev
    show ∃ k, m'.map fd = some k ∧ m'.aliasCache f.ino = some k
    rw [hmap, halias]
    exact h.opened fd f hf hdev
  · show m'.aliasCache ino = none
    rw [halias]
    exact hino

/-- a descriptor that was just opened on a file is attached to a KOA: to one that the alias cache
has, or that it gets now -/
theorem OneInv.attachFd {f : FileId} (h : OneInv dev m.koas files) (hk : k ∉ m.free)
    (hcache : (m.koa k).type = .file → m.aliasCache (m.koa k).stIno = some k ∨
      m.aliasCache (m.koa k).stIno = none ∧ (m.koa k).refcnt = 0)
    (hf : f.dev = dev → (m.koa k).type = .file ∧ (m.koa k).stIno = f.ino)
    (hc : koaAttachFd m k fd = some m') :
    OneInv dev m'.koas (Function.update files fd (some f)) := by
  obtain ⟨-, hmap, ho, hkoa⟩ := koaAttachFd_cases hc
  have halias := koaAttachFd_aliasCache hc
  have hsame : ∀ x, (m'.koa x).type = (m.koa x).type ∧ (m'.koa x).stIno = (m.koa x).stIno := by
    intro x
    by_cases hx : x = k
    · subst hx
      rw [hkoa]
      exact ⟨rfl, rfl⟩
    · rw [ho x hx]
      exact ⟨rfl, rfl⟩
  -- no entry of the alias cache is lost
  have hkeep : ∀ ino x, m.aliasCache ino = some x → m'.aliasCache ino = some x := by
    intro ino x hx
    rw [halias]
    split
    · rename_i hnew
      have hne : ino ≠ (m.koa k).stIno := by
        intro he
        rw [← he, hx] at hnew
        exact absurd hnew.2.2 (Option.some_ne_none x)
      rw [Function.update_of_ne hne]
      exact hx
    · exact hx
  have hnew : (m.koa k).type = .file → m'.aliasCache (m.koa k).stIno = some k := by
    intro ht
    rcases hcache ht with hc | ⟨hc, hcnt⟩
    · exact hkeep _ k hc
    · rw [halias, if_pos ⟨by rw [hcnt]; rfl, ht, hc⟩, Function.update_self]
  refine ⟨h.held.attachFd hk (fun x hx => nomatch hx) hc, ?_, ?_⟩
  · intro fd' x hx ht
    show m'.aliasCache (m'.koa x).stIno = some x
    have ht : (m'.koa x).type = .file := ht
    rw [(hsame x).1] at ht
    rw [(hsame x).2]
    have hx : Function.update m.map fd (some k) fd' = some x := by
      rw [← hmap]
      exact hx
    rw [Function.update_apply] at hx
    split at hx
    · cases hx
      exact hnew ht
    · exact hkeep _ x (h.cached fd' x hx ht)
  · intro fd' g hg hdev
    show ∃ x, m'.map fd' = some x ∧ m'.aliasCache g.ino = some x
    rw [hmap]
    by_cases hfd : fd' = fd
    · subst hfd
      rw [Function.update_self] at hg
      cases hg
      obtain ⟨ht, hi⟩ := hf hdev
      refine ⟨k, Function.update_self .., ?_⟩
      rw [← hi]
      exact hnew ht
    · rw [Function.update_of_ne hfd] at hg ⊢
      obtain ⟨x, hx, hxi⟩ := h.opened fd' g hg hdev
      exact ⟨x, hx, hkeep _ x hxi⟩

/-- the entry of a KOA is removed from the alias cache with its last descriptor -/
theorem koaDetachFd_aliasCache (hmap : m.map fd = some k) :
    (koaDetachFd m k fd).2.aliasCache = m.aliasCache ∨
      (m.koa k).refcnt = 1 ∧ (m.koa k).type = .file ∧
        (koaDetachFd m k fd).2.aliasCache = Function.update m.aliasCache (m.koa k).stIno none := by
  unfold koaDetachFd
  rw [hmap]
  dsimp only
  cases hi : (m.koa k).indexOf fd with
  | none => exact Or.inl rfl
  | some index =>
    dsimp only
    rw [countDetach_aliasCache]
    split
    · rename_i hlast
      rw [KoaMgr.set_koa, if_pos rfl] at hlast ⊢
      exact Or.inr ⟨by have := hlast.1; dsimp only at this; omega, hlast.2, rfl⟩
    · exact Or.inl rfl

theorem koaDetachFd_map_self (m : KoaMgr T n N) (k : Fin N) (fd : Nat) :
    (koaDetachFd m k fd).2.map fd = none := by
  unfold koaDetachFd
  cases hm : m.map fd with
  | none => exact hm
  | some x =>
    dsimp only
    split
    · exact Function.update_self ..
    · dsimp only
      rw [countDetach_map]
      exact Function.update_self ..

theorem koaDetachFd_same (m : KoaMgr T n N) (k : Fin N) (fd : Nat) (x : Fin N) :
    ((koaDetachFd m k fd).2.koa x).type = (m.koa x).type ∧
      ((koaDetachFd m k fd).2.koa x).stIno = (m.koa x).stIno := by
  unfold koaDetachFd
  split
  · exact ⟨rfl, rfl⟩
  · dsimp only
    split
    · exact ⟨rfl, rfl⟩
    · rw [countDetach_koa]
      split
      · rename_i hx
        rw [KoaMgr.set_koa, if_pos rfl, hx]
        exact ⟨rfl, rfl⟩
      · rename_i hx
        rw [KoaMgr.set_koa, if_neg hx]
        exact ⟨rfl, rfl⟩

/-- two descriptors of one KOA are two references -/
theorem OneInv.two_refs (h : OneInv dev m.koas files) {fd' : Nat} (hne : fd' ≠ fd)
    (hfd : m.map fd = some k) (hfd' : m.map fd' = some k) : 2 ≤ (m.koa k).refcnt := by
  have hcount := h.held.counted k {fd, fd'} fun x hx => by
    rcases Finset.mem_insert.mp hx with rfl | hx
    · exact Or.inl hfd
    · rw [Finset.mem_singleton.mp hx]
      exact Or.inl hfd'
  rw [Finset.card_pair hne.symm] at hcount
  have hcov := h.held.covered k (h.held.attached fd k (Or.inl hfd))
  change ((2 : Nat) : Int) ≤ (m.koa k).fdRefcnt at hcount
  change (m.koa k).fdRefcnt + ((0 : Nat) : Int) ≤ (m.koa k).refcnt at hcov
  omega

/-- a descriptor is detached from its KOA, listed or not, and closed -/
theorem OneInv.detachFd (h : OneInv dev m.koas files) (hmap : m.map fd = some k) :
    OneInv dev (koaDetachFd m k fd).2.koas (Function.update files fd none) := by
  have hclear := koaDetachFd_map_self m k fd
  -- the entries of the other descriptors stay
  have hkeep : ∀ fd' x ino, fd' ≠ fd → m.map fd' = some x → m.aliasCache ino = some x →
      (koaDetachFd m k fd).2.aliasCache ino = some x := by
    intro fd' x ino hne hx hi
    rcases koaDetachFd_aliasCache hmap with ha | ⟨hone, ht, ha⟩
    · rw [ha]
      exact hi
    · have hino : ino ≠ (m.koa k).stIno := by
        rintro rfl
        have hk := h.cached fd k hmap ht
        obtain rfl : x = k := Option.some.inj (hi.symm.trans hk)
        have := h.two_refs hne hmap hx
        omega
      rw [ha, Function.update_of_ne hino]
      exact hi
  refine ⟨h.held.detachFd fun _ => Or.inl hmap, ?_, ?_⟩
  · intro fd' x hx ht
    have hne : fd' ≠ fd := by
      rintro rfl
      have hx : (koaDetachFd m k fd').2.map fd' = some x := hx
      rw [hclear] at hx
      cases hx
    have hx : m.map fd' = some x := (koaDetachFd_map m k fd hne).symm.trans hx
    show (koaDetachFd m k fd).2.aliasCache ((koaDetachFd m k fd).2.koa x).stIno = some x
    rw [(koaDetachFd_same m k fd x).2]
    exact hkeep fd' x _ hne hx (h.cached fd' x hx ((koaDetachFd_same m k fd x).1.symm.trans ht))
  · intro fd' f hf hdev
    rw [Function.update_apply] at hf
    split at hf
    · cases hf
    · rename_i hne
      obtain ⟨x, hx, hxi⟩ := h.opened fd' f hf hdev
      exact ⟨x, (koaDetachFd_map m k fd hne).trans hx, hkeep fd' x _ hne hx hxi⟩

/-! ### on the view -/

variable {v v' : InodeView n N} {f : FileId}

theorem createKoa_one {inode : Inode}
    (hc : v.manage T (fun m m' => koaCreate m .file inode.num = some (k, m')) v')
    (h : OneInv dev v.koas files) (hino : v.koas.aliasCache inode.num = none) :
    ∃ koas, v' = { v with koas := koas } ∧ OneInv dev koas files ∧ NewKoa koas k inode.num := by
  obtain ⟨m, m', hm, hc, rfl⟩ := hc
  rw [← hm] at h hino
  exact ⟨_, rfl, h.create hino hc⟩

theorem attachFd_new (hc : v.manage T (fun m m' => koaAttachFd m k fd = some m') v')
    (h : OneInv dev v.koas files) (hk : NewKoa v.koas k f.ino) :
    ∃ koas, v' = { v with koas := koas } ∧ OneInv dev koas (Function.update files fd (some f)) := by
  obtain ⟨m, m', hm, hc, rfl⟩ := hc
  rw [← hm] at h hk
  refine ⟨_, rfl, h.attachFd hk.live (fun _ => Or.inr ⟨?_, hk.refcnt⟩)
    (fun _ => ⟨hk.type, hk.stIno⟩) hc⟩
  rw [show (m.koa k).stIno = f.ino from hk.stIno]
  exact hk.uncached

theorem attachFd_cached (hc : v.manage T (fun m m' => koaAttachFd m k fd = some m') v')
    (h : OneInv dev v.koas files) (hk : v.koas.aliasCache f.ino = some k) :
    ∃ koas, v' = { v with koas := koas } ∧ OneInv dev koas (Function.update files fd (some f)) := by
  obtain ⟨m, m', hm, hc, rfl⟩ := hc
  rw [← hm] at h hk
  obtain ⟨hlive, ht, hi⟩ := h.of_cache hk
  refine ⟨_, rfl, h.attachFd hlive (fun _ => Or.inl ?_) (fun _ => ⟨ht, hi⟩) hc⟩
  rw [hi]
  exact hk

/-- a duplicate is attached to the KOA of the descriptor -/
theorem attachFd_dup {oldfd : Nat}
    (hc : v.manage T (fun m m' => koaAttachFd m k fd = some m') v')
    (h : OneInv dev v.koas files) (hk : v.koas.map oldfd = some k) (hf : files oldfd = some f) :
    ∃ koas, v' = { v with koas := koas } ∧ OneInv dev koas (Function.update files fd (some f)) := by
  obtain ⟨m, m', hm, hc, rfl⟩ := hc
  rw [← hm] at h hk
  refine ⟨_, rfl, h.attachFd (h.held.attached oldfd k (Or.inl hk))
    (fun ht => Or.inl (h.cached oldfd k hk ht)) (fun hdev => ?_) hc⟩
  obtain ⟨x, hx, hxi⟩ := h.opened oldfd f hf hdev
  obtain rfl : k = x := Option.some.inj (hk.symm.trans hx)
  exact (h.of_cache hxi).2

theorem detachFd_one {b : Bool}
    (hc : v.manage T (fun m m' => (b, m') = koaDetachFd m k fd) v')
    (h : OneInv dev v.koas files) (hk : v.koas.map fd = some k) :
    ∃ koas, v' = { v with koas := koas } ∧ OneInv dev koas (Function.update files fd none) := by
  obtain ⟨m, m', hm, hc, rfl⟩ := hc
  rw [← hm] at h hk
  obtain rfl : m' = (koaDetachFd m k fd).2 := congrArg Prod.snd hc
  exact ⟨_, rfl, h.detachFd hk⟩

end

end XCalls
