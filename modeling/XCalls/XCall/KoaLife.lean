import XCalls.XCall.KoaRefs

/-!
# The KOAs during the calls of an attempt

* `XAction.fds`, `XAction.koas`   what an action will detach;
* `LifeView`, `lifeStep`   the KOAs, the open descriptors and the actions, and the steps on them;
* `LifeInv`        everything that the actions will detach is held, and the undo actions find their
                   descriptors attached; one lemma for each operation.
-/

set_option linter.unusedSectionVars false

namespace XCalls
open Prog
variable {T : Type} [DecidableEq T] {n N : Nat}

/-! ## what the actions detach -/

/-- the descriptors that an action detaches, each with the KOA -/
def XAction.fds : XAction N → List (Nat × Fin N)
  | .openUndo fd koa => [(fd, koa)]
  | .dupUndo fd koa => [(fd, koa)]
  | .closeCommit fd koa => [(fd, koa)]
  | .createCase1Undo fd koa _ => [(fd, koa)]
  | .createCase2Undo args => [(args.fd, args.koa)]
  | .pipeUndo fd0 fd1 koa0 koa1 => [(fd0, koa0), (fd1, koa1)]
  | .socketUndo fd koa => [(fd, koa)]
  | _ => []

/-- the KOAs of which an action drops a reference without a descriptor -/
def XAction.koas : XAction N → List (Fin N)
  | .renameCommit args => args.oldpathKoa :: (args.newpathKoa.map Prod.fst).toList
  | .renameUndo args => args.oldpathKoa :: (args.newpathKoa.map Prod.fst).toList
  | .unlinkCommit koa _ => [koa]
  | _ => []

def fdsOf (l : List (XAction N × Int32)) : List (Nat × Fin N) := l.flatMap fun x => x.1.fds

def koasOf (l : List (XAction N × Int32)) : List (Fin N) := l.flatMap fun x => x.1.koas

theorem fdsOf_snoc (l : List (XAction N × Int32)) (a : XAction N) (order : Int32) :
    fdsOf (l ++ [(a, order)]) = fdsOf l ++ a.fds := by
  simp [fdsOf]

theorem koasOf_snoc (l : List (XAction N × Int32)) (a : XAction N) (order : Int32) :
    koasOf (l ++ [(a, order)]) = koasOf l ++ a.koas := by
  simp [koasOf]

/-! ## the view -/

structure LifeView (n N : Nat) where
  koas : Koas n N
  fds : Nat → Option Nat
  fd : Nat
  fd1 : Nat
  xactstate : XactState
  commits : List (XAction N × Int32)
  undos : List (XAction N × Int32)

def lifeView (m : XMach T n N) : LifeView n N :=
  { koas := m.world.koamgr.koas
    fds := m.world.kernel.fds
    fd := m.world.answers.fd
    fd1 := m.world.answers.fd1
    xactstate := m.world.xactstate
    commits := others m.txd.commitActionList.entries
    undos := others m.txd.undoActionList.entries }

namespace LifeView

def manage (T : Type) (v : LifeView n N) (f : KoaMgr T n N → KoaMgr T n N → Prop)
    (v' : LifeView n N) : Prop :=
  ∃ m m', m.koas = v.koas ∧ f m m' ∧ v' = { v with koas := m'.koas }

/-- a system call that opens the descriptor `fd` unless it fails -/
def opens (v : LifeView n N) (b : Except Errno Nat) (v' : LifeView n N) : Prop :=
  match b with
  | .error _ => v' = v
  | .ok fd => fd = v.fd ∧ ∃ d, v' = { v with fds := Function.update v.fds fd (some d) }

end LifeView

/-- the steps of the calls and of their actions; the sentinels may respond anything -/
def lifeStep (T : Type) : StepRel (Instr n N) (LifeView n N)
  | _, .getXactstate, b, v, v' => b = v.xactstate ∧ v' = v
  | _, .registerCommitAction a _ order, _, v, v' =>
    v' = { v with commits := v.commits ++ [(a, order)] }
  | _, .registerUndoAction a _ order, _, v, v' => v' = { v with undos := v.undos ++ [(a, order)] }
  | _, .lookupInode inode, b, v, v' => b = v.koas.aliasCache inode.num ∧ v' = v
  | _, .lookupFd2koa fd, b, v, v' => b = v.koas.map fd ∧ v' = v
  | _, .createKoa inode, b, v, v' =>
    v.manage T (fun m m' => koaCreate m .file inode.num = some (b, m')) v'
  | _, .createKoaOf type, b, v, v' => v.manage T (fun m m' => koaCreate m type 0 = some (b, m')) v'
  | _, .attachKoa k, _, v, v' => v.manage T (fun m m' => m' = koaAttach m k) v'
  | _, .detachKoa k, _, v, v' => v.manage T (fun m m' => m' = koaDetach m k) v'
  | _, .attachFd k fd _, _, v, v' => v.manage T (fun m m' => koaAttachFd m k fd = some m') v'
  | _, .detachFd k fd _, _, v, v' => v.manage T (fun m m' => m' = (koaDetachFd m k fd).2) v'
  | _, .libcOpen _ _, b, v, v' => v.opens b v'
  | _, .libcDup _, b, v, v' => v.opens b v'
  | _, .libcSocket _ _ _, b, v, v' => v.opens b v'
  | _, .libcPipe, b, v, v' =>
    match b with
    | .error _ => v' = v
    | .ok (fd0, fd1) => fd0 = v.fd ∧ fd1 = v.fd1 ∧ ∃ d d', v' = { v with
        fds := Function.update (Function.update v.fds fd0 (some d)) fd1 (some d') }
  | _, .libcClose fd, _, v, v' =>
    ∃ fds, (∀ x, x ≠ fd → fds x = v.fds x) ∧ v' = { v with fds := fds }
  | _, _, _, v, v' => v' = v

section
variable {m m' : XMach T n N}

theorem syscall_lifeView {β : Type} {f : Kernel → Except Errno β × Kernel} {b : Except Errno β}
    (h : some (syscall m f) = some (b, m')) :
    (∃ e, b = .error e) ∧ lifeView m' = lifeView m ∨
      b = (f m.world.kernel).1 ∧ lifeView m' = { lifeView m with fds := (f m.world.kernel).2.fds } := by
  rcases syscall_cases (Option.some.inj h) with ⟨e, -, rfl, rfl⟩ | ⟨-, rfl, rfl⟩
  · exact Or.inl ⟨⟨e, rfl⟩, rfl⟩
  · exact Or.inr ⟨rfl, rfl⟩

theorem syscall_life {β : Type} {f : Kernel → Except Errno β × Kernel}
    (hf : ∀ k, (f k).2.fds = k.fds) {b : Except Errno β}
    (h : some (syscall m f) = some (b, m')) : lifeView m' = lifeView m := by
  rcases syscall_lifeView h with ⟨-, hv⟩ | ⟨-, hv⟩
  · exact hv
  · rw [hv, hf]
    rfl

/-- a system call that opens the descriptor the environment has picked -/
theorem syscall_opens {f : Kernel → Except Errno Nat × Kernel}
    (herr : ∀ k e, (f k).1 = .error e → (f k).2 = k)
    (hok : ∀ k fd, (f k).1 = .ok fd → fd = m.world.answers.fd ∧
      ∃ d, (f k).2.fds = Function.update k.fds fd (some d))
    {b : Except Errno Nat} (h : some (syscall m f) = some (b, m')) :
    (lifeView m).opens b (lifeView m') := by
  rcases syscall_lifeView h with ⟨⟨e, rfl⟩, hv⟩ | ⟨hb, hv⟩
  · exact hv
  · cases b with
    | error e =>
      show lifeView m' = lifeView m
      rw [hv, herr _ e hb.symm]
      rfl
    | ok fd =>
      obtain ⟨hfd, d, hd⟩ := hok _ fd hb.symm
      refine ⟨hfd, d, ?_⟩
      rw [hv, hd]
      rfl

theorem sysOpen_opens {path : Path} {flags : OpenFlags} {file : FileId} {fd fd' : Nat} {k : Kernel}
    (h : (sysOpen k path flags file fd).1 = .ok fd') :
    fd' = fd ∧ ∃ d, (sysOpen k path flags file fd).2.fds = Function.update k.fds fd' (some d) := by
  unfold sysOpen at h ⊢
  split at h
  · rename_i f hf
    split at h
    · cases h
    · rename_i hx
      cases h
      rw [if_neg hx]
      refine ⟨rfl, k.next, ?_⟩
      by_cases ht : flags.trunc = true
      · rw [if_pos ht]
        rfl
      · rw [if_neg ht]
        rfl
  · rename_i hf
    split at h
    · rename_i hx
      cases h
      rw [if_pos hx]
      exact ⟨rfl, k.next, rfl⟩
    · cases h

theorem sysDup_opens {oldfd fd fd' : Nat} {k : Kernel} (h : (sysDup k oldfd fd).1 = .ok fd') :
    fd' = fd ∧ ∃ d, (sysDup k oldfd fd).2.fds = Function.update k.fds fd' (some d) := by
  unfold sysDup at h ⊢
  split at h
  · cases h
  · rename_i d hd
    cases h
    refine ⟨rfl, d, ?_⟩
    show Function.update k.fds fd (k.fds oldfd) = _
    rw [hd]

theorem sysClose_fds (k : Kernel) (fd : Nat) {x : Nat} (hx : x ≠ fd) :
    (sysClose k fd).2.fds x = k.fds x := by
  unfold sysClose
  split
  · rfl
  · exact Function.update_of_ne hx _ _

theorem handle_lifeStep {β : Type} {i : Instr n N β} {b : β} (h : handle i m = some (b, m')) :
    lifeStep T i b (lifeView m) (lifeView m') := by
  cases i with
  | getXactstate | lookupFd2koa =>
    cases h
    exact ⟨rfl, rfl⟩
  | lookupInode inode =>
    cases h
    rw [World.meet_eq]
    exact ⟨rfl, rfl⟩
  | registerCommitAction a result order =>
    cases h
    simp [lifeStep, lifeView, txRegisterCommitAction_eq, others]
  | registerUndoAction a result order =>
    cases h
    simp [lifeStep, lifeView, txRegisterUndoAction_eq, others]
  | createKoa | createKoaOf =>
    simp only [handle, Option.map_eq_some_iff] at h
    obtain ⟨⟨k, mgr⟩, h1, h2⟩ := h
    cases h2
    exact ⟨_, _, rfl, h1, rfl⟩
  | attachKoa k =>
    cases h
    exact ⟨_, _, rfl, rfl, rfl⟩
  | detachKoa k =>
    cases h
    rw [World.meet_eq]
    exact ⟨_, _, rfl, rfl, rfl⟩
  | attachFd k fd lock =>
    simp only [handle, Option.map_eq_some_iff] at h
    obtain ⟨mgr, h1, h2⟩ := h
    cases h2
    exact ⟨_, _, rfl, h1, rfl⟩
  | detachFd k fd lock =>
    cases h
    refine ⟨_, _, rfl, rfl, ?_⟩
    rw [World.meet_eq]
    split <;> rfl
  | libcOpen path flags =>
    exact syscall_opens (fun _ _ => sysOpen_error) (fun _ _ => sysOpen_opens) h
  | libcDup fd => exact syscall_opens (fun _ _ => sysDup_error) (fun _ _ => sysDup_opens) h
  | libcSocket domain type protocol =>
    refine syscall_opens (fun k e he => by cases he) (fun k fd hfd => ?_) h
    cases hfd
    exact ⟨rfl, k.next, rfl⟩
  | libcPipe =>
    rcases syscall_lifeView h with ⟨⟨e, rfl⟩, hv⟩ | ⟨rfl, hv⟩
    · exact hv
    · exact ⟨rfl, rfl, _, _, hv⟩
  | libcClose fd =>
    rcases syscall_lifeView h with ⟨-, hv⟩ | ⟨-, hv⟩
    · exact ⟨_, (fun _ _ => rfl), hv⟩
    · exact ⟨_, (fun x hx => sysClose_fds _ fd hx), hv⟩
  | lockAliasCache | unlockAliasCache | lockFd | unlockFd | lockFdsRefbyKoa | unlockFdsRefbyKoa
  | path2inode | mktemp | linearFree | garbage | getBuffer | setBuffer =>
    cases h
    rfl
  | linearMalloc size =>
    simp only [handle] at h
    split at h
    all_goals
      cases h
      rfl
  | store p v =>
    cases h
    cases p <;> rfl
  | tryacquire s flags =>
    simp only [handle, Option.map_eq_some_iff] at h
    obtain ⟨⟨r, mgr, txd⟩, h1, h2⟩ := h
    cases h2
    obtain ⟨hc, hu⟩ := Prod.mk.inj (actions_tryacquire h1)
    show lifeView _ = lifeView m
    simp only [lifeView, hc, hu]
    rfl
  | getSentinel k =>
    simp only [handle, Option.map_eq_some_iff] at h
    obtain ⟨s, -, h2⟩ := h
    cases h2
    rfl
  | libcRead fd nbyte =>
    refine syscall_life (fun k => ?_) h
    unfold sysRead
    split
    · rfl
    · split <;> rfl
  | libcWrite fd buf =>
    refine syscall_life (fun k => ?_) h
    unfold sysWrite
    split
    · rfl
    · dsimp only
      repeat' split
      all_goals rfl
  | libcLseek fd offset whence =>
    refine syscall_life (fun k => ?_) h
    unfold sysLseek
    split
    · rfl
    · dsimp only
      repeat' split
      all_goals rfl
  | libcFtruncate fd length =>
    refine syscall_life (fun k => ?_) h
    unfold sysFtruncate
    split
    · rfl
    · dsimp only
      repeat' split
      all_goals rfl
  | libcPwrite fd buf offset =>
    refine syscall_life (fun k => ?_) h
    unfold sysPwrite
    split
    · rfl
    · dsimp only
      repeat' split
      all_goals rfl
  | libcRename old new =>
    refine syscall_life (fun k => ?_) h
    unfold sysRename
    repeat' split
    all_goals rfl
  | libcLink old new =>
    refine syscall_life (fun k => ?_) h
    unfold sysLink
    repeat' split
    all_goals rfl
  | libcUnlink path =>
    refine syscall_life (fun k => ?_) h
    unfold sysUnlink
    repeat' split
    all_goals rfl
  | libcFsync fd | libcFdatasync fd =>
    refine syscall_life (fun k => ?_) h
    unfold sysFsync
    split <;> rfl
  | libcSendmsg fd msg flags =>
    refine syscall_life (fun k => ?_) h
    unfold sysSendmsg
    split <;> rfl
  | libcRecvmsg fd flags => exact syscall_life (fun k => rfl) h

end

/-! ## the invariant -/

structure UndoLife (v : LifeView n N) : Prop where
  held : Held v.koas [] fun k => (koasOf v.undos).count k
  opened : ∀ fd k, (fd, k) ∈ fdsOf v.undos → v.koas.map fd = some k
  distinct : ((fdsOf v.undos).map Prod.fst).Nodup

/-- what the actions of both lists need, with the references `extra` that no action drops yet -/
structure LifeInv (v : LifeView n N) (extra : List (Fin N)) : Prop where
  held : Held v.koas (fdsOf v.commits) fun k => (koasOf v.commits).count k + extra.count k
  closing : ∀ fd k, (fd, k) ∈ fdsOf v.commits → v.koas.map fd ≠ none
  opened : ∀ fd k, (fd, k) ∈ fdsOf v.undos → v.koas.map fd = some k ∧ v.fds fd ≠ none
  distinct : ((fdsOf v.undos).map Prod.fst).Nodup
  undos_le : ∀ k, (koasOf v.undos).count k ≤ (koasOf v.commits).count k

def StopPost : Stop → LifeView n N → Prop
  | .abort _, v => UndoLife v
  | .internalError, _ => True

def LifePost {α : Type} : Except Stop α → LifeView n N → Prop
  | .ok _, v => LifeInv v []
  | .error e, v => StopPost e v

section
variable {v v' : LifeView n N} {extra : List (Fin N)} {k : Fin N} {fd : Nat}

theorem LifeInv.undo (h : LifeInv v extra) : UndoLife v where
  held := h.held.mono (fun x hx => by cases hx) fun k =>
    (h.undos_le k).trans (Nat.le_add_right _ _)
  opened fd k hk := (h.opened fd k hk).1
  distinct := h.distinct

theorem LifeInv.congr (h : LifeInv v extra) (hk : v'.koas = v.koas) (hf : v'.fds = v.fds)
    (hc : fdsOf v'.commits = fdsOf v.commits ∧ koasOf v'.commits = koasOf v.commits)
    (hu : fdsOf v'.undos = fdsOf v.undos ∧ koasOf v'.undos = koasOf v.undos) : LifeInv v' extra := by
  obtain ⟨h1, h2, h3, h4, h5⟩ := h
  constructor
  · rw [hk, hc.1, hc.2]
    exact h1
  · rw [hk, hc.1]
    exact h2
  · rw [hk, hu.1, hf]
    exact h3
  · rw [hu.1]
    exact h4
  · rw [hc.2, hu.2]
    exact h5

theorem lifePost_abort {α : Type} {r : Except Stop α} (h : LifeInv v []) : LifePost r v := by
  cases r with
  | ok a => exact h
  | error e =>
    cases e with
    | abort reason => exact h.undo
    | internalError => trivial

def FreshFd (v : LifeView n N) (fd : Nat) : Prop := ∀ k, (fd, k) ∉ fdsOf v.undos

theorem LifeInv.fresh (h : LifeInv v extra) (hfd : v.fds fd = none) : FreshFd v fd :=
  fun k hk => (h.opened fd k hk).2 hfd

theorem LifeInv.open (h : LifeInv v extra) (fd d : Nat) :
    LifeInv { v with fds := Function.update v.fds fd (some d) } extra where
  held := h.held
  closing := h.closing
  opened fd' k hk := by
    obtain ⟨h1, h2⟩ := h.opened fd' k hk
    refine ⟨h1, ?_⟩
    show Function.update v.fds fd (some d) fd' ≠ none
    rw [Function.update_apply]
    split
    · exact Option.some_ne_none d
    · exact h2
  distinct := h.distinct
  undos_le := h.undos_le

/-- a descriptor is closed that no undo action detaches -/
theorem LifeInv.close {fds : Nat → Option Nat} (h : LifeInv v extra) (hfd : FreshFd v fd)
    (hfds : ∀ x, x ≠ fd → fds x = v.fds x) : LifeInv { v with fds := fds } extra where
  held := h.held
  closing := h.closing
  opened fd' k hk := by
    obtain ⟨h1, h2⟩ := h.opened fd' k hk
    have hne : fd' ≠ fd := fun he => hfd k (he ▸ hk)
    refine ⟨h1, ?_⟩
    show fds fd' ≠ none
    rw [hfds fd' hne]
    exact h2
  distinct := h.distinct
  undos_le := h.undos_le

theorem LifeInv.create {type : KoaType} {args : UInt32} (h : LifeInv v extra)
    (hc : v.manage T (fun m m' => koaCreate m type args = some (k, m')) v') :
    LifeInv v' extra ∧ k ∉ v'.koas.free ∧
      ∃ koas, v' = { v with koas := koas } ∧ ∀ x, x ∉ v.koas.free → x ∉ koas.free := by
  obtain ⟨m, m', hm, hc, rfl⟩ := hc
  have hheld := h.held
  rw [← hm] at hheld
  obtain ⟨hheld', hk, hlive⟩ := hheld.create hc
  have hmap : m'.koas.map = v.koas.map := by
    obtain ⟨-, -, -, hmap, -⟩ := koaCreate_cases hc
    rw [← hm]
    exact hmap
  refine ⟨⟨hheld', ?_, ?_, h.distinct, h.undos_le⟩, hk, _, rfl, ?_⟩
  · intro fd k hfd
    rw [hmap]
    exact h.closing fd k hfd
  · intro fd k hfd
    rw [hmap]
    exact h.opened fd k hfd
  · rw [← hm]
    exact hlive

theorem LifeInv.attach (h : LifeInv v extra) (hk : k ∉ v.koas.free)
    (hc : v.manage T (fun m m' => m' = koaAttach m k) v') : LifeInv v' (k :: extra) ∧
      v'.koas.free = v.koas.free ∧ (∃ koas, v' = { v with koas := koas }) := by
  obtain ⟨m, _, hm, rfl, rfl⟩ := hc
  have hheld := h.held
  rw [← hm] at hheld hk
  have hmap : (koaAttach m k).koas.map = v.koas.map := by
    rw [← hm]
    exact countAttach_map m k
  refine ⟨⟨?_, ?_, ?_, h.distinct, h.undos_le⟩, ?_, _, rfl⟩
  · refine (hheld.attach hk).mono (fun x hx => hx) fun x => ?_
    by_cases hx : x = k
    · subst hx
      rw [Function.update_self, List.count_cons_self]
      exact (Nat.add_assoc _ _ _).ge
    · rw [Function.update_of_ne hx, List.count_cons_of_ne (Ne.symm hx)]
  · intro fd k hfd
    rw [hmap]
    exact h.closing fd k hfd
  · intro fd k hfd
    rw [hmap]
    exact h.opened fd k hfd
  · rw [← hm]
    exact countAttach_free m k

theorem LifeInv.detach (h : LifeInv v (k :: extra))
    (hc : v.manage T (fun m m' => m' = koaDetach m k) v') : LifeInv v' extra := by
  obtain ⟨m, _, hm, rfl, rfl⟩ := hc
  have hheld := h.held
  rw [← hm] at hheld
  have hmap : (koaDetach m k).koas.map = v.koas.map := by
    rw [← hm]
    exact countDetach_map m k
  refine ⟨?_, ?_, ?_, h.distinct, h.undos_le⟩
  · refine hheld.detach ?_ fun x hx => ?_
    · rw [List.count_cons_self]
      exact (Nat.add_assoc _ _ _).symm
    · rw [List.count_cons_of_ne (Ne.symm hx)]
  · intro fd k hfd
    rw [hmap]
    exact h.closing fd k hfd
  · intro fd k hfd
    rw [hmap]
    exact h.opened fd k hfd

/-- a descriptor that no undo action detaches is attached -/
theorem LifeInv.attachFd (h : LifeInv v extra) (hk : k ∉ v.koas.free) (hfd : FreshFd v fd)
    (hc : v.manage T (fun m m' => koaAttachFd m k fd = some m') v') :
    LifeInv v' extra ∧ v'.koas.map fd = some k ∧ ∃ koas, v' = { v with koas := koas } ∧
      koas.free = v.koas.free ∧ ∀ x, x ≠ fd → koas.map x = v.koas.map x := by
  obtain ⟨m, m', hm, hc, rfl⟩ := hc
  have hheld := h.held
  rw [← hm] at hheld hk
  have hmap : m'.koas.map = Function.update v.koas.map fd (some k) := by
    obtain ⟨-, hmap, -⟩ := koaAttachFd_cases hc
    rw [← hm]
    exact hmap
  refine ⟨⟨?_, ?_, ?_, h.distinct, h.undos_le⟩, ?_, _, rfl, ?_, ?_⟩
  · refine hheld.attachFd hk (fun x hx => ?_) hc
    have := h.closing fd x hx
    rw [← hm] at this
    exact this
  · intro fd' k' hk'
    show m'.koas.map fd' ≠ none
    rw [hmap, Function.update_apply]
    split
    · exact Option.some_ne_none k
    · exact h.closing fd' k' hk'
  · intro fd' k' hk'
    have hne : fd' ≠ fd := fun he => hfd k' (he ▸ hk')
    show m'.koas.map fd' = some k' ∧ _
    rw [hmap, Function.update_of_ne hne]
    exact h.opened fd' k' hk'
  · show m'.koas.map fd = some k
    rw [hmap, Function.update_self]
  · rw [← hm]
    exact (koaAttachFd_cases hc).1
  · intro x hx
    rw [hmap, Function.update_of_ne hx]

theorem koaDetachFd_map (m : KoaMgr T n N) (k : Fin N) (fd : Nat) {x : Nat} (hx : x ≠ fd) :
    (koaDetachFd m k fd).2.map x = m.map x := by
  unfold koaDetachFd
  split
  · rfl
  · dsimp only
    split
    · exact Function.update_of_ne hx _ _
    · dsimp only
      rw [countDetach_map]
      exact Function.update_of_ne hx _ _

theorem LifeInv.detachFd (h : LifeInv v extra) (hmap : v.koas.map fd = some k) (hfd : FreshFd v fd)
    (hc : v.manage T (fun m m' => m' = (koaDetachFd m k fd).2) v') : UndoLife v' := by
  obtain ⟨m, _, hm, rfl, rfl⟩ := hc
  have hundo := h.undo
  have hheld := hundo.held
  rw [← hm] at hheld hmap
  refine ⟨?_, ?_, h.distinct⟩
  · exact hheld.detachFd fun _ => Or.inl hmap
  · intro fd' k' hk'
    have hne : fd' ≠ fd := fun he => hfd k' (he ▸ hk')
    show (koaDetachFd m k fd).2.map fd' = some k'
    rw [koaDetachFd_map m k fd hne]
    have := hundo.opened fd' k' hk'
    rw [← hm] at this
    exact this

/-- `fd` was opened by the call that is running, and is attached to `k` -/
structure NewFd (v : LifeView n N) (fd : Nat) (k : Fin N) : Prop where
  fresh : FreshFd v fd
  map : v.koas.map fd = some k
  isOpen : v.fds fd ≠ none

/-- an undo action is registered that detaches the descriptors of the call -/
theorem LifeInv.registerUndo {a : XAction N} {order : Int32} (h : LifeInv v extra)
    (ha : ∀ x ∈ a.fds, NewFd v x.1 x.2) (hnd : (a.fds.map Prod.fst).Nodup) (hk : a.koas = []) :
    LifeInv { v with undos := v.undos ++ [(a, order)] } extra where
  held := h.held
  closing := h.closing
  opened fd' k' hk' := by
    rw [fdsOf_snoc, List.mem_append] at hk'
    rcases hk' with hk' | hk'
    · exact h.opened fd' k' hk'
    · exact ⟨(ha _ hk').map, (ha _ hk').isOpen⟩
  distinct := by
    rw [fdsOf_snoc, List.map_append, List.nodup_append]
    refine ⟨h.distinct, hnd, ?_⟩
    intro x hx y hy he
    obtain ⟨⟨fd', k'⟩, hin, rfl⟩ := List.mem_map.mp hx
    obtain ⟨z, hz, rfl⟩ := List.mem_map.mp hy
    refine (ha z hz).fresh k' ?_
    rw [← he]
    exact hin
  undos_le k := by
    rw [koasOf_snoc, hk, List.append_nil]
    exact h.undos_le k

/-- `x_close` defers the detaching of a descriptor that is mapped -/
theorem LifeInv.registerClose {order : Int32} (h : LifeInv v extra) (hmap : v.koas.map fd = some k) :
    LifeInv { v with commits := v.commits ++ [(.closeCommit fd k, order)] } extra where
  held := by
    refine h.held.weaken (fun fd' k' hk' => ?_) fun k => ?_
    · rcases hk' with hk' | ⟨hne, hk'⟩
      · exact Or.inl hk'
      · rw [fdsOf_snoc, List.mem_append] at hk'
        rcases hk' with hk' | hk'
        · exact Or.inr ⟨hne, hk'⟩
        · cases List.mem_singleton.mp hk'
          exact Or.inl hmap
    · rw [koasOf_snoc, show (XAction.closeCommit fd _).koas = [] from rfl, List.append_nil]
  closing fd' k' hk' := by
    rw [fdsOf_snoc, List.mem_append] at hk'
    rcases hk' with hk' | hk'
    · exact h.closing fd' k' hk'
    · cases List.mem_singleton.mp hk'
      show v.koas.map fd ≠ none
      rw [hmap]
      exact Option.some_ne_none k
  opened := h.opened
  distinct := h.distinct
  undos_le k' := by
    rw [koasOf_snoc, show (XAction.closeCommit fd _).koas = [] from rfl, List.append_nil]
    exact h.undos_le k'

/-- the references of a path are left to a commit action -/
theorem LifeInv.registerCommit {a : XAction N} {order : Int32} (h : LifeInv v extra)
    (hf : a.fds = []) (ha : ∀ k, a.koas.count k ≤ extra.count k) :
    LifeInv { v with commits := v.commits ++ [(a, order)] } [] where
  held := by
    rw [fdsOf_snoc, hf, List.append_nil]
    refine h.held.mono (fun x hx => hx) fun k => ?_
    rw [koasOf_snoc, List.count_append, List.count_nil]
    exact Nat.add_le_add_left (ha k) _
  closing := by
    rw [fdsOf_snoc, hf, List.append_nil]
    exact h.closing
  opened := h.opened
  distinct := h.distinct
  undos_le k := by
    rw [koasOf_snoc, List.count_append]
    exact (h.undos_le k).trans (Nat.le_add_right _ _)

/-- the references of a path are left to a commit action and to an undo action -/
theorem LifeInv.registerBoth {a a' : XAction N} {order order' : Int32} (h : LifeInv v extra)
    (hf : a.fds = []) (ha : ∀ k, a.koas.count k ≤ extra.count k) (hf' : a'.fds = [])
    (ha' : a'.koas = a.koas) :
    LifeInv { v with
      commits := v.commits ++ [(a, order)]
      undos := v.undos ++ [(a', order')] } [] := by
  have h1 := (h.registerCommit hf ha : LifeInv
    { v with commits := v.commits ++ [(a, order)] } [])
  refine ⟨h1.held, h1.closing, ?_, ?_, ?_⟩
  · rw [fdsOf_snoc, hf', List.append_nil]
    exact h.opened
  · rw [fdsOf_snoc, hf', List.append_nil]
    exact h.distinct
  · intro k
    rw [koasOf_snoc, koasOf_snoc, List.count_append, List.count_append, ha']
    exact Nat.add_le_add_right (h.undos_le k) _

end

end XCalls
