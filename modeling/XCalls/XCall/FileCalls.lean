import XCalls.XCall.FileKoas
import XCalls.XCall.LiveActions
import XCalls.XCall.OneKoa

/-!
# Calls on files and the KOAs of other files

`x_open`, `x_create`, `x_close`, `x_rename` and `x_unlink`, with their commit and undo actions.

* `FileCall`, `InodeView.touched`   the calls, and the files that one looks up or opens;
* `KeyState`       between two calls: `FileInv`, and both lists have actions of these calls only;
* `xOpen_keys`, ...   a call keeps it, if every file that it touches agrees with the KOAs;
* `action_keys`    so does an action, if its descriptor is mapped to its KOA, or to none.
-/

set_option linter.unusedSectionVars false

namespace XCalls
open Prog
variable {T : Type} [DecidableEq T] {n N : Nat}

inductive FileCall where
  | «open» (pathname : Path) (flags : OpenFlags)
  | create (pathname : Path)
  | close (fildes : Nat)
  | rename (oldpath newpath : Path)
  | unlink (pathname : Path)

def FileCall.prog (result : Option Nat) : FileCall → XProg n N Int
  | «open» pathname flags => xOpen pathname flags result
  | create pathname => xCreate pathname result
  | close fildes => xClose fildes result
  | rename oldpath newpath => xRename oldpath newpath result
  | unlink pathname => xUnlink pathname result

def InodeView.touched (v : InodeView n N) : FileCall → List FileId
  | .open pathname _ =>
    if v.xactstate = .retryable then (v.kernel.names pathname).toList
    else [(v.kernel.names pathname).getD v.file]
  | .create pathname =>
    if v.xactstate = .retryable then (v.kernel.names pathname).toList ++ [v.created pathname]
    else [v.created pathname]
  | .close _ => []
  | .rename oldpath newpath =>
    if v.xactstate = .retryable then
      (v.kernel.names oldpath).toList.flatMap fun f => f :: (v.kernel.names newpath).toList
    else []
  | .unlink pathname =>
    if v.xactstate = .retryable then (v.kernel.names pathname).toList else []

def XAction.OnFile : XAction N → Prop
  | .openUndo _ _ => True
  | .closeCommit _ _ => True
  | .createCase1Undo _ _ _ => True
  | .createCase2Commit _ => True
  | .createCase2Undo _ => True
  | .renameCommit _ => True
  | .renameUndo _ => True
  | .unlinkCommit _ _ => True
  | _ => False

/-- `other k` references to `k` are those of other threads, and `extra` are ones that no action is
to drop yet -/
structure KeyState (other : Fin N → Nat) (extra : List (Fin N)) (s : InodeView n N × Records N) :
    Prop where
  inv : FileInv s.1.koas s.2 s.1.kernel.fileOf
    fun k => other k + (koasOf s.1.commits).count k + extra.count k
  commits : ∀ x ∈ s.1.commits, (x.2 = 0 ∨ x.2 = 1) ∧ x.1.OnFile
  undos : ∀ x ∈ s.2.undos, x.2 = 0 ∧ x.1.OnFile
  undos_le : ∀ k, (koasOf s.2.undos).count k ≤ (koasOf s.1.commits).count k

def KeyPost {α : Type} (other : Fin N → Nat) : Except Stop α → InodeView n N × Records N → Prop
  | .error .internalError, _ => True
  | _, s => KeyState other [] s

/-! ## steps that change nothing -/

def Instr.Hidden : ∀ {β : Type}, Instr n N β → Prop
  | _, .linearMalloc _ => True
  | _, .linearFree _ => True
  | _, .store _ _ => True
  | _, .tryacquire _ _ => True
  | _, .getSentinel _ => True
  | _, .lockAliasCache => True
  | _, .unlockAliasCache => True
  | _, .lockFd _ => True
  | _, .unlockFd _ => True
  | _, .lockFdsRefbyKoa _ => True
  | _, .unlockFdsRefbyKoa _ => True
  | _, _ => False

section
variable {s s' : InodeView n N × Records N} {other : Fin N → Nat} {extra extra' : List (Fin N)}
  {α : Type} {Q : Except Stop α → InodeView n N × Records N → Prop}

theorem keyedStep_hidden {β : Type} {i : Instr n N β} {b : β} (hi : i.Hidden)
    (h : keyedStep T i b s s') : s' = s := by
  cases i with
  | linearMalloc | linearFree | store | tryacquire | getSentinel | lockAliasCache | unlockAliasCache
  | lockFd | unlockFd | lockFdsRefbyKoa | unlockFdsRefbyKoa => exact Prod.ext h.1 h.2
  | _ => exact hi.elim

theorem wp_hidden {β : Type} {i : Instr n N β} {f : β → XProg n N α} (hi : i.Hidden)
    (hf : ∀ b, wp (keyedStep T) (f b) Q s) : wp (keyedStep T) (op i f) Q s := by
  intro b s' h
  obtain rfl := keyedStep_hidden hi h
  exact hf b

theorem wp_finish_keys (result : Option Nat) (r : Int) (e : Errno) (h : KeyState other [] s) :
    wp (keyedStep T) (finish result r e : XProg n N Int) (KeyPost other) s :=
  wp_hidden trivial fun _ => h

theorem wp_acquireNew_keys {koa : Fin N} {f : Unit → XProg n N α}
    (hQ : ∀ s, Q (.error .internalError) s) (h : wp (keyedStep T) (f ()) Q s) :
    wp (keyedStep T) (acquireNew koa >>= f) Q s := by
  apply wp_bind
  simp only [acquireNew, call_bind]
  refine wp_hidden trivial fun _ => wp_hidden trivial fun xret => ?_
  split
  · exact hQ s
  · exact h

theorem wp_allocArgs_keys {size : UInt32} {f : Unit → XProg n N Int}
    (h : wp (keyedStep T) (f ()) (KeyPost other) s) :
    wp (keyedStep T) (allocArgs size >>= f) (KeyPost other) s := by
  apply wp_bind
  simp only [allocArgs, call_bind]
  refine wp_hidden trivial fun ok => ?_
  cases ok with
  | false => trivial
  | true => exact h

/-! ## parts of the invariant -/

theorem KeyState.drop (h : KeyState other extra s) : KeyState other [] s where
  inv := h.inv.weaken fun _ => Nat.le_add_right _ _
  commits := h.commits
  undos := h.undos
  undos_le := h.undos_le

theorem KeyState.abort (h : KeyState other extra s) (reason : AbortReason) :
    KeyPost other (.error (.abort reason) : Except Stop α) s := h.drop

/-- the KOAs, the files and the pairs that met are others, and the lists are not -/
theorem KeyState.withInv {c : Koas n N} {r : Records N} {k : Kernel} (faults : List (Option Errno))
    (h : KeyState other extra s) (hr : r.undos = s.2.undos)
    (hinv : FileInv c r k.fileOf
      fun k => other k + (koasOf s.1.commits).count k + extra'.count k) :
    KeyState other extra' ({ s.1 with koas := c, kernel := k, faults := faults }, r) where
  inv := hinv
  commits := h.commits
  undos x hx := h.undos x (hr ▸ hx)
  undos_le k := by
    rw [hr]
    exact h.undos_le k

theorem KeyState.registerCommit (a : XAction N) (order : Int32) (h : KeyState other extra s)
    (ho : order = 0 ∨ order = 1) (ha : a.OnFile)
    (hk : ∀ k, extra.count k = a.koas.count k + extra'.count k) :
    KeyState other extra' ({ s.1 with commits := s.1.commits ++ [(a, order)] }, s.2) where
  inv := by
    refine h.inv.weaken fun k => ?_
    show other k + (koasOf (s.1.commits ++ [(a, order)])).count k + extra'.count k ≤ _
    rw [koasOf_snoc, List.count_append, hk]
    omega
  commits x hx := by
    rcases List.mem_append.mp hx with hx | hx
    · exact h.commits x hx
    · rw [List.mem_singleton.mp hx]
      exact ⟨ho, ha⟩
  undos := h.undos
  undos_le k := by
    show _ ≤ (koasOf (s.1.commits ++ [(a, order)])).count k
    rw [koasOf_snoc, List.count_append]
    exact (h.undos_le k).trans (Nat.le_add_right _ _)

theorem KeyState.registerUndo {a : XAction N} (h : KeyState other extra s) (ha : a.OnFile)
    (hk : ∀ k, (koasOf s.2.undos).count k + a.koas.count k ≤ (koasOf s.1.commits).count k) :
    KeyState other extra (s.1, { s.2 with undos := s.2.undos ++ [(a, 0)] }) where
  inv := ⟨h.inv.held, h.inv.known, h.inv.agree, h.inv.mapped, h.inv.met⟩
  commits := h.commits
  undos x hx := by
    rcases List.mem_append.mp hx with hx | hx
    · exact h.undos x hx
    · rw [List.mem_singleton.mp hx]
      exact ⟨rfl, ha⟩
  undos_le k := by
    show (koasOf (s.2.undos ++ [(a, 0)])).count k ≤ _
    rw [koasOf_snoc, List.count_append]
    exact hk k

end

/-! ## rules for the other steps -/

section
variable {s : InodeView n N × Records N} {other : Fin N → Nat} {extra : List (Fin N)}
  {α : Type} {Q : Except Stop α → InodeView n N × Records N → Prop}
  {files : Nat → Option FileId} {refs : Fin N → Nat} {f : FileId} {koa : Fin N} {fd : Nat}
  {inode : Inode}

theorem wp_getXactstate {g : XactState → XProg n N α}
    (h : wp (keyedStep T) (g s.1.xactstate) Q s) :
    wp (keyedStep T) (op .getXactstate g) Q s := by
  intro b s' hs
  obtain ⟨⟨rfl, hv⟩, hr⟩ := hs
  obtain rfl : s' = s := Prod.ext hv hr
  exact h

theorem wp_path2inode {path : Path} {g : Inode → XProg n N α}
    (h : wp (keyedStep T)
      (g ⟨(s.1.kernel.names path).elim 0 FileId.ino, s.1.kernel.names path⟩) Q s) :
    wp (keyedStep T) (op (.path2inode path) g) Q s := by
  intro b s' hs
  obtain ⟨⟨rfl, hv⟩, hr⟩ := hs
  obtain rfl : s' = s := Prod.ext hv hr
  exact h

theorem wp_mktemp {template : String} {g : Path → XProg n N α}
    (h : wp (keyedStep T) (g s.1.temp) Q s) : wp (keyedStep T) (op (.mktemp template) g) Q s := by
  intro b s' hs
  obtain ⟨⟨rfl, hv⟩, hr⟩ := hs
  obtain rfl : s' = s := Prod.ext hv hr
  exact h

theorem wp_lookupFd2koa {g : Option (Fin N) → XProg n N α}
    (h : wp (keyedStep T) (g (s.1.koas.map fd)) Q s) :
    wp (keyedStep T) (op (.lookupFd2koa fd) g) Q s := by
  intro b s' hs
  obtain ⟨⟨rfl, hv⟩, hr⟩ := hs
  obtain rfl : s' = s := Prod.ext hv hr
  exact h

theorem wp_registerCommitAction {a : XAction N} {result : Option Nat} {order : Int32}
    {g : Unit → XProg n N α}
    (h : wp (keyedStep T) (g ()) Q ({ s.1 with commits := s.1.commits ++ [(a, order)] }, s.2)) :
    wp (keyedStep T) (op (.registerCommitAction a result order) g) Q s := by
  intro b s' hs
  obtain ⟨hv, hr⟩ := hs
  obtain rfl : s' = ({ s.1 with commits := s.1.commits ++ [(a, order)] }, s.2) := Prod.ext hv hr
  exact h

theorem wp_registerUndoAction {a : XAction N} {result : Option Nat} {order : Int32}
    {g : Unit → XProg n N α}
    (h : wp (keyedStep T) (g ()) Q (s.1, { s.2 with undos := s.2.undos ++ [(a, order)] })) :
    wp (keyedStep T) (op (.registerUndoAction a result order) g) Q s := by
  intro b s' hs
  obtain ⟨hv, hr⟩ := hs
  obtain rfl : s' = (s.1, { s.2 with undos := s.2.undos ++ [(a, order)] }) := Prod.ext hv hr
  exact h

theorem wp_lookupInode_keys {g : Option (Fin N) → XProg n N α} (hi : inode = ⟨f.ino, some f⟩)
    (h : FileInv s.1.koas s.2 files refs) (ha : s.1.koas.Agrees s.2 f)
    (hg : ∀ r, FileInv s.1.koas r files refs → r.undos = s.2.undos → r.koaFile = s.2.koaFile →
      wp (keyedStep T) (g (s.1.koas.aliasCache f.ino)) Q (s.1, r)) :
    wp (keyedStep T) (op (.lookupInode inode) g) Q s := by
  subst hi
  intro b s' hs
  obtain ⟨⟨rfl, hv⟩, hr⟩ := hs
  obtain rfl : s' = (s.1, s.2.meet (some f) (s.1.koas.aliasCache f.ino)) := Prod.ext hv hr
  refine hg _ (h.lookup ha) ?_ ?_
  · cases s.1.koas.aliasCache f.ino <;> rfl
  · cases s.1.koas.aliasCache f.ino <;> rfl

theorem wp_createKoa_keys {g : Fin N → XProg n N α} (hi : inode = ⟨f.ino, some f⟩)
    (h : FileInv s.1.koas s.2 files refs) (ha : s.1.koas.Agrees s.2 f)
    (hg : ∀ koa c r, FileInv c r files refs → r.undos = s.2.undos → r.koaFile koa = some f →
      koa ∉ c.free →
      (∀ g, s.1.koas.Agrees s.2 g → (g.ino = f.ino → g = f) → c.Agrees r g) →
      wp (keyedStep T) (g koa) Q ({ s.1 with koas := c }, r)) :
    wp (keyedStep T) (op (.createKoa inode) g) Q s := by
  subst hi
  intro koa s' hs
  obtain ⟨⟨m, m', hm, hc, hv⟩, hr⟩ := hs
  rw [← hm] at h ha hg
  obtain rfl : s' = ({ s.1 with koas := m'.koas },
    { s.2 with koaFile := Function.update s.2.koaFile koa (some f) }) := Prod.ext hv hr
  obtain ⟨hinv, hkeep, hlive⟩ := h.create ha hc
  exact hg koa m'.koas _ hinv rfl (Function.update_self ..) hlive hkeep

theorem wp_koaOfInode_keys {g : Fin N → XProg n N α} (hi : inode = ⟨f.ino, some f⟩)
    (h : FileInv s.1.koas s.2 files refs) (ha : s.1.koas.Agrees s.2 f)
    (hg : ∀ koa c r, FileInv c r files refs → r.undos = s.2.undos → r.koaFile koa = some f →
      koa ∉ c.free → wp (keyedStep T) (g koa) Q ({ s.1 with koas := c }, r)) :
    wp (keyedStep T) (koaOfInode inode >>= g) Q s := by
  apply wp_bind
  simp only [koaOfInode, call_bind]
  refine wp_lookupInode_keys hi h ha fun r hinv hundos hkoaFile => ?_
  cases hkoa : s.1.koas.aliasCache f.ino with
  | some koa =>
    obtain ⟨hof, hi⟩ := hinv.cached hkoa
    refine hg koa s.1.koas r hinv hundos ?_ hof.1
    rw [hkoaFile]
    exact ha koa hof hi
  | none =>
    refine wp_createKoa_keys hi hinv (ha.records hkoaFile)
      fun koa c r₂ hinv₂ hundos₂ hfile hlive _ => ?_
    exact hg koa c r₂ hinv₂ (hundos₂.trans hundos) hfile hlive

/-- a descriptor that was just opened on `f` is attached -/
theorem wp_attachFd_keys {lock : Bool} {g : Unit → XProg n N α}
    (h : FileInv s.1.koas s.2 files refs) (hk : koa ∉ s.1.koas.free)
    (hf : s.2.koaFile koa = some f)
    (hfiles : s.1.kernel.fileOf = Function.update files fd (some f))
    (hg : ∀ c r, FileInv c r s.1.kernel.fileOf refs → r.undos = s.2.undos →
      c.map fd = some koa → wp (keyedStep T) (g ()) Q ({ s.1 with koas := c }, r)) :
    wp (keyedStep T) (op (.attachFd koa fd lock) g) Q s := by
  intro b s' hs
  obtain ⟨⟨m, m', hm, hc, hv⟩, hr⟩ := hs
  rw [← hm] at h hk
  obtain rfl : s' = ({ s.1 with koas := m'.koas }, s.2.meet (s.1.kernel.fileOf fd) (some koa)) :=
    Prod.ext hv hr
  have hinv := h.attachFd hk hf hc
  rw [← hfiles] at hinv
  refine hg m'.koas _ ?_ rfl ?_
  · rw [hfiles, Function.update_self, ← hfiles]
    exact hinv
  · show m'.map fd = some koa
    rw [(koaAttachFd_cases hc).2.1, Function.update_self]

/-- a descriptor is detached from the KOA that it is mapped to, if it is found there -/
theorem wp_detachFd_keys {lock : Bool} {g : Bool → XProg n N α}
    (h : FileInv s.1.koas s.2 files refs)
    (hfd : s.1.koas.Lists koa fd → s.1.koas.map fd = some koa)
    (hg : ∀ b r, FileInv (s.1.koas.detachFd koa fd) r files refs → r.undos = s.2.undos →
      wp (keyedStep T) (g b) Q ({ s.1 with koas := s.1.koas.detachFd koa fd }, r)) :
    wp (keyedStep T) (op (.detachFd koa fd lock) g) Q s := by
  intro b s' hs
  obtain ⟨⟨m, m', hm, hc, hv⟩, hr⟩ := hs
  rw [← hm] at h hfd hg
  have hr : s'.2 = if b then s.2.meet (s.2.koaFile koa) (m.koas.removed koa) else s.2 := by
    rw [hm]
    exact hr
  have hdet : m'.koas = m.koas.detachFd koa fd := by
    rw [← koas_detachFd, ← hc]
  rw [hdet] at hv
  obtain rfl : s' = ({ s.1 with koas := m.koas.detachFd koa fd },
    if b then s.2.meet (s.2.koaFile koa) (m.koas.removed koa) else s.2) := Prod.ext hv hr
  refine hg b _ (h.detachFd hfd hc) ?_
  split
  · cases m.koas.removed koa <;> rfl
  · rfl

theorem wp_attachKoa_keys {g : Unit → XProg n N α} (h : FileInv s.1.koas s.2 files refs)
    (hk : koa ∉ s.1.koas.free)
    (hg : ∀ c, FileInv c s.2 files (Function.update refs koa (refs koa + 1)) →
      SameFiles s.1.koas c → wp (keyedStep T) (g ()) Q ({ s.1 with koas := c }, s.2)) :
    wp (keyedStep T) (op (.attachKoa koa) g) Q s := by
  intro b s' hs
  obtain ⟨⟨m, m', hm, rfl, hv⟩, hr⟩ := hs
  rw [← hm] at h hk hg
  obtain rfl : s' = ({ s.1 with koas := (koaAttach m koa).koas }, s.2) := Prod.ext hv hr
  exact hg _ (h.attach hk) (sameFiles_countAttach m koa)

theorem wp_detachKoa_keys {g : Unit → XProg n N α} (refs' : Fin N → Nat)
    (h : FileInv s.1.koas s.2 files refs)
    (hk : refs koa = refs' koa + 1) (ho : ∀ x, x ≠ koa → refs' x = refs x)
    (hg : ∀ r, FileInv (s.1.koas.detach koa) r files refs' → r.undos = s.2.undos →
      wp (keyedStep T) (g ()) Q ({ s.1 with koas := s.1.koas.detach koa }, r)) :
    wp (keyedStep T) (op (.detachKoa koa) g) Q s := by
  intro b s' hs
  obtain ⟨⟨m, m', hm, rfl, hv⟩, hr⟩ := hs
  rw [← hm] at h hg
  have hr : s'.2 = s.2.meet (s.2.koaFile koa) (m.koas.removed koa) := by
    rw [hm]
    exact hr
  rw [koas_detach] at hv
  obtain rfl : s' = ({ s.1 with koas := m.koas.detach koa },
    s.2.meet (s.2.koaFile koa) (m.koas.removed koa)) := Prod.ext hv hr
  refine hg _ (h.detach hk ho) ?_
  cases m.koas.removed koa <;> rfl

/-- a system call that leaves the files of the descriptors alone -/
theorem wp_sysQuiet {β : Type} {i : Instr n N (Except Errno β)}
    {sys : Kernel → Except Errno β × Kernel} {g : Except Errno β → XProg n N α} (hsys : ∀ k, (sys k).2.fileOf = k.fileOf)
    (hi : ∀ b s', keyedStep T i b s s' → (b, s'.1) = s.1.syscall sys ∧ s'.2 = s.2)
    (hg : ∀ b k faults, k.fileOf = s.1.kernel.fileOf →
      wp (keyedStep T) (g b) Q ({ s.1 with kernel := k, faults := faults }, s.2)) :
    wp (keyedStep T) (op i g) Q s := by
  intro b s' hs
  obtain ⟨hb, hr⟩ := hi b s' hs
  unfold InodeView.syscall at hb
  split at hb
  · obtain ⟨-, hv⟩ := Prod.mk.inj hb
    obtain rfl : s' = ({ s.1 with faults := s.1.faults.tail }, s.2) := Prod.ext hv hr
    exact hg b s.1.kernel s.1.faults.tail rfl
  · obtain ⟨-, hv⟩ := Prod.mk.inj hb
    obtain rfl : s' = ({ s.1 with kernel := (sys s.1.kernel).2, faults := s.1.faults.tail }, s.2) :=
      Prod.ext hv hr
    exact hg b _ s.1.faults.tail (hsys _)

theorem wp_libcRename {old new : Path} {g : Except Errno Unit → XProg n N α}
    (hg : ∀ b k faults, k.fileOf = s.1.kernel.fileOf →
      wp (keyedStep T) (g b) Q ({ s.1 with kernel := k, faults := faults }, s.2)) :
    wp (keyedStep T) (op (.libcRename old new) g) Q s :=
  wp_sysQuiet (fun k => sysRename_fileOf k old new) (fun _ _ h => h) hg

theorem wp_libcLink {old new : Path} {g : Except Errno Unit → XProg n N α}
    (hg : ∀ b k faults, k.fileOf = s.1.kernel.fileOf →
      wp (keyedStep T) (g b) Q ({ s.1 with kernel := k, faults := faults }, s.2)) :
    wp (keyedStep T) (op (.libcLink old new) g) Q s :=
  wp_sysQuiet (fun k => sysLink_fileOf k old new) (fun _ _ h => h) hg

theorem wp_libcUnlink {path : Path} {g : Except Errno Unit → XProg n N α}
    (hg : ∀ b k faults, k.fileOf = s.1.kernel.fileOf →
      wp (keyedStep T) (g b) Q ({ s.1 with kernel := k, faults := faults }, s.2)) :
    wp (keyedStep T) (op (.libcUnlink path) g) Q s :=
  wp_sysQuiet (fun k => sysUnlink_fileOf k path) (fun _ _ h => h) hg

theorem wp_libcOpen {path : Path} {flags : OpenFlags} {g : Except Errno Nat → XProg n N α}
    (herr : ∀ e faults, wp (keyedStep T) (g (.error e)) Q ({ s.1 with faults := faults }, s.2))
    (hok : ∀ k faults, k.names path = some ((s.1.kernel.names path).getD s.1.file) →
      k.fileOf = Function.update s.1.kernel.fileOf s.1.fd
        (some ((s.1.kernel.names path).getD s.1.file)) →
      wp (keyedStep T) (g (.ok s.1.fd)) Q ({ s.1 with kernel := k, faults := faults }, s.2)) :
    wp (keyedStep T) (op (.libcOpen path flags) g) Q s := by
  intro b s' hs
  obtain ⟨hb, hr⟩ := hs
  change (b, s'.1) = s.1.syscall fun k => sysOpen k path flags s.1.file s.1.fd at hb
  unfold InodeView.syscall at hb
  split at hb
  · obtain ⟨rfl, hv⟩ := Prod.mk.inj hb
    obtain rfl : s' = ({ s.1 with faults := s.1.faults.tail }, s.2) := Prod.ext hv hr
    exact herr _ _
  · obtain ⟨hval, hv⟩ := Prod.mk.inj hb
    clear hb
    obtain rfl : s' = ({ s.1 with
      kernel := (sysOpen s.1.kernel path flags s.1.file s.1.fd).2
      faults := s.1.faults.tail }, s.2) := Prod.ext hv hr
    cases b with
    | error e =>
      rw [sysOpen_error hval.symm]
      exact herr e _
    | ok fildes =>
      obtain ⟨rfl, hname, hfiles⟩ := sysOpen_fileOf hval.symm
      exact hok _ _ hname hfiles

theorem wp_libcClose {g : Except Errno Unit → XProg n N α}
    (herr : ∀ e faults, wp (keyedStep T) (g (.error e)) Q ({ s.1 with faults := faults }, s.2))
    (hok : ∀ k faults, k.fileOf = Function.update s.1.kernel.fileOf fd none →
      wp (keyedStep T) (g (.ok ())) Q ({ s.1 with kernel := k, faults := faults }, s.2)) :
    wp (keyedStep T) (op (.libcClose fd) g) Q s := by
  intro b s' hs
  obtain ⟨hb, hr⟩ := hs
  change (b, s'.1) = s.1.syscall fun k => sysClose k fd at hb
  unfold InodeView.syscall at hb
  split at hb
  · obtain ⟨rfl, hv⟩ := Prod.mk.inj hb
    obtain rfl : s' = ({ s.1 with faults := s.1.faults.tail }, s.2) := Prod.ext hv hr
    exact herr _ _
  · obtain ⟨hval, hv⟩ := Prod.mk.inj hb
    clear hb
    obtain rfl : s' = ({ s.1 with
      kernel := (sysClose s.1.kernel fd).2, faults := s.1.faults.tail }, s.2) := Prod.ext hv hr
    cases b with
    | error e =>
      rw [sysClose_error hval.symm]
      exact herr e _
    | ok u => exact hok _ _ (sysClose_fileOf _ fd)

end

/-! ## the calls -/

section
variable {s : InodeView n N × Records N} {other : Fin N → Nat} {extra : List (Fin N)}
  {f : FileId}

theorem xClose_keys (fildes : Nat) (result : Option Nat) (h : KeyState other [] s) :
    wp (keyedStep T) (xClose fildes result : XProg n N Int) (KeyPost other) s := by
  simp only [xClose, call_bind]
  refine wp_getXactstate ?_
  cases s.1.xactstate with
  | retryable =>
    refine wp_hidden trivial fun _ => wp_lookupFd2koa ?_
    cases hkoa : s.1.koas.map fildes with
    | none => exact wp_hidden trivial fun _ => wp_finish_keys result _ _ h
    | some koa =>
      refine wp_hidden trivial fun _ => wp_hidden trivial fun xret => wp_hidden trivial fun _ => ?_
      split
      · exact h.abort .busysentinel
      · refine wp_allocArgs_keys (wp_registerCommitAction (wp_hidden trivial fun _ => ?_))
        exact wp_finish_keys result 0 0 (h.registerCommit _ _ (Or.inr rfl) trivial fun _ => rfl)
  | irrevocable | nontransactional =>
    refine wp_hidden trivial fun _ => wp_libcClose ?_ ?_
    · intro e faults
      exact wp_hidden trivial fun _ => wp_finish_keys result _ _ (h.withInv _ rfl h.inv)
    · intro k faults hfiles
      refine wp_lookupFd2koa ?_
      dsimp only
      cases hkoa : s.1.koas.map fildes with
      | none => trivial
      | some koa =>
        refine wp_detachFd_keys h.inv (fun _ => hkoa) fun b r hinv hr => ?_
        refine wp_hidden trivial fun _ => wp_finish_keys result 0 0 (h.withInv _ hr ?_)
        refine hinv.close fildes ?_ fun x hx => ?_
        · rw [Koas.detachFd_map, Function.update_self]
        · rw [hfiles, Function.update_of_ne hx]

theorem wp_openRegister_keys {fd : Nat} {koa : Fin N} {result : Option Nat}
    {p : Unit → XProg n N Int} (h : KeyState other [] s)
    (hp : ∀ s', KeyState other [] s' → wp (keyedStep T) (p ()) (KeyPost other) s') :
    wp (keyedStep T) (xOpenRegister fd koa result >>= p) (KeyPost other) s := by
  apply wp_bind
  simp only [xOpenRegister, allocArgs, call_bind, op_bind]
  refine wp_hidden trivial fun ok => ?_
  cases ok with
  | false => trivial
  | true => exact wp_registerUndoAction (hp _ (h.registerUndo trivial h.undos_le))

/-- the sentinel is busy: the descriptor that was opened is closed and detached again -/
theorem wp_openBusy_keys {fd : Nat} {koa : Fin N} (h : KeyState other [] s)
    (hmap : s.1.koas.map fd = some koa) :
    wp (keyedStep T) (op (.libcClose fd) fun _ => op (.detachFd koa fd false) fun _ =>
      op (.unlockFd fd) fun _ => op (.unlockFdsRefbyKoa koa) fun _ => op .unlockAliasCache fun _ =>
      .stop (.abort .busysentinel) : XProg n N Int) (KeyPost other) s := by
  have hrest : ∀ (k : Kernel) (faults : List (Option Errno)),
      (∀ x, x ≠ fd → k.fileOf x = s.1.kernel.fileOf x) →
      wp (keyedStep T) (op (.detachFd koa fd false) fun _ => op (.unlockFd fd) fun _ =>
        op (.unlockFdsRefbyKoa koa) fun _ => op .unlockAliasCache fun _ =>
        .stop (.abort .busysentinel) : XProg n N Int) (KeyPost other)
        ({ s.1 with kernel := k, faults := faults }, s.2) := by
    intro k faults hk
    refine wp_detachFd_keys h.inv (fun _ => hmap) fun b r hinv hundos => ?_
    refine wp_hidden trivial fun _ => wp_hidden trivial fun _ => wp_hidden trivial fun _ => ?_
    have h' : KeyState other []
        ({ s.1 with koas := s.1.koas.detachFd koa fd, kernel := k, faults := faults }, r) :=
      h.withInv faults hundos (hinv.close fd (by rw [Koas.detachFd_map, Function.update_self]) hk)
    exact h'.abort .busysentinel
  refine wp_libcClose ?_ ?_
  · intro e faults
    exact hrest s.1.kernel faults fun _ _ => rfl
  · intro k faults hk
    refine hrest k faults fun x hx => ?_
    rw [hk, Function.update_of_ne hx]

theorem xOpen_keys (pathname : Path) (flags : OpenFlags) (result : Option Nat)
    (h : KeyState other [] s)
    (ha : ∀ f ∈ s.1.touched (.open pathname flags), s.1.koas.Agrees s.2 f) :
    wp (keyedStep T) (xOpen pathname flags result : XProg n N Int) (KeyPost other) s := by
  simp only [InodeView.touched] at ha
  simp only [xOpen, call_bind]
  refine wp_getXactstate ?_
  cases hx : s.1.xactstate with
  | retryable =>
    rw [if_pos hx] at ha
    refine wp_hidden trivial fun _ => wp_path2inode ?_
    cases hname : s.1.kernel.names pathname with
    | none => exact wp_hidden trivial fun _ => wp_finish_keys result _ _ h
    | some f =>
      rw [hname] at ha
      have ha := ha f (List.mem_singleton.mpr rfl)
      rw [Option.elim_some, if_neg f.ino_ne]
      refine wp_libcOpen ?_ ?_
      · intro e faults
        exact wp_hidden trivial fun _ => wp_finish_keys result _ _ (h.withInv _ rfl h.inv)
      · intro k faults hname' hfiles
        rw [hname, Option.getD_some] at hname' hfiles
        refine wp_lookupInode_keys rfl h.inv ha fun r hinv hundos hkoaFile => ?_
        dsimp only
        cases hkoa : s.1.koas.aliasCache f.ino with
        | some koa =>
          obtain ⟨hof, hi⟩ := hinv.cached hkoa
          have hfile : r.koaFile koa = some f := by
            rw [hkoaFile]
            exact ha koa hof hi
          refine wp_hidden trivial fun _ => wp_hidden trivial fun _ => ?_
          refine wp_attachFd_keys hinv hof.1 hfile hfiles fun c r' hinv' hundos' hmap => ?_
          have h' := h.withInv faults (hundos'.trans hundos) hinv'
          refine wp_hidden trivial fun _ => wp_hidden trivial fun xret => ?_
          split
          · exact wp_openBusy_keys h' hmap
          · refine wp_openRegister_keys h' fun s' h' => ?_
            exact wp_hidden trivial fun _ => wp_hidden trivial fun _ => wp_finish_keys result _ 0 h'
        | none =>
          refine wp_createKoa_keys rfl hinv (ha.records hkoaFile)
            fun koa c r₂ hinv₂ hundos₂ hfile hlive _ => ?_
          refine wp_hidden trivial fun _ => wp_attachFd_keys hinv₂ hlive hfile hfiles
            fun c₃ r₃ hinv₃ hundos₃ _ => ?_
          refine wp_acquireNew_keys (fun _ => trivial) (wp_openRegister_keys
            (h.withInv _ (hundos₃.trans (hundos₂.trans hundos)) hinv₃) fun s' h' => ?_)
          exact wp_hidden trivial fun _ => wp_hidden trivial fun _ => wp_finish_keys result _ 0 h'
  | irrevocable | nontransactional =>
    rw [if_neg (by rw [hx]; intro hc; cases hc)] at ha
    have ha := ha _ (List.mem_singleton.mpr rfl)
    refine wp_hidden trivial fun _ => wp_libcOpen ?_ ?_
    · intro e faults
      exact wp_hidden trivial fun _ => wp_finish_keys result _ _ (h.withInv _ rfl h.inv)
    · intro k faults hname hfiles
      generalize hf : (s.1.kernel.names pathname).getD s.1.file = f at ha hname hfiles
      refine wp_path2inode ?_
      dsimp only
      rw [hname]
      refine wp_koaOfInode_keys rfl h.inv ha fun koa c r hinv hundos hfile hlive => ?_
      refine wp_hidden trivial fun _ => wp_attachFd_keys hinv hlive hfile hfiles
        fun c₂ r₂ hinv₂ hundos₂ _ => ?_
      refine wp_hidden trivial fun _ => wp_hidden trivial fun _ => wp_hidden trivial fun _ => ?_
      exact wp_finish_keys result _ 0 (h.withInv _ (hundos₂.trans hundos) hinv₂)

/-- what follows the `open` of `x_create`, up to the new KOA -/
theorem wp_created_keys {fd : Nat} {pathname : Path} {files : Nat → Option FileId}
    {refs : Fin N → Nat} {p : Fin N → XProg n N Int} (h : FileInv s.1.koas s.2 files refs)
    (ha : s.1.koas.Agrees s.2 f) (hname : s.1.kernel.names pathname = some f)
    (hfiles : s.1.kernel.fileOf = Function.update files fd (some f))
    (hp : ∀ koa c r, FileInv c r s.1.kernel.fileOf refs → r.undos = s.2.undos →
      wp (keyedStep T) (p koa) (KeyPost other) ({ s.1 with koas := c }, r)) :
    wp (keyedStep T) (op (.path2inode pathname) fun inode => op (.createKoa inode) fun koa =>
      op (.lockFd fd) fun _ => op (.attachFd koa fd false) fun _ => p koa) (KeyPost other) s := by
  refine wp_path2inode ?_
  rw [hname]
  refine wp_createKoa_keys rfl h ha fun koa c r hinv hundos hfile hlive _ => ?_
  refine wp_hidden trivial fun _ => wp_attachFd_keys hinv hlive hfile hfiles
    fun c' r' hinv' hundos' _ => ?_
  exact hp koa c' r' hinv' (hundos'.trans hundos)

theorem xCreateCase1_keys (pathname : Path) (result : Option Nat) (h : KeyState other [] s)
    (hnone : s.1.kernel.names pathname = none) (ha : s.1.koas.Agrees s.2 s.1.file) :
    wp (keyedStep T) (xCreateCase1 pathname result : XProg n N Int) (KeyPost other) s := by
  simp only [xCreateCase1, call_bind]
  refine wp_libcOpen ?_ ?_
  · intro e faults
    exact wp_hidden trivial fun _ => wp_finish_keys result _ _ (h.withInv _ rfl h.inv)
  · intro k faults hname hfiles
    rw [hnone, Option.getD_none] at hname hfiles
    refine wp_created_keys h.inv ha hname hfiles fun koa c r hinv hundos => ?_
    have h' := h.withInv faults hundos hinv
    refine wp_acquireNew_keys (fun _ => trivial) (wp_allocArgs_keys (wp_registerUndoAction ?_))
    refine wp_hidden trivial fun _ => wp_hidden trivial fun _ => wp_finish_keys result _ 0 ?_
    exact h'.registerUndo trivial h'.undos_le

theorem wp_createIsolate_keys {inode : Inode} {p : Unit → XProg n N Int}
    (hi : inode = ⟨f.ino, some f⟩) (h : KeyState other [] s) (ha : s.1.koas.Agrees s.2 f)
    (hp : ∀ r, KeyState other [] (s.1, r) → r.koaFile = s.2.koaFile →
      wp (keyedStep T) (p ()) (KeyPost other) (s.1, r)) :
    wp (keyedStep T) (xCreateIsolate inode >>= p) (KeyPost other) s := by
  apply wp_bind
  simp only [xCreateIsolate, call_bind]
  refine wp_lookupInode_keys hi h.inv ha fun r hinv hundos hkoaFile => ?_
  have h' : KeyState other [] (s.1, r) := h.withInv _ hundos hinv
  cases s.1.koas.aliasCache f.ino with
  | none => exact hp r h' hkoaFile
  | some koaOld =>
    simp only [xCreateCase2a, call_bind]
    refine wp_hidden trivial fun _ => wp_hidden trivial fun _ => wp_hidden trivial fun xret => ?_
    split
    · exact wp_hidden trivial fun _ => wp_hidden trivial fun _ => h'
    · exact wp_hidden trivial fun _ => hp r h' hkoaFile

theorem xCreateCase2_keys (pathname : Path) (result : Option Nat) (h : KeyState other [] s)
    (hx : s.1.xactstate = .retryable) (ha : s.1.koas.Agrees s.2 f)
    (ha' : s.1.koas.Agrees s.2 (s.1.created pathname)) :
    wp (keyedStep T) (xCreateCase2 pathname ⟨f.ino, some f⟩ result : XProg n N Int)
      (KeyPost other) s := by
  unfold xCreateCase2
  refine wp_createIsolate_keys rfl h ha fun r h hkoaFile => ?_
  have ha' : s.1.koas.Agrees r (s.1.created pathname) := ha'.records hkoaFile
  simp only [call_bind]
  refine wp_mktemp ?_
  intro renamed s₁ h₁
  obtain ⟨h₁, hr⟩ := h₁
  obtain ⟨k, hv, hfiles, hcreated⟩ := InodeView.renamed_created (v := s.1) hx h₁
  obtain rfl : s₁ = ({ s.1 with kernel := k, faults := s.1.faults.tail }, r) := Prod.ext hv hr
  have hinv : FileInv s.1.koas r k.fileOf _ := hfiles ▸ h.inv
  refine wp_libcOpen ?_ ?_
  · intro e faults
    refine wp_libcRename fun b k' faults' hk' => wp_hidden trivial fun _ => ?_
    refine wp_finish_keys result _ e (h.withInv _ rfl ?_)
    rw [hk']
    exact hinv
  · intro k' faults hname hfiles'
    rw [hcreated] at hname hfiles'
    refine wp_created_keys hinv ha' hname hfiles' fun koa c r' hinv' hundos => ?_
    have h' := h.withInv faults hundos hinv'
    refine wp_acquireNew_keys (fun _ => trivial) (wp_allocArgs_keys ?_)
    refine wp_registerCommitAction (wp_registerUndoAction ?_)
    refine wp_hidden trivial fun _ => wp_hidden trivial fun _ => wp_finish_keys result _ 0 ?_
    have h'' : KeyState other [] _ :=
      h'.registerCommit (.createCase2Commit ⟨s.1.fd, koa, s.1.temp, pathname⟩) 0 (Or.inl rfl)
        trivial fun _ => rfl
    exact h''.registerUndo trivial h''.undos_le

theorem xCreate_keys (pathname : Path) (result : Option Nat) (h : KeyState other [] s)
    (ha : ∀ f ∈ s.1.touched (.create pathname), s.1.koas.Agrees s.2 f) :
    wp (keyedStep T) (xCreate pathname result : XProg n N Int) (KeyPost other) s := by
  simp only [InodeView.touched] at ha
  simp only [xCreate, call_bind]
  refine wp_getXactstate ?_
  cases hx : s.1.xactstate with
  | retryable =>
    rw [if_pos hx] at ha
    have hcreated := ha _ (List.mem_append_right _ (List.mem_singleton.mpr rfl))
    refine wp_hidden trivial fun _ => wp_path2inode ?_
    cases hname : s.1.kernel.names pathname with
    | none =>
      rw [InodeView.created_of_none hname] at hcreated
      exact xCreateCase1_keys pathname result h hname hcreated
    | some f =>
      rw [Option.elim_some, if_neg f.ino_ne]
      refine xCreateCase2_keys pathname result h hx (ha f ?_) hcreated
      rw [hname]
      exact List.mem_append_left _ (List.mem_singleton.mpr rfl)
  | irrevocable | nontransactional =>
    rw [if_neg (by rw [hx]; intro hc; cases hc)] at ha
    have ha := ha _ (List.mem_singleton.mpr rfl)
    rw [InodeView.created_outside (by rw [hx]; intro hc; cases hc)] at ha
    refine wp_hidden trivial fun _ => wp_libcOpen ?_ ?_
    · intro e faults
      exact wp_finish_keys result _ e (h.withInv _ rfl h.inv)
    · intro k faults hname hfiles
      refine wp_created_keys h.inv ha hname hfiles fun koa c r hinv hundos => ?_
      refine wp_hidden trivial fun _ => wp_hidden trivial fun _ => wp_hidden trivial fun _ => ?_
      exact wp_finish_keys result _ 0 (h.withInv _ hundos hinv)

/-- the KOA of a path with one more reference -/
theorem wp_attachPath_keys {α : Type} {Q : Except Stop α → InodeView n N × Records N → Prop}
    {flags : UInt32} {p : Fin N → XProg n N α}
    (hQ : ∀ e s, KeyPost other (.error e : Except Stop α) s → Q (.error e) s)
    (h : KeyState other extra s) (ha : s.1.koas.Agrees s.2 f)
    (hp : ∀ koa c r, KeyState other (koa :: extra) ({ s.1 with koas := c }, r) →
      r.undos = s.2.undos →
      (∀ g, s.1.koas.Agrees s.2 g → (g.ino = f.ino → g = f) → c.Agrees r g) →
      wp (keyedStep T) (p koa) Q ({ s.1 with koas := c }, r)) :
    wp (keyedStep T) (attachPath ⟨f.ino, some f⟩ flags >>= p) Q s := by
  -- the references with the new one
  have hrefs : ∀ koa x, (Function.update
      (fun k => other k + (koasOf s.1.commits).count k + extra.count k) koa
      (other koa + (koasOf s.1.commits).count koa + extra.count koa + 1)) x
      = other x + (koasOf s.1.commits).count x + (koa :: extra).count x := by
    intro koa x
    rw [Function.update_apply, count_cons_if]
    split
    · rename_i hx
      rw [hx]
      omega
    · omega
  apply wp_bind
  simp only [attachPath, call_bind]
  refine wp_lookupInode_keys rfl h.inv ha fun r hinv hundos hkoaFile => ?_
  cases hkoa : s.1.koas.aliasCache f.ino with
  | some koa =>
    obtain ⟨hof, -⟩ := hinv.cached hkoa
    refine wp_hidden trivial fun _ => wp_attachKoa_keys hinv hof.1 fun c hinv' hsame => ?_
    have h' : KeyState other (koa :: extra) ({ s.1 with koas := c }, r) :=
      h.withInv _ hundos (hinv'.weaken fun x => (hrefs koa x).ge)
    refine wp_hidden trivial fun _ => wp_hidden trivial fun xret => ?_
    split
    · -- busy: the reference is dropped
      refine wp_detachKoa_keys
        (fun k => other k + (koasOf s.1.commits).count k + extra.count k) h'.inv ?_ ?_
        fun r₂ hinv₂ hundos₂ => ?_
      · rw [count_cons_if, if_pos rfl]
        show other koa + (koasOf s.1.commits).count koa + (1 + extra.count koa) = _
        omega
      · intro x hx
        rw [List.count_cons_of_ne (Ne.symm hx)]
      · refine wp_hidden trivial fun _ => wp_hidden trivial fun _ => hQ _ _ ?_
        exact (h.withInv _ (hundos₂.trans hundos) hinv₂).abort .busysentinel
    · refine wp_hidden trivial fun _ => hp koa c r h' hundos fun g hg hgf => ?_
      exact hg.same hsame hkoaFile
  | none =>
    refine wp_createKoa_keys rfl hinv (ha.records hkoaFile)
      fun koa c r₂ hinv₂ hundos₂ hfile hlive hkeep => ?_
    refine wp_attachKoa_keys hinv₂ hlive fun c₃ hinv₃ hsame => ?_
    have h' : KeyState other (koa :: extra) ({ s.1 with koas := c₃ }, r₂) :=
      h.withInv _ (hundos₂.trans hundos) (hinv₃.weaken fun x => (hrefs koa x).ge)
    refine wp_acquireNew_keys (fun s => hQ .internalError s trivial)
      (hp koa c₃ r₂ h' (hundos₂.trans hundos) fun g hg hgf => ?_)
    exact (hkeep g (hg.records hkoaFile) hgf).same hsame rfl

theorem xUnlink_keys (pathname : Path) (result : Option Nat) (h : KeyState other [] s)
    (ha : ∀ f ∈ s.1.touched (.unlink pathname), s.1.koas.Agrees s.2 f) :
    wp (keyedStep T) (xUnlink pathname result : XProg n N Int) (KeyPost other) s := by
  simp only [InodeView.touched] at ha
  simp only [xUnlink, call_bind]
  refine wp_getXactstate ?_
  cases hx : s.1.xactstate with
  | retryable =>
    rw [if_pos hx] at ha
    refine wp_hidden trivial fun _ => wp_path2inode ?_
    cases hname : s.1.kernel.names pathname with
    | none => exact wp_hidden trivial fun _ => wp_finish_keys result _ _ h
    | some f =>
      rw [hname] at ha
      rw [Option.elim_some, if_neg f.ino_ne]
      refine wp_attachPath_keys (fun _ _ he => he) h (ha f (List.mem_singleton.mpr rfl))
        fun koa c r h' _ _ => ?_
      refine wp_allocArgs_keys (wp_registerCommitAction (wp_hidden trivial fun _ => ?_))
      refine wp_finish_keys result 0 0 (h'.registerCommit _ _ (Or.inr rfl) trivial fun _ => ?_)
      exact (Nat.add_zero _).symm
  | irrevocable | nontransactional =>
    refine wp_libcUnlink fun b k faults hk => ?_
    refine wp_finish_keys result 0 _ (h.withInv _ rfl ?_)
    rw [hk]
    exact h.inv

/-- both actions of `x_rename` drop the references to the KOAs of the two paths -/
theorem wp_renameRegister_keys {args : RenameArgs N} {result : Option Nat} (koas : List (Fin N))
    (h : KeyState other koas s)
    (hk : ∀ k, koas.count k = (XAction.renameCommit args).koas.count k) :
    wp (keyedStep T) (allocArgs renameArgsSize >>= fun _ =>
      op (.registerCommitAction (.renameCommit args) result regularActionOrder) fun _ =>
      op (.registerUndoAction (.renameUndo args) result regularActionOrder) fun _ =>
      op .unlockAliasCache fun _ => finish result 0 0 : XProg n N Int) (KeyPost other) s := by
  refine wp_allocArgs_keys (wp_registerCommitAction (wp_registerUndoAction ?_))
  refine wp_hidden trivial fun _ => wp_finish_keys result 0 0 ?_
  have h' : KeyState other []
      ({ s.1 with commits := s.1.commits ++ [(.renameCommit args, 0)] }, s.2) :=
    h.registerCommit (.renameCommit args) 0 (Or.inl rfl) trivial hk
  refine h'.registerUndo trivial fun k => ?_
  show _ ≤ (koasOf (s.1.commits ++ [(XAction.renameCommit args, 0)])).count k
  rw [koasOf_snoc, List.count_append]
  exact Nat.add_le_add_right (h.undos_le k) _

theorem xRename_keys (oldpath newpath : Path) (result : Option Nat) (h : KeyState other [] s)
    (ha : ∀ f ∈ s.1.touched (.rename oldpath newpath), s.1.koas.Agrees s.2 f)
    (hd : (s.1.touched (.rename oldpath newpath)).Pairwise fun f g => g.ino = f.ino → g = f) :
    wp (keyedStep T) (xRename oldpath newpath result : XProg n N Int) (KeyPost other) s := by
  simp only [InodeView.touched] at ha hd
  simp only [xRename, call_bind]
  refine wp_getXactstate ?_
  cases hx : s.1.xactstate with
  | retryable =>
    rw [if_pos hx] at ha hd
    refine wp_hidden trivial fun _ => wp_path2inode ?_
    cases hold : s.1.kernel.names oldpath with
    | none => exact wp_hidden trivial fun _ => wp_finish_keys result _ _ h
    | some f =>
      rw [hold, Option.toList_some, List.flatMap_singleton] at ha hd
      rw [Option.elim_some, if_neg f.ino_ne]
      refine wp_attachPath_keys (fun _ _ he => he) h (ha f List.mem_cons_self)
        fun oldKoa c r h₁ hundos hkeep => ?_
      refine wp_path2inode ?_
      apply wp_bind
      unfold xRenameAside
      dsimp only
      cases hnew : s.1.kernel.names newpath with
      | none =>
        refine wp_libcLink fun b k faults hk => ?_
        refine wp_renameRegister_keys [oldKoa] (h₁.withInv _ rfl ?_) fun _ => rfl
        rw [hk]
        exact h₁.inv
      | some g =>
        rw [hnew] at ha hd
        have hg : c.Agrees r g := by
          refine hkeep g (ha g (List.mem_cons_of_mem f (List.mem_singleton.mpr rfl))) ?_
          exact (List.pairwise_cons.mp hd).1 g (List.mem_singleton.mpr rfl)
        rw [Option.elim_some, if_neg g.ino_ne]
        refine wp_attachPath_keys ?_ h₁ hg fun newKoa c₂ r₂ h₂ hundos₂ _ => ?_
        · intro e s he
          cases e with
          | abort reason => exact he
          | internalError => trivial
        refine wp_mktemp ?_
        refine wp_libcRename fun b k faults hk => ?_
        refine wp_libcLink fun b' k' faults' hk' => ?_
        refine wp_renameRegister_keys [newKoa, oldKoa] (h₂.withInv _ rfl ?_) fun x => ?_
        · rw [hk', hk]
          exact h₂.inv
        · exact (List.Perm.swap oldKoa newKoa []).count_eq x
  | irrevocable | nontransactional =>
    refine wp_libcRename fun b k faults hk => ?_
    refine wp_finish_keys result 0 _ (h.withInv _ rfl ?_)
    rw [hk]
    exact h.inv

end

/-! ## the actions -/

def XAction.dropped (c : Koas n N) (a : XAction N) : Koas n N :=
  a.fds.foldl (fun c x => c.detachFd x.2 x.1) (a.koas.foldl Koas.detach c)

def Dropped (refs : Fin N → Nat) (c : Koas n N) (s : InodeView n N × Records N) : Prop :=
  FileInv s.1.koas s.2 s.1.kernel.fileOf refs ∧ s.1.koas = c

section
variable {s : InodeView n N × Records N} {refs : Fin N → Nat} {fd : Nat} {koa : Fin N}

theorem wp_hiddenTail {c : Koas n N} {p : XProg n N Int} (hp : All (fun _ => Instr.Hidden) p)
    (h : Dropped refs c s) : wp (keyedStep T) p (fun _ s' => Dropped refs c s') s := by
  refine wp_all (J := Dropped refs c) (fun i b s s' hi hs h => ?_) hp h
  rw [keyedStep_hidden hi hs]
  exact h

theorem wp_detachClose {lock : Bool} {p : Except Errno Unit → XProg n N Int}
    (h : FileInv s.1.koas s.2 s.1.kernel.fileOf refs)
    (hfd : s.1.koas.Lists koa fd → s.1.koas.map fd = some koa)
    (hp : ∀ b, All (fun _ => Instr.Hidden) (p b)) :
    wp (keyedStep T) (op (.detachFd koa fd lock) fun _ => op (.libcClose fd) p)
      (fun _ s' => Dropped refs (s.1.koas.detachFd koa fd) s') s := by
  refine wp_detachFd_keys h hfd fun b r hinv hundos => ?_
  refine wp_libcClose ?_ ?_
  · intro e faults
    exact wp_hiddenTail (hp (.error e)) ⟨hinv, rfl⟩
  · intro k faults hk
    refine wp_hiddenTail (hp (.ok ())) ⟨hinv.close fd ?_ fun x hx => ?_, rfl⟩
    · rw [Koas.detachFd_map, Function.update_self]
    · show k.fileOf x = _
      rw [hk, Function.update_of_ne hx]

theorem closeCommit_keys (h : FileInv s.1.koas s.2 s.1.kernel.fileOf refs)
    (hfd : s.1.koas.Lists koa fd → s.1.koas.map fd = some koa) :
    wp (keyedStep T) (xCloseCommit fd koa : XProg n N Int)
      (fun _ s' => Dropped refs (s.1.koas.detachFd koa fd) s') s := by
  simp only [xCloseCommit, call_bind]
  refine wp_hidden trivial fun _ => wp_hidden trivial fun _ => ?_
  refine wp_detachFd_keys h hfd fun b r hinv hundos => ?_
  cases b with
  | true =>
    refine wp_libcClose ?_ ?_
    · intro e faults
      exact wp_hidden trivial fun _ => wp_hidden trivial fun _ => ⟨hinv, rfl⟩
    · intro k faults hk
      refine wp_hidden trivial fun _ => wp_hidden trivial fun _ => ?_
      refine ⟨hinv.close fd ?_ fun x hx => ?_, rfl⟩
      · rw [Koas.detachFd_map, Function.update_self]
      · show k.fileOf x = _
        rw [hk, Function.update_of_ne hx]
  | false => exact wp_hidden trivial fun _ => wp_hidden trivial fun _ => ⟨hinv, rfl⟩

/-- what both actions of `x_rename` begin with -/
theorem wp_renameDetach_keys {args : RenameArgs N} {p : Unit → XProg n N Int}
    (h : FileInv s.1.koas s.2 s.1.kernel.fileOf
      fun k => refs k + (XAction.renameCommit args).koas.count k)
    (hp : ∀ r, FileInv ((XAction.renameCommit args).dropped s.1.koas) r s.1.kernel.fileOf refs →
      wp (keyedStep T) (p ()) (fun _ s' =>
        Dropped refs ((XAction.renameCommit args).dropped s.1.koas) s')
        ({ s.1 with koas := (XAction.renameCommit args).dropped s.1.koas }, r)) :
    wp (keyedStep T) (xRenameDetach args >>= p) (fun _ s' =>
      Dropped refs ((XAction.renameCommit args).dropped s.1.koas) s') s := by
  obtain ⟨koa, newpathKoa, oldpath, newpath⟩ := args
  apply wp_bind
  simp only [xRenameDetach, call_bind]
  refine wp_hidden trivial fun _ => wp_hidden trivial fun _ => ?_
  cases newpathKoa with
  | none =>
    refine wp_detachKoa_keys refs h ?_ (fun x hx => ?_) fun r hinv _ => hp r hinv
    · simp [XAction.koas]
    · simp [XAction.koas, List.count_cons_of_ne (Ne.symm hx)]
  | some x =>
    obtain ⟨koa', temp⟩ := x
    refine wp_hidden trivial fun _ => ?_
    refine wp_detachKoa_keys (fun k => refs k + [koa'].count k) h ?_ (fun x hx => ?_)
      fun r hinv _ => ?_
    · simp [XAction.koas, List.count_cons]
      omega
    · simp [XAction.koas, List.count_cons_of_ne (Ne.symm hx)]
    · refine wp_detachKoa_keys refs hinv ?_ (fun x hx => ?_) fun r' hinv' _ => hp r' hinv'
      · simp
      · simp [List.count_cons_of_ne (Ne.symm hx)]

theorem renameUnlock_hidden (args : RenameArgs N) {p : Unit → XProg n N Int}
    (hp : All (fun _ => Instr.Hidden) (p ())) :
    All (fun _ => Instr.Hidden) (xRenameUnlock args >>= p) := by
  obtain ⟨koa, newpathKoa, oldpath, newpath⟩ := args
  cases newpathKoa with
  | none => exact ⟨trivial, fun _ => ⟨trivial, fun _ => hp⟩⟩
  | some x => exact ⟨trivial, fun _ => ⟨trivial, fun _ => ⟨trivial, fun _ => hp⟩⟩⟩

theorem renameCommit_keys (args : RenameArgs N)
    (h : FileInv s.1.koas s.2 s.1.kernel.fileOf
      fun k => refs k + (XAction.renameCommit args).koas.count k) :
    wp (keyedStep T) (xRenameCommit args : XProg n N Int) (fun _ s' =>
      Dropped refs ((XAction.renameCommit args).dropped s.1.koas) s') s := by
  unfold xRenameCommit
  refine wp_renameDetach_keys h fun r hinv => ?_
  simp only [call_bind]
  refine wp_libcUnlink fun b k faults hk => ?_
  exact wp_hiddenTail (renameUnlock_hidden args trivial) ⟨by rw [hk]; exact hinv, rfl⟩

theorem renameUndo_keys (args : RenameArgs N)
    (h : FileInv s.1.koas s.2 s.1.kernel.fileOf
      fun k => refs k + (XAction.renameCommit args).koas.count k) :
    wp (keyedStep T) (xRenameUndo args : XProg n N Int) (fun _ s' =>
      Dropped refs ((XAction.renameCommit args).dropped s.1.koas) s') s := by
  unfold xRenameUndo
  refine wp_renameDetach_keys h fun r hinv => ?_
  simp only [call_bind]
  refine wp_libcUnlink fun b k faults hk => ?_
  rw [← hk] at hinv
  cases args.newpathKoa with
  | none => exact wp_hiddenTail (renameUnlock_hidden args trivial) ⟨hinv, rfl⟩
  | some x =>
    obtain ⟨koa', temp⟩ := x
    refine wp_libcRename fun b' k' faults' hk' => ?_
    rw [← hk'] at hinv
    cases b' with
    | error e => exact wp_hiddenTail (renameUnlock_hidden args trivial) ⟨hinv, rfl⟩
    | ok _ => exact wp_hiddenTail (renameUnlock_hidden args trivial) ⟨hinv, rfl⟩

/-- an action of these calls, if each descriptor that it finds is mapped to its KOA -/
theorem action_keys {a : XAction N} (ha : a.OnFile)
    (h : FileInv s.1.koas s.2 s.1.kernel.fileOf fun k => refs k + a.koas.count k)
    (hfd : ∀ x ∈ a.fds, s.1.koas.Lists x.2 x.1 → s.1.koas.map x.1 = some x.2) :
    wp (keyedStep T) (a.prog : XProg n N Int)
      (fun _ s' => Dropped refs (a.dropped s.1.koas) s') s := by
  cases a with
  | openUndo fd koa =>
    have hfd := hfd (fd, koa) (List.mem_singleton.mpr rfl)
    simp only [XAction.prog, xOpenUndo, call_bind]
    refine wp_hidden trivial fun _ => wp_hidden trivial fun _ => wp_detachClose h hfd fun b => ?_
    exact ⟨trivial, fun _ => ⟨trivial, fun _ => trivial⟩⟩
  | closeCommit fd koa => exact closeCommit_keys h (hfd (fd, koa) (List.mem_singleton.mpr rfl))
  | createCase1Undo fd koa pathname =>
    have hfd := hfd (fd, koa) (List.mem_singleton.mpr rfl)
    simp only [XAction.prog, xCreateCase1Undo, call_bind]
    refine wp_hidden trivial fun _ => wp_libcUnlink fun unlinked k faults hk => ?_
    refine wp_detachClose (by rw [hk]; exact h) hfd fun b => ⟨trivial, fun _ => ?_⟩
    cases unlinked with
    | error e => trivial
    | ok _ => trivial
  | createCase2Commit args =>
    simp only [XAction.prog, xCreateCase2Commit, call_bind]
    refine wp_libcUnlink fun b k faults hk => ⟨?_, rfl⟩
    rw [hk]
    exact h
  | createCase2Undo args =>
    have hfd := hfd (args.fd, args.koa) (List.mem_singleton.mpr rfl)
    simp only [XAction.prog, xCreateCase2Undo, call_bind]
    refine wp_hidden trivial fun _ => wp_libcUnlink fun unlinked k faults hk => ?_
    refine wp_libcRename fun renamed k' faults' hk' => ?_
    refine wp_detachClose (by rw [hk', hk]; exact h) hfd fun b => ⟨trivial, fun _ => ?_⟩
    cases unlinked with
    | error e => trivial
    | ok _ =>
      cases renamed with
      | error e => trivial
      | ok _ => trivial
  | renameCommit args => exact renameCommit_keys args h
  | renameUndo args => exact renameUndo_keys args h
  | unlinkCommit koa pathname =>
    simp only [XAction.prog, xUnlinkCommit, call_bind]
    refine wp_hidden trivial fun _ => wp_hidden trivial fun _ => ?_
    refine wp_detachKoa_keys refs h ?_ (fun x hx => ?_) fun r hinv _ => ?_
    · simp [XAction.koas]
    · simp [XAction.koas, List.count_cons_of_ne (Ne.symm hx)]
    · refine wp_libcUnlink fun b k faults hk => ?_
      refine wp_hidden trivial fun _ => wp_hidden trivial fun _ => ⟨?_, rfl⟩
      rw [hk]
      exact hinv
  | _ => exact ha.elim

end

end XCalls
