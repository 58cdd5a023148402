import XCalls.XCall.InodeKoas

/-!
# One file, one KOA: the calls

Calls of `x_open`, `x_create`, `x_dup` and `x_close`, outside transactions, in irrevocable ones and
in retryable ones.

* `OneState`       between two calls: `OneInv`, and the commit actions are ones of these calls;
* `xOpen_one`, `xDup_one`, `xClose_one`   a call that succeeds keeps it;
* `xCreate_one`    so does `x_create`, if the inode of `InodeView.created` has no KOA.
-/

set_option linter.unusedSectionVars false

namespace XCalls
open Prog
variable {T : Type} [DecidableEq T] {n N : Nat}

/-! ## the calls -/

def XAction.OnFd : XAction N → Prop
  | .closeCommit _ _ => True
  | .createCase2Commit _ => True
  | _ => False

structure OneState (dev : Nat) (v : InodeView n N) : Prop where
  inv : OneInv dev v.koas v.kernel.fileOf
  commits : ∀ x ∈ v.commits, (x.2 = 0 ∨ x.2 = 1) ∧ x.1.OnFd

def OnePost (dev : Nat) : Except Stop Int → InodeView n N → Prop
  | .ok r, v => r ≠ -1 → OneState dev v
  | .error _, _ => True

section
variable {v v' : InodeView n N} {dev : Nat}

theorem OneState.register {a : XAction N} {order : Int32} (h : OneState dev v)
    (ho : order = 0 ∨ order = 1) (ha : a.OnFd) :
    OneState dev { v with commits := v.commits ++ [(a, order)] } := by
  refine ⟨h.inv, fun x hx => ?_⟩
  rcases List.mem_append.mp hx with hx | hx
  · exact h.commits x hx
  · rw [List.mem_singleton.mp hx]
    exact ⟨ho, ha⟩

theorem InodeView.syscall_ok {β : Type} {a : β} {f : Kernel → Except Errno β × Kernel}
    (h : (.ok a, v') = v.syscall f) : v.faults.head?.join = none ∧ (f v.kernel).1 = .ok a ∧
      v' = { v with kernel := (f v.kernel).2, faults := v.faults.tail } := by
  unfold InodeView.syscall at h
  cases hf : v.faults.head?.join with
  | some e =>
    rw [hf] at h
    cases h
  | none =>
    rw [hf] at h
    obtain ⟨ha, hv⟩ := Prod.mk.inj h
    exact ⟨rfl, ha.symm, hv⟩

theorem wp_fails (result : Option Nat) (e : Errno) :
    wp (inodeStep T) (finish result (-1) e : XProg n N Int) (OnePost dev) v := by
  intro _ v₁ _ hne
  exact absurd rfl hne

theorem wp_succeeds (result : Option Nat) (r : Int) (e : Errno) (h : OneState dev v) :
    wp (inodeStep T) (finish result r e : XProg n N Int) (OnePost dev) v := by
  intro _ v₁ h₁
  obtain rfl : v₁ = v := h₁
  exact fun _ => h

variable {α : Type}

theorem wp_acquireNew_one {koa : Fin N} {f : Unit → XProg n N Int}
    (h : wp (inodeStep T) (f ()) (OnePost dev) v) :
    wp (inodeStep T) (acquireNew koa >>= f) (OnePost dev) v := by
  apply wp_bind
  simp only [acquireNew, call_bind]
  intro s v₁ h₁ xret v₂ h₂
  obtain rfl : v₁ = v := h₁
  obtain rfl : v₂ = v₁ := h₂
  dsimp only
  split
  · trivial
  · exact h

theorem wp_allocArgs_one {size : UInt32} {f : Unit → XProg n N Int}
    (h : wp (inodeStep T) (f ()) (OnePost dev) v) :
    wp (inodeStep T) (allocArgs size >>= f) (OnePost dev) v := by
  apply wp_bind
  simp only [allocArgs, call_bind]
  intro ok v₁ h₁
  obtain rfl : v₁ = v := h₁
  cases ok with
  | false => trivial
  | true => exact h

theorem xClose_one (fildes : Nat) (result : Option Nat) (h : OneState dev v) :
    wp (inodeStep T) (xClose fildes result : XProg n N Int) (OnePost dev) v := by
  simp only [xClose, call_bind]
  intro x v₁ h₁
  obtain ⟨rfl, rfl⟩ := h₁
  cases v₁.xactstate with
  | retryable =>
    intro _ v₂ h₂ koa v₃ h₃
    obtain rfl : v₂ = v₁ := h₂
    obtain ⟨hkoa, rfl⟩ := h₃
    cases koa with
    | none =>
      intro _ v₄ h₄
      exact wp_fails result _
    | some koa =>
      intro s v₄ h₄ xret v₅ h₅ _ v₆ h₆
      obtain rfl : v₄ = v₃ := h₄
      obtain rfl : v₅ = v₄ := h₅
      obtain rfl : v₆ = v₅ := h₆
      dsimp only
      split
      · trivial
      · refine wp_allocArgs_one ?_
        intro _ v₇ h₇ _ v₈ h₈
        obtain rfl : v₈ = v₇ := h₈
        obtain rfl := h₇
        exact wp_succeeds result 0 0 (h.register (Or.inr rfl) trivial)
  | irrevocable | nontransactional =>
    intro _ v₂ h₂ closed v₃ h₃
    obtain rfl : v₂ = v₁ := h₂
    cases closed with
    | error e =>
      intro _ v₄ h₄
      exact wp_fails result e
    | ok u =>
      obtain ⟨-, -, rfl⟩ := InodeView.syscall_ok h₃
      intro koa v₄ h₄
      obtain ⟨hkoa, rfl⟩ := h₄
      cases koa with
      | none => trivial
      | some koa =>
        intro b v₅ h₅ _ v₆ h₆
        obtain rfl : v₆ = v₅ := h₆
        obtain ⟨koas, rfl, hinv⟩ := detachFd_one h₅ (h.inv.close fildes) hkoa.symm
        rw [Function.update_idem, ← sysClose_fileOf] at hinv
        exact wp_succeeds result 0 0 ⟨hinv, h.commits⟩

theorem xDup_one (oldfd : Nat) (result : Option Nat) (h : OneState dev v) :
    wp (inodeStep T) (xDup oldfd result : XProg n N Int) (OnePost dev) v := by
  simp only [xDup, call_bind]
  intro x v₁ h₁
  obtain ⟨rfl, rfl⟩ := h₁
  cases v₁.xactstate with
  | retryable =>
    intro _ v₂ h₂ koa v₃ h₃
    obtain rfl : v₂ = v₁ := h₂
    obtain ⟨hkoa, rfl⟩ := h₃
    cases koa with
    | none => exact wp_fails result _
    | some koa =>
      intro _ v₄ h₄ _ v₅ h₅ koa2 v₆ h₆
      obtain rfl : v₄ = v₃ := h₄
      obtain rfl : v₅ = v₄ := h₅
      obtain ⟨-, rfl⟩ := h₆
      dsimp only
      split
      · exact wp_fails result _
      · intro s v₇ h₇ xret v₈ h₈
        obtain rfl : v₇ = v₆ := h₇
        obtain rfl : v₈ = v₇ := h₈
        dsimp only
        split
        · intro _ v₉ h₉
          trivial
        · intro dup v₉ h₉
          cases dup with
          | error e =>
            intro _ v₁₀ h₁₀
            exact wp_fails result e
          | ok fildes =>
            obtain ⟨-, hdup, rfl⟩ := InodeView.syscall_ok h₉
            obtain ⟨rfl, f, hf, hfiles⟩ := sysDup_fileOf hdup
            intro ok v₁₀ h₁₀
            obtain rfl := h₁₀
            cases ok with
            | false =>
              intro _ v₁₁ h₁₁ _ v₁₂ h₁₂
              exact wp_fails result _
            | true =>
              intro _ v₁₁ h₁₁ _ v₁₂ h₁₂ _ v₁₃ h₁₃
              obtain ⟨koas, rfl, hinv⟩ := attachFd_dup h₁₁ h.inv hkoa.symm hf
              obtain rfl := h₁₂
              obtain rfl := h₁₃
              rw [← hfiles] at hinv
              exact wp_succeeds result _ 0 ⟨hinv, h.commits⟩
  | irrevocable | nontransactional =>
    intro koa v₂ h₂
    obtain ⟨hkoa, rfl⟩ := h₂
    cases koa with
    | none => exact wp_fails result _
    | some koa =>
      intro dup v₃ h₃
      cases dup with
      | error e => exact fun hne => absurd rfl hne
      | ok fildes =>
        obtain ⟨-, hdup, rfl⟩ := InodeView.syscall_ok h₃
        obtain ⟨rfl, f, hf, hfiles⟩ := sysDup_fileOf hdup
        intro _ v₄ h₄ _ v₅ h₅ _ v₆ h₆ g v₇ h₇
        obtain rfl := h₄
        obtain ⟨koas, rfl, hinv⟩ := attachFd_dup h₅ h.inv hkoa.symm hf
        obtain rfl := h₆
        obtain rfl := h₇
        rw [← hfiles] at hinv
        exact wp_succeeds result _ g ⟨hinv, h.commits⟩

/-- a descriptor that was just opened is attached to a new KOA -/
theorem wp_newKoa {inode : Inode} {f : FileId} {files : Nat → Option FileId} {fd : Nat}
    {p : Fin N → XProg n N Int} (h : OneInv dev v.koas files) (hi : inode.num = f.ino)
    (hino : v.koas.aliasCache f.ino = none)
    (hp : ∀ koa koas, OneInv dev koas (Function.update files fd (some f)) →
      wp (inodeStep T) (p koa) (OnePost dev) { v with koas := koas }) :
    wp (inodeStep T) (do
      let koa ← call (.createKoa inode)
      call (.lockFd fd)
      call (.attachFd koa fd false)
      p koa) (OnePost dev) v := by
  intro koa v₁ h₁ _ v₂ h₂ _ v₃ h₃
  obtain ⟨koas, rfl, hinv, hnew⟩ := createKoa_one h₁ h (by rw [hi]; exact hino)
  obtain rfl := h₂
  rw [hi] at hnew
  obtain ⟨koas', rfl, hinv'⟩ := attachFd_new h₃ hinv hnew
  exact hp koa koas' hinv'

theorem wp_openRegister_one {fd : Nat} {koa : Fin N} {result : Option Nat}
    {p : Unit → XProg n N Int} (h : wp (inodeStep T) (p ()) (OnePost dev) v) :
    wp (inodeStep T) (xOpenRegister fd koa result >>= p) (OnePost dev) v := by
  apply wp_bind
  simp only [xOpenRegister, allocArgs, call_bind, op_bind]
  intro ok v₁ h₁
  obtain rfl : v₁ = v := h₁
  cases ok with
  | false => trivial
  | true =>
    intro _ v₂ h₂
    obtain rfl : v₂ = v₁ := h₂
    exact h

theorem elim_ino {o : Option FileId} {f : FileId} (h : o.elim 0 FileId.ino ≠ 0) :
    o.elim 0 FileId.ino = (o.getD f).ino := by
  cases o with
  | none => exact absurd rfl h
  | some g => rfl

theorem xOpen_one (pathname : Path) (flags : OpenFlags) (result : Option Nat)
    (h : OneState dev v) :
    wp (inodeStep T) (xOpen pathname flags result : XProg n N Int) (OnePost dev) v := by
  simp only [xOpen, call_bind]
  intro x v₁ h₁
  obtain ⟨rfl, rfl⟩ := h₁
  cases v₁.xactstate with
  | retryable =>
    intro _ v₂ h₂ inode v₃ h₃
    obtain rfl : v₂ = v₁ := h₂
    obtain ⟨rfl, rfl⟩ := h₃
    dsimp only
    split
    · intro _ v₄ h₄
      exact wp_fails result _
    · rename_i hnum
      have hino := elim_ino (f := v₃.file) hnum
      intro fildes v₄ h₄
      cases fildes with
      | error e =>
        intro _ v₅ h₅
        exact wp_fails result e
      | ok fildes =>
        obtain ⟨-, hopen, rfl⟩ := InodeView.syscall_ok h₄
        obtain ⟨rfl, -, hfiles⟩ := sysOpen_fileOf hopen
        intro koa v₅ h₅
        obtain ⟨hkoa, rfl⟩ := h₅
        have hkoa : v₃.koas.aliasCache (((v₃.kernel.names pathname).getD v₃.file).ino) = koa := by
          rw [← hino]
          exact hkoa.symm
        cases koa with
        | some koa =>
          intro _ v₆ h₆ _ v₇ h₇ _ v₈ h₈ s v₉ h₉ xret v₁₀ h₁₀
          obtain rfl := h₆
          obtain rfl := h₇
          obtain ⟨koas, rfl, hinv⟩ := attachFd_cached h₈ h.inv hkoa
          obtain rfl := h₉
          obtain rfl := h₁₀
          dsimp only
          split
          · intro _ v₁₁ _ _ v₁₂ _ _ v₁₃ _ _ v₁₄ _ _ v₁₅ _
            trivial
          · refine wp_openRegister_one ?_
            intro _ v₁₁ h₁₁ _ v₁₂ h₁₂
            obtain rfl := h₁₁
            obtain rfl := h₁₂
            rw [← hfiles] at hinv
            exact wp_succeeds result _ 0 ⟨hinv, h.commits⟩
        | none =>
          refine wp_newKoa h.inv hino hkoa fun koa koas hinv => ?_
          refine wp_acquireNew_one (wp_openRegister_one ?_)
          intro _ v₆ h₆ _ v₇ h₇
          obtain rfl := h₆
          obtain rfl := h₇
          rw [← hfiles] at hinv
          exact wp_succeeds result _ 0 ⟨hinv, h.commits⟩
  | irrevocable | nontransactional =>
    intro _ v₂ h₂ fildes v₃ h₃
    obtain rfl : v₂ = v₁ := h₂
    cases fildes with
    | error e =>
      intro _ v₄ h₄
      exact wp_fails result e
    | ok fildes =>
      obtain ⟨-, hopen, rfl⟩ := InodeView.syscall_ok h₃
      obtain ⟨rfl, hname, hfiles⟩ := sysOpen_fileOf hopen
      intro inode v₄ h₄
      obtain ⟨rfl, rfl⟩ := h₄
      have hino : Option.elim (some ((v₂.kernel.names pathname).getD v₂.file)) 0 FileId.ino
          = ((v₂.kernel.names pathname).getD v₂.file).ino := rfl
      rw [← hname] at hino
      apply wp_bind
      simp only [koaOfInode, call_bind]
      intro koa v₅ h₅
      obtain ⟨hkoa, rfl⟩ := h₅
      rw [hino] at hkoa
      cases koa with
      | some koa =>
        intro _ v₆ h₆ _ v₇ h₇ s v₈ h₈ _ v₉ h₉ _ v₁₀ h₁₀
        obtain rfl := h₆
        obtain ⟨koas, rfl, hinv⟩ := attachFd_cached h₇ h.inv hkoa.symm
        obtain rfl := h₈
        obtain rfl := h₉
        obtain rfl := h₁₀
        rw [← hfiles] at hinv
        exact wp_succeeds result _ 0 ⟨hinv, h.commits⟩
      | none =>
        intro koa v₆ h₆
        obtain ⟨koas, rfl, hinv, hnew⟩ := createKoa_one h₆ h.inv (by rw [hino]; exact hkoa.symm)
        rw [hino] at hnew
        intro _ v₇ h₇ _ v₈ h₈ s v₉ h₉ _ v₁₀ h₁₀ _ v₁₁ h₁₁
        obtain rfl := h₇
        obtain ⟨koas', rfl, hinv'⟩ := attachFd_new h₈ hinv hnew
        obtain rfl := h₉
        obtain rfl := h₁₀
        obtain rfl := h₁₁
        rw [← hfiles] at hinv'
        exact wp_succeeds result _ 0 ⟨hinv', h.commits⟩

/-! ### x_create -/

/-- the file that `x_create` opens: a retryable transaction first renames the one that has the
name -/
def InodeView.created (v : InodeView n N) (pathname : Path) : FileId :=
  let k := if v.xactstate = .retryable ∧ v.faults.head?.join = none then
      (sysRename v.kernel pathname v.temp).2
    else v.kernel
  (k.names pathname).getD v.file

/-- the kernel in which a retryable transaction opens the file -/
theorem InodeView.renamed_created {pathname : Path} {renamed : Except Errno Unit}
    (hx : v.xactstate = .retryable)
    (h : (renamed, v') = v.syscall fun k => sysRename k pathname v.temp) :
    ∃ k, v' = { v with kernel := k, faults := v.faults.tail } ∧ k.fileOf = v.kernel.fileOf ∧
      (k.names pathname).getD v.file = v.created pathname := by
  unfold created
  unfold syscall at h
  cases hf : v.faults.head?.join with
  | some e =>
    rw [hf] at h
    obtain rfl := congrArg Prod.snd h
    exact ⟨_, rfl, rfl, by simp⟩
  | none =>
    rw [hf] at h
    obtain rfl := congrArg Prod.snd h
    exact ⟨_, rfl, sysRename_fileOf _ _ _, by simp [hx]⟩

/-- what follows the `open` of `x_create`, up to the new KOA -/
theorem wp_created {fd : Nat} {f : FileId} {pathname : Path} {files : Nat → Option FileId}
    {p : Fin N → XProg n N Int} (h : OneInv dev v.koas files)
    (hname : v.kernel.names pathname = some f) (hino : v.koas.aliasCache f.ino = none)
    (hp : ∀ koa koas, OneInv dev koas (Function.update files fd (some f)) →
      wp (inodeStep T) (p koa) (OnePost dev) { v with koas := koas }) :
    wp (inodeStep T) (do
      let inode ← call (.path2inode pathname)
      let koa ← call (.createKoa inode)
      call (.lockFd fd)
      call (.attachFd koa fd false)
      p koa) (OnePost dev) v := by
  intro inode v₁ h₁
  obtain ⟨rfl, rfl⟩ := h₁
  refine wp_newKoa h ?_ hino hp
  rw [hname]
  rfl

theorem wp_createIsolate_one {inode : Inode} {f : Unit → XProg n N Int}
    (h : wp (inodeStep T) (f ()) (OnePost dev) v) :
    wp (inodeStep T) (xCreateIsolate inode >>= f) (OnePost dev) v := by
  apply wp_bind
  simp only [xCreateIsolate, call_bind]
  intro koaOld v₁ h₁
  obtain ⟨-, rfl⟩ := h₁
  cases koaOld with
  | none => exact h
  | some koaOld =>
    simp only [xCreateCase2a, call_bind]
    intro _ v₂ h₂ s v₃ h₃ xret v₄ h₄
    obtain rfl : v₂ = v₁ := h₂
    obtain rfl : v₃ = v₂ := h₃
    obtain rfl : v₄ = v₃ := h₄
    dsimp only
    split
    · intro _ v₅ _ _ v₆ _
      trivial
    · intro _ v₅ h₅
      obtain rfl : v₅ = v₄ := h₅
      exact h

/-- an existing file: it is renamed, or it is opened under its own name -/
theorem xCreateCase2_one (pathname : Path) (inode : Inode) (result : Option Nat)
    (h : OneState dev v) (hx : v.xactstate = .retryable)
    (hino : v.koas.aliasCache (v.created pathname).ino = none) :
    wp (inodeStep T) (xCreateCase2 pathname inode result : XProg n N Int) (OnePost dev) v := by
  unfold xCreateCase2
  refine wp_createIsolate_one ?_
  simp only [call_bind]
  intro temp v₁ h₁ renamed v₂ h₂
  obtain ⟨rfl, rfl⟩ := h₁
  obtain ⟨k, hv, hfiles, hcreated⟩ := InodeView.renamed_created hx h₂
  obtain rfl := hv
  intro fildes v₃ h₃
  cases fildes with
  | error e =>
    intro _ v₄ _ _ v₅ _
    exact wp_fails result e
  | ok fildes =>
    obtain ⟨-, hopen, rfl⟩ := InodeView.syscall_ok h₃
    obtain ⟨rfl, hname, hopened⟩ := sysOpen_fileOf hopen
    rw [hcreated] at hname hopened
    rw [hfiles] at hopened
    refine wp_created h.inv hname hino fun koa koas hinv => ?_
    rw [← hopened] at hinv
    refine wp_acquireNew_one (wp_allocArgs_one ?_)
    intro _ v₄ h₄ _ v₅ h₅ _ v₆ h₆ _ v₇ h₇
    obtain rfl := h₄
    obtain rfl := h₅
    obtain rfl := h₆
    obtain rfl := h₇
    refine wp_succeeds result _ 0 (OneState.register ⟨hinv, h.commits⟩ (Or.inl rfl) trivial)

theorem xCreateCase1_one (pathname : Path) (result : Option Nat) (h : OneState dev v)
    (hnone : v.kernel.names pathname = none)
    (hino : v.koas.aliasCache v.file.ino = none) :
    wp (inodeStep T) (xCreateCase1 pathname result : XProg n N Int) (OnePost dev) v := by
  simp only [xCreateCase1, call_bind]
  intro fildes v₁ h₁
  cases fildes with
  | error e =>
    intro _ v₂ _
    exact wp_fails result e
  | ok fildes =>
    obtain ⟨-, hopen, rfl⟩ := InodeView.syscall_ok h₁
    obtain ⟨rfl, hname, hopened⟩ := sysOpen_fileOf hopen
    rw [hnone, Option.getD_none] at hname hopened
    refine wp_created h.inv hname hino fun koa koas hinv => ?_
    rw [← hopened] at hinv
    refine wp_acquireNew_one (wp_allocArgs_one ?_)
    intro _ v₂ h₂ _ v₃ h₃ _ v₄ h₄
    obtain rfl := h₂
    obtain rfl := h₃
    obtain rfl := h₄
    exact wp_succeeds result _ 0 ⟨hinv, h.commits⟩

theorem InodeView.created_of_none {pathname : Path} (h : v.kernel.names pathname = none) :
    v.created pathname = v.file := by
  have hk : (sysRename v.kernel pathname v.temp).2 = v.kernel := by
    unfold sysRename
    rw [h]
  unfold created
  rw [hk, ite_self]
  show (v.kernel.names pathname).getD v.file = v.file
  rw [h]
  rfl

theorem InodeView.created_outside {pathname : Path} (h : v.xactstate ≠ .retryable) :
    v.created pathname = (v.kernel.names pathname).getD v.file := by
  unfold created
  rw [if_neg fun hc => h hc.1]

theorem xCreate_one (pathname : Path) (result : Option Nat) (h : OneState dev v)
    (hino : v.koas.aliasCache (v.created pathname).ino = none) :
    wp (inodeStep T) (xCreate pathname result : XProg n N Int) (OnePost dev) v := by
  simp only [xCreate, call_bind]
  intro x v₁ h₁
  obtain ⟨rfl, rfl⟩ := h₁
  cases hx : v₁.xactstate with
  | retryable =>
    intro _ v₂ h₂ inode v₃ h₃
    obtain rfl : v₂ = v₁ := h₂
    obtain ⟨rfl, rfl⟩ := h₃
    dsimp only
    split
    · rename_i hnum
      have hnone : v₃.kernel.names pathname = none := by
        cases hn : v₃.kernel.names pathname with
        | none => rfl
        | some f =>
          rw [hn] at hnum
          exact absurd hnum f.ino_ne
      rw [InodeView.created_of_none hnone] at hino
      exact xCreateCase1_one pathname result h hnone hino
    · exact xCreateCase2_one pathname _ result h hx hino
  | irrevocable | nontransactional =>
    rw [InodeView.created_outside (by rw [hx]; intro hc; cases hc)] at hino
    intro _ v₂ h₂ fildes v₃ h₃
    obtain rfl : v₂ = v₁ := h₂
    cases fildes with
    | error e => exact wp_fails result e
    | ok fildes =>
      obtain ⟨-, hopen, rfl⟩ := InodeView.syscall_ok h₃
      obtain ⟨rfl, hname, hopened⟩ := sysOpen_fileOf hopen
      refine wp_created h.inv hname hino fun koa koas hinv => ?_
      rw [← hopened] at hinv
      intro s v₄ h₄ _ v₅ h₅ _ v₆ h₆
      obtain rfl := h₄
      obtain rfl := h₅
      obtain rfl := h₆
      exact wp_succeeds result _ 0 ⟨hinv, h.commits⟩

end

end XCalls
